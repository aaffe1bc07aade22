import PregroupGrammar.Proofs.Fallible
import PregroupGrammar.Proofs.Numerals
import PregroupGrammar.Proofs.TextPieces
import PregroupGrammar.WordType

/-!
# What the notation spells

An atom can be spelled if it is not bound, its name is not empty and has no character that the
notation uses otherwise, it is generic exactly if there is a star in its name, and its markers are
numbered from 0 (`Atom.Spellable`). What reading gives can be spelled
(`WordType.spellable_of_ofText`), and what can be spelled is read back from its text
(`WordType.ofText_text_of_spellable`), so the types that the notation carries faithfully are the
types it can produce, the type without atoms apart.
-/

namespace PregroupGrammar

open Fallible Text

/-- The notation has a text for the atom that says all there is to it. -/
structure Atom.Spellable (a : Atom) : Prop where
  unbound : a.run? = none
  named : a.name ≠ ""
  plain : ∀ c ∈ a.name.toList, c ≠ '^' ∧ c ≠ '_' ∧ isBlank c = false
  starred : a.isGeneric = true ↔ '*' ∈ a.name.toList
  numbered : ∀ (i : Nat) (m : Marker), a.markers[i]? = some m → m.category.toNat = i

/-- There are atoms, and all of them can be spelled. -/
def WordType.Spellable (t : WordType) : Prop :=
  t.atoms ≠ [] ∧ ∀ a ∈ t.atoms, a.Spellable

namespace Marker

theorem ofField_ofNat (m : Marker) :
    ofField (Numeral.ofNat m.value.toNat) m.category.toNat = .ok m := by
  have hlt : m.category.toNat < maxMarkers := m.category.toNat_lt
  rw [ofField, Numeral.uint32?_ofNat]
  simp [hlt]

theorem category_of_ofField {field : List Char} {category : Nat} {m : Marker}
    (h : ofField field category = .ok m) : m.category.toNat = category := by
  unfold ofField at h
  split at h
  · simp at h
  · split_ifs at h with hlt
    obtain rfl := Except.ok.inj h
    exact UInt16.toNat_ofNat_of_lt hlt

/-- Marker values that are numbered in order are read as these markers. -/
theorem mapM_ofField : ∀ (markers : List Marker) (k : Nat),
    (∀ (i : Nat) (m : Marker), markers[i]? = some m → m.category.toNat = k + i) →
      ((markers.map fun m => Numeral.ofNat m.value.toNat).zipIdx k).mapM
        (fun x => ofField x.1 x.2) = .ok markers
  | [], k, _ => rfl
  | m :: markers, k, h => by
    have hm : m.category.toNat = k := by simpa using h 0 m rfl
    have ih := mapM_ofField markers (k + 1) fun i n hn => by
      rw [h (i + 1) n hn]
      omega
    have hfield : ofField (Numeral.ofNat m.value.toNat) k = .ok m := hm ▸ ofField_ofNat m
    simp only [List.map_cons, List.zipIdx_cons, List.mapM_cons, hfield, ih]
    rfl

theorem numbered_of_mapM {fields : List (List Char)} {markers : List Marker}
    (h : fields.zipIdx.mapM (fun x => ofField x.1 x.2) = .ok markers) :
    ∀ (i : Nat) (m : Marker), markers[i]? = some m → m.category.toNat = i := by
  intro i m hm
  have hall := mapM_eq_ok.1 h
  obtain ⟨hlt, rfl⟩ := List.getElem?_eq_some_iff.1 hm
  have hfield := hall.get (by rw [hall.length_eq]; exact hlt) hlt
  simp only [List.get_eq_getElem, List.getElem_zipIdx, Nat.zero_add] at hfield
  exact category_of_ofField hfield

end Marker

namespace Atom

/-- What the fields of the notation give: a generic atom without markers if there is a star in the
name, and else a concrete atom. -/
theorem ofFields_eq_ok {name : List Char} {e : Int32} {fields : List (List Char)} {a : Atom} :
    ofFields name e fields = .ok a ↔ name ≠ [] ∧
      ((a = generic (String.ofList name) e ∧ '*' ∈ name ∧ fields = []) ∨
        ∃ markers, a = concrete (String.ofList name) e markers ∧ '*' ∉ name ∧
          fields.zipIdx.mapM (fun x => Marker.ofField x.1 x.2) = .ok markers) := by
  rcases name with _ | ⟨c, name⟩
  · simp only [ne_eq, not_true_eq_false, false_and, iff_false]
    intro h
    cases h
  · unfold ofFields
    simp only [List.isEmpty_cons, Bool.false_eq_true, if_false]
    constructor
    · intro h
      refine ⟨by simp, ?_⟩
      obtain ⟨markers, hmarkers, h⟩ := bind_eq_ok.1 h
      split_ifs at h with hstar hempty
      · obtain rfl := Except.ok.inj h
        rw [List.isEmpty_iff] at hempty
        refine .inl ⟨rfl, hstar, ?_⟩
        have hlen := (mapM_eq_ok.1 hmarkers).length_eq
        rw [hempty, List.length_zipIdx] at hlen
        exact List.eq_nil_of_length_eq_zero hlen
      · obtain rfl := Except.ok.inj h
        exact .inr ⟨markers, rfl, hstar, hmarkers⟩
    · rintro ⟨-, ⟨rfl, hstar, rfl⟩ | ⟨markers, rfl, hstar, hmarkers⟩⟩
      · refine bind_eq_ok.2 ⟨[], rfl, ?_⟩
        rw [if_pos hstar]
        rfl
      · refine bind_eq_ok.2 ⟨markers, hmarkers, ?_⟩
        rw [if_neg hstar]
        rfl

/-- What the notation of an atom consists of. -/
theorem ofTrimmed_eq_ok {cs : List Char} {a : Atom} : ofTrimmed cs = .ok a ↔
    ∃ head exponent e name fields, cs.splitOn '^' = [head, exponent] ∧
      Numeral.int32? (trim exponent) = some e ∧ head.splitOn '_' = name :: fields ∧
      ofFields name e fields = .ok a := by
  unfold ofTrimmed
  constructor
  · intro h
    split at h
    · rename_i head exponent hsplit
      split at h
      · simp at h
      · rename_i e he
        split at h
        · simp at h
        · rename_i name fields hname
          exact ⟨head, exponent, e, name, fields, hsplit, he, hname, h⟩
    · simp at h
    · simp at h
    · simp at h
  · rintro ⟨head, exponent, e, name, fields, hsplit, he, hname, h⟩
    simp only [hsplit, he, hname]
    exact h

/-- What is read from a text without blanks can be spelled. -/
theorem spellable_of_ofTrimmed {cs : List Char} {a : Atom} (hclean : Clean cs)
    (h : ofTrimmed cs = .ok a) : a.Spellable := by
  obtain ⟨head, exponent, e, name, fields, hsplit, -, hname, h⟩ := ofTrimmed_eq_ok.1 h
  obtain ⟨hcaret, hhead⟩ := mem_of_mem_splitOn (hsplit ▸ List.mem_cons_self : head ∈ cs.splitOn '^')
  obtain ⟨hbar, hin⟩ := mem_of_mem_splitOn (hname ▸ List.mem_cons_self : name ∈ head.splitOn '_')
  have hplain : ∀ c ∈ (String.ofList name).toList, c ≠ '^' ∧ c ≠ '_' ∧ isBlank c = false := by
    intro c hc
    rw [String.toList_ofList] at hc
    refine ⟨?_, ?_, hclean c (hhead c (hin c hc))⟩
    · rintro rfl
      exact hcaret (hin _ hc)
    · rintro rfl
      exact hbar hc
  obtain ⟨hne, ⟨rfl, hstar, -⟩ | ⟨markers, rfl, hstar, hmarkers⟩⟩ := ofFields_eq_ok.1 h
  · refine ⟨rfl, ?_, hplain, ?_, by simp [markers]⟩
    · simpa [Atom.name] using hne
    · simpa [isGeneric, Atom.name] using hstar
  · refine ⟨rfl, ?_, hplain, ?_, Marker.numbered_of_mapM hmarkers⟩
    · simpa [Atom.name] using hne
    · simpa [isGeneric, Atom.name] using hstar

section Text

variable {name : String} {markers : List Marker} {e : Int32}

theorem toList_stem : (stem name markers e).toList =
    (name.toList ++ (markers.map fun m => Numeral.ofNat m.value.toNat).flatMap ('_' :: ·)) ++
      '^' :: Numeral.ofInt e.toInt := by
  simp [stem, Numeral.natText, Numeral.intText, String.toList_join, List.flatMap_map]

theorem mem_ofInt {n : Int} {c : Char} (h : c ∈ Numeral.ofInt n) : c = '-' ∨ c.isDigit = true := by
  rcases n with n | n
  · exact .inr (Numeral.isDigit_of_mem_ofNat h)
  · rcases List.mem_cons.1 h with rfl | h
    · exact .inl rfl
    · exact .inr (Numeral.isDigit_of_mem_ofNat h)

theorem clean_ofInt (n : Int) : Clean (Numeral.ofInt n) := by
  intro c hc
  rcases mem_ofInt hc with rfl | hc
  · decide
  · exact isBlank_of_isDigit hc

theorem mem_values {c : Char} {field : List Char}
    (hfield : field ∈ markers.map fun m => Numeral.ofNat m.value.toNat) (hc : c ∈ field) :
    c.isDigit = true := by
  obtain ⟨m, -, rfl⟩ := List.mem_map.1 hfield
  exact Numeral.isDigit_of_mem_ofNat hc

theorem clean_stem (hname : Clean name.toList) : Clean (stem name markers e).toList := by
  intro c hc
  rw [toList_stem, List.mem_append, List.mem_append, List.mem_flatMap, List.mem_cons] at hc
  rcases hc with (hc | ⟨field, hfield, hc⟩) | rfl | hc
  · exact hname c hc
  · rcases List.mem_cons.1 hc with rfl | hc
    · decide
    · exact isBlank_of_isDigit (mem_values hfield hc)
  · decide
  · exact clean_ofInt _ c hc

/-- The parts of the notation are found again in a text that is put together from them. -/
theorem ofTrimmed_stem {a : Atom} (hcaret : '^' ∉ name.toList) (hbar : '_' ∉ name.toList)
    (h : ofFields name.toList e (markers.map fun m => Numeral.ofNat m.value.toNat) = .ok a) :
    ofTrimmed (stem name markers e).toList = .ok a := by
  have hdigits : ∀ c, c.isDigit = false → c ≠ '_' →
      c ∉ (markers.map fun m => Numeral.ofNat m.value.toNat).flatMap ('_' :: ·) := by
    intro c hdigit hbar hc
    obtain ⟨field, hfield, hc⟩ := List.mem_flatMap.1 hc
    rcases List.mem_cons.1 hc with hc | hc
    · exact hbar hc
    · simp [mem_values hfield hc] at hdigit
  have hhead : '^' ∉ name.toList ++
      (markers.map fun m => Numeral.ofNat m.value.toNat).flatMap ('_' :: ·) := by
    rw [List.mem_append, not_or]
    exact ⟨hcaret, hdigits '^' (by decide) (by decide)⟩
  have hexponent : '^' ∉ Numeral.ofInt e.toInt := fun hc => by simpa using mem_ofInt hc
  have hsplit := List.splitOn_append_cons_self_of_not_mem hhead (Numeral.ofInt e.toInt)
  rw [List.splitOn_eq_singleton hexponent, ← toList_stem] at hsplit
  have hread : Numeral.int32? (trim (Numeral.ofInt e.toInt)) = some e := by
    rw [trim_of_clean (clean_ofInt _), Numeral.int32?_ofInt]
  have hvalues : ∀ field ∈ markers.map fun m => Numeral.ofNat m.value.toNat, '_' ∉ field :=
    fun field hfield hc => by simpa using mem_values hfield hc
  have hfields := splitOn_append_flatMap hbar hvalues
  exact ofTrimmed_eq_ok.2 ⟨_, _, e, _, _, hsplit, hread, hfields, h⟩

end Text

theorem Spellable.text_eq {a : Atom} (h : a.Spellable) :
    a.text = stem a.name a.markers a.adjoint := by
  cases a with
  | concrete => rfl
  | generic => rfl
  | bound => simpa [run?] using h.unbound

theorem Spellable.clean {a : Atom} (h : a.Spellable) : Clean a.text.toList := by
  rw [h.text_eq]
  exact clean_stem fun c hc => (h.plain c hc).2.2

theorem Spellable.ofFields {a : Atom} (h : a.Spellable) : Atom.ofFields a.name.toList a.adjoint
    (a.markers.map fun m => Numeral.ofNat m.value.toNat) = .ok a := by
  have hname : a.name.toList ≠ [] := by simpa using h.named
  have hstar := h.starred
  cases a with
  | concrete name e markers =>
    refine ofFields_eq_ok.2 ⟨hname, .inr ⟨markers, ?_, ?_, ?_⟩⟩
    · rw [String.ofList_toList]
      rfl
    · simpa [isGeneric] using hstar
    · exact Marker.mapM_ofField markers 0 (by simpa [Atom.markers] using h.numbered)
  | generic name e =>
    refine ofFields_eq_ok.2 ⟨hname, .inl ⟨?_, ?_, rfl⟩⟩
    · rw [String.ofList_toList]
      rfl
    · simpa [isGeneric] using hstar
  | bound name e run => simpa [run?] using h.unbound

/-- What can be spelled is read back from its text. -/
theorem Spellable.ofText_text {a : Atom} (h : a.Spellable) : Atom.ofText a.text = .ok a := by
  have hcaret : '^' ∉ a.name.toList := fun hc => (h.plain _ hc).1 rfl
  have hbar : '_' ∉ a.name.toList := fun hc => (h.plain _ hc).2.1 rfl
  refine mapError_eq_ok.2 ?_
  rw [trim_of_clean h.clean, h.text_eq]
  exact ofTrimmed_stem hcaret hbar h.ofFields

theorem Spellable.toList_text_ne_nil {a : Atom} (h : a.Spellable) : a.text.toList ≠ [] := by
  rw [h.text_eq, toList_stem]
  simp

end Atom

namespace WordType

theorem spellable_of_ofText {text : String} {t : WordType} (h : ofText text = .ok t) :
    ∀ a ∈ t.atoms, a.Spellable := by
  obtain ⟨atoms, hatoms, rfl⟩ := map_eq_ok.1 h
  intro a ha
  obtain ⟨word, hword, hread⟩ := exists_mem_of_forall₂ (mapM_eq_ok.1 hatoms).flip ha
  have hread : Atom.ofTrimmed (trim word) = .ok a := by
    simpa [Atom.ofText, mapError_eq_ok] using hread
  have hclean := clean_of_mem_words hword
  exact Atom.spellable_of_ofTrimmed (fun c hc => hclean c (mem_of_mem_trim hc)) hread

theorem words_text {t : WordType} (h : t.Spellable) :
    words t.text.toList = t.atoms.map fun a => a.text.toList := by
  obtain ⟨hne, hall⟩ := h
  have htext : t.text.toList = [' '].intercalate (t.atoms.map fun a => a.text.toList) := by
    rw [text, if_neg (by simpa using hne), joinWith, String.toList_intercalate, List.map_map]
    rfl
  rw [htext]
  refine words_intercalate (fun l hl => ?_) (by simpa using hne)
  obtain ⟨a, ha, rfl⟩ := List.mem_map.1 hl
  exact ⟨(hall a ha).toList_text_ne_nil, (hall a ha).clean⟩

theorem ofText_text_of_spellable {t : WordType} (h : t.Spellable) : ofText t.text = .ok t := by
  refine map_eq_ok.2 ⟨t.atoms, mapM_eq_ok.2 ?_, rfl⟩
  rw [words_text h, List.forall₂_map_left_iff, List.forall₂_same]
  intro a ha
  rw [String.ofList_toList]
  exact (h.2 a ha).ofText_text

/-- The text of the type without atoms cannot be read. -/
theorem ofText_text_unit : ofText unit.text = .error ⟨"1", .noAdjoint⟩ := by
  rfl

/-- A type is read back from its text exactly if it has atoms and all of them can be spelled, which
holds of every type with atoms that is read from a text. -/
theorem ofText_text_iff_spellable :
    (∀ t : WordType, ofText t.text = .ok t ↔ t.Spellable) ∧
      ∀ (text : String) (t : WordType), ofText text = .ok t → t.atoms ≠ [] →
        t.Spellable ∧ ofText t.text = .ok t := by
  have hread : ∀ (text : String) (t : WordType), ofText text = .ok t → t.atoms ≠ [] →
      t.Spellable := fun text t h hne => ⟨hne, spellable_of_ofText h⟩
  refine ⟨fun t => ⟨fun h => hread _ t h ?_, ofText_text_of_spellable⟩, fun text t h hne => ?_⟩
  · intro hnil
    obtain rfl : t = unit := by
      cases t
      simpa [unit] using hnil
    simp [ofText_text_unit] at h
  · have hspellable := hread text t h hne
    exact ⟨hspellable, ofText_text_of_spellable hspellable⟩

theorem ofText_text_iff_spellable_sample :
    let t : WordType := ⟨[.concrete "n" (-1) [⟨0, 1⟩, ⟨1, 2⟩], .generic "*X" 0]⟩
    let u : WordType := ⟨[.bound "*X" 2 [.plain "n" 0]]⟩
    ofText " n_1_+02^-1\t*X^0" = .ok t ∧ t.Spellable ∧ ofText t.text = .ok t ∧
      ofText u.text ≠ .ok u := by
  have hread : ofText " n_1_+02^-1\t*X^0" =
      .ok ⟨[.concrete "n" (-1) [⟨0, 1⟩, ⟨1, 2⟩], .generic "*X" 0]⟩ := by
    rfl
  refine ⟨hread, (ofText_text_iff_spellable.2 _ _ hread (by simp)).1,
    (ofText_text_iff_spellable.2 _ _ hread (by simp)).2, fun hbound => ?_⟩
  have hspellable := (ofText_text_iff_spellable.1 _).1 hbound
  simpa [Atom.run?] using (hspellable.2 _ List.mem_cons_self).unbound

end WordType

end PregroupGrammar
