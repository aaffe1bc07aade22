import PregroupGrammar.Proofs.AtomNotation

/-!
# Which texts are atoms

An account of the notation without a reader: what a text consists of that spells an atom, and which
atom it then spells (`Atom.Spelling`, `Spelling.atom`). A text is read as an atom exactly if, with
the blanks at its ends left out, it has a spelling of that atom; every other text is reported as it
was given (`ofText_eq_ok_iff_spelling`).

There is one caret, so the text can be cut at it in one way only, and there is no underscore in the
name or in a numeral, so the rest of it can be cut in one way only, too (`splitOn_eq_cons_iff`).
-/

namespace PregroupGrammar

open Fallible Text

namespace Marker

/-- The markers with these values, each in the category of its position, counted from `k`. -/
def numberedFrom (k : Nat) (values : List UInt32) : List Marker :=
  (values.zipIdx k).map fun (value, i) => ⟨UInt16.ofNat i, value⟩

theorem ofField_eq_ok {field : List Char} {category : Nat} {m : Marker} :
    ofField field category = .ok m ↔ category < maxMarkers ∧
      ∃ value : UInt32, Numeral.IsNatural field value.toNat ∧
        m = ⟨UInt16.ofNat category, value⟩ := by
  simp only [← Numeral.uint32?_eq_some]
  unfold ofField
  rcases h : Numeral.uint32? field with _ | value
  · exact iff_of_false nofun (by simp)
  · by_cases hlt : category < maxMarkers
    · simp [hlt, eq_comm]
    · simp [hlt]

/-- Fields are read as markers exactly if there are not too many and each spells its value. -/
theorem mapM_ofField_eq_ok : ∀ {fields : List (List Char)} {k : Nat} {markers : List Marker},
    k ≤ maxMarkers →
      ((fields.zipIdx k).mapM (fun x => ofField x.1 x.2) = .ok markers ↔
        k + fields.length ≤ maxMarkers ∧ ∃ values : List UInt32,
          List.Forall₂ (fun field value => Numeral.IsNatural field value.toNat) fields values ∧
            markers = numberedFrom k values)
  | [], k, markers, hk => by
    simp [hk, numberedFrom, pure, Except.pure, eq_comm]
  | field :: fields, k, markers, hk => by
    rw [List.zipIdx_cons, List.mapM_cons, List.length_cons]
    constructor
    · intro h
      obtain ⟨m, hm, h⟩ := bind_eq_ok.1 h
      obtain ⟨rest, hrest, h⟩ := bind_eq_ok.1 h
      obtain rfl := Except.ok.inj h
      obtain ⟨hlt, value, hvalue, rfl⟩ := ofField_eq_ok.1 hm
      obtain ⟨hlength, values, hvalues, rfl⟩ := (mapM_ofField_eq_ok hlt).1 hrest
      exact ⟨by omega, value :: values, .cons hvalue hvalues, rfl⟩
    · rintro ⟨hlength, _, hall, rfl⟩
      obtain ⟨value, values, hvalue, hvalues, rfl⟩ := List.forall₂_cons_left_iff.1 hall
      have hlt : k < maxMarkers := by omega
      have hlength : k + 1 + fields.length ≤ maxMarkers := by omega
      have hm := ofField_eq_ok.2 ⟨hlt, value, hvalue, rfl⟩
      have hrest := (mapM_ofField_eq_ok hlt).2 ⟨hlength, values, hvalues, rfl⟩
      exact bind_eq_ok.2 ⟨_, hm, bind_eq_ok.2 ⟨_, hrest, rfl⟩⟩

end Marker

namespace Atom

/-- A spelling of an atom: a name, any groups of an underscore and the value of a marker, and the
adjoint after the only caret. A name with a star in it stands without groups. Blanks count, except
around the adjoint. -/
structure Spelling (cs : List Char) where
  name : List Char
  groups : List (List Char)
  exponent : List Char
  values : List UInt32
  adjoint : Int32
  text_eq : cs = name ++ groups.flatMap ('_' :: ·) ++ '^' :: exponent
  one_caret : cs.count '^' = 1
  name_ne_nil : name ≠ []
  bar_notMem : '_' ∉ name
  exponent_spells : Numeral.IsInteger (trim exponent) adjoint.toInt
  groups_spell : List.Forall₂ (fun group value => Numeral.IsNatural group value.toNat) groups values
  groups_length : groups.length ≤ 65536
  starred_bare : '*' ∈ name → groups = []

namespace Spelling

variable {cs : List Char}

/-- The atom that is spelled: a generic one if there is a star in the name, and else a concrete one
whose markers are numbered in order. -/
def atom (s : Spelling cs) : Atom :=
  if '*' ∈ s.name then generic (String.ofList s.name) s.adjoint
  else concrete (String.ofList s.name) s.adjoint (Marker.numberedFrom 0 s.values)

theorem count_caret {front back : List Char} :
    (front ++ '^' :: back).count '^' = 1 ↔ '^' ∉ front ∧ '^' ∉ back := by
  rw [List.count_append, List.count_cons_self, ← List.count_eq_zero, ← List.count_eq_zero]
  omega

theorem ofFields (s : Spelling cs) : Atom.ofFields s.name s.adjoint s.groups = .ok s.atom := by
  refine ofFields_eq_ok.2 ⟨s.name_ne_nil, ?_⟩
  unfold atom
  split_ifs with hstar
  · exact .inl ⟨rfl, hstar, s.starred_bare hstar⟩
  · have hlength : 0 + s.groups.length ≤ maxMarkers := by
      rw [Nat.zero_add]
      exact s.groups_length
    exact .inr ⟨_, rfl, hstar,
      (Marker.mapM_ofField_eq_ok (by decide)).2 ⟨hlength, s.values, s.groups_spell, rfl⟩⟩

/-- What is spelled is read. -/
theorem ofTrimmed (s : Spelling cs) : Atom.ofTrimmed cs = .ok s.atom := by
  obtain ⟨hhead, hexponent⟩ := count_caret.1 (s.text_eq ▸ s.one_caret)
  have hcaret : cs.splitOn '^' = [s.name ++ s.groups.flatMap ('_' :: ·), s.exponent] :=
    splitOn_eq_cons_iff.2 ⟨by simpa using s.text_eq, hhead, by simpa using hexponent⟩
  have hbar : ∀ group ∈ s.groups, '_' ∉ group := by
    intro group hgroup
    obtain ⟨value, -, hvalue⟩ := exists_mem_of_forall₂ s.groups_spell hgroup
    exact hvalue.notMem (by decide) (by decide)
  have hname := splitOn_eq_cons_iff.2 ⟨rfl, s.bar_notMem, hbar⟩
  have hadjoint := Numeral.int32?_eq_some.2 s.exponent_spells
  exact ofTrimmed_eq_ok.2 ⟨_, _, _, _, _, hcaret, hadjoint, hname, s.ofFields⟩

/-- What is read is spelled. -/
theorem exists_of_ofTrimmed {a : Atom} (h : Atom.ofTrimmed cs = .ok a) :
    ∃ s : Spelling cs, s.atom = a := by
  obtain ⟨head, exponent, e, name, fields, hcaret, hadjoint, hname, h⟩ := ofTrimmed_eq_ok.1 h
  obtain ⟨htext, hhead, hexponent⟩ := splitOn_eq_cons_iff.1 hcaret
  obtain ⟨rfl, hbar, -⟩ := splitOn_eq_cons_iff.1 hname
  have hadjoint := Numeral.int32?_eq_some.1 hadjoint
  have htext : cs = name ++ fields.flatMap ('_' :: ·) ++ '^' :: exponent := by simpa using htext
  have hcount : cs.count '^' = 1 := by
    rw [htext]
    exact count_caret.2 ⟨hhead, by simpa using hexponent⟩
  obtain ⟨hne, ⟨rfl, hstar, rfl⟩ | ⟨markers, rfl, hstar, hmarkers⟩⟩ := ofFields_eq_ok.1 h
  · exact ⟨⟨name, [], exponent, [], e, htext, hcount, hne, hbar, hadjoint, .nil, by simp,
      fun _ => rfl⟩, if_pos hstar⟩
  · obtain ⟨hlength, values, hvalues, rfl⟩ :=
      (Marker.mapM_ofField_eq_ok (by decide)).1 hmarkers
    rw [Nat.zero_add] at hlength
    exact ⟨⟨name, fields, exponent, values, e, htext, hcount, hne, hbar, hadjoint, hvalues, hlength,
      fun h => absurd h hstar⟩, if_neg hstar⟩

end Spelling

/-- A text is read as an atom exactly if, blanks at its ends apart, it is a spelling of that atom. A
text without a spelling is malformed, and is reported with its blanks. -/
theorem ofText_eq_ok_iff_spelling (text : String) :
    (∀ a, ofText text = .ok a ↔ ∃ s : Spelling (trim text.toList), s.atom = a) ∧
      ((∃ fault, ofText text = .error ⟨text, fault⟩) ↔ IsEmpty (Spelling (trim text.toList))) := by
  have hread : ∀ a, ofText text = .ok a ↔ ∃ s : Spelling (trim text.toList), s.atom = a := by
    intro a
    rw [ofText, mapError_eq_ok]
    refine ⟨Spelling.exists_of_ofTrimmed, ?_⟩
    rintro ⟨s, rfl⟩
    exact s.ofTrimmed
  refine ⟨hread, ?_, fun hnone => ?_⟩
  · rintro ⟨fault, hfault⟩
    refine ⟨fun s => ?_⟩
    have hok := (hread s.atom).2 ⟨s, rfl⟩
    rw [hfault] at hok
    cases hok
  · rcases h : ofText text with e | a
    · obtain ⟨fault, -, rfl⟩ := mapError_eq_error.1 h
      exact ⟨fault, rfl⟩
    · obtain ⟨s, -⟩ := (hread a).1 h
      exact hnone.elim s

example : ofText "\t n b_+07^ -1\n" = .ok (.concrete "n b" (-1) [⟨0, 7⟩]) := rfl

end Atom

end PregroupGrammar
