import PregroupGrammar.Lexicon

/-!
# Sorted dictionaries

Sorting leaves entries with equal keys in the order in which they were given. So an order in which
all entries were given still holds between any two with equal keys (`pairwise_ties_mergeSort`), and
the first entry with a key, which is the one that is found, is the first one that was given
(`find?_mergeSort`, `Lexicon.find?_ofEntries`).
-/

namespace PregroupGrammar

section StableSort

variable {α : Type} {le : α → α → Bool} (trans : ∀ a b c, le a b → le b c → le a c)
  (total : ∀ a b, le a b || le b a)
include trans total

theorem pairwise_ties_mergeSort {R : α → α → Prop} : ∀ {l : List α}, l.Pairwise R →
    (l.mergeSort le).Pairwise fun a b => le b a → R a b
  | [], _ => by simp
  | a :: l, h => by
    obtain ⟨ha, hl⟩ := List.pairwise_cons.1 h
    obtain ⟨front, back, hsorted, hrest, hfront⟩ := List.mergeSort_cons trans total a l
    have ih := pairwise_ties_mergeSort hl
    rw [hrest, List.pairwise_append] at ih
    obtain ⟨ihfront, ihback, ihacross⟩ := ih
    rw [hsorted, List.pairwise_append, List.pairwise_cons]
    refine ⟨ihfront, ⟨fun b hb _ => ?_, ihback⟩, fun b hb c hc hcb => ?_⟩
    · have hmem : b ∈ l.mergeSort le := hrest ▸ List.mem_append_right _ hb
      exact ha b (List.mem_mergeSort.1 hmem)
    · rcases List.mem_cons.1 hc with rfl | hc
      -- Nothing that is moved in front of the item ties with it.
      · exact absurd hcb (by simpa using hfront b hb)
      · exact ihacross b hb c hc hcb

theorem find?_mergeSort {p : α → Bool} (hp : ∀ a b, p a → p b → le a b) :
    ∀ l : List α, (l.mergeSort le).find? p = l.find? p
  | [] => by simp
  | a :: l => by
    obtain ⟨front, back, hsorted, hrest, hfront⟩ := List.mergeSort_cons trans total a l
    have ih := find?_mergeSort hp l
    rw [hrest, List.find?_append] at ih
    rw [hsorted, List.find?_append]
    by_cases ha : p a = true
    · have hnone : front.find? p = none := by
        refine List.find?_eq_none.2 fun b hb hpb => ?_
        simpa [hp a b ha hpb] using hfront b hb
      rw [hnone, Option.none_or, List.find?_cons_of_pos ha, List.find?_cons_of_pos ha]
    · rw [List.find?_cons_of_neg ha, List.find?_cons_of_neg ha, ih]

end StableSort

namespace Lexicon

variable {key : String → String} {entries : List Entry}

/-- The order of the entries by their keys. -/
def keyLE (key : String → String) (a b : Entry) : Bool :=
  key a.word ≤ key b.word

theorem keyLE_trans (a b c : Entry) (hab : keyLE key a b) (hbc : keyLE key b c) :
    keyLE key a c := by
  simp only [keyLE, decide_eq_true_eq] at *
  exact String.le_trans hab hbc

theorem keyLE_total (a b : Entry) : keyLE key a b || keyLE key b a := by
  simpa [keyLE] using String.le_total (key a.word) (key b.word)

theorem pairs_ofEntries : (ofEntries key entries).keyed.pairs =
    (entries.mergeSort (keyLE key)).map fun entry => (key entry.word, entry) :=
  (List.map_mergeSort (f := fun entry : Entry => (key entry.word, entry)) fun _ _ _ _ => rfl).symm

theorem entries_ofEntries :
    (ofEntries key entries).entries = entries.mergeSort (keyLE key) := by
  rw [Lexicon.entries, pairs_ofEntries, List.map_map]
  exact List.map_id _

theorem mem_entries_ofEntries {entry : Entry} :
    entry ∈ (ofEntries key entries).entries ↔ entry ∈ entries := by
  rw [entries_ofEntries, List.mem_mergeSort]

theorem pairwise_entries_ofEntries {R : Entry → Entry → Prop} (h : entries.Pairwise R) :
    (ofEntries key entries).entries.Pairwise fun a b =>
      key a.word < key b.word ∨ key a.word = key b.word ∧ R a b := by
  rw [entries_ofEntries]
  have hsorted : (entries.mergeSort (keyLE key)).Pairwise fun a b => keyLE key a b :=
    List.pairwise_mergeSort keyLE_trans keyLE_total entries
  have hties : (entries.mergeSort (keyLE key)).Pairwise fun a b => keyLE key b a → R a b :=
    pairwise_ties_mergeSort keyLE_trans keyLE_total h
  refine (hsorted.and hties).imp fun {a b} hab => ?_
  simp only [keyLE, decide_eq_true_eq] at hab
  obtain ⟨hle, hR⟩ := hab
  by_cases hge : key b.word ≤ key a.word
  · exact .inr ⟨String.le_antisymm hle hge, hR hge⟩
  · exact .inl (String.not_le.1 hge)

theorem lookup_map (name : String) : ∀ l : List Entry,
    (l.map fun entry => (key entry.word, entry)).lookup name = l.find? (key ·.word == name)
  | [] => rfl
  | entry :: l => by
    rw [List.map_cons, List.lookup_cons, List.find?_cons, lookup_map name l, Bool.beq_comm]

theorem find?_ofEntries (name : String) :
    (ofEntries key entries).find? name = entries.find? (key ·.word == name) := by
  rw [Lexicon.find?, KeyedList.find?_eq_lookup, pairs_ofEntries, lookup_map]
  refine find?_mergeSort keyLE_trans keyLE_total (fun a b ha hb => ?_) entries
  simp only [keyLE, beq_iff_eq, decide_eq_true_eq] at *
  have hab : key a.word = key b.word := ha.trans hb.symm
  exact hab ▸ String.le_refl (key a.word)

theorem mem_entries_of_find? {lexicon : Lexicon} {key : String} {entry : Entry}
    (h : lexicon.find? key = some entry) : entry ∈ lexicon.entries := by
  rw [find?, KeyedList.find?_eq_lookup] at h
  exact List.mem_map.2 ⟨_, KeyedList.mem_of_lookup_eq_some h, rfl⟩

end Lexicon

end PregroupGrammar
