import Mathlib.Data.List.Nodup
import PregroupGrammar.Metarule.Basic

/-!
# The form of a metarule

A metarule is made of a pattern and a target exactly if the pattern is not empty, no two neighbours
in it are generic, none of its generics occurs twice and the target has none that the pattern lacks
(`fault?_eq_none`).
-/

namespace PregroupGrammar.Metarule

/-- The two atoms are not both generic. -/
def Apart (a b : Atom) : Prop :=
  ¬ (a.isGeneric = true ∧ b.isGeneric = true)

/-- The pattern and the target make a metarule. -/
structure WellFormed (pattern target : WordType) : Prop where
  nonempty : pattern.atoms ≠ []
  apart : pattern.atoms.IsChain Apart
  nodup : (genericNames pattern.atoms).Nodup
  bound : ∀ name ∈ genericNames target.atoms, name ∈ genericNames pattern.atoms

theorem adjacentGenerics?_eq_none : ∀ {atoms : List Atom},
    adjacentGenerics? atoms = none ↔ atoms.IsChain Apart
  | [] => by simp [adjacentGenerics?]
  | [a] => by simp [adjacentGenerics?]
  | a :: b :: rest => by
    rw [adjacentGenerics?, List.isChain_cons_cons, ← adjacentGenerics?_eq_none]
    split_ifs with h
    · rw [Bool.and_eq_true] at h
      simp [Apart, h]
    · rw [Bool.and_eq_true] at h
      simp [Apart, h]

theorem repeated?_eq_none : ∀ {names before : List String},
    repeated? before names = none ↔ names.Nodup ∧ ∀ name ∈ names, name ∉ before
  | [], before => by simp [repeated?]
  | name :: names, before => by
    rw [repeated?]
    split_ifs with h
    · simp [h]
    · rw [repeated?_eq_none, List.nodup_cons]
      constructor
      · rintro ⟨hnodup, hnew⟩
        refine ⟨⟨fun hmem => hnew name hmem List.mem_cons_self, hnodup⟩, ?_⟩
        exact List.forall_mem_cons.2 ⟨h, fun n hn hb => hnew n hn (List.mem_cons_of_mem _ hb)⟩
      · rintro ⟨⟨hname, hnodup⟩, hnew⟩
        refine ⟨hnodup, fun n hn hb => ?_⟩
        rcases List.mem_cons.1 hb with rfl | hb
        · exact hname hn
        · exact hnew n (List.mem_cons_of_mem _ hn) hb

/-- Nothing is wrong with a pattern and a target exactly if they make a metarule. -/
theorem fault?_eq_none {pattern target : WordType} :
    fault? pattern target = none ↔ WellFormed pattern target := by
  unfold fault?
  constructor
  · intro h
    split_ifs at h with hempty
    split at h
    · simp at h
    · rename_i hapart
      simp only at h
      split at h
      · simp at h
      · rename_i hrepeated
        refine ⟨by simpa using hempty, adjacentGenerics?_eq_none.1 hapart,
          (repeated?_eq_none.1 hrepeated).1, fun name hname => ?_⟩
        rw [Option.map_eq_none_iff, List.find?_eq_none] at h
        simpa using h name hname
  · rintro ⟨hne, hapart, hnodup, hbound⟩
    have hrepeated : repeated? [] (genericNames pattern.atoms) = none :=
      repeated?_eq_none.2 ⟨hnodup, by simp⟩
    rw [if_neg (by simpa using hne), adjacentGenerics?_eq_none.2 hapart]
    simp only [hrepeated]
    rw [Option.map_eq_none_iff, List.find?_eq_none]
    intro name hname
    simpa using hbound name hname

theorem form (rule : Metarule) : WellFormed rule.pattern rule.target :=
  fault?_eq_none.1 rule.wellFormed

theorem make_eq_ok {tag : Int64} {pattern target : WordType} {rule : Metarule} :
    make tag pattern target = .ok rule ↔
      rule.tag = tag ∧ rule.pattern = pattern ∧ rule.target = target := by
  unfold make
  split
  · rename_i h
    rw [Except.ok.injEq]
    constructor
    · rintro rfl
      exact ⟨rfl, rfl, rfl⟩
    · rintro ⟨rfl, rfl, rfl⟩
      rfl
  · rename_i fault h
    simp only [reduceCtorEq, false_iff]
    rintro ⟨-, rfl, rfl⟩
    simp [rule.wellFormed] at h

theorem exists_make_eq_ok {tag : Int64} {pattern target : WordType} :
    (∃ rule, make tag pattern target = .ok rule) ↔ WellFormed pattern target := by
  constructor
  · rintro ⟨rule, h⟩
    obtain ⟨-, rfl, rfl⟩ := make_eq_ok.1 h
    exact rule.form
  · intro h
    exact ⟨⟨tag, pattern, target, fault?_eq_none.2 h⟩, make_eq_ok.2 ⟨rfl, rfl, rfl⟩⟩

end PregroupGrammar.Metarule
