import Mathlib.Data.List.Forall2
import PregroupGrammar.PathTree

/-!
# Which paths are enumerated

The paths of a sentence are the choices of one candidate for each word (`mem_enumeratePaths`). Every
generation of the tree extends each stem by each candidate of its word, where the tree without
generations has the empty stem.
-/

namespace PregroupGrammar

namespace PathTree

variable {α : Type}

/-- What the next generation grows from. -/
def stems (tree : PathTree α) : List (List α) :=
  if tree.generations = 0 then [[]] else tree.leaves

theorem stems_grow (tree : PathTree α) (candidates : List α) :
    (tree.grow candidates).stems = tree.stems.flatMap fun stem => candidates.map (· :: stem) :=
  rfl

theorem length_stems_grow (tree : PathTree α) (candidates : List α) :
    (tree.grow candidates).stems.length = tree.stems.length * candidates.length := by
  rw [stems_grow, List.length_flatMap]
  simp only [List.length_map, List.map_const', List.sum_replicate_nat]

theorem mem_stems_grow {tree : PathTree α} {candidates : List α} {leaf : List α} :
    leaf ∈ (tree.grow candidates).stems ↔
      ∃ stem ∈ tree.stems, ∃ a ∈ candidates, leaf = a :: stem := by
  simp only [stems_grow, List.mem_flatMap, List.mem_map, eq_comm]

theorem generations_foldl_grow : ∀ (words : List (List α)) (tree : PathTree α),
    (words.foldl grow tree).generations = tree.generations + words.length
  | [], _ => rfl
  | word :: words, tree => by
    rw [List.foldl_cons, generations_foldl_grow words, List.length_cons]
    simp only [grow]
    omega

/-- A leaf is a stem with a choice of one candidate for each further word, last choice first. -/
theorem mem_stems_foldl_grow : ∀ (words : List (List α)) (tree : PathTree α) {leaf : List α},
    leaf ∈ (words.foldl grow tree).stems ↔
      ∃ stem ∈ tree.stems, ∃ choice, List.Forall₂ (· ∈ ·) choice words ∧
        leaf = choice.reverse ++ stem
  | [], tree, leaf => by simp
  | word :: words, tree, leaf => by
    rw [List.foldl_cons, mem_stems_foldl_grow words]
    constructor
    · rintro ⟨grown, hgrown, choice, hc, rfl⟩
      obtain ⟨stem, hs, a, ha, rfl⟩ := mem_stems_grow.1 hgrown
      exact ⟨stem, hs, a :: choice, .cons ha hc, by simp⟩
    · rintro ⟨stem, hs, choice, hc, rfl⟩
      obtain ⟨a, rest, ha, hrest, rfl⟩ := List.forall₂_cons_right_iff.1 hc
      exact ⟨a :: stem, mem_stems_grow.2 ⟨stem, hs, a, ha, rfl⟩, rest, hrest, by simp⟩

end PathTree

/-- The paths are the stems after all words, if there is a word. -/
theorem enumeratePaths_eq {α : Type} {words : List (List α)} (h : words ≠ []) :
    enumeratePaths words =
      (words.foldl PathTree.grow PathTree.empty).stems.map List.reverse := by
  have hgrown : (words.foldl PathTree.grow PathTree.empty).generations ≠ 0 := by
    rw [PathTree.generations_foldl_grow]
    have := List.length_pos_of_ne_nil h
    omega
  rw [enumeratePaths, PathTree.paths, PathTree.stems, if_neg hgrown]

/-- The paths are the choices of one candidate for each word, if there is a word. -/
theorem mem_enumeratePaths {α : Type} {words : List (List α)} (h : words ≠ []) {path : List α} :
    path ∈ enumeratePaths words ↔ List.Forall₂ (· ∈ ·) path words := by
  rw [enumeratePaths_eq h, List.mem_map]
  simp only [PathTree.mem_stems_foldl_grow]
  constructor
  · rintro ⟨leaf, ⟨stem, hs, choice, hc, rfl⟩, rfl⟩
    obtain rfl : stem = [] := by simpa [PathTree.stems, PathTree.empty] using hs
    simpa using hc
  · intro hp
    exact ⟨path.reverse, ⟨[], by simp [PathTree.stems, PathTree.empty], path, hp, by simp⟩,
      List.reverse_reverse path⟩

end PregroupGrammar
