import Mathlib.Algebra.BigOperators.Group.List.Basic
import Mathlib.Data.List.Induction
import PregroupGrammar.Proofs.PathGraph

/-!
# The order of the paths

The paths of a sentence are numbered like the numerals of a mixed-radix system: the choice for a
word is a digit, of which there are as many as the word has candidates, and the last word is the
place that counts least (`getElem?_stems`). A generation multiplies the number of the stems
(`length_stems_foldl_grow`) and appends such a place (`getElem?_flatMap_map`).
-/

namespace PregroupGrammar

variable {α : Type}

theorem getElem?_flatMap_map {β γ : Type} (f : β → α → γ) (candidates : List α) :
    ∀ (l : List β) (q : Nat), (l.flatMap fun s => candidates.map (f s))[q]? =
      l[q / candidates.length]?.bind fun s => candidates[q % candidates.length]?.map (f s)
  | [], q => by simp
  | s :: l, q => by
    rw [List.flatMap_cons]
    by_cases hq : q < candidates.length
    · rw [List.getElem?_append_left (by simpa using hq), List.getElem?_map, Nat.div_eq_of_lt hq,
        Nat.mod_eq_of_lt hq]
      simp
    · rcases hc : candidates.length with _ | n
      · simp [List.length_eq_zero_iff.1 hc]
      · have hle : candidates.length ≤ q := Nat.not_lt.1 hq
        rw [List.getElem?_append_right (by simpa using hle), List.length_map,
          getElem?_flatMap_map f candidates l, ← hc, Nat.div_eq_sub_div (by omega) hle,
          Nat.mod_eq_sub_mod hle, List.getElem?_cons_succ]

namespace PathTree

theorem length_stems_foldl_grow : ∀ (words : List (List α)) (tree : PathTree α),
    (words.foldl grow tree).stems.length = tree.stems.length * (words.map List.length).prod
  | [], tree => by simp
  | word :: words, tree => by
    rw [List.foldl_cons, length_stems_foldl_grow words, length_stems_grow, List.map_cons,
      List.prod_cons, Nat.mul_assoc]

theorem length_of_getElem?_stems {words : List (List α)} {q : Nat} {stem : List α}
    (h : (words.foldl grow empty).stems[q]? = some stem) : stem.length = words.length := by
  obtain ⟨front, hfront, choice, hchoice, rfl⟩ :=
    (mem_stems_foldl_grow words empty).1 (List.mem_of_getElem? h)
  obtain rfl : front = [] := by simpa [stems, empty] using hfront
  simpa using hchoice.length_eq

/-- The choice for a word is the digit of the number of the stem, where the digits of the words
after it count less. -/
theorem getElem?_stems (words : List (List α)) : ∀ {q : Nat} {stem : List α},
    (words.foldl grow empty).stems[q]? = some stem →
      ∀ k word, words[k]? = some word → stem.reverse[k]? =
        word[q / ((words.drop (k + 1)).map List.length).prod % word.length]? := by
  induction words using List.reverseRecOn with
  | nil => simp
  | append_singleton words last ih =>
    intro q stem hq k word hword
    rw [List.foldl_append, List.foldl_cons, List.foldl_nil, stems_grow, getElem?_flatMap_map,
      Option.bind_eq_some_iff] at hq
    obtain ⟨front, hfront, hq⟩ := hq
    obtain ⟨a, ha, rfl⟩ := Option.map_eq_some_iff.1 hq
    have hlength : front.reverse.length = words.length := by
      rw [List.length_reverse]
      exact length_of_getElem?_stems hfront
    rw [List.reverse_cons]
    rcases Nat.lt_trichotomy k words.length with hk | rfl | hk
    · rw [List.getElem?_append_left (by omega)] at hword ⊢
      have hprod : (((words ++ [last]).drop (k + 1)).map List.length).prod =
          ((words.drop (k + 1)).map List.length).prod * last.length := by
        rw [List.drop_append_of_le_length (by omega)]
        simp
      rw [hprod, ih hfront k word hword, Nat.mul_comm, ← Nat.div_div_eq_div_mul]
    · obtain rfl : word = last := by simpa using hword.symm
      simp [hlength, ha]
    · simp [show ¬ k < words.length + 1 by omega] at hword

end PathTree

/-- The paths are all choices of one candidate for each word, in lexicographic order. The one with
number `q` makes the choices that are the digits of `q`. They can be read from the leaves of a tree
in any graph that has room for its nodes. -/
theorem enumeratePaths_lexicographic (words : List (List α)) :
    (words = [] → enumeratePaths words = []) ∧
    (words ≠ [] → (enumeratePaths words).length = (words.map List.length).prod) ∧
    (∀ q path, (enumeratePaths words)[q]? = some path →
      List.Forall₂ (· ∈ ·) path words ∧
      ∀ k word, words[k]? = some word → path[k]? =
        word[q / ((words.drop (k + 1)).map List.length).prod % word.length]?) ∧
    (let tree := words.foldl PathTree.grow PathTree.empty
     tree.leafCount = tree.paths.length ∧ tree.generations = words.length ∧
       ∀ path ∈ tree.paths, path.length = tree.generations) ∧
    ∀ S : NodeStore α, S.Lawful → 1 + nodesAdded 1 words ≤ S.capacity →
      let t := words.foldl PathGraph.grow (PathGraph.start S)
      t.generations = words.length ∧
        List.Forall₂ (fun leaf path => ∀ labels, t.Reads leaf labels ↔ labels.reverse = path)
          t.leaves (enumeratePaths words) := by
  have hempty : words = [] → enumeratePaths words = [] := by
    rintro rfl
    rfl
  have hgenerations := PathTree.generations_foldl_grow words PathTree.empty
  have hchoice : ∀ path ∈ enumeratePaths words, List.Forall₂ (· ∈ ·) path words := by
    intro path hpath
    have hne : words ≠ [] := fun hnil => by simp [hempty hnil] at hpath
    exact (mem_enumeratePaths hne).1 hpath
  refine ⟨hempty, fun hne => ?_, fun q path hq => ⟨?_, fun k word hword => ?_⟩, ?_, ?_⟩
  · rw [enumeratePaths_eq hne, List.length_map, PathTree.length_stems_foldl_grow]
    exact Nat.one_mul _
  · exact hchoice path (List.mem_of_getElem? hq)
  · have hne : words ≠ [] := by
      rintro rfl
      simp at hword
    rw [enumeratePaths_eq hne, List.getElem?_map, Option.map_eq_some_iff] at hq
    obtain ⟨stem, hstem, rfl⟩ := hq
    exact PathTree.getElem?_stems words hstem k word hword
  · refine ⟨(List.length_map _).symm, hgenerations.trans (Nat.zero_add _), fun path hpath => ?_⟩
    rw [hgenerations]
    exact (hchoice path hpath).length_eq.trans (Nat.zero_add _).symm
  · intro S hS hroom
    have hstart := PathGraph.Represents.start hS (S := S) (by omega)
    have hcount : S.count (PathGraph.start S).graph = 1 := by
      have hadded := hS.count_addNode S.empty none (by rw [hS.count_empty]; omega)
      rwa [hS.count_empty] at hadded
    have hgrown := hstart.foldl hS words (by rw [hcount]; exact hroom)
    exact ⟨(hgrown.generations.trans hgenerations).trans (Nat.zero_add _), hgrown.reads⟩

namespace Sample

/-- Two candidates, then one, then three. -/
def choices : List (List String) := [["a", "b"], ["c"], ["d", "e", "f"]]

/-- A graph that numbers its nodes in 32 bits and keeps the last number for none. -/
def store : NodeStore String := .arena String 4294967295

end Sample

/-- The path with number 4 makes the choices 1, 0 and 1. -/
theorem enumeratePaths_lexicographic_sample :
    Sample.choices ≠ [] ∧ Sample.store.Lawful ∧
      1 + nodesAdded 1 Sample.choices ≤ Sample.store.capacity ∧
      (enumeratePaths Sample.choices).length = 6 ∧
      (enumeratePaths Sample.choices)[4]? = some ["b", "c", "e"] ∧
      ["b", "c", "e"][0]? = ["a", "b"][4 / 3 % 2]? ∧
      List.Forall₂ (fun leaf path => ∀ labels,
          (Sample.choices.foldl PathGraph.grow (PathGraph.start Sample.store)).Reads leaf labels ↔
            labels.reverse = path)
        ([5, 6, 7, 8, 9, 10] : List Nat)
        [["a", "c", "d"], ["a", "c", "e"], ["a", "c", "f"], ["b", "c", "d"], ["b", "c", "e"],
          ["b", "c", "f"]] := by
  have hlawful : Sample.store.Lawful := NodeStore.arena_lawful String 4294967295
  have hroom : 1 + nodesAdded 1 Sample.choices ≤ Sample.store.capacity := by decide
  have hpath : (enumeratePaths Sample.choices)[4]? = some ["b", "c", "e"] := rfl
  obtain ⟨-, hcount, hdigits, -, hgraph⟩ := enumeratePaths_lexicographic Sample.choices
  have hfirst := (hdigits 4 _ hpath).2 0 _ rfl
  exact ⟨by decide, hlawful, hroom, hcount (by decide), hpath, hfirst,
    (hgraph _ hlawful hroom).2⟩

end PregroupGrammar
