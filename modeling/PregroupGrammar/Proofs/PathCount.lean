import Mathlib.Data.List.TakeWhile
import PregroupGrammar.Proofs.PathOrder

/-!
# The number of the paths

The paths are as many as the product of the numbers of candidates. It is multiplied from left to
right, and there is no count once a product reaches the limit, even where a later word has no
candidates and the whole product is zero. From the first such word on all products are zero, so
there is a count just if the words in front of it have a product below the limit
(`foldlM_timesCount?`). Where every word has a candidate these are all words, and their order makes
no difference.
-/

namespace PregroupGrammar

variable {α : Type} {words : List (List α)}

/-- The number of ways to choose a candidate for each word. -/
def choiceCount (words : List (List α)) : Nat :=
  (words.map List.length).prod

/-- The words in front of the first one without candidates. -/
def beforeGap (words : List (List α)) : List (List α) :=
  words.takeWhile (!·.isEmpty)

theorem choiceCount_nil : choiceCount ([] : List (List α)) = 1 :=
  rfl

theorem choiceCount_cons (word : List α) (words : List (List α)) :
    choiceCount (word :: words) = word.length * choiceCount words :=
  List.prod_cons

theorem beforeGap_nil : beforeGap ([] : List (List α)) = [] :=
  rfl

theorem beforeGap_cons_nil (words : List (List α)) : beforeGap ([] :: words) = [] :=
  List.takeWhile_cons_of_neg (by simp)

theorem beforeGap_cons {word : List α} (h : word ≠ []) (words : List (List α)) :
    beforeGap (word :: words) = word :: beforeGap words :=
  List.takeWhile_cons_of_pos (by simpa using h)

theorem beforeGap_eq_self (h : [] ∉ words) : beforeGap words = words :=
  List.takeWhile_eq_self_iff.2 fun word hword => by
    simpa using ne_of_mem_of_not_mem hword h

theorem choiceCount_beforeGap_pos : ∀ words : List (List α), 0 < choiceCount (beforeGap words)
  | [] => Nat.zero_lt_one
  | [] :: words => by
    rw [beforeGap_cons_nil]
    exact Nat.zero_lt_one
  | (a :: word) :: words => by
    rw [beforeGap_cons (List.cons_ne_nil a word), choiceCount_cons]
    exact Nat.mul_pos (Nat.succ_pos _) (choiceCount_beforeGap_pos words)

/-- Multiplying a count with the numbers of candidates one by one gives their product, if they do
not reach the limit before the first zero. -/
theorem foldlM_timesCount? : ∀ (words : List (List α)) {n : Nat}, n < Numeral.countLimit →
    (words.map List.length).foldlM timesCount? n =
      if n * choiceCount (beforeGap words) < Numeral.countLimit
        then some (n * choiceCount words) else none
  | [], n, hn => by
    rw [beforeGap_nil, choiceCount_nil, Nat.mul_one, if_pos hn]
    rfl
  | [] :: words, n, hn => by
    -- Zero is a count, and so is whatever is multiplied with it.
    have hrest := foldlM_timesCount? words (n := 0) (by decide)
    rw [Nat.zero_mul, if_pos (by decide), Nat.zero_mul] at hrest
    rw [beforeGap_cons_nil, choiceCount_cons, List.length_nil, Nat.zero_mul, Nat.mul_zero,
      choiceCount_nil, Nat.mul_one, if_pos hn]
    exact hrest
  | (a :: word) :: words, n, hn => by
    rw [List.map_cons, List.foldlM_cons, beforeGap_cons (List.cons_ne_nil a word),
      choiceCount_cons, choiceCount_cons, ← Nat.mul_assoc, ← Nat.mul_assoc, timesCount?]
    split_ifs with hstep hall hall
    · exact (foldlM_timesCount? words hstep).trans (if_pos hall)
    · exact (foldlM_timesCount? words hstep).trans (if_neg hall)
    · have hle := Nat.le_mul_of_pos_right (n * (a :: word).length)
        (choiceCount_beforeGap_pos words)
      omega
    · rfl

theorem length_enumeratePaths (h : words ≠ []) :
    (enumeratePaths words).length = choiceCount words := by
  rw [enumeratePaths_eq h, List.length_map, PathTree.length_stems_foldl_grow]
  exact Nat.one_mul _

theorem pathCount_eq (h : words ≠ []) : pathCount words =
    if choiceCount (beforeGap words) < 2 ^ 64 then some (choiceCount words) else none := by
  have hne : ¬ (words.map List.length).isEmpty = true := by simpa using h
  have hfold := foldlM_timesCount? words (n := 1) (by decide)
  rw [Nat.one_mul, Nat.one_mul] at hfold
  rw [pathCount, pathCountOf, if_neg hne]
  exact hfold

/-- The paths can be counted just if the words in front of the first one without candidates have
fewer than `2 ^ 64` choices, and then the count is their number, which is the product of the numbers
of candidates. Where every word has a candidate, there is no count just if that product is `2 ^ 64`
or more, in whatever order the words stand. -/
theorem pathCount_counts_paths (words : List (List α)) (h : words ≠ []) :
    (enumeratePaths words).length = choiceCount words ∧
    (∀ n, pathCount words = some n ↔
      n = choiceCount words ∧ choiceCount (beforeGap words) < 2 ^ 64) ∧
    (pathCount words = none ↔ 2 ^ 64 ≤ choiceCount (beforeGap words)) ∧
    ([] ∉ words → ∀ others, others.Perm words → beforeGap others = others ∧
      choiceCount others = choiceCount words ∧ pathCount others = pathCount words) := by
  have hcount := pathCount_eq h
  refine ⟨length_enumeratePaths h, fun n => ?_, ?_, fun hall others hperm => ?_⟩
  · rw [hcount]
    split_ifs with hlt
    · rw [Option.some.injEq, eq_comm, and_iff_left hlt]
    · exact ⟨fun hn => absurd hn (by simp), fun hn => absurd hn.2 hlt⟩
  · rw [hcount]
    split_ifs with hlt
    · simpa using hlt
    · simpa using hlt
  · have hgap := beforeGap_eq_self hall
    have hgap' : beforeGap others = others := beforeGap_eq_self fun hm => hall (hperm.mem_iff.1 hm)
    have hsame : choiceCount others = choiceCount words := (hperm.map List.length).prod_eq
    refine ⟨hgap', hsame, ?_⟩
    have hne : others ≠ [] := by
      rintro rfl
      exact h hperm.nil_eq.symm
    rw [hcount, pathCount_eq hne, hgap, hgap', hsame]

namespace Sample

/-- A word with as many candidates as 16 bits can number. -/
def wideWord : List Unit := List.replicate 65536 ()

theorem length_wideWord : wideWord.length = 65536 := List.length_replicate

end Sample

/-- Two words with candidates, which can be counted in either order. -/
theorem pathCount_counts_paths_sample :
    [["a", "b"], ["c", "d", "e"]] ≠ [] ∧ [] ∉ [["a", "b"], ["c", "d", "e"]] ∧
      [["c", "d", "e"], ["a", "b"]].Perm [["a", "b"], ["c", "d", "e"]] ∧
      (enumeratePaths [["a", "b"], ["c", "d", "e"]]).length = 6 ∧
      pathCount [["a", "b"], ["c", "d", "e"]] = some 6 ∧
      pathCount [["c", "d", "e"], ["a", "b"]] = some 6 := by
  have hne : [["a", "b"], ["c", "d", "e"]] ≠ [] := by decide
  have hall : [] ∉ [["a", "b"], ["c", "d", "e"]] := by decide
  have hperm : [["c", "d", "e"], ["a", "b"]].Perm [["a", "b"], ["c", "d", "e"]] := .swap _ _ _
  obtain ⟨hlength, hsome, -, horder⟩ := pathCount_counts_paths [["a", "b"], ["c", "d", "e"]] hne
  have hcount := (hsome 6).2 ⟨rfl, by decide⟩
  exact ⟨hne, hall, hperm, hlength, hcount, (horder hall _ hperm).2.2.trans hcount⟩

/-- After four words with `2 ^ 16` candidates each, a word without candidates leaves no path, but
the count is lost before it comes up. In front of the others it makes the count zero. -/
theorem pathCount_lost_before_gap :
    let words := [Sample.wideWord, Sample.wideWord, Sample.wideWord, Sample.wideWord, []]
    let others := [[], Sample.wideWord, Sample.wideWord, Sample.wideWord, Sample.wideWord]
    words ≠ [] ∧ others.Perm words ∧ choiceCount words = 0 ∧ choiceCount words < 2 ^ 64 ∧
      (enumeratePaths words).length = 0 ∧ pathCount words = none ∧ pathCount others = some 0 := by
  intro words others
  have hlengths : words.map List.length = [65536, 65536, 65536, 65536, 0] := by
    simp only [words, List.map_cons, List.map_nil, List.length_nil, Sample.length_wideWord]
  have hothers : others.map List.length = [0, 65536, 65536, 65536, 65536] := by
    simp only [others, List.map_cons, List.map_nil, List.length_nil, Sample.length_wideWord]
  have hne : words ≠ [] := List.cons_ne_nil _ _
  have hzero : choiceCount words = 0 := by
    rw [choiceCount, hlengths]
    rfl
  refine ⟨hne, (List.perm_append_singleton [] _).symm, hzero, by rw [hzero]; decide, ?_, ?_, ?_⟩
  · rw [length_enumeratePaths hne, hzero]
  · rw [pathCount, hlengths]
    rfl
  · rw [pathCount, hothers]
    rfl

end PregroupGrammar
