import Mathlib.Data.List.Basic
import Mathlib.Data.List.TakeWhile
import Mathlib.Tactic.SplitIfs
import PregroupGrammar.Text.Blank
import PregroupGrammar.Text.Lines

/-!
# Pieces of a text

Cutting a text leaves pieces of it without the characters at which it is cut, and pieces without
these characters, put together with them in between, are what cutting gives back
(`splitOn_eq_cons_iff`). What a text ends with and what it contains is told by how it can be put
together (`beforeEnding?_eq_some_iff`, `hasPart_iff`). A text without blanks is not changed by
trimming it (`trim_of_clean`), and such texts with blanks between them have themselves as their
words (`words_intercalate`).
-/

namespace PregroupGrammar.Text

section Cut

variable {α : Type} {p : α → Bool} {a : α}

theorem mem_of_mem_splitOnP : ∀ {xs l : List α}, l ∈ xs.splitOnP p → ∀ x ∈ l, x ∈ xs ∧ p x = false
  | [], l, h, x, hx => by
    rw [List.splitOnP_nil, List.mem_singleton] at h
    simp [h] at hx
  | y :: xs, l, h, x, hx => by
    rw [List.splitOnP_cons_eq_if_modifyHead] at h
    split_ifs at h with hy
    · rcases List.mem_cons.1 h with rfl | h
      · simp at hx
      · have := mem_of_mem_splitOnP h x hx
        exact ⟨List.mem_cons_of_mem _ this.1, this.2⟩
    · -- The first piece of the rest gets `y` in front, and the others stay.
      obtain ⟨first, others, hsplit⟩ := List.exists_cons_of_ne_nil (List.splitOnP_ne_nil p xs)
      have hrest : ∀ l ∈ first :: others, ∀ x ∈ l, x ∈ xs ∧ p x = false := fun l hl =>
        mem_of_mem_splitOnP (hsplit ▸ hl)
      rw [hsplit, List.modifyHead_cons] at h
      rcases List.mem_cons.1 h with rfl | h
      · rcases List.mem_cons.1 hx with rfl | hx
        · exact ⟨List.mem_cons_self, by simpa using hy⟩
        · have := hrest first List.mem_cons_self x hx
          exact ⟨List.mem_cons_of_mem _ this.1, this.2⟩
      · have := hrest l (List.mem_cons_of_mem _ h) x hx
        exact ⟨List.mem_cons_of_mem _ this.1, this.2⟩

theorem mem_of_mem_splitOn [BEq α] [LawfulBEq α] {xs l : List α} (h : l ∈ xs.splitOn a) :
    a ∉ l ∧ ∀ x ∈ l, x ∈ xs := by
  rw [List.splitOn_eq_splitOnP] at h
  refine ⟨fun ha => ?_, fun x hx => (mem_of_mem_splitOnP h x hx).1⟩
  simpa using (mem_of_mem_splitOnP h a ha).2

theorem splitOn_append_flatMap [BEq α] [LawfulBEq α] : ∀ {ls : List (List α)} {xs : List α},
    a ∉ xs → (∀ l ∈ ls, a ∉ l) → (xs ++ ls.flatMap (a :: ·)).splitOn a = xs :: ls
  | [], xs, hxs, _ => by
    rw [List.flatMap_nil, List.append_nil, List.splitOn_eq_singleton hxs]
  | l :: ls, xs, hxs, hls => by
    obtain ⟨hl, hls⟩ := List.forall_mem_cons.1 hls
    rw [List.flatMap_cons, List.cons_append, List.splitOn_append_cons_self_of_not_mem hxs,
      splitOn_append_flatMap hl hls]

theorem splitOn_eq_cons_iff [BEq α] [LawfulBEq α] {xs first : List α} {rest : List (List α)} :
    xs.splitOn a = first :: rest ↔
      xs = first ++ rest.flatMap (a :: ·) ∧ a ∉ first ∧ ∀ l ∈ rest, a ∉ l := by
  constructor
  · intro h
    have hjoin : ∀ (rest : List (List α)) (first : List α),
        [a].intercalate (first :: rest) = first ++ rest.flatMap (a :: ·) := by
      intro rest
      induction rest with
      | nil => simp
      | cons l rest ih => simp [List.intercalate_cons_cons, ih]
    have hfree : ∀ l ∈ first :: rest, a ∉ l := fun l hl => (mem_of_mem_splitOn (h ▸ hl)).1
    rw [← hjoin, ← h, List.intercalate_splitOn]
    exact ⟨rfl, List.forall_mem_cons.1 hfree⟩
  · rintro ⟨rfl, hfirst, hrest⟩
    exact splitOn_append_flatMap hfirst hrest

theorem length_splitOnP (xs : List α) :
    (xs.splitOnP p).length = (xs.filter p).length + 1 := by
  induction xs with
  | nil => rfl
  | cons x xs ih =>
    rw [List.splitOnP_cons_eq_if_modifyHead, List.filter_cons]
    split <;> simp [ih]

theorem length_splitOn [BEq α] [LawfulBEq α] (xs : List α) :
    (xs.splitOn a).length = xs.count a + 1 := by
  rw [List.splitOn_eq_splitOnP, length_splitOnP, List.count_eq_length_filter]

/-- The last piece, and the pieces before it with what follows each of them. -/
theorem exists_lastPiece [BEq α] [LawfulBEq α] (a : α) (xs : List α) :
    ∃ front last, xs.splitOn a = front ++ [last] ∧ a ∉ last ∧
      xs = front.flatMap (· ++ [a]) ++ last := by
  have hjoin : ∀ (front : List (List α)) (last : List α),
      [a].intercalate (front ++ [last]) = front.flatMap (· ++ [a]) ++ last := by
    intro front last
    induction front with
    | nil => simp
    | cons l front ih =>
      obtain ⟨l', rest, hrest⟩ := List.exists_cons_of_ne_nil
        (show front ++ [last] ≠ [] by simp)
      rw [List.cons_append, hrest, List.intercalate_cons_cons, ← hrest, ih]
      simp
  have hparts := List.dropLast_append_getLast (List.splitOn_ne_nil a xs)
  refine ⟨_, _, hparts.symm, (mem_of_mem_splitOn (List.getLast_mem _)).1, ?_⟩
  rw [← hjoin, hparts, List.intercalate_splitOn]

theorem splitOnP_intercalate (ha : p a = true) : ∀ {ls : List (List α)}, ls ≠ [] →
    (∀ l ∈ ls, ∀ x ∈ l, p x = false) → ([a].intercalate ls).splitOnP p = ls
  | [l], _, hls => by
    rw [List.intercalate_singleton]
    exact List.splitOnP_eq_singleton (hls l List.mem_cons_self)
  | l :: l' :: ls, _, hls => by
    obtain ⟨hl, hls⟩ := List.forall_mem_cons.1 hls
    rw [List.intercalate_cons_cons, List.append_assoc, List.singleton_append,
      List.splitOnP_append_cons_of_forall_mem hl a ha, splitOnP_intercalate ha (by simp) hls]

end Cut

theorem beforeEnding?_eq_some_iff {ending cs front : List Char} :
    beforeEnding? ending cs = some front ↔ cs = front ++ ending := by
  simp only [beforeEnding?, List.isSuffixOf_iff_suffix]
  constructor
  · intro h
    split_ifs at h with hending
    obtain ⟨rest, rfl⟩ := hending
    simpa using h
  · rintro rfl
    simp

theorem hasPart_iff {part : List Char} : ∀ {cs : List Char}, hasPart part cs = true ↔ part <:+: cs
  | [] => by simp [hasPart]
  | c :: cs => by
    rw [hasPart, Bool.or_eq_true, List.isPrefixOf_iff_prefix, hasPart_iff, List.infix_cons_iff]

/-- There is no blank in the text. -/
def Clean (cs : List Char) : Prop :=
  ∀ c ∈ cs, isBlank c = false

theorem dropWhile_of_clean {cs : List Char} (h : Clean cs) : cs.dropWhile isBlank = cs := by
  rcases cs with _ | ⟨c, cs⟩
  · rfl
  · rw [List.dropWhile_cons, h c List.mem_cons_self]
    rfl

theorem trim_of_clean {cs : List Char} (h : Clean cs) : trim cs = cs := by
  have hrev : Clean cs.reverse := fun c hc => h c (List.mem_reverse.1 hc)
  rw [trim, dropWhile_of_clean h, dropWhile_of_clean hrev, List.reverse_reverse]

theorem trim_append_blanks (cs : List Char) {pad : List Char}
    (h : ∀ c ∈ pad, isBlank c = true) : trim (cs ++ pad) = trim cs := by
  have hreverse : ∀ c ∈ pad.reverse, isBlank c = true := fun c hc => h c (List.mem_reverse.1 hc)
  unfold trim
  rw [List.dropWhile_append]
  split_ifs with hblank
  · rw [List.isEmpty_iff.1 hblank, List.dropWhile_eq_nil_iff.2 h]
  · rw [List.reverse_append, List.dropWhile_append_of_pos hreverse]

theorem trim_dropReturn (line : List Char) : trim (dropReturn line) = trim line := by
  have hreturn : ∀ c ∈ ['\r'], isBlank c = true := List.forall_mem_singleton.2 (by decide)
  unfold dropReturn
  split_ifs with hlast
  · rw [← trim_append_blanks _ hreturn, List.dropLast_append_getLast? _ hlast]
  · rfl

theorem trim_eq_nil_iff {cs : List Char} : trim cs = [] ↔ ∀ c ∈ cs, isBlank c = true := by
  have hdrop : cs.dropWhile isBlank = [] ↔ ∀ c ∈ cs, isBlank c = true := List.dropWhile_eq_nil_iff
  rw [trim, List.reverse_eq_nil_iff, List.dropWhile_eq_nil_iff, ← hdrop]
  constructor
  · intro h
    by_contra hne
    have hhead := List.head_dropWhile_not isBlank hne
    rw [h _ (List.mem_reverse.2 (List.head_mem hne))] at hhead
    cases hhead
  · intro h
    rw [h]
    simp

theorem mem_of_mem_trim {cs : List Char} {c : Char} (h : c ∈ trim cs) : c ∈ cs := by
  have h := (List.dropWhile_sublist isBlank).subset (List.mem_reverse.1 h)
  exact (List.dropWhile_sublist isBlank).subset (List.mem_reverse.1 h)

theorem clean_of_mem_words {cs word : List Char} (h : word ∈ words cs) : Clean word := by
  have hword := (List.mem_filter.1 h).1
  exact fun c hc => (mem_of_mem_splitOnP hword c hc).2

theorem words_intercalate {ls : List (List Char)} (h : ∀ l ∈ ls, l ≠ [] ∧ Clean l) (hne : ls ≠ []) :
    words ([' '].intercalate ls) = ls := by
  have hblank : isBlank ' ' = true := by decide
  rw [words, pieces, splitOnP_intercalate hblank hne fun l hl => (h l hl).2]
  exact List.filter_eq_self.2 fun l hl => by simp [(h l hl).1]

theorem isBlank_of_isDigit {c : Char} (h : c.isDigit = true) : isBlank c = false := by
  simp only [Char.isDigit, Bool.and_eq_true, decide_eq_true_eq] at h
  have hlow : 48 ≤ c.toNat := h.1
  have hhigh : c.toNat ≤ 57 := h.2
  have hranges : ∀ range ∈ blankRanges, range.2 < 48 ∨ 57 < range.1 := by decide
  refine List.any_eq_false.2 fun range hrange => ?_
  have := hranges range hrange
  simp only [Bool.and_eq_true, decide_eq_true_eq, not_and]
  omega

end PregroupGrammar.Text
