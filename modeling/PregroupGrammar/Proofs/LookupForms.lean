import PregroupGrammar.Morphology
import PregroupGrammar.Proofs.TextPieces

/-!
# The forms of a word

The rows of a table are gone through in order, each for what the rows before it have left of the
word (`Morphology.InTurn`): a suffix is cut off where the word ends with it, and an irregular form
that is a part of the word brings its replacement. A form to look up is what the table of a step
makes of the word if it makes anything of it (`Morphology.Makes`), unless nothing is left.

What is left when suffixes have been cut off is a beginning of the word and shorter than it
(`InTurn.eq_append`). A replacement can be any text. So it can be the word itself, if not by one row
then by several, and this form is not left out (`lookupForms_keeps_word`).
-/

namespace PregroupGrammar

namespace Morphology

/-- The word ends with the suffix, and the form is what stands before it. -/
def Strips (word suffix form : String) : Prop :=
  suffix ≠ "" ∧ word = form ++ suffix

/-- The irregular form of the row is a part of the word, and the other form is its replacement. -/
def Replaces (word : String) (row : String × String) (form : String) : Prop :=
  row.1 ≠ "" ∧ (∃ front back, word = front ++ row.1 ++ back) ∧ form = row.2

/-- The suffix is the first that can be cut off the word. -/
def StripsFirst (suffixes : List String) (word suffix form : String) : Prop :=
  ∃ front back, suffixes = front ++ suffix :: back ∧ Strips word suffix form ∧
    ∀ other ∈ front, ∀ left, ¬ Strips word other left

/-- Of the rows the ones in `applied` change the word, each what those before it have left of it,
and the last text is what all have left. -/
inductive InTurn {α : Type} (Changes : String → α → String → Prop) :
    List α → String → List α → String → Prop
  | done (word : String) : InTurn Changes [] word [] word
  | change {row : α} {rows applied : List α} {word form last : String} :
    Changes word row form → InTurn Changes rows form applied last →
      InTurn Changes (row :: rows) word (row :: applied) last
  | skip {row : α} {rows applied : List α} {word last : String} :
    (∀ form, ¬ Changes word row form) → InTurn Changes rows word applied last →
      InTurn Changes (row :: rows) word applied last

/-- The form is what the tables make of the word in a step. -/
def Makes (m : Morphology) (word : String) : MorphStep → String → Prop
  | .surface, form => form = word
  | .verbal, form => ∃ suffix, StripsFirst m.verbalSuffixes word suffix form
  | .nominal, form => ∃ applied ≠ [], InTurn Strips m.nounSuffixes word applied form
  | .adjectival, form => ∃ applied ≠ [], InTurn Strips m.adjectiveSuffixes word applied form
  | .irregular, form => ∃ applied ≠ [], InTurn Replaces m.irregulars word applied form

section Rows

variable {word suffix form : String} {row : String × String}

theorem strip?_eq_some_iff : strip? word suffix = some form ↔ Strips word suffix form := by
  unfold strip? Strips
  by_cases hempty : suffix = ""
  · simp [hempty]
  · rw [if_neg (by simpa using hempty), Option.map_eq_some_iff, and_iff_right hempty]
    simp only [Text.beforeEnding?_eq_some_iff]
    constructor
    · rintro ⟨front, hword, rfl⟩
      exact String.toList_inj.1 (by simpa using hword)
    · rintro rfl
      exact ⟨form.toList, by simp, by simp⟩

theorem replace?_eq_some_iff : replace? word row = some form ↔ Replaces word row form := by
  have hpart : Text.hasPart row.1.toList word.toList = true ↔
      ∃ front back, word = front ++ row.1 ++ back := by
    rw [Text.hasPart_iff]
    constructor
    · rintro ⟨front, back, hword⟩
      exact ⟨.ofList front, .ofList back, String.toList_inj.1 (by simpa using hword.symm)⟩
    · rintro ⟨front, back, rfl⟩
      exact ⟨front.toList, back.toList, by simp⟩
  unfold replace? Replaces
  rw [← hpart, @eq_comm _ form]
  simp [and_assoc]

theorem Strips.ne (h : Strips word suffix form) : form ≠ word := by
  rintro rfl
  have := congrArg String.toList h.2
  simp [h.1] at this

end Rows

namespace InTurn

variable {α : Type} {Changes : String → α → String → Prop} {change? : String → α → Option String}
  {rows applied : List α} {word last : String}

theorem eq_of_nil (h : InTurn Changes rows word [] last) : last = word := by
  generalize hnone : ([] : List α) = applied at h
  induction h with
  | done => rfl
  | change => cases hnone
  | skip _ _ ih => exact ih hnone

section Run

variable (hchange : ∀ word row form, change? word row = some form ↔ Changes word row form)
include hchange

theorem total : ∀ (rows : List α) (word : String),
    ∃ applied last, InTurn Changes rows word applied last
  | [], word => ⟨[], word, .done word⟩
  | row :: rows, word => by
    rcases hrow : change? word row with _ | form
    · obtain ⟨applied, last, h⟩ := total rows word
      exact ⟨applied, last, .skip (fun form hform => by simp [(hchange _ _ _).2 hform] at hrow) h⟩
    · obtain ⟨applied, last, h⟩ := total rows form
      exact ⟨row :: applied, last, .change ((hchange _ _ _).1 hrow) h⟩

/-- Going through the rows from some form gives the last text, if a row applies. -/
theorem foldl_eq : ∀ {rows applied : List α} (start : Option String) {last : String},
    InTurn Changes rows (start.getD word) applied last →
      rows.foldl (fun form row => (change? (form.getD word) row).or form) start =
        if applied = [] then start else some last
  | [], _, _, _, h => by
    cases h
    rfl
  | row :: rows, _, start, _, h => by
    rw [List.foldl_cons]
    cases h with
    | change hrow hrest =>
      rw [(hchange _ _ _).2 hrow, Option.some_or, foldl_eq (some _) hrest,
        if_neg (List.cons_ne_nil _ _)]
      split_ifs with hnone
      · subst hnone
        rw [hrest.eq_of_nil]
      · rfl
    | skip hrow hrest =>
      have hnone : change? (start.getD word) row = none :=
        Option.eq_none_iff_forall_not_mem.2 fun form hform => hrow form ((hchange _ _ _).1 hform)
      rw [hnone, Option.none_or, foldl_eq start hrest]

theorem changeAll_eq (h : InTurn Changes rows word applied last) :
    changeAll change? rows word = if applied = [] then none else some last :=
  foldl_eq hchange none h

theorem changeAll_eq_some_iff : changeAll change? rows word = some last ↔
    ∃ applied ≠ [], InTurn Changes rows word applied last := by
  constructor
  · intro h
    obtain ⟨applied, left, hleft⟩ := total hchange rows word
    rw [hleft.changeAll_eq hchange] at h
    split_ifs at h with hnone
    obtain rfl := Option.some.inj h
    exact ⟨applied, hnone, hleft⟩
  · rintro ⟨applied, hsome, h⟩
    rw [h.changeAll_eq hchange, if_neg hsome]

end Run

/-- The suffixes that are cut off stand behind what is left, the first one last. -/
theorem eq_append {rows applied : List String} (h : InTurn Strips rows word applied last) :
    word = last ++ String.join applied.reverse := by
  induction h with
  | done => simp
  | change hrow _ ih =>
    rw [hrow.2, List.reverse_cons, String.join_append, ← String.append_assoc, ← ih]
    simp
  | skip _ _ ih => exact ih

theorem length_add_le {rows applied : List String} (h : InTurn Strips rows word applied last) :
    last.length + applied.length ≤ word.length := by
  induction h with
  | done => exact Nat.le_refl _
  | change hrow _ ih =>
    obtain ⟨hsuffix, rfl⟩ := hrow
    have hpos : _ ≠ 0 := String.length_eq_zero_iff.not.2 hsuffix
    rw [String.length_append, List.length_cons]
    omega
  | skip _ _ ih => exact ih

end InTurn

variable {word suffix form : String} {m : Morphology}

theorem stripVerbal?_eq_some_iff : m.stripVerbal? word = some form ↔
    ∃ suffix, StripsFirst m.verbalSuffixes word suffix form := by
  have hnone : ∀ other, strip? word other = none ↔ ∀ left, ¬ Strips word other left :=
    fun other => by simp only [Option.eq_none_iff_forall_ne_some, ne_eq, strip?_eq_some_iff]
  rw [stripVerbal?, List.findSome?_eq_some_iff]
  simp only [strip?_eq_some_iff, hnone, StripsFirst]
  constructor
  · rintro ⟨front, suffix, back, hrows, hstrips, hfront⟩
    exact ⟨suffix, front, back, hrows, hstrips, hfront⟩
  · rintro ⟨suffix, front, back, hrows, hstrips, hfront⟩
    exact ⟨front, suffix, back, hrows, hstrips, hfront⟩

theorem stripNominal?_eq_some_iff : m.stripNominal? word = some form ↔
    ∃ applied ≠ [], InTurn Strips m.nounSuffixes word applied form :=
  InTurn.changeAll_eq_some_iff fun _ _ _ => strip?_eq_some_iff

theorem stripAdjectival?_eq_some_iff : m.stripAdjectival? word = some form ↔
    ∃ applied ≠ [], InTurn Strips m.adjectiveSuffixes word applied form :=
  InTurn.changeAll_eq_some_iff fun _ _ _ => strip?_eq_some_iff

theorem replaceIrregular?_eq_some_iff : m.replaceIrregular? word = some form ↔
    ∃ applied ≠ [], InTurn Replaces m.irregulars word applied form :=
  InTurn.changeAll_eq_some_iff fun _ _ _ => replace?_eq_some_iff

/-- What is left when suffixes have been cut off is a beginning of the word and shorter. -/
theorem Makes.beginning {step : MorphStep} (h : m.Makes word step form)
    (hsurface : step ≠ .surface) (hirregular : step ≠ .irregular) :
    form ≠ word ∧ ∃ rest, word = form ++ rest := by
  have hall : ∀ {rows : List String}, (∃ applied ≠ [], InTurn Strips rows word applied form) →
      form ≠ word ∧ ∃ rest, word = form ++ rest := by
    rintro rows ⟨applied, hsome, h⟩
    refine ⟨?_, _, h.eq_append⟩
    rintro rfl
    have := h.length_add_le
    have := List.length_pos_of_ne_nil hsome
    omega
  cases step with
  | surface => exact absurd rfl hsurface
  | verbal =>
    obtain ⟨suffix, -, -, -, hstrips, -⟩ := h
    exact ⟨hstrips.ne, suffix, hstrips.2⟩
  | nominal => exact hall h
  | adjectival => exact hall h
  | irregular => exact absurd rfl hirregular

section Kept

variable {made : List (MorphStep × Option String)}

/-- The forms that are there and not empty, with their steps. -/
def kept (made : List (MorphStep × Option String)) : List (MorphStep × String) :=
  made.filterMap fun (step, form) => (form.filter (!·.isEmpty)).map (step, ·)

theorem lookupForms_eq (m : Morphology) (word : String) : m.lookupForms word = (.surface, word) ::
    kept [(.verbal, m.stripVerbal? word), (.nominal, m.stripNominal? word),
      (.adjectival, m.stripAdjectival? word), (.irregular, m.replaceIrregular? word)] :=
  rfl

theorem mem_kept {step : MorphStep} :
    (step, form) ∈ kept made ↔ (step, some form) ∈ made ∧ form ≠ "" := by
  simp only [kept, List.mem_filterMap, Option.map_eq_some_iff, Option.filter_eq_some_iff,
    Prod.mk.injEq]
  constructor
  · rintro ⟨⟨step, form⟩, hmade, form, ⟨rfl, hform⟩, rfl, rfl⟩
    exact ⟨hmade, by simpa using hform⟩
  · rintro ⟨hmade, hform⟩
    exact ⟨_, hmade, form, ⟨rfl, by simpa using hform⟩, rfl, rfl⟩

theorem kept_cons (step : MorphStep) (form? : Option String)
    (made : List (MorphStep × Option String)) : kept ((step, form?) :: made) =
      (form?.filter (!·.isEmpty)).toList.map (step, ·) ++ kept made := by
  rcases form? with _ | form
  · rfl
  · by_cases hform : form = ""
    · subst hform
      rfl
    · have hempty : form.isEmpty = false := by simpa using hform
      simp [kept, Option.filter_some, hempty]

theorem map_fst_kept_sublist : ∀ made : List (MorphStep × Option String),
    ((kept made).map Prod.fst).Sublist (made.map Prod.fst)
  | [] => .slnil
  | (step, form?) :: made => by
    have ih := map_fst_kept_sublist made
    rw [kept_cons]
    cases form?.filter (!·.isEmpty) with
    | none => exact ih.cons _
    | some form => exact ih.cons_cons _

end Kept

/-- The forms to look up are the word itself and then, step by step, what the tables make of it,
unless it is empty. What suffixes have been cut off is shorter than the word, but the irregular
forms can lead back to it. -/
theorem lookupForms_rewrites (m : Morphology) (word : String) : ∃ forms,
    m.lookupForms word = (.surface, word) :: forms ∧
    (forms.map Prod.fst).Sublist [.verbal, .nominal, .adjectival, .irregular] ∧
    (∀ step form, (step, form) ∈ forms ↔ step ≠ .surface ∧ form ≠ "" ∧ m.Makes word step form) ∧
    (∀ step form, (step, form) ∈ forms → step ≠ .irregular →
      form ≠ word ∧ ∃ rest, word = form ++ rest) ∧
    ∀ step, (step, word) ∈ forms ↔ step = .irregular ∧ word ≠ "" ∧
      ∃ applied ≠ [], InTurn Replaces m.irregulars word applied word := by
  have hforms : ∀ step form, (step, form) ∈ kept [(.verbal, m.stripVerbal? word),
      (.nominal, m.stripNominal? word), (.adjectival, m.stripAdjectival? word),
      (.irregular, m.replaceIrregular? word)] ↔
        step ≠ .surface ∧ form ≠ "" ∧ m.Makes word step form := by
    intro step form
    rw [mem_kept, and_comm, and_left_comm]
    refine and_congr_right fun _ => ?_
    cases step <;> simp [Makes, @eq_comm _ (some form), stripVerbal?_eq_some_iff,
      stripNominal?_eq_some_iff, stripAdjectival?_eq_some_iff, replaceIrregular?_eq_some_iff]
  refine ⟨_, lookupForms_eq m word, map_fst_kept_sublist _, hforms, ?_, fun step => ?_⟩
  · intro step form hform hirregular
    obtain ⟨hsurface, -, hmakes⟩ := (hforms step form).1 hform
    exact hmakes.beginning hsurface hirregular
  · rw [hforms]
    constructor
    · rintro ⟨hsurface, hword, hmakes⟩
      obtain rfl : step = .irregular := by
        by_contra hirregular
        exact (hmakes.beginning hsurface hirregular).1 rfl
      exact ⟨rfl, hword, hmakes⟩
    · rintro ⟨rfl, hword, hmakes⟩
      exact ⟨by decide, hword, hmakes⟩

/-- Both noun suffixes are cut off, the second one off what the first has left. -/
theorem lookupForms_rewrites_sample :
    ∃ forms, lookupForms { verbalSuffixes := ["s"], nounSuffixes := ["s", "e"] } "houses" =
        (.surface, "houses") :: forms ∧
      (.nominal, "hous") ∈ forms ∧ MorphStep.nominal ≠ .irregular ∧
      "hous" ≠ "houses" ∧ ∃ rest, "houses" = "hous" ++ rest := by
  obtain ⟨forms, hforms, -, hmakes, hbeginning, -⟩ :=
    lookupForms_rewrites { verbalSuffixes := ["s"], nounSuffixes := ["s", "e"] } "houses"
  have hnominal : (.nominal, "hous") ∈ forms := by
    refine (hmakes .nominal "hous").2 ⟨by decide, by decide, ["s", "e"], by decide, ?_⟩
    exact .change ⟨by decide, rfl⟩ (.change ⟨by decide, rfl⟩ (.done "hous"))
  exact ⟨forms, hforms, hnominal, by decide, hbeginning .nominal "hous" hnominal (by decide)⟩

/-- A replacement that is the irregular form itself changes nothing, and is looked up again. -/
theorem lookupForms_keeps_word :
    ({ irregulars := [("sheep", "sheep")] } : Morphology).lookupForms "sheep" =
      [(.surface, "sheep"), (.irregular, "sheep")] ∧
    ¬ ∀ (m : Morphology) (word : String), ∀ form ∈ (m.lookupForms word).tail, form.2 ≠ word := by
  have hforms : ({ irregulars := [("sheep", "sheep")] } : Morphology).lookupForms "sheep" =
      [(.surface, "sheep"), (.irregular, "sheep")] := by decide +kernel
  refine ⟨hforms, fun h => ?_⟩
  exact h { irregulars := [("sheep", "sheep")] } "sheep" (.irregular, "sheep")
    (by rw [hforms]; decide) rfl

end Morphology

end PregroupGrammar
