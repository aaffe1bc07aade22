import Mathlib.Data.List.Basic
import Mathlib.Tactic.FinCases
import PregroupGrammar.Text.Lowercase

/-!
# Lower-case text

A lower-case form has only characters that are their own lower-case forms (`lowerChar_of_mem`): no
run of the map leads into a run, which is a question about the ends of two runs and their steps, not
about each character of them (`CaseRun.Misses`). So a text in lower case stays as it is
(`lowercase_lowercase`).

What stands before and after a character matters for the sigma only, and never for the number of
characters. So the ending of a text keeps its place in the lower-case form if it is in lower case
itself (`lowercaseAfter_append_fixed`), and without a capital sigma each character can be taken on
its own (`lowercaseAfter_eq_flatMap`).
-/

namespace PregroupGrammar.Text

namespace CaseRun

/-- Where the lower-case forms of a run begin. -/
def low (run : CaseRun) : Nat := (run.first + run.shift).toNat

/-- Where the lower-case forms of a run end. -/
def high (run : CaseRun) : Nat := (run.last + run.shift).toNat

/-- The lower-case forms are characters, none of them U+0130. -/
def Forms (run : CaseRun) : Bool :=
  decide (0 ≤ run.first + run.shift) &&
    ((run.high.blt 0xD800 && (run.high.blt 0x130 || Nat.blt 0x130 run.low)) ||
      (Nat.blt 0xDFFF run.low && run.high.blt 0x110000))

/-- No lower-case form of the run is in the other one: they lie apart, or the other one leaves out
every second character, and those are the forms. -/
def Misses (run other : CaseRun) : Bool :=
  run.high.blt other.first || other.last.blt run.low ||
    ((run.step.beq 2 || run.first.beq run.last) && other.step.beq 2 &&
      ((run.low + other.first) % 2).beq 1)

theorem forms_caseRuns : caseRuns.all CaseRun.Forms = true := by decide +kernel

theorem misses_caseRuns : (caseRuns.all fun run => caseRuns.all run.Misses) = true := by
  decide +kernel

theorem toNat_form {run : CaseRun} (h : run.Forms) {n : Nat} (hn : run.covers n) :
    (Char.ofNat (n + run.shift).toNat).toNat = (n + run.shift).toNat := by
  have hvalid : (n + run.shift).toNat < 0xD800 ∨
      0xDFFF < (n + run.shift).toNat ∧ (n + run.shift).toNat < 0x110000 := by
    simp only [Forms, covers, low, high, Bool.and_eq_true, Bool.or_eq_true, decide_eq_true_eq,
      Nat.blt_eq] at h hn
    omega
  rw [Char.ofNat, dif_pos hvalid]
  rfl

theorem form_ne {run : CaseRun} (h : run.Forms) {n : Nat} (hn : run.covers n) :
    (n + run.shift).toNat ≠ 0x130 := by
  simp only [Forms, covers, low, high, Bool.and_eq_true, Bool.or_eq_true, decide_eq_true_eq,
    Nat.blt_eq] at h hn
  omega

theorem covers_form {run other : CaseRun} (hforms : run.Forms) (hmisses : run.Misses other)
    {n : Nat} (hn : run.covers n) : other.covers (n + run.shift).toNat = false := by
  refine Bool.eq_false_iff.2 fun hother => ?_
  simp only [Forms, Misses, covers, low, high, Bool.and_eq_true, Bool.or_eq_true,
    decide_eq_true_eq, Nat.blt_eq, Nat.beq_eq, beq_iff_eq] at *
  obtain ⟨hother, hstep⟩ := hother
  obtain (hbelow | habove) | ⟨⟨hrun, htwo⟩, hodd⟩ := hmisses
  · omega
  · omega
  · rw [htwo] at hstep
    rcases hrun with hrun | hrun
    · rw [hrun] at hn
      omega
    · omega

end CaseRun

section Characters

theorem lowerChar_dotted : lowerChar '\u0130' = ['i', '\u0307'] := rfl

theorem lowerChar_of_find?_none {c : Char} (hc : c ≠ '\u0130')
    (h : caseRuns.find? (·.covers c.toNat) = none) : lowerChar c = [c] := by
  rw [lowerChar, if_neg hc, h]

theorem lowerChar_of_find?_some {c : Char} {run : CaseRun} (hc : c ≠ '\u0130')
    (h : caseRuns.find? (·.covers c.toNat) = some run) :
    lowerChar c = [Char.ofNat (c.toNat + run.shift).toNat] := by
  rw [lowerChar, if_neg hc, h]

theorem lowerChar_form {run : CaseRun} (hrun : run ∈ caseRuns) {n : Nat} (hn : run.covers n) :
    lowerChar (Char.ofNat (n + run.shift).toNat) = [Char.ofNat (n + run.shift).toNat] := by
  have hforms := List.all_eq_true.1 CaseRun.forms_caseRuns run hrun
  have hnat := CaseRun.toNat_form hforms hn
  refine lowerChar_of_find?_none (fun hdotted => ?_) (List.find?_eq_none.2 fun other hother => ?_)
  · exact CaseRun.form_ne hforms hn (hnat.symm.trans (congrArg Char.toNat hdotted))
  · have hmisses := List.all_eq_true.1 (List.all_eq_true.1 CaseRun.misses_caseRuns run hrun)
    simp [hnat, CaseRun.covers_form hforms (hmisses other hother) hn]

/-- The characters of a lower-case form are lower-case. -/
theorem lowerChar_of_mem {c d : Char} (h : d ∈ lowerChar c) : lowerChar d = [d] := by
  by_cases hc : c = '\u0130'
  · rw [hc, lowerChar_dotted] at h
    fin_cases h <;> decide +kernel
  · rcases hrun : caseRuns.find? (·.covers c.toNat) with _ | run
    · have hown := lowerChar_of_find?_none hc hrun
      obtain rfl := List.mem_singleton.1 (hown ▸ h)
      exact hown
    · have hcovers : run.covers c.toNat = true := by
        simpa only using List.find?_some hrun
      rw [lowerChar_of_find?_some hc hrun, List.mem_singleton] at h
      rw [h]
      exact lowerChar_form (List.mem_of_find?_eq_some hrun) hcovers

theorem lowerChar_ne_nil (c : Char) : lowerChar c ≠ [] := by
  unfold lowerChar
  split_ifs
  · exact List.cons_ne_nil _ _
  · split <;> exact List.cons_ne_nil _ _

theorem lowerChar_finalSigma : lowerChar 'ς' = ['ς'] := by decide +kernel

theorem lowerChar_sigma : lowerChar 'Σ' = ['σ'] := by decide +kernel

theorem ne_sigma {c : Char} (h : lowerChar c = [c]) : c ≠ 'Σ' := by
  rintro rfl
  rw [lowerChar_sigma] at h
  exact absurd h (by decide)

end Characters

/-- Every character is its own lower-case form. -/
def IsLower (cs : List Char) : Prop := ∀ c ∈ cs, lowerChar c = [c]

section Texts

theorem isLower_lowercaseAfter : ∀ before cs : List Char, IsLower (lowercaseAfter before cs)
  | _, [] => by simp [lowercaseAfter, IsLower]
  | before, c :: cs => by
    intro d hd
    rw [lowercaseAfter, List.mem_append] at hd
    rcases hd with hd | hd
    · split_ifs at hd
      · rw [List.mem_singleton.1 hd, lowerChar_finalSigma]
      · exact lowerChar_of_mem hd
    · exact isLower_lowercaseAfter (c :: before) cs d hd

theorem length_lowercaseAfter : ∀ before cs : List Char,
    (lowercaseAfter before cs).length = (cs.flatMap lowerChar).length
  | _, [] => rfl
  | before, c :: cs => by
    rw [lowercaseAfter, List.flatMap_cons, List.length_append, List.length_append,
      length_lowercaseAfter (c :: before) cs]
    split_ifs with hc
    · rw [hc.1, lowerChar_sigma]
      rfl
    · rfl

theorem flatMap_of_isLower {cs : List Char} (h : IsLower cs) : cs.flatMap lowerChar = cs := by
  rw [List.flatMap_congr h, List.flatMap_singleton']

theorem lowercaseAfter_append_of_isLower : ∀ {cs : List Char}, IsLower cs → ∀ before after,
    lowercaseAfter before (cs ++ after) = cs ++ lowercaseAfter (cs.reverse ++ before) after
  | [], _, _, _ => rfl
  | c :: cs, h, before, after => by
    obtain ⟨hc, hcs⟩ := List.forall_mem_cons.1 h
    have ih := lowercaseAfter_append_of_isLower hcs (c :: before) after
    rw [List.cons_append, lowercaseAfter, if_neg fun hs => ne_sigma hc hs.1, hc, ih]
    simp

theorem lowercaseAfter_of_isLower {cs : List Char} (h : IsLower cs) (before : List Char) :
    lowercaseAfter before cs = cs := by
  simpa [lowercaseAfter] using lowercaseAfter_append_of_isLower h before []

theorem exists_lowercaseAfter_append : ∀ before cs after : List Char, ∃ front,
    lowercaseAfter before (cs ++ after) =
      front ++ lowercaseAfter (cs.reverse ++ before) after
  | _, [], _ => ⟨[], rfl⟩
  | before, c :: cs, after => by
    obtain ⟨front, hfront⟩ := exists_lowercaseAfter_append (c :: before) cs after
    rw [List.cons_append, lowercaseAfter, hfront, List.reverse_cons, List.append_assoc _ [c]]
    exact ⟨_, (List.append_assoc _ _ _).symm⟩

/-- Without a capital sigma each character is replaced on its own. -/
theorem lowercaseAfter_eq_flatMap : ∀ {cs : List Char}, 'Σ' ∉ cs → ∀ before,
    lowercaseAfter before cs = cs.flatMap lowerChar
  | [], _, _ => rfl
  | c :: cs, h, before => by
    obtain ⟨hc, hcs⟩ := not_or.1 (List.mem_cons.not.1 h)
    rw [lowercaseAfter, if_neg fun hs => hc hs.1.symm, lowercaseAfter_eq_flatMap hcs,
      List.flatMap_cons]

end Texts

section Words

variable {word stem left cut part : String}

theorem toList_lowercase (word : String) :
    (lowercase word).toList = lowercaseAfter [] word.toList :=
  String.toList_ofList

theorem isLower_lowercase (word : String) : IsLower (lowercase word).toList := by
  rw [toList_lowercase]
  exact isLower_lowercaseAfter _ _

theorem lowercase_of_isLower (h : IsLower word.toList) : lowercase word = word := by
  rw [← String.toList_inj, toList_lowercase, lowercaseAfter_of_isLower h]

theorem lowercase_eq_self_iff : lowercase word = word ↔ IsLower word.toList :=
  ⟨fun h => h ▸ isLower_lowercase word, lowercase_of_isLower⟩

theorem lowercase_lowercase (word : String) : lowercase (lowercase word) = lowercase word :=
  lowercase_of_isLower (isLower_lowercase word)

theorem lowercase_eq_empty_iff : lowercase word = "" ↔ word = "" := by
  rw [← String.toList_eq_nil_iff, ← List.length_eq_zero_iff, toList_lowercase,
    length_lowercaseAfter, List.length_eq_zero_iff, List.flatMap_eq_nil_iff,
    ← String.toList_eq_nil_iff]
  constructor
  · intro h
    exact List.eq_nil_iff_forall_not_mem.2 fun c hc => lowerChar_ne_nil c (h c hc)
  · intro h
    simp [h]

/-- A lower-case part of a word is a part of its lower-case form. -/
theorem exists_lowercase_part (hpart : lowercase part = part) (front back : String) :
    ∃ front' back', lowercase (front ++ part ++ back) = front' ++ part ++ back' := by
  obtain ⟨before, hbefore⟩ := exists_lowercaseAfter_append [] front.toList
    (part.toList ++ back.toList)
  rw [lowercaseAfter_append_of_isLower (lowercase_eq_self_iff.1 hpart)] at hbefore
  generalize lowercaseAfter _ back.toList = after at hbefore
  refine ⟨.ofList before, .ofList after, ?_⟩
  rw [← String.toList_inj, toList_lowercase, String.append_assoc]
  simpa using hbefore

/-- A lower-case ending of a word is an ending of its lower-case form. -/
theorem exists_lowercase_append (hcut : lowercase cut = cut) (stem : String) :
    ∃ left, lowercase (stem ++ cut) = left ++ cut := by
  obtain ⟨left, hleft⟩ := exists_lowercaseAfter_append [] stem.toList cut.toList
  rw [lowercaseAfter_of_isLower (lowercase_eq_self_iff.1 hcut)] at hleft
  refine ⟨.ofList left, ?_⟩
  rw [← String.toList_inj, toList_lowercase]
  simpa using hleft

/-- Without a capital sigma the beginning of a word is lower-cased as it is on its own. -/
theorem exists_lowercase_beginning (h : 'Σ' ∉ (stem ++ cut).toList) :
    ∃ rest, lowercase (stem ++ cut) = lowercase stem ++ rest := by
  rw [String.toList_append, List.mem_append, not_or] at h
  refine ⟨.ofList (cut.toList.flatMap lowerChar), ?_⟩
  rw [← String.toList_inj, toList_lowercase, String.toList_append, String.toList_append,
    toList_lowercase, lowercaseAfter_eq_flatMap (List.mem_append.not.2 (not_or.2 h)),
    lowercaseAfter_eq_flatMap h.1, List.flatMap_append, String.toList_ofList]

/-- Where a word and its lower-case form have one ending, what stands before it in the one is the
lower-case form of what stands before it in the other. -/
theorem lowercase_stem (hword : word = stem ++ cut) (hlower : lowercase word = left ++ cut)
    (hstem : ∃ rest, lowercase word = lowercase stem ++ rest) : lowercase stem = left := by
  obtain ⟨rest, hrest⟩ := hstem
  have hcut : IsLower cut.toList := fun c hc => isLower_lowercase word c (by simp [hlower, hc])
  have hlength : (lowercase stem).toList.length + cut.toList.length =
      left.toList.length + cut.toList.length := by
    calc (lowercase stem).toList.length + cut.toList.length
        = ((stem.toList ++ cut.toList).flatMap lowerChar).length := by
          rw [toList_lowercase, length_lowercaseAfter, List.flatMap_append, List.length_append,
            flatMap_of_isLower hcut]
      _ = (lowercase word).toList.length := by
          rw [toList_lowercase, length_lowercaseAfter, hword, String.toList_append]
      _ = left.toList.length + cut.toList.length := by
          rw [hlower, String.toList_append, List.length_append]
  have happend : (lowercase stem).toList ++ rest.toList = left.toList ++ cut.toList := by
    rw [← String.toList_append, ← String.toList_append, ← hrest, hlower]
  exact String.toList_inj.1 (List.append_inj_left happend (Nat.add_right_cancel hlength))

end Words

end PregroupGrammar.Text
