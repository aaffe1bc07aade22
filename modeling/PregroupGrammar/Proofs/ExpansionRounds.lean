import Mathlib.Algebra.GroupWithZero.Nat
import Mathlib.Logic.Function.Iterate
import PregroupGrammar.Metarule.Expansion
import PregroupGrammar.Proofs.Fallible

/-!
# The rounds of an expansion

A round tries every pair of a type that was there when it began and a rule. What it has found after
some of them (`Tried`) is kept by one more pair (`Tried.attempt`): each type that it adds comes from
a pair, agrees with none before it, and every type that a pair derives agrees with one in the list.

An expansion is one round after another (`rounds_eq_iterate`), so its report is the account of these
rounds (`expand_accounts`, `expand_extends`). If its last round added nothing, that round began with
the whole result, which is then closed under the rules for good (`expand_closed_of_converged`).
-/

namespace PregroupGrammar

section Zip

variable {α : Type} {r : α → α → Bool}

theorem all_zip_comm (hr : ∀ a b, r a b = r b a) : ∀ as bs : List α,
    ((as.zip bs).all fun (a, b) => r a b) = (bs.zip as).all fun (a, b) => r a b
  | [], bs => by simp
  | a :: as, [] => by simp
  | a :: as, b :: bs => by
    rw [List.zip_cons_cons, List.zip_cons_cons, List.all_cons, List.all_cons, all_zip_comm hr as bs]
    simp only [hr a b]

theorem all_zip_self (hr : ∀ a, r a a = true) : ∀ as : List α,
    ((as.zip as).all fun (a, b) => r a b) = true
  | [] => rfl
  | a :: as => by
    rw [List.zip_cons_cons, List.all_cons, all_zip_self hr as]
    simp only [hr a, Bool.and_self]

end Zip

theorem Atom.agrees_comm (a b : Atom) : a.agrees b = b.agrees a := by
  have hmarkers : a.markersAgree b = b.markersAgree a := by
    rw [markersAgree, markersAgree, Bool.or_comm a.markers.isEmpty,
      all_zip_comm (r := fun m n : Marker => m == n) (fun m n => Bool.beq_comm)]
  rw [agrees, agrees, hmarkers, Bool.beq_comm (a := a.name), Bool.beq_comm (a := a.adjoint)]

theorem Atom.agrees_self (a : Atom) : a.agrees a = true := by
  rw [agrees, markersAgree, all_zip_self (r := fun m n : Marker => m == n) (fun m => BEq.rfl)]
  simp

theorem WordType.agrees_comm (t u : WordType) : t.agrees u = u.agrees t := by
  rw [agrees, agrees, equallyLong_eq, equallyLong_eq, Bool.beq_comm, all_zip_comm Atom.agrees_comm]

theorem WordType.agrees_self (t : WordType) : t.agrees t = true := by
  rw [agrees, equallyLong_eq, all_zip_self Atom.agrees_self, beq_self_eq_true, Bool.and_self]

namespace Expansion

variable {rules : List Metarule} {present : List WordType}

/-- The pair of a type and a rule has an ambiguous match. -/
def isAmbiguous (pair : WordType × Metarule) : Bool :=
  !(pair.2.match? pair.1).isOk

/-- None of the added types agrees with one that stands before it. -/
structure Fresh (before added : List WordType) : Prop where
  apart : ∀ new ∈ added, ∀ t ∈ before, new.agrees t = false
  pairwise : added.Pairwise fun t new => new.agrees t = false

theorem Fresh.append {before added more : List WordType} (h : Fresh before added)
    (hmore : Fresh (before ++ added) more) : Fresh before (added ++ more) := by
  refine ⟨fun new hnew t ht => ?_, ?_⟩
  · rcases List.mem_append.1 hnew with hnew | hnew
    · exact h.apart new hnew t ht
    · exact hmore.apart new hnew t (List.mem_append_left _ ht)
  · refine List.pairwise_append.2 ⟨h.pairwise, hmore.pairwise, fun t ht new hnew => ?_⟩
    exact hmore.apart new hnew t (List.mem_append_right _ ht)

theorem Fresh.agrees_eq_false {before added : List WordType} (h : Fresh before added) {i j : Nat}
    {t new : WordType} (hi : before.length ≤ i) (hji : j < i)
    (hnew : (before ++ added)[i]? = some new) (ht : (before ++ added)[j]? = some t) :
    new.agrees t = false := by
  rw [List.getElem?_append_right hi] at hnew
  by_cases hj : j < before.length
  · rw [List.getElem?_append_left hj] at ht
    exact h.apart new (List.mem_of_getElem? hnew) t (List.mem_of_getElem? ht)
  · rw [List.getElem?_append_right (by omega)] at ht
    obtain ⟨hlt, rfl⟩ := List.getElem?_eq_some_iff.1 hnew
    obtain ⟨hlt', rfl⟩ := List.getElem?_eq_some_iff.1 ht
    exact List.pairwise_iff_getElem.1 h.pairwise _ _ hlt' hlt (by omega)

/-- What a round has found that began with the types `present` and has tried these pairs. -/
structure Tried (present : List WordType) (pairs : List (WordType × Metarule)) (found : Round) :
    Prop where
  justified : ∀ new ∈ found.derived, ∃ pair ∈ pairs, pair.2.apply pair.1 = .ok (some new)
  fresh : Fresh present found.derived
  covered : ∀ pair ∈ pairs, ∀ new, pair.2.apply pair.1 = .ok (some new) →
    ∃ t ∈ present ++ found.derived, new.agrees t = true
  ambiguous : found.ambiguous = pairs.countP isAmbiguous

theorem isAmbiguous_of_error {pair : WordType × Metarule} {e : AmbiguousMatch}
    (h : pair.2.apply pair.1 = .error e) : isAmbiguous pair = true := by
  rw [isAmbiguous, Fallible.map_eq_error.1 h]
  rfl

theorem isAmbiguous_of_ok {pair : WordType × Metarule} {found : Option WordType}
    (h : pair.2.apply pair.1 = .ok found) : isAmbiguous pair = false := by
  obtain ⟨m, hm, -⟩ := Fallible.map_eq_ok.1 h
  rw [isAmbiguous, hm]
  rfl

namespace Tried

variable {pairs : List (WordType × Metarule)} {found : Round}

theorem start : Tried present [] ⟨[], 0⟩ :=
  ⟨by simp, ⟨by simp, .nil⟩, by simp, rfl⟩

/-- One more pair, with the types that the round adds on its account. -/
theorem snoc (h : Tried present pairs found) (pair : WordType × Metarule) (added : List WordType)
    (hjustified : ∀ new ∈ added, pair.2.apply pair.1 = .ok (some new))
    (hfresh : Fresh (present ++ found.derived) added)
    (hcovered : ∀ new, pair.2.apply pair.1 = .ok (some new) →
      ∃ t ∈ present ++ found.derived ++ added, new.agrees t = true) :
    Tried present (pairs ++ [pair])
      ⟨found.derived ++ added, found.ambiguous + if isAmbiguous pair then 1 else 0⟩ where
  justified new hnew := by
    rcases List.mem_append.1 hnew with hnew | hnew
    · obtain ⟨source, hsource, happly⟩ := h.justified new hnew
      exact ⟨source, List.mem_append_left _ hsource, happly⟩
    · exact ⟨pair, List.mem_append_right _ List.mem_cons_self, hjustified new hnew⟩
  fresh := h.fresh.append hfresh
  covered source hsource new happly := by
    rw [← List.append_assoc]
    rcases List.mem_append.1 hsource with hsource | hsource
    · obtain ⟨t, ht, hagrees⟩ := h.covered source hsource new happly
      exact ⟨t, List.mem_append_left _ ht, hagrees⟩
    · obtain rfl := List.mem_singleton.1 hsource
      exact hcovered new happly
  ambiguous := by rw [List.countP_append, List.countP_singleton, h.ambiguous]

/-- A pair that derives nothing, or a type that agrees with a known one. -/
theorem skip (h : Tried present pairs found) {pair : WordType × Metarule} {new? : Option WordType}
    (happly : pair.2.apply pair.1 = .ok new?)
    (hknown : ∀ new, new? = some new → ∃ t ∈ present ++ found.derived, new.agrees t = true) :
    Tried present (pairs ++ [pair]) found := by
  have hsnoc := h.snoc pair [] (by simp) ⟨by simp, .nil⟩ fun new hnew => by
    rw [List.append_nil]
    exact hknown new (Except.ok.inj (happly.symm.trans hnew))
  rwa [isAmbiguous_of_ok happly, List.append_nil] at hsnoc

theorem attempt (h : Tried present pairs found) (candidate : WordType) (rule : Metarule) :
    Tried present (pairs ++ [(candidate, rule)]) (attempt present found candidate rule) := by
  rw [Expansion.attempt]
  rcases happly : rule.apply candidate with e | _ | new
  · have hsnoc := h.snoc (candidate, rule) [] (by simp) ⟨by simp, .nil⟩ (by simp [happly])
    rwa [isAmbiguous_of_error happly, List.append_nil] at hsnoc
  · exact h.skip happly (by simp)
  · simp only
    split_ifs with hknown
    -- The round asks whether a known type agrees with the new one, and not the other way about.
    · refine h.skip happly fun new' hnew' => ?_
      obtain rfl := Option.some.inj hnew'
      obtain ⟨t, ht, hagrees⟩ := List.any_eq_true.1 hknown
      exact ⟨t, ht, by rwa [WordType.agrees_comm]⟩
    · have hfresh : Fresh (present ++ found.derived) [new] := by
        refine ⟨fun new' hnew' t ht => ?_, List.pairwise_singleton _ _⟩
        obtain rfl := List.mem_singleton.1 hnew'
        rw [WordType.agrees_comm]
        by_contra hagrees
        exact hknown (List.any_eq_true.2 ⟨t, ht, by simpa using hagrees⟩)
      have hsnoc := h.snoc (candidate, rule) [new] (by simp [happly]) hfresh fun new' hnew' => by
        obtain rfl := Option.some.inj (Except.ok.inj (happly.symm.trans hnew'))
        exact ⟨new, by simp, new.agrees_self⟩
      rwa [isAmbiguous_of_ok happly] at hsnoc

theorem foldl : ∀ (more : List (WordType × Metarule)) {pairs : List (WordType × Metarule)}
    {found : Round}, Tried present pairs found → Tried present (pairs ++ more)
      (more.foldl (fun found pair => Expansion.attempt present found pair.1 pair.2) found)
  | [], pairs, found, h => by simpa using h
  | pair :: more, pairs, found, h => by
    have hlater := foldl more (h.attempt pair.1 pair.2)
    rwa [List.append_assoc] at hlater

end Tried

/-- All the pairs of a type and a rule. -/
def pairsOf (rules : List Metarule) (types : List WordType) : List (WordType × Metarule) :=
  types.flatMap fun t => rules.map (t, ·)

theorem mem_pairsOf {types : List WordType} {pair : WordType × Metarule} :
    pair ∈ pairsOf rules types ↔ pair.1 ∈ types ∧ pair.2 ∈ rules := by
  rw [pairsOf, List.mem_flatMap]
  constructor
  · rintro ⟨t, ht, hpair⟩
    obtain ⟨rule, hrule, rfl⟩ := List.mem_map.1 hpair
    exact ⟨ht, hrule⟩
  · rintro ⟨ht, hrule⟩
    exact ⟨pair.1, ht, List.mem_map.2 ⟨pair.2, hrule, rfl⟩⟩

/-- A round tries every pair of a type that was there when it began and a rule. -/
theorem tried_round (rules : List Metarule) (present : List WordType) :
    Tried present (pairsOf rules present) (round rules present) := by
  have hfold : round rules present = (pairsOf rules present).foldl
      (fun found pair => attempt present found pair.1 pair.2) ⟨[], 0⟩ := by
    rw [pairsOf, List.foldl_flatMap, round]
    simp only [List.foldl_map]
  rw [hfold]
  exact Tried.foldl (pairsOf rules present) .start

section Stages

variable (rules : List Metarule) (types : List WordType)

/-- The types after one more round. -/
def advance (types : List WordType) : List WordType :=
  types ++ (round rules types).derived

/-- The types after a number of rounds. -/
def after (k : Nat) : List WordType :=
  (advance rules)^[k] types

/-- The number of pairs of a type and a rule that have an ambiguous match. -/
def ambiguities : Nat :=
  (pairsOf rules types).countP isAmbiguous

/-- One round, on the types and the report. -/
def nextRound (s : List WordType × ExpansionReport) : List WordType × ExpansionReport :=
  (advance rules s.1, report s.2 (round rules s.1))

variable {rules types}

theorem after_succ (k : Nat) : after rules types (k + 1) =
    after rules types k ++ (round rules (after rules types k)).derived :=
  Function.iterate_succ_apply' _ _ _

/-- Where a round adds nothing, no number of rounds adds anything. -/
theorem after_eq_self (h : (round rules types).derived = []) : ∀ k, after rules types k = types
  | 0 => rfl
  | k + 1 => by rw [after_succ, after_eq_self h k, h, List.append_nil]

theorem exists_added (rules : List Metarule) (types : List WordType) : ∀ k,
    ∃ added, after rules types k = types ++ added ∧ Fresh types added
  | 0 => ⟨[], (List.append_nil types).symm, by simp, .nil⟩
  | k + 1 => by
    obtain ⟨added, hafter, hfresh⟩ := exists_added rules types k
    have hround := (tried_round rules (after rules types k)).fresh
    refine ⟨added ++ (round rules (after rules types k)).derived, ?_, hfresh.append ?_⟩
    · rw [after_succ, hafter, List.append_assoc]
    · rwa [← hafter]

/-- A type behind those that were there at first was derived in one of the rounds. -/
theorem exists_round_of_getElem? {i : Nat} {new : WordType} (hi : types.length ≤ i) : ∀ {k : Nat},
    (after rules types k)[i]? = some new → ∃ j < k,
      (after rules types j).length ≤ i ∧ i < (after rules types (j + 1)).length ∧
        new ∈ (round rules (after rules types j)).derived
  | 0, hnew => absurd (List.getElem?_eq_some_iff.1 hnew).1 (Nat.not_lt.2 hi)
  | k + 1, hnew => by
    have hlt := (List.getElem?_eq_some_iff.1 hnew).1
    rw [after_succ] at hnew
    by_cases hk : i < (after rules types k).length
    · rw [List.getElem?_append_left hk] at hnew
      obtain ⟨j, hj, hfound⟩ := exists_round_of_getElem? hi hnew
      exact ⟨j, by omega, hfound⟩
    · rw [List.getElem?_append_right (by omega)] at hnew
      exact ⟨k, by omega, by omega, hlt, List.mem_of_getElem? hnew⟩

/-- The rounds that are run are one round after the other: all that may be run, unless an earlier
one converges and the expansion stops there. -/
theorem rounds_eq_iterate (rules : List Metarule) (stops : Bool) : ∀ (n : Nat)
    (types : List WordType) (before : ExpansionReport), ∃ k ≤ n,
      rounds rules stops n types before = (nextRound rules)^[k] (types, before) ∧
        (k = n ∨ stops = true ∧ (rounds rules stops n types before).2.converged = true)
  | 0, types, before => ⟨0, Nat.le_refl 0, rfl, .inl rfl⟩
  | n + 1, types, before => by
    rw [rounds]
    split_ifs with hstop
    -- The round at which an expansion stops is reported too, as one that appends nothing.
    · obtain ⟨hstops, hnone⟩ := Bool.and_eq_true_iff.1 hstop
      refine ⟨1, by omega, ?_, .inr ⟨hstops, hnone⟩⟩
      rw [Function.iterate_one, nextRound, advance, List.isEmpty_iff.1 hnone, List.append_nil]
    · obtain ⟨k, hk, hrounds, hran⟩ := rounds_eq_iterate rules stops n (advance rules types)
        (report before (round rules types))
      refine ⟨k + 1, by omega, ?_, hran.imp_left (by omega)⟩
      rw [Function.iterate_succ_apply]
      exact hrounds

end Stages

/-- What the types and the report are after `k` rounds. -/
structure Accounts (rules : List Metarule) (types : List WordType) (k : Nat)
    (s : List WordType × ExpansionReport) : Prop where
  types_eq : s.1 = after rules types k
  roundsRun : s.2.roundsRun = k
  added : s.1.length = types.length + s.2.added
  ambiguous : s.2.ambiguous =
    ((List.range k).map fun j => ambiguities rules (after rules types j)).sum
  converged : s.2.converged = true →
    ∃ j, k = j + 1 ∧ (round rules (after rules types j)).derived = []

theorem Accounts.next {types : List WordType} {k : Nat} {s : List WordType × ExpansionReport}
    (h : Accounts rules types k s) : Accounts rules types (k + 1) (nextRound rules s) where
  types_eq := by rw [after_succ, ← h.types_eq]; rfl
  roundsRun := congrArg (· + 1) h.roundsRun
  added := by
    have hadded := h.added
    simp only [nextRound, advance, report, List.length_append]
    omega
  ambiguous := by
    rw [List.range_succ, List.map_append, List.sum_append, ← h.ambiguous, List.map_singleton,
      List.sum_singleton, ← h.types_eq]
    exact congrArg (s.2.ambiguous + ·) (tried_round rules s.1).ambiguous
  converged hconverged := by
    refine ⟨k, rfl, ?_⟩
    rw [← h.types_eq]
    exact List.isEmpty_iff.1 hconverged

theorem accounts_iterate (types : List WordType) : ∀ k,
    Accounts rules types k ((nextRound rules)^[k] (types, {}))
  | 0 => ⟨rfl, rfl, rfl, rfl, by simp⟩
  | k + 1 => by
    rw [Function.iterate_succ_apply']
    exact (accounts_iterate types k).next

/-- The last round of a converged expansion began with the list that the expansion ends with. -/
theorem Accounts.derived_eq_nil {types : List WordType} {k : Nat}
    {s : List WordType × ExpansionReport} (h : Accounts rules types k s)
    (hconverged : s.2.converged = true) : (round rules s.1).derived = [] := by
  obtain ⟨j, rfl, hnone⟩ := h.converged hconverged
  have hsame : s.1 = after rules types j := by
    rw [h.types_eq, after_succ, hnone, List.append_nil]
  rwa [hsame]

/-- The result has the types at its front, and behind them what the rounds of the report derived. -/
structure Extends (rules : List Metarule) (iteration : Iteration) (types result : List WordType)
    (report : ExpansionReport) : Prop where
  ran : report.roundsRun = iteration.limit ∨ report.roundsRun ≤ iteration.limit ∧
    iteration.stopsWhenStable = true ∧ report.converged = true
  result_eq : result = after rules types report.roundsRun
  keeps : types <+: result
  length_eq : result.length = types.length + report.added
  justified : ∀ (i : Nat) (new : WordType), types.length ≤ i → result[i]? = some new →
    ∃ k < report.roundsRun,
      (after rules types k).length ≤ i ∧ i < (after rules types (k + 1)).length ∧
      ∃ rule ∈ rules, ∃ t ∈ after rules types k, rule.apply t = .ok (some new)
  fresh : ∀ (i j : Nat) (t new : WordType), types.length ≤ i → j < i → result[i]? = some new →
    result[j]? = some t → new.agrees t = false
  covered : ∀ k < report.roundsRun, ∀ rule ∈ rules, ∀ t ∈ after rules types k, ∀ new,
    rule.apply t = .ok (some new) → ∃ u ∈ after rules types (k + 1), new.agrees u = true
  ambiguous : report.ambiguous =
    ((List.range report.roundsRun).map fun k => ambiguities rules (after rules types k)).sum

end Expansion

open Expansion

section Expand

variable {rules : List Metarule} {iteration : Iteration} {types : List WordType}

theorem expand_accounts (rules : List Metarule) (iteration : Iteration) (types : List WordType) :
    ∃ k, Accounts rules types k (expand rules iteration types) ∧
      (k = iteration.limit ∨ k ≤ iteration.limit ∧ iteration.stopsWhenStable = true ∧
        (expand rules iteration types).2.converged = true) := by
  obtain ⟨k, hk, hrounds, hran⟩ :=
    rounds_eq_iterate rules iteration.stopsWhenStable iteration.limit types {}
  refine ⟨k, ?_, hran.imp_right fun hstop => ⟨hk, hstop⟩⟩
  rw [expand, hrounds]
  exact accounts_iterate types k

/-- Expansion appends types that the rules derive, each new to the list, and misses none that a
round can derive. -/
theorem expand_extends (rules : List Metarule) (iteration : Iteration) (types : List WordType) :
    Extends rules iteration types (expand rules iteration types).1
      (expand rules iteration types).2 := by
  obtain ⟨k, h, hran⟩ := expand_accounts rules iteration types
  obtain ⟨added, hadded, hfresh⟩ := exists_added rules types k
  have hrun := h.roundsRun
  have hresult := h.types_eq
  refine ⟨by rwa [hrun], by rwa [hrun], ?_, h.added, ?_, ?_, ?_, by rw [hrun]; exact h.ambiguous⟩
  · rw [hresult, hadded]
    exact List.prefix_append _ _
  · intro i new hi hnew
    rw [hresult] at hnew
    obtain ⟨j, hj, hle, hlt, hmem⟩ := exists_round_of_getElem? hi hnew
    obtain ⟨⟨t, rule⟩, hpair, happly⟩ :=
      (tried_round rules (after rules types j)).justified new hmem
    obtain ⟨ht, hrule⟩ := mem_pairsOf.1 hpair
    rw [hrun]
    exact ⟨j, hj, hle, hlt, rule, hrule, t, ht, happly⟩
  · intro i j t new hi hji hnew ht
    rw [hresult, hadded] at hnew ht
    exact hfresh.agrees_eq_false hi hji hnew ht
  · intro k hk rule hrule t ht new hnew
    obtain ⟨u, hu, hagrees⟩ := (tried_round rules (after rules types k)).covered (t, rule)
      (mem_pairsOf.2 ⟨ht, hrule⟩) new hnew
    exact ⟨u, by rwa [after_succ], hagrees⟩

/-- A converged expansion has reached a list that is closed under the rules, and expanding that list
again changes nothing. -/
theorem expand_closed_of_converged (h : (expand rules iteration types).2.converged = true) :
    (∀ t ∈ (expand rules iteration types).1, ∀ rule ∈ rules, ∀ new,
      rule.apply t = .ok (some new) →
        ∃ u ∈ (expand rules iteration types).1, u.agrees new = true) ∧
    ∀ further : Iteration,
      (expand rules further (expand rules iteration types).1).1 =
        (expand rules iteration types).1 ∧
      (expand rules further (expand rules iteration types).1).2.added = 0 := by
  obtain ⟨k, haccounts, -⟩ := expand_accounts rules iteration types
  have hnone := haccounts.derived_eq_nil h
  generalize (expand rules iteration types).1 = result at hnone
  refine ⟨fun t ht rule hrule new hnew => ?_, fun further => ?_⟩
  · obtain ⟨u, hu, hagrees⟩ :=
      (tried_round rules result).covered (t, rule) (mem_pairsOf.2 ⟨ht, hrule⟩) new hnew
    rw [hnone, List.append_nil] at hu
    exact ⟨u, hu, by rwa [WordType.agrees_comm]⟩
  · obtain ⟨n, hfurther, -⟩ := expand_accounts rules further result
    have hsame := hfurther.types_eq.trans (after_eq_self hnone n)
    have hadded := hfurther.added
    rw [hsame] at hadded
    exact ⟨hsame, by omega⟩

end Expand

namespace Expansion.Sample

/-- `*X^0 v^1 --> *X^0 w^1` and `a^0 *X^0 --> b^0 *X^1` -/
def rules : List Metarule :=
  [⟨1, ⟨[.generic "*X" 0, .plain "v" 1]⟩, ⟨[.generic "*X" 0, .plain "w" 1]⟩, by decide⟩,
    ⟨2, ⟨[.plain "a" 0, .generic "*X" 0]⟩, ⟨[.plain "b" 0, .generic "*X" 1]⟩, by decide⟩]

/-- `a^0 v^1`, `a^0 w^1`, `b^0 v^1`, `b^0 w^1` -/
def closed : List WordType :=
  [⟨[.plain "a" 0, .plain "v" 1]⟩, ⟨[.plain "a" 0, .plain "w" 1]⟩,
    ⟨[.plain "b" 0, .plain "v" 1]⟩, ⟨[.plain "b" 0, .plain "w" 1]⟩]

theorem expand_rules :
    expand rules (.fixedPoint 10) (closed.take 1) = (closed, ⟨3, 3, 0, true⟩) := by
  rfl

end Expansion.Sample

theorem expand_closed_of_converged_sample :
    (expand Expansion.Sample.rules (.fixedPoint 10)
        (Expansion.Sample.closed.take 1)).2.converged = true ∧
      (∀ t ∈ Expansion.Sample.closed, ∀ rule ∈ Expansion.Sample.rules, ∀ new,
        rule.apply t = .ok (some new) → ∃ u ∈ Expansion.Sample.closed, u.agrees new = true) ∧
      (expand Expansion.Sample.rules (.rounds 2) Expansion.Sample.closed).1 =
        Expansion.Sample.closed ∧
      (expand Expansion.Sample.rules (.rounds 2) Expansion.Sample.closed).2.added = 0 := by
  have hexpand := Expansion.Sample.expand_rules
  have hconverged := congrArg (fun result => result.2.converged) hexpand
  obtain ⟨hclosed, hfurther⟩ := expand_closed_of_converged hconverged
  rw [hexpand] at hclosed hfurther
  exact ⟨hconverged, hclosed, hfurther (.rounds 2)⟩

end PregroupGrammar
