import Mathlib.Order.Bounds.Defs
import PregroupGrammar.Proofs.ExpansionRounds

/-!
# Stopping early, and going on

An expansion that stops when nothing is added runs the same rounds as one that does not, up to the
first round that adds nothing (`rounds_stopping`). What it leaves out would add nothing either
(`Idle.after_eq`), so the two end with the same types.

Only the types go from one round into the next, so a pass of `n` rounds and then one of `m` do what
a single pass of `n + m` rounds does (`after_add`).
-/

namespace PregroupGrammar

namespace Expansion

variable {rules : List Metarule} {types : List WordType}

/-- Round number `n`, counted from 1, adds nothing. -/
def Idle (rules : List Metarule) (types : List WordType) (n : Nat) : Prop :=
  ∃ j, n = j + 1 ∧ (round rules (after rules types j)).derived = []

theorem not_idle_zero : ¬ Idle rules types 0 := by
  rintro ⟨j, hj, -⟩
  omega

theorem idle_succ {j : Nat} :
    Idle rules types (j + 1) ↔ (round rules (after rules types j)).derived = [] := by
  simp [Idle]

theorem after_add (n m : Nat) :
    after rules types (n + m) = after rules (after rules types n) m := by
  unfold after
  rw [Nat.add_comm, Function.iterate_add_apply]

theorem idle_advance {j : Nat} (hj : j ≠ 0) :
    Idle rules (advance rules types) j ↔ Idle rules types (j + 1) := by
  obtain ⟨i, rfl⟩ := Nat.exists_eq_succ_of_ne_zero hj
  rw [idle_succ, idle_succ, Nat.add_comm i 1, after_add]
  rfl

theorem after_eq_of_le {j k : Nat} (hnone : (round rules (after rules types j)).derived = [])
    (hk : j ≤ k) : after rules types k = after rules types j := by
  obtain ⟨d, rfl⟩ := Nat.exists_eq_add_of_le hk
  rw [after_add, after_eq_self hnone]

/-- Once a round has added nothing, the types stay as they are. -/
theorem Idle.after_eq {n k : Nat} (h : Idle rules types n) (hk : n ≤ k) :
    after rules types k = after rules types n := by
  obtain ⟨j, rfl, hnone⟩ := h
  rw [after_eq_of_le hnone (by omega : j ≤ k), after_eq_of_le hnone (Nat.le_succ j)]

theorem Idle.mono {n k : Nat} (h : Idle rules types n) (hk : n ≤ k) : Idle rules types k := by
  obtain ⟨j, rfl, hnone⟩ := h
  obtain ⟨i, rfl⟩ := Nat.exists_eq_succ_of_ne_zero (by omega : k ≠ 0)
  rw [idle_succ, after_eq_of_le hnone (by omega), hnone]

theorem converged_iterate (k : Nat) :
    ((nextRound rules)^[k] (types, {})).2.converged = true ↔ Idle rules types k := by
  rcases k with _ | k
  · simp [not_idle_zero]
  · rw [Function.iterate_succ_apply', idle_succ, ← (accounts_iterate types k).types_eq]
    exact List.isEmpty_iff

/-- An expansion that may stop runs until a round adds nothing or there are no more rounds to
run. -/
theorem rounds_stopping (rules : List Metarule) : ∀ (n : Nat) (types : List WordType)
    (before : ExpansionReport), ∃ k ≤ n,
      rounds rules true n types before = (nextRound rules)^[k] (types, before) ∧
        (∀ i < k, ¬ Idle rules types i) ∧ (k = n ∨ Idle rules types k)
  | 0, types, before => ⟨0, Nat.le_refl 0, rfl, by simp, .inl rfl⟩
  | n + 1, types, before => by
    rw [rounds, Bool.true_and]
    split_ifs with hempty
    · have hnone := List.isEmpty_iff.1 hempty
      refine ⟨1, by omega, ?_, fun i hi => ?_, .inr (idle_succ.2 hnone)⟩
      · rw [Function.iterate_one, nextRound, advance, hnone, List.append_nil]
      · obtain rfl : i = 0 := by omega
        exact not_idle_zero
    · obtain ⟨k, hk, hrounds, hbusy, hend⟩ := rounds_stopping rules n (advance rules types)
        (report before (round rules types))
      refine ⟨k + 1, by omega, ?_, fun i hi => ?_, ?_⟩
      · rw [Function.iterate_succ_apply]
        exact hrounds
      · -- Round 1 is the one just run, and those after it are one less for the types it leaves.
        rcases i with _ | _ | i
        · exact not_idle_zero
        · exact fun hidle => hempty (List.isEmpty_iff.2 (idle_succ.1 hidle))
        · rw [← idle_advance (by omega)]
          exact hbusy (i + 1) (by omega)
      · refine hend.imp (by omega) fun hidle => ?_
        rwa [← idle_advance]
        rintro rfl
        exact not_idle_zero hidle

/-- To stop when a round adds nothing comes to the same as to run all of the `k` rounds. -/
structure StopsInTime (rules : List Metarule) (types : List WordType) (k : Nat)
    (stopping full : List WordType × ExpansionReport) : Prop where
  types_eq : stopping.1 = full.1
  added : stopping.2.added = full.2.added
  converged : stopping.2.converged = full.2.converged
  runs_all : full.2.roundsRun = k
  runs_until_idle : ∀ n, IsLeast {n | Idle rules types n} n → stopping.2.roundsRun = min k n
  runs_on : (∀ n, ¬ Idle rules types n) → stopping.2.roundsRun = k

/-- Two passes, one after the other, come to the same as a single one. -/
structure AddsUp (first second whole : List WordType × ExpansionReport) : Prop where
  types_eq : second.1 = whole.1
  roundsRun : first.2.roundsRun + second.2.roundsRun = whole.2.roundsRun
  added : first.2.added + second.2.added = whole.2.added
  ambiguous : first.2.ambiguous + second.2.ambiguous = whole.2.ambiguous

theorem Accounts.addsUp {n m : Nat} {first second whole : List WordType × ExpansionReport}
    (hfirst : Accounts rules types n first) (hsecond : Accounts rules first.1 m second)
    (hwhole : Accounts rules types (n + m) whole) : AddsUp first second whole := by
  -- The second pass begins where the first has ended, so its rounds are those from `n` on.
  have hlater : ∀ j, after rules first.1 j = after rules types (n + j) := by
    intro j
    rw [after_add, hfirst.types_eq]
  have htypes : second.1 = whole.1 := by
    rw [hsecond.types_eq, hwhole.types_eq, hlater]
  refine ⟨htypes, ?_, ?_, ?_⟩
  · rw [hfirst.roundsRun, hsecond.roundsRun, hwhole.roundsRun]
  · have h₁ := hfirst.added
    have h₂ := hsecond.added
    have h₃ := hwhole.added
    rw [← htypes] at h₃
    omega
  · rw [hfirst.ambiguous, hsecond.ambiguous, hwhole.ambiguous, List.range_add, List.map_append,
      List.sum_append, List.map_map]
    simp only [hlater, Function.comp_def]

end Expansion

open Expansion

theorem expand_rounds (rules : List Metarule) (k : Nat) (types : List WordType) :
    expand rules (.rounds k) types = (nextRound rules)^[k] (types, {}) := by
  obtain ⟨n, -, hrounds, rfl | ⟨hstops, -⟩⟩ := rounds_eq_iterate rules false k types {}
  · exact hrounds
  · simp at hstops

theorem expand_stopsInTime (rules : List Metarule) (types : List WordType) (k : Nat) :
    StopsInTime rules types k (expand rules (.fixedPoint k) types)
      (expand rules (.rounds k) types) := by
  obtain ⟨n, hn, hrounds, hbusy, hend⟩ := rounds_stopping rules k types {}
  have hstop : expand rules (.fixedPoint k) types = (nextRound rules)^[n] (types, {}) := hrounds
  rw [hstop, expand_rounds]
  have hstopping : Accounts rules types n _ := accounts_iterate types n
  have hfull : Accounts rules types k _ := accounts_iterate types k
  have htypes : ((nextRound rules)^[n] (types, {})).1 = ((nextRound rules)^[k] (types, {})).1 := by
    rw [hstopping.types_eq, hfull.types_eq]
    rcases hend with rfl | hidle
    · rfl
    · rw [hidle.after_eq hn]
  refine ⟨htypes, ?_, ?_, hfull.roundsRun, fun first hfirst => ?_, fun hnever => ?_⟩
  · have h₁ := hstopping.added
    have h₂ := hfull.added
    rw [htypes] at h₁
    omega
  · rw [Bool.eq_iff_iff, converged_iterate, converged_iterate]
    rcases hend with rfl | hidle
    · rfl
    · exact iff_of_true hidle (hidle.mono hn)
  · rw [hstopping.roundsRun]
    have hle : n ≤ first := by
      by_contra hlt
      exact hbusy first (by omega) hfirst.1
    rcases hend with rfl | hidle
    · omega
    · have := hfirst.2 hidle
      omega
  · rw [hstopping.roundsRun]
    exact hend.resolve_right (hnever n)

/-- Expanding until nothing is added, in at most `k` rounds, ends as expanding for `k` rounds does,
and expanding twice ends as expanding once for as many rounds in all. -/
theorem expand_modes_agree (rules : List Metarule) (types : List WordType) :
    (∀ k, StopsInTime rules types k (expand rules (.fixedPoint k) types)
      (expand rules (.rounds k) types)) ∧
    ∀ n m, AddsUp (expand rules (.rounds n) types)
      (expand rules (.rounds m) (expand rules (.rounds n) types).1)
      (expand rules (.rounds (n + m)) types) := by
  refine ⟨expand_stopsInTime rules types, fun n m => ?_⟩
  have haccounts : ∀ k types, Accounts rules types k (expand rules (.rounds k) types) := by
    intro k types
    rw [expand_rounds]
    exact accounts_iterate types k
  exact (haccounts n types).addsUp (haccounts m _) (haccounts (n + m) types)

end PregroupGrammar
