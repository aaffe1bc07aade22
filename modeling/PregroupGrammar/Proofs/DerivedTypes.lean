import PregroupGrammar.Proofs.CapturedRuns
import PregroupGrammar.Proofs.ExpansionRounds

/-!
# What derived types are made of

The runs that a match captures are stretches of the candidate. So where neither the candidate nor
the target holds a bound atom, every atom of the derived type is a concrete atom of the target or an
atom of the candidate with another adjoint (`mem_apply`). Whatever a rule keeps in deriving one type
from another, any number of rounds keeps (`expand_keeps`).
-/

namespace PregroupGrammar

open Fallible

namespace Atom

@[simp]
theorem name_withAdjoint (e : Int32) (a : Atom) : (a.withAdjoint e).name = a.name := by
  cases a <;> rfl

@[simp]
theorem run?_withAdjoint (e : Int32) (a : Atom) : (a.withAdjoint e).run? = a.run? := by
  cases a <;> rfl

theorem run?_of_not_isGeneric {a : Atom} (h : a.isGeneric = false) : a.run? = none := by
  cases a with
  | concrete => rfl
  | generic => rfl
  | bound => simp [isGeneric] at h

end Atom

/-- No atom is bound. -/
def WordType.Unbound (t : WordType) : Prop :=
  ∀ a ∈ t.atoms, a.run? = none

namespace Metarule

variable {rule : Metarule} {candidate derived : WordType}

/-- The runs that a match captures are taken from the candidate. -/
theorem mem_of_run? (hc : candidate.Unbound) {m : PatternMatch}
    (h : rule.match? candidate = .ok (some m)) {name : String} {run : List Atom}
    (hrun : m.run? name = some run) : ∀ b ∈ run, b ∈ candidate.atoms := by
  unfold PatternMatch.run? at hrun
  obtain ⟨a, ha, hrun⟩ := Option.bind_eq_some_iff.1 hrun
  obtain ⟨positions, -, hlaid⟩ := exists_laid h
  have hfills := (hlaid.fills (List.suffix_refl _)).flip
  obtain ⟨p, -, hfill⟩ := exists_mem_of_forall₂ hfills (List.mem_of_find?_eq_some ha)
  by_cases hg : p.isGeneric = true
  · obtain ⟨run', hinside, rfl⟩ := hfill.generic hg
    obtain rfl := Option.some.inj hrun
    exact fun b hb => hinside.mem hb
  · simp [hc a (hfill.concrete hg).1] at hrun

/-- What a derived type is made of. -/
theorem mem_apply (hc : candidate.Unbound) (ht : rule.target.Unbound)
    (h : rule.apply candidate = .ok (some derived)) {a : Atom} (ha : a ∈ derived.atoms) :
    (a ∈ rule.target.atoms ∧ a.isGeneric = false) ∨
      ∃ c ∈ candidate.atoms, ∃ e, a = c.withAdjoint e := by
  obtain ⟨_ | m, hm, h⟩ := map_eq_ok.1 h
  · simp at h
  obtain rfl := Option.some.inj h
  obtain ⟨b, hb, ha⟩ := List.mem_flatMap.1 ha
  obtain ⟨t, htarget, rfl⟩ := List.mem_map.1 hb
  cases t with
  | concrete name e markers =>
    obtain rfl := List.mem_singleton.1 ha
    exact .inl ⟨htarget, rfl⟩
  | generic name e =>
    simp only [PatternMatch.bind, Atom.isGeneric, Atom.name, Atom.adjoint, if_true] at ha
    rcases hrun : m.run? name with _ | run
    · simp [hrun, WordType.spread] at ha
    · simp only [hrun, WordType.spread] at ha
      obtain ⟨c, hmem, rfl⟩ := List.mem_map.1 ha
      exact .inr ⟨c, mem_of_run? hc hm hrun c hmem, e, rfl⟩
  | bound name e run => simpa [Atom.run?] using ht _ htarget

end Metarule

section Rounds

variable {rules : List Metarule} {P : WordType → Prop}
  (hP : ∀ rule ∈ rules, ∀ c, P c → ∀ t, rule.apply c = .ok (some t) → P t)
include hP

theorem after_keeps {types : List WordType} (h : ∀ t ∈ types, P t) :
    ∀ k, ∀ t ∈ Expansion.after rules types k, P t
  | 0, t, ht => h t ht
  | k + 1, t, ht => by
    rw [Expansion.after_succ] at ht
    rcases List.mem_append.1 ht with ht | ht
    · exact after_keeps h k t ht
    · obtain ⟨pair, hpair, happly⟩ := (Expansion.tried_round _ _).justified t ht
      obtain ⟨hsource, hrule⟩ := Expansion.mem_pairsOf.1 hpair
      exact hP pair.2 hrule pair.1 (after_keeps h k pair.1 hsource) t happly

theorem expand_keeps (iteration : Iteration) {types : List WordType} (h : ∀ t ∈ types, P t) :
    ∀ t ∈ (expand rules iteration types).1, P t := by
  obtain ⟨k, haccounts, -⟩ := expand_accounts rules iteration types
  rw [haccounts.types_eq]
  exact after_keeps hP h k

end Rounds

end PregroupGrammar
