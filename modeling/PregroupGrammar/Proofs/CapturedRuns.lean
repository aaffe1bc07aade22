import Mathlib.Algebra.GroupWithZero.Nat
import Mathlib.Data.List.Chain
import PregroupGrammar.Proofs.Alignments

/-!
# What a match captures

A match lays the pattern on the candidate piece by piece (`Laid`): a generic on a run of atoms, a
concrete atom on one atom that agrees with it. So the pieces, one after the other, are the candidate
(`Laid.flatten_pieces`), and a generic takes just what lies between the positions of the concrete
atoms next to it (`Laid.bindAlong?_eq`). A generic at an end of the pattern never goes empty-handed
if the pattern has a concrete atom at all (`Laid.capturesSome_head`, `Laid.capturesSome_getLast`).

No two generics of a pattern have one name, and a concrete candidate brings none along, so looking a
generic up by its name gives the run that it captured (`find?_of_fills`). The type that a rule
derives is therefore its target with these runs in place of the generics (`apply_substitutes`).
-/

namespace PregroupGrammar

theorem Atom.withAdjoint_of_not_isGeneric {a : Atom} (h : a.isGeneric = false) (e : Int32) :
    a.withAdjoint e = .concrete a.name e a.markers := by
  cases a with
  | concrete => rfl
  | generic => simp [isGeneric] at h
  | bound => simp [isGeneric] at h

namespace Metarule

/-- One way to lay the rest of a pattern, from the place `k` on, on the rest of a candidate, from
the position `i` on, with the positions of the concrete atoms and the bound pattern. -/
inductive Laid : Nat → Nat → List Atom → List Atom → List Nat → List Atom → Prop
  | nil {k i : Nat} : Laid k i [] [] [] []
  | generic {k i : Nat} {p : Atom} {ps rest bound : List Atom} {positions : List Nat}
      (hg : p.isGeneric = true) (run : List Atom)
      (later : Laid (k + 1) (i + run.length) ps rest positions bound) :
      Laid k i (p :: ps) (run ++ rest) positions (.bound p.name p.adjoint run :: bound)
  | concrete {k i : Nat} {p a : Atom} {ps rest bound : List Atom} {positions : List Nat}
      (hg : ¬ p.isGeneric = true) (hagrees : a.agrees p = true) (hfirst : i = 0 → k = 0)
      (hlast : rest = [] → ps = []) (later : Laid (k + 1) (i + 1) ps rest positions bound) :
      Laid k i (p :: ps) (a :: rest) (i :: positions) (a :: bound)

theorem laid_of_mem_layings : ∀ {ps cs : List Atom} {k i : Nat} {positions : List Nat}
    {bound : List Atom}, (positions, bound) ∈ layings k i ps cs → Laid k i ps cs positions bound
  | [], [], k, i, positions, bound, h => by
    simp only [layings, List.mem_singleton, Prod.mk.injEq] at h
    obtain ⟨rfl, rfl⟩ := h
    exact .nil
  | [], _ :: _, k, i, positions, bound, h => by simp [layings] at h
  | p :: ps, cs, k, i, positions, bound, h => by
    rw [layings.eq_def] at h
    simp only at h
    split_ifs at h with hg
    · obtain ⟨j, hj, h⟩ := List.mem_flatMap.1 h
      obtain ⟨⟨later, laterBound⟩, hmem, heq⟩ := List.mem_map.1 h
      obtain ⟨rfl, rfl⟩ := Prod.mk.inj heq
      have hlen : (cs.take j).length = j := by
        have := List.mem_range.1 hj
        rw [List.length_take]
        omega
      have hlaid := laid_of_mem_layings hmem
      rw [← hlen] at hlaid
      have hgeneric := Laid.generic hg (cs.take j) hlaid
      rwa [hlen, List.take_append_drop] at hgeneric
    · rcases cs with _ | ⟨a, rest⟩
      · simp at h
      · simp only at h
        split_ifs at h with hcovers
        · obtain ⟨⟨later, laterBound⟩, hmem, heq⟩ := List.mem_map.1 h
          obtain ⟨rfl, rfl⟩ := Prod.mk.inj heq
          exact .concrete hg hcovers.1 hcovers.2.1 hcovers.2.2 (laid_of_mem_layings hmem)
        · simp at h

section Partition

variable (pattern candidate bound : List Atom)

/-- What a bound pattern holds where the pattern has an atom: a generic with its run, or an atom of
the candidate that agrees with a concrete one. -/
structure Fills (p b : Atom) : Prop where
  generic : p.isGeneric = true → ∃ run, run <:+: candidate ∧ b = .bound p.name p.adjoint run
  concrete : ¬ p.isGeneric = true → b ∈ candidate ∧ b.agrees p = true

/-- The atoms of the candidate that a place of the pattern stands for: the run that its generic
captured, or the one atom laid under its concrete atom. -/
def piece (p b : Atom) : List Atom :=
  if p.isGeneric then b.run?.getD [] else [b]

/-- The pattern bound along the positions of its concrete atoms, with the candidate used up to
`start`. A generic takes what lies in front of the next position, or all the rest after the last
one. It fails if a position lies outside the candidate or in front of `start`. -/
def bindAlong? : Nat → List Nat → List Atom → Option (List Atom)
  | _, _, [] => some []
  | start, positions, p :: ps =>
    if p.isGeneric then
      let stop := positions.headD candidate.length
      if start ≤ stop ∧ stop ≤ candidate.length then
        (bindAlong? stop positions ps).map
          (.bound p.name p.adjoint ((candidate.drop start).take (stop - start)) :: ·)
      else none
    else do
      let i ← positions.head?
      let a ← candidate[i]?
      (bindAlong? (i + 1) positions.tail ps).map (a :: ·)

/-- The generic is there and bound to a run that is not empty. -/
def CapturesSome (p : Atom) (b : Option Atom) : Prop :=
  ∃ c run, b = some (.bound p.name p.adjoint (c :: run))

/-- The bound pattern cuts the candidate into the pieces that the atoms of the pattern stand for. -/
structure Partitions : Prop where
  length : bound.length = pattern.length
  fills : List.Forall₂ (Fills candidate) pattern bound
  pieces : (List.zipWith piece pattern bound).flatten = candidate
  slices : ∃ positions, IsAlignment pattern candidate positions ∧
    bindAlong? candidate 0 positions pattern = some bound
  first : (∃ q ∈ pattern, ¬ q.isGeneric = true) → ∀ p, pattern.head? = some p →
    p.isGeneric = true → CapturesSome p bound.head?
  last : (∃ q ∈ pattern, ¬ q.isGeneric = true) → ∀ p, pattern.getLast? = some p →
    p.isGeneric = true → CapturesSome p bound.getLast?

end Partition

namespace Laid

variable {k i : Nat} {ps cs candidate bound : List Atom} {positions : List Nat}

theorem fills (h : Laid k i ps cs positions bound) (hcs : cs <:+ candidate) :
    List.Forall₂ (Fills candidate) ps bound := by
  induction h with
  | nil => exact .nil
  | generic hg run later ih =>
    have hrun := (List.prefix_append run _).isInfix.trans hcs.isInfix
    refine .cons ⟨fun _ => ⟨run, hrun, rfl⟩, fun hnot => absurd hg hnot⟩ (ih ?_)
    exact (List.suffix_append run _).trans hcs
  | concrete hg hagrees hfirst hlast later ih =>
    have ha := hcs.mem List.mem_cons_self
    refine .cons ⟨fun hgen => absurd hgen hg, fun _ => ⟨ha, hagrees⟩⟩ (ih ?_)
    exact (List.suffix_cons _ _).trans hcs

theorem flatten_pieces (h : Laid k i ps cs positions bound) :
    (List.zipWith piece ps bound).flatten = cs := by
  induction h with
  | nil => rfl
  | generic hg run later ih =>
    rw [List.zipWith_cons_cons, List.flatten_cons, ih, piece, if_pos hg]
    rfl
  | concrete hg hagrees hfirst hlast later ih =>
    rw [List.zipWith_cons_cons, List.flatten_cons, ih, piece, if_neg hg]
    rfl

theorem headD_positions (h : Laid k i ps cs positions bound)
    (hnext : ∀ q, ps.head? = some q → ¬ q.isGeneric = true) :
    positions.headD (i + cs.length) = i := by
  cases h with
  | nil => rfl
  | generic hg run later => exact absurd hg (hnext _ rfl)
  | concrete hg hagrees hfirst hlast later => rfl

theorem bindAlong?_eq (h : Laid k i ps cs positions bound) (hapart : ps.IsChain Apart)
    (hcs : candidate.drop i = cs) (hi : i ≤ candidate.length) :
    bindAlong? candidate i positions ps = some bound := by
  induction h with
  | nil => rfl
  | @generic k i p ps rest bound positions hg run later ih =>
    have hrest : candidate.drop (i + run.length) = rest := by
      rw [← List.drop_drop, hcs, List.drop_left]
    have hlen : i + run.length + rest.length = candidate.length := by
      have := congrArg List.length hcs
      rw [List.length_drop, List.length_append] at this
      omega
    -- The next atom is not generic, so its position, if there is one, is where the run ends.
    have hstop : positions.headD candidate.length = i + run.length := by
      rw [← hlen]
      exact later.headD_positions fun q hq hgen => hapart.rel_head? hq ⟨hg, hgen⟩
    rw [Metarule.bindAlong?, if_pos hg]
    simp only [hstop]
    rw [if_pos (by omega), ih hapart.of_cons hrest (by omega), hcs, Nat.add_sub_cancel_left,
      List.take_left]
    rfl
  | @concrete k i p a ps rest bound positions hg hagrees hfirst hlast later ih =>
    obtain ⟨hget, hrest, hlt, -⟩ := getElem?_of_drop hcs
    rw [Metarule.bindAlong?, if_neg hg]
    simp [hget, ih hapart.of_cons hrest hlt]

end Laid

section Edges

variable {ps cs bound : List Atom} {positions : List Nat} {p : Atom}

theorem CapturesSome.cons {b : Atom} (h : CapturesSome p bound.getLast?) :
    CapturesSome p (b :: bound).getLast? := by
  obtain ⟨c, run, hlast⟩ := h
  exact ⟨c, run, by rw [List.getLast?_cons, hlast]; rfl⟩

theorem Laid.capturesSome_head (h : Laid 0 0 (p :: ps) cs positions bound)
    (hapart : (p :: ps).IsChain Apart) (hg : p.isGeneric = true) (hne : ps ≠ []) :
    CapturesSome p bound.head? := by
  cases h with
  | generic _ run later =>
    rcases run with _ | ⟨c, run⟩
    -- With an empty run the atom after the generic would be laid on the candidate's first atom.
    · cases later with
      | nil => exact absurd rfl hne
      | generic hnext _ _ => exact absurd ⟨hg, hnext⟩ (List.isChain_cons_cons.1 hapart).1
      | concrete _ _ hfirst _ _ => exact absurd (hfirst rfl) (by omega)
    · exact ⟨c, run, rfl⟩
  | concrete hnot _ _ _ _ => exact absurd hg hnot

theorem Laid.capturesSome_getLast {q : Atom} (hq : ¬ q.isGeneric = true) (hg : p.isGeneric = true) :
    ∀ (front : List Atom) {k i : Nat} {cs bound : List Atom} {positions : List Nat},
      Laid k i (front ++ [q, p]) cs positions bound → CapturesSome p bound.getLast?
  | [], k, i, cs, bound, positions, h => by
    cases h with
    | generic hgen _ _ => exact absurd hgen hq
    | concrete _ _ _ hlast later =>
      cases later with
      | generic _ run rest =>
        cases rest
        -- With an empty run the atom before the generic would be laid on the candidate's last atom.
        rcases run with _ | ⟨c, run⟩
        · exact absurd (hlast rfl) (by simp)
        · exact ⟨c, run, rfl⟩
      | concrete hnot _ _ _ _ => exact absurd hg hnot
  | f :: front, k, i, cs, bound, positions, h => by
    cases h with
    | generic _ run later => exact (capturesSome_getLast hq hg front later).cons
    | concrete _ _ _ _ later => exact (capturesSome_getLast hq hg front later).cons

theorem exists_concrete_before_last {pattern : List Atom} (hapart : pattern.IsChain Apart)
    (hsome : ∃ q ∈ pattern, ¬ q.isGeneric = true) (hlast : pattern.getLast? = some p)
    (hg : p.isGeneric = true) :
    ∃ front q, pattern = front ++ [q, p] ∧ ¬ q.isGeneric = true := by
  obtain ⟨before, rfl⟩ := List.getLast?_eq_some_iff.1 hlast
  rcases List.eq_nil_or_concat before with rfl | ⟨front, q, rfl⟩
  · obtain ⟨q, hq, hnot⟩ := hsome
    obtain rfl := List.mem_singleton.1 hq
    exact absurd hg hnot
  · rw [List.concat_eq_append, List.append_assoc] at hapart
    refine ⟨front, q, by simp, fun hq => ?_⟩
    exact (List.isChain_cons_cons.1 hapart.right_of_append).1 ⟨hq, hg⟩

end Edges

section Match

variable {rule : Metarule} {candidate derived : WordType} {m : PatternMatch}

theorem match?_eq_some (h : rule.match? candidate = .ok (some m)) :
    m.boundPattern.atoms ∈ fits true true 2 rule.pattern.atoms candidate.atoms := by
  unfold match? at h
  split at h
  · simp at h
  · rename_i atoms hfits
    simp only [Except.ok.injEq, Option.some.injEq] at h
    subst h
    simp [hfits]
  · simp at h

theorem exists_laid (h : rule.match? candidate = .ok (some m)) :
    ∃ positions, IsAlignment rule.pattern.atoms candidate.atoms positions ∧
      Laid 0 0 rule.pattern.atoms candidate.atoms positions m.boundPattern.atoms := by
  have hfits := fits_eq_take rule.pattern.atoms candidate.atoms 0 0 2
  rw [show ((0 : Nat) == 0) = true from rfl] at hfits
  have hmem := match?_eq_some h
  rw [hfits] at hmem
  obtain ⟨⟨positions, bound⟩, hlaid, rfl⟩ := List.mem_map.1 (List.mem_of_mem_take hmem)
  refine ⟨positions, mem_positionLists_iff_isAlignment.1 ?_, laid_of_mem_layings hlaid⟩
  exact List.mem_map.2 ⟨_, hlaid, rfl⟩

/-- A match cuts the candidate into what the atoms of the pattern stand for. -/
theorem match?_partitions (h : rule.match? candidate = .ok (some m)) :
    Partitions rule.pattern.atoms candidate.atoms m.boundPattern.atoms := by
  obtain ⟨positions, haligns, hlaid⟩ := exists_laid h
  have hapart := rule.form.apart
  have hfills := hlaid.fills (List.suffix_refl _)
  refine ⟨hfills.length_eq.symm, hfills, hlaid.flatten_pieces, ?_, ?_, ?_⟩
  · exact ⟨positions, haligns, hlaid.bindAlong?_eq hapart List.drop_zero (Nat.zero_le _)⟩
  · rintro ⟨q, hq, hnot⟩ p hhead hg
    obtain ⟨ps, hps⟩ := List.head?_eq_some_iff.1 hhead
    rw [hps] at hlaid hapart hq
    refine hlaid.capturesSome_head hapart hg ?_
    rintro rfl
    obtain rfl := List.mem_singleton.1 hq
    exact hnot hg
  · intro hsome p hlast hg
    obtain ⟨front, q, hpattern, hq⟩ := exists_concrete_before_last hapart hsome hlast hg
    rw [hpattern] at hlaid
    exact hlaid.capturesSome_getLast hq hg front

end Match

namespace Sample

/-- `*X^0 v^1 *Y^0 n^0 --> *X^1 s^0 *Y^0 *X^-1` -/
def rule : Metarule where
  tag := 1
  pattern := ⟨[.generic "*X" 0, .plain "v" 1, .generic "*Y" 0, .plain "n" 0]⟩
  target := ⟨[.generic "*X" 1, .plain "s" 0, .generic "*Y" 0, .generic "*X" (-1)]⟩
  wellFormed := by decide

/-- `a_1^0 b^1 v_3^1 n^0` -/
def candidate : WordType :=
  ⟨[.concrete "a" 0 [⟨0, 1⟩], .plain "b" 1, .concrete "v" 1 [⟨0, 3⟩], .plain "n" 0]⟩

/-- The first generic captures two atoms, the second one nothing. -/
def found : PatternMatch :=
  ⟨⟨[.bound "*X" 0 [.concrete "a" 0 [⟨0, 1⟩], .plain "b" 1], .concrete "v" 1 [⟨0, 3⟩],
    .bound "*Y" 0 [], .plain "n" 0]⟩⟩

end Sample

theorem match?_partitions_sample :
    Sample.rule.match? Sample.candidate = .ok (some Sample.found) ∧
      Partitions Sample.rule.pattern.atoms Sample.candidate.atoms
        Sample.found.boundPattern.atoms :=
  ⟨by rfl, match?_partitions (by rfl)⟩

section Substitution

variable {rule : Metarule} {candidate derived : WordType} {m : PatternMatch}

/-- Where the candidate is concrete, a bound pattern has no generics but those of the pattern, and
each of these is the only one of its name. -/
theorem find?_of_fills {cs pattern bound : List Atom} (hc : ∀ c ∈ cs, c.isGeneric = false)
    (hfills : List.Forall₂ (Fills cs) pattern bound) (hnodup : (genericNames pattern).Nodup)
    {k : Nat} {p : Atom} (hp : pattern[k]? = some p) (hg : p.isGeneric = true) :
    ∃ run, run <:+: cs ∧ bound[k]? = some (.bound p.name p.adjoint run) ∧
      bound.find? (fun a => a.isGeneric && a.name == p.name) =
        some (.bound p.name p.adjoint run) := by
  induction hfills generalizing k with
  | nil => simp at hp
  | @cons q d ps bs hfill hfills ih =>
    rcases k with _ | k
    · obtain rfl := Option.some.inj hp
      obtain ⟨run, hrun, rfl⟩ := hfill.generic hg
      exact ⟨run, hrun, rfl, List.find?_cons_of_pos (by simp [Atom.isGeneric, Atom.name])⟩
    · rw [List.getElem?_cons_succ] at hp
      have hmem : p.name ∈ genericNames ps :=
        List.mem_map_of_mem (List.mem_filter.2 ⟨List.mem_of_getElem? hp, hg⟩)
      -- The look-up passes the head over: it has another name, or it is an atom of the candidate.
      by_cases hq : q.isGeneric = true
      · rw [genericNames, List.filter_cons_of_pos hq, List.map_cons, List.nodup_cons] at hnodup
        obtain ⟨run, -, rfl⟩ := hfill.generic hq
        have hne : (Atom.bound q.name q.adjoint run).name ≠ p.name :=
          fun heq => hnodup.1 (show q.name ∈ genericNames ps from heq ▸ hmem)
        rw [List.find?_cons_of_neg (by simp [hne])]
        exact ih hnodup.2 hp
      · rw [genericNames, List.filter_cons_of_neg hq] at hnodup
        rw [List.find?_cons_of_neg (by simp [hc d (hfill.concrete hq).1])]
        exact ih hnodup hp

/-- The runs are what the generics of the pattern captured from the candidate, each under its
name. -/
structure Captures (pattern candidate bound : List Atom) (runs : String → List Atom) : Prop where
  bound_at : ∀ (k : Nat) (p : Atom), pattern[k]? = some p → p.isGeneric = true →
    bound[k]? = some (.bound p.name p.adjoint (runs p.name))
  from_candidate : ∀ name ∈ genericNames pattern, runs name <:+: candidate

/-- What an atom of a target turns into: a concrete atom stays as it is, and a generic turns into
the run of its name, under the adjoint that the generic has. -/
def substitute (runs : String → List Atom) (t : Atom) : List Atom :=
  if t.isGeneric then (runs t.name).map fun c => .concrete c.name t.adjoint c.markers else [t]

theorem exists_run_at (hc : candidate.hasGenerics = false)
    (h : rule.match? candidate = .ok (some m)) {k : Nat} {p : Atom}
    (hp : rule.pattern.atoms[k]? = some p) (hg : p.isGeneric = true) :
    ∃ run, run <:+: candidate.atoms ∧
      m.boundPattern.atoms[k]? = some (.bound p.name p.adjoint run) ∧
      m.run? p.name = some run := by
  obtain ⟨positions, -, hlaid⟩ := exists_laid h
  have hfills := hlaid.fills (List.suffix_refl _)
  have hconcrete : ∀ c ∈ candidate.atoms, c.isGeneric = false := by
    simpa [WordType.hasGenerics] using hc
  obtain ⟨run, hrun, hat, hfind⟩ := find?_of_fills hconcrete hfills rule.form.nodup hp hg
  exact ⟨run, hrun, hat, by rw [PatternMatch.run?, hfind]; rfl⟩

theorem exists_captures (hc : candidate.hasGenerics = false)
    (h : rule.match? candidate = .ok (some m)) :
    ∃ runs, Captures rule.pattern.atoms candidate.atoms m.boundPattern.atoms runs ∧
      ∀ name ∈ genericNames rule.pattern.atoms, m.run? name = some (runs name) := by
  have hnamed : ∀ name ∈ genericNames rule.pattern.atoms, ∃ run, run <:+: candidate.atoms ∧
      m.run? name = some run := by
    intro name hname
    obtain ⟨p, hp, rfl⟩ := List.mem_map.1 hname
    obtain ⟨hmem, hg⟩ := List.mem_filter.1 hp
    obtain ⟨k, hk⟩ := List.mem_iff_getElem?.1 hmem
    obtain ⟨run, hrun, -, hknown⟩ := exists_run_at hc h hk hg
    exact ⟨run, hrun, hknown⟩
  refine ⟨fun name => (m.run? name).getD [], ⟨fun k p hp hg => ?_, fun name hname => ?_⟩,
    fun name hname => ?_⟩
  · obtain ⟨run, -, hat, hknown⟩ := exists_run_at hc h hp hg
    rw [hat, hknown]
    rfl
  · obtain ⟨run, hrun, hknown⟩ := hnamed name hname
    rw [hknown]
    exact hrun
  · obtain ⟨run, -, hknown⟩ := hnamed name hname
    simp [hknown]

theorem spread_bind {runs : String → List Atom} {t : Atom}
    (hrun : t.isGeneric = true → m.run? t.name = some (runs t.name))
    (hruns : t.isGeneric = true → ∀ c ∈ runs t.name, c.isGeneric = false) :
    WordType.spread (m.bind t) = substitute runs t := by
  by_cases hg : t.isGeneric = true
  · rw [PatternMatch.bind, if_pos hg, hrun hg, substitute, if_pos hg]
    exact List.map_congr_left fun c hmem =>
      Atom.withAdjoint_of_not_isGeneric (hruns hg c hmem) t.adjoint
  · rw [PatternMatch.bind, if_neg hg, substitute, if_neg hg]
    cases t with
    | concrete => rfl
    | generic => simp [Atom.isGeneric] at hg
    | bound => simp [Atom.isGeneric] at hg

theorem isGeneric_of_mem_substitute {runs : String → List Atom} {t a : Atom}
    (h : a ∈ substitute runs t) : a.isGeneric = false := by
  by_cases hg : t.isGeneric = true
  · rw [substitute, if_pos hg] at h
    obtain ⟨c, -, rfl⟩ := List.mem_map.1 h
    rfl
  · rw [substitute, if_neg hg, List.mem_singleton] at h
    subst h
    simpa using hg

theorem length_flatMap_substitute (runs : String → List Atom) : ∀ target : List Atom,
    (target.flatMap (substitute runs)).length = target.countP (fun t => !t.isGeneric) +
      ((target.filter Atom.isGeneric).map fun g => (runs g.name).length).sum
  | [] => rfl
  | t :: target => by
    have ih := length_flatMap_substitute runs target
    rw [List.flatMap_cons, List.length_append, ih]
    by_cases hg : t.isGeneric = true
    · rw [substitute, if_pos hg, List.length_map, List.filter_cons_of_pos hg, List.map_cons,
        List.sum_cons, List.countP_cons_of_neg (by simp [hg])]
      omega
    · rw [substitute, if_neg hg, List.length_singleton, List.filter_cons_of_neg hg,
        List.countP_cons_of_pos (by simp [hg])]
      omega

/-- The type that a rule derives from a concrete one is its target, with the captured run in place
of each generic, under the adjoint of that generic. -/
theorem apply_substitutes (hc : candidate.hasGenerics = false)
    (h : rule.apply candidate = .ok (some derived)) :
    ∃ m runs, rule.match? candidate = .ok (some m) ∧
      Captures rule.pattern.atoms candidate.atoms m.boundPattern.atoms runs ∧
      (∀ name ∈ genericNames rule.target.atoms, name ∈ genericNames rule.pattern.atoms) ∧
      derived.atoms = rule.target.atoms.flatMap (substitute runs) ∧
      derived.hasGenerics = false ∧
      derived.length = rule.target.atoms.countP (fun t => !t.isGeneric) +
        ((rule.target.atoms.filter Atom.isGeneric).map fun g => (runs g.name).length).sum := by
  obtain ⟨_ | m, hm, h⟩ := Fallible.map_eq_ok.1 h
  · simp at h
  obtain rfl := Option.some.inj h
  obtain ⟨runs, hcaptures, hknown⟩ := exists_captures hc hm
  have hname : ∀ t ∈ rule.target.atoms, t.isGeneric = true →
      t.name ∈ genericNames rule.pattern.atoms := fun t ht hg =>
    rule.form.bound _ (List.mem_map_of_mem (List.mem_filter.2 ⟨ht, hg⟩))
  have hatoms : (m.instantiate rule.target).atoms =
      rule.target.atoms.flatMap (substitute runs) := by
    rw [PatternMatch.instantiate, WordType.flatten, List.flatMap_map]
    refine List.flatMap_congr fun t ht => spread_bind (fun hg => hknown _ (hname t ht hg)) ?_
    intro hg c hmem
    have hin := (hcaptures.from_candidate _ (hname t ht hg)).mem hmem
    simpa [WordType.hasGenerics] using List.any_eq_false.1 hc c hin
  refine ⟨m, runs, hm, hcaptures, rule.form.bound, hatoms, ?_, ?_⟩
  · rw [WordType.hasGenerics, hatoms, List.any_eq_false]
    intro a ha
    obtain ⟨t, -, hmem⟩ := List.mem_flatMap.1 ha
    simp [isGeneric_of_mem_substitute hmem]
  · rw [WordType.length, hatoms, length_flatMap_substitute]

end Substitution

namespace Sample

/-- `a_1^1 b^1 s^0 a_1^-1 b^-1` -/
def derived : WordType :=
  ⟨[.concrete "a" 1 [⟨0, 1⟩], .plain "b" 1, .plain "s" 0, .concrete "a" (-1) [⟨0, 1⟩],
    .plain "b" (-1)]⟩

end Sample

theorem apply_substitutes_sample :
    Sample.candidate.hasGenerics = false ∧
      Sample.rule.apply Sample.candidate = .ok (some Sample.derived) ∧
      ∃ m runs, Sample.rule.match? Sample.candidate = .ok (some m) ∧
        Captures Sample.rule.pattern.atoms Sample.candidate.atoms m.boundPattern.atoms runs ∧
        Sample.derived.atoms = Sample.rule.target.atoms.flatMap (substitute runs) := by
  have happly : Sample.rule.apply Sample.candidate = .ok (some Sample.derived) := by
    rfl
  obtain ⟨m, runs, hm, hcaptures, -, hatoms, -⟩ := apply_substitutes (by decide) happly
  exact ⟨by decide, happly, m, runs, hm, hcaptures, hatoms⟩

end Metarule

end PregroupGrammar
