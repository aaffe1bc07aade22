import PregroupGrammar.Derivation.InRange

/-!
# Derivations

A derivation is what becomes of a path that has been read to its end. The path is grammatical if
exactly one of its atoms is linked to none other and that atom may stand alone.

No position that a derivation looks up is out of range (`Grammar.meets_attempt`), so it comes to a
result or to an error.
-/

namespace PregroupGrammar

/-- The links between the atoms of a path, the positions without a link in increasing order, and the
verdict. The residual is the one atom without a link, if there is just one. -/
structure Derivation where
  links : List Link
  unlinked : List Nat
  atomCount : Nat
  grammatical : Bool
  residual : Option Atom
deriving DecidableEq, Repr

namespace ParseContext

/-- Those of the positions that have not been linked. -/
def unusedOf (c : ParseContext) : List Nat → Except Halt (List Nat)
  | [] => .ok []
  | p :: ps => do
    let used ← c.isUsed p
    let rest ← c.unusedOf ps
    return if used then rest else p :: rest

/-- The atom at the position that is the only one without a link. -/
def residualOf (c : ParseContext) : List Nat → Except Halt (Option Atom)
  | [only] => do return some (← c.atomAt only)
  | _ => .ok none

section InRange

variable {path : Path} {position : Nat} {c : ParseContext}

theorem InRange.unusedOf (hc : InRange path position c) : ∀ ps : List Nat,
    (∀ p ∈ ps, p < path.atoms.length) →
      ∃ left, c.unusedOf ps = .ok left ∧ ∀ p ∈ left, p < path.atoms.length
  | [], _ => ⟨[], rfl, fun _ hp => absurd hp List.not_mem_nil⟩
  | p :: ps, h => by
    obtain ⟨hp, hps⟩ := List.forall_mem_cons.1 h
    obtain ⟨used, hused⟩ := hc.isUsed hp
    obtain ⟨left, hleft, hlt⟩ := hc.unusedOf ps hps
    rw [ParseContext.unusedOf, hused, hleft]
    cases used
    · exact ⟨p :: left, rfl, List.forall_mem_cons.2 ⟨hp, hlt⟩⟩
    · exact ⟨left, rfl, hlt⟩

theorem InRange.residualOf (hc : InRange path position c) : ∀ left : List Nat,
    (∀ p ∈ left, p < path.atoms.length) → ∃ residual, c.residualOf left = .ok residual
  | [], _ => ⟨none, rfl⟩
  | [only], h => by
    rw [ParseContext.residualOf, hc.atomAt (h only List.mem_cons_self)]
    exact ⟨_, rfl⟩
  | _ :: _ :: _, _ => ⟨none, rfl⟩

end InRange

end ParseContext

namespace Grammar

/-- Whether there is a residual and it may stand alone. -/
def acceptsResidual (g : Grammar) : Option Atom → Except Error Bool
  | none => .ok false
  | some a => g.isStandalone a

/-- The derivation of a path, unless a position is out of range. -/
def attempt (g : Grammar) (path : Path) : Except Halt Derivation := do
  let c ← ParseContext.run g path
  let unlinked ← c.unusedOf (List.range c.atoms.size)
  let residual ← c.residualOf unlinked
  let grammatical ← (g.acceptsResidual residual).mapError .failed
  return { links := c.links.toList, unlinked, atomCount := c.atoms.size, grammatical, residual }

theorem meets_attempt (g : Grammar) (path : Path) : Meets (g.attempt path) fun _ => True := by
  refine (ParseContext.meets_run g path).bind fun c hc => ?_
  have hsize : c.atoms.size = path.atoms.length := by rw [hc.atoms, List.size_toArray]
  obtain ⟨unlinked, hunlinked, hlt⟩ := hc.unusedOf (List.range c.atoms.size)
    fun p hp => hsize ▸ List.mem_range.1 hp
  obtain ⟨residual, hresidual⟩ := hc.residualOf unlinked hlt
  rw [hunlinked]
  show Meets (c.residualOf unlinked >>= _) _
  rw [hresidual]
  exact (meets_mapError _).bind fun grammatical _ => trivial

/-- The derivation of a path. -/
def derive (g : Grammar) (path : Path) : Except Error Derivation :=
  settle (g.attempt path) (g.meets_attempt path)

end Grammar

end PregroupGrammar
