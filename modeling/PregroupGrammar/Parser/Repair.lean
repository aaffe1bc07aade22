import PregroupGrammar.Parser.Outcome

/-!
# Repairs

A path that is not grammatical may hold too many atoms of one type. A repair replaces two of them by
dummy atoms, which cancel only with each other, and tries again. The types are tried in the order of
the inventory, and the pairs of positions in lexicographic order.
-/

namespace PregroupGrammar

/-- All pairs of an item and a later one, in lexicographic order. -/
def orderedPairs {α : Type} : List α → List (α × α)
  | [] => []
  | a :: as => as.map (a, ·) ++ orderedPairs as

/-- A repaired path with its derivation. -/
structure RepairedPath where
  path : Path
  derivation : Derivation
  repair : Repair
deriving DecidableEq, Repr

namespace Grammar

/-- The path, whose first atom is at position `offset`, with a dummy atom of the same adjoint at
each of two positions. -/
def substituteFrom (g : Grammar) (first second : Nat) : Nat → Path → Path
  | _, [] => []
  | offset, type :: path =>
    ⟨(type.atoms.zipIdx offset).map fun (a, position) =>
      if position = first ∨ position = second then g.dummyAtom a.adjoint else a⟩ ::
      substituteFrom g first second (offset + type.length) path

/-- The path with a dummy atom of the same adjoint at each of two positions. -/
def substitute (g : Grammar) (path : Path) (first second : Nat) : Path :=
  g.substituteFrom first second 0 path

/-- How many of the atoms have a type that reduces to the given one. -/
def countReducing (g : Grammar) (atoms : List Atom) (name : String) : Except Error Nat :=
  atoms.foldlM
    (fun count a => (g.table.namesReduce a.name name).map fun r => if r then count + 1 else count) 0

/-- The declared types that at least `threshold` atoms of the path reduce to, in the order of the
inventory. -/
def offendingTypes (g : Grammar) (threshold : Nat) (path : Path) : Except Error (List String) :=
  g.table.inventory.filterM fun name =>
    (g.countReducing path.atoms name).map fun count => decide (threshold ≤ count)

/-- Whether an atom counts as being of the given type. -/
def countsAs (g : Grammar) (a : Atom) (name : String) : Except Error Bool :=
  if a.name = name then .ok true else g.table.namesReduce a.name name

/-- The positions of the path at which the atom counts as being of the given type. -/
def occurrences (g : Grammar) (path : Path) (name : String) : Except Error (List Nat) :=
  path.atoms.zipIdx.filterMapM fun (a, position) =>
    (g.countsAs a name).map fun counts => if counts then some position else none

/-- The path with dummy atoms at two positions, if that makes it grammatical. -/
def repairAt (g : Grammar) (path : Path) (name : String) (first second : Nat) :
    Except Error (Option RepairedPath) := do
  let variant := g.substitute path first second
  let derivation ← g.derive variant
  return if derivation.grammatical then some ⟨variant, derivation, ⟨name, first, second⟩⟩ else none

/-- The first repair of the path that replaces two atoms of the given type and makes it
grammatical. -/
def repair (g : Grammar) (path : Path) (name : String) : Except Error (Option RepairedPath) := do
  let positions ← g.occurrences path name
  (orderedPairs positions).findSomeM? fun (first, second) => g.repairAt path name first second

/-- The acceptance of a path by the first repair that works, over all offending types. -/
def acceptRepaired (g : Grammar) (threshold : Nat) (pathIndex : Nat) (path : Path) :
    Except Error (Option Acceptance) := do
  let names ← g.offendingTypes threshold path
  names.findSomeM? fun name => do
    let repaired ← g.repair path name
    return repaired.bind fun r => r.derivation.accept? pathIndex r.path (some r.repair)

end Grammar

end PregroupGrammar
