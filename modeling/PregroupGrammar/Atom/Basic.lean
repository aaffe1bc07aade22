/-!
# Atoms

An atom is the smallest part of a pregroup type: a type name with an adjoint exponent. A concrete
atom may carry markers, which state grammatical features such as number or person. A generic atom
is a wildcard of a metarule: it stands for nothing yet, or it is bound to a run of atoms.

Two comparisons matter. Equality is strict. `Atom.agrees` is the loose comparison of matching: same
name, same adjoint, and markers that do not contradict each other.
-/

namespace PregroupGrammar

/-- A grammatical feature: a value within a category. -/
structure Marker where
  category : UInt16
  value : UInt32
deriving DecidableEq, Repr

/-- An atom: concrete, generic, or generic and bound to a run of atoms. -/
inductive Atom where
  | concrete (name : String) (adjoint : Int32) (markers : List Marker)
  | generic (name : String) (adjoint : Int32)
  | bound (name : String) (adjoint : Int32) (run : List Atom)
deriving Repr

namespace Atom

instance : Inhabited Atom := ⟨generic "" 0⟩

mutual

/-- Equality of atoms is decidable. -/
def decEq : (a b : Atom) → Decidable (a = b)
  | concrete n e ms, concrete n' e' ms' =>
    decidable_of_iff (n = n' ∧ e = e' ∧ ms = ms') (by simp)
  | generic n e, generic n' e' => decidable_of_iff (n = n' ∧ e = e') (by simp)
  | bound n e run, bound n' e' run' =>
    match decEqRun run run' with
    | isTrue h => decidable_of_iff (n = n' ∧ e = e') (by simp [h])
    | isFalse h => isFalse (by simp [h])
  | concrete .., generic .. | concrete .., bound .. | generic .., concrete .. |
    generic .., bound .. | bound .., concrete .. | bound .., generic .. => isFalse (by simp)

/-- Equality of runs of atoms is decidable. -/
def decEqRun : (as bs : List Atom) → Decidable (as = bs)
  | [], [] => isTrue rfl
  | a :: as, b :: bs =>
    match decEq a b, decEqRun as bs with
    | isTrue h, isTrue t => isTrue (by simp [h, t])
    | isFalse h, _ => isFalse (by simp [h])
    | _, isFalse t => isFalse (by simp [t])
  | [], _ :: _ | _ :: _, [] => isFalse (by simp)

end

instance : DecidableEq Atom := decEq

/-- A concrete atom without markers. -/
def plain (name : String) (adjoint : Int32) : Atom :=
  concrete name adjoint []

/-- The type name. -/
def name : Atom → String
  | concrete n _ _ | generic n _ | bound n _ _ => n

/-- The adjoint exponent: 0 for a basic type, one more for each right adjoint, one less for each
left adjoint. -/
def adjoint : Atom → Int32
  | concrete _ e _ | generic _ e | bound _ e _ => e

/-- The markers of a concrete atom; a generic atom has none. -/
def markers : Atom → List Marker
  | concrete _ _ ms => ms
  | generic .. | bound .. => []

/-- Whether the atom is a wildcard, bound or not. -/
def isGeneric : Atom → Bool
  | concrete .. => false
  | generic .. | bound .. => true

/-- The run that a generic atom is bound to. -/
def run? : Atom → Option (List Atom)
  | bound _ _ run => some run
  | concrete .. | generic .. => none

/-- The same atom with another adjoint exponent. -/
def withAdjoint (e : Int32) : Atom → Atom
  | concrete n _ ms => concrete n e ms
  | generic n _ => generic n e
  | bound n _ run => bound n e run

/-- The right adjoint, unless the exponent is the largest there is. -/
def rightAdjoint? (a : Atom) : Option Atom :=
  if a.adjoint = Int32.maxValue then none else some (a.withAdjoint (a.adjoint + 1))

/-- The left adjoint, unless the exponent is the smallest there is. -/
def leftAdjoint? (a : Atom) : Option Atom :=
  if a.adjoint = Int32.minValue then none else some (a.withAdjoint (a.adjoint - 1))

/-- Whether two atoms have the same type name. -/
def sameType (a b : Atom) : Bool :=
  a.name == b.name

/-- Whether the markers agree: one atom has none, or they are equal position by position as far as
both go. -/
def markersAgree (a b : Atom) : Bool :=
  a.markers.isEmpty || b.markers.isEmpty || (a.markers.zip b.markers).all fun (m, n) => m == n

/-- Loose equality: same name, same adjoint, agreeing markers. -/
def agrees (a b : Atom) : Bool :=
  a.name == b.name && a.adjoint == b.adjoint && a.markersAgree b

/-- Whether the right adjoint of the one exponent is the other exponent. -/
def isFollowedBy (a b : Atom) : Bool :=
  a.adjoint.toInt + 1 == b.adjoint.toInt

end Atom

end PregroupGrammar
