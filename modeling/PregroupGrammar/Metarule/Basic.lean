import PregroupGrammar.WordType

/-!
# Metarules

A metarule turns a type of the form of its pattern into one of the form of its target, and so gives
a word further types. The pattern may hold generic atoms, each standing for a run of atoms; the
target may use the runs that the pattern captures.

A rule is well formed when its pattern is not empty, no two of its generics are neighbours, none
occurs twice in the pattern, and the target uses none that the pattern lacks. A `Metarule` carries
the proof that it is.
-/

namespace PregroupGrammar

/-- What is wrong with the layout of a metarule. -/
inductive MetaruleFault where
  | emptyPattern
  | adjacentGenerics (left right : Atom)
  | repeatedGeneric (name : String)
  | unboundGeneric (name : String)
deriving DecidableEq, Repr

/-- The fault in words. -/
def MetaruleFault.message : MetaruleFault → String
  | emptyPattern => "empty pattern"
  | adjacentGenerics left right =>
    "adjacent generics " ++ left.text ++ " and " ++ right.text ++ " in pattern"
  | repeatedGeneric name => "generic " ++ name ++ " appears twice in pattern"
  | unboundGeneric name => "target generic " ++ name ++ " does not occur in pattern"

/-- A metarule that is not well formed. -/
structure InvalidMetarule where
  tag : Int64
  fault : MetaruleFault
deriving DecidableEq, Repr

/-- The error in words. -/
def InvalidMetarule.message (e : InvalidMetarule) : String :=
  "Invalid metarule " ++ Numeral.intText e.tag.toInt ++ ": " ++ e.fault.message

namespace Metarule

/-- The first two neighbours that are both generic. -/
def adjacentGenerics? : List Atom → Option (Atom × Atom)
  | a :: b :: rest =>
    if a.isGeneric && b.isGeneric then some (a, b) else adjacentGenerics? (b :: rest)
  | _ => none

/-- The names of the generic atoms, in order. -/
def genericNames (atoms : List Atom) : List String :=
  (atoms.filter Atom.isGeneric).map Atom.name

/-- The first name that occurred before. -/
def repeated? (before : List String) : List String → Option String
  | [] => none
  | name :: names => if name ∈ before then some name else repeated? (name :: before) names

/-- What is wrong with a pattern and a target, if anything is. -/
def fault? (pattern target : WordType) : Option MetaruleFault :=
  if pattern.atoms.isEmpty then some .emptyPattern
  else
    match adjacentGenerics? pattern.atoms with
    | some (left, right) => some (.adjacentGenerics left right)
    | none =>
      let bound := genericNames pattern.atoms
      match repeated? [] bound with
      | some name => some (.repeatedGeneric name)
      | none => ((genericNames target.atoms).find? (· ∉ bound)).map .unboundGeneric

end Metarule

/-- A well-formed metarule. -/
structure Metarule where
  tag : Int64
  pattern : WordType
  target : WordType
  wellFormed : Metarule.fault? pattern target = none
deriving DecidableEq

namespace Metarule

/-- The metarule with these parts, if they make a well-formed one. -/
def make (tag : Int64) (pattern target : WordType) : Except InvalidMetarule Metarule :=
  match h : fault? pattern target with
  | none => .ok ⟨tag, pattern, target, h⟩
  | some fault => .error ⟨tag, fault⟩

/-- The text of a metarule. -/
def text (rule : Metarule) : String :=
  Numeral.intText rule.tag.toInt ++ ": " ++ rule.pattern.text ++ " --> " ++ rule.target.text

end Metarule

end PregroupGrammar
