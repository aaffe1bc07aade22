import PregroupGrammar.Atom.Basic
import PregroupGrammar.Text.Blank
import PregroupGrammar.Text.Lines
import PregroupGrammar.Text.Numeral

/-!
# Atom notation

An atom is written as its name, its marker values with an underscore before each, and its adjoint
exponent after a caret, as in `n_1_2^-1`. The category of a marker is its position. A name with a
star in it is a generic atom, which carries no markers. A bound atom is written with the atoms of
its run between braces; that form is not read back.
-/

namespace PregroupGrammar

/-- What is wrong with a text that should be an atom. -/
inductive AtomFault where
  | noAdjoint
  | manyAdjoints
  | badAdjoint
  | noName
  | badMarker
  | manyMarkers
  | markedGeneric
deriving DecidableEq, Repr

/-- The fault in words. -/
def AtomFault.message : AtomFault → String
  | noAdjoint => "missing '^adjoint'"
  | manyAdjoints => "more than one '^'"
  | badAdjoint => "adjoint is not an integer"
  | noName => "empty type name"
  | badMarker => "marker is not a non-negative integer"
  | manyMarkers => "too many markers"
  | markedGeneric => "generic atoms cannot carry markers"

/-- A text that is not an atom, and why not. -/
structure MalformedAtom where
  input : String
  fault : AtomFault
deriving DecidableEq, Repr

/-- The error in words. -/
def MalformedAtom.message (e : MalformedAtom) : String :=
  "Malformed atom '" ++ e.input ++ "': " ++ e.fault.message

/-- The number of marker categories. -/
def maxMarkers : Nat := 65536

/-- The marker at a position of the notation. -/
def Marker.ofField (field : List Char) (category : Nat) : Except AtomFault Marker :=
  match Numeral.uint32? field with
  | none => .error .badMarker
  | some value =>
    if category < maxMarkers then .ok ⟨UInt16.ofNat category, value⟩ else .error .manyMarkers

namespace Atom

/-- The atom with a name, an adjoint exponent and marker fields. -/
def ofFields (name : List Char) (adjoint : Int32) (fields : List (List Char)) :
    Except AtomFault Atom := do
  if name.isEmpty then throw .noName
  let markers ← fields.zipIdx.mapM fun (field, category) => Marker.ofField field category
  if '*' ∈ name then
    if markers.isEmpty then return generic (String.ofList name) adjoint
    else throw .markedGeneric
  else return concrete (String.ofList name) adjoint markers

/-- The atom that a text without blanks at its ends spells. -/
def ofTrimmed (cs : List Char) : Except AtomFault Atom :=
  match cs.splitOn '^' with
  | [head, exponent] =>
    match Numeral.int32? (Text.trim exponent) with
    | none => .error .badAdjoint
    | some adjoint =>
      match head.splitOn '_' with
      | [] => .error .noName
      | name :: fields => ofFields name adjoint fields
  | [] | [_] => .error .noAdjoint
  | _ => .error .manyAdjoints

/-- The atom that a text spells, blanks around it not counting. -/
def ofText (text : String) : Except MalformedAtom Atom :=
  (ofTrimmed (Text.trim text.toList)).mapError fun fault => ⟨text, fault⟩

/-- The name, markers and adjoint of an atom as they are written. -/
def stem (name : String) (markers : List Marker) (adjoint : Int32) : String :=
  name ++ String.join (markers.map fun m => "_" ++ Numeral.natText m.value.toNat) ++ "^" ++
    Numeral.intText adjoint.toInt

mutual

/-- The text of an atom. -/
def text : Atom → String
  | concrete name adjoint markers => stem name markers adjoint
  | generic name adjoint => stem name [] adjoint
  | bound name adjoint run =>
    stem name [] adjoint ++ "\x7b" ++ Text.joinWith " " (textsOf run) ++ "\x7d"

/-- The texts of a run of atoms. -/
def textsOf : List Atom → List String
  | [] => []
  | a :: as => a.text :: textsOf as

end

end Atom

end PregroupGrammar
