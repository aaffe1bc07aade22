import PregroupGrammar.Atom.Notation

/-!
# Pregroup types

The type of a word or a phrase is a sequence of atoms; a transitive verb, for instance, usually has
the type `n^1 s^0 n^-1`. The empty sequence is the unit type and is written `1`.
-/

namespace PregroupGrammar

/-- A pregroup type: a sequence of atoms, left to right. -/
structure WordType where
  atoms : List Atom
deriving DecidableEq, Repr

namespace WordType

/-- The type without atoms. -/
def unit : WordType := ⟨[]⟩

/-- The number of atoms. -/
def length (t : WordType) : Nat :=
  t.atoms.length

/-- One type after the other. -/
def tensor (t u : WordType) : WordType :=
  ⟨t.atoms ++ u.atoms⟩

/-- Whether two lists are equally long, found out by going through the shorter one. -/
def equallyLong : List Atom → List Atom → Bool
  | [], [] => true
  | _ :: as, _ :: bs => equallyLong as bs
  | _, _ => false

theorem equallyLong_eq : ∀ as bs : List Atom, equallyLong as bs = (as.length == bs.length)
  | [], [] => rfl
  | [], _ :: _ => rfl
  | _ :: _, [] => rfl
  | _ :: as, _ :: bs => by simp [equallyLong, equallyLong_eq as bs]

/-- Loose equality: as many atoms, and atom by atom they agree. -/
def agrees (t u : WordType) : Bool :=
  equallyLong t.atoms u.atoms && (t.atoms.zip u.atoms).all fun (a, b) => a.agrees b

/-- Whether some atom is generic. -/
def hasGenerics (t : WordType) : Bool :=
  t.atoms.any Atom.isGeneric

/-- The atoms that an atom contributes when wildcards are resolved: a concrete atom itself, a bound
one the atoms of its run under its own adjoint, an unbound one nothing. -/
def spread : Atom → List Atom
  | .concrete name adjoint markers => [.concrete name adjoint markers]
  | .generic .. => []
  | .bound _ adjoint run => run.map (Atom.withAdjoint adjoint)

/-- The type with its bound wildcards replaced by their runs, and the unbound ones left out. -/
def flatten (t : WordType) : WordType :=
  ⟨t.atoms.flatMap spread⟩

/-- The type that a text spells: atoms with blanks between them. -/
def ofText (text : String) : Except MalformedAtom WordType :=
  (Text.words text.toList).mapM (fun cs => Atom.ofText (String.ofList cs)) |>.map WordType.mk

/-- The text of a type. -/
def text (t : WordType) : String :=
  if t.atoms.isEmpty then "1" else Text.joinWith " " (t.atoms.map Atom.text)

end WordType

end PregroupGrammar
