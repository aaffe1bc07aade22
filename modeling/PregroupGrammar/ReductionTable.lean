import PregroupGrammar.Error
import PregroupGrammar.KeyedList

/-!
# Reduction table

Which atom types may stand in for which. A type always reduces to itself, and each declared rule
`(a, b)` lets `a` reduce to `b`. The declared types are numbered in the order of the inventory; the
dummy type, which is not declared, has the number after the last.

The answers are kept in a square matrix, row by row, with a row and a column for each number.
-/

namespace PregroupGrammar

/-- A compiled reduction table. Its size is the number of declared atom types. -/
structure ReductionTable where
  inventory : List String
  size : Nat
  size_eq : size = inventory.length
  dummy : String
  index : KeyedList Nat
  matrix : Array Bool
deriving DecidableEq, Repr

namespace ReductionTable

/-- The table with these parts. -/
def ofParts (inventory : List String) (dummy : String) (index : List (String × Nat))
    (matrix : Array Bool) : ReductionTable where
  inventory := inventory
  size := inventory.length
  size_eq := rfl
  dummy := dummy
  index := .ofPairs index
  matrix := matrix

/-- The number of rows and of columns. -/
def width (table : ReductionTable) : Nat :=
  table.size + 1

/-- Whether the name is that of a declared type or of the dummy. -/
def contains (table : ReductionTable) (name : String) : Bool :=
  (table.index.find? name).isSome

/-- Whether the atom is of the dummy type. -/
def isDummy (table : ReductionTable) (a : Atom) : Bool :=
  a.name == table.dummy

/-- The number of a type name. -/
def indexOf (table : ReductionTable) (name : String) : Except Error Nat :=
  match table.index.find? name with
  | some i => .ok i
  | none => .error (.unknownAtomType name)

/-- The entry of the matrix in a row and a column. -/
def entry (table : ReductionTable) (row column : Nat) : Bool :=
  table.matrix[row * table.width + column]?.getD false

/-- Whether the one type name reduces to the other. -/
def namesReduce (table : ReductionTable) (source target : String) : Except Error Bool := do
  let row ← table.indexOf source
  let column ← table.indexOf target
  return table.entry row column

/-- Whether the type of the one atom reduces to the type of the other. -/
def atomsReduce (table : ReductionTable) (source target : Atom) : Except Error Bool :=
  table.namesReduce source.name target.name

/-- Numbers the declared types in order. A type may be declared once, and not under the name of the
dummy. -/
def number (dummy : String) (inventory : List String) : Except Error (List (String × Nat)) :=
  inventory.zipIdx.foldlM
    (fun index (name, i) =>
      if name = dummy then .error (.dummyCollision name)
      else if (index.lookup name).isSome then .error (.duplicateAtomType name)
      else .ok (index ++ [(name, i)]))
    []

/-- The table with one more rule. -/
def addRule (table : ReductionTable) (rule : String × String) : Except Error ReductionTable := do
  let row ← table.indexOf rule.1
  let column ← table.indexOf rule.2
  return { table with matrix := table.matrix.setIfInBounds (row * table.width + column) true }

/-- The square matrix that is true on its diagonal only. -/
def diagonal (width : Nat) : Array Bool :=
  Array.ofFn fun k : Fin (width * width) => k.val / width == k.val % width

/-- Compiles a table. -/
def make (inventory : List String) (dummy : String) (rules : List (String × String)) :
    Except Error ReductionTable := do
  let index ← number dummy inventory
  rules.foldlM addRule
    (ofParts inventory dummy (index ++ [(dummy, inventory.length)])
      (diagonal (inventory.length + 1)))

/-- The rules between two different declared types, row by row. -/
def rules (table : ReductionTable) : List (String × String) :=
  table.inventory.zipIdx.flatMap fun (source, row) =>
    table.inventory.zipIdx.filterMap fun (target, column) =>
      if row ≠ column ∧ table.entry row column then some (source, target) else none

/-- The matrix of the declared types as a grid of `T` and `F`. -/
def grid (table : ReductionTable) : String :=
  "  " ++ Text.joinWith " " table.inventory ++ "\n" ++
    String.join (table.inventory.zipIdx.map fun (name, row) =>
      name ++
        String.join ((List.range table.size).map fun column =>
          if table.entry row column then " T" else " F") ++ "\n")

end ReductionTable

end PregroupGrammar
