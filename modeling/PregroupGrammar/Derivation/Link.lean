import PregroupGrammar.Derivation.PendingStack
import PregroupGrammar.Text.Numeral
import Std.Data.HashSet

/-!
# Links and their nesting

A link joins two positions of a sequence of atoms that have cancelled. The nesting depth of a set of
links is read off by going through the positions from left to right with a stack: a position that
closes the link opened on top of the stack takes it off, and any other linked position goes on top.
The depth is the greatest height of the stack.

An index answers which positions a list of links joins and touches as the list itself does
(`LinkIndex.joins_ofLinks`, `LinkIndex.touches_ofLinks`), without going through it.
-/

namespace PregroupGrammar

/-- Two positions that have cancelled. -/
structure Link where
  left : Nat
  right : Nat
deriving DecidableEq, Hashable, Repr

namespace Link

/-- Whether a position is an end of the link. -/
def touches (link : Link) (position : Nat) : Bool :=
  link.left == position || link.right == position

/-- The text of a link. -/
def text (link : Link) : String :=
  "(" ++ Numeral.natText link.left ++ "," ++ Numeral.natText link.right ++ ")"

end Link

/-- Links and their ends, ready to be looked up. -/
structure LinkIndex where
  links : Std.HashSet Link
  ends : Std.HashSet Nat

namespace LinkIndex

/-- The index of a list of links. -/
def ofLinks (links : List Link) : LinkIndex where
  links := .ofList links
  ends := .ofList (links.flatMap fun link => [link.left, link.right])

/-- Whether one of the links leads from the one position to the other. -/
def joins (index : LinkIndex) (left right : Nat) : Bool :=
  index.links.contains ⟨left, right⟩

/-- Whether the position is an end of one of the links. -/
def touches (index : LinkIndex) (position : Nat) : Bool :=
  index.ends.contains position

theorem joins_ofLinks (links : List Link) (left right : Nat) :
    (ofLinks links).joins left right = links.contains ⟨left, right⟩ :=
  Std.HashSet.contains_ofList

theorem touches_ofLinks (links : List Link) (position : Nat) :
    (ofLinks links).touches position = links.any (·.touches position) := by
  unfold touches ofLinks
  rw [Std.HashSet.contains_ofList]
  induction links with
  | nil => rfl
  | cons link links ih =>
    simp only [List.flatMap_cons, List.cons_append, List.nil_append, List.contains_cons, ih,
      List.any_cons, Link.touches, Bool.or_assoc, BEq.comm]

end LinkIndex

namespace Nesting

/-- The stack of open positions after one more position. -/
def step (index : LinkIndex) (opened : PendingStack Nat) (position : Nat) : PendingStack Nat :=
  if opened.top?.any (index.joins · position) then opened.pop
  else if index.touches position then opened.push position
  else opened

/-- The stack and its greatest height so far, after one more position. -/
def stepHeight (index : LinkIndex) (state : PendingStack Nat × Nat) (position : Nat) :
    PendingStack Nat × Nat :=
  let opened := step index state.1 position
  (opened, max state.2 opened.size)

end Nesting

/-- The nesting depth of the links between the first `count` positions. -/
def nestingDepth (links : List Link) (count : Nat) : Nat :=
  ((List.range count).foldl (Nesting.stepHeight (.ofLinks links)) (.empty, 0)).2

end PregroupGrammar
