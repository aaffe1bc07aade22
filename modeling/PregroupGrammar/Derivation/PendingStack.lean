/-!
# Pending stack

The stack of what still waits for a partner to cancel with. It knows its own height.
-/

namespace PregroupGrammar

/-- A stack, kept with its top first, and its height. -/
structure PendingStack (α : Type) where
  items : List α
  size : Nat
  size_eq : size = items.length
deriving DecidableEq, Repr

namespace PendingStack

variable {α : Type}

/-- The stack with nothing in it. -/
def empty : PendingStack α := ⟨[], 0, rfl⟩

/-- What is on top. -/
def top? (stack : PendingStack α) : Option α :=
  stack.items.head?

/-- The stack with one more item on top. -/
def push (stack : PendingStack α) (item : α) : PendingStack α where
  items := item :: stack.items
  size := stack.size + 1
  size_eq := by rw [stack.size_eq, List.length_cons]

/-- The stack without its top. -/
def pop (stack : PendingStack α) : PendingStack α where
  items := stack.items.tail
  size := stack.size - 1
  size_eq := by rw [stack.size_eq, List.length_tail]

/-- Whether there is no item. -/
def isEmpty (stack : PendingStack α) : Bool :=
  stack.items.isEmpty

/-- The items from bottom to top. -/
def toList (stack : PendingStack α) : List α :=
  stack.items.reverse

end PendingStack

end PregroupGrammar
