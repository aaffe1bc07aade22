import PregroupGrammar.Derivation.Link
import PregroupGrammar.Derivation.PendingStack
import PregroupGrammar.Grammar.Basic

/-!
# Reading a path in stages

A path is read word by word. Each stage takes in the type of one more word and then processes the
atoms that this type adds: from the position at which the stage before ended, as many as the type
has. Positions are counted over the atoms of the whole path, which are laid out one after the other.

An atom that cancels with the one at the position on top of the pending stack takes that position
off, and the two are linked and flagged as used; the position of any other atom goes on top. Atoms
and flags are looked up by position. A position that is out of range is the end of it.
-/

namespace PregroupGrammar

/-- One type for each word of a sentence. -/
abbrev Path := List WordType

/-- The atoms of a path, word after word. -/
def Path.atoms (path : Path) : List Atom :=
  path.flatMap WordType.atoms

/-- How far a path has been read: the number of words taken in, the first position that has not been
processed, and the types taken in. -/
structure Stage where
  wordIndex : Nat
  position : Nat
  typesSoFar : Path
deriving DecidableEq

namespace Stage

/-- Nothing taken in yet. -/
def initial : Stage := ⟨0, 0, []⟩

/-- Takes in the type of the next word. -/
def download (s : Stage) (path : Path) : Stage :=
  { s with wordIndex := s.wordIndex + 1, typesSoFar := path.take (s.wordIndex + 1) }

/-- The number of atoms that the latest type adds. -/
def latest (s : Stage) : Nat :=
  s.typesSoFar.getLast?.elim 0 WordType.length

/-- The positions of the atoms that the latest type adds. -/
def fresh (s : Stage) : List Nat :=
  List.range' s.position s.latest

/-- The atoms of the latest type have been processed. -/
def behind (s : Stage) : Stage :=
  { s with position := s.position + s.latest }

theorem fewer_words_left {s : Stage} {path : Path} (h : s.wordIndex < path.length) :
    path.length - (s.download path).behind.wordIndex < path.length - s.wordIndex := by
  simp only [behind, download]
  omega

end Stage

/-- Why the reading of a path breaks off. -/
inductive Halt where
  | failed (e : Error)
  | outOfRange (position : Nat)
deriving DecidableEq

/-- What has become of a path so far: its atoms, the positions that wait for a partner, the links,
and for each position whether it has been linked. -/
structure ParseContext where
  atoms : Array Atom
  pending : PendingStack Nat
  links : Array Link
  used : Array Bool

namespace ParseContext

/-- The context of a path before its first atom. -/
def start (path : Path) : ParseContext where
  atoms := path.atoms.toArray
  pending := .empty
  links := #[]
  used := Array.replicate path.atoms.length false

/-- The atom at a position. -/
def atomAt (c : ParseContext) (position : Nat) : Except Halt Atom :=
  match c.atoms[position]? with
  | some a => .ok a
  | none => .error (.outOfRange position)

/-- Whether the position has been linked. -/
def isUsed (c : ParseContext) (position : Nat) : Except Halt Bool :=
  match c.used[position]? with
  | some used => .ok used
  | none => .error (.outOfRange position)

/-- Flags a position as linked. -/
def use (c : ParseContext) (position : Nat) : Except Halt ParseContext :=
  if h : position < c.used.size then .ok { c with used := c.used.set position true }
  else .error (.outOfRange position)

/-- The position waits for a partner. -/
def shift (c : ParseContext) (current : Nat) : ParseContext :=
  { c with pending := c.pending.push current }

/-- The top of the pending stack is linked with the current position. -/
def cancel (c : ParseContext) (top current : Nat) : Except Halt ParseContext := do
  let c := { c with pending := c.pending.pop, links := c.links.push ⟨top, current⟩ }
  (← c.use top).use current

/-- Processes the atom at the current position. -/
def process (g : Grammar) (c : ParseContext) (current : Nat) : Except Halt ParseContext :=
  match c.pending.top? with
  | none => .ok (c.shift current)
  | some top => do
    let left ← c.atomAt top
    let right ← c.atomAt current
    let cancels ← (g.reduces left right).mapError .failed
    if cancels then c.cancel top current else return c.shift current

/-- Processes the atoms of the latest type from left to right. -/
def update (g : Grammar) (c : ParseContext) (s : Stage) : Except Halt ParseContext :=
  s.fresh.foldlM (process g) c

/-- Takes in one word after the other, and processes its atoms, until the path is read. -/
def advance (g : Grammar) (path : Path) (c : ParseContext) (s : Stage) : Except Halt ParseContext :=
  if s.wordIndex < path.length then do
    let s := s.download path
    let c ← c.update g s
    advance g path c s.behind
  else return c
termination_by path.length - s.wordIndex
decreasing_by exact Stage.fewer_words_left ‹_›

/-- The whole path read. -/
def run (g : Grammar) (path : Path) : Except Halt ParseContext :=
  advance g path (start path) .initial

end ParseContext

end PregroupGrammar
