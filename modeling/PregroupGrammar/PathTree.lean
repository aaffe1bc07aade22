import PregroupGrammar.Text.Numeral

/-!
# Paths

A path picks one candidate for each word. The paths are grown in a tree: each word adds a
generation, in which every path so far is extended by every candidate of the word, in order. Read
from left to right the leaves are the paths in lexicographic order, the last word varying fastest.
-/

namespace PregroupGrammar

/-- A tree of paths. A leaf is given by the path that leads to it, last choice first; leaves that
grew from one leaf share it. The tree without generations has no leaves. -/
structure PathTree (α : Type) where
  generations : Nat
  leaves : List (List α)

namespace PathTree

variable {α : Type}

/-- The tree without generations. -/
def empty : PathTree α := ⟨0, []⟩

/-- The tree with one more generation. -/
def grow (tree : PathTree α) (candidates : List α) : PathTree α where
  generations := tree.generations + 1
  leaves :=
    (if tree.generations = 0 then [[]] else tree.leaves).flatMap fun stem =>
      candidates.map (· :: stem)

/-- The number of leaves. -/
def leafCount (tree : PathTree α) : Nat :=
  tree.leaves.length

/-- The paths to the leaves, in order. -/
def paths (tree : PathTree α) : List (List α) :=
  tree.leaves.map List.reverse

end PathTree

/-- All paths through the candidate lists of the words. A sentence without words has no path. -/
def enumeratePaths {α : Type} (words : List (List α)) : List (List α) :=
  (words.foldl PathTree.grow PathTree.empty).paths

/-- The product of two counts, if it is a count. -/
def timesCount? (m n : Nat) : Option Nat :=
  if m * n < Numeral.countLimit then some (m * n) else none

/-- The number of paths through candidate lists of the given lengths, multiplied from left to right
as long as the product is a count. -/
def pathCountOf (lengths : List Nat) : Option Nat :=
  if lengths.isEmpty then some 0 else lengths.foldlM timesCount? 1

/-- The number of paths through the candidate lists of the words, if it can be counted. -/
def pathCount {α : Type} (words : List (List α)) : Option Nat :=
  pathCountOf (words.map List.length)

end PregroupGrammar
