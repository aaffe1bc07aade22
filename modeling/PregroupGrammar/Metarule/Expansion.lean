import PregroupGrammar.Metarule.Match

/-!
# Expansion of a list of types

The metarules are applied to a list of types in rounds. A round applies every rule to every type
that was there when it began, and adds at the end each derived type that agrees with none before it.
Ambiguous matches derive nothing and are counted.
-/

namespace PregroupGrammar

/-- How many rounds to run: a given number, or until a round adds nothing, but not more than a given
number. -/
inductive Iteration where
  | rounds (n : Nat)
  | fixedPoint (maxRounds : Nat)
deriving DecidableEq, Repr

namespace Iteration

/-- Three rounds, unless something else is asked for. -/
def standard : Iteration := .rounds 3

/-- The largest number of rounds to run. -/
def limit : Iteration → Nat
  | rounds n => n
  | fixedPoint maxRounds => maxRounds

/-- Whether to stop after a round that adds nothing. -/
def stopsWhenStable : Iteration → Bool
  | rounds _ => false
  | fixedPoint _ => true

end Iteration

/-- What an expansion did. It has converged if its last round added nothing. -/
structure ExpansionReport where
  roundsRun : Nat := 0
  added : Nat := 0
  ambiguous : Nat := 0
  converged : Bool := false
deriving DecidableEq, Repr

namespace Expansion

/-- What one round finds: the new types, and the number of ambiguous matches. -/
structure Round where
  derived : List WordType
  ambiguous : Nat
deriving DecidableEq, Repr

/-- One rule applied to one type, in a round that began with the types `present`. -/
def attempt (present : List WordType) (round : Round) (candidate : WordType) (rule : Metarule) :
    Round :=
  match rule.apply candidate with
  | .ok (some new) =>
    if (present ++ round.derived).any (·.agrees new) then round
    else { round with derived := round.derived ++ [new] }
  | .ok none => round
  | .error _ => { round with ambiguous := round.ambiguous + 1 }

/-- The round that begins with the types `present`. -/
def round (rules : List Metarule) (present : List WordType) : Round :=
  present.foldl (fun found candidate => rules.foldl (attempt present · candidate) found) ⟨[], 0⟩

/-- The report after one more round. -/
def report (before : ExpansionReport) (found : Round) : ExpansionReport where
  roundsRun := before.roundsRun + 1
  added := before.added + found.derived.length
  ambiguous := before.ambiguous + found.ambiguous
  converged := found.derived.isEmpty

/-- At most the given number of further rounds. -/
def rounds (rules : List Metarule) (stopsWhenStable : Bool) :
    Nat → List WordType → ExpansionReport → List WordType × ExpansionReport
  | 0, types, before => (types, before)
  | n + 1, types, before =>
    let found := round rules types
    if stopsWhenStable && found.derived.isEmpty then (types, report before found)
    else rounds rules stopsWhenStable n (types ++ found.derived) (report before found)

end Expansion

/-- The types with those that the metarules derive from them, and a report. -/
def expand (rules : List Metarule) (iteration : Iteration) (types : List WordType) :
    List WordType × ExpansionReport :=
  Expansion.rounds rules iteration.stopsWhenStable iteration.limit types {}

end PregroupGrammar
