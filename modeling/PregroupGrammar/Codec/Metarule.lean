import PregroupGrammar.Codec.WordType
import PregroupGrammar.Metarule.Expansion

/-!
# Metarules and their expansion as JSON

A metarule, an iteration and an expansion report as JSON values, and back. A metarule from JSON is
checked like any other.
-/

namespace PregroupGrammar

namespace Metarule

/-- A metarule as JSON. -/
def toJson (rule : Metarule) : Json :=
  .obj [("tag", .int rule.tag.toInt), ("pattern", rule.pattern.toJson),
    ("target", rule.target.toJson)]

/-- A metarule from JSON, if the JSON has its parts; they may not make a well-formed rule. -/
def ofJson? (j : Json) : Option (Except InvalidMetarule Metarule) :=
  match j.parts? ["tag", "pattern", "target"] with
  | some [tag, pattern, target] => do
    let tag ← tag.int?.bind Numeral.toInt64?
    let pattern ← WordType.ofJson? pattern
    let target ← WordType.ofJson? target
    return make tag pattern target
  | _ => none

end Metarule

namespace Iteration

/-- An iteration as JSON. -/
def toJson : Iteration → Json
  | rounds n => .obj [("rounds", .nat n)]
  | fixedPoint n => .obj [("fixed_point", .obj [("max_rounds", .nat n)])]

/-- An iteration from JSON. The record of a fixed point may be an array only if `arrays` says so. -/
def ofJson? (arrays : Bool) (j : Json) : Option Iteration :=
  match j.choice? with
  | some ("rounds", some n) => n.count?.map rounds
  | some ("fixed_point", some record) =>
    match (if arrays then some record else record.object?).bind (·.parts? ["max_rounds"]) with
    | some [n] => n.count?.map fixedPoint
    | _ => none
  | _ => none

end Iteration

namespace ExpansionReport

/-- An expansion report as JSON. -/
def toJson (r : ExpansionReport) : Json :=
  .obj [("rounds_run", .nat r.roundsRun), ("added", .nat r.added), ("ambiguous", .nat r.ambiguous),
    ("converged", .bool r.converged)]

/-- An expansion report from JSON. -/
def ofJson? (j : Json) : Option ExpansionReport :=
  match j.parts? ["rounds_run", "added", "ambiguous", "converged"] with
  | some [roundsRun, added, ambiguous, converged] => do
    return ⟨← roundsRun.count?, ← added.count?, ← ambiguous.count?, ← converged.bool?⟩
  | _ => none

end ExpansionReport

end PregroupGrammar
