import PregroupGrammar.Codec.Metarule
import PregroupGrammar.Error
import PregroupGrammar.Json.Reader

/-!
# Settings as JSON

Settings are written as JSON and read from JSON text. A field that is left out has its usual value.
-/

namespace PregroupGrammar

/-- The value that a field decodes to, or the usual value if the field is left out. -/
def Json.orDefault? {α : Type} (decode : Json → Option α) (usual : α) : Option Json → Option α
  | none => some usual
  | some j => decode j

namespace RepairStrategy

/-- The name of a strategy in JSON. -/
def label : RepairStrategy → String
  | afterAllPaths => "after_all_paths"
  | perPath => "per_path"

/-- A strategy as JSON. -/
def toJson (s : RepairStrategy) : Json :=
  .str s.label

/-- A strategy from JSON. -/
def ofJson? (j : Json) : Option RepairStrategy :=
  match j.choice? with
  | some (name, extra) =>
    if Json.isBare extra then [afterAllPaths, perPath].find? (·.label == name) else none
  | none => none

end RepairStrategy

namespace GrammarSettings

/-- Grammar settings as JSON. -/
def toJson (s : GrammarSettings) : Json :=
  .obj [("dummy_type", .str s.dummyType), ("metarule_iteration", s.iteration.toJson)]

/-- Grammar settings from JSON. -/
def ofJson? (j : Json) : Option GrammarSettings :=
  match j.record? ["dummy_type", "metarule_iteration"] 0 with
  | some [dummyType, iteration] => do
    let usual : GrammarSettings := {}
    return {
      dummyType := ← Json.orDefault? Json.str? usual.dummyType dummyType
      iteration := ← Json.orDefault? (Iteration.ofJson? true) usual.iteration iteration }
  | _ => none

end GrammarSettings

namespace ParserSettings

/-- Parser settings as JSON. -/
def toJson (s : ParserSettings) : Json :=
  .obj [("repair_threshold", .nat s.repairThreshold), ("repair_strategy", s.repairStrategy.toJson)]

/-- Parser settings from JSON. -/
def ofJson? (j : Json) : Option ParserSettings :=
  match j.record? ["repair_threshold", "repair_strategy"] 0 with
  | some [threshold, strategy] => do
    let usual : ParserSettings := {}
    return {
      repairThreshold := ← Json.orDefault? Json.count? usual.repairThreshold threshold
      repairStrategy :=
        ← Json.orDefault? RepairStrategy.ofJson? usual.repairStrategy strategy }
  | _ => none

end ParserSettings

namespace Settings

/-- Settings as JSON. -/
def toJson (s : Settings) : Json :=
  .obj [("grammar", s.grammar.toJson), ("parser", s.parser.toJson)]

/-- Settings from JSON, not checked. -/
def ofJson? (j : Json) : Option Settings :=
  match j.record? ["grammar", "parser"] 0 with
  | some [grammar, parser] => do
    return {
      grammar := ← Json.orDefault? GrammarSettings.ofJson? {} grammar
      parser := ← Json.orDefault? ParserSettings.ofJson? {} parser }
  | _ => none

/-- Settings from JSON, checked. -/
def decode (j : Json) : Except Error Settings :=
  match ofJson? j with
  | none => .error (.invalidSettings .undecodable)
  | some settings =>
    match settings.fault? with
    | some fault => .error (.invalidSettings fault)
    | none => .ok settings

/-- Settings from JSON text, checked. -/
def ofText (text : String) : Except Error Settings :=
  match Json.ofText? text with
  | none => .error (.invalidSettings .undecodable)
  | some j => decode j

end Settings

end PregroupGrammar
