import PregroupGrammar.Codec.WordType
import PregroupGrammar.Corpus.Report

/-!
# Outcomes and reports as JSON

Links, acceptances and outcomes as JSON values, and back; and reports on a corpus as JSON values.
-/

namespace PregroupGrammar

namespace Link

/-- A link as JSON. -/
def toJson (link : Link) : Json :=
  .obj [("left", .nat link.left), ("right", .nat link.right)]

/-- A link from JSON. -/
def ofJson? (j : Json) : Option Link :=
  match j.parts? ["left", "right"] with
  | some [left, right] => do return ⟨← left.count?, ← right.count?⟩
  | _ => none

end Link

namespace Repair

/-- A repair as JSON. -/
def toJson (r : Repair) : Json :=
  .obj [("atom_type", .str r.atomType), ("positions", .arr [.nat r.first, .nat r.second])]

/-- A repair from JSON. -/
def ofJson? (j : Json) : Option Repair :=
  match j.parts? ["atom_type", "positions"] with
  | some [atomType, positions] => do
    let (first, second) ← Json.pair? Json.count? Json.count? positions
    return ⟨← atomType.str?, first, second⟩
  | _ => none

end Repair

namespace Acceptance

/-- An acceptance as JSON. -/
def toJson (a : Acceptance) : Json :=
  .obj [("path_index", .nat a.pathIndex), ("path", .arr (a.path.map WordType.toJson)),
    ("links", .arr (a.links.map Link.toJson)), ("residual", a.residual.toJson),
    ("nesting_depth", .nat a.nestingDepth), ("repair", .orNull (a.repair.map Repair.toJson))]

/-- An acceptance from JSON. -/
def ofJson? (j : Json) : Option Acceptance :=
  match j.record? ["path_index", "path", "links", "residual", "nesting_depth", "repair"] 6 with
  | some [some pathIndex, some path, some links, some residual, some nestingDepth, repair] => do
    return {
      pathIndex := ← pathIndex.count?
      path := ← path.list? WordType.ofJson?
      links := ← links.list? Link.ofJson?
      residual := ← Atom.ofJson? residual
      nestingDepth := ← nestingDepth.count?
      repair := ← Json.optional? Repair.ofJson? repair }
  | _ => none

end Acceptance

namespace Outcome

/-- The fields of an outcome. -/
def fields (o : Outcome) : List (String × Json) :=
  [("sentence", .strs o.sentence), ("path_count", .nat o.pathCount),
    ("acceptance", .orNull (o.acceptance.map Acceptance.toJson))]

/-- An outcome as JSON. -/
def toJson (o : Outcome) : Json :=
  .obj o.fields

/-- An outcome from JSON. -/
def ofJson? (j : Json) : Option Outcome :=
  match j.record? ["sentence", "path_count", "acceptance"] 3 with
  | some [some sentence, some pathCount, acceptance] => do
    return {
      sentence := ← sentence.list? Json.str?
      pathCount := ← pathCount.count?
      acceptance := ← Json.optional? Acceptance.ofJson? acceptance }
  | _ => none

end Outcome

/-- What became of a sentence, as JSON: the outcome's own fields, or the reason. -/
def SentenceStatus.toJson : SentenceStatus → Json
  | parsed outcome => .obj (("status", .str "parsed") :: outcome.fields)
  | unresolved reason => .obj [("status", .str "unresolved"), ("reason", .str reason)]

/-- The report on a sentence as JSON. -/
def SentenceReport.toJson (r : SentenceReport) : Json :=
  .obj [("line", .nat r.line), ("words", .strs r.words), ("status", r.status.toJson)]

/-- The report on a corpus as JSON. -/
def CorpusReport.toJson (r : CorpusReport) : Json :=
  .obj [("sentences", .arr (r.sentences.map SentenceReport.toJson))]

end PregroupGrammar
