import PregroupGrammar.Codec.WordType
import PregroupGrammar.Grammar.Basic

/-!
# Parts of a grammar as JSON

Reduction tables, morphology, marker categories and dictionary entries as JSON values, and back. A
reduction table from JSON is taken as it is.
-/

namespace PregroupGrammar

namespace ReductionTable

/-- A reduction table as JSON. -/
def toJson (t : ReductionTable) : Json :=
  .obj [("inventory", .strs t.inventory), ("dummy", .str t.dummy),
    ("index", .obj (t.index.pairs.map fun (name, i) => (name, .nat i))),
    ("matrix", .arr (t.matrix.toList.map .bool))]

/-- The numbers of the type names from JSON. -/
def indexOfJson? : Json → Option (List (String × Nat))
  | .obj fields => fields.mapM fun (name, i) => i.count?.map (name, ·)
  | _ => none

/-- A reduction table from JSON. -/
def ofJson? (j : Json) : Option ReductionTable :=
  match j.parts? ["inventory", "dummy", "index", "matrix"] with
  | some [inventory, dummy, index, matrix] => do
    return ofParts (← inventory.list? Json.str?) (← dummy.str?) (← indexOfJson? index)
      (← matrix.list? Json.bool?).toArray
  | _ => none

end ReductionTable

namespace MorphStep

/-- The name of a step in JSON. -/
def label : MorphStep → String
  | surface => "Surface"
  | verbal => "Verbal"
  | nominal => "Nominal"
  | adjectival => "Adjectival"
  | irregular => "Irregular"

/-- A step as JSON. -/
def toJson (s : MorphStep) : Json :=
  .str s.label

/-- A step from JSON. -/
def ofJson? (j : Json) : Option MorphStep :=
  match j.choice? with
  | some (name, extra) =>
    if Json.isBare extra then
      [surface, verbal, nominal, adjectival, irregular].find? (·.label == name)
    else none
  | none => none

end MorphStep

namespace Morphology

/-- The tables as JSON. -/
def toJson (m : Morphology) : Json :=
  .obj [("verbal_suffixes", .strs m.verbalSuffixes), ("noun_suffixes", .strs m.nounSuffixes),
    ("adjective_suffixes", .strs m.adjectiveSuffixes),
    ("irregulars", .arr (m.irregulars.map fun (form, replacement) => .strs [form, replacement]))]

/-- The tables from JSON. -/
def ofJson? (j : Json) : Option Morphology :=
  match j.parts? ["verbal_suffixes", "noun_suffixes", "adjective_suffixes", "irregulars"] with
  | some [verbal, noun, adjective, irregulars] => do
    return {
      verbalSuffixes := ← verbal.list? Json.str?
      nounSuffixes := ← noun.list? Json.str?
      adjectiveSuffixes := ← adjective.list? Json.str?
      irregulars := ← irregulars.list? (Json.pair? Json.str? Json.str?) }
  | _ => none

end Morphology

namespace MarkerCategory

/-- A marker category as JSON. -/
def toJson (c : MarkerCategory) : Json :=
  .obj [("name", .str c.name), ("values", .strs c.values)]

/-- A marker category from JSON. -/
def ofJson? (j : Json) : Option MarkerCategory :=
  match j.parts? ["name", "values"] with
  | some [name, values] => do return ⟨← name.str?, ← values.list? Json.str?⟩
  | _ => none

end MarkerCategory

namespace Entry

/-- A dictionary entry as JSON. -/
def toJson (e : Entry) : Json :=
  .obj [("word", .str e.word), ("types", .arr (e.types.map WordType.toJson))]

/-- A dictionary entry from JSON. -/
def ofJson? (j : Json) : Option Entry :=
  match j.parts? ["word", "types"] with
  | some [word, types] => do return ⟨← word.str?, ← types.list? WordType.ofJson?⟩
  | _ => none

end Entry

end PregroupGrammar
