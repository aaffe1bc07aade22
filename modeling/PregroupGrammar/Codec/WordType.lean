import PregroupGrammar.Json.Decode
import PregroupGrammar.WordType

/-!
# Atoms and types as JSON

A marker, an atom and a type as JSON values, and back. The kind of an atom is a choice: `Concrete`
with its markers, or `Generic` with a binding, which is again a choice of `Unbound` and `Bound`
with the run.
-/

namespace PregroupGrammar

/-- The object itself, and nothing for any other value. -/
def Json.object? : Json → Option Json
  | .obj fields => some (.obj fields)
  | _ => none

/-- A marker as JSON. -/
def Marker.toJson (m : Marker) : Json :=
  .obj [("category", .nat m.category.toNat), ("value", .nat m.value.toNat)]

/-- A marker from JSON. -/
def Marker.ofJson? (j : Json) : Option Marker :=
  match j.parts? ["category", "value"] with
  | some [category, value] => do
    return ⟨← category.int?.bind Numeral.toUInt16?, ← value.int?.bind Numeral.toUInt32?⟩
  | _ => none

namespace Atom

/-- An atom of a given kind as JSON. -/
def record (name : String) (adjoint : Int32) (kind : Json) : Json :=
  .obj [("name", .str name), ("adjoint", .int adjoint.toInt), ("kind", kind)]

mutual

/-- An atom as JSON. -/
def toJson : Atom → Json
  | concrete name adjoint markers =>
    record name adjoint
      (.obj [("Concrete", .obj [("markers", .arr (markers.map Marker.toJson))])])
  | generic name adjoint => record name adjoint (.obj [("Generic", .str "Unbound")])
  | bound name adjoint run =>
    record name adjoint (.obj [("Generic", .obj [("Bound", .arr (runToJson run))])])

/-- The atoms of a run as JSON. -/
def runToJson : List Atom → List Json
  | [] => []
  | a :: as => a.toJson :: runToJson as

end

/-- The markers of a concrete atom from JSON, which has to be an object. -/
def markersOfJson? (j : Json) : Option (List Marker) :=
  match j.object?.bind (·.parts? ["markers"]) with
  | some [markers] => markers.list? Marker.ofJson?
  | _ => none

/-- An atom from JSON. -/
def ofJson? (j : Json) : Option Atom :=
  match _hj : j.parts? ["name", "adjoint", "kind"] with
  | some [name, adjoint, kind] =>
    match name.str?, adjoint.int?.bind Numeral.toInt32? with
    | some name, some adjoint =>
      match _hk : kind.choice? with
      | some ("Concrete", some markers) => (markersOfJson? markers).map (concrete name adjoint)
      | some ("Generic", some binding) =>
        match _hb : binding.choice? with
        | some ("Unbound", extra) => if Json.isBare extra then some (generic name adjoint) else none
        | some ("Bound", some (.arr run)) =>
          (run.attach.mapM fun a => ofJson? a.1).map (bound name adjoint)
        | _ => none
      | _ => none
    | _, _ => none
  | _ => none
termination_by sizeOf j
decreasing_by
  have h₁ := Json.parts?_lt _hj (k := kind) (by simp)
  have h₂ := Json.choice?_lt _hk
  have h₃ := Json.choice?_lt _hb
  have h₄ := Json.sizeOf_lt_of_mem_items a.2
  omega

end Atom

namespace WordType

/-- A type as JSON. -/
def toJson (t : WordType) : Json :=
  .obj [("atoms", .arr (t.atoms.map Atom.toJson))]

/-- A type from JSON. -/
def ofJson? (j : Json) : Option WordType :=
  match j.parts? ["atoms"] with
  | some [atoms] => (atoms.list? Atom.ofJson?).map WordType.mk
  | _ => none

end WordType

end PregroupGrammar
