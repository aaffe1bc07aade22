/-!
# JSON values

The values that the library exchanges as JSON. Its numbers are integers whose absolute value is a
count, so a number of any other kind is `foreign`, and so is a text that escapes one half of a
surrogate pair. A foreign value may stand wherever a value is not looked at; no decoder accepts
it.
-/

namespace PregroupGrammar

/-- A JSON value. An object keeps its fields in the order in which they are written. -/
inductive Json where
  | null
  | bool (b : Bool)
  | int (n : Int)
  | str (s : String)
  | arr (items : List Json)
  | obj (fields : List (String × Json))
  | foreign

namespace Json

instance : Inhabited Json := ⟨null⟩

/-- A natural number as a JSON number. -/
def nat (n : Nat) : Json :=
  .int n

/-- A list of texts as a JSON array. -/
def strs (texts : List String) : Json :=
  .arr (texts.map .str)

/-- The value, or `null` if there is none. -/
def orNull (j : Option Json) : Json :=
  j.getD .null

end Json

end PregroupGrammar
