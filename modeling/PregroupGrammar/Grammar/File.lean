import PregroupGrammar.Grammar.Reader

/-!
# Files

A file is text in UTF-8. Reading one gives its bytes, or the reason why it could not be read.
-/

namespace PregroupGrammar

/-- The text of a file with this content. -/
def InputFile.text (path : String) : Except String ByteArray → Except Error String
  | .error reason => .error (.unreadableFile path reason)
  | .ok bytes =>
    match String.fromUTF8? bytes with
    | some text => .ok text
    | none => .error (.unreadableFile path "not valid UTF-8")

/-- The grammar in a file with this content. -/
def Grammar.ofFile (settings : GrammarSettings) (path : String)
    (content : Except String ByteArray) : Except Error Grammar := do
  Grammar.ofText settings (← InputFile.text path content)

end PregroupGrammar
