import PregroupGrammar.Text.Numeral

/-!
# JSON tokens

The tokens of JSON text, their spelling, and the scanner that cuts a text into tokens. The scanner
reads one character at a time: between tokens, inside a quoted text, inside an escape, or inside a
bare word, which is a number or one of the names `null`, `true` and `false`.
-/

namespace PregroupGrammar.Json

/-- A token. `quoted none` is a quoted text with an unpaired surrogate and `oddNumber` a number that
is not an integer in plain digits or is too large to be used. -/
inductive Token where
  | openArr
  | closeArr
  | openObj
  | closeObj
  | comma
  | colon
  | null
  | bool (b : Bool)
  | int (n : Int)
  | oddNumber
  | quoted (text : Option String)
deriving DecidableEq

namespace Token

/-- The four lower-case hexadecimal digits of a number below `2 ^ 16`. -/
def hex4 (n : Nat) : List Char :=
  [n / 4096 % 16, n / 256 % 16, n / 16 % 16, n % 16].map Nat.digitChar

/-- How a character is written between quotes. Control characters and the three other characters
that may end a line are written by their number. -/
def escaped (c : Char) : List Char :=
  if c = '"' then ['\\', '"']
  else if c = '\\' then ['\\', '\\']
  else if c.toNat < 0x20 ∨ c ∈ ['\u0085', '\u2028', '\u2029'] then '\\' :: 'u' :: hex4 c.toNat
  else [c]

/-- The spelling of a token. A number that is of no use is spelled as minus zero, and a text
with an unpaired surrogate as the first surrogate. -/
def spelling : Token → List Char
  | openArr => ['[']
  | closeArr => [']']
  | openObj => ['\x7b']
  | closeObj => ['\x7d']
  | comma => [',']
  | colon => [':']
  | null => ['n', 'u', 'l', 'l']
  | bool true => ['t', 'r', 'u', 'e']
  | bool false => ['f', 'a', 'l', 's', 'e']
  | int n => Numeral.ofInt n
  | oddNumber => ['-', '0']
  | quoted (some text) => '"' :: (text.toList.flatMap escaped ++ ['"'])
  | quoted none => ['"', '\\', 'u', 'd', '8', '0', '0', '"']

/-- The token that a single character spells. -/
def ofSign? : Char → Option Token
  | '[' => some openArr
  | ']' => some closeArr
  | '\x7b' => some openObj
  | '\x7d' => some closeObj
  | ',' => some comma
  | ':' => some colon
  | _ => none

/-- The text after a run of digits, if there is at least one digit. -/
def afterDigits? (cs : List Char) : Option (List Char) :=
  if (cs.takeWhile Char.isDigit).isEmpty then none else some (cs.dropWhile Char.isDigit)

/-- Whether the text is an optional fraction and an optional exponent, as may follow the digits of
a number. -/
def isNumberTail (cs : List Char) : Bool :=
  let afterFraction? := match cs with
    | '.' :: rest => afterDigits? rest
    | _ => some cs
  match afterFraction? with
  | none => false
  | some [] => true
  | some (e :: rest) =>
    (e == 'e' || e == 'E') &&
      afterDigits? (match rest with
        | '+' :: digits => digits
        | '-' :: digits => digits
        | _ => rest) == some []

/-- A number: digits without a needless leading zero after an optional minus sign, and what may
follow them. Minus zero is not an integer, and an integer has to be a count up to its sign. -/
def ofNumber? (cs : List Char) : Option Token :=
  let (negative, unsigned) := match cs with
    | '-' :: rest => (true, rest)
    | _ => (false, cs)
  let whole := unsigned.takeWhile Char.isDigit
  let tail := unsigned.dropWhile Char.isDigit
  if whole.isEmpty ∨ (whole.head? = some '0' ∧ whole ≠ ['0']) then none
  else if tail.isEmpty then
    let n := Numeral.capped whole
    if n = Numeral.countLimit ∨ (negative ∧ n = 0) then some oddNumber
    else some (int (if negative then -n else n))
  else if isNumberTail tail then some oddNumber
  else none

/-- The token that a bare word spells. -/
def ofWord? (cs : List Char) : Option Token :=
  if cs = ['n', 'u', 'l', 'l'] then some null
  else if cs = ['t', 'r', 'u', 'e'] then some (bool true)
  else if cs = ['f', 'a', 'l', 's', 'e'] then some (bool false)
  else ofNumber? cs

/-- Whether a character may stand in a bare word. -/
def isWordChar (c : Char) : Bool :=
  c.isAlphanum || c == '+' || c == '-' || c == '.'

/-- Whether a character may stand between tokens. -/
def isGap (c : Char) : Bool :=
  c == ' ' || c == '\n' || c == '\t' || c == '\r'

/-- The number that a hexadecimal digit stands for. -/
def hexValue? (c : Char) : Option Nat :=
  if c.isDigit then some (c.toNat - '0'.toNat)
  else if 'a' ≤ c ∧ c ≤ 'f' then some (c.toNat - 'a'.toNat + 10)
  else if 'A' ≤ c ∧ c ≤ 'F' then some (c.toNat - 'A'.toNat + 10)
  else none

/-- The character that a one-letter escape stands for. -/
def unescape? : Char → Option Char
  | '"' => some '"'
  | '\\' => some '\\'
  | '/' => some '/'
  | 'b' => some '\x08'
  | 'f' => some '\x0c'
  | 'n' => some '\n'
  | 'r' => some '\r'
  | 't' => some '\t'
  | _ => none

/-- The characters given by code units, last unit first: a high surrogate joins the low surrogate
after it. There are none if a surrogate is left over. -/
def joinUnits? : List Nat → List Char → Option (List Char)
  | [], done => some done
  | [n], done => if n.isValidChar then some (Char.ofNat n :: done) else none
  | n :: m :: before, done =>
    if 0xDC00 ≤ n ∧ n < 0xE000 ∧ 0xD800 ≤ m ∧ m < 0xDC00 then
      joinUnits? before (Char.ofNat (0x10000 + (m - 0xD800) * 0x400 + (n - 0xDC00)) :: done)
    else if n.isValidChar then joinUnits? (m :: before) (Char.ofNat n :: done)
    else none

/-- Where the scanner stands. The characters of an unfinished token are kept last first, those of a
quoted text as code units. -/
inductive Place where
  | gap
  | word (seen : List Char)
  | quote (units : List Nat)
  | escape (units : List Nat)
  | hex (units : List Nat) (digits : Nat) (value : Nat)

/-- The scanner after some characters: the finished tokens, last first, and its place. -/
structure Scan where
  tokens : List Token
  place : Place

/-- One character read between tokens. -/
def Scan.stepGap? (tokens : List Token) (c : Char) : Option Scan :=
  if isGap c then some ⟨tokens, .gap⟩
  else if c = '"' then some ⟨tokens, .quote []⟩
  else if isWordChar c then some ⟨tokens, .word [c]⟩
  else (ofSign? c).map fun token => ⟨token :: tokens, .gap⟩

/-- One character read. -/
def Scan.step? (scan : Scan) (c : Char) : Option Scan :=
  match scan.place with
  | .gap => Scan.stepGap? scan.tokens c
  | .word seen =>
    if isWordChar c then some ⟨scan.tokens, .word (c :: seen)⟩
    else (ofWord? seen.reverse).bind fun token => Scan.stepGap? (token :: scan.tokens) c
  | .quote units =>
    if c = '"' then some ⟨quoted ((joinUnits? units []).map String.ofList) :: scan.tokens, .gap⟩
    else if c = '\\' then some ⟨scan.tokens, .escape units⟩
    else if c.toNat < 0x20 then none
    else some ⟨scan.tokens, .quote (c.toNat :: units)⟩
  | .escape units =>
    if c = 'u' then some ⟨scan.tokens, .hex units 0 0⟩
    else (unescape? c).map fun meant => ⟨scan.tokens, .quote (meant.toNat :: units)⟩
  | .hex units digits value =>
    (hexValue? c).map fun digit =>
      if digits = 3 then ⟨scan.tokens, .quote ((value * 16 + digit) :: units)⟩
      else ⟨scan.tokens, .hex units (digits + 1) (value * 16 + digit)⟩

/-- The tokens, in order, if no token is left unfinished. -/
def Scan.finish? (scan : Scan) : Option (List Token) :=
  match scan.place with
  | .gap => some scan.tokens.reverse
  | .word seen => (ofWord? seen.reverse).map fun token => (token :: scan.tokens).reverse
  | _ => none

/-- The tokens of a text. -/
def scan? (cs : List Char) : Option (List Token) :=
  (cs.foldlM Scan.step? ⟨[], .gap⟩).bind Scan.finish?

end Token

end PregroupGrammar.Json
