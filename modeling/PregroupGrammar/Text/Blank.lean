/-!
# Blank characters

Which characters count as blank, and the two operations that depend on nothing else: cutting the
blanks off both ends of a text, and cutting a text into its blank-free words.
-/

namespace PregroupGrammar.Text

/-- The code points with the Unicode property White_Space, as closed ranges in increasing order. -/
def blankRanges : List (Nat × Nat) :=
  [(0x9, 0xD), (0x20, 0x20), (0x85, 0x85), (0xA0, 0xA0), (0x1680, 0x1680), (0x2000, 0x200A),
    (0x2028, 0x2029), (0x202F, 0x202F), (0x205F, 0x205F), (0x3000, 0x3000)]

/-- Whether a character is blank. -/
def isBlank (c : Char) : Bool :=
  blankRanges.any fun (low, high) => low ≤ c.toNat && c.toNat ≤ high

/-- The text without the blanks at its two ends. -/
def trim (cs : List Char) : List Char :=
  ((cs.dropWhile isBlank).reverse.dropWhile isBlank).reverse

/-- The non-empty pieces between the characters that `cut` picks out. -/
def pieces (cut : Char → Bool) (cs : List Char) : List (List Char) :=
  (cs.splitOnP cut).filter (!·.isEmpty)

/-- The maximal blank-free pieces of a text, in order. -/
def words (cs : List Char) : List (List Char) :=
  pieces isBlank cs

end PregroupGrammar.Text
