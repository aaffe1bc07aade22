/-!
# Decimal numerals

An integer is written as an optional sign and one or more ASCII digits; leading zeros are allowed.
A natural number may carry a plus sign but no minus sign. Reading into a bounded type fails when
the number is out of its range. No range reaches `countLimit`, so reading keeps numbers apart only
below it and stops as soon as the number reaches it.
-/

namespace PregroupGrammar.Numeral

/-- Counts stay below this limit, which is the 64th power of 2. -/
def countLimit : Nat := 18446744073709551616

/-- The number that digits spell after those that spell `n`, or `countLimit` if that is less. -/
def cappedFrom (n : Nat) : List Char → Nat
  | [] => min countLimit n
  | c :: cs => if n < countLimit then cappedFrom (10 * n + (c.toNat - '0'.toNat)) cs else countLimit

/-- The number that digits spell, or `countLimit` if that is less. -/
def capped (digits : List Char) : Nat :=
  cappedFrom 0 digits

/-- One or more ASCII digits as a number, which is `countLimit` at most. -/
def digits? (cs : List Char) : Option Nat :=
  if cs ≠ [] ∧ cs.all Char.isDigit then some (capped cs) else none

/-- Digits after an optional plus sign. -/
def natural? : List Char → Option Nat
  | '+' :: cs => digits? cs
  | cs => digits? cs

/-- Digits after an optional sign. -/
def integer? : List Char → Option Int
  | '-' :: cs => (digits? cs).map fun n => -(n : Int)
  | cs => (natural? cs).map Int.ofNat

/-- The number as a 16-bit natural number, if it is one. -/
def toUInt16? (n : Int) : Option UInt16 :=
  if 0 ≤ n ∧ n ≤ 65535 then some (UInt16.ofNat n.toNat) else none

/-- The number as a 32-bit natural number, if it is one. -/
def toUInt32? (n : Int) : Option UInt32 :=
  if 0 ≤ n ∧ n ≤ 4294967295 then some (UInt32.ofNat n.toNat) else none

/-- The number as a 32-bit integer, if it is one. -/
def toInt32? (n : Int) : Option Int32 :=
  if -2147483648 ≤ n ∧ n ≤ 2147483647 then some (Int32.ofInt n) else none

/-- The number as a 64-bit integer, if it is one. -/
def toInt64? (n : Int) : Option Int64 :=
  if -9223372036854775808 ≤ n ∧ n ≤ 9223372036854775807 then some (Int64.ofInt n) else none

/-- The number as a count, if it is one. -/
def toCount? (n : Int) : Option Nat :=
  if 0 ≤ n ∧ n < countLimit then some n.toNat else none

/-- A 32-bit natural number. -/
def uint32? (cs : List Char) : Option UInt32 :=
  (natural? cs).bind fun n => toUInt32? n

/-- A 32-bit integer. -/
def int32? (cs : List Char) : Option Int32 :=
  (integer? cs).bind toInt32?

/-- A 64-bit integer. -/
def int64? (cs : List Char) : Option Int64 :=
  (integer? cs).bind toInt64?

/-- A count. -/
def count? (cs : List Char) : Option Nat :=
  (natural? cs).bind fun n => toCount? n

/-- A natural number in decimal, without leading zeros. -/
def ofNat (n : Nat) : List Char :=
  Nat.toDigits 10 n

/-- An integer in decimal: a minus sign when it is negative, then its digits. -/
def ofInt : Int → List Char
  | .ofNat n => ofNat n
  | .negSucc n => '-' :: ofNat (n + 1)

/-- The decimal text of a natural number. -/
def natText (n : Nat) : String :=
  String.ofList (ofNat n)

/-- The decimal text of an integer. -/
def intText (n : Int) : String :=
  String.ofList (ofInt n)

end PregroupGrammar.Numeral
