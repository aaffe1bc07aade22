import PregroupGrammar.Text.Numeral

/-!
# Fixed-point decimals

The decimal with a given number of places that is nearest to a number `m * 2 ^ q`; of two equally
near ones, the one whose last digit is even. A binary floating-point number is first decoded into
such a pair, so the rounding is of its exact value.
-/

namespace PregroupGrammar.Decimal

/-- The integer nearest to `num / den`, the even one of two equally near. -/
def roundDiv (num den : Nat) : Nat :=
  let floor := num / den
  let twice := 2 * (num % den)
  if twice < den ∨ (twice = den ∧ floor % 2 = 0) then floor else floor + 1

/-- `m * 2 ^ q` in units of `10 ^ -places`, rounded to the nearest integer. -/
def scaled (places m : Nat) (q : Int) : Nat :=
  roundDiv (m * Nat.pow 10 places * Nat.pow 2 q.toNat) (Nat.pow 2 (-q).toNat)

/-- The digits of a natural number, filled up with zeros on the left to the given width. -/
def padded (width n : Nat) : List Char :=
  let digits := Numeral.ofNat n
  List.replicate (width - digits.length) '0' ++ digits

/-- The text of `n * 10 ^ -places`, with all its places. -/
def placed (places n : Nat) : String :=
  let unit := Nat.pow 10 places
  String.ofList (Numeral.ofNat (n / unit) ++ '.' :: padded places (n % unit))

/-- The bit in front of the 52 stored bits of a fraction. -/
def leadingBit : Nat := 4503599627370496

/-- The non-negative finite number `x` as `m * 2 ^ q`. -/
def decode (x : Float) : Nat × Int :=
  let bits : Nat := x.toBits.toNat
  let exponent : Nat := bits / leadingBit % 2048
  let fraction : Nat := bits % leadingBit
  if exponent = 0 then (fraction, -1074) else (fraction + leadingBit, (exponent : Int) - 1075)

/-- The text of a non-negative finite number, rounded to the given number of places. -/
def ofFloat (places : Nat) (x : Float) : String :=
  let (m, q) := decode x
  placed places (scaled places m q)

end PregroupGrammar.Decimal
