import Mathlib.Data.Nat.Basic
import PregroupGrammar.Text.Numeral

/-!
# Numerals read back

The decimal text of a number is a numeral of that number (`integer?_ofInt`), as long as reading
tells the number from those it caps, and so every number of a bounded type has a text that is read
back as it (`uint32?_ofNat`, `int32?_ofInt`). The texts that are read as a number of such a type are
those that spell it in digits, with the signs that the type allows (`uint32?_eq_some`,
`int32?_eq_some`).
-/

namespace PregroupGrammar.Numeral

theorem le_ofDigitChars (cs : List Char) (n : Nat) : n ≤ Nat.ofDigitChars 10 cs n := by
  rw [Nat.ofDigitChars_eq_ofDigitChars_zero]
  have := Nat.le_mul_of_pos_left n (Nat.pow_pos (n := cs.length) (show 0 < 10 by omega))
  omega

/-- Reading stops at the limit, and gives what the digits spell below it. -/
theorem cappedFrom_eq_min : ∀ (cs : List Char) (n : Nat),
    cappedFrom n cs = min countLimit (Nat.ofDigitChars 10 cs n)
  | [], n => by simp [cappedFrom, Nat.ofDigitChars]
  | c :: cs, n => by
    unfold cappedFrom
    split_ifs with h
    · rw [cappedFrom_eq_min cs, Nat.ofDigitChars_cons]
    · have := le_ofDigitChars (c :: cs) n
      omega

theorem isDigit_of_mem_ofNat {n : Nat} {c : Char} (h : c ∈ ofNat n) : c.isDigit = true :=
  Nat.isDigit_of_mem_toDigits (by omega) (by omega) h

theorem ofNat_ne_nil (n : Nat) : ofNat n ≠ [] :=
  Nat.toDigits_ne_nil

theorem capped_ofNat {n : Nat} (h : n < countLimit) : capped (ofNat n) = n := by
  rw [capped, cappedFrom_eq_min, ofNat, Nat.ofDigitChars_ten_toDigits]
  omega

theorem digits?_ofNat {n : Nat} (h : n < countLimit) : digits? (ofNat n) = some n := by
  have hdigits : (ofNat n).all Char.isDigit = true :=
    List.all_eq_true.2 fun c hc => isDigit_of_mem_ofNat hc
  rw [digits?, if_pos ⟨ofNat_ne_nil n, hdigits⟩, capped_ofNat h]

/-- Digits carry no sign. -/
theorem exists_ofNat_eq_cons (n : Nat) : ∃ c cs, ofNat n = c :: cs ∧ c ≠ '+' ∧ c ≠ '-' := by
  obtain ⟨c, cs, hcs⟩ := List.exists_cons_of_ne_nil (ofNat_ne_nil n)
  have hc : c.isDigit = true := isDigit_of_mem_ofNat (hcs ▸ List.mem_cons_self)
  refine ⟨c, cs, hcs, ?_, ?_⟩
  · rintro rfl
    simp at hc
  · rintro rfl
    simp at hc

theorem natural?_ofNat {n : Nat} (h : n < countLimit) : natural? (ofNat n) = some n := by
  obtain ⟨c, cs, hcs, hplus, -⟩ := exists_ofNat_eq_cons n
  rw [← digits?_ofNat h, hcs]
  unfold natural?
  split
  · rename_i heq
    exact absurd (List.cons.inj heq).1 hplus
  · rfl

theorem integer?_ofInt {n : Int} (h : n.natAbs < countLimit) : integer? (ofInt n) = some n := by
  rcases n with n | n
  · obtain ⟨c, cs, hcs, -, hminus⟩ := exists_ofNat_eq_cons n
    have hnat : natural? (ofNat n) = some n := natural?_ofNat (by simpa using h)
    rw [hcs] at hnat
    rw [ofInt, hcs]
    unfold integer?
    split
    · rename_i heq
      exact absurd (List.cons.inj heq).1 hminus
    · rw [hnat]
      rfl
  · have hdigits : digits? (ofNat (n + 1)) = some (n + 1) := digits?_ofNat (by omega)
    rw [ofInt, integer?, hdigits]
    rfl

/-- There is no needless leading zero. -/
theorem head?_ofNat {n : Nat} (h : 0 < n) : (ofNat n).head? ≠ some '0' := by
  induction n using Nat.strongRecOn with
  | ind n ih =>
    rw [ofNat, Nat.toDigits_eq_if (by omega)]
    split_ifs with hn
    · have hdigit : ∀ d < 10, 0 < d → Nat.digitChar d ≠ '0' := by decide
      simpa using hdigit n hn h
    · have hhead := ih (n / 10) (by omega) (by omega)
      obtain ⟨c, cs, hcs, -⟩ := exists_ofNat_eq_cons (n / 10)
      rw [hcs] at hhead
      rw [← ofNat, hcs]
      exact hhead

section Bounded

theorem toUInt16?_toNat (v : UInt16) : toUInt16? v.toNat = some v := by
  have := v.toNat_lt
  rw [toUInt16?, if_pos (by omega)]
  simp

theorem toUInt32?_toNat (v : UInt32) : toUInt32? v.toNat = some v := by
  have := v.toNat_lt
  rw [toUInt32?, if_pos (by omega)]
  simp

theorem toInt32?_toInt (e : Int32) : toInt32? e.toInt = some e := by
  have := e.toInt_lt
  have := e.le_toInt
  rw [toInt32?, if_pos (by omega)]
  simp

theorem toInt64?_toInt (t : Int64) : toInt64? t.toInt = some t := by
  have := t.toInt_lt
  have := t.le_toInt
  rw [toInt64?, if_pos (by omega)]
  simp

theorem toCount?_natCast {n : Nat} (h : n < countLimit) : toCount? n = some n := by
  rw [toCount?, if_pos (by omega)]
  simp

theorem uint32?_ofNat (v : UInt32) : uint32? (ofNat v.toNat) = some v := by
  have hlt : v.toNat < countLimit := by
    have := v.toNat_lt
    unfold countLimit
    omega
  rw [uint32?, natural?_ofNat hlt]
  exact toUInt32?_toNat v

theorem int32?_ofInt (e : Int32) : int32? (ofInt e.toInt) = some e := by
  have hlt : e.toInt.natAbs < countLimit := by
    have := e.toInt_lt
    have := e.le_toInt
    unfold countLimit
    omega
  rw [int32?, integer?_ofInt hlt]
  exact toInt32?_toInt e

end Bounded

section Spelled

/-- The text is one or more digits, and they spell the number. -/
structure IsDigits (cs : List Char) (n : Nat) : Prop where
  ne_nil : cs ≠ []
  isDigit : ∀ c ∈ cs, c.isDigit = true
  value : Nat.ofDigitChars 10 cs 0 = n

/-- The text is digits that spell the number, after a plus sign or none. -/
def IsNatural (cs : List Char) (n : Nat) : Prop :=
  IsDigits cs n ∨ ∃ digits, cs = '+' :: digits ∧ IsDigits digits n

/-- The text is digits that spell the number, after a sign or none. -/
def IsInteger (cs : List Char) (n : Int) : Prop :=
  (∃ m : Nat, IsNatural cs m ∧ n = m) ∨
    ∃ digits, ∃ m : Nat, cs = '-' :: digits ∧ IsDigits digits m ∧ n = -m

variable {cs : List Char}

theorem IsDigits.notMem {n : Nat} (h : IsDigits cs n) {c : Char} (hc : c.isDigit = false) :
    c ∉ cs := fun hmem => by simp [h.isDigit c hmem] at hc

theorem IsNatural.notMem {n : Nat} (h : IsNatural cs n) {c : Char} (hc : c.isDigit = false)
    (hplus : c ≠ '+') : c ∉ cs := by
  obtain h | ⟨digits, rfl, h⟩ := h
  · exact h.notMem hc
  · exact List.not_mem_cons_of_ne_of_not_mem hplus (h.notMem hc)

theorem digits?_eq_some {k : Nat} :
    digits? cs = some k ↔ ∃ n, IsDigits cs n ∧ k = min countLimit n := by
  have hvalue : capped cs = min countLimit (Nat.ofDigitChars 10 cs 0) := cappedFrom_eq_min cs 0
  unfold digits?
  split_ifs with h
  · rw [Option.some.injEq, hvalue]
    constructor
    · rintro rfl
      exact ⟨_, ⟨h.1, List.all_eq_true.1 h.2, rfl⟩, rfl⟩
    · rintro ⟨n, hn, rfl⟩
      rw [hn.value]
  · refine iff_of_false nofun ?_
    rintro ⟨n, hn, -⟩
    exact h ⟨hn.ne_nil, List.all_eq_true.2 hn.isDigit⟩

theorem natural?_eq_some {k : Nat} :
    natural? cs = some k ↔ ∃ n, IsNatural cs n ∧ k = min countLimit n := by
  fun_cases natural? cs with
  | case1 cs =>
    rw [digits?_eq_some]
    constructor
    · rintro ⟨n, hn, hk⟩
      exact ⟨n, .inr ⟨cs, rfl, hn⟩, hk⟩
    · rintro ⟨n, hn | ⟨digits, hcs, hn⟩, hk⟩
      · exact absurd List.mem_cons_self (hn.notMem (c := '+') (by decide))
      · obtain rfl := (List.cons.inj hcs).2
        exact ⟨n, hn, hk⟩
  | case2 cs hplain =>
    rw [digits?_eq_some]
    constructor
    · rintro ⟨n, hn, hk⟩
      exact ⟨n, .inl hn, hk⟩
    · rintro ⟨n, hn | ⟨digits, hcs, -⟩, hk⟩
      · exact ⟨n, hn, hk⟩
      · exact absurd hcs (hplain digits)

theorem integer?_minus (cs : List Char) :
    integer? ('-' :: cs) = (digits? cs).map fun n : Nat => -(n : Int) := by
  rw [integer?]
  cases digits? cs <;> rfl

/-- An integer is read as the nearest one that reading tells from others. -/
theorem integer?_eq_some {k : Int} :
    integer? cs = some k ↔
      ∃ n, IsInteger cs n ∧ k = max (-(countLimit : Int)) (min countLimit n) := by
  by_cases hsign : ∃ digits, cs = '-' :: digits
  · obtain ⟨digits, rfl⟩ := hsign
    simp only [integer?_minus, Option.map_eq_some_iff, digits?_eq_some]
    constructor
    · rintro ⟨m, ⟨n, hn, rfl⟩, rfl⟩
      exact ⟨-n, .inr ⟨digits, n, rfl, hn, rfl⟩, by omega⟩
    · rintro ⟨n, ⟨m, hm | ⟨digits, hcs, -⟩, -⟩ | ⟨digits, m, hcs, hm, rfl⟩, rfl⟩
      · exact absurd List.mem_cons_self (hm.notMem (c := '-') (by decide))
      · exact absurd (List.cons.inj hcs).1 (by decide)
      · obtain rfl := (List.cons.inj hcs).2
        exact ⟨_, ⟨m, hm, rfl⟩, by omega⟩
  · have hplain : integer? cs = (natural? cs).map Int.ofNat := by
      unfold integer?
      split
      · exact absurd ⟨_, rfl⟩ hsign
      · rfl
    simp only [hplain, Option.map_eq_some_iff, natural?_eq_some, Int.ofNat_eq_natCast]
    constructor
    · rintro ⟨m, ⟨n, hn, rfl⟩, rfl⟩
      exact ⟨n, .inl ⟨n, hn, rfl⟩, by omega⟩
    · rintro ⟨n, ⟨m, hm, rfl⟩ | ⟨digits, m, hcs, -⟩, rfl⟩
      · exact ⟨_, ⟨m, hm, rfl⟩, by omega⟩
      · exact absurd ⟨digits, hcs⟩ hsign

theorem toUInt32?_eq_some {n : Int} {v : UInt32} : toUInt32? n = some v ↔ n = v.toNat := by
  constructor
  · intro h
    unfold toUInt32? at h
    split_ifs at h with hn
    obtain rfl := Option.some.inj h
    rw [UInt32.toNat_ofNat_of_lt' (by unfold UInt32.size; omega)]
    omega
  · rintro rfl
    exact toUInt32?_toNat v

theorem toInt32?_eq_some {n : Int} {e : Int32} : toInt32? n = some e ↔ n = e.toInt := by
  constructor
  · intro h
    unfold toInt32? at h
    split_ifs at h with hn
    obtain rfl := Option.some.inj h
    rw [Int32.toInt_ofInt_of_le (by omega) (by omega)]
  · rintro rfl
    exact toInt32?_toInt e

/-- A text is read as a 32-bit natural number exactly if it spells it. -/
theorem uint32?_eq_some {v : UInt32} : uint32? cs = some v ↔ IsNatural cs v.toNat := by
  have hlimit : v.toNat < countLimit := by
    have := v.toNat_lt
    unfold countLimit
    omega
  rw [uint32?, Option.bind_eq_some_iff]
  simp only [natural?_eq_some, toUInt32?_eq_some]
  constructor
  · rintro ⟨k, ⟨n, hn, hk⟩, hv⟩
    obtain rfl : n = v.toNat := by omega
    exact hn
  · intro h
    exact ⟨v.toNat, ⟨v.toNat, h, by omega⟩, rfl⟩

/-- A text is read as a 32-bit integer exactly if it spells it. -/
theorem int32?_eq_some {e : Int32} : int32? cs = some e ↔ IsInteger cs e.toInt := by
  have hlimit : -(countLimit : Int) < e.toInt ∧ e.toInt < countLimit := by
    have := e.toInt_lt
    have := e.le_toInt
    unfold countLimit
    omega
  rw [int32?, Option.bind_eq_some_iff]
  simp only [integer?_eq_some, toInt32?_eq_some]
  constructor
  · rintro ⟨k, ⟨n, hn, hk⟩, he⟩
    obtain rfl : n = e.toInt := by omega
    exact hn
  · intro h
    exact ⟨e.toInt, ⟨e.toInt, h, by omega⟩, rfl⟩

end Spelled

end PregroupGrammar.Numeral
