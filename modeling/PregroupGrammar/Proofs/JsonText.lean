import Mathlib.Data.List.TakeWhile
import PregroupGrammar.Json.Decode
import PregroupGrammar.Json.Reader
import PregroupGrammar.Json.Writer
import PregroupGrammar.Proofs.Numerals

/-!
# JSON text read back

The text of a value is read as that value (`ofText?_text`), as long as the scanner can tell the
numbers in it from those it caps.

The reader takes back the tokens of any value (`reads`): what it holds after them is what it held
before, with the value taken. The scanner takes back the tokens from their spelling: two bare words
never meet in the tokens of a value, so each of them is finished by the sign after it
(`Scannable.sign`), and a quoted text is given back one character at a time (`foldlM_escaped`).
-/

namespace PregroupGrammar.Json

section Reader

open Expecting

/-- The tokens of the value, wherever a value may start, are read as the value. -/
def Reads (j : Json) : Prop :=
  ∀ (around : List Level) (rest : List Token),
    (j.tokens ++ rest).foldlM step? (.value around) = rest.foldlM step? (take j around)

theorem take_arr (j : Json) (items : List Json) (around : List Level) :
    take j (.arr items :: around) = .moreItems (j :: items) around := rfl

theorem take_obj (j : Json) (fields : List (Option String × Json)) (key : Option String)
    (around : List Level) :
    take j (.obj fields key :: around) = .moreFields ((key, j) :: fields) around := rfl

/-- The first item of an array starts as any value does. -/
theorem foldlM_firstItem (j : Json) (around : List Level) (rest : List Token) :
    (j.tokens ++ rest).foldlM step? (.firstItem around) =
      (j.tokens ++ rest).foldlM step? (.value (.arr [] :: around)) := by
  cases j <;> rfl

theorem closeObj_reverse (fields : List (String × Json)) :
    closeObj (fields.map fun field => (some field.1, field.2)).reverse = .obj fields := by
  have hkeys : (fields.map fun field => (some field.1, field.2)).mapM
      (fun pair : Option String × Json => pair.1.map (·, pair.2)) = some fields := by
    induction fields with
    | nil => rfl
    | cons field fields ih => simp [ih]
  rw [closeObj, List.reverse_reverse]
  split
  · rename_i heq
    rw [Option.some.inj (hkeys.symm.trans heq)]
  · rename_i heq
    cases hkeys.symm.trans heq

theorem foldlM_items (around : List Level) (rest : List Token) :
    ∀ (j : Json) (items done : List Json), (∀ k ∈ j :: items, Reads k) →
      (tokensOfItems (j :: items) ++ .closeArr :: rest).foldlM step?
          (.value (.arr done :: around)) =
        rest.foldlM step? (take (.arr (done.reverse ++ j :: items)) around)
  | j, [], done, h => by
    have hj := h j List.mem_cons_self
    rw [tokensOfItems, hj, take_arr, List.foldlM_cons, step?, List.reverse_cons]
    rfl
  | j, k :: items, done, h => by
    obtain ⟨hj, hrest⟩ := List.forall_mem_cons.1 h
    have ih := foldlM_items around rest k items (j :: done) hrest
    rw [List.reverse_cons, List.append_assoc] at ih
    rw [tokensOfItems, List.append_assoc, hj, take_arr, List.cons_append, List.foldlM_cons, step?]
    exact ih

theorem foldlM_fields (around : List Level) (rest : List Token) :
    ∀ (field : String × Json) (fields done : List (String × Json)),
      (∀ f ∈ field :: fields, Reads f.2) →
      (tokensOfFields (field :: fields) ++ .closeObj :: rest).foldlM step?
          (.nextKey (done.map fun f => (some f.1, f.2)).reverse around) =
        rest.foldlM step? (take (.obj (done ++ field :: fields)) around)
  | (key, j), [], done, h => by
    have hj := h (key, j) List.mem_cons_self
    have hclose := closeObj_reverse (done ++ [(key, j)])
    rw [List.map_append, List.reverse_append] at hclose
    simp only [tokensOfFields, List.cons_append, List.foldlM_cons, step?, Option.bind_eq_bind,
      Option.bind_some, hj _ (_ :: _), take_obj]
    exact congrArg (fun obj => rest.foldlM step? (take obj around)) hclose
  | (key, j), field :: fields, done, h => by
    obtain ⟨hj, hrest⟩ := List.forall_mem_cons.1 h
    have ih := foldlM_fields around rest field fields (done ++ [(key, j)]) hrest
    rw [List.map_append, List.reverse_append, List.append_assoc] at ih
    simp only [tokensOfFields, List.cons_append, List.append_assoc, List.foldlM_cons, step?,
      Option.bind_eq_bind, Option.bind_some, hj _ (_ :: _), take_obj]
    exact ih

theorem reads (j : Json) : Reads j := by
  intro around rest
  match j with
  | null | bool _ | int _ | str _ | foreign => rfl
  | arr [] => rfl
  | obj [] => rfl
  | arr (j :: items) =>
    have hitems : ∀ k ∈ j :: items, Reads k := fun k hk => reads k
    have hread := foldlM_items around rest j items [] hitems
    rw [tokens, List.cons_append, List.append_assoc, List.singleton_append, List.foldlM_cons]
    refine Eq.trans ?_ hread
    cases items with
    | nil => exact foldlM_firstItem j around _
    | cons k items =>
      rw [tokensOfItems, List.append_assoc]
      exact foldlM_firstItem j around _
  | obj (field :: fields) =>
    have hfields : ∀ f ∈ field :: fields, Reads f.2 := fun f hf => reads f.2
    have hread := foldlM_fields around rest field fields [] hfields
    rw [tokens, List.cons_append, List.append_assoc, List.singleton_append, List.foldlM_cons]
    refine Eq.trans ?_ hread
    -- The key that comes first is read as any key is.
    cases fields <;> rfl
termination_by sizeOf j
decreasing_by
  · exact sizeOf_lt_of_mem_items hk
  · exact sizeOf_lt_of_mem_fields hf

theorem ofTokens?_tokens (j : Json) : ofTokens? j.tokens = some j := by
  have h := reads j [] []
  rw [List.append_nil] at h
  rw [ofTokens?, h]
  rfl

end Reader

namespace Token

section Number

theorem isWordChar_of_isDigit {c : Char} (h : c.isDigit = true) : isWordChar c = true := by
  simp [isWordChar, Char.isAlphanum, h]

theorem isWordChar_of_mem_ofInt {n : Int} {c : Char} (h : c ∈ Numeral.ofInt n) :
    isWordChar c = true := by
  rcases n with n | n
  · exact isWordChar_of_isDigit (Numeral.isDigit_of_mem_ofNat h)
  · rcases List.mem_cons.1 h with rfl | h
    · decide
    · exact isWordChar_of_isDigit (Numeral.isDigit_of_mem_ofNat h)

/-- The digits of a number are a whole number without a needless leading zero, and no tail. -/
theorem whole_ofNat (n : Nat) : (Numeral.ofNat n).takeWhile Char.isDigit = Numeral.ofNat n ∧
    (Numeral.ofNat n).dropWhile Char.isDigit = [] ∧
    ¬((Numeral.ofNat n).isEmpty ∨
      ((Numeral.ofNat n).head? = some '0' ∧ Numeral.ofNat n ≠ ['0'])) := by
  have hdigit : ∀ c ∈ Numeral.ofNat n, c.isDigit = true := fun c => Numeral.isDigit_of_mem_ofNat
  refine ⟨List.takeWhile_eq_self_iff.2 hdigit, List.dropWhile_eq_nil_iff.2 hdigit, ?_⟩
  rintro (hempty | ⟨hhead, hzero⟩)
  · exact Numeral.ofNat_ne_nil n (List.isEmpty_iff.1 hempty)
  · rcases Nat.eq_zero_or_pos n with rfl | hpos
    · exact hzero rfl
    · exact Numeral.head?_ofNat hpos hhead

theorem ofNumber?_ofInt {n : Int} (h : n.natAbs < Numeral.countLimit) :
    ofNumber? (Numeral.ofInt n) = some (int n) := by
  rcases n with n | n
  · have hlt : n < Numeral.countLimit := h
    obtain ⟨htake, hdrop, hwhole⟩ := whole_ofNat n
    obtain ⟨c, cs, hcs, -, hminus⟩ := Numeral.exists_ofNat_eq_cons n
    rw [Numeral.ofInt]
    unfold ofNumber?
    split
    rename_i negative unsigned hsign
    have hplus : (false, Numeral.ofNat n) = (negative, unsigned) := by
      rw [← hsign]
      split
      · rename_i heq
        exact absurd (List.cons.inj (hcs ▸ heq)).1 hminus
      · rfl
    obtain ⟨rfl, rfl⟩ := Prod.mk.inj hplus
    simp only [htake, hdrop, if_neg hwhole, List.isEmpty_nil, Numeral.capped_ofNat hlt, if_true]
    rw [if_neg (by simp; omega)]
    rfl
  · have hlt : n + 1 < Numeral.countLimit := by omega
    obtain ⟨htake, hdrop, hwhole⟩ := whole_ofNat (n + 1)
    rw [Numeral.ofInt]
    unfold ofNumber?
    simp only [htake, hdrop, if_neg hwhole, List.isEmpty_nil, Numeral.capped_ofNat hlt, if_true]
    rw [if_neg (by omega)]
    rfl

theorem ofWord?_ofInt {n : Int} (h : n.natAbs < Numeral.countLimit) :
    ofWord? (Numeral.ofInt n) = some (int n) := by
  -- No name starts with a digit or a minus sign.
  have hhead : ∀ c ∈ (Numeral.ofInt n).head?, c.isDigit = true ∨ c = '-' := by
    intro c hc
    rcases n with n | n
    · exact .inl (Numeral.isDigit_of_mem_ofNat (List.mem_of_mem_head? hc))
    · exact .inr (by simpa [Numeral.ofInt] using hc.symm)
  have hname : ∀ c cs, c.isDigit = false → c ≠ '-' → Numeral.ofInt n ≠ c :: cs := by
    intro c cs hdigit hminus heq
    rcases hhead c (by simp [heq]) with hc | hc
    · simp [hdigit] at hc
    · exact hminus hc
  have hnull := hname 'n' ['u', 'l', 'l'] (by decide) (by decide)
  have htrue := hname 't' ['r', 'u', 'e'] (by decide) (by decide)
  have hfalse := hname 'f' ['a', 'l', 's', 'e'] (by decide) (by decide)
  rw [ofWord?, if_neg hnull, if_neg htrue, if_neg hfalse, ofNumber?_ofInt h]

end Number

section Quoted

variable (tokens : List Token) (units : List Nat)

theorem foldlM_hex4 {n : Nat} (h : n < 65536) :
    (hex4 n).foldlM Scan.step? ⟨tokens, .hex units 0 0⟩ = some ⟨tokens, .quote (n :: units)⟩ := by
  have hdigit : ∀ d < 16, hexValue? (Nat.digitChar d) = some d := by decide
  have hvalue : ((n / 4096 % 16 * 16 + n / 256 % 16) * 16 + n / 16 % 16) * 16 + n % 16 = n := by
    omega
  simp [hex4, Scan.step?, hdigit _ (Nat.mod_lt _ (show 0 < 16 by omega)), hvalue]

/-- A character between quotes is given back, however it is written. -/
theorem foldlM_escaped (c : Char) :
    (escaped c).foldlM Scan.step? ⟨tokens, .quote units⟩ =
      some ⟨tokens, .quote (c.toNat :: units)⟩ := by
  unfold escaped
  split_ifs with hquote hslash hcontrol
  · rw [hquote]
    rfl
  · rw [hslash]
    rfl
  · have hlt : c.toNat < 65536 := by
      rcases hcontrol with hlow | hline
      · omega
      · simp only [List.mem_cons, List.not_mem_nil, or_false] at hline
        rcases hline with rfl | rfl | rfl <;> decide
    exact foldlM_hex4 tokens units hlt
  · have hplain : ¬c.toNat < 0x20 := fun h => hcontrol (.inl h)
    simp [Scan.step?, hquote, hslash, hplain]

theorem foldlM_flatMap_escaped (cs : List Char) :
    (cs.flatMap escaped).foldlM Scan.step? ⟨tokens, .quote units⟩ =
      some ⟨tokens, .quote ((cs.map Char.toNat).reverse ++ units)⟩ := by
  induction cs generalizing units with
  | nil => rfl
  | cons c cs ih =>
    rw [List.flatMap_cons, List.foldlM_append, foldlM_escaped]
    simpa using ih (c.toNat :: units)

/-- Characters are no surrogates, so none are joined. -/
theorem joinUnits?_map_toNat : ∀ cs done : List Char,
    joinUnits? (cs.map Char.toNat) done = some (cs.reverse ++ done)
  | [], done => rfl
  | [c], done => by
    have hvalid : c.toNat.isValidChar := c.valid
    rw [List.map_singleton, joinUnits?, if_pos hvalid, Char.ofNat_toNat]
    rfl
  | c :: d :: cs, done => by
    have hvalid : c.toNat.isValidChar := c.valid
    have hlone : ¬(0xDC00 ≤ c.toNat ∧ c.toNat < 0xE000 ∧ 0xD800 ≤ d.toNat ∧ d.toNat < 0xDC00) := by
      rcases hvalid with h | h <;> omega
    have ih := joinUnits?_map_toNat (d :: cs) (c :: done)
    rw [List.map_cons, List.map_cons, joinUnits?, if_neg hlone, if_pos hvalid, Char.ofNat_toNat]
    simpa using ih

end Quoted

section Scanner

/-- What the scanner has read so far, last first: the finished tokens, and the bare word that it is
in if the word may end here. -/
inductive Scan.Stands : Scan → List Token → Prop
  | gap (tokens : List Token) : Stands ⟨tokens, .gap⟩ tokens
  | word {seen : List Char} {token : Token} (tokens : List Token)
      (h : ofWord? seen.reverse = some token) : Stands ⟨tokens, .word seen⟩ (token :: tokens)

variable {scan : Scan} {tokens left right : List Token} {token : Token} {c : Char}

theorem Scan.Stands.finish? (h : scan.Stands tokens) : scan.finish? = some tokens.reverse := by
  cases h with
  | gap => rfl
  | word tokens h => simp [Scan.finish?, h]

/-- A character of no bare word ends the word before it. -/
theorem Scan.Stands.step? (h : scan.Stands tokens) (hc : isWordChar c = false) :
    scan.step? c = Scan.stepGap? tokens c := by
  cases h with
  | gap => rfl
  | word tokens h => simp [Scan.step?, h, hc]

/-- The scanner gives the tokens back from their spelling when it is between tokens. -/
def Scannable (tokens : List Token) : Prop :=
  ∀ before : List Token, ∃ scan, (tokens.flatMap spelling).foldlM Scan.step? ⟨before, .gap⟩ =
    some scan ∧ scan.Stands (tokens.reverse ++ before)

theorem Scannable.nil : Scannable [] := fun before => ⟨⟨before, .gap⟩, rfl, .gap before⟩

theorem stepGap?_of_ofSign? (tokens : List Token) (h : ofSign? c = some token) :
    isWordChar c = false ∧ Scan.stepGap? tokens c = some ⟨token :: tokens, .gap⟩ := by
  unfold ofSign? at h
  split at h <;> simp only [Option.some.injEq, reduceCtorEq] at h <;> subst h <;> exact ⟨rfl, rfl⟩

/-- A sign ends what is before it, and what is after it starts between tokens. -/
theorem Scannable.sign (hleft : Scannable left) (hright : Scannable right)
    (hspell : token.spelling = [c]) (hsign : ofSign? c = some token) :
    Scannable (left ++ token :: right) := by
  intro before
  obtain ⟨scan, hscan, hstands⟩ := hleft before
  obtain ⟨hword, hstep⟩ := stepGap?_of_ofSign? (left.reverse ++ before) hsign
  obtain ⟨last, hlast, hend⟩ := hright (token :: (left.reverse ++ before))
  refine ⟨last, ?_, by simpa using hend⟩
  rw [List.flatMap_append, List.flatMap_cons, hspell, List.foldlM_append, hscan]
  simp only [Option.bind_eq_bind, Option.bind_some, List.singleton_append, List.foldlM_cons]
  rw [hstands.step? hword, hstep]
  exact hlast

theorem foldlM_word (before : List Token) :
    ∀ (cs seen : List Char), (∀ c ∈ cs, isWordChar c = true) →
      cs.foldlM Scan.step? ⟨before, .word seen⟩ = some ⟨before, .word (cs.reverse ++ seen)⟩
  | [], seen, _ => rfl
  | c :: cs, seen, h => by
    obtain ⟨hc, hcs⟩ := List.forall_mem_cons.1 h
    have ih := foldlM_word before cs (c :: seen) hcs
    have hstep : Scan.step? ⟨before, .word seen⟩ c = some ⟨before, .word (c :: seen)⟩ :=
      if_pos hc
    rw [List.foldlM_cons, hstep]
    simpa using ih

theorem Scannable.word (hne : token.spelling ≠ []) (hword : token.spelling.all isWordChar = true)
    (h : ofWord? token.spelling = some token) : Scannable [token] := by
  intro before
  obtain ⟨c, cs, hcs⟩ := List.exists_cons_of_ne_nil hne
  rw [hcs, List.all_eq_true] at hword
  obtain ⟨hc, hrest⟩ := List.forall_mem_cons.1 hword
  have hgap : isGap c = false := by
    by_contra hgap
    simp only [isGap, Bool.not_eq_false, Bool.or_eq_true, beq_iff_eq] at hgap
    rcases hgap with ((rfl | rfl) | rfl) | rfl <;> simp [isWordChar] at hc
  have hquote : c ≠ '"' := by
    rintro rfl
    simp [isWordChar] at hc
  have hstep : Scan.step? ⟨before, .gap⟩ c = some ⟨before, .word [c]⟩ := by
    simp [Scan.step?, Scan.stepGap?, hgap, hquote, hc]
  refine ⟨⟨before, .word (cs.reverse ++ [c])⟩, ?_, .word before (by simpa [← hcs] using h)⟩
  rw [List.flatMap_singleton, hcs, List.foldlM_cons, hstep]
  exact foldlM_word before cs [c] hrest

theorem Scannable.quoted (text : String) : Scannable [.quoted (some text)] := by
  intro before
  refine ⟨⟨.quoted (some text) :: before, .gap⟩, ?_, .gap _⟩
  have hopen : Scan.step? ⟨before, .gap⟩ '"' = some ⟨before, .quote []⟩ := rfl
  have hclose : Scan.step? ⟨before, .quote ((text.toList.map Char.toNat).reverse ++ [])⟩ '"' =
      some ⟨.quoted (some text) :: before, .gap⟩ := by
    have hjoin := joinUnits?_map_toNat text.toList.reverse []
    rw [List.append_nil, List.reverse_reverse, List.map_reverse] at hjoin
    simp [Scan.step?, hjoin]
  rw [List.flatMap_singleton, spelling, List.foldlM_cons, hopen]
  simp only [Option.bind_eq_bind, Option.bind_some, List.foldlM_append, foldlM_flatMap_escaped,
    List.foldlM_cons, hclose]
  rfl

end Scanner

end Token

/-- Every number in the value is a count up to its sign. -/
inductive Bounded : Json → Prop
  | null : Bounded null
  | bool (b : Bool) : Bounded (bool b)
  | int {n : Int} (h : n.natAbs < Numeral.countLimit) : Bounded (int n)
  | str (s : String) : Bounded (str s)
  | arr {items : List Json} (h : ∀ j ∈ items, Bounded j) : Bounded (arr items)
  | obj {fields : List (String × Json)} (h : ∀ field ∈ fields, Bounded field.2) :
    Bounded (obj fields)
  | foreign : Bounded foreign

theorem scannable_items : ∀ {items : List Json}, (∀ j ∈ items, Token.Scannable j.tokens) →
    Token.Scannable (tokensOfItems items)
  | [], _ => .nil
  | [j], h => by
    rw [tokensOfItems]
    exact h j List.mem_cons_self
  | j :: k :: items, h => by
    obtain ⟨hj, hrest⟩ := List.forall_mem_cons.1 h
    rw [tokensOfItems]
    exact hj.sign (scannable_items hrest) rfl rfl

theorem scannable_fields : ∀ {fields : List (String × Json)},
    (∀ field ∈ fields, Token.Scannable field.2.tokens) → Token.Scannable (tokensOfFields fields)
  | [], _ => .nil
  | [(key, j)], h => by
    rw [tokensOfFields]
    exact (Token.Scannable.quoted key).sign (h _ List.mem_cons_self) rfl rfl
  | (key, j) :: field :: fields, h => by
    obtain ⟨hj, hrest⟩ := List.forall_mem_cons.1 h
    rw [tokensOfFields]
    exact (Token.Scannable.quoted key).sign (hj.sign (scannable_fields hrest) rfl rfl) rfl rfl

theorem Bounded.scannable {j : Json} (h : j.Bounded) : Token.Scannable j.tokens := by
  induction h with
  | null => exact .word (by simp [Token.spelling]) rfl rfl
  | bool b => cases b <;> exact .word (by simp [Token.spelling]) rfl rfl
  | foreign => exact .word (by simp [Token.spelling]) rfl rfl
  | @int n h =>
    have hne : Numeral.ofInt n ≠ [] := by
      rcases n with n | n
      · exact Numeral.ofNat_ne_nil n
      · exact List.cons_ne_nil _ _
    have hword : (Numeral.ofInt n).all Token.isWordChar = true :=
      List.all_eq_true.2 fun c => Token.isWordChar_of_mem_ofInt
    exact .word hne hword (Token.ofWord?_ofInt h)
  | str s => exact .quoted s
  | arr _ ih =>
    exact Token.Scannable.nil.sign ((scannable_items ih).sign .nil rfl rfl) rfl rfl
  | obj _ ih =>
    exact Token.Scannable.nil.sign ((scannable_fields ih).sign .nil rfl rfl) rfl rfl

theorem ofText?_text {j : Json} (h : j.Bounded) : ofText? j.text = some j := by
  obtain ⟨scan, hscan, hstands⟩ := h.scannable []
  rw [ofText?, text, String.toList_ofList, Token.scan?, hscan, Option.bind_some, hstands.finish?]
  simpa using ofTokens?_tokens j

end PregroupGrammar.Json
