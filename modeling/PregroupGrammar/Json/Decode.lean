import PregroupGrammar.Json.Basic
import PregroupGrammar.Text.Numeral

/-!
# Decoding JSON values

How texts, numbers, lists, records and choices are read from a JSON value. A record is an object
with a field for each of its parts, or an array of its parts in order. A choice is the name of an
alternative, or an object whose single key is that name and whose value goes with it.

The two `_lt` lemmas say that what a record or a choice holds is smaller than the record or choice,
which is what recursive decoders terminate by.
-/

namespace PregroupGrammar.Json

/-- A text. -/
def str? : Json → Option String
  | str s => some s
  | _ => none

/-- A truth value. -/
def bool? : Json → Option Bool
  | bool b => some b
  | _ => none

/-- An integer of any size. -/
def int? : Json → Option Int
  | int n => some n
  | _ => none

/-- A count. -/
def count? (j : Json) : Option Nat :=
  j.int?.bind Numeral.toCount?

/-- The items of an array. -/
def items? : Json → Option (List Json)
  | arr items => some items
  | _ => none

/-- An array of values that all decode. -/
def list? {α : Type} (decode : Json → Option α) (j : Json) : Option (List α) :=
  j.items?.bind (·.mapM decode)

/-- A pair, as an array of two values. -/
def pair? {α β : Type} (left : Json → Option α) (right : Json → Option β) :
    Json → Option (α × β)
  | arr [a, b] => do return (← left a, ← right b)
  | _ => none

/-- A value that may be `null` or left out. -/
def optional? {α : Type} (decode : Json → Option α) : Option Json → Option (Option α)
  | none => some none
  | some null => some none
  | some j => (decode j).map some

/-- What an object gives for a key: nothing, or one value. Fails if the key is there twice. -/
def field? (fields : List (String × Json)) (key : String) : Option (Option Json) :=
  match fields.filter (·.1 == key) with
  | [] => some none
  | [(_, j)] => some (some j)
  | _ => none

/-- What a record gives for each of the keys, in the order of the keys. An object may have other
fields, which are passed over; an array has at least `least` items and at most one for each key. -/
def record? (keys : List String) (least : Nat) : Json → Option (List (Option Json))
  | obj fields => keys.mapM (field? fields)
  | arr items =>
    if least ≤ items.length ∧ items.length ≤ keys.length then
      some ((List.range keys.length).map (items[·]?))
    else none
  | _ => none

/-- The parts of a record that has no optional parts. -/
def parts? (keys : List String) (j : Json) : Option (List Json) :=
  (j.record? keys keys.length).bind (·.mapM id)

/-- The name of the chosen alternative and the value that goes with it, if there is one. -/
def choice? : Json → Option (String × Option Json)
  | str name => some (name, none)
  | obj [(name, j)] => some (name, some j)
  | _ => none

/-- Whether nothing goes with the name of an alternative: no value, or `null`. -/
def isBare : Option Json → Bool
  | none | some null => true
  | some _ => false

theorem sizeOf_lt_of_mem_items {j : Json} {items : List Json} (h : j ∈ items) :
    sizeOf j < sizeOf (arr items) := by
  have := List.sizeOf_lt_of_mem h
  simp only [arr.sizeOf_spec]
  omega

theorem sizeOf_lt_of_mem_fields {key : String} {j : Json} {fields : List (String × Json)}
    (h : (key, j) ∈ fields) : sizeOf j < sizeOf (obj fields) := by
  have := List.sizeOf_lt_of_mem h
  simp only [Prod.mk.sizeOf_spec] at this
  simp only [obj.sizeOf_spec]
  omega

theorem mem_of_field? {fields : List (String × Json)} {key : String} {j : Json}
    (h : field? fields key = some (some j)) : (key, j) ∈ fields := by
  unfold field? at h
  split at h
  · simp at h
  · next name k hf =>
    have hm : (name, k) ∈ fields.filter (·.1 == key) := by simp [hf]
    obtain ⟨hmem, hkey⟩ := List.mem_filter.1 hm
    simp only [Option.some.injEq] at h
    rw [← h, ← eq_of_beq hkey]
    exact hmem
  · simp at h

theorem mapM_mem {α β : Type} {f : α → Option β} :
    ∀ {l : List α} {r : List β} {b : β}, l.mapM f = some r → b ∈ r → ∃ a ∈ l, f a = some b
  | [], r, b, h, hb => by simp_all
  | a :: l, r, b, h, hb => by
    simp only [List.mapM_cons, Option.pure_def, Option.bind_eq_bind, Option.bind_eq_some_iff] at h
    obtain ⟨c, hc, rest, hrest, hr⟩ := h
    simp only [Option.some.injEq] at hr
    subst hr
    rcases List.mem_cons.1 hb with rfl | hb
    · exact ⟨a, by simp, hc⟩
    · obtain ⟨a', ha', h'⟩ := mapM_mem hrest hb
      exact ⟨a', by simp [ha'], h'⟩

/-- Every part of a record is smaller than the record. -/
theorem record?_lt {keys : List String} {least : Nat} {j k : Json} {parts : List (Option Json)}
    (h : j.record? keys least = some parts) (hk : some k ∈ parts) : sizeOf k < sizeOf j := by
  unfold record? at h
  split at h
  · obtain ⟨key, -, hf⟩ := mapM_mem h hk
    exact sizeOf_lt_of_mem_fields (mem_of_field? hf)
  · next items =>
    split at h
    · simp only [Option.some.injEq] at h
      subst h
      obtain ⟨i, -, hi⟩ := List.mem_map.1 hk
      exact sizeOf_lt_of_mem_items (List.mem_of_getElem? hi)
    · simp at h
  · simp at h

/-- Every part of a record without optional parts is smaller than the record. -/
theorem parts?_lt {keys : List String} {j k : Json} {parts : List Json}
    (h : j.parts? keys = some parts) (hk : k ∈ parts) : sizeOf k < sizeOf j := by
  obtain ⟨given, hg, hp⟩ := Option.bind_eq_some_iff.1 h
  obtain ⟨a, ha, haeq⟩ := mapM_mem hp hk
  exact record?_lt hg (by simpa [← haeq] using ha)

/-- The value that goes with a choice is smaller than the choice. -/
theorem choice?_lt {j k : Json} {name : String} (h : j.choice? = some (name, some k)) :
    sizeOf k < sizeOf j := by
  unfold choice? at h
  split at h
  · simp at h
  · next n v =>
    simp only [Option.some.injEq, Prod.mk.injEq] at h
    obtain ⟨-, rfl⟩ := h
    exact sizeOf_lt_of_mem_fields (List.mem_singleton.2 rfl)
  · simp at h

end PregroupGrammar.Json
