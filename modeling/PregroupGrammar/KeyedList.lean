import Std.Data.HashMap

/-!
# Lists to look things up in

A list of values under names, with a hash map that finds what the list holds first under a name
(`find?_eq_lookup`) without going through it.
-/

namespace PregroupGrammar

namespace KeyedList

/-- What the pairs hold first under each name. -/
def firsts {α : Type} (pairs : List (String × α)) : Std.HashMap String α :=
  pairs.foldr (fun pair found => found.insert pair.1 pair.2) ∅

end KeyedList

/-- Values under names, in order, ready to be looked up. -/
structure KeyedList (α : Type) where
  pairs : List (String × α)
  found : Std.HashMap String α
  found_eq : found = KeyedList.firsts pairs
deriving Repr

namespace KeyedList

variable {α : Type}

/-- The pairs, ready to be looked up. -/
def ofPairs (pairs : List (String × α)) : KeyedList α :=
  ⟨pairs, firsts pairs, rfl⟩

/-- The first value under the name. -/
def find? (list : KeyedList α) (name : String) : Option α :=
  list.found[name]?

theorem firsts_getElem? (pairs : List (String × α)) (name : String) :
    (firsts pairs)[name]? = pairs.lookup name := by
  induction pairs with
  | nil => simp [firsts]
  | cons pair pairs ih =>
    rw [firsts, List.foldr_cons, Std.HashMap.getElem?_insert, ← firsts, ih, List.lookup_cons]
    by_cases h : name = pair.1
    · simp [h]
    · simp [Ne.symm h, beq_false_of_ne h]

theorem find?_eq_lookup (list : KeyedList α) (name : String) :
    list.find? name = list.pairs.lookup name := by
  rw [find?, list.found_eq, firsts_getElem?]

theorem mem_of_lookup_eq_some {pairs : List (String × α)} {name : String} {a : α}
    (h : pairs.lookup name = some a) : (name, a) ∈ pairs := by
  obtain ⟨front, back, rfl, -⟩ := List.lookup_eq_some_iff.1 h
  simp

theorem eq_of_pairs_eq {a b : KeyedList α} (h : a.pairs = b.pairs) : a = b := by
  obtain ⟨pairs, found, rfl⟩ := a
  obtain ⟨pairs', found', rfl⟩ := b
  obtain rfl : pairs = pairs' := h
  rfl

instance [DecidableEq α] : DecidableEq (KeyedList α) := fun a b =>
  decidable_of_iff (a.pairs = b.pairs) ⟨eq_of_pairs_eq, fun h => h ▸ rfl⟩

end KeyedList

end PregroupGrammar
