import Mathlib.Data.List.Nodup
import PregroupGrammar.Grammar.Draft
import PregroupGrammar.Proofs.Fallible

/-!
# Compiled tables

What holds of every table that is compiled without an error, and stays so while rules are added: its
index numbers the declared types in order and the dummy type after them, no type is declared twice
or under the name of the dummy, and the matrix is true on its diagonal (`Compiled`). So the table
knows the declared names and that of the dummy (`Compiled.contains_iff`), and every name that it
knows reduces to itself (`Compiled.namesReduce_self`).
-/

namespace PregroupGrammar

open Fallible

namespace ReductionTable

variable {table table' : ReductionTable} {name source target : String}

theorem indexOf_eq_ok {i : Nat} :
    table.indexOf name = .ok i ↔ table.index.pairs.lookup name = some i := by
  unfold indexOf
  rw [KeyedList.find?_eq_lookup]
  rcases table.index.pairs.lookup name with _ | j
  · exact ⟨nofun, nofun⟩
  · simp only [Except.ok.injEq, Option.some.injEq]

theorem contains_iff_indexOf : table.contains name = true ↔ ∃ i, table.indexOf name = .ok i := by
  simp only [indexOf_eq_ok, contains, KeyedList.find?_eq_lookup, Option.isSome_iff_exists]

theorem namesReduce_eq_ok {r : Bool} :
    table.namesReduce source target = .ok r ↔
      ∃ i j, table.indexOf source = .ok i ∧ table.indexOf target = .ok j ∧ table.entry i j = r := by
  unfold namesReduce
  constructor
  · intro h
    obtain ⟨i, hi, h⟩ := bind_eq_ok.1 h
    obtain ⟨j, hj, h⟩ := bind_eq_ok.1 h
    exact ⟨i, j, hi, hj, Except.ok.inj h⟩
  · rintro ⟨i, j, hi, hj, rfl⟩
    exact bind_eq_ok.2 ⟨i, hi, bind_eq_ok.2 ⟨j, hj, rfl⟩⟩

/-- Names that the table knows can be compared. -/
theorem namesReduce_total (hs : table.contains source = true) (ht : table.contains target = true) :
    ∃ r, table.namesReduce source target = .ok r := by
  obtain ⟨i, hi⟩ := contains_iff_indexOf.1 hs
  obtain ⟨j, hj⟩ := contains_iff_indexOf.1 ht
  exact ⟨_, namesReduce_eq_ok.2 ⟨i, j, hi, hj, rfl⟩⟩

theorem indexOf_of_not_contains (h : ¬ table.contains name = true) :
    table.indexOf name = .error (.unknownAtomType name) := by
  unfold contains at h
  unfold indexOf
  rw [Option.not_isSome_iff_eq_none.1 h]

/-- A comparison fails at the name on the left if the table does not know it. -/
theorem namesReduce_of_unknown_source (hs : ¬ table.contains source = true) :
    table.namesReduce source target = .error (.unknownAtomType source) :=
  bind_eq_error.2 (.inl (indexOf_of_not_contains hs))

theorem namesReduce_of_unknown_target (hs : table.contains source = true)
    (ht : ¬ table.contains target = true) :
    table.namesReduce source target = .error (.unknownAtomType target) := by
  obtain ⟨i, hi⟩ := contains_iff_indexOf.1 hs
  exact bind_eq_error.2 (.inr ⟨i, hi, bind_eq_error.2 (.inl (indexOf_of_not_contains ht))⟩)

/-- A table as it is compiled from an inventory, with any number of its rules added. -/
structure Compiled (table : ReductionTable) : Prop where
  pairs_eq : table.index.pairs = table.inventory.zipIdx ++ [(table.dummy, table.size)]
  nodup : table.inventory.Nodup
  dummy_notMem : table.dummy ∉ table.inventory
  matrix_size : table.matrix.size = table.width * table.width
  diagonal : ∀ i < table.width, table.entry i i = true

/-- Numbering gives the positions in the inventory. It succeeds if no name occurs twice and none is
that of the dummy. -/
theorem number_fold {dummy : String} : ∀ (l : List String) (k : Nat)
    {index result : List (String × Nat)},
    (l.zipIdx k).foldlM
      (fun index (name, i) =>
        if name = dummy then .error (.dummyCollision name)
        else if (index.lookup name).isSome then .error (.duplicateAtomType name)
        else .ok (index ++ [(name, i)])) index = (.ok result : Except Error _) ↔
    result = index ++ l.zipIdx k ∧ l.Nodup ∧ dummy ∉ l ∧ ∀ name ∈ l, index.lookup name = none
  | [], k, index, result => by
    simpa [pure, Except.pure] using eq_comm
  | name :: l, k, index, result => by
    have hlater : (∀ other ∈ l, (index ++ [(name, k)]).lookup other = none) ↔
        name ∉ l ∧ ∀ other ∈ l, index.lookup other = none := by
      simp only [List.lookup_append, Option.or_eq_none_iff]
      constructor
      · intro h
        exact ⟨fun hm => by simpa using (h name hm).2, fun other ho => (h other ho).1⟩
      · rintro ⟨hm, h⟩ other ho
        exact ⟨h other ho, by simp [show other ≠ name from fun he => hm (he ▸ ho)]⟩
    rw [List.zipIdx_cons, List.foldlM_cons, bind_eq_ok, List.forall_mem_cons, List.nodup_cons,
      List.mem_cons, not_or]
    constructor
    · rintro ⟨index₁, h₁, h⟩
      simp only at h₁
      split_ifs at h₁ with hd hs
      obtain rfl := Except.ok.inj h₁
      obtain ⟨hr, hnodup, hdummy, hfree⟩ := (number_fold l (k + 1)).1 h
      obtain ⟨hm, hfree⟩ := hlater.1 hfree
      exact ⟨by simp [hr], ⟨hm, hnodup⟩, ⟨Ne.symm hd, hdummy⟩,
        Option.not_isSome_iff_eq_none.1 hs, hfree⟩
    · rintro ⟨rfl, ⟨hm, hnodup⟩, ⟨hd, hdummy⟩, hname, hfree⟩
      refine ⟨index ++ [(name, k)], by simp [Ne.symm hd, hname], ?_⟩
      exact (number_fold l (k + 1)).2 ⟨by simp, hnodup, hdummy, hlater.2 ⟨hm, hfree⟩⟩

theorem number_eq_ok {dummy : String} {inventory : List String} {index : List (String × Nat)} :
    number dummy inventory = .ok index ↔
      index = inventory.zipIdx ∧ inventory.Nodup ∧ dummy ∉ inventory := by
  unfold number
  rw [number_fold]
  simp

theorem diagonal_size (width : Nat) : (diagonal width).size = width * width := by
  simp [diagonal]

section Cells

variable {width row column : Nat} (hc : column < width)
include hc

theorem cell_div : (row * width + column) / width = row := by
  rw [Nat.mul_comm, Nat.mul_add_div (Nat.zero_lt_of_lt hc), Nat.div_eq_of_lt hc, Nat.add_zero]

theorem cell_mod : (row * width + column) % width = column := by
  rw [Nat.mul_comm, Nat.mul_add_mod, Nat.mod_eq_of_lt hc]

theorem cell_lt (hr : row < width) : row * width + column < width * width :=
  calc row * width + column < row * width + width := by omega
    _ = (row + 1) * width := by rw [Nat.succ_mul]
    _ ≤ width * width := Nat.mul_le_mul_right _ hr

/-- Different cells of the matrix are kept in different places. -/
theorem cell_inj {row' column' : Nat} (hc' : column' < width) :
    row * width + column = row' * width + column' ↔ row = row' ∧ column = column' := by
  constructor
  · intro h
    have hrow := congrArg (· / width) h
    have hcolumn := congrArg (· % width) h
    simp only [cell_div hc, cell_div hc', cell_mod hc, cell_mod hc'] at hrow hcolumn
    exact ⟨hrow, hcolumn⟩
  · rintro ⟨rfl, rfl⟩
    rfl

theorem diagonal_getElem? (hr : row < width) :
    (diagonal width)[row * width + column]? = some (row == column) := by
  rw [diagonal, Array.getElem?_ofFn, dif_pos (cell_lt hc hr)]
  simp only [cell_div hc, cell_mod hc]

end Cells

theorem compiled_ofParts {inventory : List String} {dummy : String} {index : List (String × Nat)}
    (h : number dummy inventory = .ok index) :
    Compiled (ofParts inventory dummy (index ++ [(dummy, inventory.length)])
      (diagonal (inventory.length + 1))) := by
  obtain ⟨rfl, hnodup, hdummy⟩ := number_eq_ok.1 h
  refine ⟨rfl, hnodup, hdummy, diagonal_size _, fun i hi => ?_⟩
  have hdiag : (diagonal (inventory.length + 1))[i * (inventory.length + 1) + i]? = _ :=
    diagonal_getElem? hi hi
  simp only [entry, width, ofParts, hdiag, Option.getD_some, beq_self_eq_true]

/-- A rule between known names makes one entry of the matrix true. -/
theorem addRule_eq_ok {rule : String × String} :
    table.addRule rule = .ok table' ↔
      ∃ row column, table.indexOf rule.1 = .ok row ∧ table.indexOf rule.2 = .ok column ∧
        table' = { table with
          matrix := table.matrix.setIfInBounds (row * table.width + column) true } := by
  unfold addRule
  constructor
  · intro h
    obtain ⟨row, hrow, h⟩ := bind_eq_ok.1 h
    obtain ⟨column, hcolumn, h⟩ := bind_eq_ok.1 h
    exact ⟨row, column, hrow, hcolumn, (Except.ok.inj h).symm⟩
  · rintro ⟨row, column, hrow, hcolumn, rfl⟩
    exact bind_eq_ok.2 ⟨row, hrow, bind_eq_ok.2 ⟨column, hcolumn, rfl⟩⟩

theorem Compiled.addRule {rule : String × String} (hc : Compiled table)
    (h : table.addRule rule = .ok table') : Compiled table' := by
  obtain ⟨row, column, -, -, rfl⟩ := addRule_eq_ok.1 h
  refine ⟨hc.pairs_eq, hc.nodup, hc.dummy_notMem, ?_, fun i hi => ?_⟩
  · rw [Array.size_setIfInBounds]
    exact hc.matrix_size
  · have hdiag := hc.diagonal i hi
    simp only [entry, width, Array.getElem?_setIfInBounds] at hdiag ⊢
    split_ifs
    · rfl
    · simp_all
    · exact hdiag

theorem compiled_of_make {inventory : List String} {dummy : String}
    {rules : List (String × String)} (h : make inventory dummy rules = .ok table) :
    Compiled table ∧ table.inventory = inventory ∧ table.dummy = dummy := by
  unfold make at h
  obtain ⟨index, hn, h⟩ := bind_eq_ok.1 h
  have hstep : ∀ t rule t', (Compiled t ∧ t.inventory = inventory ∧ t.dummy = dummy) →
      t.addRule rule = .ok t' → Compiled t' ∧ t'.inventory = inventory ∧ t'.dummy = dummy := by
    intro t rule t' ht hr
    refine ⟨ht.1.addRule hr, ?_⟩
    obtain ⟨row, column, -, -, rfl⟩ := addRule_eq_ok.1 hr
    exact ht.2
  exact foldlM_keeps hstep rules ⟨compiled_ofParts hn, rfl, rfl⟩ h

namespace Compiled

variable (h : Compiled table)
include h

/-- The table knows the declared names and that of the dummy. -/
theorem contains_iff :
    table.contains name = true ↔ name ∈ table.inventory ∨ name = table.dummy := by
  rw [contains, KeyedList.find?_eq_lookup, h.pairs_eq, List.lookup_append, Option.isSome_or,
    Bool.or_eq_true, List.lookup_isSome_iff, List.lookup_isSome_iff]
  constructor
  · rintro (⟨⟨other, i⟩, hm, hname⟩ | ⟨⟨other, i⟩, hm, hname⟩) <;> rw [beq_iff_eq] at hname
    · exact .inl (hname ▸ List.fst_mem_of_mem_zipIdx hm)
    · simp only [List.mem_singleton, Prod.mk.injEq] at hm
      exact .inr (hname.trans hm.1)
  · rintro (hm | rfl)
    · obtain ⟨i, hi⟩ := List.mem_iff_getElem?.1 hm
      exact .inl ⟨(name, i), List.mk_mem_zipIdx_iff_getElem?.2 hi, beq_self_eq_true name⟩
    · exact .inr ⟨_, List.mem_singleton_self _, beq_self_eq_true _⟩

/-- The number of a name is its place in the inventory, with the dummy after the last. -/
theorem indexOf_eq_ok_iff {i : Nat} :
    table.indexOf name = .ok i ↔ (table.inventory ++ [table.dummy])[i]? = some name := by
  have hpairs : table.index.pairs = (table.inventory ++ [table.dummy]).zipIdx := by
    rw [h.pairs_eq, List.zipIdx_append, table.size_eq]
    simp
  have hnodup : (table.inventory ++ [table.dummy]).Nodup := by
    rw [← List.concat_eq_append, List.nodup_concat]
    exact ⟨h.dummy_notMem, h.nodup⟩
  rw [indexOf_eq_ok, hpairs, ← List.mk_mem_zipIdx_iff_getElem?]
  constructor
  · exact KeyedList.mem_of_lookup_eq_some
  · intro hm
    obtain ⟨j, hj⟩ := Option.isSome_iff_exists.1 (List.lookup_isSome_iff.2 ⟨_, hm, BEq.rfl⟩)
    have hm' := KeyedList.mem_of_lookup_eq_some hj
    rw [List.mk_mem_zipIdx_iff_getElem?] at hm hm'
    obtain ⟨hi, -⟩ := List.getElem?_eq_some_iff.1 hm
    rw [hj, (List.getElem?_inj hi hnodup).1 (hm.trans hm'.symm)]

theorem indexOf_lt {i : Nat} (hi : table.indexOf name = .ok i) : i < table.width := by
  obtain ⟨hlt, -⟩ := List.getElem?_eq_some_iff.1 (h.indexOf_eq_ok_iff.1 hi)
  rwa [List.length_append, List.length_singleton, ← table.size_eq] at hlt

/-- A name that the table knows reduces to itself. -/
theorem namesReduce_self (hn : table.contains name = true) :
    table.namesReduce name name = .ok true := by
  obtain ⟨i, hi⟩ := contains_iff_indexOf.1 hn
  exact namesReduce_eq_ok.2 ⟨i, i, hi, hi, h.diagonal i (h.indexOf_lt hi)⟩

theorem contains_dummy : table.contains table.dummy = true :=
  h.contains_iff.2 (.inr rfl)

theorem contains_of_mem (hn : name ∈ table.inventory) : table.contains name = true :=
  h.contains_iff.2 (.inl hn)

end Compiled

end ReductionTable

end PregroupGrammar
