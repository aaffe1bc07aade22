import Mathlib.Data.List.Nodup
import Mathlib.Data.List.ProdSigma
import PregroupGrammar.Proofs.CompiledTable

/-!
# What a compiled table answers

A table is compiled from an inventory, a dummy name and rules. An entry of its matrix is true just
where a name meets itself or the target of one of the rules (`Answers`): so it is in the table
without rules (`answers_ofParts`), one more rule changes the entry of that rule and no other
(`entry_addRule`, `Answers.addRule`), and so it stays through all rules (`Answers.foldlM`).

So the table can be compiled if its declaration makes sense, and it then means what was declared
(`make_means_declaration`).
-/

namespace PregroupGrammar

open Fallible

namespace ReductionTable

/-- The name is in the inventory or is that of the dummy. -/
def IsDeclared (inventory : List String) (dummy name : String) : Prop :=
  name ∈ inventory ∨ name = dummy

instance (inventory : List String) (dummy name : String) :
    Decidable (IsDeclared inventory dummy name) :=
  inferInstanceAs (Decidable (_ ∨ _))

variable {table table' : ReductionTable} {rules : List (String × String)} {dummy : String}
  {inventory : List String}

/-- The table is compiled, and its matrix is true where a name meets itself or the target of a
rule. -/
structure Answers (table : ReductionTable) (rules : List (String × String)) : Prop where
  compiled : table.Compiled
  entry_iff : ∀ {a b : String} {i j : Nat}, table.indexOf a = .ok i → table.indexOf b = .ok j →
    (table.entry i j = true ↔ a = b ∨ (a, b) ∈ rules)

theorem Compiled.isDeclared_iff (h : table.Compiled) {name : String} :
    IsDeclared table.inventory table.dummy name ↔ table.contains name = true :=
  h.contains_iff.symm

theorem Compiled.indexOf_inj (h : table.Compiled) {a b : String} {i j : Nat}
    (ha : table.indexOf a = .ok i) (hb : table.indexOf b = .ok j) : i = j ↔ a = b := by
  constructor
  · rintro rfl
    rw [h.indexOf_eq_ok_iff] at ha hb
    exact Option.some.inj (ha.symm.trans hb)
  · rintro rfl
    exact Except.ok.inj (ha.symm.trans hb)

theorem answers_ofParts {index : List (String × Nat)} (h : number dummy inventory = .ok index) :
    Answers (ofParts inventory dummy (index ++ [(dummy, inventory.length)])
      (diagonal (inventory.length + 1))) [] := by
  have hc := compiled_ofParts h
  refine ⟨hc, fun {a b i j} ha hb => ?_⟩
  have hcell : (diagonal (inventory.length + 1))[i * (inventory.length + 1) + j]? = _ :=
    diagonal_getElem? (hc.indexOf_lt hb) (hc.indexOf_lt ha)
  simp only [entry, width, ofParts, hcell, Option.getD_some, beq_iff_eq, List.not_mem_nil, or_false]
  exact hc.indexOf_inj ha hb

theorem entry_addRule {row column i j : Nat} (hsize : table.matrix.size = table.width * table.width)
    (hrow : row < table.width) (hcolumn : column < table.width) (hj : j < table.width) :
    entry { table with matrix := table.matrix.setIfInBounds (row * table.width + column) true } i j
        = true ↔ table.entry i j = true ∨ i = row ∧ j = column := by
  have hin : row * table.width + column < table.matrix.size := hsize ▸ cell_lt hcolumn hrow
  simp only [entry, width] at hin ⊢
  rw [Array.getElem?_setIfInBounds, if_pos hin]
  split_ifs with hat
  · simp only [Option.getD_some, true_iff]
    exact .inr ((cell_inj hj hcolumn).1 hat.symm)
  · refine ⟨.inl, fun h => h.resolve_right fun hsame => hat ?_⟩
    rw [hsame.1, hsame.2]

theorem Answers.addRule {rule : String × String} (h : Answers table rules)
    (hr : table.addRule rule = .ok table') : Answers table' (rules ++ [rule]) := by
  refine ⟨h.compiled.addRule hr, fun {a b i j} ha hb => ?_⟩
  obtain ⟨row, column, hrow, hcolumn, rfl⟩ := addRule_eq_ok.1 hr
  have hc := h.compiled
  change table.indexOf a = .ok i at ha
  change table.indexOf b = .ok j at hb
  rw [entry_addRule hc.matrix_size (hc.indexOf_lt hrow) (hc.indexOf_lt hcolumn) (hc.indexOf_lt hb),
    h.entry_iff ha hb, hc.indexOf_inj ha hrow, hc.indexOf_inj hb hcolumn, List.mem_append,
    List.mem_singleton, Prod.ext_iff, or_assoc]

theorem Answers.foldlM : ∀ (more : List (String × String)) {rules : List (String × String)}
    {table table' : ReductionTable}, Answers table rules →
    more.foldlM ReductionTable.addRule table = .ok table' →
      Answers table' (rules ++ more) ∧ table'.inventory = table.inventory ∧
        table'.dummy = table.dummy ∧
        ∀ rule ∈ more, table.contains rule.1 = true ∧ table.contains rule.2 = true
  | [], rules, table, table', h, hfold => by
    obtain rfl : table = table' := Except.ok.inj hfold
    exact ⟨by rwa [List.append_nil], rfl, rfl, by simp⟩
  | rule :: more, rules, table, table', h, hfold => by
    rw [List.foldlM_cons, bind_eq_ok] at hfold
    obtain ⟨next, hnext, hfold⟩ := hfold
    obtain ⟨hanswers, hinventory, hdummy, hmore⟩ := Answers.foldlM more (h.addRule hnext) hfold
    obtain ⟨row, column, hrow, hcolumn, rfl⟩ := addRule_eq_ok.1 hnext
    rw [List.append_assoc] at hanswers
    refine ⟨hanswers, hinventory, hdummy, List.forall_mem_cons.2 ⟨⟨?_, ?_⟩, hmore⟩⟩
    · exact contains_iff_indexOf.2 ⟨row, hrow⟩
    · exact contains_iff_indexOf.2 ⟨column, hcolumn⟩

theorem foldlM_addRule_total (h : ∀ rule ∈ rules,
    table.contains rule.1 = true ∧ table.contains rule.2 = true) :
    ∃ table', rules.foldlM ReductionTable.addRule table = .ok table' := by
  have hstep : ∀ (t : ReductionTable) (rule : String × String), t.index = table.index →
      rule ∈ rules → ∃ t', t.addRule rule = .ok t' ∧ t'.index = table.index := by
    intro t rule ht hrule
    have hsame : ∀ name, t.contains name = table.contains name := fun name => by
      rw [contains, contains, ht]
    obtain ⟨hsource, htarget⟩ := h rule hrule
    obtain ⟨row, hrow⟩ := contains_iff_indexOf.1 ((hsame rule.1).trans hsource)
    obtain ⟨column, hcolumn⟩ := contains_iff_indexOf.1 ((hsame rule.2).trans htarget)
    exact ⟨_, addRule_eq_ok.2 ⟨row, column, hrow, hcolumn, rfl⟩, ht⟩
  obtain ⟨table', htable', -⟩ := foldlM_total rules hstep rfl
  exact ⟨table', htable'⟩

theorem answers_of_make (h : make inventory dummy rules = .ok table) :
    Answers table rules ∧ table.inventory = inventory ∧ table.dummy = dummy ∧
      ∀ rule ∈ rules, IsDeclared inventory dummy rule.1 ∧ IsDeclared inventory dummy rule.2 := by
  unfold make at h
  obtain ⟨index, hn, h⟩ := bind_eq_ok.1 h
  have hstart := answers_ofParts hn
  obtain ⟨hanswers, hinventory, hdummy, hrules⟩ := hstart.foldlM rules h
  refine ⟨hanswers, hinventory, hdummy, fun rule hrule => ?_⟩
  obtain ⟨hsource, htarget⟩ := hrules rule hrule
  exact ⟨hstart.compiled.isDeclared_iff.2 hsource, hstart.compiled.isDeclared_iff.2 htarget⟩

theorem exists_make_iff : (∃ table, make inventory dummy rules = .ok table) ↔
    inventory.Nodup ∧ dummy ∉ inventory ∧
      ∀ rule ∈ rules, IsDeclared inventory dummy rule.1 ∧ IsDeclared inventory dummy rule.2 := by
  constructor
  · rintro ⟨table, h⟩
    obtain ⟨hanswers, rfl, rfl, hrules⟩ := answers_of_make h
    exact ⟨hanswers.compiled.nodup, hanswers.compiled.dummy_notMem, hrules⟩
  · rintro ⟨hnodup, hdummy, hrules⟩
    have hn : number dummy inventory = .ok inventory.zipIdx := number_eq_ok.2 ⟨rfl, hnodup, hdummy⟩
    have hstart := compiled_ofParts hn
    obtain ⟨table, htable⟩ := foldlM_addRule_total fun rule hrule =>
      (hrules rule hrule).imp hstart.isDeclared_iff.1 hstart.isDeclared_iff.1
    exact ⟨table, bind_eq_ok.2 ⟨_, hn, htable⟩⟩

theorem Answers.namesReduce_eq (h : Answers table rules) (a b : String) :
    table.namesReduce a b =
      if ¬ IsDeclared table.inventory table.dummy a then .error (.unknownAtomType a)
      else if ¬ IsDeclared table.inventory table.dummy b then .error (.unknownAtomType b)
      else .ok (decide (a = b ∨ (a, b) ∈ rules)) := by
  by_cases ha : table.contains a = true
  · rw [if_neg (not_not.2 (h.compiled.isDeclared_iff.2 ha))]
    by_cases hb : table.contains b = true
    · obtain ⟨i, hi⟩ := contains_iff_indexOf.1 ha
      obtain ⟨j, hj⟩ := contains_iff_indexOf.1 hb
      rw [if_neg (not_not.2 (h.compiled.isDeclared_iff.2 hb))]
      refine namesReduce_eq_ok.2 ⟨i, j, hi, hj, ?_⟩
      rw [Bool.eq_iff_iff, decide_eq_true_iff]
      exact h.entry_iff hi hj
    · rw [if_pos fun hd => hb (h.compiled.isDeclared_iff.1 hd)]
      exact namesReduce_of_unknown_target ha hb
  · rw [if_pos fun hd => ha (h.compiled.isDeclared_iff.1 hd)]
    exact namesReduce_of_unknown_source ha

/-- The rules that a table lists are the declared ones between two different types of the inventory,
row by row. -/
theorem Answers.rules_eq (h : Answers table rules) :
    table.rules = (table.inventory ×ˢ table.inventory).filter fun p => p.1 ≠ p.2 ∧ p ∈ rules := by
  have hindex : ∀ x ∈ table.inventory.zipIdx, table.indexOf x.1 = .ok x.2 := by
    intro x hx
    have hat : table.inventory[x.2]? = some x.1 := List.mk_mem_zipIdx_iff_getElem?.1 hx
    obtain ⟨hlt, -⟩ := List.getElem?_eq_some_iff.1 hat
    rw [h.compiled.indexOf_eq_ok_iff, List.getElem?_append_left hlt, hat]
  have hrow : ∀ x ∈ table.inventory.zipIdx,
      (table.inventory.zipIdx.filterMap fun y =>
        if x.2 ≠ y.2 ∧ table.entry x.2 y.2 then some (x.1, y.1) else none) =
      (table.inventory.map (x.1, ·)).filter fun p => p.1 ≠ p.2 ∧ p ∈ rules := by
    intro x hx
    have hcell : ∀ y ∈ table.inventory.zipIdx,
        (if x.2 ≠ y.2 ∧ table.entry x.2 y.2 then some (x.1, y.1) else none) =
          (Option.guard (fun p : String × String => p.1 ≠ p.2 ∧ p ∈ rules) (x.1, y.1)) := by
      intro y hy
      have hne : x.2 ≠ y.2 ↔ x.1 ≠ y.1 :=
        not_congr (h.compiled.indexOf_inj (hindex x hx) (hindex y hy))
      simp only [h.entry_iff (hindex x hx) (hindex y hy), hne, Option.guard]
      by_cases heq : x.1 = y.1 <;> simp [heq]
    rw [List.filterMap_congr hcell, ← List.filterMap_eq_filter, List.filterMap_map]
    conv_rhs => rw [← List.zipIdx_map_fst 0 table.inventory, List.filterMap_map]
    rfl
  calc table.rules
      = table.inventory.zipIdx.flatMap fun x =>
          (table.inventory.map (x.1, ·)).filter fun p => p.1 ≠ p.2 ∧ p ∈ rules :=
        List.flatMap_congr hrow
    _ = table.inventory.flatMap fun source =>
          (table.inventory.map (source, ·)).filter fun p => p.1 ≠ p.2 ∧ p ∈ rules := by
        conv_rhs => rw [← List.zipIdx_map_fst 0 table.inventory, List.flatMap_map]
        simp only [List.zipIdx_map_fst]
    _ = (table.inventory ×ˢ table.inventory).filter fun p => p.1 ≠ p.2 ∧ p ∈ rules :=
        List.filter_flatMap.symm

/-- A table can be compiled just if no type is declared twice or under the name of the dummy and the
rules speak of declared types and the dummy only. It then compares any two names as they were
declared, without leaving its matrix, and lists the declared rules between two different types of
the inventory, each of them once and row by row. -/
theorem make_means_declaration (inventory : List String) (dummy : String)
    (rules : List (String × String)) :
    ((∃ table, make inventory dummy rules = .ok table) ↔
      inventory.Nodup ∧ dummy ∉ inventory ∧
        ∀ rule ∈ rules, IsDeclared inventory dummy rule.1 ∧ IsDeclared inventory dummy rule.2) ∧
    ∀ table, make inventory dummy rules = .ok table →
      (∀ a b, table.namesReduce a b =
        if ¬ IsDeclared inventory dummy a then .error (.unknownAtomType a)
        else if ¬ IsDeclared inventory dummy b then .error (.unknownAtomType b)
        else .ok (decide (a = b ∨ (a, b) ∈ rules))) ∧
      (∀ a b i j, table.indexOf a = .ok i → table.indexOf b = .ok j →
        i * table.width + j < table.matrix.size) ∧
      table.rules = ((inventory ×ˢ inventory).filter fun p => p.1 ≠ p.2 ∧ p ∈ rules) ∧
      table.rules.Nodup := by
  refine ⟨exists_make_iff, fun table htable => ?_⟩
  obtain ⟨hanswers, rfl, rfl, -⟩ := answers_of_make htable
  have hc := hanswers.compiled
  refine ⟨hanswers.namesReduce_eq, fun a b i j hi hj => ?_, hanswers.rules_eq, ?_⟩
  · rw [hc.matrix_size]
    exact cell_lt (hc.indexOf_lt hj) (hc.indexOf_lt hi)
  · rw [hanswers.rules_eq]
    exact (hc.nodup.product hc.nodup).filter _

/-- A rule that is declared twice, one from a type to itself, and one that leads from the dummy. -/
theorem make_means_declaration_sample :
    ∃ table, make ["n", "s", "pn"] "x" [("pn", "n"), ("n", "n"), ("x", "s"), ("pn", "n")] =
        .ok table ∧
      table.namesReduce "pn" "n" = .ok true ∧ table.namesReduce "n" "pn" = .ok false ∧
      table.namesReduce "s" "s" = .ok true ∧ table.namesReduce "x" "s" = .ok true ∧
      table.namesReduce "q" "r" = .error (.unknownAtomType "q") ∧
      table.namesReduce "x" "r" = .error (.unknownAtomType "r") ∧
      table.rules = [("pn", "n")] ∧ table.rules.Nodup := by
  obtain ⟨hmake, hmeans⟩ := make_means_declaration ["n", "s", "pn"] "x"
    [("pn", "n"), ("n", "n"), ("x", "s"), ("pn", "n")]
  obtain ⟨table, htable⟩ := hmake.2 (by decide)
  obtain ⟨hreduce, -, hrules, hnodup⟩ := hmeans table htable
  exact ⟨table, htable, hreduce _ _, hreduce _ _, hreduce _ _, hreduce _ _, hreduce _ _,
    hreduce _ _, hrules, hnodup⟩

end ReductionTable

end PregroupGrammar
