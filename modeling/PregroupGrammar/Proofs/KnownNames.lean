import PregroupGrammar.Parser.Repair
import PregroupGrammar.Proofs.CompiledTable
import PregroupGrammar.Proofs.MachineRun

/-!
# Names that the table knows

The only thing that can go wrong while a path is reduced is a name that the table does not know. In
a grammar that has been built the standalone types are declared (`grounded_of_build`), so a path all
of whose names are known has a derivation (`derive_total`), and so has the path with dummy atoms in
place of some of its own (`knows_substitute`). What a build checks does not depend on the key under
which the dictionary is sorted (`build_cases`).
-/

namespace PregroupGrammar

open Fallible

namespace Grammar

/-- The table knows the types of all these atoms. -/
def Knows (g : Grammar) (atoms : List Atom) : Prop :=
  ∀ a ∈ atoms, g.table.contains a.name = true

/-- The table is compiled and knows the standalone types. -/
structure Grounded (g : Grammar) : Prop where
  compiled : g.table.Compiled
  standalones : ∀ name ∈ g.standalones, g.table.contains name = true

variable {g : Grammar}

theorem reduces_total {a b : Atom} (ha : g.table.contains a.name = true)
    (hb : g.table.contains b.name = true) : ∃ r, g.reduces a b = .ok r := by
  obtain ⟨forth, hforth⟩ := ReductionTable.namesReduce_total ha hb
  obtain ⟨back, hback⟩ := ReductionTable.namesReduce_total hb ha
  exact ⟨_, bind_eq_ok.2 ⟨forth, hforth, bind_eq_ok.2 ⟨back, hback, rfl⟩⟩⟩

theorem reduces_eq_true {a b : Atom} (h : g.reduces a b = .ok true) :
    g.table.isDummy a = g.table.isDummy b ∧ a.isFollowedBy b = true := by
  obtain ⟨forth, -, h⟩ := bind_eq_ok.1 h
  obtain ⟨back, -, h⟩ := bind_eq_ok.1 h
  simp only [pure, Except.pure, Except.ok.injEq, Bool.and_eq_true, beq_iff_eq] at h
  exact ⟨h.1.1.2, h.1.2⟩

theorem reachesStandalone_total {table : ReductionTable} {name : String}
    (hn : table.contains name = true) :
    ∀ {standalones : List String}, (∀ other ∈ standalones, table.contains other = true) →
      ∃ r, reachesStandalone table name standalones = .ok r
  | [], _ => ⟨false, rfl⟩
  | standalone :: standalones, h => by
    obtain ⟨hs, hrest⟩ := List.forall_mem_cons.1 h
    unfold reachesStandalone
    split_ifs
    · exact ⟨true, rfl⟩
    · obtain ⟨r, hr⟩ := ReductionTable.namesReduce_total hn hs
      rw [hr]
      cases r
      · exact reachesStandalone_total hn hrest
      · exact ⟨true, rfl⟩

theorem Grounded.isStandalone_total (hg : g.Grounded) {a : Atom}
    (ha : g.table.contains a.name = true) : ∃ r, g.isStandalone a = .ok r :=
  reachesStandalone_total ha hg.standalones

theorem step_total {m : Machine} {a : Atom} (ha : g.table.contains a.name = true)
    (hm : g.Knows (m.pending.items.map Prod.snd)) :
    ∃ m', Machine.step g m a = .ok m' ∧ g.Knows (m'.pending.items.map Prod.snd) := by
  have hshift : g.Knows ((m.shift a).pending.items.map Prod.snd) :=
    List.forall_mem_cons.2 ⟨ha, hm⟩
  unfold Machine.step
  split
  · exact ⟨_, rfl, hshift⟩
  · rename_i partner b htop
    have hb : g.table.contains b.name = true :=
      hm b (List.mem_map_of_mem (f := Prod.snd) (List.mem_of_head? htop))
    obtain ⟨r, hr⟩ := reduces_total hb ha
    refine ⟨_, map_eq_ok.2 ⟨r, hr, rfl⟩, ?_⟩
    cases r
    · exact hshift
    · intro c hc
      obtain ⟨entry, he, rfl⟩ := List.mem_map.1 hc
      exact hm _ (List.mem_map_of_mem (List.mem_of_mem_tail he))

theorem run_total {atoms : List Atom} (h : g.Knows atoms) :
    ∃ m, Machine.run g atoms = .ok m ∧ g.Knows (m.pending.items.map Prod.snd) := by
  have hstep : ∀ (m : Machine) (a : Atom), g.Knows (m.pending.items.map Prod.snd) →
      a ∈ atoms →
      ∃ m', Machine.step g m a = .ok m' ∧ g.Knows (m'.pending.items.map Prod.snd) :=
    fun m a hm ha => step_total (h a ha) hm
  have hstart : g.Knows (Machine.start.pending.items.map Prod.snd) := by
    simp [Knows, Machine.start, PendingStack.empty]
  exact foldlM_total atoms hstep hstart

/-- A path whose names are all known has a derivation. -/
theorem Grounded.derive_total (hg : g.Grounded) {path : Path} (hpath : g.Knows path.atoms) :
    ∃ d, g.derive path = .ok d := by
  obtain ⟨m, hm, -⟩ := run_total hpath
  have hres : ∃ r, g.acceptsResidual (residual? path.atoms m.waiting) = .ok r := by
    rcases h : residual? path.atoms m.waiting with _ | a
    · exact ⟨false, rfl⟩
    · obtain ⟨i, -, ha⟩ := residual?_eq_some.1 h
      exact hg.isStandalone_total (hpath a (List.mem_of_getElem? ha))
  obtain ⟨r, hr⟩ := hres
  exact ⟨_, derive_of_run hm hr⟩

theorem substituteFrom_atoms (g : Grammar) (first second : Nat) :
    ∀ (offset : Nat) (path : Path), (g.substituteFrom first second offset path).atoms =
      (path.atoms.zipIdx offset).map fun (a, position) =>
        if position = first ∨ position = second then g.dummyAtom a.adjoint else a
  | _, [] => rfl
  | offset, type :: path => by
    have ih := substituteFrom_atoms g first second (offset + type.length) path
    unfold Path.atoms at ih ⊢
    rw [substituteFrom, List.flatMap_cons, List.flatMap_cons, List.zipIdx_append, List.map_append,
      ih]
    rfl

/-- Dummy atoms have a name that the table knows. -/
theorem knows_substitute (hg : g.table.Compiled) {path : Path} (hpath : g.Knows path.atoms)
    (first second : Nat) : g.Knows (g.substitute path first second).atoms := by
  intro b hb
  rw [substitute, substituteFrom_atoms] at hb
  obtain ⟨⟨a, position⟩, ha, rfl⟩ := List.mem_map.1 hb
  simp only
  split_ifs
  · exact hg.contains_dummy
  · exact hpath a (List.fst_mem_of_mem_zipIdx ha)

end Grammar

namespace Draft

variable {d : Draft} {g : Grammar} {table : ReductionTable}

theorem checkStandalones_eq_ok {names : List String} :
    checkStandalones table names = .ok () ↔ ∀ name ∈ names, name ∈ table.inventory := by
  unfold checkStandalones
  rcases h : names.find? (· ∉ table.inventory) with _ | name
  · simpa using h
  · refine ⟨fun hn => by simp at hn, fun hall => ?_⟩
    have := List.find?_some h
    simp [hall name (List.mem_of_find?_eq_some h)] at this

theorem checkAtoms_eq_ok : ∀ {atoms : List Atom},
    checkAtoms table atoms = .ok () ↔ ∀ a ∈ atoms, table.contains a.name = true
  | [] => by simp [checkAtoms, pure, Except.pure]
  | a :: atoms => by
    have ih : checkAtoms table atoms = .ok () ↔ _ := checkAtoms_eq_ok
    unfold checkAtoms at ih ⊢
    rw [List.forM_eq_forM, List.forM_cons, bind_eq_ok, List.forall_mem_cons,
      ReductionTable.contains_iff_indexOf, ← ih]
    constructor
    · rintro ⟨⟨⟩, ha, hrest⟩
      obtain ⟨i, hi, -⟩ := map_eq_ok.1 ha
      exact ⟨⟨i, hi⟩, hrest⟩
    · rintro ⟨⟨i, hi⟩, hrest⟩
      exact ⟨(), map_eq_ok.2 ⟨i, hi, rfl⟩, hrest⟩

theorem expandEntry_eq_ok {rules : List Metarule} {iteration : Iteration}
    {entry expanded : Entry} : expandEntry table rules iteration entry = .ok expanded ↔
      (∀ t ∈ entry.types, ∀ a ∈ t.atoms, table.contains a.name = true) ∧
        expanded = { entry with types := (expand rules iteration entry.types).1 } := by
  have hcheck : checkAtoms table (entry.types.flatMap WordType.atoms) = .ok () ↔
      ∀ t ∈ entry.types, ∀ a ∈ t.atoms, table.contains a.name = true := by
    rw [checkAtoms_eq_ok, List.forall_mem_flatMap]
  rw [← hcheck]
  constructor
  · intro h
    obtain ⟨⟨⟩, hknown, h⟩ := bind_eq_ok.1 h
    exact ⟨hknown, (Except.ok.inj h).symm⟩
  · rintro ⟨hknown, rfl⟩
    exact bind_eq_ok.2 ⟨(), hknown, rfl⟩

/-- Builds the grammar, its dictionary under any key of the words. -/
def buildUnder (key : String → String) (d : Draft) : Except Error Grammar := do
  let table ← ReductionTable.make d.inventory d.settings.dummyType d.reductions
  checkStandalones table d.standalones
  checkAtoms table (d.metarules.flatMap concreteAtoms)
  let entries ← d.entries.mapM (expandEntry table d.metarules d.settings.iteration)
  return {
    table
    standalones := d.standalones
    markers := d.markers
    metarules := d.metarules
    lexicon := Lexicon.ofEntries key entries
    morphology := d.morphology
    settings := d.settings }

theorem build_eq_buildUnder : d.build = d.buildUnder Text.lowercase :=
  rfl

/-- What a build checks, and what it makes of the entries. -/
theorem build_cases {key : String → String} (h : d.buildUnder key = .ok g) :
    ReductionTable.make d.inventory d.settings.dummyType d.reductions = .ok g.table ∧
      g.standalones = d.standalones ∧ (∀ name ∈ d.standalones, name ∈ g.table.inventory) ∧
      (∀ a ∈ d.metarules.flatMap concreteAtoms, g.table.contains a.name = true) ∧
      ∃ entries, d.entries.mapM (expandEntry g.table d.metarules d.settings.iteration) =
        .ok entries ∧ g.lexicon = Lexicon.ofEntries key entries ∧ g.metarules = d.metarules ∧
        g.settings = d.settings := by
  unfold buildUnder at h
  obtain ⟨table, ht, h⟩ := bind_eq_ok.1 h
  obtain ⟨⟨⟩, hs, h⟩ := bind_eq_ok.1 h
  obtain ⟨⟨⟩, hm, h⟩ := bind_eq_ok.1 h
  obtain ⟨entries, he, h⟩ := bind_eq_ok.1 h
  obtain rfl := Except.ok.inj h
  exact ⟨ht, rfl, checkStandalones_eq_ok.1 hs, checkAtoms_eq_ok.1 hm, entries, he, rfl, rfl, rfl⟩

theorem make_of_build (h : d.build = .ok g) :
    ReductionTable.make d.inventory d.settings.dummyType d.reductions = .ok g.table :=
  (build_cases (build_eq_buildUnder.symm.trans h)).1

/-- A grammar that has been built relies on no name that its table does not know. -/
theorem grounded_of_build (h : d.build = .ok g) : g.Grounded := by
  obtain ⟨hmake, hsame, hs, -⟩ := build_cases (build_eq_buildUnder.symm.trans h)
  have hc := (ReductionTable.compiled_of_make hmake).1
  refine ⟨hc, fun name hn => hc.contains_of_mem (hs name (hsame ▸ hn))⟩

end Draft

namespace Sample

theorem contains_name {name : String} (h : name = "s" ∨ name = "n") :
    grammar.table.contains name = true := by
  rw [ReductionTable.contains_iff_indexOf]
  rcases h with rfl | rfl
  · exact ⟨0, ReductionTable.indexOf_eq_ok.2 rfl⟩
  · exact ⟨1, ReductionTable.indexOf_eq_ok.2 rfl⟩

theorem checkAtoms_names {atoms : List Atom} (h : ∀ a ∈ atoms, a.name = "s" ∨ a.name = "n") :
    Draft.checkAtoms grammar.table atoms = .ok () :=
  Draft.checkAtoms_eq_ok.2 fun a ha => contains_name (h a ha)

theorem knows_path : grammar.Knows path.atoms := by
  simp [Grammar.Knows, Path.atoms, path, Atom.plain, Atom.name, contains_name]

end Sample

end PregroupGrammar
