import PregroupGrammar.Proofs.FirstSuccess

/-!
# Acceptances can be checked

An acceptance tells everything that is needed to check it (`Certified`): which of the enumerated
paths it is about, the path itself or what a repair made of it, and the links, the residual and the
nesting depth that the derivation of the reported path gives. A repair keeps the words' lengths and
all adjoints, and changes the atoms at its two positions only (`dummiesAt_substitute`).
-/

namespace PregroupGrammar

open Fallible

namespace Grammar

/-- The one path is the other with dummy atoms at two positions, counted over all words. -/
structure DummiesAt (g : Grammar) (original replaced : Path) (first second : Nat) : Prop where
  lengths : replaced.map WordType.length = original.map WordType.length
  adjoints : replaced.atoms.map Atom.adjoint = original.atoms.map Atom.adjoint
  elsewhere : ∀ position, position ≠ first → position ≠ second →
    replaced.atoms[position]? = original.atoms[position]?
  dummies : ∀ position, position = first ∨ position = second →
    ∃ adjoint, replaced.atoms[position]? = some (.concrete g.table.dummy adjoint [])

/-- The acceptance is of one of the paths through the candidates, as it is or with dummy atoms at
the two positions of its repair, and reports what the derivation of its own path gives. -/
structure Certified (g : Grammar) (candidates : List (List WordType)) (pathCount : Nat)
    (acc : Acceptance) : Prop where
  index_lt : acc.pathIndex < pathCount
  one_type_per_word : acc.path.length = candidates.length
  plain : acc.repair = none → (enumeratePaths candidates)[acc.pathIndex]? = some acc.path ∧
    List.Forall₂ (· ∈ ·) acc.path candidates
  repaired : ∀ r, acc.repair = some r → r.first < r.second ∧
    ∃ path, (enumeratePaths candidates)[acc.pathIndex]? = some path ∧
      g.DummiesAt path acc.path r.first r.second
  derivation : ∃ d, g.derive acc.path = .ok d ∧ d.grammatical = true ∧ d.links = acc.links ∧
    d.residual = some acc.residual
  depth : acc.nestingDepth = nestingDepth acc.links acc.path.atoms.length

variable (g : Grammar) (first second : Nat)

theorem substituteFrom_lengths : ∀ (offset : Nat) (path : Path),
    (g.substituteFrom first second offset path).map WordType.length = path.map WordType.length
  | _, [] => rfl
  | offset, type :: path => by
    rw [substituteFrom, List.map_cons, List.map_cons, substituteFrom_lengths]
    simp [WordType.length]

theorem substitute_getElem? (path : Path) (position : Nat) :
    (g.substitute path first second).atoms[position]? = path.atoms[position]?.map fun a =>
      if position = first ∨ position = second then g.dummyAtom a.adjoint else a := by
  rw [substitute, substituteFrom_atoms, List.getElem?_map, List.getElem?_zipIdx]
  simp only [Nat.zero_add, Option.map_map]
  rfl

theorem substitute_adjoints (path : Path) :
    (g.substitute path first second).atoms.map Atom.adjoint = path.atoms.map Atom.adjoint := by
  refine List.ext_getElem? fun position => ?_
  rw [List.getElem?_map, List.getElem?_map, substitute_getElem?, Option.map_map]
  congr 1
  funext a
  simp only [Function.comp_apply]
  split_ifs <;> rfl

theorem dummiesAt_substitute {path : Path} {first second : Nat}
    (hfirst : first < path.atoms.length) (hsecond : second < path.atoms.length) :
    g.DummiesAt path (g.substitute path first second) first second where
  lengths := g.substituteFrom_lengths first second 0 path
  adjoints := g.substitute_adjoints first second path
  elsewhere position hne hne' := by
    rw [substitute_getElem?]
    simp [hne, hne']
  dummies position hat := by
    have hlt : position < path.atoms.length := by
      rcases hat with rfl | rfl
      · exact hfirst
      · exact hsecond
    refine ⟨path.atoms[position].adjoint, ?_⟩
    rw [substitute_getElem?, List.getElem?_eq_getElem hlt, Option.map_some, if_pos hat]
    rfl

variable {g} {path : Path} {acc : Acceptance} {threshold : Nat}

theorem OccursAt.lt_length {name : String} {position : Nat} (h : g.OccursAt path name position) :
    position < path.atoms.length := by
  obtain ⟨a, ha, -⟩ := h
  exact (List.getElem?_eq_some_iff.1 ha).1

theorem MendedAcceptance.dummiesAt (h : g.MendedAcceptance threshold path acc) :
    ∃ r, acc.repair = some r ∧ r.first < r.second ∧
      g.DummiesAt path acc.path r.first r.second := by
  obtain ⟨r, hr, hpath, ⟨-, ⟨⟨hlt, hfirst, hsecond, -⟩, -⟩, -⟩, -⟩ := h
  exact ⟨r, hr, hlt, hpath ▸ g.dummiesAt_substitute hfirst.lt_length hsecond.lt_length⟩

/-- What an acceptance reports is what its path gives. -/
theorem Derives.reports (h : g.Derives acc) :
    (∃ d, g.derive acc.path = .ok d ∧ d.grammatical = true ∧ d.links = acc.links ∧
        d.residual = some acc.residual) ∧
      acc.nestingDepth = nestingDepth acc.links acc.path.atoms.length := by
  obtain ⟨d, hd, haccept⟩ := h
  obtain ⟨hgrammatical, -, -, -, hlinks, hresidual, hdepth⟩ := Derivation.accept?_eq_some haccept
  obtain ⟨m, -, -, -, hcount, -⟩ := derive_cases hd
  exact ⟨⟨d, hd, hgrammatical, hlinks.symm, hresidual⟩, by rw [hdepth, hlinks, hcount]⟩

variable {candidates : List (List WordType)}

theorem certified_of_plain (hne : candidates ≠ [])
    (hat : (enumeratePaths candidates)[acc.pathIndex]? = some path)
    (h : g.PlainAcceptance path acc) :
    g.Certified candidates (enumeratePaths candidates).length acc := by
  obtain ⟨-, hrepair, rfl, hderives⟩ := h
  have hchoice := (mem_enumeratePaths hne).1 (List.mem_of_getElem? hat)
  exact {
    index_lt := (List.getElem?_eq_some_iff.1 hat).1
    one_type_per_word := hchoice.length_eq
    plain := fun _ => ⟨hat, hchoice⟩
    repaired := by simp [hrepair]
    derivation := hderives.reports.1
    depth := hderives.reports.2 }

theorem certified_of_mended (hne : candidates ≠ [])
    (hat : (enumeratePaths candidates)[acc.pathIndex]? = some path)
    (h : g.MendedAcceptance threshold path acc) :
    g.Certified candidates (enumeratePaths candidates).length acc := by
  obtain ⟨r, hrepair, hlt, hdummies⟩ := h.dummiesAt
  obtain ⟨-, -, -, -, hderives⟩ := h
  have hchoice := (mem_enumeratePaths hne).1 (List.mem_of_getElem? hat)
  have hlength : acc.path.length = path.length := by
    simpa using congrArg List.length hdummies.lengths
  refine {
    index_lt := (List.getElem?_eq_some_iff.1 hat).1
    one_type_per_word := hlength.trans hchoice.length_eq
    plain := by simp [hrepair]
    repaired := fun r' hr' => ?_
    derivation := hderives.reports.1
    depth := hderives.reports.2 }
  obtain rfl := Option.some.inj (hrepair.symm.trans hr')
  exact ⟨hlt, path, hat, hdummies⟩

end Grammar

theorem ne_nil_of_parseCandidates {p : Parser} {sentence : List String}
    {candidates : List (List WordType)} {outcome : Outcome}
    (h : p.parseCandidates sentence candidates = .ok outcome) : candidates ≠ [] := by
  rintro rfl
  obtain ⟨_, hthrow, -⟩ := bind_eq_ok.1 h
  exact nomatch hthrow

/-- Every acceptance that a parse reports can be checked. -/
theorem parseCandidates_certified {draft : Draft} {g : Grammar} (hg : draft.build = .ok g)
    {settings : ParserSettings} {sentence : List String} {candidates : List (List WordType)}
    (hknown : ∀ types ∈ candidates, ∀ type ∈ types, g.Knows type.atoms) {outcome : Outcome}
    (h : (Parser.mk g settings).parseCandidates sentence candidates = .ok outcome)
    {acc : Acceptance} (hacc : outcome.acceptance = some acc) :
    g.Certified candidates outcome.pathCount acc := by
  have hne := ne_nil_of_parseCandidates h
  obtain ⟨found, hsearch, hfirst⟩ := search_firstSuccess (p := ⟨g, settings⟩)
    (Draft.grounded_of_build hg) fun path => knows_of_mem_enumeratePaths hne hknown
  obtain rfl := Except.ok.inj ((parseCandidates_of_search hne sentence hsearch).symm.trans h)
  obtain ⟨path, hat, hplain | hmended⟩ := (hfirst _ rfl).accepted acc hacc
  · exact Grammar.certified_of_plain hne hat hplain
  · exact Grammar.certified_of_mended hne hat hmended

namespace Sample

/-- The disagreeing noun and verb are accepted after a repair. -/
theorem parse_disagreeing :
    ∃ acc, (Parser.mk grammar { repairThreshold := 2 }).parseCandidates ["cat", "chase"]
      disagreeing = .ok ⟨["cat", "chase"], 1, some acc⟩ ∧ acc.repair ≠ none := by
  obtain ⟨found, hsearch, hfirst⟩ := search_firstSuccess
    (p := ⟨grammar, { repairThreshold := 2 }⟩) (Draft.grounded_of_build build_draft)
    fun path => knows_of_mem_enumeratePaths (by simp [disagreeing]) knows_disagreeing
  have hparse := parseCandidates_of_search (by simp [disagreeing]) ["cat", "chase"] hsearch
  obtain ⟨acc, r, hacc, -, hrepair⟩ :=
    acceptsRepaired_disagreeing rfl (hfirst ⟨["cat", "chase"], 1, found⟩ rfl)
  obtain rfl : found = some acc := hacc
  exact ⟨acc, hparse, by simp [hrepair]⟩

end Sample

theorem parseCandidates_certified_sample :
    Sample.draft.build = .ok Sample.grammar ∧
      (∀ types ∈ Sample.disagreeing, ∀ type ∈ types, Sample.grammar.Knows type.atoms) ∧
      ∃ acc, (Parser.mk Sample.grammar { repairThreshold := 2 }).parseCandidates
          ["cat", "chase"] Sample.disagreeing = .ok ⟨["cat", "chase"], 1, some acc⟩ ∧
        acc.repair ≠ none ∧ Sample.grammar.Certified Sample.disagreeing 1 acc := by
  obtain ⟨acc, hparse, hrepair⟩ := Sample.parse_disagreeing
  exact ⟨Sample.build_draft, Sample.knows_disagreeing, acc, hparse, hrepair,
    parseCandidates_certified Sample.build_draft Sample.knows_disagreeing hparse rfl⟩

end PregroupGrammar
