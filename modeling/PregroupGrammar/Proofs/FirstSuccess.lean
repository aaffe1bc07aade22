import PregroupGrammar.Parser.Basic
import PregroupGrammar.Proofs.FirstRepair
import PregroupGrammar.Proofs.Paths

/-!
# The first path that succeeds

Whatever way of accepting paths is tried on them in order, if it fails on none of them then the
first path that can be accepted is (`searchFirst`). A parser combines two ways: a path may be
accepted as it is (`attempt_plain`), or after a repair (`attempt_repaired`). Repairs come after all
paths have been tried as they are, or after each of them. Either way the outcome tells the first
success (`FirstSuccess`).
-/

namespace PregroupGrammar

open Fallible

/-- The item at the index is the first one that the condition holds for. -/
def FirstAt {α : Type} (P : α → Prop) (l : List α) (i : Nat) : Prop :=
  (∃ a, l[i]? = some a ∧ P a) ∧ ∀ j < i, ∀ a, l[j]? = some a → ¬ P a

namespace FirstAt

variable {α : Type} {P : α → Prop} {l : List α} {i j : Nat}

theorem unique (hi : FirstAt P l i) (hj : FirstAt P l j) : i = j := by
  obtain ⟨⟨a, ha, hPa⟩, hbefore⟩ := hi
  obtain ⟨⟨b, hb, hPb⟩, hbefore'⟩ := hj
  rcases Nat.lt_trichotomy i j with h | h | h
  · exact absurd hPa (hbefore' i h a ha)
  · exact h
  · exact absurd hPb (hbefore j h b hb)

theorem exists_mem (h : FirstAt P l i) : ∃ a ∈ l, P a := by
  obtain ⟨⟨a, ha, hP⟩, -⟩ := h
  exact ⟨a, List.mem_of_getElem? ha, hP⟩

end FirstAt

section Search

variable {P : Path → Prop} {As : Path → Acceptance → Prop} {paths : List Path}

/-- What was found is an acceptance of the first path that the condition holds for. -/
def FoundFirst (P : Path → Prop) (As : Path → Acceptance → Prop) (paths : List Path) :
    Option Acceptance → Prop
  | none => ∀ path ∈ paths, ¬ P path
  | some acc => FirstAt P paths acc.pathIndex ∧ ∃ path, paths[acc.pathIndex]? = some path ∧
      As path acc

/-- What an attempt at the path with the index gives: it does not fail, and it accepts the path just
if the condition holds. -/
structure Attempt (P : Path → Prop) (As : Path → Acceptance → Prop) (path : Path) (i : Nat)
    (result : Except Error (Option Acceptance)) : Prop where
  total : ∃ found, result = .ok found
  none_iff : result = .ok none ↔ ¬ P path
  some : ∀ acc, result = .ok (some acc) → acc.pathIndex = i ∧ As path acc

theorem searchFirst (attempt : Path × Nat → Except Error (Option Acceptance))
    (h : ∀ path ∈ paths, ∀ i, Attempt P As path i (attempt (path, i))) :
    ∃ found, paths.zipIdx.findSomeM? attempt = .ok found ∧ FoundFirst P As paths found := by
  have htotal : ∀ x ∈ paths.zipIdx, ∃ r, attempt x = .ok r :=
    fun x hx => (h x.1 (List.fst_mem_of_mem_zipIdx hx) x.2).total
  obtain ⟨_ | acc, hfound⟩ := findSomeM?_total htotal
  · refine ⟨none, hfound, fun path hpath => ?_⟩
    obtain ⟨i, hi⟩ := List.mem_iff_getElem?.1 hpath
    have hnone := findSomeM?_eq_ok_none.1 hfound (path, i) (List.mk_mem_zipIdx_iff_getElem?.2 hi)
    exact (h path hpath i).none_iff.1 hnone
  · obtain ⟨i, path, hi, hsome, hbefore⟩ := findSomeM?_zipIdx_eq_ok_some hfound
    have hat := h path (List.mem_of_getElem? hi) i
    obtain ⟨rfl, hAs⟩ := hat.some acc hsome
    have hP : P path := by
      by_contra hP
      rw [hat.none_iff.2 hP] at hsome
      simp at hsome
    refine ⟨some acc, hfound, ⟨⟨path, hi, hP⟩, fun j hj path' hj' => ?_⟩, path, hi, hAs⟩
    exact (h path' (List.mem_of_getElem? hj') j).none_iff.1 (hbefore j hj path' hj')

variable {found : Option Acceptance}

theorem FoundFirst.index_iff (h : FoundFirst P As paths found) (i : Nat) :
    (∃ acc, found = some acc ∧ acc.pathIndex = i) ↔ FirstAt P paths i := by
  rcases found with _ | acc
  · simp only [reduceCtorEq, false_and, exists_false, false_iff]
    intro hfirst
    obtain ⟨path, hpath, hP⟩ := hfirst.exists_mem
    exact h path hpath hP
  · simp only [Option.some.injEq, exists_eq_left']
    exact ⟨fun hi => hi ▸ h.1, fun hi => h.1.unique hi⟩

theorem FoundFirst.none_iff (h : FoundFirst P As paths found) :
    found = none ↔ ∀ path ∈ paths, ¬ P path := by
  rcases found with _ | acc
  · exact iff_of_true rfl h
  · obtain ⟨path, hpath, hP⟩ := h.1.exists_mem
    exact iff_of_false (by simp) fun hnone => hnone path hpath hP

theorem FoundFirst.accepted (h : FoundFirst P As paths found) {acc : Acceptance}
    (hacc : found = some acc) {path : Path} (hpath : paths[acc.pathIndex]? = some path) :
    As path acc := by
  subst hacc
  obtain ⟨-, path', hpath', hAs⟩ := h
  obtain rfl := Option.some.inj (hpath'.symm.trans hpath)
  exact hAs

end Search

namespace Grammar

/-- The acceptance is of the path as it is. -/
def PlainAcceptance (g : Grammar) (path : Path) (acc : Acceptance) : Prop :=
  g.Accepts path ∧ acc.repair = none ∧ acc.path = path ∧ g.Derives acc

/-- The acceptance is of the path after its first repair. -/
def MendedAcceptance (g : Grammar) (threshold : Nat) (path : Path) (acc : Acceptance) : Prop :=
  ∃ r, acc.repair = some r ∧ acc.path = g.substitute path r.first r.second ∧
    g.FirstRepair threshold path r ∧ g.Derives acc

end Grammar

namespace Parser

variable {p : Parser} {path : Path} {i : Nat}

section Attempts

variable (hg : p.grammar.Grounded) (hpath : p.grammar.Knows path.atoms)
include hg hpath

theorem attempt_plain :
    Attempt p.grammar.Accepts p.grammar.PlainAcceptance path i (p.acceptPlain i path) := by
  obtain ⟨d, hd⟩ := hg.derive_total hpath
  have hplain : p.acceptPlain i path = .ok (d.accept? i path none) := map_eq_ok.2 ⟨d, hd, rfl⟩
  refine ⟨⟨_, hplain⟩, ?_, fun acc hacc => ?_⟩
  · rw [hplain, Grammar.accepts_iff hd]
    by_cases ht : d.grammatical = true
    · obtain ⟨acc, hacc⟩ := Grammar.accept?_of_grammatical hd ht i path none
      simp [hacc, ht]
    · simp [Derivation.accept?, ht]
  · have hsome := Except.ok.inj (hplain.symm.trans hacc)
    obtain ⟨ht, hi, hsame, hrep, -⟩ := Derivation.accept?_eq_some hsome
    exact ⟨hi, (Grammar.accepts_iff hd).2 ht, hrep, hsame, Grammar.derives_of_accept? hd hsome⟩

theorem attempt_repaired :
    Attempt (p.grammar.Mendable p.settings.repairThreshold)
      (p.grammar.MendedAcceptance p.settings.repairThreshold) path i (p.acceptRepaired i path) := by
  refine ⟨Grammar.acceptRepaired_total hg hpath, Grammar.acceptRepaired_eq_none hg hpath,
    fun acc hacc => ?_⟩
  obtain ⟨hi, hd, r, hrep, hsame, hfirst⟩ := Grammar.acceptRepaired_eq_some hg hpath hacc
  exact ⟨hi, r, hrep, hsame, hfirst, hd⟩

/-- The acceptance of a path as it is or, failing that, after a repair. -/
def acceptEither (p : Parser) (x : Path × Nat) : Except Error (Option Acceptance) := do
  match ← p.acceptPlain x.2 x.1 with
  | some acceptance => return some acceptance
  | none => p.acceptRepaired x.2 x.1

theorem attempt_either :
    Attempt (fun path => p.grammar.Accepts path ∨
        p.grammar.Mendable p.settings.repairThreshold path)
      (fun path acc => p.grammar.PlainAcceptance path acc ∨ ¬ p.grammar.Accepts path ∧
        p.grammar.MendedAcceptance p.settings.repairThreshold path acc)
      path i (p.acceptEither (path, i)) := by
  have hplain := attempt_plain hg hpath (i := i)
  have hmended := attempt_repaired hg hpath (i := i)
  obtain ⟨_ | acc, hr⟩ := hplain.total
  · have hnot := hplain.none_iff.1 hr
    have heq : p.acceptEither (path, i) = p.acceptRepaired i path := by
      rw [acceptEither, hr]
      rfl
    refine ⟨heq ▸ hmended.total, ?_, fun acc hacc => ?_⟩
    · rw [heq, hmended.none_iff]
      simp [hnot]
    · obtain ⟨hi, hm⟩ := hmended.some acc (heq ▸ hacc)
      exact ⟨hi, .inr ⟨hnot, hm⟩⟩
  · have heq : p.acceptEither (path, i) = .ok (some acc) := by
      rw [acceptEither, hr]
      rfl
    obtain ⟨hi, hp⟩ := hplain.some acc hr
    refine ⟨⟨_, heq⟩, ?_, fun acc' hacc' => ?_⟩
    · simp [heq, hp.1]
    · obtain rfl := Option.some.inj (Except.ok.inj (heq.symm.trans hacc'))
      exact ⟨hi, .inl hp⟩

end Attempts

theorem search_perPath (hs : p.settings.repairStrategy = .perPath) (paths : List Path) :
    p.search paths = paths.zipIdx.findSomeM? p.acceptEither := by
  rw [search, hs]
  rfl

theorem search_afterAllPaths_plain (hs : p.settings.repairStrategy = .afterAllPaths)
    {paths : List Path} {acc : Acceptance}
    (h : paths.zipIdx.findSomeM? (fun x => p.acceptPlain x.2 x.1) = .ok (some acc)) :
    p.search paths = .ok (some acc) := by
  rw [search, hs]
  exact bind_eq_ok.2 ⟨some acc, h, rfl⟩

theorem search_afterAllPaths_repaired (hs : p.settings.repairStrategy = .afterAllPaths)
    {paths : List Path} {found : Option Acceptance}
    (h : paths.zipIdx.findSomeM? (fun x => p.acceptPlain x.2 x.1) = .ok none)
    (h' : paths.zipIdx.findSomeM? (fun x => p.acceptRepaired x.2 x.1) = .ok found) :
    p.search paths = .ok found := by
  rw [search, hs]
  exact bind_eq_ok.2 ⟨none, h, h'⟩

end Parser

namespace Outcome

/-- The path with the index is accepted as it is. -/
def AcceptsPlain (outcome : Outcome) (i : Nat) : Prop :=
  ∃ acc, outcome.acceptance = some acc ∧ acc.pathIndex = i ∧ acc.repair = none

/-- The path with the index is accepted after a repair. -/
def AcceptsRepaired (outcome : Outcome) (i : Nat) : Prop :=
  ∃ acc r, outcome.acceptance = some acc ∧ acc.pathIndex = i ∧ acc.repair = some r

theorem accepts_iff {outcome : Outcome} {i : Nat} :
    outcome.AcceptsPlain i ∨ outcome.AcceptsRepaired i ↔
      ∃ acc, outcome.acceptance = some acc ∧ acc.pathIndex = i := by
  constructor
  · rintro (⟨acc, hacc, hi, -⟩ | ⟨acc, -, hacc, hi, -⟩) <;> exact ⟨acc, hacc, hi⟩
  · rintro ⟨acc, hacc, hi⟩
    rcases hrep : acc.repair with _ | r
    · exact .inl ⟨acc, hacc, hi, hrep⟩
    · exact .inr ⟨acc, r, hacc, hi, hrep⟩

end Outcome

/-- The outcome reports the first success: which path is accepted, whether that takes a repair, and
if so which one. -/
structure FirstSuccess (g : Grammar) (settings : ParserSettings) (paths : List Path)
    (outcome : Outcome) : Prop where
  afterAllPaths_plain : settings.repairStrategy = .afterAllPaths →
    ∀ i, outcome.AcceptsPlain i ↔ FirstAt g.Accepts paths i
  afterAllPaths_repaired : settings.repairStrategy = .afterAllPaths →
    (∀ path ∈ paths, ¬ g.Accepts path) →
      ∀ i, outcome.AcceptsRepaired i ↔ FirstAt (g.Mendable settings.repairThreshold) paths i
  perPath : settings.repairStrategy = .perPath →
    ∀ i, (outcome.AcceptsPlain i ∨ outcome.AcceptsRepaired i) ↔
      FirstAt (fun path => g.Accepts path ∨ g.Mendable settings.repairThreshold path) paths i
  plain_iff : ∀ acc path, outcome.acceptance = some acc → paths[acc.pathIndex]? = some path →
    (acc.repair = none ↔ g.Accepts path)
  none_iff : outcome.acceptance = none ↔
    ∀ path ∈ paths, ¬ g.Accepts path ∧ ¬ g.Mendable settings.repairThreshold path
  accepted : ∀ acc, outcome.acceptance = some acc → ∃ path, paths[acc.pathIndex]? = some path ∧
    (g.PlainAcceptance path acc ∨ g.MendedAcceptance settings.repairThreshold path acc)

namespace FirstSuccess

variable {g : Grammar} {settings : ParserSettings} {paths : List Path} {outcome : Outcome}

theorem of_perPath (hs : settings.repairStrategy = .perPath)
    (h : FoundFirst (fun path => g.Accepts path ∨ g.Mendable settings.repairThreshold path)
      (fun path acc => g.PlainAcceptance path acc ∨ ¬ g.Accepts path ∧
        g.MendedAcceptance settings.repairThreshold path acc) paths outcome.acceptance) :
    FirstSuccess g settings paths outcome where
  afterAllPaths_plain hs' := by simp [hs] at hs'
  afterAllPaths_repaired hs' := by simp [hs] at hs'
  perPath _ i := by rw [Outcome.accepts_iff, h.index_iff]
  plain_iff acc path hacc hpath := by
    rcases h.accepted hacc hpath with ⟨haccepts, hrep, -⟩ | ⟨hnot, r, hrep, -⟩
    · exact iff_of_true hrep haccepts
    · exact iff_of_false (by simp [hrep]) hnot
  none_iff := by
    rw [h.none_iff]
    simp only [not_or]
  accepted acc hacc := by
    obtain ⟨⟨path, hpath, -⟩, -⟩ := (h.index_iff _).1 ⟨acc, hacc, rfl⟩
    exact ⟨path, hpath, (h.accepted hacc hpath).imp_right And.right⟩

/-- A path that is accepted as it is comes before all repairs. -/
theorem of_plain (hs : settings.repairStrategy = .afterAllPaths) {acc : Acceptance}
    (hacc : outcome.acceptance = some acc)
    (h : FoundFirst g.Accepts g.PlainAcceptance paths outcome.acceptance) :
    FirstSuccess g settings paths outcome := by
  obtain ⟨⟨path, hpath, haccepts⟩, hbefore⟩ := (h.index_iff _).1 ⟨acc, hacc, rfl⟩
  have hmem := List.mem_of_getElem? hpath
  have hplain := h.accepted hacc hpath
  have hiff : ∀ i, outcome.AcceptsPlain i ↔ FirstAt g.Accepts paths i := by
    intro i
    rw [← h.index_iff]
    constructor
    · rintro ⟨acc, hacc, hi, -⟩
      exact ⟨acc, hacc, hi⟩
    · rintro ⟨acc', hacc', hi⟩
      obtain rfl := Option.some.inj (hacc.symm.trans hacc')
      exact ⟨acc, hacc, hi, hplain.2.1⟩
  refine ⟨fun _ => hiff, fun _ hnone => absurd haccepts (hnone path hmem), by simp [hs], ?_, ?_, ?_⟩
  · intro acc' path' hacc' hpath'
    obtain ⟨haccepts', hrep', -⟩ := h.accepted hacc' hpath'
    exact iff_of_true hrep' haccepts'
  · exact iff_of_false (by simp [hacc]) fun hnone => (hnone path hmem).1 haccepts
  · intro acc' hacc'
    obtain rfl := Option.some.inj (hacc.symm.trans hacc')
    exact ⟨path, hpath, .inl hplain⟩

/-- Repairs are tried if no path is accepted as it is. -/
theorem of_repaired (hs : settings.repairStrategy = .afterAllPaths)
    (hnot : ∀ path ∈ paths, ¬ g.Accepts path)
    (h : FoundFirst (g.Mendable settings.repairThreshold)
      (g.MendedAcceptance settings.repairThreshold) paths outcome.acceptance) :
    FirstSuccess g settings paths outcome := by
  have hrepaired : ∀ acc, outcome.acceptance = some acc → ∃ path,
      paths[acc.pathIndex]? = some path ∧ g.MendedAcceptance settings.repairThreshold path acc := by
    intro acc hacc
    obtain ⟨⟨path, hpath, -⟩, -⟩ := (h.index_iff _).1 ⟨acc, hacc, rfl⟩
    exact ⟨path, hpath, h.accepted hacc hpath⟩
  refine ⟨fun _ i => iff_of_false ?_ ?_, fun _ _ i => ?_, by simp [hs], ?_, ?_, ?_⟩
  · rintro ⟨acc, hacc, -, hrep⟩
    obtain ⟨path, -, r, hrep', -⟩ := hrepaired acc hacc
    simp [hrep] at hrep'
  · intro hfirst
    obtain ⟨path, hpath, haccepts⟩ := hfirst.exists_mem
    exact hnot path hpath haccepts
  · rw [← h.index_iff]
    constructor
    · rintro ⟨acc, -, hacc, hi, -⟩
      exact ⟨acc, hacc, hi⟩
    · rintro ⟨acc, hacc, hi⟩
      obtain ⟨path, -, r, hrep, -⟩ := hrepaired acc hacc
      exact ⟨acc, r, hacc, hi, hrep⟩
  · intro acc path hacc hpath
    obtain ⟨r, hrep, -⟩ := h.accepted hacc hpath
    exact iff_of_false (by simp [hrep]) (hnot path (List.mem_of_getElem? hpath))
  · rw [h.none_iff]
    exact forall₂_congr fun path hpath => (and_iff_right (hnot path hpath)).symm
  · intro acc hacc
    obtain ⟨path, hpath, hmended⟩ := hrepaired acc hacc
    exact ⟨path, hpath, .inr hmended⟩

end FirstSuccess

section Parse

variable {p : Parser} (hg : p.grammar.Grounded)
include hg

/-- On paths whose names are all known the search does not fail, and it finds the first success. -/
theorem search_firstSuccess {paths : List Path}
    (hpaths : ∀ path ∈ paths, p.grammar.Knows path.atoms) :
    ∃ found, p.search paths = .ok found ∧ ∀ outcome : Outcome, outcome.acceptance = found →
      FirstSuccess p.grammar p.settings paths outcome := by
  rcases hs : p.settings.repairStrategy with _ | _
  · obtain ⟨_ | acc, hplain, hfirst⟩ := searchFirst (fun x => p.acceptPlain x.2 x.1)
      fun path hpath _ => Parser.attempt_plain hg (hpaths path hpath)
    · obtain ⟨found, hrepaired, hfirst'⟩ := searchFirst (fun x => p.acceptRepaired x.2 x.1)
        fun path hpath _ => Parser.attempt_repaired hg (hpaths path hpath)
      exact ⟨found, Parser.search_afterAllPaths_repaired hs hplain hrepaired,
        fun outcome ho => .of_repaired hs hfirst (ho ▸ hfirst')⟩
    · exact ⟨some acc, Parser.search_afterAllPaths_plain hs hplain,
        fun outcome ho => .of_plain hs ho (ho ▸ hfirst)⟩
  · obtain ⟨found, hfound, hfirst⟩ := searchFirst p.acceptEither
      fun path hpath _ => Parser.attempt_either hg (hpaths path hpath)
    exact ⟨found, (Parser.search_perPath hs paths).trans hfound,
      fun outcome ho => .of_perPath hs (ho ▸ hfirst)⟩

end Parse

/-- A choice of one candidate for each word has no names but those of the candidates. -/
theorem knows_of_mem_enumeratePaths {g : Grammar} {candidates : List (List WordType)}
    (hne : candidates ≠ []) (hknown : ∀ types ∈ candidates, ∀ type ∈ types, g.Knows type.atoms)
    {path : Path} (hpath : path ∈ enumeratePaths candidates) : g.Knows path.atoms := by
  intro a ha
  obtain ⟨type, htype, ha⟩ := List.mem_flatMap.1 ha
  have hchoice := (mem_enumeratePaths hne).1 hpath
  obtain ⟨types, htypes, hmem⟩ := exists_mem_of_forall₂ hchoice htype
  exact hknown types htypes type hmem a ha

theorem parseCandidates_of_search {p : Parser} {candidates : List (List WordType)}
    (hne : candidates ≠ []) {found : Option Acceptance} (sentence : List String)
    (h : p.search (enumeratePaths candidates) = .ok found) :
    p.parseCandidates sentence candidates =
      .ok ⟨sentence, (enumeratePaths candidates).length, found⟩ := by
  obtain ⟨types, rest, rfl⟩ := List.exists_cons_of_ne_nil hne
  exact bind_eq_ok.2 ⟨found, h, rfl⟩

/-- On candidates whose names are all known a parse does not fail, and it reports the first
success. -/
theorem parseCandidates_firstSuccess {draft : Draft} {g : Grammar} (hg : draft.build = .ok g)
    (settings : ParserSettings) (sentence : List String) {candidates : List (List WordType)}
    (hne : candidates ≠ [])
    (hknown : ∀ types ∈ candidates, ∀ type ∈ types, g.Knows type.atoms) :
    ∃ outcome, (Parser.mk g settings).parseCandidates sentence candidates = .ok outcome ∧
      outcome.sentence = sentence ∧
      outcome.pathCount = (enumeratePaths candidates).length ∧
      FirstSuccess g settings (enumeratePaths candidates) outcome := by
  obtain ⟨found, hsearch, hfirst⟩ := search_firstSuccess (p := ⟨g, settings⟩)
    (Draft.grounded_of_build hg) fun path => knows_of_mem_enumeratePaths hne hknown
  exact ⟨_, parseCandidates_of_search hne sentence hsearch, rfl, rfl, hfirst _ rfl⟩

namespace Sample

/-- A word that is one noun or two, and a verb that takes two. -/
def candidates : List (List WordType) :=
  [[⟨[.plain "n" 0]⟩, ⟨[.plain "n" 0, .plain "n" 0]⟩],
    [⟨[.plain "n" 1, .plain "n" 1, .plain "s" 0]⟩]]

theorem knows_candidates :
    ∀ types ∈ candidates, ∀ type ∈ types, grammar.Knows type.atoms := by
  simp [Grammar.Knows, candidates, Atom.plain, Atom.name, contains_name]

/-- A noun in the singular, and a verb that takes one in the plural. -/
def disagreeing : List (List WordType) :=
  [[⟨[.concrete "n" 0 [⟨0, 1⟩]]⟩], [⟨[.concrete "n" 1 [⟨0, 2⟩], .plain "s" 0]⟩]]

/-- The only path through the candidates. -/
def disagreement : Path :=
  [⟨[.concrete "n" 0 [⟨0, 1⟩]]⟩, ⟨[.concrete "n" 1 [⟨0, 2⟩], .plain "s" 0]⟩]

theorem knows_disagreeing :
    ∀ types ∈ disagreeing, ∀ type ∈ types, grammar.Knows type.atoms := by
  simp [Grammar.Knows, disagreeing, Atom.plain, Atom.name, contains_name]

theorem reduces_eq {a b : Atom} {i j : Nat}
    (ha : grammar.table.index.pairs.lookup a.name = some i)
    (hb : grammar.table.index.pairs.lookup b.name = some j) :
    grammar.reduces a b = .ok ((grammar.table.entry i j || grammar.table.entry j i) &&
      grammar.table.isDummy a == grammar.table.isDummy b && a.isFollowedBy b &&
      a.markersAgree b) := by
  have hi := ReductionTable.indexOf_eq_ok.2 ha
  have hj := ReductionTable.indexOf_eq_ok.2 hb
  exact bind_eq_ok.2 ⟨_, ReductionTable.namesReduce_eq_ok.2 ⟨i, j, hi, hj, rfl⟩,
    bind_eq_ok.2 ⟨_, ReductionTable.namesReduce_eq_ok.2 ⟨j, i, hj, hi, rfl⟩, rfl⟩⟩

theorem not_accepts_disagreement : ¬ grammar.Accepts disagreement := by
  have hrun : Machine.run grammar disagreement.atoms = .ok ⟨3, ⟨[(2, .plain "s" 0),
      (1, .concrete "n" 1 [⟨0, 2⟩]), (0, .concrete "n" 0 [⟨0, 1⟩])], 3, rfl⟩, []⟩ := by
    refine bind_eq_ok.2 ⟨_, rfl, ?_⟩
    refine bind_eq_ok.2 ⟨_, map_eq_ok.2 ⟨_, reduces_eq (i := 1) (j := 1) rfl rfl, rfl⟩, ?_⟩
    exact bind_eq_ok.2 ⟨_, map_eq_ok.2 ⟨_, reduces_eq (i := 1) (j := 0) rfl rfl, rfl⟩, rfl⟩
  rw [Grammar.accepts_iff (derive_of_run hrun rfl)]
  simp

theorem accepts_mended : grammar.Accepts (grammar.substitute disagreement 0 1) := by
  have hrun : Machine.run grammar (grammar.substitute disagreement 0 1).atoms =
      .ok ⟨3, ⟨[(2, .plain "s" 0)], 1, rfl⟩, [⟨0, 1⟩]⟩ := by
    refine bind_eq_ok.2 ⟨_, rfl, ?_⟩
    exact bind_eq_ok.2 ⟨_, map_eq_ok.2 ⟨_, reduces_eq (i := 2) (j := 2) rfl rfl, rfl⟩, rfl⟩
  exact ⟨_, derive_of_run hrun rfl, rfl⟩

theorem mendable_disagreement : grammar.Mendable 2 disagreement := by
  have hn : grammar.table.reducesTo "n" "n" = true := by
    have hindex : grammar.table.indexOf "n" = .ok 1 := ReductionTable.indexOf_eq_ok.2 rfl
    rw [ReductionTable.reducesTo,
      ReductionTable.namesReduce_eq_ok.2 ⟨1, 1, hindex, hindex, rfl⟩]
    rfl
  refine ⟨"n", 0, 1, ⟨by decide, ?_⟩, by decide, ⟨_, rfl, hn⟩, ⟨_, rfl, hn⟩, accepts_mended⟩
  have htwo : [Atom.concrete "n" 0 [⟨0, 1⟩], .concrete "n" 1 [⟨0, 2⟩]].countP
      (fun a => grammar.table.reducesTo a.name "n") = 2 := by
    simp [Atom.name, hn]
  have hsub : [Atom.concrete "n" 0 [⟨0, 1⟩], .concrete "n" 1 [⟨0, 2⟩]].Sublist
      disagreement.atoms := by
    simp [Path.atoms, disagreement]
  exact htwo ▸ hsub.countP_le

/-- The same noun, which may be in the plural as well. -/
def wavering : List (List WordType) :=
  [[⟨[.concrete "n" 0 [⟨0, 1⟩]]⟩, ⟨[.concrete "n" 0 [⟨0, 2⟩]]⟩],
    [⟨[.concrete "n" 1 [⟨0, 2⟩], .plain "s" 0]⟩]]

/-- The path through the plural. -/
def agreement : Path :=
  [⟨[.concrete "n" 0 [⟨0, 2⟩]]⟩, ⟨[.concrete "n" 1 [⟨0, 2⟩], .plain "s" 0]⟩]

theorem knows_wavering :
    ∀ types ∈ wavering, ∀ type ∈ types, grammar.Knows type.atoms := by
  simp [Grammar.Knows, wavering, Atom.plain, Atom.name, contains_name]

theorem accepts_agreement : grammar.Accepts agreement := by
  have hrun : Machine.run grammar agreement.atoms =
      .ok ⟨3, ⟨[(2, .plain "s" 0)], 1, rfl⟩, [⟨0, 1⟩]⟩ := by
    refine bind_eq_ok.2 ⟨_, rfl, ?_⟩
    exact bind_eq_ok.2 ⟨_, map_eq_ok.2 ⟨_, reduces_eq (i := 1) (j := 1) rfl rfl, rfl⟩, rfl⟩
  exact ⟨_, derive_of_run hrun rfl, rfl⟩

/-- Two atoms of a type may be repaired. -/
def mending (repairStrategy : RepairStrategy) : ParserSettings :=
  { repairThreshold := 2, repairStrategy }

/-- Whatever the strategy, the only path is accepted after a repair. -/
theorem acceptsRepaired_disagreeing {settings : ParserSettings} {outcome : Outcome}
    (hs : settings.repairThreshold = 2)
    (h : FirstSuccess grammar settings (enumeratePaths disagreeing) outcome) :
    outcome.AcceptsRepaired 0 := by
  have hpaths : enumeratePaths disagreeing = [disagreement] := rfl
  rw [hpaths] at h
  rcases hacc : outcome.acceptance with _ | acc
  · exact absurd (hs ▸ mendable_disagreement) (h.none_iff.1 hacc disagreement (by simp)).2
  · obtain ⟨path, hpath, -⟩ := h.accepted acc hacc
    obtain ⟨hindex, rfl⟩ : acc.pathIndex = 0 ∧ path = disagreement := by
      simpa [List.getElem?_singleton, eq_comm] using hpath
    rcases hrepair : acc.repair with _ | r
    · exact absurd ((h.plain_iff acc _ hacc hpath).1 hrepair) not_accepts_disagreement
    · exact ⟨acc, r, hacc, hindex, hrepair⟩

/-- The path that agrees is the first one that is accepted as it is. -/
theorem firstAt_wavering : FirstAt grammar.Accepts (enumeratePaths wavering) 1 := by
  refine ⟨⟨agreement, rfl, accepts_agreement⟩, fun j hj path hpath => ?_⟩
  obtain rfl : j = 0 := by omega
  obtain rfl : disagreement = path := Option.some.inj hpath
  exact not_accepts_disagreement

/-- A strategy that repairs each path at once accepts the one that disagrees. -/
theorem acceptsRepaired_wavering {outcome : Outcome}
    (h : FirstSuccess grammar (mending .perPath) (enumeratePaths wavering) outcome) :
    outcome.AcceptsRepaired 0 := by
  rcases (h.perPath rfl 0).2 ⟨⟨disagreement, rfl, .inr mendable_disagreement⟩, by simp⟩ with
    ⟨acc, hacc, hindex, hrepair⟩ | hrepaired
  · have hpath : (enumeratePaths wavering)[acc.pathIndex]? = some disagreement := by
      rw [hindex]
      rfl
    exact absurd ((h.plain_iff acc _ hacc hpath).1 hrepair) not_accepts_disagreement
  · exact hrepaired

end Sample

/-- The first sentence is accepted as it is. In the second the noun does not agree with its verb,
and under each strategy the one path is accepted after a repair. Where the noun may also be read as
one that agrees, the strategies differ. -/
theorem parseCandidates_firstSuccess_sample :
    Sample.draft.build = .ok Sample.grammar ∧
      (Sample.candidates ≠ [] ∧
        (∀ types ∈ Sample.candidates, ∀ type ∈ types, Sample.grammar.Knows type.atoms) ∧
        ∃ outcome, (Parser.mk Sample.grammar {}).parseCandidates ["cats", "chase"]
            Sample.candidates = .ok outcome ∧
          outcome.sentence = ["cats", "chase"] ∧ outcome.pathCount = 2 ∧
          FirstSuccess Sample.grammar {} (enumeratePaths Sample.candidates) outcome) ∧
      (Sample.disagreeing ≠ [] ∧
        (∀ types ∈ Sample.disagreeing, ∀ type ∈ types, Sample.grammar.Knows type.atoms) ∧
        ∀ strategy, ∃ outcome, (Parser.mk Sample.grammar (Sample.mending strategy)).parseCandidates
            ["cat", "chase"] Sample.disagreeing = .ok outcome ∧
          outcome.pathCount = 1 ∧ outcome.AcceptsRepaired 0 ∧
          FirstSuccess Sample.grammar (Sample.mending strategy)
            (enumeratePaths Sample.disagreeing) outcome) ∧
      (∃ outcome, (Parser.mk Sample.grammar (Sample.mending .afterAllPaths)).parseCandidates
          ["sheep", "chase"] Sample.wavering = .ok outcome ∧ outcome.AcceptsPlain 1) ∧
      ∃ outcome, (Parser.mk Sample.grammar (Sample.mending .perPath)).parseCandidates
          ["sheep", "chase"] Sample.wavering = .ok outcome ∧ outcome.AcceptsRepaired 0 := by
  have hcandidates : Sample.candidates ≠ [] := List.cons_ne_nil _ _
  have hdisagreeing : Sample.disagreeing ≠ [] := List.cons_ne_nil _ _
  have hwavering : Sample.wavering ≠ [] := List.cons_ne_nil _ _
  refine ⟨Sample.build_draft, ⟨hcandidates, Sample.knows_candidates,
    parseCandidates_firstSuccess Sample.build_draft {} _ hcandidates Sample.knows_candidates⟩,
    ⟨hdisagreeing, Sample.knows_disagreeing, fun strategy => ?_⟩, ?_, ?_⟩
  · obtain ⟨outcome, hparse, -, hcount, hfirst⟩ := parseCandidates_firstSuccess
      Sample.build_draft (Sample.mending strategy) ["cat", "chase"] hdisagreeing
      Sample.knows_disagreeing
    exact ⟨outcome, hparse, hcount, Sample.acceptsRepaired_disagreeing rfl hfirst, hfirst⟩
  · obtain ⟨outcome, hparse, -, -, hfirst⟩ := parseCandidates_firstSuccess
      Sample.build_draft (Sample.mending .afterAllPaths) ["sheep", "chase"] hwavering
      Sample.knows_wavering
    exact ⟨outcome, hparse, (hfirst.afterAllPaths_plain rfl 1).2 Sample.firstAt_wavering⟩
  · obtain ⟨outcome, hparse, -, -, hfirst⟩ := parseCandidates_firstSuccess
      Sample.build_draft (Sample.mending .perPath) ["sheep", "chase"] hwavering
      Sample.knows_wavering
    exact ⟨outcome, hparse, Sample.acceptsRepaired_wavering hfirst⟩

end PregroupGrammar
