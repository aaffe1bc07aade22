import Mathlib.Data.Nat.Find
import PregroupGrammar.Proofs.FirstSuccess

/-!
# What the settings of a parser decide

A sentence is accepted if one of its paths is grammatical or can be repaired, whichever of the two
is tried first, so the strategy decides only which path is reported. Trying both on each path finds
a path no later than trying all paths as they are first; and if none is grammatical as it is, the
two strategies try the same repairs in the same order (`search_eq_of_not_accepts`).

A lower threshold admits more types to a repair and so accepts no later (`Mendable.mono`). A repair
takes two atoms of its type, so thresholds up to two do not differ
(`acceptRepaired_eq_of_le_two`).
-/

namespace PregroupGrammar

open Fallible

namespace FirstAt

variable {α : Type} {P : α → Prop} {l : List α} {i j : Nat} {a : α}

theorem le (h : FirstAt P l i) (hj : l[j]? = some a) (hP : P a) : i ≤ j := by
  by_contra hlt
  exact h.2 j (Nat.lt_of_not_le hlt) a hj hP

theorem exists_of_mem (h : a ∈ l) (hP : P a) : ∃ i, FirstAt P l i := by
  classical
  obtain ⟨j, hj⟩ := List.mem_iff_getElem?.1 h
  have hhit : ∃ j a, l[j]? = some a ∧ P a := ⟨j, a, hj, hP⟩
  exact ⟨Nat.find hhit, Nat.find_spec hhit,
    fun k hk b hb hPb => Nat.find_min hhit hk ⟨b, hb, hPb⟩⟩

end FirstAt

namespace Grammar

variable {g : Grammar} {path : Path} {name : String} {t t₁ t₂ i : Nat}

theorem Mendable.mono (ht : t₁ ≤ t₂) (h : g.Mendable t₂ path) : g.Mendable t₁ path := by
  obtain ⟨name, p, q, ⟨hname, hcount⟩, hmend⟩ := h
  exact ⟨name, p, q, ⟨hname, ht.trans hcount⟩, hmend⟩

/-- A repair takes two atoms of its type. -/
theorem MendedBy.two_le_count {p q : Nat} (h : g.MendedBy path name p q) :
    2 ≤ path.atoms.countP fun a => g.table.reducesTo a.name name := by
  obtain ⟨hlt, ⟨a, ha, hra⟩, ⟨b, hb, hrb⟩, -⟩ := h
  have hleft : a ∈ path.atoms.take q :=
    List.mem_of_getElem? (by rw [List.getElem?_take_of_lt hlt, ha])
  have hright : b ∈ path.atoms.drop q :=
    List.mem_of_getElem? (by rw [List.getElem?_drop, Nat.add_zero, hb])
  have hpos : 0 < (path.atoms.take q).countP fun a => g.table.reducesTo a.name name :=
    List.countP_pos_iff.2 ⟨a, hleft, hra⟩
  have hpos' : 0 < (path.atoms.drop q).countP fun a => g.table.reducesTo a.name name :=
    List.countP_pos_iff.2 ⟨b, hright, hrb⟩
  rw [← List.take_append_drop q path.atoms, List.countP_append]
  omega

theorem MendedAcceptance.mendable {acc : Acceptance} (h : g.MendedAcceptance t path acc) :
    g.Mendable t path := by
  obtain ⟨r, -, -, ⟨hoffending, ⟨hmend, -⟩, -⟩, -⟩ := h
  exact ⟨r.atomType, r.first, r.second, hoffending, hmend⟩

/-- Up to a threshold of two a repair tries all declared types: those that it leaves out do not
occur twice. -/
theorem acceptRepaired_eq_of_le_two (hg : g.Grounded) (hpath : g.Knows path.atoms) (ht : t ≤ 2) :
    g.acceptRepaired t i path = g.table.inventory.findSomeM? (g.acceptMended i path) := by
  rw [acceptRepaired_eq hg hpath]
  refine findSomeM?_filter fun name hn hfew => ?_
  refine (acceptMended_eq_none hg hpath (hg.compiled.contains_of_mem hn)).2 fun p q hmend => ?_
  have htwo := hmend.two_le_count
  rw [decide_eq_false_iff_not] at hfew
  omega

end Grammar

namespace Parser

variable {g : Grammar} {paths : List Path}

/-- Parsers with the same strategy whose repairs agree find the same. -/
theorem search_congr (t₁ t₂ : Nat) (strategy : RepairStrategy)
    (h : ∀ path ∈ paths, ∀ i, g.acceptRepaired t₁ i path = g.acceptRepaired t₂ i path) :
    (Parser.mk g ⟨t₁, strategy⟩).search paths = (Parser.mk g ⟨t₂, strategy⟩).search paths := by
  have hrepaired : ∀ x ∈ paths.zipIdx, (Parser.mk g ⟨t₁, strategy⟩).acceptRepaired x.2 x.1 =
      (Parser.mk g ⟨t₂, strategy⟩).acceptRepaired x.2 x.1 :=
    fun x hx => h x.1 (List.fst_mem_of_mem_zipIdx hx) x.2
  cases strategy with
  | afterAllPaths =>
    refine bind_congr fun found => ?_
    cases found with
    | none => exact findSomeM?_congr hrepaired
    | some acceptance => rfl
  | perPath =>
    rw [search_perPath rfl, search_perPath rfl]
    refine findSomeM?_congr fun x hx => bind_congr fun found => ?_
    cases found with
    | none => exact hrepaired x hx
    | some acceptance => rfl

/-- If no path is grammatical as it is, the two strategies find the same. -/
theorem search_eq_of_not_accepts (hg : g.Grounded)
    (hpaths : ∀ path ∈ paths, g.Knows path.atoms) (hnot : ∀ path ∈ paths, ¬ g.Accepts path)
    (t : Nat) :
    (Parser.mk g ⟨t, .perPath⟩).search paths =
      (Parser.mk g ⟨t, .afterAllPaths⟩).search paths := by
  have hplain : ∀ (settings : ParserSettings), ∀ x ∈ paths.zipIdx,
      (Parser.mk g settings).acceptPlain x.2 x.1 = .ok none := by
    intro settings x hx
    have hmem := List.fst_mem_of_mem_zipIdx hx
    exact (attempt_plain (p := ⟨g, settings⟩) hg (hpaths x.1 hmem)).none_iff.2 (hnot x.1 hmem)
  obtain ⟨found, hfound, -⟩ := searchFirst
    (fun x => (Parser.mk g ⟨t, .afterAllPaths⟩).acceptRepaired x.2 x.1)
    fun path hpath _ => attempt_repaired (p := ⟨g, ⟨t, .afterAllPaths⟩⟩) hg (hpaths path hpath)
  rw [search_perPath rfl, search_afterAllPaths_repaired rfl
    (findSomeM?_eq_ok_none.2 (hplain ⟨t, .afterAllPaths⟩)) hfound, ← hfound]
  refine findSomeM?_congr fun x hx => ?_
  rw [acceptEither, hplain ⟨t, .perPath⟩ x hx]
  rfl

end Parser

namespace FirstSuccess

variable {g : Grammar} {settings : ParserSettings} {paths : List Path} {outcome : Outcome}
  {acc : Acceptance} {path : Path} {j : Nat}

/-- The path of an acceptance is grammatical as it is, or a repair makes it so. -/
theorem path_accepted (h : FirstSuccess g settings paths outcome)
    (hacc : outcome.acceptance = some acc) :
    ∃ path, paths[acc.pathIndex]? = some path ∧
      (g.Accepts path ∨ g.Mendable settings.repairThreshold path) := by
  obtain ⟨path, hpath, hplain | hmended⟩ := h.accepted acc hacc
  · exact ⟨path, hpath, .inl hplain.1⟩
  · exact ⟨path, hpath, .inr hmended.mendable⟩

theorem exists_acceptance (h : FirstSuccess g settings paths outcome) (hpath : path ∈ paths)
    (haccepts : g.Accepts path ∨ g.Mendable settings.repairThreshold path) :
    ∃ acc, outcome.acceptance = some acc := by
  rcases hfound : outcome.acceptance with _ | acc
  · obtain ⟨hplain, hmended⟩ := h.none_iff.1 hfound path hpath
    exact absurd haccepts (not_or.2 ⟨hplain, hmended⟩)
  · exact ⟨acc, rfl⟩

theorem isGrammatical_iff (h : FirstSuccess g settings paths outcome) :
    outcome.isGrammatical = true ↔
      ∃ path ∈ paths, g.Accepts path ∨ g.Mendable settings.repairThreshold path := by
  rw [Outcome.isGrammatical, Option.isSome_iff_exists]
  constructor
  · rintro ⟨acc, hacc⟩
    obtain ⟨path, hpath, haccepts⟩ := h.path_accepted hacc
    exact ⟨path, List.mem_of_getElem? hpath, haccepts⟩
  · rintro ⟨path, hpath, haccepts⟩
    exact h.exists_acceptance hpath haccepts

theorem index_le_of_perPath (h : FirstSuccess g settings paths outcome)
    (hs : settings.repairStrategy = .perPath) (hacc : outcome.acceptance = some acc)
    (hj : paths[j]? = some path)
    (haccepts : g.Accepts path ∨ g.Mendable settings.repairThreshold path) :
    acc.pathIndex ≤ j :=
  ((h.perPath hs _).1 (Outcome.accepts_iff.2 ⟨acc, hacc, rfl⟩)).le hj haccepts

section AfterAllPaths

variable (h : FirstSuccess g settings paths outcome)
  (hs : settings.repairStrategy = .afterAllPaths) (hacc : outcome.acceptance = some acc)
include h hs hacc

theorem firstAt_of_accepts (hpath : path ∈ paths) (haccepts : g.Accepts path) :
    acc.repair = none ∧ FirstAt g.Accepts paths acc.pathIndex := by
  obtain ⟨i, hi⟩ := FirstAt.exists_of_mem hpath haccepts
  obtain ⟨acc', hacc', hindex, hplain⟩ := (h.afterAllPaths_plain hs i).2 hi
  obtain rfl := Option.some.inj (hacc.symm.trans hacc')
  exact ⟨hplain, hindex ▸ hi⟩

theorem not_accepts_of_repaired (hrepair : acc.repair ≠ none) :
    ∀ path ∈ paths, ¬ g.Accepts path :=
  fun _ hpath haccepts => hrepair (h.firstAt_of_accepts hs hacc hpath haccepts).1

theorem index_le_of_not_accepts (hnot : ∀ path ∈ paths, ¬ g.Accepts path)
    (hj : paths[j]? = some path) (hmend : g.Mendable settings.repairThreshold path) :
    acc.pathIndex ≤ j := by
  have hrepaired : outcome.AcceptsRepaired acc.pathIndex := by
    refine (Outcome.accepts_iff.2 ⟨acc, hacc, rfl⟩).resolve_left fun hplain => ?_
    obtain ⟨path', hpath', haccepts⟩ := ((h.afterAllPaths_plain hs _).1 hplain).exists_mem
    exact hnot path' hpath' haccepts
  exact ((h.afterAllPaths_repaired hs hnot _).1 hrepaired).le hj hmend

end AfterAllPaths

/-- A lower threshold accepts no later. -/
theorem index_le_of_threshold_le {strategy : RepairStrategy} {t₁ t₂ : Nat} (ht : t₁ ≤ t₂)
    {outcome₁ outcome₂ : Outcome} {acc₁ acc₂ : Acceptance}
    (h₁ : FirstSuccess g ⟨t₁, strategy⟩ paths outcome₁)
    (h₂ : FirstSuccess g ⟨t₂, strategy⟩ paths outcome₂)
    (hacc₁ : outcome₁.acceptance = some acc₁) (hacc₂ : outcome₂.acceptance = some acc₂) :
    acc₁.pathIndex ≤ acc₂.pathIndex := by
  obtain ⟨path, hpath, haccepts⟩ := h₂.path_accepted hacc₂
  cases strategy with
  | perPath => exact h₁.index_le_of_perPath rfl hacc₁ hpath (haccepts.imp_right (.mono ht))
  | afterAllPaths =>
    -- A grammatical path is found before any repair, whatever the threshold.
    by_cases hplain : g.Accepts path
    · have hmem := List.mem_of_getElem? hpath
      exact (h₁.firstAt_of_accepts rfl hacc₁ hmem hplain).2.le hpath hplain
    · have hrepair : acc₂.repair ≠ none := fun hnone =>
        hplain ((h₂.plain_iff acc₂ path hacc₂ hpath).1 hnone)
      exact h₁.index_le_of_not_accepts rfl hacc₁ (h₂.not_accepts_of_repaired rfl hacc₂ hrepair)
        hpath ((haccepts.resolve_left hplain).mono ht)

end FirstSuccess

/-- How the outcomes of parses compare that differ in their settings only. -/
structure Robust (outcome : ParserSettings → Outcome) : Prop where
  strategy_verdict : ∀ t, (outcome ⟨t, .afterAllPaths⟩).isGrammatical =
    (outcome ⟨t, .perPath⟩).isGrammatical
  strategy_index : ∀ t late early, (outcome ⟨t, .afterAllPaths⟩).acceptance = some late →
    (outcome ⟨t, .perPath⟩).acceptance = some early → early.pathIndex ≤ late.pathIndex
  strategy_repaired : ∀ t, (outcome ⟨t, .afterAllPaths⟩).wasRepaired = true →
    (outcome ⟨t, .afterAllPaths⟩).acceptance = (outcome ⟨t, .perPath⟩).acceptance
  threshold : ∀ strategy t₁ t₂ acc₂, t₁ ≤ t₂ → (outcome ⟨t₂, strategy⟩).acceptance = some acc₂ →
    ∃ acc₁, (outcome ⟨t₁, strategy⟩).acceptance = some acc₁ ∧ acc₁.pathIndex ≤ acc₂.pathIndex
  low_threshold : ∀ strategy t₁ t₂, t₁ ≤ 2 → t₂ ≤ 2 →
    outcome ⟨t₁, strategy⟩ = outcome ⟨t₂, strategy⟩

/-- Searches over the same paths compare as their settings do. -/
theorem robust_of_search {g : Grammar} (hg : g.Grounded) {paths : List Path}
    (hpaths : ∀ path ∈ paths, g.Knows path.atoms) {outcome : ParserSettings → Outcome}
    (sentence : List String) {found : ParserSettings → Option Acceptance}
    (hsearch : ∀ settings, (Parser.mk g settings).search paths = .ok (found settings))
    (houtcome : ∀ settings, outcome settings = ⟨sentence, paths.length, found settings⟩)
    (hfirst : ∀ settings, FirstSuccess g settings paths (outcome settings)) : Robust outcome where
  strategy_verdict t := by
    rw [Bool.eq_iff_iff, (hfirst _).isGrammatical_iff, (hfirst _).isGrammatical_iff]
  strategy_index t late early hlate hearly := by
    obtain ⟨path, hpath, haccepts⟩ := (hfirst _).path_accepted hlate
    exact (hfirst _).index_le_of_perPath rfl hearly hpath haccepts
  strategy_repaired t hrepaired := by
    obtain ⟨acc, hacc, hrepair⟩ := (Option.any_eq_true _ _).1 hrepaired
    have hnot := (hfirst _).not_accepts_of_repaired rfl hacc
      (Option.isSome_iff_ne_none.1 hrepair)
    have hsame := Parser.search_eq_of_not_accepts hg hpaths hnot t
    rw [hsearch, hsearch] at hsame
    rw [houtcome, houtcome, Except.ok.inj hsame]
  threshold strategy t₁ t₂ acc₂ ht hacc₂ := by
    obtain ⟨path, hpath, haccepts⟩ := (hfirst _).path_accepted hacc₂
    obtain ⟨acc₁, hacc₁⟩ := (hfirst ⟨t₁, strategy⟩).exists_acceptance
      (List.mem_of_getElem? hpath) (haccepts.imp_right (.mono ht))
    exact ⟨acc₁, hacc₁, FirstSuccess.index_le_of_threshold_le ht (hfirst _) (hfirst _) hacc₁ hacc₂⟩
  low_threshold strategy t₁ t₂ ht₁ ht₂ := by
    have hsame := Parser.search_congr t₁ t₂ strategy fun path hpath i =>
      (Grammar.acceptRepaired_eq_of_le_two hg (hpaths path hpath) ht₁).trans
        (Grammar.acceptRepaired_eq_of_le_two hg (hpaths path hpath) ht₂).symm
    rw [hsearch, hsearch] at hsame
    rw [houtcome, houtcome, Except.ok.inj hsame]

/-- On candidates whose names are all known the verdict does not depend on the strategy, and a lower
threshold accepts whatever a higher one does. -/
theorem parseCandidates_robust {draft : Draft} {g : Grammar} (hg : draft.build = .ok g)
    (sentence : List String) {candidates : List (List WordType)}
    (hknown : ∀ types ∈ candidates, ∀ type ∈ types, g.Knows type.atoms) :
    (candidates = [] ∧ ∀ settings,
        (Parser.mk g settings).parseCandidates sentence candidates = .error .emptySentence) ∨
      ∃ outcome : ParserSettings → Outcome,
        (∀ settings, (Parser.mk g settings).parseCandidates sentence candidates =
          .ok (outcome settings)) ∧ Robust outcome := by
  by_cases hne : candidates = []
  · exact .inl ⟨hne, fun settings => by rw [hne]; rfl⟩
  have hgrounded := Draft.grounded_of_build hg
  have hpaths : ∀ path : Path, path ∈ enumeratePaths candidates → g.Knows path.atoms :=
    fun path => knows_of_mem_enumeratePaths hne hknown
  choose found hsearch hfirst using fun settings : ParserSettings =>
    search_firstSuccess (p := ⟨g, settings⟩) hgrounded hpaths
  exact .inr ⟨_, fun settings => parseCandidates_of_search hne sentence (hsearch settings),
    robust_of_search hgrounded hpaths sentence hsearch (fun _ => rfl)
      fun settings => hfirst settings _ rfl⟩

theorem parseCandidates_robust_sample :
    Sample.draft.build = .ok Sample.grammar ∧
      (∀ types ∈ Sample.candidates, ∀ type ∈ types, Sample.grammar.Knows type.atoms) ∧
      ∃ outcome : ParserSettings → Outcome,
        (∀ settings, (Parser.mk Sample.grammar settings).parseCandidates ["cats", "chase"]
          Sample.candidates = .ok (outcome settings)) ∧ Robust outcome := by
  refine ⟨Sample.build_draft, Sample.knows_candidates, ?_⟩
  refine (parseCandidates_robust Sample.build_draft ["cats", "chase"]
    Sample.knows_candidates).resolve_left fun hempty => ?_
  simp [Sample.candidates] at hempty

end PregroupGrammar
