import PregroupGrammar.Proofs.DeclaredReductions
import PregroupGrammar.Proofs.KnownNames

/-!
# Rules that speak of the dummy

The dummy has a row and a column of its own in the matrix. They are reflexive only, so that the
dummy reduces to no other type and no other type to it (`ReductionTable.DummyApart`), as long as no
rule leads from the dummy to a declared type or back. But the names of a rule are looked up in the
index, which has the dummy in it, so nothing refuses such a rule, and it is entered like any other
(`ReductionTable.dummyApart_iff`). An atom that a repair has put in can then be what a sentence
reduces to (`Draft.isStandalone_dummy`).
-/

namespace PregroupGrammar

open Fallible

namespace ReductionTable

/-- The dummy reduces to itself only, and nothing else that the table knows reduces to it. -/
def DummyApart (table : ReductionTable) : Prop :=
  ∀ b, table.contains b = true →
    (table.namesReduce table.dummy b = .ok true ↔ b = table.dummy) ∧
      (table.namesReduce b table.dummy = .ok true ↔ b = table.dummy)

variable {table : ReductionTable} {rules : List (String × String)}

theorem Answers.namesReduce_known (h : Answers table rules) {a b : String}
    (ha : table.contains a = true) (hb : table.contains b = true) :
    table.namesReduce a b = .ok (decide (a = b ∨ (a, b) ∈ rules)) := by
  rw [h.namesReduce_eq, if_neg (not_not.2 (h.compiled.isDeclared_iff.2 ha)),
    if_neg (not_not.2 (h.compiled.isDeclared_iff.2 hb))]

theorem Answers.namesReduce_eq_true (h : Answers table rules) {a b : String}
    (ha : table.contains a = true) (hb : table.contains b = true) :
    table.namesReduce a b = .ok true ↔ a = b ∨ (a, b) ∈ rules := by
  rw [h.namesReduce_known ha hb, Except.ok.injEq, decide_eq_true_iff]

/-- The dummy keeps apart just if no rule leads from it to a declared type or back. -/
theorem dummyApart_iff {inventory : List String} {dummy : String}
    (h : make inventory dummy rules = .ok table) :
    table.DummyApart ↔ ∀ rule ∈ rules, (rule.1 = dummy ↔ rule.2 = dummy) := by
  obtain ⟨hanswers, rfl, rfl, hrules⟩ := answers_of_make h
  have hc := hanswers.compiled
  have hdummy := hc.contains_dummy
  constructor
  · rintro hapart ⟨a, b⟩ hrule
    obtain ⟨ha, hb⟩ := (hrules _ hrule).imp hc.isDeclared_iff.1 hc.isDeclared_iff.1
    constructor
    · rintro rfl
      exact (hapart b hb).1.1 ((hanswers.namesReduce_eq_true hdummy hb).2 (.inr hrule))
    · rintro rfl
      exact (hapart a ha).2.1 ((hanswers.namesReduce_eq_true ha hdummy).2 (.inr hrule))
  · intro hspoken b hb
    rw [hanswers.namesReduce_eq_true hdummy hb, hanswers.namesReduce_eq_true hb hdummy]
    refine ⟨⟨?_, fun hb => .inl hb.symm⟩, ⟨?_, .inl⟩⟩
    · rintro (hsame | hrule)
      · exact hsame.symm
      · exact (hspoken _ hrule).1 rfl
    · rintro (hsame | hrule)
      · exact hsame
      · exact (hspoken _ hrule).2 rfl

end ReductionTable

namespace Grammar

theorem isDummy_dummyAtom (g : Grammar) (adjoint : Int32) :
    g.table.isDummy (g.dummyAtom adjoint) = true :=
  beq_iff_eq.2 rfl

/-- An atom may be what a sentence reduces to, just if its type is standalone or some rule leads
from it to a standalone type. -/
theorem reachesStandalone_eq {table : ReductionTable} {rules : List (String × String)}
    (h : table.Answers rules) {name : String} (hn : table.contains name = true) :
    ∀ {standalones : List String}, (∀ other ∈ standalones, table.contains other = true) →
      reachesStandalone table name standalones =
        .ok (decide (∃ other ∈ standalones, name = other ∨ (name, other) ∈ rules))
  | [], _ => by simp [reachesStandalone]
  | standalone :: standalones, hs => by
    obtain ⟨hknown, hrest⟩ := List.forall_mem_cons.1 hs
    have ih := reachesStandalone_eq h hn hrest
    unfold reachesStandalone
    simp only [h.namesReduce_known hn hknown, List.exists_mem_cons_iff]
    by_cases hsame : name = standalone
    · simp [hsame]
    · by_cases hrule : (name, standalone) ∈ rules
      · simp [hsame, hrule]
      · simp [hsame, hrule, ih]

end Grammar

namespace Draft

variable {d : Draft} {g : Grammar}

theorem dummy_notMem_standalones (h : d.build = .ok g) : g.table.dummy ∉ d.standalones := by
  obtain ⟨hmake, -, hdeclared, -⟩ := build_cases (build_eq_buildUnder.symm.trans h)
  exact fun hm => (ReductionTable.compiled_of_make hmake).1.dummy_notMem (hdeclared _ hm)

/-- A dummy atom may be what a sentence reduces to, just if a rule leads from the dummy to a
standalone type. -/
theorem isStandalone_dummy (h : d.build = .ok g) {a : Atom} (ha : g.table.isDummy a = true) :
    g.isStandalone a =
      .ok (decide (∃ name ∈ d.standalones, (d.settings.dummyType, name) ∈ d.reductions)) := by
  obtain ⟨hmake, hsame, -⟩ := build_cases (build_eq_buildUnder.symm.trans h)
  obtain ⟨hanswers, -, hdummy, -⟩ := ReductionTable.answers_of_make hmake
  have hnot := dummy_notMem_standalones h
  have hname : a.name = g.table.dummy := beq_iff_eq.1 ha
  rw [hdummy] at hnot hname
  have hother : ∀ name ∈ d.standalones, d.settings.dummyType ≠ name := by
    rintro name hn rfl
    exact hnot hn
  have hiff : (∃ name ∈ d.standalones,
      d.settings.dummyType = name ∨ (d.settings.dummyType, name) ∈ d.reductions) ↔
        ∃ name ∈ d.standalones, (d.settings.dummyType, name) ∈ d.reductions :=
    exists_congr fun name => and_congr_right fun hn => or_iff_right (hother name hn)
  unfold Grammar.isStandalone
  rw [hname, Grammar.reachesStandalone_eq hanswers (hdummy ▸ hanswers.compiled.contains_dummy)
    (grounded_of_build h).standalones, hsame, decide_eq_decide.2 hiff]

/-- The dummy keeps apart from the declared types just if no rule leads from it to one of them or
back. A dummy atom may be what a sentence reduces to just if a rule leads from the dummy to a
standalone type, so never where the dummy keeps apart. -/
theorem dummy_apart_unless_ruled (inventory : List String) (dummy : String)
    (rules : List (String × String)) (d : Draft) :
    (∀ table, ReductionTable.make inventory dummy rules = .ok table →
      (table.DummyApart ↔ ∀ rule ∈ rules, (rule.1 = dummy ↔ rule.2 = dummy))) ∧
    ∀ g, d.build = .ok g → ∀ a, g.table.isDummy a = true →
      g.isStandalone a =
        .ok (decide (∃ name ∈ d.standalones, (d.settings.dummyType, name) ∈ d.reductions)) ∧
      (g.table.DummyApart → g.isStandalone a = .ok false) := by
  refine ⟨fun table hmake => ReductionTable.dummyApart_iff hmake, fun g hbuild a ha => ?_⟩
  refine ⟨isStandalone_dummy hbuild ha, fun hapart => ?_⟩
  have hmake := make_of_build hbuild
  obtain ⟨-, -, hdummy, -⟩ := ReductionTable.answers_of_make hmake
  rw [isStandalone_dummy hbuild ha, decide_eq_false]
  rintro ⟨name, hn, hrule⟩
  have hname : name = d.settings.dummyType :=
    ((ReductionTable.dummyApart_iff hmake).1 hapart _ hrule).1 rfl
  exact dummy_notMem_standalones hbuild (hdummy.trans hname.symm ▸ hn)

/-- A draft with one standalone type and some rules. -/
def ruled (rules : List (String × String)) : Draft where
  inventory := ["s"]
  standalones := ["s"]
  reductions := rules

theorem exists_build_ruled (rules : List (String × String))
    (h : ∀ rule ∈ rules, ReductionTable.IsDeclared ["s"] "x" rule.1 ∧
      ReductionTable.IsDeclared ["s"] "x" rule.2) : ∃ g, (ruled rules).build = .ok g := by
  obtain ⟨table, htable⟩ := ReductionTable.exists_make_iff.2 ⟨by decide, by decide, h⟩
  obtain ⟨-, hinventory, -⟩ := ReductionTable.answers_of_make htable
  have hstandalones : checkStandalones table (ruled rules).standalones = .ok () :=
    checkStandalones_eq_ok.2 (hinventory.symm ▸ by simp [ruled])
  exact ⟨_, bind_eq_ok.2 ⟨table, htable, bind_eq_ok.2 ⟨(), hstandalones, rfl⟩⟩⟩

/-- Rules that lead from a type to itself, the dummy among them. -/
theorem dummy_apart_unless_ruled_sample :
    ∃ g, ReductionTable.make ["s"] "x" [("s", "s"), ("x", "x")] = .ok g.table ∧
      g.table.DummyApart ∧ (ruled [("s", "s"), ("x", "x")]).build = .ok g ∧
      g.table.isDummy (g.dummyAtom 0) = true ∧ g.isStandalone (g.dummyAtom 0) = .ok false := by
  obtain ⟨g, hg⟩ := exists_build_ruled [("s", "s"), ("x", "x")] (by decide)
  have hmake := make_of_build hg
  obtain ⟨hiff, hstandalone⟩ := dummy_apart_unless_ruled ["s"] "x" [("s", "s"), ("x", "x")]
    (ruled [("s", "s"), ("x", "x")])
  have hapart : g.table.DummyApart := (hiff g.table hmake).2 (by decide)
  have hdummy := g.isDummy_dummyAtom 0
  exact ⟨g, hmake, hapart, hg, hdummy, (hstandalone g hg _ hdummy).2 hapart⟩

/-- A rule from the dummy to the standalone type is entered like any other, and a dummy atom may
then be what a sentence reduces to. -/
theorem dummy_reduces_by_rule :
    ∃ g, ReductionTable.make ["s"] "x" [("x", "s")] = .ok g.table ∧
      g.table.namesReduce "x" "s" = .ok true ∧ ¬ g.table.DummyApart ∧
      (ruled [("x", "s")]).build = .ok g ∧ g.table.isDummy (g.dummyAtom 0) = true ∧
      g.isStandalone (g.dummyAtom 0) = .ok true := by
  obtain ⟨g, hg⟩ := exists_build_ruled [("x", "s")] (by decide)
  have hmake := make_of_build hg
  obtain ⟨hanswers, hinventory, hdummy, -⟩ := ReductionTable.answers_of_make hmake
  have hdummyAtom := g.isDummy_dummyAtom 0
  refine ⟨g, hmake, ?_, ?_, hg, hdummyAtom, isStandalone_dummy hg hdummyAtom⟩
  · rw [hanswers.namesReduce_eq, hinventory, hdummy]
    rfl
  · rw [ReductionTable.dummyApart_iff hmake]
    decide

end Draft

end PregroupGrammar
