import PregroupGrammar.Corpus.Basic
import PregroupGrammar.Proofs.MachineRun

/-!
# Sentences parsed concurrently

A job that has finished leaves the report on its own sentence, whenever that was
(`await_finished`). The reports are collected in the order of the sentences, so whatever jobs have
finished so far, collecting them comes to what parsing one sentence after the other comes to, unless
it has to wait for a job that has not (`parseCorpusConcurrently_cases`). It does not wait for jobs
behind the first sentence that fails fatally.
-/

namespace PregroupGrammar

open Fallible

namespace Parser

variable {p : Parser} {sentences : List (Nat × List String)} {order : List Nat} {job : Nat}

/-- The report on a sentence with its number. -/
def reportOn (p : Parser) (sentence : Nat × List String) : Except Error SentenceReport :=
  p.report sentence.1 sentence.2

theorem parseCorpus_eq (p : Parser) (text : String) :
    p.parseCorpus text = ((corpusSentences text).mapM p.reportOn).map CorpusReport.mk :=
  rfl

/-- The sentence makes a run fail with the error. -/
def FailsFatally (p : Parser) (words : List String) (e : Error) : Prop :=
  p.parse words = .error e ∧ e.isFatal = true

/-- The error is that of the first sentence that makes a run fail. -/
def FirstFatal (p : Parser) (sentences : List (Nat × List String)) (e : Error) : Prop :=
  ∃ before number words after, sentences = before ++ (number, words) :: after ∧
    (∀ sentence ∈ before, ∀ e', ¬ p.FailsFatally sentence.2 e') ∧ p.FailsFatally words e

theorem reportOn_eq_error {sentence : Nat × List String} {e : Error} :
    p.reportOn sentence = .error e ↔ p.FailsFatally sentence.2 e := by
  unfold reportOn report FailsFatally
  rcases p.parse sentence.2 with e' | outcome
  · by_cases hf : e'.isFatal = true
    · simp only [hf, if_true, Except.error.injEq]
      exact ⟨fun he => ⟨he, he ▸ hf⟩, And.left⟩
    · simp only [hf, if_false, Bool.false_eq_true, Except.error.injEq]
      exact iff_of_false nofun fun he => hf (he.1 ▸ he.2)
  · exact iff_of_false nofun fun he => nomatch he.1

theorem exists_reportOn {sentence : Nat × List String} :
    (∃ r, p.reportOn sentence = .ok r) ↔ ∀ e, ¬ p.FailsFatally sentence.2 e := by
  simp only [← reportOn_eq_error]
  rcases p.reportOn sentence with e | r <;> simp

theorem reportOn_eq_ok {sentence : Nat × List String} {r : SentenceReport}
    (h : p.reportOn sentence = .ok r) : (r.line, r.words) = sentence := by
  unfold reportOn report at h
  split at h
  · exact Except.ok.inj h ▸ rfl
  · split_ifs at h
    exact Except.ok.inj h ▸ rfl

/-- What is found under a job that has finished is the report on its sentence. -/
theorem lookup_finished {sentence : Nat × List String}
    (hs : sentences[job]? = some sentence) : ∀ {order : List Nat}, job ∈ order →
      (p.finished sentences order).lookup job = some (p.reportOn sentence)
  | first :: order, h => by
    unfold finished
    by_cases hfirst : job = first
    · subst hfirst
      rw [List.filterMap_cons_some (by rw [hs]; rfl), List.lookup_cons_self]
      rfl
    · have hrest := lookup_finished hs ((List.mem_cons.1 h).resolve_left hfirst)
      rcases hother : sentences[first]? with _ | other
      · rw [List.filterMap_cons_none (by rw [hother]; rfl)]
        exact hrest
      · rw [List.filterMap_cons_some (by rw [hother]; rfl), List.lookup_cons,
          beq_false_of_ne hfirst]
        exact hrest

theorem lookup_finished_of_notMem (h : job ∉ order) :
    (p.finished sentences order).lookup job = none := by
  refine List.lookup_eq_none_iff.2 fun result hr => ?_
  obtain ⟨other, ho, hresult⟩ := List.mem_filterMap.1 hr
  obtain ⟨sentence, -, rfl⟩ := Option.map_eq_some_iff.1 hresult
  simpa using fun he : job = other => h (he ▸ ho)

theorem await_finished {sentence : Nat × List String} (hs : sentences[job]? = some sentence)
    (order : List Nat) :
    await (p.finished sentences order) job = p.reportOn sentence ∨
      job ∉ order ∧ await (p.finished sentences order) job = .error (.lostSentence job) := by
  unfold await
  by_cases h : job ∈ order
  · rw [lookup_finished hs h]
    exact .inl rfl
  · rw [lookup_finished_of_notMem h]
    exact .inr ⟨h, rfl⟩

/-- Collecting from the job at `k` on comes to the reports on the sentences from there on, unless
one of the jobs has not finished. -/
theorem collect_cases (collect : Nat → Except Error SentenceReport) (order : List Nat) :
    ∀ (sentences : List (Nat × List String)) (k : Nat),
      (∀ i sentence, sentences[i]? = some sentence → collect (k + i) = p.reportOn sentence ∨
        k + i ∉ order ∧ collect (k + i) = .error (.lostSentence (k + i))) →
      (List.range' k sentences.length).mapM collect = sentences.mapM p.reportOn ∨
        ∃ job < k + sentences.length, job ∉ order ∧
          (List.range' k sentences.length).mapM collect = .error (.lostSentence job)
  | [], _, _ => .inl rfl
  | sentence :: sentences, k, h => by
    rw [List.length_cons, List.range'_succ]
    rcases h 0 sentence rfl with hfirst | ⟨hlost, hfirst⟩
    · rw [Nat.add_zero] at hfirst
      rcases hreport : p.reportOn sentence with e | r
      -- Neither run looks behind a sentence that fails, so it does not matter what finished there.
      · rw [mapM_cons_error (hfirst.trans hreport), mapM_cons_error hreport]
        exact .inl rfl
      · rw [mapM_cons_ok (hfirst.trans hreport), mapM_cons_ok hreport]
        have hrest := collect_cases collect order sentences (k + 1) fun i s hi => by
          rw [Nat.add_assoc, Nat.add_comm 1 i]
          exact h (i + 1) s hi
        rcases hrest with hrest | ⟨job, hlt, hlost, hrest⟩
        · exact .inl (by rw [hrest])
        · exact .inr ⟨job, by omega, hlost, by rw [hrest]; rfl⟩
    · rw [Nat.add_zero] at hlost hfirst
      exact .inr ⟨k, by omega, hlost, mapM_cons_error hfirst⟩

/-- Whatever jobs have finished, the concurrent run comes to what the sequential one comes to, or it
waits for a job that has not finished. -/
theorem parseCorpusConcurrently_cases (p : Parser) (schedule : Nat → List Nat) (text : String) :
    p.parseCorpusConcurrently schedule text = p.parseCorpus text ∨
      ∃ job < (corpusSentences text).length, job ∉ schedule (corpusSentences text).length ∧
        p.parseCorpusConcurrently schedule text = .error (.lostSentence job) := by
  rw [parseCorpus_eq]
  simp only [parseCorpusConcurrently, List.range_eq_range']
  generalize corpusSentences text = sentences
  have hcollect := collect_cases (p := p)
    (await (p.finished sentences (schedule sentences.length))) (schedule sentences.length)
    sentences 0 fun i sentence hi => by
      rw [Nat.zero_add]
      exact await_finished hi _
  rcases hcollect with hsame | ⟨job, hlt, hlost, hwaits⟩
  · exact .inl (by rw [hsame])
  · exact .inr ⟨job, by omega, hlost, by rw [hwaits]; rfl⟩

theorem parseCorpus_eq_error {text : String} {e : Error} :
    p.parseCorpus text = .error e ↔ p.FirstFatal (corpusSentences text) e := by
  rw [parseCorpus_eq, map_eq_error, mapM_eq_error]
  constructor
  · rintro ⟨before, ⟨number, words⟩, after, hsplit, hbefore, herror⟩
    exact ⟨before, number, words, after, hsplit,
      fun sentence hs => exists_reportOn.1 (hbefore sentence hs), reportOn_eq_error.1 herror⟩
  · rintro ⟨before, number, words, after, hsplit, hbefore, herror⟩
    exact ⟨before, (number, words), after, hsplit,
      fun sentence hs => exists_reportOn.2 (hbefore sentence hs), reportOn_eq_error.2 herror⟩

theorem sentences_of_reports {reports : List SentenceReport}
    (h : List.Forall₂ (fun sentence r => p.reportOn sentence = .ok r) sentences reports) :
    reports.map (fun r => (r.line, r.words)) = sentences := by
  induction h with
  | nil => rfl
  | cons hr _ ih => exact congrArg₂ List.cons (reportOn_eq_ok hr) ih

theorem sentences_of_parseCorpus {text : String} {report : CorpusReport}
    (h : p.parseCorpus text = .ok report) :
    report.sentences.map (fun r => (r.line, r.words)) = corpusSentences text := by
  rw [parseCorpus_eq] at h
  obtain ⟨reports, hreports, rfl⟩ := map_eq_ok.1 h
  exact sentences_of_reports (mapM_eq_ok.1 hreports)

end Parser

/-- In whatever order the jobs finish, the concurrent run gives the report of the sequential one,
with the sentences in order, or fails as it does, with the error of the first sentence that fails
fatally. -/
theorem parseCorpusConcurrently_eq_parseCorpus (p : Parser) (schedule : Nat → List Nat)
    (text : String)
    (h : (schedule (corpusSentences text).length).Perm
      (List.range (corpusSentences text).length)) :
    p.parseCorpusConcurrently schedule text = p.parseCorpus text ∧
      (∀ report, p.parseCorpusConcurrently schedule text = .ok report →
        report.sentences.map (fun r => (r.line, r.words)) = corpusSentences text) ∧
      ∀ e, p.parseCorpusConcurrently schedule text = .error e ↔
        p.FirstFatal (corpusSentences text) e := by
  have hsame : p.parseCorpusConcurrently schedule text = p.parseCorpus text := by
    refine (p.parseCorpusConcurrently_cases schedule text).resolve_right ?_
    rintro ⟨job, hlt, hlost, -⟩
    exact hlost (h.mem_iff.2 (List.mem_range.2 hlt))
  rw [hsame]
  exact ⟨rfl, fun report => Parser.sentences_of_parseCorpus,
    fun e => Parser.parseCorpus_eq_error⟩

namespace Sample

/-- A parser for two words whose types are not declared. -/
def undeclared : Parser where
  grammar := { grammar with
    lexicon := ⟨.ofPairs [("one", ⟨"one", [⟨[.plain "p" 0]⟩]⟩),
      ("two", ⟨"two", [⟨[.plain "q" 0]⟩]⟩)]⟩ }

theorem corpusSentences_undeclared :
    corpusSentences "none\none\n\ntwo" = [(1, ["none"]), (2, ["one"]), (4, ["two"])] := by
  decide +kernel

theorem lookupForms_undeclared (word : String) :
    undeclared.grammar.morphology.lookupForms word = [(.surface, word)] :=
  rfl

theorem parse_none : undeclared.parse ["none"] = .error (.unknownWord "none") := by
  have hentry : undeclared.grammar.entry? "none" = none := by
    rw [Grammar.entry?, Lexicon.find?, KeyedList.find?_eq_lookup]
    decide +kernel
  have hresolve : undeclared.grammar.resolve "none" = .error (.unknownWord "none") := by
    simp only [Grammar.resolve, lookupForms_undeclared, List.findSome?_cons, hentry,
      List.findSome?_nil]
  exact bind_eq_error.2 (.inl (mapM_cons_error hresolve))

theorem derive_undeclared :
    undeclared.grammar.derive [⟨[.plain "p" 0]⟩] = .error (.unknownAtomType "p") := by
  have hindex : undeclared.grammar.table.indexOf "p" = .error (.unknownAtomType "p") := by
    rw [ReductionTable.indexOf, KeyedList.find?_eq_lookup]
    rfl
  have hreduce : undeclared.grammar.table.namesReduce "p" "s" =
      .error (.unknownAtomType "p") := bind_eq_error.2 (.inl hindex)
  have hresidual : undeclared.grammar.acceptsResidual (some (.plain "p" 0)) =
      .error (.unknownAtomType "p") := by
    change Grammar.reachesStandalone undeclared.grammar.table "p" ["s"] = _
    rw [Grammar.reachesStandalone, if_neg (by decide), hreduce]
  have hrun : Machine.run undeclared.grammar [.plain "p" 0] =
      .ok ⟨1, ⟨[(0, .plain "p" 0)], 1, rfl⟩, []⟩ := rfl
  exact derive_of_residual_error hrun hresidual

theorem parse_one : undeclared.parse ["one"] = .error (.unknownAtomType "p") := by
  have hentry : undeclared.grammar.entry? "one" = some ⟨"one", [⟨[.plain "p" 0]⟩]⟩ := by
    rw [Grammar.entry?, Lexicon.find?, KeyedList.find?_eq_lookup]
    decide +kernel
  have hresolve : undeclared.grammar.resolve "one" = .ok ⟨"one", [⟨[.plain "p" 0]⟩]⟩ := by
    simp only [Grammar.resolve, lookupForms_undeclared, List.findSome?_cons, hentry]
  have hsearch : undeclared.search [[⟨[.plain "p" 0]⟩]] = .error (.unknownAtomType "p") :=
    bind_eq_error.2 (.inl (findSomeM?_cons_error (map_eq_error.2 derive_undeclared)))
  refine bind_eq_error.2 (.inr ⟨_, mapM_cons_ok hresolve, ?_⟩)
  exact bind_eq_error.2 (.inl hsearch)

end Sample

/-- Two sentences fail fatally and the later one finishes first: the run fails with the error of the
earlier one. -/
theorem parseCorpusConcurrently_eq_parseCorpus_sample :
    ([2, 1, 0] : List Nat).Perm (List.range 3) ∧
      Sample.undeclared.parseCorpusConcurrently (fun _ => [2, 1, 0]) "none\none\n\ntwo" =
        .error (.unknownAtomType "p") := by
  have hperm : ([2, 1, 0] : List Nat).Perm (List.range 3) := by decide
  refine ⟨hperm, ?_⟩
  have hlength : (corpusSentences "none\none\n\ntwo").length = 3 := by
    rw [Sample.corpusSentences_undeclared]
    rfl
  have hall := parseCorpusConcurrently_eq_parseCorpus Sample.undeclared (fun _ => [2, 1, 0])
    "none\none\n\ntwo" (by rw [hlength]; exact hperm)
  refine (hall.2.2 _).2 ?_
  rw [Sample.corpusSentences_undeclared]
  refine ⟨[(1, ["none"])], 2, ["one"], [(4, ["two"])], rfl, ?_, Sample.parse_one, rfl⟩
  intro sentence hs e hfatal
  obtain rfl := List.mem_singleton.1 hs
  obtain rfl := Except.error.inj (Sample.parse_none.symm.trans hfatal.1)
  exact nomatch hfatal.2

end PregroupGrammar
