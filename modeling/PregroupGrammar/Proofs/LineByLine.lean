import Mathlib.Data.List.ReduceOption
import PregroupGrammar.Proofs.ConcurrentCorpus

/-!
# A corpus is parsed line by line

Parsing a corpus finds its sentences first and parses them then. It comes to parsing one line after
the other and keeping the reports that there are (`parseCorpus_eq_parseLine`): both take a line
apart in the same way, skip those without words and number the others alike. The report on a line
is therefore that of `parseLine` on this line alone (`LineByLine.alone`).

The statistics count each sentence of a report once, whether or not it comes from a run
(`CorpusReport.Tallied`).
-/

namespace PregroupGrammar

open Fallible

/-- The counters of a report add up. -/
structure CorpusReport.Tallied (r : CorpusReport) : Prop where
  total : r.grammatical + r.unparsable + r.unresolved = r.total
  grammatical : r.firstTry + r.repaired = r.grammatical
  /-- So no sentence is lost when the unresolved ones are counted by a subtraction. -/
  outcomes_le : r.outcomes.length ≤ r.total

section Counters

/-- Only an accepted path has been repaired. -/
theorem Outcome.isGrammatical_of_wasRepaired {o : Outcome} (h : o.wasRepaired = true) :
    o.isGrammatical = true := by
  unfold wasRepaired at h
  unfold isGrammatical
  rcases ha : o.acceptance with _ | a
  · simp [ha] at h
  · rfl

theorem countP_firstTry_add_repaired (outcomes : List Outcome) :
    outcomes.countP (fun o => o.isGrammatical && !o.wasRepaired) +
        outcomes.countP Outcome.wasRepaired = outcomes.countP Outcome.isGrammatical := by
  rw [List.countP_eq_countP_filter_add outcomes Outcome.isGrammatical Outcome.wasRepaired,
    Nat.add_comm, List.countP_filter, List.countP_filter]
  refine congrArg₂ _ (List.countP_congr fun o _ => ?_) (List.countP_congr fun o _ => ?_)
  · rw [Bool.and_eq_true]
    exact ⟨fun h => ⟨Outcome.isGrammatical_of_wasRepaired h, h⟩, And.right⟩
  · simp only [Bool.and_eq_true]

theorem CorpusReport.tallied (r : CorpusReport) : r.Tallied where
  outcomes_le := List.length_filterMap_le _ _
  grammatical := countP_firstTry_add_repaired r.outcomes
  total := by
    have hle : r.outcomes.length ≤ r.total := List.length_filterMap_le _ _
    have hsum : r.outcomes.length = r.grammatical + r.unparsable := by
      rw [List.length_eq_countP_add_countP Outcome.isGrammatical]
      exact congrArg (r.grammatical + ·) (List.countP_congr fun o _ => by simp)
    unfold CorpusReport.unresolved
    omega

end Counters

/-- The sentence on a line, if the line has any words. -/
def sentence? (line : Nat × List Char) : Option (Nat × List String) :=
  let words := Text.tokenize line.2
  if words.isEmpty then none else some (line.1, words)

theorem corpusSentences_eq (text : String) :
    corpusSentences text = (Text.numberedLines text.toList).filterMap sentence? :=
  rfl

theorem sentence?_fst {line : Nat × List Char} {sentence : Nat × List String}
    (h : sentence? line = some sentence) : sentence.1 = line.1 := by
  simp only [sentence?] at h
  split_ifs at h
  exact Option.some.inj h ▸ rfl

theorem filterMap_sentence? (lines : List (Nat × List Char)) :
    lines.filterMap sentence? =
      (lines.map fun line => (line.1, Text.tokenize line.2)).filter (!·.2.isEmpty) := by
  rw [← List.filterMap_eq_filter, List.filterMap_map]
  refine List.filterMap_congr fun line _ => ?_
  simp only [sentence?, Function.comp_apply, Option.guard]
  by_cases hwords : (Text.tokenize line.2).isEmpty = true <;> simp [hwords]

namespace Parser

variable {p : Parser} {lines : List (Nat × List Char)} {results : List (Option SentenceReport)}
  {line : Nat × List Char}

/-- The report on a line with its number, if the line has any words. -/
def parseNumbered (p : Parser) (line : Nat × List Char) :
    Except Error (Option SentenceReport) :=
  p.parseLine line.1 line.2

theorem parseNumbered_eq (p : Parser) (line : Nat × List Char) :
    p.parseNumbered line = match sentence? line with
      | none => .ok none
      | some sentence => (p.reportOn sentence).map some := by
  simp only [parseNumbered, parseLine, sentence?]
  split_ifs <;> rfl

theorem parseNumbered_of_none (h : sentence? line = none) : p.parseNumbered line = .ok none := by
  rw [parseNumbered_eq, h]

theorem parseNumbered_of_some {sentence : Nat × List String} (h : sentence? line = some sentence) :
    p.parseNumbered line = (p.reportOn sentence).map some := by
  rw [parseNumbered_eq, h]

/-- A report on a line has the number and the words of the line, and there is one just if there
are words. -/
theorem parseNumbered_eq_ok {result : Option SentenceReport}
    (h : p.parseNumbered line = .ok result) :
    result.map (fun r => (r.line, r.words)) = sentence? line := by
  rcases hs : sentence? line with _ | sentence
  · obtain rfl := Except.ok.inj ((parseNumbered_of_none hs).symm.trans h)
    rfl
  · obtain ⟨r, hr, rfl⟩ := map_eq_ok.1 ((parseNumbered_of_some hs).symm.trans h)
    exact congrArg some (reportOn_eq_ok hr)

/-- Parsing the sentences of some lines comes to parsing the lines and keeping the reports. -/
theorem mapM_reportOn_eq (p : Parser) : ∀ lines : List (Nat × List Char),
    (lines.filterMap sentence?).mapM p.reportOn =
      (lines.mapM p.parseNumbered).map List.reduceOption
  | [] => rfl
  | line :: lines => by
    have ih := mapM_reportOn_eq p lines
    rcases hs : sentence? line with _ | sentence
    · rw [List.filterMap_cons_none hs, ih, mapM_cons_ok (parseNumbered_of_none hs), map_map]
      rfl
    · have hline := parseNumbered_of_some (p := p) hs
      rw [List.filterMap_cons_some hs]
      rcases hreport : p.reportOn sentence with e | r
      · rw [hreport] at hline
        rw [mapM_cons_error hreport, mapM_cons_error hline]
        rfl
      · rw [hreport] at hline
        rw [mapM_cons_ok hreport, mapM_cons_ok hline, ih, map_map, map_map]
        rfl

theorem parseCorpus_eq_parseLine (p : Parser) (text : String) :
    p.parseCorpus text = ((Text.numberedLines text.toList).mapM p.parseNumbered).map
      fun results => ⟨results.reduceOption⟩ := by
  rw [parseCorpus_eq, corpusSentences_eq, mapM_reportOn_eq, map_map]

/-- The report has what the lines give, line by line. -/
structure LineByLine (p : Parser) (lines : List (Nat × List Char)) (report : CorpusReport) :
    Prop where
  /-- The sentences are the reports on the lines, in order, where there is one. -/
  results : ∃ results, List.Forall₂ (fun line result => p.parseLine line.1 line.2 = .ok result)
    lines results ∧ report.sentences = results.reduceOption
  /-- The lines with words are there, with their words, and no others. -/
  words : report.sentences.map (fun r => (r.line, r.words)) =
    (lines.map fun line => (line.1, Text.tokenize line.2)).filter (!·.2.isEmpty)
  increasing : (report.sentences.map SentenceReport.line).Pairwise (· < ·)
  /-- What there is under the number of a line is what the line gives on its own. -/
  alone : ∀ line ∈ lines,
    p.parseLine line.1 line.2 = .ok (report.sentences.find? (·.line == line.1))

/-- The results of parsing some lines. -/
abbrev Results (p : Parser) (lines : List (Nat × List Char))
    (results : List (Option SentenceReport)) : Prop :=
  List.Forall₂ (fun line result => p.parseNumbered line = .ok result) lines results

theorem Results.words_eq (h : p.Results lines results) :
    results.reduceOption.map (fun r => (r.line, r.words)) = lines.filterMap sentence? := by
  induction h with
  | nil => rfl
  | @cons line result _ _ hline _ ih =>
    have hresult := parseNumbered_eq_ok hline
    rcases result with _ | r
    · rw [List.reduceOption_cons_of_none, List.filterMap_cons_none hresult.symm, ih]
    · rw [List.reduceOption_cons_of_some, List.filterMap_cons_some hresult.symm, List.map_cons, ih]

/-- The numbers of the reports are those of the lines, in order, with some left out. -/
theorem Results.numbers_sublist (h : p.Results lines results) :
    (results.reduceOption.map SentenceReport.line).Sublist (lines.map Prod.fst) := by
  have hwords := congrArg (List.map Prod.fst) (h.words_eq.trans (filterMap_sentence? lines))
  rw [List.map_map] at hwords
  have hsub := (List.filter_sublist (p := fun s : Nat × List String => !s.2.isEmpty)
    (l := lines.map fun line => (line.1, Text.tokenize line.2))).map Prod.fst
  rw [← hwords, List.map_map] at hsub
  exact hsub

/-- Each line finds its own report, since no two lines have one number. -/
theorem Results.find?_eq (h : p.Results lines results) (hnumbers : (lines.map Prod.fst).Nodup) :
    ∀ line ∈ lines,
      p.parseNumbered line = .ok (results.reduceOption.find? (·.line == line.1)) := by
  induction h with
  | nil => simp
  | @cons line result lines results hline hrest ih =>
    obtain ⟨hnew, hnumbers⟩ := List.nodup_cons.1 hnumbers
    have hresult := parseNumbered_eq_ok hline
    have hlater := (Results.numbers_sublist hrest).subset
    rcases result with _ | r
    · rw [List.reduceOption_cons_of_none]
      refine List.forall_mem_cons.2 ⟨?_, ih hnumbers⟩
      rw [hline, Eq.comm, Except.ok.injEq, List.find?_eq_none]
      rintro r hr hsame
      exact hnew (beq_iff_eq.1 hsame ▸ hlater (List.mem_map_of_mem hr))
    · have hr : r.line = line.1 := sentence?_fst hresult.symm
      rw [List.reduceOption_cons_of_some]
      refine List.forall_mem_cons.2 ⟨?_, fun other hother => ?_⟩
      · rw [hline]
        exact congrArg Except.ok (List.find?_cons_of_pos (by simp [hr])).symm
      · have hne : r.line ≠ other.1 := fun he => hnew (hr ▸ he ▸ List.mem_map_of_mem hother)
        rw [List.find?_cons_of_neg (by simpa using hne)]
        exact ih hnumbers other hother

theorem numberedLines_numbers (cs : List Char) :
    (Text.numberedLines cs).map Prod.fst = List.range' 1 (Text.lines cs).length := by
  calc (Text.numberedLines cs).map Prod.fst
      = ((Text.lines cs).zipIdx.map Prod.snd).map (1 + ·) := by
        rw [Text.numberedLines, List.map_map, List.map_map]
        exact List.map_congr_left fun x _ => Nat.add_comm x.2 1
    _ = List.range' 1 (Text.lines cs).length := by
        rw [List.zipIdx_map_snd, List.map_add_range']

theorem lineByLine_of_parseCorpus {text : String} {report : CorpusReport}
    (h : p.parseCorpus text = .ok report) :
    p.LineByLine (Text.numberedLines text.toList) report := by
  rw [parseCorpus_eq_parseLine] at h
  obtain ⟨results, hresults, rfl⟩ := map_eq_ok.1 h
  have hall : p.Results (Text.numberedLines text.toList) results := mapM_eq_ok.1 hresults
  have hincreasing : ((Text.numberedLines text.toList).map Prod.fst).Pairwise (· < ·) := by
    rw [numberedLines_numbers]
    exact List.pairwise_lt_range'
  exact {
    results := ⟨results, hall, rfl⟩
    words := hall.words_eq.trans (filterMap_sentence? _)
    increasing := hincreasing.sublist hall.numbers_sublist
    alone := hall.find?_eq (hincreasing.imp Nat.ne_of_lt) }

theorem parseCorpus_eq_error_iff_line {text : String} {e : Error} :
    p.parseCorpus text = .error e ↔ ∃ before line after,
      Text.numberedLines text.toList = before ++ line :: after ∧
        (∀ other ∈ before, ∃ r, p.parseLine other.1 other.2 = .ok r) ∧
        p.parseLine line.1 line.2 = .error e := by
  rw [parseCorpus_eq_parseLine, map_eq_error]
  exact mapM_eq_error

end Parser

/-- A corpus report has what the lines of the text give on their own, so that the report on a line
is the same in any text with this line at this place; a run fails as the first line does that
cannot be parsed; and the counters of any report add up. -/
theorem parseCorpus_line_by_line (p : Parser) (text : String) :
    (∀ report, p.parseCorpus text = .ok report →
      p.LineByLine (Text.numberedLines text.toList) report ∧
      ∀ text' report', p.parseCorpus text' = .ok report' →
        ∀ line ∈ Text.numberedLines text.toList, line ∈ Text.numberedLines text'.toList →
          report.sentences.find? (·.line == line.1) =
            report'.sentences.find? (·.line == line.1)) ∧
    (∀ e, p.parseCorpus text = .error e ↔ ∃ before line after,
      Text.numberedLines text.toList = before ++ line :: after ∧
        (∀ other ∈ before, ∃ r, p.parseLine other.1 other.2 = .ok r) ∧
        p.parseLine line.1 line.2 = .error e) ∧
    ∀ report : CorpusReport, report.Tallied := by
  refine ⟨fun report h => ?_, fun e => Parser.parseCorpus_eq_error_iff_line,
    CorpusReport.tallied⟩
  have hreport := Parser.lineByLine_of_parseCorpus h
  refine ⟨hreport, fun text' report' h' line hline hline' => ?_⟩
  have hreport' := Parser.lineByLine_of_parseCorpus h'
  exact Except.ok.inj ((hreport.alone line hline).symm.trans (hreport'.alone line hline'))

namespace Sample

/-- The report on a word that is not in the dictionary. -/
def unknownReport (number : Nat) : SentenceReport :=
  ⟨number, ["none"], .unresolved (Error.unknownWord "none").message⟩

theorem reportOn_none (number : Nat) :
    undeclared.reportOn (number, ["none"]) = .ok (unknownReport number) := by
  rw [Parser.reportOn, Parser.report, parse_none]
  rfl

theorem parseCorpus_none : undeclared.parseCorpus "?\nnone" = .ok ⟨[unknownReport 2]⟩ := by
  have hsentences : corpusSentences "?\nnone" = [(2, ["none"])] := by decide +kernel
  rw [Parser.parseCorpus_eq, hsentences, mapM_cons_ok (reportOn_none 2)]
  rfl

theorem parseCorpus_none_none :
    undeclared.parseCorpus "none\nnone" = .ok ⟨[unknownReport 1, unknownReport 2]⟩ := by
  have hsentences : corpusSentences "none\nnone" = [(1, ["none"]), (2, ["none"])] := by
    decide +kernel
  rw [Parser.parseCorpus_eq, hsentences, mapM_cons_ok (reportOn_none 1),
    mapM_cons_ok (reportOn_none 2)]
  rfl

end Sample

/-- The second line is the same in two texts whose first lines differ, one of them without words. -/
theorem parseCorpus_line_by_line_sample :
    Sample.undeclared.parseCorpus "?\nnone" = .ok ⟨[Sample.unknownReport 2]⟩ ∧
      Sample.undeclared.LineByLine (Text.numberedLines "?\nnone".toList)
        ⟨[Sample.unknownReport 2]⟩ ∧
      [Sample.unknownReport 2].find? (·.line == 2) =
        [Sample.unknownReport 1, Sample.unknownReport 2].find? (·.line == 2) := by
  obtain ⟨hreport, -, -⟩ := parseCorpus_line_by_line Sample.undeclared "?\nnone"
  obtain ⟨hlines, hsame⟩ := hreport _ Sample.parseCorpus_none
  exact ⟨Sample.parseCorpus_none, hlines, hsame _ _ Sample.parseCorpus_none_none
    (2, "none".toList) (by decide +kernel) (by decide +kernel)⟩

end PregroupGrammar
