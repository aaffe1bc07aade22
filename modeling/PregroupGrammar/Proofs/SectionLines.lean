import PregroupGrammar.Proofs.ReaderState
import PregroupGrammar.Proofs.TextPieces

/-!
# The lines of a grammar text, each on its own

The reader and the grammars of the sections spell lines in ways of their own. They agree on which
lines count (`trimmedLines_numberedLines`) and on the two fields of a line (`twoFields_eq`), on what
opens a table or a tag, and so on every line that puts something into the draft
(`substitutionLine_eq`, `metaruleLine_eq`, `entryLine_eq`, `reductionLine_eq`).

The contents put into an empty draft in the order of the lines make up the draft that they describe
(`draft_eq`).
-/

namespace PregroupGrammar.GrammarText

open Fallible Text

section Numbered

/-- The lines with numbers on are those between the line feeds, save a last one that is empty. A
carriage return in front of a line feed is a blank. -/
theorem trimmedLines_numberedLines (text : String) :
    trimmedLines (numberedLines text.toList) = contentLines text := by
  obtain ⟨front, last, hparts, -⟩ := exists_lastPiece '\n' text.toList
  have hnumbers : numberedLines text.toList = ((lines text.toList).zipIdx 1).map Prod.swap := by
    rw [numberedLines, List.zipIdx_succ, List.map_map]
    rfl
  have hfront : ((front.map dropReturn).zipIdx 1).map (fun line => (line.2, trim line.1)) =
      (front.zipIdx 1).map fun line => (line.2, trim line.1) := by
    rw [List.zipIdx_map, List.map_map]
    exact List.map_congr_left fun line _ => congrArg (line.2, ·) (trim_dropReturn line.1)
  have hlines : lines text.toList = front.map dropReturn ++ if last = [] then [] else [last] := by
    unfold lines
    simp only [hparts, List.dropLast_concat, List.getLast?_concat]
    cases last <;> rfl
  -- The pieces but the last agree one by one. A last piece that is empty counts on neither side.
  rw [trimmedLines, hnumbers, List.map_map, contentLines, hparts, hlines, List.zipIdx_append,
    List.zipIdx_append, List.map_append, List.map_append, List.filter_append, List.filter_append]
  refine congrArg₂ (· ++ ·) (congrArg _ hfront) ?_
  rw [List.length_map]
  cases last <;> rfl

theorem length_numberedLines (text : String) :
    (numberedLines text.toList).length = lastNumber text := by
  obtain ⟨front, last, hparts, hlast, htext⟩ := exists_lastPiece '\n' text.toList
  have hcount : text.toList.count '\n' = front.length := by
    have hlength := length_splitOn (a := '\n') text.toList
    rw [hparts, List.length_append] at hlength
    simpa using hlength.symm
  have hend : text.toList.getLast?.all (· = '\n') = decide (last = []) := by
    rw [htext]
    rcases List.eq_nil_or_concat last with rfl | ⟨last, c, rfl⟩
    · rcases List.eq_nil_or_concat front with rfl | ⟨front, l, rfl⟩
      · rfl
      · simp [List.flatMap_append, ← List.append_assoc]
    · have hc : c ≠ '\n' := fun h => hlast (by simp [h])
      simp [← List.append_assoc, hc]
  rw [lastNumber, hcount, hend, numberedLines, List.length_map, List.length_zipIdx, lines, hparts]
  rcases last with _ | ⟨c, last⟩ <;> simp

end Numbered

section Spelling

/-- Two fields are there exactly if the separator is, and only once. -/
theorem twoFields_eq (form : TwoFields) (line : List Char) :
    twoFields form line = fieldsOf form.separator form line := by
  obtain ⟨first, rest, hsplit⟩ :=
    List.exists_cons_of_ne_nil (List.splitOn_ne_nil form.separator line)
  obtain ⟨hline, hfirst, -⟩ := splitOn_eq_cons_iff.1 hsplit
  have hcount : line.count form.separator = rest.length := by
    have hlength := length_splitOn (a := form.separator) line
    rw [hsplit, List.length_cons] at hlength
    omega
  have hfree : ∀ c ∈ first, decide (c ≠ form.separator) = true := fun c hc =>
    decide_eq_true fun hsame => hfirst (hsame ▸ hc)
  unfold twoFields fieldsOf
  rw [hsplit, hcount]
  rcases rest with _ | ⟨second, _ | ⟨third, rest⟩⟩
  · simp
  · have hleft : line.takeWhile (· ≠ form.separator) = first := by
      rw [hline, List.takeWhile_append_of_pos hfree]
      simp
    have hright : (line.dropWhile (· ≠ form.separator)).tail = second := by
      rw [hline, List.dropWhile_append_of_pos hfree]
      simp
    rw [hleft, hright]
    simp [← not_or]
  · simp

theorem ofLine?_eq (line : Line) : SuffixTable.ofLine? line.2 = tableOf? line := by
  have hfind : ∀ (table : SuffixTable) (tables : List SuffixTable),
      (table :: tables).find? (fun table => hasPart table.header.toList line.2) =
        if table.header.toList <:+: line.2 then some table
        else tables.find? fun table => hasPart table.header.toList line.2 := by
    intro table tables
    split_ifs with hheader
    · exact List.find?_cons_of_pos (hasPart_iff.2 hheader)
    · exact List.find?_cons_of_neg fun h => hheader (hasPart_iff.1 h)
  rw [SuffixTable.ofLine?, hfind, hfind, hfind, hfind]
  rfl

theorem beforeEnding?_eq (line : Line) :
    (beforeEnding? [':'] line.2).map (line.1, ·) = tagOf? line := by
  unfold tagOf?
  split_ifs with hcolon
  · have hline : line.2 = line.2.dropLast ++ [':'] :=
      (List.dropLast_append_getLast? _ hcolon).symm
    rw [beforeEnding?_eq_some_iff.2 hline]
    rfl
  · have hnone : beforeEnding? [':'] line.2 = none := by
      refine Option.eq_none_iff_forall_ne_some.2 fun front hfront => hcolon ?_
      rw [beforeEnding?_eq_some_iff.1 hfront, List.getLast?_concat]
    rw [hnone]
    rfl

theorem entryType_eq : Draft.entryType = entryTypeOf := by
  funext cs
  have hblank : (trim cs).isEmpty = cs.all isBlank := by
    rw [Bool.eq_iff_iff, List.isEmpty_iff, trim_eq_nil_iff, List.all_eq_true]
  rw [Draft.entryType, entryTypeOf, hblank]
  rfl

end Spelling

section Updates

variable (d : Draft)

/-- The draft with one more atom type. -/
def putName (name : String × Bool) : Draft :=
  if name.2 then d.standaloneType name.1 else d.atomType name.1

/-- The draft with more marker categories. -/
def putMarkers (categories : List MarkerCategory) : Draft :=
  { d with markers := d.markers ++ categories }

/-- The draft with more rows in its tables. -/
def putRows (rows : List Morphology) : Draft :=
  { d with morphology := joinTables (d.morphology :: rows) }

/-- The draft with more metarules. -/
def putRules (rules : List Metarule) : Draft :=
  { d with metarules := d.metarules ++ rules }

/-- The draft with one more entry, unless its word has one. -/
def putEntry (entry : Entry) : Draft :=
  d.entry entry.word entry.types

/-- The draft with more reductions. -/
def putReductions (rules : List (String × String)) : Draft :=
  { d with reductions := d.reductions ++ rules }

theorem readCount_eq (number : Nat) (line : List Char) :
    readCount number line = (countOf line).map fun count => ⟨count, number⟩ := by
  unfold readCount countOf
  rcases Numeral.count? line with _ | count <;> rfl

theorem atomTypeLine_eq (line : List Char) :
    d.atomTypeLine line = (nameOf line).map (putName d) := by
  fun_cases nameOf line with
  | case1 name hblank =>
    rw [Draft.atomTypeLine, if_pos hblank]
    rfl
  | case2 name hblank =>
    rw [Draft.atomTypeLine, if_neg hblank]
    rfl
  | case3 line hplain =>
    rw [Draft.atomTypeLine]
    · rfl
    · exact hplain

theorem substitutionLine_eq (table : SuffixTable) (line : List Char) :
    d.substitutionLine table line = (rowOf table line).map fun row => putRows d [row] := by
  cases table with
  | verbs => simp [Draft.substitutionLine, rowOf, putRows, joinTables, Except.map]
  | nouns => simp [Draft.substitutionLine, rowOf, putRows, joinTables, Except.map]
  | adjectives => simp [Draft.substitutionLine, rowOf, putRows, joinTables, Except.map]
  | irregulars =>
    simp only [Draft.substitutionLine, twoFields_eq, TwoFields.separator, rowOf, map_eq_bind,
      bind_assoc, pure_bind]
    simp [putRows, joinTables]

theorem metaruleLine_eq (tag : Int64) (line : List Char) :
    d.metaruleLine tag line = (ruleOf tag line).map fun rule => putRules d [rule] := by
  simp only [Draft.metaruleLine, twoFields_eq, TwoFields.separator, ruleOf, map_eq_bind, bind_assoc]
  rfl

theorem entryLine_eq (line : List Char) : d.entryLine line = (entryOf line).map (putEntry d) := by
  simp only [Draft.entryLine, twoFields_eq, TwoFields.separator, entryType_eq, entryOf, map_eq_bind,
    bind_assoc, pure_bind, putEntry]

theorem reductionLine_eq (line : List Char) :
    d.reductionLine line = (reductionOf line).map fun rule => putReductions d [rule] := by
  simp only [Draft.reductionLine, twoFields_eq, TwoFields.separator, reductionOf, map_eq_bind,
    bind_assoc, pure_bind]
  rfl

/-- Nothing put into a draft leaves it as it is, and two lists may be put in one after the other. -/
structure PutsInOrder {α : Type} (put : Draft → List α → Draft) : Prop where
  nil : ∀ d, put d [] = d
  append : ∀ d as bs, put d (as ++ bs) = put (put d as) bs

theorem putsInOrder_markers : PutsInOrder putMarkers :=
  ⟨by simp [putMarkers], by simp [putMarkers]⟩

theorem putsInOrder_rows : PutsInOrder putRows :=
  ⟨by simp [putRows, joinTables], by simp [putRows, joinTables]⟩

theorem putsInOrder_rules : PutsInOrder putRules :=
  ⟨by simp [putRules], by simp [putRules]⟩

theorem putsInOrder_reductions : PutsInOrder putReductions :=
  ⟨by simp [putReductions], by simp [putReductions]⟩

section InOrder

variable {α β : Type} {put : Draft → List α → Draft}

theorem PutsInOrder.foldl_flatMap (h : PutsInOrder put) (f : β → List α) (bs : List β) :
    bs.foldl (fun d b => put d (f b)) d = put d (bs.flatMap f) := by
  induction bs generalizing d with
  | nil => exact (h.nil d).symm
  | cons b bs ih => rw [List.foldl_cons, ih, List.flatMap_cons, h.append]

theorem PutsInOrder.foldl_groups (h : PutsInOrder put) (groups : List (List α)) :
    groups.foldl put d = put d groups.flatten := by
  simpa using h.foldl_flatMap d id groups

theorem PutsInOrder.foldl_items (h : PutsInOrder put) (as : List α) :
    as.foldl (fun d a => put d [a]) d = put d as := by
  rw [h.foldl_flatMap, List.flatMap_singleton']

end InOrder

theorem foldl_putName (names : List (String × Bool)) :
    names.foldl putName d = { d with
      inventory := d.inventory ++ names.map Prod.fst
      standalones := d.standalones ++ (names.filter Prod.snd).map Prod.fst } := by
  induction names generalizing d with
  | nil => simp
  | cons name names ih =>
    obtain ⟨name, standalone⟩ := name
    rw [List.foldl_cons, ih]
    cases standalone <;> simp [putName, Draft.standaloneType, Draft.atomType, Draft.standalone]

theorem foldl_putEntry (entries : List Entry) :
    entries.foldl putEntry d = { d with
      entries := List.eraseDupsBy.loop (·.word == ·.word) entries d.entries.reverse } := by
  induction entries generalizing d with
  | nil => simp [List.eraseDupsBy.loop]
  | cons entry entries ih =>
    have hknown : d.entries.reverse.any (entry.word == ·.word) =
        d.entries.any (·.word == entry.word) := by
      rw [List.any_reverse]
      exact congrArg d.entries.any (funext fun other => BEq.comm)
    rw [List.foldl_cons, ih, List.eraseDupsBy.loop, hknown]
    unfold putEntry Draft.entry
    rcases d.entries.any (·.word == entry.word) <;> simp

/-- The contents put into an empty draft, one section after the other, make their draft. -/
theorem draft_eq (c : Contents) (settings : GrammarSettings) :
    putReductions (c.entries.foldl putEntry (putRules (putRows (putMarkers
      (c.names.foldl putName { settings }) c.markers) c.tables.flatten) c.rules.flatten))
      c.reductions = c.draft settings := by
  rw [foldl_putName, foldl_putEntry]
  simp [putReductions, putRules, putRows, putMarkers, joinTables, Contents.draft, List.eraseDupsBy]

end Updates

end PregroupGrammar.GrammarText
