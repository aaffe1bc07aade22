import Mathlib.Logic.Relation
import PregroupGrammar.Proofs.LoadedGrammar
import PregroupGrammar.Proofs.SectionBySection
import PregroupGrammar.Proofs.TextPieces

/-!
# Layout does not change a grammar

Lines of blanks and blanks at either end of a line may be added to a grammar text (`AddsLayout`).
The lines that count, trimmed, stay the same (`AddsLayout.contents_eq`); only their numbers change.
The reader keeps these numbers for its errors and looks at them nowhere else, so without them its
result depends on the contents of the lines alone (`unnumber_ofText`).
-/

namespace PregroupGrammar

open Fallible

namespace Text

/-- Blanks, and none of them ends a line. -/
def Padding (pad : List Char) : Prop :=
  ∀ c ∈ pad, isBlank c = true ∧ c ≠ '\n'

/-- A line begins after the text. -/
def BeginsLine (front : List Char) : Prop :=
  front = [] ∨ ∃ before, front = before ++ ['\n']

/-- A line ends before the text, with whatever there is of a line end. -/
def EndsLine (back : List Char) : Prop :=
  back = [] ∨ (∃ after, back = '\n' :: after) ∨ ∃ after, back = '\r' :: '\n' :: after

/-- The second text is the first one with blanks at the beginning or at the end of a line, or
with one more line of blanks. -/
inductive AddsLayout : List Char → List Char → Prop where
  | lineBegin {front pad back : List Char} (hfront : BeginsLine front) (hpad : Padding pad) :
      AddsLayout (front ++ back) (front ++ (pad ++ back))
  | lineEnd {front pad back : List Char} (hback : EndsLine back) (hpad : Padding pad) :
      AddsLayout (front ++ back) (front ++ pad ++ back)
  | line {front pad back : List Char} (hfront : BeginsLine front) (hpad : Padding pad) :
      AddsLayout (front ++ back) (front ++ (pad ++ '\n' :: back))
  | lastLine {front pad : List Char} (hpad : Padding pad) :
      AddsLayout front (front ++ '\n' :: pad)

/-- Any number of blanks and lines of blanks have been added to the text. -/
def Relaid (text text' : String) : Prop :=
  Relation.ReflTransGen AddsLayout text.toList text'.toList

section Trim

variable {pad : List Char}

theorem Padding.notMem (h : Padding pad) : '\n' ∉ pad :=
  fun hm => (h _ hm).2 rfl

theorem trim_padding_append (h : Padding pad) (cs : List Char) : trim (pad ++ cs) = trim cs := by
  rw [trim, List.dropWhile_append_of_pos fun c hc => (h c hc).1]
  rfl

theorem trim_append_padding (cs : List Char) (h : Padding pad) : trim (cs ++ pad) = trim cs :=
  trim_append_blanks cs fun c hc => (h c hc).1

theorem padding_singleton {c : Char} (hblank : isBlank c = true) (hc : c ≠ '\n') : Padding [c] :=
  List.forall_mem_singleton.2 ⟨hblank, hc⟩

theorem padding_return : Padding ['\r'] :=
  padding_singleton (by decide) (by decide)

end Trim

section Contents

variable {pad front back : List Char}

/-- What the lines of a text hold, trimmed, without the lines that hold nothing. -/
def contents (cs : List Char) : List (List Char) :=
  ((cs.splitOn '\n').map trim).filter (!·.isEmpty)

theorem contents_append_cons (cs cs' : List Char) :
    contents (cs ++ '\n' :: cs') = contents cs ++ contents cs' := by
  rw [contents, List.splitOn_append_cons_self, List.map_append, List.filter_append]
  rfl

theorem contents_of_notMem {cs : List Char} (h : '\n' ∉ cs) :
    contents cs = [trim cs].filter (!·.isEmpty) := by
  rw [contents, List.splitOn_eq_singleton h]
  rfl

theorem BeginsLine.contents_append (h : BeginsLine front) (cs : List Char) :
    contents (front ++ cs) = contents front ++ contents cs := by
  rcases h with rfl | ⟨before, rfl⟩
  · rfl
  · rw [List.append_assoc, contents_append_cons before [], List.singleton_append,
      contents_append_cons]
    exact congrArg (· ++ contents cs) (List.append_nil (contents before)).symm

theorem contents_padding_append (h : Padding pad) (cs : List Char) :
    contents (pad ++ cs) = contents cs := by
  obtain ⟨first, rest, hsplit⟩ := List.exists_cons_of_ne_nil (List.splitOn_ne_nil '\n' cs)
  obtain ⟨hcs, hfirst, hrest⟩ := splitOn_eq_cons_iff.1 hsplit
  have hpadded : (pad ++ cs).splitOn '\n' = (pad ++ first) :: rest :=
    splitOn_eq_cons_iff.2 ⟨by rw [hcs, List.append_assoc], by simp [h.notMem, hfirst], hrest⟩
  rw [contents, contents, hpadded, hsplit, List.map_cons, List.map_cons, trim_padding_append h]

theorem contents_padding (h : Padding pad) : contents pad = [] := by
  rw [← List.append_nil pad, contents_padding_append h]
  rfl

/-- Every text ends in a line without its end, which may be empty. -/
theorem exists_lastLine (cs : List Char) :
    ∃ front last, cs = front ++ last ∧ BeginsLine front ∧ '\n' ∉ last := by
  induction cs using List.reverseRecOn with
  | nil => exact ⟨[], [], rfl, .inl rfl, by simp⟩
  | append_singleton cs c ih =>
    by_cases hc : c = '\n'
    · exact ⟨cs ++ [c], [], by simp, .inr ⟨cs, by rw [hc]⟩, by simp⟩
    · obtain ⟨front, last, rfl, hfront, hlast⟩ := ih
      exact ⟨front, last ++ [c], by simp, hfront, by simp [hlast, Ne.symm hc]⟩

theorem contents_append_padding (cs : List Char) (h : Padding pad) :
    contents (cs ++ pad) = contents cs := by
  obtain ⟨front, last, rfl, hfront, hlast⟩ := exists_lastLine cs
  have hpadded : '\n' ∉ last ++ pad := by simp [hlast, h.notMem]
  rw [List.append_assoc, hfront.contents_append, hfront.contents_append,
    contents_of_notMem hpadded, contents_of_notMem hlast, trim_append_padding last h]

/-- What comes after the end of a line adds its contents, whatever the line is. -/
theorem EndsLine.contents_append (h : EndsLine back) (cs : List Char) :
    contents (cs ++ back) = contents cs ++ contents back := by
  -- The line feed in front of what comes after is an empty line of its own, which adds nothing.
  have hfeed : ∀ cs after,
      contents (cs ++ '\n' :: after) = contents cs ++ contents ('\n' :: after) :=
    contents_append_cons
  rcases h with rfl | ⟨after, rfl⟩ | ⟨after, rfl⟩
  · rw [List.append_nil]
    exact (List.append_nil _).symm
  · exact hfeed cs after
  · have hreturn : contents ('\r' :: '\n' :: after) = contents ('\n' :: after) :=
      contents_padding_append padding_return _
    rw [hreturn, ← hfeed, ← List.singleton_append, ← List.append_assoc, hfeed,
      contents_append_padding cs padding_return, hfeed]

theorem AddsLayout.contents_eq {cs cs' : List Char} (h : AddsLayout cs cs') :
    contents cs' = contents cs := by
  cases h with
  | lineBegin hfront hpad =>
    rw [hfront.contents_append, hfront.contents_append, contents_padding_append hpad]
  | lineEnd hback hpad =>
    rw [hback.contents_append, hback.contents_append, contents_append_padding _ hpad]
  | line hfront hpad =>
    rw [hfront.contents_append, hfront.contents_append, contents_append_cons,
      contents_padding hpad, List.nil_append]
  | lastLine hpad =>
    rw [contents_append_cons, contents_padding hpad, List.append_nil]

theorem Relaid.contents_eq {text text' : String} (h : Relaid text text') :
    contents text'.toList = contents text.toList := by
  unfold Relaid at h
  generalize text'.toList = cs' at h
  induction h with
  | refl => rfl
  | tail _ hstep ih => exact hstep.contents_eq.trans ih

theorem contentLines_eq (text : String) :
    (GrammarText.contentLines text).map Prod.snd = contents text.toList := by
  calc (GrammarText.contentLines text).map Prod.snd
      = ((((text.toList.splitOn '\n').zipIdx 1).map fun line => (line.2, trim line.1)).map
          Prod.snd).filter (!·.isEmpty) := by
        rw [List.filter_map]
        rfl
    _ = ((((text.toList.splitOn '\n').zipIdx 1).map Prod.fst).map trim).filter (!·.isEmpty) := by
        rw [List.map_map, List.map_map]
        rfl
    _ = contents text.toList := by
        rw [List.zipIdx_map_fst]
        rfl

end Contents

end Text

section Unnumbered

/-- The error without its line. -/
def Error.unnumbered : Error → Error
  | .grammarFormat _ fault => .grammarFormat 0 fault
  | e => e

/-- What comes of a step with all line numbers left out, those in the error and, through `f`, those
in the result. -/
def unnumber {α β : Type} (f : α → β) (r : Except Error α) : Except Error β :=
  (r.mapError Error.unnumbered).map f

variable {α α' β β' : Type} {f : α → α'} {g : β → β'}

theorem unnumber_bind {x : Except Error α} {y : α → Except Error β}
    {y' : α' → Except Error β'} (h : ∀ a, unnumber g (y a) = y' (f a)) :
    unnumber g (x >>= y) = unnumber f x >>= y' := by
  rcases x with e | a
  · rfl
  · exact h a

theorem unnumber_foldlM {step : α → β → Except Error α} {step' : α' → β' → Except Error α'}
    (h : ∀ a b, unnumber f (step a b) = step' (f a) (g b)) :
    ∀ (l : List β) (a : α), unnumber f (l.foldlM step a) = (l.map g).foldlM step' (f a)
  | [], _ => rfl
  | b :: l, a => by
    rw [List.foldlM_cons, List.map_cons, List.foldlM_cons, ← h]
    exact unnumber_bind fun a' => unnumber_foldlM h l a'

/-- Two errors that are the same, up to the line that a fault of a grammar text is on. -/
def Error.SameButLine (e e' : Error) : Prop :=
  e = e' ∨ ∃ line line' fault, e = .grammarFormat line fault ∧ e' = .grammarFormat line' fault

theorem Error.sameButLine_of_unnumbered {e e' : Error} (h : e.unnumbered = e'.unnumbered) :
    e.SameButLine e' := by
  cases e <;> cases e' <;> simp_all [Error.unnumbered, Error.SameButLine]

end Unnumbered

namespace GrammarText

/-- The mode without the line of its count. -/
def Mode.unnumbered : Mode → Mode
  | .atomTypes declared => .atomTypes (declared.map fun d => ⟨d.count, 0⟩)
  | .markers declared => .markers (declared.map fun d => ⟨d.count, 0⟩)
  | s => s

theorem unnumbered_next? (s : Mode) : s.unnumbered.next? = s.next? := by
  cases s <;> rfl

theorem next?_unnumbered {s next : Mode} (h : s.next? = some next) :
    next.unnumbered = next := by
  cases s <;> cases h <;> rfl

theorem unnumber_closeSection (s : Mode) (d : Draft) (number : Nat) :
    unnumber id (closeSection s d number) = closeSection s.unnumbered d 0 := by
  have hcount : ∀ (declared : Declared) (what : Counted) (found : Nat),
      unnumber id (checkCount declared what found) =
        checkCount ⟨declared.count, 0⟩ what found := by
    intro declared what found
    unfold checkCount
    split_ifs <;> rfl
  rcases s with (_ | declared) | (_ | declared) | _ | _ | _ | _
  · rfl
  · exact hcount declared .atomTypes d.inventory.length
  · rfl
  · exact hcount declared .markerCategories d.markers.length
  all_goals rfl

/-- A line is read without its number, which is kept with a count. -/
theorem readLine_unnumbered (s : Mode) (d : Draft) (number : Nat) (line : List Char) :
    (readLine s d number line).map (Prod.map Mode.unnumbered id) =
      readLine s.unnumbered d 0 line := by
  have hcount : ∀ make : Declared → Mode,
      (∀ declared, (make declared).unnumbered = make ⟨declared.count, 0⟩) →
      ((readCount number line).map fun count => (make count, d)).map
          (Prod.map Mode.unnumbered id) =
        (readCount 0 line).map fun count => (make count, d) := by
    intro make hmake
    unfold readCount
    rcases Numeral.count? line with _ | count
    · rfl
    · exact congrArg (fun s => Except.ok (s, d)) (hmake ⟨count, number⟩)
  rcases s with (_ | declared) | (_ | declared) | table | tag | _ | _
  · exact hcount (fun count => .atomTypes (some count)) fun _ => rfl
  · exact map_map
  · exact hcount (fun count => .markers (some count)) fun _ => rfl
  · exact map_map
  · simp only [readLine, Mode.unnumbered]
    split
    · rfl
    · exact map_map
    · rfl
  · simp only [readLine, Mode.unnumbered]
    split
    · exact map_map
    · exact map_map
    · rfl
  · exact map_map
  · exact map_map

/-- What the reader does with a line depends on numbers only where it keeps or reports them. -/
theorem unnumber_contentStep (state : Mode × Draft) (line : Line) :
    unnumber (Prod.map Mode.unnumbered id) (contentStep state line) =
      contentStep (Prod.map Mode.unnumbered id state) (0, line.2) := by
  obtain ⟨s, d⟩ := state
  have hbreak : isBreak (0, line.2) = isBreak line := rfl
  unfold contentStep
  simp only [hbreak, Prod.map_apply, id]
  split_ifs
  · rw [← unnumber_closeSection s d line.1, unnumbered_next?]
    refine unnumber_bind fun _ => ?_
    rcases hnext : s.next? with _ | next
    · rfl
    · exact congrArg (fun s => Except.ok (s, d)) (next?_unnumbered hnext)
  · rw [readAs, readAs, ← readLine_unnumbered s d line.1]
    rcases readLine s d line.1 line.2 with fault | state <;> rfl

theorem unnumber_readFrom (s : Mode) (d : Draft) (lines : List Line) (last : Nat) :
    unnumber id (readFrom s d lines last) =
      readFrom s.unnumbered d (lines.map fun line => (0, line.2)) 0 := by
  have hend : ∀ state, unnumber id (endSection last state) =
      endSection 0 (Prod.map Mode.unnumbered id state) := by
    rintro ⟨s, d⟩
    change _ = closeSection s.unnumbered d 0 >>= fun _ => pure d
    rw [← unnumber_closeSection s d last]
    exact unnumber_bind fun _ => rfl
  unfold readFrom
  rw [unnumber_bind hend, unnumber_foldlM unnumber_contentStep]
  rfl

/-- Without numbers, the draft or the error depends on the contents of the lines only. -/
theorem unnumber_ofText (settings : GrammarSettings) (text : String) :
    unnumber id (Draft.ofText settings text) =
      readFrom (.atomTypes none) { settings } ((Text.contents text.toList).map (0, ·)) 0 := by
  rw [ofText_eq_readFrom, trimmedLines_numberedLines, unnumber_readFrom, ← Text.contentLines_eq,
    List.map_map]
  rfl

end GrammarText

/-- Blanks at either end of a line and lines of blanks, wherever they are added to a grammar text,
change neither the grammar nor the error, save the number of the line that the error names. -/
theorem ofText_ignores_layout (settings : GrammarSettings) {text text' : String}
    (h : Text.Relaid text text') :
    (∃ g, Grammar.ofText settings text = .ok g ∧ Grammar.ofText settings text' = .ok g) ∨
      ∃ e e', Grammar.ofText settings text = .error e ∧
        Grammar.ofText settings text' = .error e' ∧ e.SameButLine e' := by
  have hbuild : ∀ text, unnumber id (Grammar.ofText settings text) =
      unnumber id (Draft.ofText settings text) >>= fun d => unnumber id d.build :=
    fun text => unnumber_bind fun _ => rfl
  have hsame : unnumber id (Grammar.ofText settings text) =
      unnumber id (Grammar.ofText settings text') := by
    rw [hbuild, hbuild, GrammarText.unnumber_ofText, GrammarText.unnumber_ofText, h.contents_eq]
  rcases hg : Grammar.ofText settings text with e | g <;>
    rcases hg' : Grammar.ofText settings text' with e' | g' <;> rw [hg, hg'] at hsame
  · exact .inr ⟨e, e', rfl, rfl, Error.sameButLine_of_unnumbered (Except.error.inj hsame)⟩
  · cases hsame
  · cases hsame
  · obtain rfl : g = g' := Except.ok.inj hsame
    exact .inl ⟨g, rfl, rfl⟩

/-- A line with a tab in front of the first line, and a carriage return after the last. -/
theorem ofText_ignores_layout_sample :
    Text.Relaid Sample.text ("\t\n" ++ Sample.text ++ "\r") ∧
      Grammar.ofText {} ("\t\n" ++ Sample.text ++ "\r") = .ok Sample.loaded := by
  have hline : ∀ cs, Text.AddsLayout cs ('\t' :: '\n' :: cs) := fun cs =>
    @Text.AddsLayout.line [] ['\t'] cs (.inl rfl)
      (Text.padding_singleton (by decide) (by decide))
  have hend : ∀ cs, Text.AddsLayout cs (cs ++ ['\r']) := fun cs => by
    simpa using @Text.AddsLayout.lineEnd cs ['\r'] [] (.inl rfl) Text.padding_return
  have hrelaid : Text.Relaid Sample.text ("\t\n" ++ Sample.text ++ "\r") := by
    rw [Text.Relaid, String.toList_append, String.toList_append]
    exact .tail (.single (hline _)) (hend _)
  refine ⟨hrelaid, ?_⟩
  rcases ofText_ignores_layout {} hrelaid with ⟨g, hg, hg'⟩ | ⟨e, e', he, -⟩
  · rw [hg', ← hg, Sample.ofText_text]
  · rw [Sample.ofText_text] at he
    cases he

end PregroupGrammar
