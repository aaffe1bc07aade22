import PregroupGrammar.Proofs.SectionGrammar

/-!
# What the reader of a grammar text has in hand

The reader carries a declared count, a counter, an open marker category, a table and a tag through
all sections, and clears each of them in its own place. Which of them are in use depends on the
section, and what they hold then is determined by a mode, the section with the one thing in force
there, and by the draft in which the open category has been closed (`Shows`). So a reader that has
only a mode and a draft does the same on every line (`shows_step`), and with it the text can be
read in one account of each section.

Behind a section break nothing is in hand (`Shows.startsSection`): no count, nothing seen, no open
category, and no table or tag in the sections that use them.
-/

namespace PregroupGrammar.GrammarText

open Fallible

/-- The section that is being read, with the count, table or tag in force. -/
inductive Mode where
  | atomTypes (declared : Option Declared)
  | markers (declared : Option Declared)
  | substitutions (table : Option SuffixTable)
  | metarules (tag : Option Int64)
  | entries
  | reductions

section Condensed

/-- The section after this one, at its beginning. -/
def Mode.next? : Mode → Option Mode
  | atomTypes _ => some (markers none)
  | markers _ => some (substitutions none)
  | substitutions _ => some (metarules none)
  | metarules _ => some entries
  | entries => some reductions
  | reductions => none

/-- A line with a count. -/
def readCount (number : Nat) (line : List Char) : Except FormatFault Declared :=
  match Numeral.count? line with
  | some count => .ok ⟨count, number⟩
  | none => .error (.badCount (String.ofList line))

/-- The draft with one more value of the marker category that was declared last. -/
def putValue (d : Draft) (value : String) : Draft :=
  { d with markers := d.markers.dropLast ++
      d.markers.getLast?.toList.map fun c => { c with values := c.values ++ [value] } }

/-- A line of the second section after the count. -/
def readMarker (d : Draft) (line : List Char) : Except FormatFault Draft :=
  match line with
  | '#' :: value =>
    if d.markers.isEmpty then .error .valueBeforeCategory
    else .ok (putValue d (String.ofList (Text.trim value)))
  | _ => .ok (d.markerCategory (String.ofList line) [])

/-- One line of a section, not blank and not a section break. -/
def readLine (mode : Mode) (d : Draft) (number : Nat) (line : List Char) :
    Except FormatFault (Mode × Draft) :=
  match mode with
  | .atomTypes none => (readCount number line).map fun count => (.atomTypes (some count), d)
  | .atomTypes (some _) => (d.atomTypeLine line).map (mode, ·)
  | .markers none => (readCount number line).map fun count => (.markers (some count), d)
  | .markers (some _) => (readMarker d line).map (mode, ·)
  | .substitutions table =>
    match SuffixTable.ofLine? line, table with
    | some table, _ => .ok (.substitutions (some table), d)
    | none, some table => (d.substitutionLine table line).map (mode, ·)
    | none, none => .error .rowBeforeTable
  | .metarules tag =>
    match Text.beforeEnding? [':'] line, tag with
    | some tag, _ => (Draft.tagLine tag).map fun tag => (.metarules (some tag), d)
    | none, some tag => (d.metaruleLine tag line).map (mode, ·)
    | none, none => .error .ruleBeforeTag
  | .entries => (d.entryLine line).map (mode, ·)
  | .reductions => (d.reductionLine line).map (mode, ·)

/-- Fails if the section declared another number of things than the draft holds. -/
def checkCount (declared : Declared) (what : Counted) (found : Nat) : Except Error Unit :=
  if declared.count = found then .ok ()
  else .error (.grammarFormat declared.line (.countMismatch declared.count what found))

/-- The checks at the end of a section, which is noticed on line `number`. -/
def closeSection (mode : Mode) (d : Draft) (number : Nat) : Except Error Unit :=
  match mode with
  | .atomTypes none => .error (.grammarFormat number .missingCount)
  | .atomTypes (some declared) => checkCount declared .atomTypes d.inventory.length
  | .markers (some declared) => checkCount declared .markerCategories d.markers.length
  | _ => .ok ()

/-- One line that counts. -/
def contentStep (state : Mode × Draft) (line : Line) : Except Error (Mode × Draft) :=
  if isBreak line then do
    closeSection state.1 state.2 line.1
    match state.1.next? with
    | some next => return (next, state.2)
    | none => .error (.grammarFormat line.1 .manySections)
  else readAs (readLine state.1 state.2 line.1) line

/-- The draft at the end of a section that stops on the given line. -/
def endSection (stop : Nat) (state : Mode × Draft) : Except Error Draft := do
  closeSection state.1 state.2 stop
  return state.2

/-- The draft after the lines from a section on. -/
def readFrom (mode : Mode) (d : Draft) (lines : List Line) (last : Nat) : Except Error Draft :=
  lines.foldlM contentStep (mode, d) >>= endSection last

end Condensed

/-- What each of the fields of the reader holds where it has this mode and this draft. -/
inductive Shows : Reader → Mode × Draft → Prop
  | atomTypes {d : Draft} {declared : Option Declared} (hmarkers : d.markers = []) :
    Shows ⟨d, .atomTypes, declared, d.inventory.length, none, none, none⟩ (.atomTypes declared, d)
  | noCategory {d : Draft} {declared : Option Declared} (hmarkers : d.markers = []) :
    Shows ⟨d, .markers, declared, 0, none, none, none⟩ (.markers declared, d)
  | category {d : Draft} {declared : Declared} (category : MarkerCategory) :
    Shows ⟨d, .markers, some declared, d.markers.length + 1, some category, none, none⟩
      (.markers (some declared), d.markerCategory category.name category.values)
  | substitutions {d : Draft} {table : Option SuffixTable} :
    Shows ⟨d, .substitutions, none, 0, none, table, none⟩ (.substitutions table, d)
  | metarules {d : Draft} {table : Option SuffixTable} {tag : Option Int64} :
    Shows ⟨d, .metarules, none, 0, none, table, tag⟩ (.metarules tag, d)
  | entries {d : Draft} {table : Option SuffixTable} {tag : Option Int64} :
    Shows ⟨d, .entries, none, 0, none, table, tag⟩ (.entries, d)
  | reductions {d : Draft} {table : Option SuffixTable} {tag : Option Int64} :
    Shows ⟨d, .reductions, none, 0, none, table, tag⟩ (.reductions, d)

section Simulation

variable {r : Reader} {state : Mode × Draft} {d d' : Draft} {line : List Char}

theorem shows_start (settings : GrammarSettings) :
    Shows (.start settings) (.atomTypes none, { settings }) :=
  .atomTypes rfl

/-- An atom type that is read is one more in the inventory. -/
theorem atomTypeLine_grows (h : d.atomTypeLine line = .ok d') :
    d'.inventory.length = d.inventory.length + 1 ∧ d'.markers = d.markers := by
  unfold Draft.atomTypeLine at h
  repeat' split at h
  · cases h
  · obtain rfl := Except.ok.inj h
    simp [Draft.standaloneType, Draft.standalone, Draft.atomType]
  · obtain rfl := Except.ok.inj h
    simp [Draft.atomType]

theorem putValue_markerCategory (d : Draft) (c : MarkerCategory) (value : String) :
    putValue (d.markerCategory c.name c.values) value =
      d.markerCategory c.name (c.values ++ [value]) := by
  simp [putValue, Draft.markerCategory]

/-- Both readers do the same with a count, whatever section it stands in. -/
theorem shows_countLine {mode : Option Declared → Mode} (number : Nat)
    (hshows : ∀ declared, Shows { r with declared } (mode declared, d)) :
    Alike Eq Shows (r.countLine number line)
      ((readCount number line).map fun declared => (mode (some declared), d)) := by
  unfold Reader.countLine readCount
  rcases Numeral.count? line with _ | count
  · exact .error rfl
  · exact .ok (hshows _)

theorem shows_put {x : Except FormatFault Draft} {put : Draft → Reader} {mode : Mode}
    (hshows : ∀ d', x = .ok d' → Shows (put d') (mode, d')) :
    Alike Eq Shows (do return put (← x)) (x.map (mode, ·)) := by
  rcases x with fault | d'
  · exact .error rfl
  · exact .ok (hshows d' rfl)

theorem readMarker_name (hname : ∀ value, line = '#' :: value → False) :
    readMarker d line = .ok (d.markerCategory (String.ofList line) []) := by
  rw [readMarker]
  exact hname

theorem shows_noCategory (hmarkers : d.markers = []) (declared : Declared) (number : Nat)
    (line : List Char) :
    Alike Eq Shows
      (Reader.markerLine ⟨d, .markers, some declared, 0, none, none, none⟩ number line)
      ((readMarker d line).map (.markers (some declared), ·)) := by
  have hseen : 0 + 1 = d.markers.length + 1 := by rw [hmarkers, List.length_nil]
  unfold Reader.markerLine
  simp only
  split
  · rw [readMarker, if_pos (by simp [hmarkers])]
    exact .error rfl
  · rename_i hname
    rw [readMarker_name hname, hseen]
    exact .ok (.category ⟨String.ofList line, []⟩)

theorem shows_category (category : MarkerCategory) (declared : Declared) (number : Nat)
    (line : List Char) :
    Alike Eq Shows
      (Reader.markerLine ⟨d, .markers, some declared, d.markers.length + 1, some category, none,
        none⟩ number line)
      ((readMarker (d.markerCategory category.name category.values) line).map
        (.markers (some declared), ·)) := by
  have hseen : d.markers.length + 1 =
      (d.markerCategory category.name category.values).markers.length := by
    simp [Draft.markerCategory]
  unfold Reader.markerLine
  simp only
  split
  · rw [readMarker, if_neg (by simp [Draft.markerCategory]), putValue_markerCategory]
    exact .ok (.category { category with values := _ })
  · -- The open category is flushed: it is the last one of the draft, and the new one is open.
    rename_i hname
    rw [readMarker_name hname, hseen]
    exact .ok (.category ⟨String.ofList line, []⟩)

theorem shows_substitutionLine (table : Option SuffixTable) (line : List Char) :
    Alike Eq Shows (Reader.substitutionLine ⟨d, .substitutions, none, 0, none, table, none⟩ line)
      (readLine (.substitutions table) d 0 line) := by
  unfold Reader.substitutionLine readLine
  simp only
  rcases SuffixTable.ofLine? line with _ | header
  · rcases table with _ | table
    · exact .error rfl
    · exact shows_put fun _ _ => .substitutions
  · exact .ok .substitutions

theorem shows_metaruleLine (table : Option SuffixTable) (tag : Option Int64) (line : List Char) :
    Alike Eq Shows (Reader.metaruleLine ⟨d, .metarules, none, 0, none, table, tag⟩ line)
      (readLine (.metarules tag) d 0 line) := by
  unfold Reader.metaruleLine readLine
  simp only
  rcases Text.beforeEnding? [':'] line with _ | header
  · rcases tag with _ | tag
    · exact .error rfl
    · exact shows_put fun _ _ => .metarules
  · simp only [map_eq_bind]
    rcases Draft.tagLine header with fault | number
    · exact .error rfl
    · exact .ok .metarules

theorem shows_readLine (h : Shows r state) (number : Nat) (line : List Char) :
    Alike Eq Shows (r.readLine number line) (readLine state.1 state.2 number line) := by
  cases h with
  | @atomTypes d declared hmarkers =>
    cases declared with
    | none => exact shows_countLine number fun _ => .atomTypes hmarkers
    | some declared =>
      refine shows_put fun d' hd' => ?_
      obtain ⟨hlength, hsame⟩ := atomTypeLine_grows hd'
      rw [← hlength]
      exact .atomTypes (hsame.trans hmarkers)
  | @noCategory d declared hmarkers =>
    cases declared with
    | none => exact shows_countLine number fun _ => .noCategory hmarkers
    | some declared => exact shows_noCategory hmarkers declared number line
  | @category d declared category => exact shows_category category declared number line
  | @substitutions d table => exact shows_substitutionLine table line
  | @metarules d table tag => exact shows_metaruleLine table tag line
  | entries => exact shows_put fun _ _ => .entries
  | reductions => exact shows_put fun _ _ => .reductions

theorem shows_checkCount {what : Counted} {declared : Declared} {seen : Nat} {r' : Reader}
    (hcheck : r.checkCount number = if declared.count = seen then .ok () else
      .error (.grammarFormat declared.line (.countMismatch declared.count what seen)))
    (hr' : { r with declared := none, seen := 0 } = r') :
    Alike Eq (fun r _ => r = r')
      (do r.checkCount number; return { r with declared := none, seen := 0 })
      (checkCount declared what seen) := by
  rw [hcheck, checkCount]
  split
  · exact .ok hr'
  · exact .error rfl

/-- A section that ends puts the open category into the draft, checks the count and clears both. -/
theorem shows_finishSection (h : Shows r state) (number : Nat) :
    Alike Eq (fun r' _ =>
        r' = ⟨state.2, r.part, none, 0, none, r.suffixTable, r.metaruleTag⟩)
      (r.finishSection number) (closeSection state.1 state.2 number) := by
  cases h with
  | @atomTypes d declared hmarkers =>
    cases declared with
    | none => exact .error rfl
    | some declared => exact shows_checkCount rfl rfl
  | @noCategory d declared hmarkers =>
    cases declared with
    | none => exact .ok rfl
    | some declared =>
      have hcount : closeSection (.markers (some declared)) d number =
          checkCount declared .markerCategories 0 := by
        rw [closeSection, hmarkers, List.length_nil]
      rw [hcount]
      exact shows_checkCount rfl rfl
  | @category d declared category =>
    have hcount : closeSection (.markers (some declared))
        (d.markerCategory category.name category.values) number =
          checkCount declared .markerCategories (d.markers.length + 1) := by
      simp [closeSection, Draft.markerCategory]
    rw [hcount]
    exact shows_checkCount rfl rfl
  | substitutions => exact .ok rfl
  | metarules => exact .ok rfl
  | entries => exact .ok rfl
  | reductions => exact .ok rfl

theorem shows_break (h : Shows r state) (number : Nat) :
    Alike Eq Shows
      (do
        let r ← r.finishSection number
        match r.part.next? with
        | some part => return { r with part }
        | none => .error (.grammarFormat number .manySections))
      (do
        closeSection state.1 state.2 number
        match state.1.next? with
        | some next => return (next, state.2)
        | none => .error (.grammarFormat number .manySections)) := by
  refine (shows_finishSection h number).bind fun r' _ hr' => ?_
  subst hr'
  -- The table and the tag stay, but only one section looks at each of them, and it comes only once.
  cases h with
  | atomTypes hmarkers => exact .ok (.noCategory hmarkers)
  | noCategory hmarkers => exact .ok .substitutions
  | category category => exact .ok .substitutions
  | substitutions => exact .ok .metarules
  | metarules => exact .ok .entries
  | entries => exact .ok .reductions
  | reductions => exact .error rfl

/-- Both readers do the same with a line. -/
theorem shows_step (h : Shows r state) (line : Line) :
    Alike Eq Shows (r.step line) (if (Text.trim line.2).isEmpty then .ok state
      else contentStep state (line.1, Text.trim line.2)) := by
  have hbreak : isBreak (line.1, Text.trim line.2) = true ↔ Text.trim line.2 = sectionBreak := by
    rw [isBreak, beq_iff_eq]
    rfl
  unfold Reader.step contentStep
  simp only [hbreak]
  split
  · exact .ok h
  · split
    · exact shows_break h line.1
    · exact (shows_readLine h line.1 (Text.trim line.2)).mapError _

end Simulation

section Whole

variable {settings : GrammarSettings}

/-- The numbered lines of a text that are not blank, trimmed. -/
def trimmedLines (lines : List Line) : List Line :=
  (lines.map fun line => (line.1, Text.trim line.2)).filter (!·.2.isEmpty)

/-- Blank lines can be left out beforehand. -/
theorem foldlM_trimmedLines : ∀ (lines : List Line) (state : Mode × Draft),
    lines.foldlM (fun state line => if (Text.trim line.2).isEmpty then .ok state
      else contentStep state (line.1, Text.trim line.2)) state =
        (trimmedLines lines).foldlM contentStep state
  | [], _ => rfl
  | line :: lines, state => by
    rw [List.foldlM_cons, trimmedLines, List.map_cons, List.filter_cons]
    by_cases hblank : (Text.trim line.2).isEmpty = true
    · rw [if_pos hblank, if_neg (by simp [hblank])]
      exact foldlM_trimmedLines lines state
    · rw [if_neg hblank, if_pos (by simp [hblank]), List.foldlM_cons]
      exact bind_congr fun state' => foldlM_trimmedLines lines state'

theorem shows_foldlM (settings : GrammarSettings) (lines : List Line) :
    Alike Eq Shows (lines.foldlM Reader.step (.start settings))
      ((trimmedLines lines).foldlM contentStep (.atomTypes none, { settings })) := by
  rw [← foldlM_trimmedLines]
  exact Alike.foldlM (fun _ _ line h => shows_step h line) lines (shows_start settings)

/-- The reader makes of a text what the reader of modes makes of the lines that are not blank. -/
theorem ofText_eq_readFrom (settings : GrammarSettings) (text : String) :
    Draft.ofText settings text = readFrom (.atomTypes none) { settings }
      (trimmedLines (Text.numberedLines text.toList)) (Text.numberedLines text.toList).length := by
  refine ((shows_foldlM settings _).bind fun r state h => ?_).eq
  refine (shows_finishSection h _).bind fun r' _ hr' => ?_
  subst hr'
  exact .ok rfl

end Whole

/-- Nothing is in hand: no count, no category and none of the things counted, and no table or tag
where they are used. -/
structure StartsSection (r : Reader) : Prop where
  declared : r.declared = none
  seen : r.seen = 0
  openCategory : r.openCategory = none
  suffixTable : r.part = .substitutions → r.suffixTable = none
  metaruleTag : r.part = .metarules → r.metaruleTag = none

theorem Shows.startsSection {r : Reader} {mode next : Mode} {d : Draft}
    (hnext : mode.next? = some next) (h : Shows r (next, d)) : StartsSection r := by
  cases mode <;> cases hnext <;> cases h <;> constructor <;> simp

/-- Behind a section break, whatever came before it, the reader has nothing in hand. -/
theorem startsSection_of_break {settings : GrammarSettings} {front : List Line} {line : Line}
    {r : Reader} (hbreak : isBreak (line.1, Text.trim line.2) = true)
    (h : (front ++ [line]).foldlM Reader.step (.start settings) = .ok r) : StartsSection r := by
  rw [List.foldlM_append, bind_eq_ok] at h
  obtain ⟨r₀, hfront, hstep⟩ := h
  rw [List.foldlM_cons, bind_eq_ok] at hstep
  obtain ⟨r₁, hstep, hlast⟩ := hstep
  obtain rfl := Except.ok.inj hlast
  obtain ⟨⟨mode, d⟩, -, h₀⟩ := (hfront ▸ shows_foldlM settings front).exists_ok
  obtain ⟨state, hstate, hshows⟩ := (hstep ▸ shows_step h₀ line).exists_ok
  have hstars : Text.trim line.2 = "**********".toList := eq_of_beq hbreak
  have hblank : ¬ (Text.trim line.2).isEmpty = true := by
    rw [hstars]
    decide
  rw [if_neg hblank, contentStep, if_pos hbreak, bind_eq_ok] at hstate
  obtain ⟨⟨⟩, -, hstate⟩ := hstate
  rcases hnext : mode.next? with _ | next
  · simp [hnext] at hstate
  · simp only [hnext] at hstate
    obtain rfl := Except.ok.inj hstate
    exact hshows.startsSection hnext

end PregroupGrammar.GrammarText
