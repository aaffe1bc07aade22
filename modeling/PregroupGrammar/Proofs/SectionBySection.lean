import Mathlib.Data.List.TakeWhile
import PregroupGrammar.Proofs.SectionLines

/-!
# A grammar text is read section by section

Reading a grammar text line by line gives what reading its six blocks on their own gives
(`ofText_eq_readSections`), the same draft or the same fault on the same line.

The lines up to a break are the next block, and what the reader does with them depends on nothing
but the block (`readFrom_next`). Within a block the lines are rows (`foldlM_rows`), or groups of
rows, each under the line that opens it (`foldlM_open`, `foldlM_groups`).
-/

namespace PregroupGrammar.GrammarText

open Fallible

section Cut

variable {lines block : List Line}

/-- The lines up to the first break. -/
def firstBlock (lines : List Line) : List Line :=
  lines.takeWhile (!isBreak ·)

/-- The first break, if there is one, and the lines after it. -/
def fromBreak (lines : List Line) : List Line :=
  lines.dropWhile (!isBreak ·)

/-- None of the lines is a break. -/
def Unbroken (lines : List Line) : Prop :=
  ∀ line ∈ lines, isBreak line = false

theorem unbroken_firstBlock (lines : List Line) : Unbroken (firstBlock lines) := by
  intro line hline
  simpa using List.mem_takeWhile_imp hline

theorem firstBlock_append_fromBreak (lines : List Line) :
    firstBlock lines ++ fromBreak lines = lines :=
  List.takeWhile_append_dropWhile

theorem isBreak_of_fromBreak {line : Line} {rest : List Line} (h : fromBreak lines = line :: rest) :
    isBreak line = true := by
  have hhead := List.head?_dropWhile_not (!isBreak ·) lines
  rw [← fromBreak, h] at hhead
  simpa using hhead

/-- The lines after the first so many breaks. -/
def afterBreaks : Nat → List Line → List Line
  | 0, lines => lines
  | k + 1, lines => afterBreaks k (fromBreak lines).tail

theorem Unbroken.filter_isBreak (h : Unbroken block) : block.filter isBreak = [] :=
  List.filter_eq_nil_iff.2 fun line hline => by simp [h line hline]

/-- The lines are one block, or a block, a break and the lines after it. -/
theorem cut_cases (lines : List Line) :
    (fromBreak lines = [] ∧ firstBlock lines = lines ∧ lines.splitOnP isBreak = [lines] ∧
      lines.filter isBreak = []) ∨
    ∃ line rest, fromBreak lines = line :: rest ∧
      lines.splitOnP isBreak = firstBlock lines :: rest.splitOnP isBreak ∧
      lines.filter isBreak = line :: rest.filter isBreak := by
  have hall := firstBlock_append_fromBreak lines
  have hblock := unbroken_firstBlock lines
  rcases h : fromBreak lines with _ | ⟨line, rest⟩
  · rw [h, List.append_nil] at hall
    rw [hall] at hblock
    exact .inl ⟨rfl, hall, List.splitOnP_eq_singleton hblock, hblock.filter_isBreak⟩
  · have hline := isBreak_of_fromBreak h
    rw [h] at hall
    refine .inr ⟨line, rest, rfl, ?_, ?_⟩
    · nth_rewrite 1 [← hall]
      exact List.splitOnP_append_cons_of_forall_mem hblock line hline rest
    · rw [← hall, List.filter_append, hblock.filter_isBreak, List.filter_cons_of_pos hline]
      rfl

theorem afterBreaks_nil (k : Nat) : afterBreaks k [] = [] := by
  induction k with
  | zero => rfl
  | succ k ih => exact ih

/-- The block and the break with a number stand after that many breaks. -/
theorem getD_splitOnP (k : Nat) (lines : List Line) :
    (lines.splitOnP isBreak).getD k [] = firstBlock (afterBreaks k lines) ∧
      (lines.filter isBreak)[k]? = (fromBreak (afterBreaks k lines)).head? := by
  induction k generalizing lines with
  | zero =>
    rcases cut_cases lines with
      ⟨hfrom, hfirst, hsplit, hfilter⟩ | ⟨line, rest, hfrom, hsplit, hfilter⟩
    · simp [afterBreaks, hfrom, hfirst, hsplit, hfilter]
    · simp [afterBreaks, hfrom, hsplit, hfilter]
  | succ k ih =>
    have hrest := ih (fromBreak lines).tail
    rcases cut_cases lines with ⟨hfrom, -, hsplit, hfilter⟩ | ⟨line, rest, hfrom, hsplit, hfilter⟩
    · have hnone : afterBreaks (k + 1) lines = [] := by
        rw [afterBreaks, hfrom]
        exact afterBreaks_nil k
      simp [hnone, hsplit, hfilter, firstBlock, fromBreak]
    · rw [afterBreaks, hsplit, hfilter, List.getD_cons_succ, List.getElem?_cons_succ]
      rwa [hfrom] at hrest ⊢

end Cut

section Sections

variable {s next : Mode} {d : Draft} {stop last : Nat}

theorem contentStep_of_not_break {line : Line} (h : isBreak line = false) :
    contentStep (s, d) line = readAs (readLine s d line.1) line := by
  rw [contentStep, h]
  rfl

theorem contentStep_eq_map {α : Type} {line : Line} {spelled : List Char → Except FormatFault α}
    {f : α → Mode × Draft} (h : isBreak line = false)
    (hread : readLine s d line.1 line.2 = (spelled line.2).map f) :
    contentStep (s, d) line = (readAs spelled line).map f := by
  rw [contentStep_of_not_break h, readAs, hread, mapError_map]
  rfl

/-- Reading a line stays in the section. -/
theorem next?_of_readLine {s' : Mode} {d' : Draft} {number : Nat} {line : List Char}
    (h : readLine s d number line = .ok (s', d')) : s'.next? = s.next? := by
  have hstay : ∀ {α : Type} {r : Except FormatFault α} {f : α → Mode × Draft},
      (∀ a, (f a).1.next? = s.next?) → r.map f = .ok (s', d') → s'.next? = s.next? := by
    intro α r f hf h
    obtain ⟨a, -, ha⟩ := map_eq_ok.1 h
    have := hf a
    rwa [ha] at this
  unfold readLine at h
  repeat' split at h
  all_goals first
    | exact hstay (fun _ => rfl) h
    | cases h; rfl
    | cases h

theorem next?_of_foldlM {block : List Line} {s' : Mode} {d' : Draft} (hblock : Unbroken block)
    (h : block.foldlM contentStep (s, d) = .ok (s', d')) : s'.next? = s.next? := by
  induction block generalizing s d with
  | nil =>
    obtain ⟨rfl, rfl⟩ := Prod.mk.inj (Except.ok.inj h)
    rfl
  | cons line block ih =>
    obtain ⟨hline, hblock⟩ := List.forall_mem_cons.1 hblock
    rw [List.foldlM_cons, contentStep_of_not_break hline] at h
    obtain ⟨⟨s₁, d₁⟩, hread, h⟩ := bind_eq_ok.1 h
    rw [ih hblock h, next?_of_readLine (mapError_eq_ok.1 hread)]

/-- The line on which the first block stops: the break after it, or the last line. -/
def stopOf (lines : List Line) (last : Nat) : Nat :=
  ((fromBreak lines).head?.map Prod.fst).getD last

/-- A section reads the block up to the next break, and the section after it goes on from there. -/
theorem readFrom_cut (s : Mode) (d : Draft) (lines : List Line) (last : Nat) :
    readFrom s d lines last =
      (firstBlock lines).foldlM contentStep (s, d) >>= endSection (stopOf lines last) >>= fun d =>
      match fromBreak lines, s.next? with
      | [], _ => .ok d
      | _ :: rest, some next => readFrom next d rest last
      | line :: _, none => .error (.grammarFormat line.1 .manySections) := by
  unfold readFrom stopOf
  nth_rewrite 1 [← firstBlock_append_fromBreak lines]
  rw [List.foldlM_append, bind_assoc, bind_assoc]
  rcases hfold : (firstBlock lines).foldlM contentStep (s, d) with e | ⟨s', d'⟩
  · rfl
  rcases h : fromBreak lines with _ | ⟨line, rest⟩
  · exact (bind_pure (endSection last (s', d'))).symm
  · -- The mode at the break need not be `s`, but the section after it is the same.
    have hstay := next?_of_foldlM (unbroken_firstBlock lines) hfold
    show (line :: rest).foldlM contentStep (s', d') >>= endSection last =
      endSection line.1 (s', d') >>= _
    simp only [List.foldlM_cons, contentStep, isBreak_of_fromBreak h, if_true, hstay, endSection,
      bind_assoc, pure_bind]
    rcases s.next? with _ | next <;> rfl

theorem readFrom_next {α : Type} {read : Except Error α} {put : α → Draft} {lines : List Line}
    (hnext : s.next? = some next) (hempty : ∀ d, endSection last (next, d) = .ok d)
    (hread : (firstBlock lines).foldlM contentStep (s, d) >>= endSection (stopOf lines last) =
      read.map put) :
    readFrom s d lines last =
      read >>= fun a => readFrom next (put a) (fromBreak lines).tail last := by
  rw [readFrom_cut, hnext, hread]
  simp only [map_eq_bind, bind_assoc, pure_bind]
  rcases fromBreak lines with _ | ⟨line, rest⟩
  · simp only [List.tail_nil, readFrom, List.foldlM_nil, pure_bind, hempty]
  · rfl

end Sections

section Rows

variable {α : Type} {s : Mode} {read : Line → Except Error α} {put : Draft → α → Draft}

/-- Lines that are all read in the same way are put into the draft one after the other. -/
theorem foldlM_rows (hrow : ∀ d line, isBreak line = false →
      contentStep (s, d) line = (read line).map fun a => (s, put d a)) :
    ∀ (block : List Line) (d : Draft), Unbroken block → block.foldlM contentStep (s, d) =
      (block.mapM read).map fun rows => (s, rows.foldl put d)
  | [], d, _ => rfl
  | line :: block, d, h => by
    obtain ⟨hline, hblock⟩ := List.forall_mem_cons.1 h
    rw [List.foldlM_cons, hrow d line hline]
    simp only [map_eq_bind, bind_assoc, pure_bind, List.mapM_cons, List.foldl_cons,
      foldlM_rows hrow block _ hblock]

end Rows

section Groups

variable {κ τ α γ : Type}

/-- How a section reads groups: `inside t` is the section inside a group whose head is read as `t`,
a draft has the group put into it as far as it is read, and the section is closed as a whole. -/
structure GroupSection (head? : Line → Option κ) (readHead : κ → Except Error τ)
    (readRow : τ → Line → Except Error α) (make : τ → List α → γ) (put : Draft → γ → Draft)
    (inside : τ → Mode) (close : Draft → Except Error Draft) (stop : Nat) : Prop where
  head : ∀ t d line head, isBreak line = false → head? line = some head →
    contentStep (inside t, d) line = (readHead head).map fun t => (inside t, put d (make t []))
  row : ∀ t d rows line, isBreak line = false → head? line = none →
    contentStep (inside t, put d (make t rows)) line =
      (readRow t line).map fun row => (inside t, put d (make t (rows ++ [row])))
  finish : ∀ t d, endSection stop (inside t, d) = close d

variable {head? : Line → Option κ} {readHead : κ → Except Error τ}
  {readRow : τ → Line → Except Error α} {make : τ → List α → γ} {put : Draft → γ → Draft}
  {inside : τ → Mode} {close : Draft → Except Error Draft} {stop : Nat}

/-- Inside a group, the rows up to the next head belong to it, and the other groups follow. -/
theorem foldlM_open (h : GroupSection head? readHead readRow make put inside close stop) :
    ∀ (lines : List Line) (t : τ) (d : Draft) (rows : List α), Unbroken lines →
      lines.foldlM contentStep (inside t, put d (make t rows)) >>= endSection stop =
        (headed head? lines).1.mapM (readRow t) >>= fun more =>
        (headed head? lines).2.mapM (fun group => do
          let t ← readHead group.1
          let rows ← group.2.mapM (readRow t)
          return make t rows) >>= fun groups =>
        close (groups.foldl put (put d (make t (rows ++ more))))
  | [], t, d, rows, _ => by
    rw [List.foldlM_nil, pure_bind, h.finish]
    simp [headed]
  | line :: lines, t, d, rows, hlines => by
    obtain ⟨hline, hlines⟩ := List.forall_mem_cons.1 hlines
    have ih := foldlM_open h lines
    rw [List.foldlM_cons]
    -- A row makes the open group longer, and a head opens the next one.
    rcases hhead : head? line with _ | head
    · rw [h.row t d rows line hline hhead]
      simp only [map_eq_bind, bind_assoc, pure_bind, headed, hhead, List.mapM_cons, ih _ _ _ hlines,
        List.append_assoc, List.singleton_append]
    · rw [h.head t _ line head hline hhead]
      simp only [map_eq_bind, bind_assoc, pure_bind, headed, hhead, List.mapM_cons, List.mapM_nil,
        ih _ _ _ hlines, List.nil_append, List.append_nil, List.foldl_cons]

/-- A section of groups starts outside all groups, where a row has no place. -/
theorem foldlM_groups (h : GroupSection head? readHead readRow make put inside close stop)
    (start : Mode) (d : Draft) (astray : FormatFault)
    (readGroup : κ → List Line → Except Error γ)
    (hgroup : ∀ head rows, readGroup head rows = do
      let t ← readHead head
      let rows ← rows.mapM (readRow t)
      return make t rows)
    (hhead : ∀ line head, isBreak line = false → head? line = some head →
      contentStep (start, d) line = (readHead head).map fun t => (inside t, put d (make t [])))
    (hrow : ∀ line, isBreak line = false → head? line = none →
      contentStep (start, d) line = .error (.grammarFormat line.1 astray))
    (hend : endSection stop (start, d) = close d) (lines : List Line) (hlines : Unbroken lines) :
    lines.foldlM contentStep (start, d) >>= endSection stop =
      readGroups head? astray readGroup lines >>= fun groups => close (groups.foldl put d) := by
  rcases lines with _ | ⟨line, lines⟩
  · exact hend
  · obtain ⟨hline, hlines⟩ := List.forall_mem_cons.1 hlines
    rw [List.foldlM_cons, readGroups, headed]
    rcases hh : head? line with _ | head
    · rw [hrow line hline hh]
      rfl
    · rw [hhead line head hline hh]
      simp only [hgroup, map_eq_bind, bind_assoc, pure_bind, List.mapM_cons,
        foldlM_open h lines _ _ _ hlines, List.nil_append, List.foldl_cons]

end Groups

section Blocks

variable {block : List Line} (d : Draft) (stop : Nat)

/-- A count that is as declared lets what was counted pass. -/
theorem checkCount_bind {α β : Type} {what : Counted} {found : Nat} (declared : Declared) (a : α)
    (f : α → Except Error β) :
    (checkCount declared what found >>= fun _ => f a) =
      (if declared.count = found then pure a
        else .error (.grammarFormat declared.line
          (.countMismatch declared.count what found))) >>= f := by
  unfold checkCount
  split <;> rfl

theorem foldlM_names (settings : GrammarSettings) (hblock : Unbroken block) :
    block.foldlM contentStep (.atomTypes none, { settings }) >>= endSection stop =
      (readNames stop block).map fun names => names.foldl putName { settings } := by
  rcases block with _ | ⟨first, lines⟩
  · rfl
  obtain ⟨hfirst, hlines⟩ := List.forall_mem_cons.1 hblock
  have hcount : contentStep (.atomTypes none, { settings }) first =
      (readAs countOf first).map fun count =>
        (.atomTypes (some ⟨count, first.1⟩), { settings }) := by
    refine contentStep_eq_map hfirst ?_
    rw [readLine, readCount_eq, map_map]
  have hname (declared : Declared) (d : Draft) (line : Line) (hline : isBreak line = false) :
      contentStep (.atomTypes (some declared), d) line =
        (readAs nameOf line).map fun name => (.atomTypes (some declared), putName d name) := by
    refine contentStep_eq_map hline ?_
    rw [readLine, atomTypeLine_eq, map_map]
  have hlength (names : List (String × Bool)) :
      (names.foldl putName { settings }).inventory.length = names.length := by
    simp [foldl_putName]
  rw [List.foldlM_cons, hcount, readNames]
  simp only [map_eq_bind, bind_assoc, pure_bind, foldlM_rows (hname _) lines _ hlines, endSection,
    closeSection, hlength]
  refine bind_congr fun count => bind_congr fun names => ?_
  exact checkCount_bind ⟨count, first.1⟩ names fun names => pure (names.foldl putName { settings })

theorem contentStep_category (declared : Declared) {line : Line} {name : String}
    (hline : isBreak line = false) (hname : categoryOf? line = some name) :
    contentStep (.markers (some declared), d) line =
      .ok (.markers (some declared), putMarkers d [⟨name, []⟩]) := by
  unfold categoryOf? at hname
  split at hname
  · cases hname
  · rename_i hhead
    obtain rfl := Option.some.inj hname
    rw [contentStep_of_not_break hline, readAs, readLine]
    unfold readMarker
    split
    · rename_i hvalue
      simp [hvalue] at hhead
    · rfl

theorem contentStep_value (declared : Declared) {line : Line} (hline : isBreak line = false)
    (hvalue : categoryOf? line = none) :
    contentStep (.markers (some declared), d) line =
      if d.markers.isEmpty then .error (.grammarFormat line.1 .valueBeforeCategory)
      else .ok (.markers (some declared), putValue d (valueOf line)) := by
  obtain ⟨number, cs⟩ := line
  have hhead : cs.head? = some '#' := by simpa [categoryOf?] using hvalue
  obtain ⟨value, rfl⟩ := List.head?_eq_some_iff.1 hhead
  rw [contentStep_of_not_break hline, readAs, readLine, readMarker]
  split <;> rfl

/-- The category that is open is the last one, and a value goes to it. -/
theorem groupSection_markers (declared : Declared) :
    GroupSection categoryOf? .ok (fun _ line => .ok (valueOf line)) MarkerCategory.mk
      (fun d category => putMarkers d [category]) (fun _ => .markers (some declared))
      (fun d => checkCount declared .markerCategories d.markers.length >>= fun _ => pure d)
      stop where
  head _ d line name hline hname := contentStep_category d declared hline hname
  row name d values line hline hvalue := by
    rw [contentStep_value _ declared hline hvalue, if_neg (by simp [putMarkers])]
    simp [putValue, putMarkers, Except.map]
  finish _ _ := rfl

theorem foldlM_markers (hmarkers : d.markers = []) (hblock : Unbroken block) :
    block.foldlM contentStep (.markers none, d) >>= endSection stop =
      (readMarkers block).map (putMarkers d) := by
  rcases block with _ | ⟨first, lines⟩
  · exact congrArg Except.ok (putsInOrder_markers.nil d).symm
  obtain ⟨hfirst, hlines⟩ := List.forall_mem_cons.1 hblock
  have hcount : contentStep (.markers none, d) first =
      (readAs countOf first).map fun count => (.markers (some ⟨count, first.1⟩), d) := by
    refine contentStep_eq_map hfirst ?_
    rw [readLine, readCount_eq, map_map]
  have hgroup (name : String) (values : List Line) :
      (.ok ⟨name, values.map valueOf⟩ : Except Error MarkerCategory) = do
        let name ← Except.ok name
        let values ← values.mapM fun line => .ok (valueOf line)
        return ⟨name, values⟩ := by
    have hvalues : values.mapM (fun line => (.ok (valueOf line) : Except Error String)) =
        .ok (values.map valueOf) := List.mapM_pure
    rw [hvalues]
    rfl
  have hastray (declared : Declared) (line : Line) (hline : isBreak line = false)
      (hvalue : categoryOf? line = none) : contentStep (.markers (some declared), d) line =
        .error (.grammarFormat line.1 .valueBeforeCategory) := by
    rw [contentStep_value d declared hline hvalue, if_pos (by simp [hmarkers])]
  have hrest (declared : Declared) := foldlM_groups (groupSection_markers stop declared)
    (.markers (some declared)) d .valueBeforeCategory
    (fun name values => .ok ⟨name, values.map valueOf⟩) hgroup
    (fun line name hline hname => contentStep_category d declared hline hname)
    (hastray declared) rfl lines hlines
  have hlength (categories : List MarkerCategory) :
      (putMarkers d categories).markers.length = categories.length := by
    simp [putMarkers, hmarkers]
  rw [List.foldlM_cons, hcount, readMarkers]
  simp only [map_eq_bind, bind_assoc, pure_bind, hrest, putsInOrder_markers.foldl_items, hlength]
  refine bind_congr fun count => bind_congr fun categories => ?_
  exact checkCount_bind ⟨count, first.1⟩ categories fun categories => pure (putMarkers d categories)

theorem contentStep_tableHeader (table? : Option SuffixTable) {table : SuffixTable} {line : Line}
    (hline : isBreak line = false) (hhead : tableOf? line = some table) :
    contentStep (.substitutions table?, d) line = .ok (.substitutions (some table), d) := by
  rw [contentStep_of_not_break hline, readAs]
  simp only [readLine, ofLine?_eq, hhead]
  rfl

theorem groupSection_tables :
    GroupSection tableOf? .ok (fun table => readAs (rowOf table))
      (fun _ rows => rows) putRows (fun table => .substitutions (some table)) .ok stop where
  head table d line _ hline hhead := by
    rw [contentStep_tableHeader d table hline hhead, putsInOrder_rows.nil]
    rfl
  row table d rows line hline hhead := by
    refine contentStep_eq_map hline ?_
    simp only [readLine, ofLine?_eq, hhead, substitutionLine_eq, map_map, putsInOrder_rows.append]
  finish _ _ := rfl

theorem foldlM_tables (hblock : Unbroken block) :
    block.foldlM contentStep (.substitutions none, d) >>= endSection stop =
      (readTables block).map fun tables => putRows d tables.flatten := by
  have hgroup (table : SuffixTable) (rows : List Line) :
      rows.mapM (readAs (rowOf table)) = Except.ok table >>= fun table =>
        rows.mapM (readAs (rowOf table)) >>= fun rows => pure rows := (bind_pure _).symm
  have hhead (line : Line) (table : SuffixTable) (hline : isBreak line = false)
      (hhead : tableOf? line = some table) :
      contentStep (.substitutions none, d) line =
        (Except.ok table).map fun table => (.substitutions (some table), putRows d []) := by
    rw [contentStep_tableHeader d none hline hhead, putsInOrder_rows.nil]
    rfl
  have hastray (line : Line) (hline : isBreak line = false)
      (hhead : tableOf? line = none) :
      contentStep (.substitutions none, d) line =
        .error (.grammarFormat line.1 .rowBeforeTable) := by
    rw [contentStep_of_not_break hline, readAs]
    simp only [readLine, ofLine?_eq, hhead]
    rfl
  rw [foldlM_groups (groupSection_tables stop) _ d _ _ hgroup hhead hastray rfl block hblock]
  simp only [readTables, map_eq_bind, putsInOrder_rows.foldl_groups]
  rfl

theorem contentStep_tag (tag? : Option Int64) {line tag : Line} (hline : isBreak line = false)
    (hhead : tagOf? line = some tag) :
    contentStep (.metarules tag?, d) line =
      (readAs numberOf tag).map fun tag => (.metarules (some tag), d) := by
  rw [← beforeEnding?_eq] at hhead
  obtain ⟨cs, hcs, rfl⟩ := Option.map_eq_some_iff.1 hhead
  rw [contentStep_of_not_break hline, readAs]
  simp only [readLine, hcs, mapError_map]
  rfl

theorem groupSection_rules :
    GroupSection tagOf? (readAs numberOf) (fun tag => readAs (ruleOf tag))
      (fun _ rules => rules) putRules (fun tag => .metarules (some tag)) .ok stop where
  head tag d line _ hline hhead := by
    simp only [contentStep_tag d tag hline hhead, putsInOrder_rules.nil]
  row tag d rules line hline hhead := by
    refine contentStep_eq_map hline ?_
    have hnone : Text.beforeEnding? [':'] line.2 = none :=
      Option.map_eq_none_iff.1 ((beforeEnding?_eq line).trans hhead)
    simp only [readLine, hnone, metaruleLine_eq, map_map, putsInOrder_rules.append]
  finish _ _ := rfl

theorem foldlM_rules (hblock : Unbroken block) :
    block.foldlM contentStep (.metarules none, d) >>= endSection stop =
      (readRules block).map fun rules => putRules d rules.flatten := by
  have hgroup (tag : Line) (rules : List Line) :
      (readAs numberOf tag >>= fun tag => rules.mapM (readAs (ruleOf tag))) =
        readAs numberOf tag >>= fun tag =>
          rules.mapM (readAs (ruleOf tag)) >>= fun rules => pure rules := by
    simp only [bind_pure]
  have hhead (line tag : Line) (hline : isBreak line = false) (hhead : tagOf? line = some tag) :
      contentStep (.metarules none, d) line = (readAs numberOf tag).map fun tag =>
        (.metarules (some tag), putRules d []) := by
    simp only [contentStep_tag d none hline hhead, putsInOrder_rules.nil]
  have hastray (line : Line) (hline : isBreak line = false) (hhead : tagOf? line = none) :
      contentStep (.metarules none, d) line = .error (.grammarFormat line.1 .ruleBeforeTag) := by
    have hnone : Text.beforeEnding? [':'] line.2 = none :=
      Option.map_eq_none_iff.1 ((beforeEnding?_eq line).trans hhead)
    rw [contentStep_of_not_break hline, readAs]
    simp only [readLine, hnone]
    rfl
  rw [foldlM_groups (groupSection_rules stop) _ d _ _ hgroup hhead hastray rfl block hblock]
  simp only [readRules, map_eq_bind, putsInOrder_rules.foldl_groups]
  rfl

theorem foldlM_entries (hblock : Unbroken block) :
    block.foldlM contentStep (.entries, d) >>= endSection stop =
      (block.mapM (readAs entryOf)).map fun entries => entries.foldl putEntry d := by
  have hentry (d : Draft) (line : Line) (hline : isBreak line = false) :
      contentStep (.entries, d) line =
        (readAs entryOf line).map fun entry => (.entries, putEntry d entry) := by
    refine contentStep_eq_map hline ?_
    rw [readLine, entryLine_eq, map_map]
  rw [foldlM_rows hentry block d hblock]
  simp only [map_eq_bind, bind_assoc, pure_bind, endSection, closeSection]
  rfl

theorem foldlM_reductions (hblock : Unbroken block) :
    block.foldlM contentStep (.reductions, d) >>= endSection stop =
      (block.mapM (readAs reductionOf)).map (putReductions d) := by
  have hrule (d : Draft) (line : Line) (hline : isBreak line = false) :
      contentStep (.reductions, d) line =
        (readAs reductionOf line).map fun rule => (.reductions, putReductions d [rule]) := by
    refine contentStep_eq_map hline ?_
    rw [readLine, reductionLine_eq, map_map]
  rw [foldlM_rows hrule block d hblock]
  simp only [map_eq_bind, bind_assoc, pure_bind, endSection, closeSection,
    putsInOrder_reductions.foldl_items]
  rfl

end Blocks

section Whole

variable (d : Draft) (lines : List Line) (last : Nat)

theorem readFrom_names (settings : GrammarSettings) :
    readFrom (.atomTypes none) { settings } lines last =
      readNames (stopOf lines last) (firstBlock lines) >>= fun names =>
      readFrom (.markers none) (names.foldl putName { settings }) (fromBreak lines).tail last :=
  readFrom_next rfl (fun _ => rfl) (foldlM_names _ settings (unbroken_firstBlock lines))

theorem readFrom_markers (hmarkers : d.markers = []) :
    readFrom (.markers none) d lines last =
      readMarkers (firstBlock lines) >>= fun markers =>
      readFrom (.substitutions none) (putMarkers d markers) (fromBreak lines).tail last :=
  readFrom_next rfl (fun _ => rfl) (foldlM_markers d _ hmarkers (unbroken_firstBlock lines))

theorem readFrom_tables :
    readFrom (.substitutions none) d lines last =
      readTables (firstBlock lines) >>= fun tables =>
      readFrom (.metarules none) (putRows d tables.flatten) (fromBreak lines).tail last :=
  readFrom_next rfl (fun _ => rfl) (foldlM_tables d _ (unbroken_firstBlock lines))

theorem readFrom_rules :
    readFrom (.metarules none) d lines last =
      readRules (firstBlock lines) >>= fun rules =>
      readFrom .entries (putRules d rules.flatten) (fromBreak lines).tail last :=
  readFrom_next rfl (fun _ => rfl) (foldlM_rules d _ (unbroken_firstBlock lines))

theorem readFrom_entries :
    readFrom .entries d lines last =
      (firstBlock lines).mapM (readAs entryOf) >>= fun entries =>
      readFrom .reductions (entries.foldl putEntry d) (fromBreak lines).tail last :=
  readFrom_next rfl (fun _ => rfl) (foldlM_entries d _ (unbroken_firstBlock lines))

theorem readFrom_reductions :
    readFrom .reductions d lines last =
      (firstBlock lines).mapM (readAs reductionOf) >>= fun rules =>
      checkLast (fromBreak lines).head? >>= fun _ => pure (putReductions d rules) := by
  rw [readFrom_cut, foldlM_reductions d _ (unbroken_firstBlock lines)]
  simp only [map_eq_bind, bind_assoc, pure_bind]
  rcases fromBreak lines with _ | ⟨line, rest⟩ <;> rfl

theorem ofText_eq_readSections (settings : GrammarSettings) (text : String) :
    Draft.ofText settings text = (readSections text).map (·.draft settings) := by
  have hblock (k : Nat) := (getD_splitOnP k (contentLines text)).1
  have hbreak (k : Nat) := (getD_splitOnP k (contentLines text)).2
  have hmarkers (names : List (String × Bool)) :
      (names.foldl putName ({ settings } : Draft)).markers = [] := by
    rw [foldl_putName]
  rw [ofText_eq_readFrom, trimmedLines_numberedLines, length_numberedLines, readFrom_names,
    readSections]
  simp only [readFrom_markers _ _ _ (hmarkers _), readFrom_tables, readFrom_rules, readFrom_entries,
    readFrom_reductions, block, blocks, breaks, firstStop, hblock, List.head?_eq_getElem?, hbreak,
    afterBreaks, map_eq_bind, bind_assoc, pure_bind, stopOf, ← draft_eq]

end Whole

section Outcome

variable {text : String}

theorem length_blocks : (blocks text).length ≤ 6 ↔ (breaks text)[5]? = none := by
  rw [blocks, Text.length_splitOnP, ← breaks, List.getElem?_eq_none_iff]
  omega

theorem onLine_of_closeSection {s : Mode} {d : Draft} {number : Nat} {e : Error}
    (h : closeSection s d number = .error e) : OnLine e := by
  unfold closeSection checkCount at h
  repeat' split at h
  all_goals cases h
  all_goals exact ⟨_, _, rfl⟩

theorem onLine_of_contentStep {state : Mode × Draft} {line : Line} {e : Error}
    (h : contentStep state line = .error e) : OnLine e := by
  unfold contentStep at h
  split at h
  · rcases bind_eq_error.1 h with h | ⟨-, -, h⟩
    · exact onLine_of_closeSection h
    · split at h
      · cases h
      · exact ⟨_, _, (Except.error.inj h).symm⟩
  · obtain ⟨fault, -, rfl⟩ := mapError_eq_error.1 h
    exact ⟨_, _, rfl⟩

theorem onLine_of_ofText {settings : GrammarSettings} {e : Error}
    (h : Draft.ofText settings text = .error e) : OnLine e := by
  rw [ofText_eq_readFrom, readFrom, bind_eq_error] at h
  rcases h with h | ⟨state, -, h⟩
  · exact foldlM_fails (fun _ _ _ => onLine_of_contentStep) _ h
  · rcases bind_eq_error.1 h with h | ⟨-, -, h⟩
    · exact onLine_of_closeSection h
    · cases h

end Outcome

/-- A grammar text describes a draft exactly if it has six blocks at most and each of them is
accepted by the grammar of its section; the draft then holds the contents of the blocks and the
settings. Otherwise it fails as the first section to fail does, with a fault on a line. Behind each
section break the reader has nothing in hand of what came before. -/
theorem ofText_section_by_section (settings : GrammarSettings) (text : String) :
    (∀ d, Draft.ofText settings text = .ok d ↔
      (blocks text).length ≤ 6 ∧ ∃ c, Accepted text c ∧ c.draft settings = d) ∧
    (∀ e, Draft.ofText settings text = .error e ↔ FirstFailure text e ∧ OnLine e) ∧
    ∀ front line back r, Text.numberedLines text.toList = front ++ line :: back →
      isBreak (line.1, Text.trim line.2) = true →
      (front ++ [line]).foldlM Reader.step (.start settings) = .ok r → StartsSection r := by
  have hread := ofText_eq_readSections settings text
  refine ⟨fun d => ?_, fun e => ⟨fun h => ⟨?_, onLine_of_ofText h⟩, fun ⟨h, _⟩ => ?_⟩,
    fun front line back r _ hbreak h => startsSection_of_break hbreak h⟩
  · rw [hread, map_eq_ok, length_blocks]
    simp only [readSections_eq_ok, and_assoc, exists_and_left]
  · rw [hread, map_eq_error] at h
    exact readSections_eq_error.1 h
  · rw [hread, map_eq_error]
    exact readSections_eq_error.2 h

namespace Sample

/-- Two types, a marker category with two values under the given count, a suffix, no metarules, an
entry and a reduction. -/
def sections (count : String) : String :=
  "2\n#s\nn\n**********\n" ++ count ++ "\nnumber\n#one\n#many\n**********\n#Verbs:\nes\n" ++
    "**********\n**********\ngo:n^1 s^0\n**********\nn^0<s^0\n"

/-- What the first two sections hold. -/
def declarations : Draft where
  inventory := ["s", "n"]
  standalones := ["s"]
  markers := [⟨"number", ["one", "many"]⟩]

/-- What all sections hold. -/
def held : Draft :=
  { declarations with
    morphology := { verbalSuffixes := ["es"] }
    entries := [⟨"go", [⟨[.plain "n" 1, .plain "s" 0]⟩]⟩]
    reductions := [("n", "s")] }

/-- The reader behind the second section. -/
def reader : Reader :=
  { Reader.start {} with draft := declarations, part := .substitutions }

end Sample

/-- With one category declared the draft holds it with its values, which the reader has put there at
the end of the section. With two declared, the count on line 5 is the first fault. -/
theorem ofText_section_by_section_sample :
    (Draft.ofText {} (Sample.sections "1") = .ok Sample.held ∧
      (blocks (Sample.sections "1")).length ≤ 6 ∧
      ∃ c, Accepted (Sample.sections "1") c ∧ c.draft {} = Sample.held) ∧
    (Draft.ofText {} (Sample.sections "2") =
        .error (.grammarFormat 5 (.countMismatch 2 .markerCategories 1)) ∧
      FirstFailure (Sample.sections "2")
        (.grammarFormat 5 (.countMismatch 2 .markerCategories 1))) ∧
    ((Text.numberedLines (Sample.sections "1").toList).take 9).foldlM Reader.step (.start {}) =
        .ok Sample.reader ∧
      StartsSection Sample.reader := by
  have hread : Draft.ofText {} (Sample.sections "1") = .ok Sample.held := by decide +kernel
  have hfails : Draft.ofText {} (Sample.sections "2") =
      .error (.grammarFormat 5 (.countMismatch 2 .markerCategories 1)) := by decide +kernel
  have hreader : ((Text.numberedLines (Sample.sections "1").toList).take 9).foldlM Reader.step
      (.start {}) = .ok Sample.reader := by decide +kernel
  have hstars : (Text.numberedLines (Sample.sections "1").toList)[8]? =
      some (9, "**********".toList) := by decide +kernel
  obtain ⟨hok, -, hstarts⟩ := ofText_section_by_section {} (Sample.sections "1")
  obtain ⟨-, herror, -⟩ := ofText_section_by_section {} (Sample.sections "2")
  refine ⟨⟨hread, (hok _).1 hread⟩, ⟨hfails, ((herror _).1 hfails).1⟩, hreader, ?_⟩
  obtain ⟨hlt, hline⟩ := List.getElem?_eq_some_iff.1 hstars
  have hsplit : Text.numberedLines (Sample.sections "1").toList =
      (Text.numberedLines (Sample.sections "1").toList).take 8 ++ (9, "**********".toList) ::
        (Text.numberedLines (Sample.sections "1").toList).drop 9 := by
    rw [← hline, ← List.drop_eq_getElem_cons hlt, List.take_append_drop]
  refine hstarts _ _ _ Sample.reader hsplit (by decide) ?_
  have htake : (Text.numberedLines (Sample.sections "1").toList).take 9 =
      (Text.numberedLines (Sample.sections "1").toList).take 8 ++ [(9, "**********".toList)] := by
    rw [List.take_add_one, hstars]
    rfl
  exact htake ▸ hreader

end PregroupGrammar.GrammarText
