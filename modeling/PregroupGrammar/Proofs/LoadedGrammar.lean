import PregroupGrammar.Corpus.Basic
import PregroupGrammar.Grammar.Reader
import PregroupGrammar.Proofs.DerivedTypes
import PregroupGrammar.Proofs.FirstSuccess
import PregroupGrammar.Proofs.SortedLexicon

/-!
# Grammars that load

The notation spells no bound atoms, so a draft that is read from a text holds none in its entries or
in the targets of its metarules (`literal_ofText`). Building such a draft checks the names of its
entries, and the derived types have no others than these and those of the metarules, which are
checked too (`knows_of_build`). So the only thing that can go wrong in a parse is the sentence.
-/

namespace PregroupGrammar

open Fallible

section Notation

variable {a : Atom}

theorem Atom.unbound_ofFields {name : List Char} {e : Int32} {fields : List (List Char)}
    (h : Atom.ofFields name e fields = .ok a) : a.run? = none := by
  rcases name with _ | ⟨c, name⟩
  · cases h
  · unfold Atom.ofFields at h
    simp only [List.isEmpty_cons, Bool.false_eq_true, if_false] at h
    obtain ⟨markers, -, h⟩ := bind_eq_ok.1 h
    split_ifs at h
    · obtain rfl := Except.ok.inj h
      rfl
    · obtain rfl := Except.ok.inj h
      rfl

theorem Atom.unbound_ofTrimmed {cs : List Char} (h : Atom.ofTrimmed cs = .ok a) :
    a.run? = none := by
  unfold Atom.ofTrimmed at h
  repeat' split at h
  · simp at h
  · simp at h
  · exact unbound_ofFields h
  · simp at h
  · simp at h
  · simp at h

theorem Atom.unbound_ofText {text : String} (h : Atom.ofText text = .ok a) : a.run? = none :=
  unbound_ofTrimmed (mapError_eq_ok.1 h)

theorem WordType.unbound_ofText {text : String} {t : WordType} (h : WordType.ofText text = .ok t) :
    t.Unbound := by
  obtain ⟨atoms, hatoms, rfl⟩ := map_eq_ok.1 h
  intro a ha
  obtain ⟨cs, -, hcs⟩ := exists_mem_of_forall₂ (mapM_eq_ok.1 hatoms).flip ha
  exact Atom.unbound_ofText hcs

end Notation

namespace Draft

/-- There are no bound atoms in the entries or in the targets of the metarules. -/
structure Literal (d : Draft) : Prop where
  entries : ∀ entry ∈ d.entries, ∀ t ∈ entry.types, t.Unbound
  targets : ∀ rule ∈ d.metarules, rule.target.Unbound

section Reading

variable {d d' : Draft} {line : List Char}

theorem Literal.of_same (hd : d.Literal) (he : d'.entries = d.entries)
    (hm : d'.metarules = d.metarules) : d'.Literal :=
  ⟨he ▸ hd.entries, hm ▸ hd.targets⟩

theorem literal_atomTypeLine (hd : d.Literal) (h : d.atomTypeLine line = .ok d') : d'.Literal := by
  unfold atomTypeLine at h
  repeat' split at h
  · cases h
  · obtain rfl := Except.ok.inj h
    exact hd.of_same rfl rfl
  · obtain rfl := Except.ok.inj h
    exact hd.of_same rfl rfl

theorem literal_substitutionLine {table : SuffixTable} (hd : d.Literal)
    (h : d.substitutionLine table line = .ok d') : d'.Literal := by
  unfold substitutionLine at h
  cases table with
  | irregulars =>
    obtain ⟨⟨form, replacement⟩, -, h⟩ := bind_eq_ok.1 h
    obtain rfl := Except.ok.inj h
    exact hd.of_same rfl rfl
  | _ =>
    obtain rfl := Except.ok.inj h
    exact hd.of_same rfl rfl

theorem unbound_readType {cs : List Char} {t : WordType} (h : readType cs = .ok t) : t.Unbound :=
  WordType.unbound_ofText (mapError_eq_ok.1 h)

theorem literal_metaruleLine {tag : Int64} (hd : d.Literal)
    (h : d.metaruleLine tag line = .ok d') : d'.Literal := by
  unfold metaruleLine at h
  obtain ⟨⟨left, right⟩, -, h⟩ := bind_eq_ok.1 h
  obtain ⟨pattern, -, h⟩ := bind_eq_ok.1 h
  obtain ⟨target, htarget, h⟩ := bind_eq_ok.1 h
  obtain ⟨rule, hrule, h⟩ := bind_eq_ok.1 h
  obtain rfl := Except.ok.inj h
  have hsame : rule.target = target := by
    have hmake := mapError_eq_ok.1 hrule
    unfold Metarule.make at hmake
    split at hmake
    · obtain rfl := Except.ok.inj hmake
      rfl
    · cases hmake
  refine ⟨hd.entries, fun other hother => ?_⟩
  rcases List.mem_append.1 hother with hother | hother
  · exact hd.targets other hother
  · obtain rfl := List.mem_singleton.1 hother
    exact hsame ▸ unbound_readType htarget

theorem unbound_entryType {cs : List Char} {t : WordType} (h : entryType cs = .ok t) :
    t.Unbound := by
  unfold entryType at h
  split_ifs at h
  exact unbound_readType h

theorem literal_entryLine (hd : d.Literal) (h : d.entryLine line = .ok d') : d'.Literal := by
  unfold entryLine at h
  obtain ⟨⟨word, spelled⟩, -, h⟩ := bind_eq_ok.1 h
  obtain ⟨types, htypes, h⟩ := bind_eq_ok.1 h
  obtain rfl := Except.ok.inj h
  have hunbound : ∀ t ∈ types, t.Unbound := by
    intro t ht
    obtain ⟨cs, -, hcs⟩ := exists_mem_of_forall₂ (mapM_eq_ok.1 htypes).flip ht
    exact unbound_entryType hcs
  unfold entry
  split_ifs
  · exact hd
  · refine ⟨fun other hother => ?_, hd.targets⟩
    rcases List.mem_append.1 hother with hother | hother
    · exact hd.entries other hother
    · obtain rfl := List.mem_singleton.1 hother
      exact hunbound

theorem literal_reductionLine (hd : d.Literal) (h : d.reductionLine line = .ok d') :
    d'.Literal := by
  unfold reductionLine at h
  obtain ⟨⟨left, right⟩, -, h⟩ := bind_eq_ok.1 h
  obtain ⟨source, -, h⟩ := bind_eq_ok.1 h
  obtain ⟨target, -, h⟩ := bind_eq_ok.1 h
  obtain rfl := Except.ok.inj h
  exact hd.of_same rfl rfl

section Reader

variable {r r' : Reader} {number : Nat}

theorem literal_flush (hr : r.draft.Literal) : r.flush.draft.Literal := by
  unfold Reader.flush
  split
  · exact hr.of_same rfl rfl
  · exact hr

theorem literal_countLine (hr : r.draft.Literal) (h : r.countLine number line = .ok r') :
    r'.draft.Literal := by
  unfold Reader.countLine at h
  split at h
  · exact Except.ok.inj h ▸ hr
  · cases h

/-- A line that puts something into the draft keeps it literal if the new draft is. -/
theorem literal_put {x : Except FormatFault Draft} {put : Draft → Reader}
    (hx : ∀ d, x = .ok d → d.Literal) (hput : ∀ d, (put d).draft = d)
    (h : (do return put (← x)) = Except.ok r') : r'.draft.Literal := by
  obtain ⟨d, hd, h⟩ := bind_eq_ok.1 h
  obtain rfl := Except.ok.inj h
  exact (hput d).symm ▸ hx d hd

theorem literal_markerLine (hr : r.draft.Literal) (h : r.markerLine number line = .ok r') :
    r'.draft.Literal := by
  unfold Reader.markerLine at h
  repeat' split at h
  · exact literal_countLine hr h
  · exact Except.ok.inj h ▸ hr
  · cases h
  · exact Except.ok.inj h ▸ literal_flush hr

theorem literal_readLine (hr : r.draft.Literal) (h : r.readLine number line = .ok r') :
    r'.draft.Literal := by
  unfold Reader.readLine at h
  split at h
  · unfold Reader.atomTypeLine at h
    split at h
    · exact literal_countLine hr h
    · exact literal_put (fun _ => literal_atomTypeLine hr) (fun _ => rfl) h
  · exact literal_markerLine hr h
  · unfold Reader.substitutionLine at h
    repeat' split at h
    · exact Except.ok.inj h ▸ hr
    · exact literal_put (fun _ => literal_substitutionLine hr) (fun _ => rfl) h
    · cases h
  · unfold Reader.metaruleLine at h
    repeat' split at h
    · obtain ⟨tag, -, h⟩ := bind_eq_ok.1 h
      exact Except.ok.inj h ▸ hr
    · exact literal_put (fun _ => literal_metaruleLine hr) (fun _ => rfl) h
    · cases h
  · exact literal_put (fun _ => literal_entryLine hr) (fun _ => rfl) h
  · exact literal_put (fun _ => literal_reductionLine hr) (fun _ => rfl) h

theorem literal_finishSection (hr : r.draft.Literal) (h : r.finishSection number = .ok r') :
    r'.draft.Literal := by
  obtain ⟨⟨⟩, -, h⟩ := bind_eq_ok.1 h
  exact Except.ok.inj h ▸ literal_flush hr

theorem literal_step {numbered : Nat × List Char} (hr : r.draft.Literal)
    (h : r.step numbered = .ok r') : r'.draft.Literal := by
  unfold Reader.step at h
  simp only at h
  split_ifs at h
  · exact Except.ok.inj h ▸ hr
  · obtain ⟨r₁, hfinish, h⟩ := bind_eq_ok.1 h
    split at h
    · have hd := literal_finishSection hr hfinish
      exact Except.ok.inj h ▸ hd
    · cases h
  · exact literal_readLine hr (mapError_eq_ok.1 h)

end Reader

/-- A draft that is read from a text holds no bound atoms. -/
theorem literal_ofText {settings : GrammarSettings} {text : String}
    (h : ofText settings text = .ok d) : d.Literal := by
  unfold ofText at h
  obtain ⟨r, hfold, h⟩ := bind_eq_ok.1 h
  obtain ⟨r', hfinish, h⟩ := bind_eq_ok.1 h
  obtain rfl := Except.ok.inj h
  have hstart : (Reader.start settings).draft.Literal :=
    ⟨by simp [Reader.start], by simp [Reader.start]⟩
  have hlast : r.draft.Literal := foldlM_keeps (P := fun r => r.draft.Literal)
    (fun _ _ _ hr hstep => literal_step hr hstep) _ hstart hfold
  exact literal_finishSection hlast hfinish

end Reading

section Building

variable {d : Draft} {g : Grammar}

/-- Every type of the dictionary, derived or not, has known names only. -/
theorem knows_of_build (hd : d.Literal) (h : d.build = .ok g) :
    ∀ entry ∈ g.lexicon.entries, ∀ t ∈ entry.types, g.Knows t.atoms := by
  obtain ⟨-, -, -, hconcrete, entries, hentries, hlexicon, -⟩ :=
    build_cases (build_eq_buildUnder.symm.trans h)
  have hderive : ∀ rule ∈ d.metarules, ∀ c : WordType, (c.Unbound ∧ g.Knows c.atoms) →
      ∀ t, rule.apply c = .ok (some t) → t.Unbound ∧ g.Knows t.atoms := by
    rintro rule hrule c ⟨hunbound, hknown⟩ t ht
    have hmade := fun a => Metarule.mem_apply (a := a) hunbound (hd.targets rule hrule) ht
    refine ⟨fun a ha => ?_, fun a ha => ?_⟩
    · rcases hmade a ha with ⟨-, hgeneric⟩ | ⟨b, hb, e, rfl⟩
      · exact Atom.run?_of_not_isGeneric hgeneric
      · rw [Atom.run?_withAdjoint]
        exact hunbound b hb
    · rcases hmade a ha with ⟨htarget, hgeneric⟩ | ⟨b, hb, e, rfl⟩
      · refine hconcrete a (List.mem_flatMap.2 ⟨rule, hrule, List.mem_filter.2 ⟨?_, ?_⟩⟩)
        · exact List.mem_append_right _ htarget
        · simp [hgeneric]
      · rw [Atom.name_withAdjoint]
        exact hknown b hb
  intro entry hentry
  rw [hlexicon, Lexicon.mem_entries_ofEntries] at hentry
  obtain ⟨given, hgiven, hexpand⟩ := exists_mem_of_forall₂ (mapM_eq_ok.1 hentries).flip hentry
  obtain ⟨hcheck, rfl⟩ := expandEntry_eq_ok.1 hexpand
  have hkeep := expand_keeps hderive d.settings.iteration
    fun t ht => ⟨hd.entries given hgiven t ht, hcheck t ht⟩
  exact fun t ht => (hkeep t ht).2

end Building

end Draft

namespace Grammar

variable {g : Grammar} {word : String}

/-- The word is the leftmost one that has no entry in any form. -/
def LeftmostUnknown (g : Grammar) (words : List String) (word : String) : Prop :=
  ∃ before after, words = before ++ word :: after ∧
    (∀ known ∈ before, ∃ entry, g.resolve known = .ok entry) ∧ ∀ entry, g.resolve word ≠ .ok entry

theorem LeftmostUnknown.ne_nil {words : List String} (h : g.LeftmostUnknown words word) :
    words ≠ [] := by
  obtain ⟨before, after, rfl, -⟩ := h
  simp

theorem mem_entries_of_resolve {entry : Entry} (h : g.resolve word = .ok entry) :
    entry ∈ g.lexicon.entries := by
  unfold resolve at h
  split at h
  · rename_i found hfound
    obtain rfl := Except.ok.inj h
    obtain ⟨⟨_, form⟩, -, hform⟩ := List.exists_of_findSome?_eq_some hfound
    exact Lexicon.mem_entries_of_find? hform
  · cases h

theorem resolve_eq_error {e : Error} : g.resolve word = .error e ↔
    e = .unknownWord word ∧ ∀ entry, g.resolve word ≠ .ok entry := by
  unfold resolve
  split
  · simp
  · simp [eq_comm]

theorem mapM_resolve_eq_error {words : List String} {e : Error} :
    words.mapM g.resolve = .error e ↔
      ∃ word, e = .unknownWord word ∧ g.LeftmostUnknown words word := by
  rw [mapM_eq_error]
  constructor
  · rintro ⟨before, word, after, hsplit, hbefore, hword⟩
    obtain ⟨he, hunknown⟩ := resolve_eq_error.1 hword
    exact ⟨word, he, before, after, hsplit, hbefore, hunknown⟩
  · rintro ⟨word, he, before, after, hsplit, hbefore, hunknown⟩
    exact ⟨before, word, after, hsplit, hbefore, resolve_eq_error.2 ⟨he, hunknown⟩⟩

end Grammar

namespace Parser

/-- A parse of the words fails for want of a word, or because of one that is not known, and
otherwise it has an outcome. -/
structure FailsByWordsOnly (p : Parser) (words : List String) : Prop where
  empty_iff : p.parse words = .error .emptySentence ↔ words = []
  unknown_iff : ∀ word, p.parse words = .error (.unknownWord word) ↔
    p.grammar.LeftmostUnknown words word
  ok_iff : (∃ outcome, p.parse words = .ok outcome) ↔
    words ≠ [] ∧ ∀ word ∈ words, ∃ entry, p.grammar.resolve word = .ok entry
  not_fatal : ∀ e, p.parse words = .error e → e.isFatal = false

variable {p : Parser} {words : List String}

theorem parse_of_ne_nil (hne : words ≠ []) : p.parse words =
    words.mapM p.grammar.resolve >>= fun entries =>
      p.parseCandidates words (entries.map Entry.types) := by
  obtain ⟨word, rest, rfl⟩ := List.exists_cons_of_ne_nil hne
  rfl

theorem parse_of_unknown {word : String} (h : p.grammar.LeftmostUnknown words word) :
    p.parse words = .error (.unknownWord word) := by
  rw [parse_of_ne_nil h.ne_nil, Grammar.mapM_resolve_eq_error.2 ⟨word, rfl, h⟩]
  rfl

section Known

variable (hg : p.grammar.Grounded)
  (hknown : ∀ entry ∈ p.grammar.lexicon.entries, ∀ t ∈ entry.types, p.grammar.Knows t.atoms)
include hg hknown

theorem parse_total {entries : List Entry} (hne : words ≠ [])
    (h : words.mapM p.grammar.resolve = .ok entries) : ∃ outcome, p.parse words = .ok outcome := by
  have hall := mapM_eq_ok.1 h
  have hcandidates : entries.map Entry.types ≠ [] := by
    intro hnil
    have hlength := hall.length_eq
    rw [List.map_eq_nil_iff.1 hnil] at hlength
    exact hne (List.eq_nil_of_length_eq_zero hlength)
  have hnames : ∀ types ∈ entries.map Entry.types, ∀ t ∈ types, p.grammar.Knows t.atoms := by
    intro types htypes
    obtain ⟨entry, hentry, rfl⟩ := List.mem_map.1 htypes
    obtain ⟨word, -, hword⟩ := exists_mem_of_forall₂ hall.flip hentry
    exact hknown entry (Grammar.mem_entries_of_resolve hword)
  obtain ⟨found, hfound, -⟩ := search_firstSuccess hg
    fun path => knows_of_mem_enumeratePaths hcandidates hnames
  rw [parse_of_ne_nil hne]
  exact ⟨_, bind_eq_ok.2 ⟨entries, h, parseCandidates_of_search hcandidates words hfound⟩⟩

/-- A parse ends in one of three ways. -/
theorem parse_cases (words : List String) :
    (words = [] ∧ p.parse words = .error .emptySentence) ∨
      (∃ word, p.grammar.LeftmostUnknown words word ∧
        p.parse words = .error (.unknownWord word)) ∨
      (words ≠ [] ∧ (∀ word ∈ words, ∃ entry, p.grammar.resolve word = .ok entry) ∧
        ∃ outcome, p.parse words = .ok outcome) := by
  by_cases hne : words = []
  · exact .inl ⟨hne, by rw [hne]; rfl⟩
  · rcases h : words.mapM p.grammar.resolve with e | entries
    · obtain ⟨word, -, hword⟩ := Grammar.mapM_resolve_eq_error.1 h
      exact .inr (.inl ⟨word, hword, parse_of_unknown hword⟩)
    · refine .inr (.inr ⟨hne, fun word hword => ?_, parse_total hg hknown hne h⟩)
      obtain ⟨entry, -, hentry⟩ := exists_mem_of_forall₂ (mapM_eq_ok.1 h) hword
      exact ⟨entry, hentry⟩

theorem failsByWordsOnly (words : List String) : p.FailsByWordsOnly words := by
  rcases parse_cases hg hknown words with ⟨rfl, h⟩ | ⟨word, hword, h⟩ | ⟨hne, hall, outcome, h⟩
  · refine ⟨iff_of_true h rfl, fun word => iff_of_false (by simp [h]) ?_, by simp [h], ?_⟩
    · intro hword
      exact hword.ne_nil rfl
    · intro e he
      obtain rfl := Except.error.inj (h.symm.trans he)
      rfl
  · refine ⟨iff_of_false (by simp [h]) hword.ne_nil, fun other => ⟨fun he => ?_, parse_of_unknown⟩,
      iff_of_false (by simp [h]) ?_, ?_⟩
    · obtain rfl := Error.unknownWord.inj (Except.error.inj (h.symm.trans he))
      exact hword
    · rintro ⟨-, hall⟩
      obtain ⟨before, after, rfl, -, hunknown⟩ := hword
      obtain ⟨entry, hentry⟩ := hall word (by simp)
      exact hunknown entry hentry
    · intro e he
      obtain rfl := Except.error.inj (h.symm.trans he)
      rfl
  · refine ⟨iff_of_false (by simp [h]) hne, fun word => iff_of_false (by simp [h]) ?_,
      iff_of_true ⟨outcome, h⟩ ⟨hne, hall⟩, by simp [h]⟩
    intro hword
    simp [parse_of_unknown hword] at h

theorem report_total (number : Nat) (words : List String) :
    ∃ r, p.report number words = .ok r := by
  unfold report
  rcases h : p.parse words with e | outcome
  · simp [(failsByWordsOnly hg hknown words).not_fatal e h]
  · exact ⟨_, rfl⟩

theorem parseCorpus_total (text : String) : ∃ report, p.parseCorpus text = .ok report := by
  obtain ⟨reports, hreports⟩ := mapM_total (l := corpusSentences text)
    (f := fun x => p.report x.1 x.2) fun x _ => report_total hg hknown x.1 x.2
  exact ⟨_, map_eq_ok.2 ⟨reports, hreports, rfl⟩⟩

end Known

end Parser

/-- In a grammar that loads every type of the dictionary has declared names only, so a parse fails
because of the words of its sentence or not at all, and a corpus can always be parsed. -/
theorem ofText_never_fatal {settings : GrammarSettings} {text : String} {g : Grammar}
    (h : Grammar.ofText settings text = .ok g) :
    (∀ entry ∈ g.lexicon.entries, ∀ t ∈ entry.types, ∀ a ∈ t.atoms,
        a.name ∈ g.table.inventory ∨ a.name = g.table.dummy) ∧
      ∀ parserSettings : ParserSettings,
        (∀ words, (Parser.mk g parserSettings).FailsByWordsOnly words) ∧
        ∀ corpus, ∃ report, (Parser.mk g parserSettings).parseCorpus corpus = .ok report := by
  obtain ⟨d, hd, hbuild⟩ := bind_eq_ok.1 h
  have hg := Draft.grounded_of_build hbuild
  have hknown := Draft.knows_of_build (Draft.literal_ofText hd) hbuild
  refine ⟨fun entry hentry t ht a ha => ?_, fun parserSettings => ⟨?_, ?_⟩⟩
  · exact hg.compiled.contains_iff.1 (hknown entry hentry t ht a ha)
  · exact Parser.failsByWordsOnly hg hknown
  · exact Parser.parseCorpus_total hg hknown

namespace Sample

/-- Rain falls, and falling may come first. -/
def text : String :=
  "2\n#s\nn\n**********\n**********\n**********\n1:\nn^1 *a^0 < *a^0 n^-1\n" ++
    "**********\nrain: n^0\nfalls: n^1 s^0\n"

/-- A type that takes a noun on its left may take it on its right. -/
def inversion : Metarule where
  tag := 1
  pattern := ⟨[.plain "n" 1, .generic "*a" 0]⟩
  target := ⟨[.generic "*a" 0, .plain "n" (-1)]⟩
  wellFormed := rfl

/-- What the text says. -/
def spelled : Draft where
  inventory := ["s", "n"]
  standalones := ["s"]
  metarules := [inversion]
  entries := [⟨"rain", [⟨[.plain "n" 0]⟩]⟩, ⟨"falls", [⟨[.plain "n" 1, .plain "s" 0]⟩]⟩]

/-- The grammar that the text gives. -/
def loaded : Grammar where
  table := grammar.table
  standalones := ["s"]
  markers := []
  metarules := [inversion]
  lexicon := .ofEntries Text.lowercase [⟨"rain", [⟨[.plain "n" 0]⟩]⟩,
    ⟨"falls", [⟨[.plain "n" 1, .plain "s" 0]⟩, ⟨[.plain "s" 0, .plain "n" (-1)]⟩]⟩]
  morphology := {}
  settings := {}

theorem ofText_text : Grammar.ofText {} text = .ok loaded := by
  have hread : (Draft.ofText {} text).toOption = some spelled := by decide +kernel
  have hspelled : Draft.ofText {} text = .ok spelled := by
    rcases h : Draft.ofText {} text with e | d
    · simp [h, Except.toOption] at hread
    · simpa [h, Except.toOption] using hread
  have hentries : spelled.entries.mapM
      (Draft.expandEntry grammar.table [inversion] spelled.settings.iteration) =
        .ok [⟨"rain", [⟨[.plain "n" 0]⟩]⟩,
          ⟨"falls", [⟨[.plain "n" 1, .plain "s" 0]⟩, ⟨[.plain "s" 0, .plain "n" (-1)]⟩]⟩] := by
    refine mapM_eq_ok.2 (.cons ?_ (.cons ?_ .nil))
    · exact bind_eq_ok.2 ⟨(), checkAtoms_names (by decide), rfl⟩
    · exact bind_eq_ok.2 ⟨(), checkAtoms_names (by decide), rfl⟩
  refine bind_eq_ok.2 ⟨spelled, hspelled, bind_eq_ok.2 ⟨grammar.table, rfl, ?_⟩⟩
  exact bind_eq_ok.2 ⟨(), rfl, bind_eq_ok.2 ⟨(), checkAtoms_names (by decide),
    bind_eq_ok.2 ⟨_, hentries, rfl⟩⟩⟩

end Sample

theorem ofText_never_fatal_sample :
    Grammar.ofText {} Sample.text = .ok Sample.loaded ∧
      (∀ entry ∈ Sample.loaded.lexicon.entries, ∀ t ∈ entry.types, ∀ a ∈ t.atoms,
        a.name ∈ ["s", "n"] ∨ a.name = "x") ∧
      ∀ parserSettings : ParserSettings,
        (∀ words, (Parser.mk Sample.loaded parserSettings).FailsByWordsOnly words) ∧
        ∀ corpus, ∃ report,
          (Parser.mk Sample.loaded parserSettings).parseCorpus corpus = .ok report :=
  ⟨Sample.ofText_text, ofText_never_fatal Sample.ofText_text⟩

end PregroupGrammar
