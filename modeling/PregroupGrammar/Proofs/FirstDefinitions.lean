import PregroupGrammar.Proofs.ExpansionRounds
import PregroupGrammar.Proofs.KnownNames
import PregroupGrammar.Proofs.SortedLexicon

/-!
# The first definition of a word

A draft keeps an entry for each word, the first that was given for it. So the first entry whose word
has some property is the first that was given, whatever else is ignored, and the entries are kept in
the order in which their words first came up (`Keeps.entry`). A build changes no word, and sorts the
entries by a key without moving any past another with an equal key. So what is found under a key is
the first entry that was given under it, however many spellings share the key.
-/

namespace PregroupGrammar

open Fallible

/-- The number of the first call for the word. -/
def callNumber (calls : List Entry) (word : String) : Nat :=
  calls.findIdx (·.word == word)

section CallNumber

variable {calls : List Entry} {word : String}

theorem callNumber_lt_length : callNumber calls word < calls.length ↔
    ∃ e ∈ calls, e.word = word := by
  simp [callNumber, List.findIdx_lt_length]

theorem callNumber_append (h : ∃ e ∈ calls, e.word = word) (more : List Entry) :
    callNumber (calls ++ more) word = callNumber calls word := by
  have hlt : calls.findIdx (·.word == word) < calls.length := callNumber_lt_length.2 h
  rw [callNumber, List.findIdx_append, if_pos hlt, callNumber]

theorem length_le_callNumber_append (h : ¬ ∃ e ∈ calls, e.word = word) (more : List Entry) :
    calls.length ≤ callNumber (calls ++ more) word := by
  have hge : ¬ calls.findIdx (·.word == word) < calls.length := callNumber_lt_length.not.2 h
  rw [callNumber, List.findIdx_append, if_neg hge]
  exact Nat.le_add_left _ _

end CallNumber

namespace Draft

/-- The draft comes of these calls of `entry`, in this order, and of any steps between them that
leave the entries alone. -/
inductive Given : List Entry → Draft → Prop
  | start : Given [] {}
  | entry {calls : List Entry} {d : Draft} (word : String) (types : List WordType) :
    Given calls d → Given (calls ++ [⟨word, types⟩]) (d.entry word types)
  | other {calls : List Entry} {d d' : Draft} : Given calls d → d'.entries = d.entries →
    Given calls d'

/-- Of the calls these are kept: the first for each word, in order. -/
structure Keeps (calls kept : List Entry) : Prop where
  find? : ∀ p : String → Bool, kept.find? (p ·.word) = calls.find? (p ·.word)
  ordered : kept.Pairwise fun a b => callNumber calls a.word < callNumber calls b.word

namespace Keeps

variable {calls kept : List Entry} {word : String}

theorem exists_word (h : Keeps calls kept) :
    (∃ e ∈ kept, e.word = word) ↔ ∃ e ∈ calls, e.word = word := by
  have hsome := congrArg Option.isSome (h.find? (· == word))
  rw [Bool.eq_iff_iff, List.find?_isSome, List.find?_isSome] at hsome
  simpa only [beq_iff_eq] using hsome

theorem nodup (h : Keeps calls kept) : (kept.map Entry.word).Nodup :=
  List.pairwise_map.2 (h.ordered.imp fun hlt heq => by simp [heq] at hlt)

theorem first_call (h : Keeps calls kept) {e : Entry} (he : e ∈ kept) :
    calls.find? (·.word == e.word) = some e := by
  have hsome : (kept.find? (·.word == e.word)).isSome = true :=
    List.find?_isSome.2 ⟨e, he, beq_self_eq_true e.word⟩
  obtain ⟨found, hfound⟩ := Option.isSome_iff_exists.1 hsome
  rw [← h.find? (· == e.word)]
  have hword : found.word = e.word := by simpa using List.find?_some hfound
  rw [hfound, List.inj_on_of_nodup_map h.nodup (List.mem_of_find?_eq_some hfound) he hword]

theorem ordered_append (h : Keeps calls kept) (more : List Entry) :
    kept.Pairwise fun a b =>
      callNumber (calls ++ more) a.word < callNumber (calls ++ more) b.word := by
  refine h.ordered.imp_of_mem fun {a b} ha hb hlt => ?_
  rwa [callNumber_append (h.exists_word.1 ⟨a, ha, rfl⟩),
    callNumber_append (h.exists_word.1 ⟨b, hb, rfl⟩)]

/-- A call for a word that has an entry is ignored, and what it gives is not the first of
anything. -/
theorem ignore (h : Keeps calls kept) (hold : ∃ e ∈ kept, e.word = word) (types : List WordType) :
    Keeps (calls ++ [⟨word, types⟩]) kept where
  find? p := by
    rw [List.find?_append, ← h.find? p]
    by_cases hp : p word = true
    · obtain ⟨e, he, rfl⟩ := hold
      have hsome : (kept.find? (p ·.word)).isSome = true := List.find?_isSome.2 ⟨e, he, hp⟩
      rw [Option.or_of_isSome hsome]
    · rw [List.find?_cons_of_neg (by simpa using hp), List.find?_nil, Option.or_none]
  ordered := h.ordered_append _

theorem add (h : Keeps calls kept) (hnew : ¬ ∃ e ∈ kept, e.word = word) (types : List WordType) :
    Keeps (calls ++ [⟨word, types⟩]) (kept ++ [⟨word, types⟩]) where
  find? p := by rw [List.find?_append, List.find?_append, h.find? p]
  ordered := by
    refine List.pairwise_append.2 ⟨h.ordered_append _, List.pairwise_singleton _ _, ?_⟩
    intro a ha b hb
    obtain rfl := List.mem_singleton.1 hb
    have hcalled := h.exists_word.1 ⟨a, ha, rfl⟩
    rw [callNumber_append hcalled]
    exact Nat.lt_of_lt_of_le (callNumber_lt_length.2 hcalled)
      (length_le_callNumber_append (h.exists_word.not.1 hnew) _)

theorem entry {d : Draft} (h : Keeps calls d.entries) (word : String) (types : List WordType) :
    Keeps (calls ++ [⟨word, types⟩]) (d.entry word types).entries := by
  unfold Draft.entry
  split_ifs with hany
  · exact h.ignore (by simpa using hany) types
  · exact h.add (by simpa using hany) types

end Keeps

theorem Given.keeps {calls : List Entry} {d : Draft} (h : Given calls d) :
    Keeps calls d.entries := by
  induction h with
  | start => exact ⟨fun _ => rfl, .nil⟩
  | entry word types _ ih => exact ih.entry word types
  | other _ hsame ih => rwa [hsame]

end Draft

theorem prefix_expand (rules : List Metarule) (iteration : Iteration) (types : List WordType) :
    types <+: (expand rules iteration types).1 := by
  obtain ⟨k, haccounts, -⟩ := expand_accounts rules iteration types
  obtain ⟨added, hadded, -⟩ := Expansion.exists_added rules types k
  rw [haccounts.types_eq, hadded]
  exact List.prefix_append _ _

namespace Grammar

/-- The entry with the types that the metarules of the grammar derive. -/
def expandEntry (g : Grammar) (entry : Entry) : Entry :=
  { entry with types := (expand g.metarules g.settings.iteration entry.types).1 }

/-- The entry that is found for a word if the dictionary is one under this key. -/
def entryUnder? (key : String → String) (g : Grammar) (word : String) : Option Entry :=
  g.lexicon.find? (key word)

/-- The dictionary is that of the calls: each word has one entry, as its first call defines it, and
the entries are sorted by key, words with equal keys in the order of their first calls. A word is
found as the first call under its key defines it. -/
structure DefinesFirst (key : String → String) (g : Grammar) (calls : List Entry) : Prop where
  nodup : (g.lexicon.entries.map Entry.word).Nodup
  words : ∀ word, word ∈ g.lexicon.entries.map Entry.word ↔ word ∈ calls.map Entry.word
  defined : ∀ e ∈ g.lexicon.entries, ∃ call, calls.find? (·.word == e.word) = some call ∧
    e = g.expandEntry call ∧ call.types <+: e.types
  sorted : g.lexicon.entries.Pairwise fun a b => key a.word < key b.word ∨
    key a.word = key b.word ∧ callNumber calls a.word < callNumber calls b.word
  found : ∀ word, g.entryUnder? key word =
    (calls.find? (key ·.word == key word)).map g.expandEntry
  found_mem : ∀ word e, g.entryUnder? key word = some e → e ∈ g.lexicon.entries
  missing : ∀ word, g.entryUnder? key word = none ↔ ∀ call ∈ calls, key call.word ≠ key word

end Grammar

namespace Draft

variable {key : String → String} {d : Draft} {g : Grammar}

theorem lexicon_of_buildUnder (h : d.buildUnder key = .ok g) :
    g.lexicon = .ofEntries key (d.entries.map g.expandEntry) := by
  obtain ⟨-, -, -, -, entries, hentries, hlexicon, hrules, hsettings⟩ := build_cases h
  have heach : List.Forall₂ (fun given expanded => g.expandEntry given = expanded) d.entries
      entries := by
    refine (mapM_eq_ok.1 hentries).imp fun given expanded hexpand => ?_
    rw [(expandEntry_eq_ok.1 hexpand).2, Grammar.expandEntry, hrules, hsettings]
  have hmap : d.entries.map g.expandEntry = entries := by
    rwa [← List.forall₂_map_left_iff, List.forall₂_eq_eq_eq] at heach
  rw [hlexicon, hmap]

section Built

variable {calls : List Entry} (hd : Given calls d) (h : d.buildUnder key = .ok g)
include h

theorem mem_entries_of_buildUnder {e : Entry} :
    e ∈ g.lexicon.entries ↔ ∃ kept ∈ d.entries, g.expandEntry kept = e := by
  rw [lexicon_of_buildUnder h, Lexicon.mem_entries_ofEntries, List.mem_map]

include hd

theorem Given.sorted : g.lexicon.entries.Pairwise fun a b => key a.word < key b.word ∨
    key a.word = key b.word ∧ callNumber calls a.word < callNumber calls b.word := by
  rw [lexicon_of_buildUnder h]
  exact Lexicon.pairwise_entries_ofEntries (List.pairwise_map.2 hd.keeps.ordered)

theorem Given.found (word : String) : g.entryUnder? key word =
    (calls.find? (key ·.word == key word)).map g.expandEntry := by
  rw [Grammar.entryUnder?, lexicon_of_buildUnder h, Lexicon.find?_ofEntries, List.find?_map]
  exact congrArg _ (hd.keeps.find? (key · == key word))

theorem Given.exists_entry (word : String) :
    (∃ e ∈ g.lexicon.entries, e.word = word) ↔ ∃ call ∈ calls, call.word = word := by
  rw [← hd.keeps.exists_word]
  constructor
  · rintro ⟨e, he, rfl⟩
    obtain ⟨kept, hkept, rfl⟩ := (mem_entries_of_buildUnder h).1 he
    exact ⟨kept, hkept, rfl⟩
  · rintro ⟨kept, hkept, rfl⟩
    exact ⟨g.expandEntry kept, (mem_entries_of_buildUnder h).2 ⟨kept, hkept, rfl⟩, rfl⟩

end Built

/-- Whatever the key is, the first definition of a word wins, and so does the first of several with
one key. In the dictionary of a build the key is the word in lower case. -/
theorem dictionary_of_first_definitions {calls : List Entry} (hd : Given calls d)
    (h : d.buildUnder key = .ok g) :
    g.DefinesFirst key calls ∧ (key = Text.lowercase →
      d.build = .ok g ∧ ∀ word, g.entry? word = g.entryUnder? key word) := by
  have hsorted := hd.sorted h
  have hfound := hd.found h
  refine ⟨⟨?_, fun word => ?_, fun e he => ?_, hsorted, hfound,
    fun _ _ => Lexicon.mem_entries_of_find?, fun word => ?_⟩, ?_⟩
  · refine List.pairwise_map.2 (hsorted.imp fun {a b} hab hsame => ?_)
    simp [hsame] at hab
  · rw [List.mem_map, List.mem_map, hd.exists_entry h]
  · obtain ⟨kept, hkept, rfl⟩ := (mem_entries_of_buildUnder h).1 he
    exact ⟨kept, hd.keeps.first_call hkept, rfl, prefix_expand _ _ _⟩
  · rw [hfound, Option.map_eq_none_iff, List.find?_eq_none]
    simp
  · rintro rfl
    exact ⟨h, fun _ => rfl⟩

end Draft

namespace Sample

/-- A noun may be a sentence of its own. -/
def exclamation : Metarule where
  tag := 1
  pattern := ⟨[.plain "n" 0]⟩
  target := ⟨[.plain "s" 0]⟩
  wellFormed := rfl

/-- Rain in two spellings, one of them given twice. -/
def calls : List Entry :=
  [⟨"Rain", [⟨[.plain "n" 0]⟩]⟩, ⟨"falls", [⟨[.plain "n" 1, .plain "s" 0]⟩]⟩,
    ⟨"rain", [⟨[.plain "s" 0]⟩]⟩, ⟨"Rain", [⟨[.plain "s" 1]⟩]⟩]

/-- What the calls lead to, after what else is declared. -/
def rain : Draft :=
  calls.foldl (fun d call => d.entry call.word call.types)
    { inventory := ["s", "n"], standalones := ["s"], metarules := [exclamation] }

def rainy : Grammar where
  table := grammar.table
  standalones := ["s"]
  markers := []
  metarules := [exclamation]
  lexicon := .ofEntries Text.lowercase [⟨"Rain", [⟨[.plain "n" 0]⟩, ⟨[.plain "s" 0]⟩]⟩,
    ⟨"falls", [⟨[.plain "n" 1, .plain "s" 0]⟩]⟩, ⟨"rain", [⟨[.plain "s" 0]⟩]⟩]
  morphology := {}
  settings := {}

theorem given_calls : Draft.Given calls rain := by
  have hdeclared : Draft.Given []
      { inventory := ["s", "n"], standalones := ["s"], metarules := [exclamation] } :=
    Draft.Given.start.other rfl
  exact (((hdeclared.entry "Rain" _).entry "falls" _).entry "rain" _).entry "Rain" _

theorem buildUnder_rain : rain.buildUnder Text.lowercase = .ok rainy := by
  have hentries : rain.entries.mapM
      (Draft.expandEntry grammar.table rain.metarules rain.settings.iteration) =
        .ok [⟨"Rain", [⟨[.plain "n" 0]⟩, ⟨[.plain "s" 0]⟩]⟩,
          ⟨"falls", [⟨[.plain "n" 1, .plain "s" 0]⟩]⟩, ⟨"rain", [⟨[.plain "s" 0]⟩]⟩] := by
    refine mapM_eq_ok.2 (.cons ?_ (.cons ?_ (.cons ?_ .nil)))
    · exact bind_eq_ok.2 ⟨(), checkAtoms_names (by decide), rfl⟩
    · exact bind_eq_ok.2 ⟨(), checkAtoms_names (by decide), rfl⟩
    · exact bind_eq_ok.2 ⟨(), checkAtoms_names (by decide), rfl⟩
  refine bind_eq_ok.2 ⟨grammar.table, rfl, bind_eq_ok.2 ⟨(), rfl, ?_⟩⟩
  exact bind_eq_ok.2 ⟨(), checkAtoms_names (by decide), bind_eq_ok.2 ⟨_, hentries, rfl⟩⟩

end Sample

theorem Draft.dictionary_of_first_definitions_sample :
    Draft.Given Sample.calls Sample.rain ∧
      Sample.rain.buildUnder Text.lowercase = .ok Sample.rainy ∧
      Sample.rainy.DefinesFirst Text.lowercase Sample.calls ∧
      Sample.rain.build = .ok Sample.rainy ∧
      Sample.rainy.entry? "RAIN" =
        some ⟨"Rain", [⟨[.plain "n" 0]⟩, ⟨[.plain "s" 0]⟩]⟩ := by
  obtain ⟨hfirst, hbuild⟩ :=
    Draft.dictionary_of_first_definitions Sample.given_calls Sample.buildUnder_rain
  exact ⟨Sample.given_calls, Sample.buildUnder_rain, hfirst, (hbuild rfl).1,
    hfirst.found "RAIN"⟩

end PregroupGrammar
