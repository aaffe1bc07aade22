import Mathlib.Data.List.Infix
import PregroupGrammar.Proofs.FirstDefinitions
import PregroupGrammar.Proofs.LookupForms
import PregroupGrammar.Proofs.LowerCase

/-!
# Words in any case

The dictionary does not distinguish upper and lower case, so a word that it has is found in any case
(`Grammar.resolve_of_known`). The tables of the morphology do: a row applies to the word as it is
written. A row in lower case that applies to a word applies to its lower-case form too, but not the
other way round, and then the two may be resolved differently (`resolve_minds_case`).

Where the same rows apply to a word and to its lower-case form (`Morphology.AppliesAlike`), what is
left of the one is the lower-case form of what is left of the other, and both are resolved alike.
The capital sigma is the one character for which this can fail, since a cut can make it final.
-/

namespace PregroupGrammar

namespace Morphology

variable {m : Morphology} {word form last : String}

/-- The same rows of the tables apply to both words. -/
structure AppliesAlike (m : Morphology) (v w : String) : Prop where
  verbal : ∀ suffix, (∃ form, StripsFirst m.verbalSuffixes v suffix form) ↔
    ∃ form, StripsFirst m.verbalSuffixes w suffix form
  nominal : ∃ applied, (∃ form, InTurn Strips m.nounSuffixes v applied form) ∧
    ∃ form, InTurn Strips m.nounSuffixes w applied form
  adjectival : ∃ applied, (∃ form, InTurn Strips m.adjectiveSuffixes v applied form) ∧
    ∃ form, InTurn Strips m.adjectiveSuffixes w applied form
  irregular : ∃ applied, (∃ form, InTurn Replaces m.irregulars v applied form) ∧
    ∃ form, InTurn Replaces m.irregulars w applied form

/-- Whatever the tables leave of the word by cutting, it is lower-cased as it is within the word. -/
def StemsLower (m : Morphology) (word : String) : Prop :=
  ∀ step stem, m.Makes word step stem → step ≠ .irregular →
    ∃ rest, Text.lowercase word = Text.lowercase stem ++ rest

theorem stemsLower_of_notMem (h : 'Σ' ∉ word.toList) : m.StemsLower word := by
  intro step stem hmakes hirregular
  by_cases hsurface : step = .surface
  · subst hsurface
    obtain rfl : stem = word := hmakes
    exact ⟨"", by simp⟩
  · obtain ⟨-, cut, rfl⟩ := hmakes.beginning hsurface hirregular
    exact Text.exists_lowercase_beginning h

theorem Strips.lowercase {suffix : String} (h : Strips word suffix form)
    (hlower : Text.lowercase suffix = suffix) :
    ∃ left, Strips (Text.lowercase word) suffix left := by
  obtain ⟨hsuffix, rfl⟩ := h
  obtain ⟨left, hleft⟩ := Text.exists_lowercase_append hlower form
  exact ⟨left, hsuffix, hleft⟩

theorem Replaces.lowercase {row : String × String} (h : Replaces word row form)
    (hlower : Text.lowercase row.1 = row.1) : Replaces (Text.lowercase word) row form := by
  obtain ⟨hrow, ⟨front, back, rfl⟩, hform⟩ := h
  exact ⟨hrow, Text.exists_lowercase_part hlower front back, hform⟩

/-- The tables are in lower case. -/
structure IsLowerCase (m : Morphology) : Prop where
  suffixes : ∀ suffix ∈ m.verbalSuffixes ++ m.nounSuffixes ++ m.adjectiveSuffixes,
    Text.lowercase suffix = suffix
  irregulars : ∀ row ∈ m.irregulars, Text.lowercase row.1 = row.1

instance (m : Morphology) : Decidable m.IsLowerCase :=
  decidable_of_iff (_ ∧ _) ⟨fun h => ⟨h.1, h.2⟩, fun h => ⟨h.1, h.2⟩⟩

/-- Where the lower-case form of a beginning of the word ends with the suffix, so does the beginning
as it is written. -/
def ShowsSuffix (word suffix : String) : Prop :=
  ∀ stem ∈ word.toList.inits, suffix.toList <:+ Text.lowercaseAfter [] stem →
    suffix.toList <:+ stem

instance (word suffix : String) : Decidable (ShowsSuffix word suffix) :=
  inferInstanceAs (Decidable (∀ stem ∈ word.toList.inits,
    suffix.toList <:+ Text.lowercaseAfter [] stem → suffix.toList <:+ stem))

/-- A suffix or an irregular form that lower-casing brings up is there in the word as it is written.
Beginnings of the word count, since the suffixes before may leave them. -/
structure ShowsAsWritten (m : Morphology) (word : String) : Prop where
  suffixes : ∀ suffix ∈ m.verbalSuffixes ++ m.nounSuffixes ++ m.adjectiveSuffixes,
    ShowsSuffix word suffix
  irregulars : ∀ row ∈ m.irregulars, row.1.toList <:+: (Text.lowercase word).toList →
    row.1.toList <:+: word.toList

instance (m : Morphology) (word : String) : Decidable (m.ShowsAsWritten word) :=
  decidable_of_iff (_ ∧ _) ⟨fun h => ⟨h.1, h.2⟩, fun h => ⟨h.1, h.2⟩⟩

section Lockstep

theorem exists_strips_iff {suffix : String} :
    (∃ form, Strips word suffix form) ↔ suffix ≠ "" ∧ suffix.toList <:+ word.toList := by
  constructor
  · rintro ⟨form, hsuffix, rfl⟩
    exact ⟨hsuffix, form.toList, String.toList_append.symm⟩
  · rintro ⟨hsuffix, form, hform⟩
    exact ⟨.ofList form, hsuffix, String.toList_inj.1 (by simpa using hform.symm)⟩

theorem exists_replaces_iff {row : String × String} :
    (∃ form, Replaces word row form) ↔ row.1 ≠ "" ∧ row.1.toList <:+: word.toList := by
  constructor
  · rintro ⟨form, hrow, ⟨front, back, rfl⟩, -⟩
    exact ⟨hrow, front.toList, back.toList, by simp⟩
  · rintro ⟨hrow, front, back, hword⟩
    exact ⟨row.2, hrow, ⟨.ofList front, .ofList back,
      String.toList_inj.1 (by simpa using hword.symm)⟩, rfl⟩

theorem exists_stripsFirst_iff {suffixes : List String} {suffix : String} :
    (∃ form, StripsFirst suffixes word suffix form) ↔
      ∃ front back, suffixes = front ++ suffix :: back ∧ (∃ form, Strips word suffix form) ∧
        ∀ other ∈ front, ¬ ∃ left, Strips word other left := by
  constructor
  · rintro ⟨form, front, back, hrows, hstrips, hfront⟩
    exact ⟨front, back, hrows, ⟨form, hstrips⟩, fun other hm ⟨left, h⟩ => hfront other hm left h⟩
  · rintro ⟨front, back, hrows, ⟨form, hstrips⟩, hfront⟩
    exact ⟨form, front, back, hrows, hstrips, fun other hm left h => hfront other hm ⟨left, h⟩⟩

theorem Strips.lowercase_form {suffix : String} (h : Strips word suffix form)
    (hsigma : 'Σ' ∉ word.toList) (hlower : Text.lowercase suffix = suffix) :
    Strips (Text.lowercase word) suffix (Text.lowercase form) := by
  obtain ⟨hsuffix, rfl⟩ := h
  obtain ⟨left, hleft⟩ := Text.exists_lowercase_append hlower form
  rw [Text.lowercase_stem rfl hleft (Text.exists_lowercase_beginning hsigma)]
  exact ⟨hsuffix, hleft⟩

theorem ShowsSuffix.strips_iff {suffix : String} (h : ShowsSuffix word suffix)
    (hsigma : 'Σ' ∉ word.toList) (hlower : Text.lowercase suffix = suffix) :
    (∃ form, Strips word suffix form) ↔ ∃ form, Strips (Text.lowercase word) suffix form := by
  constructor
  · rintro ⟨form, hform⟩
    exact ⟨_, hform.lowercase_form hsigma hlower⟩
  · intro hlowered
    obtain ⟨hsuffix, hending⟩ := exists_strips_iff.1 hlowered
    rw [Text.toList_lowercase] at hending
    exact exists_strips_iff.2 ⟨hsuffix, h _ ((List.mem_inits _ _).2 (List.prefix_refl _)) hending⟩

theorem ShowsSuffix.of_append {suffix form cut : String} (h : ShowsSuffix (form ++ cut) suffix) :
    ShowsSuffix form suffix := by
  intro stem hstem
  refine h stem ((List.mem_inits _ _).2 (((List.mem_inits _ _).1 hstem).trans ?_))
  rw [String.toList_append]
  exact List.prefix_append _ _

theorem exists_inTurn_strips_lowercase : ∀ (rows : List String) {word : String},
    'Σ' ∉ word.toList → (∀ suffix ∈ rows, Text.lowercase suffix = suffix) →
    (∀ suffix ∈ rows, ShowsSuffix word suffix) →
      ∃ applied, (∃ form, InTurn Strips rows word applied form) ∧
        ∃ form, InTurn Strips rows (Text.lowercase word) applied form
  | [], word, _, _, _ => ⟨[], ⟨_, .done _⟩, _, .done _⟩
  | suffix :: rows, word, hsigma, hlower, hshows => by
    obtain ⟨hsuffix, hlower⟩ := List.forall_mem_cons.1 hlower
    obtain ⟨hshown, hshows⟩ := List.forall_mem_cons.1 hshows
    have hiff := hshown.strips_iff hsigma hsuffix
    by_cases happlies : ∃ form, Strips word suffix form
    · obtain ⟨form, hform⟩ := happlies
      have hlowered := hform.lowercase_form hsigma hsuffix
      -- What is left has no capital sigma either and shows what the word shows.
      obtain ⟨-, rfl⟩ := hform
      have hleft : 'Σ' ∉ form.toList := fun hm => hsigma (by simp [hm])
      obtain ⟨applied, ⟨last, hword⟩, last', hlowercase⟩ :=
        exists_inTurn_strips_lowercase rows hleft hlower fun other hm => (hshows other hm).of_append
      exact ⟨suffix :: applied, ⟨last, .change ⟨hlowered.1, rfl⟩ hword⟩, last',
        .change hlowered hlowercase⟩
    · obtain ⟨applied, ⟨last, hword⟩, last', hlowercase⟩ :=
        exists_inTurn_strips_lowercase rows hsigma hlower hshows
      exact ⟨applied, ⟨last, .skip (fun form h => happlies ⟨form, h⟩) hword⟩, last',
        .skip (fun form h => happlies (hiff.2 ⟨form, h⟩)) hlowercase⟩

theorem exists_inTurn_replaces {v w : String} : ∀ (rows : List (String × String)),
    (∀ row ∈ rows, (∃ form, Replaces v row form) ↔ ∃ form, Replaces w row form) →
      ∃ applied, (∃ form, InTurn Replaces rows v applied form) ∧
        ∃ form, InTurn Replaces rows w applied form
  | [], _ => ⟨[], ⟨_, .done _⟩, _, .done _⟩
  | row :: rows, h => by
    obtain ⟨hrow, hrows⟩ := List.forall_mem_cons.1 h
    by_cases happlies : ∃ form, Replaces v row form
    · -- From here on both have the replacement.
      obtain ⟨form, hform⟩ := happlies
      obtain ⟨form', hform'⟩ := hrow.1 ⟨form, hform⟩
      obtain rfl : form' = form := hform'.2.2.trans hform.2.2.symm
      obtain ⟨applied, last, hrest⟩ :=
        InTurn.total (fun _ _ _ => replace?_eq_some_iff) rows form'
      exact ⟨row :: applied, ⟨last, .change hform hrest⟩, last, .change hform' hrest⟩
    · obtain ⟨applied, ⟨last, hv⟩, last', hw⟩ := exists_inTurn_replaces rows hrows
      exact ⟨applied, ⟨last, .skip (fun form hf => happlies ⟨form, hf⟩) hv⟩, last',
        .skip (fun form hf => happlies (hrow.2 ⟨form, hf⟩)) hw⟩

theorem ShowsAsWritten.appliesAlike (h : m.ShowsAsWritten word) (hlower : m.IsLowerCase)
    (hsigma : 'Σ' ∉ word.toList) : m.AppliesAlike word (Text.lowercase word) where
  verbal suffix := by
    have hiff : ∀ other ∈ m.verbalSuffixes, (∃ form, Strips word other form) ↔
        ∃ form, Strips (Text.lowercase word) other form := fun other hm =>
      (h.suffixes other (by simp [hm])).strips_iff hsigma (hlower.suffixes other (by simp [hm]))
    rw [exists_stripsFirst_iff, exists_stripsFirst_iff]
    refine exists_congr fun front => exists_congr fun back => and_congr_right fun hrows => ?_
    rw [hrows] at hiff
    refine and_congr (hiff suffix (by simp)) (forall₂_congr fun other hm => ?_)
    exact not_congr (hiff other (by simp [hm]))
  nominal := exists_inTurn_strips_lowercase _ hsigma
    (fun suffix hm => hlower.suffixes suffix (by simp [hm]))
    fun suffix hm => h.suffixes suffix (by simp [hm])
  adjectival := exists_inTurn_strips_lowercase _ hsigma
    (fun suffix hm => hlower.suffixes suffix (by simp [hm]))
    fun suffix hm => h.suffixes suffix (by simp [hm])
  irregular := by
    refine exists_inTurn_replaces _ fun row hm => ⟨?_, fun hlowered => ?_⟩
    · rintro ⟨form, hform⟩
      exact ⟨form, hform.lowercase (hlower.irregulars row hm)⟩
    · obtain ⟨hrow, hpart⟩ := exists_replaces_iff.1 hlowered
      exact exists_replaces_iff.2 ⟨hrow, h.irregulars row hm hpart⟩

end Lockstep

/-- What is left after irregular forms have been replaced is the last replacement. -/
theorem InTurn.eq_replacement {rows applied : List (String × String)}
    (h : InTurn Replaces rows word applied last) :
    last = (applied.getLast?.map Prod.snd).getD word := by
  induction h with
  | done => rfl
  | @change row rows applied word form last hrow hrest ih =>
    obtain ⟨-, -, rfl⟩ := hrow
    rw [ih, List.getLast?_cons]
    cases applied.getLast? <;> rfl
  | skip _ _ ih => exact ih

end Morphology

namespace Grammar

open Morphology

variable {g : Grammar} {word : String}

theorem entry?_lowercase (g : Grammar) (word : String) :
    g.entry? (Text.lowercase word) = g.entry? word := by
  rw [Grammar.entry?, Grammar.entry?, Text.lowercase_lowercase]

/-- The entry of a form, if there is a form and it is not empty. -/
def entryOf? (g : Grammar) (form : Option String) : Option Entry :=
  (form.filter (!·.isEmpty)).bind g.entry?

theorem entryOf?_some {form : String} (h : form ≠ "") :
    g.entryOf? (some form) = g.entry? form := by
  rw [entryOf?, Option.filter_some, if_pos (by simpa using h), Option.bind_some]

theorem entryOf?_some_congr {form form' : String}
    (h : Text.lowercase form = Text.lowercase form') :
    g.entryOf? (some form) = g.entryOf? (some form') := by
  by_cases hform : form = ""
  · have hform' : form' = "" := by
      rwa [← Text.lowercase_eq_empty_iff, ← h, Text.lowercase_eq_empty_iff]
    rw [hform, hform']
  · have hform' : form' ≠ "" := by
      rwa [ne_eq, ← Text.lowercase_eq_empty_iff, ← h, Text.lowercase_eq_empty_iff]
    rw [entryOf?_some hform, entryOf?_some hform', Grammar.entry?, Grammar.entry?, h]

theorem findSome?_kept (g : Grammar) : ∀ made : List (MorphStep × Option String),
    (kept made).findSome? (g.entry? ·.2) =
      (made.map (g.entryOf? ·.2)).findSome? id
  | [] => rfl
  | (step, form?) :: made => by
    have ih := findSome?_kept g made
    rw [kept_cons, List.map_cons, List.findSome?_cons, entryOf?]
    cases form?.filter (!·.isEmpty) with
    | none => exact ih
    | some form =>
      rw [← ih]
      rfl

/-- The entry of the first form of the word that has one. -/
def found? (g : Grammar) (word : String) : Option Entry :=
  (g.morphology.lookupForms word).findSome? (g.entry? ·.2)

theorem resolve_eq (g : Grammar) (word : String) : g.resolve word =
    match g.found? word with
    | some entry => .ok entry
    | none => .error (.unknownWord word) :=
  rfl

theorem found?_eq (g : Grammar) (word : String) : g.found? word =
    [g.entry? word, g.entryOf? (g.morphology.stripVerbal? word),
      g.entryOf? (g.morphology.stripNominal? word),
      g.entryOf? (g.morphology.stripAdjectival? word),
      g.entryOf? (g.morphology.replaceIrregular? word)].findSome? id := by
  rw [found?, lookupForms_eq, List.findSome?_cons, List.findSome?_cons, findSome?_kept]
  rfl

theorem resolve_of_known {entry : Entry} (h : g.entry? word = some entry) :
    g.resolve word = .ok entry := by
  rw [resolve_eq, found?_eq, h]
  rfl

section Alike

theorem entryOf?_stem {stem left cut : String} (hword : word = stem ++ cut)
    (hlower : Text.lowercase word = left ++ cut)
    (hstem : ∃ rest, Text.lowercase word = Text.lowercase stem ++ rest) :
    g.entryOf? (some left) = g.entryOf? (some stem) := by
  refine entryOf?_some_congr ?_
  rw [← Text.lowercase_stem hword hlower hstem, Text.lowercase_lowercase]

theorem entryOf?_changeAll_strip? {rows : List String}
    (hlike : ∃ applied, (∃ form, InTurn Strips rows word applied form) ∧
      ∃ form, InTurn Strips rows (Text.lowercase word) applied form)
    (hstem : ∀ stem, (∃ applied ≠ [], InTurn Strips rows word applied stem) →
      ∃ rest, Text.lowercase word = Text.lowercase stem ++ rest) :
    g.entryOf? (changeAll strip? rows (Text.lowercase word)) =
      g.entryOf? (changeAll strip? rows word) := by
  obtain ⟨applied, ⟨stem, hword⟩, left, hlower⟩ := hlike
  rw [hword.changeAll_eq fun _ _ _ => strip?_eq_some_iff,
    hlower.changeAll_eq fun _ _ _ => strip?_eq_some_iff]
  split_ifs with hnone
  · rfl
  · exact entryOf?_stem hword.eq_append hlower.eq_append (hstem stem ⟨applied, hnone, hword⟩)

variable (hlike : g.morphology.AppliesAlike word (Text.lowercase word))
include hlike

theorem entryOf?_stripVerbal? (hstems : g.morphology.StemsLower word) :
    g.entryOf? (g.morphology.stripVerbal? (Text.lowercase word)) =
      g.entryOf? (g.morphology.stripVerbal? word) := by
  rcases hverbal : g.morphology.stripVerbal? word with _ | stem
  · rcases hlower : g.morphology.stripVerbal? (Text.lowercase word) with _ | left
    · rfl
    · obtain ⟨suffix, hfirst⟩ := stripVerbal?_eq_some_iff.1 hlower
      obtain ⟨stem, hstem⟩ := (hlike.verbal suffix).2 ⟨left, hfirst⟩
      exact absurd (stripVerbal?_eq_some_iff.2 ⟨suffix, hstem⟩) (by simp [hverbal])
  · obtain ⟨suffix, hfirst⟩ := stripVerbal?_eq_some_iff.1 hverbal
    obtain ⟨left, hleft⟩ := (hlike.verbal suffix).1 ⟨stem, hfirst⟩
    rw [stripVerbal?_eq_some_iff.2 ⟨suffix, hleft⟩]
    obtain ⟨-, -, -, ⟨-, hword⟩, -⟩ := hfirst
    obtain ⟨-, -, -, ⟨-, hlower⟩, -⟩ := hleft
    exact entryOf?_stem hword hlower
      (hstems .verbal stem (stripVerbal?_eq_some_iff.1 hverbal) (by decide))

theorem replaceIrregular?_lowercase : g.morphology.replaceIrregular? (Text.lowercase word) =
    g.morphology.replaceIrregular? word := by
  obtain ⟨applied, ⟨form, hword⟩, ⟨form', hlower⟩⟩ := hlike.irregular
  rw [replaceIrregular?, replaceIrregular?, hword.changeAll_eq fun _ _ _ => replace?_eq_some_iff,
    hlower.changeAll_eq fun _ _ _ => replace?_eq_some_iff, hword.eq_replacement,
    hlower.eq_replacement]
  split_ifs with hnone
  · rfl
  · rw [List.getLast?_eq_some_getLast hnone]
    rfl

theorem found?_lowercase (hstems : g.morphology.StemsLower word) :
    g.found? (Text.lowercase word) = g.found? word := by
  have hnominal : g.entryOf? (g.morphology.stripNominal? (Text.lowercase word)) =
      g.entryOf? (g.morphology.stripNominal? word) :=
    entryOf?_changeAll_strip? hlike.nominal fun stem h => hstems .nominal stem h (by decide)
  have hadjectival : g.entryOf? (g.morphology.stripAdjectival? (Text.lowercase word)) =
      g.entryOf? (g.morphology.stripAdjectival? word) :=
    entryOf?_changeAll_strip? hlike.adjectival fun stem h =>
      hstems .adjectival stem h (by decide)
  rw [found?_eq, found?_eq, entry?_lowercase, entryOf?_stripVerbal? hlike hstems, hnominal,
    hadjectival, replaceIrregular?_lowercase hlike]

end Alike

/-- Both words are resolved to the same entry, or both are unknown. -/
def ResolvesAlike (g : Grammar) (v w : String) : Prop :=
  (∃ entry, g.resolve v = .ok entry ∧ g.resolve w = .ok entry) ∨
    (g.resolve v = .error (.unknownWord v) ∧ g.resolve w = .error (.unknownWord w))

theorem resolvesAlike_of_found? {v w : String} (h : g.found? w = g.found? v) :
    g.ResolvesAlike v w := by
  rw [ResolvesAlike, resolve_eq, resolve_eq, h]
  rcases g.found? v with _ | entry
  · exact .inr ⟨rfl, rfl⟩
  · exact .inl ⟨entry, rfl, rfl⟩

/-- A word that the dictionary has is found in any case. Beyond that, a row in lower case that
applies to a word applies to its lower-case form. Where also the converse holds, so that the same
rows apply to both, they are resolved alike; so they are, in particular, where the tables are in
lower case and match nothing that is not there in the word as it is written. -/
theorem resolve_any_case (g : Grammar) (word : String) :
    (∀ entry, g.entry? word = some entry →
      g.resolve word = .ok entry ∧ g.resolve (Text.lowercase word) = .ok entry) ∧
    (∀ suffix form, Text.lowercase suffix = suffix → Strips word suffix form →
      ∃ left, Strips (Text.lowercase word) suffix left) ∧
    (∀ row form, Text.lowercase row.1 = row.1 → Replaces word row form →
      Replaces (Text.lowercase word) row form) ∧
    (g.morphology.AppliesAlike word (Text.lowercase word) → g.morphology.StemsLower word →
      g.ResolvesAlike word (Text.lowercase word)) ∧
    ('Σ' ∉ word.toList → g.morphology.StemsLower word) ∧
    (g.morphology.IsLowerCase → 'Σ' ∉ word.toList → g.morphology.ShowsAsWritten word →
      g.ResolvesAlike word (Text.lowercase word)) := by
  refine ⟨fun entry h => ⟨resolve_of_known h, resolve_of_known ?_⟩,
    fun suffix form hlower h => h.lowercase hlower, fun row form hlower h => h.lowercase hlower,
    fun hlike hstems => ?_, stemsLower_of_notMem, fun hlower hsigma hshows => ?_⟩
  · rw [entry?_lowercase, h]
  · exact resolvesAlike_of_found? (found?_lowercase hlike hstems)
  · have hlike := hshows.appliesAlike hlower hsigma
    exact resolvesAlike_of_found? (found?_lowercase hlike (stemsLower_of_notMem hsigma))

end Grammar

namespace Sample

open Fallible

/-- A suffix and an irregular form, in lower case. -/
def inflections : Morphology where
  verbalSuffixes := ["s"]
  irregulars := [("ran", "run")]

def run : Entry := ⟨"run", [⟨[.plain "n" 1, .plain "s" 0]⟩]⟩

def dog : Entry := ⟨"dog", [⟨[.plain "n" 0]⟩]⟩

def road : Entry := ⟨"οδος", [⟨[.plain "n" 0]⟩]⟩

/-- Words that come in several forms. -/
def inflectedDraft : Draft :=
  { draft with entries := [run, dog, road], morphology := inflections }

def inflected : Grammar :=
  { grammar with
    lexicon := .ofEntries Text.lowercase [run, dog, road], morphology := inflections }

theorem build_inflectedDraft : inflectedDraft.build = .ok inflected := by
  have hentries : inflectedDraft.entries.mapM (Draft.expandEntry grammar.table [] .standard) =
      .ok [run, dog, road] := by
    refine mapM_eq_ok.2 (.cons ?_ (.cons ?_ (.cons ?_ .nil)))
    · exact bind_eq_ok.2 ⟨(), checkAtoms_names (by decide), rfl⟩
    · exact bind_eq_ok.2 ⟨(), checkAtoms_names (by decide), rfl⟩
    · exact bind_eq_ok.2 ⟨(), checkAtoms_names (by decide), rfl⟩
  refine bind_eq_ok.2 ⟨grammar.table, rfl, bind_eq_ok.2 ⟨(), rfl, ?_⟩⟩
  exact bind_eq_ok.2 ⟨(), rfl, bind_eq_ok.2 ⟨_, hentries, rfl⟩⟩

theorem found?_inflected (word : String) : inflected.found? word =
    (inflections.lookupForms word).findSome? fun form =>
      [run, dog, road].find? (Text.lowercase ·.word == Text.lowercase form.2) := by
  simp only [Grammar.found?, Grammar.entry?, inflected, Lexicon.find?_ofEntries]

theorem isLowerCase_inflections : inflections.IsLowerCase := by
  decide +kernel

end Sample

namespace Grammar

open Morphology Sample

theorem resolve_any_case_sample :
    inflectedDraft.build = .ok inflected ∧
      (inflected.entry? "DOG" = some dog ∧
        inflected.resolve "DOG" = .ok dog ∧ inflected.resolve (Text.lowercase "DOG") = .ok dog) ∧
      (Strips "DOGs" "s" "DOG" ∧ ∃ left, Strips (Text.lowercase "DOGs") "s" left) ∧
      (Replaces "Outran" ("ran", "run") "run" ∧
        Replaces (Text.lowercase "Outran") ("ran", "run") "run") ∧
      (inflections.AppliesAlike "DOGs" (Text.lowercase "DOGs") ∧
        inflections.StemsLower "DOGs" ∧ inflected.resolve "DOGs" = .ok dog ∧
          inflected.ResolvesAlike "DOGs" (Text.lowercase "DOGs")) ∧
      (inflections.IsLowerCase ∧ 'Σ' ∉ "Outran".toList ∧ inflections.ShowsAsWritten "Outran" ∧
        inflected.resolve "Outran" = .ok run ∧
          inflected.ResolvesAlike "Outran" (Text.lowercase "Outran")) := by
  have hdog : inflected.entry? "DOG" = some dog := by
    simp only [Grammar.entry?, inflected, Lexicon.find?_ofEntries]
    decide +kernel
  have hstrips : Strips "DOGs" "s" "DOG" := ⟨by decide, by decide⟩
  have hreplaces : Replaces "Outran" ("ran", "run") "run" :=
    ⟨by decide, ⟨"Out", "", by decide⟩, rfl⟩
  have hdogs : 'Σ' ∉ "DOGs".toList := by decide +kernel
  have houtran : 'Σ' ∉ "Outran".toList := by decide +kernel
  have halike : inflections.AppliesAlike "DOGs" (Text.lowercase "DOGs") :=
    ShowsAsWritten.appliesAlike (by decide +kernel) isLowerCase_inflections hdogs
  have hshows : inflections.ShowsAsWritten "Outran" := by decide +kernel
  obtain ⟨hknown, -⟩ := resolve_any_case inflected "DOG"
  obtain ⟨-, hsuffix, -, hsame, hstems, -⟩ := resolve_any_case inflected "DOGs"
  obtain ⟨-, -, hirregular, -, -, hshown⟩ := resolve_any_case inflected "Outran"
  refine ⟨build_inflectedDraft, ⟨hdog, hknown dog hdog⟩,
    ⟨hstrips, hsuffix "s" "DOG" (by decide +kernel) hstrips⟩,
    ⟨hreplaces, hirregular ("ran", "run") "run" (by decide +kernel) hreplaces⟩,
    ⟨halike, hstems hdogs, ?_, hsame halike (hstems hdogs)⟩,
    isLowerCase_inflections, houtran, hshows, ?_,
    hshown isLowerCase_inflections houtran hshows⟩
  · rw [resolve_eq, found?_inflected]
    decide +kernel
  · rw [resolve_eq, found?_inflected]
    decide +kernel

/-- A capital where a row matches, and a sigma that a cut makes final. -/
theorem resolve_minds_case :
    inflectedDraft.build = .ok inflected ∧ inflections.IsLowerCase ∧
      (inflected.resolve "Ran" = .error (.unknownWord "Ran") ∧
        inflected.resolve (Text.lowercase "Ran") = .ok run) ∧
      (inflected.resolve "DOGS" = .error (.unknownWord "DOGS") ∧
        inflected.resolve (Text.lowercase "DOGS") = .ok dog) ∧
      inflected.resolve "ΟΔΟΣs" = .ok road ∧
        inflected.resolve (Text.lowercase "ΟΔΟΣs") =
          .error (.unknownWord (Text.lowercase "ΟΔΟΣs")) := by
  simp only [resolve_eq, found?_inflected]
  refine ⟨build_inflectedDraft, isLowerCase_inflections, ⟨?_, ?_⟩, ⟨?_, ?_⟩, ?_, ?_⟩ <;>
    decide +kernel

end Grammar

end PregroupGrammar
