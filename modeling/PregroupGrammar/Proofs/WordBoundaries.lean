import Mathlib.Algebra.GroupWithZero.Nat
import PregroupGrammar.Proofs.MachineRun

/-!
# Word boundaries do not matter

A path is read in stages, one for each word, with positions that are counted on from the length of
the latest type while atoms and flags are looked up by their position in the whole path. The account
of `Visited` says what the stages have visited: behind the types taken in, be they empty or not,
each position of their atoms once and in order (`Visited.eq_range`). So the stages do the same as
one pass over all positions (`ReadsInOrder`), and where the words are cut makes no difference.
-/

namespace PregroupGrammar

open Cancellation Fallible

/-- Words taken in one after the other, and the positions that were processed on the way. -/
inductive Visited (g : Grammar) (path : Path) : ParseContext → Stage → List Nat → Prop
  | start : Visited g path (.start path) .initial []
  | word {c c' : ParseContext} {s : Stage} {positions : List Nat} :
    Visited g path c s positions → s.wordIndex < path.length →
      c.update g (s.download path) = .ok c' →
      Visited g path c' (s.download path).behind (positions ++ (s.download path).fresh)

namespace Visited

variable {g : Grammar} {path : Path} {c c' : ParseContext} {s : Stage} {positions : List Nat}

theorem reads (h : Visited g path c s positions) : s.Reads path := by
  induction h with
  | start => exact Stage.reads_initial path
  | word _ hmore _ ih => exact ih.behind_download hmore

theorem position_eq (h : Visited g path c s positions) :
    s.position = (s.typesSoFar.map WordType.length).sum := by
  rw [h.reads.position, Path.atoms, List.length_flatMap]
  rfl

/-- No position is left out and none is visited again. -/
theorem eq_range (h : Visited g path c s positions) : positions = List.range s.position := by
  induction h with
  | start => rfl
  | @word c c' s positions _ _ _ ih =>
    have happend : List.range' 0 s.position ++
        List.range' (0 + s.position) (s.download path).latest =
          List.range' 0 (s.position + (s.download path).latest) := List.range'_append_1
    rw [Nat.zero_add] at happend
    rw [ih, List.range_eq_range', List.range_eq_range']
    exact happend

/-- The context is what the positions have made of it. -/
theorem foldlM (h : Visited g path c s positions) :
    positions.foldlM (ParseContext.process g) (.start path) = .ok c := by
  induction h with
  | start => rfl
  | word _ _ hupdate ih =>
    rw [List.foldlM_append]
    exact bind_eq_ok.2 ⟨_, ih, hupdate⟩

/-- The words that are left are taken in to the last one, or to one that fails. -/
theorem advance {c : ParseContext} {s : Stage} {positions : List Nat}
    (h : Visited g path c s positions) :
    (∃ c' s' positions', Visited g path c' s' positions' ∧ s'.wordIndex = path.length ∧
        ParseContext.advance g path c s = .ok c') ∨
      ∃ c' s' positions' halt, Visited g path c' s' positions' ∧ s'.wordIndex < path.length ∧
        c'.update g (s'.download path) = .error halt ∧
        ParseContext.advance g path c s = .error halt := by
  rw [ParseContext.advance]
  split
  · rename_i hmore
    rcases hupdate : c.update g (s.download path) with halt | c₁
    · exact .inr ⟨c, s, positions, halt, h, hmore, hupdate, bind_eq_error.2 (.inl hupdate)⟩
    · -- One word more has been taken in, and one less is left.
      simp only [hupdate]
      exact (h.word hmore hupdate).advance
  · rename_i hall
    exact .inl ⟨c, s, positions, h, Nat.le_antisymm h.reads.wordIndex_le (Nat.le_of_not_lt hall),
      rfl⟩
termination_by path.length - s.wordIndex
decreasing_by exact Stage.fewer_words_left ‹_›

end Visited

/-- The account of a path that is read in stages.

After each word the position is the length of the types taken in, and the next type adds the
positions of its own atoms. The positions visited are all before that one, each once and in order,
and a run goes on to the last word or to one that fails. Before each position there is a flag for
each atom and all pending positions are behind, so that no atom and no flag is looked up out of
range. -/
structure ReadsInOrder (g : Grammar) (path : Path) : Prop where
  after_words : ∀ c s positions, Visited g path c s positions →
    s.typesSoFar = path.take s.wordIndex ∧
      s.position = (s.typesSoFar.map WordType.length).sum ∧ s.position ≤ path.atoms.length
  next_word : ∀ c s positions, Visited g path c s positions → ∀ type ∈ path[s.wordIndex]?,
    (s.download path).fresh = List.range' s.position type.length
  each_once : ∀ c s positions, Visited g path c s positions → positions = List.range s.position ∧
    positions.foldlM (ParseContext.process g) (.start path) = .ok c
  ends : (∃ c s, Visited g path c s (List.range path.atoms.length) ∧
      s.wordIndex = path.length ∧ ParseContext.run g path = .ok c) ∨
    ∃ c s positions e, Visited g path c s positions ∧ s.wordIndex < path.length ∧
      c.update g (s.download path) = .error (.failed e) ∧
      ParseContext.run g path = .error (.failed e)
  one_pass : ParseContext.run g path =
    (List.range path.atoms.length).foldlM (ParseContext.process g) (.start path)
  before_each : ∀ position ≤ path.atoms.length, ∀ c,
    (List.range position).foldlM (ParseContext.process g) (.start path) = .ok c →
      c.atoms = path.atoms.toArray ∧ c.used.size = path.atoms.length ∧
        ∀ p ∈ c.pending.items, p < position
  in_range : ∀ position, g.attempt path ≠ .error (.outOfRange position)

theorem readsInOrder (g : Grammar) (path : Path) : ReadsInOrder g path where
  after_words c s positions h := ⟨h.reads.typesSoFar, h.position_eq, h.reads.position_le⟩
  next_word c s positions h type htype := by
    obtain ⟨hlt, rfl⟩ := List.getElem?_eq_some_iff.1 htype
    rw [Stage.fresh, Stage.latest_download hlt]
    rfl
  each_once c s positions h := ⟨h.eq_range, h.foldlM⟩
  ends := by
    have hstart : Visited g path (.start path) .initial [] := .start
    rcases hstart.advance with ⟨c, s, positions, h, hall, hrun⟩ |
        ⟨c, s, positions, halt, h, hmore, hupdate, hrun⟩
    · have hpositions := h.eq_range
      rw [h.reads.position_eq (Nat.not_lt_of_le hall.ge)] at hpositions
      exact .inl ⟨c, s, hpositions ▸ h, hall, hrun⟩
    · rcases halt with e | position
      · exact .inr ⟨c, s, positions, e, h, hmore, hupdate, hrun⟩
      · exact absurd hrun ((ParseContext.meets_run g path).ne_outOfRange position)
  one_pass := ParseContext.run_eq_foldlM g path
  before_each position hle c hc := by
    have hrange := (ParseContext.meets_range g path hle).of_ok hc
    exact ⟨hrange.atoms, hrange.used, hrange.pending⟩
  in_range := (g.meets_attempt path).ne_outOfRange

/-- Paths of the same atoms have the same derivation or fail alike, however the atoms are divided
into words: the stages make one pass over the atoms, which comes to each of them in order. -/
theorem derive_ignores_word_boundaries (g : Grammar) {path path' : Path}
    (h : path'.atoms = path.atoms) :
    g.derive path' = g.derive path ∧ g.derive path = g.deriveAtoms path.atoms ∧
      ReadsInOrder g path := by
  refine ⟨?_, derive_eq_deriveAtoms g path, readsInOrder g path⟩
  rw [derive_eq_deriveAtoms, derive_eq_deriveAtoms, h]

/-- Two nouns and a verb that takes both, with the words cut elsewhere and two without atoms. -/
def Sample.recut : Path :=
  [.unit, ⟨[.plain "n" 0]⟩, ⟨[.plain "n" 0, .plain "n" 1]⟩, .unit, ⟨[.plain "n" 1, .plain "s" 0]⟩]

theorem derive_ignores_word_boundaries_sample :
    Sample.recut.atoms = Sample.path.atoms ∧
      Sample.grammar.derive Sample.recut = Sample.grammar.derive Sample.path ∧
      Sample.grammar.derive Sample.path = Sample.grammar.deriveAtoms Sample.path.atoms ∧
      ReadsInOrder Sample.grammar Sample.path :=
  ⟨rfl, derive_ignores_word_boundaries Sample.grammar rfl⟩

end PregroupGrammar
