import PregroupGrammar.Proofs.AtomByAtom
import PregroupGrammar.Proofs.Cancellation
import PregroupGrammar.Proofs.CompiledTable

/-!
# What the reduction machine does

The machine looks at nothing but the top of its pending stack. Still, at every moment its links are
a run of cancellations over the positions read so far, the pending positions are what that run
leaves, and no two neighbours among them cancel (`Accounts`): a pair is looked at when its right
atom goes on top of its left one, and what stands between two pending atoms has gone by then.

So a derivation is a run of cancellations that ends where none is possible
(`derive_cancels_until_stuck`).
-/

namespace PregroupGrammar

open Cancellation Fallible

namespace Machine

variable {g : Grammar} {atoms : List Atom} {m m' : Machine} {a : Atom}

/-- The pending positions, from bottom to top. -/
def waiting (m : Machine) : List Nat :=
  m.pending.toList.map Prod.fst

theorem waiting_shift (m : Machine) (a : Atom) :
    (m.shift a).waiting = m.waiting ++ [m.position] := by
  simp [waiting, shift, PendingStack.push, PendingStack.toList]

theorem waiting_cancel {top : Nat × Atom} {rest : List (Nat × Atom)}
    (h : m.pending.items = top :: rest) : m.waiting = (m.cancel top.1).waiting ++ [top.1] := by
  simp [waiting, cancel, PendingStack.pop, PendingStack.toList, h]

theorem getLast?_waiting (m : Machine) : m.waiting.getLast? = m.pending.top?.map Prod.fst := by
  simp [waiting, PendingStack.toList, PendingStack.top?]

/-- An atom goes on top if it does not cancel with what is there, and otherwise takes it off. -/
theorem step_cases (h : step g m a = .ok m') :
    (m' = m.shift a ∧ ∀ top ∈ m.pending.top?, g.reduces top.2 a = .ok false) ∨
      ∃ top rest, m.pending.items = top :: rest ∧ g.reduces top.2 a = .ok true ∧
        m' = m.cancel top.1 := by
  unfold step at h
  split at h
  · rename_i htop
    simp only [Except.ok.injEq] at h
    exact .inl ⟨h.symm, by simp [htop]⟩
  · rename_i partner b htop
    obtain ⟨cancels, hr, hm⟩ := map_eq_ok.1 h
    cases cancels
    · refine .inl ⟨by simpa using hm.symm, fun top ht => ?_⟩
      rw [htop, Option.mem_some_iff] at ht
      exact ht ▸ hr
    · obtain ⟨rest, hitems⟩ := List.head?_eq_some_iff.1 htop
      exact .inr ⟨_, rest, hitems, hr, by simpa using hm.symm⟩

variable (g atoms) in
/-- The state accounts for the atoms read so far: its links are a run of cancellations over their
positions, the pending positions are what the run leaves, and no two neighbours among them
cancel. -/
structure Accounts (m : Machine) : Prop where
  located : ∀ entry ∈ m.pending.items, atoms[entry.1]? = some entry.2
  run : Run g atoms (List.range m.position) m.links.reverse m.waiting
  stuck : m.waiting.IsChain (Verdict g atoms false)

theorem Accounts.start : Accounts g atoms start where
  located := by simp [Machine.start, PendingStack.empty]
  run := .done []
  stuck := List.isChain_nil

theorem Accounts.shift (h : Accounts g atoms m) (ha : atoms[m.position]? = some a)
    (hno : ∀ top ∈ m.pending.top?, g.reduces top.2 a = .ok false) :
    Accounts g atoms (m.shift a) where
  located := by
    intro entry he
    rcases List.mem_cons.1 he with rfl | he
    · exact ha
    · exact h.located entry he
  run := by
    have hrange : List.range (m.shift a).position = List.range m.position ++ [m.position] :=
      List.range_succ
    rw [waiting_shift, hrange]
    exact h.run.append _
  stuck := by
    rw [waiting_shift]
    refine List.isChain_append.2 ⟨h.stuck, List.isChain_singleton _, ?_⟩
    intro l hl r hr
    simp only [List.head?_cons, Option.mem_some_iff] at hr
    subst hr
    rw [getLast?_waiting] at hl
    obtain ⟨top, htop, rfl⟩ := Option.map_eq_some_iff.1 hl
    exact ⟨top.2, a, h.located top (List.mem_of_head? htop), ha, hno top htop⟩

theorem Accounts.cancel (h : Accounts g atoms m) (ha : atoms[m.position]? = some a)
    {top : Nat × Atom} {rest : List (Nat × Atom)} (hitems : m.pending.items = top :: rest)
    (hyes : g.reduces top.2 a = .ok true) : Accounts g atoms (m.cancel top.1) where
  located := by
    intro entry he
    exact h.located entry (List.mem_of_mem_tail he)
  run := by
    have hrange : List.range (m.cancel top.1).position = List.range m.position ++ [m.position] :=
      List.range_succ
    have htop : atoms[top.1]? = some top.2 := h.located top (by simp [hitems])
    have hrun := h.run.append [m.position]
    rw [waiting_cancel hitems, List.append_assoc] at hrun
    have hlast : Step g atoms ((m.cancel top.1).waiting ++ ([top.1] ++ [m.position]))
        ⟨top.1, m.position⟩ (m.cancel top.1).waiting :=
      ⟨(m.cancel top.1).waiting, [], by simp, by simp, top.2, a, htop, ha, hyes⟩
    rw [hrange, show (m.cancel top.1).links.reverse = m.links.reverse ++ [⟨top.1, m.position⟩]
      from List.reverse_cons]
    exact hrun.snoc hlast
  stuck := by
    have hchain := h.stuck
    rw [waiting_cancel hitems] at hchain
    exact hchain.left_of_append

/-- Reading one more atom keeps the account. -/
theorem Accounts.step (h : Accounts g atoms m) (ha : atoms[m.position]? = some a)
    (hm : Machine.step g m a = .ok m') :
    Accounts g atoms m' ∧ m'.position = m.position + 1 := by
  rcases step_cases hm with ⟨rfl, hno⟩ | ⟨top, rest, hitems, hyes, rfl⟩
  · exact ⟨h.shift ha hno, rfl⟩
  · exact ⟨h.cancel ha hitems hyes, rfl⟩

/-- Reading all further atoms keeps the account. -/
theorem Accounts.fold : ∀ (rest : List Atom) {m m' : Machine}, Accounts g atoms m →
    atoms.drop m.position = rest → rest.foldlM (Machine.step g) m = .ok m' →
    Accounts g atoms m' ∧ m'.position = m.position + rest.length
  | [], m, m', h, _, hm => by
    simp only [List.foldlM_nil, pure, Except.pure, Except.ok.injEq] at hm
    subst hm
    exact ⟨h, rfl⟩
  | a :: rest, m, m', h, hdrop, hm => by
    rw [List.foldlM_cons, bind_eq_ok] at hm
    obtain ⟨m₁, hm₁, hm'⟩ := hm
    have ha : atoms[m.position]? = some a := by
      rw [← List.head?_drop, hdrop, List.head?_cons]
    obtain ⟨h₁, hp⟩ := h.step ha hm₁
    have hdrop₁ : atoms.drop m₁.position = rest := by
      rw [hp, ← List.drop_drop, hdrop, List.drop_succ_cons, List.drop_zero]
    obtain ⟨h', hp'⟩ := Accounts.fold rest h₁ hdrop₁ hm'
    exact ⟨h', by rw [hp', hp, List.length_cons]; omega⟩

theorem accounts_of_run (h : run g atoms = .ok m) :
    Accounts g atoms m ∧ m.position = atoms.length := by
  obtain ⟨ha, hp⟩ := Accounts.fold atoms Accounts.start rfl h
  exact ⟨ha, by simpa [Machine.start] using hp⟩

theorem unlinkedPositions_eq_waiting (h : run g atoms = .ok m) :
    unlinkedPositions m.links.reverse atoms.length = m.waiting := by
  obtain ⟨ha, hp⟩ := accounts_of_run h
  unfold unlinkedPositions
  rw [ha.run.remaining List.nodup_range, hp]

end Machine

section Derive

variable {g : Grammar} {path : Path} {d : Derivation}

/-- A derivation is read off the final state of the machine. -/
theorem derive_cases (h : g.derive path = .ok d) :
    ∃ m, Machine.run g path.atoms = .ok m ∧ d.links = m.links.reverse ∧ d.unlinked = m.waiting ∧
      d.atomCount = path.atoms.length ∧ d.residual = residual? path.atoms d.unlinked ∧
      g.acceptsResidual d.residual = .ok d.grammatical := by
  rw [derive_eq_deriveAtoms] at h
  obtain ⟨m, hm, h⟩ := bind_eq_ok.1 h
  obtain ⟨grammatical, hg, h⟩ := bind_eq_ok.1 h
  simp only [pure, Except.pure, Except.ok.injEq] at h
  subst h
  exact ⟨m, hm, rfl, Machine.unlinkedPositions_eq_waiting hm, rfl, rfl, hg⟩

theorem derive_of_run {m : Machine} {grammatical : Bool} (hm : Machine.run g path.atoms = .ok m)
    (hr : g.acceptsResidual (residual? path.atoms m.waiting) = .ok grammatical) :
    g.derive path = .ok {
      links := m.links.reverse
      unlinked := m.waiting
      atomCount := path.atoms.length
      grammatical := grammatical
      residual := residual? path.atoms m.waiting } := by
  rw [derive_eq_deriveAtoms]
  refine bind_eq_ok.2 ⟨m, hm, ?_⟩
  simp only [Machine.unlinkedPositions_eq_waiting hm]
  exact bind_eq_ok.2 ⟨grammatical, hr, rfl⟩

theorem derive_of_run_error {e : Error} (h : Machine.run g path.atoms = .error e) :
    g.derive path = .error e := by
  rw [derive_eq_deriveAtoms]
  exact bind_eq_error.2 (.inl h)

theorem derive_of_residual_error {m : Machine} {e : Error}
    (hm : Machine.run g path.atoms = .ok m)
    (hr : g.acceptsResidual (residual? path.atoms m.waiting) = .error e) :
    g.derive path = .error e := by
  rw [derive_eq_deriveAtoms]
  refine bind_eq_error.2 (.inr ⟨m, hm, bind_eq_error.2 (.inl ?_)⟩)
  rwa [Machine.unlinkedPositions_eq_waiting hm]

theorem derive_run (h : g.derive path = .ok d) :
    Run g path.atoms (List.range path.atoms.length) d.links d.unlinked := by
  obtain ⟨m, hm, hl, hu, -⟩ := derive_cases h
  obtain ⟨ha, hp⟩ := Machine.accounts_of_run hm
  rw [hl, hu, ← hp]
  exact ha.run

theorem derive_unlinked_isChain (h : g.derive path = .ok d) :
    d.unlinked.IsChain (Verdict g path.atoms false) := by
  obtain ⟨m, hm, -, hu, -⟩ := derive_cases h
  rw [hu]
  exact (Machine.accounts_of_run hm).1.stuck

theorem residual?_eq_some {atoms : List Atom} {unlinked : List Nat} {a : Atom} :
    residual? atoms unlinked = some a ↔ ∃ i, unlinked = [i] ∧ atoms[i]? = some a := by
  unfold residual?
  split
  · simp
  · rename_i hne
    refine ⟨fun h => by simp at h, ?_⟩
    rintro ⟨i, rfl, -⟩
    exact absurd rfl (hne i)

theorem derive_grammatical_iff (h : g.derive path = .ok d) :
    d.grammatical = true ↔
      ∃ i a, d.unlinked = [i] ∧ path.atoms[i]? = some a ∧ g.isStandalone a = .ok true := by
  obtain ⟨m, -, -, -, -, hr, hg⟩ := derive_cases h
  constructor
  · intro ht
    rw [ht] at hg
    rcases hres : d.residual with _ | a
    · rw [hres] at hg
      simp [Grammar.acceptsResidual] at hg
    · rw [hres] at hg
      obtain ⟨i, hi, ha⟩ := residual?_eq_some.1 (hr ▸ hres)
      exact ⟨i, a, hi, ha, hg⟩
  · rintro ⟨i, a, hi, ha, hs⟩
    rw [hr, residual?_eq_some.2 ⟨i, hi, ha⟩] at hg
    exact Except.ok.inj (hg.symm.trans hs)

/-- The links of a derivation, in their order, are a run of cancellations from all positions of the
path to the unlinked ones. It ends where no two neighbours cancel, and the path is grammatical if it
ends with one position whose atom, the residual, may stand alone. -/
theorem derive_cancels_until_stuck (h : g.derive path = .ok d) :
    Run g path.atoms (List.range path.atoms.length) d.links d.unlinked ∧
      (∀ link ∈ d.links, link.left < link.right) ∧
      d.unlinked.IsChain (Verdict g path.atoms false) ∧
      (d.grammatical = true ↔
        ∃ i a, d.unlinked = [i] ∧ path.atoms[i]? = some a ∧ g.isStandalone a = .ok true) ∧
      ∀ i, d.unlinked = [i] → d.residual = path.atoms[i]? := by
  refine ⟨derive_run h, (derive_run h).left_lt_right List.pairwise_lt_range,
    derive_unlinked_isChain h, derive_grammatical_iff h, fun i hi => ?_⟩
  obtain ⟨m, -, -, -, -, hr, -⟩ := derive_cases h
  rw [hr, hi]
  rfl

end Derive

namespace Sample

/-- Sentences and nouns. -/
def draft : Draft := { inventory := ["s", "n"], standalones := ["s"] }

/-- The grammar that the draft gives. -/
def grammar : Grammar where
  table := .ofParts ["s", "n"] "x" [("s", 0), ("n", 1), ("x", 2)] (ReductionTable.diagonal 3)
  standalones := ["s"]
  markers := []
  metarules := []
  lexicon := .ofEntries Text.lowercase []
  morphology := {}
  settings := {}

/-- Two nouns, and a verb that takes both. -/
def path : Path :=
  [⟨[.plain "n" 0, .plain "n" 0]⟩, ⟨[.plain "n" 1, .plain "n" 1, .plain "s" 0]⟩]

theorem build_draft : draft.build = .ok grammar := rfl

theorem reduces_nouns (i j : Int32) : grammar.reduces (.plain "n" i) (.plain "n" j) =
    .ok ((Atom.plain "n" i).isFollowedBy (.plain "n" j)) := by
  have hn : grammar.table.indexOf "n" = .ok 1 := ReductionTable.indexOf_eq_ok.2 rfl
  have hnn : grammar.table.namesReduce "n" "n" = .ok true :=
    ReductionTable.namesReduce_eq_ok.2 ⟨1, 1, hn, hn, rfl⟩
  refine bind_eq_ok.2 ⟨true, hnn, bind_eq_ok.2 ⟨true, hnn, congrArg Except.ok ?_⟩⟩
  exact Bool.and_true _

theorem derive_path :
    grammar.derive path = .ok ⟨[⟨1, 2⟩, ⟨0, 3⟩], [4], 5, true, some (.plain "s" 0)⟩ := by
  have hrun : Machine.run grammar path.atoms =
      .ok ⟨5, ⟨[(4, .plain "s" 0)], 1, rfl⟩, [⟨0, 3⟩, ⟨1, 2⟩]⟩ := by
    refine bind_eq_ok.2 ⟨_, rfl, bind_eq_ok.2 ⟨_, map_eq_ok.2 ⟨_, reduces_nouns 0 0, rfl⟩, ?_⟩⟩
    refine bind_eq_ok.2 ⟨_, map_eq_ok.2 ⟨_, reduces_nouns 0 1, rfl⟩, ?_⟩
    exact bind_eq_ok.2 ⟨_, map_eq_ok.2 ⟨_, reduces_nouns 0 1, rfl⟩, rfl⟩
  exact derive_of_run hrun rfl

end Sample

/-- Of two nouns and a verb that takes both, the inner pair cancels first. -/
theorem derive_cancels_until_stuck_sample :
    Sample.grammar.derive Sample.path =
        .ok ⟨[⟨1, 2⟩, ⟨0, 3⟩], [4], 5, true, some (.plain "s" 0)⟩ ∧
      Run Sample.grammar Sample.path.atoms (List.range 5) [⟨1, 2⟩, ⟨0, 3⟩] [4] ∧
      (∀ link ∈ [Link.mk 1 2, ⟨0, 3⟩], link.left < link.right) ∧
      [4].IsChain (Verdict Sample.grammar Sample.path.atoms false) ∧
      (true = true ↔ ∃ i a, [4] = [i] ∧ Sample.path.atoms[i]? = some a ∧
        Sample.grammar.isStandalone a = .ok true) ∧
      ∀ i, [4] = [i] → some (.plain "s" 0) = Sample.path.atoms[i]? :=
  ⟨Sample.derive_path, derive_cancels_until_stuck Sample.derive_path⟩

end PregroupGrammar
