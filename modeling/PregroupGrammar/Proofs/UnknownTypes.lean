import PregroupGrammar.Proofs.DeclaredReductions
import PregroupGrammar.Proofs.KnownNames

/-!
# Unknown types do not go unnoticed

Type names are looked up only where two atoms are compared and where a single atom is left over. So
an unknown atom is not looked up when it is read while nothing is pending (`step_unknown`). It then
waits: the next atom is compared with it, and if there is none, it is what is left over and is
compared with the standalone types (`isStandalone_unknown`). Since all atoms before the leftmost
unknown one are known, nothing fails before it, and what fails names it (`derive_of_unknown`).
-/

namespace PregroupGrammar

open Cancellation Fallible ReductionTable

namespace Grammar

variable {g : Grammar} {path : Path} {a b : Atom}

theorem knows_or_leftmost (g : Grammar) (atoms : List Atom) :
    g.Knows atoms ∨ ∃ front a back, atoms = front ++ a :: back ∧ g.Knows front ∧
      ¬ g.table.contains a.name = true := by
  rcases hfind : atoms.find? (fun a => !g.table.contains a.name) with _ | a
  · left
    intro b hb
    simpa using List.find?_eq_none.1 hfind b hb
  · right
    obtain ⟨ha, front, back, hatoms, hfront⟩ := List.find?_eq_some_iff_append.1 hfind
    exact ⟨front, a, back, hatoms, fun b hb => by simpa using hfront b hb, by simpa using ha⟩

theorem reduces_unknown_left (ha : ¬ g.table.contains a.name = true) :
    g.reduces a b = .error (.unknownAtomType a.name) :=
  bind_eq_error.2 (.inl (namesReduce_of_unknown_source ha))

theorem reduces_unknown_right (ha : g.table.contains a.name = true)
    (hb : ¬ g.table.contains b.name = true) :
    g.reduces a b = .error (.unknownAtomType b.name) :=
  bind_eq_error.2 (.inl (namesReduce_of_unknown_target ha hb))

theorem Grounded.isStandalone_unknown (hg : g.Grounded) (hs : g.standalones ≠ [])
    (ha : ¬ g.table.contains a.name = true) :
    g.isStandalone a = .error (.unknownAtomType a.name) := by
  obtain ⟨standalone, rest, hsome⟩ := List.exists_cons_of_ne_nil hs
  have hknown := hg.standalones standalone (by simp [hsome])
  have hne : a.name ≠ standalone := fun he => ha (he ▸ hknown)
  rw [isStandalone, hsome, reachesStandalone, if_neg hne, namesReduce_of_unknown_source ha]

theorem step_unknown {m : Machine} (hm : g.Knows (m.pending.items.map Prod.snd))
    (ha : ¬ g.table.contains a.name = true) :
    m.pending.items = [] ∧ Machine.step g m a = .ok (m.shift a) ∨
      Machine.step g m a = .error (.unknownAtomType a.name) := by
  unfold Machine.step PendingStack.top?
  rcases hitems : m.pending.items with _ | ⟨⟨partner, b⟩, rest⟩
  · exact .inl ⟨rfl, rfl⟩
  · have hb : g.table.contains b.name = true := hm b (by simp [hitems])
    exact .inr (map_eq_error.2 (reduces_unknown_right hb ha))

theorem Grounded.derive_of_unknown (hg : g.Grounded) (hs : g.standalones ≠ [])
    {front back : List Atom} (hpath : path.atoms = front ++ a :: back) (hfront : g.Knows front)
    (ha : ¬ g.table.contains a.name = true) :
    g.derive path = .error (.unknownAtomType a.name) := by
  obtain ⟨m, hm, hknown⟩ := run_total hfront
  have hrun : Machine.run g path.atoms = (a :: back).foldlM (Machine.step g) m := by
    rw [Machine.run] at hm ⊢
    rw [hpath, List.foldlM_append, hm]
    rfl
  rw [List.foldlM_cons] at hrun
  rcases step_unknown hknown ha with ⟨hempty, hstep⟩ | hstep
  · have hitems : (m.shift a).pending.items = [(m.position, a)] := by
      simp [Machine.shift, PendingStack.push, hempty]
    rw [hstep] at hrun
    rcases back with _ | ⟨b, back⟩
    -- Nothing follows, so the atom is what is left over.
    · have hlast : Machine.run g path.atoms = .ok (m.shift a) := hrun
      have hat : path.atoms[m.position]? = some a :=
        (Machine.accounts_of_run hlast).1.located (m.position, a) (by simp [hitems])
      refine derive_of_residual_error hlast ?_
      have hwaiting : (m.shift a).waiting = [m.position] := by
        simp [Machine.waiting, PendingStack.toList, hitems]
      rw [hwaiting, residual?, hat]
      exact hg.isStandalone_unknown hs ha
    · have hrest : Machine.run g path.atoms =
          (b :: back).foldlM (Machine.step g) (m.shift a) := hrun
      rw [List.foldlM_cons] at hrest
      have hmeets : Machine.step g (m.shift a) b = .error (.unknownAtomType a.name) :=
        map_eq_error.2 (reduces_unknown_left ha)
      rw [hmeets] at hrest
      exact derive_of_run_error hrest
  · rw [hstep] at hrun
    exact derive_of_run_error hrun

/-- The exponents of linked atoms are whole numbers that follow one another. -/
theorem adjoint_of_derive {d : Derivation} (h : g.derive path = .ok d) {link : Link}
    (hl : link ∈ d.links) (ha : path.atoms[link.left]? = some a)
    (hb : path.atoms[link.right]? = some b) : b.adjoint.toInt = a.adjoint.toInt + 1 := by
  obtain ⟨a', b', ha', hb', hab⟩ := (derive_run h).verdict link hl
  obtain rfl := Option.some.inj (ha'.symm.trans ha)
  obtain rfl := Option.some.inj (hb'.symm.trans hb)
  have hfollowed := (reduces_eq_true hab).2
  rw [Atom.isFollowedBy, beq_iff_eq] at hfollowed
  exact hfollowed.symm

end Grammar

/-- In a grammar that has been built and has a standalone type, a path has no derivation just if one
of its atoms has a type that is not declared, and the leftmost of them is what the failure names.
Exponents are compared as whole numbers, so that none of them is too large. -/
theorem Draft.derive_fails_at_undeclared {d : Draft} {g : Grammar} (h : d.build = .ok g)
    (hs : g.standalones ≠ []) (path : Path) :
    (∀ e, g.derive path = .error e ↔ ∃ front a back, path.atoms = front ++ a :: back ∧
      (∀ b ∈ front, IsDeclared g.table.inventory g.table.dummy b.name) ∧
      ¬ IsDeclared g.table.inventory g.table.dummy a.name ∧ e = .unknownAtomType a.name) ∧
    ((∃ result, g.derive path = .ok result) ↔
      ∀ a ∈ path.atoms, IsDeclared g.table.inventory g.table.dummy a.name) ∧
    ∀ result, g.derive path = .ok result → ∀ link ∈ result.links, ∀ a b,
      path.atoms[link.left]? = some a → path.atoms[link.right]? = some b →
        b.adjoint.toInt = a.adjoint.toInt + 1 := by
  have hg := grounded_of_build h
  simp only [hg.compiled.isDeclared_iff]
  have hleftmost := g.knows_or_leftmost path.atoms
  refine ⟨fun e => ⟨fun he => ?_, ?_⟩, ⟨?_, hg.derive_total⟩, ?_⟩
  · rcases hleftmost with hknown | ⟨front, a, back, hpath, hfront, ha⟩
    · obtain ⟨result, hresult⟩ := hg.derive_total hknown
      simp [hresult] at he
    · have hfails := hg.derive_of_unknown hs hpath hfront ha
      exact ⟨front, a, back, hpath, hfront, ha, Except.error.inj (he.symm.trans hfails)⟩
  · rintro ⟨front, a, back, hpath, hfront, ha, rfl⟩
    exact hg.derive_of_unknown hs hpath hfront ha
  · rintro ⟨result, hresult⟩
    rcases hleftmost with hknown | ⟨front, a, back, hpath, hfront, ha⟩
    · exact hknown
    · simp [hg.derive_of_unknown hs hpath hfront ha] at hresult
  · intro result hresult link hl a b
    exact Grammar.adjoint_of_derive hresult hl

namespace Sample

/-- Two nouns that cancel, and two atoms of unknown types. -/
def strangers : Path :=
  [⟨[.plain "n" 0, .plain "n" 1]⟩, ⟨[.plain "q" Int32.maxValue]⟩, ⟨[.plain "r" 0]⟩]

/-- Two nouns with the largest exponent and the smallest one. -/
def farExponents : Path :=
  [⟨[.plain "n" Int32.maxValue]⟩, ⟨[.plain "n" Int32.minValue]⟩]

end Sample

theorem Draft.derive_fails_at_undeclared_sample :
    Sample.draft.build = .ok Sample.grammar ∧ Sample.grammar.standalones ≠ [] ∧
      Sample.grammar.derive Sample.strangers = .error (.unknownAtomType "q") ∧
      ∃ result, Sample.grammar.derive Sample.farExponents = .ok result := by
  have hne : Sample.grammar.standalones ≠ [] := by decide
  obtain ⟨hfails, -, -⟩ :=
    Draft.derive_fails_at_undeclared Sample.build_draft hne Sample.strangers
  obtain ⟨-, hderives, -⟩ :=
    Draft.derive_fails_at_undeclared Sample.build_draft hne Sample.farExponents
  refine ⟨Sample.build_draft, hne, (hfails _).2 ?_, hderives.2 (by decide)⟩
  exact ⟨[.plain "n" 0, .plain "n" 1], .plain "q" Int32.maxValue, [.plain "r" 0], rfl,
    by decide, by decide, rfl⟩

end PregroupGrammar
