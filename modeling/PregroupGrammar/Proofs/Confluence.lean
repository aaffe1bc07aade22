import PregroupGrammar.Proofs.KnownNames

/-!
# When the order of cancellations does not matter

Two cancellations get in each other's way only if they share an atom, that is, if the right atom of
the one is the left atom of the other. Where no three atoms of a path are chained in this way, any
two different steps can be taken in either order (`Step.diamond`), a step that is possible now has
to be taken some time (`Run.take_first`), and so all runs that go on until they are stuck make the
same links and leave the same positions (`Run.perm_of_stuck`). The machine's run is one of them.
-/

namespace PregroupGrammar

namespace Cancellation

variable (g : Grammar) (atoms : List Atom)

/-- The atom at `j` cancels with one to its left and with one to its right. -/
def Chained (i j k : Nat) : Prop :=
  i < j ∧ j < k ∧ Verdict g atoms true i j ∧ Verdict g atoms true j k

variable {g atoms} {p q q' s : List Nat} {x y : Link} {links links' : List Link}

theorem Step.unique (hp : p.Nodup) (h : Step g atoms p x q) (h' : Step g atoms p x q') :
    q = q' := by
  rw [h.remaining hp, h'.remaining hp]

/-- Two steps of which the one takes out a pair further to the right than the other. -/
theorem diamond_of_front {front gap back back' : List Nat}
    (hfree : ∀ i j k, ¬ Chained g atoms i j k)
    (hp : (front ++ x.left :: x.right :: back).Pairwise (· < ·))
    (hx : Verdict g atoms true x.left x.right) (hy : Verdict g atoms true y.left y.right)
    (hgap : x.left :: x.right :: back = gap ++ y.left :: y.right :: back') (hne : x ≠ y) :
    ∃ s, Step g atoms (front ++ back) y s ∧ Step g atoms (front ++ gap ++ back') x s := by
  rcases gap with _ | ⟨u, _ | ⟨v, gap⟩⟩
  · simp only [List.nil_append, List.cons.injEq] at hgap
    exact absurd (congrArg₂ Link.mk hgap.1 hgap.2.1) hne
  · simp only [List.cons_append, List.nil_append, List.cons.injEq] at hgap
    obtain ⟨-, hmid, rfl⟩ := hgap
    have hsorted := (List.pairwise_append.1 hp).2.1
    have hlt : x.left < x.right := List.rel_of_pairwise_cons hsorted List.mem_cons_self
    have hlt' : x.right < y.right :=
      List.rel_of_pairwise_cons (List.pairwise_cons.1 hsorted).2 List.mem_cons_self
    exact absurd ⟨hlt, hlt', hx, hmid ▸ hy⟩ (hfree x.left x.right y.right)
  · simp only [List.cons_append, List.cons.injEq] at hgap
    obtain ⟨rfl, rfl, rfl⟩ := hgap
    exact ⟨front ++ gap ++ back', ⟨front ++ gap, back', by simp, by simp, hy⟩,
      ⟨front, gap ++ back', by simp, by simp, hx⟩⟩

/-- Two different steps from the same positions can both be taken, in either order. -/
theorem Step.diamond (hfree : ∀ i j k, ¬ Chained g atoms i j k) (hp : p.Pairwise (· < ·))
    (hx : Step g atoms p x q) (hy : Step g atoms p y q') (hne : x ≠ y) :
    ∃ s, Step g atoms q y s ∧ Step g atoms q' x s := by
  obtain ⟨front, back, rfl, rfl, hvx⟩ := hx
  obtain ⟨front', back', hsame, rfl, hvy⟩ := hy
  rcases List.append_eq_append_iff.1 hsame with ⟨gap, rfl, hgap⟩ | ⟨gap, rfl, hgap⟩
  · exact diamond_of_front hfree hp hvx hvy hgap hne
  · rw [hsame] at hp
    obtain ⟨s, hs, hs'⟩ := diamond_of_front hfree hp hvy hvx hgap hne.symm
    exact ⟨s, hs', hs⟩

/-- A step that is possible at the start of a run that goes on until it is stuck is one of the run's
steps, and the run may as well begin with it. -/
theorem Run.take_first (hfree : ∀ i j k, ¬ Chained g atoms i j k) (h : Run g atoms p links s)
    (hs : Stuck g atoms s) (hp : p.Pairwise (· < ·)) (hx : Step g atoms p x q) :
    ∃ rest, links.Perm (x :: rest) ∧ Run g atoms q rest s := by
  induction h generalizing q with
  | done p => exact absurd hx (hs x q)
  | @step p p₁ s y links hy hrun ih =>
    by_cases hxy : x = y
    · subst hxy
      obtain rfl := hx.unique (hp.imp Nat.ne_of_lt) hy
      exact ⟨links, List.Perm.refl _, hrun⟩
    · obtain ⟨r, hqr, hpr⟩ := hx.diamond hfree hp hy hxy
      obtain ⟨rest, hperm, hrest⟩ := ih hs (hp.sublist hy.sublist) hpr
      exact ⟨y :: rest, (hperm.cons y).trans (List.Perm.swap x y rest), .step hqr hrest⟩

/-- All runs that go on until they are stuck make the same links and leave the same positions. -/
theorem Run.perm_of_stuck (hfree : ∀ i j k, ¬ Chained g atoms i j k) (h : Run g atoms p links q)
    (hq : Stuck g atoms q) (hp : p.Pairwise (· < ·)) (h' : Run g atoms p links' q')
    (hq' : Stuck g atoms q') : links.Perm links' ∧ q = q' := by
  induction h generalizing links' with
  | done p =>
    obtain ⟨rfl, rfl⟩ := h'.eq_of_stuck hq
    exact ⟨List.Perm.refl _, rfl⟩
  | step hx hrun ih =>
    obtain ⟨rest, hperm, hrest⟩ := h'.take_first hfree hq' hp hx
    obtain ⟨hlinks, hend⟩ := ih hq (hp.sublist hx.sublist) hrest
    exact ⟨(hlinks.cons _).trans hperm.symm, hend⟩

theorem stuck_singleton (i : Nat) : Stuck g atoms [i] :=
  stuck_of_isChain (List.isChain_singleton i)

end Cancellation

open Cancellation

/-- Unless three atoms of a path are chained, all runs of cancellations that go on until they are
stuck make the links of the derivation and leave its unlinked positions, and the path is grammatical
if some run leaves one atom that may stand alone. -/
theorem derive_chained_or_confluent {draft : Draft} {g : Grammar} (hg : draft.build = .ok g)
    {path : Path} (hpath : g.Knows path.atoms) :
    ∃ d, g.derive path = .ok d ∧
      ((∃ i j k, Chained g path.atoms i j k) ∨
        (∀ links left, Run g path.atoms (List.range path.atoms.length) links left →
          Stuck g path.atoms left → links.Perm d.links ∧ left = d.unlinked) ∧
        (d.grammatical = true ↔
          ∃ links i a, Run g path.atoms (List.range path.atoms.length) links [i] ∧
            path.atoms[i]? = some a ∧ g.isStandalone a = .ok true)) := by
  obtain ⟨d, hd⟩ := (Draft.grounded_of_build hg).derive_total hpath
  refine ⟨d, hd, ?_⟩
  by_cases hfree : ∃ i j k, Chained g path.atoms i j k
  · exact .inl hfree
  push Not at hfree
  have hsame : ∀ links left, Run g path.atoms (List.range path.atoms.length) links left →
      Stuck g path.atoms left → links.Perm d.links ∧ left = d.unlinked :=
    fun links left hrun hstuck => hrun.perm_of_stuck hfree hstuck List.pairwise_lt_range
      (derive_run hd) (stuck_of_isChain (derive_unlinked_isChain hd))
  refine .inr ⟨hsame, ?_⟩
  rw [derive_grammatical_iff hd]
  constructor
  · rintro ⟨i, a, hi, ha, hs⟩
    exact ⟨d.links, i, a, hi ▸ derive_run hd, ha, hs⟩
  · rintro ⟨links, i, a, hrun, ha, hs⟩
    exact ⟨i, a, (hsame links [i] hrun (stuck_singleton i)).2.symm, ha, hs⟩

theorem derive_chained_or_confluent_sample :
    Sample.draft.build = .ok Sample.grammar ∧ Sample.grammar.Knows Sample.path.atoms ∧
      ∃ d, Sample.grammar.derive Sample.path = .ok d ∧
        ((∃ i j k, Chained Sample.grammar Sample.path.atoms i j k) ∨
          (∀ links left, Run Sample.grammar Sample.path.atoms (List.range 5) links left →
            Stuck Sample.grammar Sample.path.atoms left →
            links.Perm d.links ∧ left = d.unlinked) ∧
          (d.grammatical = true ↔
            ∃ links i a, Run Sample.grammar Sample.path.atoms (List.range 5) links [i] ∧
              Sample.path.atoms[i]? = some a ∧ Sample.grammar.isStandalone a = .ok true)) :=
  ⟨Sample.build_draft, Sample.knows_path,
    derive_chained_or_confluent Sample.build_draft Sample.knows_path⟩

end PregroupGrammar
