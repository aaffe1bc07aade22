import Mathlib.Data.List.Chain
import Mathlib.Data.List.Nodup
import PregroupGrammar.Derivation.Basic

/-!
# Cancellation in any order

A sequence of atoms shrinks when two of them cancel that stand next to each other among those that
remain. What remains is given by the positions of its atoms in the whole sequence, from left to
right. A run is a series of such steps, in whatever order they are taken.

A run leaves what it does not touch in order (`Run.sublist`), its links lead from left to right
(`Run.left_lt_right`), and what remains at its end is what none of its links touches
(`Run.remaining`).
-/

namespace PregroupGrammar

namespace Cancellation

variable (g : Grammar) (atoms : List Atom)

/-- The grammar decides whether the atom at position `l` cancels with the one at position `r`. -/
def Verdict (cancels : Bool) (l r : Nat) : Prop :=
  ∃ a b, atoms[l]? = some a ∧ atoms[r]? = some b ∧ g.reduces a b = .ok cancels

/-- Two neighbours among the remaining positions cancel and are taken out. -/
def Step (remaining : List Nat) (link : Link) (left : List Nat) : Prop :=
  ∃ front back, remaining = front ++ link.left :: link.right :: back ∧ left = front ++ back ∧
    Verdict g atoms true link.left link.right

/-- Steps one after the other, with the links they make in order. -/
inductive Run : List Nat → List Link → List Nat → Prop
  | done (p : List Nat) : Run p [] p
  | step {p q s : List Nat} {link : Link} {links : List Link} :
    Step g atoms p link q → Run q links s → Run p (link :: links) s

/-- No two neighbours cancel. -/
def Stuck (remaining : List Nat) : Prop :=
  ∀ link left, ¬ Step g atoms remaining link left

variable {g atoms} {p q s : List Nat} {link : Link} {links : List Link}

theorem Verdict.not_both {l r : Nat} (h : Verdict g atoms true l r)
    (h' : Verdict g atoms false l r) : False := by
  obtain ⟨a, b, ha, hb, hab⟩ := h
  obtain ⟨a', b', ha', hb', hab'⟩ := h'
  obtain rfl : a = a' := by simpa [ha] using ha'
  obtain rfl : b = b' := by simpa [hb] using hb'
  rw [hab] at hab'
  simp at hab'

theorem Step.append (h : Step g atoms p link q) (s : List Nat) :
    Step g atoms (p ++ s) link (q ++ s) := by
  obtain ⟨front, back, rfl, rfl, hv⟩ := h
  exact ⟨front, back ++ s, by simp, by simp, hv⟩

theorem Run.append (h : Run g atoms p links q) (s : List Nat) :
    Run g atoms (p ++ s) links (q ++ s) := by
  induction h with
  | done p => exact .done _
  | step hs _ ih => exact .step (hs.append s) ih

theorem Run.snoc (h : Run g atoms p links q) (hs : Step g atoms q link s) :
    Run g atoms p (links ++ [link]) s := by
  induction h with
  | done p => exact .step hs (.done _)
  | step h₁ _ ih => exact .step h₁ (ih hs)

theorem Step.sublist (h : Step g atoms p link q) : q.Sublist p := by
  obtain ⟨front, back, rfl, rfl, -⟩ := h
  exact ((List.sublist_cons_self _ _).trans (List.sublist_cons_self _ _)).append_left front

theorem Run.sublist (h : Run g atoms p links q) : q.Sublist p := by
  induction h with
  | done p => exact List.Sublist.refl p
  | step hs _ ih => exact ih.trans hs.sublist

theorem Step.left_lt_right (h : Step g atoms p link q) (hp : p.Pairwise (· < ·)) :
    link.left < link.right := by
  obtain ⟨front, back, rfl, -, -⟩ := h
  exact List.rel_of_pairwise_cons (List.pairwise_append.1 hp).2.1 List.mem_cons_self

/-- A run over positions in increasing order links a position to a later one. -/
theorem Run.left_lt_right (h : Run g atoms p links q) (hp : p.Pairwise (· < ·)) :
    ∀ link ∈ links, link.left < link.right := by
  induction h with
  | done p => simp
  | step hs _ ih =>
    intro link hl
    rcases List.mem_cons.1 hl with rfl | hl
    · exact hs.left_lt_right hp
    · exact ih (hp.sublist hs.sublist) link hl

theorem Run.verdict (h : Run g atoms p links q) :
    ∀ link ∈ links, Verdict g atoms true link.left link.right := by
  induction h with
  | done p => simp
  | step hs _ ih =>
    intro link hl
    rcases List.mem_cons.1 hl with rfl | hl
    · obtain ⟨front, back, -, -, hv⟩ := hs
      exact hv
    · exact ih link hl

theorem Step.remaining (h : Step g atoms p link q) (hp : p.Nodup) :
    q = p.filter fun position => !link.touches position := by
  obtain ⟨front, back, rfl, rfl, -⟩ := h
  obtain ⟨hl, hlr⟩ := List.nodup_middle.1 hp |> List.nodup_cons.1
  have hr := (List.nodup_cons.1 (List.nodup_middle.1 hlr)).1
  have hkeep : ∀ position ∈ front ++ back, (!link.touches position) = true := by
    intro position hm
    have h₁ : link.left ≠ position := by
      rintro rfl
      rcases List.mem_append.1 hm with hm | hm <;> simp [hm] at hl
    have h₂ : link.right ≠ position := fun e => hr (e ▸ hm)
    simp [Link.touches, h₁, h₂]
  rw [List.filter_append, List.filter_cons_of_neg (by simp [Link.touches]),
    List.filter_cons_of_neg (by simp [Link.touches]), ← List.filter_append,
    List.filter_eq_self.2 hkeep]

/-- What remains at the end of a run is what none of its links touches. -/
theorem Run.remaining (h : Run g atoms p links q) (hp : p.Nodup) :
    q = p.filter fun position => !links.any (·.touches position) := by
  induction h with
  | done p => simp
  | step hs _ ih =>
    rw [ih (hp.sublist hs.sublist), hs.remaining hp, List.filter_filter]
    simp only [List.any_cons, Bool.not_or, Bool.and_comm]

theorem stuck_of_isChain (h : p.IsChain (Verdict g atoms false)) : Stuck g atoms p := by
  rintro link q ⟨front, back, rfl, -, hv⟩
  exact hv.not_both (List.isChain_append_cons_cons.1 h).2.1

theorem Run.eq_of_stuck (h : Run g atoms p links q) (hp : Stuck g atoms p) :
    links = [] ∧ q = p := by
  cases h with
  | done => exact ⟨rfl, rfl⟩
  | step hs _ => exact absurd hs (hp _ _)

end Cancellation

end PregroupGrammar
