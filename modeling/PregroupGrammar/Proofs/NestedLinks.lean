import Mathlib.Data.List.Perm.Subperm
import PregroupGrammar.Proofs.MachineRun

/-!
# How the links of a derivation lie

A cancellation takes out two neighbours, so of what remained before it nothing lies between them
(`Step.clears`), and a later link leads neither into the gap nor out of it. The links of a run are
therefore like pairs of brackets around each other or side by side, each position is an end of one
of them or is left over, and what is left over stands outside all of them (`Run.bracketed`). This
holds of a run in whatever order its steps are taken.

The order in which the links are listed is the machine's own: a link is made when its right end is
read (`Machine.closing_of_run`).
-/

namespace PregroupGrammar

open Fallible

namespace Link

/-- The position lies strictly between the ends of the link. -/
def Encloses (link : Link) (position : Nat) : Prop :=
  link.left < position ∧ position < link.right

/-- The other link begins strictly between the ends of the link and ends behind it. -/
def Crosses (link other : Link) : Prop :=
  link.Encloses other.left ∧ link.right < other.right

theorem touches_eq_true {link : Link} {position : Nat} :
    link.touches position = true ↔ link.left = position ∨ link.right = position := by
  simp [touches]

end Link

/-- The links join positions below `count` in pairs that do not cross, and `unlinked` lists the
positions without a link, none of which is enclosed by one. -/
structure Bracketed (links : List Link) (unlinked : List Nat) (count : Nat) : Prop where
  rising : ∀ link ∈ links, link.left < link.right ∧ link.right < count
  touched_once : ∀ position, links.countP (·.touches position) ≤ 1
  mem_unlinked : ∀ position, position ∈ unlinked ↔
    position < count ∧ ∀ link ∈ links, link.touches position = false
  increasing : unlinked.Pairwise (· < ·)
  total : 2 * links.length + unlinked.length = count
  uncrossed : ∀ link ∈ links, ∀ other ∈ links, ¬ link.Crosses other
  outside : ∀ link ∈ links, ∀ position ∈ unlinked, ¬ link.Encloses position

namespace Bracketed

variable {links : List Link} {unlinked : List Nat} {count : Nat} {link other : Link}
  {position : Nat}

theorem eq_of_touches (h : Bracketed links unlinked count) (hl : link ∈ links) (ho : other ∈ links)
    (ht : link.touches position = true) (ht' : other.touches position = true) : link = other := by
  by_contra hne
  have hsub : [link, other].Subperm links :=
    List.subperm_of_subset (by simp [hne]) (by simp [hl, ho])
  have htwo := hsub.countP_le (·.touches position)
  have hone := h.touched_once position
  simp [ht, ht'] at htwo
  omega

theorem ends_ne (h : Bracketed links unlinked count) (hl : link ∈ links) (ho : other ∈ links)
    (hne : link ≠ other) : link.left ≠ other.left ∧ link.left ≠ other.right ∧
      link.right ≠ other.left ∧ link.right ≠ other.right := by
  have hapart : ∀ position, link.touches position = true → other.touches position ≠ true :=
    fun position ht ht' => hne (h.eq_of_touches hl ho ht ht')
  simp only [Link.touches_eq_true, ne_eq] at hapart
  have hleft := hapart link.left (.inl rfl)
  have hright := hapart link.right (.inr rfl)
  omega

theorem exists_touches (h : Bracketed links unlinked count) (hlt : position < count)
    (hp : position ∉ unlinked) : ∃ link ∈ links, link.touches position = true := by
  by_contra hnone
  refine hp ((h.mem_unlinked position).2 ⟨hlt, fun link hl => ?_⟩)
  rw [← Bool.not_eq_true]
  exact fun ht => hnone ⟨link, hl, ht⟩

end Bracketed

namespace Cancellation

variable {g : Grammar} {atoms : List Atom} {p q : List Nat} {link : Link} {links : List Link}

theorem Step.ends_mem (h : Step g atoms p link q) : link.left ∈ p ∧ link.right ∈ p := by
  obtain ⟨front, back, rfl, -, -⟩ := h
  simp

theorem Run.ends_mem (h : Run g atoms p links q) :
    ∀ link ∈ links, link.left ∈ p ∧ link.right ∈ p := by
  induction h with
  | done p => simp
  | step hs _ ih =>
    intro link hl
    rcases List.mem_cons.1 hl with rfl | hl
    · exact hs.ends_mem
    · obtain ⟨hleft, hright⟩ := ih link hl
      exact ⟨hs.sublist.subset hleft, hs.sublist.subset hright⟩

/-- Nothing that remains lies between two neighbours. -/
theorem Step.clears (h : Step g atoms p link q) (hp : p.Pairwise (· < ·)) :
    ∀ position ∈ p, ¬ link.Encloses position := by
  obtain ⟨front, back, rfl, -, -⟩ := h
  obtain ⟨-, hends, hfront⟩ := List.pairwise_append.1 hp
  obtain ⟨-, hback⟩ := List.pairwise_cons.1 hends
  rintro position hm ⟨hleft, hright⟩
  rcases List.mem_append.1 hm with hm | hm
  · have := hfront position hm link.left List.mem_cons_self
    omega
  · rcases List.mem_cons.1 hm with rfl | hm
    · omega
    · rcases List.mem_cons.1 hm with rfl | hm
      · omega
      · have := List.rel_of_pairwise_cons hback hm
        omega

theorem Run.outside (h : Run g atoms p links q) (hp : p.Pairwise (· < ·)) :
    ∀ link ∈ links, ∀ position ∈ q, ¬ link.Encloses position := by
  induction h with
  | done p => simp
  | step hs hrun ih =>
    intro link hl position hq
    rcases List.mem_cons.1 hl with rfl | hl
    · exact hs.clears hp position (hs.sublist.subset (hrun.sublist.subset hq))
    · exact ih (hp.sublist hs.sublist) link hl position hq

/-- A link crosses none whose ends both remain while it is made, and none of them crosses it. -/
theorem Step.uncrossed (h : Step g atoms p link q) (hp : p.Pairwise (· < ·)) {other : Link}
    (hother : other.left ∈ p ∧ other.right ∈ p) :
    ¬ link.Crosses other ∧ ¬ other.Crosses link := by
  have hbegin := h.clears hp other.left hother.1
  have hend := h.clears hp other.right hother.2
  constructor
  · exact fun hcross => hbegin hcross.1
  · rintro ⟨⟨-, hin⟩, hout⟩
    exact hend ⟨hin, hout⟩

theorem Run.uncrossed (h : Run g atoms p links q) (hp : p.Pairwise (· < ·)) :
    ∀ link ∈ links, ∀ other ∈ links, ¬ link.Crosses other := by
  induction h with
  | done p => simp
  | @step p _ _ first links hs hrun ih =>
    -- The ends of all links are there while the first is made: only later steps take them out.
    have hlater : ∀ other ∈ first :: links, ¬ first.Crosses other ∧ ¬ other.Crosses first :=
      fun other ho => hs.uncrossed hp ((Run.step hs hrun).ends_mem other ho)
    intro link hl other ho
    rcases List.mem_cons.1 hl with rfl | hlinks
    · exact (hlater other ho).1
    · rcases List.mem_cons.1 ho with rfl | hothers
      · exact (hlater link hl).2
      · exact ih (hp.sublist hs.sublist) link hlinks other hothers

theorem Run.length_eq (h : Run g atoms p links q) :
    2 * links.length + q.length = p.length := by
  induction h with
  | done p => simp
  | step hs _ ih =>
    obtain ⟨front, back, rfl, rfl, -⟩ := hs
    simp only [List.length_append, List.length_cons] at ih ⊢
    omega

theorem Step.count_eq (h : Step g atoms p link q) (hp : p.Nodup) (position : Nat) :
    p.count position = (if link.touches position then 1 else 0) + q.count position := by
  obtain ⟨front, back, rfl, rfl, -⟩ := h
  have hne : link.left ≠ link.right := by
    have hends := (List.nodup_append.1 hp).2.1
    exact fun he => (List.nodup_cons.1 hends).1 (he ▸ List.mem_cons_self)
  have htouches : (if link.touches position then 1 else 0) =
      (if link.left == position then 1 else 0) + (if link.right == position then 1 else 0) := by
    by_cases hl : link.left = position
    · simp [Link.touches, hl, show link.right ≠ position from fun hr => hne (hl.trans hr.symm)]
    · simp [Link.touches, hl]
  rw [htouches]
  simp only [List.count_append, List.count_cons]
  omega

/-- A position is an end of one of the links, or remains, as often as it was there at first. -/
theorem Run.count_eq (h : Run g atoms p links q) (hp : p.Nodup) (position : Nat) :
    p.count position = links.countP (·.touches position) + q.count position := by
  induction h with
  | done p => simp
  | step hs _ ih =>
    rw [hs.count_eq hp, ih (hp.sublist hs.sublist), List.countP_cons]
    omega

/-- The links of a run over the first `count` positions are bracketed. -/
theorem Run.bracketed {count : Nat} (h : Run g atoms (List.range count) links q) :
    Bracketed links q count where
  rising link hl :=
    ⟨h.left_lt_right List.pairwise_lt_range link hl, List.mem_range.1 (h.ends_mem link hl).2⟩
  touched_once position := by
    have hcount := h.count_eq List.nodup_range position
    have hle := List.nodup_iff_count_le_one.1 (List.nodup_range (n := count)) position
    omega
  mem_unlinked position := by
    rw [h.remaining List.nodup_range]
    simp
  increasing := List.pairwise_lt_range.sublist h.sublist
  total := by rw [h.length_eq, List.length_range]
  uncrossed := h.uncrossed List.pairwise_lt_range
  outside := h.outside List.pairwise_lt_range

end Cancellation

namespace Machine

variable {g : Grammar} {m m' : Machine} {a : Atom}

/-- The right ends of the links fall from the last link to the first, and all of them have been
read. -/
def Closing (m : Machine) : Prop :=
  (m.position :: m.links.map Link.right).Pairwise (· > ·)

theorem Closing.shift (h : m.Closing) (a : Atom) : (m.shift a).Closing := by
  obtain ⟨hread, hfall⟩ := List.pairwise_cons.1 h
  exact List.pairwise_cons.2 ⟨fun right hr => Nat.lt_succ_of_lt (hread right hr), hfall⟩

theorem Closing.cancel (h : m.Closing) (partner : Nat) : (m.cancel partner).Closing := by
  refine List.pairwise_cons.2 ⟨fun right hr => ?_, h⟩
  rcases List.mem_cons.1 hr with rfl | hr
  · exact Nat.lt_succ_self _
  · exact Nat.lt_succ_of_lt (List.rel_of_pairwise_cons h hr)

theorem Closing.step (h : m.Closing) (hm : Machine.step g m a = .ok m') : m'.Closing := by
  rcases step_cases hm with ⟨rfl, -⟩ | ⟨top, rest, -, -, rfl⟩
  · exact h.shift a
  · exact h.cancel top.1

theorem closing_of_run {atoms : List Atom} (h : run g atoms = .ok m) : m.Closing := by
  have hstart : start.Closing := List.pairwise_singleton _ _
  exact foldlM_keeps (fun m a m' hm => hm.step) atoms hstart h

end Machine

/-- The links of a derivation are bracketed and listed by their right ends, and the unlinked
positions, which have no flag at the end, are what is pending then, from bottom to top. -/
theorem derive_bracketed {g : Grammar} {path : Path} {d : Derivation}
    (h : g.derive path = .ok d) :
    d.atomCount = path.atoms.length ∧ Bracketed d.links d.unlinked d.atomCount ∧
      d.links.Pairwise (fun link later => link.right < later.right) ∧
      ∃ c, ParseContext.run g path = .ok c ∧ d.unlinked = c.pending.toList := by
  obtain ⟨m, hm, hlinks, hunlinked, hcount, -⟩ := derive_cases h
  have hfall := (List.pairwise_cons.1 (Machine.closing_of_run hm)).2
  obtain ⟨c, hc, hshows⟩ := Shows.of_run hm
  refine ⟨hcount, hcount ▸ (derive_run h).bracketed, ?_, c, hc, ?_⟩
  · rw [hlinks, List.pairwise_reverse]
    exact List.pairwise_map.1 hfall
  · rw [hunlinked, Machine.waiting, PendingStack.toList, PendingStack.toList, hshows.pending,
      List.map_reverse]

/-- Of two nouns and a verb that takes both, the inner pair lies inside the outer one and the
sentence outside both. -/
theorem derive_bracketed_sample :
    Sample.grammar.derive Sample.path =
        .ok ⟨[⟨1, 2⟩, ⟨0, 3⟩], [4], 5, true, some (.plain "s" 0)⟩ ∧
      5 = Sample.path.atoms.length ∧ Bracketed [⟨1, 2⟩, ⟨0, 3⟩] [4] 5 ∧
      [Link.mk 1 2, ⟨0, 3⟩].Pairwise (fun link later => link.right < later.right) ∧
      ∃ c, ParseContext.run Sample.grammar Sample.path = .ok c ∧ [4] = c.pending.toList :=
  ⟨Sample.derive_path, derive_bracketed Sample.derive_path⟩

end PregroupGrammar
