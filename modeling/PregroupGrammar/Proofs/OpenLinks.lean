import Mathlib.Data.Finset.Lattice.Fold
import Mathlib.Order.Lattice.Nat
import PregroupGrammar.Proofs.NestedLinks

/-!
# Nesting depth as the number of open links

The replay that measures the nesting depth puts every linked position on its stack that does not
close the link on top. As links do not cross and share no end, a position on the stack is always the
left end of a link that is open, and the last one to be opened is the first to be closed (`Opens`).
So the height of the stack is the number of open links (`Opens.size_eq`), and the depth is the
greatest such number (`Bracketed.nestingDepth_eq`).
-/

namespace PregroupGrammar

/-- The link begins at the position or before it, and ends behind it. -/
def Link.isOpenAt (link : Link) (position : Nat) : Bool :=
  decide (link.left ≤ position ∧ position < link.right)

/-- How many of the links are open at a position. -/
def openCount (links : List Link) (position : Nat) : Nat :=
  links.countP (·.isOpenAt position)

variable {links : List Link} {unlinked : List Nat} {count : Nat}

namespace Bracketed

theorem perm {links' : List Link} (h : Bracketed links unlinked count)
    (hperm : links'.Perm links) : Bracketed links' unlinked count where
  rising link hl := h.rising link (hperm.mem_iff.1 hl)
  touched_once position := by
    rw [hperm.countP_eq]
    exact h.touched_once position
  mem_unlinked position := by
    simp only [h.mem_unlinked, hperm.mem_iff]
  increasing := h.increasing
  total := by
    rw [hperm.length_eq]
    exact h.total
  uncrossed link hl other ho := h.uncrossed link (hperm.mem_iff.1 hl) other (hperm.mem_iff.1 ho)
  outside link hl := h.outside link (hperm.mem_iff.1 hl)

theorem nodup_left (h : Bracketed links unlinked count) : (links.map Link.left).Nodup := by
  refine List.nodup_iff_count_le_one.2 fun q => ?_
  rw [List.count, List.countP_map]
  refine le_trans (List.countP_mono_left fun link _ hq => ?_) (h.touched_once q)
  simp only [Function.comp_apply, beq_iff_eq] at hq
  exact Link.touches_eq_true.2 (.inl hq)

end Bracketed

/-- The position is the left end of a link that begins among those below `read` and does not end
there. -/
def OpenedBefore (links : List Link) (read q : Nat) : Prop :=
  ∃ link ∈ links, link.left = q ∧ q < read ∧ read ≤ link.right

namespace Bracketed

variable {link : Link} {p q : Nat} (h : Bracketed links unlinked count)
include h

theorem openedBefore_close (hl : link ∈ links) (hp : link.right = p) :
    OpenedBefore links (p + 1) q ↔ OpenedBefore links p q ∧ q ≠ link.left := by
  constructor
  · rintro ⟨other, ho, rfl, hread, hend⟩
    have hapart := h.ends_ne ho hl (by rintro rfl; omega)
    exact ⟨⟨other, ho, rfl, by omega, by omega⟩, hapart.1⟩
  · rintro ⟨⟨other, ho, rfl, hread, hend⟩, hne⟩
    have hapart := h.ends_ne ho hl (by rintro rfl; exact hne rfl)
    exact ⟨other, ho, rfl, by omega, by omega⟩

theorem openedBefore_open (hl : link ∈ links) (hp : link.left = p) :
    OpenedBefore links (p + 1) q ↔ q = p ∨ OpenedBefore links p q := by
  constructor
  · rintro ⟨other, ho, rfl, hread, hend⟩
    by_cases heq : other = link
    · exact .inl (heq ▸ hp)
    · have hapart := h.ends_ne ho hl heq
      exact .inr ⟨other, ho, rfl, by omega, by omega⟩
  · rintro (rfl | ⟨other, ho, rfl, hread, hend⟩)
    · exact ⟨link, hl, hp, by omega, hp ▸ (h.rising link hl).1⟩
    · have hapart := h.ends_ne ho hl (by rintro rfl; omega)
      exact ⟨other, ho, rfl, by omega, by omega⟩

omit h in
theorem openedBefore_skip (hfree : ∀ link ∈ links, ¬ (link.left = p ∨ link.right = p)) :
    OpenedBefore links (p + 1) q ↔ OpenedBefore links p q := by
  refine exists_congr fun other => and_congr_right fun ho => ?_
  have := hfree other ho
  omega

/-- A link that was opened inside another and is still open where that one ends would cross it. -/
theorem le_left_of_openedBefore (hl : link ∈ links) (hp : link.right = p)
    (hq : OpenedBefore links p q) : q ≤ link.left := by
  obtain ⟨other, ho, rfl, hread, hend⟩ := hq
  by_cases heq : other = link
  · rw [heq]
  · have hapart := h.ends_ne ho hl heq
    have hcross := h.uncrossed link hl other ho
    simp only [Link.Crosses, Link.Encloses] at hcross
    omega

end Bracketed

/-- The stack holds the left ends of the links that are still open after the positions below `read`,
with those further to the right nearer to the top. -/
structure Opens (links : List Link) (read : Nat) (stack : PendingStack Nat) : Prop where
  falling : stack.items.Pairwise (· > ·)
  mem_items : ∀ q, q ∈ stack.items ↔ OpenedBefore links read q

namespace Opens

variable {p : Nat} {stack : PendingStack Nat}

theorem empty : Opens links 0 .empty := by
  refine ⟨List.Pairwise.nil, fun q => ?_⟩
  simp [PendingStack.empty, OpenedBefore]

theorem size_eq (h : Bracketed links unlinked count) (ho : Opens links (p + 1) stack) :
    stack.size = openCount links p := by
  have hlefts : ((links.filter (·.isOpenAt p)).map Link.left).Nodup :=
    h.nodup_left.sublist (List.filter_sublist.map _)
  have hperm : stack.items.Perm ((links.filter (·.isOpenAt p)).map Link.left) := by
    rw [List.perm_ext_iff_of_nodup (ho.falling.imp (by omega)) hlefts]
    intro q
    simp only [ho.mem_items, OpenedBefore, List.mem_map, List.mem_filter, Link.isOpenAt,
      decide_eq_true_eq]
    constructor
    · rintro ⟨link, hl, rfl, hread, hend⟩
      exact ⟨link, ⟨hl, by omega, by omega⟩, rfl⟩
    · rintro ⟨link, ⟨hl, hread, hend⟩, rfl⟩
      exact ⟨link, hl, rfl, by omega, by omega⟩
  rw [stack.size_eq, hperm.length_eq, List.length_map, openCount, List.countP_eq_length_filter]

theorem close (h : Bracketed links unlinked count) (ho : Opens links p stack) {link : Link}
    (hl : link ∈ links) (hp : link.right = p) :
    stack.top? = some link.left ∧ Opens links (p + 1) stack.pop := by
  have hrising := (h.rising link hl).1
  have hmem : link.left ∈ stack.items := (ho.mem_items _).2 ⟨link, hl, rfl, by omega, by omega⟩
  rcases hitems : stack.items with _ | ⟨top, rest⟩
  · simp [hitems] at hmem
  obtain ⟨hfall, hin⟩ := ho
  rw [hitems] at hfall hmem
  simp only [hitems] at hin
  obtain ⟨habove, hrest⟩ := List.pairwise_cons.1 hfall
  obtain rfl : top = link.left := by
    have hle := h.le_left_of_openedBefore hl hp ((hin top).1 List.mem_cons_self)
    rcases List.mem_cons.1 hmem with heq | hlt
    · exact heq.symm
    · have := habove _ hlt
      omega
  have hpop : stack.pop.items = rest := by simp [PendingStack.pop, hitems]
  refine ⟨by rw [PendingStack.top?, hitems, List.head?_cons], by rwa [hpop], fun q => ?_⟩
  · rw [h.openedBefore_close hl hp, ← hin q, hpop, List.mem_cons]
    constructor
    · intro hq
      have := habove q hq
      exact ⟨.inr hq, by omega⟩
    · rintro ⟨heq | hq, hne⟩
      · exact absurd heq hne
      · exact hq

theorem push (h : Bracketed links unlinked count) (ho : Opens links p stack) {link : Link}
    (hl : link ∈ links) (hp : link.left = p) : Opens links (p + 1) (stack.push p) := by
  refine ⟨List.pairwise_cons.2 ⟨fun q hq => ?_, ho.falling⟩, fun q => ?_⟩
  · obtain ⟨other, -, -, hlt, -⟩ := (ho.mem_items q).1 hq
    exact hlt
  · rw [h.openedBefore_open hl hp, ← ho.mem_items q]
    exact List.mem_cons

theorem skip (ho : Opens links p stack)
    (hfree : ∀ link ∈ links, ¬ (link.left = p ∨ link.right = p)) : Opens links (p + 1) stack := by
  refine ⟨ho.falling, fun q => ?_⟩
  rw [Bracketed.openedBefore_skip hfree, ho.mem_items]

/-- One more position keeps the account of the open links. -/
theorem step (h : Bracketed links unlinked count) (ho : Opens links p stack) :
    Opens links (p + 1) (Nesting.step (.ofLinks links) stack p) := by
  have hcloses : stack.top?.any (fun top => links.contains ⟨top, p⟩) = true →
      ∃ link ∈ links, link.right = p := by
    intro hany
    obtain ⟨top, -, htop⟩ := (Option.any_eq_true _ _).1 hany
    exact ⟨⟨top, p⟩, List.contains_iff_mem.1 htop, rfl⟩
  unfold Nesting.step
  simp only [LinkIndex.joins_ofLinks, LinkIndex.touches_ofLinks]
  by_cases hclose : ∃ link ∈ links, link.right = p
  · -- The test of the replay is made on the top only, but that is where the left end lies.
    obtain ⟨link, hl, hp⟩ := hclose
    obtain ⟨htop, hpop⟩ := ho.close h hl hp
    have hjoins : stack.top?.any (fun top => links.contains ⟨top, p⟩) = true := by
      rw [htop, Option.any_some, ← hp]
      exact List.contains_iff_mem.2 hl
    rwa [if_pos hjoins]
  · rw [if_neg fun hany => hclose (hcloses hany)]
    split_ifs with htouched
    · obtain ⟨link, hl, ht⟩ := List.any_eq_true.1 htouched
      rcases Link.touches_eq_true.1 ht with hp | hp
      · exact ho.push h hl hp
      · exact absurd ⟨link, hl, hp⟩ hclose
    · refine ho.skip fun link hl ht => htouched ?_
      exact List.any_eq_true.2 ⟨link, hl, Link.touches_eq_true.2 ht⟩

end Opens

/-- The replay of the first positions ends with the open links on its stack, and the greatest number
of links open so far. -/
theorem Bracketed.foldl_stepHeight (h : Bracketed links unlinked count) : ∀ n : Nat,
    Opens links n ((List.range n).foldl (Nesting.stepHeight (.ofLinks links)) (.empty, 0)).1 ∧
      ((List.range n).foldl (Nesting.stepHeight (.ofLinks links)) (.empty, 0)).2 =
        (Finset.range n).sup (openCount links)
  | 0 => ⟨Opens.empty, rfl⟩
  | n + 1 => by
    obtain ⟨hopens, hdepth⟩ := foldl_stepHeight h n
    rw [List.range_succ, List.foldl_append, Finset.range_add_one, Finset.sup_insert, ← hdepth]
    refine ⟨hopens.step h, ?_⟩
    rw [← (hopens.step h).size_eq h]
    exact Nat.max_comm _ _

theorem Bracketed.openCount_pos (h : Bracketed links unlinked count) {link : Link}
    (hl : link ∈ links) : 0 < openCount links link.left := by
  refine List.countP_pos_iff.2 ⟨link, hl, ?_⟩
  simp [Link.isOpenAt, (h.rising link hl).1]

theorem Bracketed.nestingDepth_eq (h : Bracketed links unlinked count) (n : Nat) :
    nestingDepth links n = (Finset.range n).sup (openCount links) :=
  (h.foldl_stepHeight n).2

/-- The nesting depth of a derivation, in whatever order its links are given, is the greatest number
of links that are open at a position. -/
theorem nestingDepth_eq_greatest_openCount {g : Grammar} {path : Path} {d : Derivation}
    (h : g.derive path = .ok d) {links : List Link} (hperm : links.Perm d.links) :
    nestingDepth links d.atomCount = (Finset.range d.atomCount).sup (openCount links) ∧
      nestingDepth links d.atomCount ≤ links.length ∧
      (nestingDepth links d.atomCount = 0 ↔ links = []) := by
  obtain ⟨m, -, -, -, hcount, -⟩ := derive_cases h
  have hb : Bracketed links d.unlinked d.atomCount := (hcount ▸ (derive_run h).bracketed).perm hperm
  rw [hb.nestingDepth_eq]
  refine ⟨rfl, Finset.sup_le fun p _ => List.countP_le_length, fun hzero => ?_, ?_⟩
  · by_contra hne
    obtain ⟨link, hl⟩ := List.exists_mem_of_ne_nil links hne
    have hlt : link.left < d.atomCount := (hb.rising link hl).1.trans (hb.rising link hl).2
    have hle := Finset.le_sup (f := openCount links) (Finset.mem_range.2 hlt)
    have hpos := hb.openCount_pos hl
    omega
  · rintro rfl
    exact (Finset.sup_eq_bot_iff _ _).2 fun p _ => rfl

/-- Of the links of two nouns with a verb that takes both, listed from the outside in, two are open
at the second noun. -/
theorem nestingDepth_eq_greatest_openCount_sample :
    Sample.grammar.derive Sample.path =
        .ok ⟨[⟨1, 2⟩, ⟨0, 3⟩], [4], 5, true, some (.plain "s" 0)⟩ ∧
      [Link.mk 0 3, ⟨1, 2⟩].Perm [⟨1, 2⟩, ⟨0, 3⟩] ∧
      (Finset.range 5).sup (openCount [⟨0, 3⟩, ⟨1, 2⟩]) = 2 ∧
      nestingDepth [⟨0, 3⟩, ⟨1, 2⟩] 5 = (Finset.range 5).sup (openCount [⟨0, 3⟩, ⟨1, 2⟩]) ∧
      nestingDepth [⟨0, 3⟩, ⟨1, 2⟩] 5 ≤ 2 ∧
      (nestingDepth [⟨0, 3⟩, ⟨1, 2⟩] 5 = 0 ↔ [Link.mk 0 3, ⟨1, 2⟩] = []) := by
  have hperm : [Link.mk 0 3, ⟨1, 2⟩].Perm [⟨1, 2⟩, ⟨0, 3⟩] := List.Perm.swap _ _ _
  exact ⟨Sample.derive_path, hperm, by decide,
    nestingDepth_eq_greatest_openCount Sample.derive_path hperm⟩

end PregroupGrammar
