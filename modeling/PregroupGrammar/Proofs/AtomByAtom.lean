import PregroupGrammar.Derivation.Basic
import PregroupGrammar.Proofs.Fallible

/-!
# Atom by atom

A second account of derivations, without words, stages and flags: a machine that reads a sequence of
atoms from left to right and keeps the pending atoms themselves on its stack. Which positions are
left without a link is read off its links at the end (`unlinkedPositions`).

What the stages do at each position is what this machine does (`Shows.process`), so that a path has
the derivation of its atoms (`derive_eq_deriveAtoms`).
-/

namespace PregroupGrammar

open Fallible

/-- The state of the machine: the position of the next atom, the pending atoms with their positions,
and the links so far, last first. -/
structure Machine where
  position : Nat
  pending : PendingStack (Nat × Atom)
  links : List Link
deriving DecidableEq, Repr

namespace Machine

/-- Nothing read yet. -/
def start : Machine := ⟨0, .empty, []⟩

/-- The next atom waits for a partner. -/
def shift (m : Machine) (a : Atom) : Machine :=
  ⟨m.position + 1, m.pending.push (m.position, a), m.links⟩

/-- The next atom cancels with the top of the pending stack, which is at position `partner`. -/
def cancel (m : Machine) (partner : Nat) : Machine :=
  ⟨m.position + 1, m.pending.pop, ⟨partner, m.position⟩ :: m.links⟩

/-- One atom read. -/
def step (g : Grammar) (m : Machine) (a : Atom) : Except Error Machine :=
  match m.pending.top? with
  | none => .ok (m.shift a)
  | some (partner, b) =>
    (g.reduces b a).map fun cancels => if cancels then m.cancel partner else m.shift a

/-- All atoms read. -/
def run (g : Grammar) (atoms : List Atom) : Except Error Machine :=
  atoms.foldlM (step g) start

end Machine

/-- The positions that none of the links touches. -/
def unlinkedPositions (links : List Link) (count : Nat) : List Nat :=
  (List.range count).filter fun position => !links.any (·.touches position)

/-- The atom at the position that is the only one without a link. -/
def residual? (atoms : List Atom) : List Nat → Option Atom
  | [only] => atoms[only]?
  | _ => none

/-- The derivation of a sequence of atoms, in one pass from left to right. -/
def Grammar.deriveAtoms (g : Grammar) (atoms : List Atom) : Except Error Derivation := do
  let m ← Machine.run g atoms
  let links := m.links.reverse
  let unlinked := unlinkedPositions links atoms.length
  let residual := residual? atoms unlinked
  let grammatical ← g.acceptsResidual residual
  return { links, unlinked, atomCount := atoms.length, grammatical, residual }

section Matches

variable {α β : Type}

/-- What the machine comes to, and what the stages come to with no position out of range. -/
abbrev Matches (R : α → β → Prop) : Except Error α → Except Halt β → Prop :=
  Alike (fun e halt => halt = .failed e) R

theorem matches_mapError (x : Except Error α) : Matches Eq x (x.mapError .failed) := by
  cases x with
  | ok a => exact .ok rfl
  | error e => exact .error rfl

theorem settle_eq {P : α → Prop} {x : Except Error α} {y : Except Halt α} (h : Matches Eq x y)
    (hy : Meets y P) : settle y hy = x := by
  cases h with
  | ok h => exact congrArg Except.ok h.symm
  | error h =>
    subst h
    rfl

end Matches

section Shows

variable {g : Grammar} {atoms : List Atom} {m : Machine} {c : ParseContext} {p : Nat} {a : Atom}

variable (atoms) in
/-- The context is where the machine is: they have the same links, the same positions are pending,
and the flags are those of the positions that the links touch. -/
structure Shows (m : Machine) (c : ParseContext) : Prop where
  sameAtoms : c.atoms = atoms.toArray
  pending : c.pending.items = m.pending.items.map Prod.fst
  located : ∀ entry ∈ m.pending.items, atoms[entry.1]? = some entry.2
  links : c.links.toList = m.links.reverse
  flags : c.used.size = atoms.length
  used : ∀ p < atoms.length, c.used[p]? = some (m.links.any (·.touches p))

theorem Shows.start (path : Path) : Shows path.atoms .start (.start path) where
  sameAtoms := rfl
  pending := rfl
  located := by simp [Machine.start, PendingStack.empty]
  links := rfl
  flags := Array.size_replicate
  used p hp := by simp [ParseContext.start, Machine.start, hp]

theorem Shows.atomAt (h : Shows atoms m c) (ha : atoms[p]? = some a) : c.atomAt p = .ok a := by
  rw [ParseContext.atomAt, h.sameAtoms, List.getElem?_toArray, ha]

theorem Shows.isUsed (h : Shows atoms m c) (hp : p < atoms.length) :
    c.isUsed p = .ok (m.links.any (·.touches p)) := by
  rw [ParseContext.isUsed, h.used p hp]

theorem Shows.shift (h : Shows atoms m c) (ha : atoms[m.position]? = some a) :
    Shows atoms (m.shift a) (c.shift m.position) where
  sameAtoms := h.sameAtoms
  pending := congrArg (m.position :: ·) h.pending
  located := List.forall_mem_cons.2 ⟨ha, h.located⟩
  links := h.links
  flags := h.flags
  used := h.used

theorem cancel_eq (c : ParseContext) {top current : Nat} (htop : top < c.used.size)
    (hcurrent : current < c.used.size) :
    c.cancel top current = .ok { c with
      pending := c.pending.pop
      links := c.links.push ⟨top, current⟩
      used := (c.used.set top true).set current true (by simpa using hcurrent) } := by
  have hcurrent' : current < (c.used.set top true).size := by simpa using hcurrent
  refine bind_eq_ok.2 ⟨_, dif_pos htop, ?_⟩
  exact dif_pos hcurrent'

/-- The flags that a link sets are those of the positions that it touches. -/
theorem Shows.cancel (h : Shows atoms m c) {top : Nat × Atom} {rest : List (Nat × Atom)}
    (hitems : m.pending.items = top :: rest) (hp : m.position < atoms.length) :
    ∃ c', c.cancel top.1 m.position = .ok c' ∧ Shows atoms (m.cancel top.1) c' := by
  have htop : top.1 < atoms.length :=
    (List.getElem?_eq_some_iff.1 (h.located top (by simp [hitems]))).1
  refine ⟨_, cancel_eq c (h.flags ▸ htop) (h.flags ▸ hp), ⟨h.sameAtoms, ?_, ?_, ?_, ?_, ?_⟩⟩
  · show c.pending.items.tail = m.pending.items.tail.map Prod.fst
    rw [h.pending, List.map_tail]
  · exact fun entry he => h.located entry (List.mem_of_mem_tail he)
  · show (c.links.push ⟨top.1, m.position⟩).toList = (⟨top.1, m.position⟩ :: m.links).reverse
    rw [Array.toList_push, h.links, List.reverse_cons]
  · simpa using h.flags
  · intro q hq
    have hused := h.used q hq
    have hany : (m.cancel top.1).links.any (·.touches q) =
        (Link.touches ⟨top.1, m.position⟩ q || m.links.any (·.touches q)) := rfl
    -- The flag of the current position is set last, so that it is asked for first.
    rw [hany, Array.getElem?_set, Array.getElem?_set, hused]
    by_cases hright : m.position = q
    · simp [Link.touches, hright]
    · by_cases hleft : top.1 = q <;> simp [Link.touches, hright, hleft]

/-- At one position the context becomes what the machine becomes by the atom there. -/
theorem Shows.process (g : Grammar) (h : Shows atoms m c) (ha : atoms[m.position]? = some a) :
    Matches (fun m' c' => Shows atoms m' c' ∧ m'.position = m.position + 1)
      (Machine.step g m a) (ParseContext.process g c m.position) := by
  unfold Machine.step ParseContext.process
  have htop : c.pending.top? = m.pending.top?.map Prod.fst := by
    rw [PendingStack.top?, h.pending, List.head?_map, PendingStack.top?]
  rw [htop]
  rcases hm : m.pending.top? with _ | ⟨partner, b⟩
  · exact .ok ⟨h.shift ha, rfl⟩
  · obtain ⟨rest, hitems⟩ := List.head?_eq_some_iff.1 hm
    have hb : c.atomAt partner = .ok b := h.atomAt (h.located (partner, b) (by simp [hitems]))
    simp only [Option.map_some, hb, h.atomAt ha, map_eq_bind]
    refine (matches_mapError (g.reduces b a)).bind fun cancels _ hsame => ?_
    subst hsame
    cases cancels
    · exact .ok ⟨h.shift ha, rfl⟩
    · obtain ⟨c', hc', h'⟩ := h.cancel hitems (List.getElem?_eq_some_iff.1 ha).1
      show Matches _ (.ok _) (c.cancel partner m.position)
      rw [hc']
      exact .ok ⟨h', rfl⟩

/-- So it does at all positions from there on. -/
theorem Shows.fold (g : Grammar) : ∀ (rest : List Atom) {m : Machine} {c : ParseContext},
    Shows atoms m c → atoms.drop m.position = rest →
    Matches (Shows atoms) (rest.foldlM (Machine.step g) m)
      ((List.range' m.position rest.length).foldlM (ParseContext.process g) c)
  | [], m, c, h, _ => .ok h
  | a :: rest, m, c, h, hdrop => by
    have ha : atoms[m.position]? = some a := by
      rw [← List.head?_drop, hdrop, List.head?_cons]
    rw [List.foldlM_cons, List.length_cons, List.range'_succ, List.foldlM_cons]
    refine (h.process g ha).bind fun m' c' ⟨h', hp⟩ => ?_
    have hdrop' : atoms.drop m'.position = rest := by
      rw [hp, ← List.drop_drop, hdrop, List.drop_succ_cons, List.drop_zero]
    rw [← hp]
    exact Shows.fold g rest h' hdrop'

theorem Shows.run (g : Grammar) (path : Path) :
    Matches (Shows path.atoms) (Machine.run g path.atoms) (ParseContext.run g path) := by
  rw [ParseContext.run_eq_foldlM, List.range_eq_range']
  exact Shows.fold g path.atoms (.start path) rfl

theorem Shows.of_run {path : Path} (h : Machine.run g path.atoms = .ok m) :
    ∃ c, ParseContext.run g path = .ok c ∧ Shows path.atoms m c :=
  (h ▸ Shows.run g path).exists_ok

theorem Shows.unusedOf (h : Shows atoms m c) : ∀ ps : List Nat, (∀ p ∈ ps, p < atoms.length) →
    c.unusedOf ps = .ok (ps.filter fun p => !m.links.any (·.touches p))
  | [], _ => rfl
  | p :: ps, hps => by
    obtain ⟨hp, hps⟩ := List.forall_mem_cons.1 hps
    rw [ParseContext.unusedOf, h.isUsed hp, h.unusedOf ps hps, List.filter_cons]
    cases m.links.any (·.touches p) <;> rfl

theorem Shows.residualOf (h : Shows atoms m c) : ∀ left : List Nat,
    (∀ p ∈ left, p < atoms.length) → c.residualOf left = .ok (residual? atoms left)
  | [], _ => rfl
  | [only], hleft => by
    have hat := List.getElem?_eq_getElem (hleft only List.mem_cons_self)
    rw [ParseContext.residualOf, h.atomAt hat, residual?, hat]
    rfl
  | _ :: _ :: _, _ => rfl

end Shows

/-- Read in stages, a path has the result of the machine on its atoms. -/
theorem attempt_matches (g : Grammar) (path : Path) :
    Matches Eq (g.deriveAtoms path.atoms) (g.attempt path) := by
  refine (Shows.run g path).bind fun m c h => ?_
  have hsize : c.atoms.size = path.atoms.length := by rw [h.sameAtoms, List.size_toArray]
  have hrange : ∀ p ∈ List.range path.atoms.length, p < path.atoms.length :=
    fun p hp => List.mem_range.1 hp
  have hunused : c.unusedOf (List.range path.atoms.length) =
      .ok (unlinkedPositions m.links.reverse path.atoms.length) := by
    rw [h.unusedOf _ hrange]
    simp only [unlinkedPositions, List.any_reverse]
  have hresidual := h.residualOf (unlinkedPositions m.links.reverse path.atoms.length)
    fun p hp => hrange p (List.mem_filter.1 hp).1
  rw [hsize, hunused]
  show Matches _ _ (c.residualOf _ >>= _)
  rw [hresidual, h.links]
  refine (matches_mapError _).bind fun grammatical _ hsame => ?_
  subst hsame
  exact .ok rfl

theorem derive_eq_deriveAtoms (g : Grammar) (path : Path) :
    g.derive path = g.deriveAtoms path.atoms :=
  settle_eq (attempt_matches g path) (g.meets_attempt path)

end PregroupGrammar
