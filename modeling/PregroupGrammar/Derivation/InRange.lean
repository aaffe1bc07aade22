import PregroupGrammar.Derivation.ParseContext

/-!
# No position is out of range

After each stage the position is the number of atoms of the types taken in (`Stage.Reads`). So the
stages process the positions of the path one after the other, each of them once
(`ParseContext.run_eq_foldlM`), and nothing is looked up but positions that have been processed and
the current one (`ParseContext.InRange`).
-/

namespace PregroupGrammar

section Meets

variable {α β : Type} {P : α → Prop} {Q : β → Prop}

/-- What comes out meets the condition, or is an error; no position was out of range. -/
def Meets (r : Except Halt α) (P : α → Prop) : Prop :=
  match r with
  | .ok a => P a
  | .error (.failed _) => True
  | .error (.outOfRange _) => False

/-- The result, or the error, where no position was out of range. -/
def settle : (r : Except Halt α) → Meets r P → Except Error α
  | .ok a, _ => .ok a
  | .error (.failed e), _ => .error e
  | .error (.outOfRange _), h => h.elim

theorem Meets.bind {x : Except Halt α} {f : α → Except Halt β} (hx : Meets x P)
    (hf : ∀ a, P a → Meets (f a) Q) : Meets (x >>= f) Q := by
  match x, hx with
  | .ok a, ha => exact hf a ha
  | .error (.failed e), _ => exact trivial

/-- What each step carries on to the next position holds behind the last one. -/
theorem Meets.foldlM_range {P : Nat → α → Prop} {step : α → Nat → Except Halt α} {a : α}
    (ha : P 0 a) : ∀ n, (∀ k < n, ∀ a, P k a → Meets (step a k) (P (k + 1))) →
      Meets ((List.range n).foldlM step a) (P n)
  | 0, _ => ha
  | n + 1, hstep => by
    rw [List.range_succ, List.foldlM_append]
    have hbefore := Meets.foldlM_range ha n fun k hk => hstep k (Nat.lt_succ_of_lt hk)
    refine hbefore.bind fun a' ha' => ?_
    rw [List.foldlM_cons]
    exact (hstep n (Nat.lt_succ_self n) a' ha').bind fun a'' ha'' => ha''

theorem Meets.of_ok {x : Except Halt α} {a : α} (h : Meets x P) (hx : x = .ok a) : P a := by
  subst hx
  exact h

theorem Meets.ne_outOfRange {x : Except Halt α} (h : Meets x P) (position : Nat) :
    x ≠ .error (.outOfRange position) := by
  rintro rfl
  exact h

theorem meets_mapError (x : Except Error α) : Meets (x.mapError .failed) fun _ => True := by
  cases x <;> trivial

end Meets

theorem Path.atoms_append (front back : Path) :
    Path.atoms (front ++ back) = front.atoms ++ back.atoms :=
  List.flatMap_append

namespace Stage

/-- The stage has taken in the first types of the path, and its position is behind their atoms. -/
structure Reads (s : Stage) (path : Path) : Prop where
  wordIndex_le : s.wordIndex ≤ path.length
  typesSoFar : s.typesSoFar = path.take s.wordIndex
  position : s.position = (Path.atoms s.typesSoFar).length

variable {s : Stage} {path : Path}

theorem reads_initial (path : Path) : initial.Reads path :=
  ⟨Nat.zero_le _, rfl, rfl⟩

theorem latest_download (h : s.wordIndex < path.length) :
    (s.download path).latest = path[s.wordIndex].length := by
  have hlast : (path.take (s.wordIndex + 1)).getLast? = some path[s.wordIndex] := by
    rw [List.take_succ_eq_append_getElem h, List.getLast?_concat]
  rw [latest, download, hlast]
  rfl

/-- Taking in one more word and processing its atoms keeps the account. -/
theorem Reads.behind_download (hs : s.Reads path) (h : s.wordIndex < path.length) :
    (s.download path).behind.Reads path where
  wordIndex_le := h
  typesSoFar := rfl
  position := by
    have hlength : (Path.atoms (path.take (s.wordIndex + 1))).length =
        (Path.atoms (path.take s.wordIndex)).length + path[s.wordIndex].length := by
      rw [List.take_succ_eq_append_getElem h, Path.atoms_append, List.length_append]
      simp [Path.atoms, WordType.length]
    have hposition := hs.position
    rw [hs.typesSoFar] at hposition
    have hlatest := latest_download h
    show s.position + (s.download path).latest = _
    rw [hlatest, hposition]
    exact hlength.symm

/-- The position is behind the atoms of some of the words, and at the end behind all of them. -/
theorem Reads.position_le (hs : s.Reads path) : s.position ≤ path.atoms.length := by
  have hsplit : path.atoms = Path.atoms s.typesSoFar ++ Path.atoms (path.drop s.wordIndex) := by
    rw [hs.typesSoFar, ← Path.atoms_append, List.take_append_drop]
  rw [hs.position, hsplit, List.length_append]
  exact Nat.le_add_right _ _

theorem Reads.position_eq (hs : s.Reads path) (h : ¬ s.wordIndex < path.length) :
    s.position = path.atoms.length := by
  rw [hs.position, hs.typesSoFar, List.take_of_length_le (Nat.le_of_not_lt h)]

end Stage

namespace ParseContext

variable {g : Grammar} {path : Path}

/-- From any stage on, the positions that are left are processed one after the other. -/
theorem advance_eq_foldlM (g : Grammar) {path : Path} (c : ParseContext) {s : Stage}
    (hs : s.Reads path) : advance g path c s =
      (List.range' s.position (path.atoms.length - s.position)).foldlM (process g) c := by
  rw [advance]
  split
  · rename_i hmore
    have hnext := hs.behind_download hmore
    have hle : s.position + (s.download path).latest ≤ path.atoms.length := hnext.position_le
    -- The positions that are left are those of the next word and then those of the words after it.
    have hsplit : List.range' s.position (path.atoms.length - s.position) =
        List.range' s.position (s.download path).latest ++
          List.range' (s.position + (s.download path).latest)
            (path.atoms.length - (s.position + (s.download path).latest)) := by
      rw [List.range'_append_1]
      congr 1
      omega
    rw [hsplit, List.foldlM_append]
    refine bind_congr fun c' => ?_
    exact advance_eq_foldlM g c' hnext
  · rename_i hall
    rw [← hs.position_eq hall, Nat.sub_self]
    rfl
termination_by path.length - s.wordIndex
decreasing_by exact Stage.fewer_words_left ‹_›

/-- A run processes the positions of the path in order, each of them once. -/
theorem run_eq_foldlM (g : Grammar) (path : Path) :
    run g path = (List.range path.atoms.length).foldlM (process g) (start path) := by
  rw [run, advance_eq_foldlM g _ (Stage.reads_initial path), List.range_eq_range']
  rfl

/-- The context before a position: the atoms are those of the path, each has its flag, and the
pending positions come before that one. -/
structure InRange (path : Path) (position : Nat) (c : ParseContext) : Prop where
  atoms : c.atoms = path.atoms.toArray
  used : c.used.size = path.atoms.length
  pending : ∀ p ∈ c.pending.items, p < position

section InRange

variable {c : ParseContext} {position p : Nat}

theorem inRange_start (path : Path) : InRange path 0 (start path) where
  atoms := rfl
  used := by simp [start]
  pending := by simp [start, PendingStack.empty]

theorem InRange.atomAt (hc : InRange path position c) (h : p < path.atoms.length) :
    c.atomAt p = .ok path.atoms[p] := by
  rw [ParseContext.atomAt, hc.atoms, List.getElem?_toArray, List.getElem?_eq_getElem h]

theorem InRange.isUsed (hc : InRange path position c) (h : p < path.atoms.length) :
    ∃ used, c.isUsed p = .ok used := by
  rw [ParseContext.isUsed, Array.getElem?_eq_getElem (hc.used ▸ h)]
  exact ⟨_, rfl⟩

theorem InRange.use (hc : InRange path position c) (h : p < path.atoms.length) :
    ∃ c', c.use p = .ok c' ∧ InRange path position c' := by
  rw [ParseContext.use, dif_pos (hc.used ▸ h)]
  exact ⟨_, rfl, hc.atoms, by simpa using hc.used, hc.pending⟩

theorem InRange.shift (hc : InRange path position c) :
    InRange path (position + 1) (c.shift position) where
  atoms := hc.atoms
  used := hc.used
  pending := List.forall_mem_cons.2
    ⟨Nat.lt_succ_self _, fun p hp => Nat.lt_succ_of_lt (hc.pending p hp)⟩

theorem InRange.cancel {top : Nat} (hc : InRange path position c)
    (htop : top < path.atoms.length) (h : position < path.atoms.length) :
    ∃ c', c.cancel top position = .ok c' ∧ InRange path (position + 1) c' := by
  have hpop : InRange path (position + 1) { c with
      pending := c.pending.pop, links := c.links.push ⟨top, position⟩ } :=
    ⟨hc.atoms, hc.used,
      fun q hq => Nat.lt_succ_of_lt (hc.pending q (List.mem_of_mem_tail hq))⟩
  obtain ⟨c₁, h₁, hc₁⟩ := hpop.use htop
  obtain ⟨c₂, h₂, hc₂⟩ := hc₁.use h
  refine ⟨c₂, ?_, hc₂⟩
  rw [ParseContext.cancel, h₁]
  exact h₂

/-- What is processed at a position is in range, and the next position comes after it. -/
theorem InRange.process (g : Grammar) (hc : InRange path position c)
    (h : position < path.atoms.length) :
    Meets (process g c position) (InRange path (position + 1)) := by
  unfold ParseContext.process
  rcases htop : c.pending.top? with _ | top
  · exact hc.shift
  · have hbefore : top < path.atoms.length :=
      Nat.lt_trans (hc.pending top (List.mem_of_head? htop)) h
    simp only [hc.atomAt hbefore, hc.atomAt h]
    refine (meets_mapError _).bind fun cancels _ => ?_
    cases cancels
    · exact hc.shift
    · obtain ⟨c', hcancel, hc'⟩ := hc.cancel hbefore h
      show Meets (c.cancel top position) _
      rw [hcancel]
      exact hc'

theorem meets_range (g : Grammar) (path : Path) {k : Nat} (hk : k ≤ path.atoms.length) :
    Meets ((List.range k).foldlM (ParseContext.process g) (start path)) (InRange path k) :=
  Meets.foldlM_range (inRange_start path) k fun _ hlt _ hc =>
    hc.process g (Nat.lt_of_lt_of_le hlt hk)

theorem meets_run (g : Grammar) (path : Path) :
    Meets (run g path) (InRange path path.atoms.length) := by
  rw [run_eq_foldlM]
  exact meets_range g path (Nat.le_refl _)

end InRange

end ParseContext

end PregroupGrammar
