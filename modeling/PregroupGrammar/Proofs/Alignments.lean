import PregroupGrammar.Metarule.Match
import PregroupGrammar.Proofs.Fallible
import PregroupGrammar.Proofs.MetaruleForm

/-!
# Matching decides the alignments

An alignment of a pattern with a candidate puts each concrete atom of the pattern at a position of
the candidate, in order, so that whatever lies between two of these positions, in front of the first
or behind the last, lies where the pattern has a generic (`IsAlignment`).

The search of the matcher, left to run to its end, meets every alignment (`mem_positionLists_iff`),
and no alignment twice (`nodup_positionLists`): two generics are never neighbours, so the end of the
run that a generic captures is the position of the concrete atom after it. Stopping at the second
find therefore tells none, one and several alignments apart (`match?_counts_alignments`).
-/

namespace PregroupGrammar

namespace Search

variable {α β : Type}

/-- A sweep gives the first finds of the searches from every place where the run may end. -/
theorem sweep_eq_take {search : Nat → List α → List α → List β}
    {finds : List α → List α → List β}
    (h : ∀ n passed rest, search n passed rest = (finds passed rest).take n) :
    ∀ (rest : List α) (wanted : Nat) (passed : List α), sweep search wanted passed rest =
      ((List.range (rest.length + 1)).flatMap fun j =>
        finds ((rest.take j).reverse ++ passed) (rest.drop j)).take wanted
  | [], wanted, passed => by simp [sweep, h]
  | a :: rest, wanted, passed => by
    have hlater : (fun n => sweep search n (a :: passed) rest) = fun n =>
        ((List.range (rest.length + 1)).flatMap fun j =>
          finds ((rest.take j).reverse ++ a :: passed) (rest.drop j)).take n := by
      funext n
      exact sweep_eq_take h rest n (a :: passed)
    rw [sweep, h, hlater, andThen_take, List.length_cons, List.range_succ_eq_map (n := _ + 1),
      List.flatMap_cons, List.flatMap_map]
    simp only [List.take_zero, List.reverse_nil, List.nil_append, List.drop_zero,
      List.take_succ_cons, List.reverse_cons, List.append_assoc, List.singleton_append,
      List.drop_succ_cons]

end Search

namespace Metarule

/-- The places of the concrete atoms of a pattern whose first atom has the place `first`. -/
def placesFrom (first : Nat) : List Atom → List Nat
  | [] => []
  | a :: rest =>
    if a.isGeneric then placesFrom (first + 1) rest else first :: placesFrom (first + 1) rest

/-- The stretches in front of the marks, between them and behind them, each by its first place and
the place after its last. -/
def gaps (first : Nat) (marks : List Nat) (stop : Nat) : List (Nat × Nat) :=
  match marks with
  | [] => [(first, stop)]
  | mark :: later => (first, mark) :: gaps (mark + 1) later stop

section Alignment

variable (pattern candidate : List Atom)

/-- The atom at a position of the candidate agrees with the one at a place of the pattern. An end of
the candidate goes with the same end of the pattern only. -/
structure Covers (place position : Nat) : Prop where
  agrees : ∃ p a, pattern[place]? = some p ∧ candidate[position]? = some a ∧ a.agrees p = true
  first : position = 0 → place = 0
  last : position + 1 = candidate.length → place + 1 = pattern.length

/-- The run of the candidate is empty, or a generic stands in the gap of the pattern. -/
def RunFits (gap run : Nat × Nat) : Prop :=
  run.2 = run.1 ∨ ∃ k p, gap.1 ≤ k ∧ k < gap.2 ∧ pattern[k]? = some p ∧ p.isGeneric = true

/-- The concrete atoms of the pattern can be laid on the candidate at the positions. -/
structure IsAlignment (positions : List Nat) : Prop where
  increasing : positions.Pairwise (· < ·)
  covers : List.Forall₂ (Covers pattern candidate) (placesFrom 0 pattern) positions
  runs : List.Forall₂ (RunFits pattern) (gaps 0 (placesFrom 0 pattern) pattern.length)
    (gaps 0 positions candidate.length)

/-- The atoms of the pattern from the place `k` on can be laid on the candidate from the position
`i` on. -/
structure AlignsFrom (k i : Nat) (positions : List Nat) : Prop where
  above : ∀ p ∈ positions, i ≤ p
  increasing : positions.Pairwise (· < ·)
  covers : List.Forall₂ (Covers pattern candidate) (placesFrom k (pattern.drop k)) positions
  runs : List.Forall₂ (RunFits pattern) (gaps k (placesFrom k (pattern.drop k)) pattern.length)
    (gaps i positions candidate.length)

end Alignment

section Places

variable {k : Nat} {p : Atom} {rest : List Atom}

theorem placesFrom_generic (h : p.isGeneric = true) :
    placesFrom k (p :: rest) = placesFrom (k + 1) rest := by
  rw [placesFrom, if_pos h]

theorem placesFrom_concrete (h : ¬ p.isGeneric = true) :
    placesFrom k (p :: rest) = k :: placesFrom (k + 1) rest := by
  rw [placesFrom, if_neg h]

theorem le_of_mem_placesFrom : ∀ {atoms : List Atom} {k place : Nat},
    place ∈ placesFrom k atoms → k ≤ place
  | [], k, place, h => by simp [placesFrom] at h
  | a :: rest, k, place, h => by
    by_cases hg : a.isGeneric = true
    · rw [placesFrom_generic hg] at h
      have := le_of_mem_placesFrom h
      omega
    · rw [placesFrom_concrete hg, List.mem_cons] at h
      rcases h with rfl | h
      · omega
      · have := le_of_mem_placesFrom h
        omega

end Places

/-- Only the first gap depends on where the gaps begin. -/
theorem exists_gaps (marks : List Nat) (stop : Nat) :
    ∃ later, ∀ first, gaps first marks stop = (first, marks.headD stop) :: later := by
  cases marks with
  | nil => exact ⟨[], fun _ => rfl⟩
  | cons mark marks => exact ⟨gaps (mark + 1) marks stop, fun _ => rfl⟩

section Step

variable {pattern candidate : List Atom} {k i : Nat} {positions : List Nat} {p : Atom}

theorem RunFits.of_empty {gap : Nat × Nat} (x : Nat) : RunFits pattern gap (x, x) :=
  .inl rfl

theorem RunFits.of_generic {gap run : Nat × Nat} (hk : pattern[k]? = some p)
    (hg : p.isGeneric = true) (hle : gap.1 ≤ k) (hlt : k < gap.2) : RunFits pattern gap run :=
  .inr ⟨k, p, hle, hlt, hk, hg⟩

theorem runFits_empty_gap {x : Nat} {run : Nat × Nat} :
    RunFits pattern (x, x) run ↔ run.2 = run.1 := by
  constructor
  · rintro (h | ⟨k, p, hle, hlt, -⟩)
    · exact h
    · simp only at hle hlt
      omega
  · exact .inl

/-- Once the pattern is used up, the candidate is to be used up too. -/
theorem alignsFrom_nil (hk : pattern.drop k = []) (hle : k ≤ pattern.length) :
    AlignsFrom pattern candidate k i positions ↔ positions = [] ∧ i = candidate.length := by
  have hlen : k = pattern.length := by
    have := List.drop_eq_nil_iff.1 hk
    omega
  constructor
  · rintro ⟨-, -, hcovers, hruns⟩
    rw [hk] at hcovers hruns
    obtain rfl := List.forall₂_nil_left_iff.1 hcovers
    rw [← hlen] at hruns
    simp only [placesFrom, gaps, List.forall₂_cons, List.forall₂_same, List.not_mem_nil,
      runFits_empty_gap] at hruns
    exact ⟨rfl, hruns.1.symm⟩
  · rintro ⟨rfl, rfl⟩
    refine ⟨by simp, .nil, ?_, ?_⟩
    · rw [hk]
      exact .nil
    · rw [hk]
      exact .cons (.of_empty _) .nil

/-- A concrete atom is laid right where the candidate's rest begins. -/
theorem alignsFrom_concrete {rest : List Atom} (hk : pattern.drop k = p :: rest)
    (hg : ¬ p.isGeneric = true) :
    AlignsFrom pattern candidate k i positions ↔
      ∃ later, positions = i :: later ∧ Covers pattern candidate k i ∧
        AlignsFrom pattern candidate (k + 1) (i + 1) later := by
  have hrest : pattern.drop (k + 1) = rest := by
    rw [← List.drop_drop, hk]
    rfl
  constructor
  · rintro ⟨habove, hinc, hcovers, hruns⟩
    rw [hk, placesFrom_concrete hg] at hcovers hruns
    obtain ⟨q, later, hq, hlater, rfl⟩ := List.forall₂_cons_left_iff.1 hcovers
    simp only [gaps, List.forall₂_cons, runFits_empty_gap] at hruns
    obtain ⟨rfl, hruns⟩ := hruns
    refine ⟨later, rfl, hq, fun r hr => ?_, hinc.of_cons, ?_, ?_⟩
    · have := List.rel_of_pairwise_cons hinc hr
      omega
    · rw [hrest]
      exact hlater
    · rw [hrest]
      exact hruns
  · rintro ⟨later, rfl, hq, habove, hinc, hcovers, hruns⟩
    rw [hrest] at hcovers hruns
    refine ⟨?_, List.pairwise_cons.2 ⟨fun r hr => ?_, hinc⟩, ?_, ?_⟩
    · intro r hr
      rcases List.mem_cons.1 hr with rfl | hr
      · omega
      · have := habove r hr
        omega
    · have := habove r hr
      omega
    · rw [hk, placesFrom_concrete hg]
      exact .cons hq hcovers
    · rw [hk, placesFrom_concrete hg]
      exact .cons (.of_empty _) hruns

theorem lt_length_of_covers {places : List Nat}
    (h : List.Forall₂ (Covers pattern candidate) places positions) :
    ∀ q ∈ positions, q < candidate.length := by
  intro q hq
  obtain ⟨place, -, hcovers⟩ := Fallible.exists_mem_of_forall₂ h.flip hq
  obtain ⟨_, a, -, ha, -⟩ := hcovers.agrees
  exact (List.getElem?_eq_some_iff.1 ha).1

/-- A generic takes a run of any length, and what comes after it is laid behind that run. -/
theorem alignsFrom_generic {rest : List Atom} (hk : pattern.drop k = p :: rest)
    (hg : p.isGeneric = true) (hi : i ≤ candidate.length) :
    AlignsFrom pattern candidate k i positions ↔
      ∃ j ≤ candidate.length - i, AlignsFrom pattern candidate (k + 1) (i + j) positions := by
  have hp : pattern[k]? = some p := by
    rw [← List.head?_drop, hk]
    rfl
  have hplaces : placesFrom k (pattern.drop k) = placesFrom (k + 1) (pattern.drop (k + 1)) := by
    rw [← List.drop_drop, hk, placesFrom_generic hg]
    rfl
  obtain ⟨laterGaps, hgaps⟩ :=
    exists_gaps (placesFrom (k + 1) (pattern.drop (k + 1))) pattern.length
  obtain ⟨laterRuns, hruns⟩ := exists_gaps positions candidate.length
  constructor
  · rintro ⟨habove, hinc, hcovers, hfit⟩
    rw [hplaces] at hcovers hfit
    rw [hgaps, hruns, List.forall₂_cons] at hfit
    -- The run ends where the next concrete atom is laid, or with the candidate.
    have hend : i ≤ positions.headD candidate.length ∧
        positions.headD candidate.length ≤ candidate.length ∧
        ∀ q ∈ positions, positions.headD candidate.length ≤ q := by
      rcases positions with _ | ⟨q, later⟩
      · simp [hi]
      · refine ⟨habove q List.mem_cons_self, ?_, fun r hr => ?_⟩
        · exact Nat.le_of_lt (lt_length_of_covers hcovers q List.mem_cons_self)
        · rcases List.mem_cons.1 hr with rfl | hr
          · exact Nat.le_refl _
          · exact Nat.le_of_lt (List.rel_of_pairwise_cons hinc hr)
    obtain ⟨hle, hlen, hleast⟩ := hend
    refine ⟨positions.headD candidate.length - i, by omega, ?_⟩
    rw [show i + (positions.headD candidate.length - i) = positions.headD candidate.length by omega]
    refine ⟨hleast, hinc, hcovers, ?_⟩
    rw [hgaps, hruns]
    exact .cons (.of_empty _) hfit.2
  · rintro ⟨j, hj, habove, hinc, hcovers, hfit⟩
    rw [hgaps, hruns, List.forall₂_cons] at hfit
    refine ⟨fun q hq => ?_, hinc, by rw [hplaces]; exact hcovers, ?_⟩
    · have := habove q hq
      omega
    · rw [hplaces, hgaps, hruns]
      refine .cons (.of_generic hp hg (Nat.le_refl k) ?_) hfit.2
      have hlt := (List.getElem?_eq_some_iff.1 hp).1
      rcases hm : placesFrom (k + 1) (pattern.drop (k + 1)) with _ | ⟨place, places⟩
      · exact hlt
      · exact le_of_mem_placesFrom (hm ▸ List.mem_cons_self)

end Step

/-- Every way to lay the rest of a pattern, from the place `k` on, on the rest of a candidate, from
the position `i` on: the positions of the concrete atoms and the bound pattern. -/
def layings (k i : Nat) : List Atom → List Atom → List (List Nat × List Atom)
  | [], [] => [([], [])]
  | [], _ :: _ => []
  | p :: ps, candidate =>
    if p.isGeneric then
      (List.range (candidate.length + 1)).flatMap fun j =>
        (layings (k + 1) (i + j) ps (candidate.drop j)).map fun laid =>
          (laid.1, .bound p.name p.adjoint (candidate.take j) :: laid.2)
    else
      match candidate with
      | [] => []
      | a :: rest =>
        if a.agrees p ∧ (i = 0 → k = 0) ∧ (rest = [] → ps = []) then
          (layings (k + 1) (i + 1) ps rest).map fun laid => (i :: laid.1, a :: laid.2)
        else []

/-- The matcher finds the first ways to lay the pattern. -/
theorem fits_eq_take : ∀ (pattern candidate : List Atom) (k i wanted : Nat),
    fits (k == 0) (i == 0) wanted pattern candidate =
      ((layings k i pattern candidate).map Prod.snd).take wanted
  | [], [], k, i, wanted => by simp [fits, layings]
  | [], _ :: _, k, i, wanted => by simp [fits, layings]
  | p :: ps, candidate, k, i, wanted => by
    rw [fits.eq_def, layings.eq_def]
    simp only
    split_ifs with hg
    · have hsearch : ∀ (n : Nat) (passed rest : List Atom),
          ((fits false (i == 0 && passed.isEmpty) n ps rest).map
            (.bound p.name p.adjoint passed.reverse :: ·)) =
          ((layings (k + 1) (i + passed.length) ps rest).map fun laid =>
            .bound p.name p.adjoint passed.reverse :: laid.2).take n := by
        intro n passed rest
        have huntouched : (i == 0 && passed.isEmpty) = (i + passed.length == 0) := by
          cases passed <;> simp
        have ih := fits_eq_take ps rest (k + 1) (i + passed.length) n
        rw [show (k + 1 == 0) = false from rfl] at ih
        rw [huntouched, ih, ← List.map_take, List.map_map, ← List.map_take]
        rfl
      rw [Search.sweep_eq_take hsearch, List.map_flatMap]
      congr 1
      refine List.flatMap_congr fun j hj => ?_
      have hlen : ((candidate.take j).reverse ++ []).length = j := by
        have := List.mem_range.1 hj
        simp
        omega
      rw [hlen, List.map_map, List.append_nil, List.reverse_reverse]
      rfl
    · rcases candidate with _ | ⟨a, rest⟩
      · simp
      · simp only
        have hlaid : (a.agrees p && (k == 0 || !(i == 0)) && (ps.isEmpty || !rest.isEmpty)) = true ↔
            a.agrees p = true ∧ (i = 0 → k = 0) ∧ (rest = [] → ps = []) := by
          rcases k with _ | k <;> rcases i with _ | i <;> cases ps <;> cases rest <;> simp
        simp only [hlaid]
        split_ifs
        · have ih := fits_eq_take ps rest (k + 1) (i + 1) wanted
          rw [show (k + 1 == 0) = false from rfl, show (i + 1 == 0) = false from rfl] at ih
          rw [ih, ← List.map_take, ← List.map_take, ← List.map_take, List.map_map, List.map_map]
          rfl
        · simp

section Enumeration

variable {pattern candidate : List Atom} {k i : Nat} {p : Atom} {ps cs : List Atom}

/-- The positions alone of every way to lay the rest of a pattern. -/
def positionLists (k i : Nat) (ps cs : List Atom) : List (List Nat) :=
  (layings k i ps cs).map Prod.fst

theorem positionLists_generic (hg : p.isGeneric = true) : positionLists k i (p :: ps) cs =
    (List.range (cs.length + 1)).flatMap fun j => positionLists (k + 1) (i + j) ps (cs.drop j) := by
  rw [positionLists, layings.eq_def]
  simp only [if_pos hg]
  rw [List.map_flatMap]
  refine List.flatMap_congr fun j _ => ?_
  rw [List.map_map]
  rfl

theorem positionLists_concrete_nil (hg : ¬ p.isGeneric = true) :
    positionLists k i (p :: ps) [] = [] := by
  rw [positionLists, layings.eq_def]
  simp only [if_neg hg, List.map_nil]

theorem positionLists_concrete_cons (hg : ¬ p.isGeneric = true) {a : Atom} {rest : List Atom} :
    positionLists k i (p :: ps) (a :: rest) =
      if a.agrees p ∧ (i = 0 → k = 0) ∧ (rest = [] → ps = []) then
        (positionLists (k + 1) (i + 1) ps rest).map (i :: ·)
      else [] := by
  rw [positionLists, layings.eq_def]
  simp only [if_neg hg]
  split_ifs
  · rw [positionLists, List.map_map, List.map_map]
    rfl
  · rfl

theorem getElem?_of_drop {l rest : List Atom} {n : Nat} {a : Atom} (h : l.drop n = a :: rest) :
    l[n]? = some a ∧ l.drop (n + 1) = rest ∧ n < l.length ∧ (n + 1 = l.length ↔ rest = []) := by
  have hget : l[n]? = some a := by
    rw [← List.head?_drop, h]
    rfl
  have hlt := (List.getElem?_eq_some_iff.1 hget).1
  have hlen := congrArg List.length h
  rw [List.length_drop, List.length_cons] at hlen
  refine ⟨hget, ?_, hlt, ?_⟩
  · rw [← List.drop_drop, h]
    rfl
  · rw [← List.length_eq_zero_iff]
    omega

theorem covers_iff {a : Atom} {rest : List Atom} (hp : pattern.drop k = p :: ps)
    (ha : candidate.drop i = a :: rest) : Covers pattern candidate k i ↔
      a.agrees p = true ∧ (i = 0 → k = 0) ∧ (rest = [] → ps = []) := by
  obtain ⟨hpk, -, -, hplast⟩ := getElem?_of_drop hp
  obtain ⟨hai, -, -, halast⟩ := getElem?_of_drop ha
  constructor
  · rintro ⟨⟨p', a', hp', ha', hagrees⟩, hfirst, hlast⟩
    obtain rfl := Option.some.inj (hpk.symm.trans hp')
    obtain rfl := Option.some.inj (hai.symm.trans ha')
    exact ⟨hagrees, hfirst, fun h => hplast.1 (hlast (halast.2 h))⟩
  · rintro ⟨hagrees, hfirst, hlast⟩
    exact ⟨⟨p, a, hpk, hai, hagrees⟩, hfirst, fun h => hplast.2 (hlast (halast.1 h))⟩

/-- The ways to lay the rest of a pattern are the alignments of that rest. -/
theorem mem_positionLists_iff {positions : List Nat} : ∀ (ps cs : List Atom) (k i : Nat),
    pattern.drop k = ps → candidate.drop i = cs → k ≤ pattern.length → i ≤ candidate.length →
      (positions ∈ positionLists k i ps cs ↔ AlignsFrom pattern candidate k i positions)
  | [], cs, k, i, hps, hcs, hk, hi => by
    rw [alignsFrom_nil hps hk]
    rcases cs with _ | ⟨a, rest⟩
    · have := List.drop_eq_nil_iff.1 hcs
      have hend : i = candidate.length := by omega
      simp [positionLists, layings, hend]
    · obtain ⟨-, -, hlt, -⟩ := getElem?_of_drop hcs
      simp only [positionLists, layings, List.map_nil, List.not_mem_nil, false_iff]
      omega
  | p :: ps, cs, k, i, hps, hcs, hk, hi => by
    obtain ⟨-, hps', hlt, -⟩ := getElem?_of_drop hps
    by_cases hg : p.isGeneric = true
    · have hlen : cs.length = candidate.length - i := by
        rw [← hcs, List.length_drop]
      rw [alignsFrom_generic hps hg hi, positionLists_generic hg, List.mem_flatMap]
      refine exists_congr fun j => ?_
      rw [List.mem_range, hlen, Nat.lt_succ_iff]
      refine and_congr_right fun hj => ?_
      refine mem_positionLists_iff ps (cs.drop j) (k + 1) (i + j) hps' ?_ (by omega) (by omega)
      rw [← hcs, List.drop_drop]
    · rw [alignsFrom_concrete hps hg]
      rcases cs with _ | ⟨a, rest⟩
      · rw [positionLists_concrete_nil hg]
        simp only [List.not_mem_nil, false_iff]
        rintro ⟨later, -, ⟨⟨_, a, -, ha, -⟩, -⟩, -⟩
        have := (List.getElem?_eq_some_iff.1 ha).1
        have := List.drop_eq_nil_iff.1 hcs
        omega
      · obtain ⟨-, hrest, hlti, -⟩ := getElem?_of_drop hcs
        have hiff := covers_iff hps hcs
        rw [positionLists_concrete_cons hg]
        split_ifs with hcovers
        · rw [List.mem_map]
          refine exists_congr fun later => ?_
          rw [mem_positionLists_iff ps rest (k + 1) (i + 1) hps' hrest (by omega) (by omega)]
          constructor
          · rintro ⟨haligns, rfl⟩
            exact ⟨rfl, hiff.2 hcovers, haligns⟩
          · rintro ⟨rfl, -, haligns⟩
            exact ⟨haligns, rfl⟩
        · simp only [List.not_mem_nil, false_iff]
          rintro ⟨later, -, hc, -⟩
          exact hcovers (hiff.1 hc)

/-- A concrete atom that comes first goes where the rest of the candidate begins. -/
theorem head?_of_mem_positionLists {positions : List Nat} (hg : ¬ p.isGeneric = true)
    (h : positions ∈ positionLists k i (p :: ps) cs) : positions.head? = some i := by
  rcases cs with _ | ⟨a, rest⟩
  · simp [positionLists_concrete_nil hg] at h
  · rw [positionLists_concrete_cons hg] at h
    split_ifs at h
    · obtain ⟨later, -, rfl⟩ := List.mem_map.1 h
      rfl
    · simp at h

/-- What follows a generic is the end of the pattern or a concrete atom, and either way the
positions tell where the run of the generic ends. -/
theorem eq_of_mem_positionLists {positions : List Nat} {j j' : Nat}
    (hapart : (p :: ps).IsChain Apart) (hg : p.isGeneric = true) (hj : j ≤ cs.length)
    (hj' : j' ≤ cs.length) (h : positions ∈ positionLists (k + 1) (i + j) ps (cs.drop j))
    (h' : positions ∈ positionLists (k + 1) (i + j') ps (cs.drop j')) : j = j' := by
  rcases ps with _ | ⟨q, ps⟩
  · have hend : ∀ {m n : Nat}, positions ∈ positionLists (k + 1) n [] (cs.drop m) →
        cs.length ≤ m := by
      intro m n hmem
      rcases hdrop : cs.drop m with _ | ⟨a, rest⟩
      · exact List.drop_eq_nil_iff.1 hdrop
      · simp [hdrop, positionLists, layings] at hmem
    have := hend h
    have := hend h'
    omega
  · have hq : ¬ q.isGeneric = true := fun hq =>
      (List.isChain_cons_cons.1 hapart).1 ⟨hg, hq⟩
    have hfirst := head?_of_mem_positionLists hq h
    rw [head?_of_mem_positionLists hq h', Option.some.injEq] at hfirst
    omega

/-- No alignment is met twice. -/
theorem nodup_positionLists : ∀ (ps cs : List Atom) (k i : Nat), ps.IsChain Apart →
    (positionLists k i ps cs).Nodup
  | [], [], k, i, _ => by simp [positionLists, layings]
  | [], _ :: _, k, i, _ => by simp [positionLists, layings]
  | p :: ps, cs, k, i, hapart => by
    have hlater : ps.IsChain Apart := hapart.of_cons
    by_cases hg : p.isGeneric = true
    · rw [positionLists_generic hg, List.nodup_flatMap]
      refine ⟨fun j _ => nodup_positionLists ps (cs.drop j) (k + 1) (i + j) hlater, ?_⟩
      refine List.nodup_range.imp_of_mem fun {j j'} hj hj' hne positions h h' => hne ?_
      rw [List.mem_range] at hj hj'
      exact eq_of_mem_positionLists hapart hg (by omega) (by omega) h h'
    · rcases cs with _ | ⟨a, rest⟩
      · rw [positionLists_concrete_nil hg]
        exact List.nodup_nil
      · rw [positionLists_concrete_cons hg]
        split_ifs
        · exact (nodup_positionLists ps rest (k + 1) (i + 1) hlater).map
            (List.cons_injective (a := i))
        · exact List.nodup_nil

theorem mem_positionLists_iff_isAlignment {positions : List Nat} :
    positions ∈ positionLists 0 0 pattern candidate ↔ IsAlignment pattern candidate positions := by
  rw [mem_positionLists_iff pattern candidate 0 0 List.drop_zero List.drop_zero (Nat.zero_le _)
    (Nat.zero_le _)]
  constructor
  · rintro ⟨-, hinc, hcovers, hruns⟩
    exact ⟨hinc, hcovers, hruns⟩
  · rintro ⟨hinc, hcovers, hruns⟩
    exact ⟨fun _ _ => Nat.zero_le _, hinc, hcovers, hruns⟩

end Enumeration

section Count

variable (rule : Metarule) (candidate : WordType)

theorem fits_length : (fits true true 2 rule.pattern.atoms candidate.atoms).length =
    min 2 (positionLists 0 0 rule.pattern.atoms candidate.atoms).length := by
  have h := fits_eq_take rule.pattern.atoms candidate.atoms 0 0 2
  rw [show ((0 : Nat) == 0) = true from rfl] at h
  rw [h, List.length_take, positionLists, List.length_map, List.length_map]

/-- A match fails, succeeds or is ambiguous as the pattern has no alignment with the candidate, one
or several. -/
theorem match?_counts_alignments :
    (rule.match? candidate = .ok none ↔
      ∀ positions, ¬ IsAlignment rule.pattern.atoms candidate.atoms positions) ∧
    ((∃ m, rule.match? candidate = .ok (some m)) ↔
      ∃! positions, IsAlignment rule.pattern.atoms candidate.atoms positions) ∧
    (rule.match? candidate = .error ⟨rule.tag, rule.pattern, candidate⟩ ↔
      ∃ p q, p ≠ q ∧ IsAlignment rule.pattern.atoms candidate.atoms p ∧
        IsAlignment rule.pattern.atoms candidate.atoms q) := by
  have hlen := fits_length rule candidate
  have hnodup := nodup_positionLists rule.pattern.atoms candidate.atoms 0 0 rule.form.apart
  simp only [← mem_positionLists_iff_isAlignment]
  unfold match?
  generalize positionLists 0 0 rule.pattern.atoms candidate.atoms = found at hlen hnodup ⊢
  rcases found with _ | ⟨p, _ | ⟨q, rest⟩⟩
  · rw [List.length_eq_zero_iff.1 hlen]
    simp
  · obtain ⟨atoms, hatoms⟩ := List.length_eq_one_iff.1 hlen
    rw [hatoms]
    simp
  · have htwo : (fits true true 2 rule.pattern.atoms candidate.atoms).length = 2 := by
      rw [hlen]
      simp only [List.length_cons]
      omega
    obtain ⟨atoms, atoms', hatoms⟩ := List.length_eq_two.1 htwo
    have hne : p ≠ q := by
      rintro rfl
      simp at hnodup
    rw [hatoms]
    refine ⟨iff_of_false (by simp) ?_, iff_of_false (by simp) ?_, iff_of_true rfl ?_⟩
    · intro hnone
      exact hnone p List.mem_cons_self
    · rintro ⟨r, -, hunique⟩
      exact hne ((hunique p (by simp)).trans (hunique q (by simp)).symm)
    · exact ⟨p, q, hne, by simp, by simp⟩

end Count

end Metarule

end PregroupGrammar
