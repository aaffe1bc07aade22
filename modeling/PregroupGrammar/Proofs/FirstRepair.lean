import PregroupGrammar.Proofs.KnownNames

/-!
# The first repair

A repair replaces two atoms that count as being of one type, and it works if the path is grammatical
after it (`MendedBy`). The search for one goes through the offending types in the order of the
inventory, and for each of them through the pairs of positions in lexicographic order. On a path
whose names are all known it never fails, it finds nothing just if no repair works
(`acceptRepaired_eq_none`), and otherwise it finds the first repair that does
(`acceptRepaired_eq_some`).
-/

namespace PregroupGrammar

open Fallible

/-- Whether the one name reduces to the other, as far as the table knows them. -/
def ReductionTable.reducesTo (table : ReductionTable) (source target : String) : Bool :=
  match table.namesReduce source target with
  | .ok r => r
  | .error _ => false

section Pairs

theorem mem_orderedPairs {l : List Nat} (h : l.Pairwise (· < ·)) {p q : Nat} :
    (p, q) ∈ orderedPairs l ↔ p ∈ l ∧ q ∈ l ∧ p < q := by
  induction l with
  | nil => simp [orderedPairs]
  | cons a l ih =>
    obtain ⟨ha, hl⟩ := List.pairwise_cons.1 h
    simp only [orderedPairs, List.mem_append, List.mem_map, Prod.mk.injEq, ih hl, List.mem_cons]
    constructor
    · rintro (⟨b, hb, rfl, rfl⟩ | ⟨hp, hq, hlt⟩)
      · exact ⟨.inl rfl, .inr hb, ha b hb⟩
      · exact ⟨.inr hp, .inr hq, hlt⟩
    · rintro ⟨rfl | hp, rfl | hq, hlt⟩
      · omega
      · exact .inl ⟨q, hq, rfl, rfl⟩
      · have := ha p hp
        omega
      · exact .inr ⟨hp, hq, hlt⟩

theorem orderedPairs_pairwise {l : List Nat} (h : l.Pairwise (· < ·)) :
    (orderedPairs l).Pairwise fun a b => a.1 < b.1 ∨ a.1 = b.1 ∧ a.2 < b.2 := by
  induction l with
  | nil => exact List.Pairwise.nil
  | cons a l ih =>
    obtain ⟨ha, hl⟩ := List.pairwise_cons.1 h
    refine List.pairwise_append.2 ⟨?_, ih hl, ?_⟩
    · exact List.pairwise_map.2 (hl.imp fun hlt => .inr ⟨rfl, hlt⟩)
    · rintro x hx ⟨p, q⟩ hpq
      obtain ⟨b, -, rfl⟩ := List.mem_map.1 hx
      exact .inl (ha p ((mem_orderedPairs hl).1 hpq).1)

theorem pairwise_filterMap_zipIdx {α : Type} {l : List α} {pick : α × Nat → Option Nat}
    (hpick : ∀ x ∈ l.zipIdx, ∀ p, pick x = some p → p = x.2) :
    (l.zipIdx.filterMap pick).Pairwise (· < ·) := by
  have hsorted : (l.zipIdx.map Prod.snd).Pairwise (· < ·) := by
    rw [List.zipIdx_map_snd]
    exact List.pairwise_lt_range'
  rw [List.pairwise_filterMap]
  refine (List.pairwise_map.1 hsorted).imp_of_mem fun {x y} hx hy hlt p hp q hq => ?_
  rw [hpick x hx p hp, hpick y hy q hq]
  exact hlt

end Pairs

/-- What an acceptance takes over from a derivation. -/
theorem Derivation.accept?_eq_some {d : Derivation} {i : Nat} {path : Path} {r : Option Repair}
    {acc : Acceptance} (h : d.accept? i path r = some acc) :
    d.grammatical = true ∧ acc.pathIndex = i ∧ acc.path = path ∧ acc.repair = r ∧
      acc.links = d.links ∧ d.residual = some acc.residual ∧
      acc.nestingDepth = nestingDepth d.links d.atomCount := by
  unfold accept? at h
  split_ifs at h with hg
  obtain ⟨residual, hres, rfl⟩ := Option.map_eq_some_iff.1 h
  exact ⟨hg, rfl, rfl, rfl, rfl, hres, rfl⟩

namespace Grammar

/-- The path has a derivation that is grammatical. -/
def Accepts (g : Grammar) (path : Path) : Prop :=
  ∃ d, g.derive path = .ok d ∧ d.grammatical = true

/-- The acceptance is what the derivation of its own path gives. -/
def Derives (g : Grammar) (acc : Acceptance) : Prop :=
  ∃ d, g.derive acc.path = .ok d ∧ d.accept? acc.pathIndex acc.path acc.repair = some acc

/-- The type is declared, and at least `threshold` atoms of the path reduce to it. -/
def Offending (g : Grammar) (threshold : Nat) (path : Path) (name : String) : Prop :=
  name ∈ g.table.inventory ∧ threshold ≤ path.atoms.countP fun a => g.table.reducesTo a.name name

/-- The atom at the position reduces to the type. -/
def OccursAt (g : Grammar) (path : Path) (name : String) (position : Nat) : Prop :=
  ∃ a, path.atoms[position]? = some a ∧ g.table.reducesTo a.name name = true

/-- Dummy atoms at two positions of the type make the path grammatical. -/
def MendedBy (g : Grammar) (path : Path) (name : String) (p q : Nat) : Prop :=
  p < q ∧ g.OccursAt path name p ∧ g.OccursAt path name q ∧ g.Accepts (g.substitute path p q)

/-- Some offending type has two positions at which dummy atoms make the path grammatical. -/
def Mendable (g : Grammar) (threshold : Nat) (path : Path) : Prop :=
  ∃ name p q, g.Offending threshold path name ∧ g.MendedBy path name p q

/-- The two positions are the first ones of the type at which dummy atoms make the path
grammatical. -/
def FirstMend (g : Grammar) (path : Path) (name : String) (p q : Nat) : Prop :=
  g.MendedBy path name p q ∧ ∀ p' q', g.MendedBy path name p' q' → p < p' ∨ p = p' ∧ q ≤ q'

/-- The repair is of the first offending type for which one works, and the first for that type. -/
def FirstRepair (g : Grammar) (threshold : Nat) (path : Path) (r : Repair) : Prop :=
  g.Offending threshold path r.atomType ∧ g.FirstMend path r.atomType r.first r.second ∧
    ∃ before after, g.table.inventory = before ++ r.atomType :: after ∧
      ∀ name ∈ before, g.Offending threshold path name → ∀ p q, ¬ g.MendedBy path name p q

variable {g : Grammar} {path : Path} {name : String} {threshold i : Nat}

theorem accepts_iff {d : Derivation} (hd : g.derive path = .ok d) :
    g.Accepts path ↔ d.grammatical = true := by
  constructor
  · rintro ⟨d', hd', ht⟩
    obtain rfl := Except.ok.inj (hd.symm.trans hd')
    exact ht
  · exact fun ht => ⟨d, hd, ht⟩

theorem namesReduce_eq_reducesTo {source : String} (hs : g.table.contains source = true)
    (hn : g.table.contains name = true) :
    g.table.namesReduce source name = .ok (g.table.reducesTo source name) := by
  obtain ⟨r, hr⟩ := ReductionTable.namesReduce_total hs hn
  rw [ReductionTable.reducesTo, hr]

theorem countReducing_fold (hn : g.table.contains name = true) :
    ∀ (atoms : List Atom) (count : Nat), g.Knows atoms →
      atoms.foldlM (fun count a => (g.table.namesReduce a.name name).map
        fun r => if r then count + 1 else count) count =
      .ok (count + atoms.countP fun a => g.table.reducesTo a.name name)
  | [], count, _ => rfl
  | a :: atoms, count, h => by
    obtain ⟨ha, hrest⟩ := List.forall_mem_cons.1 h
    rw [List.foldlM_cons, namesReduce_eq_reducesTo ha hn, List.countP_cons]
    refine (countReducing_fold hn atoms _ hrest).trans (congrArg Except.ok ?_)
    cases g.table.reducesTo a.name name
    · rfl
    · exact Nat.add_right_comm _ _ _

theorem offendingTypes_eq (hc : g.table.Compiled) (hpath : g.Knows path.atoms) :
    g.offendingTypes threshold path = .ok (g.table.inventory.filter fun name =>
      decide (threshold ≤ path.atoms.countP fun a => g.table.reducesTo a.name name)) := by
  refine filterM_eq fun name hn => ?_
  have hcount := countReducing_fold (hc.contains_of_mem hn) path.atoms 0 hpath
  rw [Nat.zero_add] at hcount
  exact map_eq_ok.2 ⟨_, hcount, rfl⟩

/-- An atom counts as being of a type if it reduces to it: a type reduces to itself. -/
theorem countsAs_eq (hc : g.table.Compiled) {a : Atom} (ha : g.table.contains a.name = true)
    (hn : g.table.contains name = true) :
    g.countsAs a name = .ok (g.table.reducesTo a.name name) := by
  unfold countsAs
  split_ifs with he
  · rw [← namesReduce_eq_reducesTo ha hn, ← he, hc.namesReduce_self ha]
  · exact namesReduce_eq_reducesTo ha hn

/-- The positions of a type are found in increasing order. -/
theorem occurrences_eq (hc : g.table.Compiled) (hpath : g.Knows path.atoms)
    (hn : g.table.contains name = true) :
    ∃ positions, g.occurrences path name = .ok positions ∧ positions.Pairwise (· < ·) ∧
      ∀ p, p ∈ positions ↔ g.OccursAt path name p := by
  have hpick : ∀ x ∈ path.atoms.zipIdx,
      ((g.countsAs x.1 name).map fun counts => if counts then some x.2 else none) =
        .ok (if g.table.reducesTo x.1.name name then some x.2 else none) := by
    intro x hx
    rw [countsAs_eq hc (hpath x.1 (List.fst_mem_of_mem_zipIdx hx)) hn]
    rfl
  refine ⟨_, filterMapM_eq hpick, ?_, fun p => ?_⟩
  · refine pairwise_filterMap_zipIdx fun x _ p hp => ?_
    simp only [Option.ite_none_right_eq_some, Option.some.injEq] at hp
    exact hp.2.symm
  · rw [List.mem_filterMap]
    constructor
    · rintro ⟨⟨a, p'⟩, hm, hp⟩
      simp only [Option.ite_none_right_eq_some, Option.some.injEq] at hp
      obtain ⟨hr, rfl⟩ := hp
      exact ⟨a, List.mk_mem_zipIdx_iff_getElem?.1 hm, hr⟩
    · rintro ⟨a, ha, hr⟩
      exact ⟨(a, p), List.mk_mem_zipIdx_iff_getElem?.2 ha, by simp [hr]⟩

/-- The acceptance of a path by the first repair of one type that works. -/
def acceptMended (g : Grammar) (i : Nat) (path : Path) (name : String) :
    Except Error (Option Acceptance) := do
  let repaired ← g.repair path name
  return repaired.bind fun r => r.derivation.accept? i r.path (some r.repair)

theorem accept?_of_grammatical {d : Derivation} (h : g.derive path = .ok d)
    (ht : d.grammatical = true) (i : Nat) (path' : Path) (r : Option Repair) :
    ∃ acc, d.accept? i path' r = some acc := by
  obtain ⟨m, -, -, -, -, hres, -⟩ := derive_cases h
  obtain ⟨position, a, hp, ha, -⟩ := (derive_grammatical_iff h).1 ht
  rw [residual?_eq_some.2 ⟨position, hp, ha⟩] at hres
  exact ⟨_, by rw [Derivation.accept?, if_pos ht, hres]; rfl⟩

theorem derives_of_accept? {d : Derivation} {i : Nat} {r : Option Repair} {acc : Acceptance}
    (hd : g.derive path = .ok d) (h : d.accept? i path r = some acc) : g.Derives acc := by
  obtain ⟨-, rfl, rfl, rfl, -⟩ := Derivation.accept?_eq_some h
  exact ⟨d, hd, h⟩

theorem repairAt_eq_some {p q : Nat} {r : RepairedPath}
    (h : g.repairAt path name p q = .ok (some r)) :
    r.path = g.substitute path p q ∧ g.derive r.path = .ok r.derivation ∧
      r.derivation.grammatical = true ∧ r.repair = ⟨name, p, q⟩ := by
  obtain ⟨d, hd, h⟩ := bind_eq_ok.1 h
  simp only [pure, Except.pure, Except.ok.injEq, Option.ite_none_right_eq_some,
    Option.some.injEq] at h
  obtain ⟨ht, rfl⟩ := h
  exact ⟨rfl, hd, ht, rfl⟩

section Search

variable (hg : g.Grounded) (hpath : g.Knows path.atoms)
include hg hpath

theorem repairAt_eq (p q : Nat) :
    ∃ d, g.derive (g.substitute path p q) = .ok d ∧
      g.repairAt path name p q = .ok (if d.grammatical then
        some ⟨g.substitute path p q, d, ⟨name, p, q⟩⟩ else none) := by
  obtain ⟨d, hd⟩ := hg.derive_total (knows_substitute hg.compiled hpath p q)
  exact ⟨d, hd, bind_eq_ok.2 ⟨d, hd, rfl⟩⟩

theorem repairAt_eq_none {p q : Nat} :
    g.repairAt path name p q = .ok none ↔ ¬ g.Accepts (g.substitute path p q) := by
  obtain ⟨d, hd, hr⟩ := repairAt_eq hg hpath p q
  rw [hr, accepts_iff hd]
  split_ifs with ht <;> simp [ht]

theorem repair_total (hn : g.table.contains name = true) : ∃ r, g.repair path name = .ok r := by
  obtain ⟨positions, hp, -, -⟩ := occurrences_eq hg.compiled hpath hn
  have hall : ∀ x ∈ orderedPairs positions, ∃ r, g.repairAt path name x.1 x.2 = .ok r := by
    intro x _
    obtain ⟨d, -, hr⟩ := repairAt_eq hg hpath x.1 x.2
    exact ⟨_, hr⟩
  obtain ⟨r, hr⟩ := findSomeM?_total hall
  exact ⟨r, bind_eq_ok.2 ⟨positions, hp, hr⟩⟩

theorem repair_eq_none (hn : g.table.contains name = true) :
    g.repair path name = .ok none ↔ ∀ p q, ¬ g.MendedBy path name p q := by
  obtain ⟨positions, hp, hsorted, hmem⟩ := occurrences_eq hg.compiled hpath hn
  have hsearch : g.repair path name = (orderedPairs positions).findSomeM? fun pair =>
      g.repairAt path name pair.1 pair.2 := by
    rw [repair, hp]
    rfl
  rw [hsearch, findSomeM?_eq_ok_none]
  constructor
  · rintro hnone p q ⟨hlt, hop, hoq, hacc⟩
    have hpair := (mem_orderedPairs hsorted).2 ⟨(hmem p).2 hop, (hmem q).2 hoq, hlt⟩
    exact (repairAt_eq_none hg hpath).1 (hnone (p, q) hpair) hacc
  · rintro hnot ⟨p, q⟩ hpair
    obtain ⟨hop, hoq, hlt⟩ := (mem_orderedPairs hsorted).1 hpair
    exact (repairAt_eq_none hg hpath).2 fun hacc =>
      hnot p q ⟨hlt, (hmem p).1 hop, (hmem q).1 hoq, hacc⟩

/-- The repair of a type that is found is the first one that works. -/
theorem repair_eq_some (hn : g.table.contains name = true) {r : RepairedPath}
    (h : g.repair path name = .ok (some r)) :
    r.repair.atomType = name ∧ g.FirstMend path name r.repair.first r.repair.second ∧
      r.path = g.substitute path r.repair.first r.repair.second ∧
      g.derive r.path = .ok r.derivation ∧ r.derivation.grammatical = true := by
  unfold repair at h
  obtain ⟨positions', hp', h⟩ := bind_eq_ok.1 h
  obtain ⟨positions, hp, hsorted, hmem⟩ := occurrences_eq hg.compiled hpath hn
  obtain rfl := Except.ok.inj (hp.symm.trans hp')
  obtain ⟨front, ⟨p, q⟩, back, hsplit, hnone, hsome⟩ := findSomeM?_eq_ok_some.1 h
  obtain ⟨hrpath, hd, ht, hrep⟩ := repairAt_eq_some hsome
  have hpq : (p, q) ∈ orderedPairs positions := by
    rw [hsplit]
    simp
  obtain ⟨hop, hoq, hlt⟩ := (mem_orderedPairs hsorted).1 hpq
  have hmend : g.MendedBy path name p q :=
    ⟨hlt, (hmem p).1 hop, (hmem q).1 hoq, r.derivation, hrpath ▸ hd, ht⟩
  rw [hrep]
  refine ⟨rfl, ⟨hmend, fun p' q' hmend' => ?_⟩, hrpath, hd, ht⟩
  simp only
  obtain ⟨hlt', hop', hoq', hacc'⟩ := hmend'
  have hpair : (p', q') ∈ front ++ (p, q) :: back :=
    hsplit ▸ (mem_orderedPairs hsorted).2 ⟨(hmem p').2 hop', (hmem q').2 hoq', hlt'⟩
  rcases List.mem_append.1 hpair with hf | hb
  · exact absurd hacc' ((repairAt_eq_none hg hpath).1 (hnone (p', q') hf))
  · rcases List.mem_cons.1 hb with he | hb
    · simp only [Prod.mk.injEq] at he
      omega
    · have horder := orderedPairs_pairwise hsorted
      rw [hsplit] at horder
      have := List.rel_of_pairwise_cons (List.pairwise_append.1 horder).2.1 hb
      simp only at this
      omega

theorem acceptMended_total (hn : g.table.contains name = true) :
    ∃ r, g.acceptMended i path name = .ok r := by
  obtain ⟨r, hr⟩ := repair_total hg hpath hn
  exact ⟨_, bind_eq_ok.2 ⟨r, hr, rfl⟩⟩

theorem acceptMended_eq_none (hn : g.table.contains name = true) :
    g.acceptMended i path name = .ok none ↔ ∀ p q, ¬ g.MendedBy path name p q := by
  obtain ⟨r, hr⟩ := repair_total hg hpath hn
  have haccept : g.acceptMended i path name =
      .ok (r.bind fun r => r.derivation.accept? i r.path (some r.repair)) :=
    bind_eq_ok.2 ⟨r, hr, rfl⟩
  rw [haccept, ← repair_eq_none hg hpath hn, hr]
  rcases r with _ | r
  · simp
  · obtain ⟨-, -, -, hd, ht⟩ := repair_eq_some hg hpath hn hr
    obtain ⟨acc, hacc⟩ := accept?_of_grammatical hd ht i r.path (some r.repair)
    simp [hacc]

theorem acceptMended_eq_some (hn : g.table.contains name = true) {acc : Acceptance}
    (h : g.acceptMended i path name = .ok (some acc)) :
    acc.pathIndex = i ∧ g.Derives acc ∧ ∃ p q, acc.repair = some ⟨name, p, q⟩ ∧
      acc.path = g.substitute path p q ∧ g.FirstMend path name p q := by
  obtain ⟨r, hr, h⟩ := bind_eq_ok.1 h
  simp only [pure, Except.pure, Except.ok.injEq, Option.bind_eq_some_iff] at h
  obtain ⟨r, rfl, h⟩ := h
  obtain ⟨htype, hfirst, hrpath, hd, -⟩ := repair_eq_some hg hpath hn hr
  obtain ⟨-, hi, hp, hrep, -⟩ := Derivation.accept?_eq_some h
  refine ⟨hi, derives_of_accept? hd h, r.repair.first, r.repair.second, ?_, hp.trans hrpath,
    hfirst⟩
  rw [hrep, ← htype]

theorem acceptRepaired_eq :
    g.acceptRepaired threshold i path = (g.table.inventory.filter fun name =>
      decide (threshold ≤ path.atoms.countP fun a => g.table.reducesTo a.name name)).findSomeM?
        (g.acceptMended i path) := by
  rw [acceptRepaired, offendingTypes_eq hg.compiled hpath]
  rfl

theorem acceptRepaired_total : ∃ r, g.acceptRepaired threshold i path = .ok r := by
  rw [acceptRepaired_eq hg hpath]
  refine findSomeM?_total fun name hn => ?_
  exact acceptMended_total hg hpath (hg.compiled.contains_of_mem (List.mem_of_mem_filter hn))

theorem acceptRepaired_eq_none :
    g.acceptRepaired threshold i path = .ok none ↔ ¬ g.Mendable threshold path := by
  rw [acceptRepaired_eq hg hpath, findSomeM?_eq_ok_none]
  constructor
  · rintro hnone ⟨name, p, q, ⟨hn, hcount⟩, hmend⟩
    have hmem := hnone name (List.mem_filter.2 ⟨hn, decide_eq_true hcount⟩)
    exact (acceptMended_eq_none hg hpath (hg.compiled.contains_of_mem hn)).1 hmem p q hmend
  · intro hnot name hn
    obtain ⟨hn, hcount⟩ := List.mem_filter.1 hn
    refine (acceptMended_eq_none hg hpath (hg.compiled.contains_of_mem hn)).2 fun p q hmend => ?_
    exact hnot ⟨name, p, q, ⟨hn, of_decide_eq_true hcount⟩, hmend⟩

/-- The repair that is found is the first one that works. -/
theorem acceptRepaired_eq_some {acc : Acceptance}
    (h : g.acceptRepaired threshold i path = .ok (some acc)) :
    acc.pathIndex = i ∧ g.Derives acc ∧ ∃ r, acc.repair = some r ∧
      acc.path = g.substitute path r.first r.second ∧ g.FirstRepair threshold path r := by
  rw [acceptRepaired_eq hg hpath] at h
  obtain ⟨front, name, back, hsplit, hnone, hsome⟩ := findSomeM?_eq_ok_some.1 h
  obtain ⟨l₁, l₂, hl, hl₁, hl₂⟩ := List.filter_eq_append_iff.1 hsplit
  obtain ⟨skipped, after, rfl, hskip, hkeep, -⟩ := List.filter_eq_cons_iff.1 hl₂
  have hn : name ∈ g.table.inventory := by
    rw [hl]
    simp
  obtain ⟨hi, hderives, p, q, hrep, hp, hfirst⟩ :=
    acceptMended_eq_some hg hpath (hg.compiled.contains_of_mem hn) hsome
  refine ⟨hi, hderives, ⟨name, p, q⟩, hrep, hp, ⟨hn, of_decide_eq_true hkeep⟩, hfirst,
    l₁ ++ skipped, after, by rw [hl, List.append_assoc], ?_⟩
  rintro other ho ⟨hother, hcount⟩
  rcases List.mem_append.1 ho with ho | ho
  · have hf : other ∈ front := hl₁ ▸ List.mem_filter.2 ⟨ho, decide_eq_true hcount⟩
    exact (acceptMended_eq_none hg hpath (hg.compiled.contains_of_mem hother)).1 (hnone other hf)
  · exact absurd (decide_eq_true hcount) (hskip other ho)

end Search

end Grammar

end PregroupGrammar
