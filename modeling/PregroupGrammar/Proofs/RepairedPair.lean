import PregroupGrammar.Proofs.Certificate
import PregroupGrammar.Proofs.NestedLinks

/-!
# What a repair lets cancel

A dummy atom cancels with a dummy atom only. So in a path that has none of its own, the two that a
repair puts in cancel with each other or not at all, and as a grammatical path leaves a single
position over, they do cancel (`mem_links_of_unlinked`). All other links join atoms that the repair
has left alone (`verdict_of_ne`), and what lies between the two positions is linked there
(`Bracketed.partner_inside`).
-/

namespace PregroupGrammar

open Cancellation Fallible

/-- A position that a link encloses is linked to another one that it encloses. -/
theorem Bracketed.partner_inside {links : List Link} {unlinked : List Nat} {count : Nat}
    (h : Bracketed links unlinked count) {link : Link} (hl : link ∈ links) {p : Nat}
    (hp : link.Encloses p) :
    ∃ q, link.Encloses q ∧ q ≠ p ∧ (⟨p, q⟩ ∈ links ∨ ⟨q, p⟩ ∈ links) := by
  have hfree : p ∉ unlinked := fun hu => h.outside link hl p hu hp
  obtain ⟨other, ho, ht⟩ := h.exists_touches (hp.2.trans (h.rising link hl).2) hfree
  have hends := Link.touches_eq_true.1 ht
  have hrising := (h.rising other ho).1
  obtain ⟨hleft, hright⟩ := hp
  have hapart := h.ends_ne hl ho (by rintro rfl; omega)
  have hcross := h.uncrossed link hl other ho
  have hcross' := h.uncrossed other ho link hl
  simp only [Link.Crosses, Link.Encloses] at hcross hcross' ⊢
  rcases hends with rfl | rfl
  · exact ⟨other.right, by omega, by omega, .inl ho⟩
  · exact ⟨other.left, by omega, by omega, .inr ho⟩

namespace Grammar

variable {g : Grammar} {path : Path} {name : String} {i j : Nat}

/-- Of a path without dummy atoms, the two positions of a substitution are those that have one
afterwards. -/
theorem isDummy_substitute (hclean : ∀ a ∈ path.atoms, g.table.isDummy a = false) {p : Nat}
    {b : Atom} (hb : (g.substitute path i j).atoms[p]? = some b) :
    g.table.isDummy b = true ↔ p = i ∨ p = j := by
  rw [substitute_getElem?, Option.map_eq_some_iff] at hb
  obtain ⟨a, ha, rfl⟩ := hb
  split_ifs with hat
  · simp [hat, ReductionTable.isDummy, dummyAtom, Atom.plain, Atom.name]
  · simp [hat, hclean a (List.mem_of_getElem? ha)]

theorem substitute_getElem?_of_not {p : Nat} (hp : ¬ (p = i ∨ p = j)) :
    (g.substitute path i j).atoms[p]? = path.atoms[p]? := by
  simp [substitute_getElem?, hp]

section Links

variable {links : List Link} {unlinked : List Nat}
  (hclean : ∀ a ∈ path.atoms, g.table.isDummy a = false)
  (hrun : Run g (g.substitute path i j).atoms
    (List.range (g.substitute path i j).atoms.length) links unlinked)
include hclean hrun

theorem left_iff_right {link : Link} (hl : link ∈ links) :
    (link.left = i ∨ link.left = j) ↔ (link.right = i ∨ link.right = j) := by
  obtain ⟨a, b, ha, hb, hab⟩ := hrun.verdict link hl
  rw [← isDummy_substitute hclean ha, ← isDummy_substitute hclean hb, (reduces_eq_true hab).1]

theorem eq_of_touches_dummy (hij : i < j) {link : Link} (hl : link ∈ links) {p : Nat}
    (hp : p = i ∨ p = j) (ht : link.touches p = true) : link = ⟨i, j⟩ := by
  have hends := left_iff_right hclean hrun hl
  have hlt := (hrun.bracketed.rising link hl).1
  rw [Link.touches_eq_true] at ht
  obtain ⟨l, r⟩ := link
  simp only [Link.mk.injEq] at *
  omega

/-- Any link but that of the two positions joins atoms of the path itself. -/
theorem verdict_of_ne (hij : i < j) {link : Link} (hl : link ∈ links) (hne : link ≠ ⟨i, j⟩) :
    Verdict g path.atoms true link.left link.right := by
  have hkept : ∀ p, link.touches p = true →
      (g.substitute path i j).atoms[p]? = path.atoms[p]? :=
    fun p ht => substitute_getElem?_of_not fun hp =>
      hne (eq_of_touches_dummy hclean hrun hij hl hp ht)
  obtain ⟨a, b, ha, hb, hab⟩ := hrun.verdict link hl
  rw [hkept link.left (by simp [Link.touches])] at ha
  rw [hkept link.right (by simp [Link.touches])] at hb
  exact ⟨a, b, ha, hb, hab⟩

/-- Where no more than one position is left over, the two dummy atoms have cancelled. -/
theorem mem_links_of_unlinked (hij : i < j) (hj : j < path.atoms.length) {u : Nat}
    (hu : unlinked = [u]) : ⟨i, j⟩ ∈ links := by
  have hlength : (g.substitute path i j).atoms.length = path.atoms.length := by
    simpa using congrArg List.length (g.substitute_adjoints i j path)
  have hlinked : ∃ p, (p = i ∨ p = j) ∧ p ∉ unlinked := by
    by_contra hnone
    push Not at hnone
    have hi := hnone i (.inl rfl)
    have hj := hnone j (.inr rfl)
    simp only [hu, List.mem_singleton] at hi hj
    omega
  obtain ⟨p, hp, hpu⟩ := hlinked
  obtain ⟨link, hl, ht⟩ := hrun.bracketed.exists_touches (by omega) hpu
  rwa [← eq_of_touches_dummy hclean hrun hij hl hp ht]

omit hclean in
theorem adjoint_of_linked (hl : ⟨i, j⟩ ∈ links) {a b : Atom} (ha : path.atoms[i]? = some a)
    (hb : path.atoms[j]? = some b) : b.adjoint.toInt = a.adjoint.toInt + 1 := by
  obtain ⟨a', b', ha', hb', hab⟩ := hrun.verdict _ hl
  simp only [substitute_getElem?, ha, hb, Option.map_some, true_or, or_true, if_true,
    Option.some.injEq] at ha' hb'
  have hfollowed := (reduces_eq_true hab).2
  rw [← ha', ← hb', Atom.isFollowedBy, beq_iff_eq] at hfollowed
  exact hfollowed.symm

omit hclean in
theorem mem_atoms_of_unlinked (hl : ⟨i, j⟩ ∈ links) {u : Nat} (hu : u ∈ unlinked) {c : Atom}
    (hc : (g.substitute path i j).atoms[u]? = some c) : c ∈ path.atoms := by
  have hfree := ((hrun.bracketed.mem_unlinked u).1 hu).2 _ hl
  have hout : ¬ (u = i ∨ u = j) := by
    rw [← Bool.not_eq_true, Link.touches_eq_true] at hfree
    exact fun hat => hfree (hat.imp Eq.symm Eq.symm)
  rw [substitute_getElem?_of_not hout] at hc
  exact List.mem_of_getElem? hc

end Links

/-- Positions of a type are found in order, and only after every atom of the path has been compared
with the type. -/
theorem occurrences_eq_ok {positions : List Nat} (h : g.occurrences path name = .ok positions) :
    positions.Pairwise (· < ·) ∧
      (∀ p ∈ positions, ∃ a, path.atoms[p]? = some a ∧ g.countsAs a name = .ok true) ∧
      ∀ a ∈ path.atoms, ∃ counts, g.countsAs a name = .ok counts := by
  obtain ⟨pick, hpick, rfl⟩ := filterMapM_eq_ok h
  have hfound : ∀ x ∈ path.atoms.zipIdx, ∃ counts, g.countsAs x.1 name = .ok counts ∧
      pick x = if counts then some x.2 else none := by
    intro x hx
    obtain ⟨counts, hcounts, hx⟩ := map_eq_ok.1 (hpick x hx)
    exact ⟨counts, hcounts, hx.symm⟩
  have hpicked : ∀ x ∈ path.atoms.zipIdx, ∀ p, pick x = some p →
      g.countsAs x.1 name = .ok true ∧ p = x.2 := by
    intro x hx p hp
    obtain ⟨counts, hcounts, hx⟩ := hfound x hx
    rw [hx, Option.ite_none_right_eq_some, Option.some.injEq] at hp
    exact ⟨hp.1 ▸ hcounts, hp.2.symm⟩
  refine ⟨pairwise_filterMap_zipIdx fun x hx p hp => (hpicked x hx p hp).2, fun p hp => ?_,
    fun a ha => ?_⟩
  · obtain ⟨⟨a, q⟩, hx, hq⟩ := List.mem_filterMap.1 hp
    obtain ⟨hcounts, rfl⟩ := hpicked _ hx p hq
    exact ⟨a, List.mk_mem_zipIdx_iff_getElem?.1 hx, hcounts⟩
  · obtain ⟨p, hp⟩ := List.mem_iff_getElem?.1 ha
    obtain ⟨counts, hcounts, -⟩ := hfound (a, p) (List.mk_mem_zipIdx_iff_getElem?.2 hp)
    exact ⟨counts, hcounts⟩

theorem repair_cases {r : RepairedPath} (h : g.repair path name = .ok (some r)) :
    ∃ i j, r.repair = ⟨name, i, j⟩ ∧ i < j ∧ r.path = g.substitute path i j ∧
      g.derive r.path = .ok r.derivation ∧ r.derivation.grammatical = true ∧
      (∀ p, p = i ∨ p = j → ∃ a, path.atoms[p]? = some a ∧ g.countsAs a name = .ok true) ∧
      ∀ a ∈ path.atoms, ∃ counts, g.countsAs a name = .ok counts := by
  obtain ⟨positions, hpositions, h⟩ := bind_eq_ok.1 h
  obtain ⟨hsorted, hcounted, hall⟩ := occurrences_eq_ok hpositions
  obtain ⟨front, ⟨i, j⟩, back, hsplit, -, hsome⟩ := findSomeM?_eq_ok_some.1 h
  obtain ⟨hpath, hd, ht, hrepair⟩ := repairAt_eq_some hsome
  have hpair : (i, j) ∈ orderedPairs positions := by
    rw [hsplit]
    simp
  obtain ⟨hi, hj, hij⟩ := (mem_orderedPairs hsorted).1 hpair
  refine ⟨i, j, hrepair, hij, hpath, hd, ht, ?_, hall⟩
  rintro p (rfl | rfl)
  · exact hcounted p hi
  · exact hcounted p hj

section Names

theorem contains_of_reachesStandalone {table : ReductionTable} :
    ∀ {standalones : List String}, (∀ other ∈ standalones, table.contains other = true) →
      reachesStandalone table name standalones = .ok true → table.contains name = true
  | [], _, h => by simp [reachesStandalone] at h
  | standalone :: standalones, hs, h => by
    obtain ⟨hhead, hrest⟩ := List.forall_mem_cons.1 hs
    unfold reachesStandalone at h
    split_ifs at h with heq
    · rwa [heq]
    · split at h
      · simp at h
      · rename_i hreduce
        obtain ⟨k, -, hk, -⟩ := ReductionTable.namesReduce_eq_ok.1 hreduce
        exact ReductionTable.contains_iff_indexOf.2 ⟨k, hk⟩
      · exact contains_of_reachesStandalone hrest h

theorem contains_of_countsAs {a : Atom} {counts : Bool} (h : g.countsAs a name = .ok counts)
    (ha : g.table.contains a.name = true) : g.table.contains name = true := by
  unfold countsAs at h
  split_ifs at h with heq
  · rwa [← heq]
  · obtain ⟨-, k, -, hk, -⟩ := ReductionTable.namesReduce_eq_ok.1 h
    exact ReductionTable.contains_iff_indexOf.2 ⟨k, hk⟩

theorem namesReduce_of_countsAs (hc : g.table.Compiled) (hn : g.table.contains name = true)
    {a : Atom} (h : g.countsAs a name = .ok true) : g.table.namesReduce a.name name = .ok true := by
  unfold countsAs at h
  split_ifs at h with heq
  · rw [heq]
    exact hc.namesReduce_self hn
  · exact h

end Names

/-- The pair at positions `i` and `j`, of the given type, has cancelled around positions that are
linked among themselves, and every other link is one that the path itself allows. -/
structure CancelsPair (g : Grammar) (path : Path) (name : String) (i j : Nat) (links : List Link) :
    Prop where
  linked : ⟨i, j⟩ ∈ links
  replaced : ∃ a b, path.atoms[i]? = some a ∧ path.atoms[j]? = some b ∧
    b.adjoint.toInt = a.adjoint.toInt + 1 ∧ g.table.namesReduce a.name name = .ok true ∧
    g.table.namesReduce b.name name = .ok true
  inside : ∀ p, i < p → p < j → ∃ q, i < q ∧ q < j ∧ q ≠ p ∧ (⟨p, q⟩ ∈ links ∨ ⟨q, p⟩ ∈ links)
  licensed : ∀ link ∈ links, link ≠ ⟨i, j⟩ → Verdict g path.atoms true link.left link.right

end Grammar

/-- A repair of a path without dummy atoms lets the replaced pair cancel and nothing else that could
not have cancelled anyway. -/
theorem repair_cancels_replaced_pair {draft : Draft} {g : Grammar} (hg : draft.build = .ok g)
    {path : Path} (hclean : ∀ a ∈ path.atoms, g.table.isDummy a = false) {name : String}
    {r : RepairedPath} (h : g.repair path name = .ok (some r)) :
    r.repair.atomType = name ∧
      g.CancelsPair path name r.repair.first r.repair.second r.derivation.links := by
  obtain ⟨i, j, hrepair, hij, hpath, hd, ht, hcounted, hall⟩ := Grammar.repair_cases h
  obtain ⟨a, ha, hca⟩ := hcounted i (.inl rfl)
  obtain ⟨b, hb, hcb⟩ := hcounted j (.inr rfl)
  obtain ⟨u, c, hu, hc, hstandalone⟩ := (derive_grammatical_iff hd).1 ht
  have hrun := derive_run hd
  rw [hpath] at hrun hc
  have hlinked := Grammar.mem_links_of_unlinked hclean hrun hij
    (List.getElem?_eq_some_iff.1 hb).1 hu
  -- The type is known, even if the two atoms are only of its name: the residual was compared with
  -- it.
  have hground := Draft.grounded_of_build hg
  have hname : g.table.contains name = true := by
    obtain ⟨counts, hcounts⟩ :=
      hall c (Grammar.mem_atoms_of_unlinked hrun hlinked (hu ▸ List.mem_cons_self) hc)
    exact Grammar.contains_of_countsAs hcounts
      (Grammar.contains_of_reachesStandalone hground.standalones hstandalone)
  have hreduce : ∀ {a : Atom}, g.countsAs a name = .ok true → _ :=
    Grammar.namesReduce_of_countsAs hground.compiled hname
  rw [hrepair]
  refine ⟨rfl, hlinked, ⟨a, b, ha, hb, Grammar.adjoint_of_linked hrun hlinked ha hb, hreduce hca,
    hreduce hcb⟩, fun p hip hpj => ?_, fun link hl hne => ?_⟩
  · obtain ⟨q, ⟨hiq, hqj⟩, hne, hpq⟩ := hrun.bracketed.partner_inside hlinked ⟨hip, hpj⟩
    exact ⟨q, hiq, hqj, hne, hpq⟩
  · exact Grammar.verdict_of_ne hclean hrun hij hl hne

namespace Sample

/-- A noun in the singular and a verb that takes one in the plural, with two sentences between them
that cancel. -/
def interrupted : Path :=
  [⟨[.concrete "n" 0 [⟨0, 1⟩]]⟩, ⟨[.plain "s" 0, .plain "s" 1]⟩,
    ⟨[.concrete "n" 1 [⟨0, 2⟩], .plain "s" 0]⟩]

theorem interrupted_clean : ∀ a ∈ interrupted.atoms, grammar.table.isDummy a = false := by
  decide

theorem occurrences_interrupted : grammar.occurrences interrupted "n" = .ok [0, 3] := by
  have hs : grammar.table.namesReduce "s" "n" = .ok false :=
    ReductionTable.namesReduce_eq_ok.2 ⟨0, 1, ReductionTable.indexOf_eq_ok.2 rfl,
      ReductionTable.indexOf_eq_ok.2 rfl, rfl⟩
  have hnames : ∀ x ∈ interrupted.atoms.zipIdx, x.1.name = "n" ∨ x.1.name = "s" := by decide
  have hpick : ∀ x ∈ interrupted.atoms.zipIdx,
      ((grammar.countsAs x.1 "n").map fun counts => if counts then some x.2 else none) =
        .ok (if x.1.name = "n" then some x.2 else none) := by
    intro x hx
    unfold Grammar.countsAs
    rcases hnames x hx with hn | hn
    · rw [if_pos hn, if_pos hn]
      rfl
    · rw [hn, if_neg (by decide), if_neg (by decide), hs]
      rfl
  exact filterMapM_eq hpick

theorem derive_interrupted : grammar.derive (grammar.substitute interrupted 0 3) =
    .ok ⟨[⟨1, 2⟩, ⟨0, 3⟩], [4], 5, true, some (.plain "s" 0)⟩ := by
  have hrun : Machine.run grammar (grammar.substitute interrupted 0 3).atoms =
      .ok ⟨5, ⟨[(4, .plain "s" 0)], 1, rfl⟩, [⟨0, 3⟩, ⟨1, 2⟩]⟩ := by
    refine bind_eq_ok.2 ⟨_, rfl, ?_⟩
    refine bind_eq_ok.2 ⟨_, map_eq_ok.2 ⟨_, reduces_eq (i := 2) (j := 0) rfl rfl, rfl⟩, ?_⟩
    refine bind_eq_ok.2 ⟨_, map_eq_ok.2 ⟨_, reduces_eq (i := 0) (j := 0) rfl rfl, rfl⟩, ?_⟩
    exact bind_eq_ok.2 ⟨_, map_eq_ok.2 ⟨_, reduces_eq (i := 2) (j := 2) rfl rfl, rfl⟩, rfl⟩
  exact derive_of_run hrun rfl

/-- The path with its repair. -/
def mended : RepairedPath where
  path := grammar.substitute interrupted 0 3
  derivation := ⟨[⟨1, 2⟩, ⟨0, 3⟩], [4], 5, true, some (.plain "s" 0)⟩
  repair := ⟨"n", 0, 3⟩

theorem repair_interrupted : grammar.repair interrupted "n" = .ok (some mended) := by
  have hat : grammar.repairAt interrupted "n" 0 3 = .ok (some mended) :=
    bind_eq_ok.2 ⟨_, derive_interrupted, rfl⟩
  exact bind_eq_ok.2 ⟨[0, 3], occurrences_interrupted, findSomeM?_cons_some hat⟩

end Sample

/-- The noun and the verb that disagree are linked around the two sentences. -/
theorem repair_cancels_replaced_pair_sample :
    Sample.draft.build = .ok Sample.grammar ∧
      (∀ a ∈ Sample.interrupted.atoms, Sample.grammar.table.isDummy a = false) ∧
      Sample.grammar.repair Sample.interrupted "n" = .ok (some Sample.mended) ∧
      Sample.grammar.CancelsPair Sample.interrupted "n" 0 3 [⟨1, 2⟩, ⟨0, 3⟩] :=
  ⟨Sample.build_draft, Sample.interrupted_clean, Sample.repair_interrupted,
    (repair_cancels_replaced_pair Sample.build_draft Sample.interrupted_clean
      Sample.repair_interrupted).2⟩

end PregroupGrammar
