import PregroupGrammar.Proofs.Paths

/-!
# Trees of paths in a graph

A tree of paths can be kept in a graph: a node for the root, a node for each choice that a path
makes, labelled with the candidate, and an edge to it from the choice before. A path is read by
walking up from its leaf.

What the graph does is left open, but for what can be expected of any (`NodeStore.Lawful`). A new
child then spells the path of its parent and its own label (`Leads.child_of_sprout`), and no walk
from an older node meets it (`Leads.sprout`). So the leaves stay in the order of the paths, and what
is read from them are the paths (`Represents.reads`).
-/

namespace PregroupGrammar

/-- A graph that grows by nodes and edges. A node may have a label, and it may have a parent, from
which an edge leads to it. -/
structure NodeStore (α : Type) where
  Graph : Type
  Node : Type
  capacity : Nat
  empty : Graph
  count : Graph → Nat
  addNode : Graph → Option α → Graph × Node
  addEdge : Graph → Node → Node → Graph
  label? : Graph → Node → Option (Option α)
  parent? : Graph → Node → Option Node

/-- As long as there is room, a node that is added is a new one with the label that is given. The
parent of a node is where its edge comes from. Whatever is added leaves all else as it was. -/
structure NodeStore.Lawful {α : Type} (S : NodeStore α) : Prop where
  count_empty : S.count S.empty = 0
  count_addNode : ∀ G a, S.count G < S.capacity → S.count (S.addNode G a).1 = S.count G + 1
  fresh : ∀ G a, S.count G < S.capacity → S.label? G (S.addNode G a).2 = none
  label_new : ∀ G a, S.count G < S.capacity → S.label? (S.addNode G a).1 (S.addNode G a).2 = some a
  label_old : ∀ G a n, S.count G < S.capacity → n ≠ (S.addNode G a).2 →
    S.label? (S.addNode G a).1 n = S.label? G n
  parent_old : ∀ G a n, S.count G < S.capacity → n ≠ (S.addNode G a).2 →
    S.parent? (S.addNode G a).1 n = S.parent? G n
  count_addEdge : ∀ G p c, S.count (S.addEdge G p c) = S.count G
  label_addEdge : ∀ G p c n, S.label? (S.addEdge G p c) n = S.label? G n
  parent_target : ∀ G p c, S.label? G p ≠ none → S.label? G c ≠ none →
    S.parent? (S.addEdge G p c) c = some p
  parent_other : ∀ G p c n, n ≠ c → S.parent? (S.addEdge G p c) n = S.parent? G n

/-- A tree of paths in a graph. -/
structure PathGraph {α : Type} (S : NodeStore α) where
  graph : S.Graph
  root : S.Node
  leaves : List S.Node
  generations : Nat

/-- Labels by number, and edges with the newest first. -/
def NodeStore.arena (α : Type) (capacity : Nat) : NodeStore α where
  Graph := List (Option α) × List (Nat × Nat)
  Node := Nat
  capacity := capacity
  empty := ([], [])
  count G := G.1.length
  addNode G a := ((G.1 ++ [a], G.2), G.1.length)
  addEdge G parent child := (G.1, (parent, child) :: G.2)
  label? G n := G.1[n]?
  parent? G n := (G.2.find? (·.2 == n)).map Prod.fst

theorem NodeStore.arena_lawful (α : Type) (capacity : Nat) : (arena α capacity).Lawful where
  count_empty := rfl
  count_addNode _ _ _ := List.length_append
  fresh _ _ _ := List.getElem?_eq_none (Nat.le_refl _)
  label_new _ _ _ := List.getElem?_concat_length
  label_old := fun (G : List (Option α) × List (Nat × Nat)) a (n : Nat) _
      (hn : n ≠ G.1.length) => by
    change (G.1 ++ [a])[n]? = G.1[n]?
    rcases Nat.lt_or_gt_of_ne hn with h | h
    · exact List.getElem?_append_left h
    · have hlength : (G.1 ++ [a]).length ≤ n := by simpa using Nat.succ_le_of_lt h
      rw [List.getElem?_eq_none hlength, List.getElem?_eq_none (Nat.le_of_lt h)]
  parent_old _ _ _ _ _ := rfl
  count_addEdge _ _ _ := rfl
  label_addEdge _ _ _ _ := rfl
  parent_target := fun _ (p c : Nat) _ _ =>
    congrArg (Option.map Prod.fst) (List.find?_cons_of_pos (a := (p, c)) (beq_self_eq_true c))
  parent_other := fun _ (p c n : Nat) (hn : n ≠ c) =>
    congrArg (Option.map Prod.fst) (List.find?_cons_of_neg (a := (p, c)) (by simpa using hn.symm))

variable {α : Type} {S : NodeStore α}

namespace PathGraph

variable (S) in
def start : PathGraph S where
  graph := (S.addNode S.empty none).1
  root := (S.addNode S.empty none).2
  leaves := []
  generations := 0

/-- The graph and its new leaves, after one more child of a parent. -/
def sprout (parent : S.Node) (s : S.Graph × List S.Node) (a : α) : S.Graph × List S.Node :=
  let added := S.addNode s.1 (some a)
  (S.addEdge added.1 parent added.2, s.2 ++ [added.2])

def fronts (t : PathGraph S) : List S.Node :=
  if t.generations = 0 then [t.root] else t.leaves

/-- The tree with one more generation. -/
def grow (t : PathGraph S) (candidates : List α) : PathGraph S :=
  let grown := t.fronts.foldl (fun s parent => candidates.foldl (sprout parent) s) (t.graph, [])
  ⟨grown.1, t.root, grown.2, t.generations + 1⟩

/-- Walking up from a node finds these labels, until it comes to the root or to a node without a
parent. -/
inductive Reads (t : PathGraph S) : S.Node → List α → Prop
  | root : Reads t t.root []
  | up {node parent : S.Node} {labels : List α} : node ≠ t.root →
    S.parent? t.graph node = some parent → Reads t parent labels →
    Reads t node ((S.label? t.graph node).join.toList ++ labels)
  | stray {node : S.Node} : node ≠ t.root → S.parent? t.graph node = none →
    Reads t node (S.label? t.graph node).join.toList

theorem Reads.unique {t : PathGraph S} {node : S.Node} {labels labels' : List α}
    (h : t.Reads node labels) (h' : t.Reads node labels') : labels = labels' := by
  induction h generalizing labels' with
  | root =>
    cases h' with
    | root => rfl
    | up hne => exact absurd rfl hne
    | stray hne => exact absurd rfl hne
  | up hne hparent _ ih =>
    cases h' with
    | root => exact absurd rfl hne
    | up _ hparent' hrest =>
      obtain rfl := Option.some.inj (hparent.symm.trans hparent')
      rw [ih hrest]
    | stray _ hnone => simp [hparent] at hnone
  | stray hne hnone =>
    cases h' with
    | root => exact absurd rfl hne
    | up _ hparent => simp [hparent] at hnone
    | stray => rfl

variable (S) in
/-- Walking up from the node leads to the root, past a label for each choice of the stem. -/
inductive Leads (graph : S.Graph) (root : S.Node) : S.Node → List α → Prop
  | root : S.label? graph root = some none → Leads graph root root []
  | child {node parent : S.Node} {a : α} {stem : List α} : node ≠ root →
    S.label? graph node = some (some a) → S.parent? graph node = some parent →
    Leads graph root parent stem → Leads graph root node (a :: stem)

section Leads

variable {graph : S.Graph} {root node : S.Node} {stem : List α}

theorem Leads.label_ne_none (h : Leads S graph root node stem) : S.label? graph node ≠ none := by
  cases h with
  | root hlabel => simp [hlabel]
  | child _ hlabel => simp [hlabel]

theorem Leads.root_label (h : Leads S graph root node stem) : S.label? graph root = some none := by
  induction h with
  | root hlabel => exact hlabel
  | child _ _ _ _ ih => exact ih

theorem Leads.reads {t : PathGraph S} (h : Leads S t.graph t.root node stem) :
    t.Reads node stem := by
  induction h with
  | root => exact .root
  | child hne hlabel hparent _ ih =>
    have hreads := Reads.up hne hparent ih
    rwa [hlabel] at hreads

section Sprout

variable (hS : S.Lawful) {leaves : List S.Node} (hroom : S.count graph < S.capacity)
include hS hroom

theorem ne_new {a : Option α} {n : S.Node} (hn : S.label? graph n ≠ none) :
    n ≠ (S.addNode graph a).2 := by
  rintro rfl
  exact hn (hS.fresh graph a hroom)

theorem Leads.sprout (h : Leads S graph root node stem) (parent : S.Node) (a : α) :
    Leads S (sprout parent (graph, leaves) a).1 root node stem := by
  have hlabel : ∀ {n}, S.label? graph n ≠ none →
      S.label? (PathGraph.sprout parent (graph, leaves) a).1 n = S.label? graph n := fun hn =>
    (hS.label_addEdge _ _ _ _).trans (hS.label_old _ _ _ hroom (ne_new hS hroom hn))
  induction h with
  | root hroot => exact .root ((hlabel (by simp [hroot])).trans hroot)
  | @child n p b stem hne hn hp hrest ih =>
    have hold : S.label? graph n ≠ none := by simp [hn]
    have hparent : S.parent? (PathGraph.sprout parent (graph, leaves) a).1 n = some p := by
      have hnew := ne_new (a := some a) hS hroom hold
      exact (hS.parent_other _ _ _ _ hnew).trans ((hS.parent_old _ _ _ hroom hnew).trans hp)
    exact .child hne ((hlabel hold).trans hn) hparent ih

theorem Leads.child_of_sprout (h : Leads S graph root node stem) (a : α) :
    Leads S (PathGraph.sprout node (graph, leaves) a).1 root (S.addNode graph (some a)).2
      (a :: stem) := by
  have hnew := hS.label_new graph (some a) hroom
  have hnode : S.label? (S.addNode graph (some a)).1 node ≠ none := by
    rw [hS.label_old _ _ _ hroom (ne_new hS hroom h.label_ne_none)]
    exact h.label_ne_none
  have hroot : (S.addNode graph (some a)).2 ≠ root :=
    (ne_new hS hroom (by simp [h.root_label])).symm
  refine .child hroot ((hS.label_addEdge _ _ _ _).trans hnew) ?_ (h.sprout hS hroom node a)
  exact hS.parent_target _ _ _ hnode (by simp [hnew])

end Sprout

end Leads

/-- From a graph have grown new leaves, which lead along these stems, and nothing else has
changed. -/
structure Sprouted (before : S.Graph) (root : S.Node) (s : S.Graph × List S.Node)
    (stems : List (List α)) : Prop where
  keeps : ∀ {node stem}, Leads S before root node stem → Leads S s.1 root node stem
  leaves : List.Forall₂ (Leads S s.1 root) s.2 stems
  count : S.count s.1 = S.count before + stems.length

namespace Sprouted

variable {before : S.Graph} {root parent : S.Node} {s : S.Graph × List S.Node} {stem : List α}
  {stems : List (List α)}

theorem start : Sprouted before root (before, []) ([] : List (List α)) :=
  ⟨id, .nil, rfl⟩

variable (hS : S.Lawful)
include hS

theorem sprout (h : Sprouted before root s stems) (hparent : Leads S before root parent stem)
    (a : α) (hroom : S.count before + stems.length < S.capacity) :
    Sprouted before root (PathGraph.sprout parent s a) (stems ++ [a :: stem]) := by
  rw [← h.count] at hroom
  refine ⟨fun hold => (h.keeps hold).sprout hS hroom parent a, ?_, ?_⟩
  · have hleaves : List.Forall₂ (Leads S (PathGraph.sprout parent s a).1 root) s.2 stems :=
      h.leaves.imp fun _ _ hleaf => hleaf.sprout hS hroom parent a
    exact List.rel_append hleaves (.cons ((h.keeps hparent).child_of_sprout hS hroom a) .nil)
  · have hadded := hS.count_addNode s.1 (some a) hroom
    rw [List.length_append, List.length_singleton, ← Nat.add_assoc, ← h.count, ← hadded]
    exact hS.count_addEdge _ _ _

theorem family (hparent : Leads S before root parent stem) :
    ∀ (candidates : List α) {s : S.Graph × List S.Node} {stems : List (List α)},
      Sprouted before root s stems →
      S.count before + stems.length + candidates.length ≤ S.capacity →
      Sprouted before root (candidates.foldl (PathGraph.sprout parent) s)
        (stems ++ candidates.map (· :: stem))
  | [], s, stems, h, _ => by rwa [List.map_nil, List.append_nil]
  | a :: candidates, s, stems, h, hroom => by
    rw [List.length_cons] at hroom
    have hnext := family hparent candidates (h.sprout hS hparent a (by omega)) (by
      rw [List.length_append, List.length_singleton]
      omega)
    rwa [List.append_assoc] at hnext

theorem generation (candidates : List α) :
    ∀ {parents : List S.Node} {parentStems : List (List α)} {s : S.Graph × List S.Node}
      {stems : List (List α)}, List.Forall₂ (Leads S before root) parents parentStems →
      Sprouted before root s stems →
      S.count before + stems.length + parentStems.length * candidates.length ≤ S.capacity →
      Sprouted before root
        (parents.foldl (fun s parent => candidates.foldl (PathGraph.sprout parent) s) s)
        (stems ++ parentStems.flatMap fun stem => candidates.map (· :: stem))
  | [], [], s, stems, .nil, h, _ => by rwa [List.flatMap_nil, List.append_nil]
  | parent :: parents, stem :: parentStems, s, stems, .cons hparent hparents, h, hroom => by
    rw [List.length_cons, Nat.succ_mul] at hroom
    have hfamily := family hS hparent candidates h (by omega)
    have hnext := generation candidates hparents hfamily (by
      rw [List.length_append, List.length_map]
      omega)
    rwa [List.append_assoc] at hnext

end Sprouted

/-- The graph has a leaf for each leaf of the tree, in order, that leads along its path. -/
structure Represents (t : PathGraph S) (tree : PathTree α) : Prop where
  generations : t.generations = tree.generations
  bare : tree.generations = 0 → t.leaves = [] ∧ tree.leaves = []
  fronts : List.Forall₂ (Leads S t.graph t.root) t.fronts tree.stems

end PathGraph

/-- How many nodes are added for the further words of a tree that has some number of stems. -/
def nodesAdded (stems : Nat) : List (List α) → Nat
  | [] => 0
  | word :: words => stems * word.length + nodesAdded (stems * word.length) words

namespace PathGraph

namespace Represents

variable {t : PathGraph S} {tree : PathTree α}

theorem start (hS : S.Lawful) (hroom : 0 < S.capacity) :
    Represents (start S) (.empty : PathTree α) := by
  refine ⟨rfl, fun _ => ⟨rfl, rfl⟩, .cons (.root ?_) .nil⟩
  exact hS.label_new _ _ (hS.count_empty ▸ hroom)

theorem grow (hS : S.Lawful) (h : Represents t tree) (candidates : List α)
    (hroom : S.count t.graph + tree.stems.length * candidates.length ≤ S.capacity) :
    Represents (t.grow candidates) (tree.grow candidates) ∧
      S.count (t.grow candidates).graph =
        S.count t.graph + (tree.grow candidates).stems.length := by
  have hgrown := Sprouted.generation hS candidates h.fronts Sprouted.start (by simpa using hroom)
  refine ⟨⟨congrArg (· + 1) h.generations, fun hzero => absurd hzero (Nat.succ_ne_zero _), ?_⟩,
    hgrown.count⟩
  exact hgrown.leaves

theorem foldl (hS : S.Lawful) : ∀ (words : List (List α)) {t : PathGraph S} {tree : PathTree α},
    Represents t tree → S.count t.graph + nodesAdded tree.stems.length words ≤ S.capacity →
      Represents (words.foldl PathGraph.grow t) (words.foldl PathTree.grow tree)
  | [], t, tree, h, _ => h
  | word :: words, t, tree, h, hroom => by
    rw [nodesAdded] at hroom
    obtain ⟨hnext, hcount⟩ := h.grow hS word (by omega)
    exact foldl hS words hnext (by rw [hcount, tree.length_stems_grow]; omega)

theorem reads (h : Represents t tree) :
    List.Forall₂ (fun leaf path => ∀ labels, t.Reads leaf labels ↔ labels.reverse = path) t.leaves
      tree.paths := by
  have hleads : List.Forall₂ (Leads S t.graph t.root) t.leaves tree.leaves := by
    by_cases hzero : tree.generations = 0
    · obtain ⟨hleaves, hnone⟩ := h.bare hzero
      rw [hleaves, hnone]
      exact .nil
    · have hfronts := h.fronts
      rwa [PathGraph.fronts, PathTree.stems, h.generations, if_neg hzero, if_neg hzero] at hfronts
  rw [PathTree.paths, List.forall₂_map_right_iff]
  refine hleads.imp fun leaf stem hleaf labels => ?_
  rw [List.reverse_inj]
  exact ⟨fun hlabels => hlabels.unique hleaf.reads, fun hlabels => hlabels ▸ hleaf.reads⟩

end Represents

end PathGraph

end PregroupGrammar
