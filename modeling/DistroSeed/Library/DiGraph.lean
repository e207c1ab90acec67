import DistroSeed.Library.Chains
import Mathlib.Data.List.Perm.Basic

/-! Directed graphs that remember the order in which nodes and edges were added.
Adding a node or an edge that is already there keeps its place in that order. -/

/-- An edge with its attribute. -/
structure Edge (ν κ : Type*) where
  src : ν
  dst : ν
  label : κ
deriving DecidableEq, Repr

namespace Edge

variable {ν κ : Type*}

/-- The end points, which identify an edge of a simple graph. -/
def ends (e : Edge ν κ) : ν × ν := (e.src, e.dst)

@[simp] theorem ends_mk (u v : ν) (k : κ) : (Edge.mk u v k).ends = (u, v) := rfl

end Edge

/-- A simple directed graph: nodes and edges are listed once, in the order of
their first insertion, and every end point is a node. -/
structure DiGraph (ν κ : Type*) where
  nodes : List ν
  edges : List (Edge ν κ)
  nodes_nodup : nodes.Nodup
  edges_nodup : (edges.map Edge.ends).Nodup
  ends_mem : ∀ e ∈ edges, e.src ∈ nodes ∧ e.dst ∈ nodes

namespace DiGraph

open Chains

variable {ν κ : Type*}

/-- The graph without nodes. -/
def empty : DiGraph ν κ := ⟨[], [], by simp, by simp, by simp⟩

/-- The edge relation. -/
def Adj (g : DiGraph ν κ) (u v : ν) : Prop := (u, v) ∈ g.edges.map Edge.ends

@[simp] theorem adj_empty (a b : ν) : ¬ (empty : DiGraph ν κ).Adj a b := by
  simp [Adj, empty]

theorem Adj.mem_nodes {g : DiGraph ν κ} {u v : ν} (h : g.Adj u v) :
    u ∈ g.nodes ∧ v ∈ g.nodes := by
  obtain ⟨e, he, hends⟩ := List.mem_map.mp h
  obtain ⟨rfl, rfl⟩ := Prod.mk.inj hends
  exact g.ends_mem e he

/-- The source of every edge is a node, so long chains run through cycles. -/
theorem adj_src_mem (g : DiGraph ν κ) : ∀ u v, g.Adj u v → u ∈ g.nodes :=
  fun _ _ h => h.mem_nodes.1

/-- Every node of an acyclic graph has a depth. -/
theorem exists_depth {g : DiGraph ν κ} (h : Acyclic g.Adj) (v : ν) :
    ∃ k, DepthIs g.Adj v k := by
  have hbound := h.chainTo_bounded g.adj_src_mem v
  by_contra hnone
  simp only [DepthIs, not_exists, not_and, not_not] at hnone
  suffices hall : ∀ k, ChainTo g.Adj k v by exact hbound (hall _)
  intro k
  induction k with
  | zero => trivial
  | succ k ih => exact hnone k ih

variable [DecidableEq ν]

instance (g : DiGraph ν κ) : DecidableRel g.Adj :=
  fun u v => inferInstanceAs (Decidable ((u, v) ∈ g.edges.map Edge.ends))

/-- Children of `u` in the order in which the edges were added. -/
def successors (g : DiGraph ν κ) (u : ν) : List ν :=
  (g.edges.filter fun e => e.src = u).map Edge.dst

/-- Parents of `v` in the order in which the edges were added. -/
def predecessors (g : DiGraph ν κ) (v : ν) : List ν :=
  (g.edges.filter fun e => e.dst = v).map Edge.src

def outDegree (g : DiGraph ν κ) (u : ν) : ℕ := (g.successors u).length

def inDegree (g : DiGraph ν κ) (v : ν) : ℕ := (g.predecessors v).length

/-! ## Insertion -/

def addNode (g : DiGraph ν κ) (v : ν) : DiGraph ν κ :=
  if h : v ∈ g.nodes then g
  else
    { g with
      nodes := g.nodes ++ [v]
      nodes_nodup := List.nodup_append.mpr
        ⟨g.nodes_nodup, by simp, fun a ha b hb => by
          rw [List.mem_singleton] at hb
          intro heq
          subst heq
          exact h (hb ▸ ha)⟩
      ends_mem := fun e he => by
        have := g.ends_mem e he
        simp [this.1, this.2] }

theorem mem_nodes_addNode (g : DiGraph ν κ) (v w : ν) :
    w ∈ (g.addNode v).nodes ↔ w ∈ g.nodes ∨ w = v := by
  unfold addNode
  split
  · rename_i h
    constructor
    · exact Or.inl
    · intro hcases
      rcases hcases with hw | rfl
      · exact hw
      · exact h
  · simp

@[simp] theorem edges_addNode (g : DiGraph ν κ) (v : ν) : (g.addNode v).edges = g.edges := by
  unfold addNode
  split <;> rfl

/-- Replace the attribute of the edges from `u` to `v`. -/
def relabel (u v : ν) (label : κ) (e : Edge ν κ) : Edge ν κ :=
  if e.ends = (u, v) then { e with label } else e

@[simp] theorem ends_relabel (u v : ν) (label : κ) (e : Edge ν κ) :
    (relabel u v label e).ends = e.ends := by
  unfold relabel
  split <;> rfl

theorem map_ends_relabel (u v : ν) (label : κ) (edges : List (Edge ν κ)) :
    (edges.map (relabel u v label)).map Edge.ends = edges.map Edge.ends := by
  simp [Function.comp_def]

private theorem ends_mem_addEdge {g : DiGraph ν κ} {u v : ν} {e : Edge ν κ}
    (h : e.ends ∈ g.edges.map Edge.ends ∨ e.ends = (u, v)) :
    e.src ∈ ((g.addNode u).addNode v).nodes ∧ e.dst ∈ ((g.addNode u).addNode v).nodes := by
  simp only [mem_nodes_addNode]
  rcases h with h | h
  · obtain ⟨e', he', hends⟩ := List.mem_map.mp h
    obtain ⟨hsrc, hdst⟩ := Prod.mk.inj hends
    have := g.ends_mem e' he'
    rw [hsrc, hdst] at this
    exact ⟨Or.inl (Or.inl this.1), Or.inl (Or.inl this.2)⟩
  · obtain ⟨hsrc, hdst⟩ := Prod.mk.inj h
    exact ⟨Or.inl (Or.inr hsrc), Or.inr hdst⟩

/-- Adding an edge adds its end points; an edge that exists is only relabelled. -/
def addEdge (g : DiGraph ν κ) (u v : ν) (label : κ) : DiGraph ν κ :=
  let g' := (g.addNode u).addNode v
  if h : (u, v) ∈ g.edges.map Edge.ends then
    { nodes := g'.nodes
      edges := g.edges.map (relabel u v label)
      nodes_nodup := g'.nodes_nodup
      edges_nodup := by rw [map_ends_relabel]; exact g.edges_nodup
      ends_mem := fun e he => ends_mem_addEdge (Or.inl (by
        rw [← map_ends_relabel u v label]; exact List.mem_map_of_mem he)) }
  else
    { nodes := g'.nodes
      edges := g.edges ++ [⟨u, v, label⟩]
      nodes_nodup := g'.nodes_nodup
      edges_nodup := by
        rw [List.map_append, List.nodup_append]
        refine ⟨g.edges_nodup, by simp, ?_⟩
        intro a ha b hb hab
        simp only [List.map_cons, List.map_nil, List.mem_singleton, Edge.ends_mk] at hb
        subst hab hb
        exact h ha
      ends_mem := fun e he => by
        rcases List.mem_append.mp he with he | he
        · exact ends_mem_addEdge (Or.inl (List.mem_map_of_mem he))
        · exact ends_mem_addEdge (Or.inr (by rw [List.mem_singleton.mp he]; rfl)) }

@[simp] theorem nodes_addEdge (g : DiGraph ν κ) (u v : ν) (label : κ) :
    (g.addEdge u v label).nodes = ((g.addNode u).addNode v).nodes := by
  simp only [addEdge]
  split <;> rfl

/-- An edge between two nodes leaves the node list alone. -/
theorem nodes_addEdge_of_mem {g : DiGraph ν κ} {u v : ν} (label : κ) (hu : u ∈ g.nodes)
    (hv : v ∈ g.nodes) : (g.addEdge u v label).nodes = g.nodes := by
  simp [addNode, hu, hv]

theorem map_ends_addEdge (g : DiGraph ν κ) (u v : ν) (label : κ) :
    (g.addEdge u v label).edges.map Edge.ends =
      if (u, v) ∈ g.edges.map Edge.ends then g.edges.map Edge.ends
      else g.edges.map Edge.ends ++ [(u, v)] := by
  simp only [addEdge]
  split
  · exact map_ends_relabel u v label g.edges
  · simp

@[simp] theorem adj_addNode (g : DiGraph ν κ) (v a b : ν) :
    (g.addNode v).Adj a b ↔ g.Adj a b := by
  simp [Adj]

@[simp] theorem adj_addEdge (g : DiGraph ν κ) (u v a b : ν) (label : κ) :
    (g.addEdge u v label).Adj a b ↔ g.Adj a b ∨ (a = u ∧ b = v) := by
  unfold Adj
  rw [map_ends_addEdge]
  split
  · rename_i h
    constructor
    · exact Or.inl
    · intro hcases
      rcases hcases with hab | ⟨rfl, rfl⟩
      · exact hab
      · exact h
  · rw [List.mem_append, List.mem_singleton, Prod.mk.injEq]

/-! ## Adding several edges -/

/-- Add the edges one after the other, all with the same attribute. -/
def addEdgesFrom (g : DiGraph ν κ) (pairs : List (ν × ν)) (label : κ) : DiGraph ν κ :=
  pairs.foldl (fun g pair => g.addEdge pair.1 pair.2 label) g

@[simp] theorem addEdgesFrom_nil (g : DiGraph ν κ) (label : κ) : g.addEdgesFrom [] label = g := rfl

theorem addEdgesFrom_append (g : DiGraph ν κ) (l l' : List (ν × ν)) (label : κ) :
    g.addEdgesFrom (l ++ l') label = (g.addEdgesFrom l label).addEdgesFrom l' label :=
  List.foldl_append

theorem adj_addEdgesFrom {g : DiGraph ν κ} {pairs : List (ν × ν)} {label : κ} {a b : ν} :
    (g.addEdgesFrom pairs label).Adj a b ↔ g.Adj a b ∨ (a, b) ∈ pairs := by
  induction pairs generalizing g with
  | nil => simp
  | cons pair pairs ih =>
      rw [addEdgesFrom, List.foldl_cons, ← addEdgesFrom, ih, adj_addEdge, List.mem_cons, or_assoc,
        Prod.ext_iff]

/-- Edges between nodes leave the node list alone. -/
theorem nodes_addEdgesFrom {g : DiGraph ν κ} {pairs : List (ν × ν)} (label : κ)
    (h : ∀ pair ∈ pairs, pair.1 ∈ g.nodes ∧ pair.2 ∈ g.nodes) :
    (g.addEdgesFrom pairs label).nodes = g.nodes := by
  induction pairs generalizing g with
  | nil => rfl
  | cons pair pairs ih =>
      have hhead := h pair (by simp)
      have hnodes := nodes_addEdge_of_mem label hhead.1 hhead.2
      rw [addEdgesFrom, List.foldl_cons, ← addEdgesFrom, ih, hnodes]
      intro pair' hpair'
      rw [hnodes]
      exact h pair' (by simp [hpair'])

/-- The edges stand in the order in which they were added, the repetitions left out. -/
theorem map_ends_addEdgesFrom_sublist (g : DiGraph ν κ) (pairs : List (ν × ν)) (label : κ) :
    ((g.addEdgesFrom pairs label).edges.map Edge.ends).Sublist (g.edges.map Edge.ends ++ pairs) := by
  induction pairs generalizing g with
  | nil => simp
  | cons pair pairs ih =>
      refine (ih (g.addEdge pair.1 pair.2 label)).trans ?_
      rw [map_ends_addEdge]
      split
      · exact (List.Sublist.refl _).append (List.sublist_cons_self pair pairs)
      · rw [List.append_assoc]
        exact List.Sublist.refl _

/-- The last attribute that an edge was added with is the one that it has. -/
theorem mem_edges_addEdge {g : DiGraph ν κ} {u v : ν} {label : κ} {e : Edge ν κ} :
    e ∈ (g.addEdge u v label).edges ↔ (e ∈ g.edges ∧ e.ends ≠ (u, v)) ∨ e = ⟨u, v, label⟩ := by
  simp only [addEdge]
  split
  · rename_i h
    simp only [List.mem_map]
    constructor
    · intro hexists
      rcases hexists with ⟨old, hold, rfl⟩
      by_cases hends : old.ends = (u, v)
      · obtain ⟨rfl, rfl⟩ := Prod.mk.inj hends
        exact Or.inr (by simp [relabel, Edge.ends])
      · simp only [relabel, if_neg hends]
        exact Or.inl ⟨hold, hends⟩
    · intro hcases
      rcases hcases with ⟨he, hends⟩ | rfl
      · exact ⟨e, he, if_neg hends⟩
      · obtain ⟨old, hold, hends⟩ := List.mem_map.mp h
        obtain ⟨rfl, rfl⟩ := Prod.mk.inj hends
        exact ⟨old, hold, by simp [relabel, Edge.ends]⟩
  · rename_i h
    rw [List.mem_append, List.mem_singleton]
    apply or_congr_left
    constructor
    · intro he
      refine ⟨he, fun hends => h ?_⟩
      rw [← hends]
      exact List.mem_map_of_mem he
    · exact And.left

theorem mem_edges_addEdgesFrom {g : DiGraph ν κ} {pairs : List (ν × ν)} {label : κ}
    {e : Edge ν κ} : e ∈ (g.addEdgesFrom pairs label).edges ↔
      (e ∈ g.edges ∧ e.ends ∉ pairs) ∨ (e.ends ∈ pairs ∧ e.label = label) := by
  induction pairs generalizing g with
  | nil => simp
  | cons pair pairs ih =>
      have hedge : e = ⟨pair.1, pair.2, label⟩ ↔ e.ends = pair ∧ e.label = label := by
        cases e
        simp only [Edge.mk.injEq, Edge.ends, Prod.ext_iff, and_assoc]
      rw [addEdgesFrom, List.foldl_cons, ← addEdgesFrom, ih, mem_edges_addEdge, hedge,
        List.mem_cons, not_or]
      tauto

/-! ## Neighbours -/

theorem mem_successors {g : DiGraph ν κ} {u v : ν} : v ∈ g.successors u ↔ g.Adj u v := by
  simp only [successors, Adj, List.mem_map, List.mem_filter, decide_eq_true_eq, Edge.ends,
    Prod.mk.injEq]
  constructor
  · intro hexists
    rcases hexists with ⟨e, ⟨he, rfl⟩, rfl⟩
    exact ⟨e, he, rfl, rfl⟩
  · intro hexists
    rcases hexists with ⟨e, he, rfl, rfl⟩
    exact ⟨e, ⟨he, rfl⟩, rfl⟩

theorem mem_predecessors {g : DiGraph ν κ} {u v : ν} : u ∈ g.predecessors v ↔ g.Adj u v := by
  simp only [predecessors, Adj, List.mem_map, List.mem_filter, decide_eq_true_eq, Edge.ends,
    Prod.mk.injEq]
  constructor
  · intro hexists
    rcases hexists with ⟨e, ⟨he, rfl⟩, rfl⟩
    exact ⟨e, he, rfl, rfl⟩
  · intro hexists
    rcases hexists with ⟨e, he, rfl, rfl⟩
    exact ⟨e, ⟨he, rfl⟩, rfl⟩

theorem predecessors_nodup (g : DiGraph ν κ) (v : ν) : (g.predecessors v).Nodup := by
  refine List.Nodup.map_on ?_ (g.edges_nodup.of_map.filter _)
  intro a ha b hb hab
  simp only [List.mem_filter, decide_eq_true_eq] at ha hb
  apply List.inj_on_of_nodup_map g.edges_nodup ha.1 hb.1
  rw [Edge.ends, Edge.ends, hab, ha.2, hb.2]

theorem successors_nodup (g : DiGraph ν κ) (u : ν) : (g.successors u).Nodup := by
  refine List.Nodup.map_on ?_ (g.edges_nodup.of_map.filter _)
  intro a ha b hb hab
  simp only [List.mem_filter, decide_eq_true_eq] at ha hb
  apply List.inj_on_of_nodup_map g.edges_nodup ha.1 hb.1
  rw [Edge.ends, Edge.ends, hab, ha.2, hb.2]

theorem outDegree_eq_zero_iff (g : DiGraph ν κ) (u : ν) :
    g.outDegree u = 0 ↔ ∀ v, ¬ g.Adj u v := by
  simp [outDegree, List.length_eq_zero_iff, List.eq_nil_iff_forall_not_mem, mem_successors]

theorem inDegree_eq_zero_iff (g : DiGraph ν κ) (v : ν) :
    g.inDegree v = 0 ↔ ∀ u, ¬ g.Adj u v := by
  simp [inDegree, List.length_eq_zero_iff, List.eq_nil_iff_forall_not_mem, mem_predecessors]

end DiGraph
