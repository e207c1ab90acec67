import DistroSeed.Library.DiGraph
import Mathlib.Logic.Function.Basic

/-! Kahn's algorithm, generation by generation. Generation `k` holds the nodes of
depth `k`, so the algorithm covers the whole graph exactly when it is acyclic. -/

namespace DiGraph

open Chains Relation

variable {ν κ : Type*}

/-- The generations list every node once, in the order of depth. -/
structure GenerationsSpec (g : DiGraph ν κ) (gens : List (List ν)) : Prop where
  perm : gens.flatten.Perm g.nodes
  depth : ∀ k level, gens[k]? = some level → ∀ v ∈ level, DepthIs g.Adj v k

/-- Members of two generations compare by depth. -/
theorem GenerationsSpec.pairwise {g : DiGraph ν κ} {gens : List (List ν)}
    (h : GenerationsSpec g gens) :
    gens.Pairwise fun l l' => ∀ a ∈ l, ∀ b ∈ l', Shallower g.Adj a b := by
  rw [List.pairwise_iff_getElem]
  intro i j hi hj hij a ha b hb
  have hda := h.depth i _ (List.getElem?_eq_getElem hi) a ha
  have hdb := h.depth j _ (List.getElem?_eq_getElem hj) b hb
  exact (hda.shallower_iff hdb).mpr hij

variable [DecidableEq ν]

/-! ## The algorithm -/

/-- The counters of unvisited parents and the children found ready so far. -/
structure Frontier (ν : Type*) where
  indegree : ν → ℕ
  ready : List ν

/-- One parent of `child` has been visited; the last one makes it ready. -/
def visitChild (f : Frontier ν) (child : ν) : Frontier ν :=
  let left := f.indegree child - 1
  { indegree := Function.update f.indegree child left
    ready := if left = 0 then f.ready ++ [child] else f.ready }

def visit (g : DiGraph ν κ) (f : Frontier ν) (node : ν) : Frontier ν :=
  (g.successors node).foldl visitChild f

def nextGeneration (g : DiGraph ν κ) (indegree : ν → ℕ) (generation : List ν) : Frontier ν :=
  generation.foldl g.visit ⟨indegree, []⟩

/-- The loop that yields one generation after the other until none is left. -/
def generationsFrom (g : DiGraph ν κ) : ℕ → (ν → ℕ) → List ν → List (List ν)
  | 0, _, _ => []
  | _ + 1, _, [] => []
  | fuel + 1, indegree, node :: rest =>
      let f := g.nextGeneration indegree (node :: rest)
      (node :: rest) :: g.generationsFrom fuel f.indegree f.ready

/-- All generations, or `none` when some node never becomes ready. -/
def topologicalGenerations (g : DiGraph ν κ) : Option (List (List ν)) :=
  let gens := g.generationsFrom g.nodes.length g.inDegree
    (g.nodes.filter fun v => g.inDegree v = 0)
  if g.nodes.all (· ∈ gens.flatten) then some gens else none

/-! ## Visiting one node -/

theorem foldl_visitChild (children : List ν) (f : Frontier ν) (hnodup : children.Nodup) :
    children.foldl visitChild f =
      { indegree := fun v => if v ∈ children then f.indegree v - 1 else f.indegree v
        ready := f.ready ++ children.filter fun v => f.indegree v - 1 = 0 } := by
  induction children generalizing f with
  | nil => simp
  | cons child children ih =>
      obtain ⟨hnotin, hnodup⟩ := List.nodup_cons.mp hnodup
      rw [List.foldl_cons, ih _ hnodup]
      have hother : ∀ v ∈ children, (visitChild f child).indegree v = f.indegree v := by
        intro v hv
        have hne : v ≠ child := fun h => hnotin (h ▸ hv)
        simp [visitChild, hne]
      congr 1
      · funext v
        by_cases hv : v = child
        · subst hv
          simp [visitChild, hnotin]
        · simp [visitChild, hv]
      · rw [List.filter_congr fun v hv => by rw [hother v hv]]
        by_cases hleft : f.indegree child - 1 = 0
        · simp [visitChild, hleft]
        · simp [visitChild, hleft]

/-- Visiting a node takes it off the count of each child and appends, in edge
order, the children that waited for it alone. -/
theorem visit_eq (g : DiGraph ν κ) (f : Frontier ν) (node : ν) :
    g.visit f node =
      { indegree := fun v => if v ∈ g.successors node then f.indegree v - 1 else f.indegree v
        ready := f.ready ++ (g.successors node).filter fun v => f.indegree v - 1 = 0 } :=
  foldl_visitChild _ f (g.successors_nodup node)

/-! ## Visiting a generation -/

private theorem countP_notMem_append {s : List ν} {n : ν} (l : List ν) (hn : n ∉ s) :
    l.countP (fun u => u ∉ s ++ [n]) + l.count n = l.countP fun u => u ∉ s := by
  induction l with
  | nil => simp
  | cons a l ih =>
      rw [List.countP_cons, List.countP_cons, List.count_cons, ← ih]
      by_cases han : a = n
      · subst han
        simp [hn]
        omega
      · simp [han]
        omega

/-- The counters after the nodes of `seen` have been visited on top of `done`. -/
structure Visited (g : DiGraph ν κ) (done seen : List ν) (f : Frontier ν) : Prop where
  count : ∀ v, f.indegree v = (g.predecessors v).countP fun u => u ∉ done ++ seen
  mem_ready : ∀ v, v ∈ f.ready ↔
    (∃ u ∈ seen, g.Adj u v) ∧ ∀ u, g.Adj u v → u ∈ done ++ seen
  nodup : f.ready.Nodup

theorem Visited.visit {g : DiGraph ν κ} {done seen : List ν} {f : Frontier ν} {n : ν}
    (h : Visited g done seen f) (hn : n ∉ done ++ seen) :
    Visited g done (seen ++ [n]) (g.visit f n) := by
  have hcount : ∀ v, (g.predecessors v).countP (fun u => u ∉ done ++ (seen ++ [n])) =
      f.indegree v - if g.Adj n v then 1 else 0 := by
    intro v
    have := countP_notMem_append (g.predecessors v) hn
    rw [(g.predecessors_nodup v).count, ← h.count] at this
    simp only [mem_predecessors, List.append_assoc] at this
    omega
  have hlast : ∀ v, g.Adj n v →
      (f.indegree v - 1 = 0 ↔ ∀ u, g.Adj u v → u ∈ done ++ (seen ++ [n])) := by
    intro v hv
    have := hcount v
    rw [if_pos hv] at this
    rw [← this, List.countP_eq_zero]
    simp only [mem_predecessors, decide_eq_true_eq, not_not]
  rw [visit_eq]
  refine ⟨?_, ?_, ?_⟩
  · intro v
    rw [hcount]
    by_cases hv : g.Adj n v
    · simp [mem_successors, hv]
    · simp [mem_successors, hv]
  · intro v
    simp only [List.mem_append, List.mem_filter, mem_successors, decide_eq_true_eq, h.mem_ready,
      List.mem_singleton]
    constructor
    · intro hcases
      rcases hcases with ⟨⟨u, hu, huv⟩, hall⟩ | ⟨hv, hleft⟩
      · refine ⟨⟨u, Or.inl hu, huv⟩, fun w hw => ?_⟩
        rcases hall w hw with hw | hw
        · exact Or.inl hw
        · exact Or.inr (Or.inl hw)
      · exact ⟨⟨n, Or.inr rfl, hv⟩, by simpa using (hlast v hv).mp hleft⟩
    · intro hexists
      rcases hexists with ⟨⟨u, hu, huv⟩, hall⟩
      by_cases hv : g.Adj n v
      · exact Or.inr ⟨hv, (hlast v hv).mpr (by simpa using hall)⟩
      · have hne : ∀ w, g.Adj w v → w ≠ n := by
          intro w hw heq
          subst heq
          exact hv hw
        refine Or.inl ⟨⟨u, hu.resolve_right (hne u huv), huv⟩, fun w hw => ?_⟩
        rcases hall w hw with hw' | hw' | hw'
        · exact Or.inl hw'
        · exact Or.inr hw'
        · exact absurd hw' (hne w hw)
  · refine List.nodup_append.mpr ⟨h.nodup, (g.successors_nodup n).filter _, ?_⟩
    intro v hv _ hv' heq
    subst heq
    rw [List.mem_filter, mem_successors] at hv'
    exact hn (((h.mem_ready v).mp hv).2 n hv'.1)

theorem Visited.visitAll {g : DiGraph ν κ} {done seen : List ν} {f : Frontier ν}
    (h : Visited g done seen f) (rest : List ν) (hnodup : (done ++ seen ++ rest).Nodup) :
    Visited g done (seen ++ rest) (rest.foldl g.visit f) := by
  induction rest generalizing seen f with
  | nil => simpa using h
  | cons n rest ih =>
      have hn : n ∉ done ++ seen := by
        intro hmem
        exact (List.nodup_append.mp hnodup).2.2 n hmem n (by simp) rfl
      have := ih (h.visit hn) (by simpa [List.append_assoc] using hnodup)
      simpa [List.append_assoc] using this

/-! ## One generation after the other -/

/-- Before generation `k`, the finished nodes are those of smaller depth and the
generation holds the nodes of depth `k`. -/
structure Progress (g : DiGraph ν κ) (k : ℕ) (done : List ν) (indegree : ν → ℕ)
    (generation : List ν) : Prop where
  nodup : (done ++ generation).Nodup
  mem_done : ∀ v, v ∈ done ↔ v ∈ g.nodes ∧ ¬ ChainTo g.Adj k v
  mem_seen : ∀ v, v ∈ done ++ generation ↔ v ∈ g.nodes ∧ ¬ ChainTo g.Adj (k + 1) v
  count : ∀ v, indegree v = (g.predecessors v).countP fun u => u ∉ done

theorem Progress.initial (g : DiGraph ν κ) :
    Progress g 0 [] g.inDegree (g.nodes.filter fun v => g.inDegree v = 0) := by
  refine ⟨?_, by simp, ?_, ?_⟩
  · simpa using g.nodes_nodup.filter _
  · intro v
    simp [inDegree_eq_zero_iff, chainTo_succ]
  · intro v
    simp [inDegree, List.countP_eq_length_filter]

theorem Progress.next {g : DiGraph ν κ} {k : ℕ} {done : List ν} {indegree : ν → ℕ}
    {generation : List ν} (h : Progress g k done indegree generation) :
    Progress g (k + 1) (done ++ generation) (g.nextGeneration indegree generation).indegree
      (g.nextGeneration indegree generation).ready := by
  have hvisited : Visited g done generation (g.nextGeneration indegree generation) := by
    have hstart : Visited g done [] ⟨indegree, []⟩ := ⟨by simpa using h.count, by simp, by simp⟩
    exact hstart.visitAll generation (by simpa using h.nodup)
  have hready := hvisited.mem_ready
  refine ⟨?_, h.mem_seen, ?_, hvisited.count⟩
  · refine List.nodup_append.mpr ⟨h.nodup, hvisited.nodup, ?_⟩
    intro v hv _ hv' heq
    subst heq
    obtain ⟨⟨u, hu, huv⟩, _⟩ := (hready v).mp hv'
    -- a parent in the current generation would make the depth of `v` exceed `k`
    have hdeep : ¬ ChainTo g.Adj k u :=
      fun hk => ((h.mem_seen v).mp hv).2 (hk.append huv rfl)
    exact (List.nodup_append.mp h.nodup).2.2 u
      ((h.mem_done u).mpr ⟨huv.mem_nodes.1, hdeep⟩) u hu rfl
  · intro v
    rw [List.mem_append]
    constructor
    · intro hcases
      rcases hcases with hv | hv
      · obtain ⟨hnode, hshort⟩ := (h.mem_seen v).mp hv
        exact ⟨hnode, fun hlong => hshort hlong.of_succ⟩
      · obtain ⟨⟨u, _, huv⟩, hall⟩ := (hready v).mp hv
        refine ⟨huv.mem_nodes.2, ?_⟩
        intro hexists
        rcases hexists with ⟨w, hwv, hw⟩
        exact ((h.mem_seen w).mp (hall w hwv)).2 hw
    · intro hexists
      rcases hexists with ⟨hnode, hshort⟩
      have hparents : ∀ u, g.Adj u v → u ∈ done ++ generation := by
        intro u huv
        exact (h.mem_seen u).mpr ⟨huv.mem_nodes.1, fun hu => hshort (hu.append huv rfl)⟩
      by_cases hk : ChainTo g.Adj (k + 1) v
      · obtain ⟨u, huv, hu⟩ := hk
        have hnotdone : u ∉ done := fun hdone => ((h.mem_done u).mp hdone).2 hu
        have hgen := (List.mem_append.mp (hparents u huv)).resolve_left hnotdone
        exact Or.inr ((hready v).mpr ⟨⟨u, hgen, huv⟩, hparents⟩)
      · exact Or.inl ((h.mem_seen v).mpr ⟨hnode, hk⟩)

theorem Progress.depth {g : DiGraph ν κ} {k : ℕ} {done : List ν} {indegree : ν → ℕ}
    {generation : List ν} (h : Progress g k done indegree generation) {v : ν}
    (hv : v ∈ generation) : DepthIs g.Adj v k := by
  obtain ⟨hnode, hshort⟩ := (h.mem_seen v).mp (List.mem_append_right _ hv)
  refine ⟨?_, hshort⟩
  by_contra hk
  have hdone := (h.mem_done v).mpr ⟨hnode, hk⟩
  exact (List.nodup_append.mp h.nodup).2.2 v hdone v hv rfl

/-- An empty generation leaves only nodes that end arbitrarily long chains. -/
theorem Progress.chainTo_of_empty {g : DiGraph ν κ} {k : ℕ} {done : List ν} {indegree : ν → ℕ}
    (h : Progress g k done indegree []) {v : ν} (hv : v ∉ done) (hnode : v ∈ g.nodes) (m : ℕ) :
    ChainTo g.Adj m v := by
  have hstep : ∀ u ∈ g.nodes, ChainTo g.Adj k u → ChainTo g.Adj (k + 1) u := by
    intro u hu hk
    by_contra hshort
    have hdone := (h.mem_seen u).mpr ⟨hu, hshort⟩
    rw [List.append_nil] at hdone
    exact ((h.mem_done u).mp hdone).2 hk
  suffices hall : ∀ j, ∀ u ∈ g.nodes, ChainTo g.Adj k u → ChainTo g.Adj (k + j) u by
    have hk : ChainTo g.Adj k v := by
      by_contra hshort
      exact hv ((h.mem_done v).mpr ⟨hnode, hshort⟩)
    exact (hall m v hnode hk).mono (by omega)
  intro j
  induction j with
  | zero => exact fun u _ hk => hk
  | succ j ih =>
      intro u hu hk
      obtain ⟨w, hwu, hw⟩ := hstep u hu hk
      exact (ih w hwu.mem_nodes.1 hw).append hwu (by omega)

/-! ## The whole run -/

theorem Progress.generationsFrom_nodup {g : DiGraph ν κ} {k : ℕ} {done : List ν}
    {indegree : ν → ℕ} {generation : List ν} (h : Progress g k done indegree generation)
    (fuel : ℕ) :
    (done ++ (g.generationsFrom fuel indegree generation).flatten).Nodup ∧
      ∀ v ∈ done ++ (g.generationsFrom fuel indegree generation).flatten, v ∈ g.nodes := by
  induction fuel generalizing k done indegree generation with
  | zero =>
      simp only [generationsFrom, List.flatten_nil, List.append_nil]
      exact ⟨(List.nodup_append.mp h.nodup).1, fun v hv => ((h.mem_done v).mp hv).1⟩
  | succ fuel ih =>
      cases generation with
      | nil =>
          simp only [generationsFrom, List.flatten_nil]
          exact ⟨h.nodup, fun v hv => ((h.mem_seen v).mp hv).1⟩
      | cons node rest =>
          have := ih h.next
          rw [List.append_assoc] at this
          exact this

theorem Progress.generationsFrom_depth {g : DiGraph ν κ} {k : ℕ} {done : List ν}
    {indegree : ν → ℕ} {generation : List ν} (h : Progress g k done indegree generation)
    (fuel : ℕ) {i : ℕ} {level : List ν}
    (hlevel : (g.generationsFrom fuel indegree generation)[i]? = some level) :
    ∀ v ∈ level, DepthIs g.Adj v (k + i) := by
  induction fuel generalizing k done indegree generation i with
  | zero => simp [generationsFrom] at hlevel
  | succ fuel ih =>
      cases generation with
      | nil => simp [generationsFrom] at hlevel
      | cons node rest =>
          cases i with
          | zero =>
              simp only [generationsFrom, List.getElem?_cons_zero, Option.some.injEq] at hlevel
              subst hlevel
              exact fun v hv => h.depth hv
          | succ i =>
              simp only [generationsFrom, List.getElem?_cons_succ] at hlevel
              intro v hv
              have := ih h.next hlevel v hv
              rwa [show k + 1 + i = k + (i + 1) by omega] at this

theorem Progress.generationsFrom_complete {g : DiGraph ν κ} {k : ℕ} {done : List ν}
    {indegree : ν → ℕ} {generation : List ν} (h : Progress g k done indegree generation)
    {fuel : ℕ} (hfuel : g.nodes.length ≤ done.length + fuel) {v : ν} (hnode : v ∈ g.nodes)
    {m : ℕ} (hm : ¬ ChainTo g.Adj m v) :
    v ∈ done ++ (g.generationsFrom fuel indegree generation).flatten := by
  induction fuel generalizing k done indegree generation with
  | zero =>
      have hsub : done ⊆ g.nodes := fun u hu => ((h.mem_done u).mp hu).1
      have hperm := (List.subperm_of_subset (List.nodup_append.mp h.nodup).1 hsub).perm_of_length_le
        (by simpa using hfuel)
      exact List.mem_append_left _ (hperm.mem_iff.mpr hnode)
  | succ fuel ih =>
      cases generation with
      | nil =>
          apply List.mem_append_left
          by_contra hv
          exact hm (h.chainTo_of_empty hv hnode m)
      | cons node rest =>
          have := ih h.next (by simp only [List.length_append, List.length_cons]; omega)
          simpa [generationsFrom, List.append_assoc] using this

theorem topologicalGenerations_spec {g : DiGraph ν κ} {gens : List (List ν)}
    (h : g.topologicalGenerations = some gens) : GenerationsSpec g gens := by
  simp only [topologicalGenerations] at h
  split at h
  · rename_i hall
    obtain rfl := Option.some.inj h
    obtain ⟨hnodup, hsub⟩ := (Progress.initial g).generationsFrom_nodup g.nodes.length
    refine ⟨(List.perm_ext_iff_of_nodup (by simpa using hnodup) g.nodes_nodup).mpr ?_, ?_⟩
    · intro v
      exact ⟨fun hv => hsub v (by simpa using hv),
        fun hv => by simpa using List.all_eq_true.mp hall v hv⟩
    · intro k level hlevel v hv
      simpa using (Progress.initial g).generationsFrom_depth _ hlevel v hv
  · cases h

/-- Kahn's algorithm covers the graph exactly when it is acyclic. -/
theorem exists_topologicalGenerations_iff (g : DiGraph ν κ) :
    (∃ gens, g.topologicalGenerations = some gens) ↔ Acyclic g.Adj := by
  constructor
  · intro hexists v hcycle
    rcases hexists with ⟨gens, h⟩
    have hspec := topologicalGenerations_spec h
    obtain ⟨u, huv, _⟩ := TransGen.tail'_iff.mp hcycle
    have hnode : v ∈ gens.flatten := by
      obtain ⟨w, _, hwv⟩ := TransGen.tail'_iff.mp hcycle
      exact hspec.perm.mem_iff.mpr hwv.mem_nodes.2
    obtain ⟨level, hlevel, hv⟩ := List.mem_flatten.mp hnode
    obtain ⟨k, hk⟩ := List.mem_iff_getElem?.mp hlevel
    exact (hspec.depth k level hk v hv).2 (chainTo_of_cycle hcycle _)
  · intro hacyclic
    refine ⟨_, if_pos (List.all_eq_true.mpr fun v hv => ?_)⟩
    have hfuel : g.nodes.length ≤ ([] : List ν).length + g.nodes.length := by simp
    simpa using (Progress.initial g).generationsFrom_complete hfuel hv
      (hacyclic.chainTo_bounded g.adj_src_mem v)

instance (g : DiGraph ν κ) : Decidable (Acyclic g.Adj) :=
  decidable_of_iff (g.topologicalGenerations.isSome = true) <| by
    rw [Option.isSome_iff_exists, exists_topologicalGenerations_iff]

end DiGraph
