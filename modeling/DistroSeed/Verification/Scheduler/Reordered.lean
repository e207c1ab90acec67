import DistroSeed.Library.SearchOrder
import DistroSeed.Verification.Scheduler.Precedence

/-! Task lists whose tasks have numbers already: what `create_task_graph` makes of such a list when
it numbers the tasks anew, told in the old numbers. -/

namespace DistroSeed

open Chains Relation SearchOrder

/-! ## Places -/

/-- The number that the task gets from its place in `order`. -/
def place (order : List Task) (id : ℕ) : ℕ := (order.map Task.id).idxOf id + 1

/-- The task with the number of its place in `order`. -/
def Task.placed (order : List Task) (task : Task) : Task := { task with id := place order task.id }

section Places

variable {order : List Task}

theorem place_inj {u v : ℕ} (hu : u ∈ order.map Task.id) : place order u = place order v ↔ u = v := by
  rw [place, place, Nat.succ_inj, List.idxOf_inj hu]

theorem place_getElem (h : (order.map Task.id).Nodup) {i : ℕ} (hi : i < order.length) :
    place order order[i].id = i + 1 := by
  have hidx := List.Nodup.idxOf_getElem h i (by simpa using hi)
  rw [List.getElem_map] at hidx
  rw [place, hidx]

theorem number_eq_map (h : (order.map Task.id).Nodup) :
    number order = order.map (Task.placed order) := by
  refine List.ext_getElem (by simp) fun i h₁ h₂ => ?_
  have hi : i < order.length := by simpa using h₁
  simp [number, Task.placed, place_getElem h hi]

@[simp] theorem number_number (tasks : List Task) : number (number tasks) = number tasks := by
  refine List.ext_getElem (by simp) fun i h₁ h₂ => ?_
  simp [number]

/-- Tasks that have the numbers of their places are not numbered anew. -/
theorem createTaskGraph_number (fuel : ℕ) (tasks : List Task) :
    createTaskGraph fuel (number tasks) = createTaskGraph fuel tasks := by
  simp only [createTaskGraph, declaredGraph, number_number]

theorem mem_ids_number (h : (order.map Task.id).Nodup) {v : ℕ} :
    v ∈ (number order).map Task.id ↔ ∃ u ∈ order.map Task.id, place order u = v := by
  rw [number_eq_map h, List.map_map]
  simp [Task.placed]

end Places

/-! ## The neighbours of a task -/

/-- The parents of task `v` in the order in which the loops over `order` add their edges. -/
def parentsIn (order : List Task) (v : ℕ) : List ℕ :=
  ((declaredPairs order).filter fun pair => pair.2 = v).map Prod.fst

/-- The children of task `u` in the order in which the loops over `order` add their edges. -/
def childrenIn (order : List Task) (u : ℕ) : List ℕ :=
  ((declaredPairs order).filter fun pair => pair.1 = u).map Prod.snd

/-- `auto_create_rdepends is True` for the task `id` of `order`. -/
def barrierOf (order : List Task) (id : ℕ) : Bool :=
  (order.find? fun task => task.id = id).any (·.autoCreateRdepends)

/-- The first child of `current` that the search for `leaf` accepts. -/
def acceptedIn (order : List Task) (leaf current : ℕ) : Option ℕ :=
  (childrenIn order current).find? fun child =>
    !(child = leaf || child ∈ parentsIn order leaf) && barrierOf order child

/-- The search for `leaf` meets `barrier` first when parents and children are taken in the order
of the list. -/
def MeetsFirst (order : List Task) (leaf barrier : ℕ) : Prop :=
  QueueSearch.FirstHit (parentsIn order) (acceptedIn order leaf) (parentsIn order leaf) barrier

section Neighbours

variable {order : List Task}

theorem mem_parentsIn {u v : ℕ} : u ∈ parentsIn order v ↔ (u, v) ∈ declaredPairs order := by
  simp [parentsIn]

theorem mem_childrenIn {u v : ℕ} : v ∈ childrenIn order u ↔ (u, v) ∈ declaredPairs order := by
  simp [childrenIn]

theorem mem_ids_of_declaredPairs {u v : ℕ} (h : (u, v) ∈ declaredPairs order) :
    u ∈ order.map Task.id ∧ v ∈ order.map Task.id := by
  obtain ⟨subtask, hsub, task, htask, rfl, rfl, _⟩ := mem_declaredPairs.mp h
  exact ⟨List.mem_map_of_mem hsub, List.mem_map_of_mem htask⟩

theorem MeetsFirst.mem_ids {leaf barrier : ℕ} (h : MeetsFirst order leaf barrier) :
    barrier ∈ order.map Task.id := by
  obtain ⟨_, _, hhit⟩ := h
  obtain ⟨current, _, hfound⟩ := List.exists_of_findSome?_eq_some hhit
  exact (mem_ids_of_declaredPairs (mem_childrenIn.mp (List.mem_of_find?_eq_some hfound))).2

theorem declaredPairs_number (h : (order.map Task.id).Nodup) :
    declaredPairs (number order) = (declaredPairs order).map (Prod.map (place order) (place order)) := by
  simp only [number_eq_map h, declaredPairs, List.flatMap_map, List.map_flatMap, List.filter_map,
    List.map_map]
  rfl

/-- The pairs at one end of which `v` stands, with what stands at the other end. -/
private theorem filter_declaredPairs_number (h : (order.map Task.id).Nodup) {v : ℕ}
    (hv : v ∈ order.map Task.id) {near far : ℕ × ℕ → ℕ}
    (hnear : ∀ pair, near (Prod.map (place order) (place order) pair) = place order (near pair))
    (hfar : ∀ pair, far (Prod.map (place order) (place order) pair) = place order (far pair)) :
    ((declaredPairs (number order)).filter fun pair => near pair = place order v).map far =
      (((declaredPairs order).filter fun pair => near pair = v).map far).map (place order) := by
  rw [declaredPairs_number h, List.filter_map, List.map_map, List.map_map]
  have hsame : (declaredPairs order).filter
      ((fun pair => decide (near pair = place order v)) ∘ Prod.map (place order) (place order)) =
        (declaredPairs order).filter fun pair => near pair = v := by
    apply List.filter_congr
    intro pair _
    rw [Function.comp_apply, hnear, decide_eq_decide, eq_comm, place_inj hv, eq_comm]
  rw [hsame]
  exact List.map_congr_left fun pair _ => hfar pair

theorem parentsIn_number (h : (order.map Task.id).Nodup) {v : ℕ} (hv : v ∈ order.map Task.id) :
    parentsIn (number order) (place order v) = (parentsIn order v).map (place order) :=
  filter_declaredPairs_number h hv (fun _ => rfl) fun _ => rfl

theorem childrenIn_number (h : (order.map Task.id).Nodup) {u : ℕ} (hu : u ∈ order.map Task.id) :
    childrenIn (number order) (place order u) = (childrenIn order u).map (place order) :=
  filter_declaredPairs_number h hu (fun _ => rfl) fun _ => rfl

theorem barrierOf_number (h : (order.map Task.id).Nodup) {v : ℕ} (hv : v ∈ order.map Task.id) :
    barrierOf (number order) (place order v) = barrierOf order v := by
  rw [barrierOf, number_eq_map h, List.find?_map, Option.any_map, barrierOf]
  have hsame : ((fun task : Task => decide (task.id = place order v)) ∘ Task.placed order) =
      fun task => decide (task.id = v) := by
    funext task
    rw [Function.comp_apply, decide_eq_decide, eq_comm, Task.placed, place_inj hv, eq_comm]
  rw [hsame]
  rfl

theorem acceptedIn_number (h : (order.map Task.id).Nodup) {leaf current : ℕ}
    (hleaf : leaf ∈ order.map Task.id) (hcurrent : current ∈ order.map Task.id) :
    acceptedIn (number order) (place order leaf) (place order current) =
      (acceptedIn order leaf current).map (place order) := by
  rw [acceptedIn, childrenIn_number h hcurrent, List.find?_map, acceptedIn]
  apply congrArg (Option.map (place order))
  rw [List.find?_eq_findSome?_guard, List.find?_eq_findSome?_guard]
  apply findSome?_congr
  intro child hchild
  have hmem : child ∈ order.map Task.id := (mem_ids_of_declaredPairs (mem_childrenIn.mp hchild)).2
  have hparent : place order child ∈ (parentsIn order leaf).map (place order) ↔
      child ∈ parentsIn order leaf := by
    rw [List.mem_map]
    constructor
    · intro hexists
      rcases hexists with ⟨parent, hparent, hplace⟩
      rwa [(place_inj hmem).mp hplace.symm]
    · intro hparent
      exact ⟨child, hparent, rfl⟩
  have hsame : (!(decide (place order child = place order leaf) ||
      decide (place order child ∈ parentsIn (number order) (place order leaf))) &&
        barrierOf (number order) (place order child)) =
      (!(decide (child = leaf) || decide (child ∈ parentsIn order leaf)) &&
        barrierOf order child) := by
    rw [barrierOf_number h hmem, parentsIn_number h hleaf, decide_eq_decide.mpr hparent,
      decide_eq_decide.mpr (place_inj hmem)]
  simp only [Option.guard, Function.comp_apply, hsame]

/-- The search in the declared graph is the search over the neighbours in list order. -/
theorem meetsFirst_number_iff (order : List Task) {leaf barrier : ℕ} :
    MeetsFirst (number order) leaf barrier ↔ (declared order).NearestBarrier leaf barrier := by
  obtain ⟨_, hnone⟩ := nodeGraph_spec order
  have hpairs : FindSame ℕ ((declared order).graph.edges.map Edge.ends)
      (declaredPairs (number order)) := by
    have := findSame_addEdgesFrom (β := ℕ) (nodeGraph (number order)) (declaredPairs (number order))
      EdgeLabel.declared
    rwa [hnone] at this
  have hparents : ∀ v, FindSame ℕ ((declared order).graph.predecessors v)
      (parentsIn (number order) v) := by
    intro v
    rw [predecessors_eq]
    exact (hpairs.filter _).map _
  have hchildren : ∀ u, FindSame ℕ ((declared order).graph.successors u)
      (childrenIn (number order) u) := by
    intro u
    rw [successors_eq]
    exact (hpairs.filter _).map _
  have haccepted : ∀ current, (declared order).barrierChild leaf current =
      acceptedIn (number order) leaf current := by
    intro current
    rw [TaskGraph.barrierChild, (hchildren current).find?_eq, acceptedIn]
    simp only [(hparents leaf).mem_iff]
    rfl
  have hrename : (declared order).NearestBarrier leaf barrier ↔
      ∃ hit, MeetsFirst (number order) leaf hit ∧ id hit = barrier := by
    apply firstHit_rename_iff id fun _ => True
    · simp
    · intro v _
      simpa using hparents v
    · intro v _
      simpa using haccepted v
    · simp
    · simpa using hparents leaf
  simpa using hrename.symm

/-- Renumbering by place leaves the first barrier as it is. -/
theorem nearestBarrier_place_iff (h : (order.map Task.id).Nodup) {leaf barrier' : ℕ}
    (hleaf : leaf ∈ order.map Task.id) :
    (declared order).NearestBarrier (place order leaf) barrier' ↔
      ∃ barrier, MeetsFirst order leaf barrier ∧ place order barrier = barrier' := by
  have hinside : ∀ v, ∀ u ∈ parentsIn order v, u ∈ order.map Task.id :=
    fun v u hu => (mem_ids_of_declaredPairs (mem_parentsIn.mp hu)).1
  rw [← meetsFirst_number_iff, MeetsFirst]
  apply firstHit_rename_iff (place order) fun v => v ∈ order.map Task.id
  · exact fun v _ => hinside v
  · intro v hv
    rw [parentsIn_number h hv]
    exact findSame_refl _
  · exact fun v hv => acceptedIn_number h hleaf hv
  · exact hinside leaf
  · rw [parentsIn_number h hleaf]
    exact findSame_refl _

end Neighbours

/-! ## Another order of the same tasks -/

theorem dependsOn_iff_mem_declaredPairs {tasks : List Task} {u v : ℕ} :
    DependsOn tasks u v ↔ (u, v) ∈ declaredPairs (number tasks) := mem_declaredPairs.symm

theorem isLeaf_declared_iff {tasks : List Task} {v : ℕ} : (declared tasks).isLeaf v ↔
    (∀ w, ¬ DependsOn tasks v w) ∧
      ∃ task ∈ number tasks, task.id = v ∧ task.autoCreateRdepends = false := by
  simp only [TaskGraph.isLeaf, Bool.and_eq_true, decide_eq_true_eq, DiGraph.outDegree_eq_zero_iff,
    adj_declared, Option.any_eq_true]
  apply and_congr_right
  intro _
  constructor
  · intro hexists
    rcases hexists with ⟨task, hdata, hauto⟩
    have hid := List.find?_some hdata
    exact ⟨task, List.mem_of_find?_eq_some hdata, by simpa using hid, by simpa using hauto⟩
  · intro hexists
    rcases hexists with ⟨task, htask, rfl, hauto⟩
    exact ⟨task, data_declared htask, by simp [hauto]⟩

/-- `order` lists the numbered tasks, perhaps in another order. -/
def Reordered (tasks order : List Task) : Prop := order.Perm (number tasks)

section Perm

variable {tasks order : List Task}

theorem Reordered.nodup (h : Reordered tasks order) : (order.map Task.id).Nodup :=
  (List.Perm.map Task.id h).nodup_iff.mpr (nodup_map_id_number tasks)

theorem Reordered.mem_ids (h : Reordered tasks order) {v : ℕ} :
    v ∈ order.map Task.id ↔ v ∈ (declared tasks).graph.nodes := by
  rw [nodes_declared]
  exact (List.Perm.map Task.id h).mem_iff

theorem Reordered.mem_nodes (h : Reordered tasks order) {v' : ℕ} : v' ∈ (declared order).graph.nodes ↔
    ∃ v ∈ (declared tasks).graph.nodes, place order v = v' := by
  rw [nodes_declared, mem_ids_number h.nodup]
  simp only [h.mem_ids]

theorem Reordered.mem_declaredPairs_iff (h : Reordered tasks order) {u v : ℕ} :
    (u, v) ∈ declaredPairs order ↔ DependsOn tasks u v := by
  rw [dependsOn_iff_mem_declaredPairs, mem_declaredPairs, mem_declaredPairs]
  simp only [List.Perm.mem_iff h]

theorem Reordered.satisfied (h : Reordered tasks order) : Satisfied order ↔ Satisfied tasks := by
  have hnumber : Satisfied (number tasks) ↔ Satisfied tasks := satisfied_number
  rw [← hnumber]
  simp only [Satisfied, List.Perm.mem_iff h]

theorem Reordered.exists_of_dependsOn (h : Reordered tasks order) {u' v' : ℕ} (hdep : DependsOn order u' v') :
    ∃ u v, DependsOn tasks u v ∧ place order u = u' ∧ place order v = v' := by
  rw [dependsOn_iff_mem_declaredPairs, declaredPairs_number h.nodup] at hdep
  obtain ⟨pair, hpair, heq⟩ := List.mem_map.mp hdep
  obtain ⟨hfst, hsnd⟩ := Prod.mk.inj heq
  exact ⟨pair.1, pair.2, h.mem_declaredPairs_iff.mp hpair, hfst, hsnd⟩

/-- The declared dependencies of the two lists are copies of each other. -/
theorem Reordered.carries (h : Reordered tasks order) :
    Carries (DependsOn tasks) (DependsOn order) (place order)
      (· ∈ (declared tasks).graph.nodes) where
  mem huv := huv.mem_nodes
  inj hu heq := (place_inj (h.mem_ids.mpr hu)).mp heq
  step huv := by
    rw [dependsOn_iff_mem_declaredPairs, declaredPairs_number h.nodup, List.mem_map]
    exact ⟨_, h.mem_declaredPairs_iff.mpr huv, rfl⟩
  lift hdep := h.exists_of_dependsOn hdep

/-- The task of a number keeps what does not depend on the number. -/
theorem Reordered.exists_task_iff (h : Reordered tasks order) {P : Task → Prop} {v : ℕ}
    (hv : v ∈ order.map Task.id) (hP : ∀ task, P (Task.placed order task) ↔ P task) :
    (∃ task ∈ number order, task.id = place order v ∧ P task) ↔
      ∃ task ∈ number tasks, task.id = v ∧ P task := by
  rw [number_eq_map h.nodup]
  simp only [List.mem_map, exists_exists_and_eq_and, List.Perm.mem_iff h, hP]
  apply exists_congr
  intro task
  apply and_congr_right
  intro _
  rw [Task.placed, eq_comm, place_inj hv, eq_comm]

theorem Reordered.isLeaf_iff (h : Reordered tasks order) {v : ℕ} (hv : v ∈ (declared tasks).graph.nodes) :
    (declared order).isLeaf (place order v) ↔ (declared tasks).isLeaf v := by
  have hids := h.mem_ids.mpr hv
  rw [isLeaf_declared_iff, isLeaf_declared_iff]
  apply and_congr
  · constructor
    · intro hnone w hvw
      exact hnone _ (h.carries.step hvw)
    · intro hnone w' hvw
      obtain ⟨u, w, huw, hu, _⟩ := h.exists_of_dependsOn hvw
      rw [eq_comm, place_inj hids] at hu
      exact hnone w (hu ▸ huw)
  · exact h.exists_task_iff hids fun _ => Iff.rfl

/-- The automatic edges go to the barriers that the searches meet first in the new order. -/
theorem Reordered.autoEdge_iff (h : Reordered tasks order) {u b' : ℕ} (hu : u ∈ (declared tasks).graph.nodes) :
    (declared order).AutoEdge (place order u) b' ↔
      (declared tasks).isLeaf u ∧ ∃ b, MeetsFirst order u b ∧ place order b = b' := by
  have hids := h.mem_ids.mpr hu
  rw [TaskGraph.AutoEdge, h.isLeaf_iff hu,
    nearestBarrier_place_iff h.nodup hids]
  exact and_iff_right (h.mem_nodes.mpr ⟨u, hu, rfl⟩)

/-! ### The same barriers -/

/-- For every task without dependents, the barrier that its search meets first is the same whether
parents and children are taken in the order of the list or in that of `order`. -/
def BarriersKept (tasks order : List Task) : Prop :=
  ∀ leaf ∈ (declared tasks).graph.nodes, (declared tasks).isLeaf leaf →
    ∀ barrier, MeetsFirst order leaf barrier ↔ MeetsFirst (number tasks) leaf barrier

theorem Reordered.autoEdge_place (h : Reordered tasks order) (hkept : BarriersKept tasks order)
    {u b : ℕ} (hauto : (declared tasks).AutoEdge u b) :
    (declared order).AutoEdge (place order u) (place order b) := by
  obtain ⟨hmem, hleaf, hnear⟩ := hauto
  refine (h.autoEdge_iff hmem).mpr ⟨hleaf, b, ?_, rfl⟩
  exact (hkept u hmem hleaf b).mpr ((meetsFirst_number_iff tasks).mpr hnear)

theorem Reordered.exists_of_autoEdge (h : Reordered tasks order) (hkept : BarriersKept tasks order)
    {u' b' : ℕ} (hauto : (declared order).AutoEdge u' b') :
    ∃ u b, (declared tasks).AutoEdge u b ∧ place order u = u' ∧ place order b = b' := by
  obtain ⟨u, hu, rfl⟩ := h.mem_nodes.mp hauto.1
  obtain ⟨hleaf, b, hb, hplace⟩ := (h.autoEdge_iff hu).mp hauto
  have hnear := (meetsFirst_number_iff tasks).mp ((hkept u hu hleaf b).mp hb)
  exact ⟨u, b, ⟨hu, hleaf, hnear⟩, rfl, hplace⟩

/-- With the same barriers the finished graphs are copies of each other as well. -/
theorem Reordered.carries_taskEdge (h : Reordered tasks order) (hkept : BarriersKept tasks order) :
    Carries (TaskEdge tasks) (TaskEdge order) (place order)
      (· ∈ (declared tasks).graph.nodes) where
  mem huv := huv.elim (fun hdep => hdep.mem_nodes) fun hauto => AutoEdge.mem_nodes hauto
  inj := h.carries.inj
  step huv := huv.imp h.carries.step (h.autoEdge_place hkept)
  lift huv := by
    rcases huv with hdep | hauto
    · obtain ⟨u, v, huv, hplace⟩ := h.exists_of_dependsOn hdep
      exact ⟨u, v, Or.inl huv, hplace⟩
    · obtain ⟨u, b, hub, hplace⟩ := h.exists_of_autoEdge hkept hauto
      exact ⟨u, b, Or.inr hub, hplace⟩

/-! ### Searches that end -/

theorem Reordered.isBarrier_iff (h : Reordered tasks order) {v : ℕ}
    (hv : v ∈ (declared tasks).graph.nodes) :
    (declared order).isBarrier (place order v) ↔ (declared tasks).isBarrier v := by
  rw [isBarrier_declared_iff, isBarrier_declared_iff]
  exact h.exists_task_iff (h.mem_ids.mpr hv) fun _ => Iff.rfl

theorem Reordered.accepts_iff (h : Reordered tasks order) {node current child : ℕ}
    (hcurrent : current ∈ (declared tasks).graph.nodes)
    (hchild : child ∈ (declared tasks).graph.nodes) :
    (declared order).Accepts (place order node) (place order current) (place order child) ↔
      (declared tasks).Accepts node current child := by
  simp only [TaskGraph.Accepts, adj_declared, h.carries.step_iff hcurrent,
    h.carries.step_iff hchild, h.isBarrier_iff hchild, ne_eq, place_inj (h.mem_ids.mpr hchild)]

/-- Whether a search ends does not depend on the order of the list. -/
theorem Reordered.searchEnds_iff (h : Reordered tasks order) {node : ℕ}
    (hnode : node ∈ (declared tasks).graph.nodes) :
    (declared order).SearchEnds (place order node) ↔ (declared tasks).SearchEnds node := by
  have hsource : ∀ {w' v' : ℕ}, TransGen (DependsOn order) w' v' →
      ∃ w ∈ (declared tasks).graph.nodes, place order w = w' := by
    intro w' v' hpath
    obtain ⟨c, hdep, _⟩ := TransGen.head'_iff.mp hpath
    obtain ⟨u, _, huv, hplace, _⟩ := h.exists_of_dependsOn hdep
    exact ⟨u, huv.mem_nodes.1, hplace⟩
  simp only [TaskGraph.SearchEnds, adj_declared_eq]
  apply or_congr
  · constructor
    · intro hexists
      rcases hexists with ⟨current', child', hpath, haccepts⟩
      obtain ⟨current, hcurrent, rfl⟩ := hsource hpath
      obtain ⟨u, child, huv, _, rfl⟩ := h.exists_of_dependsOn (adj_declared.mp haccepts.1)
      exact ⟨current, child, (h.carries.transGen_iff hnode).mp hpath,
        (h.accepts_iff hcurrent huv.mem_nodes.2).mp haccepts⟩
    · intro hexists
      rcases hexists with ⟨current, child, hpath, haccepts⟩
      have hadj := haccepts.1.mem_nodes
      exact ⟨place order current, place order child, (h.carries.transGen_iff hnode).mpr hpath,
        (h.accepts_iff hadj.1 hadj.2).mpr haccepts⟩
  · constructor
    · intro hnone w hpath hcycle
      have hw : w ∈ (declared tasks).graph.nodes := by
        obtain ⟨c, hdep, _⟩ := TransGen.head'_iff.mp hpath
        exact hdep.mem_nodes.1
      exact hnone (place order w) ((h.carries.transGen_iff hnode).mpr hpath)
        ((h.carries.transGen_iff hw).mpr hcycle)
    · intro hnone w' hpath hcycle
      obtain ⟨w, hw, rfl⟩ := hsource hpath
      exact hnone w ((h.carries.transGen_iff hnode).mp hpath) ((h.carries.transGen_iff hw).mp hcycle)

/-- Whether all searches end does not depend on the order of the list either. -/
theorem Reordered.searchesEnd_iff (h : Reordered tasks order) :
    (∀ leaf ∈ (declared order).graph.nodes, (declared order).isLeaf leaf →
      (declared order).SearchEnds leaf) ↔
      ∀ leaf ∈ (declared tasks).graph.nodes, (declared tasks).isLeaf leaf →
        (declared tasks).SearchEnds leaf := by
  constructor
  · intro hends leaf hmem hleaf
    exact (h.searchEnds_iff hmem).mp (hends _ (h.mem_nodes.mpr ⟨leaf, hmem, rfl⟩)
      ((h.isLeaf_iff hmem).mpr hleaf))
  · intro hends leaf' hmem hleaf
    obtain ⟨leaf, hnode, rfl⟩ := h.mem_nodes.mp hmem
    exact (h.searchEnds_iff hnode).mpr (hends leaf hnode ((h.isLeaf_iff hnode).mp hleaf))

end Perm

/-! ## Lists that are permutations of each other -/

/-- The task as it is before `create_task_graph` numbers it. -/
def Task.unnumbered (task : Task) : Task := { task with id := 0 }

theorem map_unnumbered_number (tasks : List Task) :
    (number tasks).map Task.unnumbered = tasks.map Task.unnumbered := by
  refine List.ext_getElem (by simp) fun i h₁ h₂ => ?_
  simp [number, Task.unnumbered]

theorem number_eq_of_unnumbered {tasks tasks' : List Task}
    (h : tasks.map Task.unnumbered = tasks'.map Task.unnumbered) : number tasks = number tasks' := by
  have hnumber : ∀ l : List Task,
      number l = (l.map Task.unnumbered).mapIdx fun i task => { task with id := i + 1 } := by
    intro l
    refine List.ext_getElem (by simp) fun i h₁ h₂ => ?_
    simp [number, Task.unnumbered]
  rw [hnumber, hnumber, h]

/-- A permutation of a list is another order of its numbered tasks. -/
theorem exists_reordered {tasks tasks' : List Task} (h : tasks'.Perm tasks) :
    ∃ order, Reordered tasks order ∧ number order = number tasks' := by
  have hperm : (tasks'.map Task.unnumbered).Perm ((number tasks).map Task.unnumbered) := by
    rw [map_unnumbered_number]
    exact h.map _
  have hfrom : List.Forall₂ (fun t task => t = Task.unnumbered task)
      ((number tasks).map Task.unnumbered) (number tasks) := by
    rw [List.forall₂_map_left_iff]
    exact List.forall₂_same.mpr fun _ _ => rfl
  obtain ⟨order, horder, hsame⟩ := List.perm_comp_forall₂ hperm hfrom
  refine ⟨order, hsame, number_eq_of_unnumbered ?_⟩
  rw [← List.forall₂_map_right_iff, List.forall₂_eq_eq_eq] at horder
  exact horder.symm

theorem declared_congr {tasks tasks' : List Task} (h : number tasks = number tasks') :
    declared tasks = declared tasks' := by
  simp only [declared, h]

end DistroSeed
