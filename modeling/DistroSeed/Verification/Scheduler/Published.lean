import DistroSeed.Verification.Scheduler.BarrierChoice
import DistroSeed.Verification.Scheduler.BarrierLaw
import Mathlib.Tactic.Tauto

/-! `write_tasks_mmd` builds the graph again, from the list that `sort` returned. -/

namespace DistroSeed

open Chains Relation

/-! ## The labels of the edges -/

theorem mem_edges_declared {tasks : List Task} {e : Edge ℕ EdgeLabel} :
    e ∈ (declared tasks).graph.edges ↔ DependsOn tasks e.src e.dst ∧ e.label = .declared := by
  obtain ⟨_, hnone⟩ := nodeGraph_spec tasks
  rw [declared, DiGraph.mem_edges_addEdgesFrom, hnone, dependsOn_iff_mem_declaredPairs]
  simp [Edge.ends]

/-- An edge of the finished graph: a declared dependency or an automatic edge, labelled so. -/
def LabelledEdge (tasks : List Task) (e : Edge ℕ EdgeLabel) : Prop :=
  (DependsOn tasks e.src e.dst ∧ e.label = .declared) ∨
    ((declared tasks).AutoEdge e.src e.dst ∧ e.label = .autoAddedDep)

theorem LabelledEdge.mem_nodes {tasks : List Task} {e : Edge ℕ EdgeLabel}
    (h : LabelledEdge tasks e) :
    e.src ∈ (declared tasks).graph.nodes ∧ e.dst ∈ (declared tasks).graph.nodes := by
  rcases h with ⟨hdep, _⟩ | ⟨hauto, _⟩
  · exact hdep.mem_nodes
  · exact AutoEdge.mem_nodes hauto

theorem LabelledEdge.taskEdge {tasks : List Task} {e : Edge ℕ EdgeLabel}
    (h : LabelledEdge tasks e) : TaskEdge tasks e.src e.dst := by
  rcases h with ⟨hdep, _⟩ | ⟨hauto, _⟩
  · exact Or.inl hdep
  · exact Or.inr hauto

theorem mem_edges_createTaskGraph {fuel : ℕ} {tasks : List Task} {g : TaskGraph}
    (h : createTaskGraph fuel tasks = .returned g) {e : Edge ℕ EdgeLabel} :
    e ∈ g.graph.edges ↔ LabelledEdge tasks e := by
  have hsat := (createTaskGraph_spec h).satisfied
  obtain ⟨g₀, hg₀, h⟩ := Outcome.bind_eq_returned.mp h
  obtain ⟨edges, hedges, h⟩ := Outcome.bind_eq_returned.mp h
  obtain rfl := Outcome.returned.inj h
  rw [declaredGraph_of_satisfied hsat] at hg₀
  obtain rfl := Outcome.returned.inj hg₀
  have hauto : e.ends ∈ edges ↔ (declared tasks).AutoEdge e.src e.dst := edgesToAdd_spec hedges _ _
  rw [TaskGraph.addEdges, DiGraph.mem_edges_addEdgesFrom, mem_edges_declared, hauto, LabelledEdge]
  apply or_congr_left
  -- a task with an automatic edge has no dependents
  have hdisjoint : DependsOn tasks e.src e.dst → ¬ (declared tasks).AutoEdge e.src e.dst := by
    intro hdep hedge
    exact (isLeaf_declared_iff.mp hedge.2.1).1 _ hdep
  tauto

theorem TaskGraph.mem_edges {g : TaskGraph} {e : Edge ℕ EdgeLabel} :
    e ∈ g.edges ↔ e ∈ g.graph.edges := by
  simp only [TaskGraph.edges, List.mem_flatMap, List.mem_filter, decide_eq_true_eq]
  constructor
  · intro hexists
    rcases hexists with ⟨_, _, he, _⟩
    exact he
  · intro he
    exact ⟨e.src, (g.graph.ends_mem e he).1, he, rfl⟩

/-! ## What is published -/

/-- An edge between the old numbers `ids`, told in the places that the tasks have in `ids`. -/
def renumberEdge (ids : List ℕ) (e : Edge ℕ EdgeLabel) : Edge ℕ EdgeLabel :=
  { e with src := ids.idxOf e.src + 1, dst := ids.idxOf e.dst + 1 }

/-- `write_tasks_mmd` succeeds on `result`, leaves the numbers of the tasks alone and draws exactly
the edges of `g`, all of them forward. -/
def PublishedIsScheduled (nx : SimpleCycles) (g : TaskGraph) (ids : List ℕ) (result : List Task) :
    Prop :=
  ∃ fuel mmd, writeTasksMmd nx fuel result = .returned mmd ∧ mmd.tasks = result ∧
    (∀ e, e ∈ mmd.drawn ↔ ∃ edge ∈ g.graph.edges, renumberEdge ids edge = e) ∧
    ∀ e ∈ mmd.drawn, e.src < e.dst

theorem writeTasksMmd_eq_returned {nx : SimpleCycles} {fuel : ℕ} {tasks : List Task}
    {mmd : TasksMmd} (h : writeTasksMmd nx fuel tasks = .returned mmd) :
    ∃ g, createTaskGraph fuel tasks = .returned g ∧ Acyclic g.graph.Adj ∧
      mmd.tasks = number tasks ∧ mmd.drawn = g.edges := by
  obtain ⟨g, hg, h⟩ := Outcome.bind_eq_returned.mp h
  obtain ⟨_, hdetect, h⟩ := Outcome.bind_eq_returned.mp h
  obtain rfl := Outcome.returned.inj h
  refine ⟨g, hg, ?_, (createTaskGraph_spec hg).tasks_eq, rfl⟩
  rcases detectCycles_eq nx g with ⟨hacyclic, _⟩ | ⟨_, hraised⟩
  · exact hacyclic
  · rw [hraised] at hdetect
    cases hdetect

theorem writeTasksMmd_of_acyclic (nx : SimpleCycles) {fuel : ℕ} {tasks : List Task} {g : TaskGraph}
    (hg : createTaskGraph fuel tasks = .returned g) (hacyclic : Acyclic g.graph.Adj) :
    ∃ mmd, writeTasksMmd nx fuel tasks = .returned mmd := by
  rcases detectCycles_eq nx g with ⟨_, hdetect⟩ | ⟨hcyclic, _⟩
  · exact ⟨_, by rw [writeTasksMmd, hg, Outcome.returned_bind, hdetect, Outcome.returned_bind]; rfl⟩
  · exact absurd hacyclic hcyclic

/-! ## The two graphs -/

section Rebuilt

variable {nx : SimpleCycles} {fuel : ℕ} {tasks result reordered : List Task} {g : TaskGraph}
  {gens : List (List ℕ)} {ids : List ℕ}

theorem Sorted.renumberEdge_eq (h : Sorted nx fuel tasks result g gens ids reordered)
    (e : Edge ℕ EdgeLabel) :
    renumberEdge ids e = ⟨place reordered e.src, place reordered e.dst, e.label⟩ := by
  rw [renumberEdge, ← h.ids_eq]
  rfl

/-- If the rebuilt graph has the edges of `sort`, every search meets the same barrier. -/
theorem Sorted.barriersKept (h : Sorted nx fuel tasks result g gens ids reordered)
    (hedges : ∀ e, LabelledEdge reordered e ↔
      ∃ edge, LabelledEdge tasks edge ∧ renumberEdge ids edge = e) :
    BarriersKept tasks reordered := by
  have hre : Reordered tasks reordered := h.perm
  intro leaf hmem hleaf barrier
  have hnew : MeetsFirst reordered leaf barrier ↔ LabelledEdge reordered
      ⟨place reordered leaf, place reordered barrier, .autoAddedDep⟩ := by
    simp only [LabelledEdge, reduceCtorEq, and_false, and_true, false_or, hre.autoEdge_iff hmem,
      hleaf, true_and]
    constructor
    · intro hfirst
      exact ⟨barrier, hfirst, rfl⟩
    · intro hexists
      rcases hexists with ⟨b, hb, heq⟩
      rwa [hre.carries.inj (hre.mem_ids.mp hb.mem_ids) heq] at hb
  have hold : MeetsFirst (number tasks) leaf barrier ↔ (declared tasks).AutoEdge leaf barrier := by
    rw [meetsFirst_number_iff, TaskGraph.AutoEdge]
    simp only [hmem, hleaf, true_and]
  rw [hnew, hedges, hold]
  constructor
  · intro hexists
    rcases hexists with ⟨edge, hedge, heq⟩
    rw [h.renumberEdge_eq, Edge.mk.injEq] at heq
    obtain rfl := hre.carries.inj hedge.mem_nodes.1 heq.1
    obtain rfl := hre.carries.inj hedge.mem_nodes.2 heq.2.1
    rcases hedge with ⟨_, hlabel⟩ | ⟨hauto, _⟩
    · rw [heq.2.2] at hlabel
      cases hlabel
    · exact hauto
  · intro hauto
    exact ⟨⟨leaf, barrier, .autoAddedDep⟩, Or.inr ⟨hauto, rfl⟩, h.renumberEdge_eq _⟩

/-- If every search meets the same barrier, the rebuilt graph has the edges of `sort`. -/
theorem Sorted.labelledEdge_of_kept (h : Sorted nx fuel tasks result g gens ids reordered)
    (hkept : BarriersKept tasks reordered) (e : Edge ℕ EdgeLabel) :
    LabelledEdge reordered e ↔ ∃ edge, LabelledEdge tasks edge ∧ renumberEdge ids edge = e := by
  have hre : Reordered tasks reordered := h.perm
  constructor
  · intro hedge
    rcases hedge with ⟨hdep, hlabel⟩ | ⟨hauto, hlabel⟩
    · obtain ⟨u, v, huv, hu, hv⟩ := hre.exists_of_dependsOn hdep
      refine ⟨⟨u, v, .declared⟩, Or.inl ⟨huv, rfl⟩, ?_⟩
      rw [h.renumberEdge_eq, hu, hv, ← hlabel]
    · obtain ⟨u, b, hub, hu, hb⟩ := hre.exists_of_autoEdge hkept hauto
      refine ⟨⟨u, b, .autoAddedDep⟩, Or.inr ⟨hub, rfl⟩, ?_⟩
      rw [h.renumberEdge_eq, hu, hb, ← hlabel]
  · intro hexists
    rcases hexists with ⟨edge, hedge, rfl⟩
    rw [h.renumberEdge_eq]
    rcases hedge with ⟨hdep, hlabel⟩ | ⟨hauto, hlabel⟩
    · exact Or.inl ⟨hre.carries.step hdep, hlabel⟩
    · exact Or.inr ⟨hre.autoEdge_place hkept hauto, hlabel⟩

/-- The edges of the rebuilt graph are those of `sort` exactly if the nearest barriers of the list
and of the schedule agree. -/
theorem Sorted.labelledEdge_iff (h : Sorted nx fuel tasks result g gens ids reordered) :
    (∀ e, LabelledEdge reordered e ↔
      ∃ edge, LabelledEdge tasks edge ∧ renumberEdge ids edge = e) ↔
      NearestBarriersAgree tasks (ComesBefore tasks) := by
  have hre : Reordered tasks reordered := h.perm
  rw [← hre.barriersKept_iff ComesBefore.asymm (h.ids_eq ▸ h.pairwise_comesBefore)]
  exact ⟨h.barriersKept, h.labelledEdge_of_kept⟩

/-- An edge of `sort` goes forward in the places of the schedule. -/
theorem Sorted.renumberEdge_forward (h : Sorted nx fuel tasks result g gens ids reordered)
    {e : Edge ℕ EdgeLabel} (he : LabelledEdge tasks e) :
    (renumberEdge ids e).src < (renumberEdge ids e).dst :=
  Nat.succ_lt_succ (h.path_forward (.single he.taskEdge))

/-- On the schedule the graph can always be built: the declared dependencies have no cycle, so
every search ends. -/
theorem Sorted.exists_createTaskGraph (h : Sorted nx fuel tasks result g gens ids reordered) :
    ∃ fuel' g', createTaskGraph fuel' reordered = .returned g' := by
  have hre : Reordered tasks reordered := h.perm
  have hsat : Satisfied reordered := hre.satisfied.mpr (createTaskGraph_spec h.graph).satisfied
  have hacyclic : Acyclic (DependsOn reordered) := by
    apply acyclic_of_rank id
    intro u' v' hdep
    obtain ⟨u, v, huv, rfl, rfl⟩ := hre.exists_of_dependsOn hdep
    rw [place, place, h.ids_eq]
    exact Nat.succ_lt_succ (h.path_forward (.single (Or.inl huv)))
  obtain ⟨fuel', hended⟩ := (createTaskGraph_ends_iff reordered).mpr fun _ leaf _ _ =>
    searchEnds_of_acyclic (by rwa [adj_declared_eq]) leaf
  refine ⟨fuel', ?_⟩
  cases hg : createTaskGraph fuel' reordered with
  | running => exact absurd hg hended
  | raised e => exact absurd hsat (createTaskGraph_eq_raised_iff.mp ⟨e, hg⟩)
  | returned g' => exact ⟨g', rfl⟩

end Rebuilt

/-- The graph that `write_tasks_mmd` publishes for the list that `sort` returns is the scheduled
one exactly if, for every task without dependents, the nearest barrier that is first by the places
in the list is also the first one by the sort keys: depth in the task graph, config, last longest
chain. -/
theorem sort_published_iff {nx : SimpleCycles} {fuel : ℕ} {tasks result : List Task}
    (h : sort nx fuel tasks = .returned result) :
    ∃ g ids reordered, createTaskGraph fuel tasks = .returned g ∧
      sortedIds nx fuel tasks = .returned ids ∧ Renumbered tasks ids reordered result ∧
      (PublishedIsScheduled nx g ids result ↔ NearestBarriersAgree tasks (ComesBefore tasks)) := by
  obtain ⟨g, gens, ids, reordered, hsorted⟩ := sort_eq_returned h
  refine ⟨g, ids, reordered, hsorted.graph, hsorted.sortedIds, hsorted.renumbered, ?_⟩
  rw [← hsorted.labelledEdge_iff, hsorted.result_eq, PublishedIsScheduled]
  constructor
  · intro hexists e
    rcases hexists with ⟨fuel', mmd, hmmd, _, hdrawn, _⟩
    obtain ⟨g', hg', _, _, hedges⟩ := writeTasksMmd_eq_returned hmmd
    rw [createTaskGraph_number] at hg'
    rw [← mem_edges_createTaskGraph hg', ← TaskGraph.mem_edges, ← hedges, hdrawn]
    simp only [mem_edges_createTaskGraph hsorted.graph]
  · intro hsame
    obtain ⟨fuel', g', hg'⟩ := hsorted.exists_createTaskGraph
    have hforward : ∀ e, LabelledEdge reordered e → e.src < e.dst := by
      intro e he
      obtain ⟨edge, hedge, rfl⟩ := (hsame e).mp he
      exact hsorted.renumberEdge_forward hedge
    have hacyclic : Acyclic g'.graph.Adj := by
      apply acyclic_of_rank id
      intro u v huv
      obtain ⟨e, he, hends⟩ := List.mem_map.mp huv
      obtain ⟨rfl, rfl⟩ := Prod.mk.inj hends
      exact hforward e ((mem_edges_createTaskGraph hg').mp he)
    rw [← createTaskGraph_number] at hg'
    obtain ⟨mmd, hmmd⟩ := writeTasksMmd_of_acyclic nx hg' hacyclic
    obtain ⟨g'', hg'', _, htasks, hedges⟩ := writeTasksMmd_eq_returned hmmd
    rw [createTaskGraph_number] at hg''
    have hdrawn : ∀ e, e ∈ mmd.drawn ↔ LabelledEdge reordered e := by
      intro e
      rw [hedges, TaskGraph.mem_edges, mem_edges_createTaskGraph hg'']
    refine ⟨fuel', mmd, hmmd, by rw [htasks, number_number], fun e => ?_, fun e he => ?_⟩
    · rw [hdrawn, hsame]
      simp only [mem_edges_createTaskGraph hsorted.graph]
    · exact hforward e ((hdrawn e).mp he)

theorem sort_published_iff_libraryTasks :
    ∃ g ids reordered, createTaskGraph 20 libraryTasks = .returned g ∧
      sortedIds wholeGraphCycles 20 libraryTasks = .returned ids ∧
      Renumbered libraryTasks ids reordered librarySchedule ∧
      (PublishedIsScheduled wholeGraphCycles g ids librarySchedule ↔
        NearestBarriersAgree libraryTasks (ComesBefore libraryTasks)) :=
  sort_published_iff sort_libraryTasks

/-- The second barrier, then the leaf and the first barrier. -/
def twoBarrierSchedule : List Task := number
  (twoBarrierTasks.take 1 ++ twoBarrierTasks.drop 2 ++ (twoBarrierTasks.drop 1).take 1)

/-- `sort` holds the leaf back for the first barrier of the list, and `write_tasks_mmd` draws an
edge to the first one of the schedule, which runs before the leaf. -/
theorem published_fails_for_twoBarrierTasks :
    sort wholeGraphCycles 20 twoBarrierTasks = .returned twoBarrierSchedule ∧
      LabelledEdge twoBarrierTasks ⟨4, 2, .autoAddedDep⟩ ∧
      LabelledEdge twoBarrierSchedule ⟨3, 2, .autoAddedDep⟩ ∧
      ∀ nx g ids, ¬ PublishedIsScheduled nx g ids twoBarrierSchedule := by
  have hsort : sort wholeGraphCycles 20 twoBarrierTasks = .returned twoBarrierSchedule := by
    decide +kernel
  have hedge : ∀ {tasks : List Task} {e : Edge ℕ EdgeLabel},
      (∃ g, createTaskGraph 20 tasks = .returned g ∧ e ∈ g.graph.edges) → LabelledEdge tasks e := by
    intro tasks e hexists
    rcases hexists with ⟨g, hg, he⟩
    exact (mem_edges_createTaskGraph hg).mp he
  have hfirst : LabelledEdge twoBarrierTasks ⟨4, 2, .autoAddedDep⟩ :=
    hedge ⟨_, rfl, by decide +kernel⟩
  have hsecond : LabelledEdge twoBarrierSchedule ⟨3, 2, .autoAddedDep⟩ :=
    hedge ⟨_, rfl, by decide +kernel⟩
  refine ⟨hsort, hfirst, hsecond, fun nx g ids hexists => ?_⟩
  rcases hexists with ⟨fuel, mmd, hmmd, _, _, hforward⟩
  obtain ⟨g', hg', _, _, hedges⟩ := writeTasksMmd_eq_returned hmmd
  have hdrawn : ⟨3, 2, .autoAddedDep⟩ ∈ mmd.drawn := by
    rw [hedges, TaskGraph.mem_edges, mem_edges_createTaskGraph hg']
    exact hsecond
  exact absurd (hforward _ hdrawn) (by decide)

end DistroSeed
