import DistroSeed.Verification.Scheduler.NearestBarrier

/-! The order that `sort` returns: by depth in the task graph, then by config, then
by the turn in which Kahn's queue reached the tasks. -/

namespace DistroSeed

open Chains KeySort Relation

/-! ## Sorting one generation -/

/-- The config of a task id, as `get_task_by_id` finds it. -/
def configOf (tasks : List Task) (id : ℕ) : String :=
  ((tasks.find? fun task => task.id = id).map Task.config).getD ""

theorem configOf_number {tasks : List Task} {task : Task} (h : task ∈ number tasks) :
    configOf (number tasks) task.id = task.config := by
  rw [configOf, find?_number h]
  rfl

theorem sortGeneration_eq {generation : List ℕ} {tasks : List Task}
    (h : ∀ id ∈ generation, id ∈ tasks.map Task.id) :
    sortGeneration generation tasks = .returned (sortedBy (configOf tasks) generation) := by
  have hkeyed : ∀ id ∈ generation, (do
      let task ← getTaskById tasks id
      pure (id, task.config)) = (.returned (id, configOf tasks id) : Outcome SortError _) := by
    intro id hid
    obtain ⟨task, htask, rfl⟩ := List.mem_map.mp (h id hid)
    cases hfind : tasks.find? fun t => t.id = task.id with
    | none => simpa using List.find?_eq_none.mp hfind task htask
    | some found => simp [getTaskById, configOf, hfind]
  have hsorted : (sortedBy Prod.snd (generation.map fun id => (id, configOf tasks id))).map
      Prod.fst = sortedBy (configOf tasks) generation := by
    have hkey : ∀ a ∈ generation.map (fun id => (id, configOf tasks id)),
        ∀ b ∈ generation.map (fun id => (id, configOf tasks id)),
          a.2 ≤ b.2 ↔ configOf tasks a.1 ≤ configOf tasks b.1 := by
      intro a ha b hb
      obtain ⟨_, _, rfl⟩ := List.mem_map.mp ha
      obtain ⟨_, _, rfl⟩ := List.mem_map.mp hb
      rfl
    have hmap := List.map_insertionSort (r := fun a b : ℕ × String => a.2 ≤ b.2)
      (s := fun a b => configOf tasks a ≤ configOf tasks b) Prod.fst _ hkey
    simpa only [sortedBy, List.map_map, Function.comp_def, List.map_id'] using hmap
  rw [sortGeneration, Outcome.mapM_eq_returned hkeyed, Outcome.returned_bind, hsorted,
    Outcome.pure_eq]

/-! ## The order of the whole list -/

/-- `a` is scheduled before `b`: it is less deep, or equally deep and earlier by
config, or of the same config and reached earlier by Kahn's queue. -/
def ScheduledBefore (g : TaskGraph) (visited : List ℕ) (a b : ℕ) : Prop :=
  Shallower g.graph.Adj a b ∨
    (¬ Shallower g.graph.Adj b a ∧ KeyOrder (configOf g.tasks) visited a b)

theorem ScheduledBefore.asymm {g : TaskGraph} {visited : List ℕ} (a b : ℕ)
    (h : ScheduledBefore g visited a b) : ¬ ScheduledBefore g visited b a :=
  asymm_then (R := Shallower g.graph.Adj) (fun _ _ => Shallower.asymm) KeyOrder.asymm h

/-- The schedule of a task graph, as Kahn's generations and the sorts of `sort` give it. -/
structure OrderSpec (g : TaskGraph) (visited ids : List ℕ) : Prop where
  visited_perm : visited.Perm g.graph.nodes
  perm : ids.Perm g.graph.nodes
  pairwise : ids.Pairwise (ScheduledBefore g visited)

theorem topologicalSort_spec {g : TaskGraph} (hnodes : g.graph.nodes = g.tasks.map Task.id)
    {gens : List (List ℕ)} (hgens : g.graph.topologicalGenerations = some gens) :
    ∃ ids, topologicalSort g g.tasks = .returned ids ∧ OrderSpec g gens.flatten ids := by
  have hspec := DiGraph.topologicalGenerations_spec hgens
  have hnodup : gens.flatten.Nodup := hspec.perm.nodup_iff.mpr g.graph.nodes_nodup
  have hsorted : gens.mapM (fun generation => sortGeneration generation g.tasks) =
      .returned (gens.map (sortedBy (configOf g.tasks))) := by
    apply Outcome.mapM_eq_returned
    intro generation hgen
    apply sortGeneration_eq
    intro id hid
    rw [← hnodes]
    exact hspec.perm.mem_iff.mp (List.mem_flatten.mpr ⟨generation, hgen, hid⟩)
  refine ⟨(gens.map (sortedBy (configOf g.tasks))).flatten, ?_, hspec.perm, ?_, ?_⟩
  · rw [topologicalSort, hgens]
    simp only [hsorted, Outcome.returned_bind, Outcome.pure_eq]
  · refine List.Perm.trans ?_ hspec.perm
    clear hsorted hspec hgens hnodup
    induction gens with
    | nil => simp
    | cons generation gens ih => exact (sortedBy_perm _ generation).append ih
  · rw [List.pairwise_flatten]
    constructor
    · intro level hlevel
      obtain ⟨generation, hgen, rfl⟩ := List.mem_map.mp hlevel
      have hsub : generation.Sublist gens.flatten := List.sublist_flatten_of_mem hgen
      obtain ⟨k, hk⟩ := List.mem_iff_getElem?.mp hgen
      refine (pairwise_sortedBy_keyOrder (configOf g.tasks) (hnodup.sublist hsub)).imp_of_mem ?_
      intro a b ha hb hkey
      rw [mem_sortedBy] at ha hb
      have hda := hspec.depth k generation hk a ha
      have hdb := hspec.depth k generation hk b hb
      refine Or.inr ⟨by rw [hdb.shallower_iff hda]; omega, hkey.imp_right ?_⟩
      intro hexists
      rcases hexists with ⟨heq, hlt⟩
      refine ⟨heq, (pair_sublist_iff_idxOf_lt hnodup (hsub.subset hb)).mp ?_⟩
      exact ((pair_sublist_iff_idxOf_lt (hnodup.sublist hsub) hb).mpr hlt).trans hsub
    · rw [List.pairwise_map]
      apply hspec.pairwise.imp
      intro l l' h a ha b hb
      exact Or.inl (h a (mem_sortedBy.mp ha) b (mem_sortedBy.mp hb))

theorem OrderSpec.idxOf_lt_iff {g : TaskGraph} {visited ids : List ℕ}
    (h : OrderSpec g visited ids) {a b : ℕ} (ha : a ∈ g.graph.nodes) (hb : b ∈ g.graph.nodes)
    (hab : a ≠ b) : ids.idxOf a < ids.idxOf b ↔ ScheduledBefore g visited a b :=
  idxOf_lt_iff_of_pairwise (h.perm.nodup_iff.mpr g.graph.nodes_nodup) h.pairwise
    ScheduledBefore.asymm (h.perm.mem_iff.mpr ha) (h.perm.mem_iff.mpr hb) hab

/-- Along a path of edges the schedule only moves forward. -/
theorem OrderSpec.idxOf_lt_of_path {g : TaskGraph} {visited ids : List ℕ}
    (h : OrderSpec g visited ids) (hacyclic : Acyclic g.graph.Adj) {a b : ℕ}
    (hpath : TransGen g.graph.Adj a b) : ids.idxOf a < ids.idxOf b := by
  have ha : a ∈ g.graph.nodes := by
    obtain ⟨c, hac, _⟩ := TransGen.head'_iff.mp hpath
    exact hac.mem_nodes.1
  have hb : b ∈ g.graph.nodes := by
    obtain ⟨c, _, hcb⟩ := TransGen.tail'_iff.mp hpath
    exact hcb.mem_nodes.2
  have hne : a ≠ b := by
    intro heq
    subst heq
    exact hacyclic a hpath
  obtain ⟨i, hi⟩ := DiGraph.exists_depth hacyclic a
  obtain ⟨j, hj⟩ := DiGraph.exists_depth hacyclic b
  rw [h.idxOf_lt_iff ha hb hne]
  exact Or.inl ((hi.shallower_iff hj).mpr (hi.lt_of_path hj hpath))

/-! ## What `sort` does -/

/-- A cycle search that answers with the whole graph when there is a cycle. -/
def wholeGraphCycles : SimpleCycles where
  cycles g := if Acyclic g.Adj then [] else [g.nodes]
  cycles_eq_nil_iff g := by
    split
    · rename_i h
      exact iff_of_true rfl h
    · rename_i h
      exact iff_of_false (by simp) h

theorem detectCycles_eq (nx : SimpleCycles) (g : TaskGraph) :
    (Acyclic g.graph.Adj ∧ detectCycles nx g = .returned ()) ∨
      (¬ Acyclic g.graph.Adj ∧ detectCycles nx g = .raised .invalidDependencies) := by
  unfold detectCycles
  split
  · rename_i h
    exact Or.inl ⟨(nx.cycles_eq_nil_iff _).mp h, rfl⟩
  · rename_i h
    exact Or.inr ⟨fun hacyclic => h ((nx.cycles_eq_nil_iff _).mpr hacyclic), rfl⟩

/-- Once the graph is there, the rest of `sort` returns if it is acyclic and raises
`Invalid dependencies` otherwise. -/
theorem sortedIds_of_graph (nx : SimpleCycles) {fuel : ℕ} {tasks : List Task} {g : TaskGraph}
    (h : createTaskGraph fuel tasks = .returned g) :
    (Acyclic g.graph.Adj ∧ ∃ gens ids, g.graph.topologicalGenerations = some gens ∧
        sortedIds nx fuel tasks = .returned ids ∧ OrderSpec g gens.flatten ids) ∨
      (¬ Acyclic g.graph.Adj ∧ sortedIds nx fuel tasks = .raised .invalidDependencies) := by
  have hspec := createTaskGraph_spec h
  have hnodes : g.graph.nodes = g.tasks.map Task.id := by rw [hspec.nodes_eq, hspec.tasks_eq]
  simp only [sortedIds, h, Outcome.returned_bind]
  rcases detectCycles_eq nx g with ⟨hacyclic, hdetect⟩ | ⟨hcyclic, hdetect⟩
  · obtain ⟨gens, hgens⟩ := (DiGraph.exists_topologicalGenerations_iff g.graph).mpr hacyclic
    obtain ⟨ids, hids, horder⟩ := topologicalSort_spec hnodes hgens
    exact Or.inl ⟨hacyclic, gens, ids, hgens, by rw [hdetect, Outcome.returned_bind, hids], horder⟩
  · exact Or.inr ⟨hcyclic, by rw [hdetect, Outcome.raised_bind]⟩

/-- When `sort` returns, its result is the schedule of the task graph: `ids` are the
numbers that `create_task_graph` gave the tasks, in execution order. -/
structure Sorted (nx : SimpleCycles) (fuel : ℕ) (tasks result : List Task) (g : TaskGraph)
    (gens : List (List ℕ)) (ids : List ℕ) (reordered : List Task) : Prop where
  graph : createTaskGraph fuel tasks = .returned g
  acyclic : Acyclic g.graph.Adj
  generations : g.graph.topologicalGenerations = some gens
  sortedIds : sortedIds nx fuel tasks = .returned ids
  order : OrderSpec g gens.flatten ids
  perm : reordered.Perm (number tasks)
  ids_eq : reordered.map Task.id = ids
  result_eq : result = number reordered

theorem sort_eq_returned {nx : SimpleCycles} {fuel : ℕ} {tasks result : List Task}
    (h : sort nx fuel tasks = .returned result) :
    ∃ g gens ids reordered, Sorted nx fuel tasks result g gens ids reordered := by
  obtain ⟨ids, hids, hresult⟩ := Outcome.bind_eq_returned.mp h
  obtain ⟨g, hg, _⟩ := Outcome.bind_eq_returned.mp hids
  rcases sortedIds_of_graph nx hg with ⟨hacyclic, gens, ids', hgens, hids', horder⟩ | ⟨_, hraised⟩
  · rw [hids] at hids'
    obtain rfl := Outcome.returned.inj hids'
    have hperm : ((number tasks).map Task.id).Perm ids := by
      rw [← (createTaskGraph_spec hg).nodes_eq]
      exact horder.perm.symm
    have hnodup : ids.Nodup := hperm.nodup_iff.mp (nodup_map_id_number tasks)
    exact ⟨g, gens, ids, _, hg, hacyclic, hgens, hids, horder, sortedBy_perm _ _,
      map_sortedBy_idxOf Task.id hnodup hperm, (Outcome.returned.inj hresult).symm⟩
  · rw [hids] at hraised
    cases hraised

/-- `sort` returns exactly when the task graph can be built and is acyclic. -/
theorem sort_returns_iff (nx : SimpleCycles) (fuel : ℕ) (tasks : List Task) :
    (∃ result, sort nx fuel tasks = .returned result) ↔
      ∃ g, createTaskGraph fuel tasks = .returned g ∧ Acyclic g.graph.Adj := by
  constructor
  · intro hexists
    rcases hexists with ⟨result, h⟩
    obtain ⟨g, _, _, _, hsorted⟩ := sort_eq_returned h
    exact ⟨g, hsorted.graph, hsorted.acyclic⟩
  · intro hexists
    rcases hexists with ⟨g, hg, hacyclic⟩
    rcases sortedIds_of_graph nx hg with ⟨_, _, ids, _, hids, _⟩ | ⟨hcyclic, _⟩
    · exact ⟨_, by rw [sort, hids, Outcome.returned_bind]; rfl⟩
    · exact absurd hacyclic hcyclic

/-- Only the construction of the graph can run forever. -/
theorem sort_ended_iff (nx : SimpleCycles) (fuel : ℕ) (tasks : List Task) :
    (sort nx fuel tasks).Ended ↔ (createTaskGraph fuel tasks).Ended := by
  rw [sort, Outcome.bind_ended]
  cases hg : createTaskGraph fuel tasks with
  | running => simp [sortedIds, hg, Outcome.Ended]
  | raised e => simp [sortedIds, hg, Outcome.Ended]
  | returned g =>
      rcases sortedIds_of_graph nx hg with ⟨_, _, ids, _, hids, _⟩ | ⟨_, hraised⟩
      · simp [hids, Outcome.Ended]
      · simp [hraised, Outcome.Ended]

/-- With enough fuel, `sort` returns exactly on satisfied dependencies for which every
search ends and the finished graph has no cycle. -/
theorem exists_sort_returned_iff (nx : SimpleCycles) (tasks : List Task) :
    (∃ fuel result, sort nx fuel tasks = .returned result) ↔
      Satisfied tasks ∧
        (∀ leaf ∈ (declared tasks).graph.nodes, (declared tasks).isLeaf leaf →
          (declared tasks).SearchEnds leaf) ∧
        Acyclic (TaskEdge tasks) := by
  constructor
  · intro hexists
    rcases hexists with ⟨fuel, result, h⟩
    obtain ⟨g, hg, hacyclic⟩ := (sort_returns_iff nx fuel tasks).mp ⟨result, h⟩
    have hspec := createTaskGraph_spec hg
    refine ⟨hspec.satisfied, ?_, hspec.adj_eq ▸ hacyclic⟩
    exact (createTaskGraph_ends_iff tasks).mp ⟨fuel, by simp [hg, Outcome.Ended]⟩ hspec.satisfied
  · intro hexists
    rcases hexists with ⟨hsat, hends, hacyclic⟩
    obtain ⟨fuel, hended⟩ := (createTaskGraph_ends_iff tasks).mpr fun _ => hends
    refine ⟨fuel, (sort_returns_iff nx fuel tasks).mpr ?_⟩
    cases hg : createTaskGraph fuel tasks with
    | running => exact absurd hg hended
    | raised e => exact absurd hsat (createTaskGraph_eq_raised_iff.mp ⟨e, hg⟩)
    | returned g => exact ⟨g, rfl, (createTaskGraph_spec hg).adj_eq ▸ hacyclic⟩

/-- What `sort` raises: an unmatched name, or a cycle of the finished graph. -/
theorem sort_raised_cases {nx : SimpleCycles} {fuel : ℕ} {tasks : List Task} {e : SortError}
    (h : sort nx fuel tasks = .raised e) :
    (¬ Satisfied tasks ∧ IsUnsatisfied e) ∨
      (Satisfied tasks ∧ ¬ Acyclic (TaskEdge tasks) ∧ e = .invalidDependencies) := by
  have hids : sortedIds nx fuel tasks = .raised e := by
    rcases Outcome.bind_eq_raised.mp h with h | ⟨ids, _, h⟩
    · exact h
    · simp at h
  cases hg : createTaskGraph fuel tasks with
  | running => simp [sortedIds, hg] at hids
  | raised e' =>
      rw [sortedIds, hg, Outcome.raised_bind] at hids
      obtain rfl := Outcome.raised.inj hids
      have hsat := createTaskGraph_eq_raised_iff.mp ⟨e', hg⟩
      obtain ⟨e, he, hraised⟩ := declaredGraph_of_not_satisfied hsat
      rw [createTaskGraph, hraised, Outcome.raised_bind] at hg
      obtain rfl := Outcome.raised.inj hg
      exact Or.inl ⟨hsat, he⟩
  | returned g =>
      have hspec := createTaskGraph_spec hg
      rcases sortedIds_of_graph nx hg with ⟨_, _, _, _, hreturned, _⟩ | ⟨hcyclic, hraised⟩
      · rw [hids] at hreturned
        cases hreturned
      · rw [hids] at hraised
        exact Or.inr ⟨hspec.satisfied, hspec.adj_eq ▸ hcyclic, Outcome.raised.inj hraised⟩

end DistroSeed
