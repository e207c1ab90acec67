import DistroSeed.Verification.Scheduler.Precedence
import DistroSeed.Verification.Scheduler.Roles

/-! The phases of a build: which barriers the added tasks of each type are caught by. -/

namespace DistroSeed

open Chains Relation

/-! ## Task lists with roles -/

/-- Task number `v` has the role. -/
def RoleAt (distro : Distro) (tasks : List Task) (v : ℕ) (role : Role) : Prop :=
  ∃ task ∈ number tasks, task.id = v ∧ HasRole distro task role

/-- Every task has a role, every core role is played by one task, and no dependency
name selects an added task. -/
structure Pipeline (distro : Distro) (tasks : List Task) : Prop where
  role : ∀ task ∈ number tasks, ∃ role, HasRole distro task role
  present : ∀ role : CoreRole, ∃ v, RoleAt distro tasks v (.core role)
  unique : ∀ (role : CoreRole) (u v : ℕ), RoleAt distro tasks u (.core role) →
    RoleAt distro tasks v (.core role) → u = v
  unmatched : ∀ task ∈ number tasks, ∀ cmdType, HasRole distro task (.added cmdType) →
    ∀ other ∈ number tasks, ∀ dep ∈ other.dependencies, task.matches dep = false

section Roles

variable {distro : Distro} {tasks : List Task} {u v : ℕ} {role : Role}

theorem HasRole.eq_core {task : Task} {p : CoreRole} (h : HasRole distro task (.core p)) :
    task = { p.task distro with id := task.id } := by
  rw [← show { task with id := 0 } = p.task distro from h]

theorem HasRole.matches_core {task : Task} {p : CoreRole} (h : HasRole distro task (.core p))
    (dep : String) : task.matches dep = (p.task distro).matches dep := by
  rw [h.eq_core, matches_withId]

theorem HasRole.dependencies_core {task : Task} {p : CoreRole}
    (h : HasRole distro task (.core p)) : task.dependencies = (p.task distro).dependencies := by
  rw [h.eq_core]

theorem HasRole.dependencies_added {task : Task} {cmdType : CmdType}
    (h : HasRole distro task (.added cmdType)) :
    ∃ dep ∈ defaultDependency cmdType, task.dependencies = [dep] := by
  obtain ⟨rfl, _, hdeps⟩ := h
  obtain ⟨dep, hdep, heq⟩ := Option.map_eq_some_iff.mp hdeps
  exact ⟨dep, hdep, heq.symm⟩

theorem HasRole.autoCreateRdepends {task : Task} (h : HasRole distro task role) :
    task.autoCreateRdepends = true ↔ ∃ p, role = .core p ∧ p.isBarrier := by
  cases role with
  | core p =>
      have hauto : task.autoCreateRdepends = (p.task distro).autoCreateRdepends := by
        rw [h.eq_core]
      simp [hauto, (core_spec distro p).isBarrier]
  | added cmdType => simp [h.2.notBarrier]

/-- Whether one task names another follows from their roles. -/
theorem Pipeline.names_iff (h : Pipeline distro tasks) {subtask task : Task}
    (hsub : subtask ∈ number tasks) (htask : task ∈ number tasks) {subrole : Role}
    (hsubrole : HasRole distro subtask subrole) (hrole : HasRole distro task role) :
    (∃ dep ∈ task.dependencies, subtask.matches dep) ↔
      ∃ p, subrole = .core p ∧ p ∈ role.parents := by
  cases subrole with
  | added cmdType =>
      simp only [reduceCtorEq, false_and, exists_false, iff_false, not_exists, not_and]
      intro dep hdep hmatch
      rw [h.unmatched subtask hsub cmdType hsubrole task htask dep hdep] at hmatch
      cases hmatch
  | core p =>
      simp only [Role.core.injEq, exists_eq_left', hsubrole.matches_core]
      cases role with
      | core r => rw [hrole.dependencies_core, (core_spec distro r).dependencies_iff]
      | added cmdType =>
          obtain ⟨dep, hdep, heq⟩ := hrole.dependencies_added
          rw [heq, ← (default_spec distro cmdType dep hdep).1 p]
          simp

theorem Pipeline.dependsOn_iff (h : Pipeline distro tasks) {subrole : Role}
    (hu : RoleAt distro tasks u subrole) (hv : RoleAt distro tasks v role) :
    DependsOn tasks u v ↔ ∃ p, subrole = .core p ∧ p ∈ role.parents := by
  obtain ⟨subtask, hsub, rfl, hsubrole⟩ := hu
  obtain ⟨task, htask, rfl, hrole⟩ := hv
  rw [← h.names_iff hsub htask hsubrole hrole]
  constructor
  · intro hexists
    rcases hexists with ⟨subtask', hsub', task', htask', hid, hid', hdep⟩
    rw [eq_of_id_eq hsub' hsub hid, eq_of_id_eq htask' htask hid'] at hdep
    exact hdep
  · intro hdep
    exact ⟨subtask, hsub, task, htask, rfl, rfl, hdep⟩

theorem Pipeline.exists_role (h : Pipeline distro tasks)
    (hv : v ∈ (declared tasks).graph.nodes) : ∃ role, RoleAt distro tasks v role := by
  obtain ⟨task, htask, rfl⟩ := mem_nodes_declared.mp hv
  obtain ⟨role, hrole⟩ := h.role task htask
  exact ⟨role, task, htask, rfl, hrole⟩

theorem Pipeline.exists_parent_role (h : Pipeline distro tasks) (hv : RoleAt distro tasks v role)
    (huv : DependsOn tasks u v) : ∃ p ∈ role.parents, RoleAt distro tasks u (.core p) := by
  obtain ⟨subrole, hu⟩ := h.exists_role huv.mem_nodes.1
  obtain ⟨p, rfl, hp⟩ := (h.dependsOn_iff hu hv).mp huv
  exact ⟨p, hp, hu⟩

theorem RoleAt.isBarrier_iff (hv : RoleAt distro tasks v role) :
    (declared tasks).isBarrier v ↔ ∃ p, role = .core p ∧ p.isBarrier := by
  obtain ⟨task, htask, rfl, hrole⟩ := hv
  rw [TaskGraph.isBarrier, data_declared htask, Option.any_some, hrole.autoCreateRdepends]

theorem RoleAt.isLeaf_iff (hv : RoleAt distro tasks v role) :
    (declared tasks).isLeaf v ↔
      (∀ w, ¬ DependsOn tasks v w) ∧ ¬ ∃ p, role = .core p ∧ p.isBarrier := by
  obtain ⟨task, htask, rfl, hrole⟩ := hv
  simp only [TaskGraph.isLeaf, data_declared htask, Option.any_some, Bool.and_eq_true,
    decide_eq_true_eq, DiGraph.outDegree_eq_zero_iff, adj_declared, Bool.not_eq_true',
    ← hrole.autoCreateRdepends, Bool.not_eq_true]

/-! ## The automatic edges -/

/-- Added tasks have no dependents, so the search runs for each of them. -/
theorem Pipeline.isLeaf_added (h : Pipeline distro tasks) {cmdType : CmdType}
    (hv : RoleAt distro tasks v (.added cmdType)) : (declared tasks).isLeaf v := by
  rw [hv.isLeaf_iff]
  refine ⟨fun w hvw => ?_, by simp⟩
  obtain ⟨wrole, hw⟩ := h.exists_role hvw.mem_nodes.2
  obtain ⟨p, hp, _⟩ := (h.dependsOn_iff hv hw).mp hvw
  cases hp

/-- A dummy task has no default dependency to wait for. -/
theorem RoleAt.barrier_isSome_of_added {cmdType : CmdType}
    (hv : RoleAt distro tasks v (.added cmdType)) : (Role.added cmdType).barrier.isSome := by
  obtain ⟨task, _, _, hrole⟩ := hv
  obtain ⟨dep, hdep, _⟩ := hrole.dependencies_added
  cases cmdType with
  | dummy => cases hdep
  | _ => rfl

theorem Pipeline.barrier_isSome_of_isLeaf (h : Pipeline distro tasks)
    (hv : RoleAt distro tasks v role) (hleaf : (declared tasks).isLeaf v) :
    role.barrier.isSome := by
  obtain ⟨hnone, hnot⟩ := hv.isLeaf_iff.mp hleaf
  cases role with
  | added cmdType => exact hv.barrier_isSome_of_added
  | core p =>
      rcases core_leaf p with hbarrier | ⟨q, hq⟩ | hsome
      · exact absurd ⟨p, rfl, hbarrier⟩ hnot
      · obtain ⟨w, hw⟩ := h.present q
        exact absurd ((h.dependsOn_iff hv hw).mpr ⟨p, rfl, hq⟩) (hnone w)
      · exact hsome

/-- What the search accepts follows from the roles. -/
theorem Pipeline.accepts_iff (h : Pipeline distro tasks) {current child : ℕ} {p q : CoreRole}
    (hv : RoleAt distro tasks v role) (hnot : ¬ (declared tasks).isBarrier v)
    (hcurrent : RoleAt distro tasks current (.core p))
    (hchild : RoleAt distro tasks child (.core q)) :
    (declared tasks).Accepts v current child ↔ role.Accepts p q := by
  have hbarrier : (declared tasks).isBarrier child ↔ q.isBarrier := by
    rw [hchild.isBarrier_iff]
    simp
  simp only [TaskGraph.Accepts, Role.Accepts, adj_declared, h.dependsOn_iff hcurrent hchild,
    h.dependsOn_iff hchild hv, hbarrier, Role.core.injEq, exists_eq_left']
  constructor
  · intro hexists
    rcases hexists with ⟨hpq, _, hqv, hq⟩
    exact ⟨hpq, hqv, hq⟩
  · intro hexists
    rcases hexists with ⟨hpq, hqv, hq⟩
    refine ⟨hpq, ?_, hqv, hq⟩
    intro heq
    subst heq
    exact hnot (hbarrier.mpr hq)

theorem Pipeline.exists_core_of_isBarrier (h : Pipeline distro tasks)
    (hmem : v ∈ (declared tasks).graph.nodes) (hv : (declared tasks).isBarrier v) :
    ∃ q, RoleAt distro tasks v (.core q) := by
  obtain ⟨r, hr⟩ := h.exists_role hmem
  obtain ⟨q, rfl, _⟩ := hr.isBarrier_iff.mp hv
  exact ⟨q, hr⟩

/-- The nearest barrier of a leaf has the role that belongs to the role of the leaf. -/
theorem Pipeline.nearestBarrier_role (h : Pipeline distro tasks) {barrier : ℕ} {b : CoreRole}
    (hv : RoleAt distro tasks v role) (hnot : ¬ (declared tasks).isBarrier v)
    (hb : b ∈ role.barrier) (hnear : (declared tasks).NearestBarrier v barrier) :
    RoleAt distro tasks barrier (.core b) := by
  obtain ⟨current, _, haccepts⟩ := hnear.accepts
  obtain ⟨q, hq⟩ := h.exists_core_of_isBarrier haccepts.1.mem_nodes.2 haccepts.2.2.2
  obtain ⟨w, hw⟩ := h.present b
  suffices hqb : q = b by rwa [hqb] at hq
  rcases (role_spec role).barrier_nearest b hb with ⟨⟨p, hp, hpb⟩, honly⟩ | ⟨⟨p, hp, p', hp', hpb⟩, honly⟩
  · obtain ⟨x, hx⟩ := h.present p
    have hxv := adj_declared.mpr ((h.dependsOn_iff hx hv).mpr ⟨p, rfl, hp⟩)
    obtain ⟨y, hyv, hy⟩ := hnear.of_parent hxv ((h.accepts_iff hv hnot hx hw).mpr hpb)
    obtain ⟨r, hr, hyrole⟩ := h.exists_parent_role hv (adj_declared.mp hyv)
    exact honly r hr q ((h.accepts_iff hv hnot hyrole hq).mp hy)
  · obtain ⟨x, hx⟩ := h.present p
    obtain ⟨x', hx'⟩ := h.present p'
    have hxv := adj_declared.mpr ((h.dependsOn_iff hx hv).mpr ⟨p, rfl, hp⟩)
    have hxx := adj_declared.mpr ((h.dependsOn_iff hx' hx).mpr ⟨p', rfl, hp'⟩)
    obtain ⟨y, hyv, hy⟩ := hnear.of_grandparent hxv hxx ((h.accepts_iff hv hnot hx' hw).mpr hpb)
    obtain ⟨r, hr, hyrole⟩ := h.exists_parent_role hv (adj_declared.mp hyv)
    refine honly r hr q (hy.imp (h.accepts_iff hv hnot hyrole hq).mp ?_)
    intro hexists
    rcases hexists with ⟨z, hzy, hz⟩
    obtain ⟨r', hr', hzrole⟩ := h.exists_parent_role hyrole (adj_declared.mp hzy)
    exact ⟨r', hr', (h.accepts_iff hv hnot hzrole hq).mp hz⟩

theorem Pipeline.exists_nearestBarrier (h : Pipeline distro tasks) {b : CoreRole}
    (hv : RoleAt distro tasks v role) (hnot : ¬ (declared tasks).isBarrier v)
    (hb : b ∈ role.barrier) : ∃ barrier, (declared tasks).NearestBarrier v barrier := by
  rw [TaskGraph.exists_nearestBarrier_iff]
  obtain ⟨w, hw⟩ := h.present b
  rcases (role_spec role).barrier_nearest b hb with ⟨⟨p, hp, hpb⟩, _⟩ | ⟨⟨p, hp, p', hp', hpb⟩, _⟩
  · obtain ⟨x, hx⟩ := h.present p
    have hxv := adj_declared.mpr ((h.dependsOn_iff hx hv).mpr ⟨p, rfl, hp⟩)
    exact ⟨x, w, .single hxv, (h.accepts_iff hv hnot hx hw).mpr hpb⟩
  · obtain ⟨x, hx⟩ := h.present p
    obtain ⟨x', hx'⟩ := h.present p'
    have hxv := adj_declared.mpr ((h.dependsOn_iff hx hv).mpr ⟨p, rfl, hp⟩)
    have hxx := adj_declared.mpr ((h.dependsOn_iff hx' hx).mpr ⟨p', rfl, hp'⟩)
    exact ⟨x', w, (TransGen.single hxx).tail hxv, (h.accepts_iff hv hnot hx' hw).mpr hpb⟩

theorem Pipeline.autoEdge_role (h : Pipeline distro tasks) {barrier : ℕ}
    (hv : RoleAt distro tasks v role) (hauto : (declared tasks).AutoEdge v barrier) :
    ∃ b ∈ role.barrier, RoleAt distro tasks barrier (.core b) := by
  obtain ⟨_, hleaf, hnear⟩ := hauto
  obtain ⟨b, hb⟩ := Option.isSome_iff_exists.mp (h.barrier_isSome_of_isLeaf hv hleaf)
  have hnot : ¬ (declared tasks).isBarrier v := by
    rw [hv.isBarrier_iff]
    exact (hv.isLeaf_iff.mp hleaf).2
  exact ⟨b, hb, h.nearestBarrier_role hv hnot hb hnear⟩

/-- Every added task gets an edge to the barrier of its type. -/
theorem Pipeline.exists_autoEdge (h : Pipeline distro tasks) {cmdType : CmdType}
    (hv : RoleAt distro tasks v (.added cmdType)) :
    ∃ b ∈ (Role.added cmdType).barrier, ∃ barrier, (declared tasks).AutoEdge v barrier ∧
      RoleAt distro tasks barrier (.core b) := by
  have hleaf := h.isLeaf_added hv
  have hmem : v ∈ (declared tasks).graph.nodes := by
    obtain ⟨task, htask, hid, _⟩ := hv
    exact mem_nodes_declared.mpr ⟨task, htask, hid⟩
  obtain ⟨b, hb⟩ := Option.isSome_iff_exists.mp (h.barrier_isSome_of_isLeaf hv hleaf)
  have hnot : ¬ (declared tasks).isBarrier v := by
    rw [hv.isBarrier_iff]
    exact (hv.isLeaf_iff.mp hleaf).2
  obtain ⟨barrier, hnear⟩ := h.exists_nearestBarrier hv hnot hb
  exact ⟨b, hb, barrier, ⟨hmem, hleaf, hnear⟩, h.nearestBarrier_role hv hnot hb hnear⟩

/-! ## `sort` returns -/

theorem HasRole.unique {task : Task} {role' : Role} (h : HasRole distro task role)
    (h' : HasRole distro task role') : role = role' := by
  have hmixed : ∀ p : CoreRole, HasRole distro task (.core p) → ¬ Defaulted task := by
    intro p hp hdefaulted
    rw [hp.eq_core] at hdefaulted
    exact (core_spec distro p).notDefaulted ⟨hdefaulted.notBarrier, hdefaulted.dependencies⟩
  cases role with
  | core p =>
      cases role' with
      | core q => rw [(core_spec distro q).injective p (h.symm.trans h')]
      | added cmdType => exact absurd h'.2 (hmixed p h)
  | added cmdType =>
      cases role' with
      | core q => exact absurd h.2 (hmixed q h')
      | added cmdType' => rw [← h.1, ← h'.1]

theorem RoleAt.unique {role' : Role} (h : RoleAt distro tasks v role)
    (h' : RoleAt distro tasks v role') : role = role' := by
  obtain ⟨task, htask, hid, hrole⟩ := h
  obtain ⟨task', htask', rfl, hrole'⟩ := h'
  obtain rfl := eq_of_id_eq htask htask' hid
  exact hrole.unique hrole'

theorem Pipeline.rank_lt (h : Pipeline distro tasks) {role' : Role}
    (hu : RoleAt distro tasks u role) (hv : RoleAt distro tasks v role')
    (huv : TaskEdge tasks u v) : role.rank < role'.rank := by
  rcases huv with huv | huv
  · obtain ⟨p, rfl, hp⟩ := (h.dependsOn_iff hu hv).mp huv
    exact (role_spec role').rank_parents p hp
  · obtain ⟨b, hb, hbrole⟩ := h.autoEdge_role hu huv
    rw [hv.unique hbrole]
    exact (role_spec role).rank_barrier b hb

/-- The ranks of the roles grow along declared and automatic edges. -/
theorem Pipeline.acyclic (h : Pipeline distro tasks) : Acyclic (TaskEdge tasks) := by
  classical
  refine acyclic_of_rank
    (fun v => if hv : ∃ role, RoleAt distro tasks v role then hv.choose.rank else 0) ?_
  intro u v huv
  have hmem : u ∈ (declared tasks).graph.nodes ∧ v ∈ (declared tasks).graph.nodes := by
    rcases huv with huv | huv
    · exact huv.mem_nodes
    · exact AutoEdge.mem_nodes huv
  have hu := h.exists_role hmem.1
  have hv := h.exists_role hmem.2
  rw [dif_pos hu, dif_pos hv]
  exact h.rank_lt hu.choose_spec hv.choose_spec huv

theorem Pipeline.satisfied (h : Pipeline distro tasks) : Satisfied tasks := by
  rw [← satisfied_number]
  intro task htask dep hdep
  have hfound : ∃ p : CoreRole, (p.task distro).matches dep := by
    obtain ⟨role, hrole⟩ := h.role task htask
    cases role with
    | core r =>
        rw [hrole.dependencies_core] at hdep
        exact (core_spec distro r).satisfied dep hdep
    | added cmdType =>
        obtain ⟨dep', hdep', heq⟩ := hrole.dependencies_added
        rw [heq, List.mem_singleton] at hdep
        exact (default_spec distro cmdType dep (hdep ▸ hdep')).2
  obtain ⟨p, hp⟩ := hfound
  obtain ⟨v, subtask, hsub, _, hsubrole⟩ := h.present p
  exact ⟨subtask, hsub, by rw [hsubrole.matches_core, hp]⟩

theorem Pipeline.exists_sort_returned (h : Pipeline distro tasks) (nx : SimpleCycles) :
    ∃ fuel result, sort nx fuel tasks = .returned result := by
  refine (exists_sort_returned_iff nx tasks).mpr ⟨h.satisfied, fun leaf _ _ => ?_, h.acyclic⟩
  refine searchEnds_of_acyclic (fun v hv => h.acyclic v ?_) leaf
  rw [adj_declared_eq] at hv
  exact TransGen.mono (fun _ _ => Or.inl) _ _ hv

/-! ## Paths between roles -/

/-- A core role comes before whatever waits for it, directly or through core roles. -/
theorem Pipeline.path (h : Pipeline distro tasks) {p q : CoreRole}
    (hpath : TransGen (fun p q : CoreRole => p ∈ (Role.core q).parents) p q)
    (hu : RoleAt distro tasks u (.core p)) (hv : RoleAt distro tasks v (.core q)) :
    TransGen (TaskEdge tasks) u v := by
  induction hpath generalizing v with
  | single hstep => exact .single (Or.inl ((h.dependsOn_iff hu hv).mpr ⟨_, rfl, hstep⟩))
  | @tail q r _ hstep ih =>
      obtain ⟨w, hw⟩ := h.present q
      exact (ih hw).tail (Or.inl ((h.dependsOn_iff hw hv).mpr ⟨_, rfl, hstep⟩))

/-- An added task comes before whatever waits for the barrier of its type. -/
theorem Pipeline.path_of_added (h : Pipeline distro tasks) {cmdType : CmdType} {b q : CoreRole}
    (hb : (Role.added cmdType).barrier = some b)
    (hpath : ReflTransGen (fun p q : CoreRole => p ∈ (Role.core q).parents) b q)
    (hu : RoleAt distro tasks u (.added cmdType)) (hv : RoleAt distro tasks v (.core q)) :
    TransGen (TaskEdge tasks) u v := by
  obtain ⟨b', hb', barrier, hauto, hbarrier⟩ := h.exists_autoEdge hu
  obtain rfl := Option.some.inj (hb.symm.trans hb')
  rcases reflTransGen_iff_eq_or_transGen.mp hpath with rfl | hpath
  · obtain rfl := h.unique _ _ _ hbarrier hv
    exact .single (Or.inr hauto)
  · exact TransGen.head (Or.inr hauto) (h.path hpath hbarrier hv)

/-- A core role comes before the added tasks that wait for it. -/
theorem Pipeline.path_to_added (h : Pipeline distro tasks) {cmdType : CmdType} {p q : CoreRole}
    (hq : q ∈ (Role.added cmdType).parents)
    (hpath : ReflTransGen (fun p q : CoreRole => p ∈ (Role.core q).parents) p q)
    (hu : RoleAt distro tasks u (.core p)) (hv : RoleAt distro tasks v (.added cmdType)) :
    TransGen (TaskEdge tasks) u v := by
  obtain ⟨w, hw⟩ := h.present q
  have hwv : TaskEdge tasks w v := Or.inl ((h.dependsOn_iff hw hv).mpr ⟨q, rfl, hq⟩)
  rcases reflTransGen_iff_eq_or_transGen.mp hpath with rfl | hpath
  · obtain rfl := h.unique _ _ _ hu hw
    exact .single hwv
  · exact (h.path hpath hu hw).tail hwv

end Roles

end DistroSeed
