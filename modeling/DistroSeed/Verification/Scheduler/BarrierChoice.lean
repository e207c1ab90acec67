import DistroSeed.Library.Ways
import DistroSeed.Verification.Scheduler.Arrivals

/-! Which of several nearest barriers the search of a task meets first, told by the names that the
tasks list and by an order of the tasks: that of the list or that of the schedule. -/

namespace DistroSeed

open Chains KeySort Relation QueueSearch

/-! ## Ways to a barrier -/

/-- A step up the dependencies of task `v`: task `step.2` matches name number `step.1`. -/
def MatchesAt (tasks : List Task) (v : ℕ) (step : ℕ × ℕ) : Prop :=
  ∃ task ∈ number tasks, task.id = v ∧ ∃ subtask ∈ number tasks, subtask.id = step.2 ∧
    ∃ dep ∈ task.dependencies[step.1]?, subtask.matches dep

/-- Of two steps, the one for the earlier name, or for one name the one to the earlier task. -/
def StepBefore (before : ℕ → ℕ → Prop) : ℕ × ℕ → ℕ × ℕ → Prop := Prod.Lex (· < ·) before

/-- The way up the dependencies of `leaf` and the barrier at its end that come first of all with the
fewest steps, when the tasks are taken in the order `before`. -/
def FirstBarrier (tasks : List Task) (before : ℕ → ℕ → Prop) (leaf : ℕ)
    (c : List (ℕ × ℕ) × ℕ) : Prop :=
  First (MatchesAt tasks) Prod.snd ((declared tasks).Accepts leaf) (StepBefore before) before leaf c

theorem StepBefore.asymm {before : ℕ → ℕ → Prop} (h : ∀ u v, before u v → ¬ before v u)
    (s s' : ℕ × ℕ) (hs : StepBefore before s s') : ¬ StepBefore before s' s := by
  rw [StepBefore, Prod.lex_def] at hs ⊢
  rcases hs with hlt | ⟨heq, hbefore⟩
  · rintro (hlt' | ⟨heq, _⟩)
    · exact lt_asymm hlt hlt'
    · exact hlt.ne' heq
  · rintro (hlt' | ⟨_, hbefore'⟩)
    · exact hlt'.ne' heq
    · exact h _ _ hbefore hbefore'

/-! ## The steps in the order of a list -/

/-- The steps up from task `v`, in the order in which the loops over `order` find them. -/
def parentSteps (order : List Task) (v : ℕ) : List (ℕ × ℕ) :=
  (order.filter (·.id = v)).flatMap fun task => task.dependencies.zipIdx.flatMap fun name =>
    (order.filter (·.matches name.1)).map fun subtask => (name.2, subtask.id)

/-- The children of `current` that the search for `leaf` accepts. -/
def acceptedChildren (order : List Task) (leaf current : ℕ) : List ℕ :=
  (childrenIn order current).filter fun child =>
    !(child = leaf || child ∈ parentsIn order leaf) && barrierOf order child

theorem acceptedIn_eq (order : List Task) (leaf current : ℕ) :
    acceptedIn order leaf current = (acceptedChildren order leaf current).head? :=
  List.head?_filter.symm

theorem flatMap_filter {α β : Type*} (p : α → Bool) (f : α → List β) (l : List α) :
    (l.flatMap fun a => if p a then f a else []) = (l.filter p).flatMap f := by
  induction l with
  | nil => rfl
  | cons a l ih => cases hp : p a <;> simp [hp, ih]

theorem parentsIn_eq (order : List Task) (v : ℕ) :
    parentsIn order v = (parentSteps order v).map Prod.snd := by
  have htask : ∀ task : Task, ((task.dependencies.flatMap fun dep =>
      (order.filter (·.matches dep)).map fun subtask => (subtask.id, task.id)).filter
        fun pair => pair.2 = v).map Prod.fst =
      if decide (task.id = v) then task.dependencies.flatMap fun dep =>
        (order.filter (·.matches dep)).map Task.id else [] := by
    intro task
    by_cases hid : task.id = v
    · rw [List.filter_eq_self.mpr fun pair hpair => decide_eq_true ((snd_of_mem_pairs hpair).trans hid),
        if_pos (decide_eq_true hid), List.map_flatMap]
      simp only [List.map_map]
      rfl
    · rw [if_neg (by simpa using hid), List.map_eq_nil_iff, List.filter_eq_nil_iff]
      intro pair hpair hsnd
      exact hid ((snd_of_mem_pairs hpair).symm.trans (of_decide_eq_true hsnd))
  rw [parentsIn, declaredPairs, List.filter_flatMap, List.map_flatMap]
  simp only [htask]
  rw [flatMap_filter, parentSteps, List.map_flatMap]
  congr 1
  funext task
  conv_lhs => rw [← List.zipIdx_map_fst 0 task.dependencies, List.flatMap_map]
  rw [List.map_flatMap]
  simp only [List.map_map]
  rfl

section Order

variable {tasks order : List Task} {before : ℕ → ℕ → Prop}

theorem Reordered.mem_parentSteps_iff (h : Reordered tasks order) {v : ℕ} {step : ℕ × ℕ} :
    step ∈ parentSteps order v ↔ MatchesAt tasks v step := by
  obtain ⟨i, u⟩ := step
  simp only [parentSteps, MatchesAt, List.mem_flatMap, List.mem_filter, List.mem_map, Prod.exists,
    List.mem_zipIdx_iff_getElem?, List.Perm.mem_iff h, decide_eq_true_eq, Prod.mk.injEq,
    Option.mem_def]
  constructor
  · rintro ⟨task, ⟨htask, hid⟩, dep, _, hdep, subtask, ⟨hsub, hmatch⟩, rfl, hsubid⟩
    exact ⟨task, htask, hid, subtask, hsub, hsubid, dep, hdep, hmatch⟩
  · rintro ⟨task, htask, hid, subtask, hsub, hsubid, dep, hdep, hmatch⟩
    exact ⟨task, ⟨htask, hid⟩, dep, i, hdep, subtask, ⟨hsub, hmatch⟩, rfl, hsubid⟩

theorem Reordered.barrierOf_iff (h : Reordered tasks order) {v : ℕ} :
    barrierOf order v ↔ (declared tasks).isBarrier v := by
  rw [isBarrier_declared_iff, barrierOf, Option.any_eq_true]
  constructor
  · rintro ⟨task, hfind, hauto⟩
    exact ⟨task, List.Perm.mem_iff h |>.mp (List.mem_of_find?_eq_some hfind),
      by simpa using List.find?_some hfind, hauto⟩
  · rintro ⟨task, htask, rfl, hauto⟩
    have hmem : task ∈ order := List.Perm.mem_iff h |>.mpr htask
    cases hfind : order.find? fun t => t.id = task.id with
    | none => simpa using List.find?_eq_none.mp hfind task hmem
    | some found =>
        have hid : found.id = task.id := by simpa using List.find?_some hfind
        obtain rfl := List.inj_on_of_nodup_map h.nodup (List.mem_of_find?_eq_some hfind) hmem hid
        exact ⟨found, rfl, hauto⟩

theorem Reordered.mem_acceptedChildren_iff (h : Reordered tasks order) {leaf current child : ℕ} :
    child ∈ acceptedChildren order leaf current ↔ (declared tasks).Accepts leaf current child := by
  rw [acceptedChildren, List.mem_filter, mem_childrenIn, h.mem_declaredPairs_iff]
  simp only [TaskGraph.Accepts, adj_declared, Bool.and_eq_true, Bool.not_eq_true',
    Bool.or_eq_false_iff, decide_eq_false_iff_not, mem_parentsIn, h.mem_declaredPairs_iff,
    h.barrierOf_iff, and_assoc, ne_eq]

/-- The steps up from a task stand in the order of the names and then of the tasks. -/
theorem pairwise_parentSteps (hbefore : ∀ u v, before u v → ¬ before v u)
    (horder : (order.map Task.id).Pairwise before) (v : ℕ) :
    (parentSteps order v).Pairwise (StepBefore before) := by
  have htasks : order.Pairwise fun task task' => before task.id task'.id := List.pairwise_map.mp horder
  rw [parentSteps, List.pairwise_flatMap]
  constructor
  · intro task _
    rw [List.pairwise_flatMap]
    constructor
    · intro name _
      rw [List.pairwise_map]
      refine (htasks.filter _).imp fun {subtask subtask'} hlt => ?_
      have hbelow : before subtask.id subtask'.id := hlt
      exact Prod.Lex.right name.2 hbelow
    · have hindices : task.dependencies.zipIdx.Pairwise fun name name' => name.2 < name'.2 := by
        rw [← List.pairwise_map (f := Prod.snd) (R := (· < ·)), List.zipIdx_map_snd]
        exact List.pairwise_lt_range'
      refine hindices.imp fun hlt step hstep step' hstep' => ?_
      obtain ⟨_, _, rfl⟩ := List.mem_map.mp hstep
      obtain ⟨_, _, rfl⟩ := List.mem_map.mp hstep'
      exact Prod.Lex.left _ _ hlt
  · -- only one task has the number
    refine (htasks.filter _).imp_of_mem fun htask htask' hlt => ?_
    simp only [List.mem_filter, decide_eq_true_eq] at htask htask'
    rw [htask.2, htask'.2] at hlt
    exact absurd hlt (hbefore _ _ hlt)

theorem pairwise_childrenIn (horder : (order.map Task.id).Pairwise before) (u : ℕ) :
    (childrenIn order u).Pairwise fun v v' => v = v' ∨ before v v' := by
  have htasks : order.Pairwise fun task task' => before task.id task'.id := List.pairwise_map.mp horder
  rw [childrenIn, List.pairwise_map]
  refine List.Pairwise.filter _ ?_
  rw [declaredPairs, List.pairwise_flatMap]
  constructor
  · intro task _
    apply List.pairwise_of_forall_mem_list
    intro pair hpair pair' hpair'
    exact Or.inl ((snd_of_mem_pairs hpair).trans (snd_of_mem_pairs hpair').symm)
  · refine htasks.imp fun hlt pair hpair pair' hpair' => ?_
    rw [snd_of_mem_pairs hpair, snd_of_mem_pairs hpair']
    exact Or.inr hlt

/-- The search that takes parents and children in the order of a list meets the first of the
nearest barriers. -/
theorem Reordered.meetsFirst_iff (h : Reordered tasks order)
    (hbefore : ∀ u v, before u v → ¬ before v u) (horder : (order.map Task.id).Pairwise before)
    {leaf barrier : ℕ} :
    MeetsFirst order leaf barrier ↔ ∃ way, FirstBarrier tasks before leaf (way, barrier) := by
  have hparents : parentsIn order = fun v => (parentSteps order v).map Prod.snd :=
    funext (parentsIn_eq order)
  have haccepted : acceptedIn order leaf = fun v => (acceptedChildren order leaf v).head? :=
    funext (acceptedIn_eq order leaf)
  rw [MeetsFirst, hparents, haccepted]
  exact firstHit_iff (fun _ _ => h.mem_parentSteps_iff) (fun _ _ => h.mem_acceptedChildren_iff)
    (pairwise_parentSteps hbefore horder) (fun v => (pairwise_childrenIn horder v).filter _)
    (StepBefore.asymm hbefore) hbefore

/-- A search finds a barrier if some ancestor has an acceptable child, whatever the order. -/
theorem Reordered.exists_meetsFirst_iff (h : Reordered tasks order) {leaf : ℕ} :
    (∃ barrier, MeetsFirst order leaf barrier) ↔ ∃ current child,
      TransGen (DependsOn tasks) current leaf ∧ (declared tasks).Accepts leaf current child := by
  have hstep : (fun u v => u ∈ parentsIn order v) = DependsOn tasks := by
    funext u v
    rw [mem_parentsIn, h.mem_declaredPairs_iff]
  have hancestor : ∀ w, (∃ v ∈ parentsIn order leaf,
      ReflTransGen (fun u v => u ∈ parentsIn order v) w v) ↔ TransGen (DependsOn tasks) w leaf := by
    intro w
    rw [hstep, TransGen.tail'_iff]
    simp only [mem_parentsIn, h.mem_declaredPairs_iff, and_comm]
  have hnone : ∀ w, acceptedIn order leaf w = none ↔
      ∀ child, ¬ (declared tasks).Accepts leaf w child := by
    intro w
    rw [acceptedIn_eq, List.head?_eq_none_iff, List.eq_nil_iff_forall_not_mem]
    simp only [h.mem_acceptedChildren_iff]
  simp only [MeetsFirst, ← not_noHit_iff, noHit_iff, hancestor, hnone, not_forall, not_not,
    exists_prop, exists_and_left]

end Order

/-! ## The list and the schedule -/

theorem meetsFirst_number_iff_firstBarrier {tasks : List Task} {leaf barrier : ℕ} :
    MeetsFirst (number tasks) leaf barrier ↔
      ∃ way, FirstBarrier tasks (· < ·) leaf (way, barrier) := by
  refine Reordered.meetsFirst_iff (List.Perm.refl _) (fun _ _ => lt_asymm) ?_
  rw [map_id_number]
  exact List.pairwise_lt_range'

/-- Of the nearest barriers of every task without dependents, the one that comes first by the names
and the places of the tasks in the list comes first, too, by the names and the order `before`. -/
def NearestBarriersAgree (tasks : List Task) (before : ℕ → ℕ → Prop) : Prop :=
  ∀ leaf ∈ (declared tasks).graph.nodes, (declared tasks).isLeaf leaf →
    ∀ listed other, FirstBarrier tasks (· < ·) leaf listed →
      FirstBarrier tasks before leaf other → listed.2 = other.2

/-- Two searches that end at a barrier if there is one, and at the same one. -/
theorem Reordered.barriersKept_iff {tasks order : List Task} {before : ℕ → ℕ → Prop}
    (h : Reordered tasks order) (hbefore : ∀ u v, before u v → ¬ before v u)
    (horder : (order.map Task.id).Pairwise before) :
    BarriersKept tasks order ↔ NearestBarriersAgree tasks before := by
  have hother : ∀ {leaf barrier}, MeetsFirst order leaf barrier ↔
      ∃ way, FirstBarrier tasks before leaf (way, barrier) :=
    fun {_ _} => h.meetsFirst_iff hbefore horder
  constructor
  · intro hkept leaf hmem hleaf listed other hlisted hfirst
    have hold := meetsFirst_number_iff_firstBarrier.mpr ⟨listed.1, hlisted⟩
    have hnew := (hkept leaf hmem hleaf _).mp (hother.mpr ⟨other.1, hfirst⟩)
    exact FirstHit.unique hold hnew
  · intro hagree leaf hmem hleaf barrier
    have hsame : ∀ {b b'}, MeetsFirst order leaf b → MeetsFirst (number tasks) leaf b' → b' = b := by
      intro b b' hb hb'
      obtain ⟨way, hway⟩ := hother.mp hb
      obtain ⟨way', hway'⟩ := meetsFirst_number_iff_firstBarrier.mp hb'
      exact hagree leaf hmem hleaf _ _ hway' hway
    have hexists : (∃ b, MeetsFirst order leaf b) ↔ _ := h.exists_meetsFirst_iff
    have hexists' : (∃ b, MeetsFirst (number tasks) leaf b) ↔ _ :=
      Reordered.exists_meetsFirst_iff (List.Perm.refl (number tasks))
    constructor
    · intro hb
      obtain ⟨b', hb'⟩ := hexists'.mpr (hexists.mp ⟨barrier, hb⟩)
      exact hsame hb hb' ▸ hb'
    · intro hb'
      obtain ⟨b, hb⟩ := hexists.mpr (hexists'.mp ⟨barrier, hb'⟩)
      exact hsame hb hb' ▸ hb

end DistroSeed
