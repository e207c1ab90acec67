import Mathlib.Data.List.Chain
import Mathlib.Data.List.Nodup
import Mathlib.Data.List.Duplicate
import Mathlib.Data.List.Perm.Subperm
import Mathlib.Logic.Relation

/-! Chains and cycles of a relation on a finite set of nodes. -/

namespace Chains

open Relation

variable {α : Type*} {r s : α → α → Prop}

/-- `ChainTo r k v` holds when some chain of `k` steps of `r` ends at `v`. -/
def ChainTo (r : α → α → Prop) : ℕ → α → Prop
  | 0, _ => True
  | k + 1, v => ∃ u, r u v ∧ ChainTo r k u

/-- No node reaches itself in one or more steps. -/
def Acyclic (r : α → α → Prop) : Prop := ∀ v, ¬ TransGen r v v

/-- Ranks that grow along every step rule out cycles. -/
theorem acyclic_of_rank (rank : α → ℕ) (h : ∀ u v, r u v → rank u < rank v) : Acyclic r := by
  have hpath : ∀ u v, TransGen r u v → rank u < rank v := by
    intro u v huv
    induction huv with
    | single hstep => exact h _ _ hstep
    | tail _ hstep ih => exact ih.trans (h _ _ hstep)
  intro v hv
  exact lt_irrefl _ (hpath v v hv)

/-! ## Lengths of chains -/

@[simp] theorem chainTo_zero (v : α) : ChainTo r 0 v := trivial

theorem chainTo_succ {k : ℕ} {v : α} :
    ChainTo r (k + 1) v ↔ ∃ u, r u v ∧ ChainTo r k u := Iff.rfl

theorem ChainTo.of_succ {k : ℕ} {v : α} (h : ChainTo r (k + 1) v) : ChainTo r k v := by
  induction k generalizing v with
  | zero => trivial
  | succ k ih =>
      obtain ⟨u, huv, hu⟩ := h
      exact ⟨u, huv, ih hu⟩

theorem ChainTo.mono {j k : ℕ} {v : α} (hjk : j ≤ k) (h : ChainTo r k v) : ChainTo r j v := by
  induction k with
  | zero =>
      obtain rfl : j = 0 := by omega
      exact h
  | succ k ih =>
      rcases Nat.lt_or_ge k j with hk | hk
      · obtain rfl : j = k + 1 := by omega
        exact h
      · exact ih hk h.of_succ

theorem ChainTo.append {j k : ℕ} {u v : α} (hu : ChainTo r j u) (huv : r u v)
    (hk : j + 1 = k) : ChainTo r k v := by
  subst hk
  exact ⟨u, huv, hu⟩

/-- A chain that ends at `u` can be continued along any path out of `u`. -/
theorem ChainTo.of_reach {k : ℕ} {u v : α} (h : ChainTo r k u) (huv : ReflTransGen r u v) :
    ChainTo r k v := by
  induction huv with
  | refl => exact h
  | tail _ hab ih => exact ChainTo.of_succ ⟨_, hab, ih⟩

/-- A node on a cycle ends chains of every length. -/
theorem chainTo_of_cycle {v : α} (h : TransGen r v v) (k : ℕ) : ChainTo r k v := by
  suffices H : ∀ w, TransGen r v w → ChainTo r k w by exact H v h
  induction k with
  | zero => exact fun w _ => chainTo_zero w
  | succ k ih =>
      intro w hw
      cases hw with
      | single hvw => exact ⟨v, hvw, ih v h⟩
      | tail hvu huw => exact ⟨_, huw, ih _ hvu⟩

/-- The nodes of a chain, listed from its first node to its last. -/
theorem ChainTo.exists_list {k : ℕ} {v : α} (h : ChainTo r k v) :
    ∃ l : List α, l.length = k + 1 ∧ l.IsChain r ∧ l.getLast? = some v := by
  induction k generalizing v with
  | zero => exact ⟨[v], by simp, by simp, by simp⟩
  | succ k ih =>
      obtain ⟨u, huv, hu⟩ := h
      obtain ⟨l, hlen, hchain, hlast⟩ := ih hu
      refine ⟨l ++ [v], by simp [hlen], ?_, by simp⟩
      refine List.isChain_append.mpr ⟨hchain, by simp, ?_⟩
      intro x hx y hy
      simp_all

/-- On finitely many nodes, a chain longer than their number runs through a cycle. -/
theorem exists_cycle_of_chainTo {nodes : List α} (hr : ∀ u v, r u v → u ∈ nodes)
    {k : ℕ} {v : α} (hk : nodes.length < k) (h : ChainTo r k v) :
    ∃ w, TransGen r w w ∧ ReflTransGen r w v := by
  obtain ⟨u, huv, hu⟩ : ∃ u, r u v ∧ ChainTo r (k - 1) u := by
    obtain ⟨j, rfl⟩ : ∃ j, k = j + 1 := ⟨k - 1, by omega⟩
    exact h
  obtain ⟨l, hlen, hchain, hlast⟩ := hu.exists_list
  have hpair : l.Pairwise (TransGen r) :=
    (hchain.imp fun _ _ h => TransGen.single h).pairwise
  have hreach : ∀ w ∈ l, ReflTransGen r w u := by
    intro w hw
    obtain ⟨front, rfl⟩ : ∃ front, l = front ++ [u] := by
      have hne : l ≠ [] := by
        intro heq
        subst heq
        simp at hlast
      exact ⟨l.dropLast, by
        rw [List.getLast?_eq_some_getLast hne, Option.some.injEq] at hlast
        rw [← hlast, List.dropLast_append_getLast]⟩
    rcases List.mem_append.mp hw with hw | hw
    · exact ((List.pairwise_append.mp hpair).2.2 w hw u (by simp)).to_reflTransGen
    · rw [List.mem_singleton.mp hw]
  have hmem : ∀ w ∈ l, w ∈ nodes := by
    intro w hw
    rcases (hreach w hw).cases_head with rfl | ⟨x, hwx, _⟩
    · exact hr _ _ huv
    · exact hr _ _ hwx
  have hdup : ¬ l.Nodup := by
    intro hnodup
    have := (List.subperm_of_subset hnodup hmem).length_le
    omega
  obtain ⟨w, hw⟩ := List.exists_duplicate_iff_not_nodup.mpr hdup
  have hsub := List.duplicate_iff_sublist.mp hw
  refine ⟨w, ?_, (hreach w (hsub.subset (by simp))).tail huv⟩
  simpa using hpair.sublist hsub

/-- The nodes that end arbitrarily long chains are those below a cycle. -/
theorem forall_chainTo_iff {nodes : List α} (hr : ∀ u v, r u v → u ∈ nodes) {v : α} :
    (∀ k, ChainTo r k v) ↔ ∃ w, TransGen r w w ∧ ReflTransGen r w v := by
  constructor
  · intro h
    exact exists_cycle_of_chainTo hr (Nat.lt_succ_self _) (h _)
  · intro hexists k
    rcases hexists with ⟨w, hcycle, hreach⟩
    exact (chainTo_of_cycle hcycle k).of_reach hreach

theorem Acyclic.chainTo_bounded {nodes : List α} (hr : ∀ u v, r u v → u ∈ nodes)
    (h : Acyclic r) (v : α) : ¬ ChainTo r (nodes.length + 1) v := by
  intro hchain
  obtain ⟨w, hw, _⟩ := exists_cycle_of_chainTo hr (Nat.lt_succ_self _) hchain
  exact h w hw

/-- On finitely many nodes without cycles, every node is at or below one that has no parents. -/
theorem Acyclic.exists_source {nodes : List α} (hr : ∀ u v, r u v → u ∈ nodes) (h : Acyclic r)
    (v : α) : ∃ u, ReflTransGen r u v ∧ ∀ p, ¬ r p u := by
  by_contra hnone
  simp only [not_exists, not_and, not_forall, not_not] at hnone
  suffices hchain : ∀ k u, ReflTransGen r u v → ChainTo r k u by
    exact h.chainTo_bounded hr v (hchain _ v .refl)
  intro k
  induction k with
  | zero => exact fun u _ => chainTo_zero u
  | succ k ih =>
      intro u hu
      obtain ⟨p, hp⟩ := hnone u hu
      exact ⟨p, hp, ih p (.head hp hu)⟩

/-- Nodes with the same parents end chains of the same lengths. -/
theorem chainTo_iff_of_same_parents {u v : α} (h : ∀ p, r p u ↔ r p v) (k : ℕ) :
    ChainTo r k u ↔ ChainTo r k v := by
  cases k with
  | zero => exact Iff.rfl
  | succ k => simp only [chainTo_succ, h]

/-! ## Steps and distances -/

/-- A chain of `k` steps of `r` leads from `u` to `v`. -/
def Steps (r : α → α → Prop) : ℕ → α → α → Prop
  | 0, u, v => u = v
  | k + 1, u, v => ∃ w, Steps r k u w ∧ r w v

/-- The shortest chain from `u` to `v` has `k` steps. -/
def Distance (r : α → α → Prop) (u v : α) (k : ℕ) : Prop :=
  Steps r k u v ∧ ∀ j < k, ¬ Steps r j u v

theorem steps_succ {k : ℕ} {u v : α} : Steps r (k + 1) u v ↔ ∃ w, Steps r k u w ∧ r w v := Iff.rfl

theorem Steps.transGen {k : ℕ} {u v : α} (h : Steps r (k + 1) u v) : TransGen r u v := by
  induction k generalizing v with
  | zero =>
      obtain ⟨w, rfl, hwv⟩ := h
      exact .single hwv
  | succ k ih =>
      obtain ⟨w, huw, hwv⟩ := h
      exact (ih huw).tail hwv

/-- In an acyclic relation, what is above a node is one step or more away from it. -/
theorem Acyclic.exists_eq_succ (h : Acyclic r) {k : ℕ} {u v : α} (hpath : TransGen r u v)
    (hsteps : Steps r k u v) : ∃ j, k = j + 1 := by
  cases k with
  | zero =>
      obtain rfl : u = v := hsteps
      exact absurd hpath (h u)
  | succ j => exact ⟨j, rfl⟩

/-! ## Depth -/

/-- The longest chain that ends at `v` has `k` steps. -/
def DepthIs (r : α → α → Prop) (v : α) (k : ℕ) : Prop :=
  ChainTo r k v ∧ ¬ ChainTo r (k + 1) v

/-- Some chain ends at `v` that is longer than every chain that ends at `u`. -/
def Shallower (r : α → α → Prop) (u v : α) : Prop :=
  ∃ k, ChainTo r k v ∧ ¬ ChainTo r k u

theorem Shallower.asymm {u v : α} (h : Shallower r u v) : ¬ Shallower r v u := by
  intro h'
  obtain ⟨k, hkv, hku⟩ := h
  obtain ⟨j, hju, hjv⟩ := h'
  have h1 : ¬ k ≤ j := fun hle => hku (hju.mono hle)
  have h2 : ¬ j ≤ k := fun hle => hjv (hkv.mono hle)
  omega

theorem DepthIs.chainTo_iff {v : α} {j k : ℕ} (h : DepthIs r v k) :
    ChainTo r j v ↔ j ≤ k := by
  constructor
  · intro hj
    by_contra hlt
    exact h.2 (hj.mono (by omega))
  · intro hj
    exact h.1.mono hj

theorem DepthIs.unique {v : α} {j k : ℕ} (hj : DepthIs r v j) (hk : DepthIs r v k) : j = k := by
  have h1 := hk.chainTo_iff.mp hj.1
  have h2 := hj.chainTo_iff.mp hk.1
  omega

theorem DepthIs.shallower_iff {u v : α} {j k : ℕ} (hu : DepthIs r u j) (hv : DepthIs r v k) :
    Shallower r u v ↔ j < k := by
  simp only [Shallower, hu.chainTo_iff, hv.chainTo_iff]
  constructor
  · intro hexists
    rcases hexists with ⟨i, hi, hi'⟩
    omega
  · intro hlt
    exact ⟨k, le_rfl, by omega⟩

/-- A node of smaller depth is one that some parent of the other node is as deep as. -/
theorem DepthIs.shallower_iff_exists_parent {u v : α} {j : ℕ} (hu : DepthIs r u j) :
    Shallower r u v ↔ ∃ p, r p v ∧ ¬ Shallower r p u := by
  constructor
  · rintro ⟨k, hk, hnot⟩
    cases k with
    | zero => exact absurd trivial hnot
    | succ k =>
        obtain ⟨p, hp, hchain⟩ := hk
        refine ⟨p, hp, ?_⟩
        rintro ⟨m, hm, hnotm⟩
        have hlt : ¬ m ≤ k := fun hle => hnotm (hchain.mono hle)
        exact hnot (hm.mono (by omega))
  · rintro ⟨p, hp, hnot⟩
    have hchain : ChainTo r j p := by
      by_contra hp
      exact hnot ⟨j, hu.1, hp⟩
    exact ⟨j + 1, ⟨p, hp, hchain⟩, hu.2⟩

theorem DepthIs.lt_of_path {u v : α} {j k : ℕ} (hu : DepthIs r u j) (hv : DepthIs r v k)
    (huv : TransGen r u v) : j < k := by
  obtain ⟨w, huw, hwv⟩ := TransGen.tail'_iff.mp huv
  have := hv.chainTo_iff.mp ((hu.1.of_reach huw).append hwv rfl)
  omega

/-! ## Copies of a relation -/

/-- `rename` carries the steps of `r` between the nodes `inside` to exactly the steps of `r'`. -/
structure Carries {β : Type*} (r : α → α → Prop) (r' : β → β → Prop) (rename : α → β)
    (inside : α → Prop) : Prop where
  mem : ∀ {u v : α}, r u v → inside u ∧ inside v
  inj : ∀ {u v : α}, inside u → rename u = rename v → u = v
  step : ∀ {u v : α}, r u v → r' (rename u) (rename v)
  lift : ∀ {u' v' : β}, r' u' v' → ∃ u v, r u v ∧ rename u = u' ∧ rename v = v'

section Carries

variable {β : Type*} {r' : β → β → Prop} {rename : α → β} {inside : α → Prop}

theorem Carries.exists_source (h : Carries r r' rename inside) {u' : β} {v : α}
    (hstep : r' u' (rename v)) : ∃ u, r u v ∧ rename u = u' := by
  obtain ⟨u, w, huw, hu, hw⟩ := h.lift hstep
  obtain rfl := h.inj (h.mem huw).2 hw
  exact ⟨u, huw, hu⟩

theorem Carries.exists_target (h : Carries r r' rename inside) {u : α} {v' : β}
    (hstep : r' (rename u) v') : ∃ v, r u v ∧ rename v = v' := by
  obtain ⟨w, v, hwv, hw, hv⟩ := h.lift hstep
  obtain rfl := h.inj (h.mem hwv).1 hw
  exact ⟨v, hwv, hv⟩

theorem Carries.step_iff (h : Carries r r' rename inside) {u v : α} (hu : inside u) :
    r' (rename u) (rename v) ↔ r u v := by
  constructor
  · intro hstep
    obtain ⟨w, hwv, hw⟩ := h.exists_source hstep
    rwa [h.inj hu hw.symm]
  · exact h.step

theorem Carries.chainTo_iff (h : Carries r r' rename inside) {k : ℕ} {v : α} :
    ChainTo r' k (rename v) ↔ ChainTo r k v := by
  induction k generalizing v with
  | zero => exact Iff.rfl
  | succ k ih =>
      rw [chainTo_succ, chainTo_succ]
      constructor
      · intro hexists
        rcases hexists with ⟨u', hstep, hu'⟩
        obtain ⟨u, huv, rfl⟩ := h.exists_source hstep
        exact ⟨u, huv, ih.mp hu'⟩
      · intro hexists
        rcases hexists with ⟨u, huv, hu⟩
        exact ⟨rename u, h.step huv, ih.mpr hu⟩

theorem Carries.shallower_iff (h : Carries r r' rename inside) {u v : α} :
    Shallower r' (rename u) (rename v) ↔ Shallower r u v := by
  simp only [Shallower, h.chainTo_iff]

theorem Carries.exists_of_transGen (h : Carries r r' rename inside) {u : α} {v' : β}
    (hpath : TransGen r' (rename u) v') : ∃ v, TransGen r u v ∧ rename v = v' := by
  induction hpath with
  | single hstep =>
      obtain ⟨v, huv, hv⟩ := h.exists_target hstep
      exact ⟨v, .single huv, hv⟩
  | tail _ hstep ih =>
      obtain ⟨w, huw, rfl⟩ := ih
      obtain ⟨v, hwv, hv⟩ := h.exists_target hstep
      exact ⟨v, huw.tail hwv, hv⟩

theorem Carries.transGen_iff (h : Carries r r' rename inside) {u v : α} (hv : inside v) :
    TransGen r' (rename u) (rename v) ↔ TransGen r u v := by
  constructor
  · intro hpath
    obtain ⟨w, huw, hw⟩ := h.exists_of_transGen hpath
    rwa [h.inj hv hw.symm]
  · exact TransGen.lift rename (fun _ _ => h.step) u v

theorem Carries.acyclic_iff (h : Carries r r' rename inside) : Acyclic r' ↔ Acyclic r := by
  constructor
  · intro hacyclic v hcycle
    exact hacyclic (rename v) (TransGen.lift rename (fun _ _ => h.step) v v hcycle)
  · intro hacyclic v' hcycle
    obtain ⟨w', hstep, _⟩ := TransGen.head'_iff.mp hcycle
    obtain ⟨v, _, hvw, rfl, _⟩ := h.lift hstep
    exact hacyclic v ((h.transGen_iff (h.mem hvw).1).mp hcycle)

end Carries

/-! ## Cycles through added edges -/

/-- A path of `r ∪ s` alternates between paths of `r` and single steps of `s`. -/
theorem reflTransGen_union_iff {x y : α} :
    ReflTransGen (fun a b => r a b ∨ s a b) x y ↔
      ∃ z, ReflTransGen r x z ∧
        ReflTransGen (fun a b => ∃ c, s a c ∧ ReflTransGen r c b) z y := by
  constructor
  · intro h
    induction h with
    | refl => exact ⟨x, .refl, .refl⟩
    | tail _ hab ih =>
        obtain ⟨z, hxz, hzb⟩ := ih
        rcases hab with hab | hab
        · rcases hzb.cases_tail with rfl | ⟨w, hzw, c, hc, hcb⟩
          · exact ⟨_, hxz.tail hab, .refl⟩
          · exact ⟨z, hxz, hzw.tail ⟨c, hc, hcb.tail hab⟩⟩
        · exact ⟨z, hxz, hzb.tail ⟨_, hab, .refl⟩⟩
  · intro hexists
    rcases hexists with ⟨z, hxz, hzy⟩
    refine (ReflTransGen.mono (fun _ _ => Or.inl) _ _ hxz).trans ?_
    induction hzy with
    | refl => exact .refl
    | tail _ hab ih =>
        obtain ⟨c, hc, hcb⟩ := hab
        exact (ih.tail (Or.inr hc)).trans (ReflTransGen.mono (fun _ _ => Or.inl) _ _ hcb)

/-- Adding edges `s` to an acyclic relation `r` closes a cycle exactly when the
added edges chain into one another along paths of `r`. -/
theorem acyclic_union_iff (hr : Acyclic r) :
    Acyclic (fun a b => r a b ∨ s a b) ↔
      Acyclic (fun a b => ∃ c, s a c ∧ ReflTransGen r c b) := by
  have hstep : ∀ a b, (∃ c, s a c ∧ ReflTransGen r c b) →
      TransGen (fun a b => r a b ∨ s a b) a b := by
    intro a b hexists
    rcases hexists with ⟨c, hc, hcb⟩
    exact TransGen.head' (Or.inr hc) (ReflTransGen.mono (fun _ _ => Or.inl) _ _ hcb)
  constructor
  · intro h v hv
    exact h v (TransGen.closed hstep v v hv)
  · intro h v hv
    obtain ⟨u, huv, hstep⟩ := TransGen.tail'_iff.mp hv
    obtain ⟨z, hvz, hzu⟩ := reflTransGen_union_iff.mp huv
    -- the cycle is rotated so that it starts at the source of an added edge
    rcases hstep with huv | huv
    · rcases hzu.cases_tail with rfl | ⟨w, hzw, c, hc, hcu⟩
      · exact hr v (TransGen.tail' hvz huv)
      · exact h z (TransGen.tail' hzw ⟨c, hc, (hcu.tail huv).trans hvz⟩)
    · exact h z (TransGen.tail' hzu ⟨v, huv, hvz⟩)

end Chains
