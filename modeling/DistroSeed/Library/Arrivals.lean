import DistroSeed.Library.Generations
import Mathlib.Data.List.Lex
import Mathlib.Order.Lattice
import Mathlib.Tactic.Tauto

/-! The order in which Kahn's algorithm reaches the nodes of one depth. A node becomes ready after
the last of its parents, so of two nodes the first is the one whose lexicographically last longest
chain is smaller. -/

namespace Chains

variable {ν : Type*} {r : ν → ν → Prop}

/-- The nodes of a chain of `k` steps that ends at `v`. -/
def Trail (r : ν → ν → Prop) : ℕ → ν → List ν → Prop
  | 0, v, l => l = [v]
  | k + 1, v, l => ∃ u l', r u v ∧ Trail r k u l' ∧ l = l' ++ [v]

theorem Trail.length_eq {k : ℕ} {v : ν} {l : List ν} (h : Trail r k v l) : l.length = k + 1 := by
  induction k generalizing v l with
  | zero =>
      obtain rfl : l = [v] := h
      rfl
  | succ k ih =>
      obtain ⟨u, l', _, hl', rfl⟩ := h
      rw [List.length_append, ih hl', List.length_singleton]

theorem Trail.chainTo {k : ℕ} {v : ν} {l : List ν} (h : Trail r k v l) : ChainTo r k v := by
  induction k generalizing v l with
  | zero => trivial
  | succ k ih =>
      obtain ⟨u, l', huv, hl', _⟩ := h
      exact ⟨u, huv, ih hl'⟩

/-- A chain ends as well at every node with the same parents. -/
theorem Trail.exchange_last {k : ℕ} {u v : ν} {l : List ν} (hparents : ∀ p, r p u ↔ r p v)
    (h : Trail r k u l) : ∃ front, l = front ++ [u] ∧ Trail r k v (front ++ [v]) := by
  cases k with
  | zero =>
      obtain rfl : l = [u] := h
      exact ⟨[], rfl, rfl⟩
  | succ k =>
      obtain ⟨p, front, hp, hfront, rfl⟩ := h
      exact ⟨front, rfl, p, front, (hparents p).mp hp, hfront, rfl⟩

variable [LinearOrder ν]

/-- The lexicographically last of these chains. -/
def LastTrail (r : ν → ν → Prop) (k : ℕ) (v : ν) (l : List ν) : Prop :=
  Trail r k v l ∧ ∀ l', Trail r k v l' → l' ≤ l

theorem LastTrail.unique {k : ℕ} {v : ν} {l l' : List ν} (h : LastTrail r k v l)
    (h' : LastTrail r k v l') : l = l' := le_antisymm (h'.2 l h.1) (h.2 l' h'.1)

/-- Two nodes of one depth, the first with the smaller last chain. -/
def ReachedBefore (r : ν → ν → Prop) (u v : ν) : Prop :=
  ∃ k l l', DepthIs r u k ∧ DepthIs r v k ∧ LastTrail r k u l ∧ LastTrail r k v l' ∧ l < l'

theorem ReachedBefore.asymm {u v : ν} (h : ReachedBefore r u v) : ¬ ReachedBefore r v u := by
  intro h'
  obtain ⟨k, l, l', hu, _, hl, hl', hlt⟩ := h
  obtain ⟨j, m', m, _, hu', hm', hm, hlt'⟩ := h'
  obtain rfl := hu.unique hu'
  rw [hl.unique hm, hl'.unique hm'] at hlt
  exact lt_asymm hlt hlt'

theorem append_singleton_lt_iff {l l' : List ν} (h : l.length = l'.length) (a b : ν) :
    l ++ [a] < l' ++ [b] ↔ l < l' ∨ (l = l' ∧ a < b) := by
  induction l generalizing l' with
  | nil =>
      obtain rfl : l' = [] := List.length_eq_zero_iff.mp h.symm
      simp [List.cons_lt_cons_iff]
  | cons c l ih =>
      cases l' with
      | nil => cases h
      | cons c' l' =>
          simp only [List.cons_append, List.cons_lt_cons_iff, ih (Nat.succ.inj h),
            List.cons.injEq]
          tauto

theorem append_singleton_le {l l' : List ν} (h : l.length = l'.length) (hle : l ≤ l') (a : ν) :
    l ++ [a] ≤ l' ++ [a] := by
  rcases hle.lt_or_eq with hlt | rfl
  · exact ((append_singleton_lt_iff h a a).mpr (Or.inl hlt)).le
  · exact le_rfl

/-! ### Nodes with the same parents -/

theorem LastTrail.exchange_last {k : ℕ} {u v : ν} {l : List ν} (hparents : ∀ p, r p u ↔ r p v)
    (h : LastTrail r k u l) : ∃ front, l = front ++ [u] ∧ LastTrail r k v (front ++ [v]) := by
  obtain ⟨front, rfl, hv⟩ := h.1.exchange_last hparents
  refine ⟨front, rfl, hv, fun l' hl' => ?_⟩
  obtain ⟨front', rfl, hu⟩ := hl'.exchange_last fun p => (hparents p).symm
  have hlen : front'.length = front.length := by
    have := hl'.length_eq.trans hv.length_eq.symm
    simpa using this
  apply append_singleton_le hlen
  rcases (h.2 _ hu).lt_or_eq with hlt | heq
  · rcases (append_singleton_lt_iff hlen u u).mp hlt with hlt | ⟨_, hlt⟩
    · exact hlt.le
    · exact absurd hlt (lt_irrefl u)
  · exact (List.append_cancel_right heq).le

/-- Nodes with the same parents are reached in their own order. -/
theorem ReachedBefore.lt_of_same_parents {u v : ν} (hparents : ∀ p, r p u ↔ r p v)
    (h : ReachedBefore r u v) : u < v := by
  obtain ⟨k, l, l', _, _, hl, hl', hlt⟩ := h
  obtain ⟨front, rfl, hv⟩ := hl.exchange_last hparents
  obtain rfl := hv.unique hl'
  rcases (append_singleton_lt_iff rfl u v).mp hlt with hlt | ⟨_, hlt⟩
  · exact absurd hlt (lt_irrefl front)
  · exact hlt

end Chains

namespace DiGraph

open Chains

variable {ν κ : Type*} [LinearOrder ν]

/-- The nodes of a level stand in the order of their last chains of `k` steps. -/
structure InOrder (g : DiGraph ν κ) (k : ℕ) (level : List ν) : Prop where
  exists_trail : ∀ v ∈ level, ∃ l, LastTrail g.Adj k v l
  pairwise : level.Pairwise fun u v =>
    ∀ l l', LastTrail g.Adj k u l → LastTrail g.Adj k v l' → l < l'

/-- The children that are ready after the nodes `seen` of depth `k` stand in the order of their
last chains, each of which runs through a node of `seen`. -/
structure ReadyInOrder (g : DiGraph ν κ) (k : ℕ) (seen ready : List ν) : Prop where
  exists_trail : ∀ v ∈ ready, ∃ u ∈ seen, ∃ l,
    LastTrail g.Adj k u l ∧ LastTrail g.Adj (k + 1) v (l ++ [v])
  pairwise : ready.Pairwise fun u v =>
    ∀ l l', LastTrail g.Adj (k + 1) u l → LastTrail g.Adj (k + 1) v l' → l < l'

theorem InOrder.lt_last {g : DiGraph ν κ} {k : ℕ} {seen : List ν} {n u : ν} {l l' : List ν}
    (h : g.InOrder k (seen ++ [n])) (hu : u ∈ seen) (hl : LastTrail g.Adj k u l)
    (hl' : LastTrail g.Adj k n l') : l < l' :=
  (List.pairwise_append.mp h.pairwise).2.2 u hu n (by simp) l l' hl hl'

/-- A child whose parents have all been visited has its last chain through the last of them. -/
theorem InOrder.lastTrail_child {g : DiGraph ν κ} {k : ℕ} {done seen : List ν} {n v : ν}
    {l : List ν} (h : g.InOrder k (seen ++ [n])) (hdone : ∀ u ∈ done, ¬ ChainTo g.Adj k u)
    (hl : LastTrail g.Adj k n l) (hadj : g.Adj n v)
    (hparents : ∀ u, g.Adj u v → u ∈ done ++ (seen ++ [n])) :
    LastTrail g.Adj (k + 1) v (l ++ [v]) := by
  refine ⟨⟨n, l, hadj, hl.1, rfl⟩, fun l₁ hl₁ => ?_⟩
  obtain ⟨u, l', huv, hl', rfl⟩ := hl₁
  have hlen : l'.length = l.length := by rw [hl'.length_eq, hl.1.length_eq]
  apply append_singleton_le hlen
  rcases List.mem_append.mp (hparents u huv) with hu | hu
  · exact absurd hl'.chainTo (hdone u hu)
  · rcases List.mem_append.mp hu with hu | hu
    · obtain ⟨m, hm⟩ := h.exists_trail u (List.mem_append_left _ hu)
      exact (hm.2 l' hl').trans (h.lt_last hu hm hl).le
    · obtain rfl := List.mem_singleton.mp hu
      exact hl.2 l' hl'

theorem ReadyInOrder.visit {g : DiGraph ν κ} {k : ℕ} {done seen : List ν} {f : Frontier ν} {n : ν}
    (h : g.ReadyInOrder k seen f.ready) (hvisited : Visited g done seen f)
    (hn : n ∉ done ++ seen) (hdone : ∀ u ∈ done, ¬ ChainTo g.Adj k u)
    (hlevel : g.InOrder k (seen ++ [n])) (hsorted : (g.successors n).Pairwise (· < ·)) :
    g.ReadyInOrder k (seen ++ [n]) (g.visit f n).ready := by
  obtain ⟨l, hl⟩ := hlevel.exists_trail n (by simp)
  have hparents := (hvisited.visit hn).mem_ready
  have hnew : ∀ v ∈ (g.successors n).filter (fun v => f.indegree v - 1 = 0),
      LastTrail g.Adj (k + 1) v (l ++ [v]) := by
    intro v hv
    have hready : v ∈ (g.visit f n).ready := by
      rw [visit_eq]
      exact List.mem_append_right _ hv
    exact hlevel.lastTrail_child hdone hl (mem_successors.mp (List.mem_of_mem_filter hv))
      ((hparents v).mp hready).2
  rw [visit_eq]
  refine ⟨fun v hv => ?_, List.pairwise_append.mpr ⟨h.pairwise, ?_, ?_⟩⟩
  · rcases List.mem_append.mp hv with hv | hv
    · obtain ⟨u, hu, l', hl', hv'⟩ := h.exists_trail v hv
      exact ⟨u, List.mem_append_left _ hu, l', hl', hv'⟩
    · exact ⟨n, by simp, l, hl, hnew v hv⟩
  · refine (hsorted.filter _).imp_of_mem ?_
    intro a b ha hb hab la lb hla hlb
    rw [hla.unique (hnew a ha), hlb.unique (hnew b hb), append_singleton_lt_iff rfl]
    exact Or.inr ⟨rfl, hab⟩
  · intro a ha b hb la lb hla hlb
    obtain ⟨u, hu, l', hl', ha'⟩ := h.exists_trail a ha
    have hlen : l'.length = l.length := by rw [hl'.1.length_eq, hl.1.length_eq]
    rw [hla.unique ha', hlb.unique (hnew b hb), append_singleton_lt_iff hlen]
    exact Or.inl (hlevel.lt_last hu hl' hl)

theorem ReadyInOrder.visitAll {g : DiGraph ν κ} {k : ℕ} {done seen : List ν} {f : Frontier ν}
    (h : g.ReadyInOrder k seen f.ready) (hvisited : Visited g done seen f) (rest : List ν)
    (hnodup : (done ++ seen ++ rest).Nodup) (hdone : ∀ u ∈ done, ¬ ChainTo g.Adj k u)
    (hlevel : g.InOrder k (seen ++ rest)) (hsorted : ∀ n, (g.successors n).Pairwise (· < ·)) :
    g.ReadyInOrder k (seen ++ rest) (rest.foldl g.visit f).ready := by
  induction rest generalizing seen f with
  | nil => simpa using h
  | cons n rest ih =>
      have hn : n ∉ done ++ seen := by
        intro hmem
        exact (List.nodup_append.mp hnodup).2.2 n hmem n (by simp) rfl
      have happ : seen ++ n :: rest = seen ++ [n] ++ rest := by simp
      rw [happ] at hlevel ⊢
      have hfront : g.InOrder k (seen ++ [n]) :=
        ⟨fun v hv => hlevel.exists_trail v (List.mem_append_left _ hv),
          (List.pairwise_append.mp hlevel.pairwise).1⟩
      exact ih (h.visit hvisited hn hdone hfront (hsorted n)) (hvisited.visit hn)
        (by simpa [List.append_assoc] using hnodup) hlevel

/-! ## The generations -/

theorem Progress.next_inOrder {g : DiGraph ν κ} {k : ℕ} {done : List ν} {indegree : ν → ℕ}
    {generation : List ν} (h : Progress g k done indegree generation)
    (hlevel : g.InOrder k generation) (hsorted : ∀ n, (g.successors n).Pairwise (· < ·)) :
    g.InOrder (k + 1) (g.nextGeneration indegree generation).ready := by
  have hstart : Visited g done [] ⟨indegree, []⟩ := ⟨by simpa using h.count, by simp, by simp⟩
  have hnone : g.ReadyInOrder k [] (⟨indegree, []⟩ : Frontier ν).ready := ⟨by simp, by simp⟩
  have hready : g.ReadyInOrder k generation (g.nextGeneration indegree generation).ready :=
    hnone.visitAll hstart generation (by simpa using h.nodup)
      (fun u hu => ((h.mem_done u).mp hu).2) hlevel hsorted
  refine ⟨fun v hv => ?_, hready.pairwise⟩
  obtain ⟨_, _, l, _, hl⟩ := hready.exists_trail v hv
  exact ⟨_, hl⟩

theorem inOrder_initial {g : DiGraph ν κ} (hnodes : g.nodes.Pairwise (· < ·)) :
    g.InOrder 0 (g.nodes.filter fun v => g.inDegree v = 0) := by
  have hlast : ∀ v, LastTrail g.Adj 0 v [v] := by
    intro v
    refine ⟨rfl, fun l hl => ?_⟩
    obtain rfl : l = [v] := hl
    exact le_rfl
  refine ⟨fun v _ => ⟨[v], hlast v⟩, (hnodes.filter _).imp ?_⟩
  intro u v huv l l' hl hl'
  rw [hl.unique (hlast u), hl'.unique (hlast v)]
  simpa [List.cons_lt_cons_iff] using huv

theorem Progress.generationsFrom_inOrder {g : DiGraph ν κ} {k : ℕ} {done : List ν}
    {indegree : ν → ℕ} {generation : List ν} (h : Progress g k done indegree generation)
    (hstart : g.InOrder k generation) (hsorted : ∀ n, (g.successors n).Pairwise (· < ·))
    (fuel : ℕ) {i : ℕ} {level : List ν}
    (hlevel : (g.generationsFrom fuel indegree generation)[i]? = some level) :
    g.InOrder (k + i) level := by
  induction fuel generalizing k done indegree generation i with
  | zero => simp [generationsFrom] at hlevel
  | succ fuel ih =>
      cases generation with
      | nil => simp [generationsFrom] at hlevel
      | cons node rest =>
          cases i with
          | zero =>
              simp only [generationsFrom, List.getElem?_cons_zero, Option.some.injEq] at hlevel
              subst hlevel
              exact hstart
          | succ i =>
              simp only [generationsFrom, List.getElem?_cons_succ] at hlevel
              have := ih h.next (h.next_inOrder hstart hsorted) hlevel
              rwa [show k + 1 + i = k + (i + 1) by omega] at this

/-- With nodes and children listed in increasing order, the generations list the nodes by depth
and by their last longest chains. -/
theorem topologicalGenerations_pairwise {g : DiGraph ν κ} {gens : List (List ν)}
    (h : g.topologicalGenerations = some gens) (hnodes : g.nodes.Pairwise (· < ·))
    (hsorted : ∀ n, (g.successors n).Pairwise (· < ·)) :
    gens.flatten.Pairwise fun u v => Shallower g.Adj u v ∨ ReachedBefore g.Adj u v := by
  have hspec := topologicalGenerations_spec h
  rw [List.pairwise_flatten]
  constructor
  · intro level hlevel
    obtain ⟨k, hk⟩ := List.mem_iff_getElem?.mp hlevel
    have hinOrder : g.InOrder k level := by
      simp only [topologicalGenerations] at h
      split at h
      · obtain rfl := Option.some.inj h
        simpa using (Progress.initial g).generationsFrom_inOrder (inOrder_initial hnodes) hsorted _ hk
      · cases h
    refine hinOrder.pairwise.imp_of_mem ?_
    intro u v hu hv hlt
    obtain ⟨l, hl⟩ := hinOrder.exists_trail u hu
    obtain ⟨l', hl'⟩ := hinOrder.exists_trail v hv
    exact Or.inr ⟨k, l, l', hspec.depth k level hk u hu, hspec.depth k level hk v hv, hl, hl',
      hlt l l' hl hl'⟩
  · refine hspec.pairwise.imp ?_
    intro level level' h u hu v hv
    exact Or.inl (h u hu v hv)

end DiGraph
