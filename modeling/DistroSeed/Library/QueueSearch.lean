import DistroSeed.Library.Chains
import DistroSeed.Library.Outcome
import Mathlib.Data.Nat.Find

/-! Breadth-first search with a queue and no record of the visited nodes. The
search runs through the layers of the frontier, so it can end without a hit only
when some layer is empty. -/

namespace QueueSearch

open Chains Relation

universe u v

variable {ν : Type u} {ε : Type u} {β : Type v}

/-- Pop the head of the queue; stop on a hit, otherwise queue what follows it. -/
def search (next : ν → List ν) (found : ν → Option β) : ℕ → List ν → Outcome ε (Option β)
  | _, [] => .returned none
  | 0, _ :: _ => .running
  | fuel + 1, current :: queue =>
      match found current with
      | some hit => .returned (some hit)
      | none => search next found fuel (queue ++ next current)

/-- The nodes reached from the queue after `k` rounds of expansion, with repetitions. -/
def layer (next : ν → List ν) : ℕ → List ν → List ν
  | 0, queue => queue
  | k + 1, queue => layer next k (queue.flatMap next)

variable (next : ν → List ν) (found : ν → Option β)

/-- The first layer with a hit is layer `k`, and `hit` is the first one in it. -/
def FirstHit (queue : List ν) (hit : β) : Prop :=
  ∃ k, (∀ j < k, (layer next j queue).findSome? found = none) ∧
    (layer next k queue).findSome? found = some hit

/-- No node that the queue leads to is a hit. -/
def NoHit (queue : List ν) : Prop :=
  ∀ k, (layer next k queue).findSome? found = none

variable {next found}

@[simp] theorem layer_zero (queue : List ν) : layer next 0 queue = queue := rfl

theorem layer_succ (k : ℕ) (queue : List ν) :
    layer next (k + 1) queue = layer next k (queue.flatMap next) := rfl

/-! ## The layers -/

/-- A layer is empty exactly when no chain of its length ends in the queue. -/
theorem layer_eq_nil_iff (k : ℕ) (queue : List ν) :
    layer next k queue = [] ↔ ∀ v ∈ queue, ¬ ChainTo (fun u v => u ∈ next v) k v := by
  induction k generalizing queue with
  | zero => simp [List.eq_nil_iff_forall_not_mem]
  | succ k ih =>
      rw [layer_succ, ih]
      simp only [List.mem_flatMap, chainTo_succ, not_exists, not_and]
      constructor
      · intro h v hv u hu
        exact h u ⟨v, hv, hu⟩
      · intro h u hexists
        rcases hexists with ⟨v, hv, hu⟩
        exact h v hv u hu

/-- Layer `k` holds the nodes that are `k` steps away from the queue. -/
theorem mem_layer_iff (k : ℕ) (queue : List ν) (w : ν) :
    w ∈ layer next k queue ↔ ∃ v ∈ queue, Steps (fun u v => u ∈ next v) k w v := by
  induction k generalizing queue with
  | zero =>
      constructor
      · intro h
        exact ⟨w, h, rfl⟩
      · rintro ⟨v, hv, rfl⟩
        exact hv
  | succ k ih =>
      rw [layer_succ, ih]
      constructor
      · rintro ⟨u, hu, hwu⟩
        obtain ⟨v, hv, huv⟩ := List.mem_flatMap.mp hu
        exact ⟨v, hv, u, hwu, huv⟩
      · rintro ⟨v, hv, u, hwu, huv⟩
        exact ⟨u, List.mem_flatMap.mpr ⟨v, hv, huv⟩, hwu⟩

/-- The layers together hold the nodes from which the queue is reached. -/
theorem exists_mem_layer_iff (queue : List ν) (w : ν) :
    (∃ k, w ∈ layer next k queue) ↔
      ∃ v ∈ queue, ReflTransGen (fun u v => u ∈ next v) w v := by
  constructor
  · intro hexists
    rcases hexists with ⟨k, hk⟩
    induction k generalizing queue with
    | zero => exact ⟨w, hk, .refl⟩
    | succ k ih =>
        obtain ⟨u, hu, hwu⟩ := ih _ hk
        obtain ⟨v, hv, huv⟩ := List.mem_flatMap.mp hu
        exact ⟨v, hv, hwu.tail huv⟩
  · intro hexists
    rcases hexists with ⟨v, hv, hwv⟩
    induction hwv generalizing queue with
    | refl => exact ⟨0, hv⟩
    | tail _ hab ih =>
        obtain ⟨k, hk⟩ := ih _ (List.mem_flatMap.mpr ⟨_, hv, hab⟩)
        exact ⟨k + 1, hk⟩

theorem noHit_iff (queue : List ν) :
    NoHit next found queue ↔
      ∀ w, (∃ v ∈ queue, ReflTransGen (fun u v => u ∈ next v) w v) → found w = none := by
  simp only [NoHit, List.findSome?_eq_none_iff, ← exists_mem_layer_iff]
  constructor
  · intro h w hexists
    rcases hexists with ⟨k, hk⟩
    exact h k w hk
  · intro h k w hk
    exact h w ⟨k, hk⟩

theorem not_noHit_iff (queue : List ν) :
    ¬ NoHit next found queue ↔ ∃ hit, FirstHit next found queue hit := by
  classical
  constructor
  · intro h
    simp only [NoHit, not_forall] at h
    obtain ⟨hit, hhit⟩ := Option.ne_none_iff_exists'.mp (Nat.find_spec h)
    exact ⟨hit, Nat.find h, fun j hj => not_not.mp (Nat.find_min h hj), hhit⟩
  · intro hexists h
    rcases hexists with ⟨hit, k, _, hk⟩
    rw [h k] at hk
    cases hk

theorem FirstHit.unique {queue : List ν} {hit hit' : β} (h : FirstHit next found queue hit)
    (h' : FirstHit next found queue hit') : hit = hit' := by
  obtain ⟨k, hbefore, hk⟩ := h
  obtain ⟨j, hbefore', hj⟩ := h'
  have hkj : ¬ k < j := by
    intro hlt
    rw [hbefore' k hlt] at hk
    cases hk
  have hjk : ¬ j < k := by
    intro hlt
    rw [hbefore j hlt] at hj
    cases hj
  obtain rfl : k = j := by omega
  rw [hk] at hj
  exact Option.some.inj hj

/-! ## Running the search -/

theorem search_mono {fuel fuel' : ℕ} {queue : List ν} {result : Option β} (hle : fuel ≤ fuel')
    (h : search (ε := ε) next found fuel queue = .returned result) :
    search (ε := ε) next found fuel' queue = .returned result := by
  induction fuel generalizing fuel' queue with
  | zero =>
      cases queue with
      | nil => simpa [search] using h
      | cons current queue => simp [search] at h
  | succ fuel ih =>
      obtain ⟨fuel', rfl⟩ : ∃ n, fuel' = n + 1 := ⟨fuel' - 1, by omega⟩
      cases queue with
      | nil => simpa [search] using h
      | cons current queue =>
          simp only [search] at h ⊢
          cases hfound : found current with
          | some hit => simpa [hfound] using h
          | none =>
              simp only [hfound] at h ⊢
              exact ih (by omega) h

theorem search_unique {fuel fuel' : ℕ} {queue : List ν} {a b : Option β}
    (ha : search (ε := ε) next found fuel queue = .returned a)
    (hb : search (ε := ε) next found fuel' queue = .returned b) : a = b := by
  have ha' := search_mono (Nat.le_max_left fuel fuel') ha
  have hb' := search_mono (Nat.le_max_right fuel fuel') hb
  rw [ha'] at hb'
  exact Outcome.returned.inj hb'

/-- The search never raises. -/
theorem search_ne_raised (fuel : ℕ) (queue : List ν) (e : ε) :
    search next found fuel queue ≠ .raised e := by
  induction fuel generalizing queue with
  | zero => cases queue <;> simp [search]
  | succ fuel ih =>
      cases queue with
      | nil => simp [search]
      | cons current queue =>
          cases hfound : found current with
          | some hit => simp [search, hfound]
          | none => simpa [search, hfound] using ih _

/-- A front part of the queue without a hit is replaced by its expansion at the back. -/
theorem search_expand (fuel : ℕ) (front queue : List ν) (h : ∀ v ∈ front, found v = none) :
    search (ε := ε) next found (front.length + fuel) (front ++ queue) =
      search next found fuel (queue ++ front.flatMap next) := by
  induction front generalizing queue with
  | nil => simp
  | cons current front ih =>
      have hlen : (current :: front).length + fuel = front.length + fuel + 1 := by
        simp only [List.length_cons]
        omega
      rw [hlen, List.cons_append, search, h current (by simp)]
      simp only [List.append_assoc]
      rw [ih _ fun v hv => h v (by simp [hv])]
      simp [List.append_assoc]

/-- Layers without a hit cost as many rounds as they have entries. -/
theorem search_layers (k fuel : ℕ) (queue : List ν)
    (h : ∀ j < k, (layer next j queue).findSome? found = none) :
    ∃ cost, ((∀ j < k, layer next j queue ≠ []) → k ≤ cost) ∧
      search (ε := ε) next found (cost + fuel) queue = search next found fuel (layer next k queue) := by
  induction k generalizing queue with
  | zero => exact ⟨0, by simp, by simp⟩
  | succ k ih =>
      have hnow := h 0 (by omega)
      obtain ⟨cost, hcost, hsearch⟩ := ih (queue.flatMap next) fun j hj => h (j + 1) (by omega)
      refine ⟨queue.length + cost, ?_, ?_⟩
      · intro hne
        have hpos := List.length_pos_iff.mpr (hne 0 (by omega))
        have := hcost fun j hj => hne (j + 1) (by omega)
        simp only [layer_zero] at hpos
        omega
      · have hexpand : search (ε := ε) next found (queue.length + (cost + fuel)) (queue ++ []) = _ :=
          search_expand (cost + fuel) queue [] (by simpa using hnow)
        rw [List.append_nil, List.nil_append] at hexpand
        rw [Nat.add_assoc, hexpand, hsearch, layer_succ]

theorem search_front_hit (front : List ν) {queue : List ν} {hit : β}
    (h : front.findSome? found = some hit) :
    search (ε := ε) next found front.length (front ++ queue) = .returned (some hit) := by
  induction front generalizing queue with
  | nil => simp at h
  | cons current front ih =>
      simp only [List.findSome?_cons] at h
      rw [List.length_cons, List.cons_append, search]
      cases hfound : found current with
      | some hit' => simpa [hfound] using h
      | none =>
          simp only [hfound] at h ⊢
          rw [List.append_assoc]
          exact ih h

/-! ## What the search returns -/

theorem search_of_firstHit {queue : List ν} {hit : β} (h : FirstHit next found queue hit) :
    ∃ fuel, search (ε := ε) next found fuel queue = .returned (some hit) := by
  obtain ⟨k, hbefore, hk⟩ := h
  obtain ⟨cost, _, hsearch⟩ := search_layers (ε := ε) k (layer next k queue).length queue hbefore
  refine ⟨cost + (layer next k queue).length, ?_⟩
  have hhit : search (ε := ε) next found (layer next k queue).length (layer next k queue ++ []) = _ :=
    search_front_hit (layer next k queue) hk
  rw [List.append_nil] at hhit
  rw [hsearch, hhit]

theorem search_of_exhausted {queue : List ν} {k : ℕ} (hnone : NoHit next found queue)
    (hk : layer next k queue = []) :
    ∃ fuel, search (ε := ε) next found fuel queue = .returned none := by
  obtain ⟨cost, _, hsearch⟩ := search_layers (ε := ε) k 0 queue fun j _ => hnone j
  refine ⟨cost + 0, ?_⟩
  rw [hsearch, hk, search]

/-- Without a hit and without an empty layer the loop never ends. -/
theorem search_running {queue : List ν} (hnone : NoHit next found queue)
    (hne : ∀ k, layer next k queue ≠ []) (fuel : ℕ) :
    search (ε := ε) next found fuel queue = .running := by
  obtain ⟨cost, hcost, hsearch⟩ := search_layers (ε := ε) fuel 0 queue fun j _ => hnone j
  have hle : fuel ≤ cost + 0 := hcost fun j _ => hne j
  cases hfuel : search (ε := ε) next found fuel queue with
  | running => rfl
  | raised e => exact absurd hfuel (search_ne_raised fuel queue e)
  | returned result =>
      have hrun := search_mono hle hfuel
      rw [hsearch] at hrun
      cases hlayer : layer next fuel queue with
      | nil => exact absurd hlayer (hne fuel)
      | cons current rest => simp [hlayer, search] at hrun

theorem search_eq_some_iff {queue : List ν} {hit : β} :
    (∃ fuel, search (ε := ε) next found fuel queue = .returned (some hit)) ↔
      FirstHit next found queue hit := by
  refine ⟨?_, search_of_firstHit⟩
  intro hexists
  rcases hexists with ⟨fuel, hfuel⟩
  by_cases hnone : NoHit next found queue
  · by_cases hne : ∀ k, layer next k queue ≠ []
    · rw [search_running hnone hne] at hfuel
      cases hfuel
    · simp only [not_forall, not_not] at hne
      obtain ⟨k, hk⟩ := hne
      obtain ⟨fuel', hfuel'⟩ := search_of_exhausted (ε := ε) hnone hk
      cases search_unique hfuel hfuel'
  · obtain ⟨hit', hhit'⟩ := (not_noHit_iff queue).mp hnone
    obtain ⟨fuel', hfuel'⟩ := search_of_firstHit (ε := ε) hhit'
    cases search_unique hfuel hfuel'
    exact hhit'

theorem search_eq_none_iff {queue : List ν} :
    (∃ fuel, search (ε := ε) next found fuel queue = .returned none) ↔
      NoHit next found queue ∧ ∃ k, layer next k queue = [] := by
  constructor
  · intro hexists
    rcases hexists with ⟨fuel, hfuel⟩
    have hnone : NoHit next found queue := by
      by_contra h
      obtain ⟨hit, hhit⟩ := (not_noHit_iff queue).mp h
      obtain ⟨fuel', hfuel'⟩ := search_of_firstHit (ε := ε) hhit
      cases search_unique hfuel hfuel'
    refine ⟨hnone, ?_⟩
    by_contra hne
    simp only [not_exists] at hne
    rw [search_running hnone hne] at hfuel
    cases hfuel
  · intro hexists
    rcases hexists with ⟨hnone, k, hk⟩
    exact search_of_exhausted hnone hk

/-- The search ends exactly when there is a hit to find or the layers run out. -/
theorem search_ends_iff {queue : List ν} :
    (∃ fuel, (search (ε := ε) next found fuel queue).Ended) ↔
      (∃ hit, FirstHit next found queue hit) ∨ ∃ k, layer next k queue = [] := by
  constructor
  · intro hexists
    rcases hexists with ⟨fuel, hended⟩
    cases hfuel : search (ε := ε) next found fuel queue with
    | running => exact absurd hfuel hended
    | raised e => exact absurd hfuel (search_ne_raised fuel queue e)
    | returned result =>
        cases result with
        | some hit => exact Or.inl ⟨hit, search_eq_some_iff.mp ⟨fuel, hfuel⟩⟩
        | none => exact Or.inr (search_eq_none_iff.mp ⟨fuel, hfuel⟩).2
  · intro h
    by_cases hnone : NoHit next found queue
    · rcases h with ⟨hit, hhit⟩ | ⟨k, hk⟩
      · exact absurd hnone ((not_noHit_iff queue).mpr ⟨hit, hhit⟩)
      · obtain ⟨fuel, hfuel⟩ := search_of_exhausted (ε := ε) hnone hk
        exact ⟨fuel, by simp [Outcome.Ended, hfuel]⟩
    · obtain ⟨hit, hhit⟩ := (not_noHit_iff queue).mp hnone
      obtain ⟨fuel, hfuel⟩ := search_of_firstHit (ε := ε) hhit
      exact ⟨fuel, by simp [Outcome.Ended, hfuel]⟩

end QueueSearch
