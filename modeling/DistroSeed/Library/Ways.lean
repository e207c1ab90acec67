import DistroSeed.Library.QueueSearch
import Mathlib.Data.List.Lex

/-! The hit of a breadth-first search as a least way: the queue keeps the nodes of a layer in the
order of the ways that lead to them, step by step, so the first hit hangs on the first of them. -/

namespace QueueSearch

variable {ν σ β : Type*}

/-- The steps of a walk that starts at a node, and the node at which it ends. -/
inductive Way (step : ν → σ → Prop) (target : σ → ν) : ν → List σ → ν → Prop where
  | single {v s} : step v s → Way step target v [s] (target s)
  | cons {v s way w} : step v s → Way step target (target s) way w →
      Way step target v (s :: way) w

/-- The way with its hit comes before the other one: at the first step that differs or, on the same
way, by the hits. -/
def Earlier (r : σ → σ → Prop) (r' : β → β → Prop) (c c' : List σ × β) : Prop :=
  List.Lex r c.1 c'.1 ∨ (c.1 = c'.1 ∧ r' c.2 c'.2)

theorem Earlier.asymm {r : σ → σ → Prop} {r' : β → β → Prop} (hr : ∀ s s', r s s' → ¬ r s' s)
    (hr' : ∀ b b', r' b b' → ¬ r' b' b) {c c' : List σ × β} (h : Earlier r r' c c') :
    ¬ Earlier r r' c' c := by
  have : Std.Asymm r := ⟨hr⟩
  have hself : ∀ l : List σ, ¬ List.Lex r l l := irrefl_of (List.Lex r)
  intro h'
  rcases h with h | ⟨heq, h⟩
  · rcases h' with h' | ⟨heq, _⟩
    · exact asymm_of (List.Lex r) h h'
    · exact hself _ (heq ▸ h)
  · rcases h' with h' | ⟨_, h'⟩
    · exact hself _ (heq ▸ h')
    · exact hr' _ _ h h'

theorem Earlier.cons {r : σ → σ → Prop} {r' : β → β → Prop} {c c' : List σ × β} (s : σ)
    (h : Earlier r r' c c') : Earlier r r' (s :: c.1, c.2) (s :: c'.1, c'.2) := by
  rcases h with h | ⟨heq, h⟩
  · exact Or.inl (.cons h)
  · exact Or.inr ⟨congrArg (s :: ·) heq, h⟩

/-! ## The layers -/

theorem layer_append (next : ν → List ν) (k : ℕ) (front back : List ν) :
    layer next k (front ++ back) = layer next k front ++ layer next k back := by
  induction k generalizing front back with
  | zero => rfl
  | succ k ih => rw [layer_succ, List.flatMap_append, ih, layer_succ, layer_succ]

/-- What stands in a later layer stands there in the order of the queue. -/
theorem layer_flatMap (next : ν → List ν) (k : ℕ) (queue : List ν) :
    layer next k (queue.flatMap next) = queue.flatMap fun v => layer next k (next v) := by
  induction queue with
  | nil =>
      induction k with
      | zero => rfl
      | succ k ih => exact ih
  | cons v queue ih => rw [List.flatMap_cons, layer_append, ih, List.flatMap_cons]

section Candidates

variable (out : ν → List σ) (target : σ → ν) (hits : ν → List β)

/-- The ways of `k + 1` steps with the hits of their last nodes, in the order of the search. -/
def candidates : ℕ → ν → List (List σ × β)
  | 0, v => (out v).flatMap fun s => (hits (target s)).map fun b => ([s], b)
  | k + 1, v => (out v).flatMap fun s => (candidates k (target s)).map fun c => (s :: c.1, c.2)

variable {out target hits}

/-- The first hit of a layer belongs to the first candidate. -/
theorem findSome?_layer_eq (k : ℕ) (v : ν) :
    (layer (fun w => (out w).map target) k ((out v).map target)).findSome? (fun w => (hits w).head?) =
      (candidates out target hits k v).head?.map Prod.snd := by
  induction k generalizing v with
  | zero =>
      rw [layer_zero, candidates, List.findSome?_map, List.head?_flatMap, List.map_findSome?]
      refine congrArg (List.findSome? · (out v)) (funext fun s => ?_)
      rw [Function.comp_apply, Function.comp_apply, List.head?_map, Option.map_map]
      exact (Option.map_id' (x := (hits (target s)).head?)).symm
  | succ k ih =>
      rw [layer_succ, layer_flatMap, candidates, ← List.head?_filterMap, List.filterMap_flatMap,
        List.head?_flatMap, List.findSome?_map, List.head?_flatMap, List.map_findSome?]
      refine congrArg (List.findSome? · (out v)) (funext fun s => ?_)
      rw [Function.comp_apply, Function.comp_apply, List.head?_filterMap, ih, List.head?_map,
        Option.map_map]
      rfl

theorem mem_candidates_iff {k : ℕ} {v : ν} {c : List σ × β} :
    c ∈ candidates out target hits k v ↔
      c.1.length = k + 1 ∧ ∃ w, Way (fun v s => s ∈ out v) target v c.1 w ∧ c.2 ∈ hits w := by
  induction k generalizing v c with
  | zero =>
      simp only [candidates, List.mem_flatMap, List.mem_map]
      constructor
      · rintro ⟨s, hs, b, hb, rfl⟩
        exact ⟨rfl, target s, .single hs, hb⟩
      · obtain ⟨way, b⟩ := c
        rintro ⟨hlength, w, hway, hb⟩
        cases hway with
        | single hs => exact ⟨_, hs, b, hb, rfl⟩
        | cons _ hway => cases hway <;> cases hlength
  | succ k ih =>
      simp only [candidates, List.mem_flatMap, List.mem_map]
      constructor
      · rintro ⟨s, hs, c', hc', rfl⟩
        obtain ⟨hlength, w, hway, hb⟩ := ih.mp hc'
        exact ⟨congrArg Nat.succ hlength, w, .cons hs hway, hb⟩
      · obtain ⟨way, b⟩ := c
        rintro ⟨hlength, w, hway, hb⟩
        cases hway with
        | single _ => cases hlength
        | @cons _ s rest _ hs hway =>
            exact ⟨s, hs, (rest, b), ih.mpr ⟨Nat.succ.inj hlength, w, hway, hb⟩, rfl⟩

/-- The candidates stand in the order of their ways if steps and hits do; hits may be repeated. -/
theorem pairwise_candidates (target : σ → ν) {r : σ → σ → Prop} {r' : β → β → Prop}
    (hout : ∀ v, (out v).Pairwise r) (hhits : ∀ v, (hits v).Pairwise fun b b' => b = b' ∨ r' b b')
    (k : ℕ) (v : ν) :
    (candidates out target hits k v).Pairwise fun c c' => c = c' ∨ Earlier r r' c c' := by
  induction k generalizing v with
  | zero =>
      rw [candidates, List.pairwise_flatMap]
      constructor
      · intro s _
        rw [List.pairwise_map]
        refine (hhits _).imp fun h => h.imp (fun heq => ?_) fun hlt => Or.inr ⟨rfl, hlt⟩
        rw [heq]
      · refine (hout v).imp fun hlt c hc c' hc' => ?_
        obtain ⟨b, _, rfl⟩ := List.mem_map.mp hc
        obtain ⟨b', _, rfl⟩ := List.mem_map.mp hc'
        exact Or.inr (Or.inl (.rel hlt))
  | succ k ih =>
      rw [candidates, List.pairwise_flatMap]
      constructor
      · intro s _
        rw [List.pairwise_map]
        refine (ih _).imp fun h => h.imp (fun heq => ?_) fun hlt => hlt.cons s
        rw [heq]
      · refine (hout v).imp fun hlt c hc c' hc' => ?_
        obtain ⟨d, _, rfl⟩ := List.mem_map.mp hc
        obtain ⟨d', _, rfl⟩ := List.mem_map.mp hc'
        exact Or.inr (Or.inl (.rel hlt))

end Candidates

/-! ## The first hit -/

section First

variable (step : ν → σ → Prop) (target : σ → ν) (hit : ν → β → Prop)

/-- A way from the node with a hit of its last node. -/
def IsCandidate (v : ν) (c : List σ × β) : Prop := ∃ w, Way step target v c.1 w ∧ hit w c.2

/-- No way with a hit has fewer steps. -/
def Nearest (v : ν) (c : List σ × β) : Prop :=
  IsCandidate step target hit v c ∧
    ∀ c', IsCandidate step target hit v c' → c.1.length ≤ c'.1.length

/-- The first one of the nearest candidates. -/
def First (r : σ → σ → Prop) (r' : β → β → Prop) (v : ν) (c : List σ × β) : Prop :=
  Nearest step target hit v c ∧
    ∀ c', Nearest step target hit v c' → c = c' ∨ Earlier r r' c c'

variable {step target hit} {out : ν → List σ} {hits : ν → List β} {r : σ → σ → Prop}
  {r' : β → β → Prop}

theorem Way.length_pos {v w : ν} {way : List σ} (h : Way step target v way w) : 0 < way.length := by
  cases h with
  | single _ => exact Nat.one_pos
  | cons _ _ => exact Nat.succ_pos _

section Search

variable (hstep : ∀ v s, s ∈ out v ↔ step v s) (hhit : ∀ v b, b ∈ hits v ↔ hit v b)

include hstep hhit

theorem mem_candidates_iff_isCandidate {k : ℕ} {v : ν} {c : List σ × β} :
    c ∈ candidates out target hits k v ↔
      c.1.length = k + 1 ∧ IsCandidate step target hit v c := by
  have hsteps : (fun v s => s ∈ out v) = step := funext₂ fun v s => propext (hstep v s)
  rw [mem_candidates_iff, hsteps]
  simp only [hhit, IsCandidate]

/-- The search ends with the first candidate of the first layer that has any. -/
theorem firstHit_iff_head?_candidates {v : ν} {b : β} :
    FirstHit (fun w => (out w).map target) (fun w => (hits w).head?) ((out v).map target) b ↔
      ∃ k, (∀ j < k, ∀ c, IsCandidate step target hit v c → c.1.length ≠ j + 1) ∧
        ∃ way, (candidates out target hits k v).head? = some (way, b) := by
  have hempty : ∀ k, (candidates out target hits k v).head?.map Prod.snd = none ↔
      ∀ c, IsCandidate step target hit v c → c.1.length ≠ k + 1 := by
    intro k
    rw [Option.map_eq_none_iff, List.head?_eq_none_iff, List.eq_nil_iff_forall_not_mem]
    simp only [mem_candidates_iff_isCandidate hstep hhit, not_and]
    exact forall_congr' fun c => ⟨fun h hc hk => h hk hc, fun h hk hc => h hc hk⟩
  simp only [FirstHit, findSome?_layer_eq, hempty, Option.map_eq_some_iff, Prod.exists,
    exists_eq_right]

variable (hout : ∀ v, (out v).Pairwise r)
  (hhits : ∀ v, (hits v).Pairwise fun b b' => b = b' ∨ r' b b')

include hout hhits

/-- The candidate at the head of the first layer that has any is the first of the nearest ones. -/
theorem first_of_head?_candidates {k : ℕ} {v : ν} {c : List σ × β}
    (hbefore : ∀ j < k, ∀ c, IsCandidate step target hit v c → c.1.length ≠ j + 1)
    (hhead : (candidates out target hits k v).head? = some c) : First step target hit r r' v c := by
  have hmem : ∀ c, c ∈ candidates out target hits k v ↔
      c.1.length = k + 1 ∧ IsCandidate step target hit v c :=
    fun c => mem_candidates_iff_isCandidate hstep hhit
  obtain ⟨rest, hrest⟩ := List.head?_eq_some_iff.mp hhead
  obtain ⟨hlength, hcandidate⟩ := (hmem c).mp (List.mem_of_head? hhead)
  have hleast : ∀ c', IsCandidate step target hit v c' → k + 1 ≤ c'.1.length := by
    intro c' hc'
    obtain ⟨w, hway, _⟩ := id hc'
    have hpos := hway.length_pos
    by_contra hlt
    exact hbefore (c'.1.length - 1) (by omega) c' hc' (by omega)
  refine ⟨⟨hcandidate, fun c' hc' => hlength ▸ hleast c' hc'⟩, fun c' hc' => ?_⟩
  have hmem' : c' ∈ candidates out target hits k v := by
    refine (hmem c').mpr ⟨?_, hc'.1⟩
    have hle := hc'.2 _ hcandidate
    have hge := hleast c' hc'.1
    omega
  have hpairwise := pairwise_candidates target hout hhits k v
  rw [hrest] at hmem' hpairwise
  rcases List.mem_cons.mp hmem' with heq | hmem'
  · exact Or.inl heq.symm
  · exact (List.pairwise_cons.mp hpairwise).1 c' hmem'

/-- The first of the nearest candidates is at the head of its layer. -/
theorem head?_candidates_of_first (hr : ∀ s s', r s s' → ¬ r s' s)
    (hr' : ∀ b b', r' b b' → ¬ r' b' b) {k : ℕ} {v : ν} {c : List σ × β}
    (hlength : c.1.length = k + 1) (hfirst : First step target hit r r' v c) :
    (candidates out target hits k v).head? = some c := by
  have hmem : ∀ c, c ∈ candidates out target hits k v ↔
      c.1.length = k + 1 ∧ IsCandidate step target hit v c :=
    fun c => mem_candidates_iff_isCandidate hstep hhit
  have hself : c ∈ candidates out target hits k v := (hmem c).mpr ⟨hlength, hfirst.1.1⟩
  obtain ⟨d, rest, hrest⟩ := List.exists_cons_of_ne_nil (List.ne_nil_of_mem hself)
  have hd : d ∈ candidates out target hits k v := hrest ▸ List.mem_cons_self
  obtain ⟨hdlength, hcandidate⟩ := (hmem d).mp hd
  have hnear : Nearest step target hit v d :=
    ⟨hcandidate, fun c' hc' => (hdlength.trans hlength.symm) ▸ hfirst.1.2 c' hc'⟩
  have hpairwise := pairwise_candidates target hout hhits k v
  rw [hrest] at hself hpairwise
  have hsame : d = c := by
    rcases List.mem_cons.mp hself with heq | hmem'
    · exact heq.symm
    rcases (List.pairwise_cons.mp hpairwise).1 _ hmem' with heq | hlt
    · exact heq
    rcases hfirst.2 d hnear with heq | hlt'
    · exact heq.symm
    · exact absurd hlt' (Earlier.asymm hr hr' hlt)
  rw [hrest, hsame, List.head?_cons]

/-- The search finds the hit of the first one of the nearest candidates. -/
theorem firstHit_iff (hr : ∀ s s', r s s' → ¬ r s' s) (hr' : ∀ b b', r' b b' → ¬ r' b' b) {v : ν}
    {b : β} :
    FirstHit (fun w => (out w).map target) (fun w => (hits w).head?) ((out v).map target) b ↔
      ∃ way, First step target hit r r' v (way, b) := by
  rw [firstHit_iff_head?_candidates hstep hhit]
  constructor
  · rintro ⟨k, hbefore, way, hhead⟩
    exact ⟨way, first_of_head?_candidates hstep hhit hout hhits hbefore hhead⟩
  · rintro ⟨way, hfirst⟩
    obtain ⟨w, hway, _⟩ := id hfirst.1.1
    obtain ⟨k, hk⟩ : ∃ k, way.length = k + 1 := Nat.exists_eq_succ_of_ne_zero hway.length_pos.ne'
    refine ⟨k, fun j hj c hc hlength => ?_, way, ?_⟩
    · have hle := hfirst.1.2 c hc
      dsimp only at hle
      omega
    · exact head?_candidates_of_first hstep hhit hout hhits hr hr' hk hfirst

end Search

end First

end QueueSearch
