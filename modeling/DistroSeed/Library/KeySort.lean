import Mathlib.Data.List.Sort

/-! Stable sorting by a key, and positions in lists without repetitions. -/

namespace KeySort

variable {α β : Type*}

/-! ## Positions -/

section Positions

variable [DecidableEq α]

theorem pair_sublist_iff_idxOf_lt {l : List α} (hl : l.Nodup) {a b : α} (hb : b ∈ l) :
    [a, b].Sublist l ↔ l.idxOf a < l.idxOf b := by
  induction l with
  | nil => cases hb
  | cons c l ih =>
      obtain ⟨hc, hl⟩ := List.nodup_cons.mp hl
      by_cases hbc : b = c
      · subst hbc
        simp only [List.idxOf_cons_self, Nat.not_lt_zero, iff_false]
        intro hsub
        cases hsub with
        | cons _ hsub => exact hc (hsub.subset (by simp))
        | cons_cons _ hsub => exact hc (hsub.subset (by simp))
      · have hbl : b ∈ l := by simpa [hbc] using hb
        rw [List.idxOf_cons_ne _ (Ne.symm hbc)]
        by_cases hac : a = c
        · subst hac
          simp [hbl]
        · rw [List.idxOf_cons_ne _ (Ne.symm hac), Nat.succ_lt_succ_iff, ← ih hl hbl]
          refine ⟨fun hsub => ?_, fun hsub => hsub.cons c⟩
          cases hsub with
          | cons _ hsub => exact hsub
          | cons_cons _ _ => exact absurd rfl hac

/-- In a list ordered by an asymmetric relation, positions compare by the relation. -/
theorem idxOf_lt_iff_of_pairwise {l : List α} {R : α → α → Prop} (hl : l.Nodup)
    (hR : l.Pairwise R) (hasymm : ∀ a b, R a b → ¬ R b a) {a b : α} (ha : a ∈ l) (hb : b ∈ l)
    (hab : a ≠ b) : l.idxOf a < l.idxOf b ↔ R a b := by
  rw [List.pairwise_iff_forall_sublist] at hR
  constructor
  · intro hlt
    exact hR ((pair_sublist_iff_idxOf_lt hl hb).mpr hlt)
  · intro hRab
    by_contra hlt
    have hne : l.idxOf a ≠ l.idxOf b := fun h => hab ((List.idxOf_inj ha).mp h)
    exact hasymm a b hRab (hR ((pair_sublist_iff_idxOf_lt hl ha).mpr (by omega)))

end Positions

/-! ## Orders by several criteria -/

/-- A first criterion and, where it does not decide, a second one. -/
theorem asymm_then {R S : α → α → Prop} (hR : ∀ a b, R a b → ¬ R b a)
    (hS : ∀ a b, S a b → ¬ S b a) {a b : α} (h : R a b ∨ (¬ R b a ∧ S a b)) :
    ¬ (R b a ∨ (¬ R a b ∧ S b a)) := by
  rcases h with hab | ⟨hba, hab⟩
  · intro hcases
    rcases hcases with hba | ⟨hnot, _⟩
    · exact hR a b hab hba
    · exact hnot hab
  · intro hcases
    rcases hcases with hba' | ⟨_, hba'⟩
    · exact hba hba'
    · exact hS a b hab hba'

/-- A key and, where it is equal, a second criterion. -/
theorem asymm_key [Preorder β] {key : α → β} {S : α → α → Prop} (hS : ∀ a b, S a b → ¬ S b a)
    {a b : α} (h : key a < key b ∨ (key a = key b ∧ S a b)) :
    ¬ (key b < key a ∨ (key b = key a ∧ S b a)) := by
  rcases h with hab | ⟨heq, hab⟩
  · intro hcases
    rcases hcases with hba | ⟨heq, _⟩
    · exact lt_asymm hab hba
    · exact hab.ne heq.symm
  · intro hcases
    rcases hcases with hba | ⟨_, hba⟩
    · exact hba.ne heq.symm
    · exact hS a b hab hba

/-! ## Labels -/

section Labels

variable {γ : Type*} {l : List α} {l' : List β} {label : α → γ} {label' : β → γ} {partner : α → β}

/-- Two ordered lists of partners have the same labels one after the other if the orders agree on
every two elements of different labels. -/
theorem map_eq_map_of_agree {R : α → α → Prop} {R' : β → β → Prop} (hR : l.Pairwise R)
    (hR' : l'.Pairwise R') (hasymm' : ∀ a b, R' a b → ¬ R' b a) (hperm : (l.map partner).Perm l')
    (hlabel : ∀ a ∈ l, label' (partner a) = label a)
    (hagree : ∀ a ∈ l, ∀ b ∈ l, label a ≠ label b → R a b → R' (partner a) (partner b)) :
    l.map label = l'.map label' := by
  induction l generalizing l' with
  | nil => simp [hperm.symm.eq_nil]
  | cons a l ih =>
      obtain ⟨ha, hR⟩ := List.pairwise_cons.mp hR
      have hmem : partner a ∈ l' := hperm.mem_iff.mp (by simp)
      obtain ⟨front, back, rfl⟩ := List.append_of_mem hmem
      have hrest : (l.map partner).Perm (front ++ back) :=
        (hperm.trans List.perm_middle).cons_inv
      -- what stands before the partner of `a` has the label of `a`
      have hfront : ∀ x ∈ front, label' x = label a := by
        intro x hx
        obtain ⟨b, hb, rfl⟩ := List.mem_map.mp (hrest.mem_iff.mpr (List.mem_append_left back hx))
        rw [hlabel b (by simp [hb])]
        by_contra hne
        have hafter := hagree a (by simp) b (by simp [hb]) (Ne.symm hne) (ha b hb)
        exact hasymm' _ _ hafter ((List.pairwise_append.mp hR').2.2 _ hx _ (by simp))
      have hsub : (front ++ back).Sublist (front ++ partner a :: back) :=
        (List.sublist_cons_self _ _).append_left front
      have hlabels := ih hR (hR'.sublist hsub) hrest (fun b hb => hlabel b (by simp [hb]))
        fun b hb c hc => hagree b (by simp [hb]) c (by simp [hc])
      have hreplicate : front.map label' = List.replicate front.length (label a) := by
        rw [List.eq_replicate_iff]
        simpa using hfront
      rw [List.map_cons, hlabels, List.map_append, List.map_append, List.map_cons,
        hlabel a (by simp), hreplicate, ← List.cons_append, ← List.replicate_succ,
        List.replicate_succ', List.append_assoc, List.singleton_append]

/-- Where no label occurs twice, equal labels one after the other mean that partners stand in the
same places. -/
theorem map_partner_eq_of_map_eq (hperm : (l.map partner).Perm l')
    (hlabel : ∀ a ∈ l, label' (partner a) = label a) (hnodup : (l.map label).Nodup)
    (hmap : l.map label = l'.map label') : l.map partner = l' := by
  refine List.ext_getElem hperm.length_eq fun i h₁ h₂ => ?_
  have hi : i < l.length := by simpa using h₁
  rw [hmap] at hnodup
  refine List.inj_on_of_nodup_map hnodup (hperm.mem_iff.mp (List.getElem_mem h₁))
    (List.getElem_mem h₂) ?_
  rw [List.getElem_map, hlabel _ (List.getElem_mem hi)]
  have hget := congrArg (·[i]?) hmap
  simpa [hi, h₂] using hget

end Labels

/-! ## Sorting -/

variable [LinearOrder β]

/-- The elements in the order of their keys, equal keys in their old order. -/
def sortedBy (key : α → β) (l : List α) : List α := l.insertionSort fun a b => key a ≤ key b

theorem sortedBy_perm (key : α → β) (l : List α) : (sortedBy key l).Perm l :=
  List.perm_insertionSort _ l

@[simp] theorem mem_sortedBy {key : α → β} {l : List α} {a : α} : a ∈ sortedBy key l ↔ a ∈ l :=
  (sortedBy_perm key l).mem_iff

private theorem keyLe_total (key : α → β) : Std.Total fun a b => key a ≤ key b :=
  ⟨fun a b => le_total (key a) (key b)⟩

private theorem keyLe_trans (key : α → β) : IsTrans α fun a b => key a ≤ key b :=
  ⟨fun _ _ _ => le_trans⟩

theorem pairwise_sortedBy (key : α → β) (l : List α) :
    (sortedBy key l).Pairwise fun a b => key a ≤ key b := by
  have := keyLe_total key
  have := keyLe_trans key
  exact List.pairwise_insertionSort _ l

/-- A list with increasing keys is the result of sorting it in any order. -/
theorem sortedBy_eq_of_perm {key : α → β} {l l' : List α} (hl : l.Pairwise (key · < key ·))
    (hperm : l'.Perm l) : sortedBy key l' = l := by
  have hkeys : (l.map key).Nodup := (List.pairwise_map.mpr hl).imp ne_of_lt
  have hsorted : l.Pairwise (key · ≤ key ·) := hl.imp le_of_lt
  refine ((sortedBy_perm key l').trans hperm).eq_of_pairwise ?_ (pairwise_sortedBy key l') hsorted
  intro a b ha hb hab hba
  have ha' : a ∈ l := hperm.mem_iff.mp (mem_sortedBy.mp ha)
  exact List.inj_on_of_nodup_map hkeys ha' hb (le_antisymm hab hba)

/-- The order by key with ties broken by the position in `l`. -/
def KeyOrder [DecidableEq α] (key : α → β) (l : List α) (a b : α) : Prop :=
  key a < key b ∨ (key a = key b ∧ l.idxOf a < l.idxOf b)

theorem KeyOrder.asymm [DecidableEq α] {key : α → β} {l : List α} (a b : α)
    (h : KeyOrder key l a b) : ¬ KeyOrder key l b a :=
  asymm_key (S := fun a b => l.idxOf a < l.idxOf b) (fun _ _ => lt_asymm) h

theorem pairwise_sortedBy_keyOrder [DecidableEq α] (key : α → β) {l : List α} (hl : l.Nodup) :
    (sortedBy key l).Pairwise (KeyOrder key l) := by
  have htotal := keyLe_total key
  have htrans := keyLe_trans key
  have hnodup : (sortedBy key l).Nodup := (sortedBy_perm key l).nodup_iff.mpr hl
  rw [List.pairwise_iff_forall_sublist]
  intro a b hab
  have ha : a ∈ l := mem_sortedBy.mp (hab.subset (by simp))
  have hb : b ∈ l := mem_sortedBy.mp (hab.subset (by simp))
  have hne : a ≠ b := by
    intro heq
    subst heq
    simpa using hnodup.sublist hab
  rcases (List.pairwise_iff_forall_sublist.mp (pairwise_sortedBy key l) hab).lt_or_eq with hlt | heq
  · exact Or.inl hlt
  · refine Or.inr ⟨heq, ?_⟩
    by_contra hlt
    have hidx : l.idxOf a ≠ l.idxOf b := fun h => hne ((List.idxOf_inj ha).mp h)
    -- the opposite order in `l` would survive the sort
    have hba : [b, a].Sublist l := (pair_sublist_iff_idxOf_lt hl ha).mpr (by omega)
    have hba' : [b, a].Sublist (sortedBy key l) :=
      List.pair_sublist_insertionSort (r := fun a b => key a ≤ key b) heq.ge hba
    have h1 := (pair_sublist_iff_idxOf_lt hnodup (mem_sortedBy.mpr hb)).mp hab
    have h2 := (pair_sublist_iff_idxOf_lt hnodup (mem_sortedBy.mpr ha)).mp hba'
    omega

/-- Sorting records by the position of their key in `order` lists the keys as in `order`. -/
theorem map_sortedBy_idxOf {γ : Type*} [DecidableEq γ] (key : α → γ) {order : List γ}
    (horder : order.Nodup) {l : List α} (hperm : (l.map key).Perm order) :
    (sortedBy (fun a => order.idxOf (key a)) l).map key = order := by
  have hsorted := pairwise_sortedBy (fun a => order.idxOf (key a)) l
  have hself : order.Pairwise fun a b => order.idxOf a ≤ order.idxOf b := by
    rw [List.pairwise_iff_forall_sublist]
    intro a b hab
    exact ((pair_sublist_iff_idxOf_lt horder (hab.subset (by simp))).mp hab).le
  have hmem : ∀ a, a ∈ (sortedBy (fun a => order.idxOf (key a)) l).map key → a ∈ order := by
    intro a ha
    exact (((sortedBy_perm _ l).map key).trans hperm).mem_iff.mp ha
  refine (((sortedBy_perm _ l).map key).trans hperm).eq_of_pairwise ?_
    (List.pairwise_map.mpr hsorted) hself
  intro a b ha _ hab hba
  exact (List.idxOf_inj (hmem a ha)).mp (le_antisymm hab hba)

end KeySort
