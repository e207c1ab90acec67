import DistroSeed.Library.DiGraph
import DistroSeed.Library.QueueSearch

/-! Lists in which every search finds the same first hit, and the breadth-first search over nodes
that are listed alike under other names. -/

namespace SearchOrder

variable {α β γ : Type*}

/-- Every search for a hit finds the same one first: repetitions behind the first occurrence do
not matter. -/
def FindSame (β : Type*) (l l' : List α) : Prop :=
  ∀ f : α → Option β, l.findSome? f = l'.findSome? f

theorem findSame_refl (l : List α) : FindSame β l l := fun _ => rfl

theorem FindSame.trans {l l' l'' : List α} (h : FindSame β l l') (h' : FindSame β l' l'') :
    FindSame β l l'' := fun f => (h f).trans (h' f)

theorem findSome?_flatMap (g : α → List γ) (f : γ → Option β) (l : List α) :
    (l.flatMap g).findSome? f = l.findSome? fun a => (g a).findSome? f := by
  induction l with
  | nil => rfl
  | cons a l ih =>
      rw [List.flatMap_cons, List.findSome?_append, ih, List.findSome?_cons]
      cases (g a).findSome? f <;> rfl

theorem findSome?_filter (p : α → Bool) (f : α → Option β) (l : List α) :
    (l.filter p).findSome? f = l.findSome? fun a => if p a then f a else none := by
  induction l with
  | nil => rfl
  | cons a l ih => cases hp : p a <;> simp [List.findSome?_cons, hp, ih]

theorem findSome?_congr {f g : α → Option β} {l : List α} (h : ∀ a ∈ l, f a = g a) :
    l.findSome? f = l.findSome? g := by
  induction l with
  | nil => rfl
  | cons a l ih =>
      rw [List.findSome?_cons, List.findSome?_cons, h a (by simp),
        ih fun b hb => h b (by simp [hb])]

theorem FindSame.map {l l' : List α} (h : FindSame β l l') (g : α → γ) :
    FindSame β (l.map g) (l'.map g) := by
  intro f
  rw [List.findSome?_map, List.findSome?_map, h]

theorem FindSame.filter {l l' : List α} (h : FindSame β l l') (p : α → Bool) :
    FindSame β (l.filter p) (l'.filter p) := by
  intro f
  rw [findSome?_filter, findSome?_filter, h]

theorem FindSame.find?_eq {l l' : List α} (h : FindSame α l l') (p : α → Bool) :
    l.find? p = l'.find? p := by
  rw [List.find?_eq_findSome?_guard, List.find?_eq_findSome?_guard, h]

theorem FindSame.mem_iff {l l' : List α} (h : FindSame α l l') {a : α} : a ∈ l ↔ a ∈ l' := by
  classical
  have hfind := h.find?_eq (decide <| · = a)
  have hmem : ∀ l : List α, a ∈ l ↔ (l.find? (decide <| · = a)).isSome := by
    intro l
    simp [List.find?_isSome]
  rw [hmem, hmem, hfind]

/-! ## The search -/

section Search

variable {ν ν' : Type*} {next : ν → List ν} {found : ν → Option β} {next' : ν' → List ν'}
  {found' : ν' → Option γ} {rename : ν → ν'} {renameHit : β → γ} {inside : ν → Prop}

open QueueSearch

/-- Layer by layer, what is found under the other names has the other name. -/
theorem findSome?_layer_rename (hinside : ∀ v, inside v → ∀ u ∈ next v, inside u)
    (hnext : ∀ v, inside v → FindSame γ (next' (rename v)) ((next v).map rename))
    (hfound : ∀ v, inside v → found' (rename v) = (found v).map renameHit) (k : ℕ)
    {queue : List ν} {queue' : List ν'} (hqueue : ∀ v ∈ queue, inside v)
    (hsame : FindSame γ queue' (queue.map rename)) :
    (layer next' k queue').findSome? found' = ((layer next k queue).findSome? found).map renameHit := by
  induction k generalizing queue queue' with
  | zero =>
      rw [layer_zero, layer_zero, hsame, List.findSome?_map, List.map_findSome?]
      exact findSome?_congr fun v hv => hfound v (hqueue v hv)
  | succ k ih =>
      rw [layer_succ, layer_succ]
      apply ih
      · intro u hu
        obtain ⟨v, hv, huv⟩ := List.mem_flatMap.mp hu
        exact hinside v (hqueue v hv) u huv
      · intro f
        rw [findSome?_flatMap, hsame, List.findSome?_map, List.findSome?_map, findSome?_flatMap]
        apply findSome?_congr
        intro v hv
        rw [Function.comp_apply, hnext v (hqueue v hv), List.findSome?_map]

theorem firstHit_rename_iff (rename : ν → ν') (inside : ν → Prop)
    (hinside : ∀ v, inside v → ∀ u ∈ next v, inside u)
    (hnext : ∀ v, inside v → FindSame γ (next' (rename v)) ((next v).map rename))
    (hfound : ∀ v, inside v → found' (rename v) = (found v).map renameHit)
    {queue : List ν} {queue' : List ν'} (hqueue : ∀ v ∈ queue, inside v)
    (hsame : FindSame γ queue' (queue.map rename)) {hit' : γ} :
    FirstHit next' found' queue' hit' ↔ ∃ hit, FirstHit next found queue hit ∧ renameHit hit = hit' := by
  have hlayer := fun k => findSome?_layer_rename hinside hnext hfound k hqueue hsame
  simp only [FirstHit, hlayer, Option.map_eq_none_iff, Option.map_eq_some_iff]
  constructor
  · intro hexists
    rcases hexists with ⟨k, hbefore, hit, hhit, heq⟩
    exact ⟨hit, ⟨k, hbefore, hhit⟩, heq⟩
  · intro hexists
    rcases hexists with ⟨hit, ⟨k, hbefore, hhit⟩, heq⟩
    exact ⟨k, hbefore, hit, hhit, heq⟩

end Search

/-! ## The neighbours in a graph -/

section Graph

variable {ν κ : Type*} [DecidableEq ν]

open DiGraph

/-- The edges stand in the order in which they were first added. -/
theorem findSame_addEdgesFrom (g : DiGraph ν κ) (pairs : List (ν × ν)) (label : κ) :
    FindSame β ((g.addEdgesFrom pairs label).edges.map Edge.ends) (g.edges.map Edge.ends ++ pairs) := by
  induction pairs generalizing g with
  | nil =>
      rw [addEdgesFrom_nil, List.append_nil]
      exact findSame_refl _
  | cons pair pairs ih =>
      intro f
      rw [addEdgesFrom, List.foldl_cons, ← addEdgesFrom, ih, map_ends_addEdge]
      split
      · rename_i hmem
        -- a pair that is there already is found where it was added first
        rw [List.findSome?_append, List.findSome?_append, List.findSome?_cons]
        cases hfound : (g.edges.map Edge.ends).findSome? f with
        | some hit => rfl
        | none =>
            have hpair : f pair = none := List.findSome?_eq_none_iff.mp hfound pair hmem
            rw [hpair]
      · rw [List.append_assoc]
        rfl

theorem predecessors_eq (g : DiGraph ν κ) (v : ν) :
    g.predecessors v = ((g.edges.map Edge.ends).filter (·.2 = v)).map Prod.fst := by
  rw [predecessors, List.filter_map, List.map_map]
  rfl

theorem successors_eq (g : DiGraph ν κ) (u : ν) :
    g.successors u = ((g.edges.map Edge.ends).filter (·.1 = u)).map Prod.snd := by
  rw [successors, List.filter_map, List.map_map]
  rfl

end Graph

end SearchOrder
