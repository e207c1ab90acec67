import Mathlib.Data.List.AList

/-! Dictionaries that are written to one key at a time, where a later write to a key replaces an
earlier one. -/

abbrev Dict (κ υ : Type*) := AList fun _ : κ => υ

namespace Dict

variable {κ υ : Type*}

/-- The entries as pairs. -/
def items (d : Dict κ υ) : List (κ × υ) := d.entries.map fun entry => (entry.1, entry.2)

variable [DecidableEq κ]

theorem mem_items {d : Dict κ υ} {k : κ} {v : υ} : (k, v) ∈ d.items ↔ d.lookup k = some v := by
  rw [← Option.mem_def, AList.mem_lookup_iff, items, List.mem_map]
  constructor
  · intro hexists
    rcases hexists with ⟨⟨k', v'⟩, hmem, heq⟩
    cases heq
    exact hmem
  · intro hmem
    exact ⟨⟨k, v⟩, hmem, rfl⟩

/-- The pairs are written in order. -/
def update (d : Dict κ υ) (pairs : List (κ × υ)) : Dict κ υ :=
  pairs.foldl (fun d pair => d.insert pair.1 pair.2) d

@[simp] theorem update_nil (d : Dict κ υ) : d.update [] = d := rfl

@[simp] theorem update_cons (d : Dict κ υ) (pair : κ × υ) (pairs : List (κ × υ)) :
    d.update (pair :: pairs) = update (d.insert pair.1 pair.2) pairs := rfl

theorem lookup_update_of_notMem {d : Dict κ υ} {pairs : List (κ × υ)} {k : κ}
    (h : ∀ pair ∈ pairs, pair.1 ≠ k) : (d.update pairs).lookup k = d.lookup k := by
  induction pairs generalizing d with
  | nil => rfl
  | cons pair pairs ih =>
      rw [update_cons, ih fun p hp => h p (List.mem_cons_of_mem pair hp),
        AList.lookup_insert_ne (h pair List.mem_cons_self).symm]

/-- A key that is written has one of the values that are written to it. -/
theorem exists_lookup_update (d : Dict κ υ) {pairs : List (κ × υ)} {k : κ}
    (h : ∃ pair ∈ pairs, pair.1 = k) :
    ∃ pair ∈ pairs, pair.1 = k ∧ (d.update pairs).lookup k = some pair.2 := by
  induction pairs generalizing d with
  | nil => simp at h
  | cons pair pairs ih =>
      by_cases hrest : ∃ p ∈ pairs, p.1 = k
      · obtain ⟨p, hp, hk, hlookup⟩ := ih (d.insert pair.1 pair.2) hrest
        exact ⟨p, List.mem_cons_of_mem pair hp, hk, hlookup⟩
      · simp only [not_exists, not_and] at hrest
        obtain ⟨p, hp, rfl⟩ := h
        rcases List.mem_cons.mp hp with rfl | hp
        · refine ⟨p, List.mem_cons_self, rfl, ?_⟩
          rw [update_cons, lookup_update_of_notMem hrest, AList.lookup_insert]
        · exact absurd rfl (hrest p hp)

/-- Either a key is written, and has one of the values that are written to it, or it keeps its own. -/
theorem lookup_update_cases (d : Dict κ υ) (pairs : List (κ × υ)) (k : κ) :
    (∃ pair ∈ pairs, pair.1 = k ∧ (d.update pairs).lookup k = some pair.2) ∨
      ((∀ pair ∈ pairs, pair.1 ≠ k) ∧ (d.update pairs).lookup k = d.lookup k) := by
  by_cases h : ∃ pair ∈ pairs, pair.1 = k
  · exact Or.inl (exists_lookup_update d h)
  · simp only [not_exists, not_and] at h
    exact Or.inr ⟨h, lookup_update_of_notMem h⟩

/-- The entries of another dictionary, in any order, replace what is there. -/
theorem lookup_update_of_perm (d : Dict κ υ) {d' : Dict κ υ} {pairs : List (κ × υ)}
    (h : pairs.Perm d'.items) (k : κ) :
    (d.update pairs).lookup k = (d'.lookup k).or (d.lookup k) := by
  rcases lookup_update_cases d pairs k with ⟨⟨_, v⟩, hpair, rfl, hlookup⟩ | ⟨hnone, hlookup⟩
  · rw [hlookup, mem_items.mp (h.mem_iff.mp hpair), Option.some_or]
  · cases hvalue : d'.lookup k with
    | none => rw [hlookup, Option.none_or]
    | some v => exact absurd rfl (hnone (k, v) (h.mem_iff.mpr (mem_items.mpr hvalue)))

/-- The last pair with a key counts. -/
theorem lookup_update (d : Dict κ υ) (pairs : List (κ × υ)) (k : κ) :
    (d.update pairs).lookup k =
      ((pairs.filter (·.1 = k)).getLast?.map Prod.snd).or (d.lookup k) := by
  induction pairs generalizing d with
  | nil => rfl
  | cons pair pairs ih =>
      rw [update_cons, ih]
      by_cases hk : pair.1 = k
      · subst hk
        rw [AList.lookup_insert, List.filter_cons_of_pos (by simp), List.getLast?_cons]
        cases (pairs.filter (·.1 = pair.1)).getLast? <;> rfl
      · rw [AList.lookup_insert_ne (Ne.symm hk), List.filter_cons_of_neg (by simpa using hk)]

theorem lookup_update_or (d : Dict κ υ) (pairs : List (κ × υ)) (k : κ) :
    (d.update pairs).lookup k = ((update ∅ pairs).lookup k).or (d.lookup k) := by
  rw [lookup_update, lookup_update ∅, AList.lookup_empty, Option.or_none]

/-- Values that are converted before they are written are converted in the dictionary. -/
theorem lookup_update_map {υ' : Type*} (f : υ → υ') (pairs : List (κ × υ)) (k : κ) :
    (update ∅ (pairs.map fun pair => (pair.1, f pair.2))).lookup k =
      ((update ∅ pairs).lookup k).map f := by
  rw [lookup_update, lookup_update, AList.lookup_empty, AList.lookup_empty, Option.or_none,
    Option.or_none, List.filter_map, List.getLast?_map, Option.map_map, Option.map_map]
  rfl

/-- Of a dictionary that is copied, some of the keys are left out. -/
theorem lookup_update_filter_items (d : Dict κ υ) (keep : κ → Bool) (k : κ) :
    (update ∅ (d.items.filter fun item => keep item.1)).lookup k =
      if keep k then d.lookup k else none := by
  rcases lookup_update_cases ∅ (d.items.filter fun item => keep item.1) k with
    ⟨⟨_, v⟩, hpair, rfl, hlookup⟩ | ⟨hnone, hlookup⟩
  · obtain ⟨hmem, hkeep⟩ := List.mem_filter.mp hpair
    rw [hlookup, if_pos hkeep, mem_items.mp hmem]
  · rw [hlookup, AList.lookup_empty]
    split
    next hkeep =>
      cases hvalue : d.lookup k with
      | none => rfl
      | some v =>
          exact absurd rfl (hnone (k, v) (List.mem_filter.mpr ⟨mem_items.mpr hvalue, hkeep⟩))
    next => rfl

theorem mem_items_update {d : Dict κ υ} {pairs : List (κ × υ)} {item : κ × υ}
    (h : item ∈ (d.update pairs).items) : item ∈ pairs ∨ item ∈ d.items := by
  obtain ⟨k, v⟩ := item
  have hvalue := mem_items.mp h
  rcases lookup_update_cases d pairs k with ⟨⟨_, v'⟩, hpair, rfl, hlookup⟩ | ⟨_, hlookup⟩
  · rw [hlookup] at hvalue
    obtain rfl := Option.some.inj hvalue
    exact Or.inl hpair
  · rw [hlookup] at hvalue
    exact Or.inr (mem_items.mpr hvalue)

end Dict
