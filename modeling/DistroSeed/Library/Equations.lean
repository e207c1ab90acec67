import Mathlib.Data.Nat.Notation

/-! Systems of equations in which every unknown has its value from those it reads. Where a rank
falls along the reads, the system has one solution, and a bounded recursion finds it. -/

namespace Equations

variable {ι α : Type*}

/-- The equation of an unknown looks only at the unknowns that `reads` lists for it. -/
def ReadsOnly (step : (ι → α) → ι → α) (reads : ι → List ι) : Prop :=
  ∀ values values' i, (∀ j ∈ reads i, values j = values' j) → step values i = step values' i

/-- The rank falls from an unknown to those it reads. -/
def Ranked (reads : ι → List ι) (rank : ι → ℕ) : Prop := ∀ i, ∀ j ∈ reads i, rank j < rank i

def Solves (step : (ι → α) → ι → α) (values : ι → α) : Prop := ∀ i, values i = step values i

/-- The recursion along the reads, which gives up at a depth. -/
def evaluate (step : (ι → α) → ι → α) (unknown : ι → α) : ℕ → ι → α
  | 0 => unknown
  | depth + 1 => step (evaluate step unknown depth)

variable {step : (ι → α) → ι → α} {reads : ι → List ι} {rank : ι → ℕ} {unknown : ι → α}

/-- Beyond the rank of an unknown a greater depth changes nothing. -/
theorem evaluate_succ (hreads : ReadsOnly step reads) (hrank : Ranked reads rank) {depth : ℕ}
    {i : ι} (h : rank i < depth) :
    evaluate step unknown (depth + 1) i = evaluate step unknown depth i := by
  induction depth generalizing i with
  | zero => cases h
  | succ depth ih =>
      apply hreads
      intro j hj
      apply ih
      have := hrank i j hj
      omega

/-- At a depth above every rank the recursion solves the equations. -/
theorem solves_evaluate (hreads : ReadsOnly step reads) (hrank : Ranked reads rank) {depth : ℕ}
    (h : ∀ i, rank i < depth) : Solves step (evaluate step unknown depth) :=
  fun i => (evaluate_succ hreads hrank (h i)).symm

/-- The recursion finds every solution, so that there is one at most. -/
theorem Solves.evaluate_eq {values : ι → α} (hsolves : Solves step values)
    (hreads : ReadsOnly step reads) (hrank : Ranked reads rank) {depth : ℕ} {i : ι}
    (h : rank i < depth) : evaluate step unknown depth i = values i := by
  induction depth generalizing i with
  | zero => cases h
  | succ depth ih =>
      rw [hsolves i]
      apply hreads
      intro j hj
      apply ih
      have := hrank i j hj
      omega

end Equations
