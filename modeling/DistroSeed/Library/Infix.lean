import Mathlib.Data.List.Basic
import DistroSeed.Library.Outcome

/-! Parsers for operands with an associative operator between them. The parser nests to the right;
what it reads has the value of every other nesting of the same operands. Parsers take fuel. -/

namespace Infix

variable {ε τ α M : Type*}

abbrev Parser (ε τ α : Type*) := ℕ → List τ → Outcome ε (α × List τ)

/-- With fuel `n` or more, the parser reads `a` and leaves `rest`. -/
def Reads (p : Parser ε τ α) (n : ℕ) (tokens : List τ) (a : α) (rest : List τ) : Prop :=
  ∀ fuel, n ≤ fuel → p fuel tokens = .returned (a, rest)

theorem Reads.mono {p : Parser ε τ α} {n n' : ℕ} {tokens rest : List τ} {a : α}
    (h : Reads p n tokens a rest) (hn : n ≤ n') : Reads p n' tokens a rest :=
  fun fuel hfuel => h fuel (Nat.le_trans hn hfuel)

/-- One level of a grammar: `operand`, or `operand op level`. -/
structure Level (p operand : Parser ε τ α) (op : τ) (mk : α → α → α) : Prop where
  last : ∀ {fuel tokens a rest}, operand fuel tokens = .returned (a, rest) → rest.head? ≠ some op →
    p (fuel + 1) tokens = .returned (a, rest)
  next : ∀ {fuel tokens a b more rest}, operand fuel tokens = .returned (a, op :: more) →
    p fuel more = .returned (b, rest) → p (fuel + 1) tokens = .returned (mk a b, rest)

/-- Tokens of the value `v` on a level: in front of what does not go on with the level, and in
front of the operator with more behind it. `stop` is what may stand behind an operand. -/
structure Chain (p : Parser ε τ α) (op : τ) (mul : M → M → M) (value : α → M)
    (stop : List τ → Prop) (tokens : List τ) (v : M) (n : ℕ) : Prop where
  last : ∀ rest, stop rest → rest.head? ≠ some op →
    ∃ a, value a = v ∧ Reads p n (tokens ++ rest) a rest
  next : ∀ more a rest k, Reads p k more a rest →
    ∃ b, value b = mul v (value a) ∧ Reads p (n + k) (tokens ++ op :: more) b rest

section Rules

variable {p operand : Parser ε τ α} {op : τ} {mk : α → α → α} {mul : M → M → M} {value : α → M}
  {stop : List τ → Prop} {tokens tokens' : List τ} {v v' : M} {n n' : ℕ}

theorem Chain.mono (h : Chain p op mul value stop tokens v n) (hn : n ≤ n') :
    Chain p op mul value stop tokens v n' := by
  refine ⟨?_, ?_⟩
  · intro rest hstop hrest
    rcases h.last rest hstop hrest with ⟨a, ha, hreads⟩
    exact ⟨a, ha, hreads.mono hn⟩
  · intro more a rest k hmore
    rcases h.next more a rest k hmore with ⟨b, hb, hreads⟩
    exact ⟨b, hb, hreads.mono (Nat.add_le_add_right hn k)⟩

/-- A single operand. -/
theorem Level.chain (hlevel : Level p operand op mk)
    (hmk : ∀ a b, value (mk a b) = mul (value a) (value b)) (hop : ∀ more, stop (op :: more))
    (h : ∀ rest, stop rest → ∃ a, value a = v ∧ Reads operand n (tokens ++ rest) a rest) :
    Chain p op mul value stop tokens v (n + 1) := by
  refine ⟨?_, ?_⟩
  · intro rest hstop hrest
    rcases h rest hstop with ⟨a, ha, hreads⟩
    refine ⟨a, ha, ?_⟩
    intro fuel hfuel
    cases fuel with
    | zero => omega
    | succ fuel => exact hlevel.last (hreads fuel (by omega)) hrest
  · intro more b rest k hmore
    rcases h (op :: more) (hop more) with ⟨a, ha, hreads⟩
    refine ⟨mk a b, by rw [hmk, ha], ?_⟩
    intro fuel hfuel
    cases fuel with
    | zero => omega
    | succ fuel => exact hlevel.next (hreads fuel (by omega)) (hmore fuel (by omega))

/-- Two chains with the operator between them, however either of them is nested. -/
theorem Chain.append (hassoc : ∀ a b c, mul (mul a b) c = mul a (mul b c))
    (h : Chain p op mul value stop tokens v n) (h' : Chain p op mul value stop tokens' v' n') :
    Chain p op mul value stop (tokens ++ op :: tokens') (mul v v') (n + n') := by
  refine ⟨?_, ?_⟩
  · intro rest hstop hrest
    rcases h'.last rest hstop hrest with ⟨b, hb, hreads'⟩
    rcases h.next _ b rest n' hreads' with ⟨a, ha, hreads⟩
    refine ⟨a, by rw [ha, hb], ?_⟩
    simpa using hreads
  · intro more c rest k hmore
    rcases h'.next more c rest k hmore with ⟨b, hb, hreads'⟩
    rcases h.next _ b rest (n' + k) hreads' with ⟨a, ha, hreads⟩
    refine ⟨a, by rw [ha, hb, hassoc], ?_⟩
    rw [Nat.add_assoc]
    simpa using hreads

end Rules

end Infix
