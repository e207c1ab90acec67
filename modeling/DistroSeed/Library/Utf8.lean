import Mathlib.Data.List.Basic
import Mathlib.Data.List.Infix
import Mathlib.Tactic.NormNum
import Mathlib.Tactic.Ring

/-! Decoding UTF-8 to code points, with the replacement character for every maximal
ill-formed part. ASCII bytes are never part of anything else. -/

namespace Utf8

/-- The code point that stands for an ill-formed part. -/
def replacement : ℕ := 0xFFFD

/-- A sequence that is not complete: how many bytes it lacks, between which bounds the
next one lies, and the code point so far. What it can become is no ASCII code point. -/
structure Pending where
  needed : ℕ
  lower : ℕ
  upper : ℕ
  point : ℕ
  needed_pos : 0 < needed
  lower_ge : 0x80 ≤ lower
  upper_le : upper ≤ 0xBF
  large : 0x80 ≤ (point * 64 + lower % 64) * 64 ^ (needed - 1)

/-- The sequence after its next byte, if it lacks more than that byte. -/
def Pending.next (p : Pending) (b : ℕ) (hneeded : p.needed ≠ 1) (hlower : p.lower ≤ b)
    (hupper : b ≤ p.upper) : Pending where
  needed := p.needed - 1
  lower := 0x80
  upper := 0xBF
  point := p.point * 64 + b % 64
  needed_pos := by
    have := p.needed_pos
    omega
  lower_ge := le_rfl
  upper_le := le_rfl
  large := by
    have h1 := p.needed_pos
    have h2 := p.lower_ge
    have h3 := p.upper_le
    have hle : p.point * 64 + p.lower % 64 ≤ p.point * 64 + b % 64 := by omega
    obtain ⟨k, hk⟩ : ∃ k, p.needed - 1 = k + 1 := ⟨p.needed - 2, by omega⟩
    have hlarge := p.large
    rw [hk] at hlarge ⊢
    calc 0x80 ≤ (p.point * 64 + p.lower % 64) * 64 ^ (k + 1) := hlarge
      _ ≤ (p.point * 64 + b % 64) * 64 ^ (k + 1) := Nat.mul_le_mul_right _ hle
      _ = ((p.point * 64 + b % 64) * 64 + 0x80 % 64) * 64 ^ (k + 1 - 1) := by
        rw [Nat.add_sub_cancel, Nat.pow_succ]
        ring

/-- The first byte of a code point. -/
def start (b : ℕ) : List ℕ × Option Pending :=
  if b < 0x80 then ([b], none)
  else if h : 0xC2 ≤ b ∧ b ≤ 0xDF then
    ([], some ⟨1, 0x80, 0xBF, b % 32, by omega, by omega, by omega, by norm_num; omega⟩)
  else if b = 0xE0 then ([], some ⟨2, 0xA0, 0xBF, 0, by omega, by omega, by omega, by norm_num⟩)
  else if h : 0xE1 ≤ b ∧ b ≤ 0xEF then
    ([], some ⟨2, 0x80, if b = 0xED then 0x9F else 0xBF, b % 16, by omega, by omega,
      by split <;> omega, by norm_num; omega⟩)
  else if b = 0xF0 then ([], some ⟨3, 0x90, 0xBF, 0, by omega, by omega, by omega, by norm_num⟩)
  else if h : 0xF1 ≤ b ∧ b ≤ 0xF4 then
    ([], some ⟨3, 0x80, if b = 0xF4 then 0x8F else 0xBF, b % 8, by omega, by omega,
      by split <;> omega, by norm_num; omega⟩)
  else ([replacement], none)

/-- One byte: the code points it completes, and the sequence it leaves incomplete. -/
def step (state : Option Pending) (b : ℕ) : List ℕ × Option Pending :=
  match state with
  | none => start b
  | some p =>
      if h : p.lower ≤ b ∧ b ≤ p.upper then
        if hneeded : p.needed = 1 then ([p.point * 64 + b % 64], none)
        else ([], some (p.next b hneeded h.1 h.2))
      else (replacement :: (start b).1, (start b).2)

/-- What an incomplete sequence turns into when it is cut off. -/
def flush : Option Pending → List ℕ
  | none => []
  | some _ => [replacement]

def decodeFrom (state : Option Pending) : List UInt8 → List ℕ
  | [] => flush state
  | b :: rest => (step state b.toNat).1 ++ decodeFrom (step state b.toNat).2 rest

/-- `bytes.decode("utf-8", errors="replace")`, as code points. -/
def decode (bytes : List UInt8) : List ℕ := decodeFrom none bytes

/-- A byte that stands for itself. -/
def Ascii (b : UInt8) : Prop := b.toNat < 0x80

instance (b : UInt8) : Decidable (Ascii b) := inferInstanceAs (Decidable (b.toNat < 0x80))

/-! ## One byte -/

@[simp] theorem decode_nil : decode [] = [] := rfl

theorem start_ascii {b : ℕ} (h : b < 0x80) : start b = ([b], none) := by
  rw [start, if_pos h]

/-- An ASCII byte cuts off what is incomplete, and is decoded to itself. -/
theorem step_ascii {b : ℕ} (h : b < 0x80) (state : Option Pending) :
    step state b = (flush state ++ [b], none) := by
  cases state with
  | none => exact start_ascii h
  | some p =>
      have hlower : ¬ (p.lower ≤ b ∧ b ≤ p.upper) := by
        have := p.lower_ge
        omega
      simp only [step, dif_neg hlower, start_ascii h]
      rfl

theorem start_not_ascii {b : ℕ} (h : ¬ b < 0x80) : ∀ c ∈ (start b).1, 0x80 ≤ c := by
  unfold start
  rw [if_neg h]
  split_ifs <;> simp [replacement]

/-- Other bytes never complete an ASCII code point. -/
theorem step_not_ascii {b : ℕ} (h : ¬ b < 0x80) (state : Option Pending) :
    ∀ c ∈ (step state b).1, 0x80 ≤ c := by
  cases state with
  | none => exact start_not_ascii h
  | some p =>
      unfold step
      by_cases hrange : p.lower ≤ b ∧ b ≤ p.upper
      · simp only [dif_pos hrange]
        by_cases hneeded : p.needed = 1
        · have hlarge := p.large
          have h2 := p.lower_ge
          have h3 := p.upper_le
          simp only [hneeded, Nat.sub_self, Nat.pow_zero, Nat.mul_one] at hlarge
          simp only [dif_pos hneeded, List.mem_singleton, forall_eq]
          omega
        · simp [dif_neg hneeded]
      · simp only [dif_neg hrange, List.mem_cons, forall_eq_or_imp]
        exact ⟨by simp [replacement], start_not_ascii h⟩

theorem start_ne_nil_of_none {b : ℕ} (h : (start b).2 = none) : (start b).1 ≠ [] := by
  revert h
  unfold start
  split_ifs <;> simp

theorem step_ne_nil_of_none {b : ℕ} {state : Option Pending} (h : (step state b).2 = none) :
    (step state b).1 ≠ [] := by
  cases state with
  | none => exact start_ne_nil_of_none h
  | some p =>
      revert h
      simp only [step]
      split_ifs <;> simp

/-! ## Whole texts -/

theorem decodeFrom_ne_nil {state : Option Pending} {bytes : List UInt8}
    (h : state ≠ none ∨ bytes ≠ []) : decodeFrom state bytes ≠ [] := by
  induction bytes generalizing state with
  | nil =>
      cases state with
      | none => simp at h
      | some p => simp [decodeFrom, flush]
  | cons b bytes ih =>
      rw [decodeFrom]
      cases hnext : (step state b.toNat).2 with
      | none => simp [step_ne_nil_of_none hnext]
      | some p => simp [ih (Or.inl (Option.some_ne_none p))]

/-- At an ASCII byte the decoding falls into two. -/
theorem decodeFrom_append_cons {b : UInt8} (hb : Ascii b) (state : Option Pending)
    (x y : List UInt8) :
    decodeFrom state (x ++ b :: y) = decodeFrom state x ++ b.toNat :: decode y := by
  induction x generalizing state with
  | nil => simp [decodeFrom, step_ascii hb, decode]
  | cons c x ih => simp [decodeFrom, ih]

theorem decode_append_cons {b : UInt8} (hb : Ascii b) (x y : List UInt8) :
    decode (x ++ b :: y) = decode x ++ b.toNat :: decode y := decodeFrom_append_cons hb none x y

/-- ASCII bytes after a text are decoded to themselves. -/
theorem decode_append_ascii (x : List UInt8) {y : List UInt8} (hy : ∀ b ∈ y, Ascii b) :
    decode (x ++ y) = decode x ++ y.map UInt8.toNat := by
  induction y using List.reverseRecOn with
  | nil => simp
  | append_singleton y b ih =>
      rw [← List.append_assoc, decode_append_cons (hy b (by simp)),
        ih fun c hc => hy c (by simp [hc])]
      simp

theorem exists_of_append_eq {pre rest before after : List ℕ} {c : ℕ} (hc : c ∉ pre)
    (h : pre ++ rest = before ++ c :: after) :
    ∃ mid, before = pre ++ mid ∧ rest = mid ++ c :: after := by
  rcases List.append_eq_append_iff.mp h with ⟨mid, hbefore, hrest⟩ | ⟨mid, hpre, hrest⟩
  · exact ⟨mid, hbefore, hrest⟩
  · cases mid with
    | nil => exact ⟨[], by simpa using hpre.symm, by simpa using hrest.symm⟩
    | cons d mid =>
        obtain ⟨rfl, _⟩ := List.cons.inj hrest
        exact absurd (by simp [hpre]) hc

theorem notMem_flush {c : ℕ} (hc : c < 0x80) (state : Option Pending) : c ∉ flush state := by
  cases state with
  | none => simp [flush]
  | some p =>
      simp only [flush, replacement, List.mem_singleton]
      omega

/-- An ASCII code point comes from its byte. -/
theorem exists_of_decodeFrom_eq {state : Option Pending} {bytes : List UInt8}
    {before after : List ℕ} {c : ℕ} (hc : c < 0x80)
    (h : decodeFrom state bytes = before ++ c :: after) :
    ∃ x b y, bytes = x ++ b :: y ∧ b.toNat = c ∧ decodeFrom state x = before ∧
      decode y = after := by
  induction bytes generalizing state before with
  | nil =>
      have hmem : c ∈ flush state := by
        rw [show flush state = before ++ c :: after from h]
        simp
      exact absurd hmem (notMem_flush hc state)
  | cons b bytes ih =>
      rw [decodeFrom] at h
      by_cases hb : b.toNat < 0x80
      · rw [step_ascii hb, List.append_assoc] at h
        obtain ⟨mid, rfl, hrest⟩ := exists_of_append_eq (notMem_flush hc state) h
        cases mid with
        | nil =>
            obtain ⟨hbc, hafter⟩ := List.cons.inj hrest
            exact ⟨[], b, bytes, rfl, hbc, by simp [decodeFrom], hafter⟩
        | cons d mid =>
            obtain ⟨rfl, htail⟩ := List.cons.inj hrest
            have hdecode : decodeFrom none bytes = mid ++ c :: after := htail
            obtain ⟨x, e, y, rfl, he, hx, hy⟩ := ih hdecode
            exact ⟨b :: x, e, y, rfl, he, by simp [decodeFrom, step_ascii hb, hx], hy⟩
      · have hnot : c ∉ (step state b.toNat).1 := by
          intro hmem
          have := step_not_ascii hb state c hmem
          omega
        obtain ⟨mid, rfl, hrest⟩ := exists_of_append_eq hnot h
        obtain ⟨x, e, y, rfl, he, hx, hy⟩ := ih hrest
        exact ⟨b :: x, e, y, rfl, he, by rw [decodeFrom, hx], hy⟩

/-- An ASCII word in the decoded text comes from that word in the bytes. -/
theorem exists_of_decode_eq {bytes word : List UInt8} {before after : List ℕ} (hne : word ≠ [])
    (hword : ∀ b ∈ word, Ascii b)
    (h : decode bytes = before ++ (word.map UInt8.toNat ++ after)) :
    ∃ x y, bytes = x ++ (word ++ y) ∧ decode x = before ∧ decode y = after := by
  induction word generalizing bytes before with
  | nil => exact absurd rfl hne
  | cons b word ih =>
      obtain ⟨x, c, y, rfl, hc, hx, hy⟩ := exists_of_decodeFrom_eq (hword b (by simp)) h
      obtain rfl : c = b := UInt8.toNat_inj.mp hc
      by_cases hnil : word = []
      · subst hnil
        exact ⟨x, y, rfl, hx, hy⟩
      · have htail : decode y = [] ++ (word.map UInt8.toNat ++ after) := hy
        obtain ⟨x', y', rfl, hx', hy'⟩ := ih hnil (fun d hd => hword d (by simp [hd])) htail
        cases x' with
        | nil => exact ⟨x, y', rfl, hx, hy'⟩
        | cons d x' => exact absurd hx' (decodeFrom_ne_nil (Or.inr (by simp)))

end Utf8
