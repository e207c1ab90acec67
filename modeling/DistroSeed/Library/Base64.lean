import Mathlib.Data.Option.Basic
import Mathlib.Data.Nat.Notation

/-! The standard base64 encoding, with padding. -/

namespace Base64

/-- The character of a group of six bits. -/
def digit (v : ℕ) : UInt8 :=
  if v < 26 then .ofNat (v + 65)
  else if v < 52 then .ofNat (v + 71)
  else if v < 62 then .ofNat (v - 4)
  else if v = 62 then 43
  else 47

/-- The six bits of a character. -/
def value (c : UInt8) : Option ℕ :=
  if 65 ≤ c.toNat ∧ c.toNat ≤ 90 then some (c.toNat - 65)
  else if 97 ≤ c.toNat ∧ c.toNat ≤ 122 then some (c.toNat - 71)
  else if 48 ≤ c.toNat ∧ c.toNat ≤ 57 then some (c.toNat + 4)
  else if c = 43 then some 62
  else if c = 47 then some 63
  else none

/-- Three bytes give four characters; `=` fills up the last group. -/
def encode : List UInt8 → List UInt8
  | [] => []
  | [a] => [digit (a.toNat / 4), digit (a.toNat % 4 * 16), 61, 61]
  | [a, b] =>
      [digit (a.toNat / 4), digit (a.toNat % 4 * 16 + b.toNat / 16), digit (b.toNat % 16 * 4), 61]
  | a :: b :: c :: rest =>
      digit (a.toNat / 4) :: digit (a.toNat % 4 * 16 + b.toNat / 16) ::
        digit (b.toNat % 16 * 4 + c.toNat / 64) :: digit (c.toNat % 64) :: encode rest

/-- A group of four characters without padding. -/
def decodeFull (w x y z : UInt8) : Option (List UInt8) := do
  let w ← value w
  let x ← value x
  let y ← value y
  let z ← value z
  pure [.ofNat (w * 4 + x / 16), .ofNat (x % 16 * 16 + y / 4), .ofNat (y % 4 * 64 + z)]

/-- A group, with its padding. -/
def decodeGroup (w x y z : UInt8) : Option (List UInt8) :=
  if z = 61 then
    if y = 61 then do
      let w ← value w
      let x ← value x
      pure [.ofNat (w * 4 + x / 16)]
    else do
      let w ← value w
      let x ← value x
      let y ← value y
      pure [.ofNat (w * 4 + x / 16), .ofNat (x % 16 * 16 + y / 4)]
  else decodeFull w x y z

/-- Behind padding, another text can follow. -/
def decodeGroups : List UInt8 → Option (List UInt8)
  | [] => some []
  | w :: x :: y :: z :: rest => do
      let bytes ← decodeGroup w x y z
      let more ← decodeGroups rest
      pure (bytes ++ more)
  | _ => none

/-- Line feeds are ignored. -/
def decode (text : List UInt8) : Option (List UInt8) := decodeGroups (text.filter (· ≠ 10))

/-! ## The alphabet -/

/-- Letters, digits, `+`, `/` and `=`. -/
def InAlphabet (c : UInt8) : Prop := c = 61 ∨ (value c).isSome

instance (c : UInt8) : Decidable (InAlphabet c) := inferInstanceAs (Decidable (_ ∨ _))

@[simp] theorem value_digit : ∀ v < 64, value (digit v) = some v := by decide

theorem inAlphabet_digit {v : ℕ} (hv : v < 64) : InAlphabet (digit v) :=
  Or.inr (by rw [value_digit v hv]; rfl)

theorem digit_ne_pad : ∀ v < 64, digit v ≠ 61 := by decide

/-- A character of the alphabet lies in the range of printable characters without the blank. -/
theorem InAlphabet.printable {c : UInt8} (h : InAlphabet c) : 43 ≤ c.toNat ∧ c.toNat ≤ 122 := by
  rcases h with rfl | h
  · decide
  · unfold value at h
    split at h
    · omega
    split at h
    · omega
    split at h
    · omega
    split at h
    · rename_i hc
      subst hc
      decide
    split at h
    · rename_i hc
      subst hc
      decide
    · cases h

theorem inAlphabet_of_mem_encode {bytes : List UInt8} : ∀ c ∈ encode bytes, InAlphabet c := by
  fun_induction encode with
  | case1 => simp
  | case2 a =>
      have := a.toNat_lt
      have hpad : InAlphabet 61 := Or.inl rfl
      simp only [List.mem_cons, List.not_mem_nil, or_false, forall_eq_or_imp, forall_eq]
      exact ⟨inAlphabet_digit (by omega), inAlphabet_digit (by omega), hpad, hpad⟩
  | case3 a b =>
      have := a.toNat_lt
      have := b.toNat_lt
      have hpad : InAlphabet 61 := Or.inl rfl
      simp only [List.mem_cons, List.not_mem_nil, or_false, forall_eq_or_imp, forall_eq]
      exact ⟨inAlphabet_digit (by omega), inAlphabet_digit (by omega), inAlphabet_digit (by omega), hpad⟩
  | case4 a b c rest ih =>
      have := a.toNat_lt
      have := b.toNat_lt
      have := c.toNat_lt
      simp only [List.mem_cons, forall_eq_or_imp]
      exact ⟨inAlphabet_digit (by omega), inAlphabet_digit (by omega), inAlphabet_digit (by omega),
        inAlphabet_digit (by omega), ih⟩

theorem encode_eq_nil_iff {bytes : List UInt8} : encode bytes = [] ↔ bytes = [] := by
  cases bytes with
  | nil => simp [encode]
  | cons a bytes =>
      match bytes with
      | [] => simp [encode]
      | [b] => simp [encode]
      | b :: c :: rest => simp [encode]

theorem length_encode (bytes : List UInt8) :
    (encode bytes).length = 4 * ((bytes.length + 2) / 3) := by
  fun_induction encode with
  | case1 => rfl
  | case2 a => simp
  | case3 a b => simp
  | case4 a b c rest ih =>
      simp only [List.length_cons, ih]
      omega

/-! ## The round trip -/

theorem ofNat_eq {a : UInt8} {n : ℕ} (h : n = a.toNat) : UInt8.ofNat n = a := by
  rw [h, UInt8.ofNat_toNat]

theorem decodeFull_encode (a b c : UInt8) :
    decodeFull (digit (a.toNat / 4)) (digit (a.toNat % 4 * 16 + b.toNat / 16))
      (digit (b.toNat % 16 * 4 + c.toNat / 64)) (digit (c.toNat % 64)) = some [a, b, c] := by
  have ha := a.toNat_lt
  have hb := b.toNat_lt
  have hc := c.toNat_lt
  rw [decodeFull, value_digit _ (by omega), value_digit _ (by omega), value_digit _ (by omega),
    value_digit _ (by omega)]
  simp only [Option.bind_eq_bind, Option.bind_some, Option.pure_def, Option.some.injEq,
    List.cons.injEq, and_true]
  exact ⟨ofNat_eq (by omega), ofNat_eq (by omega), ofNat_eq (by omega)⟩

theorem decodeGroups_encode (bytes : List UInt8) : decodeGroups (encode bytes) = some bytes := by
  fun_induction encode with
  | case1 => rfl
  | case2 a =>
      have ha := a.toNat_lt
      simp only [decodeGroups, decodeGroup, if_true]
      rw [value_digit _ (by omega), value_digit _ (by omega)]
      simp only [Option.bind_eq_bind, Option.bind_some, Option.pure_def, Option.some.injEq,
        List.append_nil, List.cons.injEq, and_true]
      exact ofNat_eq (by omega)
  | case3 a b =>
      have ha := a.toNat_lt
      have hb := b.toNat_lt
      simp only [decodeGroups, decodeGroup, if_true]
      rw [if_neg (digit_ne_pad _ (by omega)), value_digit _ (by omega), value_digit _ (by omega),
        value_digit _ (by omega)]
      simp only [Option.bind_eq_bind, Option.bind_some, Option.pure_def, Option.some.injEq,
        List.append_nil, List.cons.injEq, and_true]
      exact ⟨ofNat_eq (by omega), ofNat_eq (by omega)⟩
  | case4 a b c rest ih =>
      have hc := c.toNat_lt
      rw [decodeGroups, decodeGroup, if_neg (digit_ne_pad _ (by omega)), decodeFull_encode, ih]
      rfl

theorem decode_encode (bytes : List UInt8) : decode (encode bytes) = some bytes := by
  have hfilter : (encode bytes).filter (· ≠ 10) = encode bytes := by
    rw [List.filter_eq_self]
    intro c hc
    have := (inAlphabet_of_mem_encode c hc).printable
    have hne : c ≠ 10 := by
      intro heq
      rw [heq] at this
      exact absurd this.1 (by decide)
    simpa using hne
  rw [decode, hfilter, decodeGroups_encode]

end Base64
