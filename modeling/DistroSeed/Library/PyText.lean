import DistroSeed.Library.Lines
import DistroSeed.Library.Utf8

/-! Python's text methods on `bytes` and on `str`, the latter as code points. -/

namespace PyText

abbrev Bytes := List UInt8

/-- The bytes of an ASCII literal. -/
def ascii (literal : String) : Bytes := literal.toList.map fun c => UInt8.ofNat c.toNat

/-! ## Lines -/

/-- What ends a line of `bytes`. -/
def isByteBreak (b : UInt8) : Bool := b = 10 || b = 13

/-- What ends a line of `str`. -/
def isTextBreak (c : ℕ) : Bool :=
  c ∈ [10, 11, 12, 13, 28, 29, 30, 0x85, 0x2028, 0x2029]

/-- `bytes.splitlines`, the line breaks kept apart. -/
def byteLines (data : Bytes) : List (Bytes × Bytes) := Lines.split isByteBreak 13 10 data

/-- `str.splitlines`, the line breaks kept apart. -/
def textLines (text : List ℕ) : List (List ℕ × List ℕ) := Lines.split isTextBreak 13 10 text

/-- `bytes.rstrip`. -/
def rstrip (chars data : Bytes) : Bytes := (data.reverse.dropWhile (· ∈ chars)).reverse

/-! ## Fields -/

/-- `str.rsplit(sep, 1)[1]`: what follows the last separator, if there is one. -/
def rsplitLast (sep : ℕ) (text : List ℕ) : Option (List ℕ) :=
  if sep ∈ text then some (text.reverse.takeWhile (· ≠ sep)).reverse else none

/-- The code points of the digit zero, each followed by the other nine digits. -/
def decimalZeros : List ℕ :=
  [0x30, 0x660, 0x6f0, 0x7c0, 0x966, 0x9e6, 0xa66, 0xae6, 0xb66, 0xbe6, 0xc66, 0xce6, 0xd66,
    0xde6, 0xe50, 0xed0, 0xf20, 0x1040, 0x1090, 0x17e0, 0x1810, 0x1946, 0x19d0, 0x1a80, 0x1a90,
    0x1b50, 0x1bb0, 0x1c40, 0x1c50, 0xa620, 0xa8d0, 0xa900, 0xa9d0, 0xa9f0, 0xaa50, 0xabf0,
    0xff10, 0x104a0, 0x10d30, 0x11066, 0x110f0, 0x11136, 0x111d0, 0x112f0, 0x11450, 0x114d0,
    0x11650, 0x116c0, 0x11730, 0x118e0, 0x11950, 0x11c50, 0x11d50, 0x11da0, 0x16a60, 0x16ac0,
    0x16b50, 0x1d7ce, 0x1d7d8, 0x1d7e2, 0x1d7ec, 0x1d7f6, 0x1e140, 0x1e2f0, 0x1e950, 0x1fbf0]

def digitValue (c : ℕ) : Option ℕ :=
  (decimalZeros.find? fun z => z ≤ c && c ≤ z + 9).map (c - ·)

/-- What `int` strips: the blanks of C, and the other blanks outside ASCII. -/
def isIntBlank (c : ℕ) : Bool :=
  c ∈ [9, 10, 11, 12, 13, 32, 0x85, 0xa0, 0x1680, 0x2000, 0x2001, 0x2002, 0x2003, 0x2004, 0x2005,
    0x2006, 0x2007, 0x2008, 0x2009, 0x200a, 0x2028, 0x2029, 0x202f, 0x205f, 0x3000]

/-- Digits, with single underscores between them. -/
def parseDigits : Bool → List ℕ → Option (List ℕ)
  | afterDigit, [] => if afterDigit then some [] else none
  | afterDigit, c :: rest =>
      if c = 95 then if afterDigit then parseDigits false rest else none
      else
        match digitValue c with
        | some d => (parseDigits true rest).map (d :: ·)
        | none => none

/-- The number of at most 4300 digits. -/
def parseNat (text : List ℕ) : Option ℕ :=
  match parseDigits false text with
  | some digits =>
      if digits.length ≤ 4300 then some (digits.foldl (fun n d => 10 * n + d) 0) else none
  | none => none

/-- `int(text)`, `none` for a `ValueError`. -/
def toInt (text : List ℕ) : Option ℤ :=
  match ((text.dropWhile isIntBlank).reverse.dropWhile isIntBlank).reverse with
  | 43 :: rest => (parseNat rest).map fun n => (n : ℤ)
  | 45 :: rest => (parseNat rest).map fun n => -(n : ℤ)
  | rest => (parseNat rest).map fun n => (n : ℤ)

/-- `str(n)`, as bytes. -/
def decimal (n : ℕ) : Bytes := (Nat.toDigits 10 n).map fun c => UInt8.ofNat c.toNat

/-! ## Encoding -/

/-- The code points of a text. -/
def codePoints (text : String) : List ℕ := text.toList.map Char.toNat

/-- No lone surrogate. -/
def encodes (text : List ℕ) : Bool := text.all fun c => decide c.isValidChar

/-- The text that `str.encode` writes in UTF-8, `none` for a `UnicodeEncodeError`. -/
def toText? (text : List ℕ) : Option String :=
  if encodes text then some (String.ofList (text.map Char.ofNat)) else none

/-- `str.encode("utf-8")`. -/
def encode? (text : List ℕ) : Option Bytes :=
  (toText? text).map fun s => s.toList.flatMap String.utf8EncodeChar

theorem encodes_iff {text : List ℕ} : encodes text ↔ ∀ c ∈ text, c.isValidChar := by
  simp [encodes]

@[simp] theorem codePoints_append (text text' : String) :
    codePoints (text ++ text') = codePoints text ++ codePoints text' := by
  simp [codePoints]

@[simp] theorem encodes_codePoints (text : String) : encodes (codePoints text) := by
  rw [encodes_iff]
  intro c hc
  obtain ⟨d, _, rfl⟩ := List.mem_map.mp hc
  exact d.valid

@[simp] theorem toText?_codePoints (text : String) : toText? (codePoints text) = some text := by
  have hchars : (codePoints text).map Char.ofNat = text.toList := by
    simp [codePoints, Function.comp_def]
  rw [toText?, if_pos (encodes_codePoints text), hchars, String.ofList_toList]

theorem toNat_ofNat {c : ℕ} (h : c.isValidChar) : (Char.ofNat c).toNat = c := by
  rw [Char.ofNat, dif_pos h]
  rfl

theorem toText?_eq_some_iff {text : List ℕ} {s : String} :
    toText? text = some s ↔ text = codePoints s := by
  constructor
  · intro h
    rw [toText?] at h
    split at h
    next hencodes =>
      obtain rfl := Option.some.inj h
      have hpoints : ∀ c ∈ text, (Char.toNat ∘ Char.ofNat) c = id c := fun c hc =>
        toNat_ofNat (encodes_iff.mp hencodes c hc)
      rw [codePoints, String.toList_ofList, List.map_map, List.map_congr_left hpoints, List.map_id]
    next => cases h
  · rintro rfl
    exact toText?_codePoints s

theorem exists_toText?_iff {text : List ℕ} : (∃ s, toText? text = some s) ↔ encodes text := by
  constructor
  · rintro ⟨s, hs⟩
    rw [toText?_eq_some_iff.mp hs]
    exact encodes_codePoints s
  · intro h
    exact ⟨_, if_pos h⟩

@[simp] theorem encodes_append (text text' : List ℕ) :
    encodes (text ++ text') = (encodes text && encodes text') := List.all_append

/-- A joined text can be encoded if its parts can. -/
theorem encodes_intercalate {sep : List ℕ} (hsep : encodes sep) (parts : List (List ℕ)) :
    encodes (sep.intercalate parts) ↔ ∀ part ∈ parts, encodes part := by
  induction parts with
  | nil => simp [encodes]
  | cons part parts ih =>
      cases parts with
      | nil => simp
      | cons next parts =>
          rw [List.intercalate_cons_cons, encodes_append, encodes_append, hsep, Bool.and_true,
            Bool.and_eq_true, ih, List.forall_mem_cons (a := part)]

theorem codePoints_intercalate (sep : String) (parts : List String) :
    codePoints (sep.intercalate parts) = (codePoints sep).intercalate (parts.map codePoints) := by
  rw [codePoints, String.toList_intercalate]
  induction parts with
  | nil => rfl
  | cons part parts ih =>
      cases parts with
      | nil => simp [codePoints]
      | cons next parts =>
          simp only [List.map_cons, List.intercalate_cons_cons, List.map_append] at ih ⊢
          rw [ih]
          rfl

theorem encode?_ne_nil {text : List ℕ} {bytes : Bytes} (h : encode? text = some bytes)
    (htext : text ≠ []) : bytes ≠ [] := by
  obtain ⟨s, hs, rfl⟩ := Option.map_eq_some_iff.mp h
  rw [toText?_eq_some_iff] at hs
  subst hs
  intro hnil
  have hchars : s.toList = [] := by
    rw [List.eq_nil_iff_forall_not_mem]
    intro c hc
    exact String.utf8EncodeChar_ne_nil (List.flatMap_eq_nil_iff.mp hnil c hc)
  exact htext (by rw [codePoints, hchars, List.map_nil])

/-! ## Ranges of bytes -/

/-- All bytes lie between the bounds. -/
def between (low high : ℕ) (data : Bytes) : Bool :=
  data.all fun b => low ≤ b.toNat && b.toNat ≤ high

theorem between_iff {low high : ℕ} {data : Bytes} :
    between low high data ↔ ∀ b ∈ data, low ≤ b.toNat ∧ b.toNat ≤ high := by
  simp [between]

/-! ## The numbers of one byte -/

theorem decimal_spec : ∀ n < 256,
    between 48 57 (decimal n) ∧ decimal n ≠ [] ∧
      toInt ((decimal n).map UInt8.toNat) = some (n : ℤ) := by
  decide +kernel

theorem digit_of_mem_decimal {n : ℕ} (hn : n < 256) :
    ∀ b ∈ decimal n, 48 ≤ b.toNat ∧ b.toNat ≤ 57 := between_iff.mp (decimal_spec n hn).1

/-- Fewer digits are no number or a different one. -/
theorem toInt_take_decimal : ∀ n < 256, ∀ j < (decimal n).length,
    toInt (((decimal n).take j).map UInt8.toNat) ≠ some (n : ℤ) := by
  decide +kernel

end PyText
