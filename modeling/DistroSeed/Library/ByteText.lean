import Mathlib.Data.Bool.AllAny
import Mathlib.Data.List.Basic

/-! Texts as the bytes that files and processes have of them, written with one character for each
byte. -/

namespace ByteText

/-- The bytes of a character. -/
def encodeChar (c : Char) : List Char := (String.utf8EncodeChar c).map Char.ofUInt8

/-- The bytes of a text. -/
def encode (text : List Char) : List Char := text.flatMap encodeChar

/-- The text of which these are the bytes. -/
def decode? (bytes : List Char) : Option String :=
  String.fromUTF8? (bytes.map Char.toUInt8).toByteArray

/-- A character that stands for a byte. -/
def IsByte (c : Char) : Prop := c.toNat < 256

@[simp] theorem encode_nil : encode [] = [] := rfl

@[simp] theorem encode_cons (c : Char) (text : List Char) :
    encode (c :: text) = encodeChar c ++ encode text := rfl

@[simp] theorem encode_append (text text' : List Char) :
    encode (text ++ text') = encode text ++ encode text' := List.flatMap_append

/-! ## Bytes -/

theorem toUInt8_ofUInt8 (b : UInt8) : (Char.ofUInt8 b).toUInt8 = b := by
  change b.toUInt32.toUInt8 = b
  simp

theorem toNat_ofUInt8 (b : UInt8) : (Char.ofUInt8 b).toNat = b.toNat := rfl

theorem isByte_of_mem_encode {text : List Char} {c : Char} (h : c ∈ encode text) : IsByte c := by
  obtain ⟨d, _, hc⟩ := List.mem_flatMap.mp h
  obtain ⟨b, _, rfl⟩ := List.mem_map.mp hc
  exact b.toNat_lt

theorem decode?_encode (text : String) : decode? (encode text.toList) = some text := by
  have hbytes : ((encode text.toList).map Char.toUInt8).toByteArray = text.toByteArray := by
    have hcancel : Char.toUInt8 ∘ Char.ofUInt8 = id := funext toUInt8_ofUInt8
    have hencode : encode text.toList =
        (text.toList.flatMap String.utf8EncodeChar).map Char.ofUInt8 := by
      rw [List.map_flatMap]
      rfl
    rw [hencode, List.map_map, hcancel, List.map_id]
    exact String.utf8Encode_toList
  rw [decode?, hbytes, String.fromUTF8?, dif_pos text.isValidUTF8]
  rfl

/-! ## Bytes that are a text -/

/-- The bytes are those of a text. -/
def IsText (bytes : List Char) : Prop := (bytes.map Char.toUInt8).toByteArray.IsValidUTF8

theorem isSome_decode?_iff {bytes : List Char} : (decode? bytes).isSome ↔ IsText bytes := by
  rw [decode?, String.fromUTF8?]
  split
  next h => exact iff_of_true rfl h
  next h => exact iff_of_false (by simp) h

theorem isText_encode (text : List Char) : IsText (encode text) := by
  have hsome := decode?_encode (String.ofList text)
  rw [String.toList_ofList] at hsome
  rw [← isSome_decode?_iff, hsome]
  rfl

theorem IsText.append {bytes bytes' : List Char} (h : IsText bytes) (h' : IsText bytes') :
    IsText (bytes ++ bytes') := by
  have hboth := ByteArray.IsValidUTF8.append h h'
  rwa [← List.toByteArray_append, ← List.map_append] at hboth

/-! ## ASCII -/

theorem encodeChar_ascii {c : Char} (h : c.toNat < 128) : encodeChar c = [c] := by
  have hone : c.val.toNat ≤ 0x7f := Nat.le_of_lt_succ h
  have hchar : Char.ofUInt8 (UInt8.ofNat c.val.toNat) = c := by
    apply Char.toNat_inj.mp
    rw [toNat_ofUInt8, UInt8.toNat_ofNat']
    exact Nat.mod_eq_of_lt (by omega)
  rw [encodeChar, String.utf8EncodeChar]
  simp only [hone, if_true, List.map_cons, List.map_nil, hchar]

/-- An ASCII byte is that of its own character. -/
theorem eq_of_mem_encodeChar {c d : Char} (h : d ∈ encodeChar c) (hd : d.toNat < 128) : d = c := by
  by_cases hc : c.toNat < 128
  · rw [encodeChar_ascii hc] at h
    exact List.mem_singleton.mp h
  · obtain ⟨b, hb, rfl⟩ := List.mem_map.mp h
    have hone : ¬ c.val.toNat ≤ 0x7f := fun hle => hc (Nat.lt_succ_of_le hle)
    have hlarge : 128 ≤ b.toNat := by
      rw [String.utf8EncodeChar, if_neg hone] at hb
      split_ifs at hb <;> simp only [List.mem_cons, List.not_mem_nil, or_false] at hb
      · rcases hb with rfl | rfl <;> rw [UInt8.toNat_ofNat'] <;> omega
      · rcases hb with rfl | rfl | rfl <;> rw [UInt8.toNat_ofNat'] <;> omega
      · rcases hb with rfl | rfl | rfl | rfl <;> rw [UInt8.toNat_ofNat'] <;> omega
    rw [toNat_ofUInt8] at hd
    exact absurd hlarge (by omega)

theorem mem_encode_ascii {text : List Char} {d : Char} (hd : d.toNat < 128) :
    d ∈ encode text ↔ d ∈ text := by
  constructor
  · intro h
    obtain ⟨c, hc, hmem⟩ := List.mem_flatMap.mp h
    rwa [eq_of_mem_encodeChar hmem hd]
  · intro h
    exact List.mem_flatMap.mpr ⟨d, h, by rw [encodeChar_ascii hd]; exact List.mem_singleton_self d⟩

theorem encode_ascii {text : List Char} (h : ∀ c ∈ text, c.toNat < 128) : encode text = text := by
  induction text with
  | nil => rfl
  | cons c text ih =>
      rw [encode_cons, encodeChar_ascii (h c (by simp)), ih fun d hd => h d (by simp [hd])]
      rfl

theorem isText_ascii {text : List Char} (h : ∀ c ∈ text, c.toNat < 128) : IsText text := by
  rw [← encode_ascii h]
  exact isText_encode text

/-- Behind an ASCII character the bytes of a text are those of the rest of the text. -/
theorem exists_of_encode_eq {text front back : List Char} {c : Char} (hc : c.toNat < 128)
    (h : encode text = front ++ c :: back) : ∃ rest, back = encode rest := by
  induction text generalizing front with
  | nil => simp at h
  | cons d text ih =>
      rw [encode_cons] at h
      by_cases hd : d.toNat < 128
      · rw [encodeChar_ascii hd] at h
        cases front with
        | nil => exact ⟨text, (List.cons.inj h).2.symm⟩
        | cons e front => exact ih (List.cons.inj h).2
      · rcases List.append_eq_append_iff.mp h with ⟨mid, hfront, hrest⟩ | ⟨mid, hchar, hrest⟩
        · exact ih hrest
        · cases mid with
          | nil =>
              have hback : encode text = [] ++ c :: back := hrest.symm
              exact ih hback
          | cons e mid =>
              obtain ⟨rfl, _⟩ := List.cons.inj hrest
              have hmem : c ∈ encodeChar d := by simp [hchar]
              rw [eq_of_mem_encodeChar hmem hc] at hc
              exact absurd hc hd

/-- Lines stay lines. -/
theorem encode_lines (lines : List (List Char)) :
    encode (lines.flatMap (· ++ ['\n'])) = (lines.map encode).flatMap (· ++ ['\n']) := by
  have hnewline : encode ['\n'] = ['\n'] :=
    encode_ascii (List.all_iff_forall_prop.mp (by decide))
  induction lines with
  | nil => rfl
  | cons line lines ih =>
      rw [List.flatMap_cons, encode_append, ih, encode_append, hnewline, List.map_cons,
        List.flatMap_cons]

theorem encodeChar_ne_nil (c : Char) : encodeChar c ≠ [] := by
  rw [encodeChar, ne_eq, List.map_eq_nil_iff]
  exact String.utf8EncodeChar_ne_nil

/-- A class of ASCII characters contains a character if and only if it contains its bytes. -/
theorem all_encode {p : Char → Bool} (hp : ∀ c, p c → c.toNat < 128) (text : List Char) :
    (encode text).all p = text.all p := by
  induction text with
  | nil => rfl
  | cons c text ih =>
      rw [encode_cons, List.all_append, ih, List.all_cons]
      by_cases hc : c.toNat < 128
      · rw [encodeChar_ascii hc, List.all_cons, List.all_nil, Bool.and_true]
      · have hcp : p c = false := by
          by_contra htrue
          exact hc (hp c (by simpa using htrue))
        obtain ⟨d, rest, hrest⟩ := List.exists_cons_of_ne_nil (encodeChar_ne_nil c)
        have hdp : p d = false := by
          by_contra htrue
          have hd := hp d (by simpa using htrue)
          have hmem : d ∈ encodeChar c := by simp [hrest]
          rw [eq_of_mem_encodeChar hmem hd] at hd
          exact hc hd
        rw [hrest, List.all_cons, hdp, hcp]
        rfl

/-- A rewriting of single ASCII characters can be done on the bytes. -/
theorem encode_flatMap {f : Char → List Char} (hascii : ∀ c, c.toNat < 128 → ∀ d ∈ f c, d.toNat < 128)
    (hother : ∀ c, ¬ c.toNat < 128 → f c = [c]) (text : List Char) :
    encode (text.flatMap f) = (encode text).flatMap f := by
  induction text with
  | nil => rfl
  | cons c text ih =>
      rw [List.flatMap_cons, encode_append, ih, encode_cons, List.flatMap_append]
      congr 1
      by_cases hc : c.toNat < 128
      · rw [encodeChar_ascii hc, encode_ascii (hascii c hc)]
        simp
      · have hsame : ∀ d ∈ encodeChar c, f d = [d] := by
          intro d hd
          apply hother
          intro hlt
          rw [eq_of_mem_encodeChar hd hlt] at hlt
          exact hc hlt
        rw [hother c hc, List.flatMap_congr hsame]
        simp

end ByteText
