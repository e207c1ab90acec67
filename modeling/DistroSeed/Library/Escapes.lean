import Mathlib.Data.List.Basic

/-! Texts in which some characters are written as a mark with a code behind it, and a reader that
stops at the first character of a kind that stands for itself. -/

/-- The codes of the characters that are not written as they are, and what a code stands for. -/
structure Escaping (α : Type*) where
  mark : α
  code : α → Option α
  decode : α → Option α
  decode_code : ∀ c d, code c = some d → decode d = some c
  isSome_code_mark : (code mark).isSome

namespace Escaping

variable {α : Type*} (e : Escaping α)

def escape (text : List α) : List α :=
  text.flatMap fun c =>
    match e.code c with
    | some d => [e.mark, d]
    | none => [c]

/-- The reader, in front of a character or in front of a code. -/
def readFrom [DecidableEq α] (stop : α) : Bool → List α → Option (List α × List α)
  | _, [] => none
  | true, d :: rest =>
      (e.decode d).bind fun c => (readFrom stop false rest).map fun read => (c :: read.1, read.2)
  | false, c :: rest =>
      if c = stop then some ([], rest)
      else if c = e.mark then readFrom stop true rest
      else (readFrom stop false rest).map fun read => (c :: read.1, read.2)

/-- The text in front of the first `stop` that is no code, and what follows it. -/
def readUntil [DecidableEq α] (stop : α) (text : List α) : Option (List α × List α) :=
  e.readFrom stop false text

section Basic

variable {e} {text rest : List α}

@[simp] theorem escape_nil : e.escape [] = [] := rfl

theorem escape_append (text text' : List α) :
    e.escape (text ++ text') = e.escape text ++ e.escape text' := List.flatMap_append

theorem escape_cons_of_some {c d : α} (h : e.code c = some d) :
    e.escape (c :: text) = e.mark :: d :: e.escape text := by
  simp [escape, h]

theorem escape_cons_of_none {c : α} (h : e.code c = none) :
    e.escape (c :: text) = c :: e.escape text := by
  simp [escape, h]

theorem ne_mark_of_code_eq_none {c : α} (h : e.code c = none) : c ≠ e.mark := by
  intro heq
  have hmark := e.isSome_code_mark
  rw [← heq, h] at hmark
  cases hmark

/-- A character that is written as a code and is no code of another does not occur. -/
theorem notMem_escape {c : α} (hcode : (e.code c).isSome) (hmark : c ≠ e.mark)
    (hother : ∀ d, e.code d ≠ some c) (text : List α) : c ∉ e.escape text := by
  induction text with
  | nil => simp
  | cons d text ih =>
      cases hd : e.code d with
      | some d' =>
          have hne : c ≠ d' := fun heq => hother d (heq ▸ hd)
          simp [escape_cons_of_some hd, hmark, hne, ih]
      | none =>
          have hne : c ≠ d := by
            intro heq
            rw [heq, hd] at hcode
            cases hcode
          simp [escape_cons_of_none hd, hne, ih]

/-- What an escaped text consists of. -/
theorem mem_escape {c : α} {text : List α} (h : c ∈ e.escape text) :
    c ∈ text ∨ c = e.mark ∨ ∃ d ∈ text, e.code d = some c := by
  rcases List.mem_flatMap.mp h with ⟨d, hd, hc⟩
  cases hcode : e.code d with
  | none =>
      rw [hcode, List.mem_singleton] at hc
      exact Or.inl (hc ▸ hd)
  | some d' =>
      rw [hcode, List.mem_cons, List.mem_singleton] at hc
      rcases hc with hc | hc
      · exact Or.inr (Or.inl hc)
      · exact Or.inr (Or.inr ⟨d, hd, by rw [hcode, hc]⟩)

variable [DecidableEq α] {stop : α}

theorem readUntil_stop (rest : List α) : e.readUntil stop (stop :: rest) = some ([], rest) := by
  rw [readUntil, readFrom, if_pos rfl]

/-- The reader gives back the text, if none of its characters is a bare `stop`. -/
theorem readUntil_escape (hstop : stop ≠ e.mark) (h : stop ∈ text → (e.code stop).isSome)
    (rest : List α) : e.readUntil stop (e.escape text ++ stop :: rest) = some (text, rest) := by
  induction text with
  | nil => exact readUntil_stop rest
  | cons c text ih =>
      have hrest := ih fun hmem => h (List.mem_cons_of_mem c hmem)
      rw [readUntil] at hrest ⊢
      cases hc : e.code c with
      | some d =>
          rw [escape_cons_of_some hc, List.cons_append, List.cons_append, readFrom,
            if_neg (Ne.symm hstop), if_pos rfl, readFrom, e.decode_code c d hc, hrest]
          rfl
      | none =>
          have hne : c ≠ stop := by
            intro heq
            subst heq
            have hcode := h List.mem_cons_self
            rw [hc] at hcode
            cases hcode
          rw [escape_cons_of_none hc, List.cons_append, readFrom, if_neg hne,
            if_neg (ne_mark_of_code_eq_none hc), hrest]
          rfl

/-- A `stop` that stands for itself ends the text where it is. -/
theorem readUntil_escape_append (hstop : stop ≠ e.mark) (hcode : e.code stop = none)
    (h : stop ∉ text) (text' rest : List α) :
    e.readUntil stop (e.escape (text ++ stop :: text') ++ rest) =
      some (text, e.escape text' ++ rest) := by
  rw [escape_append, escape_cons_of_none hcode, List.append_assoc, List.cons_append]
  exact readUntil_escape hstop (fun hmem => absurd hmem h) _

end Basic

end Escaping
