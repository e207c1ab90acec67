import DistroSeed.Model.Vm
import DistroSeed.Verification.Serial.Stream

/-! What `_strip_protocol_lines` leaves of the stream of a command. -/

namespace DistroSeed

open PyText Lines

/-- A text that starts like the lines that frame a command. -/
def startsProtocol (text : Bytes) : Bool :=
  (ascii "__DS_BEGIN__ ").isPrefixOf text || (ascii "__DS_END__ ").isPrefixOf text

/-- No line of the text looks like one that frames a command. -/
def Plain (text : Bytes) : Prop := ∀ line ∈ byteLines text, ¬ startsProtocol line.1

/-! ## Lines -/

theorem mem_breaks_of_isByteBreak {c : UInt8} : isByteBreak c ↔ c ∈ [13, 10] := by
  simp [isByteBreak, or_comm]

theorem isProtocolLine_append {line ending : Bytes} (hline : ∀ c ∈ line, ¬ isByteBreak c)
    (hending : ∀ c ∈ ending, isByteBreak c) :
    isProtocolLine (line ++ ending) = startsProtocol line := by
  have hrstrip : rstrip [13, 10] (line ++ ending) = line := by
    have hend : ending.reverse.dropWhile (· ∈ ([13, 10] : Bytes)) = [] := by
      rw [List.dropWhile_eq_nil_iff]
      intro c hc
      simpa using mem_breaks_of_isByteBreak.mp (hending c (by simpa using hc))
    have hfront : line.reverse.dropWhile (· ∈ ([13, 10] : Bytes)) = line.reverse := by
      rw [List.dropWhile_eq_self_iff]
      intro hpos hmem
      apply hline (line.reverse.get ⟨0, hpos⟩)
      · exact List.mem_reverse.mp (List.get_mem _ _)
      · exact mem_breaks_of_isByteBreak.mpr (by simpa using hmem)
    rw [rstrip, List.reverse_append, List.dropWhile_append, hend, List.isEmpty_nil, if_pos rfl,
      hfront, List.reverse_reverse]
  rw [isProtocolLine, hrstrip, startsProtocol]

theorem isProtocolLine_of_line {line : Bytes} (hline : ∀ c ∈ line, ¬ isByteBreak c) :
    isProtocolLine line = startsProtocol line := by
  have hnil : ∀ c ∈ ([] : Bytes), isByteBreak c := by simp
  rw [← isProtocolLine_append hline hnil, List.append_nil]

theorem isProtocolLine_of_mem {text : Bytes} {line : Bytes × Bytes}
    (h : line ∈ byteLines text) : isProtocolLine (line.1 ++ line.2) = startsProtocol line.1 := by
  obtain ⟨hline, hending⟩ := breaks_of_mem_split h
  exact isProtocolLine_append hline hending

/-! ## Texts -/

theorem byteLines_append {x y : Bytes} (hx : EndsLine isByteBreak x)
    (hxy : 13 ∈ x.getLast? → 10 ∉ y.head?) : byteLines (x ++ y) = byteLines x ++ byteLines y :=
  split_append hx hxy

theorem stripProtocolLines_append {x y : Bytes} (hx : EndsLine isByteBreak x)
    (hxy : 13 ∈ x.getLast? → 10 ∉ y.head?) :
    stripProtocolLines (x ++ y) = stripProtocolLines x ++ stripProtocolLines y := by
  simp [stripProtocolLines, byteLines_append hx hxy]

/-- A text that looks like no framing is the script's own. -/
theorem stripProtocolLines_of_plain {text : Bytes} (h : Plain text) :
    stripProtocolLines text = text := by
  have hfilter : ((byteLines text).map fun line => line.1 ++ line.2).filter (!isProtocolLine ·) =
      (byteLines text).map fun line => line.1 ++ line.2 := by
    rw [List.filter_eq_self]
    intro line hmem
    obtain ⟨pair, hpair, rfl⟩ := List.mem_map.mp hmem
    have := h pair hpair
    rw [← isProtocolLine_of_mem hpair] at this
    simpa using this
  rw [stripProtocolLines, hfilter, ← List.flatMap_def]
  exact join_split isByteBreak 13 10 text

/-- One line with its line break. -/
theorem stripProtocolLines_line {line : Bytes} (hline : ∀ c ∈ line, ¬ isByteBreak c) {c : UInt8}
    (hc : isByteBreak c) :
    stripProtocolLines (line ++ [c]) = if startsProtocol line then [] else line ++ [c] := by
  have hbyte : byteLines (line ++ [c]) = [(line, [c])] := split_line hline hc
  have hprotocol : isProtocolLine (line ++ [c]) = startsProtocol line :=
    isProtocolLine_append hline (by simpa using hc)
  by_cases h : startsProtocol line <;> simp [stripProtocolLines, hbyte, hprotocol, h]

/-- One line without a line break. -/
theorem stripProtocolLines_last {line : Bytes} (hline : ∀ c ∈ line, ¬ isByteBreak c) :
    stripProtocolLines line = if startsProtocol line then [] else line := by
  by_cases hne : line = []
  · subst hne
    rfl
  · have hbyte : byteLines line = [(line, [])] := split_last_line hline hne
    have hprotocol : isProtocolLine line = startsProtocol line := isProtocolLine_of_line hline
    by_cases h : startsProtocol line <;> simp [stripProtocolLines, hbyte, hprotocol, h]

end DistroSeed
