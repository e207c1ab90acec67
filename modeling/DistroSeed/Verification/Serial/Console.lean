import DistroSeed.Library.Cuts
import DistroSeed.Verification.Serial.Fidelity

/-! What `_read_until` appends to `console.log`: the chunks are stripped one by one, as the whole
stream would be if and only if no chunk parts a line the wrong way. -/

namespace DistroSeed

open PyText Lines

/-! ## One cut -/

/-- A line, unless it is a protocol line. -/
def keepLine (line : Bytes) : Bytes := if isProtocolLine line then [] else line

theorem stripProtocolLines_eq_flatMap (text : Bytes) :
    stripProtocolLines text = (byteLines text).flatMap fun line => keepLine (line.1 ++ line.2) := by
  rw [stripProtocolLines]
  induction byteLines text with
  | nil => rfl
  | cons line lines ih =>
      rw [List.map_cons, List.flatMap_cons, ← ih, keepLine]
      by_cases h : isProtocolLine (line.1 ++ line.2) <;> simp [h]

/-- Parts of a line that are kept or dropped with it. -/
theorem keepLine_append_iff {u v : Bytes} (hu : u ≠ []) (hv : v ≠ []) :
    keepLine u ++ keepLine v = keepLine (u ++ v) ↔
      isProtocolLine u = isProtocolLine (u ++ v) ∧ isProtocolLine v = isProtocolLine (u ++ v) := by
  have hlength : (keepLine u ++ keepLine v).length =
      (if isProtocolLine u then 0 else u.length) + if isProtocolLine v then 0 else v.length := by
    rw [List.length_append, keepLine, keepLine, apply_ite List.length, apply_ite List.length]
    rfl
  have hulength := List.length_pos_iff.mpr hu
  have hvlength := List.length_pos_iff.mpr hv
  constructor
  · intro h
    rw [h, keepLine, apply_ite List.length, List.length_append, List.length_nil] at hlength
    cases hwhole : isProtocolLine (u ++ v) with
    | true =>
        have hzero : (if isProtocolLine u then 0 else u.length) = 0 ∧
            (if isProtocolLine v then 0 else v.length) = 0 := by
          rw [hwhole, if_pos rfl] at hlength
          exact Nat.add_eq_zero_iff.mp hlength.symm
        constructor
        · by_contra hnot
          rw [if_neg hnot] at hzero
          omega
        · by_contra hnot
          rw [if_neg hnot] at hzero
          omega
    | false =>
        rw [hwhole, if_neg Bool.false_ne_true] at hlength
        constructor
        · by_contra hnot
          rw [if_pos (eq_true_of_ne_false hnot)] at hlength
          split at hlength <;> omega
        · by_contra hnot
          rw [if_pos (eq_true_of_ne_false hnot)] at hlength
          split at hlength <;> omega
  · rintro ⟨hleft, hright⟩
    rw [keepLine, keepLine, keepLine, hleft, hright]
    split_ifs <;> rfl

/-- Where a text ends and the next one goes on with its last line, the two parts of the line are
protocol lines if and only if the line is. -/
def CutAgrees (x y : Bytes) : Prop :=
  ∀ first ∈ (byteLines x).getLast?, ∀ second ∈ (byteLines y).head?, Joins 13 10 first second →
    let line := first.1 ++ first.2 ++ (second.1 ++ second.2)
    isProtocolLine (first.1 ++ first.2) = isProtocolLine line ∧
      isProtocolLine (second.1 ++ second.2) = isProtocolLine line

theorem stripProtocolLines_append_iff (x y : Bytes) :
    stripProtocolLines x ++ stripProtocolLines y = stripProtocolLines (x ++ y) ↔ CutAgrees x y := by
  have hlf : isByteBreak 10 := by decide
  have hcrlf : (13 : UInt8) ≠ 10 := by decide
  by_cases hjoins : ∃ first ∈ (byteLines x).getLast?, ∃ second ∈ (byteLines y).head?,
      Joins 13 10 first second
  · obtain ⟨first, hfirst, second, hsecond, hjoins⟩ := hjoins
    obtain ⟨before, hx⟩ := List.getLast?_eq_some_iff.mp hfirst
    obtain ⟨after, hy⟩ := List.head?_eq_some_iff.mp hsecond
    obtain ⟨line, htext, hxy⟩ := split_append_of_joins hx hy hjoins
    have hfirstne : first.1 ++ first.2 ≠ [] := ne_nil_of_mem_split (List.mem_of_getLast? hfirst)
    have hsecondne : second.1 ++ second.2 ≠ [] := ne_nil_of_mem_split (List.mem_of_mem_head? hsecond)
    have hcut : CutAgrees x y ↔ isProtocolLine (first.1 ++ first.2) = isProtocolLine
          (first.1 ++ first.2 ++ (second.1 ++ second.2)) ∧
        isProtocolLine (second.1 ++ second.2) =
          isProtocolLine (first.1 ++ first.2 ++ (second.1 ++ second.2)) := by
      rw [CutAgrees, hfirst, hsecond]
      simp [hjoins]
    have hwhole : byteLines (x ++ y) = before ++ line :: after := hxy
    rw [hcut, ← keepLine_append_iff hfirstne hsecondne, stripProtocolLines_eq_flatMap,
      stripProtocolLines_eq_flatMap, stripProtocolLines_eq_flatMap, hx, hy, hwhole]
    simp only [List.flatMap_append, List.flatMap_cons, List.flatMap_nil, List.append_nil, htext,
      List.append_assoc, List.append_cancel_left_eq]
    rw [← List.append_assoc, List.append_left_inj]
  · simp only [not_exists, not_and] at hjoins
    have hxy : byteLines (x ++ y) = byteLines x ++ byteLines y :=
      split_append_of_not_joins hlf hcrlf hjoins
    refine iff_of_true ?_ fun first hfirst second hsecond hjoin =>
      absurd hjoin (hjoins first hfirst second hsecond)
    rw [stripProtocolLines_eq_flatMap, stripProtocolLines_eq_flatMap, stripProtocolLines_eq_flatMap,
      hxy, List.flatMap_append]

/-! ## Chunk by chunk -/

/-- The log is what is kept of the stream after every chunk, exactly if every chunk parts the stream
before it the right way. -/
theorem flatMap_stripProtocolLines_iff (chunks : List Bytes) :
    (∀ received, received <+: chunks →
        received.flatMap stripProtocolLines = stripProtocolLines received.flatten) ↔
      ∀ front chunk back, chunks = front ++ chunk :: back → CutAgrees front.flatten chunk := by
  constructor
  · rintro h front chunk back rfl
    have hfront := h front (List.prefix_append _ _)
    have hboth := h (front ++ [chunk]) ⟨back, by simp⟩
    rw [List.flatMap_append, List.flatMap_singleton, hfront, List.flatten_append,
      List.flatten_singleton] at hboth
    exact (stripProtocolLines_append_iff _ _).mp hboth
  · intro h received hreceived
    induction received using List.reverseRecOn with
    | nil => rfl
    | append_singleton front chunk ih =>
        obtain ⟨back, hback⟩ := hreceived
        have hcut := h front chunk back (by rw [← hback]; simp)
        rw [List.flatMap_append, List.flatMap_singleton, List.flatten_append,
          List.flatten_singleton, ih ⟨chunk :: back, by rw [← hback]; simp⟩]
        exact (stripProtocolLines_append_iff _ _).mpr hcut

/-! ## Streams -/

/-- The bytes that a protocol line starts with. -/
def protocolMarkers : List Bytes := [ascii "__DS_BEGIN__ ", ascii "__DS_END__ "]

theorem startsProtocol_iff_exists {text : Bytes} :
    startsProtocol text ↔ ∃ marker ∈ protocolMarkers, marker <+: text := by
  rw [startsProtocol_iff]
  simp [protocolMarkers]

/-- Without a marker in it, a text is no protocol line. -/
theorem isProtocolLine_eq_false {stream text : Bytes}
    (h : ∀ marker ∈ protocolMarkers, ¬ marker <:+: stream) (htext : text <:+: stream) :
    isProtocolLine text = false := by
  have hrstrip : rstrip [13, 10] text <:+: text := by
    have hbegins := List.reverse_prefix.mpr
      (List.dropWhile_suffix (· ∈ ([13, 10] : Bytes)) (l := text.reverse))
    rw [List.reverse_reverse] at hbegins
    exact hbegins.isInfix
  rw [isProtocolLine, Bool.or_eq_false_iff]
  constructor
  all_goals
    by_contra hnot
    have hbegins := List.isPrefixOf_iff_prefix.mp (eq_true_of_ne_false hnot)
    exact h _ (by simp [protocolMarkers]) ((hbegins.isInfix.trans hrstrip).trans htext)

theorem cutAgrees_of_not_infix {x y stream : Bytes}
    (h : ∀ marker ∈ protocolMarkers, ¬ marker <:+: stream) (hxy : x ++ y <:+: stream) :
    CutAgrees x y := by
  intro first hfirst second hsecond hjoins
  obtain ⟨before, hx⟩ := List.getLast?_eq_some_iff.mp hfirst
  obtain ⟨after, hy⟩ := List.head?_eq_some_iff.mp hsecond
  have hsplit : x ++ y = join before ++ (first.1 ++ first.2 ++ (second.1 ++ second.2)) ++ join after := by
    have hjoinx : join (byteLines x) = x := join_split isByteBreak 13 10 x
    have hjoiny : join (byteLines y) = y := join_split isByteBreak 13 10 y
    rw [← hjoinx, ← hjoiny, hx, hy]
    simp [join]
  have hline : first.1 ++ first.2 ++ (second.1 ++ second.2) <:+: stream :=
    List.IsInfix.trans ⟨join before, join after, hsplit.symm⟩ hxy
  have hleft := isProtocolLine_eq_false h ((List.prefix_append _ _).isInfix.trans hline)
  have hright := isProtocolLine_eq_false h ((List.suffix_append _ _).isInfix.trans hline)
  exact ⟨hleft.trans (isProtocolLine_eq_false h hline).symm,
    hright.trans (isProtocolLine_eq_false h hline).symm⟩

/-- A text that begins without a line break begins its first line. -/
theorem exists_byteLines_append {word : Bytes} (hword : ∀ c ∈ word, ¬ isByteBreak c)
    (hne : word ≠ []) (rest : Bytes) :
    ∃ line ending after, byteLines (word ++ rest) = (word ++ line, ending) :: after := by
  cases hrest : byteLines rest with
  | nil =>
      have hnil : rest = [] := by
        have hjoin : join (byteLines rest) = rest := join_split isByteBreak 13 10 rest
        rw [← hjoin, hrest, join_nil]
      subst hnil
      refine ⟨[], [], [], ?_⟩
      rw [List.append_nil]
      exact split_last_line hword hne
  | cons first after =>
      refine ⟨first.1, first.2, after, ?_⟩
      have hfold : word.foldr (push isByteBreak 13 10) (byteLines rest) =
          (word ++ first.1, first.2) :: after := by
        rw [hrest]
        exact foldr_push_line hword first.1 first.2 after
      rw [byteLines, split, List.foldr_append]
      exact hfold

/-- A cut in a line that has begun and goes on with a word. -/
theorem CutAgrees.unfinished {x u word rest : Bytes} (hx : EndsLine isByteBreak x)
    (hu : ∀ c ∈ u, ¬ isByteBreak c) (hune : u ≠ []) (hword : ∀ c ∈ word, ¬ isByteBreak c)
    (hne : word ≠ []) (h : CutAgrees (x ++ u) (word ++ rest)) :
    ∃ line, startsProtocol u = startsProtocol (u ++ (word ++ line)) ∧
      startsProtocol (word ++ line) = startsProtocol (u ++ (word ++ line)) := by
  obtain ⟨line, ending, after, hsecond⟩ := exists_byteLines_append hword hne rest
  have hfirst : byteLines (x ++ u) = byteLines x ++ [(u, [])] := by
    rw [byteLines_append hx fun _ hhead => hu 10 (List.mem_of_mem_head? hhead) (by decide)]
    exact congrArg _ (split_last_line hu hune)
  have hmem : (word ++ line, ending) ∈ byteLines (word ++ rest) := hsecond ▸ List.mem_cons_self
  obtain ⟨hline, hending⟩ := breaks_of_mem_split hmem
  have hall : ∀ c ∈ u ++ (word ++ line), ¬ isByteBreak c := fun c hc =>
    (List.mem_append.mp hc).elim (hu c) (hline c)
  obtain ⟨hleft, hright⟩ := h (u, []) (by simp [hfirst]) (word ++ line, ending) (by simp [hsecond])
    (Or.inl rfl)
  rw [List.append_nil, ← List.append_assoc, isProtocolLine_of_line hu,
    isProtocolLine_append hall hending] at hleft
  rw [List.append_nil, ← List.append_assoc, isProtocolLine_append hline hending,
    isProtocolLine_append hall hending] at hright
  exact ⟨line, hleft, hright⟩

/-- Where a stream has a marker, it can be cut the wrong way: in the marker if it begins a line, and
in front of it otherwise. -/
theorem exists_not_cutAgrees {stream marker : Bytes} (hmarker : marker ∈ protocolMarkers)
    (h : marker <:+: stream) : ∃ x y, x ++ y = stream ∧ ¬ CutAgrees x y := by
  have hmarkers : ∀ marker ∈ protocolMarkers, (∀ c ∈ marker, ¬ isByteBreak c) ∧
      2 ≤ marker.length ∧ ∀ other ∈ protocolMarkers, ¬ other <+: marker.take 1 := by decide +kernel
  obtain ⟨hword, hlength, _⟩ := hmarkers marker hmarker
  have hne : marker ≠ [] := List.ne_nil_of_length_pos (by omega)
  obtain ⟨before, rest, rfl⟩ := h
  have hsplit := beforeLastLine_append_lastLine isByteBreak before
  have hx := endsLine_beforeLastLine isByteBreak before
  have hu : ∀ c ∈ lastLine isByteBreak before, ¬ isByteBreak c :=
    fun c hc => not_break_of_mem_lastLine hc
  by_cases hstarts : startsProtocol (lastLine isByteBreak before ++ marker)
  · obtain ⟨other, hother, tail, htail⟩ := startsProtocol_iff_exists.mp hstarts
    obtain ⟨hbytes, hlong, hfirst⟩ := hmarkers other hother
    refine ⟨beforeLastLine isByteBreak before ++ other.take 1, other.drop 1 ++ (tail ++ rest), ?_,
      fun hcut => ?_⟩
    · conv_rhs => rw [← hsplit, List.append_assoc (beforeLastLine isByteBreak before), ← htail,
        ← List.take_append_drop 1 other]
      simp
    · obtain ⟨line, hleft, _⟩ := hcut.unfinished hx (fun c hc => hbytes c (List.mem_of_mem_take hc))
        (List.ne_nil_of_length_pos (by rw [List.length_take]; omega))
        (fun c hc => hbytes c (List.mem_of_mem_drop hc))
        (List.ne_nil_of_length_pos (by rw [List.length_drop]; omega))
      have hwhole : startsProtocol (other.take 1 ++ (other.drop 1 ++ line)) := by
        rw [← List.append_assoc, List.take_append_drop]
        exact startsProtocol_iff_exists.mpr ⟨other, hother, List.prefix_append _ _⟩
      rw [hwhole] at hleft
      obtain ⟨third, hthird, hbegins⟩ := startsProtocol_iff_exists.mp hleft
      exact hfirst third hthird hbegins
  · refine ⟨before, marker ++ rest, by simp, fun hcut => ?_⟩
    rw [← hsplit] at hcut
    have hune : lastLine isByteBreak before ≠ [] := by
      intro hnil
      rw [hnil, List.nil_append] at hstarts
      exact hstarts (startsProtocol_iff_exists.mpr ⟨marker, hmarker, List.prefix_rfl⟩)
    obtain ⟨line, hleft, hright⟩ := hcut.unfinished hx hu hune hword hne
    have hsecond : startsProtocol (marker ++ line) :=
      startsProtocol_iff_exists.mpr ⟨marker, hmarker, List.prefix_append _ _⟩
    rw [hright.symm.trans hsecond] at hleft
    obtain ⟨other, hother, hbegins⟩ := startsProtocol_iff_exists.mp hleft
    exact hstarts (startsProtocol_iff_exists.mpr
      ⟨other, hother, hbegins.trans (List.prefix_append _ _)⟩)

/-- Of every split of a stream into chunks, stripping the chunks one by one leaves after each of them
what stripping the stream so far does, exactly if the chunks part its lines the right way; and every
split leaves what stripping the whole does, exactly if the stream has no marker. -/
theorem stripProtocolLines_chunks_iff (stream : Bytes) :
    (∀ chunks : List Bytes, chunks.flatten = stream →
      ((∀ received, received <+: chunks →
          received.flatMap stripProtocolLines = stripProtocolLines received.flatten) ↔
        ∀ front chunk back, chunks = front ++ chunk :: back → CutAgrees front.flatten chunk)) ∧
    ((∀ chunks : List Bytes, chunks.flatten = stream →
        chunks.flatMap stripProtocolLines = stripProtocolLines stream) ↔
      ∀ marker ∈ protocolMarkers, ¬ marker <:+: stream) := by
  refine ⟨fun chunks _ => flatMap_stripProtocolLines_iff chunks, ?_⟩
  constructor
  · intro h marker hmarker hinfix
    obtain ⟨x, y, rfl, hcut⟩ := exists_not_cutAgrees hmarker hinfix
    apply hcut
    rw [← stripProtocolLines_append_iff]
    simpa using h [x, y] (by simp)
  · rintro h chunks rfl
    refine (flatMap_stripProtocolLines_iff chunks).mpr ?_ chunks List.prefix_rfl
    rintro front chunk back rfl
    exact cutAgrees_of_not_infix h ⟨[], back.flatten, by simp⟩

/-- The end line of a command that is cut behind its fifth byte goes to the log, although nothing of
it would be left of the whole. -/
theorem stripProtocolLines_cut_endLine :
    let chunks := [(endLine trueToken 0).take 5, (endLine trueToken 0).drop 5]
    chunks.flatMap stripProtocolLines = endLine trueToken 0 ∧
      stripProtocolLines chunks.flatten = [] ∧
      chunks.flatMap stripProtocolLines ≠ stripProtocolLines chunks.flatten := by
  decide +kernel

/-! ## The log of `_read_until` -/

theorem readUntil_consoleLog {markers : List Bytes} {data log : Bytes} {chunks : List Bytes}
    {result : ReadResult} (h : readUntil markers true data log chunks = .returned result) :
    ∃ received, received <+: chunks ∧ result.data = data ++ received.flatten ∧
      result.consoleLog = log ++ received.flatMap stripProtocolLines := by
  induction chunks generalizing data log with
  | nil => cases h
  | cons chunk chunks ih =>
      rw [readUntil] at h
      split at h
      · cases h
      · simp only [if_true] at h
        split at h
        · obtain rfl := Outcome.returned.inj h
          exact ⟨[chunk], by simp, by simp, by simp⟩
        · obtain ⟨received, hreceived, hdata, hlog⟩ := ih h
          refine ⟨chunk :: received, List.cons_prefix_cons.mpr ⟨rfl, hreceived⟩, ?_, ?_⟩
          · rw [hdata, List.flatten_cons, List.append_assoc]
          · rw [hlog, List.flatMap_cons, List.append_assoc]

/-- With chunks that part no line the wrong way, the log of a command is its output without the
protocol lines. -/
theorem readUntil_consoleLog_eq {markers : List Bytes} {chunks : List Bytes} {result : ReadResult}
    (h : readUntil markers true [] [] chunks = .returned result)
    (hcuts : ∀ front chunk back, chunks = front ++ chunk :: back → CutAgrees front.flatten chunk) :
    result.consoleLog = stripProtocolLines result.data := by
  obtain ⟨received, hreceived, hdata, hlog⟩ := readUntil_consoleLog h
  rw [hlog, hdata, List.nil_append, List.nil_append]
  exact (flatMap_stripProtocolLines_iff chunks).mpr hcuts received hreceived

end DistroSeed
