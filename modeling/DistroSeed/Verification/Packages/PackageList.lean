import DistroSeed.Library.Lines
import DistroSeed.Model.PackageList

/-! Which packages the merged package lists name. -/

namespace DistroSeed

open KeySort Tokens

/-- A line without its comment. -/
def withoutComment (line : List Char) : List Char := line.takeWhile (· ≠ '#')

/-- The words of a text that are left without its comments. -/
def packageWords (text : List Char) : List (List Char) :=
  (text.splitOn '\n').flatMap fun line => words isSpace (withoutComment line)

/-- The words that `sed` leaves. -/
def sedWords (locale : Locale) (text : List Char) : List (List Char) :=
  (text.splitOn '\n').flatMap fun line => words isSpace (cutComment locale line)

/-! ## From the text to `PKGS` -/

theorem isSpace_newline : isSpace '\n' := by decide

theorem isSpace_blank : isSpace ' ' := by decide

theorem words_sedComments (locale : Locale) (text : List Char) :
    words isSpace (sedComments locale text) = sedWords locale text := by
  have hlines : ∀ (lines : List (List Char)) (last : List Char),
      words isSpace ((lines.filter (!·.isEmpty)).flatMap (· ++ ['\n']) ++ last) =
        (lines ++ [last]).flatMap (words isSpace) := by
    intro lines last
    induction lines with
    | nil => simp
    | cons line lines ih =>
        by_cases hline : line = []
        · subst hline
          simpa using ih
        · rw [List.filter_cons_of_pos (by simpa using hline), List.flatMap_cons, List.append_assoc,
            List.append_assoc, List.singleton_append, words_append_cons isSpace_newline, ih]
          rfl
  have hne : (text.splitOn '\n').map (cutComment locale) ≠ [] := by
    simp [List.splitOn_ne_nil]
  obtain ⟨lines, last, hsplit⟩ :=
    (List.eq_nil_or_concat' ((text.splitOn '\n').map (cutComment locale))).resolve_left hne
  rw [sedWords, ← List.flatMap_map, sedComments, hsplit, List.dropLast_concat,
    List.getLastD_concat]
  exact hlines lines last

theorem wordsFrom_squeeze (w text : List Char) :
    wordsFrom isSpace w (squeeze ' ' text) = wordsFrom isSpace w text := by
  induction text generalizing w with
  | nil => rfl
  | cons c text ih =>
      rw [squeeze]
      split_ifs with hrun
      · obtain ⟨rfl, hnext⟩ : c = ' ' ∧ text.head? = some ' ' := by simpa using hrun
        obtain ⟨rest, rfl⟩ : ∃ rest, text = ' ' :: rest := by
          cases text with
          | nil => cases hnext
          | cons d rest => exact ⟨rest, by rw [Option.some.inj hnext]⟩
        rw [ih, wordsFrom_cons_of_sep isSpace_blank, wordsFrom_cons_of_sep isSpace_blank,
          words_cons_of_sep isSpace_blank]
      · rw [wordsFrom, wordsFrom, ih, ih]

theorem words_trSpaces (text : List Char) : words isSpace (trSpaces text) = words isSpace text := by
  rw [trSpaces, words, wordsFrom_squeeze]
  apply wordsFrom_map
  · intro c hc
    rw [if_pos hc]
    exact isSpace_blank
  · intro c hc
    exact ⟨if_neg hc, hc⟩

/-- The words are those of the lines, of which `sort -u` changes the order only. -/
theorem mem_words_sortUnique {text w : List Char} :
    w ∈ words isSpace ([' '].intercalate (sortUnique (fileLines text))) ↔
      w ∈ words isSpace text := by
  have hlines : ∀ line, line ≠ [] → (line ∈ fileLines text ↔ line ∈ text.splitOn '\n') := by
    intro line hline
    obtain ⟨lines, last, hsplit⟩ :=
      (List.eq_nil_or_concat' (text.splitOn '\n')).resolve_left (List.splitOn_ne_nil '\n' text)
    rw [fileLines, hsplit, List.getLastD_concat]
    split_ifs with hlast
    · simp [hlast, hline]
    · exact Iff.rfl
  have hword : ∀ line, w ∈ words isSpace line → line ≠ [] := by
    rintro line hw rfl
    cases hw
  have hjoin : ['\n'].intercalate (text.splitOn '\n') = text := List.intercalate_splitOn '\n'
  rw [words_intercalate isSpace_blank, ← hjoin,
    words_intercalate isSpace_newline, List.intercalate_splitOn, List.mem_flatMap, List.mem_flatMap]
  constructor
  · rintro ⟨line, hline, hw⟩
    rw [sortUnique, mem_sortedBy, List.mem_dedup] at hline
    exact ⟨line, (hlines line (hword line hw)).mp hline, hw⟩
  · rintro ⟨line, hline, hw⟩
    refine ⟨line, ?_, hw⟩
    rw [sortUnique, mem_sortedBy, List.mem_dedup]
    exact (hlines line (hword line hw)).mpr hline

theorem words_commandSubstitution (output : List Char) :
    words isSpace (commandSubstitution output) =
      ((words isSpace output).map (List.filter (· ≠ '\x00'))).filter (!·.isEmpty) := by
  have hnull : ∀ c, isSpace c → decide (c ≠ '\x00') = true := by
    rintro c hc
    by_contra hnull
    obtain rfl : c = '\x00' := by simpa using hnull
    exact absurd hc (by decide)
  have hnewlines : ∀ c ∈ (output.filter (· ≠ '\x00')).rtakeWhile (· = '\n'), isSpace c := by
    intro c hc
    have hnewline : c = '\n' := by simpa using List.mem_rtakeWhile_imp hc
    exact hnewline ▸ isSpace_newline
  calc words isSpace (commandSubstitution output)
      = words isSpace (output.filter (· ≠ '\x00')) := by
        rw [commandSubstitution, ← words_append_of_forall_sep hnewlines,
          List.rdropWhile_append_rtakeWhile]
    _ = _ := wordsFrom_filter hnull [] output

namespace PackageSources

variable {s : PackageSources} {locale : Locale}

/-- The names are the words that `sed` leaves of the merged text, less the null characters. -/
theorem mem_pkgNames {name : List Char} :
    name ∈ s.pkgNames locale ↔
      name ≠ [] ∧ ∃ w ∈ sedWords locale s.work, w.filter (· ≠ '\x00') = name := by
  have htr : ∀ text : List Char,
      words isSpace (text.map fun c => if c = ' ' then '\n' else c) = words isSpace text := by
    intro text
    apply wordsFrom_map
    · intro c hc
      split_ifs
      · exact isSpace_newline
      · exact hc
    · intro c hc
      refine ⟨if_neg ?_, hc⟩
      rintro rfl
      exact hc isSpace_blank
  rw [pkgNames, pkgs, words_commandSubstitution, words_append_cons isSpace_newline, words_nil,
    List.append_nil, List.mem_filter, List.mem_map]
  simp only [mem_words_sortUnique, htr, words_trSpaces, words_sedComments]
  rw [and_comm]
  simp

end PackageSources

/-! ## Comments -/

/-- What stands behind the first `#` of every line is text in the locale. -/
def CommentsMatch (locale : Locale) (text : List Char) : Prop :=
  ∀ line ∈ text.splitOn '\n', ∀ comment, line.dropWhile (· ≠ '#') = '#' :: comment →
    locale.matchesRest comment

/-- A line is cut at its first `#`, at a later one, or not at all. -/
theorem cutComment_cases (locale : Locale) (line : List Char) :
    cutComment locale line = line ∨
      ∃ comment, line = cutComment locale line ++ '#' :: comment ∧ locale.matchesRest comment := by
  induction line with
  | nil => exact Or.inl rfl
  | cons c rest ih =>
      rw [cutComment]
      split_ifs with hcut
      · obtain ⟨hhash, hmatch⟩ := Bool.and_eq_true_iff.mp hcut
        obtain rfl : c = '#' := of_decide_eq_true hhash
        exact Or.inr ⟨rest, rfl, hmatch⟩
      · rcases ih with hall | ⟨comment, heq, hmatch⟩
        · exact Or.inl (by rw [hall])
        · exact Or.inr ⟨comment, by rw [List.cons_append, ← heq], hmatch⟩

theorem cutComment_append {front : List Char} (h : '#' ∉ front) (locale : Locale) (rest : List Char) :
    cutComment locale (front ++ rest) = front ++ cutComment locale rest := by
  induction front with
  | nil => rfl
  | cons c front ih =>
      rw [List.mem_cons, not_or] at h
      have hc : (c = '#' && locale.matchesRest (front ++ rest)) = false := by
        simp [Ne.symm h.1]
      rw [List.cons_append, cutComment, hc, ih h.2]
      rfl

theorem hash_notMem_withoutComment (line : List Char) : '#' ∉ withoutComment line := by
  intro hmem
  simpa using List.mem_takeWhile_imp hmem

theorem eq_withoutComment_append {line comment : List Char}
    (h : line.dropWhile (· ≠ '#') = '#' :: comment) : line = withoutComment line ++ '#' :: comment := by
  rw [← h, withoutComment, List.takeWhile_append_dropWhile]

/-- A comment that is text in the locale is cut off. -/
theorem cutComment_eq {locale : Locale} {line : List Char}
    (h : ∀ comment, line.dropWhile (· ≠ '#') = '#' :: comment → locale.matchesRest comment) :
    cutComment locale line = withoutComment line := by
  have hfront := hash_notMem_withoutComment line
  cases hrest : line.dropWhile (· ≠ '#') with
  | nil =>
      have hline : line = withoutComment line ++ [] := by
        rw [← hrest, withoutComment, List.takeWhile_append_dropWhile]
      have hcut := cutComment_append hfront locale []
      rw [← hline] at hcut
      rw [hcut, cutComment, List.append_nil]
  | cons c comment =>
      have hhead := List.head?_dropWhile_not (· ≠ '#') line
      rw [hrest] at hhead
      obtain rfl : c = '#' := by simpa using hhead
      have hcut := cutComment_append hfront locale ('#' :: comment)
      rw [← eq_withoutComment_append hrest, cutComment, if_pos (by simp [h comment hrest]),
        List.append_nil] at hcut
      exact hcut

theorem sedWords_eq {locale : Locale} {text : List Char} (h : CommentsMatch locale text) :
    sedWords locale text = packageWords text := by
  rw [sedWords, packageWords]
  exact List.flatMap_congr fun line hline => by rw [cutComment_eq (h line hline)]

/-- Where a comment is left, the word that begins it is not text from there, or others follow. -/
theorem words_cutComment_of_not_match {locale : Locale} {line comment : List Char}
    (hcomment : line.dropWhile (· ≠ '#') = '#' :: comment) (hnot : ¬ locale.matchesRest comment) :
    ∃ front u v back, words isSpace (cutComment locale line) = front ++ (u ++ '#' :: v) :: back ∧
      (ByteText.IsText v → back ≠ []) := by
  have hcut : cutComment locale line = withoutComment line ++ '#' :: cutComment locale comment := by
    have happend := cutComment_append (hash_notMem_withoutComment line) locale ('#' :: comment)
    rwa [← eq_withoutComment_append hcomment, cutComment, if_neg (by simp [hnot])] at happend
  have hhash : ¬ isSpace '#' := by decide
  obtain ⟨front, u, hwords⟩ := exists_wordsFrom_append_cons hhash [] (withoutComment line)
    (cutComment locale comment)
  rw [← hcut] at hwords
  refine ⟨front, u, _, _, hwords, fun htext hback => hnot ?_⟩
  -- else the comment is text: the rest of the word, blanks, and what is cut off
  have hblanks := forall_sep_of_words_eq_nil hback
  have hspaces : ByteText.IsText ((cutComment locale comment).dropWhile (!isSpace ·)) := by
    apply ByteText.isText_ascii
    intro c hc
    have hspace := hblanks c hc
    simp only [isSpace, Bool.or_eq_true, decide_eq_true_eq, Bool.and_eq_true] at hspace
    omega
  have hleft : ByteText.IsText (cutComment locale comment) := by
    rw [← List.takeWhile_append_dropWhile (p := (!isSpace ·)) (l := cutComment locale comment)]
    exact htext.append hspaces
  cases locale with
  | c => rfl
  | utf8 =>
      rw [Locale.matchesRest, ByteText.isSome_decode?_iff]
      rcases cutComment_cases .utf8 comment with hall | ⟨cut, heq, hmatch⟩
      · rwa [← hall]
      · rw [Locale.matchesRest, ByteText.isSome_decode?_iff] at hmatch
        have hsign : ByteText.IsText ['#'] :=
          ByteText.isText_ascii (List.all_iff_forall_prop.mp (by decide))
        rw [heq]
        exact hleft.append (hsign.append hmatch)

/-- If no word has a `#` but the last one, which is text, then `sed` has cut all comments. -/
theorem commentsMatch_of_sedWords_eq {locale : Locale} {text name : List Char}
    {others : List (List Char)} (h : sedWords locale text = others ++ flush name)
    (hothers : ∀ w ∈ others, '#' ∉ w)
    (hname : ∀ u v, name = u ++ '#' :: v → ByteText.IsText v) : CommentsMatch locale text := by
  intro line hline comment hcomment
  by_contra hnot
  obtain ⟨front, u, v, back, hwords, hback⟩ := words_cutComment_of_not_match hcomment hnot
  obtain ⟨before, after, hsplit⟩ := List.append_of_mem hline
  obtain ⟨x, y, hword, hrest⟩ : ∃ x y, x ++ (u ++ '#' :: v) :: y = others ++ flush name ∧
      (back ≠ [] → y ≠ []) := by
    refine ⟨(before.flatMap fun line => words isSpace (cutComment locale line)) ++ front,
      back ++ after.flatMap fun line => words isSpace (cutComment locale line), ?_,
      fun hne heq => hne (List.append_eq_nil_iff.mp heq).1⟩
    rw [← h, sedWords, hsplit, List.flatMap_append, List.flatMap_cons, hwords]
    simp
  have hnotMem : u ++ '#' :: v ∉ others := fun hmem => hothers _ hmem (by simp)
  have hne : name ≠ [] := by
    rintro rfl
    rw [flush_nil, List.append_nil] at hword
    exact hnotMem (hword ▸ by simp)
  rw [flush_of_ne_nil hne] at hword
  cases y using List.reverseRecOn with
  | nil =>
      have hlast := List.append_inj_right' hword rfl
      exact hrest (hback (hname u v (List.cons.inj hlast).1.symm)) rfl
  | append_singleton y w =>
      rw [← List.cons_append, ← List.append_assoc] at hword
      have hfront := List.append_inj_left' hword rfl
      exact hnotMem (hfront ▸ by simp)

/-! ## Texts in a row -/

theorem packageWords_append_cons (x y : List Char) :
    packageWords (x ++ '\n' :: y) = packageWords x ++ packageWords y := by
  rw [packageWords, List.splitOn_append_cons_self, List.flatMap_append]
  rfl

@[simp] theorem packageWords_nil : packageWords [] = [] := rfl

theorem packageWords_line {line : List Char} (h : '\n' ∉ line) :
    packageWords line = words isSpace (withoutComment line) := by
  rw [packageWords, List.splitOn_eq_singleton h]
  simp

theorem packageWords_append_of_endsLine {x : List Char} (h : Lines.EndsLine (· = '\n') x)
    (y : List Char) : packageWords (x ++ y) = packageWords x ++ packageWords y := by
  rcases h with rfl | ⟨c, hc, hnewline⟩
  · rfl
  · obtain ⟨x, rfl⟩ := List.getLast?_eq_some_iff.mp hc
    obtain rfl : c = '\n' := by simpa using hnewline
    rw [List.append_assoc, List.singleton_append, packageWords_append_cons,
      packageWords_append_cons, packageWords_nil, List.append_nil]

/-- The first line of a text, without its newline. -/
def firstLine (text : List Char) : List Char := text.takeWhile (· ≠ '\n')

theorem packageWords_append_dropWhile (line text : List Char) :
    packageWords (line ++ text.dropWhile (· ≠ '\n')) =
      packageWords line ++ packageWords (text.dropWhile (· ≠ '\n')) := by
  cases hrest : text.dropWhile (· ≠ '\n') with
  | nil => simp
  | cons c rest =>
      have hhead := List.head?_dropWhile_not (· ≠ '\n') text
      rw [hrest] at hhead
      obtain rfl : c = '\n' := by simpa using hhead
      have hempty := packageWords_append_cons [] rest
      rw [List.nil_append, packageWords_nil, List.nil_append] at hempty
      rw [packageWords_append_cons, hempty]

/-- The last line of a text and the first one of the next keep their words, although there may be
no newline between them: what the last line comments out has no words, or there is a blank. -/
def Separated (text next : List Char) : Prop :=
  let last := Lines.lastLine (· = '\n') text
  let first := withoutComment (firstLine next)
  if '#' ∈ last then words isSpace first = []
  else (∀ c ∈ last.getLast?, isSpace c) ∨ ∀ c ∈ first.head?, isSpace c

theorem words_lines_iff (last first : List Char) :
    words isSpace (withoutComment (last ++ first)) =
        words isSpace (withoutComment last) ++ words isSpace (withoutComment first) ↔
      if '#' ∈ last then words isSpace (withoutComment first) = []
      else (∀ c ∈ last.getLast?, isSpace c) ∨ ∀ c ∈ (withoutComment first).head?, isSpace c := by
  split_ifs with hhash
  · have hcut : withoutComment (last ++ first) = withoutComment last := by
      rw [withoutComment, List.takeWhile_append, if_neg]
      · rfl
      · intro hlength
        have hself := (List.takeWhile_prefix (· ≠ '#')).eq_of_length hlength
        have hall := List.takeWhile_eq_self_iff.mp hself '#' hhash
        simp at hall
    rw [hcut]
    exact List.self_eq_append_right
  · have hlast : ∀ c ∈ last, decide (c ≠ '#') = true := by
      intro c hc
      exact decide_eq_true fun heq => hhash (heq ▸ hc)
    have hcutLast : withoutComment last = last := List.takeWhile_eq_self_iff.mpr hlast
    have hcut : withoutComment (last ++ first) = last ++ withoutComment first :=
      List.takeWhile_append_of_pos hlast
    rw [hcut, hcutLast]
    exact words_append_iff last (withoutComment first)

/-- When two texts in a row have the words of each. -/
theorem packageWords_append_iff (text next : List Char) :
    packageWords (text ++ next) = packageWords text ++ packageWords next ↔
      Separated text next := by
  have hbefore := Lines.endsLine_beforeLastLine (· = '\n') text
  have hlast : '\n' ∉ Lines.lastLine (· = '\n') text := fun hmem =>
    Lines.not_break_of_mem_lastLine hmem (by simp)
  have hfirst : '\n' ∉ firstLine next := by
    intro hmem
    have := List.mem_takeWhile_imp hmem
    simp at this
  have hboth : '\n' ∉ Lines.lastLine (· = '\n') text ++ firstLine next := by
    simp [hlast, hfirst]
  have htext : text = Lines.beforeLastLine (· = '\n') text ++ Lines.lastLine (· = '\n') text :=
    (Lines.beforeLastLine_append_lastLine _ text).symm
  have hnext : next = firstLine next ++ next.dropWhile (· ≠ '\n') :=
    (List.takeWhile_append_dropWhile).symm
  have htextWords : packageWords text = packageWords (Lines.beforeLastLine (· = '\n') text) ++
      words isSpace (withoutComment (Lines.lastLine (· = '\n') text)) := by
    rw [← packageWords_line hlast, ← packageWords_append_of_endsLine hbefore, ← htext]
  have hnextWords : packageWords next = words isSpace (withoutComment (firstLine next)) ++
      packageWords (next.dropWhile (· ≠ '\n')) := by
    rw [← packageWords_line hfirst, ← packageWords_append_dropWhile, ← hnext]
  have hwords : packageWords (text ++ next) =
      packageWords (Lines.beforeLastLine (· = '\n') text) ++
        (words isSpace (withoutComment (Lines.lastLine (· = '\n') text ++ firstLine next)) ++
          packageWords (next.dropWhile (· ≠ '\n'))) := by
    rw [← packageWords_line hboth, ← packageWords_append_dropWhile,
      ← packageWords_append_of_endsLine hbefore, ← List.append_assoc, ← List.append_assoc,
      ← htext, List.append_assoc, ← hnext]
  rw [hwords, htextWords, hnextWords, Separated, ← words_lines_iff, List.append_assoc,
    List.append_cancel_left_eq, ← List.append_assoc, List.append_cancel_right_eq]

/-! ## What is merged -/

/-- A text that is one word, and no comment. -/
def IsPlainName (name : List Char) : Prop := ∀ c ∈ name, ¬ isSpace c ∧ c ≠ '#'

theorem spec_of_mem_packageWords {text name : List Char} (h : name ∈ packageWords text) :
    name ≠ [] ∧ IsPlainName name := by
  obtain ⟨line, _, hname⟩ := List.mem_flatMap.mp h
  obtain ⟨hne, hspace⟩ := spec_of_mem_words hname
  refine ⟨hne, fun c hc => ⟨hspace c hc, ?_⟩⟩
  simpa using List.mem_takeWhile_imp (mem_of_mem_words hname c hc)

theorem packageWords_of_isPlainName {name : List Char} (h : IsPlainName name) :
    packageWords name = flush name := by
  have hnewline : '\n' ∉ name := fun hmem => (h '\n' hmem).1 isSpace_newline
  have hcut : withoutComment name = name :=
    List.takeWhile_eq_self_iff.mpr fun c hc => decide_eq_true (h c hc).2
  rw [packageWords_line hnewline, hcut, words_of_forall fun c hc => (h c hc).1]

theorem packageWords_lines (texts : List (List Char)) :
    packageWords (texts.flatMap (· ++ ['\n'])) = texts.flatMap packageWords := by
  induction texts with
  | nil => rfl
  | cons text texts ih =>
      rw [List.flatMap_cons, List.append_assoc, List.singleton_append, packageWords_append_cons, ih]
      rfl

namespace PackageSources

variable {s : PackageSources}

/-- The words of every source for itself, and the name of the kernel package. -/
def names (s : PackageSources) : List (List Char) :=
  (s.packagelist.toList ++ s.tasks).flatMap packageWords ++ flush s.kernelName

theorem packageWords_following :
    packageWords s.following = s.tasks.flatMap packageWords ++ packageWords s.kernelName := by
  have htasks : Lines.EndsLine (· = '\n') (s.tasks.flatMap (· ++ ['\n'])) := by
    cases s.tasks using List.reverseRecOn with
    | nil => exact Or.inl rfl
    | append_singleton tasks task =>
        rw [List.flatMap_append, List.flatMap_singleton, ← List.append_assoc]
        exact Lines.endsLine_append_singleton (by simp)
  rw [following, packageWords_append_of_endsLine htasks, packageWords_lines]
  split_ifs with hkernel
  · rw [hkernel]
  · rw [packageWords_append_cons, packageWords_nil, List.append_nil]

/-- What the names are if the kernel package has a plain name. -/
theorem names_eq (h : IsPlainName s.kernelName) :
    s.names = packageWords (s.packagelist.getD []) ++ packageWords s.following := by
  rw [packageWords_following, packageWords_of_isPlainName h, names, List.flatMap_append,
    List.append_assoc]
  cases s.packagelist with
  | none => rfl
  | some text => rw [Option.toList_some, List.flatMap_singleton, Option.getD_some]

theorem hash_notMem_of_mem_packageWords {text name : List Char} (h : name ∈ packageWords text) :
    '#' ∉ name := fun hmem => ((spec_of_mem_packageWords h).2 '#' hmem).2 rfl

/-- `PKGS` has the words of every source for itself and the kernel package, where no word is joined
to one of another source or commented out, if and only if every comment of the merged text is text
in the locale, the packagelist file does not run into what follows it, the kernel package has a
plain name, and no name has a null character. -/
theorem pkgNames_iff (locale : Locale) (s : PackageSources) :
    ((∀ name, name ∈ s.pkgNames locale ↔ name ∈ s.names) ∧ sedWords locale s.work = s.names) ↔
      CommentsMatch locale s.work ∧ Separated (s.packagelist.getD []) s.following ∧
        IsPlainName s.kernelName ∧ ∀ name ∈ s.names, '\x00' ∉ name := by
  constructor
  · rintro ⟨hnames, hwords⟩
    have hcomments : CommentsMatch locale s.work := by
      refine commentsMatch_of_sedWords_eq hwords ?_ ?_
      · intro w hw
        obtain ⟨text, _, hw⟩ := List.mem_flatMap.mp hw
        exact hash_notMem_of_mem_packageWords hw
      · intro u v hkernel
        obtain ⟨rest, rfl⟩ := ByteText.exists_of_encode_eq (by decide) hkernel
        exact ByteText.isText_encode rest
    rw [sedWords_eq hcomments] at hwords
    have hplain : IsPlainName s.kernelName := by
      by_cases hkernel : s.kernelName = []
      · rw [hkernel]
        exact fun c hc => absurd hc List.not_mem_nil
      · have hmem : s.kernelName ∈ s.names := by simp [names, flush_of_ne_nil hkernel]
        rw [← hwords] at hmem
        exact (spec_of_mem_packageWords hmem).2
    refine ⟨hcomments, ?_, hplain, ?_⟩
    · rw [← packageWords_append_iff, ← names_eq hplain]
      exact hwords
    · intro name hname hnull
      obtain ⟨_, w, _, rfl⟩ := mem_pkgNames.mp ((hnames name).mpr hname)
      simp at hnull
  · rintro ⟨hcomments, hseparated, hplain, hnull⟩
    have hwords : sedWords locale s.work = s.names := by
      rw [sedWords_eq hcomments, names_eq hplain, ← (packageWords_append_iff _ _).mpr hseparated]
      rfl
    refine ⟨fun name => ?_, hwords⟩
    have hfilter : ∀ w ∈ s.names, w.filter (· ≠ '\x00') = w := by
      intro w hw
      rw [List.filter_eq_self]
      intro c hc
      exact decide_eq_true fun heq => hnull w hw (heq ▸ hc)
    rw [mem_pkgNames, hwords]
    constructor
    · rintro ⟨_, w, hw, rfl⟩
      rwa [hfilter w hw]
    · intro hname
      have hmem : name ∈ packageWords s.work := sedWords_eq hcomments ▸ hwords ▸ hname
      exact ⟨(spec_of_mem_packageWords hmem).1, name, hname, hfilter name hname⟩

/-- A packagelist file whose last line, a comment, has no newline. -/
def unterminated : PackageSources where
  packagelist := some "systemd # init".toList
  tasks := ["figlet\n".toList]
  kernel := "linux-image-armmp"

/-- The package that the task adds is commented out, whatever the locale. -/
theorem pkgNames_unterminated :
    unterminated.pkgNames .c = ["linux-image-armmp".toList, "systemd".toList] ∧
      unterminated.pkgNames .utf8 = ["linux-image-armmp".toList, "systemd".toList] ∧
      "figlet".toList ∈ unterminated.names := by
  decide +kernel

/-- In UTF-8, a comment in Latin-1 is left among the names. -/
example : cutComment .utf8 "systemd # caf\u00e9 bar".toList = "systemd # caf\u00e9 bar".toList ∧
    cutComment .c "systemd # caf\u00e9 bar".toList = "systemd ".toList := by
  decide +kernel

end PackageSources

end DistroSeed
