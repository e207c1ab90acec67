import DistroSeed.Model.Checkout

/-! The paths of a run in its checkout directory, as the names they consist of: that of the
checkout, those of the tasks in it, and those of the commands as seen from it. -/

namespace DistroSeed

open Paths
open Parsed (osNormpath normStep)

/-! ## Relative paths -/

/-- A relative path goes up and down by its names. -/
def wayStep (way : ℕ × List (List Char)) (name : List Char) : ℕ × List (List Char) :=
  if name = ['.'] then way
  else if name ≠ ['.', '.'] then (way.1, way.2 ++ [name])
  else if way.2 = [] then (way.1 + 1, [])
  else (way.1, way.2.dropLast)

/-- The way that a relative path describes. -/
def pathWay (path : String) : ℕ × List (List Char) := (pathNames path).foldl wayStep (0, [])

theorem isPathName_wayStep {way : ℕ × List (List Char)} {name : List Char}
    (hway : ∀ name ∈ way.2, IsPathName name) (hname : IsName '/' name) :
    ∀ other ∈ (wayStep way name).2, IsPathName other := by
  rw [wayStep]
  split
  next => exact hway
  next hdot =>
    split
    next hup =>
      intro other hother
      rcases List.mem_append.mp hother with hother | hother
      · exact hway other hother
      · rw [List.mem_singleton.mp hother]
        exact ⟨hname, hdot, hup⟩
    next =>
      split
      next => simp
      next => exact fun other hother => hway other (List.mem_of_mem_dropLast hother)

theorem isPathName_pathWay (path : String) : ∀ name ∈ (pathWay path).2, IsPathName name := by
  have hfold : ∀ (names : List (List Char)) (way : ℕ × List (List Char)),
      (∀ name ∈ names, IsName '/' name) → (∀ name ∈ way.2, IsPathName name) →
      ∀ name ∈ (names.foldl wayStep way).2, IsPathName name := by
    intro names
    induction names with
    | nil => exact fun _ _ hway => hway
    | cons name names ih =>
        intro way hnames hway
        obtain ⟨hname, hnames⟩ := List.forall_mem_cons.mp hnames
        exact ih (wayStep way name) hnames (isPathName_wayStep hway hname)
  exact hfold _ _ (fun _ hname => isName_of_mem_names hname) (by simp)

/-! ## `os.path.normpath` -/

/-- In an absolute directory, a name leads where the way leads that goes on with it. -/
theorem normStep_follow {dir : List (List Char)} (hdir : ∀ name ∈ dir, IsPathName name)
    {way : ℕ × List (List Char)} (hway : ∀ name ∈ way.2, IsPathName name) {name : List Char}
    (hname : name ≠ []) :
    normStep true (follow dir way) name = follow dir (wayStep way name) := by
  rw [normStep, wayStep]
  by_cases hdot : name = ['.']
  · rw [if_pos (by simp [hdot]), if_pos hdot]
  rw [if_neg (by simp [hname, hdot]), if_neg hdot]
  by_cases hup : name = ['.', '.']
  · -- an absolute path has no `..` that it could be put behind
    have hlast : (follow dir way).getLast? ≠ some ['.', '.'] := by
      intro hlast
      rcases List.mem_append.mp (List.mem_of_getLast? hlast) with hmem | hmem
      · exact (hdir _ (List.mem_of_mem_take hmem)).2.2 rfl
      · exact (hway _ hmem).2.2 rfl
    rw [if_neg (by simp [hup, hlast]), if_neg (by simpa using hup)]
    by_cases hnil : way.2 = []
    · rw [if_pos hnil, follow, follow, hnil, List.append_nil, List.append_nil, dropLast_rdrop]
    · rw [if_neg hnil, follow, follow, List.dropLast_append_of_ne_nil hnil]
  · rw [if_pos (by simp [hup]), if_pos hup, follow, follow, List.append_assoc]

theorem foldl_normStep_follow {dir : List (List Char)} (hdir : ∀ name ∈ dir, IsPathName name)
    {names : List (List Char)} (hnames : ∀ name ∈ names, IsName '/' name)
    {way : ℕ × List (List Char)} (hway : ∀ name ∈ way.2, IsPathName name) :
    names.foldl (normStep true) (follow dir way) = follow dir (names.foldl wayStep way) := by
  induction names generalizing way with
  | nil => rfl
  | cons name names ih =>
      obtain ⟨hname, hnames⟩ := List.forall_mem_cons.mp hnames
      rw [List.foldl_cons, List.foldl_cons, normStep_follow hdir hway hname.1,
        ih hnames (isPathName_wayStep hway hname)]

/-- Names of files stay what they are. -/
theorem foldl_normStep_isPathName {names : List (List Char)}
    (hnames : ∀ name ∈ names, IsPathName name) (dir : List (List Char)) :
    names.foldl (normStep true) dir = dir ++ names := by
  induction names generalizing dir with
  | nil => simp
  | cons name names ih =>
      obtain ⟨hname, hnames⟩ := List.forall_mem_cons.mp hnames
      have hstep : normStep true dir name = dir ++ [name] := by
        rw [normStep, if_neg (by simp [hname.1.1, hname.2.1]), if_pos (by simp [hname.2.2])]
      rw [List.foldl_cons, hstep, ih hnames, List.append_assoc, List.singleton_append]

/-- Of an absolute path, the names are resolved from the root on. -/
theorem osNormpath_toList {path : String} {rest : List Char} (h : path.toList = '/' :: rest) :
    ∃ slashes, (osNormpath path).toList = '/' :: (List.replicate slashes '/' ++
      ['/'].intercalate ((path.toList.splitOn '/').foldl (normStep true) [])) := by
  obtain ⟨slashes, hslashes⟩ : ∃ slashes, (if ['/', '/', '/'].isPrefixOf path.toList then 1
      else if ['/', '/'].isPrefixOf path.toList then 2
      else if ['/'].isPrefixOf path.toList then 1 else 0) = slashes + 1 := by
    by_cases hthree : ['/', '/', '/'].isPrefixOf path.toList
    · exact ⟨0, if_pos hthree⟩
    by_cases htwo : ['/', '/'].isPrefixOf path.toList
    · exact ⟨1, by rw [if_neg hthree, if_pos htwo]⟩
    · exact ⟨0, by rw [if_neg hthree, if_neg htwo, if_pos (by simp [h])]⟩
  refine ⟨slashes, ?_⟩
  rw [osNormpath, hslashes, if_neg (by simp [List.replicate_succ])]
  simp [List.replicate_succ]

theorem foldl_normStep_splitOn (path : String) (dir : List (List Char)) :
    (path.toList.splitOn '/').foldl (normStep true) dir =
      (pathNames path).foldl (normStep true) dir := by
  rw [pathNames, names, List.foldl_filter]
  congr 1
  funext dir name
  by_cases hname : name = []
  · simp [normStep, hname]
  · simp [hname]

theorem isName_foldl_normStep {names : List (List Char)} (hnames : ∀ name ∈ names, IsName '/' name)
    {dir : List (List Char)} (hdir : ∀ name ∈ dir, IsName '/' name) :
    ∀ name ∈ names.foldl (normStep true) dir, IsName '/' name := by
  induction names generalizing dir with
  | nil => exact hdir
  | cons name names ih =>
      obtain ⟨hname, hnames⟩ := List.forall_mem_cons.mp hnames
      refine ih hnames ?_
      rw [normStep]
      split
      next => exact hdir
      next =>
        split
        next =>
          intro other hother
          rcases List.mem_append.mp hother with hother | hother
          · exact hdir other hother
          · rwa [List.mem_singleton.mp hother]
        next => exact fun other hother => hdir other (List.mem_of_mem_dropLast hother)

theorem pathNames_osNormpath {path : String} {rest : List Char} (h : path.toList = '/' :: rest) :
    pathNames (osNormpath path) = (pathNames path).foldl (normStep true) [] := by
  obtain ⟨slashes, hnorm⟩ := osNormpath_toList h
  rw [foldl_normStep_splitOn] at hnorm
  have hnames : ∀ name ∈ (pathNames path).foldl (normStep true) [], IsName '/' name :=
    isName_foldl_normStep (fun _ hname => isName_of_mem_names hname) (by simp)
  rw [pathNames, hnorm, names_cons, names_replicate_append, names_intercalate hnames]

/-! ## The checkout -/

theorem pathNames_append (dir name : String) :
    pathNames (dir ++ "/" ++ name) = pathNames dir ++ pathNames name := by
  have hslash : "/".toList = ['/'] := rfl
  rw [pathNames, String.toList_append, String.toList_append, hslash, List.append_assoc,
    List.singleton_append, names_append, pathNames, pathNames]

@[simp] theorem AbsoluteDir.pathNames_path (dir : AbsoluteDir) : pathNames dir.path = dir.names := by
  rw [pathNames, AbsoluteDir.path, String.toList_ofList, names_cons,
    names_intercalate fun name hname => (dir.isPathName name hname).1]

theorem AbsoluteDir.path_toList (dir : AbsoluteDir) :
    dir.path.toList = '/' :: ['/'].intercalate dir.names := by
  rw [AbsoluteDir.path, String.toList_ofList]

theorem pathNames_osPathJoin {dir : AbsoluteDir} {name : String}
    (h : name.toList.head? ≠ some '/') :
    pathNames (osPathJoin dir.path name) = dir.names ++ pathNames name := by
  rw [osPathJoin, if_neg h]
  split
  next hslash =>
    have hne : dir.path ≠ "" := by
      intro hempty
      have hlist := dir.path_toList
      rw [hempty] at hlist
      cases hlist
    have hlast : dir.path.toList.getLast? = some '/' := by simpa [hne] using hslash
    obtain ⟨front, hfront⟩ := List.getLast?_eq_some_iff.mp hlast
    have hnames := dir.pathNames_path
    rw [pathNames, hfront, names_append, names_nil, List.append_nil] at hnames
    rw [pathNames, String.toList_append, hfront, List.append_assoc, List.singleton_append,
      names_append, hnames, pathNames]
  next => rw [pathNames_append, dir.pathNames_path]

theorem osPathJoin_toList (dir : AbsoluteDir) (name : String) (h : name.toList.head? ≠ some '/') :
    ∃ rest, (osPathJoin dir.path name).toList = '/' :: rest := by
  rw [osPathJoin, if_neg h]
  split <;> simp [dir.path_toList]

/-- A relative path leads on from the working directory. -/
theorem pathNames_osPathAbspath {cwd : AbsoluteDir} {path : String}
    (h : path.toList.head? ≠ some '/') :
    pathNames (osPathAbspath cwd path) = follow cwd.names (pathWay path) := by
  obtain ⟨rest, hrest⟩ := osPathJoin_toList cwd path h
  rw [osPathAbspath, pathNames_osNormpath hrest, pathNames_osPathJoin h, List.foldl_append,
    foldl_normStep_isPathName cwd.isPathName, List.nil_append]
  calc (pathNames path).foldl (normStep true) cwd.names
      = (pathNames path).foldl (normStep true) (follow cwd.names (0, [])) := by
        rw [follow_zero, List.append_nil]
    _ = follow cwd.names (pathWay path) :=
        foldl_normStep_follow cwd.isPathName (fun _ hname => isName_of_mem_names hname) (by simp)

/-- An absolute path of names only stays what it is. -/
theorem pathNames_osPathAbspath_of_absolute {cwd : AbsoluteDir} {path : String} {rest : List Char}
    (h : path.toList = '/' :: rest) (hnames : ∀ name ∈ pathNames path, IsPathName name) :
    pathNames (osPathAbspath cwd path) = pathNames path := by
  have hjoin : osPathJoin cwd.path path = path := by rw [osPathJoin, if_pos (by simp [h])]
  rw [osPathAbspath, hjoin, pathNames_osNormpath h, foldl_normStep_isPathName hnames,
    List.nil_append]

/-- Of a path, `os.path.dirname` leaves the names in front of the last slash. -/
theorem pathNames_osPathDirname {path : String} {before last : List Char}
    (h : path.toList = before ++ '/' :: last) (hlast : '/' ∉ last) :
    pathNames (osPathDirname path) = names '/' before := by
  have hhead : path.toList.rdropWhile (· ≠ '/') = before ++ ['/'] := by
    rw [h, List.rdropWhile, List.reverse_append, List.reverse_cons, List.append_assoc,
      List.dropWhile_append_of_pos]
    · simp
    · intro c hc
      have hne : c ≠ '/' := by
        rintro rfl
        exact hlast (List.mem_reverse.mp hc)
      simpa using hne
  have hnames : names '/' (before ++ ['/']) = names '/' before := by
    rw [names_append, names_nil, List.append_nil]
  rw [osPathDirname, hhead]
  split
  next => rw [pathNames, String.toList_ofList, hnames]
  next => rw [pathNames, String.toList_ofList, names_rdropWhile, hnames]

/-- Where the last name of an absolute path starts, and the names before it. -/
theorem exists_before_last {dir : List (List Char)} (hdir : ∀ name ∈ dir, IsName '/' name)
    (last : List Char) (slashes : ℕ) :
    ∃ before, '/' :: (List.replicate slashes '/' ++ ['/'].intercalate (dir ++ [last])) =
      before ++ '/' :: last ∧ names '/' before = dir := by
  by_cases hroot : dir = []
  · subst hroot
    refine ⟨List.replicate slashes '/', ?_, by simpa using names_replicate_append slashes []⟩
    rw [List.nil_append, List.intercalate_singleton, ← List.cons_append, ← List.replicate_succ,
      List.replicate_succ', List.append_assoc, List.singleton_append]
  · refine ⟨'/' :: (List.replicate slashes '/' ++ ['/'].intercalate dir), ?_, ?_⟩
    · rw [intercalate_concat hroot]
      simp
    · rw [names_cons, names_replicate_append, names_intercalate hdir]

/-- The root path has the names of the working directory. -/
theorem Host.pathNames_rootPath (host : Host) : pathNames host.rootPath = host.cwd.names := by
  have hfile : IsPathName "__file__".toList := by decide
  have hnames : pathNames "__file__" = ["__file__".toList] := by decide
  obtain ⟨rest, hrest⟩ := osPathJoin_toList host.cwd "__file__" (by decide)
  obtain ⟨slashes, hpath⟩ := osNormpath_toList hrest
  rw [foldl_normStep_splitOn, pathNames_osPathJoin (by decide), List.foldl_append, hnames,
    foldl_normStep_isPathName host.cwd.isPathName, List.nil_append,
    foldl_normStep_isPathName (by simpa using hfile)] at hpath
  obtain ⟨before, hbefore, hdir⟩ := exists_before_last
    (fun name hname => (host.cwd.isPathName name hname).1) "__file__".toList slashes
  rw [Host.rootPath, osPathAbspath, pathNames_osPathDirname (hpath.trans hbefore) hfile.1.2, hdir]

theorem osPathDirname_toList {path : String} {rest : List Char} (h : path.toList = '/' :: rest) :
    ∃ rest, (osPathDirname path).toList = '/' :: rest := by
  have hstarts : ∀ p : Char → Bool, ∀ text : List Char, text.rdropWhile p ≠ [] →
      ∀ c rest, text = c :: rest → ∃ rest, text.rdropWhile p = c :: rest := by
    rintro p _ hne c rest rfl
    obtain ⟨first, others, hdrop⟩ := List.exists_cons_of_ne_nil hne
    obtain ⟨behind, hbehind⟩ := List.rdropWhile_prefix p (c :: rest)
    rw [hdrop] at hbehind
    obtain ⟨rfl, _⟩ := List.cons.inj hbehind
    exact ⟨others, hdrop⟩
  obtain ⟨head, hhead⟩ := hstarts (· ≠ '/') path.toList
    (fun hnil => by simpa using List.rdropWhile_eq_nil_iff.mp hnil '/' (by simp [h])) '/' rest h
  rw [osPathDirname, hhead]
  split
  next => simp
  next hslashes =>
    rw [String.toList_ofList]
    refine hstarts _ _ (fun hnil => hslashes ?_) '/' head rfl
    exact List.all_eq_true.mpr (List.rdropWhile_eq_nil_iff.mp hnil)

theorem Host.rootPath_toList (host : Host) : ∃ rest, host.rootPath.toList = '/' :: rest := by
  obtain ⟨rest, hrest⟩ := osPathJoin_toList host.cwd "__file__" (by decide)
  obtain ⟨slashes, hpath⟩ := osNormpath_toList hrest
  exact osPathDirname_toList hpath

/-! ## The paths of a task -/

theorem PlacedTask.pathNames_path (placed : PlacedTask) : pathNames placed.path = placed.dir := by
  rw [pathNames, PlacedTask.path, String.toList_ofList,
    names_intercalate fun name hname => (placed.isPathName name hname).1]

theorem PlacedTask.path_head? (placed : PlacedTask) (cmd : String) :
    (placed.path ++ "/" ++ cmd).toList.head? ≠ some '/' := by
  obtain ⟨name, dir, hdir⟩ := List.exists_cons_of_ne_nil placed.ne_nil
  obtain ⟨⟨hne, hslash⟩, _⟩ := placed.isPathName name (by rw [hdir]; exact List.mem_cons_self)
  obtain ⟨c, rest, rfl⟩ := List.exists_cons_of_ne_nil hne
  have hc : c ≠ '/' := by
    rintro rfl
    exact hslash List.mem_cons_self
  simpa [PlacedTask.path, hdir] using hc

/-- The way from the checkout to the command of a task. -/
def PlacedTask.cmdWay (placed : PlacedTask) : ℕ × List (List Char) :=
  pathWay (placed.path ++ "/" ++ placed.cmd)

/-- The path of the command is the way from the checkout to where the command lies. -/
theorem PlacedTask.fullCmd_eq (host : Host) (placed : PlacedTask) :
    placed.fullCmd host.cwd host.rootPath =
      wayPath (wayTo host.cwd.names (follow host.cwd.names placed.cmdWay)) := by
  obtain ⟨rest, hroot⟩ := host.rootPath_toList
  have hnames : ∀ name ∈ pathNames host.rootPath, IsPathName name := by
    rw [host.pathNames_rootPath]
    exact host.cwd.isPathName
  rw [PlacedTask.fullCmd, osPathRelpath, pathNames_osPathAbspath_of_absolute hroot hnames,
    host.pathNames_rootPath, pathNames_osPathAbspath (placed.path_head? placed.cmd),
    PlacedTask.cmdWay]

theorem PlacedTask.pathNames_taskPath (host : Host) (placed : PlacedTask) :
    pathNames (placed.taskPath host.cwd host.rootPath) = host.cwd.names ++ placed.dir := by
  obtain ⟨rest, hroot⟩ := host.rootPath_toList
  have hpath : (host.rootPath ++ "/" ++ placed.path).toList =
      '/' :: (rest ++ '/' :: placed.path.toList) := by
    simp [hroot]
  have hnames : pathNames (host.rootPath ++ "/" ++ placed.path) = host.cwd.names ++ placed.dir := by
    rw [pathNames_append, host.pathNames_rootPath, placed.pathNames_path]
  rw [PlacedTask.taskPath, pathNames_osPathAbspath_of_absolute hpath, hnames]
  rw [hnames]
  exact List.forall_mem_append.mpr ⟨host.cwd.isPathName, placed.isPathName⟩

/-- A relative path says how far it goes up and where it goes down. -/
theorem pathNames_wayPath {way : ℕ × List (List Char)} (hway : ∀ name ∈ way.2, IsPathName name) :
    pathNames (wayPath way) =
      if way = (0, []) then [['.']] else List.replicate way.1 ['.', '.'] ++ way.2 := by
  obtain ⟨ups, downs⟩ := way
  have hnil : List.replicate ups ['.', '.'] ++ downs = [] ↔ (ups, downs) = (0, []) := by
    simp
  rw [wayPath]
  by_cases hempty : (ups, downs) = (0, [])
  · rw [if_pos (hnil.mpr hempty), if_pos hempty]
    decide
  · rw [if_neg (hnil.not.mpr hempty), if_neg hempty, pathNames, String.toList_ofList]
    apply names_intercalate
    intro name hname
    rcases List.mem_append.mp hname with hname | hname
    · rw [List.eq_of_mem_replicate hname]
      decide
    · exact (hway name hname).1

theorem foldl_wayStep_replicate (n ups : ℕ) :
    (List.replicate n ['.', '.']).foldl wayStep (ups, []) = (ups + n, []) := by
  induction n generalizing ups with
  | zero => rfl
  | succ n ih =>
      have hstep : wayStep (ups, []) ['.', '.'] = (ups + 1, []) := by simp [wayStep]
      rw [List.replicate_succ, List.foldl_cons, hstep, ih, Nat.add_right_comm, Nat.add_assoc]

theorem foldl_wayStep_isPathName {names : List (List Char)}
    (hnames : ∀ name ∈ names, IsPathName name) (way : ℕ × List (List Char)) :
    names.foldl wayStep way = (way.1, way.2 ++ names) := by
  induction names generalizing way with
  | nil => simp
  | cons name names ih =>
      obtain ⟨hname, hnames⟩ := List.forall_mem_cons.mp hnames
      have hstep : wayStep way name = (way.1, way.2 ++ [name]) := by
        rw [wayStep, if_neg hname.2.1, if_pos hname.2.2]
      rw [List.foldl_cons, hstep, ih hnames, List.append_assoc, List.singleton_append]

/-- Round trip: a way that is written as a path is read back. -/
theorem pathWay_wayPath {way : ℕ × List (List Char)} (hway : ∀ name ∈ way.2, IsPathName name) :
    pathWay (wayPath way) = way := by
  rw [pathWay, pathNames_wayPath hway]
  split
  next hempty =>
    rw [hempty]
    rfl
  next =>
    rw [List.foldl_append, foldl_wayStep_replicate, foldl_wayStep_isPathName hway, Nat.zero_add,
      List.nil_append]

theorem isPathName_wayTo (start : List (List Char)) {target : List (List Char)}
    (h : ∀ name ∈ target, IsPathName name) :
    ∀ name ∈ (wayTo start target).2, IsPathName name :=
  fun name hname => h name (List.mem_of_mem_drop hname)

theorem PlacedTask.isPathName_follow (cwd : AbsoluteDir) (placed : PlacedTask) :
    ∀ name ∈ follow cwd.names placed.cmdWay, IsPathName name := by
  intro name hname
  rcases List.mem_append.mp hname with hname | hname
  · exact cwd.isPathName name (List.mem_of_mem_take hname)
  · exact isPathName_pathWay _ name hname

/-- Two runs call the command of a task the same, exactly if the way to it is as good from either
checkout. -/
theorem PlacedTask.fullCmd_eq_iff {first second : Host} {placed : PlacedTask} :
    placed.fullCmd first.cwd first.rootPath = placed.fullCmd second.cwd second.rootPath ↔
      SameWay placed.cmdWay first.cwd.names second.cwd.names := by
  have hfirst := isPathName_wayTo first.cwd.names (placed.isPathName_follow first.cwd)
  have hsecond :=
    isPathName_wayTo second.cwd.names (placed.isPathName_follow second.cwd)
  rw [placed.fullCmd_eq first, placed.fullCmd_eq second, ← wayTo_follow_eq_iff]
  constructor
  · intro h
    have hway := congrArg pathWay h
    rwa [pathWay_wayPath hfirst, pathWay_wayPath hsecond] at hway
  · exact congrArg wayPath

end DistroSeed
