import Mathlib.Data.Set.Basic
import DistroSeed.Model.Fetch

/-! The sources of what the fetch scripts deliver: a cache is shared by all URLs with one key, so a
call gets what the first of them has left there. -/

namespace DistroSeed

variable {Content Tree : Type} {tools : TarTools Content Tree} {web : Web Content Tree}

/-! ## What one call does -/

@[simp] theorem setBlob_blob (dl : Downloads Content Tree) (name : String) (content : Content) :
    (dl.setBlob name content).blob = Function.update dl.blob name (some content) := rfl

@[simp] theorem setTar_tar (dl : Downloads Content Tree) (name : String) (content : Content) :
    (dl.setTar name content).tar = Function.update dl.tar name (some content) := rfl

@[simp] theorem setGit_git (dl : Downloads Content Tree) (name : String) (clone : Clone Tree) :
    (dl.setGit name clone).git = Function.update dl.git name (some clone) := rfl

theorem deliverBlob_cases (sums : Sha256 Content) (sha256sum : String) (file : Content) :
    (deliverBlob sums sha256sum file = some file ∧ (sha256sum = "" ∨ sums.accepts sha256sum file)) ∨
      (deliverBlob sums sha256sum file = none ∧ sha256sum ≠ "" ∧ ¬ sums.accepts sha256sum file) := by
  unfold deliverBlob
  by_cases hempty : sha256sum = ""
  · exact Or.inl ⟨if_pos hempty, Or.inl hempty⟩
  · rw [if_neg hempty]
    by_cases haccepts : sums.accepts sha256sum file
    · exact Or.inl ⟨if_pos haccepts, Or.inr haccepts⟩
    · exact Or.inr ⟨if_neg haccepts, hempty, haccepts⟩

/-- A file is delivered from the cache, and downloaded only if it is not there. -/
theorem fetchBlob_cases (sums : Sha256 Content) (web : Web Content Tree) (url sha256sum : String)
    (dl : Downloads Content Tree) :
    (∃ file, dl.blob (fileName url) = some file ∧
        fetchBlob sums web .completes url sha256sum dl = (dl, deliverBlob sums sha256sum file)) ∨
      (dl.blob (fileName url) = none ∧ fetchBlob sums web .completes url sha256sum dl =
        (dl.setBlob (fileName url) (web.file url), deliverBlob sums sha256sum (web.file url))) := by
  unfold fetchBlob
  cases hcached : dl.blob (fileName url) with
  | none => exact Or.inr ⟨rfl, rfl⟩
  | some file => exact Or.inl ⟨file, rfl, rfl⟩

theorem cachedTar_eq_some {dl : Downloads Content Tree} {name : String} {file : Content}
    (h : cachedTar tools dl name = some file) : dl.tar name = some file := by
  unfold cachedTar at h
  split at h
  · rename_i cached _ hcached _
    split at h
    · obtain rfl := Option.some.inj h
      exact hcached
    · cases h
  · cases h

/-- An archive is unpacked from the cache if its checksum file accepts it, and else downloaded. -/
theorem fetchTar_cases (tools : TarTools Content Tree) (web : Web Content Tree) (url : String)
    (dl : Downloads Content Tree) :
    (∃ file, cachedTar tools dl (fileName url) = some file ∧
        fetchTar tools web .completes url dl = (dl, tools.unpack file)) ∨
      (cachedTar tools dl (fileName url) = none ∧ fetchTar tools web .completes url dl =
        ((dl.setTar (fileName url) (web.file url)).setTar (fileName url ++ ".sha256")
            (tools.line (tools.digest (web.file url)) (fileName url)),
          tools.unpack (web.file url))) := by
  unfold fetchTar
  cases hcached : cachedTar tools dl (fileName url) with
  | none => exact Or.inr ⟨rfl, by simp only [hcached]⟩
  | some file => exact Or.inl ⟨file, rfl, by simp only [hcached]⟩

/-! ## What the cache holds -/

/-- Every file of the cache is behind the URL of some call with its name, unless it is a checksum
file, and every clone has what is behind such a URL. -/
structure Cached (tools : TarTools Content Tree) (web : Web Content Tree) (calls : Set FetchCall)
    (dl : Downloads Content Tree) : Prop where
  blob : ∀ name file, dl.blob name = some file →
    ∃ url sha256sum, .blob url sha256sum ∈ calls ∧ fileName url = name ∧ web.file url = file
  tar : ∀ name file, dl.tar name = some file →
    (∃ url, .tar url ∈ calls ∧ fileName url = name ∧ web.file url = file) ∨
      ∃ sum other, tools.line sum other = file
  git : ∀ name clone, dl.git name = some clone →
    ∃ url version, .git url version ∈ calls ∧ projectName url = name ∧
      clone = { origin := url, known := web.repo url }

variable {calls : Set FetchCall} {dl : Downloads Content Tree}

theorem cached_empty : Cached tools web calls .empty where
  blob := by simp [Downloads.empty]
  tar := by simp [Downloads.empty]
  git := by simp [Downloads.empty]

theorem Cached.setBlob (h : Cached tools web calls dl) {url sha256sum : String}
    (hcall : .blob url sha256sum ∈ calls) :
    Cached tools web calls (dl.setBlob (fileName url) (web.file url)) := by
  refine ⟨fun name file hfile => ?_, h.tar, h.git⟩
  rw [setBlob_blob, Function.update_apply] at hfile
  split at hfile
  · rename_i hname
    exact ⟨url, sha256sum, hcall, hname.symm, Option.some.inj hfile⟩
  · exact h.blob name file hfile

theorem Cached.setTar (h : Cached tools web calls dl) {name : String} {file : Content}
    (hfile : (∃ url, .tar url ∈ calls ∧ fileName url = name ∧ web.file url = file) ∨
      ∃ sum other, tools.line sum other = file) :
    Cached tools web calls (dl.setTar name file) := by
  refine ⟨h.blob, fun name' file' hfile' => ?_, h.git⟩
  rw [setTar_tar, Function.update_apply] at hfile'
  split at hfile'
  · rename_i hname
    obtain rfl := Option.some.inj hfile'
    rwa [hname]
  · exact h.tar name' file' hfile'

theorem Cached.setGit (h : Cached tools web calls dl) {url version : String}
    (hcall : .git url version ∈ calls) {name : String} (hname : projectName url = name) :
    Cached tools web calls (dl.setGit name { origin := url, known := web.repo url }) := by
  refine ⟨h.blob, h.tar, fun name' clone hclone => ?_⟩
  rw [setGit_git, Function.update_apply] at hclone
  split at hclone
  · rename_i heq
    exact ⟨url, version, hcall, hname.trans heq.symm, (Option.some.inj hclone).symm⟩
  · exact h.git name' clone hclone

/-- A version is looked up in the clone, and asking the origin adds nothing to it. -/
theorem fetchGit_cases (h : Cached tools web calls dl) (url version : String) :
    (∃ first other, .git first other ∈ calls ∧ projectName first = projectName url ∧
        ((fetchGit web url version dl).1 = dl ∨ (fetchGit web url version dl).1 =
          dl.setGit (projectName url) { origin := first, known := web.repo first }) ∧
        (fetchGit web url version dl).2 = web.repo first version) ∨
      (dl.git (projectName url) = none ∧ fetchGit web url version dl =
        (dl.setGit (projectName url) { origin := url, known := web.repo url },
          web.repo url version)) := by
  unfold fetchGit
  cases hcached : dl.git (projectName url) with
  | none => exact Or.inr ⟨rfl, by simp only [hcached]⟩
  | some clone =>
      obtain ⟨first, other, hcall, hname, rfl⟩ := h.git _ clone hcached
      refine Or.inl ⟨first, other, hcall, hname, ?_⟩
      cases hversion : web.repo first version with
      | none => exact ⟨Or.inr (by simp only [hcached, hversion]), by simp only [hcached, hversion]⟩
      | some tree => exact ⟨Or.inl (by simp only [hcached, hversion]), by simp only [hcached, hversion]⟩

theorem Cached.run (h : Cached tools web calls dl) {call : FetchCall} (hcall : call ∈ calls) :
    Cached tools web calls (call.run tools web dl).1 := by
  cases call with
  | blob url sha256sum =>
      rcases fetchBlob_cases tools.toSha256 web url sha256sum dl with ⟨_, _, heq⟩ | ⟨_, heq⟩
      · simpa only [FetchCall.run, heq] using h
      · simpa only [FetchCall.run, heq] using h.setBlob hcall
  | tar url =>
      rcases fetchTar_cases tools web url dl with ⟨_, _, heq⟩ | ⟨_, heq⟩
      · simpa only [FetchCall.run, heq] using h
      · simpa only [FetchCall.run, heq] using
          (h.setTar (Or.inl ⟨url, hcall, rfl, rfl⟩)).setTar (Or.inr ⟨_, _, rfl⟩)
  | git url version =>
      rcases fetchGit_cases h url version with ⟨first, other, hfirst, hname, hdl | hdl, _⟩ | ⟨_, heq⟩
      · simpa only [FetchCall.run, hdl] using h
      · simpa only [FetchCall.run, hdl] using h.setGit hfirst hname
      · simpa only [FetchCall.run, heq] using h.setGit hcall rfl

theorem cached_runAll {history : List FetchCall} (h : ∀ call ∈ history, call ∈ calls) :
    Cached tools web calls (FetchCall.runAll tools web history) := by
  rw [FetchCall.runAll]
  induction history using List.reverseRecOn with
  | nil => exact cached_empty
  | append_singleton history call ih =>
      rw [List.foldl_append]
      exact (ih fun c hc => h c (by simp [hc])).run (h call (by simp))

/-! ## The sources of what is delivered -/

/-- What a call is to deliver: the file, the archive's tree or the version behind its own URL. -/
def FetchCall.own (tools : TarTools Content Tree) (web : Web Content Tree) :
    FetchCall → Option (Delivered Content Tree)
  | .blob url _ => some (.file (web.file url))
  | .tar url => (tools.unpack (web.file url)).map .tree
  | .git url version => (web.repo url version).map .tree

/-- The later call can tell the first one's download from its own, or they are the same: where the
cache has one name for both URLs, the contents are equal or the checksum rejects the first one's,
the archives have equal trees or the first one is none, and the first repository has the same tree
for the version or no such version. -/
def Compatible (tools : TarTools Content Tree) (web : Web Content Tree) :
    FetchCall → FetchCall → Prop
  | .blob first _, .blob url sha256sum => fileName first = fileName url →
      web.file first = web.file url ∨
        (sha256sum ≠ "" ∧ ¬ tools.accepts sha256sum (web.file first))
  | .tar first, .tar url => fileName first = fileName url →
      ∀ tree, tools.unpack (web.file first) = some tree → tools.unpack (web.file url) = some tree
  | .git first _, .git url version => projectName first = projectName url →
      ∀ tree, web.repo first version = some tree → web.repo url version = some tree
  | _, _ => True

/-- A call that finds the downloads of compatible calls delivers its own content. -/
theorem Cached.delivers_own (h : Cached tools web calls dl) {call : FetchCall}
    (hcompatible : ∀ first ∈ calls, Compatible tools web first call)
    {delivered : Delivered Content Tree} (hrun : (call.run tools web dl).2 = some delivered) :
    call.own tools web = some delivered := by
  cases call with
  | blob url sha256sum =>
      rcases fetchBlob_cases tools.toSha256 web url sha256sum dl with ⟨file, hfile, heq⟩ | ⟨_, heq⟩
      · obtain ⟨first, other, hfirst, hname, rfl⟩ := h.blob _ file hfile
        simp only [FetchCall.run, heq] at hrun
        rcases deliverBlob_cases tools.toSha256 sha256sum (web.file first) with
          ⟨hdeliver, haccepted⟩ | ⟨hdeliver, _⟩
        · rw [hdeliver] at hrun
          obtain rfl := Option.some.inj hrun
          rcases hcompatible _ hfirst hname with hsame | ⟨hne, hrejected⟩
          · rw [FetchCall.own, hsame]
          · exact absurd haccepted (not_or.mpr ⟨hne, hrejected⟩)
        · simp [hdeliver] at hrun
      · simp only [FetchCall.run, heq] at hrun
        rcases deliverBlob_cases tools.toSha256 sha256sum (web.file url) with
          ⟨hdeliver, _⟩ | ⟨hdeliver, _⟩
        · rw [hdeliver] at hrun
          exact hrun
        · simp [hdeliver] at hrun
  | tar url =>
      rcases fetchTar_cases tools web url dl with ⟨file, hfile, heq⟩ | ⟨_, heq⟩
      · simp only [FetchCall.run, heq, Option.map_eq_some_iff] at hrun
        obtain ⟨tree, htree, rfl⟩ := hrun
        rcases h.tar _ file (cachedTar_eq_some hfile) with ⟨first, hfirst, hname, rfl⟩ |
          ⟨sum, other, rfl⟩
        · rw [FetchCall.own, hcompatible _ hfirst hname tree htree, Option.map_some]
        · rw [tools.unpack_line] at htree
          cases htree
      · simp only [FetchCall.run, heq] at hrun
        exact hrun
  | git url version =>
      rcases fetchGit_cases h url version with ⟨first, other, hfirst, hname, _, htree⟩ | ⟨_, heq⟩
      · simp only [FetchCall.run, htree, Option.map_eq_some_iff] at hrun
        obtain ⟨tree, htree, rfl⟩ := hrun
        rw [FetchCall.own, hcompatible _ hfirst hname tree htree, Option.map_some]
      · simp only [FetchCall.run, heq] at hrun
        exact hrun

/-! ### Two calls -/

theorem cachedTar_after_download (tools : TarTools Content Tree) (dl : Downloads Content Tree)
    (name : String) (file : Content) :
    cachedTar tools ((dl.setTar name file).setTar (name ++ ".sha256")
      (tools.line (tools.digest file) name)) name = some file := by
  have hne : name ≠ name ++ ".sha256" := by
    intro heq
    have := congrArg String.length heq
    simp [String.length_append] at this
  simp [cachedTar, Function.update_of_ne hne, tools.check_line, tools.accepts_digest]

/-- One call is enough to fill the cache for a later one that is not compatible with it. -/
theorem compatible_of_delivers_own {first later : FetchCall}
    (h : ∀ delivered, (later.run tools web (FetchCall.runAll tools web [first])).2 =
      some delivered → later.own tools web = some delivered) : Compatible tools web first later := by
  cases first with
  | blob first other =>
      cases later with
      | blob url sha256sum =>
          intro hname
          have hfirst : (FetchCall.runAll tools web [.blob first other]).blob (fileName url) =
              some (web.file first) := by
            simp [FetchCall.runAll, FetchCall.run, fetchBlob, Downloads.empty, hname]
          simp only [FetchCall.run, fetchBlob, hfirst] at h
          rcases deliverBlob_cases tools.toSha256 sha256sum (web.file first) with
            ⟨hdeliver, _⟩ | ⟨_, hrejected⟩
          · have hown := h (.file (web.file first)) (by rw [hdeliver]; rfl)
            simp only [FetchCall.own, Option.some.injEq, Delivered.file.injEq] at hown
            exact Or.inl hown.symm
          · exact Or.inr hrejected
      | tar url => trivial
      | git url version => trivial
  | tar first =>
      cases later with
      | tar url =>
          intro hname tree htree
          have hfirst : cachedTar tools (FetchCall.runAll tools web [.tar first]) (fileName url) =
              some (web.file first) := by
            have hempty : cachedTar tools .empty (fileName first) = none := by
              simp [cachedTar, Downloads.empty]
            simp only [FetchCall.runAll, List.foldl_cons, List.foldl_nil, FetchCall.run, fetchTar,
              hempty, ← hname]
            exact cachedTar_after_download tools _ _ _
          simp only [FetchCall.run, fetchTar, hfirst] at h
          have hown := h (.tree tree) (by rw [htree]; rfl)
          simpa [FetchCall.own] using hown
      | blob url sha256sum => trivial
      | git url version => trivial
  | git first other =>
      cases later with
      | git url version =>
          intro hname tree htree
          have hfirst : (FetchCall.runAll tools web [.git first other]).git (projectName url) =
              some { origin := first, known := web.repo first } := by
            simp [FetchCall.runAll, FetchCall.run, fetchGit, Downloads.empty, hname]
          simp only [FetchCall.run, fetchGit, hfirst, htree] at h
          have hown := h (.tree tree) rfl
          simpa [FetchCall.own] using hown
      | blob url sha256sum => trivial
      | tar url => trivial

/-- Whatever calls of a collection were made before, each delivers its own content if it delivers
anything, exactly if any two calls of the collection are compatible. -/
theorem fetch_delivers_own_iff (tools : TarTools Content Tree) (web : Web Content Tree)
    (calls : Set FetchCall) :
    (∀ history : List FetchCall, (∀ call ∈ history, call ∈ calls) → ∀ call ∈ calls, ∀ delivered,
        (call.run tools web (FetchCall.runAll tools web history)).2 = some delivered →
          call.own tools web = some delivered) ↔
      ∀ first ∈ calls, ∀ later ∈ calls, Compatible tools web first later := by
  constructor
  · intro h first hfirst later hlater
    exact compatible_of_delivers_own (h [first] (by simpa using hfirst) later hlater)
  · intro h history hhistory call hcall delivered hrun
    exact (cached_runAll hhistory).delivers_own (fun first hfirst => h first hfirst call hcall) hrun

/-! ## Two configuration headers of one name -/

/-- Files with a text, and checksum files; the text is its own sum. -/
def copyTools : TarTools (String ⊕ String × String) String where
  digest content := content.elim id Prod.fst
  accepts sum content := content.elim id Prod.fst = sum
  accepts_digest content := by simp
  line sum name := .inr (sum, name)
  check files content :=
    match content with
    | .inl _ => false
    | .inr (sum, name) => (files name).any fun content => content.elim id Prod.fst = sum
  check_line files sum name := rfl
  unpack content := content.getLeft?
  unpack_line sum name := rfl

/-- Every file has its own URL for a text. -/
def echoWeb : Web (String ⊕ String × String) String where
  file url := .inl url
  repo _ _ := none

/-- The second header is delivered with the content of the first one. -/
theorem fetch_delivers_other :
    ∃ history call delivered, (FetchCall.run copyTools echoWeb call
        (FetchCall.runAll copyTools echoWeb history)).2 = some delivered ∧
      call.own copyTools echoWeb ≠ some delivered := by
  refine ⟨[.blob "https://a.example/lvgl/lv_conf.h" ""], .blob "https://b.example/demo/lv_conf.h" "",
    .file (.inl "https://a.example/lvgl/lv_conf.h"), by decide +kernel, by decide +kernel⟩

end DistroSeed
