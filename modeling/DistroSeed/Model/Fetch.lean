import Mathlib.Data.List.DropRight
import Mathlib.Logic.Function.Basic

/-! The download cache `DS_DL` and the scripts that fill it: `fetch_blob.sh`, `fetch_tar.sh` and
`fetch_git.sh`. -/

namespace DistroSeed

variable {Content Tree : Type}

/-! ## The servers and the programs that the scripts call -/

/-- The content behind each URL, and the tree of each version of a repository. -/
structure Web (Content Tree : Type) where
  file : String → Content
  repo : String → String → Option Tree

/-- What `wget -O` does: it writes the whole file, or it fails or is killed and leaves what it has
written, if it has created the file by then. -/
inductive Wget (Content : Type) where
  | completes
  | fails (left : Option Content)
deriving DecidableEq, Repr

/-- `sha256sum` with a file's content, and `sha256sum -c` with a sum for it. -/
structure Sha256 (Content : Type) where
  digest : Content → String
  accepts : String → Content → Bool
  accepts_digest : ∀ content, accepts (digest content) content

/-- The programs of `fetch_tar.sh`. `line` is what `sha256sum` writes for a file of `DS_DL/tar`,
`check` is `sha256sum -c` on any file of it, and `unpack` is `tar -xf`. -/
structure TarTools (Content Tree : Type) extends Sha256 Content where
  line : String → String → Content
  check : (String → Option Content) → Content → Bool
  check_line : ∀ files sum name, check files (line sum name) = (files name).any (accepts sum)
  unpack : Content → Option Tree
  unpack_line : ∀ sum name, unpack (line sum name) = none

/-! ## The cache -/

/-- A clone in `DS_DL/git`: where it comes from and the versions that it has. -/
structure Clone (Tree : Type) where
  origin : String
  known : String → Option Tree

/-- `DS_DL/blob`, `DS_DL/tar` and `DS_DL/git`. -/
structure Downloads (Content Tree : Type) where
  blob : String → Option Content
  tar : String → Option Content
  git : String → Option (Clone Tree)

namespace Downloads

def empty : Downloads Content Tree where
  blob := fun _ => none
  tar := fun _ => none
  git := fun _ => none

def setBlob (dl : Downloads Content Tree) (name : String) (content : Content) :
    Downloads Content Tree :=
  { dl with blob := Function.update dl.blob name (some content) }

def setTar (dl : Downloads Content Tree) (name : String) (content : Content) :
    Downloads Content Tree :=
  { dl with tar := Function.update dl.tar name (some content) }

def setGit (dl : Downloads Content Tree) (name : String) (clone : Clone Tree) :
    Downloads Content Tree :=
  { dl with git := Function.update dl.git name (some clone) }

end Downloads

/-- `$(basename "$url")`. -/
def fileName (url : String) : String :=
  let path := url.toList.rdropWhile (· = '/')
  let name := if path.isEmpty then url.toList.take 1 else path.rtakeWhile (· ≠ '/')
  String.ofList (name.rdropWhile (· = '\n'))

/-- `prj_name` of `fetch_git.sh`, in a UTF-8 locale. -/
def projectName (url : String) : String :=
  let name := url.toList.map fun c => if c.isAlphanum || c = '\n' then c else '-'
  String.ofList (name.rdropWhile (· = '\n'))

/-! ## The scripts

Each leaves a cache behind and, if it exits 0, has delivered something. -/

/-- The second half of `fetch_blob.sh`, from where the file is there. -/
def deliverBlob (sums : Sha256 Content) (sha256sum : String) (file : Content) : Option Content :=
  if sha256sum = "" then some file
  else if sums.accepts sha256sum file then some file
  else none

/-- `fetch_blob.sh`. -/
def fetchBlob (sums : Sha256 Content) (web : Web Content Tree) (wget : Wget Content)
    (url sha256sum : String) (dl : Downloads Content Tree) :
    Downloads Content Tree × Option Content :=
  match dl.blob (fileName url) with
  | some file => (dl, deliverBlob sums sha256sum file)
  | none =>
      match wget with
      | .completes =>
          (dl.setBlob (fileName url) (web.file url), deliverBlob sums sha256sum (web.file url))
      | .fails (some left) => (dl.setBlob (fileName url) left, none)
      | .fails none => (dl, none)

/-- The cached file of `fetch_tar.sh`, if the checksum file next to it accepts it. -/
def cachedTar (tools : TarTools Content Tree) (dl : Downloads Content Tree) (name : String) :
    Option Content :=
  match dl.tar name, dl.tar (name ++ ".sha256") with
  | some file, some sums => if tools.check dl.tar sums then some file else none
  | _, _ => none

/-- `fetch_tar.sh`. -/
def fetchTar (tools : TarTools Content Tree) (web : Web Content Tree) (wget : Wget Content)
    (url : String) (dl : Downloads Content Tree) : Downloads Content Tree × Option Tree :=
  let name := fileName url
  match cachedTar tools dl name with
  | some file => (dl, tools.unpack file)
  | none =>
      match wget with
      | .completes =>
          let file := web.file url
          ((dl.setTar name file).setTar (name ++ ".sha256") (tools.line (tools.digest file) name),
            tools.unpack file)
      | .fails (some left) => (dl.setTar name left, none)
      | .fails none => (dl, none)

/-- `fetch_git.sh`: a clone is asked first, then its origin. -/
def fetchGit (web : Web Content Tree) (url version : String) (dl : Downloads Content Tree) :
    Downloads Content Tree × Option Tree :=
  let name := projectName url
  match dl.git name with
  | some clone =>
      match clone.known version with
      | some tree => (dl, some tree)
      | none =>
          let clone := { clone with known := web.repo clone.origin }
          (dl.setGit name clone, clone.known version)
  | none =>
      let clone : Clone Tree := { origin := url, known := web.repo url }
      (dl.setGit name clone, clone.known version)

/-! ## Calls -/

/-- A call of one of the scripts; without a checksum, `sha256sum` is empty. -/
inductive FetchCall where
  | blob (url sha256sum : String)
  | tar (url : String)
  | git (url version : String)
deriving DecidableEq, Repr

/-- What a script has put where it was told to: a file, or the files of a tree. -/
inductive Delivered (Content Tree : Type) where
  | file (content : Content)
  | tree (tree : Tree)
deriving DecidableEq, Repr

/-- A call whose download, if it needs one, completes. -/
def FetchCall.run (tools : TarTools Content Tree) (web : Web Content Tree) (call : FetchCall)
    (dl : Downloads Content Tree) : Downloads Content Tree × Option (Delivered Content Tree) :=
  match call with
  | .blob url sha256sum =>
      let result := fetchBlob tools.toSha256 web .completes url sha256sum dl
      (result.1, result.2.map .file)
  | .tar url =>
      let result := fetchTar tools web .completes url dl
      (result.1, result.2.map .tree)
  | .git url version =>
      let result := fetchGit web url version dl
      (result.1, result.2.map .tree)

/-- The cache after some calls, one after another, that find it empty. -/
def FetchCall.runAll (tools : TarTools Content Tree) (web : Web Content Tree)
    (calls : List FetchCall) : Downloads Content Tree :=
  calls.foldl (fun dl call => (call.run tools web dl).1) .empty

end DistroSeed
