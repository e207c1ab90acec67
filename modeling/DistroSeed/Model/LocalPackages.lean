import Mathlib.Data.List.DropRight
import DistroSeed.Library.KeySort
import DistroSeed.Library.Outcome
import DistroSeed.Library.PackageStore
import DistroSeed.Model.Files
import DistroSeed.Model.Task

/-! From the overlays of the tasks to packages in the target rootfs: the staging of package
inputs, `build-packages.sh` and `install-packages.sh`. -/

namespace DistroSeed

open KeySort PackageStore

variable {Content Archive : Type}

/-! ## Package inputs -/

/-- What the command of a task leaves in `DS_OVERLAY` and `DS_OVERLAY_PKG_DEBIAN`. -/
structure TaskOutput (Content : Type) where
  overlay : Directory Content
  debian : Directory Content

/-- A directory of `work/package-inputs`: the values of `metadata.env`, `data.tar` and
`debian.tar`. -/
structure PackageInput (Archive : Type) where
  name : String
  manifestVersion : String
  pkgVersion : String
  data : Option Archive
  debian : Option Archive

/-- `_package_input_name`. -/
def Task.packageInputName (task : Task) : String := toString task.id ++ "-" ++ task.config

/-- `_stage_host_package_input`: a directory without entries gives no archive. -/
def stageHostPackageInput (tar : Tar Content Archive) (task : Task) (output : TaskOutput Content) :
    Option (PackageInput Archive) :=
  if !output.overlay.hasEntries && !output.debian.hasEntries then none
  else some {
    name := task.packageInputName
    manifestVersion := task.manifestVersion
    pkgVersion := task.pkgVersion
    data := if output.overlay.hasEntries then some (tar.create output.overlay) else none
    debian := if output.debian.hasEntries then some (tar.create output.debian) else none }

/-- `stage-package-input.sh`: unlike on the host, the overlay alone decides. -/
def stagePackageInput (tar : Tar Content Archive) (task : Task) (output : TaskOutput Content) :
    Option (PackageInput Archive) :=
  if !output.overlay.hasEntries then none
  else some {
    name := task.packageInputName
    manifestVersion := task.manifestVersion
    pkgVersion := task.pkgVersion
    data := some (tar.create output.overlay)
    debian := if output.debian.hasEntries then some (tar.create output.debian) else none }

/-- `Task.run` for the package inputs: the task's own one is removed, then staged again. -/
def Task.runPackaging (tar : Tar Content Archive) (output : Task → TaskOutput Content)
    (inputs : List (PackageInput Archive)) (task : Task) : List (PackageInput Archive) :=
  let others := inputs.filter (·.name ≠ task.packageInputName)
  match task.cmdType with
  | .host => others ++ (stageHostPackageInput tar task (output task)).toList
  | .vm | .cross => others ++ (stagePackageInput tar task (output task)).toList
  | .target | .dummy | .packagelist | .packagelistCross => inputs

/-- The package inputs after a run of tasks that starts with an empty work directory. -/
def packageInputs (tar : Tar Content Archive) (output : Task → TaskOutput Content)
    (tasks : List Task) : List (PackageInput Archive) :=
  tasks.foldl (Task.runPackaging tar output) []

/-! ## Names and versions -/

/-- `package_sort_key`: the number in front of the first dash; ids have no leading zeros. -/
def packageSortKey (name : String) : ℕ :=
  match name.toList.takeWhile Char.isDigit, name.toList.dropWhile Char.isDigit with
  | digit :: digits, '-' :: _ => Nat.ofDigitChars 10 (digit :: digits) 0
  | _, _ => 9999999999

/-- The first `sed` of `package_name`: a leading number goes, with its dash. -/
def stripNumber (name : List Char) : List Char :=
  match name.takeWhile Char.isDigit, name.dropWhile Char.isDigit with
  | _ :: _, '-' :: rest => rest
  | _, _ => name

/-- What `sed` does to runs of the characters of a class: a dash for each. -/
def replaceRuns (isClass : Char → Bool) : Bool → List Char → List Char
  | _, [] => []
  | inRun, c :: rest =>
      if isClass c then
        if inRun then replaceRuns isClass true rest else '-' :: replaceRuns isClass true rest
      else c :: replaceRuns isClass false rest

/-- `tr '[:upper:]_' '[:lower:]-'`, then what `sed` does to the characters that a package name
must not have, to dashes at the ends and to runs of dashes. -/
def cleanName (name : List Char) : List Char :=
  let name := name.map fun c => if c = '_' then '-' else c.toLower
  let name := replaceRuns (fun c => !(c.isLower || c.isDigit || c ∈ ['.', '+', '-'])) false name
  let name := (name.dropWhile (· = '-')).rdropWhile (· = '-')
  replaceRuns (· = '-') false name

/-- `package_name`. -/
def packageName (inputName : String) : String :=
  "distro-seed-" ++ String.ofList (cleanName (stripNumber inputName.toList))

/-- `[:space:]`. -/
def isSpace (c : Char) : Bool := c.toNat = 32 || (9 ≤ c.toNat && c.toNat ≤ 13)

/-- `package_version`: the first line, without blanks around it and a `v` before the number. -/
def packageVersion (raw : String) : String :=
  let line := raw.toList.takeWhile fun c => c ≠ '\r' && c ≠ '\n'
  match (line.dropWhile isSpace).rdropWhile isSpace with
  | v :: digit :: rest =>
      if v.toLower = 'v' && digit.isDigit then String.ofList (digit :: rest)
      else String.ofList (v :: digit :: rest)
  | short => String.ofList short

def placeholderVersion : String := "0.0.1~distroseed1"

/-! ## Packages -/

structure Control where
  package : String
  version : String
  architecture : String
  maintainer : String
  sectionName : String
  priority : String
  description : List String
deriving DecidableEq, Repr

/-- The control file of `build_package`. -/
def generatedControl (name version targetArch inputName : String) : Control where
  package := name
  version := version
  architecture := targetArch
  maintainer := "distro-seed <distro-seed@example.invalid>"
  sectionName := "misc"
  priority := "optional"
  description := ["distro-seed generated package for " ++ inputName,
    "Generated from distro-seed task " ++ inputName ++ "."]

/-- A binary package: its control file, the other members of its control archive, and the
files that it installs. -/
structure Deb (Content : Type) where
  fileName : String
  control : Control
  info : Path → Option Content
  file : Path → Option Content

/-- The package as the store of installed packages knows it. -/
def Deb.package (deb : Deb Content) : Package String Path Content := ⟨deb.control.package, deb.file⟩

/-- The target rootfs: its files, dpkg's own database apart, and the installed packages. -/
abbrev Rootfs (Content : Type) := Store String Path Content

/-- The files that `depmod` writes for a kernel version. -/
def isModuleIndex (path : Path) : Bool :=
  match path with
  | ["lib", "modules", _, name] | ["usr", "lib", "modules", _, name] =>
      name ∈ ["modules.dep", "modules.dep.bin", "modules.alias", "modules.alias.bin",
        "modules.symbols", "modules.symbols.bin", "modules.devname", "modules.softdep",
        "modules.weakdep", "modules.builtin.bin", "modules.builtin.alias.bin"]
  | _ => false

/-- The programs that the two scripts call. `glob` is the order in which the shell lists a
directory; `dpkg -i --force-overwrite` fails or installs the package, its maintainer scripts
aside; `depmod` changes its own files only. -/
structure PackageTools (Content : Type) where
  glob : {α : Type} → List α → List α
  glob_perm : ∀ {α : Type} (entries : List α), (glob entries).Perm entries
  validateVersion : String → Bool
  readControl : Content → Control
  dpkgDeb : Deb Content → Bool
  dpkg : Rootfs Content → Deb Content → Option (Rootfs Content)
  dpkg_eq : ∀ rootfs deb rootfs', dpkg rootfs deb = some rootfs' →
    rootfs' = rootfs.install deb.package
  moduleDirs : Rootfs Content → List String
  depmod : Rootfs Content → String → Rootfs Content
  depmod_file : ∀ rootfs version path, ¬ isModuleIndex path →
    (depmod rootfs version).file path = rootfs.file path

/-- What makes the scripts stop: `build_package`'s own check, or a program that fails. -/
inductive PackageError where
  | error (message : String)
  | dpkgDebFailed (fileName : String)
  | dpkgFailed (fileName : String)
deriving DecidableEq, Repr

/-! ## `build-packages.sh` -/

def maintainerScripts : List String := ["preinst", "postinst", "prerm", "postrm"]

/-- Files below `DEBIAN` in the package root belong to the control archive. -/
def isDebianPath (path : Path) : Bool := ["DEBIAN"].isPrefixOf path

/-- `DS_PKG_VERSION`, or the placeholder with a warning. -/
def PackageInput.version (input : PackageInput Archive) : String :=
  if input.pkgVersion = "" then placeholderVersion else input.pkgVersion

/-- The control file: the task's own one, or one that is generated. -/
def packageControl (tools : PackageTools Content) (targetArch : String)
    (input : PackageInput Archive) (debianroot : Directory Content) :
    Outcome PackageError Control :=
  match debianroot.file ["control"] with
  | some control => .returned (tools.readControl control)
  | none =>
      let name := packageName input.name
      let version := packageVersion input.version
      if tools.validateVersion version then
        .returned (generatedControl name version targetArch input.name)
      else
        .raised (.error ("Error: " ++ name ++ " has invalid generated package version: " ++ version))

/-- What `dpkg-deb --build` makes of the package root. -/
def assembleDeb (inputName : String) (control : Control) (pkgroot debianroot : Directory Content) :
    Deb Content where
  fileName := inputName ++ ".deb"
  control := control
  info path :=
    match path with
    | [script] =>
        if script ∈ maintainerScripts then
          debianroot.file [script] <|> pkgroot.file ["DEBIAN", script]
        else pkgroot.file ["DEBIAN", script]
    | _ => pkgroot.file ("DEBIAN" :: path)
  file path := if isDebianPath path then none else pkgroot.file path

/-- `build_package`; an input without archives gives no package. -/
def buildPackage (tar : Tar Content Archive) (tools : PackageTools Content) (targetArch : String)
    (input : PackageInput Archive) : Outcome PackageError (Option (Deb Content)) :=
  if input.data.isNone && input.debian.isNone then .returned none
  else do
    let pkgroot := (input.data.map tar.extract).getD ∅
    let debianroot := (input.debian.map tar.extract).getD ∅
    let control ← packageControl tools targetArch input debianroot
    let deb := assembleDeb input.name control pkgroot debianroot
    if tools.dpkgDeb deb then .returned (some deb) else .raised (.dpkgDebFailed deb.fileName)

/-- The packages that the loop writes to an empty `work/packages`. -/
def buildPackages (tar : Tar Content Archive) (tools : PackageTools Content) (targetArch : String)
    (listed : List (PackageInput Archive)) : Outcome PackageError (List (Deb Content)) := do
  let debs ← (sortedBy (packageSortKey ·.name) listed).mapM (buildPackage tar tools targetArch)
  pure (debs.filterMap id)

/-! ## `install-packages.sh` -/

/-- Where the packages are put for `dpkg` in the rootfs. -/
def targetPackageDir : Path := ["tmp", "distro-seed-packages"]

/-- `rm -rf`. -/
def removeTree (dir : Path) (rootfs : Rootfs Content) : Rootfs Content :=
  { rootfs with file := fun path => if dir.isPrefixOf path then none else rootfs.file path }

/-- One turn of the loop. -/
def installPackage (tools : PackageTools Content) (rootfs : Rootfs Content) (deb : Deb Content) :
    Outcome PackageError (Rootfs Content) :=
  match tools.dpkg rootfs deb with
  | some rootfs' => .returned rootfs'
  | none => .raised (.dpkgFailed deb.fileName)

/-- The script, from where the rootfs is mounted and qemu's binary is in it. -/
def installPackages (tools : PackageTools Content) (listed : List (Deb Content))
    (rootfs : Rootfs Content) : Outcome PackageError (Rootfs Content) :=
  if listed.isEmpty then .returned rootfs
  else do
    let rootfs ← (sortedBy (packageSortKey ·.fileName) listed).foldlM (installPackage tools)
      (removeTree targetPackageDir rootfs)
    let rootfs := (tools.moduleDirs rootfs).foldl tools.depmod rootfs
    pure (removeTree targetPackageDir rootfs)

/-- The two scripts one after the other. -/
def buildAndInstall (tar : Tar Content Archive) (tools : PackageTools Content) (targetArch : String)
    (inputs : List (PackageInput Archive)) (rootfs : Rootfs Content) :
    Outcome PackageError (Rootfs Content) := do
  let debs ← buildPackages tar tools targetArch (tools.glob inputs)
  installPackages tools (tools.glob debs) rootfs

end DistroSeed
