import DistroSeed.Library.Dict
import DistroSeed.Library.ShellQuote
import DistroSeed.Model.LocalPackages

/-! The directories of `work/package-inputs` with the text of `metadata.env`, as the two ways of
staging write it and `build-packages.sh` reads it. -/

namespace DistroSeed

open ShellWords

variable {Content Archive : Type}

/-- A task whose versions can be the values of environment variables. -/
structure VersionedTask extends Task where
  null_notMem_manifestVersion : '\x00' ∉ manifestVersion.toList
  null_notMem_pkgVersion : '\x00' ∉ pkgVersion.toList

/-- A directory of `work/package-inputs`: the bytes of `metadata.env`, `data.tar` and
`debian.tar`. -/
structure PackageInputDir (Archive : Type) where
  name : String
  metadata : List Char
  data : Option Archive
  debian : Option Archive

/-- The lines of `metadata.env`. -/
def metadataEnv (quote : List Char → List Char) (manifestVersion pkgVersion : List Char) :
    List Char :=
  ["DS_MANIFEST_VERSION".toList ++ '=' :: quote manifestVersion,
    "DS_PKG_VERSION".toList ++ '=' :: quote pkgVersion].flatMap (· ++ ['\n'])

/-- `_write_package_metadata`. -/
def writePackageMetadata (task : Task) : List Char :=
  ByteText.encode (metadataEnv shlexQuote task.manifestVersion.toList task.pkgVersion.toList)

/-- `_stage_host_package_input`. -/
def stageHostInputDir (tar : Tar Content Archive) (task : Task) (output : TaskOutput Content) :
    Option (PackageInputDir Archive) :=
  if !output.overlay.hasEntries && !output.debian.hasEntries then none
  else some {
    name := task.packageInputName
    metadata := writePackageMetadata task
    data := if output.overlay.hasEntries then some (tar.create output.overlay) else none
    debian := if output.debian.hasEntries then some (tar.create output.debian) else none }

/-- `stage-package-input.sh`, in the environment of the task. -/
def stageInputDir (tar : Tar Content Archive) (locale : ShellLocale) (task : Task)
    (output : TaskOutput Content) : Option (PackageInputDir Archive) :=
  if !output.overlay.hasEntries then none
  else some {
    name := task.packageInputName
    metadata := metadataEnv (printfQ locale) (ByteText.encode task.manifestVersion.toList)
      (ByteText.encode task.pkgVersion.toList)
    data := some (tar.create output.overlay)
    debian := if output.debian.hasEntries then some (tar.create output.debian) else none }

/-- The variables of a shell, as bytes. -/
abbrev ShellVars := Dict (List Char) (List Char)

/-- `${NAME:-}`, as text. -/
def ShellVars.text? (vars : ShellVars) (name : String) : Option String :=
  ByteText.decode? ((vars.lookup name.toList).getD [])

/-- `source`, of a text that sets variables and runs nothing else; other texts are left open. -/
def ShellVars.source (vars : ShellVars) (text : List Char) : Option ShellVars :=
  (settings text).map (Dict.update vars)

/-- What `build_package` finds in a directory, with the versions it has once `metadata.env` is
sourced. -/
def PackageInputDir.load (vars : ShellVars) (dir : PackageInputDir Archive) :
    Option (PackageInput Archive) := do
  let vars ← vars.source dir.metadata
  let manifestVersion ← vars.text? "DS_MANIFEST_VERSION"
  let pkgVersion ← vars.text? "DS_PKG_VERSION"
  pure {
    name := dir.name
    manifestVersion := manifestVersion
    pkgVersion := pkgVersion
    data := dir.data
    debian := dir.debian }

/-- What the loop of `build-packages.sh` does about a task: without a directory, nothing. -/
def buildStaged (tar : Tar Content Archive) (tools : PackageTools Content) (targetArch : String)
    (vars : ShellVars) (staged : Option (PackageInputDir Archive)) :
    Option (Outcome PackageError (Option (Deb Content))) :=
  match staged with
  | none => some (.returned none)
  | some dir => (dir.load vars).map (buildPackage tar tools targetArch)

/-- The version string at that point, if there is a directory. -/
def sourcedVersion (vars : ShellVars) (staged : Option (PackageInputDir Archive)) :
    Option (Option String) :=
  staged.map fun dir => (dir.load vars).map (·.pkgVersion)

end DistroSeed
