import DistroSeed.Model.CrossRoot

/-! What `setup-cross.sh` puts into the cross root, command by command. The commands themselves, the
mounts and the stamps are those of the cross root. -/

namespace DistroSeed

open Scripts

/-- What the `cross-setup.sh` of a distro sets; `sources` are the files of `write_cross_sources`. -/
structure DistroCrossSetup where
  mirror : String
  components : String
  keyring : String
  sources : List (String × String)
deriving DecidableEq, Repr

/-- The variables that `setup-cross.sh` insists on. -/
def DistroCrossSetup.isSet (distro : DistroCrossSetup) : Bool :=
  distro.mirror ≠ "" && distro.components ≠ "" && distro.keyring ≠ ""

/-- What `setup_cross_tools` sets. -/
structure CrossTools where
  packages : List String
  triplet : String
  arch : String
deriving DecidableEq, Repr

def setupCrossTools (targetArch : String) : Option CrossTools :=
  if targetArch = "armhf" then
    some ⟨["gcc-arm-linux-gnueabihf", "g++-arm-linux-gnueabihf", "libc6-dev:armhf"],
      "arm-linux-gnueabihf", "arm"⟩
  else if targetArch = "armel" then
    some ⟨["gcc-arm-linux-gnueabi", "g++-arm-linux-gnueabi", "libc6-dev:armel"],
      "arm-linux-gnueabi", "arm"⟩
  else if targetArch = "arm64" then
    some ⟨["gcc-aarch64-linux-gnu", "g++-aarch64-linux-gnu", "libc6-dev:arm64"],
      "aarch64-linux-gnu", "arm64"⟩
  else none

/-- `PKGS` of `collect_packages`. -/
def crossBasePackages : List String := ["apt", "ca-certificates", "gnupg", "locales", "build-essential",
  "autogen", "automake", "bash", "bc", "bison", "bzip2", "cmake", "curl", "fakeroot", "file", "flex",
  "git", "gzip", "kmod", "libconfuse-dev", "libncursesw5-dev", "libssl-dev", "libtool", "lz4", "lzop",
  "make", "meson", "mmdebstrap", "ncurses-dev", "pkg-config", "rsync", "runit", "strace",
  "u-boot-tools", "vim", "wget", "xz-utils", "zstd"]

/-- `distro-seed-cross-env`. -/
def crossEnvText (tools : CrossTools) : String :=
  "export CROSS_COMPILE=" ++ tools.triplet ++ "-\n" ++
  "export ARCH=" ++ tools.arch ++ "\n" ++
  "export AUTOTOOLS_HOST=" ++ tools.triplet ++ "\n" ++
  "export PKG_CONFIG=" ++ tools.triplet ++ "-pkg-config\n" ++
  "export PKG_CONFIG_PATH=/usr/lib/" ++ tools.triplet ++ "/pkgconfig:/usr/share/pkgconfig\n" ++
  "export PKG_CONFIG_LIBDIR=/usr/lib/" ++ tools.triplet ++ "/pkgconfig\n" ++
  "export PKG_CONFIG_SYSROOT_DIR=/\n" ++
  "export MESON_CROSS=/meson.cross\n" ++
  "export CMAKE_CROSS=/cross.cmake\n"

/-- `meson.cross`. -/
def mesonCrossText (tools : CrossTools) : String :=
  "[binaries]\n" ++
  "c = '" ++ tools.triplet ++ "-gcc'\n" ++
  "cpp = '" ++ tools.triplet ++ "-g++'\n" ++
  "ar = '" ++ tools.triplet ++ "-ar'\n" ++
  "strip = '" ++ tools.triplet ++ "-strip'\n" ++
  "pkgconfig = '" ++ tools.triplet ++ "-pkg-config'\n"

/-- `cross.cmake`. -/
def crossCmakeText (tools : CrossTools) : String :=
  "set(CMAKE_SYSTEM_NAME Linux)\n" ++
  "set(CMAKE_C_COMPILER " ++ tools.triplet ++ "-gcc)\n" ++
  "set(CMAKE_CXX_COMPILER " ++ tools.triplet ++ "-g++)\n" ++
  "set(CMAKE_FIND_ROOT_PATH_MODE_PROGRAM NEVER)\n" ++
  "set(CMAKE_FIND_ROOT_PATH_MODE_LIBRARY ONLY)\n" ++
  "set(CMAKE_FIND_ROOT_PATH_MODE_INCLUDE ONLY)\n" ++
  "set(PKG_CONFIG_EXECUTABLE " ++ tools.triplet ++ "-pkg-config)\n"

/-- The cross root, as far as `setup-cross.sh` makes it; what the commands of cross tasks write
there is left out. -/
structure CrossFiles where
  base : Option (String × DistroCrossSetup) := none
  installed : List String := []
  foreignArchs : List String := []
  sources : List (String × String) := []
  pkgConfig : Option String := none
  crossEnv : Option String := none
  mesonCross : Option String := none
  crossCmake : Option String := none
deriving DecidableEq, Repr

/-- The cross root with its files, the variables of the current script and the words of the files
in `/work/packagelist-cross`. `partlyRemoved` records that `rm -rf "$CROSS_ROOT"` was cut short in
a root with a stamp, and that the root was not removed since. -/
structure CrossSetup (Content : Type*) extends CrossRoot Content where
  env : CrossEnv
  packagelist : List String
  files : CrossFiles
  partlyRemoved : Bool

namespace CrossSetup

open CrossCommand

variable {Content : Type*} (distros : CrossEnv → Option DistroCrossSetup)

/-- What the command leaves in the cross root, for the distro and the tools of the script. -/
def written (distro : DistroCrossSetup) (tools : CrossTools) (env : CrossEnv)
    (packagelist : List String) (name : String) (files : CrossFiles) : CrossFiles :=
  if name = "mmdebstrap" then
    { files with base := some (env.release, distro), installed := crossBasePackages }
  else if name = "dpkg" then
    { files with foreignArchs := files.foreignArchs ++ [env.targetArch] }
  else if name = "write_cross_sources" then { files with sources := distro.sources }
  else if name = "apt-get" then
    { files with installed := files.installed ++ (packagelist ++ tools.packages) }
  else if name = "ln" then { files with pkgConfig := some (tools.triplet ++ "-pkg-config") }
  else if name = "cat" then
    { files with crossEnv := some (crossEnvText tools), mesonCross := some (mesonCrossText tools),
                 crossCmake := some (crossCmakeText tools) }
  else files

/-- The commands that write to the cross root. -/
def writers : List String := ["mmdebstrap", "dpkg", "write_cross_sources", "apt-get", "ln", "cat"]

/-- What a command does besides its effect on mounts, stamps and shared directories. -/
def effectOf (s : CrossSetup Content) : CrossCommand → Option (CrossSetup Content)
  | setupCross env => some { s with env := env }
  | removeRoot => some { s with files := {}, partlyRemoved := false }
  | other name =>
      if name = "load_distro_cross_setup" then if (distros s.env).isSome then some s else none
      else if name = "setup_cross_tools" then
        if (setupCrossTools s.env.targetArch).isSome then some s else none
      else if name = "declare" then if (distros s.env).any (·.isSet) then some s else none
      else if name ∈ writers then
        match distros s.env, setupCrossTools s.env.targetArch with
        | some distro, some tools =>
            some { s with files := written distro tools s.env s.packagelist name s.files }
        | _, _ => none
      else some s
  | _ => some s

/-- A command that fails may have written anything to a cross root that it writes to, and an
`rm -rf` that is cut short leaves some of the files and stamps. -/
def language (effect : String → (SharedDir → Directory Content) → SharedDir → Directory Content) :
    Language (CrossSetup Content) CrossCommand where
  run cmd s := do
    let (root, calls) ← (CrossRoot.language effect).run cmd s.toCrossRoot
    let s' ← s.effectOf distros cmd
    some ({ s' with toCrossRoot := root }, calls)
  Fails cmd s s' :=
    (CrossRoot.language effect).Fails cmd s.toCrossRoot s'.toCrossRoot ∧
      match cmd with
      | removeRoot => s'.partlyRemoved = (s.partlyRemoved || s.stamps ≠ ∅)
      | other name => s'.partlyRemoved = s.partlyRemoved ∧ (name ∉ writers → s'.files = s.files)
      | _ => True

/-- The scripts for the variables in `envs`, each cut short anywhere; between them the shared
directories and the package lists change in any way. -/
def scenario (effect : String → (SharedDir → Directory Content) → SharedDir → Directory Content)
    (envs : Set CrossEnv) : Scenario (CrossSetup Content) CrossCommand where
  lang := language distros effect
  Start script _ := ∃ invocation : CrossRoot.Invocation, script = invocation.script ∧
    invocation.env ∈ envs
  Change s s' := s'.mounts = s.mounts ∧ s'.stamps = s.stamps ∧ s'.files = s.files ∧
    s'.partlyRemoved = s.partlyRemoved
  MayRun _ _ := True
  MayStop _ _ := True

/-! ## A root that was set up -/

def completeFiles (distro : DistroCrossSetup) (tools : CrossTools) (env : CrossEnv)
    (packagelist : List String) : CrossFiles where
  base := some (env.release, distro)
  installed := crossBasePackages ++ (packagelist ++ tools.packages)
  foreignArchs := [env.targetArch]
  sources := distro.sources
  pkgConfig := some (tools.triplet ++ "-pkg-config")
  crossEnv := some (crossEnvText tools)
  mesonCross := some (mesonCrossText tools)
  crossCmake := some (crossCmakeText tools)

/-- The cross root has all that one run of the script for `env` makes, and nothing else. -/
def SetUpFor (env : CrossEnv) (files : CrossFiles) : Prop :=
  ∃ distro tools packagelist, distros env = some distro ∧
    setupCrossTools env.targetArch = some tools ∧
    files = completeFiles distro tools env packagelist

end CrossSetup

end DistroSeed
