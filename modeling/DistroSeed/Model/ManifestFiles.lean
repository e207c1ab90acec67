import DistroSeed.Library.Yaml
import DistroSeed.Model.Build
import DistroSeed.Model.Environment

/-! `manifest.yaml` as it is parsed, whatever it contains: what `lint_manifest` says about it, what
`load_tasks_from_manifest` makes of it, and the loop of `build.py` over the tasks. -/

namespace DistroSeed.Parsed

open Yaml

/-- A mapping. -/
abbrev Entries := List (Value × Value)

/-- The path of the manifest in a task directory. -/
def manifestPath (taskDir : String) : String := taskDir ++ "/manifest.yaml"

def cmdTypeNames : List (String × CmdType) := [("host", .host), ("vm", .vm), ("cross", .cross),
  ("target", .target), ("dummy", .dummy), ("packagelist", .packagelist),
  ("packagelist-cross", .packagelistCross)]

/-- `VALID_CMD_TYPES`. -/
def validCmdTypes : List String := cmdTypeNames.map Prod.fst

/-- One component in the loop of `os.path.normpath`. -/
def normStep (absolute : Bool) (comps : List (List Char)) (comp : List Char) : List (List Char) :=
  if comp = [] || comp = ['.'] then comps
  else if comp ≠ ['.', '.'] || (!absolute && comps.isEmpty) || comps.getLast? = some ['.', '.'] then
    comps ++ [comp]
  else comps.dropLast

/-- `os.path.normpath`; exactly two slashes in front stay two. -/
def osNormpath (path : String) : String :=
  let slashes :=
    if ['/', '/', '/'].isPrefixOf path.toList then 1
    else if ['/', '/'].isPrefixOf path.toList then 2
    else if ['/'].isPrefixOf path.toList then 1
    else 0
  let comps := (path.toList.splitOn '/').foldl (normStep (slashes ≠ 0)) []
  let norm := List.replicate slashes '/' ++ ['/'].intercalate comps
  if norm = [] then "." else String.ofList norm

/-! ## `lint-tasks.py` -/

/-- The files around a manifest, and the symbols of all `Kconfig` files. -/
structure LintContext where
  isDir : String → Bool
  pathExists : String → Bool
  ownerExecutes : String → Bool
  readScript : String → Option (List Char)
  kconfigSymbols : List String

/-- `is_executable`. -/
def LintContext.isExecutable (ctx : LintContext) (path : String) : Bool :=
  ctx.pathExists path && ctx.ownerExecutes path

inductive LintError where
  | overlayDirMissing (baseDir : String)
  | overlayManifestMissing (baseDir : String)
  | notMapping
  | missingConfig
  | undefinedConfig (config : Value)
  | tasksNotList
  | taskNotMapping (idx : ℕ)
  | invalidCmdType (idx : ℕ) (cmdType : Value)
  | missingCmd (idx : ℕ)
  | cmdDoesNotExist (idx : ℕ) (cmd : String)
  | cmdNotExecutable (idx : ℕ) (cmd : String)
  | relativeHelper (idx : ℕ) (cmd : String)
  | dependenciesNotList (idx : ℕ)

/-- The text of an error; Python's `str` and `repr` are parameters. -/
def LintError.message (str repr : Value → String) (path : String) : LintError → String
  | overlayDirMissing baseDir => path ++ ": overlay base directory " ++ baseDir ++ " does not exist"
  | overlayManifestMissing baseDir =>
      path ++ ": overlay base manifest " ++ baseDir ++ "/manifest.yaml does not exist"
  | notMapping => path ++ ": manifest must be a mapping"
  | missingConfig => path ++ ": missing config"
  | undefinedConfig config => path ++ ": config " ++ str config ++ " is not defined by Kconfig"
  | tasksNotList => path ++ ": tasks must be a non-empty list"
  | taskNotMapping idx => path ++ ": task " ++ toString idx ++ " must be a mapping"
  | invalidCmdType idx cmdType =>
      path ++ ": task " ++ toString idx ++ " has invalid cmd_type " ++ repr cmdType
  | missingCmd idx => path ++ ": task " ++ toString idx ++ " missing cmd"
  | cmdDoesNotExist idx cmd =>
      path ++ ": task " ++ toString idx ++ " cmd " ++ cmd ++ " does not exist"
  | cmdNotExecutable idx cmd =>
      path ++ ": task " ++ toString idx ++ " cmd " ++ cmd ++ " is not executable"
  | relativeHelper idx cmd => path ++ ": task " ++ toString idx ++ " vm cmd " ++ cmd ++
      " uses relative common/... helper path; use /src/common/..."
  | dependenciesNotList idx =>
      path ++ ": task " ++ toString idx ++ " dependencies must be a list"

/-- `VM_RELATIVE_HELPER.search`, behind a character. -/
def searchRelativeHelper (previous : Option Char) : List Char → Bool
  | [] => false
  | c :: rest =>
      (previous ≠ some '/' && ("common/host/".toList.isPrefixOf (c :: rest) ||
        "common/vm/".toList.isPrefixOf (c :: rest))) || searchRelativeHelper (some c) rest

/-- The checks of a command that is a path; whether the loop goes on with this task. -/
def lintCmdPath (ctx : LintContext) (taskDir : String) (idx : ℕ) (cmdType : Value) (cmd : String) :
    Outcome PyError (List LintError × Bool) :=
  let cmdPath := osNormpath (osPathJoin taskDir cmd)
  if !ctx.pathExists cmdPath then .returned ([.cmdDoesNotExist idx cmd], false)
  else
    let errors := if ctx.isExecutable cmdPath then [] else [.cmdNotExecutable idx cmd]
    if cmdType.isStr "vm" then
      match ctx.readScript cmdPath with
      | none => .raised .osError
      | some text =>
          .returned (errors ++
            if searchRelativeHelper none text then [.relativeHelper idx cmd] else [], true)
    else .returned (errors, true)

/-- The checks of `cmd`. -/
def lintCmd (ctx : LintContext) (taskDir : String) (idx : ℕ) (cmdType cmd : Value) :
    Outcome PyError (List LintError × Bool) :=
  if cmdType.isStr "dummy" then .returned ([], true)
  else if !cmd.truthy then .returned ([.missingCmd idx], false)
  else
    match cmd with
    | .str cmd => lintCmdPath ctx taskDir idx cmdType cmd
    | _ => .raised .typeError

/-- The check of `dependencies`. -/
def lintDependencies (idx : ℕ) : Option Value → List LintError
  | none | some .null | some (.list ..) => []
  | some _ => [.dependenciesNotList idx]

/-- One turn of the loop over the tasks. -/
def lintTask (ctx : LintContext) (taskDir : String) (idx : ℕ) (task : Value) :
    Outcome PyError (List LintError) :=
  match task with
  | .dict entries => do
      let cmdType := (get? entries "cmd_type").getD .null
      let valid ← cmdType.inSet validCmdTypes
      let (errors, goesOn) ← lintCmd ctx taskDir idx cmdType ((get? entries "cmd").getD (.str ""))
      pure ((if valid then [] else [.invalidCmdType idx cmdType]) ++ errors ++
        if goesOn then lintDependencies idx (get? entries "dependencies") else [])
  | _ => pure [.taskNotMapping idx]

def lintTasks (ctx : LintContext) (taskDir : String) : ℕ → List Value →
    Outcome PyError (List LintError)
  | _, [] => pure []
  | idx, task :: rest => do
      let errors ← lintTask ctx taskDir idx task
      let others ← lintTasks ctx taskDir (idx + 1) rest
      pure (errors ++ others)

def lintConfig (ctx : LintContext) (config : Value) : Outcome PyError (List LintError) :=
  if !config.truthy then pure [.missingConfig]
  else do
    let defined ← config.inSet ctx.kconfigSymbols
    pure (if defined then [] else [.undefinedConfig config])

/-- The checks of an overlay directory. -/
def lintOverlay (ctx : LintContext) (taskDir : String) : List LintError :=
  if ':' ∈ taskDir.toList then
    let baseDir := String.ofList (taskDir.toList.takeWhile (· ≠ ':'))
    (if ctx.isDir baseDir then [] else [.overlayDirMissing baseDir]) ++
      if ctx.pathExists (osPathJoin baseDir "manifest.yaml") then []
      else [.overlayManifestMissing baseDir]
  else []

/-- `lint_manifest`, of a manifest that was parsed. -/
def lintManifest (ctx : LintContext) (taskDir : String) (manifest : Value) :
    Outcome PyError (List LintError) :=
  match manifest with
  | .dict entries => do
      let errors ← lintConfig ctx ((get? entries "config").getD .null)
      match get? entries "tasks" with
      | some (.list _ (task :: tasks)) => do
          let others ← lintTasks ctx taskDir 1 (task :: tasks)
          pure (lintOverlay ctx taskDir ++ errors ++ others)
      | _ => pure (lintOverlay ctx taskDir ++ errors ++ [.tasksNotList])
  | _ => pure [.notMapping]

/-! ## `task_manager.py` -/

/-- A task as the loader makes it: what it does not look at is kept as it was parsed. -/
structure LoadedTask where
  config : Value
  path : String
  cmdType : CmdType
  cmd : Value
  dependencies : Value
  provides : Value
  description : Value
  autoCreateRdepends : Value
  manifestVersion : String
  pkgVersion : String

/-- `effective_manifest_file`, by the task directories. -/
def effectiveTaskDir (pathExists : String → Bool) (distro releaseNum taskDir : String) :
    Option String :=
  let overlay := taskDir ++ ":" ++ distro ++ ":" ++ releaseNum
  if ':' ∈ taskDir.toList then none
  else if distro ≠ "" && releaseNum ≠ "" && pathExists (manifestPath overlay) then some overlay
  else some taskDir

/-- `_expand_version_template`. -/
def expandVersionTemplate (template manifestVersion : String) : String :=
  template.replace "$\x7bDS_MANIFEST_VERSION\x7d" manifestVersion

/-- What a `for` loop goes through. -/
def iterate : Value → Outcome PyError (List Value)
  | .list _ items | .set items => .returned items
  | .dict entries => .returned (entries.map Prod.fst)
  | .str s => .returned (s.toList.map fun c => .str (String.singleton c))
  | .bytes b => .returned (b.map fun byte => .int byte.toNat)
  | .null | .bool _ | .int _ | .float _ | .time _ => .raised .typeError

/-- What all tasks of a manifest have in common. -/
structure ManifestHead where
  config : Value
  path : String
  manifestVersion : String
  pkgVersion : String

/-- One turn of the loop over the tasks; what is no mapping has no string keys. -/
def loadTask (str : Value → String) (head : ManifestHead) (task : Value) :
    Outcome PyError LoadedTask :=
  match task with
  | .dict entries => do
      let cmdType ← getItem entries "cmd_type"
      let description ← getItem entries "description"
      match cmdTypeNames.find? fun name => cmdType.isStr name.1 with
      | none => .raised (.valueError ("Invalid task type '" ++ str cmdType ++
          "' in manifest file '" ++ manifestPath head.path ++ "'"))
      | some (_, type) => pure {
          config := head.config
          path := head.path
          cmdType := type
          cmd := (get? entries "cmd").getD (.str "")
          dependencies := (get? entries "dependencies").getD (.list none [])
          provides := (get? entries "provides").getD (.str "")
          description := description
          autoCreateRdepends := (get? entries "auto_create_rdepends").getD (.bool false)
          manifestVersion := head.manifestVersion
          pkgVersion := head.pkgVersion }
  | _ => .raised .typeError

/-- What `load_tasks_from_manifest` reads in front of its loop. -/
def manifestHead (str : Value → String) (taskDir : String) (entries : Entries) (config : Value) :
    ManifestHead :=
  let manifestVersion := ((get? entries "version").map str).getD ""
  let pkgVersion :=
    match get? entries "pkg_version" with
    | some version => expandVersionTemplate (str version) manifestVersion
    | none =>
        if manifestVersion ≠ "" then
          expandVersionTemplate "$\x7bDS_MANIFEST_VERSION\x7d~distroseed1" manifestVersion
        else ""
  ⟨config, taskDir, manifestVersion, pkgVersion⟩

/-- `load_tasks_from_manifest` behind `effective_manifest_file`. -/
def loadManifest (str : Value → String) (taskDir : String) (manifest : Value) :
    Outcome PyError (List LoadedTask) :=
  match manifest with
  | .dict entries => do
      let config ← getItem entries "config"
      let head := manifestHead str taskDir entries config
      let tasks ← getItem entries "tasks"
      let tasks ← iterate tasks
      tasks.mapM (loadTask str head)
  | _ => .raised .typeError

/-- `load_tasks_from_manifest`, with the manifests of all task directories. -/
def loadTasksFromManifest (str : Value → String) (pathExists : String → Bool)
    (distro releaseNum : String) (manifests : String → Value) (taskDir : String) :
    Outcome PyError (List LoadedTask) :=
  match effectiveTaskDir pathExists distro releaseNum taskDir with
  | none => .returned []
  | some dir => loadManifest str dir (manifests dir)

/-! ## `build.py` -/

/-- `len`. -/
def len : Value → Outcome PyError ℕ
  | .str s => .returned s.length
  | .bytes b => .returned b.length
  | .list _ items | .set items => .returned items.length
  | .dict entries => .returned entries.length
  | .null | .bool _ | .int _ | .float _ | .time _ => .raised .typeError

/-- The names that the loop has added to lists which are shared. -/
abbrev Added := ℕ → List String

/-- What was added to a list since it was parsed. -/
def sharedNames (added : Added) : Value → List String
  | .list (some object) _ => added object
  | _ => []

/-- `task.dependencies += [dep]`; only lists can be extended. -/
def extend (added : Added) (task : LoadedTask) (dep : String) : Outcome PyError (LoadedTask × Added) :=
  match task.dependencies with
  | .list none items =>
      .returned ({ task with dependencies := .list none (items ++ [.str dep]) }, added)
  | .list (some object) _ => .returned (task, Function.update added object (added object ++ [dep]))
  | _ => .raised .typeError

/-- One turn of the loop. The last branch of the source means to raise a `ValueError`, for the text
of which it looks for `cmd_type` in the config. -/
def setDefaultDependency (added : Added) (task : LoadedTask) :
    Outcome PyError (LoadedTask × Added) := do
  let length ← len task.dependencies
  if length + (sharedNames added task.dependencies).length ≠ 0 then pure (task, added)
  else if task.config.isStr "DS_CORE_CLEAN_WORK" then pure (task, added)
  else
    match defaultDependency task.cmdType with
    | some dep => extend added task dep
    | none => .raised (.attributeError "cmd_type")

def setDefaultDependencies (added : Added) : List LoadedTask →
    Outcome PyError (List LoadedTask × Added)
  | [] => pure ([], added)
  | task :: rest => do
      let (task, added) ← setDefaultDependency added task
      let (rest, added) ← setDefaultDependencies added rest
      pure (task :: rest, added)

end DistroSeed.Parsed
