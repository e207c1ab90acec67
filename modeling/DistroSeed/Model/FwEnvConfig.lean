import DistroSeed.Library.Tokens

/-! `select_fw_env_config`, from where `/etc/fw_env.config` is known to be a symlink. -/

namespace DistroSeed

open Tokens

/-! ## Expansion of words -/

/-- The characters at which the shell splits an expansion into words. -/
def isIfs (c : Char) : Bool := c = ' ' || c = '\t' || c = '\n'

/-- Characters that make a word a pattern. -/
def isPattern (c : Char) : Bool := c = '*' || c = '?' || c = '[' || c = '\\'

/-- Characters of compatible strings: none is special to the shell. -/
def isCompatibleChar (c : Char) : Bool := c.isAlphanum || c ∈ ",._+-".toList

/-- A string of the property `compatible` at the root of the device tree. -/
structure CompatibleString where
  text : String
  ne_empty : text ≠ ""
  head_ne_dash : text.toList.head? ≠ some '-'
  isCompatibleChar_of_mem : ∀ c ∈ text.toList, isCompatibleChar c

/-- `env_config_dir`. -/
def envConfigDir : String := "/usr/share/uboot-env-configs"

def envConfigPath (name : String) : String := envConfigDir ++ "/" ++ name

/-- Whether the pattern of a machine, `${machine}*.config`, matches a file name; a dot in front must
be matched by itself. -/
def matchesMachine (machine name : String) : Bool :=
  machine.toList.isPrefixOf name.toList && ".config".toList.isSuffixOf name.toList &&
    machine.length + ".config".length ≤ name.length &&
    (name.toList.head? ≠ some '.' || machine ≠ "")

/-- The names in the directory in the order in which the shell lists them (links that point to
nothing are among them; none if there is no directory), `test -e`, the programs `realpath` (what
`$(realpath …)` gives; nothing where it fails) and `fw_printenv --config`, and what patterns match
elsewhere. -/
structure ConfigDir where
  entries : List String
  present : String → Bool
  realpath : String → String
  fwPrintenv : String → Bool
  glob : String → List String
  mem_entries_of_present : ∀ machine : String, (∀ c ∈ machine.toList, isCompatibleChar c) →
    present (envConfigPath (machine ++ "*.config")) → machine ++ "*.config" ∈ entries
  present_realpath : ∀ path, present path → present (realpath path)
  realpath_ne_empty : ∀ path, present path → realpath path ≠ ""
  fwPrintenv_of_not_present : ∀ path, ¬ present path → fwPrintenv path = false
  glob_machine : ∀ machine : String, (∀ c ∈ machine.toList, isCompatibleChar c) →
    glob (envConfigPath (machine ++ "*.config")) =
      (entries.filter (matchesMachine machine)).map envConfigPath

namespace ConfigDir

/-- Pathname expansion of a word: a pattern that matches nothing stays as it is. -/
def expandWord (dir : ConfigDir) (word : String) : List String :=
  if word.toList.any isPattern then
    match dir.glob word with
    | [] => [word]
    | paths => paths
  else [word]

/-- What the shell makes of an expansion that is not quoted. -/
def expand (dir : ConfigDir) (text : String) : List String :=
  ((words isIfs text.toList).map String.ofList).flatMap dir.expandWord

/-! ## The script -/

/-- `COMPATIBLE`: `tr` turns the null behind every string into a blank. -/
def compatibleText (compatible : List CompatibleString) : String :=
  String.join (compatible.map fun c => c.text ++ " ")

/-- `cut -d, -f2`: a line without a comma is printed whole. -/
def secondField (line : String) : String :=
  match line.toList.splitOn ',' with
  | _ :: second :: _ => String.ofList second
  | _ => line

/-- The variables of the loop. -/
structure Search where
  found : Bool
  configPath : String
  default : String
deriving DecidableEq, Repr

/-- The inner loop. -/
def tryPaths (dir : ConfigDir) (s : Search) : List String → Search
  | [] => s
  | tryPath :: rest =>
      let s := if s.default = "" then { s with default := dir.realpath tryPath } else s
      if dir.fwPrintenv tryPath then
        { s with found := true, configPath := dir.realpath tryPath }
      else dir.tryPaths s rest

/-- The outer loop. -/
def tryMachines (dir : ConfigDir) (s : Search) : List String → Search
  | [] => s
  | compatible :: rest =>
      let machine := secondField compatible
      let s := dir.tryPaths s (dir.expand (envConfigPath (machine ++ "*.config")))
      if s.found then s else dir.tryMachines s rest

/-- The lines of the explanatory file. -/
def explanation (compatible : String) : List String :=
  ["# No matching fw_env.config found in " ++ envConfigDir ++ " to match\"",
    "# this device's COMPATIBLE string (=" ++ compatible ++ ").",
    "#",
    "# To fix: Place into " ++ envConfigDir ++ " (or link to one already there)",
    "# a correct U-Boot environment config file named:",
    "# \t" ++ compatible ++ ".config",
    "#",
    "# Then, retry:",
    "# \tsystemctl start fw_env.service",
    "# \""]

/-- What the script does to `/run/fw_env.config`, and its exit status. -/
structure Selection where
  link : Option String
  written : Option (List String)
  exitCode : ℕ
deriving DecidableEq, Repr

/-- `ln -s ${config_path} /run/fw_env.config`: with several words before it, the last one would have
to be a directory. -/
def linkConfig (dir : ConfigDir) (configPath : String) : Selection where
  link :=
    match dir.expand configPath with
    | [path] => some path
    | _ => none
  written := none
  exitCode := 0

/-- The script from the assignment of `env_config_dir` to its end. -/
def selectFwEnvConfig (dir : ConfigDir) (compatible : List CompatibleString) : Selection :=
  let text := compatibleText compatible
  let s := dir.tryMachines ⟨false, "", ""⟩ (dir.expand text)
  if s.found then dir.linkConfig s.configPath
  else if s.default ≠ "" then dir.linkConfig s.default
  else ⟨none, some (explanation text), 1⟩

end ConfigDir

end DistroSeed
