import DistroSeed.Library.ByteText
import DistroSeed.Library.KeySort
import DistroSeed.Library.Tokens
import DistroSeed.Model.LocalPackages

/-! The packages that `tasks/distros/build.sh` asks `mmdebstrap` for. Texts are their bytes, with one
character for each. -/

namespace DistroSeed

open KeySort

/-- What the tools take characters for: single bytes, or UTF-8. -/
inductive Locale where
  | c
  | utf8
deriving DecidableEq, Repr

/-- What `build.sh` reads: the packagelist file, if `CONFIG_DS_PACKAGELIST` names one, the files in
`work/packagelist`, and `CONFIG_DS_KERNEL_DEBIAN_PACKAGE_NAME`, which comes to the VM as UTF-8. -/
structure PackageSources where
  packagelist : Option (List Char)
  tasks : List (List Char)
  kernel : String

/-- Whether `.*` matches all that is left of a line; in UTF-8, `.` matches no invalid byte. -/
def Locale.matchesRest : Locale → List Char → Bool
  | c, _ => true
  | utf8, rest => (ByteText.decode? rest).isSome

/-- `s/#.*$//`, on one line: the match starts at the first `#` from where it gets to the end. -/
def cutComment (locale : Locale) : List Char → List Char
  | [] => []
  | c :: rest => if c = '#' && locale.matchesRest rest then [] else c :: cutComment locale rest

/-- `sed -e 's/#.*$//' -e '/^$/d'`; what stands behind the last newline is a line too. -/
def sedComments (locale : Locale) (text : List Char) : List Char :=
  let lines := (text.splitOn '\n').map (cutComment locale)
  (lines.dropLast.filter (!·.isEmpty)).flatMap (· ++ ['\n']) ++ lines.getLastD []

/-- What `tr -s` does to the runs of a character. -/
def squeeze (c : Char) : List Char → List Char
  | [] => []
  | d :: rest => if d = c && rest.head? = some c then squeeze c rest else d :: squeeze c rest

/-- `tr -s '[:space:]' ' '`. -/
def trSpaces (text : List Char) : List Char :=
  squeeze ' ' (text.map fun c => if isSpace c then ' ' else c)

/-- The lines of a file. -/
def fileLines (text : List Char) : List (List Char) :=
  let lines := text.splitOn '\n'
  if lines.getLastD [] = [] then lines.dropLast else lines

/-- `sort -u`, of lines. -/
def sortUnique (lines : List (List Char)) : List (List Char) := sortedBy String.ofList lines.dedup

/-- What the shell makes of the output of a command: no null characters, and no newlines at the
end. -/
def commandSubstitution (output : List Char) : List Char :=
  (output.filter (· ≠ '\x00')).rdropWhile (· = '\n')

namespace PackageSources

/-- The name of the kernel package. -/
def kernelName (s : PackageSources) : List Char := ByteText.encode s.kernel.toList

/-- What follows the packagelist file. -/
def following (s : PackageSources) : List Char :=
  s.tasks.flatMap (· ++ ['\n']) ++ if s.kernelName = [] then [] else s.kernelName ++ ['\n']

/-- `tmp_work`. -/
def work (s : PackageSources) : List Char := s.packagelist.getD [] ++ s.following

/-- `PKGS`; `paste` puts blanks between the lines. -/
def pkgs (locale : Locale) (s : PackageSources) : List Char :=
  let combined := trSpaces (sedComments locale s.work)
  let lines := fileLines (combined.map fun c => if c = ' ' then '\n' else c)
  commandSubstitution ([' '].intercalate (sortUnique lines) ++ ['\n'])

/-- The package names in `PKGS`. -/
def pkgNames (locale : Locale) (s : PackageSources) : List (List Char) :=
  Tokens.words isSpace (s.pkgs locale)

end PackageSources

end DistroSeed
