import DistroSeed.Model.PackageMetadata
import DistroSeed.Verification.Packages.Overlays

/-! The package inputs of the host and those of the VM, once `build-packages.sh` has read them. -/

namespace DistroSeed

open ShellWords ByteText

variable {Content Archive : Type} {tar : Tar Content Archive} {tools : PackageTools Content}
  {targetArch : String}

/-! ## `metadata.env` -/

/-- However the versions are quoted, sourcing the text sets the two variables to them. -/
theorem settings_metadataEnv {quote : List Char → List Char} {manifestVersion pkgVersion : List Char}
    (hmanifest : ReadsAs (quote manifestVersion) manifestVersion)
    (hpkg : ReadsAs (quote pkgVersion) pkgVersion) :
    settings (metadataEnv quote manifestVersion pkgVersion) =
      some [("DS_MANIFEST_VERSION".toList, manifestVersion), ("DS_PKG_VERSION".toList, pkgVersion)] := by
  have hmanifestName : isName "DS_MANIFEST_VERSION".toList := by decide
  have hpkgName : isName "DS_PKG_VERSION".toList := by decide
  unfold metadataEnv
  exact settings_lines (.cons (names_assignment hmanifestName hmanifest)
    (.cons (names_assignment hpkgName hpkg) .nil))

/-- The bytes of the text are that text of the bytes. -/
theorem writePackageMetadata_eq (task : Task) :
    writePackageMetadata task = metadataEnv shlexQuote (encode task.manifestVersion.toList)
      (encode task.pkgVersion.toList) := by
  have hmanifest : encode "DS_MANIFEST_VERSION".toList = "DS_MANIFEST_VERSION".toList :=
    encode_ascii (List.all_iff_forall_prop.mp (by decide))
  have hpkg : encode "DS_PKG_VERSION".toList = "DS_PKG_VERSION".toList :=
    encode_ascii (List.all_iff_forall_prop.mp (by decide))
  have hequals : encodeChar '=' = ['='] := encodeChar_ascii (by decide)
  unfold writePackageMetadata metadataEnv
  rw [encode_lines, List.map_cons, List.map_cons, List.map_nil, encode_append, encode_append,
    encode_cons, encode_cons, encode_shlexQuote, encode_shlexQuote, hmanifest, hpkg, hequals]
  rfl

/-- What is loaded of a directory whose metadata set the two variables to the versions. -/
theorem load_eq {manifestVersion pkgVersion : String} {metadata : List Char}
    (h : settings metadata = some [("DS_MANIFEST_VERSION".toList, encode manifestVersion.toList),
      ("DS_PKG_VERSION".toList, encode pkgVersion.toList)])
    (name : String) (data debian : Option Archive) (vars : ShellVars) :
    PackageInputDir.load vars ⟨name, metadata, data, debian⟩ =
      some ⟨name, manifestVersion, pkgVersion, data, debian⟩ := by
  simp [PackageInputDir.load, ShellVars.source, h, ShellVars.text?, decode?_encode]

/-! ## The two ways of staging -/

theorem VersionedTask.null_notMem_encode_manifestVersion (task : VersionedTask) :
    '\x00' ∉ encode task.manifestVersion.toList := by
  rw [mem_encode_ascii (by decide)]
  exact task.null_notMem_manifestVersion

theorem VersionedTask.null_notMem_encode_pkgVersion (task : VersionedTask) :
    '\x00' ∉ encode task.pkgVersion.toList := by
  rw [mem_encode_ascii (by decide)]
  exact task.null_notMem_pkgVersion

/-- The metadata of the host. -/
theorem settings_writePackageMetadata (task : VersionedTask) :
    settings (writePackageMetadata task.toTask) =
      some [("DS_MANIFEST_VERSION".toList, encode task.manifestVersion.toList),
        ("DS_PKG_VERSION".toList, encode task.pkgVersion.toList)] := by
  rw [writePackageMetadata_eq]
  exact settings_metadataEnv (readsAs_shlexQuote task.null_notMem_encode_manifestVersion)
    (readsAs_shlexQuote task.null_notMem_encode_pkgVersion)

/-- The metadata of the VM. -/
theorem settings_printfQ (locale : ShellLocale) (task : VersionedTask) :
    settings (metadataEnv (printfQ locale) (encode task.manifestVersion.toList)
        (encode task.pkgVersion.toList)) =
      some [("DS_MANIFEST_VERSION".toList, encode task.manifestVersion.toList),
        ("DS_PKG_VERSION".toList, encode task.pkgVersion.toList)] :=
  settings_metadataEnv
    (readsAs_printfQ locale task.null_notMem_encode_manifestVersion fun _ => isByte_of_mem_encode)
    (readsAs_printfQ locale task.null_notMem_encode_pkgVersion fun _ => isByte_of_mem_encode)

/-- What `build-packages.sh` finds of a host task is what was staged. -/
theorem load_stageHostInputDir (tar : Tar Content Archive) (task : VersionedTask)
    (output : TaskOutput Content) (vars : ShellVars) :
    (stageHostInputDir tar task.toTask output).map (·.load vars) =
      (stageHostPackageInput tar task.toTask output).map some := by
  rw [stageHostInputDir, stageHostPackageInput]
  by_cases hempty : !output.overlay.hasEntries && !output.debian.hasEntries
  · rw [if_pos hempty, if_pos hempty]
    rfl
  · rw [if_neg hempty, if_neg hempty, Option.map_some, Option.map_some,
      load_eq (settings_writePackageMetadata task)]

/-- What it finds of a vm or cross task is what was staged. -/
theorem load_stageInputDir (tar : Tar Content Archive) (locale : ShellLocale)
    (task : VersionedTask) (output : TaskOutput Content) (vars : ShellVars) :
    (stageInputDir tar locale task.toTask output).map (·.load vars) =
      (stagePackageInput tar task.toTask output).map some := by
  rw [stageInputDir, stagePackageInput]
  by_cases hempty : !output.overlay.hasEntries
  · rw [if_pos hempty, if_pos hempty]
    rfl
  · rw [if_neg hempty, if_neg hempty, Option.map_some, Option.map_some,
      load_eq (settings_printfQ locale task)]

/-- Where the overlay has entries, or the debian directory has none, both stage the same. -/
theorem stagePackageInput_eq_of {task : Task} {output : TaskOutput Content}
    (h : output.overlay.hasEntries ∨ ¬ output.debian.hasEntries) :
    stageHostPackageInput tar task output = stagePackageInput tar task output := by
  rw [stageHostPackageInput, stagePackageInput]
  rcases h with h | h
  · simp [h]
  · by_cases hoverlay : output.overlay.hasEntries <;> simp [h, hoverlay]

/-! ## What is built -/

/-- The loop of `build-packages.sh` on a directory that can be loaded. -/
theorem buildStaged_eq {vars : ShellVars} {staged : Option (PackageInputDir Archive)}
    {loaded : Option (PackageInput Archive)} (h : staged.map (·.load vars) = loaded.map some) :
    buildStaged tar tools targetArch vars staged =
      some (loaded.elim (.returned none) (buildPackage tar tools targetArch)) := by
  cases staged with
  | none =>
      obtain rfl : loaded = none := by simpa using h.symm
      rfl
  | some dir =>
      obtain ⟨input, rfl, hinput⟩ := Option.map_eq_some_iff.mp h.symm
      have hload : dir.load vars = some input := hinput.symm
      rw [buildStaged, hload]
      rfl

theorem sourcedVersion_eq {vars : ShellVars} {staged : Option (PackageInputDir Archive)}
    {loaded : Option (PackageInput Archive)} (h : staged.map (·.load vars) = loaded.map some) :
    sourcedVersion vars staged = loaded.map fun input => some input.pkgVersion := by
  have hmap := congrArg (Option.map (Option.map PackageInput.pkgVersion)) h
  rw [Option.map_map, Option.map_map] at hmap
  exact hmap

/-- Where there is an archive, `build_package` builds a package or stops the script. -/
theorem buildPackage_ne_none {input : PackageInput Archive} (h : input.debian.isSome) :
    buildPackage tar tools targetArch input ≠ .returned none := by
  have harchive : ¬ (input.data.isNone && input.debian.isNone) := by
    simp [Option.isNone_eq_false_iff.mpr h]
  intro hnone
  rw [buildPackage, if_neg harchive, Outcome.bind_eq_returned] at hnone
  obtain ⟨control, _, hdeb⟩ := hnone
  dsimp only at hdeb
  split at hdeb <;> cases hdeb

/-- What the host stages and what the VM stages leads to the same package with the same version,
whatever the versions are, if and only if the overlay has entries or the debian directory has
none. -/
theorem staging_agrees_iff (tar : Tar Content Archive) (tools : PackageTools Content)
    (targetArch : String) (locale : ShellLocale) (vars : ShellVars) (task : VersionedTask)
    (output : TaskOutput Content) :
    (buildStaged tar tools targetArch vars (stageHostInputDir tar task.toTask output) =
        buildStaged tar tools targetArch vars (stageInputDir tar locale task.toTask output) ∧
      sourcedVersion vars (stageHostInputDir tar task.toTask output) =
        sourcedVersion vars (stageInputDir tar locale task.toTask output)) ↔
      output.overlay.hasEntries ∨ ¬ output.debian.hasEntries := by
  have hhost := load_stageHostInputDir tar task output vars
  have hvm := load_stageInputDir tar locale task output vars
  rw [buildStaged_eq hhost, buildStaged_eq hvm, sourcedVersion_eq hhost, sourcedVersion_eq hvm]
  constructor
  · rintro ⟨hbuild, _⟩
    by_contra hneither
    obtain ⟨hoverlay, hdebian⟩ := not_or.mp hneither
    rw [not_not] at hdebian
    -- only the host stages a debian directory without an overlay
    have hvmNone : stagePackageInput tar task.toTask output = none := by
      simp [stagePackageInput, hoverlay]
    rw [hvmNone, stageHostPackageInput, if_neg (by simp [hdebian])] at hbuild
    exact buildPackage_ne_none (by simp [hdebian]) (Option.some.inj hbuild)
  · intro h
    rw [stagePackageInput_eq_of h]
    exact ⟨rfl, rfl⟩

/-- A locale of the ASCII characters. -/
def asciiLocale : ShellLocale where
  prints text i := text[i]?.any fun c => 32 ≤ c.toNat && c.toNat < 127
  newline text i h := by
    rw [h]
    rfl

def hostnameTask : VersionedTask where
  config := "DS_HOSTNAME"
  cmdType := .vm
  pkgVersion := "1.0"
  null_notMem_manifestVersion := by decide
  null_notMem_pkgVersion := by decide

/-- A maintainer script and no files. -/
def scriptOnly : TaskOutput String where
  overlay := ∅
  debian := ⟨Finmap.singleton ["postinst"] "hostname -F /etc/hostname", ∅⟩

/-- The host builds a package of the script, the VM builds none. -/
theorem vm_drops_maintainer_script :
    (∃ deb, buildStaged (Tar.plain String) plainTools "armhf" ∅
        (stageHostInputDir (Tar.plain String) hostnameTask.toTask scriptOnly) =
          some (.returned (some deb)) ∧
      deb.info ["postinst"] = some "hostname -F /etc/hostname") ∧
      buildStaged (Tar.plain String) plainTools "armhf" ∅
        (stageInputDir (Tar.plain String) asciiLocale hostnameTask.toTask scriptOnly) =
          some (.returned none) := by
  have hhost := load_stageHostInputDir (Tar.plain String) hostnameTask scriptOnly ∅
  rw [buildStaged_eq hhost]
  exact ⟨⟨_, rfl, rfl⟩, rfl⟩

end DistroSeed
