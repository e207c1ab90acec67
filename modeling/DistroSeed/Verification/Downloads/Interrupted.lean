import DistroSeed.Verification.Downloads.Sources

/-! Calls of `fetch_blob.sh` whose downloads are interrupted: the first one that creates the file
decides what all later calls find. -/

namespace DistroSeed

variable {β Tree : Type}

/-- A call for one URL, and what `wget` does if the call gets to it: an interrupted download has
written the front of the content. -/
structure BlobCall (content : List β) where
  sha256sum : String
  wget : Wget (List β)
  left_isPrefix : ∀ left, wget = .fails (some left) → left <+: content

/-- What there is of the file when `wget` ends, if there was none before. -/
def Wget.left {Content : Type} (content : Content) : Wget Content → Option Content
  | .completes => some content
  | .fails left => left

namespace BlobCall

variable (sums : Sha256 (List β)) (web : Web (List β) Tree) (url : String)

def run (call : BlobCall (web.file url)) (dl : Downloads (List β) Tree) :
    Downloads (List β) Tree × Option (List β) :=
  fetchBlob sums web call.wget url call.sha256sum dl

/-- The cache after some calls, one after another, that find it empty. -/
def runAll (history : List (BlobCall (web.file url))) : Downloads (List β) Tree :=
  history.foldl (fun dl call => (call.run sums web url dl).1) .empty

/-- What the first call that has created the file has written to it. -/
def firstLeft (history : List (BlobCall (web.file url))) : Option (List β) :=
  history.findSome? fun call => call.wget.left (web.file url)

variable {sums web url}

/-- A call keeps the file, and creates it with what its download leaves. -/
theorem run_blob (call : BlobCall (web.file url)) (dl : Downloads (List β) Tree) :
    (call.run sums web url dl).1.blob (fileName url) =
      (dl.blob (fileName url)).or (call.wget.left (web.file url)) := by
  unfold run fetchBlob
  cases hcached : dl.blob (fileName url) with
  | some file => simpa using hcached
  | none =>
      cases hwget : call.wget with
      | completes => simp [Wget.left]
      | fails left =>
          cases left with
          | none => simpa [Wget.left] using hcached
          | some left => simp [Wget.left]

variable (sums) in
theorem runAll_blob (history : List (BlobCall (web.file url))) :
    (runAll sums web url history).blob (fileName url) = firstLeft web url history := by
  rw [runAll, firstLeft]
  induction history using List.reverseRecOn with
  | nil => rfl
  | append_singleton history call ih =>
      rw [List.foldl_append, List.foldl_cons, List.foldl_nil, run_blob, ih, List.findSome?_append]
      cases hleft : call.wget.left (web.file url) <;> simp [hleft]

/-- A call that exits 0 delivers the file that it finds, or the whole content. -/
theorem eq_of_run {call : BlobCall (web.file url)} {dl : Downloads (List β) Tree} {file : List β}
    (h : (call.run sums web url dl).2 = some file) :
    dl.blob (fileName url) = some file ∨ (dl.blob (fileName url) = none ∧ file = web.file url) := by
  unfold run fetchBlob at h
  cases hcached : dl.blob (fileName url) with
  | some cached =>
      rw [hcached] at h
      rcases deliverBlob_cases sums call.sha256sum cached with ⟨hdeliver, _⟩ | ⟨hdeliver, _⟩
      · exact Or.inl (hdeliver.symm.trans h)
      · simp [hdeliver] at h
  | none =>
      rw [hcached] at h
      refine Or.inr ⟨rfl, ?_⟩
      cases hwget : call.wget with
      | completes =>
          rw [hwget] at h
          rcases deliverBlob_cases sums call.sha256sum (web.file url) with
            ⟨hdeliver, _⟩ | ⟨hdeliver, _⟩
          · exact (Option.some.inj (hdeliver.symm.trans h)).symm
          · simp [hdeliver] at h
      | fails left =>
          rw [hwget] at h
          cases left <;> simp at h

end BlobCall

/-- Only the complete content is delivered during the history, and after it a call with a checksum
delivers the content if the download works. -/
structure CrashSafe (sums : Sha256 (List β)) (web : Web (List β) Tree) (url sha256sum : String)
    (history : List (BlobCall (web.file url))) : Prop where
  delivers_content : ∀ before call after, history = before ++ call :: after → ∀ file,
    (call.run sums web url (BlobCall.runAll sums web url before)).2 = some file →
      file = web.file url
  recovers : (fetchBlob sums web .completes url sha256sum
    (BlobCall.runAll sums web url history)).2 = some (web.file url)

/-- A history is crash-safe, with the checksum that the content and nothing else has, exactly if the
first download that creates the file completes it. -/
theorem fetchBlob_crashSafe_iff {sums : Sha256 (List β)} {web : Web (List β) Tree}
    {url sha256sum : String} (hgiven : sha256sum ≠ "")
    (hcorrect : ∀ file, sums.accepts sha256sum file ↔ file = web.file url)
    (history : List (BlobCall (web.file url))) :
    CrashSafe sums web url sha256sum history ↔
      ∀ left, BlobCall.firstLeft web url history = some left → left = web.file url := by
  have hfile := BlobCall.runAll_blob sums history
  constructor
  · intro h left hleft
    have hrecovers := h.recovers
    rw [hleft] at hfile
    unfold fetchBlob at hrecovers
    rw [hfile] at hrecovers
    rcases deliverBlob_cases sums sha256sum left with ⟨_, hempty | haccepts⟩ | ⟨hdeliver, _⟩
    · exact absurd hempty hgiven
    · exact (hcorrect left).mp haccepts
    · simp [hdeliver] at hrecovers
  · intro h
    have hdeliver : deliverBlob sums sha256sum (web.file url) = some (web.file url) := by
      rw [deliverBlob, if_neg hgiven, if_pos ((hcorrect _).mpr rfl)]
    refine ⟨fun before call after hhistory file hrun => ?_, ?_⟩
    · rcases BlobCall.eq_of_run hrun with hcached | ⟨_, hown⟩
      · rw [BlobCall.runAll_blob] at hcached
        apply h
        rw [hhistory, BlobCall.firstLeft, List.findSome?_append]
        rw [BlobCall.firstLeft] at hcached
        rw [hcached, Option.some_or]
      · exact hown
    · unfold fetchBlob
      rw [hfile]
      cases hleft : BlobCall.firstLeft web url history with
      | none => exact hdeliver
      | some left =>
          obtain rfl := h left hleft
          exact hdeliver

/-- The text itself as its sum. -/
def textSums : Sha256 (List Char) where
  digest := String.ofList
  accepts sum content := String.ofList content = sum
  accepts_digest content := by simp

/-- One file for every URL. -/
def oneFileWeb : Web (List Char) Unit where
  file _ := "keys".toList
  repo _ _ := none

/-- A call for it whose download stops after `n` characters. -/
def stoppedCall (n : ℕ) : BlobCall (oneFileWeb.file "https://a.example/keys.asc") where
  sha256sum := ""
  wget := .fails (some ("keys".toList.take n))
  left_isPrefix left h := by
    obtain rfl := Option.some.inj (Wget.fails.inj h)
    exact List.take_prefix n _

theorem textSums_accepts_keys (file : List Char) : textSums.accepts "keys" file ↔
    file = oneFileWeb.file "https://a.example/keys.asc" := by
  simp only [textSums, oneFileWeb, decide_eq_true_eq]
  constructor
  · intro h
    simpa using congrArg String.toList h
  · intro h
    rw [h]
    rfl

theorem fetchBlob_crashSafe_iff_stoppedCall :
    CrashSafe textSums oneFileWeb "https://a.example/keys.asc" "keys" [stoppedCall 4] ↔
      ∀ left, BlobCall.firstLeft oneFileWeb "https://a.example/keys.asc" [stoppedCall 4] = some left →
        left = oneFileWeb.file "https://a.example/keys.asc" :=
  fetchBlob_crashSafe_iff (by decide) textSums_accepts_keys [stoppedCall 4]

/-- After a download that has stopped, a call without a checksum delivers half of the file, and the
calls with its checksum fail. -/
theorem fetchBlob_delivers_half :
    ((stoppedCall 0).run textSums oneFileWeb "https://a.example/keys.asc"
        (BlobCall.runAll textSums oneFileWeb "https://a.example/keys.asc" [stoppedCall 2])).2 =
        some "ke".toList ∧
      (fetchBlob textSums oneFileWeb .completes "https://a.example/keys.asc" "keys"
        (BlobCall.runAll textSums oneFileWeb "https://a.example/keys.asc" [stoppedCall 2])).2 =
        none ∧
      ¬ CrashSafe textSums oneFileWeb "https://a.example/keys.asc" "keys" [stoppedCall 2] := by
  refine ⟨by decide +kernel, by decide +kernel, fun h => ?_⟩
  have hrecovers := h.recovers
  revert hrecovers
  decide +kernel

end DistroSeed
