import Kiko.Lib.Sha256
import Kiko.Core.Imohash
import Kiko.Transfer.Exchange

/-!
# Files that are there already (`try_skip_existing_duplicate`)

A receiver that has a file with the sampled digest of the header says so, and the sender, who
finds size and digest of its own file unchanged, sends nothing. That is the whole exchange
(`SkipsDuplicate`): neither side asks how long the receiver's file is.

The digest is taken of samples, so files can share it without any collision of the hash. The
exchange is modelled to see whether anything else on the way tells two such files apart; what
decides is then a question about `imohash` alone (`Kiko.Core.Imohash`), and no assumption on
the hash is made: the files that are confused are given.
-/

set_option autoImplicit false

namespace Kiko.Transfer

open Lexical FileTree

variable {prims : Primitives} {content other : Bytes}

/-- The receiver has `existing` where the file of `source` is to go, calls it a duplicate, and
    after the sender's answer takes nothing more. -/
def SkipsDuplicate (env : ReceiveEnv) (source : Source prims) (plan : Option ReceivePlan)
    (d : Disk) (setup : EntrySetup) (existing : Bytes) : Prop :=
  env.symlinkStatus d.tree setup.currentPath = some (.file existing) ∧
    ∃ d₁ session d₂, env.prepare plan (makeFileHeader source.entry) d = .ok (.duplicate setup) d₁ ∧
      onResume source (.resume (Pending.duplicate setup).request) = .ok session ∧
      env.onAck (.duplicate setup) (.resumeAck (resumeAckMessage session.accepted)) d₁ =
        .ok (.inl (.skipPayload setup)) d₂

/-! ## What the receiver has compared

From the duplicate it reports back to the file it has: the target stands, it is a file, and
its digest is the one in the header. -/

section Prepare

variable {env : ReceiveEnv} {plan : Option ReceivePlan} {header : Message} {setup : EntrySetup}
  {d d₁ : Disk}

theorem entrySetup_header {t : Tree} (h : env.entrySetup t plan header = .ok setup) :
    setup.header = header := by
  unfold ReceiveEnv.entrySetup at h
  dsimp only at h
  split_ifs at h
  obtain ⟨size, -, h⟩ := exists_of_bind_ok h
  obtain ⟨current, -, h⟩ := exists_of_bind_ok h
  obtain ⟨_, -, h⟩ := exists_of_bind_ok h
  obtain rfl := Except.ok.inj h
  rfl

/-- A duplicate is a file with the digest of the header. -/
theorem prepare_duplicate (h : env.prepare plan header d = .ok (.duplicate setup) d₁) :
    setup.header = header ∧ env.isDuplicate d.tree setup = true := by
  simp only [ReceiveEnv.prepare, bind_tree, bind_check_ok] at h
  obtain ⟨setup', hsetup, h⟩ := h
  have hheader := entrySetup_header hsetup
  split_ifs at h
  · obtain ⟨_, _, hp⟩ := prepareSymlink_ok h
    cases hp
  · obtain ⟨_, hp⟩ := prepareDirectory_ok h
    cases hp
  · simp only [ReceiveEnv.prepareFile, bind_tree] at h
    split_ifs at h with hskip
    · rw [bind_status] at h
      cases (pure_ok.mp h).1
    · rw [bind_tree] at h
      split_ifs at h with hdup
      · obtain ⟨hp, -⟩ := pure_ok.mp h
        obtain rfl := Pending.duplicate.inj hp
        exact ⟨hheader, hdup⟩
      · obtain ⟨_, _, _, _, hp, -⟩ := preparePayload_ok h
        cases hp

theorem applyFileMetadata_ok (current : FsPath) {mode mtimeMs : Nat}
    (hmode : header.getU64 "mode" 0 = .ok mode) (hmtime : header.getU64 "mtime_ms" 0 = .ok mtimeMs)
    (d : Disk) : ∃ d', env.applyFileMetadata current header d = .ok () d' := by
  simp only [ReceiveEnv.applyFileMetadata, hmode, hmtime]
  exact ⟨_, rfl⟩

theorem digest_of_isDuplicate {existing : Bytes} (h : env.isDuplicate d.tree setup = true)
    (hfile : env.symlinkStatus d.tree setup.currentPath = some (.file existing)) :
    env.prims.imohashHex existing = setup.header.get "imohash" := by
  simp only [ReceiveEnv.isDuplicate, hfile, Bool.and_eq_true, decide_eq_true_eq] at h
  exact h.2

end Prepare

theorem header_imohash {source : Source prims} (h : transferEntryKind source.entry = .file) :
    (makeFileHeader source.entry).get "imohash" = prims.imohashHex source.content := by
  simp [makeFileHeader, h, Message.get, List.lookup, source.imohash_eq h]

theorem SkipsDuplicate.digest_eq {env : ReceiveEnv} {source : Source env.prims}
    {plan : Option ReceivePlan} {d : Disk} {setup : EntrySetup} {existing : Bytes}
    (h : SkipsDuplicate env source plan d setup existing) :
    setup.declaredSize = source.content.length ∧
      env.prims.imohashHex existing = env.prims.imohashHex source.content := by
  obtain ⟨hfile, d₁, session, d₂, hprep, -, -⟩ := h
  obtain ⟨hkind, hsize⟩ := prepare_offers hprep
  obtain ⟨hheader, hdup⟩ := prepare_duplicate hprep
  refine ⟨hsize.trans (source.size_eq hkind), ?_⟩
  rw [digest_of_isDuplicate hdup hfile, hheader, header_imohash hkind]

/-! ## A file that is kept for another

The exchange, run with any source and any file in its way. What decides is the digest of the
two contents, so the general statement reduces to `imohash`. -/

/-- A receiver without a plan, in `/out`. -/
def keeper (prims : Primitives) : ReceiveEnv where
  prims := prims
  outputDir := { isAbsolute := true, parts := ["out"] }
  policy := .overwrite
  cwd := []
  available := .ok (2 ^ 40)

/-- `/out/a` is there. -/
def keeperDisk (other : Bytes) : Disk where
  tree place :=
    if place = ["out"] then some .dir
    else if place = ["out", "a"] then some (.file other)
    else none

/-- The file `a`. -/
def keptSource (prims : Primitives) {content : Bytes} (hfits : content.length ≤ u64Max) :
    Source (keeper prims).prims where
  entry :=
    { absolute := "/a", relative := "a", size := content.length
      imohash := prims.imohashHex content }
  content := content
  size_eq _ := rfl
  size_le := hfits
  imohash_eq _ := rfl

section Kept

variable (prims) (hfits : content.length ≤ u64Max)

def keptEntry : FileEntry := (keptSource prims hfits).entry

def keptSetup : EntrySetup where
  header := makeFileHeader (keptEntry prims hfits)
  relative := "a"
  currentPath := { isAbsolute := true, parts := ["out", "a"] }
  declaredSize := content.length
  useZstd := shouldCompressEntry (keptEntry prims hfits)
  planned := none

theorem kept_kind : transferEntryKind (keptEntry prims hfits) = .file := by
  have hslash : endsInSlash "a" = false := rfl
  simp [transferEntryKind, keptEntry, keptSource, hslash]

theorem kept_stands (other : Bytes) :
    (keeper prims).symlinkStatus (keeperDisk other).tree (keptSetup prims hfits).currentPath =
      some (.file other) := rfl

theorem kept_setup (other : Bytes) :
    (keeper prims).entrySetup (keeperDisk other).tree none (makeFileHeader (keptEntry prims hfits)) =
      .ok (keptSetup prims hfits) := by
  have hpath : (makeFileHeader (keptEntry prims hfits)).get "path" = "a" := header_path _
  have hsize : (makeFileHeader (keptEntry prims hfits)).getU64 "size" 0 = .ok content.length :=
    header_size (kept_kind prims hfits)
  have hzstd : decide ((makeFileHeader (keptEntry prims hfits)).get "compress" "zstd" ≠ "none") =
      shouldCompressEntry (keptEntry prims hfits) := header_compress (kept_kind prims hfits)
  unfold ReceiveEnv.entrySetup
  dsimp only
  rw [hpath, if_neg (by decide), hsize, hzstd]
  rfl

/-- The header gives neither mode nor time. -/
theorem kept_metadata {key : String} (hkey : key = "mode" ∨ key = "mtime_ms") :
    (keptSetup prims hfits).header.getU64 key 0 = .ok 0 := by
  have hget : (keptSetup prims hfits).header.get key = "" := by
    show (makeFileHeader (keptEntry prims hfits)).get key = ""
    rw [makeFileHeader, kept_kind]
    obtain rfl | rfl := hkey <;> simp [Message.get, metadataFields, keptEntry, keptSource, List.lookup]
  rw [Message.getU64, hget]
  rfl

variable {prims}

/-- The receiver asks whether it may skip a file with the digest of `content`. -/
theorem kept_asks (hsame : prims.imohashHex other = prims.imohashHex content) :
    (keeper prims).prepare none (makeFileHeader (keptEntry prims hfits)) (keeperDisk other) =
      .ok (.duplicate (keptSetup prims hfits)) (keeperDisk other) := by
  have hdup : (keeper prims).isDuplicate (keeperDisk other).tree (keptSetup prims hfits) = true := by
    have himo : (keptSetup prims hfits).header.get "imohash" = prims.imohashHex content :=
      header_imohash (kept_kind prims hfits)
    simp only [ReceiveEnv.isDuplicate, himo, kept_stands, Bool.and_eq_true, decide_eq_true_eq]
    exact ⟨prims.imohashHex_ne content, hsame⟩
  have hlink : ¬ isSymlinkHeader (makeFileHeader (keptEntry prims hfits)) = true := by
    rw [isSymlinkHeader_iff, kept_kind]
    decide
  have hdir : ¬ isDirHeader (keptSetup prims hfits).relative (keptSetup prims hfits).declaredSize = true := by
    have hslash : endsInSlash "a" = false := rfl
    simp [isDirHeader, keptSetup, hslash]
  simp only [ReceiveEnv.prepare, bind_tree, bind_check_ok]
  refine ⟨_, kept_setup prims hfits other, ?_⟩
  rw [if_neg hlink, if_neg hdir]
  simp only [ReceiveEnv.prepareFile, bind_tree]
  have hskip : ¬ (keeper prims).skipsExisting (keeperDisk other).tree (keptSetup prims hfits) = true := by
    simp [ReceiveEnv.skipsExisting, keptSetup, keeper]
  rw [if_neg hskip, bind_tree, if_pos hdup]
  rfl

/-- A file with the digest of `content` is kept for it. -/
theorem kept_skips (hsame : prims.imohashHex other = prims.imohashHex content) :
    SkipsDuplicate (keeper prims) (keptSource prims hfits) none (keeperDisk other)
      (keptSetup prims hfits) other := by
  have hprep : (keeper prims).prepare none (makeFileHeader (keptSource prims hfits).entry)
      (keeperDisk other) = .ok (.duplicate (keptSetup prims hfits)) (keeperDisk other) :=
    kept_asks hfits hsame
  obtain ⟨d₁, happly⟩ := @applyFileMetadata_ok (keeper prims) _ (keptSetup prims hfits).currentPath
    _ _ (kept_metadata prims hfits (.inl rfl)) (kept_metadata prims hfits (.inr rfl)) (keeperDisk other)
  have hsettle : ∃ d₂, (keeper prims).settleSession (keptSource prims hfits)
      (.duplicate (keptSetup prims hfits)) (keeperDisk other) =
        .ok (.skipPayload (keptSetup prims hfits)) d₂ :=
    ⟨{ d₁ with log := d₁.log ++ [.status "skipped duplicate a"] }, bind_ok.mpr ⟨(), d₁, happly, rfl⟩⟩
  obtain ⟨d₂, hsettle⟩ := hsettle
  refine ⟨kept_stands prims hfits other, _, _, d₂, hprep, onResume_eq (prepare_offers hprep), ?_⟩
  rw [onAck_eq (prepare_offers hprep)]
  exact bind_ok.mpr ⟨_, _, hsettle, rfl⟩

end Kept

/-! ## What the exchange does not tell

Below two chunks the whole file is the sample, and a different file is a different one. From
there on a file of another size may have the same samples. -/

/-- What a duplicate of a file of this content is to be, wherever it goes and whatever is there:
    what is kept for it has the size declared, and up to 256 KiB the content too. Of the digest
    it is taken for granted that it tells these samples apart. -/
def KeepsOnlySame (prims : Primitives) (content : Bytes) : Prop :=
  ∀ (env : ReceiveEnv) (source : Source prims) (plan : Option ReceivePlan) (d : Disk)
    (setup : EntrySetup) (existing : Bytes), env.prims = prims → source.content = content →
    (murmur3X64_128 (imohashSamples existing) 0 = murmur3X64_128 (imohashSamples content) 0 →
      imohashSamples existing = imohashSamples content) →
    SkipsDuplicate env source plan d setup existing →
    existing.length = setup.declaredSize ∧ (content.length ≤ 256 * 1024 → existing = content)

theorem not_keepsOnlySame (hprims : prims.imohashHex = imohashHex) (hfits : content.length ≤ u64Max)
    (hlength : other.length ≠ content.length)
    (hsamples : imohashSamples other = imohashSamples content) : ¬ KeepsOnlySame prims content := by
  intro h
  have hsame : prims.imohashHex other = prims.imohashHex content := by
    rw [hprims]
    simp only [imohashHex, hsamples]
  exact hlength (h _ _ _ _ _ _ rfl rfl (fun _ => hsamples) (kept_skips hfits hsame)).1

/-- **A file below two chunks is never taken for another; of any other, another size may be.** -/
theorem keepsOnlySame_iff (hprims : prims.imohashHex = imohashHex) (hfits : content.length ≤ u64Max) :
    KeepsOnlySame prims content ↔ content.length < 256 * 1024 := by
  constructor
  · intro h
    by_contra hlarge
    obtain ⟨other, hlength, hsamples⟩ := exists_other_size (Nat.not_lt.mp hlarge)
    exact not_keepsOnlySame hprims hfits hlength hsamples h
  · intro hsmall env source plan d setup existing henv hcontent hinj hskip
    subst henv hcontent
    obtain ⟨hsize, hdigest⟩ := hskip.digest_eq
    rw [hprims] at hdigest
    obtain rfl := eq_of_imohashSamples hsmall (hinj (imohashHex_inj hdigest))
    exact ⟨hsize.symm, fun _ => rfl⟩

/-- The digests as they are computed. -/
def digestPrims : Primitives where
  sha256Hex content := hexEncode (Sha256.sha256 content)
  imohashHex := imohashHex
  manifestTextSize text := 64 * text.entries.length
  sha256Hex_ne content h := by
    have hnil := hexEncode_injective (h.trans (show "" = hexEncode [] from rfl))
    have hlength := Sha256.length_sha256 content
    rw [hnil] at hlength
    cases hlength
  imohashHex_ne := imohashHex_ne

theorem keepsOnlySame_small : KeepsOnlySame digestPrims (spanOf "hi!") :=
  (keepsOnlySame_iff rfl (by decide)).mpr (by decide)

theorem samples_zeros {size : Nat} (h : kChunk * 2 ≤ size) (hlt : size < 2 ^ 20 + kChunk) :
    imohashSamples (List.replicate size 0) = List.replicate (kChunk * 2) 0 := by
  have hwindows : 0 = if (List.replicate size (0 : UInt8)).length = kChunk * 2 then 0
      else sampledWindows (List.replicate size (0 : UInt8)).length := by
    rw [List.length_replicate, sampledWindows_none hlt, ite_self]
  rw [imohashSamples_eq (by rwa [List.length_replicate]) hwindows, List.take_replicate,
    List.drop_replicate, List.length_replicate, List.range_zero, List.flatMap_nil, List.append_nil,
    List.replicate_append_replicate]
  have hsum : min kChunk size + (size - (size - kChunk)) = kChunk * 2 := by
    simp only [kChunk] at *
    omega
  rw [hsum]

/-- 256 KiB of zeros, and one more. -/
theorem zeros_keep_longer : ¬ KeepsOnlySame digestPrims (List.replicate (256 * 1024) 0) := by
  have hsamples : imohashSamples (List.replicate (256 * 1024 + 1) 0) =
      imohashSamples (List.replicate (256 * 1024) 0) := by
    rw [samples_zeros (by simp only [kChunk]; omega) (by simp only [kChunk]; omega),
      samples_zeros (by simp only [kChunk]; omega) (by simp only [kChunk]; omega)]
  refine not_keepsOnlySame rfl ?_ ?_ hsamples
  · rw [List.length_replicate, u64Max]
    norm_num
  · rw [List.length_replicate, List.length_replicate]
    exact Nat.succ_ne_self _

end Kiko.Transfer
