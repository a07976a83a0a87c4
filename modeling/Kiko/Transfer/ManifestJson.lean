import Kiko.Core.MessageText
import Kiko.Transfer.Manifest

/-!
# The text of the manifest (`transfer/transfer_manifest`)

Here the manifest is the JSON text it travels as, and sums and differences are those of
64 bits. `Kiko.Transfer.Manifest` reads the same functions at the level of fields and of exact
numbers, with the length of the text as a parameter; what is between the two levels is that no
sum and no difference wraps (`encodeManifestItem_eq`) and that an entry is read back from the
item written for it (`decodeManifestItem_manifestItem`).

Two levels are kept apart since they are used for different things. A transfer needs the
manifest as a list of entries, and a text in its place would put the parser into every proof
about the receiver. A codec has to be right about texts and words: which fields are written
when they are empty, which numbers are read as what type, where an attacker could make a sum
wrap. The two are connected by a lemma for each direction, and nothing else goes from one to
the other.
-/

set_option autoImplicit false

namespace Kiko.Transfer

open Json (Value)

/-! ## Fields of an object -/

/-- `manifest_string_field`. -/
def manifestStringField (object : List (String × Value)) (key : String) (fallback : String := "") :
    Except KikoError String :=
  match object.lookup key with
  | none => .ok fallback
  | some (.string value) => .ok value
  | some _ => .error ("manifest field must be a string: " ++ key)

/-- `manifest_u64_field`. A number of the library has 64 bits, and so has what is made of it. -/
def manifestU64Field (object : List (String × Value)) (key : String) (fallback : Nat := 0) :
    Except KikoError Nat :=
  match object.lookup key with
  | none => .ok fallback
  | some (.number n) =>
    if n < 0 then .error ("manifest field must be unsigned: " ++ key)
    else .ok (n.toNat % 2 ^ 64)
  | some (.string value) =>
    match parseU64Strict value with
    | some parsed => .ok parsed
    | none => .error ("manifest field must be an unsigned integer: " ++ key)
  | some _ => .error ("manifest field must be an unsigned integer: " ++ key)

/-- `manifest_u32_field`. -/
def manifestU32Field (object : List (String × Value)) (key : String) (fallback : Nat := 0) :
    Except KikoError Nat := do
  let value ← manifestU64Field object key fallback
  if 2 ^ 32 - 1 < value then throw ("manifest field is too large: " ++ key)
  return value

/-! ## Encoding

In the order of the source: the item is made, its size is added to an estimate, and the
estimate is compared with the limit before the item is appended. -/

/-- `add_manifest_size`. -/
def addManifestSizeU64 (total size : Nat) (relative : String) : Except KikoError Nat :=
  if subU64 u64Max total < size then .error ("manifest total size overflow near " ++ relative)
  else .ok (addU64 total size)

/-- What is assigned to the item of an entry, in its order. -/
def manifestItemFields (entry : TransferManifestEntry) : List (String × Option Value) :=
  [("path", some (.string entry.path)),
    ("kind", some (.string entry.kind)),
    ("size", some (.number entry.size)),
    ("imohash", if entry.imohash ≠ "" then some (.string entry.imohash) else none),
    ("target", if entry.target ≠ "" then some (.string entry.target) else none),
    ("mtime_ms", if 0 < entry.mtimeMs then some (.number entry.mtimeMs) else none),
    ("mode", if 0 < entry.mode then some (.number entry.mode) else none)]

def manifestItem (entry : TransferManifestEntry) : Value :=
  .object (KeyMap.assignSome (manifestItemFields entry) [])

/-- The object around the items. -/
def manifestRoot (version : Nat) (entries : List Value) (count totalSize : Nat) : Value :=
  .object (KeyMap.assignAll
    [("version", .number version),
      ("entries", .array entries),
      ("count", .number count),
      ("total_size", .number totalSize)] [])

/-- What `encode_transfer_manifest` has built up. -/
structure ManifestDraft where
  entries : List Value := []
  totalSize : Nat := 0
  estimatedSize : Nat := 128

/-- The `entry_size` of an entry. -/
def manifestEntrySize (entry : FileEntry) : Nat :=
  addU64 (addU64 (addU64 entry.relative.utf8ByteSize entry.linkTarget.utf8ByteSize)
    entry.imohash.utf8ByteSize) 256

/-- One round of `encode_transfer_manifest`. -/
def encodeManifestItem (draft : ManifestDraft) (entry : FileEntry) :
    Except KikoError ManifestDraft := do
  validateManifestEntryFields entry.relative (transferEntryKindName (transferEntryKind entry))
    entry.linkTarget entry.imohash
  let entrySize := manifestEntrySize entry
  if subU64 kMaxTransferManifestBytes draft.estimatedSize < entrySize then
    throw "transfer manifest is too large"
  let estimatedSize := addU64 draft.estimatedSize entrySize
  let entries := draft.entries ++ [manifestItem (manifestEntry entry)]
  if transferEntryKind entry = .file then
    let totalSize ← addManifestSizeU64 draft.totalSize entry.size entry.relative
    return ⟨entries, totalSize, estimatedSize⟩
  else return ⟨entries, draft.totalSize, estimatedSize⟩

/-- `encode_transfer_manifest`. -/
def encodeManifestJson (lib : Json.Library) (files : List FileEntry) : Except KikoError Bytes := do
  if kMaxTransferManifestEntries < files.length then
    throw "transfer manifest has too many entries"
  let draft ← files.foldlM encodeManifestItem {}
  let encoded := lib.dump (manifestRoot 1 draft.entries files.length draft.totalSize)
  if kMaxTransferManifestBytes < encoded.length then throw "transfer manifest is too large"
  return encoded

/-! ## Decoding

The parser's result is an object or it is refused. Every field is then asked for by name and
type; what is there besides is not looked at. -/

/-- One round of `decode_transfer_manifest`. -/
def decodeManifestItem (manifest : TransferManifest) (item : Value) :
    Except KikoError TransferManifest :=
  match item with
  | .object fields => do
    let path ← manifestStringField fields "path"
    let kind ← manifestStringField fields "kind" "file"
    let size ← manifestU64Field fields "size" 0
    let target ← manifestStringField fields "target"
    let imohash ← manifestStringField fields "imohash"
    let mtimeMs ← manifestU64Field fields "mtime_ms" 0
    let mode ← manifestU32Field fields "mode" 0
    validateManifestEntryFields path kind target imohash
    let entry : TransferManifestEntry :=
      { path := path
        size := size
        kind := kind
        target := target
        imohash := imohash
        mtimeMs := mtimeMs
        mode := mode }
    if kind = "file" then
      let totalSize ← addManifestSizeU64 manifest.totalSize size path
      return ⟨manifest.entries ++ [entry], totalSize⟩
    else return ⟨manifest.entries ++ [entry], manifest.totalSize⟩
  | _ => .error "transfer manifest entry must be a json object"

/-- `decode_transfer_manifest`, of the object the text is. -/
def decodeManifestRoot (root : List (String × Value)) : Except KikoError TransferManifest := do
  let version ← manifestU64Field root "version" 1
  if version ≠ 1 then throw ("unsupported transfer manifest version: " ++ toString version)
  match root.lookup "entries" with
  | some (.array items) =>
    if kMaxTransferManifestEntries < items.length then
      throw "transfer manifest has too many entries"
    let manifest ← items.foldlM decodeManifestItem ⟨[], 0⟩
    let declaredCount ← manifestU64Field root "count" manifest.entries.length
    if declaredCount ≠ manifest.entries.length then throw "transfer manifest count mismatch"
    let declaredTotal ← manifestU64Field root "total_size" manifest.totalSize
    if declaredTotal ≠ manifest.totalSize then throw "transfer manifest total_size mismatch"
    return manifest
  | _ => throw "transfer manifest missing entries"

/-- `decode_transfer_manifest`. -/
def decodeManifestJson (lib : Json.Library) (text : Bytes) : Except KikoError TransferManifest :=
  if kMaxTransferManifestBytes < text.length then .error "transfer manifest is too large"
  else match lib.parse text with
    | .error what => .error ("invalid transfer manifest json: " ++ what)
    | .ok (.object root) => decodeManifestRoot root
    | .ok _ => .error "transfer manifest must be a json object"

/-! ## The limits of an entry

What has passed is short, and it is lengths that are added to the estimate. -/

/-- What `validate_manifest_entry_fields` asks for. -/
structure TransferManifestEntry.Within (entry : TransferManifestEntry) : Prop where
  path_ne : entry.path ≠ ""
  path_nul : hasNul entry.path = false
  path_size : entry.path.utf8ByteSize ≤ kMaxTransferPathBytes
  kind_size : entry.kind.utf8ByteSize ≤ 16
  target_size : entry.target.utf8ByteSize ≤ kMaxTransferMetadataBytes
  target_nul : hasNul entry.target = false
  imohash_size : entry.imohash.utf8ByteSize ≤ 128

/-- The values of the C++ type. -/
structure TransferManifestEntry.Typed (entry : TransferManifestEntry) : Prop where
  size : entry.size ≤ u64Max
  mtimeMs : entry.mtimeMs ≤ u64Max
  mode : entry.mode ≤ 2 ^ 32 - 1

theorem within_of_validate {entry : TransferManifestEntry} {u : Unit}
    (h : validateManifestEntryFields entry.path entry.kind entry.target entry.imohash = .ok u) :
    entry.Within := by
  unfold validateManifestEntryFields at h
  split at h
  · cases h
  rename_i hpath
  split at h
  · cases h
  rename_i hnul
  split at h
  · cases h
  rename_i hpathSize
  split at h
  · cases h
  rename_i hkind
  split at h
  · cases h
  rename_i htarget
  split at h
  · cases h
  rename_i htargetNul
  split at h
  · cases h
  rename_i himohash
  exact ⟨hpath, by simpa using hnul, not_lt.mp hpathSize, not_lt.mp hkind, not_lt.mp htarget,
    by simpa using htargetNul, not_lt.mp himohash⟩

/-! ## No sum wraps

A draft is exact when each of its words is the number it stands for. A round keeps it so,
because the checks of the round come before its additions. -/

/-- The sum of the sizes that `add_manifest_size` is called with. -/
def fileBytes (entries : List TransferManifestEntry) : Nat :=
  ((entries.filter fun entry => entry.kind = "file").map (·.size)).sum

theorem fileBytes_append_singleton (entries : List TransferManifestEntry)
    (entry : TransferManifestEntry) : fileBytes (entries ++ [entry]) =
      fileBytes entries + if entry.kind = "file" then entry.size else 0 := by
  by_cases h : entry.kind = "file" <;> simp [fileBytes, h]

theorem addManifestSizeU64_eq {total : Nat} (h : total ≤ u64Max) (size : Nat) (relative : String) :
    addManifestSizeU64 total size relative = addManifestSize total size relative := by
  unfold addManifestSizeU64 addManifestSize
  rw [subU64_eq h le_rfl]
  by_cases hover : u64Max - total < size
  · rw [if_pos hover, if_pos hover]
  · rw [if_neg hover, if_neg hover, addU64_eq (by omega)]

/-- A total that was added to is exact, and has 64 bits. -/
theorem addManifestSize_ok {total total' size : Nat} {relative : String} (h : total ≤ u64Max)
    (hadd : addManifestSize total size relative = .ok total') :
    total' = total + size ∧ total' ≤ u64Max := by
  unfold addManifestSize at hadd
  by_cases hover : u64Max - total < size
  · rw [if_pos hover] at hadd
    cases hadd
  · rw [if_neg hover] at hadd
    obtain rfl := Except.ok.inj hadd
    exact ⟨rfl, by omega⟩

theorem transferEntryKindName_eq_file (kind : TransferEntryKind) :
    transferEntryKindName kind = "file" ↔ kind = .file := by
  cases kind <;> decide

/-- The entry size is exact for fields within their limits. -/
theorem manifestEntrySize_eq {entry : FileEntry} (h : (manifestEntry entry).Within) :
    manifestEntrySize entry = entry.relative.utf8ByteSize + entry.linkTarget.utf8ByteSize +
      entry.imohash.utf8ByteSize + 256 := by
  have hpath : entry.relative.utf8ByteSize ≤ 4096 := h.path_size
  have htarget : entry.linkTarget.utf8ByteSize ≤ 4096 := h.target_size
  have himohash : entry.imohash.utf8ByteSize ≤ 128 := h.imohash_size
  have hmax : u64Max = 18446744073709551615 := rfl
  have hfirst : addU64 entry.relative.utf8ByteSize entry.linkTarget.utf8ByteSize =
      entry.relative.utf8ByteSize + entry.linkTarget.utf8ByteSize := addU64_eq (by omega)
  have hsecond : addU64 (entry.relative.utf8ByteSize + entry.linkTarget.utf8ByteSize)
      entry.imohash.utf8ByteSize = entry.relative.utf8ByteSize + entry.linkTarget.utf8ByteSize +
        entry.imohash.utf8ByteSize := addU64_eq (by omega)
  rw [manifestEntrySize, hfirst, hsecond, addU64_eq (by omega)]

/-- What is known of a draft of the entries so far: its sums are exact. -/
structure ManifestDraft.Exact (draft : ManifestDraft) (files : List FileEntry) : Prop where
  entries : draft.entries = files.map fun entry => manifestItem (manifestEntry entry)
  totalSize : draft.totalSize = fileBytes (files.map manifestEntry)
  totalSize_le : draft.totalSize ≤ u64Max
  estimatedSize : draft.estimatedSize = 128 + (files.map fun entry =>
    entry.relative.utf8ByteSize + entry.linkTarget.utf8ByteSize + entry.imohash.utf8ByteSize +
      256).sum
  estimatedSize_le : draft.estimatedSize ≤ kMaxTransferManifestBytes

theorem ManifestDraft.Exact.start : Exact {} [] := ⟨rfl, rfl, Nat.zero_le _, rfl, by decide⟩

/-- A round in 64 bits is the round in exact numbers. -/
theorem encodeManifestItem_eq {draft : ManifestDraft} {files : List FileEntry} (h : draft.Exact files)
    (entry : FileEntry) : encodeManifestItem draft entry =
      (encodeManifestEntry (draft.totalSize, draft.estimatedSize) entry).map fun acc =>
        ⟨draft.entries ++ [manifestItem (manifestEntry entry)], acc.1, acc.2⟩ := by
  have hmax : kMaxTransferManifestBytes ≤ u64Max := by decide
  unfold encodeManifestItem encodeManifestEntry
  cases hvalid : validateManifestEntryFields entry.relative
      (transferEntryKindName (transferEntryKind entry)) entry.linkTarget entry.imohash with
  | error e => rfl
  | ok u =>
    have hwithin : (manifestEntry entry).Within := within_of_validate hvalid
    simp only [ok_bind, manifestEntrySize_eq hwithin, subU64_eq h.estimatedSize_le hmax,
      addManifestSizeU64_eq h.totalSize_le]
    split
    · rfl
    rename_i hsmall
    have hestimated := h.estimatedSize_le
    rw [addU64_eq (by omega)]
    by_cases hkind : transferEntryKind entry = .file
    · rw [if_pos hkind, if_pos hkind]
      cases addManifestSize draft.totalSize entry.size entry.relative <;> rfl
    · rw [if_neg hkind, if_neg hkind]
      rfl

/-- What a round of `encode_transfer_manifest` has done. -/
theorem encodeManifestEntry_ok {acc acc' : Nat × Nat} {entry : FileEntry} (htotal : acc.1 ≤ u64Max)
    (hestimated : acc.2 ≤ kMaxTransferManifestBytes)
    (h : encodeManifestEntry acc entry = .ok acc') :
    (manifestEntry entry).Within ∧
      acc'.1 = acc.1 + (if (manifestEntry entry).kind = "file" then entry.size else 0) ∧
      acc'.1 ≤ u64Max ∧
      acc'.2 = acc.2 + (entry.relative.utf8ByteSize + entry.linkTarget.utf8ByteSize +
        entry.imohash.utf8ByteSize + 256) ∧
      acc'.2 ≤ kMaxTransferManifestBytes := by
  unfold encodeManifestEntry at h
  obtain ⟨u, hvalid, h⟩ := exists_of_bind_ok h
  have hname : (manifestEntry entry).kind = "file" ↔ transferEntryKind entry = .file :=
    transferEntryKindName_eq_file _
  refine ⟨within_of_validate hvalid, ?_⟩
  simp only at h
  by_cases hlarge : kMaxTransferManifestBytes - acc.2 < entry.relative.utf8ByteSize +
      entry.linkTarget.utf8ByteSize + entry.imohash.utf8ByteSize + 256
  · rw [if_pos hlarge] at h
    cases h
  rw [if_neg hlarge] at h
  by_cases hkind : transferEntryKind entry = .file
  · rw [if_pos hkind] at h
    obtain ⟨total, hadd, h⟩ := exists_of_bind_ok h
    obtain rfl := Except.ok.inj h
    obtain ⟨rfl, hle⟩ := addManifestSize_ok htotal hadd
    rw [if_pos (hname.mpr hkind)]
    exact ⟨rfl, hle, rfl, by omega⟩
  · rw [if_neg hkind] at h
    obtain rfl := Except.ok.inj h
    rw [if_neg fun hfile => hkind (hname.mp hfile)]
    exact ⟨rfl, htotal, rfl, by omega⟩

theorem ManifestDraft.Exact.step {draft draft' : ManifestDraft} {files : List FileEntry}
    {entry : FileEntry} (h : draft.Exact files) (hs : encodeManifestItem draft entry = .ok draft') :
    draft'.Exact (files ++ [entry]) ∧ (manifestEntry entry).Within := by
  rw [encodeManifestItem_eq h] at hs
  cases hround : encodeManifestEntry (draft.totalSize, draft.estimatedSize) entry with
  | error e =>
    rw [hround] at hs
    cases hs
  | ok acc =>
    rw [hround] at hs
    obtain rfl := Except.ok.inj hs
    obtain ⟨hwithin, htotal, htotalLe, hestimated, hestimatedLe⟩ :=
      encodeManifestEntry_ok h.totalSize_le h.estimatedSize_le hround
    refine ⟨⟨?_, ?_, htotalLe, ?_, hestimatedLe⟩, hwithin⟩
    · rw [List.map_append, h.entries]
      rfl
    · rw [List.map_append]
      show acc.1 = fileBytes (files.map manifestEntry ++ [manifestEntry entry])
      rw [fileBytes_append_singleton, ← h.totalSize]
      exact htotal
    · simp only [List.map_append, List.sum_append, List.map_cons, List.map_nil, List.sum_cons,
        List.sum_nil, hestimated, h.estimatedSize]
      omega

/-- The whole loop. -/
theorem ManifestDraft.Exact.run {draft draft' : ManifestDraft} {done files : List FileEntry}
    (h : draft.Exact done) (hs : files.foldlM encodeManifestItem draft = .ok draft') :
    draft'.Exact (done ++ files) ∧ ∀ entry ∈ files, (manifestEntry entry).Within := by
  induction files generalizing draft done with
  | nil =>
    obtain rfl : draft = draft' := Except.ok.inj hs
    exact ⟨by rwa [List.append_nil], by simp⟩
  | cons entry files ih =>
    rw [List.foldlM_cons] at hs
    obtain ⟨next, hnext, hs⟩ := exists_of_bind_ok hs
    obtain ⟨hexact, hwithin⟩ := h.step hnext
    obtain ⟨hend, hall⟩ := ih hexact hs
    rw [List.append_assoc] at hend
    refine ⟨hend, ?_⟩
    rintro e (_ | ⟨_, he⟩)
    · exact hwithin
    · exact hall e he

/-! ## An item read back

An item is a list of assignments to distinct keys, some of them left out; a lookup finds the
value, or the default the decoder has for it, which is the value that was left out. -/

section ReadBack

variable {entry : TransferManifestEntry}

theorem nodup_manifestItemFields (entry : TransferManifestEntry) :
    ((manifestItemFields entry).map (·.1)).Nodup := by
  show ["path", "kind", "size", "imohash", "target", "mtime_ms", "mode"].Nodup
  decide

/-- What is looked up in an item. -/
theorem lookup_manifestItem (key : String) :
    (KeyMap.assignSome (manifestItemFields entry) []).lookup key =
      ((manifestItemFields entry).lookup key).join := by
  rw [KeyMap.lookup_assignSome (nodup_manifestItemFields entry)]
  exact Option.or_none

section Fields

variable {object : List (String × Value)} {key : String} {fallback n : Nat} {text : String}

theorem manifestStringField_of_some (h : object.lookup key = some (.string text)) (fb : String) :
    manifestStringField object key fb = .ok text := by
  rw [manifestStringField, h]

/-- A text that is left out when it is empty. -/
theorem manifestStringField_of_optional
    (h : object.lookup key = if text ≠ "" then some (.string text) else none) :
    manifestStringField object key = .ok text := by
  by_cases htext : text = ""
  · rw [if_neg (not_not.mpr htext)] at h
    rw [manifestStringField, h, htext]
  · rw [if_pos htext] at h
    exact manifestStringField_of_some h ""

theorem manifestU64Field_of_some (h : object.lookup key = some (.number n)) (hn : n ≤ u64Max) :
    manifestU64Field object key fallback = .ok n := by
  have hsigned : ¬ (n : Int) < 0 := not_lt.mpr (Int.natCast_nonneg n)
  have hlt : n < 2 ^ 64 := hn.trans_lt (by decide)
  rw [manifestU64Field, h]
  simp only [if_neg hsigned, Int.toNat_natCast, Nat.mod_eq_of_lt hlt]

/-- A number that is left out when it is zero. -/
theorem manifestU64Field_of_optional
    (h : object.lookup key = if 0 < n then some (.number n) else none) (hn : n ≤ u64Max) :
    manifestU64Field object key = .ok n := by
  by_cases hzero : 0 < n
  · rw [if_pos hzero] at h
    exact manifestU64Field_of_some h hn
  · rw [if_neg hzero] at h
    rw [manifestU64Field, h, Nat.eq_zero_of_not_pos hzero]

end Fields

/-- **An entry is read back from its item.** -/
theorem decodeManifestItem_manifestItem {manifest : TransferManifest}
    (hmanifest : manifest.totalSize ≤ u64Max) (ht : entry.Typed) :
    decodeManifestItem manifest (manifestItem entry) =
      (decodeManifestEntry manifest.totalSize entry).map fun total =>
        ⟨manifest.entries ++ [entry], total⟩ := by
  generalize hfields : KeyMap.assignSome (manifestItemFields entry) [] = fields
  have hlookup : ∀ key, fields.lookup key = ((manifestItemFields entry).lookup key).join := by
    rw [← hfields]
    exact lookup_manifestItem
  have hpath : manifestStringField fields "path" = .ok entry.path :=
    manifestStringField_of_some (hlookup "path") ""
  have hkind : manifestStringField fields "kind" "file" = .ok entry.kind :=
    manifestStringField_of_some (hlookup "kind") "file"
  have hsize : manifestU64Field fields "size" 0 = .ok entry.size :=
    manifestU64Field_of_some (hlookup "size") ht.size
  have htarget : manifestStringField fields "target" = .ok entry.target :=
    manifestStringField_of_optional (hlookup "target")
  have himohash : manifestStringField fields "imohash" = .ok entry.imohash :=
    manifestStringField_of_optional (hlookup "imohash")
  have hmtime : manifestU64Field fields "mtime_ms" 0 = .ok entry.mtimeMs :=
    manifestU64Field_of_optional (hlookup "mtime_ms") ht.mtimeMs
  have hmode : manifestU32Field fields "mode" 0 = .ok entry.mode := by
    have hu64 : manifestU64Field fields "mode" 0 = .ok entry.mode :=
      manifestU64Field_of_optional (hlookup "mode") (ht.mode.trans (by decide))
    rw [manifestU32Field, hu64, ok_bind, if_neg (not_lt.mpr ht.mode)]
    rfl
  have hmode32 : ¬ 2 ^ 32 ≤ entry.mode := by
    have := ht.mode
    omega
  unfold decodeManifestEntry
  rw [if_neg hmode32, manifestItem, hfields]
  unfold decodeManifestItem
  simp only [hpath, hkind, hsize, htarget, himohash, hmtime, hmode, ok_bind,
    addManifestSizeU64_eq hmanifest]
  cases validateManifestEntryFields entry.path entry.kind entry.target entry.imohash with
  | error e => rfl
  | ok u =>
    by_cases hfile : entry.kind = "file"
    · simp only [ok_bind, if_pos hfile]
      cases addManifestSize manifest.totalSize entry.size entry.path <;> rfl
    · simp only [ok_bind, if_neg hfile]
      rfl

end ReadBack

/-! ## What the decoder accepts

For any text at all: the entries that come out are within the limits of the encoder, and their
number and total are those that the text names. -/

theorem manifestU64Field_le {object : List (String × Value)} {key : String} {fallback n : Nat}
    (h : manifestU64Field object key fallback = .ok n) (hfallback : fallback ≤ u64Max) :
    n ≤ u64Max := by
  unfold manifestU64Field at h
  split at h
  · exact Except.ok.inj h ▸ hfallback
  · split at h
    · cases h
    · rw [← Except.ok.inj h]
      exact Nat.le_sub_one_of_lt (Nat.mod_lt _ (by decide))
  · split at h
    · rename_i hparse
      exact Except.ok.inj h ▸ parseU64Strict_le hparse
    · cases h
  · cases h

theorem manifestU32Field_le {object : List (String × Value)} {key : String} {fallback n : Nat}
    (h : manifestU32Field object key fallback = .ok n) : n ≤ 2 ^ 32 - 1 := by
  unfold manifestU32Field at h
  obtain ⟨value, -, h⟩ := exists_of_bind_ok h
  by_cases hlarge : 2 ^ 32 - 1 < value
  · rw [if_pos hlarge] at h
    cases h
  · rw [if_neg hlarge] at h
    obtain rfl := Except.ok.inj h
    exact not_lt.mp hlarge

/-- What is known of a manifest that is being read. -/
structure TransferManifest.Sound (manifest : TransferManifest) : Prop where
  typed : ∀ entry ∈ manifest.entries, entry.Typed
  within : ∀ entry ∈ manifest.entries, entry.Within
  totalSize : manifest.totalSize = fileBytes manifest.entries
  totalSize_le : manifest.totalSize ≤ u64Max

theorem TransferManifest.Sound.start : Sound ⟨[], 0⟩ :=
  ⟨by simp, by simp, rfl, Nat.zero_le _⟩

theorem TransferManifest.Sound.step {manifest manifest' : TransferManifest} {item : Value}
    (h : manifest.Sound) (hs : decodeManifestItem manifest item = .ok manifest') :
    manifest'.Sound ∧ manifest'.entries.length = manifest.entries.length + 1 := by
  unfold decodeManifestItem at hs
  split at hs
  swap
  · cases hs
  obtain ⟨path, -, hs⟩ := exists_of_bind_ok hs
  obtain ⟨kind, -, hs⟩ := exists_of_bind_ok hs
  obtain ⟨size, hsize, hs⟩ := exists_of_bind_ok hs
  obtain ⟨target, -, hs⟩ := exists_of_bind_ok hs
  obtain ⟨imohash, -, hs⟩ := exists_of_bind_ok hs
  obtain ⟨mtimeMs, hmtime, hs⟩ := exists_of_bind_ok hs
  obtain ⟨mode, hmode, hs⟩ := exists_of_bind_ok hs
  obtain ⟨u, hvalid, hs⟩ := exists_of_bind_ok hs
  generalize hentry : TransferManifestEntry.mk path size kind target imohash mtimeMs mode = entry
    at hs
  have htyped : entry.Typed := by
    rw [← hentry]
    exact ⟨manifestU64Field_le hsize (Nat.zero_le _), manifestU64Field_le hmtime (Nat.zero_le _),
      manifestU32Field_le hmode⟩
  have hwithin : entry.Within := by
    rw [← hentry]
    exact within_of_validate hvalid
  have hkind : entry.kind = kind := by rw [← hentry]
  have hentrySize : entry.size = size := by rw [← hentry]
  -- whichever the kind, the entry is appended and the total is that of all of them
  have happend : ∀ total, total = manifest.totalSize + (if entry.kind = "file" then entry.size else 0) →
      total ≤ u64Max → TransferManifest.Sound ⟨manifest.entries ++ [entry], total⟩ := by
    intro total htotal hle
    refine ⟨?_, ?_, ?_, hle⟩
    · intro e he
      rcases List.mem_append.mp he with he | he
      · exact h.typed e he
      · exact List.mem_singleton.mp he ▸ htyped
    · intro e he
      rcases List.mem_append.mp he with he | he
      · exact h.within e he
      · exact List.mem_singleton.mp he ▸ hwithin
    · rw [fileBytes_append_singleton, ← h.totalSize]
      exact htotal
  by_cases hfile : kind = "file"
  · rw [if_pos hfile] at hs
    obtain ⟨total, hadd, hs⟩ := exists_of_bind_ok hs
    obtain rfl := Except.ok.inj hs
    rw [addManifestSizeU64_eq h.totalSize_le] at hadd
    obtain ⟨htotal, hle⟩ := addManifestSize_ok h.totalSize_le hadd
    refine ⟨happend total ?_ hle, by simp⟩
    rw [hkind, if_pos hfile, hentrySize, htotal]
  · rw [if_neg hfile] at hs
    obtain rfl := Except.ok.inj hs
    refine ⟨happend _ ?_ h.totalSize_le, by simp⟩
    rw [hkind, if_neg hfile, Nat.add_zero]

theorem TransferManifest.Sound.run {manifest manifest' : TransferManifest} {items : List Value}
    (h : manifest.Sound) (hs : items.foldlM decodeManifestItem manifest = .ok manifest') :
    manifest'.Sound ∧ manifest'.entries.length = manifest.entries.length + items.length := by
  induction items generalizing manifest with
  | nil =>
    obtain rfl : manifest = manifest' := Except.ok.inj hs
    exact ⟨h, rfl⟩
  | cons item items ih =>
    rw [List.foldlM_cons] at hs
    obtain ⟨next, hnext, hs⟩ := exists_of_bind_ok hs
    obtain ⟨hsound, hlen⟩ := h.step hnext
    obtain ⟨hend, hlen'⟩ := ih hsound hs
    refine ⟨hend, ?_⟩
    rw [hlen', hlen, List.length_cons]
    omega

/-! ## The text and its fields

The same for the text as for its fields, by way of the JSON writer and parser of
`Kiko.Lib.Json`. -/

/-- The object of a manifest given by its fields. -/
def manifestValue (text : ManifestText) : Value :=
  manifestRoot text.version (text.entries.map manifestItem) text.count text.totalSize

/-- The values of the C++ types. -/
structure ManifestText.Typed (text : ManifestText) : Prop where
  version : text.version ≤ u64Max
  entries : ∀ entry ∈ text.entries, entry.Typed
  count : text.count ≤ u64Max
  totalSize : text.totalSize ≤ u64Max

theorem plain_natCast {n : Nat} (h : n ≤ u64Max) : Json.Plain (.number n) := by
  have hmax : u64Max = 18446744073709551615 := rfl
  exact .number (by omega) (by omega)

theorem plain_manifestItem {entry : TransferManifestEntry} (ht : entry.Typed) :
    Json.Plain (manifestItem entry) := by
  have hmap : KeyMap.IsMap (KeyMap.assignSome (manifestItemFields entry) []) :=
    KeyMap.isMap_nil.assignSome _
  refine .object hmap fun f hf => ?_
  obtain ⟨key, v⟩ := f
  rw [← hmap.lookup_eq_some, lookup_manifestItem, Option.join_eq_some_iff] at hf
  have hmem : (key, some v) ∈ manifestItemFields entry := by
    obtain ⟨l₁, l₂, hl, -⟩ := List.lookup_eq_some_iff.mp hf
    rw [hl]
    exact List.mem_append_right _ List.mem_cons_self
  -- a field is a text or a number of 64 bits, when it is there
  have hnumber : ∀ {n : Nat}, n ≤ u64Max → some v = some (Value.number n) → Json.Plain v := by
    intro n hn h
    obtain rfl := Option.some.inj h
    exact plain_natCast hn
  have htext : ∀ {s : String}, some v = some (Value.string s) → Json.Plain v := by
    intro s h
    obtain rfl := Option.some.inj h
    exact .string s
  have hoptional : ∀ {c : Prop} [Decidable c] {w : Value},
      some v = (if c then some w else none) → some v = some w := by
    intro c _ w h
    by_cases hc : c
    · rwa [if_pos hc] at h
    · rw [if_neg hc] at h
      cases h
  simp only [manifestItemFields, List.mem_cons, List.not_mem_nil, or_false, Prod.mk.injEq] at hmem
  rcases hmem with h | h | h | h | h | h | h
  · exact htext h.2
  · exact htext h.2
  · exact hnumber ht.size h.2
  · exact htext (hoptional h.2)
  · exact htext (hoptional h.2)
  · exact hnumber ht.mtimeMs (hoptional h.2)
  · exact hnumber (ht.mode.trans (by decide)) (hoptional h.2)

theorem plain_manifestValue {text : ManifestText} (ht : text.Typed) :
    Json.Plain (manifestValue text) := by
  refine .object (KeyMap.isMap_nil.assignAll _) fun f hf => ?_
  rcases KeyMap.mem_assignAll hf with hf | hf
  · simp only [List.mem_cons, List.not_mem_nil, or_false] at hf
    rcases hf with rfl | rfl | rfl | rfl
    · exact plain_natCast ht.version
    · refine .array fun v hv => ?_
      obtain ⟨entry, he, rfl⟩ := List.mem_map.mp hv
      exact plain_manifestItem (ht.entries entry he)
    · exact plain_natCast ht.count
    · exact plain_natCast ht.totalSize
  · cases hf

/-- The entries are read back one after the other. -/
theorem foldlM_decodeManifestItem {entries : List TransferManifestEntry}
    {manifest : TransferManifest} (hmanifest : manifest.totalSize ≤ u64Max)
    (ht : ∀ entry ∈ entries, entry.Typed) :
    (entries.map manifestItem).foldlM decodeManifestItem manifest =
      (entries.foldlM decodeManifestEntry manifest.totalSize).map fun total =>
        ⟨manifest.entries ++ entries, total⟩ := by
  induction entries generalizing manifest with
  | nil =>
    show Except.ok manifest = Except.ok ⟨manifest.entries ++ [], manifest.totalSize⟩
    rw [List.append_nil]
  | cons entry entries ih =>
    rw [List.map_cons, List.foldlM_cons, List.foldlM_cons,
      decodeManifestItem_manifestItem hmanifest (ht entry List.mem_cons_self)]
    cases hround : decodeManifestEntry manifest.totalSize entry with
    | error e => rfl
    | ok total =>
      have htotal : total ≤ u64Max := by
        unfold decodeManifestEntry at hround
        split at hround
        · cases hround
        obtain ⟨_, -, hround⟩ := exists_of_bind_ok hround
        split at hround
        · exact (addManifestSize_ok hmanifest hround).2
        · exact Except.ok.inj hround ▸ hmanifest
      simp only [Except.map, ok_bind]
      refine (ih htotal fun e he => ht e (List.mem_cons_of_mem _ he)).trans ?_
      rw [List.append_assoc]
      rfl

/-- What is looked up in the object. -/
theorem lookup_manifestRoot (version count totalSize : Nat) (entries : List Value) :
    ∃ root, manifestRoot version entries count totalSize = .object root ∧
      root.lookup "version" = some (.number version) ∧
      root.lookup "entries" = some (.array entries) ∧
      root.lookup "count" = some (.number count) ∧
      root.lookup "total_size" = some (.number totalSize) := by
  refine ⟨_, rfl, ?_⟩
  simp [KeyMap.assignAll, KeyMap.lookup_assign]

/-- **Decoding, of the text written for it, is decoding of the fields.** -/
theorem decodeManifestJson_dump {lib : Json.Library} {prims : Primitives} {text : ManifestText}
    (hsize : prims.manifestTextSize text = (lib.dump (manifestValue text)).length)
    (ht : text.Typed) :
    decodeManifestJson lib (lib.dump (manifestValue text)) = decodeTransferManifest prims text := by
  obtain ⟨root, hroot, hversion, hentries, hcount, htotal⟩ := lookup_manifestRoot text.version
    text.count text.totalSize (text.entries.map manifestItem)
  have hparse : lib.parse (lib.dump (manifestValue text)) = .ok (.object root) := by
    rw [lib.parse_dump _ (plain_manifestValue ht), manifestValue, hroot]
  unfold decodeManifestJson decodeTransferManifest
  rw [hsize]
  by_cases hlarge : kMaxTransferManifestBytes < (lib.dump (manifestValue text)).length
  · rw [if_pos hlarge, if_pos hlarge]
  rw [if_neg hlarge, if_neg hlarge, hparse]
  have hread : manifestU64Field root "version" 1 = .ok text.version :=
    manifestU64Field_of_some hversion ht.version
  unfold decodeManifestRoot
  simp only [hread, ok_bind, hentries]
  by_cases hone : text.version ≠ 1
  · rw [if_pos hone, if_pos hone]
    rfl
  rw [if_neg hone, if_neg hone, List.length_map]
  by_cases hmany : kMaxTransferManifestEntries < text.entries.length
  · rw [if_pos hmany, if_pos hmany]
    rfl
  rw [if_neg hmany, if_neg hmany, foldlM_decodeManifestItem (Nat.zero_le _) ht.entries]
  cases hfold : text.entries.foldlM decodeManifestEntry 0 with
  | error e => rfl
  | ok total =>
    simp only [Except.map, ok_bind, List.nil_append, manifestU64Field_of_some hcount ht.count,
      manifestU64Field_of_some htotal ht.totalSize]
    by_cases hmiscount : text.count ≠ text.entries.length
    · rw [if_pos hmiscount, if_pos hmiscount]
      rfl
    rw [if_neg hmiscount, if_neg hmiscount]
    by_cases hmissize : text.totalSize ≠ total
    · rw [if_pos hmissize, if_pos hmissize]
      rfl
    · rw [if_neg hmissize, if_neg hmissize]
      rfl

/-- The rounds of the encoder, in 64 bits and in exact numbers. -/
theorem foldlM_encodeManifestItem {files done : List FileEntry} {draft : ManifestDraft}
    (h : draft.Exact done) : files.foldlM encodeManifestItem draft =
      (files.foldlM encodeManifestEntry (draft.totalSize, draft.estimatedSize)).map fun acc =>
        ⟨draft.entries ++ (files.map manifestEntry).map manifestItem, acc.1, acc.2⟩ := by
  induction files generalizing draft done with
  | nil =>
    show Except.ok draft = Except.ok ⟨draft.entries ++ [], draft.totalSize, draft.estimatedSize⟩
    rw [List.append_nil]
  | cons entry files ih =>
    rw [List.foldlM_cons, List.foldlM_cons, encodeManifestItem_eq h]
    cases hround : encodeManifestEntry (draft.totalSize, draft.estimatedSize) entry with
    | error e => rfl
    | ok acc =>
      have hnext := encodeManifestItem_eq h entry
      rw [hround] at hnext
      simp only [Except.map, ok_bind]
      rw [ih (h.step hnext).1, List.map_cons, List.map_cons, List.append_assoc]
      rfl

/-- **Encoding is encoding of the fields, written.** -/
theorem encodeManifestJson_eq {lib : Json.Library} {prims : Primitives}
    (hsize : ∀ text, prims.manifestTextSize text = (lib.dump (manifestValue text)).length)
    (files : List FileEntry) : encodeManifestJson lib files =
      (encodeTransferManifest prims files).map fun text => lib.dump (manifestValue text) := by
  unfold encodeManifestJson encodeTransferManifest
  by_cases hmany : kMaxTransferManifestEntries < files.length
  · rw [if_pos hmany, if_pos hmany]
    rfl
  rw [if_neg hmany, if_neg hmany]
  dsimp only
  rw [foldlM_encodeManifestItem .start]
  cases hfold : files.foldlM encodeManifestEntry (0, 128) with
  | error e => rfl
  | ok acc =>
    simp only [Except.map, ok_bind, List.nil_append, hsize, manifestValue]
    split
    · rfl
    · rfl

/-! ## Both ways -/

/-- What the encoder lets pass, the decoder lets pass, with the same total. -/
theorem foldlM_decodeManifestEntry {files : List FileEntry} {acc acc' : Nat × Nat}
    (ht : ∀ entry ∈ files, (manifestEntry entry).Typed)
    (h : files.foldlM encodeManifestEntry acc = .ok acc') :
    (files.map manifestEntry).foldlM decodeManifestEntry acc.1 = .ok acc'.1 := by
  induction files generalizing acc with
  | nil =>
    obtain rfl : acc = acc' := Except.ok.inj h
    rfl
  | cons entry files ih =>
    rw [List.foldlM_cons] at h
    obtain ⟨next, hnext, h⟩ := exists_of_bind_ok h
    have hround : decodeManifestEntry acc.1 (manifestEntry entry) = .ok next.1 := by
      have hmode : ¬ 2 ^ 32 ≤ (manifestEntry entry).mode := by
        have := (ht entry List.mem_cons_self).mode
        omega
      have hname : (manifestEntry entry).kind = "file" ↔ transferEntryKind entry = .file :=
        transferEntryKindName_eq_file _
      unfold encodeManifestEntry at hnext
      obtain ⟨u, hvalid, hnext⟩ := exists_of_bind_ok hnext
      have hvalid' : validateManifestEntryFields (manifestEntry entry).path
          (manifestEntry entry).kind (manifestEntry entry).target (manifestEntry entry).imohash =
            .ok u := hvalid
      simp only at hnext
      split at hnext
      · cases hnext
      rw [decodeManifestEntry, if_neg hmode, hvalid', ok_bind]
      by_cases hkind : transferEntryKind entry = .file
      · rw [if_pos hkind] at hnext
        obtain ⟨total, hadd, hnext⟩ := exists_of_bind_ok hnext
        obtain rfl := Except.ok.inj hnext
        rw [if_pos (hname.mpr hkind)]
        exact hadd
      · rw [if_neg hkind] at hnext
        obtain rfl := Except.ok.inj hnext
        rw [if_neg fun hfile => hkind (hname.mp hfile)]
    rw [List.map_cons, List.foldlM_cons, hround]
    exact ih (fun e he => ht e (List.mem_cons_of_mem _ he)) h

/-- The sum of the sizes of the files. -/
theorem fileBytes_map_manifestEntry (files : List FileEntry) :
    fileBytes (files.map manifestEntry) =
      ((files.filter fun entry => transferEntryKind entry = .file).map (·.size)).sum := by
  induction files with
  | nil => rfl
  | cons entry files ih =>
    have hname : (manifestEntry entry).kind = "file" ↔ transferEntryKind entry = .file :=
      transferEntryKindName_eq_file _
    unfold fileBytes at ih ⊢
    by_cases hkind : transferEntryKind entry = .file
    · simp only [List.map_cons, List.filter_cons, hname.mpr hkind, hkind, decide_true, if_true,
        List.sum_cons, ih]
      rfl
    · have hother : ¬ (manifestEntry entry).kind = "file" := fun hfile => hkind (hname.mp hfile)
      rw [List.map_cons, List.filter_cons_of_neg (by simpa using hother),
        List.filter_cons_of_neg (by simpa using hkind), ih]

/-- The exact functions with the length of this text; they make no digests. -/
def textPrims (lib : Json.Library) : Primitives where
  sha256Hex _ := "-"
  imohashHex _ := "-"
  manifestTextSize text := (lib.dump (manifestValue text)).length
  sha256Hex_ne := by simp
  imohashHex_ne := by simp

theorem textPrims_size (lib : Json.Library) (text : ManifestText) :
    (textPrims lib).manifestTextSize text = (lib.dump (manifestValue text)).length := rfl

/-- **A manifest that was encoded is decoded as it was.** -/
theorem decodeManifestJson_encodeManifestJson {lib : Json.Library} {files : List FileEntry}
    {text : Bytes} (ht : ∀ entry ∈ files, (manifestEntry entry).Typed)
    (h : encodeManifestJson lib files = .ok text) :
    decodeManifestJson lib text = .ok
      ⟨files.map manifestEntry,
        ((files.filter fun entry => transferEntryKind entry = .file).map (·.size)).sum⟩ := by
  rw [encodeManifestJson_eq (textPrims_size lib)] at h
  cases hencode : encodeTransferManifest (textPrims lib) files with
  | error e =>
    rw [hencode] at h
    cases h
  | ok fields =>
    rw [hencode] at h
    obtain rfl := Except.ok.inj h
    unfold encodeTransferManifest at hencode
    split at hencode
    · cases hencode
    rename_i hmany
    obtain ⟨⟨total, estimated⟩, hfold, hencode⟩ := exists_of_bind_ok hencode
    simp only at hencode
    split at hencode
    · cases hencode
    rename_i hlarge
    obtain rfl := Except.ok.inj hencode
    have hdecode := foldlM_decodeManifestEntry ht hfold
    have hdraft : files.foldlM encodeManifestItem {} =
        .ok ⟨(files.map manifestEntry).map manifestItem, total, estimated⟩ := by
      rw [foldlM_encodeManifestItem .start, hfold]
      rfl
    obtain ⟨hexact, -⟩ := ManifestDraft.Exact.start.run hdraft
    have htotal : total = fileBytes (files.map manifestEntry) := hexact.totalSize
    have htyped : ManifestText.Typed
        { entries := files.map manifestEntry, count := files.length, totalSize := total } := by
      refine ⟨(by decide : 1 ≤ u64Max), ?_, (not_lt.mp hmany).trans (by decide), hexact.totalSize_le⟩
      intro entry hentry
      obtain ⟨file, hfile, rfl⟩ := List.mem_map.mp hentry
      exact ht file hfile
    rw [decodeManifestJson_dump (textPrims_size lib _) htyped]
    unfold decodeTransferManifest
    rw [if_neg hlarge]
    simp only [ne_eq, not_true, if_false, List.length_map, if_neg hmany, hdecode, ok_bind]
    rw [htotal, fileBytes_map_manifestEntry]

/-- What a decoder that accepts a text has found in it. -/
theorem decodeManifestJson_ok {lib : Json.Library} {text : Bytes} {manifest : TransferManifest}
    (h : decodeManifestJson lib text = .ok manifest) :
    manifest.Sound ∧ manifest.entries.length ≤ kMaxTransferManifestEntries ∧
      ∃ root, lib.parse text = .ok (.object root) ∧
        manifestU64Field root "count" manifest.entries.length = .ok manifest.entries.length ∧
        manifestU64Field root "total_size" manifest.totalSize = .ok manifest.totalSize := by
  unfold decodeManifestJson at h
  split at h
  · cases h
  split at h
  · cases h
  swap
  · cases h
  rename_i root hparse
  unfold decodeManifestRoot at h
  obtain ⟨version, -, h⟩ := exists_of_bind_ok h
  by_cases hversion : version ≠ 1
  · rw [if_pos hversion] at h
    cases h
  rw [if_neg hversion] at h
  dsimp only at h
  split at h
  swap
  · cases h
  rename_i items _
  by_cases hmany : kMaxTransferManifestEntries < items.length
  · rw [if_pos hmany] at h
    cases h
  rw [if_neg hmany] at h
  obtain ⟨decoded, hfold, h⟩ := exists_of_bind_ok h
  obtain ⟨count, hcount, h⟩ := exists_of_bind_ok h
  by_cases hsame : count ≠ decoded.entries.length
  · rw [if_pos hsame] at h
    cases h
  rw [if_neg hsame] at h
  obtain ⟨total, htotal, h⟩ := exists_of_bind_ok h
  by_cases hsameTotal : total ≠ decoded.totalSize
  · rw [if_pos hsameTotal] at h
    cases h
  rw [if_neg hsameTotal] at h
  obtain rfl := Except.ok.inj h
  obtain ⟨hsound, hlen⟩ := TransferManifest.Sound.start.run hfold
  rw [not_not] at hsame hsameTotal
  refine ⟨hsound, ?_, root, hparse, hsame ▸ hcount, hsameTotal ▸ htotal⟩
  rw [hlen]
  simpa using hmany

/-- **The manifest's text.** Whatever list of entries is encoded is decoded as itself, in its
    order, with the sum of its files' sizes. Whatever text is accepted holds no more entries than
    are allowed, each within the limits of its fields, and says their number and the sum of their
    files' sizes. And on neither side a sum or a difference wraps: the totals are those of exact
    numbers, in every round. -/
theorem manifest_codec (lib : Json.Library) :
    (∀ (files : List FileEntry) (text : Bytes), (∀ entry ∈ files, (manifestEntry entry).Typed) →
      encodeManifestJson lib files = .ok text →
      decodeManifestJson lib text = .ok
        ⟨files.map manifestEntry,
          ((files.filter fun entry => transferEntryKind entry = .file).map (·.size)).sum⟩) ∧
    (∀ (text : Bytes) (manifest : TransferManifest), decodeManifestJson lib text = .ok manifest →
      manifest.entries.length ≤ kMaxTransferManifestEntries ∧
      (∀ entry ∈ manifest.entries, entry.Within ∧ entry.Typed) ∧
      manifest.totalSize = fileBytes manifest.entries ∧
      ∃ root, lib.parse text = .ok (.object root) ∧
        manifestU64Field root "count" manifest.entries.length = .ok manifest.entries.length ∧
        manifestU64Field root "total_size" manifest.totalSize = .ok manifest.totalSize) ∧
    (∀ (files : List FileEntry) (draft : ManifestDraft) (entry : FileEntry),
      files.foldlM encodeManifestItem {} = .ok draft →
      draft.Exact files ∧ encodeManifestItem draft entry =
        (encodeManifestEntry (draft.totalSize, draft.estimatedSize) entry).map fun acc =>
          ⟨draft.entries ++ [manifestItem (manifestEntry entry)], acc.1, acc.2⟩) ∧
    ∀ (items : List Value) (manifest : TransferManifest) (size : Nat) (path : String),
      items.foldlM decodeManifestItem ⟨[], 0⟩ = .ok manifest →
      manifest.totalSize = fileBytes manifest.entries ∧ manifest.totalSize ≤ u64Max ∧
      addManifestSizeU64 manifest.totalSize size path =
        addManifestSize manifest.totalSize size path := by
  refine ⟨fun files text ht h => decodeManifestJson_encodeManifestJson ht h, ?_, ?_, ?_⟩
  · intro text manifest h
    obtain ⟨hsound, hlen, hroot⟩ := decodeManifestJson_ok h
    exact ⟨hlen, fun entry he => ⟨hsound.within entry he, hsound.typed entry he⟩,
      hsound.totalSize, hroot⟩
  · intro files draft entry h
    have hexact : draft.Exact files := by
      simpa using (ManifestDraft.Exact.start.run h).1
    exact ⟨hexact, encodeManifestItem_eq hexact entry⟩
  · intro items manifest size path h
    have hsound := (TransferManifest.Sound.start.run h).1
    exact ⟨hsound.totalSize, hsound.totalSize_le, addManifestSizeU64_eq hsound.totalSize_le _ _⟩

/-- A directory with a file and a link to it. -/
def sampleEntries : List FileEntry :=
  [{ absolute := "/home/docs", relative := "docs/" },
   { absolute := "/home/docs/a", relative := "docs/a", size := 3, imohash := "7532", mtimeMs := 1,
     mode := 73 },
   { absolute := "/home/docs/b", relative := "docs/b", symlink := true, linkTarget := "a" }]

theorem manifest_codec_sample : ∃ text, encodeManifestJson Json.compact sampleEntries = .ok text ∧
    decodeManifestJson Json.compact text = .ok ⟨sampleEntries.map manifestEntry, 3⟩ := by
  have hok : (encodeManifestJson Json.compact sampleEntries).isOk = true := by decide +kernel
  have htyped : ∀ entry ∈ sampleEntries, (manifestEntry entry).Typed := by
    intro entry hentry
    simp only [sampleEntries, List.mem_cons, List.not_mem_nil, or_false] at hentry
    rcases hentry with rfl | rfl | rfl <;> exact ⟨by decide, by decide, by decide⟩
  cases hencode : encodeManifestJson Json.compact sampleEntries with
  | error e =>
    rw [hencode] at hok
    cases hok
  | ok text =>
    refine ⟨text, rfl, ?_⟩
    rw [(manifest_codec Json.compact).1 sampleEntries text htyped hencode]
    rfl

end Kiko.Transfer
