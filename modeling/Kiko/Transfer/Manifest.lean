import Kiko.Transfer.ReceivePaths

/-!
# Entries and the manifest (`transfer/transfer.hpp`, `transfer/transfer_manifest`)

What the sender has collected, and the manifest it announces it with. The manifest is
modelled by its fields; its JSON text matters only through its length, which is a
parameter.

A `Source` is an entry together with what its file holds, for a sender that is honest
about it: size and sampled digest are those of the content.

Sender and receiver hold a manifest to the same limits: of its text, of the number of
its entries, of a path and of the metadata of one entry. Numbers are exact here;
`Kiko.Transfer.ManifestJson` has them in 64 bits and shows that it makes no difference.
-/

set_option autoImplicit false

namespace Kiko.Transfer

open Lexical FileTree

structure FileEntry where
  absolute : String
  relative : String
  size : Nat := 0
  imohash : String := ""
  mtimeMs : Nat := 0
  mode : Nat := 0
  symlink : Bool := false
  linkTarget : String := ""
deriving DecidableEq, Repr

inductive TransferEntryKind
  | file
  | directory
  | symlink
deriving DecidableEq, Repr

/-- `transfer_entry_kind`. -/
def transferEntryKind (entry : FileEntry) : TransferEntryKind :=
  if entry.symlink then .symlink
  else if entry.size = 0 ∧ entry.relative ≠ "" ∧ endsInSlash entry.relative = true then .directory
  else .file

/-- `transfer_entry_kind_name`. -/
def transferEntryKindName : TransferEntryKind → String
  | .file => "file"
  | .directory => "dir"
  | .symlink => "symlink"

/-- An entry and its content, of a sender whose sources do not change. -/
structure Source (prims : Primitives) where
  entry : FileEntry
  content : Bytes
  size_eq : transferEntryKind entry = .file → entry.size = content.length
  size_le : entry.size ≤ u64Max
  imohash_eq : transferEntryKind entry = .file → entry.imohash = prims.imohashHex content

/-! ## The manifest

Encoding and decoding are loops with a round for each entry, and each is written as the
round and the fold over it, so that what holds of a round can be carried along. -/

def kMaxTransferManifestBytes : Nat := 16 * 1024 * 1024
def kMaxTransferManifestEntries : Nat := 65536
def kMaxTransferPathBytes : Nat := 4096
def kMaxTransferMetadataBytes : Nat := 4096

/-- `TransferManifest`. -/
structure TransferManifest where
  entries : List TransferManifestEntry
  totalSize : Nat
deriving DecidableEq, Repr

/-- `validate_manifest_entry_fields`. -/
def validateManifestEntryFields (path kind target imohash : String) : Except KikoError Unit :=
  if path = "" then .error "transfer manifest entry missing path"
  else if hasNul path then .error "transfer manifest path contains a null byte"
  else if kMaxTransferPathBytes < path.utf8ByteSize then
    .error "transfer manifest path is too long"
  else if 16 < kind.utf8ByteSize then .error "transfer manifest kind is too long"
  else if kMaxTransferMetadataBytes < target.utf8ByteSize then
    .error "transfer manifest symlink target is too long"
  else if hasNul target then .error "transfer manifest symlink target contains a null byte"
  else if 128 < imohash.utf8ByteSize then .error "transfer manifest imohash is too long"
  else .ok ()

/-- `add_manifest_size`. -/
def addManifestSize (total size : Nat) (relative : String) : Except KikoError Nat :=
  if u64Max - total < size then .error ("manifest total size overflow near " ++ relative)
  else .ok (total + size)

/-- The manifest entry of an entry. -/
def manifestEntry (entry : FileEntry) : TransferManifestEntry :=
  { path := entry.relative
    size := entry.size
    kind := transferEntryKindName (transferEntryKind entry)
    target := entry.linkTarget
    imohash := entry.imohash
    mtimeMs := entry.mtimeMs
    mode := entry.mode }

/-- One round of `encode_transfer_manifest`: the total and the estimated size so far. -/
def encodeManifestEntry (acc : Nat × Nat) (entry : FileEntry) : Except KikoError (Nat × Nat) := do
  validateManifestEntryFields entry.relative (transferEntryKindName (transferEntryKind entry))
    entry.linkTarget entry.imohash
  let entrySize := entry.relative.utf8ByteSize + entry.linkTarget.utf8ByteSize +
    entry.imohash.utf8ByteSize + 256
  if kMaxTransferManifestBytes - acc.2 < entrySize then .error "transfer manifest is too large"
  else if transferEntryKind entry = .file then
    return (← addManifestSize acc.1 entry.size entry.relative, acc.2 + entrySize)
  else return (acc.1, acc.2 + entrySize)

/-- `encode_transfer_manifest`. -/
def encodeTransferManifest (prims : Primitives) (files : List FileEntry) :
    Except KikoError ManifestText := do
  if kMaxTransferManifestEntries < files.length then
    .error "transfer manifest has too many entries"
  else
    let (total, _) ← files.foldlM encodeManifestEntry (0, 128)
    let text : ManifestText :=
      { entries := files.map manifestEntry, count := files.length, totalSize := total }
    if kMaxTransferManifestBytes < prims.manifestTextSize text then .error "transfer manifest is too large"
    else .ok text

/-- One round of `decode_transfer_manifest`. -/
def decodeManifestEntry (total : Nat) (entry : TransferManifestEntry) : Except KikoError Nat := do
  if 2 ^ 32 ≤ entry.mode then .error "manifest field is too large: mode"
  else
    validateManifestEntryFields entry.path entry.kind entry.target entry.imohash
    if entry.kind = "file" then addManifestSize total entry.size entry.path else .ok total

/-- `decode_transfer_manifest`. -/
def decodeTransferManifest (prims : Primitives) (text : ManifestText) :
    Except KikoError TransferManifest := do
  if kMaxTransferManifestBytes < prims.manifestTextSize text then .error "transfer manifest is too large"
  else if text.version ≠ 1 then
    .error ("unsupported transfer manifest version: " ++ toString text.version)
  else if kMaxTransferManifestEntries < text.entries.length then
    .error "transfer manifest has too many entries"
  else
    let total ← text.entries.foldlM decodeManifestEntry 0
    if text.count ≠ text.entries.length then .error "transfer manifest count mismatch"
    else if text.totalSize ≠ total then .error "transfer manifest total_size mismatch"
    else .ok { entries := text.entries, totalSize := total }

end Kiko.Transfer
