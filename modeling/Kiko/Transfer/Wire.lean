import Kiko.Core.Protocol
import Kiko.Lib.Pieces

/-!
# The frames of a transfer (`transfer/transfer_stream`)

A transfer speaks in tagged frames: a `StreamTag` and a payload. Header, trailer and the
resume messages are control messages, so they are modelled as such; the payload of a
data frame stays bytes, since the parallel path packs a chunk's offset and length into
it (`putU64`, `putU32`), and unpacking what was packed gives it back
(`readU64_putU64`, `readU32_putU32`).

A frame is what `recv_stream_frame` returns, not bytes: the length prefix and the tag
byte belong to `Kiko.Core.TimedFrames` and are not modelled twice. Compression is a
parameter, with the one law the code relies on as a field, so that no result depends on
the format of a compressed block.
-/

set_option autoImplicit false

namespace Kiko.Transfer

/-- The read buffer of the single-stream path. -/
def kPlainChunk : Nat := 128 * 1024

/-- The largest chunk of the parallel path, and its read buffer. -/
def kMuxChunk : Nat := 256 * 1024

theorem kPlainChunk_pos : 0 < kPlainChunk := by decide

theorem kMuxChunk_pos : 0 < kMuxChunk := by decide

/-- `kEmptySha256`. -/
def kEmptySha256 : String :=
  "e3b0c44298fc1c149afbf4c8996fb92427ae41e4649b934ca495991b7852b855"

/-! ## Frames

One constructor for each tag, with the payload as the reader decodes it. A channel that
has a capacity blocks its sender; `hasRoom` is where that is asked, and every result
about runs quantifies over the capacities. -/

/-- `TransferManifestEntry`. -/
structure TransferManifestEntry where
  path : String
  size : Nat := 0
  kind : String
  target : String := ""
  imohash : String := ""
  mtimeMs : Nat := 0
  mode : Nat := 0
deriving DecidableEq, Repr

/-- The manifest as it is sent: the entries, and what the sender says they amount to. -/
structure ManifestText where
  version : Nat := 1
  entries : List TransferManifestEntry
  count : Nat
  totalSize : Nat
deriving DecidableEq, Repr

/-- A frame, by its `StreamTag`. -/
inductive Frame
  | fileHeader (header : Message)
  | data (payload : Bytes)
  | fileEnd (trailer : Message)
  | done
  | resume (request : Message)
  | chunkEnd
  | ack
  | resumeAck (answer : Message)
  | manifest (text : ManifestText)
deriving DecidableEq, Repr

/-- A channel with capacity `cap` (none: unbounded) takes one more frame. -/
def hasRoom (cap : Option Nat) (chan : List Frame) : Bool := cap.all (chan.length < ·)

theorem hasRoom_nil {cap : Option Nat} (h : ∀ c, cap = some c → 0 < c) : hasRoom cap [] = true := by
  cases cap with
  | none => rfl
  | some c => simpa [hasRoom] using h c rfl

/-- A chunk of a file (`SendFileChunk`), with its offset. -/
abbrev Chunk := Pieces.Piece UInt8

/-- `ensure_declared_space`. -/
def ensureDeclaredSpace (currentTotal declaredSize nextSize : Nat) (relative : String) :
    Except KikoError Unit :=
  if declaredSize < currentTotal ∨ declaredSize - currentTotal < nextSize then
    .error ("received more data than declared for " ++ relative)
  else .ok ()

theorem ensureDeclaredSpace_ok {currentTotal declaredSize nextSize : Nat} {relative : String}
    (h : currentTotal + nextSize ≤ declaredSize) :
    ensureDeclaredSpace currentTotal declaredSize nextSize relative = .ok () :=
  if_neg (by omega)

/-! ## Numbers in a payload

Big endian, of a fixed width. Written and read for a width `w` once; the code's two
functions are the widths 8 and 4. -/

/-- The `w` low bytes of `v`, the highest first. -/
def putBytes : Nat → Nat → Bytes
  | 0, _ => []
  | w + 1, v => UInt8.ofNat (v / 256 ^ w) :: putBytes w v

/-- Bytes read as a number, the highest first. -/
def readBytes (bytes : Bytes) : Nat := bytes.foldl (fun v b => v * 256 + b.toNat) 0

/-- `put_u64`. -/
def putU64 (value : Nat) : Bytes := putBytes 8 value

/-- `put_u32`. -/
def putU32 (value : Nat) : Bytes := putBytes 4 value

/-- `read_u64`, from the front of a payload. -/
def readU64 (payload : Bytes) : Nat := readBytes (payload.take 8)

/-- `read_u32`, from the front of a payload. -/
def readU32 (payload : Bytes) : Nat := readBytes (payload.take 4)

@[simp] theorem length_putBytes (w v : Nat) : (putBytes w v).length = w := by
  induction w with
  | zero => rfl
  | succ w ih => simp [putBytes, ih]

theorem foldl_putBytes (w v acc : Nat) :
    (putBytes w v).foldl (fun v b => v * 256 + b.toNat) acc = acc * 256 ^ w + v % 256 ^ w := by
  induction w generalizing acc with
  | zero => simp [putBytes, Nat.mod_one]
  | succ w ih =>
    have hbyte : (UInt8.ofNat (v / 256 ^ w)).toNat = v / 256 ^ w % 256 := by simp
    rw [putBytes, List.foldl_cons, ih, hbyte, Nat.pow_succ, Nat.mod_mul]
    ring

/-- What fits in the width survives it. -/
theorem readBytes_putBytes {w v : Nat} (h : v < 256 ^ w) : readBytes (putBytes w v) = v := by
  rw [readBytes, foldl_putBytes, Nat.mod_eq_of_lt h, Nat.zero_mul, Nat.zero_add]

theorem readU64_putU64 {v : Nat} (h : v ≤ u64Max) (rest : Bytes) :
    readU64 (putU64 v ++ rest) = v := by
  rw [readU64, putU64, List.take_append_of_le_length (by simp), List.take_of_length_le (by simp)]
  exact readBytes_putBytes (by unfold u64Max at h; omega)

theorem readU32_putU32 {v : Nat} (h : v < 2 ^ 32) (rest : Bytes) :
    readU32 (putU32 v ++ rest) = v := by
  rw [readU32, putU32, List.take_append_of_le_length (by simp), List.take_of_length_le (by simp)]
  exact readBytes_putBytes (by omega)

example : putU32 262144 = [0, 4, 0, 0] := by decide

/-! ## Codecs

A block is decompressed with the size it is declared to have, so the law is about a
block and its size together. -/

/-- `zstd_compress_block` and `zstd_decompress_block`, of which the code relies on one
    thing: a block comes back when its size is known. -/
structure BlockCodec where
  compress : Bytes → Bytes
  decompress : Bytes → Nat → Except KikoError Bytes
  lossless : ∀ block, decompress (compress block) block.length = .ok block

end Kiko.Transfer
