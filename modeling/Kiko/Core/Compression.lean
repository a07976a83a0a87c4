import Kiko.Core.Protocol

/-!
# Decompression (`core/compression`)

The zstd library is a parameter that may do anything: return whatever it likes, claim to have
read what it has not, put out more than it was asked for, never come to an end. What
`ZstdStreamDecompressor::decompress` and `zstd_decompress_block` answer is bounded by their own
checks alone (`decompress_length`, `zstdDecompressBlock_length`).
-/

set_option autoImplicit false

namespace Kiko

/-- The functions of the library that decompress. An error is given by its name. -/
structure Zstd where
  DStream : Type
  /-- `ZSTD_createDStream` and `ZSTD_initDStream` -/
  createDStream : Except String DStream
  /-- `ZSTD_decompressStream`, on an input that is read up to a position: the position after it,
      and what it puts out -/
  decompressStream : DStream → Bytes → Nat → Except String (DStream × Nat × Bytes)
  /-- `ZSTD_decompress`, into a buffer of some size: the size it answers, and what it writes -/
  decompress : Bytes → Nat → Except String (Nat × Bytes)

/-- `ZstdStreamDecompressor`, in the loop of `decompress`. -/
structure ZstdStreamDecompressor (zstd : Zstd) where
  stream : zstd.DStream
  pos : Nat := 0
  out : Bytes := []

namespace ZstdStreamDecompressor

variable {zstd : Zstd} (input : Bytes) (maxOutput : Nat)

/-- The constructor. -/
def create (zstd : Zstd) : Except KikoError zstd.DStream :=
  match zstd.createDStream with
  | .ok stream => .ok stream
  | .error name => .error ("zstd init decompressor failed: " ++ name)

/-- One turn of the loop. -/
def turn (z : ZstdStreamDecompressor zstd) : Except KikoError (ZstdStreamDecompressor zstd) :=
  match zstd.decompressStream z.stream input z.pos with
  | .error name => .error ("zstd decompress failed: " ++ name)
  | .ok (stream, pos, piece) =>
    if subU64 maxOutput z.out.length < piece.length then
      .error "zstd decompressed data exceeds declared size"
    else .ok { stream := stream, pos := pos, out := z.out ++ piece }

/-- The loop, for as long as `turns` turns; `none` when it is not over by then. -/
def loop : Nat → ZstdStreamDecompressor zstd → Option (Except KikoError (ZstdStreamDecompressor zstd))
  | turns, z =>
    if z.pos < input.length then
      match turns with
      | 0 => none
      | turns + 1 =>
        match z.turn input maxOutput with
        | .ok z' => loop turns z'
        | .error e => some (.error e)
    else some (.ok z)

/-- `decompress`: the stream goes on from call to call, the input and the output are the call's. -/
def decompress (turns : Nat) (stream : zstd.DStream) :
    Option (Except KikoError (ZstdStreamDecompressor zstd)) :=
  loop input maxOutput turns { stream := stream }

variable {input maxOutput} {z z' : ZstdStreamDecompressor zstd} {turns : Nat}

/-- The room left is never a difference that has wrapped. -/
theorem turn_length (hmax : maxOutput ≤ u64Max) (hout : z.out.length ≤ maxOutput)
    (h : z.turn input maxOutput = .ok z') : z'.out.length ≤ maxOutput := by
  unfold turn at h
  split at h
  next => cases h
  next stream pos piece _ =>
    rw [subU64_eq hout hmax] at h
    split_ifs at h with hroom
    obtain rfl := Except.ok.inj h
    show (z.out ++ piece).length ≤ maxOutput
    rw [List.length_append]
    exact Nat.add_le_of_le_sub' hout (not_lt.mp hroom)

theorem loop_length (hmax : maxOutput ≤ u64Max) (hout : z.out.length ≤ maxOutput)
    (h : loop input maxOutput turns z = some (.ok z')) : z'.out.length ≤ maxOutput := by
  induction turns generalizing z with
  | zero =>
    unfold loop at h
    split_ifs at h
    obtain rfl := Except.ok.inj (Option.some.inj h)
    exact hout
  | succ turns ih =>
    unfold loop at h
    split_ifs at h with hpos
    · cases hturn : z.turn input maxOutput with
      | error e =>
        rw [hturn] at h
        cases h
      | ok z₁ =>
        rw [hturn] at h
        exact ih (turn_length hmax hout hturn) h
    · obtain rfl := Except.ok.inj (Option.some.inj h)
      exact hout

/-- **What is decompressed is within the limit**, whatever the library does. -/
theorem decompress_length {stream : zstd.DStream} (hmax : maxOutput ≤ u64Max)
    (h : decompress input maxOutput turns stream = some (.ok z')) : z'.out.length ≤ maxOutput :=
  loop_length hmax (Nat.zero_le _) h

end ZstdStreamDecompressor

/-- `zstd_decompress_block`: the library writes into a buffer of the expected size, and no further. -/
def zstdDecompressBlock (zstd : Zstd) (input : Bytes) (expectedSize : Nat) : Except KikoError Bytes :=
  match zstd.decompress input expectedSize with
  | .error name => .error ("zstd block decompress failed: " ++ name)
  | .ok (rc, written) =>
    if rc ≠ expectedSize then .error "zstd block decompress size mismatch"
    else .ok ((written ++ List.replicate expectedSize 0).take expectedSize)

theorem zstdDecompressBlock_length {zstd : Zstd} {input out : Bytes} {expectedSize : Nat}
    (h : zstdDecompressBlock zstd input expectedSize = .ok out) : out.length = expectedSize := by
  unfold zstdDecompressBlock at h
  split at h
  next => cases h
  next rc written _ =>
    split_ifs at h
    obtain rfl := Except.ok.inj h
    rw [List.length_take, List.length_append, List.length_replicate]
    exact Nat.min_eq_left (Nat.le_add_left _ _)

end Kiko
