import Kiko.Core.Crypto
import Kiko.Lib.Feedback
import Kiko.Lib.Rounds

/-!
# `hkdf_sha256`

The loop of `hkdf_sha256` (`core/crypto.cpp`), over any function that answers 32 bytes for a key
and a message. RFC 5869 makes its output of blocks in feedback mode: `T(i)` is the HMAC of
`T(i-1)`, the info and the byte `i`.

The loop's counter is a byte and goes round after 255, on the increment after the last block a
request can take. The state a round starts in is known in closed form (`after`), so that the
loop runs through `after 0`, `after 1`, … is all there is to show.
-/

set_option autoImplicit false

namespace Kiko

open Rounds (Round Comes)

/-- `hmac_sha256`, of a key and a message. -/
structure Hmac where
  mac : Bytes → Bytes → Bytes
  length_mac : ∀ key data, (mac key data).length = 32

/-- The one the repository uses, over its digest. -/
def Digest.hmac (D : Digest) : Hmac where
  mac := D.hmacSha256
  length_mac := D.length_hmacSha256

namespace Hmac

variable (H : Hmac)

/-! ## The loop

The variables are those of the source, the counter a byte. A round writes at most a block behind
what is there. -/

/-- The variables of the loop. -/
structure Expand where
  out : Bytes
  previous : Bytes
  written : Nat
  counter : UInt8
deriving DecidableEq

/-- `std::copy_n(source.begin(), count, out.begin() + at)`. -/
def copyN (source : Bytes) (count : Nat) (out : Bytes) (position : Nat) : Bytes :=
  out.take position ++ source.take count ++ out.drop (position + count)

/-- The body of `for (counter = 1; written < length; ++counter)`. -/
def expandRound (prk info : Bytes) (length : Nat) (st : Expand) :
    Except KikoError (Round Expand Bytes) :=
  if st.written < length then
    let blockInput := st.previous ++ info ++ [st.counter]
    let previous := H.mac prk blockInput
    let take := min previous.length (length - st.written)
    .ok (.again {
      out := copyN previous take st.out st.written
      previous := previous
      written := st.written + take
      counter := st.counter + 1 })
  else .ok (.leave st.out)

/-- Before the first round. -/
def expandStart (length : Nat) : Expand :=
  { out := List.replicate length 0, previous := [], written := 0, counter := 1 }

/-- The key of the extract step. -/
def saltKey (salt : Bytes) : Bytes := if salt = [] then List.replicate 32 0 else salt

/-- `hkdf_sha256`, with at most `fuel` rounds of its loop. -/
def hkdfSha256 (fuel : Nat) (ikm salt info : Bytes) (length : Nat) :
    Option (Except KikoError Bytes) :=
  if 255 * 32 < length then some (.error "hkdf output too long")
  else
    let prk := H.mac (saltKey salt) ikm
    Rounds.run (H.expandRound prk info length) fuel (expandStart length)

/-! ## RFC 5869

The blocks as they are defined, by recursion on their number and with no limit; the limit of 255
comes in with the byte that is hashed. -/

/-- `T(i)` from `T(i-1)`. -/
def next (prk info : Bytes) (previous : Bytes) (i : Nat) : Bytes :=
  H.mac prk (previous ++ info ++ [UInt8.ofNat i])

/-- `T(i)`; `T(0)` is empty. -/
def t (prk info : Bytes) (i : Nat) : Bytes := Feedback.block (H.next prk info) i

/-- `T(1) || … || T(n)`. -/
def ts (prk info : Bytes) (n : Nat) : Bytes := Feedback.blocks (H.next prk info) n

variable {H} {prk info : Bytes} {length i : Nat} {st : Expand}

theorem ts_succ : H.ts prk info (i + 1) = H.ts prk info i ++ H.t prk info (i + 1) := rfl

theorem length_t_succ : (H.t prk info (i + 1)).length = 32 := H.length_mac _ _

theorem length_ts (n : Nat) : (H.ts prk info n).length = 32 * n :=
  Feedback.length_blocks (fun _ _ => H.length_mac _ _) n

/-! ## The states of the loop

That the counter byte is the number of the round up to 255 is the one place where the type of
the counter matters. -/

variable (H) in
/-- The variables after `i` rounds. -/
def after (prk info : Bytes) (length i : Nat) : Expand where
  out := (H.ts prk info i).take length ++ List.replicate (length - 32 * i) 0
  previous := H.t prk info i
  written := min (32 * i) length
  counter := UInt8.ofNat (i + 1)

theorem after_zero : H.after prk info length 0 = expandStart length := by
  unfold after expandStart
  show Expand.mk (List.take length [] ++ List.replicate length 0) [] (min 0 length) 1 = _
  rw [List.take_nil, List.nil_append, Nat.zero_min]

/-- Writing the next block, or what there is room for of it. -/
theorem copyN_after (h : 32 * i < length) :
    copyN (H.t prk info (i + 1)) (min 32 (length - 32 * i)) (H.after prk info length i).out
      (32 * i) = (H.after prk info length (i + 1)).out := by
  have hts : (H.ts prk info i).length = 32 * i := length_ts i
  have hfits : (H.ts prk info i).take length = H.ts prk info i :=
    List.take_of_length_le (by omega)
  -- a block is 32 bytes long, so cutting it to 32 first changes nothing
  have hcut : (H.t prk info (i + 1)).take (min 32 (length - 32 * i)) =
      (H.t prk info (i + 1)).take (length - 32 * i) := by
    rw [Nat.min_comm, ← List.take_take, List.take_of_length_le (Nat.le_of_eq length_t_succ)]
  have hout : (H.after prk info length i).out =
      H.ts prk info i ++ List.replicate (length - 32 * i) 0 := by
    show (H.ts prk info i).take length ++ _ = _
    rw [hfits]
  have hrest : (H.ts prk info i ++ List.replicate (length - 32 * i) 0).drop
      (32 * i + min 32 (length - 32 * i)) = List.replicate (length - 32 * (i + 1)) (0 : UInt8) := by
    rw [← hts, List.drop_length_add_append, List.drop_replicate, hts]
    congr 1
    omega
  have hwhole : (H.ts prk info (i + 1)).take length =
      H.ts prk info i ++ (H.t prk info (i + 1)).take (length - 32 * i) := by
    rw [ts_succ, List.take_append, hfits, hts]
  unfold copyN
  rw [hout, List.take_left' hts, hrest, hcut, ← hwhole]
  rfl

/-- **A round makes the next block.** -/
theorem expandRound_again (h : 32 * i < length) :
    H.expandRound prk info length (H.after prk info length i) =
      .ok (.again (H.after prk info length (i + 1))) := by
  have hwritten : (H.after prk info length i).written = 32 * i :=
    Nat.min_eq_left (Nat.le_of_lt h)
  have hprevious : H.mac prk ((H.after prk info length i).previous ++ info ++
      [(H.after prk info length i).counter]) = H.t prk info (i + 1) := rfl
  unfold expandRound
  simp only [hwritten, if_pos h, hprevious, length_t_succ, copyN_after h]
  congr 2
  show Expand.mk _ _ (32 * i + min 32 (length - 32 * i)) (UInt8.ofNat (i + 1) + 1) =
    Expand.mk _ _ (min (32 * (i + 1)) length) (UInt8.ofNat (i + 1 + 1))
  congr 1
  · omega
  · rw [UInt8.ofNat_add (i + 1) 1]
    rfl

/-- The loop leaves when the output is full. -/
theorem expandRound_leave (h : length ≤ 32 * i) :
    H.expandRound prk info length (H.after prk info length i) =
      .ok (.leave ((H.ts prk info i).take length)) := by
  have hwritten : (H.after prk info length i).written = length := Nat.min_eq_right h
  have hfull : (H.after prk info length i).out = (H.ts prk info i).take length := by
    show _ ++ List.replicate (length - 32 * i) 0 = _
    rw [Nat.sub_eq_zero_of_le h, List.replicate_zero, List.append_nil]
  unfold expandRound
  rw [hwritten, if_neg (Nat.lt_irrefl _), hfull]

/-- **The loop runs through `after 0`, `after 1`, ….** -/
theorem after_of_comes (h : Comes (H.expandRound prk info length) (expandStart length) st) :
    ∃ i, st = H.after prk info length i := by
  apply h.keeps (fun st => ∃ i, st = H.after prk info length i)
  · rintro s s' ⟨i, rfl⟩ hround
    by_cases hmore : 32 * i < length
    · rw [expandRound_again hmore] at hround
      cases hround
      exact ⟨i + 1, rfl⟩
    · rw [expandRound_leave (Nat.le_of_not_lt hmore)] at hround
      cases hround
  · exact ⟨0, after_zero.symm⟩

/-- One round for each block begun, and one to leave, is enough. -/
theorem expand_ends {fuel : Nat} (hfuel : (length + 31) / 32 < fuel) :
    ∃ r, Rounds.run (H.expandRound prk info length) fuel (expandStart length) = some r := by
  apply Rounds.run_of_measure (fun st => ∃ i, st = H.after prk info length i)
    (fun st => (length - st.written + 31) / 32)
  · rintro s s' ⟨i, rfl⟩ hround
    by_cases hmore : 32 * i < length
    · rw [expandRound_again hmore] at hround
      cases hround
      refine ⟨⟨i + 1, rfl⟩, ?_⟩
      show (length - min (32 * (i + 1)) length + 31) / 32 < (length - min (32 * i) length + 31) / 32
      omega
    · rw [expandRound_leave (Nat.le_of_not_lt hmore)] at hround
      cases hround
  · exact ⟨0, after_zero.symm⟩
  · exact hfuel

/-- What it leaves with: the first `length` bytes of the blocks, however many are taken. -/
theorem expand_eq {fuel n : Nat} {r : Except KikoError Bytes} (hn : length ≤ 32 * n)
    (h : Rounds.run (H.expandRound prk info length) fuel (expandStart length) = some r) :
    r = .ok ((H.ts prk info n).take length) := by
  obtain ⟨st, hcomes, hlast⟩ := Rounds.run_comes h
  obtain ⟨i, rfl⟩ := after_of_comes hcomes
  by_cases hmore : 32 * i < length
  · rw [expandRound_again hmore] at hlast
    cases r <;> cases hlast
  · have hfull := Nat.le_of_not_lt hmore
    rw [expandRound_leave hfull] at hlast
    cases r with
    | error e => cases hlast
    | ok okm =>
      cases hlast
      congr 1
      exact Feedback.take_blocks (fun _ _ => H.length_mac _ _) hfull hn

/-- **No counter byte twice.** Within 255 blocks two rounds that make a block under one counter
are the same round. -/
theorem counter_inj {st' : Expand} (hlength : length ≤ 255 * 32)
    (h : Comes (H.expandRound prk info length) (expandStart length) st)
    (h' : Comes (H.expandRound prk info length) (expandStart length) st')
    (hmore : st.written < length) (hmore' : st'.written < length)
    (hcounter : st.counter = st'.counter) : st = st' := by
  obtain ⟨i, rfl⟩ := after_of_comes h
  obtain ⟨j, rfl⟩ := after_of_comes h'
  have hi : i < 255 := by
    have : min (32 * i) length < length := hmore
    omega
  have hj : j < 255 := by
    have : min (32 * j) length < length := hmore'
    omega
  have hbytes := congrArg UInt8.toNat hcounter
  have hij : (i + 1) % 256 = (j + 1) % 256 := by
    rwa [after, after, UInt8.toNat_ofNat', UInt8.toNat_ofNat'] at hbytes
  obtain rfl : i = j := by omega
  rfl

/-- **`hkdf_sha256` is RFC 5869.** A request for more than 255 blocks is refused, whatever the
fuel. Any other ends, after one round for each block begun; its answer is the first `length`
bytes of `T(1) || T(2) || …`, and no two of the blocks have one counter byte. -/
theorem hkdfSha256_expands (H : Hmac) (ikm salt info : Bytes) (length : Nat) :
    (255 * 32 < length →
      ∀ fuel, H.hkdfSha256 fuel ikm salt info length = some (.error "hkdf output too long")) ∧
    (length ≤ 255 * 32 →
      let prk := H.mac (if salt = [] then List.replicate 32 0 else salt) ikm
      (∃ okm, okm.length = length ∧
        (∀ fuel, (length + 31) / 32 < fuel →
          H.hkdfSha256 fuel ikm salt info length = some (.ok okm)) ∧
        ∀ n, length ≤ 32 * n → okm = (H.ts prk info n).take length) ∧
      ∀ st st', Comes (H.expandRound prk info length) (expandStart length) st →
        Comes (H.expandRound prk info length) (expandStart length) st' →
        st.written < length → st'.written < length → st.counter = st'.counter → st = st') := by
  constructor
  · intro hlong fuel
    exact if_pos hlong
  · intro hlength prk
    have henough : length ≤ 32 * 255 := by omega
    refine ⟨⟨(H.ts prk info 255).take length, ?_, ?_, ?_⟩, ?_⟩
    · rw [List.length_take, length_ts]
      exact Nat.min_eq_left henough
    · intro fuel hfuel
      obtain ⟨r, hr⟩ : ∃ r, Rounds.run (H.expandRound prk info length) fuel (expandStart length) =
          some r := expand_ends hfuel
      unfold hkdfSha256
      rw [if_neg (Nat.not_lt.mpr hlength)]
      show Rounds.run (H.expandRound prk info length) fuel (expandStart length) = _
      rw [hr, expand_eq henough hr]
    · intro n hn
      exact Feedback.take_blocks (fun _ _ => H.length_mac _ _) henough hn
    · intro st st' h h'
      exact counter_inj hlength h h'

end Hmac

/-! ## The loop and the blocks -/

namespace Digest

variable {D : Digest} {prk info : Bytes}

/-- The blocks made from the `i`-th on are those that follow it. -/
theorem ts_append_hkdfBlocks (n i : Nat) :
    D.hmac.ts prk info i ++ D.hkdfBlocks prk info n (D.hmac.t prk info i) (UInt8.ofNat (i + 1)) =
      D.hmac.ts prk info (i + n) := by
  induction n generalizing i with
  | zero => exact List.append_nil _
  | succ n ih =>
    have hcounter : UInt8.ofNat (i + 1) + 1 = UInt8.ofNat (i + 1 + 1) := (UInt8.ofNat_add _ 1).symm
    have hrest := ih (i + 1)
    rw [Hmac.ts_succ, ← hcounter, List.append_assoc] at hrest
    rw [show i + (n + 1) = i + 1 + n by omega, ← hrest]
    rfl

theorem hkdfBlocks_eq_ts (n : Nat) : D.hkdfBlocks prk info n [] 1 = D.hmac.ts prk info n := by
  have h : D.hmac.ts prk info 0 ++ D.hkdfBlocks prk info n [] 1 = D.hmac.ts prk info (0 + n) :=
    ts_append_hkdfBlocks n 0
  rwa [Nat.zero_add] at h

/-- **The loop makes those blocks.** -/
theorem hkdfSha256_eq_run {fuel length : Nat} (ikm salt : Bytes) (hfuel : (length + 31) / 32 < fuel) :
    D.hmac.hkdfSha256 fuel ikm salt info length = some (D.hkdfSha256 ikm salt info length) := by
  unfold Hmac.hkdfSha256 hkdfSha256
  by_cases hlong : 255 * 32 < length
  · rw [if_pos hlong, if_pos hlong]
  · rw [if_neg hlong, if_neg hlong]
    show Rounds.run (D.hmac.expandRound (D.hmacSha256 (Hmac.saltKey salt) ikm) info length) fuel
      (Hmac.expandStart length) = some (.ok ((D.hkdfBlocks (D.hmacSha256 (Hmac.saltKey salt) ikm) info
        ((length + 31) / 32) [] 1).take length))
    obtain ⟨r, hr⟩ : ∃ r, Rounds.run (D.hmac.expandRound (D.hmacSha256 (Hmac.saltKey salt) ikm) info
      length) fuel (Hmac.expandStart length) = some r := Hmac.expand_ends hfuel
    have henough : length ≤ 32 * ((length + 31) / 32) := by omega
    rw [hr, Hmac.expand_eq henough hr, hkdfBlocks_eq_ts]

end Digest

end Kiko
