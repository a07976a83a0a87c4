import Kiko.Core.Crypto

/-!
# Sampled digests (`core/imohash`)

`imohash_hex` digests a file by samples: all of a small file, and of a larger one a chunk at
its beginning, one at its end, and one in each of up to fourteen windows. The size of the file
is not among what is digested, and so for every file that is not small there is another one, of
another size, with the same samples (`exists_other_size`).

The algorithm is computed and not assumed, with the words of the hash as 64-bit values, since
the results are about particular files: which bytes are read of a file of a given size decides
what it can be confused with. That the hash itself has collisions is no part of it.
-/

set_option autoImplicit false

namespace Kiko

/-! ## `murmur3_x64_128` -/

def rotl64 (x : UInt64) (r : UInt64) : UInt64 := (x <<< r) ||| (x >>> (64 - r))

/-- Up to eight bytes, the lowest first. -/
def littleEndian (bytes : Bytes) : UInt64 := bytes.foldr (fun b n => (n <<< 8) ||| b.toUInt64) 0

def murmurC1 : UInt64 := 0x87c37b91114253d5
def murmurC2 : UInt64 := 0x4cf5ad432745937f

def mixK1 (k1 : UInt64) : UInt64 := rotl64 (k1 * murmurC1) 31 * murmurC2
def mixK2 (k2 : UInt64) : UInt64 := rotl64 (k2 * murmurC2) 33 * murmurC1

/-- The loop over `nblocks` blocks of 16 bytes. -/
def murmurBlocks : Nat → Bytes → UInt64 → UInt64 → UInt64 × UInt64
  | 0, _, h1, h2 => (h1, h2)
  | nblocks + 1, data, h1, h2 =>
    let h1 := (rotl64 (h1 ^^^ mixK1 (littleEndian (data.take 8))) 27 + h2) * 5 + 0x52dce729
    let h2 := (rotl64 (h2 ^^^ mixK2 (littleEndian ((data.drop 8).take 8))) 31 + h1) * 5 + 0x38495ab5
    murmurBlocks nblocks (data.drop 16) h1 h2

/-- The last mixing of a half. -/
def finalMix (h : UInt64) : UInt64 :=
  let h := (h ^^^ (h >>> 33)) * 0xff51afd7ed558ccd
  let h := (h ^^^ (h >>> 33)) * 0xc4ceb9fe1a85ec53
  h ^^^ (h >>> 33)

/-- `murmur3_x64_128`. -/
def murmur3X64_128 (data : Bytes) (seed : UInt64) : UInt64 × UInt64 :=
  let nblocks := data.length / 16
  let (h1, h2) := murmurBlocks nblocks data seed seed
  let tail := data.drop (nblocks * 16)
  let h2 := if 8 < tail.length then h2 ^^^ mixK2 (littleEndian (tail.drop 8)) else h2
  let h1 := if 0 < tail.length then h1 ^^^ mixK1 (littleEndian (tail.take 8)) else h1
  let h1 := h1 ^^^ UInt64.ofNat data.length
  let h2 := h2 ^^^ UInt64.ofNat data.length
  let h1 := h1 + h2
  let h2 := h2 + h1
  let h1 := finalMix h1
  let h2 := finalMix h2
  let h1 := h1 + h2
  (h1, h2 + h1)

/-! ## `imohash_hex`

The windows are those of the source, with the rounding of its divisions. A window near the end
of the file may have no chunk that fits, and gives none. -/

def kChunk : Nat := 128 * 1024
def kSampleWindow : Nat := 16 * 16 * 8 * 1024

/-- `read_at`, where there is a chunk. -/
def chunkAt (content : Bytes) (offset : Nat) : Bytes := (content.drop offset).take kChunk

/-- Where the window `w` is sampled. -/
def windowOffset (w : Nat) : Nat := w * kSampleWindow + kSampleWindow / 2

/-- The loop over the windows from `w` on, `left` of them, when `taken` bytes are sampled. -/
def windowChunks (content : Bytes) : (left w taken : Nat) → Bytes
  | 0, _, _ => []
  | left + 1, w, taken =>
    if kSampleWindow ≤ taken then []
    else if content.length < windowOffset w + kChunk then []
    else chunkAt content (windowOffset w) ++ windowChunks content left (w + 1) (taken + kChunk)

/-- The `samples` of `imohash_hex`. -/
def imohashSamples (content : Bytes) : Bytes :=
  let size := content.length
  if size ≤ kChunk * 2 then content
  else
    chunkAt content 0 ++ chunkAt content (size - kChunk) ++
      windowChunks content (max 1 ((size - kChunk) / kSampleWindow)) 0 (kChunk * 2)

/-- The bytes of a word, the highest first. -/
def bigEndian (n : UInt64) : Bytes :=
  (List.range 8).map fun i => UInt8.ofNat (n.toNat / 256 ^ (7 - i))

/-- `imohash_hex`. -/
def imohashHex (content : Bytes) : String :=
  let digest := murmur3X64_128 (imohashSamples content) 0
  hexEncode (bigEndian digest.1 ++ bigEndian digest.2)

example : imohashHex (spanOf "hi!") = "7532208ea5791eca7ad4258f4cbb9d6d" := by decide +kernel

/-! ## What the digest tells -/

theorem bigEndian_injective : Function.Injective bigEndian := by
  intro n m h
  simp only [bigEndian, List.map_inj_left, List.mem_range] at h
  have hbyte (i : Nat) (hi : i < 8) : n.toNat / 256 ^ (7 - i) % 256 = m.toNat / 256 ^ (7 - i) % 256 := by
    have := congrArg UInt8.toNat (h i hi)
    simpa using this
  have hn := n.toNat_lt
  have hm := m.toNat_lt
  have h0 := hbyte 0 (by decide)
  have h1 := hbyte 1 (by decide)
  have h2 := hbyte 2 (by decide)
  have h3 := hbyte 3 (by decide)
  have h4 := hbyte 4 (by decide)
  have h5 := hbyte 5 (by decide)
  have h6 := hbyte 6 (by decide)
  have h7 := hbyte 7 (by decide)
  simp only [Nat.sub_zero, Nat.reduceSub, Nat.reducePow] at h0 h1 h2 h3 h4 h5 h6 h7
  exact UInt64.toNat_inj.mp (by omega)

theorem imohashHex_inj {content other : Bytes} (h : imohashHex content = imohashHex other) :
    murmur3X64_128 (imohashSamples content) 0 = murmur3X64_128 (imohashSamples other) 0 := by
  have hbytes := hexEncode_injective h
  obtain ⟨hfirst, hsecond⟩ := List.append_inj hbytes (by simp [bigEndian])
  exact Prod.ext (bigEndian_injective hfirst) (bigEndian_injective hsecond)

theorem imohashHex_ne (content : Bytes) : imohashHex content ≠ "" := by
  intro h
  have := hexEncode_injective (h.trans (show "" = hexEncode [] from rfl))
  simp [bigEndian] at this

/-! ## What the samples leave out -/

theorem imohashSamples_small {content : Bytes} (h : content.length ≤ kChunk * 2) :
    imohashSamples content = content := if_pos h

theorem length_chunkAt {content : Bytes} {offset : Nat} (h : offset + kChunk ≤ content.length) :
    (chunkAt content offset).length = kChunk := by
  rw [chunkAt, List.length_take, List.length_drop]
  omega

/-- What is not small has more samples than a small file has bytes. -/
theorem length_imohashSamples {content : Bytes} (h : kChunk * 2 < content.length) :
    kChunk * 2 ≤ (imohashSamples content).length := by
  have hnot : ¬ content.length ≤ kChunk * 2 := Nat.not_le.mpr h
  simp only [imohashSamples, if_neg hnot, List.length_append]
  rw [length_chunkAt (by omega), length_chunkAt (by omega)]
  omega

/-- Of a file below two chunks everything is sampled, of no other so little. -/
theorem eq_of_imohashSamples {content other : Bytes} (h : content.length < kChunk * 2)
    (hsame : imohashSamples other = imohashSamples content) : other = content := by
  rw [imohashSamples_small (Nat.le_of_lt h)] at hsame
  by_cases hother : other.length ≤ kChunk * 2
  · rwa [imohashSamples_small hother] at hsame
  · have := length_imohashSamples (Nat.not_le.mp hother)
    rw [hsame] at this
    omega

/-- How many windows are sampled of a file of this size. -/
def windowCount (size : Nat) : (left w taken : Nat) → Nat
  | 0, _, _ => 0
  | left + 1, w, taken =>
    if kSampleWindow ≤ taken then 0
    else if size < windowOffset w + kChunk then 0
    else windowCount size left (w + 1) (taken + kChunk) + 1

theorem windowChunks_eq (content : Bytes) (left w taken : Nat) :
    windowChunks content left w taken =
      (List.range' w (windowCount content.length left w taken)).flatMap fun v =>
        chunkAt content (windowOffset v) := by
  induction left generalizing w taken with
  | zero => rfl
  | succ left ih =>
    unfold windowChunks windowCount
    by_cases hfull : kSampleWindow ≤ taken
    · rw [if_pos hfull, if_pos hfull]
      rfl
    rw [if_neg hfull, if_neg hfull]
    by_cases hend : content.length < windowOffset w + kChunk
    · rw [if_pos hend, if_pos hend]
      rfl
    rw [if_neg hend, if_neg hend, ih, List.range'_succ, List.flatMap_cons]

/-- Where all windows fit, there are sixteen chunks in all, or as many as there are windows. -/
theorem windowCount_fits {size left w : Nat}
    (hfit : ∀ v, w ≤ v → v < w + left → windowOffset v + kChunk ≤ size) :
    windowCount size left w (kChunk * (2 + w)) = min left (14 - w) := by
  induction left generalizing w with
  | zero => simp [windowCount]
  | succ left ih =>
    unfold windowCount
    by_cases hfull : kSampleWindow ≤ kChunk * (2 + w)
    · rw [if_pos hfull]
      simp only [kSampleWindow, kChunk] at hfull
      omega
    · rw [if_neg hfull, if_neg (Nat.not_lt.mpr (hfit w (Nat.le_refl _) (by omega)))]
      have := @ih (w + 1) fun v hv hlt => hfit v (by omega) (by omega)
      rw [show kChunk * (2 + w) + kChunk = kChunk * (2 + (w + 1)) by simp only [kChunk]; omega, this]
      simp only [kSampleWindow, kChunk] at hfull
      omega

/-- The number of windows sampled of a file of this size that is not small. -/
def sampledWindows (size : Nat) : Nat :=
  windowCount size (max 1 ((size - kChunk) / kSampleWindow)) 0 (kChunk * 2)

/-- The samples of a file of two chunks or more. -/
theorem imohashSamples_eq {content : Bytes} {windows : Nat} (h : kChunk * 2 ≤ content.length)
    (hwindows : windows = if content.length = kChunk * 2 then 0 else sampledWindows content.length) :
    imohashSamples content =
      content.take kChunk ++ content.drop (content.length - kChunk) ++
        (List.range windows).flatMap fun v => chunkAt content (windowOffset v) := by
  have htail : chunkAt content (content.length - kChunk) = content.drop (content.length - kChunk) :=
    List.take_of_length_le (by rw [List.length_drop]; omega)
  by_cases hsize : content.length = kChunk * 2
  · rw [if_pos hsize] at hwindows
    rw [imohashSamples_small (Nat.le_of_eq hsize), hwindows, hsize,
      show kChunk * 2 - kChunk = kChunk by omega, List.range_zero, List.flatMap_nil, List.append_nil,
      List.take_append_drop]
  · rw [if_neg hsize] at hwindows
    have hnot : ¬ content.length ≤ kChunk * 2 := by omega
    simp only [imohashSamples, if_neg hnot, htail, windowChunks_eq, hwindows, sampledWindows,
      ← List.range_eq_range']
    rfl

/-- Bytes between the windows and the last chunk are not sampled. -/
theorem exists_spliced {content : Bytes} {size kept : Nat} (h : kChunk * 2 ≤ content.length)
    (hsize : kChunk * 2 < size) (hhead : kChunk ≤ kept) (hkept : kept ≤ content.length)
    (hroom : kept + kChunk ≤ size)
    (hsame : (if content.length = kChunk * 2 then 0 else sampledWindows content.length) =
      sampledWindows size)
    (hfit : ∀ v < sampledWindows size, windowOffset v + kChunk ≤ kept) :
    ∃ other : Bytes, other.length = size ∧ imohashSamples other = imohashSamples content := by
  let fill : Bytes := List.replicate (size - kept - kChunk) 0
  let last := content.drop (content.length - kChunk)
  have hlast : last.length = kChunk := by
    rw [List.length_drop]
    omega
  have hfirst : (content.take kept).length = kept := by
    rw [List.length_take]
    omega
  have hlength : (content.take kept ++ (fill ++ last)).length = size := by
    rw [List.length_append, List.length_append, hfirst, hlast, List.length_replicate]
    omega
  refine ⟨content.take kept ++ (fill ++ last), hlength, ?_⟩
  have hnot : ¬ (content.take kept ++ (fill ++ last)).length = kChunk * 2 := by omega
  rw [imohashSamples_eq (by omega) rfl, imohashSamples_eq h hsame.symm, if_neg hnot, hlength]
  refine congrArg₂ _ (congrArg₂ _ ?_ ?_) (congrArg List.flatten (List.map_congr_left fun v hv => ?_))
  · rw [List.take_append_of_le_length (by omega), List.take_take, Nat.min_eq_left hhead]
  · rw [← List.append_assoc]
    refine List.drop_left' ?_
    rw [List.length_append, hfirst, List.length_replicate]
    omega
  · have hv := hfit v (List.mem_range.mp hv)
    show ((content.take kept ++ (fill ++ last)).drop _).take kChunk = (content.drop _).take kChunk
    rw [List.drop_append_of_le_length (by omega), List.take_append_of_le_length
      (by rw [List.length_drop, hfirst]; omega), List.drop_take, List.take_take,
      Nat.min_eq_left (by omega)]

theorem sampledWindows_none {size : Nat} (h : size < 2 ^ 20 + kChunk) : sampledWindows size = 0 := by
  simp only [kChunk] at h
  have hone : max 1 ((size - kChunk) / kSampleWindow) = 1 := by
    simp only [kChunk, kSampleWindow]
    omega
  rw [sampledWindows, hone, windowCount, if_neg (by decide), if_pos (by
    simp only [windowOffset, kChunk, kSampleWindow]
    omega)]

theorem sampledWindows_fits {size : Nat} (h : 2 ^ 20 + kChunk ≤ size) :
    sampledWindows size = min (max 1 ((size - kChunk) / kSampleWindow)) 14 := by
  refine @windowCount_fits _ _ 0 fun v _ hv => ?_
  simp only [windowOffset, kChunk, kSampleWindow] at h hv ⊢
  omega

/-- **A file that is not small has the samples of a file of another size.** -/
theorem exists_other_size {content : Bytes} (h : kChunk * 2 ≤ content.length) :
    ∃ other : Bytes, other.length ≠ content.length ∧ imohashSamples other = imohashSamples content := by
  -- of two sizes with as many windows, one is another
  have hchoose (size kept : Nat) (hroom : kept + kChunk ≤ size) (hsize : kChunk * 2 < size)
      (hhead : kChunk ≤ kept) (hkept : kept ≤ content.length)
      (hsame : ∀ size', size ≤ size' → size' ≤ size + 1 →
        (if content.length = kChunk * 2 then 0 else sampledWindows content.length) = sampledWindows size')
      (hfit : ∀ v < sampledWindows size, windowOffset v + kChunk ≤ kept) :
      ∃ other : Bytes, other.length ≠ content.length ∧ imohashSamples other = imohashSamples content := by
    have hnext : sampledWindows (size + 1) = sampledWindows size :=
      (hsame (size + 1) (by omega) (by omega)).symm.trans (hsame size (by omega) (by omega))
    by_cases hother : size = content.length
    · obtain ⟨other, hlength, hsamples⟩ := exists_spliced h (Nat.lt_succ_of_lt hsize) hhead hkept
        (Nat.le_succ_of_le hroom) (hsame (size + 1) (by omega) (by omega)) (by rw [hnext]; exact hfit)
      exact ⟨other, by omega, hsamples⟩
    · obtain ⟨other, hlength, hsamples⟩ := exists_spliced h hsize hhead hkept hroom
        (hsame size (by omega) (by omega)) hfit
      exact ⟨other, by omega, hsamples⟩
  by_cases hnone : content.length < 2 ^ 20 + kChunk
  · -- no window
    refine hchoose (kChunk * 2 + 1) kChunk (by omega) (by omega) (Nat.le_refl _) (by omega)
      (fun size' hle hle' => ?_) (fun v hv => ?_)
    · rw [sampledWindows_none hnone, sampledWindows_none (by simp only [kChunk] at *; omega), ite_self]
    · rw [sampledWindows_none (by simp only [kChunk]; omega)] at hv
      cases hv
  · have hwindows : (if content.length = kChunk * 2 then 0 else sampledWindows content.length) =
        min (max 1 ((content.length - kChunk) / kSampleWindow)) 14 := by
      rw [if_neg (by simp only [kChunk] at *; omega), sampledWindows_fits (by omega)]
    rw [hwindows] at hchoose
    by_cases hone : (content.length - kChunk) / kSampleWindow < 2
    · -- one window
      obtain ⟨size, hsize⟩ : ∃ size, size = kSampleWindow := ⟨_, rfl⟩
      have hval (size' : Nat) (hle : size ≤ size') (hle' : size' ≤ size + 1) :
          sampledWindows size' = 1 := by
        rw [sampledWindows_fits (by simp only [kSampleWindow, kChunk] at *; omega)]
        simp only [kChunk, kSampleWindow] at *
        omega
      refine hchoose size (2 ^ 20 + kChunk) ?_ ?_ ?_ (by omega)
        (fun size' hle hle' => ?_) (fun v hv => ?_)
      · simp only [kChunk, kSampleWindow] at *
        omega
      · simp only [kChunk, kSampleWindow] at *
        omega
      · omega
      · rw [hval size' hle hle']
        simp only [kChunk, kSampleWindow] at *
        omega
      · rw [hval size (Nat.le_refl _) (Nat.le_succ _)] at hv
        obtain rfl : v = 0 := by omega
        simp only [windowOffset, kChunk, kSampleWindow]
        omega
    · -- `j` windows, or fourteen
      generalize hj : (content.length - kChunk) / kSampleWindow = j at *
      have hlength : j * kSampleWindow ≤ content.length - kChunk := hj ▸ Nat.div_mul_le_self _ _
      have hdiv (extra : Nat) (hextra : extra ≤ 1) :
          (j * kSampleWindow + kChunk + extra - kChunk) / kSampleWindow = j := by
        rw [show j * kSampleWindow + kChunk + extra - kChunk = j * kSampleWindow + extra by omega]
        simp only [kSampleWindow] at *
        omega
      refine hchoose (j * kSampleWindow + kChunk) (j * kSampleWindow - 2 ^ 20 + kChunk) ?_ ?_ ?_ ?_
        (fun size' hle hle' => ?_) (fun v hv => ?_)
      · simp only [kSampleWindow, kChunk] at *
        omega
      · simp only [kSampleWindow, kChunk] at *
        omega
      · omega
      · simp only [kSampleWindow, kChunk] at *
        omega
      · obtain ⟨extra, rfl⟩ := Nat.exists_eq_add_of_le hle
        rw [sampledWindows_fits (by simp only [kSampleWindow, kChunk] at *; omega),
          hdiv extra (by omega)]
      · have hzero : (j * kSampleWindow + kChunk - kChunk) / kSampleWindow = j := by
          rw [Nat.add_sub_cancel]
          exact Nat.mul_div_cancel _ (by decide)
        rw [sampledWindows_fits (by simp only [kSampleWindow, kChunk] at *; omega), hzero] at hv
        have hbelow : (v + 1) * kSampleWindow ≤ j * kSampleWindow :=
          Nat.mul_le_mul_right _ (by omega)
        simp only [windowOffset, kSampleWindow, kChunk] at hbelow ⊢
        omega

end Kiko
