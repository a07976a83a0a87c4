import Kiko.Core.Protocol

/-!
# Keyed digests (`core/crypto`)

`hmac_sha256` and `hkdf_sha256`, over the digest of the library the repository links. Nothing
is assumed of that digest but its length. What a result needs of it besides is that it has no
collision among certain inputs (`NoCollision`), and the inputs that a call gives to it are
listed beside the call: two calls with keys of one length and the same result had the same key
and the same data, as long as the digest has no collision among the inputs of the two.

The hypothesis on the digest is about a list of inputs and no more. A digest without any
collision does not exist, and one that is "hard to collide" is no statement about a run; what
a run needs is that it has not hit one, among the inputs it has hashed itself. So every
function has its list beside it, and the results name the lists.
-/

set_option autoImplicit false

namespace Kiko

/-! ## Text and bytes -/

/-- `span_of`. -/
def spanOf (value : String) : Bytes := value.toByteArray.data.toList

theorem spanOf_injective : Function.Injective spanOf := by
  intro value other h
  have harray : value.toByteArray.data = other.toByteArray.data := Array.ext' h
  exact String.toByteArray_inj.mp (ByteArray.ext harray)

/-- A digit of `std::hex`. -/
def hexDigit (n : Nat) : Char := "0123456789abcdef".toList.getD n '0'

/-- `hex_encode`. -/
def hexEncode (bytes : Bytes) : String :=
  String.ofList (bytes.flatMap fun b => [hexDigit (b.toNat / 16), hexDigit (b.toNat % 16)])

theorem hexEncode_injective : Function.Injective hexEncode := by
  have hdigit : ∀ m < 16, ∀ n < 16, hexDigit m = hexDigit n → m = n := by decide
  intro bytes other h
  have hlist := String.ofList_injective h
  clear h
  induction bytes generalizing other with
  | nil =>
    cases other with
    | nil => rfl
    | cons b rest => cases hlist
  | cons b bytes ih =>
    cases other with
    | nil => cases hlist
    | cons c rest =>
      simp only [List.flatMap_cons, List.cons_append, List.nil_append, List.cons.injEq] at hlist
      have hb := b.toNat_lt
      have hc := c.toNat_lt
      have hhigh := hdigit _ (by omega) _ (by omega) hlist.1
      have hlow := hdigit _ (Nat.mod_lt _ (by decide)) _ (Nat.mod_lt _ (by decide)) hlist.2.1
      have hbyte : b = c := UInt8.toNat_inj.mp (by omega)
      rw [hbyte, ih hlist.2.2]

/-! ## The digest -/

/-- `sha256`. -/
structure Digest where
  sha256 : Bytes → Bytes
  length_sha256 : ∀ input, (sha256 input).length = 32

namespace Digest

variable (D : Digest)

/-- No two of the inputs have one digest. -/
def NoCollision (inputs : List Bytes) : Prop :=
  ∀ a ∈ inputs, ∀ b ∈ inputs, D.sha256 a = D.sha256 b → a = b

/-! ## `hmac_sha256`

Keys of one length, at most a block: the padded key can then be read back, and inner and outer
input are told apart by their first byte. -/

/-- The key, in a block. -/
def keyBlock (key : Bytes) : Bytes :=
  let key := if 64 < key.length then D.sha256 key else key
  key ++ List.replicate (64 - key.length) 0

def innerInput (key data : Bytes) : Bytes := (D.keyBlock key).map (· ^^^ 0x36) ++ data

def outerInput (key data : Bytes) : Bytes :=
  (D.keyBlock key).map (· ^^^ 0x5c) ++ D.sha256 (D.innerInput key data)

/-- `hmac_sha256`. -/
def hmacSha256 (key data : Bytes) : Bytes := D.sha256 (D.outerInput key data)

/-- What it hashes, for a key that is no longer than a block. -/
def hmacInputs (key data : Bytes) : List Bytes := [D.innerInput key data, D.outerInput key data]

/-! ## `hkdf_sha256` -/

/-- The blocks from `counter` on. -/
def hkdfBlocks (prk info : Bytes) : Nat → Bytes → UInt8 → Bytes
  | 0, _, _ => []
  | n + 1, previous, counter =>
    let block := D.hmacSha256 prk (previous ++ info ++ [counter])
    block ++ hkdfBlocks prk info n block (counter + 1)

/-- `hkdf_sha256`: as many blocks as `length` bytes take, cut to `length`. -/
def hkdfSha256 (ikm salt info : Bytes) (length : Nat) : Except KikoError Bytes :=
  if 255 * 32 < length then .error "hkdf output too long"
  else
    let saltKey := if salt = [] then List.replicate 32 0 else salt
    let prk := D.hmacSha256 saltKey ikm
    .ok ((D.hkdfBlocks prk info ((length + 31) / 32) [] 1).take length)

/-! ## What they keep apart

From equal results to equal inputs, in two steps, the outer digest and the inner one. -/

variable {D}

theorem length_hmacSha256 (key data : Bytes) : (D.hmacSha256 key data).length = 32 :=
  D.length_sha256 _

theorem NoCollision.mono {inputs inputs' : List Bytes} (h : D.NoCollision inputs)
    (hsub : inputs' ⊆ inputs) : D.NoCollision inputs' :=
  fun a ha b hb => h a (hsub ha) b (hsub hb)

theorem length_keyBlock (key : Bytes) : (D.keyBlock key).length = 64 := by
  unfold keyBlock
  by_cases hlong : 64 < key.length
  · simp [if_pos hlong, D.length_sha256]
  · simp only [if_neg hlong, List.length_append, List.length_replicate]
    omega

theorem keyBlock_inj {key key' : Bytes} (hlen : key.length = key'.length) (hle : key.length ≤ 64)
    (h : D.keyBlock key = D.keyBlock key') : key = key' := by
  have hnot : ¬ 64 < key.length := by omega
  have hnot' : ¬ 64 < key'.length := by omega
  simp only [keyBlock, if_neg hnot, if_neg hnot'] at h
  exact (List.append_inj h hlen).1

/-- One key of a given length and one datum for each result. -/
theorem hmacSha256_inj {key key' data data' : Bytes} (hlen : key.length = key'.length)
    (hle : key.length ≤ 64) (hfree : D.NoCollision (D.hmacInputs key data ++ D.hmacInputs key' data'))
    (h : D.hmacSha256 key data = D.hmacSha256 key' data') : key = key' ∧ data = data' := by
  have houter : D.outerInput key data = D.outerInput key' data' :=
    hfree _ (by simp [hmacInputs]) _ (by simp [hmacInputs]) h
  have hlength (pad : UInt8) : ((D.keyBlock key).map (· ^^^ pad)).length =
      ((D.keyBlock key').map (· ^^^ pad)).length := by simp [length_keyBlock]
  obtain ⟨hblock, hdigest⟩ := List.append_inj houter (hlength _)
  have hxor : Function.Injective fun b : UInt8 => b ^^^ 0x5c := by
    intro b c hbc
    simpa using congrArg (· ^^^ (0x5c : UInt8)) hbc
  have hinner : D.innerInput key data = D.innerInput key' data' :=
    hfree _ (by simp [hmacInputs]) _ (by simp [hmacInputs]) hdigest
  exact ⟨keyBlock_inj hlen hle (List.map_injective_iff.mpr hxor hblock),
    (List.append_inj hinner (hlength _)).2⟩

/-- A block of key material is one digest. -/
theorem hkdfSha256_block {ikm salt info : Bytes} (hsalt : salt ≠ []) :
    D.hkdfSha256 ikm salt info 32 = .ok (D.hmacSha256 (D.hmacSha256 salt ikm) (info ++ [1])) := by
  have htake : (D.hmacSha256 (D.hmacSha256 salt ikm) (info ++ [1])).take 32 =
      D.hmacSha256 (D.hmacSha256 salt ikm) (info ++ [1]) :=
    List.take_of_length_le (by simp [length_hmacSha256])
  simp [hkdfSha256, hsalt, hkdfBlocks, htake]

end Digest
end Kiko
