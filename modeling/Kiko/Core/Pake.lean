import Kiko.Core.PairingCode
import Kiko.Lib.Sha256

/-!
# The handshake (`core/pake`)

The two clients know a code and have a channel. Each sends a point of a group of prime order,
masked by the code, takes the other's mask off what it receives, and derives from the
transcript a session key and two confirmations, one for each role; it sends its own and
compares what comes back with the other's. What is received is whatever the channel delivers.

The group is that of the library: a module over the integers modulo a prime, with points and
scalars written as 32 bytes in one way each (`Ristretto`). `handshake_agrees` needs no more of
it than that its masks are not the neutral element, and of the digest that it has no collision
among what the runs hash.

What is shown is agreement, and what an attacker cannot make the sides believe; nothing is
said of how hard it is to guess a code. The channel may deliver anything in place of the
frames. That a side returns means that somebody has sent it a confirmation for its own
transcript in the other role, and without a collision only a run with that transcript has
computed one.
-/

set_option autoImplicit false

namespace Kiko

/-! ## The group

As a module over a prime field. Encodings are canonical, so two points are equal when their
bytes are, and this is what lets a transcript stand for the points in it. -/

section Handshake

variable {p : ℕ} {G : Type} [Fact p.Prime] [AddCommGroup G] [Module (ZMod p) G]

/-- `crypto_core_ristretto255` and `crypto_generichash`, as far as they are used. -/
structure Ristretto (p : ℕ) (G : Type) [Fact p.Prime] [AddCommGroup G] [Module (ZMod p) G] where
  base : G
  encode : G → Bytes
  /-- `is_valid_point`, and the point -/
  decode : Bytes → Option G
  encodeScalar : ZMod p → Bytes
  genericHash : Bytes → Bytes
  fromHash : Bytes → G
  scalarReduce : Bytes → ZMod p
  base_ne : base ≠ 0
  length_encode : ∀ point, (encode point).length = 32
  decode_encode : ∀ point, decode (encode point) = some point
  encode_of_decode : ∀ bytes point, decode bytes = some point → encode point = bytes
  length_encodeScalar : ∀ scalar, (encodeScalar scalar).length = 32
  encodeScalar_injective : Function.Injective encodeScalar

namespace Ristretto

variable (R : Ristretto p G)

/-- `hash_to_point`. -/
def hashToPoint (label : String) : G := R.fromHash (R.genericHash (spanOf label))

/-- `hash_to_scalar`. -/
def hashToScalar (material : String) : ZMod p := R.scalarReduce (R.genericHash (spanOf material))

/-- What a role adds to its point, and the other takes off: `point_m` and `point_n`. -/
def mask : Role → G
  | .sender => R.hashToPoint "kiko-cpace-M"
  | .receiver => R.hashToPoint "kiko-cpace-N"

/-- The `w` of `perform_handshake`. -/
def passwordScalar (code : String) : ZMod p := R.hashToScalar ("kiko-pake:" ++ (splitCode code).secret)

end Ristretto

/-! ## One side -/

structure Transcript (p : ℕ) (G : Type) where
  senderElem : G
  receiverElem : G
  shared : G
  w : ZMod p

def Transcript.bytes (R : Ristretto p G) (t : Transcript p G) : Bytes :=
  R.encode (R.mask .sender) ++ R.encode (R.mask .receiver) ++ R.encode t.senderElem ++
    R.encode t.receiverElem ++ R.encode t.shared ++ R.encodeScalar t.w

/-- `session_okm`, `mac_sender` and `mac_receiver`. -/
structure Derived where
  session : Bytes
  mac : Role → Bytes

/-- The label of a role's confirmation key. -/
def confirmInfo : Role → String
  | .sender => "confirm-sender"
  | .receiver => "confirm-receiver"

/-- The digests of `perform_handshake`. -/
def derive (D : Digest) (transcript : Bytes) : Except KikoError Derived := do
  let master := D.sha256 transcript
  let salt := spanOf "kiko-cpace-v1"
  let session ← D.hkdfSha256 master salt (spanOf "session") 32
  let kcSender ← D.hkdfSha256 master salt (spanOf (confirmInfo .sender)) 32
  let kcReceiver ← D.hkdfSha256 master salt (spanOf (confirmInfo .receiver)) 32
  let confirmLabel := spanOf "kiko-confirm"
  return {
    session := session
    mac := fun
      | .sender => D.hmacSha256 kcSender confirmLabel
      | .receiver => D.hmacSha256 kcReceiver confirmLabel }

variable (R : Ristretto p G) (D : Digest)

/-! ## What is derived from a transcript

A transcript is a row of encodings of 32 bytes each, so it can be read off its bytes; from
there on injectivity goes through the digests, one after the other. -/

def prk (D : Digest) (transcript : Bytes) : Bytes :=
  D.hmacSha256 (spanOf "kiko-cpace-v1") (D.sha256 transcript)

def confirmKey (D : Digest) (role : Role) (transcript : Bytes) : Bytes :=
  D.hmacSha256 (prk D transcript) (spanOf (confirmInfo role) ++ [1])

/-- The confirmation of a role. -/
def confirmation (D : Digest) (role : Role) (transcript : Bytes) : Bytes :=
  D.hmacSha256 (confirmKey D role transcript) (spanOf "kiko-confirm")

def sessionKey (D : Digest) (transcript : Bytes) : Bytes :=
  D.hmacSha256 (prk D transcript) (spanOf "session" ++ [1])

/-- What is hashed for the two confirmations. -/
def confirmInputs (D : Digest) (transcript : Bytes) : List Bytes :=
  [transcript] ++ D.hmacInputs (spanOf "kiko-cpace-v1") (D.sha256 transcript) ++
    [Role.sender, .receiver].flatMap fun role =>
      D.hmacInputs (prk D transcript) (spanOf (confirmInfo role) ++ [1]) ++
        D.hmacInputs (confirmKey D role transcript) (spanOf "kiko-confirm")

theorem derive_eq (transcript : Bytes) :
    derive D transcript =
      .ok { session := sessionKey D transcript, mac := fun role => confirmation D role transcript } := by
  have hsalt : spanOf "kiko-cpace-v1" ≠ [] := by decide
  have hmac : (fun role => confirmation D role transcript) = fun
      | .sender => confirmation D .sender transcript
      | .receiver => confirmation D .receiver transcript := by
    funext role
    cases role <;> rfl
  rw [hmac]
  simp only [derive, Digest.hkdfSha256_block hsalt, bind, Except.bind, pure, Except.pure]
  rfl

theorem confirmInputs_sub {D : Digest} (role : Role) (transcript : Bytes) :
    D.hmacInputs (spanOf "kiko-cpace-v1") (D.sha256 transcript) ⊆ confirmInputs D transcript ∧
    D.hmacInputs (prk D transcript) (spanOf (confirmInfo role) ++ [1]) ⊆ confirmInputs D transcript ∧
    D.hmacInputs (confirmKey D role transcript) (spanOf "kiko-confirm") ⊆ confirmInputs D transcript := by
  refine ⟨fun a ha => ?_, fun a ha => ?_, fun a ha => ?_⟩
  · simp [confirmInputs, ha]
  · cases role <;> simp [confirmInputs, ha]
  · cases role <;> simp [confirmInputs, ha]

/-- **A confirmation belongs to one role and one transcript.** -/
theorem confirmation_inj {D : Digest} {role role' : Role} {transcript transcript' : Bytes}
    (hfree : D.NoCollision (confirmInputs D transcript ++ confirmInputs D transcript'))
    (h : confirmation D role transcript = confirmation D role' transcript') :
    role = role' ∧ transcript = transcript' := by
  obtain ⟨hsalt, hinfo, hlabel⟩ := confirmInputs_sub (D := D) role transcript
  obtain ⟨hsalt', hinfo', hlabel'⟩ := confirmInputs_sub (D := D) role' transcript'
  have happ {l l' : List Bytes} (hl : l ⊆ confirmInputs D transcript)
      (hl' : l' ⊆ confirmInputs D transcript') : D.NoCollision (l ++ l') :=
    hfree.mono (List.append_subset.mpr
      ⟨fun a ha => List.mem_append_left _ (hl ha), fun a ha => List.mem_append_right _ (hl' ha)⟩)
  -- back through the three keyed digests, and the digest of the transcript
  have hkey := (Digest.hmacSha256_inj (by simp [confirmKey, Digest.length_hmacSha256])
    (by simp [confirmKey, Digest.length_hmacSha256]) (happ hlabel hlabel') h).1
  obtain ⟨hprk, hinfos⟩ := Digest.hmacSha256_inj (by simp [prk, Digest.length_hmacSha256])
    (by simp [prk, Digest.length_hmacSha256]) (happ hinfo hinfo') hkey
  have hmaster := (Digest.hmacSha256_inj rfl (by decide) (happ hsalt hsalt') hprk).2
  refine ⟨?_, hfree _ (by simp [confirmInputs]) _ (by simp [confirmInputs]) hmaster⟩
  have hroles : confirmInfo role = confirmInfo role' :=
    spanOf_injective (List.append_inj_left' hinfos rfl)
  cases role <;> cases role' <;> first | rfl | exact absurd hroles (by decide)

/-- A transcript can be read off its bytes. -/
theorem Transcript.bytes_injective : Function.Injective (Transcript.bytes R) := by
  have hencode : Function.Injective R.encode := by
    intro a b h
    have := congrArg R.decode h
    rwa [R.decode_encode, R.decode_encode, Option.some.injEq] at this
  intro t t' h
  have hlen (a b : G) : (R.encode a).length = (R.encode b).length := by
    rw [R.length_encode, R.length_encode]
  simp only [Transcript.bytes] at h
  obtain ⟨h, hw⟩ := List.append_inj' h (by rw [R.length_encodeScalar, R.length_encodeScalar])
  obtain ⟨h, hshared⟩ := List.append_inj' h (hlen _ _)
  obtain ⟨h, hreceiver⟩ := List.append_inj' h (hlen _ _)
  obtain ⟨-, hsender⟩ := List.append_inj' h (hlen _ _)
  obtain ⟨senderElem, receiverElem, shared, w⟩ := t
  obtain ⟨senderElem', receiverElem', shared', w'⟩ := t'
  obtain rfl := hencode hsender
  obtain rfl := hencode hreceiver
  obtain rfl := hencode hshared
  obtain rfl := R.encodeScalar_injective hw
  rfl

/-! ## A run

What is received is an argument, absent where nothing came. The result says what was sent up
to the point where the run stopped. -/

/-- A run of one side: what it sends, and what it returns. -/
structure Handshake (p : ℕ) (G : Type) where
  sent : List Bytes
  /-- history -/
  transcript : Option (Transcript p G) := none
  result : Except KikoError Bytes

variable [DecidableEq G]

/-- `scalar_base` and `scalar_mul`: the library refuses the neutral element as a result. -/
def scalarMul (error : KikoError) (scalar : ZMod p) (point : G) : Except KikoError G :=
  if scalar • point = 0 then .error error else .ok (scalar • point)

def selfPoint (role : Role) (w x : ZMod p) : Except KikoError G := do
  let point ← scalarMul "scalar base failed" x R.base
  let masked ← scalarMul "scalar mul failed" w (R.mask role)
  return point + masked

def peerPoint (peerFrame : Option Bytes) : Except KikoError G :=
  match peerFrame with
  | none => .error "peer closed during handshake"
  | some frame =>
    if frame.length ≠ 32 then .error "peer closed during handshake"
    else match R.decode frame with
      | none => .error "invalid ristretto255 point"
      | some point => .ok point

/-- `sender_elem`. -/
def senderElem {α : Type} (role : Role) (self peer : α) : α :=
  match role with
  | .sender => self
  | .receiver => peer

/-- `receiver_elem`. -/
def receiverElem {α : Type} (role : Role) (self peer : α) : α :=
  match role with
  | .sender => peer
  | .receiver => self

def transcribe (role : Role) (w x : ZMod p) (self peer : G) : Except KikoError (Transcript p G) := do
  let masked ← scalarMul "scalar mul failed" w (R.mask role.peer)
  let shared ← scalarMul "scalar mul failed" x (peer - masked)
  return {
    senderElem := senderElem role self peer
    receiverElem := receiverElem role self peer
    shared := shared
    w := w }

/-- The random scalar that is used for a drawn one. -/
def ephemeral (random : ZMod p) : ZMod p := if random = 0 then 1 else random

/-- `perform_handshake`, with the random scalar it draws and the two frames it receives, if
    they come. -/
def performHandshake (role : Role) (code : String) (random : ZMod p)
    (peerFrame peerMac : Option Bytes) : Handshake p G :=
  let w := R.passwordScalar code
  let x := ephemeral random
  match selfPoint R role w x with
  | .error e => { sent := [], result := .error e }
  | .ok self =>
    match peerPoint R peerFrame >>= transcribe R role w x self with
    | .error e => { sent := [R.encode self], result := .error e }
    | .ok t =>
      match derive D (t.bytes R) with
      | .error e => { sent := [R.encode self], transcript := some t, result := .error e }
      | .ok derived =>
        { sent := [R.encode self, derived.mac role]
          transcript := some t
          result :=
            match peerMac with
            | none => .error "peer closed during key confirmation"
            | some mac =>
              if mac ≠ derived.mac role.peer then
                .error "key confirmation failed: wrong code or tampering detected"
              else .ok derived.session }

/-! ## What a run comes to -/

variable {R D} {role : Role} {code code' : String} {random random' : ZMod p}
  {peerFrame peerMac : Option Bytes} {key : Bytes}

theorem transcribe_ok {w x : ZMod p} {self peer : G} {t : Transcript p G}
    (h : transcribe R role w x self peer = .ok t) : t.w = w := by
  obtain ⟨masked, -, h⟩ := exists_of_bind_ok h
  obtain ⟨shared, -, h⟩ := exists_of_bind_ok h
  rw [← Except.ok.inj h]

/-- A run with a transcript has sent the confirmation of its role, and waits for the other's. -/
theorem performHandshake_eq {self : G} {t : Transcript p G}
    (hself : selfPoint R role (R.passwordScalar code) (ephemeral random) = .ok self)
    (ht : peerPoint R peerFrame >>= transcribe R role (R.passwordScalar code) (ephemeral random) self =
      .ok t) :
    performHandshake R D role code random peerFrame peerMac =
      { sent := [R.encode self, confirmation D role (t.bytes R)]
        transcript := some t
        result :=
          match peerMac with
          | none => .error "peer closed during key confirmation"
          | some mac =>
            if mac ≠ confirmation D role.peer (t.bytes R) then
              .error "key confirmation failed: wrong code or tampering detected"
            else .ok (sessionKey D (t.bytes R)) } := by
  simp only [performHandshake, hself, ht, derive_eq]

/-- A run that returns has a transcript, has received the confirmation of the other role for it,
    and returns its session key. -/
theorem performHandshake_ok (h : (performHandshake R D role code random peerFrame peerMac).result = .ok key) :
    ∃ t self, (performHandshake R D role code random peerFrame peerMac).transcript = some t ∧
      (performHandshake R D role code random peerFrame peerMac).sent =
        [R.encode self, confirmation D role (t.bytes R)] ∧
      peerMac = some (confirmation D role.peer (t.bytes R)) ∧
      key = sessionKey D (t.bytes R) ∧ t.w = R.passwordScalar code := by
  cases hself : selfPoint R role (R.passwordScalar code) (ephemeral random) with
  | error e => simp [performHandshake, hself] at h
  | ok self =>
    cases ht : peerPoint R peerFrame >>=
        transcribe R role (R.passwordScalar code) (ephemeral random) self with
    | error e => simp [performHandshake, hself, ht] at h
    | ok t =>
      rw [performHandshake_eq hself ht] at h ⊢
      obtain ⟨peer, -, hpeer⟩ := exists_of_bind_ok ht
      cases peerMac with
      | none => cases h
      | some mac =>
        by_cases hmac : mac = confirmation D role.peer (t.bytes R)
        · simp only [ne_eq, hmac, not_true, if_false] at h
          exact ⟨t, self, rfl, rfl, congrArg some hmac, (Except.ok.inj h).symm, transcribe_ok hpeer⟩
        · simp only [ne_eq, hmac, not_false_eq_true, if_true] at h
          cases h

/-! ## Honest sides -/

/-- The point of an honest side. -/
def honestPoint (R : Ristretto p G) (role : Role) (w x : ZMod p) : G := x • R.base + w • R.mask role

theorem ephemeral_ne (random : ZMod p) : ephemeral random ≠ 0 := by
  unfold ephemeral
  by_cases h : random = 0
  · rw [if_pos h]
    exact one_ne_zero
  · rw [if_neg h]
    exact h

theorem scalarMul_eq {error : KikoError} {scalar : ZMod p} {point : G} (hs : scalar ≠ 0) (hp : point ≠ 0) :
    scalarMul error scalar point = .ok (scalar • point) :=
  if_neg (smul_ne_zero hs hp)

theorem selfPoint_eq (hmask : R.mask role ≠ 0) {w x : ZMod p} (hw : w ≠ 0) (hx : x ≠ 0) :
    selfPoint R role w x = .ok (honestPoint R role w x) := by
  simp only [selfPoint, scalarMul_eq hx R.base_ne, scalarMul_eq hw hmask]
  rfl

/-- What both sides have of a handshake between honest sides. -/
def honestTranscript (R : Ristretto p G) (w x y : ZMod p) : Transcript p G where
  senderElem := honestPoint R .sender w x
  receiverElem := honestPoint R .receiver w y
  shared := (x * y) • R.base
  w := w

/-- Off the other's mask, what is left is the product of the two scalars. -/
theorem transcribe_honest (hmask : R.mask role.peer ≠ 0) {w x y : ZMod p} (hw : w ≠ 0) (hx : x ≠ 0)
    (hy : y ≠ 0) :
    transcribe R role w x (honestPoint R role w x) (honestPoint R role.peer w y) =
      .ok (honestTranscript R w (senderElem role x y) (receiverElem role x y)) := by
  have hunmask : honestPoint R role.peer w y - w • R.mask role.peer = y • R.base := by
    simp [honestPoint]
  have hshared : x • y • R.base = (senderElem role x y * receiverElem role x y) • R.base := by
    cases role
    · exact smul_smul x y R.base
    · exact (smul_smul x y R.base).trans (by rw [mul_comm]; rfl)
  simp only [transcribe, scalarMul_eq hw hmask, bind, Except.bind, hunmask,
    scalarMul_eq hx (smul_ne_zero hy R.base_ne), hshared]
  cases role <;> rfl

/-- The first frame does not wait for one. -/
theorem sent_head {self : G}
    (hself : selfPoint R role (R.passwordScalar code) (ephemeral random) = .ok self) :
    (performHandshake R D role code random peerFrame peerMac).sent[0]? = some (R.encode self) := by
  simp only [performHandshake, hself]
  cases peerPoint R peerFrame >>= transcribe R role (R.passwordScalar code) (ephemeral random) self with
  | error e => rfl
  | ok t => simp only [derive_eq, List.getElem?_cons_zero]

/-- The run of an honest side that receives the point of another. -/
theorem performHandshake_honest (hmask : ∀ role, R.mask role ≠ 0) (hw : R.passwordScalar code ≠ 0) :
    performHandshake R D role code random
        (some (R.encode (honestPoint R role.peer (R.passwordScalar code) (ephemeral random')))) peerMac =
      let t := honestTranscript R (R.passwordScalar code)
        (senderElem role (ephemeral random) (ephemeral random'))
        (receiverElem role (ephemeral random) (ephemeral random'))
      { sent := [R.encode (honestPoint R role (R.passwordScalar code) (ephemeral random)),
          confirmation D role (t.bytes R)]
        transcript := some t
        result :=
          match peerMac with
          | none => .error "peer closed during key confirmation"
          | some mac =>
            if mac ≠ confirmation D role.peer (t.bytes R) then
              .error "key confirmation failed: wrong code or tampering detected"
            else .ok (sessionKey D (t.bytes R)) } := by
  have hself := selfPoint_eq (hmask role) hw (ephemeral_ne random)
  refine performHandshake_eq hself ?_
  have hpeer (point : G) : peerPoint R (some (R.encode point)) = .ok point := by
    simp [peerPoint, R.length_encode, R.decode_encode]
  rw [hpeer]
  exact transcribe_honest (hmask role.peer) hw (ephemeral_ne random) (ephemeral_ne random')

/-- Each of the two runs receives what the other sends. -/
structure Connected (R : Ristretto p G) (D : Digest) (code code' : String) (random random' : ZMod p)
    (S T : Handshake p G) : Prop where
  sender : S = performHandshake R D .sender code random T.sent[0]? T.sent[1]?
  receiver : T = performHandshake R D .receiver code' random' S.sent[0]? S.sent[1]?

/-- Two honest sides with one password scalar have one transcript, and return its key. -/
theorem Connected.agree (hmask : ∀ role, R.mask role ≠ 0)
    (hsame : R.passwordScalar code = R.passwordScalar code') (hw : R.passwordScalar code ≠ 0)
    {S T : Handshake p G} (h : Connected R D code code' random random' S T) :
    ∃ t, t = honestTranscript R (R.passwordScalar code) (ephemeral random) (ephemeral random') ∧
      S.transcript = some t ∧ T.transcript = some t ∧
      S.result = .ok (sessionKey D (t.bytes R)) ∧ T.result = .ok (sessionKey D (t.bytes R)) := by
  have hw' : R.passwordScalar code' ≠ 0 := hsame ▸ hw
  have hS : S.sent[0]? =
      some (R.encode (honestPoint R .sender (R.passwordScalar code) (ephemeral random))) := by
    rw [h.sender]
    exact sent_head (selfPoint_eq (hmask _) hw (ephemeral_ne _))
  have hT : T.sent[0]? =
      some (R.encode (honestPoint R .receiver (R.passwordScalar code) (ephemeral random'))) := by
    rw [h.receiver, hsame]
    exact sent_head (selfPoint_eq (hmask _) hw' (ephemeral_ne _))
  have hsender := h.sender
  have hreceiver := h.receiver
  rw [hT] at hsender
  rw [hS, hsame] at hreceiver
  replace hsender := hsender.trans (performHandshake_honest hmask hw)
  replace hreceiver := hreceiver.trans (performHandshake_honest hmask hw')
  rw [← hsame] at hreceiver
  -- the transcripts are one, and so each confirmation is the one that is expected
  have hT' : T.sent[1]? = some (confirmation D .receiver ((honestTranscript R (R.passwordScalar code)
      (ephemeral random) (ephemeral random')).bytes R)) := by
    rw [hreceiver]
    rfl
  have hS' : S.sent[1]? = some (confirmation D .sender ((honestTranscript R (R.passwordScalar code)
      (ephemeral random) (ephemeral random')).bytes R)) := by
    rw [hsender]
    rfl
  rw [hT'] at hsender
  rw [hS'] at hreceiver
  refine ⟨_, rfl, by rw [hsender]; rfl, by rw [hreceiver]; rfl, ?_, ?_⟩
  · rw [hsender]
    exact if_neg (not_not.mpr rfl)
  · rw [hreceiver]
    exact if_neg (not_not.mpr rfl)

/-- There are such runs. -/
theorem exists_connected (hmask : ∀ role, R.mask role ≠ 0)
    (hsame : R.passwordScalar code = R.passwordScalar code') (hw : R.passwordScalar code ≠ 0) :
    ∃ S T, Connected R D code code' random random' S T := by
  have hw' : R.passwordScalar code' ≠ 0 := hsame ▸ hw
  let t := honestTranscript R (R.passwordScalar code) (ephemeral random) (ephemeral random')
  let S := performHandshake R D .sender code random
    (some (R.encode (honestPoint R .receiver (R.passwordScalar code) (ephemeral random'))))
    (some (confirmation D .receiver (t.bytes R)))
  let T := performHandshake R D .receiver code' random'
    (some (R.encode (honestPoint R .sender (R.passwordScalar code) (ephemeral random))))
    (some (confirmation D .sender (t.bytes R)))
  have hS : S.sent = [R.encode (honestPoint R .sender (R.passwordScalar code) (ephemeral random)),
      confirmation D .sender (t.bytes R)] :=
    congrArg Handshake.sent (performHandshake_honest hmask hw)
  have hT : T.sent = [R.encode (honestPoint R .receiver (R.passwordScalar code) (ephemeral random')),
      confirmation D .receiver (t.bytes R)] := by
    simp only [T, t, hsame]
    exact congrArg Handshake.sent (performHandshake_honest hmask hw')
  refine ⟨S, T, ?_, ?_⟩
  · rw [hT]
    rfl
  · rw [hS]
    rfl

/-! ## Whatever the channel delivers

Agreement in the honest case is algebra. In the other case it is the injectivity of the
confirmations, and reflection is excluded because the two roles have different labels. -/

/-- **The handshake agrees.** Over an honest channel two sides with one password scalar return
    one key. Over any channel, a sender and a receiver that return, each with the confirmation
    that the other sent, have one password scalar, one transcript and one key; and no side
    returns with a confirmation of its own. -/
theorem handshake_agrees (R : Ristretto p G) (D : Digest) (hmask : ∀ role, R.mask role ≠ 0) :
    (∀ code code' random random', R.passwordScalar code = R.passwordScalar code' →
      R.passwordScalar code ≠ 0 →
      (∃ S T, Connected R D code code' random random' S T) ∧
      ∀ S T, Connected R D code code' random random' S T →
        ∃ key, S.result = .ok key ∧ T.result = .ok key) ∧
    (∀ code code' random random' frame frame' mac mac' S T t t' key key',
      S = performHandshake R D .sender code random frame mac →
      T = performHandshake R D .receiver code' random' frame' mac' →
      S.transcript = some t → T.transcript = some t' →
      D.NoCollision (confirmInputs D (t.bytes R) ++ confirmInputs D (t'.bytes R)) →
      S.result = .ok key → T.result = .ok key' → mac = T.sent[1]? → mac' = S.sent[1]? →
      R.passwordScalar code = R.passwordScalar code' ∧ t = t' ∧ key = key') ∧
    ∀ role code random frame mac S t,
      S = performHandshake R D role code random frame mac → S.transcript = some t →
      D.NoCollision (confirmInputs D (t.bytes R)) → mac = S.sent[1]? → ∀ key, S.result ≠ .ok key := by
  refine ⟨fun code code' random random' hsame hw => ⟨exists_connected hmask hsame hw, fun S T h => ?_⟩,
    ?_, ?_⟩
  · obtain ⟨t, -, -, -, hS, hT⟩ := h.agree hmask hsame hw
    exact ⟨sessionKey D (t.bytes R), hS, hT⟩
  · rintro code code' random random' frame frame' mac mac' S T t t' key key' rfl rfl ht ht' hfree hkey
      hkey' hmac -
    obtain ⟨u, self, hu, -, hexpected, rfl, hscalar⟩ := performHandshake_ok hkey
    obtain ⟨u', self', hu', hsent, -, rfl, hscalar'⟩ := performHandshake_ok hkey'
    obtain rfl := Option.some.inj (ht.symm.trans hu)
    obtain rfl := Option.some.inj (ht'.symm.trans hu')
    rw [hmac, hsent] at hexpected
    have hbytes := (confirmation_inj hfree (Option.some.inj hexpected).symm).2
    obtain rfl := Transcript.bytes_injective R hbytes
    exact ⟨hscalar.symm.trans hscalar', rfl, rfl⟩
  · rintro role code random frame mac S t rfl ht hfree hmac key hkey
    obtain ⟨u, self, hu, hsent, hexpected, -, -⟩ := performHandshake_ok hkey
    obtain rfl := Option.some.inj (ht.symm.trans hu)
    rw [hsent] at hmac
    have hown := Option.some.inj (hmac.symm.trans hexpected)
    have hroles := (confirmation_inj (hfree.mono (List.append_subset.mpr ⟨fun _ h => h, fun _ h => h⟩)) hown).1
    exact Role.peer_ne role hroles.symm

end Handshake

/-! ## A small group -/

/-- The integers modulo 3. A hash to a point is 1 or 2, and a hash to a scalar the length of the
    input. -/
def smallGroup : Ristretto 3 (ZMod 3) where
  base := 1
  encode point := UInt8.ofNat point.val :: List.replicate 31 0
  decode bytes :=
    if bytes = 0 :: List.replicate 31 0 then some 0
    else if bytes = 1 :: List.replicate 31 0 then some 1
    else if bytes = 2 :: List.replicate 31 0 then some 2
    else none
  encodeScalar scalar := UInt8.ofNat scalar.val :: List.replicate 31 0
  genericHash input := input
  fromHash hash := if hash = spanOf "kiko-cpace-M" then 1 else 2
  scalarReduce hash := hash.length
  base_ne := by decide
  length_encode := by decide
  decode_encode := by decide
  encode_of_decode := by
    intro bytes point h
    split_ifs at h with h₀ h₁ h₂
    · exact h₀ ▸ Option.some.inj h ▸ rfl
    · exact h₁ ▸ Option.some.inj h ▸ rfl
    · exact h₂ ▸ Option.some.inj h ▸ rfl
  length_encodeScalar := by decide
  encodeScalar_injective := by decide

def sodiumDigest : Digest where
  sha256 := Sha256.sha256
  length_sha256 := Sha256.length_sha256

theorem smallGroup_mask (role : Role) : smallGroup.mask role ≠ 0 := by
  cases role
  · decide
  · decide

theorem smallGroup_transcript : sodiumDigest.NoCollision
    (confirmInputs sodiumDigest ((honestTranscript smallGroup 1 1 2).bytes smallGroup)) := by
  intro a ha b hb h
  have hnodup : ((confirmInputs sodiumDigest
      ((honestTranscript smallGroup 1 1 2).bytes smallGroup)).map sodiumDigest.sha256).Nodup := by
    decide +kernel
  exact List.inj_on_of_nodup_map hnodup ha hb h

theorem handshake_agrees_small : (∃ S T : Handshake 3 (ZMod 3),
    Connected smallGroup sodiumDigest "abc" "abc" 1 2 S T ∧
    (∃ key, S.result = .ok key ∧ T.result = .ok key) ∧ S.transcript = T.transcript) ∧
    ∀ key, (performHandshake smallGroup sodiumDigest .sender "abc" 1
      (some (smallGroup.encode (honestPoint smallGroup .receiver 1 2)))
      (some (confirmation sodiumDigest .sender
        ((honestTranscript smallGroup 1 1 2).bytes smallGroup)))).result ≠ .ok key := by
  obtain ⟨hhonest, hany, hown⟩ := handshake_agrees smallGroup sodiumDigest smallGroup_mask
  constructor
  · obtain ⟨⟨S, T, h⟩, hkey⟩ := hhonest "abc" "abc" 1 2 rfl (by decide)
    obtain ⟨key, hS, hT⟩ := hkey S T h
    obtain ⟨t, rfl, hSt, hTt, -, -⟩ := h.agree smallGroup_mask rfl (by decide)
    obtain ⟨-, hsame, -⟩ := hany _ _ _ _ _ _ _ _ S T _ _ key key h.sender h.receiver hSt hTt
      (smallGroup_transcript.mono (List.append_subset.mpr ⟨fun _ h => h, fun _ h => h⟩)) hS hT rfl rfl
    exact ⟨S, T, h, ⟨key, hS, hT⟩, hSt.trans hTt.symm⟩
  · have hself := @performHandshake_honest 3 (ZMod 3) _ _ _ smallGroup sodiumDigest _ .sender "abc" 1 2
      (some (confirmation sodiumDigest .sender ((honestTranscript smallGroup 1 1 2).bytes smallGroup)))
      smallGroup_mask (by decide)
    exact hown _ _ _ _ _ _ _ rfl (congrArg Handshake.transcript hself) smallGroup_transcript
      (congrArg (fun S : Handshake 3 (ZMod 3) => S.sent[1]?) hself).symm

end Kiko
