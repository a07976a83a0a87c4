import Kiko.Core.MessageText
import Kiko.Note.Protocol

/-!
# Note frames as text (`note/note_protocol`)

A note frame is a control message of the type `note`, encrypted as one frame of the connection.
Four limits have to line up: the fields', the text's, and on the other side the cap on an
encrypted frame and again the fields'. The worst text is one of a million control characters,
each six bytes in JSON; what is left of `kNoteMaxWireBytes` then is enough for the worst of the
other fields (`length_encodeMessage_noteMessage`), and that is the whole argument of
`note_codec`: both sides check alike, so what one sends the other accepts.

The cipher is libsodium's; of it, that a ciphertext is longer by the tag and can be decrypted.

The limits are constants and the worst case is arithmetic, but the arithmetic is about the text
a library writes, so it goes through a bound on that text which any library has to meet
(`Json.Library`). A limit that did not line up would show as a note that one side can type and
the other drops the connection over.
-/

set_option autoImplicit false

namespace Kiko.Note

def kNoteMaxPadIdBytes : Nat := 128
def kNoteMaxTitleBytes : Nat := 256
def kNoteMaxWriterIdBytes : Nat := 128
def kNoteMaxWireBytes : Nat := 6 * kNoteMaxBytes + 4096

/-- `kNoteFrameTypes`. -/
def kNoteFrameTypes : List (NoteFrameType × String) :=
  [(.hello, "hello"), (.update, "update"), (.clear, "clear"), (.ack, "ack"), (.ping, "ping"),
    (.bye, "bye")]

/-- `note_frame_type_name`. -/
def noteFrameTypeName (type : NoteFrameType) : String :=
  ((kNoteFrameTypes.find? fun entry => entry.1 = type).map (·.2)).getD "update"

/-- `parse_note_frame_type`. -/
def parseNoteFrameType (value : String) : Except KikoError NoteFrameType :=
  match kNoteFrameTypes.find? fun entry => value = entry.2 with
  | some (type, _) => .ok type
  | none => .error ("unknown note frame kind: " ++ value)

/-- `validate_note_frame_fields`. -/
def validateNoteFrameFields (frame : NoteFrame) : Except KikoError Unit :=
  if kNoteMaxBytes < frame.text.utf8ByteSize then .error "note text exceeds 1 MiB limit"
  else if kNoteMaxPadIdBytes < frame.padId.utf8ByteSize then
    .error "note pad id exceeds 128 byte limit"
  else if kNoteMaxTitleBytes < frame.title.utf8ByteSize then
    .error "note title exceeds 256 byte limit"
  else if kNoteMaxWriterIdBytes < frame.writerId.utf8ByteSize then
    .error "note writer id exceeds 128 byte limit"
  else .ok ()

/-- The message of a frame. -/
def noteMessage (frame : NoteFrame) : Message :=
  { type := "note"
    fields := KeyMap.assignAll
      [("kind", noteFrameTypeName frame.type),
        ("protocol_version", toString frame.protocolVersion),
        ("revision", toString frame.revision),
        ("timestamp_ms", toString frame.timestampMs),
        ("writer_id", frame.writerId),
        ("pad_id", normalizedPadId frame.padId),
        ("title", frame.title),
        ("text", frame.text)] [] }

/-- `encode_note_frame`. -/
def encodeNoteFrame (lib : Json.Library) (frame : NoteFrame) : Except KikoError Bytes := do
  validateNoteFrameFields frame
  let payload := encodeMessage lib (noteMessage frame)
  if kNoteMaxWireBytes < payload.length then throw "note frame exceeds wire size limit"
  return payload

/-- `decode_note_frame`. -/
def decodeNoteFrame (lib : Json.Library) (payload : Bytes) : Except KikoError NoteFrame := do
  if kNoteMaxWireBytes < payload.length then throw "note frame exceeds wire size limit"
  let msg ← decodeMessage lib payload
  if msg.type ≠ "note" then throw ("unexpected note frame: " ++ msg.type)
  let type ← parseNoteFrameType (msg.get "kind")
  let protocolVersion ← msg.getU64 "protocol_version" 0
  let revision ← msg.getU64 "revision" 0
  let timestampMs ← msg.getU64 "timestamp_ms" 0
  let frame : NoteFrame :=
    { type := type
      protocolVersion := protocolVersion
      revision := revision
      timestampMs := timestampMs
      writerId := msg.get "writer_id"
      padId := normalizedPadId (msg.get "pad_id" "main")
      title := msg.get "title"
      text := msg.get "text" }
  validateNoteFrameFields frame
  return frame

/-! ## The cipher around it -/

/-- `crypto_aead_xchacha20poly1305_ietf_NPUBBYTES`. -/
def aeadNonceBytes : Nat := 24

/-- `crypto_aead_xchacha20poly1305_ietf_ABYTES`. -/
def aeadTagBytes : Nat := 16

/-- `kNoteCipherOverhead`. -/
def kNoteCipherOverhead : Nat := aeadNonceBytes + aeadTagBytes

/-- The library's cipher under one key, with the nonce as its first argument. -/
structure Aead where
  encrypt : Bytes → Bytes → Bytes
  decrypt : Bytes → Bytes → Option Bytes
  length_encrypt : ∀ nonce plaintext, (encrypt nonce plaintext).length = plaintext.length + aeadTagBytes
  decrypt_encrypt : ∀ nonce plaintext, decrypt nonce (encrypt nonce plaintext) = some plaintext

/-- `StreamCipher::encrypt`, with the nonce it draws. -/
def Aead.seal (aead : Aead) (nonce plaintext : Bytes) : Bytes := nonce ++ aead.encrypt nonce plaintext

/-- `StreamCipher::decrypt`. -/
def Aead.unseal (aead : Aead) (ciphertext : Bytes) : Except KikoError Bytes :=
  if ciphertext.length < aeadNonceBytes + aeadTagBytes then .error "ciphertext too short"
  else match aead.decrypt (ciphertext.take aeadNonceBytes) (ciphertext.drop aeadNonceBytes) with
    | none => .error "decrypt authentication failed"
    | some plaintext => .ok plaintext

/-- The frame that `send_note_frame` sends. -/
def sendNoteFrame (lib : Json.Library) (aead : Aead) (nonce : Bytes) (frame : NoteFrame) :
    Except KikoError Bytes := do
  let payload ← encodeNoteFrame lib frame
  return aead.seal nonce payload

/-- What `recv_note_frame_timeout` makes of a frame that has come in. -/
def recvNoteFrame (lib : Json.Library) (aead : Aead) (encrypted : Bytes) : Except KikoError NoteFrame := do
  if kNoteMaxWireBytes + kNoteCipherOverhead < encrypted.length then throw "received frame too large"
  let plain ← aead.unseal encrypted
  decodeNoteFrame lib plain

/-! ## Both ways -/

variable {lib : Json.Library} {frame f : NoteFrame} {payload : Bytes}

/-- The frame's numbers have 64 bits. -/
structure NoteFrame.Fits (frame : NoteFrame) : Prop where
  protocolVersion : frame.protocolVersion ≤ u64Max
  revision : frame.revision ≤ u64Max
  timestampMs : frame.timestampMs ≤ u64Max

/-- The frame with the id of its pad spelled out. -/
def NoteFrame.normalized (frame : NoteFrame) : NoteFrame :=
  { frame with padId := normalizedPadId frame.padId }

/-- What `validate_note_frame_fields` asks for. -/
structure NoteFrame.Within (frame : NoteFrame) : Prop where
  text : frame.text.utf8ByteSize ≤ kNoteMaxBytes
  padId : frame.padId.utf8ByteSize ≤ kNoteMaxPadIdBytes
  title : frame.title.utf8ByteSize ≤ kNoteMaxTitleBytes
  writerId : frame.writerId.utf8ByteSize ≤ kNoteMaxWriterIdBytes

theorem validateNoteFrameFields_ok_iff : validateNoteFrameFields f = .ok () ↔ f.Within := by
  unfold validateNoteFrameFields
  constructor
  · intro h
    split at h
    · cases h
    split at h
    · cases h
    split at h
    · cases h
    split at h
    · cases h
    exact ⟨by omega, by omega, by omega, by omega⟩
  · rintro ⟨htext, hpad, htitle, hwriter⟩
    rw [if_neg (not_lt.mpr htext), if_neg (not_lt.mpr hpad), if_neg (not_lt.mpr htitle),
      if_neg (not_lt.mpr hwriter)]

theorem normalizedPadId_normalizedPadId (pad : String) :
    normalizedPadId (normalizedPadId pad) = normalizedPadId pad := by
  by_cases h : pad = ""
  · rw [h]
    rfl
  · have hself : normalizedPadId pad = pad := if_neg h
    rw [hself, hself]

/-- `main` is shorter than any limit. -/
theorem NoteFrame.Within.normalized (h : f.Within) : f.normalized.Within := by
  refine ⟨h.text, ?_, h.title, h.writerId⟩
  by_cases hpad : f.padId = ""
  · rw [NoteFrame.normalized, hpad]
    exact (by decide : (normalizedPadId "").utf8ByteSize ≤ kNoteMaxPadIdBytes)
  · rw [NoteFrame.normalized, normalizedPadId, if_neg hpad]
    exact h.padId

theorem parseNoteFrameType_name (type : NoteFrameType) :
    parseNoteFrameType (noteFrameTypeName type) = .ok type := by
  cases type <;> rfl

theorem isMap_noteMessage (f : NoteFrame) : (noteMessage f).IsMap := KeyMap.isMap_nil.assignAll _

theorem type_notMem_noteMessage (f : NoteFrame) : "type" ∉ (noteMessage f).fields.map (·.1) := by
  intro hmem
  obtain ⟨x, hx, hkey⟩ := List.mem_map.mp hmem
  rcases KeyMap.mem_assignAll hx with hx | hx
  · have := List.mem_map_of_mem (f := Prod.fst) hx
    rw [hkey] at this
    simp at this
  · cases hx

/-- A number has at most twenty digits. -/
theorem utf8ByteSize_toString_le {n : Nat} (h : n ≤ u64Max) : (toString n).utf8ByteSize ≤ 20 := by
  have hlist : (toString n).toList = Nat.toDigits 10 n := Nat.toList_repr
  have hone : ∀ cs : List Char, (∀ c ∈ cs, c.isDigit) → String.utf8Len cs = cs.length := by
    intro cs hcs
    induction cs with
    | nil => rfl
    | cons c cs ih =>
      have hc : c.utf8Size = 1 := by
        have := hcs c List.mem_cons_self
        simp only [Char.isDigit, Bool.and_eq_true, decide_eq_true_eq] at this
        exact Char.utf8Size_eq_one_iff.mpr (UInt32.le_trans this.2 (by decide))
      rw [String.utf8Len_cons, hc, ih fun d hd => hcs d (List.mem_cons_of_mem _ hd), List.length_cons]
  rw [← Json.Compact.utf8Len_toList, hlist,
    hone _ fun c hc => Nat.isDigit_of_mem_toDigits (by decide) (by decide) hc,
    Nat.length_toDigits_le_iff (by decide) (by decide)]
  exact h.trans_lt (by decide)

/-- **The worst frame fits on the wire.** -/
theorem length_encodeMessage_noteMessage (lib : Json.Library) (hfits : f.Fits) (h : f.Within) :
    (encodeMessage lib (noteMessage f)).length ≤ kNoteMaxWireBytes := by
  have hkind : (noteFrameTypeName f.type).utf8ByteSize ≤ 6 := by cases f.type <;> decide
  have hversion := utf8ByteSize_toString_le hfits.protocolVersion
  have hrevision := utf8ByteSize_toString_le hfits.revision
  have htime := utf8ByteSize_toString_le hfits.timestampMs
  have hpad : (normalizedPadId f.padId).utf8ByteSize ≤ 128 := h.normalized.padId
  have htext := h.text
  have htitle : f.title.utf8ByteSize ≤ 256 := h.title
  have hwriter : f.writerId.utf8ByteSize ≤ 128 := h.writerId
  have hlength := length_encodeMessage_le lib (noteMessage f)
  have hfields : ((noteMessage f).fields.map fieldBound).sum ≤ _ := sum_fieldBound_assignAll_le _ []
  have hkey (key value : String) (n : Nat) (hn : key.utf8ByteSize = n) :
      fieldBound (key, value) = 6 * value.utf8ByteSize + (6 * n + 6) := by
    show 6 * key.utf8ByteSize + 6 * value.utf8ByteSize + 6 = _
    rw [hn]
    ring
  have hnote : "note".utf8ByteSize = 4 := by decide
  have htype : (noteMessage f).type = "note" := rfl
  simp only [List.map_cons, List.map_nil, List.sum_cons, List.sum_nil, hkey "kind" _ 4 (by decide),
    hkey "protocol_version" _ 16 (by decide), hkey "revision" _ 8 (by decide),
    hkey "timestamp_ms" _ 12 (by decide), hkey "writer_id" _ 9 (by decide),
    hkey "pad_id" _ 6 (by decide), hkey "title" _ 5 (by decide), hkey "text" _ 4 (by decide)] at hfields
  rw [htype, hkey "type" _ 4 (by decide), hnote] at hlength
  unfold kNoteMaxWireBytes
  omega

/-- What the message holds. -/
theorem lookup_noteMessage (f : NoteFrame) :
    (noteMessage f).get "kind" = noteFrameTypeName f.type ∧
      (noteMessage f).get "protocol_version" = toString f.protocolVersion ∧
      (noteMessage f).get "revision" = toString f.revision ∧
      (noteMessage f).get "timestamp_ms" = toString f.timestampMs ∧
      (noteMessage f).get "writer_id" = f.writerId ∧
      (noteMessage f).get "pad_id" "main" = normalizedPadId f.padId ∧
      (noteMessage f).get "title" = f.title ∧
      (noteMessage f).get "text" = f.text := by
  simp [noteMessage, Message.get, KeyMap.assignAll, KeyMap.lookup_assign]

/-- **What one side encodes, the other decodes.** -/
theorem decodeNoteFrame_encodeNoteFrame (lib : Json.Library) (hfits : f.Fits) (h : f.Within) :
    ∃ payload, encodeNoteFrame lib f = .ok payload ∧ payload.length ≤ kNoteMaxWireBytes ∧
      decodeNoteFrame lib payload = .ok f.normalized := by
  have hlength := length_encodeMessage_noteMessage lib hfits h
  have hvalid := validateNoteFrameFields_ok_iff.mpr h
  have hvalid' := validateNoteFrameFields_ok_iff.mpr h.normalized
  have hmessage := decodeMessage_encodeMessage lib (isMap_noteMessage f) (type_notMem_noteMessage f)
  obtain ⟨hkind, hversion, hrevision, htime, hwriter, hpad, htitle, htext⟩ := lookup_noteMessage f
  refine ⟨_, ?_, hlength, ?_⟩
  · unfold encodeNoteFrame
    rw [hvalid]
    exact if_neg (not_lt.mpr hlength)
  · have htype : (noteMessage f).type = "note" := rfl
    unfold decodeNoteFrame
    simp only [if_neg (not_lt.mpr hlength), hmessage, ok_bind, htype, ne_eq, not_true, if_false, hkind,
      parseNoteFrameType_name, Message.getU64_eq hversion hfits.protocolVersion,
      Message.getU64_eq hrevision hfits.revision, Message.getU64_eq htime hfits.timestampMs, hwriter, hpad,
      htitle, htext, normalizedPadId_normalizedPadId]
    exact congrArg (· >>= fun _ => .ok f.normalized) hvalid'

/-- What was decoded is within the limits, has 64-bit numbers, and names its pad. -/
theorem decodeNoteFrame_ok (h : decodeNoteFrame lib payload = .ok f) :
    f.Fits ∧ f.Within ∧ f.padId ≠ "" := by
  unfold decodeNoteFrame at h
  split at h
  · cases h
  obtain ⟨msg, -, h⟩ := exists_of_bind_ok h
  split at h
  · cases h
  obtain ⟨type, -, h⟩ := exists_of_bind_ok h
  obtain ⟨protocolVersion, hversion, h⟩ := exists_of_bind_ok h
  obtain ⟨revision, hrevision, h⟩ := exists_of_bind_ok h
  obtain ⟨timestampMs, htime, h⟩ := exists_of_bind_ok h
  obtain ⟨u, hvalid, h⟩ := exists_of_bind_ok h
  obtain rfl := Except.ok.inj h
  refine ⟨⟨?_, ?_, ?_⟩, validateNoteFrameFields_ok_iff.mp hvalid, ?_⟩
  · exact Message.getU64_le hversion (Nat.zero_le _)
  · exact Message.getU64_le hrevision (Nat.zero_le _)
  · exact Message.getU64_le htime (Nat.zero_le _)
  · show normalizedPadId _ ≠ ""
    unfold normalizedPadId
    split
    · decide
    · assumption

theorem length_seal (aead : Aead) {nonce : Bytes} (hnonce : nonce.length = aeadNonceBytes)
    (plaintext : Bytes) : (aead.seal nonce plaintext).length = plaintext.length + kNoteCipherOverhead := by
  rw [Aead.seal, List.length_append, hnonce, aead.length_encrypt, kNoteCipherOverhead]
  omega

theorem unseal_seal (aead : Aead) {nonce : Bytes} (hnonce : nonce.length = aeadNonceBytes)
    (plaintext : Bytes) : aead.unseal (aead.seal nonce plaintext) = .ok plaintext := by
  have hlength := length_seal aead hnonce plaintext
  unfold kNoteCipherOverhead at hlength
  have htake : (aead.seal nonce plaintext).take aeadNonceBytes = nonce := List.take_left' hnonce
  have hdrop : (aead.seal nonce plaintext).drop aeadNonceBytes = aead.encrypt nonce plaintext :=
    List.drop_left' hnonce
  rw [Aead.unseal, if_neg (by omega), htake, hdrop, aead.decrypt_encrypt]

/-- **Codec and limits agree.** Every frame that passes the check on its fields can be encoded and
    sent, is let in by the receiver's cap and comes out as it was, its pad named; and every frame
    that comes out of a payload, whoever has written it, can be encoded again and is itself. -/
theorem note_codec (lib : Json.Library) (aead : Aead) :
    (∀ f : NoteFrame, f.Fits → validateNoteFrameFields f = .ok () →
      ∀ nonce : Bytes, nonce.length = aeadNonceBytes → ∃ payload encrypted,
        encodeNoteFrame lib f = .ok payload ∧
        sendNoteFrame lib aead nonce f = .ok encrypted ∧
        encrypted.length ≤ kNoteMaxWireBytes + kNoteCipherOverhead ∧
        decodeNoteFrame lib payload = .ok f.normalized ∧
        recvNoteFrame lib aead encrypted = .ok f.normalized) ∧
    ∀ payload f, decodeNoteFrame lib payload = .ok f →
      ∃ payload', encodeNoteFrame lib f = .ok payload' ∧ decodeNoteFrame lib payload' = .ok f := by
  constructor
  · intro f hfits hvalid nonce hnonce
    obtain ⟨payload, hencode, hlength, hdecode⟩ :=
      decodeNoteFrame_encodeNoteFrame lib hfits (validateNoteFrameFields_ok_iff.mp hvalid)
    have hcap : (aead.seal nonce payload).length ≤ kNoteMaxWireBytes + kNoteCipherOverhead := by
      rw [length_seal aead hnonce]
      omega
    refine ⟨payload, aead.seal nonce payload, hencode, ?_, hcap, hdecode, ?_⟩
    · rw [sendNoteFrame, hencode]
      rfl
    · rw [recvNoteFrame, if_neg (not_lt.mpr hcap), unseal_seal aead hnonce]
      exact hdecode
  · intro payload f hpayload
    obtain ⟨hfits, hwithin, hpad⟩ := decodeNoteFrame_ok hpayload
    obtain ⟨payload', hencode, -, hdecode⟩ := decodeNoteFrame_encodeNoteFrame lib hfits hwithin
    have hself : f.normalized = f := by
      rw [NoteFrame.normalized, normalizedPadId, if_neg hpad]
    exact ⟨payload', hencode, hself ▸ hdecode⟩

/-- A stand-in for the cipher that appends a tag. -/
def tagged : Aead where
  encrypt _ plaintext := plaintext ++ List.replicate aeadTagBytes 0
  decrypt _ ciphertext := some (ciphertext.take (ciphertext.length - aeadTagBytes))
  length_encrypt _ plaintext := by simp
  decrypt_encrypt _ plaintext := by simp

theorem note_codec_control : ∃ payload,
    encodeNoteFrame Json.compact { revision := u64Max, padId := "", text := "a\n\x01\"" } = .ok payload ∧
    decodeNoteFrame Json.compact payload =
      .ok { revision := u64Max, padId := "main", text := "a\n\x01\"" } := by
  obtain ⟨payload, encrypted, hencode, -, -, hdecode, -⟩ := (note_codec Json.compact tagged).1
    { revision := u64Max, padId := "", text := "a\n\x01\"" } ⟨by decide, by decide, by decide⟩ (by decide)
    (List.replicate aeadNonceBytes 0) List.length_replicate
  exact ⟨payload, hencode, hdecode⟩

end Kiko.Note
