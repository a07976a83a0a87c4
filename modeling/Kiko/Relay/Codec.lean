import Kiko.Connect.Direct
import Kiko.Core.MessageText
import Kiko.Lib.LexicalPath
import Kiko.Relay.Hello

/-!
# The relay's messages and their text (`relay/relay_protocol`)

A hello and a peer info are written field by field into a control message, and the fields that
have their default are left out of a hello. Both encoders are one table, `helloEntries` and
`peerEntries`, in the order in which the source assigns; reading back is then one lookup for
each field.

A hello carries along the fields it does not know. Those of them that have the name of a field
it does know are dropped before anything is written (`clear_protocol_fields`), so they cannot
reach a decoder (`decodeRelayHello_encodeRelayHello`).

The encoders assign to a map and the decoders look up in it, so neither depends on the order
of the fields, and a field that is written twice is the one that was written last. Values are
texts; a number is as good as its decimal digits. What a hello may say at all is a predicate
(`Sendable`), since the C++ type can hold hellos that no decoder would take, and the encoder
refuses those it can tell.
-/

set_option autoImplicit false

namespace Kiko.RelayRace

open Direct (roleName)

/-! ## Encoders -/

/-- What `encode_relay_hello` assigns, in its order. -/
def helloEntries (hello : RelayHello) : List (String × Option String) :=
  [("room", some hello.room),
    ("role", some (roleName hello.role)),
    ("conn_index", if 0 < hello.connIndex then some (toString hello.connIndex) else none),
    ("listen_host", if hello.listen.host ≠ "" then some hello.listen.host else none),
    ("listen_port", if 0 < hello.listen.port then some (toString hello.listen.port) else none),
    ("punch_public_host",
      if hello.punchPublic.host ≠ "" then some hello.punchPublic.host else none),
    ("punch_public_port",
      if 0 < hello.punchPublic.port then some (toString hello.punchPublic.port) else none),
    ("file_count", if 0 < hello.fileCount then some (toString hello.fileCount) else none),
    ("total_size", if 0 < hello.totalSize then some (toString hello.totalSize) else none),
    ("conn_count", if hello.connCount ≠ 1 then some (toString hello.connCount) else none),
    ("aux", if hello.auxiliary then some "1" else none),
    ("no_direct", if hello.noDirect then some "1" else none),
    ("local_candidates",
      if hello.localCandidates ≠ [] then some (joinCsv hello.localCandidates) else none),
    ("app", if hello.app ≠ "" then some hello.app else none),
    ("stun_nat", if hello.stunNat ≠ "" then some hello.stunNat else none),
    ("relay_pass", hello.relayPass.filter fun pass => pass ≠ "")]

/-- `encode_relay_hello`. -/
def encodeRelayHello (hello : RelayHello) : Except KikoError Message := do
  if hello.room = "" then throw "relay hello room is required"
  validateConnectionCount hello.connCount
  -- `clear_protocol_fields`
  let fields := hello.extensionFields.filter fun field => field.1 ∉ helloFields
  return { type := "hello", fields := KeyMap.assignSome (helloEntries hello) fields }

/-- The hello without the fields carried along that have the name of one of its own. -/
def RelayHello.cleared (hello : RelayHello) : RelayHello :=
  { hello with extensionFields :=
      hello.extensionFields.filter fun field => field.1 ∉ helloFields }

structure RelayPeerInfo where
  peerPublic : Endpoint
  peerListen : Endpoint
  peerLocalCandidates : List String
  peerNoDirect : Bool
  selfPublic : Endpoint
  punchToken : String
  routeCommitV2 : Bool
  fileCount : Nat
  totalSize : Nat
  connCount : Nat
deriving DecidableEq, Repr

/-- What `encode_relay_peer_info` assigns, in its order. -/
def peerEntries (peer : RelayPeerInfo) : List (String × Option String) :=
  [("peer_public_host", some peer.peerPublic.host),
    ("peer_public_port", some (toString peer.peerPublic.port)),
    ("peer_listen_host", some peer.peerListen.host),
    ("peer_listen_port", some (toString peer.peerListen.port)),
    ("peer_local_candidates", some (joinCsv peer.peerLocalCandidates)),
    ("peer_no_direct", some (if peer.peerNoDirect then "1" else "0")),
    ("your_public_host", some peer.selfPublic.host),
    ("your_public_port", some (toString peer.selfPublic.port)),
    ("punch_token", some peer.punchToken),
    ("route_commit", if peer.routeCommitV2 then some "v2" else none),
    ("file_count", some (toString peer.fileCount)),
    ("total_size", some (toString peer.totalSize)),
    ("conn_count", some (toString peer.connCount))]

/-- `encode_relay_peer_info`. -/
def encodeRelayPeerInfo (peer : RelayPeerInfo) : Except KikoError Message := do
  validateConnectionCount peer.connCount
  return { type := "peer", fields := KeyMap.assignSome (peerEntries peer) [] }

/-- `decode_relay_peer_info`. -/
def decodeRelayPeerInfo (message : Message) : Except KikoError RelayPeerInfo := do
  if message.type ≠ "peer" then throw "expected peer"
  let peerPublicPort ← message.portField "peer_public_port" true
  let peerListenPort ← message.portField "peer_listen_port" true
  let selfPublicPort ← message.portField "your_public_port" true
  let fileCount ← message.getU64 "file_count" 0
  let totalSize ← message.getU64 "total_size" 0
  let connCount ← message.getU64 "conn_count" 1
  validateConnectionCount connCount
  return {
    peerPublic := ⟨message.get "peer_public_host", peerPublicPort.getD 0⟩
    peerListen := ⟨message.get "peer_listen_host", peerListenPort.getD 0⟩
    peerLocalCandidates := splitCsv (message.get "peer_local_candidates")
    peerNoDirect := message.get "peer_no_direct" == "1"
    selfPublic := ⟨message.get "your_public_host", selfPublicPort.getD 0⟩
    punchToken := message.get "punch_token"
    routeCommitV2 := message.get "route_commit" == "v2"
    fileCount := fileCount
    totalSize := totalSize
    connCount := connCount }

/-! ## Candidates in one field

Several texts in one, with commas between them: this is right for texts that hold no comma and
are not empty. -/

/-- A candidate that can stand in a list with commas. -/
def ListedCandidate (candidate : String) : Prop := candidate ≠ "" ∧ ',' ∉ candidate.toList

instance (candidate : String) : Decidable (ListedCandidate candidate) :=
  inferInstanceAs (Decidable (_ ∧ _))

theorem splitCsv_joinCsv {values : List String} (h : ∀ v ∈ values, ListedCandidate v) :
    splitCsv (joinCsv values) = values := by
  by_cases hempty : values = []
  · rw [hempty]
    decide
  have hlist : (joinCsv values).toList = [','].intercalate (values.map String.toList) :=
    String.toList_intercalate
  have hsplit : (joinCsv values).toList.splitOn ',' = values.map String.toList := by
    rw [hlist]
    refine List.splitOn_intercalate ',' ?_ (by simpa using hempty)
    intro l hl
    obtain ⟨v, hv, rfl⟩ := List.mem_map.mp hl
    exact (h v hv).2
  unfold splitCsv
  rw [hsplit, List.map_map]
  have hid : values.map (String.ofList ∘ String.toList) = values := by
    simp
  rw [hid, List.filter_eq_self]
  intro v hv
  simpa using (h v hv).1

theorem listedCandidate_of_mem_splitCsv {value v : String} (h : v ∈ splitCsv value) :
    ListedCandidate v := by
  unfold splitCsv at h
  obtain ⟨hmem, hne⟩ := List.mem_filter.mp h
  obtain ⟨l, hl, rfl⟩ := List.mem_map.mp hmem
  refine ⟨by simpa using hne, ?_⟩
  rw [String.toList_ofList]
  exact Lexical.notMem_of_mem_splitOn hl

/-! ## Reading what was written

Field by field. The lookup lemmas say what an optional entry makes of its key, and all fields
are cases of them. -/

section Fields

variable {m : Message} {key : String} {fallback n : Nat} {c : Prop} [Decidable c]

/-- A number that is left out where it is the default. -/
theorem getU64_of_optional (hget : m.get key = if c then toString n else "") (hn : n ≤ u64Max)
    (hc : ¬ c → n = fallback) : m.getU64 key fallback = .ok n := by
  by_cases h : c
  · rw [if_pos h] at hget
    exact Message.getU64_eq hget hn
  · rw [if_neg h] at hget
    simp only [Message.getU64, hget, if_true, hc h]

theorem portField_of_optional (hget : m.get key = if c then toString n else "") (hn : n ≤ 65535)
    (hc : ¬ c → n = 0) : ∃ port, m.portField key true = .ok port ∧ port.getD 0 = n := by
  have hnum : m.getU64 key 0 = .ok n := getU64_of_optional hget (hn.trans (by decide)) hc
  unfold Message.portField
  by_cases hempty : m.get key = ""
  · refine ⟨none, if_pos hempty, ?_⟩
    have hzero : m.getU64 key 0 = .ok 0 := by simp [Message.getU64, hempty]
    exact Except.ok.inj (hzero.symm.trans hnum)
  · refine ⟨some n, ?_, rfl⟩
    simp [hempty, hnum, hn]

/-- The field of an entry. -/
theorem get_assignSome {type : String} {entries : List (String × Option String)}
    {fields : List (String × String)} (hkeys : (entries.map (·.1)).Nodup)
    (hfields : fields.lookup key = none) :
    (Message.mk type (KeyMap.assignSome entries fields)).get key =
      ((entries.lookup key).join).getD "" := by
  unfold Message.get
  simp only [KeyMap.lookup_assignSome hkeys, hfields, Option.or_none]

theorem getD_ite {v : String} : (if c then some v else none).getD "" = if c then v else "" := by
  by_cases h : c <;> simp [h]

end Fields

/-- The values of the C++ type. -/
structure RelayHello.Typed (hello : RelayHello) : Prop where
  connIndex : hello.connIndex ≤ u64Max
  listenPort : hello.listen.port ≤ 65535
  punchPublicPort : hello.punchPublic.port ≤ 65535
  fileCount : hello.fileCount ≤ u64Max
  totalSize : hello.totalSize ≤ u64Max
  extension : KeyMap.IsMap hello.extensionFields

/-- What can be said in a hello: it has a room and a number of connections, is auxiliary where
    its index is not 0, and gives no empty password and no candidate that a list would lose. -/
structure RelayHello.Sendable (hello : RelayHello) : Prop where
  room : hello.room ≠ ""
  connCount : 1 ≤ hello.connCount ∧ hello.connCount ≤ maxRelayConnections
  auxiliary : 0 < hello.connIndex → hello.auxiliary = true
  relayPass : hello.relayPass ≠ some ""
  candidates : ∀ candidate ∈ hello.localCandidates, ListedCandidate candidate

theorem validateConnectionCount_ok {count : Nat} (h : 1 ≤ count ∧ count ≤ maxRelayConnections) :
    validateConnectionCount count = .ok () := by
  rw [validateConnectionCount, if_neg (by omega)]

theorem decodeRole_roleName (role : Role) : decodeRole (roleName role) = .ok role := by
  cases role <;> rfl

theorem RelayHello.Sendable.encode {hello : RelayHello} (h : hello.Sendable) :
    encodeRelayHello hello = .ok (.mk "hello" (KeyMap.assignSome (helloEntries hello)
      (hello.extensionFields.filter fun field => field.1 ∉ helloFields))) := by
  unfold encodeRelayHello
  rw [if_neg h.room]
  simp only [validateConnectionCount_ok h.connCount, ok_bind]
  rfl

/-- The entries are those of `kHelloFields`, in its order. -/
theorem nodup_helloEntries (hello : RelayHello) : ((helloEntries hello).map (·.1)).Nodup := by
  show helloFields.Nodup
  decide

/-- **What is written is read back**; of the fields that are carried along, those that do not
    have the name of a field of the hello. -/
theorem decodeRelayHello_encodeRelayHello {hello : RelayHello} (ht : hello.Typed)
    (hs : hello.Sendable) : encodeRelayHello hello >>= decodeRelayHello =
      .ok hello.cleared := by
  rw [hs.encode, ok_bind]
  generalize hm : Message.mk "hello" (KeyMap.assignSome (helloEntries hello)
    (hello.extensionFields.filter fun field => field.1 ∉ helloFields)) = m
  have hkeys := nodup_helloEntries hello
  have hget : ∀ key ∈ helloFields, m.get key = (((helloEntries hello).lookup key).join).getD "" := by
    intro key hkey
    rw [← hm]
    refine get_assignSome hkeys ?_
    rw [KeyMap.lookup_filter (fun key => decide (key ∉ helloFields)), if_neg (by simpa using hkey)]
  -- a text that is left out is the one that is read for it
  have htext : ∀ {v : String}, (if v ≠ "" then some v else none).getD "" = v := by
    intro v
    by_cases h : v = "" <;> simp [h]
  have hroom : m.get "room" = hello.room := hget _ (by decide)
  have hrole : m.get "role" = roleName hello.role := hget _ (by decide)
  have hlistenHost : m.get "listen_host" = hello.listen.host :=
    (hget "listen_host" (by decide)).trans htext
  have hpunchHost : m.get "punch_public_host" = hello.punchPublic.host :=
    (hget "punch_public_host" (by decide)).trans htext
  have happ : m.get "app" = hello.app := (hget "app" (by decide)).trans htext
  have hstunNat : m.get "stun_nat" = hello.stunNat :=
    (hget "stun_nat" (by decide)).trans htext
  have hconnIndex : m.getU64 "conn_index" 0 = .ok hello.connIndex := getU64_of_optional
    ((hget "conn_index" (by decide)).trans getD_ite) ht.connIndex (by omega)
  have hfileCount : m.getU64 "file_count" 0 = .ok hello.fileCount := getU64_of_optional
    ((hget "file_count" (by decide)).trans getD_ite) ht.fileCount (by omega)
  have htotalSize : m.getU64 "total_size" 0 = .ok hello.totalSize := getU64_of_optional
    ((hget "total_size" (by decide)).trans getD_ite) ht.totalSize (by omega)
  have hconnCount : m.getU64 "conn_count" 1 = .ok hello.connCount := getU64_of_optional
    ((hget "conn_count" (by decide)).trans getD_ite) (hs.connCount.2.trans (by decide))
    (fun h => not_not.mp h)
  obtain ⟨listenPort, hlisten, hlistenPort⟩ := portField_of_optional
    ((hget "listen_port" (by decide)).trans getD_ite) ht.listenPort (by omega)
  obtain ⟨punchPort, hpunch, hpunchPort⟩ := portField_of_optional
    ((hget "punch_public_port" (by decide)).trans getD_ite) ht.punchPublicPort (by omega)
  have haux : m.get "aux" = if hello.auxiliary then "1" else "" :=
    (hget "aux" (by decide)).trans getD_ite
  have hnoDirect : m.get "no_direct" = if hello.noDirect then "1" else "" :=
    (hget "no_direct" (by decide)).trans getD_ite
  have hcandidates : splitCsv (m.get "local_candidates") = hello.localCandidates := by
    rw [(hget "local_candidates" (by decide)).trans getD_ite]
    by_cases h : hello.localCandidates = []
    · rw [if_neg (not_not.mpr h), h]
      decide
    · rw [if_pos h, splitCsv_joinCsv hs.candidates]
  have hrelayPass : (if m.get "relay_pass" = "" then none else some (m.get "relay_pass")) =
      hello.relayPass := by
    have hpass : m.get "relay_pass" = (hello.relayPass.filter fun pass => pass ≠ "").getD "" :=
      hget _ (by decide)
    rw [hpass]
    cases h : hello.relayPass with
    | none => rfl
    | some pass =>
      have hne : pass ≠ "" := fun heq => hs.relayPass (heq ▸ h)
      simp [Option.filter_some, hne]
  have hextension : m.fields.filter (fun field => field.1 ∉ helloFields) =
      hello.extensionFields.filter fun field => field.1 ∉ helloFields := by
    have hmap := ht.extension.filter fun field => decide (field.1 ∉ helloFields)
    rw [← hm]
    refine ((hmap.assignSome _).filter _).ext hmap ?_
    intro key
    rw [KeyMap.lookup_filter (fun key => decide (key ∉ helloFields)),
      KeyMap.lookup_assignSome hkeys]
    by_cases hkey : key ∈ helloFields
    · rw [KeyMap.lookup_filter (fun key => decide (key ∉ helloFields))]
      simp [hkey]
    · have hnone : (helloEntries hello).lookup key = none :=
        KeyMap.lookup_eq_none_iff_notMem.mpr hkey
      simp [hkey, hnone]
  have htype : m.type = "hello" := by rw [← hm]
  have hauxiliary : ((m.get "aux" == "1") || decide (0 < hello.connIndex)) = hello.auxiliary := by
    rw [haux]
    cases h : hello.auxiliary with
    | true => rfl
    | false =>
      have hzero : hello.connIndex = 0 := by
        by_contra hne
        have := hs.auxiliary (Nat.pos_of_ne_zero hne)
        rw [h] at this
        cases this
      rw [hzero]
      rfl
  have hnoDirect' : (m.get "no_direct" == "1") = hello.noDirect := by
    rw [hnoDirect]
    cases hello.noDirect <;> rfl
  unfold decodeRelayHello
  rw [if_neg (not_not.mpr htype), hroom, if_neg hs.room, hrole]
  simp only [decodeRole_roleName, ok_bind, hconnIndex, hlisten, hpunch, hfileCount,
    htotalSize, hconnCount, validateConnectionCount_ok hs.connCount, hlistenPort, hpunchPort,
    hlistenHost, hpunchHost, hauxiliary, hnoDirect', hcandidates, happ, hstunNat, hrelayPass,
    hextension]
  rfl

/-! ## Writing what was read

A relay sends on what it has read, and so what it has read must be sendable: whatever a
decoder accepts, its encoder takes. -/

theorem portField_le {m : Message} {key : String} {allowZero : Bool} {port : Option Nat}
    (h : m.portField key allowZero = .ok port) : port.getD 0 ≤ 65535 := by
  unfold Message.portField at h
  by_cases hempty : m.get key = ""
  · rw [if_pos hempty] at h
    cases h
    exact Nat.zero_le _
  rw [if_neg hempty] at h
  cases hnum : m.getU64 key 0 with
  | error e =>
    rw [hnum] at h
    cases h
  | ok n =>
    simp only [hnum] at h
    by_cases hbad : 65535 < n ∨ (allowZero = false ∧ n = 0)
    · rw [if_pos hbad] at h
      cases h
    · rw [if_neg hbad] at h
      cases h
      rw [not_or] at hbad
      exact not_lt.mp hbad.1

theorem validateConnectionCount_bounds {count : Nat} {u : Unit}
    (h : validateConnectionCount count = .ok u) : 1 ≤ count ∧ count ≤ maxRelayConnections := by
  unfold validateConnectionCount at h
  by_cases hbad : count = 0 ∨ maxRelayConnections < count
  · rw [if_pos hbad] at h
    cases h
  · omega

/-- A hello that was accepted can be sent on, and the fields it carries along are not its own. -/
theorem sendable_of_decodeRelayHello {m : Message} {hello : RelayHello} (hmap : m.IsMap)
    (h : decodeRelayHello m = .ok hello) :
    hello.Typed ∧ hello.Sendable ∧
      hello.extensionFields = m.fields.filter fun field => field.1 ∉ helloFields := by
  have hok := decodeRelayHello_ok h
  unfold decodeRelayHello at h
  by_cases htype : m.type ≠ "hello"
  · rw [if_pos htype] at h
    cases h
  by_cases hroom : m.get "room" = ""
  · simp only [if_neg htype, hroom, if_true] at h
    cases h
  simp only [if_neg htype, hroom, if_false] at h
  obtain ⟨role, -, h⟩ := exists_of_bind_ok h
  obtain ⟨connIndex, hconnIndex, h⟩ := exists_of_bind_ok h
  obtain ⟨listenPort, hlistenPort, h⟩ := exists_of_bind_ok h
  obtain ⟨punchPublicPort, hpunchPublicPort, h⟩ := exists_of_bind_ok h
  obtain ⟨fileCount, hfileCount, h⟩ := exists_of_bind_ok h
  obtain ⟨totalSize, htotalSize, h⟩ := exists_of_bind_ok h
  obtain ⟨connCount, -, h⟩ := exists_of_bind_ok h
  obtain ⟨_, hcount, h⟩ := exists_of_bind_ok h
  obtain rfl := Except.ok.inj h
  refine ⟨⟨Message.getU64_le hconnIndex (Nat.zero_le _), portField_le hlistenPort,
    portField_le hpunchPublicPort, Message.getU64_le hfileCount (Nat.zero_le _),
    Message.getU64_le htotalSize (Nat.zero_le _), List.Pairwise.filter _ hmap⟩,
    ⟨hroom, validateConnectionCount_bounds hcount, hok.2.2, ?_, ?_⟩, rfl⟩
  · show (if m.get "relay_pass" = "" then none else some (m.get "relay_pass")) ≠ some ""
    by_cases hpass : m.get "relay_pass" = ""
    · rw [if_pos hpass]
      exact (Option.some_ne_none _).symm
    · rw [if_neg hpass]
      exact fun heq => hpass (Option.some.inj heq)
  · intro candidate hc
    exact listedCandidate_of_mem_splitCsv hc

/-! ## Peer infos -/

structure RelayPeerInfo.Typed (peer : RelayPeerInfo) : Prop where
  peerPublicPort : peer.peerPublic.port ≤ 65535
  peerListenPort : peer.peerListen.port ≤ 65535
  selfPublicPort : peer.selfPublic.port ≤ 65535
  fileCount : peer.fileCount ≤ u64Max
  totalSize : peer.totalSize ≤ u64Max

structure RelayPeerInfo.Sendable (peer : RelayPeerInfo) : Prop where
  connCount : 1 ≤ peer.connCount ∧ peer.connCount ≤ maxRelayConnections
  candidates : ∀ candidate ∈ peer.peerLocalCandidates, ListedCandidate candidate

theorem RelayPeerInfo.Sendable.encode {peer : RelayPeerInfo} (h : peer.Sendable) :
    encodeRelayPeerInfo peer = .ok (.mk "peer" (KeyMap.assignSome (peerEntries peer) [])) := by
  unfold encodeRelayPeerInfo
  rw [validateConnectionCount_ok h.connCount]
  rfl

/-- The names of a peer info's fields. -/
def peerFields : List String :=
  ["peer_public_host", "peer_public_port", "peer_listen_host", "peer_listen_port",
    "peer_local_candidates", "peer_no_direct", "your_public_host", "your_public_port",
    "punch_token", "route_commit", "file_count", "total_size", "conn_count"]

theorem nodup_peerEntries (peer : RelayPeerInfo) : ((peerEntries peer).map (·.1)).Nodup := by
  show peerFields.Nodup
  decide

theorem decodeRelayPeerInfo_encodeRelayPeerInfo {peer : RelayPeerInfo} (ht : peer.Typed)
    (hs : peer.Sendable) : encodeRelayPeerInfo peer >>= decodeRelayPeerInfo = .ok peer := by
  rw [hs.encode, ok_bind]
  generalize hm : Message.mk "peer" (KeyMap.assignSome (peerEntries peer) []) = m
  have hget : ∀ key, m.get key = (((peerEntries peer).lookup key).join).getD "" := by
    intro key
    rw [← hm]
    exact get_assignSome (nodup_peerEntries peer) rfl
  -- the numbers are written whatever they are
  have hport : ∀ {key : String} {n : Nat}, m.get key = toString n → n ≤ 65535 →
      ∃ port, m.portField key true = .ok port ∧ port.getD 0 = n := by
    intro key n hkey hn
    refine portField_of_optional (c := True) ?_ hn fun h => absurd trivial h
    rw [if_pos trivial, hkey]
  obtain ⟨publicPort, hpublic, hpublicPort⟩ := hport (hget "peer_public_port") ht.peerPublicPort
  obtain ⟨listenPort, hlisten, hlistenPort⟩ := hport (hget "peer_listen_port") ht.peerListenPort
  obtain ⟨selfPort, hself, hselfPort⟩ := hport (hget "your_public_port") ht.selfPublicPort
  have hfileCount : m.getU64 "file_count" 0 = .ok peer.fileCount :=
    Message.getU64_eq (hget "file_count") ht.fileCount
  have htotalSize : m.getU64 "total_size" 0 = .ok peer.totalSize :=
    Message.getU64_eq (hget "total_size") ht.totalSize
  have hconnCount : m.getU64 "conn_count" 1 = .ok peer.connCount :=
    Message.getU64_eq (hget "conn_count") (hs.connCount.2.trans (by decide))
  have hpublicHost : m.get "peer_public_host" = peer.peerPublic.host := hget _
  have hlistenHost : m.get "peer_listen_host" = peer.peerListen.host := hget _
  have hselfHost : m.get "your_public_host" = peer.selfPublic.host := hget _
  have htoken : m.get "punch_token" = peer.punchToken := hget _
  have hcandidates : splitCsv (m.get "peer_local_candidates") = peer.peerLocalCandidates := by
    rw [hget "peer_local_candidates"]
    exact splitCsv_joinCsv hs.candidates
  have hnoDirect : (m.get "peer_no_direct" == "1") = peer.peerNoDirect := by
    rw [hget "peer_no_direct"]
    show ((if peer.peerNoDirect then "1" else "0") == "1") = peer.peerNoDirect
    cases peer.peerNoDirect <;> rfl
  have hcommit : (m.get "route_commit" == "v2") = peer.routeCommitV2 := by
    rw [hget "route_commit"]
    show ((if peer.routeCommitV2 then some "v2" else none).getD "" == "v2") = peer.routeCommitV2
    cases peer.routeCommitV2 <;> rfl
  have htype : m.type = "peer" := by rw [← hm]
  unfold decodeRelayPeerInfo
  rw [if_neg (not_not.mpr htype)]
  simp only [ok_bind, hpublic, hlisten, hself, hfileCount, htotalSize, hconnCount,
    validateConnectionCount_ok hs.connCount, hpublicPort, hlistenPort, hselfPort, hpublicHost,
    hlistenHost, hselfHost, htoken, hcandidates, hnoDirect, hcommit]
  rfl

theorem sendable_of_decodeRelayPeerInfo {m : Message} {peer : RelayPeerInfo}
    (h : decodeRelayPeerInfo m = .ok peer) : peer.Typed ∧ peer.Sendable := by
  unfold decodeRelayPeerInfo at h
  by_cases htype : m.type ≠ "peer"
  · rw [if_pos htype] at h
    cases h
  simp only [if_neg htype] at h
  obtain ⟨publicPort, hpublic, h⟩ := exists_of_bind_ok h
  obtain ⟨listenPort, hlisten, h⟩ := exists_of_bind_ok h
  obtain ⟨selfPort, hself, h⟩ := exists_of_bind_ok h
  obtain ⟨fileCount, hfileCount, h⟩ := exists_of_bind_ok h
  obtain ⟨totalSize, htotalSize, h⟩ := exists_of_bind_ok h
  obtain ⟨connCount, -, h⟩ := exists_of_bind_ok h
  obtain ⟨_, hcount, h⟩ := exists_of_bind_ok h
  obtain rfl := Except.ok.inj h
  refine ⟨⟨portField_le hpublic, portField_le hlisten, portField_le hself,
    Message.getU64_le hfileCount (Nat.zero_le _), Message.getU64_le htotalSize (Nat.zero_le _)⟩,
    validateConnectionCount_bounds hcount, ?_⟩
  intro candidate hc
  exact listedCandidate_of_mem_splitCsv hc

/-! ## The text

The map becomes a JSON object and is read again; the two codecs are composed with that of
`Kiko.Core.MessageText`. -/

variable (lib : Json.Library)

/-- `send_message` of an encoded hello. -/
def helloText (hello : RelayHello) : Except KikoError Bytes := do
  return encodeMessage lib (← encodeRelayHello hello)

def readHelloText (text : Bytes) : Except KikoError RelayHello := do
  decodeRelayHello (← decodeMessage lib text)

def peerText (peer : RelayPeerInfo) : Except KikoError Bytes := do
  return encodeMessage lib (← encodeRelayPeerInfo peer)

def readPeerText (text : Bytes) : Except KikoError RelayPeerInfo := do
  decodeRelayPeerInfo (← decodeMessage lib text)

variable {lib}

theorem readHelloText_helloText {hello : RelayHello} (ht : hello.Typed) (hs : hello.Sendable)
    (hkeys : "type" ∉ hello.extensionFields.map (·.1)) :
    helloText lib hello >>= readHelloText lib = .ok hello.cleared := by
  have hback := decodeRelayHello_encodeRelayHello ht hs
  unfold helloText
  rw [hs.encode, ok_bind] at hback ⊢
  rw [pure_bind, readHelloText, decodeMessage_encodeMessage]
  · exact hback
  · exact KeyMap.IsMap.assignSome (List.Pairwise.filter _ ht.extension) _
  · rw [← KeyMap.lookup_eq_none_iff_notMem, KeyMap.lookup_assignSome (nodup_helloEntries hello),
      KeyMap.lookup_filter (fun key => decide (key ∉ helloFields)),
      KeyMap.lookup_eq_none_iff_notMem.mpr hkeys]
    rfl

theorem readPeerText_peerText {peer : RelayPeerInfo} (ht : peer.Typed) (hs : peer.Sendable) :
    peerText lib peer >>= readPeerText lib = .ok peer := by
  have hback := decodeRelayPeerInfo_encodeRelayPeerInfo ht hs
  unfold peerText
  rw [hs.encode, ok_bind] at hback ⊢
  rw [pure_bind, readPeerText, decodeMessage_encodeMessage]
  · exact hback
  · exact KeyMap.isMap_nil.assignSome _
  · rw [← KeyMap.lookup_eq_none_iff_notMem, KeyMap.lookup_assignSome (nodup_peerEntries peer)]
    rfl

/-- Nothing is cleared where nothing has the name of a field. -/
theorem RelayHello.cleared_eq {hello : RelayHello}
    (h : ∀ key ∈ hello.extensionFields.map (·.1), key ∉ helloFields) : hello.cleared = hello := by
  have hfilter : hello.extensionFields.filter (fun field => field.1 ∉ helloFields) =
      hello.extensionFields := by
    rw [List.filter_eq_self]
    intro field hfield
    simpa using h field.1 (List.mem_map_of_mem hfield)
  rw [RelayHello.cleared, hfilter]

/-- **The relay's codec is canonical.** A hello that can be sent is read back from its text, and
    so is a peer info; what a decoder has accepted, from a message or from a text, is written and
    read back as itself; and whatever a hello carries along, its own fields are read back as
    they were. -/
theorem relay_codec_canonical (lib : Json.Library) :
    (∀ hello : RelayHello, hello.Typed → hello.Sendable →
      (∀ key ∈ hello.extensionFields.map (·.1), key ∉ helloFields ∧ key ≠ "type") →
      helloText lib hello >>= readHelloText lib = .ok hello) ∧
    (∀ peer : RelayPeerInfo, peer.Typed → peer.Sendable →
      peerText lib peer >>= readPeerText lib = .ok peer) ∧
    (∀ (m : Message) (hello : RelayHello), m.IsMap → decodeRelayHello m = .ok hello →
      encodeRelayHello hello >>= decodeRelayHello = .ok hello) ∧
    (∀ (m : Message) (peer : RelayPeerInfo), m.IsMap → decodeRelayPeerInfo m = .ok peer →
      encodeRelayPeerInfo peer >>= decodeRelayPeerInfo = .ok peer) ∧
    (∀ (text : Bytes) (hello : RelayHello), readHelloText lib text = .ok hello →
      helloText lib hello >>= readHelloText lib = .ok hello) ∧
    (∀ (text : Bytes) (peer : RelayPeerInfo), readPeerText lib text = .ok peer →
      peerText lib peer >>= readPeerText lib = .ok peer) ∧
    (∀ hello : RelayHello, hello.Typed → hello.Sendable →
      encodeRelayHello hello >>= decodeRelayHello = .ok hello.cleared) ∧
    (∀ hello : RelayHello, hello.Typed → hello.Sendable →
      "type" ∉ hello.extensionFields.map (·.1) →
      helloText lib hello >>= readHelloText lib = .ok hello.cleared) := by
  -- the fields a decoded hello carries along are kept
  have hkeep : ∀ {m : Message} {hello : RelayHello},
      hello.extensionFields = m.fields.filter (fun field => field.1 ∉ helloFields) →
      hello.cleared = hello := by
    intro m hello h
    refine RelayHello.cleared_eq fun key hkey => ?_
    obtain ⟨field, hfield, rfl⟩ := List.mem_map.mp hkey
    rw [h] at hfield
    simpa using (List.mem_filter.mp hfield).2
  refine ⟨?_, fun peer ht hs => readPeerText_peerText ht hs, ?_, ?_, ?_, ?_,
    fun hello ht hs => decodeRelayHello_encodeRelayHello ht hs,
    fun hello ht hs hkeys => readHelloText_helloText ht hs hkeys⟩
  · intro hello ht hs hkeys
    have hback : helloText lib hello >>= readHelloText lib = .ok hello.cleared :=
      readHelloText_helloText ht hs fun h => (hkeys _ h).2 rfl
    rwa [RelayHello.cleared_eq fun key hkey => (hkeys key hkey).1] at hback
  · intro m hello hmap h
    obtain ⟨ht, hs, hext⟩ := sendable_of_decodeRelayHello hmap h
    have hback := decodeRelayHello_encodeRelayHello ht hs
    rwa [hkeep hext] at hback
  · intro m peer _ h
    obtain ⟨ht, hs⟩ := sendable_of_decodeRelayPeerInfo h
    exact decodeRelayPeerInfo_encodeRelayPeerInfo ht hs
  · intro text hello h
    obtain ⟨m, hm, h⟩ := exists_of_bind_ok h
    obtain ⟨hmap, htype⟩ := decodeMessage_ok hm
    obtain ⟨ht, hs, hext⟩ := sendable_of_decodeRelayHello hmap h
    have hkeys : "type" ∉ hello.extensionFields.map (·.1) := by
      intro hmem
      obtain ⟨field, hfield, hkey⟩ := List.mem_map.mp hmem
      rw [hext] at hfield
      exact htype (hkey ▸ List.mem_map_of_mem (List.mem_filter.mp hfield).1)
    have hback : helloText lib hello >>= readHelloText lib = .ok hello.cleared :=
      readHelloText_helloText ht hs hkeys
    rwa [hkeep hext] at hback
  · intro text peer h
    obtain ⟨m, -, h⟩ := exists_of_bind_ok h
    obtain ⟨ht, hs⟩ := sendable_of_decodeRelayPeerInfo h
    exact readPeerText_peerText ht hs

/-- A hello of a second connection, with a field the relay does not know. -/
def secondHello : RelayHello where
  room := "lab"
  role := .receiver
  connIndex := 1
  listen := ⟨"192.168.1.5", 41000⟩
  punchPublic := ⟨"", 0⟩
  fileCount := 0
  totalSize := u64Max
  connCount := 4
  auxiliary := true
  noDirect := false
  localCandidates := ["192.168.1.5", "10.0.0.2"]
  app := "kiko"
  stunNat := ""
  relayPass := some "secret"
  extensionFields := [("trace", "on")]

theorem relay_codec_canonical_second :
    helloText Json.compact secondHello >>= readHelloText Json.compact = .ok secondHello := by
  refine (relay_codec_canonical Json.compact).1 secondHello ?_ ?_ ?_
  · exact ⟨by decide, by decide, by decide, by decide, by decide, by decide⟩
  · exact ⟨by decide, by decide, by decide, by decide, by decide⟩
  · decide

end Kiko.RelayRace
