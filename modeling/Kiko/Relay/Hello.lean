import Kiko.Relay.Rooms

/-!
# The hellos a relay pairs by (`relay/relay_protocol`, `relay/relay_server`)

A client says in its hello which room it belongs to, in which role, and which of its
connections this is. The relay pairs by a key, the room and the connection index with a `#`
between them, and holds a pair at work under the key up to its first `#`.

The key is one-to-one (`RelayHello.matchKey_inj`), and so who is matched has the same room and
the same index. The hello's `aux` is not part of it: `matches_correspond` says what that
leaves.

A client chooses its room and may put a `#` into it, so that a key can be read off in one way
only has to be proved: the index is a number, and the last `#` is the one in front of it. What
is held for a pair at work uses the first `#` and not the last, which is right for rooms
without one.
-/

set_option autoImplicit false

namespace Kiko.RelayRace

/-! ## Hellos

The decoder with all its checks and defaults, since what a hello corresponds to is said of
decoded hellos. -/

/-- `kMaxRelayConnections`. -/
def maxRelayConnections : Nat := 32

structure RelayHello where
  room : String
  role : Role
  connIndex : Nat
  listen : Endpoint
  punchPublic : Endpoint
  fileCount : Nat
  totalSize : Nat
  connCount : Nat
  auxiliary : Bool
  noDirect : Bool
  localCandidates : List String
  app : String
  stunNat : String
  relayPass : Option String
  extensionFields : List (String × String)
deriving DecidableEq, Repr

/-- `kHelloFields`. -/
def helloFields : List String :=
  ["room", "role", "conn_index", "listen_host", "listen_port", "punch_public_host",
    "punch_public_port", "file_count", "total_size", "conn_count", "aux", "no_direct",
    "local_candidates", "app", "stun_nat", "relay_pass"]

/-- `decode_role`. -/
def decodeRole (value : String) : Except KikoError Role :=
  if value = "sender" then .ok .sender
  else if value = "receiver" then .ok .receiver
  else .error ("unknown role: " ++ value)

/-- `validate_connection_count`. -/
def validateConnectionCount (count : Nat) : Except KikoError Unit :=
  if count = 0 ∨ maxRelayConnections < count then .error "invalid conn_count" else .ok ()

/-- `decode_relay_hello`. -/
def decodeRelayHello (message : Message) : Except KikoError RelayHello := do
  if message.type ≠ "hello" then throw "expected hello"
  let room := message.get "room"
  if room = "" then throw "relay hello room is required"
  let role ← decodeRole (message.get "role")
  let connIndex ← message.getU64 "conn_index" 0
  let listenPort ← message.portField "listen_port" true
  let punchPublicPort ← message.portField "punch_public_port" true
  let fileCount ← message.getU64 "file_count" 0
  let totalSize ← message.getU64 "total_size" 0
  let connCount ← message.getU64 "conn_count" 1
  validateConnectionCount connCount
  let relayPass := message.get "relay_pass"
  return {
    room := room
    role := role
    connIndex := connIndex
    listen := ⟨message.get "listen_host", listenPort.getD 0⟩
    punchPublic := ⟨message.get "punch_public_host", punchPublicPort.getD 0⟩
    fileCount := fileCount
    totalSize := totalSize
    connCount := connCount
    auxiliary := message.get "aux" == "1" || decide (0 < connIndex)
    noDirect := message.get "no_direct" == "1"
    localCandidates := splitCsv (message.get "local_candidates")
    app := message.get "app"
    stunNat := message.get "stun_nat"
    relayPass := if relayPass = "" then none else some relayPass
    extensionFields := message.fields.filter fun field => field.1 ∉ helloFields }

/-- The `match_key` of `handle_client`. -/
def RelayHello.matchKey (hello : RelayHello) : String :=
  hello.room ++ "#" ++ toString hello.connIndex

/-- `relay_room_base`. -/
def relayRoomBase (matchKey : String) : String :=
  String.ofList (matchKey.toList.takeWhile (· ≠ '#'))

example : relayRoomBase "room-d#2" = "room-d" ∧ relayRoomBase "room-e" = "room-e" := by decide

/-- An accepted hello has a room, and is auxiliary when its index is not 0. -/
theorem decodeRelayHello_ok {message : Message} {hello : RelayHello}
    (h : decodeRelayHello message = .ok hello) :
    hello.room = message.get "room" ∧ hello.room ≠ "" ∧
      (0 < hello.connIndex → hello.auxiliary = true) := by
  unfold decodeRelayHello at h
  by_cases htype : message.type = "hello"
  swap
  · simp only [ne_eq, htype, not_false_eq_true, if_true] at h
    cases h
  by_cases hroom : message.get "room" = ""
  · simp only [ne_eq, htype, not_true, if_false, hroom, if_true] at h
    cases h
  simp only [ne_eq, htype, not_true, if_false, hroom] at h
  obtain ⟨role, -, h⟩ := exists_of_bind_ok h
  obtain ⟨connIndex, -, h⟩ := exists_of_bind_ok h
  obtain ⟨listenPort, -, h⟩ := exists_of_bind_ok h
  obtain ⟨punchPublicPort, -, h⟩ := exists_of_bind_ok h
  obtain ⟨fileCount, -, h⟩ := exists_of_bind_ok h
  obtain ⟨totalSize, -, h⟩ := exists_of_bind_ok h
  obtain ⟨connCount, -, h⟩ := exists_of_bind_ok h
  obtain ⟨-, -, h⟩ := exists_of_bind_ok h
  obtain rfl := Except.ok.inj h
  refine ⟨rfl, hroom, fun hindex => ?_⟩
  simp [hindex]

/-- The hello of a client, for the primary connection unless `aux` is given. -/
def saying (room role : String) (aux : String := "") : Message :=
  { type := "hello", fields := [("room", room), ("role", role), ("aux", aux)] }

/-! ## Keys -/

theorem eq_of_append_cons_eq {α : Type} {x₁ x₂ z₁ z₂ : List α} {a : α} (h₁ : a ∉ z₁) (h₂ : a ∉ z₂)
    (h : x₁ ++ a :: z₁ = x₂ ++ a :: z₂) : x₁ = x₂ ∧ z₁ = z₂ := by
  obtain ⟨w, rfl, hw⟩ | ⟨w, rfl, hw⟩ := List.append_eq_append_iff.mp h
  all_goals
    cases w with
    | nil => simp_all
    | cons b w =>
      obtain ⟨rfl, rfl⟩ := List.cons.inj hw
      simp at h₁ h₂

theorem hash_notMem_toDigits (n : Nat) : '#' ∉ Nat.toDigits 10 n := by
  intro hmem
  exact absurd (Nat.isDigit_of_mem_toDigits (by decide) (by decide) hmem) (by decide)

theorem RelayHello.matchKey_toList (hello : RelayHello) :
    hello.matchKey.toList = hello.room.toList ++ '#' :: Nat.toDigits 10 hello.connIndex := by
  have hdigits : (toString hello.connIndex).toList = Nat.toDigits 10 hello.connIndex := Nat.toList_repr
  simp only [matchKey, String.toList_append, hdigits, List.append_assoc]
  rfl

/-- The room and the index can be read off the key: it has its last `#` between them. -/
theorem RelayHello.matchKey_inj {hello other : RelayHello} (h : hello.matchKey = other.matchKey) :
    hello.room = other.room ∧ hello.connIndex = other.connIndex := by
  have hlist := congrArg String.toList h
  rw [matchKey_toList, matchKey_toList] at hlist
  obtain ⟨hroom, hindex⟩ :=
    eq_of_append_cons_eq (hash_notMem_toDigits _) (hash_notMem_toDigits _) hlist
  refine ⟨String.toList_injective hroom, ?_⟩
  have hback := congrArg (Nat.ofDigitChars 10 · 0) hindex
  simpa only [Nat.ofDigitChars_ten_toDigits] using hback

/-- What is held for a hello is its room up to a `#`. -/
theorem relayRoomBase_matchKey (hello : RelayHello) :
    relayRoomBase hello.matchKey = relayRoomBase hello.room := by
  have htake (cs ds : List Char) :
      (cs ++ '#' :: ds).takeWhile (· ≠ '#') = cs.takeWhile (· ≠ '#') := by
    induction cs with
    | nil => simp
    | cons c cs ih =>
      by_cases hc : c = '#'
      · simp [hc]
      · simpa [hc] using ih
  rw [relayRoomBase, RelayHello.matchKey_toList, htake, relayRoomBase]

/-! ## What a relay does with them -/

structure RelayServerConfig where
  password : String := ""
  maxWaitingPeers : Nat := 512
deriving DecidableEq, Repr

/-- `relay_password_ok`. -/
def relayPasswordOk (config : RelayServerConfig) (hello : Message) : Bool :=
  config.password == "" || hello.get "relay_pass" == config.password

inductive RelayOp
  /-- the first message of a connection is read, up to its pairing; who of the waiting peers is
      stale then is a `purge` of its own -/
  | hello (conn : Nat) (message : Message)
  /-- the handler of a connection ends, and what it has claimed is released -/
  | release (conn : Nat)
  | purge (stale : List Nat)
  | close
deriving DecidableEq, Repr

/-- The hello a message is accepted as. -/
def acceptHello (config : RelayServerConfig) (message : Message) : Option RelayHello :=
  if !relayPasswordOk config message then none else (decodeRelayHello message).toOption

/-- What is done to the rooms: nothing for a hello that is refused before. -/
def RelayOp.roomOp (config : RelayServerConfig) : RelayOp → Option RoomOp
  | .hello conn message =>
    (acceptHello config message).map fun hello =>
      .pair hello.matchKey (relayRoomBase hello.matchKey) ⟨hello.role, conn⟩ hello.auxiliary
  | .release conn => some (.release conn)
  | .purge stale => some (.purge stale)
  | .close => some .close

theorem acceptHello_ok {config : RelayServerConfig} {message : Message} {hello : RelayHello}
    (h : acceptHello config message = some hello) : decodeRelayHello message = .ok hello := by
  unfold acceptHello at h
  by_cases hpass : (!relayPasswordOk config message) = true
  · simp [hpass] at h
  · simp only [if_neg hpass] at h
    cases hdecode : decodeRelayHello message with
    | error e => simp [hdecode, Except.toOption] at h
    | ok hello' => simpa [hdecode, Except.toOption] using h

/-! ## Who is matched

The invariant is about who waits: under the key of its own hello. Who is matched is matched
with someone who waited, and the rest is about the two hellos. -/

/-- A relay at work, with the hellos it has accepted. -/
structure RelayRun where
  run : RoomRun := {}
  /-- history -/
  hellos : List (Nat × RelayHello) := []
deriving DecidableEq, Repr

namespace RelayRun

def step (config : RelayServerConfig) (s : RelayRun) (op : RelayOp) : Option RelayRun :=
  match op.roomOp config with
  | none => some s
  | some roomOp =>
    (s.run.step config.maxWaitingPeers roomOp).map fun run =>
      { run := run
        hellos := match op with
          | .hello conn message =>
            s.hellos ++ ((acceptHello config message).map fun hello => (conn, hello)).toList
          | _ => s.hellos }

end RelayRun

/-- The two hellos say that their clients belong together. -/
structure RelayHello.Corresponds (hello other : RelayHello) : Prop where
  room : hello.room = other.room
  connIndex : hello.connIndex = other.connIndex
  role : hello.role ≠ other.role
  auxiliary : hello.auxiliary = other.auxiliary

/-- No primary connection meets an auxiliary one: a hello with the index 0 does not find, where
    it is let in, a peer of the other role that waits in the same room with the index 0 and
    with the other `aux`. -/
def Unmixed (config : RelayServerConfig) (s : RelayRun) : RelayOp → Prop
  | .hello _ message => ∀ hello ∈ acceptHello config message, hello.connIndex = 0 →
      hello.auxiliary = true ∨ relayRoomBase hello.room ∉ s.run.rooms.activeRooms →
      ∀ entry ∈ s.run.rooms.waiting, ∀ waiter ∈ s.hellos.lookup entry.2.conn,
        waiter.room = hello.room → waiter.connIndex = 0 → waiter.role ≠ hello.role →
        waiter.auxiliary = hello.auxiliary
  | _ => True

instance (config : RelayServerConfig) (s : RelayRun) : (op : RelayOp) → Decidable (Unmixed config s op)
  | .hello _ message =>
    inferInstanceAs (Decidable (∀ hello ∈ acceptHello config message, _))
  | .release _ | .purge _ | .close => inferInstanceAs (Decidable True)

namespace RelayRun

/-- Who waits, waits under the key of its hello, and who is matched belongs together. -/
structure Corresponding (s : RelayRun) : Prop where
  known : ∀ conn ∈ s.hellos.map (·.1), conn ∈ s.run.submitted
  waiting : ∀ entry ∈ s.run.rooms.waiting, ∃ hello,
    s.hellos.lookup entry.2.conn = some hello ∧ hello.matchKey = entry.1 ∧
      hello.role = entry.2.role ∧ (0 < hello.connIndex → hello.auxiliary = true)
  matched : ∀ p ∈ s.run.matched, ∃ hello other,
    s.hellos.lookup p.1 = some hello ∧ s.hellos.lookup p.2 = some other ∧ hello.Corresponds other

/-- What a step can do: nothing, pair a new connection, or what touches neither the matches nor
    the hellos and lets nobody new wait. -/
theorem step_cases {config : RelayServerConfig} {s s' : RelayRun} {op : RelayOp}
    (hs : s.step config op = some s') :
    s' = s ∨
    (∃ conn message hello, op = .hello conn message ∧ acceptHello config message = some hello ∧
      conn ∉ s.run.submitted ∧
      s' = { run := (s.run.apply config.maxWaitingPeers (.pair hello.matchKey
                (relayRoomBase hello.matchKey) ⟨hello.role, conn⟩ hello.auxiliary)).1
             hellos := s.hellos ++ [(conn, hello)] }) ∨
    (s'.hellos = s.hellos ∧ s'.run.submitted = s.run.submitted ∧ s'.run.matched = s.run.matched ∧
      ∀ entry ∈ s'.run.rooms.waiting, entry ∈ s.run.rooms.waiting) := by
  cases op with
  | hello conn message =>
    unfold step RelayOp.roomOp at hs
    cases haccept : acceptHello config message with
    | none =>
      simp only [haccept, Option.map_none, Option.some.injEq] at hs
      exact .inl hs.symm
    | some hello =>
      simp only [haccept, Option.map_some, Option.toList_some] at hs
      obtain ⟨run, hrun, rfl⟩ := Option.map_eq_some_iff.mp hs
      unfold RoomRun.step at hrun
      by_cases hnew : conn ∈ s.run.submitted
      · simp [hnew] at hrun
      · simp only [if_neg hnew, Option.some.injEq] at hrun
        exact .inr (.inl ⟨conn, message, hello, rfl, haccept, hnew, hrun ▸ rfl⟩)
  | release conn =>
    obtain rfl := Option.some.inj hs
    exact .inr (.inr ⟨rfl, rfl, rfl, fun entry hentry => by
      have := RoomRun.waiting_release s.run conn
      exact this ▸ hentry⟩)
  | purge stale =>
    obtain rfl := Option.some.inj hs
    exact .inr (.inr ⟨rfl, rfl, rfl, fun entry hentry => (List.mem_filter.mp hentry).1⟩)
  | close =>
    obtain rfl := Option.some.inj hs
    exact .inr (.inr ⟨rfl, rfl, rfl, fun entry hentry => absurd hentry List.not_mem_nil⟩)

theorem Corresponding.step {config : RelayServerConfig} {s s' : RelayRun} {op : RelayOp}
    (h : s.Corresponding) (hg : Unmixed config s op) (hs : s.step config op = some s') :
    s'.Corresponding := by
  obtain rfl | ⟨conn, message, hello, rfl, haccept, hnew, rfl⟩ | ⟨hhellos, hsub, hmatched, hwait⟩ :=
    step_cases hs
  · exact h
  · -- what was said before is still on record, and this hello is
    have hold {c : Nat} {w : RelayHello} (hc : s.hellos.lookup c = some w) :
        (s.hellos ++ [(conn, hello)]).lookup c = some w := by
      rw [List.lookup_append, hc, Option.some_or]
    have hself : (s.hellos ++ [(conn, hello)]).lookup conn = some hello := by
      have hnone : s.hellos.lookup conn = none := by
        rw [List.lookup_eq_none_iff]
        intro entry hentry
        have : conn ≠ entry.1 := fun heq => hnew (h.known conn (heq ▸ List.mem_map_of_mem hentry))
        simpa using this
      rw [List.lookup_append, hnone, Option.none_or]
      simp
    have haux := (decodeRelayHello_ok (acceptHello_ok haccept)).2.2
    obtain ⟨st, result, hpair⟩ : ∃ st result, s.run.rooms.pairOrWait config.maxWaitingPeers
        hello.matchKey (relayRoomBase hello.matchKey) ⟨hello.role, conn⟩ hello.auxiliary =
          (st, result) := ⟨_, _, rfl⟩
    have hknown : ∀ c ∈ (s.hellos ++ [(conn, hello)]).map (·.1), c ∈ s.run.submitted ++ [conn] := by
      intro c hc
      rw [List.map_append, List.mem_append] at hc
      rw [List.mem_append]
      exact hc.imp (h.known c) id
    have hwaited : ∀ entry ∈ s.run.rooms.waiting, ∃ w,
        (s.hellos ++ [(conn, hello)]).lookup entry.2.conn = some w ∧ w.matchKey = entry.1 ∧
          w.role = entry.2.role ∧ (0 < w.connIndex → w.auxiliary = true) := by
      intro entry hentry
      obtain ⟨w, hw, hrest⟩ := h.waiting entry hentry
      exact ⟨w, hold hw, hrest⟩
    have hpairs : ∀ p ∈ s.run.matched, ∃ w other,
        (s.hellos ++ [(conn, hello)]).lookup p.1 = some w ∧
          (s.hellos ++ [(conn, hello)]).lookup p.2 = some other ∧ w.Corresponds other := by
      intro p hp
      obtain ⟨w, other, hw, ho, hcorr⟩ := h.matched p hp
      exact ⟨w, other, hold hw, hold ho, hcorr⟩
    simp only [RoomRun.apply, hpair]
    obtain ⟨rfl, rfl | rfl⟩ | ⟨-, -, -, rfl, rfl⟩ | ⟨peer, hlook, hrole, hfree, rfl, rfl⟩ :=
      pairOrWait_cases hpair
    · exact ⟨hknown, hwaited, hpairs⟩
    · exact ⟨hknown, hwaited, hpairs⟩
    · refine ⟨hknown, fun entry hentry => ?_, hpairs⟩
      obtain hentry | hentry := List.mem_append.mp hentry
      · exact hwaited entry hentry
      · obtain rfl := List.mem_singleton.mp hentry
        exact ⟨hello, hself, rfl, rfl, haux⟩
    · refine ⟨hknown, fun entry hentry => hwaited entry (List.mem_filter.mp hentry).1, ?_⟩
      intro p hp
      obtain hp | hp := List.mem_append.mp hp
      · exact hpairs p hp
      obtain rfl := List.mem_singleton.mp hp
      -- the peer has waited under the same key
      have hmem := mem_of_lookup hlook
      obtain ⟨w, hw, hkey, hwrole, hwaux⟩ := h.waiting _ hmem
      obtain ⟨hroom, hindex⟩ := RelayHello.matchKey_inj hkey
      have hne : w.role ≠ hello.role := hwrole ▸ hrole
      refine ⟨w, hello, hold hw, hself, hroom, hindex, hne, ?_⟩
      by_cases hzero : hello.connIndex = 0
      · rw [relayRoomBase_matchKey] at hfree
        exact hg hello haccept hzero hfree _ hmem w hw hroom (hindex.trans hzero) hne
      · rw [haux (Nat.pos_of_ne_zero hzero), hwaux (hindex ▸ Nat.pos_of_ne_zero hzero)]
  · refine ⟨?_, fun entry hentry => ?_, ?_⟩
    · rw [hhellos, hsub]
      exact h.known
    · rw [hhellos]
      exact h.waiting entry (hwait entry hentry)
    · rw [hhellos, hmatched]
      exact h.matched

/-- **Only what corresponds is matched.** In every run in which no primary connection meets an
    auxiliary one, whoever is matched has said the same room, the same index and the same `aux`
    as its peer, and the other role. -/
theorem matches_correspond {config : RelayServerConfig} {s : RelayRun}
    (h : Lts.ReachUnder (step config) (Unmixed config) {} s) :
    ∀ p ∈ s.run.matched, ∃ hello other,
      s.hellos.lookup p.1 = some hello ∧ s.hellos.lookup p.2 = some other ∧
        hello.Corresponds other := by
  have hc : s.Corresponding := h.invariant ⟨by simp, by simp, by simp⟩ fun hc hg hs => hc.step hg hs
  exact hc.matched

theorem matches_correspond_pair : ∃ s : RelayRun, s.run.matched = [(0, 1)] ∧
    ∀ p ∈ s.run.matched, ∃ hello other,
      s.hellos.lookup p.1 = some hello ∧ s.hellos.lookup p.2 = some other ∧
        hello.Corresponds other := by
  obtain ⟨s, hs, hm⟩ := Lts.ReachUnder.exists_of_run (step {}) (Unmixed {}) {}
    [.hello 0 (saying "r" "sender"), .purge [], .hello 1 (saying "r" "receiver")]
    (fun s => s.run.matched = [(0, 1)]) (by decide +kernel) (by decide +kernel)
  exact ⟨s, of_decide_eq_true hm, matches_correspond hs⟩

/-- A primary connection of the sender meets one that the receiver calls auxiliary. -/
theorem primary_meets_auxiliary : ¬ ∀ config (s : RelayRun), Lts.Reach (step config) {} s →
    ∀ p ∈ s.run.matched, ∃ hello other,
      s.hellos.lookup p.1 = some hello ∧ s.hellos.lookup p.2 = some other ∧
        hello.Corresponds other := by
  intro h
  obtain ⟨s, hs, hm⟩ := Lts.Reach.exists_of_run (step {}) {}
    [.hello 0 (saying "r" "sender"), .hello 1 (saying "r" "receiver" "1")]
    (fun s => s.run.matched = [(0, 1)] ∧ (s.hellos.lookup 0).map (·.auxiliary) = some false ∧
      (s.hellos.lookup 1).map (·.auxiliary) = some true) (by decide +kernel)
  obtain ⟨hmatched, h0, h1⟩ := of_decide_eq_true hm
  obtain ⟨hello, other, hh, ho, hcorr⟩ := h _ s hs (0, 1) (by simp [hmatched])
  rw [hh] at h0
  rw [ho] at h1
  have hsame := hcorr.auxiliary
  simp_all

end RelayRun

end Kiko.RelayRace
