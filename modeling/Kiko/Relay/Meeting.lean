import Kiko.Relay.Race
import Kiko.Relay.Rooms

/-!
# Two clients and the relays they share (`relay/relay_room_state`, `relay/relay_race`)

Both clients register under one room with several relays and race them, each for itself. A
relay pairs the two with `pair_or_wait`, once both have registered with it, and sends either
a `peer` message; from there on messages and closes take any time. Nothing is exchanged
about the choice: a client takes the best relay whose message it has when its settle window
is over, and closes the others.

A connection is known by its client and its index among that client's entries. Which relay
an entry leads to is `site`, since one relay has different addresses for different clients.
What a `peer` message says besides its type is passed on by the race and left out, as is
the purge of registrations that waited too long.

Nothing on either side says which relay the other has taken, and this is by design: each is
to find out at the rendezvous itself. So that the two meet cannot be an invariant of the
system; what can be said is that they do when they have heard from the same relays and rank
them alike, and that whoever they have taken did pair them.
-/

set_option autoImplicit false

namespace Kiko.RelayRace

/-- `reject_client`. -/
def rejectMessage (code : String) : Message := { type := "error", fields := [("code", code)] }

/-! ## The system

The race of each client is the machine of `Kiko.Relay.Race`; the relays and the messages
under way are added around it. -/

/-- What the two clients race, and where it leads. -/
structure Setting (ρ : Type) where
  entries : Role → List Registered
  site : Role → Nat → ρ
  room : String
  maxWaitingPeers : Nat
  ordered : ∀ r i (e : Registered), (entries r)[i]? = some e → e.order = i
  site_inj : ∀ r i j, i < (entries r).length → j < (entries r).length →
    site r i = site r j → i = j

/-- A pairing, by the connections of its two ends. -/
structure Pairing where
  sender : Nat
  receiver : Nat
deriving DecidableEq, Repr

def Pairing.conn (p : Pairing) : Role → Nat
  | .sender => p.sender
  | .receiver => p.receiver

/-- The pairing of `self`, in the role `r`, with `peer`. -/
def Pairing.make (r : Role) (self peer : Nat) : Pairing :=
  match r with
  | .sender => ⟨self, peer⟩
  | .receiver => ⟨peer, self⟩

@[simp] theorem Pairing.make_conn (r : Role) (self peer : Nat) :
    (Pairing.make r self peer).conn r = self := by cases r <;> rfl

@[simp] theorem Pairing.make_conn_peer (r : Role) (self peer : Nat) :
    (Pairing.make r self peer).conn r.peer = peer := by cases r <;> rfl

structure Meeting (ρ : Type) where
  rooms : ρ → RelayRoomState := fun _ => {}
  /-- the connections whose hello has been sent -/
  registered : Role → List Nat := fun _ => []
  /-- what a relay has sent to a connection, the first message first -/
  inbox : Role → Nat → List Message := fun _ _ => []
  race : Role → Race
  /-- history -/
  pairings : List Pairing := []

/-- A connection of a client is an end of a pairing. -/
def Meeting.Paired {ρ : Type} (s : Meeting ρ) (r : Role) (conn : Nat) : Prop :=
  ∃ p ∈ s.pairings, p.conn r = conn

/-- What a call has returned. -/
def Race.result (s : Race) : Option ActiveRelayCandidate :=
  match s.pc with
  | .returned result _ => result
  | _ => none

inductive MeetingLabel
  /-- the hello of a client's `i`-th entry comes to its relay -/
  | hello (r : Role) (i : Nat)
  /-- a step of a client's race; what a poll reads is at the front of the inbox -/
  | client (r : Role) (l : Label)
deriving DecidableEq, Repr

section

variable {ρ : Type} [DecidableEq ρ]

namespace Meeting

def deliver (s : Meeting ρ) (r : Role) (conn : Nat) (m : Message) : Meeting ρ :=
  { s with
    inbox := Function.update s.inbox r
      (Function.update (s.inbox r) conn (s.inbox r conn ++ [m])) }

def setRoom (s : Meeting ρ) (site : ρ) (room : RelayRoomState) : Meeting ρ :=
  { s with rooms := Function.update s.rooms site room }

def setRace (s : Meeting ρ) (r : Role) (race : Race) : Meeting ρ :=
  { s with race := Function.update s.race r race }

/-- Neither client has connected anywhere. -/
def start : Meeting ρ :=
  { race := fun _ => { relays := [], pc := .returned none [] } }

/-- A relay deals with the hello of a connection (`handle_client`). -/
def takeHello (cfg : Setting ρ) (s : Meeting ρ) (r : Role) (i : Nat) : Meeting ρ :=
  let site := cfg.site r i
  let s := { s with registered := Function.update s.registered r (i :: s.registered r) }
  match (s.rooms site).pairOrWait cfg.maxWaitingPeers (cfg.room ++ "#0") cfg.room ⟨r, i⟩ false with
  | (room, .waiting) => s.setRoom site room
  | (_, .roomFull) => s.deliver r i (rejectMessage "room_full")
  | (_, .capacityFull) => s.deliver r i (rejectMessage "server_busy")
  | (room, .matched peer) =>
    let s := { s.setRoom site room with pairings := .make r i peer.conn :: s.pairings }
    (s.deliver r i peerMessage).deliver peer.role peer.conn peerMessage

def step (cfg : Setting ρ) (s : Meeting ρ) : MeetingLabel → Option (Meeting ρ)
  | .hello r i =>
    if i < (cfg.entries r).length ∧ i ∉ s.registered r then some (s.takeHello cfg r i) else none
  | .client r (.poll (.message m)) =>
    match (s.race r).polled with
    | some relay =>
      match s.inbox r relay.order with
      | m' :: rest =>
        if m' = m ∧ relay.peer = none ∧ relay.socketValid then
          (RelayRace.step (s.race r) (.poll (.message m))).map fun race =>
            { s.setRace r race with
              inbox := Function.update s.inbox r (Function.update (s.inbox r) relay.order rest) }
        else none
      | [] => none
    | none => none
  | .client r (.nextCall arrivals) =>
    if ∀ a ∈ arrivals, a ∈ cfg.entries r then
      (RelayRace.step (s.race r) (.nextCall arrivals)).map (s.setRace r)
    else none
  | .client r l => (RelayRace.step (s.race r) l).map (s.setRace r)

/-- The condition of the race itself, on either client's steps. -/
def keepsBest (s : Meeting ρ) : MeetingLabel → Bool
  | .hello .. => true
  | .client r l => RelayRace.keepsBest (s.race r) l

end Meeting

/-! ## The invariant

Everything a client has, it has from a relay: candidates from its own list, peer messages
from a pairing. -/

/-- Where the candidates, the messages and the pairings come from. -/
structure Traced (cfg : Setting ρ) (s : Meeting ρ) : Prop where
  entry : ∀ r, ∀ c ∈ (s.race r).candidates, ∃ e : Registered,
    (cfg.entries r)[c.order]? = some e ∧ e.priority = c.priority
  peer : ∀ r, ∀ c ∈ (s.race r).candidates, c.peer.isSome → s.Paired r c.order
  inbox : ∀ r i, ∀ m ∈ s.inbox r i, m.type = "peer" → s.Paired r i
  waiting : ∀ site, ∀ w ∈ (s.rooms site).waiting, w.2.conn < (cfg.entries w.2.role).length ∧
    cfg.site w.2.role w.2.conn = site
  pairing : ∀ p ∈ s.pairings, (∀ r, p.conn r < (cfg.entries r).length) ∧
    cfg.site .sender p.sender = cfg.site .receiver p.receiver

variable {cfg : Setting ρ} {s s' : Meeting ρ} {l : MeetingLabel}

/-- Every hello leaves the room as it was, lets its connection wait, or pairs it with one
    that waited, of the other role. -/
theorem pairOrWait_spec (st : RelayRoomState) (maxWaitingPeers : Nat) (matchKey activeRoom : String)
    (self : RelayWaitingPeer) (auxiliary : Bool) :
    (∀ w ∈ (st.pairOrWait maxWaitingPeers matchKey activeRoom self auxiliary).1.waiting,
      w ∈ st.waiting ∨ w = (matchKey, self)) ∧
    ∀ peer, (st.pairOrWait maxWaitingPeers matchKey activeRoom self auxiliary).2 = .matched peer →
      (matchKey, peer) ∈ st.waiting ∧ peer.role ≠ self.role := by
  unfold RelayRoomState.pairOrWait
  split
  · exact ⟨fun w hw => .inl hw, by simp⟩
  split
  · split
    · exact ⟨fun w hw => .inl hw, by simp⟩
    · exact ⟨by simp, by simp⟩
  next peer hpeer =>
    split
    · exact ⟨fun w hw => .inl hw, by simp⟩
    next hrole =>
      refine ⟨fun w hw => .inl (List.mem_filter.mp hw).1, fun peer' h => ?_⟩
      obtain rfl := RelayRoomPairing.matched.inj h
      obtain ⟨l₁, l₂, heq, -⟩ := List.lookup_eq_some_iff.mp hpeer
      exact ⟨by simp [heq], hrole⟩

omit [DecidableEq ρ] in
/-- A message that is not unfounded is put on its way. -/
theorem Traced.deliver (h : Traced cfg s) {r : Role} {i : Nat} {m : Message}
    (hm : m.type = "peer" → s.Paired r i) : Traced cfg (s.deliver r i m) where
  entry := h.entry
  peer := h.peer
  inbox := by
    intro r' i' m' hmem htype
    by_cases hr : r' = r
    · subst hr
      by_cases hi : i' = i
      · subst hi
        simp only [Meeting.deliver, Function.update_self, List.mem_append, List.mem_singleton] at hmem
        rcases hmem with hmem | rfl
        · exact h.inbox r' i' m' hmem htype
        · exact hm htype
      · simp only [Meeting.deliver, Function.update_self, Function.update_of_ne hi] at hmem
        exact h.inbox r' i' m' hmem htype
    · simp only [Meeting.deliver, Function.update_of_ne hr] at hmem
      exact h.inbox r' i' m' hmem htype
  waiting := h.waiting
  pairing := h.pairing

theorem Traced.setRoom (h : Traced cfg s) {site : ρ} {room : RelayRoomState}
    (hroom : ∀ w ∈ room.waiting, w.2.conn < (cfg.entries w.2.role).length ∧
      cfg.site w.2.role w.2.conn = site) : Traced cfg (s.setRoom site room) where
  entry := h.entry
  peer := h.peer
  inbox := h.inbox
  waiting := by
    intro site' w hw
    by_cases hs : site' = site
    · subst hs
      simp only [Meeting.setRoom, Function.update_self] at hw
      exact hroom w hw
    · simp only [Meeting.setRoom, Function.update_of_ne hs] at hw
      exact h.waiting site' w hw
  pairing := h.pairing

omit [DecidableEq ρ] in
theorem Traced.pair (h : Traced cfg s) {p : Pairing} (hlen : ∀ r, p.conn r < (cfg.entries r).length)
    (hsite : cfg.site .sender p.sender = cfg.site .receiver p.receiver) :
    Traced cfg { s with pairings := p :: s.pairings } := by
  have hmono {r : Role} {i : Nat} (hp : s.Paired r i) :
      ({ s with pairings := p :: s.pairings } : Meeting ρ).Paired r i := by
    obtain ⟨q, hq, hqi⟩ := hp
    exact ⟨q, List.mem_cons_of_mem _ hq, hqi⟩
  exact
    { entry := h.entry
      peer := fun r c hc hp => hmono (h.peer r c hc hp)
      inbox := fun r i m hm htype => hmono (h.inbox r i m hm htype)
      waiting := h.waiting
      pairing := List.forall_mem_cons.mpr ⟨⟨hlen, hsite⟩, h.pairing⟩ }

/-- A relay pairs two connections that lead to it. -/
theorem traced_hello (h : Traced cfg s) {r : Role} {i : Nat} (hi : i < (cfg.entries r).length) :
    Traced cfg (s.takeHello cfg r i) := by
  have h₁ : Traced cfg { s with registered := Function.update s.registered r (i :: s.registered r) } :=
    { h with }
  obtain ⟨hwait, hmatch⟩ := pairOrWait_spec (s.rooms (cfg.site r i)) cfg.maxWaitingPeers
    (cfg.room ++ "#0") cfg.room ⟨r, i⟩ false
  have hroom : ∀ w ∈ ((s.rooms (cfg.site r i)).pairOrWait cfg.maxWaitingPeers (cfg.room ++ "#0")
      cfg.room ⟨r, i⟩ false).1.waiting, w.2.conn < (cfg.entries w.2.role).length ∧
        cfg.site w.2.role w.2.conn = cfg.site r i := by
    intro w hw
    rcases hwait w hw with hw | rfl
    · exact h.waiting _ w hw
    · exact ⟨hi, rfl⟩
  unfold Meeting.takeHello
  simp only
  split
  next room heq =>
    rw [heq] at hroom
    exact h₁.setRoom hroom
  next heq => exact h₁.deliver fun ht => absurd ht (by simp [rejectMessage])
  next heq => exact h₁.deliver fun ht => absurd ht (by simp [rejectMessage])
  next room peer heq =>
    rw [heq] at hroom hmatch
    obtain ⟨hmem, hrole⟩ := hmatch peer rfl
    obtain ⟨hlen, hsite⟩ := h.waiting _ _ hmem
    obtain ⟨role, conn⟩ := peer
    obtain rfl : role = r.peer := by cases role <;> cases r <;> simp_all [Role.peer]
    have hlens : ∀ r', (Pairing.make r i conn).conn r' < (cfg.entries r').length :=
      Role.forall_of_peer ((Pairing.make_conn r i conn).symm ▸ hi)
        ((Pairing.make_conn_peer r i conn).symm ▸ hlen)
    have hsites : cfg.site .sender (Pairing.make r i conn).sender =
        cfg.site .receiver (Pairing.make r i conn).receiver := by
      cases r with
      | sender => exact hsite.symm
      | receiver => exact hsite
    have h₂ := (h₁.setRoom hroom).pair hlens hsites
    have h₃ := h₂.deliver (m := peerMessage) fun _ => ⟨_, List.mem_cons_self, Pairing.make_conn r i conn⟩
    exact h₃.deliver fun _ => ⟨_, List.mem_cons_self, Pairing.make_conn_peer r i conn⟩

omit [DecidableEq ρ] in
/-- A client's step: new candidates are among its entries, and a new peer was announced by
    the relay. -/
theorem Traced.setRace (h : Traced cfg s) {r : Role} {race : Race} {l : Label}
    (hs : RelayRace.step (s.race r) l = some race)
    (hpoll : ∀ m, l = .poll (.message m) → m.type = "peer" → ∀ c, (s.race r).polled = some c →
      s.Paired r c.order)
    (hcall : ∀ arrivals, l = .nextCall arrivals → ∀ a ∈ arrivals, a ∈ cfg.entries r) :
    Traced cfg (s.setRace r race) := by
  have hcand : ∀ c ∈ race.candidates, (∃ e : Registered, (cfg.entries r)[c.order]? = some e ∧
      e.priority = c.priority) ∧ (c.peer.isSome → s.Paired r c.order) := by
    intro c hc
    rcases step_candidates hs c hc with ⟨c₀, hc₀, horder, hprio, hpeer⟩ | ⟨arrivals, hl, a, ha, rfl⟩
    · rw [horder, hprio]
      refine ⟨h.entry r c₀ hc₀, fun hp => ?_⟩
      rcases hpeer with heq | ⟨m, hl, htype, hpolled⟩
      · exact h.peer r c₀ hc₀ (heq ▸ hp)
      · exact hpoll m hl htype c₀ hpolled
    · obtain ⟨i, hi⟩ := List.mem_iff_getElem?.mp (hcall arrivals hl a ha)
      have := cfg.ordered r i a hi
      exact ⟨⟨a, by rw [← hi, ← this]; rfl, rfl⟩, fun hp => by simp [Registered.candidate] at hp⟩
  refine ⟨fun r' c hc => ?_, fun r' c hc => ?_, h.inbox, h.waiting, h.pairing⟩
  all_goals
    by_cases hr : r' = r
    · subst hr
      simp only [Meeting.setRace, Function.update_self] at hc
      first | exact (hcand c hc).1 | exact (hcand c hc).2
    · simp only [Meeting.setRace, Function.update_of_ne hr] at hc
      first | exact h.entry r' c hc | exact h.peer r' c hc

omit [DecidableEq ρ] in
/-- A message is taken out of an inbox. -/
theorem Traced.pop (h : Traced cfg s) {r : Role} {i : Nat} {m : Message} {rest : List Message}
    (hinbox : s.inbox r i = m :: rest) : Traced cfg { s with
      inbox := Function.update s.inbox r (Function.update (s.inbox r) i rest) } :=
  { h with
    inbox := by
      intro r' i' m' hmem htype
      by_cases hr : r' = r
      · subst hr
        by_cases hi : i' = i
        · subst hi
          simp only [Function.update_self] at hmem
          exact h.inbox r' i' m' (hinbox ▸ List.mem_cons_of_mem _ hmem) htype
        · simp only [Function.update_self, Function.update_of_ne hi] at hmem
          exact h.inbox r' i' m' hmem htype
      · simp only [Function.update_of_ne hr] at hmem
        exact h.inbox r' i' m' hmem htype }

theorem traced_step (h : Traced cfg s) (hs : Meeting.step cfg s l = some s') : Traced cfg s' := by
  unfold Meeting.step at hs
  split at hs
  next r i =>
    split at hs
    case isTrue hi =>
      obtain rfl := Option.some.inj hs
      exact traced_hello h hi.1
    case isFalse => cases hs
  next r m =>
    split at hs
    case h_2 => cases hs
    case h_1 relay hpolled =>
      split at hs
      case h_2 => cases hs
      case h_1 m' rest hinbox =>
        split at hs
        case isFalse => cases hs
        case isTrue hread =>
          obtain ⟨race, hrace, rfl⟩ := Option.map_eq_some_iff.mp hs
          obtain ⟨rfl, -⟩ := hread
          have h₁ := h.setRace hrace (fun m hm htype c hc => by
            obtain rfl : m' = m := by simpa using hm
            obtain rfl := Option.some.inj (hpolled.symm.trans hc)
            exact h.inbox r _ m' (hinbox ▸ List.mem_cons_self) htype) (fun _ hl => by cases hl)
          exact h₁.pop hinbox
  next r arrivals =>
    split at hs
    case isFalse => cases hs
    case isTrue hmem =>
      obtain ⟨race, hrace, rfl⟩ := Option.map_eq_some_iff.mp hs
      exact h.setRace hrace (fun _ hl => by cases hl) (fun _ hl => by cases hl; exact hmem)
  next r lc hpoll hcall =>
    obtain ⟨race, hrace, rfl⟩ := Option.map_eq_some_iff.mp hs
    exact h.setRace hrace (fun m hm => absurd hm (hpoll m)) (fun a ha => absurd ha (hcall a))

omit [DecidableEq ρ] in
theorem traced_start : Traced cfg (Meeting.start : Meeting ρ) :=
  ⟨fun r c hc => by simp [Meeting.start, Race.candidates] at hc,
    fun r c hc => by simp [Meeting.start, Race.candidates] at hc,
    fun r i m hm => by simp [Meeting.start] at hm, fun site w hw => by simp [Meeting.start] at hw,
    fun p hp => by simp [Meeting.start] at hp⟩

/-- Every client step is a step of its race, and no other race moves. -/
theorem client_step {r : Role} {lc : Label} (hs : Meeting.step cfg s (.client r lc) = some s') :
    ∃ race, RelayRace.step (s.race r) lc = some race ∧ s'.race = Function.update s.race r race := by
  unfold Meeting.step at hs
  split at hs
  · cases ‹MeetingLabel.client r lc = MeetingLabel.hello _ _›
  next r' m heq =>
    cases heq
    split at hs
    · split at hs
      · split at hs
        · obtain ⟨race, hrace, rfl⟩ := Option.map_eq_some_iff.mp hs
          exact ⟨race, hrace, rfl⟩
        · cases hs
      · cases hs
    · cases hs
  next r' arrivals heq =>
    cases heq
    split at hs
    · obtain ⟨race, hrace, rfl⟩ := Option.map_eq_some_iff.mp hs
      exact ⟨race, hrace, rfl⟩
    · cases hs
  next r' l' _ _ heq =>
    cases heq
    obtain ⟨race, hrace, rfl⟩ := Option.map_eq_some_iff.mp hs
    exact ⟨race, hrace, rfl⟩

theorem hello_race (s : Meeting ρ) (r : Role) (i : Nat) : (s.takeHello cfg r i).race = s.race := by
  unfold Meeting.takeHello
  simp only
  split <;> rfl

/-- Either race keeps its invariant, as long as no step loses what it has selected. -/
theorem races_step (h : ∀ r, Inv (s.race r)) (hg : s.keepsBest l = true)
    (hs : Meeting.step cfg s l = some s') : ∀ r, Inv (s'.race r) := by
  intro r'
  cases l with
  | hello r i =>
    simp only [Meeting.step, Option.ite_none_right_eq_some, Option.some.injEq] at hs
    obtain ⟨-, rfl⟩ := hs
    rw [hello_race]
    exact h r'
  | client r lc =>
    obtain ⟨race, hrace, heq⟩ := client_step hs
    rw [heq]
    by_cases hr : r' = r
    · subst hr
      rw [Function.update_self]
      exact inv_step (h r') hg hrace
    · rw [Function.update_of_ne hr]
      exact h r'

omit [DecidableEq ρ] in
theorem races_start (r : Role) : Inv ((Meeting.start : Meeting ρ).race r) where
  best := by simp [Meeting.start]
  inRange := by simp [Meeting.start]
  kept := fun _ => by simp [Meeting.start, KeepsDelivered]
  chosen := by simp [Meeting.start]
  nothing := by simp [Meeting.start]
  unset := by simp [Meeting.start]
  left := by simp [Meeting.start]

/-! ## Which relays the two come to

Two choices are compared through the pairings behind them. At one relay there is one
pairing, and two different relays are ranked. -/

omit [DecidableEq ρ] in
/-- Two pairings at one relay are one: either client has one connection there. -/
theorem Traced.pairing_unique (h : Traced cfg s) {p q : Pairing} (hp : p ∈ s.pairings)
    (hq : q ∈ s.pairings) (hsite : cfg.site .sender p.sender = cfg.site .receiver q.receiver) :
    p = q := by
  obtain ⟨hplen, hpsite⟩ := h.pairing p hp
  obtain ⟨hqlen, hqsite⟩ := h.pairing q hq
  have h₁ := cfg.site_inj .sender _ _ (hplen .sender) (hqlen .sender) (hsite.trans hqsite.symm)
  have h₂ := cfg.site_inj .receiver _ _ (hplen .receiver) (hqlen .receiver) (hpsite.symm.trans hsite)
  cases p
  cases q
  simp_all [Pairing.conn]

/-- How a client ranks two of its entries. -/
def Setting.before (cfg : Setting ρ) (r : Role) (i j : Nat) : Bool :=
  match (cfg.entries r)[i]?, (cfg.entries r)[j]? with
  | some a, some b => if a.priority ≠ b.priority then a.priority < b.priority else i < j
  | _, _ => false

/-- Both clients rank the relays they share in one order. -/
def Setting.Alike (cfg : Setting ρ) : Prop :=
  ∀ i i' j j', i < (cfg.entries .sender).length → i' < (cfg.entries .sender).length →
    j < (cfg.entries .receiver).length → j' < (cfg.entries .receiver).length →
    cfg.site .sender i = cfg.site .receiver j → cfg.site .sender i' = cfg.site .receiver j' →
    cfg.before .sender i i' = cfg.before .receiver j j'

omit [DecidableEq ρ] in
theorem Traced.before_eq (h : Traced cfg s) {r : Role} {c d : ActiveRelayCandidate}
    (hc : c ∈ (s.race r).candidates) (hd : d ∈ (s.race r).candidates) :
    cfg.before r c.order d.order = relayCandidateBetter c d := by
  obtain ⟨a, ha, hap⟩ := h.entry r c hc
  obtain ⟨b, hb, hbp⟩ := h.entry r d hd
  simp [Setting.before, ha, hb, hap, hbp, relayCandidateBetter]

omit [DecidableEq ρ] in
theorem before_total (cfg : Setting ρ) {r : Role} {i j : Nat} (hi : i < (cfg.entries r).length)
    (hj : j < (cfg.entries r).length) (h₁ : cfg.before r i j = false)
    (h₂ : cfg.before r j i = false) : i = j := by
  simp only [Setting.before, List.getElem?_eq_getElem hi, List.getElem?_eq_getElem hj] at h₁ h₂
  split at h₁
  all_goals split at h₂
  all_goals simp only [decide_eq_false_iff_not] at h₁ h₂
  all_goals omega

/-- What a client has come to: its relay paired it, and none of those whose `peer` message
    it had is ranked before that one. -/
structure Chose (cfg : Setting ρ) (s : Meeting ρ) (r : Role) (c : ActiveRelayCandidate) : Prop where
  paired : s.Paired r c.order
  length : c.order < (cfg.entries r).length
  first : ∀ i ∈ (s.race r).delivered, i < (cfg.entries r).length ∧ cfg.before r i c.order = false

omit [DecidableEq ρ] in
theorem chose_of_result (h : Traced cfg s) {r : Role} (hi : Inv (s.race r))
    {c : ActiveRelayCandidate} (hc : (s.race r).result = some c) : Chose cfg s r c := by
  unfold Race.result at hc
  split at hc
  case h_2 => cases hc
  case h_1 result pool hpc =>
    subst hc
    obtain ⟨⟨hmem, hpeer, hbest⟩, hkept⟩ := hi.chosen c pool hpc
    have hcand {d : ActiveRelayCandidate} (hd : d ∈ pool) : d ∈ (s.race r).candidates := by
      simp [Race.candidates, hpc, hd]
    have hlen {d : ActiveRelayCandidate} (hd : d ∈ pool) : d.order < (cfg.entries r).length := by
      obtain ⟨e, he, -⟩ := h.entry r d (hcand hd)
      exact (List.getElem?_eq_some_iff.mp he).1
    refine ⟨h.peer r c (hcand hmem) hpeer, hlen hmem, fun i hi => ?_⟩
    obtain ⟨d, hd, rfl, hdp⟩ := hkept i hi
    exact ⟨hlen hd, (h.before_eq (hcand hd) (hcand hmem)).trans (hbest d hd hdp)⟩

/-- **What two races come to.** In every run that keeps what its clients have selected, each
    client returns an end of a pairing, at the relay it ranks first of those that had
    announced its peer. When both rank their relays alike, and each had the announcement of
    the relay the other returns, they return the two ends of one pairing. -/
theorem race_meets (cfg : Setting ρ) {s : Meeting ρ}
    (h : Lts.ReachUnder (Meeting.step cfg) (fun s l => s.keepsBest l = true) Meeting.start s)
    {a b : ActiveRelayCandidate} (ha : (s.race .sender).result = some a)
    (hb : (s.race .receiver).result = some b) :
    Chose cfg s .sender a ∧ Chose cfg s .receiver b ∧
      (cfg.Alike →
        (∃ i ∈ (s.race .sender).delivered, cfg.site .sender i = cfg.site .receiver b.order) →
        (∃ j ∈ (s.race .receiver).delivered, cfg.site .sender a.order = cfg.site .receiver j) →
        ⟨a.order, b.order⟩ ∈ s.pairings) := by
  have htraced : Traced cfg s := h.invariant traced_start fun ht _ hs => traced_step ht hs
  have hraces := h.invariant (I := fun s => ∀ r, Inv (s.race r)) races_start
    fun hi hg hs => races_step hi hg hs
  have ca := chose_of_result htraced (hraces .sender) ha
  have cb := chose_of_result htraced (hraces .receiver) hb
  refine ⟨ca, cb, fun halike ⟨i, hi, hisite⟩ ⟨j, hj, hjsite⟩ => ?_⟩
  obtain ⟨hil, hib⟩ := ca.first i hi
  obtain ⟨hjl, hjb⟩ := cb.first j hj
  -- neither ranks the other's relay before its own, and they rank alike
  have hsame : j = b.order := by
    refine before_total cfg hjl cb.length hjb ?_
    rw [← halike i a.order b.order j hil ca.length cb.length hjl hisite hjsite]
    exact hib
  subst hsame
  obtain ⟨p, hp, hpa⟩ := ca.paired
  obtain ⟨q, hq, hqb⟩ := cb.paired
  have hpq := htraced.pairing_unique hp hq (by
    change p.sender = _ at hpa
    change q.receiver = _ at hqb
    rw [hpa, hqb]
    exact hjsite)
  subst hpq
  change p.sender = _ at hpa
  change p.receiver = _ at hqb
  rw [← hpa, ← hqb]
  exact hp

end

/-! ## The entries of a send and of a receive

The lists are built by two functions of the source, and what they have in common is an
order. -/

/-- `RelayRaceEntry`. -/
structure RelayRaceEntry where
  endpoint : Endpoint
  useProxy : Bool := false
  priority : Nat := 0
  startDelayMs : Nat := 0
deriving DecidableEq, Repr

/-- `relay_race_entries_for_send`. -/
def relayRaceEntriesForSend (useEmbedded : Bool) (embedded : Endpoint) (onlyLocal : Bool)
    (externalRelay : Endpoint) : List RelayRaceEntry :=
  (if useEmbedded then [{ endpoint := ⟨"127.0.0.1", embedded.port⟩ }] else []) ++
    if onlyLocal then []
    else [{ endpoint := externalRelay, useProxy := true, priority := if useEmbedded then 1 else 0 }]

/-- `relay_race_entries_for_recv`. -/
def relayRaceEntriesForRecv (relayTargets : List Endpoint) (externalRelay : Endpoint) :
    List RelayRaceEntry :=
  let hasLocalRelay := relayTargets.any fun target => target ≠ externalRelay
  relayTargets.map fun target =>
    let external : Bool := target = externalRelay
    { endpoint := target
      useProxy := external
      priority := if external then 1 else 0
      startDelayMs := if external && hasLocalRelay then 650 else 0 }

/-- What `race_until_peer` registers. -/
def registrations (entries : List RelayRaceEntry) : List Registered :=
  entries.mapIdx fun i entry => ⟨entry.endpoint, entry.priority, i⟩

theorem registrations_ordered {entries : List RelayRaceEntry} {i : Nat} {e : Registered}
    (h : (registrations entries)[i]? = some e) : e.order = i := by
  simp only [registrations, List.getElem?_mapIdx, Option.map_eq_some_iff] at h
  obtain ⟨a, -, rfl⟩ := h
  rfl

/-! ## Two relays, the sender's own and an external one -/

def externalRelay : Endpoint := ⟨"relay", 9000⟩

/-- A sender with an embedded relay, and a receiver that has found it on the LAN. -/
def lanAndExternal : Setting Nat where
  entries
    | .sender => registrations (relayRaceEntriesForSend true ⟨"0.0.0.0", 9001⟩ false externalRelay)
    | .receiver => registrations (relayRaceEntriesForRecv [⟨"192.168.1.2", 9001⟩, externalRelay] externalRelay)
  site _ i := i
  room := "room"
  maxWaitingPeers := 16
  ordered r i e h := by cases r <;> exact registrations_ordered h
  site_inj _ _ _ _ _ h := h

/-- Both clients register with both relays and enter the race. -/
def bothRegister : List MeetingLabel :=
  [.hello .sender 0, .hello .sender 1, .hello .receiver 0, .hello .receiver 1,
    .client .sender (.nextCall (lanAndExternal.entries .sender)),
    .client .receiver (.nextCall (lanAndExternal.entries .receiver))]

/-- Two rounds of a client, in the first of which it reads what it is given. -/
def twoRounds (r : Role) (first second : PollEvent) : List MeetingLabel :=
  ([.tick, .poll first, .poll second, .endScan, .settled false, .tick, .poll .quiet, .poll .quiet,
    .endScan, .settled true] : List Label).map (.client r)

/-- The embedded relay's message is late for the sender, and the external one's for the
    receiver: each returns the relay it has heard of, and they are two. -/
theorem race_meets_elsewhere : ∃ s : Meeting Nat,
    Lts.Reach (Meeting.step lanAndExternal) Meeting.start s ∧
      (⟨0, 0⟩ : Pairing) ∈ s.pairings ∧ (⟨1, 1⟩ : Pairing) ∈ s.pairings ∧
      ∃ a b, (s.race .sender).result = some a ∧ (s.race .receiver).result = some b ∧
        ⟨a.order, b.order⟩ ∉ s.pairings := by
  refine ⟨_, .of_run (bothRegister ++ twoRounds .sender .quiet (.message peerMessage) ++
    twoRounds .receiver (.message peerMessage) .quiet) rfl, ?_, ?_, ?_⟩
  · decide
  · decide
  · exact ⟨_, _, rfl, rfl, by decide⟩

theorem lanAndExternal_alike : lanAndExternal.Alike := by
  rintro i i' j j' hi hi' - - (rfl : i = j) (rfl : i' = j')
  change i < 2 at hi
  change i' < 2 at hi'
  interval_cases i <;> interval_cases i' <;> rfl

/-- Where both messages are there in time, both take the embedded relay. -/
theorem race_meets_lan : ∃ s : Meeting Nat, ⟨0, 0⟩ ∈ s.pairings ∧
    ∃ a, (s.race .sender).result = some a ∧ Chose lanAndExternal s .sender a := by
  obtain ⟨s, hr, hs⟩ := Lts.ReachUnder.exists_of_run (Meeting.step lanAndExternal)
    (fun s l => s.keepsBest l = true) Meeting.start
    (bothRegister ++ twoRounds .sender (.message peerMessage) (.message peerMessage) ++
      twoRounds .receiver (.message peerMessage) (.message peerMessage))
    (fun s => (s.race .sender).result.map (·.order) = some 0 &&
      (s.race .receiver).result.map (·.order) = some 0 && (s.race .sender).delivered.contains 0 &&
      (s.race .receiver).delivered.contains 0) (by decide +kernel) (by decide +kernel)
  simp only [Bool.and_eq_true, decide_eq_true_eq, List.contains_iff_mem, Option.map_eq_some_iff] at hs
  obtain ⟨⟨⟨⟨a, ha, ha0⟩, b, hb, hb0⟩, hs0⟩, hr0⟩ := hs
  obtain ⟨hca, -, hpair⟩ := race_meets lanAndExternal hr ha hb
  have := hpair lanAndExternal_alike ⟨0, hs0, hb0.symm⟩ ⟨0, hr0, ha0⟩
  rw [ha0, hb0] at this
  exact ⟨s, this, a, ha, hca⟩

end Kiko.RelayRace
