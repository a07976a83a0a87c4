import Kiko.Connect.RouteSession

/-!
# What the two clients agree on

Two results about every run of the three-party system of `Kiko.Connect.RouteSession`.

**Agreement.** Whenever both clients have returned a selection, they agree on the path.
On the relay path they agree on `allow_lan_upgrade` exactly when the relay had read
`direct_ok` from one client and `relay_ready` from the other (both then read the reason
`mismatch`), or both or neither of them had announced `direct_ok` (`agree_iff`). The third
case is a client whose `direct_ok` was still in flight when the relay decided: it clears the
flag whatever the reason says, and its peer, going by the reason, sets it.

**Piping.** What the relay pipes is application data only, as long as no announcement is
in flight, and none is made, once the relay path is decided (`forwarded_piped`). Without
that condition the relay forwards a route-control frame that it has not read.

Both rest on one list of what a step can do, `Move`.

The relay is the only party that sees both announcements, and it sees each when it reads it.
A client learns what the relay has decided and never what the other has announced. So
whether the two agree is a question about the relay's view at one moment, and the exact
condition is one on that view and on what was still under way to it.
-/

set_option autoImplicit false

namespace Kiko.Route

variable {s s' : System} {l : Label} {i j : Side} {c : Client}

/-! ## What a step can do

Every label is looked at here once; an invariant is then proved by cases on `Move`, which
has fewer cases than the labels and names what has changed in each. -/

namespace System

@[simp] theorem setClient_client_self : (s.setClient i c).client i = c := by
  simp [setClient]

@[simp] theorem setClient_client_of_ne (h : j ≠ i) : (s.setClient i c).client j = s.client j := by
  simp [setClient, h]

@[simp] theorem setClient_choice : (s.setClient i c).choice = s.choice := rfl
@[simp] theorem setClient_relay : (s.setClient i c).relay = s.relay := rfl
@[simp] theorem setClient_decision : (s.setClient i c).decision = s.decision := rfl
@[simp] theorem setClient_forwarded : (s.setClient i c).forwarded = s.forwarded := rfl

/-- What holds of the client that is put in and of every other one holds of all. -/
theorem forall_setClient {P : Client → Prop} (hc : P c) (h : ∀ j, P (s.client j)) (j : Side) :
    P ((s.setClient i c).client j) := by
  by_cases hj : j = i
  · subst hj; simpa using hc
  · simpa [hj] using h j

end System

/-- The announcements, each with the wait that follows it. -/
inductive Announces : ClientPc → Signal → ClientPc → Prop
  | standby : Announces .begin .standby .racing
  | relayReady : Announces .begin .relayReady .ready
  | probedDirect : Announces (.probed true) .directOk .confirming
  | probedRelay : Announces (.probed false) .relayReady .ready

/-- The waits of a client, each with what it does on a message. -/
inductive Handles : ClientPc → (Message → ClientPc) → Prop
  | racing : Handles .racing (onRaceMessage "while direct pending")
  | lastLook {direct : Bool} : Handles (.probed direct) (onRaceMessage "before route confirmation")
  | confirming : Handles .confirming onConfirmation
  | ready : Handles .ready onRelayStart

/-- The loop of `wait_route_decision` is still running. -/
def RelayPc.deciding : RelayPc → Bool
  | .read _ | .decide => true
  | _ => false

/-- **What a step can do**, by the party that moves. -/
inductive Move (s : System) : Label → System → Prop
  | announce {i : Side} {signal : Signal} {pc : ClientPc} {l : Label}
      (hl : l = .begin i ∨ l = .lastLook i false) (h : Announces (s.client i).pc signal pc) :
      Move s l (s.setClient i ((s.client i).announce signal pc))
  | receive {i : Side} {handle : Message → ClientPc} {c : Client} {l : Label}
      (h : Handles (s.client i).pc handle) (hc : (s.client i).receive handle = some c) :
      Move s l (s.setClient i c)
  | probe {i : Side} {direct : Bool} {l : Label} (h : (s.client i).pc = .racing) :
      Move s l (s.setClient i { s.client i with pc := .probed direct })
  | giveUp {i : Side} {error : KikoError} {l : Label} :
      Move s l (s.setClient i { s.client i with pc := .failed error })
  | send {i : Side} {payload : Bytes} {l : Label} (h : (s.client i).hasStart = true) :
      Move s l (s.setClient i ((s.client i).transmit (.data payload)))
  | merge {i : Side} {rest : List Sent} {next : RelayRouteChoice} {l : Label}
      (hr : s.relay.deciding) (hrest : rest <:+ (s.client i).toRelay) :
      Move s l (s.mergeChoice i rest next)
  | relayTurn {pc : RelayPc} {l : Label} (hr : s.relay.deciding)
      (hpc : pc ≠ .streaming) : Move s l { s with relay := pc }
  | decide {expired : Bool} {l : Label}
      (hl : l = .decide ∧ expired = false ∨ l = .expire ∧ expired = true)
      (hr : s.relay.deciding) :
      Move s l (s.decideOn (s.decisionNow expired))
  | cancelRelay (hr : s.relay.deciding) : Move s .cancelRelay (s.decideOn .invalid)
  | answer {i : Side} {rest : List Side} {decision : RelayRouteDecision} {l : Label}
      (hr : s.relay = .answer (i :: rest)) (hd : s.decision = some decision) :
      Move s l { s.setClient i { s.client i with
          fromRelay := (s.client i).fromRelay ++ [.control (decisionMessage decision)] }
        with relay := .answer rest }
  | pipe {reason : String} {l : Label} (hr : s.relay = .answer [])
      (hd : s.decision = some (.relay reason)) : Move s l { s with relay := .streaming }
  | finish {l : Label} (hr : (∃ sides, s.relay = .answer sides) ∨ s.relay = .streaming) :
      Move s l { s with relay := .finished }
  | forward {i : Side} {w : Sent} {rest : List Sent} {l : Label} {a b : Client}
      (hr : s.relay = .streaming) (hw : (s.client i).toRelay = w :: rest)
      (ha : a = { s.client i with toRelay := rest })
      (hb : b = { s.client i.other with
        fromRelay := (s.client i.other).fromRelay ++ [.forwarded w] }) :
      Move s l { (s.setClient i a).setClient i.other b with forwarded := s.forwarded ++ [w] }

theorem Side.other_ne (i : Side) : i.other ≠ i := by
  cases i <;> decide

/-- Every step is one of the moves. -/
theorem move_of_step (h : step s l = some s') : Move s l s' := by
  cases l with
  | begin i =>
    simp only [step, Option.ite_none_right_eq_some, Option.some.injEq] at h
    obtain ⟨hpc, rfl⟩ := h
    split
    · exact .announce (.inl rfl) (hpc ▸ .relayReady)
    · exact .announce (.inl rfl) (hpc ▸ .standby)
  | poll i =>
    simp only [step, Option.ite_none_right_eq_some, Option.map_eq_some_iff] at h
    obtain ⟨hpc, c, hc, rfl⟩ := h
    exact .receive (hpc ▸ .racing) hc
  | probe i direct =>
    simp only [step, Option.ite_none_right_eq_some, Option.some.injEq] at h
    obtain ⟨hpc, rfl⟩ := h
    exact .probe hpc
  -- the last look at the relay before the announcement: nothing is announced if it has
  -- spoken
  | lastLook i sees =>
    simp only [step] at h
    split at h
    · next direct hpc =>
      cases sees with
      | true =>
        simp only [if_true, Option.map_eq_some_iff] at h
        obtain ⟨c, hc, rfl⟩ := h
        exact .receive (hpc ▸ .lastLook) hc
      | false =>
        simp only [Bool.false_eq_true, if_false, Option.some.injEq] at h
        subst h
        cases direct with
        | true => exact .announce (.inr rfl) (hpc ▸ .probedDirect)
        | false => exact .announce (.inr rfl) (hpc ▸ .probedRelay)
    · cases h
  | confirm i =>
    simp only [step] at h
    split at h
    · next hpc =>
      simp only [Option.map_eq_some_iff] at h
      obtain ⟨c, hc, rfl⟩ := h
      exact .receive (hpc ▸ .confirming) hc
    · next hpc =>
      simp only [Option.map_eq_some_iff] at h
      obtain ⟨c, hc, rfl⟩ := h
      exact .receive (hpc ▸ .ready) hc
    · cases h
  | giveUp i =>
    simp only [step, Option.ite_none_right_eq_some, Option.some.injEq] at h
    obtain ⟨-, rfl⟩ := h
    exact .giveUp
  | send i payload =>
    simp only [step, Option.ite_none_right_eq_some, Option.some.injEq] at h
    obtain ⟨hs, rfl⟩ := h
    exact .send hs
  -- the relay reads one of its two connections
  | read found =>
    simp only [step] at h
    split at h
    · next i hr =>
      have turn : System.afterRead i ≠ .streaming := by cases i <;> simp [System.afterRead]
      cases found with
      | nothing =>
        obtain rfl : _ = s' := by simpa [System.readChoice] using h
        exact .relayTurn (hr ▸ rfl) turn
      | frame =>
        simp only [System.readChoice] at h
        split at h
        · next m b rest hf =>
          obtain rfl : _ = s' := by simpa using h
          exact .merge (hr ▸ rfl) (hf ▸ List.suffix_cons _ _)
        · obtain rfl : _ = s' := by simpa using h
          exact .relayTurn (hr ▸ rfl) (by simp)
        · cases h
      | closed =>
        obtain rfl : _ = s' := by simpa [System.readChoice] using h
        exact .merge (hr ▸ rfl) List.nil_suffix
    · cases h
  | decide =>
    simp only [step, Option.ite_none_right_eq_some, Option.some.injEq] at h
    obtain ⟨hr, rfl⟩ := h
    split
    · exact .relayTurn (hr ▸ rfl) (by simp)
    · exact .decide (.inl ⟨rfl, rfl⟩) (hr ▸ rfl)
  | expire =>
    simp only [step, Option.ite_none_right_eq_some, Option.some.injEq] at h
    obtain ⟨hr, rfl⟩ := h
    exact .decide (.inr ⟨rfl, rfl⟩) (hr ▸ rfl)
  | cancelRelay =>
    simp only [step, Option.ite_none_right_eq_some, Option.some.injEq] at h
    obtain ⟨hr, rfl⟩ := h
    exact .cancelRelay (hr ▸ rfl)
  | answer =>
    simp only [step] at h
    split at h
    · next i rest d hr hd =>
      obtain rfl : _ = s' := by simpa using h
      exact .answer hr hd
    · next r hr hd =>
      obtain rfl : _ = s' := by simpa using h
      exact .pipe hr hd
    · next hr _ =>
      obtain rfl : _ = s' := by simpa using h
      exact .finish (.inl ⟨_, hr⟩)
    · cases h
  | broken =>
    simp only [step] at h
    split at h
    · next sides hr =>
      obtain rfl : _ = s' := by simpa using h
      exact .finish (.inl ⟨_, hr⟩)
    · next hr =>
      obtain rfl : _ = s' := by simpa using h
      exact .finish (.inr hr)
    · cases h
  | forward i =>
    simp only [step] at h
    split at h
    · next w rest hr hw =>
      obtain rfl : _ = s' := by simpa using h
      exact .forward hr hw rfl (by simp [Side.other_ne])
    · cases h

/-! ## The decision and the messages

The texts of the relay's messages are a function of the decision, and the clients read back
what they need from them. -/

/-- The relay has read `direct_ok` from one client and `relay_ready` from the other. -/
def System.heardBoth (s : System) : Prop :=
  (s.choice .first = .directOk ∧ s.choice .second = .relayReady) ∨
    (s.choice .first = .relayReady ∧ s.choice .second = .directOk)

/-- The reason `mismatch` is given exactly when one client said `direct_ok` and the other
    `relay_ready`. -/
theorem mismatch_iff {a b : RelayRouteChoice} {expired : Bool} {reason : String}
    (h : relayRouteDecisionFor a b expired = .relay reason) :
    reason = "mismatch" ↔ (a = .directOk ∧ b = .relayReady) ∨ (a = .relayReady ∧ b = .directOk) := by
  cases a <;> cases b <;> cases expired <;>
    simp_all [relayRouteDecisionFor, relayRouteHasPresence] <;> subst h <;> decide

/-- What a frame a client sends may hold. -/
def ClientFrame.genuine : ClientFrame → Prop
  | .control m => ∃ signal : Signal, m = signal.message
  | .data _ => True

/-- What a client may find on its connection once the relay has decided `decision`. -/
inductive Incoming (decision : Option RelayRouteDecision) : RelayFrame → Prop
  | answer {d : RelayRouteDecision} (hd : decision = some d) :
      Incoming decision (.control (decisionMessage d))
  | piped {w : Sent} (hw : w.frame.genuine) : Incoming decision (.forwarded w)

/-- The selection of a client that has announced `announced` under the decision. -/
def Selected (announced : Option Signal) (selection : RouteSelection) :
    RelayRouteDecision → Prop
  | .direct => announced = some .directOk ∧ selection = { path := .direct }
  | .relay reason =>
    selection = { path := .relay,
                  allowLanUpgrade := announced ≠ some .directOk && reason ≠ "mismatch" }
  | .pending | .invalid => False

/-- What a client at `pc` has announced and been told. -/
def PcOk (decision : Option RelayRouteDecision) (announced : Option Signal) : ClientPc → Prop
  | .begin => announced = none
  | .racing | .probed _ => announced = some .standby
  | .confirming => announced = some .directOk
  | .ready => announced = some .relayReady
  | .returned selection => ∃ d, decision = some d ∧ Selected announced selection d
  | .failed _ => True

@[simp] theorem decisionMessage_get_reason {reason : String} :
    (decisionMessage (.relay reason)).get "reason" = reason := by
  simp [decisionMessage, Message.get]

/-- A client that did not announce `direct_ok` goes by the reason of `relay_start`. -/
theorem selected_fromStart {announced : Option Signal} {reason : String}
    (h : announced ≠ some .directOk) :
    Selected announced (relaySelectionFromStart (decisionMessage (.relay reason)))
      (.relay reason) := by
  simp [Selected, relaySelectionFromStart, h]

theorem handles_answer {decision : Option RelayRouteDecision} {d : RelayRouteDecision}
    {announced : Option Signal} {pc : ClientPc} {handle : Message → ClientPc}
    (hd : decision = some d) (hp : PcOk decision announced pc) (hh : Handles pc handle) :
    PcOk decision announced (handle (decisionMessage d)) := by
  cases hh with
  | racing | lastLook =>
    have hne : announced ≠ some .directOk := by rw [hp]; decide
    cases d with
    | relay reason => exact ⟨_, hd, selected_fromStart hne⟩
    | direct | pending | invalid => trivial
  | confirming =>
    cases d with
    | relay reason => exact ⟨_, hd, by simp [Selected, show announced = _ from hp]⟩
    | direct => exact ⟨_, hd, hp, rfl⟩
    | pending | invalid => trivial
  | ready =>
    have hne : announced ≠ some .directOk := by rw [show announced = _ from hp]; decide
    cases d with
    | relay reason => exact ⟨_, hd, selected_fromStart hne⟩
    | direct | pending | invalid => trivial

/-- A route-control frame of the peer ends every wait with an error. -/
theorem handles_signal {decision : Option RelayRouteDecision} {announced : Option Signal}
    {pc : ClientPc} {handle : Message → ClientPc} (hh : Handles pc handle) (signal : Signal) :
    PcOk decision announced (handle signal.message) := by
  cases hh <;> cases signal <;> trivial

/-! ## The invariant of every run -/

/-- What holds of a client and of its connection under the relay's decision. -/
structure Client.Ok (decision : Option RelayRouteDecision) (c : Client) : Prop where
  outgoing : ∀ w ∈ c.toRelay, w.frame.genuine
  incoming : ∀ f ∈ c.fromRelay, Incoming decision f
  pcOk : PcOk decision c.announced c.pc

structure Inv (s : System) : Prop where
  undecided : s.relay.deciding = true → s.decision = none
  decided : ∀ reason, s.decision = some (.relay reason) → (reason = "mismatch" ↔ s.heardBoth)
  clients : ∀ i, (s.client i).Ok s.decision

theorem inv_start (skipDirect : Side → Bool) : Inv (start skipDirect) where
  undecided _ := rfl
  decided _ h := nomatch h
  clients i := ⟨by simp [start], by simp [start], rfl⟩

namespace Client.Ok

variable {decision : Option RelayRouteDecision}

theorem transmit {frame : ClientFrame} (h : c.Ok decision) (hf : frame.genuine) :
    (c.transmit frame).Ok decision where
  outgoing w hw := by
    rcases List.mem_append.mp hw with hw | hw
    · exact h.outgoing w hw
    · obtain rfl := List.mem_singleton.mp hw
      exact hf
  incoming := h.incoming
  pcOk := h.pcOk

theorem announce {old pc : ClientPc} {signal : Signal} (h : c.Ok decision)
    (ha : Announces old signal pc) : (c.announce signal pc).Ok decision where
  outgoing := (h.transmit (show (ClientFrame.control _).genuine from ⟨signal, rfl⟩)).outgoing
  incoming := h.incoming
  pcOk := by cases ha <;> rfl

theorem receive {handle : Message → ClientPc} {c' : Client} (h : c.Ok decision)
    (hh : Handles c.pc handle) (hc : c.receive handle = some c') : c'.Ok decision := by
  simp only [Client.receive] at hc
  split at hc
  · cases hc
  · next f rest hf =>
    have hin : ∀ g ∈ rest, Incoming decision g := fun g hg => h.incoming g (by simp [hf, hg])
    split at hc
    · next m hm =>
      obtain rfl := Option.some.inj hc
      refine ⟨h.outgoing, hin, ?_⟩
      cases h.incoming f (by simp [hf]) with
      | answer hd =>
        obtain rfl := Except.ok.inj hm
        exact handles_answer hd h.pcOk hh
      | @piped w hw =>
        match w, hw, hm with
        | ⟨.control _, _⟩, ⟨signal, rfl⟩, hm =>
          obtain rfl := Except.ok.inj hm
          exact handles_signal hh signal
    · obtain rfl := Option.some.inj hc
      exact ⟨h.outgoing, hin, trivial⟩

theorem drop {rest : List Sent} (h : c.Ok decision) (hr : rest <:+ c.toRelay) :
    Client.Ok decision { c with toRelay := rest } where
  outgoing w hw := h.outgoing w (hr.mem hw)
  incoming := h.incoming
  pcOk := h.pcOk

theorem deliver {f : RelayFrame} (h : c.Ok decision) (hf : Incoming decision f) :
    Client.Ok decision { c with fromRelay := c.fromRelay ++ [f] } where
  outgoing := h.outgoing
  incoming g hg := by
    rcases List.mem_append.mp hg with hg | hg
    · exact h.incoming g hg
    · obtain rfl := List.mem_singleton.mp hg
      exact hf
  pcOk := h.pcOk

/-- The relay's decision finds every client still waiting. -/
theorem decide (h : c.Ok none) (d : RelayRouteDecision) : c.Ok (some d) where
  outgoing := h.outgoing
  incoming f hf := by
    cases h.incoming f hf with
    | answer hd => cases hd
    | piped hw => exact .piped hw
  pcOk := by
    have hp := h.pcOk
    cases hpc : c.pc <;> rw [hpc] at hp <;> simp_all [PcOk]

end Client.Ok

namespace Inv

theorem setClient (h : Inv s) (hc : c.Ok s.decision) : Inv (s.setClient i c) where
  undecided := h.undecided
  decided := h.decided
  clients := System.forall_setClient hc h.clients

/-- The relay moves without reading or deciding. -/
theorem relay {pc : RelayPc} (h : Inv s) (hpc : pc.deciding = true → s.relay.deciding = true) :
    Inv { s with relay := pc } where
  undecided hp := h.undecided (hpc hp)
  decided := h.decided
  clients := h.clients

theorem decideOn {d : RelayRouteDecision} (h : Inv s) (hr : s.relay.deciding = true)
    (hd : ∀ reason, d = .relay reason → (reason = "mismatch" ↔ s.heardBoth)) :
    Inv (s.decideOn d) where
  undecided hp := nomatch hp
  decided reason hreason := hd reason (Option.some.inj hreason)
  clients i := (h.undecided hr ▸ h.clients i).decide d

theorem step (h : Inv s) (hs : step s l = some s') : Inv s' := by
  cases move_of_step hs with
  | announce _ ha => exact h.setClient ((h.clients _).announce ha)
  | receive hh hc => exact h.setClient ((h.clients _).receive hh hc)
  | @probe i direct _ hpc =>
    refine h.setClient ⟨(h.clients i).outgoing, (h.clients i).incoming, ?_⟩
    have hp := (h.clients i).pcOk
    rwa [hpc] at hp
  | @giveUp i => exact h.setClient ⟨(h.clients i).outgoing, (h.clients i).incoming, trivial⟩
  | send _ => exact h.setClient ((h.clients _).transmit trivial)
  | @merge i rest next _ hr hrest =>
    have hnone := h.undecided hr
    exact
      { undecided := fun _ => hnone
        decided := fun reason hd => by
          rw [show (s.mergeChoice i rest next).decision = s.decision from rfl, hnone] at hd
          cases hd
        clients := System.forall_setClient ((h.clients i).drop hrest) h.clients }
  | relayTurn hr _ => exact h.relay fun _ => hr
  | decide _ hr => exact h.decideOn hr fun reason hd => mismatch_iff hd
  | cancelRelay hr => exact h.decideOn hr fun _ hd => nomatch hd
  | @answer i rest d _ hr hd =>
    exact (h.setClient (i := i) ((h.clients i).deliver (.answer hd))).relay fun hp => nomatch hp
  | pipe _ _ => exact h.relay fun hp => nomatch hp
  | finish _ => exact h.relay fun hp => nomatch hp
  | @forward i w rest _ a b hr hw ha hb =>
    have hgen : w.frame.genuine := (h.clients i).outgoing w (by simp [hw])
    have hai : a.Ok s.decision := ha ▸ (h.clients i).drop (hw ▸ List.suffix_cons w rest)
    have hbi : b.Ok s.decision := hb ▸ (h.clients i.other).deliver (.piped hgen)
    have hI := (h.setClient (i := i) hai).setClient (i := i.other) hbi
    exact ⟨hI.undecided, hI.decided, hI.clients⟩

theorem of_reach {skipDirect : Side → Bool} (h : Lts.Reach Route.step (start skipDirect) s) :
    Inv s :=
  Lts.ReachUnder.invariant h (inv_start skipDirect) fun hI _ hs => hI.step hs

end Inv

/-! ## Agreement of the two selections -/

/-- The two selections name the same path, and on the relay path the same flag. -/
def RouteSelection.Agree (a b : RouteSelection) : Prop :=
  a.path = b.path ∧ (a.path = .relay → a.allowLanUpgrade = b.allowLanUpgrade)

/-- Whenever both clients have returned, they agree exactly when the relay knew of the
    mismatch or both or neither of them had announced `direct_ok`. -/
theorem agree_iff {skipDirect : Side → Bool} {a b : RouteSelection}
    (h : Lts.Reach step (start skipDirect) s) (ha : (s.client .first).pc = .returned a)
    (hb : (s.client .second).pc = .returned b) :
    a.Agree b ↔ s.heardBoth ∨
      ((s.client .first).announced = some .directOk ↔
        (s.client .second).announced = some .directOk) := by
  have hI := Inv.of_reach h
  have hpa := (hI.clients .first).pcOk
  have hpb := (hI.clients .second).pcOk
  rw [ha] at hpa
  rw [hb] at hpb
  obtain ⟨d, hd, hsa⟩ := hpa
  obtain ⟨d', hd', hsb⟩ := hpb
  obtain rfl : d = d' := Option.some.inj (hd.symm.trans hd')
  cases d with
  | direct =>
    obtain ⟨h₁, rfl⟩ := hsa
    obtain ⟨h₂, rfl⟩ := hsb
    simp [RouteSelection.Agree, h₁, h₂]
  | relay reason =>
    rw [← hI.decided reason hd]
    obtain rfl := hsa
    obtain rfl := hsb
    by_cases hm : reason = "mismatch" <;>
      by_cases h₁ : (s.client .first).announced = some .directOk <;>
      by_cases h₂ : (s.client .second).announced = some .directOk <;>
      simp [RouteSelection.Agree, hm, h₁, h₂]
  | pending | invalid => exact hsa.elim

/-- Both clients answer `relay_standby`, the direct attempt of the first one fails, and the
    relay decides for `standby`. -/
def standbyRun : List Label :=
  [.begin .first, .begin .second, .read .frame, .read .frame, .decide, .probe .first false,
   .lastLook .first false, .read .frame, .read .nothing, .decide, .answer, .answer,
   .confirm .first]

/-- The two selections a state holds. -/
def System.selections (s : System) : Option (RouteSelection × RouteSelection) :=
  match (s.client .first).pc, (s.client .second).pc with
  | .returned a, .returned b => some (a, b)
  | _, _ => none

theorem System.selections_eq_some {a b : RouteSelection} (h : s.selections = some (a, b)) :
    (s.client .first).pc = .returned a ∧ (s.client .second).pc = .returned b := by
  simp only [System.selections] at h
  split at h
  · next ha hb =>
    obtain ⟨rfl, rfl⟩ := by simpa using h
    exact ⟨ha, hb⟩
  · cases h

/-- The second client reads `relay_start` while its direct attempt is pending. -/
theorem agree_iff_standby :
    ∃ s a b, Lts.Reach step (start fun _ => false) s ∧ s.selections = some (a, b) ∧
      a.Agree b ∧ a.allowLanUpgrade = true := by
  obtain ⟨s, hr, hs⟩ := Lts.Reach.exists_of_run step (start fun _ => false)
    (standbyRun ++ [.poll .second])
    (fun s : System => s.selections == some (⟨.relay, true⟩, ⟨.relay, true⟩) &&
      (s.client .first).announced ≠ some .directOk && (s.client .second).announced ≠ some .directOk)
    (by decide)
  simp only [Bool.and_eq_true, beq_iff_eq, decide_eq_true_eq] at hs
  obtain ⟨⟨hsel, h₁⟩, h₂⟩ := hs
  have hpc := System.selections_eq_some hsel
  exact ⟨s, _, _, hr, hsel, (agree_iff hr hpc.1 hpc.2).mpr (.inr (by simp [h₁, h₂])), rfl⟩

/-- The second client's direct attempt succeeds after the decision: it sends `direct_ok` and
    drops the flag, while its peer goes by the reason `standby`. -/
theorem disagree_standby :
    ∃ s a b, Lts.Reach step (start fun _ => false) s ∧ s.selections = some (a, b) ∧
      ¬ a.Agree b := by
  obtain ⟨s, hr, hs⟩ := Lts.Reach.exists_of_run step (start fun _ => false)
    (standbyRun ++ [.probe .second true, .lastLook .second false, .confirm .second])
    (fun s : System => s.selections == some (⟨.relay, true⟩, ⟨.relay, false⟩))
    (by decide)
  exact ⟨s, _, _, hr, by simpa using hs, by simp [RouteSelection.Agree]⟩

/-! ## What the relay pipes

Before the decision nothing is forwarded, and from then on everything is. A route-control
frame that was sent too early to be answered and too late to be read is the one that goes
through. -/

/-- Application data, sent after the relay's `relay_start` had been received. -/
def Sent.piped (w : Sent) : Prop :=
  w.afterStart = true ∧ ∃ payload, w.frame = .data payload

/-- The decision is for the relay path. -/
def commitsRelay : RelayRouteDecision → Bool
  | .relay _ => true
  | _ => false

def System.committedRelay (s : System) : Prop :=
  ∃ d, s.decision = some d ∧ commitsRelay d = true

instance : Decidable s.committedRelay :=
  decidable_of_iff (s.decision.any commitsRelay = true) (Option.any_eq_true _ _)

/-- Nothing the clients sent is still on its way to the relay. -/
def System.idle (s : System) : Bool :=
  (s.client .first).toRelay.isEmpty && (s.client .second).toRelay.isEmpty

/-- No announcement is made once the relay path is decided, and none is in flight when it
    is. -/
def quiet (s : System) : Label → Bool
  | .begin _ | .lastLook _ false => ¬ s.committedRelay
  | .decide => commitsRelay (s.decisionNow false) → s.idle
  | .expire => commitsRelay (s.decisionNow true) → s.idle
  | _ => true

theorem System.toRelay_of_idle (h : s.idle = true) (i : Side) : (s.client i).toRelay = [] := by
  simp only [System.idle, Bool.and_eq_true, List.isEmpty_iff] at h
  cases i
  · exact h.1
  · exact h.2

structure PipeInv (s : System) : Prop where
  forwarded : ∀ w ∈ s.forwarded, w.piped
  waiting : s.committedRelay → ∀ i, ∀ w ∈ (s.client i).toRelay, w.piped
  streaming : s.relay = .streaming → s.committedRelay

namespace PipeInv

theorem setClient (h : PipeInv s) (hc : s.committedRelay → ∀ w ∈ c.toRelay, w.piped) :
    PipeInv (s.setClient i c) where
  forwarded := h.forwarded
  waiting hr := System.forall_setClient (P := fun c => ∀ w ∈ c.toRelay, w.piped) (hc hr)
    (h.waiting hr)
  streaming := h.streaming

/-- A client moves and sends nothing. -/
theorem setClient_of_eq (h : PipeInv s) (hc : c.toRelay = (s.client i).toRelay) :
    PipeInv (s.setClient i c) :=
  h.setClient fun hr => hc ▸ h.waiting hr i

theorem relay {pc : RelayPc} (h : PipeInv s) (hpc : pc = .streaming → s.committedRelay) :
    PipeInv { s with relay := pc } where
  forwarded := h.forwarded
  waiting := h.waiting
  streaming := hpc

theorem decideOn {d : RelayRouteDecision} (h : PipeInv s)
    (hd : commitsRelay d = true → s.idle = true) : PipeInv (s.decideOn d) where
  forwarded := h.forwarded
  waiting := by
    rintro ⟨d', hd', hr⟩ i w hw
    obtain rfl := Option.some.inj hd'
    have hnil : (s.client i).toRelay = [] := System.toRelay_of_idle (hd hr) i
    rw [show ((s.decideOn d).client i).toRelay = (s.client i).toRelay from rfl, hnil] at hw
    cases hw
  streaming hr := nomatch hr

theorem step (hI : Inv s) (h : PipeInv s) (hg : quiet s l = true) (hs : step s l = some s') :
    PipeInv s' := by
  cases move_of_step hs with
  -- no announcement is made once the relay path is decided, by the condition
  | announce hl _ =>
    have hno : ¬ s.committedRelay := by
      rcases hl with rfl | rfl <;> simpa only [quiet, decide_eq_true_eq] using hg
    exact h.setClient fun hr => absurd hr hno
  | receive _ hc =>
    refine h.setClient_of_eq ?_
    simp only [Client.receive] at hc
    split at hc
    · cases hc
    · split at hc <;> obtain rfl := Option.some.inj hc <;> rfl
  | probe _ => exact h.setClient_of_eq rfl
  | giveUp => exact h.setClient_of_eq rfl
  | @send i payload _ hstart =>
    refine h.setClient fun hr w hw => ?_
    rcases List.mem_append.mp hw with hw | hw
    · exact h.waiting hr i w hw
    · obtain rfl := List.mem_singleton.mp hw
      exact ⟨hstart, payload, rfl⟩
  -- what is read before the decision is merged, and nothing is forwarded
  | @merge i rest next _ hr hrest =>
    have hnone := hI.undecided hr
    refine ⟨h.forwarded, ?_, ?_⟩
    · rintro ⟨d, hd, -⟩
      rw [show (s.mergeChoice i rest next).decision = s.decision from rfl, hnone] at hd
      cases hd
    · intro hst
      cases i <;> cases hst
  | relayTurn _ hpc => exact h.relay fun hst => absurd hst hpc
  -- when the relay path is decided nothing is under way, by the condition
  | decide hl _ =>
    refine h.decideOn ?_
    rcases hl with ⟨rfl, rfl⟩ | ⟨rfl, rfl⟩ <;> simpa only [quiet, decide_eq_true_eq] using hg
  | cancelRelay _ => exact h.decideOn fun hd => nomatch hd
  | @answer i rest d _ _ _ =>
    have hi : PipeInv (s.setClient i { s.client i with
        fromRelay := (s.client i).fromRelay ++ [.control (decisionMessage d)] }) :=
      h.setClient_of_eq rfl
    exact hi.relay fun hst => nomatch hst
  | pipe _ hd => exact h.relay fun _ => ⟨_, hd, rfl⟩
  | finish _ => exact h.relay fun hst => nomatch hst
  -- what is forwarded was waiting, and all that waits may be forwarded
  | @forward i w rest _ a b hr hw ha hb =>
    have hrelay := h.streaming hr
    have hall := h.waiting hrelay i
    rw [hw] at hall
    have hai : PipeInv (s.setClient i a) :=
      h.setClient fun _ v hv => hall v (List.mem_cons_of_mem _ (by simpa [ha] using hv))
    have hbi : PipeInv ((s.setClient i a).setClient i.other b) :=
      hai.setClient_of_eq (by simp [hb, Side.other_ne])
    refine ⟨fun v hv => ?_, hbi.waiting, hbi.streaming⟩
    rcases List.mem_append.mp hv with hv | hv
    · exact h.forwarded v hv
    · obtain rfl := List.mem_singleton.mp hv
      exact hall v (by simp)

end PipeInv

/-- In every run whose steps are all `quiet`, what the relay has piped is application data
    that was sent after `relay_start` had been received. -/
theorem forwarded_piped {skipDirect : Side → Bool}
    (h : Lts.ReachUnder step (fun s l => quiet s l = true) (start skipDirect) s) :
    ∀ w ∈ s.forwarded, w.piped :=
  PipeInv.forwarded <| h.invariant_with (fun hr => Inv.of_reach hr.reach)
    ⟨by simp [start], fun ⟨_, hd, _⟩ => (nomatch hd), fun hr => (nomatch hr)⟩
    fun hI _ hP hg hs => PipeInv.step hI hP hg hs

/-- The first client sends the first byte after `relay_start`. -/
theorem forwarded_piped_standby :
    ∃ s : System, s.forwarded = [⟨.data [1], true⟩] ∧ ∀ w ∈ s.forwarded, w.piped := by
  obtain ⟨s, hr, hs⟩ := Lts.ReachUnder.exists_of_run step
    (fun s l => quiet s l = true) (start fun _ => false)
    (standbyRun ++ [.answer, .poll .second, .send .first [1], .forward .first])
    (fun s : System => s.forwarded == [⟨.data [1], true⟩]) (by decide) (by decide)
  exact ⟨s, by simpa using hs, forwarded_piped hr⟩

/-- The announcement of the second client crosses the decision and is piped to its peer. -/
theorem forwarded_announcement :
    ∃ s, Lts.Reach step (start fun _ => false) s ∧ ∃ w ∈ s.forwarded, ¬ w.piped := by
  obtain ⟨s, hr, hs⟩ := Lts.Reach.exists_of_run step (start fun _ => false)
    (standbyRun ++ [.probe .second true, .lastLook .second false, .answer, .forward .second])
    (fun s : System => s.forwarded == [⟨.control { type := "direct_ok" }, false⟩])
    (by decide)
  exact ⟨s, hr, _, by rw [show s.forwarded = _ by simpa using hs]; exact List.mem_singleton_self _,
    fun h => by cases h.1⟩

end Kiko.Route
