import Kiko.Core.Protocol
import Kiko.Lib.Transition

/-!
# The pipe between two clients (`relay/relay_server`)

Once a pair has committed to the relay, `relay_stream_sync` hands each direction to a thread of its own.
A thread reads what has come from one client and sends it to the other, in pieces of whatever size the
network gives and takes; when it can go on no longer it sets `done` and shuts both connections down, which is
what wakes the thread of the other direction.

The threads, the clients and the network move in any order. `Flow` accounts for every byte: what a client has
sent has been passed on, is in the hands of the thread, was lost when a send failed, or waits to be read, in
this order (`relay_pipe`).
-/

set_option autoImplicit false

namespace Kiko.Relay

/-! ## The machine

Each direction is a thread with a buffer. A read takes what the network gives of what has come, a send passes
on what the network takes of what is held. -/

/-- The clients of a pair. -/
inductive Side
  | first
  | second
deriving DecidableEq

def Side.other : Side → Side
  | .first => .second
  | .second => .first

@[simp] theorem Side.other_other (x : Side) : x.other.other = x := by cases x <;> rfl

@[simp] theorem Side.other_ne (x : Side) : x.other ≠ x := by cases x <;> decide

@[simp] theorem Side.ne_other (x : Side) : x ≠ x.other := by cases x <;> decide

/-- The connection of a client. -/
structure Conn where
  /-- what has come and waits to be read -/
  inbox : Bytes := []
  /-- the client has closed it -/
  closed : Bool := false
  /-- `native_shutdown_both` has been called -/
  shut : Bool := false
  /-- history: what the client has sent -/
  arrived : Bytes := []
  /-- history: what has been sent to the client -/
  sent : Bytes := []

/-- Where `pipe_bytes_native` stands. -/
inductive PipePc
  /-- at the condition of its loop -/
  | check
  /-- in `native_recv_some` -/
  | recv
  /-- in `native_send_all`, with what is still to be sent -/
  | send (rest : Bytes)
  /-- behind the loop -/
  | stop
  | shutFrom
  | shutTo
  | returned
deriving DecidableEq

/-- What the thread holds. -/
def PipePc.held : PipePc → Bytes
  | .send rest => rest
  | _ => []

/-- The thread is in its loop. -/
def PipePc.looping : PipePc → Bool
  | .check | .recv | .send _ => true
  | _ => false

/-- A direction goes by the client it reads from. -/
structure Pipe where
  conn : Side → Conn := fun _ => {}
  pc : Side → PipePc := fun _ => .check
  done : Bool := false
  /-- history: what a thread still held when a send of it failed -/
  lost : Side → Bytes := fun _ => []

inductive PipeLabel
  /-- a client sends -/
  | arrive (x : Side) (bytes : Bytes)
  | close (x : Side)
  /-- the condition of the loop -/
  | check (x : Side)
  /-- `recv` returns some bytes -/
  | take (x : Side) (n : Nat)
  /-- `recv` returns that there will be none -/
  | finish (x : Side)
  | recvFails (x : Side)
  /-- `send` takes some bytes -/
  | give (x : Side) (n : Nat)
  | sendFails (x : Side)
  /-- behind the loop the thread goes on -/
  | leave (x : Side)

/-- `buffer` of `pipe_bytes_native`. -/
def pipeBuffer : Nat := 16 * 1024

namespace Pipe

def setConn (s : Pipe) (x : Side) (c : Conn) : Pipe := { s with conn := Function.update s.conn x c }

def setPc (s : Pipe) (x : Side) (pc : PipePc) : Pipe := { s with pc := Function.update s.pc x pc }

/-- `native_shutdown_both`. -/
def shutDown (s : Pipe) (x : Side) : Pipe := s.setConn x { s.conn x with shut := true }

/-- The thread reads on or goes on sending. -/
def sending (rest : Bytes) : PipePc := if rest = [] then .check else .send rest

def step (s : Pipe) : PipeLabel → Option Pipe
  | .arrive x bytes =>
    if bytes ≠ [] ∧ (s.conn x).closed = false ∧ (s.conn x).shut = false then
      some (s.setConn x { s.conn x with inbox := (s.conn x).inbox ++ bytes, arrived := (s.conn x).arrived ++ bytes })
    else none
  | .close x => if (s.conn x).closed then none else some (s.setConn x { s.conn x with closed := true })
  | .check x => if s.pc x = .check then some (s.setPc x (if s.done then .stop else .recv)) else none
  | .take x n =>
    if s.pc x = .recv ∧ 0 < n ∧ n ≤ pipeBuffer ∧ n ≤ (s.conn x).inbox.length then
      some ((s.setPc x (.send ((s.conn x).inbox.take n))).setConn x
        { s.conn x with inbox := (s.conn x).inbox.drop n })
    else none
  | .finish x =>
    -- a shut down connection gives nothing more, also where something waits
    if s.pc x = .recv ∧ (((s.conn x).inbox = [] ∧ (s.conn x).closed = true) ∨ (s.conn x).shut = true) then
      some (s.setPc x .stop)
    else none
  | .recvFails x => if s.pc x = .recv then some (s.setPc x .stop) else none
  | .give x n =>
    match s.pc x with
    | .send rest =>
      if 0 < n ∧ n ≤ rest.length ∧ (s.conn x.other).shut = false then
        some ((s.setPc x (sending (rest.drop n))).setConn x.other
          { s.conn x.other with sent := (s.conn x.other).sent ++ rest.take n })
      else none
    | _ => none
  | .sendFails x =>
    match s.pc x with
    | .send rest => some { s.setPc x .stop with lost := Function.update s.lost x rest }
    | _ => none
  | .leave x =>
    match s.pc x with
    | .stop => some { s.setPc x .shutFrom with done := true }
    | .shutFrom => some ((s.shutDown x).setPc x .shutTo)
    | .shutTo => some ((s.shutDown x.other).setPc x .returned)
    | _ => none

end Pipe

/-! ## Every byte

One equation for each direction, between what was sent and the four places a byte can be in. It is the order
in that equation that says nothing is overtaken. -/

/-- What a client has sent, in order: what has been passed on, what its thread holds, what was lost, and what waits. -/
structure Flow (s : Pipe) (x : Side) : Prop where
  bytes : (s.conn x).arrived = (s.conn x.other).sent ++ ((s.pc x).held ++ (s.lost x ++ (s.conn x).inbox))
  lost : (s.pc x).looping = true → s.lost x = []

section Step

variable {s s' : Pipe} {l : PipeLabel} {x y : Side}

theorem Side.eq_or (x y : Side) : y = x ∨ y = x.other := by
  cases x <;> cases y <;> decide

@[simp] theorem conn_setConn (c : Conn) : (s.setConn x c).conn x = c := Function.update_self ..

@[simp] theorem conn_setConn_of_ne (c : Conn) (h : y ≠ x) : (s.setConn x c).conn y = s.conn y :=
  Function.update_of_ne h ..

@[simp] theorem pc_setConn (c : Conn) : (s.setConn x c).pc = s.pc := rfl

@[simp] theorem lost_setConn (c : Conn) : (s.setConn x c).lost = s.lost := rfl

@[simp] theorem done_setConn (c : Conn) : (s.setConn x c).done = s.done := rfl

@[simp] theorem conn_setPc (pc : PipePc) : (s.setPc x pc).conn = s.conn := rfl

@[simp] theorem pc_setPc (pc : PipePc) : (s.setPc x pc).pc x = pc := Function.update_self ..

@[simp] theorem pc_setPc_of_ne (pc : PipePc) (h : y ≠ x) : (s.setPc x pc).pc y = s.pc y :=
  Function.update_of_ne h ..

@[simp] theorem lost_setPc (pc : PipePc) : (s.setPc x pc).lost = s.lost := rfl

@[simp] theorem done_setPc (pc : PipePc) : (s.setPc x pc).done = s.done := rfl

@[simp] theorem held_sending (rest : Bytes) : (Pipe.sending rest).held = rest := by
  unfold Pipe.sending
  split_ifs with h
  · exact h.symm
  · rfl

@[simp] theorem looping_sending (rest : Bytes) : (Pipe.sending rest).looping = true := by
  unfold Pipe.sending
  split_ifs
  · rfl
  · rfl

end Step

section Flow

variable {s s' : Pipe} {l : PipeLabel} {x y : Side}

/-- What is known of a direction carries over where nothing of it has changed but what is known of the connections. -/
theorem Flow.congr (h : Flow s y) (harrived : (s'.conn y).arrived = (s.conn y).arrived)
    (hinbox : (s'.conn y).inbox = (s.conn y).inbox) (hsent : (s'.conn y.other).sent = (s.conn y.other).sent)
    (hpc : s'.pc y = s.pc y) (hlost : s'.lost y = s.lost y) : Flow s' y := by
  obtain ⟨hbytes, hloop⟩ := h
  refine ⟨?_, ?_⟩
  · rw [harrived, hinbox, hsent, hpc, hlost]
    exact hbytes
  · rw [hpc, hlost]
    exact hloop

/-- A thread that leaves its loop, and holds nothing, changes nothing. -/
theorem Flow.stop (h : Flow s x) (pc : PipePc) (hheld : (s.pc x).held = []) (hpc : pc.held = [])
    (hloop : pc.looping = true → (s.pc x).looping = true) : Flow (s.setPc x pc) x := by
  obtain ⟨hbytes, hlost⟩ := h
  refine ⟨?_, ?_⟩
  · rw [hheld] at hbytes
    simpa [hpc] using hbytes
  · intro hlooping
    rw [pc_setPc] at hlooping
    exact hlost (hloop hlooping)

theorem flow_arrive {bytes : Bytes} (h : ∀ y, Flow s y) (hs : s.step (.arrive x bytes) = some s') : Flow s' y := by
  simp only [Pipe.step] at hs
  split_ifs at hs
  obtain rfl := Option.some.inj hs
  rcases Side.eq_or x y with rfl | rfl
  · obtain ⟨hbytes, hlost⟩ := h y
    refine ⟨?_, hlost⟩
    simp [hbytes]
  · apply (h x.other).congr <;> simp

theorem flow_take {n : Nat} (h : ∀ y, Flow s y) (hs : s.step (.take x n) = some s') : Flow s' y := by
  simp only [Pipe.step] at hs
  split_ifs at hs with htake
  obtain rfl := Option.some.inj hs
  obtain ⟨hpc, -⟩ := htake
  rcases Side.eq_or x y with rfl | rfl
  · obtain ⟨hbytes, hlost⟩ := h y
    have hnone := hlost (by rw [hpc]; rfl)
    refine ⟨?_, fun _ => hnone⟩
    rw [hpc, hnone] at hbytes
    simp [PipePc.held] at hbytes
    simp [PipePc.held, hbytes, hnone]
  · apply (h x.other).congr <;> simp

theorem flow_give {n : Nat} (h : ∀ y, Flow s y) (hs : s.step (.give x n) = some s') : Flow s' y := by
  simp only [Pipe.step] at hs
  cases hpc : s.pc x with
  | send rest =>
    rw [hpc] at hs
    dsimp only at hs
    split_ifs at hs
    obtain rfl := Option.some.inj hs
    rcases Side.eq_or x y with rfl | rfl
    · obtain ⟨hbytes, hlost⟩ := h y
      have hnone := hlost (by rw [hpc]; rfl)
      refine ⟨?_, fun _ => hnone⟩
      rw [hpc, hnone] at hbytes
      simp [PipePc.held] at hbytes
      simp [hbytes, hnone]
      rw [← List.append_assoc (List.take n rest), List.take_append_drop]
    · apply (h x.other).congr <;> simp
  | _ => rw [hpc] at hs; cases hs

theorem flow_sendFails (h : ∀ y, Flow s y) (hs : s.step (.sendFails x) = some s') : Flow s' y := by
  simp only [Pipe.step] at hs
  cases hpc : s.pc x with
  | send rest =>
    rw [hpc] at hs
    obtain rfl := Option.some.inj hs
    rcases Side.eq_or x y with rfl | rfl
    · obtain ⟨hbytes, hlost⟩ := h y
      have hnone := hlost (by rw [hpc]; rfl)
      refine ⟨?_, fun hlooping => ?_⟩
      · rw [hpc, hnone] at hbytes
        simpa [PipePc.held] using hbytes
      · simp [PipePc.looping] at hlooping
    · apply (h x.other).congr <;> simp
  | _ => rw [hpc] at hs; cases hs

theorem flow_leave (h : ∀ y, Flow s y) (hs : s.step (.leave x) = some s') : Flow s' y := by
  simp only [Pipe.step] at hs
  cases hpc : s.pc x with
  | stop =>
    rw [hpc] at hs
    obtain rfl := Option.some.inj hs
    rcases Side.eq_or x y with rfl | rfl
    · exact ((h y).stop .shutFrom (by rw [hpc]; rfl) rfl (fun hl => nomatch hl)).congr rfl rfl rfl rfl rfl
    · apply (h x.other).congr <;> simp
  | shutFrom =>
    rw [hpc] at hs
    obtain rfl := Option.some.inj hs
    rcases Side.eq_or x y with rfl | rfl
    · refine ((h y).stop .shutTo (by rw [hpc]; rfl) rfl (fun hl => nomatch hl)).congr ?_ ?_ ?_ ?_ ?_ <;>
        simp [Pipe.shutDown]
    · apply (h x.other).congr <;> simp [Pipe.shutDown]
  | shutTo =>
    rw [hpc] at hs
    obtain rfl := Option.some.inj hs
    rcases Side.eq_or x y with rfl | rfl
    · refine ((h y).stop .returned (by rw [hpc]; rfl) rfl (fun hl => nomatch hl)).congr ?_ ?_ ?_ ?_ ?_ <;>
        simp [Pipe.shutDown]
    · apply (h x.other).congr <;> simp [Pipe.shutDown]
  | _ => rw [hpc] at hs; cases hs

/-- **No step changes the order of the bytes or drops one that a thread could still pass on.** -/
theorem flow_step (h : ∀ y, Flow s y) (hs : s.step l = some s') (y : Side) : Flow s' y := by
  cases l with
  | arrive x bytes => exact flow_arrive h hs
  | take x n => exact flow_take h hs
  | give x n => exact flow_give h hs
  | sendFails x => exact flow_sendFails h hs
  | leave x => exact flow_leave h hs
  | close x =>
    simp only [Pipe.step] at hs
    split_ifs at hs
    obtain rfl := Option.some.inj hs
    rcases Side.eq_or x y with rfl | rfl
    · apply (h y).congr <;> simp
    · apply (h x.other).congr <;> simp
  | check x =>
    simp only [Pipe.step] at hs
    split_ifs at hs with hpc
    · obtain rfl := Option.some.inj hs
      rcases Side.eq_or x y with rfl | rfl
      · exact (h y).stop _ (by rw [hpc]; rfl) rfl fun hl => nomatch hl
      · apply (h x.other).congr <;> simp
    · obtain rfl := Option.some.inj hs
      rcases Side.eq_or x y with rfl | rfl
      · exact (h y).stop _ (by rw [hpc]; rfl) rfl fun _ => by rw [hpc]; rfl
      · apply (h x.other).congr <;> simp
  | finish x =>
    simp only [Pipe.step] at hs
    split_ifs at hs with hfinish
    obtain rfl := Option.some.inj hs
    rcases Side.eq_or x y with rfl | rfl
    · exact (h y).stop _ (by rw [hfinish.1]; rfl) rfl fun hl => nomatch hl
    · apply (h x.other).congr <;> simp
  | recvFails x =>
    simp only [Pipe.step] at hs
    split_ifs at hs with hpc
    obtain rfl := Option.some.inj hs
    rcases Side.eq_or x y with rfl | rfl
    · exact (h y).stop _ (by rw [hpc]; rfl) rfl fun hl => nomatch hl
    · apply (h x.other).congr <;> simp

theorem reach_flow (h : Lts.Reach Pipe.step {} s) : ∀ y, Flow s y :=
  h.invariant (I := fun s => ∀ y, Flow s y) (fun _ => ⟨rfl, fun _ => rfl⟩) fun hflow _ hs => flow_step hflow hs

end Flow

/-! ## One thread ends the other

A thread that is done has shut both connections down. The other one sits in a read or a send, and either of
them returns on a connection that is shut. -/

section Ending

variable {s s' : Pipe} {l : PipeLabel} {x y : Side}

/-- What a thread behind its loop has seen to. -/
structure Stopped (s : Pipe) (x : Side) : Prop where
  done : s.pc x = .shutFrom ∨ s.pc x = .shutTo ∨ s.pc x = .returned → s.done = true
  shutFrom : s.pc x = .shutTo ∨ s.pc x = .returned → (s.conn x).shut = true
  shutTo : s.pc x = .returned → (s.conn x.other).shut = true

/-- `done` and the shutdowns are not taken back. -/
theorem step_keeps (hs : s.step l = some s') :
    (s.done = true → s'.done = true) ∧ ((s.conn x).shut = true → (s'.conn x).shut = true) := by
  -- changing one connection shuts none and opens none
  have hset {t : Pipe} {y : Side} {c : Conn} (hc : (t.conn y).shut = true → c.shut = true) :
      (t.conn x).shut = true → ((t.setConn y c).conn x).shut = true := by
    intro hshut
    by_cases hxy : x = y
    · subst hxy
      rw [conn_setConn]
      exact hc hshut
    · rw [conn_setConn_of_ne _ hxy]
      exact hshut
  cases l with
  | arrive y bytes =>
    simp only [Pipe.step] at hs
    split_ifs at hs
    obtain rfl := Option.some.inj hs
    exact ⟨id, hset id⟩
  | close y =>
    simp only [Pipe.step] at hs
    split_ifs at hs
    obtain rfl := Option.some.inj hs
    exact ⟨id, hset id⟩
  | check y | finish y | recvFails y =>
    simp only [Pipe.step] at hs
    split_ifs at hs <;>
      · obtain rfl := Option.some.inj hs
        exact ⟨id, id⟩
  | take y n =>
    simp only [Pipe.step] at hs
    split_ifs at hs
    obtain rfl := Option.some.inj hs
    exact ⟨id, hset (t := s.setPc y _) id⟩
  | give y n =>
    simp only [Pipe.step] at hs
    split at hs
    · split_ifs at hs
      obtain rfl := Option.some.inj hs
      exact ⟨id, hset (t := s.setPc y _) id⟩
    · cases hs
  | sendFails y =>
    simp only [Pipe.step] at hs
    split at hs
    · obtain rfl := Option.some.inj hs
      exact ⟨id, id⟩
    · cases hs
  | leave y =>
    simp only [Pipe.step] at hs
    split at hs
    · obtain rfl := Option.some.inj hs
      exact ⟨fun _ => rfl, id⟩
    · obtain rfl := Option.some.inj hs
      exact ⟨id, hset fun _ => rfl⟩
    · obtain rfl := Option.some.inj hs
      exact ⟨id, hset fun _ => rfl⟩
    · cases hs

/-- How a thread moves, as far as its end is concerned. -/
inductive Moves (s s' : Pipe) (x : Side) : Prop
  | stays (hpc : s'.pc x = s.pc x)
  | loops (hloop : (s'.pc x).looping = true)
  | stops (hpc : s'.pc x = .stop)
  | sets (hbefore : s.pc x = .stop) (hpc : s'.pc x = .shutFrom) (hdone : s'.done = true)
  | shutsFrom (hbefore : s.pc x = .shutFrom) (hpc : s'.pc x = .shutTo) (hshut : (s'.conn x).shut = true)
  | shutsTo (hbefore : s.pc x = .shutTo) (hpc : s'.pc x = .returned) (hshut : (s'.conn x.other).shut = true)

theorem step_moves (hs : s.step l = some s') (y : Side) : Moves s s' y := by
  -- a thread that does not move stays where it is
  have hother {t : Pipe} {x : Side} {pc : PipePc} (hxy : y ≠ x) (ht : t.pc = (s.setPc x pc).pc) : Moves s t y :=
    .stays (by rw [ht, pc_setPc_of_ne _ hxy])
  cases l with
  | arrive x bytes | close x =>
    simp only [Pipe.step] at hs
    split_ifs at hs
    obtain rfl := Option.some.inj hs
    exact .stays rfl
  | check x =>
    simp only [Pipe.step] at hs
    split_ifs at hs
    · obtain rfl := Option.some.inj hs
      by_cases hxy : y = x
      · subst hxy
        exact .stops (pc_setPc _)
      · exact hother hxy rfl
    · obtain rfl := Option.some.inj hs
      by_cases hxy : y = x
      · subst hxy
        exact .loops (by rw [pc_setPc]; rfl)
      · exact hother hxy rfl
  | finish x | recvFails x =>
    simp only [Pipe.step] at hs
    split_ifs at hs
    obtain rfl := Option.some.inj hs
    by_cases hxy : y = x
    · subst hxy
      exact .stops (pc_setPc _)
    · exact hother hxy rfl
  | take x n =>
    simp only [Pipe.step] at hs
    split_ifs at hs
    obtain rfl := Option.some.inj hs
    by_cases hxy : y = x
    · subst hxy
      exact .loops (by rw [pc_setConn, pc_setPc]; rfl)
    · exact hother hxy rfl
  | give x n =>
    simp only [Pipe.step] at hs
    split at hs
    · split_ifs at hs
      obtain rfl := Option.some.inj hs
      by_cases hxy : y = x
      · subst hxy
        exact .loops (by rw [pc_setConn, pc_setPc, looping_sending])
      · exact hother hxy rfl
    · cases hs
  | sendFails x =>
    simp only [Pipe.step] at hs
    split at hs
    · obtain rfl := Option.some.inj hs
      by_cases hxy : y = x
      · subst hxy
        exact .stops (pc_setPc _)
      · exact hother hxy rfl
    · cases hs
  | leave x =>
    simp only [Pipe.step] at hs
    split at hs
    · obtain rfl := Option.some.inj hs
      by_cases hxy : y = x
      · subst hxy
        exact .sets (by assumption) (pc_setPc _) rfl
      · exact hother hxy rfl
    · obtain rfl := Option.some.inj hs
      by_cases hxy : y = x
      · subst hxy
        exact .shutsFrom (by assumption) (pc_setPc _) (by simp [Pipe.shutDown])
      · exact .stays (by simp [Pipe.shutDown, hxy])
    · obtain rfl := Option.some.inj hs
      by_cases hxy : y = x
      · subst hxy
        exact .shutsTo (by assumption) (pc_setPc _) (by simp [Pipe.shutDown])
      · exact .stays (by simp [Pipe.shutDown, hxy])
    · cases hs

theorem stopped_step (h : Stopped s y) (hs : s.step l = some s') : Stopped s' y := by
  obtain ⟨hdone, hfrom, hto⟩ := h
  have hkeepsDone := (step_keeps (x := y) hs).1
  have hkeepsFrom := (step_keeps (x := y) hs).2
  have hkeepsTo := (step_keeps (x := y.other) hs).2
  cases step_moves hs y with
  | stays hpc =>
    refine ⟨fun hat => hkeepsDone (hdone ?_), fun hat => hkeepsFrom (hfrom ?_), fun hat => hkeepsTo (hto ?_)⟩
    · rwa [hpc] at hat
    · rwa [hpc] at hat
    · rwa [hpc] at hat
  | loops hloop =>
    have hnot (pc : PipePc) (hpc : pc.looping = false) (hat : s'.pc y = pc) : False := by
      rw [hat, hpc] at hloop
      cases hloop
    refine ⟨fun hat => ?_, fun hat => ?_, fun hat => (hnot _ rfl hat).elim⟩
    · rcases hat with hat | hat | hat
      · exact (hnot _ rfl hat).elim
      · exact (hnot _ rfl hat).elim
      · exact (hnot _ rfl hat).elim
    · rcases hat with hat | hat
      · exact (hnot _ rfl hat).elim
      · exact (hnot _ rfl hat).elim
  | stops hpc =>
    refine ⟨fun hat => ?_, fun hat => ?_, fun hat => ?_⟩
    · rw [hpc] at hat
      rcases hat with hat | hat | hat <;> cases hat
    · rw [hpc] at hat
      rcases hat with hat | hat <;> cases hat
    · rw [hpc] at hat
      cases hat
  | sets hbefore hpc hset =>
    refine ⟨fun _ => hset, fun hat => ?_, fun hat => ?_⟩
    · rw [hpc] at hat
      rcases hat with hat | hat <;> cases hat
    · rw [hpc] at hat
      cases hat
  | shutsFrom hbefore hpc hshut =>
    refine ⟨fun _ => hkeepsDone (hdone (.inl hbefore)), fun _ => hshut, fun hat => ?_⟩
    rw [hpc] at hat
    cases hat
  | shutsTo hbefore hpc hshut =>
    exact ⟨fun _ => hkeepsDone (hdone (.inr (.inl hbefore))), fun _ => hkeepsFrom (hfrom (.inl hbefore)), fun _ => hshut⟩

theorem reach_stopped (h : Lts.Reach Pipe.step {} s) (y : Side) : Stopped s y := by
  refine h.invariant (I := fun s => Stopped s y) ⟨?_, ?_, ?_⟩ fun hstopped _ hs => stopped_step hstopped hs
  · intro hat
    rcases hat with hat | hat | hat <;> cases hat
  · intro hat
    rcases hat with hat | hat <;> cases hat
  · intro hat
    cases hat

/-- Nothing more comes, and nothing more is sent. -/
def Closing (s : Pipe) : Prop := s.done = true ∧ ∀ x, (s.conn x).shut = true

/-- **A thread that has returned leaves the other nothing to do but stop.** -/
theorem closing_of_returned (h : Lts.Reach Pipe.step {} s) (hpc : s.pc x = .returned) : Closing s := by
  obtain ⟨hdone, hfrom, hto⟩ := reach_stopped h x
  refine ⟨hdone (.inr (.inr hpc)), fun y => ?_⟩
  rcases Side.eq_or x y with rfl | rfl
  · exact hfrom (.inr hpc)
  · exact hto hpc

/-- What a thread has still to do when everything is shut down. -/
def PipePc.ahead : PipePc → Nat
  | .check => 6
  | .recv => 5
  | .send _ => 7
  | .stop => 3
  | .shutFrom => 2
  | .shutTo => 1
  | .returned => 0

def Pipe.ahead (s : Pipe) (x : Side) : Nat :=
  (s.pc x).ahead + 8 * (s.conn x).inbox.length + if (s.conn x).closed then 0 else 1

def Pipe.measure (s : Pipe) : Nat := s.ahead .first + s.ahead .second

theorem measure_eq (s : Pipe) (x : Side) : s.measure = s.ahead x + s.ahead x.other := by
  cases x with
  | first => rfl
  | second => exact Nat.add_comm ..

theorem measure_lt (hx : s'.ahead x < s.ahead x) (hother : s'.ahead x.other = s.ahead x.other) :
    s'.measure < s.measure := by
  rw [measure_eq s' x, measure_eq s x, hother]
  exact Nat.add_lt_add_right hx _

/-- A thread goes on, and nothing else happens that counts. -/
theorem measure_lt_of_pc (hpc : (s'.pc x).ahead < (s.pc x).ahead) (hother : s'.pc x.other = s.pc x.other)
    (hconn : ∀ y, (s'.conn y).inbox = (s.conn y).inbox ∧ (s'.conn y).closed = (s.conn y).closed) :
    s'.measure < s.measure := by
  apply measure_lt (x := x)
  · rw [Pipe.ahead, Pipe.ahead, (hconn x).1, (hconn x).2]
    exact Nat.add_lt_add_right (Nat.add_lt_add_right hpc _) _
  · rw [Pipe.ahead, Pipe.ahead, hother, (hconn x.other).1, (hconn x.other).2]

theorem inbox_shutDown (s : Pipe) (x y : Side) :
    ((s.shutDown x).conn y).inbox = (s.conn y).inbox ∧ ((s.shutDown x).conn y).closed = (s.conn y).closed := by
  by_cases hxy : y = x
  · subst hxy
    simp [Pipe.shutDown]
  · simp [Pipe.shutDown, hxy]

theorem closing_step (h : Closing s) (hs : s.step l = some s') : Closing s' ∧ s'.measure < s.measure := by
  obtain ⟨hdone, hshut⟩ := h
  refine ⟨⟨(step_keeps (x := .first) hs).1 hdone, fun y => (step_keeps hs).2 (hshut y)⟩, ?_⟩
  -- a thread that leaves its loop has less to do whatever made it leave
  have hstops {x : Side} {t : Pipe} (ht : t.pc = (s.setPc x .stop).pc) (hconn : t.conn = s.conn)
      (hpc : 3 < (s.pc x).ahead) : t.measure < s.measure := by
    apply measure_lt_of_pc (x := x)
    · rw [ht, pc_setPc]
      exact hpc
    · rw [ht, pc_setPc_of_ne _ (Side.other_ne x)]
    · intro y
      rw [hconn]
      exact ⟨rfl, rfl⟩
  cases l with
  | arrive x bytes =>
    simp only [Pipe.step, hshut x] at hs
    simp at hs
  | close x =>
    simp only [Pipe.step] at hs
    split_ifs at hs with hclosed
    obtain rfl := Option.some.inj hs
    apply measure_lt (x := x)
    · simp [Pipe.ahead, hclosed]
    · simp [Pipe.ahead]
  | check x =>
    simp only [Pipe.step, hdone, if_true] at hs
    split_ifs at hs with hpc
    obtain rfl := Option.some.inj hs
    exact hstops rfl rfl (by rw [hpc]; exact show 3 < 6 by omega)
  | finish x =>
    simp only [Pipe.step] at hs
    split_ifs at hs with hpc
    obtain rfl := Option.some.inj hs
    exact hstops rfl rfl (by rw [hpc.1]; exact show 3 < 5 by omega)
  | recvFails x =>
    simp only [Pipe.step] at hs
    split_ifs at hs with hpc
    obtain rfl := Option.some.inj hs
    exact hstops rfl rfl (by rw [hpc]; exact show 3 < 5 by omega)
  | take x n =>
    simp only [Pipe.step] at hs
    split_ifs at hs with htake
    obtain rfl := Option.some.inj hs
    obtain ⟨hpc, hpos, -, hle⟩ := htake
    apply measure_lt (x := x)
    · simp only [Pipe.ahead, pc_setConn, pc_setPc, conn_setConn, List.length_drop, hpc, PipePc.ahead]
      omega
    · simp [Pipe.ahead]
  -- nothing can be given any more: the connection is shut
  | give x n =>
    simp only [Pipe.step] at hs
    split at hs
    · rw [hshut x.other] at hs
      simp at hs
    · cases hs
  | sendFails x =>
    simp only [Pipe.step] at hs
    split at hs
    next rest hpc =>
      obtain rfl := Option.some.inj hs
      exact hstops rfl rfl (by rw [hpc]; exact show 3 < 7 by omega)
    · cases hs
  | leave x =>
    simp only [Pipe.step] at hs
    split at hs
    next hpc =>
      obtain rfl := Option.some.inj hs
      apply measure_lt_of_pc (x := x)
      · rw [hpc]
        show ((s.setPc x .shutFrom).pc x).ahead < 3
        rw [pc_setPc]
        exact show 2 < 3 by omega
      · exact pc_setPc_of_ne _ (Side.other_ne x)
      · exact fun y => ⟨rfl, rfl⟩
    next hpc =>
      obtain rfl := Option.some.inj hs
      apply measure_lt_of_pc (x := x)
      · rw [hpc, pc_setPc]
        exact show 1 < 2 by omega
      · exact pc_setPc_of_ne _ (Side.other_ne x)
      · exact inbox_shutDown s x
    next hpc =>
      obtain rfl := Option.some.inj hs
      apply measure_lt_of_pc (x := x)
      · rw [hpc, pc_setPc]
        exact show 0 < 1 by omega
      · exact pc_setPc_of_ne _ (Side.other_ne x)
      · exact inbox_shutDown s x.other
    · cases hs

/-- Where everything is shut down, a thread that has not returned can go on. -/
theorem closing_progress (h : Closing s) (hpc : s.pc x ≠ .returned) : ∃ l, s.step l ≠ none := by
  cases hat : s.pc x with
  | check => exact ⟨.check x, by simp [Pipe.step, hat]⟩
  | recv => exact ⟨.finish x, by simp [Pipe.step, hat, h.2 x]⟩
  | send rest => exact ⟨.sendFails x, by simp [Pipe.step, hat]⟩
  | stop | shutFrom | shutTo => exact ⟨.leave x, by simp [Pipe.step, hat]⟩
  | returned => exact absurd hat hpc

end Ending

/-! ## The pipe -/

/-- **The relay is a pipe in each direction.** However the threads, the clients and the network take turns: what a client
    has sent is what has been sent to the other, what the thread between them holds, what was lost with a send that
    failed, and what waits, in this order. Nothing is repeated, nothing crosses over, and nothing is lost while the
    thread is in its loop. When one of the threads has returned, everything that can happen ends, and when it has ended
    both threads have returned. -/
theorem relay_pipe {s : Pipe} (h : Lts.Reach Pipe.step {} s) (x : Side) :
    (s.conn x).arrived = (s.conn x.other).sent ++ ((s.pc x).held ++ (s.lost x ++ (s.conn x).inbox)) ∧
    ((s.pc x).looping = true → s.lost x = []) ∧
    (s.pc x = .returned → Lts.Ends Pipe.step s ∧
      ∀ s', Lts.Reach Pipe.step s s' → (∀ l, s'.step l = none) → ∀ y, s'.pc y = .returned) := by
  obtain ⟨hbytes, hlost⟩ := reach_flow h x
  refine ⟨hbytes, hlost, fun hpc => ?_⟩
  have hclosing := closing_of_returned h hpc
  refine ⟨Lts.ends_of_measure Pipe.measure closing_step hclosing, fun s' hreach hstopped y => ?_⟩
  have hclosing' : Closing s' := hreach.invariant hclosing fun hc _ hs => (closing_step hc hs).1
  by_contra hne
  obtain ⟨l, hl⟩ := closing_progress hclosing' hne
  exact hl (hstopped l)

/-- The second client closes before all has been passed on. -/
theorem relay_pipe_sample : ∃ s, Lts.Reach Pipe.step {} s ∧ s.pc .first = .returned ∧
    (s.conn .second).sent = [104] ∧ s.lost .first = [105] ∧ (s.conn .first).inbox = [33] ∧ Lts.Ends Pipe.step s := by
  obtain ⟨s, hreach, hs⟩ := Lts.Reach.exists_of_run Pipe.step {}
    [.arrive .first [104, 105, 33], .check .first, .take .first 2, .give .first 1, .close .second, .sendFails .first,
      .leave .first, .leave .first, .leave .first]
    (fun s => s.pc .first = .returned ∧ (s.conn .second).sent = [104] ∧ s.lost .first = [105] ∧
      (s.conn .first).inbox = [33]) (by decide)
  obtain ⟨hpc, hsent, hlost, hinbox⟩ := of_decide_eq_true hs
  exact ⟨s, hreach, hpc, hsent, hlost, hinbox, ((relay_pipe hreach .first).2.2 hpc).1⟩

end Kiko.Relay
