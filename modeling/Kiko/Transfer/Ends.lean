import Kiko.Transfer.StreamTransfer
import Kiko.Transfer.MuxTransfer

/-!
# Every transfer ends

A run of either system is finite. Its measure has two parts: how many waits the sender has
still before it, and a weight of all that is between two waits, which every other step
lowers. What moves on weighs less where it arrives: a frame to be sent more than one on its
way, that more than the reply it may cause; a chunk to be read more than one that is queued,
sent, received and written.

A step lowers the measure whoever takes it, so nothing is assumed of the order of the
threads, and no fairness is needed: a run that goes on for ever does not exist. What could
make a run longer is a frame that causes other frames; a frame is answered by one reply at
most (`onFrame_short`), and a reply weighs less than the frame it answers.
-/

set_option autoImplicit false

namespace Kiko.Transfer

open Lexical FileTree Dialogue

/-- How many waits are to come. -/
def Wait.rank {prims : Primitives} : Wait prims → Nat
  | .resume _ rest => rest.length + 2
  | .ack => 1
  | .returned | .thrown _ => 0

theorem rank_answer {prims : Primitives} {α : Type} {ops : SendOps prims α} {s s' : SendLoop prims α}
    {f : Frame} (h : ops.answer s f = some s') : s'.wait.rank < s.wait.rank := by
  unfold SendOps.answer at h
  split at h
  next source rest _ hwait =>
    rw [hwait]
    split at h
    next e _ =>
      obtain rfl := Option.some.inj h
      exact Nat.succ_pos _
    next session _ =>
      obtain rfl := Option.some.inj h
      cases rest with
      | nil => exact Nat.lt_succ_self 1
      | cons source rest => simp [SendOps.announce, Wait.rank]
  next _ hwait =>
    rw [hwait]
    split at h <;>
    · obtain rfl := Option.some.inj h
      exact Nat.one_pos
  next => cases h

/-! ## What a frame causes

`Answers P` is a small logic over `StateT`-like steps: it says of all that a step can answer
that it is in `P`, and composes as the code does. -/

section Reply

variable {α β : Type} {P : β → Prop} {Q : α → Prop} {x : LoopM α} {f : α → LoopM β}

/-- What a step of a loop answers, if it does, is in `P`. -/
def Answers (P : β → Prop) (x : LoopM β) : Prop := ∀ l p l', x l = .ok p l' → P p

theorem answers_any (x : LoopM α) : Answers (fun _ => True) x := fun _ _ _ _ => trivial

theorem answers_bind (hx : Answers Q x) (h : ∀ a, Q a → Answers P (f a)) : Answers P (x >>= f) := by
  intro l p l' hxf
  obtain ⟨a, l₁, ha, hf⟩ := bind_ok.mp hxf
  exact h a (hx l a l₁ ha) l₁ p l' hf

/-- Whatever a step answers, the next answers in `P`. -/
theorem answers_then (h : ∀ a, Answers P (f a)) : Answers P (x >>= f) :=
  answers_bind (answers_any x) fun a _ => h a

theorem answers_pure {p : β} (h : P p) : Answers P (pure p) := by
  intro l p' l' hx
  rw [(pure_ok.mp hx).1]
  exact h

theorem answers_throw (e : KikoError) : Answers P (throw e) :=
  fun _ _ _ hx => absurd hx throw_ne_ok

end Reply

/-! ## One stream

Two queues, what is to be said, and what is to be replied. With the weights chosen the step
lemma is arithmetic. -/

namespace StreamTransfer

variable {env : ReceiveEnv} {codec : StreamCodec} {capDown capUp : Option Nat}

/-- A frame causes one reply at most. -/
theorem onFrame_short (frame : Frame) (pc : StreamPc codec) :
    Answers (fun p => p.2.length ≤ 1) (onFrame env frame pc) := by
  unfold onFrame
  split
  · refine answers_then fun settled => ?_
    cases settled with
    | inl session => exact answers_then fun _ => answers_pure (Nat.zero_le _)
    | inr pending => exact answers_pure (Nat.le_refl _)
  · exact answers_then fun _ => answers_pure (Nat.zero_le _)
  · split
    · exact answers_throw _
    · exact answers_then fun _ => answers_pure (Nat.le_refl _)
  · exact answers_then fun _ => answers_pure (Nat.zero_le _)
  · exact answers_pure (Nat.zero_le _)
  · exact answers_throw _
  · exact answers_throw _
  · exact answers_then fun _ => answers_pure (Nat.zero_le _)
  · split
    · exact answers_throw _
    · exact answers_then fun _ => answers_pure (Nat.le_refl _)
  · exact answers_throw _

theorem feed_short (env : ReceiveEnv) (r : StreamRecv codec) (frame : Frame) : (r.feed env frame).2.length ≤ 1 := by
  unfold StreamRecv.feed
  split
  · exact Nat.zero_le _
  · exact Nat.zero_le _
  · split
    next hframe => exact onFrame_short frame _ _ _ _ hframe
    next => exact Nat.zero_le _

def System.weight (s : System env codec) : Nat :=
  5 * s.send.todo.length + 4 * s.down.length + 2 * s.reply.length + s.up.length +
    if s.recv.pc.over then 0 else 1

theorem step_lower {s s' : System env codec} {l : Label}
    (hs : step capDown capUp s l = some s') :
    toLex (s'.send.wait.rank, s'.weight) < toLex (s.send.wait.rank, s.weight) := by
  rw [Prod.Lex.toLex_lt_toLex]
  cases l with
  -- a frame goes from what is to be sent to what is on its way
  | send =>
    simp only [step] at hs
    split at hs
    next => cases hs
    next f todo htodo =>
      split_ifs at hs
      obtain rfl := Option.some.inj hs
      refine .inr ⟨rfl, ?_⟩
      simp only [System.weight, htodo, List.length_append, List.length_cons, List.length_nil]
      omega
  -- it is taken, and is answered by one reply at most
  | take =>
    simp only [step] at hs
    split at hs
    next => cases hs
    next f down hdown =>
      split_ifs at hs with hlive
      obtain rfl := Option.some.inj hs
      have hshort := feed_short env s.recv f
      refine .inr ⟨rfl, ?_⟩
      simp only [System.weight, hdown, hlive.1, hlive.2, List.length_cons, List.length_nil]
      split <;> simp <;> omega
  | reply =>
    simp only [step] at hs
    split at hs
    next => cases hs
    next f reply hreply =>
      split_ifs at hs
      obtain rfl := Option.some.inj hs
      refine .inr ⟨rfl, ?_⟩
      simp only [System.weight, hreply, List.length_append, List.length_cons, List.length_nil]
      omega
  -- an answer ends a wait, and what is then to be sent does not matter
  | answer =>
    simp only [step] at hs
    split at hs
    next => cases hs
    next f up hup =>
      obtain ⟨send, hans, rfl⟩ := Option.map_eq_some_iff.mp hs
      exact .inl (rank_answer hans)
  | closed =>
    simp only [step] at hs
    split_ifs at hs with hgone
    obtain rfl := Option.some.inj hs
    obtain ⟨-, -, -, hlive⟩ := hgone
    have hover : s.recv.closed.pc.over = true := by
      unfold StreamRecv.closed
      cases hpc : s.recv.pc with
      | finished => simp [hpc, StreamPc.over]
      | thrown e => simp [hpc, StreamPc.over]
      | _ => rfl
    refine .inr ⟨rfl, ?_⟩
    simp [System.weight, hover, hlive]

/-- **Every run of a transfer over one stream is finite.** -/
theorem ends (capDown capUp : Option Nat) (s : System env codec) : Lts.Ends (step capDown capUp) s :=
  Lts.ends_of_measure (fun s => toLex (s.send.wait.rank, s.weight)) (fun _ hs => ⟨trivial, step_lower hs⟩)
    trivial

end StreamTransfer

/-! ## Many channels

The same with a weight for each thread. The largest is that of a chunk nobody has read from
the source; on its way through producer, queue, worker, channel, reader and file it gets
lighter at each hand. -/

/-- What a worker has still to do. -/
def WorkerPc.weight : WorkerPc → Nat
  | .waiting => 6
  | .sending _ => 13
  | .sent _ => 8
  | .ending => 5
  | .exited | .failed => 0

def Lane.weight (lane : Lane) : Nat := 8 * lane.queue.length + lane.worker.weight

def ProducerPc.weight : ProducerPc → Nat
  | .reading => 2
  | .holding _ => 11
  | .joining | .unwinding => 1
  | .finished | .threw => 0

/-- What a reader has still to do with the chunk in hand. -/
def ReaderPc.weight : ReaderPc → Nat
  | .decoded _ => 2
  | .wrote _ _ => 1
  | _ => 0

section Scheduler

variable {n : Nat} {codec : BlockCodec} {useZstd : Bool} {s s' : MuxSend n}

def MuxSend.weight (s : MuxSend n) : Nat :=
  10 * (Pieces.cut kMuxChunk s.total s.unread).length + s.pc.weight + ∑ k, (s.lanes k).weight

theorem MuxSend.weight_setLane (s : MuxSend n) (k : Fin n) (lane : Lane) :
    (s.setLane k lane).weight + (s.lanes k).weight = s.weight + lane.weight := by
  have := Pieces.sum_update s.lanes k lane Lane.weight
  simp only [MuxSend.weight, MuxSend.setLane]
  omega

theorem MuxSend.weight_start (n : Nat) (content : Bytes) (offset : Nat) :
    (MuxSend.start n content offset).weight =
      10 * (Pieces.cut kMuxChunk offset (content.drop offset)).length + 2 + 6 * n := by
  simp [MuxSend.weight, MuxSend.start, ProducerPc.weight, Lane.weight, WorkerPc.weight,
    Nat.mul_comm]

/-- The weight of what a move puts on a channel. -/
def outWeight : Option (Fin n × Frame) → Nat
  | none => 0
  | some _ => 4

/-- Every move of the scheduler lowers its weight, by more than what it sends weighs. -/
theorem SendMove.run_lower {move : SendMove n} {out : Option (Fin n × Frame)}
    (hs : move.run codec useZstd s = some (s', out)) (hreg : move.regular = true) :
    s'.weight + outWeight out < s.weight := by
  cases move with
  | fail k error => cases hreg
  | read =>
    obtain ⟨s₁, hop, ⟨⟩⟩ := Option.map_eq_some_iff.mp hs
    unfold MuxSend.read at hop
    split at hop
    next hpc =>
      split_ifs at hop with hun
      · obtain rfl := Option.some.inj hop
        simp [MuxSend.weight, hpc, ProducerPc.weight, outWeight]
      · obtain rfl := Option.some.inj hop
        simp only [MuxSend.weight, hpc, ProducerPc.weight, outWeight,
          Pieces.cut_of_ne_nil kMuxChunk_pos hun, List.length_cons]
        omega
    next => cases hop
  -- the chunk in hand enters a queue: the lane gains less than the producer loses
  | enqueue k =>
    obtain ⟨s₁, hop, ⟨⟩⟩ := Option.map_eq_some_iff.mp hs
    obtain ⟨chunk, hpc, -, -, rfl⟩ := MuxSend.enqueue_cases hop
    set lane := (s.lanes k).push (sendItem codec useZstd chunk) chunk
    have hlane : lane.weight = (s.lanes k).weight + 8 := by
      simp only [lane, Lane.weight, Lane.push, List.length_append, List.length_singleton]
      omega
    have hsum : (({ s with pc := .reading } : MuxSend n).setLane k lane).weight +
        (s.lanes k).weight = ({ s with pc := .reading } : MuxSend n).weight + lane.weight :=
      MuxSend.weight_setLane _ k lane
    have hpc' : ({ s with pc := .reading } : MuxSend n).weight + 9 = s.weight := by
      simp only [MuxSend.weight, hpc, ProducerPc.weight]
      omega
    simp only [outWeight]
    omega
  | rethrow =>
    obtain ⟨s₁, hop, ⟨⟩⟩ := Option.map_eq_some_iff.mp hs
    unfold MuxSend.rethrow at hop
    split at hop
    next chunk error hpc _ =>
      obtain rfl := Option.some.inj hop
      simp [MuxSend.weight, hpc, ProducerPc.weight, outWeight]
    next => cases hop
  | take k =>
    obtain ⟨s₁, hop, ⟨⟩⟩ := Option.map_eq_some_iff.mp hs
    obtain ⟨item, queue, hw, -, hq, rfl⟩ := MuxSend.take_cases hop
    have hsum := MuxSend.weight_setLane s k { s.lanes k with worker := .sending item, queue := queue }
    simp only [Lane.weight, hw, hq, WorkerPc.weight, List.length_cons] at hsum
    simp only [outWeight]
    omega
  | leave k =>
    obtain ⟨s₁, hop, ⟨⟩⟩ := Option.map_eq_some_iff.mp hs
    obtain ⟨hw, -, -, -, rfl⟩ := MuxSend.leave_cases hop
    have hsum := MuxSend.weight_setLane s k { s.lanes k with worker := .ending }
    simp only [Lane.weight, hw, WorkerPc.weight] at hsum
    simp only [outWeight]
    omega
  | abort k =>
    obtain ⟨s₁, hop, ⟨⟩⟩ := Option.map_eq_some_iff.mp hs
    obtain ⟨hw, -, rfl⟩ := MuxSend.abort_cases hop
    have hsum := MuxSend.weight_setLane s k { s.lanes k with worker := .failed }
    simp only [Lane.weight, hw, WorkerPc.weight] at hsum
    simp only [outWeight]
    omega
  -- a frame goes out, of a chunk or of the end of a channel
  | emit k =>
    obtain ⟨⟨f, s₁⟩, hop, ⟨⟩⟩ := Option.map_eq_some_iff.mp hs
    obtain ⟨item, hw, rfl, rfl⟩ | ⟨hw, rfl, rfl⟩ := MuxSend.emit_cases hop
    · have hsum := MuxSend.weight_setLane s k { s.lanes k with
        worker := .sent item, sent := (s.lanes k).sent ++ [.data item.payload] }
      simp only [Lane.weight, hw, WorkerPc.weight] at hsum
      simp only [outWeight]
      omega
    · have hsum := MuxSend.weight_setLane s k { s.lanes k with
        worker := .exited, sent := (s.lanes k).sent ++ [.chunkEnd] }
      simp only [Lane.weight, hw, WorkerPc.weight] at hsum
      simp only [outWeight]
      omega
  | settle k =>
    obtain ⟨s₁, hop, ⟨⟩⟩ := Option.map_eq_some_iff.mp hs
    obtain ⟨item, hw, rfl⟩ := MuxSend.settle_cases hop
    have hsum := MuxSend.weight_setLane s k { s.lanes k with
      worker := .waiting
      pendingBytes := (s.lanes k).pendingBytes -
        min (s.lanes k).pendingBytes item.payload.length }
    simp only [Lane.weight, hw, WorkerPc.weight] at hsum
    simp only [outWeight]
    omega
  | join =>
    obtain ⟨s₁, hop, ⟨⟩⟩ := Option.map_eq_some_iff.mp hs
    unfold MuxSend.join at hop
    split at hop
    next =>
      split at hop
      next hpc =>
        obtain rfl := Option.some.inj hop
        by_cases herr : s.error = none <;>
          simp [MuxSend.weight, hpc, herr, ProducerPc.weight, outWeight]
      next hpc =>
        obtain rfl := Option.some.inj hop
        simp [MuxSend.weight, hpc, ProducerPc.weight, outWeight]
      next => cases hop
    next => cases hop

end Scheduler

section Readers

variable {n : Nat} {codec : BlockCodec} {params : PayloadParams} {r r' : MuxRecv n} {k : Fin n}

def MuxRecv.weight (r : MuxRecv n) : Nat := ∑ k, (r.taps k).pc.weight

theorem MuxRecv.weight_setTap (r : MuxRecv n) (k : Fin n) (tap : Tap) :
    (r.setTap k tap).weight + (r.taps k).pc.weight = r.weight + tap.pc.weight :=
  Pieces.sum_update r.taps k tap fun tap => tap.pc.weight

theorem MuxRecv.weight_setTap_le (r : MuxRecv n) (k : Fin n) (tap : Tap) :
    (r.setTap k tap).weight ≤ r.weight + tap.pc.weight :=
  Nat.le_trans (Nat.le_add_right _ _) (Nat.le_of_eq (weight_setTap r k tap))

/-- A frame gives its reader a chunk at most. -/
theorem MuxRecv.weight_accept {f : Frame} (h : r.accept codec params k f = some r') :
    r'.weight ≤ r.weight + 2 := by
  unfold MuxRecv.accept at h
  split_ifs at h with hpc
  split at h
  next =>
    obtain rfl := Option.some.inj h
    exact Nat.le_trans (weight_setTap_le _ _ _) (Nat.add_le_add_left (Nat.zero_le 2) _)
  next chunk _ =>
    obtain rfl := Option.some.inj h
    exact weight_setTap_le _ _ _
  next error _ =>
    obtain rfl := Option.some.inj h
    have hgot : (r.setTap k { r.taps k with got := (r.taps k).got ++ [f] }).weight ≤ r.weight := by
      refine Nat.le_trans (weight_setTap_le _ _ _) (Nat.le_of_eq ?_)
      rw [hpc]
      rfl
    have hfail : ∀ r₁ : MuxRecv n, (r₁.recordFailure k error).weight ≤ r₁.weight :=
      fun r₁ => weight_setTap_le _ k { r₁.taps k with pc := .failed }
    exact Nat.le_trans (hfail _) (Nat.le_trans hgot (Nat.le_add_right _ _))

/-- Every other move of a reader lowers the weight. -/
theorem RecvMove.run_lower {move : RecvMove n} (hreg : move.regular = true)
    (h : move.run r = some r') : r'.weight < r.weight := by
  have hsum (r₁ : MuxRecv n) (k : Fin n) (tap : Tap) (hsame : r₁.taps = r.taps) :
      (r₁.setTap k tap).weight + (r.taps k).pc.weight = r.weight + tap.pc.weight := by
    have := MuxRecv.weight_setTap r₁ k tap
    simp only [MuxRecv.weight, hsame] at this ⊢
    exact this
  cases move with
  | fail k error => cases hreg
  | write k =>
    obtain ⟨chunk, hpc, rfl⟩ := MuxRecv.write_cases h
    have := hsum { r with
        part := Pieces.overwrite 0 r.part chunk.offset chunk.bytes
        ranges := (recordWrittenRange r.ranges chunk.offset chunk.bytes.length).1
        log := r.log ++ [chunk] } k
      { r.taps k with
        pc := .wrote chunk.bytes.length
          (recordWrittenRange r.ranges chunk.offset chunk.bytes.length).2 } rfl
    rw [hpc] at this
    change _ + 2 = _ + 1 at this
    omega
  | count k =>
    obtain ⟨size, delta, hpc, rfl⟩ := MuxRecv.count_cases h
    have := hsum { r with written := r.written + size, advanced := r.advanced + delta } k
      { r.taps k with pc := .reading } rfl
    rw [hpc] at this
    change _ + 1 = _ + 0 at this
    omega

end Readers

namespace MuxTransfer

variable {env : ReceiveEnv} {m : Nat} {codec : BlockCodec} {capDown : Fin (m + 1) → Option Nat}
  {capUp : Option Nat}

/-- What the receiver has still to do before it waits for a frame. -/
def pcWeight {n : Nat} : MuxPc n → Nat
  | .receiving _ _ recv => 2 + recv.weight
  | .finished | .thrown _ => 0
  | _ => 1

/-- What is still to be done with an act. -/
def actWeight {n : Nat} : Act n → Nat
  | .frame _ _ => 5
  | .payload content offset _ =>
    10 * (Pieces.cut kMuxChunk offset (content.drop offset)).length + 4 + 6 * n

def todoWeight {n : Nat} (todo : List (Act n)) : Nat := (todo.map actWeight).sum

def downWeight (down : Fin (m + 1) → List Frame) : Nat := ∑ k, 4 * (down k).length

def System.weight (s : System env m) : Nat :=
  (match s.scheduler with
    | none => todoWeight s.send.todo
    | some sched => sched.weight + 1 + todoWeight s.send.todo.tail) +
  downWeight s.down + 2 * s.reply.length + s.up.length + pcWeight s.recv.pc

@[simp] theorem todoWeight_cons {n : Nat} (a : Act n) (todo : List (Act n)) :
    todoWeight (a :: todo) = actWeight a + todoWeight todo := by simp [todoWeight]

theorem downWeight_push (down : Fin (m + 1) → List Frame) (out : Option (Fin (m + 1) × Frame)) :
    downWeight (push down out) = downWeight down + outWeight out := by
  cases out with
  | none => rfl
  | some kf =>
    have := Pieces.sum_update down kf.1 (down kf.1 ++ [kf.2]) fun chan => 4 * chan.length
    simp only [List.length_append, List.length_singleton] at this
    simp only [downWeight, push, outWeight]
    omega

theorem downWeight_take {down : Fin (m + 1) → List Frame} {k : Fin (m + 1)} {f : Frame}
    {rest : List Frame} (h : down k = f :: rest) :
    downWeight (Function.update down k rest) + 4 = downWeight down := by
  have := Pieces.sum_update down k rest fun chan => 4 * chan.length
  simp only [h, List.length_cons] at this
  simp only [downWeight]
  omega

/-- A session's file is open before a chunk of it is there. -/
theorem openMuxSession_weight {n : Nat} {session : Session} {d d' : Disk} {pc : MuxPc n}
    (h : openMuxSession env n session d = .ok pc d') : pcWeight pc ≤ 2 := by
  cases session with
  | marker setup marker =>
    rw [(pure_ok.mp h).1]
    exact Nat.le_succ 1
  | skipPayload setup =>
    rw [(pure_ok.mp h).1]
    exact Nat.le_succ 1
  | receivePayload s =>
    obtain ⟨⟨out, content⟩, d₁, -, h⟩ := bind_ok.mp h
    rw [(pure_ok.mp h).1]
    simp [pcWeight, MuxRecv.weight, MuxRecv.start, ReaderPc.weight]

/-- A frame the loop reads causes one reply at most. -/
theorem onControl_short {n : Nat} (frame : Frame) {pc : MuxPc n} (hpc : pcWeight pc ≤ 2) :
    Answers (fun p => p.2.length ≤ 1 ∧ pcWeight p.1 ≤ 2) (onControl env frame pc) := by
  unfold onControl
  split
  · split
    · exact answers_then fun _ => answers_pure ⟨Nat.zero_le _, Nat.le_succ 1⟩
    · exact answers_then fun _ => answers_pure ⟨Nat.le_refl _, Nat.zero_le _⟩
    · exact answers_then fun _ => answers_pure ⟨Nat.le_refl _, Nat.le_succ 1⟩
    · exact answers_throw _
  · refine answers_then fun settled => ?_
    cases settled with
    | inl session =>
      refine answers_bind (Q := fun pc => pcWeight pc ≤ 2) (fun l pc l' hopen => ?_) fun _ h =>
        answers_pure ⟨Nat.zero_le _, h⟩
      obtain ⟨d, hopen, -⟩ := onDisk_ok.mp hopen
      exact openMuxSession_weight hopen
    | inr pending => exact answers_pure ⟨Nat.le_refl _, Nat.le_succ 1⟩
  · split
    · exact answers_then fun _ => answers_pure ⟨Nat.zero_le _, Nat.le_succ 1⟩
    · exact answers_throw _
  · split
    · split
      · exact answers_pure ⟨Nat.zero_le _, Nat.le_succ 1⟩
      · exact answers_throw _
    · split
      · exact answers_then fun _ => answers_pure ⟨Nat.zero_le _, Nat.le_succ 1⟩
      · exact answers_throw _
  · split
    · exact answers_then fun _ => answers_pure ⟨Nat.zero_le _, Nat.le_succ 1⟩
    · exact answers_throw _
  all_goals exact answers_pure ⟨Nat.zero_le _, hpc⟩

theorem control_short (env : ReceiveEnv) {n : Nat} (r : MuxLoop n) (frame : Frame) (hpc : pcWeight r.pc ≤ 2) :
    (r.control env frame).2.length ≤ 1 ∧ pcWeight (r.control env frame).1.pc ≤ 2 := by
  unfold MuxLoop.control
  split
  next hframe => exact onControl_short frame hpc _ _ _ hframe
  next => exact ⟨Nat.zero_le _, Nat.zero_le _⟩

/-- Taking a frame weighs less than the frame. -/
theorem take_lower {r : MuxLoop (m + 1)} {k : Fin (m + 1)} {f : Frame}
    {p : MuxLoop (m + 1) × List Frame} (h : r.take env codec k f = some p) :
    pcWeight p.1.pc + 2 * p.2.length < pcWeight r.pc + 4 := by
  unfold MuxLoop.take at h
  split at h
  next s out recv hpc =>
    obtain ⟨recv', hacc, rfl⟩ := Option.map_eq_some_iff.mp h
    have := MuxRecv.weight_accept hacc
    simp only [MuxLoop.wrote, hpc, pcWeight, List.length_nil]
    omega
  next hreads =>
    split_ifs at h with hk
    obtain rfl := Option.some.inj h
    have hone : pcWeight r.pc = 1 := by
      cases hpc : r.pc with
      | receiving => simp [hpc, MuxPc.reads] at hk
      | finished => simp [hpc, MuxPc.reads] at hk
      | thrown e => simp [hpc, MuxPc.reads] at hk
      | _ => rfl
    obtain ⟨hreply, hweight⟩ := control_short env r f (by omega)
    omega

theorem step_lower {s s' : System env m} {l : Label (m + 1)}
    (hs : step codec capDown capUp s l = some s') :
    toLex (s'.send.wait.rank, s'.weight) < toLex (s.send.wait.rank, s.weight) := by
  rw [Prod.Lex.toLex_lt_toLex]
  cases l with
  | send =>
    simp only [step] at hs
    split at hs
    next k f todo hsched htodo =>
      split_ifs at hs
      obtain rfl := Option.some.inj hs
      refine .inr ⟨rfl, ?_⟩
      simp only [System.weight, hsched, htodo, todoWeight_cons, actWeight, downWeight_push, outWeight]
      omega
    next => cases hs
  -- a payload that is begun turns one act into the weight of its chunks
  | begin =>
    simp only [step] at hs
    split at hs
    next content offset useZstd todo hsched htodo =>
      obtain rfl := Option.some.inj hs
      refine .inr ⟨rfl, ?_⟩
      simp only [System.weight, hsched, htodo, MuxSend.weight_start, todoWeight_cons, actWeight,
        List.tail_cons]
      omega
    next => cases hs
  -- what leaves the scheduler weighs less on its channel
  | sched move =>
    simp only [step] at hs
    split at hs
    next sched content offset useZstd todo hsched htodo =>
      split_ifs at hs with hreg
      obtain ⟨⟨sched', out⟩, hrun, hs⟩ := Option.bind_eq_some_iff.mp hs
      have hs' : s' = { s with scheduler := some sched', down := push s.down out } := by
        cases out with
        | none => exact (Option.some.inj hs).symm
        | some kf =>
          dsimp only at hs
          split_ifs at hs
          exact (Option.some.inj hs).symm
      subst hs'
      have hlower := SendMove.run_lower hrun hreg
      refine .inr ⟨rfl, ?_⟩
      simp only [System.weight, hsched, downWeight_push]
      omega
    next => cases hs
  | finish =>
    simp only [step] at hs
    split at hs
    next sched a todo hsched htodo =>
      split_ifs at hs
      obtain rfl := Option.some.inj hs
      refine .inr ⟨rfl, ?_⟩
      simp only [System.weight, hsched, htodo, List.tail_cons]
      omega
    next => cases hs
  -- a reader gets a chunk, or the loop a frame of its own
  | take k =>
    simp only [step] at hs
    split at hs
    next => cases hs
    next f rest hchan =>
      split_ifs at hs with hreply
      obtain ⟨p, htake, rfl⟩ := Option.map_eq_some_iff.mp hs
      have hlower := take_lower htake
      have hdown := downWeight_take hchan
      refine .inr ⟨rfl, ?_⟩
      simp only [System.weight, hreply, List.length_nil]
      omega
  -- the readers unpack and write what they hold
  | work move =>
    simp only [step] at hs
    split_ifs at hs with hreg
    obtain ⟨recv, hwork, rfl⟩ := Option.map_eq_some_iff.mp hs
    refine .inr ⟨rfl, ?_⟩
    unfold MuxLoop.work at hwork
    split at hwork
    next session out pr hpc =>
      obtain ⟨pr', hmove, rfl⟩ := Option.map_eq_some_iff.mp hwork
      have hlower := RecvMove.run_lower hreg hmove
      simp only [System.weight, MuxLoop.wrote, hpc, pcWeight]
      omega
    next => cases hwork
  | ret =>
    simp only [step] at hs
    obtain ⟨recv, hret, rfl⟩ := Option.map_eq_some_iff.mp hs
    refine .inr ⟨rfl, ?_⟩
    unfold MuxLoop.ret at hret
    split at hret
    next session out pr hpc =>
      split_ifs at hret
      obtain rfl := Option.some.inj hret
      have hone : pcWeight (s.recv.returned session out pr.result).pc ≤ 1 := by
        simp only [MuxLoop.returned]
        cases pr.result.1 <;> simp [pcWeight]
      simp only [System.weight, hpc, pcWeight] at hone ⊢
      omega
    next => cases hret
  | reply =>
    simp only [step] at hs
    split at hs
    next => cases hs
    next f reply hreply =>
      split_ifs at hs
      obtain rfl := Option.some.inj hs
      refine .inr ⟨rfl, ?_⟩
      simp only [System.weight, hreply, List.length_append, List.length_cons, List.length_nil]
      omega
  | answer =>
    simp only [step] at hs
    split at hs
    next => cases hs
    next f up hup =>
      obtain ⟨send, hans, rfl⟩ := Option.map_eq_some_iff.mp hs
      exact .inl (rank_answer hans)
  | closed =>
    simp only [step] at hs
    split_ifs at hs
    obtain ⟨recv, hclosed, rfl⟩ := Option.map_eq_some_iff.mp hs
    refine .inr ⟨rfl, ?_⟩
    have hpc : pcWeight recv.pc = 0 ∧ pcWeight s.recv.pc = 1 := by
      unfold MuxLoop.closed at hclosed
      cases hpc : s.recv.pc with
      | receiving => simp [hpc] at hclosed
      | finished => simp [hpc] at hclosed
      | thrown e => simp [hpc] at hclosed
      | _ =>
        simp only [hpc] at hclosed
        obtain rfl := Option.some.inj hclosed
        exact ⟨rfl, rfl⟩
    simp only [System.weight, hpc]
    omega

/-- **Every run of a transfer over many channels is finite.** -/
theorem ends (codec : BlockCodec) (capDown : Fin (m + 1) → Option Nat) (capUp : Option Nat)
    (s : System env m) : Lts.Ends (step codec capDown capUp) s :=
  Lts.ends_of_measure (fun s => toLex (s.send.wait.rank, s.weight)) (fun _ hs => ⟨trivial, step_lower hs⟩)
    trivial

end MuxTransfer
end Kiko.Transfer
