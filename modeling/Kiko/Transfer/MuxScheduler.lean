import Kiko.Lib.Transition
import Kiko.Transfer.MuxSend

/-!
# The scheduler by itself (`transfer/mux_send_scheduler`)

`Kiko.Transfer.MuxSend` follows one file through the scheduler. Here the scheduler is alone: its
caller enqueues a list of payloads, whatever they are, and then calls `finish`; sizes, counters
and limits have 64 bits; and a thread that waits is asleep until the condition variable is
notified. A thread that is notified, or wakes up for no reason, looks at its condition again.

`Inv` has two halves. The accounting says what `pending_bytes` counts and that it is within the
limits, so that no sum and no difference wraps. The waking says of whoever is asleep that nothing
has happened since that should have woken it, or that somebody is about to notify it. A state in
which nobody can go on is then one in which everything has been sent (`scheduler_progress`).

Why a model of its own, beside that of `MuxSend`. There the scheduler is part of a transfer, its
numbers are exact and a thread that can go on does; that is what the transfer needs to be shown
to deliver. Whether the arithmetic of the code is exact, and whether a thread that waits is ever
woken, are questions about the scheduler alone, and for any payloads: so both are asked here,
where a sum is a sum modulo `2 ^ 64` and a sleeping thread is a place in the code. The locked
regions of the code are the steps. Between the flag or the error and the `notify_all` that
follows it the code holds no lock, so that is two steps, and the invariant has to speak of what
stands between them.
-/

set_option autoImplicit false

namespace Kiko.Transfer

/-! ## The threads

A place is a point at which the thread holds no lock. Whoever waits on the condition variable is
either looking at its condition or asleep, and only `notified` (or a spurious wake) leads from
the second to the first. The histories `sent` and `ended` say what has left on a channel; no step
reads them. -/

inductive SchedulerWorker
  /-- looking at its condition -/
  | waiting
  | asleep
  | sending (item : SendItem)
  /-- the item is on the channel, its bytes are not yet given back -/
  | sent (item : SendItem)
  /-- the bytes are given back, nobody has been notified yet -/
  | settled
  /-- out of its loop, `ChunkEnd` is next -/
  | ending
  | exited
  /-- a send has thrown: the error is set, nobody has been notified yet -/
  | raising (item : Option SendItem)
  | failed (item : Option SendItem)
deriving DecidableEq, Repr

namespace SchedulerWorker

/-- The item it has taken whose bytes it has not given back. -/
def inFlight : SchedulerWorker → List SendItem
  | .sending item | .sent item => [item]
  | .raising item | .failed item => item.toList
  | _ => []

/-- The item it has taken and not sent. -/
def unsent : SchedulerWorker → List SendItem
  | .sending item => [item]
  | .raising item | .failed item => item.toList
  | _ => []

def closing : SchedulerWorker → Bool
  | .ending | .exited => true
  | _ => false

/-- The thread is over. -/
def stopped : SchedulerWorker → Bool
  | .exited | .failed _ => true
  | _ => false

def notified : SchedulerWorker → SchedulerWorker
  | .asleep => .waiting
  | worker => worker

end SchedulerWorker

structure SchedulerChannel where
  queue : List SendItem := []
  pendingBytes : Nat := 0
  worker : SchedulerWorker := .waiting
  /-- history: the items that left here -/
  sent : List SendItem := []
  /-- history: `ChunkEnd` left here -/
  ended : Bool := false
deriving DecidableEq, Repr

inductive SchedulerProducer
  | idle
  /-- in `enqueue`, looking for a channel -/
  | enqueuing (item : SendItem)
  | asleep (item : SendItem)
  /-- `enqueue` has thrown, the destructor is next -/
  | unwinding
  /-- in `finish`: the flag is set, nobody has been notified yet -/
  | announcing (threw : Bool)
  | joining (threw : Bool)
  | finished
  | threw
deriving DecidableEq, Repr

namespace SchedulerProducer

/-- The item in hand. -/
def held : SchedulerProducer → List SendItem
  | .enqueuing item | .asleep item => [item]
  | _ => []

def notified : SchedulerProducer → SchedulerProducer
  | .asleep item => .enqueuing item
  | producer => producer

/-- It is past the point in `finish` where the flag is set. -/
def concluding : SchedulerProducer → Bool
  | .announcing _ | .joining _ | .finished | .threw => true
  | _ => false

end SchedulerProducer

/-- `MuxSendScheduler` over `n` channels, and its caller with the calls still to be made. -/
structure MuxSendScheduler (n : Nat) where
  calls : List SendItem
  producer : SchedulerProducer := .idle
  finishing : Bool := false
  channels : Fin n → SchedulerChannel := fun _ => {}
  error : Option KikoError := none

namespace MuxSendScheduler

variable {n : Nat}

def setChannel (s : MuxSendScheduler n) (k : Fin n) (channel : SchedulerChannel) :
    MuxSendScheduler n :=
  { s with channels := Function.update s.channels k channel }

/-- `cv_.notify_all`. -/
def notifyAll (s : MuxSendScheduler n) : MuxSendScheduler n :=
  { s with
    producer := s.producer.notified
    channels := fun k => { s.channels k with worker := (s.channels k).worker.notified } }

/-! ## Limits

The code's own arithmetic: the limits are products and sums of `std::uint64_t`, so a large number
of channels wraps the global one. What is asked of a channel is written with a difference, and
the difference is one of 64 bits too; that it never wraps is shown below. -/

/-- `total_pending_locked`. -/
def totalPending (s : MuxSendScheduler n) : Nat := (∑ k, (s.channels k).pendingBytes) % 2 ^ 64

/-- `per_channel_pending_limit`. -/
def channelLimit (payloadSize : Nat) : Nat := max kMaxPendingPerChannel payloadSize

/-- `global_pending_limit`. -/
def globalLimit (n payloadSize : Nat) : Nat := max (n * kMaxPendingPerChannel % 2 ^ 64) payloadSize

/-- `choose_ready_channel_locked` may answer `k`: which of the channels that pass it answers
    depends on their latencies. It answers one when there is one. -/
def ready (s : MuxSendScheduler n) (payloadSize : Nat) (k : Fin n) : Prop :=
  s.totalPending ≤ subU64 (globalLimit n payloadSize) payloadSize ∧
    (s.channels k).pendingBytes ≤ subU64 (channelLimit payloadSize) payloadSize

instance (s : MuxSendScheduler n) (size : Nat) (k : Fin n) : Decidable (s.ready size k) :=
  inferInstanceAs (Decidable (_ ∧ _))

end MuxSendScheduler

/-! ## The steps

One operation for each region under the mutex. The choice of a channel is the label's: the code
goes by latencies that it measures, and every channel it could come to is a step here. -/

/-- An item is queued. -/
def SchedulerChannel.push (channel : SchedulerChannel) (item : SendItem) : SchedulerChannel :=
  { channel with
    queue := channel.queue ++ [item]
    pendingBytes := addU64 channel.pendingBytes item.payload.length }

/-- The bytes of a sent item are given back. -/
def SchedulerChannel.settle (channel : SchedulerChannel) (item : SendItem) : SchedulerChannel :=
  { channel with
    worker := .settled
    pendingBytes := subU64 channel.pendingBytes (min channel.pendingBytes item.payload.length) }

inductive SchedulerOp (n : Nat)
  /-- the caller calls `enqueue` -/
  | call
  /-- `enqueue` finds a channel -/
  | enqueue (k : Fin n)
  /-- `enqueue` finds none and waits -/
  | block
  /-- `enqueue` finds an error -/
  | rethrow
  /-- the caller calls `finish` -/
  | finish
  | announce
  | join
  | take (k : Fin n)
  | leave (k : Fin n)
  | sleep (k : Fin n)
  /-- a worker finds an error of another one and returns -/
  | abort (k : Fin n)
  | send (k : Fin n)
  | settle (k : Fin n)
  | notify (k : Fin n)
  | sendEnd (k : Fin n)
  /-- a send throws -/
  | fail (k : Fin n) (error : KikoError)
  | raise (k : Fin n)
  /-- a thread wakes up for no reason -/
  | wakeProducer
  | wakeWorker (k : Fin n)
deriving DecidableEq, Repr

/-- What a step needs of the environment: that a send fails, or that a thread wakes up for no
    reason, cannot be relied on. -/
def SchedulerOp.regular {n : Nat} : SchedulerOp n → Bool
  | .fail _ _ | .wakeProducer | .wakeWorker _ => false
  | _ => true

namespace MuxSendScheduler

variable {n : Nat}

/-- A step of the caller. -/
def producerStep (s : MuxSendScheduler n) : SchedulerOp n → Option (MuxSendScheduler n)
  | .call =>
    match s.producer, s.calls with
    | .idle, item :: calls => some { s with producer := .enqueuing item, calls := calls }
    | _, _ => none
  | .enqueue k =>
    match s.producer with
    | .enqueuing item =>
      if s.error = none ∧ s.ready item.payload.length k then
        let s := { s with producer := .idle }.notifyAll
        some (s.setChannel k ((s.channels k).push item))
      else none
    | _ => none
  | .block =>
    match s.producer with
    | .enqueuing item =>
      if s.error = none ∧ ∀ k, ¬ s.ready item.payload.length k then
        some { s with producer := .asleep item }
      else none
    | _ => none
  | .rethrow =>
    match s.producer, s.error with
    | .enqueuing _, some _ => some { s with producer := .unwinding }
    | _, _ => none
  | .finish =>
    match s.producer, s.calls with
    | .idle, [] => some { s with producer := .announcing false, finishing := true }
    | .unwinding, _ => some { s with producer := .announcing true, finishing := true }
    | _, _ => none
  | .announce =>
    match s.producer with
    | .announcing threw => some { s with producer := .joining threw }.notifyAll
    | _ => none
  | .join =>
    match s.producer with
    | .joining threw =>
      if ∀ k, (s.channels k).worker.stopped then
        some { s with producer := if threw = true ∨ s.error ≠ none then .threw else .finished }
      else none
    | _ => none
  | .wakeProducer =>
    match s.producer with
    | .asleep item => some { s with producer := .enqueuing item }
    | _ => none
  | _ => none

/-- A step of the worker of channel `k`. -/
def workerStep (s : MuxSendScheduler n) (k : Fin n) :
    SchedulerOp n → Option (MuxSendScheduler n)
  | .take _ =>
    match (s.channels k).worker, s.error, (s.channels k).queue with
    | .waiting, none, item :: queue =>
      some (s.setChannel k { s.channels k with worker := .sending item, queue := queue })
    | _, _, _ => none
  | .leave _ =>
    match (s.channels k).worker, s.error, (s.channels k).queue, s.finishing with
    | .waiting, none, [], true => some (s.setChannel k { s.channels k with worker := .ending })
    | _, _, _, _ => none
  | .sleep _ =>
    match (s.channels k).worker, s.error, (s.channels k).queue, s.finishing with
    | .waiting, none, [], false => some (s.setChannel k { s.channels k with worker := .asleep })
    | _, _, _, _ => none
  | .abort _ =>
    match (s.channels k).worker, s.error with
    | .waiting, some _ => some (s.setChannel k { s.channels k with worker := .failed none })
    | _, _ => none
  | .send _ =>
    match (s.channels k).worker with
    | .sending item => some (s.setChannel k { s.channels k with
        worker := .sent item, sent := (s.channels k).sent ++ [item] })
    | _ => none
  | .settle _ =>
    match (s.channels k).worker with
    | .sent item => some (s.setChannel k ((s.channels k).settle item))
    | _ => none
  | .notify _ =>
    match (s.channels k).worker with
    | .settled => some (s.notifyAll.setChannel k { s.channels k with worker := .waiting })
    | _ => none
  | .sendEnd _ =>
    match (s.channels k).worker with
    | .ending => some (s.setChannel k { s.channels k with worker := .exited, ended := true })
    | _ => none
  | .fail _ error =>
    match (s.channels k).worker with
    | .sending item =>
      some ({ s with error := some (s.error.getD error) }.setChannel k
        { s.channels k with worker := .raising (some item) })
    | .ending =>
      some ({ s with error := some (s.error.getD error) }.setChannel k
        { s.channels k with worker := .raising none })
    | _ => none
  | .raise _ =>
    match (s.channels k).worker with
    | .raising item => some (s.notifyAll.setChannel k { s.channels k with worker := .failed item })
    | _ => none
  | .wakeWorker _ =>
    match (s.channels k).worker with
    | .asleep => some (s.setChannel k { s.channels k with worker := .waiting })
    | _ => none
  | _ => none

def step (s : MuxSendScheduler n) (op : SchedulerOp n) : Option (MuxSendScheduler n) :=
  match op with
  | .call | .enqueue _ | .block | .rethrow | .finish | .announce | .join | .wakeProducer =>
    s.producerStep op
  | .take k | .leave k | .sleep k | .abort k | .send k | .settle k | .notify k | .sendEnd k
  | .fail k _ | .raise k | .wakeWorker k => s.workerStep k op

end MuxSendScheduler

/-! ## The invariant

`placed` and `pending` account for the items and the bytes. `asleep`, and the clause for a
sleeping caller, are about waking: a thread that sleeps has looked at its condition, and whatever
would make it true since then either has not happened or has its `notify_all` still to come. -/

def payloadBytes (items : List SendItem) : Nat := (items.map (·.payload.length)).sum

/-- The size of the largest payload. -/
def largestPayload (items : List SendItem) : Nat := (items.map (·.payload.length)).foldr max 0

theorem length_le_largestPayload {items : List SendItem} {item : SendItem} (h : item ∈ items) :
    item.payload.length ≤ largestPayload items := by
  induction items with
  | nil => cases h
  | cons first items ih =>
    rcases List.mem_cons.mp h with rfl | h
    · exact le_max_left _ _
    · exact (ih h).trans (le_max_right _ _)

theorem largestPayload_le {items : List SendItem} {bound : Nat}
    (h : ∀ item ∈ items, item.payload.length ≤ bound) : largestPayload items ≤ bound := by
  induction items with
  | nil => exact Nat.zero_le _
  | cons first items ih =>
    exact max_le (h first List.mem_cons_self) (ih fun item hi => h item (List.mem_cons_of_mem _ hi))

namespace SchedulerChannel

/-- What was enqueued here. -/
def placed (channel : SchedulerChannel) : Multiset SendItem :=
  (channel.sent ++ channel.worker.unsent ++ channel.queue : List SendItem)

structure Inv (channel : SchedulerChannel) : Prop where
  /-- `pending_bytes` counts what is queued and what is in flight -/
  pending : channel.pendingBytes = payloadBytes (channel.worker.inFlight ++ channel.queue)
  dry : channel.worker = .asleep ∨ channel.worker.closing = true → channel.queue = []
  ended : channel.worker = .exited → channel.ended = true

/-- An item that is sent is no more than what is pending, so giving its bytes back takes exactly
    them. -/
theorem Inv.settle_eq {channel : SchedulerChannel} {item : SendItem} (h : channel.Inv)
    (hw : channel.worker = .sent item) (hbound : channel.pendingBytes ≤ u64Max) :
    item.payload.length ≤ channel.pendingBytes ∧
      subU64 channel.pendingBytes (min channel.pendingBytes item.payload.length) =
        channel.pendingBytes - item.payload.length ∧
      channel.settle item =
        { channel with worker := .settled, pendingBytes := payloadBytes channel.queue } := by
  have hpending := h.pending
  rw [hw] at hpending
  have hsum : channel.pendingBytes = item.payload.length + payloadBytes channel.queue := hpending
  have hle : item.payload.length ≤ channel.pendingBytes := by omega
  have hsub : subU64 channel.pendingBytes (min channel.pendingBytes item.payload.length) =
      channel.pendingBytes - item.payload.length := by
    rw [min_eq_right hle, subU64_eq hle hbound]
  refine ⟨hle, hsub, ?_⟩
  unfold SchedulerChannel.settle
  rw [hsub, hsum, Nat.add_sub_cancel_left]

end SchedulerChannel

namespace MuxSendScheduler

variable {n : Nat} {items : List SendItem} {s s' : MuxSendScheduler n} {k : Fin n}

/-- What was enqueued, over all channels. -/
def placed (s : MuxSendScheduler n) : Multiset SendItem := ∑ k, (s.channels k).placed

/-- A run that is to send `items`. -/
structure Inv (items : List SendItem) (s : MuxSendScheduler n) : Prop where
  channel : ∀ k, (s.channels k).Inv
  channelBound : ∀ k, (s.channels k).pendingBytes ≤ max kMaxPendingPerChannel (largestPayload items)
  totalBound : ∑ k, (s.channels k).pendingBytes ≤
    max (n * kMaxPendingPerChannel % 2 ^ 64) (largestPayload items)
  placed : s.error = none →
    s.placed + (s.producer.held ++ s.calls : List SendItem) = (items : Multiset SendItem)
  closing : ∀ k, (s.channels k).worker.closing = true → s.finishing = true
  concluding : s.finishing = s.producer.concluding
  exhausted : s.error = none → s.finishing = true → s.calls = []
  /-- no worker sleeps through the flag -/
  asleep : ∀ k, (s.channels k).worker = .asleep → s.finishing = true →
    ∃ threw, s.producer = .announcing threw
  /-- the caller does not sleep through a channel that has got room -/
  blocked : ∀ item, s.producer = .asleep item → (∀ k, ¬ s.ready item.payload.length k) ∨
    (∃ k, (s.channels k).worker = .settled) ∨ s.error ≠ none
  raised : ∀ k item, (s.channels k).worker = .raising item ∨ (s.channels k).worker = .failed item →
    s.error ≠ none
  unwound : s.error = none → s.producer ≠ .unwinding ∧ s.producer ≠ .threw ∧
    s.producer ≠ .announcing true ∧ s.producer ≠ .joining true
  finished : s.producer = .finished → ∀ k, (s.channels k).worker = .exited

/-- The scheduler right after its construction. -/
def start (n : Nat) (items : List SendItem) : MuxSendScheduler n := { calls := items }

theorem start_inv (n : Nat) (items : List SendItem) : (start n items).Inv items where
  channel _ := ⟨rfl, fun _ => rfl, fun h => by cases h⟩
  channelBound _ := Nat.zero_le _
  totalBound := by
    show ∑ _ : Fin n, 0 ≤ _
    rw [Finset.sum_const_zero]
    exact Nat.zero_le _
  placed _ := by
    have hnone : (start n items).placed = 0 := Finset.sum_const_zero
    rw [hnone, zero_add]
    rfl
  closing _ h := by cases h
  concluding := rfl
  exhausted _ h := by cases h
  asleep _ h := by cases h
  blocked _ h := by cases h
  raised _ _ h := by rcases h with h | h <;> cases h
  unwound _ := ⟨nofun, nofun, nofun, nofun⟩
  finished h := by cases h

/-! ## No sum and no difference wraps -/

theorem globalLimit_le (n : Nat) {size : Nat} (h : size ≤ u64Max) : globalLimit n size ≤ u64Max :=
  max_le (Nat.le_sub_one_of_lt (Nat.mod_lt _ (by decide))) h

theorem channelLimit_le {size : Nat} (h : size ≤ u64Max) : channelLimit size ≤ u64Max :=
  max_le (by decide) h

/-- The size of a payload is taken from a limit that is not less. -/
theorem subU64_limits (n : Nat) {size : Nat} (h : size ≤ u64Max) :
    subU64 (globalLimit n size) size = globalLimit n size - size ∧ size ≤ globalLimit n size ∧
      subU64 (channelLimit size) size = channelLimit size - size ∧ size ≤ channelLimit size :=
  ⟨subU64_eq (le_max_right _ _) (globalLimit_le n h), le_max_right _ _,
    subU64_eq (le_max_right _ _) (channelLimit_le h), le_max_right _ _⟩

variable (hsize : ∀ item ∈ items, item.payload.length ≤ u64Max)

include hsize in
theorem Inv.totalPending_eq (h : s.Inv items) :
    s.totalPending = ∑ k, (s.channels k).pendingBytes := by
  refine Nat.mod_eq_of_lt (h.totalBound.trans_lt ?_)
  have hlargest : largestPayload items ≤ u64Max := largestPayload_le hsize
  exact (max_le (Nat.le_sub_one_of_lt (Nat.mod_lt _ (by decide))) hlargest).trans_lt (by decide)

/-! ## Each step keeps the invariant

Most steps are of one worker and touch its channel only; `Inv.setChannel` is the frame for these
and `Inv.setWorker` the case in which even the queue stays. The caller's own steps go through
`Inv.setProducer`. What is left is `enqueue`, which does both and notifies. -/

@[simp] theorem setChannel_self (s : MuxSendScheduler n) (k : Fin n) (channel : SchedulerChannel) :
    (s.setChannel k channel).channels k = channel := Function.update_self ..

theorem setChannel_of_ne (s : MuxSendScheduler n) {k j : Fin n} (channel : SchedulerChannel)
    (h : j ≠ k) : (s.setChannel k channel).channels j = s.channels j := Function.update_of_ne h ..

/-- What holds of every channel holds of them with one replaced. -/
theorem forall_setChannel {P : Fin n → SchedulerChannel → Prop} {channel : SchedulerChannel}
    (h : ∀ j, P j (s.channels j)) (hk : P k channel) :
    ∀ j, P j ((s.setChannel k channel).channels j) := by
  intro j
  by_cases hj : j = k
  · subst hj
    rwa [setChannel_self]
  · rw [setChannel_of_ne _ _ hj]
    exact h j

theorem placed_setChannel (s : MuxSendScheduler n) (k : Fin n) (channel : SchedulerChannel) :
    (s.setChannel k channel).placed + (s.channels k).placed = s.placed + channel.placed :=
  Pieces.sum_update s.channels k channel SchedulerChannel.placed

theorem sum_pending_setChannel (s : MuxSendScheduler n) (k : Fin n) (channel : SchedulerChannel) :
    (∑ j, ((s.setChannel k channel).channels j).pendingBytes) + (s.channels k).pendingBytes =
      (∑ j, (s.channels j).pendingBytes) + channel.pendingBytes :=
  Pieces.sum_update s.channels k channel SchedulerChannel.pendingBytes

/-- Readiness is a matter of what is pending. -/
theorem ready_congr {size : Nat} {j : Fin n}
    (h : ∀ k, (s'.channels k).pendingBytes = (s.channels k).pendingBytes) :
    s'.ready size j ↔ s.ready size j := by
  unfold ready totalPending
  rw [h j, Finset.sum_congr rfl fun k _ => h k]

/-- A worker goes on, on its channel alone, and neither enqueues nor drops anything. -/
theorem Inv.setChannel (h : s.Inv items) {channel : SchedulerChannel} (hinv : channel.Inv)
    (hpending : channel.pendingBytes ≤ (s.channels k).pendingBytes)
    (hplaced : channel.placed = (s.channels k).placed)
    (hclosing : channel.worker.closing = true → s.finishing = true)
    (hasleep : channel.worker = .asleep → s.finishing = false)
    (hblocked : ∀ item, s.producer = .asleep item → channel.worker = .settled ∨
      ((s.channels k).worker ≠ .settled ∧ channel.pendingBytes = (s.channels k).pendingBytes))
    (hraised : ∀ item, channel.worker = .raising item ∨ channel.worker = .failed item →
      s.error ≠ none)
    (hfinished : s.producer = .finished → channel.worker = .exited) :
    (s.setChannel k channel).Inv items where
  channel := forall_setChannel h.channel hinv
  channelBound := by
    refine forall_setChannel (P := fun _ c => c.pendingBytes ≤ _) h.channelBound ?_
    exact hpending.trans (h.channelBound k)
  totalBound := by
    -- what is pending in one channel is less, and so it is in all
    have hsum := sum_pending_setChannel s k channel
    have := h.totalBound
    omega
  placed herr := by
    have hsum := placed_setChannel s k channel
    rw [hplaced] at hsum
    rw [add_right_cancel hsum]
    exact h.placed herr
  closing := forall_setChannel (P := fun _ c => c.worker.closing = true → _) h.closing hclosing
  concluding := h.concluding
  exhausted := h.exhausted
  asleep := by
    refine forall_setChannel (P := fun _ c => c.worker = .asleep → _) h.asleep ?_
    intro hw hfin
    have hnot : s.finishing = false := hasleep hw
    exact absurd hfin (by rw [show (s.setChannel k channel).finishing = false from hnot]; decide)
  blocked item hp := by
    -- a producer that sleeps: this channel has settled something, or is as full as it was
    rcases hblocked item hp with hw | ⟨hw, hsame⟩
    · exact .inr (.inl ⟨k, by rwa [setChannel_self]⟩)
    rcases h.blocked item hp with hready | ⟨j, hj⟩ | herr
    · refine .inl fun j hj => hready j ((ready_congr ?_).mp hj)
      exact forall_setChannel (P := fun j c => c.pendingBytes = (s.channels j).pendingBytes)
        (fun _ => rfl) hsame
    · have hne : j ≠ k := by
        rintro rfl
        exact hw hj
      exact .inr (.inl ⟨j, by rwa [setChannel_of_ne _ _ hne]⟩)
    · exact .inr (.inr herr)
  raised := by
    refine forall_setChannel (P := fun _ c => ∀ item,
      c.worker = .raising item ∨ c.worker = .failed item → _) h.raised ?_
    exact hraised
  unwound := h.unwound
  finished hp := by
    refine forall_setChannel (P := fun _ c => c.worker = .exited) (h.finished hp) ?_
    exact hfinished hp

section Notify

variable (w : SchedulerWorker)

@[simp] theorem inFlight_notified : w.notified.inFlight = w.inFlight := by cases w <;> rfl

@[simp] theorem unsent_notified : w.notified.unsent = w.unsent := by cases w <;> rfl

@[simp] theorem closing_notified : w.notified.closing = w.closing := by cases w <;> rfl

theorem notified_ne_asleep : w.notified ≠ .asleep := by cases w <;> exact nofun

/-- Only who is asleep is changed by a notification. -/
theorem eq_of_notified {w w' : SchedulerWorker} (h : w.notified = w') (hw : w' ≠ .waiting) :
    w = w' := by
  cases w <;> first | exact h | exact absurd h.symm hw

end Notify

theorem held_notified (p : SchedulerProducer) : p.notified.held = p.held := by cases p <;> rfl

theorem Inv.notifyAll (h : s.Inv items) : s.notifyAll.Inv items where
  channel j := by
    obtain ⟨hpending, hdry, hended⟩ := h.channel j
    refine ⟨?_, ?_, ?_⟩
    · show (s.channels j).pendingBytes =
        payloadBytes ((s.channels j).worker.notified.inFlight ++ (s.channels j).queue)
      rw [inFlight_notified]
      exact hpending
    · rintro (hw | hw)
      · exact absurd hw (notified_ne_asleep _)
      · exact hdry (.inr ((closing_notified _).symm.trans hw))
    · intro hw
      exact hended (eq_of_notified hw nofun)
  channelBound := h.channelBound
  totalBound := h.totalBound
  placed herr := by
    have hplaced : s.notifyAll.placed = s.placed := by
      refine Finset.sum_congr rfl fun j _ => ?_
      show ((_ ++ (s.channels j).worker.notified.unsent ++ _ : List SendItem) : Multiset SendItem) = _
      rw [unsent_notified]
      rfl
    rw [hplaced]
    show s.placed + ((s.producer.notified.held ++ s.calls : List SendItem) : Multiset SendItem) = _
    rw [held_notified]
    exact h.placed herr
  closing j hj := h.closing j ((closing_notified _).symm.trans hj)
  concluding := by
    have hsame : s.producer.notified.concluding = s.producer.concluding := by
      cases s.producer <;> rfl
    exact h.concluding.trans hsame.symm
  exhausted := h.exhausted
  asleep j hj := absurd hj (notified_ne_asleep _)
  blocked item hp := by
    have hne : s.producer.notified ≠ .asleep item := by cases s.producer <;> exact nofun
    exact absurd hp hne
  raised j item hj := h.raised j item (hj.imp (eq_of_notified · nofun) (eq_of_notified · nofun))
  unwound herr := by
    obtain ⟨h₁, h₂, h₃, h₄⟩ := h.unwound herr
    show s.producer.notified ≠ _ ∧ s.producer.notified ≠ _ ∧ s.producer.notified ≠ _ ∧
      s.producer.notified ≠ _
    revert h₁ h₂ h₃ h₄
    cases s.producer <;> simp [SchedulerProducer.notified]
  finished hp j := by
    have hproducer : s.producer = .finished := by
      revert hp
      show s.producer.notified = _ → _
      cases s.producer <;> simp [SchedulerProducer.notified]
    show (s.channels j).worker.notified = .exited
    rw [h.finished hproducer j]
    rfl

include hsize in
theorem Inv.pending_le (h : s.Inv items) (k : Fin n) : (s.channels k).pendingBytes ≤ u64Max :=
  (h.channelBound k).trans (max_le (by decide) (largestPayload_le hsize))

/-- A worker goes from one place in its code to another. -/
theorem Inv.setWorker (h : s.Inv items) {worker : SchedulerWorker}
    (hflight : worker.inFlight = (s.channels k).worker.inFlight)
    (hunsent : worker.unsent = (s.channels k).worker.unsent)
    (hdry : worker = .asleep ∨ worker.closing = true → (s.channels k).queue = [])
    (hclosing : worker.closing = true → s.finishing = true)
    (hasleep : worker = .asleep → s.finishing = false) (hexited : worker ≠ .exited)
    (hsettled : s.producer = s.producer.notified ∨ (s.channels k).worker ≠ .settled)
    (hraised : ∀ item, worker = .raising item ∨ worker = .failed item → s.error ≠ none)
    (hfinished : (s.channels k).worker ≠ .exited) :
    (s.setChannel k { s.channels k with worker := worker }).Inv items := by
  refine h.setChannel ⟨?_, hdry, fun hw => absurd hw hexited⟩ le_rfl ?_ hclosing hasleep ?_ hraised
    fun hp => absurd (h.finished hp k) hfinished
  · show (s.channels k).pendingBytes = payloadBytes (worker.inFlight ++ (s.channels k).queue)
    rw [hflight]
    exact (h.channel k).pending
  · show (((s.channels k).sent ++ worker.unsent ++ (s.channels k).queue : List SendItem) :
      Multiset SendItem) = _
    rw [hunsent]
    rfl
  · intro item hp
    rcases hsettled with hnot | hw
    · rw [hp] at hnot
      cases hnot
    · exact .inr ⟨hw, rfl⟩

theorem Inv.setError (h : s.Inv items) (error : KikoError) :
    ({ s with error := some error } : MuxSendScheduler n).Inv items :=
  { h with
    placed := nofun
    exhausted := nofun
    blocked := fun _ _ => .inr (.inr nofun)
    raised := fun _ _ _ => nofun
    unwound := nofun }

include hsize in
/-- What a worker does. -/
theorem Inv.workerStep (h : s.Inv items) {op : SchedulerOp n} (hs : s.workerStep k op = some s') :
    s'.Inv items := by
  cases op with
  | take _ =>
    simp only [MuxSendScheduler.workerStep] at hs
    split at hs
    next item queue hw herr hq =>
      obtain rfl := Option.some.inj hs
      have hne : (s.channels k).worker ≠ .exited := by rw [hw]; exact nofun
      have hpending := (h.channel k).pending
      rw [hw, hq] at hpending
      refine h.setChannel ⟨hpending, ?_, nofun⟩ le_rfl ?_ nofun nofun ?_ ?_
        fun hp => absurd (h.finished hp k) hne
      · rintro (hc | hc) <;> cases hc
      · show (((s.channels k).sent ++ [item] ++ queue : List SendItem) : Multiset SendItem) =
          ((s.channels k).sent ++ (s.channels k).worker.unsent ++ (s.channels k).queue : List SendItem)
        rw [hw, hq]
        simp [SchedulerWorker.unsent]
      · exact fun _ _ => .inr ⟨by rw [hw]; exact nofun, rfl⟩
      · rintro _ (hc | hc) <;> cases hc
    next => cases hs
  -- The queue is empty and the flag is set: the worker ends. Nothing moves but its place.
  | leave _ =>
    simp only [MuxSendScheduler.workerStep] at hs
    split at hs
    next hw herr hq hfin =>
      obtain rfl := Option.some.inj hs
      refine h.setWorker ?_ ?_ (fun _ => hq) (fun _ => hfin) nofun nofun ?_ ?_ ?_
      · rw [hw]; rfl
      · rw [hw]; rfl
      · exact .inr (by rw [hw]; exact nofun)
      · rintro _ (hc | hc) <;> cases hc
      · rw [hw]; exact nofun
    next => cases hs
  -- It has just seen an empty queue and no flag: that is what the invariant asks of a sleeper.
  | sleep _ =>
    simp only [MuxSendScheduler.workerStep] at hs
    split at hs
    next hw herr hq hfin =>
      obtain rfl := Option.some.inj hs
      refine h.setWorker ?_ ?_ (fun _ => hq) nofun (fun _ => hfin) nofun ?_ ?_ ?_
      · rw [hw]; rfl
      · rw [hw]; rfl
      · exact .inr (by rw [hw]; exact nofun)
      · rintro _ (hc | hc) <;> cases hc
      · rw [hw]; exact nofun
    next => cases hs
  -- Somebody has failed. Whatever is queued stays where it is, and nothing is owed any more.
  | abort _ =>
    simp only [MuxSendScheduler.workerStep] at hs
    split at hs
    next error hw herr =>
      obtain rfl := Option.some.inj hs
      refine h.setWorker ?_ ?_ ?_ nofun nofun nofun ?_ ?_ ?_
      · rw [hw]; rfl
      · rw [hw]; rfl
      · rintro (hc | hc) <;> cases hc
      · exact .inr (by rw [hw]; exact nofun)
      · exact fun _ _ => by rw [herr]; exact nofun
      · rw [hw]; exact nofun
    next => cases hs
  | send _ =>
    simp only [MuxSendScheduler.workerStep] at hs
    split at hs
    next item hw =>
      obtain rfl := Option.some.inj hs
      have hne : (s.channels k).worker ≠ .exited := by rw [hw]; exact nofun
      have hpending := (h.channel k).pending
      rw [hw] at hpending
      refine h.setChannel ⟨hpending, ?_, nofun⟩ le_rfl ?_ nofun nofun ?_ ?_
        fun hp => absurd (h.finished hp k) hne
      · rintro (hc | hc) <;> cases hc
      · show (((s.channels k).sent ++ [item] ++ [] ++ (s.channels k).queue : List SendItem) :
            Multiset SendItem) =
          ((s.channels k).sent ++ (s.channels k).worker.unsent ++ (s.channels k).queue : List SendItem)
        rw [hw]
        simp [SchedulerWorker.unsent]
      · exact fun _ _ => .inr ⟨by rw [hw]; exact nofun, rfl⟩
      · rintro _ (hc | hc) <;> cases hc
    next => cases hs
  | settle _ =>
    simp only [MuxSendScheduler.workerStep] at hs
    split at hs
    next item hw =>
      obtain rfl := Option.some.inj hs
      have hne : (s.channels k).worker ≠ .exited := by rw [hw]; exact nofun
      obtain ⟨-, -, hsettle⟩ := (h.channel k).settle_eq hw (h.pending_le hsize k)
      have hpending := (h.channel k).pending
      rw [hw] at hpending
      rw [hsettle]
      refine h.setChannel ⟨rfl, ?_, nofun⟩ ?_ ?_ nofun nofun ?_ ?_
        fun hp => absurd (h.finished hp k) hne
      · rintro (hc | hc) <;> cases hc
      · show payloadBytes (s.channels k).queue ≤ (s.channels k).pendingBytes
        rw [hpending]
        exact Nat.le_add_left _ _
      · show (((s.channels k).sent ++ [] ++ (s.channels k).queue : List SendItem) :
            Multiset SendItem) =
          ((s.channels k).sent ++ (s.channels k).worker.unsent ++ (s.channels k).queue : List SendItem)
        rw [hw]
        rfl
      · exact fun _ _ => .inl rfl
      · rintro _ (hc | hc) <;> cases hc
    next => cases hs
  | notify _ =>
    simp only [MuxSendScheduler.workerStep] at hs
    split at hs
    next hw =>
      obtain rfl := Option.some.inj hs
      have hsame : s.notifyAll.channels k = s.channels k := by
        show { s.channels k with worker := (s.channels k).worker.notified } = s.channels k
        rw [hw]
        exact congrArg (fun w => { s.channels k with worker := w }) hw.symm
      rw [← hsame]
      refine h.notifyAll.setWorker ?_ ?_ ?_ nofun nofun nofun (.inl ?_) ?_ ?_
      · rw [hsame, hw]; rfl
      · rw [hsame, hw]; rfl
      · rintro (hc | hc) <;> cases hc
      · show s.producer.notified = s.producer.notified.notified
        cases s.producer <;> rfl
      · rintro _ (hc | hc) <;> cases hc
      · rw [hsame, hw]; exact nofun
    next => cases hs
  | sendEnd _ =>
    simp only [MuxSendScheduler.workerStep] at hs
    split at hs
    next hw =>
      obtain rfl := Option.some.inj hs
      have hclose : (s.channels k).worker.closing = true := by rw [hw]; rfl
      have hpending := (h.channel k).pending
      rw [hw] at hpending
      refine h.setChannel ⟨hpending, ?_, fun _ => rfl⟩ le_rfl ?_ ?_ nofun ?_ ?_ fun _ => rfl
      · exact fun _ => (h.channel k).dry (.inr hclose)
      · show (((s.channels k).sent ++ [] ++ (s.channels k).queue : List SendItem) :
            Multiset SendItem) =
          ((s.channels k).sent ++ (s.channels k).worker.unsent ++ (s.channels k).queue : List SendItem)
        rw [hw]
        rfl
      · exact fun _ => h.closing k hclose
      · exact fun _ _ => .inr ⟨by rw [hw]; exact nofun, rfl⟩
      · rintro _ (hc | hc) <;> cases hc
    next => cases hs
  | fail _ error =>
    have herror := h.setError (s.error.getD error)
    simp only [MuxSendScheduler.workerStep] at hs
    split at hs
    next item hw =>
      obtain rfl := Option.some.inj hs
      refine herror.setWorker ?_ ?_ ?_ nofun nofun nofun ?_ (fun _ _ => nofun) ?_
      · show [item] = (s.channels k).worker.inFlight
        rw [hw]; rfl
      · show [item] = (s.channels k).worker.unsent
        rw [hw]; rfl
      · rintro (hc | hc) <;> cases hc
      · exact .inr (by rw [hw]; exact nofun)
      · rw [hw]; exact nofun
    next hw =>
      obtain rfl := Option.some.inj hs
      refine herror.setWorker ?_ ?_ ?_ nofun nofun nofun ?_ (fun _ _ => nofun) ?_
      · show [] = (s.channels k).worker.inFlight
        rw [hw]; rfl
      · show [] = (s.channels k).worker.unsent
        rw [hw]; rfl
      · rintro (hc | hc) <;> cases hc
      · exact .inr (by rw [hw]; exact nofun)
      · rw [hw]; exact nofun
    next => cases hs
  | raise _ =>
    simp only [MuxSendScheduler.workerStep] at hs
    split at hs
    next item hw =>
      obtain rfl := Option.some.inj hs
      have hsame : s.notifyAll.channels k = s.channels k := by
        show { s.channels k with worker := (s.channels k).worker.notified } = s.channels k
        rw [hw]
        exact congrArg (fun w => { s.channels k with worker := w }) hw.symm
      rw [← hsame]
      refine h.notifyAll.setWorker ?_ ?_ ?_ nofun nofun nofun (.inl ?_) ?_ ?_
      · rw [hsame, hw]; rfl
      · rw [hsame, hw]; rfl
      · rintro (hc | hc) <;> cases hc
      · show s.producer.notified = s.producer.notified.notified
        cases s.producer <;> rfl
      · exact fun _ _ => h.raised k item (.inl hw)
      · rw [hsame, hw]; exact nofun
    next => cases hs
  | wakeWorker _ =>
    simp only [MuxSendScheduler.workerStep] at hs
    split at hs
    next hw =>
      obtain rfl := Option.some.inj hs
      refine h.setWorker ?_ ?_ ?_ nofun nofun nofun ?_ ?_ ?_
      · rw [hw]; rfl
      · rw [hw]; rfl
      · rintro (hc | hc) <;> cases hc
      · exact .inr (by rw [hw]; exact nofun)
      · rintro _ (hc | hc) <;> cases hc
      · rw [hw]; exact nofun
    next => cases hs
  | call => cases hs
  | enqueue _ => cases hs
  | block => cases hs
  | rethrow => cases hs
  | finish => cases hs
  | announce => cases hs
  | join => cases hs
  | wakeProducer => cases hs

/-- The caller goes from one place in its code to another, its workers stay where they are. -/
theorem Inv.setProducer (h : s.Inv items) {producer : SchedulerProducer} {calls : List SendItem}
    (hheld : s.error = none → producer.held ++ calls = s.producer.held ++ s.calls)
    (hconcluding : s.finishing = producer.concluding)
    (hcalls : s.finishing = true → calls = s.calls)
    (hasleep : s.finishing = true → ∀ k, (s.channels k).worker ≠ .asleep)
    (hblocked : ∀ item, producer = .asleep item → ∀ k, ¬ s.ready item.payload.length k)
    (hunwound : s.error = none → producer ≠ .unwinding ∧ producer ≠ .threw ∧
      producer ≠ .announcing true ∧ producer ≠ .joining true)
    (hfinished : producer = .finished → ∀ k, (s.channels k).worker = .exited) :
    ({ s with producer := producer, calls := calls } : MuxSendScheduler n).Inv items :=
  { h with
    placed := fun herr => by
      show s.placed + ((producer.held ++ calls : List SendItem) : Multiset SendItem) = _
      rw [hheld herr]
      exact h.placed herr
    concluding := hconcluding
    exhausted := fun herr hfin => by
      show calls = []
      rw [hcalls hfin]
      exact h.exhausted herr hfin
    asleep := fun k hk hfin => absurd hk (hasleep hfin k)
    blocked := fun item hp => .inl (hblocked item hp)
    unwound := hunwound
    finished := hfinished }

/-- `finish` sets its flag. -/
theorem Inv.setFinishing (h : s.Inv items) {threw : Bool} (hheld : s.producer.held = [])
    (herr : s.error = none → s.calls = [] ∧ threw = false) :
    ({ s with producer := .announcing threw, finishing := true } : MuxSendScheduler n).Inv items :=
  { h with
    placed := fun hnone => by
      have hplaced := h.placed hnone
      rw [hheld] at hplaced
      exact hplaced
    closing := fun _ _ => rfl
    concluding := rfl
    exhausted := fun hnone _ => (herr hnone).1
    asleep := fun _ _ _ => ⟨threw, rfl⟩
    blocked := nofun
    unwound := fun hnone => by
      rw [(herr hnone).2]
      exact ⟨nofun, nofun, nofun, nofun⟩
    finished := nofun }

include hsize in
/-- A payload is queued on a channel that has room for it. -/
theorem Inv.enqueue (h : s.Inv items) {item : SendItem} (hp : s.producer = .enqueuing item)
    (herr : s.error = none) (hready : s.ready item.payload.length k) :
    ({ s.notifyAll.setChannel k ((s.notifyAll.channels k).push item) with producer := .idle } :
      MuxSendScheduler n).Inv items := by
  have hmem : item ∈ items := by
    have hplaced := h.placed herr
    rw [hp] at hplaced
    rw [← Multiset.mem_coe, ← hplaced, Multiset.mem_add, Multiset.mem_coe]
    exact .inr List.mem_cons_self
  have hfin : s.finishing = false := by
    rw [h.concluding, hp]
    rfl
  have hlargest : item.payload.length ≤ largestPayload items := length_le_largestPayload hmem
  obtain ⟨hglobal, hgle, hlocal, hlle⟩ := subU64_limits n (hsize item hmem)
  obtain ⟨htotal, hpend⟩ := hready
  rw [h.totalPending_eq hsize, hglobal] at htotal
  rw [hlocal] at hpend
  -- The room was looked at under the same lock, so it is still there: neither sum exceeds its
  -- limit.
  have hbound : (s.channels k).pendingBytes + item.payload.length ≤
      max kMaxPendingPerChannel (largestPayload items) := by
    have : channelLimit item.payload.length ≤ max kMaxPendingPerChannel (largestPayload items) :=
      max_le_max le_rfl hlargest
    exact (Nat.add_le_of_le_sub hlle hpend).trans this
  have htotalBound : (∑ j, (s.channels j).pendingBytes) + item.payload.length ≤
      max (n * kMaxPendingPerChannel % 2 ^ 64) (largestPayload items) := by
    have : globalLimit n item.payload.length ≤
        max (n * kMaxPendingPerChannel % 2 ^ 64) (largestPayload items) :=
      max_le_max le_rfl hlargest
    exact (Nat.add_le_of_le_sub hgle htotal).trans this
  -- No worker has left its loop yet, since the flag is not set.
  have hclosing : (s.channels k).worker.closing ≠ true := by
    intro hc
    rw [h.closing k hc] at hfin
    cases hfin
  have hfit : (s.channels k).pendingBytes + item.payload.length ≤ u64Max :=
    hbound.trans (max_le (by decide) (largestPayload_le hsize))
  have h := h.notifyAll
  -- the channel after the push, its sum in exact numbers
  have hpush : (s.notifyAll.channels k).push item = { s.notifyAll.channels k with
      queue := (s.notifyAll.channels k).queue ++ [item]
      pendingBytes := (s.channels k).pendingBytes + item.payload.length } := by
    unfold SchedulerChannel.push
    rw [show (s.notifyAll.channels k).pendingBytes = (s.channels k).pendingBytes from rfl,
      addU64_eq hfit]
  rw [hpush]
  generalize hchannel : ({ s.notifyAll.channels k with
      queue := (s.notifyAll.channels k).queue ++ [item]
      pendingBytes := (s.channels k).pendingBytes + item.payload.length } : SchedulerChannel) = channel
  have hpending : channel.pendingBytes = (s.channels k).pendingBytes + item.payload.length := by
    rw [← hchannel]
  have hworker : channel.worker = (s.channels k).worker.notified := by
    rw [← hchannel]
    rfl
  have hinv : channel.Inv := by
    refine ⟨?_, ?_, ?_⟩
    · have hold := (h.channel k).pending
      rw [← hchannel]
      show (s.channels k).pendingBytes + item.payload.length =
        payloadBytes ((s.notifyAll.channels k).worker.inFlight ++
          ((s.notifyAll.channels k).queue ++ [item]))
      have hsame : (s.channels k).pendingBytes = (s.notifyAll.channels k).pendingBytes := rfl
      rw [hsame, hold, ← List.append_assoc]
      simp [payloadBytes, Nat.add_assoc]
    · rw [hworker]
      rintro (hw | hw)
      · exact absurd hw (notified_ne_asleep _)
      · exact absurd ((closing_notified _).symm.trans hw) hclosing
    · rw [hworker]
      intro hw
      exact absurd (by rw [eq_of_notified hw nofun]; rfl) hclosing
  have hworkers : ∀ j, ((s.notifyAll.setChannel k channel).channels j).worker =
      (s.notifyAll.channels j).worker :=
    forall_setChannel (P := fun j c => c.worker = (s.notifyAll.channels j).worker)
      (fun _ => rfl) hworker
  exact {
    channel := forall_setChannel h.channel hinv
    channelBound := by
      refine forall_setChannel (P := fun _ c => c.pendingBytes ≤ _) h.channelBound ?_
      rwa [hpending]
    totalBound := by
      have hsum := sum_pending_setChannel s.notifyAll k channel
      rw [hpending, Nat.add_comm (s.channels k).pendingBytes, ← Nat.add_assoc] at hsum
      show ∑ j, ((s.notifyAll.setChannel k channel).channels j).pendingBytes ≤ _
      exact (Nat.add_right_cancel hsum).trans_le htotalBound
    placed := fun _ => by
      have hplaced := h.placed herr
      have hsum := placed_setChannel s.notifyAll k channel
      have hitem : channel.placed = (s.notifyAll.channels k).placed + {item} := by
        rw [← hchannel]
        show ((_ ++ _ ++ ((s.notifyAll.channels k).queue ++ [item]) : List SendItem) :
          Multiset SendItem) = _
        rw [← List.append_assoc, ← Multiset.coe_add, Multiset.coe_singleton]
        rfl
      rw [hitem, ← add_assoc, add_right_comm] at hsum
      have hheld : s.notifyAll.producer.held = [item] := by
        show s.producer.notified.held = [item]
        rw [hp]
        rfl
      rw [hheld] at hplaced
      show (s.notifyAll.setChannel k channel).placed + ((s.calls : List SendItem) :
        Multiset SendItem) = _
      rw [add_right_cancel hsum, add_assoc, ← hplaced]
      rfl
    closing := fun j hj => h.closing j (hworkers j ▸ hj)
    concluding := hfin
    exhausted := fun _ hf => by
      have hf : s.finishing = true := hf
      rw [hfin] at hf
      cases hf
    asleep := fun j hj _ => by
      have hj := (hworkers j).symm.trans hj
      exact absurd hj (notified_ne_asleep _)
    blocked := nofun
    raised := fun j i hj => h.raised j i (by rwa [hworkers j] at hj)
    unwound := fun _ => ⟨nofun, nofun, nofun, nofun⟩
    finished := nofun }

include hsize in
/-- What the caller does. -/
theorem Inv.producerStep (h : s.Inv items) {op : SchedulerOp n} (hs : s.producerStep op = some s') :
    s'.Inv items := by
  cases op with
  | call =>
    simp only [MuxSendScheduler.producerStep] at hs
    split at hs
    next item calls hp hcalls =>
      obtain rfl := Option.some.inj hs
      have hfin : s.finishing = false := by rw [h.concluding, hp]; rfl
      refine h.setProducer ?_ hfin ?_ ?_ nofun ?_ nofun
      · intro _
        rw [hp, hcalls]
        rfl
      · intro hf
        rw [hfin] at hf
        cases hf
      · intro hf
        rw [hfin] at hf
        cases hf
      · exact fun _ => ⟨nofun, nofun, nofun, nofun⟩
    next => cases hs
  | enqueue k =>
    simp only [MuxSendScheduler.producerStep] at hs
    split at hs
    next item hp =>
      split_ifs at hs with hready
      obtain rfl := Option.some.inj hs
      exact h.enqueue hsize hp hready.1 hready.2
    next => cases hs
  -- No channel has room: that is kept as what the caller has seen when it falls asleep.
  | block =>
    simp only [MuxSendScheduler.producerStep] at hs
    split at hs
    next item hp =>
      split_ifs at hs with hnone
      obtain rfl := Option.some.inj hs
      have hfin : s.finishing = false := by rw [h.concluding, hp]; rfl
      refine h.setProducer (fun _ => by rw [hp]; rfl) hfin (fun _ => rfl) ?_ ?_ ?_ nofun
      · intro hf
        rw [hfin] at hf
        cases hf
      · rintro _ ⟨⟩
        exact hnone.2
      · exact fun _ => ⟨nofun, nofun, nofun, nofun⟩
    next => cases hs
  -- With an error set the accounting clauses hold for want of their hypothesis.
  | rethrow =>
    simp only [MuxSendScheduler.producerStep] at hs
    split at hs
    next item error hp herr =>
      obtain rfl := Option.some.inj hs
      have hfin : s.finishing = false := by rw [h.concluding, hp]; rfl
      refine h.setProducer ?_ hfin (fun _ => rfl) ?_ nofun ?_ nofun
      · intro hnone
        rw [herr] at hnone
        cases hnone
      · intro hf
        rw [hfin] at hf
        cases hf
      · intro hnone
        rw [herr] at hnone
        cases hnone
    next => cases hs
  | finish =>
    simp only [MuxSendScheduler.producerStep] at hs
    split at hs
    next hp hcalls =>
      obtain rfl := Option.some.inj hs
      exact h.setFinishing (by rw [hp]; rfl) fun _ => ⟨hcalls, rfl⟩
    next hp =>
      obtain rfl := Option.some.inj hs
      exact h.setFinishing (by rw [hp]; rfl) fun herr => absurd hp (h.unwound herr).1
    next => cases hs
  | announce =>
    simp only [MuxSendScheduler.producerStep] at hs
    split at hs
    next threw hp =>
      obtain rfl := Option.some.inj hs
      have h' := h.notifyAll
      have hfin : s.finishing = true := by rw [h.concluding, hp]; rfl
      have hproducer : s.notifyAll.producer = .announcing threw := by
        show s.producer.notified = _
        rw [hp]
        rfl
      refine h'.setProducer ?_ hfin (fun _ => rfl) ?_ nofun ?_ nofun
      · intro _
        rw [hproducer]
        rfl
      · exact fun _ j => notified_ne_asleep _
      · intro herr
        obtain ⟨-, -, hne, -⟩ := h.unwound herr
        refine ⟨nofun, nofun, nofun, ?_⟩
        intro heq
        cases heq
        exact hne hp
    next => cases hs
  | join =>
    simp only [MuxSendScheduler.producerStep] at hs
    split at hs
    next threw hp =>
      have hfin : s.finishing = true := by rw [h.concluding, hp]; rfl
      by_cases hstop : ∀ k, (s.channels k).worker.stopped = true
      swap
      · rw [if_neg hstop] at hs
        cases hs
      rw [if_pos hstop] at hs
      obtain rfl := Option.some.inj hs
      have hnosleep : s.finishing = true → ∀ k, (s.channels k).worker ≠ .asleep := by
        intro _ k hk
        have := hstop k
        rw [hk] at this
        cases this
      by_cases hbad : threw = true ∨ s.error ≠ none
      · rw [if_pos hbad]
        refine h.setProducer (fun _ => by rw [hp]; rfl) hfin (fun _ => rfl) hnosleep nofun ?_ nofun
        intro herr
        obtain ⟨-, -, -, hne⟩ := h.unwound herr
        rcases hbad with rfl | hbad
        · exact absurd hp hne
        · exact absurd herr hbad
      · rw [if_neg hbad]
        refine h.setProducer (fun _ => by rw [hp]; rfl) hfin (fun _ => rfl) hnosleep nofun
          (fun _ => ⟨nofun, nofun, nofun, nofun⟩) fun _ k => ?_
        rw [not_or, not_not] at hbad
        have hk := hstop k
        cases hw : (s.channels k).worker with
        | exited => rfl
        | failed item => exact absurd hbad.2 (h.raised k item (.inr hw))
        | waiting | asleep | sending | sent | settled | ending | raising =>
          rw [hw] at hk
          cases hk
    next => cases hs
  | wakeProducer =>
    simp only [MuxSendScheduler.producerStep] at hs
    split at hs
    next item hp =>
      obtain rfl := Option.some.inj hs
      have hfin : s.finishing = false := by rw [h.concluding, hp]; rfl
      refine h.setProducer (fun _ => by rw [hp]; rfl) hfin (fun _ => rfl) ?_ nofun ?_ nofun
      · intro hf
        rw [hfin] at hf
        cases hf
      · exact fun _ => ⟨nofun, nofun, nofun, nofun⟩
    next => cases hs
  | take _ | leave _ | sleep _ | abort _ | send _ | settle _ | notify _ | sendEnd _ | fail _ _
  | raise _ | wakeWorker _ => cases hs

include hsize in
theorem Inv.step (h : s.Inv items) {op : SchedulerOp n} (hs : s.step op = some s') :
    s'.Inv items := by
  unfold MuxSendScheduler.step at hs
  cases op with
  | call | enqueue _ | block | rethrow | finish | announce | join | wakeProducer =>
    exact h.producerStep hsize hs
  | take _ | leave _ | sleep _ | abort _ | send _ | settle _ | notify _ | sendEnd _ | fail _ _
  | raise _ | wakeWorker _ => exact h.workerStep hsize hs

/-! ## Nobody is stuck

Suppose nobody can go on by a regular step. Then every worker is asleep or done
(`asleep_or_exited`), so nothing is in flight; what is asleep has an empty queue, so nothing is
pending and every channel has room (`Inv.ready_drained`); so the caller cannot be waiting for
room, and is at the end of its calls. -/

/-- Nothing is queued and nothing is in flight. -/
def Drained (s : MuxSendScheduler n) : Prop :=
  ∀ k, (s.channels k).queue = [] ∧ (s.channels k).worker.inFlight = []

theorem Inv.pending_drained (h : s.Inv items) (hd : s.Drained) (k : Fin n) :
    (s.channels k).pendingBytes = 0 := by
  obtain ⟨hqueue, hflight⟩ := hd k
  rw [(h.channel k).pending, hqueue, hflight]
  rfl

/-- Once everything has drained, every channel has room for any payload. -/
theorem Inv.ready_drained (h : s.Inv items) (hd : s.Drained) (size : Nat) (k : Fin n) :
    s.ready size k := by
  have htotal : s.totalPending = 0 := by
    unfold MuxSendScheduler.totalPending
    rw [Finset.sum_eq_zero fun j _ => h.pending_drained hd j, Nat.zero_mod]
  refine ⟨?_, ?_⟩
  · rw [htotal]
    exact Nat.zero_le _
  · rw [h.pending_drained hd k]
    exact Nat.zero_le _

/-- Where no worker can go on, each is asleep or done. -/
theorem asleep_or_exited (h : s.Inv items) (herr : s.error = none)
    (hstuck : ∀ op : SchedulerOp n, op.regular = true → s.step op = none) (k : Fin n) :
    (s.channels k).worker = .asleep ∨ (s.channels k).worker = .exited := by
  cases hw : (s.channels k).worker with
  | asleep => exact .inl rfl
  | exited => exact .inr rfl
  | waiting =>
    cases hq : (s.channels k).queue with
    | cons item queue =>
      have hnone := hstuck (.take k) rfl
      simp [MuxSendScheduler.step, MuxSendScheduler.workerStep, hw, herr, hq] at hnone
    | nil =>
      cases hfin : s.finishing with
      | true =>
        have hnone := hstuck (.leave k) rfl
        simp [MuxSendScheduler.step, MuxSendScheduler.workerStep, hw, herr, hq, hfin] at hnone
      | false =>
        have hnone := hstuck (.sleep k) rfl
        simp [MuxSendScheduler.step, MuxSendScheduler.workerStep, hw, herr, hq, hfin] at hnone
  | sending item =>
    have hnone := hstuck (.send k) rfl
    simp [MuxSendScheduler.step, MuxSendScheduler.workerStep, hw] at hnone
  | sent item =>
    have hnone := hstuck (.settle k) rfl
    simp [MuxSendScheduler.step, MuxSendScheduler.workerStep, hw] at hnone
  | settled =>
    have hnone := hstuck (.notify k) rfl
    simp [MuxSendScheduler.step, MuxSendScheduler.workerStep, hw] at hnone
  | ending =>
    have hnone := hstuck (.sendEnd k) rfl
    simp [MuxSendScheduler.step, MuxSendScheduler.workerStep, hw] at hnone
  | raising item => exact absurd herr (h.raised k item (.inl hw))
  | failed item => exact absurd herr (h.raised k item (.inr hw))

/-- Where nobody can go on, the caller's `finish` has returned. -/
theorem finished_of_stuck (hn : 0 < n) (h : s.Inv items) (herr : s.error = none)
    (hstuck : ∀ op : SchedulerOp n, op.regular = true → s.step op = none) :
    s.producer = .finished := by
  have hworker := asleep_or_exited h herr hstuck
  cases hp : s.producer with
  | finished => rfl
  | idle =>
    cases hcalls : s.calls with
    | cons item calls =>
      have hnone := hstuck .call rfl
      simp [MuxSendScheduler.step, MuxSendScheduler.producerStep, hp, hcalls] at hnone
    | nil =>
      have hnone := hstuck .finish rfl
      simp [MuxSendScheduler.step, MuxSendScheduler.producerStep, hp, hcalls] at hnone
  | enqueuing item =>
    by_cases hready : ∃ k, s.ready item.payload.length k
    · obtain ⟨k, hk⟩ := hready
      have hnone := hstuck (.enqueue k) rfl
      simp [MuxSendScheduler.step, MuxSendScheduler.producerStep, hp, herr, hk] at hnone
    · have hnone := hstuck .block rfl
      simp only [not_exists] at hready
      simp [MuxSendScheduler.step, MuxSendScheduler.producerStep, hp, herr, hready] at hnone
  | asleep item =>
    -- then every worker is asleep with an empty queue, and there is room
    exfalso
    have hfin : s.finishing = false := by
      rw [h.concluding, hp]
      rfl
    have hasleep : ∀ k, (s.channels k).worker = .asleep := by
      intro k
      rcases hworker k with hw | hw
      · exact hw
      · have := h.closing k (by rw [hw]; rfl)
        rw [hfin] at this
        cases this
    have hdrained : s.Drained := by
      intro k
      refine ⟨(h.channel k).dry (.inl (hasleep k)), ?_⟩
      rw [hasleep k]
      rfl
    rcases h.blocked item hp with hfull | ⟨k, hk⟩ | hne
    · exact hfull ⟨0, hn⟩ (h.ready_drained hdrained _ _)
    · rw [hasleep k] at hk
      cases hk
    · exact hne herr
  | unwinding => exact absurd hp (h.unwound herr).1
  | announcing threw =>
    have hnone := hstuck .announce rfl
    simp [MuxSendScheduler.step, MuxSendScheduler.producerStep, hp] at hnone
  | joining threw =>
    exfalso
    have hfin : s.finishing = true := by
      rw [h.concluding, hp]
      rfl
    have hstop : ∀ k, (s.channels k).worker.stopped = true := by
      intro k
      rcases hworker k with hw | hw
      · obtain ⟨_, hannouncing⟩ := h.asleep k hw hfin
        rw [hp] at hannouncing
        cases hannouncing
      · rw [hw]
        rfl
    have hnone := hstuck .join rfl
    simp [MuxSendScheduler.step, MuxSendScheduler.producerStep, hp, hstop] at hnone
  | threw => exact absurd hp (h.unwound herr).2.1

/-- When `finish` has returned, everything has been sent. -/
theorem Inv.sent_of_finished (h : s.Inv items) (herr : s.error = none)
    (hp : s.producer = .finished) :
    (∑ k, ((s.channels k).sent : Multiset SendItem)) = (items : Multiset SendItem) ∧
      ∀ k, (s.channels k).worker = .exited ∧ (s.channels k).ended = true := by
  have hexited := h.finished hp
  have hplaced := h.placed herr
  have hfin : s.finishing = true := by
    rw [h.concluding, hp]
    rfl
  rw [hp, h.exhausted herr hfin] at hplaced
  refine ⟨?_, fun k => ⟨hexited k, (h.channel k).ended (hexited k)⟩⟩
  rw [← hplaced]
  have hall : s.placed = ∑ k, ((s.channels k).sent : Multiset SendItem) := by
    refine Finset.sum_congr rfl fun k _ => ?_
    have hqueue : (s.channels k).queue = [] := (h.channel k).dry (.inr (by rw [hexited k]; rfl))
    unfold SchedulerChannel.placed
    rw [hexited k, hqueue]
    simp [SchedulerWorker.unsent]
  rw [hall]
  exact (add_zero _).symm

/-- **The scheduler accounts for what is pending, and goes on.** In every state reached over any
    number of channels (`send_files_mux` refuses none at all), whatever the payloads: each
    channel's `pending_bytes` is what is queued and in flight on it; no payload size is taken
    from a limit or a counter that is less; what is pending is within the limits, of the channel
    and of all of them; a caller that waits finds room in every channel once all have drained,
    and somebody is about to tell it; and unless a send has failed, somebody can go on, or
    everything has been sent. -/
theorem scheduler_progress (hn : 0 < n) {items : List SendItem}
    (hsize : ∀ item ∈ items, item.payload.length ≤ u64Max) {s : MuxSendScheduler n}
    (hr : Lts.Reach MuxSendScheduler.step (start n items) s) :
    (∀ k, (s.channels k).pendingBytes =
      payloadBytes ((s.channels k).worker.inFlight ++ (s.channels k).queue)) ∧
    (∀ size ≤ u64Max,
      subU64 (globalLimit n size) size = globalLimit n size - size ∧ size ≤ globalLimit n size ∧
      subU64 (channelLimit size) size = channelLimit size - size ∧ size ≤ channelLimit size) ∧
    (∀ k item, (s.channels k).worker = .sent item →
      item.payload.length ≤ (s.channels k).pendingBytes ∧
      subU64 (s.channels k).pendingBytes (min (s.channels k).pendingBytes item.payload.length) =
        (s.channels k).pendingBytes - item.payload.length) ∧
    s.totalPending = ∑ k, (s.channels k).pendingBytes ∧
    (∀ k, (s.channels k).pendingBytes ≤ max kMaxPendingPerChannel (largestPayload items)) ∧
    s.totalPending ≤ max (n * kMaxPendingPerChannel % 2 ^ 64) (largestPayload items) ∧
    (∀ item, s.producer = .enqueuing item ∨ s.producer = .asleep item → s.Drained →
      (∀ k, s.ready item.payload.length k) ∧
      (s.producer = .asleep item → s.error = none → ∃ k, (s.channels k).worker = .settled)) ∧
    (s.error = none →
      (∃ op : SchedulerOp n, op.regular = true ∧ (s.step op).isSome = true) ∨
      (∑ k, ((s.channels k).sent : Multiset SendItem)) = (items : Multiset SendItem) ∧
        ∀ k, (s.channels k).worker = .exited ∧ (s.channels k).ended = true) := by
  have h : s.Inv items := hr.invariant (start_inv n items) fun h _ hs => h.step hsize hs
  refine ⟨fun k => (h.channel k).pending, fun size hle => subU64_limits n hle, ?_,
    h.totalPending_eq hsize, h.channelBound, ?_, ?_, ?_⟩
  · intro k item hw
    obtain ⟨hle, hsub, -⟩ := (h.channel k).settle_eq hw (h.pending_le hsize k)
    exact ⟨hle, hsub⟩
  · rw [h.totalPending_eq hsize]
    exact h.totalBound
  · intro item _ hd
    refine ⟨fun k => h.ready_drained hd _ k, fun hp herr => ?_⟩
    -- a drained scheduler has room in every channel, so a sleeper must have been settled for
    rcases h.blocked item hp with hfull | hsettled | hne
    · exact absurd (h.ready_drained hd _ _) (hfull ⟨0, hn⟩)
    · exact hsettled
    · exact absurd herr hne
  · intro herr
    -- a scheduler that can go on needs no more; one that cannot has sent everything
    by_cases hgo : ∃ op : SchedulerOp n, op.regular = true ∧ (s.step op).isSome = true
    · exact .inl hgo
    · have hstuck : ∀ op : SchedulerOp n, op.regular = true → s.step op = none := by
        intro op hop
        rw [← Option.not_isSome_iff_eq_none]
        exact fun hsome => hgo ⟨op, hop, hsome⟩
      exact .inr (h.sent_of_finished herr (finished_of_stuck hn h herr hstuck))

/-- Two payloads over two channels: the worker of the second sleeps when its channel is chosen,
    and the first item is in flight. -/
def twoPayloads : List SendItem := [⟨[1, 2, 3], 3⟩, ⟨[4], 1⟩]

def twoPayloadsRun {n : ℕ} (a b : Fin n) : List (SchedulerOp n) :=
  [.sleep b, .call, .enqueue a, .take a, .call, .enqueue b, .send a, .take b, .finish]

theorem scheduler_progress_two : ∃ s : MuxSendScheduler 2,
    Lts.Reach MuxSendScheduler.step (start 2 twoPayloads) s ∧
    (s.channels 0).worker = .sent ⟨[1, 2, 3], 3⟩ ∧ (s.channels 0).pendingBytes = 3 ∧
    s.totalPending ≤ max (2 * kMaxPendingPerChannel % 2 ^ 64) 3 := by
  obtain ⟨s, hr, hs⟩ := Lts.Reach.exists_of_run MuxSendScheduler.step (start 2 twoPayloads)
    (twoPayloadsRun 0 1) (fun s => decide ((s.channels 0).worker = .sent ⟨[1, 2, 3], 3⟩ ∧
      (s.channels 0).queue = [])) (by decide +kernel)
  obtain ⟨hw, hq⟩ := of_decide_eq_true hs
  have hall := scheduler_progress (by decide) (by decide) hr
  refine ⟨s, hr, hw, ?_, hall.2.2.2.2.2.1⟩
  rw [hall.1 0, hw, hq]
  rfl

end MuxSendScheduler

end Kiko.Transfer
