import Kiko.Transfer.Ends

/-!
# The two paths agree

A transfer over one stream and one over many channels come to the same: `mux_refines_stream`.
Neither can get stuck on the way, and at every point the two sides agree whose turn it is:
`transfer_live`.

The two systems have little in common but their ends: other frames, other threads, another
order on the wire. They are compared through what a sequential conversation would come to
(`Kiko.Transfer.Exchange`), which each of them does come to, in every order its threads can
take. So neither simulates the other step by step, and no order has to be matched with
another.

The compressor is a parameter of both. What they agree on does not depend on it, but for the
one thing that is asked of it, that a payload comes out as it went in.
-/

set_option autoImplicit false

namespace Kiko.Transfer

open Lexical FileTree Dialogue

/-! ## What a receiver has come to

The tree with the log, and the counters or the error. Which of the frames were still on their
way when a call returned is no part of it. -/

/-- What `receive_files` has come to: the variables of its loop, or its error and the disk. -/
def StreamRecv.outcome {codec : StreamCodec} (r : StreamRecv codec) :
    Option (Except (KikoError × Disk) Loop) :=
  match r.pc with
  | .finished => some (.ok r.loop)
  | .thrown e => some (.error (e, r.loop.disk))
  | _ => none

/-- What `receive_files_mux` has come to. -/
def MuxLoop.outcome {n : Nat} (r : MuxLoop n) : Option (Except (KikoError × Disk) Loop) :=
  match r.pc with
  | .finished => some (.ok r.loop)
  | .thrown e => some (.error (e, r.loop.disk))
  | _ => none

section Conclusion

variable {env : ReceiveEnv} {sources : List (Source env.prims)} {d : Disk}

theorem stream_concludes (env : ReceiveEnv) (codec : StreamCodec) {capDown capUp : Option Nat}
    (hdown : ∀ c, capDown = some c → 0 < c) (hup : ∀ c, capUp = some c → 0 < c)
    (sources : List (Source env.prims)) (d : Disk) :
    Lts.Concludes (StreamTransfer.step capDown capUp) (StreamTransfer.init codec sources d)
      (fun s => s.recv.outcome) (conclusion env sources { disk := d }) where
  ends := StreamTransfer.ends capDown capUp _
  only s hr o ho := by
    obtain ⟨hthrown, hfinished⟩ := StreamTransfer.receiver_over hr
    unfold StreamRecv.outcome at ho
    split at ho
    next hpc => rw [hfinished hpc, ← Option.some.inj ho]
    next e hpc => rw [hthrown e hpc, ← Option.some.inj ho]
    next => cases ho
  stopped s hr hstop := by
    have hover : s.received = true := by
      by_contra hnot
      obtain ⟨l, s', hs⟩ := StreamTransfer.talk_progress hdown hup (StreamTransfer.reach_talk hr)
        (Bool.eq_false_iff.mpr hnot)
      rw [hstop l] at hs
      cases hs
    obtain ⟨hthrown, hfinished⟩ := StreamTransfer.receiver_over hr
    have hpc := (Bool.and_eq_true_iff.mp hover).1
    unfold StreamRecv.outcome
    cases h : s.recv.pc with
    | finished => rw [hfinished h]
    | thrown e => rw [hthrown e h]
    | _ => simp [h, StreamPc.over] at hpc

theorem mux_concludes (env : ReceiveEnv) (codec : BlockCodec) {m : Nat}
    {capDown : Fin (m + 1) → Option Nat} {capUp : Option Nat}
    (hdown : ∀ k c, capDown k = some c → 0 < c) (hup : ∀ c, capUp = some c → 0 < c)
    (sources : List (Source env.prims)) (d : Disk) :
    Lts.Concludes (MuxTransfer.step codec capDown capUp) (MuxTransfer.init m sources d)
      (fun s => s.recv.outcome) (conclusion env sources { disk := d }) where
  ends := MuxTransfer.ends codec capDown capUp _
  only s hr o ho := by
    obtain ⟨hthrown, hfinished⟩ := MuxTransfer.receiver_over hr
    unfold MuxLoop.outcome at ho
    split at ho
    next hpc => rw [hfinished hpc, ← Option.some.inj ho]
    next e hpc => rw [hthrown e hpc, ← Option.some.inj ho]
    next => cases ho
  stopped s hr hstop := by
    have hover : s.received = true := by
      by_contra hnot
      obtain ⟨l, s', hs⟩ := MuxTransfer.talk_progress hdown hup (MuxTransfer.reach_talk hr)
        (Bool.eq_false_iff.mpr hnot)
      rw [hstop l] at hs
      cases hs
    obtain ⟨hthrown, hfinished⟩ := MuxTransfer.receiver_over hr
    have hpc := (Bool.and_eq_true_iff.mp hover).1
    unfold MuxLoop.outcome
    cases h : s.recv.pc with
    | finished => rw [hfinished h]
    | thrown e => rw [hthrown e h]
    | _ => simp [h, MuxPc.over] at hpc

end Conclusion

/-! ## The same end

Both are run from the same sources, on the same tree, under the same policy and resume
settings. The sample is one file over one stream and over two channels with room for one
frame each. -/

/-- **The mux path refines the stream path.** Whatever is sent, whatever stands in the
    receiver's tree and whatever its policy: over any number of channels, with any
    interleaving and any capacities, `receive_files_mux` comes to what `receive_files` comes
    to, the same tree, the same reports, the same counts, or the same error. -/
theorem mux_refines_stream (env : ReceiveEnv) (sources : List (Source env.prims)) (d : Disk)
    (codec : StreamCodec) (block : BlockCodec) (m : Nat) (capDown capUp : Option Nat)
    (muxDown : Fin (m + 1) → Option Nat) (muxUp : Option Nat)
    (hdown : ∀ c, capDown = some c → 0 < c) (hup : ∀ c, capUp = some c → 0 < c)
    (hmuxDown : ∀ k c, muxDown k = some c → 0 < c) (hmuxUp : ∀ c, muxUp = some c → 0 < c) :
    ∃ o, Lts.Concludes (StreamTransfer.step capDown capUp) (StreamTransfer.init codec sources d)
        (fun s => s.recv.outcome) o ∧
      Lts.Concludes (MuxTransfer.step block muxDown muxUp) (MuxTransfer.init m sources d)
        (fun s => s.recv.outcome) o :=
  ⟨conclusion env sources { disk := d }, stream_concludes env codec hdown hup sources d,
    mux_concludes env block hmuxDown hmuxUp sources d⟩

/-- The digests of a file that says `hi!`, and of no bytes at all. -/
def samplePrims : Primitives where
  sha256Hex content :=
    if content = [] then kEmptySha256
    else if content = [104, 105, 33] then
      "c0ddd62c7717180e7ffb8a15bb9674d3ec92592e0b7ac7d1d5289836b4553be2"
    else "unlisted"
  imohashHex content :=
    if content = [104, 105, 33] then "7532208ea5791eca7ad4258f4cbb9d6d" else "unlisted"
  manifestTextSize text := 64 * text.entries.length
  sha256Hex_ne content := by split_ifs <;> decide
  imohashHex_ne content := by split_ifs <;> decide

/-- Files are received into `/out`. -/
def sampleEnv : ReceiveEnv where
  prims := samplePrims
  outputDir := .ofString "/out"
  policy := .overwrite
  cwd := []
  available := .ok (2 ^ 40)

def sampleSource : Source sampleEnv.prims where
  entry :=
    { absolute := "/home/hi.txt", relative := "hi.txt", size := 3
      imohash := "7532208ea5791eca7ad4258f4cbb9d6d" }
  content := [104, 105, 33]
  size_eq _ := rfl
  size_le := by decide
  imohash_eq _ := rfl

/-- The output directory is there, and nothing in it. -/
def sampleDisk : Disk where
  tree place := if place = ["out"] then some .dir else none

theorem stored_lossless (chunks : List Bytes) (room : Nat) :
    decompressAll (fun _ payload _ => .ok ((), payload)) () room
      (compressAll (fun _ chunk _ => ((), chunk)) () chunks) = .ok chunks.flatten := by
  induction chunks generalizing room with
  | nil => rfl
  | cons chunk chunks ih =>
    by_cases hchunk : chunk = []
    · simpa [compressAll, nonempty, hchunk] using ih room
    · simp [compressAll, nonempty, hchunk, decompressAll, ih, bind, Except.bind]

/-- A compressor that stores. -/
def storedStream : StreamCodec where
  Enc := Unit
  Dec := Unit
  encoder := ()
  decoder := ()
  compress _ chunk _ := ((), chunk)
  decompress _ payload _ := .ok ((), payload)
  lossless chunks room _ := stored_lossless chunks room

/-- The sample transfer over one stream. -/
def sampleStream : StreamTransfer.System sampleEnv storedStream :=
  StreamTransfer.init storedStream [sampleSource] sampleDisk

/-- The sample transfer over two channels. -/
def sampleMux : MuxTransfer.System sampleEnv 1 := MuxTransfer.init 1 [sampleSource] sampleDisk

theorem mux_refines_stream_sample :
    ∃ o, Lts.Concludes (StreamTransfer.step (some 1) (some 1)) sampleStream
        (fun s => s.recv.outcome) o ∧
      Lts.Concludes (MuxTransfer.step MuxDelivery.storedCodec (fun _ => some 1) (some 1)) sampleMux
        (fun s => s.recv.outcome) o :=
  mux_refines_stream sampleEnv [sampleSource] sampleDisk storedStream MuxDelivery.storedCodec 1
    (some 1) (some 1) (fun _ => some 1) (some 1) (by simp) (by simp) (by simp) (by simp)

/-! ## Never stuck

Back-pressure is what makes this a question: a queue that is full stops its writer, and a
writer that has stopped may be the one who was to read. Whoever is to speak next can, since
the other side is then listening. -/

/-- **A transfer is deadlock-free under back-pressure.** Over one stream or any number of
    channels, with any positive capacity per direction: in every state reached in which
    neither side has returned or thrown, some thread can move, and exactly one side has the
    word. -/
theorem transfer_live (env : ReceiveEnv) (sources : List (Source env.prims)) (d : Disk)
    (codec : StreamCodec) (block : BlockCodec) (m : Nat) (capDown capUp : Nat)
    (muxDown : Fin (m + 1) → Nat) (muxUp : Nat) (hdown : 0 < capDown) (hup : 0 < capUp)
    (hmuxDown : ∀ k, 0 < muxDown k) (hmuxUp : 0 < muxUp) :
    (∀ s, Lts.Reach (StreamTransfer.step (some capDown) (some capUp))
        (StreamTransfer.init codec sources d) s → s.sent = false → s.received = false →
      (∃ l s', StreamTransfer.step (some capDown) (some capUp) s l = some s') ∧
      ((s.down ++ s.send.todo ≠ [] ∧ s.up ++ s.reply = []) ∨
        (s.down ++ s.send.todo = [] ∧
          (streamReceiver env codec).Asks env s.send.wait s.recv (s.up ++ s.reply)))) ∧
    (∀ s, Lts.Reach (MuxTransfer.step block (fun k => some (muxDown k)) (some muxUp))
        (MuxTransfer.init m sources d) s → s.sent = false → s.received = false →
      (∃ l s', MuxTransfer.step block (fun k => some (muxDown k)) (some muxUp) s l = some s') ∧
      ((((∃ k, s.down k ≠ []) ∨ s.send.todo ≠ []) ∧ s.up ++ s.reply = []) ∨
        ((∀ k, s.down k = []) ∧ s.send.todo = [] ∧
          (muxReceiver env m).Asks env s.send.wait (some s.recv) (s.up ++ s.reply)))) := by
  have hpos {c : Nat} (hc : 0 < c) : ∀ c', some c = some c' → 0 < c' :=
    fun c' h => Option.some.inj h ▸ hc
  refine ⟨fun s hr hsent hrecv => ?_, fun s hr hsent hrecv => ?_⟩
  · have htalk := StreamTransfer.reach_talk hr
    exact ⟨StreamTransfer.talk_progress (hpos hdown) (hpos hup) htalk hrecv,
      StreamTransfer.talk_turn htalk hsent hrecv⟩
  · have htalk := MuxTransfer.reach_talk hr
    exact ⟨MuxTransfer.talk_progress (fun k => hpos (hmuxDown k)) (hpos hmuxUp) htalk hrecv,
      MuxTransfer.talk_turn htalk hsent hrecv⟩

theorem transfer_live_sample :
    (∃ l s', StreamTransfer.step (some 1) (some 1) sampleStream l = some s') ∧
    ∃ l s', MuxTransfer.step MuxDelivery.storedCodec (fun _ => some 1) (some 1) sampleMux l =
      some s' := by
  have hlive := transfer_live sampleEnv [sampleSource] sampleDisk storedStream
    MuxDelivery.storedCodec 1 1 1 (fun _ => 1) 1 (by decide) (by decide) (fun _ => by decide)
    (by decide)
  exact ⟨(hlive.1 _ .refl (by decide) (by decide)).1, (hlive.2 _ .refl (by decide) (by decide)).1⟩

end Kiko.Transfer
