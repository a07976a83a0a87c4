import Kiko.Core.Endpoint
import Kiko.Core.TimedFrames

/-!
# Connecting through an HTTP proxy (`core/proxy`)

The reply of the proxy is read line by line, each line against a deadline of its own and a byte
at a time. So a line is taken from the stream whole, and nothing behind it; where no line comes
in time, what has been taken is the beginning of one (`recvRawLine_settles`).

Which lines come in time is up to the socket and the clock: `arrivedLines` is what a reader gets
who goes on reading. `http_connect` stops at the first of them that is only line ends, and the
stream is then behind it. It also returns when no more lines come, as if the header were over:
`httpConnect_iff` says for which replies a return means what it should.

A proxy is trusted no more than any other peer, and its reply may come in pieces or stop
anywhere. Two things are of interest: that no byte behind the header is taken, since it belongs
to the connection that was asked for, and that a return means a complete header with status 200.
The first always holds and the second does not.
-/

set_option autoImplicit false

namespace Kiko

open Effect Transfer

/-! ## Lines

A byte at a time: this is what makes it possible to stop right behind a line. -/

def crlf : Bytes := [0x0d, 0x0a]

/-- The last two bytes are the end of a line. -/
def endsLine (line : Bytes) : Bool := crlf.isSuffixOf line

def isLineEnd (b : UInt8) : Bool := b == 0x0a || b == 0x0d

/-- The loop of `pop_back` in `recv_line`. -/
def popLineEnds (line : Bytes) : Bytes := line.rdropWhile isLineEnd

/-- The loop of `recv_line`, with the end of the line still there. Each turn receives a byte, so
    the bytes there are bound the turns. -/
def recvLineLoop (deadline : Int) : (turns : Nat) → (line : Bytes) → ReceiveM (Option Bytes)
  | 0, _ => return none
  | turns + 1, line => do
    if ¬ (← steadyClock) < deadline then return none
    let remaining ← remainingUntil deadline
    if remaining ≤ 0 then return none
    let some ch ← recvExactTimeout 1 remaining | return none
    if endsLine (line ++ ch) then return some (line ++ ch)
    recvLineLoop deadline turns (line ++ ch)

def recvRawLine (timeout : Int) : ReceiveM (Option Bytes) := do
  let deadline := (← steadyClock) + nanoseconds timeout
  recvLineLoop deadline ((← get).socket.stream.length + 1) []

/-- `recv_line`, with the line. -/
def recvLine (timeout : Int) : ReceiveM (Option Bytes) := do
  let some line ← recvRawLine timeout | return none
  return some (popLineEnds line)

/-! ## The status line -/

/-- `isspace` in the classic locale. -/
def isSpaceByte (b : UInt8) : Bool := b == 0x20 || 0x09 ≤ b && b ≤ 0x0d

def isDigitByte (b : UInt8) : Bool := 0x30 ≤ b && b ≤ 0x39

/-- `operator>>` into a string: the next word, and what is left. -/
def readWord (text : Bytes) : Option (Bytes × Bytes) :=
  let text := text.dropWhile isSpaceByte
  if text = [] then none
  else some (text.takeWhile (! isSpaceByte ·), text.dropWhile (! isSpaceByte ·))

def digitsValue (digits : Bytes) : Nat :=
  digits.foldl (fun value digit => value * 10 + (digit.toNat - 0x30)) 0

/-- `operator>>` into an `int`: a sign if there is one, and the digits behind it. -/
def readInt (text : Bytes) : Option Int :=
  let text := text.dropWhile isSpaceByte
  let negative := text.head? = some 0x2d
  let digits := (if negative ∨ text.head? = some 0x2b then text.tail else text).takeWhile isDigitByte
  let value : Int := if negative then - digitsValue digits else digitsValue digits
  if digits = [] ∨ value < -2 ^ 31 ∨ 2 ^ 31 ≤ value then none else some value

/-- `http_connect_ok`. -/
def httpConnectOk (statusLine : Bytes) : Bool :=
  match readWord statusLine with
  | none => false
  | some (_, rest) => match readInt rest with
    | none => false
    | some status => status == 200

/-! ## `http_connect` -/

/-- The request. -/
def connectRequest (target : Endpoint) : String :=
  "CONNECT " ++ hostport target ++ " HTTP/1.1\r\nHost: " ++ hostport target ++
    "\r\nProxy-Connection: keep-alive\r\n\r\n"

/-- The bytes of a `std::string` in a message. -/
def bytesText (bytes : Bytes) : String := String.ofList (bytes.map fun b => Char.ofNat b.toNat)

/-- The loop over the header. Each turn that goes on has received a line, so the bytes there are
    bound the turns. -/
def headerLoop (timeout : Int) : (turns : Nat) → ReceiveM Unit
  | 0 => return ()
  | turns + 1 => do
    let some line ← recvLine timeout | return ()
    if line = [] then return ()
    headerLoop timeout turns

/-- `http_connect`. What `send_all` makes of the request is a parameter. -/
def httpConnect (sendAll : String → Except KikoError Unit) (target : Endpoint) (timeout : Int) :
    ReceiveM Unit := do
  match sendAll (connectRequest target) with
  | .error e => throw e
  | .ok () =>
    let some line ← recvLine timeout | throw "proxy: no response"
    if ! httpConnectOk line then throw ("proxy CONNECT failed: " ++ bytesText line)
    headerLoop timeout ((← get).socket.stream.length + 1)

/-! ## A stream as lines -/

/-- A line with its end, which is the first there is. -/
structure IsLine (line : Bytes) : Prop where
  ended : crlf <:+ line
  first : ¬ crlf <:+: line.dropLast

/-- The stream is these lines and, after the last, the beginning of another. -/
structure Lines (stream : Bytes) (lines : List Bytes) (tail : Bytes) : Prop where
  stream_eq : stream = lines.flatten ++ tail
  line : ∀ line ∈ lines, IsLine line
  tail : ¬ crlf <:+: tail

theorem endsLine_iff {line : Bytes} : endsLine line ↔ crlf <:+ line := by
  unfold endsLine
  exact List.isSuffixOf_iff_suffix

theorem isLine_crlf : IsLine crlf := ⟨List.suffix_rfl, by decide⟩

theorem IsLine.ne_nil {line : Bytes} (h : IsLine line) : line ≠ [] := by
  intro hnil
  have hended := h.ended
  rw [hnil] at hended
  exact absurd (List.suffix_nil.mp hended) (by decide)

/-- What a stream starts with before its first line end is a line or goes on. -/
theorem IsLine.length_le {line other rest rest' : Bytes} (h : IsLine line)
    (hother : ¬ crlf <:+: other.dropLast) (heq : line ++ rest = other ++ rest') :
    other.length ≤ line.length := by
  by_contra hlt
  refine hother (h.ended.isInfix.trans (List.IsPrefix.isInfix ?_))
  -- the shorter of two beginnings of one stream is the beginning of the other
  have hbefore : other.dropLast <+: line ++ rest := by
    rw [heq]
    exact (List.dropLast_prefix other).trans (List.prefix_append ..)
  refine List.prefix_of_prefix_length_le (List.prefix_append ..) hbefore ?_
  rw [List.length_dropLast]
  omega

theorem IsLine.eq_of_append {line other rest rest' : Bytes} (h : IsLine line) (h' : IsLine other)
    (heq : line ++ rest = other ++ rest') : line = other ∧ rest = rest' := by
  refine List.append_inj heq (le_antisymm ?_ ?_)
  · exact h'.length_le h.first heq.symm
  · exact h.length_le h'.first heq

/-- **A stream is cut into lines in one way.** -/
theorem Lines.unique {stream tail tail' : Bytes} {lines lines' : List Bytes}
    (h : Lines stream lines tail) (h' : Lines stream lines' tail') :
    lines = lines' ∧ tail = tail' := by
  -- a beginning without a line end has no line in it
  have hnone {line rest tail : Bytes} (h : IsLine line) (htail : ¬ crlf <:+: tail) :
      line ++ rest ≠ tail := by
    intro heq
    refine htail (h.ended.isInfix.trans ?_)
    rw [← heq]
    exact (List.prefix_append ..).isInfix
  induction lines generalizing stream lines' with
  | nil =>
    cases lines' with
    | nil => exact ⟨rfl, h.stream_eq.symm.trans h'.stream_eq⟩
    | cons line' lines' =>
      have heq := h'.stream_eq.symm.trans h.stream_eq
      rw [List.flatten_cons, List.append_assoc] at heq
      exact absurd heq (hnone (h'.line line' (by simp)) h.tail)
  | cons line lines ih =>
    cases lines' with
    | nil =>
      have heq := h.stream_eq.symm.trans h'.stream_eq
      rw [List.flatten_cons, List.append_assoc] at heq
      exact absurd heq (hnone (h.line line (by simp)) h'.tail)
    | cons line' lines' =>
      have heq := h.stream_eq.symm.trans h'.stream_eq
      rw [List.flatten_cons, List.flatten_cons, List.append_assoc, List.append_assoc] at heq
      obtain ⟨rfl, hrest⟩ := (h.line line (by simp)).eq_of_append (h'.line line' (by simp)) heq
      obtain ⟨rfl, rfl⟩ := ih ⟨rfl, fun l hl => h.line l (List.mem_cons_of_mem _ hl), h.tail⟩
        ⟨hrest, fun l hl => h'.line l (List.mem_cons_of_mem _ hl), h'.tail⟩
      exact ⟨rfl, rfl⟩

/-! ## What a line takes from the stream

Every way the loop can stop has the same record: what has been taken, and whether it was a line. -/

variable {s s' : Receiving} {E : KikoError → Receiving → Prop}

/-- What the loop has done with a line begun as `line`. -/
structure LineOutcome (line : Bytes) (s : Receiving) (r : Option Bytes) (s' : Receiving) : Prop where
  whole : ∀ raw ∈ r, IsLine raw ∧ ∃ took, raw = line ++ took ∧ Takes s took s'
  begun : r = none → ∃ took, ¬ crlf <:+: line ++ took ∧ Takes s took s'

theorem LineOutcome.nothing {line : Bytes} (hline : ¬ crlf <:+: line)
    (h : s'.socket = s.socket) : LineOutcome line s none s' := by
  refine ⟨by simp, fun _ => ⟨[], ?_, .of_eq h⟩⟩
  rwa [List.append_nil]

theorem recvLineLoop_settles (deadline : Int) {turns : Nat} {line : Bytes}
    (hline : ¬ crlf <:+: line) (hturns : s.socket.stream.length < turns) :
    Settles (LineOutcome line s) (fun _ _ => True) (recvLineLoop deadline turns line) s := by
  induction turns generalizing s line with
  | zero => exact absurd hturns (Nat.not_lt_zero _)
  | succ turns ih =>
    unfold recvLineLoop
    refine steadyClock_settles.bind ?_
    intro now s₁ h₁
    by_cases hnow : now < deadline
    swap
    · rw [if_pos hnow]
      exact settles_pure (.nothing hline h₁)
    rw [if_neg (not_not.mpr hnow)]
    refine (remainingUntil_settles deadline).bind ?_
    intro remaining s₂ h₂
    have h₂ := h₂.trans h₁
    by_cases hr : remaining ≤ 0
    · rw [if_pos hr]
      exact settles_pure (.nothing hline h₂)
    rw [if_neg hr]
    refine ((recvExactTimeout_settles Nat.one_pos remaining).mono (fun _ _ h => h)
      (fun _ _ _ => trivial)).bind ?_
    intro r s₃ h₃
    cases r with
    | none =>
      obtain ⟨took, hlt, htakes⟩ := h₃.short rfl
      obtain rfl := List.length_eq_zero_iff.mp (Nat.lt_one_iff.mp hlt)
      refine settles_pure ⟨by simp, fun _ => ⟨[], ?_, htakes.from_eq h₂⟩⟩
      rwa [List.append_nil]
    | some ch =>
      obtain ⟨hone, htakes⟩ := h₃.got ch rfl
      obtain ⟨b, rfl⟩ := List.length_eq_one_iff.mp hone
      have htakes := htakes.from_eq h₂
      simp only
      by_cases hend : endsLine (line ++ [b])
      · rw [if_pos hend]
        refine settles_pure ⟨?_, by simp⟩
        intro raw hraw
        obtain rfl := Option.mem_some.mp hraw
        refine ⟨⟨endsLine_iff.mp hend, ?_⟩, [b], rfl, htakes⟩
        rwa [List.dropLast_concat]
      · rw [if_neg hend]
        -- a line end in what is there now would stand at its end
        have hline' : ¬ crlf <:+: line ++ [b] := by
          intro hin
          obtain hin | hin := List.infix_concat_iff.mp hin
          · exact hend (endsLine_iff.mpr hin)
          · exact hline hin
        have hfewer : s₃.socket.stream.length < turns := by
          have hlength := congrArg List.length htakes.stream
          rw [List.length_append, List.length_singleton] at hlength
          omega
        refine (ih hline' hfewer).mono ?_ (fun _ _ h => h)
        intro r s₄ h₄
        constructor
        · intro raw hraw
          obtain ⟨hisLine, took, rfl, h₄⟩ := h₄.whole raw hraw
          exact ⟨hisLine, [b] ++ took, List.append_assoc .., htakes.trans h₄⟩
        · intro hr
          obtain ⟨took, hnone, h₄⟩ := h₄.begun hr
          refine ⟨[b] ++ took, ?_, htakes.trans h₄⟩
          rwa [← List.append_assoc]

/-- **A line is taken whole and nothing behind it**; without a line the beginning of one has been
    taken. -/
theorem recvRawLine_settles (timeout : Int) :
    Settles (LineOutcome [] s) (fun _ _ => True) (recvRawLine timeout) s := by
  unfold recvRawLine
  refine steadyClock_settles.bind ?_
  intro now s₁ h₁
  refine Settles.bind (settles_get (Q := fun r s' => r = s' ∧ s'.socket = s.socket) ⟨rfl, h₁⟩) ?_
  intro state s₂ h₂
  obtain ⟨rfl, h₂⟩ := h₂
  refine (recvLineLoop_settles _ (by decide) (Nat.lt_succ_self _)).mono ?_ (fun _ _ h => h)
  intro r s₃ h₃
  constructor
  · intro raw hraw
    obtain ⟨hline, took, htook, htakes⟩ := h₃.whole raw hraw
    exact ⟨hline, took, htook, htakes.from_eq h₂⟩
  · intro hr
    obtain ⟨took, hnone, htakes⟩ := h₃.begun hr
    exact ⟨took, hnone, htakes.from_eq h₂⟩

/-! ## The lines that come in time -/

/-- What a reader gets who reads lines until one does not come: the lines, and the error if it
    was one. -/
def linesInTime (timeout : Int) : (turns : Nat) → Receiving → List Bytes × Option KikoError
  | 0, _ => ([], none)
  | turns + 1, s => match recvRawLine timeout s with
    | .ok (some line) s' =>
      let later := linesInTime timeout turns s'
      (line :: later.1, later.2)
    | .ok none _ => ([], none)
    | .error e _ => ([], some e)

def arrivedLines (timeout : Int) (s : Receiving) : List Bytes × Option KikoError :=
  linesInTime timeout (s.socket.stream.length + 1) s

variable {timeout : Int} {turns turns' : Nat} {line : Bytes}

theorem recvRawLine_ok (h : recvRawLine timeout s = .ok (some line) s') :
    IsLine line ∧ s.socket.stream = line ++ s'.socket.stream := by
  obtain ⟨hline, took, rfl, htakes⟩ := ((recvRawLine_settles timeout).ok h).whole line rfl
  exact ⟨hline, htakes.stream⟩

theorem recvRawLine_shorter (h : recvRawLine timeout s = .ok (some line) s') :
    s'.socket.stream.length < s.socket.stream.length := by
  obtain ⟨hline, hstream⟩ := recvRawLine_ok h
  have hpos := List.length_pos_iff.mpr hline.ne_nil
  rw [hstream, List.length_append]
  omega

/-- The bytes there are enough turns. -/
theorem linesInTime_eq (h : s.socket.stream.length < turns)
    (h' : s.socket.stream.length < turns') :
    linesInTime timeout turns s = linesInTime timeout turns' s := by
  induction turns generalizing s turns' with
  | zero => exact absurd h (Nat.not_lt_zero _)
  | succ turns ih =>
    obtain ⟨turns', rfl⟩ := Nat.exists_eq_succ_of_ne_zero (Nat.ne_zero_of_lt h')
    unfold linesInTime
    split
    · rename_i line s₁ hline
      have hshorter := recvRawLine_shorter hline
      have hlater : linesInTime timeout turns s₁ = linesInTime timeout turns' s₁ :=
        ih (by omega) (by omega)
      rw [hlater]
    · rfl
    · rfl

theorem arrivedLines_cons (h : recvRawLine timeout s = .ok (some line) s') :
    arrivedLines timeout s =
      (line :: (arrivedLines timeout s').1, (arrivedLines timeout s').2) := by
  have hshorter := recvRawLine_shorter h
  have hlater : linesInTime timeout s.socket.stream.length s' = arrivedLines timeout s' :=
    linesInTime_eq hshorter (Nat.lt_succ_self _)
  unfold arrivedLines
  rw [linesInTime, h]
  simp only [hlater]
  rfl

theorem arrivedLines_none (h : recvRawLine timeout s = .ok none s') :
    arrivedLines timeout s = ([], none) := by
  unfold arrivedLines
  rw [linesInTime, h]

theorem arrivedLines_raised {e : KikoError} (h : recvRawLine timeout s = .error e s') :
    arrivedLines timeout s = ([], some e) := by
  unfold arrivedLines
  rw [linesInTime, h]

/-! ## What the header loop makes of them

The socket and the clock are gone from here on. What is left is a list of lines and whether
another one comes. -/

/-- `line.empty()`, of a line with its ends. -/
def OnlyLineEnds (line : Bytes) : Prop := ∀ b ∈ line, isLineEnd b

instance (line : Bytes) : Decidable (OnlyLineEnds line) :=
  inferInstanceAs (Decidable (∀ b ∈ line, isLineEnd b))

theorem popLineEnds_eq_nil : popLineEnds line = [] ↔ OnlyLineEnds line := by
  unfold popLineEnds OnlyLineEnds
  exact List.rdropWhile_eq_nil_iff

/-- From `s` to `s'` these lines have been received, and the beginning of another. -/
def Reads (s : Receiving) (lines : List Bytes) (tail : Bytes) (s' : Receiving) : Prop :=
  ∃ taken, s.socket.stream = taken ++ s'.socket.stream ∧ Lines taken lines tail

/-- How the loop ends, by the lines that come in time. -/
inductive HeaderEnd (arrived : List Bytes × Option KikoError) (s : Receiving) :
    EStateM.Result KikoError Receiving Unit → Prop
  | ended {before after : List Bytes} {line : Bytes} {s' : Receiving}
    (heq : arrived.1 = before ++ line :: after) (hbefore : ∀ l ∈ before, ¬ OnlyLineEnds l)
    (hline : OnlyLineEnds line) (hreads : Reads s (before ++ [line]) [] s') :
    HeaderEnd arrived s (.ok () s')
  | raised {e : KikoError} {s' : Receiving} (hall : ∀ l ∈ arrived.1, ¬ OnlyLineEnds l)
    (he : arrived.2 = some e) : HeaderEnd arrived s (.error e s')
  | fellThrough {tail : Bytes} {s' : Receiving} (hall : ∀ l ∈ arrived.1, ¬ OnlyLineEnds l)
    (he : arrived.2 = none) (hreads : Reads s arrived.1 tail s') :
    HeaderEnd arrived s (.ok () s')

theorem Reads.cons {lines : List Bytes} {tail : Bytes} {s'' : Receiving} (hline : IsLine line)
    (h : s.socket.stream = line ++ s'.socket.stream) (h' : Reads s' lines tail s'') :
    Reads s (line :: lines) tail s'' := by
  obtain ⟨taken, hstream, hlines⟩ := h'
  refine ⟨line ++ taken, ?_, ?_, ?_, hlines.tail⟩
  · rw [h, hstream, List.append_assoc]
  · rw [hlines.stream_eq, List.flatten_cons, List.append_assoc]
  · intro l hl
    cases hl with
    | head => exact hline
    | tail _ hl => exact hlines.line l hl

theorem recvLine_eq :
    recvLine timeout s = match recvRawLine timeout s with
      | .ok (some line) s' => .ok (some (popLineEnds line)) s'
      | .ok none s' => .ok none s'
      | .error e s' => .error e s' := by
  unfold recvLine
  simp only [Bind.bind, EStateM.bind]
  cases recvRawLine timeout s with
  | ok r s' => cases r <;> rfl
  | error e s' => rfl

theorem headerLoop_end (h : s.socket.stream.length < turns) :
    HeaderEnd (arrivedLines timeout s) s (headerLoop timeout turns s) := by
  induction turns generalizing s with
  | zero => exact absurd h (Nat.not_lt_zero _)
  | succ turns ih =>
    -- a turn is a line, and another turn if the line is not empty
    have hloop : headerLoop timeout (turns + 1) s = match recvLine timeout s with
        | .ok (some line) s' =>
          if line = [] then .ok () s' else headerLoop timeout turns s'
        | .ok none s' => .ok () s'
        | .error e s' => .error e s' := by
      rw [headerLoop]
      simp only [Bind.bind, EStateM.bind]
      cases recvLine timeout s with
      | ok r s' =>
        cases r with
        | none => rfl
        | some line =>
          dsimp only
          split <;> rfl
      | error e s' => rfl
    rw [hloop, recvLine_eq]
    cases hraw : recvRawLine timeout s with
    | error e s' =>
      rw [arrivedLines_raised hraw]
      exact .raised (by simp) rfl
    | ok r s' =>
      have hsettles := (recvRawLine_settles timeout).ok hraw
      cases r with
      | none =>
        obtain ⟨took, hnone, htakes⟩ := hsettles.begun rfl
        rw [arrivedLines_none hraw]
        exact .fellThrough (by simp) rfl ⟨took, htakes.stream, rfl, by simp, hnone⟩
      | some line =>
        obtain ⟨hline, hstream⟩ := recvRawLine_ok hraw
        have hshorter := recvRawLine_shorter hraw
        simp only
        rw [arrivedLines_cons hraw]
        by_cases hends : popLineEnds line = []
        · rw [if_pos hends]
          refine @HeaderEnd.ended _ s [] _ line s' rfl (by simp) (popLineEnds_eq_nil.mp hends) ?_
          exact Reads.cons hline hstream ⟨[], rfl, rfl, by simp, by decide⟩
        · rw [if_neg hends]
          have hgoes : ¬ OnlyLineEnds line := fun h => hends (popLineEnds_eq_nil.mpr h)
          have hall {lines : List Bytes} (h : ∀ l ∈ lines, ¬ OnlyLineEnds l) :
              ∀ l ∈ line :: lines, ¬ OnlyLineEnds l := by
            intro l hl
            cases hl with
            | head => exact hgoes
            | tail _ hl => exact h l hl
          have hlater : s'.socket.stream.length < turns := by omega
          have hend := ih hlater
          generalize headerLoop timeout turns s' = r at hend ⊢
          cases hend with
          | ended heq hbefore hlast hreads =>
            rename_i before after last s''
            refine @HeaderEnd.ended _ s (line :: before) after last s'' ?_ (hall hbefore) hlast
              (hreads.cons hline hstream)
            rw [heq]
            rfl
          | raised hnone he => exact .raised (hall hnone) he
          | fellThrough hnone he hreads =>
            exact .fellThrough (hall hnone) he (hreads.cons hline hstream)

/-! ## The status of a line -/

/-- The second word of the line is the number 200, as far as it has digits. -/
def CarriesStatus200 (line : Bytes) : Prop :=
  ∃ blank version gap sign digits rest : Bytes,
    line = blank ++ (version ++ (gap ++ (sign ++ (digits ++ rest)))) ∧
    (∀ b ∈ blank, isSpaceByte b) ∧ version ≠ [] ∧ (∀ b ∈ version, ! isSpaceByte b) ∧
    gap ≠ [] ∧ (∀ b ∈ gap, isSpaceByte b) ∧ (sign = [] ∨ sign = [0x2b]) ∧
    (∀ b ∈ digits, isDigitByte b) ∧ (∀ b ∈ rest.head?, ¬ isDigitByte b) ∧ digitsValue digits = 200

theorem not_head_dropWhile {p : UInt8 → Bool} {text : Bytes} :
    ∀ b ∈ (text.dropWhile p).head?, ¬ p b := by
  induction text with
  | nil => simp
  | cons c text ih =>
    intro b hb
    by_cases hc : p c
    · rw [List.dropWhile_cons_of_pos hc] at hb
      exact ih b hb
    · rw [List.dropWhile_cons_of_neg hc] at hb
      obtain rfl := Option.some.inj hb
      exact hc

/-- A run of bytes up to the first that is not of its kind. -/
theorem span_append {p : UInt8 → Bool} {run rest : Bytes} (hrun : ∀ b ∈ run, p b)
    (hrest : ∀ b ∈ rest.head?, ¬ p b) :
    (run ++ rest).takeWhile p = run ∧ (run ++ rest).dropWhile p = rest := by
  rw [List.takeWhile_append_of_pos hrun, List.dropWhile_append_of_pos hrun]
  cases rest with
  | nil => simp
  | cons b rest =>
    have hb := hrest b rfl
    rw [List.takeWhile_cons_of_neg hb, List.dropWhile_cons_of_neg hb, List.append_nil]
    exact ⟨rfl, rfl⟩

theorem digit_not_space {b : UInt8} (h : isDigitByte b) : ¬ isSpaceByte b := by
  simp only [isDigitByte, isSpaceByte, Bool.and_eq_true, Bool.or_eq_true, decide_eq_true_eq,
    beq_iff_eq, UInt8.le_iff_toNat_le] at h ⊢
  rintro (rfl | hspace)
  · exact absurd h.1 (by decide)
  · have hdigit : (0x30 : UInt8).toNat ≤ b.toNat := h.1
    have hle : b.toNat ≤ (0x0d : UInt8).toNat := hspace.2
    exact absurd (hdigit.trans hle) (by decide)

theorem readWord_append {blank word rest : Bytes} (hblank : ∀ b ∈ blank, isSpaceByte b)
    (hne : word ≠ []) (hword : ∀ b ∈ word, ! isSpaceByte b) (hrest : ∀ b ∈ rest.head?, isSpaceByte b) :
    readWord (blank ++ (word ++ rest)) = some (word, rest) := by
  have hstart : ∀ b ∈ (word ++ rest).head?, ¬ isSpaceByte b := by
    intro b hb
    rw [List.head?_append_of_ne_nil _ hne] at hb
    simpa using hword b (List.mem_of_head? hb)
  have hstop : ∀ b ∈ rest.head?, ¬ (! isSpaceByte b) = true := by
    intro b hb
    simp [hrest b hb]
  unfold readWord
  simp only [(span_append hblank hstart).2, (span_append hword hstop).1,
    (span_append hword hstop).2]
  exact if_neg (by simp [hne])

theorem readInt_append {gap sign digits rest : Bytes} (hgap : ∀ b ∈ gap, isSpaceByte b)
    (hsign : sign = [] ∨ sign = [0x2b]) (hne : digits ≠ []) (hdigits : ∀ b ∈ digits, isDigitByte b)
    (hrest : ∀ b ∈ rest.head?, ¬ isDigitByte b) (hlt : digitsValue digits < 2 ^ 31) :
    readInt (gap ++ (sign ++ (digits ++ rest))) = some (digitsValue digits : Int) := by
  obtain ⟨d, more, rfl⟩ := List.exists_cons_of_ne_nil hne
  have hd := hdigits d (List.mem_cons_self ..)
  have hnot (b : UInt8) (hb : isDigitByte b = false) : d ≠ b := by
    rintro rfl
    rw [hd] at hb
    cases hb
  have hstart : ∀ b ∈ (sign ++ (d :: more ++ rest)).head?, ¬ isSpaceByte b := by
    intro b hb
    obtain rfl | rfl := hsign
    · obtain rfl := Option.some.inj hb
      exact digit_not_space hd
    · obtain rfl := Option.some.inj hb
      decide
  have hrun := (span_append hdigits hrest).1
  have hvalue : ¬ ((d :: more) = [] ∨ (digitsValue (d :: more) : Int) < -2 ^ 31 ∨
      2 ^ 31 ≤ (digitsValue (d :: more) : Int)) := by
    simp only [reduceCtorEq, false_or]
    omega
  unfold readInt
  simp only [(span_append hgap hstart).2]
  obtain rfl | rfl := hsign
  · have hminus : (some d = some (0x2d : UInt8)) = False := by simp [hnot 0x2d (by decide)]
    have hplus : (some d = some (0x2b : UInt8)) = False := by simp [hnot 0x2b (by decide)]
    simp only [List.nil_append, List.cons_append, List.head?_cons, hminus, hplus, or_self, if_false]
    rw [← List.cons_append, hrun]
    exact if_neg hvalue
  · have hminus : (some (0x2b : UInt8) = some 0x2d) = False := by decide
    simp only [List.singleton_append, List.head?_cons, hminus, false_or, if_true, if_false,
      List.tail_cons, hrun]
    exact if_neg hvalue

theorem readWord_some {text word rest : Bytes} (h : readWord text = some (word, rest)) :
    ∃ blank, text = blank ++ (word ++ rest) ∧ (∀ b ∈ blank, isSpaceByte b) ∧ word ≠ [] ∧
      (∀ b ∈ word, ! isSpaceByte b) ∧ ∀ b ∈ rest.head?, isSpaceByte b := by
  unfold readWord at h
  dsimp only at h
  split at h
  · cases h
  rename_i hne
  cases h
  refine ⟨text.takeWhile isSpaceByte, ?_, fun b hb => List.mem_takeWhile_imp hb, ?_, ?_,
    fun b hb => ?_⟩
  · rw [List.takeWhile_append_dropWhile, List.takeWhile_append_dropWhile]
  · obtain ⟨b, more, heq⟩ := List.exists_cons_of_ne_nil hne
    have hb := not_head_dropWhile b (by rw [heq]; rfl)
    rw [heq, List.takeWhile_cons_of_pos (by simpa using hb)]
    exact List.cons_ne_nil _ _
  · intro b hb
    exact @List.mem_takeWhile_imp _ (fun b => ! isSpaceByte b) _ _ hb
  · have hstop := not_head_dropWhile b hb
    simpa using hstop

theorem readInt_200 {text : Bytes} (h : readInt text = some 200) :
    ∃ gap sign digits rest, text = gap ++ (sign ++ (digits ++ rest)) ∧
      (∀ b ∈ gap, isSpaceByte b) ∧ (sign = [] ∨ sign = [0x2b]) ∧ digits ≠ [] ∧
      (∀ b ∈ digits, isDigitByte b) ∧ (∀ b ∈ rest.head?, ¬ isDigitByte b) ∧
      digitsValue digits = 200 := by
  have htext : text = text.takeWhile isSpaceByte ++ text.dropWhile isSpaceByte :=
    List.takeWhile_append_dropWhile.symm
  have hgap : ∀ b ∈ text.takeWhile isSpaceByte, isSpaceByte b :=
    fun b hb => List.mem_takeWhile_imp hb
  unfold readInt at h
  generalize text.takeWhile isSpaceByte = gap, text.dropWhile isSpaceByte = number at *
  subst htext
  -- a minus leaves nothing that is positive
  by_cases hminus : number.head? = some 0x2d
  · simp only [hminus, true_or, if_true] at h
    split at h
    · cases h
    · have hvalue := Option.some.inj h
      omega
  have hdigits (sign digits : Bytes) (hnumber : number = sign ++ digits)
      (hsign : sign = [] ∨ sign = [0x2b])
      (h : (if digits.takeWhile isDigitByte = [] ∨
          (digitsValue (digits.takeWhile isDigitByte) : Int) < -2 ^ 31 ∨
          2 ^ 31 ≤ (digitsValue (digits.takeWhile isDigitByte) : Int) then none
        else some (digitsValue (digits.takeWhile isDigitByte) : Int)) = some 200) :
      ∃ gap' sign digits rest, gap ++ number = gap' ++ (sign ++ (digits ++ rest)) ∧
        (∀ b ∈ gap', isSpaceByte b) ∧ (sign = [] ∨ sign = [0x2b]) ∧ digits ≠ [] ∧
        (∀ b ∈ digits, isDigitByte b) ∧ (∀ b ∈ rest.head?, ¬ isDigitByte b) ∧
        digitsValue digits = 200 := by
    split at h
    · cases h
    rename_i hok
    refine ⟨gap, sign, digits.takeWhile isDigitByte, digits.dropWhile isDigitByte, ?_, hgap, hsign,
      fun hnil => hok (.inl hnil), fun b hb => List.mem_takeWhile_imp hb, not_head_dropWhile, ?_⟩
    · rw [List.takeWhile_append_dropWhile, hnumber]
    · exact Int.ofNat.inj (Option.some.inj h)
  simp only [hminus, false_or, if_false] at h
  by_cases hplus : number.head? = some 0x2b
  · obtain ⟨digits, rfl⟩ := List.head?_eq_some_iff.mp hplus
    simp only [hplus, if_true, List.tail_cons] at h
    exact hdigits [0x2b] digits rfl (.inr rfl) h
  · simp only [hplus, if_false] at h
    exact hdigits [] number rfl (.inl rfl) h

/-- **What `http_connect_ok` accepts.** -/
theorem httpConnectOk_iff : httpConnectOk line ↔ CarriesStatus200 line := by
  constructor
  · intro h
    unfold httpConnectOk at h
    split at h
    · cases h
    rename_i version rest hword
    split at h
    · cases h
    rename_i status hint
    obtain rfl := beq_iff_eq.mp h
    obtain ⟨blank, rfl, hblank, hne, hversion, hstop⟩ := readWord_some hword
    obtain ⟨gap, sign, digits, rest, rfl, hspaces, hsign, hdigitsNe, hdigits, hrest, hvalue⟩ :=
      readInt_200 hint
    refine ⟨blank, version, gap, sign, digits, rest, rfl, hblank, hne, hversion, ?_, hspaces, hsign,
      hdigits, hrest, hvalue⟩
    -- without a gap the number would be part of the first word
    rintro rfl
    obtain ⟨d, more, rfl⟩ := List.exists_cons_of_ne_nil hdigitsNe
    obtain rfl | rfl := hsign
    · exact digit_not_space (hdigits d (List.mem_cons_self ..)) (hstop d rfl)
    · exact absurd (hstop 0x2b rfl) (by decide)
  · intro ⟨blank, version, gap, sign, digits, rest, hline, hblank, hne, hversion, hgap, hspaces, hsign,
      hdigits, hrest, hvalue⟩
    have hdigitsNe : digits ≠ [] := by
      rintro rfl
      cases hvalue
    have hstop : ∀ b ∈ (gap ++ (sign ++ (digits ++ rest))).head?, isSpaceByte b := by
      intro b hb
      rw [List.head?_append_of_ne_nil _ hgap] at hb
      exact hspaces b (List.mem_of_head? hb)
    unfold httpConnectOk
    rw [hline, readWord_append hblank hne hversion hstop]
    dsimp only
    rw [readInt_append hspaces hsign hdigitsNe hdigits hrest (by rw [hvalue]; decide), hvalue]
    rfl

/-! ## A return and what it means

The loop leaves on an empty line and on no line. The two are not told apart by the source, and
the equivalence says for which replies that matters. -/

/-- Of this stream exactly a reply with status 200 has been taken, up to its first empty line. -/
def CompleteReply (stream rest : Bytes) : Prop :=
  ∃ status headers, stream = (status :: headers ++ [crlf]).flatten ++ rest ∧
    (∀ l ∈ status :: headers, IsLine l ∧ l ≠ crlf) ∧ CarriesStatus200 (popLineEnds status)

/-- Of the lines that come in time, the first behind a status line with 200 that is only line ends
is empty, or there is none and receiving raises an error. -/
def HeaderCloses (arrived : List Bytes × Option KikoError) : Prop :=
  match arrived.1 with
  | [] => True
  | status :: header =>
    httpConnectOk (popLineEnds status) → match header.find? (OnlyLineEnds ·) with
      | some line => line = crlf
      | none => arrived.2 ≠ none

variable {sendAll : String → Except KikoError Unit} {target : Endpoint}

theorem httpConnect_eq (h : sendAll (connectRequest target) = .ok ()) :
    httpConnect sendAll target timeout s = match recvRawLine timeout s with
      | .ok (some line) s' =>
        if httpConnectOk (popLineEnds line) then
          headerLoop timeout (s'.socket.stream.length + 1) s'
        else .error ("proxy CONNECT failed: " ++ bytesText (popLineEnds line)) s'
      | .ok none s' => .error "proxy: no response" s'
      | .error e s' => .error e s' := by
  unfold httpConnect
  rw [h]
  simp only [Bind.bind, EStateM.bind, recvLine_eq]
  cases recvRawLine timeout s with
  | error e s' => rfl
  | ok r s' =>
    cases r with
    | none => rfl
    | some line =>
      dsimp only
      by_cases hok : httpConnectOk (popLineEnds line) = true
      · rw [if_pos hok, hok]
        rfl
      · have hrefused : httpConnectOk (popLineEnds line) = false := by simpa using hok
        rw [if_neg hok, hrefused]
        rfl

theorem find_of_first {before after : List Bytes} (hbefore : ∀ l ∈ before, ¬ OnlyLineEnds l)
    (hline : OnlyLineEnds line) : (before ++ line :: after).find? (OnlyLineEnds ·) = some line := by
  rw [List.find?_eq_some_iff_append]
  refine ⟨by simpa using hline, before, after, rfl, fun l hl => ?_⟩
  simpa using hbefore l hl

theorem find_none {header : List Bytes} (h : ∀ l ∈ header, ¬ OnlyLineEnds l) :
    header.find? (OnlyLineEnds ·) = none := by
  rw [List.find?_eq_none]
  intro l hl
  simpa using h l hl

theorem onlyLineEnds_crlf : OnlyLineEnds crlf := by
  simp [OnlyLineEnds, crlf, isLineEnd]

/-- A return after these lines is a complete reply exactly when the last of them is empty and no
one before. -/
theorem completeReply_iff {status : Bytes} {header : List Bytes} {tail : Bytes}
    (hstatus : CarriesStatus200 (popLineEnds status)) (h : Reads s (status :: header) tail s') :
    CompleteReply s.socket.stream s'.socket.stream ↔
      tail = [] ∧ ∃ headers, header = headers ++ [crlf] ∧ crlf ∉ headers := by
  obtain ⟨taken, hstream, hlines⟩ := h
  have hne : status ≠ crlf := by
    rintro rfl
    have hok := httpConnectOk_iff.mpr hstatus
    exact absurd hok (by decide)
  constructor
  · intro ⟨status', headers, heq, hall, _⟩
    have hlines' : Lines taken (status' :: headers ++ [crlf]) [] := by
      refine ⟨?_, ?_, by decide⟩
      · rw [hstream] at heq
        rw [List.append_cancel_right heq, List.append_nil]
      · intro l hl
        obtain hl | hl := List.mem_append.mp hl
        · exact (hall l hl).1
        · obtain rfl := List.mem_singleton.mp hl
          exact isLine_crlf
    obtain ⟨hsame, rfl⟩ := hlines.unique hlines'
    obtain ⟨rfl, rfl⟩ := List.cons.inj hsame
    exact ⟨rfl, headers, rfl, fun hmem => (hall crlf (List.mem_cons_of_mem _ hmem)).2 rfl⟩
  · intro ⟨htail, headers, hheader, hfirst⟩
    subst htail hheader
    refine ⟨status, headers, ?_, ?_, hstatus⟩
    · rw [hstream, hlines.stream_eq, List.append_nil]
      rfl
    · intro l hl
      refine ⟨hlines.line l ?_, ?_⟩
      · exact List.mem_append_left [crlf] hl
      · rintro rfl
        cases hl with
        | head => exact hne rfl
        | tail _ hl => exact hfirst hl

/-- **`http_connect` returns only on a complete reply exactly when the header closes**, for every
stream, every segmentation and every clock. -/
theorem httpConnect_iff (sendAll : String → Except KikoError Unit) (target : Endpoint)
    (timeout : Int) (s : Receiving) :
    (∀ s', httpConnect sendAll target timeout s = .ok () s' →
      CompleteReply s.socket.stream s'.socket.stream) ↔
      (sendAll (connectRequest target) = .ok () → HeaderCloses (arrivedLines timeout s)) := by
  cases hsent : sendAll (connectRequest target) with
  | error e =>
    constructor
    · intro _ h
      cases h
    · intro _ s' h
      rw [httpConnect, hsent] at h
      cases h
  -- the request is sent; the rest is a matter of the lines that come in time
  | ok u =>
    rw [httpConnect_eq hsent]
    cases hraw : recvRawLine timeout s with
    | error e s₁ => simp [arrivedLines_raised hraw, HeaderCloses]
    | ok r s₁ =>
      cases r with
      | none => simp [arrivedLines_none hraw, HeaderCloses]
      | some status =>
        obtain ⟨hline, hstream⟩ := recvRawLine_ok hraw
        simp only [arrivedLines_cons hraw, HeaderCloses]
        by_cases hok : httpConnectOk (popLineEnds status) = true
        swap
        · simp [hok]
        simp only [hok, if_true, forall_const]
        have hstatus := httpConnectOk_iff.mp hok
        have hend := @headerLoop_end s₁ timeout _ (Nat.lt_succ_self s₁.socket.stream.length)
        generalize headerLoop timeout (s₁.socket.stream.length + 1) s₁ = result at hend ⊢
        cases hend with
        | ended heq hbefore hlast hreads =>
          rename_i before after last s₂
          have hiff := completeReply_iff hstatus (hreads.cons hline hstream)
          rw [heq, find_of_first hbefore hlast]
          constructor
          · intro h
            obtain ⟨-, headers, hsame, -⟩ := hiff.mp (h s₂ rfl)
            exact (List.cons.inj (List.append_inj' hsame rfl).2).1
          · intro hempty s' hs'
            cases hs'
            refine hiff.mpr ⟨rfl, before, by rw [hempty], fun hmem => ?_⟩
            exact hbefore crlf hmem onlyLineEnds_crlf
        | raised hall he => simp [find_none hall, he]
        | fellThrough hall he hreads =>
          rename_i tail s₂
          have hiff := completeReply_iff hstatus (hreads.cons hline hstream)
          rw [find_none hall]
          constructor
          · intro h
            obtain ⟨-, headers, hheader, -⟩ := hiff.mp (h s₂ rfl)
            exact absurd onlyLineEnds_crlf (hall crlf (by simp [hheader]))
          · intro h
            exact absurd he h

/-- `HTTP/1.1 200 OK`, with the end of the line. -/
def statusLine200 : Bytes :=
  [0x48, 0x54, 0x54, 0x50, 0x2f, 0x31, 0x2e, 0x31, 0x20, 0x32, 0x30, 0x30, 0x20, 0x4f, 0x4b] ++ crlf

/-- A proxy that writes this and closes. -/
def closingProxy (reply : Bytes) : Receiving where
  socket := { stream := reply }
  schedule := unhurried (reply.map (fun _ => .ready 1) ++ [.hangUp])

/-- The proxy closes after its status line, and `http_connect` returns: no empty line has come. -/
theorem httpConnect_truncated_header :
    ∃ s', httpConnect (fun _ => .ok ()) ⟨"example.com", 443⟩ 1000 (closingProxy statusLine200) =
        .ok () s' ∧
      ¬ CompleteReply (closingProxy statusLine200).socket.stream s'.socket.stream := by
  have hrun : ∃ s', httpConnect (fun _ => .ok ()) ⟨"example.com", 443⟩ 1000
      (closingProxy statusLine200) = .ok () s' ∧ s'.socket.stream = [] := ⟨_, rfl, rfl⟩
  obtain ⟨s', hreturn, hrest⟩ := hrun
  refine ⟨s', hreturn, ?_⟩
  have hline : IsLine statusLine200 := ⟨by decide, by decide⟩
  have hstatus : httpConnectOk (popLineEnds statusLine200) := by decide
  have hreads : Reads (closingProxy statusLine200) [statusLine200] [] s' := by
    refine ⟨statusLine200, by rw [hrest]; rfl, by simp, ?_, by decide⟩
    intro l hl
    obtain rfl := List.mem_singleton.mp hl
    exact hline
  intro hcomplete
  obtain ⟨-, headers, hnil, -⟩ :=
    (completeReply_iff (httpConnectOk_iff.mp hstatus) hreads).mp hcomplete
  exact absurd hnil (by simp)

/-- With the empty line behind it the same reply is complete, and what the server writes behind
that is left. -/
example : ∃ s', httpConnect (fun _ => .ok ()) ⟨"example.com", 443⟩ 1000
    (closingProxy (statusLine200 ++ crlf ++ [7])) = .ok () s' ∧ s'.socket.stream = [7] :=
  ⟨_, rfl, rfl⟩

end Kiko
