import Kiko.Core.Proxy
import Kiko.Lib.KeyMap
import Kiko.Lib.Rounds
import Kiko.Lib.Search

/-!
# Reading an HTTP request

`read_http_request` (`web/web.cpp`) receives until a blank line has come in, reads the head up to
there, and receives what is missing of the body. What a receive returns is up to the network, so
the same bytes can come in any pieces.

A `Receiver` is a socket that never times out: from its state a receive takes some bytes off the
stream, at most as many as there is room for, or the stream is at its end. Whatever else the
receiver is, what is read is a function of the stream alone (`readHttpRequest_eq`): the blank line
found in the first pieces is the first of the whole, and the limit on the head stops at the same
byte, because no receive is given room past it.

Two requests that carry the same bytes must be one request, or what a check in front of the server
has seen is not what the server does. The value a receive returns is therefore an argument of the
statement, twice, and the outcome is the same function of the stream for both.
-/

set_option autoImplicit false

namespace Kiko.Web

open Rounds (Round Comes)

/-! ## Receives

A receive that is given no room, or a stream that has ended, gives nothing; otherwise at least one
byte comes, and the loops end for that reason. -/

/-- What one receive, given room for `size` bytes, does to the stream. -/
inductive Piece (size : Nat) : (stream : Bytes) → Option Bytes → (stream' : Bytes) → Prop
  | got {bytes rest : Bytes} : bytes ≠ [] → bytes.length ≤ size →
      Piece size (bytes ++ rest) (some bytes) rest
  | closed : Piece size [] none []

/-- A socket without timeouts: `recv_some_timeout` of a positive size. -/
structure Receiver where
  State : Type
  stream : State → Bytes
  recv : Nat → State → Option Bytes × State
  piece : ∀ size s, 0 < size → Piece size (stream s) (recv size s).1 (stream (recv size s).2)

/-- **The socket's receives are pieces.** With or without a timeout, what `recv_some_timeout`
    gives is the beginning of what was there. -/
theorem piece_of_recvSomeTimeout {size : Nat} {timeout : Int} {s s' : Receiving} {bytes : Bytes}
    (hsize : 0 < size) (h : recvSomeTimeout size timeout s = .ok (some bytes) s') :
    Piece size s.socket.stream (some bytes) s'.socket.stream := by
  have hreceives := (recvSomeTimeout_settles size timeout).ok h
  rw [hreceives.takes.stream]
  exact .got (hreceives.some bytes rfl hsize).1 (hreceives.fits bytes rfl)

/-! ## Text

The string functions, on bytes. Those of the C library are followed where their behaviour at the
edges shows: `strtoul` on two characters, `getline` at the end of its text. -/

/-- A hexadecimal digit. -/
def hexDigit (b : UInt8) : Option UInt8 :=
  if 0x30 ≤ b ∧ b ≤ 0x39 then some (b - 0x30)
  else if 0x61 ≤ b ∧ b ≤ 0x66 then some (b - 0x61 + 10)
  else if 0x41 ≤ b ∧ b ≤ 0x46 then some (b - 0x41 + 10)
  else none

/-- `std::strtoul(text, &end, 16)` of a C string of at most two characters: the value, as the
    `char` it is cast to, and the text from `end` on. A `0x` would need a third character, and
    nothing overflows. -/
def strtoulHex (text : Bytes) : UInt8 × Bytes :=
  let unpadded := text.dropWhile isSpaceByte
  let negative := unpadded.head? = some 0x2d
  let number := if negative ∨ unpadded.head? = some 0x2b then unpadded.tail else unpadded
  let digits := number.takeWhile fun b => (hexDigit b).isSome
  if digits = [] then (0, text)
  else
    let value := digits.foldl (fun value b => value * 16 + (hexDigit b).getD 0) 0
    (if negative then 0 - value else value, number.drop digits.length)

/-- `hex.c_str()`. -/
def cString (text : Bytes) : Bytes := text.takeWhile (· != 0)

def decodePlus (b : UInt8) : UInt8 := if b = 0x2b then 0x20 else b

/-- `url_decode`. -/
def urlDecode : Bytes → Bytes
  | [] => []
  | [b] => [decodePlus b]
  | [b, c] => [decodePlus b, decodePlus c]
  | b :: high :: low :: rest =>
    let decoded := strtoulHex (cString [high, low])
    if b = 0x25 ∧ decoded.2 = [] then decoded.1 :: urlDecode rest
    else decodePlus b :: urlDecode (high :: low :: rest)

/-- What stands before the first `c`; all of it where there is none. -/
def before (c : UInt8) (text : Bytes) : Bytes := text.takeWhile (· != c)

/-- What stands behind the first `c`. -/
def behind (c : UInt8) (text : Bytes) : Bytes := (text.dropWhile (· != c)).tail

/-- `parse_query`. -/
def parseQuery (query : Bytes) : List (String × String) :=
  (query.splitOn 0x26).foldl (fun out part =>
    if part = [] then out
    else
      let value := if 0x3d ∈ part then urlDecode (behind 0x3d part) else []
      KeyMap.assign (bytesText (urlDecode (before 0x3d part))) (bytesText value) out) []

/-- `std::getline`, until it fails: a last line need not be ended, and none is empty there. -/
def getlines : Bytes → List Bytes
  | [] => []
  | b :: rest =>
    if b = 0x0a then [] :: getlines rest
    else
      match getlines rest with
      | [] => [[b]]
      | line :: more => (b :: line) :: more

/-- A `\r` at the end of a line goes. -/
def popReturn (line : Bytes) : Bytes := if line.getLast? = some 0x0d then line.dropLast else line

/-- `trim`. -/
def trim (text : Bytes) : Bytes := (text.dropWhile isSpaceByte).rdropWhile isSpaceByte

/-- `lowercase_ascii`. -/
def lowercaseAscii (text : Bytes) : Bytes :=
  text.map fun b => if 0x41 ≤ b ∧ b ≤ 0x5a then b + 0x20 else b

/-! ## `read_http_request` -/

def kMaxHeaderBytes : Nat := 32 * 1024

def kMaxBodyBytes : Nat := 1024 * 1024

structure HttpRequest where
  method : String
  path : String
  query : List (String × String)
  headers : List (String × String)
  body : Bytes := []
deriving DecidableEq, Repr

/-- One header line. -/
def readHeader (headers : List (String × String)) (line : Bytes) : List (String × String) :=
  let line := popReturn line
  if 0x3a ∈ line then
    let name := lowercaseAscii (trim (before 0x3a line))
    let value := trim (behind 0x3a line)
    KeyMap.assign (bytesText name) (bytesText value) headers
  else headers

/-- The head: the request line and the headers. -/
def parseHead (head : Bytes) : Option HttpRequest := do
  let lines := getlines head
  let (method, first) ← readWord (popReturn (lines.headD []))
  let (target, _) ← readWord first
  return {
    method := bytesText method
    path := bytesText (before 0x3f target)
    query := if 0x3f ∈ target then parseQuery (behind 0x3f target) else []
    headers := lines.tail.foldl readHeader [] }

/-- `content_length`, as the headers declare it. -/
def contentLength (headers : List (String × String)) : Except KikoError Nat :=
  match headers.lookup "content-length" with
  | none => .ok 0
  | some value =>
    match parseU64Strict value with
    | none => .error "invalid content length"
    | some parsed => if kMaxBodyBytes < parsed then .error "request body too large" else .ok parsed

section Reading

variable (R : Receiver)

/-- `"\r\n\r\n"`. -/
def blankLine : Bytes := crlf ++ crlf

/-- What has been received, and the socket. -/
structure Reading where
  data : Bytes
  socket : R.State

/-- The body of the loop over the head. It leaves with the place of the blank line, or without
    one when the stream has ended. -/
def headerRound (st : Reading R) :
    Except KikoError (Round (Reading R) (Option (Nat × Reading R))) :=
  match Search.find blankLine st.data with
  | some headerEnd => .ok (.leave (some (headerEnd, st)))
  | none =>
    if kMaxHeaderBytes ≤ st.data.length then .error "request headers too large"
    else
      let capacity := min 4096 (kMaxHeaderBytes - st.data.length)
      match R.recv capacity st.socket with
      | (none, _) => .ok (.leave none)
      | (some bytes, socket) => .ok (.again ⟨st.data ++ bytes, socket⟩)

/-- The body of the loop of `recv_exact_timeout`; `data` is what it has received. -/
def recvExactRound (size : Nat) (st : Reading R) :
    Except KikoError (Round (Reading R) (Option Bytes)) :=
  if st.data.length < size then
    match R.recv (size - st.data.length) st.socket with
    | (none, _) => .ok (.leave none)
    | (some bytes, socket) => .ok (.again ⟨st.data ++ bytes, socket⟩)
  else .ok (.leave (some st.data))

/-- The end of `read_http_request`: the body, of which `body` has come in with the head. -/
def readBody (fuel : Nat) (req : HttpRequest) (contentLength : Nat) (body : Bytes)
    (socket : R.State) : Option (Except KikoError (Option HttpRequest)) :=
  if body.length < contentLength then
    match Rounds.run (recvExactRound R (contentLength - body.length)) fuel ⟨[], socket⟩ with
    | none => none
    | some (.error e) => some (.error e)
    | some (.ok none) => some (.ok none)
    | some (.ok (some received)) => some (.ok (some { req with body := body ++ received }))
  else some (.ok (some { req with body := body.take contentLength }))

/-- `read_http_request`, with at most `fuel` rounds of each loop. -/
def readHttpRequest (fuel : Nat) (socket : R.State) :
    Option (Except KikoError (Option HttpRequest)) :=
  match Rounds.run (headerRound R) fuel ⟨[], socket⟩ with
  | none => none
  | some (.error e) => some (.error e)
  | some (.ok none) => some (.ok none)
  | some (.ok (some (headerEnd, st))) =>
    match parseHead (st.data.take headerEnd) with
    | none => some (.ok none)
    | some req =>
      match contentLength req.headers with
      | .error e => some (.error e)
      | .ok contentLength =>
        readBody R fuel req contentLength (st.data.drop (headerEnd + 4)) st.socket

end Reading

/-! ## The stream as a whole -/

/-- The request a stream makes, when all of it can be looked at. -/
def requestOf (stream : Bytes) : Except KikoError (Option HttpRequest) :=
  match Search.find blankLine (stream.take kMaxHeaderBytes) with
  | none =>
    if kMaxHeaderBytes ≤ stream.length then .error "request headers too large" else .ok none
  | some headerEnd =>
    match parseHead (stream.take headerEnd) with
    | none => .ok none
    | some req =>
      match contentLength req.headers with
      | .error e => .error e
      | .ok contentLength =>
        let body := stream.drop (headerEnd + 4)
        if body.length < contentLength then .ok none
        else .ok (some { req with body := body.take contentLength })

/-! ## What the loops keep

What has been received and what is still in the stream are together the stream. The rest of the
section is about the two loops, the one that looks for a blank line and the one that waits for a
number of bytes. -/

section Loops

theorem Piece.some_eq {size : Nat} {stream rest bytes : Bytes}
    (h : Piece size stream (some bytes) rest) :
    stream = bytes ++ rest ∧ bytes ≠ [] ∧ bytes.length ≤ size := by
  cases h with
  | got hne hle => exact ⟨rfl, hne, hle⟩

theorem Piece.none_eq {size : Nat} {stream rest : Bytes} (h : Piece size stream none rest) :
    stream = [] := by
  cases h
  rfl

variable {R : Receiver} {stream : Bytes} {st st' : Reading R} {socket socket' : R.State}
  {limit room fuel : Nat}

/-- What has come in is the beginning of the stream, and no more than `limit`. -/
structure Within (R : Receiver) (limit : Nat) (stream : Bytes) (st : Reading R) : Prop where
  stream_eq : st.data ++ R.stream st.socket = stream
  length_le : st.data.length ≤ limit

theorem within_start (hstream : R.stream socket = stream) : Within R limit stream ⟨[], socket⟩ :=
  ⟨hstream, Nat.zero_le _⟩

/-- What the limit lets a reader see of the stream starts with what it has. -/
theorem Within.take_eq (h : Within R limit stream st) :
    stream.take limit = st.data ++ (R.stream st.socket).take (limit - st.data.length) := by
  rw [← h.stream_eq, List.take_append, List.take_of_length_le h.length_le]

/-- **A piece more.** A receive that is given no room past the limit keeps within it, and leaves
less on the stream. -/
theorem Within.recv {bytes : Bytes} (h : Within R limit stream st) (hroom : 0 < room)
    (hle : room ≤ limit - st.data.length) (hrecv : R.recv room st.socket = (some bytes, socket')) :
    Within R limit stream ⟨st.data ++ bytes, socket'⟩ ∧
      (R.stream socket').length < (R.stream st.socket).length := by
  have hpiece : Piece room (R.stream st.socket) (some bytes) (R.stream socket') := by
    have hpiece := R.piece room st.socket hroom
    rwa [hrecv] at hpiece
  obtain ⟨heq, hne, hlen⟩ := hpiece.some_eq
  have hdata := h.length_le
  have hpos := List.length_pos_of_ne_nil hne
  refine ⟨⟨?_, ?_⟩, ?_⟩
  · show st.data ++ bytes ++ R.stream socket' = stream
    rw [List.append_assoc, ← heq]
    exact h.stream_eq
  · show (st.data ++ bytes).length ≤ limit
    rw [List.length_append]
    omega
  · rw [heq, List.length_append]
    omega

/-- A receive that answers nothing was at the end of the stream. -/
theorem Within.closed (h : Within R limit stream st) (hroom : 0 < room)
    (hrecv : R.recv room st.socket = (none, socket')) : st.data = stream := by
  have hpiece := R.piece room st.socket hroom
  rw [hrecv] at hpiece
  have hstream := h.stream_eq
  rwa [hpiece.none_eq, List.append_nil] at hstream

/-! ### The head -/

theorem headerRound_again (h : Within R kMaxHeaderBytes stream st)
    (hround : headerRound R st = .ok (.again st')) :
    Within R kMaxHeaderBytes stream st' ∧
      (R.stream st'.socket).length < (R.stream st.socket).length := by
  unfold headerRound at hround
  split at hround
  · cases hround
  · split at hround
    · cases hround
    next hroom =>
      dsimp only at hround
      split at hround
      · cases hround
      next bytes socket' hrecv =>
        cases hround
        -- the room is the buffer's, or what is left to the limit
        exact h.recv (lt_min (by decide) (Nat.sub_pos_of_lt (Nat.lt_of_not_le hroom)))
          (Nat.min_le_right _ _) hrecv

/-- The loop over the head ends. -/
theorem headerLoop_ends (hstream : R.stream socket = stream) (hfuel : stream.length < fuel) :
    ∃ r, Rounds.run (headerRound R) fuel ⟨[], socket⟩ = some r := by
  apply Rounds.run_of_measure (Within R kMaxHeaderBytes stream)
    (fun st => (R.stream st.socket).length)
  · intro s s' h hround
    exact headerRound_again h hround
  · exact within_start hstream
  · show (R.stream socket).length < fuel
    rwa [hstream]

/-- **How the head is read.** Whatever the pieces were, the loop ends as the first
`kMaxHeaderBytes` bytes of the stream say: at the blank line there is in them, with an error if
there is none and more bytes to come, or without a request. -/
theorem headerLoop_cases {r : Except KikoError (Option (Nat × Reading R))}
    (hstream : R.stream socket = stream)
    (h : Rounds.run (headerRound R) fuel ⟨[], socket⟩ = some r) :
    (Search.find blankLine (stream.take kMaxHeaderBytes) = none ∧
      r = if kMaxHeaderBytes ≤ stream.length then .error "request headers too large"
        else .ok none) ∨
    ∃ headerEnd st, r = .ok (some (headerEnd, st)) ∧
      Search.find blankLine (stream.take kMaxHeaderBytes) = some headerEnd ∧
      Within R kMaxHeaderBytes stream st ∧ headerEnd + 4 ≤ st.data.length := by
  obtain ⟨st, hcomes, hlast⟩ := Rounds.run_comes h
  have hwithin : Within R kMaxHeaderBytes stream st :=
    hcomes.keeps _ (fun _ _ hs hround => (headerRound_again hs hround).1) (within_start hstream)
  unfold headerRound at hlast
  split at hlast
  next headerEnd hfind =>
    right
    refine ⟨headerEnd, st, ?_, ?_, hwithin, Search.le_of_find hfind⟩
    · cases r <;> cases hlast
      rfl
    · rw [hwithin.take_eq]
      exact Search.find_append hfind
  next hfind =>
    left
    split at hlast
    next hfull =>
      -- no room is left, so what has come in is all the limit shows
      have htake : stream.take kMaxHeaderBytes = st.data := by
        rw [hwithin.take_eq, Nat.sub_eq_zero_of_le hfull, List.take_zero, List.append_nil]
      have hlong : kMaxHeaderBytes ≤ stream.length := by
        rw [← hwithin.stream_eq, List.length_append]
        omega
      rw [htake, if_pos hlong]
      refine ⟨hfind, ?_⟩
      cases r <;> cases hlast
      rfl
    next hroom =>
      dsimp only at hlast
      split at hlast
      next socket' hrecv =>
        have hall := hwithin.closed
          (lt_min (by decide) (Nat.sub_pos_of_lt (Nat.lt_of_not_le hroom))) hrecv
        rw [hall] at hfind hroom
        rw [List.take_of_length_le (Nat.le_of_not_le hroom), if_neg hroom]
        refine ⟨hfind, ?_⟩
        cases r <;> cases hlast
        rfl
      · cases r <;> cases hlast

/-! ### The body -/

variable {size : Nat}

theorem recvExactRound_again (h : Within R size stream st)
    (hround : recvExactRound R size st = .ok (.again st')) :
    Within R size stream st' ∧ (R.stream st'.socket).length < (R.stream st.socket).length := by
  unfold recvExactRound at hround
  split at hround
  next hmore =>
    split at hround
    · cases hround
    next bytes socket' hrecv =>
      cases hround
      exact h.recv (Nat.sub_pos_of_lt hmore) le_rfl hrecv
  · cases hround

theorem recvExact_ends (hstream : R.stream socket = stream) (hfuel : stream.length < fuel) :
    ∃ r, Rounds.run (recvExactRound R size) fuel ⟨[], socket⟩ = some r := by
  apply Rounds.run_of_measure (Within R size stream) (fun st => (R.stream st.socket).length)
  · intro s s' h hround
    exact recvExactRound_again h hround
  · exact within_start hstream
  · show (R.stream socket).length < fuel
    rwa [hstream]

/-- **All of it, or nothing.** -/
theorem recvExact_eq {r : Except KikoError (Option Bytes)} (hstream : R.stream socket = stream)
    (h : Rounds.run (recvExactRound R size) fuel ⟨[], socket⟩ = some r) :
    r = .ok (if stream.length < size then none else some (stream.take size)) := by
  obtain ⟨st, hcomes, hlast⟩ := Rounds.run_comes h
  have hwithin : Within R size stream st :=
    hcomes.keeps _ (fun _ _ hs hround => (recvExactRound_again hs hround).1)
      (within_start hstream)
  unfold recvExactRound at hlast
  split at hlast
  next hmore =>
    split at hlast
    next socket' hrecv =>
      have hall := hwithin.closed (Nat.sub_pos_of_lt hmore) hrecv
      rw [hall] at hmore
      rw [if_pos hmore]
      cases r <;> cases hlast
      rfl
    · cases r <;> cases hlast
  next hfull =>
    have hfull := Nat.le_of_not_lt hfull
    have htake : stream.take size = st.data := by
      rw [hwithin.take_eq, Nat.sub_eq_zero_of_le hfull, List.take_zero, List.append_nil]
    have hlong : ¬ stream.length < size := by
      rw [← hwithin.stream_eq, List.length_append]
      omega
    rw [if_neg hlong, htake]
    cases r <;> cases hlast
    rfl

/-- The body: the bytes the head declares, or no request. -/
theorem readBody_eq (req : HttpRequest) (contentLength : Nat) (body : Bytes)
    (hfuel : (R.stream socket).length < fuel) :
    readBody R fuel req contentLength body socket =
      some (.ok (if (body ++ R.stream socket).length < contentLength then none
        else some { req with body := (body ++ R.stream socket).take contentLength })) := by
  unfold readBody
  rw [List.length_append, List.take_append]
  by_cases hshort : body.length < contentLength
  · obtain ⟨r, hr⟩ : ∃ r, Rounds.run (recvExactRound R (contentLength - body.length)) fuel
      ⟨[], socket⟩ = some r := recvExact_ends rfl hfuel
    rw [if_pos hshort, hr, recvExact_eq rfl hr, List.take_of_length_le hshort.le]
    by_cases hmissing : (R.stream socket).length < contentLength - body.length
    · rw [if_pos hmissing, if_pos (by omega)]
    · rw [if_neg hmissing, if_neg (by omega)]
  · have hnone : contentLength - body.length = 0 := Nat.sub_eq_zero_of_le (Nat.le_of_not_lt hshort)
    rw [if_neg hshort, if_neg (by omega), hnone, List.take_zero, List.append_nil]

/-! ### The request -/

/-- **A request is a function of the stream.** One round for each byte, and one to leave, is
enough for either loop, and what comes out is what the stream says as a whole. -/
theorem readHttpRequest_eq (hfuel : (R.stream socket).length < fuel) :
    readHttpRequest R fuel socket = some (requestOf (R.stream socket)) := by
  obtain ⟨r, hr⟩ := headerLoop_ends (R := R) rfl hfuel
  unfold readHttpRequest requestOf
  rw [hr]
  obtain ⟨hfind, rfl⟩ | ⟨headerEnd, st, rfl, hfind, hwithin, hle⟩ := headerLoop_cases rfl hr
  · rw [hfind]
    by_cases hlong : kMaxHeaderBytes ≤ (R.stream socket).length
    · simp only [if_pos hlong]
    · simp only [if_neg hlong]
  · -- the head and what follows it are read off the stream itself
    have hhead : (R.stream socket).take headerEnd = st.data.take headerEnd := by
      rw [← hwithin.stream_eq, List.take_append_of_le_length (by omega)]
    have hbody : (R.stream socket).drop (headerEnd + 4) =
        st.data.drop (headerEnd + 4) ++ R.stream st.socket := by
      rw [← hwithin.stream_eq, List.drop_append_of_le_length hle]
    have hrest : (R.stream st.socket).length < fuel := by
      have hlen := congrArg List.length hwithin.stream_eq
      rw [List.length_append] at hlen
      omega
    rw [hfind]
    simp only [hhead, hbody]
    split
    · rfl
    · split
      · rfl
      next contentLength hlength =>
        rw [readBody_eq _ _ _ hrest]
        split
        · rfl
        · rfl

/-- A request that comes out has the body its headers declare. -/
theorem length_body_of_requestOf {req : HttpRequest} (h : requestOf stream = .ok (some req)) :
    contentLength req.headers = .ok req.body.length := by
  unfold requestOf at h
  split at h
  · split at h <;> cases h
  · split at h
    · cases h
    · split at h
      · cases h
      next contentLength hlength =>
        dsimp only at h
        split at h
        · cases h
        next hshort =>
          cases h
          show Web.contentLength _ = .ok (List.take contentLength _).length
          rw [hlength, List.length_take, Nat.min_eq_left (Nat.le_of_not_lt hshort)]

end Loops

/-- **Pieces do not matter.** Two sockets that carry the same bytes give the same outcome, however
each cuts them, and a request that comes out has a body of the declared length. -/
theorem readHttpRequest_segments (R R' : Receiver) (socket : R.State) (socket' : R'.State)
    (hsame : R.stream socket = R'.stream socket') :
    ∃ outcome,
      (∀ fuel, (R.stream socket).length < fuel →
        readHttpRequest R fuel socket = some outcome ∧
          readHttpRequest R' fuel socket' = some outcome) ∧
      ∀ req, outcome = .ok (some req) → contentLength req.headers = .ok req.body.length := by
  refine ⟨requestOf (R.stream socket), ?_, fun req h => length_body_of_requestOf h⟩
  intro fuel hfuel
  refine ⟨readHttpRequest_eq hfuel, ?_⟩
  rw [hsame] at hfuel ⊢
  exact readHttpRequest_eq hfuel

/-! ## A socket -/

theorem piece_take {size count : Nat} {stream : Bytes} (hne : stream ≠ []) (hpos : 0 < count)
    (hle : count ≤ size) : Piece size stream (some (stream.take count)) (stream.drop count) := by
  have h : Piece size (stream.take count ++ stream.drop count) (some (stream.take count))
      (stream.drop count) := by
    apply Piece.got
    · intro htake
      obtain hzero | hnil := List.take_eq_nil_iff.mp htake
      · exact hpos.ne' hzero
      · exact hne hnil
    · rw [List.length_take]
      exact (Nat.min_le_left _ _).trans hle
  rwa [List.take_append_drop] at h

/-- A stream that comes in pieces of the given lengths, and as much as there is room for when the
    lengths are used up. -/
def piecewise : Receiver where
  State := Bytes × List Nat
  stream := Prod.fst
  recv size s :=
    let count := min size (max 1 (s.2.headD size))
    if s.1 = [] then (none, s) else (some (s.1.take count), (s.1.drop count, s.2.tail))
  piece := by
    intro size s hsize
    by_cases hempty : s.1 = []
    · simp only [if_pos hempty]
      rw [hempty]
      exact .closed
    · simp only [if_neg hempty]
      have hpos : 0 < min size (max 1 (s.2.headD size)) := by omega
      exact piece_take hempty hpos (Nat.min_le_left _ _)

/-- A request, and one byte more. -/
def postRequest : Bytes :=
  "POST /api/cancel?a=1 HTTP/1.1\r\ncontent-length: 2\r\n\r\nhi!".toList.map
    fun c => UInt8.ofNat c.toNat

/-- A byte at a time and all at once. -/
theorem readHttpRequest_segments_bytewise :
    piecewise.stream (postRequest, List.replicate 100 1) = piecewise.stream (postRequest, []) ∧
    ∃ outcome,
      (∀ fuel, (piecewise.stream (postRequest, List.replicate 100 1)).length < fuel →
        readHttpRequest piecewise fuel (postRequest, List.replicate 100 1) = some outcome ∧
          readHttpRequest piecewise fuel (postRequest, []) = some outcome) ∧
      ∀ req, outcome = .ok (some req) → contentLength req.headers = .ok req.body.length :=
  ⟨rfl, readHttpRequest_segments piecewise piecewise (postRequest, List.replicate 100 1)
    (postRequest, []) rfl⟩

example : readHttpRequest piecewise 60 (postRequest, [1, 30, 2, 19, 1]) =
    some (.ok (some ⟨"POST", "/api/cancel", [("a", "1")], [("content-length", "2")],
      [0x68, 0x69]⟩)) := by decide +kernel

end Kiko.Web
