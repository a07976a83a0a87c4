import Kiko.Core.Protocol
import Kiko.Lib.Rounds

/-!
# Reading a STUN reply

`stun_binding` (`diagnostics/network_probe.cpp`) sends a binding request and waits for an answer
until its deadline. Anybody can send it a datagram, and the datagram's attributes carry their
own lengths.

The receive buffer holds 512 bytes and is used for one datagram after the other, so a read past
the received length is no crash: it sees what an earlier datagram left there. Here such a read
is a fault (`StaleRead`), and a datagram is its received bytes alone. Offsets are `Nat` where
the source has `size_t`; `walked_le` is why nothing wraps.
-/

set_option autoImplicit false

namespace Kiko.Diagnostics

open Rounds (Round Comes)

/-- The bytes `recvfrom` gave: as many as fit the buffer. -/
structure Datagram where
  bytes : Array UInt8
  fits : bytes.size ≤ 512

/-- A read at or past the received length. -/
structure StaleRead where
  index : Nat
deriving DecidableEq, Repr

/-- `n`, the length `recvfrom` answered. -/
abbrev Datagram.received (d : Datagram) : Nat := d.bytes.size

/-! ## Reads

Every read of the buffer goes through one function with a check, and a fault is a result of its
own. -/

/-- `buf[i]`. -/
def Datagram.read (d : Datagram) (i : Nat) : Except StaleRead UInt8 :=
  if h : i < d.received then .ok d.bytes[i] else .error ⟨i⟩

/-- `(buf[i] << 8) | buf[i + 1]`. -/
def Datagram.readU16 (d : Datagram) (i : Nat) : Except StaleRead UInt16 := do
  let high ← d.read i
  let low ← d.read (i + 1)
  return high.toUInt16 <<< 8 ||| low.toUInt16

/-- The four bytes from `buf[i]`, the first the most significant. -/
def Datagram.readU32 (d : Datagram) (i : Nat) : Except StaleRead UInt32 := do
  let b₀ ← d.read i
  let b₁ ← d.read (i + 1)
  let b₂ ← d.read (i + 2)
  let b₃ ← d.read (i + 3)
  return b₀.toUInt32 <<< 24 ||| b₁.toUInt32 <<< 16 ||| b₂.toUInt32 <<< 8 ||| b₃.toUInt32

section Reads

variable {d : Datagram} {i : Nat}

/-- A read is safe exactly below the received length. -/
theorem Datagram.read_ok_iff : (∃ b, d.read i = .ok b) ↔ i < d.received := by
  unfold read
  split
  next h => exact ⟨fun _ => h, fun _ => ⟨_, rfl⟩⟩
  next h => exact ⟨fun ⟨_, hb⟩ => (nomatch hb), fun hlt => absurd hlt h⟩

theorem Datagram.read_ok (h : i < d.received) : ∃ b, d.read i = .ok b := read_ok_iff.2 h

theorem Datagram.readU16_ok (h : i + 1 < d.received) : ∃ w, d.readU16 i = .ok w := by
  obtain ⟨high, hhigh⟩ := read_ok (d := d) (Nat.lt_of_succ_lt h)
  obtain ⟨low, hlow⟩ := read_ok (d := d) h
  refine ⟨high.toUInt16 <<< 8 ||| low.toUInt16, ?_⟩
  simp only [readU16, hhigh, hlow, bind, Except.bind, pure, Except.pure]

theorem Datagram.readU32_ok (h : i + 3 < d.received) : ∃ w, d.readU32 i = .ok w := by
  obtain ⟨b₀, h₀⟩ := read_ok (d := d) (i := i) (by omega)
  obtain ⟨b₁, h₁⟩ := read_ok (d := d) (i := i + 1) (by omega)
  obtain ⟨b₂, h₂⟩ := read_ok (d := d) (i := i + 2) (by omega)
  obtain ⟨b₃, h₃⟩ := read_ok (d := d) h
  refine ⟨b₀.toUInt32 <<< 24 ||| b₁.toUInt32 <<< 16 ||| b₂.toUInt32 <<< 8 ||| b₃.toUInt32, ?_⟩
  simp only [readU32, h₀, h₁, h₂, h₃, bind, Except.bind, pure, Except.pure]

end Reads

/-! ## The attribute loop -/

/-- `(attr_len + 3) & ~std::size_t{3}`: an attribute's value, padded to four bytes. -/
def padded (attrLen : UInt16) : Nat :=
  ((attrLen.toUInt64 + 3) &&& ~~~3).toNat

/-- `inet_ntop(AF_INET, …)` of an address in host order. -/
def inetNtop (addr : UInt32) : String :=
  toString (addr >>> 24) ++ "." ++ toString ((addr >>> 16) &&& 0xff) ++ "." ++
    toString ((addr >>> 8) &&& 0xff) ++ "." ++ toString (addr &&& 0xff)

/-- The address in an attribute, if it is one the round returns; `off` is past the header. -/
def mappedAddress (d : Datagram) (attrType attrLen : UInt16) (off : Nat) :
    Except StaleRead (Option Endpoint) :=
  if attrType = 0x0020 ∨ attrType = 0x0001 then
    if 8 ≤ attrLen then do
      let family ← d.read (off + 1)
      let port ← d.readU16 (off + 2)
      let xport := if attrType = 0x0020 then port ^^^ 0x2112 else port
      if family = 0x01 ∧ 8 ≤ attrLen then do
        let addr ← d.readU32 (off + 4)
        let xaddr := if attrType = 0x0020 then addr ^^^ 0x2112A442 else addr
        pure (some ⟨inetNtop xaddr, xport.toNat⟩)
      else pure none
    else pure none
  else pure none

/-- The body of `while (off + 4 <= n)`. Leaving without an address is the `break`, or the loop
    condition failing. -/
def attributeRound (d : Datagram) (off : Nat) :
    Except StaleRead (Round Nat (Option Endpoint)) :=
  if off + 4 ≤ d.received then do
    let attrType ← d.readU16 off
    let attrLen ← d.readU16 (off + 2)
    let off := off + 4
    if d.received < off + attrLen.toNat then
      pure (.leave none)
    else do
      match ← mappedAddress d attrType attrLen off with
      | some endpoint => pure (.leave (some endpoint))
      | none => pure (.again (off + padded attrLen))
  else pure (.leave none)

/-- What the wait does with one datagram. `none` without a fault is the `continue`, back to
    waiting; the outer `Option` is about the loop's rounds. -/
def stunReply (fuel : Nat) (d : Datagram) : Option (Except StaleRead (Option Endpoint)) :=
  if d.received < 20 then some (.ok none)
  else
    match d.readU16 0 with
    | .error e => some (.error e)
    | .ok msgType =>
      if msgType &&& 0x0110 ≠ 0x0100 then some (.ok none)
      else Rounds.run (attributeRound d) fuel 20

/-! ## Attributes -/

/-- The header of an attribute. -/
structure Attribute where
  type : UInt16
  length : UInt16
deriving DecidableEq, Repr

/-- `a` stands at `off`: its header is read there, and its value is inside the datagram. -/
structure AttributeAt (d : Datagram) (off : Nat) (a : Attribute) : Prop where
  type : d.readU16 off = .ok a.type
  length : d.readU16 (off + 2) = .ok a.length
  inside : off + 4 + a.length.toNat ≤ d.received

/-- The offsets come to by stepping over well-formed attributes, from the end of the STUN
    header. -/
inductive Walked (d : Datagram) : Nat → Prop
  | header : Walked d 20
  | past {off : Nat} {a : Attribute} : Walked d off → AttributeAt d off a →
      Walked d (off + 4 + padded a.length)

/-- `e` is the address an IPv4 mapped-address attribute at `off` gives, plain or XORed. -/
structure Maps (d : Datagram) (off : Nat) (a : Attribute) (e : Endpoint) : Prop where
  type : a.type = 0x0020 ∨ a.type = 0x0001
  length : 8 ≤ a.length
  family : d.read (off + 5) = .ok 0x01
  address : ∃ port addr, d.readU16 (off + 6) = .ok port ∧ d.readU32 (off + 8) = .ok addr ∧
    e = if a.type = 0x0020 then ⟨inetNtop (addr ^^^ 0x2112A442), (port ^^^ 0x2112).toNat⟩
      else ⟨inetNtop addr, port.toNat⟩

/-! ## Padding

An attribute's length is a 16-bit word, so four bytes more cannot wrap anything. -/

/-- Clearing the two low bits is dividing by four and multiplying back. -/
theorem and_not_three (x : BitVec 64) : x &&& ~~~3#64 = (x >>> 2) <<< 2 := by
  ext i hi
  rw [BitVec.getElem_and, BitVec.getElem_not, BitVec.getElem_shiftLeft,
    BitVec.getElem_eq_testBit_toNat (3#64)]
  by_cases h : i < 2
  · have hlow : Nat.testBit 3 i = true := by interval_cases i <;> rfl
    simp [h, hlow]
  · have hhigh : Nat.testBit 3 i = false := by
      apply Nat.testBit_lt_two_pow
      calc 3 < 2 ^ 2 := by decide
        _ ≤ 2 ^ i := Nat.pow_le_pow_right (by decide) (Nat.le_of_not_lt h)
    have hi2 : 2 + (i - 2) = i := Nat.add_sub_cancel' (Nat.le_of_not_lt h)
    simp only [BitVec.toNat_ofNat, Nat.reducePow, Nat.reduceMod, hhigh, Bool.not_false,
      Bool.and_true, h, decide_false, BitVec.getElem_ushiftRight, hi2,
      Bool.true_and]
    rw [BitVec.getLsbD_eq_getElem]

theorem padded_eq (attrLen : UInt16) : padded attrLen = (attrLen.toNat + 3) / 4 * 4 := by
  have hlt := attrLen.toNat_lt
  unfold padded
  rw [← UInt64.toNat_toBitVec, UInt64.toBitVec_and, UInt64.toBitVec_not]
  show (_ &&& ~~~3#64).toNat = _
  rw [and_not_three]
  simp only [BitVec.toNat_shiftLeft, BitVec.toNat_ushiftRight, Nat.shiftLeft_eq,
    Nat.shiftRight_eq_div_pow, UInt64.toNat_toBitVec, UInt64.toNat_add, UInt16.toNat_toUInt64,
    UInt64.reduceToNat]
  omega

theorem padded_le (attrLen : UInt16) : padded attrLen ≤ attrLen.toNat + 3 := by
  rw [padded_eq]
  omega

/-! ## One round

What a round may do is a short list, and the loop is that list again and again; the rest follows
from it. -/

section Rounds

variable {d : Datagram} {attrLen : UInt16} {off off' : Nat} {a : Attribute}
  {e : Endpoint}

/-- An attribute whose value is inside the datagram is looked at without leaving it. -/
theorem mappedAddress_ok (attrType : UInt16) (h : off + attrLen.toNat ≤ d.received) :
    ∃ answer, mappedAddress d attrType attrLen off = .ok answer := by
  unfold mappedAddress
  split
  · split
    next _ hlen =>
      -- eight bytes of value are what the longest read needs
      have h8 : 8 ≤ attrLen.toNat := UInt16.le_iff_toNat_le.mp hlen
      obtain ⟨family, hfamily⟩ := Datagram.read_ok (d := d) (i := off + 1) (by omega)
      obtain ⟨port, hport⟩ := Datagram.readU16_ok (d := d) (i := off + 2) (by omega)
      obtain ⟨addr, haddr⟩ := Datagram.readU32_ok (d := d) (i := off + 4) (by omega)
      simp only [hfamily, hport, haddr, bind, Except.bind, pure, Except.pure]
      split
      · exact ⟨_, rfl⟩
      · exact ⟨_, rfl⟩
    · exact ⟨_, rfl⟩
  · exact ⟨_, rfl⟩

/-- The address returned is the one the attribute gives. -/
theorem maps_of_mappedAddress
    (h : mappedAddress d a.type a.length (off + 4) = .ok (some e)) : Maps d off a e := by
  unfold mappedAddress at h
  split at h
  next htype =>
    split at h
    next hlen =>
      obtain ⟨family, hfamily, h⟩ := exists_of_bind_ok h
      obtain ⟨port, hport, h⟩ := exists_of_bind_ok h
      by_cases hv4 : family = 0x01 ∧ 8 ≤ a.length
      · simp only [if_pos hv4] at h
        obtain ⟨addr, haddr, h⟩ := exists_of_bind_ok h
        refine ⟨htype, hlen, by rw [← hv4.1]; exact hfamily, port, addr, hport, haddr, ?_⟩
        have he := Option.some.inj (Except.ok.inj h)
        rw [← he]
        by_cases hx : a.type = 0x0020
        · rw [if_pos hx, if_pos hx, if_pos hx]
        · rw [if_neg hx, if_neg hx, if_neg hx]
      · simp only [if_neg hv4] at h
        cases h
    · cases h
  · cases h

/-- **What a round can do.** It never faults; it leaves without an address, or a well-formed
attribute stands at `off`, and the round steps over it or returns the address it gives. -/
theorem attributeRound_cases (d : Datagram) (off : Nat) :
    attributeRound d off = .ok (.leave none) ∨
    ∃ a, AttributeAt d off a ∧
      (attributeRound d off = .ok (.again (off + 4 + padded a.length)) ∨
        ∃ e, Maps d off a e ∧ attributeRound d off = .ok (.leave (some e))) := by
  by_cases hmore : off + 4 ≤ d.received
  · obtain ⟨attrType, htype⟩ := Datagram.readU16_ok (d := d) (i := off) (by omega)
    obtain ⟨attrLen, hlen⟩ := Datagram.readU16_ok (d := d) (i := off + 2) (by omega)
    unfold attributeRound
    simp only [if_pos hmore, htype, hlen, bind, Except.bind, pure, Except.pure]
    by_cases hover : d.received < off + 4 + attrLen.toNat
    · left
      rw [if_pos hover]
    · right
      refine ⟨⟨attrType, attrLen⟩, ⟨htype, hlen, Nat.le_of_not_lt hover⟩, ?_⟩
      obtain ⟨answer, hanswer⟩ :=
        mappedAddress_ok attrType (Nat.le_of_not_lt hover)
      simp only [if_neg hover, hanswer]
      cases answer with
      | none => exact .inl rfl
      | some e => exact .inr ⟨e, maps_of_mappedAddress (a := ⟨attrType, attrLen⟩) hanswer, rfl⟩
  · left
    unfold attributeRound
    rw [if_neg hmore]
    rfl

theorem attributeRound_total (d : Datagram) (off : Nat) :
    ∃ next, attributeRound d off = .ok next := by
  obtain h | ⟨a, -, h | ⟨e, -, h⟩⟩ := attributeRound_cases d off
  · exact ⟨_, h⟩
  · exact ⟨_, h⟩
  · exact ⟨_, h⟩

/-- A round that goes on has stepped over an attribute. -/
theorem attributeRound_again (h : attributeRound d off = .ok (.again off')) :
    ∃ a, AttributeAt d off a ∧ off' = off + 4 + padded a.length := by
  obtain h' | ⟨a, hat, h' | ⟨e, -, h'⟩⟩ := attributeRound_cases d off
  · cases h'.symm.trans h
  · cases h'.symm.trans h
    exact ⟨a, hat, rfl⟩
  · cases h'.symm.trans h

/-- A round that returns an address has it from the attribute it stands at. -/
theorem attributeRound_leave (h : attributeRound d off = .ok (.leave (some e))) :
    ∃ a, AttributeAt d off a ∧ Maps d off a e := by
  obtain h' | ⟨a, hat, h' | ⟨e', hmaps, h'⟩⟩ := attributeRound_cases d off
  · cases h'.symm.trans h
  · cases h'.symm.trans h
  · cases h'.symm.trans h
    exact ⟨a, hat, hmaps⟩

/-- The header alone moves the offset by four. -/
theorem attributeRound_advances (h : attributeRound d off = .ok (.again off')) :
    off + 4 ≤ off' ∧ off + 4 ≤ d.received := by
  obtain ⟨a, hat, rfl⟩ := attributeRound_again h
  have hinside := hat.inside
  omega

end Rounds

/-! ## The whole loop -/

section Loop

variable {d : Datagram} {off fuel : Nat} {e : Endpoint}

/-- **The loop walks.** Wherever a round starts, every attribute before it was well formed. -/
theorem walked_of_comes (h : Comes (attributeRound d) 20 off) : Walked d off := by
  apply h.keeps (Walked d)
  · intro s s' hs hround
    obtain ⟨a, hat, rfl⟩ := attributeRound_again hround
    exact .past hs hat
  · exact .header

/-- **Offsets stay far below `size_t`.** A step leaves the datagram by the padding at most. -/
theorem walked_le (h : Walked d off) : off ≤ d.received + 23 := by
  cases h with
  | header => exact Nat.le_add_left _ _ |>.trans (Nat.add_le_add_left (by decide) _)
  | @past off a hwalk hat =>
    have hinside := hat.inside
    have hpad := padded_le a.length
    omega

/-- One round for each byte received, and one to leave, is enough. -/
theorem attributeLoop_ends (hfuel : d.received < fuel) :
    ∃ answer, Rounds.run (attributeRound d) fuel 20 = some (.ok answer) := by
  obtain ⟨r, hr⟩ : ∃ r, Rounds.run (attributeRound d) fuel 20 = some r := by
    apply Rounds.run_of_measure (fun _ => True) (fun off => d.received - off)
    · intro s s' _ hround
      obtain ⟨hadv, hmore⟩ := attributeRound_advances hround
      exact ⟨trivial, by omega⟩
    · trivial
    · show d.received - 20 < fuel
      omega
  -- a round never faults, so neither does the loop
  obtain ⟨off, -, hlast⟩ := Rounds.run_comes hr
  obtain ⟨next, hnext⟩ := attributeRound_total d off
  cases r with
  | error e => cases hnext.symm.trans hlast
  | ok answer => exact ⟨answer, hr⟩

/-- **Only a mapped address is returned.** -/
theorem attributeLoop_maps (h : Rounds.run (attributeRound d) fuel 20 = some (.ok (some e))) :
    ∃ off a, Walked d off ∧ AttributeAt d off a ∧ Maps d off a e := by
  obtain ⟨off, hcomes, hlast⟩ := Rounds.run_comes h
  obtain ⟨a, hat, hmaps⟩ := attributeRound_leave hlast
  exact ⟨off, a, walked_of_comes hcomes, hat, hmaps⟩

/-- **A reply is read safely.** No round reads at or past the received length (such a read is a
`StaleRead`, and no offset leads to one), every round that goes on has moved the offset by at
least four, so the loop ends, and an address comes from an IPv4 mapped-address attribute inside
the datagram, come to over the well-formed attributes before it. -/
theorem stunReply_safe (d : Datagram) :
    (∀ off, ∃ next, attributeRound d off = .ok next) ∧
    (∀ off off', attributeRound d off = .ok (.again off') →
      off + 4 ≤ off' ∧ off + 4 ≤ d.received) ∧
    (∃ answer, ∀ fuel, d.received < fuel → stunReply fuel d = some (.ok answer)) ∧
    ∀ fuel e, stunReply fuel d = some (.ok (some e)) →
      ∃ off a, Walked d off ∧ AttributeAt d off a ∧ Maps d off a e := by
  refine ⟨attributeRound_total d, fun _ _ h => attributeRound_advances h, ?_, ?_⟩
  · by_cases hshort : d.received < 20
    · exact ⟨none, fun fuel _ => if_pos hshort⟩
    · obtain ⟨msgType, htype⟩ := Datagram.readU16_ok (d := d) (i := 0) (by omega)
      by_cases hsuccess : msgType &&& 0x0110 ≠ 0x0100
      · refine ⟨none, ?_⟩
        intro fuel _
        simp only [stunReply, if_neg hshort, htype, if_pos hsuccess]
      · obtain ⟨answer, hanswer⟩ := attributeLoop_ends (Nat.lt_succ_self d.received)
        refine ⟨answer, ?_⟩
        intro fuel hfuel
        simp only [stunReply, if_neg hshort, htype, if_neg hsuccess]
        exact Rounds.run_mono hanswer hfuel
  · intro fuel e h
    unfold stunReply at h
    split at h
    · cases h
    · split at h
      · cases h
      · split at h
        · cases h
        · exact attributeLoop_maps h

/-- A response whose second attribute is the XORed address 192.0.2.1, port 32853. -/
example : stunReply 45 ⟨#[1, 1, 0, 20, 0x21, 0x12, 0xA4, 0x42, 0, 0, 0, 0, 0, 0, 0, 0, 0, 0, 0, 0,
    0x80, 0x22, 0, 1, 0x78, 0, 0, 0,
    0, 0x20, 0, 8, 0, 1, 0xA1, 0x47, 0xE1, 0x12, 0xA6, 0x43], by decide⟩ =
      some (.ok (some ⟨"192.0.2.1", 32853⟩)) := by decide +kernel

end Loop

end Kiko.Diagnostics
