import Mathlib

/-!
# Control messages (`core/common`, `core/protocol`)

What every protocol of the repository is written in: a `Message` is a type and a map
from field names to strings, numbers travel as decimal text, and a field that does not
read back as it should raises a `KikoError`. Errors are modelled by their text.

The one fact other modules need about the text form is that a 64-bit number survives
it, `parseU64Strict_toString`: `std::to_string` on one side and `parse_u64_strict` on the
other are inverse below `2 ^ 64`.
-/

set_option autoImplicit false

namespace Kiko

/-- `KikoError`, by its text. -/
abbrev KikoError := String

/-- A sequence of calls returns when each of them does. -/
theorem exists_of_bind_ok {ε α β : Type} {x : Except ε α} {f : α → Except ε β} {b : β}
    (h : x >>= f = .ok b) : ∃ a, x = .ok a ∧ f a = .ok b := by
  cases x with
  | error e => cases h
  | ok a => exact ⟨a, rfl, h⟩

abbrev Bytes := List UInt8

/-- The largest value of a `std::uint64_t`. -/
def u64Max : Nat := 2 ^ 64 - 1

/-- A sum of `std::uint64_t`. -/
def addU64 (a b : Nat) : Nat := (a + b) % 2 ^ 64

/-- A difference of `std::uint64_t`. -/
def subU64 (a b : Nat) : Nat := (a + 2 ^ 64 - b) % 2 ^ 64

theorem addU64_eq {a b : Nat} (h : a + b ≤ u64Max) : addU64 a b = a + b :=
  Nat.mod_eq_of_lt (h.trans_lt (by decide))

theorem subU64_eq {a b : Nat} (h : b ≤ a) (ha : a ≤ u64Max) : subU64 a b = a - b := by
  have hsub : a + 2 ^ 64 - b = (a - b) + 2 ^ 64 := by omega
  have hlt : a - b < 2 ^ 64 := (Nat.sub_le a b).trans_lt (ha.trans_lt (by decide))
  rw [subU64, hsub, Nat.add_mod_right, Nat.mod_eq_of_lt hlt]

inductive Role
  | sender
  | receiver
deriving DecidableEq, Repr

/-- `peer_role`. -/
def Role.peer : Role → Role
  | .sender => .receiver
  | .receiver => .sender

@[simp] theorem Role.peer_peer (r : Role) : r.peer.peer = r := by cases r <;> rfl

@[simp] theorem Role.peer_ne (r : Role) : r.peer ≠ r := by cases r <;> decide

/-- What holds of a role and of its peer holds of both. -/
theorem Role.forall_of_peer {P : Role → Prop} {r : Role} (h : P r) (hp : P r.peer) (r' : Role) :
    P r' := by
  cases r <;> cases r' <;> first | exact h | exact hp

theorem Role.eq_or_eq_peer (r' r : Role) : r' = r ∨ r' = r.peer :=
  Role.forall_of_peer (P := fun r' => r' = r ∨ r' = r.peer) (.inl rfl) (.inr rfl) r'

structure Endpoint where
  host : String
  port : Nat
deriving DecidableEq, Repr

/-- `Endpoint::is_unspecified`. -/
def Endpoint.isUnspecified (e : Endpoint) : Bool :=
  e.host == "" || e.host == "0.0.0.0" || e.host == "::" || e.host == "[::]"

/-! ## Numbers as text -/

/-- One round of `parse_u64_strict`: a non-digit and an overflow both give up. -/
def parseDigit (out : Nat) (c : Char) : Option Nat :=
  if c.isDigit then
    let digit := c.toNat - '0'.toNat
    if (u64Max - digit) / 10 < out then none else some (out * 10 + digit)
  else none

/-- `parse_u64_strict`. -/
def parseU64Strict (value : String) : Option Nat :=
  if value.toList = [] then none else value.toList.foldlM parseDigit 0

/-- Reading digits on top of `out` never overflows while the number they spell fits. -/
theorem foldlM_parseDigit {cs : List Char} {out : Nat} (hd : ∀ c ∈ cs, c.isDigit)
    (hle : Nat.ofDigitChars 10 cs out ≤ u64Max) :
    cs.foldlM parseDigit out = some (Nat.ofDigitChars 10 cs out) := by
  induction cs generalizing out with
  | nil => rfl
  | cons c cs ih =>
    have hc : c.isDigit := hd c (by simp)
    rw [Nat.ofDigitChars_cons] at hle ⊢
    -- the partial number is at most the whole one, so the source's overflow guard is off
    have hpart : 10 * out + (c.toNat - '0'.toNat) ≤ u64Max := by
      refine Nat.le_trans ?_ hle
      rw [Nat.ofDigitChars_eq_ofDigitChars_zero]
      exact Nat.le_trans (Nat.le_mul_of_pos_left _ (Nat.pow_pos (by decide)))
        (Nat.le_add_right _ _)
    have hguard : ¬ (u64Max - (c.toNat - '0'.toNat)) / 10 < out := by omega
    simp only [List.foldlM_cons, parseDigit, hc, if_true, if_neg hguard, Option.bind_eq_bind,
      Option.bind_some]
    rw [Nat.mul_comm out 10]
    exact ih (fun c' hc' => hd c' (List.mem_cons_of_mem _ hc')) hle

/-- **A 64-bit number survives the wire.** -/
theorem parseU64Strict_toString {n : Nat} (h : n ≤ u64Max) :
    parseU64Strict (toString n) = some n := by
  have hl : (toString n).toList = Nat.toDigits 10 n := Nat.toList_repr
  unfold parseU64Strict
  rw [hl, if_neg Nat.toDigits_ne_nil]
  have hnum : Nat.ofDigitChars 10 (Nat.toDigits 10 n) 0 = n := Nat.ofDigitChars_ten_toDigits
  have hfold : (Nat.toDigits 10 n).foldlM parseDigit 0 = some (Nat.ofDigitChars 10 _ 0) :=
    foldlM_parseDigit (fun c hc => Nat.isDigit_of_mem_toDigits (by decide) (by decide) hc)
      (by rw [hnum]; exact h)
  rw [hfold, hnum]

example : parseU64Strict "18446744073709551615" = some u64Max := by decide
example : parseU64Strict "18446744073709551616" = none := by decide

/-- `split_csv`. -/
def splitCsv (value : String) : List String :=
  ((value.toList.splitOn ',').map String.ofList).filter (· ≠ "")

/-- `join_csv`. -/
def joinCsv (values : List String) : String := ",".intercalate values

/-! ## Messages

A field that is missing has a default in some places and is an error in others; which of
the two it is belongs to the caller. -/

structure Message where
  type : String
  fields : List (String × String) := []
deriving DecidableEq, Repr

namespace Message

/-- `Message::get`. -/
def get (m : Message) (key : String) (fallback : String := "") : String :=
  (m.fields.lookup key).getD fallback

/-- `Message::get_u64`. -/
def getU64 (m : Message) (key : String) (fallback : Nat := 0) : Except KikoError Nat :=
  let value := m.get key
  if value = "" then .ok fallback
  else match parseU64Strict value with
    | some number => .ok number
    | none => .error ("control message field is not an unsigned integer: " ++ key)

/-- `message_port_field`. -/
def portField (m : Message) (key : String) (allowZero : Bool := false) :
    Except KikoError (Option Nat) :=
  if m.get key = "" then .ok none
  else match m.getU64 key 0 with
    | .error e => .error e
    | .ok port =>
      if 65535 < port ∨ (allowZero = false ∧ port = 0) then
        .error ("invalid port field: " ++ key)
      else .ok (some port)

theorem getU64_eq {m : Message} {key : String} {fallback n : Nat}
    (hget : m.get key = toString n) (hn : n ≤ u64Max) : m.getU64 key fallback = .ok n := by
  have hne : toString n ≠ "" := by
    intro h
    have := congrArg String.toList h
    rw [show (toString n).toList = Nat.toDigits 10 n from Nat.toList_repr] at this
    exact Nat.toDigits_ne_nil this
  simp only [getU64, hget, if_neg hne, parseU64Strict_toString hn]

end Message
end Kiko
