import Mathlib

/-!
# Signed arithmetic that must not overflow

The `int` of C++ has 32 bits, and a signed operation whose exact result does not fit has no
defined behaviour. `check n` is the result of an operation whose exact result is `n`: the value
as an `int`, or `none` where the program has no meaning any more. A sequence of operations is
defined when each exact result fits (`check_bind_isSome`).
-/

set_option autoImplicit false

namespace CheckedInt

variable {α β : Type} {n : Int}

/-- In the range of an `int`. -/
def Fits (n : Int) : Prop := -2147483648 ≤ n ∧ n ≤ 2147483647

instance : DecidablePred Fits := fun n => inferInstanceAs (Decidable (-2147483648 ≤ n ∧ n ≤ 2147483647))

abbrev CInt := { n : Int // Fits n }

/-- The exact result `n` of an operation, as an `int`. -/
def check (n : Int) : Option CInt := if h : Fits n then some ⟨n, h⟩ else none

theorem check_of_fits (h : Fits n) : check n = some ⟨n, h⟩ := dif_pos h

theorem check_of_not_fits (h : ¬ Fits n) : check n = none := dif_neg h

theorem val_of_check {m : CInt} (h : check n = some m) : m.val = n := by
  by_cases hfits : Fits n
  · rw [check_of_fits hfits] at h
    rw [← Option.some.inj h]
  · rw [check_of_not_fits hfits] at h
    cases h

/-- **One operation, and the rest.** -/
theorem check_bind_isSome {f : CInt → Option α} :
    ((check n).bind f).isSome ↔ ∃ h : Fits n, (f ⟨n, h⟩).isSome := by
  by_cases h : Fits n
  · rw [check_of_fits h]
    exact ⟨fun hf => ⟨h, hf⟩, fun hf => hf.2⟩
  · rw [check_of_not_fits h]
    exact ⟨fun hf => (nomatch hf), fun hf => absurd hf.1 h⟩

/-- A value of a computation is one that it is defined for. -/
theorem bind_isSome {x : Option α} {f : α → Option β} :
    (x.bind f).isSome ↔ ∃ a, x = some a ∧ (f a).isSome := by
  cases x with
  | none => exact ⟨fun h => (nomatch h), fun ⟨_, h, _⟩ => (nomatch h)⟩
  | some a => exact ⟨fun h => ⟨a, rfl, h⟩, fun ⟨_, h, hf⟩ => by cases h; exact hf⟩

/-- A loop over a list is defined when it is for each element. -/
theorem mapM_isSome {f : α → Option β} {l : List α} :
    (l.mapM f).isSome ↔ ∀ a ∈ l, (f a).isSome := by
  induction l with
  | nil => exact ⟨fun _ a ha => absurd ha List.not_mem_nil, fun _ => rfl⟩
  | cons a l ih =>
    rw [List.mapM_cons, List.forall_mem_cons]
    show ((f a).bind fun b => (l.mapM f).bind fun bs => some (b :: bs)).isSome ↔ _
    rw [bind_isSome]
    constructor
    · rintro ⟨b, hb, hrest⟩
      obtain ⟨bs, hbs, -⟩ := bind_isSome.mp hrest
      exact ⟨Option.isSome_iff_exists.mpr ⟨b, hb⟩, ih.mp (Option.isSome_iff_exists.mpr ⟨bs, hbs⟩)⟩
    · rintro ⟨hb, hrest⟩
      obtain ⟨b, hb⟩ := Option.isSome_iff_exists.mp hb
      obtain ⟨bs, hbs⟩ := Option.isSome_iff_exists.mp (ih.mpr hrest)
      exact ⟨b, hb, bind_isSome.mpr ⟨bs, hbs, rfl⟩⟩

end CheckedInt
