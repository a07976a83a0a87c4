import Mathlib

/-!
# Loops, a round at a time

A `while` loop is given by its **round**: from the loop's state it throws, goes round again
from a new state, or leaves with an answer. `run` gives the loop a number of rounds to use up,
so a loop that never leaves is one that `run` never answers for, and *the loop ends* is the
statement that some number of rounds is enough.

Three rules carry a proof about a loop. A measure that every round makes smaller bounds the
rounds it needs (`run_of_measure`). What a round keeps holds of every state the loop comes to
(`Comes.keeps`). The answer is the answer of one round, taken in a state the loop comes to
(`run_comes`).
-/

set_option autoImplicit false

namespace Rounds

/-- What a round decides: to go round again, or to leave the loop. -/
inductive Round (σ α : Type) where
  | again (s : σ)
  | leave (a : α)
deriving DecidableEq, Repr

variable {σ α ε : Type}

/-- The loop from `s`, with at most `fuel` rounds; `none` says that it was still going. -/
def run (round : σ → Except ε (Round σ α)) : Nat → σ → Option (Except ε α)
  | 0, _ => none
  | fuel + 1, s =>
    match round s with
    | .error e => some (.error e)
    | .ok (.leave a) => some (.ok a)
    | .ok (.again s') => run round fuel s'

/-- The states in which a round starts, when the loop starts in `s₀`. -/
inductive Comes (round : σ → Except ε (Round σ α)) (s₀ : σ) : σ → Prop
  | start : Comes round s₀ s₀
  | again {s s' : σ} : Comes round s₀ s → round s = .ok (.again s') → Comes round s₀ s'

variable {round : σ → Except ε (Round σ α)} {s s₀ s' : σ} {fuel fuel' : Nat}
  {r r' : Except ε α} {e : ε} {a : α}

theorem run_error (h : round s = .error e) : run round (fuel + 1) s = some (.error e) := by
  rw [run, h]

theorem run_leave (h : round s = .ok (.leave a)) : run round (fuel + 1) s = some (.ok a) := by
  rw [run, h]

theorem run_again (h : round s = .ok (.again s')) :
    run round (fuel + 1) s = run round fuel s' := by
  rw [run, h]

/-- More rounds than needed change nothing. -/
theorem run_mono (h : run round fuel s = some r) (hle : fuel ≤ fuel') :
    run round fuel' s = some r := by
  induction fuel generalizing s fuel' with
  | zero => cases h
  | succ fuel ih =>
    obtain ⟨fuel', rfl⟩ : ∃ k, fuel' = k + 1 := ⟨fuel' - 1, by omega⟩
    rw [run] at h ⊢
    cases hround : round s with
    | error e =>
      rw [hround] at h
      exact h
    | ok next =>
      rw [hround] at h
      cases next with
      | leave a => exact h
      | again s' => exact ih h (Nat.le_of_succ_le_succ hle)

/-- **The loop ends.** Under an invariant every round makes the measure smaller, so one round
more than the measure's first value is enough. -/
theorem run_of_measure (I : σ → Prop) (μ : σ → Nat)
    (hround : ∀ s s', I s → round s = .ok (.again s') → I s' ∧ μ s' < μ s)
    (hs : I s) (hfuel : μ s < fuel) : ∃ r, run round fuel s = some r := by
  induction fuel generalizing s with
  | zero => exact absurd hfuel (Nat.not_lt_zero _)
  | succ fuel ih =>
    cases h : round s with
    | error e => exact ⟨_, run_error h⟩
    | ok next =>
      cases next with
      | leave a => exact ⟨_, run_leave h⟩
      | again s' =>
        obtain ⟨hs', hlt⟩ := hround s s' hs h
        obtain ⟨r, hr⟩ := ih hs' (by omega)
        exact ⟨r, by rw [run_again h, hr]⟩

/-- What a round keeps holds wherever the loop comes to. -/
theorem Comes.keeps (I : σ → Prop) (hround : ∀ s s', I s → round s = .ok (.again s') → I s')
    (hs : I s₀) (h : Comes round s₀ s) : I s := by
  induction h with
  | start => exact hs
  | again _ hnext ih => exact hround _ _ ih hnext

theorem Comes.step_left (hnext : round s₀ = .ok (.again s')) (h : Comes round s' s) :
    Comes round s₀ s := by
  induction h with
  | start => exact .again .start hnext
  | again _ hlast ih => exact .again ih hlast

/-- **The answer is a round's.** The loop ends as one round does, in a state it comes to. -/
theorem run_comes (h : run round fuel s₀ = some r) :
    ∃ s, Comes round s₀ s ∧ round s = r.map .leave := by
  induction fuel generalizing s₀ with
  | zero => cases h
  | succ fuel ih =>
    cases hround : round s₀ with
    | error e =>
      rw [run_error hround] at h
      obtain rfl := Option.some.inj h
      exact ⟨s₀, .start, hround⟩
    | ok next =>
      cases next with
      | leave a =>
        rw [run_leave hround] at h
        obtain rfl := Option.some.inj h
        exact ⟨s₀, .start, hround⟩
      | again s' =>
        rw [run_again hround] at h
        obtain ⟨s, hcomes, hs⟩ := ih h
        exact ⟨s, hcomes.step_left hround, hs⟩

end Rounds
