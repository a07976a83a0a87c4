import Mathlib

/-!
# A state and the states before it

What an onlooker may see of a computation is not only the state it ends in. `History` keeps the
states that were passed on the way, and `Moves R` says that each was reached from the one before
by a step of `R`. What `R` and its repetition cannot undo then holds between any two states of
the history, the earlier and the later (`Moves.ordered`).
-/

set_option autoImplicit false

structure History (σ : Type*) where
  now : σ
  /-- the newest first -/
  past : List σ := []

namespace History

variable {σ : Type*} {R S : σ → σ → Prop} {I : σ → Prop} {h h' h'' : History σ} {s : σ}

def become (h : History σ) (s : σ) : History σ := ⟨s, h.now :: h.past⟩

/-- Every state there was, the newest first. -/
def states (h : History σ) : List σ := h.now :: h.past

@[simp] theorem become_now : (h.become s).now = s := rfl

@[simp] theorem states_become : (h.become s).states = s :: h.states := rfl

theorem now_mem_states : h.now ∈ h.states := List.mem_cons_self

inductive Moves (R : σ → σ → Prop) (h : History σ) : History σ → Prop
  | refl : Moves R h h
  | step {h' : History σ} {s : σ} : Moves R h h' → R h'.now s → Moves R h (h'.become s)

theorem Moves.single (hs : R h.now s) : Moves R h (h.become s) := .step .refl hs

theorem Moves.trans (hm : Moves R h h') (hm' : Moves R h' h'') : Moves R h h'' := by
  induction hm' with
  | refl => exact hm
  | step _ hs ih => exact ih.step hs

/-- The rule for a change of the steps: an invariant may be used, and is kept. -/
theorem Moves.strengthen (hm : Moves R h h') (start : I h.now)
    (keep : ∀ {s s' : σ}, I s → R s s' → S s s' ∧ I s') : Moves S h h' ∧ I h'.now := by
  induction hm with
  | refl => exact ⟨.refl, start⟩
  | step _ hs ih =>
    obtain ⟨hS, hI⟩ := keep ih.2 hs
    exact ⟨ih.1.step hS, hI⟩

theorem Moves.mono (hm : Moves R h h') (hRS : ∀ {s s' : σ}, R s s' → S s s') : Moves S h h' :=
  (hm.strengthen (I := fun _ => True) trivial fun _ hs => ⟨hRS hs, trivial⟩).1

/-- What holds at the start and survives every step holds at the end. -/
theorem Moves.invariant (hm : Moves R h h') (start : I h.now)
    (keep : ∀ {s s' : σ}, I s → R s s' → I s') : I h'.now :=
  (hm.strengthen (S := R) start fun hI hs => ⟨hs, keep hI hs⟩).2

/-- And in every state on the way. -/
theorem Moves.everywhere (hm : Moves R h h') (start : ∀ s ∈ h.states, I s)
    (keep : ∀ {s s' : σ}, I s → R s s' → I s') : ∀ s ∈ h'.states, I s := by
  induction hm with
  | refl => exact start
  | step _ hs ih =>
    intro s hmem
    rcases List.mem_cons.mp hmem with rfl | hmem
    · exact keep (ih _ now_mem_states) hs
    · exact ih s hmem

/-- The history before is a part of the history after. -/
theorem Moves.suffix (hm : Moves R h h') : h.states <:+ h'.states := by
  induction hm with
  | refl => exact List.suffix_rfl
  | step _ _ ih => exact ih.trans (List.suffix_cons _ _)

/-- Steps of a preorder: an earlier state is below every later one. -/
theorem Moves.ordered [IsPreorder σ R] (hm : Moves R h h')
    (start : h.states.Pairwise fun later earlier => R earlier later) :
    h'.states.Pairwise fun later earlier => R earlier later := by
  induction hm with
  | refl => exact start
  | @step h' s _ hs ih =>
    refine List.pairwise_cons.mpr ⟨?_, ih⟩
    intro earlier hmem
    have hnow : R earlier h'.now := by
      rcases List.mem_cons.mp hmem with rfl | hmem
      · exact Std.Refl.refl _
      · exact (List.pairwise_cons.mp ih).1 earlier hmem
    exact Trans.trans hnow hs

theorem Moves.related [IsPreorder σ R] (hm : Moves R h h') : R h.now h'.now := by
  induction hm with
  | refl => exact Std.Refl.refl _
  | step _ hs ih => exact Trans.trans ih hs

end History
