import Mathlib

/-!
# Transition systems given by a partial step function

A system is a partial function `step : σ → ℓ → Option σ`: in state `s` the label `l` is
enabled exactly when `step s l` answers. Everything the environment decides (which
message arrives, which timer fires, who moves) is carried by the label, so a finite run
is a list of labels and can be evaluated.

The second notion is the **guarded** run, `ReachUnder step G s₀`: a run each of whose
steps was taken in a state that met the condition `G`. It is what a statement of the
form "in every run whose steps all meet `G`, …" quantifies over, and an invariant is
then only asked to survive the steps `G` allows (`ReachUnder.invariant`).
-/

set_option autoImplicit false

namespace Lts

variable {σ ℓ : Type*} {step : σ → ℓ → Option σ} {G H : σ → ℓ → Prop} {s₀ s s' : σ}

/-! ## Finite runs -/

/-- The state after the labels `ls`, when each of them was enabled in its turn. -/
def run (step : σ → ℓ → Option σ) : σ → List ℓ → Option σ
  | s, [] => some s
  | s, l :: ls => (step s l).bind fun s' => run step s' ls

@[simp] theorem run_nil : run step s [] = some s := rfl

@[simp] theorem run_cons {l : ℓ} {ls : List ℓ} :
    run step s (l :: ls) = (step s l).bind fun s' => run step s' ls := rfl

theorem run_append {ls ms : List ℓ} :
    run step s (ls ++ ms) = (run step s ls).bind fun s' => run step s' ms := by
  induction ls generalizing s with
  | nil => rfl
  | cons l ls ih =>
    simp only [List.cons_append, run_cons, Option.bind_assoc]
    exact Option.bind_congr fun s' _ => ih

theorem run_concat {ls : List ℓ} {l : ℓ} :
    run step s (ls ++ [l]) = (run step s ls).bind fun s' => step s' l := by
  rw [run_append]
  exact Option.bind_congr fun s' _ => by cases h : step s' l <;> simp [h]

/-! ## Reachability, under a condition on the steps -/

/-- `s` is reached from `s₀` by steps that were each taken in a state meeting `G`. -/
inductive ReachUnder (step : σ → ℓ → Option σ) (G : σ → ℓ → Prop) (s₀ : σ) : σ → Prop
  | refl : ReachUnder step G s₀ s₀
  | tail {s s' : σ} {l : ℓ} :
      ReachUnder step G s₀ s → G s l → step s l = some s' → ReachUnder step G s₀ s'

/-- Reachability with no condition on the steps. -/
abbrev Reach (step : σ → ℓ → Option σ) (s₀ : σ) : σ → Prop :=
  ReachUnder step (fun _ _ => True) s₀

/-- **The invariant rule.** What holds at the start and survives every step that meets
    the condition holds of every state reached. -/
theorem ReachUnder.invariant {I : σ → Prop} (h : ReachUnder step G s₀ s) (start : I s₀)
    (keep : ∀ {s s' : σ} {l : ℓ}, I s → G s l → step s l = some s' → I s') : I s := by
  induction h with
  | refl => exact start
  | tail _ hg hs ih => exact keep ih hg hs

/-- The invariant rule with another invariant already known of every state reached. -/
theorem ReachUnder.invariant_with {I J : σ → Prop} (h : ReachUnder step G s₀ s)
    (known : ∀ {s : σ}, ReachUnder step G s₀ s → J s) (start : I s₀)
    (keep : ∀ {s s' : σ} {l : ℓ}, J s → J s' → I s → G s l → step s l = some s' → I s') :
    I s := by
  induction h with
  | refl => exact start
  | tail hr hg hs ih => exact keep (known hr) (known (hr.tail hg hs)) ih hg hs

theorem ReachUnder.mono (h : ReachUnder step G s₀ s) (hGH : ∀ s l, G s l → H s l) :
    ReachUnder step H s₀ s := by
  induction h with
  | refl => exact .refl
  | tail _ hg hs ih => exact ih.tail (hGH _ _ hg) hs

/-- A run meeting a condition is a run. -/
theorem ReachUnder.reach (h : ReachUnder step G s₀ s) : Reach step s₀ s :=
  h.mono fun _ _ _ => trivial

theorem ReachUnder.head {l : ℓ} (hg : G s₀ l) (hs : step s₀ l = some s)
    (h : ReachUnder step G s s') : ReachUnder step G s₀ s' := by
  induction h with
  | refl => exact .tail .refl hg hs
  | tail _ hg' hs' ih => exact ih.tail hg' hs'

/-! ## Runs and reachability -/

/-- The labels of a run, each with the state it was taken in, all meet `G`. -/
def Meets (step : σ → ℓ → Option σ) (G : σ → ℓ → Prop) : σ → List ℓ → Prop
  | _, [] => True
  | s, l :: ls => G s l ∧ ∀ s', step s l = some s' → Meets step G s' ls

instance Meets.decidable [∀ s l, Decidable (G s l)] :
    ∀ (s : σ) (ls : List ℓ), Decidable (Meets step G s ls)
  | _, [] => inferInstanceAs (Decidable True)
  | s, l :: ls =>
    match h : step s l with
    | none => decidable_of_iff (G s l) (by simp [Meets, h])
    | some s' =>
      have := Meets.decidable s' ls
      decidable_of_iff (G s l ∧ Meets step G s' ls) (by simp [Meets, h])

theorem ReachUnder.of_run (ls : List ℓ) (hr : run step s₀ ls = some s)
    (hm : Meets step G s₀ ls) : ReachUnder step G s₀ s := by
  induction ls generalizing s₀ with
  | nil =>
    obtain rfl : s₀ = s := by simpa using hr
    exact .refl
  | cons l ls ih =>
    simp only [run_cons, Option.bind_eq_some_iff] at hr
    obtain ⟨s₁, h₁, h₂⟩ := hr
    exact .head hm.1 h₁ (ih h₂ (hm.2 s₁ h₁))

theorem meets_true {ls : List ℓ} : Meets step (fun _ _ => True) s ls := by
  induction ls generalizing s with
  | nil => trivial
  | cons l ls ih => exact ⟨trivial, fun _ _ => ih⟩

theorem Reach.of_run (ls : List ℓ) (hr : run step s₀ ls = some s) : Reach step s₀ s :=
  ReachUnder.of_run ls hr meets_true

/-- A run whose last state passes the test `P` has such a last state. -/
theorem exists_run_eq (step : σ → ℓ → Option σ) (s₀ : σ) (ls : List ℓ) (P : σ → Bool)
    (hr : (run step s₀ ls).any P = true) : ∃ s, run step s₀ ls = some s ∧ P s = true :=
  (Option.any_eq_true P _).mp hr

theorem ReachUnder.exists_of_run (step : σ → ℓ → Option σ) (G : σ → ℓ → Prop) (s₀ : σ)
    (ls : List ℓ) (P : σ → Bool) (hr : (run step s₀ ls).any P = true)
    (hm : Meets step G s₀ ls) : ∃ s, ReachUnder step G s₀ s ∧ P s = true := by
  obtain ⟨s, hs, hP⟩ := exists_run_eq step s₀ ls P hr
  exact ⟨s, .of_run ls hs hm, hP⟩

/-- The unguarded form. -/
theorem Reach.exists_of_run (step : σ → ℓ → Option σ) (s₀ : σ) (ls : List ℓ) (P : σ → Bool)
    (hr : (run step s₀ ls).any P = true) : ∃ s, Reach step s₀ s ∧ P s = true :=
  ReachUnder.exists_of_run step _ s₀ ls P hr meets_true

/-- Every state reached is reached by a finite run. -/
theorem ReachUnder.exists_run (h : ReachUnder step G s₀ s) :
    ∃ ls, run step s₀ ls = some s := by
  induction h with
  | refl => exact ⟨[], rfl⟩
  | @tail s s' l _ _ hs ih =>
    obtain ⟨ls, hls⟩ := ih
    exact ⟨ls ++ [l], by simp [run_concat, hls, hs]⟩

/-- An invariant that may also speak of the labels taken so far. -/
theorem run_invariant {I : List ℓ → σ → Prop} {ls : List ℓ} (hr : run step s₀ ls = some s)
    (start : I [] s₀)
    (keep : ∀ {ls : List ℓ} {s s' : σ} {l : ℓ}, I ls s → step s l = some s' →
      I (ls ++ [l]) s') : I ls s := by
  induction ls using List.reverseRecOn generalizing s with
  | nil =>
    obtain rfl : s₀ = s := by simpa using hr
    exact start
  | append_singleton ls l ih =>
    simp only [run_concat, Option.bind_eq_some_iff] at hr
    obtain ⟨s₁, h₁, h₂⟩ := hr
    exact keep (ih h₁) h₂

/-! ## Runs that end -/

/-- Every run from `s` is finite. -/
def Ends (step : σ → ℓ → Option σ) (s : σ) : Prop := Acc (fun s' s => ∃ l, step s l = some s') s

/-- A measure that every step lowers, as long as an invariant holds that every step keeps. -/
theorem ends_of_measure {β : Type*} [Preorder β] [WellFoundedLT β] (μ : σ → β) {I : σ → Prop}
    (lower : ∀ {s s' : σ} {l : ℓ}, I s → step s l = some s' → I s' ∧ μ s' < μ s) (hs : I s) :
    Ends step s := by
  induction hμ : μ s using WellFoundedLT.induction generalizing s with
  | ind b ih =>
    subst hμ
    refine ⟨_, fun s' ⟨l, hl⟩ => ?_⟩
    obtain ⟨hI, hlt⟩ := lower hs hl
    exact ih _ hlt hI rfl

/-- Where every run is finite, some run goes on until it can go no further. -/
theorem Ends.exists_stopped (h : Ends step s) (hr : Reach step s₀ s) :
    ∃ s', Reach step s₀ s' ∧ ∀ l, step s' l = none := by
  induction h with
  | intro s _ ih =>
    by_cases hstop : ∀ l, step s l = none
    · exact ⟨s, hr, hstop⟩
    · simp only [not_forall] at hstop
      obtain ⟨l, hl⟩ := hstop
      obtain ⟨s', hs'⟩ := Option.ne_none_iff_exists'.mp hl
      exact ih s' ⟨l, hs'⟩ (hr.tail trivial hs')

/-- What a system comes to, whichever way it goes: every run is finite, a run that can go no
    further has the outcome `o`, and none has another. -/
structure Concludes {ω : Type*} (step : σ → ℓ → Option σ) (s₀ : σ) (outcome : σ → Option ω)
    (o : ω) : Prop where
  ends : Ends step s₀
  stopped : ∀ s, Reach step s₀ s → (∀ l, step s l = none) → outcome s = some o
  only : ∀ s, Reach step s₀ s → ∀ o', outcome s = some o' → o' = o

/-- A system that concludes does so in some run. -/
theorem Concludes.exists_run {ω : Type*} {outcome : σ → Option ω} {o : ω}
    (h : Concludes step s₀ outcome o) : ∃ s, Reach step s₀ s ∧ outcome s = some o := by
  obtain ⟨s, hr, hstop⟩ := h.ends.exists_stopped .refl
  exact ⟨s, hr, h.stopped s hr hstop⟩

end Lts
