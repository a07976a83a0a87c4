import Mathlib

/-!
# What a computation that may throw leaves behind

A computation in `EStateM` ends with a result or with an exception, and what it has done to the
state stays either way. `Ensures R Q m s` says both: from `s` the state it ends in satisfies
`R`, and where there is a result, the result and the state satisfy `Q`. The rules follow the
program: a sequence meanwhile keeps `R`, and hands `Q` on.

Where the exception itself matters, `Settles Q E m s` has a postcondition for each way of
ending: `Q` of the result, `E` of the exception.
-/

set_option autoImplicit false

namespace Effect

variable {ε σ α β : Type} {R R' : σ → Prop} {Q Q' : α → σ → Prop} {P : β → σ → Prop}
  {m : EStateM ε σ α} {f : α → EStateM ε σ β} {s s' : σ} {a : α} {e : ε}

def Ensures (R : σ → Prop) (Q : α → σ → Prop) (m : EStateM ε σ α) (s : σ) : Prop :=
  match m s with
  | .ok a s' => R s' ∧ Q a s'
  | .error _ s' => R s'

theorem Ensures.ok (h : Ensures R Q m s) (hm : m s = .ok a s') : R s' ∧ Q a s' := by
  rwa [Ensures, hm] at h

theorem Ensures.error (h : Ensures R Q m s) (hm : m s = .error e s') : R s' := by
  rwa [Ensures, hm] at h

theorem Ensures.mono (h : Ensures R Q m s) (hR : ∀ s', R s' → R' s')
    (hQ : ∀ a s', R s' → Q a s' → Q' a s') : Ensures R' Q' m s := by
  unfold Ensures at h ⊢
  split at h
  · exact ⟨hR _ h.1, hQ _ _ h.1 h.2⟩
  · exact hR _ h

/-- Two things known of one computation. -/
theorem Ensures.and (h : Ensures R Q m s) (h' : Ensures R' Q' m s) :
    Ensures (fun s' => R s' ∧ R' s') (fun a s' => Q a s' ∧ Q' a s') m s := by
  unfold Ensures at h h' ⊢
  cases hm : m s with
  | ok a s' =>
    rw [hm] at h h'
    exact ⟨⟨h.1, h'.1⟩, h.2, h'.2⟩
  | error e s' =>
    rw [hm] at h h'
    exact ⟨h, h'⟩

/-- What is known of every result. -/
theorem ensures_of (hR : ∀ a s', m s = .ok a s' → R s' ∧ Q a s')
    (hE : ∀ e s', m s = .error e s' → R s') : Ensures R Q m s := by
  unfold Ensures
  split
  next a s' hm => exact hR a s' hm
  next e s' hm => exact hE e s' hm

theorem Ensures.bind (h : Ensures R Q m s) (hf : ∀ a s', R s' → Q a s' → Ensures R P (f a) s') :
    Ensures R P (m >>= f) s := by
  unfold Ensures at h
  simp only [Ensures, Bind.bind, EStateM.bind]
  cases hm : m s with
  | ok a s' =>
    rw [hm] at h
    exact hf a s' h.1 h.2
  | error e s' =>
    rw [hm] at h
    exact h

theorem ensures_pure (hR : R s) (hQ : Q a s) : Ensures R Q (pure a : EStateM ε σ α) s := ⟨hR, hQ⟩

theorem ensures_throw (hR : R s) : Ensures R Q (throw e : EStateM ε σ α) s := hR

theorem ensures_get {Q : σ → σ → Prop} (hR : R s) (hQ : Q s s) :
    Ensures R Q (get : EStateM ε σ σ) s := ⟨hR, hQ⟩

theorem ensures_modify {Q : Unit → σ → Prop} {g : σ → σ} (hR : R (g s)) (hQ : Q () (g s)) :
    Ensures R Q (modify g : EStateM ε σ Unit) s := ⟨hR, hQ⟩

/-! ## A postcondition for each way of ending -/

variable {E E' : ε → σ → Prop}

def Settles (Q : α → σ → Prop) (E : ε → σ → Prop) (m : EStateM ε σ α) (s : σ) : Prop :=
  match m s with
  | .ok a s' => Q a s'
  | .error e s' => E e s'

theorem Settles.ok (h : Settles Q E m s) (hm : m s = .ok a s') : Q a s' := by
  rwa [Settles, hm] at h

theorem Settles.error (h : Settles Q E m s) (hm : m s = .error e s') : E e s' := by
  rwa [Settles, hm] at h

theorem Settles.mono (h : Settles Q E m s) (hQ : ∀ a s', Q a s' → Q' a s')
    (hE : ∀ e s', E e s' → E' e s') : Settles Q' E' m s := by
  unfold Settles at h ⊢
  split at h
  · exact hQ _ _ h
  · exact hE _ _ h

/-- A sequence: what the first part leaves is what the second starts from, unless it threw. -/
theorem Settles.bind (h : Settles Q E m s) (hf : ∀ a s', Q a s' → Settles P E (f a) s') :
    Settles P E (m >>= f) s := by
  unfold Settles at h
  simp only [Settles, Bind.bind, EStateM.bind]
  cases hm : m s with
  | ok a s' =>
    rw [hm] at h
    exact hf a s' h
  | error e s' =>
    rw [hm] at h
    exact h

theorem settles_pure (hQ : Q a s) : Settles Q E (pure a : EStateM ε σ α) s := hQ

theorem settles_throw (hE : E e s) : Settles Q E (throw e : EStateM ε σ α) s := hE

theorem settles_get {Q : σ → σ → Prop} (hQ : Q s s) :
    Settles Q E (get : EStateM ε σ σ) s := hQ

theorem settles_modify {Q : Unit → σ → Prop} {g : σ → σ} (hQ : Q () (g s)) :
    Settles Q E (modify g : EStateM ε σ Unit) s := hQ

/-! ## A relation that every way of ending keeps -/

section Along

variable {R : σ → σ → Prop}

/-- Wherever a computation starts, `R` relates that state to the one it ends in, with a result or
    with an exception. -/
def Along (R : σ → σ → Prop) (m : EStateM ε σ α) : Prop := ∀ s, Ensures (R s) (fun _ _ => True) m s

theorem Along.ok (h : Along R m) (hm : m s = .ok a s') : R s s' := ((h s).ok hm).1

theorem Along.error (h : Along R m) (hm : m s = .error e s') : R s s' := (h s).error hm

theorem Along.bind [IsTrans σ R] (h : Along R m) (hf : ∀ a, Along R (f a)) : Along R (m >>= f) := by
  intro s
  apply (h s).bind
  intro a s' hs _
  exact (hf a s').mono (fun _ h => trans_of R hs h) fun _ _ _ h => h

theorem along_pure [Std.Refl R] : Along R (pure a : EStateM ε σ α) := fun s => ensures_pure (refl_of R s) trivial

theorem along_throw [Std.Refl R] : Along R (throw e : EStateM ε σ α) := fun s => ensures_throw (refl_of R s)

theorem along_get [Std.Refl R] : Along R (get : EStateM ε σ σ) := fun s => ensures_get (refl_of R s) trivial

theorem along_modify {g : σ → σ} (hg : ∀ s, R s (g s)) : Along R (modify g : EStateM ε σ Unit) :=
  fun s => ensures_modify (hg s) trivial

end Along

end Effect
