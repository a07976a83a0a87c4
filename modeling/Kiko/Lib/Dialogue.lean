import Mathlib

/-!
# Half-duplex dialogues

One party follows a script: it puts a list of messages on its way and then waits for an
answer. The other reacts: `feed` says what a message makes of its state and what it says
in reply. Between them are queues, and neither knows how far the other is.

What is on its way and what the script still holds are one list, `ahead`: the messages
that will be fed, whoever moves next. The invariant of such a dialogue is therefore not
about who stands where but about where the talk is going: `Talk` says that **feeding all
that is ahead leads to what the first party waits for**. Putting a message on its way does
not change `ahead`, so it keeps the invariant for free; feeding one is `Talk.recv`; and
only the step at which an answer is read has something to prove.

`Quiet` is the turn-taking: a reply ends the list that is fed. So whenever a reply is on
its way, nothing is ahead (`Talk.turn`).

The library knows nothing about what is said. A user gives `feed` and the postcondition of
a wait, proves for every step at which an answer is read that the script goes on right,
and gets from `Talk` that this holds under every interleaving and every capacity of the
queues.
-/

set_option autoImplicit false

namespace Dialogue

variable {ρ α β γ : Type*} {feed : ρ → α → ρ × List β}

/-- Feeding a list, with all replies. -/
def drain (feed : ρ → α → ρ × List β) : ρ → List α → ρ × List β
  | r, [] => (r, [])
  | r, a :: as => ((drain feed (feed r a).1 as).1, (feed r a).2 ++ (drain feed (feed r a).1 as).2)

@[simp] theorem drain_nil (r : ρ) : drain feed r [] = (r, []) := rfl

@[simp] theorem drain_cons (r : ρ) (a : α) (as : List α) :
    drain feed r (a :: as) =
      ((drain feed (feed r a).1 as).1, (feed r a).2 ++ (drain feed (feed r a).1 as).2) := rfl

theorem drain_append (r : ρ) (as bs : List α) :
    drain feed r (as ++ bs) =
      ((drain feed (drain feed r as).1 bs).1,
        (drain feed r as).2 ++ (drain feed (drain feed r as).1 bs).2) := by
  induction as generalizing r with
  | nil => rfl
  | cons a as ih => simp only [List.cons_append, drain_cons, ih, List.append_assoc]

/-- A reply ends the list. -/
def Quiet (feed : ρ → α → ρ × List β) : ρ → List α → Prop
  | _, [] => True
  | r, a :: as => ((feed r a).2 ≠ [] → as = []) ∧ Quiet feed (feed r a).1 as

theorem quiet_nil (r : ρ) : Quiet feed r [] := trivial

theorem quiet_singleton (r : ρ) (a : α) : Quiet feed r [a] := ⟨fun _ => rfl, trivial⟩

/-- After messages that get no reply, the rest may get one. -/
theorem quiet_append {r : ρ} {as bs : List α} (hsilent : (drain feed r as).2 = [])
    (h : Quiet feed (drain feed r as).1 bs) : Quiet feed r (as ++ bs) := by
  induction as generalizing r with
  | nil => exact h
  | cons a as ih =>
    obtain ⟨hhead, htail⟩ := List.append_eq_nil_iff.mp hsilent
    exact ⟨fun hne => absurd hhead hne, ih htail h⟩

/-- What is not last gets no reply. -/
theorem Quiet.silent {r : ρ} {as bs : List α} (h : Quiet feed r (as ++ bs)) (hbs : bs ≠ []) :
    (drain feed r as).2 = [] := by
  induction as generalizing r with
  | nil => rfl
  | cons a as ih =>
    obtain ⟨hhead, htail⟩ := h
    have hsilent : (feed r a).2 = [] := by
      by_contra hne
      exact hbs (List.append_eq_nil_iff.mp (hhead hne)).2
    rw [drain_cons, hsilent, ih htail]
    rfl

theorem Quiet.tail {r : ρ} {as bs : List α} (h : Quiet feed r (as ++ bs)) :
    Quiet feed (drain feed r as).1 bs := by
  induction as generalizing r with
  | nil => exact h
  | cons a as ih => exact ih h.2

/-- In a state that takes everything and says nothing, every list is quiet. -/
theorem drain_absorbed {r : ρ} (h : ∀ a, feed r a = (r, [])) (as : List α) :
    drain feed r as = (r, []) ∧ Quiet feed r as := by
  induction as with
  | nil => exact ⟨rfl, trivial⟩
  | cons a as ih =>
    rw [drain_cons, h a, ih.1]
    refine ⟨rfl, ?_, ?_⟩
    · rw [h a]
      exact fun hne => absurd rfl hne
    · rw [h a]
      exact ih.2

/-- The state of a dialogue: `c` says what the first party waits for, `r` is the second
    party, `ahead` is what it will be fed, `answers` are the replies not yet read. -/
structure Talk (feed : ρ → α → ρ × List β) (Expect : γ → ρ → List β → Prop) (c : γ) (r : ρ)
    (ahead : List α) (answers : List β) : Prop where
  agree : Expect c (drain feed r ahead).1 (answers ++ (drain feed r ahead).2)
  quiet : Quiet feed r ahead
  turn : answers ≠ [] → ahead = []

namespace Talk

variable {Expect : γ → ρ → List β → Prop} {c : γ} {r : ρ} {a : α} {b : β} {ahead : List α}
  {answers : List β}

/-- While something is ahead, no reply is on its way. -/
theorem answers_eq (h : Talk feed Expect c r (a :: ahead) answers) : answers = [] := by
  by_contra hne
  exact List.cons_ne_nil _ _ (h.turn hne)

/-- **The next message is fed.** -/
theorem recv (h : Talk feed Expect c r (a :: ahead) answers) :
    Talk feed Expect c (feed r a).1 ahead (feed r a).2 := by
  obtain rfl := h.answers_eq
  exact ⟨h.agree, h.quiet.2, h.quiet.1⟩

/-- **A reply is read**: nothing is ahead, and the second party is where the first one
    expects it. -/
theorem answered (h : Talk feed Expect c r ahead (b :: answers)) :
    ahead = [] ∧ Expect c r (b :: answers) := by
  have hahead := h.turn (List.cons_ne_nil _ _)
  subst hahead
  have := h.agree
  rw [drain_nil, List.append_nil] at this
  exact ⟨rfl, this⟩

/-- What gets no reply may be said first. -/
theorem before {as : List α} (hsilent : (drain feed r as).2 = [])
    (h : Talk feed Expect c (drain feed r as).1 ahead []) :
    Talk feed Expect c r (as ++ ahead) [] := by
  refine ⟨?_, quiet_append hsilent h.quiet, fun hne => absurd rfl hne⟩
  rw [drain_append, hsilent, List.nil_append]
  exact h.agree

end Talk
end Dialogue
