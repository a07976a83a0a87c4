import Mathlib

/-!
# The first place of a pattern

`find p t` is the first position of `t` from which `p` stands there in full (`find_eq_some_iff`).
A pattern found in the beginning of a text is found there in the whole text, and the other way
round as soon as the beginning reaches its end (`find_append_iff`). So a reader that looks for
a pattern again each time some more text has come in finds it where it is in the whole.
-/

set_option autoImplicit false

namespace Search

variable {α : Type} {p t more : List α} {i : Nat}

/-- `p` stands at `i` in `t`. -/
def At (p t : List α) (i : Nat) : Prop := i + p.length ≤ t.length ∧ p <+: t.drop i

theorem at_zero : At p t 0 ↔ p <+: t :=
  ⟨And.right, fun h => ⟨(Nat.zero_add _).le.trans h.length_le, h⟩⟩

theorem at_cons_succ {a : α} : At p (a :: t) (i + 1) ↔ At p t i := by
  unfold At
  rw [List.length_cons, List.drop_succ_cons]
  exact and_congr_left' (by omega)

/-- What comes later does not change what stands before it. -/
theorem at_append_iff (h : i + p.length ≤ t.length) : At p (t ++ more) i ↔ At p t i := by
  have hdrop : (t ++ more).drop i = t.drop i ++ more :=
    List.drop_append_of_le_length (by omega)
  have hlen : p.length ≤ (t.drop i).length := by
    rw [List.length_drop]
    omega
  constructor
  · rintro ⟨-, hp⟩
    rw [hdrop] at hp
    exact ⟨h, List.prefix_of_prefix_length_le hp (List.prefix_append _ _) hlen⟩
  · rintro ⟨-, hp⟩
    refine ⟨?_, ?_⟩
    · rw [List.length_append]
      omega
    · rw [hdrop]
      exact hp.trans (List.prefix_append _ _)

variable [DecidableEq α]

/-- `std::string::find`, of a whole pattern. -/
def find (p : List α) : List α → Option Nat
  | [] => if p = [] then some 0 else none
  | a :: rest => if p.isPrefixOf (a :: rest) then some 0 else (find p rest).map (· + 1)

/-- **What `find` finds.** -/
theorem find_eq_some_iff : find p t = some i ↔ At p t i ∧ ∀ j < i, ¬ At p t j := by
  induction t generalizing i with
  | nil =>
    unfold find At
    rcases Decidable.em (p = []) with rfl | hp
    · cases i with
      | zero => simp
      | succ i => simp
    · have hlen : 0 < p.length := List.length_pos_of_ne_nil hp
      rw [if_neg hp]
      refine ⟨fun h => (nomatch h), ?_⟩
      intro h
      have hle := h.1.1
      rw [List.length_nil] at hle
      omega
  | cons a t ih =>
    unfold find
    by_cases hhere : p <+: a :: t
    · rw [if_pos (List.isPrefixOf_iff_prefix.mpr hhere)]
      constructor
      · intro h
        obtain rfl := Option.some.inj h
        exact ⟨at_zero.mpr hhere, fun j hj => absurd hj (Nat.not_lt_zero j)⟩
      · rintro ⟨-, hfirst⟩
        cases i with
        | zero => rfl
        | succ i => exact absurd (at_zero.mpr hhere) (hfirst 0 (Nat.succ_pos i))
    · rw [if_neg (fun h => hhere (List.isPrefixOf_iff_prefix.mp h))]
      cases i with
      | zero =>
        constructor
        · intro h
          obtain ⟨j, -, hj⟩ := Option.map_eq_some_iff.mp h
          cases hj
        · rintro ⟨h, -⟩
          exact absurd (at_zero.mp h) hhere
      | succ i =>
        have hmap : (find p t).map (· + 1) = some (i + 1) ↔ find p t = some i := by
          rw [Option.map_eq_some_iff]
          constructor
          · rintro ⟨j, hj, heq⟩
            obtain rfl : j = i := Nat.succ.inj heq
            exact hj
          · intro h
            exact ⟨i, h, rfl⟩
        rw [hmap, ih, at_cons_succ]
        -- position 0 is settled, the others are those of the rest
        refine and_congr_right fun _ => ⟨fun h j hj => ?_, fun h j hj => ?_⟩
        · cases j with
          | zero => exact fun h0 => hhere (at_zero.mp h0)
          | succ j => exact fun hj' => h j (Nat.lt_of_succ_lt_succ hj) (at_cons_succ.mp hj')
        · exact fun hj' => h (j + 1) (Nat.succ_lt_succ hj) (at_cons_succ.mpr hj')

theorem le_of_find (h : find p t = some i) : i + p.length ≤ t.length :=
  (find_eq_some_iff.mp h).1.1

/-- **Found early is found in the whole.** -/
theorem find_append_iff (h : i + p.length ≤ t.length) :
    find p (t ++ more) = some i ↔ find p t = some i := by
  rw [find_eq_some_iff, find_eq_some_iff, at_append_iff h]
  refine and_congr_right fun _ => forall₂_congr fun j hj => not_congr (at_append_iff ?_)
  omega

theorem find_append (h : find p t = some i) : find p (t ++ more) = some i :=
  (find_append_iff (le_of_find h)).mpr h

end Search
