import Mathlib

/-!
# Recursive iteration, one name at a time

A tree is given by the names below each **walk**, the list of names from its root; nothing says
that it is finite, and a directory that holds a link to itself unrolls to a tree that is not. An
iterator over it holds the directories it is in, the innermost first, each with the names that
are still to come. It moves on to the next name, into the directory it stands at or past it, as
it is told (`advance`).

Where an iterator stands is described by the walks it can still come to, `Ahead`: moving on takes
the current walk away, and with it everything below when the directory is passed over
(`ahead_advance`). Nothing is added, so no walk is come to twice. An iteration ends when the
directories that are gone into are bounded in depth and in size: `weight` goes down with every
move (`weight_advance`).
-/

set_option autoImplicit false

namespace Preorder

/-- A directory that is being listed: how it was walked to, and the names still to come, the
    current one first. -/
structure Frame (α : Type*) where
  walk : List α
  left : List α
deriving DecidableEq, Repr

abbrev Position (α : Type*) := List (Frame α)

variable {α : Type*} {children : List α → List α}

/-! ## Moving on -/

/-- The directories with nothing left to list are closed, from the innermost out. -/
def settle : Position α → Position α
  | [] => []
  | frame :: below => if frame.left.isEmpty then settle below else frame :: below

def start (children : List α → List α) : Position α := settle [⟨[], children []⟩]

def current : Position α → Option (List α)
  | ⟨walk, x :: _⟩ :: _ => some (walk ++ [x])
  | _ => none

def depth (position : Position α) : Nat := position.length - 1

/-- To the next name, below the current walk if there is one and `recurse` is set. -/
def advance (children : List α → List α) (recurse : Bool) : Position α → Position α
  | ⟨walk, x :: left⟩ :: below =>
    if recurse then settle (⟨walk ++ [x], children (walk ++ [x])⟩ :: ⟨walk, left⟩ :: below)
    else settle (⟨walk, left⟩ :: below)
  | position => position

/-- An iterator that is not at its end stands at a name. -/
def Settled (position : Position α) : Prop := position = [] ∨ ∃ here, current position = some here

theorem settled_settle (position : Position α) : Settled (settle position) := by
  induction position with
  | nil => exact .inl rfl
  | cons frame below ih =>
    rcases frame with ⟨walk, _ | ⟨x, left⟩⟩
    · exact ih
    · exact .inr ⟨walk ++ [x], rfl⟩

theorem settled_advance {position : Position α} (h : Settled position) (recurse : Bool) :
    Settled (advance children recurse position) := by
  obtain rfl | ⟨here, hhere⟩ := h
  · exact .inl rfl
  · match position, hhere with
    | ⟨walk, x :: left⟩ :: below, _ =>
      cases recurse <;> exact settled_settle _

theorem mem_of_mem_settle {position : Position α} {frame : Frame α} (h : frame ∈ settle position) :
    frame ∈ position := by
  induction position with
  | nil => exact h
  | cons other below ih =>
    by_cases hempty : other.left.isEmpty = true
    · rw [settle, if_pos hempty] at h
      exact List.mem_cons_of_mem other (ih h)
    · rwa [settle, if_neg hempty] at h

/-- An iterator that has moved on is in the directory it was told to go into, or in one it was
    in before. -/
theorem walk_of_mem_advance {position : Position α} {frame : Frame α} {here : List α} {recurse : Bool}
    (hhere : current position = some here) (h : frame ∈ advance children recurse position) :
    recurse = true ∧ frame.walk = here ∨ ∃ other ∈ position, other.walk = frame.walk := by
  match position, hhere with
  | ⟨walk, x :: left⟩ :: below, hhere =>
    obtain rfl := Option.some.inj hhere
    have hold : ∀ frame, frame ∈ (⟨walk, left⟩ :: below : Position α) →
        ∃ other ∈ (⟨walk, x :: left⟩ :: below : Position α), other.walk = frame.walk := by
      intro frame hframe
      rcases List.mem_cons.mp hframe with rfl | hbelow
      · exact ⟨_, List.mem_cons_self, rfl⟩
      · exact ⟨frame, List.mem_cons_of_mem _ hbelow, rfl⟩
    cases recurse with
    | false => exact .inr (hold frame (mem_of_mem_settle h))
    | true =>
      rcases List.mem_cons.mp (mem_of_mem_settle h) with rfl | hrest
      · exact .inl ⟨rfl, rfl⟩
      · exact .inr (hold frame hrest)

/-! ## Linked directories -/

/-- Each directory is the one at which the directory around it stands, and no name is left twice. -/
inductive Linked (children : List α → List α) : Position α → Prop
  | nil : Linked children []
  | root {left : List α} (hsub : left ⊆ children []) (hnodup : left.Nodup) :
      Linked children [⟨[], left⟩]
  | deeper {walk left inner : List α} {x : α} {below : Position α} (hx : x ∈ children walk)
      (hleft : x ∉ left) (hsub : inner ⊆ children (walk ++ [x])) (hnodup : inner.Nodup)
      (h : Linked children (⟨walk, left⟩ :: below)) :
      Linked children (⟨walk ++ [x], inner⟩ :: ⟨walk, left⟩ :: below)

namespace Linked

variable {frame : Frame α} {below position : Position α}

theorem tail (h : Linked children (frame :: below)) : Linked children below := by
  cases h with
  | root => exact .nil
  | deeper _ _ _ _ h => exact h

theorem settle (h : Linked children position) : Linked children (settle position) := by
  induction position with
  | nil => exact .nil
  | cons frame below ih =>
    by_cases hempty : frame.left.isEmpty = true
    · rw [Preorder.settle, if_pos hempty]
      exact ih h.tail
    · rw [Preorder.settle, if_neg hempty]
      exact h

theorem start (hnodup : (children []).Nodup) : Linked children (Preorder.start children) :=
  (Linked.root (List.Subset.refl _) hnodup).settle

/-- The innermost directory with its first name taken off. -/
theorem drop {walk left : List α} {x : α} (h : Linked children (⟨walk, x :: left⟩ :: below)) :
    Linked children (⟨walk, left⟩ :: below) ∧ x ∈ children walk ∧ x ∉ left := by
  cases h with
  | root hsub hnodup =>
    obtain ⟨hx, hrest⟩ := List.nodup_cons.mp hnodup
    exact ⟨.root (fun _ hy => hsub (List.mem_cons_of_mem x hy)) hrest, hsub List.mem_cons_self, hx⟩
  | deeper hy hleft hsub hnodup h =>
    obtain ⟨hx, hrest⟩ := List.nodup_cons.mp hnodup
    exact ⟨.deeper hy hleft (fun _ hz => hsub (List.mem_cons_of_mem x hz)) hrest h,
      hsub List.mem_cons_self, hx⟩

theorem advance (h : Linked children position) (hchildren : ∀ walk, (children walk).Nodup)
    (recurse : Bool) : Linked children (advance children recurse position) := by
  match position, h with
  | [], h => exact h
  | ⟨walk, []⟩ :: below, h => exact h
  | ⟨walk, x :: left⟩ :: below, h =>
    obtain ⟨hdrop, hx, hleft⟩ := h.drop
    cases recurse with
    | false => exact hdrop.settle
    | true => exact (Linked.deeper hx hleft (List.Subset.refl _) (hchildren _) hdrop).settle

theorem length_walk (h : Linked children (frame :: below)) : frame.walk.length = below.length := by
  generalize hposition : frame :: below = position at h
  induction h generalizing frame below with
  | nil => cases hposition
  | root =>
    cases hposition
    rfl
  | deeper _ _ _ _ _ ih =>
    cases hposition
    rw [List.length_append, ih rfl]
    rfl

/-- The directories an iterator is in are on the way to the innermost. -/
theorem walk_prefix (h : Linked children (frame :: below)) {other : Frame α}
    (hother : other ∈ frame :: below) : other.walk <+: frame.walk := by
  generalize hposition : frame :: below = position at h
  induction h generalizing frame below with
  | nil => cases hposition
  | root =>
    cases hposition
    obtain rfl := List.mem_singleton.mp hother
    exact List.prefix_rfl
  | @deeper walk left inner x below' hx hleft hsub hnodup h ih =>
    cases hposition
    rcases List.mem_cons.mp hother with rfl | hother
    · exact List.prefix_rfl
    · exact (ih hother rfl).trans (List.prefix_append walk [x])

end Linked

/-! ## What is still to come

The set only shrinks, and a walk that was come to leaves it. That no walk is come to twice needs
no bookkeeping of the walks there were. -/

/-- The iterator can still come to the walk, or to a walk that it goes on from. -/
def Ahead (position : Position α) (walk : List α) : Prop :=
  ∃ frame ∈ position, ∃ x ∈ frame.left, frame.walk ++ [x] <+: walk

section Ahead

variable {position below : Position α} {frame : Frame α} {walk left w : List α} {x : α}

/-- Two names after the same beginning of a walk are one. -/
theorem eq_of_concat {y : α} (hx : walk ++ [x] <+: w) (hy : walk ++ [y] <+: w) : x = y := by
  have hle : (walk ++ [x]).length ≤ (walk ++ [y]).length := by simp
  have hsame := (List.prefix_of_prefix_length_le hx hy hle).eq_of_length (by simp)
  simpa using hsame

@[simp] theorem not_ahead_nil : ¬ Ahead [] w := fun ⟨_, hmem, _⟩ => nomatch hmem

theorem ahead_cons : Ahead (frame :: below) w ↔
    (∃ x ∈ frame.left, frame.walk ++ [x] <+: w) ∨ Ahead below w := by
  constructor
  · rintro ⟨g, hg, hahead⟩
    rcases List.mem_cons.mp hg with rfl | hg
    · exact .inl hahead
    · exact .inr ⟨g, hg, hahead⟩
  · rintro (hahead | ⟨g, hg, hahead⟩)
    · exact ⟨frame, List.mem_cons_self, hahead⟩
    · exact ⟨g, List.mem_cons_of_mem _ hg, hahead⟩

@[simp] theorem ahead_settle : Ahead (settle position) w ↔ Ahead position w := by
  induction position with
  | nil => rfl
  | cons frame below ih =>
    by_cases hempty : frame.left.isEmpty = true
    · rw [settle, if_pos hempty, ih, ahead_cons, List.isEmpty_iff.mp hempty]
      simp
    · rw [settle, if_neg hempty]

theorem ahead_start : Ahead (start children) w ↔ ∃ x ∈ children [], [x] <+: w := by
  rw [start, ahead_settle, ahead_cons]
  simp

/-- What lies below the innermost directory is not below another name of one around it. -/
theorem Linked.not_ahead_below (h : Linked children (frame :: below)) (hw : frame.walk <+: w) :
    ¬ Ahead below w := by
  generalize hposition : frame :: below = position at h
  induction h generalizing frame below with
  | nil => cases hposition
  | root =>
    cases hposition
    exact not_ahead_nil
  | @deeper walk left inner x below' hx hleft hsub hnodup h ih =>
    cases hposition
    intro hahead
    rcases ahead_cons.mp hahead with ⟨y, hy, hyw⟩ | hbelow
    · exact hleft (eq_of_concat hw hyw ▸ hy)
    · exact ih ((List.prefix_append walk [x]).trans hw) rfl hbelow

theorem ahead_current (h : current position = some w) : Ahead position w := by
  match position, h with
  | ⟨walk, x :: _⟩ :: _, h =>
    obtain rfl := Option.some.inj h
    exact ahead_cons.mpr (.inl ⟨x, List.mem_cons_self, List.prefix_rfl⟩)

/-- A walk that is still to come to is the current one, is below it, or comes after it; of those
    below only the ones are left for which the directory is gone into. -/
theorem ahead_advance {here : List α} {recurse : Bool} (h : Linked children position)
    (hhere : current position = some here) :
    Ahead (advance children recurse position) w ↔
      Ahead position w ∧
        (here <+: w → recurse = true ∧ ∃ y ∈ children here, here ++ [y] <+: w) := by
  match position, h, hhere with
  | ⟨walk, x :: left⟩ :: below, h, hhere =>
    obtain rfl := Option.some.inj hhere
    obtain ⟨hdrop, -, hleft⟩ := h.drop
    -- nothing that comes after the current walk is below it
    have hafter : walk ++ [x] <+: w → ¬ Ahead (⟨walk, left⟩ :: below) w := by
      intro hw hahead
      rcases ahead_cons.mp hahead with ⟨y, hy, hyw⟩ | hbelow
      · exact hleft (eq_of_concat hw hyw ▸ hy)
      · exact h.not_ahead_below ((List.prefix_append walk [x]).trans hw) hbelow
    have hsplit : Ahead (⟨walk, x :: left⟩ :: below) w ↔
        walk ++ [x] <+: w ∨ Ahead (⟨walk, left⟩ :: below) w := by
      rw [ahead_cons, ahead_cons]
      simp only [List.mem_cons, exists_eq_or_imp, or_assoc]
    have hadvance : Ahead (advance children recurse (⟨walk, x :: left⟩ :: below)) w ↔
        (recurse = true ∧ ∃ y ∈ children (walk ++ [x]), walk ++ [x] ++ [y] <+: w) ∨
          Ahead (⟨walk, left⟩ :: below) w := by
      cases recurse with
      | false => simp [advance]
      | true =>
        rw [advance, if_pos rfl, ahead_settle, ahead_cons]
        simp only [true_and]
    rw [hadvance, hsplit]
    constructor
    · rintro (⟨hrecurse, y, hy, hyw⟩ | hahead)
      · exact ⟨.inl ((List.prefix_append _ [y]).trans hyw), fun _ => ⟨hrecurse, y, hy, hyw⟩⟩
      · exact ⟨.inr hahead, fun hw => absurd hahead (hafter hw)⟩
    · rintro ⟨hw | hahead, hbelow⟩
      · exact .inl (hbelow hw)
      · exact .inr hahead

end Ahead

/-! ## An end

A measure that is computed from the depth that is left and the number of names that are left at
each depth. -/

/-- How often an iterator can move inside a directory, with at most `size` names in a directory
    and as many more directories in one another as the second argument says. -/
def cost (size : Nat) : Nat → Nat
  | 0 => 0
  | room + 1 => size * (1 + cost size room)

/-- How often an iterator can still move, when no walk of more than `limit` names is gone into. -/
def weight (size limit : Nat) (position : Position α) : Nat :=
  (position.map fun frame => frame.left.length * (1 + cost size (limit - frame.walk.length))).sum

section Weight

variable {size limit : Nat} {position : Position α}

@[simp] theorem weight_settle : weight size limit (settle position) = weight size limit position := by
  induction position with
  | nil => rfl
  | cons frame below ih =>
    by_cases hempty : frame.left.isEmpty = true
    · rw [settle, if_pos hempty, ih]
      simp [weight, List.isEmpty_iff.mp hempty]
    · rw [settle, if_neg hempty]

/-- **Every move brings the end nearer**, as long as no directory has too many names or is gone
    into too deep. -/
theorem weight_advance {here : List α} {recurse : Bool} (hhere : current position = some here)
    (hlimit : recurse = true → here.length ≤ limit) (hsize : (children here).length ≤ size) :
    weight size limit (advance children recurse position) < weight size limit position := by
  match position, hhere with
  | ⟨walk, x :: left⟩ :: below, hhere =>
    obtain rfl := Option.some.inj hhere
    have hleft : weight size limit (⟨walk, left⟩ :: below) + (1 + cost size (limit - walk.length)) =
        weight size limit (⟨walk, x :: left⟩ :: below) := by
      simp only [weight, List.map_cons, List.sum_cons, List.length_cons, Nat.add_mul, one_mul]
      omega
    cases recurse with
    | false =>
      simp only [advance, Bool.false_eq_true, if_false, weight_settle]
      omega
    | true =>
      have hroom : limit - walk.length = (limit - (walk ++ [x]).length) + 1 := by
        have := hlimit rfl
        rw [List.length_append, List.length_singleton] at this ⊢
        omega
      have hinner : (children (walk ++ [x])).length * (1 + cost size (limit - (walk ++ [x]).length)) ≤
          cost size (limit - walk.length) := by
        rw [hroom]
        exact Nat.mul_le_mul_right _ hsize
      have hgrown : weight size limit
          (⟨walk ++ [x], children (walk ++ [x])⟩ :: ⟨walk, left⟩ :: below) =
          (children (walk ++ [x])).length * (1 + cost size (limit - (walk ++ [x]).length)) +
            weight size limit (⟨walk, left⟩ :: below) := rfl
      simp only [advance, if_true, weight_settle]
      omega

end Weight

end Preorder
