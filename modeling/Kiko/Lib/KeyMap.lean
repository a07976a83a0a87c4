import Mathlib

/-!
# Maps listed by their keys

An ordered map of a standard library (`std::map`) as the list of its entries, in the order of
the keys and each key once: `IsMap`. `assign` is `m[key] = value`. Two such lists are equal as
soon as they answer every `lookup` alike (`IsMap.ext`), so a map is reasoned about by its
lookups alone.
-/

set_option autoImplicit false

namespace KeyMap

variable {α β : Type*} {l l' : List (String × α)} {k k' : String} {a : α}

/-- The list is that of an ordered map. -/
def IsMap (l : List (String × α)) : Prop := l.Pairwise fun x y => x.1 < y.1

instance (l : List (String × α)) : Decidable (IsMap l) := inferInstanceAs (Decidable (l.Pairwise _))

/-- `m[k] = a`. -/
def assign (k : String) (a : α) : List (String × α) → List (String × α)
  | [] => [(k, a)]
  | x :: rest =>
    if x.1 < k then x :: assign k a rest
    else if k = x.1 then (k, a) :: rest
    else (k, a) :: x :: rest

theorem isMap_nil : IsMap ([] : List (String × α)) := List.Pairwise.nil

theorem isMap_cons {x : String × α} : IsMap (x :: l) ↔ (∀ y ∈ l, x.1 < y.1) ∧ IsMap l :=
  List.pairwise_cons

theorem IsMap.filter (h : IsMap l) (p : String × α → Bool) : IsMap (l.filter p) :=
  List.Pairwise.filter p h

/-- `lookup`, by whether the first key is the one. -/
theorem lookup_cons_if (k : String) (x : String × α) (l : List (String × α)) :
    (x :: l).lookup k = if k = x.1 then some x.2 else l.lookup k := by
  by_cases h : k = x.1
  · obtain ⟨key, value⟩ := x
    obtain rfl : k = key := h
    simp
  · have hbeq : (k == x.1) = false := by simpa using h
    rw [if_neg h, List.lookup_cons, hbeq]

theorem mem_assign {x : String × α} (h : x ∈ assign k a l) : x = (k, a) ∨ x ∈ l := by
  induction l with
  | nil => exact .inl (List.mem_singleton.mp h)
  | cons y rest ih =>
    unfold assign at h
    split at h
    · rcases List.mem_cons.mp h with rfl | h
      · exact .inr List.mem_cons_self
      · exact (ih h).imp_right (List.mem_cons_of_mem _)
    split at h
    · rcases List.mem_cons.mp h with rfl | h
      · exact .inl rfl
      · exact .inr (List.mem_cons_of_mem _ h)
    · exact List.mem_cons.mp h

/-- A map stays one. -/
theorem IsMap.assign (h : IsMap l) (k : String) (a : α) : IsMap (assign k a l) := by
  induction l with
  | nil => exact List.pairwise_singleton _ _
  | cons x rest ih =>
    obtain ⟨hx, hrest⟩ := isMap_cons.mp h
    unfold KeyMap.assign
    split
    case isTrue hlt =>
      refine isMap_cons.mpr ⟨fun y hy => ?_, ih hrest⟩
      rcases mem_assign hy with rfl | hy
      · exact hlt
      · exact hx y hy
    case isFalse hge =>
      split
      case isTrue heq => exact isMap_cons.mpr ⟨fun y hy => heq ▸ hx y hy, hrest⟩
      case isFalse hne =>
        have hk : k < x.1 := lt_of_le_of_ne (not_lt.mp hge) hne
        refine isMap_cons.mpr ⟨fun y hy => ?_, h⟩
        rcases List.mem_cons.mp hy with rfl | hy
        · exact hk
        · exact hk.trans (hx y hy)

@[simp] theorem lookup_assign_self (k : String) (a : α) (l : List (String × α)) :
    (assign k a l).lookup k = some a := by
  induction l with
  | nil => simp [assign]
  | cons x rest ih =>
    unfold assign
    split
    case isTrue hlt => rw [lookup_cons_if, if_neg hlt.ne', ih]
    case isFalse => split <;> simp

theorem lookup_assign_of_ne (h : k' ≠ k) (a : α) (l : List (String × α)) :
    (assign k a l).lookup k' = l.lookup k' := by
  induction l with
  | nil => simp [assign, h]
  | cons x rest ih =>
    unfold assign
    split
    · rw [lookup_cons_if, lookup_cons_if, ih]
    split
    case isTrue heq => rw [lookup_cons_if, lookup_cons_if, if_neg h, if_neg (heq ▸ h)]
    case isFalse => rw [lookup_cons_if, if_neg h]

/-- What `assign` makes of the lookups. -/
theorem lookup_assign (k k' : String) (a : α) (l : List (String × α)) :
    (assign k a l).lookup k' = if k' = k then some a else l.lookup k' := by
  by_cases h : k' = k
  · rw [if_pos h, h, lookup_assign_self]
  · rw [if_neg h, lookup_assign_of_ne h]

theorem lookup_eq_none_of_lt (h : ∀ y ∈ l, k < y.1) : l.lookup k = none := by
  rw [List.lookup_eq_none_iff]
  intro y hy
  simpa using (h y hy).ne

/-- An entry is what its key is looked up as. -/
theorem IsMap.lookup_eq_some (h : IsMap l) : l.lookup k = some a ↔ (k, a) ∈ l := by
  induction l with
  | nil => simp
  | cons x rest ih =>
    obtain ⟨hx, hrest⟩ := isMap_cons.mp h
    rw [lookup_cons_if]
    by_cases hk : k = x.1
    · have hnot : (k, a) ∉ rest := fun hmem => absurd (hx _ hmem) (by simp [hk])
      obtain ⟨key, value⟩ := x
      obtain rfl : k = key := hk
      simp [hnot, eq_comm]
    · have hnot : (k, a) ≠ x := fun heq => hk (heq ▸ rfl)
      simp [hk, hnot, ih hrest]

/-- **Maps are equal when their lookups are.** -/
theorem IsMap.ext (h : IsMap l) (h' : IsMap l') (heq : ∀ k, l.lookup k = l'.lookup k) : l = l' := by
  refine List.Perm.eq_of_pairwise (fun x y _ _ hxy hyx => absurd hxy hyx.asymm) h h' ?_
  have hnodup {m : List (String × α)} (hm : IsMap m) : m.Nodup := by
    refine List.Pairwise.imp ?_ hm
    intro x y hxy heq
    exact absurd hxy (heq ▸ lt_irrefl _)
  refine (List.perm_ext_iff_of_nodup (hnodup h) (hnodup h')).mpr ?_
  rintro ⟨k, a⟩
  rw [← h.lookup_eq_some, ← h'.lookup_eq_some, heq k]

theorem lookup_filter (p : String → Bool) (k : String) (l : List (String × α)) :
    (l.filter fun x => p x.1).lookup k = if p k then l.lookup k else none := by
  induction l with
  | nil => simp
  | cons x rest ih =>
    by_cases hk : k = x.1
    · subst hk
      by_cases hp : p x.1 <;> simp [hp, lookup_cons_if, ih]
    · by_cases hp : p x.1 <;> simp [hp, lookup_cons_if, ih, hk]

theorem lookup_map (f : α → β) (k : String) (l : List (String × α)) :
    (l.map fun x => (x.1, f x.2)).lookup k = (l.lookup k).map f := by
  induction l with
  | nil => rfl
  | cons x rest ih =>
    by_cases hk : k = x.1
    · simp [lookup_cons_if, hk]
    · simp [lookup_cons_if, hk, ih]

theorem IsMap.map (h : IsMap l) (f : α → β) : IsMap (l.map fun x => (x.1, f x.2)) :=
  List.Pairwise.map _ (fun _ _ hxy => hxy) h

/-! ## Many assignments -/

/-- Assign one entry after the other. -/
def assignAll (entries l : List (String × α)) : List (String × α) :=
  entries.foldl (fun m x => assign x.1 x.2 m) l

theorem IsMap.assignAll (h : IsMap l) (entries : List (String × α)) : IsMap (assignAll entries l) := by
  induction entries generalizing l with
  | nil => exact h
  | cons x rest ih => exact ih (h.assign x.1 x.2)

theorem mem_assignAll {entries : List (String × α)} {x : String × α} (h : x ∈ assignAll entries l) :
    x ∈ entries ∨ x ∈ l := by
  induction entries generalizing l with
  | nil => exact .inr h
  | cons y rest ih =>
    rcases ih h with h | h
    · exact .inl (List.mem_cons_of_mem _ h)
    · refine (mem_assign h).imp_left fun heq => ?_
      rw [heq]
      exact List.mem_cons_self

/-- The entries of a map win over what was there. -/
theorem lookup_assignAll {entries : List (String × α)} (h : IsMap entries) (k : String) :
    (assignAll entries l).lookup k = (entries.lookup k).or (l.lookup k) := by
  induction entries generalizing l with
  | nil => simp [assignAll]
  | cons x rest ih =>
    obtain ⟨hx, hrest⟩ := isMap_cons.mp h
    rw [assignAll, List.foldl_cons, ← assignAll, ih hrest, lookup_cons_if, lookup_assign]
    by_cases hk : k = x.1
    · rw [lookup_eq_none_of_lt (hk ▸ hx)]
      simp [hk]
    · simp [hk]

/-- Assigned to nothing, a map is itself. -/
theorem assignAll_nil (h : IsMap l) : assignAll l [] = l :=
  (isMap_nil.assignAll l).ext h fun k => by simp [lookup_assignAll h]

/-! ## Optional entries -/

/-- Assign the entries that have a value, one after the other. -/
def assignSome (entries : List (String × Option α)) (l : List (String × α)) : List (String × α) :=
  entries.foldl (fun m x => x.2.elim m fun a => assign x.1 a m) l

theorem IsMap.assignSome (h : IsMap l) (entries : List (String × Option α)) :
    IsMap (assignSome entries l) := by
  induction entries generalizing l with
  | nil => exact h
  | cons x rest ih =>
    obtain ⟨key, value⟩ := x
    cases value with
    | none => exact ih h
    | some a => exact ih (h.assign key a)

theorem mem_assignSome {entries : List (String × Option α)} {x : String × α}
    (h : x ∈ assignSome entries l) : (x.1, some x.2) ∈ entries ∨ x ∈ l := by
  induction entries generalizing l with
  | nil => exact .inr h
  | cons y rest ih =>
    obtain ⟨key, value⟩ := y
    rcases ih (l := value.elim l fun a => assign key a l) h with hrest | hl
    · exact .inl (List.mem_cons_of_mem _ hrest)
    cases value with
    | none => exact .inr hl
    | some a =>
      rcases mem_assign hl with rfl | hl
      · exact .inl List.mem_cons_self
      · exact .inr hl

/-- With one entry for a key, what it gives is looked up; where it has no value, what was there. -/
theorem lookup_assignSome {entries : List (String × Option α)} (h : (entries.map (·.1)).Nodup)
    (k : String) (l : List (String × α)) :
    (assignSome entries l).lookup k = ((entries.lookup k).join).or (l.lookup k) := by
  induction entries generalizing l with
  | nil => simp [assignSome]
  | cons x rest ih =>
    obtain ⟨key, value⟩ := x
    rw [List.map_cons, List.nodup_cons] at h
    have hstep : (assignSome ((key, value) :: rest) l).lookup k =
        ((rest.lookup k).join).or ((value.elim l fun a => assign key a l).lookup k) :=
      ih h.2 _
    rw [hstep, lookup_cons_if]
    by_cases hk : k = key
    · subst hk
      have hnone : rest.lookup k = none := by
        rw [List.lookup_eq_none_iff]
        intro y hy
        have : k ≠ y.1 := fun heq => h.1 (List.mem_map.mpr ⟨y, hy, heq.symm⟩)
        simpa using this
      cases value <;> simp [hnone]
    · cases value with
      | none => simp [hk]
      | some a => simp [hk, lookup_assign_of_ne hk]

/-- A key is there when it is looked up as something. -/
theorem lookup_eq_none_iff_notMem : l.lookup k = none ↔ k ∉ l.map (·.1) := by
  rw [List.lookup_eq_none_iff, List.mem_map]
  constructor
  · rintro h ⟨x, hx, rfl⟩
    simpa using h x hx
  · intro h x hx
    have : k ≠ x.1 := fun heq => h ⟨x, hx, heq.symm⟩
    simpa using this

/-! ## Beside the other keys -/

theorem filter_ne_of_lt (h : ∀ y ∈ l, k < y.1) : l.filter (fun x => x.1 ≠ k) = l := by
  refine List.filter_eq_self.mpr fun y hy => ?_
  simpa using (h y hy).ne'

/-- **An assignment puts the entry beside those of the other keys.** -/
theorem IsMap.assign_perm (h : IsMap l) (k : String) (a : α) :
    (KeyMap.assign k a l).Perm ((k, a) :: l.filter fun x => x.1 ≠ k) := by
  induction l with
  | nil => exact .refl _
  | cons x rest ih =>
    obtain ⟨hx, hrest⟩ := isMap_cons.mp h
    unfold KeyMap.assign
    split
    case isTrue hlt =>
      rw [List.filter_cons_of_pos (by simpa using hlt.ne)]
      exact ((ih hrest).cons x).trans (.swap ..)
    case isFalse hge =>
      split
      case isTrue heq =>
        rw [List.filter_cons_of_neg (by simpa using heq.symm), filter_ne_of_lt (heq ▸ hx)]
      case isFalse hne =>
        have hk : k < x.1 := lt_of_le_of_ne (not_lt.mp hge) hne
        rw [filter_ne_of_lt]
        intro y hy
        obtain rfl | hy := List.mem_cons.mp hy
        · exact hk
        · exact hk.trans (hx y hy)

/-- A map is an entry beside those of the other keys. -/
theorem IsMap.perm_of_lookup (h : IsMap l) (hk : l.lookup k = some a) :
    l.Perm ((k, a) :: l.filter fun x => x.1 ≠ k) := by
  have hsame : KeyMap.assign k a l = l := by
    refine (h.assign k a).ext h fun k' => ?_
    rw [lookup_assign]
    split
    · rename_i heq
      rw [heq, hk]
    · rfl
  have hperm := h.assign_perm k a
  rwa [hsame] at hperm

end KeyMap
