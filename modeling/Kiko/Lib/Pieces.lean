import Mathlib

/-!
# A file written in pieces, in any order

Nothing here names a program. A file is a list; it is **cut** into pieces that know their
offset, the pieces are **written** one by one in whatever order they come, and beside the
file stands a record of the **ranges** written so far: everything below a front, and the
ranges beyond it.

```
   covered:  ########......####....##
             0       ^front            pending = [(14,18), (22,24)]
```

What the record means is the set `Ranges.covered`, and `covered_add` says that recording a
range adds exactly that range to the set. Everything else is read off the set: the front
is the length of the file exactly when the file is covered (`front_eq_of_covered`), and a
file that agrees with its target on what is covered is the target in the end
(`AgreesOn.eq`).

The record is kept in normal form by its type: the ranges beyond the front are sorted by
their start, and each starts strictly beyond it.
-/

set_option autoImplicit false

namespace Pieces

/-! ## Ranges written so far

Sorted and beyond the front is what the type guarantees. The ranges may overlap each
other, since the front swallows them one at a time as it gets to them. -/

section Ranges

variable {α : Type*} [LinearOrder α]

/-- The points of a list of half-open ranges. -/
def points (rs : List (α × α)) : Set α := {x | ∃ r ∈ rs, r.1 ≤ x ∧ x < r.2}

@[simp] theorem points_nil : points ([] : List (α × α)) = ∅ := by simp [points]

@[simp] theorem points_cons (r : α × α) (rs : List (α × α)) :
    points (r :: rs) = Set.Ico r.1 r.2 ∪ points rs := by
  ext x
  simp [points]

/-- A range enters the list sorted by start; of two with one start the longer stays. -/
def insertRange (o e : α) : List (α × α) → List (α × α)
  | [] => [(o, e)]
  | r :: rs =>
    if o < r.1 then (o, e) :: r :: rs
    else if o = r.1 then (r.1, max r.2 e) :: rs
    else r :: insertRange o e rs

theorem points_insertRange (o e : α) (rs : List (α × α)) :
    points (insertRange o e rs) = Set.Ico o e ∪ points rs := by
  induction rs with
  | nil => simp [insertRange]
  | cons r rs ih =>
    unfold insertRange
    split_ifs with hlt heq
    · simp
    · subst heq
      rw [points_cons, points_cons, ← Set.union_assoc]
      congr 1
      ext x
      simp only [Set.mem_Ico, Set.mem_union, lt_max_iff]
      tauto
    · rw [points_cons, points_cons, ih, Set.union_left_comm]

theorem mem_insertRange_start {o e : α} {rs : List (α × α)} {r : α × α}
    (h : r ∈ insertRange o e rs) : r.1 = o ∨ ∃ r' ∈ rs, r.1 = r'.1 := by
  induction rs with
  | nil => simp_all [insertRange]
  | cons r' rs ih =>
    unfold insertRange at h
    split_ifs at h with hlt heq
    · rcases List.mem_cons.mp h with rfl | h
      · exact .inl rfl
      · exact .inr ⟨r, h, rfl⟩
    · rcases List.mem_cons.mp h with rfl | h
      · exact .inl heq.symm
      · exact .inr ⟨r, List.mem_cons_of_mem _ h, rfl⟩
    · rcases List.mem_cons.mp h with rfl | h
      · exact .inr ⟨r, List.mem_cons_self, rfl⟩
      · rcases ih h with h | ⟨r'', hr, h⟩
        · exact .inl h
        · exact .inr ⟨r'', List.mem_cons_of_mem _ hr, h⟩

/-- Sorted by start, no start twice. -/
abbrev Sorted (rs : List (α × α)) : Prop := rs.Pairwise fun a b => a.1 < b.1

theorem sorted_insertRange {o e : α} {rs : List (α × α)} (h : Sorted rs) :
    Sorted (insertRange o e rs) := by
  induction rs with
  | nil => simp [insertRange]
  | cons r rs ih =>
    obtain ⟨hr, hrs⟩ := List.pairwise_cons.mp h
    unfold insertRange
    split_ifs with hlt heq
    · refine List.pairwise_cons.mpr ⟨fun r' hr' => ?_, h⟩
      rcases List.mem_cons.mp hr' with rfl | hr'
      · exact hlt
      · exact hlt.trans (hr r' hr')
    · exact List.pairwise_cons.mpr ⟨hr, hrs⟩
    · refine List.pairwise_cons.mpr ⟨fun r' hr' => ?_, ih hrs⟩
      rcases mem_insertRange_start hr' with h' | ⟨r'', hr'', h'⟩
      · rw [h']
        exact lt_of_le_of_ne (not_lt.mp hlt) (Ne.symm heq)
      · rw [h']
        exact hr r'' hr''

/-- What has been written: all below `front`, and the ranges beyond it. -/
structure Ranges (α : Type*) [LinearOrder α] where
  front : α
  pending : List (α × α)
  sorted : Sorted pending
  ahead : ∀ r ∈ pending, front < r.1
deriving DecidableEq

namespace Ranges

/-- Nothing beyond the front. -/
def upTo (front : α) : Ranges α := ⟨front, [], List.Pairwise.nil, by simp⟩

/-- The front swallows every pending range it reaches, smallest start first. -/
def settle (front : α) : (rs : List (α × α)) → Sorted rs → Ranges α
  | [], _ => upTo front
  | r :: rs, h =>
    if hlt : front < r.1 then
      ⟨front, r :: rs, h, fun r' hr' => by
        rcases List.mem_cons.mp hr' with rfl | hr'
        · exact hlt
        · exact hlt.trans ((List.pairwise_cons.mp h).1 r' hr')⟩
    else settle (max front r.2) rs (List.pairwise_cons.mp h).2

/-- A range is recorded. -/
def add (r : Ranges α) (o e : α) : Ranges α :=
  if e ≤ r.front then r
  else if o ≤ r.front then settle (max r.front e) r.pending r.sorted
  else settle r.front (insertRange o e r.pending) (sorted_insertRange r.sorted)

/-- The points written. -/
def covered (r : Ranges α) : Set α := Set.Iio r.front ∪ points r.pending

@[simp] theorem covered_upTo (front : α) : (upTo front).covered = Set.Iio front := by
  simp [covered, upTo]

theorem covered_settle (front : α) (rs : List (α × α)) (h : Sorted rs) :
    (settle front rs h).covered = Set.Iio front ∪ points rs := by
  induction rs generalizing front with
  | nil => simp [settle]
  | cons r rs ih =>
    unfold settle
    split_ifs with hlt
    · rfl
    · rw [ih, points_cons, ← Set.union_assoc]
      congr 1
      ext x
      simp only [Set.mem_Iio, Set.mem_union, Set.mem_Ico, lt_max_iff]
      constructor
      · rintro (hx | hx)
        · exact .inl hx
        · rcases lt_or_ge x front with h | h
          · exact .inl h
          · exact .inr ⟨(not_lt.mp hlt).trans h, hx⟩
      · rintro (hx | hx)
        · exact .inl hx
        · exact .inr hx.2

/-- **Recording a range adds exactly its points.** -/
theorem covered_add (r : Ranges α) (o e : α) :
    (r.add o e).covered = r.covered ∪ Set.Ico o e := by
  unfold add
  split_ifs with he ho
  · refine (Set.union_eq_left.mpr fun x hx => ?_).symm
    exact .inl (hx.2.trans_le he)
  · rw [covered_settle, covered, Set.union_right_comm]
    congr 1
    ext x
    simp only [Set.mem_Iio, Set.mem_union, Set.mem_Ico, lt_max_iff]
    constructor
    · rintro (hx | hx)
      · exact .inl hx
      · rcases lt_or_ge x r.front with h | h
        · exact .inl h
        · exact .inr ⟨ho.trans h, hx⟩
    · rintro (hx | hx)
      · exact .inl hx
      · exact .inr hx.2
  · rw [covered_settle, points_insertRange, covered, Set.union_left_comm, Set.union_comm]

theorem Iio_front_subset (r : Ranges α) : Set.Iio r.front ⊆ r.covered :=
  Set.subset_union_left

/-- The front itself is not written yet. -/
theorem front_notMem (r : Ranges α) : r.front ∉ r.covered := by
  rintro (h | ⟨p, hp, hle, -⟩)
  · exact lt_irrefl _ h
  · exact absurd (r.ahead p hp) (not_lt.mpr hle)

/-- **When an initial segment is covered and nothing else, the front is its end.** -/
theorem front_eq_of_covered {r : Ranges α} {n : α} (h : r.covered = Set.Iio n) :
    r.front = n := by
  rcases lt_trichotomy r.front n with hlt | heq | hgt
  · exact absurd (h ▸ hlt : r.front ∈ r.covered) r.front_notMem
  · exact heq
  · exact absurd (h ▸ r.Iio_front_subset hgt : n ∈ Set.Iio n) (lt_irrefl n)

/-- The front never moves back. -/
theorem front_le_of_covered {r r' : Ranges α} (h : r.covered ⊆ r'.covered) : r.front ≤ r'.front := by
  by_contra hlt
  exact r'.front_notMem (h (r.Iio_front_subset (not_le.mp hlt)))

/-- The front is as far as what is covered goes without a gap. -/
theorem isGreatest_front {r : Ranges α} {start : α} {written : Set α}
    (h : r.covered = Set.Iio start ∪ written) (hle : start ≤ r.front) :
    IsGreatest {p | start ≤ p ∧ Set.Ico start p ⊆ written} r.front := by
  refine ⟨⟨hle, fun x hx => ?_⟩, fun p hp => ?_⟩
  · have hmem : x ∈ Set.Iio start ∪ written := h ▸ r.Iio_front_subset hx.2
    exact hmem.resolve_left (not_lt.mpr hx.1)
  · by_contra hlt
    have hmem : r.front ∈ written := hp.2 ⟨hle, not_le.mp hlt⟩
    exact r.front_notMem (h ▸ .inr hmem)

end Ranges
end Ranges

/-! ## Writing at an offset

A write beyond the end leaves a gap, which is filled with zeros as a file system does;
nobody reads a gap before it has been written. -/

section Writing

variable {α : Type*}

/-- A seek to `off` and a write of `bytes`: what lies between the end of the file and the
    offset is filled, and a write of nothing changes nothing. -/
def overwrite (fill : α) (file : List α) (off : Nat) (bytes : List α) : List α :=
  if bytes = [] then file
  else (file ++ List.replicate (off - file.length) fill).take off ++ bytes ++
    file.drop (off + bytes.length)

theorem length_overwrite_le (fill : α) (file : List α) (off : Nat) (bytes : List α) :
    (overwrite fill file off bytes).length ≤ max file.length (off + bytes.length) := by
  unfold overwrite
  split_ifs with h
  · exact le_max_left _ _
  · simp only [List.length_append, List.length_take, List.length_replicate, List.length_drop]
    omega

theorem length_overwrite {fill : α} {file bytes : List α} {off : Nat} (hne : bytes ≠ []) :
    (overwrite fill file off bytes).length = max file.length (off + bytes.length) := by
  unfold overwrite
  rw [if_neg hne]
  simp only [List.length_append, List.length_take, List.length_replicate, List.length_drop]
  omega

/-- A write never makes a file shorter. -/
theorem length_le_overwrite (fill : α) (file : List α) (off : Nat) (bytes : List α) :
    file.length ≤ (overwrite fill file off bytes).length := by
  by_cases hne : bytes = []
  · rw [overwrite, if_pos hne]
  · rw [length_overwrite hne]
    exact le_max_left _ _

/-- What was written is in the file. -/
theorem lt_length_overwrite {fill : α} {file bytes : List α} {off x : Nat} (h : off ≤ x)
    (hx : x < off + bytes.length) : x < (overwrite fill file off bytes).length := by
  have hne : bytes ≠ [] := by
    rintro rfl
    simp only [List.length_nil, Nat.add_zero] at hx
    omega
  rw [length_overwrite hne]
  exact lt_max_of_lt_right hx

/-- What a write leaves in its own range. -/
theorem getElem?_overwrite_mem {fill : α} {file bytes : List α} {off x : Nat}
    (h : off ≤ x) (hx : x < off + bytes.length) :
    (overwrite fill file off bytes)[x]? = bytes[x - off]? := by
  have hne : bytes ≠ [] := by rintro rfl; simp at hx; omega
  have hlen : ((file ++ List.replicate (off - file.length) fill).take off).length = off := by
    simp only [List.length_take, List.length_append, List.length_replicate]
    omega
  rw [overwrite, if_neg hne, List.append_assoc, List.getElem?_append_right (by omega), hlen,
    List.getElem?_append_left (by omega)]

/-- What a write leaves elsewhere in the file. -/
theorem getElem?_overwrite_notMem {fill : α} {file bytes : List α} {off x : Nat}
    (hfile : x < file.length) (h : x < off ∨ off + bytes.length ≤ x) :
    (overwrite fill file off bytes)[x]? = file[x]? := by
  unfold overwrite
  split_ifs with hne
  · rfl
  · have hlen : ((file ++ List.replicate (off - file.length) fill).take off).length = off := by
      simp only [List.length_take, List.length_append, List.length_replicate]
      omega
    rcases h with h | h
    · rw [List.append_assoc, List.getElem?_append_left (by omega), List.getElem?_take,
        if_pos h, List.getElem?_append_left hfile]
    · rw [List.getElem?_append_right (by simp only [List.length_append, hlen]; omega),
        List.getElem?_drop]
      congr 1
      simp only [List.length_append, hlen]
      omega

/-- The file and its target are the same on `S`. -/
def AgreesOn (S : Set Nat) (file target : List α) : Prop := ∀ x ∈ S, file[x]? = target[x]?

/-- **Writing a slice of the target keeps the agreement and widens it to the slice.** -/
theorem AgreesOn.overwrite {S : Set Nat} {file target bytes : List α} {off : Nat} (fill : α)
    (h : AgreesOn S file target) (hS : S ⊆ Set.Iio target.length)
    (hslice : bytes <+: target.drop off) :
    AgreesOn (S ∪ Set.Ico off (off + bytes.length)) (overwrite fill file off bytes) target := by
  obtain ⟨rest, hrest⟩ := hslice
  intro x hx
  by_cases hin : off ≤ x ∧ x < off + bytes.length
  · rw [getElem?_overwrite_mem hin.1 hin.2]
    have hdrop : (target.drop off)[x - off]? = target[x]? := by
      rw [List.getElem?_drop]
      congr 1
      omega
    rw [← hdrop, ← hrest, List.getElem?_append_left (by omega)]
  · have hxS : x ∈ S := hx.resolve_right hin
    have hlt : x < target.length := hS hxS
    have hfile : x < file.length := by
      by_contra hge
      have := h x hxS
      rw [List.getElem?_eq_none (by omega), List.getElem?_eq_getElem hlt] at this
      cases this
    rw [getElem?_overwrite_notMem hfile (by omega)]
    exact h x hxS

/-- **A file no longer than its target that agrees with it everywhere is the target.** -/
theorem AgreesOn.eq {file target : List α} (h : AgreesOn (Set.Iio target.length) file target)
    (hlen : file.length ≤ target.length) : file = target := by
  refine List.ext_getElem? fun x => ?_
  by_cases hx : x < target.length
  · exact h x hx
  · rw [List.getElem?_eq_none (by omega), List.getElem?_eq_none (by omega)]

end Writing

/-! ## Cutting

The pieces of a cut follow each other and together are what was cut, so writing all of
them in any order gives it back. -/

section Cutting

variable {α : Type*}

/-- A piece of a file, with the place it was cut from. -/
structure Piece (α : Type*) where
  offset : Nat
  bytes : List α
deriving DecidableEq, Repr

namespace Piece

/-- One past the last position of the piece. -/
def stop (p : Piece α) : Nat := p.offset + p.bytes.length

/-- The piece stands in `target` where it says. -/
def IsSlice (target : List α) (p : Piece α) : Prop := p.bytes <+: target.drop p.offset

theorem IsSlice.stop_le {target : List α} {p : Piece α} (h : p.IsSlice target)
    (hoff : p.offset ≤ target.length) : p.stop ≤ target.length := by
  have := h.length_le
  simp only [List.length_drop] at this
  unfold stop
  omega

end Piece

/-- `cut`, for at most `fuel` pieces. -/
def cutFuel (size : Nat) : Nat → Nat → List α → List (Piece α)
  | 0, _, _ => []
  | fuel + 1, off, l =>
    if l = [] then []
    else ⟨off, l.take size⟩ :: cutFuel size fuel (off + (l.take size).length) (l.drop size)

/-- A list read `size` elements at a time from position `off` on; the last piece is what
    is left. -/
def cut (size off : Nat) (l : List α) : List (Piece α) := cutFuel size l.length off l

theorem cutFuel_eq {size : Nat} (hsize : 0 < size) {fuel fuel' off : Nat} {l : List α}
    (h : l.length ≤ fuel) (h' : l.length ≤ fuel') :
    cutFuel size fuel off l = cutFuel size fuel' off l := by
  induction fuel generalizing fuel' off l with
  | zero =>
    obtain rfl : l = [] := List.length_eq_zero_iff.mp (by omega)
    cases fuel' <;> simp [cutFuel]
  | succ fuel ih =>
    cases fuel' with
    | zero =>
      obtain rfl : l = [] := List.length_eq_zero_iff.mp (by omega)
      simp [cutFuel]
    | succ fuel' =>
      unfold cutFuel
      split_ifs with hl
      · rfl
      · have hpos : 0 < l.length := List.length_pos_iff.mpr hl
        have hle : (l.drop size).length ≤ fuel := by
          rw [List.length_drop]
          omega
        have hle' : (l.drop size).length ≤ fuel' := by
          rw [List.length_drop]
          omega
        rw [ih hle hle']

@[simp] theorem cut_nil (size off : Nat) : cut size off ([] : List α) = [] := rfl

/-- One read, and the rest. -/
theorem cut_of_ne_nil {size off : Nat} {l : List α} (hsize : 0 < size) (hl : l ≠ []) :
    cut size off l =
      ⟨off, l.take size⟩ :: cut size (off + (l.take size).length) (l.drop size) := by
  have hpos : 0 < l.length := List.length_pos_iff.mpr hl
  obtain ⟨fuel, hfuel⟩ : ∃ fuel, l.length = fuel + 1 := ⟨l.length - 1, by omega⟩
  have hstep : cut size off l = ⟨off, l.take size⟩ ::
      cutFuel size fuel (off + (l.take size).length) (l.drop size) := by
    unfold cut
    rw [hfuel, cutFuel, if_neg hl]
  rw [hstep, cut, cutFuel_eq hsize (by simp only [List.length_drop]; omega) le_rfl]

/-- The induction that goes with `cut`: one read, and the rest. -/
theorem cut_induction {motive : Nat → List α → Prop} {size : Nat} (hsize : 0 < size)
    (nil : ∀ off, motive off [])
    (read : ∀ off l, l ≠ [] → motive (off + (l.take size).length) (l.drop size) →
      motive off l) : ∀ off l, motive off l := by
  intro off l
  induction hn : l.length using Nat.strong_induction_on generalizing off l with
  | _ n ih =>
    by_cases hl : l = []
    · exact hl ▸ nil off
    · have hpos : 0 < l.length := List.length_pos_iff.mpr hl
      have hlen : (l.drop size).length = l.length - size := List.length_drop
      exact read off l hl (ih _ (by omega) _ _ rfl)

variable {size off : Nat} {l : List α}

/-- The pieces, put together, are the list. -/
theorem flatten_cut (hsize : 0 < size) (off : Nat) (l : List α) :
    ((cut size off l).map (·.bytes)).flatten = l := by
  induction off, l using cut_induction hsize with
  | nil off => rfl
  | read off l hl ih =>
    rw [cut_of_ne_nil hsize hl, List.map_cons, List.flatten_cons, ih, List.take_append_drop]

theorem sum_length_cut (hsize : 0 < size) :
    ((cut size off l).map (·.bytes.length)).sum = l.length := by
  conv_rhs => rw [← flatten_cut hsize off l]
  rw [List.length_flatten, List.map_map]
  rfl

theorem bytes_ne_nil_of_mem_cut (hsize : 0 < size) {p : Piece α} (h : p ∈ cut size off l) :
    p.bytes ≠ [] := by
  induction off, l using cut_induction hsize with
  | nil off => simp at h
  | read off l hl ih =>
    rw [cut_of_ne_nil hsize hl] at h
    rcases List.mem_cons.mp h with rfl | h
    · simp [hl, hsize.ne']
    · exact ih h

theorem length_le_of_mem_cut (hsize : 0 < size) {p : Piece α} (h : p ∈ cut size off l) :
    p.bytes.length ≤ size := by
  induction off, l using cut_induction hsize with
  | nil off => simp at h
  | read off l hl ih =>
    rw [cut_of_ne_nil hsize hl] at h
    rcases List.mem_cons.mp h with rfl | h
    · exact List.length_take_le _ _
    · exact ih h

theorem le_offset_of_mem_cut (hsize : 0 < size) {p : Piece α} (h : p ∈ cut size off l) :
    off ≤ p.offset := by
  induction off, l using cut_induction hsize with
  | nil off => simp at h
  | read off l hl ih =>
    rw [cut_of_ne_nil hsize hl] at h
    rcases List.mem_cons.mp h with rfl | h
    · exact le_rfl
    · exact (Nat.le_add_right _ _).trans (ih h)

theorem offset_lt_of_mem_cut (hsize : 0 < size) {p : Piece α} (h : p ∈ cut size off l) :
    p.offset < off + l.length := by
  induction off, l using cut_induction hsize with
  | nil off => simp at h
  | read off l hl ih =>
    have hpos : 0 < l.length := List.length_pos_iff.mpr hl
    rw [cut_of_ne_nil hsize hl] at h
    rcases List.mem_cons.mp h with rfl | h
    · exact Nat.lt_add_of_pos_right hpos
    · have := ih h
      simp only [List.length_take, List.length_drop] at this
      omega

/-- Every piece stands where it was cut. -/
theorem isSlice_of_mem_cut (hsize : 0 < size) {target : List α} (htarget : target.drop off = l)
    {p : Piece α} (h : p ∈ cut size off l) : p.IsSlice target := by
  induction off, l using cut_induction hsize with
  | nil off => simp at h
  | read off l hl ih =>
    rw [cut_of_ne_nil hsize hl] at h
    rcases List.mem_cons.mp h with rfl | h
    · simpa only [Piece.IsSlice, htarget] using List.take_prefix size l
    · refine ih ?_ h
      have hmin : target.drop (off + min size l.length) = l.drop (min size l.length) := by
        rw [← List.drop_drop, htarget]
      rw [List.length_take, hmin]
      rcases le_total size l.length with hle | hle
      · rw [min_eq_left hle]
      · rw [min_eq_right hle, List.drop_length, List.drop_of_length_le hle]

/-- Each piece starts where the one before it stops. -/
theorem pairwise_cut (hsize : 0 < size) :
    (cut size off l).Pairwise fun p q => p.stop ≤ q.offset := by
  induction off, l using cut_induction hsize with
  | nil off => exact List.Pairwise.nil
  | read off l hl ih =>
    rw [cut_of_ne_nil hsize hl]
    exact List.pairwise_cons.mpr ⟨fun q hq => le_offset_of_mem_cut hsize hq, ih⟩

/-- No piece is cut twice. -/
theorem nodup_cut (hsize : 0 < size) : (cut size off l).Nodup := by
  refine ((pairwise_cut hsize).imp_of_mem fun {p q} hp _ hle => ?_)
  rintro rfl
  have := List.length_pos_iff.mpr (bytes_ne_nil_of_mem_cut hsize hp)
  unfold Piece.stop at hle
  omega

/-- The pieces cover what was cut, and nothing else. -/
theorem mem_cut_iff (hsize : 0 < size) (off : Nat) (l : List α) (x : Nat) :
    (∃ p ∈ cut size off l, p.offset ≤ x ∧ x < p.stop) ↔ off ≤ x ∧ x < off + l.length := by
  induction off, l using cut_induction hsize with
  | nil off => simp
  | read off l hl ih =>
    rw [cut_of_ne_nil hsize hl]
    simp only [List.mem_cons, exists_eq_or_imp, ih]
    simp only [Piece.stop, List.length_take, List.length_drop]
    omega

end Cutting

/-! ## Sums over a family that changes in one place -/

/-- What one member of a family loses or gains, the sum over the family does. -/
theorem sum_update {ι β γ : Type*} [Fintype ι] [DecidableEq ι] [AddCommMonoid γ]
    (f : ι → β) (i : ι) (b : β) (g : β → γ) :
    (∑ j, g (Function.update f i b j)) + g (f i) = (∑ j, g (f j)) + g b := by
  rw [← Finset.add_sum_erase _ (fun j => g (f j)) (Finset.mem_univ i),
    ← Finset.add_sum_erase _ (fun j => g (Function.update f i b j)) (Finset.mem_univ i)]
  have hrest : ∑ j ∈ Finset.univ.erase i, g (Function.update f i b j) =
      ∑ j ∈ Finset.univ.erase i, g (f j) := by
    refine Finset.sum_congr rfl fun j hj => ?_
    rw [Function.update_of_ne (Finset.ne_of_mem_erase hj)]
  rw [hrest, Function.update_self]
  abel

end Pieces
