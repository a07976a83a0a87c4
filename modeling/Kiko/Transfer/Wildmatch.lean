import Kiko.Core.Crypto

/-!
# Wildcard patterns (`wildmatch` of `transfer/gitignore`)

A pattern is matched against a text byte by byte, from a position in either: a `*` stands for
bytes other than a slash, a `?` for one, a class for one of its own, and a run of stars that is
alone between slashes, a globstar, for anything. The table of the source remembers what has
been tried and changes no answer.

What a globstar stands for may begin and end inside a component (`wildmatch_leading`,
`wildmatch_middle`). When it stands for whole components is `globstar_componentwise_iff`.

Matching is by recursion on pattern and text together, where the source has two positions and a
table. A `*` that fails to match a slash stops, a globstar does not, and which of the two a run
of stars is, is decided by what stands on either side of it in the pattern; the byte in front
is passed along for that.
-/

set_option autoImplicit false

namespace Kiko.GitIgnore

def slash : UInt8 := 0x2f
def star : UInt8 := 0x2a
def question : UInt8 := 0x3f
def bracket : UInt8 := 0x5b
def closing : UInt8 := 0x5d
def backslash : UInt8 := 0x5c
def hyphen : UInt8 := 0x2d

/-- A byte of a class, and what is behind it: a backslash stands for the byte after it. -/
def classByte (c : UInt8) (rest : Bytes) : UInt8 × Bytes :=
  match rest with
  | d :: rest' => if c = backslash then (d, rest') else (c, rest)
  | [] => (c, [])

theorem length_classByte (c : UInt8) (rest : Bytes) : (classByte c rest).2.length ≤ rest.length := by
  unfold classByte
  cases rest with
  | nil => exact Nat.le_refl _
  | cons d rest =>
    by_cases hc : c = backslash
    · simp [hc]
    · simp [hc]

/-- The loop of `character_class_matches`. Bytes are compared as signed ones. -/
def classLoop (value : UInt8) (items : Bytes) : Bool :=
  match items with
  | [] => false
  | c :: rest =>
    let first := classByte c rest
    match _h : first.2 with
    | d :: e :: rest' =>
      if d = hyphen then
        let last := classByte e rest'
        (first.1.toInt8 ≤ value.toInt8 && value.toInt8 ≤ last.1.toInt8) || classLoop value last.2
      else first.1 == value || classLoop value (d :: e :: rest')
    | rest' => first.1 == value || classLoop value rest'
termination_by items.length
decreasing_by
  all_goals
    have hfirst := length_classByte c rest
  · have hlast := length_classByte e rest'
    simp_all +zetaDelta
    omega
  · simp_all +zetaDelta
  · simp_all +zetaDelta

/-- `character_class_matches`, for what stands between the brackets. -/
def characterClassMatches (items : Bytes) (value : UInt8) : Bool :=
  match items with
  | 0x21 :: rest | 0x5e :: rest => !classLoop value rest
  | _ => classLoop value items

/-- What a pattern that starts with `c`, not a star, asks of one byte, and what of it is left, with
    the byte before that. -/
def single (c : UInt8) (rest : Bytes) : (UInt8 → Bool) × UInt8 × Bytes :=
  if c = question then (fun t => t ≠ slash, c, rest)
  else if c = bracket then
    match rest.dropWhile (· ≠ closing) with
    | [] => (fun t => t = bracket, c, rest)
    | _ :: after =>
      (fun t => t ≠ slash && characterClassMatches (rest.takeWhile (· ≠ closing)) t, closing, after)
  else match rest with
    | d :: rest' => if c = backslash then (fun t => d = t, d, rest') else (fun t => c = t, c, rest)
    | [] => (fun t => c = t, c, [])

theorem length_single (c : UInt8) (rest : Bytes) : (single c rest).2.2.length ≤ rest.length := by
  unfold single
  by_cases hq : c = question
  · rw [if_pos hq]
  rw [if_neg hq]
  by_cases hb : c = bracket
  · rw [if_pos hb]
    have hsub := (List.dropWhile_sublist (l := rest) fun b => decide (b ≠ closing)).length_le
    cases hrest : rest.dropWhile (· ≠ closing) with
    | nil => exact Nat.le_refl _
    | cons d after =>
      rw [hrest] at hsub
      exact Nat.le_of_succ_le hsub
  · rw [if_neg hb]
    cases rest with
    | nil => exact Nat.le_refl _
    | cons d rest =>
      by_cases hs : c = backslash
      · simp [hs]
      · simp [hs]

/-- `match` of `wildmatch`, from a position on; `prev` is the byte of the pattern before it. -/
def matchFrom (prev : Option UInt8) (pattern text : Bytes) : Bool :=
  match pattern with
  | [] => text.isEmpty
  | c :: rest =>
    if c = star then
      let next := rest.dropWhile (· = star)
      let globstar := 2 ≤ 1 + (rest.takeWhile (· = star)).length ∧ (prev = none ∨ prev = some slash) ∧
        (next = [] ∨ next.head? = some slash)
      if globstar then
        (next.head? = some slash && matchFrom (some slash) next.tail text) ||
        matchFrom (some star) next text ||
        (match text with
          | [] => false
          | _ :: text' => matchFrom prev (c :: rest) text')
      else
        matchFrom (some star) next text ||
        (match text with
          | [] => false
          | t :: text' => t ≠ slash && matchFrom prev (c :: rest) text')
    else
      match text with
      | [] => false
      | t :: text' =>
        (single c rest).1 t && matchFrom (some (single c rest).2.1) (single c rest).2.2 text'
termination_by pattern.length + text.length
decreasing_by
  · have hnext := (List.dropWhile_sublist (l := rest) fun b => decide (b = star)).length_le
    simp only [List.length_cons, List.length_tail]
    omega
  · have hnext := (List.dropWhile_sublist (l := rest) fun b => decide (b = star)).length_le
    simp only [List.length_cons]
    omega
  · simp only [List.length_cons]
    omega
  · have hnext := (List.dropWhile_sublist (l := rest) fun b => decide (b = star)).length_le
    simp only [List.length_cons]
    omega
  · simp only [List.length_cons]
    omega
  · have hleft := length_single c rest
    simp only [List.length_cons]
    omega

/-- `wildmatch`. -/
def wildmatch (pattern text : Bytes) : Bool := matchFrom none pattern text

example : wildmatch (spanOf "artifact-[0-9].bin") (spanOf "artifact-7.bin") = true := by decide +kernel

/-! ## One step

An equation for each kind of pattern byte. All that follows uses these and never unfolds the
recursion. -/

variable {prev : Option UInt8} {c t : UInt8} {rest pattern text : Bytes}

theorem matchFrom_nil : matchFrom prev [] text = true ↔ text = [] := by
  rw [matchFrom]
  exact List.isEmpty_iff

theorem matchFrom_single (hc : c ≠ star) :
    matchFrom prev (c :: rest) text = true ↔ ∃ t text', text = t :: text' ∧ (single c rest).1 t = true ∧
      matchFrom (some (single c rest).2.1) (single c rest).2.2 text' = true := by
  rw [matchFrom.eq_def]
  simp only [if_neg hc]
  cases text with
  | nil => simp
  | cons t text => simp

/-- A byte that is no wildcard asks for itself. -/
def IsPlain (c : UInt8) : Prop := c ≠ star ∧ c ≠ question ∧ c ≠ bracket ∧ c ≠ backslash

instance (c : UInt8) : Decidable (IsPlain c) := inferInstanceAs (Decidable (_ ∧ _))

theorem isPlain_slash : IsPlain slash := by decide

theorem single_plain (hc : IsPlain c) : single c rest = (fun t => decide (c = t), c, rest) := by
  obtain ⟨-, hq, hb, hs⟩ := hc
  unfold single
  rw [if_neg hq, if_neg hb]
  cases rest with
  | nil => rfl
  | cons d rest => exact if_neg hs

theorem matchFrom_plain (hc : IsPlain c) :
    matchFrom prev (c :: rest) text = true ↔ ∃ text', text = c :: text' ∧
      matchFrom (some c) rest text' = true := by
  rw [matchFrom_single hc.1, single_plain hc]
  constructor
  · rintro ⟨t, text', rfl, ht, hm⟩
    obtain rfl : c = t := by simpa using ht
    exact ⟨text', rfl, hm⟩
  · rintro ⟨text', rfl, hm⟩
    exact ⟨c, text', rfl, by simp, hm⟩

/-- Plain bytes are read off the text. -/
theorem matchFrom_append {plain : Bytes} (hplain : ∀ c ∈ plain, IsPlain c) :
    matchFrom prev (plain ++ pattern) text = true ↔ ∃ text', text = plain ++ text' ∧
      matchFrom (plain.getLast?.or prev) pattern text' = true := by
  induction plain generalizing prev text with
  | nil => simp
  | cons c plain ih =>
    have hlast : (c :: plain).getLast?.or prev = plain.getLast?.or (some c) := by
      cases hp : plain.getLast? with
      | none => simp [List.getLast?_cons, hp]
      | some d => simp [List.getLast?_cons, hp]
    rw [hlast, List.cons_append, matchFrom_plain (hplain c List.mem_cons_self)]
    constructor
    · rintro ⟨text', rfl, hm⟩
      obtain ⟨text'', rfl, hm'⟩ := (ih fun d hd => hplain d (List.mem_cons_of_mem _ hd)).mp hm
      exact ⟨text'', rfl, hm'⟩
    · rintro ⟨text', rfl, hm⟩
      exact ⟨plain ++ text', rfl, (ih fun d hd => hplain d (List.mem_cons_of_mem _ hd)).mpr ⟨text', rfl, hm⟩⟩

/-! ## Globstars -/

/-- The start of a pattern and a position behind a slash are alike. -/
theorem matchFrom_start : matchFrom none pattern text = matchFrom (some slash) pattern text := by
  induction text with
  | nil =>
    cases pattern with
    | nil => rw [matchFrom, matchFrom]
    | cons c rest =>
      rw [matchFrom, matchFrom]
      simp
  | cons t text ih =>
    cases pattern with
    | nil => rw [matchFrom, matchFrom]
    | cons c rest =>
      rw [matchFrom, matchFrom]
      simp only [ih, reduceCtorEq, or_true, true_or]

/-- **A globstar and a slash stand for anything.** -/
theorem matchFrom_globstar (hprev : prev = none ∨ prev = some slash) :
    matchFrom prev (star :: star :: slash :: pattern) text = true ↔
      ∃ suffix, suffix <:+ text ∧ matchFrom (some slash) pattern suffix = true := by
  have hslash : slash ≠ star := by decide
  have htake : ((star :: slash :: pattern).takeWhile (· = star)).length = 1 := by simp [hslash]
  have hdrop : (star :: slash :: pattern).dropWhile (· = star) = slash :: pattern := by simp [hslash]
  -- at a position: the rest matches here, or behind a slash here, or further on
  have hstep (text : Bytes) : matchFrom prev (star :: star :: slash :: pattern) text = true ↔
      matchFrom (some slash) pattern text = true ∨
      matchFrom (some star) (slash :: pattern) text = true ∨
      ∃ t text', text = t :: text' ∧ matchFrom prev (star :: star :: slash :: pattern) text' = true := by
    rw [matchFrom.eq_def]
    simp only [if_true, hdrop, htake, List.head?_cons, List.tail_cons, hprev, and_true, or_true, le_refl]
    cases text with
    | nil => simp
    | cons t text => simp [or_assoc]
  have hbehind (text : Bytes) : matchFrom (some star) (slash :: pattern) text = true ↔
      ∃ text', text = slash :: text' ∧ matchFrom (some slash) pattern text' = true :=
    matchFrom_plain isPlain_slash
  induction text with
  | nil =>
    rw [hstep, hbehind]
    constructor
    · rintro (hm | ⟨text', htext, -⟩ | ⟨t, text', htext, -⟩)
      · exact ⟨[], List.suffix_refl _, hm⟩
      · cases htext
      · cases htext
    · rintro ⟨suffix, hsuffix, hm⟩
      obtain rfl := List.suffix_nil.mp hsuffix
      exact .inl hm
  | cons t text ih =>
    rw [hstep, hbehind]
    constructor
    · rintro (hm | ⟨text', htext, hm⟩ | ⟨t', text', htext, hm⟩)
      · exact ⟨_, List.suffix_refl _, hm⟩
      · obtain ⟨rfl, rfl⟩ := List.cons.inj htext
        exact ⟨_, List.suffix_cons _ _, hm⟩
      · obtain ⟨rfl, rfl⟩ := List.cons.inj htext
        obtain ⟨suffix, hsuffix, hm⟩ := ih.mp hm
        exact ⟨suffix, hsuffix.trans (List.suffix_cons _ _), hm⟩
    · rintro ⟨suffix, hsuffix, hm⟩
      obtain rfl | hsuffix := List.suffix_cons_iff.mp hsuffix
      · exact .inl hm
      · exact .inr (.inr ⟨t, text, rfl, ih.mpr ⟨suffix, hsuffix, hm⟩⟩)

/-- A leading globstar stands for anything before a suffix. -/
theorem wildmatch_leading (pattern text : Bytes) :
    wildmatch (spanOf "**/" ++ pattern) text = true ↔
      ∃ suffix, suffix <:+ text ∧ wildmatch pattern suffix = true := by
  have hspan : spanOf "**/" = [star, star, slash] := by decide
  simp only [wildmatch, hspan, @matchFrom_start pattern]
  exact matchFrom_globstar (.inl rfl)

/-- A globstar between plain parts stands for anything between them. -/
theorem wildmatch_middle {before after : Bytes} (hbefore : ∀ c ∈ before, IsPlain c)
    (hafter : ∀ c ∈ after, IsPlain c) (text : Bytes) :
    wildmatch (before ++ spanOf "/**/" ++ after) text = true ↔
      ∃ between, text = before ++ slash :: between ++ after := by
  have hspan : spanOf "/**/" = [slash, star, star, slash] := by decide
  have hpattern : before ++ spanOf "/**/" ++ after = (before ++ [slash]) ++ star :: star :: slash :: after := by
    simp [hspan]
  have hplain : ∀ c ∈ before ++ [slash], IsPlain c := by
    intro c hc
    obtain hc | hc := List.mem_append.mp hc
    · exact hbefore c hc
    · exact List.mem_singleton.mp hc ▸ isPlain_slash
  have hend (suffix : Bytes) : matchFrom (some slash) after suffix = true ↔ suffix = after := by
    have := @matchFrom_append (some slash) [] suffix after hafter
    rw [List.append_nil] at this
    rw [this]
    constructor
    · rintro ⟨text', rfl, hnil⟩
      rw [matchFrom_nil.mp hnil, List.append_nil]
    · rintro rfl
      exact ⟨[], (List.append_nil _).symm, matchFrom_nil.mpr rfl⟩
  rw [wildmatch, hpattern, matchFrom_append hplain]
  constructor
  · rintro ⟨text', rfl, hm⟩
    obtain ⟨suffix, ⟨between, rfl⟩, hm'⟩ := (matchFrom_globstar (.inr (by simp))).mp hm
    exact ⟨between, by simp [(hend suffix).mp hm']⟩
  · rintro ⟨between, rfl⟩
    refine ⟨between ++ after, by simp, (matchFrom_globstar (.inr (by simp))).mpr ?_⟩
    exact ⟨after, List.suffix_append _ _, (hend after).mpr rfl⟩

/-! ## Component by component

The comparison with what globstars are commonly taken to mean: whole components, as many as
there are. It is stated over suffixes of the text, since that is what is left to match when the
globstar is done. -/

/-- The suffix is the text, or starts behind a slash of it. -/
def StartsComponent (text suffix : Bytes) : Prop := suffix = text ∨ slash :: suffix <:+ text

/-- One or more components, with slashes between them. -/
def Components (text : Bytes) : Prop :=
  ∃ components : List Bytes, components ≠ [] ∧ (∀ c ∈ components, c ≠ [] ∧ slash ∉ c) ∧
    text = [slash].intercalate components

/-- **When a globstar stands for components.** With a leading globstar, when the pattern behind
    it matches no suffix that starts inside a component, or also one that does not; between plain
    parts, when what stands between them in the text is nothing, or components and a slash. -/
theorem globstar_componentwise_iff (pattern before after text : Bytes)
    (hbefore : ∀ c ∈ before, IsPlain c) (hafter : ∀ c ∈ after, IsPlain c) :
    ((wildmatch (spanOf "**/" ++ pattern) text = true ↔
        wildmatch pattern text = true ∨
          ∃ suffix, slash :: suffix <:+ text ∧ wildmatch pattern suffix = true) ↔
      ∀ suffix, suffix <:+ text → wildmatch pattern suffix = true →
        ∃ suffix', StartsComponent text suffix' ∧ wildmatch pattern suffix' = true) ∧
    ((wildmatch (before ++ spanOf "/**/" ++ after) text = true ↔
        text = before ++ slash :: after ∨
          ∃ components, Components components ∧
            text = before ++ slash :: components ++ slash :: after) ↔
      ∀ between, text = before ++ slash :: between ++ after →
        between = [] ∨ ∃ components, Components components ∧ between = components ++ [slash]) := by
  constructor
  · rw [wildmatch_leading]
    -- what the right side says is a match at the start of a component
    have hstart : (wildmatch pattern text = true ∨
          ∃ suffix, slash :: suffix <:+ text ∧ wildmatch pattern suffix = true) ↔
        ∃ suffix, StartsComponent text suffix ∧ wildmatch pattern suffix = true := by
      constructor
      · rintro (hm | ⟨suffix, hsuffix, hm⟩)
        · exact ⟨text, .inl rfl, hm⟩
        · exact ⟨suffix, .inr hsuffix, hm⟩
      · rintro ⟨suffix, rfl | hsuffix, hm⟩
        · exact .inl hm
        · exact .inr ⟨suffix, hsuffix, hm⟩
    rw [hstart]
    constructor
    · exact fun h suffix hsuffix hm => h.mp ⟨suffix, hsuffix, hm⟩
    · refine fun h => ⟨fun ⟨suffix, hsuffix, hm⟩ => h suffix hsuffix hm, ?_⟩
      rintro ⟨suffix, rfl | hsuffix, hm⟩
      · exact ⟨suffix, List.suffix_refl _, hm⟩
      · exact ⟨suffix, (List.suffix_cons _ _).trans hsuffix, hm⟩
  · rw [wildmatch_middle hbefore hafter]
    constructor
    · intro h between htext
      obtain heq | ⟨components, hcomponents, heq⟩ := h.mp ⟨between, htext⟩
      · left
        rw [htext, List.append_assoc] at heq
        have hrest := List.append_cancel_left heq
        simpa using hrest
      · right
        refine ⟨components, hcomponents, ?_⟩
        rw [htext] at heq
        have hsame : (before ++ slash :: between) ++ after = (before ++ slash :: (components ++ [slash])) ++ after := by
          simpa using heq
        simpa using List.append_cancel_right hsame
    · intro h
      constructor
      · rintro ⟨between, rfl⟩
        obtain rfl | ⟨components, hcomponents, rfl⟩ := h between rfl
        · exact .inl (by simp)
        · exact .inr ⟨components, hcomponents, by simp⟩
      · rintro (rfl | ⟨components, -, rfl⟩)
        · exact ⟨[], by simp⟩
        · exact ⟨components ++ [slash], by simp⟩

theorem globstar_componentwise_iff_cache :
    (wildmatch (spanOf "**/" ++ spanOf "tmp") (spanOf "a/tmp") = true ↔
        wildmatch (spanOf "tmp") (spanOf "a/tmp") = true ∨
          ∃ suffix, slash :: suffix <:+ spanOf "a/tmp" ∧ wildmatch (spanOf "tmp") suffix = true) ∧
      (wildmatch (spanOf "cache" ++ spanOf "/**/" ++ spanOf "tmp") (spanOf "cache/tmp") = true ↔
        spanOf "cache/tmp" = spanOf "cache" ++ slash :: spanOf "tmp" ∨
          ∃ components, Components components ∧
            spanOf "cache/tmp" = spanOf "cache" ++ slash :: components ++ slash :: spanOf "tmp") := by
  constructor
  · refine (globstar_componentwise_iff (spanOf "tmp") [] [] (spanOf "a/tmp") (by simp)
      (by simp)).1.mpr fun _ _ _ => ?_
    exact ⟨spanOf "tmp", .inr ⟨spanOf "a", by decide⟩, by decide +kernel⟩
  · refine (globstar_componentwise_iff [] (spanOf "cache") (spanOf "tmp") (spanOf "cache/tmp")
      (by decide +kernel) (by decide +kernel)).2.mpr fun between htext => .inl ?_
    have hlength := congrArg List.length htext
    simp only [List.length_append, List.length_cons,
      show (spanOf "cache/tmp").length = 9 by decide, show (spanOf "cache").length = 5 by decide,
      show (spanOf "tmp").length = 3 by decide] at hlength
    exact List.length_eq_zero_iff.mp (by omega)

/-- `xfoo` is no `foo` in any directory, and `a/xb` is no `b` below `a`. -/
theorem globstar_inside_component :
    ¬ ((∀ pattern text : Bytes, pattern.head? ≠ some star →
        (wildmatch (spanOf "**/" ++ pattern) text = true ↔
          wildmatch pattern text = true ∨
            ∃ suffix, slash :: suffix <:+ text ∧ wildmatch pattern suffix = true)) ∧
      ∀ before after text : Bytes, (∀ c ∈ before, IsPlain c) → (∀ c ∈ after, IsPlain c) →
        (wildmatch (before ++ spanOf "/**/" ++ after) text = true ↔
          text = before ++ slash :: after ∨
            ∃ components, Components components ∧
              text = before ++ slash :: components ++ slash :: after)) := by
  rintro ⟨h, -⟩
  have hmatch : wildmatch (spanOf "**/" ++ spanOf "foo") (spanOf "xfoo") = true :=
    (wildmatch_leading _ _).mpr ⟨spanOf "foo", ⟨spanOf "x", by decide⟩, by decide +kernel⟩
  obtain hplain | ⟨suffix, hsuffix, -⟩ := (h (spanOf "foo") (spanOf "xfoo") (by decide)).mp hmatch
  · exact absurd hplain (by decide +kernel)
  · have hslash : slash ∈ spanOf "xfoo" := hsuffix.subset List.mem_cons_self
    exact absurd hslash (by decide)

end Kiko.GitIgnore
