import Kiko.Lib.KeyMap

/-!
# JSON values and their text

What a program sees of a JSON library in the style of C++'s `nlohmann::json`: a value is built
or taken apart, `dump` writes it as text and `parse` reads text. Text is bytes. An object is a
map, so its keys are in order and each stands once (`Plain`), and a number is an integer that
fits 64 bits, signed or unsigned.

`Library` is such a library with the two facts that programs rely on: what was written reads
back, and no byte of a string takes more than six in the text (`Value.bound`). `compact` is one:
it writes no blanks, escapes what has to be, and reads what it writes.
-/

set_option autoImplicit false

namespace Json

inductive Value
  | null
  | bool (b : Bool)
  | number (n : Int)
  /-- any other number, by its text -/
  | float (text : String)
  | string (s : String)
  | array (items : List Value)
  | object (fields : List (String × Value))

/-- What holds of a value when it holds of its parts holds of every value. -/
@[elab_as_elim] theorem Value.induct {P : Value → Prop} (null : P .null) (bool : ∀ b, P (.bool b))
    (number : ∀ n, P (.number n)) (float : ∀ text, P (.float text)) (string : ∀ s, P (.string s))
    (array : ∀ items, (∀ v ∈ items, P v) → P (.array items))
    (object : ∀ fields, (∀ f ∈ fields, P f.2) → P (.object fields)) (v : Value) : P v := by
  refine @Value.rec P (fun items => ∀ v ∈ items, P v)
    (fun fields => ∀ f ∈ fields, P f.2) (fun f => P f.2)
    null bool number float string array object ?_ ?_ ?_ ?_ ?_ v
  · intro v h
    cases h
  · intro v items hv hitems w hw
    rcases List.mem_cons.mp hw with rfl | hw
    · exact hv
    · exact hitems w hw
  · intro f h
    cases h
  · intro f fields hf hfields g hg
    rcases List.mem_cons.mp hg with rfl | hg
    · exact hf
    · exact hfields g hg
  · intro k v hv
    exact hv

/-- What `dump` writes so that it reads back: objects are maps, numbers fit. -/
inductive Plain : Value → Prop
  | null : Plain .null
  | bool (b : Bool) : Plain (.bool b)
  | number {n : Int} (low : -2 ^ 63 ≤ n) (high : n < 2 ^ 64) : Plain (.number n)
  | string (s : String) : Plain (.string s)
  | array {items : List Value} (h : ∀ v ∈ items, Plain v) : Plain (.array items)
  | object {fields : List (String × Value)} (hmap : KeyMap.IsMap fields)
      (h : ∀ f ∈ fields, Plain f.2) : Plain (.object fields)

/-- The length of a text, with every byte of a string counted six times. -/
def Value.bound : Value → Nat
  | .null => 4
  | .bool _ => 5
  | .number n => (toString n.natAbs).utf8ByteSize + 1
  | .float text => text.utf8ByteSize
  | .string s => 6 * s.utf8ByteSize + 2
  | .array items => itemsBound items + 2
  | .object fields => fieldsBound fields + 2
where
  itemsBound : List Value → Nat
    | [] => 0
    | v :: items => v.bound + 1 + itemsBound items
  fieldsBound : List (String × Value) → Nat
    | [] => 0
    | (key, v) :: fields => 6 * key.utf8ByteSize + 3 + v.bound + 1 + fieldsBound fields

/-- A JSON library. -/
structure Library where
  dump : Value → List UInt8
  parse : List UInt8 → Except String Value
  parse_dump : ∀ v, Plain v → parse (dump v) = .ok v
  length_dump_le : ∀ v, (dump v).length ≤ v.bound

/-! ## A library that writes compact text

The writer is a recursion on values. The reader has fuel, since what it reads is any text; it is
used up by nesting. -/

namespace Compact

def hexDigit (n : Nat) : Char := "0123456789abcdef".toList.getD n '0'

/-- The value of a digit, for the digits `hexDigit` gives. -/
def hexValue (c : Char) : Nat := "0123456789abcdef".toList.idxOf c

/-- A character inside a string. -/
def escape (c : Char) : List Char :=
  if c = '"' then ['\\', '"']
  else if c = '\\' then ['\\', '\\']
  else if c.toNat = 8 then ['\\', 'b']
  else if c.toNat = 9 then ['\\', 't']
  else if c.toNat = 10 then ['\\', 'n']
  else if c.toNat = 12 then ['\\', 'f']
  else if c.toNat = 13 then ['\\', 'r']
  else if c.toNat < 32 then ['\\', 'u', '0', '0', hexDigit (c.toNat / 16), hexDigit (c.toNat % 16)]
  else [c]

def writeString (s : String) : List Char := '"' :: s.toList.flatMap escape ++ ['"']

def writeNumber (n : Int) : List Char :=
  if n < 0 then '-' :: Nat.toDigits 10 n.natAbs else Nat.toDigits 10 n.natAbs

/-- The text of a value. -/
def write : Value → List Char
  | .null => ['n', 'u', 'l', 'l']
  | .bool true => ['t', 'r', 'u', 'e']
  | .bool false => ['f', 'a', 'l', 's', 'e']
  | .number n => writeNumber n
  | .float text => text.toList
  | .string s => writeString s
  | .array items => '[' :: writeItems items ++ [']']
  | .object fields => '{' :: writeFields fields ++ ['}']
where
  writeItems : List Value → List Char
    | [] => []
    | [v] => write v
    | v :: w :: items => write v ++ ',' :: writeItems (w :: items)
  writeFields : List (String × Value) → List Char
    | [] => []
    | [(key, v)] => writeString key ++ ':' :: write v
    | (key, v) :: f :: fields =>
      writeString key ++ ':' :: write v ++ ',' :: writeFields (f :: fields)

def unescape (c : Char) : Option Char :=
  if c = '"' then some '"'
  else if c = '\\' then some '\\'
  else if c = 'b' then some (Char.ofNat 8)
  else if c = 't' then some (Char.ofNat 9)
  else if c = 'n' then some (Char.ofNat 10)
  else if c = 'f' then some (Char.ofNat 12)
  else if c = 'r' then some (Char.ofNat 13)
  else none

/-- The rest of a string, after its opening quote, and what follows the closing one. -/
def readString : List Char → Option (List Char × List Char)
  | [] => none
  | '"' :: rest => some ([], rest)
  | '\\' :: 'u' :: '0' :: '0' :: a :: b :: rest =>
    (readString rest).map fun p => (Char.ofNat (16 * hexValue a + hexValue b) :: p.1, p.2)
  | '\\' :: e :: rest =>
    (unescape e).bind fun c => (readString rest).map fun p => (c :: p.1, p.2)
  | c :: rest => if c.toNat < 32 then none else (readString rest).map fun p => (c :: p.1, p.2)

/-- Items up to `close`, with commas between them; at least one. -/
def readItems {α : Type} (item : List Char → Option (α × List Char)) (close : Char) :
    Nat → List Char → Option (List α × List Char)
  | 0, _ => none
  | fuel + 1, text =>
    match item text with
    | some (a, c :: rest) =>
      if c = close then some ([a], rest)
      else if c = ',' then (readItems item close fuel rest).map fun p => (a :: p.1, p.2)
      else none
    | _ => none

/-- A key, a colon and a value. -/
def readField (value : List Char → Option (Value × List Char)) :
    List Char → Option ((String × Value) × List Char)
  | '"' :: text =>
    match readString text with
    | some (key, ':' :: rest) => (value rest).map fun p => ((String.ofList key, p.1), p.2)
    | _ => none
  | _ => none

/-- Digits, as many as there are. -/
def readNat (text : List Char) : Nat × List Char :=
  (Nat.ofDigitChars 10 (text.takeWhile Char.isDigit) 0, text.dropWhile Char.isDigit)

/-- A value, by rounds of its nesting. -/
def readValue : Nat → List Char → Option (Value × List Char)
  | 0, _ => none
  | fuel + 1, text =>
    match text with
    | 'n' :: 'u' :: 'l' :: 'l' :: rest => some (.null, rest)
    | 't' :: 'r' :: 'u' :: 'e' :: rest => some (.bool true, rest)
    | 'f' :: 'a' :: 'l' :: 's' :: 'e' :: rest => some (.bool false, rest)
    | '"' :: rest => (readString rest).map fun p => (.string (String.ofList p.1), p.2)
    | '[' :: ']' :: rest => some (.array [], rest)
    | '[' :: rest => (readItems (readValue fuel) ']' fuel rest).map fun p => (.array p.1, p.2)
    | '{' :: '}' :: rest => some (.object [], rest)
    | '{' :: rest =>
      (readItems (readField (readValue fuel)) '}' fuel rest).map fun p =>
        (.object (KeyMap.assignAll p.1 []), p.2)
    | '-' :: rest => some (.number (-(readNat rest).1), (readNat rest).2)
    | c :: _ => if c.isDigit then some (.number (readNat text).1, (readNat text).2) else none
    | [] => none

def dump (v : Value) : List UInt8 := (String.ofList (write v)).toByteArray.data.toList

def parse (text : List UInt8) : Except String Value :=
  match (ByteArray.mk text.toArray).utf8Decode? with
  | none => .error "invalid UTF-8 byte"
  | some chars =>
    match readValue chars.size chars.toList with
    | some (v, []) => .ok v
    | _ => .error "syntax error"

open String (utf8Len utf8Len_cons utf8Len_nil utf8Len_append)

/-! ### What is written reads back

With something behind it: a value is read from the front of a text, so the statement has to say
what may follow. For all but numbers that is anything. -/

theorem hexValue_hexDigit : ∀ n < 16, hexValue (hexDigit n) = n := by decide

theorem readString_plain {c : Char} (hquote : c ≠ '"') (hslash : c ≠ '\\') (hlow : ¬ c.toNat < 32)
    (rest : List Char) :
    readString (c :: rest) = (readString rest).map fun p => (c :: p.1, p.2) := by
  rw [readString.eq_def]
  split
  all_goals simp_all

/-- One character of a string is read as what it was written for. -/
theorem readString_escape (c : Char) (rest : List Char) :
    readString (escape c ++ rest) = (readString rest).map fun p => (c :: p.1, p.2) := by
  have hchar {n : Nat} (h : c.toNat = n) : Char.ofNat n = c := h ▸ Char.ofNat_toNat c
  unfold escape
  by_cases hquote : c = '"'
  · rw [if_pos hquote, hquote]
    rfl
  rw [if_neg hquote]
  by_cases hslash : c = '\\'
  · rw [if_pos hslash, hslash]
    rfl
  rw [if_neg hslash]
  split
  case isTrue h => rw [← hchar h]; rfl
  split
  case isTrue h => rw [← hchar h]; rfl
  split
  case isTrue h => rw [← hchar h]; rfl
  split
  case isTrue h => rw [← hchar h]; rfl
  split
  case isTrue h => rw [← hchar h]; rfl
  split
  case isTrue hlow =>
    have hsum : 16 * (c.toNat / 16) + c.toNat % 16 = c.toNat := Nat.div_add_mod _ _
    simp only [List.cons_append, List.nil_append, readString]
    rw [hexValue_hexDigit _ (by omega), hexValue_hexDigit _ (Nat.mod_lt _ (by decide)), hsum,
      Char.ofNat_toNat]
  case isFalse hlow => exact readString_plain hquote hslash hlow rest

theorem readString_flatMap (cs rest : List Char) :
    readString (cs.flatMap escape ++ '"' :: rest) = some (cs, rest) := by
  induction cs with
  | nil => simp [readString]
  | cons c cs ih => rw [List.flatMap_cons, List.append_assoc, readString_escape, ih]; rfl

/-- What follows a number is no digit. -/
def EndsNumber (rest : List Char) : Prop := ∀ c ∈ rest.head?, c.isDigit = false

theorem readNat_toDigits (n : Nat) {rest : List Char} (h : EndsNumber rest) :
    readNat (Nat.toDigits 10 n ++ rest) = (n, rest) := by
  have hdigits : ∀ c ∈ Nat.toDigits 10 n, c.isDigit := fun c hc =>
    Nat.isDigit_of_mem_toDigits (by decide) (by decide) hc
  have htake : rest.takeWhile Char.isDigit = [] := by
    cases rest with
    | nil => rfl
    | cons c rest => simp [h c rfl]
  have hdrop : rest.dropWhile Char.isDigit = rest := by
    cases rest with
    | nil => rfl
    | cons c rest => simp [h c rfl]
  rw [readNat, List.takeWhile_append_of_pos hdigits, List.dropWhile_append_of_pos hdigits, htake,
    hdrop, List.append_nil, Nat.ofDigitChars_ten_toDigits]

theorem readValue_digit {c : Char} (h : c.isDigit) (fuel : Nat) (text : List Char) :
    readValue (fuel + 1) (c :: text) =
      some (.number (readNat (c :: text)).1, (readNat (c :: text)).2) := by
  rw [readValue.eq_def]
  split
  · contradiction
  split
  all_goals simp_all

/-- Texts with commas between them. -/
def commas : List (List Char) → List Char
  | [] => []
  | [text] => text
  | text :: next :: texts => text ++ ',' :: commas (next :: texts)

def writeField (f : String × Value) : List Char := writeString f.1 ++ ':' :: write f.2

theorem writeItems_eq (items : List Value) : write.writeItems items = commas (items.map write) := by
  induction items with
  | nil => rfl
  | cons v items ih =>
    cases items with
    | nil => rfl
    | cons w items =>
      rw [write.writeItems, ih]
      rfl

theorem writeFields_eq (fields : List (String × Value)) :
    write.writeFields fields = commas (fields.map writeField) := by
  induction fields with
  | nil => rfl
  | cons f fields ih =>
    cases fields with
    | nil => rfl
    | cons g fields =>
      rw [write.writeFields, ih]
      simp [commas, writeField]

/-- Items are read as they were written, when each is, in front of a comma and of the end. -/
theorem readItems_commas {α : Type} {item : List Char → Option (α × List Char)} {close : Char}
    {text : α → List Char} {items : List α} (hclose : close ≠ ',')
    (hitem : ∀ a ∈ items, ∀ c rest, c = ',' ∨ c = close → item (text a ++ c :: rest) = some (a, c :: rest))
    (hne : items ≠ []) {fuel : Nat} (hfuel : items.length ≤ fuel) (rest : List Char) :
    readItems item close fuel (commas (items.map text) ++ close :: rest) = some (items, rest) := by
  induction items generalizing fuel with
  | nil => exact absurd rfl hne
  | cons a items ih =>
    obtain ⟨fuel, rfl⟩ : ∃ n, fuel = n + 1 := Nat.exists_eq_add_one_of_ne_zero (by rintro rfl; simp at hfuel)
    rw [readItems]
    cases items with
    | nil => simp [commas, hitem a List.mem_cons_self close rest (.inr rfl)]
    | cons b items =>
      have hrest := ih (fun a' ha' => hitem a' (List.mem_cons_of_mem _ ha')) (List.cons_ne_nil _ _)
        (Nat.le_of_succ_le_succ hfuel)
      have hhead := hitem a List.mem_cons_self ',' (commas ((b :: items).map text) ++ close :: rest) (.inl rfl)
      have hsplit : commas ((a :: b :: items).map text) ++ close :: rest =
          text a ++ ',' :: (commas ((b :: items).map text) ++ close :: rest) := by simp [commas]
      rw [hsplit, hhead]
      simp only [if_neg hclose.symm, if_true, hrest, Option.map_some]

theorem length_le_length_commas {texts : List (List Char)} (h : ∀ t ∈ texts, t ≠ []) :
    texts.length ≤ (commas texts).length := by
  induction texts with
  | nil => simp
  | cons t texts ih =>
    have ht := List.length_pos_iff.mpr (h t List.mem_cons_self)
    cases texts with
    | nil => exact ht
    | cons u texts =>
      have := ih fun t' ht' => h t' (List.mem_cons_of_mem _ ht')
      simp only [commas, List.length_append, List.length_cons] at this ⊢
      omega

theorem length_mem_le_length_commas {texts : List (List Char)} {t : List Char} (h : t ∈ texts) :
    t.length ≤ (commas texts).length := by
  induction texts with
  | nil => cases h
  | cons u texts ih =>
    cases texts with
    | nil => simpa [commas] using congrArg List.length (List.mem_singleton.mp h) |>.le
    | cons w texts =>
      simp only [commas, List.length_append, List.length_cons]
      rcases List.mem_cons.mp h with rfl | h
      · omega
      · have := ih h
        omega

/-- The text of a value starts with no bracket that closes a list. -/
theorem write_head {v : Value} (h : Plain v) : ∃ c rest, write v = c :: rest ∧ c ≠ ']' := by
  cases h with
  | null => exact ⟨_, _, rfl, by decide⟩
  | bool b => cases b <;> exact ⟨_, _, rfl, by decide⟩
  | @number n =>
    simp only [write, writeNumber]
    split
    · exact ⟨_, _, rfl, by decide⟩
    · obtain ⟨c, rest, heq⟩ := List.exists_cons_of_ne_nil (Nat.toDigits_ne_nil (n := n.natAbs) (b := 10))
      refine ⟨c, rest, heq, ?_⟩
      rintro rfl
      have := Nat.isDigit_of_mem_toDigits (c := ']') (n := n.natAbs) (b := 10) (by decide) (by decide)
        (by rw [heq]; exact List.mem_cons_self)
      exact absurd this (by decide)
  | string s => exact ⟨_, _, rfl, by decide⟩
  | array => exact ⟨_, _, rfl, by decide⟩
  | object => exact ⟨_, _, rfl, by decide⟩

theorem write_ne_nil {v : Value} (h : Plain v) : write v ≠ [] := by
  obtain ⟨c, rest, heq, -⟩ := write_head h
  rw [heq]
  exact List.cons_ne_nil _ _

theorem endsNumber_cons {c : Char} (h : c.isDigit = false) (rest : List Char) :
    EndsNumber (c :: rest) := by
  rintro _ ⟨⟩
  exact h

theorem readValue_array {c : Char} (h : c ≠ ']') (fuel : Nat) (text : List Char) :
    readValue (fuel + 1) ('[' :: c :: text) =
      (readItems (readValue fuel) ']' fuel (c :: text)).map fun p => (.array p.1, p.2) := by
  rw [readValue.eq_def]
  simp [h]

theorem readValue_object (fuel : Nat) (text : List Char) :
    readValue (fuel + 1) ('{' :: '"' :: text) =
      (readItems (readField (readValue fuel)) '}' fuel ('"' :: text)).map fun p =>
        (.object (KeyMap.assignAll p.1 []), p.2) := rfl

theorem readField_writeField {value : List Char → Option (Value × List Char)} {f : String × Value}
    {rest : List Char} (h : value (write f.2 ++ rest) = some (f.2, rest)) :
    readField value (writeField f ++ rest) = some (f, rest) := by
  simp only [writeField, writeString, List.cons_append, List.append_assoc, List.nil_append, readField,
    readString_flatMap, h, Option.map_some, String.ofList_toList]

theorem writeField_ne_nil (f : String × Value) : writeField f ≠ [] := List.cons_ne_nil _ _

/-- What is read in rounds of the text's length, in front of a comma or of the end, is read in a
    list of such. -/
theorem readItems_write {α : Type} {item : List Char → Option (α × List Char)} {close : Char}
    {text : α → List Char} {items : List α} (hclose : close ≠ ',') (hdigit : close.isDigit = false)
    (hitem : ∀ a ∈ items, ∀ rest, EndsNumber rest → item (text a ++ rest) = some (a, rest))
    (htext : ∀ a ∈ items, text a ≠ []) (hne : items ≠ []) {fuel : Nat}
    (hfuel : (commas (items.map text)).length ≤ fuel) (rest : List Char) :
    readItems item close fuel (commas (items.map text) ++ close :: rest) = some (items, rest) := by
  refine readItems_commas hclose (fun a ha c rest' hc => hitem a ha _ ?_) hne ?_ rest
  · rcases hc with rfl | rfl
    · exact endsNumber_cons (by decide) _
    · exact endsNumber_cons hdigit _
  · have hlength : (items.map text).length ≤ _ := length_le_length_commas (by
      intro t ht
      obtain ⟨a, ha, rfl⟩ := List.mem_map.mp ht
      exact htext a ha)
    rw [List.length_map] at hlength
    exact hlength.trans hfuel

/-- **A value is read as it was written**, with rounds enough for its text. -/
theorem readValue_write {v : Value} (h : Plain v) : ∀ {fuel : Nat}, (write v).length ≤ fuel →
    ∀ {rest : List Char}, EndsNumber rest → readValue fuel (write v ++ rest) = some (v, rest) := by
  -- a value inside another is read with less fuel
  have hsome {v : Value} (h : Plain v) {fuel : Nat} (hfuel : (write v).length ≤ fuel) :
      ∃ n, fuel = n + 1 :=
    Nat.exists_eq_add_one_of_ne_zero fun hzero =>
      write_ne_nil h (List.length_eq_zero_iff.mp (Nat.le_zero.mp (hzero ▸ hfuel)))
  induction v using Value.induct with
  | null =>
    intro fuel hfuel rest hrest
    obtain ⟨fuel, rfl⟩ := hsome h hfuel
    rfl
  | bool b =>
    intro fuel hfuel rest hrest
    obtain ⟨fuel, rfl⟩ := hsome h hfuel
    cases b <;> rfl
  -- the sign is read before the digits
  | number n =>
    intro fuel hfuel rest hrest
    obtain ⟨fuel, rfl⟩ := hsome h hfuel
    have hread := readNat_toDigits n.natAbs hrest
    rw [write, writeNumber]
    by_cases hneg : n < 0
    · rw [if_pos hneg, List.cons_append]
      simp only [readValue, hread]
      rw [← Int.eq_neg_natAbs_of_nonpos hneg.le]
    · rw [if_neg hneg]
      obtain ⟨c, ds, heq⟩ := List.exists_cons_of_ne_nil (Nat.toDigits_ne_nil (n := n.natAbs) (b := 10))
      have hc := Nat.isDigit_of_mem_toDigits (c := c) (n := n.natAbs) (b := 10) (by decide) (by decide)
        (by rw [heq]; exact List.mem_cons_self)
      rw [heq, List.cons_append, readValue_digit hc, ← List.cons_append, ← heq, hread]
      simp only [Int.natAbs_of_nonneg (not_lt.mp hneg)]
  | float text => cases h
  | string s =>
    intro fuel hfuel rest hrest
    obtain ⟨fuel, rfl⟩ := hsome h hfuel
    simp only [write, writeString, List.cons_append, List.append_assoc, List.nil_append, readValue,
      readString_flatMap, Option.map_some, String.ofList_toList]
  -- the first item stands behind the bracket, and every other one behind a comma
  | array items ih =>
    intro fuel hfuel rest hrest
    obtain ⟨fuel, rfl⟩ := hsome h hfuel
    obtain ⟨⟩ | ⟨⟩ | ⟨⟩ | ⟨⟩ | hplain := h
    rw [write, writeItems_eq] at hfuel ⊢
    simp only [List.length_cons, List.length_append, List.length_nil] at hfuel
    cases items with
    | nil => rfl
    | cons v items =>
      obtain ⟨c, text, hhead, hc⟩ := write_head (hplain v List.mem_cons_self)
      obtain ⟨text', htext⟩ : ∃ text', commas ((v :: items).map write) = c :: text' := by
        cases items with
        | nil => exact ⟨text, hhead⟩
        | cons w items => exact ⟨_, by rw [List.map_cons, List.map_cons, commas, hhead, List.cons_append]⟩
      have hitems : readItems (readValue fuel) ']' fuel (commas ((v :: items).map write) ++ ']' :: rest) =
          some (v :: items, rest) :=
        readItems_write (by decide) (by decide)
          (fun w hw rest' hrest' => ih w hw (hplain w hw)
            ((length_mem_le_length_commas (List.mem_map_of_mem hw)).trans (by omega)) hrest')
          (fun w hw => write_ne_nil (hplain w hw)) (List.cons_ne_nil _ _) (by omega) rest
      rw [htext] at hitems ⊢
      simp only [List.cons_append, List.append_assoc, List.nil_append] at hitems ⊢
      rw [readValue_array hc, hitems, Option.map_some]
  -- the same for fields, each with its key in front
  | object fields ih =>
    intro fuel hfuel rest hrest
    obtain ⟨fuel, rfl⟩ := hsome h hfuel
    obtain ⟨⟩ | ⟨⟩ | ⟨⟩ | ⟨⟩ | ⟨⟩ | ⟨hmap, hplain⟩ := h
    rw [write, writeFields_eq] at hfuel ⊢
    simp only [List.length_cons, List.length_append, List.length_nil] at hfuel
    cases fields with
    | nil => rfl
    | cons f fields =>
      obtain ⟨text', htext⟩ : ∃ text', commas ((f :: fields).map writeField) = '"' :: text' := by
        cases fields with
        | nil => exact ⟨_, rfl⟩
        | cons g fields => exact ⟨_, rfl⟩
      have hvalue : ∀ g ∈ f :: fields, (write g.2).length ≤ fuel := by
        intro g hg
        have hle := length_mem_le_length_commas (List.mem_map_of_mem (f := writeField) hg)
        have : (write g.2).length ≤ (writeField g).length := by
          simp only [writeField, List.length_append, List.length_cons]
          omega
        omega
      have hlength : (commas ((f :: fields).map writeField)).length ≤ fuel := by omega
      have hfields : readItems (readField (readValue fuel)) '}' fuel
          (commas ((f :: fields).map writeField) ++ '}' :: rest) = some (f :: fields, rest) :=
        readItems_write (by decide) (by decide)
          (fun g hg rest' hrest' => readField_writeField (ih g hg (hplain g hg) (hvalue g hg) hrest'))
          (fun g _ => writeField_ne_nil g) (List.cons_ne_nil _ _) hlength rest
      rw [htext] at hfields ⊢
      simp only [List.cons_append, List.append_assoc, List.nil_append] at hfields ⊢
      rw [readValue_object, hfields, Option.map_some, KeyMap.assignAll_nil hmap]

theorem parse_dump (v : Value) (h : Plain v) : parse (dump v) = .ok v := by
  have hdecode : (ByteArray.mk (dump v).toArray).utf8Decode? = some (write v).toArray := by
    rw [dump, Array.toArray_toList, String.toByteArray_ofList]
    exact List.utf8Decode?_utf8Encode
  have hread : readValue (write v).length (write v ++ []) = some (v, []) :=
    readValue_write h (Nat.le_refl _) (by rintro c ⟨⟩)
  rw [List.append_nil] at hread
  simp only [parse, hdecode, List.size_toArray, hread]

/-! ### How long it is

The bound is by strings, since they are what a peer can make long. Punctuation and escapes are
counted once, here. -/

theorem utf8Len_escape_le (c : Char) : utf8Len (escape c) ≤ 6 * c.utf8Size := by
  have hpos := c.utf8Size_pos
  have hslash : Char.utf8Size '\\' = 1 := rfl
  have hpair {d : Char} (h : d.utf8Size = 1) : utf8Len ['\\', d] ≤ 6 * c.utf8Size := by
    simp only [utf8Len_cons, utf8Len_nil, hslash, h]
    omega
  have hhex : ∀ n < 16, (hexDigit n).utf8Size = 1 := by decide
  unfold escape
  split
  · exact hpair rfl
  split
  · exact hpair rfl
  split
  · exact hpair rfl
  split
  · exact hpair rfl
  split
  · exact hpair rfl
  split
  · exact hpair rfl
  split
  · exact hpair rfl
  split
  case isTrue hlow =>
    have hhigh := hhex (c.toNat / 16) (by omega)
    have hrest := hhex (c.toNat % 16) (Nat.mod_lt _ (by decide))
    have hu : Char.utf8Size 'u' = 1 := rfl
    have hzero : Char.utf8Size '0' = 1 := rfl
    simp only [utf8Len_cons, utf8Len_nil, hslash, hhigh, hrest, hu, hzero]
    omega
  case isFalse =>
    simp only [utf8Len_cons, utf8Len_nil]
    omega

theorem utf8Len_flatMap_escape_le (cs : List Char) : utf8Len (cs.flatMap escape) ≤ 6 * utf8Len cs := by
  induction cs with
  | nil => simp
  | cons c cs ih =>
    have hc := utf8Len_escape_le c
    rw [List.flatMap_cons, utf8Len_append, utf8Len_cons]
    omega

theorem utf8Len_toList (s : String) : utf8Len s.toList = s.utf8ByteSize := by
  rw [← String.utf8ByteSize_ofList, String.ofList_toList]

theorem utf8Len_writeString_le (s : String) : utf8Len (writeString s) ≤ 6 * s.utf8ByteSize + 2 := by
  have h := utf8Len_flatMap_escape_le s.toList
  rw [utf8Len_toList] at h
  have hquote : Char.utf8Size '"' = 1 := rfl
  simp only [writeString, utf8Len_append, utf8Len_cons, utf8Len_nil, List.cons_append, hquote]
  omega

theorem utf8Len_writeNumber_le (n : Int) :
    utf8Len (writeNumber n) ≤ (toString n.natAbs).utf8ByteSize + 1 := by
  have hdigits : utf8Len (Nat.toDigits 10 n.natAbs) = (toString n.natAbs).utf8ByteSize := by
    rw [← utf8Len_toList]
    exact congrArg utf8Len (Nat.toList_repr (n := n.natAbs)).symm
  unfold writeNumber
  split
  · rw [utf8Len_cons, hdigits]
    exact Nat.le_refl _
  · rw [hdigits]
    exact Nat.le_succ _

theorem utf8Len_commas_le {α : Type} (text : α → List Char) (bound : α → Nat) {items : List α}
    (h : ∀ a ∈ items, utf8Len (text a) ≤ bound a) :
    utf8Len (commas (items.map text)) ≤ (items.map fun a => bound a + 1).sum := by
  induction items with
  | nil => simp [commas]
  | cons a items ih =>
    have ha := h a List.mem_cons_self
    have hrest := ih fun b hb => h b (List.mem_cons_of_mem _ hb)
    cases items with
    | nil =>
      simp only [List.map_cons, List.map_nil, commas, List.sum_cons, List.sum_nil]
      omega
    | cons b items =>
      have hcomma : Char.utf8Size ',' = 1 := rfl
      simp only [List.map_cons, commas, List.sum_cons, utf8Len_append, utf8Len_cons, hcomma] at hrest ⊢
      omega

theorem itemsBound_eq (items : List Value) :
    Value.bound.itemsBound items = (items.map fun v => v.bound + 1).sum := by
  induction items with
  | nil => rfl
  | cons v items ih => rw [Value.bound.itemsBound, ih, List.map_cons, List.sum_cons]

theorem fieldsBound_eq (fields : List (String × Value)) :
    Value.bound.fieldsBound fields =
      (fields.map fun f => 6 * f.1.utf8ByteSize + 3 + f.2.bound + 1).sum := by
  induction fields with
  | nil => rfl
  | cons f fields ih => rw [Value.bound.fieldsBound, ih, List.map_cons, List.sum_cons]

theorem utf8Len_write_le (v : Value) : utf8Len (write v) ≤ v.bound := by
  induction v using Value.induct with
  | null => decide
  | bool b => cases b <;> decide
  | number n => exact utf8Len_writeNumber_le n
  | float text => exact (utf8Len_toList text).le
  | string s => exact utf8Len_writeString_le s
  | array items ih =>
    have h := utf8Len_commas_le write Value.bound ih
    have hopen : Char.utf8Size '[' = 1 := rfl
    have hclose : Char.utf8Size ']' = 1 := rfl
    simp only [write, writeItems_eq, Value.bound, itemsBound_eq, List.cons_append, utf8Len_cons,
      utf8Len_append, utf8Len_nil, hopen, hclose]
    omega
  | object fields ih =>
    have hfield : ∀ f ∈ fields, utf8Len (writeField f) ≤ 6 * f.1.utf8ByteSize + 3 + f.2.bound := by
      intro f hf
      have hkey := utf8Len_writeString_le f.1
      have hvalue := ih f hf
      have hcolon : Char.utf8Size ':' = 1 := rfl
      simp only [writeField, utf8Len_append, utf8Len_cons, hcolon]
      omega
    have h := utf8Len_commas_le writeField _ hfield
    have hopen : Char.utf8Size '{' = 1 := rfl
    have hclose : Char.utf8Size '}' = 1 := rfl
    simp only [write, writeFields_eq, Value.bound, fieldsBound_eq, List.cons_append, utf8Len_cons,
      utf8Len_append, utf8Len_nil, hopen, hclose]
    omega

theorem length_dump_le (v : Value) : (dump v).length ≤ v.bound := by
  have hsize : (dump v).length = utf8Len (write v) := by
    rw [dump, Array.length_toList, ← String.utf8ByteSize_ofList]
    rfl
  exact hsize.le.trans (utf8Len_write_le v)

end Compact

/-- The library that writes compact text. -/
def compact : Library where
  dump := Compact.dump
  parse := Compact.parse
  parse_dump := Compact.parse_dump
  length_dump_le := Compact.length_dump_le

end Json
