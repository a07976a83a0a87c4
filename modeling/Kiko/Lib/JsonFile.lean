import Kiko.Lib.Json

/-!
# JSON kept in files

A program that keeps its data in a JSON file reads the file, changes a part of the value and
writes the whole of it back, with a line end behind it. The part it did not change has to come
through: `FileLibrary` says that what the library reads is `Kept` (objects are maps, numbers
fit, a float is spelled as the library spells it) and that what is kept reads back.

`compactFile` is one. It reads no floats.
-/

set_option autoImplicit false

namespace Json

/-- As `Plain`, with the floats whose text the library writes as it reads it. -/
inductive Kept (canon : String → Prop) : Value → Prop
  | null : Kept canon .null
  | bool (b : Bool) : Kept canon (.bool b)
  | number {n : Int} (low : -2 ^ 63 ≤ n) (high : n < 2 ^ 64) : Kept canon (.number n)
  | float {text : String} (h : canon text) : Kept canon (.float text)
  | string (s : String) : Kept canon (.string s)
  | array {items : List Value} (h : ∀ v ∈ items, Kept canon v) : Kept canon (.array items)
  | object {fields : List (String × Value)} (hmap : KeyMap.IsMap fields)
      (h : ∀ f ∈ fields, Kept canon f.2) : Kept canon (.object fields)

/-- A JSON library, as a program with a file uses it. -/
structure FileLibrary where
  dump : Value → List UInt8
  /-- a text that is one value -/
  parse : List UInt8 → Except String Value
  /-- the value that a text starts with -/
  scan : List UInt8 → Except String Value
  /-- a float as an integer -/
  truncate : String → Int
  /-- the spellings of floats -/
  canon : String → Prop
  parse_kept : ∀ {text v}, parse text = .ok v → Kept canon v
  parse_line : ∀ {v}, Kept canon v → parse (dump v ++ [10]) = .ok v
  scan_parse : ∀ {text v}, parse text = .ok v → scan text = .ok v

variable {canon : String → Prop} {fields : List (String × Value)} {key : String} {v : Value}

theorem Kept.isMap (h : Kept canon (.object fields)) : KeyMap.IsMap fields := by
  cases h with
  | object hmap => exact hmap

theorem Kept.of_mem (h : Kept canon (.object fields)) (hmem : (key, v) ∈ fields) : Kept canon v := by
  cases h with
  | object _ hfields => exact hfields _ hmem

theorem Kept.of_lookup (h : Kept canon (.object fields)) (hlook : fields.lookup key = some v) :
    Kept canon v :=
  h.of_mem (h.isMap.lookup_eq_some.mp hlook)

/-- `object[key] = v` keeps what was kept. -/
theorem Kept.assign (h : Kept canon (.object fields)) (hv : Kept canon v) :
    Kept canon (.object (KeyMap.assign key v fields)) := by
  apply Kept.object (h.isMap.assign key v)
  intro f hf
  rcases KeyMap.mem_assign hf with rfl | hf
  · exact hv
  · exact h.of_mem hf

/-- `object.erase(key)` too. -/
theorem Kept.filter (h : Kept canon (.object fields)) (p : String × Value → Bool) :
    Kept canon (.object (fields.filter p)) := by
  apply Kept.object (h.isMap.filter p)
  intro f hf
  exact h.of_mem (List.mem_filter.mp hf).1

theorem kept_empty : Kept canon (.object []) :=
  .object KeyMap.isMap_nil fun _ h => absurd h List.not_mem_nil

/-! ## A library over the compact text -/

/-- Whether a value is `Plain`. -/
def Value.isPlain : Value → Bool
  | .null => true
  | .bool _ => true
  | .number n => decide (-2 ^ 63 ≤ n ∧ n < 2 ^ 64)
  | .float _ => false
  | .string _ => true
  | .array items => itemsPlain items
  | .object fields => decide (KeyMap.IsMap fields) && fieldsPlain fields
where
  itemsPlain : List Value → Bool
    | [] => true
    | v :: items => v.isPlain && itemsPlain items
  fieldsPlain : List (String × Value) → Bool
    | [] => true
    | (_, v) :: fields => v.isPlain && fieldsPlain fields

theorem itemsPlain_iff (items : List Value) :
    Value.isPlain.itemsPlain items = true ↔ ∀ v ∈ items, v.isPlain = true := by
  induction items with
  | nil => simp [Value.isPlain.itemsPlain]
  | cons v items ih => simp [Value.isPlain.itemsPlain, ih]

theorem fieldsPlain_iff (fields : List (String × Value)) :
    Value.isPlain.fieldsPlain fields = true ↔ ∀ f ∈ fields, f.2.isPlain = true := by
  induction fields with
  | nil => simp [Value.isPlain.fieldsPlain]
  | cons f fields ih => simp [Value.isPlain.fieldsPlain, ih]

theorem plain_of_isPlain (v : Value) : v.isPlain = true → Plain v := by
  induction v using Value.induct with
  | null => exact fun _ => .null
  | bool b => exact fun _ => .bool b
  | number n =>
    intro h
    have hfits : -2 ^ 63 ≤ n ∧ n < 2 ^ 64 := of_decide_eq_true h
    exact .number hfits.1 hfits.2
  | float text => exact fun h => Bool.noConfusion h
  | string s => exact fun _ => .string s
  | array items ih =>
    intro h
    exact .array fun v hv => ih v hv ((itemsPlain_iff items).mp h v hv)
  | object fields ih =>
    intro h
    obtain ⟨hmap, hfields⟩ := Bool.and_eq_true_iff.mp h
    exact .object (of_decide_eq_true hmap) fun f hf => ih f hf ((fieldsPlain_iff fields).mp hfields f hf)

theorem isPlain_of_plain {v : Value} (h : Plain v) : v.isPlain = true := by
  induction h with
  | null => rfl
  | bool b => rfl
  | number low high => exact decide_eq_true ⟨low, high⟩
  | string s => rfl
  | @array items _ ih => exact (itemsPlain_iff items).mpr ih
  | @object fields hmap _ ih =>
    exact Bool.and_eq_true_iff.mpr ⟨decide_eq_true hmap, (fieldsPlain_iff fields).mpr ih⟩

theorem Kept.of_plain {v : Value} (h : Plain v) : Kept canon v := by
  induction h with
  | null => exact .null
  | bool b => exact .bool b
  | number low high => exact .number low high
  | string s => exact .string s
  | array _ ih => exact .array ih
  | object hmap _ ih => exact .object hmap ih

/-- Without floats the two are one. -/
theorem Kept.plain {v : Value} (h : Kept (fun _ => False) v) : Plain v := by
  induction h with
  | null => exact .null
  | bool b => exact .bool b
  | number low high => exact .number low high
  | float h => exact h.elim
  | string s => exact .string s
  | array _ ih => exact .array ih
  | object hmap _ ih => exact .object hmap ih

namespace Compact

/-- The text without the line end behind it. -/
def chomp (text : List UInt8) : List UInt8 :=
  if text.getLast? = some 10 then text.dropLast else text

def parseFile (text : List UInt8) : Except String Value :=
  match parse (chomp text) with
  | .error e => .error e
  | .ok v => if v.isPlain then .ok v else .error "number out of range"

/-- A text that is no value may still start with one. -/
def scanFile (text : List UInt8) : Except String Value :=
  match parseFile text, (ByteArray.mk text.toArray).utf8Decode? with
  | .ok v, _ => .ok v
  | _, none => .error "invalid UTF-8 byte"
  | _, some chars =>
    match readValue chars.size chars.toList with
    | some (v, _) => .ok v
    | none => .error "syntax error"

theorem scanFile_of_parseFile {text : List UInt8} {v : Value} (h : parseFile text = .ok v) :
    scanFile text = .ok v := by
  rw [scanFile, h]

theorem chomp_line (text : List UInt8) : chomp (text ++ [10]) = text := by
  rw [chomp, List.getLast?_concat, if_pos rfl, List.dropLast_concat]

theorem parseFile_plain {text : List UInt8} {v : Value} (h : parseFile text = .ok v) : Plain v := by
  unfold parseFile at h
  cases hparse : parse (chomp text) with
  | error e => simp [hparse] at h
  | ok w =>
    rw [hparse] at h
    by_cases hplain : w.isPlain = true
    · simp only [hplain, if_true] at h
      exact Except.ok.inj h ▸ plain_of_isPlain w hplain
    · simp [hplain] at h

theorem parseFile_line {v : Value} (h : Plain v) : parseFile (dump v ++ [10]) = .ok v := by
  simp [parseFile, chomp_line, parse_dump v h, isPlain_of_plain h]

end Compact

/-- The library that writes compact text, with files. -/
def compactFile : FileLibrary where
  dump := Compact.dump
  parse := Compact.parseFile
  scan := Compact.scanFile
  truncate := fun _ => 0
  canon := fun _ => False
  parse_kept := fun h => .of_plain (Compact.parseFile_plain h)
  parse_line := fun h => Compact.parseFile_line h.plain
  scan_parse := Compact.scanFile_of_parseFile

end Json
