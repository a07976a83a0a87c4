import Kiko.Core.Protocol
import Kiko.Lib.Json

/-!
# The text of a control message (`core/protocol`)

A control message travels as a JSON object: its fields beside a key `type`. The JSON library is
not part of the repository; what is used of it is `Json.Library`.

`fields` is a `std::map`, so the list that models it is in the order of the keys
(`Message.IsMap`). A field of the name `type` would take the place of the message's own type in
the text; no message that was read has one (`decodeMessage_ok`).
-/

set_option autoImplicit false

namespace Kiko

open Json (Value)

/-- `fields` is a map. -/
def Message.IsMap (m : Message) : Prop := KeyMap.IsMap m.fields

instance (m : Message) : Decidable m.IsMap := inferInstanceAs (Decidable (KeyMap.IsMap m.fields))

/-- The object `encode_message` builds, with its strings. -/
def messageFields (message : Message) : List (String × String) :=
  KeyMap.assignAll message.fields (KeyMap.assign "type" message.type [])

/-- `encode_message`. -/
def encodeMessage (lib : Json.Library) (message : Message) : Bytes :=
  lib.dump (.object ((messageFields message).map fun field => (field.1, .string field.2)))

/-- One round of `decode_message`. -/
def decodeMessageField (fields : List (String × String)) (field : String × Value) :
    Except KikoError (List (String × String)) :=
  if field.1 = "type" then .ok fields
  else match field.2 with
    | .string value => .ok (KeyMap.assign field.1 value fields)
    | _ => .error ("control message field must be a string: " ++ field.1)

/-- `decode_message`. -/
def decodeMessage (lib : Json.Library) (text : Bytes) : Except KikoError Message :=
  match lib.parse text with
  | .error what => .error ("invalid control message json: " ++ what)
  | .ok (.object object) =>
    match object.lookup "type" with
    | some (.string type) => do
      let fields ← object.foldlM decodeMessageField []
      return { type := type, fields := fields }
    | _ => .error "control message missing type"
  | .ok _ => .error "control message must be a json object"

variable {lib : Json.Library} {m : Message} {text : Bytes}

theorem isMap_messageFields (m : Message) : KeyMap.IsMap (messageFields m) :=
  (KeyMap.isMap_nil.assign _ _).assignAll _

theorem plain_messageFields (m : Message) :
    Json.Plain (.object ((messageFields m).map fun field => (field.1, .string field.2))) := by
  refine .object ((isMap_messageFields m).map _) fun f hf => ?_
  obtain ⟨field, -, rfl⟩ := List.mem_map.mp hf
  exact .string _

theorem foldlM_decodeMessageField (entries fields : List (String × String)) :
    (entries.map fun field => (field.1, Value.string field.2)).foldlM decodeMessageField fields =
      .ok (KeyMap.assignAll (entries.filter fun field => field.1 ≠ "type") fields) := by
  induction entries generalizing fields with
  | nil => rfl
  | cons field entries ih =>
    rw [List.map_cons, List.foldlM_cons]
    by_cases htype : field.1 = "type"
    · rw [List.filter_cons_of_neg (by simpa using htype)]
      simp only [decodeMessageField, htype, if_true]
      exact ih fields
    · rw [List.filter_cons_of_pos (by simpa using htype)]
      simp only [decodeMessageField, htype, if_false]
      exact ih _

/-- **A message survives its text**, when its fields do not name its type. -/
theorem decodeMessage_encodeMessage (lib : Json.Library) (hmap : m.IsMap)
    (htype : "type" ∉ m.fields.map (·.1)) : decodeMessage lib (encodeMessage lib m) = .ok m := by
  have hparse := lib.parse_dump _ (plain_messageFields m)
  have hnone : m.fields.lookup "type" = none := by
    rw [List.lookup_eq_none_iff]
    intro field hfield
    have : "type" ≠ field.1 := fun heq => htype (heq ▸ List.mem_map_of_mem hfield)
    simpa using this
  have hlookup : ((messageFields m).map fun field => (field.1, Value.string field.2)).lookup "type" =
      some (.string m.type) := by
    rw [KeyMap.lookup_map, messageFields, KeyMap.lookup_assignAll hmap, hnone]
    simp
  have hrest : KeyMap.assignAll ((messageFields m).filter fun field => field.1 ≠ "type") [] = m.fields := by
    rw [KeyMap.assignAll_nil ((isMap_messageFields m).filter _)]
    refine ((isMap_messageFields m).filter _).ext hmap fun key => ?_
    have hfilter := KeyMap.lookup_filter (fun k => decide (k ≠ "type")) key (messageFields m)
    rw [hfilter, messageFields, KeyMap.lookup_assignAll hmap, KeyMap.lookup_assign]
    by_cases hkey : key = "type"
    · simp [hkey, hnone]
    · simp [hkey]
  unfold decodeMessage encodeMessage
  simp only [hparse, hlookup, foldlM_decodeMessageField, hrest]
  rfl

/-- What was read has its fields in order, and none of them is `type`. -/
theorem decodeMessage_ok (h : decodeMessage lib text = .ok m) :
    m.IsMap ∧ "type" ∉ m.fields.map (·.1) := by
  have hstep : ∀ (object : List (String × Value)) (fields fields' : List (String × String)),
      object.foldlM decodeMessageField fields = .ok fields' →
      KeyMap.IsMap fields ∧ "type" ∉ fields.map (·.1) →
      KeyMap.IsMap fields' ∧ "type" ∉ fields'.map (·.1) := by
    intro object
    induction object with
    | nil =>
      intro fields fields' hfold hfields
      cases hfold
      exact hfields
    | cons field object ih =>
      intro fields fields' hfold hfields
      rw [List.foldlM_cons] at hfold
      obtain ⟨next, hnext, hfold⟩ := exists_of_bind_ok hfold
      refine ih next fields' hfold ?_
      unfold decodeMessageField at hnext
      split at hnext
      · cases hnext
        exact hfields
      rename_i htype
      split at hnext
      · cases hnext
        refine ⟨hfields.1.assign _ _, fun hmem => ?_⟩
        obtain ⟨x, hx, hkey⟩ := List.mem_map.mp hmem
        rcases KeyMap.mem_assign hx with rfl | hx
        · exact htype hkey
        · exact hfields.2 (hkey ▸ List.mem_map_of_mem hx)
      · cases hnext
  unfold decodeMessage at h
  split at h
  · cases h
  · split at h
    · obtain ⟨fields, hfold, h⟩ := exists_of_bind_ok h
      cases h
      exact hstep _ _ _ hfold ⟨KeyMap.isMap_nil, by simp⟩
    · cases h
  · cases h

/-! ## Reading fields -/

@[simp] theorem ok_bind {ε α β : Type} (a : α) (f : α → Except ε β) :
    ((.ok a : Except ε α) >>= f) = f a := rfl

/-- What `parse_u64_strict` reads has 64 bits. -/
theorem parseU64Strict_le {value : String} {n : Nat} (h : parseU64Strict value = some n) :
    n ≤ u64Max := by
  have hdigit {out out' : Nat} {c : Char} (h : parseDigit out c = some out') : out' ≤ u64Max := by
    unfold parseDigit at h
    split at h
    swap
    · cases h
    rename_i hc
    dsimp only at h
    split at h
    · cases h
    · rename_i hguard
      have hlow : c.toNat - '0'.toNat ≤ 9 := by
        simp only [Char.isDigit, Bool.and_eq_true, decide_eq_true_eq] at hc
        have : c.toNat ≤ 57 := UInt32.le_iff_toNat_le.mp hc.2
        have : '0'.toNat = 48 := rfl
        omega
      obtain rfl := Option.some.inj h
      have : u64Max = 18446744073709551615 := rfl
      omega
  have hfold : ∀ (cs : List Char) (out : Nat), out ≤ u64Max → cs.foldlM parseDigit out = some n →
      n ≤ u64Max := by
    intro cs
    induction cs with
    | nil =>
      intro out hout hcs
      exact Option.some.inj hcs ▸ hout
    | cons c cs ih =>
      intro out _ hcs
      rw [List.foldlM_cons] at hcs
      obtain ⟨next, hnext, hcs⟩ := Option.bind_eq_some_iff.mp hcs
      exact ih next (hdigit hnext) hcs
  unfold parseU64Strict at h
  split at h
  · cases h
  · exact hfold _ 0 (Nat.zero_le _) h

theorem Message.getU64_le {key : String} {fallback n : Nat} (h : m.getU64 key fallback = .ok n)
    (hfallback : fallback ≤ u64Max) : n ≤ u64Max := by
  unfold Message.getU64 at h
  dsimp only at h
  split at h
  · exact Except.ok.inj h ▸ hfallback
  · split at h
    · rename_i hparse
      exact Except.ok.inj h ▸ parseU64Strict_le hparse
    · cases h

/-! ## How long it is -/

/-- The share of a field in the length of the text. -/
def fieldBound (field : String × String) : Nat :=
  6 * field.1.utf8ByteSize + 6 * field.2.utf8ByteSize + 6

theorem sum_fieldBound_assign_le (key value : String) (fields : List (String × String)) :
    ((KeyMap.assign key value fields).map fieldBound).sum ≤
      fieldBound (key, value) + (fields.map fieldBound).sum := by
  induction fields with
  | nil => simp [KeyMap.assign]
  | cons x rest ih =>
    unfold KeyMap.assign
    split
    · simp only [List.map_cons, List.sum_cons]
      omega
    split
    · simp only [List.map_cons, List.sum_cons]
      omega
    · simp only [List.map_cons, List.sum_cons]
      omega

theorem sum_fieldBound_assignAll_le (entries fields : List (String × String)) :
    ((KeyMap.assignAll entries fields).map fieldBound).sum ≤
      (entries.map fieldBound).sum + (fields.map fieldBound).sum := by
  induction entries generalizing fields with
  | nil => simp [KeyMap.assignAll]
  | cons x rest ih =>
    have hassign : _ ≤ fieldBound x + _ := sum_fieldBound_assign_le x.1 x.2 fields
    have hrest := ih (KeyMap.assign x.1 x.2 fields)
    rw [KeyMap.assignAll, List.foldl_cons, ← KeyMap.assignAll, List.map_cons, List.sum_cons]
    omega

/-- The text is as long as its strings, six times, and a little for each field. -/
theorem length_encodeMessage_le (lib : Json.Library) (m : Message) :
    (encodeMessage lib m).length ≤
      (m.fields.map fieldBound).sum + fieldBound ("type", m.type) + 2 := by
  have hdump := lib.length_dump_le (.object ((messageFields m).map fun field => (field.1, .string field.2)))
  have hbound : Value.bound.fieldsBound ((messageFields m).map fun field => (field.1, .string field.2)) =
      ((messageFields m).map fieldBound).sum := by
    induction messageFields m with
    | nil => rfl
    | cons field fields ih =>
      simp only [List.map_cons, Value.bound.fieldsBound, ih, List.sum_cons, Value.bound, fieldBound]
      omega
  have hassign := sum_fieldBound_assignAll_le m.fields (KeyMap.assign "type" m.type [])
  have htype := sum_fieldBound_assign_le "type" m.type []
  rw [Value.bound, hbound] at hdump
  simp only [List.map_nil, List.sum_nil, Nat.add_zero] at htype
  unfold messageFields at hdump
  exact hdump.trans (by omega)

end Kiko
