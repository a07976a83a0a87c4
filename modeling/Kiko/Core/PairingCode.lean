import Kiko.Core.Crypto
import Kiko.Lib.Sha256

/-!
# Pairing codes (`core/common`, `core/pake`, `connect/peer_route_session`)

A code is what the two clients share. It is normalised and checked, and split: the part before
its first `-` names the room at the relay, and the part behind it is the secret of the
handshake. A code without a `-` is both.

The relay sees the token of the room, a digest. `token_hides_secret_iff` says for which codes
the token leaves the secret open.

That a token hides something is a statement about all codes with the same token: an onlooker
who knows the token, and can compute as much as he likes, is left with a secret that could be
another one. The digest is taken to be injective, which is the onlooker's best case.
-/

set_option autoImplicit false

namespace Kiko

/-! ## What is accepted

Character by character, as the source does, with the byte counts where it compares lengths. -/

/-- `std::isspace`. -/
def isSpace (c : Char) : Bool := c ∈ [' ', '\t', '\n', '\x0b', '\x0c', '\r']

/-- `std::tolower`. -/
def toLower (c : Char) : Char := if c.isUpper then Char.ofNat (c.toNat + 32) else c

/-- `normalize_pairing_code`. -/
def normalizePairingCode (code : String) : String :=
  String.ofList (((code.toList.dropWhile isSpace).reverse.dropWhile isSpace).reverse.map toLower)

/-- `pairing_alnum`. -/
def pairingAlnum (c : Char) : Bool := c.isAlphanum

/-- `mnemonic_pairing_char`. -/
def mnemonicPairingChar (c : Char) : Bool := pairingAlnum c || c == '-'

/-- The loop over the segments: one of them is empty, when a `-` stands where it starts. -/
def emptySegment (start : Bool) : List Char → Bool
  | [] => false
  | c :: cs => if c = '-' then start || emptySegment true cs else emptySegment false cs

/-- `validate_pairing_code_format`. -/
def validatePairingCodeFormat (code : String) (required : Bool) : Option KikoError :=
  let normalized := normalizePairingCode code
  let cs := normalized.toList
  if normalized = "" then if required then some "pairing code is required" else none
  else if 200 < normalized.utf8ByteSize then some "pairing code is too long (max 200)"
  else if cs.any fun c => c = '\n' ∨ c = '\r' ∨ c = '\t' then
    some "pairing code contains invalid whitespace"
  else if '-' ∈ cs then
    if !cs.all mnemonicPairingChar then
      some "pairing code has invalid character (use letters, digits, and - for mnemonic codes)"
    else if cs.head? = some '-' ∨ cs.getLast? = some '-' then
      some "pairing code has empty mnemonic segment"
    else if emptySegment true cs then some "pairing code has empty mnemonic segment"
    else none
  else if !cs.all pairingAlnum then
    some "pairing code has invalid character (use letters and digits)"
  else if normalized.utf8ByteSize < 2 then some "pairing code is too short"
  else none

/-! ## What is made of it -/

structure CodeParts where
  roomLabel : String
  secret : String
deriving DecidableEq, Repr

/-- `split_code`. -/
def splitCode (code : String) : CodeParts :=
  if '-' ∈ code.toList then
    { roomLabel := String.ofList (code.toList.takeWhile (· ≠ '-'))
      secret := String.ofList (code.toList.dropWhile (· ≠ '-')).tail }
  else { roomLabel := code, secret := code }

/-- `room_token`. -/
def roomToken (sha256 : Bytes → Bytes) (code : String) : String :=
  hexEncode (sha256 (spanOf ("kiko-room:" ++ (splitCode code).roomLabel)))

example : validatePairingCodeFormat " Ab-c " true = none := by decide
example : validatePairingCodeFormat "ab--c" true = some "pairing code has empty mnemonic segment" := by decide

/-! ## Normal forms -/

theorem toLower_toLower (c : Char) : toLower (toLower c) = toLower c := by
  unfold toLower
  by_cases h : c.isUpper = true
  · rw [if_pos h]
    have hrange : 65 ≤ c.toNat ∧ c.toNat ≤ 90 := by
      simpa [Char.isUpper, UInt32.le_iff_toNat_le] using h
    have hnat : (Char.ofNat (c.toNat + 32)).toNat = c.toNat + 32 := by
      rw [Char.toNat_ofNat, if_pos (by unfold Nat.isValidChar; omega)]
    have hnot : ¬ (Char.ofNat (c.toNat + 32)).isUpper = true := by
      intro hup
      have : (Char.ofNat (c.toNat + 32)).toNat ≤ 90 := by
        have h2 : 65 ≤ (Char.ofNat (c.toNat + 32)).toNat ∧ (Char.ofNat (c.toNat + 32)).toNat ≤ 90 := by
          simpa [Char.isUpper, UInt32.le_iff_toNat_le] using hup
        exact h2.2
      omega
    rw [if_neg hnot]
  · rw [if_neg h, if_neg h]

theorem emptySegment_congr {cs ds : List Char} (h : cs.map (· == '-') = ds.map (· == '-')) (start : Bool) :
    emptySegment start cs = emptySegment start ds := by
  induction cs generalizing ds start with
  | nil =>
    obtain rfl : ds = [] := by simpa using h.symm
    rfl
  | cons c cs ih =>
    cases ds with
    | nil => simp at h
    | cons d ds =>
      simp only [List.map_cons, List.cons.injEq] at h
      have hdash : c = '-' ↔ d = '-' := by rw [← beq_iff_eq, ← beq_iff_eq (a := d), h.1]
      by_cases hc : c = '-'
      · simp only [emptySegment, if_pos hc, if_pos (hdash.mp hc), ih h.2]
      · simp only [emptySegment, if_neg hc, if_neg (mt hdash.mpr hc), ih h.2]

/-- A character of a code is one byte, and no space. -/
theorem mnemonicPairingChar_ascii {c : Char} (h : mnemonicPairingChar c = true) :
    c.utf8Size = 1 ∧ isSpace c = false := by
  constructor
  · rw [Char.utf8Size_eq_one_iff]
    simp only [mnemonicPairingChar, pairingAlnum, Char.isAlphanum, Char.isAlpha, Char.isUpper,
      Char.isLower, Char.isDigit, Bool.or_eq_true, Bool.and_eq_true, decide_eq_true_eq, beq_iff_eq] at h
    obtain ((⟨-, h⟩ | ⟨-, h⟩) | ⟨-, h⟩) | rfl := h
    · exact UInt32.le_trans h (by decide)
    · exact UInt32.le_trans h (by decide)
    · exact UInt32.le_trans h (by decide)
    · decide
  · rw [Bool.eq_false_iff]
    intro hspace
    simp only [isSpace, List.mem_cons, List.not_mem_nil, or_false, decide_eq_true_eq] at hspace
    rcases hspace with rfl | rfl | rfl | rfl | rfl | rfl <;> simp [mnemonicPairingChar, pairingAlnum] at h

/-- Where all characters are those of codes, the bytes are counted by them. -/
theorem utf8ByteSize_ofList {cs : List Char} (h : ∀ c ∈ cs, mnemonicPairingChar c = true) :
    (String.ofList cs).utf8ByteSize = cs.length := by
  induction cs with
  | nil => rfl
  | cons c cs ih =>
    have hsplit : String.ofList (c :: cs) = String.singleton c ++ String.ofList cs := by
      apply String.toList_injective
      simp
    rw [hsplit, String.utf8ByteSize_append, String.utf8ByteSize_singleton,
      (mnemonicPairingChar_ascii (h c List.mem_cons_self)).1,
      ih fun d hd => h d (List.mem_cons_of_mem _ hd), List.length_cons, Nat.add_comm]

/-- A code of characters of codes in lower case is normal. -/
theorem normalizePairingCode_eq {cs : List Char} (hchars : ∀ c ∈ cs, mnemonicPairingChar c = true)
    (hlower : ∀ c ∈ cs, toLower c = c) : normalizePairingCode (String.ofList cs) = String.ofList cs := by
  have htrim {ds : List Char} (h : ∀ d ∈ ds, mnemonicPairingChar d = true) : ds.dropWhile isSpace = ds := by
    cases ds with
    | nil => rfl
    | cons d ds =>
      have := (mnemonicPairingChar_ascii (h d List.mem_cons_self)).2
      simp [this]
  have hreverse : ∀ c ∈ cs.reverse, mnemonicPairingChar c = true := fun c hc =>
    hchars c (List.mem_reverse.mp hc)
  rw [normalizePairingCode, String.toList_ofList, htrim hchars, htrim hreverse, List.reverse_reverse,
    List.map_congr_left (g := id) hlower, List.map_id]

/-- What a normalised code consists of is in lower case. -/
theorem toLower_of_mem_normalize {code : String} {c : Char} (h : c ∈ (normalizePairingCode code).toList) :
    toLower c = c := by
  rw [normalizePairingCode, String.toList_ofList] at h
  obtain ⟨d, -, rfl⟩ := List.mem_map.mp h
  exact toLower_toLower d

/-! ## Two codes of one form

To show that a secret is open another accepted code with the same label is needed, so a second
character is found for a place of the secret that keeps the form. -/

/-- What the check asks of a normalised code with a `-`. -/
structure MnemonicOk (cs : List Char) : Prop where
  length : cs.length ≤ 200
  dash : '-' ∈ cs
  chars : ∀ c ∈ cs, mnemonicPairingChar c = true
  head : cs.head? ≠ some '-'
  last : cs.getLast? ≠ some '-'
  segments : emptySegment true cs = false

theorem validate_mnemonic {code : String} (hdash : '-' ∈ (normalizePairingCode code).toList) :
    validatePairingCodeFormat code true = none ↔ MnemonicOk (normalizePairingCode code).toList := by
  have hne : normalizePairingCode code ≠ "" := by
    intro h
    rw [h] at hdash
    cases hdash
  unfold validatePairingCodeFormat
  simp only [if_neg hne, if_pos hdash]
  generalize hk : normalizePairingCode code = k at hdash
  have hsize (h : ∀ c ∈ k.toList, mnemonicPairingChar c = true) : k.utf8ByteSize = k.toList.length := by
    have := utf8ByteSize_ofList h
    rwa [String.ofList_toList] at this
  constructor
  · intro h
    split_ifs at h with hlong hspace hchars hends hempty
    have hall : ∀ c ∈ k.toList, mnemonicPairingChar c = true := by simpa using hchars
    exact ⟨hsize hall ▸ Nat.not_lt.mp hlong, hdash, hall, fun h => hends (.inl h), fun h => hends (.inr h),
      by simpa using hempty⟩
  · intro h
    have hlong : ¬ 200 < k.utf8ByteSize := by
      rw [hsize h.chars]
      exact Nat.not_lt.mpr h.length
    have hspace : ¬ (k.toList.any fun c => decide (c = '\n' ∨ c = '\r' ∨ c = '\t')) = true := by
      rw [List.any_eq_true]
      rintro ⟨c, hc, hws⟩
      have := (mnemonicPairingChar_ascii (h.chars c hc)).2
      rcases of_decide_eq_true hws with rfl | rfl | rfl <;> simp [isSpace] at this
    rw [if_neg hlong, if_neg hspace, if_neg (by simpa using h.chars),
      if_neg (fun hends => hends.elim h.head h.last), if_neg (by simp [h.segments])]

theorem getLast?_eq_dash_iff (cs : List Char) :
    cs.getLast? = some '-' ↔ (cs.map (· == '-')).getLast? = some true := by
  rw [List.getLast?_map]
  cases cs.getLast? <;> simp

/-- The check looks at where the `-` stand, and at no other character twice. -/
theorem MnemonicOk.congr {cs ds : List Char} (h : MnemonicOk cs)
    (hsame : cs.map (· == '-') = ds.map (· == '-'))
    (hchars : ∀ d ∈ ds, mnemonicPairingChar d = true) : MnemonicOk ds := by
  have hdash (cs : List Char) : '-' ∈ cs ↔ true ∈ cs.map (· == '-') := by simp
  have hhead (cs : List Char) : cs.head? = some '-' ↔ (cs.map (· == '-')).head? = some true := by
    cases cs <;> simp
  refine ⟨?_, ?_, hchars, ?_, ?_, ?_⟩
  · have := congrArg List.length hsame
    simp only [List.length_map] at this
    exact this ▸ h.length
  · rw [hdash, ← hsame, ← hdash]
    exact h.dash
  · rw [ne_eq, hhead, ← hsame, ← hhead]
    exact h.head
  · rw [ne_eq, getLast?_eq_dash_iff, ← hsame, ← getLast?_eq_dash_iff]
    exact h.last
  · rw [← emptySegment_congr hsame]
    exact h.segments

/-- Another character, where there is no `-`. -/
def otherChar (c : Char) : Char := if c = '-' then '-' else if c = 'a' then 'b' else 'a'

theorem otherChar_ok (c : Char) :
    (otherChar c == '-') = (c == '-') ∧ (c ≠ '-' → otherChar c ≠ c) ∧
      mnemonicPairingChar (otherChar c) = true ∧ toLower (otherChar c) = otherChar c := by
  by_cases hdash : c = '-'
  · subst hdash
    decide
  · by_cases ha : c = 'a'
    · subst ha
      decide
    · simp only [otherChar, if_neg hdash, if_neg ha]
      refine ⟨?_, fun _ => Ne.symm ha, by decide, by decide⟩
      rw [beq_false_of_ne hdash]
      decide

theorem splitCode_dash {label secret : List Char} (h : '-' ∉ label) :
    splitCode (String.ofList (label ++ '-' :: secret)) = ⟨String.ofList label, String.ofList secret⟩ := by
  have hlabel : ∀ c ∈ label, decide (c ≠ '-') = true := by
    intro c hc
    have : c ≠ '-' := fun heq => h (heq ▸ hc)
    simpa using this
  have htake : (label ++ '-' :: secret).takeWhile (· ≠ '-') = label := by
    rw [List.takeWhile_append_of_pos hlabel]
    simp
  have hdrop : (label ++ '-' :: secret).dropWhile (· ≠ '-') = '-' :: secret := by
    rw [List.dropWhile_append_of_pos hlabel]
    simp
  rw [splitCode, String.toList_ofList, if_pos (by simp), htake, hdrop, List.tail_cons]

/-- Every code of a label and a secret has another one with its label. -/
theorem exists_other_secret {code : String} (hok : validatePairingCodeFormat code true = none)
    (hdash : '-' ∈ (normalizePairingCode code).toList) :
    ∃ other, validatePairingCodeFormat other true = none ∧ '-' ∈ (normalizePairingCode other).toList ∧
      (splitCode (normalizePairingCode other)).roomLabel = (splitCode (normalizePairingCode code)).roomLabel ∧
      (splitCode (normalizePairingCode other)).secret ≠ (splitCode (normalizePairingCode code)).secret := by
  have hmnemonic := (validate_mnemonic hdash).mp hok
  have hlower (c : Char) (hc : c ∈ (normalizePairingCode code).toList) := toLower_of_mem_normalize hc
  obtain ⟨label, secret, hcs, hlabel⟩ := List.eq_append_cons_of_mem hdash
  rw [hcs] at hmnemonic hlower
  let cs := label ++ '-' :: secret.map otherChar
  have hchars : ∀ c ∈ cs, mnemonicPairingChar c = true ∧ toLower c = c := by
    intro c hc
    have hsplit : c ∈ label ++ ['-'] ∨ c ∈ secret.map otherChar := by simpa [cs, or_assoc] using hc
    obtain hc | hc := hsplit
    · have hold : c ∈ label ++ '-' :: secret := by
        rw [List.append_cons]
        exact List.mem_append_left _ hc
      exact ⟨hmnemonic.chars c hold, hlower c hold⟩
    · obtain ⟨d, -, rfl⟩ := List.mem_map.mp hc
      exact (otherChar_ok d).2.2
  have hnormal : normalizePairingCode (String.ofList cs) = String.ofList cs :=
    normalizePairingCode_eq (fun c hc => (hchars c hc).1) (fun c hc => (hchars c hc).2)
  have hpattern : (label ++ '-' :: secret).map (· == '-') = cs.map (· == '-') := by
    have hmap : (secret.map otherChar).map (· == '-') = secret.map (· == '-') := by
      rw [List.map_map]
      exact List.map_congr_left fun c _ => (otherChar_ok c).1
    simp only [cs, List.map_append, List.map_cons, hmap]
  have hdash' : '-' ∈ (normalizePairingCode (String.ofList cs)).toList := by
    rw [hnormal, String.toList_ofList]
    simp [cs]
  have hcode : normalizePairingCode code = String.ofList (label ++ '-' :: secret) := by
    rw [← hcs, String.ofList_toList]
  refine ⟨String.ofList cs, (validate_mnemonic hdash').mpr ?_, hdash', ?_, ?_⟩
  · rw [hnormal, String.toList_ofList]
    exact hmnemonic.congr hpattern fun c hc => (hchars c hc).1
  · rw [hnormal, hcode, splitCode_dash hlabel, splitCode_dash hlabel]
  · rw [hnormal, hcode, splitCode_dash hlabel, splitCode_dash hlabel]
    intro heq
    -- the last character is not a `-`, and so has changed
    have hsecret : secret.map otherChar = secret := String.ofList_injective heq
    have hlast := hmnemonic.last
    rw [List.getLast?_append_cons] at hlast
    obtain ⟨c, hc⟩ : ∃ c, secret.getLast? = some c := by
      cases hsome : secret.getLast? with
      | none => simp [List.getLast?_cons, hsome] at hlast
      | some c => exact ⟨c, rfl⟩
    have hne : c ≠ '-' := by
      rintro rfl
      simp [List.getLast?_cons, hc] at hlast
    have hfixed := List.map_inj_left.mp (hsecret.trans (List.map_id secret).symm) c (List.mem_of_getLast? hc)
    exact (otherChar_ok c).2.1 hne hfixed

/-! ## What the token tells -/

section Token

variable (sha256 : Bytes → Bytes)

def Accepted (code : String) : Prop := validatePairingCodeFormat code true = none

/-- The token of a code's room leaves its secret open: codes with one label have one token, and
    some other code of the form has the token and another secret. A session works with the
    normalised code. -/
def HidesSecret (code : String) : Prop :=
  (∀ other, Accepted other →
    (splitCode (normalizePairingCode other)).roomLabel = (splitCode (normalizePairingCode code)).roomLabel →
    roomToken sha256 (normalizePairingCode other) = roomToken sha256 (normalizePairingCode code)) ∧
  ∃ other, Accepted other ∧
    ('-' ∈ (normalizePairingCode other).toList ↔ '-' ∈ (normalizePairingCode code).toList) ∧
    roomToken sha256 (normalizePairingCode other) = roomToken sha256 (normalizePairingCode code) ∧
    (splitCode (normalizePairingCode other)).secret ≠ (splitCode (normalizePairingCode code)).secret

theorem roomToken_inj {sha256 : Bytes → Bytes} (hinj : Function.Injective sha256) {code other : String}
    (h : roomToken sha256 code = roomToken sha256 other) :
    (splitCode code).roomLabel = (splitCode other).roomLabel := by
  have hmaterial := spanOf_injective (hinj (hexEncode_injective h))
  exact String.append_right_inj _ |>.mp hmaterial

/-- A plain code is its own label, which the token determines. -/
theorem not_hidesSecret_plain {sha256 : Bytes → Bytes} (hinj : Function.Injective sha256) {code : String}
    (hplain : '-' ∉ (normalizePairingCode code).toList) : ¬ HidesSecret sha256 code := by
  rintro ⟨-, other, -, hform, htoken, hsecret⟩
  have hlabel := roomToken_inj hinj htoken
  simp only [splitCode, if_neg hplain, if_neg (mt hform.mp hplain)] at hlabel hsecret
  exact hsecret hlabel

/-- **The token hides the secret of a code with a label, and of no other.** -/
theorem token_hides_secret_iff {sha256 : Bytes → Bytes} (hinj : Function.Injective sha256) {code : String}
    (hcode : Accepted code) :
    HidesSecret sha256 code ↔ '-' ∈ (normalizePairingCode code).toList := by
  constructor
  · intro h
    by_contra hplain
    exact not_hidesSecret_plain hinj hplain h
  · intro hdash
    refine ⟨fun other _ hlabel => by rw [roomToken, roomToken, hlabel], ?_⟩
    obtain ⟨other, hok, hdash', hlabel, hsecret⟩ := exists_other_secret hcode hdash
    exact ⟨other, hok, iff_of_true hdash' hdash, by rw [roomToken, roomToken, hlabel], hsecret⟩

/-- SHA-256 on one input, and injective. -/
def sha256On (input : Bytes) : Bytes → Bytes := Equiv.swap input (Sha256.sha256 input)

theorem token_hides_secret_iff_label :
    HidesSecret (sha256On (spanOf "kiko-room:ab")) "ab-cd" ↔
      '-' ∈ (normalizePairingCode "ab-cd").toList :=
  token_hides_secret_iff (Equiv.injective _) (by unfold Accepted; decide)

/-- The token of a plain code determines it. -/
theorem plain_code_told : ¬ ∀ sha256 : Bytes → Bytes, Function.Injective sha256 →
    ∀ code, Accepted code → HidesSecret sha256 code := by
  intro h
  exact not_hidesSecret_plain (Equiv.injective _) (by decide)
    (h (sha256On (spanOf "kiko-room:ab3k9x")) (Equiv.injective _) "ab3k9x" (by unfold Accepted; decide))

end Token

end Kiko
