import Kiko.Core.MessageText

/-!
# Endpoints as text (`core/common`)

`parse_endpoint` reads four shapes: a host in brackets with or without a port, a bare text, and
`host:port`. `Spells` says which text is read as which endpoint, once for both directions
(`parseEndpoint_ok_iff`); what is written is then judged by the shapes it can be read as.

Two places write an endpoint. `Endpoint::to_string` puts a host with a colon in brackets;
`http_connect` writes `host:port` whatever the host is. So the second is read back only for hosts
without a colon (`parseEndpoint_hostport_iff`), the first for every host but the empty one and
those that hold brackets of their own (`parseEndpoint_toString_iff`).

Hosts are any text, with no check that they are a name or an address: the source does not look
either, and what an endpoint is read back as is decided by where colons and brackets stand. The
two writers are compared with one reader, so the reader is analysed once, as a relation.
-/

set_option autoImplicit false

namespace Kiko

/-! ## The source -/

/-- `Endpoint::to_string`. -/
def Endpoint.toString (e : Endpoint) : String :=
  if ':' ∈ e.host.toList ∧ e.host.toList.head? ≠ some '[' then
    "[" ++ e.host ++ "]:" ++ ToString.toString e.port
  else e.host ++ ":" ++ ToString.toString e.port

/-- The authority `http_connect` names its target by. -/
def hostport (target : Endpoint) : String := target.host ++ ":" ++ toString target.port

/-- What stands before and after the first `c`, as `find` and two calls of `substr` give it. -/
def splitFirst (c : Char) : List Char → Option (List Char × List Char)
  | [] => none
  | d :: text => if d = c then some ([], text)
    else (splitFirst c text).map fun parts => (d :: parts.1, parts.2)

/-- `checked_endpoint_port`. -/
def checkedEndpointPort (port : Nat) (value : String) (allowZero : Bool) : Except KikoError Nat :=
  let minPort := if allowZero then 0 else 1
  if port < minPort ∨ 65535 < port then .error ("endpoint port out of range: " ++ value)
  else .ok port

/-- `parse_port_number`. -/
def parsePortNumber (text : List Char) (value : String) : Except KikoError Nat :=
  match parseU64Strict (String.ofList text) with
  | some port => .ok port
  | none => .error ("endpoint port is invalid: " ++ value)

/-- `parse_endpoint_impl`. -/
def parseEndpointImpl (value : String) (defaultPort : UInt16)
    (allowZeroPort requirePortWhenDefaultZero : Bool) : Except KikoError Endpoint :=
  let withDefault (host : String) (what : String) : Except KikoError Endpoint :=
    if defaultPort = 0 ∧ requirePortWhenDefaultZero then .error (what ++ value)
    else .ok ⟨host, defaultPort.toNat⟩
  let withPort (host : String) (text : List Char) : Except KikoError Endpoint := do
    let port ← parsePortNumber text value
    return ⟨host, ← checkedEndpointPort port value allowZeroPort⟩
  if value.toList.head? = some '[' then
    match splitFirst ']' value.toList.tail with
    | none => .error ("endpoint missing closing ']': " ++ value)
    | some (host, []) => withDefault (String.ofList host) "endpoint must be [host]:port: "
    | some (host, d :: text) =>
      if d ≠ ':' ∨ text = [] then .error ("endpoint malformed after ']': " ++ value)
      else withPort (String.ofList host) text
  else if 1 < value.toList.count ':' then
    withDefault value "endpoint must be [host]:port for IPv6: "
  else
    -- at most one colon is left, so `rfind` finds the first
    match splitFirst ':' value.toList with
    | none => withDefault value "endpoint must be host:port: "
    | some (host, text) =>
      let host := if host = [] then "::" else String.ofList host
      if text = [] then .error ("endpoint port is empty: " ++ value) else withPort host text

/-- `parse_endpoint`. -/
def parseEndpoint (value : String) (defaultPort : UInt16) : Except KikoError Endpoint :=
  parseEndpointImpl value defaultPort false true

/-! ## Which text is read as which endpoint

One constructor for each shape, with the side conditions under which the shape is the one that is
tried. The relation is shown to be the function. -/

variable {c : Char} {text before after host : List Char} {port : Nat} {value : String}
  {defaultPort : UInt16} {e : Endpoint}

theorem splitFirst_append (h : c ∉ before) :
    splitFirst c (before ++ c :: after) = some (before, after) := by
  induction before with
  | nil => simp [splitFirst]
  | cons d before ih =>
    obtain ⟨hne, hrest⟩ := List.ne_and_not_mem_of_not_mem_cons h
    rw [List.cons_append, splitFirst, if_neg (Ne.symm hne), ih hrest]
    rfl

theorem splitFirst_none (h : splitFirst c text = none) : c ∉ text := by
  induction text with
  | nil => simp
  | cons d text ih =>
    rw [splitFirst] at h
    split at h
    · cases h
    · rename_i hne
      exact List.not_mem_cons_of_ne_of_not_mem (Ne.symm hne) (ih (Option.map_eq_none_iff.mp h))

theorem splitFirst_some (h : splitFirst c text = some (before, after)) :
    text = before ++ c :: after ∧ c ∉ before := by
  induction text generalizing before with
  | nil => cases h
  | cons d text ih =>
    rw [splitFirst] at h
    split at h
    · rename_i heq
      cases h
      exact ⟨by rw [heq]; rfl, by simp⟩
    · rename_i hne
      obtain ⟨⟨start, rest⟩, hsplit, hparts⟩ := Option.map_eq_some_iff.mp h
      cases hparts
      obtain ⟨heq, hnot⟩ := ih hsplit
      exact ⟨by rw [heq]; rfl, List.not_mem_cons_of_ne_of_not_mem (Ne.symm hne) hnot⟩

/-- The text of a port that `parse_endpoint` takes. -/
structure SpellsPort (text : List Char) (port : Nat) : Prop where
  number : parseU64Strict (String.ofList text) = some port
  pos : 1 ≤ port
  le : port ≤ 65535

/-- The shapes `parse_endpoint` reads: the text, the host and the port it is read as. -/
inductive Spells (defaultPort : UInt16) : List Char → List Char → Nat → Prop
  | bracketed {host : List Char} (hclose : ']' ∉ host) (hdefault : defaultPort ≠ 0) :
    Spells defaultPort ('[' :: (host ++ [']'])) host defaultPort.toNat
  | bracketedPort {host text : List Char} {port : Nat} (hclose : ']' ∉ host)
    (hport : SpellsPort text port) :
    Spells defaultPort ('[' :: (host ++ ']' :: ':' :: text)) host port
  | bare {host : List Char} (hopen : host.head? ≠ some '[') (hcolons : host.count ':' ≠ 1)
    (hdefault : defaultPort ≠ 0) : Spells defaultPort host host defaultPort.toNat
  | withPort {host text : List Char} {port : Nat} (hopen : host.head? ≠ some '[')
    (hne : host ≠ []) (hcolon : ':' ∉ host) (hport : SpellsPort text port) :
    Spells defaultPort (host ++ ':' :: text) host port
  | anyHost {text : List Char} {port : Nat} (hport : SpellsPort text port) :
    Spells defaultPort (':' :: text) "::".toList port

theorem isDigit_of_foldlM_parseDigit {cs : List Char} {out n : Nat}
    (h : cs.foldlM parseDigit out = some n) : ∀ c ∈ cs, c.isDigit := by
  induction cs generalizing out with
  | nil => simp
  | cons c cs ih =>
    rw [List.foldlM_cons] at h
    obtain ⟨next, hnext, h⟩ := Option.bind_eq_some_iff.mp h
    intro c' hc'
    cases hc' with
    | head =>
      unfold parseDigit at hnext
      split at hnext
      · assumption
      · cases hnext
    | tail _ hmem => exact ih h c' hmem

theorem SpellsPort.ne_nil (h : SpellsPort text port) : text ≠ [] := by
  intro hnil
  have hnumber := h.number
  rw [hnil] at hnumber
  rw [parseU64Strict, if_pos (by simp)] at hnumber
  cases hnumber

theorem SpellsPort.isDigit (h : SpellsPort text port) : ∀ c ∈ text, c.isDigit := by
  have hnumber := h.number
  rw [parseU64Strict, String.toList_ofList, if_neg h.ne_nil] at hnumber
  exact isDigit_of_foldlM_parseDigit hnumber

theorem SpellsPort.not_mem (h : SpellsPort text port) (hc : c.isDigit = false) : c ∉ text := by
  intro hmem
  exact absurd (h.isDigit c hmem) (by simp [hc])

/-- The number a port is written as is read as the port. -/
theorem spellsPort_toString (hpos : 1 ≤ port) (hle : port ≤ 65535) :
    SpellsPort (toString port).toList port where
  number := by
    rw [String.ofList_toList]
    exact parseU64Strict_toString (Nat.le_trans hle (by decide))
  pos := hpos
  le := hle

/-- The two checks of a port together. -/
theorem parsePort_ok_iff {host : String} :
    (do let port ← parsePortNumber text value
        return ⟨host, ← checkedEndpointPort port value false⟩) = Except.ok e ↔
      e.host = host ∧ SpellsPort text e.port := by
  unfold parsePortNumber checkedEndpointPort
  constructor
  · intro h
    split at h
    · rename_i n hnumber
      simp only [ok_bind, Bool.false_eq_true, if_false] at h
      split at h
      · cases h
      · cases h
        exact ⟨rfl, hnumber, by dsimp only; omega, by dsimp only; omega⟩
    · cases h
  · intro ⟨hhost, hport⟩
    have hpos := hport.pos
    have hle := hport.le
    rw [hport.number]
    simp only [ok_bind, Bool.false_eq_true, if_false]
    rw [if_neg (by omega), ← hhost]
    rfl

/-- What is read is spelled by the text. -/
theorem spells_of_parseEndpoint (h : parseEndpoint value defaultPort = .ok e) :
    Spells defaultPort value.toList e.host.toList e.port := by
  unfold parseEndpoint parseEndpointImpl at h
  simp only [and_true] at h
  split at h
  -- the text begins with a bracket: the host is what stands before the closing one
  · rename_i hopen
    obtain ⟨rest, hvalue⟩ : ∃ rest, value.toList = '[' :: rest := List.head?_eq_some_iff.mp hopen
    rw [hvalue, List.tail_cons] at h
    split at h
    · cases h
    · rename_i host hsplit
      obtain ⟨hrest, hclose⟩ := splitFirst_some hsplit
      split at h
      · cases h
      · rename_i hdefault
        cases h
        rw [hvalue, hrest, String.toList_ofList]
        exact .bracketed hclose hdefault
    · rename_i host d text hsplit
      obtain ⟨hrest, hclose⟩ := splitFirst_some hsplit
      split at h
      · cases h
      · rename_i hcolon
        obtain ⟨hhost, hport⟩ := parsePort_ok_iff.mp h
        obtain rfl : d = ':' := by
          by_contra hd
          exact hcolon (.inl hd)
        rw [hvalue, hrest, hhost, String.toList_ofList]
        exact .bracketedPort hclose hport
  · rename_i hopen
    split at h
    -- no bracket and not one colon: the whole text is the host
    · rename_i hcount
      split at h
      · cases h
      · rename_i hdefault
        cases h
        exact .bare hopen (by omega) hdefault
    · split at h
      · rename_i hsplit
        split at h
        · cases h
        · rename_i hdefault
          cases h
          have hnone := List.count_eq_zero.mpr (splitFirst_none hsplit)
          exact .bare hopen (by omega) hdefault
      · rename_i host text hsplit
        obtain ⟨hvalue, hcolon⟩ := splitFirst_some hsplit
        split at h
        · cases h
        · obtain ⟨hhost, hport⟩ := parsePort_ok_iff.mp h
          rw [hvalue] at hopen ⊢
          rw [hhost]
          by_cases hnil : host = []
          · subst hnil
            exact .anyHost hport
          · rw [if_neg hnil, String.toList_ofList]
            refine .withPort ?_ hnil hcolon hport
            rwa [List.head?_append_of_ne_nil _ hnil] at hopen

/-- What spells an endpoint is read as it. -/
theorem parseEndpoint_of_spells (h : Spells defaultPort text host port) :
    parseEndpoint (String.ofList text) defaultPort = .ok ⟨String.ofList host, port⟩ := by
  unfold parseEndpoint parseEndpointImpl
  simp only [String.toList_ofList, and_true]
  cases h with
  | bracketed hclose hdefault =>
    rw [if_pos (List.head?_cons ..), List.tail_cons, splitFirst_append hclose]
    exact if_neg hdefault
  | bracketedPort hclose hport =>
    rw [if_pos (List.head?_cons ..), List.tail_cons, splitFirst_append hclose]
    dsimp only
    rw [if_neg (by simp [hport.ne_nil])]
    exact parsePort_ok_iff.mpr ⟨rfl, hport⟩
  | bare hopen hcolons hdefault =>
    rw [if_neg hopen, if_neg hdefault]
    split
    · rfl
    · have hnone : ':' ∉ text := List.count_eq_zero.mp (by omega)
      split
      · rfl
      · rename_i hsplit
        obtain ⟨htext, -⟩ := splitFirst_some hsplit
        exact absurd (by simp [htext]) hnone
  | withPort hopen hne hcolon hport =>
    have hone := List.count_eq_zero.mpr (hport.not_mem (by decide : Char.isDigit ':' = false))
    have hzero := List.count_eq_zero.mpr hcolon
    rw [if_neg (by rwa [List.head?_append_of_ne_nil _ hne]), if_neg (by simp [hone, hzero]),
      splitFirst_append hcolon]
    dsimp only
    rw [if_neg hport.ne_nil, if_neg hne]
    exact parsePort_ok_iff.mpr ⟨rfl, hport⟩
  | anyHost hport =>
    have hone := List.count_eq_zero.mpr (hport.not_mem (by decide : Char.isDigit ':' = false))
    rw [if_neg (by simp), if_neg (by simp [hone])]
    dsimp only [splitFirst]
    rw [if_pos rfl]
    dsimp only
    rw [if_neg hport.ne_nil, if_pos rfl]
    exact parsePort_ok_iff.mpr ⟨rfl, hport⟩

theorem parseEndpoint_ok_iff :
    parseEndpoint value defaultPort = .ok e ↔
      Spells defaultPort value.toList e.host.toList e.port := by
  constructor
  · exact spells_of_parseEndpoint
  · intro h
    have hread := parseEndpoint_of_spells h
    rwa [String.ofList_toList, String.ofList_toList] at hread

theorem Spells.port_pos (h : Spells defaultPort text host port) : 1 ≤ port := by
  have hdefault (hne : defaultPort ≠ 0) : 1 ≤ defaultPort.toNat := by
    refine Nat.pos_of_ne_zero fun hzero => hne ?_
    exact UInt16.toNat.inj hzero
  cases h with
  | bracketed _ hne => exact hdefault hne
  | bracketedPort _ hport => exact hport.pos
  | bare _ _ hne => exact hdefault hne
  | withPort _ _ _ hport => exact hport.pos
  | anyHost hport => exact hport.pos

theorem Spells.port_le (h : Spells defaultPort text host port) : port ≤ 65535 := by
  have hdefault : defaultPort.toNat ≤ 65535 := Nat.le_of_lt_succ defaultPort.toNat_lt
  cases h with
  | bracketed => exact hdefault
  | bracketedPort _ hport => exact hport.le
  | bare => exact hdefault
  | withPort _ _ _ hport => exact hport.le
  | anyHost hport => exact hport.le

/-! ## Writing an endpoint and reading it again

Both directions of each equivalence come from the same relation: the written text spells the
endpoint, and where it does not, it spells another one or none. -/

/-- A host that reads the same with and without brackets around it. -/
structure PlainHost (host : List Char) : Prop where
  ne_nil : host ≠ []
  colon : ':' ∉ host
  bracket : host.head? ≠ some '['

/-- A text with a bracket outside the host cannot be the host with a port behind it. -/
theorem append_port_ne_bracketed {digits : List Char} (hbracket : ']' ∉ digits) :
    host ++ ':' :: digits ≠ '[' :: (host ++ ']' :: after) := by
  intro h
  have hcount := congrArg (List.count ']') h
  simp [List.count_append, List.count_eq_zero.mpr hbracket] at hcount

theorem Spells.plainHost {digits : List Char} (hbracket : ']' ∉ digits)
    (h : Spells defaultPort (host ++ ':' :: digits) host port) : PlainHost host := by
  generalize heq : host ++ ':' :: digits = text at h
  cases h with
  | bracketed => exact absurd heq (append_port_ne_bracketed hbracket)
  | bracketedPort => exact absurd heq (append_port_ne_bracketed hbracket)
  | bare => exact absurd (congrArg List.length heq) (by simp)
  | withPort hopen hne hcolon => exact ⟨hne, hcolon, hopen⟩
  | anyHost hrest =>
    -- the host read is `::`, so a third colon is left for the port
    cases heq
    exact absurd (List.mem_cons_self ..) (hrest.not_mem (by decide : Char.isDigit ':' = false))

/-- **The authority is read back exactly for plain hosts.** -/
theorem parseEndpoint_hostport_iff (hpos : 1 ≤ e.port) (hle : e.port ≤ 65535) :
    parseEndpoint (hostport e) defaultPort = .ok e ↔ PlainHost e.host.toList := by
  have hport := spellsPort_toString hpos hle
  have htext : (hostport e).toList = e.host.toList ++ ':' :: (toString e.port).toList := by
    simp [hostport]
  rw [parseEndpoint_ok_iff, htext]
  constructor
  · intro h
    exact h.plainHost (hport.not_mem (by decide : Char.isDigit ']' = false))
  · intro h
    exact .withPort h.bracket h.ne_nil h.colon hport

theorem Spells.not_mem_close {digits : List Char}
    (h : Spells defaultPort ('[' :: (host ++ ']' :: ':' :: digits)) host port) : ']' ∉ host := by
  generalize heq : '[' :: (host ++ ']' :: ':' :: digits) = text at h
  cases h with
  | bracketed hclose => exact hclose
  | bracketedPort hclose => exact hclose
  | bare =>
    have hlength := congrArg List.length heq
    simp only [List.length_cons, List.length_append] at hlength
    omega
  | withPort hopen hne =>
    have hhead := congrArg List.head? heq
    rw [List.head?_append_of_ne_nil _ hne] at hhead
    exact absurd hhead.symm hopen
  | anyHost => cases heq

/-- **`to_string` is read back for every host but the empty one and those with brackets** (a
closing one hurts only where `to_string` adds brackets). -/
theorem parseEndpoint_toString_iff (hpos : 1 ≤ e.port) (hle : e.port ≤ 65535) :
    parseEndpoint e.toString defaultPort = .ok e ↔
      e.host ≠ "" ∧ e.host.toList.head? ≠ some '[' ∧
        (':' ∈ e.host.toList → ']' ∉ e.host.toList) := by
  have hport := spellsPort_toString hpos hle
  have hempty : e.host ≠ "" ↔ e.host.toList ≠ [] := by
    simp
  rw [hempty]
  by_cases hbrackets : ':' ∈ e.host.toList ∧ e.host.toList.head? ≠ some '['
  · have htext : e.toString.toList =
        '[' :: (e.host.toList ++ ']' :: ':' :: (toString e.port).toList) := by
      simp [Endpoint.toString, if_pos hbrackets]
    rw [parseEndpoint_ok_iff, htext]
    constructor
    · intro h
      exact ⟨List.ne_nil_of_mem hbrackets.1, hbrackets.2, fun _ => h.not_mem_close⟩
    · intro h
      exact .bracketedPort (h.2.2 hbrackets.1) hport
  · have htext : e.toString = hostport e := if_neg hbrackets
    rw [htext, parseEndpoint_hostport_iff hpos hle]
    constructor
    · intro h
      exact ⟨h.ne_nil, h.bracket, fun hcolon => absurd hcolon h.colon⟩
    · intro h
      exact ⟨h.1, fun hcolon => hbrackets ⟨hcolon, h.2.1⟩, h.2.1⟩

/-- The texts whose endpoint has a plain host: in brackets it stands between the first two,
elsewhere it is what stands before the only colon, or all of the text. -/
def NamesPlainHost (value : List Char) : Prop :=
  if value.head? = some '[' then
    ∃ host rest, splitFirst ']' value.tail = some (host, rest) ∧ PlainHost host
  else value ≠ [] ∧ value.head? ≠ some ':' ∧ value.count ':' ≤ 1

theorem Spells.plainHost_iff (h : Spells defaultPort text host port) :
    PlainHost host ↔ NamesPlainHost text := by
  have hbracket {rest : List Char} (hclose : ']' ∉ host) :
      PlainHost host ↔ NamesPlainHost ('[' :: (host ++ ']' :: rest)) := by
    rw [NamesPlainHost, if_pos (List.head?_cons ..), List.tail_cons, splitFirst_append hclose]
    simp
  cases h with
  | bracketed hclose => exact hbracket hclose
  | bracketedPort hclose => exact hbracket hclose
  | bare hopen hcolons =>
    rw [NamesPlainHost, if_neg hopen]
    constructor
    · intro h
      refine ⟨h.ne_nil, fun hhead => h.colon (List.mem_of_head? hhead), ?_⟩
      rw [List.count_eq_zero.mpr h.colon]
      exact Nat.zero_le 1
    · intro ⟨hne, _, hle⟩
      exact ⟨hne, List.count_eq_zero.mp (by omega), hopen⟩
  | withPort hopen hne hcolon hport =>
    have hone := List.count_eq_zero.mpr (hport.not_mem (by decide : Char.isDigit ':' = false))
    have hzero := List.count_eq_zero.mpr hcolon
    rw [NamesPlainHost, List.head?_append_of_ne_nil _ hne, if_neg hopen]
    constructor
    · intro _
      refine ⟨by simp, fun hhead => hcolon (List.mem_of_head? hhead), ?_⟩
      simp [hzero, hone]
    · intro _
      exact ⟨hne, hcolon, hopen⟩
  | anyHost =>
    constructor
    · intro h
      exact absurd (List.mem_cons_self ..) h.colon
    · intro h
      rw [NamesPlainHost, if_neg (by simp)] at h
      exact absurd rfl h.2.1

/-- **Both texts of an endpoint are read back exactly when the text it came from names a plain
host.** -/
theorem endpoint_roundTrip_iff (h : parseEndpoint value defaultPort = .ok e) (again : UInt16) :
    (parseEndpoint e.toString again = .ok e ∧ parseEndpoint (hostport e) again = .ok e) ↔
      NamesPlainHost value.toList := by
  have hspells := parseEndpoint_ok_iff.mp h
  rw [← hspells.plainHost_iff, parseEndpoint_hostport_iff hspells.port_pos hspells.port_le]
  constructor
  · intro hboth
    exact hboth.2
  · intro hplain
    refine ⟨(parseEndpoint_toString_iff hspells.port_pos hspells.port_le).mpr ⟨?_, ?_, ?_⟩, hplain⟩
    · intro hempty
      exact hplain.ne_nil (by rw [hempty]; rfl)
    · exact hplain.bracket
    · exact fun hcolon => absurd hcolon hplain.colon

/-- `example.com:9000` names a plain host. -/
theorem endpoint_roundTrip_example_com :
    (parseEndpoint (Endpoint.toString ⟨"example.com", 9000⟩) 0 = .ok ⟨"example.com", 9000⟩ ∧
      parseEndpoint (hostport ⟨"example.com", 9000⟩) 0 = .ok ⟨"example.com", 9000⟩) ↔
      NamesPlainHost "example.com:9000".toList :=
  @endpoint_roundTrip_iff "example.com:9000" 0 ⟨"example.com", 9000⟩ (by rfl) 0

/-- The IPv6 loopback: `to_string` brackets it again, the authority does not, and is refused or
read as a host of its own. -/
theorem endpoint_authority_unbracketed :
    parseEndpoint "[::1]:80" 0 = .ok ⟨"::1", 80⟩ ∧
      parseEndpoint (Endpoint.toString ⟨"::1", 80⟩) 0 = .ok ⟨"::1", 80⟩ ∧
      parseEndpoint (hostport ⟨"::1", 80⟩) 0 =
        .error "endpoint must be [host]:port for IPv6: ::1:80" ∧
      parseEndpoint (hostport ⟨"::1", 80⟩) 80 = .ok ⟨"::1:80", 80⟩ := by
  decide

/-- Brackets around nothing are read as the empty host, which `to_string` writes as the text of
any address. -/
example : parseEndpoint "[]:80" 0 = .ok ⟨"", 80⟩ ∧
    parseEndpoint (Endpoint.toString ⟨"", 80⟩) 0 = .ok ⟨"::", 80⟩ := by decide

end Kiko
