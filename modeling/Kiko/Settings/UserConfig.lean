import Kiko.Lib.JsonFile
import Kiko.Settings.AtomicFile

/-!
# The user's configuration (`platform/user_config`)

The preferences that the command line and the terminal interface share are a JSON object in
`config.json`. A configuration of an earlier version, `tui.json`, is taken over when there is no
other. A file that is not a configuration is moved to a backup before anything is written, and
one that cannot be read is not written at all.

A setting that is missing, or has another type, falls back to its default or makes the whole
file malformed, as the source has it field by field; that difference is what decides whether a
file is moved away. The cast of a number to `int` is the language's.
-/

set_option autoImplicit false

namespace Kiko
namespace Settings

open Json

structure NetworkPreferences where
  preset : Int32 := 0
  advancedOpen : Bool := false
  lanDiscover : Bool := true
  onlyLocal : Bool := false
  disableLocal : Bool := false
  noDirect : Bool := false
  udpProbe : Bool := false
  autoConnections : Bool := false
  connections : Int32 := 4
  useGitignore : Bool := true
  avoidVpn : Bool := false
  manualIp : String := ""
  bindInterface : String := ""
  proxyUrl : String := ""
  deriving DecidableEq

structure UserConfig where
  relay : String := ""
  relayPass : String := ""
  lastSendPath : String := ""
  lastRecvOutDir : String := ""
  lastMode : Int32 := 0
  network : NetworkPreferences := {}
  deriving DecidableEq

/-! ## The configuration as JSON -/

/-- The name of a value's type in the messages of the JSON library. -/
def typeName : Value → String
  | .null => "null"
  | .bool _ => "boolean"
  | .number _ => "number"
  | .float _ => "number"
  | .string _ => "string"
  | .array _ => "array"
  | .object _ => "object"

/-- `root.value(key, fallback)`, for values that `get` reads. -/
def valueOr {α : Type} (get : Value → Except String α) (root : Value) (key : String)
    (fallback : α) : Except String α :=
  match root with
  | .object fields =>
    match fields.lookup key with
    | none => .ok fallback
    | some value => get value
  | _ => .error ("cannot use value() with " ++ typeName root)

def getString : Value → Except String String
  | .string s => .ok s
  | value => .error ("type must be string, but is " ++ typeName value)

def getBool : Value → Except String Bool
  | .bool b => .ok b
  | value => .error ("type must be boolean, but is " ++ typeName value)

/-- To `int`, by a cast. -/
def getInt (lib : FileLibrary) : Value → Except String Int32
  | .number n => .ok (Int32.ofInt n)
  | .float text => .ok (Int32.ofInt (lib.truncate text))
  | .bool b => .ok (if b then 1 else 0)
  | value => .error ("type must be number, but is " ++ typeName value)

def userConfigFromJson (lib : FileLibrary) (root : Value) : Except String UserConfig := do
  let relay ← valueOr getString root "relay" ""
  let relayPass ← valueOr getString root "relay_pass" ""
  let lastSendPath ← valueOr getString root "last_send_path" ""
  let lastRecvOutDir ← valueOr getString root "last_recv_out_dir" ""
  let lastMode ← valueOr (getInt lib) root "last_mode" 0
  let preset ← valueOr (getInt lib) root "network_preset" 0
  let advancedOpen ← valueOr getBool root "advanced_open" false
  let lanDiscover ← valueOr getBool root "lan_discover" true
  let onlyLocal ← valueOr getBool root "only_local" false
  let disableLocal ← valueOr getBool root "disable_local" false
  let noDirect ← valueOr getBool root "no_direct" false
  let udpProbe ← valueOr getBool root "udp_probe" false
  let autoConnections ← valueOr getBool root "auto_connections" false
  let connections ← valueOr (getInt lib) root "connections" 4
  let useGitignore ← valueOr getBool root "use_gitignore" true
  let avoidVpn ← valueOr getBool root "avoid_vpn" false
  let manualIp ← valueOr getString root "manual_ip" ""
  let bindInterface ← valueOr getString root "bind_interface" ""
  let proxyUrl ← valueOr getString root "proxy_url" ""
  return {
    relay, relayPass, lastSendPath, lastRecvOutDir, lastMode
    network := {
      preset, advancedOpen, lanDiscover, onlyLocal, disableLocal, noDirect, udpProbe
      autoConnections, connections, useGitignore, avoidVpn, manualIp, bindInterface, proxyUrl } }

/-- A text is written when it is not empty. -/
def textField (text : String) : Option Value := if text = "" then none else some (.string text)

def configFields (config : UserConfig) : List (String × Option Value) :=
  [("relay", textField config.relay),
    ("relay_pass", textField config.relayPass),
    ("last_send_path", textField config.lastSendPath),
    ("last_recv_out_dir", textField config.lastRecvOutDir),
    ("last_mode", some (.number config.lastMode.toInt)),
    ("network_preset", some (.number config.network.preset.toInt)),
    ("advanced_open", some (.bool config.network.advancedOpen)),
    ("lan_discover", some (.bool config.network.lanDiscover)),
    ("only_local", some (.bool config.network.onlyLocal)),
    ("disable_local", some (.bool config.network.disableLocal)),
    ("no_direct", some (.bool config.network.noDirect)),
    ("udp_probe", some (.bool config.network.udpProbe)),
    ("auto_connections", some (.bool config.network.autoConnections)),
    ("connections", some (.number config.network.connections.toInt)),
    ("use_gitignore", some (.bool config.network.useGitignore)),
    ("avoid_vpn", some (.bool config.network.avoidVpn)),
    ("manual_ip", textField config.network.manualIp),
    ("bind_interface", textField config.network.bindInterface),
    ("proxy_url", textField config.network.proxyUrl)]

def userConfigToJson (config : UserConfig) : Value :=
  .object (KeyMap.assignSome (configFields config) [])

/-! ## Reading and writing the file

What stands behind the value is not looked at, so a file can be read as a configuration and not
be the text of one. -/

/-- What a file that was read to its end is as a configuration. A text behind the value is not
    looked at. -/
def parseConfig (lib : FileLibrary) (bytes : Bytes) : Except String UserConfig :=
  match lib.scan bytes with
  | .error error => .error error
  | .ok root => userConfigFromJson lib root

inductive ConfigRead
  | missing
  | loaded (config : UserConfig)
  | invalid (error : String)
  | unreadable (error : String)

def readConfigFile (lib : FileLibrary) (f : ReadFaults) (path : String) (d : Disk) : ConfigRead :=
  match readFile f path d with
  | .missing => .missing
  | .unreadable error => .unreadable error
  | .broken error => .invalid error
  | .content bytes =>
    match parseConfig lib bytes with
    | .error error => .invalid error
    | .ok config => .loaded config

def configText (lib : FileLibrary) (config : UserConfig) : Bytes :=
  lib.dump (userConfigToJson config) ++ [10]

def writeConfigFile (lib : FileLibrary) (f : WriteFaults) (path : String) (config : UserConfig)
    (w : World) : Option String × World :=
  atomicWriteTextFile f path (configText lib config) w

/-! ## `load_user_config` -/

structure LoadFaults where
  current : ReadFaults := {}
  backup : Option String := none
  legacy : ReadFaults := {}
  write : WriteFaults := {}

structure UserConfigLoadResult where
  config : UserConfig := {}
  warning : Option String := none

/-- The second half: the configuration of an earlier version is looked for. -/
def migrateLegacy (lib : FileLibrary) (f : LoadFaults) (path legacy : String) (canMigrate : Bool)
    (warning : Option String) (w : World) : UserConfigLoadResult × World :=
  if legacy = path then ({ warning }, w)
  else
    match readConfigFile lib f.legacy legacy w.now with
    | .loaded config =>
      if canMigrate then
        match writeConfigFile lib f.write path config w with
        | (some error, w) =>
          ({ config, warning := some ("loaded legacy config but failed to migrate it: " ++ error) }, w)
        | (none, w) => ({ config, warning }, w)
      else
        ({ config
           warning :=
             warning.or (some "loaded legacy config but did not overwrite unreadable user config") },
          w)
    | _ => ({ warning }, w)

def loadUserConfigWithStatus (lib : FileLibrary) (f : LoadFaults) (path legacy : String)
    (w : World) : UserConfigLoadResult × World :=
  match readConfigFile lib f.current path w.now with
  | .loaded config => ({ config }, w)
  | .invalid _ =>
    match moveFileToRecoveryBackup f.backup path "corrupt" w with
    | (.error error, w) =>
      migrateLegacy lib f path legacy false
        (some ("user config is malformed and could not be preserved: " ++ error)) w
    | (.ok backup, w) =>
      migrateLegacy lib f path legacy true
        (some ("malformed user config preserved at " ++ backup.text)) w
  | .unreadable error =>
    migrateLegacy lib f path legacy false
      (some ("could not read user config " ++ path ++ ": " ++ error)) w
  | .missing => migrateLegacy lib f path legacy true none w

/-! ## `save_user_config` and what remembers settings -/

/-- The end of `saveUserConfig`, once the file may be written. -/
def storeConfig (lib : FileLibrary) (f : WriteFaults) (path : String) (config : UserConfig)
    (w : World) : Option String × World :=
  match writeConfigFile lib f path config w with
  | (some error, w) => (some ("failed to save user config: " ++ error), w)
  | (none, w) => (none, w)

def saveUserConfig (lib : FileLibrary) (f : SaveFaults) (path : String) (config : UserConfig)
    (w : World) : Option String × World :=
  match readConfigFile lib f.read path w.now with
  | .invalid _ =>
    match moveFileToRecoveryBackup f.backup path "corrupt" w with
    | (.error error, w) => (some ("refusing to overwrite malformed user config: " ++ error), w)
    | (.ok _, w) => storeConfig lib f.write path config w
  | .unreadable error =>
    (some ("refusing to overwrite unreadable user config " ++ path ++ ": " ++ error), w)
  | .missing => storeConfig lib f.write path config w
  | .loaded _ => storeConfig lib f.write path config w

/-- The configuration is loaded, updated and saved. What the source returns as one optional text
    is told apart here: `.error` where saving failed, `.ok` with the warning of the load. -/
def rememberSettings (lib : FileLibrary) (load : LoadFaults) (save : SaveFaults)
    (path legacy : String) (update : UserConfig → UserConfig) (w : World) :
    Except String (Option String) × World :=
  match loadUserConfigWithStatus lib load path legacy w with
  | (loaded, w) =>
    match saveUserConfig lib save path (update loaded.config) w with
    | (some error, w) => (.error error, w)
    | (none, w) => (.ok loaded.warning, w)

/-- The relay and, unless it is empty, its password. -/
def withRelay (relay : String) (relayPass : Option String) (config : UserConfig) : UserConfig :=
  { config with
    relay
    relayPass := match relayPass with
      | some pass => if pass ≠ "" then pass else config.relayPass
      | none => config.relayPass }

def rememberSendSettings (lib : FileLibrary) (load : LoadFaults) (save : SaveFaults)
    (path legacy relay : String) (relayPass : Option String) (sendPath : String) (w : World) :
    Except String (Option String) × World :=
  rememberSettings lib load save path legacy
    (fun config => { withRelay relay relayPass config with lastSendPath := sendPath, lastMode := 0 }) w

def rememberRecvSettings (lib : FileLibrary) (load : LoadFaults) (save : SaveFaults)
    (path legacy relay : String) (relayPass : Option String) (outputDir : String) (w : World) :
    Except String (Option String) × World :=
  rememberSettings lib load save path legacy
    (fun config => { withRelay relay relayPass config with lastRecvOutDir := outputDir, lastMode := 1 }) w

/-! ## What is written loads

For every configuration, with the defaults for what is left out when it is empty. -/

section RoundTrip

variable {lib : FileLibrary} {config : UserConfig}

theorem configFields_nodup (config : UserConfig) : ((configFields config).map (·.1)).Nodup := by
  simp [configFields]

theorem lookup_configFields (config : UserConfig) (key : String) :
    (KeyMap.assignSome (configFields config) []).lookup key =
      ((configFields config).lookup key).join := by
  rw [KeyMap.lookup_assignSome (configFields_nodup config), List.lookup_nil, Option.or_none]

theorem valueOr_text {key text : String}
    (h : (configFields config).lookup key = some (textField text)) :
    valueOr getString (userConfigToJson config) key "" = .ok text := by
  simp only [valueOr, userConfigToJson, lookup_configFields, h, textField]
  by_cases htext : text = ""
  · simp [htext]
  · simp [htext, getString]

theorem valueOr_field {α : Type} {get : Value → Except String α} {key : String} {value : Value}
    {a fallback : α} (h : (configFields config).lookup key = some (some value))
    (hget : get value = .ok a) : valueOr get (userConfigToJson config) key fallback = .ok a := by
  simp only [valueOr, userConfigToJson, lookup_configFields, h, Option.join_some, hget]

theorem getInt_toInt (lib : FileLibrary) (n : Int32) : getInt lib (.number n.toInt) = .ok n := by
  rw [getInt, Int32.ofInt_toInt]

theorem userConfigFromJson_toJson (lib : FileLibrary) (config : UserConfig) :
    userConfigFromJson lib (userConfigToJson config) = .ok config := by
  have htext : ∀ {key text}, (configFields config).lookup key = some (textField text) →
      valueOr getString (userConfigToJson config) key "" = .ok text := valueOr_text
  have hbool : ∀ {key b fallback}, (configFields config).lookup key = some (some (.bool b)) →
      valueOr getBool (userConfigToJson config) key fallback = .ok b := fun h => valueOr_field h rfl
  have hint : ∀ {key n fallback}, (configFields config).lookup key = some (some (.number (Int32.toInt n))) →
      valueOr (getInt lib) (userConfigToJson config) key fallback = .ok n :=
    fun h => valueOr_field h (getInt_toInt lib _)
  rw [userConfigFromJson, @htext "relay" config.relay rfl, @htext "relay_pass" config.relayPass rfl,
    @htext "last_send_path" config.lastSendPath rfl,
    @htext "last_recv_out_dir" config.lastRecvOutDir rfl,
    @hint "last_mode" config.lastMode _ rfl, @hint "network_preset" config.network.preset _ rfl,
    @hbool "advanced_open" config.network.advancedOpen _ rfl,
    @hbool "lan_discover" config.network.lanDiscover _ rfl,
    @hbool "only_local" config.network.onlyLocal _ rfl,
    @hbool "disable_local" config.network.disableLocal _ rfl,
    @hbool "no_direct" config.network.noDirect _ rfl,
    @hbool "udp_probe" config.network.udpProbe _ rfl,
    @hbool "auto_connections" config.network.autoConnections _ rfl,
    @hint "connections" config.network.connections _ rfl,
    @hbool "use_gitignore" config.network.useGitignore _ rfl,
    @hbool "avoid_vpn" config.network.avoidVpn _ rfl,
    @htext "manual_ip" config.network.manualIp rfl,
    @htext "bind_interface" config.network.bindInterface rfl,
    @htext "proxy_url" config.network.proxyUrl rfl]
  rfl

/-- What is written has a shape that reads back. -/
theorem plain_userConfigToJson (config : UserConfig) : Plain (userConfigToJson config) := by
  have htext : ∀ {text}, ∀ v ∈ textField text, Plain v := by
    intro text v hv
    unfold textField at hv
    split at hv
    · cases hv
    · cases hv
      exact .string _
  have hbool : ∀ {b}, ∀ v ∈ some (Value.bool b), Plain v := by
    intro b v hv
    cases hv
    exact .bool b
  have hint : ∀ {n : Int32}, ∀ v ∈ some (Value.number n.toInt), Plain v := by
    intro n v hv
    cases hv
    have hlow := n.le_toInt
    have hhigh := n.toInt_lt
    exact .number (by omega) (by omega)
  have hall : ∀ e ∈ configFields config, ∀ v ∈ e.2, Plain v := by
    simp only [configFields, List.forall_mem_cons]
    exact ⟨htext, htext, htext, htext, hint, hint, hbool, hbool, hbool, hbool, hbool, hbool, hbool,
      hint, hbool, hbool, htext, htext, htext, nofun⟩
  refine .object (KeyMap.isMap_nil.assignSome _) ?_
  intro f hf
  rcases KeyMap.mem_assignSome hf with hf | hf
  · exact hall _ hf f.2 rfl
  · cases hf

/-- The written configuration is loaded as it is. -/
theorem parseConfig_configText (lib : FileLibrary) (config : UserConfig) :
    parseConfig lib (configText lib config) = .ok config := by
  have hparse := lib.parse_line (.of_plain (plain_userConfigToJson config))
  rw [parseConfig, configText, lib.scan_parse hparse]
  exact userConfigFromJson_toJson lib config

end RoundTrip

end Settings
end Kiko
