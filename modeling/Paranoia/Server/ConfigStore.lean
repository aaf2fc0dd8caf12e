import Paranoia.Lib.Decimal
import Paranoia.Lib.Json
import Paranoia.Lib.Lts

/-!
# The configuration and its file

Registering a user, deleting one and changing the settings of the server each change the
configuration in memory under its lock, and write it to its file without it. A deletion and a change
of settings make the text of the file while they still have the lock, a registration takes the lock
once more to do so. Writing opens the file, which empties it, and then puts the text at its start.
Only requests that have been verified are here; the others change nothing. What was changed is also
kept in the order it was changed in.
-/

namespace Paranoia

/-- What the server is configured with. A map of users is a list of its entries in the order it is
run through. -/
structure ServerConfig where
  port : Nat
  storePath : String
  adminKey : String
  extendedAdminKey : String
  users : List (String × String)
  stunBind : Option String
  turnPublicIp : Option String
  turnRelayPortRange : Option String
  maskingProfilePath : Option String
  nginxConfigPath : Option String
  nginxReloadCommand : Option String
  maxHistoryFileSize : Nat
  largeFileMax : Nat
  ephemeralRetentionSecs : Nat
  notifyLongPollMaxMs : Nat
deriving DecidableEq

namespace ServerConfig

def default : ServerConfig where
  port := 1455
  storePath := "store"
  adminKey := ""
  extendedAdminKey := ""
  users := []
  stunBind := some "0.0.0.0:3478"
  turnPublicIp := none
  turnRelayPortRange := none
  maskingProfilePath := none
  nginxConfigPath := none
  nginxReloadCommand := none
  maxHistoryFileSize := 20 * 1024 * 1024
  largeFileMax := 2 * 1024 * 1024 * 1024
  ephemeralRetentionSecs := 24 * 60 * 60
  notifyLongPollMaxMs := 25000

/-! ## Its text -/

def hexDigit (n : Nat) : Char := Nat.digitChar n

/-- A character in a text of JSON. -/
def escape (c : Char) : List Char :=
  if 32 ≤ c.toNat ∧ c ≠ '\x22' ∧ c ≠ '\\' then [c]
  else if c = '\x22' then ['\\', '\x22']
  else if c = '\\' then ['\\', '\\']
  else if c = '\x08' then ['\\', 'b']
  else if c = '\x09' then ['\\', 't']
  else if c = '\x0a' then ['\\', 'n']
  else if c = '\x0c' then ['\\', 'f']
  else if c = '\x0d' then ['\\', 'r']
  else ['\\', 'u', '0', '0', hexDigit (c.toNat / 16), hexDigit (c.toNat % 16)]

def quoted (s : String) : List Char := ['\x22'] ++ s.toList.flatMap escape ++ ['\x22']

def nullable : Option String → List Char
  | some s => quoted s
  | none => "null".toList

/-- An object, its fields indented by `indent` blanks. -/
def object (indent : Nat) (fields : List (String × List Char)) : List Char :=
  match fields with
  | [] => ['\x7b', '\x7d']
  | _ =>
      ['\x7b', '\x0a']
        ++ [',', '\x0a'].intercalate
          (fields.map (fun f => List.replicate indent ' ' ++ quoted f.1 ++ [':', ' '] ++ f.2))
        ++ ['\x0a'] ++ List.replicate (indent - 2) ' ' ++ ['\x7d']

def toPrettyJson (cfg : ServerConfig) : List Char :=
  object 2 [
    ("port", Decimal.numeral cfg.port),
    ("store_path", quoted cfg.storePath),
    ("admin_key", quoted cfg.adminKey),
    ("extended_admin_key", quoted cfg.extendedAdminKey),
    ("users", object 4 (cfg.users.map (fun u => (u.1, quoted u.2)))),
    ("stun_bind", nullable cfg.stunBind),
    ("turn_public_ip", nullable cfg.turnPublicIp),
    ("turn_relay_port_range", nullable cfg.turnRelayPortRange),
    ("masking_profile_path", nullable cfg.maskingProfilePath),
    ("nginx_config_path", nullable cfg.nginxConfigPath),
    ("nginx_reload_command", nullable cfg.nginxReloadCommand),
    ("max_history_file_size", Decimal.numeral cfg.maxHistoryFileSize),
    ("large_file_max", Decimal.numeral cfg.largeFileMax),
    ("ephemeral_retention_secs", Decimal.numeral cfg.ephemeralRetentionSecs),
    ("notify_long_poll_max_ms", Decimal.numeral cfg.notifyLongPollMaxMs)]

/-! ## Changes -/

def containsKey (cfg : ServerConfig) (username : String) : Bool :=
  cfg.users.any (·.1 = username)

def reg (cfg : ServerConfig) (username pubKey : String) : Except String ServerConfig :=
  if cfg.containsKey username then .error "User already exists"
  else .ok { cfg with users := cfg.users ++ [(username, pubKey)] }

def delete (cfg : ServerConfig) (username : String) : Except String ServerConfig :=
  if !cfg.containsKey username then .error "user_not_found"
  else .ok { cfg with users := cfg.users.filter (·.1 ≠ username) }

/-- The characters that count as blank. -/
def isBlank (c : Char) : Bool :=
  let n := c.toNat
  (9 ≤ n && n ≤ 13) || n = 0x20 || n = 0x85 || n = 0xa0 || n = 0x1680 || (0x2000 ≤ n && n ≤ 0x200a)
    || n = 0x2028 || n = 0x2029 || n = 0x202f || n = 0x205f || n = 0x3000

def stringOrNull : Json → Option String
  | .str s => if s.toList.all isBlank then none else some s
  | _ => none

/-- A number that is an unsigned integer of 64 bits. -/
def asU64 : Json → Option Nat
  | .num text => (Decimal.read? text.toList).filter (· < 2 ^ 64)
  | _ => none

/-- A field of the patch that is there replaces what was. -/
def patched (patch : List (String × Json)) (key : String) (old : Option String) : Option String :=
  match Json.lookup key patch with
  | some v => stringOrNull v
  | none => old

def set (cfg : ServerConfig) (patch : List (String × Json)) : Except String ServerConfig :=
  let port := match Json.lookup "port" patch with
    | some v => (asU64 v).filter (fun p => 1 ≤ p ∧ p ≤ 65535)
    | none => some cfg.port
  match port with
  | none => .error "invalid_port"
  | some port =>
      .ok { cfg with
        port := port
        stunBind := patched patch "stun_bind" cfg.stunBind
        turnPublicIp := patched patch "turn_public_ip" cfg.turnPublicIp
        turnRelayPortRange := patched patch "turn_relay_port_range" cfg.turnRelayPortRange }

end ServerConfig

inductive ConfigChange where
  | reg (username pubKey : String)
  | delete (username : String)
  | set (patch : List (String × Json))

def ConfigChange.apply (cfg : ServerConfig) : ConfigChange → Except String ServerConfig
  | .reg username pubKey => cfg.reg username pubKey
  | .delete username => cfg.delete username
  | .set patch => cfg.set patch

/-! ## Handlers -/

/-- Where a handler is; `write` has the text, `put` has emptied the file. -/
inductive ConfigPoint where
  | change
  | serialize
  | write (data : List Char)
  | put (data : List Char)
  | answered (success : Bool) (message : String)
deriving DecidableEq

structure ConfigTask where
  change : ConfigChange
  point : ConfigPoint

structure ConfigWorld where
  memory : ServerConfig
  file : List Char
  tasks : List ConfigTask
  /-- The requests that have changed the configuration, in order. -/
  applied : List Nat

inductive ConfigLabel where
  | request (change : ConfigChange)
  | run (i : Nat)
  /-- The file cannot be written, after that many characters of it if it could be opened. -/
  | writeError (i : Nat) (written : Nat)

namespace ConfigWorld

def init (memory : ServerConfig) (file : List Char) : ConfigWorld := ⟨memory, file, [], []⟩

def setTask (w : ConfigWorld) (i : Nat) (t : ConfigTask) (point : ConfigPoint) : ConfigWorld :=
  { w with tasks := w.tasks.set i { t with point := point } }

/-- What a handler does next once it has changed the configuration. -/
def afterChange (cfg : ServerConfig) : ConfigChange → ConfigPoint
  | .reg _ _ => .serialize
  | _ => .write cfg.toPrettyJson

/-- Put characters at the start of a file. -/
def overwrite (file data : List Char) : List Char := data ++ file.drop data.length

def stepTask (w : ConfigWorld) (i : Nat) (t : ConfigTask) : Option ConfigWorld :=
  match t.point with
  | .change =>
      match t.change.apply w.memory with
      | .error message => some (w.setTask i t (.answered false message))
      | .ok cfg =>
          some ({ w with memory := cfg, applied := w.applied ++ [i] }.setTask i t
            (afterChange cfg t.change))
  | .serialize => some (w.setTask i t (.write w.memory.toPrettyJson))
  | .write data => some ({ w with file := [] }.setTask i t (.put data))
  | .put data =>
      some ({ w with file := overwrite w.file data }.setTask i t (.answered true "OK"))
  | .answered _ _ => none

/-- A registration only logs that its change could not be saved. -/
def afterError : ConfigChange → ConfigPoint
  | .reg _ _ => .answered true "OK"
  | _ => .answered false "config_save_failed"

def errorTask (w : ConfigWorld) (i : Nat) (t : ConfigTask) (written : Nat) : Option ConfigWorld :=
  match t.point with
  | .write _ => some (w.setTask i t (afterError t.change))
  | .put data =>
      some ({ w with file := overwrite w.file (data.take written) }.setTask i t
        (afterError t.change))
  | _ => none

def step (w : ConfigWorld) : ConfigLabel → Option ConfigWorld
  | .request change => some { w with tasks := w.tasks ++ [⟨change, .change⟩] }
  | .run i => (w.tasks[i]?).bind (fun t => w.stepTask i t)
  | .writeError i written => (w.tasks[i]?).bind (fun t => w.errorTask i t written)

end ConfigWorld

end Paranoia
