import Paranoia.Client.DialogStore
import Paranoia.Client.KeyRotation
import Paranoia.Lib.Double

/-!
# Keyrings as JSON

The keyring of a dialogue is written as JSON for the library, for `dialogs.json` and for an export,
each number as a double and each key in base64. The library reads the numbers as `u64`; the client
reads those of its file and of an import by way of a `QVariant`.
-/

namespace Paranoia

/-- What Qt makes of numbers in JSON. An integral double is printed as an integer below 2^63; how a
greater one is printed and read is left open, but that it is read in the order of the doubles. -/
structure QtJson where
  print : Nat → List Char
  /-- The text of a number, parsed and as a `qulonglong`. -/
  toULongLong : List Char → Option Nat
  print_below : ∀ d < 2 ^ 63, print d = Decimal.numeral d
  toULongLong_below : ∀ n < 2 ^ 63, toULongLong (Decimal.numeral n) = some n
  toULongLong_lt : ∀ text n, toULongLong text = some n → n < u64Size
  toULongLong_mono : ∀ d d' n n', d ≤ d' → toULongLong (print d) = some n →
    toULongLong (print d') = some n' → n ≤ n'
  read_mono : ∀ d d' n n', d ≤ d' → Decimal.read? (print d) = some n →
    Decimal.read? (print d') = some n' → n ≤ n'

/-- Base64 in Qt, leniently and strictly, and in the library. -/
structure Base64 where
  toBase64 : List UInt8 → List Char
  fromBase64 : List Char → List UInt8
  decodeStrict : List Char → Option (List UInt8)
  decode : List Char → Option (List UInt8)
  fromBase64_toBase64 : ∀ bytes, fromBase64 (toBase64 bytes) = bytes
  decodeStrict_toBase64 : ∀ bytes, decodeStrict (toBase64 bytes) = some bytes
  decode_toBase64 : ∀ bytes, decode (toBase64 bytes) = some bytes

abbrev KeyEntry := DialogueKeyEntry (List UInt8)

/-- An entry in the text: the number and the key as they are written. -/
structure KeyringItem where
  startSeq : List Char
  key : List Char
deriving DecidableEq

namespace KeyringJson

variable (qt : QtJson) (b64 : Base64)

/-! ## Writing -/

/-- The loop over the entries. -/
def items (keyring : List KeyEntry) : List KeyringItem :=
  (keyring.filter fun entry => entry.key.length = 32 ∧ entry.startSeq ≠ 0).map fun entry =>
    ⟨qt.print (Double.ofNat entry.startSeq), b64.toBase64 entry.key⟩

/-- For the library. -/
def keyringJson (keyring : List KeyEntry) : List KeyringItem := items qt b64 keyring

/-- For `dialogs.json`. -/
def saveToPath (keyring : List KeyEntry) : List KeyringItem := items qt b64 keyring

structure ExportedDialogue where
  peer : String
  peerServerId : String
  keyring : List KeyringItem
deriving DecidableEq

/-- For an export of this dialogue. One without keys is not exported. -/
def exportProfile (peer peerServerId : String) (keyring : List KeyEntry) : Option ExportedDialogue :=
  if keyring = [] then none
  else
    let keyringArr := items qt b64 keyring
    if keyringArr = [] then none else some ⟨peer, peerServerId, keyringArr⟩

/-! ## Reading -/

/-- A `u64` of serde: an integer literal below 2^64. -/
def readU64 (text : List Char) : Option Nat := (Decimal.read? text).filter (· < u64Size)

def rawEntry (item : KeyringItem) : Option KeyEntry :=
  (readU64 item.startSeq).bind fun startSeq =>
    if startSeq = 0 then none
    else (b64.decode item.key).bind fun key =>
      if key.length = 32 then some ⟨startSeq, key⟩ else none

def dialogueConfigFromKeyringStr (keyring : List KeyringItem) : Option (List KeyEntry) :=
  (keyring.mapM (rawEntry b64)).bind normalizeKeyring

def readSeq (text : List Char) : Option Nat := (qt.toULongLong text).filter (0 < ·)

def loadedEntry (item : KeyringItem) : Option KeyEntry :=
  (readSeq qt item.startSeq).bind fun startSeq =>
    let key := b64.fromBase64 item.key
    if key.length = 32 then some ⟨startSeq, key⟩ else none

def loadFromPath (keyring : List KeyringItem) : List KeyEntry :=
  sortEntries (keyring.filterMap (loadedEntry qt b64))

def maxImportKeyEntries : Nat := 8192

def importedKey (d : ExportedDialogue) (item : KeyringItem) : Option Dialogs.ImportedKey :=
  (readSeq qt item.startSeq).bind fun startSeq =>
    (b64.decodeStrict item.key).bind fun key =>
      if key.length = 32 then some ⟨d.peer, d.peerServerId, key, UInt64.ofNat startSeq⟩ else none

/-- An import into a client without dialogues, of an export of this one. `none` for an error. -/
def applyImportedPayload (d : ExportedDialogue) : Option (List Dialog) :=
  if d.peer = "" then some []
  else if d.keyring = [] then some []
  else if maxImportKeyEntries < d.keyring.length then none
  else some (Dialogs.importKeys [] (d.keyring.filterMap (importedKey qt b64 d)))

/-- The entries of a dialogue of the client. -/
def entries (d : Dialog) : List KeyEntry := d.keyring.map fun e => ⟨e.startSeq.toNat, e.key⟩

/-- All three ways give back the entries of the keyring. -/
structure Survives (peer peerServerId : String) (keyring : List KeyEntry) : Prop where
  library : dialogueConfigFromKeyringStr b64 (keyringJson qt b64 keyring)
    = some (sortEntries keyring)
  file : loadFromPath qt b64 (saveToPath qt b64 keyring) = sortEntries keyring
  imported : ∃ d, (exportProfile qt b64 peer peerServerId keyring).bind (applyImportedPayload qt b64)
    = some [d] ∧ d.peer = peer ∧ d.peerServerId = peerServerId ∧ entries d = sortEntries keyring

/-- What is written for the number is read as it, by the library and by the client. -/
def Kept (n : Nat) : Prop :=
  readU64 (qt.print (Double.ofNat n)) = some n ∧ qt.toULongLong (qt.print (Double.ofNat n)) = some n

end KeyringJson

end Paranoia
