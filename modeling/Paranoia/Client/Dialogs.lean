import Mathlib.Data.List.Sort
import Paranoia.Client.Incoming
import Paranoia.Lib.Decimal

/-!
# The dialogues of a profile

A dialogue is found by the server id of the peer, which may be missing, or else by its label, which
is what the rest of the client knows it by. Labels come from the user, from an import and from the
roster of a company; that of a new dialogue is changed until nobody has it.
-/

namespace Paranoia

structure DialogKeyEntry where
  startSeq : UInt64
  key : List UInt8
  /-- The server id that the key was obtained for; the program does not keep it. -/
  source : String
deriving DecidableEq

structure Dialog where
  peer : String
  peerServerId : String
  keyring : List DialogKeyEntry
  /-- The name that the user has given it. -/
  localName : String
deriving DecidableEq

namespace Dialogs

def labelTaken (dialogs : List Dialog) (candidate : String) : Bool :=
  dialogs.any (·.peer = candidate)

/-- By the server id, or by the label a dialogue that has no other server id. -/
def findTarget (dialogs : List Dialog) (peer peerServerId : String) : Option Nat :=
  match if peerServerId = "" then none else dialogs.findIdx? (·.peerServerId = peerServerId) with
  | some i => some i
  | none => dialogs.findIdx? fun d =>
      d.peer = peer ∧ (d.peerServerId = "" ∨ d.peerServerId = peerServerId)

def labelled (peer suffix : String) : String := peer ++ " (" ++ suffix ++ ")"

def numbered (peer : String) (n : Nat) : String := labelled peer (String.ofList (Decimal.numeral n))

/-- Of one more label than there are dialogues, one is free. -/
def nextLabel (dialogs : List Dialog) (peer : String) : Nat → Nat → String → String
  | 0, _, label => label
  | k + 1, n, label =>
      if labelTaken dialogs label then nextLabel dialogs peer k (n + 1) (numbered peer n) else label

def newLabel (dialogs : List Dialog) (peer peerServerId : String) : String :=
  if labelTaken dialogs peer then
    let suffix := String.ofList (peerServerId.toList.take 6)
    let label := if suffix = "" then peer else labelled peer suffix
    nextLabel dialogs peer (dialogs.length + 2) 2 label
  else peer

/-- A new dialogue with one key. -/
def opened (dialogs : List Dialog) (peer peerServerId : String) (entry : DialogKeyEntry) :
    List Dialog :=
  dialogs ++ [⟨newLabel dialogs peer peerServerId, peerServerId, [entry], ""⟩]

def sorted (keyring : List DialogKeyEntry) : List DialogKeyEntry :=
  keyring.insertionSort (fun a b => a.startSeq ≤ b.startSeq)

/-! ## Keys -/

/-- The first entry that starts where this one does has its key. -/
def replaceKey (entry : DialogKeyEntry) : List DialogKeyEntry → Option (List DialogKeyEntry)
  | [] => none
  | e :: keyring =>
      if e.startSeq = entry.startSeq then some (entry :: keyring)
      else (replaceKey entry keyring).map (e :: ·)

def bind (d : Dialog) (peerServerId : String) : Dialog :=
  if peerServerId = "" then d else { d with peerServerId := peerServerId }

/-- A key of a key exchange, or of a company. -/
def upsertDialogKeyringEntry (dialogs : List Dialog) (peer peerServerId : String)
    (sessionKey : List UInt8) (startSeq : UInt64) (resetKeyring : Bool) : List Dialog :=
  if peer = "" ∨ sessionKey.length ≠ 32 ∨ startSeq = 0 then dialogs
  else
    let entry : DialogKeyEntry := ⟨startSeq, sessionKey, peerServerId⟩
    match findTarget dialogs peer peerServerId with
    | some i => dialogs.modify i fun d =>
        let keyring := if resetKeyring then [] else d.keyring
        let keyring := (replaceKey entry keyring).getD (keyring ++ [entry])
        { bind d peerServerId with keyring := sorted keyring }
    | none => opened dialogs peer peerServerId entry

/-- A key of an import; one that is there already stays. -/
def mergeKeyringEntry (dialogs : List Dialog) (peer peerServerId : String) (key : List UInt8)
    (startSeq : UInt64) : List Dialog :=
  let entry : DialogKeyEntry := ⟨startSeq, key, peerServerId⟩
  match findTarget dialogs peer peerServerId with
  | some i => dialogs.modify i fun d =>
      let bound := if d.peerServerId = "" then bind d peerServerId else d
      if d.keyring.any (·.startSeq = startSeq) then bound
      else { bound with keyring := sorted (d.keyring ++ [entry]) }
  | none => opened dialogs peer peerServerId entry

/-! ## The roster -/

def trimmed (s : String) : String :=
  String.ofList (((s.toList.dropWhile Client.isWhitespace).reverse.dropWhile
    Client.isWhitespace).reverse)

/-- Of two entries for a user the later one counts. -/
def fullName (roster : List (String × String)) (username : String) : String :=
  ((roster.reverse.find? (·.1 = username)).map Prod.snd).getD ""

/-- A name that the user has given stays, and so does one whose new label is taken. -/
def renamed (roster : List (String × String)) (others : List Dialog) (d : Dialog) : Dialog :=
  let fn := fullName roster d.peerServerId
  if d.peerServerId = "" ∨ fn = "" ∨ d.peer = fn then d
  else if d.localName ≠ "" then d
  else if labelTaken others fn then d
  else { d with peer := fn }

def renameFrom (roster : List (String × String)) : List Dialog → List Dialog → List Dialog
  | before, [] => before
  | before, d :: rest => renameFrom roster (before ++ [renamed roster (before ++ rest) d]) rest

def applyCorporateRosterNames (dialogs : List Dialog) (roster : List (String × String)) :
    List Dialog :=
  let names := (roster.map fun r => (r.1, trimmed r.2)).filter fun r => r.1 ≠ "" ∧ r.2 ≠ ""
  renameFrom names [] dialogs

structure CorporateKey where
  partner : String
  key : List UInt8
  startSeq : UInt64
deriving DecidableEq

/-- The label under which a key of the company is put: the one that there is, or the full name. -/
def corporatePeer (dialogs : List Dialog) (roster : List (String × String)) (partner : String) :
    String :=
  let peer := ((dialogs.find? (·.peerServerId = partner)).map Dialog.peer).getD ""
  let peer := if peer = "" then trimmed (fullName roster partner) else peer
  if peer = "" then partner else peer

def putCorporateKey (roster : List (String × String)) (dialogs : List Dialog) (e : CorporateKey) :
    List Dialog :=
  if e.partner = "" ∨ e.key.length ≠ 32 ∨ e.startSeq = 0 then dialogs
  else upsertDialogKeyringEntry dialogs (corporatePeer dialogs roster e.partner) e.partner e.key
    e.startSeq false

def applyCorporateKeyring (dialogs : List Dialog) (roster : List (String × String))
    (keyring : List CorporateKey) : List Dialog :=
  keyring.foldl (putCorporateKey roster) (applyCorporateRosterNames dialogs roster)

/-! ## The rest -/

def removeDialog (dialogs : List Dialog) (peer : String) : List Dialog :=
  dialogs.filter (·.peer ≠ peer)

def selfLabel : String := "Избранное"

/-- A login adds the dialogue with oneself if none has its label. -/
def login (dialogs : List Dialog) (serverId : String) (derived : List UInt8) : List Dialog :=
  if serverId = "" ∨ labelTaken dialogs selfLabel then dialogs
  else dialogs ++ [⟨selfLabel, serverId, [⟨1, derived.take 32, serverId⟩], ""⟩]

end Dialogs

inductive DialogsOp where
  | upsert (peer peerServerId : String) (sessionKey : List UInt8) (startSeq : UInt64)
      (resetKeyring : Bool)
  | merge (peer peerServerId : String) (key : List UInt8) (startSeq : UInt64)
  | rosterNames (roster : List (String × String))
  | corporateKeyring (roster : List (String × String)) (keyring : List Dialogs.CorporateKey)
  | remove (peer : String)
  | login (serverId : String) (derived : List UInt8)

namespace Dialogs

def step (dialogs : List Dialog) : DialogsOp → Option (List Dialog)
  | .upsert peer peerServerId sessionKey startSeq resetKeyring =>
      some (upsertDialogKeyringEntry dialogs peer peerServerId sessionKey startSeq resetKeyring)
  | .merge peer peerServerId key startSeq =>
      some (mergeKeyringEntry dialogs peer peerServerId key startSeq)
  | .rosterNames roster => some (applyCorporateRosterNames dialogs roster)
  | .corporateKeyring roster keyring => some (applyCorporateKeyring dialogs roster keyring)
  | .remove peer => some (removeDialog dialogs peer)
  | .login serverId derived => some (login dialogs serverId derived)

end Dialogs

end Paranoia
