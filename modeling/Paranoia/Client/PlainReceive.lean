import Paranoia.Client.Receive

/-!
# Receiving packet by packet

What `receive` is for, without pages, runs and batches: a pass over the live packets in ascending
order, that leaves out what is not above the cursor, and with it the bodies that headers announce.
-/

namespace Paranoia

variable {κ π : Type}

/-- What a pass has come to. -/
structure PassState where
  cursor : Nat
  messages : List Message
  decryptErrors : List Nat
deriving DecidableEq

/-- What a running `receive` has come to. -/
def Receive.passed (r : Receive π) : PassState := ⟨r.cursor, r.messages, r.decryptErrors⟩

namespace Client

variable [Aead κ π]

/-- Process one packet, and move the cursor over it and over the body it announces. -/
def passPacket (c : Client κ) (now : Int) (st : LocalStore) (p : PassState) (pkt : RawPacket π) :
    LocalStore × Except Fault PassState :=
  match c.decryptPacket pkt.seq pkt.payload with
  | none =>
      (st.setLastPulledSeq c.key pkt.seq,
        .ok { p with cursor := pkt.seq, decryptErrors := p.decryptErrors ++ [pkt.seq] })
  | some inner =>
      match Receive.advanceTo pkt.seq inner.content with
      | none => (st, .error (.error "file range overflow"))
      | some (target, _) =>
          match if inner.sender = c.username then st.getMessageBySeq c.key pkt.seq else none with
          | some id =>
              let st := (st.updateStatus id .delivered).setLastPulledSeq c.key target
              (st, .ok { p with
                cursor := target, messages := p.messages ++ (st.getMessageById c.key id).toList })
          | none =>
              match c.processIncoming now st inner pkt.seq with
              | (st, .error e) => (st, .error e)
              | (st, .ok msg) =>
                  (st.setLastPulledSeq c.key target,
                    .ok { p with cursor := target, messages := p.messages ++ msg.toList })

def passPackets (c : Client κ) (now : Int) :
    LocalStore → PassState → List (RawPacket π) → LocalStore × Except Fault PassState
  | st, p, [] => (st, .ok p)
  | st, p, pkt :: pkts =>
      if pkt.seq ≤ p.cursor then passPackets c now st p pkts
      else match c.passPacket now st p pkt with
        | (st, .error e) => (st, .error e)
        | (st, .ok p) => passPackets c now st p pkts

omit [Aead κ π] in
/-- The cursor goes over what is left, and local messages go that are no longer live; there is no
number `0`. -/
def passEnd (c : Client κ) (ps : PacketStore π) (st : LocalStore) (p : PassState) :
    LocalStore × PassState :=
  let st := if p.cursor < ps.lastSeq c.key then st.setLastPulledSeq c.key (ps.lastSeq c.key) else st
  (st.deleteMessagesBySeqs c.key
      ((st.getDeliveredServerSeqs c.key).filter (fun s => ¬ (s ∈ ps.live c.key ∧ 0 < s))),
    { p with cursor := max p.cursor (ps.lastSeq c.key) })

/-- The whole pass. -/
def plainReceive (c : Client κ) (now : Int) (ps : PacketStore π) (st : LocalStore) :
    LocalStore × Except Fault PassState :=
  match c.passPackets now st ⟨st.getLastPulledSeq c.key, [], []⟩ (ps.packets c.key) with
  | (st, .error e) => (st, .error e)
  | (st, .ok p) => ((c.passEnd ps st p).1, .ok (c.passEnd ps st p).2)

end Client

end Paranoia
