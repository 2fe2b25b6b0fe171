import DataLink.Call
import DataLink.Table

/-!
# Links

What the ARQ keeps for each peer. On the sending side that is the next number to give out, the
frames that are not acknowledged yet, and the numbers of those that the peer misses. On the
receiving side it is the next number expected, the frames that arrived early, and whether the peer
is owed an acknowledgement.
-/

namespace DataLink

/-- A frame that may have to be sent again. -/
structure SentFrame where
  seq : SequenceNumber
  packet : Packet
  /-- The slot from which on it is sent again unasked. -/
  resendAt : Nat
deriving DecidableEq

/-- The state of the link to one peer. -/
structure Link where
  nextSeq : SequenceNumber
  /-- Frames that were sent and not acknowledged, oldest first. -/
  unacked : List SentFrame
  /-- The numbers of the frames to send again, in the order in which they were asked for. -/
  retransmit : List SequenceNumber
  nextExpected : SequenceNumber
  /-- Frames that arrived ahead of one that is missing. -/
  early : Table SequenceNumber Packet
  isAckPending : Bool
deriving DecidableEq

namespace Link

/-- A link on which nothing was sent or received. -/
def fresh : Link := ⟨.first, [], [], .first, .empty, false⟩

instance : Inhabited Link := ⟨fresh⟩

/-! ## Receive state -/

/-- How far ahead the farthest early frame is. -/
def farthest? (l : Link) : Option Nat :=
  (l.early.keys.filterMap l.nextExpected.distance?).max?

/-- The numbers that are missing before the farthest early frame. -/
def missing (l : Link) (window : Nat) : List SequenceNumber :=
  match l.farthest? with
  | none => []
  | some far =>
    ((List.range (min far window)).map l.nextExpected.forward).filter fun s => !l.early.contains s

/-- The missing numbers, as far as a header has a place for them. -/
def rejects (l : Link) (window : Nat) : RejectMap := .ofMissing l.nextExpected (l.missing window)

/-- Writes a frame's number and the receive state into a header. -/
def stamp (l : Link) (seq : SequenceNumber) (window : Nat) (h : UnicastHeader) : UnicastHeader :=
  { h with useArq := true, seq, nextExpected := l.nextExpected, rejects := l.rejects window }

/-- Takes out the early frames that come next, at most `count` of them. -/
def releaseUpTo : Nat → Link → List Packet × Link
  | 0, l => ([], l)
  | count + 1, l =>
    match l.early.get? l.nextExpected with
    | none => ([], l)
    | some packet =>
      let (packets, after) := releaseUpTo count
        { l with early := l.early.erase l.nextExpected, nextExpected := l.nextExpected.next }
      (packet :: packets, after)

/-- Takes out the early frames that come next. -/
def release (l : Link) : List Packet × Link := releaseUpTo l.early.size l

/-- Takes in a numbered frame. The result is what can be handed up, in order: nothing if a frame
before it is missing, or if it was received before. -/
def accept (l : Link) (seq : SequenceNumber) (packet : Packet) (window : Nat) :
    List Packet × Link :=
  if seq = l.nextExpected then
    let (packets, after) := release { l with nextExpected := l.nextExpected.next }
    (packet :: packets, after)
  else if seq.isAheadOf l.nextExpected window then
    ([], { l with early := l.early.insert seq packet })
  else ([], l)

/-! ## Send state -/

def isUnacked (l : Link) (seq : SequenceNumber) : Bool := l.unacked.any fun f => f.seq = seq

/-- Schedules a frame to be sent again, unless it is acknowledged or scheduled already. -/
def schedule (l : Link) (seq : SequenceNumber) : Link :=
  if l.isUnacked seq && !l.retransmit.contains seq then
    { l with retransmit := l.retransmit ++ [seq] }
  else l

/-- Drops the frames that come before the number the peer expects next. -/
def acknowledge (l : Link) (nextExpected : SequenceNumber) (window : Nat) : Link :=
  let unacked := l.unacked.filter fun f => !f.seq.isBehind nextExpected window
  let kept : Link := { l with unacked }
  { kept with retransmit := l.retransmit.filter kept.isUnacked }

/-- Takes in what the peer says it has received. -/
def onAck (l : Link) (nextExpected : SequenceNumber) (rejects : RejectMap) (window : Nat) : Link :=
  (rejects.missing nextExpected).foldl schedule (l.acknowledge nextExpected window)

/-- As many frames are unacknowledged as may be. -/
def isFull (l : Link) (window : Nat) : Bool := window ≤ l.unacked.length

/-- The oldest frame whose time to be sent again has come. -/
def firstDue? (l : Link) (slot : Nat) : Option SequenceNumber :=
  (l.unacked.find? fun f => f.resendAt ≤ slot).map SentFrame.seq

/-- The frame to send again before anything new: one that the peer misses, else the oldest one of a
full window, else one whose time has come. -/
def nextToResend? (l : Link) (window slot : Nat) : Option SequenceNumber :=
  match l.retransmit with
  | seq :: _ => some seq
  | [] => if l.isFull window then l.unacked.head?.map SentFrame.seq else l.firstDue? slot

/-- Moves the slot from which on the frame with a given number is sent again. -/
def postpone (seq : SequenceNumber) (resendAt : Nat) : List SentFrame → List SentFrame
  | [] => []
  | f :: rest =>
    if f.seq = seq then { f with resendAt } :: rest else f :: postpone seq resendAt rest

/-- Sends a frame again, if there is one to send and it has at most `bits` bits. -/
def resend (l : Link) (window slot resendAt bits : Nat) : Except Fault (Option (Packet × Link)) :=
  match l.nextToResend? window slot with
  | none => .ok none
  | some seq =>
    match l.unacked.find? fun f => f.seq = seq with
    | none => .ok none
    | some frame => do
      if bits < (← frame.packet.bits) then return none
      else
        let after : Link := { l with
          unacked := postpone seq resendAt l.unacked
          retransmit := l.retransmit.filter fun s => s ≠ seq
          isAckPending := false }
        return some (frame.packet.copy.mapUnicast (l.stamp seq window), after)

/-- Gives the next number to a new frame and keeps a copy of it. -/
def send (l : Link) (packet : Packet) (window resendAt : Nat) : Packet × Link :=
  let numbered := packet.mapUnicast (l.stamp l.nextSeq window)
  (numbered, { l with
    nextSeq := l.nextSeq.next
    unacked := l.unacked ++ [⟨l.nextSeq, numbered.copy, resendAt⟩]
    isAckPending := false })

/-- The header that only acknowledges. -/
def ackHeader (l : Link) (dest : Address) (window : Nat) : Except HeaderError UnicastHeader :=
  (UnicastHeader.to? dest).map (l.stamp .unset window)

/-- The link has something to send by itself: an acknowledgement, or a frame again. -/
def isOwing (l : Link) (window slot : Nat) : Bool :=
  l.isAckPending || !l.retransmit.isEmpty || l.isFull window || (l.firstDue? slot).isSome

end Link

end DataLink
