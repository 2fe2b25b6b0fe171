import DataLink.Rlc.Queue
import DataLink.Header

/-!
# Cutting datagrams into segments

Queued datagrams are cut at any bit, so that they fill the room that a packet has left. `cut` takes
the datagrams in the order of service; each gets a message of its own, with a header of a given
width. A datagram is finished only when its last bit is taken, and then the next one follows in the
same packet as long as there is room. An empty datagram is sent as a header alone.
-/

namespace DataLink

/-- A datagram that waits to be sent, and how much of it has been sent. -/
structure Outgoing where
  datagram : Datagram
  sent : Nat
  sent_le : sent ≤ datagram.bits
deriving DecidableEq

namespace Outgoing

/-- A datagram of which nothing has been sent. -/
def fresh (datagram : Datagram) : Outgoing := ⟨datagram, 0, Nat.zero_le _⟩

/-- The bits that are still to be sent. -/
def left (o : Outgoing) : Nat := o.datagram.bits - o.sent

/-- The room that the next segment needs: its header, and a bit of the datagram if one is left. -/
def need (header : Nat) (o : Outgoing) : Nat := if o.left = 0 then header else header + 1

/-- The segment that fills `room` bits, or what is left if that is less. -/
def segment (room : Nat) (o : Outgoing) : Segment := ⟨o.datagram, o.sent, min o.left room⟩

/-- Which ends of the datagram that segment holds. -/
def fragment (room : Nat) (o : Outgoing) : Fragment := ⟨o.sent = 0, o.left ≤ room⟩

/-- The datagram after that segment was sent. -/
def advance (room : Nat) (o : Outgoing) : Outgoing where
  datagram := o.datagram
  sent := o.sent + min o.left room
  sent_le := by
    have := o.sent_le
    simp only [left]
    omega

end Outgoing

/-- Fills `room` bits with segments, each behind a header of `header` bits. The result is what was
cut and what stays queued. -/
def cut (header : Nat) (room : Nat) :
    List (Nat × Outgoing) → List (Fragment × Segment) × List (Nat × Outgoing)
  | [] => ([], [])
  | (priority, o) :: rest =>
    if room < o.need header then ([], (priority, o) :: rest)
    else
      let piece := (o.fragment (room - header), o.segment (room - header))
      if o.left ≤ room - header then
        let (pieces, queued) := cut header (room - header - o.left) rest
        (piece :: pieces, queued)
      else ([piece], (priority, o.advance (room - header)) :: rest)

end DataLink
