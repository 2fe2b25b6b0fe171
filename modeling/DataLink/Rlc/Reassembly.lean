import DataLink.Call
import DataLink.Table

/-!
# Reassembly

A receiver puts the segments of each sender and channel together on their own. It takes the
datagram from the segment with the start flag and checks every segment for continuing where the one
before it ended; anything else ends the attempt. The datagram is complete at the end flag, if the
segments add up to its length.
-/

namespace DataLink

/-- A datagram of which some bits have been received. -/
structure Partial where
  datagram : Datagram
  received : Nat
deriving DecidableEq

/-- Who sent a segment, and on which channel: a station's address, or the broadcast channel. -/
structure Stream where
  origin : Address
  channel : Address
deriving DecidableEq, Repr

namespace Partial

/-- Takes one segment into what a stream has so far. The result is the datagram it completes, if
any, and what the stream has then. -/
def extend (before : Option Partial) (fragment : Fragment) (segment : Segment) :
    Except Fault (Option Datagram × Option Partial) :=
  match if fragment.start then some ⟨segment.datagram, 0⟩ else before with
  | none => .ok (none, none)
  | some p =>
    if p.received ≠ segment.offset then .ok (none, none)
    else do
      let received ← checkedSum p.received segment.length
      if fragment.finish then
        return (if received = p.datagram.bits then some p.datagram else none, none)
      else return (none, some { p with received })

end Partial

/-- The channel and flags of a message that carries a segment, as its header has them. Beacons and
ranging headers carry no segments. -/
def Header.channel? : Header → Option (Address × Fragment)
  | .broadcast fragment => some (.broadcast, fragment)
  | h => h.unicast?.map fun u => (u.dest, u.fragment)

/-- The segment of a message, with its channel and flags. -/
def Message.segment? (m : Message) : Option (Address × Fragment × Segment) := do
  let segment ← (← m.payload).segment?
  let (channel, fragment) ← (← m.header).channel?
  return (channel, fragment, segment)

/-- What each stream has so far. -/
abbrev Reassembly := Table Stream Partial

namespace Reassembly

/-- Takes in the segments of one sender, in order, and lists the datagrams they complete. -/
def absorb (origin : Address) :
    List (Address × Fragment × Segment) → Reassembly → Except Fault (List Datagram × Reassembly)
  | [], streams => .ok ([], streams)
  | (channel, fragment, segment) :: rest, streams => do
    let stream : Stream := ⟨origin, channel⟩
    let (complete, after) ← Partial.extend (streams.get? stream) fragment segment
    let (others, streams) ← absorb origin rest (streams.set stream after)
    return (complete.toList ++ others, streams)

end Reassembly

end DataLink
