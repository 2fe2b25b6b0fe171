import DataLink.Word

/-!
# Payloads

A datagram is what the network layer sends; the link may carry it in several segments. A segment
only says which bits of the datagram it stands for, and holds the datagram whole: bytes are never
cut.
-/

namespace DataLink

/-- Bytes handed to the link for delivery. -/
structure Datagram where
  bytes : Array UInt8
deriving DecidableEq, Inhabited

/-- The length in bits, or the largest count where that does not fit. -/
def Datagram.bits (d : Datagram) : Nat := Word.clamp (8 * d.bytes.size)

/-- The bits `offset … offset + length` of a datagram. -/
structure Segment where
  datagram : Datagram
  offset : Nat
  length : Nat
deriving DecidableEq, Inhabited

/-- What a message carries behind its header. -/
inductive Payload where
  /-- A given number of bits that nobody looks at. -/
  | fixed (bits : Nat)
  /-- Part of a datagram. -/
  | segment (s : Segment)
  /-- Bytes of a kind that the link does not know. -/
  | foreign (bytes : Array UInt8)
deriving DecidableEq, Inhabited

namespace Payload

def bits : Payload → Nat
  | fixed n => n
  | segment s => s.length
  | foreign bytes => 8 * bytes.size

def segment? : Payload → Option Segment
  | segment s => some s
  | _ => none

end Payload

theorem Datagram.bits_le (d : Datagram) : d.bits ≤ Word.highest := Nat.min_le_right _ _

end DataLink
