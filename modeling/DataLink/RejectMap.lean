import DataLink.Sequence

/-!
# Reject maps

A reject map names up to sixteen missing sequence numbers relative to an *anchor*, the next number
the receiver expects. Bit `i` stands for the number `i` steps ahead of the anchor, so a map only
means something together with its anchor, and numbers farther ahead have no place in it.
-/

namespace DataLink

/-- Sixteen bits, one for each number from the anchor on. -/
structure RejectMap where
  bits : BitVec 16
deriving DecidableEq

namespace RejectMap

/-- How many numbers a map can name. -/
def width : Nat := 16

def empty : RejectMap := ⟨0#16⟩

instance : Inhabited RejectMap := ⟨empty⟩

instance : Repr RejectMap := ⟨fun m _ => repr m.bits.toNat⟩

/-- The bit that stands for `s`, if one does. -/
def slot? (anchor s : SequenceNumber) : Option Nat :=
  match anchor.distance? s with
  | some d => if d < width then some d else none
  | none => none

/-- Names `s` as missing; the answer says whether there was a place for it. -/
def reject (m : RejectMap) (anchor s : SequenceNumber) : RejectMap × Bool :=
  match slot? anchor s with
  | some i => (⟨m.bits ||| BitVec.twoPow 16 i⟩, true)
  | none => (m, false)

/-- `s` is named as missing. -/
def isRejected (m : RejectMap) (anchor s : SequenceNumber) : Bool :=
  match slot? anchor s with
  | some i => m.bits.getLsbD i
  | none => false

/-- The map that names those of the given numbers it has a place for. -/
def ofMissing (anchor : SequenceNumber) (missing : List SequenceNumber) : RejectMap :=
  missing.foldl (fun m s => (m.reject anchor s).1) empty

/-- The bits that are set, in ascending order. -/
def slots (m : RejectMap) : List Nat := (List.range width).filter fun i => m.bits.getLsbD i

/-- The numbers a map names, nearest to the anchor first. -/
def missing (m : RejectMap) (anchor : SequenceNumber) : List SequenceNumber :=
  m.slots.map anchor.forward

/-- How many numbers a map names. -/
def size (m : RejectMap) : Nat := m.slots.length

def isEmpty (m : RejectMap) : Bool := m.bits == 0#16

/-- The map as a dump shows it: sixteen binary digits, the anchor's last. -/
def dump (m : RejectMap) : String :=
  let digits := (List.range width).reverse.map fun i => if m.bits.getLsbD i then '1' else '0'
  "SrejBitmap(" ++ String.ofList digits ++ ")"

end RejectMap

end DataLink
