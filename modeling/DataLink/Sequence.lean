/-!
# Sequence numbers

A sequence number is one of 256 values. Zero means *unset*; the other 255 form a ring on which
1 follows 255. Moving along the ring never meets the unset value: from it, the first step forward
leads to 1 and the first step backward to 255. Order only makes sense inside a window, because on
a ring every number is both before and after every other.
-/

namespace DataLink

/-- A number on the ring `1 … 255`, or the unset value 0. -/
structure SequenceNumber where
  raw : Nat
  raw_lt : raw < 256 := by omega
deriving DecidableEq

/-- A number that no sequence number has. -/
structure SequenceOutOfRange where
  value : Nat
deriving DecidableEq, Repr

def SequenceOutOfRange.text (e : SequenceOutOfRange) : String :=
  "sequence number out of range - " ++ toString e.value ++ " / 255"

namespace SequenceNumber

/-- How many numbers the ring has. -/
def ringSize : Nat := 255

def unset : SequenceNumber := ⟨0, by omega⟩

def first : SequenceNumber := ⟨1, by omega⟩

def last : SequenceNumber := ⟨255, by omega⟩

/-- The widest window in which before and after cannot both hold. -/
def widestWindow : Nat := 127

instance : Inhabited SequenceNumber := ⟨unset⟩

instance : Repr SequenceNumber := ⟨fun s _ => repr s.raw⟩

def ofByte (b : UInt8) : SequenceNumber := ⟨b.toNat, b.toNat_lt⟩

/-- Reads a number of any size. -/
def ofNat? (n : Nat) : Except SequenceOutOfRange SequenceNumber :=
  if h : n < 256 then .ok ⟨n, h⟩ else .error ⟨n⟩

def isSet (s : SequenceNumber) : Bool := s.raw ≠ 0

/-- The number at a position of the ring, counted from zero. -/
def atPosition (i : Nat) : SequenceNumber :=
  ⟨i % 255 + 1, by omega⟩

/-- The number `n` steps ahead. Zero steps lead nowhere, also from the unset value, which
otherwise stands right before `first`. -/
def forward (s : SequenceNumber) (n : Nat) : SequenceNumber :=
  if n = 0 then s
  else if s.raw = 0 then atPosition (254 + n)
  else atPosition (s.raw - 1 + n)

/-- The number `n` steps back. The unset value stands right after `last`. -/
def backward (s : SequenceNumber) (n : Nat) : SequenceNumber :=
  if n = 0 then s
  else if s.raw = 0 then atPosition (255 + (255 - n % 255))
  else atPosition (s.raw - 1 + (255 - n % 255))

def next (s : SequenceNumber) : SequenceNumber := s.forward 1

def prev (s : SequenceNumber) : SequenceNumber := s.backward 1

/-- Steps forward from `s` to `t`; the unset value is at no distance from anything. -/
def distance? (s t : SequenceNumber) : Option Nat :=
  if s.raw = 0 ∨ t.raw = 0 then none else some ((t.raw + 255 - s.raw) % 255)

/-- `s` lies ahead of `t`, by less than `window` steps. -/
def isAheadOf (s t : SequenceNumber) (window : Nat) : Bool :=
  match t.distance? s with
  | some d => 0 < d && d < window
  | none => false

/-- `s` lies behind `t`, by less than `window` steps. -/
def isBehind (s t : SequenceNumber) (window : Nat) : Bool := t.isAheadOf s window

/-- `s` lies behind `t` or is `t`. -/
def isBehindOrAt (s t : SequenceNumber) (window : Nat) : Bool := s == t || s.isBehind t window

def text (s : SequenceNumber) : String := toString s.raw

/-- The number as a dump shows it. -/
def dump (s : SequenceNumber) : String :=
  "SequenceNumber(" ++ (if s.isSet then s.text else "UNSET") ++ ")"

theorem ext_raw {s t : SequenceNumber} (h : s.raw = t.raw) : s = t := by
  cases s; cases t; cases h; rfl

theorem isSet_iff {s : SequenceNumber} : s.isSet = true ↔ s.raw ≠ 0 := by
  simp [isSet]

theorem isSet_atPosition (i : Nat) : (atPosition i).isSet = true := by
  simp [atPosition, isSet]

end SequenceNumber

end DataLink
