/-!
# Positions

What a beacon says about where its sender is: a position in IEEE 754 double precision, how good it
is, and how many hops away the next ground station is. Coordinates are carried and compared but
never computed with, so a coordinate is its 64-bit pattern.
-/

namespace DataLink

/-- A number in the IEEE 754 binary64 format, by its bit pattern. -/
structure Binary64 where
  pattern : UInt64
deriving DecidableEq, Repr, Inhabited

namespace Binary64

/-- The pattern without its sign bit. -/
def magnitude (x : Binary64) : Nat := x.pattern.toNat % 0x8000000000000000

/-- All exponent bits are set and some fraction bit is. -/
def isNaN (x : Binary64) : Bool := 0x7FF0000000000000 < x.magnitude

/-- Equality as IEEE 754 has it: a NaN equals nothing, and the two zeros are equal. -/
def sameValue (x y : Binary64) : Bool :=
  !x.isNaN && !y.isNaN && (x == y || (x.magnitude == 0 && y.magnitude == 0))

end Binary64

/-- Where a station says it is. -/
structure Position where
  latitude : Binary64
  longitude : Binary64
  altitude : Binary64
deriving DecidableEq, Repr, Inhabited

def Position.sameValue (p q : Position) : Bool :=
  p.latitude.sameValue q.latitude && p.longitude.sameValue q.longitude
    && p.altitude.sameValue q.altitude

/-- How good a position is. -/
inductive PositionQuality where
  | unknown
  | low
  | medium
  | high
deriving DecidableEq, Repr, Inhabited

/-- A count of hops that a beacon has no place for. -/
structure HopCountTooLarge where
  hops : Nat
deriving DecidableEq, Repr

def HopCountTooLarge.text (e : HopCountTooLarge) : String :=
  "hop count too large - " ++ toString e.hops ++ " / 31"

/-- Hops to the nearest ground station, as a beacon carries them. -/
structure HopCount where
  val : Nat
deriving DecidableEq, Repr, Inhabited

namespace HopCount

/-- The largest count a beacon has a place for; it also stands for *no route*. -/
def highest : HopCount := ⟨31⟩

def ofNat? (hops : Nat) : Except HopCountTooLarge HopCount :=
  if hops ≤ highest.val then .ok ⟨hops⟩ else .error ⟨hops⟩

/-- The nearest count that a beacon has a place for. -/
def clamp (hops : Nat) : HopCount := ⟨min hops highest.val⟩

end HopCount

end DataLink
