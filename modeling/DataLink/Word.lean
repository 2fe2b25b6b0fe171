/-!
# Bit counts

Lengths on the link are counted in bits and kept in a 32-bit word. `Word.fits` says when a count
has a place in such a word, and `Word.clamp` is the nearest count that has one. Lengths that are
made up of several counts are their `Word.total`, which may be too large for a word.
-/

namespace DataLink

namespace Word

/-- The largest count a word holds. -/
def highest : Nat := 0xFFFFFFFF

/-- A count has a place in a word. -/
def fits (n : Nat) : Bool := n ≤ highest

/-- The nearest count that fits. -/
def clamp (n : Nat) : Nat := min n highest

/-- All counts together. -/
def total : List Nat → Nat
  | [] => 0
  | n :: rest => n + total rest

theorem fits_iff {n : Nat} : fits n = true ↔ n ≤ highest := decide_eq_true_iff

theorem fits_clamp (n : Nat) : fits (clamp n) = true := fits_iff.2 (Nat.min_le_right n highest)

theorem total_append (l m : List Nat) : total (l ++ m) = total l + total m := by
  induction l with
  | nil => simp [total]
  | cons n rest ih => simp [total, ih, Nat.add_assoc]

end Word

end DataLink
