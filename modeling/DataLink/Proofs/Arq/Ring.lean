import DataLink.Sequence

/-!
# Positions on the ring

Frames are counted without end, and frame `i` has the number at position `i` of the ring. Numbers
are only compared over less than one turn, where the comparison is that of the positions.
-/

namespace DataLink.SequenceNumber

variable {i j window : Nat}

theorem atPosition_inj : atPosition i = atPosition j ↔ i % 255 = j % 255 := by
  simp [atPosition]

theorem atPosition_ne_unset (i : Nat) : atPosition i ≠ .unset := by
  intro h
  have hset := isSet_atPosition i
  rw [h] at hset
  cases hset

theorem next_atPosition (i : Nat) : (atPosition i).next = atPosition (i + 1) := by
  have hraw : (atPosition i).raw = i % 255 + 1 := rfl
  rw [next, forward, if_neg (by omega), if_neg (by omega), atPosition_inj, hraw]
  omega

theorem distance?_atPosition (i j : Nat) :
    (atPosition i).distance? (atPosition j) = some ((j % 255 + 255 - i % 255) % 255) := by
  have hi : (atPosition i).raw = i % 255 + 1 := rfl
  have hj : (atPosition j).raw = j % 255 + 1 := rfl
  rw [distance?, if_neg (by omega), hi, hj]
  congr 2
  omega

theorem forward_eq_atPosition {s : SequenceNumber} (hset : s.isSet = true) (i : Nat) :
    s.forward i = atPosition (s.raw - 1 + i) := by
  have hraw : s.raw ≠ 0 := isSet_iff.1 hset
  by_cases hi : i = 0
  · subst hi
    have hlt := s.raw_lt
    apply ext_raw
    show s.raw = (s.raw - 1 + 0) % 255 + 1
    omega
  · rw [forward, if_neg hi, if_neg hraw]

/-- The numbers at a distance are those that as many steps lead to, less than a turn. -/
theorem distance?_eq_some_iff {s t : SequenceNumber} (hset : s.isSet = true) {d : Nat} :
    s.distance? t = some d ↔ d < 255 ∧ t = s.forward d := by
  have hraw : s.raw ≠ 0 := isSet_iff.1 hset
  have hs := s.raw_lt
  have ht := t.raw_lt
  rw [forward_eq_atPosition hset, distance?]
  constructor
  · intro h
    split at h
    · cases h
    · next hboth =>
      rw [Option.some.injEq] at h
      refine ⟨by omega, ext_raw ?_⟩
      show t.raw = (s.raw - 1 + d) % 255 + 1
      omega
  · rintro ⟨hd, rfl⟩
    have hraw' : (atPosition (s.raw - 1 + d)).raw = (s.raw - 1 + d) % 255 + 1 := rfl
    rw [if_neg (by omega), hraw', Option.some.injEq]
    omega

theorem isAheadOf_atPosition (hle : i ≤ j) (hturn : j < i + 255) :
    (atPosition j).isAheadOf (atPosition i) window = decide (i < j ∧ j < i + window) := by
  have hdist : (j % 255 + 255 - i % 255) % 255 = j - i := by omega
  rw [isAheadOf, distance?_atPosition, hdist]
  show (decide (0 < j - i) && decide (j - i < window)) = _
  rw [← Bool.decide_and, decide_eq_decide]
  omega

/-- Less than a turn behind, a number seems ahead if it is far enough behind. -/
theorem isAheadOf_atPosition_of_lt (hlt : j < i) (hturn : i < j + 255) :
    (atPosition j).isAheadOf (atPosition i) window = decide (j + 255 < i + window) := by
  have hdist : (j % 255 + 255 - i % 255) % 255 = j + 255 - i := by omega
  rw [isAheadOf, distance?_atPosition, hdist]
  show (decide (0 < j + 255 - i) && decide (j + 255 - i < window)) = _
  rw [← Bool.decide_and, decide_eq_decide]
  omega

/-- The numbers ahead of a position, in a window of less than one turn, are those that come next. -/
theorem isAheadOf_atPosition_iff (hturn : window ≤ 255) {seq : SequenceNumber} :
    seq.isAheadOf (atPosition i) window = true ↔
      ∃ j, i < j ∧ j < i + window ∧ seq = atPosition j := by
  constructor
  · intro h
    by_cases hset : seq.raw = 0
    · rw [isAheadOf, distance?, if_pos (Or.inr hset)] at h
      cases h
    · have hraw := seq.raw_lt
      have hseq : seq = atPosition (seq.raw - 1) := by
        apply ext_raw
        show seq.raw = (seq.raw - 1) % 255 + 1
        omega
      rw [hseq, isAheadOf, distance?_atPosition, Bool.and_eq_true, decide_eq_true_eq,
        decide_eq_true_eq] at h
      refine ⟨i + ((seq.raw - 1) % 255 + 255 - i % 255) % 255, by omega, by omega, ?_⟩
      rw [hseq, atPosition_inj, ← hseq]
      omega
  · rintro ⟨j, hij, hj, rfl⟩
    rw [isAheadOf_atPosition (by omega) (by omega), decide_eq_true_eq]
    exact ⟨hij, hj⟩

end DataLink.SequenceNumber
