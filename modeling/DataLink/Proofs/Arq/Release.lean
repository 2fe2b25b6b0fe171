import DataLink.Proofs.Arq.Calls
import DataLink.Proofs.Arq.Link
import DataLink.Proofs.Arq.Ring

/-!
# What an acknowledgement releases

The peer acknowledges all frames at once that come before the one it expects next. A link that holds
frames with consecutive numbers should release exactly those. It looks for the numbers that lie behind
the expected one *by less than a window*, and the first frame of a full window lies a whole window
behind it when all of them are acknowledged.

**Theorem (`unacked_onAck`).** With any window that a configuration may have, an acknowledgement of the
first `k` frames releases these and no others, as long as `k` is less than the window. An
acknowledgement of a full window releases all frames but the first one.

Frame `i` lies behind if and only if `i < k < i + window` (`isBehind_unacked`). The other side of the
ring does not come into it, as all that is compared lies within half a turn.
-/

namespace DataLink

theorem filter_eq_take_append_drop {α : Type} {keep : α → Bool} {items : List α} {first behind : Nat}
    (hle : first ≤ behind) (h : ∀ i (hi : i < items.length),
      keep items[i] = decide (i < first ∨ behind ≤ i)) :
    items.filter keep = items.take first ++ items.drop behind := by
  induction items generalizing first behind with
  | nil => simp
  | cons a rest ih =>
    have hhead : keep a = decide (0 < first ∨ behind ≤ 0) := h 0 (by simp)
    have htail : ∀ i (hi : i < rest.length), keep rest[i] = decide (i + 1 < first ∨ behind ≤ i + 1) :=
      fun i hi => h (i + 1) (by simpa using hi)
    cases behind with
    | zero =>
      obtain rfl : first = 0 := by omega
      have hrest := ih (Nat.le_refl 0) fun i hi => by
        rw [htail i hi, decide_eq_decide]
        omega
      rw [List.filter_cons_of_pos (by simp [hhead]), hrest]
      simp
    | succ behind =>
      have hrest := ih (show first - 1 ≤ behind by omega) fun i hi => by
        rw [htail i hi, decide_eq_decide]
        omega
      cases first with
      | zero =>
        rw [List.filter_cons_of_neg (by simp [hhead]), hrest]
        simp
      | succ first =>
        rw [List.filter_cons_of_pos (by simp [hhead]), hrest]
        simp

namespace Link

variable {l : Link} {s : SequenceNumber} {config : ArqConfig} {k : Nat}

/-- The frames that are held have consecutive numbers, of which the first one is `s`. -/
def HoldsFrom (l : Link) (s : SequenceNumber) : Prop :=
  l.unacked.map SentFrame.seq = (List.range l.unacked.length).map s.forward

instance (l : Link) (s : SequenceNumber) : Decidable (l.HoldsFrom s) := by
  unfold HoldsFrom
  infer_instance

theorem HoldsFrom.seq_eq (h : l.HoldsFrom s) {i : Nat} (hi : i < l.unacked.length) :
    l.unacked[i].seq = s.forward i := by
  have hget := congrArg (fun seqs => seqs[i]?) h
  simpa [hi] using hget

theorem isBehind_unacked (hcheck : config.check = .ok ()) (hset : s.isSet = true)
    (h : l.HoldsFrom s) (hlength : l.unacked.length ≤ config.windowSize)
    (hk : k ≤ l.unacked.length) {i : Nat} (hi : i < l.unacked.length) :
    l.unacked[i].seq.isBehind (s.forward k) config.windowSize =
      decide (i < k ∧ k < i + config.windowSize) := by
  have hwindow := ArqConfig.check_eq_ok_iff.1 hcheck
  rw [h.seq_eq hi, SequenceNumber.forward_eq_atPosition hset,
    SequenceNumber.forward_eq_atPosition hset, SequenceNumber.isBehind]
  by_cases hik : i ≤ k
  · rw [SequenceNumber.isAheadOf_atPosition (by omega) (by omega), decide_eq_decide]
    omega
  · rw [SequenceNumber.isAheadOf_atPosition_of_lt (by omega) (by omega), decide_eq_decide]
    omega

/-- **What an acknowledgement releases.** A link holds no more frames than its window, with consecutive
numbers. If the first `k` of them are acknowledged, whatever else is asked for, these are released and
the others stay, in order; but of a full window that is acknowledged at once the first frame stays. -/
theorem unacked_onAck (hcheck : config.check = .ok ()) (hset : s.isSet = true) (h : l.HoldsFrom s)
    (hlength : l.unacked.length ≤ config.windowSize) (hk : k ≤ l.unacked.length)
    (rejects : RejectMap) : (l.onAck (s.forward k) rejects config.windowSize).unacked =
      if k < config.windowSize then l.unacked.drop k else l.unacked.take 1 := by
  have hwindow := ArqConfig.check_eq_ok_iff.1 hcheck
  obtain ⟨retransmit, hack⟩ := onAck_apply l (s.forward k) rejects config.windowSize
  rw [hack]
  show l.unacked.filter (fun f => !f.seq.isBehind (s.forward k) config.windowSize) = _
  have hkeep : ∀ i (hi : i < l.unacked.length),
      (!l.unacked[i].seq.isBehind (s.forward k) config.windowSize) =
        decide (¬ (i < k ∧ k < i + config.windowSize)) := by
    intro i hi
    rw [isBehind_unacked hcheck hset h hlength hk hi, decide_not]
  by_cases hfull : k < config.windowSize
  · rw [if_pos hfull, filter_eq_take_append_drop (Nat.zero_le k) fun i hi => ?_]
    · rw [List.take_zero, List.nil_append]
    · rw [hkeep i hi, decide_eq_decide]
      omega
  · rw [if_neg hfull, filter_eq_take_append_drop (show 1 ≤ k by omega) fun i hi => ?_]
    · rw [List.drop_eq_nil_of_le (by omega), List.append_nil]
    · rw [hkeep i hi, decide_eq_decide]
      omega

/-- A link that holds three frames, the last of which has a number beyond the wrap. -/
def wrapped : Link :=
  { fresh with unacked := [254, 255, 1].map fun raw => ⟨.ofByte raw, .empty, 0⟩ }

theorem unacked_onAck_wrapped :
    (wrapped.onAck (.ofByte 1) .empty 3).unacked = wrapped.unacked.drop 2 ∧
      (wrapped.onAck (.ofByte 2) .empty 3).unacked = wrapped.unacked.take 1 :=
  have hcheck : ArqConfig.check ⟨3, true, 16⟩ = .ok () := rfl
  have hframes : wrapped.HoldsFrom (.ofByte 254) := by decide
  ⟨unacked_onAck (k := 2) hcheck rfl hframes (by decide) (by decide) .empty,
    unacked_onAck (k := 3) hcheck rfl hframes (by decide) (by decide) .empty⟩

/-- A frame that was sent alone with a window of one is not released. -/
theorem not_unacked_onAck_drop : ¬ ∀ (config : ArqConfig) (l : Link) (s : SequenceNumber) (k : Nat)
    (rejects : RejectMap), config.check = .ok () → s.isSet = true → l.HoldsFrom s →
    l.unacked.length ≤ config.windowSize → k ≤ l.unacked.length →
      (l.onAck (s.forward k) rejects config.windowSize).unacked = l.unacked.drop k := by
  intro h
  have halone := h ⟨1, true, 16⟩ { fresh with unacked := [⟨.first, .empty, 0⟩] } .first 1 .empty
    rfl rfl (by decide) (by decide) (by decide)
  exact absurd halone (by decide)

end Link

end DataLink
