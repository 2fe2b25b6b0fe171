import DataLink.Proofs.Arq.Link
import DataLink.Proofs.Arq.Ring

/-!
# Frames as they are counted

A link that has handed up `received` frames expects the number at that position of the ring, and the
frames that it keeps early belong to positions of the window after it (`Link.Expects`). Which packets
may stand for a position is left open: `P i` is what is known of a packet that was taken in as frame
`i`. Whatever is taken in, what is handed up then are packets for the positions that come next
(`Expects.takeIn`).
-/

namespace DataLink.Link

open SequenceNumber

/-- The frames that are kept early belong to positions from `start` on and before `bound`. -/
def EarlyIn (P : Nat → Packet → Prop) (start bound : Nat) (l : Link) : Prop :=
  ∀ seq packet, l.early.get? seq = some packet →
    ∃ j, seq = .atPosition j ∧ start ≤ j ∧ j < bound ∧ P j packet

/-- The link has handed up `received` frames, and those it keeps come after the next one, within
`reach`. -/
structure Expects (reach : Nat) (P : Nat → Packet → Prop) (received : Nat) (l : Link) : Prop where
  nextExpected : l.nextExpected = .atPosition received
  early : l.EarlyIn P (received + 1) (received + reach)

variable {window reach received start bound : Nat} {P Q : Nat → Packet → Prop} {l m : Link}

namespace Expects

theorem fresh (reach : Nat) (P : Nat → Packet → Prop) : Expects reach P 0 .fresh :=
  ⟨rfl, fun _ _ hget => by cases hget⟩

theorem congr (h : l.Expects reach P received) (hlike : l.ReceivesLike m) :
    m.Expects reach P received := by
  refine ⟨hlike.nextExpected ▸ h.nextExpected, ?_⟩
  rw [EarlyIn, hlike.early]
  exact h.early

theorem mono (h : l.Expects reach P received) (hPQ : ∀ j packet, P j packet → Q j packet) :
    l.Expects reach Q received := by
  refine ⟨h.nextExpected, fun seq packet hget => ?_⟩
  obtain ⟨j, hseq, hstart, hbound, hP⟩ := h.early seq packet hget
  exact ⟨j, hseq, hstart, hbound, hPQ j packet hP⟩

end Expects

theorem EarlyIn.releaseUpTo (count : Nat) (l : Link) (hcount : l.early.size ≤ count)
    (hnext : l.nextExpected = .atPosition start) (hturn : bound ≤ start + 255)
    (hearly : l.EarlyIn P start bound) :
    (l.releaseUpTo count).2.nextExpected = .atPosition (start + (l.releaseUpTo count).1.length) ∧
      (l.releaseUpTo count).2.EarlyIn P (start + (l.releaseUpTo count).1.length + 1) bound ∧
      ∀ k packet, (l.releaseUpTo count).1[k]? = some packet → P (start + k) packet := by
  induction count generalizing l start with
  | zero =>
    have hnil : l.early.entries = [] := List.eq_nil_of_length_eq_zero (Nat.le_zero.1 hcount)
    refine ⟨hnext, ?_, by simp [Link.releaseUpTo]⟩
    intro seq packet hget
    simp [Link.releaseUpTo, Table.get?, hnil] at hget
  | succ count ih =>
    rw [Link.releaseUpTo]
    cases hget : l.early.get? l.nextExpected with
    | none =>
      refine ⟨hnext, ?_, by simp⟩
      intro seq packet hseq
      obtain ⟨j, rfl, hj, hrest⟩ := hearly seq packet hseq
      have hne : j ≠ start := by
        rintro rfl
        rw [← hnext, hget] at hseq
        cases hseq
      exact ⟨j, rfl, by simp only [List.length_nil]; omega, hrest⟩
    | some packet =>
      obtain ⟨j, hj, hle, hlt, hP⟩ := hearly _ packet hget
      rw [hnext, atPosition_inj] at hj
      obtain rfl : j = start := by omega
      -- The frame that was missing is in place; what is left comes after it.
      have hrest : EarlyIn P (j + 1) bound { l with
          early := l.early.erase l.nextExpected, nextExpected := l.nextExpected.next } := by
        intro seq other hother
        rw [Table.get?_erase] at hother
        split at hother
        · cases hother
        · next hne =>
          obtain ⟨k, rfl, hk, hrest⟩ := hearly seq other hother
          have hkne : k ≠ j := by
            rintro rfl
            exact hne hnext
          exact ⟨k, rfl, by omega, hrest⟩
      have hsize := Table.size_erase_lt hget
      obtain ⟨hafter, hkept, hup⟩ := ih { l with
        early := l.early.erase l.nextExpected, nextExpected := l.nextExpected.next }
        (show (l.early.erase l.nextExpected).size ≤ count by omega)
        (show l.nextExpected.next = _ by rw [hnext, next_atPosition]) (by omega) hrest
      rw [Nat.add_right_comm j 1] at hafter hkept
      refine ⟨hafter, hkept, ?_⟩
      intro k other hk
      cases k with
      | zero =>
        cases hk
        exact hP
      | succ k =>
        rw [show j + (k + 1) = j + 1 + k by omega]
        exact hup k other hk

/-- **Acceptance.** A packet for one of the positions in the window is handed up if that is the next
one, and kept if it comes later; what is handed up stands for the positions that come next. -/
theorem Expects.accept (h : l.Expects reach P received) (hpos : 0 < window) (hwindow : window ≤ reach)
    (hturn : reach ≤ 255) {seq : SequenceNumber} {packet : Packet}
    (hpacket : ∀ j, received ≤ j → j < received + window → seq = .atPosition j → P j packet) :
    (l.accept seq packet window).2.Expects reach P
        (received + (l.accept seq packet window).1.length) ∧
      ∀ k p, (l.accept seq packet window).1[k]? = some p → P (received + k) p := by
  unfold Link.accept
  split
  · next heq =>
    have hP := hpacket received (Nat.le_refl _) (by omega) (heq.trans h.nextExpected)
    obtain ⟨hafter, hkept, hup⟩ := EarlyIn.releaseUpTo l.early.size
      { l with nextExpected := l.nextExpected.next } (Nat.le_refl _)
      (show l.nextExpected.next = _ by rw [h.nextExpected, next_atPosition]) (by omega) h.early
    rw [release, show ({ l with nextExpected := l.nextExpected.next } : Link).early.size =
      l.early.size from rfl]
    generalize Link.releaseUpTo l.early.size { l with nextExpected := l.nextExpected.next } =
      released at hafter hkept hup ⊢
    obtain ⟨packets, after⟩ := released
    simp only [List.length_cons] at hafter hkept ⊢
    refine ⟨⟨by rw [hafter]; congr 1; omega, ?_⟩, ?_⟩
    · intro s p hget
      obtain ⟨j, hs, hle, hlt, hPj⟩ := hkept s p hget
      exact ⟨j, hs, by omega, by omega, hPj⟩
    · intro k p hk
      cases k with
      | zero =>
        cases hk
        exact hP
      | succ k =>
        rw [show received + (k + 1) = received + 1 + k by omega]
        exact hup k p hk
  · split
    · next hahead =>
      rw [h.nextExpected, isAheadOf_atPosition_iff (Nat.le_trans hwindow hturn)] at hahead
      obtain ⟨i, hi, hlt, rfl⟩ := hahead
      refine ⟨⟨h.nextExpected, ?_⟩, by simp⟩
      intro s p hget
      rw [Table.get?_insert] at hget
      split at hget
      · next heq =>
        cases hget
        exact ⟨i, heq.symm, hi, by omega, hpacket i (by omega) hlt rfl⟩
      · exact h.early s p hget
    · exact ⟨h, by simp⟩

/-- What comes in with a packet, comes in with its number; what it acknowledges is of no account here. -/
theorem Expects.takeIn (h : l.Expects reach P received) (hpos : 0 < window) (hwindow : window ≤ reach)
    (hturn : reach ≤ 255) {header : UnicastHeader} {packet : Packet}
    (hpacket : ∀ j, received ≤ j → j < received + window → header.seq = .atPosition j →
      P j packet) :
    (l.takeIn header packet window).2.Expects reach P
        (received + (l.takeIn header packet window).1.length) ∧
      ∀ k p, (l.takeIn header packet window).1[k]? = some p → P (received + k) p := by
  obtain ⟨retransmit, hack⟩ := onAck_apply l header.nextExpected header.rejects window
  rw [Link.takeIn, hack]
  split
  · have hacked : Expects reach P received { l with
        unacked := l.unacked.filter fun f => !f.seq.isBehind header.nextExpected window
        retransmit
        isAckPending := true } := h.congr ⟨rfl, rfl⟩
    exact hacked.accept hpos hwindow hturn hpacket
  · have hacked : Expects reach P received { l with
        unacked := l.unacked.filter fun f => !f.seq.isBehind header.nextExpected window
        retransmit } := h.congr ⟨rfl, rfl⟩
    exact ⟨hacked, by simp⟩

end DataLink.Link
