import DataLink.Proofs.Arq.Counting

/-!
# Delivery over one link

The frames that one station numbers for another are counted without end: frame `i` is the `i`-th one
and has the number at position `i` of the ring. `Sending` relates a link to the frames that were
numbered on it, `Receiving` relates the link at the other end to those that were handed up; there the
frames that were sent stand for the positions they have (`Receiving.expects_iff`).

The receiver hands up the right frames as long as it *recognizes* what it takes in
(`Receiving.takeIn`, `Receiving.isRecognized`), and the number tells which frame it is as long as
nothing old is about. The sender is *clear* of old frames if a receiver that has got everything would
take none of the frames it holds for a new one (`Link.isClear_iff`). The two ends may have different
windows, and neither is wider than `reach`. While the sender is clear, a frame is held for at most
`255 - reach` others; so the receiver recognizes what it is sent (`Packet.isRecognized_of_recent`), and
the sender drops on an acknowledgement only what the receiver has (`Sending.acknowledge`).
-/

namespace DataLink

open SequenceNumber

/-- A receiver that has got all frames would take none of those that are held for a new one. -/
def Link.isClear (reach : Nat) (l : Link) : Bool :=
  l.unacked.all fun f => f.seq ≠ l.nextSeq && !f.seq.isAheadOf l.nextSeq reach

/-- The frames that are held are told from new ones if and only if the sender is clear. -/
theorem Link.isClear_iff {reach : Nat} {l : Link} : l.isClear reach = true ↔
    ∀ f ∈ l.unacked, ∀ m : Link, m.nextExpected = l.nextSeq →
      m.accept f.seq f.packet reach = ([], m) := by
  constructor
  · intro h f hf m hm
    have hclear := List.all_eq_true.1 h f hf
    simp only [ne_eq, Bool.and_eq_true, decide_eq_true_eq, Bool.not_eq_true'] at hclear
    rw [Link.accept, hm, if_neg hclear.1, hclear.2]
    simp
  · intro h
    refine List.all_eq_true.2 ?_
    intro f hf
    have hdropped := h f hf { Link.fresh with nextExpected := l.nextSeq } rfl
    rw [Link.accept] at hdropped
    split at hdropped
    · cases hdropped
    · next hne =>
      split at hdropped
      · have hearly := congrArg (fun r => r.2.early.size) hdropped
        cases hearly
      · next hahead =>
        simp [hne, hahead]

/-! ## The sending end -/

/-- A held frame is the `i`-th one, and not too many were numbered after it. -/
structure SentFrame.IsAt (reach : Nat) (sent : List Packet) (i : Nat) (f : SentFrame) : Prop where
  seq : f.seq = .atPosition i
  content : sent[i]? = some f.packet.content
  recent : sent.length ≤ i + (255 - reach)

/-- The link has numbered the frames `sent`, and holds at least those from `acked` on. -/
structure Sending (reach : Nat) (sent : List Packet) (acked : Nat) (l : Link) : Prop where
  nextSeq : l.nextSeq = .atPosition sent.length
  isAt : ∀ f ∈ l.unacked, ∃ i, f.IsAt reach sent i
  kept : ∀ i, acked ≤ i → i < sent.length → ∃ f ∈ l.unacked, f.IsAt reach sent i

variable {reach window : Nat} {sent : List Packet} {l m : Link} {acked i : Nat}

theorem SentFrame.IsAt.lt {f : SentFrame} (h : f.IsAt reach sent i) : i < sent.length :=
  (List.getElem?_eq_some_iff.1 h.content).1

theorem SentFrame.IsAt.congr {f g : SentFrame} (h : f.IsAt reach sent i) (hseq : g.seq = f.seq)
    (hpacket : g.packet = f.packet) : g.IsAt reach sent i :=
  ⟨hseq ▸ h.seq, hpacket ▸ h.content, h.recent⟩

/-- A frame is clear of the next number if there is room for one more frame after it. -/
theorem SentFrame.IsAt.append {f : SentFrame} (h : f.IsAt reach sent i) (hpos : 0 < reach)
    (hwidest : reach ≤ 127) (hne : f.seq ≠ .atPosition (sent.length + 1))
    (hahead : f.seq.isAheadOf (.atPosition (sent.length + 1)) reach = false) (packet : Packet) :
    f.IsAt reach (sent ++ [packet]) i := by
  have hlt := h.lt
  have hrecent := h.recent
  refine ⟨h.seq, ?_, ?_⟩
  · rw [List.getElem?_append_left hlt]
    exact h.content
  · rw [List.length_append, List.length_singleton]
    rw [h.seq] at hne hahead
    by_cases hturn : sent.length + 1 < i + 255
    · rw [isAheadOf_atPosition_of_lt (by omega) hturn, decide_eq_false_iff_not] at hahead
      omega
    · rw [ne_eq, atPosition_inj] at hne
      omega

namespace Sending

theorem fresh (reach acked : Nat) : Sending reach [] acked .fresh :=
  ⟨rfl, by simp [Link.fresh], by simp⟩

theorem congr (h : Sending reach sent acked l) (hnext : m.nextSeq = l.nextSeq)
    (hunacked : m.unacked = l.unacked) : Sending reach sent acked m :=
  ⟨hnext ▸ h.nextSeq, hunacked ▸ h.isAt, hunacked ▸ h.kept⟩

theorem send (h : Sending reach sent acked l) (hpos : 0 < reach) (hwidest : reach ≤ 127)
    (packet : Packet) (resendAt : Nat) (hclear : (l.send packet window resendAt).2.isClear reach) :
    Sending reach (sent ++ [packet.content]) acked (l.send packet window resendAt).2 := by
  have hnext : (l.send packet window resendAt).2.nextSeq = .atPosition (sent.length + 1) := by
    rw [← next_atPosition, ← h.nextSeq]
    rfl
  have hold : ∀ f ∈ l.unacked, ∀ i, f.IsAt reach sent i →
      f.IsAt reach (sent ++ [packet.content]) i := by
    intro f hf i hi
    have := List.all_eq_true.1 hclear f (List.mem_append_left _ hf)
    rw [hnext] at this
    simp only [ne_eq, Bool.and_eq_true, decide_eq_true_eq, Bool.not_eq_true'] at this
    exact hi.append hpos hwidest this.1 this.2 packet.content
  have hnew : SentFrame.IsAt reach (sent ++ [packet.content]) sent.length
      ⟨l.nextSeq, (packet.mapUnicast (l.stamp l.nextSeq window)).copy, resendAt⟩ := by
    refine ⟨h.nextSeq, ?_, ?_⟩
    · rw [List.getElem?_concat_length, Packet.content_copy, Link.content_stamp]
    · rw [List.length_append, List.length_singleton]
      omega
  refine ⟨?_, ?_, ?_⟩
  · rw [hnext, List.length_append, List.length_singleton]
  · intro f hf
    rcases List.mem_append.1 hf with hf | hf
    · obtain ⟨i, hi⟩ := h.isAt f hf
      exact ⟨i, hold f hf i hi⟩
    · rw [List.mem_singleton.1 hf]
      exact ⟨_, hnew⟩
  · intro i hi hlt
    rw [List.length_append, List.length_singleton] at hlt
    by_cases hlast : i = sent.length
    · exact ⟨_, List.mem_append_right _ List.mem_cons_self, hlast ▸ hnew⟩
    · obtain ⟨f, hf, hfi⟩ := h.kept i hi (by omega)
      exact ⟨f, List.mem_append_left _ hf, hold f hf i hfi⟩

theorem postpone (h : Sending reach sent acked l) (seq : SequenceNumber) (resendAt : Nat)
    (hnext : m.nextSeq = l.nextSeq) (hunacked : m.unacked = Link.postpone seq resendAt l.unacked) :
    Sending reach sent acked m := by
  refine ⟨hnext ▸ h.nextSeq, ?_, ?_⟩
  · intro f hf
    rw [hunacked] at hf
    obtain ⟨g, hg, hseq, hpacket⟩ := Link.mem_postpone hf
    obtain ⟨i, hi⟩ := h.isAt g hg
    exact ⟨i, hi.congr hseq.symm hpacket.symm⟩
  · intro i hi hlt
    obtain ⟨f, hf, hfi⟩ := h.kept i hi hlt
    obtain ⟨g, hg, hseq, hpacket⟩ := Link.exists_mem_postpone seq resendAt hf
    exact ⟨g, hunacked ▸ hg, hfi.congr hseq hpacket⟩

/-- What the peer has not received is not behind the number it expects. -/
theorem not_isBehind (h : Sending reach sent acked l) (hreach : window ≤ reach) {expected : Nat}
    (hle : acked ≤ expected) {f : SentFrame} (hf : f.IsAt reach sent i) (hi : expected ≤ i) :
    f.seq.isBehind (.atPosition expected) window = false := by
  have hlt := hf.lt
  obtain ⟨g, -, hg⟩ := h.kept expected hle (by omega)
  have hrecent := hg.recent
  rw [isBehind, hf.seq]
  by_cases heq : expected = i
  · rw [heq, isAheadOf_atPosition (Nat.le_refl i) (by omega)]
    simp
  · rw [isAheadOf_atPosition_of_lt (by omega) (by omega), decide_eq_false_iff_not]
    omega

theorem acknowledge (h : Sending reach sent acked l) (hreach : window ≤ reach) {expected : Nat}
    (hle : acked ≤ expected) (hnext : m.nextSeq = l.nextSeq) (hunacked : m.unacked =
      l.unacked.filter fun f => !f.seq.isBehind (.atPosition expected) window) :
    Sending reach sent expected m := by
  refine ⟨hnext ▸ h.nextSeq, ?_, ?_⟩
  · intro f hf
    rw [hunacked] at hf
    exact h.isAt f (List.mem_filter.1 hf).1
  · intro i hi hlt
    obtain ⟨f, hf, hfi⟩ := h.kept i (Nat.le_trans hle hi) hlt
    refine ⟨f, ?_, hfi⟩
    rw [hunacked, List.mem_filter, h.not_isBehind hreach hle hfi hi]
    exact ⟨hf, rfl⟩

end Sending

/-! ## The receiving end -/

/-- The frames that came early are some of those in the window from frame `start` on, and of the
first `horizon`. -/
def EarlyFrom (window : Nat) (sent : List Packet) (horizon start : Nat) (l : Link) : Prop :=
  ∀ seq packet, l.early.get? seq = some packet → ∃ j, seq = .atPosition j ∧
    start ≤ j ∧ j < start + window ∧ j < horizon ∧ sent[j]? = some packet.content

/-- The link has handed up the first `received` of the frames `sent`, and may hold some of those that
come after the next one. -/
structure Receiving (window : Nat) (sent : List Packet) (horizon received : Nat) (l : Link) :
    Prop where
  nextExpected : l.nextExpected = .atPosition received
  received_le : received ≤ horizon
  early : EarlyFrom window sent horizon (received + 1) l

/-- Whichever of the next frames a receiver takes the packet with this number for, it is that one. -/
def Packet.IsRecognized (window : Nat) (sent : List Packet) (received : Nat) (seq : SequenceNumber)
    (packet : Packet) : Prop :=
  ∀ j, received ≤ j → j < received + window → seq = .atPosition j →
    sent[j]? = some packet.content

/-- A frame is recognized if it was recent when it was sent, and so was the next one for the receiver. -/
theorem Packet.isRecognized_of_recent (hwidest : window ≤ 127) {received : Nat} {packet : Packet}
    (hcontent : sent[i]? = some packet.content) (hrecent : sent.length ≤ i + (255 - window))
    (hle : received ≤ sent.length)
    (hnext : received < sent.length → sent.length ≤ received + (255 - window)) :
    packet.IsRecognized window sent received (.atPosition i) := by
  intro j hj hlt hseq
  rw [atPosition_inj] at hseq
  have hi := (List.getElem?_eq_some_iff.1 hcontent).1
  have hij : i = j := by omega
  rw [← hij]
  exact hcontent

namespace Receiving

variable {horizon received : Nat}

theorem fresh (window : Nat) (sent : List Packet) : Receiving window sent 0 0 .fresh :=
  ⟨rfl, Nat.le_refl _, fun _ _ hget => by cases hget⟩

theorem congr (h : Receiving window sent horizon received l) (hlike : l.ReceivesLike m) :
    Receiving window sent horizon received m := by
  refine ⟨hlike.nextExpected ▸ h.nextExpected, h.received_le, ?_⟩
  rw [EarlyFrom, hlike.early]
  exact h.early

theorem mono (h : Receiving window sent horizon received l) {more : List Packet}
    (hmore : sent <+: more) {farther : Nat} (hfarther : horizon ≤ farther) :
    Receiving window more farther received l := by
  refine ⟨h.nextExpected, Nat.le_trans h.received_le hfarther, ?_⟩
  intro seq packet hget
  obtain ⟨j, hseq, hlt, hwindow, hhorizon, hcontent⟩ := h.early seq packet hget
  have hj := (List.getElem?_eq_some_iff.1 hcontent).1
  refine ⟨j, hseq, hlt, hwindow, by omega, ?_⟩
  obtain ⟨rest, rfl⟩ := hmore
  rw [List.getElem?_append_left hj]
  exact hcontent

/-- The receiver reaches one position further than the window: frames that were early before one was
handed up may still be as far ahead as that. -/
theorem expects_iff : Receiving window sent horizon received l ↔ received ≤ horizon ∧
    l.Expects (window + 1) (fun j packet => j < horizon ∧ sent[j]? = some packet.content)
      received := by
  constructor
  · rintro ⟨hnext, hle, hearly⟩
    refine ⟨hle, hnext, fun seq packet hget => ?_⟩
    obtain ⟨j, hseq, hstart, hbound, hframe⟩ := hearly seq packet hget
    exact ⟨j, hseq, hstart, by omega, hframe⟩
  · rintro ⟨hle, hnext, hearly⟩
    refine ⟨hnext, hle, fun seq packet hget => ?_⟩
    obtain ⟨j, hseq, hstart, hbound, hframe⟩ := hearly seq packet hget
    exact ⟨j, hseq, hstart, by omega, hframe⟩

theorem take_add_of_next {packets : List Packet} {start : Nat} (hle : start ≤ horizon)
    (h : ∀ k p, packets[k]? = some p → start + k < horizon ∧ sent[start + k]? = some p.content) :
    start + packets.length ≤ horizon ∧
      sent.take (start + packets.length) = sent.take start ++ packets.map Packet.content := by
  induction packets generalizing start with
  | nil => exact ⟨hle, (List.append_nil _).symm⟩
  | cons packet rest ih =>
    have hfirst : start < horizon ∧ sent[start]? = some packet.content := h 0 packet rfl
    have hothers : ∀ k p, rest[k]? = some p → start + 1 + k < horizon ∧
        sent[start + 1 + k]? = some p.content := by
      intro k p hk
      rw [Nat.add_assoc, Nat.add_comm 1 k]
      exact h (k + 1) p hk
    obtain ⟨hend, hrest⟩ := ih (show start + 1 ≤ horizon from hfirst.1) hothers
    rw [Nat.add_assoc, Nat.add_comm 1] at hend hrest
    refine ⟨hend, ?_⟩
    rw [List.length_cons, hrest, List.take_add_one, hfirst.2, List.append_assoc]
    rfl

theorem isRecognized (h : Receiving window sent horizon received l) (hpos : 0 < window)
    (hwidest : window ≤ 127) {n after : Nat} {seq : SequenceNumber} {packet : Packet}
    (hafter : Receiving window sent n after (l.accept seq packet window).2)
    (hnone : (l.accept seq packet window).1 = [] → after = received)
    (hfirst : (l.accept seq packet window).1.head? = some packet →
      sent[received]? = some packet.content) :
    packet.IsRecognized window sent received seq := by
  intro j hj hlt hseq
  subst hseq
  by_cases hnext : j = received
  · subst hnext
    apply hfirst
    rw [Link.accept, h.nextExpected, if_pos rfl]
    rfl
  · have hne : atPosition j ≠ l.nextExpected := by
      rw [h.nextExpected, ne_eq, atPosition_inj]
      omega
    have hahead : (atPosition j).isAheadOf l.nextExpected window = true := by
      rw [h.nextExpected]
      exact (isAheadOf_atPosition_iff (by omega)).2 ⟨j, by omega, hlt, rfl⟩
    rw [Link.accept, if_neg hne, if_pos hahead] at hafter hnone
    have hsame : after = received := hnone rfl
    subst hsame
    obtain ⟨k, hk, hle, hltk, -, hcontent⟩ := hafter.early (atPosition j) packet
      ((Table.get?_insert _ _ _ _).trans (if_pos rfl))
    rw [atPosition_inj] at hk
    have hkj : k = j := by omega
    rw [← hkj]
    exact hcontent

end Receiving

end DataLink
