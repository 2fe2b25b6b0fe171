import DataLink.Proofs.Arq.Runs

/-!
# The frames that are to be sent again

A link keeps two lists: the frames that are not acknowledged, and the numbers of those that are to be
sent again. Acknowledgements shorten both, a peer that names a gap lengthens the second, a new frame the
first, and a frame that is sent again leaves the second.

**Theorem (`bookkeeping_consistent`).** In every state of a run over any RLC, the two lists of every link
agree (`Link.IsTidy`): no number is scheduled twice, each belongs to a frame that is held, and a frame
that is held has unicast headers, all with its own number. The frame that a link is to send again is
therefore always found, is sent as soon as it is asked for with enough room, and leaves the schedule.

The schedule is kept in order by what goes in: a number is scheduled if it is held and not scheduled yet.
What goes out of the list of frames goes out of the schedule in the same step.
-/

namespace DataLink

/-- The frame has unicast headers, and all of them carry its number. -/
def SentFrame.IsMarked (f : SentFrame) : Prop :=
  f.packet.unicastHeaders ≠ [] ∧ ∀ h ∈ f.packet.unicastHeaders, h.seq = f.seq

namespace Link

variable {window slot resendAt bits : Nat} {l : Link} {seq : SequenceNumber}

/-- The frames to send again differ and are held, and what is held carries its number. -/
structure IsTidy (l : Link) : Prop where
  distinct : l.retransmit.Nodup
  asksHeld : l.AsksHeld
  marked : ∀ f ∈ l.unacked, f.IsMarked

/-! ## What goes in and out -/

theorem nodup_schedule (h : l.retransmit.Nodup) (seq : SequenceNumber) :
    (l.schedule seq).retransmit.Nodup := by
  unfold schedule
  split
  · next hnew =>
    rw [Bool.and_eq_true, Bool.not_eq_true', ← Bool.not_eq_true, List.contains_iff_mem] at hnew
    rw [List.nodup_append]
    refine ⟨h, List.nodup_cons.2 ⟨List.not_mem_nil, List.nodup_nil⟩, fun s hs t ht => ?_⟩
    rw [List.mem_singleton.1 ht]
    exact fun heq => hnew.2 (heq ▸ hs)
  · exact h

theorem nodup_onAck (h : l.retransmit.Nodup) (nextExpected : SequenceNumber) (rejects : RejectMap)
    (window : Nat) : (l.onAck nextExpected rejects window).retransmit.Nodup := by
  have hstart : (l.acknowledge nextExpected window).retransmit.Nodup := h.filter _
  unfold onAck
  generalize rejects.missing nextExpected = seqs, l.acknowledge nextExpected window = start at hstart ⊢
  induction seqs generalizing start with
  | nil => exact hstart
  | cons seq rest ih => exact ih _ (nodup_schedule hstart seq)

theorem nodup_takeIn (h : l.retransmit.Nodup) (header : UnicastHeader) (packet : Packet)
    (window : Nat) : (l.takeIn header packet window).2.retransmit.Nodup := by
  have hack := nodup_onAck h header.nextExpected header.rejects window
  rw [takeIn]
  split
  · rw [(sendsLike_accept _ header.seq packet window).retransmit]
    exact hack
  · exact hack

theorem isMarked_stamp {packet : Packet} (h : packet.unicastHeaders ≠ []) (l : Link)
    (seq : SequenceNumber) (window resendAt : Nat) :
    SentFrame.IsMarked ⟨seq, (packet.mapUnicast (l.stamp seq window)).copy, resendAt⟩ := by
  have hheaders : (packet.mapUnicast (l.stamp seq window)).copy.unicastHeaders =
      packet.unicastHeaders.map (l.stamp seq window) := Packet.unicastHeaders_mapUnicast _ _
  rw [SentFrame.IsMarked, hheaders]
  refine ⟨fun hnil => h (List.map_eq_nil_iff.1 hnil), fun header hmem => ?_⟩
  obtain ⟨u, -, rfl⟩ := List.mem_map.1 hmem
  rfl

theorem isKept_isTidy : IsKept IsTidy where
  fresh := ⟨List.nodup_nil, List.forall_mem_nil _, List.forall_mem_nil _⟩
  takeIn := by
    intro l h header packet window
    refine ⟨nodup_takeIn h.distinct header packet window, asksHeld_takeIn l header packet window, ?_⟩
    rw [(takeIn_sending l header packet window).2]
    exact fun f hf => h.marked f (List.mem_filter.1 hf).1
  resend := by
    intro l after window slot resendAt bits packet h hres
    have hasks := h.asksHeld.resend hres
    obtain ⟨seq, frame, -, -, -, rfl⟩ := resend_eq_some hres
    refine ⟨h.distinct.filter _, hasks, fun f hf => ?_⟩
    obtain ⟨g, hg, hseq, hpacket⟩ := mem_postpone hf
    have hmarked := h.marked g hg
    rw [SentFrame.IsMarked, hseq, hpacket] at hmarked
    exact hmarked
  send := by
    intro l packet h hmarked window resendAt
    refine ⟨h.distinct, h.asksHeld.send packet resendAt, fun f hf => ?_⟩
    rcases List.mem_append.1 hf with hf | hf
    · exact h.marked f hf
    · rw [List.mem_singleton.1 hf]
      exact isMarked_stamp hmarked l l.nextSeq window resendAt
  clear h := ⟨h.distinct, h.asksHeld, h.marked⟩

/-! ## What is found -/

/-- The link after the frame with this number was sent again. -/
def resent (l : Link) (seq : SequenceNumber) (resendAt : Nat) : Link :=
  { l with
    unacked := postpone seq resendAt l.unacked
    retransmit := l.retransmit.filter fun s => s ≠ seq
    isAckPending := false }

/-- The frame to send again is found, so that nothing but its length decides whether it is sent. -/
theorem IsTidy.resend_eq (h : l.IsTidy) (hnext : l.nextToResend? window slot = some seq) :
    ∃ f ∈ l.unacked, f.seq = seq ∧ ∀ resendAt bits,
      l.resend window slot resendAt bits = f.packet.bits.map fun length =>
        if bits < length then none
        else some (f.packet.copy.mapUnicast (l.stamp seq window), l.resent seq resendAt) := by
  obtain ⟨f, hfind⟩ := h.asksHeld.exists_find hnext
  have hseq : f.seq = seq := by simpa using List.find?_some hfind
  refine ⟨f, List.mem_of_find?_eq_some hfind, hseq, fun resendAt bits => ?_⟩
  simp only [resend, hnext, hfind]
  cases f.packet.bits with
  | error e => rfl
  | ok length =>
    show (if bits < length then _ else _) = Except.ok (if bits < length then none else _)
    split <;> rfl

theorem IsTidy.retransmit_resent (h : l.IsTidy) {rest : List SequenceNumber}
    (hhead : l.retransmit = seq :: rest) (resendAt : Nat) :
    (l.resent seq resendAt).retransmit = rest := by
  have hdistinct := h.distinct
  rw [hhead, List.nodup_cons] at hdistinct
  show l.retransmit.filter (fun s => s ≠ seq) = rest
  rw [hhead, List.filter_cons_of_neg (by simp), List.filter_eq_self]
  exact fun s hs => decide_eq_true fun heq => hdistinct.1 (heq ▸ hs)

end Link

namespace SelectiveRepeat

variable {ε : Type} [RlcAbove ε]

/-- The frame `seq` is the next one to be sent to `id` again. It is held, and whoever asks for it gets it
under its number if there is room for it; then it is no longer scheduled. -/
def Serves (a : SelectiveRepeat) (id : Address) (seq : SequenceNumber) : Prop :=
  ∃ f ∈ (a.link id).unacked, f.seq = seq ∧ f.IsMarked ∧
    ∀ bits, a.resend bits id = f.packet.bits.map fun length =>
      if bits < length then none
      else some (f.packet.copy.mapUnicast ((a.link id).stamp seq a.config.windowSize),
        a.setLink id ((a.link id).resent seq a.resendAt))

theorem serves_of_isTidy {a : SelectiveRepeat} {id : Address} (h : (a.link id).IsTidy)
    {seq : SequenceNumber}
    (hnext : (a.link id).nextToResend? a.config.windowSize a.slot = some seq) : a.Serves id seq := by
  obtain ⟨f, hf, hseq, hresend⟩ := h.resend_eq hnext
  refine ⟨f, hf, hseq, h.marked f hf, fun bits => ?_⟩
  rw [resend_apply, hresend]
  cases f.packet.bits with
  | error e => rfl
  | ok length =>
    show Except.ok (Option.map _ (if bits < length then none else some _)) =
      Except.ok (if bits < length then none else some _)
    split <;> rfl

/-- **Bookkeeping.** In every state of a run, the lists of every link agree. Whatever a link is to send
again is there to be sent, and a number at the head of the schedule makes way for the ones behind it as
soon as there is room for its frame. -/
theorem bookkeeping_consistent {config : ArqConfig} {arq : SelectiveRepeat}
    (harq : ofConfig config = .ok arq) (rlc : ε) (calls : List (ArqCall ε))
    {s : Inside SelectiveRepeat ε} (hs : run ⟨arq, rlc⟩ calls = s) (id : Address) :
    (s.layer.link id).IsTidy ∧
    (∀ seq, (s.layer.link id).nextToResend? s.layer.config.windowSize s.layer.slot = some seq →
      s.layer.Serves id seq) ∧
    ∀ seq rest, (s.layer.link id).retransmit = seq :: rest →
      s.layer.Serves id seq ∧
        ((s.layer.link id).resent seq s.layer.resendAt).retransmit = rest := by
  obtain ⟨-, rfl⟩ := ofConfig_eq_ok_iff.1 harq
  have htidy : (s.layer.link id).IsTidy :=
    hs ▸ Link.isKept_isTidy.run (s := ⟨⟨config, 0, .empty⟩, rlc⟩)
      (fun _ => Link.isKept_isTidy.fresh) calls id
  refine ⟨htidy, fun seq hnext => serves_of_isTidy htidy hnext, fun seq rest hhead => ?_⟩
  have hnext : (s.layer.link id).nextToResend? s.layer.config.windowSize s.layer.slot = some seq := by
    rw [Link.nextToResend?, hhead]
  exact ⟨serves_of_isTidy htidy hnext, htidy.retransmit_resent hhead _⟩

/-- Station 2 has got the second of three frames only. -/
def refusal : Packet :=
  .ofMessages [⟨some (.base (.ofSource ⟨2⟩)), none⟩,
    ⟨some (.unicast { (default : UnicastHeader) with
      dest := ⟨1⟩
      useArq := true
      nextExpected := .ofByte 1
      rejects := .ofMissing (.ofByte 1) [.ofByte 1, .ofByte 3] }), none⟩]

/-- Three datagrams are sent to station 2, which says twice that it misses two of them. -/
def refused : Inside SelectiveRepeat (Inside SegmentingRlc (Ends Unit)) :=
  run ⟨⟨default, 0, .empty⟩, .empty 256, .empty ()⟩
    ([1, 2, 3].flatMap (fun byte =>
      [.elsewhere fun rlc => (SegmentingRlc.accept ⟨#[byte]⟩ ⟨2⟩ 0 rlc).2, .request 800 ⟨2⟩]) ++
        [.receive refusal, .receive refusal])

/-- The two frames are scheduled once each. The first one is there to be sent, and then the third one is
next. -/
theorem bookkeeping_consistent_refused :
    (refused.layer.link ⟨2⟩).retransmit = [.ofByte 1, .ofByte 3] ∧
      (refused.layer.link ⟨2⟩).IsTidy ∧ refused.layer.Serves ⟨2⟩ (.ofByte 1) ∧
      ((refused.layer.link ⟨2⟩).resent (.ofByte 1) refused.layer.resendAt).retransmit =
        [.ofByte 3] := by
  have hscheduled : (refused.layer.link ⟨2⟩).retransmit = [.ofByte 1, .ofByte 3] := by
    decide +kernel
  obtain ⟨htidy, -, hserves⟩ := bookkeeping_consistent (show ofConfig default = .ok _ from rfl) _ _
    (show run _ _ = refused from rfl) ⟨2⟩
  exact ⟨hscheduled, htidy, hserves _ _ hscheduled⟩

end SelectiveRepeat

end DataLink
