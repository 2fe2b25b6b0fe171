import DataLink.Proofs.Arq.Calls
import DataLink.Proofs.Arq.Delivery

/-!
# What goes over a link

When a packet is asked for, a link sends a frame again, numbers a new one, acknowledges or stays as it
is (`Link.Answers`, `requestBurst_cases`). Whatever it answers tells the other end what it has
received (`Link.Answers.tells`), and a frame among it is one of those that were numbered
(`Link.Answers.carries`). `takeIn` is the other end of this: what a link makes of a packet from its
peer.
-/

namespace DataLink

open SequenceNumber

/-! ## Answers -/

namespace Link

/-- The answers that a link may give when a packet is asked for, and the link afterwards. -/
inductive Answers (window : Nat) (l : Link) : Packet → Link → Prop
  /-- A frame that is held is sent again. -/
  | again {f : SentFrame} (hf : f ∈ l.unacked) (resendAt : Nat)
      (retransmit : List SequenceNumber) :
      Answers window l (f.packet.copy.mapUnicast (l.stamp f.seq window))
        { l with unacked := postpone f.seq resendAt l.unacked, retransmit, isAckPending := false }
  /-- A packet with data is numbered. -/
  | new {packet : Packet} (hbuilt : packet.IsBuilt)
      (hdata : packet.unicastHeaders.isEmpty = false) (resendAt : Nat) :
      Answers window l (l.send packet window resendAt).1 (l.send packet window resendAt).2
  /-- A packet without data carries an acknowledgement. -/
  | ack {packet out : Packet} {header : UnicastHeader} (hbuilt : packet.IsBuilt)
      (hdata : packet.unicastHeaders.isEmpty = true) {dest : Address}
      (hheader : l.ackHeader dest window = .ok header)
      (hadd : packet.add (some (.unicast header)) none = .ok out) :
      Answers window l out { l with isAckPending := false }
  /-- A packet without data goes out as it is. -/
  | none {packet : Packet} (hbuilt : packet.IsBuilt)
      (hdata : packet.unicastHeaders.isEmpty = true) : Answers window l packet l

end Link

namespace SelectiveRepeat

variable {ε : Type} [RlcAbove ε]

/-- A request for a protected destination fails and changes nothing, or the link answers it. -/
theorem requestBurst_cases {s : Inside SelectiveRepeat ε} {dest : Address}
    (hp : s.layer.isProtected dest = true) (bits frame : Nat)
    (hrlc : ∀ packet, (RlcAbove.requestBurst bits dest frame s.around).1 = .ok packet →
      packet.IsBuilt) :
    ((requestBurst bits dest frame s).2.around = s.around ∨
      (requestBurst bits dest frame s).2.around =
        (RlcAbove.requestBurst bits dest frame s.around).2) ∧
    ((∃ e, (requestBurst bits dest frame s).1 = .error e ∧
        (requestBurst bits dest frame s).2.layer = s.layer) ∨
      ∃ out l, (requestBurst bits dest frame s).1 = .ok out ∧
        (requestBurst bits dest frame s).2.layer = s.layer.setLink dest l ∧
        (s.layer.link dest).Answers s.layer.config.windowSize out l) := by
  rw [requestBurst_apply hp]
  cases hres : s.layer.resend bits dest with
  | error e => exact ⟨Or.inl rfl, Or.inl ⟨e, rfl, rfl⟩⟩
  | ok found =>
    cases found with
    | some found =>
      obtain ⟨packet, after⟩ := found
      obtain ⟨l, hl, rfl⟩ := resend_eq_some_iff.1 hres
      obtain ⟨seq, f, -, hfind, rfl, rfl⟩ := Link.resend_eq_some hl
      have hseq : f.seq = seq := by simpa using List.find?_some hfind
      subst hseq
      exact ⟨Or.inl rfl, Or.inr ⟨_, _, rfl, rfl, .again (List.mem_of_find?_eq_some hfind) _ _⟩⟩
    | none =>
      generalize RlcAbove.requestBurst bits dest frame s.around = answer at hrlc ⊢
      rcases answer with ⟨e | packet, around⟩
      · exact ⟨Or.inr rfl, Or.inl ⟨e, rfl, rfl⟩⟩
      · have hbuilt := hrlc packet rfl
        simp only
        cases hseq : s.layer.sequence packet bits dest with
        | error e => exact ⟨Or.inr rfl, Or.inl ⟨e, rfl, rfl⟩⟩
        | ok found =>
          obtain ⟨out, after⟩ := found
          refine ⟨Or.inr rfl, Or.inr ?_⟩
          cases hdata : packet.unicastHeaders.isEmpty with
          | true =>
            simp only [sequence, hdata, if_true] at hseq
            rcases acknowledge_eq_ok hseq with ⟨rfl, rfl⟩ | ⟨header, hheader, hadd, rfl⟩
            · exact ⟨_, _, rfl, rfl, .none hbuilt hdata⟩
            · exact ⟨_, _, rfl, rfl, .ack hbuilt hdata hheader hadd⟩
          | false =>
            simp only [sequence, hdata, Bool.false_eq_true, if_false] at hseq
            cases hseq
            exact ⟨_, _, rfl, rfl, .new hbuilt hdata _⟩

/-- Whatever the RLC answers, a request changes one link at most, and nothing about what was received
on it. -/
theorem requestBurst_layer (bits frame : Nat) (dest : Address) (s : Inside SelectiveRepeat ε) :
    (requestBurst bits dest frame s).2.layer = s.layer ∨
      ∃ l, (requestBurst bits dest frame s).2.layer = s.layer.setLink dest l ∧
        (s.layer.link dest).ReceivesLike l := by
  by_cases hp : s.layer.isProtected dest = true
  · rw [requestBurst_apply hp]
    split
    · exact Or.inl rfl
    · next hres =>
      obtain ⟨l, hl, rfl⟩ := resend_eq_some_iff.1 hres
      obtain ⟨_, _, -, -, -, rfl⟩ := Link.resend_eq_some hl
      exact Or.inr ⟨_, rfl, rfl, rfl⟩
    · split
      · exact Or.inl rfl
      · split
        · exact Or.inl rfl
        · next hseq =>
          unfold sequence at hseq
          split at hseq
          · rcases acknowledge_eq_ok hseq with ⟨-, rfl⟩ | ⟨header, -, -, rfl⟩
            · exact Or.inr ⟨_, rfl, rfl, rfl⟩
            · exact Or.inr ⟨_, rfl, rfl, rfl⟩
          · cases hseq
            exact Or.inr ⟨_, rfl, rfl, rfl⟩
  · rw [requestBurst_unprotected (by simpa using hp)]
    exact Or.inl rfl

theorem receivesLike_setLink {a : SelectiveRepeat} {dest : Address} {l : Link}
    (h : (a.link dest).ReceivesLike l) (id : Address) :
    (a.link id).ReceivesLike ((a.setLink dest l).link id) := by
  rw [link_setLink]
  split
  · next heq => exact heq ▸ h
  · exact ⟨rfl, rfl⟩

theorem receivesLike_requestBurst (bits frame : Nat) (dest : Address)
    (s : Inside SelectiveRepeat ε) :
    (requestBurst bits dest frame s).2.layer.config = s.layer.config ∧
      ∀ id, (s.layer.link id).ReceivesLike ((requestBurst bits dest frame s).2.layer.link id) := by
  rcases requestBurst_layer bits frame dest s with hlayer | ⟨l, hlayer, hlike⟩
  · rw [hlayer]
    exact ⟨rfl, fun _ => ⟨rfl, rfl⟩⟩
  · rw [hlayer]
    exact ⟨rfl, receivesLike_setLink hlike⟩

theorem requestBurst_around (bits frame : Nat) (dest : Address) (s : Inside SelectiveRepeat ε) :
    (requestBurst bits dest frame s).2.around = s.around ∨
      (requestBurst bits dest frame s).2.around =
        (RlcAbove.requestBurst bits dest frame s.around).2 := by
  by_cases hp : s.layer.isProtected dest = true
  · rw [requestBurst_apply hp]
    split
    · exact Or.inl rfl
    · exact Or.inl rfl
    · generalize RlcAbove.requestBurst bits dest frame s.around = answer
      rcases answer with ⟨e | packet, around⟩
      · exact Or.inr rfl
      · simp only
        split <;> exact Or.inr rfl
  · rw [requestBurst_unprotected (by simpa using hp)]
    exact Or.inr rfl

theorem takeIn_apply (a : SelectiveRepeat) (origin : Address) (h : UnicastHeader)
    (packet : Packet) : a.takeIn origin h packet =
      (((a.link origin).takeIn h packet a.config.windowSize).1,
        a.setLink origin ((a.link origin).takeIn h packet a.config.windowSize).2) := by
  simp only [takeIn, Link.takeIn]
  split <;> rfl

end SelectiveRepeat

/-! ## The sending end -/

/-- The packet, if it got a number when the link changed. -/
def Link.numbered (before after : Link) (packet : Packet) : List Packet :=
  if after.nextSeq = before.nextSeq then [] else [packet]

theorem Link.numbered_congr (l m : Link) {p q : Packet} (h : p.content = q.content) :
    (l.numbered m p).map Packet.content = (l.numbered m q).map Packet.content := by
  rw [numbered, numbered]
  split
  · rfl
  · rw [List.map_singleton, List.map_singleton, h]

variable {reach window : Nat} {sent : List Packet} {l m : Link} {out : Packet} {acked : Nat}

theorem Link.Answers.receivesLike (h : l.Answers window out m) : l.ReceivesLike m := by
  cases h <;> exact ⟨rfl, rfl⟩

theorem Sending.answers (h : Sending reach sent acked l) (hpos : 0 < reach)
    (hwidest : reach ≤ 127) (ha : l.Answers window out m) (hclear : m.isClear reach = true) :
    Sending reach (sent ++ (l.numbered m out).map Packet.content) acked m := by
  cases ha with
  | again hf resendAt retransmit =>
    rw [Link.numbered, if_pos rfl, List.map_nil, List.append_nil]
    exact h.postpone _ resendAt rfl rfl
  | @new packet hbuilt hdata resendAt =>
    have hne : (l.send packet window resendAt).2.nextSeq ≠ l.nextSeq := by
      show l.nextSeq.next ≠ l.nextSeq
      rw [h.nextSeq, next_atPosition, ne_eq, atPosition_inj]
      omega
    rw [Link.numbered, if_neg hne]
    show Sending reach (sent ++ [(packet.mapUnicast (l.stamp l.nextSeq window)).content]) acked _
    rw [Link.content_stamp]
    exact h.send hpos hwidest packet resendAt hclear
  | ack hbuilt hdata hheader hadd =>
    rw [Link.numbered, if_pos rfl, List.map_nil, List.append_nil]
    exact h.congr rfl rfl
  | none hbuilt hdata =>
    rw [Link.numbered, if_pos rfl, List.map_nil, List.append_nil]
    exact h

theorem Link.Answers.numbered_content (h : l.Answers window out m) :
    ∀ c ∈ (l.numbered m out).map Packet.content, c.IsFrame ∧ c.IsSound := by
  cases h with
  | @new packet hbuilt hdata resendAt =>
    have hcontent : (l.send packet window resendAt).1.content = packet.content :=
      Link.content_stamp l l.nextSeq window packet
    intro c hc
    rw [Link.numbered] at hc
    split at hc
    · cases hc
    · rw [List.map_singleton, List.mem_singleton, hcontent] at hc
      rw [hc, Packet.isFrame_content, Packet.isSound_content]
      exact ⟨hbuilt.isFrame hdata, hbuilt.sound⟩
  | again hf resendAt retransmit => simp [Link.numbered]
  | ack hbuilt hdata hheader hadd => simp [Link.numbered]
  | none hbuilt hdata => simp [Link.numbered]

/-! ## On the way -/

/-- The packet carries one of the frames `sent`, which was recent when it was sent, or none of them. -/
def Packet.Carries (reach : Nat) (sent : List Packet) (packet : Packet) : Prop :=
  ∀ h, packet.arqHeader? = some h → h.seq = .unset ∨
    ∃ i, h.seq = .atPosition i ∧ sent.length ≤ i + (255 - reach) ∧
      sent[i]? = some packet.content

theorem Packet.IsFrame.arqHeader? {p : Packet} (hp : p.IsFrame) {source : Address}
    (hs : source.isSet = true) (l : Link) (seq : SequenceNumber) (window : Nat) :
    ((p.mapUnicast (l.stamp seq window)).sign source).origin = source ∧
      ∃ h, ((p.mapUnicast (l.stamp seq window)).sign source).arqHeader? = some h ∧
        h.seq = seq ∧ h.nextExpected = l.nextExpected := by
  have horigin : ((p.mapUnicast (l.stamp seq window)).sign source).origin = source :=
    origin_sign ((shape_mapUnicast _ p).symm ▸ hp.lead) source
  refine ⟨horigin, ?_⟩
  have hdata := hp.unicastHeaders
  rw [Packet.arqHeader?, horigin, if_pos hs, unicastHeaders_sign, unicastHeaders_mapUnicast]
  cases hu : p.unicastHeaders with
  | nil => simp [hu] at hdata
  | cons u rest => exact ⟨l.stamp seq window u, rfl, rfl, rfl⟩

theorem Packet.arqHeader?_eq_none {p : Packet} (h : p.unicastHeaders.isEmpty = true) :
    p.arqHeader? = none := by
  rw [Packet.arqHeader?, List.isEmpty_iff.1 h]
  exact ite_self none

theorem Packet.IsBuilt.arqHeader?_ack {p : Packet} (hbuilt : p.IsBuilt)
    (hdata : p.unicastHeaders.isEmpty = true) {dest : Address} {header : UnicastHeader}
    (hheader : l.ackHeader dest window = .ok header)
    (hadd : p.add (some (.unicast header)) Option.none = .ok out) {source : Address}
    (hs : source.isSet = true) : (out.sign source).origin = source ∧
      (out.sign source).arqHeader? = some header ∧
      header.seq = .unset ∧ header.nextExpected = l.nextExpected := by
  have hfields : header.useArq = true ∧ header.seq = .unset ∧
      header.nextExpected = l.nextExpected := by
    rw [Link.ackHeader_eq_ok hheader]
    exact ⟨rfl, rfl, rfl⟩
  have hunicast : out.unicastHeaders = [header] := by
    rw [unicastHeaders_add hadd, List.isEmpty_iff.1 hdata, List.nil_append]
  have horigin := origin_sign (lead_add (hbuilt.lead_of_add hadd) hadd) source
  refine ⟨horigin, ?_, hfields.2⟩
  rw [Packet.arqHeader?, horigin, if_pos hs, unicastHeaders_sign, hunicast, List.find?_cons,
    hfields.1]

/-- A frame that a link answers with is one of those that were numbered. -/
theorem Link.Answers.carries (h : l.Answers window out m) (hafter : Sending reach sent acked m)
    (hframes : ∀ c ∈ sent, c.IsFrame) {source : Address} (hs : source.isSet = true) :
    (out.sign source).Carries reach sent := by
  have hframe : ∀ f ∈ m.unacked, ∀ p : Packet, p.content = f.packet.content →
      ((p.mapUnicast (l.stamp f.seq window)).sign source).Carries reach sent := by
    intro f hf p hp header hheader
    obtain ⟨i, hi⟩ := hafter.isAt f hf
    have hp' : p.IsFrame := by
      rw [← Packet.isFrame_content, hp]
      exact hframes _ (List.mem_of_getElem? hi.content)
    obtain ⟨-, stamped, hstamped, hseq, -⟩ := hp'.arqHeader? hs l f.seq window
    rw [hstamped] at hheader
    cases hheader
    refine Or.inr ⟨i, hseq.trans hi.seq, hi.recent, ?_⟩
    rw [Packet.content_sign, Link.content_stamp, hp]
    exact hi.content
  cases h with
  | @again f hf resendAt retransmit =>
    obtain ⟨g, hg, hseq, hpacket⟩ := Link.exists_mem_postpone f.seq resendAt hf
    rw [← hseq]
    exact hframe g hg _ (by rw [Packet.content_copy, hpacket])
  | @new packet hbuilt hdata resendAt =>
    refine hframe _ (List.mem_append_right _ List.mem_cons_self) packet ?_
    rw [Packet.content_copy, Link.content_stamp]
  | ack hbuilt hdata hheader hadd =>
    obtain ⟨-, hfound, hseq, -⟩ := hbuilt.arqHeader?_ack hdata hheader hadd hs
    intro header hh
    rw [hfound] at hh
    cases hh
    exact Or.inl hseq
  | none hbuilt hdata =>
    intro header hh
    rw [Packet.arqHeader?_eq_none (by rw [Packet.unicastHeaders_sign]; exact hdata)] at hh
    cases hh

/-- The frames that are held are frames indeed. -/
def Link.HoldsFrames (l : Link) : Prop := ∀ f ∈ l.unacked, f.packet.IsFrame

theorem Link.HoldsFrames.answers (hheld : l.HoldsFrames) (h : l.Answers window out m) :
    m.HoldsFrames := by
  cases h with
  | @again f hf resendAt retransmit => exact Holds.postpone hheld f.seq resendAt
  | @new packet hbuilt hdata resendAt =>
    refine Holds.send hheld ?_ resendAt
    rw [← Packet.isFrame_content, Packet.content_copy, Link.content_stamp, Packet.isFrame_content]
    exact hbuilt.isFrame hdata
  | ack hbuilt hdata hheader hadd => exact hheld
  | none hbuilt hdata => exact hheld

theorem Link.HoldsFrames.takeIn (hheld : l.HoldsFrames) (h : UnicastHeader) (packet : Packet)
    (window : Nat) : (l.takeIn h packet window).2.HoldsFrames :=
  Holds.takeIn hheld h packet window

/-- Whatever a link answers says what the link has received. -/
theorem Link.Answers.tells (h : l.Answers window out m) (hheld : l.HoldsFrames) {source : Address}
    (hs : source.isSet = true) : (out.sign source).unicastHeaders.isEmpty = true ∨
      ((out.sign source).origin = source ∧ ∃ header,
        (out.sign source).arqHeader? = some header ∧ header.nextExpected = l.nextExpected) := by
  cases h with
  | @again f hf resendAt retransmit =>
    have hframe : f.packet.copy.IsFrame := ⟨(hheld f hf).lead, (hheld f hf).data⟩
    obtain ⟨horigin, header, hheader, -, hexpected⟩ := hframe.arqHeader? hs l f.seq window
    exact Or.inr ⟨horigin, header, hheader, hexpected⟩
  | @new packet hbuilt hdata resendAt =>
    obtain ⟨horigin, header, hheader, -, hexpected⟩ :=
      (hbuilt.isFrame hdata).arqHeader? hs l l.nextSeq window
    exact Or.inr ⟨horigin, header, hheader, hexpected⟩
  | ack hbuilt hdata hheader hadd =>
    obtain ⟨horigin, hfound, -, hexpected⟩ := hbuilt.arqHeader?_ack hdata hheader hadd hs
    exact Or.inr ⟨horigin, _, hfound, hexpected⟩
  | none hbuilt hdata =>
    rw [Packet.unicastHeaders_sign]
    exact Or.inl hdata

theorem Link.Answers.lead (h : l.Answers window out m) (hheld : l.HoldsFrames)
    (hsize : 1 < out.size) : out.shape.head? = some .base := by
  cases h with
  | @again f hf resendAt retransmit =>
    rw [Packet.shape_mapUnicast]
    exact (hheld f hf).lead
  | @new packet hbuilt hdata resendAt =>
    show (packet.mapUnicast _).shape.head? = _
    rw [Packet.shape_mapUnicast]
    exact (hbuilt.isFrame hdata).lead
  | ack hbuilt hdata hheader hadd => exact Packet.lead_add (hbuilt.lead_of_add hadd) hadd
  | none hbuilt hdata =>
    refine hbuilt.lead.resolve_left fun hnil => ?_
    rw [Packet.size, hnil] at hsize
    cases hsize

theorem Link.Answers.eq_of_size_le (h : l.Answers window out m) (hheld : l.HoldsFrames)
    (hsize : out.size ≤ 1) : m = l := by
  cases h with
  | @again f hf resendAt retransmit =>
    have := (hheld f hf).one_lt_size
    rw [Packet.size_mapUnicast] at hsize
    change f.packet.size ≤ 1 at hsize
    omega
  | @new packet hbuilt hdata resendAt =>
    have := (hbuilt.isFrame hdata).one_lt_size
    change (packet.mapUnicast _).size ≤ 1 at hsize
    rw [Packet.size_mapUnicast] at hsize
    omega
  | ack hbuilt hdata hheader hadd =>
    have hpos := Packet.size_pos_of_lead (hbuilt.lead_of_add hadd)
    have hadded := Packet.size_add hadd
    omega
  | none hbuilt hdata => rfl

/-! ## Taking packets in -/

theorem Sending.weaken (h : Sending reach sent acked l) {later : Nat} (hle : acked ≤ later) :
    Sending reach sent later l :=
  ⟨h.nextSeq, h.isAt, fun i hi hlt => h.kept i (Nat.le_trans hle hi) hlt⟩

theorem Sending.takeIn (h : Sending reach sent acked l) (hreach : window ≤ reach)
    {header : UnicastHeader} {expected : Nat} (hexpected : header.nextExpected = .atPosition expected)
    (hle : acked ≤ expected) (packet : Packet) :
    Sending reach sent expected (l.takeIn header packet window).2 := by
  obtain ⟨hnext, hunacked⟩ := Link.takeIn_sending l header packet window
  rw [hexpected] at hunacked
  exact h.acknowledge hreach hle hnext hunacked

variable {horizon received : Nat} {header : UnicastHeader}

/-- The receiver takes a packet that it recognizes for what it is: it hands it up if it is the next
frame, keeps it if it is an early one, and drops it if it is none of those. -/
theorem Receiving.takeIn (h : Receiving window sent horizon received l) (hpos : 0 < window)
    (hwidest : window ≤ 127) {n : Nat} (hhorizon : horizon ≤ n) {packet : Packet}
    (hpacket : packet.IsRecognized window (sent.take n) received header.seq) :
    ∃ after, received ≤ after ∧ Receiving window sent n after (l.takeIn header packet window).2 ∧
      sent.take after = sent.take received ++
        (l.takeIn header packet window).1.map Packet.content := by
  obtain ⟨hle, hexpects⟩ := expects_iff.1 (h.mono (List.prefix_refl sent) hhorizon)
  have hframe : ∀ j, received ≤ j → j < received + window → header.seq = .atPosition j →
      j < n ∧ sent[j]? = some packet.content := by
    intro j hj hlt hseq
    have hget := hpacket j hj hlt hseq
    have hjn := (List.getElem?_eq_some_iff.1 hget).1
    rw [List.length_take] at hjn
    rw [List.getElem?_take_of_lt (by omega)] at hget
    exact ⟨by omega, hget⟩
  obtain ⟨hafter, hup⟩ := hexpects.takeIn hpos (Nat.le_succ window) (by omega) hframe
  obtain ⟨hend, htake⟩ := take_add_of_next hle hup
  exact ⟨_, Nat.le_add_right _ _, expects_iff.2 ⟨hend, hafter⟩, htake⟩

/-- If all is right after a packet was taken in, it was recognized. -/
theorem Receiving.isRecognized_of_takeIn (h : Receiving window sent horizon received l)
    (hpos : 0 < window) (hwidest : window ≤ 127) {n after : Nat} {packet : Packet}
    (hafter : Receiving window sent n after (l.takeIn header packet window).2)
    (hnone : (l.takeIn header packet window).1 = [] → after = received)
    (hfirst : (l.takeIn header packet window).1.head? = some packet →
      sent[received]? = some packet.content) :
    packet.IsRecognized window sent received header.seq := by
  by_cases hset : header.seq.isSet = true
  · obtain ⟨retransmit, hack⟩ := Link.onAck_apply l header.nextExpected header.rejects window
    have hacked : Receiving window sent horizon received { l with
        unacked := l.unacked.filter fun f => !f.seq.isBehind header.nextExpected window
        retransmit
        isAckPending := true } := h.congr ⟨rfl, rfl⟩
    rw [Link.takeIn, hack, if_pos hset] at hafter hnone hfirst
    exact hacked.isRecognized hpos hwidest hafter hnone hfirst
  · intro j _ _ hseq
    rw [hseq, isSet_atPosition] at hset
    cases hset rfl

/-- What carries a recent frame is recognized, if the next one for the receiver is recent as well. -/
theorem Packet.Carries.isRecognized {packet : Packet} (h : packet.Carries reach sent)
    (hheader : packet.arqHeader? = some header) (hreach : window ≤ reach) (hwidest : reach ≤ 127)
    (hle : received ≤ sent.length)
    (hnext : received < sent.length → sent.length ≤ received + (255 - reach)) :
    packet.IsRecognized window sent received header.seq := by
  rcases h header hheader with hseq | ⟨i, hseq, hrecent, hcontent⟩
  · exact fun j _ _ hj => absurd (hj.symm.trans hseq) (atPosition_ne_unset j)
  · rw [hseq]
    exact isRecognized_of_recent (by omega) hcontent (by omega) hle (by omega)

end DataLink
