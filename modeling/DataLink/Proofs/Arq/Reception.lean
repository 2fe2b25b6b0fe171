import DataLink.Proofs.Arq.Counting
import DataLink.Proofs.Arq.Endpoint

/-!
# What an ARQ hands up, whatever arrives

An ARQ is looked at over any RLC that accepts every packet, with a recorder between the two. Packets
of any kind arrive in any order, and anything else may happen in between.

**Theorem (`handedUp_consecutive`).** As long as the link to a peer is not torn down, the frames from
that peer which are handed up have the numbers 1, 2, …, 255, 1, 2, …, one after the other. The link
expects the number after the last of them, and what it keeps early is less than a window ahead.

A frame that is kept early is kept under the number it carries (`Packet.IsFrom`), so the invariant is
the one of `Link.Expects` with the recorder beside it.
-/

namespace DataLink

open SequenceNumber

variable {ε : Type}

/-- The number that `peer` has given to the packet. -/
def Packet.numberFrom? (peer : Address) (p : Packet) : Option SequenceNumber :=
  if p.origin = peer then p.arqHeader?.map UnicastHeader.seq else none

/-- The packet has the number at this position, and `peer` has given it. -/
def Packet.IsFrom (peer : Address) (position : Nat) (p : Packet) : Prop :=
  p.numberFrom? peer = some (.atPosition position)

theorem Packet.IsFrom.numberFrom?_of_ne {source peer : Address} {position : Nat} {p : Packet}
    (h : p.IsFrom source position) (hne : source ≠ peer) : p.numberFrom? peer = none := by
  rw [IsFrom, numberFrom?] at h
  split at h
  · next horigin => rw [numberFrom?, if_neg (horigin ▸ hne)]
  · cases h

theorem filterMap_numberFrom? {peer : Address} {packets : List Packet} {start : Nat}
    (h : ∀ k p, packets[k]? = some p → Packet.IsFrom peer (start + k) p) :
    packets.filterMap (Packet.numberFrom? peer) =
      (List.range' start packets.length).map atPosition := by
  induction packets generalizing start with
  | nil => rfl
  | cons packet rest ih =>
    have hfirst : packet.numberFrom? peer = some (.atPosition start) := h 0 packet rfl
    have hnext : ∀ k p, rest[k]? = some p → Packet.IsFrom peer (start + 1 + k) p := by
      intro k p hk
      rw [Nat.add_assoc, Nat.add_comm 1 k]
      exact h (k + 1) p hk
    have hrest := ih hnext
    rw [List.filterMap_cons, hfirst, hrest, List.length_cons, List.range'_succ, List.map_cons]

/-! ## Asking for packets -/

namespace SelectiveRepeat

variable [RlcAbove ε]

theorem hasMore_apply (dest : Address) (s : Inside SelectiveRepeat ε) :
    (hasMore dest s).2.layer = s.layer ∧ ((hasMore dest s).2.around = s.around ∨
      (hasMore dest s).2.around = (RlcAbove.hasMore dest s.around).2) := by
  simp only [hasMore, Call.bind_apply, Call.own_apply]
  cases s.layer.links.get? dest with
  | none => exact ⟨rfl, Or.inr rfl⟩
  | some l =>
    simp only
    split
    · exact ⟨rfl, Or.inl rfl⟩
    · exact ⟨rfl, Or.inr rfl⟩

end SelectiveRepeat

/-! ## A run over any RLC -/

/-- What happens to an ARQ. Whatever the RLC does by itself changes nothing but the RLC. -/
inductive ArqCall (ε : Type) where
  | receive (packet : Packet)
  | request (bits : Nat) (dest : Address)
  | requestBurst (bits : Nat) (dest : Address) (frame : Nat)
  | inject (packet : Packet)
  | tick (slots : Nat)
  | linkUp (id : Address)
  | linkDown (id : Address)
  | hasMore (dest : Address)
  | hops
  | report (id : Address) (hops : Nat)
  | elsewhere (change : ε → ε)

/-- The call tears the link to `peer` down. -/
def ArqCall.tearsDown (peer : Address) : ArqCall ε → Prop
  | linkDown id => id = peer
  | _ => False

/-- An ARQ, and a recorder of what it hands up to the RLC. -/
abbrev RecordedArq (ε : Type) := Inside SelectiveRepeat (Inside Recorder ε)

namespace RecordedArq

variable [RlcAbove ε]

def start (arq : SelectiveRepeat) (rlc : ε) : RecordedArq ε := ⟨arq, ⟨[]⟩, rlc⟩

def step (s : RecordedArq ε) : ArqCall ε → RecordedArq ε
  | .receive packet => (ArqAbove.receive packet s).2
  | .request bits dest => (ArqAbove.request bits dest s).2
  | .requestBurst bits dest frame => (SelectiveRepeat.requestBurst bits dest frame s).2
  | .inject packet => (ArqAbove.inject packet s).2
  | .tick slots => (ArqAbove.tick slots s).2
  | .linkUp id => (ArqAbove.linkUp id s).2
  | .linkDown id => (ArqAbove.linkDown id s).2
  | .hasMore dest => (ArqAbove.hasMore dest s).2
  | .hops => (ArqAbove.hops s).2
  | .report id hops => (ArqAbove.report id hops s).2
  | .elsewhere change => ⟨s.layer, s.around.layer, change s.around.around⟩

def run (s : RecordedArq ε) (calls : List (ArqCall ε)) : RecordedArq ε := calls.foldl step s

/-- The numbers of the frames from `peer` that were handed up, in order. -/
def numbersFrom (peer : Address) (s : RecordedArq ε) : List SequenceNumber :=
  s.around.layer.packets.filterMap (Packet.numberFrom? peer)

/-- The frames from `peer` that were handed up are the first `received` ones, and every link keeps
early frames of its own peer only. -/
structure IsCounted (window : Nat) (peer : Address) (received : Nat) (s : RecordedArq ε) :
    Prop where
  config : s.layer.config.windowSize = window
  numbers : s.numbersFrom peer = (List.range received).map atPosition
  link : (s.layer.link peer).Expects window (Packet.IsFrom peer) received
  others : ∀ id, ∃ n, (s.layer.link id).Expects window (Packet.IsFrom id) n

variable {window received : Nat} {peer : Address} {s t : RecordedArq ε}

omit [RlcAbove ε] in
theorem numbersFrom_append {packets : List Packet}
    (h : t.around.layer.packets = s.around.layer.packets ++ packets) :
    t.numbersFrom peer = s.numbersFrom peer ++ packets.filterMap (Packet.numberFrom? peer) := by
  rw [numbersFrom, h, List.filterMap_append, numbersFrom]

omit [RlcAbove ε] in
theorem IsCounted.congr (h : s.IsCounted window peer received)
    (hconfig : t.layer.config = s.layer.config) (hrecorder : t.around.layer = s.around.layer)
    (hlike : ∀ id, (s.layer.link id).ReceivesLike (t.layer.link id)) :
    t.IsCounted window peer received := by
  refine ⟨hconfig ▸ h.config, ?_, h.link.congr (hlike peer), fun id => ?_⟩
  · rw [numbersFrom, hrecorder]
    exact h.numbers
  · obtain ⟨n, hn⟩ := h.others id
    exact ⟨n, hn.congr (hlike id)⟩

/-! ## Each call -/

theorem IsCounted.receive_of_none (h : s.IsCounted window peer received) {packet : Packet}
    (hheader : packet.arqHeader? = none) :
    (s.step (.receive packet)).IsCounted window peer received := by
  have hstep : s.step (.receive packet) = ⟨s.layer, ⟨s.around.layer.packets ++ [packet]⟩,
      (RlcAbove.receive packet s.around.around).2⟩ := by
    show (SelectiveRepeat.receive packet s).2 = _
    rw [SelectiveRepeat.receive_apply, hheader]
    rfl
  have hnumber : packet.numberFrom? peer = none := by
    rw [Packet.numberFrom?, hheader]
    exact ite_self none
  rw [hstep]
  refine ⟨h.config, ?_, h.link, h.others⟩
  rw [numbersFrom_append (s := s) rfl, List.filterMap_cons, hnumber, List.filterMap_nil,
    List.append_nil]
  exact h.numbers

/-- A packet with ARQ fields changes the link to its sender, and all that can be handed up is. -/
theorem step_receive (haccepts : ∀ packet (above : ε), (RlcAbove.receive packet above).1 = .ok ())
    {packet : Packet} {header : UnicastHeader} (hheader : packet.arqHeader? = some header) :
    (s.step (.receive packet)).layer = s.layer.setLink packet.origin
        ((s.layer.link packet.origin).takeIn header packet s.layer.config.windowSize).2 ∧
      (s.step (.receive packet)).around.layer.packets = s.around.layer.packets ++
        ((s.layer.link packet.origin).takeIn header packet s.layer.config.windowSize).1 := by
  have hstep : s.step (.receive packet) = (SelectiveRepeat.handUp
      ((s.layer.link packet.origin).takeIn header packet s.layer.config.windowSize).1
      { s with
        layer := s.layer.setLink packet.origin
          ((s.layer.link packet.origin).takeIn header packet s.layer.config.windowSize).2 }).2 := by
    show (SelectiveRepeat.receive packet s).2 = _
    rw [SelectiveRepeat.receive_apply, hheader]
    simp only
    rw [SelectiveRepeat.takeIn_apply]
  rw [hstep, SelectiveRepeat.handUp_layer, Recorder.handUp_packets fun p _ => haccepts p]
  exact ⟨rfl, rfl⟩

theorem IsCounted.receive_of_some (haccepts : ∀ packet (above : ε),
      (RlcAbove.receive packet above).1 = .ok ()) (hpos : 0 < window) (hturn : window ≤ 255)
    (h : s.IsCounted window peer received) {packet : Packet} {header : UnicastHeader}
    (hheader : packet.arqHeader? = some header) :
    ∃ n, (s.step (.receive packet)).IsCounted window peer n := by
  obtain ⟨hlayer, hpackets⟩ := step_receive (s := s) haccepts hheader
  rw [h.config] at hlayer hpackets
  have hfrom : ∀ j, header.seq = .atPosition j → packet.IsFrom packet.origin j := by
    intro j hseq
    rw [Packet.IsFrom, Packet.numberFrom?, if_pos rfl, hheader, Option.map_some, hseq]
  have htake : ∀ n, (s.layer.link packet.origin).Expects window (Packet.IsFrom packet.origin) n → _ :=
    fun n hn => hn.takeIn hpos (Nat.le_refl _) hturn fun j _ _ => hfrom j
  have hothers : ∀ id, ∃ n,
      ((s.step (.receive packet)).layer.link id).Expects window (Packet.IsFrom id) n := by
    intro id
    obtain ⟨n, hn⟩ := h.others id
    rw [hlayer, SelectiveRepeat.link_setLink]
    split
    · next heq =>
      subst heq
      exact ⟨_, (htake n hn).1⟩
    · exact ⟨n, hn⟩
  by_cases heq : packet.origin = peer
  · subst heq
    obtain ⟨hafter, hup⟩ := htake received h.link
    refine ⟨received + ((s.layer.link packet.origin).takeIn header packet window).1.length,
      hlayer ▸ h.config, ?_, ?_, hothers⟩
    · rw [numbersFrom_append hpackets, h.numbers, filterMap_numberFrom? hup, ← List.map_append,
        List.range_eq_range', List.range_eq_range']
      have hrange := List.range'_append_1 (s := 0) (m := received)
        (n := ((s.layer.link packet.origin).takeIn header packet window).1.length)
      rw [Nat.zero_add] at hrange
      rw [hrange]
    · rw [hlayer, SelectiveRepeat.link_setLink, if_pos rfl]
      exact hafter
  · obtain ⟨n, hn⟩ := h.others packet.origin
    have hnone : ((s.layer.link packet.origin).takeIn header packet window).1.filterMap
        (Packet.numberFrom? peer) = [] := by
      refine List.filterMap_eq_nil_iff.2 fun p hp => ?_
      obtain ⟨k, hk⟩ := List.getElem?_of_mem hp
      exact ((htake n hn).2 k p hk).numberFrom?_of_ne heq
    refine ⟨received, hlayer ▸ h.config, ?_, ?_, hothers⟩
    · rw [numbersFrom_append hpackets, hnone, List.append_nil]
      exact h.numbers
    · rw [hlayer, SelectiveRepeat.link_setLink, if_neg heq]
      exact h.link

theorem IsCounted.linkDown (h : s.IsCounted window peer received) {id : Address} (hne : id ≠ peer) :
    (s.step (.linkDown id)).IsCounted window peer received := by
  rw [step, linkDown_apply]
  split
  · next after hdown =>
    obtain ⟨l, -, hdown⟩ := bind_eq_ok.1 hdown
    cases hdown
    refine ⟨h.config, h.numbers, ?_, fun other => ?_⟩
    · rw [SelectiveRepeat.link_erase, if_neg hne]
      exact h.link
    · rw [SelectiveRepeat.link_erase]
      split
      · exact ⟨0, .fresh window _⟩
      · exact h.others other
  · exact h

/-- **One call.** Whatever happens, the frames from `peer` stay counted, unless its link is torn
down. -/
theorem IsCounted.step (haccepts : ∀ packet (above : ε),
      (RlcAbove.receive packet above).1 = .ok ()) (hpos : 0 < window) (hturn : window ≤ 255)
    (h : s.IsCounted window peer received) {call : ArqCall ε} (hkept : ¬ call.tearsDown peer) :
    ∃ n, (s.step call).IsCounted window peer n := by
  have hrequest : ∀ bits dest frame,
      IsCounted window peer received (SelectiveRepeat.requestBurst bits dest frame s).2 := by
    intro bits dest frame
    obtain ⟨hconfig, hlike⟩ := SelectiveRepeat.receivesLike_requestBurst bits frame dest s
    refine h.congr hconfig ?_ hlike
    rcases SelectiveRepeat.requestBurst_around bits frame dest s with haround | haround
    · rw [haround]
    · rw [haround]
      rfl
  cases call with
  | receive packet =>
    cases hheader : packet.arqHeader? with
    | none => exact ⟨received, h.receive_of_none hheader⟩
    | some header => exact h.receive_of_some haccepts hpos hturn hheader
  | request bits dest => exact ⟨received, hrequest bits dest 0⟩
  | requestBurst bits dest frame => exact ⟨received, hrequest bits dest frame⟩
  | linkDown id => exact ⟨received, h.linkDown hkept⟩
  | linkUp id =>
    exact ⟨received, h.congr rfl rfl (SelectiveRepeat.receivesLike_setLink ⟨rfl, rfl⟩)⟩
  | hasMore dest =>
    obtain ⟨hlayer, haround⟩ := SelectiveRepeat.hasMore_apply dest s
    refine ⟨received, h.congr (congrArg _ hlayer) ?_ fun id => ?_⟩
    · rcases haround with haround | haround
      · exact congrArg _ haround
      · exact (congrArg _ haround).trans rfl
    · show (s.layer.link id).ReceivesLike ((SelectiveRepeat.hasMore dest s).2.layer.link id)
      rw [hlayer]
      exact ⟨rfl, rfl⟩
  | inject packet | tick slots | hops | report id hops | elsewhere change =>
    exact ⟨received, h.congr rfl rfl fun _ => ⟨rfl, rfl⟩⟩

/-! ## A whole run -/

theorem isCounted_run (haccepts : ∀ packet (above : ε),
      (RlcAbove.receive packet above).1 = .ok ()) (hpos : 0 < window) (hturn : window ≤ 255)
    (h : s.IsCounted window peer received) {calls : List (ArqCall ε)}
    (hkept : ∀ c ∈ calls, ¬ c.tearsDown peer) : ∃ n, (s.run calls).IsCounted window peer n := by
  induction calls generalizing s received with
  | nil => exact ⟨received, h⟩
  | cons call rest ih =>
    obtain ⟨n, hn⟩ := h.step haccepts hpos hturn (hkept call List.mem_cons_self)
    exact ih hn fun c hc => hkept c (List.mem_cons_of_mem _ hc)

omit [RlcAbove ε] in
theorem isCounted_start (config : ArqConfig) (rlc : ε) (peer : Address) :
    (start ⟨config, 0, .empty⟩ rlc).IsCounted config.windowSize peer 0 :=
  ⟨rfl, rfl, .fresh _ _, fun _ => ⟨0, .fresh _ _⟩⟩

/-- **The order of frames.** Whatever arrives and whatever else happens, as long as the link to `peer`
is not torn down: the frames from `peer` that are handed up are numbered without gap or repetition,
the number after the last one is expected next, and the frames that are kept early are ahead of it, by
less than the window. -/
theorem handedUp_consecutive {config : ArqConfig} {arq : SelectiveRepeat}
    (harq : SelectiveRepeat.ofConfig config = .ok arq)
    (haccepts : ∀ packet (above : ε), (RlcAbove.receive packet above).1 = .ok ()) (rlc : ε)
    (peer : Address) (calls : List (ArqCall ε)) (hkept : ∀ c ∈ calls, ¬ c.tearsDown peer) :
    ∃ n, ((start arq rlc).run calls).numbersFrom peer = (List.range n).map atPosition ∧
      (((start arq rlc).run calls).layer.link peer).nextExpected = .atPosition n ∧
      ∀ seq packet, (((start arq rlc).run calls).layer.link peer).early.get? seq = some packet →
        packet.numberFrom? peer = some seq ∧
        ∃ d, (((start arq rlc).run calls).layer.link peer).nextExpected.distance? seq = some d ∧
          1 ≤ d ∧ d ≤ config.windowSize - 1 := by
  obtain ⟨hvalid, rfl⟩ := SelectiveRepeat.ofConfig_eq_ok_iff.1 harq
  obtain ⟨n, hn⟩ := isCounted_run haccepts hvalid.1 (Nat.le_trans hvalid.2 (by decide))
    (isCounted_start config rlc peer) hkept
  refine ⟨n, hn.numbers, hn.link.nextExpected, fun seq packet hget => ?_⟩
  obtain ⟨j, rfl, hlt, hwindow, hfrom⟩ := hn.link.early seq packet hget
  refine ⟨hfrom, j - n, ?_, by omega, by omega⟩
  rw [hn.link.nextExpected, distance?_atPosition]
  congr 1
  omega

/-- An RLC that has nothing to send and takes everything. -/
instance : RlcAbove Unit where
  request _ _ := pure .empty
  requestBurst _ _ _ := pure .empty
  receive _ := pure ()
  inject _ _ := pure ()
  hasMore _ := pure false
  hops := pure 0
  report _ _ := pure ()

/-- A frame with ARQ fields for station 1, with the number at a position. -/
def frameFrom (source : Address) (position : Nat) : Packet :=
  .ofMessages [⟨some (.base (.ofSource source)), none⟩,
    ⟨some (.unicast { (default : UnicastHeader) with
      dest := ⟨1⟩, useArq := true, seq := .atPosition position }), none⟩]

/-- Frames of two stations out of order, doubled, and too far ahead. One link is torn down. -/
def shuffled : List (ArqCall Unit) :=
  [.receive (frameFrom ⟨2⟩ 2), .receive (frameFrom ⟨3⟩ 0), .receive (frameFrom ⟨2⟩ 4),
    .receive (frameFrom ⟨2⟩ 2), .receive (frameFrom ⟨2⟩ 0), .linkDown ⟨3⟩,
    .receive (frameFrom ⟨2⟩ 1), .request 200 ⟨2⟩, .receive (frameFrom ⟨2⟩ 5),
    .receive (frameFrom ⟨2⟩ 254)]

/-- The first three frames are handed up in order, and the sixth one is kept. -/
theorem handedUp_consecutive_shuffled :
    ∃ n, ((start ⟨⟨4, true, 16⟩, 0, .empty⟩ ()).run shuffled).numbersFrom ⟨2⟩ =
        (List.range n).map atPosition ∧
      (((start ⟨⟨4, true, 16⟩, 0, .empty⟩ ()).run shuffled).layer.link ⟨2⟩).nextExpected =
        .atPosition n ∧
      ∀ seq packet, (((start ⟨⟨4, true, 16⟩, 0, .empty⟩ ()).run shuffled).layer.link
          ⟨2⟩).early.get? seq = some packet →
        packet.numberFrom? ⟨2⟩ = some seq ∧
        ∃ d, (((start ⟨⟨4, true, 16⟩, 0, .empty⟩ ()).run shuffled).layer.link
          ⟨2⟩).nextExpected.distance? seq = some d ∧ 1 ≤ d ∧ d ≤ 3 :=
  handedUp_consecutive (show SelectiveRepeat.ofConfig ⟨4, true, 16⟩ = .ok _ from rfl)
    (fun _ _ => rfl) () ⟨2⟩ shuffled (by simp [shuffled, ArqCall.tearsDown])

example : ((start ⟨⟨4, true, 16⟩, 0, .empty⟩ ()).run shuffled).numbersFrom ⟨2⟩ =
    [.atPosition 0, .atPosition 1, .atPosition 2] := by decide +kernel

end RecordedArq

end DataLink
