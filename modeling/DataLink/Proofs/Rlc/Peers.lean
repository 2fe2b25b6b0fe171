import DataLink.Proofs.Rlc.Ledger
import DataLink.Proofs.SideBySide

/-!
# What the RLC has for one peer

Everything that an RLC keeps belongs to one peer: a queue and the control packets that wait to the
address they wait for, and a partial datagram to the station that sends it. Two RLCs agree on a peer
if they have the same for it (`SegmentingRlc.AgreesOn`). A call about the peer reads nothing else, so
it has the same result in both and keeps them in agreement; a call about another one keeps an RLC in
agreement with what it was before.

Above is any network layer that takes every datagram, below anything that takes note of every demand
(`IsObliging`). What the network layer is given is noted in a logbook on the way.
-/

namespace DataLink

variable {ε : Type}

/-! ## Surroundings that take everything -/

/-- What is above takes every datagram, and what is below takes note of every demand. -/
structure IsObliging (ε : Type) [NetAbove ε] [ArqBelow ε] : Prop where
  takes : ∀ datagram origin (around : ε), (NetAbove.receive datagram origin around).1 = .ok ()
  notes : ∀ bits dest (around : ε), (ArqBelow.notifyOutgoing bits dest around).1 = .ok ()

/-- Notes the datagrams that are handed up through it, each with its sender. -/
structure Logbook where
  entries : List (Address × Datagram)

namespace Logbook

/-- The datagrams that `peer` sent. -/
def sentBy (peer : Address) (l : Logbook) : List Datagram :=
  (l.entries.filter fun e => e.1 = peer).map Prod.snd

def note (datagram : Datagram) (origin : Address) (l : Logbook) : Logbook :=
  ⟨l.entries ++ [(origin, datagram)]⟩

theorem sentBy_note (datagram : Datagram) (origin peer : Address) (l : Logbook) :
    (l.note datagram origin).sentBy peer =
      l.sentBy peer ++ if origin = peer then [datagram] else [] := by
  by_cases h : origin = peer
  · simp [sentBy, note, h]
  · simp [sentBy, note, h]

/-- The same datagrams from `peer` are noted. -/
def AgreesOn (peer : Address) (l m : Logbook) : Prop := l.sentBy peer = m.sentBy peer

end Logbook

instance [NetAbove ε] : NetAbove (Inside Logbook ε) where
  receive datagram origin := do
    Call.change fun l => l.note datagram origin
    Call.outward (NetAbove.receive datagram origin)
  hops := Call.outward NetAbove.hops
  report id hops := Call.outward (NetAbove.report id hops)

instance [ArqBelow ε] : ArqBelow (Inside Logbook ε) where
  notifyOutgoing bits dest := Call.outward (ArqBelow.notifyOutgoing bits dest)

/-- An RLC whose surroundings are noted. -/
abbrev LoggedRlc (ε : Type) := Inside SegmentingRlc (Inside Logbook ε)

/-! ## Agreement -/

/-- The streams from `peer` have the same so far. -/
def Reassembly.AgreesOn (peer : Address) (streams others : Reassembly) : Prop :=
  ∀ channel, streams.get? ⟨peer, channel⟩ = others.get? ⟨peer, channel⟩

namespace SegmentingRlc

/-- The two have the same for `peer`, and take as many datagrams for one destination. -/
structure AgreesOn (peer : Address) (r s : SegmentingRlc) : Prop where
  maxQueued : r.maxQueued = s.maxQueued
  queues : r.queues.get? peer = s.queues.get? peer
  injected : r.injected.get? peer = s.injected.get? peer
  streams : r.streams.AgreesOn peer s.streams

end SegmentingRlc

/-- The RLCs agree on `peer`, and the datagrams from it that were handed up are the same. What the
surroundings are like does not matter. -/
abbrev LoggedRlc.AgreesOn (peer : Address) : LoggedRlc ε → LoggedRlc ε → Prop :=
  Inside.Alike (SegmentingRlc.AgreesOn peer) (Inside.Alike (Logbook.AgreesOn peer) fun _ _ => True)

variable {peer : Address}

/-! ## Streams -/

/-- The segments of a peer meet what its own streams have. -/
theorem Reassembly.AgreesOn.absorb {streams others : Reassembly} (h : streams.AgreesOn peer others)
    (segments : List (Address × Fragment × Segment)) :
    Matching (fun x y => x.1 = y.1 ∧ AgreesOn peer x.2 y.2)
      (Reassembly.absorb peer segments streams) (Reassembly.absorb peer segments others) := by
  induction segments generalizing streams others with
  | nil => exact .ok ⟨rfl, h⟩
  | cons s rest ih =>
    obtain ⟨channel, fragment, segment⟩ := s
    rw [Reassembly.absorb, Reassembly.absorb, h channel]
    refine .bind_same _ fun taken => ?_
    have hset : AgreesOn peer (streams.set ⟨peer, channel⟩ taken.2)
        (others.set ⟨peer, channel⟩ taken.2) := by
      intro other
      rw [Table.get?_set, Table.get?_set, h other]
    refine (ih hset).bind fun x y hxy => .ok ⟨?_, hxy.2⟩
    show taken.1.toList ++ x.1 = taken.1.toList ++ y.1
    rw [hxy.1]

/-- The segments of another station leave the streams from `peer` alone. -/
theorem Reassembly.AgreesOn.absorb_of_ne {streams others : Reassembly} {origin : Address}
    (h : streams.AgreesOn peer others) (hne : origin ≠ peer)
    {segments : List (Address × Fragment × Segment)} {complete : List Datagram}
    {after : Reassembly} (habsorb : Reassembly.absorb origin segments streams = .ok (complete, after)) :
    after.AgreesOn peer others := by
  induction segments generalizing streams complete with
  | nil =>
    cases habsorb
    exact h
  | cons s rest ih =>
    obtain ⟨channel, fragment, segment⟩ := s
    rw [Reassembly.absorb] at habsorb
    obtain ⟨⟨first, next⟩, -, habsorb⟩ := bind_eq_ok.1 habsorb
    obtain ⟨⟨found, final⟩, hrest, habsorb⟩ := bind_eq_ok.1 habsorb
    cases habsorb
    refine ih ?_ hrest
    intro other
    rw [Table.get?_set, if_neg, h other]
    intro heq
    exact hne (congrArg Stream.origin heq)

namespace SegmentingRlc

variable {r s : SegmentingRlc}

/-! ## What is read, and what is written -/

namespace AgreesOn

theorem refl (peer : Address) (r : SegmentingRlc) : r.AgreesOn peer r :=
  ⟨rfl, rfl, rfl, fun _ => rfl⟩

theorem queue (h : r.AgreesOn peer s) : r.queue peer = s.queue peer := by
  rw [SegmentingRlc.queue, h.queues]
  rfl

theorem injectedFor (h : r.AgreesOn peer s) : r.injectedFor peer = s.injectedFor peer := by
  rw [SegmentingRlc.injectedFor, h.injected]
  rfl

theorem numQueued (h : r.AgreesOn peer s) : r.numQueued peer = s.numQueued peer := by
  rw [SegmentingRlc.numQueued, h.queue]
  rfl

theorem queuedBits (h : r.AgreesOn peer s) : r.queuedBits peer = s.queuedBits peer := by
  rw [SegmentingRlc.queuedBits, h.queue]
  rfl

theorem hasMore (h : r.AgreesOn peer s) : r.hasMore peer = s.hasMore peer := by
  simp only [SegmentingRlc.hasMore, Table.contains, h.queues, h.injected]

theorem setQueues (h : r.AgreesOn peer s) (v : Option (PriorityQueue Outgoing)) :
    AgreesOn peer { r with queues := r.queues.set peer v }
      { s with queues := s.queues.set peer v } := by
  refine ⟨h.maxQueued, ?_, h.injected, h.streams⟩
  rw [Table.get?_set_self, Table.get?_set_self]

theorem setQueues_of_ne (h : r.AgreesOn peer s) {dest : Address} (hne : dest ≠ peer)
    (v : Option (PriorityQueue Outgoing)) :
    AgreesOn peer { r with queues := r.queues.set dest v } s := by
  refine ⟨h.maxQueued, ?_, h.injected, h.streams⟩
  rw [Table.get?_set, if_neg hne]
  exact h.queues

theorem setInjected (h : r.AgreesOn peer s) (v : Option (PriorityQueue Packet)) :
    AgreesOn peer { r with injected := r.injected.set peer v }
      { s with injected := s.injected.set peer v } := by
  refine ⟨h.maxQueued, h.queues, ?_, h.streams⟩
  rw [Table.get?_set_self, Table.get?_set_self]

theorem setInjected_of_ne (h : r.AgreesOn peer s) {dest : Address} (hne : dest ≠ peer)
    (v : Option (PriorityQueue Packet)) :
    AgreesOn peer { r with injected := r.injected.set dest v } s := by
  refine ⟨h.maxQueued, h.queues, ?_, h.streams⟩
  rw [Table.get?_set, if_neg hne]
  exact h.injected

/-! ## The parts of a request -/

/-- The results of two requests: the same packet, and RLCs that still agree. -/
abbrev Answer (peer : Address) (x y : Packet × SegmentingRlc) : Prop :=
  x.1 = y.1 ∧ x.2.AgreesOn peer y.2

theorem popInjected (h : r.AgreesOn peer s) (bits : Nat) :
    Matching (Option.Rel (Answer peer)) (r.popInjected bits peer) (s.popInjected bits peer) := by
  rw [SegmentingRlc.popInjected, SegmentingRlc.popInjected, h.injectedFor]
  cases (s.injectedFor peer).front? with
  | none => exact .ok .none
  | some packet =>
    refine .bind_same packet.bits fun n => ?_
    by_cases hbits : bits < n
    · rw [if_pos hbits, if_pos hbits]
      exact .ok .none
    · rw [if_neg hbits, if_neg hbits]
      exact .ok (.some ⟨rfl, h.setInjected _⟩)

theorem popInjected_of_ne (h : r.AgreesOn peer s) {dest : Address} (hne : dest ≠ peer) {bits : Nat}
    {packet : Packet} {after : SegmentingRlc}
    (hpop : r.popInjected bits dest = .ok (some (packet, after))) : after.AgreesOn peer s := by
  obtain ⟨-, -, rfl⟩ := popInjected_eq_some hpop
  exact h.setInjected_of_ne hne _

theorem fill (h : r.AgreesOn peer s) (bits : Nat) :
    Matching (Answer peer) (r.fill bits peer) (s.fill bits peer) := by
  rw [SegmentingRlc.fill, SegmentingRlc.fill, h.queue]
  exact .bind_same _ fun packet => .ok ⟨rfl, h.setQueues _⟩

theorem fill_of_ne (h : r.AgreesOn peer s) {dest : Address} (hne : dest ≠ peer) {bits : Nat}
    {packet : Packet} {after : SegmentingRlc} (hfill : r.fill bits dest = .ok (packet, after)) :
    after.AgreesOn peer s := by
  obtain rfl := fill_eq_ok hfill
  exact h.setQueues_of_ne hne _

end AgreesOn

/-! ## Calls about the peer -/

section Calls

variable [NetAbove ε] [ArqBelow ε]

/-- Demand is noted in both, whatever it is for. -/
theorem mirrors_notifyOutgoing (hobliging : IsObliging ε) (bits : Nat) (dest : Address) :
    (Call.outward (ArqBelow.notifyOutgoing bits dest) : Call (LoggedRlc ε) Unit).Mirrors
      (LoggedRlc.AgreesOn peer) (Call.outward (ArqBelow.notifyOutgoing bits dest)) Eq := by
  refine .outward (.outward fun x y _ => ?_)
  rw [hobliging.notes, hobliging.notes]
  exact ⟨.refl _, trivial⟩

theorem mirrors_accept (hobliging : IsObliging ε) (datagram : Datagram) (priority : Nat) :
    (accept datagram peer priority : Call (LoggedRlc ε) Unit).Mirrors (LoggedRlc.AgreesOn peer)
      (accept datagram peer priority) Eq := by
  have henqueue : (Call.change fun r => r.enqueue datagram peer priority :
      Call (LoggedRlc ε) Unit).Mirrors (LoggedRlc.AgreesOn peer)
        (Call.change fun r => r.enqueue datagram peer priority) Eq := by
    refine .change fun r s h => ?_
    rw [enqueue, enqueue, h.queue]
    exact h.setQueues (some _)
  unfold accept
  refine .ite Iff.rfl (.fail _) (.bind .own fun r s h => ?_)
  rw [h.maxQueued, h.numQueued, h.queuedBits]
  exact .ite Iff.rfl (.fail _)
    (.bind_same (mirrors_notifyOutgoing hobliging _ _) fun _ => henqueue)

omit [NetAbove ε] [ArqBelow ε] in
theorem mirrors_requestBurst (bits frame : Nat) :
    (requestBurst bits peer frame : Call (LoggedRlc ε) Packet).Mirrors (LoggedRlc.AgreesOn peer)
      (requestBurst bits peer frame) Eq := by
  unfold requestBurst
  refine .ite Iff.rfl (.pure rfl) (.bind .own fun r s h => ?_)
  have hanswer : ∀ x y, AgreesOn.Answer peer x y →
      (do Call.change fun _ => x.2; pure x.1 : Call (LoggedRlc ε) Packet).Mirrors
        (LoggedRlc.AgreesOn peer) (do Call.change fun _ => y.2; pure y.1) Eq :=
    fun x y hxy => .bind (.change fun _ _ _ => hxy.2) fun _ _ _ => .pure hxy.1
  -- A control packet goes first, if one is served; the same one in both.
  refine .ite Iff.rfl (.bind (.ofExcept (h.popInjected bits)) ?_)
    (.bind (Q := Option.Rel (AgreesOn.Answer peer)) (.pure .none) ?_)
  all_goals
    intro control other hserved
    cases hserved with
    | none => exact .bind (.ofLayer (h.fill bits)) hanswer
    | some hxy => exact .bind (.pure hxy) hanswer

theorem mirrors_handUp (hobliging : IsObliging ε) (datagrams : List Datagram) :
    (handUp peer datagrams : Call (LoggedRlc ε) Unit).Mirrors (LoggedRlc.AgreesOn peer)
      (handUp peer datagrams) Eq := by
  induction datagrams with
  | nil => exact .pure rfl
  | cons d rest ih =>
    have hreceive : (NetAbove.receive d peer : Call ε Unit).Mirrors (fun _ _ => True)
        (NetAbove.receive d peer : Call ε Unit) Eq := by
      intro x y _
      rw [hobliging.takes, hobliging.takes]
      exact ⟨.refl _, trivial⟩
    have hnote : (Call.change fun l => l.note d peer : Call (Inside Logbook ε) Unit).Mirrors
        (Inside.Alike (Logbook.AgreesOn peer) fun (_ _ : ε) => True)
        (Call.change fun l => l.note d peer) Eq := by
      refine .change fun l m h => ?_
      rw [Logbook.AgreesOn, Logbook.sentBy_note, Logbook.sentBy_note, h]
    exact .bind_same (.outward (.bind_same hnote fun _ => .outward hreceive)) fun _ => ih

theorem mirrors_receive (hobliging : IsObliging ε) {packet : Packet} (horigin : packet.origin = peer) :
    (receive packet : Call (LoggedRlc ε) Unit).Mirrors (LoggedRlc.AgreesOn peer)
      (receive packet) Eq := by
  unfold receive
  rw [horigin]
  refine .bind .own fun r s h => .bind (.ofExcept (h.streams.absorb _)) fun x y hxy => ?_
  obtain ⟨⟨complete, streams⟩, ⟨complete', streams'⟩⟩ := x, y
  obtain rfl : complete = complete' := hxy.1
  refine .bind_same (.change fun a b h => ?_) fun _ => mirrors_handUp hobliging complete
  exact ⟨h.maxQueued, h.queues, h.injected, hxy.2⟩

omit [NetAbove ε] [ArqBelow ε] in
theorem mirrors_inject {packet : Packet} (hkey : injectionKey packet = peer) (priority : Nat) :
    (Call.change fun r => r.inject packet priority : Call (LoggedRlc ε) Unit).Mirrors
      (LoggedRlc.AgreesOn peer) (Call.change fun r => r.inject packet priority) Eq := by
  refine .change fun r s h => ?_
  rw [inject, inject, hkey, h.injectedFor]
  exact h.setInjected (some _)

/-! ## Calls about another one -/

variable {other : Address} {t : LoggedRlc ε}

omit [NetAbove ε] in
theorem accept_of_ne (hne : other ≠ peer) (datagram : Datagram) (priority : Nat) :
    (accept datagram other priority : Call (LoggedRlc ε) Unit).Preserves
      fun s => LoggedRlc.AgreesOn peer s t := by
  unfold accept
  have hnotify : ∀ bits, (Call.outward (ArqBelow.notifyOutgoing bits other) :
      Call (LoggedRlc ε) Unit).Preserves fun s => LoggedRlc.AgreesOn peer s t :=
    fun _ => .outwardBeside (.outwardBeside fun _ h => ⟨h, fun _ _ => trivial⟩)
  have henqueue : (Call.change fun r => r.enqueue datagram other priority :
      Call (LoggedRlc ε) Unit).Preserves fun s => LoggedRlc.AgreesOn peer s t :=
    .changeBeside fun _ h => h.setQueues_of_ne hne (some _)
  exact .ite (.fail _) (.bind .look fun r _ =>
    .ite (.fail _) (.bind (hnotify _) fun _ _ => henqueue))

omit [NetAbove ε] [ArqBelow ε] in
theorem requestBurst_of_ne (hne : other ≠ peer) (bits frame : Nat) :
    (requestBurst bits other frame : Call (LoggedRlc ε) Packet).Preserves
      fun s => LoggedRlc.AgreesOn peer s t := by
  unfold requestBurst
  refine .ite (.pure trivial) (.bind .ownBeside fun r h => ?_)
  have hanswer : ∀ x : Packet × SegmentingRlc, x.2.AgreesOn peer t.layer →
      (do Call.change fun _ => x.2; pure x.1 : Call (LoggedRlc ε) Packet).Preserves
        fun s => LoggedRlc.AgreesOn peer s t :=
    fun x hx => .bind (.changeBeside fun _ _ => hx) fun _ _ => .pure trivial
  have hfill : ∀ x, r.fill bits other = .ok x → x.2.AgreesOn peer t.layer :=
    fun _ hfill => h.fill_of_ne hne hfill
  refine .ite (.bind (Q := fun served => ∀ x ∈ served, x.2.AgreesOn peer t.layer)
    (.ofExcept ?_) ?_) (.bind (Q := fun served => served = none) (.pure rfl) ?_)
  · intro served hpop x hx
    obtain rfl := Option.mem_def.1 hx
    exact h.popInjected_of_ne hne hpop
  · intro served hserved
    cases served with
    | none => exact .bind (.ofLayer hfill) hanswer
    | some x => exact .bind (.pure (hserved x rfl)) hanswer
  · rintro _ rfl
    exact .bind (.ofLayer hfill) hanswer

omit [ArqBelow ε] in
theorem handUp_of_ne (hne : other ≠ peer) (datagrams : List Datagram) :
    (handUp other datagrams : Call (LoggedRlc ε) Unit).Preserves
      fun s => LoggedRlc.AgreesOn peer s t := by
  induction datagrams with
  | nil => exact .pure trivial
  | cons d rest ih =>
    have hnote : (Call.change fun l => l.note d other : Call (Inside Logbook ε) Unit).Preserves
        fun s => Inside.Alike (Logbook.AgreesOn peer) (fun _ _ => True) s t.around := by
      refine .changeBeside fun l h => ?_
      rw [Logbook.AgreesOn, Logbook.sentBy_note, if_neg hne, List.append_nil]
      exact h
    have hreceive : (NetAbove.receive d other : Call (Inside Logbook ε) Unit).Preserves
        fun s => Inside.Alike (Logbook.AgreesOn peer) (fun _ _ => True) s t.around :=
      .bind hnote fun _ _ => .outwardBeside fun _ h => ⟨h, fun _ _ => trivial⟩
    exact .bind (.outwardBeside hreceive) fun _ _ => ih

omit [ArqBelow ε] in
theorem receive_of_ne {packet : Packet} (hne : packet.origin ≠ peer) :
    (receive packet : Call (LoggedRlc ε) Unit).Preserves
      fun s => LoggedRlc.AgreesOn peer s t := by
  unfold receive
  refine .bind .ownBeside fun r h => .bind (Q := fun x => x.2.AgreesOn peer t.layer.streams)
    (.ofExcept fun x habsorb => h.streams.absorb_of_ne hne habsorb) ?_
  rintro ⟨complete, streams⟩ hstreams
  refine .bind (.changeBeside fun a ha => ?_) fun _ _ => handUp_of_ne hne complete
  exact ⟨ha.maxQueued, ha.queues, ha.injected, hstreams⟩

omit [NetAbove ε] [ArqBelow ε] in
theorem inject_of_ne {packet : Packet} (hne : injectionKey packet ≠ peer) (priority : Nat) :
    (Call.change fun r => r.inject packet priority : Call (LoggedRlc ε) Unit).Preserves
      fun s => LoggedRlc.AgreesOn peer s t :=
  .changeBeside fun _ h => h.setInjected_of_ne hne (some _)

end Calls

end SegmentingRlc

end DataLink
