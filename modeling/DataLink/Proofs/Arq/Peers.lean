import DataLink.Proofs.Arq.Answer
import DataLink.Proofs.Arq.Window
import DataLink.Proofs.Rlc.Peers

/-!
# Peers do not interfere

An ARQ with a segmenting RLC above it serves any number of peers. Both keep what they have in tables,
they share a clock, and one packet may have several headers.

**Theorem (`LoggedTower.answers_filter`).** Take a run of any operations for any peers, and leave out
everything about other peers than one (`TowerOperation.concerns`). The operations about that peer are
answered as before, packets and failures alike, and the same datagrams from it are handed up.

Each call is looked at twice. One about the peer mirrors itself in towers that agree on the peer
(`mirrors_perform`); one about another peer keeps the tower in agreement with one in which it is not
made (`perform_of_ne`). What is handed up when a gap closes was received before, so a link must keep
packets of its own peer only; that is part of the agreement (`SelectiveRepeat.AgreesOn`).
-/

namespace DataLink

variable {ε : Type} {peer : Address}

/-! ## Frames that are kept early -/

namespace Link

variable {l m : Link}

/-- The frames that are kept early came from `peer`. -/
def KeepsFrom (peer : Address) (l : Link) : Prop :=
  ∀ seq packet, l.early.get? seq = some packet → packet.origin = peer

theorem keepsFrom_fresh (peer : Address) : KeepsFrom peer .fresh :=
  fun _ _ h => by cases h

theorem KeepsFrom.congr (h : l.KeepsFrom peer) (hlike : l.ReceivesLike m) : m.KeepsFrom peer := by
  intro seq packet hget
  rw [hlike.early] at hget
  exact h seq packet hget

theorem KeepsFrom.releaseUpTo (h : l.KeepsFrom peer) (count : Nat) :
    (∀ p ∈ (l.releaseUpTo count).1, p.origin = peer) ∧
      (l.releaseUpTo count).2.KeepsFrom peer := by
  induction count generalizing l with
  | zero => exact ⟨List.forall_mem_nil _, h⟩
  | succ count ih =>
    rw [Link.releaseUpTo]
    cases hget : l.early.get? l.nextExpected with
    | none => exact ⟨List.forall_mem_nil _, h⟩
    | some packet =>
      have hrest : KeepsFrom peer { l with
          early := l.early.erase l.nextExpected, nextExpected := l.nextExpected.next } := by
        intro seq other hother
        rw [Table.get?_erase] at hother
        split at hother
        · cases hother
        · exact h seq other hother
      obtain ⟨hup, hafter⟩ := ih hrest
      exact ⟨List.forall_mem_cons.2 ⟨h _ packet hget, hup⟩, hafter⟩

theorem KeepsFrom.accept (h : l.KeepsFrom peer) {packet : Packet} (hp : packet.origin = peer)
    (seq : SequenceNumber) (window : Nat) :
    (∀ p ∈ (l.accept seq packet window).1, p.origin = peer) ∧
      (l.accept seq packet window).2.KeepsFrom peer := by
  unfold Link.accept
  split
  · have hnext : KeepsFrom peer { l with nextExpected := l.nextExpected.next } := h
    obtain ⟨hup, hafter⟩ := hnext.releaseUpTo l.early.size
    exact ⟨List.forall_mem_cons.2 ⟨hp, hup⟩, hafter⟩
  · split
    · refine ⟨List.forall_mem_nil _, fun other p hget => ?_⟩
      rw [Table.get?_insert] at hget
      split at hget
      · cases hget
        exact hp
      · exact h other p hget
    · exact ⟨List.forall_mem_nil _, h⟩

/-- What a packet from the peer completes is handed up, and is from the peer. -/
theorem KeepsFrom.takeIn (h : l.KeepsFrom peer) {packet : Packet} (hp : packet.origin = peer)
    (header : UnicastHeader) (window : Nat) :
    (∀ p ∈ (l.takeIn header packet window).1, p.origin = peer) ∧
      (l.takeIn header packet window).2.KeepsFrom peer := by
  obtain ⟨retransmit, hack⟩ := onAck_apply l header.nextExpected header.rejects window
  simp only [Link.takeIn, hack]
  split
  · exact KeepsFrom.accept (l := { l with
      unacked := l.unacked.filter fun f => !f.seq.isBehind header.nextExpected window
      retransmit
      isAckPending := true }) h hp header.seq window
  · exact ⟨List.forall_mem_nil _, h⟩

end Link

/-! ## Agreement -/

namespace SelectiveRepeat

/-- The two have the same link to `peer`, and one clock. Every link of the first one keeps frames of
its own peer. -/
structure AgreesOn (peer : Address) (a b : SelectiveRepeat) : Prop where
  config : a.config = b.config
  slot : a.slot = b.slot
  links : a.links.get? peer = b.links.get? peer
  early : ∀ id, (a.link id).KeepsFrom id

variable {a b : SelectiveRepeat}

namespace AgreesOn

theorem start (peer : Address) (config : ArqConfig) :
    AgreesOn peer ⟨config, 0, .empty⟩ ⟨config, 0, .empty⟩ :=
  ⟨rfl, rfl, rfl, fun id => Link.keepsFrom_fresh id⟩

theorem link (h : a.AgreesOn peer b) : a.link peer = b.link peer := by
  rw [SelectiveRepeat.link, h.links]
  rfl

theorem keepsFrom (h : a.AgreesOn peer b) : (b.link peer).KeepsFrom peer := h.link ▸ h.early peer

theorem isProtected (h : a.AgreesOn peer b) (id : Address) :
    a.isProtected id = b.isProtected id := by
  rw [SelectiveRepeat.isProtected, h.config]
  rfl

theorem resendAt (h : a.AgreesOn peer b) : a.resendAt = b.resendAt := by
  rw [SelectiveRepeat.resendAt, h.slot, h.config]
  rfl

theorem knownLink? (h : a.AgreesOn peer b) : a.knownLink? peer = b.knownLink? peer := by
  rw [SelectiveRepeat.knownLink?, h.links]
  rfl

theorem setLink (h : a.AgreesOn peer b) {l : Link} (hl : l.KeepsFrom peer) :
    (a.setLink peer l).AgreesOn peer (b.setLink peer l) := by
  refine ⟨h.config, h.slot, ?_, fun id => ?_⟩
  · rw [get?_setLink, get?_setLink, if_pos rfl, if_pos rfl]
  · rw [link_setLink]
    split
    · next heq => exact heq ▸ hl
    · exact h.early id

theorem setLink_of_ne (h : a.AgreesOn peer b) {other : Address} (hne : other ≠ peer) {l : Link}
    (hl : l.KeepsFrom other) : (a.setLink other l).AgreesOn peer b := by
  refine ⟨h.config, h.slot, ?_, fun id => ?_⟩
  · rw [get?_setLink, if_neg hne]
    exact h.links
  · rw [link_setLink]
    split
    · next heq => exact heq ▸ hl
    · exact h.early id

theorem keepsFrom_link_erase (h : a.AgreesOn peer b) (id other : Address) :
    (SelectiveRepeat.link { a with links := a.links.erase id } other).KeepsFrom other := by
  rw [link_erase]
  split
  · exact Link.keepsFrom_fresh other
  · exact h.early other

theorem linkDown (h : a.AgreesOn peer b) :
    Matching (AgreesOn peer) (a.linkDown peer) (b.linkDown peer) := by
  rw [SelectiveRepeat.linkDown, SelectiveRepeat.linkDown, h.knownLink?]
  refine .bind_same _ fun _ => .ok ⟨h.config, h.slot, ?_, h.keepsFrom_link_erase peer⟩
  rw [Table.get?_erase, Table.get?_erase, if_pos rfl, if_pos rfl]

theorem linkDown_of_ne (h : a.AgreesOn peer b) {other : Address} (hne : other ≠ peer)
    {after : SelectiveRepeat} (hdown : a.linkDown other = .ok after) : after.AgreesOn peer b := by
  obtain ⟨l, -, hdown⟩ := bind_eq_ok.1 hdown
  cases hdown
  refine ⟨h.config, h.slot, ?_, h.keepsFrom_link_erase other⟩
  rw [Table.get?_erase, if_neg hne]
  exact h.links

/-! ### Requests -/

/-- The results of two requests: the same packet, and ARQs that still agree. -/
abbrev Answer (peer : Address) (x y : Packet × SelectiveRepeat) : Prop :=
  x.1 = y.1 ∧ x.2.AgreesOn peer y.2

theorem resend (h : a.AgreesOn peer b) (bits : Nat) :
    Matching (Option.Rel (Answer peer)) (a.resend bits peer) (b.resend bits peer) := by
  rw [resend_apply, resend_apply, h.link, h.config, h.slot, h.resendAt]
  cases hres : (b.link peer).resend b.config.windowSize b.slot b.resendAt bits with
  | error e => exact .error e
  | ok found =>
    cases found with
    | none => exact .ok .none
    | some found =>
      obtain ⟨packet, l⟩ := found
      obtain ⟨_, _, -, -, -, rfl⟩ := Link.resend_eq_some hres
      exact .ok (.some ⟨rfl, h.setLink (h.keepsFrom.congr ⟨rfl, rfl⟩)⟩)

theorem resend_of_ne (h : a.AgreesOn peer b) {other : Address} (hne : other ≠ peer) {bits : Nat}
    {packet : Packet} {after : SelectiveRepeat}
    (hres : a.resend bits other = .ok (some (packet, after))) : after.AgreesOn peer b := by
  obtain ⟨l, hl, rfl⟩ := resend_eq_some_iff.1 hres
  obtain ⟨_, _, -, -, -, rfl⟩ := Link.resend_eq_some hl
  exact h.setLink_of_ne hne ((h.early other).congr ⟨rfl, rfl⟩)

theorem acknowledge (h : a.AgreesOn peer b) (packet : Packet) (bits : Nat) :
    Matching (Answer peer) (a.acknowledge packet bits peer) (b.acknowledge packet bits peer) := by
  simp only [SelectiveRepeat.acknowledge, h.link, h.config]
  split
  · refine .bind_same packet.bits fun n => .bind_same _ fun total => ?_
    split
    · exact .ok ⟨rfl, h.setLink h.keepsFrom⟩
    · refine .bind_same _ fun header => .bind_same _ fun out => ?_
      exact .ok ⟨rfl, h.setLink (h.keepsFrom.congr ⟨rfl, rfl⟩)⟩
  · exact .ok ⟨rfl, h.setLink h.keepsFrom⟩

theorem sequence (h : a.AgreesOn peer b) (packet : Packet) (bits : Nat) :
    Matching (Answer peer) (a.sequence packet bits peer) (b.sequence packet bits peer) := by
  unfold SelectiveRepeat.sequence
  split
  · exact h.acknowledge packet bits
  · rw [h.link, h.config, h.resendAt]
    exact .ok ⟨rfl, h.setLink (h.keepsFrom.congr ⟨rfl, rfl⟩)⟩

theorem sequence_of_ne (h : a.AgreesOn peer b) {other : Address} (hne : other ≠ peer)
    {packet out : Packet} {bits : Nat} {after : SelectiveRepeat}
    (hseq : a.sequence packet bits other = .ok (out, after)) : after.AgreesOn peer b := by
  have hlink := h.early other
  unfold SelectiveRepeat.sequence at hseq
  split at hseq
  · rcases acknowledge_eq_ok hseq with ⟨-, rfl⟩ | ⟨header, -, -, rfl⟩
    · exact h.setLink_of_ne hne hlink
    · exact h.setLink_of_ne hne (hlink.congr ⟨rfl, rfl⟩)
  · cases hseq
    exact h.setLink_of_ne hne (hlink.congr ⟨rfl, rfl⟩)

end AgreesOn

end SelectiveRepeat

/-! ## Calls -/

/-- An ARQ with a segmenting RLC above it, whose surroundings are noted. -/
abbrev LoggedTower (ε : Type) := ArqTower (Inside Logbook ε)

/-- The ARQs agree on `peer`, and so do the RLCs. -/
abbrev LoggedTower.AgreesOn (peer : Address) : LoggedTower ε → LoggedTower ε → Prop :=
  Inside.Alike (SelectiveRepeat.AgreesOn peer) (LoggedRlc.AgreesOn peer)

namespace SelectiveRepeat

variable [NetAbove ε]

theorem mirrors_requestBurst (bits frame : Nat) :
    (requestBurst bits peer frame : Call (LoggedTower ε) Packet).Mirrors
      (LoggedTower.AgreesOn peer) (requestBurst bits peer frame) Eq := by
  have hrlc : (Call.outward (RlcAbove.requestBurst bits peer frame) :
      Call (LoggedTower ε) Packet).Mirrors (LoggedTower.AgreesOn peer)
        (Call.outward (RlcAbove.requestBurst bits peer frame)) Eq :=
    .outward (SegmentingRlc.mirrors_requestBurst bits frame)
  unfold requestBurst
  refine .bind .own fun a b h => ?_
  rw [h.isProtected]
  refine .ite Iff.rfl (.bind (.ofExcept (h.resend bits)) fun found other hfound => ?_) hrlc
  cases hfound with
  | some hxy => exact .bind_same (.change fun _ _ _ => hxy.2) fun _ => .pure hxy.1
  | none =>
    refine .bind_same hrlc fun packet => ?_
    refine .bind (.ofExcept (h.sequence packet bits)) fun x y hxy => ?_
    exact .bind_same (.change fun _ _ _ => hxy.2) fun _ => .pure hxy.1

variable [ArqBelow ε]

theorem mirrors_handUp (hobliging : IsObliging ε) {packets : List Packet}
    (hpackets : ∀ p ∈ packets, p.origin = peer) :
    (handUp packets : Call (LoggedTower ε) Unit).Mirrors (LoggedTower.AgreesOn peer)
      (handUp packets) Eq := by
  induction packets with
  | nil => exact .pure rfl
  | cons packet rest ih =>
    have hfirst := hpackets packet List.mem_cons_self
    exact .bind_same (.outward (SegmentingRlc.mirrors_receive hobliging hfirst)) fun _ =>
      ih fun p hp => hpackets p (List.mem_cons_of_mem _ hp)

theorem mirrors_receive (hobliging : IsObliging ε) {packet : Packet}
    (horigin : packet.origin = peer) :
    (receive packet : Call (LoggedTower ε) Unit).Mirrors (LoggedTower.AgreesOn peer)
      (receive packet) Eq := by
  have hup : (Call.outward (RlcAbove.receive packet) : Call (LoggedTower ε) Unit).Mirrors
      (LoggedTower.AgreesOn peer) (Call.outward (RlcAbove.receive packet)) Eq :=
    .outward (SegmentingRlc.mirrors_receive hobliging horigin)
  unfold receive
  cases packet.unicastHeaders.find? UnicastHeader.useArq with
  | none => exact hup
  | some header =>
    refine .ite Iff.rfl (.bind .own fun a b h => ?_) hup
    rw [takeIn_apply, takeIn_apply, horigin, h.link, h.config]
    obtain ⟨hfrom, hafter⟩ := h.keepsFrom.takeIn horigin header b.config.windowSize
    exact .bind_same (.change fun _ _ _ => h.setLink hafter) fun _ =>
      mirrors_handUp hobliging hfrom

omit [ArqBelow ε] in
theorem mirrors_hasMore : (hasMore peer : Call (LoggedTower ε) Bool).Mirrors
    (LoggedTower.AgreesOn peer) (hasMore peer) Eq := by
  have hrlc : (RlcAbove.hasMore peer : Call (LoggedRlc ε) Bool).Mirrors
      (LoggedRlc.AgreesOn peer) (RlcAbove.hasMore peer) Eq :=
    .bind .own fun r s h => .pure h.hasMore
  unfold hasMore
  refine .bind .own fun a b h => ?_
  rw [h.links, h.config, h.slot]
  cases b.links.get? peer with
  | none => exact .outward hrlc
  | some l => exact .ite Iff.rfl (.pure rfl) (.outward hrlc)

omit [ArqBelow ε] in
theorem mirrors_linkUp : (ArqAbove.linkUp peer : Call (LoggedTower ε) Unit).Mirrors
    (LoggedTower.AgreesOn peer) (ArqAbove.linkUp peer) Eq := by
  refine .change fun a b h => ?_
  rw [linkUp, linkUp, ← h.link]
  exact h.setLink (h.early peer)

omit [ArqBelow ε] in
theorem mirrors_linkDown : (ArqAbove.linkDown peer : Call (LoggedTower ε) Unit).Mirrors
    (LoggedTower.AgreesOn peer) (ArqAbove.linkDown peer) Eq :=
  .bind .own fun _ _ h => .bind (.ofLayer h.linkDown) fun _ _ hafter =>
    .change fun _ _ _ => hafter

omit [ArqBelow ε] in
theorem mirrors_tick (slots : Nat) : (ArqAbove.tick slots : Call (LoggedTower ε) Unit).Mirrors
    (LoggedTower.AgreesOn peer) (ArqAbove.tick slots) Eq := by
  refine .change fun a b h => ⟨h.config, ?_, h.links, h.early⟩
  show min (a.slot + slots) lastSlot = min (b.slot + slots) lastSlot
  rw [h.slot]

/-! ## Calls about another one -/

variable {other : Address} {t : LoggedTower ε}

omit [ArqBelow ε] in
theorem requestBurst_of_ne (hne : other ≠ peer) (bits frame : Nat) :
    (requestBurst bits other frame : Call (LoggedTower ε) Packet).Preserves
      fun s => LoggedTower.AgreesOn peer s t := by
  have hrlc : (Call.outward (RlcAbove.requestBurst bits other frame) :
      Call (LoggedTower ε) Packet).Preserves fun s => LoggedTower.AgreesOn peer s t :=
    .outwardBeside (SegmentingRlc.requestBurst_of_ne hne bits frame)
  unfold requestBurst
  refine .bind .ownBeside fun a h => .ite (.bind (Q := fun found => ∀ x ∈ found,
    x.2.AgreesOn peer t.layer) (.ofExcept ?_) fun found hfound => ?_) hrlc
  · intro found hres x hx
    obtain rfl := Option.mem_def.1 hx
    exact h.resend_of_ne hne hres
  · cases found with
    | some x => exact .bind (.changeBeside fun _ _ => hfound x rfl) fun _ _ => .pure trivial
    | none =>
      refine .bind hrlc fun packet _ => ?_
      refine .bind (Q := fun x => x.2.AgreesOn peer t.layer)
        (.ofExcept fun x hseq => h.sequence_of_ne hne hseq) fun x hx => ?_
      exact .bind (.changeBeside fun _ _ => hx) fun _ _ => .pure trivial

omit [ArqBelow ε] in
theorem handUp_of_ne (hne : other ≠ peer) {packets : List Packet}
    (hpackets : ∀ p ∈ packets, p.origin = other) :
    (handUp packets : Call (LoggedTower ε) Unit).Preserves
      fun s => LoggedTower.AgreesOn peer s t := by
  induction packets with
  | nil => exact .pure trivial
  | cons packet rest ih =>
    have hfirst : packet.origin ≠ peer := hpackets packet List.mem_cons_self ▸ hne
    exact .bind (.outwardBeside (SegmentingRlc.receive_of_ne hfirst)) fun _ _ =>
      ih fun p hp => hpackets p (List.mem_cons_of_mem _ hp)

omit [ArqBelow ε] in
theorem receive_of_ne {packet : Packet} (hne : packet.origin ≠ peer) :
    (receive packet : Call (LoggedTower ε) Unit).Preserves
      fun s => LoggedTower.AgreesOn peer s t := by
  have hup : (Call.outward (RlcAbove.receive packet) : Call (LoggedTower ε) Unit).Preserves
      fun s => LoggedTower.AgreesOn peer s t :=
    .outwardBeside (SegmentingRlc.receive_of_ne hne)
  unfold receive
  cases packet.unicastHeaders.find? UnicastHeader.useArq with
  | none => exact hup
  | some header =>
    refine .ite (.bind .ownBeside fun a h => ?_) hup
    rw [takeIn_apply]
    obtain ⟨hfrom, hafter⟩ := (h.early packet.origin).takeIn rfl header a.config.windowSize
    exact .bind (.changeBeside fun _ _ => h.setLink_of_ne hne hafter) fun _ _ =>
      handUp_of_ne hne hfrom

omit [ArqBelow ε] in
theorem preserves_hasMore : (hasMore other : Call (LoggedTower ε) Bool).Preserves
    fun s => LoggedTower.AgreesOn peer s t := by
  have hrlc : (Call.outward (RlcAbove.hasMore other) : Call (LoggedTower ε) Bool).Preserves
      fun s => LoggedTower.AgreesOn peer s t :=
    .outwardBeside (.bind .look fun _ _ => .pure trivial)
  unfold hasMore
  refine .bind .look fun a _ => ?_
  cases a.links.get? other with
  | none => exact hrlc
  | some l => exact .ite (.pure trivial) hrlc

omit [ArqBelow ε] in
theorem linkUp_of_ne (hne : other ≠ peer) :
    (ArqAbove.linkUp other : Call (LoggedTower ε) Unit).Preserves
      fun s => LoggedTower.AgreesOn peer s t :=
  .changeBeside fun _ h => h.setLink_of_ne hne (h.early other)

omit [ArqBelow ε] in
theorem linkDown_of_ne (hne : other ≠ peer) :
    (ArqAbove.linkDown other : Call (LoggedTower ε) Unit).Preserves
      fun s => LoggedTower.AgreesOn peer s t :=
  .bind .ownBeside fun _ h => .bind (Q := fun after => after.AgreesOn peer t.layer)
    (.ofLayer fun _ hdown => h.linkDown_of_ne hne hdown) fun _ hafter =>
      .changeBeside fun _ _ => hafter

end SelectiveRepeat

/-! ## Operations -/

/-- What can be asked about a peer. -/
inductive TowerQuery where
  | hasMore
  | isProtected
  | numUnacked
  | nextExpected
  | numQueued
  | queuedBits

/-- What can be done with a tower. A request outside a burst is one for its first frame. -/
inductive TowerOperation where
  | send (datagram : Datagram) (dest : Address) (priority : Nat)
  | request (bits : Nat) (dest : Address) (frame : Nat)
  | receive (packet : Packet)
  | inject (packet : Packet) (priority : Nat)
  | linkUp (id : Address)
  | linkDown (id : Address)
  | ask (query : TowerQuery) (id : Address)
  | tick (slots : Nat)

/-- The results of operations. -/
inductive TowerAnswer where
  | done
  | packet (p : Packet)
  | flag (b : Bool)
  | count (n : Nat)
  | number (seq : SequenceNumber)
deriving DecidableEq

namespace TowerOperation

/-- The peer that an operation is about: the one that it names, the sender of what is received, and
the address under which a control packet waits. The clock is nobody's. -/
def peer? : TowerOperation → Option Address
  | .send _ dest _ => some dest
  | .request _ dest _ => some dest
  | .receive packet => some packet.origin
  | .inject packet _ => some (SegmentingRlc.injectionKey packet)
  | .linkUp id => some id
  | .linkDown id => some id
  | .ask _ id => some id
  | .tick _ => none

/-- The operation is about this peer, or about nobody. -/
def concerns (peer : Address) (op : TowerOperation) : Bool := op.peer?.all fun id => id = peer

end TowerOperation

namespace LoggedTower

/-- An operation that tells nothing but whether it failed. -/
def carryOut (step : Call (LoggedTower ε) Unit) : Call (LoggedTower ε) TowerAnswer := do
  step
  return .done

section Perform

variable [NetAbove ε]

def answer (id : Address) : TowerQuery → Call (LoggedTower ε) TowerAnswer
  | .hasMore => return .flag (← ArqAbove.hasMore id)
  | .isProtected => return .flag ((← Call.own).isProtected id)
  | .numUnacked => return .count (← Call.ofLayer ((← Call.own).numUnacked id))
  | .nextExpected => return .number (← Call.ofLayer ((← Call.own).nextExpected id))
  | .numQueued => return .count ((← Call.outward Call.own).numQueued id)
  | .queuedBits => return .count ((← Call.outward Call.own).queuedBits id)

variable [ArqBelow ε]

def perform : TowerOperation → Call (LoggedTower ε) TowerAnswer
  | .send datagram dest priority =>
    carryOut (Call.outward (SegmentingRlc.accept datagram dest priority))
  | .request bits dest frame => return .packet (← SelectiveRepeat.requestBurst bits dest frame)
  | .receive packet => carryOut (ArqAbove.receive packet)
  | .inject packet priority => carryOut (Call.outward (RlcAbove.inject packet priority))
  | .linkUp id => carryOut (ArqAbove.linkUp id)
  | .linkDown id => carryOut (ArqAbove.linkDown id)
  | .ask query id => answer id query
  | .tick slots => carryOut (ArqAbove.tick slots)

end Perform

variable [NetAbove ε] [ArqBelow ε] {s t : LoggedTower ε}

/-- A tower in which nothing has happened. -/
def start (config : ArqConfig) (maxQueued : Nat) (around : ε) : LoggedTower ε :=
  ⟨⟨config, 0, .empty⟩, .empty maxQueued, ⟨[]⟩, around⟩

def run (s : LoggedTower ε) (ops : List TowerOperation) : LoggedTower ε :=
  ops.foldl (fun s op => (perform op s).2) s

/-- The results of the operations about `peer`, in order. -/
def answers (peer : Address) (s : LoggedTower ε) : List TowerOperation →
    List (Except Fault TowerAnswer)
  | [] => []
  | op :: rest =>
    let later := answers peer (perform op s).2 rest
    if op.peer? = some peer then (perform op s).1 :: later else later

/-- The datagrams from `peer` that were handed up, in order. -/
def heardFrom (peer : Address) (s : LoggedTower ε) : List Datagram :=
  s.around.around.layer.sentBy peer

/-! ## One operation -/

omit [NetAbove ε] [ArqBelow ε] in
theorem mirrors_carryOut {step : Call (LoggedTower ε) Unit}
    (h : step.Mirrors (AgreesOn peer) step Eq) :
    (carryOut step).Mirrors (AgreesOn peer) (carryOut step) Eq :=
  .bind_same h fun _ => .pure rfl

omit [NetAbove ε] [ArqBelow ε] in
theorem preserves_carryOut {step : Call (LoggedTower ε) Unit}
    (h : step.Preserves fun s => AgreesOn peer s t) :
    (carryOut step).Preserves fun s => AgreesOn peer s t :=
  .bind h fun _ _ => .pure trivial

omit [ArqBelow ε] in
theorem mirrors_answer (query : TowerQuery) :
    (answer peer query : Call (LoggedTower ε) TowerAnswer).Mirrors (AgreesOn peer)
      (answer peer query) Eq := by
  cases query with
  | hasMore => exact .bind_same SelectiveRepeat.mirrors_hasMore fun _ => .pure rfl
  | isProtected => exact .bind .own fun a b h => .pure (by rw [h.isProtected])
  | numUnacked =>
    refine .bind .own fun a b h => ?_
    rw [SelectiveRepeat.numUnacked, SelectiveRepeat.numUnacked, h.knownLink?]
    exact .bind_same (.ofLayer (.refl _)) fun _ => .pure rfl
  | nextExpected =>
    refine .bind .own fun a b h => ?_
    rw [SelectiveRepeat.nextExpected, SelectiveRepeat.nextExpected, h.knownLink?]
    exact .bind_same (.ofLayer (.refl _)) fun _ => .pure rfl
  | numQueued => exact .bind (.outward .own) fun r s h => .pure (by rw [h.numQueued])
  | queuedBits => exact .bind (.outward .own) fun r s h => .pure (by rw [h.queuedBits])

omit [ArqBelow ε] in
theorem preserves_answer (id : Address) (query : TowerQuery) :
    (answer id query : Call (LoggedTower ε) TowerAnswer).Preserves fun s => AgreesOn peer s t := by
  have hlook : (Call.outward Call.own : Call (LoggedTower ε) SegmentingRlc).Preserves
      fun s => AgreesOn peer s t := .outwardBeside .look
  cases query with
  | hasMore => exact .bind SelectiveRepeat.preserves_hasMore fun _ _ => .pure trivial
  | isProtected => exact .bind .look fun _ _ => .pure trivial
  | numUnacked | nextExpected =>
    exact .bind .look fun _ _ => .bind (.ofLayer fun _ _ => trivial) fun _ _ => .pure trivial
  | numQueued | queuedBits => exact .bind hlook fun _ _ => .pure trivial

/-- **An operation about the peer** has the same result in towers that agree on it, and they still
agree then. -/
theorem mirrors_perform (hobliging : IsObliging ε) {op : TowerOperation}
    (hop : op.concerns peer = true) :
    (perform op : Call (LoggedTower ε) TowerAnswer).Mirrors (AgreesOn peer) (perform op) Eq := by
  cases op with
  | tick slots => exact mirrors_carryOut (SelectiveRepeat.mirrors_tick slots)
  | send datagram dest priority =>
    obtain rfl : dest = peer := of_decide_eq_true hop
    exact mirrors_carryOut (.outward (SegmentingRlc.mirrors_accept hobliging datagram priority))
  | request bits dest frame =>
    obtain rfl : dest = peer := of_decide_eq_true hop
    exact .bind_same (SelectiveRepeat.mirrors_requestBurst bits frame) fun _ => .pure rfl
  | receive packet =>
    have horigin := of_decide_eq_true hop
    exact mirrors_carryOut (SelectiveRepeat.mirrors_receive hobliging horigin)
  | inject packet priority =>
    have hkey := of_decide_eq_true hop
    exact mirrors_carryOut (.outward (SegmentingRlc.mirrors_inject hkey priority))
  | linkUp id =>
    obtain rfl : id = peer := of_decide_eq_true hop
    exact mirrors_carryOut SelectiveRepeat.mirrors_linkUp
  | linkDown id =>
    obtain rfl : id = peer := of_decide_eq_true hop
    exact mirrors_carryOut SelectiveRepeat.mirrors_linkDown
  | ask query id =>
    obtain rfl : id = peer := of_decide_eq_true hop
    exact mirrors_answer query

/-- **An operation about another peer** leaves nothing behind that concerns this one. -/
theorem perform_of_ne {op : TowerOperation} (hop : op.concerns peer = false) :
    (perform op : Call (LoggedTower ε) TowerAnswer).Preserves fun s => AgreesOn peer s t := by
  cases op with
  | tick slots => cases hop
  | send datagram dest priority =>
    have hne := of_decide_eq_false hop
    exact preserves_carryOut (.outwardBeside (SegmentingRlc.accept_of_ne hne datagram priority))
  | request bits dest frame =>
    have hne := of_decide_eq_false hop
    exact .bind (SelectiveRepeat.requestBurst_of_ne hne bits frame) fun _ _ => .pure trivial
  | receive packet =>
    have hne := of_decide_eq_false hop
    exact preserves_carryOut (SelectiveRepeat.receive_of_ne hne)
  | inject packet priority =>
    have hne := of_decide_eq_false hop
    exact preserves_carryOut (.outwardBeside (SegmentingRlc.inject_of_ne hne priority))
  | linkUp id =>
    have hne := of_decide_eq_false hop
    exact preserves_carryOut (SelectiveRepeat.linkUp_of_ne hne)
  | linkDown id =>
    have hne := of_decide_eq_false hop
    exact preserves_carryOut (SelectiveRepeat.linkDown_of_ne hne)
  | ask query id => exact preserves_answer id query

/-! ## A whole run -/

omit [NetAbove ε] [ArqBelow ε] in
theorem agreesOn_start (peer : Address) (config : ArqConfig) (maxQueued : Nat) (around : ε) :
    AgreesOn peer (start config maxQueued around) (start config maxQueued around) :=
  ⟨.start peer config, ⟨.refl peer _, ⟨rfl, trivial⟩⟩⟩

/-- Towers that agree on a peer answer alike and go on agreeing if one of them does without the
operations about others. -/
theorem AgreesOn.run (hobliging : IsObliging ε) (h : AgreesOn peer s t)
    (ops : List TowerOperation) :
    s.answers peer ops = t.answers peer (ops.filter (TowerOperation.concerns peer)) ∧
      AgreesOn peer (s.run ops) (t.run (ops.filter (TowerOperation.concerns peer))) := by
  induction ops generalizing s t with
  | nil => exact ⟨rfl, h⟩
  | cons op rest ih =>
    cases hop : op.concerns peer with
    | true =>
      obtain ⟨hanswer, hafter⟩ := mirrors_perform hobliging hop s t h
      obtain ⟨hlater, hrun⟩ := ih hafter
      rw [List.filter_cons_of_pos hop]
      refine ⟨?_, hrun⟩
      rw [answers, answers, hanswer.eq, hlater]
    | false =>
      obtain ⟨hafter, -⟩ := perform_of_ne (t := t) hop s h
      obtain ⟨hlater, hrun⟩ := ih hafter
      have hother : op.peer? ≠ some peer := by
        intro heq
        simp [TowerOperation.concerns, heq] at hop
      rw [List.filter_cons_of_neg (by simp [hop])]
      refine ⟨?_, hrun⟩
      rw [answers, if_neg hother]
      exact hlater

/-- **Peers do not interfere.** Over surroundings that take everything, the operations about a peer have
the results that they have without those about other peers, and the same datagrams from it are handed
up. A count of bits that overflows is one more result. -/
theorem answers_filter (hobliging : IsObliging ε) (config : ArqConfig) (maxQueued : Nat) (around : ε)
    (peer : Address) (ops : List TowerOperation) :
    (start config maxQueued around).answers peer ops =
        (start config maxQueued around).answers peer
          (ops.filter (TowerOperation.concerns peer)) ∧
      ((start config maxQueued around).run ops).heardFrom peer =
        ((start config maxQueued around).run
          (ops.filter (TowerOperation.concerns peer))).heardFrom peer := by
  obtain ⟨hanswers, hagrees⟩ := (agreesOn_start peer config maxQueued around).run hobliging ops
  exact ⟨hanswers, hagrees.around.around.layer⟩

/-- A frame for station 1 with part of a datagram of two bytes: the first half in the frame at an even
position, the second half in the next one. -/
def halfFrom (source : Address) (position : Nat) (datagram : Datagram) : Packet :=
  .ofMessages [⟨some (.base (.ofSource source)), none⟩,
    ⟨some (.unicast { (default : UnicastHeader) with
      dest := ⟨1⟩, useArq := true, seq := .atPosition position,
      fragment := ⟨position % 2 = 0, position % 2 = 1⟩ }),
      some (.segment ⟨datagram, 8 * (position % 2), 8⟩)⟩]

/-- Two peers send a datagram each, with its halves in the wrong order and mixed up, while both are sent
one. The link to the other peer is torn down. -/
def interleaved : List TowerOperation :=
  [.send ⟨#[1]⟩ ⟨2⟩ 0, .send ⟨#[2]⟩ ⟨3⟩ 7, .receive (halfFrom ⟨3⟩ 1 ⟨#[7, 8]⟩),
    .receive (halfFrom ⟨2⟩ 1 ⟨#[5, 6]⟩), .receive (halfFrom ⟨3⟩ 0 ⟨#[7, 8]⟩),
    .receive (halfFrom ⟨2⟩ 0 ⟨#[5, 6]⟩), .request 300 ⟨3⟩ 0, .request 300 ⟨2⟩ 0, .linkDown ⟨3⟩,
    .tick 20, .request 300 ⟨2⟩ 0, .ask .numUnacked ⟨2⟩, .ask .nextExpected ⟨3⟩]

theorem answers_filter_interleaved :
    (start ⟨64, true, 16⟩ 256 (Ends.empty ())).answers ⟨2⟩ interleaved =
        (start ⟨64, true, 16⟩ 256 (Ends.empty ())).answers ⟨2⟩
          (interleaved.filter (TowerOperation.concerns ⟨2⟩)) ∧
      ((start ⟨64, true, 16⟩ 256 (Ends.empty ())).run interleaved).heardFrom ⟨2⟩ =
        ((start ⟨64, true, 16⟩ 256 (Ends.empty ())).run
          (interleaved.filter (TowerOperation.concerns ⟨2⟩))).heardFrom ⟨2⟩ :=
  answers_filter ⟨fun _ _ _ => rfl, fun _ _ _ => rfl⟩ ⟨64, true, 16⟩ 256 (Ends.empty ()) ⟨2⟩
    interleaved

example : ((start ⟨64, true, 16⟩ 256 (Ends.empty ())).run interleaved).heardFrom ⟨2⟩ =
    [⟨#[5, 6]⟩] := by decide +kernel

end LoggedTower

end DataLink
