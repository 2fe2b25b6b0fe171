import DataLink.Proofs.Arq.Calls
import DataLink.Proofs.Mac.Calls
import DataLink.Station.Layers

/-!
# The same layer in different surroundings

The layers are written against what they may ask of their surroundings. So if two surroundings answer
alike, the layer does the same in both of them, and what held between the surroundings before still
holds (`Call.Agree`). A call is made of the calls of a layer on itself and of what it asks, and it
agrees with itself as soon as what it asks does.

Failures of the wiring are those of a binding that leads nowhere, that is wired twice, or that leads
to a layer in the middle of another call. No layer fails in this way by itself, so no call does where
nothing that it asks does.
-/

namespace DataLink

/-! ## Failures of the wiring -/

/-- The failure is one of a binding, not of a layer. -/
def LayerError.isOfWiring : LayerError → Bool
  | .unwired _ | .alreadyWired _ | .reentrant _ => true
  | _ => false

def Fault.isOfWiring : Fault → Bool
  | .layer e => e.isOfWiring
  | .overflow => false

variable {α β γ κ : Type}

/-- The result is no failure of the `bad` ones. -/
def Avoids (bad : κ → Bool) (r : Except κ α) : Prop := ∀ e, r = .error e → bad e = false

namespace Avoids

variable {bad : κ → Bool}

theorem ok (a : α) : Avoids bad (.ok a : Except κ α) := nofun

theorem error {e : κ} (h : bad e = false) : Avoids bad (.error e : Except κ α) := by
  intro e' he
  cases he
  exact h

theorem bind {r : Except κ α} {next : α → Except κ β} (h : Avoids bad r)
    (hnext : ∀ a, Avoids bad (next a)) : Avoids bad (r >>= next) := by
  cases r with
  | ok a => exact hnext a
  | error e => exact error (h e rfl)

theorem mapError {r : Except γ α} {f : γ → κ} (h : ∀ e, bad (f e) = false) :
    Avoids bad (r.mapError f) := by
  cases r with
  | ok a => exact ok a
  | error e => exact error (h e)

theorem ite {c : Prop} [Decidable c] {r other : Except κ α} (h : Avoids bad r)
    (hother : Avoids bad other) : Avoids bad (if c then r else other) := by
  split
  · exact h
  · exact hother

end Avoids

/-! ## Calls that agree -/

variable {σ τ ε δ : Type}

namespace Call

/-- Two answers are the same, `R` holds between the states that they leave, and neither is a failure
of the wiring. -/
structure Answers (R : σ → τ → Prop) (x : Except Fault α × σ) (y : Except Fault α × τ) : Prop where
  same : x.1 = y.1
  related : R x.2 y.2
  avoids : Avoids Fault.isOfWiring x.1

/-- In states that `R` holds between, the two calls answer alike. -/
def Agree (R : σ → τ → Prop) (step : Call σ α) (other : Call τ α) : Prop :=
  ∀ s t, R s t → Answers R (step s) (other t)

/-- Within the same layer, `R` holds between the surroundings. -/
structure Beside (R : ε → δ → Prop) (s : Inside σ ε) (t : Inside σ δ) : Prop where
  layer : s.layer = t.layer
  around : R s.around t.around

variable {R : σ → τ → Prop}

/-- What the two calls come to, written out. -/
theorem Answers.exists_eq {x : Except Fault α × σ} {y : Except Fault α × τ} (h : Answers R x y) :
    ∃ r s t, x = (r, s) ∧ y = (r, t) ∧ R s t ∧ Avoids Fault.isOfWiring r :=
  ⟨x.1, x.2, y.2, rfl, Prod.ext h.same.symm rfl, h.related, h.avoids⟩

theorem Answers.bind {step : Call σ α} {other : Call τ α} {next : α → Call σ β}
    {then_ : α → Call τ β} {s : σ} {t : τ} (h : Answers R (step s) (other t))
    (hnext : ∀ a s' t', step s = (.ok a, s') → R s' t' → Answers R (next a s') (then_ a t')) :
    Answers R ((step >>= next) s) ((other >>= then_) t) := by
  obtain ⟨r, s', t', hstep, hother, hrelated, havoids⟩ := h.exists_eq
  rw [bind_apply, bind_apply, hstep, hother]
  cases r with
  | ok a => exact hnext a s' t' hstep hrelated
  | error e => exact ⟨rfl, hrelated, .error (havoids e rfl)⟩

namespace Agree

theorem pure (a : α) : Agree R (Pure.pure a : Call σ α) (Pure.pure a : Call τ α) :=
  fun _ _ h => ⟨rfl, h, .ok a⟩

theorem fail {e : LayerError} (he : e.isOfWiring = false) :
    Agree R (Call.fail e : Call σ α) (Call.fail e : Call τ α) :=
  fun _ _ h => ⟨rfl, h, .error he⟩

theorem ofExcept {r : Except Fault α} (hr : Avoids Fault.isOfWiring r) :
    Agree R (Call.ofExcept r : Call σ α) (Call.ofExcept r : Call τ α) := by
  intro s t h
  rw [ofExcept_apply, ofExcept_apply]
  exact ⟨rfl, h, hr⟩

theorem ofLayer {r : Except LayerError α} (hr : Avoids LayerError.isOfWiring r) :
    Agree R (Call.ofLayer r : Call σ α) (Call.ofLayer r : Call τ α) := by
  cases r with
  | ok a => exact pure a
  | error e => exact fail (hr e rfl)

theorem bind {step : Call σ α} {other : Call τ α} {next : α → Call σ β} {then_ : α → Call τ β}
    (h : Agree R step other) (hnext : ∀ a, Agree R (next a) (then_ a)) :
    Agree R (step >>= next) (other >>= then_) := fun s t hR =>
  (h s t hR).bind fun a s' t' _ => hnext a s' t'

theorem ite {c : Prop} [Decidable c] {step step' : Call σ α} {other other' : Call τ α}
    (h : Agree R step other) (h' : Agree R step' other') :
    Agree R (if c then step else step') (if c then other else other') := by
  split
  · exact h
  · exact h'

/-- A failure that is handed over as a value is none of the wiring either. -/
theorem attempt {step : Call σ α} {other : Call τ α}
    {next : Except LayerError α → Call σ β} {then_ : Except LayerError α → Call τ β}
    (h : Agree R step other)
    (hnext : ∀ r, Avoids LayerError.isOfWiring r → Agree R (next r) (then_ r)) :
    Agree R (Call.attempt step >>= next) (Call.attempt other >>= then_) := by
  intro s t hR
  obtain ⟨r, s', t', hstep, hother, hrelated, havoids⟩ := (h s t hR).exists_eq
  rw [bind_apply, bind_apply, Call.attempt, Call.attempt, hstep, hother]
  -- An overflow is not handed over: it ends both calls.
  rcases r with (e | _) | a
  · exact hnext (.error e) (.error (havoids _ rfl)) s' t' hrelated
  · exact ⟨rfl, hrelated, .error rfl⟩
  · exact hnext (.ok a) (.ok a) s' t' hrelated

variable {R : ε → δ → Prop}

theorem own : Agree (Beside R) (Call.own : Call (Inside σ ε) σ) (Call.own : Call (Inside σ δ) σ) :=
  fun _ _ h => ⟨congrArg Except.ok h.layer, h, .ok _⟩

theorem change (f : σ → σ) : Agree (Beside R) (Call.change f : Call (Inside σ ε) Unit)
    (Call.change f : Call (Inside σ δ) Unit) :=
  fun _ _ h => ⟨rfl, ⟨congrArg f h.layer, h.around⟩, .ok _⟩

theorem outward {step : Call ε α} {other : Call δ α} (h : Agree R step other) :
    Agree (Beside R) (Call.outward step : Call (Inside σ ε) α)
      (Call.outward other : Call (Inside σ δ) α) := by
  intro s t hR
  obtain ⟨hsame, hrelated, havoids⟩ := h s.around t.around hR.around
  exact ⟨hsame, ⟨hR.layer, hrelated⟩, havoids⟩

theorem embed {into : σ → τ} (layer : σ) {step : Call (Inside σ ε) α} {other : Call (Inside σ δ) α}
    (h : Agree (Beside R) step other) :
    Agree (Beside R) (Call.embed into layer step) (Call.embed into layer other) := by
  intro s t hR
  obtain ⟨hsame, hrelated, havoids⟩ := h ⟨layer, s.around⟩ ⟨layer, t.around⟩ ⟨rfl, hR.around⟩
  exact ⟨hsame, ⟨congrArg into hrelated.layer, hrelated.around⟩, havoids⟩

end Agree

end Call

/-! ## What layers fail by themselves with -/

theorem Packet.avoids_bits (p : Packet) : Avoids Fault.isOfWiring p.bits :=
  .ite (.ok _) (.error rfl)

theorem avoids_checkedSum (a b : Nat) : Avoids Fault.isOfWiring (checkedSum a b) :=
  .ite (.ok _) (.error rfl)

theorem Reassembly.avoids_absorb (origin : Address)
    (segments : List (Address × Fragment × Segment)) (streams : Reassembly) :
    Avoids Fault.isOfWiring (absorb origin segments streams) := by
  induction segments generalizing streams with
  | nil => exact .ok _
  | cons s rest ih =>
    obtain ⟨channel, fragment, segment⟩ := s
    refine .bind ?_ fun found => .bind (ih _) fun _ => .ok _
    rw [Partial.extend]
    split
    · exact .ok _
    · exact .ite (.ok _) (.bind (avoids_checkedSum _ _) fun _ => .ite (.ok _) (.ok _))

namespace SegmentingRlc

theorem avoids_popInjected (r : SegmentingRlc) (bits : Nat) (dest : Address) :
    Avoids Fault.isOfWiring (r.popInjected bits dest) := by
  rw [popInjected]
  split
  · exact .ok _
  · exact .bind (Packet.avoids_bits _) fun _ => .ite (.ok _) (.ok _)

theorem avoids_segmentHeader (dest : Address) (fragment : Fragment) :
    Avoids LayerError.isOfWiring (segmentHeader dest fragment) := by
  refine .ite (.ok _) ?_
  cases UnicastHeader.to? dest with
  | ok h => exact .ok _
  | error e => exact .error rfl

theorem avoids_addPieces (dest : Address) (pieces : List (Fragment × Segment)) (packet : Packet) :
    Avoids LayerError.isOfWiring (addPieces dest pieces packet) := by
  induction pieces generalizing packet with
  | nil => exact .ok _
  | cons piece rest ih =>
    exact .bind (avoids_segmentHeader _ _) fun _ => .bind (.mapError fun _ => rfl) fun _ => ih _

theorem avoids_fill (r : SegmentingRlc) (bits : Nat) (dest : Address) :
    Avoids LayerError.isOfWiring (r.fill bits dest) :=
  .bind (avoids_addPieces _ _ _) fun _ => .ok _

end SegmentingRlc

namespace SelectiveRepeat

theorem avoids_resend (a : SelectiveRepeat) (bits : Nat) (dest : Address) :
    Avoids Fault.isOfWiring (a.resend bits dest) := by
  rw [resend]
  split
  · exact .ok _
  · refine .bind ?_ fun _ => .ok _
    rw [Link.resend]
    split
    · exact .ok _
    · split
      · exact .ok _
      · exact .bind (Packet.avoids_bits _) fun _ => .ite (.ok _) (.ok _)

theorem avoids_acknowledge (a : SelectiveRepeat) (packet : Packet) (bits : Nat) (dest : Address) :
    Avoids Fault.isOfWiring (a.acknowledge packet bits dest) := by
  refine .ite ?_ (.ok _)
  refine .bind (Packet.avoids_bits _) fun _ => .bind (avoids_checkedSum _ _) fun _ => ?_
  refine .ite (.ok _) ?_
  exact .bind (.mapError fun _ => rfl) fun _ => .bind (.mapError fun _ => rfl) fun _ => .ok _

theorem avoids_sequence (a : SelectiveRepeat) (packet : Packet) (bits : Nat) (dest : Address) :
    Avoids Fault.isOfWiring (a.sequence packet bits dest) :=
  .ite (a.avoids_acknowledge _ _ _) (.ok _)

theorem avoids_linkDown (a : SelectiveRepeat) (id : Address) :
    Avoids LayerError.isOfWiring (a.linkDown id) := by
  refine .bind ?_ fun _ => .ok _
  rw [knownLink?]
  split
  · exact .ok _
  · exact .error rfl

end SelectiveRepeat

namespace SlotMac

theorem avoids_control (m : SlotMac) (header : Header) :
    Avoids LayerError.isOfWiring (m.control header) := .mapError fun _ => rfl

theorem avoids_linkControl (m : SlotMac) (frameType : FrameType) (dest : Address) :
    Avoids LayerError.isOfWiring (m.linkControl frameType dest) :=
  .bind (.mapError fun _ => rfl) fun _ => m.avoids_control _

end SlotMac

/-! ## Surroundings that agree -/

/-- The network layers above two RLCs answer alike. -/
structure NetAbove.Agree (R : ε → δ → Prop) [NetAbove ε] [NetAbove δ] : Prop where
  receive : ∀ datagram origin, Call.Agree R (NetAbove.receive datagram origin : Call ε Unit)
    (NetAbove.receive datagram origin : Call δ Unit)
  hops : Call.Agree R (NetAbove.hops : Call ε Nat) (NetAbove.hops : Call δ Nat)
  report : ∀ id count, Call.Agree R (NetAbove.report id count : Call ε Unit)
    (NetAbove.report id count : Call δ Unit)

/-- The RLCs above two ARQs answer alike. -/
structure RlcAbove.Agree (R : ε → δ → Prop) [RlcAbove ε] [RlcAbove δ] : Prop where
  request : ∀ bits dest, Call.Agree R (RlcAbove.request bits dest : Call ε Packet)
    (RlcAbove.request bits dest : Call δ Packet)
  requestBurst : ∀ bits dest frame, Call.Agree R
    (RlcAbove.requestBurst bits dest frame : Call ε Packet)
    (RlcAbove.requestBurst bits dest frame : Call δ Packet)
  receive : ∀ packet, Call.Agree R (RlcAbove.receive packet : Call ε Unit)
    (RlcAbove.receive packet : Call δ Unit)
  inject : ∀ packet priority, Call.Agree R (RlcAbove.inject packet priority : Call ε Unit)
    (RlcAbove.inject packet priority : Call δ Unit)
  hasMore : ∀ dest, Call.Agree R (RlcAbove.hasMore dest : Call ε Bool)
    (RlcAbove.hasMore dest : Call δ Bool)
  hops : Call.Agree R (RlcAbove.hops : Call ε Nat) (RlcAbove.hops : Call δ Nat)
  report : ∀ id count, Call.Agree R (RlcAbove.report id count : Call ε Unit)
    (RlcAbove.report id count : Call δ Unit)

/-- The ARQs above two MACs answer alike. -/
structure ArqAbove.Agree (R : ε → δ → Prop) [ArqAbove ε] [ArqAbove δ] : Prop where
  request : ∀ bits dest, Call.Agree R (ArqAbove.request bits dest : Call ε Packet)
    (ArqAbove.request bits dest : Call δ Packet)
  receive : ∀ packet, Call.Agree R (ArqAbove.receive packet : Call ε Unit)
    (ArqAbove.receive packet : Call δ Unit)
  inject : ∀ packet, Call.Agree R (ArqAbove.inject packet : Call ε Unit)
    (ArqAbove.inject packet : Call δ Unit)
  linkUp : ∀ id, Call.Agree R (ArqAbove.linkUp id : Call ε Unit) (ArqAbove.linkUp id : Call δ Unit)
  linkDown : ∀ id, Call.Agree R (ArqAbove.linkDown id : Call ε Unit)
    (ArqAbove.linkDown id : Call δ Unit)
  hasMore : ∀ dest, Call.Agree R (ArqAbove.hasMore dest : Call ε Bool)
    (ArqAbove.hasMore dest : Call δ Bool)
  tick : ∀ slots, Call.Agree R (ArqAbove.tick slots : Call ε Unit)
    (ArqAbove.tick slots : Call δ Unit)
  hops : Call.Agree R (ArqAbove.hops : Call ε Nat) (ArqAbove.hops : Call δ Nat)
  report : ∀ id count, Call.Agree R (ArqAbove.report id count : Call ε Unit)
    (ArqAbove.report id count : Call δ Unit)

/-- The PHYs below two MACs answer alike. -/
structure PhyBelow.Agree (R : ε → δ → Prop) [PhyBelow ε] [PhyBelow δ] : Prop where
  transmit : ∀ packet frequency, Call.Agree R (PhyBelow.transmit packet frequency : Call ε Unit)
    (PhyBelow.transmit packet frequency : Call δ Unit)
  datarate : Call.Agree R (PhyBelow.datarate : Call ε Nat) (PhyBelow.datarate : Call δ Nat)

/-- The ARQs below two RLCs answer alike. -/
def ArqBelow.Agree (R : ε → δ → Prop) [ArqBelow ε] [ArqBelow δ] : Prop :=
  ∀ bits dest, Call.Agree R (ArqBelow.notifyOutgoing bits dest : Call ε Unit)
    (ArqBelow.notifyOutgoing bits dest : Call δ Unit)

/-- The MACs below two ARQs answer alike. -/
def MacBelow.Agree (R : ε → δ → Prop) [MacBelow ε] [MacBelow δ] : Prop :=
  ∀ bits dest, Call.Agree R (MacBelow.notifyOutgoing bits dest : Call ε Unit)
    (MacBelow.notifyOutgoing bits dest : Call δ Unit)

/-- The RLCs below two network layers answer alike. -/
def RlcBelow.Agree (R : ε → δ → Prop) [RlcBelow ε] [RlcBelow δ] : Prop :=
  ∀ datagram dest priority, Call.Agree R
    (RlcBelow.accept datagram dest priority : Call ε Unit)
    (RlcBelow.accept datagram dest priority : Call δ Unit)

/-- The MACs above two PHYs answer alike. -/
def MacAbove.Agree (R : ε → δ → Prop) [MacAbove ε] [MacAbove δ] : Prop :=
  ∀ packet frequency, Call.Agree R (MacAbove.receive packet frequency : Call ε Unit)
    (MacAbove.receive packet frequency : Call δ Unit)

/-- Two journals are kept alike. -/
def Journal.Agree (R : ε → δ → Prop) [Journal ε] [Journal δ] : Prop :=
  ∀ entry s t, R s t → R (Journal.note entry s) (Journal.note entry t)

open Call (Beside Agree)

variable {R : ε → δ → Prop}

/-! ## Stubs -/

namespace Stub

variable [Journal ε] [Journal δ] (hjournal : Journal.Agree R)

include hjournal

theorem agree_note (entry : JournalEntry) :
    Agree (Beside R) (note entry : Call (Inside σ ε) Unit) (note entry : Call (Inside σ δ) Unit) := by
  have hnote : Agree (Beside R)
      (Call.outward (modify (Journal.note entry)) : Call (Inside σ ε) Unit)
      (Call.outward (modify (Journal.note entry)) : Call (Inside σ δ) Unit) :=
    .outward fun s t h => ⟨rfl, hjournal entry s t h, .ok _⟩
  unfold note
  split
  · exact .bind (.ofExcept (Packet.avoids_bits _)) fun _ => hnote
  · exact hnote

theorem agree_noteOr (fails : Bool) {e : LayerError} (he : e.isOfWiring = false)
    (entry : JournalEntry) : Agree (Beside R) (noteOr fails e entry : Call (Inside σ ε) Unit)
      (noteOr fails e entry : Call (Inside σ δ) Unit) :=
  .bind (agree_note hjournal entry) fun _ => .ite (.fail he) (.pure _)

end Stub

namespace StubRlc

variable [Journal ε] [Journal δ] (hjournal : Journal.Agree R)

include hjournal

theorem agree_accept [ArqBelow ε] [ArqBelow δ] (harq : ArqBelow.Agree R) (datagram : Datagram)
    (dest : Address) (priority : Nat) : Agree (Beside R)
      (accept datagram dest priority : Call (Inside StubRlc ε) Unit)
      (accept datagram dest priority : Call (Inside StubRlc δ) Unit) :=
  .bind (Stub.agree_note hjournal _) fun _ => .outward (harq _ _)

theorem agree_request (bits : Nat) (dest : Address) : Agree (Beside R)
    (request bits dest : Call (Inside StubRlc ε) Packet)
    (request bits dest : Call (Inside StubRlc δ) Packet) := by
  refine .bind .own fun r => .bind (Stub.agree_noteOr hjournal _ rfl _) fun _ =>
    .bind .own fun r => ?_
  split
  · exact .pure _
  · exact .bind (.change _) fun _ => .pure _

theorem agree_receive (packet : Packet) : Agree (Beside R)
    (receive packet : Call (Inside StubRlc ε) Unit)
    (receive packet : Call (Inside StubRlc δ) Unit) :=
  .bind .own fun _ => Stub.agree_noteOr hjournal _ rfl _

theorem agree_inject (packet : Packet) (priority : Nat) : Agree (Beside R)
    (inject packet priority : Call (Inside StubRlc ε) Unit)
    (inject packet priority : Call (Inside StubRlc δ) Unit) :=
  .bind (Stub.agree_note hjournal _) fun _ => .change _

end StubRlc

/-! ## RLCs -/

namespace SegmentingRlc

theorem agree_accept [ArqBelow ε] [ArqBelow δ] (harq : ArqBelow.Agree R) (datagram : Datagram)
    (dest : Address) (priority : Nat) : Agree (Beside R)
      (accept datagram dest priority : Call (Inside SegmentingRlc ε) Unit)
      (accept datagram dest priority : Call (Inside SegmentingRlc δ) Unit) := by
  refine .ite (.fail rfl) (.bind .own fun r => .ite (.fail rfl) ?_)
  exact .bind (.outward (harq _ _)) fun _ => .change _

theorem agree_requestBurst (bits : Nat) (dest : Address) (frame : Nat) : Agree (Beside R)
    (requestBurst bits dest frame : Call (Inside SegmentingRlc ε) Packet)
    (requestBurst bits dest frame : Call (Inside SegmentingRlc δ) Packet) := by
  refine .ite (.pure _) (.bind .own fun r => ?_)
  have hbuilt : ∀ built : Packet × SegmentingRlc, Agree (Beside R)
      (do Call.change fun _ => built.2; return built.1 : Call (Inside SegmentingRlc ε) Packet)
      (do Call.change fun _ => built.2; return built.1 : Call (Inside SegmentingRlc δ) Packet) :=
    fun _ => .bind (.change _) fun _ => .pure _
  refine .ite (.bind (.ofExcept (r.avoids_popInjected _ _)) fun control => ?_)
    (.bind (.pure none) fun control => ?_)
  all_goals
    cases control with
    | some served => exact .bind (.pure served) hbuilt
    | none => exact .bind (.ofLayer (r.avoids_fill _ _)) hbuilt

theorem agree_receive [NetAbove ε] [NetAbove δ] (hnet : NetAbove.Agree R) (packet : Packet) :
    Agree (Beside R) (receive packet : Call (Inside SegmentingRlc ε) Unit)
      (receive packet : Call (Inside SegmentingRlc δ) Unit) := by
  have hup : ∀ origin datagrams, Agree (Beside R)
      (handUp origin datagrams : Call (Inside SegmentingRlc ε) Unit)
      (handUp origin datagrams : Call (Inside SegmentingRlc δ) Unit) := by
    intro origin datagrams
    induction datagrams with
    | nil => exact .pure _
    | cons d rest ih => exact .bind (.outward (hnet.receive d origin)) fun _ => ih
  refine .bind .own fun r => .bind (.ofExcept (Reassembly.avoids_absorb _ _ _)) fun found => ?_
  exact .bind (.change _) fun _ => hup _ _

end SegmentingRlc

/-! ## ARQs -/

namespace SelectiveRepeat

variable [RlcAbove ε] [RlcAbove δ] (hrlc : RlcAbove.Agree R)

include hrlc

theorem agree_requestBurst (bits : Nat) (dest : Address) (frame : Nat) : Agree (Beside R)
    (requestBurst bits dest frame : Call (Inside SelectiveRepeat ε) Packet)
    (requestBurst bits dest frame : Call (Inside SelectiveRepeat δ) Packet) := by
  refine .bind .own fun a => .ite ?_ (.outward (hrlc.requestBurst _ _ _))
  refine .bind (.ofExcept (a.avoids_resend _ _)) fun found => ?_
  cases found with
  | some found => exact .bind (.change _) fun _ => .pure _
  | none =>
    refine .bind (.outward (hrlc.requestBurst _ _ _)) fun packet => ?_
    refine .bind (.ofExcept (a.avoids_sequence _ _ _)) fun found => ?_
    exact .bind (.change _) fun _ => .pure _

theorem agree_handUp (packets : List Packet) : Agree (Beside R)
    (handUp packets : Call (Inside SelectiveRepeat ε) Unit)
    (handUp packets : Call (Inside SelectiveRepeat δ) Unit) := by
  induction packets with
  | nil => exact .pure _
  | cons packet rest ih => exact .bind (.outward (hrlc.receive packet)) fun _ => ih

theorem agree_receive (packet : Packet) : Agree (Beside R)
    (receive packet : Call (Inside SelectiveRepeat ε) Unit)
    (receive packet : Call (Inside SelectiveRepeat δ) Unit) := by
  have hup : Agree (Beside R)
      (Call.outward (RlcAbove.receive packet) : Call (Inside SelectiveRepeat ε) Unit)
      (Call.outward (RlcAbove.receive packet) : Call (Inside SelectiveRepeat δ) Unit) :=
    .outward (hrlc.receive packet)
  unfold receive
  split
  · refine .ite (.bind .own fun a => ?_) hup
    exact .bind (.change _) fun _ => agree_handUp hrlc _
  · exact hup

theorem agree_hasMore (dest : Address) : Agree (Beside R)
    (hasMore dest : Call (Inside SelectiveRepeat ε) Bool)
    (hasMore dest : Call (Inside SelectiveRepeat δ) Bool) := by
  refine .bind .own fun a => ?_
  cases a.links.get? dest with
  | some l => exact .ite (.pure _) (.outward (hrlc.hasMore dest))
  | none => exact .outward (hrlc.hasMore dest)

end SelectiveRepeat

/-! ## MACs -/

namespace SlotMac

variable [ArqAbove ε] [ArqAbove δ] (harq : ArqAbove.Agree R)

include harq

theorem agree_askEach (dests : List Address) : Agree (Beside R)
    (askEach dests : Call (Inside SlotMac ε) Unit) (askEach dests : Call (Inside SlotMac δ) Unit) := by
  induction dests with
  | nil => exact .pure _
  | cons dest rest ih =>
    refine .bind .own fun m => .bind (.ofLayer (m.avoids_linkControl _ _)) fun packet => ?_
    exact .bind (.outward (harq.inject packet)) fun _ => .bind (.change _) fun _ => ih

theorem agree_requestLinks : Agree (Beside R) (requestLinks : Call (Inside SlotMac ε) Unit)
    (requestLinks : Call (Inside SlotMac δ) Unit) :=
  .bind (.change _) fun _ => .bind .own fun _ => .bind (.change _) fun _ => agree_askEach harq _

theorem agree_turnSchedule (count : Nat) : Agree (Beside R)
    (turnSchedule count : Call (Inside SlotMac ε) (Option Address))
    (turnSchedule count : Call (Inside SlotMac δ) (Option Address)) := by
  induction count with
  | zero => exact .pure _
  | succ count ih =>
    refine .bind .own fun m => ?_
    cases m.schedule with
    | nil => exact .pure _
    | cons dest rest =>
      exact .bind (.change _) fun _ => .bind (.outward (harq.hasMore dest)) fun _ => .ite (.pure _) ih

theorem agree_establishLink (id : Address) : Agree (Beside R)
    (establishLink id : Call (Inside SlotMac ε) Unit)
    (establishLink id : Call (Inside SlotMac δ) Unit) :=
  .bind (.change _) fun _ => .bind .own fun _ => .ite (.pure _)
    (.bind (.change _) fun _ => .outward (harq.linkUp id))

theorem agree_removeLink (id : Address) : Agree (Beside R)
    (removeLink id : Call (Inside SlotMac ε) Unit)
    (removeLink id : Call (Inside SlotMac δ) Unit) :=
  .bind .own fun _ => .ite (.bind (.change _) fun _ => .outward (harq.linkDown id)) (.fail rfl)

theorem agree_onBeacon (origin : Address) (beacon : BeaconHeader) : Agree (Beside R)
    (onBeacon origin beacon : Call (Inside SlotMac ε) Unit)
    (onBeacon origin beacon : Call (Inside SlotMac δ) Unit) := by
  refine .bind (.change _) fun _ => ?_
  refine .attempt (.outward (harq.report _ _)) fun result hresult => ?_
  split
  · exact .pure _
  · exact .pure _
  · next e _ => exact .fail (hresult e rfl)

theorem agree_onLinkRequest (origin : Address) : Agree (Beside R)
    (onLinkRequest origin : Call (Inside SlotMac ε) Unit)
    (onLinkRequest origin : Call (Inside SlotMac δ) Unit) :=
  .bind (agree_establishLink harq origin) fun _ => .bind .own fun m =>
    .bind (.ofLayer (m.avoids_linkControl _ _)) fun _ => .outward (harq.inject _)

theorem agree_receive (packet : Packet) : Agree (Beside R)
    (receive packet : Call (Inside SlotMac ε) Unit)
    (receive packet : Call (Inside SlotMac δ) Unit) := by
  have hseen : Agree (Beside R) (takeDown packet : Call (Inside SlotMac ε) Unit)
      (takeDown packet : Call (Inside SlotMac δ) Unit) := by
    refine .bind .own fun m => .bind (.change _) fun _ => ?_
    cases (summarize m.config.id packet).beacon with
    | none => exact .pure _
    | some beacon => exact agree_onBeacon harq _ beacon
  have hanswer : ∀ id, Agree (Beside R) (answer id packet : Call (Inside SlotMac ε) Unit)
      (answer id packet : Call (Inside SlotMac δ) Unit) := fun id =>
    .bind (.ite (agree_onLinkRequest harq _) (.pure _)) fun _ =>
      .ite (agree_establishLink harq _) (.pure _)
  -- Which headers are for this station is looked up under its own address, the same on both sides.
  intro s t h
  rw [receive_eq, receive_eq, ← h.layer]
  split
  · exact Agree.bind hseen (fun _ => .bind (hanswer _) fun _ =>
      .ite (.outward (harq.receive packet)) (.pure _)) s t h
  · exact Agree.pure () s t h

variable [PhyBelow ε] [PhyBelow δ] (hphy : PhyBelow.Agree R)

include hphy

omit harq [ArqAbove ε] [ArqAbove δ] in
theorem agree_passDown (packet : Packet) (frequency : Nat) : Agree (Beside R)
    (passDown packet frequency : Call (Inside SlotMac ε) Unit)
    (passDown packet frequency : Call (Inside SlotMac δ) Unit) :=
  .bind (.change _) fun _ => .outward (hphy.transmit _ _)

theorem agree_sendBeacon : Agree (Beside R) (sendBeacon : Call (Inside SlotMac ε) Unit)
    (sendBeacon : Call (Inside SlotMac δ) Unit) := by
  have hsent : ∀ hops : HopCount, Agree (Beside R) (do
      Call.change fun m => { m with isOdd := !m.isOdd }
      let m ← Call.own
      let packet ← Call.ofLayer (m.control (.beacon ⟨m.position, m.isOdd, hops, m.quality⟩))
      passDown packet m.config.frequency : Call (Inside SlotMac ε) Unit) (do
      Call.change fun m => { m with isOdd := !m.isOdd }
      let m ← Call.own
      let packet ← Call.ofLayer (m.control (.beacon ⟨m.position, m.isOdd, hops, m.quality⟩))
      passDown packet m.config.frequency : Call (Inside SlotMac δ) Unit) := fun hops =>
    .bind (.change _) fun _ => .bind .own fun m => .bind (.ofLayer (m.avoids_control _)) fun _ =>
      agree_passDown hphy _ _
  refine .attempt (.outward harq.hops) fun result hresult => ?_
  split
  · exact .bind (.pure _) hsent
  · exact .bind (.pure _) hsent
  · next e _ => exact .bind (.fail (hresult e rfl)) hsent

theorem agree_serve (dest : Address) : Agree (Beside R)
    (serve dest : Call (Inside SlotMac ε) Unit) (serve dest : Call (Inside SlotMac δ) Unit) :=
  .bind (.outward hphy.datarate) fun _ => .bind (.outward (harq.request _ _)) fun _ =>
    .ite (.pure _) (.bind .own fun _ => agree_passDown hphy _ _)

theorem agree_update : Agree (Beside R) (update : Call (Inside SlotMac ε) Unit)
    (update : Call (Inside SlotMac δ) Unit) := by
  refine .bind (.change _) fun _ => .bind (.outward (harq.tick 1)) fun _ => .bind (.change _) fun _ =>
    .bind (agree_requestLinks harq) fun _ => .bind .own fun m => ?_
  refine .ite (agree_sendBeacon harq hphy) ?_
  refine .bind (.bind .own fun _ => agree_turnSchedule harq _) fun next => ?_
  cases next with
  | none => exact .pure _
  | some dest => exact agree_serve harq hphy dest

end SlotMac

/-! ## Kinds of layers -/

namespace NetLayer

theorem agree_receive [Journal ε] [Journal δ] (hjournal : Journal.Agree R) (datagram : Datagram)
    (origin : Address) : Agree (Beside R)
      (receive datagram origin : Call (Inside NetLayer ε) Unit)
      (receive datagram origin : Call (Inside NetLayer δ) Unit) := by
  refine .bind .own fun n => ?_
  cases n with
  | routing n => exact .change _
  | stub n => exact Stub.agree_noteOr hjournal _ rfl _

theorem agree_hops : Agree (Beside R) (hops : Call (Inside NetLayer ε) Nat)
    (hops : Call (Inside NetLayer δ) Nat) := by
  refine .bind .own fun n => ?_
  cases n with
  | routing n => exact .pure _
  | stub n => exact .fail rfl

theorem agree_report (id : Address) (count : Nat) : Agree (Beside R)
    (report id count : Call (Inside NetLayer ε) Unit)
    (report id count : Call (Inside NetLayer δ) Unit) := by
  refine .bind .own fun n => ?_
  cases n with
  | routing n => exact .change _
  | stub n => exact .fail rfl

end NetLayer

namespace RlcLayer

theorem agree_byKind {ofSegmenting : Call (Inside SegmentingRlc ε) α}
    {ofSegmenting' : Call (Inside SegmentingRlc δ) α} {ofStub : Call (Inside StubRlc ε) α}
    {ofStub' : Call (Inside StubRlc δ) α} (hsegmenting : Agree (Beside R) ofSegmenting ofSegmenting')
    (hstub : Agree (Beside R) ofStub ofStub') :
    Agree (Beside R) (byKind ofSegmenting ofStub) (byKind ofSegmenting' ofStub') := by
  refine .bind .own fun r => ?_
  cases r with
  | segmenting r => exact .embed r hsegmenting
  | stub r => exact .embed r hstub

end RlcLayer

namespace ArqLayer

theorem agree_bySelective {ofSelective : Call (Inside SelectiveRepeat ε) α}
    {ofSelective' : Call (Inside SelectiveRepeat δ) α} {ofOther : Call ε α} {ofOther' : Call δ α}
    (hselective : Agree (Beside R) ofSelective ofSelective') (hother : Agree R ofOther ofOther') :
    Agree (Beside R) (bySelective ofSelective ofOther) (bySelective ofSelective' ofOther') := by
  refine .bind .own fun a => ?_
  cases a with
  | selective a => exact .embed a hselective
  | passThrough => exact .outward hother
  | stub a => exact .outward hother

variable [Journal ε] [Journal δ] (hjournal : Journal.Agree R)

include hjournal

theorem agree_linkUp (id : Address) : Agree (Beside R) (linkUp id : Call (Inside ArqLayer ε) Unit)
    (linkUp id : Call (Inside ArqLayer δ) Unit) := by
  refine .bind .own fun a => ?_
  cases a with
  | selective a => exact .change _
  | passThrough => exact .pure _
  | stub a => exact Stub.agree_noteOr hjournal _ rfl _

theorem agree_linkDown (id : Address) : Agree (Beside R)
    (linkDown id : Call (Inside ArqLayer ε) Unit) (linkDown id : Call (Inside ArqLayer δ) Unit) := by
  refine .bind .own fun a => ?_
  cases a with
  | selective a => exact .bind (.ofLayer (a.avoids_linkDown id)) fun _ => .change _
  | passThrough => exact .pure _
  | stub a => exact Stub.agree_noteOr hjournal _ rfl _

variable [RlcAbove ε] [RlcAbove δ] (hrlc : RlcAbove.Agree R)

include hrlc

theorem agree_request (bits : Nat) (dest : Address) : Agree (Beside R)
    (request bits dest : Call (Inside ArqLayer ε) Packet)
    (request bits dest : Call (Inside ArqLayer δ) Packet) := by
  refine .bind .own fun a => ?_
  cases a with
  | selective a => exact .embed a (SelectiveRepeat.agree_requestBurst hrlc bits dest 0)
  | passThrough => exact .outward (hrlc.request _ _)
  | stub a => exact .bind (Stub.agree_note hjournal _) fun _ => .outward (hrlc.request _ _)

theorem agree_receive (packet : Packet) : Agree (Beside R)
    (receive packet : Call (Inside ArqLayer ε) Unit)
    (receive packet : Call (Inside ArqLayer δ) Unit) := by
  refine .bind .own fun a => ?_
  cases a with
  | selective a => exact .embed a (SelectiveRepeat.agree_receive hrlc packet)
  | passThrough => exact .outward (hrlc.receive packet)
  | stub a => exact Stub.agree_noteOr hjournal _ rfl _

end ArqLayer

namespace MacLayer

variable [Journal ε] [Journal δ] (hjournal : Journal.Agree R)

include hjournal

theorem agree_notifyOutgoing (bits : Nat) (dest : Address) : Agree (Beside R)
    (notifyOutgoing bits dest : Call (Inside MacLayer ε) Unit)
    (notifyOutgoing bits dest : Call (Inside MacLayer δ) Unit) := by
  refine .bind .own fun m => ?_
  cases m with
  | slotted m => exact .change _
  | stub m => exact Stub.agree_noteOr hjournal _ rfl _

theorem agree_receive [ArqAbove ε] [ArqAbove δ] (harq : ArqAbove.Agree R) (packet : Packet)
    (frequency : Nat) : Agree (Beside R)
      (receive packet frequency : Call (Inside MacLayer ε) Unit)
      (receive packet frequency : Call (Inside MacLayer δ) Unit) := by
  refine .bind .own fun m => ?_
  cases m with
  | slotted m => exact .embed m (SlotMac.agree_receive harq packet)
  | stub m => exact Stub.agree_noteOr hjournal _ rfl _

end MacLayer

namespace PhyLayer

theorem agree_transmit [Journal ε] [Journal δ] (hjournal : Journal.Agree R) (packet : Packet)
    (frequency : Nat) : Agree (Beside R)
      (transmit packet frequency : Call (Inside PhyLayer ε) Unit)
      (transmit packet frequency : Call (Inside PhyLayer δ) Unit) := by
  refine .bind .own fun p => ?_
  cases p with
  | outbox p => exact .change _
  | stub p => exact Stub.agree_noteOr hjournal _ rfl _

theorem avoids_tune (frequency : Nat) (p : PhyLayer) :
    Avoids LayerError.isOfWiring (p.tune frequency) := by
  cases p with
  | outbox p => exact .bind (.ite (.ok _) (.error rfl)) fun _ => .ok _
  | stub p => exact .error rfl

theorem agree_tuneTo (frequency : Nat) : Agree (Beside R)
    (tuneTo frequency : Call (Inside PhyLayer ε) Unit)
    (tuneTo frequency : Call (Inside PhyLayer δ) Unit) :=
  .bind .own fun p => .bind (.ofLayer (p.avoids_tune frequency)) fun _ => .change _

end PhyLayer

end DataLink
