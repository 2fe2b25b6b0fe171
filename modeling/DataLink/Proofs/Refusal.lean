import DataLink.Proofs.Arq.Endpoint
import Mathlib.Data.List.TakeDrop
import Mathlib.Logic.Function.Iterate

/-!
# When the layer above refuses

The ARQ and the RLC hand up what a packet brings one by one, after their own state has moved on, and
both stop at the first one that is refused. Here it is said what that comes to, over any layer
above. A recorder between the two layers notes all that is handed up, accepted or not.

**Theorem (`handedUp_until_refused`).** The frames that a link has gone past are handed up as far as
the first one that the RLC refuses, and the datagrams that a packet completes as far as the first
one that the network layer refuses. So nothing is left out if and only if all but the last are
accepted.

Both layers run the same loop (`Call.each`), so what is said of it is said once.
-/

namespace DataLink

variable {σ τ ε α β : Type}

/-! ## Handing items up one by one -/

namespace Call

/-- Gives items to a call one after the other, until one is refused. -/
def each (give : α → Call σ Unit) : List α → Call σ Unit
  | [] => pure ()
  | a :: rest => do
    give a
    each give rest

/-- How many of the items are accepted before one is refused. -/
def accepted (give : α → Call σ Unit) : List α → σ → Nat
  | [], _ => 0
  | a :: rest, s =>
    match give a s with
    | (.ok _, after) => accepted give rest after + 1
    | (.error _, _) => 0

/-- What becomes of `items` when they are handed up to a layer that accepts the first `accepted` of
them, by a record of what was handed up `before` and `after`. -/
structure HandsUp (items : List α) (accepted : Nat) (before after : List α) : Prop where
  /-- The item that is refused has been handed up all the same. -/
  handedUp : after = before ++ items.take (accepted + 1)
  /-- Nothing is left out if all items but the last are accepted, and only then. -/
  isComplete : after = before ++ items ↔ items.length ≤ accepted + 1

variable {give : α → Call σ Unit}

theorem each_eq_ok_iff (items : List α) (s : σ) :
    (each give items s).1 = .ok () ↔ accepted give items s = items.length := by
  induction items generalizing s with
  | nil => exact ⟨fun _ => rfl, fun _ => rfl⟩
  | cons a rest ih =>
    rw [each, bind_apply, accepted]
    rcases give a s with ⟨e | _, after⟩
    · simp
    · simp [ih]

theorem each_notes {notes : σ → List α} (hgive : ∀ a s, notes (give a s).2 = notes s ++ [a])
    (items : List α) (s : σ) :
    notes (each give items s).2 = notes s ++ items.take (accepted give items s + 1) := by
  induction items generalizing s with
  | nil => exact (List.append_nil _).symm
  | cons a rest ih =>
    have hfirst := hgive a s
    rw [each, bind_apply, accepted]
    rcases hstep : give a s with ⟨e | _, after⟩ <;> rw [hstep] at hfirst
    · simpa using hfirst
    · simp only at hfirst ⊢
      rw [ih, hfirst, List.append_assoc, List.take_succ_cons, List.singleton_append]

theorem accepted_congr {other : α → Call τ Unit} (view : σ → τ)
    (h : ∀ a s, (give a s).1 = (other a (view s)).1 ∧
      view (give a s).2 = (other a (view s)).2) (items : List α) (s : σ) :
    accepted give items s = accepted other items (view s) := by
  induction items generalizing s with
  | nil => rfl
  | cons a rest ih =>
    obtain ⟨hresult, hview⟩ := h a s
    simp only [accepted]
    generalize give a s = found at hresult hview ⊢
    generalize other a (view s) = seen at hresult hview ⊢
    obtain ⟨r, after⟩ := found
    obtain ⟨r', after'⟩ := seen
    obtain rfl : r = r' := hresult
    obtain rfl : view after = after' := hview
    cases r with
    | error e => rfl
    | ok _ => exact congrArg Nat.succ (ih after)

/-- The loop hands items up where each of them is noted, whatever becomes of it. -/
theorem handsUp_each (notes : σ → List α) (hgive : ∀ a s, notes (give a s).2 = notes s ++ [a])
    (items : List α) (s : σ) :
    HandsUp items (accepted give items s) (notes s) (notes (each give items s).2) := by
  have hnotes := each_notes hgive items s
  refine ⟨hnotes, ?_⟩
  rw [hnotes, List.append_cancel_left_eq]
  exact List.take_eq_self_iff items

end Call

/-! ## What a link has gone past -/

namespace Link

/-- The number that is expected goes from that of `before` to that of `after`, and `passed` are the
frames under the numbers in between: first the frame `packet`, which came under the number that was
expected, then those that were kept early under the numbers after it. -/
structure GoesPast (before after : Link) (packet : Packet) (passed : List Packet) : Prop where
  nextExpected : after.nextExpected = SequenceNumber.next^[passed.length] before.nextExpected
  first : ∀ p ∈ passed.head?, p = packet
  early : ∀ i p, passed[i + 1]? = some p →
    before.early.get? (SequenceNumber.next^[i + 1] before.nextExpected) = some p

theorem releaseUpTo_goesPast (count : Nat) (l : Link) :
    (l.releaseUpTo count).2.nextExpected =
        SequenceNumber.next^[(l.releaseUpTo count).1.length] l.nextExpected ∧
      ∀ i p, (l.releaseUpTo count).1[i]? = some p →
        l.early.get? (SequenceNumber.next^[i] l.nextExpected) = some p := by
  induction count generalizing l with
  | zero => exact ⟨rfl, fun i p h => by simp [releaseUpTo] at h⟩
  | succ count ih =>
    rw [releaseUpTo]
    cases hget : l.early.get? l.nextExpected with
    | none => exact ⟨rfl, fun i p h => by simp at h⟩
    | some packet =>
      obtain ⟨hnext, hearly⟩ := ih
        { l with early := l.early.erase l.nextExpected, nextExpected := l.nextExpected.next }
      refine ⟨?_, fun i p h => ?_⟩
      · rw [List.length_cons, Function.iterate_succ_apply]
        exact hnext
      · cases i with
        | zero =>
          cases h
          exact hget
        | succ i =>
          have hkept := hearly i p h
          -- What was taken out before is not found again, so what is found was there.
          rw [Table.get?_erase] at hkept
          split at hkept
          · cases hkept
          · rw [Function.iterate_succ_apply]
            exact hkept

theorem takeIn_goesPast (l : Link) (header : UnicastHeader) (packet : Packet) (window : Nat) :
    l.GoesPast (l.takeIn header packet window).2 packet (l.takeIn header packet window).1 := by
  obtain ⟨retransmit, hack⟩ := onAck_apply l header.nextExpected header.rejects window
  have hstays : ∀ after : Link, after.nextExpected = l.nextExpected → l.GoesPast after packet [] :=
    fun after hafter => ⟨hafter, by simp, by simp⟩
  simp only [Link.takeIn, hack]
  split
  · unfold accept
    split
    · obtain ⟨hnext, hearly⟩ := releaseUpTo_goesPast l.early.size { l with
        unacked := l.unacked.filter fun f => !f.seq.isBehind header.nextExpected window
        retransmit
        isAckPending := true
        nextExpected := l.nextExpected.next }
      refine ⟨?_, fun p h => ?_, fun i p h => ?_⟩
      · rw [List.length_cons, Function.iterate_succ_apply]
        exact hnext
      · cases h
        rfl
      · rw [Function.iterate_succ_apply]
        exact hearly i p h
    · split
      · exact hstays _ rfl
      · exact hstays _ rfl
  · exact hstays _ rfl

end Link

/-! ## What is to be handed up -/

/-- The packets that the ARQ is to hand up when it receives one: those its link goes past, and a
packet without ARQ fields as it is. -/
def SelectiveRepeat.due (a : SelectiveRepeat) (packet : Packet) : List Packet :=
  match packet.arqHeader? with
  | some header => (a.takeIn packet.origin header packet).1
  | none => [packet]

/-- What the RLC makes of the segments of a packet: the datagrams that they complete, and what it
has then of the others. -/
def SegmentingRlc.absorbed (r : SegmentingRlc) (packet : Packet) :
    Except Fault (List Datagram × Reassembly) :=
  Reassembly.absorb packet.origin (packet.messages.filterMap Message.segment?) r.streams

/-- The datagrams that a packet completes, each with its sender. -/
def SegmentingRlc.completed (r : SegmentingRlc) (packet : Packet) : List (Address × Datagram) :=
  match r.absorbed packet with
  | .ok (complete, _) => complete.map fun d => (packet.origin, d)
  | .error _ => []

/-- A record of the datagrams that are offered to the network layer. -/
structure Offers where
  datagrams : List (Address × Datagram)

instance [NetAbove ε] : NetAbove (Inside Offers ε) where
  receive datagram origin := do
    Call.change fun o => ⟨o.datagrams ++ [(origin, datagram)]⟩
    Call.outward (NetAbove.receive datagram origin)
  hops := Call.outward NetAbove.hops
  report id hops := Call.outward (NetAbove.report id hops)

/-! ## The two layers -/

/-- The network layer is offered a datagram of a sender. -/
abbrev NetAbove.offer [NetAbove ε] (item : Address × Datagram) : Call ε Unit :=
  NetAbove.receive item.2 item.1

theorem SelectiveRepeat.handUp_eq_each [RlcAbove ε] (packets : List Packet) :
    (handUp packets : Call (Inside SelectiveRepeat ε) Unit) =
      Call.each (fun packet => Call.outward (RlcAbove.receive packet)) packets := by
  induction packets with
  | nil => rfl
  | cons packet rest ih => rw [handUp, Call.each, ih]

theorem SegmentingRlc.handUp_eq_each [NetAbove ε] (origin : Address) (datagrams : List Datagram) :
    (handUp origin datagrams : Call (Inside SegmentingRlc ε) Unit) =
      Call.each (fun item => Call.outward (NetAbove.offer item))
        (datagrams.map fun d => (origin, d)) := by
  induction datagrams with
  | nil => rfl
  | cons d rest ih => rw [handUp, List.map_cons, Call.each, ih]

theorem SelectiveRepeat.receive_eq_each [RlcAbove ε] (packet : Packet)
    (s : Inside SelectiveRepeat ε) : ∃ layer, receive packet s =
      Call.each (fun p => Call.outward (RlcAbove.receive p)) (s.layer.due packet)
        { s with layer } := by
  rw [receive_apply, due]
  cases packet.arqHeader? with
  | some header =>
    simp only [handUp_eq_each]
    exact ⟨_, rfl⟩
  | none =>
    refine ⟨s.layer, ?_⟩
    simp only [Call.each, Call.bind_apply, Call.outward_apply]
    rcases RlcAbove.receive packet s.around with ⟨e | _, around⟩ <;> rfl

theorem SegmentingRlc.receive_eq_each [NetAbove ε] (packet : Packet)
    (s : Inside SegmentingRlc ε) :
    receive packet s = match s.layer.absorbed packet with
      | .ok (_, streams) => Call.each (fun item => Call.outward (NetAbove.offer item))
          (s.layer.completed packet) { s with layer := { s.layer with streams } }
      | .error e => (.error e, s) := by
  simp only [receive, Call.bind_apply, Call.own_apply, Call.ofExcept_apply, completed, absorbed]
  cases Reassembly.absorb packet.origin (packet.messages.filterMap Message.segment?)
    s.layer.streams with
  | ok found => simp only [Call.change_apply, handUp_eq_each]
  | error e => rfl

/-- A packet takes the link to its sender past the frames that are due, and no other link anywhere.
-/
theorem SelectiveRepeat.receive_goesPast [RlcAbove ε] (packet : Packet)
    (s : Inside SelectiveRepeat ε) (id : Address) :
    (s.layer.link id).GoesPast ((receive packet s).2.layer.link id) packet
      (if packet.origin = id ∧ packet.arqHeader?.isSome then s.layer.due packet else []) := by
  rw [receive_apply, due]
  cases packet.arqHeader? with
  | none =>
    simp only [Option.isSome_none, Bool.false_eq_true, and_false, if_false]
    exact ⟨rfl, by simp, by simp⟩
  | some header =>
    simp only [handUp_layer, takeIn_apply, link_setLink, Option.isSome_some, and_true]
    split
    · next heq => exact heq ▸ Link.takeIn_goesPast _ header packet _
    · exact ⟨rfl, by simp, by simp⟩

theorem SelectiveRepeat.receive_handsUp [RlcAbove ε] (packet : Packet)
    (s : Inside SelectiveRepeat (Inside Recorder ε)) :
    ((receive packet s).1 = .ok () ↔
      Call.accepted RlcAbove.receive (s.layer.due packet) s.around.around =
        (s.layer.due packet).length) ∧
    Call.HandsUp (s.layer.due packet)
      (Call.accepted RlcAbove.receive (s.layer.due packet) s.around.around)
      s.around.layer.packets (receive packet s).2.around.layer.packets := by
  obtain ⟨layer, hall⟩ := receive_eq_each packet s
  have hcount : Call.accepted (fun p => Call.outward (RlcAbove.receive p)) (s.layer.due packet)
      { s with layer } = Call.accepted RlcAbove.receive (s.layer.due packet) s.around.around :=
    Call.accepted_congr (fun t : Inside SelectiveRepeat (Inside Recorder ε) => t.around.around)
      (fun _ _ => ⟨rfl, rfl⟩) (s.layer.due packet) { s with layer }
  rw [hall, ← hcount]
  refine ⟨Call.each_eq_ok_iff _ _, ?_⟩
  exact Call.handsUp_each
    (fun t : Inside SelectiveRepeat (Inside Recorder ε) => t.around.layer.packets)
    (fun _ _ => rfl) (s.layer.due packet) { s with layer }

theorem SegmentingRlc.receive_handsUp [NetAbove ε] (packet : Packet)
    (s : Inside SegmentingRlc (Inside Offers ε)) :
    ((receive packet s).1 = .ok () ↔ (s.layer.absorbed packet).isOk ∧
      Call.accepted NetAbove.offer (s.layer.completed packet) s.around.around =
        (s.layer.completed packet).length) ∧
    Call.HandsUp (s.layer.completed packet)
      (Call.accepted NetAbove.offer (s.layer.completed packet) s.around.around)
      s.around.layer.datagrams (receive packet s).2.around.layer.datagrams := by
  rw [receive_eq_each, completed]
  cases s.layer.absorbed packet with
  | error e => exact ⟨by simp [Except.isOk, Except.toBool], by simp, by simp⟩
  | ok found =>
    obtain ⟨complete, streams⟩ := found
    have hcount : Call.accepted (fun item => Call.outward (NetAbove.offer item))
        (complete.map fun d => (packet.origin, d)) { s with layer := { s.layer with streams } } =
        Call.accepted NetAbove.offer (complete.map fun d => (packet.origin, d)) s.around.around :=
      Call.accepted_congr (fun t : Inside SegmentingRlc (Inside Offers ε) => t.around.around)
        (fun _ _ => ⟨rfl, rfl⟩) _ _
    simp only
    rw [← hcount]
    refine ⟨?_, ?_⟩
    · rw [Call.each_eq_ok_iff]
      simp [Except.isOk, Except.toBool]
    · exact Call.handsUp_each
        (fun t : Inside SegmentingRlc (Inside Offers ε) => t.around.layer.datagrams)
        (fun _ _ => rfl) (complete.map fun d => (packet.origin, d))
        { s with layer := { s.layer with streams } }

/-- **What survives a refusal.** When a packet is received, a link goes past certain frames and the
RLC completes certain datagrams. They are handed up, in order, as far as the first one that the
layer above refuses; the call succeeds if none is. So all of them are handed up if and only if none
but the last is refused. -/
theorem handedUp_until_refused {ε δ : Type} [RlcAbove ε] [NetAbove δ] (packet : Packet)
    (s : Inside SelectiveRepeat (Inside Recorder ε)) (t : Inside SegmentingRlc (Inside Offers δ)) :
    (let due := s.layer.due packet
      let accepted := Call.accepted RlcAbove.receive due s.around.around
      let (result, after) := SelectiveRepeat.receive packet s
      (∀ id, (s.layer.link id).GoesPast (after.layer.link id) packet
        (if packet.origin = id ∧ packet.arqHeader?.isSome then due else [])) ∧
      (result = .ok () ↔ accepted = due.length) ∧
      Call.HandsUp due accepted s.around.layer.packets after.around.layer.packets) ∧
    let completed := t.layer.completed packet
    let accepted := Call.accepted NetAbove.offer completed t.around.around
    let (result, after) := SegmentingRlc.receive packet t
    (result = .ok () ↔ (t.layer.absorbed packet).isOk ∧ accepted = completed.length) ∧
    Call.HandsUp completed accepted t.around.layer.datagrams after.around.layer.datagrams :=
  ⟨⟨SelectiveRepeat.receive_goesPast packet s, SelectiveRepeat.receive_handsUp packet s⟩,
    SegmentingRlc.receive_handsUp packet t⟩

/-! ### A network layer that is full -/

/-- A network layer that takes a number of datagrams and refuses the rest. -/
structure SmallNet where
  room : Nat

instance : NetAbove SmallNet where
  receive _ origin := fun net =>
    match net.room with
    | 0 => (.error (.layer (.queueFull origin)), net)
    | room + 1 => (.ok (), ⟨room⟩)
  hops := Call.fail (.unsupported .hopCount)
  report _ _ := Call.fail (.unsupported .hopReports)

/-- A packet of station 2 for station 1 with a whole datagram in each of its messages. Its headers
have the number at a position. -/
def numberedFrame (position : Nat) (datagrams : List Datagram) : Packet :=
  .ofMessages (⟨some (.base (.ofSource ⟨2⟩)), none⟩ :: datagrams.map fun d =>
    ⟨some (.unicast { (default : UnicastHeader) with
      dest := ⟨1⟩, useArq := true, seq := .atPosition position, fragment := .whole }),
      some (.segment ⟨d, 0, d.bits⟩)⟩)

/-- An ARQ whose link to station 2 has the third and the second frame already, and whose network
layer has room for one datagram. -/
def aheadOfFirst : Inside SelectiveRepeat (Inside Recorder (Inside SegmentingRlc SmallNet)) :=
  [2, 1].foldl (fun s position =>
      (SelectiveRepeat.receive (numberedFrame position [⟨#[position.toUInt8]⟩]) s).2)
    ⟨⟨default, 0, .empty⟩, ⟨[]⟩, default, ⟨1⟩⟩

/-- The first frame takes the link past three frames, of which the third one is not handed up, as
the datagram in the second one is refused. Of three datagrams in one packet, the third one is not
offered. -/
theorem not_handedUp_refused :
    (¬ ∀ (packet : Packet) (s : Inside SelectiveRepeat (Inside Recorder
        (Inside SegmentingRlc SmallNet))), (SelectiveRepeat.receive packet s).1 ≠ .ok () →
      (SelectiveRepeat.receive packet s).2.around.layer.packets =
        s.around.layer.packets ++ s.layer.due packet) ∧
    ¬ ∀ (packet : Packet) (s : Inside SegmentingRlc (Inside Offers SmallNet)),
      (SegmentingRlc.receive packet s).1 ≠ .ok () →
      (SegmentingRlc.receive packet s).2.around.layer.datagrams =
        s.around.layer.datagrams ++ s.layer.completed packet := by
  refine ⟨fun h => ?_, fun h => ?_⟩
  · exact absurd (h (numberedFrame 0 [⟨#[0]⟩]) aheadOfFirst (by decide +kernel)) (by decide +kernel)
  · exact absurd (h (numberedFrame 0 [⟨#[0]⟩, ⟨#[1]⟩, ⟨#[2]⟩]) ⟨default, ⟨[]⟩, ⟨1⟩⟩
      (by decide +kernel)) (by decide +kernel)

end DataLink
