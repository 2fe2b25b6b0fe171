import DataLink.Proofs.Rlc.Packets
import DataLink.Proofs.Tower
import Mathlib.Tactic.Set

/-!
# From queue to inbox

Two RLCs are joined by a perfect channel: whatever the one builds is signed and taken in by the other
at once. A datagram that is partly sent may be *overtaken* by one of a higher priority for the same
destination. The receiver keeps one partial datagram for each channel, so the start of the second one
takes the place of the first, whose remaining segments find nothing to continue.

**Theorem (`inbox_perm_accepted_iff`).** Once the queues have drained, the inbox holds every accepted
datagram exactly once and nothing else, if and only if no datagram was overtaken.

What is still to arrive is `arriving`: the datagrams of a queue of which nothing has been sent, and
the one at its front if the receiver has exactly the part of it that was sent. Cutting segments and
taking them in moves datagrams from `arriving` to the inbox (`absorb_cut`); accepting one adds it to
`arriving`, and takes the front of the queue out of it exactly if that is overtaken.
-/

namespace DataLink

/-! ## One channel -/

/-- Takes the segments of one channel in, in order, and lists the datagrams they complete. -/
def Partial.absorb : Option Partial → List (Fragment × Segment) →
    Except Fault (List Datagram × Option Partial)
  | before, [] => .ok ([], before)
  | before, (fragment, segment) :: rest => do
    let (complete, after) ← Partial.extend before fragment segment
    let (others, last) ← absorb after rest
    return (complete.toList ++ others, last)

theorem Reassembly.absorb_channel {origin channel : Address} {pieces : List (Fragment × Segment)}
    {streams : Reassembly} {complete : List Datagram} {last : Option Partial}
    (h : Partial.absorb (streams.get? ⟨origin, channel⟩) pieces = .ok (complete, last)) :
    ∃ after, absorb origin (pieces.map fun p => (channel, p.1, p.2)) streams =
        .ok (complete, after) ∧
      ∀ s, after.get? s = if ⟨origin, channel⟩ = s then last else streams.get? s := by
  induction pieces generalizing streams complete with
  | nil =>
    cases h
    refine ⟨streams, rfl, ?_⟩
    intro s
    split
    · next e => rw [e]
    · rfl
  | cons p rest ih =>
    obtain ⟨fragment, segment⟩ := p
    rw [Partial.absorb, bind_eq_ok] at h
    obtain ⟨⟨found, next⟩, hfound, h⟩ := h
    obtain ⟨⟨others, final⟩, hothers, h⟩ := bind_eq_ok.1 h
    cases h
    have hset : Partial.absorb ((streams.set ⟨origin, channel⟩ next).get? ⟨origin, channel⟩) rest =
        .ok (others, last) := by rw [Table.get?_set_self]; exact hothers
    obtain ⟨after, hafter, hget⟩ := ih hset
    refine ⟨after, ?_, ?_⟩
    · simp only [List.map_cons, absorb, hfound, hafter, bind, Except.bind]
      rfl
    · intro s
      rw [hget, Table.get?_set]
      split <;> rfl

/-! ## One queue and its channel -/

namespace Outgoing

/-- The receiver will get all of the datagram: nothing of it was sent yet, or what was sent is what
the receiver holds. -/
def Arrives (held : Option Partial) (o : Outgoing) : Prop :=
  o.sent = 0 ∨ held = some ⟨o.datagram, o.sent⟩

instance (held : Option Partial) (o : Outgoing) : Decidable (o.Arrives held) := by
  unfold Arrives
  infer_instance

end Outgoing

/-- The datagrams of a queue that the receiver will get. Only the one at the front may be continued:
behind it, what is partly sent was overtaken. -/
def arriving (held : Option Partial) : List (Nat × Outgoing) → List Datagram
  | [] => []
  | (_, o) :: rest =>
    if o.Arrives held then o.datagram :: arriving none rest else arriving none rest

/-- If the front of the queue is partly sent, the receiver holds that part or nothing. -/
def InStep (held : Option Partial) : List (Nat × Outgoing) → Prop
  | [] => True
  | (_, o) :: _ => o.Arrives held ∨ held = none

theorem inStep_none (items : List (Nat × Outgoing)) : InStep none items := by
  cases items with
  | nil => trivial
  | cons e rest => exact Or.inr rfl

/-- A segment of an arriving datagram continues what the receiver holds, and completes it with the
last bit. -/
theorem extend_of_arrives {held : Option Partial} {o : Outgoing} (h : o.Arrives held) (room : Nat) :
    Partial.extend held (o.fragment room) (o.segment room) =
      .ok (if o.left ≤ room then (some o.datagram, none)
        else (none, some ⟨o.datagram, (o.advance room).sent⟩)) := by
  have hheld : (if (o.fragment room).start then some ⟨(o.segment room).datagram, 0⟩ else held) =
      some ⟨o.datagram, o.sent⟩ := by
    rcases h with h | h <;> simp [Outgoing.fragment, Outgoing.segment, h]
    intro h0
    simp [h0]
  have hsum : checkedSum o.sent (min o.left room) = .ok (o.advance room).sent := by
    have hle := (o.advance room).sent_le
    have hfit : Word.fits (o.advance room).sent = true :=
      Word.fits_iff.2 (Nat.le_trans hle o.datagram.bits_le)
    simp only [Outgoing.advance] at hfit ⊢
    simp [checkedSum, hfit]
  unfold Partial.extend
  rw [hheld]
  simp only [Outgoing.segment, ne_eq, not_true_eq_false, if_false, hsum, bind, Except.bind,
    Outgoing.fragment, decide_eq_true_eq]
  split
  · next hroom =>
    have hbits : (o.advance room).sent = o.datagram.bits := by
      have := o.sent_le
      simp only [Outgoing.advance, Outgoing.left] at hroom ⊢
      omega
    simp [hbits, pure, Except.pure]
  · rfl

/-- The rest of an overtaken datagram finds nothing to continue. -/
theorem extend_of_overtaken {o : Outgoing} (h : o.sent ≠ 0) (room : Nat) :
    Partial.extend none (o.fragment room) (o.segment room) = .ok (none, none) := by
  simp [Partial.extend, Outgoing.fragment, h]

/-- **Cutting and taking in.** What is cut from a queue is taken in, and the datagrams that this
completes are those that are not to arrive any more. -/
theorem absorb_cut (header room : Nat) {held : Option Partial} {items : List (Nat × Outgoing)}
    (h : InStep held items) :
    ∃ complete last, Partial.absorb held (cut header room items).1 = .ok (complete, last) ∧
      InStep last (cut header room items).2 ∧
      arriving held items = complete ++ arriving last (cut header room items).2 ∧
      complete.length + (cut header room items).2.length ≤ items.length := by
  induction items generalizing room held with
  | nil => exact ⟨[], held, rfl, trivial, rfl, Nat.le_refl _⟩
  | cons e rest ih =>
    obtain ⟨priority, o⟩ := e
    by_cases hneed : room < o.need header
    · simp only [cut, hneed, if_true]
      exact ⟨[], held, rfl, h, rfl, by simp⟩
    · by_cases hfinish : o.left ≤ room - header
      · -- The datagram ends in this packet, and the receiver holds nothing after it.
        obtain ⟨others, last, hothers, hstep, harr, hlen⟩ :=
          ih (room - header - o.left) (inStep_none rest)
        simp only [cut, hneed, hfinish, if_true, if_false, Partial.absorb]
        by_cases ha : o.Arrives held
        · refine ⟨o.datagram :: others, last, ?_, hstep, ?_, ?_⟩
          · simp [extend_of_arrives ha, hfinish, hothers, bind, Except.bind, pure, Except.pure]
          · simp [arriving, ha, harr]
          · simp only [List.length_cons]
            omega
        · have hnone : held = none := h.resolve_left ha
          have hsent : o.sent ≠ 0 := fun h0 => ha (Or.inl h0)
          refine ⟨others, last, ?_, hstep, ?_, ?_⟩
          · simp [hnone, extend_of_overtaken hsent, hothers, bind, Except.bind, pure, Except.pure]
          · simp [arriving, ha, harr]
          · simp only [List.length_cons]
            omega
      · simp only [cut, hneed, hfinish, if_false, Partial.absorb]
        by_cases ha : o.Arrives held
        · have hnext : (o.advance (room - header)).Arrives
              (some ⟨o.datagram, (o.advance (room - header)).sent⟩) := Or.inr rfl
          refine ⟨[], some ⟨o.datagram, (o.advance (room - header)).sent⟩, ?_, Or.inl hnext, ?_, by simp⟩
          · simp [extend_of_arrives ha, hfinish, bind, Except.bind, pure, Except.pure]
          · rw [arriving, if_pos ha, arriving, if_pos hnext]
            rfl
        · have hnone : held = none := h.resolve_left ha
          have hsent : o.sent ≠ 0 := fun h0 => ha (Or.inl h0)
          have hlost : ¬ (o.advance (room - header)).Arrives none := by
            simp only [Outgoing.Arrives, Outgoing.advance, reduceCtorEq, or_false]
            omega
          refine ⟨[], none, ?_, Or.inr rfl, ?_, by simp⟩
          · simp [hnone, extend_of_overtaken hsent, bind, Except.bind, pure, Except.pure]
          · simp [arriving, ha, hlost]

/-! ## Queueing -/

/-- A new datagram of this priority goes ahead of one that is partly sent. -/
def overtakes (priority : Nat) : List (Nat × Outgoing) → Bool
  | [] => false
  | (p, o) :: _ => o.sent ≠ 0 && p < priority

theorem length_arriving_le (held : Option Partial) (items : List (Nat × Outgoing)) :
    (arriving held items).length ≤ items.length := by
  induction items generalizing held with
  | nil => exact Nat.le_refl _
  | cons e rest ih =>
    have := ih none
    simp only [arriving]
    split <;> simp only [List.length_cons] <;> omega

theorem inStep_place {held : Option Partial} {items : List (Nat × Outgoing)}
    (h : InStep held items) (priority : Nat) (datagram : Datagram) :
    InStep held (PriorityQueue.place priority (.fresh datagram) items) := by
  cases items with
  | nil => exact Or.inl (Or.inl rfl)
  | cons e rest =>
    rw [PriorityQueue.place]
    split
    · exact h
    · exact Or.inl (Or.inl rfl)

theorem arriving_fresh (held : Option Partial) (priority : Nat) (datagram : Datagram)
    (rest : List (Nat × Outgoing)) :
    arriving held ((priority, .fresh datagram) :: rest) = datagram :: arriving none rest := by
  have hfresh : (Outgoing.fresh datagram).Arrives held := Or.inl rfl
  rw [arriving, if_pos hfresh]
  rfl

theorem arriving_none_place (priority : Nat) (datagram : Datagram)
    (items : List (Nat × Outgoing)) :
    (arriving none (PriorityQueue.place priority (.fresh datagram) items)).Perm
      (datagram :: arriving none items) := by
  induction items with
  | nil => exact .refl _
  | cons e rest ih =>
    obtain ⟨p, o⟩ := e
    rw [PriorityQueue.place]
    split
    · simp only [arriving]
      split
      · exact (ih.cons _).trans (.swap _ _ _)
      · exact ih
    · exact .refl _

theorem arriving_place (held : Option Partial) {priority : Nat} {items : List (Nat × Outgoing)}
    (h : overtakes priority items = false) (datagram : Datagram) :
    (arriving held (PriorityQueue.place priority (.fresh datagram) items)).Perm
      (datagram :: arriving held items) := by
  cases items with
  | nil => exact .refl _
  | cons e rest =>
    obtain ⟨p, o⟩ := e
    rw [PriorityQueue.place]
    split
    · simp only [arriving]
      split
      · exact ((arriving_none_place priority datagram rest).cons _).trans (.swap _ _ _)
      · exact arriving_none_place priority datagram rest
    · next hp =>
      have h0 : o.sent = 0 := by
        simp only [overtakes, Bool.and_eq_false_iff, decide_eq_false_iff_not] at h
        omega
      have hall : ∀ held, o.Arrives held := fun _ => Or.inl h0
      rw [arriving_fresh]
      simp [arriving, hall]

/-- A datagram that overtakes another one takes that one's place among those to arrive. -/
theorem arriving_place_of_overtakes (held : Option Partial) {priority : Nat}
    {items : List (Nat × Outgoing)} (h : overtakes priority items = true) (datagram : Datagram) :
    ∃ lost others, arriving held items = lost ++ others ∧
      arriving held (PriorityQueue.place priority (.fresh datagram) items) = datagram :: others ∧
      ((arriving held items).length = items.length → lost ≠ []) := by
  cases items with
  | nil => simp [overtakes] at h
  | cons e rest =>
    obtain ⟨p, o⟩ := e
    simp only [overtakes, Bool.and_eq_true, decide_eq_true_eq] at h
    have hlost : ¬ o.Arrives none := by simp [Outgoing.Arrives, h.1]
    have hplace : arriving held (PriorityQueue.place priority (.fresh datagram) ((p, o) :: rest)) =
        datagram :: arriving none rest := by
      rw [PriorityQueue.place, if_neg (by omega), arriving_fresh, arriving, if_neg hlost]
    by_cases ha : o.Arrives held
    · exact ⟨[o.datagram], arriving none rest, by simp [arriving, ha], hplace, by simp⟩
    · refine ⟨[], arriving none rest, by simp [arriving, ha], hplace, ?_⟩
      intro hlen
      have := length_arriving_le none rest
      simp only [arriving, ha, if_false, List.length_cons] at hlen
      omega

/-! ## Two RLCs and a perfect channel -/

/-- What is asked of the sender. -/
inductive TransferEvent where
  | accept (datagram : Datagram) (dest : Address) (priority : Nat)
  | request (bits : Nat) (dest : Address) (frame : Nat)
deriving DecidableEq

/-- A sender, a receiver, and what the sender has accepted, with its destination. -/
structure Transfer (β : Type) where
  sender : Inside SegmentingRlc (Ends β)
  receiver : Inside SegmentingRlc (Ends Unit)
  accepted : List (Address × Datagram)

/-- A datagram for `dest` goes to one station or to all. -/
def IsReachable (dest : Address) : Prop := dest = .broadcast ∨ dest.isSymbolic = false

instance (dest : Address) : Decidable (IsReachable dest) := by
  unfold IsReachable
  infer_instance

/-- The event sends to one station or to all; anything may be requested. -/
def TransferEvent.IsReachable : TransferEvent → Prop
  | accept _ dest _ => DataLink.IsReachable dest
  | request _ _ _ => True

instance (e : TransferEvent) : Decidable e.IsReachable := by
  cases e <;> unfold TransferEvent.IsReachable <;> infer_instance

namespace Transfer

variable {β : Type} [ArqBelow β]

/-- Both RLCs as they are made, over any surroundings. -/
def start (sending receiving : Nat) (below : β) : Transfer β :=
  ⟨⟨.empty sending, .empty below⟩, ⟨.empty receiving, .empty ()⟩, []⟩

/-- One event. A packet that is built is signed by `source` and taken in by the receiver. -/
def step (source : Address) (t : Transfer β) : TransferEvent → Transfer β
  | .accept datagram dest priority =>
    match SegmentingRlc.accept datagram dest priority t.sender with
    | (.ok (), sender) => { t with sender, accepted := t.accepted ++ [(dest, datagram)] }
    | (.error _, sender) => { t with sender }
  | .request bits dest frame =>
    match SegmentingRlc.requestBurst bits dest frame t.sender with
    | (.ok packet, sender) =>
      { t with sender, receiver := (SegmentingRlc.receive (packet.sign source) t.receiver).2 }
    | (.error _, sender) => { t with sender }

def run (source : Address) (t : Transfer β) (events : List TransferEvent) : Transfer β :=
  events.foldl (step source) t

/-- What waits for `dest`, in the order of service. -/
def items (t : Transfer β) (dest : Address) : List (Nat × Outgoing) :=
  (t.sender.layer.queue dest).items

/-- The event is one that accepts a datagram ahead of one that is partly sent. -/
def overtakenBy (t : Transfer β) : TransferEvent → Bool
  | .accept datagram dest priority =>
    (SegmentingRlc.accept datagram dest priority t.sender).1.isOk &&
      overtakes priority (t.items dest)
  | .request _ _ _ => false

/-- Some datagram is overtaken in the course of a run. -/
def anyOvertaken (source : Address) (t : Transfer β) : List TransferEvent → Bool
  | [] => false
  | e :: rest => t.overtakenBy e || anyOvertaken source (t.step source e) rest

/-- Nothing is queued at the sender. -/
def IsDrained (t : Transfer β) : Prop := ∀ dest, t.sender.layer.numQueued dest = 0

/-- What the receiver has handed up. -/
def inbox (t : Transfer β) : List (Address × Datagram) := t.receiver.around.net.inbox

/-! ## The invariant of a transfer -/

/-- What the receiver holds of a datagram for `dest`. -/
def held (source : Address) (t : Transfer β) (dest : Address) : Option Partial :=
  t.receiver.layer.streams.get? ⟨source, dest⟩

/-- What is still to arrive for `dest`. -/
def due (source : Address) (t : Transfer β) (dest : Address) : List Datagram :=
  arriving (t.held source dest) (t.items dest)

/-- The books of a transfer: every accepted datagram is delivered, lost or due. As long as none was
overtaken, none is lost and all that is queued is due. -/
structure Balance (source : Address) (overtaken : Bool) (t : Transfer β)
    (delivered lost : List (Address × Datagram)) : Prop where
  inbox : t.inbox = delivered.map fun e => (source, e.2)
  count : ∀ dest d, t.accepted.count (dest, d) =
    delivered.count (dest, d) + lost.count (dest, d) + (t.due source dest).count d
  lost_iff : lost = [] ↔ overtaken = false
  due : overtaken = false → ∀ dest, (t.due source dest).length = (t.items dest).length

structure Inv (source : Address) (overtaken : Bool) (t : Transfer β) : Prop where
  injected : t.sender.layer.injected = .empty
  items : ∀ dest, ¬ IsReachable dest → t.items dest = []
  inStep : ∀ dest, InStep (t.held source dest) (t.items dest)
  balance : ∃ delivered lost, Balance source overtaken t delivered lost

omit [ArqBelow β] in
theorem inv_start (source : Address) (sending receiving : Nat) (below : β) :
    Inv source false (start sending receiving below) where
  injected := rfl
  items _ _ := rfl
  inStep _ := trivial
  balance := ⟨[], [], rfl, fun _ _ => rfl, by simp, fun _ _ => rfl⟩

/-! ## Each event keeps the books -/

theorem isCarried_of_isReachable {dest : Address} (h : IsReachable dest) :
    SegmentingRlc.IsCarried dest := by
  rcases h with h | h
  · exact Or.inl h
  · exact Or.inr (Or.inr h)

theorem channelOf_of_isReachable {dest : Address} (h : IsReachable dest) :
    SegmentingRlc.channelOf dest = dest := by
  unfold SegmentingRlc.channelOf
  split
  · next hd =>
    rcases h with rfl | h
    · rfl
    · rcases hd with rfl | rfl <;> simp [Address.isSymbolic, Address.broadcast, Address.beacon] at h
  · rfl

theorem count_tagged (dest other : Address) (d : Datagram) (l : List Datagram) :
    (l.map fun x => (dest, x)).count (other, d) = if dest = other then l.count d else 0 := by
  induction l with
  | nil => simp
  | cons x rest ih =>
    rw [List.map_cons, List.count_cons, ih, List.count_cons]
    by_cases h : dest = other <;> simp [h]

omit [ArqBelow β] in
/-- The books are kept if the events at one destination move what is due there. -/
theorem Balance.move {source : Address} {overtaken after : Bool} {t u : Transfer β}
    {delivered lost : List (Address × Datagram)} (h : Balance source overtaken t delivered lost)
    (dest : Address) (taken completed dropped : List Datagram)
    (hinbox : u.inbox = t.inbox ++ completed.map fun d => (source, d))
    (haccepted : u.accepted = t.accepted ++ taken.map fun d => (dest, d))
    (hdue : (taken ++ t.due source dest).Perm (completed ++ dropped ++ u.due source dest))
    (hother : ∀ other, dest ≠ other →
      u.due source other = t.due source other ∧ u.items other = t.items other)
    (hlost : (lost = [] ∧ dropped = []) ↔ after = false)
    (hlen : after = false → (u.due source dest).length = (u.items dest).length)
    (hafter : after = false → overtaken = false) :
    Balance source after u (delivered ++ completed.map fun d => (dest, d))
      (lost ++ dropped.map fun d => (dest, d)) where
  inbox := by
    rw [hinbox, h.inbox, List.map_append, List.map_map]
    rfl
  count other d := by
    have hc := h.count other d
    have hp := List.perm_iff_count.1 hdue d
    simp only [List.count_append] at hp
    simp only [haccepted, List.count_append, count_tagged]
    by_cases ho : dest = other
    · subst ho
      simp only [if_true]
      omega
    · rw [(hother other ho).1]
      simp only [ho, if_false]
      omega
  lost_iff := by
    rw [← hlost]
    simp
  due hfalse other := by
    by_cases ho : dest = other
    · subst ho
      exact hlen hfalse
    · rw [(hother other ho).1, (hother other ho).2]
      exact h.due (hafter hfalse) other

theorem inv_accept {source : Address} {overtaken : Bool} {t : Transfer β}
    (h : Inv source overtaken t) (datagram : Datagram) {dest : Address} (hdest : IsReachable dest)
    (priority : Nat) :
    Inv source (overtaken || t.overtakenBy (.accept datagram dest priority))
      (t.step source (.accept datagram dest priority)) := by
  rcases SegmentingRlc.accept_cases datagram dest priority t.sender with
    ⟨around, hacc⟩ | ⟨e, around, hacc⟩
  · obtain ⟨delivered, lost, hb⟩ := h.balance
    have hby : t.overtakenBy (.accept datagram dest priority) =
        overtakes priority (t.items dest) := by
      simp [overtakenBy, hacc, Except.isOk, Except.toBool]
    rw [hby]
    simp only [step, hacc]
    set u : Transfer β := { t with
      sender := ⟨t.sender.layer.enqueue datagram dest priority, around⟩
      accepted := t.accepted ++ [(dest, datagram)] } with hu
    have hitems : ∀ other, u.items other = if dest = other then
        PriorityQueue.place priority (.fresh datagram) (t.items dest) else t.items other := by
      intro other
      simp only [items, hu, SegmentingRlc.queue_enqueue]
      split <;> rfl
    have hother : ∀ other, dest ≠ other →
        u.due source other = t.due source other ∧ u.items other = t.items other := by
      intro other ho
      have := hitems other
      rw [if_neg ho] at this
      exact ⟨by rw [due, this]; rfl, this⟩
    have hdue : u.due source dest =
        arriving (t.held source dest)
          (PriorityQueue.place priority (.fresh datagram) (t.items dest)) := by
      rw [due, hitems, if_pos rfl]
      rfl
    refine ⟨h.injected, ?_, ?_, ?_⟩
    · intro other ho
      rw [hitems, if_neg, h.items other ho]
      rintro rfl
      exact ho hdest
    · intro other
      rw [hitems]
      split
      · next ho =>
        subst ho
        exact inStep_place (h.inStep dest) priority datagram
      · exact h.inStep other
    · cases hover : overtakes priority (t.items dest) with
      | false =>
        have hp := arriving_place (t.held source dest) hover datagram
        rw [← hdue] at hp
        rw [Bool.or_false]
        refine ⟨_, _, hb.move dest [datagram] [] [] ?_ rfl hp.symm hother ?_ ?_ id⟩
        · simp [inbox, hu]
        · simpa using hb.lost_iff
        · intro hfalse
          have := hb.due hfalse dest
          rw [due] at this
          rw [hp.length_eq, hitems, if_pos rfl, (PriorityQueue.place_perm _ _ _).length_eq]
          simp only [List.length_cons]
          omega
      | true =>
        obtain ⟨dropped, others, hold, hnew, hdropped⟩ :=
          arriving_place_of_overtakes (t.held source dest) hover datagram
        rw [← hdue] at hnew
        rw [Bool.or_true]
        refine ⟨_, _, hb.move dest [datagram] [] dropped ?_ rfl ?_ hother ?_ (by simp) (by simp)⟩
        · simp [inbox, hu]
        · rw [hnew, due, hold]
          exact (List.perm_append_comm_assoc [datagram] dropped others)
        · simp only [Bool.true_eq_false, iff_false, not_and]
          intro hnil
          exact hdropped (hb.due (hb.lost_iff.1 hnil) dest)
  · have hby : t.overtakenBy (.accept datagram dest priority) = false := by
      simp [overtakenBy, hacc, Except.isOk, Except.toBool]
    simp only [hby, Bool.or_false, step, hacc]
    obtain ⟨delivered, lost, hb⟩ := h.balance
    exact ⟨h.injected, h.items, h.inStep,
      delivered, lost, hb.inbox, hb.count, hb.lost_iff, hb.due⟩

theorem inv_request {source : Address} {overtaken : Bool} {t : Transfer β}
    (h : Inv source overtaken t) (bits : Nat) (dest : Address) (frame : Nat) :
    Inv source overtaken (t.step source (.request bits dest frame)) := by
  obtain ⟨delivered, lost, hb⟩ := h.balance
  by_cases hbits : bits < Width.base
  · -- No packet has room for a base header: an empty one goes over, which says nothing.
    have hreq : SegmentingRlc.requestBurst bits dest frame t.sender = (.ok .empty, t.sender) :=
      SegmentingRlc.requestBurst_of_lt hbits dest frame t.sender
    have hnothing : Reassembly.absorb (Packet.empty.sign source).origin [] t.receiver.layer.streams =
        .ok ([], t.receiver.layer.streams) := rfl
    have hrec := SegmentingRlc.receive_apply (Packet.empty.sign source) t.receiver hnothing
    simp only [step, hreq, hrec]
    refine ⟨h.injected, h.items, h.inStep, delivered, lost, ?_, hb.count, hb.lost_iff, hb.due⟩
    have hin := hb.inbox
    simp only [inbox, Ends.deliver, List.map_nil, List.append_nil] at hin ⊢
    exact hin
  · have hinjected : (t.sender.layer.injectedFor dest).items = [] := by
      simp [SegmentingRlc.injectedFor, h.injected, PriorityQueue.empty]
    by_cases hdest : IsReachable dest
    · have hreq := SegmentingRlc.requestBurst_apply frame hbits hinjected
        (Or.inl (isCarried_of_isReachable hdest))
      obtain ⟨complete, last, habs, hstep, harr, hlen⟩ :=
        absorb_cut (SegmentingRlc.headerWidth dest) (bits - Width.base) (h.inStep dest)
      obtain ⟨after, hafter, hget⟩ := Reassembly.absorb_channel habs
      have hrec := SegmentingRlc.receive_packed (channelOf_of_isReachable hdest) hafter
      simp only [step, hreq, SegmentingRlc.cutFor]
      rw [show (t.sender.layer.queue dest).items = t.items dest from rfl, hrec]
      set rest := (cut (SegmentingRlc.headerWidth dest) (bits - Width.base) (t.items dest)).2
      set u : Transfer β := { t with
        sender := { t.sender with layer := t.sender.layer.setQueue dest rest }
        receiver := ⟨{ t.receiver.layer with streams := after },
          t.receiver.around.deliver source complete⟩ } with hu
      have hitems : ∀ other, u.items other = if dest = other then rest else t.items other := by
        intro other
        simp only [items, hu, SegmentingRlc.queue_setQueue]
        split <;> rfl
      have hheld : ∀ other, u.held source other =
          if dest = other then last else t.held source other := by
        intro other
        have := hget ⟨source, other⟩
        simp only [Stream.mk.injEq, true_and] at this
        exact this
      have hdue : u.due source dest = arriving last rest := by
        simp only [due, hitems, hheld, if_true]
      refine ⟨h.injected, ?_, ?_, ?_⟩
      · intro other ho
        rw [hitems, if_neg, h.items other ho]
        rintro rfl
        exact ho hdest
      · intro other
        rw [hitems, hheld]
        split
        · exact hstep
        · exact h.inStep other
      · refine ⟨_, _, hb.move dest [] complete [] rfl ?_ ?_ ?_ ?_ ?_ id⟩
        · simp [hu]
        · simp only [List.nil_append, List.append_nil, hdue]
          exact .of_eq harr
        · intro other ho
          simp only [due, hitems, hheld, if_neg ho, and_self]
        · simpa using hb.lost_iff
        · intro hfalse
          have hold := hb.due hfalse dest
          have hle := length_arriving_le last rest
          rw [due, show arriving (t.held source dest) (t.items dest) = _ from harr,
            List.length_append] at hold
          rw [hdue, hitems, if_pos rfl]
          change complete.length + rest.length ≤ (t.items dest).length at hlen
          change complete.length + (arriving last rest).length = (t.items dest).length at hold
          omega
    · -- Nothing was ever accepted for this destination, and nothing is sent to it.
      have hnil : (t.sender.layer.queue dest).items = [] := h.items dest hdest
      have hreq := SegmentingRlc.requestBurst_apply frame hbits hinjected (Or.inr hnil)
      have hcut : t.sender.layer.cutFor bits dest = ([], []) := by
        simp [SegmentingRlc.cutFor, hnil, cut]
      have hnothing : Reassembly.absorb source [] t.receiver.layer.streams =
          .ok ([], t.receiver.layer.streams) := rfl
      have hrec : SegmentingRlc.receive ((SegmentingRlc.packed dest []).sign source) t.receiver = _ :=
        SegmentingRlc.receive_packed rfl hnothing
      simp only [step, hreq, hcut, hrec]
      have hqueue : ∀ other, (t.sender.layer.setQueue dest []).queue other =
          t.sender.layer.queue other := by
        intro other
        rw [SegmentingRlc.queue_setQueue]
        split
        · next ho =>
          subst ho
          rw [← hnil]
        · rfl
      refine ⟨h.injected, ?_, ?_, delivered, lost, ?_, ?_,
        hb.lost_iff, ?_⟩
      · intro other ho
        rw [items, hqueue]
        exact h.items other ho
      · intro other
        rw [items, hqueue]
        exact h.inStep other
      · have hin := hb.inbox
        simp only [inbox, Ends.deliver, List.map_nil, List.append_nil] at hin ⊢
        exact hin
      · simp only [due, items, hqueue]
        exact hb.count
      · simp only [due, items, hqueue]
        exact hb.due

theorem inv_step {source : Address} {overtaken : Bool} {t : Transfer β}
    (h : Inv source overtaken t) {e : TransferEvent} (he : e.IsReachable) :
    Inv source (overtaken || t.overtakenBy e) (t.step source e) := by
  cases e with
  | accept datagram dest priority => exact inv_accept h datagram he priority
  | request bits dest frame =>
    rw [show t.overtakenBy (.request bits dest frame) = false from rfl, Bool.or_false]
    exact inv_request h bits dest frame

/-! ## A whole transfer -/

theorem inv_run {source : Address} {overtaken : Bool} {t : Transfer β}
    (h : Inv source overtaken t) {events : List TransferEvent}
    (hevents : ∀ e ∈ events, e.IsReachable) :
    Inv source (overtaken || t.anyOvertaken source events) (t.run source events) := by
  induction events generalizing overtaken t with
  | nil =>
    rw [anyOvertaken, Bool.or_false]
    exact h
  | cons e rest ih =>
    have hstep := inv_step h (hevents e List.mem_cons_self)
    have hrest := ih hstep fun e' he' => hevents e' (List.mem_cons_of_mem _ he')
    rw [Bool.or_assoc] at hrest
    exact hrest

omit [ArqBelow β] in
theorem due_of_isDrained {t : Transfer β} (h : t.IsDrained) (source dest : Address) :
    t.due source dest = [] := by
  have hlen : (t.items dest).length = 0 := by
    have := h dest
    simp only [SegmentingRlc.numQueued, PriorityQueue.size] at this
    exact this
  rw [due, List.eq_nil_of_length_eq_zero hlen]
  rfl

/-- **The round trip.** When the sender has drained its queues, the receiver has handed up every
accepted datagram exactly once and nothing else, if and only if no datagram was overtaken while it
was partly sent. -/
theorem inbox_perm_accepted_iff (source : Address) (sending receiving : Nat) (below : β)
    (events : List TransferEvent) (hevents : ∀ e ∈ events, e.IsReachable)
    (hdrained : ((start sending receiving below).run source events).IsDrained) :
    ((start sending receiving below).run source events).inbox.Perm
        (((start sending receiving below).run source events).accepted.map fun e => (source, e.2)) ↔
      (start sending receiving below).anyOvertaken source events = false := by
  have hinv := inv_run (inv_start source sending receiving below) hevents
  rw [Bool.false_or] at hinv
  obtain ⟨delivered, lost, hb⟩ := hinv.balance
  set final := (start sending receiving below).run source events
  have hcount : final.accepted.Perm (delivered ++ lost) := by
    refine List.perm_iff_count.2 fun e => ?_
    rw [hb.count e.1 e.2, due_of_isDrained hdrained, List.count_append]
    rfl
  rw [← hb.lost_iff, hb.inbox]
  constructor
  · intro hperm
    have hlen := hperm.length_eq
    rw [List.length_map, List.length_map, hcount.length_eq, List.length_append] at hlen
    exact List.eq_nil_of_length_eq_zero (by omega)
  · intro hlost
    rw [hlost, List.append_nil] at hcount
    exact (hcount.map fun e => (source, e.2)).symm

omit [ArqBelow β] in
theorem isDrained_of_queues_empty {t : Transfer β} (h : t.sender.layer.queues = .empty) :
    t.IsDrained := by
  intro dest
  rw [SegmentingRlc.numQueued, SegmentingRlc.queue, h]
  rfl

/-- Four bytes for station 2 go out in two packets, and a broadcast goes between them. -/
def undisturbed : List TransferEvent :=
  [.accept ⟨#[1, 2, 3, 4]⟩ ⟨2⟩ 0, .request 151 ⟨2⟩ 0, .accept ⟨#[5]⟩ .broadcast 7,
    .request 200 .broadcast 1, .request 200 ⟨2⟩ 1]

/-- A byte of a higher priority goes out between the first byte of a datagram and its others. -/
def overtaking : List TransferEvent :=
  [.accept ⟨#[1, 2, 3, 4]⟩ ⟨2⟩ 0, .request 151 ⟨2⟩ 0, .accept ⟨#[5]⟩ ⟨2⟩ 7,
    .request 151 ⟨2⟩ 0, .request 200 ⟨2⟩ 0]

/-- Split or not, the datagrams of a transfer without overtaking arrive. -/
theorem inbox_perm_accepted_undisturbed :
    ((start 256 256 ()).run ⟨1⟩ undisturbed).inbox.Perm
      (((start 256 256 ()).run ⟨1⟩ undisturbed).accepted.map fun e => (⟨1⟩, e.2)) :=
  (inbox_perm_accepted_iff ⟨1⟩ 256 256 () undisturbed (by decide)
    (isDrained_of_queues_empty (by decide +kernel))).2 (by decide +kernel)

/-- A sender may drain its queues, and yet a datagram it has accepted is not handed up. -/
theorem inbox_lacks_overtaken : ∃ events : List TransferEvent, (∀ e ∈ events, e.IsReachable) ∧
    ((start 256 256 ()).run ⟨1⟩ events).IsDrained ∧
    ¬ ((start 256 256 ()).run ⟨1⟩ events).inbox.Perm
      (((start 256 256 ()).run ⟨1⟩ events).accepted.map fun e => (⟨1⟩, e.2)) :=
  ⟨overtaking, by decide, isDrained_of_queues_empty (by decide +kernel),
    fun h => absurd h.length_eq (by decide +kernel)⟩

end Transfer

end DataLink
