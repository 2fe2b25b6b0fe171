import DataLink.Proofs.Rlc.Serving
import DataLink.Proofs.Station.Linking

/-!
# Sending is all or nothing

Before a datagram is queued, its destination and the length of its queue are checked, and the layers
below are told the demand. Each of these may fail, and telling the demand may fail on the way through
the ARQ or on the way through the MAC.

**Theorem (`queued_or_unchanged`).** In every state of a run of an RLC in a station with a slotted MAC,
with whatever ARQ between them and whichever bindings wired, a datagram that is sent is queued, and the
demand noted for its destination is what is queued for it now, up to the highest count; or the call
fails, and nothing at all has changed. It succeeds if and only if the destination and the length of its
queue allow it and the MAC can be reached. No queue is longer than the RLC allows.

The demand is worked out before the datagram is queued. It is the right one (`queuedBits_enqueue`), as a
datagram is added to a queue and nothing else (`PriorityQueue.place_perm`), and as a sum that is bounded
at every step is the bounded sum, in whatever order it is taken (`queuedBits_eq_foldl`).
-/

namespace DataLink

namespace SegmentingRlc

/-! ## What is queued -/

section Enqueue

variable (r : SegmentingRlc) (datagram : Datagram) (dest : Address) (priority : Nat)

/-- What is queued may be added up in any order, up to the highest count at every step. -/
theorem queuedBits_eq_foldl {left : List Nat}
    (h : left.Perm ((r.queue dest).toList.map Outgoing.left)) :
    r.queuedBits dest = left.foldl (fun sum n => Word.clamp (sum + n)) 0 := by
  have hsum := Word.foldl_clamp left 0
  rw [Nat.zero_add, Word.total_of_perm h] at hsum
  exact hsum.symm

theorem queue_enqueue_perm : ((r.enqueue datagram dest priority).queue dest).items.Perm
    ((priority, .fresh datagram) :: (r.queue dest).items) := by
  rw [queue_enqueue, if_pos rfl]
  exact PriorityQueue.place_perm priority (.fresh datagram) (r.queue dest).items

theorem numQueued_enqueue (other : Address) : (r.enqueue datagram dest priority).numQueued other =
    if dest = other then r.numQueued dest + 1 else r.numQueued other := by
  split
  · next hdest =>
    subst hdest
    exact (r.queue_enqueue_perm datagram dest priority).length_eq
  · next hdest => rw [numQueued, queue_enqueue, if_neg hdest, numQueued]

/-- The demand that is told is what is queued afterwards. -/
theorem queuedBits_enqueue : (r.enqueue datagram dest priority).queuedBits dest =
    Word.clamp (r.queuedBits dest + datagram.bits) := by
  have hperm := ((r.queue_enqueue_perm datagram dest priority).map Prod.snd).map Outgoing.left
  rw [queuedBits, PriorityQueue.toList, Word.total_of_perm hperm, List.map_cons, List.map_cons,
    Word.total, Nat.add_comm, queuedBits, Word.clamp_add_clamp]
  rfl

end Enqueue

/-! ## The length of a queue -/

variable {ε : Type} {maxQueued : Nat}

theorem maxQueued_requestBurst (bits : Nat) (dest : Address) (frame : Nat)
    (s : Inside SegmentingRlc ε) :
    (requestBurst bits dest frame s).2.layer.maxQueued = s.layer.maxQueued := by
  cases hserves : s.layer.servesControl bits dest frame with
  | true =>
    obtain ⟨injected, hafter⟩ := requestBurst_of_servesControl hserves
    rw [hafter]
  | false =>
    rcases requestBurst_of_not_servesControl hserves with h | ⟨e, h⟩ | ⟨packet, after, hfill, h⟩
    · rw [h]
    · rw [h]
    · rw [h, fill_eq_ok hfill]
      rfl

/-- No queue is longer than allowed. -/
def IsBounded (maxQueued : Nat) (r : SegmentingRlc) : Prop :=
  r.maxQueued = maxQueued ∧ ∀ dest, r.numQueued dest ≤ maxQueued

theorem isBounded_empty (maxQueued : Nat) : IsBounded maxQueued (.empty maxQueued) :=
  ⟨rfl, fun _ => Nat.zero_le _⟩

variable [ArqBelow ε]

theorem IsBounded.accept {s : Inside SegmentingRlc ε} (h : s.layer.IsBounded maxQueued)
    (datagram : Datagram) (dest : Address) (priority : Nat) :
    (SegmentingRlc.accept datagram dest priority s).2.layer.IsBounded maxQueued := by
  rw [accept_eq]
  split
  · exact h
  · split
    · exact h
    · next hroom =>
      split
      · refine ⟨h.1, fun other => ?_⟩
        rw [h.1] at hroom
        have := h.2 other
        simp only [numQueued_enqueue]
        split <;> omega
      · exact h

variable [NetAbove ε]

theorem IsBounded.step {s : Inside SegmentingRlc ε} (h : s.layer.IsBounded maxQueued)
    (move : Move ε) : (SegmentingRlc.step s move).layer.IsBounded maxQueued := by
  cases move with
  | elsewhere change => exact h
  | event e =>
    cases e with
    | accept datagram dest priority => exact h.accept datagram dest priority
    | request bits dest frame =>
      exact ⟨(maxQueued_requestBurst bits dest frame s).trans h.1, fun other =>
        Nat.le_trans (numQueued_requestBurst_le bits dest frame s other) (h.2 other)⟩
    | inject packet priority => exact h
    | receive packet =>
      obtain ⟨streams, hlayer⟩ := receive_layer packet s
      rw [SegmentingRlc.step, perform, hlayer]
      exact h

/-- The states that an RLC may come to, with whatever happens around it. -/
inductive IsReached (maxQueued : Nat) : Inside SegmentingRlc ε → Prop
  | start (around : ε) : IsReached maxQueued ⟨.empty maxQueued, around⟩
  | step {s : Inside SegmentingRlc ε} (h : IsReached maxQueued s) (move : Move ε) :
      IsReached maxQueued (SegmentingRlc.step s move)

theorem IsReached.run {s : Inside SegmentingRlc ε} (h : IsReached maxQueued s)
    (moves : List (Move ε)) : IsReached maxQueued (SegmentingRlc.run s moves) := by
  induction moves generalizing s with
  | nil => exact h
  | cons move rest ih => exact ih (h.step move)

theorem IsReached.isBounded {s : Inside SegmentingRlc ε} (h : IsReached maxQueued s) :
    s.layer.IsBounded maxQueued := by
  induction h with
  | start around => exact isBounded_empty maxQueued
  | step _ move ih => exact ih.step move

end SegmentingRlc

/-! ## The way down -/

theorem Seat.idle?_eq_some {σ : Type} {seat : Seat σ} {layer : σ} :
    seat.idle? = some layer ↔ seat = .idle layer := by
  cases seat <;> simp [idle?]

namespace Station

variable {s : Station}

section Through

variable {σ α : Type} {j : Joint} {p : Place σ}

theorem isWired_binding (s : Station) (j : Joint) : (s.binding j).isWired = true ↔ j ∈ s.wired := by
  by_cases h : j ∈ s.wired <;> simp [binding, Binding.isWired, h]

theorem through_of_idle {layer : σ} (hwired : j ∈ s.wired) (hidle : p.get s = .idle layer)
    (step : Call (Inside σ Station) α) : through j p step s =
      match step ⟨layer, p.put .entered s⟩ with
      | (r, after) => (r, p.put ((p.get after.around).leave after.layer) after.around) := by
  rw [through, if_pos ((isWired_binding s j).2 hwired), Place.enter, hidle]
  rfl

/-- A call that does not get into its layer leaves the station as it is. -/
theorem through_of_away (h : j ∈ s.wired → (p.get s).idle? = none)
    (step : Call (Inside σ Station) α) : ∃ e, through j p step s = (.error e, s) := by
  rw [through]
  split
  · next hwired =>
    have hidle := h ((isWired_binding s j).1 hwired)
    rw [Place.enter]
    cases hseat : p.get s with
    | idle layer =>
      rw [hseat] at hidle
      cases hidle
    | _ => exact ⟨_, rfl⟩
  · exact ⟨_, rfl⟩

end Through

/-- If there is a MAC that can be called, it is a slotted one. -/
def hasSlotMac (s : Station) : Bool := s.mac.idle?.all fun mac => mac.slotted?.isSome

/-- The MAC that the RLC can tell a demand: both bindings on the way are wired, and neither the ARQ nor
the MAC is away. -/
def macBelow? (s : Station) : Option SlotMac :=
  if .rlcLower ∈ s.wired ∧ .arqLower ∈ s.wired ∧ s.arq.idle?.isSome then s.slotMac? else none

/-- The station with another MAC in the seat. -/
def setMac (s : Station) (m : SlotMac) : Station := { s with mac := .idle (.slotted m) }

theorem macBelow?_eq_some {m : SlotMac} (h : s.macBelow? = some m) :
    (.rlcLower ∈ s.wired ∧ ∃ arq, s.arq = .idle arq) ∧
      .arqLower ∈ s.wired ∧ s.mac = .idle (.slotted m) := by
  rw [macBelow?] at h
  split at h
  · next hway =>
    obtain ⟨hrlc, harq, hidle⟩ := hway
    obtain ⟨arq, hidle⟩ := Option.isSome_iff_exists.1 hidle
    obtain ⟨mac, hmac, hslotted⟩ := Option.bind_eq_some_iff.1 h
    cases mac with
    | slotted _ =>
      cases hslotted
      exact ⟨⟨hrlc, arq, Seat.idle?_eq_some.1 hidle⟩, harq, Seat.idle?_eq_some.1 hmac⟩
    | stub _ => cases hslotted
  · cases h

theorem macBelow?_eq_none (hmac : s.hasSlotMac = true) (h : s.macBelow? = none) :
    (.rlcLower ∈ s.wired → s.arq.idle? = none) ∨ (.arqLower ∈ s.wired → s.mac.idle? = none) := by
  by_contra hway
  simp only [not_or, Classical.not_imp] at hway
  obtain ⟨⟨hrlc, hidle⟩, harq, hseat⟩ := hway
  rw [macBelow?, if_pos ⟨hrlc, harq, Option.isSome_iff_ne_none.2 hidle⟩] at h
  obtain ⟨mac, hseat⟩ := Option.ne_none_iff_exists'.1 hseat
  rw [slotMac?, hseat, Option.bind_some] at h
  rw [hasSlotMac, hseat, Option.all_some, h] at hmac
  cases hmac

theorem notifyOutgoing_apply {arq : ArqLayer} (hwired : .rlcLower ∈ s.wired)
    (hidle : s.arq = .idle arq) (bits : Nat) (dest : Address) :
    ArqBelow.notifyOutgoing bits dest s =
      match MacBelow.notifyOutgoing bits dest { s with arq := .entered } with
      | (r, after) => (r, { after with arq := after.arq.leave arq }) :=
  through_of_idle (p := .arq) hwired hidle (ArqLayer.notifyOutgoing bits dest)

/-- A MAC that can be reached takes note of the demand, and nothing else changes. -/
theorem notifyOutgoing_of_some {m : SlotMac} (h : s.macBelow? = some m) (bits : Nat)
    (dest : Address) : ArqBelow.notifyOutgoing bits dest s =
      (.ok (), s.setMac (m.notifyOutgoing bits dest)) := by
  obtain ⟨⟨hrlc, arq, hidle⟩, harq, hmac⟩ := macBelow?_eq_some h
  have hnoted : MacBelow.notifyOutgoing bits dest { s with arq := .entered } =
      (.ok (), { s.setMac (m.notifyOutgoing bits dest) with arq := .entered }) :=
    through_of_idle (s := { s with arq := .entered }) (p := .mac) harq hmac
      (MacLayer.notifyOutgoing bits dest)
  rw [notifyOutgoing_apply hrlc hidle, hnoted, setMac, hidle]
  rfl

/-- A demand that does not get there changes nothing, be it stopped before the ARQ or behind it. -/
theorem notifyOutgoing_of_none (hmac : s.hasSlotMac = true) (h : s.macBelow? = none) (bits : Nat)
    (dest : Address) : ∃ e, ArqBelow.notifyOutgoing bits dest s = (.error e, s) := by
  by_cases haway : .rlcLower ∈ s.wired → s.arq.idle? = none
  · exact through_of_away (p := .arq) haway (ArqLayer.notifyOutgoing bits dest)
  · have haway' := (macBelow?_eq_none hmac h).resolve_left haway
    obtain ⟨e, hfails⟩ : ∃ e, MacBelow.notifyOutgoing bits dest { s with arq := .entered } =
        (.error e, { s with arq := .entered }) :=
      through_of_away (s := { s with arq := .entered }) (p := .mac) haway'
        (MacLayer.notifyOutgoing bits dest)
    obtain ⟨hwired, hidle⟩ := Classical.not_imp.1 haway
    obtain ⟨arq, hidle⟩ := Option.ne_none_iff_exists'.1 hidle
    have hseat := Seat.idle?_eq_some.1 hidle
    refine ⟨e, ?_⟩
    rw [notifyOutgoing_apply hwired hseat, hfails]
    simp only [Seat.leave]
    rw [← hseat]

end Station

theorem SlotMac.reportedBits_notifyOutgoing (m : SlotMac) (bits : Nat) (dest other : Address) :
    (m.notifyOutgoing bits dest).reportedBits other =
      if dest = other then bits else m.reportedBits other := by
  have hdemand : (m.notifyOutgoing bits dest).demand = m.demand.insert dest bits := by
    unfold notifyOutgoing
    simp only
    split <;> rfl
  rw [reportedBits, hdemand, Table.get?_insert]
  split <;> rfl

/-! ## Sending -/

namespace SegmentingRlc

/-- From `s` to `t` a datagram was queued, and the MAC took note of what is queued then. -/
structure Enqueues (datagram : Datagram) (dest : Address) (priority : Nat)
    (s t : Inside SegmentingRlc Station) : Prop where
  queue : (t.layer.queue dest).items.Perm ((priority, .fresh datagram) :: (s.layer.queue dest).items)
  numQueued : t.layer.numQueued dest = s.layer.numQueued dest + 1
  queuedBits : t.layer.queuedBits dest =
    min Word.highest (s.layer.queuedBits dest + datagram.bits)
  others : ∀ other, other ≠ dest → t.layer.queue other = s.layer.queue other
  noted : ∃ before after, s.around.macBelow? = some before ∧ t.around = s.around.setMac after ∧
    after.reportedBits dest = t.layer.queuedBits dest ∧
    ∀ other, other ≠ dest → after.reportedBits other = before.reportedBits other

variable {maxQueued : Nat} {s : Inside SegmentingRlc Station} {dest : Address}

theorem accept_of_some (hdest : ¬ (dest = .unset ∨ dest = .dme))
    (hroom : s.layer.numQueued dest < s.layer.maxQueued) {m : SlotMac}
    (hmac : s.around.macBelow? = some m) (datagram : Datagram) (priority : Nat) :
    accept datagram dest priority s =
      (.ok (), ⟨s.layer.enqueue datagram dest priority, s.around.setMac (m.notifyOutgoing
        ((s.layer.enqueue datagram dest priority).queuedBits dest) dest)⟩) := by
  rw [accept_eq, if_neg hdest, if_neg (Nat.not_le.2 hroom), Station.notifyOutgoing_of_some hmac,
    queuedBits_enqueue]

/-- Wherever a call fails, nothing has changed. -/
theorem accept_refused (hslotted : s.around.hasSlotMac = true)
    (h : (dest = .unset ∨ dest = .dme) ∨ s.layer.maxQueued ≤ s.layer.numQueued dest ∨
      s.around.macBelow? = none) (datagram : Datagram) (priority : Nat) :
    ∃ e, accept datagram dest priority s = (.error e, s) := by
  rw [accept_eq]
  by_cases hdest : dest = .unset ∨ dest = .dme
  · exact ⟨_, if_pos hdest⟩
  · rw [if_neg hdest]
    by_cases hfull : s.layer.maxQueued ≤ s.layer.numQueued dest
    · exact ⟨_, if_pos hfull⟩
    · have hnone := (h.resolve_left hdest).resolve_left hfull
      obtain ⟨e, hfails⟩ := Station.notifyOutgoing_of_none hslotted hnone
        (Word.clamp (s.layer.queuedBits dest + datagram.bits)) dest
      refine ⟨e, ?_⟩
      rw [if_neg hfull, hfails]

theorem enqueues_enqueue {m : SlotMac} (hmac : s.around.macBelow? = some m) (datagram : Datagram)
    (dest : Address) (priority : Nat) :
    Enqueues datagram dest priority s ⟨s.layer.enqueue datagram dest priority,
      s.around.setMac (m.notifyOutgoing
        ((s.layer.enqueue datagram dest priority).queuedBits dest) dest)⟩ where
  queue := s.layer.queue_enqueue_perm datagram dest priority
  numQueued := by rw [numQueued_enqueue, if_pos rfl]
  queuedBits := by rw [queuedBits_enqueue, Word.clamp, Nat.min_comm]
  others other hother := by rw [queue_enqueue, if_neg hother.symm]
  noted := by
    refine ⟨m, _, hmac, rfl, ?_, fun other hother => ?_⟩
    · rw [SlotMac.reportedBits_notifyOutgoing, if_pos rfl]
    · rw [SlotMac.reportedBits_notifyOutgoing, if_neg hother.symm]

/-- **All or nothing.** No queue is longer than allowed. A datagram is accepted if and only if its
destination and the length of its queue allow it and the MAC can be reached. Then it is queued, and the
MAC has noted all that is queued for its destination; and if it is not accepted, nothing has changed. -/
theorem queued_or_unchanged (hs : IsReached maxQueued s) (hslotted : s.around.hasSlotMac = true) :
    (∀ dest, s.layer.numQueued dest ≤ maxQueued) ∧ ∀ datagram dest priority,
      ((accept datagram dest priority s).1 = .ok () ↔ dest ≠ .unset ∧ dest ≠ .dme ∧
        s.layer.numQueued dest < maxQueued ∧ s.around.macBelow?.isSome = true) ∧
      ((accept datagram dest priority s).1 = .ok () →
        Enqueues datagram dest priority s (accept datagram dest priority s).2) ∧
      ∀ e, (accept datagram dest priority s).1 = .error e → (accept datagram dest priority s).2 = s := by
  obtain ⟨rfl, hbound⟩ := hs.isBounded
  refine ⟨hbound, fun datagram dest priority => ?_⟩
  by_cases hok : (dest ≠ .unset ∧ dest ≠ .dme) ∧ s.layer.numQueued dest < s.layer.maxQueued ∧
      s.around.macBelow?.isSome = true
  · obtain ⟨hdest, hroom, hmac⟩ := hok
    obtain ⟨m, hmac⟩ := Option.isSome_iff_exists.1 hmac
    rw [accept_of_some (not_or.2 hdest) hroom hmac]
    exact ⟨iff_of_true rfl ⟨hdest.1, hdest.2, hroom, by rw [hmac]; rfl⟩,
      fun _ => enqueues_enqueue hmac datagram dest priority, fun e he => by cases he⟩
  · have hrefused : (dest = .unset ∨ dest = .dme) ∨ s.layer.maxQueued ≤ s.layer.numQueued dest ∨
        s.around.macBelow? = none := by
      by_contra hnot
      simp only [not_or, Nat.not_le] at hnot
      exact hok ⟨hnot.1, hnot.2.1, Option.isSome_iff_ne_none.2 hnot.2.2⟩
    obtain ⟨e, hfails⟩ := accept_refused hslotted hrefused datagram priority
    rw [hfails]
    exact ⟨iff_of_false nofun fun h => hok ⟨⟨h.1, h.2.1⟩, h.2.2⟩, nofun, fun _ _ => rfl⟩

/-- In a station with a slotted MAC, a datagram that was sent partly waits behind one of a higher
priority. -/
def halfSent : Inside SegmentingRlc Station :=
  run ⟨.empty 3, { Station.made ⟨false, 3, default, ⟨⟨1⟩, 0, 0, 0⟩, default⟩ with rlc := .entered }⟩
    [.event (.accept ⟨#[1, 2, 3]⟩ ⟨2⟩ 0), .event (.request 150 ⟨2⟩ 0),
      .event (.accept ⟨#[4]⟩ ⟨2⟩ 5)]

/-- The same, but then the ARQ loses its way to the MAC. -/
def cutOff : Inside SegmentingRlc Station :=
  step halfSent (.elsewhere fun s => { s with wired := [.rlcLower] })

theorem queued_or_unchanged_halfSent :
    Enqueues ⟨#[5]⟩ ⟨2⟩ 1 halfSent (accept ⟨#[5]⟩ ⟨2⟩ 1 halfSent).2 ∧
      (accept ⟨#[5]⟩ ⟨2⟩ 1 cutOff).2 = cutOff := by
  have hreached : IsReached 3 halfSent := (IsReached.start _).run _
  obtain ⟨-, hsends⟩ := queued_or_unchanged hreached (by decide +kernel)
  obtain ⟨-, hfails⟩ := queued_or_unchanged (hreached.step _ : IsReached 3 cutOff)
    (by decide +kernel)
  exact ⟨(hsends ⟨#[5]⟩ ⟨2⟩ 1).2.1 (by decide +kernel),
    (hfails ⟨#[5]⟩ ⟨2⟩ 1).2.2 (.layer (.unwired "mac")) (by decide +kernel)⟩

example : (accept ⟨#[5]⟩ ⟨2⟩ 1 halfSent).2.around.macBelow?.map (fun m => m.reportedBits ⟨2⟩) =
    some (17 + 8 + 8) := by decide +kernel

end SegmentingRlc

end DataLink
