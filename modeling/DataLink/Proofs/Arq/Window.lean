import DataLink.Proofs.Arq.Calls
import DataLink.Proofs.Arq.Link
import DataLink.Proofs.Tower

/-!
# The send window

A link holds at most a window of unacknowledged frames, as long as a full window is always answered
with a frame that is sent again. A request may be too small for that frame and still have room for
new data; then the frame is passed over, and a new one is numbered although the window is full.

**Theorem (`within_window_iff`).** In every state of a run each link is within the window, if and
only if no request of the run *overruns* it in this way.
-/

namespace DataLink

/-! ## One link -/

namespace Link

/-- The link holds no more frames than the window, and only those are to be sent again. -/
structure InWindow (window : Nat) (l : Link) : Prop where
  length_le : l.unacked.length ≤ window
  isUnacked : ∀ seq ∈ l.retransmit, l.isUnacked seq = true

/-- The window is full, and the frame that is to be sent again has more than `bits` bits. -/
def isBlocked (l : Link) (window slot bits : Nat) : Bool :=
  l.isFull window && ((l.nextToResend? window slot).bind fun seq =>
    l.unacked.find? fun f => f.seq = seq).any fun f =>
      Word.fits f.packet.length && bits < f.packet.length

variable {window : Nat} {l : Link}

theorem inWindow_fresh (window : Nat) : InWindow window .fresh :=
  ⟨Nat.zero_le _, by simp [fresh]⟩

theorem InWindow.onAck (h : InWindow window l) (nextExpected : SequenceNumber)
    (rejects : RejectMap) : InWindow window (l.onAck nextExpected rejects window) where
  length_le := by
    obtain ⟨retransmit, hack⟩ := onAck_apply l nextExpected rejects window
    rw [hack]
    exact Nat.le_trans (List.length_filter_le _ _) h.length_le
  isUnacked := asksHeld_onAck l nextExpected rejects window

theorem InWindow.accept (h : InWindow window l) (seq : SequenceNumber) (packet : Packet) :
    InWindow window (l.accept seq packet window).2 where
  length_le := (sendsLike_accept l seq packet window).unacked ▸ h.length_le
  isUnacked := AsksHeld.congr h.isUnacked (sendsLike_accept l seq packet window)

theorem InWindow.resend (h : InWindow window l) {slot resendAt bits : Nat} {packet : Packet}
    {after : Link} (hres : l.resend window slot resendAt bits = .ok (some (packet, after))) :
    InWindow window after := by
  refine ⟨?_, AsksHeld.resend h.isUnacked hres⟩
  obtain ⟨seq, frame, -, -, -, rfl⟩ := resend_eq_some hres
  have hlen := congrArg List.length (map_postpone seq resendAt l.unacked)
  rw [List.length_map, List.length_map] at hlen
  exact hlen ▸ h.length_le

theorem InWindow.send (h : InWindow window l) (hfull : l.isFull window = false) (packet : Packet)
    (resendAt : Nat) : InWindow window (l.send packet window resendAt).2 := by
  refine ⟨?_, AsksHeld.send h.isUnacked packet resendAt⟩
  simp only [isFull, decide_eq_false_iff_not] at hfull
  simp only [Link.send, List.length_append, List.length_singleton]
  omega

/-- A full window has a frame to send again. -/
theorem exists_nextToResend (h : InWindow window l) (hpos : 0 < window)
    (hfull : l.isFull window = true) (slot : Nat) :
    ∃ seq frame, l.nextToResend? window slot = some seq ∧
      l.unacked.find? (fun f => f.seq = seq) = some frame := by
  have hsome : (l.nextToResend? window slot).isSome := by
    have howing := isOwing_eq hpos { l with isAckPending := false } slot
    rw [isOwing, show isFull { l with isAckPending := false } window = true from hfull, Bool.or_true,
      Bool.true_or, Bool.false_or] at howing
    exact howing.symm
  obtain ⟨seq, hseq⟩ := Option.isSome_iff_exists.1 hsome
  obtain ⟨frame, hframe⟩ := AsksHeld.exists_find h.isUnacked hseq
  exact ⟨seq, frame, hseq, hframe⟩

/-- A full window sends nothing again only if the frame to send again does not fit. -/
theorem isBlocked_iff (h : InWindow window l) (hpos : 0 < window) {slot resendAt bits : Nat} :
    l.isBlocked window slot bits = true ↔
      l.isFull window = true ∧ l.resend window slot resendAt bits = .ok none := by
  rw [isBlocked, Bool.and_eq_true, and_congr_right_iff]
  intro hfull
  obtain ⟨seq, frame, hseq, hframe⟩ := exists_nextToResend h hpos hfull slot
  simp only [hseq, Option.bind_some, hframe, Option.any_some, resend, Packet.bits,
    Bool.and_eq_true, decide_eq_true_eq]
  by_cases hfits : Word.fits frame.packet.length = true
  · by_cases hbits : bits < frame.packet.length <;>
      simp [hfits, hbits, bind, Except.bind, pure, Except.pure]
  · simp [hfits, bind, Except.bind]

end Link

/-! ## All links of an ARQ -/

namespace SelectiveRepeat

/-- Every link of the ARQ keeps its window. -/
structure InWindow (window : Nat) (a : SelectiveRepeat) : Prop where
  config : a.config.windowSize = window
  links : ∀ id l, a.links.get? id = some l → l.InWindow window

variable {window : Nat} {a : SelectiveRepeat}

theorem InWindow.link (h : InWindow window a) (id : Address) : (a.link id).InWindow window := by
  cases hl : a.links.get? id with
  | none =>
    rw [SelectiveRepeat.link, hl]
    exact Link.inWindow_fresh window
  | some l =>
    rw [link_eq_of_get? hl]
    exact h.links id l hl

theorem InWindow.setLink (h : InWindow window a) {l : Link} (hl : l.InWindow window)
    (id : Address) : InWindow window (a.setLink id l) where
  config := h.config
  links other k hk := by
    rw [get?_setLink] at hk
    split at hk
    · cases hk
      exact hl
    · exact h.links other k hk

theorem InWindow.linkDown (h : InWindow window a) {id : Address} {after : SelectiveRepeat}
    (hdown : a.linkDown id = .ok after) : InWindow window after := by
  obtain ⟨l, -, hdown⟩ := bind_eq_ok.1 hdown
  cases hdown
  refine ⟨h.config, ?_⟩
  intro other k hk
  rw [Table.get?_erase] at hk
  split at hk
  · cases hk
  · exact h.links other k hk

theorem InWindow.takeIn (h : InWindow window a) (origin : Address) (header : UnicastHeader)
    (packet : Packet) : InWindow window (a.takeIn origin header packet).2 := by
  have hack := (h.link origin).onAck header.nextExpected header.rejects
  unfold SelectiveRepeat.takeIn
  simp only [h.config]
  split
  · have hpending : Link.InWindow window { (a.link origin).onAck header.nextExpected
        header.rejects window with isAckPending := true } := ⟨hack.length_le, hack.isUnacked⟩
    exact h.setLink (hpending.accept header.seq packet) origin
  · exact h.setLink hack origin

/-- Where a packet has no unicast header, it takes no place in the window. -/
theorem InWindow.acknowledge (h : InWindow window a) {packet numbered : Packet} {bits : Nat}
    {dest : Address} {after : SelectiveRepeat}
    (hack : a.acknowledge packet bits dest = .ok (numbered, after)) : InWindow window after := by
  have hl := h.link dest
  rcases acknowledge_eq_ok hack with ⟨-, rfl⟩ | ⟨header, -, -, rfl⟩
  · exact h.setLink hl dest
  · exact h.setLink (l := { a.link dest with isAckPending := false })
      ⟨hl.length_le, hl.isUnacked⟩ dest

theorem InWindow.sequence (h : InWindow window a) {packet numbered : Packet} {bits : Nat}
    {dest : Address} {after : SelectiveRepeat}
    (hroom : packet.unicastHeaders.isEmpty = true ∨ (a.link dest).isFull window = false)
    (hseq : a.sequence packet bits dest = .ok (numbered, after)) : InWindow window after := by
  unfold SelectiveRepeat.sequence at hseq
  split at hseq
  · exact h.acknowledge hseq
  · next hempty =>
    have hfull := hroom.resolve_left hempty
    cases hseq
    rw [h.config]
    exact h.setLink ((h.link dest).send hfull packet a.resendAt) dest

end SelectiveRepeat

/-! ## A run of an ARQ -/

/-- What happens to an ARQ and to the RLC above it. -/
inductive ArqEvent where
  | send (datagram : Datagram) (dest : Address) (priority : Nat)
  | inject (packet : Packet)
  | request (bits : Nat) (dest : Address)
  | requestBurst (bits : Nat) (dest : Address) (frame : Nat)
  | receive (packet : Packet)
  | tick (slots : Nat)
  | linkUp (id : Address)
  | linkDown (id : Address)

/-- An ARQ with a segmenting RLC above it. -/
abbrev ArqTower (ε : Type) := Inside SelectiveRepeat (Inside SegmentingRlc ε)

namespace ArqTower

variable {ε : Type} [NetAbove ε] [ArqBelow ε]

def step (s : ArqTower ε) : ArqEvent → ArqTower ε
  | .send datagram dest priority =>
    { s with around := (SegmentingRlc.accept datagram dest priority s.around).2 }
  | .inject packet => (ArqAbove.inject packet s).2
  | .request bits dest => (ArqAbove.request bits dest s).2
  | .requestBurst bits dest frame => (SelectiveRepeat.requestBurst bits dest frame s).2
  | .receive packet => (ArqAbove.receive packet s).2
  | .tick slots => (ArqAbove.tick slots s).2
  | .linkUp id => (ArqAbove.linkUp id s).2
  | .linkDown id => (ArqAbove.linkDown id s).2

def run (s : ArqTower ε) (events : List ArqEvent) : ArqTower ε := events.foldl step s

/-- No link holds more unacknowledged frames than the window. -/
def IsWithin (s : ArqTower ε) : Prop :=
  ∀ id n, s.layer.numUnacked id = .ok n → n ≤ s.layer.config.windowSize

/-- A request for `dest` gets new data although the window is full: it has no room for the frame to
send again, but the RLC has something that fits. -/
def overrunsAt (s : ArqTower ε) (bits : Nat) (dest : Address) (frame : Nat) : Bool :=
  s.layer.isProtected dest &&
    (s.layer.link dest).isBlocked s.layer.config.windowSize s.layer.slot bits &&
    match (RlcAbove.requestBurst bits dest frame s.around).1 with
    | .ok packet => !packet.unicastHeaders.isEmpty
    | .error _ => false

def overruns (s : ArqTower ε) : ArqEvent → Bool
  | .request bits dest => s.overrunsAt bits dest 0
  | .requestBurst bits dest frame => s.overrunsAt bits dest frame
  | _ => false

/-- Some request of a run overruns the window. -/
def anyOverruns (s : ArqTower ε) : List ArqEvent → Bool
  | [] => false
  | e :: rest => s.overruns e || (s.step e).anyOverruns rest

/-! ## What a run keeps -/

omit [ArqBelow ε] in
theorem inWindow_requestBurst {window : Nat} (hpos : 0 < window) {s : ArqTower ε}
    (h : s.layer.InWindow window) {bits : Nat} {dest : Address} {frame : Nat}
    (hno : s.overrunsAt bits dest frame = false) :
    (SelectiveRepeat.requestBurst bits dest frame s).2.layer.InWindow window := by
  by_cases hp : s.layer.isProtected dest = true
  · rw [SelectiveRepeat.requestBurst_apply hp]
    split
    · exact h
    · next packet after hres =>
      obtain ⟨l, hl, rfl⟩ := SelectiveRepeat.resend_eq_some_iff.1 hres
      rw [h.config] at hl
      exact h.setLink ((h.link dest).resend hl) dest
    · next hres =>
      split
      · exact h
      · next packet around hrlc =>
        split
        · exact h
        · next out after hseq =>
          refine h.sequence ?_ hseq
          by_cases hfull : (s.layer.link dest).isFull window = true
          · -- The window is full, so the RLC has nothing new, or the request would overrun it.
            rw [SelectiveRepeat.resend_eq_none_iff, h.config] at hres
            have hblocked := (Link.isBlocked_iff (h.link dest) hpos).2 ⟨hfull, hres⟩
            rw [overrunsAt, hp, h.config, hblocked, hrlc] at hno
            exact Or.inl (by simpa using hno)
          · exact Or.inr (by simpa using hfull)
  · rw [SelectiveRepeat.requestBurst_unprotected (by simpa using hp)]
    exact h

omit [ArqBelow ε] in
theorem not_isWithin_requestBurst {window : Nat} (hpos : 0 < window) {s : ArqTower ε}
    (h : s.layer.InWindow window) {bits : Nat} {dest : Address} {frame : Nat}
    (hover : s.overrunsAt bits dest frame = true) :
    ¬ IsWithin (SelectiveRepeat.requestBurst bits dest frame s).2 := by
  simp only [overrunsAt, Bool.and_eq_true, h.config] at hover
  obtain ⟨⟨hp, hblocked⟩, hnew⟩ := hover
  obtain ⟨hfull, hres⟩ := (Link.isBlocked_iff (h.link dest) hpos).1 hblocked
  rw [← h.config, ← SelectiveRepeat.resend_eq_none_iff] at hres
  rw [SelectiveRepeat.requestBurst_apply hp, hres]
  generalize RlcAbove.requestBurst bits dest frame s.around = answer at hnew ⊢
  rcases answer with ⟨e | packet, around⟩
  · cases hnew
  · simp only [Bool.not_eq_true'] at hnew
    simp only [SelectiveRepeat.sequence, hnew, Bool.false_eq_true, if_false]
    intro hwithin
    have hnum : (s.layer.setLink dest ((s.layer.link dest).send packet s.layer.config.windowSize
        s.layer.resendAt).2).numUnacked dest = .ok ((s.layer.link dest).unacked.length + 1) := by
      simp [SelectiveRepeat.numUnacked, SelectiveRepeat.knownLink?,
        SelectiveRepeat.get?_setLink, Except.map, Link.send]
    have hle := hwithin dest _ hnum
    have hge : window ≤ (s.layer.link dest).unacked.length := of_decide_eq_true hfull
    change _ ≤ s.layer.config.windowSize at hle
    rw [h.config] at hle
    omega

theorem inWindow_step {window : Nat} (hpos : 0 < window) {s : ArqTower ε}
    (h : s.layer.InWindow window) {e : ArqEvent} (hno : s.overruns e = false) :
    (s.step e).layer.InWindow window := by
  cases e with
  | send datagram dest priority => exact h
  | inject packet => exact h
  | request bits dest => exact inWindow_requestBurst hpos h hno
  | requestBurst bits dest frame => exact inWindow_requestBurst hpos h hno
  | receive packet =>
    change (SelectiveRepeat.receive packet s).2.layer.InWindow window
    rw [SelectiveRepeat.receive_apply]
    split
    · rw [SelectiveRepeat.handUp_layer]
      exact h.takeIn _ _ _
    · exact h
  | tick slots => exact ⟨h.config, h.links⟩
  | linkUp id => exact h.setLink (h.link id) id
  | linkDown id =>
    rw [step, linkDown_apply]
    split
    · next after hdown => exact h.linkDown hdown
    · exact h

omit [NetAbove ε] [ArqBelow ε] in
theorem isWithin_of_inWindow {window : Nat} {s : ArqTower ε} (h : s.layer.InWindow window) :
    s.IsWithin := by
  intro id n hn
  rw [SelectiveRepeat.numUnacked, SelectiveRepeat.knownLink?] at hn
  cases hl : s.layer.links.get? id with
  | none => simp [hl, Except.map] at hn
  | some l =>
    simp only [hl, Except.map, Except.ok.injEq] at hn
    rw [← hn, h.config]
    exact (h.links id l hl).length_le

theorem not_isWithin_step {window : Nat} (hpos : 0 < window) {s : ArqTower ε}
    (h : s.layer.InWindow window) {e : ArqEvent} (hover : s.overruns e = true) :
    ¬ (s.step e).IsWithin := by
  cases e with
  | request bits dest => exact not_isWithin_requestBurst hpos h hover
  | requestBurst bits dest frame => exact not_isWithin_requestBurst hpos h hover
  | _ => cases hover

theorem isWithin_run_iff {window : Nat} (hpos : 0 < window) {s : ArqTower ε}
    (h : s.layer.InWindow window) (events : List ArqEvent) :
    (∀ past, past <+: events → (s.run past).IsWithin) ↔ s.anyOverruns events = false :=
  forall_prefix_foldl_iff (I := fun s => s.layer.InWindow window) (fun _ => rfl) (fun _ _ _ => rfl)
    isWithin_of_inWindow (fun hs hroom => inWindow_step hpos hs hroom)
    (fun hs hover => not_isWithin_step hpos hs hover) h events

/-- **The window.** In every state of a run each link is within the window, if and only if no
request overruns it: none that has no room for the frame a full window is to send again gets new
data from the RLC. -/
theorem within_window_iff {config : ArqConfig} {arq : SelectiveRepeat}
    (harq : SelectiveRepeat.ofConfig config = .ok arq) (rlc : SegmentingRlc) (around : ε)
    (events : List ArqEvent) :
    (∀ past, past <+: events → IsWithin (run ⟨arq, ⟨rlc, around⟩⟩ past)) ↔
      anyOverruns ⟨arq, ⟨rlc, around⟩⟩ events = false := by
  obtain ⟨hvalid, rfl⟩ := SelectiveRepeat.ofConfig_eq_ok_iff.1 harq
  exact isWithin_run_iff hvalid.1 ⟨rfl, fun id l hl => by simp at hl⟩ events

/-- An ARQ with a window of one frame, above which nothing is queued. -/
def single : ArqTower (Ends Unit) := ⟨⟨⟨1, true, 16⟩, 0, .empty⟩, ⟨.empty 256, .empty ()⟩⟩

/-- A second datagram is queued before the frame with the first one is acknowledged. -/
def waiting : List ArqEvent :=
  [.send ⟨#[1, 2, 3, 4]⟩ ⟨2⟩ 0, .request 800 ⟨2⟩, .send ⟨#[5]⟩ ⟨2⟩ 0, .request 800 ⟨2⟩,
    .request 100 ⟨2⟩]

/-- The frame of a window of one is sent again, or nothing is, until it is acknowledged. -/
theorem isWithin_single : (single.run waiting).IsWithin :=
  (within_window_iff (show SelectiveRepeat.ofConfig ⟨1, true, 16⟩ = .ok single.layer from rfl)
    (.empty 256) (Ends.empty ()) waiting).2 (by decide +kernel) waiting (List.prefix_refl _)

/-- A window of one holds two frames after a request that has room for the second one only. -/
theorem not_isWithin_single : ¬ ∀ events, (single.run events).IsWithin := by
  intro h
  have hsmall := h [.send ⟨#[1, 2, 3, 4]⟩ ⟨2⟩ 0, .request 800 ⟨2⟩, .send ⟨#[5]⟩ ⟨2⟩ 0,
    .request 160 ⟨2⟩]
  exact absurd (hsmall ⟨2⟩ 2 rfl) (by decide)

end ArqTower

end DataLink
