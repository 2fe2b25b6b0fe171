import DataLink.Proofs.Arq.Answer
import DataLink.Proofs.Rlc.Filling
import DataLink.Proofs.Tower
import DataLink.Station.Layers

/-!
# The budget of a packet

A packet that is asked for has at most as many bits as were asked for, whoever builds it: the RLC
fills it with segments or takes one that was injected, and the ARQ sends an older one again or adds
an acknowledgement. On the way lengths are compared as words, and none of them leaves its range.

**Theorem (`AnyArqTower.requestBurst_within`).** This holds in every state of a run of any ARQ of
the library over a segmenting RLC, as long as the packets that are injected have a length that is a
word.

What carries the induction is that the packets which wait in the RLC and in the ARQ are *sized*:
their lengths are words. The sum that is checked for an acknowledgement stays in range for another
reason: a packet for a station without data has nothing but its base header. An injected packet
cannot be one, as it waits for the station that its own headers name.
-/

namespace DataLink

variable {ε : Type}

/-- The length is a word. -/
def Packet.IsSized (p : Packet) : Prop := p.length ≤ Word.highest

theorem Packet.length_mapUnicast (f : UnicastHeader → UnicastHeader) (p : Packet) :
    (p.mapUnicast f).length = p.length := by
  have hbits : ∀ m : Message,
      Message.length { m with header := m.header.map (Header.mapUnicast f) } = m.length := by
    rintro ⟨_ | h, payload⟩
    · rfl
    · cases h <;> rfl
  simp only [length, mapUnicast, mapHeaders, List.map_map]
  exact congrArg Word.total (List.map_congr_left fun m _ => hbits m)

theorem Packet.unicastHeaders_of_dest {p : Packet} (h : p.dest.isSymbolic = false) :
    p.unicastHeaders.isEmpty = false := by
  unfold dest at h
  split at h
  · cases h
  · split at h
    · cases h
    · split at h
      · next hheaders => rw [hheaders, List.isEmpty_cons]
      · cases h

/-- What answers a request for `bits` bits: no sum leaves its range, and a packet keeps to them. -/
structure Keeps (bits : Nat) (answer : Except Fault Packet) : Prop where
  inRange : answer ≠ .error .overflow
  within : ∀ packet, answer = .ok packet → packet.length ≤ bits

/-- Besides, a packet for a station has data, or at most a base header. -/
structure KeepsFor (bits : Nat) (dest : Address) (answer : Except Fault Packet) : Prop
    extends Keeps bits answer where
  silent : dest.isSymbolic = false → ∀ packet, answer = .ok packet →
    packet.unicastHeaders.isEmpty = true → packet.length ≤ Width.base

theorem Keeps.ok {bits : Nat} {packet : Packet} (h : packet.length ≤ bits) :
    Keeps bits (.ok packet) where
  inRange h := by cases h
  within _ heq := by
    cases heq
    exact h

theorem Keeps.fail (bits : Nat) (e : LayerError) : Keeps bits (.error (.layer e)) where
  inRange h := by cases h
  within _ h := by cases h

theorem KeepsFor.ok {bits : Nat} {dest : Address} {packet : Packet} (h : packet.length ≤ bits)
    (hsilent : dest.isSymbolic = false → packet.unicastHeaders.isEmpty = true →
      packet.length ≤ Width.base) : KeepsFor bits dest (.ok packet) where
  toKeeps := .ok h
  silent hdest _ heq hdata := by
    cases heq
    exact hsilent hdest hdata

theorem KeepsFor.fail (bits : Nat) (dest : Address) (e : LayerError) :
    KeepsFor bits dest (.error (.layer e)) where
  toKeeps := .fail bits e
  silent _ _ h := by cases h

/-! ## The RLC -/

namespace SegmentingRlc

/-- The control packets that wait are sized, and wait where they belong. -/
def HoldsSized (r : SegmentingRlc) : Prop :=
  ∀ key waiting, r.injected.get? key = some waiting →
    ∀ e ∈ waiting.items, e.2.IsSized ∧ injectionKey e.2 = key

variable {r : SegmentingRlc} {bits : Nat} {dest : Address}

theorem holdsSized_empty (maxQueued : Nat) : (empty maxQueued).HoldsSized :=
  fun _ _ hget => by cases hget

theorem HoldsSized.congr (h : r.HoldsSized) {after : SegmentingRlc}
    (hinjected : after.injected = r.injected) : after.HoldsSized := by
  rw [HoldsSized, hinjected]
  exact h

theorem HoldsSized.injectedFor (h : r.HoldsSized) (key : Address) :
    ∀ e ∈ (r.injectedFor key).items, e.2.IsSized ∧ injectionKey e.2 = key := by
  unfold SegmentingRlc.injectedFor
  cases hget : r.injected.get? key with
  | none => exact fun e he => by cases he
  | some waiting => exact h key waiting hget

theorem HoldsSized.inject (h : r.HoldsSized) {packet : Packet} (hp : packet.IsSized)
    (priority : Nat) : (r.inject packet priority).HoldsSized := by
  intro key waiting hget
  simp only [SegmentingRlc.inject, Table.get?_insert] at hget
  split at hget
  · next hkey =>
    cases hget
    intro e he
    rcases List.mem_cons.1 ((PriorityQueue.place_perm priority packet _).mem_iff.1 he) with rfl | he
    · exact ⟨hp, hkey⟩
    · exact hkey ▸ h.injectedFor _ e he
  · exact h key waiting hget

/-- A control packet that is taken out has room, and it was waiting. -/
theorem HoldsSized.popInjected (h : r.HoldsSized) (bits : Nat) (dest : Address) :
    r.popInjected bits dest = .ok none ∨
      ∃ packet after, r.popInjected bits dest = .ok (some (packet, after)) ∧
        packet.length ≤ bits ∧ injectionKey packet = dest ∧ after.HoldsSized := by
  unfold SegmentingRlc.popInjected
  cases hfront : (r.injectedFor dest).front? with
  | none => exact Or.inl rfl
  | some packet =>
    obtain ⟨e, he, rfl⟩ := Option.map_eq_some_iff.1 hfront
    have hmem := List.mem_of_mem_head? he
    obtain ⟨hsized, hkey⟩ := h.injectedFor dest e hmem
    simp only [Packet.bits_eq_ok hsized, bind, Except.bind]
    split
    · exact Or.inl rfl
    · next hfits =>
      refine Or.inr ⟨e.2, _, rfl, by omega, hkey, fun key waiting hget => ?_⟩
      rw [Table.get?_set] at hget
      split at hget
      · next heq =>
        rw [PriorityQueue.nonempty?] at hget
        split at hget
        · cases hget
        · cases hget
          exact fun other hother => heq ▸ h.injectedFor dest other (List.mem_of_mem_tail hother)
      · exact h key waiting hget

theorem HoldsSized.controlFor (h : r.HoldsSized) (bits : Nat) (dest : Address) (frame : Nat) :
    r.controlFor bits dest frame = .ok none ∨
      ∃ packet after, r.controlFor bits dest frame = .ok (some (packet, after)) ∧
        packet.length ≤ bits ∧ injectionKey packet = dest ∧ after.HoldsSized := by
  unfold SegmentingRlc.controlFor
  split
  · exact h.popInjected bits dest
  · exact Or.inl rfl

/-- A packet that is filled for a station and has no data is blank. -/
theorem fill_silent {after : SegmentingRlc} {packet : Packet} (hdest : dest.isSymbolic = false)
    (h : r.fill bits dest = .ok (packet, after)) (hdata : packet.unicastHeaders.isEmpty = true) :
    packet.length = Width.base := by
  rw [fill_eq (Or.inr (Or.inr hdest))] at h
  cases h
  cases hpieces : (r.cutFor bits dest).1 with
  | nil => rfl
  | cons piece rest =>
    have hcarrier : ¬ (dest = .broadcast ∨ dest = .beacon) := by
      rintro (rfl | rfl) <;> cases hdest
    rw [hpieces, Packet.unicastHeaders, headers_packed, List.map_cons, carrier,
      if_neg hcarrier] at hdata
    cases hdata

/-- The RLC keeps to the bits, and what waits stays sized. -/
theorem HoldsSized.requestBurst {s : Inside SegmentingRlc ε} (h : s.layer.HoldsSized)
    (hbits : bits ≤ Word.highest) (dest : Address) (frame : Nat) :
    KeepsFor bits dest (requestBurst bits dest frame s).1 ∧
      (SegmentingRlc.requestBurst bits dest frame s).2.layer.HoldsSized := by
  rw [requestBurst_eq]
  by_cases hbase : bits < Width.base
  · rw [if_pos hbase]
    exact ⟨.ok (Nat.zero_le _) fun _ _ => Nat.zero_le _, h⟩
  · rw [if_neg hbase]
    rcases h.controlFor bits dest frame with hnone | ⟨packet, after, hsome, hwithin, hkey, hafter⟩
    · rw [hnone]
      cases hfill : s.layer.fill bits dest with
      | error e => exact ⟨.fail bits dest e, h⟩
      | ok filled =>
        obtain ⟨packet, after⟩ := filled
        obtain rfl := fill_eq_ok hfill
        exact ⟨.ok (length_fill hbits (Nat.le_of_not_lt hbase) hfill)
          fun hdest hdata => Nat.le_of_eq (fill_silent hdest hfill hdata), h.congr rfl⟩
    · rw [hsome]
      refine ⟨.ok hwithin fun hdest hdata => ?_, hafter⟩
      -- What waits for a station has a header that names it.
      unfold injectionKey at hkey
      split at hkey
      · rw [← hkey] at hdest
        cases hdest
      · rw [← hkey] at hdest
        rw [Packet.unicastHeaders_of_dest hdest] at hdata
        cases hdata

end SegmentingRlc

/-! ## The ARQ -/

namespace Link

variable {l : Link} {window : Nat}

/-- The frames that are held are sized. -/
def HoldsSized (l : Link) : Prop := ∀ f ∈ l.unacked, f.packet.IsSized

theorem HoldsSized.takeIn (h : l.HoldsSized) (header : UnicastHeader) (packet : Packet) :
    (l.takeIn header packet window).2.HoldsSized :=
  Holds.takeIn h header packet window

theorem HoldsSized.send (h : l.HoldsSized) {packet : Packet} (hp : packet.IsSized)
    (resendAt : Nat) : (l.send packet window resendAt).2.HoldsSized := by
  refine Holds.send h ?_ resendAt
  show (packet.mapUnicast _).length ≤ Word.highest
  rw [Packet.length_mapUnicast]
  exact hp

theorem HoldsSized.resend (h : l.HoldsSized) (window slot resendAt bits : Nat) :
    l.resend window slot resendAt bits = .ok none ∨
      ∃ packet after, l.resend window slot resendAt bits = .ok (some (packet, after)) ∧
        packet.length ≤ bits ∧ after.HoldsSized := by
  unfold Link.resend
  cases l.nextToResend? window slot with
  | none => exact Or.inl rfl
  | some seq =>
    simp only
    cases hfind : l.unacked.find? fun f => f.seq = seq with
    | none => exact Or.inl rfl
    | some frame =>
      simp only [Packet.bits_eq_ok (h frame (List.mem_of_find?_eq_some hfind)), bind, Except.bind]
      split
      · exact Or.inl rfl
      · next hfits =>
        refine Or.inr ⟨_, _, rfl, ?_, Holds.postpone h seq resendAt⟩
        rw [Packet.length_mapUnicast]
        exact Nat.le_of_not_lt hfits

end Link

namespace SelectiveRepeat

variable {a : SelectiveRepeat} {bits : Nat} {dest : Address}

/-- The frames of all links are sized. -/
def HoldsSized (a : SelectiveRepeat) : Prop := ∀ id, (a.link id).HoldsSized

theorem HoldsSized.setLink (h : a.HoldsSized) {l : Link} (hl : l.HoldsSized) (dest : Address) :
    (a.setLink dest l).HoldsSized := by
  intro id
  rw [link_setLink]
  split
  · exact hl
  · exact h id

/-- An acknowledgement is added where it has room, and no sum for that leaves its range. -/
theorem HoldsSized.acknowledge (h : a.HoldsSized) (dest : Address) {packet : Packet}
    (hwithin : packet.length ≤ bits) (hsilent : packet.length ≤ Width.base) :
    (∃ e, a.acknowledge packet bits dest = .error (.layer e)) ∨
      ∃ out after, a.acknowledge packet bits dest = .ok (out, after) ∧ out.length ≤ bits ∧
        after.HoldsSized := by
  have hsame : (a.setLink dest (a.link dest)).HoldsSized := h.setLink (h dest) dest
  have hsum : packet.length + Width.unicast ≤ Word.highest :=
    Nat.le_trans (Nat.add_le_add_right hsilent _) (by decide)
  unfold SelectiveRepeat.acknowledge
  simp only
  split
  · simp only [Packet.bits_eq_ok (Nat.le_trans (Nat.le_add_right _ _) hsum), checkedSum_eq_ok hsum,
      bind, Except.bind]
    split
    · exact Or.inr ⟨_, _, rfl, hwithin, hsame⟩
    · next hroom =>
      cases (a.link dest).ackHeader dest a.config.windowSize with
      | error e => exact Or.inl ⟨_, rfl⟩
      | ok header =>
        simp only [mapError_ok]
        cases hadd : packet.add (some (.unicast header)) none with
        | error e => exact Or.inl ⟨_, rfl⟩
        | ok out =>
          refine Or.inr ⟨_, _, rfl, ?_,
            h.setLink (l := { a.link dest with isAckPending := false }) (h dest) dest⟩
          rw [Packet.length_add hadd]
          exact Nat.le_of_not_lt hroom
  · exact Or.inr ⟨_, _, rfl, hwithin, hsame⟩

variable [RlcAbove ε]

/-- The ARQ keeps to the bits if the RLC does, and what it holds stays sized. -/
theorem HoldsSized.requestBurst {s : Inside SelectiveRepeat ε} (h : s.layer.HoldsSized)
    (hbits : bits ≤ Word.highest) {frame : Nat}
    (hrlc : KeepsFor bits dest (RlcAbove.requestBurst bits dest frame s.around).1) :
    Keeps bits (requestBurst bits dest frame s).1 ∧
      (SelectiveRepeat.requestBurst bits dest frame s).2.layer.HoldsSized := by
  by_cases hp : s.layer.isProtected dest = true
  · rw [requestBurst_apply hp, resend_apply]
    rcases (h dest).resend s.layer.config.windowSize s.layer.slot s.layer.resendAt bits with
      hnone | ⟨packet, after, hsome, hwithin, hafter⟩
    · simp only [hnone, Except.map, Option.map_none]
      generalize RlcAbove.requestBurst bits dest frame s.around = answer at hrlc ⊢
      obtain ⟨result, around⟩ := answer
      cases result with
      | error e => exact ⟨⟨hrlc.inRange, fun _ hr => by cases hr⟩, h⟩
      | ok packet =>
        have hwithin := hrlc.within packet rfl
        simp only [sequence]
        cases hdata : packet.unicastHeaders.isEmpty with
        | true =>
          have hsymbolic : dest.isSymbolic = false := by
            rw [isProtected, Bool.and_eq_true, Bool.not_eq_true'] at hp
            exact hp.2
          rcases h.acknowledge dest hwithin (hrlc.silent hsymbolic packet rfl hdata) with
            ⟨e, hack⟩ | ⟨out, after, hack, hout, hafter⟩
          · simp only [if_true, hack]
            exact ⟨.fail bits e, h⟩
          · simp only [if_true, hack]
            exact ⟨.ok hout, hafter⟩
        | false =>
          simp only [Bool.false_eq_true, if_false]
          refine ⟨.ok ?_, h.setLink ((h dest).send (Nat.le_trans hwithin hbits) _) dest⟩
          show (packet.mapUnicast _).length ≤ bits
          rw [Packet.length_mapUnicast]
          exact hwithin
    · simp only [hsome, Except.map, Option.map_some]
      exact ⟨.ok hwithin, h.setLink hafter dest⟩
  · rw [requestBurst_unprotected (by simpa using hp)]
    exact ⟨hrlc.toKeeps, h⟩

omit [RlcAbove ε] in
theorem HoldsSized.linkDown (h : a.HoldsSized) {id : Address} {after : SelectiveRepeat}
    (hdown : a.linkDown id = .ok after) : after.HoldsSized := by
  obtain ⟨l, -, hdown⟩ := bind_eq_ok.1 hdown
  cases hdown
  intro other
  rw [link_erase]
  split
  · exact fun f hf => by cases hf
  · exact h other

theorem HoldsSized.receive {s : Inside SelectiveRepeat ε} (h : s.layer.HoldsSized)
    (packet : Packet) : (SelectiveRepeat.receive packet s).2.layer.HoldsSized := by
  rw [receive_apply]
  split
  · rw [handUp_layer, takeIn_apply]
    exact h.setLink ((h packet.origin).takeIn _ packet) packet.origin
  · exact h

theorem receive_around {P : ε → Prop}
    (hP : ∀ packet above, P above → P (RlcAbove.receive packet above).2)
    (packet : Packet) {s : Inside SelectiveRepeat ε} (h : P s.around) :
    P (receive packet s).2.around := by
  have hup : ∀ (packets : List Packet) (t : Inside SelectiveRepeat ε), P t.around →
      P (handUp packets t).2.around := by
    intro packets
    induction packets with
    | nil => exact fun t ht => ht
    | cons p rest ih =>
      intro t ht
      have hfirst := hP p t.around ht
      rw [handUp, Call.bind_apply, Call.outward_apply]
      generalize RlcAbove.receive p t.around = answer at hfirst ⊢
      rcases answer with ⟨e | _, above⟩
      · exact hfirst
      · exact ih _ hfirst
  rw [receive_apply]
  split
  · exact hup _ _ h
  · exact hP packet s.around h

end SelectiveRepeat

/-! ## Any ARQ over an RLC -/

/-- The journal of a layer is the one around it. -/
instance {σ : Type} [Journal ε] : Journal (Inside σ ε) :=
  ⟨fun entry s => { s with around := Journal.note entry s.around }⟩

/-- At the ends of a tower nobody keeps a journal. -/
instance {β : Type} : Journal (Ends β) := ⟨fun _ e => e⟩

/-- An ARQ of the library, as it is made. -/
def ArqLayer.IsMade : ArqLayer → Prop
  | .selective a => ∃ config, SelectiveRepeat.ofConfig config = .ok a
  | .passThrough => True
  | .stub _ => False

/-- An ARQ of any kind with a segmenting RLC above it. -/
abbrev AnyArqTower (ε : Type) := Inside ArqLayer (Inside SegmentingRlc ε)

/-- What happens to an ARQ and the RLC above it. What is around the two may change by itself. -/
inductive AnyArqEvent (ε : Type) where
  | send (datagram : Datagram) (dest : Address) (priority : Nat)
  | inject (packet : Packet) (priority : Nat)
  | request (bits : Nat) (dest : Address)
  | requestBurst (bits : Nat) (dest : Address) (frame : Nat)
  | receive (packet : Packet)
  | tick (slots : Nat)
  | linkUp (id : Address)
  | linkDown (id : Address)
  | elsewhere (change : ε → ε)

/-- A packet that is injected has a length that is a word, and a request asks for as many bits. -/
def AnyArqEvent.IsSized : AnyArqEvent ε → Prop
  | inject packet _ => packet.IsSized
  | request bits _ | requestBurst bits _ _ => bits ≤ Word.highest
  | _ => True

namespace AnyArqTower

variable [NetAbove ε] [ArqBelow ε] [Journal ε]

def step (s : AnyArqTower ε) : AnyArqEvent ε → AnyArqTower ε
  | .send datagram dest priority =>
    { s with around := (SegmentingRlc.accept datagram dest priority s.around).2 }
  | .inject packet priority => { s with around := (RlcAbove.inject packet priority s.around).2 }
  | .request bits dest => (ArqLayer.request bits dest s).2
  | .requestBurst bits dest frame => (ArqLayer.requestBurst bits dest frame s).2
  | .receive packet => (ArqLayer.receive packet s).2
  | .tick slots => { s with layer := s.layer.tick slots }
  | .linkUp id => (ArqLayer.linkUp id s).2
  | .linkDown id => (ArqLayer.linkDown id s).2
  | .elsewhere change => ⟨s.layer, s.around.layer, change s.around.around⟩

def run (s : AnyArqTower ε) (events : List (AnyArqEvent ε)) : AnyArqTower ε := events.foldl step s

/-- What waits and what is held is sized. -/
structure HoldsSized (s : AnyArqTower ε) : Prop where
  arq : (∃ a, s.layer = .selective a ∧ a.HoldsSized) ∨ s.layer = .passThrough
  rlc : s.around.layer.HoldsSized

omit [NetAbove ε] [ArqBelow ε] [Journal ε] in
theorem holdsSized_start {arq : ArqLayer} (h : arq.IsMade) (maxQueued : Nat) (around : ε) :
    HoldsSized ⟨arq, .empty maxQueued, around⟩ := by
  refine ⟨?_, SegmentingRlc.holdsSized_empty maxQueued⟩
  cases arq with
  | selective a =>
    obtain ⟨config, hconfig⟩ := h
    obtain ⟨-, rfl⟩ := SelectiveRepeat.ofConfig_eq_ok_iff.1 hconfig
    exact Or.inl ⟨_, rfl, fun id f hf => by cases hf⟩
  | passThrough => exact Or.inr rfl
  | stub _ => exact h.elim

variable {s : AnyArqTower ε} {bits : Nat}

omit [ArqBelow ε] in
/-- A request is answered within its bits, and leaves everything sized. -/
theorem HoldsSized.requestBurst (h : s.HoldsSized) (hbits : bits ≤ Word.highest) (dest : Address)
    (frame : Nat) : Keeps bits (ArqLayer.requestBurst bits dest frame s).1 ∧
      HoldsSized (ArqLayer.requestBurst bits dest frame s).2 := by
  obtain ⟨layer, rlc⟩ := s
  obtain ⟨hanswer, hrlc⟩ := h.rlc.requestBurst hbits dest frame
  rcases h.arq with ⟨a, rfl, harq⟩ | rfl
  · obtain ⟨hkeeps, hafter⟩ := SelectiveRepeat.HoldsSized.requestBurst
      (s := (⟨a, rlc⟩ : Inside SelectiveRepeat (Inside SegmentingRlc ε))) harq hbits hanswer
    refine ⟨hkeeps, Or.inl ⟨_, rfl, hafter⟩, ?_⟩
    rcases SelectiveRepeat.requestBurst_around bits frame dest
      (⟨a, rlc⟩ : Inside SelectiveRepeat (Inside SegmentingRlc ε)) with haround | haround
    · exact haround ▸ h.rlc
    · exact haround ▸ hrlc
  · exact ⟨hanswer.toKeeps, Or.inr rfl, hrlc⟩

omit [ArqBelow ε] in
theorem HoldsSized.request (h : s.HoldsSized) (hbits : bits ≤ Word.highest) (dest : Address) :
    HoldsSized (ArqLayer.request bits dest s).2 := by
  have hanswer := (h.requestBurst hbits dest 0).2
  obtain ⟨layer, rlc⟩ := s
  rcases h.arq with ⟨a, rfl, -⟩ | rfl
  · exact hanswer
  · exact hanswer

omit [ArqBelow ε] in
theorem HoldsSized.receive (h : s.HoldsSized) (packet : Packet) :
    HoldsSized (ArqLayer.receive packet s).2 := by
  have hrlc : ∀ (p : Packet) (above : Inside SegmentingRlc ε), above.layer.HoldsSized →
      (RlcAbove.receive p above).2.layer.HoldsSized := by
    intro p above habove
    obtain ⟨streams, hstreams⟩ := SegmentingRlc.receive_layer p above
    have hinjected := congrArg SegmentingRlc.injected hstreams
    exact habove.congr hinjected
  obtain ⟨layer, rlc⟩ := s
  rcases h.arq with ⟨a, rfl, harq⟩ | rfl
  · exact ⟨Or.inl ⟨_, rfl, SelectiveRepeat.HoldsSized.receive
      (s := (⟨a, rlc⟩ : Inside SelectiveRepeat (Inside SegmentingRlc ε))) harq packet⟩,
      SelectiveRepeat.receive_around (P := fun above : Inside SegmentingRlc ε =>
        above.layer.HoldsSized) hrlc packet h.rlc⟩
  · exact ⟨Or.inr rfl, hrlc packet rlc h.rlc⟩

omit [NetAbove ε] [Journal ε] in
theorem HoldsSized.send (h : s.HoldsSized) (datagram : Datagram) (dest : Address) (priority : Nat) :
    HoldsSized { s with around := (SegmentingRlc.accept datagram dest priority s.around).2 } := by
  refine ⟨h.arq, ?_⟩
  rcases SegmentingRlc.accept_cases datagram dest priority s.around with
    ⟨around, hacc⟩ | ⟨e, around, hacc⟩
  · rw [hacc]
    exact h.rlc.congr rfl
  · rw [hacc]
    exact h.rlc

theorem HoldsSized.step (h : s.HoldsSized) {e : AnyArqEvent ε} (he : e.IsSized) :
    (s.step e).HoldsSized := by
  cases e with
  | send datagram dest priority => exact h.send datagram dest priority
  | inject packet priority => exact ⟨h.arq, h.rlc.inject he priority⟩
  | request bits dest => exact h.request he dest
  | requestBurst bits dest frame => exact (h.requestBurst he dest frame).2
  | receive packet => exact h.receive packet
  | elsewhere change => exact ⟨h.arq, h.rlc⟩
  | tick slots =>
    obtain ⟨layer, rlc⟩ := s
    rcases h.arq with ⟨a, rfl, harq⟩ | rfl
    · exact ⟨Or.inl ⟨_, rfl, harq⟩, h.rlc⟩
    · exact ⟨Or.inr rfl, h.rlc⟩
  | linkUp id =>
    obtain ⟨layer, rlc⟩ := s
    rcases h.arq with ⟨a, rfl, harq⟩ | rfl
    · exact ⟨Or.inl ⟨_, rfl, harq.setLink (harq id) id⟩, h.rlc⟩
    · exact ⟨Or.inr rfl, h.rlc⟩
  | linkDown id =>
    obtain ⟨layer, rlc⟩ := s
    rcases h.arq with ⟨a, rfl, harq⟩ | rfl
    · cases hdown : a.linkDown id with
      | error e =>
        have hstep : (AnyArqTower.step ⟨.selective a, rlc⟩ (.linkDown id) : AnyArqTower ε) =
            ⟨.selective a, rlc⟩ := by
          simp only [AnyArqTower.step, ArqLayer.linkDown, Call.bind_apply, Call.own_apply, hdown]
          rfl
        rw [hstep]
        exact h
      | ok after =>
        have hstep : (AnyArqTower.step ⟨.selective a, rlc⟩ (.linkDown id) : AnyArqTower ε) =
            ⟨.selective after, rlc⟩ := by
          simp only [AnyArqTower.step, ArqLayer.linkDown, Call.bind_apply, Call.own_apply, hdown]
          rfl
        rw [hstep]
        exact ⟨Or.inl ⟨_, rfl, harq.linkDown hdown⟩, h.rlc⟩
    · exact ⟨Or.inr rfl, h.rlc⟩

theorem HoldsSized.run (h : s.HoldsSized) {events : List (AnyArqEvent ε)}
    (hevents : ∀ e ∈ events, e.IsSized) : (s.run events).HoldsSized := by
  induction events generalizing s with
  | nil => exact h
  | cons e rest ih =>
    exact ih (h.step (hevents e List.mem_cons_self)) fun e he =>
      hevents e (List.mem_cons_of_mem _ he)

/-- How a request for `bits` bits is answered. -/
structure AnswersWithin (s : AnyArqTower ε) (bits : Nat) (dest : Address) (frame : Nat) : Prop where
  /-- The loop that fills a packet ends and leaves no range, and it comes to what `fill` gives. -/
  fills : Filling.ComesTo bits dest
    ⟨SegmentingRlc.blank, Filling.entries (s.around.layer.queue dest).items⟩
    (match s.around.layer.fill bits dest with
      | .ok (packet, after) => .ok ⟨packet, Filling.entries (after.queue dest).items⟩
      | .error e => .error (.layer e))
  /-- No sum leaves its range elsewhere. -/
  inRange : (ArqLayer.requestBurst bits dest frame s).1 ≠ .error .overflow
  /-- A packet has no more bits than were asked for. -/
  within : ∀ packet, (ArqLayer.requestBurst bits dest frame s).1 = .ok packet →
    ∃ size, packet.bits = .ok size ∧ size ≤ bits

/-- **The budget.** In every state of a run of any ARQ over a segmenting RLC, every request is
answered within its bits. -/
theorem requestBurst_within {arq : ArqLayer} (harq : arq.IsMade) (maxQueued : Nat) (around : ε)
    {events : List (AnyArqEvent ε)} (hevents : ∀ e ∈ events, e.IsSized)
    (hbits : bits ≤ Word.highest) (dest : Address) (frame : Nat) :
    (run ⟨arq, .empty maxQueued, around⟩ events).AnswersWithin bits dest frame := by
  have hsized := (holdsSized_start harq maxQueued around).run hevents
  obtain ⟨hkeeps, -⟩ := hsized.requestBurst hbits dest frame
  refine ⟨SegmentingRlc.comesTo_fill _ hbits dest, hkeeps.inRange, fun packet hpacket => ?_⟩
  have hwithin := hkeeps.within packet hpacket
  exact ⟨packet.length, Packet.bits_eq_ok (Nat.le_trans hwithin hbits), hwithin⟩

/-- A packet of one station for another, with a number and some payload. -/
def numberedFor (source dest : Address) (seq : SequenceNumber) : Packet :=
  .ofMessages [⟨some (.base (.ofSource source)), none⟩,
    ⟨some (.unicast { (default : UnicastHeader) with dest, useArq := true, seq }),
      some (.fixed 40)⟩]

/-- A packet is injected for station 2 and goes out as its first frame, a datagram is cut for the
second one, an acknowledgement goes out by itself, and then the first frame is due again. -/
def busy : List (AnyArqEvent (Ends Unit)) :=
  [.send ⟨#[1, 2, 3, 4]⟩ ⟨2⟩ 0, .inject (numberedFor ⟨1⟩ ⟨2⟩ .unset) 255, .requestBurst 400 ⟨2⟩ 0,
    .requestBurst 180 ⟨2⟩ 1, .receive (numberedFor ⟨2⟩ ⟨1⟩ .first), .requestBurst 170 ⟨2⟩ 0,
    .send ⟨#[5]⟩ .broadcast 0, .tick 16]

/-- The first frame has 183 bits and is sent again; a datagram just fits a broadcast of 83 bits. -/
theorem requestBurst_within_busy :
    (run ⟨.selective ⟨default, 0, .empty⟩, .empty 256, .empty ()⟩ busy).AnswersWithin 183 ⟨2⟩ 0 ∧
      (run ⟨.selective ⟨default, 0, .empty⟩, .empty 256, .empty ()⟩ busy).AnswersWithin 83
        .broadcast 0 :=
  have hmade : ArqLayer.IsMade (.selective ⟨default, 0, .empty⟩) := ⟨default, rfl⟩
  have hsized : ∀ e ∈ busy, e.IsSized := by
    simp only [busy, List.forall_mem_cons]
    simp [AnyArqEvent.IsSized, Packet.IsSized]
    decide
  ⟨requestBurst_within hmade 256 _ hsized (by decide) ⟨2⟩ 0,
    requestBurst_within hmade 256 _ hsized (by decide) .broadcast 0⟩

example : ((ArqLayer.requestBurst 183 ⟨2⟩ 0 (run ⟨.selective ⟨default, 0, .empty⟩, .empty 256,
    .empty ()⟩ busy)).1.map Packet.length).toOption = some 183 := by decide +kernel

end AnyArqTower

end DataLink
