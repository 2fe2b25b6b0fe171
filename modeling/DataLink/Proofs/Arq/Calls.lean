import DataLink.Arq.SelectiveRepeat
import DataLink.Proofs.Basic

/-!
# The calls of the ARQ

What the calls of the selective-repeat ARQ do, with the RLC around it left open: `requestBurst_apply`
says who answers when a packet is asked for, and `receive_apply` what a received packet changes. What
the RLC answers when packets are handed up to it never changes the ARQ (`handUp_layer`).
-/

namespace DataLink

/-- The header with ARQ fields, if the packet has one and says who sent it. -/
def Packet.arqHeader? (packet : Packet) : Option UnicastHeader :=
  if packet.origin.isSet then packet.unicastHeaders.find? UnicastHeader.useArq else none

/-- A window that a configuration may have is at most half a turn. -/
theorem ArqConfig.check_eq_ok_iff {config : ArqConfig} :
    config.check = .ok () ↔ 0 < config.windowSize ∧ config.windowSize ≤ 127 := by
  rw [check, SequenceNumber.widestWindow]
  split
  · next h =>
    refine ⟨fun hcheck => (by cases hcheck), fun hvalid => ?_⟩
    omega
  · next h =>
    refine ⟨fun _ => ?_, fun _ => rfl⟩
    omega

namespace SelectiveRepeat

theorem ofConfig_eq_ok_iff {config : ArqConfig} {a : SelectiveRepeat} :
    ofConfig config = .ok a ↔
      (0 < config.windowSize ∧ config.windowSize ≤ 127) ∧ a = ⟨config, 0, .empty⟩ := by
  rw [← ArqConfig.check_eq_ok_iff, ofConfig, bind_eq_ok]
  constructor
  · rintro ⟨_, hcheck, hmade⟩
    cases hmade
    exact ⟨hcheck, rfl⟩
  · rintro ⟨hcheck, rfl⟩
    exact ⟨(), hcheck, rfl⟩

/-! ## Links -/

theorem get?_setLink (a : SelectiveRepeat) (id other : Address) (l : Link) :
    (a.setLink id l).links.get? other = if id = other then some l else a.links.get? other :=
  Table.get?_insert _ _ _ _

theorem link_setLink (a : SelectiveRepeat) (id other : Address) (l : Link) :
    (a.setLink id l).link other = if id = other then l else a.link other := by
  rw [link, get?_setLink]
  split <;> rfl

theorem link_setLink_self (a : SelectiveRepeat) (id other : Address) :
    (a.setLink id (a.link id)).link other = a.link other := by
  rw [link_setLink]
  split
  · next heq => rw [heq]
  · rfl

theorem link_eq_of_get? {a : SelectiveRepeat} {id : Address} {l : Link}
    (h : a.links.get? id = some l) : a.link id = l := by
  rw [link, h]
  rfl

theorem link_erase (a : SelectiveRepeat) (id other : Address) :
    link { a with links := a.links.erase id } other = if id = other then .fresh else a.link other := by
  rw [link, Table.get?_erase]
  split <;> rfl

/-- A link that does not exist has nothing to send again, like a fresh one. -/
theorem resend_apply (a : SelectiveRepeat) (bits : Nat) (dest : Address) :
    a.resend bits dest = ((a.link dest).resend a.config.windowSize a.slot a.resendAt bits).map
      (Option.map fun found => (found.1, a.setLink dest found.2)) := by
  cases hl : a.links.get? dest with
  | none =>
    have hnext : Link.fresh.nextToResend? a.config.windowSize a.slot = none := by
      show (if Link.fresh.isFull a.config.windowSize then none else none) = none
      exact ite_self none
    simp [resend, link, hl, Link.resend, hnext, Except.map]
  | some l =>
    rw [link_eq_of_get? hl]
    simp only [resend, hl]
    cases l.resend a.config.windowSize a.slot a.resendAt bits <;> rfl

theorem resend_eq_some_iff {a after : SelectiveRepeat} {bits : Nat} {dest : Address}
    {packet : Packet} : a.resend bits dest = .ok (some (packet, after)) ↔
      ∃ l, (a.link dest).resend a.config.windowSize a.slot a.resendAt bits =
        .ok (some (packet, l)) ∧ after = a.setLink dest l := by
  rw [resend_apply]
  rcases (a.link dest).resend a.config.windowSize a.slot a.resendAt bits with _ | _ | ⟨p, l⟩
  · simp [Except.map]
  · simp [Except.map]
  · simp [Except.map, and_assoc, eq_comm]

theorem resend_eq_none_iff {a : SelectiveRepeat} {bits : Nat} {dest : Address} :
    a.resend bits dest = .ok none ↔
      (a.link dest).resend a.config.windowSize a.slot a.resendAt bits = .ok none := by
  rw [resend_apply]
  rcases (a.link dest).resend a.config.windowSize a.slot a.resendAt bits with _ | _ | ⟨p, l⟩
  all_goals simp [Except.map]

theorem acknowledge_eq_ok {a after : SelectiveRepeat} {packet out : Packet} {bits : Nat}
    {dest : Address} (h : a.acknowledge packet bits dest = .ok (out, after)) :
    (out = packet ∧ after = a.setLink dest (a.link dest)) ∨
      ∃ header, (a.link dest).ackHeader dest a.config.windowSize = .ok header ∧
        packet.add (some (.unicast header)) none = .ok out ∧
        after = a.setLink dest { a.link dest with isAckPending := false } := by
  simp only [acknowledge] at h
  split at h
  · obtain ⟨n, -, h⟩ := bind_eq_ok.1 h
    obtain ⟨total, -, h⟩ := bind_eq_ok.1 h
    split at h
    · cases h
      exact Or.inl ⟨rfl, rfl⟩
    · obtain ⟨header, hheader, h⟩ := bind_eq_ok.1 h
      obtain ⟨p, hp, h⟩ := bind_eq_ok.1 h
      cases h
      exact Or.inr ⟨header, mapError_eq_ok.1 hheader, mapError_eq_ok.1 hp, rfl⟩
  · cases h
    exact Or.inl ⟨rfl, rfl⟩

/-! ## Asking for a packet -/

variable {ε : Type} [RlcAbove ε]

theorem requestBurst_unprotected {s : Inside SelectiveRepeat ε} {dest : Address}
    (h : s.layer.isProtected dest = false) (bits frame : Nat) :
    requestBurst bits dest frame s =
      ((RlcAbove.requestBurst bits dest frame s.around).1,
        { s with around := (RlcAbove.requestBurst bits dest frame s.around).2 }) := by
  simp only [requestBurst, Call.bind_apply, Call.own_apply, h, Bool.false_eq_true, if_false,
    Call.outward_apply]

/-- A frame that is sent again goes first; only if there is none, the RLC is asked, and what it
answers is numbered. -/
theorem requestBurst_apply {s : Inside SelectiveRepeat ε} {dest : Address}
    (h : s.layer.isProtected dest = true) (bits frame : Nat) :
    requestBurst bits dest frame s =
      match s.layer.resend bits dest with
      | .error e => (.error e, s)
      | .ok (some (packet, after)) => (.ok packet, { s with layer := after })
      | .ok none =>
        match RlcAbove.requestBurst bits dest frame s.around with
        | (.error e, around) => (.error e, { s with around })
        | (.ok packet, around) =>
          match s.layer.sequence packet bits dest with
          | .error e => (.error e, { s with around })
          | .ok (packet, after) => (.ok packet, ⟨after, around⟩) := by
  simp only [requestBurst, Call.bind_apply, Call.own_apply, h, if_true, Call.ofExcept_apply]
  cases s.layer.resend bits dest with
  | error e => rfl
  | ok found =>
    cases found with
    | some found => simp only [Call.bind_apply, Call.change_apply, Call.pure_apply]
    | none =>
      simp only [Call.bind_apply, Call.outward_apply]
      obtain ⟨r, around⟩ := RlcAbove.requestBurst bits dest frame s.around
      cases r with
      | error e => rfl
      | ok packet =>
        simp only [Call.ofExcept_apply]
        cases s.layer.sequence packet bits dest with
        | error e => rfl
        | ok found => simp only [Call.change_apply, Call.pure_apply]

/-! ## Taking a packet in -/

theorem handUp_layer (packets : List Packet) (s : Inside SelectiveRepeat ε) :
    (handUp packets s).2.layer = s.layer := by
  induction packets generalizing s with
  | nil => rfl
  | cons packet rest ih =>
    rw [handUp, Call.bind_apply, Call.outward_apply]
    obtain ⟨r, around⟩ := RlcAbove.receive packet s.around
    cases r with
    | error e => rfl
    | ok _ => exact ih _

/-- A packet with ARQ fields and a sender is taken in, and what can be handed up then is; any other
packet goes straight up. -/
theorem receive_apply (packet : Packet) (s : Inside SelectiveRepeat ε) :
    receive packet s =
      match packet.arqHeader? with
      | some h => handUp (s.layer.takeIn packet.origin h packet).1
          { s with layer := (s.layer.takeIn packet.origin h packet).2 }
      | none => ((RlcAbove.receive packet s.around).1,
          { s with around := (RlcAbove.receive packet s.around).2 }) := by
  unfold receive Packet.arqHeader?
  cases packet.unicastHeaders.find? UnicastHeader.useArq with
  | none =>
    simp only [Call.outward_apply, ite_self]
  | some h =>
    by_cases ho : packet.origin.isSet = true
    · simp only [ho, if_true, Call.bind_apply, Call.own_apply, Call.change_apply]
    · simp only [ho, Bool.false_eq_true, if_false, Call.outward_apply]

end SelectiveRepeat

end DataLink
