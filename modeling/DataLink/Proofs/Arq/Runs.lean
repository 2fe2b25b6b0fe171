import DataLink.Proofs.Arq.Reception

/-!
# Runs of an ARQ over any RLC

An ARQ goes through any sequence of calls, with an RLC above it that may answer anything and change by
itself. A call asks for a packet, or it leaves every link as it was, or takes a packet in, or ends one
link (`perform_cases`). An invariant of the links is preserved by a run if it is preserved by these.
For an invariant of each link by itself it is enough to look at one link (`Link.IsKept.run`).
-/

namespace DataLink

variable {ε : Type}

/-- What the call asks for: how many bits, for whom, and for which frame of a burst. -/
def ArqCall.asked? : ArqCall ε → Option (Nat × Address × Nat)
  | request bits dest => some (bits, dest, 0)
  | requestBurst bits dest frame => some (bits, dest, frame)
  | _ => none

namespace SelectiveRepeat

variable [RlcAbove ε]

/-- The state after a call. -/
def perform (s : Inside SelectiveRepeat ε) : ArqCall ε → Inside SelectiveRepeat ε
  | .receive packet => (ArqAbove.receive packet s).2
  | .request bits dest => (ArqAbove.request bits dest s).2
  | .requestBurst bits dest frame => (requestBurst bits dest frame s).2
  | .inject packet => (ArqAbove.inject packet s).2
  | .tick slots => (ArqAbove.tick slots s).2
  | .linkUp id => (ArqAbove.linkUp id s).2
  | .linkDown id => (ArqAbove.linkDown id s).2
  | .hasMore dest => (ArqAbove.hasMore dest s).2
  | .hops => (ArqAbove.hops s).2
  | .report id hops => (ArqAbove.report id hops s).2
  | .elsewhere change => { s with around := change s.around }

def run (s : Inside SelectiveRepeat ε) (calls : List (ArqCall ε)) : Inside SelectiveRepeat ε :=
  calls.foldl perform s

theorem receive_layer (packet : Packet) (s : Inside SelectiveRepeat ε) :
    (receive packet s).2.layer = match packet.arqHeader? with
      | some header => s.layer.setLink packet.origin
          ((s.layer.link packet.origin).takeIn header packet s.layer.config.windowSize).2
      | none => s.layer := by
  rw [receive_apply]
  cases packet.arqHeader? with
  | none => rfl
  | some header =>
    simp only
    rw [handUp_layer, takeIn_apply]

/-- A link that is ended is fresh from then on, and so was one that did not exist. -/
theorem link_linkDown (id other : Address) (s : Inside SelectiveRepeat ε) :
    (ArqAbove.linkDown id s).2.layer.config = s.layer.config ∧
      (ArqAbove.linkDown id s).2.layer.link other =
        if id = other then .fresh else s.layer.link other := by
  rw [linkDown_apply]
  cases hget : s.layer.links.get? id with
  | some l =>
    rw [linkDown, knownLink?, hget]
    exact ⟨rfl, link_erase s.layer id other⟩
  | none =>
    rw [linkDown, knownLink?, hget]
    refine ⟨rfl, ?_⟩
    show s.layer.link other = _
    split
    · next heq => rw [← heq, link, hget, Option.getD_none]
    · rfl

/-- **One call.** It asks for a packet, or it leaves every link as it was, or takes a packet in, or
ends one link. -/
theorem perform_cases (s : Inside SelectiveRepeat ε) (call : ArqCall ε) :
    (∃ bits dest frame, call.asked? = some (bits, dest, frame) ∧
      perform s call = (requestBurst bits dest frame s).2) ∨
    (∃ packet header, call = .receive packet ∧ packet.arqHeader? = some header ∧
      (perform s call).layer = s.layer.setLink packet.origin
        ((s.layer.link packet.origin).takeIn header packet s.layer.config.windowSize).2) ∨
    (perform s call).layer.config = s.layer.config ∧
      ((∀ id, (perform s call).layer.link id = s.layer.link id) ∨
        ∃ id, call = .linkDown id ∧ ∀ other, (perform s call).layer.link other =
          if id = other then .fresh else s.layer.link other) := by
  cases call with
  | request bits dest => exact Or.inl ⟨bits, dest, 0, rfl, rfl⟩
  | requestBurst bits dest frame => exact Or.inl ⟨bits, dest, frame, rfl, rfl⟩
  | receive packet =>
    have hlayer : (perform s (.receive packet)).layer = _ := receive_layer packet s
    cases hheader : packet.arqHeader? with
    | some header =>
      rw [hheader] at hlayer
      exact Or.inr (Or.inl ⟨packet, header, rfl, hheader, hlayer⟩)
    | none =>
      rw [hheader] at hlayer
      exact Or.inr (Or.inr ⟨congrArg _ hlayer, Or.inl fun id => by rw [hlayer]⟩)
  | linkDown id =>
    exact Or.inr (Or.inr ⟨(link_linkDown id id s).1, Or.inr ⟨id, rfl, fun other =>
      (link_linkDown id other s).2⟩⟩)
  | linkUp id => exact Or.inr (Or.inr ⟨rfl, Or.inl (link_setLink_self s.layer id)⟩)
  | hasMore dest =>
    have hlayer : (perform s (.hasMore dest)).layer = s.layer := (hasMore_apply dest s).1
    exact Or.inr (Or.inr ⟨congrArg _ hlayer, Or.inl fun id => by rw [hlayer]⟩)
  | inject packet | tick slots | hops | report id hops | elsewhere change =>
    exact Or.inr (Or.inr ⟨rfl, Or.inl fun _ => rfl⟩)

end SelectiveRepeat

/-! ## What each link keeps -/

/-- `P` holds of a fresh link, and each operation on one link keeps it. -/
structure Link.IsKept (P : Link → Prop) : Prop where
  fresh : P .fresh
  takeIn : ∀ {l : Link}, P l → ∀ header packet window, P (l.takeIn header packet window).2
  resend : ∀ {l after : Link} {window slot resendAt bits : Nat} {packet : Packet}, P l →
    l.resend window slot resendAt bits = .ok (some (packet, after)) → P after
  send : ∀ {l : Link} {packet : Packet}, P l → packet.unicastHeaders ≠ [] →
    ∀ window resendAt, P (l.send packet window resendAt).2
  clear : ∀ {l : Link}, P l → P { l with isAckPending := false }

theorem SelectiveRepeat.forall_link_setLink {P : Link → Prop} {a : SelectiveRepeat} {l : Link}
    (h : ∀ id, P (a.link id)) (hl : P l) (id : Address) : ∀ other, P ((a.setLink id l).link other) := by
  intro other
  rw [link_setLink]
  split
  · exact hl
  · exact h other

namespace Link.IsKept

open SelectiveRepeat

variable {P : Link → Prop} {a after : SelectiveRepeat} {packet out : Packet} {bits : Nat}
  {dest : Address}

theorem sequence (hkept : IsKept P) (h : ∀ id, P (a.link id))
    (hseq : a.sequence packet bits dest = .ok (out, after)) : ∀ id, P (after.link id) := by
  unfold SelectiveRepeat.sequence at hseq
  split at hseq
  · rcases acknowledge_eq_ok hseq with ⟨-, rfl⟩ | ⟨header, -, -, rfl⟩
    · exact forall_link_setLink h (h dest) dest
    · exact forall_link_setLink h (hkept.clear (h dest)) dest
  · next hmarked =>
    rw [List.isEmpty_iff] at hmarked
    cases hseq
    exact forall_link_setLink h (hkept.send (h dest) hmarked _ _) dest

variable {ε : Type} [RlcAbove ε] {s : Inside SelectiveRepeat ε}

theorem requestBurst (hkept : IsKept P) (h : ∀ id, P (s.layer.link id)) (bits frame : Nat)
    (dest : Address) :
    ∀ id, P ((SelectiveRepeat.requestBurst bits dest frame s).2.layer.link id) := by
  by_cases hp : s.layer.isProtected dest = true
  · rw [requestBurst_apply hp]
    split
    · exact h
    · next hres =>
      obtain ⟨l, hl, rfl⟩ := resend_eq_some_iff.1 hres
      exact forall_link_setLink h (hkept.resend (h dest) hl) dest
    · split
      · exact h
      · split
        · exact h
        · next hseq => exact hkept.sequence h hseq
  · rw [requestBurst_unprotected (by simpa using hp)]
    exact h

theorem perform (hkept : IsKept P) (h : ∀ id, P (s.layer.link id)) (call : ArqCall ε) :
    ∀ id, P ((SelectiveRepeat.perform s call).layer.link id) := by
  rcases perform_cases s call with ⟨bits, dest, frame, -, hstep⟩ |
    ⟨packet, header, -, -, hlayer⟩ | ⟨-, hlinks | ⟨id, -, hlinks⟩⟩
  · rw [hstep]
    exact hkept.requestBurst h bits frame dest
  · rw [hlayer]
    exact forall_link_setLink h (hkept.takeIn (h packet.origin) header packet _) packet.origin
  · intro id
    rw [hlinks]
    exact h id
  · intro other
    rw [hlinks]
    split
    · exact hkept.fresh
    · exact h other

theorem run (hkept : IsKept P) (h : ∀ id, P (s.layer.link id)) (calls : List (ArqCall ε)) :
    ∀ id, P ((SelectiveRepeat.run s calls).layer.link id) := by
  induction calls generalizing s with
  | nil => exact h
  | cons call rest ih => exact ih (hkept.perform h call)

end Link.IsKept

end DataLink
