import DataLink.Proofs.Arq.Gaps

/-!
# Acknowledgements that are owed

A protected station is told what was received from it in three ways: with a frame that is sent again,
with a new one, or with a header of its own. A frame that is sent again was stamped when it was first
sent, so what it carries has to be brought up to date.

**Theorem (`current_and_owed`).** In every state of a run over any RLC:

- All unicast headers of a packet that is returned for a protected station carry one number, the number
  that is expected from it now, and a reject map that names the gaps as they are now
  (`Packet.IsCurrent`).
- A frame that arrives leaves a debt. Until a packet with unicast headers is returned for the station,
  or the link to it is ended, there is something to send to it.

Every packet is stamped with the receive state (`Packet.IsStamped`), and this names the gaps in every
state of a run (`namesGaps_run`).

Whenever the debt is cleared a packet is returned, but the packet says something only if it has a unicast
header. A frame that is held has one (`Link.HoldsMarked`), and that is the invariant. The debt itself is
kept by every call that does not settle it (`IsOwed.perform`).
-/

namespace DataLink

variable {window bits : Nat} {dest : Address} {l : Link}

/-- The unicast headers of the packet carry one number, and the receive state of the link. -/
def Packet.IsStamped (l : Link) (window : Nat) (p : Packet) : Prop :=
  ∃ seq, ∀ h ∈ p.unicastHeaders, h.useArq = true ∧ h.seq = seq ∧
    h.nextExpected = l.nextExpected ∧ h.rejects = l.rejects window

/-- The unicast headers of the packet say what the link has received: each one by itself tells which
number is expected now, and names the gaps that there are now. -/
structure Packet.IsCurrent (l : Link) (window : Nat) (p : Packet) : Prop where
  stamped : p.IsStamped l window
  gaps : ∀ h ∈ p.unicastHeaders, l.NamesGaps (h.rejects.missing h.nextExpected)

theorem Packet.IsStamped.isCurrent {p : Packet} (h : p.IsStamped l window)
    (hnames : l.NamesGaps ((l.rejects window).missing l.nextExpected)) : p.IsCurrent l window := by
  refine ⟨h, fun header hmem => ?_⟩
  obtain ⟨seq, hstamped⟩ := h
  obtain ⟨-, -, hnext, hrejects⟩ := hstamped header hmem
  rw [hnext, hrejects]
  exact hnames

theorem Packet.isStamped_stamp (l : Link) (seq : SequenceNumber) (window : Nat) (p : Packet) :
    (p.mapUnicast (l.stamp seq window)).IsStamped l window := by
  refine ⟨seq, fun h hmem => ?_⟩
  rw [unicastHeaders_mapUnicast] at hmem
  obtain ⟨u, -, rfl⟩ := List.mem_map.1 hmem
  exact ⟨rfl, rfl, rfl, rfl⟩

theorem Packet.isStamped_of_unmarked {p : Packet} (h : p.unicastHeaders = []) : p.IsStamped l window :=
  ⟨.unset, by rw [h]; exact List.forall_mem_nil _⟩

theorem Packet.marked_mapUnicast {p : Packet} (h : p.unicastHeaders ≠ [])
    (f : UnicastHeader → UnicastHeader) : (p.mapUnicast f).unicastHeaders ≠ [] := by
  rw [unicastHeaders_mapUnicast]
  exact fun hnil => h (List.map_eq_nil_iff.1 hnil)

/-! ## One link -/

namespace Link

/-- The frames that are held have unicast headers. -/
def HoldsMarked (l : Link) : Prop := l.Holds fun p => p.unicastHeaders ≠ []

theorem isKept_holdsMarked : IsKept HoldsMarked where
  fresh := List.forall_mem_nil _
  takeIn h header packet window := h.takeIn header packet window
  resend h hres := (h.resend hres).1
  send h hmarked _ resendAt := h.send (Packet.marked_mapUnicast hmarked _) resendAt
  clear h := h

theorem isAckPending_releaseUpTo (count : Nat) (l : Link) :
    (l.releaseUpTo count).2.isAckPending = l.isAckPending := by
  induction count generalizing l with
  | zero => rfl
  | succ count ih =>
    rw [releaseUpTo]
    cases l.early.get? l.nextExpected with
    | none => rfl
    | some packet =>
      exact ih { l with
        early := l.early.erase l.nextExpected, nextExpected := l.nextExpected.next }

theorem isAckPending_accept (l : Link) (seq : SequenceNumber) (packet : Packet) (window : Nat) :
    (l.accept seq packet window).2.isAckPending = l.isAckPending := by
  unfold accept
  split
  · exact isAckPending_releaseUpTo _ { l with nextExpected := l.nextExpected.next }
  · split <;> rfl

theorem isAckPending_takeIn (l : Link) (h : UnicastHeader) (packet : Packet) (window : Nat) :
    (l.takeIn h packet window).2.isAckPending = (l.isAckPending || h.seq.isSet) := by
  obtain ⟨retransmit, hack⟩ := onAck_apply l h.nextExpected h.rejects window
  rw [takeIn, hack]
  cases h.seq.isSet with
  | true => rw [if_pos rfl, isAckPending_accept, Bool.or_true]
  | false =>
    rw [if_neg Bool.false_ne_true, Bool.or_false]

end Link

/-! ## Requests -/

namespace SelectiveRepeat

/-- The frames that any link holds have unicast headers. -/
def HoldsMarked (a : SelectiveRepeat) : Prop := ∀ id, (a.link id).HoldsMarked

/-- The packet tells `dest` what was received from it. If it has no unicast header, the links are as they
were. -/
structure Told (a : SelectiveRepeat) (dest : Address) (p : Packet) (after : SelectiveRepeat) :
    Prop where
  stamped : p.IsStamped (a.link dest) a.config.windowSize
  owes : p.unicastHeaders = [] → ∀ id, after.link id = a.link id

variable {a after : SelectiveRepeat} {packet out : Packet}

theorem HoldsMarked.resend (hheld : a.HoldsMarked)
    (h : a.resend bits dest = .ok (some (out, after))) : a.Told dest out after := by
  obtain ⟨l, hl, rfl⟩ := resend_eq_some_iff.1 h
  obtain ⟨-, held, seq, hmarked, rfl⟩ := (hheld dest).resend hl
  have hmarked' : held.copy.unicastHeaders ≠ [] := hmarked
  exact ⟨Packet.isStamped_stamp _ _ _ _,
    fun hnone => absurd hnone (Packet.marked_mapUnicast hmarked' _)⟩

theorem told_acknowledge (hunmarked : packet.unicastHeaders = [])
    (h : a.acknowledge packet bits dest = .ok (out, after)) : a.Told dest out after := by
  rcases acknowledge_eq_ok h with ⟨rfl, rfl⟩ | ⟨header, hheader, hadd, rfl⟩
  · exact ⟨Packet.isStamped_of_unmarked hunmarked, fun _ => link_setLink_self a dest⟩
  · -- The header that is added is the only one.
    have honly : out.unicastHeaders = [header] := by
      rw [Packet.unicastHeaders_add hadd, hunmarked, List.nil_append]
    refine ⟨⟨.unset, ?_⟩, ?_⟩
    · rw [honly, Link.ackHeader_eq_ok hheader]
      exact List.forall_mem_singleton.2 ⟨rfl, rfl, rfl, rfl⟩
    · rw [honly]
      exact fun hnil => by cases hnil

theorem told_sequence (h : a.sequence packet bits dest = .ok (out, after)) :
    a.Told dest out after := by
  unfold SelectiveRepeat.sequence at h
  split at h
  · next hempty => exact told_acknowledge (List.isEmpty_iff.1 hempty) h
  · next hmarked =>
    rw [List.isEmpty_iff] at hmarked
    cases h
    exact ⟨Packet.isStamped_stamp _ _ _ _,
      fun hnone => absurd hnone (Packet.marked_mapUnicast hmarked _)⟩

variable {ε : Type} [RlcAbove ε] {s : Inside SelectiveRepeat ε} {peer : Address}

/-- A request that fails changes nothing here; one that succeeds for a protected station tells it what
was received. -/
theorem HoldsMarked.requestBurst (hheld : s.layer.HoldsMarked) (hp : s.layer.isProtected dest = true)
    (bits frame : Nat) :
    match (SelectiveRepeat.requestBurst bits dest frame s).1 with
    | .ok p => s.layer.Told dest p (SelectiveRepeat.requestBurst bits dest frame s).2.layer
    | .error _ => (SelectiveRepeat.requestBurst bits dest frame s).2.layer = s.layer := by
  rw [requestBurst_apply hp]
  cases hres : s.layer.resend bits dest with
  | error e => rfl
  | ok found =>
    cases found with
    | some found => exact hheld.resend hres
    | none =>
      simp only
      obtain ⟨answer, around⟩ := RlcAbove.requestBurst bits dest frame s.around
      cases answer with
      | error e => rfl
      | ok packet =>
        simp only
        cases hseq : s.layer.sequence packet bits dest with
        | error e => rfl
        | ok found => exact told_sequence hseq

/-! ## A run -/

/-- The packet that a call returns for the protected station `dest`. -/
def returned? (s : Inside SelectiveRepeat ε) (dest : Address) (call : ArqCall ε) : Option Packet :=
  match call.asked? with
  | some (bits, id, frame) =>
    if id = dest ∧ s.layer.isProtected id = true then
      (requestBurst bits id frame s).1.toOption
    else none
  | none => none

/-- The call returns a packet with unicast headers for `peer`, or ends the link to it. -/
def settles (s : Inside SelectiveRepeat ε) (peer : Address) : ArqCall ε → Bool
  | .linkDown id => id = peer
  | call => (returned? s peer call).any fun p => !p.unicastHeaders.isEmpty

/-- Some call of a run settles what `peer` is owed. -/
def anySettles (s : Inside SelectiveRepeat ε) (peer : Address) : List (ArqCall ε) → Bool
  | [] => false
  | call :: rest => settles s peer call || anySettles (perform s call) peer rest

theorem returned?_eq_some {call : ArqCall ε} {p : Packet} (h : returned? s dest call = some p) :
    ∃ bits frame, call.asked? = some (bits, dest, frame) ∧ s.layer.isProtected dest = true ∧
      (requestBurst bits dest frame s).1 = .ok p := by
  unfold returned? at h
  split at h
  · next bits id frame hasked =>
    split at h
    · next hid =>
      obtain ⟨rfl, hp⟩ := hid
      refine ⟨bits, frame, hasked, hp, ?_⟩
      cases hanswer : (requestBurst bits id frame s).1 with
      | error e => rw [hanswer] at h; cases h
      | ok q => rw [hanswer] at h; cases h; rfl
    · cases h
  · cases h

theorem HoldsMarked.perform (h : s.layer.HoldsMarked) (call : ArqCall ε) :
    (SelectiveRepeat.perform s call).layer.HoldsMarked :=
  Link.isKept_holdsMarked.perform h call

theorem HoldsMarked.isStamped (h : s.layer.HoldsMarked) {call : ArqCall ε} {p : Packet}
    (hp : returned? s dest call = some p) :
    p.IsStamped (s.layer.link dest) s.layer.config.windowSize := by
  obtain ⟨bits, frame, -, hprotected, hanswer⟩ := returned?_eq_some hp
  have htold := h.requestBurst hprotected bits frame
  rw [hanswer] at htold
  exact htold.stamped

/-! ## The debt -/

/-- `peer` is owed an acknowledgement. -/
def IsOwed (a : SelectiveRepeat) (peer : Address) : Prop := (a.link peer).isAckPending = true

/-- A packet that leaves the debt is returned for another station, or has no unicast header. -/
theorem IsOwed.requestBurst (howed : s.layer.IsOwed peer) (h : s.layer.HoldsMarked) {call : ArqCall ε}
    {frame : Nat} (hasked : call.asked? = some (bits, dest, frame))
    (hopen : settles s peer call = false) :
    (SelectiveRepeat.requestBurst bits dest frame s).2.layer.IsOwed peer := by
  by_cases hdest : dest = peer
  · subst hdest
    by_cases hp : s.layer.isProtected dest = true
    · have hanswer := h.requestBurst hp bits frame
      split at hanswer
      · next p hreturned =>
        have hsettles : settles s dest call = !p.unicastHeaders.isEmpty := by
          cases call <;> cases hasked <;>
            simp only [settles, returned?, ArqCall.asked?, hp, and_self, if_true, hreturned,
              Except.toOption, Option.any_some]
        rw [hsettles, Bool.not_eq_false', List.isEmpty_iff] at hopen
        rw [IsOwed, hanswer.owes hopen]
        exact howed
      · rw [hanswer]
        exact howed
    · rw [requestBurst_unprotected (by simpa using hp)]
      exact howed
  · rcases requestBurst_layer bits frame dest s with hlayer | ⟨l, hlayer, -⟩
    · rw [hlayer]
      exact howed
    · rw [IsOwed, hlayer, link_setLink, if_neg hdest]
      exact howed

theorem IsOwed.perform (howed : s.layer.IsOwed peer) (h : s.layer.HoldsMarked) {call : ArqCall ε}
    (hopen : settles s peer call = false) : (SelectiveRepeat.perform s call).layer.IsOwed peer := by
  rcases perform_cases s call with ⟨bits, dest, frame, hasked, hstep⟩ |
    ⟨packet, header, -, -, hlayer⟩ | ⟨-, hlinks | ⟨id, rfl, hlinks⟩⟩
  · rw [hstep]
    exact howed.requestBurst h hasked hopen
  · rw [IsOwed, hlayer, link_setLink]
    split
    · next heq => rw [Link.isAckPending_takeIn, heq, howed, Bool.true_or]
    · exact howed
  · rw [IsOwed, hlinks]
    exact howed
  · have hne : id ≠ peer := by simpa [settles] using hopen
    rw [IsOwed, hlinks, if_neg hne]
    exact howed

theorem IsOwed.run (howed : s.layer.IsOwed peer) (h : s.layer.HoldsMarked) {calls : List (ArqCall ε)}
    (hopen : anySettles s peer calls = false) : (SelectiveRepeat.run s calls).layer.IsOwed peer := by
  induction calls generalizing s with
  | nil => exact howed
  | cons call rest ih =>
    rw [anySettles, Bool.or_eq_false_iff] at hopen
    exact ih (howed.perform h hopen.1) (h.perform call) hopen.2

theorem isOwed_receive (s : Inside SelectiveRepeat ε) {packet : Packet} {header : UnicastHeader}
    (hheader : packet.arqHeader? = some header) (hseq : header.seq.isSet = true) :
    (SelectiveRepeat.perform s (.receive packet)).layer.IsOwed packet.origin := by
  show (receive packet s).2.layer.IsOwed packet.origin
  rw [IsOwed, receive_layer, hheader]
  simp only
  rw [link_setLink, if_pos rfl, Link.isAckPending_takeIn, hseq, Bool.or_true]

theorem IsOwed.hasMore (h : s.layer.IsOwed peer) : (SelectiveRepeat.hasMore peer s).1 = .ok true := by
  rw [IsOwed, link] at h
  cases hget : s.layer.links.get? peer with
  | none =>
    rw [hget] at h
    cases h
  | some l =>
    rw [hget, Option.getD_some] at h
    have howing : l.isOwing s.layer.config.windowSize s.layer.slot = true := by
      rw [Link.isOwing, h]
      rfl
    simp only [SelectiveRepeat.hasMore, Call.bind_apply, Call.own_apply, hget]
    rw [if_pos howing]
    rfl

/-- **What is told and what is owed.** In every state of a run, a packet that is returned for a
protected station tells it what was received from it. If a frame with a number comes from a station
then, there is something to be sent to it until it has been told, or the link to it has been ended. -/
theorem current_and_owed {config : ArqConfig} {arq : SelectiveRepeat} (harq : ofConfig config = .ok arq)
    (rlc : ε) (calls : List (ArqCall ε)) {s : Inside SelectiveRepeat ε} (hs : run ⟨arq, rlc⟩ calls = s) :
    (∀ dest call p, returned? s dest call = some p →
      p.IsCurrent (s.layer.link dest) s.layer.config.windowSize) ∧
    ∀ packet header later, packet.arqHeader? = some header → header.seq.isSet = true →
      anySettles (perform s (.receive packet)) packet.origin later = false →
      (hasMore packet.origin (run (perform s (.receive packet)) later)).1 = .ok true := by
  have hnames := namesGaps_run harq rlc calls hs
  obtain ⟨-, rfl⟩ := ofConfig_eq_ok_iff.1 harq
  have hmarked : s.layer.HoldsMarked := hs ▸ Link.isKept_holdsMarked.run
    (s := ⟨⟨config, 0, .empty⟩, rlc⟩) (fun _ => Link.isKept_holdsMarked.fresh) calls
  refine ⟨fun dest call p hp => (hmarked.isStamped hp).isCurrent (hnames dest),
    fun packet header later hheader hseq hopen => ?_⟩
  exact ((isOwed_receive s hheader hseq).run (hmarked.perform _) hopen).hasMore

/-- A datagram was queued in the RLC, sent to station 2 in a frame, and not acknowledged in time. -/
def unanswered : Inside SelectiveRepeat (Inside SegmentingRlc (Ends Unit)) :=
  run ⟨⟨default, 0, .empty⟩, .empty 256, .empty ()⟩
    [.elsewhere fun rlc => (SegmentingRlc.accept ⟨#[1, 2, 3, 4]⟩ ⟨2⟩ 0 rlc).2, .request 800 ⟨2⟩, .tick 16]

/-- A frame from station 2 leaves a debt, which neither time nor a request for station 3 settles. -/
theorem current_and_owed_unanswered :
    (∀ dest call p, returned? unanswered dest call = some p →
      p.IsCurrent (unanswered.layer.link dest) unanswered.layer.config.windowSize) ∧
    (hasMore ⟨2⟩ (run (perform unanswered (.receive (RecordedArq.frameFrom ⟨2⟩ 0)))
      [.request 800 ⟨3⟩, .tick 16])).1 = .ok true := by
  obtain ⟨hcurrent, howed⟩ := current_and_owed (show ofConfig default = .ok _ from rfl) _ _
    (show run _ _ = unanswered from rfl)
  exact ⟨hcurrent, howed (RecordedArq.frameFrom ⟨2⟩ 0) _ [.request 800 ⟨3⟩, .tick 16] rfl
    (by decide) (by decide +kernel)⟩

/-- The debt for a second frame is settled with the old one, which now says that the first is missing. -/
example : (returned? (perform unanswered (.receive (RecordedArq.frameFrom ⟨2⟩ 1))) ⟨2⟩
    (.request 800 ⟨2⟩)).map (fun p =>
      p.unicastHeaders.map fun h => (h.seq, h.rejects.missing h.nextExpected)) =
        some [(.atPosition 0, [.atPosition 0])] := by decide +kernel

end SelectiveRepeat

end DataLink
