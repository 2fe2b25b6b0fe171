import DataLink.Proofs.Arq.Runs
import DataLink.Proofs.RejectMap

/-!
# Gaps, and what is sent again for them

A receiving link says in every header which numbers it misses: those that have not arrived although a
later one has. The link at the other end schedules the frames with these numbers.

**Theorem (`gaps_named_scheduled`).** Whatever a link has been through, the reject map that it stamps
names the gaps less than sixteen steps ahead, the nearest one first, and no other numbers. A link that
takes the header in releases the frames before the expected number, drops what it had scheduled of
these, and schedules of the named numbers those whose frames it still holds and has not scheduled.

What a link keeps early is less than a window ahead (`Link.Expects`). That is less than half a turn, so
the number at a distance is unique, and neither the bound on the distance nor the way around the ring
hides a gap (`Expects.mem_missing_iff`). As no number is named twice, the links that schedule them one
by one do the same as one that sorts them out at once (`foldl_schedule`).
-/

namespace DataLink

open SequenceNumber

namespace Link

variable {window received : Nat} {P : Nat → Packet → Prop} {l m : Link} {s : SequenceNumber}

/-! ## Naming gaps -/

/-- The number has not arrived, but one that is farther ahead has. -/
def IsGap (l : Link) (s : SequenceNumber) : Prop :=
  s ∉ l.early.keys ∧ ∃ d, l.nextExpected.distance? s = some d ∧
    ∃ held ∈ l.early.keys, ∃ far, l.nextExpected.distance? held = some far ∧ d < far

/-- The list names the gaps less than sixteen steps ahead, from the nearest one on. -/
structure NamesGaps (l : Link) (named : List SequenceNumber) : Prop where
  mem_iff : ∀ s, s ∈ named ↔ l.IsGap s ∧ ∃ d, l.nextExpected.distance? s = some d ∧ d < 16
  ascending : named.Pairwise fun s t => ∃ d e, l.nextExpected.distance? s = some d ∧
    l.nextExpected.distance? t = some e ∧ d < e
  none_early : l.early.keys = [] → named = []
  some_early : l.early.keys ≠ [] → named.head? = some l.nextExpected

theorem lt_farthest_iff {d : Nat} : (∃ far, l.farthest? = some far ∧ d < far) ↔
    ∃ held ∈ l.early.keys, ∃ far, l.nextExpected.distance? held = some far ∧ d < far := by
  simp only [farthest?, List.max?_eq_some_iff, List.mem_filterMap]
  constructor
  · rintro ⟨far, ⟨⟨held, hheld, hfar⟩, -⟩, hlt⟩
    exact ⟨held, hheld, far, hfar, hlt⟩
  · rintro ⟨held, hheld, far, hfar, hlt⟩
    have hmem : far ∈ l.early.keys.filterMap l.nextExpected.distance? :=
      List.mem_filterMap.2 ⟨held, hheld, hfar⟩
    cases hmax : (l.early.keys.filterMap l.nextExpected.distance?).max? with
    | none =>
      rw [List.max?_eq_none_iff] at hmax
      rw [hmax] at hmem
      cases hmem
    | some farthest =>
      obtain ⟨hin, hle⟩ := List.max?_eq_some_iff.1 hmax
      refine ⟨farthest, ⟨List.mem_filterMap.1 hin, fun b hb => hle b (List.mem_filterMap.2 hb)⟩, ?_⟩
      exact Nat.lt_of_lt_of_le hlt (hle far hmem)

theorem Expects.isSet (h : l.Expects window P received) : l.nextExpected.isSet = true :=
  h.nextExpected ▸ isSet_atPosition received

theorem Expects.distance? (h : l.Expects window P received) (hwindow : window ≤ 127)
    (hs : s ∈ l.early.keys) :
    ∃ d, l.nextExpected.distance? s = some d ∧ 0 < d ∧ d < window := by
  rw [Table.mem_keys_iff, Table.contains, Option.isSome_iff_exists] at hs
  obtain ⟨packet, hget⟩ := hs
  obtain ⟨j, rfl, hj, hlt, -⟩ := h.early s packet hget
  refine ⟨j - received, ?_, by omega, by omega⟩
  rw [h.nextExpected, distance?_atPosition]
  congr 1
  omega

/-- The numbers that are missing are the gaps, as the window is never the narrower bound. -/
theorem Expects.mem_missing_iff (h : l.Expects window P received) (hwindow : window ≤ 127) :
    s ∈ l.missing window ↔ l.IsGap s := by
  have hfar : ∀ far, l.farthest? = some far → min far window = far := by
    intro far hfar
    obtain ⟨held, hheld, hdist⟩ := List.mem_filterMap.1 (List.max?_eq_some_iff.1 hfar).1
    obtain ⟨d, hd, -, hlt⟩ := h.distance? hwindow hheld
    rw [hd] at hdist
    cases hdist
    omega
  have hmissing : s ∈ l.missing window ↔ s ∉ l.early.keys ∧
      ∃ far, l.farthest? = some far ∧ ∃ d < far, l.nextExpected.forward d = s := by
    rw [missing, Table.mem_keys_iff]
    cases hf : l.farthest? with
    | none => simp
    | some far => simp [hfar far hf, and_comm]
  rw [hmissing, IsGap, and_congr_right_iff]
  intro _
  constructor
  · rintro ⟨far, hf, d, hd, rfl⟩
    obtain ⟨held, hheld, far', hfar', hlt⟩ := lt_farthest_iff.1 ⟨far, hf, hd⟩
    obtain ⟨e, he, -, hwin⟩ := h.distance? hwindow hheld
    rw [hfar'] at he
    cases he
    exact ⟨d, (distance?_eq_some_iff h.isSet).2 ⟨by omega, rfl⟩, held, hheld, far', hfar', hlt⟩
  · rintro ⟨d, hdist, hheld⟩
    obtain ⟨far, hf, hlt⟩ := lt_farthest_iff.2 hheld
    exact ⟨far, hf, d, hlt, ((distance?_eq_some_iff h.isSet).1 hdist).2.symm⟩

theorem Expects.isGap_nextExpected (h : l.Expects window P received) (hwindow : window ≤ 127)
    (hearly : l.early.keys ≠ []) : l.IsGap l.nextExpected := by
  have hself : l.nextExpected.distance? l.nextExpected = some 0 :=
    (distance?_eq_some_iff h.isSet).2 ⟨by decide, rfl⟩
  refine ⟨fun hmem => ?_, 0, hself, ?_⟩
  · obtain ⟨d, hd, hpos, -⟩ := h.distance? hwindow hmem
    rw [hself] at hd
    cases hd
    exact Nat.lt_irrefl 0 hpos
  · obtain ⟨held, hheld⟩ := List.exists_mem_of_ne_nil _ hearly
    obtain ⟨d, hd, hpos, -⟩ := h.distance? hwindow hheld
    exact ⟨held, hheld, d, hd, hpos⟩

/-- The reject map of a link, read with the number that it expects, names the gaps. -/
theorem Expects.namesGaps (h : l.Expects window P received) (hwindow : window ≤ 127) :
    l.NamesGaps ((l.rejects window).missing l.nextExpected) := by
  have hmem : ∀ s, s ∈ (l.rejects window).missing l.nextExpected ↔
      l.IsGap s ∧ ∃ d, l.nextExpected.distance? s = some d ∧ d < 16 := by
    intro s
    rw [rejects, RejectMap.mem_missing_ofMissing h.isSet, h.mem_missing_iff hwindow]
    rfl
  have hascending := RejectMap.pairwise_missing h.isSet (l.rejects window)
  refine ⟨hmem, hascending, fun hnone => ?_, fun hsome => ?_⟩
  · refine List.eq_nil_iff_forall_not_mem.2 fun s hs => ?_
    obtain ⟨⟨-, d, -, held, hheld, -⟩, -⟩ := (hmem s).1 hs
    rw [hnone] at hheld
    cases hheld
  · -- The expected number is named, and nothing is nearer.
    have hself : l.nextExpected.distance? l.nextExpected = some 0 :=
      (distance?_eq_some_iff h.isSet).2 ⟨by decide, rfl⟩
    have hin := (hmem l.nextExpected).2 ⟨h.isGap_nextExpected hwindow hsome, 0, hself, by decide⟩
    generalize (l.rejects window).missing l.nextExpected = named at hin hascending ⊢
    cases named with
    | nil => cases hin
    | cons first rest =>
      rcases List.mem_cons.1 hin with heq | hrest
      · rw [heq, List.head?_cons]
      · obtain ⟨d, e, -, he, hlt⟩ := (List.pairwise_cons.1 hascending).1 _ hrest
        rw [hself] at he
        cases he
        exact absurd hlt (Nat.not_lt_zero d)

/-! ## Scheduling frames -/

/-- A link that is told which number is expected and which ones are missing releases the frames before
the expected one, and schedules the missing ones that it holds behind those it had scheduled. -/
structure Schedules (window : Nat) (expected : SequenceNumber) (named : List SequenceNumber)
    (before after : Link) : Prop where
  unacked : after.unacked = before.unacked.filter fun f => !f.seq.isBehind expected window
  retransmit : after.retransmit = before.retransmit.filter after.isUnacked ++
    named.filter fun s => after.isUnacked s && !before.retransmit.contains s

theorem foldl_schedule {seqs : List SequenceNumber} (h : seqs.Nodup) (l : Link) :
    seqs.foldl schedule l = { l with
      retransmit := l.retransmit ++
        seqs.filter fun s => l.isUnacked s && !l.retransmit.contains s } := by
  induction seqs generalizing l with
  | nil => rw [List.foldl_nil, List.filter_nil, List.append_nil]
  | cons seq rest ih =>
    obtain ⟨hnew, hrest⟩ := List.nodup_cons.1 h
    rw [List.foldl_cons, ih hrest, schedule, List.filter_cons]
    split
    · -- What is scheduled now differs from all that follows.
      have hothers : rest.filter (fun s => l.isUnacked s && !(l.retransmit ++ [seq]).contains s) =
          rest.filter fun s => l.isUnacked s && !l.retransmit.contains s := by
        refine List.filter_congr fun s hs => ?_
        have hne : s ≠ seq := fun heq => hnew (heq ▸ hs)
        simp [hne]
      show { l with
        retransmit := l.retransmit ++ [seq] ++
          rest.filter (fun s => l.isUnacked s && !(l.retransmit ++ [seq]).contains s) } = _
      rw [hothers, List.append_assoc, List.singleton_append]
    · rfl

theorem schedules_onAck {expected : SequenceNumber} {rejects : RejectMap}
    (hnodup : (rejects.missing expected).Nodup) (l : Link) (window : Nat) :
    Schedules window expected (rejects.missing expected) l (l.onAck expected rejects window) := by
  rw [onAck, foldl_schedule hnodup]
  refine ⟨rfl, ?_⟩
  show (l.acknowledge expected window).retransmit ++ _ = _ ++ List.filter _ _
  rw [show (l.acknowledge expected window).retransmit =
    l.retransmit.filter (l.acknowledge expected window).isUnacked from rfl]
  congr 1
  refine List.filter_congr fun s _ => ?_
  show _ = ((l.acknowledge expected window).isUnacked s && !l.retransmit.contains s)
  cases hheld : (l.acknowledge expected window).isUnacked s with
  | false => rfl
  | true =>
    have hcontains : (l.retransmit.filter (l.acknowledge expected window).isUnacked).contains s =
        l.retransmit.contains s := by
      rw [Bool.eq_iff_iff, List.contains_iff_mem, List.contains_iff_mem, List.mem_filter]
      exact ⟨And.left, fun hmem => ⟨hmem, hheld⟩⟩
    rw [hcontains]

theorem Schedules.congr {expected : SequenceNumber} {named : List SequenceNumber} {before after : Link}
    (h : Schedules window expected named before after) (hlike : after.SendsLike m) :
    Schedules window expected named before m := by
  have hheld : m.isUnacked = after.isUnacked := by
    funext s
    rw [isUnacked, hlike.unacked, isUnacked]
  refine ⟨hlike.unacked.trans h.unacked, ?_⟩
  rw [hlike.retransmit, hheld]
  exact h.retransmit

theorem schedules_takeIn {header : UnicastHeader}
    (hnodup : (header.rejects.missing header.nextExpected).Nodup) (l : Link) (packet : Packet)
    (window : Nat) : Schedules window header.nextExpected (header.rejects.missing header.nextExpected)
      l (l.takeIn header packet window).2 := by
  have hack := schedules_onAck hnodup l window
  rw [takeIn]
  split
  · obtain ⟨hnext, hunacked, hretransmit⟩ := sendsLike_accept
      { l.onAck header.nextExpected header.rejects window with isAckPending := true }
      header.seq packet window
    exact hack.congr ⟨hnext, hunacked, hretransmit⟩
  · exact hack

end Link

/-! ## From one station to the other -/

namespace SelectiveRepeat

variable {ε δ : Type} [RlcAbove ε] [RlcAbove δ] {window : Nat}

/-- Each link expects a number, and keeps early what is less than a window ahead of it. -/
structure Expects (window : Nat) (a : SelectiveRepeat) : Prop where
  config : a.config.windowSize = window
  link : ∀ id, ∃ received, (a.link id).Expects window (fun _ _ => True) received

theorem Expects.perform (hpos : 0 < window) (hwidest : window ≤ 127) {s : Inside SelectiveRepeat ε}
    (h : s.layer.Expects window) (call : ArqCall ε) :
    (SelectiveRepeat.perform s call).layer.Expects window := by
  rcases perform_cases s call with ⟨bits, dest, frame, -, hstep⟩ |
    ⟨packet, header, -, -, hlayer⟩ | ⟨hconfig, hlinks | ⟨id, -, hlinks⟩⟩
  · obtain ⟨hconfig, hlike⟩ := receivesLike_requestBurst bits frame dest s
    rw [hstep]
    refine ⟨hconfig ▸ h.config, fun id => ?_⟩
    obtain ⟨n, hn⟩ := h.link id
    exact ⟨n, hn.congr (hlike id)⟩
  · rw [hlayer, h.config]
    refine ⟨h.config, fun id => ?_⟩
    rw [link_setLink]
    split
    · obtain ⟨n, hn⟩ := h.link packet.origin
      exact ⟨_, (hn.takeIn hpos (Nat.le_refl window) (Nat.le_trans hwidest (by decide))
        fun _ _ _ _ => trivial).1⟩
    · exact h.link id
  · exact ⟨hconfig ▸ h.config, fun id => hlinks id ▸ h.link id⟩
  · refine ⟨hconfig ▸ h.config, fun other => ?_⟩
    rw [hlinks]
    split
    · exact ⟨0, .fresh window _⟩
    · exact h.link other

theorem Expects.run (hpos : 0 < window) (hwidest : window ≤ 127) {s : Inside SelectiveRepeat ε}
    (h : s.layer.Expects window) (calls : List (ArqCall ε)) :
    (SelectiveRepeat.run s calls).layer.Expects window := by
  induction calls generalizing s with
  | nil => exact h
  | cons call rest ih => exact ih (h.perform hpos hwidest call)

theorem namesGaps_run {config : ArqConfig} {arq : SelectiveRepeat} (harq : ofConfig config = .ok arq)
    (rlc : ε) (calls : List (ArqCall ε)) {s : Inside SelectiveRepeat ε} (hs : run ⟨arq, rlc⟩ calls = s)
    (id : Address) : (s.layer.link id).NamesGaps
      (((s.layer.link id).rejects s.layer.config.windowSize).missing (s.layer.link id).nextExpected) := by
  obtain ⟨⟨hpos, hwidest⟩, rfl⟩ := ofConfig_eq_ok_iff.1 harq
  have hstart : Expects config.windowSize ⟨config, 0, .empty⟩ := ⟨rfl, fun _ => ⟨0, .fresh _ _⟩⟩
  have hrun := Expects.run (s := ⟨⟨config, 0, .empty⟩, rlc⟩) hpos hwidest hstart calls
  rw [hs] at hrun
  obtain ⟨received, hexpects⟩ := hrun.link id
  rw [hrun.config]
  exact hexpects.namesGaps hwidest

/-- The header for `id`, with the number `seq` and the state of the link on it. -/
def stamped (a : SelectiveRepeat) (id : Address) (seq : SequenceNumber) (blank : UnicastHeader) :
    UnicastHeader :=
  (a.link id).stamp seq a.config.windowSize blank

/-- **Gaps.** After any run of an ARQ, the header that is stamped for a peer names the gaps of the link
to it. When it comes to another ARQ, in whatever state, the link it belongs to there schedules what is
named. -/
theorem gaps_named_scheduled {config : ArqConfig} {arq : SelectiveRepeat}
    (harq : ofConfig config = .ok arq) (rlc : ε) (calls : List (ArqCall ε)) (id : Address)
    (seq : SequenceNumber) (blank : UnicastHeader) {header : UnicastHeader}
    (hheader : (run ⟨arq, rlc⟩ calls).layer.stamped id seq blank = header) :
    ((run ⟨arq, rlc⟩ calls).layer.link id).NamesGaps (header.rejects.missing header.nextExpected) ∧
      ∀ (t : Inside SelectiveRepeat δ) (packet : Packet), packet.arqHeader? = some header →
        Link.Schedules t.layer.config.windowSize header.nextExpected
          (header.rejects.missing header.nextExpected) (t.layer.link packet.origin)
          ((receive packet t).2.layer.link packet.origin) := by
  have hnames := namesGaps_run harq rlc calls rfl id
  generalize run ⟨arq, rlc⟩ calls = u at hheader hnames ⊢
  subst hheader
  refine ⟨hnames, fun t packet hpacket => ?_⟩
  have hnodup : List.Nodup ((Link.rejects _ u.layer.config.windowSize).missing _) :=
    hnames.ascending.imp fun {a b} hnearer heq => by
      obtain ⟨d, e, hd, he, hlt⟩ := hnearer
      rw [heq, he, Option.some.injEq] at hd
      omega
  rw [receive_layer, hpacket]
  simp only [link_setLink, if_true]
  exact Link.schedules_takeIn hnodup _ packet _

/-- Of five frames from station 2, the second and the fifth one have arrived. -/
def gappy : Inside SelectiveRepeat Unit :=
  run ⟨⟨⟨8, true, 16⟩, 0, .empty⟩, ()⟩
    [.receive (RecordedArq.frameFrom ⟨2⟩ 1), .receive (RecordedArq.frameFrom ⟨2⟩ 4)]

/-- The header in which station 1 says so. -/
def gapHeader : UnicastHeader :=
  gappy.layer.stamped ⟨2⟩ .unset { (default : UnicastHeader) with dest := ⟨2⟩ }

def gapReport : Packet :=
  .ofMessages [⟨some (.base (.ofSource ⟨1⟩)), none⟩, ⟨some (.unicast gapHeader), none⟩]

/-- The ARQ of station 2 holds the five frames, and the fourth one is to be sent again already. -/
def holder : Inside SelectiveRepeat Unit :=
  ⟨⟨⟨8, true, 16⟩, 0, Table.empty.insert ⟨1⟩ { Link.fresh with
    unacked := [1, 2, 3, 4, 5].map fun raw => ⟨.ofByte raw, .empty, 0⟩
    retransmit := [.ofByte 4] }⟩, ()⟩

/-- Three numbers are named, and two frames are scheduled behind the fourth one. -/
theorem gaps_named_scheduled_gappy :
    (gappy.layer.link ⟨2⟩).NamesGaps [.ofByte 1, .ofByte 3, .ofByte 4] ∧
      Link.Schedules 8 (.ofByte 1) [.ofByte 1, .ofByte 3, .ofByte 4] (holder.layer.link ⟨1⟩)
        ((receive gapReport holder).2.layer.link ⟨1⟩) := by
  have hnamed : gapHeader.rejects.missing gapHeader.nextExpected =
      [.ofByte 1, .ofByte 3, .ofByte 4] := by decide +kernel
  obtain ⟨hnames, hschedules⟩ := gaps_named_scheduled (ε := Unit) (δ := Unit)
    (show ofConfig ⟨8, true, 16⟩ = .ok _ from rfl) () _ ⟨2⟩ .unset _ (show _ = gapHeader from rfl)
  rw [hnamed] at hnames hschedules
  exact ⟨hnames, hschedules holder gapReport rfl⟩

example : ((receive gapReport holder).2.layer.link ⟨1⟩).retransmit =
    [.ofByte 4, .ofByte 1, .ofByte 3] := by decide +kernel

end SelectiveRepeat

end DataLink
