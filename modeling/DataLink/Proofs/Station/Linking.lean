import DataLink.Proofs.Grammar
import DataLink.Proofs.Mac.LinkTables
import DataLink.Proofs.Station.Whole

/-!
# Links for what is queued

The RLC of a station queues datagrams, and its MAC keeps the links, the stations that it is still to
ask for one, and those it has asked. The two never look at each other's tables: the MAC hears of a
demand once, when a datagram is accepted.

A station moves between the tables of the MAC when it is asked, asked again, and when it answers.
In all of this it keeps the place it has: only a link that is torn down leaves no place behind it,
and only a new datagram or a packet of the peer that sets the link up gives it a place again.

**Theorem (`Station.isLinking_of_numQueued`).** In every state of a run, a station that datagrams are
queued for is linked, to be asked or asked, unless its link was torn down and it was neither sent a
datagram nor heard asking for or granting a link since. In that case it is none of the three.
-/

namespace DataLink

namespace SlotMac

variable {m after : SlotMac} {dest id : Address}

/-! ## Calls of the MAC -/

/-- The property is about the links and about who is asked for one, in whichever table. -/
def IgnoresTables (P : SlotMac → Prop) : Prop :=
  ∀ m after : SlotMac, m.LinksAlike after → P m → P after

/-- The tables of the MAC are in order and have `P`, and no more than `bound` datagrams are queued
for `dest` above it. -/
structure Tracks (seat : OutboxPhy → Seat PhyLayer) (dest : Address) (bound : Nat)
    (P : SlotMac → Prop) (s : Inside SlotMac Station) : Prop where
  around : ∃ (x : Upper) (p : OutboxPhy), s.around = x.around (seat p) ∧
    x.rlc.numQueued dest ≤ bound
  tracked : s.layer.IsTracked
  holds : P s.layer

theorem ignoresTables_isLinking (dest : Address) (linking : Bool) :
    IgnoresTables fun m => m.isLinking dest = linking :=
  fun _ _ h hm => (h.isLinking dest).trans hm

variable {seat : OutboxPhy → Seat PhyLayer} {bound : Nat} {P : SlotMac → Prop}
  {s : Inside SlotMac Station}

theorem Tracks.linksAlike (h : Tracks seat dest bound P s) (hP : IgnoresTables P) {after : SlotMac}
    (hafter : s.layer.LinksAlike after) : Tracks seat dest bound P { s with layer := after } :=
  ⟨h.around, hafter.isTracked h.tracked, hP _ _ hafter h.holds⟩

theorem steady_tracks (hseat : seat = (fun p => .idle (.outbox p)) ∨ seat = fun _ => .entered)
    (hP : IgnoresTables P) : Steady (Tracks seat dest bound P) where
  change hm hs := hs.linksAlike hP hm.linksAlike
  outward := by
    intro α step hstep
    refine .outward fun s ⟨⟨x, p, haround, hle⟩, htracked, holds⟩ =>
      ⟨⟨?_, htracked, holds⟩, fun _ _ => trivial⟩
    obtain ⟨y, q, hafter, hless⟩ := x.exists_after hseat hstep p
    exact ⟨y, q, by rw [haround, hafter], Nat.le_trans (hless dest) hle⟩

theorem exists_linkControl (m : SlotMac) (hdest : dest.isSymbolic = false) :
    ∃ packet, m.linkControl .linkRequest dest = .ok packet := by
  obtain ⟨header, hheader, hnext⟩ : ∃ header,
      Header.unicastFamily? .linkRequest dest = .ok header ∧
        Packet.checkNext [.base (.ofSource m.config.id)] header = .ok () := by
    refine ⟨.linkRequest { (default : UnicastHeader) with dest } default, ?_, ?_⟩
    · rw [Header.unicastFamily?, UnicastHeader.to?, hdest]
      rfl
    · simp only [Packet.checkNext, hdest]
      rfl
  have hadd := (Packet.add_eq_ok_iff
    (p := .ofMessages [⟨some (.base (.ofSource m.config.id)), none⟩])
    (m := ⟨some header, none⟩)).2 ⟨rfl, fun h hh => by cases hh; exact hnext⟩
  rw [linkControl, hheader]
  exact ⟨_, congrArg (Except.mapError LayerError.packet) hadd⟩

theorem askEach_cons (m : SlotMac) (x : Upper) (phy : Seat PhyLayer) {next : Address}
    (hnext : next.isSymbolic = false) (rest : List Address) :
    ∃ packet, m.linkControl .linkRequest next = .ok packet ∧
      askEach (next :: rest) ⟨m, x.around phy⟩ = askEach rest
        ⟨{ m with awaiting := m.awaiting.insert next m.slot },
          Upper.around phy { x with rlc := x.rlc.inject packet Priority.linkManagement }⟩ := by
  obtain ⟨packet, hpacket⟩ := exists_linkControl m hnext
  refine ⟨packet, hpacket, ?_⟩
  simp only [askEach, Call.bind_apply, Call.own_apply, hpacket, Call.ofLayer, Call.pure_apply,
    Call.outward_apply, Upper.inject_apply, Call.change_apply]

/-- Those who are asked go from one table to the other, and nobody is left out. -/
theorem tracks_askEach (hP : IgnoresTables P) (dests : List Address)
    (hdests : ∀ dest ∈ dests, dest.isSymbolic = false)
    (h : Tracks seat dest bound P
      { s with layer := { s.layer with pending := s.layer.pending ++ dests } }) :
    Tracks seat dest bound P (askEach dests s).2 := by
  -- Those who are still to be asked are in neither table meanwhile, so `h` puts them back.
  induction dests generalizing s with
  | nil =>
    rw [List.append_nil] at h
    exact h
  | cons next rest ih =>
    obtain ⟨m, around⟩ := s
    obtain ⟨x, p, haround, hle⟩ := h.around
    change around = _ at haround
    subst haround
    obtain ⟨packet, -, hstep⟩ := askEach_cons m x (seat p) (hdests next List.mem_cons_self) rest
    rw [hstep]
    have hasked := h.linksAlike hP (linksAlike_ask m next rest)
    exact ih (fun d hd => hdests d (List.mem_cons_of_mem _ hd))
      ⟨⟨_, p, rfl, hle⟩, hasked.tracked, hasked.holds⟩

theorem tracks_requestLinks (hP : IgnoresTables P) :
    (requestLinks : Call (Inside SlotMac Station) Unit).Preserves (Tracks seat dest bound P) := by
  intro s hs
  have hrenewed := hs.linksAlike hP (linksAlike_renewOverdue s.layer)
  refine ⟨?_, fun _ _ => trivial⟩
  unfold requestLinks
  simp only [Call.bind_apply, Call.change_apply, Call.own_apply]
  refine tracks_askEach hP _ (fun d hd => ?_) hrenewed
  have hasked : s.layer.renewOverdue.isAsked d = true := by
    rw [isAsked, List.contains_iff_mem.2 hd, Bool.or_true]
  exact (hrenewed.tracked d hasked).1

theorem Tracks.update
    (h : Tracks (fun p => .idle (.outbox p)) dest bound (fun _ => True) s) :
    Tracks (fun p => .idle (.outbox p)) dest bound
      (fun m => m.isLinking dest = s.layer.isLinking dest) (SlotMac.update s).2 :=
  ((steady_tracks (P := fun m => m.isLinking dest = s.layer.isLinking dest) (Or.inl rfl)
    (ignoresTables_isLinking dest _)).update
    (fun _ hs => hs.linksAlike (ignoresTables_isLinking dest _) ⟨rfl, fun _ => rfl⟩)
    (tracks_requestLinks (ignoresTables_isLinking dest _)) s ⟨h.around, h.tracked, rfl⟩).1

theorem Tracks.removeLink (h : Tracks seat dest bound (fun _ => True) s)
    (hseat : seat = (fun p => .idle (.outbox p)) ∨ seat = fun _ => .entered) (id : Address) :
    Tracks seat dest bound (fun m => m.isLinking dest =
        (s.layer.isLinking dest && !(id = dest && s.layer.hasLink dest)))
      (SlotMac.removeLink id s).2 := by
  unfold SlotMac.removeLink
  simp only [Call.bind_apply, Call.own_apply]
  split
  · next hlink =>
    simp only [Call.bind_apply, Call.change_apply]
    have hgone := h.tracked.removeLink hlink (s.layer.schedule.filter fun other => other ≠ id)
    refine ((steady_tracks hseat (ignoresTables_isLinking dest _)).outward (.linkDown id)
      { s with layer := { s.layer with
        links := s.layer.links.filter fun peer => peer ≠ id
        schedule := s.layer.schedule.filter fun other => other ≠ id } }
      ⟨h.around, hgone.1, (hgone.2 dest).trans ?_⟩).1
    by_cases hid : id = dest
    · subst hid
      simp [hlink]
    · simp [hid, Ne.symm hid]
  · next hlink =>
    have hnot : (decide (id = dest) && s.layer.hasLink dest) = false := by
      by_cases hid : id = dest
      · rw [← hid, Bool.eq_false_iff.2 hlink, Bool.and_false]
      · rw [decide_eq_false hid, Bool.false_and]
    rw [hnot, Bool.not_false]
    exact ⟨h.around, h.tracked, (Bool.and_true _).symm⟩

theorem tracks_establishLink
    (hseat : seat = (fun p => .idle (.outbox p)) ∨ seat = fun _ => .entered)
    (hP : ∀ {m after : SlotMac}, (∀ other, other ≠ id → after.isLinking other = m.isLinking other) →
      P m → P after) :
    (SlotMac.establishLink id : Call (Inside SlotMac Station) Unit).Preserves
      (Tracks seat dest bound P) := by
  refine (steady_tracks hseat fun _ _ h => hP fun other _ => h.isLinking other).calm.establishLink
    (fun t ht => ?_) fun t ht hnew => ?_
  · obtain ⟨htracked, hothers⟩ := ht.tracked.establishLink id t.layer.links t.layer.schedule
      fun _ _ => rfl
    exact ⟨ht.around, htracked, hP hothers ht.holds⟩
  · obtain ⟨htracked, hothers⟩ := ht.tracked.establishLink id (t.layer.links ++ [id])
      (t.layer.schedule ++ [id]) fun other hother => by
        rw [List.contains_append, hasLink]
        simp [hother]
    exact ⟨ht.around, htracked, hP hothers ht.holds⟩

/-- The packet of `dest` has this station set up a link to it. -/
def setsUp (m : SlotMac) (dest : Address) (packet : Packet) : Bool :=
  m.hears packet && packet.origin = dest &&
    ((summarize m.config.id packet).isRequest || (summarize m.config.id packet).isReply)

theorem Tracks.receive (h : Tracks seat dest bound (fun _ => True) s)
    (hseat : seat = (fun p => .idle (.outbox p)) ∨ seat = fun _ => .entered) (packet : Packet) :
    Tracks seat dest bound (fun m => m.isLinking dest =
        (s.layer.isLinking dest || s.layer.setsUp dest packet)) (SlotMac.receive packet s).2 := by
  have hsteady : Steady (Tracks seat dest bound fun m => m.isLinking dest =
      s.layer.isLinking dest) := steady_tracks hseat (ignoresTables_isLinking dest _)
  have hsame : Tracks seat dest bound (fun m => m.isLinking dest = s.layer.isLinking dest) s :=
    ⟨h.around, h.tracked, rfl⟩
  by_cases horigin : packet.origin = dest
  · cases hlink : (summarize s.layer.config.id packet).isRequest ||
        (summarize s.layer.config.id packet).isReply with
    | false =>
      rw [setsUp, hlink, Bool.and_false, Bool.or_false]
      exact hsteady.receive_silent hlink hsame
    | true =>
      have hkeeps : (SlotMac.receive packet : Call (Inside SlotMac Station) Unit).Preserves
          (Tracks seat dest bound fun _ => True) := (steady_tracks hseat fun _ _ _ _ => trivial).receive
        (tracks_establishLink hseat fun _ _ => trivial)
      have hafter := (hkeeps s h).1
      refine ⟨hafter.around, hafter.tracked, ?_⟩
      cases hhears : s.layer.hears packet with
      | false => simp [receive_eq, setsUp, hhears]
      | true =>
        obtain ⟨m, around⟩ := s
        obtain ⟨x, p, rfl, -⟩ := h.around
        have htaken : (takeDown packet ⟨m, x.around (seat p)⟩).1.isOk = true := by
          rw [takeDown_apply]
          rfl
        have hlinked := hasLink_receive hhears hlink htaken
        rw [isLinking_eq, ← horigin, hlinked]
        simp [setsUp, hhears, hlink]
  · have hkeeps : (SlotMac.receive packet : Call (Inside SlotMac Station) Unit).Preserves
        (Tracks seat dest bound fun m => m.isLinking dest = s.layer.isLinking dest) :=
      hsteady.receive (tracks_establishLink hseat fun hothers hm =>
        (hothers dest (Ne.symm horigin)).trans hm)
    rw [setsUp, decide_eq_false horigin, Bool.and_false, Bool.false_and, Bool.or_false]
    exact (hkeeps s hsame).1

end SlotMac

/-! ## Stations -/

namespace Station

/-- The MAC that links are set up by. -/
def slotMac? (s : Station) : Option SlotMac := s.mac.idle?.bind MacLayer.slotted?

/-- A link to `dest` is established, asked for, or to be asked for. -/
def isLinking (dest : Address) (s : Station) : Bool := s.slotMac?.any fun m => m.isLinking dest

/-- How many datagrams the RLC has queued for `dest`. -/
def numQueued (dest : Address) (s : Station) : Nat :=
  (s.rlc.idle?.bind RlcLayer.segmenting?).elim 0 fun r => r.numQueued dest

/-- The call tears down an established link to `dest`. -/
def tearsDown (dest : Address) (s : Station) : StationCall → Bool
  | .removeLink id => id = dest && s.slotMac?.any fun m => m.hasLink dest
  | _ => false

/-- The call is a reason for a link to `dest`: a datagram for it is accepted, or it is heard to ask
for a link or to grant one. -/
def seeksLink (dest : Address) (s : Station) : StationCall → Bool
  | .send datagram id priority => id = dest && (send datagram id priority s).1.isOk
  | .receive t => s.slotMac?.any fun m => m.setsUp dest t.packet
  | _ => false

/-- In a run a link to `dest` is torn down, and after that there is no reason for another one. Whether
this was so already at its start says `forsaken`. -/
def isForsaken (dest : Address) (s : Station) (forsaken : Bool) : List StationCall → Bool
  | [] => forsaken
  | call :: rest => isForsaken dest (s.step call)
      (s.tearsDown dest call || forsaken && !s.seeksLink dest call) rest

variable {dest : Address} {x : Upper} {m : SlotMac} {p : OutboxPhy}

/-- **One call.** A station is given a place in the tables of the MAC when there is a reason for it,
and loses it when its link is torn down. Without a reason, no queue gets longer. -/
theorem exists_step (hdest : dest.isSymbolic = false) (hm : m.IsTracked) (call : StationCall) :
    ∃ (y : Upper) (after : SlotMac) (q : OutboxPhy),
      (x.station m p).step call = y.station after q ∧ after.IsTracked ∧
      after.isLinking dest = ((m.isLinking dest || (x.station m p).seeksLink dest call) &&
        !(x.station m p).tearsDown dest call) ∧
      ((x.station m p).seeksLink dest call = false →
        y.rlc.numQueued dest ≤ x.rlc.numQueued dest) := by
  have hsame : ∀ linking : Bool, linking = ((linking || false) && !false) := by decide
  cases call with
  | send datagram id priority =>
    rcases send_cases x m p datagram id priority with ⟨bits, hsend⟩ | ⟨e, hsend⟩
    · obtain ⟨htracked, hlinking⟩ := hm.notifyOutgoing bits id
      refine ⟨_, _, p, congrArg Prod.snd hsend, htracked, ?_, fun hseeks => ?_⟩
      · rw [hlinking, seeksLink, hsend]
        by_cases hid : dest = id
        · simp [← hid, hdest, Except.isOk, Except.toBool, tearsDown]
        · simp [hid, Ne.symm hid, tearsDown]
      · have hid : id ≠ dest := by
          rintro rfl
          simp [seeksLink, hsend, Except.isOk, Except.toBool] at hseeks
        change (x.rlc.enqueue datagram id priority).numQueued dest ≤ _
        rw [SegmentingRlc.numQueued, SegmentingRlc.queue_enqueue, if_neg hid]
        exact Nat.le_refl _
    · refine ⟨x, m, p, congrArg Prod.snd hsend, hm, ?_, fun _ => Nat.le_refl _⟩
      simp [seeksLink, hsend, Except.isOk, Except.toBool, tearsDown]
  | update =>
    have hbefore : SlotMac.Tracks (fun p => .idle (.outbox p)) dest (x.rlc.numQueued dest)
        (fun _ => True) ⟨m, x.around (.idle (.outbox (p.tick 1)))⟩ :=
      ⟨⟨x, p.tick 1, rfl, Nat.le_refl _⟩, hm, trivial⟩
    have htracks := hbefore.update
    rw [step, update_apply]
    generalize SlotMac.update ⟨m, x.around (.idle (.outbox (p.tick 1)))⟩ = answer at htracks ⊢
    obtain ⟨r, after, around⟩ := answer
    obtain ⟨⟨y, q, rfl, hle⟩, htracked, hlinking⟩ := htracks
    exact ⟨y, after, q, rfl, htracked, hlinking.trans (hsame _), fun _ => hle⟩
  | receive t =>
    have hbefore : SlotMac.Tracks (fun _ => .entered) dest (x.rlc.numQueued dest) (fun _ => True)
        ⟨m, x.around .entered⟩ := ⟨⟨x, p, rfl, Nat.le_refl _⟩, hm, trivial⟩
    have htracks := hbefore.receive (Or.inr rfl) t.packet
    rw [step, receive_apply]
    generalize SlotMac.receive t.packet ⟨m, x.around .entered⟩ = answer at htracks ⊢
    obtain ⟨r, after, around⟩ := answer
    obtain ⟨⟨y, _, rfl, hle⟩, htracked, hlinking⟩ := htracks
    exact ⟨y, after, p, rfl, htracked, hlinking.trans (Bool.and_true _).symm, fun _ => hle⟩
  | removeLink id =>
    have hbefore : SlotMac.Tracks (fun p => .idle (.outbox p)) dest (x.rlc.numQueued dest)
        (fun _ => True) ⟨m, x.around (.idle (.outbox p))⟩ :=
      ⟨⟨x, p, rfl, Nat.le_refl _⟩, hm, trivial⟩
    have htracks := hbefore.removeLink (Or.inl rfl) id
    rw [step, removeLink_apply]
    generalize SlotMac.removeLink id ⟨m, x.around (.idle (.outbox p))⟩ = answer at htracks ⊢
    obtain ⟨r, after, around⟩ := answer
    obtain ⟨⟨y, q, rfl, hle⟩, htracked, hlinking⟩ := htracks
    refine ⟨y, after, q, rfl, htracked, hlinking.trans ?_, fun _ => hle⟩
    exact congrArg (· && _) (Bool.or_false _).symm
  | setPosition position quality =>
    exact ⟨x, m.setPosition position quality, p, rfl, hm, hsame _, fun _ => Nat.le_refl _⟩
  | tune frequency =>
    obtain ⟨q, htuned⟩ := exists_tune x m p frequency
    exact ⟨x, m, q, htuned, hm, hsame _, fun _ => Nat.le_refl _⟩
  | drain => exact ⟨x, m, p.drain.2, rfl, hm, hsame _, fun _ => Nat.le_refl _⟩
  | collect =>
    exact ⟨{ x with net := x.net.drain.2 }, m, p, rfl, hm, hsame _, fun _ => Nat.le_refl _⟩

/-- The MAC of the station is in order, and a station that datagrams are queued for has its place in
the tables, unless it is forsaken. A forsaken station has none. -/
def KeepsPlace (dest : Address) (forsaken : Bool) (s : Station) : Prop :=
  ∃ (x : Upper) (m : SlotMac) (p : OutboxPhy), s = x.station m p ∧ m.IsTracked ∧
    (forsaken = true → m.isLinking dest = false) ∧
    (forsaken = false → 0 < x.rlc.numQueued dest → m.isLinking dest = true)

theorem KeepsPlace.step {forsaken : Bool} {s : Station} (h : s.KeepsPlace dest forsaken)
    (hdest : dest.isSymbolic = false) (call : StationCall) : (s.step call).KeepsPlace dest
      (s.tearsDown dest call || forsaken && !s.seeksLink dest call) := by
  obtain ⟨x, m, p, rfl, hm, hforsaken, hplace⟩ := h
  obtain ⟨y, after, q, hstep, hafter, hlinking, hqueued⟩ := exists_step (x := x) (p := p) hdest hm call
  refine ⟨y, after, q, hstep, hafter, ?_⟩
  rw [hlinking]
  cases (x.station m p).tearsDown dest call with
  | true => simp
  | false =>
    cases hseeks : (x.station m p).seeksLink dest call with
    | true => simp
    | false =>
      have hle := hqueued hseeks
      simp only [Bool.or_false, Bool.not_false, Bool.and_true, Bool.false_or]
      exact ⟨hforsaken, fun hnot hpos => hplace hnot (Nat.lt_of_lt_of_le hpos hle)⟩

theorem KeepsPlace.run {forsaken : Bool} {s : Station} (h : s.KeepsPlace dest forsaken)
    (hdest : dest.isSymbolic = false) (calls : List StationCall) :
    (s.run calls).KeepsPlace dest (s.isForsaken dest forsaken calls) := by
  induction calls generalizing s forsaken with
  | nil => exact h
  | cons call rest ih => exact ih (h.step hdest call)

/-- **A place for what is queued.** In every state of a run, a station that datagrams are queued for
is linked, asked for a link or to be asked, unless its link was torn down and neither a datagram for it
was accepted since, nor was it heard to ask for a link or to grant one. -/
theorem isLinking_of_numQueued {config : StationConfig} {s : Station} (hs : ofConfig config = .ok s)
    (calls : List StationCall) (hdest : dest.isSymbolic = false)
    (hqueued : 0 < (s.run calls).numQueued dest) :
    (s.run calls).isLinking dest = !s.isForsaken dest false calls := by
  obtain ⟨-, -, rfl⟩ := ofConfig_eq_ok_iff.1 hs
  have hmade : (made config).KeepsPlace dest false :=
    ⟨_, _, _, rfl, fun _ hasked => (by cases hasked), nofun, fun _ hpos => (by cases hpos)⟩
  obtain ⟨x, m, p, hrun, -, hforsaken, hplace⟩ := hmade.run hdest calls
  rw [hrun] at hqueued ⊢
  change m.isLinking dest = _
  cases h : (made config).isForsaken dest false calls with
  | true => exact hforsaken h
  | false => exact hplace h hqueued

/-- Settings of station 1 that are ordinary in all else. -/
def ofFirst : StationConfig := { (default : StationConfig) with mac := ⟨⟨1⟩, 0, 0, 0⟩ }

/-- A datagram is queued for station 2, which grants a link, and the link is torn down before it is
served. -/
def abandoned : List StationCall :=
  [.send ⟨#[7]⟩ ⟨2⟩ 0, .receive ⟨SlotMac.heard ⟨2⟩ (.linkReply SlotMac.toFirst default), 0⟩,
    .removeLink ⟨2⟩]

/-- Another datagram has the station asked again, and then both are queued. -/
theorem isLinking_of_numQueued_again :
    0 < ((made ofFirst).run (abandoned ++ [.update, .send ⟨#[8]⟩ ⟨2⟩ 0])).numQueued ⟨2⟩ ∧
      ((made ofFirst).run (abandoned ++ [.update, .send ⟨#[8]⟩ ⟨2⟩ 0])).isLinking ⟨2⟩ =
        !(made ofFirst).isForsaken ⟨2⟩ false (abandoned ++ [.update, .send ⟨#[8]⟩ ⟨2⟩ 0]) ∧
      (made ofFirst).isForsaken ⟨2⟩ false (abandoned ++ [.update, .send ⟨#[8]⟩ ⟨2⟩ 0]) = false :=
  ⟨by decide +kernel,
    isLinking_of_numQueued (show ofConfig ofFirst = .ok (made ofFirst) from rfl) _ rfl
      (by decide +kernel),
    by decide +kernel⟩

/-- A datagram stays queued for a station that is neither linked nor asked nor to be asked. -/
theorem not_isLinking_abandoned :
    ¬ (∀ (config : StationConfig) (s : Station) (calls : List StationCall) (dest : Address),
        ofConfig config = .ok s → dest.isSymbolic = false → 0 < (s.run calls).numQueued dest →
          (s.run calls).isLinking dest = true) ∧
      ((made ofFirst).run abandoned).numQueued ⟨2⟩ = 1 ∧
      ((made ofFirst).run abandoned).isLinking ⟨2⟩ = false := by
  refine ⟨fun h => ?_, by decide +kernel, by decide +kernel⟩
  have hlinking := h ofFirst (made ofFirst) abandoned ⟨2⟩ rfl rfl (by decide +kernel)
  revert hlinking
  decide +kernel

end Station

end DataLink
