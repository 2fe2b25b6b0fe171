import DataLink.Proofs.Station.Sending

/-!
# Neighbors that fall silent

How many hops a neighbor is from the ground is kept twice in a station. The neighbor table of the MAC
takes it from beacons and forgets a station that is silent for too long. The network layer is told of
every beacon and keeps what it was told: it knows the hop count that a neighbor *last reported*,
however long ago, and nothing tells it that a neighbor is gone.

So what both know of one station depends on three things that happened (`Heard`): the slots that have
passed, its last beacon, and when it was last heard since.

**Theorem (`Station.hops_agree_unless_forgotten`).** In every state of a run the network layer has the
hop count of the last beacon. The MAC has the same one, unless it has forgotten the station since; in
that case it has none, while the network layer goes on to count on the station.
-/

namespace DataLink

open Upper (KnowsAlike)

/-! ## Hop counts -/

namespace RoutingNet

variable {n : RoutingNet} {id : Address}

theorem get?_hear (n : RoutingNet) (packet : Packet) (id : Address) :
    (n.hear packet).neighborHops.get? id =
      if packet.origin = id then
        match packet.beacon? with
        | some b => some b.hops.val
        | none => n.neighborHops.get? id
      else n.neighborHops.get? id := by
  unfold hear
  cases packet.beacon? with
  | none => simp
  | some beacon => simp only [report, Table.get?_insert]

theorem hops_le {hops : Nat} (h : n.neighborHops.get? id = some hops) : n.hops ≤ hops + 1 := by
  have hmem : hops ∈ n.neighborHops.entries.map Prod.snd :=
    List.mem_map.2 ⟨(id, hops), Table.mem_entries_iff.2 h, rfl⟩
  unfold RoutingNet.hops
  split
  · exact Nat.zero_le _
  · cases hmin : (n.neighborHops.entries.map Prod.snd).min? with
    | none =>
      rw [List.min?_eq_none_iff] at hmin
      rw [hmin] at hmem
      cases hmem
    | some nearest =>
      have hle : nearest ≤ hops := (List.min?_eq_some_iff.1 hmin).2 hops hmem
      simp only
      omega

/-- A bound that all reports and the highest count respect, and that is no bound for a ground station,
is one for the station. -/
theorem le_hops {bound : Nat} (hground : n.isGround = true → bound = 0)
    (hhighest : bound ≤ HopCount.highest.val)
    (hreported : ∀ id hops, n.neighborHops.get? id = some hops → bound ≤ hops + 1) :
    bound ≤ n.hops := by
  unfold RoutingNet.hops
  split
  · next h => exact Nat.le_of_eq (hground h)
  · cases hmin : (n.neighborHops.entries.map Prod.snd).min? with
    | none => exact hhighest
    | some nearest =>
      obtain ⟨⟨id, hops⟩, hmem, rfl⟩ := List.mem_map.1 (List.min?_eq_some_iff.1 hmin).1
      exact Nat.le_min.2 ⟨hreported id hops (Table.mem_entries_iff.1 hmem), hhighest⟩

end RoutingNet

/-! ## What was heard of one station -/

/-- What has happened that is about one other station. -/
structure Heard where
  /-- The slots that have passed. -/
  slot : Nat
  /-- The hop count in its last beacon. -/
  hops : Option Nat
  /-- The slot in which it was last heard, as long as that is not too long ago, since its last beacon
  at least. -/
  seen : Option Nat
deriving DecidableEq, Repr

namespace Heard

/-- Nothing has happened. -/
def nothing : Heard := ⟨0, none, none⟩

/-- A slot has passed. The station is forgotten if it was silent for longer than the MAC waits. -/
def pass (config : MacConfig) (h : Heard) : Heard where
  slot := h.slot + 1
  hops := h.hops
  seen := h.seen.filter fun seen =>
    config.neighborTimeout = 0 ∨ h.slot + 1 ≤ seen + config.neighborTimeout

/-- A packet of the station has come. If it was forgotten, it takes a beacon to be seen again. -/
def hear (packet : Packet) (h : Heard) : Heard :=
  match packet.beacon? with
  | some beacon => { h with hops := some beacon.hops.val, seen := some h.slot }
  | none => { h with seen := h.seen.map fun _ => h.slot }

/-- What has happened to a station with `config` that is about `id`, with one call more. -/
def after (config : MacConfig) (id : Address) (h : Heard) : StationCall → Heard
  | .update => h.pass config
  | .receive t =>
    if id.isSet ∧ id ≠ config.id ∧ t.packet.origin = id then h.hear t.packet else h
  | _ => h

/-- All that has happened in a run that is about `id`. -/
def ofCalls (config : MacConfig) (id : Address) (calls : List StationCall) : Heard :=
  calls.foldl (Heard.after config id) nothing

/-- There was a beacon once, but the station fell silent. -/
def isForgotten (h : Heard) : Bool := h.hops.isSome && h.seen.isNone

/-- What the MAC and the network layer know of `id` is what has happened. -/
structure Matches (h : Heard) (id : Address) (s : Inside SlotMac Upper) : Prop where
  slot : s.layer.slot = h.slot
  reported : s.around.net.neighborHops.get? id = h.hops
  unknown : s.layer.neighbors.entries.get? id = none → h.seen = none
  known : ∀ n, s.layer.neighbors.entries.get? id = some n →
    h.seen = some n.lastSeen ∧ h.hops = some n.hops.val ∧ n.lastSeen ≤ h.slot

variable {h : Heard} {id : Address} {s t : Inside SlotMac Upper}

theorem Matches.congr (hmatches : h.Matches id s) (hknows : KnowsAlike s t) : h.Matches id t := by
  refine ⟨hknows.slot.trans hmatches.slot, ?_, ?_, ?_⟩
  · rw [hknows.reports]
    exact hmatches.reported
  · rw [hknows.neighbors]
    exact hmatches.unknown
  · rw [hknows.neighbors]
    exact hmatches.known

theorem Matches.pass (hmatches : h.Matches id s) :
    (h.pass s.layer.config).Matches id (Upper.pass s) := by
  have hforget : (Upper.pass s).layer.neighbors.entries.get? id =
      (s.layer.neighbors.entries.get? id).filter fun n =>
        s.layer.config.neighborTimeout = 0 ∨
          s.layer.slot + 1 ≤ n.lastSeen + s.layer.config.neighborTimeout := by
    unfold Upper.pass SlotMac.forgetSilent
    simp only
    split
    · next hsilent =>
      rw [NeighborTable.get?_removeUnseenSince]
      congr 1
      funext n
      rw [decide_eq_decide]
      omega
    · next hnot =>
      have hall : ∀ n : Neighbor, decide (s.layer.config.neighborTimeout = 0 ∨
          s.layer.slot + 1 ≤ n.lastSeen + s.layer.config.neighborTimeout) = true := by
        intro n
        rw [decide_eq_true_eq]
        omega
      cases s.layer.neighbors.entries.get? id with
      | none => rfl
      | some n => rw [Option.filter_some, hall n, if_pos rfl]
  have hslot : (Upper.pass s).layer.slot = s.layer.slot + 1 := by
    unfold Upper.pass SlotMac.forgetSilent
    simp only
    split <;> rfl
  refine ⟨by rw [hslot, hmatches.slot]; rfl, hmatches.reported, ?_, ?_⟩
  · intro hnone
    rw [hforget] at hnone
    cases hget : s.layer.neighbors.entries.get? id with
    | none => rw [Heard.pass, hmatches.unknown hget, Option.filter_none]
    | some n =>
      rw [hget, Option.filter_eq_none_iff] at hnone
      rw [Heard.pass, (hmatches.known n hget).1, Option.filter_eq_none_iff, ← hmatches.slot]
      intro seen hseen
      cases hseen
      exact hnone n rfl
  · intro n hsome
    rw [hforget, Option.filter_eq_some_iff] at hsome
    obtain ⟨hget, hrecent⟩ := hsome
    obtain ⟨hseen, hhops, hle⟩ := hmatches.known n hget
    refine ⟨?_, hhops, Nat.le_succ_of_le hle⟩
    rw [Heard.pass, hseen, Option.filter_eq_some_iff, ← hmatches.slot]
    exact ⟨rfl, hrecent⟩

theorem Matches.hear_own (hmatches : h.Matches id s) {packet : Packet} (horigin : packet.origin = id)
    (hhears : s.layer.hears packet = true) : (h.hear packet).Matches id (Upper.hear packet s) := by
  have hreported := s.around.net.get?_hear packet id
  have hentry := s.layer.neighbors.get?_hear packet s.layer.slot id
  rw [if_pos horigin] at hreported hentry
  rw [Upper.hear, if_pos hhears]
  cases hbeacon : packet.beacon? with
  | some beacon =>
    rw [hbeacon] at hreported hentry
    rw [Heard.hear, hbeacon]
    refine ⟨hmatches.slot, hreported, fun hnone => ?_, fun n hsome => ?_⟩
    · rw [hentry] at hnone
      cases hnone
    · rw [hentry] at hsome
      cases hsome
      exact ⟨congrArg some hmatches.slot.symm, rfl, Nat.le_of_eq hmatches.slot⟩
  | none =>
    rw [hbeacon] at hreported hentry
    rw [Heard.hear, hbeacon]
    refine ⟨hmatches.slot, hreported.trans hmatches.reported, fun hnone => ?_, fun n hsome => ?_⟩
    · rw [hentry, Option.map_eq_none_iff] at hnone
      rw [hmatches.unknown hnone]
      rfl
    · rw [hentry, Option.map_eq_some_iff] at hsome
      obtain ⟨old, hget, rfl⟩ := hsome
      obtain ⟨hseen, hhops, hle⟩ := hmatches.known old hget
      have hnow : max old.lastSeen s.layer.slot = h.slot := by
        rw [hmatches.slot]
        exact Nat.max_eq_right hle
      refine ⟨?_, hhops, Nat.le_of_eq hnow⟩
      simp only [hseen, Option.map_some, hnow]

theorem Matches.hear_other (hmatches : h.Matches id s) {packet : Packet}
    (horigin : packet.origin ≠ id) : h.Matches id (Upper.hear packet s) := by
  unfold Upper.hear
  split
  · refine ⟨hmatches.slot, ?_, ?_, ?_⟩
    · rw [RoutingNet.get?_hear, if_neg horigin]
      exact hmatches.reported
    · rw [NeighborTable.get?_hear, if_neg horigin]
      exact hmatches.unknown
    · rw [NeighborTable.get?_hear, if_neg horigin]
      exact hmatches.known
  · exact hmatches

theorem Matches.hear (hmatches : h.Matches id s) (packet : Packet) :
    (if id.isSet ∧ id ≠ s.layer.config.id ∧ packet.origin = id then h.hear packet else h).Matches id
      (Upper.hear packet s) := by
  by_cases horigin : packet.origin = id
  · have hhears : s.layer.hears packet = true ↔ id.isSet = true ∧ id ≠ s.layer.config.id := by
      rw [SlotMac.hears, Bool.and_eq_true, bne_iff_ne, horigin]
    by_cases hcond : s.layer.hears packet = true
    · rw [if_pos ⟨(hhears.1 hcond).1, (hhears.1 hcond).2, horigin⟩]
      exact hmatches.hear_own horigin hcond
    · rw [if_neg fun hall => hcond (hhears.2 ⟨hall.1, hall.2.1⟩), Upper.hear, if_neg hcond]
      exact hmatches
  · rw [if_neg fun hall => horigin hall.2.2]
    exact hmatches.hear_other horigin

theorem Matches.after (hmatches : h.Matches id s) (call : StationCall) :
    (h.after s.layer.config id call).Matches id (call.inform s) := by
  cases call with
  | update => exact hmatches.pass
  | receive t => exact hmatches.hear t.packet
  | _ => exact hmatches

end Heard

/-! ## Stations -/

namespace Station

/-- The hop count of `id` that the network layer has. -/
def reportedHops (id : Address) (s : Station) : Option Nat :=
  (s.net.idle?.bind NetLayer.routing?).bind fun n => (n.neighborHops? id).toOption

/-- The hop count of `id` that the neighbor table of the MAC has. -/
def knownHops (id : Address) (s : Station) : Option Nat :=
  s.slotMac?.bind fun m => (m.neighbors.get? id).toOption.map fun n => n.hops.val

/-- Hops from the station to the nearest ground station, as its network layer counts them. -/
def hops? (s : Station) : Option Nat := (s.net.idle?.bind NetLayer.routing?).map RoutingNet.hops

variable {config : StationConfig} {s : Station} {id : Address} {x : Upper} {m : SlotMac}
  {p : OutboxPhy} {h : Heard}

theorem reportedHops_station (x : Upper) (m : SlotMac) (p : OutboxPhy) (id : Address) :
    (x.station m p).reportedHops id = x.net.neighborHops.get? id := by
  change (x.net.neighborHops? id).toOption = _
  rw [RoutingNet.neighborHops?]
  cases x.net.neighborHops.get? id <;> rfl

theorem knownHops_station (x : Upper) (m : SlotMac) (p : OutboxPhy) (id : Address) :
    (x.station m p).knownHops id = (m.neighbors.entries.get? id).map fun n => n.hops.val := by
  change (m.neighbors.get? id).toOption.map _ = _
  rw [NeighborTable.get?]
  cases m.neighbors.entries.get? id <;> rfl

/-- What has happened that is about `id` is what the station knows of it. -/
def Remembers (config : StationConfig) (id : Address) (h : Heard) (s : Station) : Prop :=
  ∃ (m : SlotMac) (x : Upper) (p : OutboxPhy), s = x.station m p ∧ m.config = config.mac ∧
    m.IsTracked ∧ h.Matches id ⟨m, x⟩

/-- **One call.** A slot has the station forget, a packet has it remember, and nothing else is about
its neighbors. -/
theorem Remembers.step (hs : s.Remembers config id h) (call : StationCall) :
    (s.step call).Remembers config id (h.after config.mac id call) := by
  obtain ⟨m, x, p, rfl, hconfig, hm, hmatches⟩ := hs
  obtain ⟨after, y, q, hstep, htracked, -, -, hknows⟩ := exists_tracked hm x p call
  have hinformed := hmatches.after call
  refine ⟨after, y, q, hstep, ?_, htracked, ?_⟩
  · rw [hknows.config, call.config_inform, hconfig]
  · rw [← hconfig]
    exact hinformed.congr hknows

theorem Remembers.run (hs : s.Remembers config id h) (calls : List StationCall) :
    (s.run calls).Remembers config id (calls.foldl (Heard.after config.mac id) h) := by
  induction calls generalizing s h with
  | nil => exact hs
  | cons call rest ih => exact ih (hs.step call)

/-- **Hop counts of a neighbor.** In every state of a run the network layer has the hop count of the
last beacon of a station. The MAC has the same one, unless it has forgotten the station, and then it
has none. The network layer counts on the station in either case. -/
theorem hops_agree_unless_forgotten (hs : ofConfig config = .ok s) (calls : List StationCall)
    (id : Address) :
    let t := s.run calls
    let heard := Heard.ofCalls config.mac id calls
    (t.reportedHops id = t.knownHops id ↔ heard.isForgotten = false) ∧
      t.reportedHops id = heard.hops ∧
      t.knownHops id = (if heard.isForgotten then none else heard.hops) ∧
      ∀ hops, t.reportedHops id = some hops → ∃ nearest, t.hops? = some nearest ∧
        nearest ≤ hops + 1 := by
  obtain ⟨-, -, rfl⟩ := ofConfig_eq_ok_iff.1 hs
  have hmade : (made config).Remembers config id .nothing :=
    ⟨_, _, _, rfl, rfl, nofun, rfl, rfl, fun _ => rfl, nofun⟩
  obtain ⟨m, x, p, hrun, -, -, hmatches⟩ := hmade.run calls
  intro t heard
  have hreported : t.reportedHops id = heard.hops := by
    rw [show t = _ from hrun, reportedHops_station]
    exact hmatches.reported
  have hknown : t.knownHops id = if heard.isForgotten then none else heard.hops := by
    rw [show t = _ from hrun, knownHops_station]
    cases hget : m.neighbors.entries.get? id with
    | none =>
      have hseen : heard.seen = none := hmatches.unknown hget
      cases hhops : heard.hops <;> simp [Heard.isForgotten, hhops, hseen]
    | some n =>
      obtain ⟨hseen, hhops, -⟩ := hmatches.known n hget
      have hseen' : heard.seen = some n.lastSeen := hseen
      have hhops' : heard.hops = some n.hops.val := hhops
      simp [Heard.isForgotten, hhops', hseen']
  refine ⟨?_, hreported, hknown, fun hops hhops => ?_⟩
  · rw [hreported, hknown]
    cases hforgotten : heard.isForgotten with
    | false => simp
    | true =>
      rw [Heard.isForgotten, Bool.and_eq_true] at hforgotten
      obtain ⟨hops, hhops⟩ := Option.isSome_iff_exists.1 hforgotten.1
      simp [hhops]
  · rw [show t = _ from hrun, reportedHops_station] at hhops
    rw [show t = _ from hrun]
    exact ⟨x.net.hops, rfl, RoutingNet.hops_le hhops⟩

/-- Settings of station 1, which forgets a neighbor that is silent for more than a slot. -/
def impatient : StationConfig := { (default : StationConfig) with mac := ⟨⟨1⟩, 0, 0, 1⟩ }

/-- A beacon of ground station 2 is heard, and then nothing for two slots. -/
def silenced : List StationCall :=
  [.receive ⟨SlotMac.heard ⟨2⟩ (.beacon { (default : BeaconHeader) with hops := ⟨0⟩ }), 0⟩,
    .update, .update]

/-- The MAC forgets the ground station, and the network layer counts on it. -/
theorem hops_agree_unless_forgotten_silenced :
    ((made impatient).run silenced).reportedHops ⟨2⟩ = some 0 ∧
      ((made impatient).run silenced).knownHops ⟨2⟩ = none ∧
      ((made impatient).run (silenced.take 2)).knownHops ⟨2⟩ = some 0 ∧
      (Heard.ofCalls impatient.mac ⟨2⟩ silenced).isForgotten = true := by
  have hmade : ofConfig impatient = .ok (made impatient) := rfl
  obtain ⟨-, hreported, hknown, -⟩ := hops_agree_unless_forgotten hmade silenced ⟨2⟩
  obtain ⟨-, -, hbefore, -⟩ := hops_agree_unless_forgotten hmade (silenced.take 2) ⟨2⟩
  refine ⟨hreported.trans (by decide +kernel), hknown.trans (by decide +kernel),
    hbefore.trans (by decide +kernel), by decide +kernel⟩

/-- The two need not agree: a ground station that was forgotten is still one hop away. -/
theorem not_hops_agree_silenced :
    ¬ (∀ (config : StationConfig) (s : Station) (calls : List StationCall) (id : Address),
        ofConfig config = .ok s → (s.run calls).reportedHops id = (s.run calls).knownHops id) ∧
      ((made impatient).run silenced).hops? = some 1 := by
  refine ⟨fun h => ?_, by decide +kernel⟩
  have hagree := h impatient (made impatient) silenced ⟨2⟩ rfl
  revert hagree
  decide +kernel

end Station

end DataLink
