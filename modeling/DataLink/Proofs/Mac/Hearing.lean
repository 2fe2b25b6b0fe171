import DataLink.Proofs.Mac.Schedule
import DataLink.Proofs.Neighbors
import Mathlib.Data.List.Basic
import Mathlib.Data.List.Chain

/-!
# How long a neighbor is remembered

A MAC enters a neighbor into its table when it hears a beacon of it, and forgets it when it was silent
for more than `neighborTimeout` slots. The table only keeps when a neighbor was last seen. What that
comes to is said by all that was ever heard of a station (`Hearing`): it is *remembered*
(`Hearing.IsRemembered`) if there is a beacon from which on it was never silent for too long.

Only two things the MAC does are about its neighbors. Where a packet is taken down, its sender is
entered or refreshed (`knows_receive`). Where a slot begins, those that were silent too long are
forgotten (`knows_update`); a slot that fails may not get as far. Everything else is calm.

**Theorem (`SlotMac.contains_iff_isRemembered`).** Over any surroundings, and as long as no slot fails:
in every state of a run the stations in the table are those that are remembered, and each was last seen
in the slot of the latest packet that was heard of it.
-/

namespace DataLink

/-! ## What was heard -/

/-- A packet of a station that was heard: the slot, and whether there was a beacon in it. -/
structure Sighting where
  slot : Nat
  isBeacon : Bool
deriving DecidableEq

/-- What was heard of a station, and which slot it is now. -/
structure Hearing where
  now : Nat
  heard : List Sighting
deriving DecidableEq

/-- The packet comes from `id`, and that is neither nobody nor `self`. -/
def Packet.isHeardFrom (self id : Address) (packet : Packet) : Bool :=
  packet.origin == id && id.isSet && id != self

namespace Hearing

variable {ε : Type} {timeout : Nat} {h : Hearing}

/-- What the station `self` has heard of `id` after one call more. -/
def after (self id : Address) (h : Hearing) : MacCall ε → Hearing
  | .update => { h with now := h.now + 1 }
  | .receive packet =>
    if packet.isHeardFrom self id then
      { h with heard := h.heard ++ [⟨h.now, packet.beacon?.isSome⟩] }
    else h
  | _ => h

/-- What the station `self` has heard of `id` in a run. -/
def ofCalls (self id : Address) (calls : List (MacCall ε)) : Hearing :=
  calls.foldl (after self id) ⟨0, []⟩

/-- The sightings begin with a beacon. Neither two that follow each other nor the last one and now lie
more than `timeout` slots apart. -/
structure IsFresh (timeout now : Nat) (sightings : List Sighting) : Prop where
  beacon : ∃ first, sightings.head? = some first ∧ first.isBeacon = true
  gaps : sightings.IsChain fun earlier later => later.slot ≤ earlier.slot + timeout
  latest : ∀ last, sightings.getLast? = some last → now ≤ last.slot + timeout

/-- From some beacon on, the station was never silent for more than `timeout` slots. -/
def IsRemembered (timeout : Nat) (h : Hearing) : Prop :=
  ∃ since, since <:+ h.heard ∧ IsFresh timeout h.now since

theorem IsFresh.ne_nil {now : Nat} {sightings : List Sighting} (h : IsFresh timeout now sightings) :
    sightings ≠ [] := by
  intro hnil
  obtain ⟨first, hfirst, -⟩ := h.beacon
  simp [hnil] at hfirst

theorem not_isRemembered_nil (timeout now : Nat) : ¬ IsRemembered timeout ⟨now, []⟩ := by
  rintro ⟨since, hsince, hfresh⟩
  exact hfresh.ne_nil (List.suffix_nil.1 hsince)

theorem isRemembered_beacon (timeout : Nat) (h : Hearing) :
    IsRemembered timeout { h with heard := h.heard ++ [⟨h.now, true⟩] } := by
  refine ⟨[⟨h.now, true⟩], List.suffix_append _ _, ?_⟩
  constructor <;> simp

/-- Other traffic keeps a station remembered, and has none remembered. -/
theorem isRemembered_traffic_iff :
    IsRemembered timeout { h with heard := h.heard ++ [⟨h.now, false⟩] } ↔
      h.IsRemembered timeout := by
  constructor
  · rintro ⟨since, hsince, hfresh⟩
    rcases List.suffix_concat_iff.1 hsince with rfl | ⟨earlier, rfl, hearlier⟩
    · exact absurd rfl hfresh.ne_nil
    · refine ⟨earlier, hearlier, ?_, ?_, ?_⟩
      · -- What was heard now is no beacon, so it is not the first one.
        obtain ⟨first, hfirst, hbeacon⟩ := hfresh.beacon
        cases earlier with
        | nil =>
          simp at hfirst
          simp [← hfirst] at hbeacon
        | cons other rest => exact ⟨first, by simpa using hfirst, hbeacon⟩
      · exact (List.isChain_append.1 hfresh.gaps).1
      · intro last hlast
        exact (List.isChain_append.1 hfresh.gaps).2.2 last hlast _ rfl
  · rintro ⟨since, hsince, hfresh⟩
    refine ⟨since ++ [⟨h.now, false⟩], List.suffix_concat_iff.2 (Or.inr ⟨since, rfl, hsince⟩), ?_⟩
    obtain ⟨first, hfirst, hbeacon⟩ := hfresh.beacon
    refine ⟨⟨first, by simp [hfirst], hbeacon⟩, ?_, by simp⟩
    refine List.isChain_append.2 ⟨hfresh.gaps, .singleton _, fun last hlast next hnext => ?_⟩
    cases hnext
    exact hfresh.latest last hlast

theorem isRemembered_pass_iff : IsRemembered timeout { h with now := h.now + 1 } ↔
    h.IsRemembered timeout ∧
      ∀ last, h.heard.getLast? = some last → h.now + 1 ≤ last.slot + timeout := by
  have hlatest : ∀ {since : List Sighting}, since <:+ h.heard → since ≠ [] →
      since.getLast? = h.heard.getLast? := by
    rintro since ⟨before, hsplit⟩ hsince
    rw [← hsplit, List.getLast?_append_of_ne_nil before hsince]
  constructor
  · rintro ⟨since, hsince, hfresh⟩
    have hlast := hlatest hsince hfresh.ne_nil
    refine ⟨⟨since, hsince, hfresh.beacon, hfresh.gaps, fun last hl => ?_⟩, fun last hl => ?_⟩
    · have hle : h.now + 1 ≤ last.slot + timeout := hfresh.latest last hl
      omega
    · exact hfresh.latest last (hlast.trans hl)
  · rintro ⟨⟨since, hsince, hfresh⟩, hpassed⟩
    have hlast := hlatest hsince hfresh.ne_nil
    exact ⟨since, hsince, hfresh.beacon, hfresh.gaps, fun last hl => hpassed last (hlast ▸ hl)⟩

end Hearing

/-! ## What the MAC knows of its neighbors -/

variable {ε : Type}

namespace SlotMac

/-- The MAC is configured like this, is in this slot, and has this table of neighbors. -/
structure Knows (config : MacConfig) (slot : Nat) (neighbors : NeighborTable) (m : SlotMac) :
    Prop where
  config : m.config = config
  slot : m.slot = slot
  neighbors : m.neighbors = neighbors

variable [ArqAbove ε] [PhyBelow ε] {config : MacConfig} {slot : Nat} {neighbors : NeighborTable}

theorem calm_knows : Calm (On (Knows config slot neighbors) : Inside SlotMac ε → Prop) where
  change hm hs := ⟨hm.config.trans hs.config, hm.slot.trans hs.slot,
    hm.neighbors.trans hs.neighbors⟩
  outward _ := .outward fun _ hs => ⟨hs, fun _ _ => trivial⟩

theorem knows_establishLink (id : Address) :
    (establishLink id : Call (Inside SlotMac ε) Unit).Preserves
      (On (Knows config slot neighbors)) :=
  calm_knows.establishLink (fun _ hs => ⟨hs.config, hs.slot, hs.neighbors⟩)
    fun _ hs _ => ⟨hs.config, hs.slot, hs.neighbors⟩

theorem knows_removeLink (id : Address) :
    (removeLink id : Call (Inside SlotMac ε) Unit).Preserves
      (On (Knows config slot neighbors)) :=
  calm_knows.removeLink fun _ hs _ => ⟨hs.config, hs.slot, hs.neighbors⟩

theorem knows_requestLinks : (requestLinks : Call (Inside SlotMac ε) Unit).Preserves
    (On (Knows config slot neighbors)) :=
  calm_knows.requestLinks (.change fun _ hs => ⟨hs.config, hs.slot, hs.neighbors⟩)
    (.change fun _ hs => ⟨hs.config, hs.slot, hs.neighbors⟩)
    fun _ => .change fun _ hs => ⟨hs.config, hs.slot, hs.neighbors⟩

theorem knows_update {s : Inside SlotMac ε} (h : (update s).1 = .ok ()) :
    Knows s.layer.config (s.layer.slot + 1)
      (forgetSilent { s.layer with slot := s.layer.slot + 1 }).neighbors (update s).2.layer := by
  rw [update_eq, getReady] at h ⊢
  simp only [bind_assoc] at h ⊢
  rw [Call.bind_apply, Call.change_apply] at h ⊢
  simp only at h ⊢
  rw [Call.bind_apply, Call.outward_apply] at h ⊢
  cases htick : (ArqAbove.tick 1 s.around).1 with
  | error e =>
    rw [htick] at h
    cases h
  | ok =>
    simp only
    rw [Call.bind_apply, Call.change_apply]
    refine (Call.Keeps.bind knows_requestLinks (fun _ _ => calm_knows.useSlot) _ ?_).1
    simp only [On, forgetSilent]
    split <;> exact ⟨rfl, rfl, rfl⟩

/-- A beacon is entered into the table, whatever becomes of the report of it. -/
theorem knows_onBeacon (origin : Address) (beacon : BeaconHeader) (s : Inside SlotMac ε) :
    Knows s.layer.config s.layer.slot
      (s.layer.neighbors.updateFromBeacon origin beacon s.layer.slot).1
      (onBeacon origin beacon s).2.layer := by
  apply Call.Keeps.afterBind (I := On (Knows s.layer.config s.layer.slot
    (s.layer.neighbors.updateFromBeacon origin beacon s.layer.slot).1))
  · exact ⟨rfl, rfl, rfl⟩
  · intro _
    refine .bind (.attempt (calm_knows.outward (.report _ _))) fun result _ => ?_
    split
    · exact .pure trivial
    · exact .pure trivial
    · exact .fail _

theorem knows_takeDown (packet : Packet) (s : Inside SlotMac ε) :
    Knows s.layer.config s.layer.slot (s.layer.neighbors.hear packet s.layer.slot)
      (takeDown packet s).2.layer := by
  have hbeacon : (summarize s.layer.config.id packet).beacon = packet.beacon? := rfl
  unfold takeDown NeighborTable.hear
  rw [Call.bind_apply, Call.own_apply]
  simp only
  rw [Call.bind_apply, Call.change_apply]
  simp only [hbeacon]
  cases packet.beacon? with
  | none => exact ⟨rfl, rfl, rfl⟩
  | some beacon =>
    exact knows_onBeacon packet.origin beacon ⟨{ s.layer with
      neighbors := (s.layer.neighbors.markSeen packet.origin s.layer.slot).1 }, s.around⟩

theorem knows_receive (packet : Packet) (s : Inside SlotMac ε) :
    Knows s.layer.config s.layer.slot
      (if s.layer.hears packet then s.layer.neighbors.hear packet s.layer.slot
        else s.layer.neighbors) (receive packet s).2.layer := by
  rw [receive_eq]
  by_cases hhears : s.layer.hears packet
  · rw [if_pos hhears, if_pos hhears]
    apply Call.Keeps.afterBind (I := On (Knows s.layer.config s.layer.slot
      (s.layer.neighbors.hear packet s.layer.slot))) (knows_takeDown packet s)
    intro _
    exact .bind (calm_knows.answer (knows_establishLink _) _) fun _ _ => calm_knows.handsUp _ _
  · rw [if_neg hhears, if_neg hhears]
    exact ⟨rfl, rfl, rfl⟩

/-! ## Runs -/

/-- No slot of a run fails. -/
def slotsSucceed (s : Inside SlotMac ε) : List (MacCall ε) → Bool
  | [] => true
  | .update :: rest => (update s).1.isOk && slotsSucceed (step s .update) rest
  | call :: rest => slotsSucceed (step s call) rest

/-- The table has `id` if and only if it is remembered, and the slot of its latest packet. -/
structure Recalls (config : MacConfig) (id : Address) (h : Hearing) (m : SlotMac) : Prop where
  contains : m.neighbors.entries.contains id = true ↔ h.IsRemembered config.neighborTimeout
  lastSeen : ∀ n, m.neighbors.entries.get? id = some n →
    n.lastSeen ≤ h.now ∧ h.heard.getLast?.map Sighting.slot = some n.lastSeen
  slot : m.slot = h.now
  config : m.config = config

variable {id : Address} {h : Hearing} {m after : SlotMac}

omit [ArqAbove ε] [PhyBelow ε]

theorem Recalls.congr (hm : m.Recalls config id h)
    (hafter : after.Knows m.config m.slot m.neighbors) : after.Recalls config id h := by
  refine ⟨?_, ?_, hafter.slot.trans hm.slot, hafter.config.trans hm.config⟩
  · rw [hafter.neighbors]
    exact hm.contains
  · rw [hafter.neighbors]
    exact hm.lastSeen

theorem Recalls.hear_other (hm : m.Recalls config id h) {packet : Packet}
    (horigin : packet.origin ≠ id)
    (hafter : after.Knows m.config m.slot (m.neighbors.hear packet m.slot)) :
    after.Recalls config id h := by
  have hget : after.neighbors.entries.get? id = m.neighbors.entries.get? id := by
    rw [hafter.neighbors, NeighborTable.get?_hear, if_neg horigin]
  refine ⟨?_, ?_, hafter.slot.trans hm.slot, hafter.config.trans hm.config⟩
  · rw [Table.contains, hget]
    exact hm.contains
  · rw [hget]
    exact hm.lastSeen

/-- A packet of the station itself is the latest one, and its beacon enters the station. -/
theorem Recalls.hear (hm : m.Recalls config id h) {packet : Packet} (horigin : packet.origin = id)
    (hafter : after.Knows m.config m.slot (m.neighbors.hear packet m.slot)) :
    after.Recalls config id
      { h with heard := h.heard ++ [⟨h.now, packet.beacon?.isSome⟩] } := by
  have hget := m.neighbors.get?_hear packet m.slot id
  rw [if_pos horigin, ← hafter.neighbors, hm.slot] at hget
  cases hbeacon : packet.beacon? with
  | some beacon =>
    rw [hbeacon] at hget
    refine ⟨?_, fun n hn => ?_, hafter.slot.trans hm.slot, hafter.config.trans hm.config⟩
    · exact iff_of_true (by simp [Table.contains, hget]) (Hearing.isRemembered_beacon _ h)
    · rw [hget] at hn
      cases hn
      simp
  | none =>
    rw [hbeacon] at hget
    simp only at hget
    refine ⟨?_, fun n hn => ?_, hafter.slot.trans hm.slot, hafter.config.trans hm.config⟩
    · rw [Option.isSome_none, Hearing.isRemembered_traffic_iff, ← hm.contains, Table.contains,
        hget, Option.isSome_map]
      rfl
    · rw [hget] at hn
      obtain ⟨old, hold, rfl⟩ := Option.map_eq_some_iff.1 hn
      simp [(hm.lastSeen old hold).1]

theorem get?_forgetSilent (htimeout : 0 < m.config.neighborTimeout) (id : Address) :
    (forgetSilent m).neighbors.entries.get? id = (m.neighbors.entries.get? id).filter
      fun n => m.slot ≤ n.lastSeen + m.config.neighborTimeout := by
  simp only [forgetSilent]
  by_cases hlate : m.config.neighborTimeout < m.slot
  · have hkeeps : ∀ n : Neighbor, m.slot - m.config.neighborTimeout ≤ n.lastSeen ↔
        m.slot ≤ n.lastSeen + m.config.neighborTimeout := fun n => by omega
    simp only [htimeout, hlate, and_self, if_true, NeighborTable.get?_removeUnseenSince, hkeeps]
  · -- In the first slots nobody was silent for that long.
    have hkeeps : ∀ n : Neighbor, m.slot ≤ n.lastSeen + m.config.neighborTimeout :=
      fun n => by omega
    simp only [hlate, and_false, if_false, hkeeps, decide_true]
    cases m.neighbors.entries.get? id <;> rfl

theorem Recalls.pass (hm : m.Recalls config id h) (htimeout : 0 < config.neighborTimeout)
    (hafter : after.Knows m.config (m.slot + 1)
      (forgetSilent { m with slot := m.slot + 1 }).neighbors) :
    after.Recalls config id { h with now := h.now + 1 } := by
  have hget : after.neighbors.entries.get? id = (m.neighbors.entries.get? id).filter
      fun n => h.now + 1 ≤ n.lastSeen + config.neighborTimeout := by
    rw [hafter.neighbors, get?_forgetSilent (by rwa [hm.config]), hm.slot, hm.config]
  refine ⟨?_, fun n hn => ?_, by rw [hafter.slot, hm.slot], hafter.config.trans hm.config⟩
  · rw [Hearing.isRemembered_pass_iff, ← hm.contains, Table.contains, Table.contains, hget]
    cases hold : m.neighbors.entries.get? id with
    | none => simp
    | some old =>
      obtain ⟨last, hlast, hslot⟩ := Option.map_eq_some_iff.1 (hm.lastSeen old hold).2
      simp [hlast, hslot, Option.filter]
  · rw [hget, Option.filter_eq_some_iff] at hn
    obtain ⟨hle, hlast⟩ := hm.lastSeen n hn.1
    exact ⟨Nat.le_succ_of_le hle, hlast⟩

/-- **One call.** Whatever is done, the table has the station as long as it is remembered, if it is no
slot that fails. -/
theorem Recalls.step [ArqAbove ε] [PhyBelow ε] {s : Inside SlotMac ε}
    (hm : s.layer.Recalls config id h) (htimeout : 0 < config.neighborTimeout)
    {call : MacCall ε} (hok : slotsSucceed s [call] = true) :
    (step s call).layer.Recalls config id (h.after config.id id call) := by
  cases call with
  | update =>
    have hupdate : (update s).1 = .ok () := by
      rw [slotsSucceed, slotsSucceed, Bool.and_true] at hok
      cases hresult : (update s).1 with
      | error e => simp [hresult, Except.isOk, Except.toBool] at hok
      | ok => rfl
    exact hm.pass htimeout (knows_update hupdate)
  | notifyOutgoing bits dest =>
    apply hm.congr
    simp only [SlotMac.step, SlotMac.notifyOutgoing]
    split <;> exact ⟨rfl, rfl, rfl⟩
  | removeLink id => exact hm.congr (knows_removeLink id s ⟨rfl, rfl, rfl⟩).1
  | receive packet =>
    have hknows := knows_receive packet s
    rw [Hearing.after]
    by_cases horigin : packet.origin = id
    · have hheard : packet.isHeardFrom config.id id = s.layer.hears packet := by
        simp [Packet.isHeardFrom, hears, horigin, hm.config]
      rw [hheard]
      by_cases hhears : s.layer.hears packet = true
      · rw [if_pos hhears] at hknows ⊢
        exact hm.hear horigin hknows
      · rw [if_neg hhears] at hknows ⊢
        exact hm.congr hknows
    · have hheard : packet.isHeardFrom config.id id = false := by
        simp [Packet.isHeardFrom, horigin]
      rw [if_neg (by simp [hheard])]
      by_cases hhears : s.layer.hears packet = true
      · rw [if_pos hhears] at hknows
        exact hm.hear_other horigin hknows
      · rw [if_neg hhears] at hknows
        exact hm.congr hknows
  | setPosition position quality => exact hm.congr ⟨rfl, rfl, rfl⟩
  | elsewhere change => exact hm

theorem slotsSucceed_cons [ArqAbove ε] [PhyBelow ε] {s : Inside SlotMac ε} {call : MacCall ε}
    {rest : List (MacCall ε)} : slotsSucceed s (call :: rest) = true ↔
      slotsSucceed s [call] = true ∧ slotsSucceed (SlotMac.step s call) rest = true := by
  cases call <;> simp [slotsSucceed]

theorem Recalls.run [ArqAbove ε] [PhyBelow ε] {s : Inside SlotMac ε}
    (hm : s.layer.Recalls config id h) (htimeout : 0 < config.neighborTimeout)
    {calls : List (MacCall ε)} (hok : slotsSucceed s calls = true) :
    (run s calls).layer.Recalls config id (calls.foldl (Hearing.after config.id id) h) := by
  induction calls generalizing s h with
  | nil => exact hm
  | cons call rest ih =>
    obtain ⟨hfirst, hrest⟩ := slotsSucceed_cons.1 hok
    exact ih (hm.step htimeout hfirst) hrest

theorem recalls_ofConfig (hm : ofConfig config = .ok m) (id : Address) :
    m.Recalls config id ⟨0, []⟩ := by
  rw [ofConfig] at hm
  split at hm
  · cases hm
  · cases hm
    refine ⟨iff_of_false Bool.noConfusion (Hearing.not_isRemembered_nil _ _), ?_, rfl, rfl⟩
    intro n hn
    cases hn

/-- **How long a neighbor is remembered.** A MAC forgets silent neighbors, over any surroundings. As
long as no slot fails, and whatever is received or done besides: in every state of a run a station is in
the table if and only if it was never silent for more than `neighborTimeout` slots since some beacon of
it, and it was last seen in the slot of the latest packet that was heard of it. Nobody is heard in a
packet that has no sender, or this station as its sender. -/
theorem contains_iff_isRemembered [ArqAbove ε] [PhyBelow ε] (hm : ofConfig config = .ok m)
    (htimeout : 0 < config.neighborTimeout) (around : ε) {calls : List (MacCall ε)}
    (hok : slotsSucceed ⟨m, around⟩ calls = true) (id : Address) :
    ((run ⟨m, around⟩ calls).layer.neighbors.entries.contains id = true ↔
      (Hearing.ofCalls config.id id calls).IsRemembered config.neighborTimeout) ∧
    (∀ n, (run ⟨m, around⟩ calls).layer.neighbors.entries.get? id = some n →
      (Hearing.ofCalls config.id id calls).heard.getLast?.map Sighting.slot = some n.lastSeen) ∧
    (run ⟨m, around⟩ calls).layer.slot = (Hearing.ofCalls config.id id calls).now := by
  have hrun := Recalls.run (s := ⟨m, around⟩) (recalls_ofConfig hm id) htimeout hok
  exact ⟨hrun.contains, fun n hn => (hrun.lastSeen n hn).2, hrun.slot⟩

/-- The MAC of station 1, which forgets neighbors that were silent for more than 2 slots. -/
def forgetful : SlotMac := { ofFirst with config := ⟨⟨1⟩, 0, 0, 2⟩ }

/-- Traffic of `source` that is not for station 1. -/
def passing (source : Address) : MacCall Station :=
  .receive (heard source (.linkRequest { toFirst with dest := ⟨4⟩ } default))

/-- A beacon of station 2 is heard, and 2 slots later other traffic of it. Two more slots pass. Station
3 is heard as well, but no beacon of it, and station 1 hears itself. -/
def visited : List (MacCall Station) :=
  [.receive (heard ⟨2⟩ (.beacon default)), .receive (heard ⟨1⟩ (.beacon default)), .update, .update,
    passing ⟨2⟩, passing ⟨3⟩, .update, .update]

/-- Station 2 is remembered, and was last seen in slot 2. In slot 5 it is forgotten. -/
theorem contains_iff_isRemembered_visited :
    0 < forgetful.config.neighborTimeout ∧
      slotsSucceed ⟨forgetful, surroundings⟩ visited = true ∧
      (Hearing.ofCalls ⟨1⟩ ⟨2⟩ visited).IsRemembered 2 ∧
      ((run ⟨forgetful, surroundings⟩ visited).layer.neighbors.entries.get? ⟨2⟩).map
        Neighbor.lastSeen = some 2 ∧
      ¬ (Hearing.ofCalls ⟨1⟩ ⟨2⟩ (visited ++ [.update])).IsRemembered 2 ∧
      ¬ (Hearing.ofCalls ⟨1⟩ ⟨3⟩ visited).IsRemembered 2 ∧
      ¬ (Hearing.ofCalls ⟨1⟩ ⟨1⟩ visited).IsRemembered 2 := by
  have hm : ofConfig ⟨⟨1⟩, 0, 0, 2⟩ = .ok forgetful := rfl
  have hok : slotsSucceed ⟨forgetful, surroundings⟩ visited = true := by decide +kernel
  have hlater : slotsSucceed ⟨forgetful, surroundings⟩ (visited ++ [.update]) = true := by
    decide +kernel
  have hknown := fun id => (contains_iff_isRemembered hm (by decide) surroundings hok id).1
  have hforgotten := (contains_iff_isRemembered hm (by decide) surroundings hlater ⟨2⟩).1
  refine ⟨by decide, hok, (hknown ⟨2⟩).1 (by decide +kernel), by decide +kernel, fun h => ?_,
    fun h => ?_, fun h => ?_⟩
  · exact absurd (hforgotten.2 h) (by decide +kernel)
  · exact absurd ((hknown ⟨3⟩).2 h) (by decide +kernel)
  · exact absurd ((hknown ⟨1⟩).2 h) (by decide +kernel)

end SlotMac

end DataLink
