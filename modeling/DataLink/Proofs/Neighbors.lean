import DataLink.Neighbors
import DataLink.Proofs.Basic

/-!
# What a neighbor table remembers

A table learns of a station by a beacon. Other traffic only counts for the slot in which a station was
last seen, and that slot decides who is forgotten. Each of the three is described by what it does to
the entry of one station (`get?_updateFromBeacon`, `get?_markSeen`, `get?_removeUnseenSince`).

Calls may come with slots in any order. A station should then have been last seen in the latest of the
slots in which it was heard since it came into the table (`IsLatest`). Traffic takes the later of two
slots and keeps this. A beacon writes its own slot whatever was there, so one that is *dated back*, to a
slot before the one in which its sender was last seen, turns the entry back.

**Theorem (`NeighborTable.lastSeen_latest_iff`).** A station was last seen in the latest slot since it
came into the table, in every state of a run, if and only if no beacon of it is dated back. In any case
it was last seen in the latest slot since its last beacon.
-/

namespace DataLink

/-! ## Entries -/

/-- The last beacon in a packet. -/
def Packet.beacon? (p : Packet) : Option BeaconHeader :=
  (p.headers.filterMap fun
    | .beacon h => some h
    | _ => none).getLast?

namespace NeighborTable

/-- The neighbors once a packet was heard in `slot`. -/
def hear (t : NeighborTable) (packet : Packet) (slot : Nat) : NeighborTable :=
  let seen := (t.markSeen packet.origin slot).1
  match packet.beacon? with
  | some beacon => (seen.updateFromBeacon packet.origin beacon slot).1
  | none => seen

theorem get?_updateFromBeacon (t : NeighborTable) (sender : Address) (beacon : BeaconHeader)
    (slot : Nat) (id : Address) : (t.updateFromBeacon sender beacon slot).1.entries.get? id =
      if sender = id then some ⟨beacon.position, beacon.quality, beacon.hops, slot⟩
      else t.entries.get? id :=
  Table.get?_insert _ _ _ _

theorem get?_markSeen (t : NeighborTable) (sender : Address) (slot : Nat) (id : Address) :
    (t.markSeen sender slot).1.entries.get? id =
      if sender = id then
        (t.entries.get? id).map fun n => { n with lastSeen := max n.lastSeen slot }
      else t.entries.get? id := by
  unfold markSeen
  by_cases hsender : sender = id
  · subst hsender
    cases hget : t.entries.get? sender with
    | none => simp [hget]
    | some n => simp [Table.get?_insert]
  · cases hget : t.entries.get? sender with
    | none => simp [hsender]
    | some n => simp [Table.get?_insert, hsender]

theorem get?_removeUnseenSince (t : NeighborTable) (slot : Nat) (id : Address) :
    (t.removeUnseenSince slot).1.entries.get? id =
      (t.entries.get? id).filter fun n => slot ≤ n.lastSeen :=
  Table.get?_filter _ _ _

/-- A packet is about the entry of its sender: a beacon makes a new one, and other packets only count
for when it was last seen. -/
theorem get?_hear (t : NeighborTable) (packet : Packet) (slot : Nat) (id : Address) :
    (t.hear packet slot).entries.get? id =
      if packet.origin = id then
        match packet.beacon? with
        | some b => some ⟨b.position, b.quality, b.hops, slot⟩
        | none => (t.entries.get? id).map fun n => { n with lastSeen := max n.lastSeen slot }
      else t.entries.get? id := by
  unfold hear
  cases packet.beacon? with
  | none => exact t.get?_markSeen packet.origin slot id
  | some beacon =>
    simp only [get?_updateFromBeacon, get?_markSeen]
    by_cases horigin : packet.origin = id <;> simp [horigin]

end NeighborTable

/-! ## Runs -/

/-- What is done to a neighbor table. -/
inductive NeighborCall where
  | beacon (sender : Address) (beacon : BeaconHeader) (slot : Nat)
  /-- Anything but a beacon. -/
  | traffic (sender : Address) (slot : Nat)
  | forget (slot : Nat)

namespace NeighborTable

def perform (t : NeighborTable) : NeighborCall → NeighborTable
  | .beacon sender beacon slot => (t.updateFromBeacon sender beacon slot).1
  | .traffic sender slot => (t.markSeen sender slot).1
  | .forget slot => (t.removeUnseenSince slot).1

def performAll (t : NeighborTable) (calls : List NeighborCall) : NeighborTable :=
  calls.foldl perform t

/-- The slots in which `id` was heard while it was in the table, with one call more. They begin anew
when it comes into the table. -/
def noteSlot (id : Address) (t : NeighborTable) (slots : List Nat) : NeighborCall → List Nat
  | .beacon sender _ slot =>
    if sender = id then if t.entries.contains id then slots ++ [slot] else [slot] else slots
  | .traffic sender slot =>
    if sender = id ∧ t.entries.contains id = true then slots ++ [slot] else slots
  | .forget _ => slots

/-- The slots in which `id` was heard since it last came into the table. -/
def slotsSinceEntry (id : Address) : NeighborTable → List Nat → List NeighborCall → List Nat
  | _, slots, [] => slots
  | t, slots, call :: rest => slotsSinceEntry id (t.perform call) (noteSlot id t slots call) rest

/-- The slots in which `id` was heard from its last beacon on, with one call more. -/
def noteSinceBeacon (id : Address) (slots : List Nat) : NeighborCall → List Nat
  | .beacon sender _ slot => if sender = id then [slot] else slots
  | .traffic sender slot => if sender = id then slots ++ [slot] else slots
  | .forget _ => slots

def slotsSinceBeacon (id : Address) (calls : List NeighborCall) : List Nat :=
  calls.foldl (noteSinceBeacon id) []

/-- The call is a beacon of `id` for a slot before the one in which `id` was last seen. -/
def isBackdated (id : Address) (t : NeighborTable) : NeighborCall → Bool
  | .beacon sender _ slot => sender = id && (t.entries.get? id).any fun n => slot < n.lastSeen
  | _ => false

/-- A beacon of `id` is dated back in a run. -/
def anyBackdated (id : Address) : NeighborTable → List NeighborCall → Bool
  | _, [] => false
  | t, call :: rest => isBackdated id t call || anyBackdated id (t.perform call) rest

/-- If `id` is in the table, it was last seen in the latest of the slots. -/
def IsLatest (id : Address) (t : NeighborTable) (slots : List Nat) : Prop :=
  ∀ n, t.entries.get? id = some n → slots.max? = some n.lastSeen

variable {id : Address} {t : NeighborTable} {slots : List Nat}

theorem max?_concat {latest : Nat} (h : slots.max? = some latest) (slot : Nat) :
    (slots ++ [slot]).max? = some (max latest slot) := by
  rw [List.max?_eq_some_iff] at h ⊢
  obtain ⟨hmem, hle⟩ := h
  constructor
  · rcases Nat.le_total latest slot with hslot | hslot
    · simp [Nat.max_eq_right hslot]
    · simp [Nat.max_eq_left hslot, hmem]
  · intro other hother
    rw [List.mem_append, List.mem_singleton] at hother
    rcases hother with hother | rfl
    · have := hle other hother
      omega
    · omega

theorem isLatest_empty (id : Address) : IsLatest id .empty [] := by
  intro n hget
  cases hget

theorem IsLatest.traffic (h : IsLatest id t slots) (slot : Nat) :
    IsLatest id (t.perform (.traffic id slot)) (slots ++ [slot]) := by
  intro n hget
  rw [perform, get?_markSeen, if_pos rfl, Option.map_eq_some_iff] at hget
  obtain ⟨old, hold, rfl⟩ := hget
  exact max?_concat (h old hold) slot

/-- A call that is not about the station leaves it as it is, or has it forgotten. -/
theorem IsLatest.other (h : IsLatest id t slots) {call : NeighborCall}
    (hcall : ∀ n, (t.perform call).entries.get? id = some n → t.entries.get? id = some n) :
    IsLatest id (t.perform call) slots := by
  intro n hget
  exact h n (hcall n hget)

theorem IsLatest.traffic_other (h : IsLatest id t slots) {sender : Address} (hsender : sender ≠ id)
    (slot : Nat) : IsLatest id (t.perform (.traffic sender slot)) slots := by
  apply h.other
  intro n hget
  rwa [perform, get?_markSeen, if_neg hsender] at hget

theorem IsLatest.beacon_other (h : IsLatest id t slots) {sender : Address} (hsender : sender ≠ id)
    (beacon : BeaconHeader) (slot : Nat) :
    IsLatest id (t.perform (.beacon sender beacon slot)) slots := by
  apply h.other
  intro n hget
  rwa [perform, get?_updateFromBeacon, if_neg hsender] at hget

theorem IsLatest.forget (h : IsLatest id t slots) (slot : Nat) :
    IsLatest id (t.perform (.forget slot)) slots := by
  apply h.other
  intro n hget
  rw [perform, get?_removeUnseenSince, Option.filter_eq_some_iff] at hget
  exact hget.1

theorem isLatest_beacon_iff (beacon : BeaconHeader) (slot : Nat) :
    IsLatest id (t.perform (.beacon id beacon slot)) slots ↔ slots.max? = some slot := by
  simp [IsLatest, perform, get?_updateFromBeacon]

/-- **One call.** A station that was last seen in the latest slot since it came into the table still
was, unless the call is a beacon of it that is dated back. -/
theorem IsLatest.perform_iff (h : IsLatest id t slots) (call : NeighborCall) :
    IsLatest id (t.perform call) (noteSlot id t slots call) ↔ isBackdated id t call = false := by
  cases call with
  | beacon sender beacon slot =>
    by_cases hsender : sender = id
    · subst hsender
      rw [isLatest_beacon_iff, noteSlot, if_pos rfl, isBackdated, Table.contains]
      cases hget : t.entries.get? sender with
      | none => simp
      | some n =>
        -- The old slots stay, and their latest one is what the beacon writes over.
        have hwritten : max n.lastSeen slot = slot ↔ n.lastSeen ≤ slot := by omega
        simp [max?_concat (h n hget) slot, hwritten]
    · simp [noteSlot, isBackdated, hsender, h.beacon_other hsender beacon slot]
  | traffic sender slot =>
    refine iff_of_true ?_ rfl
    rw [noteSlot]
    by_cases hsender : sender = id
    · subst hsender
      cases hknown : t.entries.contains sender with
      | true => simpa using h.traffic slot
      | false =>
        apply IsLatest.other (by simpa using h)
        intro n hget
        rw [Table.contains, Option.isSome_eq_false_iff, Option.isNone_iff_eq_none] at hknown
        simp [perform, get?_markSeen, hknown] at hget
    · simpa [hsender] using h.traffic_other hsender slot
  | forget slot => exact iff_of_true (h.forget slot) rfl

/-- One call, on a table and the slots since an entry. -/
def performNoting (id : Address) (p : NeighborTable × List Nat) (call : NeighborCall) :
    NeighborTable × List Nat :=
  (p.1.perform call, noteSlot id p.1 p.2 call)

theorem foldl_performNoting (id : Address) (t : NeighborTable) (slots : List Nat)
    (calls : List NeighborCall) : calls.foldl (performNoting id) (t, slots) =
      (t.performAll calls, slotsSinceEntry id t slots calls) := by
  induction calls generalizing t slots with
  | nil => rfl
  | cons call rest ih => exact ih _ _

theorem IsLatest.performAll_iff (h : IsLatest id t slots) (calls : List NeighborCall) :
    (∀ past, past <+: calls → IsLatest id (t.performAll past) (slotsSinceEntry id t slots past)) ↔
      anyBackdated id t calls = false := by
  have hruns := @forall_prefix_foldl_iff _ _ (fun p => IsLatest id p.1 p.2)
    (fun p => IsLatest id p.1 p.2) (performNoting id) (fun p => isBackdated id p.1)
    (fun p => anyBackdated id p.1) (fun _ => rfl) (fun _ _ _ => rfl) (fun hp => hp)
    (fun hp hfirst => (hp.perform_iff _).2 hfirst)
    (fun hp hbackdated hafter => by simp [(hp.perform_iff _).1 hafter] at hbackdated) (t, slots) h
    calls
  simpa only [foldl_performNoting] using hruns

theorem IsLatest.sinceBeacon (h : IsLatest id t slots) (call : NeighborCall) :
    IsLatest id (t.perform call) (noteSinceBeacon id slots call) := by
  cases call with
  | beacon sender beacon slot =>
    by_cases hsender : sender = id
    · subst hsender
      rw [isLatest_beacon_iff, noteSinceBeacon, if_pos rfl]
      rfl
    · simpa [noteSinceBeacon, hsender] using h.beacon_other hsender beacon slot
  | traffic sender slot =>
    by_cases hsender : sender = id
    · subst hsender
      simpa [noteSinceBeacon] using h.traffic slot
    · simpa [noteSinceBeacon, hsender] using h.traffic_other hsender slot
  | forget slot => exact h.forget slot

theorem IsLatest.sinceBeacon_all (h : IsLatest id t slots) (calls : List NeighborCall) :
    IsLatest id (t.performAll calls) (calls.foldl (noteSinceBeacon id) slots) := by
  induction calls generalizing t slots with
  | nil => exact h
  | cons call rest ih => exact ih (h.sinceBeacon call)

/-- **When a station was last seen.** Calls come with slots in any order. In every state of a run the
station was last seen in the latest of the slots in which it was heard since it came into the table, if
and only if no beacon of it is dated before it was last seen. In any case it was last seen in the latest
slot since its last beacon. -/
theorem lastSeen_latest_iff (id : Address) (calls : List NeighborCall) :
    ((∀ past, past <+: calls →
        IsLatest id (performAll .empty past) (slotsSinceEntry id .empty [] past)) ↔
      anyBackdated id .empty calls = false) ∧
    IsLatest id (performAll .empty calls) (slotsSinceBeacon id calls) :=
  ⟨(isLatest_empty id).performAll_iff calls, (isLatest_empty id).sinceBeacon_all calls⟩

/-- Two beacons of station 1, the second one for an earlier slot. -/
def turnedBack : List NeighborCall := [.beacon ⟨1⟩ default 10, .beacon ⟨1⟩ default 5]

/-- Station 1 was heard in slot 10, but the table has slot 5, and forgets it as one that was not seen
since slot 8. -/
theorem not_lastSeen_latest_turnedBack :
    (¬ ∀ calls id, IsLatest id (performAll .empty calls) (slotsSinceEntry id .empty [] calls)) ∧
      slotsSinceEntry ⟨1⟩ .empty [] turnedBack = [10, 5] ∧
      ((performAll .empty turnedBack).entries.get? ⟨1⟩).map Neighbor.lastSeen = some 5 ∧
      ((performAll .empty turnedBack).removeUnseenSince 8).2 = [⟨1⟩] := by
  refine ⟨fun h => ?_, by decide +kernel, by decide +kernel, by decide +kernel⟩
  have hlatest := h turnedBack ⟨1⟩ ⟨default, default, default, 5⟩ (by decide +kernel)
  revert hlatest
  decide +kernel

end NeighborTable

end DataLink
