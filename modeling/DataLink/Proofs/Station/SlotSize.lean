import DataLink.Proofs.Station.Links

/-!
# What fits in a slot

The PHY of a station says how many bits fit in a slot. A packet that is built for whoever has the
turn is asked for with so many bits, and it keeps to them, whatever it is: a frame that is sent again,
an acknowledgement, segments of what is queued, or what sets up a link. A beacon is built without
asking, and it always has the same length.

**Theorem (`Station.slot_fits_iff`).** In each slot a station transmits one packet at most, and it is
signed by the station and sent on its frequency. It fits in the slot unless a beacon is due and longer
than that.
-/

namespace DataLink

namespace SlotMac

variable {m : SlotMac} {x : Upper} {datarate : Nat} {transmitted : List Transmission}

theorem length_beacon (m : SlotMac) (hops : Nat) :
    (m.beacon hops).length = Width.base + Width.beacon := rfl

theorem Sends.length_le_one (h : Sends datarate m x transmitted) : transmitted.length ≤ 1 := by
  cases h with
  | beacon => exact Nat.le_refl 1
  | packet => exact Nat.le_refl 1
  | nothing => exact Nat.zero_le 1

theorem Sends.signed (h : Sends datarate m x transmitted) (hx : x.IsOrderly) :
    ∀ sent ∈ transmitted, sent.packet.origin = m.config.id ∧ sent.frequency = m.config.frequency := by
  intro sent hsent
  cases h with
  | nothing => cases hsent
  | beacon =>
    rw [List.mem_singleton.1 hsent]
    exact ⟨rfl, rfl⟩
  | @packet _ dest hdest packet hpacket hsize =>
    rw [List.mem_singleton.1 hsent]
    refine ⟨?_, rfl⟩
    rcases ((hx.request (Word.fits_iff.1 (Word.fits_clamp datarate)) dest).2 packet hpacket).2
      with rfl | hlead
    · exact absurd hsize (Nat.not_lt_zero 1)
    · exact Packet.origin_sign hlead m.config.id

theorem Sends.fits_iff (h : Sends datarate m x transmitted) (hx : x.IsOrderly) :
    (∀ sent ∈ transmitted, sent.packet.length ≤ datarate) ↔
      ¬ (m.isBeaconDue = true ∧ datarate < Width.base + Width.beacon) := by
  cases h with
  | nothing hdue => simp [hdue]
  | beacon hdue => simp [hdue, length_beacon]
  | @packet hdue dest hdest packet hpacket hsize =>
    have hwithin : packet.length ≤ datarate :=
      Nat.le_trans ((hx.keeps_request (Word.fits_iff.1 (Word.fits_clamp datarate)) dest).2.within
        packet hpacket) (Nat.min_le_left datarate Word.highest)
    have hsigned : ((packet.sign m.config.id).announce.2).length = packet.length :=
      Packet.length_sign m.config.id packet
    simp [hdue, hsigned, hwithin]

end SlotMac

namespace Station

variable {config : StationConfig} {s : Station}

/-- The next slot is one for a beacon. -/
def isBeaconNext (s : Station) : Bool :=
  s.slotMac?.any fun m => { m with slot := m.slot + 1 }.isBeaconDue

/-- **One packet in a slot.** Each slot transmits one packet at most, signed by the station and on its
frequency, and it fits in the slot unless a beacon is due and longer than that. -/
theorem slot_fits_iff (hs : ofConfig config = .ok s) (calls : List StationCall) :
    let t := s.run calls
    let transmitted := t.transmits .update
    (t.step .update).drain.1 = t.drain.1 ++ transmitted ∧ transmitted.length ≤ 1 ∧
      (∀ sent ∈ transmitted,
        sent.packet.origin = config.mac.id ∧ sent.frequency = config.mac.frequency) ∧
      ((∀ sent ∈ transmitted, sent.packet.length ≤ config.phy.datarate) ↔
        ¬ (t.isBeaconNext = true ∧ config.phy.datarate < Width.base + Width.beacon)) := by
  obtain ⟨m, x, p, hrun, hphy, hm, hinOrder⟩ := inOrder_run hs calls
  intro t transmitted
  obtain ⟨ready, before, after, y, q, hstep, hout, -, hslot, -, hready, hsends⟩ :=
    hinOrder.exists_transmits hm p
  rw [← hrun] at hstep hout hsends
  have hmac : ready.config = config.mac := hready.mac
  have hnext : t.isBeaconNext = ready.isBeaconDue := by
    rw [show t = x.station m p from hrun]
    change { m with slot := m.slot + 1 }.isBeaconDue = _
    rw [SlotMac.isBeaconDue, SlotMac.isBeaconDue, hslot, hmac,
      show m.config = config.mac from hinOrder.mac]
  have hdrain : t.drain.1 = p.outbox := by
    rw [show t = x.station m p from hrun]
    rfl
  refine ⟨?_, hsends.length_le_one, ?_, ?_⟩
  · rw [show t.step .update = y.station after q from hstep, hdrain]
    exact hout
  · rw [← hmac]
    exact hsends.signed hready.upper
  · rw [hnext, ← hphy]
    exact hsends.fits_iff hready.upper

theorem slot_fits_granted :
    (((made ofFirst).run granted).transmits .update).map (fun sent => sent.packet.length) = [151] ∧
      (∀ sent ∈ ((made ofFirst).run granted).transmits .update,
        sent.packet.length ≤ ofFirst.phy.datarate) ∧
      ((made ofFirst).run granted).isBeaconNext = false := by
  have hnext : ((made ofFirst).run granted).isBeaconNext = false := by decide +kernel
  obtain ⟨-, -, -, hfits⟩ :=
    slot_fits_iff (show ofConfig ofFirst = .ok (made ofFirst) from rfl) granted
  exact ⟨by decide +kernel, hfits.2 (by simp [hnext]), hnext⟩

/-- Settings of station 1 with a beacon in every slot, of which each has 100 bits. -/
def ofNarrow : StationConfig :=
  { ofFirst with mac := ⟨⟨1⟩, 0, 1, 0⟩, phy := ⟨100, 2⟩ }

/-- A beacon is sent in a slot that it does not fit in. -/
theorem not_slot_fits_narrow :
    ¬ (∀ (config : StationConfig) (s : Station) (calls : List StationCall), ofConfig config = .ok s →
        ∀ sent ∈ (s.run calls).transmits .update, sent.packet.length ≤ config.phy.datarate) ∧
      ((made ofNarrow).transmits .update).map (fun sent => sent.packet.length) = [119] := by
  refine ⟨fun h => ?_, by decide +kernel⟩
  have hfits := h ofNarrow (made ofNarrow) [] rfl
  revert hfits
  decide +kernel

end Station

end DataLink
