import DataLink.Proofs.Station.Links
import DataLink.Proofs.Station.Neighbors
import Mathlib.Order.Lattice.Nat

/-!
# Hop counts in a network

Stations that receive nothing but what one of them transmitted are a network. Every transmission may
arrive anywhere, at any time and any number of times, or be lost. Each station tells in its beacons how
far it is from a ground station, and takes its own hop count from the lowest one that it was told.

**The distance** of a station (`Network.distance`) is the length of the shortest chain that leads from it
to a ground station, where each station of the chain has received a beacon of the next one. Where no
chain is shorter, it is the highest count that a beacon has place for.

A chain is never lost, so a distance never grows (`Network.distance_mono`). That is why a beacon may come
late: what it says was no less than the distance of its sender when it was transmitted, and still is
when it arrives.

**Theorem (`Network.distance_le_hops`).** In every state of a run, no station takes itself to be nearer
to the ground than it is.

A beacon is known by the address of its sender (`Network.HasHeard`), so the stations of a network are to
have different addresses. The theorem does not depend on that.
-/

namespace DataLink

open Upper (KnowsAlike)

/-! ## Beacons -/

theorem Packet.mem_headers_of_beacon? {p : Packet} {b : BeaconHeader} (h : p.beacon? = some b) :
    .beacon b ∈ p.headers := by
  obtain ⟨header, hmem, hheader⟩ := List.mem_filterMap.1 (List.mem_of_getLast? h)
  cases header with
  | beacon found =>
    cases hheader
    exact hmem
  | _ => cases hheader

theorem Packet.Suits.beacon_not_mem {p : Packet} {dest : Address} (h : p.Suits dest) :
    FrameType.beacon ∉ p.shape := by
  intro hmem
  rcases h with hcontrol | hframe | heverybody
  · rcases hcontrol.types _ hmem with h | h | h <;> cases h
  · rcases hframe.types _ hmem with h | h <;> cases h
  · rcases heverybody _ hmem with h | h <;> cases h

theorem SlotMac.Sends.beacon? {m : SlotMac} {x : Upper} {datarate : Nat}
    {transmitted : List Transmission} (hsends : Sends datarate m x transmitted) (hx : x.IsOrderly)
    {sent : Transmission} (hsent : sent ∈ transmitted) {b : BeaconHeader}
    (hb : sent.packet.beacon? = some b) :
    sent.packet.origin = m.config.id ∧ b.hops = HopCount.clamp x.net.hops := by
  cases hsends with
  | nothing => cases hsent
  | beacon =>
    rw [List.mem_singleton.1 hsent] at hb ⊢
    refine ⟨rfl, ?_⟩
    have hbeacon : (m.beacon x.net.hops).beacon? =
        some ⟨m.position, !m.isOdd, HopCount.clamp x.net.hops, m.quality⟩ := rfl
    rw [hbeacon] at hb
    cases hb
    rfl
  | @packet _ dest _ packet hpacket _ =>
    rw [List.mem_singleton.1 hsent] at hb
    have hsuits := ((hx.request (Word.fits_iff.1 (Word.fits_clamp datarate)) dest).2 packet
      hpacket).1
    refine absurd ?_ hsuits.beacon_not_mem
    rw [← Packet.shape_sign m.config.id packet]
    exact List.mem_map.2 ⟨_, Packet.mem_headers_of_beacon? hb, rfl⟩

/-! ## One station -/

theorem StationCall.isGround_inform (call : StationCall) (s : Inside SlotMac Upper) :
    (call.inform s).around.net.isGround = s.around.net.isGround := by
  cases call with
  | receive t =>
    simp only [inform, Upper.hear, RoutingNet.hear]
    split
    · cases t.packet.beacon? <;> rfl
    · rfl
  | _ => rfl

theorem StationCall.reports_inform {call : StationCall} {s : Inside SlotMac Upper} {id : Address}
    {hops : Nat} (h : (call.inform s).around.net.neighborHops.get? id = some hops) :
    s.around.net.neighborHops.get? id = some hops ∨ ∃ t b, call = .receive t ∧
      t.packet.beacon? = some b ∧ t.packet.origin = id ∧ b.hops.val = hops := by
  cases call with
  | receive t =>
    simp only [inform, Upper.hear] at h
    by_cases hhears : s.layer.hears t.packet = true
    · rw [if_pos hhears, RoutingNet.get?_hear] at h
      by_cases horigin : t.packet.origin = id
      · rw [if_pos horigin] at h
        cases hbeacon : t.packet.beacon? with
        | none =>
          rw [hbeacon] at h
          exact Or.inl h
        | some b =>
          rw [hbeacon] at h
          exact Or.inr ⟨t, b, rfl, hbeacon, horigin, Option.some.inj h⟩
      · rw [if_neg horigin] at h
        exact Or.inl h
    · rw [if_neg hhears] at h
      exact Or.inl h
  | _ => exact Or.inl h

namespace Station

variable {config : StationConfig} {s : Station}

theorem IsReached.transmits_beacon (h : s.IsReached config) (hwindow : 0 < config.arq.windowSize)
    {call : StationCall} {sent : Transmission} (hsent : sent ∈ s.transmits call) {b : BeaconHeader}
    (hb : sent.packet.beacon? = some b) :
    sent.packet.origin = config.mac.id ∧
      ∃ hops, s.hops? = some hops ∧ b.hops = HopCount.clamp hops := by
  obtain ⟨m, x, p, rfl, -, hm, hinOrder⟩ := h.invariant (inOrder_start hwindow) fun hmove h =>
    h.move hmove
  by_cases hcall : call = .update
  · subst hcall
    obtain ⟨ready, before, -, -, -, -, -, hreadies, -, hsends⟩ := exists_transmits hm x p
    have hready : InOrder config ⟨ready, before⟩ :=
      hreadies.moves.keep (fun hmove h => h.move hmove) hinOrder
    obtain ⟨horigin, hhops⟩ := hsends.beacon? hready.upper hsent hb
    refine ⟨horigin.trans (congrArg MacConfig.id hready.mac), x.net.hops, rfl, ?_⟩
    rw [hhops, hreadies.knows.hops]
    rfl
  · rw [transmits_eq_nil hm x p hcall] at hsent
    cases hsent

end Station

/-! ## Networks -/

/-- Stations, all that they have transmitted, and what each of them has received. -/
structure Network (ι : Type) where
  stations : ι → Station
  air : List Transmission
  received : ι → List Transmission

/-- What happens in a network. -/
inductive NetworkEvent (ι : Type) where
  /-- A host asks something of a station. -/
  | ask (i : ι) (call : StationCall)
  /-- A transmission arrives at a station. -/
  | deliver (i : ι) (number : Nat)

namespace Network

variable {ι : Type}

/-- Nothing was transmitted yet. -/
def start (stations : ι → Station) : Network ι := ⟨stations, [], fun _ => []⟩

/-- Station `i` has received a beacon of station `j`. -/
def HasHeard (configs : ι → StationConfig) (n : Network ι) (i j : ι) : Prop :=
  ∃ t ∈ n.received i, t.packet.origin = (configs j).mac.id ∧ t.packet.beacon?.isSome = true

/-- A chain of that many hops leads from a station to a ground station. -/
inductive IsChain (configs : ι → StationConfig) (n : Network ι) : Nat → ι → Prop
  | ground {i : ι} (h : (configs i).isGround = true) : IsChain configs n 0 i
  | hop {hops : Nat} {i j : ι} (hheard : n.HasHeard configs i j) (hrest : IsChain configs n hops j) :
      IsChain configs n (hops + 1) i

/-- The length of the shortest chain, or the highest hop count where none is shorter. -/
noncomputable def distance (configs : ι → StationConfig) (n : Network ι) (i : ι) : Nat :=
  sInf {hops | hops = HopCount.highest.val ∨ n.IsChain configs hops i}

variable {configs : ι → StationConfig} {n after : Network ι} {i j : ι}

/-! ### Distances -/

theorem distance_le_highest (configs : ι → StationConfig) (n : Network ι) (i : ι) :
    n.distance configs i ≤ HopCount.highest.val :=
  Nat.sInf_le (Or.inl rfl)

theorem IsChain.distance_le {hops : Nat} (h : n.IsChain configs hops i) :
    n.distance configs i ≤ hops :=
  Nat.sInf_le (Or.inr h)

/-- The distance is the highest count, or there is a chain of that length. -/
theorem distance_cases (configs : ι → StationConfig) (n : Network ι) (i : ι) :
    n.distance configs i = HopCount.highest.val ∨ n.IsChain configs (n.distance configs i) i :=
  Nat.sInf_mem (s := {hops | hops = HopCount.highest.val ∨ n.IsChain configs hops i})
    ⟨_, Or.inl rfl⟩

theorem HasHeard.distance_le (h : n.HasHeard configs i j) :
    n.distance configs i ≤ n.distance configs j + 1 := by
  rcases distance_cases configs n j with hhighest | hchain
  · rw [hhighest]
    exact Nat.le_succ_of_le (distance_le_highest configs n i)
  · exact (IsChain.hop h hchain).distance_le

/-- No station has received less. -/
def Grows (n after : Network ι) : Prop := ∀ i, n.received i ⊆ after.received i

theorem Grows.hasHeard (hgrows : n.Grows after) (h : n.HasHeard configs i j) :
    after.HasHeard configs i j := by
  obtain ⟨t, ht, hbeacon⟩ := h
  exact ⟨t, hgrows i ht, hbeacon⟩

theorem Grows.isChain {hops : Nat} (hgrows : n.Grows after) (h : n.IsChain configs hops i) :
    after.IsChain configs hops i := by
  induction h with
  | ground h => exact .ground h
  | hop hheard _ ih => exact .hop (hgrows.hasHeard hheard) ih

theorem distance_mono (hgrows : n.Grows after) (configs : ι → StationConfig) (i : ι) :
    after.distance configs i ≤ n.distance configs i := by
  rcases distance_cases configs n i with hhighest | hchain
  · rw [hhighest]
    exact distance_le_highest configs after i
  · exact (hgrows.isChain hchain).distance_le

/-! ### What is known and what is said -/

/-- What the station was told of others is no less than the distance of a station that it has heard. -/
def IsTold (configs : ι → StationConfig) (n : Network ι) (i : ι) (s : Station) : Prop :=
  ∃ (m : SlotMac) (x : Upper) (p : OutboxPhy), s = x.station m p ∧
    x.net.isGround = (configs i).isGround ∧
    ∀ id hops, x.net.neighborHops.get? id = some hops →
      ∃ j, n.HasHeard configs i j ∧ n.distance configs j ≤ hops

/-- A beacon in the transmission says no less than the distance of the station it comes from. -/
def IsHonest (configs : ι → StationConfig) (n : Network ι) (t : Transmission) : Prop :=
  ∀ b, t.packet.beacon? = some b →
    ∃ j, t.packet.origin = (configs j).mac.id ∧ n.distance configs j ≤ b.hops.val

theorem IsTold.mono {s : Station} (h : n.IsTold configs i s) (hgrows : n.Grows after) :
    after.IsTold configs i s := by
  obtain ⟨m, x, p, hs, hground, htold⟩ := h
  refine ⟨m, x, p, hs, hground, fun id hops hget => ?_⟩
  obtain ⟨j, hheard, hle⟩ := htold id hops hget
  exact ⟨j, hgrows.hasHeard hheard, Nat.le_trans (distance_mono hgrows configs j) hle⟩

theorem IsHonest.mono {t : Transmission} (h : n.IsHonest configs t) (hgrows : n.Grows after) :
    after.IsHonest configs t := by
  intro b hb
  obtain ⟨j, horigin, hle⟩ := h b hb
  exact ⟨j, horigin, Nat.le_trans (distance_mono hgrows configs j) hle⟩

/-- Who was told no less than there is takes itself to be no nearer than it is. -/
theorem IsTold.distance_le {s : Station} (h : n.IsTold configs i s) :
    ∃ hops, s.hops? = some hops ∧ n.distance configs i ≤ hops := by
  obtain ⟨m, x, p, rfl, hground, htold⟩ := h
  refine ⟨x.net.hops, rfl, RoutingNet.le_hops (fun h => ?_) (distance_le_highest configs n i) ?_⟩
  · exact Nat.le_zero.1 (IsChain.ground (hground ▸ h)).distance_le
  · intro id hops hget
    obtain ⟨j, hheard, hle⟩ := htold id hops hget
    exact Nat.le_trans hheard.distance_le (Nat.succ_le_succ hle)

/-- Everything that stations know and say of distances is true. -/
structure IsSound (configs : ι → StationConfig) (n : Network ι) : Prop where
  reached : ∀ i, (n.stations i).IsReached (configs i)
  told : ∀ i, n.IsTold configs i (n.stations i)
  honest : ∀ t ∈ n.air, n.IsHonest configs t

/-- What a station transmits is honest, as it was told no less than there is. -/
theorem IsSound.transmits (h : n.IsSound configs) (hwindow : 0 < (configs i).arq.windowSize)
    {call : StationCall} {t : Transmission} (ht : t ∈ (n.stations i).transmits call) :
    n.IsHonest configs t := by
  intro b hb
  obtain ⟨horigin, hops, hhops, hclamp⟩ := (h.reached i).transmits_beacon hwindow ht hb
  obtain ⟨hops', hhops', hle⟩ := (h.told i).distance_le
  rw [hhops] at hhops'
  cases hhops'
  refine ⟨i, horigin, ?_⟩
  rw [hclamp]
  exact Nat.le_min.2 ⟨hle, distance_le_highest configs n i⟩

theorem IsTold.step {s : Station} (h : n.IsTold configs i s) (hs : s.IsReached (configs i))
    (call : StationCall) (hgrows : n.Grows after) (hcall : ∀ t, call = .receive t →
      after.IsHonest configs t ∧ t ∈ after.received i) : after.IsTold configs i (s.step call) := by
  obtain ⟨m, x, p, rfl, hground, htold⟩ := h.mono hgrows
  obtain ⟨m', x', p', hsame, -, hm, -⟩ := hs
  obtain ⟨rfl, rfl, rfl⟩ := Station.station_inj hsame
  obtain ⟨later, y, q, hstep, -, -, -, hknows⟩ := Station.exists_tracked hm x p call
  refine ⟨later, y, q, hstep, ?_, fun id hops hget => ?_⟩
  · rw [show y.net.isGround = _ from hknows.isGround, call.isGround_inform]
    exact hground
  · rw [show y.net.neighborHops = _ from hknows.reports] at hget
    rcases StationCall.reports_inform hget with hold | ⟨t, b, rfl, hb, -, rfl⟩
    · exact htold id hops hold
    · obtain ⟨hhonest, hreceived⟩ := hcall t rfl
      obtain ⟨j, horigin, hle⟩ := hhonest b hb
      exact ⟨j, ⟨t, hreceived, horigin, by rw [hb]; rfl⟩, hle⟩

/-! ### Runs -/

variable [DecidableEq ι]

/-- A call of a station. What it transmits is on the air then. -/
def ask (n : Network ι) (i : ι) (call : StationCall) : Network ι where
  stations := Function.update n.stations i ((n.stations i).step call)
  air := n.air ++ (n.stations i).transmits call
  received := n.received

/-- A transmission arrives at a station. -/
def deliver (n : Network ι) (i : ι) (t : Transmission) : Network ι :=
  { n.ask i (.receive t) with received := Function.update n.received i (n.received i ++ [t]) }

/-- Whatever a host asks, a station receives only what was transmitted. -/
def step (n : Network ι) : NetworkEvent ι → Network ι
  | .ask _ (.receive _) => n
  | .ask i call => n.ask i call
  | .deliver i number =>
    match n.air[number]? with
    | some t => n.deliver i t
    | none => n

def run (n : Network ι) (events : List (NetworkEvent ι)) : Network ι := events.foldl step n

/-- A call keeps everything true, whatever network it leads to where no less was received. -/
theorem IsSound.act (h : n.IsSound configs) (hwindow : 0 < (configs i).arq.windowSize)
    (call : StationCall) (received : ι → List Transmission)
    (hgrows : ∀ j, n.received j ⊆ received j) (hcall : ∀ t, call = .receive t →
      t ∈ n.air ∧ t ∈ received i) : IsSound configs { n.ask i call with received := received } := by
  have hgrown : n.Grows { n.ask i call with received := received } := hgrows
  refine ⟨fun j => ?_, fun j => ?_, fun t ht => ?_⟩
  · by_cases hj : j = i
    · subst hj
      simpa only [ask, Function.update_self] using (h.reached j).step call
    · simpa only [ask, Function.update_of_ne hj] using h.reached j
  · by_cases hj : j = i
    · subst hj
      have htold := (h.told j).step (h.reached j) call hgrown fun t ht =>
        ⟨(h.honest t (hcall t ht).1).mono hgrown, (hcall t ht).2⟩
      simpa only [ask, Function.update_self] using htold
    · have htold := (h.told j).mono hgrown
      simpa only [ask, Function.update_of_ne hj] using htold
  · rcases List.mem_append.1 ht with hold | hnew
    · exact (h.honest t hold).mono hgrown
    · exact (h.transmits hwindow hnew).mono hgrown

theorem IsSound.step (h : n.IsSound configs) (hwindow : ∀ i, 0 < (configs i).arq.windowSize)
    (event : NetworkEvent ι) : (n.step event).IsSound configs := by
  cases event with
  | ask i call =>
    have hact : (∀ t, call ≠ .receive t) → (n.ask i call).IsSound configs := fun hcall =>
      h.act (hwindow i) call n.received (fun _ => List.Subset.refl _) fun t ht =>
        absurd ht (hcall t)
    cases call with
    | receive t => exact h
    | _ => exact hact nofun
  | deliver i number =>
    unfold Network.step
    simp only
    split
    · next t ht =>
      refine h.act (hwindow i) (.receive t) _ (fun j => ?_) fun t' ht' => ?_
      · by_cases hj : j = i
        · subst hj
          rw [Function.update_self]
          exact List.subset_append_left _ _
        · rw [Function.update_of_ne hj]
          exact List.Subset.refl _
      · cases ht'
        rw [Function.update_self]
        exact ⟨List.mem_of_getElem? ht, List.mem_append_right _ List.mem_cons_self⟩
    · exact h

theorem IsSound.run (h : n.IsSound configs) (hwindow : ∀ i, 0 < (configs i).arq.windowSize)
    (events : List (NetworkEvent ι)) : (n.run events).IsSound configs := by
  induction events generalizing n with
  | nil => exact h
  | cons event rest ih => exact ih (h.step hwindow event)

/-- **Hop counts are sound.** Whatever stations do, and in whatever way their transmissions arrive, are
late or get lost: no station has a hop count below its distance from the ground. -/
theorem distance_le_hops {stations : ι → Station}
    (hs : ∀ i, Station.ofConfig (configs i) = .ok (stations i)) (events : List (NetworkEvent ι))
    (i : ι) : ∃ hops, (((start stations).run events).stations i).hops? = some hops ∧
      ((start stations).run events).distance configs i ≤ hops := by
  have hmade : ∀ i, stations i = Station.made (configs i) := fun i =>
    (Station.ofConfig_eq_ok_iff.1 (hs i)).2.2
  have hstart : (start stations).IsSound configs := by
    refine ⟨fun i => ?_, fun i => ?_, nofun⟩
    · change (stations i).IsReached (configs i)
      rw [hmade i]
      exact Station.isReached_made (configs i)
    · exact ⟨_, _, _, hmade i, rfl, nofun⟩
  exact ((hstart.run (fun i => (Station.ofConfig_eq_ok_iff.1 (hs i)).1.1) events).told i).distance_le

/-- A ground station and two others, which all send beacons in every slot. -/
def lineOfThree (i : Fin 3) : StationConfig :=
  { (default : StationConfig) with isGround := i = 0, mac := ⟨⟨(i : Int) + 1⟩, 0, 1, 0⟩ }

/-- The second station hears the first one, and the third one the second. The beacon that the second one
had sent before arrives late. -/
def relayed : List (NetworkEvent (Fin 3)) :=
  [.ask 1 .update, .ask 0 .update, .deliver 1 1, .ask 1 .update, .deliver 2 2, .deliver 2 0]

/-- The late beacon makes the third station forget how near it is. -/
theorem distance_le_hops_relayed :
    (∃ hops, (((start fun i => Station.made (lineOfThree i)).run relayed).stations 2).hops? =
        some hops ∧
      ((start fun i => Station.made (lineOfThree i)).run relayed).distance lineOfThree 2 ≤ hops) ∧
    (((start fun i => Station.made (lineOfThree i)).run (relayed.take 5)).stations 2).hops? =
      some 2 ∧
    (((start fun i => Station.made (lineOfThree i)).run relayed).stations 2).hops? = some 31 := by
  have hconfig : ∀ i, (0 < (lineOfThree i).arq.windowSize ∧
      (lineOfThree i).arq.windowSize ≤ 127) ∧ (lineOfThree i).mac.id.isSymbolic = false := by
    decide
  have hvalid : ∀ i, Station.ofConfig (lineOfThree i) = .ok (Station.made (lineOfThree i)) :=
    fun i => Station.ofConfig_eq_ok_iff.2 ⟨(hconfig i).1, (hconfig i).2, rfl⟩
  exact ⟨distance_le_hops hvalid relayed 2, by decide +kernel, by decide +kernel⟩

end Network

end DataLink
