import DataLink.Proofs.Grammar
import DataLink.Proofs.Rlc.Packets
import Mathlib.Data.List.Basic

/-!
# Packets that were put together

A packet that was put together message by message is led by a base header, and all of its unicast
headers lead to one and the same station (`IsComposed.exists_leadsTo`). Beacons and broadcasts may
stand beside them: such a packet is *shared*, and every station in reach takes it up.

`Packet.withoutOthers` is what a packet says to one station: it leaves out the messages for others.
-/

namespace DataLink

/-! ## Whom messages are for -/

namespace Message

/-- The unicast part of the header, where there is one. -/
def unicast? (m : Message) : Option UnicastHeader := m.header.bind Header.unicast?

/-- A header for another station than `id` leads the message. -/
def isForOther (id : Address) (m : Message) : Bool := m.unicast?.any fun h => h.dest ≠ id

theorem isForOther_iff {id : Address} {m : Message} :
    m.isForOther id = true ↔ ∃ u, m.unicast? = some u ∧ u.dest ≠ id := by
  rw [isForOther]
  cases m.unicast? <;> simp

/-- The message has fields for the ARQ. -/
def isMarked (m : Message) : Bool := m.unicast?.any UnicastHeader.useArq

/-- A segment travels on the broadcast channel, or on that of the station its header leads to. -/
theorem segment?_eq_some {m : Message} {channel : Address} {fragment : Fragment} {segment : Segment}
    (h : m.segment? = some (channel, fragment, segment)) :
    (m.header = some (.broadcast fragment) ∧ channel = .broadcast) ∨
      ∃ u, m.unicast? = some u ∧ channel = u.dest := by
  obtain ⟨header, payload⟩ := m
  simp only [segment?, Option.bind_eq_bind, Option.bind_eq_some_iff, Option.pure_def,
    Option.some.injEq, Prod.mk.injEq] at h
  obtain ⟨_, -, _, -, header, rfl, ⟨own, flags⟩, hchannel, rfl, rfl, -⟩ := h
  cases header <;> cases hchannel
  · exact Or.inl ⟨rfl, rfl⟩
  all_goals exact Or.inr ⟨_, rfl, rfl⟩

end Message

namespace Packet

/-- The packet without the messages for other stations than `id`. -/
def withoutOthers (id : Address) (p : Packet) : Packet :=
  { p with messages := p.messages.filter fun m => !m.isForOther id }

/-- The packet travels on a channel that every station listens to. -/
def isShared (p : Packet) : Bool := p.contains .beacon || p.contains .broadcast

/-- The packet was put together message by message. -/
inductive IsComposed : Packet → Prop
  | empty (watchers : List Watcher) : IsComposed ⟨[], watchers⟩
  | add {p out : Packet} {header : Option Header} {payload : Option Payload}
      (hp : IsComposed p) (h : p.add header payload = .ok out) : IsComposed out

/-- Adds messages one by one. -/
def addAll (p : Packet) (messages : List Message) : Except PacketError Packet :=
  messages.foldlM (fun p m => p.add m.header m.payload) p

/-- All unicast headers of the packet lead to the station `dest`. -/
structure LeadsTo (p : Packet) (dest : Address) : Prop where
  station : dest.isSymbolic = false
  headers : ∀ u ∈ p.unicastHeaders, u.dest = dest

variable {p out : Packet} {id dest : Address}

/-! ## Composition -/

theorem IsComposed.addAll (hp : p.IsComposed) (messages : List Message)
    (h : p.addAll messages = .ok out) : out.IsComposed := by
  induction messages generalizing p with
  | nil =>
    cases h
    exact hp
  | cons m rest ih =>
    rw [Packet.addAll, List.foldlM_cons, bind_eq_ok] at h
    obtain ⟨next, hnext, h⟩ := h
    exact ih (hp.add hnext) h

theorem IsComposed.isGrammatical (h : p.IsComposed) : IsGrammatical p.headers := by
  induction h with
  | empty watchers => exact isGrammatical_nil
  | add hp hadd ih =>
    obtain ⟨rfl, hout⟩ := (ih.add_eq_ok_iff (m := ⟨_, _⟩)).1 hadd
    exact hout

/-- The unicast headers of a packet that was put together lead to one station. -/
theorem IsComposed.exists_leadsTo (h : p.IsComposed) : ∃ dest, p.LeadsTo dest := by
  obtain ⟨dest, hstation, hdest⟩ := h.isGrammatical.station
  exact ⟨dest, hstation, hdest⟩

/-- A packet that was put together is led by a base header, if by any. -/
theorem IsComposed.lead (h : p.IsComposed) :
    p.headers = [] ∨ ∃ b rest, p.headers = .base b :: rest :=
  h.isGrammatical.lead

/-! ## What is left without the messages for others -/

theorem mem_unicastHeaders_iff {u : UnicastHeader} :
    u ∈ p.unicastHeaders ↔ ∃ m ∈ p.messages, m.unicast? = some u := by
  simp only [unicastHeaders, headers, List.mem_filterMap, Message.unicast?,
    Option.bind_eq_some_iff]
  constructor
  · rintro ⟨h, ⟨m, hm, hheader⟩, hu⟩
    exact ⟨m, hm, h, hheader, hu⟩
  · rintro ⟨m, hm, h, hheader, hu⟩
    exact ⟨h, ⟨m, hm, hheader⟩, hu⟩

theorem withoutOthers_eq_self (h : ∀ m ∈ p.messages, m.isForOther id = false) :
    p.withoutOthers id = p := by
  rw [withoutOthers, List.filter_eq_self.2 fun m hm => by rw [h m hm]; rfl]

/-- Where no message for others has a segment, all segments are left. -/
theorem segments_withoutOthers (h : ∀ m ∈ p.messages, m.isForOther id = true → m.segment? = none) :
    (p.withoutOthers id).messages.filterMap Message.segment? =
      p.messages.filterMap Message.segment? := by
  rw [withoutOthers, List.filterMap_filter]
  refine List.filterMap_congr fun m hm => ?_
  cases hother : m.isForOther id with
  | true => rw [h m hm hother]; rfl
  | false => rfl

theorem IsSound.withoutOthers (h : p.IsSound) (id : Address) : (p.withoutOthers id).IsSound :=
  fun s hs => h s ((List.filter_sublist.filterMap _).subset hs)

namespace LeadsTo

theorem ne_of_isForOther (h : p.LeadsTo dest) {m : Message} (hm : m ∈ p.messages)
    (hother : m.isForOther id = true) : dest ≠ id := by
  obtain ⟨u, hu, hne⟩ := Message.isForOther_iff.1 hother
  rwa [h.headers u (mem_unicastHeaders_iff.2 ⟨m, hm, hu⟩)] at hne

theorem isForOther (h : p.LeadsTo dest) (hne : dest ≠ id) {m : Message} (hm : m ∈ p.messages) :
    m.isForOther id = m.unicast?.isSome := by
  rw [Message.isForOther]
  cases hu : m.unicast? with
  | none => rfl
  | some u => simpa [h.headers u (mem_unicastHeaders_iff.2 ⟨m, hm, hu⟩)] using hne

/-- All segments for another station are on the channel that the packet leads to. -/
theorem channel_eq (h : p.LeadsTo dest) {m : Message} (hm : m ∈ p.messages)
    (hother : m.isForOther id = true) {channel : Address} {piece : Fragment × Segment}
    (hs : m.segment? = some (channel, piece)) : channel = dest := by
  obtain ⟨u, hu, -⟩ := Message.isForOther_iff.1 hother
  rcases Message.segment?_eq_some hs with ⟨hheader, -⟩ | ⟨v, hv, hchannel⟩
  · rw [Message.unicast?, hheader] at hu
    cases hu
  · rw [hchannel, h.headers v (mem_unicastHeaders_iff.2 ⟨m, hm, hv⟩)]

theorem messages_withoutOthers (h : p.LeadsTo dest) (hne : dest ≠ id) :
    (p.withoutOthers id).messages = p.messages.filter fun m => m.unicast?.isNone := by
  refine List.filter_congr fun m hm => ?_
  rw [h.isForOther hne hm]
  cases m.unicast? <;> rfl

theorem headers_withoutOthers (h : p.LeadsTo dest) (hne : dest ≠ id) :
    (p.withoutOthers id).headers = p.headers.filter fun h => h.unicast?.isNone := by
  rw [Packet.headers, h.messages_withoutOthers hne, Packet.headers, List.filterMap_filter,
    List.filter_filterMap]
  refine List.filterMap_congr fun m _ => ?_
  obtain ⟨_ | header, payload⟩ := m
  · rfl
  · cases hu : header.unicast? <;> simp [Message.unicast?, Option.filter, hu]

theorem unicastHeaders_withoutOthers (h : p.LeadsTo dest) (hne : dest ≠ id) :
    (p.withoutOthers id).unicastHeaders = [] := by
  rw [unicastHeaders, h.headers_withoutOthers hne, List.filterMap_eq_nil_iff]
  intro header hheader
  simpa using (List.mem_filter.1 hheader).2

theorem withoutOthers (h : p.LeadsTo dest) (hne : dest ≠ id) :
    (p.withoutOthers id).LeadsTo dest := by
  refine ⟨h.station, fun u hu => ?_⟩
  rw [h.unicastHeaders_withoutOthers hne] at hu
  cases hu

theorem contains_withoutOthers (h : p.LeadsTo dest) (hne : dest ≠ id) {frameType : FrameType}
    (htype : frameType.isUnicastFamily = false) :
    (p.withoutOthers id).contains frameType = p.contains frameType := by
  rw [contains, h.headers_withoutOthers hne, List.any_filter, contains]
  congr 1
  funext header
  by_cases hheader : header.frameType = frameType
  · have hnone := Header.isUnicastFamily_frameType header
    rw [hheader, htype] at hnone
    simpa [hheader] using hnone.symm
  · simp [hheader]

theorem isShared_withoutOthers (h : p.LeadsTo dest) (hne : dest ≠ id) :
    (p.withoutOthers id).isShared = p.isShared := by
  rw [isShared, h.contains_withoutOthers hne rfl, h.contains_withoutOthers hne rfl, isShared]

theorem origin_withoutOthers (h : p.LeadsTo dest) (hne : dest ≠ id) (hp : p.IsComposed) :
    (p.withoutOthers id).origin = p.origin := by
  rw [origin, h.headers_withoutOthers hne, origin]
  rcases hp.lead with hnil | ⟨b, rest, hrest⟩
  · rw [hnil]
    rfl
  · rw [hrest]
    rfl

/-- What is left without the messages for another station is not on the channel of that station. -/
theorem segment_withoutOthers (h : p.LeadsTo dest) (hne : dest ≠ id) {m : Message}
    (hm : m ∈ (p.withoutOthers id).messages) {channel : Address} {fragment : Fragment}
    {segment : Segment} (hs : m.segment? = some (channel, fragment, segment)) :
    m.header = some (.broadcast fragment) ∧ channel = .broadcast := by
  rw [h.messages_withoutOthers hne] at hm
  obtain ⟨-, hnone⟩ := List.mem_filter.1 hm
  refine (Message.segment?_eq_some hs).resolve_right ?_
  rintro ⟨u, hu, -⟩
  rw [hu] at hnone
  cases hnone

/-- Nothing is left to put together of a packet that was not shared. -/
theorem segments_of_not_isShared (h : p.LeadsTo dest) (hne : dest ≠ id)
    (hshared : p.isShared = false) :
    (p.withoutOthers id).messages.filterMap Message.segment? = [] := by
  rw [← h.isShared_withoutOthers hne, isShared, Bool.or_eq_false_iff] at hshared
  refine List.filterMap_eq_nil_iff.2 fun m hm => ?_
  cases hs : m.segment? with
  | none => rfl
  | some found =>
    obtain ⟨channel, fragment, segment⟩ := found
    have hheader := (h.segment_withoutOthers hne hm hs).1
    have hcontains : (p.withoutOthers id).contains .broadcast = true :=
      List.any_eq_true.2 ⟨_, List.mem_filterMap.2 ⟨m, hm, hheader⟩, rfl⟩
    rw [hshared.2] at hcontains
    cases hcontains

end LeadsTo

theorem dest_of_isShared (h : p.isShared = true) : p.dest.isSymbolic = true := by
  rw [dest]
  cases hbeacon : p.contains .beacon with
  | true => rfl
  | false =>
    rw [isShared, hbeacon, Bool.false_or] at h
    rw [h]
    rfl

theorem dest_of_not_isShared (h : p.isShared = false) :
    p.dest = (p.unicastHeaders.head?.map UnicastHeader.dest).getD .unset := by
  rw [isShared, Bool.or_eq_false_iff] at h
  rw [dest, h.1, h.2]
  cases p.unicastHeaders <;> rfl

end Packet

end DataLink
