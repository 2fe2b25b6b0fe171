import DataLink.Packet
import DataLink.Proofs.Basic

/-!
# What a packet says

The ARQ writes its fields into the unicast headers of a packet and the MAC its source into the base
header; a copy is watched by nobody. `Packet.content` is the packet without all that, so it is the
same for a frame that is built, sent, sent again, received and handed up. Whether a packet is a frame
at all, and whether its segments fit into a word, can be read off the content.
-/

namespace DataLink

/-- The header without the fields of the ARQ. -/
def UnicastHeader.unstamp (h : UnicastHeader) : UnicastHeader :=
  { h with useArq := false, seq := .unset, nextExpected := .unset, rejects := .empty }

theorem Header.frameType_mapUnicast (f : UnicastHeader → UnicastHeader) (h : Header) :
    (h.mapUnicast f).frameType = h.frameType := by
  cases h <;> rfl

theorem Header.unicast?_mapUnicast (f : UnicastHeader → UnicastHeader) (h : Header) :
    (h.mapUnicast f).unicast? = h.unicast?.map f := by
  cases h <;> rfl

theorem Header.mapUnicast_mapUnicast (f g : UnicastHeader → UnicastHeader) (h : Header) :
    (h.mapUnicast f).mapUnicast g = h.mapUnicast fun u => g (f u) := by
  cases h <;> rfl

namespace Packet

/-- The packet up to what the ARQ and the MAC write into it. -/
def content (p : Packet) : Packet := (p.copy.mapUnicast UnicastHeader.unstamp).sign .unset

/-- The frame types of the headers. -/
def shape (p : Packet) : List FrameType := p.headers.map Header.frameType

/-- The packet has data for a station, behind a base header. -/
structure IsFrame (p : Packet) : Prop where
  lead : p.shape.head? = some .base
  data : p.shape.any FrameType.isUnicastFamily = true

/-- The segments of the packet end within a word of bits. -/
def IsSound (p : Packet) : Prop :=
  ∀ s, Payload.segment s ∈ p.payloads → s.offset + s.length ≤ Word.highest

/-- The packet is empty or led by a base header, and its segments are sound. -/
structure IsBuilt (p : Packet) : Prop where
  lead : p.messages = [] ∨ p.shape.head? = some .base
  sound : p.IsSound

theorem unicastHeaders_isEmpty (p : Packet) :
    p.unicastHeaders.isEmpty = !p.shape.any FrameType.isUnicastFamily := by
  rw [unicastHeaders, shape]
  induction p.headers with
  | nil => rfl
  | cons h rest ih =>
    rw [List.map_cons, List.any_cons, Header.isUnicastFamily_frameType, List.filterMap_cons]
    cases h.unicast? with
    | none => simpa using ih
    | some u => rfl

theorem IsFrame.unicastHeaders {p : Packet} (h : p.IsFrame) :
    p.unicastHeaders.isEmpty = false := by
  rw [unicastHeaders_isEmpty, h.data]
  rfl

theorem IsBuilt.isFrame {p : Packet} (h : p.IsBuilt)
    (hdata : p.unicastHeaders.isEmpty = false) : p.IsFrame := by
  rw [unicastHeaders_isEmpty, Bool.not_eq_false'] at hdata
  refine ⟨h.lead.resolve_left fun hnil => ?_, hdata⟩
  simp [shape, headers, hnil] at hdata

theorem headers_add {p out : Packet} {header : Header} {payload : Option Payload}
    (h : p.add (some header) payload = .ok out) : out.headers = p.headers ++ [header] := by
  obtain ⟨_, -, hout⟩ := bind_eq_ok.1 h
  cases hout
  rw [headers, List.filterMap_append, headers]
  rfl

theorem unicastHeaders_add {p out : Packet} {header : UnicastHeader} {payload : Option Payload}
    (h : p.add (some (.unicast header)) payload = .ok out) :
    out.unicastHeaders = p.unicastHeaders ++ [header] := by
  rw [unicastHeaders, headers_add h, List.filterMap_append, unicastHeaders]
  rfl

theorem size_add {p out : Packet} {header : Header} {payload : Option Payload}
    (h : p.add (some header) payload = .ok out) : out.size = p.size + 1 := by
  obtain ⟨_, -, hout⟩ := bind_eq_ok.1 h
  cases hout
  rw [size, List.length_append, List.length_singleton, size]

/-- There is a base header in front of a unicast header that is added. -/
theorem IsBuilt.lead_of_add {p out : Packet} (hbuilt : p.IsBuilt) {header : UnicastHeader}
    {payload : Option Payload} (h : p.add (some (.unicast header)) payload = .ok out) :
    p.shape.head? = some .base := by
  obtain ⟨_, hcheck, -⟩ := bind_eq_ok.1 h
  refine hbuilt.lead.resolve_left fun hnil => ?_
  rw [headers, hnil] at hcheck
  cases hcheck

theorem lead_add {p out : Packet} {header : Header} {payload : Option Payload}
    (hlead : p.shape.head? = some .base) (h : p.add (some header) payload = .ok out) :
    out.shape.head? = some .base := by
  rw [shape, headers_add h, List.map_append, List.head?_append]
  change p.shape.head?.or _ = _
  rw [hlead]
  rfl

theorem size_pos_of_lead {p : Packet} (h : p.shape.head? = some .base) : 0 < p.size := by
  refine List.length_pos_iff.2 fun hnil => ?_
  rw [shape, headers, hnil] at h
  cases h

/-- A frame has a message for its base header and one for its data. -/
theorem IsFrame.one_lt_size {p : Packet} (h : p.IsFrame) : 1 < p.size := by
  obtain ⟨hlead, hdata⟩ := h
  have hle : p.shape.length ≤ p.size := by
    rw [shape, List.length_map]
    exact List.length_filterMap_le _ _
  cases hs : p.shape with
  | nil =>
    rw [hs] at hlead
    cases hlead
  | cons first rest =>
    rw [hs] at hlead hdata hle
    cases hlead
    cases rest with
    | nil => cases hdata
    | cons second rest =>
      rw [List.length_cons, List.length_cons] at hle
      omega

/-! ## Writing into a packet -/

theorem size_mapUnicast (f : UnicastHeader → UnicastHeader) (p : Packet) :
    (p.mapUnicast f).size = p.size := by
  rw [size, mapUnicast, mapHeaders, List.length_map, size]

theorem headers_mapUnicast (f : UnicastHeader → UnicastHeader) (p : Packet) :
    (p.mapUnicast f).headers = p.headers.map (Header.mapUnicast f) := by
  simp only [headers, mapUnicast, mapHeaders, List.filterMap_map, List.map_filterMap]
  rfl

theorem unicastHeaders_mapUnicast (f : UnicastHeader → UnicastHeader) (p : Packet) :
    (p.mapUnicast f).unicastHeaders = p.unicastHeaders.map f := by
  have hcomp : Header.unicast? ∘ Header.mapUnicast f = fun h => h.unicast?.map f :=
    funext fun h => Header.unicast?_mapUnicast f h
  rw [unicastHeaders, headers_mapUnicast, List.filterMap_map, hcomp, unicastHeaders,
    List.map_filterMap]

theorem shape_mapUnicast (f : UnicastHeader → UnicastHeader) (p : Packet) :
    (p.mapUnicast f).shape = p.shape := by
  rw [shape, headers_mapUnicast, List.map_map, shape]
  exact List.map_congr_left fun h _ => Header.frameType_mapUnicast f h

theorem payloads_mapUnicast (f : UnicastHeader → UnicastHeader) (p : Packet) :
    (p.mapUnicast f).payloads = p.payloads := by
  simp only [payloads, mapUnicast, mapHeaders, List.filterMap_map]
  rfl

theorem mapUnicast_mapUnicast (f g : UnicastHeader → UnicastHeader) (p : Packet) :
    (p.mapUnicast f).mapUnicast g = p.mapUnicast fun h => g (f h) := by
  simp only [mapUnicast, mapHeaders, List.map_map, Packet.mk.injEq, and_true]
  refine List.map_congr_left fun m _ => ?_
  simp only [Function.comp_apply, Option.map_map, Message.mk.injEq, and_true]
  exact Option.map_congr fun h _ => Header.mapUnicast_mapUnicast f g h

/-- Signing goes through a list of messages like any change that leaves base headers alone. -/
theorem signMessages_mapUnicast (source : Address) (f : UnicastHeader → UnicastHeader)
    (messages : List Message) :
    signMessages source (messages.map fun m => { m with header := m.header.map (Header.mapUnicast f) }) =
      (signMessages source messages).map
        fun m => { m with header := m.header.map (Header.mapUnicast f) } := by
  fun_induction signMessages source messages with
  | case1 => rfl
  | case2 h payload rest => rfl
  | case3 m rest hbase ih =>
    rw [List.map_cons, List.map_cons, ← ih]
    obtain ⟨header, payload⟩ := m
    cases header with
    | none => rfl
    | some h =>
      cases h with
      | base b => exact absurd rfl (hbase b payload)
      | _ => rfl

theorem sign_mapUnicast (source : Address) (f : UnicastHeader → UnicastHeader) (p : Packet) :
    (p.mapUnicast f).sign source = (p.sign source).mapUnicast f := by
  simp only [sign, mapUnicast, mapHeaders, signMessages_mapUnicast]

theorem sign_sign (first second : Address) (p : Packet) :
    (p.sign first).sign second = p.sign second := by
  simp only [sign, Packet.mk.injEq, and_true]
  fun_induction signMessages first p.messages with
  | case1 => rfl
  | case2 h payload rest => rfl
  | case3 m rest hbase ih =>
    rw [signMessages, signMessages, ih]
    · exact hbase
    · exact hbase

theorem unicastHeaders_sign (source : Address) (p : Packet) :
    (p.sign source).unicastHeaders = p.unicastHeaders := by
  simp only [sign, unicastHeaders, headers]
  fun_induction signMessages source p.messages with
  | case1 => rfl
  | case2 h payload rest => rfl
  | case3 m rest hbase ih =>
    simp only [List.filterMap_cons]
    split
    · exact ih
    · simp only [List.filterMap_cons, ih]

theorem shape_sign (source : Address) (p : Packet) : (p.sign source).shape = p.shape := by
  simp only [sign, shape, headers]
  fun_induction signMessages source p.messages with
  | case1 => rfl
  | case2 h payload rest => rfl
  | case3 m rest hbase ih =>
    simp only [List.filterMap_cons]
    split
    · exact ih
    · simp only [List.map_cons, ih]

theorem payloads_sign (source : Address) (p : Packet) :
    (p.sign source).payloads = p.payloads := by
  simp only [sign, payloads]
  fun_induction signMessages source p.messages with
  | case1 => rfl
  | case2 h payload rest => rfl
  | case3 m rest hbase ih =>
    simp only [List.filterMap_cons, ih]

/-- A packet that is led by a base header comes from whoever signed it. -/
theorem origin_sign {p : Packet} (h : p.shape.head? = some .base) (source : Address) :
    (p.sign source).origin = source := by
  obtain ⟨messages, watchers⟩ := p
  simp only [sign, shape, headers, origin] at h ⊢
  fun_induction signMessages source messages with
  | case1 => simp at h
  | case2 b payload rest => rfl
  | case3 m rest hbase ih =>
    obtain ⟨header, payload⟩ := m
    cases header with
    | none => exact ih h
    | some header =>
      cases header with
      | base b => exact absurd rfl (hbase b payload)
      | _ => simp [Header.frameType] at h

/-! ## The content stays -/

theorem content_copy (p : Packet) : p.copy.content = p.content := rfl

theorem content_sign (source : Address) (p : Packet) : (p.sign source).content = p.content := by
  rw [content, content, show (p.sign source).copy = p.copy.sign source from rfl,
    ← sign_mapUnicast, sign_sign]

theorem content_mapUnicast {f : UnicastHeader → UnicastHeader} (h : ∀ u, (f u).unstamp = u.unstamp)
    (p : Packet) : (p.mapUnicast f).content = p.content := by
  rw [content, content, show (p.mapUnicast f).copy = p.copy.mapUnicast f from rfl,
    mapUnicast_mapUnicast]
  simp only [h]

theorem shape_content (p : Packet) : p.content.shape = p.shape := by
  rw [content, shape_sign, shape_mapUnicast]
  rfl

theorem payloads_content (p : Packet) : p.content.payloads = p.payloads := by
  rw [content, payloads_sign, payloads_mapUnicast]
  rfl

theorem isFrame_content {p : Packet} : p.content.IsFrame ↔ p.IsFrame := by
  constructor
  · intro h
    exact ⟨shape_content p ▸ h.lead, shape_content p ▸ h.data⟩
  · intro h
    exact ⟨(shape_content p).symm ▸ h.lead, (shape_content p).symm ▸ h.data⟩

theorem isSound_content {p : Packet} : p.content.IsSound ↔ p.IsSound := by
  rw [IsSound, payloads_content, IsSound]

end Packet

end DataLink
