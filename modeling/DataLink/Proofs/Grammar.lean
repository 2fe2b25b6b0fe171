import DataLink.Proofs.Packet
import Mathlib.Data.List.Induction

/-!
# The grammar of packets

`Packet.checkNext` looks at one new header and at the headers that are there already. Together these
checks let through one language of header lists (`Packet.IsGrammatical`): nothing at all, or a base
header and behind it no other base header, a beacon before everything else that is addressed,
broadcasts before the headers for a station, and these all for one and the same station.

**Theorem (`addUntil_empty`).** Messages are added to the empty packet one by one until one is refused.
None is refused exactly if their headers are in the language. Otherwise the first one to leave it is
refused, and the packet holds the messages before it.

A header that is taken out may have been the base header, and what is left is in the language no more.
But every part of a grammatical list still is in the *order* of the grammar (`Packet.IsOrdered`), and an
ordered packet accepts a header exactly if it is in order behind the others. This is the invariant of
packets that are built and taken apart at will:

**Theorem (`resolves_edits`).** Whatever is added to the empty packet and taken out again, its headers
for stations agree on one station, it is for whom its first addressed header names, and it is from whom
its base header names, of which there is at most one, like beacons.
-/

namespace DataLink

namespace Packet

/-- The headers stand in the order of the grammar, with or without a base header in front. -/
structure IsOrdered (headers : List Header) : Prop where
  /-- No base header stands behind another header. -/
  base : headers.Pairwise fun _ later => later.frameType ≠ .base
  /-- No beacon and no header with another address stands before a beacon. -/
  beacon : headers.Pairwise fun h later => later.frameType = .beacon → h.dest? = none
  /-- No header for a station stands before a broadcast. -/
  broadcast : headers.Pairwise fun h later => later.frameType = .broadcast → h.unicast? = none
  /-- All headers for stations are for the same one. -/
  station : ∃ dest : Address, dest.isSymbolic = false ∧
    ∀ u ∈ headers.filterMap Header.unicast?, u.dest = dest

/-- The header lists that a packet may be composed of. -/
structure IsGrammatical (headers : List Header) : Prop extends IsOrdered headers where
  lead : headers = [] ∨ ∃ b rest, headers = .base b :: rest

/-- The new header is in order behind the others. -/
structure MayFollow (headers : List Header) (new : Header) : Prop where
  base : new.frameType = .base → headers = []
  beacon : new.frameType = .beacon → ∀ h ∈ headers, h.dest? = none
  broadcast : new.frameType = .broadcast → ∀ h ∈ headers, h.unicast? = none
  station : ∀ u, new.unicast? = some u →
    u.dest.isSymbolic = false ∧ ∀ v ∈ headers.filterMap Header.unicast?, v.dest = u.dest

variable {headers : List Header} {new : Header} {p out : Packet}

/-! ## Ordered headers -/

theorem isOrdered_nil : IsOrdered [] :=
  ⟨List.Pairwise.nil, List.Pairwise.nil, List.Pairwise.nil, ⟨⟨0⟩, rfl, fun u hu => by cases hu⟩⟩

theorem isGrammatical_nil : IsGrammatical [] := ⟨isOrdered_nil, Or.inl rfl⟩

theorem IsOrdered.sublist (h : IsOrdered headers) {part : List Header}
    (hpart : part.Sublist headers) : IsOrdered part := by
  obtain ⟨dest, hdest, hall⟩ := h.station
  exact ⟨h.base.sublist hpart, h.beacon.sublist hpart, h.broadcast.sublist hpart,
    dest, hdest, fun u hu => hall u ((hpart.filterMap _).subset hu)⟩

/-- Headers are in order if each of them may follow those before it. -/
theorem isOrdered_concat :
    IsOrdered (headers ++ [new]) ↔ IsOrdered headers ∧ MayFollow headers new := by
  constructor
  · intro h
    obtain ⟨dest, hdest, hall⟩ := h.station
    simp only [List.filterMap_append, List.mem_append] at hall
    have behind : ∀ {R : Header → Header → Prop}, (headers ++ [new]).Pairwise R →
        ∀ h ∈ headers, R h new :=
      fun hR h hh => (List.pairwise_append.1 hR).2.2 h hh new List.mem_cons_self
    refine ⟨h.sublist (List.sublist_append_left _ _), ?_, fun hnew h' hh => behind h.beacon h' hh hnew,
      fun hnew h' hh => behind h.broadcast h' hh hnew, fun u hu => ?_⟩
    · intro hnew
      exact List.eq_nil_iff_forall_not_mem.2 fun h' hh => behind h.base h' hh hnew
    · have hnew : u.dest = dest := hall u (Or.inr (by simp [hu]))
      exact ⟨hnew ▸ hdest, fun v hv => (hall v (Or.inl hv)).trans hnew.symm⟩
  · rintro ⟨h, hnew⟩
    have concat : ∀ {R : Header → Header → Prop}, headers.Pairwise R →
        (∀ h ∈ headers, R h new) → (headers ++ [new]).Pairwise R :=
      fun hR hall => List.pairwise_append.2 ⟨hR, List.pairwise_singleton _ _,
        fun h hh later hlater => List.mem_singleton.1 hlater ▸ hall h hh⟩
    refine ⟨concat h.base fun h' hh hbase => ?_, concat h.beacon fun h' hh hb => hnew.beacon hb h' hh,
      concat h.broadcast fun h' hh hb => hnew.broadcast hb h' hh, ?_⟩
    · rw [hnew.base hbase] at hh
      cases hh
    · cases hu : new.unicast? with
      | none =>
        obtain ⟨dest, hdest, hall⟩ := h.station
        exact ⟨dest, hdest, by simpa [List.filterMap_append, hu] using hall⟩
      | some u =>
        obtain ⟨hstation, hsame⟩ := hnew.station u hu
        refine ⟨u.dest, hstation, fun v hv => ?_⟩
        rw [List.filterMap_append] at hv
        rcases List.mem_append.1 hv with hv | hv
        · exact hsame v hv
        · rw [List.filterMap_cons_some hu] at hv
          rw [List.mem_singleton.1 hv]

/-! ## What is accepted -/

theorem unless_eq_ok {refused : Bool} {e : PacketError} :
    (if refused = true then Except.error e else Except.ok ()) = .ok () ↔ refused = false := by
  cases refused <;> simp

theorem checkNext_nil_iff : checkNext [] new = .ok () ↔ ∃ b, new = .base b := by
  cases new <;> simp [checkNext]

/-- A header for a station is accepted if it is for the station that the first one is for. -/
theorem checkNext_unicast_iff {u : UnicastHeader} (hu : new.unicast? = some u)
    (hheaders : headers ≠ []) :
    checkNext headers new = .ok () ↔ u.dest.isSymbolic = false ∧
      ∀ v ∈ (headers.filterMap Header.unicast?).head?, v.dest = u.dest := by
  obtain ⟨lead, rest, rfl⟩ := List.exists_cons_of_ne_nil hheaders
  cases new <;> cases hu
  all_goals
    simp only [checkNext]
    cases u.dest.isSymbolic with
    | true => simp
    | false => cases (lead :: rest).filterMap Header.unicast? <;> simp

theorem IsOrdered.eq_of_head? (h : IsOrdered headers) {dest : Address} :
    (∀ v ∈ (headers.filterMap Header.unicast?).head?, v.dest = dest) ↔
      ∀ v ∈ headers.filterMap Header.unicast?, v.dest = dest := by
  obtain ⟨station, -, hall⟩ := h.station
  refine ⟨fun hfirst v hv => ?_, fun hsame v hv => hsame v (List.mem_of_mem_head? hv)⟩
  cases hlist : headers.filterMap Header.unicast? with
  | nil =>
    rw [hlist] at hv
    cases hv
  | cons first others =>
    have hmem : first ∈ headers.filterMap Header.unicast? := hlist ▸ List.mem_cons_self
    rw [hall v hv, ← hall first hmem, hfirst first (hlist ▸ rfl)]

theorem mayFollow_unicast_iff {u : UnicastHeader} (hu : new.unicast? = some u) :
    MayFollow headers new ↔ u.dest.isSymbolic = false ∧
      ∀ v ∈ headers.filterMap Header.unicast?, v.dest = u.dest := by
  refine ⟨fun h => h.station u hu, fun h => ?_⟩
  cases new <;> cases hu
  all_goals exact ⟨nofun, nofun, nofun, fun w hw => by cases hw; exact h⟩

theorem checkNext_iff_mayFollow (h : IsOrdered headers) (hheaders : headers ≠ []) :
    checkNext headers new = .ok () ↔ MayFollow headers new := by
  have hunicast : ∀ {u}, new.unicast? = some u →
      (checkNext headers new = .ok () ↔ MayFollow headers new) := fun hu => by
    rw [checkNext_unicast_iff hu hheaders, mayFollow_unicast_iff hu, h.eq_of_head?]
  obtain ⟨lead, rest, rfl⟩ := List.exists_cons_of_ne_nil hheaders
  cases new with
  | base b => exact ⟨nofun, fun hnew => absurd (hnew.base rfl) hheaders⟩
  | broadcast fragment =>
    simp only [checkNext, unless_eq_ok, List.any_eq_false, Header.isUnicastFamily_frameType,
      Option.not_isSome_iff_eq_none]
    exact ⟨fun hall => ⟨nofun, nofun, fun _ => hall, nofun⟩, fun hnew => hnew.broadcast rfl⟩
  | beacon b =>
    simp only [checkNext, unless_eq_ok, List.any_eq_false, Option.not_isSome_iff_eq_none]
    exact ⟨fun hall => ⟨nofun, fun _ => hall, nofun, nofun⟩, fun hnew => hnew.beacon rfl⟩
  | unicast u => exact hunicast rfl
  | linkRequest u r => exact hunicast rfl
  | linkReply u r => exact hunicast rfl
  | dmeRequest => exact ⟨fun _ => ⟨nofun, nofun, nofun, nofun⟩, fun _ => rfl⟩
  | dmeResponse requester => exact ⟨fun _ => ⟨nofun, nofun, nofun, nofun⟩, fun _ => rfl⟩

/-! ## Composition -/

/-- A list of headers is composed one by one. -/
theorem isGrammatical_concat :
    IsGrammatical (headers ++ [new]) ↔ IsGrammatical headers ∧ checkNext headers new = .ok () := by
  -- In front of all others the check is another one: a header that is in order there, like one for
  -- ranging, is refused all the same.
  cases hheaders : headers with
  | nil =>
    rw [checkNext_nil_iff, List.nil_append]
    constructor
    · rintro ⟨-, hnil | ⟨b, rest, hlead⟩⟩
      · cases hnil
      · exact ⟨isGrammatical_nil, b, (List.cons.inj hlead).1⟩
    · rintro ⟨-, b, rfl⟩
      have hnew : MayFollow [] (.base b) := ⟨fun _ => rfl, nofun, nofun, nofun⟩
      exact ⟨isOrdered_concat.2 ⟨isOrdered_nil, hnew⟩, Or.inr ⟨b, [], rfl⟩⟩
  | cons first rest =>
    constructor
    · rintro ⟨hordered, hlead⟩
      obtain ⟨hrest, hnew⟩ := isOrdered_concat.1 hordered
      refine ⟨⟨hrest, ?_⟩, (checkNext_iff_mayFollow hrest (List.cons_ne_nil _ _)).2 hnew⟩
      rcases hlead with hnil | ⟨b, others, hlead⟩
      · cases hnil
      · exact Or.inr ⟨b, rest, by rw [(List.cons.inj hlead).1]⟩
    · rintro ⟨⟨hrest, hlead⟩, hcheck⟩
      have hnew := (checkNext_iff_mayFollow hrest (List.cons_ne_nil _ _)).1 hcheck
      refine ⟨isOrdered_concat.2 ⟨hrest, hnew⟩, ?_⟩
      rcases hlead with hnil | ⟨b, others, hlead⟩
      · cases hnil
      · exact Or.inr ⟨b, others ++ [new], by rw [hlead]; rfl⟩

theorem IsGrammatical.of_append {more : List Header} (h : IsGrammatical (headers ++ more)) :
    IsGrammatical headers := by
  induction more using List.reverseRecOn with
  | nil => rwa [List.append_nil] at h
  | append_singleton more last ih =>
    rw [← List.append_assoc] at h
    exact ih (isGrammatical_concat.1 h).1

/-- Adds messages one by one until one is refused, and says why it is. -/
def addUntil (p : Packet) : List Message → Packet × Option PacketError
  | [] => (p, none)
  | m :: rest =>
    match p.add m.header m.payload with
    | .ok next => next.addUntil rest
    | .error e => (p, some e)

/-- The packet with more messages at the end. -/
def append (p : Packet) (messages : List Message) : Packet :=
  { p with messages := p.messages ++ messages }

theorem headers_append (p : Packet) (messages : List Message) :
    (p.append messages).headers = p.headers ++ messages.filterMap Message.header :=
  List.filterMap_append

theorem append_append (p : Packet) (messages more : List Message) :
    (p.append messages).append more = p.append (messages ++ more) := by
  rw [append, append, append, List.append_assoc]

theorem add_eq_ok_iff {m : Message} :
    p.add m.header m.payload = .ok out ↔
      out = p.append [m] ∧ ∀ header ∈ m.header, checkNext p.headers header = .ok () := by
  obtain ⟨header, payload⟩ := m
  cases header with
  | none => exact ⟨fun h => by cases h; exact ⟨rfl, nofun⟩, fun h => by rw [h.1]; rfl⟩
  | some header =>
    rw [add, bind_eq_ok]
    constructor
    · rintro ⟨_, hcheck, hout⟩
      cases hout
      exact ⟨rfl, fun h hh => by cases hh; exact hcheck⟩
    · rintro ⟨rfl, hcheck⟩
      exact ⟨(), hcheck header rfl, rfl⟩

theorem IsGrammatical.add_eq_ok_iff (hp : IsGrammatical p.headers) {m : Message} :
    p.add m.header m.payload = .ok out ↔
      out = p.append [m] ∧ IsGrammatical (p.append [m]).headers := by
  rw [Packet.add_eq_ok_iff, headers_append]
  cases hm : m.header with
  | none => simpa [hm] using fun _ => hp
  | some header => simp [hm, isGrammatical_concat, hp]

theorem addUntil_of_isGrammatical (messages : List Message)
    (h : IsGrammatical (p.append messages).headers) :
    p.addUntil messages = (p.append messages, none) := by
  induction messages generalizing p with
  | nil => rw [addUntil, append, List.append_nil]
  | cons m rest ih =>
    have hcons : (p.append [m]).append rest = p.append (m :: rest) := append_append p [m] rest
    rw [← hcons, headers_append] at h
    have hm := h.of_append
    have hp : IsGrammatical p.headers := by
      rw [headers_append] at hm
      exact hm.of_append
    rw [addUntil, hp.add_eq_ok_iff.2 ⟨rfl, hm⟩, ← hcons]
    exact ih (headers_append _ rest ▸ h)

/-- Of messages that do not keep to the language, those before the first to leave it are added. -/
theorem addUntil_of_not_isGrammatical (hp : IsGrammatical p.headers) (messages : List Message)
    (h : ¬IsGrammatical (p.append messages).headers) :
    ∃ past m rest e, messages = past ++ m :: rest ∧ IsGrammatical (p.append past).headers ∧
      ¬IsGrammatical (p.append (past ++ [m])).headers ∧
      p.addUntil messages = (p.append past, some e) := by
  induction messages generalizing p with
  | nil =>
    rw [headers_append, List.filterMap_nil, List.append_nil] at h
    exact absurd hp h
  | cons m rest ih =>
    cases hadd : p.add m.header m.payload with
    | ok next =>
      obtain ⟨rfl, hm⟩ := hp.add_eq_ok_iff.1 hadd
      rw [← List.singleton_append, ← append_append] at h
      obtain ⟨past, first, others, e, rfl, hpast, hfirst, hend⟩ := ih hm h
      rw [append_append] at hpast hfirst hend
      exact ⟨m :: past, first, others, e, rfl, hpast, hfirst, by rw [addUntil, hadd]; exact hend⟩
    | error e =>
      have hnone : p.append [] = p := by rw [append, List.append_nil]
      refine ⟨[], m, rest, e, rfl, hnone.symm ▸ hp, fun hm => ?_, by rw [addUntil, hadd, hnone]⟩
      cases hadd.symm.trans (hp.add_eq_ok_iff.2 ⟨rfl, hm⟩)

/-- Messages are accepted exactly as far as their headers keep to the language. -/
theorem addUntil_empty (messages : List Message) :
    ((empty.addUntil messages).2 = none ↔ IsGrammatical (ofMessages messages).headers) ∧
      ((empty.addUntil messages).2 = none →
        (empty.addUntil messages).1 = ofMessages messages) ∧
      (¬IsGrammatical (ofMessages messages).headers →
        ∃ past m rest e, messages = past ++ m :: rest ∧
          IsGrammatical (ofMessages past).headers ∧
          ¬IsGrammatical (ofMessages (past ++ [m])).headers ∧
          empty.addUntil messages = (ofMessages past, some e)) := by
  have hrefused := addUntil_of_not_isGrammatical (p := empty) isGrammatical_nil messages
  by_cases h : IsGrammatical (ofMessages messages).headers
  · rw [addUntil_of_isGrammatical (p := empty) messages h]
    exact ⟨iff_of_true rfl h, fun _ => rfl, fun hnot => absurd h hnot⟩
  · obtain ⟨past, m, rest, e, hsplit, hpast, hm, hend⟩ := hrefused h
    refine ⟨?_, ?_, fun _ => ⟨past, m, rest, e, hsplit, hpast, hm, hend⟩⟩
    · rw [hend]
      exact iff_of_false nofun h
    · rw [hend]
      exact nofun

/-! ## Whom an ordered packet is for, and whom it is from -/

theorem unaddressed (h : ∀ header ∈ headers, header.dest? = none) :
    (headers.any fun h => h.frameType = .beacon) = false ∧
      (headers.any fun h => h.frameType = .broadcast) = false ∧
      headers.filterMap Header.unicast? = [] := by
  simp only [List.any_eq_false, decide_eq_true_eq, List.filterMap_eq_nil_iff, ← forall₂_and]
  intro header hheader
  have hnone := h header hheader
  cases header <;> simp [Header.dest?, Header.frameType, Header.unicast?] at hnone ⊢

/-- Behind a header that may not stand before this type, there is none of it. -/
theorem none_behind {P : Header → Prop} {header : Header} {rest : List Header}
    {frameType : FrameType} (hP : ¬P header) (h : (header :: rest).Pairwise fun earlier later =>
      later.frameType = frameType → P earlier) :
    (rest.any fun later => later.frameType = frameType) = false :=
  List.any_eq_false.2 fun _ hlater htype =>
    hP (List.rel_of_pairwise_cons h hlater (of_decide_eq_true htype))

/-- The first addressed header says whom a packet in order is for. -/
theorem IsOrdered.dest_eq (h : IsOrdered p.headers) :
    p.dest = (p.headers.findSome? Header.dest?).getD .unset := by
  rw [dest, contains, contains, unicastHeaders]
  cases hfirst : p.headers.findSome? Header.dest? with
  | none =>
    obtain ⟨hbeacon, hbroadcast, hunicast⟩ := unaddressed (List.findSome?_eq_none_iff.1 hfirst)
    rw [hbeacon, hbroadcast, hunicast]
    rfl
  | some dest =>
    obtain ⟨past, header, rest, hsplit, hdest, hpast⟩ := List.findSome?_eq_some_iff.1 hfirst
    obtain ⟨hbeacon, hbroadcast, hunicast⟩ := unaddressed hpast
    rw [hsplit] at h
    -- `dest` asks for a beacon first, then for a broadcast: neither comes behind what was found first.
    have hbeaconless : (rest.any fun h => h.frameType = .beacon) = false :=
      none_behind (by simp [hdest]) (List.pairwise_append.1 h.beacon).2.1
    have hbroadcastless : header.unicast? ≠ none →
        (rest.any fun h => h.frameType = .broadcast) = false := fun hsome =>
      none_behind hsome (List.pairwise_append.1 h.broadcast).2.1
    rw [hsplit, List.any_append, List.any_append, List.any_cons, List.any_cons,
      List.filterMap_append, hbeacon, hbroadcast, hunicast, hbeaconless]
    cases header with
    | broadcast fragment =>
      cases hdest
      rfl
    | beacon b =>
      cases hdest
      rfl
    | base b => cases hdest
    | dmeRequest => cases hdest
    | dmeResponse requester => cases hdest
    | _ =>
      cases hdest
      rw [hbroadcastless (Option.some_ne_none _)]
      rfl

theorem IsOrdered.origin_eq (h : IsOrdered p.headers) :
    p.origin = (p.base?.map BaseHeader.source).getD .unset := by
  cases hheaders : p.headers with
  | nil =>
    rw [origin, base?, hheaders]
    rfl
  | cons first rest =>
    have hbehind := hheaders ▸ h.base
    cases first with
    | base b =>
      rw [origin, base?, hheaders]
      rfl
    | _ =>
      have hnone : p.base? = none := by
        rw [base?, hheaders]
        refine List.findSome?_eq_none_iff.2 fun header hheader => ?_
        rcases List.mem_cons.1 hheader with rfl | hlater
        · rfl
        · have hne := List.rel_of_pairwise_cons hbehind hlater
          cases header with
          | base b => exact absurd rfl hne
          | _ => rfl
      rw [hnone, origin, hheaders]
      rfl

theorem count_le_one {frameType : FrameType} (h : headers.Pairwise fun header later =>
      later.frameType = frameType → header.frameType ≠ frameType) :
    headers.countP (fun header => header.frameType = frameType) ≤ 1 := by
  induction h with
  | nil => exact Nat.zero_le 1
  | @cons first rest hfirst hrest ih =>
    by_cases htype : first.frameType = frameType
    · have hnone : rest.countP (fun header => header.frameType = frameType) = 0 :=
        List.countP_eq_zero.2 fun later hlater hsame =>
          hfirst later hlater (of_decide_eq_true hsame) htype
      rw [List.countP_cons, hnone]
      split <;> omega
    · rwa [List.countP_cons_of_neg (by simpa using htype)]

/-! ## Building and taking apart -/

/-- One change of a packet from outside. -/
inductive Edit where
  | add (header : Option Header) (payload : Option Payload)
  | erase (index : Nat)

/-- A change that is refused leaves the packet as it is. -/
def edit (p : Packet) : Edit → Packet
  | .add header payload => (p.add header payload).toOption.getD p
  | .erase index => ((p.erase index).toOption.map Prod.snd).getD p

theorem IsOrdered.add {header : Option Header} {payload : Option Payload}
    (h : IsOrdered p.headers) (hadd : p.add header payload = .ok out) : IsOrdered out.headers := by
  obtain ⟨rfl, hcheck⟩ := add_eq_ok_iff (m := ⟨header, payload⟩).1 hadd
  rw [headers_append]
  cases header with
  | none => rwa [show List.filterMap Message.header [⟨none, payload⟩] = [] from rfl, List.append_nil]
  | some new =>
    have hnew := hcheck new rfl
    -- The packet may have lost its base header, so it need not be in the language before.
    by_cases hnil : p.headers = []
    · rw [hnil] at hnew ⊢
      exact (isGrammatical_concat.2 ⟨isGrammatical_nil, hnew⟩).toIsOrdered
    · exact isOrdered_concat.2 ⟨h, (checkNext_iff_mayFollow h hnil).1 hnew⟩

theorem IsOrdered.erase {index : Nat} {m : Message} (h : IsOrdered p.headers)
    (herase : p.erase index = .ok (m, out)) : IsOrdered out.headers := by
  rw [Packet.erase] at herase
  split at herase
  · cases herase
    exact h.sublist ((List.eraseIdx_sublist _ index).filterMap _)
  · cases herase

theorem IsOrdered.edit (h : IsOrdered p.headers) (change : Edit) :
    IsOrdered (p.edit change).headers := by
  cases change with
  | add header payload =>
    rw [Packet.edit]
    cases hadd : p.add header payload with
    | ok out => exact h.add hadd
    | error e => exact h
  | erase index =>
    rw [Packet.edit]
    cases herase : p.erase index with
    | ok out => exact h.erase herase
    | error e => exact h

theorem isOrdered_edits (changes : List Edit) : IsOrdered (changes.foldl edit empty).headers := by
  induction changes using List.reverseRecOn with
  | nil => exact isOrdered_nil
  | append_singleton changes change ih =>
    rw [List.foldl_append]
    exact ih.edit change

/-- A packet is for whom its first addressed header names and from whom its base header names,
whatever is added to it and taken out again. -/
theorem resolves_edits (changes : List Edit) :
    let p := changes.foldl edit empty
    p.dest = (p.headers.findSome? Header.dest?).getD .unset ∧
      p.origin = (p.base?.map BaseHeader.source).getD .unset ∧
      (∃ station : Address, station.isSymbolic = false ∧
        ∀ u ∈ p.unicastHeaders, u.dest = station) ∧
      p.headers.countP (fun h => h.frameType = .base) ≤ 1 ∧
      p.headers.countP (fun h => h.frameType = .beacon) ≤ 1 := by
  intro p
  have h : IsOrdered p.headers := isOrdered_edits changes
  refine ⟨h.dest_eq, h.origin_eq, h.station, count_le_one ?_, count_le_one ?_⟩
  · exact h.base.imp fun hne hbase => absurd hbase hne
  · refine h.beacon.imp fun {header later} hbehind hbeacon hfirst => ?_
    have hnone := hbehind hbeacon
    cases header with
    | beacon b => cases hnone
    | _ => cases hfirst

end Packet

end DataLink
