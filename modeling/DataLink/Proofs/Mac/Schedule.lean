import DataLink.Proofs.Mac.Calls
import DataLink.Proofs.Station.Upper

/-!
# Taking turns

The schedule of the slotted MAC is to hold the broadcast channel and every established link, each
once, and nothing else (`SlotMac.IsScheduled`). Whoever takes turns there gets a slot in time.

A link is set up for whoever asks for it or grants it, and the sender of a packet is only asked to
be set. So a packet may come from a symbolic sender, and if it takes part in setting a link up with
this station, that sender takes turns from then on (`SlotMac.isForged`).

**Theorem (`SlotMac.isScheduled_iff_not_forged`).** In every state of a run the schedule is as it is
to be, if and only if no packet of that kind is received.

The surroundings are arbitrary: whatever the layers around the MAC answer, and whatever changes
there in between, it touches neither the schedule nor the links.
-/

namespace DataLink

variable {ε α : Type}

/-! ## The schedule -/

namespace SlotMac

/-- The broadcast channel and the links take turns. -/
structure IsScheduled (m : SlotMac) : Prop where
  broadcast : m.schedule.count .broadcast = 1
  station : ∀ dest ∈ m.schedule, dest ≠ .broadcast → dest.isSymbolic = false
  links : (m.schedule.filter (· ≠ .broadcast)).Perm m.links
  once : m.links.Nodup

/-- The schedule is the broadcast channel and the links, which all lead to stations. -/
theorem isScheduled_iff {m : SlotMac} : m.IsScheduled ↔
    m.schedule.Perm (.broadcast :: m.links) ∧ m.links.Nodup ∧
      ∀ id ∈ m.links, id.isSymbolic = false := by
  constructor
  · rintro ⟨hbroadcast, hstation, hlinks, honce⟩
    have hmem : ∀ id ∈ m.links, id ∈ m.schedule ∧ id ≠ .broadcast := by
      intro id hid
      simpa using hlinks.mem_iff.2 hid
    refine ⟨List.perm_iff_count.2 fun id => ?_, honce, fun id hid => ?_⟩
    · rw [List.count_cons, ← hlinks.count_eq id]
      by_cases hid : id = .broadcast
      · subst hid
        rw [hbroadcast, List.count_eq_zero_of_not_mem (by simp)]
        rfl
      · rw [List.count_filter (by simpa using hid)]
        simp [Ne.symm hid]
    · exact hstation id (hmem id hid).1 (hmem id hid).2
  · rintro ⟨hschedule, honce, hstation⟩
    have hnot : Address.broadcast ∉ m.links := fun h => by cases hstation _ h
    refine ⟨?_, fun dest hdest hne => ?_, ?_, honce⟩
    · rw [hschedule.count_eq, List.count_cons_self, List.count_eq_zero_of_not_mem hnot]
    · rcases List.mem_cons.1 (hschedule.mem_iff.1 hdest) with h | h
      · exact absurd h hne
      · exact hstation dest h
    · refine (hschedule.filter _).trans ?_
      rw [List.filter_cons_of_neg (by simp), List.filter_eq_self.2]
      intro id hid
      rw [decide_eq_true_eq]
      rintro rfl
      exact hnot hid

/-- The property is about who takes turns and which links there are, not about whose turn it is. -/
def IgnoresTurns (P : SlotMac → Prop) : Prop :=
  ∀ {m after : SlotMac}, after.schedule.Perm m.schedule → after.links = m.links → P m → P after

theorem ignoresTurns_isScheduled : IgnoresTurns IsScheduled := by
  intro m after hschedule hlinks h
  rw [isScheduled_iff, hlinks] at *
  exact ⟨hschedule.trans h.1, h.2⟩

theorem ignoresTurns_hasLink (id : Address) : IgnoresTurns fun m => m.hasLink id = true := by
  intro m after _ hlinks h
  rw [hasLink, hlinks]
  exact h

theorem IsScheduled.isSymbolic_of_hasLink {m : SlotMac} (h : m.IsScheduled) {id : Address}
    (hid : m.hasLink id = true) : id.isSymbolic = false :=
  (isScheduled_iff.1 h).2.2 id (List.contains_iff_mem.1 hid)

theorem IsScheduled.establish {m : SlotMac} (h : m.IsScheduled) {id : Address}
    (hid : id.isSymbolic = false) (hnew : m.hasLink id = false) :
    IsScheduled { m with links := m.links ++ [id], schedule := m.schedule ++ [id] } := by
  obtain ⟨hschedule, honce, hstation⟩ := isScheduled_iff.1 h
  have hnot : id ∉ m.links := by simpa [hasLink] using hnew
  refine isScheduled_iff.2 ⟨hschedule.append_right [id], ?_, fun other hother => ?_⟩
  · exact List.nodup_append.2 ⟨honce, by simp, fun a ha b hb heq =>
      hnot (List.mem_singleton.1 hb ▸ heq ▸ ha)⟩
  · rcases List.mem_append.1 hother with hother | hother
    · exact hstation other hother
    · exact List.mem_singleton.1 hother ▸ hid

theorem IsScheduled.remove {m : SlotMac} (h : m.IsScheduled) {id : Address}
    (hid : m.hasLink id = true) : IsScheduled { m with
      links := m.links.filter fun peer => peer ≠ id
      schedule := m.schedule.filter fun dest => dest ≠ id } := by
  have hne : Address.broadcast ≠ id := by
    rintro rfl
    cases h.isSymbolic_of_hasLink hid
  obtain ⟨hschedule, honce, hstation⟩ := isScheduled_iff.1 h
  refine isScheduled_iff.2 ⟨?_, honce.filter _, fun other hother => ?_⟩
  · have hfilter := hschedule.filter fun dest => decide (dest ≠ id)
    rwa [List.filter_cons_of_pos (by simpa using hne)] at hfilter
  · exact hstation other (List.mem_filter.1 hother).1

/-! ## Setting links up -/

/-- A property of the MAC, whatever is around it. -/
abbrev On (P : SlotMac → Prop) (s : Inside SlotMac ε) : Prop := P s.layer

variable [ArqAbove ε]

/-- A link that was to be set up is there then, whatever the layers above say to it. -/
theorem hasLink_establishLink (id : Address) (s : Inside SlotMac ε) :
    (establishLink id s).2.layer.hasLink id = true := by
  rw [establishLink, Call.bind_apply, Call.change_apply]
  simp only
  rw [Call.bind_apply, Call.own_apply]
  simp only
  split
  · next hlink => exact hlink
  · show (s.layer.links ++ [id]).contains id = true
    simp

/-- A symbolic sender takes part in setting a link up with this station, and nothing in the packet
keeps the MAC from answering it. -/
def isForged (packet : Packet) (s : Inside SlotMac ε) : Bool :=
  s.layer.hears packet && packet.origin.isSymbolic &&
    ((summarize s.layer.config.id packet).isRequest ||
      (summarize s.layer.config.id packet).isReply) &&
    (takeDown packet s).1.isOk

variable [PhyBelow ε]

theorem IgnoresTurns.undisturbed {P : SlotMac → Prop} (hP : IgnoresTurns P) :
    Undisturbed (On P : Inside SlotMac ε → Prop) where
  change _ hschedule hlinks hs := hP hschedule hlinks hs
  outward _ := .outward fun _ hs => ⟨hs, fun _ _ => trivial⟩

theorem undisturbed_hasLink (id : Address) :
    Undisturbed (On fun m => m.hasLink id = true : Inside SlotMac ε → Prop) :=
  IgnoresTurns.undisturbed (ignoresTurns_hasLink id)

theorem hasLink_answer {id : Address} {packet : Packet}
    (h : ((summarize id packet).isRequest || (summarize id packet).isReply) = true)
    (s : Inside SlotMac ε) : (answer id packet s).2.layer.hasLink packet.origin = true := by
  have hignores : Undisturbed (On fun m => m.hasLink packet.origin = true :
      Inside SlotMac ε → Prop) := undisturbed_hasLink packet.origin
  have hkeeps : (establishLink packet.origin : Call (Inside SlotMac ε) Unit).Preserves
      (On fun m => m.hasLink packet.origin = true) := hignores.establishLink fun s hs hnew => by
    rw [On, hnew] at hs
    cases hs
  have hreply : (if (summarize id packet).isReply then establishLink packet.origin else pure () :
      Call (Inside SlotMac ε) Unit).Preserves (On fun m => m.hasLink packet.origin = true) :=
    .ite hkeeps (.pure trivial)
  unfold answer
  cases hrequest : (summarize id packet).isRequest with
  | true =>
    refine Call.Keeps.afterBind ?_ fun _ => hreply
    refine Call.Keeps.afterBind (hasLink_establishLink packet.origin s) fun _ => ?_
    exact .bind .look fun _ _ => .bind (Calm.ofLayer _) fun _ _ =>
      hignores.outward (.inject _)
  | false =>
    rw [hrequest, Bool.false_or] at h
    simp only [Bool.false_eq_true, if_false, pure_bind, h, if_true]
    exact hasLink_establishLink packet.origin s

theorem hasLink_receive {packet : Packet} {s : Inside SlotMac ε} (hhears : s.layer.hears packet = true)
    (hlink : ((summarize s.layer.config.id packet).isRequest ||
      (summarize s.layer.config.id packet).isReply) = true)
    (htaken : (takeDown packet s).1.isOk = true) :
    (receive packet s).2.layer.hasLink packet.origin = true := by
  rw [receive_eq, if_pos hhears, Call.bind_apply]
  rcases hstep : takeDown packet s with ⟨_ | _, t⟩
  · rw [hstep] at htaken
    cases htaken
  · exact Call.Keeps.afterBind (I := On fun m => m.hasLink packet.origin = true)
      (hasLink_answer hlink t) fun _ => (undisturbed_hasLink packet.origin).steady.calm.handsUp _ _

theorem IsScheduled.receive_iff {s : Inside SlotMac ε} (h : s.layer.IsScheduled) (packet : Packet) :
    (receive packet s).2.layer.IsScheduled ↔ isForged packet s = false := by
  have hignores : Undisturbed (On IsScheduled : Inside SlotMac ε → Prop) :=
    ignoresTurns_isScheduled.undisturbed
  cases hforged : isForged packet s with
  | true =>
    -- There is a link to the sender then, and the schedule has no room for that.
    simp only [isForged, Bool.and_eq_true] at hforged
    obtain ⟨⟨⟨hhears, hsymbolic⟩, hlink⟩, htaken⟩ := hforged
    refine iff_of_false (fun hafter => ?_) Bool.noConfusion
    have hstation := hafter.isSymbolic_of_hasLink (hasLink_receive hhears hlink htaken)
    rw [hsymbolic] at hstation
    cases hstation
  | false =>
    refine iff_of_true ?_ rfl
    cases hsymbolic : packet.origin.isSymbolic with
    | false =>
      exact (hignores.steady.receive (hignores.establishLink fun t ht hnew =>
        IsScheduled.establish ht hsymbolic hnew) s h).1
    | true =>
      cases hlink : (summarize s.layer.config.id packet).isRequest ||
          (summarize s.layer.config.id packet).isReply with
      | false => exact hignores.steady.receive_silent hlink h
      | true =>
        have hseen := (hignores.steady.takeDown packet s h).1
        rw [receive_eq]
        split
        · next hhears =>
          -- The MAC fails to take the packet down, and stops there.
          have hfails : (takeDown packet s).1.isOk = false := by
            simpa [isForged, hhears, hsymbolic, hlink] using hforged
          rw [Call.bind_apply]
          rcases hstep : takeDown packet s with ⟨e | _, t⟩
          · rw [hstep] at hseen
            exact hseen
          · rw [hstep] at hfails
            cases hfails
        · exact h

theorem IsScheduled.removeLink {s : Inside SlotMac ε} (h : s.layer.IsScheduled) (id : Address) :
    (SlotMac.removeLink id s).2.layer.IsScheduled :=
  (ignoresTurns_isScheduled.undisturbed.steady.calm.removeLink fun _ ht hlink =>
    IsScheduled.remove ht hlink) s h |>.1

theorem IsScheduled.notifyOutgoing {m : SlotMac} (h : m.IsScheduled) (bits : Nat) (dest : Address) :
    (m.notifyOutgoing bits dest).IsScheduled := by
  simp only [SlotMac.notifyOutgoing]
  split <;> exact ⟨h.broadcast, h.station, h.links, h.once⟩

end SlotMac

/-! ## Runs -/

/-- What happens to a MAC. Whatever the layers around it do by themselves changes nothing but them.
-/
inductive MacCall (ε : Type) where
  | update
  | notifyOutgoing (bits : Nat) (dest : Address)
  | removeLink (id : Address)
  | receive (packet : Packet)
  | setPosition (position : Position) (quality : PositionQuality)
  | elsewhere (change : ε → ε)

namespace SlotMac

variable [ArqAbove ε] [PhyBelow ε]

def step (s : Inside SlotMac ε) : MacCall ε → Inside SlotMac ε
  | .update => (update s).2
  | .notifyOutgoing bits dest => { s with layer := s.layer.notifyOutgoing bits dest }
  | .removeLink id => (removeLink id s).2
  | .receive packet => (receive packet s).2
  | .setPosition position quality => { s with layer := s.layer.setPosition position quality }
  | .elsewhere change => { s with around := change s.around }

def run (s : Inside SlotMac ε) (calls : List (MacCall ε)) : Inside SlotMac ε := calls.foldl step s

/-- The call receives a forged packet. -/
def bringsForged (s : Inside SlotMac ε) : MacCall ε → Bool
  | .receive packet => isForged packet s
  | _ => false

/-- A forged packet is received in a run. -/
def anyForged (s : Inside SlotMac ε) : List (MacCall ε) → Bool
  | [] => false
  | call :: rest => bringsForged s call || anyForged (step s call) rest

/-- **One call.** Whatever happens and whether it succeeds, the schedule stays as it is to be,
unless a forged packet is received; that one spoils it. -/
theorem IsScheduled.step_iff {s : Inside SlotMac ε} (h : s.layer.IsScheduled) (call : MacCall ε) :
    (step s call).layer.IsScheduled ↔ bringsForged s call = false := by
  cases call with
  | receive packet => exact h.receive_iff packet
  | update => exact iff_of_true (ignoresTurns_isScheduled.undisturbed.update s h).1 rfl
  | notifyOutgoing bits dest => exact iff_of_true (h.notifyOutgoing bits dest) rfl
  | removeLink id => exact iff_of_true (h.removeLink id) rfl
  | setPosition position quality =>
    exact iff_of_true ⟨h.broadcast, h.station, h.links, h.once⟩ rfl
  | elsewhere change => exact iff_of_true h rfl

theorem IsScheduled.run_iff {s : Inside SlotMac ε} (h : s.layer.IsScheduled)
    (calls : List (MacCall ε)) :
    (∀ past, past <+: calls → (run s past).layer.IsScheduled) ↔ anyForged s calls = false :=
  forall_prefix_foldl_iff (I := On IsScheduled) (fun _ => rfl) (fun _ _ _ => rfl) id
    (fun hs hfirst => (IsScheduled.step_iff hs _).2 hfirst)
    (fun hs hforged hafter => by
      rw [(IsScheduled.step_iff hs _).1 hafter] at hforged
      cases hforged) h calls

theorem isScheduled_ofConfig {config : MacConfig} {m : SlotMac} (h : ofConfig config = .ok m) :
    m.IsScheduled := by
  rw [ofConfig] at h
  split at h
  · cases h
  · cases h
    exact isScheduled_iff.2 ⟨.refl _, List.nodup_nil, fun _ hid => by cases hid⟩

/-- **The schedule.** Over any surroundings, and whatever is received, done or refused: the
broadcast channel and the links to stations take turns, each once, in every state of a run, if and
only if no symbolic sender has a link set up to itself. -/
theorem isScheduled_iff_not_forged {config : MacConfig} {m : SlotMac}
    (hm : ofConfig config = .ok m) (around : ε) (calls : List (MacCall ε)) :
    (∀ past, past <+: calls → (run ⟨m, around⟩ past).layer.IsScheduled) ↔
      anyForged ⟨m, around⟩ calls = false :=
  IsScheduled.run_iff (isScheduled_ofConfig hm) calls

/-! ### Runs of a station -/

/-- The layers of a station around its MAC, as they are at first. -/
def surroundings : Station :=
  Upper.around (.idle (.outbox (.ofConfig default)))
    ⟨.empty false, .empty 256, ⟨default, 0, .empty⟩⟩

/-- A packet of a sender with one more header. -/
def heard (source : Address) (header : Header) : Packet :=
  .ofMessages [⟨some (.base (.ofSource source)), none⟩, ⟨some header, none⟩]

/-- The unicast part of a header for station 1. -/
def toFirst : UnicastHeader := { (default : UnicastHeader) with dest := ⟨1⟩ }

/-- Links are asked for, granted, torn down and set up again; two packets come from symbolic
senders, a beacon and a request for another station, and one call fails. -/
def linking : List (MacCall Station) :=
  [.notifyOutgoing 8 ⟨2⟩, .update, .receive (heard ⟨2⟩ (.linkReply toFirst default)),
    .receive (heard ⟨3⟩ (.linkRequest toFirst default)), .update,
    .receive (heard .broadcast (.beacon default)), .removeLink ⟨2⟩, .removeLink ⟨2⟩,
    .receive (heard ⟨-5⟩ (.linkRequest { toFirst with dest := ⟨4⟩ } default)),
    .receive (heard ⟨2⟩ (.linkRequest toFirst default)), .update]

/-- The MAC of station 1 as it is made. -/
def ofFirst : SlotMac :=
  ⟨⟨⟨1⟩, 0, 0, 0⟩, 0, [.broadcast], [], [], .empty, .empty, .empty, default, default, false, []⟩

/-- No packet of this run is forged. In the end three parties take turns. -/
theorem isScheduled_linking :
    (∀ past, past <+: linking → (run ⟨ofFirst, surroundings⟩ past).layer.IsScheduled) ∧
      (run ⟨ofFirst, surroundings⟩ linking).layer.schedule = [⟨2⟩, ⟨3⟩, .broadcast] :=
  ⟨(isScheduled_iff_not_forged (show ofConfig ⟨⟨1⟩, 0, 0, 0⟩ = .ok ofFirst from rfl) surroundings
    linking).2 (by decide +kernel), by decide +kernel⟩

/-- A grant in the name of the broadcast channel has that channel take two turns, and none any more
when the link is torn down. A request of a symbolic sender is refused, and that sender takes turns.
-/
theorem not_isScheduled_forged :
    (¬ ∀ calls : List (MacCall Station), (run ⟨ofFirst, surroundings⟩ calls).layer.IsScheduled) ∧
      (run ⟨ofFirst, surroundings⟩ [.receive (heard .broadcast (.linkReply toFirst default))]
        ).layer.schedule = [.broadcast, .broadcast] ∧
      (run ⟨ofFirst, surroundings⟩ [.receive (heard .broadcast (.linkReply toFirst default)),
        .removeLink .broadcast]).layer.schedule = [] ∧
      (run ⟨ofFirst, surroundings⟩ [.receive (heard ⟨-5⟩ (.linkRequest toFirst default))]
        ).layer.schedule = [.broadcast, ⟨-5⟩] := by
  refine ⟨fun h => ?_, by decide +kernel, by decide +kernel, by decide +kernel⟩
  have hcount := (h [.receive (heard .broadcast (.linkReply toFirst default))]).broadcast
  revert hcount
  decide +kernel

end SlotMac

end DataLink
