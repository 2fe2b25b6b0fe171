import DataLink.Proofs.SideBySide
import DataLink.Proofs.Arq.Calls
import DataLink.Station.Config

/-!
# Two ARQs without ARQ traffic

A selective-repeat ARQ that protects nobody and hears no ARQ fields has the same effect as one that
passes everything through. It still keeps links and a clock, and asks the RLC in a way of its own, but
nothing is ever sent or received on its links (`SelectiveRepeat.IsUnused`).

**Theorem (`interchangeable_without_arq`).** Take any station and put a selective-repeat ARQ in it, or one
that passes through. Whatever is asked of the ARQ and whatever else goes on, the rest of the station is
the same in both, up to the last delivery and the last report of demand; and so is each answer. That is
so as long as every packet that is asked for is for a symbolic address, unless the ARQ protects nobody
at all, and no packet that is received has ARQ fields. Two answers may differ: what becomes of a link
that is ended, and whether an address is protected.

Each call of the ARQ comes to one call of a neighbor, the same for both kinds (`mirrors_passOn`). While
the call lasts neither ARQ is in its seat, so the neighbors cannot tell one station from the other.
-/

namespace DataLink

variable {ε α : Type} {config : ArqConfig}

/-! ## An ARQ that is not used -/

namespace SelectiveRepeat

/-- Nothing was sent or received on any link. -/
structure IsUnused (config : ArqConfig) (a : SelectiveRepeat) : Prop where
  config : a.config = config
  link : ∀ id, a.link id = .fresh

variable {a : SelectiveRepeat}

theorem IsUnused.linkUp (h : a.IsUnused config) (id : Address) : (a.linkUp id).IsUnused config :=
  ⟨h.config, fun other => (link_setLink_self a id other).trans (h.link other)⟩

theorem IsUnused.linkDown (h : a.IsUnused config) {id : Address} {after : SelectiveRepeat}
    (hdown : a.linkDown id = .ok after) : after.IsUnused config := by
  obtain ⟨l, -, hafter⟩ := bind_eq_ok.1 hdown
  cases hafter
  refine ⟨h.config, fun other => ?_⟩
  rw [link_erase]
  split
  · rfl
  · exact h.link other

theorem IsUnused.tick (h : a.IsUnused config) (slots : Nat) : (a.tick slots).IsUnused config :=
  ⟨h.config, h.link⟩

theorem isOwing_fresh {window : Nat} (hpos : 0 < window) (slot : Nat) :
    Link.fresh.isOwing window slot = false := by
  have hroom : Link.fresh.isFull window = false := decide_eq_false (Nat.not_le_of_lt hpos)
  rw [Link.isOwing, hroom]
  rfl

end SelectiveRepeat

namespace ArqLayer

open SelectiveRepeat (IsUnused)

/-- The one layer is a selective-repeat ARQ that was not used, the other one passes through. -/
def Exchanged (config : ArqConfig) (a b : ArqLayer) : Prop :=
  (∃ sel : SelectiveRepeat, sel.IsUnused config ∧ a = .selective sel) ∧ b = .passThrough

/-- The layers are exchanged, and what lies around them is the same. -/
abbrev Exchange (config : ArqConfig) : Inside ArqLayer ε → Inside ArqLayer ε → Prop :=
  Inside.Alike (Exchanged config) Eq

/-- A call for which both kinds of layers make one and the same call to a neighbor has the same result
in both. -/
theorem mirrors_passOn {f : Call (Inside ArqLayer ε) α} (step : Call ε α)
    (hpass : ∀ e, f ⟨.passThrough, e⟩ = ((step e).1, ⟨.passThrough, (step e).2⟩))
    (hselective : ∀ (sel : SelectiveRepeat) e, sel.IsUnused config → ∃ after : SelectiveRepeat,
      after.IsUnused config ∧ f ⟨.selective sel, e⟩ = ((step e).1, ⟨.selective after, (step e).2⟩)) :
    f.Mirrors (Exchange config) f Eq := by
  rintro ⟨_, e⟩ ⟨_, _⟩ ⟨⟨⟨sel, hsel, rfl⟩, rfl⟩, rfl⟩
  obtain ⟨after, hafter, heq⟩ := hselective sel e hsel
  rw [heq, hpass]
  exact ⟨.refl _, ⟨⟨after, hafter, rfl⟩, rfl⟩, rfl⟩

theorem mirrors_outward (step : Call ε α) :
    (Call.outward step : Call (Inside ArqLayer ε) α).Mirrors (Exchange config) (Call.outward step) Eq :=
  mirrors_passOn step (fun _ => rfl) fun sel _ hsel => ⟨sel, hsel, rfl⟩

/-! ## Calls of the ARQ -/

variable {bits frame : Nat} {dest : Address} {packet : Packet}

theorem mirrors_tick (slots : Nat) :
    (Call.change (ArqLayer.tick slots) : Call (Inside ArqLayer ε) Unit).Mirrors (Exchange config)
      (Call.change (ArqLayer.tick slots)) Eq :=
  mirrors_passOn (pure ()) (fun _ => rfl) fun sel _ hsel => ⟨sel.tick slots, hsel.tick slots, rfl⟩

variable [Journal ε]

theorem mirrors_linkUp (id : Address) :
    (linkUp id : Call (Inside ArqLayer ε) Unit).Mirrors (Exchange config) (linkUp id) Eq :=
  mirrors_passOn (pure ()) (fun _ => rfl) fun sel _ hsel => ⟨sel.linkUp id, hsel.linkUp id, rfl⟩

/-- Only the selective-repeat ARQ refuses to end a link that does not exist. -/
theorem mirrors_linkDown (id : Address) :
    (Call.attempt (linkDown id) : Call (Inside ArqLayer ε) _).Mirrors (Exchange config)
      (Call.attempt (linkDown id)) fun _ _ => True := by
  rintro ⟨_, e⟩ ⟨_, _⟩ ⟨⟨⟨sel, hsel, rfl⟩, rfl⟩, rfl⟩
  cases hdown : sel.linkDown id with
  | error refusal =>
    have hrefused : Call.attempt (linkDown id) ⟨.selective sel, e⟩ =
        (.ok (.error refusal), ⟨.selective sel, e⟩) := by
      simp only [Call.attempt, linkDown, Call.bind_apply, Call.own_apply, hdown, Call.ofLayer,
        Call.fail_apply]
    rw [hrefused]
    exact ⟨.ok trivial, ⟨⟨sel, hsel, rfl⟩, rfl⟩, rfl⟩
  | ok after =>
    have hended : Call.attempt (linkDown id) ⟨.selective sel, e⟩ =
        (.ok (.ok ()), ⟨.selective after, e⟩) := by
      simp only [Call.attempt, linkDown, Call.bind_apply, Call.own_apply, hdown, Call.ofLayer,
        Call.pure_apply, Call.change_apply]
    rw [hended]
    exact ⟨.ok trivial, ⟨⟨after, hsel.linkDown hdown, rfl⟩, rfl⟩, rfl⟩

variable [RlcAbove ε]

/-- For an address that is not protected, the RLC answers alone. -/
theorem requestBurst_of_isUnused {sel : SelectiveRepeat} (hsel : sel.IsUnused config)
    (hopen : config.protectUnicast = true → dest.isSymbolic = true) (e : ε) :
    requestBurst bits dest frame ⟨.selective sel, e⟩ = ((RlcAbove.requestBurst bits dest frame e).1,
      ⟨.selective sel, (RlcAbove.requestBurst bits dest frame e).2⟩) := by
  have hunprotected : sel.isProtected dest = false := by
    rw [SelectiveRepeat.isProtected, hsel.config, Bool.and_eq_false_iff, Bool.not_eq_false']
    exact (Bool.eq_false_or_eq_true config.protectUnicast).symm.imp id hopen
  simp only [requestBurst, Call.bind_apply, Call.own_apply, Call.embed]
  rw [SelectiveRepeat.requestBurst_unprotected hunprotected]

theorem mirrors_requestBurst (hopen : config.protectUnicast = true → dest.isSymbolic = true) :
    (requestBurst bits dest frame : Call (Inside ArqLayer ε) Packet).Mirrors (Exchange config)
      (requestBurst bits dest frame) Eq :=
  mirrors_passOn (RlcAbove.requestBurst bits dest frame) (fun _ => rfl) fun sel e hsel =>
    ⟨sel, hsel, requestBurst_of_isUnused hsel hopen e⟩

/-- A request outside a burst goes to the RLC as one for the first frame, or as it is. -/
theorem mirrors_request (hopen : config.protectUnicast = true → dest.isSymbolic = true)
    (hfirst : (RlcAbove.request bits dest : Call ε Packet) = RlcAbove.requestBurst bits dest 0) :
    (request bits dest : Call (Inside ArqLayer ε) Packet).Mirrors (Exchange config)
      (request bits dest) Eq := by
  refine mirrors_passOn (RlcAbove.requestBurst bits dest 0) (fun e => ?_) fun sel e hsel =>
    ⟨sel, hsel, requestBurst_of_isUnused hsel hopen e⟩
  rw [← hfirst]
  rfl

theorem mirrors_receive (hplain : ∀ h ∈ packet.unicastHeaders, h.useArq = false) :
    (receive packet : Call (Inside ArqLayer ε) Unit).Mirrors (Exchange config) (receive packet) Eq := by
  refine mirrors_passOn (RlcAbove.receive packet) (fun _ => rfl) fun sel e hsel => ⟨sel, hsel, ?_⟩
  have hnone : packet.arqHeader? = none := by
    rw [Packet.arqHeader?, List.find?_eq_none.2 fun h hh => Bool.eq_false_iff.1 (hplain h hh), ite_self]
  simp only [receive, Call.bind_apply, Call.own_apply, Call.embed]
  rw [SelectiveRepeat.receive_apply, hnone]

omit [Journal ε] in
theorem mirrors_hasMore (hpos : 0 < config.windowSize) :
    (hasMore dest : Call (Inside ArqLayer ε) Bool).Mirrors (Exchange config) (hasMore dest) Eq := by
  refine mirrors_passOn (RlcAbove.hasMore dest) (fun _ => rfl) fun sel e hsel => ⟨sel, hsel, ?_⟩
  simp only [hasMore, bySelective, SelectiveRepeat.hasMore, Call.bind_apply, Call.own_apply, Call.embed]
  cases hget : sel.links.get? dest with
  | none => rfl
  | some l =>
    obtain rfl : l = .fresh := (SelectiveRepeat.link_eq_of_get? hget).symm.trans (hsel.link dest)
    have hquiet := SelectiveRepeat.isOwing_fresh (hsel.config.symm ▸ hpos) sel.slot
    simp only [hquiet, Bool.false_eq_true, if_false]
    rfl

end ArqLayer

/-! ## Everything that is asked of an ARQ -/

/-- What is asked of an ARQ, by the layers next to it or from outside. -/
inductive SublayerCall where
  | notifyOutgoing (bits : Nat) (dest : Address)
  | request (bits : Nat) (dest : Address)
  | requestBurst (bits : Nat) (dest : Address) (frame : Nat)
  | receive (packet : Packet)
  | inject (packet : Packet)
  | linkUp (id : Address)
  | linkDown (id : Address)
  | isProtected (id : Address)
  | hasMore (dest : Address)
  | tick (slots : Nat)
  | report (id : Address) (hops : Nat)
  | hops

inductive SublayerAnswer where
  | done
  /-- The ARQ knows no link that could be ended. -/
  | refused (e : LayerError)
  | packet (p : Packet)
  | flag (b : Bool)
  | count (n : Nat)
deriving DecidableEq

namespace SublayerCall

/-- A packet is asked for that is not protected, or one without ARQ fields is received, or the call is
about something else. -/
def isPlain (config : ArqConfig) : SublayerCall → Bool
  | request _ dest | requestBurst _ dest _ => !config.protectUnicast || dest.isSymbolic
  | receive packet => packet.unicastHeaders.all fun h => !h.useArq
  | _ => true

/-- The two kinds of ARQ are to give the same answer. -/
def isCompared : SublayerCall → Bool
  | linkDown _ | isProtected _ => false
  | _ => true

/-- Both answers are the same, if they are compared. -/
def Agrees (call : SublayerCall) (x y : SublayerAnswer) : Prop := call.isCompared = true → x = y

variable [Journal ε] [RlcAbove ε] [MacBelow ε]

/-- Asks an ARQ. That a link cannot be ended is an answer as well. -/
def ask : SublayerCall → Call (Inside ArqLayer ε) SublayerAnswer
  | .notifyOutgoing bits dest => do
    ArqLayer.notifyOutgoing bits dest
    return .done
  | .request bits dest => return .packet (← ArqLayer.request bits dest)
  | .requestBurst bits dest frame => return .packet (← ArqLayer.requestBurst bits dest frame)
  | .receive packet => do
    ArqLayer.receive packet
    return .done
  | .inject packet => do
    ArqLayer.inject packet
    return .done
  | .linkUp id => do
    ArqLayer.linkUp id
    return .done
  | .linkDown id => do
    match ← Call.attempt (ArqLayer.linkDown id) with
    | .ok () => return .done
    | .error e => return .refused e
  | .isProtected id => return .flag ((← Call.own).isProtected id)
  | .hasMore dest => return .flag (← ArqLayer.hasMore dest)
  | .tick slots => do
    Call.change (ArqLayer.tick slots)
    return .done
  | .report id count => do
    ArqLayer.report id count
    return .done
  | .hops => return .count (← ArqLayer.hops)

theorem isSymbolic_of_isPlain {dest : Address}
    (hplain : (!config.protectUnicast || dest.isSymbolic) = true) :
    config.protectUnicast = true → dest.isSymbolic = true := by
  intro hprotect
  rw [hprotect] at hplain
  exact hplain

omit [Journal ε] [RlcAbove ε] [MacBelow ε] in
theorem mirrors_answer {f : Call (Inside ArqLayer ε) α} (answer : α → SublayerAnswer)
    (hf : f.Mirrors (ArqLayer.Exchange config) f Eq) (call : SublayerCall) :
    (f >>= fun a => pure (answer a)).Mirrors (ArqLayer.Exchange config)
      (f >>= fun a => pure (answer a)) call.Agrees :=
  hf.bind_same fun _ => .pure fun _ => rfl

/-- **One call.** Over the same neighbors, both kinds of ARQ give the same answer to a plain call. -/
theorem mirrors_ask (hpos : 0 < config.windowSize)
    (hfirst : ∀ bits dest, (RlcAbove.request bits dest : Call ε Packet) =
      RlcAbove.requestBurst bits dest 0) {call : SublayerCall} (hplain : call.isPlain config = true) :
    (ask call : Call (Inside ArqLayer ε) SublayerAnswer).Mirrors (ArqLayer.Exchange config) (ask call)
      call.Agrees := by
  cases call with
  | notifyOutgoing bits dest => exact mirrors_answer _ (ArqLayer.mirrors_outward _) _
  | request bits dest =>
    have hopen := isSymbolic_of_isPlain hplain
    exact mirrors_answer .packet (ArqLayer.mirrors_request hopen (hfirst bits dest)) _
  | requestBurst bits dest frame =>
    have hopen := isSymbolic_of_isPlain hplain
    exact mirrors_answer .packet (ArqLayer.mirrors_requestBurst hopen) _
  | receive packet =>
    have hfields : ∀ h ∈ packet.unicastHeaders, h.useArq = false := by
      simpa [isPlain] using hplain
    exact mirrors_answer _ (ArqLayer.mirrors_receive hfields) _
  | inject packet => exact mirrors_answer _ (ArqLayer.mirrors_outward _) _
  | linkUp id => exact mirrors_answer _ (ArqLayer.mirrors_linkUp id) _
  | linkDown id =>
    refine Call.Mirrors.bind (ArqLayer.mirrors_linkDown id) fun x y _ => ?_
    cases x <;> cases y <;> exact .pure fun hcompared => Bool.noConfusion hcompared
  | isProtected id =>
    exact Call.Mirrors.bind .own fun _ _ _ => .pure fun hcompared => Bool.noConfusion hcompared
  | hasMore dest => exact mirrors_answer .flag (ArqLayer.mirrors_hasMore hpos) _
  | tick slots => exact mirrors_answer _ (ArqLayer.mirrors_tick slots) _
  | report id count => exact mirrors_answer _ (ArqLayer.mirrors_outward _) _
  | hops => exact mirrors_answer .count (ArqLayer.mirrors_outward _) _

end SublayerCall

/-! ## Stations -/

namespace Station

/-- The station with this ARQ in the seat. -/
def withArq (layer : ArqLayer) (s : Station) : Station := { s with arq := .idle layer }

/-- The station as its ARQ finds it: all of it but the ARQ. -/
def aroundArq (s : Station) : Station := { s with arq := .entered }

/-- The stations differ in the kind of their ARQ, and in nothing else. Were the ARQ ever taken from its
seat while a call is in it, they would not even differ in that. -/
def Exchanged (config : ArqConfig) (s t : Station) : Prop :=
  s = t ∨ ∃ sel : SelectiveRepeat, sel.IsUnused config ∧ s.arq = .idle (.selective sel) ∧
    t = s.withArq .passThrough

variable {s t : Station} {σ : Type}

theorem Exchanged.aroundArq_eq (h : Exchanged config s t) : s.aroundArq = t.aroundArq := by
  rcases h with rfl | ⟨sel, -, -, rfl⟩
  · rfl
  · rfl

theorem Exchanged.wired (h : Exchanged config s t) : t.wired = s.wired := by
  rcases h with rfl | ⟨sel, -, -, rfl⟩
  · rfl
  · rfl

/-- A change that neither sees the ARQ nor touches it keeps the stations alike. -/
theorem Exchanged.map (h : Exchanged config s t) {f : Station → Station}
    (harq : ∀ s, (f s).arq = s.arq) (hblind : ∀ s layer, f (s.withArq layer) = (f s).withArq layer) :
    Exchanged config (f s) (f t) := by
  rcases h with rfl | ⟨sel, hsel, hs, rfl⟩
  · exact Or.inl rfl
  · exact Or.inr ⟨sel, hsel, (harq s).trans hs, hblind s .passThrough⟩

/-- While a call is in its ARQ, a station looks the same with either kind. -/
theorem mirrors_enterArq {f : Call (Inside ArqLayer Station) α} {Q : α → α → Prop}
    (hrefl : ∀ a, Q a a) (hf : f.Mirrors (ArqLayer.Exchange config) f Q) :
    (Place.arq.enter f).Mirrors (Exchanged config) (Place.arq.enter f) Q := by
  rintro s t (rfl | ⟨sel, hsel, hs, rfl⟩)
  · refine ⟨?_, Or.inl rfl⟩
    cases (Place.arq.enter f s).1 with
    | ok a => exact .ok (hrefl a)
    | error e => exact .error e
  · obtain ⟨hmatch, hlayer, haround⟩ := hf ⟨.selective sel, s.aroundArq⟩ ⟨.passThrough, s.aroundArq⟩
      ⟨⟨⟨sel, hsel, rfl⟩, rfl⟩, rfl⟩
    have hselective : Place.arq.enter f s = ((f ⟨.selective sel, s.aroundArq⟩).1,
        Place.arq.put (((f ⟨.selective sel, s.aroundArq⟩).2.around.arq).leave
          (f ⟨.selective sel, s.aroundArq⟩).2.layer) (f ⟨.selective sel, s.aroundArq⟩).2.around) := by
      simp only [Place.enter, Place.arq, hs, Seat.enter]
      rfl
    have hpass : Place.arq.enter f (s.withArq .passThrough) = ((f ⟨.passThrough, s.aroundArq⟩).1,
        Place.arq.put (((f ⟨.passThrough, s.aroundArq⟩).2.around.arq).leave
          (f ⟨.passThrough, s.aroundArq⟩).2.layer) (f ⟨.passThrough, s.aroundArq⟩).2.around) := rfl
    rw [hselective, hpass]
    generalize f ⟨.selective sel, s.aroundArq⟩ = x, f ⟨.passThrough, s.aroundArq⟩ = y
      at hmatch hlayer haround ⊢
    obtain ⟨r, _, u⟩ := x
    obtain ⟨r', _, _⟩ := y
    obtain ⟨⟨after, hafter, rfl⟩, rfl⟩ := hlayer
    obtain rfl := haround
    refine ⟨hmatch, ?_⟩
    -- Each ARQ goes back to its seat, unless the seat was filled in the meantime.
    cases hseat : u.arq with
    | entered => exact Or.inr ⟨after, hafter, rfl, rfl⟩
    | idle layer => exact Or.inl rfl
    | held layer kept => exact Or.inl rfl
    | gone => exact Or.inl rfl

/-! ### The other layers -/

/-- The place has nothing to do with the ARQ. -/
structure Spares (p : Place σ) : Prop where
  get_withArq : ∀ s layer, p.get (s.withArq layer) = p.get s
  put_withArq : ∀ x s layer, p.put x (s.withArq layer) = (p.put x s).withArq layer
  arq_put : ∀ x s, (p.put x s).arq = s.arq

theorem spares_net : Spares Place.net := ⟨fun _ _ => rfl, fun _ _ _ => rfl, fun _ _ => rfl⟩

theorem spares_rlc : Spares Place.rlc := ⟨fun _ _ => rfl, fun _ _ _ => rfl, fun _ _ => rfl⟩

variable {p : Place σ} {j : Joint}

theorem Exchanged.get (h : Exchanged config s t) (hp : Spares p) : p.get t = p.get s := by
  rcases h with rfl | ⟨sel, -, -, rfl⟩
  · rfl
  · exact hp.get_withArq s _

theorem Exchanged.put (h : Exchanged config s t) (hp : Spares p) (x : Seat σ) :
    Exchanged config (p.put x s) (p.put x t) :=
  h.map (hp.arq_put x) (hp.put_withArq x)

theorem mirrors_enter (hp : Spares p) {step : Call (Inside σ Station) α}
    (hstep : step.Mirrors (Inside.Alike Eq (Exchanged config)) step Eq) :
    (p.enter step).Mirrors (Exchanged config) (p.enter step) Eq := by
  intro s t hst
  simp only [Place.enter, hst.get hp]
  cases (p.get s).enter p.layer.name with
  | error e => exact ⟨.error _, hst⟩
  | ok layer =>
    obtain ⟨hmatch, hlayer, haround⟩ := hstep ⟨layer, p.put .entered s⟩ ⟨layer, p.put .entered t⟩
      ⟨rfl, hst.put hp .entered⟩
    dsimp only
    generalize step ⟨layer, p.put .entered s⟩ = x, step ⟨layer, p.put .entered t⟩ = y
      at hmatch hlayer haround ⊢
    obtain ⟨r, after, u⟩ := x
    obtain ⟨r', after', v⟩ := y
    obtain rfl : after = after' := hlayer
    refine ⟨hmatch, ?_⟩
    simp only [haround.get hp]
    exact haround.put hp _

theorem mirrors_through {step : Call (Inside σ Station) α} {Q : α → α → Prop}
    (hstep : (p.enter step).Mirrors (Exchanged config) (p.enter step) Q) :
    (through j p step).Mirrors (Exchanged config) (through j p step) Q := by
  intro s t hst
  have hwired : (t.binding j).isWired = (s.binding j).isWired := by
    rw [binding, binding, hst.wired]
  simp only [through, hwired]
  split
  · exact hstep s t hst
  · exact ⟨.error _, hst⟩

theorem mirrors_embed {ρ : Type} {B : ε → ε → Prop} (into : ρ → σ) (own : ρ)
    {step : Call (Inside ρ ε) α} (hstep : step.Mirrors (Inside.Alike Eq B) step Eq) :
    (Call.embed into own step).Mirrors (Inside.Alike Eq B) (Call.embed into own step) Eq := by
  intro s t hst
  obtain ⟨hmatch, hlayer, haround⟩ := hstep ⟨own, s.around⟩ ⟨own, t.around⟩ ⟨rfl, hst.around⟩
  exact ⟨hmatch, congrArg into hlayer, haround⟩

/-! ### Sending a datagram -/

theorem mirrors_notifyOutgoing (bits : Nat) (dest : Address) :
    (ArqBelow.notifyOutgoing bits dest : Call Station Unit).Mirrors (Exchanged config)
      (ArqBelow.notifyOutgoing bits dest) Eq :=
  mirrors_through (mirrors_enterArq (fun _ => rfl) (ArqLayer.mirrors_outward _))

theorem mirrors_segmentingAccept (datagram : Datagram) (dest : Address) (priority : Nat) :
    (SegmentingRlc.accept datagram dest priority : Call (Inside SegmentingRlc Station) Unit).Mirrors
      (Inside.Alike Eq (Exchanged config)) (SegmentingRlc.accept datagram dest priority) Eq := by
  refine .ite Iff.rfl (.fail _) (.bind_same .own fun r => .ite Iff.rfl (.fail _) ?_)
  exact .bind_same (.outward (mirrors_notifyOutgoing _ dest)) fun _ =>
    .change fun a b hab => by rw [hab]

theorem mirrors_stubAccept (datagram : Datagram) (dest : Address) (priority : Nat) :
    (StubRlc.accept datagram dest priority : Call (Inside StubRlc Station) Unit).Mirrors
      (Inside.Alike Eq (Exchanged config)) (StubRlc.accept datagram dest priority) Eq := by
  have hnote : (modify (Journal.note (.rlcSend datagram dest priority)) : Call Station Unit).Mirrors
      (Exchanged config) (modify (Journal.note (.rlcSend datagram dest priority))) Eq := by
    intro s t hst
    have hnoted : Exchanged config (Journal.note (.rlcSend datagram dest priority) s)
        (Journal.note (.rlcSend datagram dest priority) t) :=
      hst.map (fun _ => rfl) fun _ _ => rfl
    exact ⟨.ok rfl, hnoted⟩
  exact .bind_same (.outward hnote) fun _ => .outward (mirrors_notifyOutgoing _ dest)

/-- A datagram goes through the RLC, which reports the demand through the ARQ. -/
theorem mirrors_send (datagram : Datagram) (dest : Address) (priority : Nat) :
    (send datagram dest priority).Mirrors (Exchanged config) (send datagram dest priority) Eq := by
  refine mirrors_enter spares_net (.outward (mirrors_through (mirrors_enter spares_rlc ?_)))
  refine .bind_same .own fun layer => ?_
  cases layer with
  | segmenting r => exact mirrors_embed _ r (mirrors_segmentingAccept datagram dest priority)
  | stub r => exact mirrors_embed _ r (mirrors_stubAccept datagram dest priority)

end Station

/-! ## Runs -/

/-- What happens in a station: its ARQ is asked something, a datagram is sent, or anything else goes on
that does not touch the ARQ. -/
inductive SublayerStep where
  | ask (call : SublayerCall)
  | send (datagram : Datagram) (dest : Address) (priority : Nat)
  | elsewhere (change : Station → Station)

namespace SublayerStep

def isPlain (config : ArqConfig) : SublayerStep → Bool
  | ask call => call.isPlain config
  | _ => true

def isCompared : SublayerStep → Bool
  | ask call => call.isCompared
  | _ => true

def perform : SublayerStep → Call Station SublayerAnswer
  | .ask call => Place.arq.enter call.ask
  | .send datagram dest priority => do
    Station.send datagram dest priority
    return .done
  | .elsewhere change => fun s => (.ok .done, { change s.aroundArq with arq := s.arq })

def run (s : Station) (steps : List SublayerStep) : Station :=
  steps.foldl (fun s step => (step.perform s).2) s

variable {s t : Station}

theorem mirrors_perform (hpos : 0 < config.windowSize) {step : SublayerStep}
    (hplain : step.isPlain config = true) : step.perform.Mirrors (Station.Exchanged config) step.perform
      fun x y => step.isCompared = true → x = y := by
  cases step with
  | ask call =>
    exact Station.mirrors_enterArq (fun _ _ => rfl)
      (SublayerCall.mirrors_ask hpos (fun _ _ => rfl) hplain)
  | send datagram dest priority =>
    exact (Station.mirrors_send datagram dest priority).bind_same fun _ => .pure fun _ => rfl
  | elsewhere change =>
    intro s t hst
    refine ⟨.ok fun _ => rfl, ?_⟩
    show Station.Exchanged config { change s.aroundArq with arq := s.arq }
      { change t.aroundArq with arq := t.arq }
    rw [← hst.aroundArq_eq]
    rcases hst with rfl | ⟨sel, hsel, hs, rfl⟩
    · exact Or.inl rfl
    · exact Or.inr ⟨sel, hsel, hs, rfl⟩

theorem exchanged_run (hpos : 0 < config.windowSize) (h : Station.Exchanged config s t)
    {steps : List SublayerStep} (hplain : ∀ step ∈ steps, step.isPlain config = true) :
    Station.Exchanged config (run s steps) (run t steps) := by
  induction steps generalizing s t with
  | nil => exact h
  | cons step rest ih =>
    rw [List.forall_mem_cons] at hplain
    exact ih (mirrors_perform hpos hplain.1 s t h).2 hplain.2

/-- **Without ARQ traffic the two ARQs are interchangeable.** After any plain run, the rest of the
station is the same with a selective-repeat ARQ as with one that passes through, and so is the answer to
whatever is asked next, unless it is to end a link or to say whether an address is protected. -/
theorem interchangeable_without_arq {arq : SelectiveRepeat}
    (harq : SelectiveRepeat.ofConfig config = .ok arq) (s : Station) {steps : List SublayerStep}
    (hplain : ∀ step ∈ steps, step.isPlain config = true) :
    (run (s.withArq (.selective arq)) steps).aroundArq =
        (run (s.withArq .passThrough) steps).aroundArq ∧
      ∀ next : SublayerStep, next.isPlain config = true → next.isCompared = true →
        (next.perform (run (s.withArq (.selective arq)) steps)).1 =
          (next.perform (run (s.withArq .passThrough) steps)).1 := by
  obtain ⟨⟨hpos, -⟩, rfl⟩ := SelectiveRepeat.ofConfig_eq_ok_iff.1 harq
  have hstart : Station.Exchanged config (s.withArq (.selective ⟨config, 0, .empty⟩))
      (s.withArq .passThrough) := Or.inr ⟨_, ⟨rfl, fun _ => rfl⟩, rfl, rfl⟩
  have hrun := exchanged_run hpos hstart hplain
  refine ⟨hrun.aroundArq_eq, fun next hnext hcompared => ?_⟩
  have hmatch := (mirrors_perform hpos hnext _ _ hrun).1
  generalize (next.perform (run (s.withArq (.selective ⟨config, 0, .empty⟩)) steps)).1 = x,
    (next.perform (run (s.withArq .passThrough) steps)).1 = y at hmatch ⊢
  cases hmatch with
  | ok hsame => rw [hsame hcompared]
  | error e => rfl

/-- A station whose network layer and MAC note what they are told. -/
def noting : Station :=
  { Station.ofLayers (.stub ⟨false⟩) (.segmenting (.empty 256)) .passThrough (.stub ⟨false, []⟩)
      (.stub ⟨false, 0⟩) with wired := Joint.all }

/-- A datagram for everybody, from station 3. -/
def toEverybody : Packet :=
  .ofMessages [⟨some (.base (.ofSource ⟨3⟩)), none⟩,
    ⟨some (.broadcast .whole), some (.segment ⟨⟨#[7]⟩, 0, 8⟩)⟩]

/-- A link comes up and is never used, while datagrams are broadcast both ways. -/
def broadcasts : List SublayerStep :=
  [.ask (.linkUp ⟨2⟩), .send ⟨#[1, 2, 3]⟩ .broadcast 0, .ask (.receive toEverybody),
    .ask (.request 85 .broadcast), .ask (.tick 20), .ask (.linkDown ⟨3⟩)]

/-- The ARQ would protect the link, but nothing is sent on it. -/
theorem interchangeable_without_arq_broadcasts :
    (run (noting.withArq (.selective ⟨default, 0, .empty⟩)) broadcasts).aroundArq =
        (run (noting.withArq .passThrough) broadcasts).aroundArq ∧
      ((ask (.request 800 .broadcast)).perform
          (run (noting.withArq (.selective ⟨default, 0, .empty⟩)) broadcasts)).1 =
        ((ask (.request 800 .broadcast)).perform
          (run (noting.withArq .passThrough) broadcasts)).1 := by
  obtain ⟨haround, hanswers⟩ := interchangeable_without_arq
    (show SelectiveRepeat.ofConfig default = .ok _ from rfl) noting
    (show ∀ step ∈ broadcasts, step.isPlain default = true by decide)
  exact ⟨haround, hanswers (.ask (.request 800 .broadcast)) rfl rfl⟩

/-- One delivery and one report of demand were noted, and a part of the datagram is still to be sent. -/
example : (run (noting.withArq .passThrough) broadcasts).journal =
      [.macNotify 24 .broadcast, .netReceive ⟨#[7]⟩ ⟨3⟩] ∧
    ((ask (.hasMore .broadcast)).perform (run (noting.withArq .passThrough) broadcasts)).1.toOption =
      some (.flag true) := by decide +kernel

end SublayerStep

end DataLink
