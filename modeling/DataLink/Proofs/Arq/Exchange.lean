import DataLink.Proofs.Arq.Endpoint

/-!
# Exactly once and in order

Two stations exchange frames: whatever one of them builds for the other is lost or handed over at
once.

**Theorem (`inOrder_iff_recognized`).** The receiver is in order after every event of a run if and only
if it recognizes every frame that arrives. This is so as long as the sender stays *clear*: no frame it
holds has a number that a receiver of all its frames would take for a new one. The numbers may have
wrapped any number of times.

Frames that are not clear come about when numbers are given out faster than old frames are dropped.
Either the window is overrun, or an acknowledgement of a whole window drops none of it. The invariant
is that of `Sending` and `Receiving`, with the frames that were handed up between them.
-/

namespace DataLink

variable {β : Type}

/-! ## Two endpoints -/

inductive Side where
  | a
  | b
deriving DecidableEq

/-- What happens at one side. A packet that is built for the other side may be lost. -/
inductive ExchangeEvent where
  | send (side : Side) (datagram : Datagram) (priority : Nat)
  | request (side : Side) (bits frame : Nat) (isLost : Bool)
  | tick (side : Side) (slots : Nat)

/-- Two endpoints, and the frames that the first one has numbered. -/
structure Exchange (β : Type) where
  a : Endpoint β
  b : Endpoint β
  sequenced : List Packet

namespace Exchange

variable [ArqBelow β] (idA idB : Address)

def step (t : Exchange β) : ExchangeEvent → Exchange β
  | .send .a datagram priority => { t with a := t.a.send datagram idB priority }
  | .send .b datagram priority => { t with b := t.b.send datagram idA priority }
  | .request .a bits frame isLost =>
    match t.a.produce idA idB bits frame with
    | (some packet, a) =>
      { a
        b := if isLost then t.b else t.b.take packet
        sequenced := t.sequenced ++ (t.a.layer.link idB).numbered (a.layer.link idB) packet }
    | (none, a) => { t with a }
  | .request .b bits frame isLost =>
    match t.b.produce idB idA bits frame with
    | (some packet, b) => { t with b, a := if isLost then t.a else t.a.take packet }
    | (none, b) => { t with b }
  | .tick .a slots => { t with a := t.a.tick slots }
  | .tick .b slots => { t with b := t.b.tick slots }

def run (t : Exchange β) (events : List ExchangeEvent) : Exchange β :=
  events.foldl (step idA idB) t

/-- The first endpoint holds no frame that a receiver of all its frames would take for a new one. -/
def isClear (t : Exchange β) : Bool := (t.a.layer.link idB).isClear t.a.layer.config.windowSize

/-- The first endpoint is clear after every event. -/
def staysClear (t : Exchange β) : List ExchangeEvent → Bool
  | [] => true
  | e :: rest => (t.step idA idB e).isClear idB && (t.step idA idB e).staysClear rest

/-- What the first endpoint has numbered, up to what is written into it on its way. -/
def contents (t : Exchange β) : List Packet := t.sequenced.map Packet.content

/-- The second endpoint is in order with what the first one has numbered. -/
def IsInOrder (window : Nat) (t : Exchange β) : Prop := t.b.IsInOrder window t.contents idA

/-- What arrives at the second endpoint with this event, if anything does, is recognized there. -/
def Recognizes (window : Nat) (t : Exchange β) : ExchangeEvent → Prop
  | .request .a bits frame false => ∀ packet header,
    (t.a.produce idA idB bits frame).1 = some packet → packet.arqHeader? = some header →
      packet.IsRecognized window (t.step idA idB (.request .a bits frame false)).contents
        t.b.handedUp.length header.seq
  | _ => True

/-- What holds between the endpoints whatever arrives. -/
structure IsReady (window : Nat) (t : Exchange β) : Prop where
  a : t.a.IsReady window idB
  b : t.b.IsReady window idA
  heldA : (t.a.layer.link idB).HoldsFrames
  heldB : (t.b.layer.link idA).HoldsFrames
  frames : ∀ c ∈ t.contents, c.IsFrame ∧ c.IsSound

/-- What holds between the endpoints as long as the first one stays clear. -/
structure Inv (window : Nat) (t : Exchange β) : Prop where
  ready : IsReady idA idB window t
  inOrder : IsInOrder idA window t
  sending : Sending window t.contents t.b.handedUp.length (t.a.layer.link idB)

variable {idA idB} {window : Nat} {t : Exchange β} {bits frame : Nat} {isLost : Bool}

/-! ## Requests -/

theorem step_requestA_none (h : (t.a.produce idA idB bits frame).1 = none) :
    t.step idA idB (.request .a bits frame isLost) =
      { t with a := (t.a.produce idA idB bits frame).2 } := by
  rw [step]
  generalize t.a.produce idA idB bits frame = answer at h ⊢
  obtain ⟨r, a⟩ := answer
  cases h
  rfl

theorem step_requestA_some {packet : Packet}
    (h : (t.a.produce idA idB bits frame).1 = some packet) :
    t.step idA idB (.request .a bits frame isLost) =
      { a := (t.a.produce idA idB bits frame).2
        b := if isLost then t.b else t.b.take packet
        sequenced := t.sequenced ++ (t.a.layer.link idB).numbered
          ((t.a.produce idA idB bits frame).2.layer.link idB) packet } := by
  rw [step]
  generalize t.a.produce idA idB bits frame = answer at h ⊢
  obtain ⟨r, a⟩ := answer
  cases h
  rfl

theorem step_requestB_none (h : (t.b.produce idB idA bits frame).1 = none) :
    t.step idA idB (.request .b bits frame isLost) =
      { t with b := (t.b.produce idB idA bits frame).2 } := by
  rw [step]
  generalize t.b.produce idB idA bits frame = answer at h ⊢
  obtain ⟨r, b⟩ := answer
  cases h
  rfl

theorem step_requestB_some {packet : Packet}
    (h : (t.b.produce idB idA bits frame).1 = some packet) :
    t.step idA idB (.request .b bits frame isLost) =
      { t with
        b := (t.b.produce idB idA bits frame).2
        a := if isLost then t.a else t.a.take packet } := by
  rw [step]
  generalize t.b.produce idB idA bits frame = answer at h ⊢
  obtain ⟨r, b⟩ := answer
  cases h
  rfl

omit [ArqBelow β] in
theorem link_of_layer {arq : SelectiveRepeat} {peer : Address} {l : Link} {e : Endpoint β}
    (h : e.layer = arq.setLink peer l) : e.layer.link peer = l := by
  rw [h, SelectiveRepeat.link_setLink, if_pos rfl]

omit [ArqBelow β] in
theorem contents_append (t : Exchange β) (l m : Link) (out : Packet) (source : Address) :
    (t.sequenced ++ l.numbered m (out.sign source)).map Packet.content =
      t.contents ++ (l.numbered m out).map Packet.content := by
  rw [List.map_append, Link.numbered_congr l m (Packet.content_sign source out), contents]

theorem IsReady.requestA (h : IsReady idA idB window t) (bits frame : Nat) (isLost : Bool) :
    IsReady idA idB window (t.step idA idB (.request .a bits frame isLost)) := by
  obtain ⟨hready, -, ⟨hr, hlayer⟩ | ⟨out, l, hr, hlayer, hanswers⟩⟩ :=
    h.a.produce_cases idA bits frame
  · rw [step_requestA_none hr]
    exact ⟨hready, h.b, hlayer ▸ h.heldA, h.heldB, h.frames⟩
  · rw [step_requestA_some hr, link_of_layer hlayer]
    refine ⟨hready, ?_, ?_, ?_, ?_⟩
    · cases isLost with
      | true => exact h.b
      | false => exact h.b.take _
    · rw [link_of_layer hlayer]
      exact h.heldA.answers hanswers
    · cases isLost with
      | true => exact h.heldB
      | false => exact Endpoint.holdsFrames_take h.heldB _
    · intro c hc
      rw [contents, contents_append] at hc
      rcases List.mem_append.1 hc with hc | hc
      · exact h.frames c hc
      · exact hanswers.numbered_content c hc

theorem IsReady.requestB (h : IsReady idA idB window t) (bits frame : Nat) (isLost : Bool) :
    IsReady idA idB window (t.step idA idB (.request .b bits frame isLost)) := by
  obtain ⟨hready, -, ⟨hr, hlayer⟩ | ⟨out, l, hr, hlayer, hanswers⟩⟩ :=
    h.b.produce_cases idB bits frame
  · rw [step_requestB_none hr]
    exact ⟨h.a, hready, h.heldA, hlayer ▸ h.heldB, h.frames⟩
  · rw [step_requestB_some hr]
    have hheld : ((t.b.produce idB idA bits frame).2.layer.link idA).HoldsFrames := by
      rw [link_of_layer hlayer]
      exact h.heldB.answers hanswers
    cases isLost with
    | true => exact ⟨h.a, hready, h.heldA, hheld, h.frames⟩
    | false => exact ⟨h.a.take _, hready, Endpoint.holdsFrames_take h.heldA _, hheld, h.frames⟩

theorem IsReady.step (h : IsReady idA idB window t) (e : ExchangeEvent) :
    IsReady idA idB window (t.step idA idB e) := by
  cases e with
  | send side datagram priority =>
    cases side with
    | a => exact ⟨h.a.send datagram idB priority, h.b, h.heldA, h.heldB, h.frames⟩
    | b => exact ⟨h.a, h.b.send datagram idA priority, h.heldA, h.heldB, h.frames⟩
  | request side bits frame isLost =>
    cases side with
    | a => exact h.requestA bits frame isLost
    | b => exact h.requestB bits frame isLost
  | tick side slots =>
    cases side with
    | a => exact ⟨⟨h.a.window, h.a.isProtected, h.a.injected⟩, h.b, h.heldA, h.heldB, h.frames⟩
    | b => exact ⟨h.a, ⟨h.b.window, h.b.isProtected, h.b.injected⟩, h.heldA, h.heldB, h.frames⟩

/-! ## What is recognized -/

/-- **One step.** The second endpoint stays in order if and only if it recognizes what arrives. -/
theorem isInOrder_step (hpos : 0 < window) (hwidest : window ≤ 127) (hA : idA.isSet = true)
    (hready : IsReady idA idB window t) (h : IsInOrder idA window t) (e : ExchangeEvent) :
    IsInOrder idA window (t.step idA idB e) ↔ t.Recognizes idA idB window e := by
  cases e with
  | send side datagram priority =>
    cases side with
    | a => exact iff_of_true h trivial
    | b => exact iff_of_true ⟨h.handedUp, h.receiving⟩ trivial
  | tick side slots =>
    cases side with
    | a => exact iff_of_true h trivial
    | b => exact iff_of_true ⟨h.handedUp, h.receiving⟩ trivial
  | request side bits frame isLost =>
    cases side with
    | b =>
      refine iff_of_true ?_ trivial
      obtain ⟨-, hrecorder, ⟨hr, hlayer⟩ | ⟨out, l, hr, hlayer, hanswers⟩⟩ :=
        hready.b.produce_cases idB bits frame
      · rw [step_requestB_none hr]
        exact Endpoint.IsInOrder.congr h hrecorder (hlayer ▸ ⟨rfl, rfl⟩)
      · rw [step_requestB_some hr]
        refine Endpoint.IsInOrder.congr h hrecorder ?_
        rw [link_of_layer hlayer]
        exact hanswers.receivesLike
    | a =>
      obtain ⟨-, -, ⟨hr, hlayer⟩ | ⟨out, l, hr, hlayer, hanswers⟩⟩ :=
        hready.a.produce_cases idA bits frame
      · rw [step_requestA_none hr]
        refine iff_of_true h ?_
        cases isLost with
        | true => trivial
        | false =>
          intro packet header hpacket
          rw [hr] at hpacket
          cases hpacket
      · have hframes := (hready.requestA bits frame isLost).frames
        rw [step_requestA_some hr] at hframes ⊢
        have hmore : t.b.IsInOrder window (t.sequenced ++ (t.a.layer.link idB).numbered
            ((t.a.produce idA idB bits frame).2.layer.link idB) (out.sign idA) |>.map
              Packet.content) idA := by
          refine h.mono ?_
          rw [List.map_append]
          exact List.prefix_append _ _
        cases isLost with
        | true => exact iff_of_true hmore trivial
        | false =>
          rw [Recognizes, step_requestA_some hr]
          rcases hanswers.tells hready.heldA hA with hsilent | ⟨horigin, header, hheader, -⟩
          · refine iff_of_true (hmore.take_silent hsilent) ?_
            intro packet header hpacket hheader
            rw [hr] at hpacket
            cases hpacket
            rw [Packet.arqHeader?_eq_none hsilent] at hheader
            cases hheader
          · constructor
            · intro hafter packet header' hpacket hheader'
              rw [hr] at hpacket
              cases hpacket
              exact hmore.isRecognized hready.b.window hpos hwidest hheader' horigin hafter
            · intro hpacket
              exact hmore.take hready.b.window hpos hwidest hframes hheader horigin
                (hpacket _ _ hr hheader)

theorem isInOrder_run (hpos : 0 < window) (hwidest : window ≤ 127) (hA : idA.isSet = true)
    (hready : IsReady idA idB window t) (h : IsInOrder idA window t) (events : List ExchangeEvent) :
    (∀ before, before <+: events → IsInOrder idA window (t.run idA idB before)) ↔
      ∀ before e, before ++ [e] <+: events → (t.run idA idB before).Recognizes idA idB window e := by
  induction events generalizing t with
  | nil =>
    constructor
    · intro _ before e hbefore
      exact absurd (List.prefix_nil.1 hbefore) (List.concat_ne_nil e before)
    · intro _ before hbefore
      rw [List.prefix_nil.1 hbefore]
      exact h
  | cons first rest ih =>
    have hstep := isInOrder_step hpos hwidest hA hready h first
    constructor
    · intro hall before e hbefore
      have hfirst := hall [first] ⟨rest, rfl⟩
      cases before with
      | nil =>
        obtain ⟨rfl, -⟩ := List.cons_prefix_cons.1 hbefore
        exact hstep.1 hfirst
      | cons x before =>
        obtain ⟨rfl, hrest⟩ := List.cons_prefix_cons.1 hbefore
        refine (ih (hready.step x) hfirst).1 ?_ before e hrest
        intro later hlater
        exact hall (x :: later) (List.cons_prefix_cons.2 ⟨rfl, hlater⟩)
    · intro hall before hbefore
      cases before with
      | nil => exact h
      | cons x before =>
        obtain ⟨rfl, hrest⟩ := List.cons_prefix_cons.1 hbefore
        have hfirst := hstep.2 (hall [] x ⟨rest, rfl⟩)
        refine (ih (hready.step x) hfirst).2 ?_ before hrest
        intro later e hlater
        exact hall (x :: later) e (List.cons_prefix_cons.2 ⟨rfl, hlater⟩)

/-! ## While the sender is clear -/

/-- What a clear sender sends is recognized. -/
theorem Inv.recognizes (hpos : 0 < window) (hwidest : window ≤ 127) (hA : idA.isSet = true)
    (h : Inv idA idB window t) {e : ExchangeEvent}
    (hclear : (t.step idA idB e).isClear idB = true) : t.Recognizes idA idB window e := by
  cases e with
  | send side datagram priority => trivial
  | tick side slots => trivial
  | request side bits frame isLost =>
    cases side with
    | b => trivial
    | a =>
      cases isLost with
      | true => trivial
      | false =>
        intro packet header hpacket hheader
        have hframes := (h.ready.requestA bits frame false).frames
        obtain ⟨hready, -, ⟨hr, -⟩ | ⟨out, l, hr, hlayer, hanswers⟩⟩ :=
          h.ready.a.produce_cases idA bits frame
        · rw [hr] at hpacket
          cases hpacket
        · rw [hr] at hpacket
          cases hpacket
          rw [step_requestA_some hr] at hclear hframes ⊢
          rw [isClear, link_of_layer hlayer, hready.window] at hclear
          rw [contents, link_of_layer hlayer, contents_append] at hframes ⊢
          have hafter := h.sending.answers hpos hwidest hanswers hclear
          have hcarries := hanswers.carries hafter (fun c hc => (hframes c hc).1) hA
          refine hcarries.isRecognized hheader (Nat.le_refl _) hwidest ?_ ?_
          · refine Nat.le_trans h.inOrder.receiving.received_le ?_
            rw [List.length_append]
            exact Nat.le_add_right _ _
          · intro hlt
            obtain ⟨f, -, hf⟩ := hafter.kept _ (Nat.le_refl _) hlt
            exact hf.recent

theorem Inv.sendingA (hpos : 0 < window) (hwidest : window ≤ 127) (h : Inv idA idB window t)
    (bits frame : Nat) (isLost : Bool)
    (hclear : (t.step idA idB (.request .a bits frame isLost)).isClear idB = true) :
    Sending window (t.step idA idB (.request .a bits frame isLost)).contents
      (t.step idA idB (.request .a bits frame isLost)).b.handedUp.length
      ((t.step idA idB (.request .a bits frame isLost)).a.layer.link idB) := by
  obtain ⟨hready, -, ⟨hr, hlayer⟩ | ⟨out, l, hr, hlayer, hanswers⟩⟩ :=
    h.ready.a.produce_cases idA bits frame
  · rw [step_requestA_none hr]
    exact hlayer ▸ h.sending
  · rw [step_requestA_some hr] at hclear ⊢
    rw [isClear, link_of_layer hlayer, hready.window] at hclear
    rw [contents, link_of_layer hlayer, contents_append]
    refine (h.sending.answers hpos hwidest hanswers hclear).weaken ?_
    cases isLost with
    | true => exact Nat.le_refl _
    | false => exact Endpoint.handedUp_le_take _ _

theorem Inv.sendingB (hB : idB.isSet = true) (h : Inv idA idB window t) (bits frame : Nat)
    (isLost : Bool) :
    Sending window (t.step idA idB (.request .b bits frame isLost)).contents
      (t.step idA idB (.request .b bits frame isLost)).b.handedUp.length
      ((t.step idA idB (.request .b bits frame isLost)).a.layer.link idB) := by
  obtain ⟨-, hrecorder, hcases⟩ := h.ready.b.produce_cases idB bits frame
  have hsame : (t.b.produce idB idA bits frame).2.handedUp = t.b.handedUp := by
    rw [Endpoint.handedUp, hrecorder, Endpoint.handedUp]
  rcases hcases with ⟨hr, -⟩ | ⟨out, l, hr, -, hanswers⟩
  · rw [step_requestB_none hr]
    exact hsame ▸ h.sending
  · rw [step_requestB_some hr]
    cases isLost with
    | true => exact hsame ▸ h.sending
    | false =>
      show Sending window t.contents (t.b.produce idB idA bits frame).2.handedUp.length
        ((t.a.take (out.sign idB)).layer.link idB)
      rw [hsame]
      rcases hanswers.tells h.ready.heldB hB with hsilent | ⟨horigin, header, hheader, hexpected⟩
      · rw [(Endpoint.take_of_none (Packet.arqHeader?_eq_none hsilent) t.a).1]
        exact h.sending
      · rw [Endpoint.link_take hheader horigin, h.ready.a.window]
        exact h.sending.takeIn (Nat.le_refl _)
          (hexpected.trans h.inOrder.receiving.nextExpected) (Nat.le_refl _) _

theorem inv_step (hpos : 0 < window) (hwidest : window ≤ 127) (hA : idA.isSet = true)
    (hB : idB.isSet = true) (h : Inv idA idB window t) {e : ExchangeEvent}
    (hclear : (t.step idA idB e).isClear idB = true) :
    Inv idA idB window (t.step idA idB e) := by
  refine ⟨h.ready.step e, (isInOrder_step hpos hwidest hA h.ready h.inOrder e).2
    (h.recognizes hpos hwidest hA hclear), ?_⟩
  cases e with
  | send side datagram priority => cases side <;> exact h.sending
  | tick side slots => cases side <;> exact h.sending
  | request side bits frame isLost =>
    cases side with
    | a => exact h.sendingA hpos hwidest bits frame isLost hclear
    | b => exact h.sendingB hB bits frame isLost

theorem inv_run (hpos : 0 < window) (hwidest : window ≤ 127) (hA : idA.isSet = true)
    (hB : idB.isSet = true) (h : Inv idA idB window t) {events : List ExchangeEvent}
    (hclear : t.staysClear idA idB events = true) {before : List ExchangeEvent}
    (hbefore : before <+: events) : Inv idA idB window (t.run idA idB before) := by
  induction events generalizing t before with
  | nil =>
    rw [List.prefix_nil.1 hbefore]
    exact h
  | cons e rest ih =>
    rw [staysClear, Bool.and_eq_true] at hclear
    cases before with
    | nil => exact h
    | cons first before =>
      obtain ⟨rfl, hrest⟩ := List.cons_prefix_cons.1 hbefore
      exact ih (inv_step hpos hwidest hA hB h hclear.1) hclear.2 hrest

/-! ## The exchange -/

/-- Two endpoints with a new link to each other. -/
def start (arqA arqB : SelectiveRepeat) (idA idB : Address) (queuedA queuedB : Nat)
    (belowA belowB : β) : Exchange β :=
  ⟨.start arqA idB queuedA belowA, .start arqB idA queuedB belowB, []⟩

omit [ArqBelow β] in
theorem inv_start {configA configB : ArqConfig} {arqA arqB : SelectiveRepeat}
    (hA : SelectiveRepeat.ofConfig configA = .ok arqA)
    (hB : SelectiveRepeat.ofConfig configB = .ok arqB)
    (hwindow : configB.windowSize = configA.windowSize)
    (hprotectA : configA.protectUnicast = true) (hprotectB : configB.protectUnicast = true)
    (hidA : idA.isSymbolic = false) (hidB : idB.isSymbolic = false) (queuedA queuedB : Nat)
    (belowA belowB : β) :
    Inv idA idB configA.windowSize (start arqA arqB idA idB queuedA queuedB belowA belowB) := by
  obtain ⟨-, rfl⟩ := SelectiveRepeat.ofConfig_eq_ok_iff.1 hA
  obtain ⟨-, rfl⟩ := SelectiveRepeat.ofConfig_eq_ok_iff.1 hB
  have hfresh : ∀ (config : ArqConfig) (peer : Address),
      ((⟨config, 0, .empty⟩ : SelectiveRepeat).linkUp peer).link peer = .fresh := by
    intro config peer
    exact SelectiveRepeat.link_setLink_self _ peer peer
  have hlinkA : (start ⟨configA, 0, .empty⟩ ⟨configB, 0, .empty⟩ idA idB queuedA queuedB belowA
      belowB).a.layer.link idB = .fresh := hfresh configA idB
  have hlinkB : (start ⟨configA, 0, .empty⟩ ⟨configB, 0, .empty⟩ idA idB queuedA queuedB belowA
      belowB).b.layer.link idA = .fresh := hfresh configB idA
  have hheld : Link.fresh.HoldsFrames := fun f hf => by cases hf
  refine ⟨⟨⟨rfl, ?_, rfl⟩, ⟨hwindow, ?_, rfl⟩, ?_, ?_, ?_⟩, ⟨List.prefix_refl _, ?_⟩, ?_⟩
  · show (configA.protectUnicast && !idB.isSymbolic) = true
    rw [hprotectA, hidB]
    rfl
  · show (configB.protectUnicast && !idA.isSymbolic) = true
    rw [hprotectB, hidA]
    rfl
  · rw [hlinkA]
    exact hheld
  · rw [hlinkB]
    exact hheld
  · intro c hc
    cases hc
  · rw [hlinkB]
    exact .fresh _ _
  · rw [hlinkA]
    exact .fresh _ _

/-- **The exchange.** In every run the second endpoint is in order after each event if and only if it
recognizes what arrives, and it is in order as long as the first one stays clear of old frames. -/
theorem inOrder_iff_recognized {configA configB : ArqConfig} {arqA arqB : SelectiveRepeat}
    (hA : SelectiveRepeat.ofConfig configA = .ok arqA)
    (hB : SelectiveRepeat.ofConfig configB = .ok arqB)
    (hwindow : configB.windowSize = configA.windowSize)
    (hprotectA : configA.protectUnicast = true) (hprotectB : configB.protectUnicast = true)
    (hidA : idA.isSymbolic = false) (hidB : idB.isSymbolic = false) (queuedA queuedB : Nat)
    (belowA belowB : β) (events : List ExchangeEvent) :
    ((∀ before, before <+: events →
        ((start arqA arqB idA idB queuedA queuedB belowA belowB).run idA idB before).IsInOrder idA
          configA.windowSize) ↔
      ∀ before e, before ++ [e] <+: events →
        ((start arqA arqB idA idB queuedA queuedB belowA belowB).run idA idB before).Recognizes idA
          idB configA.windowSize e) ∧
    ((start arqA arqB idA idB queuedA queuedB belowA belowB).staysClear idA idB events = true →
      ∀ before, before <+: events →
        ((start arqA arqB idA idB queuedA queuedB belowA belowB).run idA idB before).IsInOrder idA
          configA.windowSize) := by
  have hstart := inv_start hA hB hwindow hprotectA hprotectB hidA hidB queuedA queuedB belowA belowB
  obtain ⟨hvalid, -⟩ := SelectiveRepeat.ofConfig_eq_ok_iff.1 hA
  have hsetA := Address.isSet_of_isSymbolic hidA
  refine ⟨isInOrder_run hvalid.1 hvalid.2 hsetA hstart.ready hstart.inOrder events, ?_⟩
  intro hclear before hbefore
  exact (inv_run hvalid.1 hvalid.2 hsetA (Address.isSet_of_isSymbolic hidB) hstart hclear
    hbefore).inOrder

/-- Stations 1 and 2, with windows of 16 frames. -/
def pair : Exchange Unit :=
  start ⟨⟨16, true, 16⟩, 0, .empty⟩ ⟨⟨16, true, 16⟩, 0, .empty⟩ ⟨1⟩ ⟨2⟩ 256 256 () ()

/-- Station 1 sends some frames of one byte, and station 2 acknowledges them together. -/
def burst (frames : Nat) : List ExchangeEvent :=
  List.replicate frames (.request .a 151 0 false) ++ [.request .b 151 0 false]

/-- A long datagram goes out in more frames than there are numbers. The very first one is lost, and
is asked for and sent again. -/
def wrapping : List ExchangeEvent :=
  [.send .a ⟨Array.replicate 270 5⟩ 0, .request .a 151 0 true] ++ burst 14 ++ burst 1 ++
    (List.replicate 17 (burst 15)).flatten

/-- The first acknowledgement is for a whole window, and the last frame is one that is sent again. -/
def stale : List ExchangeEvent :=
  [.send .a ⟨Array.replicate 255 5⟩ 0] ++ burst 16 ++ (List.replicate 15 (burst 15)).flatten ++
    burst 14 ++ [.tick .a 16, .request .a 151 0 false]

/-- In a run without old frames, frames are handed up in order beyond the wrap of the numbers. -/
theorem inOrder_wrapping : (pair.run ⟨1⟩ ⟨2⟩ wrapping).IsInOrder ⟨1⟩ 16 :=
  (inOrder_iff_recognized (show SelectiveRepeat.ofConfig ⟨16, true, 16⟩ = .ok _ from rfl)
    (show SelectiveRepeat.ofConfig ⟨16, true, 16⟩ = .ok _ from rfl) rfl rfl rfl rfl rfl 256 256 () ()
    wrapping).2 (by decide +kernel) wrapping (List.prefix_refl _)

/-- A frame that the acknowledgement of a whole window left behind is handed up a second time, once
the numbers have wrapped. -/
theorem not_prefix_stale : ¬ (pair.run ⟨1⟩ ⟨2⟩ stale).b.handedUp.map Packet.content <+:
    (pair.run ⟨1⟩ ⟨2⟩ stale).sequenced.map Packet.content := by
  intro h
  have hlength : (pair.run ⟨1⟩ ⟨2⟩ stale).sequenced.length <
    (pair.run ⟨1⟩ ⟨2⟩ stale).b.handedUp.length := by decide +kernel
  have hle := h.length_le
  rw [List.length_map, List.length_map] at hle
  omega

end Exchange

end DataLink
