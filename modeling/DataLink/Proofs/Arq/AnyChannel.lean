import DataLink.Proofs.Arq.Counting
import DataLink.Proofs.Arq.Exchange

/-!
# Before the numbers wrap

Two endpoints send each other packets over a channel that keeps everything which was ever built: any
packet of it may arrive at any time, any number of times or never, in any order. The endpoints may
have different windows, talk to others as well, and only the first one needs to protect its frames.

**Theorem (`handedUp_sequenced`).** As long as the first endpoint has given out at most 254 numbers on
the link, the `k`-th frame that the second one hands up is the `k`-th frame that the first one has
numbered for it.

An old frame may still be taken for one ahead of the window. It is then kept under a number that was
not given out, so for a position from 255 on, and it stays there: `Endpoint.IsCountedIn` says nothing
of those positions, and none of them is reached before the numbers wrap.
-/

namespace DataLink

open SequenceNumber

variable {β : Type} {window : Nat} {sent : List Packet} {source peer : Address}

/-! ## Numbers that were given out once -/

/-- Before the numbers wrap, none of the frames that a link holds has the number that comes next. -/
theorem Sending.isClear_answers {l m : Link} {acked : Nat} {out : Packet}
    (h : Sending 1 sent acked l) (ha : l.Answers window out m)
    (hfew : (sent ++ (l.numbered m out).map Packet.content).length ≤ 254) :
    m.isClear 1 = true := by
  have hold : ∀ f ∈ l.unacked, ∃ i, i < sent.length ∧ f.seq = .atPosition i := by
    intro f hf
    obtain ⟨i, hi⟩ := h.isAt f hf
    exact ⟨i, hi.lt, hi.seq⟩
  -- A reach of one leaves no room between the next number and those ahead of it.
  suffices hne : ∀ f ∈ m.unacked, f.seq ≠ m.nextSeq by
    refine List.all_eq_true.2 fun f hf => ?_
    have hahead : f.seq.isAheadOf m.nextSeq 1 = false := by
      rw [isAheadOf]
      split
      · next d _ =>
        rw [← Bool.decide_and, decide_eq_false_iff_not]
        omega
      · rfl
    simp [hne f hf, hahead]
  rw [List.length_append, List.length_map] at hfew
  have hkept : ∀ f ∈ l.unacked, f.seq ≠ l.nextSeq := by
    intro f hf heq
    obtain ⟨i, hlt, hi⟩ := hold f hf
    rw [hi, h.nextSeq, atPosition_inj] at heq
    omega
  cases ha with
  | @again f hf resendAt retransmit =>
    intro g hg
    obtain ⟨f, hf, hseq, -⟩ := Link.mem_postpone hg
    exact hseq ▸ hkept f hf
  | @new packet hbuilt hdata resendAt =>
    have hnext : (l.send packet window resendAt).2.nextSeq = .atPosition (sent.length + 1) := by
      rw [← next_atPosition, ← h.nextSeq]
      rfl
    have hchanged : (l.send packet window resendAt).2.nextSeq ≠ l.nextSeq := by
      rw [hnext, h.nextSeq, ne_eq, atPosition_inj]
      omega
    rw [Link.numbered, if_neg hchanged, List.length_singleton] at hfew
    intro f hf heq
    rw [hnext] at heq
    rcases List.mem_append.1 hf with hf | hf
    · obtain ⟨i, hlt, hi⟩ := hold f hf
      rw [hi, atPosition_inj] at heq
      omega
    · rw [List.mem_singleton.1 hf, h.nextSeq, atPosition_inj] at heq
      omega
  | ack hbuilt hdata hheader hadd => exact hkept
  | none hbuilt hdata => exact hkept

theorem Sending.drop {l : Link} {acked : Nat} (h : Sending 1 sent acked l)
    (header : UnicastHeader) (packet : Packet) :
    Sending 1 sent sent.length (l.takeIn header packet window).2 := by
  obtain ⟨hnext, hunacked⟩ := Link.takeIn_sending l header packet window
  refine ⟨hnext ▸ h.nextSeq, ?_, fun i hle hlt => absurd hlt (by omega)⟩
  intro f hf
  rw [hunacked] at hf
  exact h.isAt f (List.mem_filter.1 hf).1

/-- A packet that was built for the peer: silent, or with one of the frames `sent` or none. -/
def Packet.IsOnTheWay (source : Address) (sent : List Packet) (packet : Packet) : Prop :=
  packet.unicastHeaders.isEmpty = true ∨
    packet.origin = source ∧ packet.arqHeader?.isSome = true ∧ packet.Carries 1 sent

theorem Packet.IsOnTheWay.mono {packet : Packet} (h : packet.IsOnTheWay source sent)
    {more : List Packet} (hmore : sent <+: more) (hfew : more.length ≤ 254) :
    packet.IsOnTheWay source more := by
  refine h.imp_right fun ⟨horigin, hsome, hcarries⟩ => ⟨horigin, hsome, fun header hheader => ?_⟩
  refine (hcarries header hheader).imp_right fun ⟨i, hseq, _, hcontent⟩ => ⟨i, hseq, by omega, ?_⟩
  obtain ⟨rest, rfl⟩ := hmore
  rw [List.getElem?_append_left (List.getElem?_eq_some_iff.1 hcontent).1]
  exact hcontent

/-- Before the numbers wrap, a number tells which frame it is. -/
theorem Packet.Carries.frame_eq {packet : Packet} (h : packet.Carries 1 sent)
    (hfew : sent.length ≤ 254) {header : UnicastHeader} (hheader : packet.arqHeader? = some header)
    {j : Nat} (hj : j < 255) (hseq : header.seq = .atPosition j) :
    sent[j]? = some packet.content := by
  rcases h header hheader with hunset | ⟨i, hi, -, hcontent⟩
  · exact absurd (hseq.symm.trans hunset) (atPosition_ne_unset j)
  · have hlt := (List.getElem?_eq_some_iff.1 hcontent).1
    rw [hseq, atPosition_inj] at hi
    obtain rfl : i = j := by omega
    exact hcontent

/-- Packets for the positions that come next follow one after the other, so none of them stands for a
position after the wrap. -/
theorem frames_eq_of_next (hfew : sent.length ≤ 254) {new : List Packet} {start : Nat}
    (hle : start ≤ sent.length)
    (h : ∀ k p, new[k]? = some p → start + k < 255 → sent[start + k]? = some p.content) :
    ∀ (k : Nat) (p : Packet), new[k]? = some p → sent[start + k]? = some p.content := by
  intro k
  induction k with
  | zero => exact fun p hk => h 0 p hk (by omega)
  | succ k ih =>
    intro p hk
    have hlength := (List.getElem?_eq_some_iff.1 hk).1
    have hlast := List.getElem?_eq_getElem (l := new) (i := k) (by omega)
    have hlt := (List.getElem?_eq_some_iff.1 (ih _ hlast)).1
    exact h (k + 1) p hk (by omega)

/-! ## The receiving end -/

namespace Endpoint

/-- The frames that were handed up are the first of `sent`, and so is what comes next among the early
ones; nothing is known of frames that are kept for a position from 255 on. -/
structure IsCountedIn (window : Nat) (sent : List Packet) (source : Address) (e : Endpoint β) :
    Prop where
  handedUp : ∀ (k : Nat) (p : Packet), e.handedUp[k]? = some p → sent[k]? = some p.content
  link : (e.layer.link source).Expects window (fun j (p : Packet) => j < 255 → sent[j]? = some p.content)
    e.handedUp.length

variable {e : Endpoint β}

theorem IsCountedIn.congr (h : e.IsCountedIn window sent source) {after : Endpoint β}
    (hup : after.around.layer = e.around.layer)
    (hlike : (e.layer.link source).ReceivesLike (after.layer.link source)) :
    after.IsCountedIn window sent source := by
  have hsame : after.handedUp = e.handedUp := by rw [Endpoint.handedUp, hup, Endpoint.handedUp]
  exact ⟨hsame ▸ h.handedUp, hsame ▸ h.link.congr hlike⟩

theorem IsCountedIn.mono (h : e.IsCountedIn window sent source) {more : List Packet}
    (hmore : sent <+: more) : e.IsCountedIn window more source := by
  obtain ⟨rest, rfl⟩ := hmore
  have hget : ∀ {k : Nat} {c : Packet}, sent[k]? = some c → (sent ++ rest)[k]? = some c := by
    intro k c hc
    rw [List.getElem?_append_left (List.getElem?_eq_some_iff.1 hc).1]
    exact hc
  exact ⟨fun k p hk => hget (h.handedUp k p hk), h.link.mono fun j p hP hj => hget (hP hj)⟩

theorem IsCountedIn.length_le (h : e.IsCountedIn window sent source) :
    e.handedUp.length ≤ sent.length := by
  refine Nat.le_of_not_lt fun hlt => ?_
  have hget := List.getElem?_eq_getElem (l := e.handedUp) (i := sent.length) (by omega)
  have hlast := (List.getElem?_eq_some_iff.1 (h.handedUp _ _ hget)).1
  omega

/-- Whichever packet arrives, what is handed up then are the frames that come next. -/
theorem IsCountedIn.take (h : e.IsCountedIn window sent source)
    (hwindow : e.layer.config.windowSize = window) (hpos : 0 < window) (hturn : window ≤ 255)
    (hframes : ∀ c ∈ sent, c.IsFrame ∧ c.IsSound) (hfew : sent.length ≤ 254) {packet : Packet}
    (hpacket : packet.IsOnTheWay source sent) : (e.take packet).IsCountedIn window sent source := by
  rcases hpacket with hsilent | ⟨horigin, hsome, hcarries⟩
  · obtain ⟨hlayer, hsame⟩ := take_of_silent hsilent e
    exact ⟨hsame ▸ h.handedUp, hsame ▸ hlayer ▸ h.link⟩
  · obtain ⟨header, hheader⟩ := Option.isSome_iff_exists.1 hsome
    obtain ⟨hafter, hup⟩ := h.link.takeIn hpos (Nat.le_refl _) hturn
      fun j _ _ hseq hj => hcarries.frame_eq hfew hheader hj hseq
    generalize hnew : ((e.layer.link source).takeIn header packet window).1 = new at hafter hup
    have hnext := frames_eq_of_next hfew h.length_le hup
    have hsound : ∀ p ∈ new, p.IsFrame ∧ p.IsSound := by
      intro p hp
      obtain ⟨k, hk⟩ := List.getElem?_of_mem hp
      rw [← Packet.isFrame_content, ← Packet.isSound_content]
      exact hframes _ (List.mem_of_getElem? (hnext k p hk))
    have hgrown : (e.take packet).handedUp = e.handedUp ++ new := by
      rw [Endpoint.handedUp_take hheader horigin hwindow (hnew ▸ hsound), hnew]
    refine ⟨?_, ?_⟩
    · intro k p hk
      rw [hgrown] at hk
      by_cases hlt : k < e.handedUp.length
      · rw [List.getElem?_append_left hlt] at hk
        exact h.handedUp k p hk
      · rw [List.getElem?_append_right (by omega)] at hk
        have := hnext _ p hk
        rwa [Nat.add_sub_cancel' (by omega)] at this
    · rw [hgrown, List.length_append, link_take hheader horigin, hwindow]
      exact hafter

end Endpoint

/-! ## Two endpoints and a channel that keeps everything -/

/-- What happens at one side. One of the packets that were built for it may arrive there, whenever it
was built and whether it has arrived before or not. -/
inductive ChannelEvent where
  | send (side : Side) (datagram : Datagram) (dest : Address) (priority : Nat)
  | request (side : Side) (bits : Nat) (dest : Address) (frame : Nat)
  | tick (side : Side) (slots : Nat)
  | linkUp (side : Side) (id : Address)
  | arrive (side : Side) (index : Nat)

/-- Two endpoints, all packets that were built for each of them, and the frames that the first one has
numbered for the second one. -/
structure AnyChannel (β : Type) where
  a : Endpoint β
  b : Endpoint β
  toA : List Packet
  toB : List Packet
  sequenced : List Packet

/-- The fragment flags in the headers of a frame. -/
def Packet.fragments (p : Packet) : List Fragment := p.unicastHeaders.map UnicastHeader.fragment

theorem Packet.fragments_content (p : Packet) : p.content.fragments = p.fragments := by
  rw [fragments, content, unicastHeaders_sign, unicastHeaders_mapUnicast, List.map_map]
  rfl

namespace AnyChannel

variable [ArqBelow β] (idA idB : Address)

/-- Two endpoints on which nothing has happened. -/
def start (arqA arqB : SelectiveRepeat) (queuedA queuedB : Nat) (belowA belowB : β) :
    AnyChannel β where
  a := ⟨arqA, ⟨[]⟩, .empty queuedA, .empty belowA⟩
  b := ⟨arqB, ⟨[]⟩, .empty queuedB, .empty belowB⟩
  toA := []
  toB := []
  sequenced := []

def step (t : AnyChannel β) : ChannelEvent → AnyChannel β
  | .send .a datagram dest priority => { t with a := t.a.send datagram dest priority }
  | .send .b datagram dest priority => { t with b := t.b.send datagram dest priority }
  | .request .a bits dest frame =>
    match t.a.produce idA dest bits frame with
    | (some packet, a) =>
      if dest = idB then
        { t with
          a
          toB := t.toB ++ [packet]
          sequenced := t.sequenced ++ (t.a.layer.link idB).numbered (a.layer.link idB) packet }
      else { t with a }
    | (none, a) => { t with a }
  | .request .b bits dest frame =>
    match t.b.produce idB dest bits frame with
    | (some packet, b) => { t with b, toA := if dest = idA then t.toA ++ [packet] else t.toA }
    | (none, b) => { t with b }
  | .tick .a slots => { t with a := t.a.tick slots }
  | .tick .b slots => { t with b := t.b.tick slots }
  | .linkUp .a id => { t with a := { t.a with layer := t.a.layer.linkUp id } }
  | .linkUp .b id => { t with b := { t.b with layer := t.b.layer.linkUp id } }
  | .arrive .a index =>
    match t.toA[index]? with
    | some packet => { t with a := t.a.take packet }
    | none => t
  | .arrive .b index =>
    match t.toB[index]? with
    | some packet => { t with b := t.b.take packet }
    | none => t

def run (t : AnyChannel β) (events : List ChannelEvent) : AnyChannel β :=
  events.foldl (step idA idB) t

/-- What the first endpoint has numbered, up to what is written into it on its way. -/
def contents (t : AnyChannel β) : List Packet := t.sequenced.map Packet.content

/-- What holds as long as the numbers have not wrapped. Nothing is known of what arrives at the first
endpoint, and nothing needs to be: it drops frames at most. -/
structure Inv (windowA windowB : Nat) (t : AnyChannel β) : Prop where
  a : t.a.IsReady windowA idB
  config : t.b.layer.config.windowSize = windowB
  frames : ∀ c ∈ t.contents, c.IsFrame ∧ c.IsSound
  heldA : (t.a.layer.link idB).HoldsFrames
  sending : Sending 1 t.contents t.contents.length (t.a.layer.link idB)
  toB : ∀ p ∈ t.toB, p.IsOnTheWay idA t.contents
  b : t.b.IsCountedIn windowB t.contents idA

variable {idA idB} {windowA windowB : Nat} {t : AnyChannel β}

/-! ## Each event -/

omit [ArqBelow β] in
theorem Inv.changeA (h : Inv idA idB windowA windowB t) {a : Endpoint β}
    (hready : a.IsReady windowA idB) (hlink : a.layer.link idB = t.a.layer.link idB) :
    Inv idA idB windowA windowB { t with a } :=
  ⟨hready, h.config, h.frames, hlink ▸ h.heldA, hlink ▸ h.sending, h.toB, h.b⟩

omit [ArqBelow β] in
theorem Inv.changeB (h : Inv idA idB windowA windowB t) (b : Endpoint β)
    (hconfig : b.layer.config = t.b.layer.config) (hup : b.around.layer = t.b.around.layer)
    (hlike : (t.b.layer.link idA).ReceivesLike (b.layer.link idA)) (toA : List Packet) :
    Inv idA idB windowA windowB { t with b, toA } :=
  ⟨h.a, (congrArg _ hconfig).trans h.config, h.frames, h.heldA, h.sending, h.toB,
    h.b.congr hup hlike⟩

theorem Inv.requestA (h : Inv idA idB windowA windowB t) (hA : idA.isSet = true)
    (bits : Nat) (dest : Address) (frame : Nat)
    (hfew : (t.step idA idB (.request .a bits dest frame)).sequenced.length ≤ 254) :
    Inv idA idB windowA windowB (t.step idA idB (.request .a bits dest frame)) := by
  by_cases hdest : dest = idB
  · subst hdest
    obtain ⟨hready, -, ⟨hr, hlayer⟩ | ⟨out, l, hr, hlayer, hanswers⟩⟩ :=
      h.a.produce_cases idA bits frame
    · have hstep : t.step idA dest (.request .a bits dest frame) =
          { t with a := (t.a.produce idA dest bits frame).2 } := by
        rw [step]
        generalize t.a.produce idA dest bits frame = answer at hr ⊢
        obtain ⟨_, _⟩ := answer
        cases hr
        rfl
      rw [hstep]
      exact h.changeA hready (congrArg (SelectiveRepeat.link · dest) hlayer)
    · have hlink := Exchange.link_of_layer hlayer
      have hstep : t.step idA dest (.request .a bits dest frame) = { t with
          a := (t.a.produce idA dest bits frame).2
          toB := t.toB ++ [out.sign idA]
          sequenced := t.sequenced ++ (t.a.layer.link dest).numbered l (out.sign idA) } := by
        rw [step, ← hlink]
        generalize t.a.produce idA dest bits frame = answer at hr ⊢
        obtain ⟨_, _⟩ := answer
        cases hr
        exact if_pos rfl
      rw [hstep] at hfew ⊢
      generalize hsent : t.contents ++ ((t.a.layer.link dest).numbered l out).map Packet.content =
        sent
      have hcontents : ({ t with
          a := (t.a.produce idA dest bits frame).2
          toB := t.toB ++ [out.sign idA]
          sequenced := t.sequenced ++ (t.a.layer.link dest).numbered l (out.sign idA) } :
          AnyChannel β).contents = sent := by
        rw [← hsent, contents, List.map_append,
          Link.numbered_congr _ l (Packet.content_sign idA out), contents]
      have hmore : t.contents <+: sent := hsent ▸ List.prefix_append _ _
      have hshort : sent.length ≤ 254 := by
        rw [← hcontents, contents, List.length_map]
        exact hfew
      have hframes : ∀ c ∈ sent, c.IsFrame ∧ c.IsSound := by
        intro c hc
        rw [← hsent] at hc
        rcases List.mem_append.1 hc with hc | hc
        · exact h.frames c hc
        · exact hanswers.numbered_content c hc
      have hsending : Sending 1 sent t.contents.length l := by
        rw [← hsent] at hshort ⊢
        exact h.sending.answers (by decide) (by decide) hanswers
          (h.sending.isClear_answers hanswers hshort)
      have hnew : (out.sign idA).IsOnTheWay idA sent := by
        refine (hanswers.tells h.heldA hA).imp_right fun ⟨horigin, header, hheader, _⟩ => ?_
        exact ⟨horigin, hheader ▸ rfl, hanswers.carries hsending (fun c hc => (hframes c hc).1) hA⟩
      refine ⟨hready, h.config, ?_, ?_, ?_, ?_, ?_⟩
      · rw [hcontents]
        exact hframes
      · rw [hlink]
        exact h.heldA.answers hanswers
      · rw [hcontents, hlink]
        exact hsending.weaken hmore.length_le
      · rw [hcontents]
        intro p hp
        rcases List.mem_append.1 hp with hp | hp
        · exact (h.toB p hp).mono hmore hshort
        · rw [List.mem_singleton.1 hp]
          exact hnew
      · rw [hcontents]
        exact h.b.mono hmore
  · have hstep : t.step idA idB (.request .a bits dest frame) =
        { t with a := (t.a.produce idA dest bits frame).2 } := by
      rw [step]
      generalize t.a.produce idA dest bits frame = answer
      obtain ⟨_ | packet, a⟩ := answer
      · rfl
      · exact if_neg hdest
    rw [hstep]
    exact h.changeA (h.a.produce idA dest bits frame)
      (Endpoint.link_produce_of_ne hdest idA bits frame t.a)

theorem Inv.requestB (h : Inv idA idB windowA windowB t) (bits : Nat) (dest : Address)
    (frame : Nat) :
    Inv idA idB windowA windowB (t.step idA idB (.request .b bits dest frame)) := by
  have hstep : ∃ toA, t.step idA idB (.request .b bits dest frame) =
      { t with b := (t.b.produce idB dest bits frame).2, toA } := by
    rw [step]
    generalize t.b.produce idB dest bits frame = answer
    obtain ⟨_ | packet, b⟩ := answer
    · exact ⟨t.toA, rfl⟩
    · exact ⟨_, rfl⟩
  obtain ⟨toA, hstep⟩ := hstep
  have hlike := SelectiveRepeat.receivesLike_requestBurst bits frame dest t.b
  rw [← Endpoint.produce_snd idB] at hlike
  rw [hstep]
  exact h.changeB _ hlike.1 (Endpoint.produce_recorder idB dest bits frame t.b) (hlike.2 idA) toA

omit [ArqBelow β] in
theorem Inv.arriveA (h : Inv idA idB windowA windowB t) (packet : Packet) :
    Inv idA idB windowA windowB { t with a := t.a.take packet } := by
  refine ⟨h.a.take packet, h.config, h.frames, Endpoint.holdsFrames_take h.heldA packet, ?_, h.toB,
    h.b⟩
  show Sending 1 t.contents t.contents.length ((t.a.take packet).layer.link idB)
  cases hheader : packet.arqHeader? with
  | none =>
    rw [(Endpoint.take_of_none hheader t.a).1]
    exact h.sending
  | some header =>
    by_cases horigin : packet.origin = idB
    · rw [Endpoint.link_take hheader horigin]
      exact h.sending.drop header packet
    · rw [Endpoint.take_of_some hheader rfl, SelectiveRepeat.handUp_layer,
        SelectiveRepeat.link_setLink, if_neg horigin]
      exact h.sending

omit [ArqBelow β] in
theorem Inv.arriveB (h : Inv idA idB windowA windowB t) (hpos : 0 < windowB)
    (hturn : windowB ≤ 255) (hfew : t.sequenced.length ≤ 254) {packet : Packet}
    (hpacket : packet ∈ t.toB) : Inv idA idB windowA windowB { t with b := t.b.take packet } := by
  have hshort : t.contents.length ≤ 254 := by
    rw [contents, List.length_map]
    exact hfew
  have hwindow : (t.b.take packet).layer.config.windowSize = windowB := by
    cases hheader : packet.arqHeader? with
    | none =>
      rw [(Endpoint.take_of_none hheader t.b).1]
      exact h.config
    | some header =>
      rw [Endpoint.take_of_some hheader rfl, SelectiveRepeat.handUp_layer]
      exact h.config
  exact ⟨h.a, hwindow, h.frames, h.heldA, h.sending, h.toB,
    h.b.take h.config hpos hturn h.frames hshort (h.toB packet hpacket)⟩

theorem sequenced_le_step (t : AnyChannel β) (e : ChannelEvent) :
    t.sequenced.length ≤ (t.step idA idB e).sequenced.length := by
  cases e with
  | send side | tick side | linkUp side => cases side <;> exact Nat.le_refl _
  | request side bits dest frame =>
    cases side with
    | a =>
      rw [step]
      generalize t.a.produce idA dest bits frame = answer
      obtain ⟨_ | packet, a⟩ := answer
      · exact Nat.le_refl _
      · simp only
        split
        · rw [List.length_append]
          exact Nat.le_add_right _ _
        · exact Nat.le_refl _
    | b =>
      rw [step]
      generalize t.b.produce idB dest bits frame = answer
      obtain ⟨_ | packet, b⟩ := answer <;> exact Nat.le_refl _
  | arrive side index =>
    cases side <;> rw [step] <;> split <;> exact Nat.le_refl _

theorem Inv.step (h : Inv idA idB windowA windowB t) (hA : idA.isSet = true) (hpos : 0 < windowB)
    (hturn : windowB ≤ 255) (e : ChannelEvent)
    (hfew : (t.step idA idB e).sequenced.length ≤ 254) :
    Inv idA idB windowA windowB (t.step idA idB e) := by
  cases e with
  | send side datagram dest priority =>
    cases side with
    | a => exact h.changeA (h.a.send datagram dest priority) rfl
    | b => exact h.changeB (t.b.send datagram dest priority) rfl rfl ⟨rfl, rfl⟩ t.toA
  | request side bits dest frame =>
    cases side with
    | a => exact h.requestA hA bits dest frame hfew
    | b => exact h.requestB bits dest frame
  | tick side slots =>
    cases side with
    | a => exact h.changeA ⟨h.a.window, h.a.isProtected, h.a.injected⟩ rfl
    | b => exact h.changeB (t.b.tick slots) rfl rfl ⟨rfl, rfl⟩ t.toA
  | linkUp side id =>
    cases side with
    | a =>
      refine h.changeA ⟨h.a.window, h.a.isProtected, h.a.injected⟩ ?_
      show (t.a.layer.setLink id (t.a.layer.link id)).link idB = _
      rw [SelectiveRepeat.link_setLink]
      split
      · next heq => rw [heq]
      · rfl
    | b =>
      exact h.changeB { t.b with layer := t.b.layer.linkUp id } rfl rfl
        (SelectiveRepeat.receivesLike_setLink ⟨rfl, rfl⟩ idA) t.toA
  | arrive side index =>
    have hshort : t.sequenced.length ≤ 254 := Nat.le_trans (sequenced_le_step t _) hfew
    cases side with
    | a =>
      rw [AnyChannel.step]
      split
      · exact h.arriveA _
      · exact h
    | b =>
      rw [AnyChannel.step]
      split
      · next hget => exact h.arriveB hpos hturn hshort (List.mem_of_getElem? hget)
      · exact h

/-! ## A whole run -/

theorem sequenced_le_run (t : AnyChannel β) (events : List ChannelEvent) :
    t.sequenced.length ≤ (t.run idA idB events).sequenced.length := by
  induction events generalizing t with
  | nil => exact Nat.le_refl _
  | cons e rest ih => exact Nat.le_trans (t.sequenced_le_step e) (ih _)

theorem inv_run (h : Inv idA idB windowA windowB t) (hA : idA.isSet = true) (hpos : 0 < windowB)
    (hturn : windowB ≤ 255) {events : List ChannelEvent}
    (hfew : (t.run idA idB events).sequenced.length ≤ 254) :
    Inv idA idB windowA windowB (t.run idA idB events) := by
  induction events generalizing t with
  | nil => exact h
  | cons e rest ih =>
    exact ih (h.step hA hpos hturn e (Nat.le_trans (sequenced_le_run _ rest) hfew)) hfew

omit [ArqBelow β] in
theorem inv_start {configA configB : ArqConfig} (hprotect : configA.protectUnicast = true)
    (hidB : idB.isSymbolic = false) (queuedA queuedB : Nat) (belowA belowB : β) :
    Inv idA idB configA.windowSize configB.windowSize
      (start ⟨configA, 0, .empty⟩ ⟨configB, 0, .empty⟩ queuedA queuedB belowA belowB) := by
  have hprotected : (configA.protectUnicast && !idB.isSymbolic) = true := by
    rw [hprotect, hidB]
    rfl
  exact {
    a := ⟨rfl, hprotected, rfl⟩
    config := rfl
    frames := fun c hc => by cases hc
    heldA := fun f hf => by cases hf
    sending := .fresh _ _
    toB := fun p hp => by cases hp
    b := ⟨fun k p hk => by simp [start, Endpoint.handedUp] at hk, .fresh _ _⟩ }

/-- **Before the numbers wrap.** Whatever the channel loses, delays, repeats and puts out of order, as
long as the first endpoint has given out at most 254 numbers on the link, the `k`-th frame that the
second one hands up has the payloads and the fragment flags of the `k`-th frame that the first one has
numbered for it. -/
theorem handedUp_sequenced {configA configB : ArqConfig} {arqA arqB : SelectiveRepeat}
    (hA : SelectiveRepeat.ofConfig configA = .ok arqA)
    (hB : SelectiveRepeat.ofConfig configB = .ok arqB) (hprotect : configA.protectUnicast = true)
    (hidA : idA.isSymbolic = false) (hidB : idB.isSymbolic = false) (queuedA queuedB : Nat)
    (belowA belowB : β) (events : List ChannelEvent)
    (hfew : ((start arqA arqB queuedA queuedB belowA belowB).run idA idB events).sequenced.length ≤
      254) (k : Nat) (p : Packet)
    (hp : ((start arqA arqB queuedA queuedB belowA belowB).run idA idB events).b.handedUp[k]? =
      some p) :
    ∃ q, ((start arqA arqB queuedA queuedB belowA belowB).run idA idB events).sequenced[k]? =
      some q ∧ p.content = q.content ∧ p.payloads = q.payloads ∧ p.fragments = q.fragments := by
  obtain ⟨-, rfl⟩ := SelectiveRepeat.ofConfig_eq_ok_iff.1 hA
  obtain ⟨hvalid, rfl⟩ := SelectiveRepeat.ofConfig_eq_ok_iff.1 hB
  have hinv := inv_run (inv_start hprotect hidB queuedA queuedB belowA belowB)
    (Address.isSet_of_isSymbolic hidA) hvalid.1 (Nat.le_trans hvalid.2 (by decide)) hfew
  have hcontent := hinv.b.handedUp k p hp
  rw [contents, List.getElem?_map, Option.map_eq_some_iff] at hcontent
  obtain ⟨q, hq, hsame⟩ := hcontent
  refine ⟨q, hq, hsame.symm, ?_, ?_⟩
  · rw [← Packet.payloads_content p, ← hsame, Packet.payloads_content]
  · rw [← Packet.fragments_content p, ← hsame, Packet.fragments_content]

/-- Stations 1 and 2, of which only the first one protects its frames. -/
def uneven : AnyChannel Unit :=
  start ⟨⟨4, true, 16⟩, 0, .empty⟩ ⟨⟨16, false, 16⟩, 0, .empty⟩ 256 256 () ()

/-- Of three frames the last one arrives first, the second one twice, and the first one is lost until
it is sent again. Station 2 answers with a byte of its own. -/
def scrambled : List ChannelEvent :=
  [.send .a ⟨#[1, 2, 3]⟩ ⟨2⟩ 0, .request .a 151 ⟨2⟩ 0, .request .a 151 ⟨2⟩ 0,
    .request .a 151 ⟨2⟩ 0, .arrive .b 2, .arrive .b 1, .arrive .b 1, .tick .a 16,
    .request .a 151 ⟨2⟩ 0, .arrive .b 3, .send .b ⟨#[4]⟩ ⟨1⟩ 0, .request .b 151 ⟨1⟩ 0,
    .arrive .a 0, .arrive .b 2]

/-- The second frame to be handed up is the second one that was numbered. -/
theorem handedUp_sequenced_scrambled :
    ∃ p q, (uneven.run ⟨1⟩ ⟨2⟩ scrambled).b.handedUp[1]? = some p ∧
      (uneven.run ⟨1⟩ ⟨2⟩ scrambled).sequenced[1]? = some q ∧
      p.content = q.content ∧ p.payloads = q.payloads ∧ p.fragments = q.fragments := by
  have hlt : 1 < (uneven.run ⟨1⟩ ⟨2⟩ scrambled).b.handedUp.length := by decide +kernel
  have hp := List.getElem?_eq_getElem hlt
  obtain ⟨q, hq⟩ := handedUp_sequenced
    (show SelectiveRepeat.ofConfig ⟨4, true, 16⟩ = .ok _ from rfl)
    (show SelectiveRepeat.ofConfig ⟨16, false, 16⟩ = .ok _ from rfl) rfl rfl rfl 256 256 () ()
    scrambled (by decide +kernel) 1 _ hp
  exact ⟨_, q, hp, hq⟩

example : (uneven.run ⟨1⟩ ⟨2⟩ scrambled).b.handedUp.map Packet.content =
    (uneven.run ⟨1⟩ ⟨2⟩ scrambled).sequenced.map Packet.content := by decide +kernel

end AnyChannel

end DataLink
