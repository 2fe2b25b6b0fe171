import DataLink.Proofs.Arq.Exchange
import DataLink.Proofs.Station.Calls

/-!
# Acknowledgements across tear-downs

Two stations hear each other, and each may tear down its link to the other at any time. With every
tear-down a *session* of the station ends and another one begins, in which frames are numbered from
the start again. A tear-down says nothing to the peer, whose session goes on, and no packet says from
which session it is.

**Theorem (`dropped_handedUp`).** If the sessions of the two stations can be paired in order
(`Sessions`), so that every packet with ARQ fields arrives in the session which is paired with the one
it was sent in, and if the sender stays clear of old frames, then a frame that is dropped because it
was acknowledged was handed up by the peer in the paired session.

Without the pairing this is false (`exists_dropped_not_handedUp`). The invariant has one part for every
session that a station has not left yet: the link it has now or a fresh one, and the packets on their
way.
-/

namespace DataLink

/-! ## The two stations -/

/-- The transmission as it arrives: nobody there watches it. -/
def Transmission.arriving (t : Transmission) : Transmission := { t with packet := t.packet.copy }

/-- What happens at one side, or on the way to it. -/
inductive DuplexEvent where
  | send (side : Side) (datagram : Datagram) (dest : Address) (priority : Nat)
  /-- A slot passes, and what was transmitted goes on its way. -/
  | slot (side : Side)
  /-- What was first on its way to this side arrives. -/
  | deliver (side : Side)
  | removeLink (side : Side) (other : Address)

/-- Numbers for the sessions of the two stations: the first one of each, and the one that follows a
session. Sessions with the same number are paired. -/
structure Sessions where
  firstA : Nat
  firstB : Nat
  nextA : Nat → Nat
  nextB : Nat → Nat
  lt_nextA : ∀ k, k < nextA k
  lt_nextB : ∀ k, k < nextB k

/-- Sessions that are counted. -/
def Sessions.counted : Sessions := ⟨0, 0, Nat.succ, Nat.succ, Nat.lt_succ_self, Nat.lt_succ_self⟩

/-- Two stations, what is on its way between them, and their sessions. Every transmission comes with
the session in which it was sent, and so does every frame that the first station has numbered or the
second one has handed up. -/
structure Duplex where
  a : Station
  b : Station
  toA : List (Nat × Transmission)
  toB : List (Nat × Transmission)
  sessionA : Nat
  sessionB : Nat
  sequenced : List (Nat × Packet)
  handedUp : List (Nat × Packet)

/-- What belongs to one session. -/
def inSession {α : Type} (session : Nat) (entries : List (Nat × α)) : List α :=
  (entries.filter fun e => e.1 = session).map Prod.snd

section

variable {α β : Type} {session k : Nat}

theorem inSession_append (k : Nat) (before after : List (Nat × α)) :
    inSession k (before ++ after) = inSession k before ++ inSession k after := by
  rw [inSession, List.filter_append, List.map_append, inSession, inSession]

theorem inSession_cons_self (x : α) (rest : List (Nat × α)) :
    inSession k ((k, x) :: rest) = x :: inSession k rest := by
  simp [inSession]

theorem inSession_cons_of_ne (h : session ≠ k) (x : α) (rest : List (Nat × α)) :
    inSession k ((session, x) :: rest) = inSession k rest := by
  simp [inSession, h]

theorem inSession_tagged (l : List β) (f : β → α) :
    inSession k (l.map fun x => (session, f x)) = if session = k then l.map f else [] := by
  induction l with
  | nil => exact (ite_self []).symm
  | cons x rest ih =>
    by_cases hk : session = k
    · subst hk
      rw [if_pos rfl] at ih ⊢
      rw [List.map_cons, inSession_cons_self, ih, List.map_cons]
    · rw [if_neg hk] at ih ⊢
      rw [List.map_cons, inSession_cons_of_ne hk, ih]

end

/-! ## On the way, in one session -/

/-- The packet has no ARQ fields, or says that the first `received` frames were received. -/
def Packet.Tells (received : Nat) (p : Packet) : Prop :=
  p.arqHeader? = none ∨ ∃ header, p.arqHeader? = some header ∧
    header.nextExpected = .atPosition received

/-- The packets acknowledge `acked` frames or more, one after the other no fewer, and none of them
more than `received`. -/
def Acknowledge (received : Nat) : Nat → List Transmission → Prop
  | acked, [] => acked ≤ received
  | acked, t :: rest => ∃ told, acked ≤ told ∧ t.packet.Tells told ∧ Acknowledge received told rest

/-- The packets carry frames of those `sent`, and each was sent when some number of them had been
numbered: `horizon` or more, one after the other no fewer, and none so many that the next frame
for the receiver would not be recent. -/
def Carry (reach : Nat) (sent : List Packet) (received : Nat) : Nat → List Transmission → Prop
  | horizon, [] => horizon ≤ sent.length
  | horizon, t :: rest => ∃ n, horizon ≤ n ∧ (received < n → n ≤ received + (255 - reach)) ∧
      t.packet.Carries reach (sent.take n) ∧ Carry reach sent received n rest

section

variable {received acked horizon reach : Nat} {sent : List Packet} {t : Transmission}
  {ts : List Transmission}

namespace Acknowledge

theorem le (h : Acknowledge received acked ts) : acked ≤ received := by
  induction ts generalizing acked with
  | nil => exact h
  | cons t rest ih =>
    obtain ⟨told, hle, -, hrest⟩ := h
    exact Nat.le_trans hle (ih hrest)

theorem weaken (h : Acknowledge received acked ts) {fewer : Nat} (hle : fewer ≤ acked) :
    Acknowledge received fewer ts := by
  cases ts with
  | nil => exact Nat.le_trans hle h
  | cons t rest =>
    obtain ⟨told, hacked, htells, hrest⟩ := h
    exact ⟨told, Nat.le_trans hle hacked, htells, hrest⟩

theorem mono (h : Acknowledge received acked ts) {more : Nat} (hle : received ≤ more) :
    Acknowledge more acked ts := by
  induction ts generalizing acked with
  | nil => exact Nat.le_trans h hle
  | cons t rest ih =>
    obtain ⟨told, hacked, htells, hrest⟩ := h
    exact ⟨told, hacked, htells, ih hrest⟩

theorem append (h : Acknowledge received acked ts) (ht : t.packet.Tells received) :
    Acknowledge received acked (ts ++ [t]) := by
  induction ts generalizing acked with
  | nil => exact ⟨received, h, ht, Nat.le_refl _⟩
  | cons t rest ih =>
    obtain ⟨told, hacked, htells, hrest⟩ := h
    exact ⟨told, hacked, htells, ih hrest⟩

end Acknowledge

namespace Carry

theorem le (h : Carry reach sent received horizon ts) : horizon ≤ sent.length := by
  induction ts generalizing horizon with
  | nil => exact h
  | cons t rest ih =>
    obtain ⟨n, hle, -, -, hrest⟩ := h
    exact Nat.le_trans hle (ih hrest)

theorem weaken (h : Carry reach sent received horizon ts) {fewer : Nat}
    (hle : fewer ≤ horizon) : Carry reach sent received fewer ts := by
  cases ts with
  | nil => exact Nat.le_trans hle h
  | cons t rest =>
    obtain ⟨n, hn, hrest⟩ := h
    exact ⟨n, Nat.le_trans hle hn, hrest⟩

theorem mono (h : Carry reach sent received horizon ts) {more : Nat}
    (hle : received ≤ more) : Carry reach sent more horizon ts := by
  induction ts generalizing horizon with
  | nil => exact h
  | cons t rest ih =>
    obtain ⟨n, hn, hnext, hcarries, hrest⟩ := h
    exact ⟨n, hn, fun hlt => by have := hnext (by omega); omega, hcarries, ih hrest⟩

theorem extend (h : Carry reach sent received horizon ts) (new : List Packet) :
    Carry reach (sent ++ new) received horizon ts := by
  induction ts generalizing horizon with
  | nil =>
    refine Nat.le_trans h ?_
    rw [List.length_append]
    exact Nat.le_add_right _ _
  | cons t rest ih =>
    obtain ⟨n, hn, hnext, hcarries, hrest⟩ := h
    refine ⟨n, hn, hnext, ?_, ih hrest⟩
    rw [List.take_append_of_le_length hrest.le]
    exact hcarries

theorem append (h : Carry reach sent received horizon ts)
    (hnext : received < sent.length → sent.length ≤ received + (255 - reach))
    (ht : t.packet.Carries reach sent) :
    Carry reach sent received horizon (ts ++ [t]) := by
  induction ts generalizing horizon with
  | nil =>
    refine ⟨sent.length, h, hnext, ?_, Nat.le_refl _⟩
    rw [List.take_length]
    exact ht
  | cons t rest ih =>
    obtain ⟨n, hn, hnext', hcarries, hrest⟩ := h
    exact ⟨n, hn, hnext', hcarries, ih hrest⟩

end Carry

end

namespace Duplex

variable (sessions : Sessions) (idA idB : Address)

def start (a b : Station) : Duplex :=
  ⟨a, b, [], [], sessions.firstA, sessions.firstB, [], []⟩

def step (d : Duplex) : DuplexEvent → Duplex
  | .send .a datagram dest priority => { d with a := (Station.send datagram dest priority d.a).2 }
  | .send .b datagram dest priority => { d with b := (Station.send datagram dest priority d.b).2 }
  | .slot .a =>
    let (sent, a) := (Station.update d.a).2.drain
    { d with
      a
      toB := d.toB ++ sent.map fun t => (d.sessionA, t.arriving)
      sequenced := d.sequenced ++ (sent.flatMap fun t =>
        (d.a.link idB).numbered (a.link idB) t.packet).map (Prod.mk d.sessionA) }
  | .slot .b =>
    let (sent, b) := (Station.update d.b).2.drain
    { d with b, toA := d.toA ++ sent.map fun t => (d.sessionB, t.arriving) }
  | .deliver .a =>
    match d.toA with
    | [] => d
    | (_, t) :: toA => { d with a := (Station.receive t d.a).2, toA }
  | .deliver .b =>
    match d.toB with
    | [] => d
    | (_, t) :: toB => { d with
      b := (Station.receive t d.b).2
      toB
      handedUp := d.handedUp ++ (d.b.handsUp t).map (Prod.mk d.sessionB) }
  | .removeLink .a other =>
    match Station.removeLink other d.a with
    | (r, a) => { d with
      a, sessionA := if r.isOk ∧ other = idB then sessions.nextA d.sessionA else d.sessionA }
  | .removeLink .b other =>
    match Station.removeLink other d.b with
    | (r, b) => { d with
      b, sessionB := if r.isOk ∧ other = idA then sessions.nextB d.sessionB else d.sessionB }

def run (d : Duplex) (events : List DuplexEvent) : Duplex := events.foldl (step sessions idA idB) d

/-- What is first on its way has no ARQ fields, or was sent in the session with this number. -/
def isHeadIn (session : Nat) : List (Nat × Transmission) → Bool
  | [] => true
  | (sent, t) :: _ => t.packet.arqHeader?.isNone || sent == session

/-- What arrives with this event, if anything does, was sent in the session of the receiver. -/
def isInStep (d : Duplex) : DuplexEvent → Bool
  | .deliver .a => isHeadIn d.sessionA d.toA
  | .deliver .b => isHeadIn d.sessionB d.toB
  | _ => true

/-- Every packet with ARQ fields arrives in the session it was sent in, and the first station is clear
of old frames after every event. -/
def staysInStep (reach : Nat) (d : Duplex) : List DuplexEvent → Bool
  | [] => true
  | e :: rest => d.isInStep e && ((d.step sessions idA idB e).a.link idB).isClear reach &&
      (d.step sessions idA idB e).staysInStep reach rest

/-! ## The invariant -/

variable {sessions} {idA idB}

/-- What the first station has numbered in a session, up to what is written into it on its way. -/
def sent (d : Duplex) (k : Nat) : List Packet := (inSession k d.sequenced).map Packet.content

/-- What the second station has handed up in a session. -/
def received (d : Duplex) (k : Nat) : List Packet := (inSession k d.handedUp).map Packet.content

/-- The frames that the first station drops when the next packet arrives. -/
def dropped (sessions : Sessions) (idA idB : Address) (d : Duplex) : List SentFrame :=
  (d.a.link idB).unacked.filter fun f =>
    f ∉ ((d.step sessions idA idB (.deliver .a)).a.link idB).unacked

/-- For some `i`, the frame is the `i`-th one that the first station has numbered in its session, and
the `i`-th one that the second station has handed up in the paired one. -/
def HasHandedUp (d : Duplex) (f : SentFrame) : Prop :=
  ∃ i, f.seq = .atPosition i ∧ (d.sent d.sessionA)[i]? = some f.packet.content ∧
    (d.received d.sessionA)[i]? = some f.packet.content

/-- The link with which a station in session `now` starts, or goes on, in session `k`. -/
def linkIn (now : Nat) (l : Link) (k : Nat) : Link := if k = now then l else .fresh

/-- What holds between the stations. In every session that is not over for the first station, it is
the sending end of its link; in every one that is not over for the second station, that is the
receiving end of its own. -/
structure Inv (idA idB : Address) (reach windowA windowB : Nat) (d : Duplex) : Prop where
  a : d.a.Fits windowA idA idB
  b : d.b.Fits windowB idB idA
  heldA : (d.a.link idB).HoldsFrames
  heldB : (d.b.link idA).HoldsFrames
  toA : ∀ e ∈ d.toA, e.2.packet.origin = idB
  toB : ∀ e ∈ d.toB, e.2.packet.origin = idA
  frames : ∀ k, ∀ c ∈ d.sent k, c.IsFrame ∧ c.IsSound
  prefixed : ∀ k, d.received k <+: d.sent k
  sending : ∀ k, d.sessionA ≤ k → ∃ acked,
    Sending reach (d.sent k) acked (linkIn d.sessionA (d.a.link idB) k) ∧
      Acknowledge (d.received k).length acked (inSession k d.toA)
  receiving : ∀ k, d.sessionB ≤ k → ∃ horizon,
    Receiving windowB (d.sent k) horizon (d.received k).length
        (linkIn d.sessionB (d.b.link idA) k) ∧
      Carry reach (d.sent k) (d.received k).length horizon (inSession k d.toB)

variable {reach windowA windowB : Nat} {d : Duplex}

/-- An event at the first station that leaves its link as it is, and everything on its way. -/
theorem Inv.keepA (h : Inv idA idB reach windowA windowB d) {a : Station}
    (ha : a.Fits windowA idA idB) (hlink : a.link idB = d.a.link idB) :
    Inv idA idB reach windowA windowB { d with a } :=
  ⟨ha, h.b, hlink ▸ h.heldA, h.heldB, h.toA, h.toB, h.frames, h.prefixed,
    fun k hk => hlink ▸ h.sending k hk, h.receiving⟩

theorem Inv.keepB (h : Inv idA idB reach windowA windowB d) {b : Station}
    (hb : b.Fits windowB idB idA) (hlink : b.link idA = d.b.link idA) :
    Inv idA idB reach windowA windowB { d with b } :=
  ⟨h.a, hb, h.heldA, hlink ▸ h.heldB, h.toA, h.toB, h.frames, h.prefixed, h.sending,
    fun k hk => hlink ▸ h.receiving k hk⟩

theorem linkIn_self (now : Nat) (l : Link) : linkIn now l now = l := if_pos rfl

theorem linkIn_of_ne {now k : Nat} (h : k ≠ now) (l : Link) : linkIn now l k = .fresh := if_neg h

/-- The link of the first station is the sending end in the session that goes on. -/
theorem Inv.sendingNow (h : Inv idA idB reach windowA windowB d) :
    ∃ acked, Sending reach (d.sent d.sessionA) acked (d.a.link idB) ∧
      Acknowledge (d.received d.sessionA).length acked (inSession d.sessionA d.toA) := by
  have hnow := h.sending d.sessionA (Nat.le_refl _)
  rw [linkIn_self] at hnow
  exact hnow

/-- The link of the second station is the receiving end in the session that goes on. -/
theorem Inv.receivingNow (h : Inv idA idB reach windowA windowB d) :
    ∃ horizon, Receiving windowB (d.sent d.sessionB) horizon (d.received d.sessionB).length
        (d.b.link idA) ∧
      Carry reach (d.sent d.sessionB) (d.received d.sessionB).length horizon
        (inSession d.sessionB d.toB) := by
  have hnow := h.receiving d.sessionB (Nat.le_refl _)
  rw [linkIn_self] at hnow
  exact hnow

/-! ## Slots -/

theorem Inv.launchA (h : Inv idA idB reach windowA windowB d) {a : Station}
    (ha : a.Fits windowA idA idB) (hheld : (a.link idB).HoldsFrames) {t : Transmission}
    (horigin : t.packet.origin = idA) {new : List Packet}
    (hnew : ∀ c ∈ new.map Packet.content, c.IsFrame ∧ c.IsSound)
    (hsending : ∀ acked, Sending reach (d.sent d.sessionA) acked (d.a.link idB) →
      Sending reach (d.sent d.sessionA ++ new.map Packet.content) acked (a.link idB))
    (ht : t.packet.Carries reach (d.sent d.sessionA ++ new.map Packet.content)) :
    Inv idA idB reach windowA windowB { d with
      a
      toB := d.toB ++ [(d.sessionA, t)]
      sequenced := d.sequenced ++ new.map (Prod.mk d.sessionA) } := by
  have hall : ∀ k, sent { d with
      a
      toB := d.toB ++ [(d.sessionA, t)]
      sequenced := d.sequenced ++ new.map (Prod.mk d.sessionA) } k =
      if d.sessionA = k then d.sent k ++ new.map Packet.content else d.sent k := by
    intro k
    rw [sent, inSession_append, inSession_tagged new fun p => p, List.map_append, sent]
    by_cases hk : d.sessionA = k
    · rw [if_pos hk, if_pos hk, List.map_id']
    · rw [if_neg hk, if_neg hk, List.map_nil, List.append_nil]
  refine ⟨ha, h.b, hheld, h.heldB, h.toA, ?_, ?_, ?_, ?_, ?_⟩
  · intro e he
    rcases List.mem_append.1 he with he | he
    · exact h.toB e he
    · rw [List.mem_singleton.1 he]
      exact horigin
  · intro k
    rw [hall]
    split
    · intro c hc
      rcases List.mem_append.1 hc with hc | hc
      · exact h.frames k c hc
      · exact hnew c hc
    · exact h.frames k
  · intro k
    rw [hall]
    split
    · exact (h.prefixed k).trans (List.prefix_append _ _)
    · exact h.prefixed k
  · intro k hk
    obtain ⟨acked, hs, hacknowledge⟩ := h.sending k hk
    refine ⟨acked, ?_, hacknowledge⟩
    rw [hall]
    by_cases hnow : k = d.sessionA
    · subst hnow
      rw [linkIn_self] at hs ⊢
      rw [if_pos rfl]
      exact hsending acked hs
    · rw [linkIn_of_ne hnow] at hs ⊢
      rw [if_neg (Ne.symm hnow)]
      exact hs
  · intro k hk
    obtain ⟨horizon, hr, hcarry⟩ := h.receiving k hk
    refine ⟨horizon, ?_, ?_⟩
    · rw [hall]
      split
      · exact hr.mono (List.prefix_append _ _) (Nat.le_refl _)
      · exact hr
    · rw [hall]
      show Carry reach _ _ horizon (inSession k (d.toB ++ [(d.sessionA, t)]))
      rw [inSession_append]
      by_cases hnow : k = d.sessionA
      · subst hnow
        obtain ⟨acked, hs, hacknowledge⟩ := h.sendingNow
        rw [if_pos rfl, inSession_cons_self]
        refine (hcarry.extend _).append (fun hlt => ?_) ht
        obtain ⟨f, -, hf⟩ := (hsending acked hs).kept _ hacknowledge.le hlt
        exact hf.recent
      · rw [if_neg (Ne.symm hnow), inSession_cons_of_ne (Ne.symm hnow)]
        exact (List.append_nil (inSession k d.toB)).symm ▸ hcarry

theorem Inv.launchB (h : Inv idA idB reach windowA windowB d) {b : Station}
    (hb : b.Fits windowB idB idA) (hheld : (b.link idA).HoldsFrames) {t : Transmission}
    (horigin : t.packet.origin = idB) (hlike : (d.b.link idA).ReceivesLike (b.link idA))
    (ht : ∀ n, (d.b.link idA).nextExpected = .atPosition n → t.packet.Tells n) :
    Inv idA idB reach windowA windowB { d with b, toA := d.toA ++ [(d.sessionB, t)] } := by
  refine ⟨h.a, hb, h.heldA, hheld, ?_, h.toB, h.frames, h.prefixed, ?_, ?_⟩
  · intro e he
    rcases List.mem_append.1 he with he | he
    · exact h.toA e he
    · rw [List.mem_singleton.1 he]
      exact horigin
  · intro k hk
    obtain ⟨acked, hs, hacknowledge⟩ := h.sending k hk
    refine ⟨acked, hs, ?_⟩
    show Acknowledge _ acked (inSession k (d.toA ++ [(d.sessionB, t)]))
    rw [inSession_append]
    by_cases hnow : k = d.sessionB
    · subst hnow
      obtain ⟨horizon, hr, -⟩ := h.receivingNow
      rw [inSession_cons_self]
      exact hacknowledge.append (ht _ hr.nextExpected)
    · rw [inSession_cons_of_ne (Ne.symm hnow)]
      exact (List.append_nil (inSession k d.toA)).symm ▸ hacknowledge
  · intro k hk
    obtain ⟨horizon, hr, hcarry⟩ := h.receiving k hk
    refine ⟨horizon, ?_, hcarry⟩
    by_cases hnow : k = d.sessionB
    · subst hnow
      rw [linkIn_self] at hr ⊢
      exact hr.congr hlike
    · rw [linkIn_of_ne hnow] at hr ⊢
      exact hr

theorem Inv.slotA (hpos : 0 < reach) (hwidest : reach ≤ 127) (hidA : idA.isSet = true)
    (hidB : idB.isSymbolic = false) (h : Inv idA idB reach windowA windowB d)
    (hclear : ((d.step sessions idA idB (.slot .a)).a.link idB).isClear reach = true) :
    Inv idA idB reach windowA windowB (d.step sessions idA idB (.slot .a)) := by
  obtain ⟨hfits, hemits⟩ := h.a.update hidB h.heldA
  rw [step] at hclear ⊢
  generalize (Station.update d.a).2.drain = answer at hfits hemits hclear ⊢
  obtain ⟨out, a⟩ := answer
  simp only at hfits hemits hclear ⊢
  generalize hlink : a.link idB = m at hemits hclear ⊢
  cases hemits with
  | nothing =>
    simp only [List.map_nil, List.flatMap_nil, List.append_nil]
    exact h.keepA hfits hlink
  | @plain t horigin hnone =>
    have hnumbered : (d.a.link idB).numbered (d.a.link idB) t.packet = [] := if_pos rfl
    rw [List.map_singleton, List.flatMap_singleton, hnumbered]
    have hnew : ∀ c ∈ ([] : List Packet).map Packet.content, c.IsFrame ∧ c.IsSound :=
      fun c hc => by cases hc
    refine h.launchA hfits (hlink ▸ h.heldA) (show t.arriving.packet.origin = idA from horigin) hnew
      ?_ ?_
    · intro acked hs
      rw [hlink, List.map_nil, List.append_nil]
      exact hs
    · intro header hheader
      cases hheader.symm.trans hnone
  | @answer t packet m hanswers hsize hpacket =>
    have hcontent : t.packet.content = packet.content := by
      rw [← Packet.content_copy, hpacket, Packet.content_copy, Packet.content_sign]
    have hnumbered := Link.numbered_congr (d.a.link idB) m hcontent
    have horigin : t.arriving.packet.origin = idA := by
      show t.packet.copy.origin = idA
      rw [hpacket]
      exact Packet.origin_sign (hanswers.lead h.heldA hsize) idA
    have hsending : ∀ acked, Sending reach (d.sent d.sessionA) acked (d.a.link idB) →
        Sending reach (d.sent d.sessionA ++
          ((d.a.link idB).numbered m t.packet).map Packet.content) acked m := by
      intro acked hs
      rw [hnumbered]
      exact hs.answers hpos hwidest hanswers hclear
    have hnew : ∀ c ∈ ((d.a.link idB).numbered m t.packet).map Packet.content,
        c.IsFrame ∧ c.IsSound := by
      rw [hnumbered]
      exact hanswers.numbered_content
    obtain ⟨acked, hs, -⟩ := h.sendingNow
    rw [List.map_singleton, List.flatMap_singleton]
    refine h.launchA hfits (hlink ▸ h.heldA.answers hanswers) horigin hnew (hlink ▸ hsending) ?_
    show t.packet.copy.Carries reach _
    rw [hpacket]
    refine hanswers.carries (hsending acked hs) ?_ hidA
    intro c hc
    rcases List.mem_append.1 hc with hc | hc
    · exact (h.frames d.sessionA c hc).1
    · exact (hnew c hc).1

theorem Inv.slotB (hidB : idB.isSet = true) (hidA : idA.isSymbolic = false)
    (h : Inv idA idB reach windowA windowB d) :
    Inv idA idB reach windowA windowB (d.step sessions idA idB (.slot .b)) := by
  obtain ⟨hfits, hemits⟩ := h.b.update hidA h.heldB
  rw [step]
  generalize (Station.update d.b).2.drain = answer at hfits hemits ⊢
  obtain ⟨out, b⟩ := answer
  simp only at hfits hemits ⊢
  generalize hlink : b.link idA = m at hemits
  cases hemits with
  | nothing =>
    simp only [List.map_nil, List.append_nil]
    exact h.keepB hfits hlink
  | @plain t horigin hnone =>
    rw [List.map_singleton]
    exact h.launchB hfits (hlink ▸ h.heldB) (show t.arriving.packet.origin = idB from horigin)
      (hlink ▸ ⟨rfl, rfl⟩) fun _ _ => Or.inl hnone
  | @answer t packet m hanswers hsize hpacket =>
    have horigin : t.arriving.packet.origin = idB := by
      show t.packet.copy.origin = idB
      rw [hpacket]
      exact Packet.origin_sign (hanswers.lead h.heldB hsize) idB
    rw [List.map_singleton]
    refine h.launchB hfits (hlink ▸ h.heldB.answers hanswers) horigin
      (hlink ▸ hanswers.receivesLike) fun n hn => ?_
    show t.packet.copy.Tells n
    rw [hpacket]
    rcases hanswers.tells h.heldB hidB with hsilent | ⟨-, header, hheader, hexpected⟩
    · exact Or.inl (Packet.arqHeader?_eq_none hsilent)
    · exact Or.inr ⟨header, hheader, hexpected.trans hn⟩

/-! ## Arrivals -/

variable {session : Nat} {t : Transmission} {rest : List (Nat × Transmission)}

/-- What is first on its way to the first station is of no use there. -/
theorem Inv.dropA (h : Inv idA idB reach windowA windowB d) (hq : d.toA = (session, t) :: rest) :
    Inv idA idB reach windowA windowB { d with toA := rest } := by
  refine ⟨h.a, h.b, h.heldA, h.heldB, fun e he => h.toA e (hq ▸ List.mem_cons_of_mem _ he), h.toB,
    h.frames, h.prefixed, ?_, h.receiving⟩
  intro k hk
  obtain ⟨acked, hs, hacknowledge⟩ := h.sending k hk
  refine ⟨acked, hs, ?_⟩
  rw [hq] at hacknowledge
  by_cases hnow : session = k
  · subst hnow
    rw [inSession_cons_self] at hacknowledge
    obtain ⟨told, hle, -, hrest⟩ := hacknowledge
    exact hrest.weaken hle
  · rw [inSession_cons_of_ne hnow] at hacknowledge
    exact hacknowledge

theorem Inv.dropB (h : Inv idA idB reach windowA windowB d) (hq : d.toB = (session, t) :: rest) :
    Inv idA idB reach windowA windowB { d with toB := rest } := by
  refine ⟨h.a, h.b, h.heldA, h.heldB, h.toA, fun e he => h.toB e (hq ▸ List.mem_cons_of_mem _ he),
    h.frames, h.prefixed, h.sending, ?_⟩
  intro k hk
  obtain ⟨horizon, hr, hcarry⟩ := h.receiving k hk
  refine ⟨horizon, hr, ?_⟩
  rw [hq] at hcarry
  by_cases hnow : session = k
  · subst hnow
    rw [inSession_cons_self] at hcarry
    obtain ⟨n, hle, -, -, hrest⟩ := hcarry
    exact hrest.weaken hle
  · rw [inSession_cons_of_ne hnow] at hcarry
    exact hcarry

theorem eq_of_isHeadIn {now : Nat} {header : UnicastHeader}
    (hhead : isHeadIn now ((session, t) :: rest) = true) (hheader : t.packet.arqHeader? = some header) :
    session = now := by
  rw [isHeadIn, hheader] at hhead
  exact beq_iff_eq.1 hhead

/-- What arrives at the first station says how many frames the second one has received. -/
theorem Inv.told (h : Inv idA idB reach windowA windowB d) (hq : d.toA = (d.sessionA, t) :: rest)
    {header : UnicastHeader} (hheader : t.packet.arqHeader? = some header) :
    ∃ acked told, Sending reach (d.sent d.sessionA) acked (d.a.link idB) ∧ acked ≤ told ∧
      header.nextExpected = .atPosition told ∧
      Acknowledge (d.received d.sessionA).length told (inSession d.sessionA rest) := by
  obtain ⟨acked, hs, hacknowledge⟩ := h.sendingNow
  rw [hq, inSession_cons_self] at hacknowledge
  obtain ⟨told, hle, hnone | ⟨header', hheader', htold⟩, hrest⟩ := hacknowledge
  · cases hheader.symm.trans hnone
  · cases hheader.symm.trans hheader'
    exact ⟨acked, told, hs, hle, htold, hrest⟩

theorem Inv.deliverA (hreach : windowA ≤ reach) (h : Inv idA idB reach windowA windowB d)
    (hinStep : d.isInStep (.deliver .a) = true) :
    Inv idA idB reach windowA windowB (d.step sessions idA idB (.deliver .a)) := by
  rw [isInStep] at hinStep
  rw [step]
  cases hq : d.toA with
  | nil => exact h
  | cons e rest =>
    obtain ⟨session, t⟩ := e
    rw [hq] at hinStep
    obtain ⟨hfits, hcases⟩ := h.a.receive (h.toA (session, t) (hq ▸ List.mem_cons_self))
    rcases hcases with ⟨hlink, -⟩ | ⟨header, hheader, hlink, -⟩
    · exact (h.keepA hfits hlink).dropA hq
    · have hsession := eq_of_isHeadIn hinStep hheader
      subst hsession
      refine ⟨hfits, h.b, ?_, h.heldB, fun e he => h.toA e (hq ▸ List.mem_cons_of_mem _ he), h.toB,
        h.frames, h.prefixed, ?_, h.receiving⟩
      · rw [hlink]
        exact h.heldA.takeIn header t.packet windowA
      · intro k hk
        by_cases hnow : k = d.sessionA
        · subst hnow
          obtain ⟨acked, told, hs, hle, htold, hrest⟩ := h.told hq hheader
          rw [linkIn_self, hlink]
          exact ⟨told, hs.takeIn hreach htold hle t.packet, hrest⟩
        · obtain ⟨acked, hs, hacknowledge⟩ := h.sending k hk
          rw [hq, inSession_cons_of_ne (Ne.symm hnow)] at hacknowledge
          rw [linkIn_of_ne hnow] at hs ⊢
          exact ⟨acked, hs, hacknowledge⟩

theorem Inv.deliverB (hpos : 0 < windowB) (hreach : windowB ≤ reach) (hwidest : reach ≤ 127)
    (h : Inv idA idB reach windowA windowB d) (hinStep : d.isInStep (.deliver .b) = true) :
    Inv idA idB reach windowA windowB (d.step sessions idA idB (.deliver .b)) := by
  rw [isInStep] at hinStep
  rw [step]
  cases hq : d.toB with
  | nil => exact h
  | cons e rest =>
    obtain ⟨session, t⟩ := e
    rw [hq] at hinStep
    obtain ⟨hfits, hcases⟩ := h.b.receive (h.toB (session, t) (hq ▸ List.mem_cons_self))
    rcases hcases with ⟨hlink, hup⟩ | ⟨header, hheader, hlink, hup⟩
    · simp only [hup, List.map_nil, List.append_nil]
      exact (h.keepB hfits hlink).dropB hq
    · have hsession := eq_of_isHeadIn hinStep hheader
      subst hsession
      obtain ⟨horizon, hr, hcarry⟩ := h.receivingNow
      rw [hq, inSession_cons_self] at hcarry
      obtain ⟨n, hn, hnext, hcarries, hrest⟩ := hcarry
      have hn' : ((d.sent d.sessionB).take n).length = n := List.length_take_of_le hrest.le
      have hrecognized := hcarries.isRecognized hheader hreach hwidest
        (hn'.symm ▸ Nat.le_trans hr.received_le hn) (hn'.symm ▸ hnext)
      obtain ⟨after, hle, hafter, htake⟩ := hr.takeIn hpos (by omega) hn hrecognized
      rw [← List.prefix_iff_eq_take.1 (h.prefixed d.sessionB)] at htake
      have hsound : ∀ p ∈ ((d.b.link idA).takeIn header t.packet windowB).1, p.IsSound := by
        intro p hp
        have hmem : p.content ∈ (d.sent d.sessionB).take after :=
          htake ▸ List.mem_append_right _ (List.mem_map_of_mem hp)
        rw [← Packet.isSound_content]
        exact (h.frames d.sessionB _ (List.mem_of_mem_take hmem)).2
      have hlength : ((d.sent d.sessionB).take after).length = after :=
        List.length_take_of_le (Nat.le_trans hafter.received_le hrest.le)
      have hall : ∀ k, received { d with
          b := (Station.receive t d.b).2
          toB := rest
          handedUp := d.handedUp ++ ((d.b.link idA).takeIn header t.packet windowB).1.map
            (Prod.mk d.sessionB) } k =
          if d.sessionB = k then (d.sent k).take after else d.received k := by
        intro k
        rw [received, inSession_append, inSession_tagged _ fun p => p, List.map_append]
        by_cases hk : d.sessionB = k
        · subst hk
          rw [if_pos rfl, if_pos rfl, List.map_id', htake, received]
        · rw [if_neg hk, if_neg hk, List.map_nil, List.append_nil, received]
      simp only [hup hsound]
      refine ⟨h.a, hfits, h.heldA, ?_, h.toA, fun e he => h.toB e (hq ▸ List.mem_cons_of_mem _ he),
        h.frames, ?_, ?_, ?_⟩
      · rw [hlink]
        exact h.heldB.takeIn header t.packet windowB
      · intro k
        rw [hall]
        split
        · exact List.take_prefix _ _
        · exact h.prefixed k
      · intro k hk
        obtain ⟨acked, hs, hacknowledge⟩ := h.sending k hk
        refine ⟨acked, hs, ?_⟩
        rw [hall]
        split
        · next hnow =>
          subst hnow
          rw [hlength]
          exact hacknowledge.mono hle
        · exact hacknowledge
      · intro k hk
        rw [hall]
        by_cases hnow : k = d.sessionB
        · subst hnow
          rw [if_pos rfl, hlength, linkIn_self, hlink]
          exact ⟨n, hafter, hrest.mono hle⟩
        · obtain ⟨horizon, hr, hcarry⟩ := h.receiving k hk
          rw [hq, inSession_cons_of_ne (Ne.symm hnow)] at hcarry
          rw [linkIn_of_ne hnow] at hr ⊢
          rw [if_neg (Ne.symm hnow)]
          exact ⟨horizon, hr, hcarry⟩

/-! ## Tear-downs -/

/-- A link that is torn down starts afresh, in the session that follows. -/
theorem linkIn_removeLink {now next k : Nat} {l m : Link} {c : Prop} [Decidable c]
    (hnext : now < next) (hm : m = if c then .fresh else l) (hk : (if c then next else now) ≤ k) :
    linkIn (if c then next else now) m k = linkIn now l k := by
  subst hm
  split at hk
  · next hc =>
    rw [if_pos hc, if_pos hc, linkIn, linkIn, ite_self, if_neg (by omega)]
  · next hc => rw [if_neg hc, if_neg hc]

theorem Inv.removeLinkA (h : Inv idA idB reach windowA windowB d) (other : Address) :
    Inv idA idB reach windowA windowB (d.step sessions idA idB (.removeLink .a other)) := by
  obtain ⟨hfits, hlink⟩ := h.a.removeLink other
  rw [step]
  generalize Station.removeLink other d.a = answer at hfits hlink ⊢
  obtain ⟨r, a⟩ := answer
  refine ⟨hfits, h.b, ?_, h.heldB, h.toA, h.toB, h.frames, h.prefixed, ?_, h.receiving⟩
  · rw [hlink]
    split
    · intro f hf
      cases hf
    · exact h.heldA
  · intro k hk
    show ∃ acked, Sending reach _ acked (linkIn _ (a.link idB) k) ∧ _
    have hnext := sessions.lt_nextA d.sessionA
    rw [linkIn_removeLink hnext hlink hk]
    refine h.sending k (Nat.le_trans ?_ hk)
    simp only
    split <;> omega

theorem Inv.removeLinkB (h : Inv idA idB reach windowA windowB d) (other : Address) :
    Inv idA idB reach windowA windowB (d.step sessions idA idB (.removeLink .b other)) := by
  obtain ⟨hfits, hlink⟩ := h.b.removeLink other
  rw [step]
  generalize Station.removeLink other d.b = answer at hfits hlink ⊢
  obtain ⟨r, b⟩ := answer
  refine ⟨h.a, hfits, h.heldA, ?_, h.toA, h.toB, h.frames, h.prefixed, h.sending, ?_⟩
  · rw [hlink]
    split
    · intro f hf
      cases hf
    · exact h.heldB
  · intro k hk
    show ∃ horizon, Receiving windowB _ horizon _ (linkIn _ (b.link idA) k) ∧ _
    have hnext := sessions.lt_nextB d.sessionB
    rw [linkIn_removeLink hnext hlink hk]
    refine h.receiving k (Nat.le_trans ?_ hk)
    simp only
    split <;> omega

/-! ## Runs -/

theorem inv_step (hposB : 0 < windowB) (hreachA : windowA ≤ reach) (hreachB : windowB ≤ reach)
    (hwidest : reach ≤ 127) (hidA : idA.isSymbolic = false) (hidB : idB.isSymbolic = false)
    (h : Inv idA idB reach windowA windowB d) {e : DuplexEvent} (hinStep : d.isInStep e = true)
    (hclear : ((d.step sessions idA idB e).a.link idB).isClear reach = true) :
    Inv idA idB reach windowA windowB (d.step sessions idA idB e) := by
  cases e with
  | send side datagram dest priority =>
    cases side with
    | a =>
      obtain ⟨hfits, hlink⟩ := h.a.send datagram dest priority
      exact h.keepA hfits hlink
    | b =>
      obtain ⟨hfits, hlink⟩ := h.b.send datagram dest priority
      exact h.keepB hfits hlink
  | slot side =>
    cases side with
    | a => exact h.slotA (by omega) hwidest (Address.isSet_of_isSymbolic hidA) hidB hclear
    | b => exact h.slotB (Address.isSet_of_isSymbolic hidB) hidA
  | deliver side =>
    cases side with
    | a => exact h.deliverA hreachA hinStep
    | b => exact h.deliverB hposB hreachB hwidest hinStep
  | removeLink side other =>
    cases side with
    | a => exact h.removeLinkA other
    | b => exact h.removeLinkB other

theorem inv_run (hposB : 0 < windowB) (hreachA : windowA ≤ reach) (hreachB : windowB ≤ reach)
    (hwidest : reach ≤ 127) (hidA : idA.isSymbolic = false) (hidB : idB.isSymbolic = false)
    (h : Inv idA idB reach windowA windowB d) {events : List DuplexEvent}
    (hinStep : d.staysInStep sessions idA idB reach events = true) :
    Inv idA idB reach windowA windowB (d.run sessions idA idB events) := by
  induction events generalizing d with
  | nil => exact h
  | cons e rest ih =>
    rw [staysInStep, Bool.and_eq_true, Bool.and_eq_true] at hinStep
    obtain ⟨⟨hstep, hclear⟩, hrest⟩ := hinStep
    exact ih (inv_step hposB hreachA hreachB hwidest hidA hidB h hstep hclear) hrest

theorem inv_start {a b : Station} (ha : a.Fits windowA idA idB) (hb : b.Fits windowB idB idA)
    (hlinkA : a.link idB = .fresh) (hlinkB : b.link idA = .fresh) (sessions : Sessions)
    (reach : Nat) : Inv idA idB reach windowA windowB (start sessions a b) := by
  have hfresh : ∀ now k, linkIn now .fresh k = .fresh := fun _ _ => ite_self _
  refine ⟨ha, hb, ?_, ?_, ?_, ?_, ?_, ?_, fun k _ => ⟨0, ?_, Nat.le_refl _⟩,
    fun k _ => ⟨0, ?_, Nat.le_refl _⟩⟩
  · show (a.link idB).HoldsFrames
    rw [hlinkA]
    intro f hf
    cases hf
  · show (b.link idA).HoldsFrames
    rw [hlinkB]
    intro f hf
    cases hf
  · intro e he
    cases he
  · intro e he
    cases he
  · intro k c hc
    cases hc
  · exact fun k => List.nil_prefix
  · show Sending reach [] 0 (linkIn sessions.firstA (a.link idB) k)
    rw [hlinkA, hfresh]
    exact .fresh _ _
  · show Receiving windowB [] 0 0 (linkIn sessions.firstB (b.link idA) k)
    rw [hlinkB, hfresh]
    exact .fresh _ _

/-- What the first station drops when something arrives was handed up before. -/
theorem Inv.hasHandedUp (hreach : windowA ≤ reach) (h : Inv idA idB reach windowA windowB d)
    (hinStep : d.isInStep (.deliver .a) = true) {f : SentFrame}
    (hf : f ∈ d.dropped sessions idA idB) : d.HasHandedUp f := by
  obtain ⟨hf, hdropped⟩ := List.mem_filter.1 hf
  rw [decide_eq_true_eq] at hdropped
  rw [isInStep] at hinStep
  rw [step] at hdropped
  cases hq : d.toA with
  | nil =>
    rw [hq] at hdropped
    exact absurd hf hdropped
  | cons e rest =>
    obtain ⟨session, t⟩ := e
    rw [hq] at hinStep hdropped
    change f ∉ ((Station.receive t d.a).2.link idB).unacked at hdropped
    obtain ⟨-, ⟨hlink, -⟩ | ⟨header, hheader, hlink, -⟩⟩ :=
      h.a.receive (h.toA (session, t) (hq ▸ List.mem_cons_self))
    · rw [hlink] at hdropped
      exact absurd hf hdropped
    · have hsession := eq_of_isHeadIn hinStep hheader
      subst hsession
      obtain ⟨acked, told, hs, hle, htold, hrest⟩ := h.told hq hheader
      obtain ⟨i, hi⟩ := hs.isAt f hf
      have hlt : i < (d.received d.sessionA).length := by
        refine Nat.lt_of_lt_of_le (Nat.lt_of_not_le fun htoldi => hdropped ?_) hrest.le
        have hbehind := hs.not_isBehind hreach hle hi htoldi
        rw [hlink, (Link.takeIn_sending _ header t.packet windowA).2, htold, List.mem_filter,
          hbehind]
        exact ⟨hf, rfl⟩
      refine ⟨i, hi.seq, hi.content, ?_⟩
      rw [List.prefix_iff_eq_take.1 (h.prefixed d.sessionA), List.getElem?_take_of_lt hlt]
      exact hi.content

/-- **Honest acknowledgements.** In a run whose sessions are paired, every frame that the first station
drops when something arrives is one that the second station has handed up. -/
theorem dropped_handedUp {configA configB : StationConfig} {a b : Station}
    (hA : Station.ofConfig configA = .ok a) (hB : Station.ofConfig configB = .ok b)
    (hprotectA : configA.arq.protectUnicast = true) (hprotectB : configB.arq.protectUnicast = true)
    (sessions : Sessions) (events : List DuplexEvent)
    (hinStep : (start sessions a b).staysInStep sessions configA.mac.id configB.mac.id
      (max configA.arq.windowSize configB.arq.windowSize) events = true)
    (hnext : ((start sessions a b).run sessions configA.mac.id configB.mac.id events).isInStep
      (.deliver .a) = true) :
    ∀ f ∈ ((start sessions a b).run sessions configA.mac.id configB.mac.id events).dropped sessions
        configA.mac.id configB.mac.id,
      ((start sessions a b).run sessions configA.mac.id configB.mac.id events).HasHandedUp f := by
  obtain ⟨hwindowA, hidA, rfl⟩ := Station.ofConfig_eq_ok_iff.1 hA
  obtain ⟨hwindowB, hidB, rfl⟩ := Station.ofConfig_eq_ok_iff.1 hB
  have hstart := inv_start (Station.fits_made hprotectA configB.mac.id)
    (Station.fits_made hprotectB configA.mac.id) rfl rfl sessions
    (max configA.arq.windowSize configB.arq.windowSize)
  have hinv := inv_run hwindowB.1 (by omega) (by omega) (by omega) hidA hidB hstart hinStep
  exact fun f hf => hinv.hasHandedUp (by omega) hnext hf

/-- Settings of station `id` that are ordinary in all else. -/
def ordinary (id : Address) : StationConfig := { (default : StationConfig) with mac := ⟨id, 0, 0, 0⟩ }

/-- Stations 1 and 2. -/
def pair : Duplex :=
  start .counted (Station.made (ordinary ⟨1⟩)) (Station.made (ordinary ⟨2⟩))

/-- Some slots pass, and everything arrives in the slot in which it is sent. -/
def slots (count : Nat) : List DuplexEvent :=
  (List.replicate count [.slot .a, .slot .b, .deliver .b, .deliver .a]).flatten

/-- A datagram is delivered, the stations in `sides` tear down their link, and then a second datagram
is sent and has just been acknowledged. -/
def tornDown (sides : List DuplexEvent) : List DuplexEvent :=
  [.send .a ⟨#[0xAA]⟩ ⟨2⟩ 0] ++ slots 4 ++ sides ++ [.send .a ⟨#[0xBB]⟩ ⟨2⟩ 0] ++ slots 3 ++ [.slot .b]

/-- Both stations tear down their link, and what is dropped in the second session was handed up. -/
theorem dropped_handedUp_again :
    ((pair.run .counted ⟨1⟩ ⟨2⟩ (tornDown [.removeLink .a ⟨2⟩, .removeLink .b ⟨1⟩])).dropped
      .counted ⟨1⟩ ⟨2⟩).length = 1 ∧
    ∀ f ∈ (pair.run .counted ⟨1⟩ ⟨2⟩ (tornDown [.removeLink .a ⟨2⟩, .removeLink .b ⟨1⟩])).dropped
        .counted ⟨1⟩ ⟨2⟩,
      (pair.run .counted ⟨1⟩ ⟨2⟩
        (tornDown [.removeLink .a ⟨2⟩, .removeLink .b ⟨1⟩])).HasHandedUp f :=
  ⟨by decide +kernel,
    dropped_handedUp (show Station.ofConfig (ordinary ⟨1⟩) = .ok (.made (ordinary ⟨1⟩)) from rfl)
      (show Station.ofConfig (ordinary ⟨2⟩) = .ok (.made (ordinary ⟨2⟩)) from rfl) rfl rfl .counted
      (tornDown [.removeLink .a ⟨2⟩, .removeLink .b ⟨1⟩]) (by decide +kernel) (by decide +kernel)⟩

/-- Where one station alone tears down its link, the other one takes the first frame of the new session
for an old one, and acknowledges it without having handed it up. -/
theorem exists_dropped_not_handedUp :
    ∃ f ∈ (pair.run .counted ⟨1⟩ ⟨2⟩ (tornDown [.removeLink .a ⟨2⟩])).dropped .counted ⟨1⟩ ⟨2⟩,
      ∀ e ∈ (pair.run .counted ⟨1⟩ ⟨2⟩ (tornDown [.removeLink .a ⟨2⟩])).handedUp,
        e.2.content ≠ f.packet.content := by
  decide +kernel

end Duplex

end DataLink
