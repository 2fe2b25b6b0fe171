import DataLink.Proofs.Arq.Budget
import DataLink.Proofs.Rlc.Serving

/-!
# Control packets leave in order

An RLC keeps injected control packets in tables of queues, from which entries go away as they become
empty. What it should do with them takes one list: a *register* of all packets that were injected,
numbered in this order, and of those that have left. The packet that goes first under a key is the one
that goes before all others that wait there, and a request at the start of a burst takes it if it has
room.

**Theorem (`follows_register`).** After any run in which all injected packets have a length that is a
word, every request is answered as the register says: with the packet that goes first, as it was
injected, or else as if nothing had ever been injected, and then the packets that wait are left alone.

What waits under a key is a line in the order of service, and the queue of the RLC is that line
(`Register.IsLine`). A new packet has the highest number, so it goes before no packet of its own
priority, and the place it is given in the queue is its place in the line (`IsLine.inject`).
-/

namespace DataLink

/-- A control packet that was injected, after `number` others. -/
structure Injection where
  number : Nat
  priority : Nat
  packet : Packet
deriving DecidableEq

namespace Injection

/-- Where the packet waits: under the broadcast address if it asks for a link or grants one, and else
under its destination. -/
def key (e : Injection) : Address :=
  if ∃ h ∈ e.packet.headers, h.frameType = .linkRequest ∨ h.frameType = .linkReply then .broadcast
  else e.packet.dest

theorem key_eq (e : Injection) : e.key = SegmentingRlc.injectionKey e.packet := by
  have hlinks : (∃ h ∈ e.packet.headers, h.frameType = .linkRequest ∨ h.frameType = .linkReply) ↔
      (e.packet.contains .linkRequest || e.packet.contains .linkReply) = true := by
    simp [Packet.contains, and_or_left, exists_or]
  exact if_congr hlinks rfl rfl

/-- `e` has a higher priority than `f`, or the same one, and then it was injected earlier. -/
def GoesBefore (e f : Injection) : Prop :=
  f.priority < e.priority ∨ f.priority = e.priority ∧ e.number < f.number

instance (e f : Injection) : Decidable (e.GoesBefore f) := by
  unfold GoesBefore
  infer_instance

theorem GoesBefore.asymm {e f : Injection} (h : e.GoesBefore f) : ¬ f.GoesBefore e := by
  unfold GoesBefore at h ⊢
  omega

end Injection

/-- The control packets that were injected, and those that have left. -/
structure Register where
  injected : List Injection
  left : List Injection

namespace Register

def empty : Register := ⟨[], []⟩

/-- The packets that wait under a key, in the order of injection. -/
def waiting (g : Register) (key : Address) : List Injection :=
  g.injected.filter fun e => e.key = key ∧ e ∉ g.left

/-- The packet that goes before all others that wait under a key. -/
def first? (g : Register) (key : Address) : Option Injection :=
  (g.waiting key).find? fun e => (g.waiting key).all fun f => f = e ∨ e.GoesBefore f

/-- The packet that a request takes. -/
def served? (g : Register) (bits : Nat) (dest : Address) (frame : Nat) : Option Injection :=
  if frame = 0 ∧ 70 ≤ bits then (g.first? dest).filter fun e => e.packet.length ≤ bits else none

def inject (g : Register) (packet : Packet) (priority : Nat) : Register :=
  { g with injected := g.injected ++ [⟨g.injected.length, priority, packet⟩] }

def request (g : Register) (bits : Nat) (dest : Address) (frame : Nat) : Register :=
  { g with left := g.left ++ (g.served? bits dest frame).toList }

variable {g : Register} {key dest : Address} {e : Injection} {bits frame : Nat}

theorem mem_waiting : e ∈ g.waiting key ↔ e ∈ g.injected ∧ e.key = key ∧ e ∉ g.left := by
  simp [waiting]

theorem of_first? (h : g.first? key = some e) :
    e ∈ g.waiting key ∧ ∀ f ∈ g.waiting key, f = e ∨ e.GoesBefore f := by
  rw [first?] at h
  exact ⟨List.mem_of_find?_eq_some h, by simpa using List.find?_some h⟩

/-! ## Lines -/

/-- The line of those that wait under a key, each with its priority. -/
structure IsLine (g : Register) (key : Address) (line : List (Nat × Injection)) : Prop where
  priority : ∀ x ∈ line, x.1 = x.2.priority
  members : (line.map Prod.snd).Perm (g.waiting key)
  order : line.Pairwise fun x y => x.2.GoesBefore y.2

variable {line rest : List (Nat × Injection)} {x : Nat × Injection}

theorem isLine_empty (key : Address) : empty.IsLine key [] where
  priority := List.forall_mem_nil _
  members := .nil
  order := .nil

theorem IsLine.service (h : g.IsLine key line) : line.Pairwise fun x y => y.1 ≤ x.1 := by
  refine h.order.imp_of_mem fun {x y} hx hy hbefore => ?_
  rw [h.priority x hx, h.priority y hy]
  rcases hbefore with hlt | ⟨heq, -⟩
  · exact Nat.le_of_lt hlt
  · exact Nat.le_of_eq heq

theorem IsLine.nodup (h : g.IsLine key line) : (line.map Prod.snd).Nodup := by
  rw [List.Nodup, List.pairwise_map]
  refine h.order.imp fun {x y} hbefore heq => ?_
  rw [heq] at hbefore
  exact hbefore.asymm hbefore

/-- The head of the line goes first. -/
theorem IsLine.first?_eq (h : g.IsLine key line) : g.first? key = line.head?.map Prod.snd := by
  have hmem : ∀ f, f ∈ g.waiting key ↔ f ∈ line.map Prod.snd := fun f => h.members.mem_iff.symm
  cases hline : line with
  | nil =>
    have hnone : g.waiting key = [] := List.eq_nil_iff_forall_not_mem.2 fun f hf => by
      rw [hmem, hline] at hf
      cases hf
    rw [first?, hnone]
    rfl
  | cons x rest =>
    rw [hline] at h hmem
    have hfirst : ∀ f ∈ g.waiting key, f = x.2 ∨ x.2.GoesBefore f := by
      intro f hf
      obtain ⟨y, hy, rfl⟩ := List.mem_map.1 ((hmem f).1 hf)
      rcases List.mem_cons.1 hy with rfl | hy
      · exact Or.inl rfl
      · exact Or.inr ((List.pairwise_cons.1 h.order).1 y hy)
    have hx : x.2 ∈ g.waiting key := (hmem x.2).2 List.mem_cons_self
    have hall : (g.waiting key).all (fun f => f = x.2 ∨ x.2.GoesBefore f) = true := by
      simpa using hfirst
    cases hfind : g.first? key with
    | none =>
      rw [first?, List.find?_eq_none] at hfind
      exact absurd hall (hfind x.2 hx)
    | some e =>
      -- Two packets cannot both go before the other one.
      obtain ⟨he, hbefore⟩ := of_first? hfind
      rcases hfirst e he with rfl | hless
      · rfl
      · rcases hbefore x.2 hx with rfl | hmore
        · rfl
        · exact absurd hmore hless.asymm

/-! ## What an RLC keeps -/

/-- The register is numbered, and what has left it was in it. -/
structure IsKept (g : Register) : Prop where
  numbers : g.injected.map Injection.number = List.range g.injected.length
  injected : ∀ e ∈ g.left, e ∈ g.injected
  once : g.left.Nodup

theorem isKept_empty : empty.IsKept := ⟨rfl, List.forall_mem_nil _, .nil⟩

theorem IsKept.lt (h : g.IsKept) (he : e ∈ g.injected) : e.number < g.injected.length := by
  have hnumber : e.number ∈ g.injected.map Injection.number := List.mem_map_of_mem he
  rw [h.numbers] at hnumber
  exact List.mem_range.1 hnumber

theorem IsKept.inject (h : g.IsKept) (packet : Packet) (priority : Nat) :
    (g.inject packet priority).IsKept where
  numbers := by
    rw [Register.inject, List.map_append, h.numbers, List.length_append, List.length_singleton,
      List.range_succ]
    rfl
  injected e he := List.mem_append_left _ (h.injected e he)
  once := h.once

theorem IsKept.leave (h : g.IsKept) (he : e ∈ g.injected) (hleft : e ∉ g.left) :
    IsKept { g with left := g.left ++ [e] } := by
  refine ⟨h.numbers, fun f hf => ?_, ?_⟩
  · rcases List.mem_append.1 hf with hf | hf
    · exact h.injected f hf
    · rw [List.mem_singleton.1 hf]
      exact he
  · exact List.nodup_append.2 ⟨h.once, List.pairwise_singleton _ e, fun a ha b hb heq =>
      hleft (List.mem_singleton.1 hb ▸ heq ▸ ha)⟩

/-- A new packet waits behind all that wait already. -/
theorem IsKept.waiting_inject (h : g.IsKept) (packet : Packet) (priority : Nat) (key : Address) :
    (g.inject packet priority).waiting key =
      g.waiting key ++ if SegmentingRlc.injectionKey packet = key then
        [⟨g.injected.length, priority, packet⟩] else [] := by
  have hnew : (⟨g.injected.length, priority, packet⟩ : Injection) ∉ g.left :=
    fun hleft => Nat.lt_irrefl _ (h.lt (h.injected _ hleft))
  show List.filter _ (g.injected ++ [_]) = List.filter _ g.injected ++ _
  rw [List.filter_append, List.filter_singleton]
  congr 1
  simp only [Injection.key_eq, Register.inject, hnew, not_false_eq_true, and_true, Bool.cond_decide]

theorem waiting_leave (g : Register) (e : Injection) (key : Address) :
    waiting { g with left := g.left ++ [e] } key = (g.waiting key).filter fun f => f ≠ e := by
  rw [waiting, waiting, List.filter_filter]
  refine List.filter_congr fun f _ => ?_
  simp only [List.mem_append, List.mem_singleton, not_or, Bool.decide_and, decide_not]
  cases decide (f.key = key) <;> simp [Bool.and_comm]

theorem IsLine.inject (h : g.IsLine key line) (hkept : g.IsKept) {packet : Packet}
    (hkey : SegmentingRlc.injectionKey packet = key) (priority : Nat) :
    (g.inject packet priority).IsLine key
      (PriorityQueue.place priority ⟨g.injected.length, priority, packet⟩ line) := by
  have hperm := PriorityQueue.place_perm priority
    (⟨g.injected.length, priority, packet⟩ : Injection) line
  refine ⟨fun x hx => ?_, ?_, ?_⟩
  · rcases List.mem_cons.1 (hperm.mem_iff.1 hx) with rfl | hx
    · rfl
    · exact h.priority x hx
  · rw [hkept.waiting_inject, if_pos hkey]
    exact ((hperm.map Prod.snd).trans (h.members.cons _)).trans (List.perm_append_singleton _ _).symm
  · refine PriorityQueue.pairwise_place_of h.order h.service (fun x hx hle => ?_) fun x hx hlt => ?_
    · have hmem := h.members.mem_iff.1 (List.mem_map_of_mem hx)
      have hnumber := hkept.lt (mem_waiting.1 hmem).1
      have := h.priority x hx
      unfold Injection.GoesBefore
      simp only
      omega
    · have := h.priority x hx
      unfold Injection.GoesBefore
      simp only
      omega

theorem IsLine.leave (h : g.IsLine key (x :: rest)) :
    IsLine { g with left := g.left ++ [x.2] } key rest := by
  obtain ⟨hnew, -⟩ := List.nodup_cons.1 h.nodup
  refine ⟨fun y hy => h.priority y (List.mem_cons_of_mem _ hy), ?_, (List.pairwise_cons.1 h.order).2⟩
  have hrest : (rest.map Prod.snd).filter (fun f => f ≠ x.2) = rest.map Prod.snd :=
    List.filter_eq_self.2 fun f hf => by
      rw [decide_eq_true_eq]
      exact fun heq => hnew (heq ▸ hf)
  have hperm := h.members.filter fun f => decide (f ≠ x.2)
  rw [waiting_leave]
  rwa [List.map_cons, List.filter_cons_of_neg (by simp), hrest] at hperm

theorem IsLine.congr (h : g.IsLine key line) {after : Register}
    (hwaiting : after.waiting key = g.waiting key) : after.IsLine key line :=
  ⟨h.priority, hwaiting ▸ h.members, h.order⟩

/-! ## The RLC -/

/-- What waits in the RLC is what waits according to the register, in the order of the line. -/
structure Describes (g : Register) (r : SegmentingRlc) : Prop extends IsKept g where
  sized : ∀ e ∈ g.injected, e.packet.IsSized
  lines : ∀ key, ∃ line, g.IsLine key line ∧
    (r.injectedFor key).items = line.map fun x => (x.1, x.2.packet)

variable {r : SegmentingRlc}

theorem describes_empty (maxQueued : Nat) : empty.Describes (.empty maxQueued) where
  toIsKept := isKept_empty
  sized := List.forall_mem_nil _
  lines key := ⟨[], isLine_empty key, rfl⟩

theorem Describes.congr (h : g.Describes r) {after : SegmentingRlc}
    (hinjected : after.injected = r.injected) : g.Describes after := by
  refine ⟨h.toIsKept, h.sized, fun key => ?_⟩
  rw [SegmentingRlc.injectedFor, hinjected]
  exact h.lines key

theorem Describes.inject (h : g.Describes r) {packet : Packet} (hsized : packet.IsSized)
    (priority : Nat) : (g.inject packet priority).Describes (r.inject packet priority) where
  toIsKept := h.toIsKept.inject packet priority
  sized e he := by
    rcases List.mem_append.1 he with he | he
    · exact h.sized e he
    · rw [List.mem_singleton.1 he]
      exact hsized
  lines key := by
    obtain ⟨line, hline, hitems⟩ := h.lines key
    rw [SegmentingRlc.injectedFor_inject]
    split
    · next hkey =>
      refine ⟨_, hline.inject h.toIsKept hkey priority, ?_⟩
      rw [PriorityQueue.map_place, PriorityQueue.push, hitems]
    · next hkey =>
      refine ⟨line, hline.congr ?_, hitems⟩
      rw [h.toIsKept.waiting_inject, if_neg hkey, List.append_nil]

/-- The packet in front is taken out of the RLC as it leaves the register. -/
theorem Describes.leave (h : g.Describes r) (hfirst : g.first? dest = some e) :
    Describes { g with left := g.left ++ [e] } { r with
      injected := r.injected.set dest (r.injectedFor dest).popFront.nonempty? } := by
  obtain ⟨hwaits, -⟩ := of_first? hfirst
  obtain ⟨hinjected, hdest, hleft⟩ := mem_waiting.1 hwaits
  refine ⟨h.toIsKept.leave hinjected hleft, h.sized, fun key => ?_⟩
  obtain ⟨line, hline, hitems⟩ := h.lines key
  rw [SegmentingRlc.injectedFor_set]
  split
  · next hkey =>
    subst hkey
    rw [hline.first?_eq] at hfirst
    cases line with
    | nil => cases hfirst
    | cons x rest =>
      cases hfirst
      refine ⟨rest, hline.leave, ?_⟩
      rw [PriorityQueue.popFront, hitems]
      rfl
  · next hkey =>
    refine ⟨line, hline.congr ?_, hitems⟩
    rw [waiting_leave, List.filter_eq_self.2 fun f hf => ?_]
    rw [decide_eq_true_eq]
    rintro rfl
    exact hkey (hdest.symm.trans (mem_waiting.1 hf).2.1)

theorem Describes.front?_eq (h : g.Describes r) (dest : Address) :
    (r.injectedFor dest).front? = (g.first? dest).map Injection.packet := by
  obtain ⟨line, hline, hitems⟩ := h.lines dest
  rw [hline.first?_eq, PriorityQueue.front?, hitems]
  cases line <;> rfl

/-- **Control first.** A packet that is served is taken out of the RLC, and if there is none, none is
found there. -/
theorem Describes.controlFor (h : g.Describes r) (hbits : 70 ≤ bits) (dest : Address) (frame : Nat) :
    match g.served? bits dest frame with
    | some e => ∃ after, r.controlFor bits dest frame = .ok (some (e.packet, after)) ∧
        Describes { g with left := g.left ++ [e] } after ∧ after.queues = r.queues
    | none => r.controlFor bits dest frame = .ok none := by
  rw [served?, SegmentingRlc.controlFor]
  by_cases hframe : frame = 0
  · rw [if_pos ⟨hframe, hbits⟩, if_pos hframe, SegmentingRlc.popInjected, h.front?_eq]
    cases hfirst : g.first? dest with
    | none => rfl
    | some e =>
      have hlength := Packet.bits_eq_ok (h.sized e (mem_waiting.1 (of_first? hfirst).1).1)
      simp only [Option.map_some, Option.filter_some, hlength, bind, Except.bind, pure, Except.pure]
      by_cases hroom : e.packet.length ≤ bits
      · rw [if_pos (by simpa using hroom), if_neg (Nat.not_lt.2 hroom)]
        exact ⟨_, rfl, h.leave hfirst, rfl⟩
      · rw [if_neg (by simpa using hroom), if_pos (Nat.lt_of_not_le hroom)]
  · rw [if_neg fun hboth => hframe hboth.1, if_neg hframe]

end Register

/-! ## Requests -/

namespace SegmentingRlc

variable {ε : Type} {bits frame : Nat} {dest : Address}

/-- The answer of an RLC into which nothing was injected. What was injected stays where it is. -/
def requestData (bits : Nat) (dest : Address) (frame : Nat) : Call (Inside SegmentingRlc ε) Packet :=
  fun s =>
    match requestBurst bits dest frame { s with layer := { s.layer with injected := .empty } } with
    | (answer, after) =>
      (answer, { after with layer := { after.layer with injected := s.layer.injected } })

/-- Where no control packet is served, the answer is the one without any. -/
theorem requestBurst_eq_requestData {s : Inside SegmentingRlc ε}
    (h : bits < Width.base ∨ s.layer.controlFor bits dest frame = .ok none) :
    requestBurst bits dest frame s = requestData bits dest frame s := by
  unfold requestData
  by_cases hbits : bits < Width.base
  · rw [requestBurst_of_lt hbits, requestBurst_of_lt hbits]
  · rw [requestBurst_eq, requestBurst_eq, if_neg hbits, if_neg hbits, h.resolve_left hbits,
      controlFor_of_nil rfl]
    have hcut : cutFor { s.layer with injected := .empty } bits dest = s.layer.cutFor bits dest := rfl
    simp only
    rw [fill_eq_map, fill_eq_map, hcut]
    cases addPieces dest (s.layer.cutFor bits dest).1 blank <;> rfl

/-- What is injected has a length that is a word. -/
def Move.IsSized : Move ε → Prop
  | .event (.inject packet _) => packet.IsSized
  | _ => True

/-- What a run injects, in order, with its priorities. -/
def injections (moves : List (Move ε)) : List (Nat × Packet) :=
  moves.filterMap fun
    | .event (.inject packet priority) => some (priority, packet)
    | _ => none

end SegmentingRlc

namespace Register

open SegmentingRlc

variable {ε : Type} {g : Register} {s : Inside SegmentingRlc ε}

/-- A request is answered as the register says. Either it takes a packet that waits under its
destination and goes before all others there, and gets it as it was injected; or no packet waits there,
or the one that goes first has no room, or it is not the time for one, and then the answer is data. -/
structure Rules (g : Register) (s : Inside SegmentingRlc ε) (bits : Nat) (dest : Address)
    (frame : Nat) : Prop where
  control : ∀ e, g.served? bits dest frame = some e →
    (e ∈ g.injected ∧ e ∉ g.left ∧ e.key = dest) ∧
    (∀ f ∈ g.injected, f ∉ g.left → f.key = dest → f = e ∨ e.GoesBefore f) ∧
    (requestBurst bits dest frame s).1 = .ok e.packet ∧
    (requestBurst bits dest frame s).2.layer.queues = s.layer.queues
  data : g.served? bits dest frame = none →
    (frame = 0 → 70 ≤ bits →
      g.waiting dest = [] ∨ ∃ e, g.first? dest = some e ∧ bits < e.packet.length) ∧
    requestBurst bits dest frame s = requestData bits dest frame s

theorem served?_of_lt {bits : Nat} (h : bits < 70) (dest : Address) (frame : Nat) :
    g.served? bits dest frame = none := by
  rw [served?, if_neg fun hboth => Nat.not_le.2 h hboth.2]

/-- What a request does to the RLC, and what to the register. -/
theorem Describes.requestBurst (h : g.Describes s.layer) (bits : Nat) (dest : Address) (frame : Nat) :
    match g.served? bits dest frame with
    | some e => (SegmentingRlc.requestBurst bits dest frame s).1 = .ok e.packet ∧
        (SegmentingRlc.requestBurst bits dest frame s).2.layer.queues = s.layer.queues ∧
        (g.request bits dest frame).Describes (SegmentingRlc.requestBurst bits dest frame s).2.layer
    | none => SegmentingRlc.requestBurst bits dest frame s = requestData bits dest frame s ∧
        (g.request bits dest frame).Describes
          (SegmentingRlc.requestBurst bits dest frame s).2.layer := by
  have hdata : g.served? bits dest frame = none →
      SegmentingRlc.requestBurst bits dest frame s = requestData bits dest frame s →
      (g.request bits dest frame).Describes
        (SegmentingRlc.requestBurst bits dest frame s).2.layer := by
    intro hserved heq
    rw [request, hserved, Option.toList_none, List.append_nil, heq]
    exact h.congr rfl
  by_cases hbits : bits < 70
  · have heq : SegmentingRlc.requestBurst bits dest frame s = requestData bits dest frame s :=
      requestBurst_eq_requestData (Or.inl hbits)
    have hserved := served?_of_lt (g := g) hbits dest frame
    rw [hserved]
    exact ⟨heq, hdata hserved heq⟩
  · have hcontrol := h.controlFor (Nat.le_of_not_lt hbits) dest frame
    cases hserved : g.served? bits dest frame with
    | none =>
      rw [hserved] at hcontrol
      have heq := requestBurst_eq_requestData (s := s) (Or.inr hcontrol)
      exact ⟨heq, hdata hserved heq⟩
    | some e =>
      rw [hserved] at hcontrol
      obtain ⟨after, hafter, hdescribes, hqueues⟩ := hcontrol
      have hbase : ¬ bits < Width.base := hbits
      rw [requestBurst_eq, if_neg hbase, hafter, request, hserved]
      exact ⟨rfl, hqueues, hdescribes⟩

theorem Describes.waiting_eq_nil {r : SegmentingRlc} {dest : Address} (h : g.Describes r)
    (hnone : g.first? dest = none) : g.waiting dest = [] := by
  obtain ⟨line, hline, -⟩ := h.lines dest
  rw [hline.first?_eq, Option.map_eq_none_iff, List.head?_eq_none_iff] at hnone
  subst hnone
  exact List.perm_nil.1 hline.members.symm

theorem Describes.rules (h : g.Describes s.layer) (bits : Nat) (dest : Address) (frame : Nat) :
    g.Rules s bits dest frame := by
  have hanswer := h.requestBurst bits dest frame
  constructor
  · intro e hserved
    rw [hserved] at hanswer
    obtain ⟨hrequest, hqueues, -⟩ := hanswer
    rw [served?] at hserved
    split at hserved
    · obtain ⟨hwaits, hbefore⟩ := of_first? (Option.filter_eq_some_iff.1 hserved).1
      obtain ⟨hinjected, hkey, hleft⟩ := mem_waiting.1 hwaits
      exact ⟨⟨hinjected, hleft, hkey⟩, fun f hf hwaiting hdest =>
        hbefore f (mem_waiting.2 ⟨hf, hdest, hwaiting⟩), hrequest, hqueues⟩
    · cases hserved
  · intro hserved
    rw [hserved] at hanswer
    refine ⟨fun hframe hbits => ?_, hanswer.1⟩
    rw [served?, if_pos ⟨hframe, hbits⟩] at hserved
    cases hfirst : g.first? dest with
    | none => exact Or.inl (h.waiting_eq_nil hfirst)
    | some e =>
      rw [hfirst, Option.filter_some, ite_eq_right_iff] at hserved
      refine Or.inr ⟨e, rfl, Nat.lt_of_not_le fun hroom => ?_⟩
      cases hserved (decide_eq_true hroom)

/-! ## Runs -/

def step (g : Register) : Move ε → Register
  | .event (.inject packet priority) => g.inject packet priority
  | .event (.request bits dest frame) => g.request bits dest frame
  | _ => g

def run (g : Register) (moves : List (Move ε)) : Register := moves.foldl step g

theorem injected_run (g : Register) (moves : List (Move ε)) :
    (g.run moves).injected.map (fun e => (e.priority, e.packet)) =
      g.injected.map (fun e => (e.priority, e.packet)) ++ injections moves := by
  induction moves generalizing g with
  | nil => exact (List.append_nil _).symm
  | cons move rest ih =>
    rw [run, List.foldl_cons, ← run, ih]
    rcases move with ⟨_ | _ | ⟨packet, priority⟩ | _⟩ | _
    case event.inject =>
      rw [step, inject, List.map_append, List.append_assoc]
      rfl
    all_goals rfl

variable [ArqBelow ε] [NetAbove ε]

theorem Describes.step (h : g.Describes s.layer) {move : Move ε} (hsized : move.IsSized) :
    (g.step move).Describes (SegmentingRlc.step s move).layer := by
  cases move with
  | elsewhere change => exact h
  | event e =>
    cases e with
    | accept datagram dest priority =>
      rw [SegmentingRlc.step, perform]
      rcases accept_cases datagram dest priority s with ⟨around, hacc⟩ | ⟨error, around, hacc⟩
      · rw [hacc]
        exact h.congr rfl
      · rw [hacc]
        exact h
    | request bits dest frame =>
      have hanswer := h.requestBurst bits dest frame
      split at hanswer
      · exact hanswer.2.2
      · exact hanswer.2
    | inject packet priority => exact h.inject hsized priority
    | receive packet =>
      obtain ⟨streams, hlayer⟩ := receive_layer packet s
      rw [SegmentingRlc.step, perform, hlayer]
      exact h.congr rfl

theorem Describes.run (h : g.Describes s.layer) {moves : List (Move ε)}
    (hsized : ∀ m ∈ moves, m.IsSized) : (g.run moves).Describes (SegmentingRlc.run s moves).layer := by
  induction moves generalizing g s with
  | nil => exact h
  | cons move rest ih =>
    exact ih (h.step (hsized move List.mem_cons_self)) fun m hm => hsized m (List.mem_cons_of_mem _ hm)

/-- **Control packets.** In every run in which the lengths of the injected packets are words, the
register has what was injected, nothing leaves it twice, and each request is answered as it says. -/
theorem follows_register (maxQueued : Nat) (around : ε) {moves : List (Move ε)}
    (hsized : ∀ m ∈ moves, m.IsSized) :
    (empty.run moves).injected.map (fun e => (e.priority, e.packet)) = injections moves ∧
      (empty.run moves).IsKept ∧ ∀ bits dest frame,
        (empty.run moves).Rules (SegmentingRlc.run ⟨.empty maxQueued, around⟩ moves) bits dest
          frame := by
  have hdescribes := (describes_empty maxQueued).run (s := ⟨.empty maxQueued, around⟩) hsized
  exact ⟨injected_run empty moves, hdescribes.toIsKept, fun bits dest frame =>
    hdescribes.rules bits dest frame⟩

/-- A control packet for a station, with a payload of so many bits. -/
def padded (dest : Address) (bits : Nat) : Packet :=
  .ofMessages [⟨some (.base default), none⟩,
    ⟨some (.unicast { (default : UnicastHeader) with dest }), some (.fixed bits)⟩]

/-- Of three control packets for station 2 the second one goes first. It has no room in the first
request, which gets a segment, and leaves with the second one. -/
def crowded : List (Move (Ends Unit)) :=
  [.event (.inject (padded ⟨2⟩ 0) 1), .event (.inject (padded ⟨2⟩ 1000) 5),
    .event (.accept ⟨#[1, 2]⟩ ⟨2⟩ 0), .event (.inject (padded ⟨2⟩ 8) 1),
    .event (.request 200 ⟨2⟩ 0), .event (.request 2000 ⟨2⟩ 0)]

theorem follows_register_crowded :
    (empty.run crowded).left.map Injection.number = [1] ∧ (empty.run crowded).IsKept ∧
      (empty.run crowded).Rules (SegmentingRlc.run ⟨.empty 256, Ends.empty ()⟩ crowded) 200 ⟨2⟩ 0 := by
  have hsized : ∀ m ∈ crowded, m.IsSized := by
    simp only [crowded, List.forall_mem_cons]
    simp [Move.IsSized, Packet.IsSized]
    decide
  obtain ⟨-, hkept, hrules⟩ := follows_register 256 (Ends.empty ()) hsized
  exact ⟨by decide +kernel, hkept, hrules 200 ⟨2⟩ 0⟩

/-- The first one is next, as it was there before the third. -/
example : (requestBurst 200 ⟨2⟩ 0 (SegmentingRlc.run ⟨.empty 256, Ends.empty ()⟩ crowded)).1 =
    .ok (padded ⟨2⟩ 0) := by decide +kernel

end Register

end DataLink
