import DataLink.Proofs.Rlc.Ledger

/-!
# Destinations that cannot be served

A datagram is accepted for any destination but `unset` and `dme`. When a packet is asked for, its
segments get a header, and the symbolic addresses without a name have none (`IsCarried`). There is room
kept for such a header, so the RLC only finds out when it adds the first segment, and fails.

**Theorem (`isServed_of_accept`).** Let a datagram be accepted, and let anything happen after that. If
its destination has a carrier, every request for it is answered, however many bits and whichever frame
of a burst it is for, unless the control packet that goes first is too long for a word. If it has none,
whatever is queued for it stays queued, and every request fails that has room for a segment and is not
answered with a control packet.

One move keeps what is queued for a destination without a carrier (`sublist_queue_step`), and a run does
so by induction on the moves.
-/

namespace DataLink

theorem PriorityQueue.sublist_place {α : Type} (priority : Nat) (a : α) (l : List (Nat × α)) :
    l.Sublist (place priority a l) := by
  induction l with
  | nil => exact List.nil_sublist _
  | cons e rest ih =>
    rw [place]
    split
    · exact ih.cons_cons e
    · exact List.sublist_cons_self _ _

theorem cut_eq_nil_iff {header room : Nat} {items : List (Nat × Outgoing)} :
    (cut header room items).1 = [] ↔ ∀ e ∈ items.head?, room < e.2.need header := by
  cases items with
  | nil => simp [cut]
  | cons first rest =>
    obtain ⟨priority, o⟩ := first
    rw [cut]
    split
    · next hroom => simp [hroom]
    · next hroom => split <;> simp [hroom]

theorem cut_of_eq_nil {header room : Nat} {items : List (Nat × Outgoing)}
    (h : (cut header room items).1 = []) : (cut header room items).2 = items := by
  rw [cut_eq_nil_iff] at h
  cases items with
  | nil => rfl
  | cons first rest => rw [cut, if_pos (h first rfl)]

namespace SegmentingRlc

variable {ε : Type} {r after : SegmentingRlc} {bits frame : Nat} {dest : Address}

/-! ## Carriers -/

theorem isCarried_iff (h : dest ≠ .unset ∧ dest ≠ .dme) :
    IsCarried dest ↔ (dest.isSymbolic = true → dest.name?.isSome = true) := by
  rw [IsCarried, Address.name?, if_neg h.1]
  by_cases hbroadcast : dest = .broadcast
  · simp [hbroadcast]
  · by_cases hbeacon : dest = .beacon
    · subst hbeacon
      exact ⟨fun _ _ => rfl, fun _ => Or.inr (Or.inl rfl)⟩
    · simp [hbroadcast, hbeacon, h.2]

theorem accept_ne [ArqBelow ε] {datagram : Datagram} {priority : Nat} {s t : Inside SegmentingRlc ε}
    (h : accept datagram dest priority s = (.ok (), t)) : dest ≠ .unset ∧ dest ≠ .dme := by
  rw [← not_or]
  intro hdest
  rw [accept_eq, if_pos hdest] at h
  cases h

/-! ## Requests -/

/-- The length of the control packet that goes next to `dest`, if there is one, is a word. -/
def ControlFits (r : SegmentingRlc) (dest : Address) : Prop :=
  ∀ packet ∈ (r.injectedFor dest).front?, Word.fits packet.length = true

theorem exists_controlFor (r : SegmentingRlc) (bits : Nat) (dest : Address) (frame : Nat) :
    (∃ control, r.controlFor bits dest frame = .ok control) ↔
      (frame = 0 → r.ControlFits dest) := by
  rw [controlFor, popInjected, ControlFits]
  by_cases hframe : frame = 0
  · rw [if_pos hframe]
    cases (r.injectedFor dest).front? with
    | none => simp
    | some packet =>
      by_cases hfits : Word.fits packet.length = true
      · have hlength : packet.bits = .ok packet.length := if_pos hfits
        by_cases hbits : bits < packet.length <;>
          simp [hlength, hbits, hfits, bind, Except.bind, pure, Except.pure]
      · have hlength : packet.bits = .error .overflow := if_neg hfits
        simp [hlength, hfits, hframe, bind, Except.bind]
  · simp [hframe]

/-- **Stations and channels.** Where segments have a carrier a request fails only over a control packet
that is too long. -/
theorem exists_requestBurst_iff (hdest : IsCarried dest) (s : Inside SegmentingRlc ε) :
    (∃ packet, (requestBurst bits dest frame s).1 = .ok packet) ↔
      bits < Width.base ∨ (frame = 0 → s.layer.ControlFits dest) := by
  rw [requestBurst_eq, ← exists_controlFor s.layer bits dest frame]
  by_cases hbits : bits < Width.base
  · simp [hbits]
  · simp only [hbits, if_false, false_or]
    cases s.layer.controlFor bits dest frame with
    | error e => simp
    | ok control =>
      cases control with
      | some served => simp
      | none => simp [fill_eq hdest]

theorem cutFor_ne_nil_iff {priority : Nat} {o : Outgoing} {rest : List (Nat × Outgoing)}
    (hqueue : (r.queue dest).items = (priority, o) :: rest) (hbits : Width.base ≤ bits) :
    (r.cutFor bits dest).1 ≠ [] ↔ Width.base + o.need (headerWidth dest) ≤ bits := by
  rw [cutFor, Ne, cut_eq_nil_iff, hqueue]
  simp
  omega

theorem controlFor_eq_error {e : Fault} (h : r.controlFor bits dest frame = .error e) :
    e = .overflow := by
  rw [controlFor, popInjected] at h
  split at h
  · split at h
    · cases h
    · next packet _ =>
      by_cases hfits : Word.fits packet.length = true
      · rw [show packet.bits = .ok packet.length from if_pos hfits] at h
        simp only [bind, Except.bind] at h
        split at h <;> cases h
      · rw [show packet.bits = .error .overflow from if_neg hfits] at h
        cases h
        rfl
  · cases h

/-- **Other destinations.** Where segments have no carrier, a request fails as soon as there is room for
the next one, unless a control packet goes first. -/
theorem requestBurst_eq_error_iff (hdest : ¬ IsCarried dest) {s : Inside SegmentingRlc ε}
    {priority : Nat} {o : Outgoing} {rest : List (Nat × Outgoing)}
    (hqueue : (s.layer.queue dest).items = (priority, o) :: rest) :
    (requestBurst bits dest frame s).1 = .error (.layer (.header (.invalidDestination dest))) ↔
      s.layer.controlFor bits dest frame = .ok none ∧
        Width.base + o.need (headerWidth dest) ≤ bits := by
  rw [requestBurst_eq]
  by_cases hbits : bits < Width.base
  · rw [if_pos hbits]
    simp
    omega
  · rw [if_neg hbits, ← cutFor_ne_nil_iff hqueue (Nat.le_of_not_lt hbits)]
    cases hcontrol : s.layer.controlFor bits dest frame with
    | error e => simp [controlFor_eq_error hcontrol]
    | ok control =>
      cases control with
      | some served => simp
      | none =>
        by_cases hpieces : (s.layer.cutFor bits dest).1 = []
        · rw [fill_eq_map, hpieces]
          simp [addPieces, Except.map]
        · simp [fill_eq_error hdest hpieces, hpieces]

theorem requestBurst_of_error {e : Fault} {s : Inside SegmentingRlc ε}
    (h : (requestBurst bits dest frame s).1 = .error e) : (requestBurst bits dest frame s).2 = s := by
  rw [requestBurst_eq] at h ⊢
  by_cases hbits : bits < Width.base
  · rw [if_pos hbits]
  · rw [if_neg hbits] at h ⊢
    cases hcontrol : s.layer.controlFor bits dest frame with
    | error e => rfl
    | ok control =>
      rw [hcontrol] at h
      cases control with
      | some served => cases h
      | none =>
        cases hfill : s.layer.fill bits dest with
        | error e => rfl
        | ok filled =>
          rw [hfill] at h
          cases h

/-! ## Runs -/

/-- What happens to an RLC or around it. -/
inductive Move (ε : Type) where
  | event (e : RlcEvent)
  | elsewhere (change : ε → ε)

theorem queue_requestBurst (hdest : ¬ IsCarried dest) (bits : Nat) (id : Address) (frame : Nat)
    (s : Inside SegmentingRlc ε) :
    (requestBurst bits id frame s).2.layer.queue dest = s.layer.queue dest := by
  cases hcontrol : s.layer.servesControl bits id frame with
  | true =>
    obtain ⟨injected, hafter⟩ := requestBurst_of_servesControl hcontrol
    rw [hafter]
    rfl
  | false =>
    rcases requestBurst_of_not_servesControl hcontrol with
      hnone | ⟨e, herror⟩ | ⟨packet, after, hfill, hfilled⟩
    · rw [hnone]
    · rw [herror]
    · obtain rfl := fill_eq_ok hfill
      rw [hfilled]
      simp only
      rw [queue_setQueue]
      split
      · next hid =>
        subst hid
        -- Nothing was cut, as filling would have failed.
        have hpieces : (s.layer.cutFor bits id).1 = [] := by
          by_contra hpieces
          cases hfill.symm.trans (fill_eq_error hdest hpieces)
        rw [cutFor, cut_of_eq_nil hpieces]
      · rfl

variable [ArqBelow ε] [NetAbove ε]

/-- What an event leaves, be the call refused or not. -/
def perform (s : Inside SegmentingRlc ε) : RlcEvent → Inside SegmentingRlc ε
  | .accept datagram dest priority => (accept datagram dest priority s).2
  | .request bits dest frame => (requestBurst bits dest frame s).2
  | .inject packet priority => { s with layer := s.layer.inject packet priority }
  | .receive packet => (receive packet s).2

def step (s : Inside SegmentingRlc ε) : Move ε → Inside SegmentingRlc ε
  | .event e => perform s e
  | .elsewhere change => { s with around := change s.around }

def run (s : Inside SegmentingRlc ε) (moves : List (Move ε)) : Inside SegmentingRlc ε :=
  moves.foldl step s

theorem sublist_queue_step (hdest : ¬ IsCarried dest) (s : Inside SegmentingRlc ε) (move : Move ε) :
    (s.layer.queue dest).items.Sublist ((step s move).layer.queue dest).items := by
  cases move with
  | elsewhere change => exact .refl _
  | event e =>
    cases e with
    | accept datagram id priority =>
      rw [step, perform]
      rcases accept_cases datagram id priority s with ⟨around, hacc⟩ | ⟨error, around, hacc⟩
      · rw [hacc]
        simp only
        rw [queue_enqueue]
        split
        · next hid =>
          subst hid
          exact PriorityQueue.sublist_place _ _ _
        · exact .refl _
      · rw [hacc]
    | request bits id frame =>
      rw [step, perform, queue_requestBurst hdest]
    | inject packet priority => exact .refl _
    | receive packet =>
      obtain ⟨streams, hlayer⟩ := receive_layer packet s
      rw [step, perform, hlayer]
      exact .refl _

theorem sublist_queue_run (hdest : ¬ IsCarried dest) (s : Inside SegmentingRlc ε)
    (moves : List (Move ε)) :
    (s.layer.queue dest).items.Sublist ((run s moves).layer.queue dest).items := by
  induction moves generalizing s with
  | nil => exact .refl _
  | cons move rest ih => exact (sublist_queue_step hdest s move).trans (ih (step s move))

/-- **Who is served.** A datagram is accepted, and then anything may happen. If its destination is a
station or has a name, every request for it is answered, except where a control packet goes first that
is too long for a word. If not, the datagram and whatever else is queued for that destination never
leave: a request with room for the segment that comes next fails, unless it is answered with a control
packet, and a request that fails changes nothing. -/
theorem isServed_of_accept {datagram : Datagram} {priority : Nat} {s t : Inside SegmentingRlc ε}
    (h : accept datagram dest priority s = (.ok (), t)) (moves : List (Move ε)) :
    (IsCarried dest ↔ (dest.isSymbolic = true → dest.name?.isSome = true)) ∧
    (IsCarried dest → ∀ bits frame,
      (∃ packet, (requestBurst bits dest frame (run t moves)).1 = .ok packet) ↔
        bits < Width.base ∨ (frame = 0 → (run t moves).layer.ControlFits dest)) ∧
    (¬ IsCarried dest →
      ((s.layer.queue dest).push priority (.fresh datagram)).items.Sublist
        ((run t moves).layer.queue dest).items ∧
      ∃ o, ((run t moves).layer.queue dest).front? = some o ∧ ∀ bits frame,
        ((requestBurst bits dest frame (run t moves)).1 =
            .error (.layer (.header (.invalidDestination dest))) ↔
          (run t moves).layer.controlFor bits dest frame = .ok none ∧
            Width.base + o.need (headerWidth dest) ≤ bits) ∧
        ∀ e, (requestBurst bits dest frame (run t moves)).1 = .error e →
          (requestBurst bits dest frame (run t moves)).2 = run t moves) := by
  refine ⟨isCarried_iff (accept_ne h), fun hdest bits frame => exists_requestBurst_iff hdest _,
    fun hdest => ?_⟩
  have hqueue : t.layer.queue dest = (s.layer.queue dest).push priority (.fresh datagram) := by
    rcases accept_cases datagram dest priority s with ⟨around, hacc⟩ | ⟨error, around, hacc⟩
    · cases h.symm.trans hacc
      exact (queue_enqueue _ _ _ _ _).trans (if_pos rfl)
    · cases h.symm.trans hacc
  have hkept := sublist_queue_run hdest t moves
  rw [hqueue] at hkept
  have hsome : ((run t moves).layer.queue dest).items ≠ [] := by
    intro hnil
    rw [hnil, List.sublist_nil] at hkept
    exact PriorityQueue.items_push_ne_nil _ _ _ hkept
  obtain ⟨⟨p, o⟩, rest, hitems⟩ := List.exists_cons_of_ne_nil hsome
  refine ⟨hkept, o, ?_, fun bits frame =>
    ⟨requestBurst_eq_error_iff hdest hitems, fun e => requestBurst_of_error⟩⟩
  rw [PriorityQueue.front?, hitems]
  rfl

/-- A datagram for an address without a name, with another one accepted behind it, blocks every request
that has room for more than a base header and the header of a segment. -/
theorem isServed_unnamed :
    (accept ⟨#[7]⟩ ⟨-5⟩ 0 ⟨.empty 256, Ends.empty ()⟩).1 = .ok () ∧ ∀ bits, 75 < bits →
      (requestBurst bits ⟨-5⟩ 1 (run (accept ⟨#[7]⟩ ⟨-5⟩ 0 ⟨.empty 256, Ends.empty ()⟩).2
        [.event (.request 200 ⟨-5⟩ 0), .event (.accept ⟨#[8]⟩ ⟨-5⟩ 0)])).1 =
        .error (.layer (.header (.invalidDestination ⟨-5⟩))) := by
  obtain ⟨-, -, hblocked⟩ := isServed_of_accept
    (show accept ⟨#[7]⟩ ⟨-5⟩ 0 ⟨.empty 256, Ends.empty ()⟩ = (.ok (), _) from rfl)
    [.event (.request 200 ⟨-5⟩ 0), .event (.accept ⟨#[8]⟩ ⟨-5⟩ 0)]
  obtain ⟨-, o, hfront, hfails⟩ := hblocked (by decide)
  refine ⟨rfl, fun bits hbits => (hfails bits 1).1.2 ⟨rfl, ?_⟩⟩
  obtain rfl : Outgoing.fresh ⟨#[7]⟩ = o := Option.some.inj (Eq.trans (by decide +kernel) hfront)
  exact hbits

/-- Datagrams are accepted for destinations that cannot be served. -/
theorem not_isServed_unnamed : ¬ ∀ (datagram : Datagram) (dest : Address) (priority : Nat)
    (s t : Inside SegmentingRlc (Ends Unit)), accept datagram dest priority s = (.ok (), t) →
    ∀ (moves : List (Move (Ends Unit))) (bits frame : Nat),
      ∃ packet, (requestBurst bits dest frame (run t moves)).1 = .ok packet := by
  intro h
  obtain ⟨packet, hpacket⟩ := h ⟨#[7]⟩ ⟨-5⟩ 0 ⟨.empty 256, Ends.empty ()⟩ _ rfl [] 200 0
  cases hpacket

end SegmentingRlc

end DataLink
