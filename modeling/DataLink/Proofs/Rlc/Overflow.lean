import DataLink.Proofs.Rlc.Recognition

/-!
# When reassembly overflows

A receiver adds up the bits of the segments that fit together, in a word. Offsets and lengths are what a
peer says, and nothing compares them with the datagram before its end. So a peer can send segments that
fit together and have more bits than the word holds, and then the sum overflows.

It overflows in no other way. A segment is added where it fits behind the end of what its stream has
brought so far, and then the sum is the number of bits of the run that it ends
(`Partial.Reflects.fits_of_extend`). From one segment this goes by induction to the segments of a packet,
and from a packet to a run.

**Theorem (`SegmentingRlc.anyOverflow_iff`).** Over any surroundings, nothing overflows in a run if and
only if no stream has segments that fit together and have more bits than a word holds (`RunsFit`). This
is so where every segment says that it ends within a word.
-/

namespace DataLink

variable {history before run : List (Fragment × Segment)} {piece : Fragment × Segment}

/-! ## One segment -/

theorem Partial.extend_of_highest_lt {held : Option Partial} {p : Partial}
    (hbase : base? held piece = some p) (hoffset : p.received = piece.2.offset)
    (hbits : Word.highest < p.received + piece.2.length) :
    extend held piece.1 piece.2 = .error .overflow := by
  have hsum : checkedSum p.received piece.2.length = .error .overflow := by
    rw [checkedSum, if_neg (by rwa [Word.fits_iff, Nat.not_le])]
  rw [base?] at hbase
  unfold extend
  rw [hbase]
  simp only
  rw [if_neg (not_not.2 hoffset), hsum]
  rfl

theorem Partial.extend_eq_error {held : Option Partial} {e : Fault}
    (h : extend held piece.1 piece.2 = .error e) : e = .overflow := by
  unfold extend at h
  split at h
  · cases h
  · next p hp =>
    by_cases hoffset : p.received = piece.2.offset
    · simp only [hoffset, ne_eq, not_true, if_false] at h
      by_cases hbits : piece.2.offset + piece.2.length ≤ Word.highest
      · rw [checkedSum_eq_ok hbits] at h
        simp only [bind, Except.bind] at h
        split at h <;> cases h
      · rw [checkedSum, if_neg (by rwa [Word.fits_iff])] at h
        cases h
        rfl
    · rw [if_pos hoffset] at h
      cases h

theorem Partial.Reflects.fits_of_extend {held : Option Partial} (h : Reflects history held)
    {result : Option Datagram × Option Partial}
    (hextend : Partial.extend held piece.1 piece.2 = .ok result) (hrun : run <:+ history ++ [piece])
    (hfit : FitTogether run) : bitsOf run ≤ Word.highest := by
  rcases List.suffix_concat_iff.1 hrun with rfl | ⟨before, rfl, hbefore⟩
  · exact Nat.zero_le _
  · obtain ⟨d, hd⟩ : ∃ d, firstDatagram? (before ++ [piece]) = some d := by
      rw [firstDatagram?]
      cases before <;> exact ⟨_, rfl⟩
    obtain ⟨hbase, hoffset⟩ := h.base?_iff.2
      ⟨before, hbefore, fitTogether_concat_iff.1 hfit, hd, (rfl : _ = (Partial.mk d _).received)⟩
    by_contra hlong
    rw [bitsOf_concat, Nat.not_le] at hlong
    rw [extend_of_highest_lt hbase hoffset hlong] at hextend
    cases hextend

/-! ## The segments of a packet -/

variable {past arrivals : List (Stream × Fragment × Segment)}

theorem RunsFit.concat (hpast : RunsFit past) {a : Stream × Fragment × Segment}
    (hlast : ∀ run, run <:+ ofStream a.1 past ++ [a.2] → FitTogether run →
      bitsOf run ≤ Word.highest) : RunsFit (past ++ [a]) := by
  intro stream run hrun hfit
  rw [ofStream_concat] at hrun
  by_cases hstream : a.1 = stream
  · subst hstream
    rw [if_pos rfl, List.infix_concat_iff] at hrun
    rcases hrun with hsuffix | hinfix
    · exact hlast run hsuffix hfit
    · exact hpast _ run hinfix hfit
  · rw [if_neg hstream, List.append_nil] at hrun
    exact hpast _ run hrun hfit

theorem runsFit_of_ends (h : ∀ a ∈ arrivals, a.2.2.offset + a.2.2.length ≤ Word.highest) :
    RunsFit arrivals := by
  intro stream run hrun hfit
  cases hfit with
  | none => exact Nat.zero_le _
  | @more before piece hbefore hpiece =>
    have hmem : piece ∈ ofStream stream arrivals := hrun.subset (by simp)
    obtain ⟨a, ha, rfl⟩ := List.mem_map.1 hmem
    rw [bitsOf_concat, ← hpiece.offset]
    exact h a (List.mem_of_mem_filter ha)

theorem Reassembly.Reflects.runsFit_of_absorb {streams : Reassembly} (h : Reflects past streams)
    (hpast : RunsFit past) (origin : Address) {segments : List (Address × Fragment × Segment)}
    {result : List Datagram × Reassembly}
    (habsorb : Reassembly.absorb origin segments streams = .ok result) :
    RunsFit (past ++ segments.map (arrival origin)) := by
  induction segments generalizing past streams result with
  | nil => simpa using hpast
  | cons s rest ih =>
    obtain ⟨channel, fragment, segment⟩ := s
    rw [Reassembly.absorb] at habsorb
    obtain ⟨⟨complete, next⟩, hextend, habsorb⟩ := bind_eq_ok.1 habsorb
    obtain ⟨⟨others, after⟩, hrest, -⟩ := bind_eq_ok.1 habsorb
    have hhistory : Partial.Reflects (ofStream ⟨origin, channel⟩ past)
        (streams.get? ⟨origin, channel⟩) := h ⟨origin, channel⟩
    have hruns : ∀ run, run <:+ ofStream ⟨origin, channel⟩ past ++ [(fragment, segment)] →
        FitTogether run → bitsOf run ≤ Word.highest :=
      fun run hrun hfit => hhistory.fits_of_extend hextend hrun hfit
    obtain ⟨after', hextend', hnext⟩ := hhistory.extend (fragment, segment) hruns
    rw [hextend] at hextend'
    cases hextend'
    have hset : Reflects (past ++ [arrival origin (channel, fragment, segment)])
        (streams.set ⟨origin, channel⟩ next) := h.set _ hnext
    have hmore := ih hset (hpast.concat hruns) hrest
    simpa using hmore

theorem Reassembly.absorb_eq_error {streams : Reassembly} {origin : Address}
    {segments : List (Address × Fragment × Segment)} {e : Fault}
    (h : Reassembly.absorb origin segments streams = .error e) : e = .overflow := by
  induction segments generalizing streams with
  | nil => cases h
  | cons s rest ih =>
    rw [Reassembly.absorb] at h
    cases hextend : Partial.extend (Table.get? streams ⟨origin, s.1⟩) s.2.1 s.2.2 with
    | error e' =>
      rw [hextend] at h
      cases h
      exact Partial.extend_eq_error hextend
    | ok found =>
      rw [hextend] at h
      simp only [bind, Except.bind] at h
      cases hrest : Reassembly.absorb origin rest (Table.set streams ⟨origin, s.1⟩ found.2) with
      | error e' =>
        rw [hrest] at h
        cases h
        exact ih hrest
      | ok others =>
        rw [hrest] at h
        cases h

/-! ## A run -/

namespace SegmentingRlc

variable {ε : Type}

/-- A segment of the packet makes a count of received bits overflow. -/
def overflows (packet : Packet) (s : Inside SegmentingRlc ε) : Bool :=
  !(Reassembly.absorb packet.origin (segmentsOf packet) s.layer.streams).isOk

variable [NetAbove ε] [ArqBelow ε] {s : Inside SegmentingRlc ε}

omit [ArqBelow ε] in
theorem receive_of_overflows {packet : Packet} (h : overflows packet s = true) :
    (receive packet s).1 = .error .overflow := by
  rw [overflows, segmentsOf] at h
  simp only [receive, Call.bind_apply, Call.own_apply, Call.ofExcept_apply]
  cases habsorb : Reassembly.absorb packet.origin
      (packet.messages.filterMap Message.segment?) s.layer.streams with
  | ok found =>
    rw [habsorb] at h
    cases h
  | error e => rw [Reassembly.absorb_eq_error habsorb]

/-- The event receives a packet that makes a count overflow. -/
def bringsOverflow (s : Inside SegmentingRlc ε) : RlcEvent → Bool
  | .receive packet => overflows packet s
  | _ => false

/-- A count of received bits overflows in a run. -/
def anyOverflow (s : Inside SegmentingRlc ε) : List RlcEvent → Bool
  | [] => false
  | e :: rest => bringsOverflow s e || anyOverflow (perform s e) rest

omit [NetAbove ε] [ArqBelow ε] in
/-- **One packet.** It overflows if and only if it has a run become too long. -/
theorem overflows_iff (h : s.layer.streams.Reflects arrivals) (hruns : RunsFit arrivals)
    (packet : Packet) :
    overflows packet s = false ↔ RunsFit (arrivals ++ arrivalsOf packet) := by
  rw [overflows, arrivalsOf]
  constructor
  · intro hok
    cases habsorb : Reassembly.absorb packet.origin (segmentsOf packet) s.layer.streams with
    | ok found => exact h.runsFit_of_absorb hruns packet.origin habsorb
    | error e =>
      rw [habsorb] at hok
      cases hok
  · intro hfit
    obtain ⟨complete, after, habsorb, -⟩ := h.absorb packet.origin (segmentsOf packet) hfit
    rw [habsorb]
    rfl

omit [NetAbove ε] in
theorem streams_accept (datagram : Datagram) (dest : Address) (priority : Nat)
    (s : Inside SegmentingRlc ε) :
    (accept datagram dest priority s).2.layer.streams = s.layer.streams := by
  rcases accept_cases datagram dest priority s with ⟨around, hafter⟩ | ⟨e, around, hafter⟩
  · rw [hafter]
    rfl
  · rw [hafter]

/-- **One event.** What the streams hold stays in keeping with what has arrived, as long as all runs
fit. -/
theorem reflects_perform (h : s.layer.streams.Reflects arrivals) (e : RlcEvent)
    (hfit : RunsFit (arrivals ++ arrivalsIn [e])) :
    (perform s e).layer.streams.Reflects (arrivals ++ arrivalsIn [e]) := by
  cases e with
  | receive packet =>
    rw [arrivalsIn, List.flatMap_singleton] at hfit ⊢
    obtain ⟨complete, streams, habsorb, hstreams, -⟩ :=
      h.absorb packet.origin (segmentsOf packet) hfit
    rw [segmentsOf] at habsorb
    simp only [perform, receive, Call.bind_apply, Call.own_apply, habsorb, Call.ofExcept_apply,
      Call.change_apply, handUp_layer]
    exact hstreams
  | accept datagram dest priority =>
    rw [arrivalsIn, List.flatMap_singleton, List.append_nil, perform, streams_accept]
    exact h
  | request bits dest frame =>
    rw [arrivalsIn, List.flatMap_singleton, List.append_nil, perform, streams_requestBurst]
    exact h
  | inject packet priority =>
    rw [arrivalsIn, List.flatMap_singleton, List.append_nil]
    exact h

theorem anyOverflow_iff_of_reflects (h : s.layer.streams.Reflects arrivals)
    (hruns : RunsFit arrivals) (events : List RlcEvent) :
    anyOverflow s events = false ↔ RunsFit (arrivals ++ arrivalsIn events) := by
  induction events generalizing s arrivals with
  | nil => simpa [anyOverflow, arrivalsIn] using hruns
  | cons e rest ih =>
    have hsplit : arrivals ++ arrivalsIn (e :: rest) =
        (arrivals ++ arrivalsIn [e]) ++ arrivalsIn rest := by
      simp [arrivalsIn]
    have hfirst : bringsOverflow s e = false ↔ RunsFit (arrivals ++ arrivalsIn [e]) := by
      cases e with
      | receive packet =>
        rw [arrivalsIn, List.flatMap_singleton]
        exact overflows_iff h hruns packet
      | _ => simpa [arrivalsIn, bringsOverflow] using hruns
    rw [anyOverflow, Bool.or_eq_false_iff, hsplit, hfirst]
    constructor
    · rintro ⟨hfit, hrest⟩
      exact (ih (reflects_perform h e hfit) hfit).1 hrest
    · intro hfit
      exact ⟨hfit.left, (ih (reflects_perform h e hfit.left) hfit.left).2 hfit⟩

/-- **When reassembly overflows.** Packets are received in any order, over any surroundings and between
whatever else an RLC does. No count of received bits overflows if and only if no stream has segments that
fit together and have more bits than a word holds. So none does where each segment ends within a word. A
packet that makes one overflow is not received. -/
theorem anyOverflow_iff (maxQueued : Nat) (around : ε) (events : List RlcEvent) :
    (anyOverflow ⟨.empty maxQueued, around⟩ events = false ↔ RunsFit (arrivalsIn events)) ∧
      ((∀ a ∈ arrivalsIn events, a.2.2.offset + a.2.2.length ≤ Word.highest) →
        anyOverflow ⟨.empty maxQueued, around⟩ events = false) ∧
      ∀ (s : Inside SegmentingRlc ε) packet, overflows packet s = true →
        (receive packet s).1 = .error .overflow := by
  have hnone : RunsFit [] := runsFit_of_ends (by simp)
  have hiff : anyOverflow ⟨.empty maxQueued, around⟩ events = false ↔
      RunsFit (arrivalsIn events) :=
    anyOverflow_iff_of_reflects (s := ⟨.empty maxQueued, around⟩) Reassembly.reflects_empty hnone
      events
  exact ⟨hiff, fun hends => hiff.2 (runsFit_of_ends hends), fun _ _ => receive_of_overflows⟩

/-- A segment of station 2 with half of the bits that a word can count. -/
def half (start : Bool) (offset : Nat) : Packet :=
  mixed ⟨2⟩ [(⟨1⟩, ⟨start, false⟩, ⟨⟨#[170]⟩, offset, 2147483648⟩)]

/-- Offsets and lengths fit their words, and the two segments fit together. The second one is not taken
in. -/
theorem not_anyOverflow_halves :
    (¬ ∀ (maxQueued : Nat) (events : List RlcEvent), (∀ a ∈ arrivalsIn events,
        Word.fits a.2.2.offset = true ∧ Word.fits a.2.2.length = true) →
      anyOverflow (⟨.empty maxQueued, Ends.empty ()⟩ : Inside SegmentingRlc (Ends Unit)) events =
        false) ∧
      (receive (half true 0) (⟨.empty 256, Ends.empty ()⟩ : Inside SegmentingRlc (Ends Unit))).1 =
        .ok () ∧
      (receive (half false 2147483648) (performAll
        (⟨.empty 256, Ends.empty ()⟩ : Inside SegmentingRlc (Ends Unit))
          [.receive (half true 0)])).1 = .error .overflow := by
  refine ⟨fun h => ?_, by decide +kernel, by decide +kernel⟩
  have hnone := h 256 [.receive (half true 0), .receive (half false 2147483648)] (by decide +kernel)
  revert hnone
  decide +kernel

end SegmentingRlc

end DataLink
