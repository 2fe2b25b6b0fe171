import DataLink.Proofs.Rlc.Filling
import DataLink.Proofs.Rlc.Losses
import DataLink.Proofs.Rlc.Peers
import DataLink.Proofs.Rlc.Serving
import Mathlib.Data.List.Infix

/-!
# Which datagrams are recognized

A receiver puts the segments of each stream together as they come. A start takes the place of what was
held, a segment that does not go on where the last one ended discards it, and an end closes it, so that
the datagram is handed up or not. What comes of this is said here without the table of partial
datagrams, by the segments alone: a datagram is *recognized* at a segment that ends a run of it
(`IsRunOf`).

**Theorem (`entries_eq_handedUp`).** Under a network layer that takes every datagram, and in whatever
order the packets of whichever senders are received, what is handed up at each segment is the datagram
that is recognized there. This is up to the segments of that stream.

What a stream holds is determined by the end of its history (`Partial.Reflects`), as segments fit
together in one way only. One segment keeps this, and completes what is recognized
(`Partial.Reflects.extend`). From there it goes by induction, first on the segments of a packet, which
may be of several streams, and then on the events of a run.
-/

namespace DataLink

/-! ## Runs of segments -/

/-- The datagram that the first of the segments is of. -/
def firstDatagram? (pieces : List (Fragment × Segment)) : Option Datagram :=
  pieces.head?.map fun p => p.2.datagram

/-- The segments carry a datagram from its start to its end: the first one and no other has the start
flag, and belongs to the datagram, the last one and no other has the end flag, each goes on where those
before it end, and together they have the bits of the datagram. -/
structure IsRunOf (d : Datagram) (run : List (Fragment × Segment)) : Prop where
  datagram : firstDatagram? run = some d
  start : ∀ i (h : i < run.length), run[i].1.start = true ↔ i = 0
  finish : ∀ i (h : i < run.length), run[i].1.finish = true ↔ i + 1 = run.length
  offset : ∀ i (h : i < run.length), run[i].2.offset = bitsOf (run.take i)
  bits : bitsOf run = d.bits

instance (d : Datagram) (run : List (Fragment × Segment)) : Decidable (IsRunOf d run) :=
  decidable_of_iff (firstDatagram? run = some d ∧
    (∀ i (h : i < run.length), run[i].1.start = true ↔ i = 0) ∧
    (∀ i (h : i < run.length), run[i].1.finish = true ↔ i + 1 = run.length) ∧
    (∀ i (h : i < run.length), run[i].2.offset = bitsOf (run.take i)) ∧ bitsOf run = d.bits)
    ⟨fun ⟨hd, hs, hf, ho, hb⟩ => ⟨hd, hs, hf, ho, hb⟩,
      fun ⟨hd, hs, hf, ho, hb⟩ => ⟨hd, hs, hf, ho, hb⟩⟩

/-- The datagram that is complete with the last segment of a stream, if one is. -/
def recognized (history : List (Fragment × Segment)) : Option Datagram :=
  history.tails.findSome? fun run => (firstDatagram? run).filter fun d => IsRunOf d run

variable {history before run other : List (Fragment × Segment)} {piece : Fragment × Segment}
  {d : Datagram}

/-- Segments that fit together are what a run is before its end. -/
theorem fitTogether_iff : FitTogether run ↔ ∀ i (h : i < run.length),
    run[i].2.offset = bitsOf (run.take i) ∧ (run[i].1.start = true ↔ i = 0) ∧
      (run[i].1.finish = true → i + 1 = run.length) := by
  induction run using List.reverseRecOn with
  | nil => exact ⟨fun _ i h => absurd h (Nat.not_lt_zero i), fun _ => .none⟩
  | append_singleton before piece ih =>
    rw [fitTogether_concat_iff, ih]
    constructor
    · rintro ⟨hbefore, hpiece⟩ i h
      rw [List.length_append, List.length_singleton] at h
      by_cases hlast : i = before.length
      · subst hlast
        simp only [List.getElem_concat_length, List.take_left]
        refine ⟨hpiece.offset, ?_, fun _ => by simp⟩
        rw [hpiece.start, List.length_eq_zero_iff]
      · have hi : i < before.length := by omega
        obtain ⟨hoffset, hstart, -⟩ := hbefore i hi
        rw [List.getElem_append_left hi, List.take_append_of_le_length (Nat.le_of_lt hi)]
        refine ⟨hoffset, hstart, fun hfinish => ?_⟩
        rw [hpiece.unfinished _ (List.getElem_mem hi)] at hfinish
        cases hfinish
    · intro h
      have hlast := h before.length (by simp)
      simp only [List.getElem_concat_length, List.take_left] at hlast
      refine ⟨fun i hi => ?_, hlast.1, ?_, fun q hq => ?_⟩
      · obtain ⟨hoffset, hstart, hfinish⟩ := h i (by rw [List.length_append]; omega)
        rw [List.getElem_append_left hi, List.take_append_of_le_length (Nat.le_of_lt hi)] at hoffset
        rw [List.getElem_append_left hi] at hstart hfinish
        refine ⟨hoffset, hstart, fun hend => ?_⟩
        have := hfinish hend
        rw [List.length_append, List.length_singleton] at this
        omega
      · rw [hlast.2.1, List.length_eq_zero_iff]
      · obtain ⟨i, hi, rfl⟩ := List.getElem_of_mem hq
        obtain ⟨-, -, hfinish⟩ := h i (by rw [List.length_append]; omega)
        rw [List.getElem_append_left hi, List.length_append, List.length_singleton] at hfinish
        rw [Bool.eq_false_iff]
        intro hend
        have := hfinish hend
        omega

theorem isRunOf_concat_iff : IsRunOf d (before ++ [piece]) ↔
    (FitTogether before ∧ FitsBehind before piece) ∧ firstDatagram? (before ++ [piece]) = some d ∧
      piece.1.finish = true ∧ bitsOf before + piece.2.length = d.bits := by
  rw [← fitTogether_concat_iff, fitTogether_iff, ← bitsOf_concat]
  have hlast : ∀ h : before.length < (before ++ [piece]).length,
      (before ++ [piece])[before.length] = piece := fun _ => List.getElem_concat_length rfl _
  constructor
  · intro h
    refine ⟨fun i hi => ⟨h.offset i hi, h.start i hi, (h.finish i hi).1⟩, h.datagram, ?_, h.bits⟩
    rw [← hlast (by simp), h.finish, List.length_append, List.length_singleton]
  · rintro ⟨hfit, hdatagram, hend, hbits⟩
    refine ⟨hdatagram, fun i hi => (hfit i hi).2.1, fun i hi => ⟨(hfit i hi).2.2, fun heq => ?_⟩,
      fun i hi => (hfit i hi).1, hbits⟩
    rw [List.length_append, List.length_singleton, Nat.add_right_cancel_iff] at heq
    subst heq
    rw [hlast, hend]

/-- What fits together begins with its only start, so the end of a stream fits together in one way. -/
theorem FitTogether.eq_of_suffix (hrun : FitTogether run) (hother : FitTogether other)
    (hne : run ≠ []) (h : run <:+ other) : run = other := by
  obtain ⟨more, rfl⟩ := h
  by_cases hmore : more = []
  · rw [hmore, List.nil_append]
  · obtain ⟨q, hq, hstart⟩ := hrun.exists_start hne
    rw [hother.start_false hmore q hq] at hstart
    cases hstart

theorem IsRunOf.ne_nil (h : IsRunOf d run) : run ≠ [] := by
  rintro rfl
  cases h.datagram

theorem IsRunOf.fitTogether (h : IsRunOf d run) : FitTogether run :=
  fitTogether_iff.2 fun i hi => ⟨h.offset i hi, h.start i hi, (h.finish i hi).1⟩

theorem IsRunOf.eq {d' : Datagram} (h : IsRunOf d run) (h' : IsRunOf d' other)
    (hrun : run <:+ history) (hother : other <:+ history) : d = d' := by
  have heq : run = other := by
    rcases List.suffix_or_suffix_of_suffix hrun hother with hle | hle
    · exact h.fitTogether.eq_of_suffix h'.fitTogether h.ne_nil hle
    · exact (h'.fitTogether.eq_of_suffix h.fitTogether h'.ne_nil hle).symm
  subst heq
  exact Option.some.inj (h.datagram.symm.trans h'.datagram)

/-- **What is recognized.** A datagram is complete with the last segment of a stream if and only if that
segment ends a run of it. -/
theorem recognized_eq_some_iff : recognized history = some d ↔
    ∃ run, run <:+ history ∧ IsRunOf d run := by
  have hpick : ∀ run d, (firstDatagram? run).filter (fun d => IsRunOf d run) = some d ↔
      IsRunOf d run := by
    intro run d
    rw [Option.filter_eq_some_iff, decide_eq_true_eq]
    exact ⟨fun h => h.2, fun h => ⟨h.datagram, h⟩⟩
  constructor
  · intro h
    obtain ⟨run, hmem, hrun⟩ := List.exists_of_findSome?_eq_some h
    exact ⟨run, (List.mem_tails _ _).1 hmem, (hpick run d).1 hrun⟩
  · rintro ⟨run, hsuffix, hrun⟩
    have hsome : (recognized history).isSome = true := by
      rw [recognized, List.findSome?_isSome_iff]
      exact ⟨run, (List.mem_tails _ _).2 hsuffix, by rw [(hpick run d).2 hrun]; rfl⟩
    obtain ⟨d', hd'⟩ := Option.isSome_iff_exists.1 hsome
    obtain ⟨other, hmem, hother⟩ := List.exists_of_findSome?_eq_some hd'
    rw [hd', hrun.eq ((hpick other d').1 hother) hsuffix ((List.mem_tails _ _).1 hmem)]

/-! ## What a stream holds -/

/-- The stream holds these segments of a datagram: they fit together, and the end is missing. -/
structure IsOpenRun (p : Partial) (run : List (Fragment × Segment)) : Prop where
  fitTogether : FitTogether run
  unfinished : ∀ q ∈ run, q.1.finish = false
  datagram : firstDatagram? run = some p.datagram
  received : bitsOf run = p.received

/-- What a stream holds is what the end of its history makes it hold. -/
def Partial.Reflects (history : List (Fragment × Segment)) (held : Option Partial) : Prop :=
  ∀ p, held = some p ↔ ∃ run, run <:+ history ∧ IsOpenRun p run

/-- What a segment goes on from: its own datagram if it starts one, and else what is held. -/
def Partial.base? (held : Option Partial) (piece : Fragment × Segment) : Option Partial :=
  if piece.1.start then some ⟨piece.2.datagram, 0⟩ else held

theorem Partial.extend_of_forall_ne {held : Option Partial}
    (h : ∀ p, base? held piece = some p → p.received ≠ piece.2.offset) :
    extend held piece.1 piece.2 = .ok (none, none) := by
  rw [base?] at h
  unfold extend
  split
  · rfl
  · next p hp => rw [if_pos (h p hp)]

/-- A segment that goes on from where it has to adds its bits. The end flag closes the datagram, be it
complete or not. -/
theorem Partial.extend_of_base? {held : Option Partial} {p : Partial} (hbase : base? held piece = some p)
    (hoffset : p.received = piece.2.offset) (hbits : p.received + piece.2.length ≤ Word.highest) :
    extend held piece.1 piece.2 = .ok
      (if piece.1.finish = true ∧ p.received + piece.2.length = p.datagram.bits then some p.datagram
        else none,
      if piece.1.finish then none else some { p with received := p.received + piece.2.length }) := by
  rw [base?] at hbase
  unfold extend
  rw [hbase]
  simp only [hoffset, ne_eq, not_true, if_false]
  rw [hoffset] at hbits
  rw [checkedSum_eq_ok hbits]
  cases piece.1.finish <;> simp [bind, Except.bind, pure, Except.pure]

namespace Partial.Reflects

variable {held : Option Partial} {p : Partial}

/-- A segment goes on from where it has to if and only if it fits behind the end of the history. -/
theorem base?_iff (h : Reflects history held) :
    (base? held piece = some p ∧ p.received = piece.2.offset) ↔
      ∃ before, before <:+ history ∧ (FitTogether before ∧ FitsBehind before piece) ∧
        firstDatagram? (before ++ [piece]) = some p.datagram ∧ bitsOf before = p.received := by
  rw [base?]
  by_cases hstart : piece.1.start = true
  · rw [if_pos hstart]
    constructor
    · rintro ⟨hp, hoffset⟩
      cases hp
      exact ⟨[], List.nil_suffix, ⟨.none, hoffset.symm, by simp [hstart], by simp⟩, rfl, rfl⟩
    · rintro ⟨before, -, ⟨-, hfits⟩, hdatagram, hbits⟩
      obtain rfl := hfits.start.1 hstart
      obtain ⟨datagram, received⟩ := p
      cases hdatagram
      cases hbits
      exact ⟨rfl, hfits.offset.symm⟩
  · rw [if_neg hstart, h p]
    have hfirst : ∀ {before : List (Fragment × Segment)}, before ≠ [] →
        firstDatagram? (before ++ [piece]) = firstDatagram? before := by
      intro before hne
      rw [firstDatagram?, List.head?_append_of_ne_nil _ hne, firstDatagram?]
    constructor
    · rintro ⟨⟨run, hsuffix, hrun⟩, hoffset⟩
      have hne : run ≠ [] := by
        rintro rfl
        cases hrun.datagram
      refine ⟨run, hsuffix, ⟨hrun.fitTogether, ?_, ?_, hrun.unfinished⟩, ?_, hrun.received⟩
      · rw [hrun.received, hoffset]
      · simp [hstart, hne]
      · rw [hfirst hne, hrun.datagram]
    · rintro ⟨before, hsuffix, ⟨hfit, hfits⟩, hdatagram, hbits⟩
      have hne : before ≠ [] := fun hnil => hstart (hfits.start.2 hnil)
      rw [hfirst hne] at hdatagram
      exact ⟨⟨before, hsuffix, hfit, hfits.unfinished, hdatagram, hbits⟩,
        hbits.symm.trans hfits.offset.symm⟩

theorem recognized_iff (h : Reflects history held) : recognized (history ++ [piece]) = some d ↔
    piece.1.finish = true ∧ ∃ p, (base? held piece = some p ∧ p.received = piece.2.offset) ∧
      p.datagram = d ∧ p.received + piece.2.length = d.bits := by
  rw [recognized_eq_some_iff]
  constructor
  · rintro ⟨run, hsuffix, hrun⟩
    rcases List.suffix_concat_iff.1 hsuffix with rfl | ⟨before, rfl, hbefore⟩
    · exact absurd rfl hrun.ne_nil
    · obtain ⟨hfit, hdatagram, hend, hbits⟩ := isRunOf_concat_iff.1 hrun
      exact ⟨hend, ⟨d, bitsOf before⟩, h.base?_iff.2 ⟨before, hbefore, hfit, hdatagram, rfl⟩, rfl,
        hbits⟩
  · rintro ⟨hend, p, hbase, rfl, hbits⟩
    obtain ⟨before, hbefore, hfit, hdatagram, hreceived⟩ := h.base?_iff.1 hbase
    exact ⟨before ++ [piece], List.suffix_concat_iff.2 (Or.inr ⟨before, rfl, hbefore⟩),
      isRunOf_concat_iff.2 ⟨hfit, hdatagram, hend, by rw [hreceived, hbits]⟩⟩

theorem openRun_iff (h : Reflects history held) :
    (∃ run, run <:+ history ++ [piece] ∧ IsOpenRun p run) ↔
      piece.1.finish = false ∧ ∃ q, (base? held piece = some q ∧ q.received = piece.2.offset) ∧
        q.datagram = p.datagram ∧ q.received + piece.2.length = p.received := by
  constructor
  · rintro ⟨run, hsuffix, hrun⟩
    rcases List.suffix_concat_iff.1 hsuffix with rfl | ⟨before, rfl, hbefore⟩
    · cases hrun.datagram
    · have hreceived := hrun.received
      rw [bitsOf_concat] at hreceived
      exact ⟨hrun.unfinished piece (by simp), ⟨p.datagram, bitsOf before⟩, h.base?_iff.2
        ⟨before, hbefore, fitTogether_concat_iff.1 hrun.fitTogether, hrun.datagram, rfl⟩, rfl,
        hreceived⟩
  · rintro ⟨hopen, q, hbase, hdatagram, hreceived⟩
    obtain ⟨before, hbefore, hfit, hfirst, hbits⟩ := h.base?_iff.1 hbase
    refine ⟨before ++ [piece], List.suffix_concat_iff.2 (Or.inr ⟨before, rfl, hbefore⟩),
      fitTogether_concat_iff.2 hfit, fun r hr => ?_, hdatagram ▸ hfirst, ?_⟩
    · rcases List.mem_append.1 hr with hr | hr
      · exact hfit.2.unfinished r hr
      · rw [List.mem_singleton.1 hr, hopen]
    · rw [bitsOf_concat, hbits, hreceived]

/-- **One segment.** A stream that reflects its history takes the next segment in, completes what is
recognized there, and reflects its history again. -/
theorem extend (h : Reflects history held) (piece : Fragment × Segment)
    (hbits : ∀ run, run <:+ history ++ [piece] → FitTogether run → bitsOf run ≤ Word.highest) :
    ∃ after, Partial.extend held piece.1 piece.2 = .ok (recognized (history ++ [piece]), after) ∧
      Reflects (history ++ [piece]) after := by
  by_cases hgoes : ∃ p, base? held piece = some p ∧ p.received = piece.2.offset
  · obtain ⟨p, hbase, hoffset⟩ := hgoes
    obtain ⟨before, hbefore, hfit, -, hreceived⟩ := h.base?_iff.1 ⟨hbase, hoffset⟩
    have hsum : p.received + piece.2.length ≤ Word.highest := by
      rw [← hreceived, ← bitsOf_concat]
      exact hbits _ (List.suffix_concat_iff.2 (Or.inr ⟨before, rfl, hbefore⟩))
        (fitTogether_concat_iff.2 hfit)
    have honly : ∀ q, (base? held piece = some q ∧ q.received = piece.2.offset) ↔ q = p := by
      intro q
      rw [hbase, Option.some_inj]
      exact ⟨fun hq => hq.1.symm, fun hq => ⟨hq.symm, hq ▸ hoffset⟩⟩
    have hcomplete : recognized (history ++ [piece]) =
        if piece.1.finish = true ∧ p.received + piece.2.length = p.datagram.bits then some p.datagram
        else none := by
      refine Option.ext fun d => ?_
      simp only [h.recognized_iff, honly, exists_eq_left, Option.ite_none_right_eq_some,
        Option.some_inj]
      constructor
      · rintro ⟨hend, rfl, hsum⟩
        exact ⟨⟨hend, hsum⟩, rfl⟩
      · rintro ⟨⟨hend, hsum⟩, rfl⟩
        exact ⟨hend, rfl, hsum⟩
    refine ⟨_, hcomplete ▸ Partial.extend_of_base? hbase hoffset hsum, fun q => ?_⟩
    simp only [h.openRun_iff, honly, exists_eq_left]
    cases piece.1.finish with
    | true => simp
    | false =>
      obtain ⟨datagram, received⟩ := q
      simp
  · have hnever : ∀ p, base? held piece = some p → p.received ≠ piece.2.offset :=
      fun p hbase hoffset => hgoes ⟨p, hbase, hoffset⟩
    rw [Partial.extend_of_forall_ne hnever]
    have hnone : recognized (history ++ [piece]) = none := by
      rw [Option.eq_none_iff_forall_ne_some]
      intro d hd
      obtain ⟨-, p, hp, -⟩ := h.recognized_iff.1 hd
      exact hgoes ⟨p, hp⟩
    refine ⟨none, by rw [hnone], fun q => ⟨fun hq => (by cases hq), fun hrun => ?_⟩⟩
    obtain ⟨-, p, hp, -⟩ := h.openRun_iff.1 hrun
    exact absurd ⟨p, hp⟩ hgoes

end Partial.Reflects

/-! ## Segments of several streams -/

/-- The segments of one stream, in order. -/
def ofStream (stream : Stream) (arrivals : List (Stream × Fragment × Segment)) :
    List (Fragment × Segment) :=
  (arrivals.filter fun a => a.1 = stream).map Prod.snd

/-- The datagram that is complete with the last segment to arrive, if one is, and its stream. -/
def latest? (arrivals : List (Stream × Fragment × Segment)) : Option (Stream × Datagram) :=
  arrivals.getLast?.bind fun a => (recognized (ofStream a.1 arrivals)).map fun d => (a.1, d)

/-- All datagrams that are complete with a segment, in the order in which the segments arrive. -/
def allRecognized (arrivals : List (Stream × Fragment × Segment)) : List (Stream × Datagram) :=
  arrivals.inits.filterMap latest?

/-- No stream has segments that fit together and have more bits than a word holds. -/
def RunsFit (arrivals : List (Stream × Fragment × Segment)) : Prop :=
  ∀ stream run, run <:+: ofStream stream arrivals → FitTogether run → bitsOf run ≤ Word.highest

variable {arrivals past more : List (Stream × Fragment × Segment)} {stream : Stream}

theorem ofStream_append (stream : Stream) (past more : List (Stream × Fragment × Segment)) :
    ofStream stream (past ++ more) = ofStream stream past ++ ofStream stream more := by
  rw [ofStream, List.filter_append, List.map_append]
  rfl

theorem ofStream_concat (stream : Stream) (past : List (Stream × Fragment × Segment))
    (a : Stream × Fragment × Segment) :
    ofStream stream (past ++ [a]) = ofStream stream past ++ if a.1 = stream then [a.2] else [] := by
  rw [ofStream_append]
  by_cases h : a.1 = stream <;> simp [ofStream, h]

theorem RunsFit.left (h : RunsFit (past ++ more)) : RunsFit past := by
  intro stream run hrun
  refine h stream run (hrun.trans ?_)
  rw [ofStream_append]
  exact List.infix_append_left

theorem runsFit_of_le (h : bitsOf (arrivals.map Prod.snd) ≤ Word.highest) : RunsFit arrivals :=
  fun _ _ hrun _ => Nat.le_trans
    (bitsOf_le_of_sublist (hrun.sublist.trans (List.filter_sublist.map Prod.snd))) h

theorem allRecognized_concat (past : List (Stream × Fragment × Segment))
    (a : Stream × Fragment × Segment) : allRecognized (past ++ [a]) = allRecognized past ++
      (recognized (ofStream a.1 (past ++ [a]))).toList.map fun d => (a.1, d) := by
  rw [allRecognized, List.inits_append, List.filterMap_append, ← allRecognized]
  cases hd : recognized (ofStream a.1 (past ++ [a])) <;> simp [latest?, hd]

theorem allRecognized_ofStream (stream : Stream) (arrivals : List (Stream × Fragment × Segment)) :
    ((allRecognized arrivals).filter fun e => e.1 = stream).map Prod.snd =
      (ofStream stream arrivals).inits.filterMap recognized := by
  induction arrivals using List.reverseRecOn with
  | nil => rfl
  | append_singleton past a ih =>
    rw [allRecognized_concat, List.filter_append, List.map_append, ih]
    by_cases h : a.1 = stream
    · subst h
      rw [ofStream_concat, if_pos rfl, List.inits_append, List.filterMap_append]
      cases hd : recognized (ofStream a.1 past ++ [a.2]) <;> simp [hd]
    · rw [ofStream_concat stream, if_neg h, List.append_nil]
      simp [h]

/-! ## What an RLC takes in -/

/-- Every stream reflects its own segments. -/
def Reassembly.Reflects (arrivals : List (Stream × Fragment × Segment)) (streams : Reassembly) : Prop :=
  ∀ stream, Partial.Reflects (ofStream stream arrivals) (streams.get? stream)

/-- A segment of a sender, with its stream. -/
def arrival (origin : Address) (s : Address × Fragment × Segment) : Stream × Fragment × Segment :=
  (⟨origin, s.1⟩, s.2)

/-- The datagrams that are recognized, each with its sender. -/
def handedUp (arrivals : List (Stream × Fragment × Segment)) : List (Address × Datagram) :=
  (allRecognized arrivals).map fun e => (e.1.origin, e.2)

theorem handedUp_concat (past : List (Stream × Fragment × Segment))
    (a : Stream × Fragment × Segment) : handedUp (past ++ [a]) = handedUp past ++
      (recognized (ofStream a.1 (past ++ [a]))).toList.map fun d => (a.1.origin, d) := by
  rw [handedUp, allRecognized_concat, List.map_append, List.map_map]
  rfl

theorem Reassembly.reflects_empty : Reassembly.Reflects [] .empty := by
  intro stream p
  refine ⟨fun hp => (by cases hp), ?_⟩
  rintro ⟨run, hrun, hopen⟩
  obtain rfl := List.suffix_nil.1 hrun
  cases hopen.datagram

theorem Reassembly.Reflects.set {streams : Reassembly} (h : Reflects past streams)
    (a : Stream × Fragment × Segment) {next : Option Partial}
    (hnext : Partial.Reflects (ofStream a.1 past ++ [a.2]) next) :
    Reflects (past ++ [a]) (Table.set streams a.1 next) := by
  intro stream
  rw [ofStream_concat, Table.get?_set]
  by_cases hstream : a.1 = stream
  · subst hstream
    rw [if_pos rfl, if_pos rfl]
    exact hnext
  · rw [if_neg hstream, if_neg hstream, List.append_nil]
    exact h stream

/-- **A packet.** Streams that reflect what has arrived take the segments of a packet in, one by one, and
complete what is recognized. -/
theorem Reassembly.Reflects.absorb {streams : Reassembly} (h : Reflects past streams)
    (origin : Address) (segments : List (Address × Fragment × Segment))
    (hfit : RunsFit (past ++ segments.map (arrival origin))) :
    ∃ complete after, Reassembly.absorb origin segments streams = .ok (complete, after) ∧
      Reflects (past ++ segments.map (arrival origin)) after ∧
      handedUp (past ++ segments.map (arrival origin)) =
        handedUp past ++ complete.map fun d => (origin, d) := by
  induction segments generalizing past streams with
  | nil => exact ⟨[], streams, rfl, by simpa using h, by simp⟩
  | cons s rest ih =>
    have hsplit : past ++ (s :: rest).map (arrival origin) =
        (past ++ [arrival origin s]) ++ rest.map (arrival origin) := by simp
    rw [hsplit] at hfit ⊢
    have hhistory : ofStream ⟨origin, s.1⟩ (past ++ [arrival origin s]) =
        ofStream ⟨origin, s.1⟩ past ++ [s.2] := by
      rw [ofStream_concat, arrival, if_pos rfl]
    obtain ⟨next, hextend, hnext⟩ := (h ⟨origin, s.1⟩).extend s.2 fun run hrun =>
      hfit.left ⟨origin, s.1⟩ run (hhistory ▸ hrun.isInfix)
    have hset : Reflects (past ++ [arrival origin s]) (streams.set ⟨origin, s.1⟩ next) :=
      h.set (arrival origin s) hnext
    obtain ⟨complete, after, habsorb, hafter, hhanded⟩ := ih hset hfit
    refine ⟨(recognized (ofStream ⟨origin, s.1⟩ past ++ [s.2])).toList ++ complete, after, ?_, hafter,
      ?_⟩
    · simp only [Reassembly.absorb, hextend, habsorb, bind, Except.bind]
      rfl
    · rw [hhanded, handedUp_concat, List.map_append, ← hhistory, List.append_assoc]
      rfl

namespace SegmentingRlc

variable {ε : Type} [NetAbove ε]

/-- Above is a network layer that takes every datagram. -/
def TakesAll (ε : Type) [NetAbove ε] : Prop :=
  ∀ datagram origin (around : ε), (NetAbove.receive datagram origin around).1 = .ok ()

theorem handUp_logged (htakes : TakesAll ε) (origin : Address) (datagrams : List Datagram)
    (s : LoggedRlc ε) : (handUp origin datagrams s).1 = .ok () ∧
      (handUp origin datagrams s).2.around.layer.entries =
        s.around.layer.entries ++ datagrams.map fun d => (origin, d) := by
  induction datagrams generalizing s with
  | nil => exact ⟨rfl, (List.append_nil _).symm⟩
  | cons d rest ih =>
    have htaken := htakes d origin s.around.around
    rw [handUp]
    simp only [NetAbove.receive, Call.bind_apply, Call.change_apply, Call.outward_apply]
    rcases hcall : (NetAbove.receive d origin s.around.around : Except Fault Unit × ε) with ⟨r, around⟩
    rw [hcall] at htaken
    cases htaken
    obtain ⟨hok, hentries⟩ := ih { s with around := ⟨s.around.layer.note d origin, around⟩ }
    refine ⟨hok, ?_⟩
    simp only
    rw [hentries, Logbook.note, List.append_assoc]
    rfl

/-- What an RLC has received and handed up is in keeping with what has arrived. -/
structure Tracks (s : LoggedRlc ε) (arrivals : List (Stream × Fragment × Segment)) : Prop where
  streams : s.layer.streams.Reflects arrivals
  entries : s.around.layer.entries = handedUp arrivals

/-- The segments of a packet, with their streams. -/
def arrivalsOf (packet : Packet) : List (Stream × Fragment × Segment) :=
  (segmentsOf packet).map (arrival packet.origin)

theorem Tracks.receive (htakes : TakesAll ε) {s : LoggedRlc ε} (h : Tracks s arrivals) (packet : Packet)
    (hfit : RunsFit (arrivals ++ arrivalsOf packet)) :
    (SegmentingRlc.receive packet s).1 = .ok () ∧
      Tracks (SegmentingRlc.receive packet s).2 (arrivals ++ arrivalsOf packet) := by
  obtain ⟨complete, streams, habsorb, hstreams, hhanded⟩ :=
    h.streams.absorb packet.origin (segmentsOf packet) hfit
  rw [segmentsOf] at habsorb
  simp only [SegmentingRlc.receive, Call.bind_apply, Call.own_apply, habsorb, Call.ofExcept_apply,
    Call.change_apply]
  obtain ⟨hok, hentries⟩ := handUp_logged htakes packet.origin complete
    { s with layer := { s.layer with streams } }
  refine ⟨hok, ?_, ?_⟩
  · rw [handUp_layer]
    exact hstreams
  · rw [hentries, arrivalsOf, hhanded, h.entries]

/-! ## A run -/

variable [ArqBelow ε]

/-- The segments of the packets that are received, with their streams. -/
def arrivalsIn (events : List RlcEvent) : List (Stream × Fragment × Segment) :=
  events.flatMap fun
    | .receive packet => arrivalsOf packet
    | _ => []

/-- One event after the other. -/
def performAll (s : Inside SegmentingRlc ε) (events : List RlcEvent) : Inside SegmentingRlc ε :=
  events.foldl perform s

omit [NetAbove ε] in
theorem keeps_accept_tracks (datagram : Datagram) (dest : Address) (priority : Nat) :
    (accept datagram dest priority : Call (LoggedRlc ε) Unit).Preserves
      fun s => Tracks s arrivals := by
  unfold accept
  have hnotify : ∀ bits, (Call.outward (ArqBelow.notifyOutgoing bits dest) :
      Call (LoggedRlc ε) Unit).Preserves fun s => Tracks s arrivals :=
    fun _ => .outward fun _ h => ⟨⟨h.streams, h.entries⟩, fun _ _ => trivial⟩
  exact .ite (.fail _) (.bind .look fun r _ => .ite (.fail _) (.bind (hnotify _) fun _ _ =>
    .change fun _ h => ⟨h.streams, h.entries⟩))

omit [NetAbove ε] [ArqBelow ε] in
theorem streams_requestBurst (bits : Nat) (dest : Address) (frame : Nat)
    (s : Inside SegmentingRlc ε) :
    (requestBurst bits dest frame s).2.layer.streams = s.layer.streams := by
  cases hcontrol : s.layer.servesControl bits dest frame with
  | true =>
    obtain ⟨injected, hafter⟩ := requestBurst_of_servesControl hcontrol
    rw [hafter]
  | false =>
    rcases requestBurst_of_not_servesControl hcontrol with
      hnone | ⟨e, herror⟩ | ⟨packet, after, hfill, hfilled⟩
    · rw [hnone]
    · rw [herror]
    · obtain rfl := fill_eq_ok hfill
      rw [hfilled]
      rfl

theorem Tracks.perform (htakes : TakesAll ε) {s : LoggedRlc ε} (h : Tracks s arrivals) (e : RlcEvent)
    (hfit : RunsFit (arrivals ++ arrivalsIn [e])) :
    Tracks (SegmentingRlc.perform s e) (arrivals ++ arrivalsIn [e]) := by
  cases e with
  | receive packet =>
    rw [arrivalsIn, List.flatMap_singleton] at hfit ⊢
    exact (h.receive htakes packet hfit).2
  | accept datagram dest priority =>
    rw [arrivalsIn, List.flatMap_singleton, List.append_nil]
    exact (keeps_accept_tracks datagram dest priority s h).1
  | request bits dest frame =>
    rw [arrivalsIn, List.flatMap_singleton, List.append_nil, SegmentingRlc.perform]
    refine ⟨?_, ?_⟩
    · rw [streams_requestBurst]
      exact h.streams
    · rw [requestBurst_around]
      exact h.entries
  | inject packet priority =>
    rw [arrivalsIn, List.flatMap_singleton, List.append_nil]
    exact ⟨h.streams, h.entries⟩

theorem Tracks.performAll (htakes : TakesAll ε) {s : LoggedRlc ε} (h : Tracks s arrivals)
    (events : List RlcEvent) (hfit : RunsFit (arrivals ++ arrivalsIn events)) :
    Tracks (SegmentingRlc.performAll s events) (arrivals ++ arrivalsIn events) := by
  induction events generalizing s arrivals with
  | nil =>
    rw [arrivalsIn, List.flatMap_nil, List.append_nil]
    exact h
  | cons e rest ih =>
    have hsplit : arrivals ++ arrivalsIn (e :: rest) =
        (arrivals ++ arrivalsIn [e]) ++ arrivalsIn rest := by
      simp [arrivalsIn]
    rw [hsplit] at hfit ⊢
    exact ih (h.perform htakes e hfit.left) hfit

/-- An RLC as it is made, under a network layer that has nothing. -/
def atFirst (maxQueued : Nat) (around : ε) : LoggedRlc ε := ⟨.empty maxQueued, ⟨⟨[]⟩, around⟩⟩

omit [NetAbove ε] [ArqBelow ε] in
theorem tracks_atFirst (maxQueued : Nat) (around : ε) : Tracks (atFirst maxQueued around) [] :=
  ⟨Reassembly.reflects_empty, rfl⟩

/-- **What a receiver recognizes.** Packets are received in any order, between whatever else an RLC does,
and the network layer takes every datagram. Then every packet is received. Each segment hands up the
datagram that is recognized there and nothing else, which for one stream is up to its own segments; and
a datagram is recognized at a segment if and only if that ends a run of it. -/
theorem entries_eq_handedUp (htakes : TakesAll ε) (maxQueued : Nat) (around : ε)
    (events : List RlcEvent) (hfit : RunsFit (arrivalsIn events)) :
    (∀ past packet rest, events = past ++ .receive packet :: rest →
      (receive packet (performAll (atFirst maxQueued around) past)).1 = .ok ()) ∧
    (performAll (atFirst maxQueued around) events).around.layer.entries =
      handedUp (arrivalsIn events) ∧
    (∀ stream, ((allRecognized (arrivalsIn events)).filter fun e => e.1 = stream).map Prod.snd =
      (ofStream stream (arrivalsIn events)).inits.filterMap recognized) ∧
    ∀ history d, recognized history = some d ↔ ∃ run, run <:+ history ∧ IsRunOf d run := by
  refine ⟨fun past packet rest hsplit => ?_, ?_, fun stream => allRecognized_ofStream stream _,
    fun history d => recognized_eq_some_iff⟩
  · have harrivals : arrivalsIn events =
        [] ++ arrivalsIn past ++ arrivalsOf packet ++ arrivalsIn rest := by
      simp [hsplit, arrivalsIn]
    rw [harrivals] at hfit
    have htracks := (tracks_atFirst maxQueued around).performAll htakes past hfit.left.left
    exact (htracks.receive htakes packet hfit.left).1
  · exact ((tracks_atFirst maxQueued around).performAll htakes events hfit).entries

/-- A packet of a station with pieces for several destinations. -/
def mixed (source : Address) (pieces : List (Address × Fragment × Segment)) : Packet :=
  .ofMessages (⟨some (.base (.ofSource source)), none⟩ :: pieces.map fun p => carry p.1 p.2)

/-- Two stations send on two channels. The first packet starts a datagram on each channel; the second
one ends the one for station 1 and leaves a gap in the other, whose last segment comes to nothing. After
a start with an offset, a new start takes the place of one that is open. Between the packets the RLC
sends something itself. -/
def interleaved : List RlcEvent :=
  [.receive (mixed ⟨2⟩ [(.broadcast, ⟨true, false⟩, ⟨⟨#[1, 2]⟩, 0, 4⟩),
      (⟨1⟩, ⟨true, false⟩, ⟨⟨#[1, 2]⟩, 0, 10⟩)]),
    .accept ⟨#[9]⟩ ⟨2⟩ 0,
    .receive (mixed ⟨3⟩ [(⟨1⟩, ⟨false, true⟩, ⟨⟨#[1, 2]⟩, 10, 6⟩), (⟨1⟩, ⟨true, false⟩, ⟨⟨#[7]⟩, 3, 5⟩)]),
    .receive (mixed ⟨2⟩ [(.broadcast, ⟨false, false⟩, ⟨⟨#[1, 2]⟩, 9, 2⟩),
      (⟨1⟩, ⟨false, true⟩, ⟨⟨#[1, 2]⟩, 10, 6⟩)]),
    .request 200 ⟨2⟩ 0,
    .receive (mixed ⟨2⟩ [(.broadcast, ⟨false, true⟩, ⟨⟨#[1, 2]⟩, 4, 12⟩),
      (.broadcast, ⟨true, false⟩, ⟨⟨#[4, 5]⟩, 0, 8⟩), (.broadcast, ⟨true, false⟩, ⟨⟨#[6]⟩, 0, 3⟩),
      (.broadcast, ⟨false, true⟩, ⟨⟨#[6]⟩, 3, 5⟩)])]

theorem entries_interleaved :
    (performAll (atFirst 256 (Ends.empty ())) interleaved).around.layer.entries =
      [(⟨2⟩, ⟨#[1, 2]⟩), (⟨2⟩, ⟨#[6]⟩)] := by
  obtain ⟨-, hentries, -⟩ := entries_eq_handedUp (show TakesAll (Ends Unit) from fun _ _ _ => rfl) 256
    (Ends.empty ()) interleaved (runsFit_of_le (by decide +kernel))
  rw [hentries]
  decide +kernel

end SegmentingRlc

end DataLink
