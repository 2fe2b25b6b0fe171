import DataLink.Proofs.Rlc.Ledger
import DataLink.Proofs.Rlc.RoundTrip
import Mathlib.Data.List.Induction

/-!
# What a receiver makes of losses

One RLC broadcasts datagrams of one priority; some of its packets are lost, and the others are taken in
by a receiver in order. The receiver takes the datagram from the segment with the start flag and checks
the others only for their offset and length.

**Theorem (`inbox_whole_or_patched`).** The receiver hands up datagrams that were broadcast, each at most
once and in their order. A datagram is handed up if and only if all its segments were received
(`IsWhole`), or the end of a later one of the same length was, and the segments received from the one to
the other fit together (`IsPatched`): the receiver cannot tell whose segments they are.

The segments leave datagram by datagram, since there is one priority (`Ledger.IsBalanced.numbers_eq`).
What the receiver holds is what fits together from some datagram on, and what it has handed up is what
is completed (`Follows`). One segment keeps that (`Follows.hear`), whether it fits or not.
-/

namespace DataLink

variable {which : Nat → Prop} [DecidablePred which] {emissions : List Emission}

theorem piecesOf_eq_nil (h : ∀ m ∈ emissions, ∀ e, m.owner = some e → ¬ which e.2) :
    piecesOf which emissions = [] := by
  refine List.eq_nil_iff_forall_not_mem.2 fun piece hpiece => ?_
  obtain ⟨m, hm, e, howner, hwhich, -⟩ := mem_piecesOf.1 hpiece
  exact h m hm e howner hwhich

theorem piecesOf_congr {other : Nat → Prop} [DecidablePred other]
    (h : ∀ m ∈ emissions, ∀ e, m.owner = some e → (which e.2 ↔ other e.2)) :
    piecesOf which emissions = piecesOf other emissions := by
  refine List.filterMap_congr fun m hm => ?_
  cases howner : m.owner with
  | none => rfl
  | some e =>
    rw [Option.bind_some, Option.bind_some]
    exact if_congr (h m hm e howner) rfl rfl

theorem piecesOf_sublist {part : List Emission} (h : part.Sublist emissions) :
    (piecesOf which part).Sublist (piecesOf which emissions) :=
  h.filterMap _

theorem mem_piecesOf_of_imp {other : Nat → Prop} [DecidablePred other] {piece : Fragment × Segment}
    (himp : ∀ i, which i → other i) (h : piece ∈ piecesOf which emissions) :
    piece ∈ piecesOf other emissions := by
  obtain ⟨m, hm, e, howner, hwhich, hpiece⟩ := mem_piecesOf.1 h
  exact mem_piecesOf.2 ⟨m, hm, e, howner, himp _ hwhich, hpiece⟩

theorem piecesOf_append_ne_nil (h : piecesOf which emissions ≠ []) (more : List Emission) :
    piecesOf which (emissions ++ more) ≠ [] := by
  rw [piecesOf, List.filterMap_append]
  exact List.append_ne_nil_of_left_ne_nil h _

theorem piecesOf_own (k : Nat) :
    piecesOf (fun i => k ≤ i ∧ i ≤ k) emissions = piecesOf (fun i => i = k) emissions :=
  piecesOf_congr fun _ _ e _ => by omega

theorem piecesOf_from_ne_nil {k : Nat} (h : piecesOf (fun i => i = k) emissions ≠ []) :
    piecesOf (fun i => k ≤ i) emissions ≠ [] := by
  obtain ⟨piece, hpiece⟩ := List.exists_mem_of_ne_nil _ h
  exact List.ne_nil_of_mem (mem_piecesOf_of_imp (fun i hi => Nat.le_of_eq hi.symm) hpiece)

/-- The emissions leave datagram by datagram. -/
def IsSorted (emissions : List Emission) : Prop :=
  emissions.Pairwise fun m n => ∀ e, m.owner = some e → ∀ f, n.owner = some f → e.2 ≤ f.2

/-- What has left from one datagram on is what has left of it, and then what has left of later ones. -/
theorem piecesOf_split (h : IsSorted emissions) (k : Nat) :
    piecesOf (fun i => k ≤ i) emissions =
      piecesOf (fun i => i = k) emissions ++ piecesOf (fun i => k < i) emissions := by
  induction emissions with
  | nil => rfl
  | cons m rest ih =>
    obtain ⟨hfirst, hrest⟩ := List.pairwise_cons.1 h
    have hcons : ∀ (which : Nat → Prop) [DecidablePred which], piecesOf which (m :: rest) =
        piecesOf which [m] ++ piecesOf which rest := by
      intro which _
      rw [← List.singleton_append]
      exact List.filterMap_append
    rw [hcons, hcons, hcons, ih hrest]
    cases howner : m.owner with
    | none => simp [piecesOf, howner]
    | some e =>
      rcases Nat.lt_trichotomy e.2 k with hlt | heq | hlt
      · simp [piecesOf, howner, Nat.not_le_of_lt hlt, Nat.ne_of_lt hlt, Nat.lt_asymm hlt]
      · simp [piecesOf, howner, heq]
      · have hnone : piecesOf (fun i => i = k) rest = [] :=
          piecesOf_eq_nil fun n hn f hf heq => by
            have := hfirst n hn e howner f hf
            omega
        rw [hnone]
        simp [piecesOf, howner, Nat.le_of_lt hlt, Nat.ne_of_gt hlt, hlt]

/-! ## One datagram after the other -/

namespace Ledger

variable {l : Ledger} {queue : List (Nat × Outgoing)} {priority : Nat}

theorem IsBalanced.numbers_eq (h : l.IsBalanced queue)
    (hsingle : ∀ e ∈ l.accepted, e.1 = priority) :
    (l.finished ++ l.waiting).map Prod.snd = List.range l.accepted.length := by
  have hpriority : ∀ e ∈ l.finished ++ l.waiting, e.1 = priority := by
    intro e he
    rcases List.mem_append.1 he with he | he
    · obtain ⟨d, hd, -⟩ := h.finished e he
      exact hsingle _ (List.mem_of_getElem? hd)
    · obtain ⟨i, hi⟩ := List.mem_iff_get.1 he
      obtain ⟨hlen, hget⟩ := List.forall₂_iff_get.1 h.waiting
      have hitem := (hget i.1 i.2 (hlen ▸ i.2)).2.1
      rw [← hi]
      exact hsingle _ (List.mem_of_getElem? hitem)
  have hincreasing : ((l.finished ++ l.waiting).map Prod.snd).Pairwise (· < ·) := by
    refine List.pairwise_map.2 (h.inOrder.imp_of_mem fun he hf hlt => hlt ?_)
    rw [hpriority _ he, hpriority _ hf]
  exact h.once.eq_of_pairwise (fun a b _ _ hab hba => absurd hab (Nat.lt_asymm hba)) hincreasing
    List.pairwise_lt_range

/-- The piece comes next of the datagram with number `c`, and those before it are done with. -/
structure Serves (l : Ledger) (c : Nat) (d : Datagram) (piece : Fragment × Segment) : Prop where
  waiting : ∃ priority rest, l.waiting = (priority, c) :: rest ∧
    l.accepted[c]? = some (priority, d)
  number : c = l.finished.length
  continues : Continues d (l.pieces c) piece

theorem IsBalanced.serves {o : Outgoing} {rest : List (Nat × Outgoing)}
    (h : l.IsBalanced ((priority, o) :: rest)) {p : Nat} (hsingle : ∀ e ∈ l.accepted, e.1 = p)
    {room : Nat} (hroom : o.left = 0 ∨ 0 < room) :
    ∃ c, l.Serves c o.datagram (o.fragment room, o.segment room) := by
  obtain ⟨c, ws, hwaiting, hc, hsent, -, hopen⟩ := h.served
  refine ⟨c, ⟨priority, ws, hwaiting, hc⟩, ?_,
    Outgoing.continues (h.cut c priority o.datagram hc) hopen hsent hroom⟩
  have hnumbers := congrArg (fun numbers => numbers[l.finished.length]?) (h.numbers_eq hsingle)
  simp only [hwaiting, List.map_append, List.map_cons] at hnumbers
  rw [List.getElem?_append_right (Nat.le_of_eq (List.length_map _)), List.length_map, Nat.sub_self,
    List.getElem?_cons_zero] at hnumbers
  obtain ⟨_, hget⟩ := List.getElem?_eq_some_iff.1 hnumbers.symm
  rw [List.getElem_range] at hget
  exact hget.symm

variable {c : Nat} {d : Datagram} {piece : Fragment × Segment}

theorem Serves.finished_emit (h : l.Serves c d piece) :
    (l.emit piece).finished.length = if piece.1.finish then c + 1 else c := by
  obtain ⟨priority, rest, hwaiting, -⟩ := h.waiting
  rw [(Ledger.finished_emit hwaiting piece).2, List.length_append, h.number]
  split <;> rfl

end Ledger

/-! ## Segments that fit together -/

/-- The piece fits behind those before it: it goes on where they end, it starts a datagram if there are
none and only then, and none of them ends one. -/
structure FitsBehind (before : List (Fragment × Segment)) (piece : Fragment × Segment) : Prop where
  offset : piece.2.offset = bitsOf before
  start : piece.1.start = true ↔ before = []
  unfinished : ∀ q ∈ before, q.1.finish = false

/-- Each of the pieces fits behind those before it, whichever datagrams they are of. -/
inductive FitTogether : List (Fragment × Segment) → Prop
  | none : FitTogether []
  | more {before : List (Fragment × Segment)} {piece : Fragment × Segment}
      (h : FitTogether before) (hpiece : FitsBehind before piece) : FitTogether (before ++ [piece])

section FitTogether

variable {d : Datagram} {piece : Fragment × Segment}
  {pieces before after part : List (Fragment × Segment)}

theorem fitTogether_concat_iff :
    FitTogether (before ++ [piece]) ↔ FitTogether before ∧ FitsBehind before piece := by
  constructor
  · intro h
    generalize heq : before ++ [piece] = pieces at h
    cases h with
    | none => simp at heq
    | more h hpiece =>
      obtain ⟨rfl, hlast⟩ := List.append_inj' heq rfl
      cases hlast
      exact ⟨h, hpiece⟩
  · exact fun ⟨h, hpiece⟩ => .more h hpiece

theorem IsCutInto.fitTogether (h : IsCutInto d pieces) : FitTogether pieces := by
  induction h with
  | none => exact .none
  | more h hpiece ih => exact .more ih ⟨hpiece.offset, hpiece.start, hpiece.unfinished⟩

theorem FitTogether.exists_start (h : FitTogether pieces) (hne : pieces ≠ []) :
    ∃ q ∈ pieces, q.1.start = true := by
  induction h with
  | none => exact absurd rfl hne
  | @more before piece h hpiece ih =>
    by_cases hbefore : before = []
    · exact ⟨piece, by simp, hpiece.start.2 hbefore⟩
    · obtain ⟨q, hq, hstart⟩ := ih hbefore
      exact ⟨q, List.mem_append_left _ hq, hstart⟩

theorem FitTogether.start_false (h : FitTogether (before ++ after)) (hne : before ≠ []) :
    ∀ q ∈ after, q.1.start = false := by
  induction after using List.reverseRecOn with
  | nil => exact fun q hq => by cases hq
  | append_singleton after piece ih =>
    rw [← List.append_assoc] at h
    obtain ⟨hbefore, hpiece⟩ := fitTogether_concat_iff.1 h
    intro q hq
    rcases List.mem_append.1 hq with hq | hq
    · exact ih hbefore q hq
    · rw [List.mem_singleton.1 hq, ← Bool.not_eq_true, hpiece.start]
      exact fun hnil => hne (List.append_eq_nil_iff.1 hnil).1

theorem FitTogether.bitsOf_eq (h : FitTogether pieces) (hmem : piece ∈ pieces)
    (hend : piece.1.finish = true) : bitsOf pieces = piece.2.offset + piece.2.length := by
  cases h with
  | none => cases hmem
  | @more before last h hlast =>
    rcases List.mem_append.1 hmem with hmem | hmem
    · rw [hlast.unfinished piece hmem] at hend
      cases hend
    · rw [List.mem_singleton.1 hmem, bitsOf_concat, hlast.offset]

/-! ### Some of the pieces of a datagram -/

theorem bitsOf_le_of_sublist (h : part.Sublist pieces) : bitsOf part ≤ bitsOf pieces := by
  induction h with
  | slnil => exact Nat.le_refl _
  | cons piece h ih => exact Nat.le_trans ih (Nat.le_add_left _ _)
  | cons_cons piece h ih => exact Nat.add_le_add_left ih _

/-- Some pieces of a datagram that have as many bits as all of them are all of them. -/
theorem IsCutInto.eq_of_sublist (h : IsCutInto d pieces) (hsub : part.Sublist pieces)
    (hne : part ≠ []) (hbits : bitsOf part = bitsOf pieces) : part = pieces := by
  induction h generalizing part with
  | none => exact absurd (List.sublist_nil.1 hsub) hne
  | @more before piece h hpiece ih =>
    have hempty := h.bitsOf_lt hpiece.unfinished
    rw [bitsOf_concat] at hbits
    obtain ⟨first, last, rfl, hfirst, hlast⟩ := List.sublist_append_iff.1 hsub
    rcases List.sublist_singleton.1 hlast with rfl | rfl
    · -- A piece was left out, so it has no bits, and is the only one.
      rw [List.append_nil] at hne hbits
      have hle := bitsOf_le_of_sublist hfirst
      have hzero := hpiece.nonempty (by omega)
      rcases hempty with rfl | hempty
      · exact absurd (List.sublist_nil.1 hfirst) hne
      · omega
    · rw [bitsOf_concat] at hbits
      by_cases hnil : first = []
      · subst hnil
        rcases hempty with rfl | hempty
        · rfl
        · have hzero : bitsOf [] = 0 := rfl
          omega
      · rw [ih hfirst hnil (by omega)]

end FitTogether

/-! ## What was received of a datagram -/

/-- All segments of the datagram with this number have left and were received. -/
structure IsWhole (l : Ledger) (received : List Emission) (k : Nat) : Prop where
  finished : k ∈ l.finished.map Prod.snd
  received : piecesOf (fun i => i = k) received = l.pieces k

section Received

variable (accepted : List (Nat × Datagram)) (received : List Emission)

/-- What was received from datagram `k` to datagram `j`, which has the same length, fits together, begins
with a segment of the one and has the end of the other. -/
structure IsCompleted (k j : Nat) : Prop where
  begins : piecesOf (fun i => i = k) received ≠ []
  fits : FitTogether (piecesOf (fun i => k ≤ i ∧ i ≤ j) received)
  ends : ∃ q ∈ piecesOf (fun i => i = j) received, q.1.finish = true
  length : ∃ d e, (accepted[k]?).map Prod.snd = some d ∧ (accepted[j]?).map Prod.snd = some e ∧
    d.bits = e.bits

/-- The datagram is completed by a later one. -/
def IsPatched (k : Nat) : Prop := ∃ j, k < j ∧ IsCompleted accepted received k j

/-- What was received from datagram `k` on fits together, and amounts to this. -/
structure IsJoined (p : Partial) (k : Nat) : Prop where
  datagram : (accepted[k]?).map Prod.snd = some p.datagram
  begins : piecesOf (fun i => i = k) received ≠ []
  fits : FitTogether (piecesOf (fun i => k ≤ i) received)
  bits : bitsOf (piecesOf (fun i => k ≤ i) received) = p.received

end Received

/-- What a receiver holds and has handed up, in terms of what has left and what was received. The
datagrams that were handed up have the given numbers. -/
structure Follows (l : Ledger) (received : List Emission) (held : Option Partial)
    (delivered : List Datagram) (numbers : List Nat) : Prop where
  reached : ∀ m ∈ l.emitted, ∀ e, m.owner = some e → e.2 ≤ l.finished.length
  sorted : IsSorted l.emitted
  left : received.Sublist l.emitted
  increasing : numbers.Pairwise (· < ·)
  delivered : List.Forall₂ (fun d k => (l.accepted[k]?).map Prod.snd = some d) delivered numbers
  /-- What was handed up is what was completed. -/
  handedUp : ∀ k, k ∈ numbers ↔ ∃ j, k ≤ j ∧ IsCompleted l.accepted received k j
  /-- What is held is what fits together and has no end yet. -/
  held : ∀ p, held = some p ↔ ∃ k, IsJoined l.accepted received p k ∧
    ∀ q ∈ piecesOf (fun i => k ≤ i) received, q.1.finish = false

variable {l : Ledger} {received : List Emission} {held : Option Partial}
  {delivered : List Datagram} {numbers : List Nat}

theorem follows_empty : Follows .empty [] none [] [] where
  reached m h := by cases h
  sorted := .nil
  left := .slnil
  increasing := .nil
  delivered := .nil
  handedUp k := iff_of_false List.not_mem_nil fun ⟨_, _, h⟩ => h.begins rfl
  held p := iff_of_false (Option.some_ne_none p).symm fun ⟨_, h, _⟩ => h.begins rfl

/-! ### Whole datagrams -/

theorem isWhole_iff_isCompleted {queue : List (Nat × Outgoing)} (hbalanced : l.IsBalanced queue)
    (hleft : received.Sublist l.emitted) {k : Nat} :
    IsWhole l received k ↔ IsCompleted l.accepted received k k := by
  have hmem : k ∈ l.finished.map Prod.snd ↔ ∃ q ∈ l.pieces k, q.1.finish = true := by
    constructor
    · intro hk
      obtain ⟨e, he, rfl⟩ := List.mem_map.1 hk
      obtain ⟨m, hm, howner⟩ := List.mem_filterMap.1 he
      rw [Option.ite_none_right_eq_some] at howner
      exact ⟨m.piece, mem_piecesOf.2 ⟨m, hm, e, howner.2, rfl, rfl⟩, howner.1⟩
    · rintro ⟨q, hq, hend⟩
      obtain ⟨m, hm, e, howner, rfl, rfl⟩ := mem_piecesOf.1 hq
      exact List.mem_map_of_mem (List.mem_filterMap.2 ⟨m, hm, by rw [if_pos hend, howner]⟩)
  have hcut : ∀ q ∈ l.pieces k, ∃ priority d, l.accepted[k]? = some (priority, d) ∧
      IsCutInto d (l.pieces k) := by
    intro q hq
    obtain ⟨m, hm, e, howner, rfl, -⟩ := mem_piecesOf.1 hq
    obtain ⟨priority, i, d, hi, hd, -⟩ := hbalanced.owned m hm
    cases howner.symm.trans hi
    exact ⟨priority, d, hd, hbalanced.cut _ _ _ hd⟩
  constructor
  · rintro ⟨hfinished, hreceived⟩
    obtain ⟨q, hq, hend⟩ := hmem.1 hfinished
    obtain ⟨priority, d, hd, hcut⟩ := hcut q hq
    refine ⟨?_, ?_, ?_, d, d, congrArg _ hd, congrArg _ hd, rfl⟩
    · rw [hreceived]
      exact List.ne_nil_of_mem hq
    · rw [piecesOf_own, hreceived]
      exact hcut.fitTogether
    · rw [hreceived]
      exact ⟨q, hq, hend⟩
  · rintro ⟨hbegins, hfits, ⟨q, hq, hend⟩, -⟩
    have hsub : (piecesOf (fun i => i = k) received).Sublist (l.pieces k) := piecesOf_sublist hleft
    obtain ⟨priority, d, hd, hcut⟩ := hcut q (hsub.subset hq)
    rw [piecesOf_own] at hfits
    have hall := hcut.fitTogether.bitsOf_eq (hsub.subset hq) hend
    exact ⟨hmem.2 ⟨q, hsub.subset hq, hend⟩,
      hcut.eq_of_sublist hsub hbegins ((hfits.bitsOf_eq hq hend).trans hall.symm)⟩

theorem isWhole_or_isPatched_iff {queue : List (Nat × Outgoing)} (hbalanced : l.IsBalanced queue)
    (hleft : received.Sublist l.emitted) {k : Nat} :
    IsWhole l received k ∨ IsPatched l.accepted received k ↔
      ∃ j, k ≤ j ∧ IsCompleted l.accepted received k j := by
  rw [isWhole_iff_isCompleted hbalanced hleft]
  constructor
  · rintro (hk | ⟨j, hlt, hj⟩)
    · exact ⟨k, Nat.le_refl k, hk⟩
    · exact ⟨j, Nat.le_of_lt hlt, hj⟩
  · rintro ⟨j, hle, hj⟩
    rcases Nat.lt_or_eq_of_le hle with hlt | rfl
    · exact Or.inr ⟨j, hlt, hj⟩
    · exact Or.inl hj

/-! ### Accepting -/

theorem Follows.accept (h : Follows l received held delivered numbers)
    {queue : List (Nat × Outgoing)} (hbalanced : l.IsBalanced queue) (datagram : Datagram)
    (priority : Nat) :
    Follows (l.accept datagram priority) received held delivered numbers := by
  have hsame : ∀ {k : Nat}, piecesOf (fun i => i = k) received ≠ [] →
      (l.accept datagram priority).accepted[k]? = l.accepted[k]? := by
    intro k hne
    obtain ⟨q, hq⟩ := List.exists_mem_of_ne_nil _ hne
    obtain ⟨m, hm, e, howner, rfl, -⟩ := mem_piecesOf.1 hq
    obtain ⟨priority, i, d, hi, hd, -⟩ := hbalanced.owned m (h.left.subset hm)
    cases howner.symm.trans hi
    exact List.getElem?_append_left (List.getElem?_eq_some_iff.1 hd).1
  have hcompleted : ∀ k j, IsCompleted (l.accept datagram priority).accepted received k j ↔
      IsCompleted l.accepted received k j := by
    intro k j
    constructor
    · rintro ⟨hbegins, hfits, ⟨q, hq, hend⟩, hlength⟩
      rw [hsame hbegins, hsame (List.ne_nil_of_mem hq)] at hlength
      exact ⟨hbegins, hfits, ⟨q, hq, hend⟩, hlength⟩
    · rintro ⟨hbegins, hfits, ⟨q, hq, hend⟩, hlength⟩
      rw [← hsame hbegins, ← hsame (List.ne_nil_of_mem hq)] at hlength
      exact ⟨hbegins, hfits, ⟨q, hq, hend⟩, hlength⟩
  have hjoined : ∀ p k, IsJoined (l.accept datagram priority).accepted received p k ↔
      IsJoined l.accepted received p k := by
    intro p k
    constructor
    · rintro ⟨hdatagram, hbegins, hfits, hbits⟩
      exact ⟨hsame hbegins ▸ hdatagram, hbegins, hfits, hbits⟩
    · rintro ⟨hdatagram, hbegins, hfits, hbits⟩
      exact ⟨(hsame hbegins).symm ▸ hdatagram, hbegins, hfits, hbits⟩
  refine ⟨h.reached, h.sorted, h.left, h.increasing, ?_, fun k => ?_, fun p => ?_⟩
  · refine h.delivered.imp fun d k hd => ?_
    obtain ⟨e, he, rfl⟩ := Option.map_eq_some_iff.1 hd
    exact congrArg _ ((List.getElem?_append_left (List.getElem?_eq_some_iff.1 he).1).trans he)
  · simp only [hcompleted]
    exact h.handedUp k
  · simp only [hjoined]
    exact h.held p

/-! ### Emitting -/

variable {c : Nat} {d : Datagram} {piece : Fragment × Segment}

theorem Ledger.Serves.owner_record (hs : l.Serves c d piece) :
    ∃ priority, (l.record piece).owner = some (priority, c) := by
  obtain ⟨priority, rest, hwaiting, -⟩ := hs.waiting
  exact ⟨priority, congrArg List.head? hwaiting⟩

theorem Ledger.Serves.piecesOf_record (hs : l.Serves c d piece) (which : Nat → Prop)
    [DecidablePred which] (hwhich : which c) :
    piecesOf which (received ++ [l.record piece]) = piecesOf which received ++ [piece] := by
  obtain ⟨priority, howner⟩ := hs.owner_record
  rw [piecesOf_concat howner, if_pos hwhich]
  rfl

theorem Ledger.Serves.piecesOf_record_of_not (hs : l.Serves c d piece) (which : Nat → Prop)
    [DecidablePred which] (hwhich : ¬ which c) :
    piecesOf which (received ++ [l.record piece]) = piecesOf which received := by
  obtain ⟨priority, howner⟩ := hs.owner_record
  rw [piecesOf_concat howner, if_neg hwhich, List.append_nil]

theorem Ledger.Serves.mem_record (hs : l.Serves c d piece) (which : Nat → Prop)
    [DecidablePred which] (hwhich : which c) :
    piece ∈ piecesOf which (received ++ [l.record piece]) := by
  rw [hs.piecesOf_record which hwhich]
  exact List.mem_append_right _ (List.mem_singleton_self _)

theorem Follows.reached_emit (h : Follows l received held delivered numbers)
    (hs : l.Serves c d piece) :
    (∀ m ∈ (l.emit piece).emitted, ∀ e, m.owner = some e →
      e.2 ≤ (l.emit piece).finished.length) ∧
    IsSorted (l.emit piece).emitted := by
  obtain ⟨priority, howner⟩ := hs.owner_record
  have hle : c ≤ (l.emit piece).finished.length := by
    rw [hs.finished_emit]
    split <;> omega
  have hnumber := hs.number
  refine ⟨fun m hm e he => ?_, List.pairwise_append.2 ⟨h.sorted, List.pairwise_singleton _ _, ?_⟩⟩
  · rcases List.mem_append.1 hm with hm | hm
    · have := h.reached m hm e he
      omega
    · rw [List.mem_singleton.1 hm, howner] at he
      cases he
      exact hle
  · intro m hm n hn e he f hf
    rw [List.mem_singleton.1 hn, howner] at hf
    cases hf
    exact hnumber ▸ h.reached m hm e he

/-- **A segment is lost.** -/
theorem Follows.lose (h : Follows l received held delivered numbers) (hs : l.Serves c d piece) :
    Follows (l.emit piece) received held delivered numbers :=
  ⟨(h.reached_emit hs).1, (h.reached_emit hs).2, h.left.trans (List.sublist_append_left _ _),
    h.increasing, h.delivered, h.handedUp, h.held⟩

/-! ### Hearing -/

/-- There is one datagram from which on what was received fits together. -/
theorem IsJoined.not_lt {accepted : List (Nat × Datagram)} (hsorted : IsSorted received)
    {p q : Partial} {k i : Nat} (hk : IsJoined accepted received p k)
    (hi : IsJoined accepted received q i) : ¬ k < i := by
  intro hlt
  have hfits := hk.fits
  rw [piecesOf_split hsorted] at hfits
  obtain ⟨first, hfirst, hstart⟩ := hi.fits.exists_start (piecesOf_from_ne_nil hi.begins)
  have hnot := hfits.start_false hk.begins first
    (mem_piecesOf_of_imp (fun _ => Nat.lt_of_lt_of_le hlt) hfirst)
  rw [hstart] at hnot
  cases hnot

theorem Ledger.Serves.isCompleted_record_iff (hs : l.Serves c d piece)
    {accepted : List (Nat × Datagram)} {k j : Nat} (hkj : k ≤ j) (hjc : j < c) :
    IsCompleted accepted (received ++ [l.record piece]) k j ↔ IsCompleted accepted received k j := by
  have hbegins : piecesOf (fun i => i = k) (received ++ [l.record piece]) = _ :=
    hs.piecesOf_record_of_not _ (by omega)
  have hfits : piecesOf (fun i => k ≤ i ∧ i ≤ j) (received ++ [l.record piece]) = _ :=
    hs.piecesOf_record_of_not _ (by omega)
  have hends : piecesOf (fun i => i = j) (received ++ [l.record piece]) = _ :=
    hs.piecesOf_record_of_not _ (by omega)
  constructor
  · exact fun hj => ⟨hbegins ▸ hj.begins, hfits ▸ hj.fits, hends ▸ hj.ends, hj.length⟩
  · exact fun hj => ⟨hbegins.symm ▸ hj.begins, hfits.symm ▸ hj.fits, hends.symm ▸ hj.ends, hj.length⟩

section Hear

variable (h : Follows l received held delivered numbers) (hs : l.Serves c d piece)
include h hs

theorem Follows.le_of_mem : ∀ m ∈ received ++ [l.record piece], ∀ e, m.owner = some e → e.2 ≤ c := by
  intro m hm e he
  rcases List.mem_append.1 hm with hm | hm
  · exact hs.number ▸ h.reached m (h.left.subset hm) e he
  · obtain ⟨priority, howner⟩ := hs.owner_record
    rw [List.mem_singleton.1 hm, howner] at he
    cases he
    exact Nat.le_refl c

theorem Follows.le_of_ne_nil {k : Nat}
    (hne : piecesOf (fun i => i = k) (received ++ [l.record piece]) ≠ []) : k ≤ c := by
  obtain ⟨q, hq⟩ := List.exists_mem_of_ne_nil _ hne
  obtain ⟨m, hm, e, howner, rfl, -⟩ := mem_piecesOf.1 hq
  exact h.le_of_mem hs m hm e howner

theorem Follows.piecesOf_served :
    piecesOf (fun i => c ≤ i) received = piecesOf (fun i => i = c) received := by
  refine piecesOf_congr fun m hm e he => ?_
  have := h.le_of_mem hs m (List.mem_append_left _ hm) e he
  omega

theorem Follows.finish_false {q : Fragment × Segment}
    (hq : q ∈ piecesOf (fun i => i = c) received) : q.1.finish = false :=
  hs.continues.unfinished q ((piecesOf_sublist h.left).subset hq)

/-- From the datagram on that a segment starts, nothing was received before. -/
theorem Follows.exists_isJoined_iff_of_start (hstart : piece.1.start = true) (p : Partial) :
    (∃ k, IsJoined l.accepted (received ++ [l.record piece]) p k) ↔ p = ⟨d, piece.2.length⟩ := by
  obtain ⟨priority, -, -, hc⟩ := hs.waiting
  constructor
  · rintro ⟨k, hdatagram, hne, hfits, hbits⟩
    have hkc := h.le_of_ne_nil hs hne
    rw [hs.piecesOf_record _ hkc] at hfits hbits
    have hnil := (fitTogether_concat_iff.1 hfits).2.start.1 hstart
    obtain rfl : c = k := by
      by_contra hk
      rw [hs.piecesOf_record_of_not _ hk] at hne
      exact piecesOf_from_ne_nil hne hnil
    rw [hc] at hdatagram
    rw [hnil, bitsOf_concat] at hbits
    obtain ⟨datagram, n⟩ := p
    cases hdatagram
    exact congrArg _ (hbits.symm.trans (Nat.zero_add _))
  · rintro rfl
    have hnil : piecesOf (fun i => c ≤ i) received = [] := by
      have hsub : (piecesOf (fun i => i = c) received).Sublist (l.pieces c) :=
        piecesOf_sublist h.left
      rw [hs.continues.start.1 hstart] at hsub
      rw [h.piecesOf_served hs, List.sublist_nil.1 hsub]
    have hoffset : piece.2.offset = 0 := by
      rw [hs.continues.offset, hs.continues.start.1 hstart]
      rfl
    refine ⟨c, congrArg _ hc, List.ne_nil_of_mem (hs.mem_record (fun i => i = c) rfl), ?_, ?_⟩
    · rw [hs.piecesOf_record _ (Nat.le_refl c), hnil]
      exact .more .none ⟨hoffset, iff_of_true hstart rfl, fun q hq => by cases hq⟩
    · rw [hs.piecesOf_record _ (Nat.le_refl c), hnil, bitsOf_concat]
      exact Nat.zero_add _

/-- A segment that starts nothing fits behind what the receiver holds, or not at all. -/
theorem Follows.exists_isJoined_iff_of_not_start (hstart : ¬ piece.1.start = true) (p : Partial) :
    (∃ k, IsJoined l.accepted (received ++ [l.record piece]) p k) ↔
      p.received = piece.2.offset + piece.2.length ∧ held = some ⟨p.datagram, piece.2.offset⟩ := by
  constructor
  · rintro ⟨k, hdatagram, hne, hfits, hbits⟩
    have hkc := h.le_of_ne_nil hs hne
    rw [hs.piecesOf_record _ hkc] at hfits hbits
    obtain ⟨hbefore, hpiece⟩ := fitTogether_concat_iff.1 hfits
    rw [bitsOf_concat, ← hpiece.offset] at hbits
    refine ⟨hbits.symm, (h.held _).2
      ⟨k, ⟨hdatagram, ?_, hbefore, hpiece.offset.symm⟩, hpiece.unfinished⟩⟩
    by_cases hk : c = k
    · subst hk
      rw [← h.piecesOf_served hs]
      exact fun hnil => hstart (hpiece.start.2 hnil)
    · rwa [hs.piecesOf_record_of_not _ hk] at hne
  · rintro ⟨hreceived, hheld⟩
    obtain ⟨k, ⟨hdatagram, hne, hfits, hbits⟩, hopen⟩ := (h.held _).1 hheld
    have hgrown := piecesOf_append_ne_nil hne [l.record piece]
    have hkc := h.le_of_ne_nil hs hgrown
    refine ⟨k, hdatagram, hgrown, ?_, ?_⟩
    · rw [hs.piecesOf_record _ hkc]
      exact .more hfits ⟨hbits.symm, iff_of_false hstart (piecesOf_from_ne_nil hne), hopen⟩
    · rw [hs.piecesOf_record _ hkc, bitsOf_concat, hbits, hreceived]

/-- **What fits.** With the segment that comes now, what was received fits together if the segment starts
a datagram, or goes on where the receiver is. -/
theorem Follows.exists_isJoined_iff (p : Partial) :
    (∃ k, IsJoined l.accepted (received ++ [l.record piece]) p k) ↔
      p.received = piece.2.offset + piece.2.length ∧
        (if piece.1.start then some ⟨d, 0⟩ else held) = some ⟨p.datagram, piece.2.offset⟩ := by
  by_cases hstart : piece.1.start = true
  · have hoffset : piece.2.offset = 0 := by
      rw [hs.continues.offset, hs.continues.start.1 hstart]
      rfl
    obtain ⟨datagram, n⟩ := p
    rw [h.exists_isJoined_iff_of_start hs hstart, if_pos hstart, hoffset]
    simp [and_comm, eq_comm]
  · rw [h.exists_isJoined_iff_of_not_start hs hstart, if_neg hstart]

theorem Follows.unfinished_iff {p : Partial} {k : Nat}
    (hk : IsJoined l.accepted (received ++ [l.record piece]) p k) :
    (∀ q ∈ piecesOf (fun i => k ≤ i) (received ++ [l.record piece]), q.1.finish = false) ↔
      piece.1.finish = false := by
  have hfits := hk.fits
  rw [hs.piecesOf_record _ (h.le_of_ne_nil hs hk.begins)] at hfits ⊢
  obtain ⟨-, hpiece⟩ := fitTogether_concat_iff.1 hfits
  constructor
  · exact fun hall => hall piece (List.mem_append_right _ (List.mem_singleton_self _))
  · intro hopen q hq
    rcases List.mem_append.1 hq with hq | hq
    · exact hpiece.unfinished q hq
    · rw [List.mem_singleton.1 hq]
      exact hopen

/-- The end of the datagram that is served completes what was received from some datagram on. -/
theorem Follows.isCompleted_served_iff {k : Nat} :
    IsCompleted l.accepted (received ++ [l.record piece]) k c ↔
      piece.1.finish = true ∧ ∃ p, IsJoined l.accepted (received ++ [l.record piece]) p k ∧
        p.received = p.datagram.bits := by
  obtain ⟨priority, -, -, hc⟩ := hs.waiting
  have hdatagram : (l.accepted[c]?).map Prod.snd = some d := congrArg _ hc
  have hall : piecesOf (fun i => k ≤ i ∧ i ≤ c) (received ++ [l.record piece]) =
      piecesOf (fun i => k ≤ i) (received ++ [l.record piece]) :=
    piecesOf_congr fun m hm e he => and_iff_left (h.le_of_mem hs m hm e he)
  constructor
  · rintro ⟨hne, hfits, ⟨q, hq, hend⟩, a, e, ha, he, hlength⟩
    have hfinish : piece.1.finish = true := by
      rw [hs.piecesOf_record (fun i => i = c) rfl] at hq
      rcases List.mem_append.1 hq with hq | hq
      · rw [h.finish_false hs hq] at hend
        cases hend
      · exact List.mem_singleton.1 hq ▸ hend
    cases hdatagram.symm.trans he
    rw [hall] at hfits
    have hbits := hfits.bitsOf_eq (hs.mem_record _ (h.le_of_ne_nil hs hne)) hfinish
    rw [hs.continues.finish.1 hfinish, ← hlength] at hbits
    exact ⟨hfinish, ⟨a, _⟩, ⟨ha, hne, hfits, rfl⟩, hbits⟩
  · rintro ⟨hfinish, p, ⟨ha, hne, hfits, hbits⟩, hlength⟩
    refine ⟨hne, hall.symm ▸ hfits, ⟨piece, hs.mem_record (fun i => i = c) rfl, hfinish⟩, p.datagram, d, ha, hdatagram,
      ?_⟩
    rw [← hlength, ← hbits, hfits.bitsOf_eq (hs.mem_record _ (h.le_of_ne_nil hs hne)) hfinish]
    exact hs.continues.finish.1 hfinish

/-- **What is completed.** With the segment that comes now a datagram is completed if the segment is an
end, and what was received from that datagram on fits together and has its length. -/
theorem Follows.exists_isCompleted_iff (k : Nat) :
    (∃ j, k ≤ j ∧ IsCompleted l.accepted (received ++ [l.record piece]) k j) ↔
      (∃ j, k ≤ j ∧ IsCompleted l.accepted received k j) ∨
        piece.1.finish = true ∧ ∃ p, IsJoined l.accepted (received ++ [l.record piece]) p k ∧
          p.received = p.datagram.bits := by
  constructor
  · rintro ⟨j, hkj, hj⟩
    obtain ⟨q, hq, -⟩ := hj.ends
    rcases Nat.lt_or_eq_of_le (h.le_of_ne_nil hs (List.ne_nil_of_mem hq)) with hjc | rfl
    · exact Or.inl ⟨j, hkj, (hs.isCompleted_record_iff hkj hjc).1 hj⟩
    · exact Or.inr ((h.isCompleted_served_iff hs).1 hj)
  · rintro (⟨j, hkj, hj⟩ | hserved)
    · obtain ⟨q, hq, hend⟩ := hj.ends
      have hjc := h.le_of_ne_nil hs
        (piecesOf_append_ne_nil (List.ne_nil_of_mem hq) [l.record piece])
      rcases Nat.lt_or_eq_of_le hjc with hjc | rfl
      · exact ⟨j, hkj, (hs.isCompleted_record_iff hkj hjc).2 hj⟩
      · rw [h.finish_false hs hq] at hend
        cases hend
    · have hc := (h.isCompleted_served_iff hs).2 hserved
      exact ⟨c, h.le_of_ne_nil hs hc.begins, hc⟩

end Hear

theorem Continues.extend {before : List (Fragment × Segment)} (h : Continues d before piece)
    (held : Option Partial) : Partial.extend held piece.1 piece.2 =
      .ok (match if piece.1.start then some ⟨d, 0⟩ else held with
        | none => (none, none)
        | some p =>
          if p.received ≠ piece.2.offset then (none, none)
          else if piece.1.finish then
            (if piece.2.offset + piece.2.length = p.datagram.bits then some p.datagram else none, none)
          else (none, some { p with received := piece.2.offset + piece.2.length })) := by
  have hsum : checkedSum piece.2.offset piece.2.length = .ok (piece.2.offset + piece.2.length) := by
    rw [checkedSum, if_pos (Word.fits_iff.2 (Nat.le_trans h.within d.bits_le))]
  rw [Partial.extend, h.datagram]
  generalize (if piece.1.start then some ⟨d, 0⟩ else held : Option Partial) = now
  cases now with
  | none => rfl
  | some p =>
    by_cases hoffset : p.received = piece.2.offset
    · simp only [hoffset, ne_eq, not_true_eq_false, if_false, hsum, bind, Except.bind]
      cases piece.1.finish <;> rfl
    · simp only [ne_eq, hoffset, not_false_eq_true, if_true]

theorem Follows.emit (h : Follows l received held delivered numbers) (hs : l.Serves c d piece)
    {last : Option Partial} {complete : Option Datagram} {new : List Nat}
    (hnew : new.Pairwise (· < ·)) (hlater : ∀ i ∈ numbers, ∀ k ∈ new, i < k)
    (hcomplete : List.Forall₂ (fun a k => (l.accepted[k]?).map Prod.snd = some a)
      complete.toList new)
    (hhandedUp : ∀ k, k ∈ new ↔ piece.1.finish = true ∧
      ∃ p, IsJoined l.accepted (received ++ [l.record piece]) p k ∧ p.received = p.datagram.bits)
    (hheld : ∀ p, last = some p ↔ piece.1.finish = false ∧
      ∃ k, IsJoined l.accepted (received ++ [l.record piece]) p k) :
    Follows (l.emit piece) (received ++ [l.record piece]) last (delivered ++ complete.toList)
      (numbers ++ new) := by
  refine ⟨(h.reached_emit hs).1, (h.reached_emit hs).2, h.left.append (.refl _),
    List.pairwise_append.2 ⟨h.increasing, hnew, hlater⟩, List.rel_append h.delivered hcomplete,
    fun k => ?_, fun p => ?_⟩
  · rw [List.mem_append, h.handedUp, hhandedUp]
    exact (h.exists_isCompleted_iff hs k).symm
  · rw [hheld]
    constructor
    · rintro ⟨hopen, k, hk⟩
      exact ⟨k, hk, (h.unfinished_iff hs hk).2 hopen⟩
    · rintro ⟨k, hk, hall⟩
      exact ⟨(h.unfinished_iff hs hk).1 hall, k, hk⟩

/-- A datagram that was completed before comes before the one from which on what was received fits. -/
theorem Follows.lt_of_mem (h : Follows l received held delivered numbers) (hs : l.Serves c d piece)
    {p : Partial} {k : Nat} (hk : IsJoined l.accepted (received ++ [l.record piece]) p k) :
    ∀ i ∈ numbers, i < k := by
  intro i hi
  obtain ⟨j, hij, hj⟩ := (h.handedUp i).1 hi
  obtain ⟨q, hq, hend⟩ := hj.ends
  refine Nat.lt_of_not_le fun hle => ?_
  have hfits := hk.fits
  rw [hs.piecesOf_record _ (h.le_of_ne_nil hs hk.begins)] at hfits
  have hmem : q ∈ piecesOf (fun i => k ≤ i) received :=
    mem_piecesOf_of_imp (by omega) hq
  have hopen := (fitTogether_concat_iff.1 hfits).2.unfinished q hmem
  rw [hend] at hopen
  cases hopen

/-- **One segment** is received: the receiver drops what it holds, goes on, or hands a datagram up. -/
theorem Follows.hear (h : Follows l received held delivered numbers) (hs : l.Serves c d piece) :
    ∃ complete last new, Partial.extend held piece.1 piece.2 = .ok (complete, last) ∧
      Follows (l.emit piece) (received ++ [l.record piece]) last (delivered ++ complete.toList)
        (numbers ++ new) := by
  have hjoined := h.exists_isJoined_iff hs
  rw [hs.continues.extend]
  generalize (if piece.1.start then some ⟨d, 0⟩ else held : Option Partial) = now at hjoined ⊢
  by_cases hnow : ∃ a, now = some ⟨a, piece.2.offset⟩
  · obtain ⟨a, rfl⟩ := hnow
    obtain ⟨k, hk⟩ := (hjoined ⟨a, piece.2.offset + piece.2.length⟩).2 ⟨rfl, rfl⟩
    have hone : ∀ {p i}, IsJoined l.accepted (received ++ [l.record piece]) p i →
        p = ⟨a, piece.2.offset + piece.2.length⟩ := by
      intro p i hi
      obtain ⟨hreceived, hsame⟩ := (hjoined p).1 ⟨i, hi⟩
      cases hsame
      rw [← hreceived]
    simp only [ne_eq, not_true_eq_false, if_false]
    cases hend : piece.1.finish with
    | false =>
      refine ⟨none, _, [], rfl, h.emit hs .nil (fun _ _ _ hi => by cases hi) .nil ?_ ?_⟩
      · simp [hend]
      · intro p
        constructor
        · intro hp
          cases hp
          exact ⟨hend, k, hk⟩
        · rintro ⟨-, i, hi⟩
          rw [hone hi]
    | true =>
      have hheld : ∀ p, none = some p ↔ piece.1.finish = false ∧
          ∃ i, IsJoined l.accepted (received ++ [l.record piece]) p i := by simp [hend]
      by_cases hlength : piece.2.offset + piece.2.length = a.bits
      · refine ⟨some a, none, [k], by simp [hlength], h.emit hs (List.pairwise_singleton _ _) ?_
          (.cons hk.datagram .nil) (fun i => ?_) hheld⟩
        · intro i hi j hj
          rw [List.mem_singleton.1 hj]
          exact h.lt_of_mem hs hk i hi
        · have hsorted : IsSorted (received ++ [l.record piece]) :=
            (h.reached_emit hs).2.sublist (h.left.append (.refl _))
          rw [List.mem_singleton]
          constructor
          · rintro rfl
            exact ⟨hend, _, hk, hlength⟩
          · rintro ⟨-, p, hp, -⟩
            exact Nat.le_antisymm (Nat.le_of_not_lt (hk.not_lt hsorted hp))
              (Nat.le_of_not_lt (hp.not_lt hsorted hk))
      · refine ⟨none, none, [], by simp [hlength], h.emit hs .nil (fun _ _ _ hi => by cases hi) .nil
          (fun i => iff_of_false List.not_mem_nil ?_) hheld⟩
        rintro ⟨-, p, hp, hbits⟩
        rw [hone hp] at hbits
        exact hlength hbits
  · have hnone : ∀ p i, ¬ IsJoined l.accepted (received ++ [l.record piece]) p i :=
      fun p i hi => hnow ⟨_, ((hjoined p).1 ⟨i, hi⟩).2⟩
    refine ⟨none, none, [], ?_, h.emit hs .nil (fun _ _ _ hi => by cases hi) .nil
      (fun i => iff_of_false List.not_mem_nil fun ⟨_, p, hp, _⟩ => hnone p i hp)
      (fun p => iff_of_false (Option.some_ne_none p).symm fun ⟨_, i, hi⟩ => hnone p i hi)⟩
    cases now with
    | none => rfl
    | some q =>
      have hoffset : q.received ≠ piece.2.offset := fun heq => hnow ⟨q.datagram, heq ▸ rfl⟩
      simp [hoffset]

/-! ### Packets -/

namespace Ledger

/-- The records of the segments of a packet. -/
def records (l : Ledger) : List (Fragment × Segment) → List Emission
  | [] => []
  | piece :: rest => l.record piece :: (l.emit piece).records rest

/-- Each piece comes next when those before it have left. -/
def ServesAll (l : Ledger) : List (Fragment × Segment) → Prop
  | [] => True
  | piece :: rest => (∃ c d, l.Serves c d piece) ∧ (l.emit piece).ServesAll rest

theorem IsBalanced.servesAll {queue : List (Nat × Outgoing)} (header room : Nat)
    (h : l.IsBalanced queue) {priority : Nat} (hsingle : ∀ e ∈ l.accepted, e.1 = priority) :
    l.ServesAll (DataLink.cut header room queue).1 := by
  induction queue generalizing l room with
  | nil => trivial
  | cons item rest ih =>
    obtain ⟨p, o⟩ := item
    rw [DataLink.cut]
    split
    · trivial
    · next hneed =>
      have hroom := Outgoing.left_or_room hneed
      obtain ⟨c, hs⟩ := h.serves hsingle hroom
      have hemit := h.emit hroom
      split
      · next hle =>
        rw [if_pos hle] at hemit
        exact ⟨⟨c, _, hs⟩, ih _ hemit hsingle⟩
      · exact ⟨⟨c, _, hs⟩, trivial⟩

end Ledger

theorem Follows.lose_all (h : Follows l received held delivered numbers)
    {pieces : List (Fragment × Segment)} (hall : l.ServesAll pieces) :
    Follows (l.emitAll pieces) received held delivered numbers := by
  induction pieces generalizing l with
  | nil => exact h
  | cons piece rest ih =>
    obtain ⟨⟨c, d, hs⟩, hrest⟩ := hall
    exact ih (h.lose hs) hrest

theorem Follows.hear_all (h : Follows l received held delivered numbers)
    {pieces : List (Fragment × Segment)} (hall : l.ServesAll pieces) :
    ∃ complete last new, Partial.absorb held pieces = .ok (complete, last) ∧
      Follows (l.emitAll pieces) (received ++ l.records pieces) last (delivered ++ complete)
        (numbers ++ new) := by
  induction pieces generalizing l received held delivered numbers with
  | nil =>
    refine ⟨[], held, [], rfl, ?_⟩
    rw [Ledger.records, List.append_nil, List.append_nil, List.append_nil]
    exact h
  | cons piece rest ih =>
    obtain ⟨⟨c, d, hs⟩, hrest⟩ := hall
    obtain ⟨first, now, new, hfirst, hnow⟩ := h.hear hs
    obtain ⟨complete, last, more, hothers, hlast⟩ := ih hnow hrest
    refine ⟨first.toList ++ complete, last, new ++ more, ?_, ?_⟩
    · obtain ⟨fragment, segment⟩ := piece
      rw [Partial.absorb, hfirst]
      simp only [bind, Except.bind, hothers]
      rfl
    · rw [List.append_assoc, List.append_assoc, List.append_assoc] at hlast
      exact hlast

/-! ## A broadcast with losses -/

/-- A datagram is to be broadcast, or a packet is asked for, which may be lost. -/
inductive LossyEvent where
  | accept (datagram : Datagram)
  | request (bits frame : Nat) (isLost : Bool)
deriving DecidableEq

/-- An RLC that broadcasts and one that receives, the ledger of the broadcasts, and the records of the
segments that were received. -/
structure Lossy (β : Type) where
  sender : Inside SegmentingRlc (Ends β)
  receiver : Inside SegmentingRlc (Ends Unit)
  ledger : Ledger
  received : List Emission

namespace Lossy

variable {β : Type} [ArqBelow β]

/-- Both RLCs as they are made, over any surroundings. -/
def start (sending receiving : Nat) (below : β) : Lossy β :=
  ⟨⟨.empty sending, .empty below⟩, ⟨.empty receiving, .empty ()⟩, .empty, []⟩

/-- One event. A packet that is not lost is signed by `source` and taken in by the receiver. -/
def step (source : Address) (priority : Nat) (t : Lossy β) : LossyEvent → Lossy β
  | .accept datagram =>
    match SegmentingRlc.accept datagram .broadcast priority t.sender with
    | (.ok (), sender) => { t with sender, ledger := t.ledger.accept datagram priority }
    | (.error _, sender) => { t with sender }
  | .request bits frame isLost =>
    match SegmentingRlc.requestBurst bits .broadcast frame t.sender with
    | (.ok packet, sender) =>
      let pieces := (SegmentingRlc.segmentsOf packet).map Prod.snd
      { sender
        ledger := t.ledger.emitAll pieces
        receiver :=
          if isLost then t.receiver
          else (SegmentingRlc.receive (packet.sign source) t.receiver).2
        received := if isLost then t.received else t.received ++ t.ledger.records pieces }
    | (.error _, sender) => { t with sender }

def run (source : Address) (priority : Nat) (t : Lossy β) (events : List LossyEvent) : Lossy β :=
  events.foldl (step source priority) t

/-- The datagrams that were handed up, each with who sent it. -/
def inbox (t : Lossy β) : List (Address × Datagram) := t.receiver.around.net.inbox

/-- What holds between the two ends after every event. -/
structure Inv (source : Address) (priority : Nat) (t : Lossy β) : Prop where
  injected : t.sender.layer.injected = .empty
  balanced : t.ledger.IsBalanced (t.sender.layer.queue .broadcast).items
  single : ∀ e ∈ t.ledger.accepted, e.1 = priority
  follows : ∃ delivered numbers, t.inbox = delivered.map (fun d => (source, d)) ∧
    Follows t.ledger t.received (t.receiver.layer.streams.get? ⟨source, .broadcast⟩) delivered numbers

variable {source : Address} {priority : Nat} {t : Lossy β}

omit [ArqBelow β] in
theorem inv_start (source : Address) (priority sending receiving : Nat) (below : β) :
    Inv source priority (start sending receiving below) where
  injected := rfl
  balanced := Ledger.isBalanced_empty
  single e he := by cases he
  follows := ⟨[], [], rfl, follows_empty⟩

theorem inv_accept (h : Inv source priority t) (datagram : Datagram) :
    Inv source priority (t.step source priority (.accept datagram)) := by
  rw [step]
  rcases SegmentingRlc.accept_cases datagram .broadcast priority t.sender with
    ⟨around, hacc⟩ | ⟨e, around, hacc⟩
  · obtain ⟨delivered, numbers, hinbox, hfollows⟩ := h.follows
    rw [hacc]
    refine ⟨h.injected, ?_, ?_, delivered, numbers, hinbox,
      hfollows.accept h.balanced datagram priority⟩
    · show Ledger.IsBalanced _ ((t.sender.layer.enqueue datagram .broadcast priority).queue
        .broadcast).items
      rw [SegmentingRlc.queue_enqueue, if_pos rfl]
      exact h.balanced.accept datagram priority
    · intro e he
      rcases List.mem_append.1 he with he | he
      · exact h.single e he
      · rw [List.mem_singleton.1 he]
  · rw [hacc]
    exact ⟨h.injected, h.balanced, h.single, h.follows⟩

omit [ArqBelow β] in
theorem receive_packed_eq (h : Inv source priority t) {pieces : List (Fragment × Segment)}
    (hall : t.ledger.ServesAll pieces) :
    ∃ delivered numbers,
      (SegmentingRlc.receive ((SegmentingRlc.packed .broadcast pieces).sign source)
        t.receiver).2.around.net.inbox = delivered.map (fun d => (source, d)) ∧
      Follows (t.ledger.emitAll pieces) (t.received ++ t.ledger.records pieces)
        ((SegmentingRlc.receive ((SegmentingRlc.packed .broadcast pieces).sign source)
          t.receiver).2.layer.streams.get? ⟨source, .broadcast⟩) delivered numbers := by
  obtain ⟨delivered, numbers, hinbox, hfollows⟩ := h.follows
  obtain ⟨complete, last, new, habsorb, hafter⟩ := hfollows.hear_all hall
  obtain ⟨after, hstreams, hget⟩ := Reassembly.absorb_channel habsorb
  refine ⟨delivered ++ complete, numbers ++ new, ?_, ?_⟩
  · rw [SegmentingRlc.receive_packed rfl hstreams, List.map_append, ← hinbox]
    rfl
  · rw [SegmentingRlc.receive_packed rfl hstreams]
    show Follows _ _ (after.get? _) _ _
    rw [hget, if_pos rfl]
    exact hafter

theorem inv_request (h : Inv source priority t) (bits frame : Nat) (isLost : Bool) :
    Inv source priority (t.step source priority (.request bits frame isLost)) := by
  obtain ⟨delivered, numbers, hinbox, hfollows⟩ := h.follows
  rw [step]
  by_cases hbits : bits < Width.base
  · -- No packet has room for a base header: an empty one goes over, which says nothing.
    have hreq : SegmentingRlc.requestBurst bits .broadcast frame t.sender = (.ok .empty, t.sender) :=
      SegmentingRlc.requestBurst_of_lt hbits .broadcast frame t.sender
    have hnothing : Reassembly.absorb (Packet.empty.sign source).origin [] t.receiver.layer.streams =
        .ok ([], t.receiver.layer.streams) := rfl
    have hrec := SegmentingRlc.receive_apply (Packet.empty.sign source) t.receiver hnothing
    simp only [hreq, hrec]
    refine ⟨h.injected, h.balanced, h.single, delivered, numbers, ?_, ?_⟩
    · cases isLost
      · exact (List.append_nil _).trans hinbox
      · exact hinbox
    · cases isLost
      · exact (List.append_nil t.received).symm ▸ hfollows
      · exact hfollows
  · have hinjected : (t.sender.layer.injectedFor .broadcast).items = [] := by
      simp [SegmentingRlc.injectedFor, h.injected, PriorityQueue.empty]
    have hall : t.ledger.ServesAll (t.sender.layer.cutFor bits .broadcast).1 :=
      h.balanced.servesAll _ _ h.single
    have hpieces : (SegmentingRlc.segmentsOf (SegmentingRlc.packed .broadcast
        (t.sender.layer.cutFor bits .broadcast).1)).map Prod.snd =
        (t.sender.layer.cutFor bits .broadcast).1 := by
      rw [SegmentingRlc.segmentsOf_packed, List.map_map]
      exact List.map_id _
    rw [SegmentingRlc.requestBurst_apply frame hbits hinjected (Or.inl (Or.inl rfl))]
    simp only [hpieces]
    refine ⟨h.injected, ?_, ?_, ?_⟩
    · show Ledger.IsBalanced _ ((t.sender.layer.setQueue .broadcast _).queue .broadcast).items
      rw [SegmentingRlc.queue_setQueue, if_pos rfl]
      exact h.balanced.cut_queue _ _
    · show ∀ e ∈ (t.ledger.emitAll (t.sender.layer.cutFor bits .broadcast).1).accepted, _
      rw [Ledger.accepted_emitAll]
      exact h.single
    · cases isLost with
      | true => exact ⟨delivered, numbers, hinbox, hfollows.lose_all hall⟩
      | false => exact receive_packed_eq h hall

theorem inv_step (h : Inv source priority t) (e : LossyEvent) :
    Inv source priority (t.step source priority e) := by
  cases e with
  | accept datagram => exact inv_accept h datagram
  | request bits frame isLost => exact inv_request h bits frame isLost

theorem inv_run (h : Inv source priority t) (events : List LossyEvent) :
    Inv source priority (t.run source priority events) := by
  induction events generalizing t with
  | nil => exact h
  | cons e rest ih => exact ih (inv_step h e)

/-- What was handed up are the datagrams with these numbers: those that are whole or patched, each once
and in order. -/
structure HandsUp (source : Address) (t : Lossy β) (numbers : List Nat) : Prop where
  increasing : numbers.Pairwise (· < ·)
  mem_iff : ∀ k, k ∈ numbers ↔
    IsWhole t.ledger t.received k ∨ IsPatched t.ledger.accepted t.received k
  inbox : List.Forall₂ (fun entry k => entry.1 = source ∧
    (t.ledger.accepted[k]?).map Prod.snd = some entry.2) t.inbox numbers

/-- **Losses.** Whichever packets of a broadcast are lost, the receiver hands up the datagrams that are
whole and those that are patched with the end of a later one, each once and in their order, and nothing
else. -/
theorem inbox_whole_or_patched (source : Address) (priority sending receiving : Nat) (below : β)
    (events : List LossyEvent) :
    ∃ numbers,
      ((start sending receiving below).run source priority events).HandsUp source numbers := by
  have hinv := inv_run (inv_start source priority sending receiving below) events
  obtain ⟨delivered, numbers, hinbox, hfollows⟩ := hinv.follows
  refine ⟨numbers, hfollows.increasing, fun k => ?_, ?_⟩
  · rw [isWhole_or_isPatched_iff hinv.balanced hfollows.left]
    exact hfollows.handedUp k
  · rw [hinbox, List.forall₂_map_left_iff]
    exact hfollows.delivered.imp fun d k hd => ⟨rfl, hd⟩

/-- Two datagrams of four bytes go out in two packets each. The second packet is lost, and so is the
third one. -/
def mixed : List LossyEvent :=
  [.accept ⟨#[1, 2, 3, 4]⟩, .accept ⟨#[5, 6, 7, 8]⟩, .request 83 0 false, .request 99 0 true,
    .request 83 0 true, .request 99 0 false]

/-- A datagram may be handed up although one of its segments was lost. -/
theorem exists_inbox_not_whole : ∃ (events : List LossyEvent) (d : Datagram),
    (⟨1⟩, d) ∈ ((start 256 256 ()).run ⟨1⟩ 0 events).inbox ∧
    ∀ k, ((((start 256 256 ()).run ⟨1⟩ 0 events).ledger.accepted[k]?).map Prod.snd = some d) →
      ¬ IsWhole ((start 256 256 ()).run ⟨1⟩ 0 events).ledger
        ((start 256 256 ()).run ⟨1⟩ 0 events).received k := by
  refine ⟨mixed, ⟨#[1, 2, 3, 4]⟩, by decide +kernel, fun k hk hwhole => ?_⟩
  have haccepted : ((start 256 256 ()).run ⟨1⟩ 0 mixed).ledger.accepted =
      [(0, ⟨#[1, 2, 3, 4]⟩), (0, ⟨#[5, 6, 7, 8]⟩)] := by decide +kernel
  rw [haccepted] at hk
  match k with
  | 0 =>
    have hlength := congrArg List.length hwhole.received
    revert hlength
    decide +kernel
  | 1 => exact absurd hk (by decide)
  | k + 2 => cases hk

end Lossy

end DataLink
