import DataLink.Proofs.Tower
import Mathlib.Data.List.Forall2

/-!
# What becomes of every datagram

An observer looks at one destination: it numbers the datagrams that the RLC accepts for it, keeps them
in the order of service, and notes every segment that leaves. A segment belongs to the datagram that is
served at that time, which is done with once its end has left.

**Theorem (`ledger_isBalanced`).** After every run of an RLC, whatever was accepted, asked for, injected
or received, the ledger is balanced (`Ledger.IsBalanced`): the segments of every datagram are cut from it
one behind the other, and with what is still queued they make it up. Every datagram either waits or has
finished, once. Those of one priority finish in the order in which they were accepted, and no segment
leaves while a datagram of a higher priority waits.

Cutting goes through the queue and the ledger side by side. One segment keeps the balance
(`IsBalanced.emit`), and so does a whole packet (`IsBalanced.cut_queue`), by induction on the queue.
-/

namespace DataLink

variable {ε : Type}

/-! ## The pieces of one datagram -/

/-- The bits that the pieces hold together. -/
def bitsOf (pieces : List (Fragment × Segment)) : Nat := Word.total (pieces.map fun p => p.2.length)

theorem bitsOf_concat (pieces : List (Fragment × Segment)) (piece : Fragment × Segment) :
    bitsOf (pieces ++ [piece]) = bitsOf pieces + piece.2.length := by
  rw [bitsOf, List.map_append, Word.total_append]
  rfl

/-- The piece is the one that comes after `before` when the datagram is cut. -/
structure Continues (d : Datagram) (before : List (Fragment × Segment))
    (piece : Fragment × Segment) : Prop where
  datagram : piece.2.datagram = d
  offset : piece.2.offset = bitsOf before
  within : piece.2.offset + piece.2.length ≤ d.bits
  /-- Only an empty datagram has an empty piece. -/
  nonempty : piece.2.length = 0 → d.bits = 0
  start : piece.1.start = true ↔ before = []
  finish : piece.1.finish = true ↔ piece.2.offset + piece.2.length = d.bits
  /-- Nothing comes after the end. -/
  unfinished : ∀ p ∈ before, p.1.finish = false

/-- The pieces are the first ones of a datagram, or all. -/
inductive IsCutInto (d : Datagram) : List (Fragment × Segment) → Prop
  | none : IsCutInto d []
  | more {before : List (Fragment × Segment)} {piece : Fragment × Segment}
      (h : IsCutInto d before) (hpiece : Continues d before piece) : IsCutInto d (before ++ [piece])

/-- As long as the end is missing, so are bits of the datagram; and only where there is no piece there
are no bits. -/
theorem IsCutInto.bitsOf_lt {d : Datagram} {pieces : List (Fragment × Segment)}
    (h : IsCutInto d pieces) (hopen : ∀ p ∈ pieces, p.1.finish = false) :
    pieces = [] ∨ 0 < bitsOf pieces ∧ bitsOf pieces < d.bits := by
  cases h with
  | none => exact Or.inl rfl
  | @more before piece h hpiece =>
    have hfinish : piece.2.offset + piece.2.length ≠ d.bits := by
      rw [ne_eq, ← hpiece.finish, hopen piece (by simp)]
      exact Bool.false_ne_true
    have hlength : piece.2.length ≠ 0 := by
      intro hzero
      have := hpiece.nonempty hzero
      have := hpiece.within
      omega
    have hoffset := hpiece.offset
    have hwithin := hpiece.within
    rw [bitsOf_concat]
    omega

theorem Outgoing.sent_add_left (o : Outgoing) : o.sent + o.left = o.datagram.bits :=
  Nat.add_sub_cancel' o.sent_le

theorem Outgoing.continues {o : Outgoing} {before : List (Fragment × Segment)} {room : Nat}
    (h : IsCutInto o.datagram before) (hopen : ∀ p ∈ before, p.1.finish = false)
    (hsent : bitsOf before = o.sent) (hroom : o.left = 0 ∨ 0 < room) :
    Continues o.datagram before (o.fragment room, o.segment room) := by
  have hbits := h.bitsOf_lt hopen
  have hleft := o.sent_add_left
  refine ⟨rfl, hsent.symm, ?_, ?_, ?_, ?_, hopen⟩
  · show o.sent + min o.left room ≤ o.datagram.bits
    omega
  · intro hlength
    change min o.left room = 0 at hlength
    rcases hbits with rfl | hbits
    · change 0 = o.sent at hsent
      omega
    · omega
  · show decide (o.sent = 0) = true ↔ before = []
    rw [decide_eq_true_eq]
    constructor
    · intro hzero
      exact hbits.resolve_right (by omega)
    · rintro rfl
      exact hsent.symm
  · show decide (o.left ≤ room) = true ↔ o.sent + min o.left room = o.datagram.bits
    rw [decide_eq_true_eq]
    omega

/-- Room that is enough for a segment has a bit for what is left. -/
theorem Outgoing.left_or_room {o : Outgoing} {header room : Nat} (h : ¬ room < o.need header) :
    o.left = 0 ∨ 0 < room - header := by
  rw [need] at h
  split at h
  · next hleft => exact Or.inl hleft
  · exact Or.inr (by omega)

/-! ## The ledger of one destination -/

/-- A segment that has left: the datagram that was served (its priority and number; none if nothing
waited), and the priorities of all datagrams that waited, this one included. -/
structure Emission where
  owner : Option (Nat × Nat)
  piece : Fragment × Segment
  queued : List Nat

/-- The segments of the datagrams with these numbers, in order. -/
def piecesOf (which : Nat → Prop) [DecidablePred which] (emissions : List Emission) :
    List (Fragment × Segment) :=
  emissions.filterMap fun m => m.owner.bind fun e => if which e.2 then some m.piece else none

section PiecesOf

variable {which : Nat → Prop} [DecidablePred which] {emissions : List Emission}

theorem mem_piecesOf {piece : Fragment × Segment} : piece ∈ piecesOf which emissions ↔
    ∃ m ∈ emissions, ∃ e, m.owner = some e ∧ which e.2 ∧ m.piece = piece := by
  simp only [piecesOf, List.mem_filterMap, Option.bind_eq_some_iff]
  constructor
  · rintro ⟨m, hm, e, howner, hpiece⟩
    split at hpiece
    · next hwhich => exact ⟨m, hm, e, howner, hwhich, Option.some.inj hpiece⟩
    · cases hpiece
  · rintro ⟨m, hm, e, howner, hwhich, rfl⟩
    exact ⟨m, hm, e, howner, if_pos hwhich⟩

theorem piecesOf_concat {m : Emission} {e : Nat × Nat} (h : m.owner = some e) :
    piecesOf which (emissions ++ [m]) =
      piecesOf which emissions ++ if which e.2 then [m.piece] else [] := by
  rw [piecesOf, List.filterMap_append, ← piecesOf, List.filterMap_cons, h]
  split
  · next hnone =>
    rw [Option.bind_some, ite_eq_right_iff] at hnone
    rw [if_neg fun hwhich => by cases hnone hwhich]
    rfl
  · next hsome =>
    rw [Option.bind_some, Option.ite_none_right_eq_some] at hsome
    obtain ⟨hwhich, hpiece⟩ := hsome
    rw [if_pos hwhich, Option.some.inj hpiece]
    rfl

end PiecesOf

/-- The datagrams that were accepted, with their priorities, those that wait (priority and number, in
the order of service), and the segments that have left. -/
structure Ledger where
  accepted : List (Nat × Datagram)
  waiting : List (Nat × Nat)
  emitted : List Emission

namespace Ledger

def empty : Ledger := ⟨[], [], []⟩

/-- Notes a datagram. Its number says how many were accepted before. -/
def accept (l : Ledger) (datagram : Datagram) (priority : Nat) : Ledger :=
  { l with
    accepted := l.accepted ++ [(priority, datagram)]
    waiting := PriorityQueue.place priority l.accepted.length l.waiting }

/-- The record of a segment that leaves now, as one of the datagram that is served. -/
def record (l : Ledger) (piece : Fragment × Segment) : Emission :=
  ⟨l.waiting.head?, piece, l.waiting.map Prod.fst⟩

/-- Notes a segment. -/
def emit (l : Ledger) (piece : Fragment × Segment) : Ledger :=
  { l with
    waiting := if piece.1.finish then l.waiting.tail else l.waiting
    emitted := l.emitted ++ [l.record piece] }

def emitAll (l : Ledger) (pieces : List (Fragment × Segment)) : Ledger := pieces.foldl emit l

theorem accepted_emitAll (l : Ledger) (pieces : List (Fragment × Segment)) :
    (l.emitAll pieces).accepted = l.accepted := by
  induction pieces generalizing l with
  | nil => rfl
  | cons piece rest ih => exact ih (l.emit piece)

/-- The segments of one datagram that have left, in order. -/
def pieces (l : Ledger) (number : Nat) : List (Fragment × Segment) :=
  piecesOf (fun k => k = number) l.emitted

/-- The datagrams whose end has left, in order. -/
def finished (l : Ledger) : List (Nat × Nat) :=
  l.emitted.filterMap fun m => if m.piece.1.finish then m.owner else none

/-- The ledger is in balance with what is queued. -/
structure IsBalanced (l : Ledger) (queue : List (Nat × Outgoing)) : Prop where
  /-- The segments of a datagram are cut from it, one behind the other. -/
  cut : ∀ k priority d, l.accepted[k]? = some (priority, d) → IsCutInto d (l.pieces k)
  /-- Every segment is one of an accepted datagram, and of no lower priority than what waited. -/
  owned : ∀ m ∈ l.emitted, ∃ priority k d, m.owner = some (priority, k) ∧
    l.accepted[k]? = some (priority, d) ∧ ∀ p ∈ m.queued, p ≤ priority
  /-- What waits is queued, with what is left of it. -/
  waiting : List.Forall₂ (fun e item => item.1 = e.1 ∧
    l.accepted[e.2]? = some (e.1, item.2.datagram) ∧
    bitsOf (l.pieces e.2) + item.2.left = item.2.datagram.bits) l.waiting queue
  /-- What has finished has left as a whole. -/
  finished : ∀ e ∈ l.finished, ∃ d, l.accepted[e.2]? = some (e.1, d) ∧
    bitsOf (l.pieces e.2) = d.bits
  /-- Every datagram either has finished or waits, once. -/
  once : ((l.finished ++ l.waiting).map Prod.snd).Perm (List.range l.accepted.length)
  /-- Datagrams of one priority finish in the order in which they were accepted. -/
  inOrder : (l.finished ++ l.waiting).Pairwise fun e f => e.1 = f.1 → e.2 < f.2
  /-- Higher priorities are served first. -/
  service : l.waiting.Pairwise fun e f => f.1 ≤ e.1

variable {l : Ledger} {queue : List (Nat × Outgoing)}

theorem isBalanced_empty : empty.IsBalanced [] where
  cut k priority d h := by simp [empty] at h
  owned m h := by simp [empty] at h
  waiting := .nil
  finished e h := by simp [empty, Ledger.finished] at h
  once := .refl _
  inOrder := .nil
  service := .nil

/-! ### Accepting -/

theorem forall₂_place {α β : Type} {R : Nat × α → Nat × β → Prop}
    (hR : ∀ e f, R e f → f.1 = e.1) {as : List (Nat × α)} {bs : List (Nat × β)}
    (h : List.Forall₂ R as bs) {priority : Nat} {a : α} {b : β}
    (hab : R (priority, a) (priority, b)) :
    List.Forall₂ R (PriorityQueue.place priority a as) (PriorityQueue.place priority b bs) := by
  induction h with
  | nil => exact .cons hab .nil
  | @cons e f as bs hef h ih =>
    obtain ⟨p, x⟩ := e
    obtain ⟨q, y⟩ := f
    obtain rfl : q = p := hR _ _ hef
    rw [PriorityQueue.place, PriorityQueue.place]
    split
    · exact .cons hef ih
    · exact .cons hab (.cons hef h)

theorem pairwise_place_number {entries : List (Nat × Nat)} {priority number : Nat}
    (h : entries.Pairwise fun e f => e.1 = f.1 → e.2 < f.2)
    (hservice : entries.Pairwise fun e f => f.1 ≤ e.1) (hnew : ∀ e ∈ entries, e.2 < number) :
    (PriorityQueue.place priority number entries).Pairwise fun e f => e.1 = f.1 → e.2 < f.2 := by
  refine PriorityQueue.pairwise_place_of h hservice (fun e he _ _ => hnew e he) fun e _ hlt heq => ?_
  simp only at heq
  omega

theorem IsBalanced.lt_of_mem (h : l.IsBalanced queue) {e : Nat × Nat}
    (he : e ∈ l.finished ++ l.waiting) : e.2 < l.accepted.length :=
  List.mem_range.1 (h.once.mem_iff.1 (List.mem_map_of_mem he))

theorem IsBalanced.pieces_next (h : l.IsBalanced queue) : l.pieces l.accepted.length = [] := by
  refine List.eq_nil_iff_forall_not_mem.2 fun piece hpiece => ?_
  obtain ⟨m, hm, e, howner, hlast, -⟩ := mem_piecesOf.1 hpiece
  obtain ⟨priority, k, d, hk, hget, -⟩ := h.owned m hm
  cases howner.symm.trans hk
  have := (List.getElem?_eq_some_iff.1 hget).1
  omega

/-- **Accepting** a datagram keeps the balance. -/
theorem IsBalanced.accept (h : l.IsBalanced queue) (datagram : Datagram) (priority : Nat) :
    (l.accept datagram priority).IsBalanced
      (PriorityQueue.place priority (.fresh datagram) queue) := by
  have hold : ∀ {k : Nat} {e : Nat × Datagram}, l.accepted[k]? = some e →
      (l.accepted ++ [(priority, datagram)])[k]? = some e := by
    intro k e he
    rw [List.getElem?_append_left (List.getElem?_eq_some_iff.1 he).1]
    exact he
  have hnew : (l.accepted ++ [(priority, datagram)])[l.accepted.length]? =
      some (priority, datagram) := List.getElem?_concat_length
  have hlt : ∀ e ∈ l.finished ++ l.waiting, e.2 < l.accepted.length := fun e he => h.lt_of_mem he
  have hplace := PriorityQueue.place_perm priority l.accepted.length l.waiting
  obtain ⟨hdone, hwait, hboth⟩ := List.pairwise_append.1 h.inOrder
  refine ⟨?_, ?_, ?_, ?_, ?_, ?_, PriorityQueue.pairwise_place h.service⟩
  · intro k p d hk
    by_cases hlast : k = l.accepted.length
    · subst hlast
      have hnone : (l.accept datagram priority).pieces l.accepted.length = [] := h.pieces_next
      rw [hnone]
      exact .none
    · refine h.cut k p d ?_
      have hle := (List.getElem?_eq_some_iff.1 hk).1
      change k < (l.accepted ++ [(priority, datagram)]).length at hle
      rw [List.length_append, List.length_singleton] at hle
      change (l.accepted ++ [(priority, datagram)])[k]? = _ at hk
      rw [List.getElem?_append_left (by omega)] at hk
      exact hk
  · intro m hm
    obtain ⟨p, k, d, howner, hk, hqueued⟩ := h.owned m hm
    exact ⟨p, k, d, howner, hold hk, hqueued⟩
  · refine forall₂_place (fun e f hef => hef.1) ?_ ⟨rfl, hnew, ?_⟩
    · exact h.waiting.imp fun e item hitem => ⟨hitem.1, hold hitem.2.1, hitem.2.2⟩
    · have hnone : (l.accept datagram priority).pieces l.accepted.length = [] := h.pieces_next
      rw [hnone]
      exact Nat.zero_add _
  · intro e he
    obtain ⟨d, hd, hbits⟩ := h.finished e he
    exact ⟨d, hold hd, hbits⟩
  · show ((l.finished ++ PriorityQueue.place priority l.accepted.length l.waiting).map
      Prod.snd).Perm (List.range (l.accepted ++ [(priority, datagram)]).length)
    rw [List.length_append, List.length_singleton, List.range_succ]
    refine ((hplace.append_left _).map Prod.snd).trans ?_
    refine (List.perm_middle.map Prod.snd).trans ?_
    exact (h.once.cons _).trans (List.perm_append_singleton _ _).symm
  · refine List.pairwise_append.2 ⟨hdone, pairwise_place_number hwait h.service fun e he =>
      hlt e (List.mem_append_right _ he), fun e he f hf => ?_⟩
    rcases List.mem_cons.1 (hplace.mem_iff.1 hf) with rfl | hf
    · exact fun _ => hlt e (List.mem_append_left _ he)
    · exact hboth e he f hf

/-! ### Emitting -/

theorem pieces_emit {e : Nat × Nat} {rest : List (Nat × Nat)} (h : l.waiting = e :: rest)
    (piece : Fragment × Segment) (k : Nat) :
    (l.emit piece).pieces k = l.pieces k ++ if e.2 = k then [piece] else [] := by
  rw [pieces, emit, record, h]
  exact piecesOf_concat rfl

theorem finished_emit {e : Nat × Nat} {rest : List (Nat × Nat)} (h : l.waiting = e :: rest)
    (piece : Fragment × Segment) :
    (l.emit piece).finished ++ (l.emit piece).waiting = l.finished ++ l.waiting ∧
      (l.emit piece).finished = l.finished ++ if piece.1.finish then [e] else [] := by
  have hfinished : (l.emit piece).finished = l.finished ++ if piece.1.finish then [e] else [] := by
    rw [finished, emit, List.filterMap_append, ← finished, record, h]
    cases hfinish : piece.1.finish <;> simp [hfinish]
  refine ⟨?_, hfinished⟩
  rw [hfinished, emit, h]
  cases piece.1.finish <;> simp

/-- The datagram that is served has not finished, and does not wait a second time. -/
theorem IsBalanced.served {priority : Nat} {o : Outgoing} {rest : List (Nat × Outgoing)}
    (h : l.IsBalanced ((priority, o) :: rest)) :
    ∃ k ws, l.waiting = (priority, k) :: ws ∧ l.accepted[k]? = some (priority, o.datagram) ∧
      bitsOf (l.pieces k) = o.sent ∧ (∀ e ∈ l.finished ++ ws, e.2 ≠ k) ∧
      ∀ q ∈ l.pieces k, q.1.finish = false := by
  obtain ⟨⟨p, k⟩, ws, ⟨hpriority, hk, hbits⟩, -, hwaiting⟩ := List.forall₂_cons_right_iff.1 h.waiting
  simp only at hpriority hk hbits
  subst hpriority
  have hnodup : ((l.finished ++ l.waiting).map Prod.snd).Nodup :=
    h.once.nodup_iff.2 List.nodup_range
  rw [hwaiting, List.map_append, List.map_cons, List.perm_middle.nodup_iff,
    ← List.map_append] at hnodup
  have hne : ∀ e ∈ l.finished ++ ws, e.2 ≠ k := by
    rintro e he rfl
    have hmem : e.2 ∈ (l.finished ++ ws).map Prod.snd := List.mem_map_of_mem he
    exact (List.nodup_cons.1 hnodup).1 hmem
  refine ⟨k, ws, hwaiting, hk, ?_, hne, ?_⟩
  · have := o.sent_add_left
    omega
  · intro q hq
    obtain ⟨m, hm, e, howner, rfl, rfl⟩ := mem_piecesOf.1 hq
    rw [← Bool.not_eq_true]
    intro hend
    refine hne e (List.mem_append_left _ (List.mem_filterMap.2 ⟨m, hm, ?_⟩)) rfl
    rw [if_pos hend, howner]

theorem IsBalanced.waiting_emit {item : Nat × Outgoing} {rest : List (Nat × Outgoing)}
    (h : l.IsBalanced (item :: rest)) {served : Nat × Nat} {ws : List (Nat × Nat)}
    (hwaiting : l.waiting = served :: ws) (hne : ∀ e ∈ ws, e.2 ≠ served.2)
    (piece : Fragment × Segment) :
    List.Forall₂ (fun e item => item.1 = e.1 ∧
      l.accepted[e.2]? = some (e.1, item.2.datagram) ∧
      bitsOf ((l.emit piece).pieces e.2) + item.2.left = item.2.datagram.bits) ws rest := by
  have hrest := h.waiting
  rw [hwaiting, List.forall₂_cons] at hrest
  obtain ⟨hlen, hget⟩ := List.forall₂_iff_get.1 hrest.2
  refine List.forall₂_iff_get.2 ⟨hlen, fun i hi hj => ?_⟩
  rw [pieces_emit hwaiting, if_neg (hne _ (List.get_mem ws ⟨i, hi⟩)).symm, List.append_nil]
  exact hget i hi hj

/-- **Emitting** a segment of the datagram that is served keeps the balance. -/
theorem IsBalanced.emit {priority : Nat} {o : Outgoing} {rest : List (Nat × Outgoing)}
    (h : l.IsBalanced ((priority, o) :: rest)) {room : Nat} (hroom : o.left = 0 ∨ 0 < room) :
    (l.emit (o.fragment room, o.segment room)).IsBalanced
      (if o.left ≤ room then rest else (priority, o.advance room) :: rest) := by
  obtain ⟨k, ws, hwaiting, hk, hsent, hne, hopen⟩ := h.served
  have hcontinues := Outgoing.continues (h.cut k priority o.datagram hk) hopen hsent hroom
  have hgrown : bitsOf (l.pieces k ++ [(o.fragment room, o.segment room)]) =
      (o.advance room).sent := by
    rw [bitsOf_concat, hsent]
    rfl
  have hleft : (o.advance room).sent + (o.advance room).left = o.datagram.bits :=
    (o.advance room).sent_add_left
  have hfinish : (o.fragment room).finish = true ↔ o.left ≤ room := decide_eq_true_iff
  generalize o.fragment room = fragment, o.segment room = segment at *
  obtain ⟨hsame, hdone⟩ := finished_emit hwaiting (fragment, segment)
  have hpieces : (l.emit (fragment, segment)).pieces k = l.pieces k ++ [(fragment, segment)] := by
    rw [pieces_emit hwaiting, if_pos rfl]
  have hothers : ∀ j, j ≠ k → (l.emit (fragment, segment)).pieces j = l.pieces j := by
    intro j hj
    rw [pieces_emit hwaiting, if_neg hj.symm, List.append_nil]
  refine ⟨?_, ?_, ?_, ?_, hsame ▸ h.once, hsame ▸ h.inOrder, ?_⟩
  · intro j q d hj
    by_cases heq : j = k
    · subst heq
      cases hk.symm.trans hj
      rw [hpieces]
      exact .more (h.cut j _ _ hj) hcontinues
    · rw [hothers j heq]
      exact h.cut j q d hj
  · intro m hm
    rcases List.mem_append.1 hm with hm | hm
    · exact h.owned m hm
    · rw [List.mem_singleton.1 hm, record, hwaiting]
      refine ⟨priority, k, o.datagram, rfl, hk, fun q hq => ?_⟩
      obtain ⟨e, he, rfl⟩ := List.mem_map.1 hq
      have hservice := hwaiting ▸ h.service
      rcases List.mem_cons.1 he with rfl | he
      · exact Nat.le_refl _
      · exact (List.pairwise_cons.1 hservice).1 e he
  · have hkept := h.waiting_emit hwaiting (fun e he => hne e (List.mem_append_right _ he))
      (fragment, segment)
    show List.Forall₂ _ (if fragment.finish then l.waiting.tail else l.waiting) _
    rw [hwaiting]
    by_cases hle : o.left ≤ room
    · rw [if_pos hle, if_pos (hfinish.2 hle)]
      exact hkept
    · rw [if_neg hle, if_neg (mt hfinish.1 hle)]
      refine .cons ⟨rfl, hk, ?_⟩ hkept
      rw [hpieces, hgrown]
      exact hleft
  · intro e he
    rw [hdone] at he
    rcases List.mem_append.1 he with he | he
    · rw [hothers _ (hne e (List.mem_append_left _ he))]
      exact h.finished e he
    · split at he
      · next hend =>
        rw [List.mem_singleton.1 he]
        refine ⟨o.datagram, hk, ?_⟩
        rw [hpieces, bitsOf_concat, ← hcontinues.offset]
        exact hcontinues.finish.1 hend
      · cases he
  · show List.Pairwise _ (if fragment.finish then l.waiting.tail else l.waiting)
    split
    · exact h.service.sublist (List.tail_sublist _)
    · exact h.service

/-- **Cutting** a packet keeps the balance. -/
theorem IsBalanced.cut_queue (header room : Nat) (h : l.IsBalanced queue) :
    (l.emitAll (DataLink.cut header room queue).1).IsBalanced (DataLink.cut header room queue).2 := by
  induction queue generalizing l room with
  | nil => exact h
  | cons item rest ih =>
    obtain ⟨priority, o⟩ := item
    rw [DataLink.cut]
    split
    · exact h
    · next hneed =>
      have hemit := h.emit (Outgoing.left_or_room hneed)
      split
      · next hle =>
        rw [if_pos hle] at hemit
        exact ih (room - header - o.left) hemit
      · next hle =>
        rw [if_neg hle] at hemit
        exact hemit

end Ledger

/-! ## Requests -/

namespace SegmentingRlc

/-- A control packet is served, if one waits and fits, at the start of a burst. -/
def servesControl (r : SegmentingRlc) (bits : Nat) (dest : Address) (frame : Nat) : Bool :=
  frame = 0 && match r.popInjected bits dest with
    | .ok (some _) => true
    | _ => false

theorem requestBurst_of_servesControl {bits : Nat} {dest : Address} {frame : Nat}
    {s : Inside SegmentingRlc ε} (h : s.layer.servesControl bits dest frame = true) :
    ∃ injected, (requestBurst bits dest frame s).2 =
      { s with layer := { s.layer with injected } } := by
  rw [servesControl, Bool.and_eq_true, decide_eq_true_eq] at h
  obtain ⟨rfl, h⟩ := h
  split at h
  · next served hpop =>
    obtain ⟨packet, after⟩ := served
    by_cases hbits : bits < Width.base
    · exact ⟨s.layer.injected, by rw [requestBurst_of_lt hbits]⟩
    · simp only [requestBurst_eq, hbits, if_false, controlFor, if_true, hpop]
      obtain ⟨-, -, rfl⟩ := popInjected_eq_some hpop
      exact ⟨_, rfl⟩
  · cases h

/-- Where none is served, a packet is filled; or there is no room, or it fails, and nothing changes. -/
theorem requestBurst_of_not_servesControl {bits : Nat} {dest : Address} {frame : Nat}
    {s : Inside SegmentingRlc ε} (h : s.layer.servesControl bits dest frame = false) :
    requestBurst bits dest frame s = (.ok .empty, s) ∨
      (∃ e, requestBurst bits dest frame s = (.error e, s)) ∨
      ∃ packet after, s.layer.fill bits dest = .ok (packet, after) ∧
        requestBurst bits dest frame s = (.ok packet, { s with layer := after }) := by
  by_cases hbits : bits < Width.base
  · exact Or.inl (requestBurst_of_lt hbits dest frame s)
  · right
    simp only [requestBurst_eq, hbits, if_false]
    cases hcontrol : s.layer.controlFor bits dest frame with
    | error e => exact Or.inl ⟨e, rfl⟩
    | ok control =>
      cases control with
      | some served =>
        obtain ⟨hframe, hpop⟩ := controlFor_eq_some_iff.1 hcontrol
        simp [servesControl, hframe, hpop] at h
      | none =>
        cases s.layer.fill bits dest with
        | error e => exact Or.inl ⟨_, rfl⟩
        | ok filled => exact Or.inr ⟨_, _, rfl, rfl⟩

end SegmentingRlc

/-! ## A run -/

/-- What happens to an RLC. -/
inductive RlcEvent where
  | accept (datagram : Datagram) (dest : Address) (priority : Nat)
  | request (bits : Nat) (dest : Address) (frame : Nat)
  | inject (packet : Packet) (priority : Nat)
  | receive (packet : Packet)

/-- An RLC, and the ledger of one destination. -/
structure Audited (ε : Type) where
  rlc : Inside SegmentingRlc ε
  ledger : Ledger

namespace Audited

variable [ArqBelow ε] [NetAbove ε] (dest : Address)

def start (maxQueued : Nat) (around : ε) : Audited ε := ⟨⟨.empty maxQueued, around⟩, .empty⟩

/-- One event. A datagram counts as accepted if the RLC says so, and the segments of a packet count as
those of datagrams unless it is a control packet. -/
def step (t : Audited ε) : RlcEvent → Audited ε
  | .accept datagram id priority =>
    match SegmentingRlc.accept datagram id priority t.rlc with
    | (.ok (), rlc) =>
      ⟨rlc, if id = dest then t.ledger.accept datagram priority else t.ledger⟩
    | (.error _, rlc) => { t with rlc }
  | .request bits id frame =>
    match SegmentingRlc.requestBurst bits id frame t.rlc with
    | (.ok packet, rlc) =>
      ⟨rlc, if id = dest ∧ t.rlc.layer.servesControl bits id frame = false then
        t.ledger.emitAll ((SegmentingRlc.segmentsOf packet).map Prod.snd) else t.ledger⟩
    | (.error _, rlc) => { t with rlc }
  | .inject packet priority =>
    { t with rlc := { t.rlc with layer := t.rlc.layer.inject packet priority } }
  | .receive packet => { t with rlc := (SegmentingRlc.receive packet t.rlc).2 }

def run (t : Audited ε) (events : List RlcEvent) : Audited ε := events.foldl (step dest) t

/-- The ledger is in balance with the queue of the destination. -/
def IsBalanced (t : Audited ε) : Prop :=
  t.ledger.IsBalanced (t.rlc.layer.queue dest).items

variable {dest} {t : Audited ε}

omit [ArqBelow ε] [NetAbove ε] in
theorem IsBalanced.congr (h : t.IsBalanced dest) {rlc : Inside SegmentingRlc ε}
    (hqueue : rlc.layer.queue dest = t.rlc.layer.queue dest) :
    IsBalanced dest { t with rlc } := by
  rw [IsBalanced, hqueue]
  exact h

theorem IsBalanced.accept (h : t.IsBalanced dest) (datagram : Datagram) (id : Address)
    (priority : Nat) : (t.step dest (.accept datagram id priority)).IsBalanced dest := by
  rw [step]
  rcases SegmentingRlc.accept_cases datagram id priority t.rlc with
    ⟨around, hacc⟩ | ⟨error, around, hacc⟩
  · rw [hacc]
    simp only
    rw [IsBalanced]
    simp only
    rw [SegmentingRlc.queue_enqueue]
    by_cases hid : id = dest
    · subst hid
      rw [if_pos rfl, if_pos rfl]
      exact Ledger.IsBalanced.accept h datagram priority
    · rw [if_neg hid, if_neg hid]
      exact h
  · rw [hacc]
    exact h

theorem IsBalanced.request (h : t.IsBalanced dest) (hdest : SegmentingRlc.IsCarried dest)
    (bits : Nat) (id : Address) (frame : Nat) :
    (t.step dest (.request bits id frame)).IsBalanced dest := by
  rw [step]
  cases hcontrol : t.rlc.layer.servesControl bits id frame with
  | true =>
    obtain ⟨injected, hafter⟩ := SegmentingRlc.requestBurst_of_servesControl hcontrol
    generalize SegmentingRlc.requestBurst bits id frame t.rlc = answer at hafter
    obtain ⟨_ | packet, rlc⟩ := answer
    · cases hafter
      exact h
    · cases hafter
      simp only [Bool.true_eq_false, and_false, if_false]
      exact h
  | false =>
    rcases SegmentingRlc.requestBurst_of_not_servesControl hcontrol with
      hnone | ⟨e, herror⟩ | ⟨packet, after, hfill, hfilled⟩
    · rw [hnone]
      simp only [and_true]
      split <;> exact h
    · rw [herror]
      exact h
    · obtain rfl := SegmentingRlc.fill_eq_ok hfill
      rw [hfilled]
      simp only [and_true]
      rw [IsBalanced]
      simp only
      rw [SegmentingRlc.queue_setQueue]
      by_cases hid : id = dest
      · subst hid
        rw [SegmentingRlc.fill_eq hdest] at hfill
        cases hfill
        rw [if_pos rfl, if_pos rfl, SegmentingRlc.segmentsOf_packed, List.map_map]
        have hpieces : (t.rlc.layer.cutFor bits id).1.map
            (Prod.snd ∘ fun p => (SegmentingRlc.channelOf id, p.1, p.2)) =
            (t.rlc.layer.cutFor bits id).1 := List.map_id _
        rw [hpieces]
        exact Ledger.IsBalanced.cut_queue (SegmentingRlc.headerWidth id) (bits - Width.base) h
      · rw [if_neg hid, if_neg hid]
        exact h

theorem IsBalanced.step (h : t.IsBalanced dest) (hdest : SegmentingRlc.IsCarried dest)
    (e : RlcEvent) : (t.step dest e).IsBalanced dest := by
  cases e with
  | accept datagram id priority => exact h.accept datagram id priority
  | request bits id frame => exact h.request hdest bits id frame
  | inject packet priority => exact h
  | receive packet =>
    obtain ⟨streams, hlayer⟩ := SegmentingRlc.receive_layer packet t.rlc
    refine h.congr ?_
    rw [hlayer]
    rfl

theorem isBalanced_run (h : t.IsBalanced dest) (hdest : SegmentingRlc.IsCarried dest)
    (events : List RlcEvent) : (t.run dest events).IsBalanced dest := by
  induction events generalizing t with
  | nil => exact h
  | cons e rest ih => exact ih (h.step hdest e)

/-- **The books of an RLC.** After every run, for a station or any other destination whose segments have
a header to travel on, the ledger is balanced with the queue of that destination. -/
theorem ledger_isBalanced (maxQueued : Nat) (around : ε) (hdest : SegmentingRlc.IsCarried dest)
    (events : List RlcEvent) : ((start maxQueued around).run dest events).ledger.IsBalanced
      (((start maxQueued around).run dest events).rlc.layer.queue dest).items :=
  isBalanced_run (t := start maxQueued around) Ledger.isBalanced_empty hdest events

/-- An empty datagram overtakes one that is partly sent, a control packet with a segment of its own goes
out between them, and one request has room for nothing but headers. -/
def interrupted : List RlcEvent :=
  [.accept ⟨#[1, 2, 3, 4]⟩ ⟨2⟩ 0, .request 151 ⟨2⟩ 0, .accept ⟨#[]⟩ ⟨2⟩ 7, .request 143 ⟨2⟩ 0,
    .request 143 ⟨2⟩ 0, .inject (SegmentingRlc.packed ⟨2⟩ [(.whole, ⟨⟨#[9]⟩, 0, 8⟩)]) 7,
    .request 200 ⟨2⟩ 0, .request 200 ⟨2⟩ 1]

theorem ledger_isBalanced_interrupted :
    ((start 256 (Ends.empty ())).run ⟨2⟩ interrupted).ledger.IsBalanced
      (((start 256 (Ends.empty ())).run ⟨2⟩ interrupted).rlc.layer.queue ⟨2⟩).items :=
  ledger_isBalanced 256 (Ends.empty ()) (by decide) interrupted

example : ((start 256 (Ends.empty ())).run ⟨2⟩ interrupted).ledger.pieces 0 =
    [(⟨true, false⟩, ⟨⟨#[1, 2, 3, 4]⟩, 0, 8⟩), (⟨false, true⟩, ⟨⟨#[1, 2, 3, 4]⟩, 8, 24⟩)] := by
  decide +kernel

end Audited

end DataLink
