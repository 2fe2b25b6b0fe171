import DataLink.Proofs.Rlc.Rounds
import DataLink.Proofs.Rlc.Serving
import DataLink.Proofs.SideBySide

/-!
# Queues without empty shells

An RLC can keep its queues as maps of maps: by destination, and for each destination in levels
(`LeveledRlc`). Entries and levels are made with their first item, and each way out of each call has to
see to it that they go with the last one, since whether there is more for a destination is asked of the
entries alone. A request that fails leaves the queue as the loop has left it.

**Theorem (`no_empty_shells`).** In every state of a run no level is empty, no entry is without an item,
and no datagram is queued any more whose last segment was sent. So what is taken out of a queue is what
was found in front, and the entries tell for which destinations there is more.

The RLC with leveled queues is compared with the one with lists. An entry in the one stands for an entry
in the other, and its queue is sound (`Represents`); each call keeps that up and has the same answer in
both (`mirrors_accept`, `mirrors_requestBurst`, `mirrors_receive`), and a run does so by induction on the
moves (`follows_run`).
-/

namespace DataLink

/-! ## No shells -/

/-- A datagram that waits, and how much of it has been sent. -/
def Outgoing.progress (o : Outgoing) : Datagram × Nat := (o.datagram, o.sent)

namespace SegmentingRlc

/-- Every entry is that of a queue with an item, and every datagram that is queued is open. -/
structure HasNoShells (r : SegmentingRlc) : Prop where
  queues : ∀ dest list, r.queues.get? dest = some list →
    list.items ≠ [] ∧ ∀ e ∈ list.items, LeveledFilling.IsOpen e.2.progress
  injected : ∀ key list, r.injected.get? key = some list → list.items ≠ []

/-- An entry is there exactly as long as there is anything in it. -/
theorem HasNoShells.hasMore_iff {r : SegmentingRlc} (h : r.HasNoShells) (dest : Address) :
    r.hasMore dest = true ↔
      0 < r.numQueued dest ∨ ∃ packet, (r.injectedFor dest).front? = some packet := by
  rw [hasMore, Bool.or_eq_true]
  refine or_congr ?_ ?_
  · rw [Table.contains, numQueued, queue]
    cases hlist : r.queues.get? dest with
    | none => exact iff_of_false Bool.false_ne_true (Nat.lt_irrefl 0)
    | some list => exact iff_of_true rfl (List.length_pos_iff.2 (h.queues dest list hlist).1)
  · rw [Table.contains, injectedFor]
    cases hlist : r.injected.get? dest with
    | none =>
      refine iff_of_false Bool.false_ne_true ?_
      rintro ⟨_, hnone⟩
      cases hnone
    | some list =>
      obtain ⟨e, rest, hitems⟩ := List.exists_cons_of_ne_nil (h.injected dest list hlist)
      refine iff_of_true rfl ⟨e.2, ?_⟩
      rw [Option.getD_some, PriorityQueue.front?, hitems]
      rfl

/-- The request, if it is one, is for so many bits as a word holds. -/
def Move.fits {ε : Type} : Move ε → Bool
  | .event (.request bits _ _) => Word.fits bits
  | _ => true

end SegmentingRlc

/-! ## An RLC with leveled queues -/

/-- A segmenting RLC that keeps its queues as maps of maps. A destination has an entry as long as its
queue has a level. -/
structure LeveledRlc where
  maxQueued : Nat
  queues : Table Address (LeveledQueue (Datagram × Nat))
  injected : Table Address (LeveledQueue Packet)
  streams : Reassembly

namespace LeveledRlc

open SegmentingRlc (Move injectionKey blank IsCarried)
open LeveledFilling (IsOpen IsSound Passes)

def empty (maxQueued : Nat) : LeveledRlc := ⟨maxQueued, .empty, .empty, .empty⟩

/-- The number of datagrams queued for `dest`. -/
def numQueued (r : LeveledRlc) (dest : Address) : Nat :=
  (r.queues.get? dest).elim 0 LeveledQueue.size

/-- The bits queued for `dest`, added up one by one up to the highest count. -/
def queuedBits (r : LeveledRlc) (dest : Address) : Except Fault Nat := do
  let queued := (r.queues.get? dest).elim [] LeveledQueue.entries
  let left ← queued.mapM fun e => checkedDiff e.2.1.bits e.2.2
  return left.foldl (fun sum n => Word.clamp (sum + n)) 0

/-- Anything has an entry under `dest`. -/
def hasMore (r : LeveledRlc) (dest : Address) : Bool :=
  r.queues.contains dest || r.injected.contains dest

/-- Puts a datagram in its level, for which a queue and a level are made if there are none. -/
def enqueue (r : LeveledRlc) (datagram : Datagram) (dest : Address) (priority : Nat) : LeveledRlc :=
  let q := (r.queues.get? dest).getD .empty
  { r with queues := r.queues.insert dest (q.push priority (datagram, 0)) }

def inject (r : LeveledRlc) (packet : Packet) (priority : Nat) : LeveledRlc :=
  let key := injectionKey packet
  let q := (r.injected.get? key).getD .empty
  { r with injected := r.injected.insert key (q.push priority packet) }

/-- Keeps a queue under `dest`, unless it has no level any more. -/
def putBack {α : Type} (queues : Table Address (LeveledQueue α)) (dest : Address)
    (q : LeveledQueue α) : Table Address (LeveledQueue α) :=
  if q.isEmpty then queues.erase dest else queues.insert dest q

/-- Takes out the control packet that goes next to `dest`, if it has at most `bits` bits. -/
def popInjected (r : LeveledRlc) (bits : Nat) (dest : Address) :
    Except Fault (Option (Packet × LeveledRlc)) :=
  match r.injected.get? dest with
  | none => .ok none
  | some q =>
    match q.top? with
    | none => .ok none
    | some packet => do
      if bits < (← packet.bits) then return none
      else return some (packet, { r with injected := putBack r.injected dest q.popFront })

/-- Fills a packet. If that fails, the queue stays as the loop has left it. -/
def fill (r : LeveledRlc) (bits : Nat) (dest : Address) : Except Fault Packet × LeveledRlc :=
  match r.queues.get? dest with
  | none => (.ok blank, r)
  | some q =>
    match LeveledFilling.fill bits dest ⟨blank, q⟩ with
    | (.ok (), f) => (.ok f.packet, { r with queues := putBack r.queues dest f.queue })
    | (.error e, f) => (.error e, { r with queues := r.queues.insert dest f.queue })

/-! ### Calls -/

variable {ε : Type}

def accept [ArqBelow ε] (datagram : Datagram) (dest : Address) (priority : Nat) :
    Call (Inside LeveledRlc ε) Unit := do
  if dest = .unset ∨ dest = .dme then Call.fail (.unknownId dest)
  else
    let r ← Call.own
    if r.maxQueued ≤ r.numQueued dest then Call.fail (.queueFull dest)
    else
      let queued ← Call.ofExcept (r.queuedBits dest)
      Call.outward (ArqBelow.notifyOutgoing (Word.clamp (queued + datagram.bits)) dest)
      Call.change fun r => r.enqueue datagram dest priority

def requestBurst (bits : Nat) (dest : Address) (frame : Nat) :
    Call (Inside LeveledRlc ε) Packet := do
  if bits < Width.base then return .empty
  else
    let r ← Call.own
    let control ← if frame = 0 then Call.ofExcept (r.popInjected bits dest) else pure none
    match control with
    | some (packet, after) =>
      Call.change fun _ => after
      return packet
    | none =>
      Call.change fun _ => (r.fill bits dest).2
      Call.ofExcept (r.fill bits dest).1

def handUp [NetAbove ε] (origin : Address) : List Datagram → Call (Inside LeveledRlc ε) Unit
  | [] => pure ()
  | d :: rest => do
    Call.outward (NetAbove.receive d origin)
    handUp origin rest

def receive [NetAbove ε] (packet : Packet) : Call (Inside LeveledRlc ε) Unit := do
  let r ← Call.own
  let segments := packet.messages.filterMap Message.segment?
  let (complete, streams) ← Call.ofExcept (Reassembly.absorb packet.origin segments r.streams)
  Call.change fun r => { r with streams }
  handUp packet.origin complete

/-! ### No shells -/

/-- Every entry is that of a queue with an item, no level is empty, and every datagram that is queued is
open. -/
structure HasNoShells (n : LeveledRlc) : Prop where
  queues : ∀ dest q, n.queues.get? dest = some q → IsSound q ∧ q.entries ≠ []
  injected : ∀ key q, n.injected.get? key = some q → q.IsTidy ∧ q.entries ≠ []

section Kept

variable {α β : Type} {P : LeveledQueue α → Prop} {f : β → α}

/-- The items of a list, as a leveled queue has them. -/
def itemsAs (f : β → α) (list : PriorityQueue β) : List (Nat × α) :=
  list.items.map fun e => (e.1, f e.2)

/-- There is no entry in either table, or there is one in both: a queue with a level and with `P`, and a
list with the same items. -/
inductive Kept (P : LeveledQueue α → Prop) (f : β → α) :
    Option (LeveledQueue α) → Option (PriorityQueue β) → Prop
  | nowhere : Kept P f none none
  | both {q : LeveledQueue α} {list : PriorityQueue β} (level : q.isEmpty = false) (sound : P q)
      (same : q.entries = itemsAs f list) : Kept P f (some q) (some list)

variable {nested : Table Address (LeveledQueue α)} {flat : Table Address (PriorityQueue β)}
  {q : LeveledQueue α} {list : PriorityQueue β} {x : Option (LeveledQueue α)}
  {y : Option (PriorityQueue β)}

theorem Kept.sound (h : Kept P f (some q) y) (htidy : P q → q.IsTidy) : P q ∧ q.entries ≠ [] := by
  cases h with
  | both level sound _ => exact ⟨sound, (htidy sound).entries_ne_nil level⟩

theorem Kept.exists_queue (h : Kept P f x (some list)) (htidy : ∀ {q}, P q → q.IsTidy) :
    ∃ q, P q ∧ q.entries ≠ [] ∧ q.entries = itemsAs f list := by
  cases h with
  | both level sound same => exact ⟨_, sound, (htidy sound).entries_ne_nil level, same⟩

theorem Kept.entries_eq (h : Kept P f x y) :
    x.elim [] LeveledQueue.entries = itemsAs f (y.getD .empty) := by
  cases h with
  | nowhere => rfl
  | both level sound same => exact same

/-- An item is put in its place, in a queue that is made if there is none. -/
theorem Kept.push (h : Kept P f x y) (hempty : P .empty) {priority : Nat} {b : β}
    (hpush : ∀ q, P q → P (q.push priority (f b))) :
    Kept P f (some ((x.getD .empty).push priority (f b)))
      (some ((y.getD .empty).push priority b)) := by
  have hsame : (x.getD .empty).entries = itemsAs f (y.getD .empty) := by
    rw [← h.entries_eq]
    cases x <;> rfl
  refine .both (LeveledQueue.isEmpty_push _ _ _) (hpush _ ?_) ?_
  · cases h with
    | nowhere => exact hempty
    | both level sound same => exact sound
  · rw [LeveledQueue.entries_push, hsame]
    exact (PriorityQueue.map_place f priority b _).symm

theorem kept_insert (h : ∀ dest, Kept P f (nested.get? dest) (flat.get? dest)) (key : Address)
    (hq : Kept P f (some q) (some list)) (dest : Address) :
    Kept P f ((nested.insert key q).get? dest) ((flat.insert key list).get? dest) := by
  rw [Table.get?_insert, Table.get?_insert]
  split
  · exact hq
  · exact h dest

/-- A queue is put back exactly if the list is not empty. -/
theorem kept_putBack (h : ∀ dest, Kept P f (nested.get? dest) (flat.get? dest)) (key : Address)
    (htidy : q.IsTidy) (hq : P q) (hsame : q.entries = itemsAs f list) (dest : Address) :
    Kept P f ((putBack nested key q).get? dest) ((flat.set key list.nonempty?).get? dest) := by
  have hempty : q.isEmpty = list.isEmpty := by
    rw [Bool.eq_iff_iff, htidy.isEmpty_iff, hsame, itemsAs, List.map_eq_nil_iff,
      PriorityQueue.isEmpty, List.isEmpty_iff]
  rw [Table.get?_set, putBack, PriorityQueue.nonempty?, hempty]
  cases hlist : list.isEmpty with
  | true =>
    rw [if_pos rfl, if_pos rfl, Table.get?_erase]
    split
    · exact .nowhere
    · exact h dest
  | false =>
    rw [if_neg Bool.false_ne_true, if_neg Bool.false_ne_true, Table.get?_insert]
    split
    · exact .both (hempty.trans hlist) hq hsame
    · exact h dest

end Kept

/-- The RLC with leveled queues keeps what the RLC with lists keeps, and nothing else. -/
structure Represents (n : LeveledRlc) (r : SegmentingRlc) : Prop where
  maxQueued : n.maxQueued = r.maxQueued
  queues : ∀ dest, Kept IsSound Outgoing.progress (n.queues.get? dest) (r.queues.get? dest)
  injected : ∀ key, Kept LeveledQueue.IsTidy id (n.injected.get? key) (r.injected.get? key)
  streams : n.streams = r.streams

variable {n : LeveledRlc} {r : SegmentingRlc} {bits : Nat} {dest : Address}

theorem Represents.hasNoShells (h : Represents n r) : n.HasNoShells ∧ r.HasNoShells where
  left := {
    queues dest _ hq := Kept.sound (hq ▸ h.queues dest) IsSound.tidy
    injected key _ hq := Kept.sound (hq ▸ h.injected key) id }
  right := {
    queues dest _ hlist := by
      obtain ⟨q, hsound, hne, hsame⟩ := Kept.exists_queue (hlist ▸ h.queues dest) IsSound.tidy
      refine ⟨fun hnil => hne (by rw [hsame, itemsAs, hnil]; rfl), fun e he => ?_⟩
      exact hsound.isOpen (e.1, e.2.progress) (hsame ▸ List.mem_map_of_mem he)
    injected key _ hlist := by
      obtain ⟨q, -, hne, hsame⟩ := Kept.exists_queue (hlist ▸ h.injected key) id
      exact fun hnil => hne (by rw [hsame, itemsAs, hnil]; rfl) }

theorem represents_empty (maxQueued : Nat) : Represents (empty maxQueued) (.empty maxQueued) :=
  ⟨rfl, fun _ => .nowhere, fun _ => .nowhere, rfl⟩

/-! ### What is asked -/

theorem Represents.entries_queue (h : Represents n r) (dest : Address) :
    (n.queues.get? dest).elim [] LeveledQueue.entries = Filling.entries (r.queue dest).items :=
  (h.queues dest).entries_eq

theorem Represents.numQueued (h : Represents n r) (dest : Address) :
    n.numQueued dest = r.numQueued dest := by
  have hentries := congrArg List.length (h.entries_queue dest)
  rw [Filling.entries, List.length_map] at hentries
  rw [LeveledRlc.numQueued, SegmentingRlc.numQueued, PriorityQueue.size, ← hentries]
  cases n.queues.get? dest with
  | none => rfl
  | some q => exact q.size_eq

theorem mapM_left (items : List (Nat × Outgoing)) :
    (Filling.entries items).mapM (fun e => checkedDiff e.2.1.bits e.2.2) =
      .ok (items.map fun e => e.2.left) := by
  induction items with
  | nil => rfl
  | cons item rest ih =>
    have hleft : checkedDiff item.2.datagram.bits item.2.sent = .ok item.2.left :=
      checkedDiff_eq_ok item.2.sent_le
    rw [Filling.entries, List.map_cons, List.mapM_cons]
    change (checkedDiff item.2.datagram.bits item.2.sent >>= fun left =>
      (Filling.entries rest).mapM _ >>= fun others => pure (left :: others)) = _
    rw [hleft, ih]
    rfl

theorem Represents.queuedBits (h : Represents n r) (dest : Address) :
    n.queuedBits dest = .ok (r.queuedBits dest) := by
  have hsum := Word.foldl_clamp ((r.queue dest).items.map fun e => e.2.left) 0
  rw [Nat.zero_add] at hsum
  rw [LeveledRlc.queuedBits, h.entries_queue, mapM_left, SegmentingRlc.queuedBits,
    PriorityQueue.toList, List.map_map]
  exact congrArg Except.ok hsum

theorem Represents.hasMore (h : Represents n r) (dest : Address) :
    n.hasMore dest = r.hasMore dest := by
  have hqueues := h.queues dest
  have hinjected := h.injected dest
  rw [LeveledRlc.hasMore, SegmentingRlc.hasMore, Table.contains, Table.contains, Table.contains,
    Table.contains]
  generalize n.queues.get? dest = x, r.queues.get? dest = y at hqueues
  generalize n.injected.get? dest = x', r.injected.get? dest = y' at hinjected
  cases hqueues <;> cases hinjected <;> rfl

/-! ### What is done -/

theorem isSound_push {q : LeveledQueue (Datagram × Nat)} (h : IsSound q) (priority : Nat)
    (datagram : Datagram) : IsSound (q.push priority (datagram, 0)) := by
  refine ⟨h.tidy.push _ _, fun e he => ?_⟩
  rw [LeveledQueue.entries_push] at he
  rcases List.mem_cons.1 ((PriorityQueue.place_perm _ _ _).mem_iff.1 he) with rfl | he
  · exact ⟨Nat.zero_le _, fun hlt => absurd hlt (Nat.lt_irrefl 0)⟩
  · exact h.isOpen e he

theorem Represents.enqueue (h : Represents n r) (datagram : Datagram) (dest : Address)
    (priority : Nat) :
    Represents (n.enqueue datagram dest priority) (r.enqueue datagram dest priority) where
  maxQueued := h.maxQueued
  queues := kept_insert h.queues dest ((h.queues dest).push (b := .fresh datagram)
    ⟨.empty, List.forall_mem_nil _⟩ fun _ hq => isSound_push hq priority datagram)
  injected := h.injected
  streams := h.streams

theorem Represents.inject (h : Represents n r) (packet : Packet) (priority : Nat) :
    Represents (n.inject packet priority) (r.inject packet priority) where
  maxQueued := h.maxQueued
  queues := h.queues
  injected := kept_insert h.injected _ ((h.injected _).push (b := packet) .empty
    fun _ hq => hq.push priority packet)
  streams := h.streams

/-- The answer of an RLC with leveled queues is that of the other one, which it goes on
representing. -/
abbrev Answer (x : Packet × LeveledRlc) (y : Packet × SegmentingRlc) : Prop :=
  x.1 = y.1 ∧ Represents x.2 y.2

/-- The control packet in front is the first one of the first level, and it is the one that is taken
out. -/
theorem Represents.popInjected (h : Represents n r) (bits : Nat) (dest : Address) :
    Matching (Option.Rel Answer) (n.popInjected bits dest) (r.popInjected bits dest) := by
  have hkept := h.injected dest
  rw [LeveledRlc.popInjected, SegmentingRlc.popInjected, SegmentingRlc.injectedFor]
  generalize n.injected.get? dest = x, r.injected.get? dest = y at hkept
  cases hkept with
  | nowhere => exact .ok .none
  | @both q list level tidy same =>
    have hitems : q.entries = list.items := same.trans (List.map_id' _)
    have htop : q.top? = list.front? := by
      rw [tidy.top?_eq, q.front?_eq, hitems, PriorityQueue.front?]
    simp only [htop, Option.getD_some]
    cases list.front? with
    | none => exact .ok .none
    | some packet =>
      refine .bind_same packet.bits fun size => ?_
      by_cases hroom : bits < size
      · rw [if_pos hroom, if_pos hroom]
        exact .ok .none
      · rw [if_neg hroom, if_neg hroom]
        have hrest : q.popFront.entries = itemsAs id list.popFront := by
          rw [tidy.entries_popFront, hitems, itemsAs, PriorityQueue.popFront]
          exact (List.map_id' _).symm
        exact .ok (.some ⟨rfl, h.maxQueued, h.queues,
          kept_putBack h.injected dest tidy.popFront tidy.popFront hrest, h.streams⟩)

theorem Represents.setQueue (h : Represents n r) (dest : Address)
    {q : LeveledQueue (Datagram × Nat)} (hq : IsSound q) {items : List (Nat × Outgoing)}
    (hsame : q.entries = Filling.entries items) :
    Represents { n with queues := putBack n.queues dest q } (r.setQueue dest items) where
  maxQueued := h.maxQueued
  queues := kept_putBack h.queues dest hq.tidy hq
    (show q.entries = itemsAs Outgoing.progress ⟨items⟩ from hsame)
  injected := h.injected
  streams := h.streams

/-- Nothing has become of a queue that was looked at. -/
theorem Represents.insert (h : Represents n r) {q : LeveledQueue (Datagram × Nat)}
    (hq : n.queues.get? dest = some q) :
    Represents { n with queues := n.queues.insert dest q } r where
  maxQueued := h.maxQueued
  queues other := by
    have hother := h.queues other
    rw [Table.get?_insert]
    split
    · next hdest =>
      subst hdest
      rwa [hq] at hother
    · exact hother
  injected := h.injected
  streams := h.streams

/-- Filling comes to the same packet and leaves the same datagrams, or it fails and leaves everything
as it was. -/
theorem Represents.fill (h : Represents n r) (hbits : bits ≤ Word.highest) (dest : Address) :
    match r.fill bits dest with
    | .ok (packet, after) =>
      (n.fill bits dest).1 = .ok packet ∧ Represents (n.fill bits dest).2 after
    | .error e => (n.fill bits dest).1 = .error (.layer e) ∧ Represents (n.fill bits dest).2 r := by
  have hkept := h.queues dest
  have hentries := h.entries_queue dest
  rw [LeveledRlc.fill]
  cases hq : n.queues.get? dest with
  | none =>
    rw [hq] at hkept
    have hnone : r.queues.get? dest = none := by
      generalize r.queues.get? dest = y at hkept
      cases hkept
      rfl
    have hsame : r.setQueue dest [] = r :=
      congrArg (fun queues => { r with queues }) (Table.erase_eq_self hnone)
    rw [SegmentingRlc.fill_nil (by rw [SegmentingRlc.queue, hnone]; rfl), hsame]
    exact ⟨rfl, h⟩
  | some q =>
    rw [hq] at hkept hentries
    obtain ⟨hsound, -⟩ := hkept.sound IsSound.tidy
    obtain ⟨hanswer, hafter⟩ := LeveledFilling.fill_of_comesTo (f := ⟨blank, q⟩)
      (r.comesTo_fill hbits dest) hsound (congrArg (Filling.mk blank) hentries)
    have hend : IsSound (LeveledFilling.fill bits dest ⟨blank, q⟩).2.queue :=
      (LeveledFilling.passes_fill _).keep (P := fun f => IsSound f.queue)
        (fun hround hf => hf.round hround) hsound
    have hstays : ¬ IsCarried dest → (LeveledFilling.fill bits dest ⟨blank, q⟩).2 = ⟨blank, q⟩ :=
      fun hdest => LeveledFilling.fill_of_not_isCarried hdest _
    dsimp only
    generalize LeveledFilling.fill bits dest ⟨blank, q⟩ = found at hanswer hafter hend hstays ⊢
    obtain ⟨answer, f⟩ := found
    cases hfill : r.fill bits dest with
    | error e =>
      rw [hfill] at hanswer
      obtain rfl : answer = .error (.layer e) := hanswer
      -- Where segments have no carrier, the first round fails.
      have hdest : ¬ IsCarried dest := fun hdest => by
        cases hfill.symm.trans (SegmentingRlc.fill_eq hdest r bits)
      obtain rfl : f = ⟨blank, q⟩ := hstays hdest
      exact ⟨rfl, h.insert hq⟩
    | ok filled =>
      obtain ⟨packet, after⟩ := filled
      rw [hfill] at hanswer hafter
      obtain rfl : answer = .ok () := hanswer
      obtain rfl := SegmentingRlc.fill_eq_ok hfill
      have hflat := hafter _ rfl
      rw [SegmentingRlc.queue_setQueue, if_pos rfl] at hflat
      exact ⟨congrArg (fun f => Except.ok f.packet) hflat,
        h.setQueue dest hend (congrArg Filling.queued hflat)⟩

/-! ## Calls side by side -/

/-- An RLC with leveled queues and one with lists, in the same surroundings. -/
abbrev Follows : Inside LeveledRlc ε → Inside SegmentingRlc ε → Prop := Inside.Alike Represents Eq

theorem mirrors_accept [ArqBelow ε] (datagram : Datagram) (dest : Address) (priority : Nat) :
    (accept datagram dest priority : Call (Inside LeveledRlc ε) Unit).Mirrors Follows
      (SegmentingRlc.accept datagram dest priority) Eq := by
  refine .ite Iff.rfl (.fail _) (.bind .own fun n r h => ?_)
  rw [h.maxQueued, h.numQueued, h.queuedBits]
  refine .ite Iff.rfl (.fail _) ?_
  exact .bind_same (.outward (.same _)) fun _ => .change fun _ _ h => h.enqueue datagram dest priority

theorem requestBurst_eq (bits : Nat) (dest : Address) (frame : Nat) (s : Inside LeveledRlc ε) :
    requestBurst bits dest frame s =
      if bits < Width.base then (.ok .empty, s)
      else match if frame = 0 then s.layer.popInjected bits dest else .ok none with
        | .error e => (.error e, s)
        | .ok (some (packet, layer)) => (.ok packet, { s with layer })
        | .ok none => ((s.layer.fill bits dest).1, { s with layer := (s.layer.fill bits dest).2 }) := by
  unfold requestBurst
  split
  · rfl
  · rw [Call.bind_apply, Call.own_apply]
    simp only
    split
    · rw [Call.bind_apply, Call.ofExcept_apply]
      rcases s.layer.popInjected bits dest with e | _ | served
      · rfl
      · simp only [Call.bind_apply, Call.change_apply, Call.ofExcept_apply]
      · rfl
    · simp only [Call.bind_apply, Call.pure_apply, Call.change_apply, Call.ofExcept_apply]

theorem mirrors_requestBurst (hbits : Word.fits bits = true) (dest : Address) (frame : Nat) :
    (requestBurst bits dest frame : Call (Inside LeveledRlc ε) Packet).Mirrors Follows
      (SegmentingRlc.requestBurst bits dest frame) Eq := by
  -- The rules for calls do not apply: a filling that fails has changed the one state, but not the other.
  intro s t hst
  have hcontrol : Matching (Option.Rel Answer)
      (if frame = 0 then s.layer.popInjected bits dest else .ok none)
      (t.layer.controlFor bits dest frame) := by
    rw [SegmentingRlc.controlFor]
    split
    · exact hst.layer.popInjected bits dest
    · exact .ok .none
  rw [requestBurst_eq, SegmentingRlc.requestBurst_eq]
  split
  · exact ⟨.ok rfl, hst⟩
  · generalize (if frame = 0 then s.layer.popInjected bits dest else .ok none) = control,
      t.layer.controlFor bits dest frame = other at hcontrol
    cases hcontrol with
    | error e => exact ⟨.error e, hst⟩
    | ok hserved =>
      cases hserved with
      | some hanswer => exact ⟨.ok hanswer.1, hanswer.2, hst.around⟩
      | none =>
        have hfill := hst.layer.fill (Word.fits_iff.1 hbits) dest
        rcases hpacket : t.layer.fill bits dest with e | ⟨packet, after⟩
        all_goals
          rw [hpacket] at hfill
          dsimp only
          rw [hfill.1]
        · exact ⟨.error _, hfill.2, hst.around⟩
        · exact ⟨.ok rfl, hfill.2, hst.around⟩

theorem mirrors_handUp [NetAbove ε] (origin : Address) (datagrams : List Datagram) :
    (handUp origin datagrams : Call (Inside LeveledRlc ε) Unit).Mirrors Follows
      (SegmentingRlc.handUp origin datagrams) Eq := by
  induction datagrams with
  | nil => exact .pure rfl
  | cons d rest ih => exact .bind_same (.outward (.same _)) fun _ => ih

theorem mirrors_receive [NetAbove ε] (packet : Packet) :
    (receive packet : Call (Inside LeveledRlc ε) Unit).Mirrors Follows
      (SegmentingRlc.receive packet) Eq := by
  refine .bind .own fun n r h => ?_
  rw [h.streams]
  refine .bind_same (.ofExcept (.refl _)) fun found => ?_
  exact .bind_same (.change fun _ _ h => ⟨h.maxQueued, h.queues, h.injected, rfl⟩) fun _ =>
    mirrors_handUp packet.origin found.1

/-! ## Runs -/

variable [ArqBelow ε] [NetAbove ε]

/-- What an event leaves, be the call refused or not. -/
def perform (s : Inside LeveledRlc ε) : RlcEvent → Inside LeveledRlc ε
  | .accept datagram dest priority => (accept datagram dest priority s).2
  | .request bits dest frame => (requestBurst bits dest frame s).2
  | .inject packet priority => { s with layer := s.layer.inject packet priority }
  | .receive packet => (receive packet s).2

def step (s : Inside LeveledRlc ε) : Move ε → Inside LeveledRlc ε
  | .event e => perform s e
  | .elsewhere change => { s with around := change s.around }

def run (s : Inside LeveledRlc ε) (moves : List (Move ε)) : Inside LeveledRlc ε :=
  moves.foldl step s

variable {s : Inside LeveledRlc ε} {t : Inside SegmentingRlc ε}

theorem follows_step (h : Follows s t) {move : Move ε} (hfits : move.fits = true) :
    Follows (step s move) (SegmentingRlc.step t move) := by
  cases move with
  | elsewhere change => exact ⟨h.layer, congrArg change h.around⟩
  | event e =>
    cases e with
    | accept datagram dest priority => exact (mirrors_accept datagram dest priority s t h).2
    | request bits dest frame => exact (mirrors_requestBurst hfits dest frame s t h).2
    | inject packet priority => exact ⟨h.layer.inject packet priority, h.around⟩
    | receive packet => exact (mirrors_receive packet s t h).2

theorem follows_run (h : Follows s t) {moves : List (Move ε)}
    (hfits : ∀ move ∈ moves, move.fits = true) : Follows (run s moves) (SegmentingRlc.run t moves) := by
  induction moves generalizing s t with
  | nil => exact h
  | cons move rest ih =>
    rw [List.forall_mem_cons] at hfits
    exact ih (follows_step h hfits.1) hfits.2

/-- Whatever is asked next, the two RLCs have the same answer. -/
structure Concurs (s : Inside LeveledRlc ε) (t : Inside SegmentingRlc ε) : Prop where
  around : s.around = t.around
  accept : ∀ datagram dest priority, (accept datagram dest priority s).1 =
    (SegmentingRlc.accept datagram dest priority t).1
  request : ∀ bits dest frame, Word.fits bits = true →
    (requestBurst bits dest frame s).1 = (SegmentingRlc.requestBurst bits dest frame t).1
  receive : ∀ packet, (receive packet s).1 = (SegmentingRlc.receive packet t).1
  numQueued : ∀ dest, s.layer.numQueued dest = t.layer.numQueued dest
  queuedBits : ∀ dest, s.layer.queuedBits dest = .ok (t.layer.queuedBits dest)
  hasMore : ∀ dest, s.layer.hasMore dest = t.layer.hasMore dest

theorem concurs_of_follows (h : Follows s t) : Concurs s t where
  around := h.around
  accept datagram dest priority := (mirrors_accept datagram dest priority s t h).1.eq
  request _ dest frame hbits := (mirrors_requestBurst hbits dest frame s t h).1.eq
  receive packet := (mirrors_receive packet s t h).1.eq
  numQueued := h.layer.numQueued
  queuedBits := h.layer.queuedBits
  hasMore := h.layer.hasMore

/-- **No shells.** In every state of a run, be it one in which requests fail, the RLC with lists answers
like one whose queues are maps of maps. There no level is empty, no destination has an entry without
an item, and every datagram queued is open; this holds throughout the loop that fills a packet, and what
is taken out is always what was found in front. So there is more for a destination if and only if a
datagram is queued for it or a control packet waits. -/
theorem no_empty_shells (maxQueued : Nat) (around : ε) {moves : List (Move ε)}
    (hfits : ∀ move ∈ moves, move.fits = true) :
    let s := run ⟨empty maxQueued, around⟩ moves
    let t := SegmentingRlc.run ⟨.empty maxQueued, around⟩ moves
    Concurs s t ∧ s.layer.HasNoShells ∧ t.layer.HasNoShells ∧
      (∀ dest q, s.layer.queues.get? dest = some q → ∀ bits f, Passes bits dest ⟨blank, q⟩ f →
        IsSound f.queue ∧ f.queue.TakesFront) ∧
      (∀ key q, s.layer.injected.get? key = some q → q.TakesFront) ∧
      ∀ dest, t.layer.hasMore dest = true ↔ 0 < t.layer.numQueued dest ∨
        ∃ packet, (t.layer.injectedFor dest).front? = some packet := by
  intro s t
  have hfollows : Follows s t :=
    follows_run ⟨represents_empty maxQueued, rfl⟩ hfits
  obtain ⟨hs, ht⟩ := hfollows.layer.hasNoShells
  refine ⟨concurs_of_follows hfollows, hs, ht, fun dest q hq _ f hpasses => ?_,
    fun key q hq => (hs.injected key q hq).1.takesFront, ht.hasMore_iff⟩
  have hsound : IsSound f.queue := hpasses.keep (P := fun f => IsSound f.queue)
    (fun hround hf => hf.round hround) (hs.queues dest q hq).1
  exact ⟨hsound, hsound.tidy.takesFront⟩

/-- Of two datagrams for station 2 the first one is sent and the second one begun; one for an address
without a name cannot be sent at all. -/
def blocked : List (Move (Ends Unit)) :=
  [.event (.accept ⟨#[1, 2]⟩ ⟨2⟩ 5), .event (.accept ⟨#[3]⟩ ⟨2⟩ 1), .event (.accept ⟨#[7]⟩ ⟨-5⟩ 0),
    .event (.request 236 ⟨2⟩ 0), .event (.request 200 ⟨-5⟩ 0)]

theorem no_empty_shells_blocked :
    let s := run ⟨empty 256, Ends.empty ()⟩ blocked
    (requestBurst 200 ⟨-5⟩ 0 s).1 = .error (.layer (.header (.invalidDestination ⟨-5⟩))) ∧
      s.layer.HasNoShells ∧ s.layer.numQueued ⟨2⟩ = 1 ∧ s.layer.hasMore ⟨-5⟩ = true ∧
      ∀ q, s.layer.queues.get? ⟨2⟩ = some q → q.TakesFront := by
  obtain ⟨hconcurs, hshells, -, hfilling, -⟩ :=
    no_empty_shells 256 (Ends.empty ()) (show ∀ move ∈ blocked, move.fits = true by decide)
  refine ⟨(hconcurs.request 200 ⟨-5⟩ 0 rfl).trans (by decide +kernel), hshells,
    (hconcurs.numQueued ⟨2⟩).trans (by decide +kernel),
    (hconcurs.hasMore ⟨-5⟩).trans (by decide +kernel), fun q hq => ?_⟩
  exact (hfilling ⟨2⟩ q hq 0 _ .refl).2

/-- The level of the datagram that is sent is gone. -/
example : ((run ⟨empty 256, Ends.empty ()⟩ blocked).layer.queues.get? ⟨2⟩).map LeveledQueue.levels =
    some [(1, [(⟨#[3]⟩, 4)])] := by cbv

end LeveledRlc

end DataLink
