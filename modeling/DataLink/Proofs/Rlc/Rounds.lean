import DataLink.Proofs.Rlc.Filling
import DataLink.Proofs.Rlc.Levels
import DataLink.Proofs.Rlc.Packets
import Mathlib.Logic.Relation

/-!
# Filling a packet from levels

The loop of `Filling.round` over a list is also one over a leveled queue. A round looks for the datagram
in front, puts it forward where it stands, and takes it out by another way if that was its last segment
(`LeveledFilling.round`). A round that fails has put nothing forward.

**Theorem (`IsSound.round`).** A round leaves no level empty, and no datagram in the queue whose last
segment was sent. So whatever the loop passes on its way, where it ends and where it fails included, is sound
(`passes_fill`, `Passes.keep`), and what it takes out is what it has found.

**Theorem (`fill_of_comesTo`).** On a sound queue the loop comes to what the one over the list comes to.

A round takes away an item or a level, or else it leaves less room in the packet; that is why the loop
ends on any queue, sound or not (`round_decreases`).
-/

namespace DataLink

/-- A packet that is being filled, and the queue that it is filled from. Of each datagram it is kept how
many bits have been sent. -/
structure LeveledFilling where
  packet : Packet
  queue : LeveledQueue (Datagram × Nat)

namespace LeveledFilling

open SegmentingRlc
open Filling (needed ComesTo)

/-- One round of filling `bits` bits for `dest`: the datagram in front is looked up and put forward, and
taken out of the queue with its last segment. -/
def round (bits : Nat) (dest : Address) (f : LeveledFilling) :
    Except Fault (Option LeveledFilling) :=
  match f.queue.front? with
  | none => .ok none
  | some (datagram, sent) => do
    let free := bits - (← f.packet.bits)
    let left ← checkedDiff datagram.bits sent
    if free < (← needed dest left) then return none
    else
      let length := min left (← checkedDiff free (headerWidth dest))
      let header ← (segmentHeader dest ⟨sent = 0, length = left⟩).mapError .layer
      let packet ← (f.packet.add (some header)
        (some (.segment ⟨datagram, sent, length⟩))).mapError fun e => .layer (.packet e)
      let sent ← checkedSum sent length
      let queue := f.queue.setFront (datagram, sent)
      return some ⟨packet, if length = left then queue.popFront else queue⟩

variable {bits : Nat} {dest : Address} {f g : LeveledFilling}

theorem needed_pos {left room : Nat} (h : needed dest left = .ok room) : 0 < room := by
  unfold needed at h
  split at h
  · cases h
    exact headerWidth_pos dest
  · rw [eq_add_of_checkedSum h]
    exact Nat.succ_pos _

/-- What a round does if there is room for it. -/
structure Moves (bits : Nat) (dest : Address) (f : LeveledFilling) (datagram : Datagram)
    (sent length : Nat) (g : LeveledFilling) : Prop where
  front : f.queue.front? = some (datagram, sent)
  sent_le : sent ≤ datagram.bits
  length_le : length ≤ datagram.bits - sent
  named : ∃ fragment header, segmentHeader dest fragment = .ok header
  longer : g.packet.length = f.packet.length + (headerWidth dest + length)
  within : f.packet.length < bits
  queue : g.queue = if length = datagram.bits - sent
    then (f.queue.setFront (datagram, sent + length)).popFront
    else f.queue.setFront (datagram, sent + length)

theorem round_eq_some (h : f.round bits dest = .ok (some g)) :
    ∃ datagram sent length, Moves bits dest f datagram sent length g := by
  unfold round at h
  split at h
  · cases h
  · next datagram sent hfront =>
    obtain ⟨size, hsize, h⟩ := bind_eq_ok.1 h
    obtain ⟨left, hleft, h⟩ := bind_eq_ok.1 h
    obtain ⟨needed, hneeded, h⟩ := bind_eq_ok.1 h
    obtain rfl := Packet.eq_length_of_bits hsize
    split at h
    · cases h
    · next hroom =>
      obtain ⟨room, -, h⟩ := bind_eq_ok.1 h
      obtain ⟨header, hheader, h⟩ := bind_eq_ok.1 h
      obtain ⟨packet, hadd, h⟩ := bind_eq_ok.1 h
      obtain ⟨total, htotal, h⟩ := bind_eq_ok.1 h
      cases h
      rw [mapError_eq_ok] at hheader hadd
      obtain ⟨hsent, rfl⟩ := of_checkedDiff_eq_ok hleft
      obtain rfl := eq_add_of_checkedSum htotal
      have hneed := needed_pos hneeded
      refine ⟨datagram, sent, _, hfront, hsent, Nat.min_le_left _ room, ⟨_, _, hheader⟩, ?_,
        by omega, rfl⟩
      rw [Packet.length_add hadd, bits_segmentHeader hheader]
      rfl

/-! ### The loop -/

/-- Counts each item and each level. -/
def weight (q : LeveledQueue (Datagram × Nat)) : Nat :=
  Word.total (q.levels.map fun e => e.2.length + 1)

theorem weight_setFront (q : LeveledQueue (Datagram × Nat)) (a : Datagram × Nat) :
    weight (q.setFront a) = weight q := by
  obtain ⟨levels, hlevels⟩ := q
  show Word.total ((LeveledQueue.setFirst a levels).map _) = Word.total (levels.map _)
  clear hlevels
  induction levels with
  | nil => rfl
  | cons e rest ih =>
    obtain ⟨p, _ | ⟨b, level⟩⟩ := e
    · rw [LeveledQueue.setFirst, List.map_cons, Word.total, ih, List.map_cons, Word.total]
    · rfl

theorem weight_popFront {q : LeveledQueue (Datagram × Nat)} (h : q.levels ≠ []) :
    weight q.popFront < weight q := by
  obtain ⟨levels, hlevels⟩ := q
  show Word.total ((LeveledQueue.popFirst levels).map _) < Word.total (levels.map _)
  cases levels with
  | nil => exact absurd rfl h
  | cons e rest =>
    obtain ⟨p, level⟩ := e
    rw [LeveledQueue.popFirst]
    split
    · rw [List.map_cons, Word.total]
      omega
    · next hleft =>
      have htail : 0 < level.tail.length := List.length_pos_iff.2 (mt List.isEmpty_iff.2 hleft)
      rw [List.length_tail] at htail
      simp only [List.map_cons, Word.total, List.length_tail]
      omega

theorem levels_setFront_ne_nil {q : LeveledQueue (Datagram × Nat)} {a : Datagram × Nat}
    (h : q.front? = some a) (b : Datagram × Nat) : (q.setFront b).levels ≠ [] := by
  intro hnil
  have hkeys := LeveledQueue.keys_setFirst b q.levels
  change (q.setFront b).levels.map Prod.fst = _ at hkeys
  rw [hnil, List.map_nil, eq_comm, List.map_eq_nil_iff] at hkeys
  rw [LeveledQueue.front?, hkeys] at h
  cases h

/-- A round takes an item or a level away, or leaves less room. -/
theorem round_decreases (h : f.round bits dest = .ok (some g)) :
    Prod.Lex (· < ·) (· < ·) (weight g.queue, bits - g.packet.length)
      (weight f.queue, bits - f.packet.length) := by
  obtain ⟨datagram, sent, length, hmoves⟩ := round_eq_some h
  rw [hmoves.queue]
  split
  · refine Prod.Lex.left _ _ ?_
    rw [← weight_setFront f.queue (datagram, sent + length)]
    exact weight_popFront (levels_setFront_ne_nil hmoves.front _)
  · rw [weight_setFront]
    refine Prod.Lex.right _ ?_
    have hlonger := hmoves.longer
    have hwithin := hmoves.within
    have hheader := headerWidth_pos dest
    omega

/-- Round after round. What was done before a round fails stays done. -/
def fill (bits : Nat) (dest : Address) (f : LeveledFilling) : Except Fault Unit × LeveledFilling :=
  match _h : f.round bits dest with
  | .error e => (.error e, f)
  | .ok none => (.ok (), f)
  | .ok (some g) => fill bits dest g
termination_by (weight f.queue, bits - f.packet.length)
decreasing_by exact round_decreases _h

theorem fill_eq (f : LeveledFilling) : f.fill bits dest = match f.round bits dest with
    | .error e => (.error e, f)
    | .ok none => (.ok (), f)
    | .ok (some g) => g.fill bits dest := by
  rw [fill]
  split <;> simp_all

/-- The loop passes the state `g` on its way from `f`. -/
def Passes (bits : Nat) (dest : Address) : LeveledFilling → LeveledFilling → Prop :=
  Relation.ReflTransGen fun f g => f.round bits dest = .ok (some g)

theorem passes_fill (f : LeveledFilling) : Passes bits dest f (f.fill bits dest).2 := by
  induction f using fill.induct bits dest with
  | case1 f e hround =>
    rw [fill_eq, hround]
    exact .refl
  | case2 f hround =>
    rw [fill_eq, hround]
    exact .refl
  | case3 f g hround ih =>
    rw [fill_eq, hround]
    exact .head hround ih

theorem Passes.keep {P : LeveledFilling → Prop} (h : Passes bits dest f g)
    (hround : ∀ {f g}, f.round bits dest = .ok (some g) → P f → P g) (hf : P f) : P g := by
  induction h with
  | refl => exact hf
  | tail _ hstep ih => exact hround hstep ih

/-! ### What a round keeps -/

/-- So much of the datagram has been sent, but not all of it once it was begun. -/
def IsOpen (queued : Datagram × Nat) : Prop :=
  queued.2 ≤ queued.1.bits ∧ (0 < queued.2 → queued.2 < queued.1.bits)

/-- No level is empty, and what is queued is open. -/
structure IsSound (q : LeveledQueue (Datagram × Nat)) : Prop where
  tidy : q.IsTidy
  isOpen : ∀ e ∈ q.entries, IsOpen e.2

theorem exists_entries {q : LeveledQueue (Datagram × Nat)} {a : Datagram × Nat}
    (h : q.front? = some a) : ∃ p rest, q.entries = (p, a) :: rest := by
  rw [LeveledQueue.front?_eq] at h
  cases hq : q.entries with
  | nil =>
    rw [hq] at h
    cases h
  | cons e rest =>
    rw [hq] at h
    cases h
    exact ⟨e.1, rest, rfl⟩

/-- **A round.** The datagram that is put forward is still open, or it is the one that is taken out. -/
theorem IsSound.round (h : IsSound f.queue) (hround : f.round bits dest = .ok (some g)) :
    IsSound g.queue := by
  obtain ⟨datagram, sent, length, hmoves⟩ := round_eq_some hround
  obtain ⟨p, rest, hentries⟩ := exists_entries hmoves.front
  have hset := LeveledQueue.entries_setFront hentries (datagram, sent + length)
  have hrest : ∀ e ∈ rest, IsOpen e.2 := fun e he => h.isOpen e (hentries ▸ List.mem_cons_of_mem _ he)
  have hsent := hmoves.sent_le
  have hlength := hmoves.length_le
  rw [hmoves.queue]
  split
  · refine ⟨(h.tidy.setFront _).popFront, ?_⟩
    rw [(h.tidy.setFront _).entries_popFront, hset]
    exact hrest
  · next hleft =>
    refine ⟨h.tidy.setFront _, ?_⟩
    rw [hset]
    refine List.forall_mem_cons.2 ⟨⟨?_, fun _ => ?_⟩, hrest⟩
    · show sent + length ≤ datagram.bits
      omega
    · show sent + length < datagram.bits
      omega

/-- The filling with the queue as one list. -/
def flat (f : LeveledFilling) : Filling := ⟨f.packet, f.queue.entries⟩

theorem round_flat (h : f.queue.IsTidy) :
    f.flat.round bits dest = Option.map flat <$> f.round bits dest := by
  cases hfront : f.queue.front? with
  | none =>
    have hnil : f.flat.queued = [] := by
      rw [LeveledQueue.front?_eq, Option.map_eq_none_iff, List.head?_eq_none_iff] at hfront
      exact hfront
    rw [Filling.round, hnil, LeveledFilling.round, hfront]
    rfl
  | some front =>
    obtain ⟨datagram, sent⟩ := front
    obtain ⟨p, rest, hentries⟩ := exists_entries hfront
    have hqueued : f.flat.queued = (p, datagram, sent) :: rest := hentries
    -- The list puts its first entry forward or drops it, and so does the queue.
    have hafter : ∀ packet total (last : Prop) [Decidable last],
        flat ⟨packet, if last then (f.queue.setFront (datagram, total)).popFront
          else f.queue.setFront (datagram, total)⟩ =
        ⟨packet, if last then rest else (p, datagram, total) :: rest⟩ := by
      intro packet total last _
      have hset := LeveledQueue.entries_setFront hentries (datagram, total)
      split
      · rw [flat, (h.setFront _).entries_popFront, hset, List.tail_cons]
      · rw [flat, hset]
    rw [Filling.round, hqueued, LeveledFilling.round, hfront]
    simp only [map_bind, apply_ite (Functor.map _), map_pure, Option.map_none, Option.map_some,
      hafter]
    rfl

/-- The loop comes to what the one over the list comes to. -/
theorem fill_of_comesTo {start : Filling} {result : Except Fault Filling}
    (h : ComesTo bits dest start result) {f : LeveledFilling} (hsound : IsSound f.queue)
    (hflat : f.flat = start) : (f.fill bits dest).1 = result.map (fun _ => ()) ∧
      ∀ after, result = .ok after → (f.fill bits dest).2.flat = after := by
  induction h generalizing f with
  | stop hround =>
    rw [← hflat, round_flat hsound.tidy] at hround
    rw [fill_eq]
    rcases hstep : f.round bits dest with e | _ | g <;> rw [hstep] at hround <;> cases hround
    exact ⟨rfl, fun after hafter => hflat.trans (Except.ok.inj hafter)⟩
  | fail hround =>
    rw [← hflat, round_flat hsound.tidy] at hround
    rw [fill_eq]
    rcases hstep : f.round bits dest with e | _ | g <;> rw [hstep] at hround <;> cases hround
    exact ⟨rfl, nofun⟩
  | next hround _ ih =>
    rw [← hflat, round_flat hsound.tidy] at hround
    rw [fill_eq]
    rcases hstep : f.round bits dest with e | _ | g <;> rw [hstep] at hround <;> cases hround
    exact ih (hsound.round hstep) rfl

/-- Where segments have no header to travel on, no round is done. -/
theorem fill_of_not_isCarried (hdest : ¬ IsCarried dest) (f : LeveledFilling) :
    (f.fill bits dest).2 = f := by
  rw [fill_eq]
  rcases hround : f.round bits dest with e | _ | g
  · rfl
  · rfl
  · obtain ⟨_, _, _, hmoves⟩ := round_eq_some hround
    obtain ⟨fragment, header, hheader⟩ := hmoves.named
    rw [segmentHeader_eq_error hdest] at hheader
    cases hheader

end LeveledFilling

end DataLink
