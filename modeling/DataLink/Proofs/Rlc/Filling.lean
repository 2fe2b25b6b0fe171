import DataLink.Proofs.Packet
import DataLink.Rlc.Segmenting

/-!
# Filling a packet round by round

`SegmentingRlc.fill` cuts the queue first and then builds the packet. A loop does the same with one
segment at a time: as long as there is room, a round puts a segment of the datagram in front behind
a header of its own (`Filling.round`). In the loop every sum and every difference is that of two
words, so each of them might leave its range.

**Theorem (`SegmentingRlc.comesTo_fill`).** The loop ends, no sum or difference in it leaves its
range, and it comes to what `fill` gives. A round keeps a packet within its bits
(`Filling.round_within`).

A round uses up the room, or it finishes a datagram; so the induction is on the queue.
-/

namespace DataLink

/-- A difference of bits, which must not be negative. -/
def checkedDiff (a b : Nat) : Except Fault Nat := if b ≤ a then .ok (a - b) else .error .overflow

theorem checkedSum_eq_ok {a b : Nat} (h : a + b ≤ Word.highest) : checkedSum a b = .ok (a + b) :=
  if_pos (Word.fits_iff.2 h)

theorem checkedDiff_eq_ok {a b : Nat} (h : b ≤ a) : checkedDiff a b = .ok (a - b) := if_pos h

theorem of_checkedDiff_eq_ok {a b n : Nat} (h : checkedDiff a b = .ok n) : b ≤ a ∧ n = a - b := by
  unfold checkedDiff at h
  split at h <;> cases h
  exact ⟨by assumption, rfl⟩

theorem Packet.bits_eq_ok {p : Packet} (h : p.length ≤ Word.highest) : p.bits = .ok p.length :=
  if_pos (Word.fits_iff.2 h)

theorem Packet.length_add {p out : Packet} {header : Header} {payload : Option Payload}
    (h : p.add (some header) payload = .ok out) :
    out.length = p.length + (header.bits + payload.elim 0 Payload.bits) := by
  obtain ⟨_, -, hout⟩ := bind_eq_ok.1 h
  cases hout
  rw [length, List.map_append, Word.total_append]
  rfl

namespace SegmentingRlc

theorem bits_segmentHeader {dest : Address} {fragment : Fragment} {header : Header}
    (h : segmentHeader dest fragment = .ok header) : header.bits = headerWidth dest := by
  unfold segmentHeader at h
  split at h
  · next hdest =>
    cases h
    rcases hdest with rfl | rfl <;> rfl
  · unfold UnicastHeader.to? at h
    cases hsymbolic : dest.isSymbolic with
    | true =>
      rw [hsymbolic] at h
      cases h
    | false =>
      rw [hsymbolic] at h
      cases h
      rw [headerWidth, hsymbolic]
      rfl

theorem headerWidth_pos (dest : Address) : 0 < headerWidth dest := by
  unfold headerWidth
  split <;> decide

theorem headerWidth_le (dest : Address) : headerWidth dest + 1 ≤ Word.highest := by
  unfold headerWidth
  split <;> decide

end SegmentingRlc

/-! ## Rounds -/

/-- A packet that is being filled, and what is queued for it: of each datagram its priority, the
datagram, and how many of its bits have been sent. -/
structure Filling where
  packet : Packet
  queued : List (Nat × Datagram × Nat)

namespace Filling

open SegmentingRlc

/-- The room that a segment needs: its header, and a bit of the datagram if one is left. -/
def needed (dest : Address) (left : Nat) : Except Fault Nat :=
  if left = 0 then .ok (headerWidth dest) else checkedSum (headerWidth dest) 1

/-- One round of filling `bits` bits for `dest`. There is no further round if nothing is queued, or
if there is no room for a header and a bit of the datagram in front. -/
def round (bits : Nat) (dest : Address) (f : Filling) : Except Fault (Option Filling) :=
  match f.queued with
  | [] => .ok none
  | (priority, datagram, sent) :: rest => do
    let free := bits - (← f.packet.bits)
    let left ← checkedDiff datagram.bits sent
    if free < (← needed dest left) then return none
    else
      let length := min left (← checkedDiff free (headerWidth dest))
      let header ← (segmentHeader dest ⟨sent = 0, length = left⟩).mapError .layer
      let packet ← (f.packet.add (some header)
        (some (.segment ⟨datagram, sent, length⟩))).mapError fun e => .layer (.packet e)
      let sent ← checkedSum sent length
      return some ⟨packet, if length = left then rest else (priority, datagram, sent) :: rest⟩

/-- Round after round, the filling comes to a result. -/
inductive ComesTo (bits : Nat) (dest : Address) : Filling → Except Fault Filling → Prop
  | stop {f : Filling} (h : f.round bits dest = .ok none) : ComesTo bits dest f (.ok f)
  | fail {f : Filling} {e : Fault} (h : f.round bits dest = .error e) :
      ComesTo bits dest f (.error e)
  | next {f g : Filling} {result : Except Fault Filling} (h : f.round bits dest = .ok (some g))
      (hrest : ComesTo bits dest g result) : ComesTo bits dest f result

variable {bits : Nat} {dest : Address} {f g : Filling}

theorem ComesTo.unique {first second : Except Fault Filling} (h : ComesTo bits dest f first)
    (h' : ComesTo bits dest f second) : first = second := by
  induction h with
  | stop hround => cases h' <;> simp_all
  | fail hround => cases h' <;> simp_all
  | next hround _ ih =>
    cases h' with
    | stop hother => simp_all
    | fail hother => simp_all
    | next hother hrest =>
      rw [hround] at hother
      cases hother
      exact ih hrest

/-- **The budget of a round.** The packet stays within its bits. -/
theorem round_within (h : f.round bits dest = .ok (some g)) (hwithin : f.packet.length ≤ bits) :
    g.packet.length ≤ bits := by
  unfold round at h
  split at h
  · cases h
  · obtain ⟨size, hsize, h⟩ := bind_eq_ok.1 h
    obtain ⟨left, -, h⟩ := bind_eq_ok.1 h
    obtain ⟨needed, hneeded, h⟩ := bind_eq_ok.1 h
    obtain rfl := Packet.eq_length_of_bits hsize
    split at h
    · cases h
    · obtain ⟨room, hroom, h⟩ := bind_eq_ok.1 h
      obtain ⟨header, hheader, h⟩ := bind_eq_ok.1 h
      obtain ⟨packet, hadd, h⟩ := bind_eq_ok.1 h
      obtain ⟨_, -, h⟩ := bind_eq_ok.1 h
      cases h
      obtain ⟨hwidth, rfl⟩ := of_checkedDiff_eq_ok hroom
      rw [mapError_eq_ok] at hheader hadd
      rw [Packet.length_add hadd, bits_segmentHeader hheader]
      show f.packet.length + (headerWidth dest + min left _) ≤ bits
      omega

theorem ComesTo.within {result : Filling} (h : ComesTo bits dest f (.ok result))
    (hwithin : f.packet.length ≤ bits) : result.packet.length ≤ bits := by
  generalize hr : (Except.ok result : Except Fault Filling) = r at h
  induction h with
  | stop hround =>
    cases hr
    exact hwithin
  | fail hround => cases hr
  | next hround _ ih => exact ih (round_within hround hwithin) hr

/-! ## Filling from a queue -/

/-- What is queued, as the loop has it. -/
def entries (items : List (Nat × Outgoing)) : List (Nat × Datagram × Nat) :=
  items.map fun e => (e.1, e.2.datagram, e.2.sent)

/-- In a packet whose length is a word, a round leaves no range. -/
theorem round_entries (hfits : f.packet.length ≤ Word.highest) {priority : Nat} {o : Outgoing}
    {rest : List (Nat × Outgoing)} (hqueued : f.queued = entries ((priority, o) :: rest)) :
    f.round bits dest =
      if bits - f.packet.length < o.need (headerWidth dest) then .ok none
      else do
        let room := bits - f.packet.length - headerWidth dest
        let header ← (segmentHeader dest (o.fragment room)).mapError .layer
        let packet ← (f.packet.add (some header)
          (some (.segment (o.segment room)))).mapError fun e => .layer (.packet e)
        return some ⟨packet, entries (if o.left ≤ room then rest
          else (priority, o.advance room) :: rest)⟩ := by
  have hneeded : needed dest o.left = .ok (o.need (headerWidth dest)) := by
    unfold needed Outgoing.need
    split
    · rfl
    · exact checkedSum_eq_ok (headerWidth_le dest)
  have hleft : checkedDiff o.datagram.bits o.sent = .ok o.left := checkedDiff_eq_ok o.sent_le
  have hsent : ∀ room, checkedSum o.sent (min o.left room) = .ok (o.advance room).sent :=
    fun room => checkedSum_eq_ok (Nat.le_trans (o.advance room).sent_le o.datagram.bits_le)
  have hneed : headerWidth dest ≤ o.need (headerWidth dest) := by
    unfold Outgoing.need
    split <;> omega
  rw [round, hqueued, entries, List.map_cons]
  simp only [Packet.bits_eq_ok hfits, hleft, hneeded, bind, Except.bind]
  split
  · rfl
  · next hroom =>
    -- The datagram is finished exactly if what is left of it has room.
    have hmin : ∀ room, (min o.left room = o.left) = (o.left ≤ room) := fun room => by
      rw [eq_iff_iff]
      omega
    rw [checkedDiff_eq_ok (by omega)]
    simp only [hmin, hsent]
    generalize bits - f.packet.length - headerWidth dest = room
    simp only [Outgoing.fragment, Outgoing.segment, apply_ite entries]
    rfl

/-- What becomes of a packet when the pieces that were cut are added to it, and the rest stays
queued. -/
def filled (dest : Address) (packet : Packet)
    (found : List (Fragment × Segment) × List (Nat × Outgoing)) : Except Fault Filling :=
  match addPieces dest found.1 packet with
  | .ok packet => .ok ⟨packet, entries found.2⟩
  | .error e => .error (.layer e)

theorem comesTo_piece (hfits : f.packet.length ≤ Word.highest) {priority : Nat} {o : Outgoing}
    {rest : List (Nat × Outgoing)} (hqueued : f.queued = entries ((priority, o) :: rest))
    (hroom : ¬ bits - f.packet.length < o.need (headerWidth dest)) {room : Nat}
    (hfree : bits - f.packet.length - headerWidth dest = room)
    {c : List (Fragment × Segment) × List (Nat × Outgoing)}
    (hrest : ∀ packet, packet.length = f.packet.length + (headerWidth dest + min o.left room) →
      ComesTo bits dest
        ⟨packet, entries (if o.left ≤ room then rest else (priority, o.advance room) :: rest)⟩
        (filled dest packet c)) :
    ComesTo bits dest f
      (filled dest f.packet ((o.fragment room, o.segment room) :: c.1, c.2)) := by
  have hround : f.round bits dest = _ := round_entries hfits hqueued
  rw [if_neg hroom] at hround
  simp only [hfree] at hround
  simp only [filled, addPieces]
  cases hheader : segmentHeader dest (o.fragment room) with
  | error e =>
    rw [hheader] at hround
    exact .fail hround
  | ok header =>
    rw [hheader] at hround
    simp only [mapError_ok, bind, Except.bind] at hround ⊢
    cases hadd : f.packet.add (some header) (some (.segment (o.segment room))) with
    | error e =>
      rw [hadd] at hround
      exact .fail hround
    | ok packet =>
      rw [hadd] at hround
      refine .next hround (hrest packet ?_)
      rw [Packet.length_add hadd, bits_segmentHeader hheader]
      rfl

/-- The loop does what cutting first and adding then comes to. -/
theorem comesTo_cut (hbits : bits ≤ Word.highest) (items : List (Nat × Outgoing)) (packet : Packet)
    (hpacket : packet.length ≤ Word.highest) : ComesTo bits dest ⟨packet, entries items⟩
      (filled dest packet (cut (headerWidth dest) (bits - packet.length) items)) := by
  induction items generalizing packet with
  | nil => exact .stop rfl
  | cons item rest ih =>
    obtain ⟨priority, o⟩ := item
    by_cases hroom : bits - packet.length < o.need (headerWidth dest)
    · have hcut : cut (headerWidth dest) (bits - packet.length) ((priority, o) :: rest) =
          ([], (priority, o) :: rest) := by rw [cut, if_pos hroom]
      rw [hcut]
      exact .stop ((round_entries hpacket rfl).trans (if_pos hroom))
    · have hneed : headerWidth dest ≤ bits - packet.length ∧
          (o.left = 0 ∨ headerWidth dest < bits - packet.length) := by
        unfold Outgoing.need at hroom
        split at hroom <;> omega
      generalize hfree : bits - packet.length - headerWidth dest = room
      by_cases hleft : o.left ≤ room
      · -- The datagram is finished, and the others follow in the room that is left.
        have hcut : cut (headerWidth dest) (bits - packet.length) ((priority, o) :: rest) =
            ((o.fragment room, o.segment room) :: (cut (headerWidth dest) (room - o.left) rest).1,
              (cut (headerWidth dest) (room - o.left) rest).2) := by
          rw [cut, if_neg hroom]
          simp only [hfree, if_pos hleft]
        rw [hcut]
        refine comesTo_piece hpacket rfl hroom hfree fun built hlength => ?_
        change built.length = packet.length + _ at hlength
        have hbuilt := ih built (by omega)
        rw [if_pos hleft]
        rwa [show bits - built.length = room - o.left by omega] at hbuilt
      · -- The room is used up, so nothing else follows.
        have hcut : cut (headerWidth dest) (bits - packet.length) ((priority, o) :: rest) =
            ([(o.fragment room, o.segment room)], (priority, o.advance room) :: rest) := by
          rw [cut, if_neg hroom]
          simp only [hfree, if_neg hleft]
        rw [hcut]
        refine comesTo_piece (c := ([], (priority, o.advance room) :: rest)) hpacket rfl hroom
          hfree fun built hlength => ?_
        change built.length = packet.length + _ at hlength
        rw [if_neg hleft]
        refine .stop ((round_entries (show built.length ≤ _ by omega) rfl).trans (if_pos ?_))
        have hopen : 0 < (o.advance room).need (headerWidth dest) := by
          unfold Outgoing.need
          split
          · exact headerWidth_pos dest
          · omega
        show bits - built.length < _
        omega

end Filling

/-- **The loop.** Filling a packet for any destination ends, and nothing in it leaves its range: it
comes to the packet that `fill` builds and what that leaves queued, or it fails as `fill` does. -/
theorem SegmentingRlc.comesTo_fill (r : SegmentingRlc) {bits : Nat} (hbits : bits ≤ Word.highest)
    (dest : Address) :
    Filling.ComesTo bits dest ⟨blank, Filling.entries (r.queue dest).items⟩
      (match r.fill bits dest with
        | .ok (packet, after) => .ok ⟨packet, Filling.entries (after.queue dest).items⟩
        | .error e => .error (.layer e)) := by
  have hloop : Filling.ComesTo bits dest _ _ :=
    Filling.comesTo_cut hbits (r.queue dest).items blank (by decide)
  rw [show blank.length = Width.base from rfl] at hloop
  simp only [fill]
  generalize cut (headerWidth dest) (bits - Width.base) (r.queue dest).items = found at hloop ⊢
  obtain ⟨pieces, queued⟩ := found
  unfold Filling.filled at hloop
  simp only at hloop ⊢
  cases hadd : addPieces dest pieces blank with
  | error e =>
    rw [hadd] at hloop
    exact hloop
  | ok packet =>
    rw [hadd] at hloop
    simp only [bind, Except.bind, pure, Except.pure]
    have hqueue : ({ r with queues := r.queues.set dest (PriorityQueue.mk queued).nonempty? } :
        SegmentingRlc).queue dest = ⟨queued⟩ := by
      rw [queue, Table.get?_set, if_pos rfl]
      exact PriorityQueue.getD_nonempty? ⟨queued⟩
    rw [hqueue]
    exact hloop

theorem SegmentingRlc.length_fill {r after : SegmentingRlc} {bits : Nat} {dest : Address}
    {packet : Packet} (hbits : bits ≤ Word.highest) (hbase : Width.base ≤ bits)
    (h : r.fill bits dest = .ok (packet, after)) : packet.length ≤ bits := by
  have hloop := r.comesTo_fill hbits dest
  rw [h] at hloop
  exact hloop.within hbase

end DataLink
