import DataLink.Proofs.Rlc.RoundTrip
import Mathlib.Algebra.Order.BigOperators.Group.List
import Mathlib.Algebra.Order.Group.Nat

/-!
# Streams

The segments of a packet may be on several channels. Each stream takes in those of its own channel,
as if they had come alone (`Reassembly.get?_absorb`).

What a stream holds is all or nothing: a segment that does not continue it discards it, and nothing
but a new start brings the datagram back (`Partial.lacks_absorb`).
-/

namespace DataLink

/-- The segments of one channel. -/
def Reassembly.onChannel (channel : Address) (segments : List (Address × Fragment × Segment)) :
    List (Fragment × Segment) :=
  segments.filterMap fun s => if s.1 = channel then some s.2 else none

theorem Reassembly.get?_absorb {origin : Address} {segments : List (Address × Fragment × Segment)}
    {streams after : Reassembly} {complete : List Datagram}
    (h : absorb origin segments streams = .ok (complete, after)) (channel : Address) :
    ∃ found, Partial.absorb (streams.get? ⟨origin, channel⟩) (onChannel channel segments) =
      .ok (found, after.get? ⟨origin, channel⟩) := by
  induction segments generalizing streams complete with
  | nil =>
    cases h
    exact ⟨[], rfl⟩
  | cons s rest ih =>
    obtain ⟨own, fragment, segment⟩ := s
    rw [absorb, bind_eq_ok] at h
    obtain ⟨⟨first, next⟩, hfirst, h⟩ := h
    obtain ⟨⟨others, final⟩, hothers, h⟩ := bind_eq_ok.1 h
    cases h
    obtain ⟨found, hfound⟩ := ih hothers
    by_cases hown : own = channel
    · subst hown
      rw [Table.get?_set_self] at hfound
      refine ⟨first.toList ++ found, ?_⟩
      simp only [onChannel, List.filterMap_cons, if_true, Partial.absorb, hfirst, bind, Except.bind]
      rw [onChannel] at hfound
      rw [hfound]
      rfl
    · have hother : (⟨origin, own⟩ : Stream) ≠ ⟨origin, channel⟩ := fun e => hown (by cases e; rfl)
      rw [Table.get?_set, if_neg hother] at hfound
      refine ⟨found, ?_⟩
      simpa only [onChannel, List.filterMap_cons, if_neg hown] using hfound

/-! ## What a stream loses -/

namespace Partial

/-- Nothing of the datagram is held. -/
def Lacks (d : Datagram) (held : Option Partial) : Prop := ∀ p ∈ held, p.datagram ≠ d

theorem lacks_extend {d : Datagram} {held after : Option Partial} {fragment : Fragment}
    {segment : Segment} {complete : Option Datagram} (hother : segment.datagram ≠ d)
    (hheld : ∀ p ∈ held, p.datagram = d → p.received ≠ segment.offset)
    (h : extend held fragment segment = .ok (complete, after)) : Lacks d after := by
  unfold extend at h
  split at h
  · cases h
    exact fun _ hp => by cases hp
  · next p hp =>
    split at h
    · cases h
      exact fun _ hq => by cases hq
    · next hoffset =>
      have hp' : p.datagram ≠ d := by
        split at hp
        · cases hp
          exact hother
        · exact fun hd => hheld p hp hd (not_not.1 hoffset)
      obtain ⟨received, -, h⟩ := bind_eq_ok.1 h
      split at h
      · cases h
        exact fun _ hq => by cases hq
      · cases h
        rintro q hq
        cases hq
        exact hp'

theorem Lacks.absorb {d : Datagram} {held last : Option Partial}
    {pieces : List (Fragment × Segment)} {complete : List Datagram} (hheld : Lacks d held)
    (hothers : ∀ p ∈ pieces, p.2.datagram ≠ d)
    (h : Partial.absorb held pieces = .ok (complete, last)) : Lacks d last := by
  induction pieces generalizing held complete with
  | nil =>
    cases h
    exact hheld
  | cons p rest ih =>
    obtain ⟨fragment, segment⟩ := p
    rw [Partial.absorb, bind_eq_ok] at h
    obtain ⟨⟨first, next⟩, hfirst, h⟩ := h
    obtain ⟨⟨others, final⟩, hrest, h⟩ := bind_eq_ok.1 h
    cases h
    refine ih ?_ (fun p hp => hothers p (List.mem_cons_of_mem _ hp)) hrest
    exact lacks_extend (hothers _ List.mem_cons_self) (fun p hp hd => absurd hd (hheld p hp)) hfirst

/-- A segment that does not continue what is held discards it for good. -/
theorem lacks_absorb {held : Partial} {last : Option Partial} {fragment : Fragment}
    {segment : Segment} {rest : List (Fragment × Segment)} {complete : List Datagram}
    (hoffset : held.received ≠ segment.offset)
    (hothers : ∀ p ∈ (fragment, segment) :: rest, p.2.datagram ≠ held.datagram)
    (h : Partial.absorb (some held) ((fragment, segment) :: rest) = .ok (complete, last)) :
    Lacks held.datagram last := by
  rw [Partial.absorb, bind_eq_ok] at h
  obtain ⟨⟨first, next⟩, hfirst, h⟩ := h
  obtain ⟨⟨others, final⟩, hrest, h⟩ := bind_eq_ok.1 h
  cases h
  refine Lacks.absorb ?_ (fun p hp => hothers p (List.mem_cons_of_mem _ hp)) hrest
  refine lacks_extend (hothers _ List.mem_cons_self) ?_ hfirst
  rintro p hp -
  cases hp
  exact hoffset

end Partial

theorem Datagram.exists_not_mem (datagrams : List Datagram) : ∃ d : Datagram, d ∉ datagrams := by
  refine ⟨⟨Array.replicate ((datagrams.map fun d => d.bytes.size).sum + 1) 0⟩, fun hmem => ?_⟩
  have hle := List.le_sum_of_mem (List.mem_map_of_mem (f := fun d : Datagram => d.bytes.size) hmem)
  simp only [Array.size_replicate] at hle
  omega

end DataLink
