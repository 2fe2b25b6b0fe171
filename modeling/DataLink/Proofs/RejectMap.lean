import DataLink.RejectMap
import DataLink.Proofs.Arq.Ring
import Mathlib.Data.Finset.Dedup
import Mathlib.Data.Finset.Filter
import Mathlib.Data.Finset.Card

/-!
# What a reject map says

A map is written and read with the same anchor. Its bit `i` is set if and only if a number `i` steps
from the anchor was given (`getLsbD_ofMissing`). What is read are therefore those of the given numbers
that have a place (`mem_missing_ofMissing`), the nearest ones first (`pairwise_missing`).

**Theorem (`ofMissing_round_trip`).** For every anchor and every list of numbers, the map made of the
list names the members of the list within the reach of the anchor and nothing else, each once and in
the order of their distance, and it counts them. With an anchor that is unset it is empty.
-/

namespace DataLink.RejectMap

open SequenceNumber

variable {anchor s : SequenceNumber} {m : RejectMap}

/-! ## Writing -/

theorem slot?_eq_some_iff {i : Nat} :
    slot? anchor s = some i ↔ anchor.distance? s = some i ∧ i < width := by
  rw [slot?]
  cases anchor.distance? s with
  | none => simp
  | some d =>
    simp only [Option.ite_none_right_eq_some, Option.some.injEq]
    constructor
    · rintro ⟨hd, rfl⟩
      exact ⟨rfl, hd⟩
    · rintro ⟨rfl, hd⟩
      exact ⟨hd, rfl⟩

theorem getLsbD_reject (m : RejectMap) (anchor s : SequenceNumber) (i : Nat) :
    (m.reject anchor s).1.bits.getLsbD i = true ↔
      m.bits.getLsbD i = true ∨ slot? anchor s = some i := by
  rw [reject]
  cases hslot : slot? anchor s with
  | none => simp
  | some j =>
    have hj : j < 16 := (slot?_eq_some_iff.1 hslot).2
    simp [BitVec.getLsbD_or, BitVec.getLsbD_twoPow, hj]

/-- A bit is set if and only if it stands for one of the given numbers. -/
theorem getLsbD_ofMissing (anchor : SequenceNumber) (seqs : List SequenceNumber) (i : Nat) :
    (ofMissing anchor seqs).bits.getLsbD i = true ↔ ∃ s ∈ seqs, slot? anchor s = some i := by
  have hfold : ∀ m : RejectMap,
      (seqs.foldl (fun m s => (m.reject anchor s).1) m).bits.getLsbD i = true ↔
        m.bits.getLsbD i = true ∨ ∃ s ∈ seqs, slot? anchor s = some i := by
    induction seqs with
    | nil => simp
    | cons s rest ih =>
      intro m
      rw [List.foldl_cons, ih, getLsbD_reject]
      simp [or_assoc]
  rw [ofMissing, hfold]
  simp [empty]

/-! ## Reading -/

theorem mem_slots_iff {i : Nat} : i ∈ m.slots ↔ i < width ∧ m.bits.getLsbD i = true := by
  simp [slots]

theorem mem_missing_iff (hset : anchor.isSet = true) :
    s ∈ m.missing anchor ↔
      ∃ d, anchor.distance? s = some d ∧ d < width ∧ m.bits.getLsbD d = true := by
  simp only [missing, List.mem_map, mem_slots_iff]
  constructor
  · rintro ⟨d, ⟨hd, hbit⟩, rfl⟩
    exact ⟨d, (distance?_eq_some_iff hset).2 ⟨Nat.lt_trans hd (by decide), rfl⟩, hd, hbit⟩
  · rintro ⟨d, hdist, hd, hbit⟩
    exact ⟨d, ⟨hd, hbit⟩, ((distance?_eq_some_iff hset).1 hdist).2.symm⟩

/-- What is read are those of the given numbers that are near enough. -/
theorem mem_missing_ofMissing (hset : anchor.isSet = true) {seqs : List SequenceNumber} :
    s ∈ (ofMissing anchor seqs).missing anchor ↔
      s ∈ seqs ∧ ∃ d, anchor.distance? s = some d ∧ d < width := by
  rw [mem_missing_iff hset]
  constructor
  · rintro ⟨d, hdist, hd, hbit⟩
    obtain ⟨t, ht, hslot⟩ := (getLsbD_ofMissing anchor seqs d).1 hbit
    have hs : s = anchor.forward d := ((distance?_eq_some_iff hset).1 hdist).2
    have ht' : t = anchor.forward d :=
      ((distance?_eq_some_iff hset).1 (slot?_eq_some_iff.1 hslot).1).2
    exact ⟨hs.trans ht'.symm ▸ ht, d, hdist, hd⟩
  · rintro ⟨hs, d, hdist, hd⟩
    exact ⟨d, hdist, hd, (getLsbD_ofMissing anchor seqs d).2 ⟨s, hs, slot?_eq_some_iff.2 ⟨hdist, hd⟩⟩⟩

theorem pairwise_missing (hset : anchor.isSet = true) (m : RejectMap) :
    (m.missing anchor).Pairwise fun s t => ∃ d e, anchor.distance? s = some d ∧
      anchor.distance? t = some e ∧ d < e := by
  have hslots : m.slots.Pairwise (· < ·) := List.pairwise_lt_range.filter _
  rw [missing, List.pairwise_map]
  refine hslots.imp_of_mem fun {d e} hd he hlt => ?_
  have hdist : ∀ i ∈ m.slots, anchor.distance? (anchor.forward i) = some i := fun i hi =>
    (distance?_eq_some_iff hset).2 ⟨Nat.lt_trans (mem_slots_iff.1 hi).1 (by decide), rfl⟩
  exact ⟨d, e, hdist d hd, hdist e he, hlt⟩

/-! ## There and back -/

/-- `s` lies at most fifteen steps ahead of the anchor; nothing does if either is unset. -/
def IsInReach (anchor s : SequenceNumber) : Prop := ∃ d ∈ anchor.distance? s, d < width

instance (anchor s : SequenceNumber) : Decidable (IsInReach anchor s) :=
  inferInstanceAs (Decidable (∃ d ∈ anchor.distance? s, d < width))

/-- What is in reach of an anchor is what is met on the first fifteen steps from it. -/
theorem isInReach_iff (hset : anchor.isSet = true) :
    IsInReach anchor s ↔ ∃ d < width, s = anchor.forward d := by
  constructor
  · rintro ⟨d, hdist, hd⟩
    exact ⟨d, hd, ((distance?_eq_some_iff hset).1 hdist).2⟩
  · rintro ⟨d, hd, hs⟩
    exact ⟨d, (distance?_eq_some_iff hset).2 ⟨Nat.lt_trans hd (by decide), hs⟩, hd⟩

theorem distance?_of_not_isSet (hset : anchor.isSet = false) : anchor.distance? s = none := by
  have hraw : anchor.raw = 0 := by simpa [isSet] using hset
  rw [distance?, if_pos (Or.inl hraw)]

theorem not_isInReach_of_not_isSet (hset : anchor.isSet = false) : ¬ IsInReach anchor s := by
  rintro ⟨d, hdist, -⟩
  rw [distance?_of_not_isSet hset] at hdist
  cases hdist

theorem ofMissing_of_not_isSet (hset : anchor.isSet = false) (seqs : List SequenceNumber) :
    ofMissing anchor seqs = empty := by
  have hreject : ∀ s, (empty.reject anchor s).1 = empty := fun s => by
    rw [reject, slot?, distance?_of_not_isSet hset]
  induction seqs with
  | nil => rfl
  | cons s rest ih =>
    rw [ofMissing, List.foldl_cons, hreject]
    exact ih

theorem missing_empty (anchor : SequenceNumber) : empty.missing anchor = [] := by
  simp [missing, slots, empty]

theorem mem_missing_ofMissing_iff {seqs : List SequenceNumber} :
    s ∈ (ofMissing anchor seqs).missing anchor ↔ s ∈ seqs ∧ IsInReach anchor s := by
  cases hset : anchor.isSet with
  | true => exact mem_missing_ofMissing hset
  | false =>
    rw [ofMissing_of_not_isSet hset, missing_empty]
    simp [not_isInReach_of_not_isSet hset]

theorem isRejected_ofMissing_iff {seqs : List SequenceNumber} :
    (ofMissing anchor seqs).isRejected anchor s = true ↔ s ∈ seqs ∧ IsInReach anchor s := by
  rw [← mem_missing_ofMissing_iff]
  cases hset : anchor.isSet with
  | true =>
    rw [mem_missing_iff hset, isRejected]
    cases hslot : slot? anchor s with
    | none =>
      constructor
      · intro h
        cases h
      · rintro ⟨d, hdist, hd, -⟩
        rw [slot?_eq_some_iff.2 ⟨hdist, hd⟩] at hslot
        cases hslot
    | some i =>
      obtain ⟨hdist, hi⟩ := slot?_eq_some_iff.1 hslot
      constructor
      · exact fun hbit => ⟨i, hdist, hi, hbit⟩
      · rintro ⟨d, hdist', -, hbit⟩
        obtain rfl : i = d := Option.some.inj (hdist.symm.trans hdist')
        exact hbit
  | false =>
    rw [ofMissing_of_not_isSet hset, missing_empty, isRejected, slot?, distance?_of_not_isSet hset]
    simp

/-- The numbers of a map that was made of a list are read in the order of their distance, each once. -/
theorem pairwise_missing_ofMissing (anchor : SequenceNumber) (seqs : List SequenceNumber) :
    ((ofMissing anchor seqs).missing anchor).Pairwise fun s t =>
      ∃ d e, anchor.distance? s = some d ∧ anchor.distance? t = some e ∧ d < e := by
  cases hset : anchor.isSet with
  | true => exact pairwise_missing hset _
  | false =>
    rw [ofMissing_of_not_isSet hset, missing_empty]
    exact List.Pairwise.nil

theorem size_eq_length_missing (m : RejectMap) (anchor : SequenceNumber) :
    m.size = (m.missing anchor).length := by
  rw [size, missing, List.length_map]

theorem size_ofMissing (anchor : SequenceNumber) (seqs : List SequenceNumber) :
    (ofMissing anchor seqs).size = (seqs.toFinset.filter (IsInReach anchor)).card := by
  have hnodup : ((ofMissing anchor seqs).missing anchor).Nodup := by
    refine (pairwise_missing_ofMissing anchor seqs).imp ?_
    rintro s t ⟨d, e, hd, he, hlt⟩ rfl
    have hde : d = e := Option.some.inj (hd.symm.trans he)
    omega
  have hsame : seqs.toFinset.filter (IsInReach anchor) =
      ((ofMissing anchor seqs).missing anchor).toFinset := by
    ext s
    rw [Finset.mem_filter, List.mem_toFinset, List.mem_toFinset, mem_missing_ofMissing_iff]
  rw [hsame, List.toFinset_card_of_nodup hnodup, size_eq_length_missing _ anchor]

/-- **There and back.** What a list of numbers, of any length and order, gives back from the map that
is made of it: those of its members that lie in reach of the anchor. They are read in the order of
their distance and each once; for these and no other number the map says that it is missing; and it
counts them. An anchor that is unset gives the empty map. -/
theorem ofMissing_round_trip (anchor : SequenceNumber) (seqs : List SequenceNumber) :
    (∀ s, s ∈ (ofMissing anchor seqs).missing anchor ↔ s ∈ seqs ∧ IsInReach anchor s) ∧
    (((ofMissing anchor seqs).missing anchor).Pairwise fun s t =>
      ∃ d e, anchor.distance? s = some d ∧ anchor.distance? t = some e ∧ d < e) ∧
    (∀ s, (ofMissing anchor seqs).isRejected anchor s = true ↔ s ∈ seqs ∧ IsInReach anchor s) ∧
    (ofMissing anchor seqs).size = (seqs.toFinset.filter (IsInReach anchor)).card ∧
    (anchor.isSet = false → ofMissing anchor seqs = empty) :=
  ⟨fun _ => mem_missing_ofMissing_iff, pairwise_missing_ofMissing anchor seqs,
    fun _ => isRejected_ofMissing_iff, size_ofMissing anchor seqs,
    fun hset => ofMissing_of_not_isSet hset seqs⟩

/-- Across the end of the ring, with a number given twice, one too far ahead and one unset. -/
example : (ofMissing ⟨250, by omega⟩ [⟨3, by omega⟩, ⟨254, by omega⟩, .unset, ⟨3, by omega⟩,
    ⟨40, by omega⟩]).missing ⟨250, by omega⟩ = [⟨254, by omega⟩, ⟨3, by omega⟩] := by decide

end DataLink.RejectMap
