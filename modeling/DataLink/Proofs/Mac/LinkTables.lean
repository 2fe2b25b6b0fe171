import DataLink.Proofs.Mac.Schedule
import Mathlib.Data.List.Lattice

/-!
# The tables of links

The MAC keeps three tables for its links: those that are established, the stations that are still to
be asked for one, and those that were asked, with the slot in which they were. Demand reports,
time-outs, requests and replies move a station from one table to the other, and a call that fails
may stop half-way.

**The tables exclude each other** (`SlotMac.IsExclusive`). Nobody has two places in them, only
stations are asked, and nobody was asked in a slot that is still to come.

**They are timely** (`SlotMac.IsTimely`). An answer that is overdue is asked for again. This takes
place whenever a slot gets as far as asking for links, so it holds after every slot that succeeds.

**Theorem (`SlotMac.isExclusive_run`).** Over any surroundings, both hold in every state of a run.

While the MAC asks for links, those who are still to be asked are in no table. Should that fail, they
are lost, which leaves the tables exclusive. So the invariant of that loop is about the tables with
the rest of the list put back (`SlotMac.Asks`).
-/

namespace DataLink

namespace SlotMac

/-! ## Who is asked -/

/-- A link to `dest` is asked for, or to be asked for. -/
def isAsked (m : SlotMac) (dest : Address) : Bool :=
  m.awaiting.contains dest || m.pending.contains dest

/-- Only stations are asked for a link, and only those that have none. -/
def IsTracked (m : SlotMac) : Prop :=
  ∀ dest, m.isAsked dest = true → dest.isSymbolic = false ∧ m.hasLink dest = false

variable {m after : SlotMac} {dest id : Address}

theorem isLinking_eq (m : SlotMac) (dest : Address) :
    m.isLinking dest = (m.hasLink dest || m.isAsked dest) := Bool.or_assoc _ _ _

/-- The same links, and the same stations that are asked for one, in whichever table they are. -/
structure LinksAlike (m after : SlotMac) : Prop where
  links : after.links = m.links
  asked : ∀ dest, after.isAsked dest = m.isAsked dest

theorem LeavesLinks.linksAlike (h : m.LeavesLinks after) : m.LinksAlike after :=
  ⟨h.links, fun dest => by rw [isAsked, h.awaiting, h.pending, isAsked]⟩

theorem LinksAlike.hasLink (h : m.LinksAlike after) (dest : Address) :
    after.hasLink dest = m.hasLink dest := by
  rw [SlotMac.hasLink, h.links, SlotMac.hasLink]

theorem LinksAlike.isLinking (h : m.LinksAlike after) (dest : Address) :
    after.isLinking dest = m.isLinking dest := by
  rw [isLinking_eq, h.hasLink, h.asked, isLinking_eq]

theorem LinksAlike.isTracked (h : m.LinksAlike after) (hm : m.IsTracked) : after.IsTracked := by
  intro dest hdest
  rw [h.hasLink]
  exact hm dest (h.asked dest ▸ hdest)

theorem linksAlike_renewOverdue (m : SlotMac) : m.LinksAlike m.renewOverdue := by
  refine ⟨rfl, fun dest => ?_⟩
  have hoverdue : m.overdue.contains dest =
      (m.awaiting.get? dest).any fun asked => linkRequestTimeout ≤ m.slot - asked := by
    rw [overdue, Address.sort, Bool.eq_iff_iff, List.contains_iff_mem,
      (Address.sortBy_perm _).mem_iff, Table.mem_keys_iff, Table.contains, Table.get?_filter]
    cases m.awaiting.get? dest with
    | none => rfl
    | some asked => rw [Option.isSome_filter]
  simp only [isAsked, renewOverdue, Table.contains, Table.get?_filter, List.contains_append,
    hoverdue]
  cases m.awaiting.get? dest with
  | none => simp
  | some asked =>
    by_cases h : m.slot - asked < linkRequestTimeout
    · simp [h]
    · simp [h, Nat.le_of_not_lt h]

/-- A demand for a station has it asked for a link, unless it is being linked. -/
theorem IsTracked.notifyOutgoing (h : m.IsTracked) (bits : Nat) (dest : Address) :
    (m.notifyOutgoing bits dest).IsTracked ∧ ∀ other, (m.notifyOutgoing bits dest).isLinking other =
      (m.isLinking other || other = dest && !dest.isSymbolic) := by
  simp only [SlotMac.notifyOutgoing]
  split
  · next hcond =>
    refine ⟨h, fun other => ?_⟩
    change m.isLinking other = _
    by_cases hother : other = dest
    · subst hother
      rcases Bool.or_eq_true_iff.1 hcond with hsymbolic | hlinking
      · simp [hsymbolic]
      · simp [hlinking]
    · simp [hother]
  · next hcond =>
    rw [Bool.not_eq_true, Bool.or_eq_false_iff, isLinking_eq, Bool.or_eq_false_iff] at hcond
    obtain ⟨hsymbolic, hlink, -⟩ := hcond
    have hasked : ∀ other, (m.awaiting.contains other || (m.pending ++ [dest]).contains other) =
        (m.isAsked other || other = dest) := fun other => by
      rw [List.contains_append, ← Bool.or_assoc, isAsked]
      simp
    refine ⟨fun other hother => ?_, fun other => ?_⟩
    · change (m.awaiting.contains other || (m.pending ++ [dest]).contains other) = true at hother
      rw [hasked, Bool.or_eq_true, decide_eq_true_eq] at hother
      rcases hother with hother | rfl
      · exact h other hother
      · exact ⟨hsymbolic, hlink⟩
    · rw [isLinking_eq, isLinking_eq, Bool.or_assoc, hsymbolic, Bool.not_false, Bool.and_true]
      congr 1
      exact hasked other

theorem contains_filter_ne (l : List Address) (id dest : Address) :
    (l.filter fun other => other ≠ id).contains dest = (dest ≠ id && l.contains dest) := by
  rw [Bool.eq_iff_iff, List.contains_iff_mem, List.mem_filter, Bool.and_eq_true,
    List.contains_iff_mem, and_comm]

theorem isAsked_stopped (m : SlotMac) (id dest : Address) (links schedule : List Address) :
    isAsked { m with
      pending := m.pending.filter fun other => other ≠ id
      awaiting := m.awaiting.erase id
      links := links
      schedule := schedule } dest = (dest ≠ id && m.isAsked dest) := by
  rw [isAsked, contains_filter_ne, Table.contains, Table.get?_erase, isAsked, Bool.and_or_distrib_left]
  by_cases hdest : id = dest
  · simp [hdest]
  · simp [hdest, Ne.symm hdest, Table.contains]

theorem IsTracked.establishLink (h : m.IsTracked) (id : Address) (links schedule : List Address)
    (hlinks : ∀ dest, dest ≠ id → links.contains dest = m.hasLink dest) :
    let after := { m with
      pending := m.pending.filter fun other => other ≠ id
      awaiting := m.awaiting.erase id
      links := links
      schedule := schedule }
    after.IsTracked ∧ ∀ dest, dest ≠ id → after.isLinking dest = m.isLinking dest := by
  refine ⟨fun dest hdest => ?_, fun dest hdest => ?_⟩
  · rw [isAsked_stopped, Bool.and_eq_true, decide_eq_true_eq] at hdest
    obtain ⟨hsymbolic, hlink⟩ := h dest hdest.2
    exact ⟨hsymbolic, (hlinks dest hdest.1).trans hlink⟩
  · rw [isLinking_eq, isAsked_stopped, decide_eq_true hdest, Bool.true_and, isLinking_eq]
    exact congrArg (· || m.isAsked dest) (hlinks dest hdest)

theorem IsTracked.removeLink (h : m.IsTracked) (hlink : m.hasLink id = true)
    (schedule : List Address) :
    let after := { m with links := m.links.filter fun peer => peer ≠ id, schedule := schedule }
    after.IsTracked ∧ ∀ dest, after.isLinking dest = (dest ≠ id && m.isLinking dest) := by
  refine ⟨fun dest hdest => ?_, fun dest => ?_⟩
  · obtain ⟨hsymbolic, hnone⟩ := h dest hdest
    refine ⟨hsymbolic, ?_⟩
    rw [hasLink, contains_filter_ne, ← hasLink, hnone, Bool.and_false]
  · have hid : m.isAsked id = false := by
      rw [Bool.eq_false_iff]
      intro hasked
      cases hlink.symm.trans (h id hasked).2
    have hasked : m.isAsked dest = (dest ≠ id && m.isAsked dest) := by
      by_cases hdest : dest = id
      · rw [hdest, hid, Bool.and_false]
      · rw [decide_eq_true hdest, Bool.true_and]
    rw [isLinking_eq, hasLink, contains_filter_ne, isLinking_eq, Bool.and_or_distrib_left]
    exact congrArg _ hasked

theorem linksAlike_ask (m : SlotMac) (next : Address) (rest : List Address) :
    LinksAlike { m with pending := m.pending ++ next :: rest }
      { m with awaiting := m.awaiting.insert next m.slot, pending := m.pending ++ rest } := by
  refine ⟨rfl, fun dest => ?_⟩
  simp only [isAsked, Table.contains, Table.get?_insert, List.contains_append, List.contains_cons]
  by_cases hnext : next = dest
  · simp [hnext]
  · simp [hnext, beq_eq_false_iff_ne.2 (Ne.symm hnext)]

/-! ## One place for each station -/

/-- The tables exclude each other, nobody is to be asked twice, only stations are asked, and nobody
was asked later than now. -/
structure IsExclusive (m : SlotMac) : Prop where
  links_pending : m.links.Disjoint m.pending
  links_awaiting : m.links.Disjoint m.awaiting.keys
  pending_awaiting : m.pending.Disjoint m.awaiting.keys
  once : m.pending.Nodup
  station : ∀ dest, dest ∈ m.pending ∨ dest ∈ m.awaiting.keys → dest.isSymbolic = false
  dated : ∀ dest asked, m.awaiting.get? dest = some asked → asked ≤ m.slot

/-- Nobody was asked so long ago that the answer is overdue. -/
def IsTimely (m : SlotMac) : Prop :=
  ∀ dest asked, m.awaiting.get? dest = some asked → m.slot - asked < linkRequestTimeout

theorem isAsked_iff : m.isAsked dest = true ↔ dest ∈ m.pending ∨ dest ∈ m.awaiting.keys := by
  rw [isAsked, Bool.or_eq_true, List.contains_iff_mem, Table.mem_keys_iff, or_comm]

/-- The tables exclude each other if only stations without a link are asked, and each of those is in
one of two tables. -/
theorem isExclusive_iff : m.IsExclusive ↔ m.IsTracked ∧ m.pending.Disjoint m.awaiting.keys ∧
    m.pending.Nodup ∧ ∀ dest asked, m.awaiting.get? dest = some asked → asked ≤ m.slot := by
  constructor
  · intro h
    refine ⟨fun dest hdest => ?_, h.pending_awaiting, h.once, h.dated⟩
    have hasked := isAsked_iff.1 hdest
    refine ⟨h.station dest hasked, ?_⟩
    rw [Bool.eq_false_iff]
    intro hlink
    have hmem : dest ∈ m.links := List.contains_iff_mem.1 hlink
    cases hasked with
    | inl hpending => exact h.links_pending hmem hpending
    | inr hawaiting => exact h.links_awaiting hmem hawaiting
  · rintro ⟨htracked, hapart, honce, hdated⟩
    have hnot : ∀ dest ∈ m.links, ¬ (dest ∈ m.pending ∨ dest ∈ m.awaiting.keys) := by
      intro dest hmem hasked
      have hlink : m.hasLink dest = true := List.contains_iff_mem.2 hmem
      cases hlink.symm.trans (htracked dest (isAsked_iff.2 hasked)).2
    exact ⟨fun dest hmem hpending => hnot dest hmem (Or.inl hpending),
      fun dest hmem hawaiting => hnot dest hmem (Or.inr hawaiting), hapart, honce,
      fun dest hasked => (htracked dest (isAsked_iff.2 hasked)).1, hdated⟩

/-- A MAC with the same tables excludes as much, and more so later. -/
theorem IsExclusive.congr (h : m.IsExclusive) (hlinks : after.links = m.links)
    (hpending : after.pending.Sublist m.pending) (hawaiting : after.awaiting = m.awaiting)
    (hslot : m.slot ≤ after.slot) : after.IsExclusive := by
  refine ⟨?_, ?_, ?_, hpending.nodup h.once, ?_, ?_⟩
  · rw [hlinks]
    exact List.disjoint_of_subset_right hpending.subset h.links_pending
  · rw [hlinks, hawaiting]
    exact h.links_awaiting
  · rw [hawaiting]
    exact List.disjoint_of_subset_left hpending.subset h.pending_awaiting
  · intro dest hdest
    rw [hawaiting] at hdest
    exact h.station dest (hdest.imp_left fun hmem => hpending.subset hmem)
  · intro dest asked hasked
    rw [hawaiting] at hasked
    exact Nat.le_trans (h.dated dest asked hasked) hslot

theorem LeavesLinks.isExclusive (hm : m.LeavesLinks after) (h : m.IsExclusive) :
    after.IsExclusive :=
  h.congr hm.links (hm.pending ▸ .refl _) hm.awaiting (Nat.le_of_eq hm.slot.symm)

theorem LeavesLinks.isTimely (hm : m.LeavesLinks after) (h : m.IsTimely) : after.IsTimely := by
  intro dest asked hasked
  rw [hm.awaiting] at hasked
  rw [hm.slot]
  exact h dest asked hasked

/-! ### Asking again -/

theorem mem_overdue_iff : dest ∈ m.overdue ↔
    ∃ asked, m.awaiting.get? dest = some asked ∧ linkRequestTimeout ≤ m.slot - asked := by
  rw [overdue, Address.sort, (Address.sortBy_perm _).mem_iff, Table.mem_keys_iff, Table.contains,
    Table.get?_filter, Option.isSome_iff_exists]
  simp [Option.filter_eq_some_iff]

theorem nodup_overdue (m : SlotMac) : m.overdue.Nodup :=
  (Address.sortBy_perm _).nodup_iff.2 (Table.nodup_keys _)

theorem isTimely_renewOverdue (m : SlotMac) : m.renewOverdue.IsTimely := by
  intro dest asked hasked
  rw [renewOverdue, Table.get?_filter, Option.filter_eq_some_iff] at hasked
  exact of_decide_eq_true hasked.2

theorem IsExclusive.renewOverdue (h : m.IsExclusive) : m.renewOverdue.IsExclusive := by
  obtain ⟨htracked, hapart, honce, hdated⟩ := isExclusive_iff.1 h
  have hkept : ∀ dest asked, m.renewOverdue.awaiting.get? dest = some asked →
      m.awaiting.get? dest = some asked ∧ m.slot - asked < linkRequestTimeout := by
    intro dest asked hasked
    rw [SlotMac.renewOverdue, Table.get?_filter, Option.filter_eq_some_iff] at hasked
    exact ⟨hasked.1, of_decide_eq_true hasked.2⟩
  have hwaits : ∀ {dest}, dest ∈ m.overdue → dest ∈ m.awaiting.keys := by
    intro dest hdest
    obtain ⟨asked, hasked, -⟩ := mem_overdue_iff.1 hdest
    rw [Table.mem_keys_iff, Table.contains, hasked]
    rfl
  refine isExclusive_iff.2 ⟨(linksAlike_renewOverdue m).isTracked htracked, ?_, ?_, ?_⟩
  · intro dest hdest hawaiting
    rw [Table.mem_keys_iff, Table.contains, Option.isSome_iff_exists] at hawaiting
    obtain ⟨asked, hasked⟩ := hawaiting
    obtain ⟨hasked, hearly⟩ := hkept dest asked hasked
    cases List.mem_append.1 hdest with
    | inl hpending =>
      refine hapart hpending ?_
      rw [Table.mem_keys_iff, Table.contains, hasked]
      rfl
    | inr hoverdue =>
      obtain ⟨asked', hasked', hlate⟩ := mem_overdue_iff.1 hoverdue
      rw [hasked] at hasked'
      cases hasked'
      omega
  · refine List.nodup_append.2 ⟨honce, nodup_overdue m, ?_⟩
    intro dest hpending other hoverdue heq
    subst heq
    exact hapart hpending (hwaits hoverdue)
  · intro dest asked hasked
    exact hdated dest asked (hkept dest asked hasked).1

/-! ### Asking -/

theorem IsExclusive.ask {next : Address} {rest : List Address}
    (h : IsExclusive { m with pending := next :: rest }) :
    IsExclusive { m with awaiting := m.awaiting.insert next m.slot, pending := rest } := by
  obtain ⟨htracked, hapart, honce, hdated⟩ := isExclusive_iff.1 h
  obtain ⟨hnext, hrest⟩ := List.nodup_cons.1 honce
  refine isExclusive_iff.2
    ⟨(linksAlike_ask { m with pending := [] } next rest).isTracked htracked, ?_, hrest, ?_⟩
  · intro dest hdest hawaiting
    have hne : next ≠ dest := by
      rintro rfl
      exact hnext hdest
    rw [Table.mem_keys_iff, Table.contains, Table.get?_insert, if_neg hne] at hawaiting
    exact hapart (List.mem_cons_of_mem _ hdest) (Table.mem_keys_iff.2 hawaiting)
  · intro dest asked hasked
    rw [Table.get?_insert] at hasked
    split at hasked
    · cases hasked
      exact Nat.le_refl _
    · exact hdated dest asked hasked

theorem IsTimely.ask (h : m.IsTimely) (next : Address) :
    IsTimely { m with awaiting := m.awaiting.insert next m.slot } := by
  intro dest asked hasked
  rw [Table.get?_insert] at hasked
  split at hasked
  · cases hasked
    simp [linkRequestTimeout]
  · exact h dest asked hasked

/-! ### Links and demands -/

theorem IsExclusive.establishLink (h : m.IsExclusive) (id : Address) (links schedule : List Address)
    (hlinks : ∀ dest, dest ≠ id → links.contains dest = m.hasLink dest) :
    IsExclusive { m with
      pending := m.pending.filter fun other => other ≠ id
      awaiting := m.awaiting.erase id
      links := links
      schedule := schedule } := by
  obtain ⟨htracked, hapart, honce, hdated⟩ := isExclusive_iff.1 h
  refine isExclusive_iff.2
    ⟨(htracked.establishLink id links schedule hlinks).1, ?_, honce.filter _, ?_⟩
  · intro dest hdest hawaiting
    rw [Table.mem_keys_iff, Table.contains, Table.get?_erase] at hawaiting
    split at hawaiting
    · cases hawaiting
    · exact hapart (List.mem_filter.1 hdest).1 (Table.mem_keys_iff.2 hawaiting)
  · intro dest asked hasked
    rw [Table.get?_erase] at hasked
    split at hasked
    · cases hasked
    · exact hdated dest asked hasked

theorem IsExclusive.dropLink (h : m.IsExclusive) (hlink : m.hasLink id = true)
    (schedule : List Address) :
    IsExclusive { m with links := m.links.filter fun peer => peer ≠ id, schedule := schedule } := by
  obtain ⟨htracked, hrest⟩ := isExclusive_iff.1 h
  exact isExclusive_iff.2 ⟨(htracked.removeLink hlink schedule).1, hrest⟩

theorem IsExclusive.notifyOutgoing (h : m.IsExclusive) (bits : Nat) (dest : Address) :
    (m.notifyOutgoing bits dest).IsExclusive := by
  obtain ⟨htracked, hapart, honce, hdated⟩ := isExclusive_iff.1 h
  have htracked' := (htracked.notifyOutgoing bits dest).1
  simp only [SlotMac.notifyOutgoing] at htracked' ⊢
  by_cases hcond : (dest.isSymbolic || m.isLinking dest) = true
  · rw [if_pos hcond] at htracked' ⊢
    exact isExclusive_iff.2 ⟨htracked', hapart, honce, hdated⟩
  · rw [if_neg hcond] at htracked' ⊢
    rw [Bool.not_eq_true, Bool.or_eq_false_iff, isLinking_eq, Bool.or_eq_false_iff] at hcond
    have hnot : ¬ (dest ∈ m.pending ∨ dest ∈ m.awaiting.keys) := by
      rw [← isAsked_iff, hcond.2.2]
      simp
    refine isExclusive_iff.2 ⟨htracked', ?_, ?_, hdated⟩
    · intro other hother hawaiting
      cases List.mem_append.1 hother with
      | inl hpending => exact hapart hpending hawaiting
      | inr hdest =>
        rw [List.mem_singleton] at hdest
        subst hdest
        exact hnot (Or.inr hawaiting)
    · refine List.nodup_append.2 ⟨honce, by simp, ?_⟩
      intro other hother last hlast heq
      rw [List.mem_singleton] at hlast
      subst heq hlast
      exact hnot (Or.inl hother)

/-! ## Calls -/

variable {ε : Type} {s : Inside SlotMac ε}

/-! ### Asking for links -/

/-- Nobody is to be asked, and the tables would exclude each other if `dests` were. -/
structure Asks (dests : List Address) (s : Inside SlotMac ε) : Prop where
  none : s.layer.pending = []
  exclusive : IsExclusive { s.layer with pending := dests }

theorem Asks.isExclusive {dests : List Address} (h : Asks dests s) : s.layer.IsExclusive :=
  h.exclusive.congr rfl (h.none ▸ List.nil_sublist _) rfl (Nat.le_refl _)

variable [ArqAbove ε]

/-- Wherever asking stops, those who were not asked are in no table. -/
theorem isExclusive_askEach (dests : List Address) (h : Asks dests s) :
    (askEach dests s).2.layer.IsExclusive := by
  induction dests generalizing s with
  | nil => exact h.isExclusive
  | cons next rest ih =>
    -- The tables only change once the request was taken, so a failure leaves them as they were.
    have hinject : (do
        let packet ← Call.ofLayer ((← Call.own).linkControl .linkRequest next)
        Call.outward (ArqAbove.inject packet) :
        Call (Inside SlotMac ε) Unit).Preserves (Asks (next :: rest)) := by
      refine .bind .look fun m _ => .bind (Calm.ofLayer _) fun packet _ => ?_
      exact .outward fun _ ht => ⟨⟨ht.none, ht.exclusive⟩, fun _ _ => trivial⟩
    have hsplit : (askEach (next :: rest) : Call (Inside SlotMac ε) Unit) = (do
        let packet ← Call.ofLayer ((← Call.own).linkControl .linkRequest next)
        Call.outward (ArqAbove.inject packet)) >>= fun _ => (do
        Call.change fun m => { m with awaiting := m.awaiting.insert next m.slot }
        askEach rest) := by
      simp only [askEach, bind_assoc]
    rw [hsplit]
    refine hinject.followed (C := fun _ t => t.layer.IsExclusive) h (fun _ _ ht => ht.isExclusive)
      fun _ t _ ht => ?_
    rw [Call.bind_apply, Call.change_apply]
    exact ih ⟨ht.none, ht.exclusive.ask⟩

theorem keeps_requestLinks_isExclusive :
    (requestLinks : Call (Inside SlotMac ε) Unit).Preserves (On IsExclusive) := by
  intro s hs
  have hrenewed := IsExclusive.renewOverdue hs
  refine ⟨?_, fun _ _ => trivial⟩
  unfold requestLinks
  simp only [Call.bind_apply, Call.change_apply, Call.own_apply]
  exact isExclusive_askEach _ ⟨rfl, hrenewed⟩

theorem keeps_askEach_isTimely (dests : List Address) :
    (askEach dests : Call (Inside SlotMac ε) Unit).Preserves (On IsTimely) := by
  induction dests with
  | nil => exact .pure trivial
  | cons next rest ih =>
    refine .bind .look fun m _ => .bind (Calm.ofLayer _) fun packet _ => ?_
    refine .bind (.outward fun _ hs => ⟨hs, fun _ _ => trivial⟩) fun _ _ => ?_
    exact .bind (.change fun _ hs => IsTimely.ask hs next) fun _ _ => ih

/-- Whether all are asked or not, no answer is overdue then. -/
theorem isTimely_requestLinks (s : Inside SlotMac ε) : (requestLinks s).2.layer.IsTimely := by
  unfold requestLinks
  simp only [Call.bind_apply, Call.change_apply, Call.own_apply]
  exact (keeps_askEach_isTimely _ _ (isTimely_renewOverdue s.layer)).1

/-- A slot that gets as far as asking for links leaves no answer overdue. -/
theorem isTimely_getReady (hok : (getReady s).1 = .ok ()) : (getReady s).2.layer.IsTimely := by
  unfold getReady at hok ⊢
  rw [Call.bind_apply, Call.change_apply] at hok ⊢
  simp only at hok ⊢
  rw [Call.bind_apply] at hok ⊢
  rcases htick : (Call.outward (ArqAbove.tick 1) : Call (Inside SlotMac ε) Unit)
    { s with layer := { s.layer with slot := s.layer.slot + 1 } } with ⟨e | _, t⟩
  · rw [htick] at hok
    cases hok
  · simp only [Call.bind_apply, Call.change_apply]
    exact isTimely_requestLinks _

variable [PhyBelow ε]

/-! ### Slots -/

/-- What survives a change that leaves the links alone is steady, as the neighbors change nothing of
the MAC. -/
theorem steady_on {P : SlotMac → Prop}
    (hP : ∀ {m after : SlotMac}, m.LeavesLinks after → P m → P after) :
    Steady (On P : Inside SlotMac ε → Prop) where
  change hm hs := hP hm hs
  outward _ := .outward fun _ hs => ⟨hs, fun _ _ => trivial⟩

theorem steady_isExclusive : Steady (On IsExclusive : Inside SlotMac ε → Prop) :=
  steady_on LeavesLinks.isExclusive

theorem keeps_update_isExclusive :
    (update : Call (Inside SlotMac ε) Unit).Preserves (On IsExclusive) :=
  steady_isExclusive.update
    (fun _ hs => IsExclusive.congr hs rfl (.refl _) rfl (Nat.le_succ _))
    keeps_requestLinks_isExclusive

/-- A slot that succeeds has asked again for every answer that was overdue. -/
theorem isTimely_update (hok : (update s).1 = .ok ()) : (update s).2.layer.IsTimely := by
  rw [update_eq, Call.bind_apply] at hok ⊢
  have hready := isTimely_getReady (s := s)
  rcases hstep : getReady s with ⟨e | _, t⟩
  · rw [hstep] at hok
    cases hok
  · rw [hstep] at hready
    exact ((steady_on LeavesLinks.isTimely).calm.useSlot t (hready rfl)).1

/-! ### Links that come and go -/

theorem keeps_establishLink_isExclusive (id : Address) :
    (establishLink id : Call (Inside SlotMac ε) Unit).Preserves (On IsExclusive) := by
  refine steady_isExclusive.calm.establishLink (fun s hs => ?_) fun s hs hnew => ?_
  · exact IsExclusive.establishLink hs id s.layer.links s.layer.schedule fun _ _ => rfl
  · refine IsExclusive.establishLink hs id _ _ fun dest hdest => ?_
    simp [hasLink, hdest]

theorem keeps_removeLink_isExclusive (id : Address) :
    (removeLink id : Call (Inside SlotMac ε) Unit).Preserves (On IsExclusive) :=
  steady_isExclusive.calm.removeLink fun _ hs hlink => IsExclusive.dropLink hs hlink _

/-! ## Runs -/

/-- **One call.** Whatever happens and whether it succeeds, the tables exclude each other. -/
theorem IsExclusive.step (h : s.layer.IsExclusive) (call : MacCall ε) :
    (step s call).layer.IsExclusive := by
  cases call with
  | update => exact (keeps_update_isExclusive s h).1
  | notifyOutgoing bits dest => exact h.notifyOutgoing bits dest
  | removeLink id => exact (keeps_removeLink_isExclusive id s h).1
  | receive packet =>
    exact (steady_isExclusive.receive (keeps_establishLink_isExclusive packet.origin) s h).1
  | setPosition position quality => exact h.congr rfl (.refl _) rfl (Nat.le_refl _)
  | elsewhere change => exact h

theorem IsExclusive.run (h : s.layer.IsExclusive) (calls : List (MacCall ε)) :
    (run s calls).layer.IsExclusive := by
  induction calls generalizing s with
  | nil => exact h
  | cons call rest ih => exact ih (h.step call)

theorem isExclusive_ofConfig {config : MacConfig} (h : ofConfig config = .ok m) :
    m.IsExclusive := by
  rw [ofConfig] at h
  split at h
  · cases h
  · cases h
    exact isExclusive_iff.2 ⟨fun _ hasked => (by cases hasked), List.disjoint_nil_left _,
      List.nodup_nil, fun _ _ hasked => (by cases hasked)⟩

/-- **The tables of links.** Over any surroundings and whatever happens, also what fails: in every
state of a run the tables exclude each other, and after a slot that succeeds no answer is overdue. -/
theorem isExclusive_run {config : MacConfig} (hm : ofConfig config = .ok m) (around : ε)
    (calls : List (MacCall ε)) :
    (run ⟨m, around⟩ calls).layer.IsExclusive ∧
      ((update (run ⟨m, around⟩ calls)).1 = .ok () →
        (update (run ⟨m, around⟩ calls)).2.layer.IsTimely) :=
  ⟨IsExclusive.run (s := ⟨m, around⟩) (isExclusive_ofConfig hm) calls, isTimely_update⟩

/-- Station 2 is asked for a link and does not answer for 17 slots, while station 3 is asked as well
and station 4 asks itself. -/
def unanswered : List (MacCall Station) :=
  .notifyOutgoing 8 ⟨2⟩ :: List.replicate 16 .update ++
    [.notifyOutgoing 8 ⟨3⟩, .receive (heard ⟨4⟩ (.linkRequest toFirst default))]

/-- Station 2 is asked again in the next slot, and station 3 for the first time. -/
theorem isExclusive_unanswered :
    (run ⟨ofFirst, surroundings⟩ unanswered).layer.IsExclusive ∧
      (update (run ⟨ofFirst, surroundings⟩ unanswered)).2.layer.IsTimely ∧
      (run ⟨ofFirst, surroundings⟩ unanswered).layer.awaiting.entries = [(⟨2⟩, 1)] ∧
      (update (run ⟨ofFirst, surroundings⟩ unanswered)).2.layer.awaiting.entries =
        [(⟨2⟩, 17), (⟨3⟩, 17)] := by
  obtain ⟨hexclusive, htimely⟩ :=
    isExclusive_run (show ofConfig ⟨⟨1⟩, 0, 0, 0⟩ = .ok ofFirst from rfl) surroundings unanswered
  exact ⟨hexclusive, htimely (by decide +kernel), by decide +kernel, by decide +kernel⟩

end SlotMac

end DataLink
