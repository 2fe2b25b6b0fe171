import DataLink.Proofs.Mac.LinkTables
import DataLink.Proofs.Refusal

/-!
# Slots that fail

A slot may fail wherever the MAC asks its neighbors for something. What was to be asked for a link
before the slot should still be, or wait for its answer, so that it is asked in a later one.

Before it asks anybody the MAC empties its list, and the stations come back to a table one by one, each
as soon as the ARQ takes its request. At the first request that the ARQ refuses asking stops, and the
rest of the list is in no table any more: the slot *passes over* those stations.

**Theorem (`isAsked_update`).** After a slot, whether it fails or not, exactly those who were asked or to
be asked before still are, except for those it passes over. A slot that succeeds passes over nobody.
Where the tables exclude each other, as they do in every state of a run, those passed over are the one
whose request was refused and all that stood behind it.

Which stations a slot passes over is said by the list, and by the number of requests that the ARQ takes
before it refuses one (`Call.accepted`). The induction is on the list (`askEach_tables`). It is about the
tables as sets: nobody who has been asked leaves them, and nobody else comes back.
-/

namespace DataLink

variable {ε : Type} [ArqAbove ε]

namespace SlotMac

/-! ## Asking one station after the other -/

/-- Offers the ARQ a request for a link to `dest`. -/
def offerRequest (m : SlotMac) (dest : Address) : Call ε Unit := do
  let packet ← Call.ofLayer (m.linkControl .linkRequest dest)
  ArqAbove.inject packet

theorem askEach_cons_apply (dest : Address) (rest : List Address) (s : Inside SlotMac ε) :
    askEach (dest :: rest) s = match s.layer.offerRequest dest s.around with
      | (.ok _, around) => askEach rest
          ⟨{ s.layer with awaiting := s.layer.awaiting.insert dest s.layer.slot }, around⟩
      | (.error e, around) => (.error e, { s with around }) := by
  rw [askEach, offerRequest]
  simp only [Call.bind_apply, Call.own_apply]
  cases s.layer.linkControl .linkRequest dest with
  | error e => rfl
  | ok packet =>
    simp only [Call.ofLayer, Call.pure_apply, Call.outward_apply]
    rcases ArqAbove.inject packet s.around with ⟨e | _, around⟩ <;> rfl

/-- The stations in a list that are asked: those before the first one whose request is refused. -/
def asked (m : SlotMac) (dests : List Address) (around : ε) : List Address :=
  dests.take (Call.accepted m.offerRequest dests around)

theorem askEach_tables (dests : List Address) (s : Inside SlotMac ε) :
    (askEach dests s).2.layer.pending = s.layer.pending ∧
      (∀ dest, (askEach dests s).2.layer.awaiting.contains dest =
        (s.layer.awaiting.contains dest || (s.layer.asked dests s.around).contains dest)) ∧
      ((askEach dests s).1 = .ok () → s.layer.asked dests s.around = dests) := by
  induction dests generalizing s with
  | nil => simp [askEach, asked]
  | cons next rest ih =>
    rw [askEach_cons_apply, asked, Call.accepted]
    rcases hoffer : s.layer.offerRequest next s.around with ⟨e | _, around⟩
    · simp
    · -- The rest is asked by a MAC that differs in its table only, and requests are not about that.
      obtain ⟨hpending, hawaiting, hall⟩ := ih
        ⟨{ s.layer with awaiting := s.layer.awaiting.insert next s.layer.slot }, around⟩
      refine ⟨hpending, fun dest => ?_, fun hok => congrArg (next :: ·) (hall hok)⟩
      rw [hawaiting, List.take_succ_cons, List.contains_cons, Table.contains, Table.get?_insert]
      by_cases hdest : next = dest
      · simp [hdest]
      · have hother : (dest == next) = false := by simp [Ne.symm hdest]
        rw [if_neg hdest, hother, Bool.false_or]
        rfl

/-! ## Asking for links -/

variable {s : Inside SlotMac ε}

/-- The stations to be asked that are not: the one whose request is refused and those behind it. -/
def leftOut (m : SlotMac) (around : ε) : List Address :=
  m.pending.drop (Call.accepted m.offerRequest m.pending around)

/-- The stations that are in no table any more once a MAC has asked for links. A station that is left out
may still be in one, if it was asked before, or was on the list twice and asked the first time. -/
def passedOver (m : SlotMac) (around : ε) : List Address :=
  (m.leftOut around).filter fun dest =>
    !(m.awaiting.contains dest || (m.asked m.pending around).contains dest)

theorem isAsked_askEach (s : Inside SlotMac ε) (dest : Address) :
    (askEach s.layer.pending { s with layer := { s.layer with pending := [] } }).2.layer.isAsked dest =
      (s.layer.isAsked dest && !(s.layer.passedOver s.around).contains dest) := by
  obtain ⟨hpending, hawaiting, -⟩ :=
    askEach_tables s.layer.pending { s with layer := { s.layer with pending := [] } }
  have hsplit : s.layer.pending.contains dest =
      ((s.layer.asked s.layer.pending s.around).contains dest ||
        (s.layer.leftOut s.around).contains dest) := by
    rw [asked, leftOut, ← List.contains_append, List.take_append_drop]
  have hpassed : (s.layer.passedOver s.around).contains dest =
      ((s.layer.leftOut s.around).contains dest && !(s.layer.awaiting.contains dest ||
        (s.layer.asked s.layer.pending s.around).contains dest)) := by
    rw [passedOver, Bool.eq_iff_iff, List.contains_iff_mem, List.mem_filter, Bool.and_eq_true,
      List.contains_iff_mem]
  rw [isAsked, hpending, hawaiting, isAsked, hsplit, hpassed]
  change (s.layer.awaiting.contains dest ||
    (s.layer.asked s.layer.pending s.around).contains dest || false) = _
  grind

/-- Asking for links passes those over that the ARQ's refusal leaves out, and nobody if it succeeds. -/
theorem isAsked_requestLinks (s : Inside SlotMac ε) :
    (∀ dest, (requestLinks s).2.layer.isAsked dest =
      (s.layer.isAsked dest && !(s.layer.renewOverdue.passedOver s.around).contains dest)) ∧
    ((requestLinks s).1 = .ok () → s.layer.renewOverdue.leftOut s.around = []) := by
  unfold requestLinks
  simp only [Call.bind_apply, Call.change_apply, Call.own_apply]
  refine ⟨fun dest => ?_, fun hok => ?_⟩
  · rw [← (linksAlike_renewOverdue s.layer).asked dest]
    exact isAsked_askEach { s with layer := s.layer.renewOverdue } dest
  · obtain ⟨-, -, hall⟩ := askEach_tables s.layer.renewOverdue.pending
      { s with layer := { s.layer.renewOverdue with pending := [] } }
    exact List.drop_eq_nil_iff.2 ((List.take_eq_self_iff _).1 (hall hok))

/-! ## A whole slot -/

/-- A MAC that has begun its next slot and is about to ask for links. -/
def begun (m : SlotMac) : SlotMac := renewOverdue (forgetSilent { m with slot := m.slot + 1 })

/-- The stations that a slot passes over. If the ARQ is not there for a new slot, nobody is asked. -/
def passedInSlot (s : Inside SlotMac ε) : List Address :=
  match ArqAbove.tick 1 s.around with
  | (.ok _, around) => s.layer.begun.passedOver around
  | (.error _, _) => []

theorem isAsked_forgetSilent (m : SlotMac) (dest : Address) :
    m.forgetSilent.isAsked dest = m.isAsked dest := by
  simp only [forgetSilent]
  split <;> rfl

theorem isAsked_getReady (s : Inside SlotMac ε) :
    (∀ dest, (getReady s).2.layer.isAsked dest =
      (s.layer.isAsked dest && !(passedInSlot s).contains dest)) ∧
    ((getReady s).1 = .ok () → passedInSlot s = []) := by
  rw [getReady, passedInSlot, Call.bind_apply, Call.change_apply]
  simp only [Call.bind_apply, Call.outward_apply, Call.change_apply]
  rcases ArqAbove.tick 1 s.around with ⟨e | _, around⟩
  · simp [isAsked]
  · obtain ⟨hasked, hall⟩ := isAsked_requestLinks
      ⟨forgetSilent { s.layer with slot := s.layer.slot + 1 }, around⟩
    refine ⟨fun dest => ?_, fun hok => ?_⟩
    · simp only
      rw [hasked, isAsked_forgetSilent]
      rfl
    · simp only at hok ⊢
      rw [passedOver, begun, hall hok, List.filter_nil]

theorem IsExclusive.passedOver_eq {m : SlotMac} (h : m.IsExclusive) (around : ε) :
    m.passedOver around = m.leftOut around := by
  have hparts : m.asked m.pending around ++ m.leftOut around = m.pending :=
    List.take_append_drop _ _
  refine List.filter_eq_self.2 fun dest hdest => ?_
  have hwaits : m.awaiting.contains dest = false := by
    rw [Bool.eq_false_iff]
    intro hcontains
    exact h.pending_awaiting (List.mem_of_mem_drop hdest) (Table.mem_keys_iff.2 hcontains)
  have hasked : (m.asked m.pending around).contains dest = false := by
    obtain ⟨-, -, hapart⟩ := List.nodup_append.1 (hparts.symm ▸ h.once)
    rw [Bool.eq_false_iff]
    intro hcontains
    exact hapart dest (List.contains_iff_mem.1 hcontains) dest hdest rfl
  rw [hwaits, hasked]
  rfl

theorem IsExclusive.begun {m : SlotMac} (h : m.IsExclusive) : m.begun.IsExclusive := by
  refine IsExclusive.renewOverdue ?_
  simp only [forgetSilent]
  split <;> exact h.congr rfl (.refl _) rfl (Nat.le_succ _)

/-- Whoever is passed over was asked, or to be asked, when the slot began. -/
theorem isAsked_of_mem_passedInSlot {dest : Address} (h : dest ∈ passedInSlot s) :
    s.layer.isAsked dest = true := by
  rw [passedInSlot] at h
  split at h
  · have hpending : dest ∈ s.layer.begun.pending := List.mem_of_mem_drop (List.mem_of_mem_filter h)
    have hbegun : s.layer.begun.isAsked dest = s.layer.isAsked dest := by
      rw [begun, (linksAlike_renewOverdue _).asked, isAsked_forgetSilent]
      rfl
    rw [← hbegun]
    exact isAsked_iff.2 (Or.inl hpending)
  · cases h

variable [PhyBelow ε]

theorem isAsked_useSlot (s : Inside SlotMac ε) (dest : Address) :
    (useSlot s).2.layer.isAsked dest = s.layer.isAsked dest := by
  have hsteady : Steady (On fun m => m.isAsked dest = s.layer.isAsked dest :
      Inside SlotMac ε → Prop) :=
    steady_on fun hm hasked => (hm.linksAlike.asked dest).trans hasked
  exact (hsteady.calm.useSlot s rfl).1

/-- **A slot that fails.** In any state and over any surroundings: who was asked or to be asked for a
link before a slot still is after it, except for those the slot passes over, and a slot that succeeds
passes over nobody. So no request is lost if and only if nobody is passed over. Where the tables
exclude each other, those passed over are the station whose request the ARQ refused and all that
were to be asked after it. -/
theorem isAsked_update (s : Inside SlotMac ε) :
    (∀ dest, (update s).2.layer.isAsked dest =
      (s.layer.isAsked dest && !(passedInSlot s).contains dest)) ∧
    ((update s).1 = .ok () → passedInSlot s = []) ∧
    ((∀ dest, s.layer.isAsked dest = true → (update s).2.layer.isAsked dest = true) ↔
      passedInSlot s = []) ∧
    (s.layer.IsExclusive → ∀ around, ArqAbove.tick 1 s.around = (.ok (), around) →
      passedInSlot s = s.layer.begun.leftOut around) := by
  obtain ⟨hready, hok⟩ := isAsked_getReady s
  have hupdate : ∀ dest, (update s).2.layer.isAsked dest =
      (s.layer.isAsked dest && !(passedInSlot s).contains dest) := by
    intro dest
    rw [← hready dest, update_eq, Call.bind_apply]
    rcases getReady s with ⟨e | _, t⟩
    · rfl
    · exact isAsked_useSlot t dest
  refine ⟨hupdate, fun h => hok ?_, ⟨fun h => ?_, fun h dest hdest => ?_⟩, fun h around htick => ?_⟩
  · rw [update_eq, Call.bind_apply] at h
    rcases hstep : getReady s with ⟨e | _, t⟩
    · rw [hstep] at h
      cases h
    · rfl
  · refine List.eq_nil_iff_forall_not_mem.2 fun dest hdest => ?_
    have hkept := h dest (isAsked_of_mem_passedInSlot hdest)
    rw [hupdate, List.contains_iff_mem.2 hdest, Bool.not_true, Bool.and_false] at hkept
    cases hkept
  · rw [hupdate, hdest, h]
    rfl
  · rw [passedInSlot, htick]
    exact h.begun.passedOver_eq around

/-- Stations 2 and 3 are to be asked for a link, and the host holds the RLC. The request to station 2
is refused, and the slot leaves neither of the two in a table, so nobody asks them later. -/
theorem not_isAsked_held :
    ¬ ∀ s : Inside SlotMac Station, (update s).1 ≠ .ok () →
      ∀ dest, s.layer.isAsked dest = true → (update s).2.layer.isAsked dest = true := by
  intro h
  have hasked := h (run ⟨ofFirst, { surroundings with rlc := surroundings.rlc.hold }⟩
    [.notifyOutgoing 8 ⟨2⟩, .notifyOutgoing 8 ⟨3⟩]) (by decide +kernel) ⟨3⟩ (by decide +kernel)
  revert hasked
  decide +kernel

end SlotMac

end DataLink
