import DataLink.Proofs.Mac.Schedule
import Mathlib.Data.List.Basic
import Mathlib.Data.List.ReduceOption

/-!
# Whose turn it is

The MAC looks for the next destination by turning its schedule: whoever is in front moves to the back
and is asked for data, until somebody has some. A destination that waits moves forward only, as those
*ahead* of it (`SlotMac.ahead`) are asked before it. New links take their turns behind it, and a link
that is torn down makes the way shorter.

A call for the next destination that does not come to the one that waits stops at somebody ahead of it,
who has data or fails to answer, and leaves only those ahead that come after (`turnSchedule_cases`). So
every call takes the one that waits at least one place forward.

**Theorem (`SlotMac.served_in_turn`).** A destination that stays in the schedule and has data whenever
it is asked is found before anybody else is found twice, and there are at most as many calls before as
there are destinations ahead of it.

The surroundings are arbitrary here as well. Whether anybody has data may change between calls, and
even while others are asked.
-/

namespace DataLink

variable {ε : Type}

namespace SlotMac

/-! ## Those ahead -/

/-- Those that take their turn before `dest` does. -/
def ahead (dest : Address) (schedule : List Address) : List Address :=
  schedule.takeWhile (· ≠ dest)

variable {dest : Address} {schedule : List Address}

theorem ahead_cons_self : ahead dest (dest :: schedule) = [] := by
  simp [ahead]

theorem ahead_cons_of_ne {first : Address} (h : first ≠ dest) :
    ahead dest (first :: schedule) = first :: ahead dest schedule := by
  simp [ahead, h]

theorem length_ahead (dest : Address) (schedule : List Address) :
    (ahead dest schedule).length = schedule.idxOf dest := by
  induction schedule with
  | nil => rfl
  | cons first rest ih =>
    by_cases hfirst : first = dest
    · simp [hfirst, ahead_cons_self]
    · simp [ahead_cons_of_ne hfirst, List.idxOf_cons_ne rest hfirst, ih]

theorem ahead_concat (h : dest ∈ schedule) (last : Address) :
    ahead dest (schedule ++ [last]) = ahead dest schedule := by
  induction schedule with
  | nil => cases h
  | cons first rest ih =>
    by_cases hfirst : first = dest
    · simp [hfirst, ahead_cons_self]
    · have hrest : dest ∈ rest := by simpa [Ne.symm hfirst] using h
      simp [ahead_cons_of_ne hfirst, ih hrest]

theorem ahead_filter (id : Address) (h : dest ∈ schedule.filter (· ≠ id)) :
    (ahead dest (schedule.filter (· ≠ id))).Sublist (ahead dest schedule) := by
  have hid : dest ≠ id := by simpa using (List.mem_filter.1 h).2
  clear h
  induction schedule with
  | nil => exact .slnil
  | cons first rest ih =>
    by_cases hfirst : first = dest
    · simp [hfirst, hid, ahead_cons_self]
    · rw [ahead_cons_of_ne hfirst]
      by_cases hout : first = id
      · simpa [hout] using ih.trans (List.sublist_cons_self _ _)
      · simpa [hout, ahead_cons_of_ne hfirst] using ih

/-! ## One call -/

variable [ArqAbove ε]

/-- Once those in the list are asked and have no data, `dest` has some. If one of them has data or does
not answer, nobody asks `dest`. -/
def isBusyAfter (dest : Address) : List Address → ε → Bool
  | [], around =>
    match (ArqAbove.hasMore dest around).1 with
    | .ok more => more
    | .error _ => false
  | other :: rest, around =>
    match ArqAbove.hasMore other around with
    | (.ok false, after) => isBusyAfter dest rest after
    | _ => true

/-- If a call for the next destination comes to `dest`, it has data. -/
def isBusyInTurn (dest : Address) (s : Inside SlotMac ε) : Bool :=
  isBusyAfter dest (ahead dest s.layer.schedule) s.around

/-- The call came to somebody ahead of `dest` and got no further, and those ahead that it did not come
to still are. -/
def StopsAhead (dest : Address) (waiting : List Address) (result : Except Fault (Option Address))
    (schedule : List Address) : Prop :=
  ∃ passed next rest, waiting = passed ++ next :: rest ∧ dest ∈ schedule ∧
    ahead dest schedule = rest ∧ (result = .ok (some next) ∨ ∃ e, result = .error e)

/-- A turn of the schedule that is long enough comes to `dest`, or to somebody ahead of it. -/
theorem turnSchedule_cases {s : Inside SlotMac ε} {count : Nat} (hmem : dest ∈ s.layer.schedule)
    (hcount : (ahead dest s.layer.schedule).length < count) (hbusy : isBusyInTurn dest s = true) :
    (turnSchedule count s).1 = .ok (some dest) ∨
      StopsAhead dest (ahead dest s.layer.schedule) (turnSchedule count s).1
        (turnSchedule count s).2.layer.schedule := by
  induction count generalizing s with
  | zero => omega
  | succ count ih =>
    rw [turnSchedule, Call.bind_apply, Call.own_apply]
    simp only
    cases hschedule : s.layer.schedule with
    | nil =>
      rw [hschedule] at hmem
      cases hmem
    | cons first others =>
      rw [hschedule] at hmem hcount
      rw [isBusyInTurn, hschedule] at hbusy
      simp only [Call.bind_apply, Call.change_apply, Call.outward_apply]
      by_cases hfirst : first = dest
      · -- It is the turn of `dest`.
        subst hfirst
        rw [ahead_cons_self, isBusyAfter] at hbusy
        left
        cases hanswer : (ArqAbove.hasMore first s.around).1 with
        | error e => simp [hanswer] at hbusy
        | ok more =>
          rw [hanswer] at hbusy
          simp only at hbusy
          simp [hbusy]
      · have hothers : dest ∈ others := by simpa [Ne.symm hfirst] using hmem
        have hahead : ahead dest (others ++ [first]) = ahead dest others :=
          ahead_concat hothers first
        have hturned : dest ∈ others ++ [first] := List.mem_append_left _ hothers
        rw [ahead_cons_of_ne hfirst] at hbusy hcount ⊢
        rw [isBusyAfter] at hbusy
        rcases hanswer : ArqAbove.hasMore first s.around with ⟨e | more, after⟩
        · exact .inr ⟨[], first, ahead dest others, rfl, hturned, hahead, .inr ⟨e, rfl⟩⟩
        · cases more with
          | true => exact .inr ⟨[], first, ahead dest others, rfl, hturned, hahead, .inl rfl⟩
          | false =>
            rw [hanswer] at hbusy
            have hrest := ih (s := ⟨{ s.layer with schedule := others ++ [first] }, after⟩) hturned
              (by simpa [hahead] using hcount) (by simpa [isBusyInTurn, hahead] using hbusy)
            apply hrest.imp id
            rintro ⟨passed, next, rest, hsplit, hstops⟩
            exact ⟨first :: passed, next, rest, by simpa [hahead] using hsplit, hstops⟩

/-- A call for the next destination comes to `dest`, or takes it forward. -/
theorem nextDestination_cases {s : Inside SlotMac ε} (hmem : dest ∈ s.layer.schedule)
    (hbusy : isBusyInTurn dest s = true) :
    (nextDestination s).1 = .ok (some dest) ∨
      StopsAhead dest (ahead dest s.layer.schedule) (nextDestination s).1
        (nextDestination s).2.layer.schedule := by
  apply turnSchedule_cases hmem _ hbusy
  rw [length_ahead]
  exact List.idxOf_lt_length_of_mem hmem

/-! ## Runs -/

/-- What happens to a schedule. Whatever the layers around the MAC do by themselves changes nothing but
them. -/
inductive TurnCall (ε : Type) where
  | next
  | establish (id : Address)
  | remove (id : Address)
  | elsewhere (change : ε → ε)

def turn (s : Inside SlotMac ε) : TurnCall ε → Inside SlotMac ε
  | .next => (nextDestination s).2
  | .establish id => (establishLink id s).2
  | .remove id => (removeLink id s).2
  | .elsewhere change => { s with around := change s.around }

/-- The destination that comes next, if there is one and the call does not fail. -/
def found? (s : Inside SlotMac ε) : Option Address :=
  match (nextDestination s).1 with
  | .ok found => found
  | .error _ => none

/-- What each call for the next destination finds in a run. -/
def found (s : Inside SlotMac ε) : List (TurnCall ε) → List (Option Address)
  | [] => []
  | .next :: rest => found? s :: found (turn s .next) rest
  | call :: rest => found (turn s call) rest

/-- In a run `dest` stays in the schedule, and has data whenever it is asked. -/
def waits (dest : Address) (s : Inside SlotMac ε) : List (TurnCall ε) → Bool
  | [] => s.layer.schedule.contains dest
  | .next :: rest =>
    s.layer.schedule.contains dest && isBusyInTurn dest s && waits dest (turn s .next) rest
  | call :: rest => s.layer.schedule.contains dest && waits dest (turn s call) rest

theorem mem_of_waits {s : Inside SlotMac ε} {calls : List (TurnCall ε)}
    (h : waits dest s calls = true) : dest ∈ s.layer.schedule := by
  rw [← List.contains_iff_mem]
  cases calls with
  | nil => exact h
  | cons call rest => cases call <;> simp_all [waits]

theorem ahead_establishLink {s : Inside SlotMac ε} (h : dest ∈ s.layer.schedule) (id : Address) :
    ahead dest (establishLink id s).2.layer.schedule = ahead dest s.layer.schedule := by
  unfold establishLink
  simp only [Call.bind_apply, Call.change_apply, Call.own_apply]
  split
  · rfl
  · exact ahead_concat h id

theorem ahead_removeLink {s : Inside SlotMac ε} (id : Address)
    (h : dest ∈ (removeLink id s).2.layer.schedule) :
    (ahead dest (removeLink id s).2.layer.schedule).Sublist (ahead dest s.layer.schedule) := by
  revert h
  unfold removeLink
  rw [Call.bind_apply, Call.own_apply]
  simp only
  split
  · intro h
    exact ahead_filter id h
  · intro _
    exact List.Sublist.refl _

theorem ahead_turn {s : Inside SlotMac ε} {call : TurnCall ε} (hcall : call ≠ .next)
    (hmem : dest ∈ s.layer.schedule) (hafter : dest ∈ (turn s call).layer.schedule) :
    (ahead dest (turn s call).layer.schedule).Sublist (ahead dest s.layer.schedule) := by
  cases call with
  | next => exact absurd rfl hcall
  | establish id =>
    show (ahead dest (establishLink id s).2.layer.schedule).Sublist _
    rw [ahead_establishLink hmem id]
  | remove id => exact ahead_removeLink id hafter
  | elsewhere change => exact List.Sublist.refl _

/-- What the calls find before they find `dest`. -/
def foundBefore (dest : Address) (s : Inside SlotMac ε) (calls : List (TurnCall ε)) :
    List (Option Address) :=
  (found s calls).takeWhile (· ≠ some dest)

/-- Each of the calls stops at somebody else of those waiting, and finds that one or nobody. -/
structure StopsAlong (waiting : List Address) (calls : List (Option Address)) : Prop where
  found : calls.reduceOption.Sublist waiting
  length_le : calls.length ≤ waiting.length

theorem stopsAlong_nil (waiting : List Address) : StopsAlong waiting [] :=
  ⟨List.nil_sublist _, Nat.zero_le _⟩

theorem StopsAlong.mono {waiting more : List Address} {calls : List (Option Address)}
    (h : StopsAlong waiting calls) (hmore : waiting.Sublist more) : StopsAlong more calls :=
  ⟨h.found.trans hmore, Nat.le_trans h.length_le hmore.length_le⟩

theorem StopsAlong.cons {waiting : List Address} {calls : List (Option Address)}
    (h : StopsAlong waiting calls) {next : Address} {result : Option Address}
    (hresult : result = some next ∨ result = none) :
    StopsAlong (next :: waiting) (result :: calls) := by
  refine ⟨?_, by simpa using h.length_le⟩
  rcases hresult with rfl | rfl
  · simpa using h.found
  · simpa using h.found.trans (List.sublist_cons_self _ _)

/-- **One call.** A call that does not find `dest` stops at somebody ahead of it, and the calls after
it stop at others. -/
theorem StopsAlong.next {s : Inside SlotMac ε} {calls : List (Option Address)}
    (h : StopsAlong (ahead dest (turn s .next).layer.schedule) calls)
    (hmem : dest ∈ s.layer.schedule) (hbusy : isBusyInTurn dest s = true)
    (hfound : found? s ≠ some dest) :
    StopsAlong (ahead dest s.layer.schedule) (found? s :: calls) := by
  rcases nextDestination_cases hmem hbusy with hdest | hstop
  · simp [found?, hdest] at hfound
  · obtain ⟨passed, next, later, hsplit, -, hlater, hresult⟩ := hstop
    have hstopped : found? s = some next ∨ found? s = none := by
      rcases hresult with hresult | ⟨e, hresult⟩ <;> simp [found?, hresult]
    rw [turn, hlater] at h
    rw [hsplit]
    exact (h.cons hstopped).mono (List.sublist_append_right _ _)

/-- **A run.** The calls before `dest` is found stop at different ones of those ahead of it. -/
theorem stopsAlong_foundBefore {s : Inside SlotMac ε} {calls : List (TurnCall ε)}
    (h : waits dest s calls = true) :
    StopsAlong (ahead dest s.layer.schedule) (foundBefore dest s calls) := by
  induction calls generalizing s with
  | nil => exact stopsAlong_nil _
  | cons call rest ih =>
    have hmem := mem_of_waits h
    by_cases hnext : call = .next
    · subst hnext
      simp only [waits, Bool.and_eq_true] at h
      obtain ⟨⟨-, hbusy⟩, hrest⟩ := h
      rw [foundBefore, found]
      by_cases hfound : found? s = some dest
      · rw [List.takeWhile_cons_of_neg (by simpa using hfound)]
        exact stopsAlong_nil _
      · rw [List.takeWhile_cons_of_pos (by simpa using hfound)]
        exact (ih hrest).next hmem hbusy hfound
    · have hrest : waits dest (turn s call) rest = true := by
        cases call <;> simp_all [waits]
      have hsame : foundBefore dest s (call :: rest) = foundBefore dest (turn s call) rest := by
        cases call <;> first | rfl | exact absurd rfl hnext
      rw [hsame]
      exact (ih hrest).mono (ahead_turn hnext hmem (mem_of_waits hrest))

/-- **No destination starves.** The schedule has no repeated entry. Links are set up and torn down in
any way between the calls for the next destination, and `dest` stays in the schedule and has data
whenever it is asked. Before `dest` is found nobody else is found twice, and there are at most as many
calls as entries before it in the schedule; so the call after that many has found it. -/
theorem served_in_turn {s : Inside SlotMac ε} {calls : List (TurnCall ε)}
    (honce : s.layer.schedule.Nodup) (hwaits : waits dest s calls = true) :
    (foundBefore dest s calls).reduceOption.Nodup ∧
      (foundBefore dest s calls).length ≤ s.layer.schedule.idxOf dest ∧
      (s.layer.schedule.idxOf dest < (found s calls).length →
        some dest ∈ (found s calls).take (s.layer.schedule.idxOf dest + 1)) := by
  obtain ⟨hfound, hlength⟩ := stopsAlong_foundBefore hwaits
  rw [length_ahead] at hlength
  have hahead : (ahead dest s.layer.schedule).Nodup := honce.sublist (List.takeWhile_sublist _)
  refine ⟨hahead.sublist hfound, hlength, fun henough => ?_⟩
  -- There are more calls than those before `dest` is found, and the first of the others finds it.
  have hsplit : foundBefore dest s calls ++ (found s calls).dropWhile (· ≠ some dest) =
      found s calls := List.takeWhile_append_dropWhile
  cases hafter : (found s calls).dropWhile (· ≠ some dest) with
  | nil =>
    rw [hafter, List.append_nil] at hsplit
    rw [hsplit] at hlength
    omega
  | cons first later =>
    have hfirst : first = some dest := by
      have hnot := List.head?_dropWhile_not (fun x => decide (x ≠ some dest)) (found s calls)
      rw [hafter] at hnot
      simpa using hnot
    rw [← hsplit, hafter, hfirst, List.take_append]
    apply List.mem_append_right
    rw [List.take_cons (by omega)]
    exact List.mem_cons_self

/-- The broadcast channel and stations 2 to 5 take turns. -/
def crowded : Inside SlotMac Station :=
  ⟨{ ofFirst with
    schedule := [.broadcast, ⟨2⟩, ⟨3⟩, ⟨4⟩, ⟨5⟩]
    links := [⟨2⟩, ⟨3⟩, ⟨4⟩, ⟨5⟩] }, surroundings⟩

/-- A control packet for `dest` is injected above. -/
def demanded (dest : Address) : TurnCall Station :=
  .elsewhere fun s => (ArqAbove.inject (heard ⟨1⟩ (.unicast { toFirst with dest })) s).2

/-- Station 5 waits behind stations 2 to 4, all of which have data in the end. Meanwhile one link is torn
down and one is set up. -/
def waiting : List (TurnCall Station) :=
  [demanded ⟨5⟩, demanded ⟨2⟩, .next, demanded ⟨3⟩, demanded ⟨4⟩, .remove ⟨3⟩, .establish ⟨6⟩,
    demanded ⟨6⟩, .next, .next, .next, .next]

theorem served_in_turn_crowded :
    crowded.layer.schedule.Nodup ∧ waits ⟨5⟩ crowded waiting = true ∧
      found crowded waiting = [some ⟨2⟩, some ⟨4⟩, some ⟨5⟩, some ⟨2⟩, some ⟨6⟩] ∧
      (foundBefore ⟨5⟩ crowded waiting).reduceOption.Nodup ∧
      (foundBefore ⟨5⟩ crowded waiting).length ≤ 4 ∧
      some ⟨5⟩ ∈ (found crowded waiting).take 5 := by
  have honce : crowded.layer.schedule.Nodup := by decide
  have hwaits : waits ⟨5⟩ crowded waiting = true := by decide +kernel
  obtain ⟨hnodup, hlength, hserved⟩ := served_in_turn honce hwaits
  exact ⟨honce, hwaits, by decide +kernel, hnodup, hlength, hserved (by decide +kernel)⟩

end SlotMac

end DataLink
