import DataLink.Proofs.Arq.Ring
import Mathlib.Algebra.BigOperators.Group.List.Basic
import Mathlib.Algebra.Ring.Int.Defs
import Mathlib.Logic.Function.Iterate

/-!
# Steps along the ring

Steps forward and steps backward are computed apart, and each way gets around the unset value by its own
means. From a number that is set, both are shifts of its place by an integer (`forward_eq_shift`,
`backward_eq_shift`), and the integers act on these numbers by shifts (`shift_zero`, `shift_shift`). A walk
of many steps is therefore one shift, by what its steps come to (`walk_eq_shift`).

The unset value has no place of its own. To steps forward it stands where `last` does and to steps backward
where `first` does (`forward_unset`, `backward_unset`), and the first step that leads anywhere leaves it for
good.

**Theorem (`walk_ring_action`).** From a number that is set, a walk of any length never meets the unset
value, ends at the same number whatever the order of its steps, and leads as far ahead as its steps forward
less its steps backward come to on the ring. From the unset value, the first step by some amount leads where
as many single steps lead, and from there the walk goes on as if it had started on the ring.
-/

namespace DataLink.SequenceNumber

variable {s : SequenceNumber} {n : Nat}

/-! ## Shifts -/

/-- The number `d` places further along the ring. The unset value counts as standing where `last`
does. -/
def shift (s : SequenceNumber) (d : Int) : SequenceNumber :=
  atPosition ((s.raw - 1 + d) % 255).toNat

theorem raw_shift (s : SequenceNumber) (d : Int) :
    ((s.shift d).raw : Int) = (s.raw - 1 + d) % 255 + 1 := by
  show (((((s.raw : Int) - 1 + d) % 255).toNat % 255 + 1 : Nat) : Int) = _
  omega

theorem isSet_shift (s : SequenceNumber) (d : Int) : (s.shift d).isSet = true :=
  isSet_atPosition _

theorem shift_zero (hset : s.isSet = true) : s.shift 0 = s := by
  have hraw : s.raw ≠ 0 := isSet_iff.1 hset
  have hlt := s.raw_lt
  have hshift := raw_shift s 0
  apply ext_raw
  omega

theorem shift_shift (s : SequenceNumber) (a b : Int) : (s.shift a).shift b = s.shift (a + b) := by
  have ha := raw_shift s a
  have hb := raw_shift (s.shift a) b
  have hab := raw_shift s (a + b)
  apply ext_raw
  omega

theorem distance?_shift (hset : s.isSet = true) (d : Int) :
    s.distance? (s.shift d) = some (d % 255).toNat := by
  have hraw : s.raw ≠ 0 := isSet_iff.1 hset
  have hlt := s.raw_lt
  have hshift := raw_shift s d
  rw [distance?, if_neg (by omega), Option.some.injEq]
  omega

/-! ## Forward and backward -/

theorem forward_zero (s : SequenceNumber) : s.forward 0 = s := if_pos rfl

theorem backward_zero (s : SequenceNumber) : s.backward 0 = s := if_pos rfl

theorem forward_eq_shift (hset : s.isSet = true) (n : Nat) : s.forward n = s.shift n := by
  have hraw : s.raw ≠ 0 := isSet_iff.1 hset
  have hshift := raw_shift s n
  rw [forward_eq_atPosition hset]
  apply ext_raw
  show (s.raw - 1 + n) % 255 + 1 = (s.shift n).raw
  omega

theorem backward_eq_shift (hset : s.isSet = true) (n : Nat) : s.backward n = s.shift (-n) := by
  have hraw : s.raw ≠ 0 := isSet_iff.1 hset
  by_cases hn : n = 0
  · rw [hn, backward_zero]
    exact (shift_zero hset).symm
  · have hshift := raw_shift s (-n)
    rw [backward, if_neg hn, if_neg hraw]
    apply ext_raw
    show (s.raw - 1 + (255 - n % 255)) % 255 + 1 = (s.shift (-n)).raw
    omega

/-- Whoever goes forward from the unset value goes as from the number before `first`. -/
theorem forward_unset (hn : 0 < n) : unset.forward n = last.forward n := by
  have hn' : n ≠ 0 := by omega
  simp only [forward, if_neg hn']
  rfl

/-- Whoever goes backward from the unset value goes as from the number after `last`. -/
theorem backward_unset (hn : 0 < n) : unset.backward n = first.backward n := by
  have hn' : n ≠ 0 := by omega
  simp only [backward, if_neg hn']
  show atPosition (255 + (255 - n % 255)) = atPosition (1 - 1 + (255 - n % 255))
  rw [atPosition_inj]
  omega

/-! ## Single steps -/

theorem eq_unset_or_isSet (s : SequenceNumber) : s = unset ∨ s.isSet = true := by
  by_cases hraw : s.raw = 0
  · exact .inl (ext_raw hraw)
  · exact .inr (isSet_iff.2 hraw)

/-- Moves by `n` steps that are shifts by `n * d` on the ring, and that do not tell the unset value from
`gate`, lead where `n` single moves lead. -/
theorem eq_iterate_of_shift {move : SequenceNumber → Nat → SequenceNumber} {d : Int}
    (gate : SequenceNumber) (hzero : ∀ t, move t 0 = t)
    (hring : ∀ (t : SequenceNumber) (n : Nat), t.isSet = true → move t n = t.shift (n * d))
    (hgate : gate.isSet = true) (hunset : ∀ n, 0 < n → move unset n = move gate n)
    (s : SequenceNumber) (n : Nat) : move s n = (move · 1)^[n] s := by
  have hmore : ∀ {t : SequenceNumber}, t.isSet = true → ∀ n, move t (n + 1) = move (move t n) 1 := by
    intro t hset n
    rw [hring t _ hset, hring t n hset, hring _ 1 (isSet_shift _ _), shift_shift, ← Int.add_mul]
    rfl
  induction n with
  | zero => exact hzero s
  | succ n ih =>
    rw [Function.iterate_succ_apply', ← ih]
    obtain rfl | hset := eq_unset_or_isSet s
    · -- The unset value is behind after the first step, and all others are steps on the ring.
      cases n with
      | zero => rw [hzero]
      | succ n => rw [hunset _ (Nat.succ_pos _), hunset _ (Nat.succ_pos _), hmore hgate]
    · exact hmore hset n

theorem forward_eq_iterate (s : SequenceNumber) (n : Nat) : s.forward n = next^[n] s :=
  have hring : ∀ (t : SequenceNumber) (n : Nat), t.isSet = true → t.forward n = t.shift (n * 1) :=
    fun t n hset => by rw [Int.mul_one, forward_eq_shift hset]
  eq_iterate_of_shift last forward_zero hring rfl (fun _ => forward_unset) s n

theorem backward_eq_iterate (s : SequenceNumber) (n : Nat) : s.backward n = prev^[n] s :=
  have hring : ∀ (t : SequenceNumber) (n : Nat), t.isSet = true → t.backward n = t.shift (n * -1) :=
    fun t n hset => by rw [Int.mul_neg, Int.mul_one, backward_eq_shift hset]
  eq_iterate_of_shift first backward_zero hring rfl (fun _ => backward_unset) s n

/-! ## Walks -/

/-- A step ahead or back by any amount. -/
inductive Step where
  | ahead (n : Nat)
  | back (n : Nat)
deriving DecidableEq, Repr

/-- How far a step leads ahead. -/
def Step.amount : Step → Int
  | .ahead n => n
  | .back n => -n

def take (s : SequenceNumber) : Step → SequenceNumber
  | .ahead n => s.forward n
  | .back n => s.backward n

/-- Takes the steps one after the other. -/
def walk (s : SequenceNumber) (steps : List Step) : SequenceNumber := steps.foldl take s

/-- The steps ahead less the steps back. -/
def net (steps : List Step) : Int := (steps.map Step.amount).sum

theorem net_cons (step : Step) (rest : List Step) : net (step :: rest) = step.amount + net rest :=
  List.sum_cons

theorem net_eq_of_perm {steps other : List Step} (h : other.Perm steps) : net other = net steps :=
  (h.map Step.amount).sum_eq

theorem take_eq_shift (hset : s.isSet = true) (step : Step) : s.take step = s.shift step.amount := by
  cases step with
  | ahead n => exact forward_eq_shift hset n
  | back n => exact backward_eq_shift hset n

theorem walk_eq_shift (hset : s.isSet = true) (steps : List Step) :
    s.walk steps = s.shift (net steps) := by
  induction steps generalizing s with
  | nil => exact (shift_zero hset).symm
  | cons step rest ih =>
    show (s.take step).walk rest = _
    rw [take_eq_shift hset, ih (isSet_shift _ _), shift_shift, net_cons]

/-- **The ring.** From a number that is set, a walk of any length ends at a number that is set, at the same
one in whatever order its steps are taken, and at the distance that its steps ahead less its steps back come
to on the ring. From the unset value, the first step by `n` leads where `n` single steps lead, and the walk
goes on as if it had started at the end of the ring that the step turns away from. -/
theorem walk_ring_action :
    (∀ (s : SequenceNumber) (steps : List Step), s.isSet = true →
      (s.walk steps).isSet = true ∧
      (∀ other, other.Perm steps → s.walk other = s.walk steps) ∧
      s.distance? (s.walk steps) = some (net steps % 255).toNat) ∧
    ∀ (n : Nat) (rest : List Step), 0 < n →
      unset.walk (.ahead n :: rest) = (next^[n] unset).walk rest ∧
      unset.walk (.back n :: rest) = (prev^[n] unset).walk rest ∧
      unset.walk (.ahead n :: rest) = last.walk (.ahead n :: rest) ∧
      unset.walk (.back n :: rest) = first.walk (.back n :: rest) := by
  constructor
  · intro s steps hset
    refine ⟨?_, fun other hperm => ?_, ?_⟩
    · rw [walk_eq_shift hset]
      exact isSet_shift s _
    · rw [walk_eq_shift hset, walk_eq_shift hset, net_eq_of_perm hperm]
    · rw [walk_eq_shift hset]
      exact distance?_shift hset _
  · intro n rest hn
    have hahead : unset.walk (.ahead n :: rest) = (unset.forward n).walk rest := rfl
    have hback : unset.walk (.back n :: rest) = (unset.backward n).walk rest := rfl
    refine ⟨?_, ?_, ?_, ?_⟩
    · rw [hahead, forward_eq_iterate]
    · rw [hback, backward_eq_iterate]
    · rw [hahead, forward_unset hn]
      rfl
    · rw [hback, backward_unset hn]
      rfl

/-- Back across the unset value and ahead again, with whole turns and a step that leads nowhere. -/
def roundabout : List Step := [.back 10, .ahead 255, .ahead 3, .back 255, .ahead 0, .back 7]

/-- From 5 the steps lead 14 places back, to 246, and so they do the other way round. -/
theorem walk_ring_action_roundabout :
    isSet ⟨5, by omega⟩ = true ∧
      walk ⟨5, by omega⟩ roundabout = ⟨246, by omega⟩ ∧
      walk ⟨5, by omega⟩ roundabout.reverse = ⟨246, by omega⟩ ∧
      distance? ⟨5, by omega⟩ (walk ⟨5, by omega⟩ roundabout) = some 241 ∧
      unset.walk (.back 10 :: roundabout) = (prev^[10] unset).walk roundabout := by
  have hset : isSet ⟨5, by omega⟩ = true := rfl
  obtain ⟨-, horder, hdistance⟩ := walk_ring_action.1 _ roundabout hset
  have hend : walk ⟨5, by omega⟩ roundabout = ⟨246, by omega⟩ := by decide
  exact ⟨hset, hend, (horder _ roundabout.reverse_perm).trans hend, hdistance,
    (walk_ring_action.2 10 roundabout (by decide)).2.1⟩

end DataLink.SequenceNumber
