import Cs213.Library.Fifo
import Mathlib.Data.Int.Notation

set_option relaxedAutoImplicit false
set_option autoImplicit false

/-!
# The completion queue

`async.c`: tasks are put into a ring of 1000 slots, and every interrupt calls the handler of the
next task. The queue is empty if the indices `compHead` and `compTail` are equal; there is no test
whether it is full.

## Main definitions

* `Async.State` — the queue.
* `Async.doAsync`, `Async.interruptServiceRoutine` — the two operations.
* `Async.Law` — every interrupt calls the handler of the oldest task.
* `Async.outstanding` — how many tasks wait for their interrupt.

## Main results

* `Async.completionLaw_iff` — the law holds exactly if every interrupt finds at most 999 tasks
  waiting.
* `Async.drainLaw_iff` — the same with the tasks that are still waiting after the calls.
* `Async.thousand_not_law` — with 1000 tasks waiting, an interrupt does nothing.
-/

namespace Async

open Fifo

/-! ## The code -/

/-- An entry of the queue. Pointers are addresses. -/
structure Comp where
  handler : ℕ
  buf : ℕ
  siz : BitVec 32
  deriving DecidableEq, Repr

/-- `sizeof (comp) / sizeof (struct Comp)`. -/
def compSize : ℕ := 1000

/-- The queue. -/
structure State where
  comp : ℕ → Comp
  compHead : ℕ
  compTail : ℕ

/-- The initial values of the variables. -/
def State.start : State := ⟨fun _ => ⟨0, 0, 0⟩, 0, 0⟩

/-- The entry at `compHead` is changed. -/
def State.setComp (s : State) (c : Comp) : State :=
  { s with comp := Function.update s.comp s.compHead c }

/-- `compHead = (compHead + 1) % ...`. -/
def moveHead (s : State) : State := { s with compHead := (s.compHead + 1) % compSize }

/-- `comp[compHead].handler = aHandler`. -/
def storeHandler (aHandler : ℕ) (s : State) : State :=
  s.setComp { s.comp s.compHead with handler := aHandler }

/-- `comp[compHead].buf = aBuf`. -/
def storeBuf (aBuf : ℕ) (s : State) : State := s.setComp { s.comp s.compHead with buf := aBuf }

/-- `comp[compHead].siz = aSiz`. -/
def storeSiz (aSiz : BitVec 32) (s : State) : State :=
  s.setComp { s.comp s.compHead with siz := aSiz }

/-- `doAsync`, on the task with these arguments. -/
def doAsync (a : Comp) (s : State) : State :=
  storeSiz a.siz (storeBuf a.buf (storeHandler a.handler (moveHead s)))

/-- `interruptServiceRoutine`: the handler that is called, with its arguments. -/
def interruptServiceRoutine (s : State) : Option Comp × State :=
  if s.compHead ≠ s.compTail then
    let compTail := (s.compTail + 1) % compSize
    (some (s.comp compTail), { s with compTail := compTail })
  else (none, s)

/-- The completion queue, as a queue of tasks. -/
def queue : Queue Comp (Option Comp) State where
  init := .start
  put := doAsync
  take := interruptServiceRoutine

/-! ## The law -/

/-- **First come, first served**: when the tasks `task 0`, `task 1`, ... are submitted, every
interrupt calls the handler of the oldest task whose handler has not been called, and does nothing
if there is none. -/
def Law (task : ℕ → Comp) (calls : List Call) : Prop :=
  queue.outputs task calls = (fifo (fun _ => true) id).outputs task calls

instance (task : ℕ → Comp) (calls : List Call) : Decidable (Law task calls) :=
  inferInstanceAs (Decidable (_ = _))

/-- How many tasks are outstanding. -/
def outstanding : List Call → ℕ :=
  List.foldl (fun n c => match c with | .put => n + 1 | .take => n - 1) 0

/-! ## Simulation -/

lemma doAsync_eq (a : Comp) (s : State) : doAsync a s =
    { s with
      comp := Function.update s.comp ((s.compHead + 1) % compSize) a
      compHead := (s.compHead + 1) % compSize } := by
  simp [doAsync, storeSiz, storeBuf, storeHandler, moveHead, State.setComp]

lemma outstanding_put (calls : List Call) :
    outstanding (calls ++ [.put]) = outstanding calls + 1 := by
  simp [outstanding]

lemma outstanding_take (calls : List Call) :
    outstanding (calls ++ [.take]) = outstanding calls - 1 := by
  simp [outstanding]

/-- After the calls, the tasks from number `r` on are waiting, the last tasks are in their slots,
and the indices count the tasks that have been submitted and those whose handler has been
called. -/
structure Holds (task : ℕ → Comp) (calls : List Call) (s : State) (waiting : List Comp) (r : ℕ) :
    Prop where
  count : calls.count .put = r + outstanding calls
  waiting : waiting = (List.range' r (outstanding calls)).map task
  recent : Recent compSize s.comp task (calls.count .put)
  head : s.compHead = calls.count .put % compSize
  tail : s.compTail = r % compSize

section Holds

variable {task : ℕ → Comp} {calls : List Call} {s : State} {waiting : List Comp} {r : ℕ}

lemma holds_start : Holds task [] .start [] 0 where
  count := rfl
  waiting := rfl
  recent := recent_zero
  head := rfl
  tail := rfl

/-- A task is submitted. -/
lemma Holds.doAsync (h : Holds task calls s waiting r) :
    Holds task (calls ++ [.put]) (doAsync (task (calls.count .put)) s)
      (waiting ++ [task (calls.count .put)]) r := by
  have hhead : (s.compHead + 1) % compSize = (calls.count .put + 1) % compSize := by
    rw [h.head, Nat.mod_add_mod]
  have hcount : (calls ++ [Call.put]).count .put = calls.count .put + 1 := by simp
  rw [doAsync_eq, hhead]
  exact {
    count := by rw [hcount, outstanding_put, h.count, Nat.add_assoc]
    waiting := by
      rw [outstanding_put, List.range'_1_concat, List.map_append, ← h.waiting, ← h.count]
      rfl
    recent := by
      rw [hcount]
      exact h.recent.store
    head := by rw [hcount]
    tail := h.tail }

/-- The indices differ when a task is waiting, and at most 999 are. -/
lemma Holds.head_ne_tail (h : Holds task calls s waiting r) (h₁ : 0 < outstanding calls)
    (h₂ : outstanding calls < compSize) : s.compHead ≠ s.compTail := by
  rw [h.head, h.tail, h.count]
  exact (mod_ne_mod (by omega) (by omega)).symm

/-- An interrupt that finds no task waiting does nothing. -/
lemma Holds.interrupt_idle (h : Holds task calls s waiting r) (h₀ : outstanding calls = 0) :
    interruptServiceRoutine s = (none, s) ∧ waiting = [] := by
  have heq : s.compHead = s.compTail := by rw [h.head, h.tail, h.count, h₀, Nat.add_zero]
  refine ⟨by rw [interruptServiceRoutine, if_neg (by simp [heq])], ?_⟩
  rw [h.waiting, h₀]
  rfl

/-- An interrupt that finds the indices different calls the handler of the last of the tasks that
share a slot with the oldest waiting task. -/
lemma Holds.interrupt_busy (h : Holds task calls s waiting r) (h₁ : 0 < outstanding calls)
    (hne : s.compHead ≠ s.compTail) : interruptServiceRoutine s =
      (some (task (r + compSize * ((outstanding calls - 1) / compSize))),
        { s with compTail := (r + 1) % compSize }) := by
  have htail : (s.compTail + 1) % compSize = (r + 1) % compSize := by rw [h.tail, Nat.mod_add_mod]
  have hplace := h.recent.place_eq (r := r) (by rw [h.count]; omega) (by decide)
  rw [h.count, Nat.add_sub_cancel_left] at hplace
  simp only [interruptServiceRoutine, if_pos hne, htail, hplace]

/-- The oldest waiting task. -/
lemma Holds.head? (h : Holds task calls s waiting r) (h₁ : 0 < outstanding calls) :
    waiting.head? = some (task r) := by
  obtain ⟨m, hm⟩ := Nat.exists_eq_succ_of_ne_zero (Nat.ne_of_gt h₁)
  rw [h.waiting, hm]
  rfl

/-- **An interrupt** that finds at most 999 tasks waiting calls the handler of the oldest. -/
lemma Holds.interrupt (h : Holds task calls s waiting r) (hlt : outstanding calls < compSize) :
    (interruptServiceRoutine s).1 = waiting.head? ∧
      ∃ r', Holds task (calls ++ [.take]) (interruptServiceRoutine s).2 waiting.tail r' := by
  have hcount : (calls ++ [Call.take]).count .put = calls.count .put := by simp
  rcases Nat.eq_zero_or_pos (outstanding calls) with h₀ | h₁
  · obtain ⟨e, e'⟩ := h.interrupt_idle h₀
    refine ⟨by rw [e, e']; rfl, r, ?_⟩
    rw [e, e']
    have hout : outstanding (calls ++ [.take]) = outstanding calls := by
      rw [outstanding_take, h₀]
    exact { h with
      count := by rw [hcount, hout, h.count]
      waiting := by rw [hout, h₀]; rfl
      recent := by rw [hcount]; exact h.recent
      head := by rw [hcount, h.head] }
  · have e := h.interrupt_busy h₁ (h.head_ne_tail h₁ hlt)
    have hzero : (outstanding calls - 1) / compSize = 0 := Nat.div_eq_of_lt (by omega)
    refine ⟨by rw [e, h.head? h₁, hzero]; rfl, r + 1, ?_⟩
    rw [e]
    exact {
      count := by rw [hcount, outstanding_take, h.count]; omega
      waiting := by
        obtain ⟨m, hm⟩ := Nat.exists_eq_succ_of_ne_zero (Nat.ne_of_gt h₁)
        rw [outstanding_take, h.waiting, hm]
        rfl
      recent := by rw [hcount]; exact h.recent
      head := by rw [hcount]; exact h.head
      tail := rfl }

/-- An interrupt that finds 1000 tasks waiting, or more, does not call the handler of the
oldest. -/
lemma Holds.interrupt_ne (h : Holds task calls s waiting r) (hle : compSize ≤ outstanding calls)
    (htask : Function.Injective task) : (interruptServiceRoutine s).1 ≠ waiting.head? := by
  have hpos : 0 < compSize := by decide
  rw [h.head? (by omega)]
  by_cases hne : s.compHead = s.compTail
  · simp [interruptServiceRoutine, hne]
  · rw [h.interrupt_busy (by omega) hne]
    intro e
    -- the number of waiting tasks is not a multiple of 1000, so it is more than 1000
    have hlt : compSize < outstanding calls := by
      refine Nat.lt_of_le_of_ne hle fun hsize => hne ?_
      rw [h.head, h.tail, h.count, ← hsize, Nat.add_mod_right]
    have hdiv : 0 < (outstanding calls - 1) / compSize := Nat.div_pos (by omega) hpos
    have := htask (Option.some.inj e)
    have := Nat.mul_pos hpos hdiv
    omega

end Holds

/-- The completion queue simulates the list of waiting tasks, as long as every interrupt finds at
most 999 of them. -/
lemma simulates (task : ℕ → Comp) : Simulates queue (fifo (fun _ => true) id) task
    (fun calls => outstanding calls ≤ 999) (fun calls s l => ∃ r, Holds task calls s l r) where
  init := ⟨0, holds_start⟩
  put := fun ⟨r, h⟩ => ⟨r, h.doAsync⟩
  take := fun ⟨_, h⟩ hok => h.interrupt (Nat.lt_succ_of_le hok)

/-- The interrupts are answered as they should be exactly if each finds at most 999 tasks. -/
lemma forall_law_iff (calls : List Call) :
    (∀ task, Law task calls) ↔ TakesMeet (fun pre => outstanding pre ≤ 999) calls := by
  constructor
  · intro h
    let task : ℕ → Comp := fun n => ⟨n, 0, 0⟩
    have htask : Function.Injective task := fun m n e => congrArg Comp.handler e
    exact (simulates task).takesMeet_of_outputs_eq
      (fun ⟨r, hr⟩ hbad => hr.interrupt_ne (Nat.lt_of_not_le hbad) htask) (h task)
  · intro hok task
    exact (simulates task).outputs_eq hok

/-- **The completion queue**: whatever the tasks are, every interrupt calls the handler of the
oldest outstanding task exactly if every interrupt finds at most 999 tasks outstanding. -/
theorem completionLaw_iff (calls : List Call) :
    (∀ task, Law task calls) ↔ TakesMeet (fun pre => outstanding pre ≤ 999) calls :=
  forall_law_iff calls

/-- Interrupts do not add to the outstanding tasks. -/
lemma outstanding_takes_le (calls : List Call) (n : ℕ) :
    outstanding (calls ++ List.replicate n .take) ≤ outstanding calls := by
  induction n with
  | zero => simp
  | succ n ih =>
    rw [List.replicate_succ', ← List.append_assoc, outstanding_take]
    omega

/-- **The queue holds what it should**, as later interrupts can tell: the tasks that are outstanding
at the end of a sequence of calls are all called, in order, exactly if there are at most 999 of them
and every interrupt so far has found at most 999. -/
theorem drainLaw_iff (calls : List Call) :
    (∀ n task, Law task (calls ++ List.replicate n .take)) ↔
      TakesMeet (fun pre => outstanding pre ≤ 999) calls ∧ outstanding calls ≤ 999 := by
  simp only [forall_law_iff, takesMeet_append, takesMeet_replicate]
  constructor
  · intro h
    exact ⟨(h 0).1, by simpa using (h 1).2 0 Nat.one_pos⟩
  · rintro ⟨hmeet, hle⟩ n
    exact ⟨hmeet, fun i _ => Nat.le_trans (outstanding_takes_le calls i) hle⟩

/-- **An interrupt is lost** when 1000 tasks are waiting. -/
theorem thousand_not_law : ¬ ∀ task calls, Law task calls := by
  intro h
  have hlaw := h (fun n => ⟨n, 0, 0⟩) (List.replicate 1000 .put ++ [.take])
  revert hlaw
  decide +kernel

end Async
