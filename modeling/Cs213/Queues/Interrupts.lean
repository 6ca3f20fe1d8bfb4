import Cs213.Library.Runs
import Cs213.Queues.CompletionQueue

set_option relaxedAutoImplicit false
set_option autoImplicit false

/-!
# Interrupts inside `doAsync`

A signal can run `interruptServiceRoutine` between any two statements of `doAsync`. The head of the
queue is moved before the task is stored, so an interrupt in between can see a task that is not
there yet.

## Main definitions

* `Async.Process` — the queue, the statements executed so far and the handlers called so far.
* `Async.step` — the next statement of `doAsync`, or an interrupt.
* `Async.InterruptLaw` — every handler is called with what has been stored for it, once and in
  order.
* `Async.Safe` — an interrupt does not find the task that is being submitted alone.

## Main results

* `Async.interruptLaw_iff` — the law holds exactly if every interrupt is safe.
* `Async.early_not_interruptLaw` — an interrupt right after the head has been moved.
-/

namespace Async

open Fifo Runs

/-! ## The code -/

/-- What happens next: the next statement of `doAsync`, or an interrupt. -/
inductive Move
  | statement
  | interrupt
  deriving DecidableEq, Repr

/-- The process: the queue, how many statements of `doAsync` have been executed, and the handlers
that the interrupts have called, with their arguments. -/
structure Process where
  queue : State
  statements : ℕ
  called : List Comp

/-- The process before the first submission. -/
def Process.start : Process := ⟨.start, 0, []⟩

/-- The statements of `doAsync`, on the task with these arguments. -/
def doAsyncStatement (a : Comp) : ℕ → State → State
  | 0 => moveHead
  | 1 => storeHandler a.handler
  | 2 => storeBuf a.buf
  | _ => storeSiz a.siz

/-- A step of the process, which submits `task 0`, `task 1`, ... An interrupt runs to completion. -/
def step (task : ℕ → Comp) (s : Process) : Move → Option Process
  | .statement => some { s with
      queue := doAsyncStatement (task (s.statements / 4)) (s.statements % 4) s.queue
      statements := s.statements + 1 }
  | .interrupt => some { s with
      queue := (interruptServiceRoutine s.queue).2
      called := s.called ++ (interruptServiceRoutine s.queue).1.toList }

namespace Process

/-- How many submissions have begun: their first statement has been executed. -/
def begun (s : Process) : ℕ := (s.statements + 3) / 4

/-- How many submissions have been stored: their last statement has been executed. -/
def stored (s : Process) : ℕ := s.statements / 4

/-- How many submissions have begun and have not been dispatched. -/
def outstanding (s : Process) : ℕ := s.begun - s.called.length

end Process

/-! ## The law -/

/-- The handler that an interrupt calls is that of the next submission, with its arguments, and all
of these have been stored. -/
def CallsStored (task : ℕ → Comp) (s : Process) (a : Move) : Prop :=
  a = .interrupt → ∀ c, (interruptServiceRoutine s.queue).1 = some c →
    s.called.length < s.stored ∧ c = task s.called.length

/-- **Interrupt safety**: every handler that is called is called with what has been stored for it,
and the calls are those of the submissions in their order, none twice and none skipped. -/
structure InterruptLaw (task : ℕ → Comp) (moves : List Move) : Prop where
  callsStored : AllSteps (step task) (CallsStored task) .start moves
  inOrder : ∀ t, run (step task) .start moves = some t →
    t.called = (List.range t.called.length).map task

/-- An interrupt does not come between the first and the last statement of a submission when no
other submission is outstanding. -/
def Safe (s : Process) (a : Move) : Prop :=
  a = .interrupt → s.statements % 4 ≠ 0 → s.outstanding ≠ 1

instance (s : Process) (a : Move) : Decidable (Safe s a) :=
  inferInstanceAs (Decidable (_ → _ → _))

/-! ## The invariant -/

/-- The indices count the submissions that have begun and those that have been dispatched, at most
999 of them are outstanding, and what has been stored for these is in their slots. -/
structure Tracked (task : ℕ → Comp) (s : Process) : Prop where
  called_le : s.called.length ≤ s.begun
  outstanding_le : s.outstanding ≤ 999
  head : s.queue.compHead = s.begun % compSize
  tail : s.queue.compTail = s.called.length % compSize
  slots : ∀ i, s.called.length ≤ i → i < s.stored → s.queue.comp ((i + 1) % compSize) = task i
  handler : 2 ≤ s.statements % 4 → (s.queue.comp s.queue.compHead).handler = (task s.stored).handler
  buf : 3 ≤ s.statements % 4 → (s.queue.comp s.queue.compHead).buf = (task s.stored).buf

section Tracked

variable {task : ℕ → Comp} {s t : Process} {c : Comp}

lemma tracked_start : Tracked task .start where
  called_le := Nat.zero_le _
  outstanding_le := Nat.zero_le _
  head := rfl
  tail := rfl
  slots := fun _ _ h => absurd h (Nat.not_lt_zero _)
  handler := fun h => absurd h (by decide)
  buf := fun h => absurd h (by decide)

/-- Between its statements, a submission has begun and has not been stored. -/
lemma begun_eq (h : s.statements % 4 ≠ 0) : s.begun = s.stored + 1 := by
  unfold Process.begun Process.stored
  omega

/-- Otherwise all submissions that have begun have been stored. -/
lemma begun_eq_stored (h : s.statements % 4 = 0) : s.begun = s.stored := by
  unfold Process.begun Process.stored
  omega

/-- What is stored for the submission in progress does not touch what has been stored for the other
outstanding submissions. -/
lemma Tracked.setComp_of_lt (h : Tracked task s) (hmid : s.statements % 4 ≠ 0) {i : ℕ}
    (h₁ : s.called.length ≤ i) (h₂ : i < s.stored) :
    (s.queue.setComp c).comp ((i + 1) % compSize) = task i := by
  have hbegun := begun_eq hmid
  have hout := h.outstanding_le
  have hne : (i + 1) % compSize ≠ s.queue.compHead := by
    rw [h.head, hbegun]
    unfold Process.outstanding at hout
    exact mod_ne_mod (by omega) (by unfold compSize; omega)
  exact (Function.update_of_ne hne ..).trans (h.slots i h₁ h₂)

lemma setComp_self : (s.queue.setComp c).comp s.queue.compHead = c := Function.update_self ..

/-- The first statement of a submission. -/
lemma Tracked.moveHead (h : Tracked task s) (h₀ : s.statements % 4 = 0)
    (hout : s.begun < s.called.length + 999) :
    Tracked task { s with queue := Async.moveHead s.queue, statements := s.statements + 1 } := by
  have hbegun : (s.statements + 1 + 3) / 4 = s.begun + 1 := by
    unfold Process.begun
    omega
  have hstored : (s.statements + 1) / 4 = s.stored := by
    unfold Process.stored
    omega
  have := h.called_le
  refine ⟨?_, ?_, ?_, h.tail, fun i h₁ h₂ => h.slots i h₁ (by rwa [← hstored]), ?_, ?_⟩
  · show s.called.length ≤ (s.statements + 1 + 3) / 4
    omega
  · show (s.statements + 1 + 3) / 4 - s.called.length ≤ 999
    omega
  · show (s.queue.compHead + 1) % compSize = (s.statements + 1 + 3) / 4 % compSize
    rw [h.head, hbegun, Nat.mod_add_mod]
  · intro h₂
    simp only at h₂
    omega
  · intro h₂
    simp only at h₂
    omega

/-- A statement in the middle of a submission. -/
lemma Tracked.setComp (h : Tracked task s) (hmid : s.statements % 4 ≠ 0)
    (hlt : s.statements % 4 < 3)
    (hhandler : c.handler = (task s.stored).handler)
    (hbuf : 2 ≤ s.statements % 4 → c.buf = (task s.stored).buf) :
    Tracked task { s with queue := s.queue.setComp c, statements := s.statements + 1 } := by
  have hbegun : (s.statements + 1 + 3) / 4 = s.begun := by
    unfold Process.begun
    omega
  have hstored : (s.statements + 1) / 4 = s.stored := by
    unfold Process.stored
    omega
  have hslots : ∀ i, s.called.length ≤ i → i < (s.statements + 1) / 4 →
      (s.queue.setComp c).comp ((i + 1) % compSize) = task i := by
    rw [hstored]
    exact fun i h₁ h₂ => h.setComp_of_lt hmid h₁ h₂
  refine ⟨?_, ?_, ?_, h.tail, hslots, fun _ => ?_, fun h₃ => ?_⟩
  · show s.called.length ≤ (s.statements + 1 + 3) / 4
    rw [hbegun]
    exact h.called_le
  · show (s.statements + 1 + 3) / 4 - s.called.length ≤ 999
    rw [hbegun]
    exact h.outstanding_le
  · show s.queue.compHead = (s.statements + 1 + 3) / 4 % compSize
    rw [hbegun]
    exact h.head
  · show ((s.queue.setComp c).comp s.queue.compHead).handler =
      (task ((s.statements + 1) / 4)).handler
    rw [setComp_self, hstored, hhandler]
  · show ((s.queue.setComp c).comp s.queue.compHead).buf = (task ((s.statements + 1) / 4)).buf
    simp only at h₃
    rw [setComp_self, hstored, hbuf (by omega)]

/-- The last statement of a submission. -/
lemma Tracked.setComp_last (h : Tracked task s) (h₃ : s.statements % 4 = 3)
    (hc : c = task s.stored) :
    Tracked task { s with queue := s.queue.setComp c, statements := s.statements + 1 } := by
  have hmid : s.statements % 4 ≠ 0 := by omega
  have hbegun : (s.statements + 1 + 3) / 4 = s.begun := by
    unfold Process.begun
    omega
  have hstored : (s.statements + 1) / 4 = s.stored + 1 := by
    unfold Process.stored
    omega
  have hslots : ∀ i, s.called.length ≤ i → i < (s.statements + 1) / 4 →
      (s.queue.setComp c).comp ((i + 1) % compSize) = task i := by
    rw [hstored]
    intro i h₁ h₂
    rcases Nat.lt_succ_iff_lt_or_eq.mp h₂ with hlt | rfl
    · exact h.setComp_of_lt hmid h₁ hlt
    · rw [← begun_eq hmid, ← h.head, setComp_self, hc]
  refine ⟨?_, ?_, ?_, h.tail, hslots, fun h₄ => ?_, fun h₄ => ?_⟩
  · show s.called.length ≤ (s.statements + 1 + 3) / 4
    rw [hbegun]
    exact h.called_le
  · show (s.statements + 1 + 3) / 4 - s.called.length ≤ 999
    rw [hbegun]
    exact h.outstanding_le
  · show s.queue.compHead = (s.statements + 1 + 3) / 4 % compSize
    rw [hbegun]
    exact h.head
  · simp only at h₄
    omega
  · simp only at h₄
    omega

/-- **A statement** of `doAsync`. -/
lemma Tracked.statement (h : Tracked task s) (ht : step task s .statement = some t)
    (hout : t.outstanding ≤ 999) : Tracked task t := by
  have hcases : s.statements % 4 = 0 ∨ s.statements % 4 = 1 ∨ s.statements % 4 = 2 ∨
      s.statements % 4 = 3 := by omega
  simp only [step] at ht
  rcases hcases with h₀ | h₁ | h₂ | h₃
  · rw [h₀] at ht
    cases ht
    have hle := h.called_le
    refine h.moveHead h₀ ?_
    simp only [Process.outstanding, Process.begun] at hout hle ⊢
    omega
  · rw [h₁] at ht
    cases ht
    exact h.setComp (by omega) (by omega) rfl (by omega)
  · rw [h₂] at ht
    cases ht
    exact h.setComp (by omega) (by omega) (h.handler (by omega)) fun _ => rfl
  · rw [h₃] at ht
    cases ht
    refine h.setComp_last h₃ ?_
    simp only [h.handler (by omega), h.buf (by omega)]
    rfl

/-- The indices are equal exactly if no submission is outstanding. -/
lemma Tracked.head_eq_tail_iff (h : Tracked task s) :
    s.queue.compHead = s.queue.compTail ↔ s.outstanding = 0 := by
  have hle := h.called_le
  have hout := h.outstanding_le
  unfold Process.outstanding at hout ⊢
  rw [h.head, h.tail]
  constructor
  · intro heq
    by_contra hne
    exact mod_ne_mod (N := compSize) (by omega) (by unfold compSize; omega) heq.symm
  · intro hzero
    rw [Nat.le_antisymm (Nat.le_of_sub_eq_zero hzero) hle]

/-- An interrupt when no submission is outstanding. -/
lemma Tracked.interrupt_idle (h : Tracked task s) (h₀ : s.outstanding = 0) :
    interruptServiceRoutine s.queue = (none, s.queue) := by
  rw [interruptServiceRoutine, if_neg (not_not_intro (h.head_eq_tail_iff.mpr h₀))]

/-- An interrupt when some submission is outstanding. -/
lemma Tracked.interrupt_busy (h : Tracked task s) (h₀ : s.outstanding ≠ 0) :
    interruptServiceRoutine s.queue =
      (some (s.queue.comp ((s.called.length + 1) % compSize)),
        { s.queue with compTail := (s.called.length + 1) % compSize }) := by
  have hne : s.queue.compHead ≠ s.queue.compTail := fun heq => h₀ (h.head_eq_tail_iff.mp heq)
  have htail : (s.queue.compTail + 1) % compSize = (s.called.length + 1) % compSize := by
    rw [h.tail, Nat.mod_add_mod]
  simp only [interruptServiceRoutine, if_pos hne, htail]

/-- **An interrupt.** -/
lemma Tracked.interrupt (h : Tracked task s) (ht : step task s .interrupt = some t) :
    Tracked task t := by
  simp only [step] at ht
  by_cases h₀ : s.outstanding = 0
  · rw [h.interrupt_idle h₀] at ht
    cases ht
    simpa using h
  · rw [h.interrupt_busy h₀] at ht
    cases ht
    have hle := h.called_le
    have hout := h.outstanding_le
    unfold Process.outstanding at h₀ hout
    have hlen : ∀ c : Comp, (s.called ++ (some c).toList).length = s.called.length + 1 :=
      fun c => List.length_append
    refine ⟨?_, ?_, h.head, ?_, fun i h₁ h₂ => h.slots i ?_ h₂, h.handler, h.buf⟩
    · show (s.called ++ _).length ≤ s.begun
      rw [hlen]
      omega
    · show s.begun - (s.called ++ _).length ≤ 999
      rw [hlen]
      omega
    · show (s.called.length + 1) % compSize = (s.called ++ _).length % compSize
      rw [hlen]
    · simp only [hlen] at h₁
      omega

/-- The invariant holds as long as at most 999 submissions are outstanding. -/
lemma tracked_of_run {moves : List Move}
    (hout : Throughout (step task) (fun s => s.outstanding ≤ 999) .start moves)
    (ht : run (step task) .start moves = some t) : Tracked task t := by
  refine induct (motive := fun moves t =>
    Throughout (step task) (fun s => s.outstanding ≤ 999) .start moves → Tracked task t)
    (fun _ => tracked_start) ?_ ht hout
  intro moves a s t hr ih hst hout
  have hs := ih hout.left
  cases a with
  | statement => exact hs.statement hst (hout.last (run_concat.mpr ⟨s, hr, hst⟩))
  | interrupt => exact hs.interrupt hst

/-- **One interrupt** calls the handler of a stored submission exactly if it is safe. -/
lemma Tracked.callsStored_iff (h : Tracked task s) (a : Move) :
    CallsStored task s a ↔ Safe s a := by
  cases a with
  | statement => exact iff_of_true nofun nofun
  | interrupt =>
    by_cases h₀ : s.outstanding = 0
    · refine iff_of_true (fun _ c hc => ?_) fun _ _ => ?_
      · rw [h.interrupt_idle h₀] at hc
        cases hc
      · rw [h₀]
        decide
    · have hle := h.called_le
      have hiff : s.called.length < s.stored ↔ (s.statements % 4 ≠ 0 → s.outstanding ≠ 1) := by
        unfold Process.outstanding at *
        by_cases hmid : s.statements % 4 = 0
        · have := begun_eq_stored hmid
          omega
        · have := begun_eq hmid
          omega
      constructor
      · intro hcalls _
        have hcall := congrArg Prod.fst (h.interrupt_busy h₀)
        exact hiff.mp (hcalls rfl _ hcall).1
      · intro hsafe _ c hc
        have hlt := hiff.mpr (hsafe rfl)
        rw [h.interrupt_busy h₀] at hc
        cases hc
        exact ⟨hlt, h.slots _ (Nat.le_refl _) hlt⟩

end Tracked

/-- The handlers that have been called, if every call is that of the next submission. -/
lemma called_eq_of_callsStored {task : ℕ → Comp} {moves : List Move} {t : Process}
    (h : AllSteps (step task) (CallsStored task) .start moves)
    (ht : run (step task) .start moves = some t) :
    t.called = (List.range t.called.length).map task := by
  refine induct_of_allSteps (motive := fun _ t =>
    t.called = (List.range t.called.length).map task) rfl ?_ h ht
  intro moves a s t _ ih hcalls hst
  cases a with
  | statement =>
    cases hst
    exact ih
  | interrupt =>
    cases hst
    cases hout : (interruptServiceRoutine s.queue).1 with
    | none => simpa using ih
    | some c =>
      have hc := (hcalls rfl c hout).2
      simp only [Option.toList_some, List.length_append, List.length_singleton, List.range_succ,
        List.map_append, List.map_singleton, ← ih, hc]

/-- **Interrupt safety.** Whatever the tasks are, when never more than 999 submissions are
outstanding, the law holds exactly if every interrupt is safe. -/
theorem interruptLaw_iff (task : ℕ → Comp) (moves : List Move)
    (hout : Throughout (step task) (fun s => s.outstanding ≤ 999) .start moves) :
    InterruptLaw task moves ↔ AllSteps (step task) Safe .start moves := by
  have hcongr : AllSteps (step task) (CallsStored task) .start moves ↔
      AllSteps (step task) Safe .start moves := by
    refine allSteps_congr ?_
    rintro pre a suf rfl t ht
    exact (tracked_of_run hout.left ht).callsStored_iff a
  rw [← hcongr]
  exact ⟨fun h => h.callsStored, fun h => ⟨h, fun t ht => called_eq_of_callsStored h ht⟩⟩

/-- An interrupt in the middle of the second submission, while the first one waits, and another one
after it. -/
theorem interruptLaw_during : InterruptLaw (fun n => ⟨n, 0, 0⟩)
    [.statement, .statement, .statement, .statement, .statement, .statement, .interrupt,
      .statement, .statement, .interrupt] :=
  (interruptLaw_iff _ _ (by decide)).mpr (by decide)

/-- **An interrupt that comes too early** calls a handler that has not been stored. -/
theorem early_not_interruptLaw : ¬ ∀ task moves,
    Throughout (step task) (fun s => s.outstanding ≤ 999) .start moves →
      InterruptLaw task moves := by
  intro h
  have hlaw := h (fun n => ⟨n, 0, 0⟩) [.statement, .interrupt] (by decide)
  have hcalls := (hlaw.callsStored.2 _ rfl).1
  exact absurd (hcalls rfl _ rfl).1 (by decide)

end Async
