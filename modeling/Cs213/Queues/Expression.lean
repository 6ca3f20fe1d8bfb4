import Mathlib.Algebra.GroupWithZero.Nat
import Mathlib.Data.Fin.VecNotation
import Mathlib.Data.Fintype.Sigma
import Mathlib.Data.Fintype.Sum
import Mathlib.Tactic.DeriveFintype
import Mathlib.Tactic.FinCases
import Cs213.Queues.Interrupts

set_option relaxedAutoImplicit false
set_option autoImplicit false

/-!
# The program of `a7/async.c`

`main` computes `(((1 + 2) - (3 + 4)) + 7)` with four tasks that it submits with `doAsync`, and
spins until an interrupt has called the handler of a task whose result it needs. An interrupt
can come between any two statements of `main` and of `doAsync`.

## Main definitions

* `Async.Expression.Config` — the constants and the addresses.
* `Async.Expression.Point` — the statements, in their order.
* `Async.Expression.step` — the next statement, or an interrupt.
* `Async.Expression.Early` — an interrupt finds a task without its handler or without its buffer.
* `Async.Expression.Good` — the invariant along a run.
* `Async.Expression.Evaluates` — what the program does.

## Main results

* `Async.Expression.Good.step` — one step.
* `Async.Expression.evaluates_of_run` — what the program prints, and when it crashes.

## Implementation notes

The variables `t1` to `t4` are numbered from `0`. They are not initialized, so what they contain at
the start is arbitrary. A handler or a buffer that is not the address of a function or a variable of
the program is a fault.
-/

namespace Async

namespace Expression

open Runs

/-! ## The code -/

/-- The instance of the numerals for variables. -/
local instance neZero_variables : NeZero 4 := ⟨by decide⟩

/-- `struct Triple`. -/
structure Triple where
  result : BitVec 32
  arg0 : BitVec 32
  arg1 : BitVec 32
  spin_lock : BitVec 32
  deriving DecidableEq, Repr

/-- `LOCKED` -/
def locked : BitVec 32 := 1

/-- `UNLOCKED` -/
def unlocked : BitVec 32 := 0

/-- The constants of the program, and the addresses of `add`, `sub` and of the variables `t1` to
`t4`. -/
structure Config where
  t1 : BitVec 32 × BitVec 32
  t2 : BitVec 32 × BitVec 32
  last : BitVec 32
  add : ℕ
  sub : ℕ
  t : Fin 4 → ℕ
  add_ne_zero : add ≠ 0
  sub_ne_zero : sub ≠ 0
  sub_ne_add : sub ≠ add
  t_ne_zero : ∀ k, t k ≠ 0
  t_injective : Function.Injective t

/-- An operand of an assignment of `main`. -/
inductive Operand
  | const (v : BitVec 32)
  /-- `t_k.result` -/
  | result (k : Fin 4)

/-- What is assigned to `arg0`. -/
def arg0 (cfg : Config) : Fin 4 → Operand :=
  ![.const cfg.t1.1, .const cfg.t2.1, .result 0, .result 2]

/-- What is assigned to `arg1`. -/
def arg1 (cfg : Config) : Fin 4 → Operand :=
  ![.const cfg.t1.2, .const cfg.t2.2, .result 1, .const cfg.last]

/-- The handlers of the tasks. -/
def handler (cfg : Config) : Fin 4 → ℕ := ![cfg.add, cfg.add, cfg.sub, cfg.add]

/-- The arguments of `doAsync`. -/
def task (cfg : Config) (k : Fin 4) : Comp := ⟨handler cfg k, cfg.t k, 0⟩

/-- The statements of `main`. -/
inductive Point
  | arg0 (k : Fin 4)
  | arg1 (k : Fin 4)
  /-- `t_k.spin_lock = LOCKED` -/
  | lock (k : Fin 4)
  /-- statement `i` of the call of `doAsync` for `t_k` -/
  | async (k i : Fin 4)
  /-- `while (t_k.spin_lock != UNLOCKED) {}` -/
  | spin (k : Fin 4)
  /-- `global_result = t4.result` -/
  | global
  | printf
  | done
  deriving DecidableEq, Repr, Fintype

/-- The order of the statements. -/
def Point.next : Point → Point
  | .arg0 2 => .spin 1
  | .arg0 k => .arg1 k
  | .arg1 k => .lock k
  | .lock 0 => .arg0 1
  | .lock 1 => .async 0 0
  | .lock k => .async k 0
  | .async 0 3 => .async 1 0
  | .async 1 3 => .spin 0
  | .async k 3 => .spin k
  | .async k i => .async k (i + 1)
  | .spin 0 => .arg0 2
  | .spin 1 => .arg1 2
  | .spin 2 => .arg0 3
  | .spin 3 => .global
  | .global => .printf
  | .printf => .done
  | .done => .done

/-- The process. -/
structure Process where
  pc : Point
  queue : State
  t : Fin 4 → Triple
  global_result : BitVec 32
  output : List (BitVec 32)
  /-- The handlers that the interrupts have called, with their arguments. -/
  called : List Comp
  /-- A handler has been called that is none, or has been given a buffer that is none. -/
  fault : Bool

/-- The process at the start; `t` is what is on the stack. -/
def Process.start (t : Fin 4 → Triple) : Process where
  pc := .arg0 0
  queue := .start
  t := t
  global_result := 0
  output := []
  called := []
  fault := false

/-- The value of an operand. -/
def Operand.eval (t : Fin 4 → Triple) : Operand → BitVec 32
  | .const v => v
  | .result k => (t k).result

/-- The next statement of `main`. -/
def statement (cfg : Config) (s : Process) : Option Process :=
  let s' := { s with pc := s.pc.next }
  match s.pc with
  | .arg0 k =>
    some { s' with t := Function.update s.t k { s.t k with arg0 := (arg0 cfg k).eval s.t } }
  | .arg1 k =>
    some { s' with t := Function.update s.t k { s.t k with arg1 := (arg1 cfg k).eval s.t } }
  | .lock k => some { s' with t := Function.update s.t k { s.t k with spin_lock := locked } }
  | .async k i => some { s' with queue := doAsyncStatement (task cfg k) i s.queue }
  | .spin k => some (if (s.t k).spin_lock = unlocked then s' else s)
  | .global => some { s' with global_result := (s.t 3).result }
  | .printf => some { s' with output := s.output ++ [s.global_result] }
  | .done => none

/-- A statement is no fault. -/
lemma fault_of_statement {cfg : Config} {s t : Process} (h : statement cfg s = some t) :
    t.fault = s.fault := by
  unfold statement at h
  split at h
  case h_5 =>
    simp only [Option.some.injEq] at h
    split_ifs at h <;> cases h <;> rfl
  all_goals cases h
  all_goals rfl

/-- `add` and `sub`: what the function at an address does with a variable. -/
def apply (cfg : Config) (h : ℕ) (x : Triple) : Option Triple :=
  if h = cfg.add then some { x with result := x.arg0 + x.arg1, spin_lock := unlocked }
  else if h = cfg.sub then some { x with result := x.arg0 - x.arg1, spin_lock := unlocked }
  else none

/-- The call of a handler. -/
def call (cfg : Config) (c : Comp) (t : Fin 4 → Triple) : Option (Fin 4 → Triple) := do
  let k ← (List.finRange 4).find? fun k => cfg.t k = c.buf
  let x ← apply cfg c.handler (t k)
  return Function.update t k x

/-- `interruptServiceRoutine`, and the handler that it calls. -/
def interrupt (cfg : Config) (s : Process) : Process :=
  match interruptServiceRoutine s.queue with
  | (none, queue) => { s with queue := queue }
  | (some c, queue) =>
    match call cfg c s.t with
    | some t => { s with queue := queue, t := t, called := s.called ++ [c] }
    | none => { s with queue := queue, fault := true }

@[simp] lemma interrupt_pc (cfg : Config) (s : Process) : (interrupt cfg s).pc = s.pc := by
  unfold interrupt
  grind

@[simp] lemma interrupt_output (cfg : Config) (s : Process) :
    (interrupt cfg s).output = s.output := by
  unfold interrupt
  grind

/-- **The step function.** -/
def step (cfg : Config) (s : Process) (a : Move) : Option Process :=
  if s.fault then none
  else match a with
    | .statement => statement cfg s
    | .interrupt => some (interrupt cfg s)

/-! ## What is claimed of the program -/

/-- What the program is to compute. -/
def result (cfg : Config) : BitVec 32 :=
  ((cfg.t1.1 + cfg.t1.2) - (cfg.t2.1 + cfg.t2.2)) + cfg.last

/-- An interrupt comes right after the head of the queue has been moved or the handler has been
stored, when no other task waits. -/
def Early (s : Process) (a : Move) : Prop :=
  a = .interrupt ∧ ∃ k, (s.pc = .async k 1 ∨ s.pc = .async k 2) ∧ s.called.length = (k : ℕ)

instance (s : Process) (a : Move) : Decidable (Early s a) :=
  inferInstanceAs (Decidable (_ ∧ _))

/-! ## The order of the statements -/

namespace Point

/-- The number of statements before this one. -/
def rank : Point → ℕ
  | .arg0 k => ![0, 3, 15, 24] k
  | .arg1 k => ![1, 4, 17, 25] k
  | .lock k => ![2, 5, 18, 26] k
  | .async k i => ![6, 10, 19, 27] k + (i : ℕ)
  | .spin k => ![14, 16, 23, 31] k
  | .global => 32
  | .printf => 33
  | .done => 34

/-- How many statements of `doAsync` are before this one. -/
def asyncs : Point → ℕ
  | .arg0 k | .arg1 k | .lock k => ![0, 0, 8, 12] k
  | .async k i => 4 * (k : ℕ) + (i : ℕ)
  | .spin k => ![8, 8, 12, 16] k
  | .global | .printf | .done => 16

lemma rank_next : ∀ pt : Point, pt ≠ .done → pt.next.rank = pt.rank + 1 := by decide

lemma rank_injective : Function.Injective rank := by decide

lemma index_cases : ∀ i : Fin 4, i = 0 ∨ i = 1 ∨ i = 2 ∨ i = 3 := by decide

/-- The statements before the next one. -/
lemma rank_lt_next {pt x : Point} (h : pt ≠ .done) :
    x.rank < pt.next.rank ↔ x.rank < pt.rank ∨ x = pt := by
  rw [rank_next pt h, Nat.lt_succ_iff_lt_or_eq, rank_injective.eq_iff]

lemma asyncs_next : ∀ pt : Point, (∀ k i, pt ≠ .async k i) → pt.next.asyncs = pt.asyncs := by
  decide

lemma asyncs_next_async : ∀ k i, (Point.async k i).next.asyncs = 4 * (k : ℕ) + (i : ℕ) + 1 := by
  decide

/-- A call of `doAsync` begins with its first statement. -/
lemma eq_zero_of_next : ∀ pt : Point, (∀ k i, pt ≠ .async k i) → ∀ k i, pt.next = .async k i →
    i = 0 := by
  decide

/-- The statements of a call of `doAsync` follow each other. -/
lemma eq_of_next_async : ∀ k i k' i', (Point.async k i).next = .async k' i' → i' ≠ 0 →
    k' = k ∧ (i' : ℕ) = (i : ℕ) + 1 := by
  decide

lemma not_rank_lt : ∀ k i, ¬ (Point.async k i).rank < (Point.async k 0).rank := by decide

lemma not_rank_lt_lock : ∀ k, ¬ (Point.async k 0).rank < (Point.lock k).rank := by decide

lemma next_eq_done_iff : ∀ {pt : Point}, pt ≠ .done → (pt.next = .done ↔ pt = .printf) := by
  decide

/-- Between the statements of `doAsync` a submission is in progress. -/
lemma exists_async : ∀ pt : Point, pt.asyncs % 4 ≠ 0 → ∃ k i : Fin 4, pt = .async k i ∧ i ≠ 0 := by
  decide

/-- A submission has begun after its first statement. -/
lemma lt_begun_iff : ∀ (pt : Point) (k : Fin 4), (k : ℕ) < (pt.asyncs + 3) / 4 ↔
    (Point.async k 0).rank < pt.rank := by
  decide

/-- `main` has waited for an operand when it uses it. -/
lemma spin_lt_arg0 (j k : Fin 4) (cfg : Config) (h : Expression.arg0 cfg k = .result j) :
    (Point.spin j).rank < (Point.arg0 k).rank := by
  rcases index_cases k with rfl | rfl | rfl | rfl <;> cases h <;> decide

lemma spin_lt_arg1 (j k : Fin 4) (cfg : Config) (h : Expression.arg1 cfg k = .result j) :
    (Point.spin j).rank < (Point.arg1 k).rank := by
  rcases index_cases k with rfl | rfl | rfl | rfl <;> cases h
  decide

/-- `main` waits for what it has locked. -/
lemma lock_lt_spin : ∀ k, (Point.lock k).rank < (Point.spin k).rank := by decide

lemma arg0_lt_async : ∀ k, (Point.arg0 k).rank < (Point.async k 0).rank := by decide

lemma arg1_lt_async : ∀ k, (Point.arg1 k).rank < (Point.async k 0).rank := by decide

lemma async_lt_spin : ∀ k, (Point.async k 0).rank < (Point.spin k).rank := by decide

lemma rank_le : ∀ pt : Point, pt.rank ≤ Point.done.rank := by decide

lemma begun_le : ∀ pt : Point, (pt.asyncs + 3) / 4 ≤ 4 := by decide

end Point

/-! ## The values -/

/-- The results of the tasks. -/
def value (cfg : Config) : Fin 4 → BitVec 32 :=
  ![cfg.t1.1 + cfg.t1.2, cfg.t2.1 + cfg.t2.2,
    (cfg.t1.1 + cfg.t1.2) - (cfg.t2.1 + cfg.t2.2), result cfg]

/-- The value that an operand is to have. -/
def Operand.value (cfg : Config) : Operand → BitVec 32
  | .const v => v
  | .result k => Expression.value cfg k

section Values

variable {cfg : Config} {t : Fin 4 → Triple} {k : Fin 4}

/-- The handler of a task computes its result. -/
lemma apply_handler {x : Triple} (h₀ : x.arg0 = (arg0 cfg k).value cfg)
    (h₁ : x.arg1 = (arg1 cfg k).value cfg) : apply cfg (handler cfg k) x =
      some { x with result := value cfg k, spin_lock := unlocked } := by
  have hne := cfg.sub_ne_add
  rw [apply, h₀, h₁]
  fin_cases k <;> simp [handler, arg0, arg1, value, Operand.value, hne, result]

/-- The handler of a task is called on its variable. -/
lemma call_task (h₀ : (t k).arg0 = (arg0 cfg k).value cfg)
    (h₁ : (t k).arg1 = (arg1 cfg k).value cfg) : call cfg (task cfg k) t =
      some (Function.update t k { t k with result := value cfg k, spin_lock := unlocked }) := by
  have hself : ∀ k : Fin 4, (List.finRange 4).find? (fun j => j = k) = some k := by decide
  have hfind : (List.finRange 4).find? (fun j => cfg.t j = cfg.t k) = some k := by
    simp only [cfg.t_injective.eq_iff, hself]
  rw [call, task, hfind]
  simp [apply_handler h₀ h₁]

/-- There is no handler, or no buffer. -/
lemma call_eq_none {c : Comp} (h : c.handler = 0 ∨ c.buf = 0) : call cfg c t = none := by
  rcases h with h | h
  · have happly : ∀ x, apply cfg 0 x = none := by
      intro x
      rw [apply, if_neg cfg.add_ne_zero.symm, if_neg cfg.sub_ne_zero.symm]
    cases hf : (List.finRange 4).find? (fun k => cfg.t k = c.buf) <;>
      simp [call, hf, h, happly]
  · have hfind : (List.finRange 4).find? (fun k => cfg.t k = c.buf) = none := by
      simp [h, cfg.t_ne_zero]
    simp [call, hfind]

end Values

/-! ## The invariant -/

/-- The tasks, by their number. -/
def tasks (cfg : Config) (n : ℕ) : Comp := task cfg (Fin.ofNat 4 n)

@[simp] lemma tasks_val (cfg : Config) (k : Fin 4) : tasks cfg (k : ℕ) = task cfg k := by
  simp [tasks]

/-- The queue of the process, as one that only `doAsync` and the interrupts use. -/
def Process.submits (s : Process) : Async.Process := ⟨s.queue, s.pc.asyncs, s.called⟩

/-- **The queue** of a process without a fault. -/
structure Queued (cfg : Config) (s : Process) : Prop where
  /-- It is used as in any other program. -/
  tracked : Tracked (tasks cfg) s.submits
  /-- The slots of tasks whose submission has not begun are as they were. -/
  fresh : ∀ k : Fin 4, s.pc.rank ≤ (Point.async k 0).rank →
    s.queue.comp ((k : ℕ) + 1) = ⟨0, 0, 0⟩
  /-- Of the task in progress the first members have been stored. -/
  inProgress : ∀ k i : Fin 4, s.pc = .async k i → i ≠ 0 → s.queue.comp ((k : ℕ) + 1) =
    ⟨if 2 ≤ (i : ℕ) then handler cfg k else 0, if 3 ≤ (i : ℕ) then cfg.t k else 0, 0⟩

/-- **The invariant** of a process without a fault. -/
structure Good (cfg : Config) (s : Process) : Prop where
  queued : Queued cfg s
  /-- `main` gets past a loop when the handler has been called. -/
  passed : ∀ k : Fin 4, (Point.spin k).rank < s.pc.rank → (k : ℕ) < s.called.length
  arg0 : ∀ k, (Point.arg0 k).rank < s.pc.rank → (s.t k).arg0 = (arg0 cfg k).value cfg
  arg1 : ∀ k, (Point.arg1 k).rank < s.pc.rank → (s.t k).arg1 = (arg1 cfg k).value cfg
  locked : ∀ k : Fin 4, s.called.length ≤ (k : ℕ) → (Point.lock k).rank < s.pc.rank →
    (s.t k).spin_lock = locked
  handled : ∀ k : Fin 4, (k : ℕ) < s.called.length →
    (s.t k).result = value cfg k ∧ (s.t k).spin_lock = unlocked
  global : Point.global.rank < s.pc.rank → s.global_result = result cfg
  output : s.output = if s.pc = .done then [result cfg] else []

section Queued

variable {cfg : Config} {s t : Process}

lemma queued_start (v : Fin 4 → Triple) : Queued cfg (.start v) where
  tracked := tracked_start
  fresh _ _ := rfl
  inProgress k i h := by simp [Process.start] at h

/-- Outside of `doAsync` the queue stays as it is. -/
lemma Queued.of_not_async (h : Queued cfg s) (hn : ∀ k i, s.pc ≠ .async k i) (hd : s.pc ≠ .done)
    (hpc : t.pc = s.pc.next) (hq : t.queue = s.queue) (hc : t.called = s.called) :
    Queued cfg t where
  tracked := by
    have heq : t.submits = s.submits := by
      rw [Process.submits, hpc, Point.asyncs_next _ hn, hq, hc]
      rfl
    exact heq ▸ h.tracked
  fresh k hk := by
    rw [hpc, Point.rank_next _ hd] at hk
    rw [hq]
    exact h.fresh k (by omega)
  inProgress k i hki hi := absurd (Point.eq_zero_of_next _ hn k i (hpc ▸ hki)) hi

/-- The slot of the task in progress. -/
lemma Queued.head (h : Queued cfg s) {k i : Fin 4} (hpc : s.pc = .async k i) (hi : i ≠ 0) :
    s.queue.compHead = (k : ℕ) + 1 := by
  have hi' : (i : ℕ) ≠ 0 := fun e => hi (Fin.ext e)
  have hbegun : s.submits.begun = (k : ℕ) + 1 := by
    simp only [Process.submits, hpc, Point.asyncs, Process.begun]
    omega
  rw [show s.queue.compHead = s.submits.begun % compSize from h.tracked.head, hbegun, compSize]
  omega

/-- **A statement** of `doAsync`. -/
lemma Queued.async (h : Queued cfg s) {k i : Fin 4} (hpc : s.pc = .async k i) :
    Queued cfg { s with
      pc := s.pc.next
      queue := doAsyncStatement (task cfg k) i s.queue } := by
  have hasyncs : s.submits.statements = 4 * (k : ℕ) + i := by
    simp only [Process.submits, hpc, Point.asyncs]
  have hdiv : (4 * (k : ℕ) + i) / 4 = k := by omega
  have hmod : (4 * (k : ℕ) + i) % 4 = i := by omega
  have hother : ∀ k' : Fin 4, k' ≠ k →
      (doAsyncStatement (task cfg k) i s.queue).comp ((k' : ℕ) + 1) =
        s.queue.comp ((k' : ℕ) + 1) := by
    intro k' hk'
    have hne : ∀ hi : i ≠ 0, (k' : ℕ) + 1 ≠ s.queue.compHead := by
      intro hi e
      rw [h.head hpc hi, Nat.succ_inj, Fin.val_inj] at e
      exact hk' e
    rcases Point.index_cases i with rfl | rfl | rfl | rfl
    · rfl
    · exact Function.update_of_ne (hne (by decide)) ..
    · exact Function.update_of_ne (hne (by decide)) ..
    · exact Function.update_of_ne (hne (by decide)) ..
  constructor
  case tracked =>
    refine h.tracked.statement (t := Process.submits _) ?_ ?_
    · rw [Async.step, hasyncs, hdiv, hmod, tasks_val]
      simp only [Process.submits, hpc, Point.asyncs_next_async]
    · simp only [Process.submits, Process.outstanding, Process.begun, hpc,
        Point.asyncs_next_async]
      omega
  case fresh =>
    intro k' hk'
    have hd : s.pc ≠ .done := by simp [hpc]
    have hlt : s.pc.rank < (Point.async k' 0).rank := by
      have hnext := Point.rank_next _ hd
      show s.pc.rank < _
      have hk' : s.pc.next.rank ≤ (Point.async k' 0).rank := hk'
      omega
    have hne : k' ≠ k := by
      rintro rfl
      rw [hpc] at hlt
      exact absurd hlt (Point.not_rank_lt k' i)
    show (doAsyncStatement (task cfg k) i s.queue).comp _ = _
    rw [hother k' hne, h.fresh k' hlt.le]
  case inProgress =>
    intro k' i' hki hi
    have hki : s.pc.next = .async k' i' := hki
    rw [hpc] at hki
    obtain ⟨rfl, hi'⟩ := Point.eq_of_next_async _ _ _ _ hki hi
    show (doAsyncStatement (task cfg k') i s.queue).comp _ = _
    rw [hi']
    rcases Point.index_cases i with rfl | rfl | rfl | rfl
    · exact h.fresh k' (by rw [hpc])
    · have hp := h.inProgress k' 1 hpc (by decide)
      have hh := h.head hpc (by decide)
      simp [doAsyncStatement, storeHandler, State.setComp, hh, hp, task]
    · have hp := h.inProgress k' 2 hpc (by decide)
      have hh := h.head hpc (by decide)
      simp [doAsyncStatement, storeBuf, State.setComp, hh, hp, task]
    · exact absurd i'.isLt (by rw [hi']; decide)

end Queued

section Good

variable {cfg : Config} {s t : Process}

lemma good_start (v : Fin 4 → Triple) : Good cfg (.start v) where
  queued := queued_start v
  passed _ hk := absurd hk (Nat.not_lt_zero _)
  arg0 _ hk := absurd hk (Nat.not_lt_zero _)
  arg1 _ hk := absurd hk (Nat.not_lt_zero _)
  locked _ _ hk := absurd hk (Nat.not_lt_zero _)
  handled _ hk := absurd hk (Nat.not_lt_zero _)
  global hk := absurd hk (Nat.not_lt_zero _)
  output := rfl

/-- A handler that has been called is that of a submission that has begun. -/
lemma Good.rank_lt_of_called (h : Good cfg s) {k : Fin 4} (hk : (k : ℕ) < s.called.length) :
    (Point.async k 0).rank < s.pc.rank :=
  (Point.lt_begun_iff s.pc k).mp (hk.trans_le h.queued.tracked.called_le)

/-- **What a statement of `main` has to do**, for the invariant to be kept. -/
lemma Good.advance (h : Good cfg s) (hd : s.pc ≠ .done) (hpc : t.pc = s.pc.next)
    (hq : Queued cfg t) (hc : t.called = s.called)
    (h₀ : ∀ k, (t.t k).arg0 =
      if s.pc = .arg0 k then (Expression.arg0 cfg k).value cfg else (s.t k).arg0)
    (h₁ : ∀ k, (t.t k).arg1 =
      if s.pc = .arg1 k then (Expression.arg1 cfg k).value cfg else (s.t k).arg1)
    (hl : ∀ k, (t.t k).spin_lock =
      if s.pc = .lock k then Expression.locked else (s.t k).spin_lock)
    (hr : ∀ k, (t.t k).result = (s.t k).result)
    (hs : ∀ k : Fin 4, s.pc = .spin k → (k : ℕ) < s.called.length)
    (hg : t.global_result = if s.pc = .global then result cfg else s.global_result)
    (ho : t.output = if s.pc = .printf then [result cfg] else []) : Good cfg t where
  queued := hq
  passed k hk := by
    rw [hpc, Point.rank_lt_next hd] at hk
    rw [hc]
    exact hk.elim (h.passed k) fun e => hs k e.symm
  arg0 k hk := by
    rw [hpc, Point.rank_lt_next hd] at hk
    rw [h₀]
    split_ifs with e
    · rfl
    · exact h.arg0 k (hk.resolve_right fun e' => e e'.symm)
  arg1 k hk := by
    rw [hpc, Point.rank_lt_next hd] at hk
    rw [h₁]
    split_ifs with e
    · rfl
    · exact h.arg1 k (hk.resolve_right fun e' => e e'.symm)
  locked k hk hlt := by
    rw [hpc, Point.rank_lt_next hd] at hlt
    rw [hl]
    split_ifs with e
    · rfl
    · exact h.locked k (hc ▸ hk) (hlt.resolve_right fun e' => e e'.symm)
  handled k hk := by
    rw [hc] at hk
    have hne : s.pc ≠ .lock k := by
      intro e
      have hlt := h.rank_lt_of_called hk
      rw [e] at hlt
      exact Point.not_rank_lt_lock k hlt
    rw [hr, hl, if_neg hne]
    exact h.handled k hk
  global hlt := by
    rw [hpc, Point.rank_lt_next hd] at hlt
    rw [hg]
    split_ifs with e
    · rfl
    · exact h.global (hlt.resolve_right fun e' => e e'.symm)
  output := by
    rw [ho]
    exact if_congr (by rw [hpc, Point.next_eq_done_iff hd]) rfl rfl

/-- An operand has its value when it is assigned. -/
lemma Good.eval_eq (h : Good cfg s) {x : Operand}
    (hx : ∀ k, x = .result k → (Point.spin k).rank < s.pc.rank) :
    x.eval s.t = x.value cfg := by
  cases x with
  | const v => rfl
  | result k => exact (h.handled k (h.passed k (hx k rfl))).1

/-- **A statement of `main`** keeps the invariant. -/
theorem Good.statement (h : Good cfg s) (hst : statement cfg s = some t) : Good cfg t := by
  have hout : s.pc ≠ .printf → s.pc ≠ .done →
      s.output = if s.pc = .printf then [result cfg] else [] := by
    intro hp hd
    rw [h.output, if_neg hd, if_neg hp]
  cases hpc : s.pc with
  | arg0 k =>
    have heval := h.eval_eq (x := Expression.arg0 cfg k) fun j hj => by
      rw [hpc]
      exact Point.spin_lt_arg0 j k cfg hj
    simp only [Expression.statement, hpc, Option.some.injEq] at hst
    subst hst
    refine h.advance (by simp [hpc]) (by rw [hpc])
      (h.queued.of_not_async (by simp [hpc]) (by simp [hpc]) (by rw [hpc]) rfl rfl) rfl
      (fun j => ?_) (fun j => ?_) (fun j => ?_) (fun j => ?_) (by simp [hpc]) (by simp [hpc])
      (hout (by simp [hpc]) (by simp [hpc]))
    all_goals rcases eq_or_ne j k with rfl | hj
    all_goals simp [*, Ne.symm]
  | arg1 k =>
    have heval := h.eval_eq (x := Expression.arg1 cfg k) fun j hj => by
      rw [hpc]
      exact Point.spin_lt_arg1 j k cfg hj
    simp only [Expression.statement, hpc, Option.some.injEq] at hst
    subst hst
    refine h.advance (by simp [hpc]) (by rw [hpc])
      (h.queued.of_not_async (by simp [hpc]) (by simp [hpc]) (by rw [hpc]) rfl rfl) rfl
      (fun j => ?_) (fun j => ?_) (fun j => ?_) (fun j => ?_) (by simp [hpc]) (by simp [hpc])
      (hout (by simp [hpc]) (by simp [hpc]))
    all_goals rcases eq_or_ne j k with rfl | hj
    all_goals simp [*, Ne.symm]
  | lock k =>
    simp only [Expression.statement, hpc, Option.some.injEq] at hst
    subst hst
    refine h.advance (by simp [hpc]) (by rw [hpc])
      (h.queued.of_not_async (by simp [hpc]) (by simp [hpc]) (by rw [hpc]) rfl rfl) rfl
      (fun j => ?_) (fun j => ?_) (fun j => ?_) (fun j => ?_) (by simp [hpc]) (by simp [hpc])
      (hout (by simp [hpc]) (by simp [hpc]))
    all_goals rcases eq_or_ne j k with rfl | hj
    all_goals simp [*, Ne.symm]
  | async k i =>
    have hq := h.queued.async hpc
    rw [hpc] at hq
    simp only [Expression.statement, hpc, Option.some.injEq] at hst
    subst hst
    exact h.advance (by simp [hpc]) (by rw [hpc]) hq rfl (by simp [hpc]) (by simp [hpc])
      (by simp [hpc]) (by simp) (by simp [hpc]) (by simp [hpc])
      (hout (by simp [hpc]) (by simp [hpc]))
  | spin k =>
    simp only [Expression.statement, hpc, Option.some.injEq] at hst
    split_ifs at hst with hu
    · -- the loop ends only after the handler of `t_k` has been called
      have hcalled : (k : ℕ) < s.called.length := by
        by_contra hk
        have hl := h.locked k (not_lt.mp hk) (by rw [hpc]; exact Point.lock_lt_spin k)
        rw [hu] at hl
        exact absurd hl (by decide)
      subst hst
      exact h.advance (by simp [hpc]) (by rw [hpc])
        (h.queued.of_not_async (by simp [hpc]) (by simp [hpc]) (by rw [hpc]) rfl rfl) rfl
        (by simp [hpc]) (by simp [hpc]) (by simp [hpc]) (by simp)
        (fun j hj => by rw [hpc] at hj; cases hj; exact hcalled) (by simp [hpc])
        (hout (by simp [hpc]) (by simp [hpc]))
    · subst hst
      exact h
  | global =>
    have hres : (s.t 3).result = result cfg :=
      (h.handled 3 (h.passed 3 (by rw [hpc]; decide))).1
    simp only [Expression.statement, hpc, Option.some.injEq] at hst
    subst hst
    exact h.advance (by simp [hpc]) (by rw [hpc])
      (h.queued.of_not_async (by simp [hpc]) (by simp [hpc]) (by rw [hpc]) rfl rfl) rfl
      (by simp [hpc]) (by simp [hpc]) (by simp [hpc]) (by simp) (by simp [hpc])
      (by simp [hpc, hres]) (hout (by simp [hpc]) (by simp [hpc]))
  | printf =>
    have hglobal : s.global_result = result cfg := h.global (by rw [hpc]; decide)
    have hempty : s.output = [] := by rw [h.output, if_neg (by simp [hpc])]
    simp only [Expression.statement, hpc, Option.some.injEq] at hst
    subst hst
    exact h.advance (by simp [hpc]) (by rw [hpc])
      (h.queued.of_not_async (by simp [hpc]) (by simp [hpc]) (by rw [hpc]) rfl rfl) rfl
      (by simp [hpc]) (by simp [hpc]) (by simp [hpc]) (by simp) (by simp [hpc])
      (by simp [hpc]) (by simp [hpc, hempty, hglobal])
  | done => simp [Expression.statement, hpc] at hst

/-- The slot that an interrupt looks at. -/
lemma Good.interrupt_busy (h : Good cfg s) {k : Fin 4} (hk : s.called.length = (k : ℕ))
    (h₀ : s.submits.outstanding ≠ 0) : interruptServiceRoutine s.queue =
      (some (s.queue.comp ((k : ℕ) + 1)), { s.queue with compTail := (k : ℕ) + 1 }) := by
  have hbusy : interruptServiceRoutine s.queue =
      (some (s.queue.comp ((s.called.length + 1) % compSize)),
        { s.queue with compTail := (s.called.length + 1) % compSize }) :=
    h.queued.tracked.interrupt_busy h₀
  have hmod : (s.called.length + 1) % compSize = (k : ℕ) + 1 := by
    rw [hk]
    exact Nat.mod_eq_of_lt (by unfold compSize; omega)
  rwa [hmod] at hbusy

/-- The tasks are called in their order. -/
lemma exists_called (h₀ : s.submits.outstanding ≠ 0) :
    ∃ k : Fin 4, s.called.length = (k : ℕ) :=
  ⟨⟨_, (Nat.lt_of_sub_ne_zero h₀).trans_le (Point.begun_le s.pc)⟩, rfl⟩

/-- **The task that an interrupt finds**, unless it comes too early. -/
lemma Good.comp_eq (h : Good cfg s) (he : ¬ Early s .interrupt) {k : Fin 4}
    (hk : s.called.length = (k : ℕ)) (hlt : (k : ℕ) < s.submits.begun) :
    s.queue.comp ((k : ℕ) + 1) = task cfg k := by
  have hmod : ((k : ℕ) + 1) % compSize = (k : ℕ) + 1 := Nat.mod_eq_of_lt (by unfold compSize; omega)
  by_cases hs : (k : ℕ) < s.submits.stored
  · have hslot := h.queued.tracked.slots (k : ℕ) hk.le hs
    rwa [hmod, tasks_val] at hslot
  · -- its submission is in progress
    have hmid : s.pc.asyncs % 4 ≠ 0 := fun e => hs (begun_eq_stored (s := s.submits) e ▸ hlt)
    obtain ⟨k', i, hpc, hi⟩ := Point.exists_async s.pc hmid
    have hk' : k' = k := by
      have hle := begun_eq (s := s.submits) hmid
      have hst : s.submits.stored = (k' : ℕ) := by
        simp only [Process.submits, hpc, Point.asyncs, Process.stored]
        omega
      exact Fin.ext (by omega)
    subst hk'
    have hprog := h.queued.inProgress k' i hpc hi
    rcases Point.index_cases i with rfl | rfl | rfl | rfl
    · exact absurd rfl hi
    · exact absurd ⟨rfl, k', .inl hpc, hk⟩ he
    · exact absurd ⟨rfl, k', .inr hpc, hk⟩ he
    · exact hprog

/-- **An interrupt that finds a task**, and does not come too early. -/
lemma Good.interrupt_eq (h : Good cfg s) (he : ¬ Early s .interrupt) {k : Fin 4}
    (hk : s.called.length = (k : ℕ)) (h₀ : s.submits.outstanding ≠ 0) :
    Expression.interrupt cfg s = { s with
      queue := { s.queue with compTail := (k : ℕ) + 1 }
      t := Function.update s.t k { s.t k with result := value cfg k, spin_lock := unlocked }
      called := s.called ++ [task cfg k] } := by
  have hlt : (k : ℕ) < s.submits.begun := hk ▸ Nat.lt_of_sub_ne_zero h₀
  -- the submission has begun, so its variable has been filled in
  have hbegun : (Point.async k 0).rank < s.pc.rank := (Point.lt_begun_iff s.pc k).mp hlt
  have hcall := call_task (t := s.t) (h.arg0 k ((Point.arg0_lt_async k).trans hbegun))
    (h.arg1 k ((Point.arg1_lt_async k).trans hbegun))
  simp only [Expression.interrupt, h.interrupt_busy hk h₀, h.comp_eq he hk hlt, hcall]

/-- **An interrupt** that does not come too early keeps the invariant. -/
theorem Good.interrupt (h : Good cfg s) (he : ¬ Early s .interrupt) :
    Good cfg (interrupt cfg s) ∧ (interrupt cfg s).fault = s.fault := by
  have htracked := h.queued.tracked.interrupt rfl
  by_cases h₀ : s.submits.outstanding = 0
  · have hidle : interruptServiceRoutine s.queue = (none, s.queue) :=
      h.queued.tracked.interrupt_idle h₀
    have heq : Expression.interrupt cfg s = s := by rw [Expression.interrupt, hidle]
    exact ⟨heq.symm ▸ h, by rw [heq]⟩
  · obtain ⟨k, hk⟩ := exists_called h₀
    have hlt : (k : ℕ) < s.submits.begun := hk ▸ Nat.lt_of_sub_ne_zero h₀
    simp only [Process.submits, h.interrupt_busy hk h₀, h.comp_eq he hk hlt,
      Option.toList_some] at htracked
    have hlen : (s.called ++ [task cfg k]).length = (k : ℕ) + 1 := by simp [hk]
    rw [h.interrupt_eq he hk h₀]
    refine ⟨?_, rfl⟩
    constructor
    case queued => exact ⟨htracked, h.queued.fresh, h.queued.inProgress⟩
    case passed =>
      intro j hj
      have := h.passed j hj
      simp only [hlen]
      omega
    case arg0 =>
      intro j hj
      have := h.arg0 j hj
      rcases eq_or_ne j k with rfl | hjk <;> simp [*]
    case arg1 =>
      intro j hj
      have := h.arg1 j hj
      rcases eq_or_ne j k with rfl | hjk <;> simp [*]
    case locked =>
      intro j hj hlt
      simp only [hlen] at hj
      have hjk : j ≠ k := by rintro rfl; omega
      simp only [Function.update_of_ne hjk]
      exact h.locked j (by omega) hlt
    case handled =>
      intro j hj
      simp only [hlen] at hj
      rcases eq_or_ne j k with rfl | hjk
      · simp
      · simp only [Function.update_of_ne hjk]
        exact h.handled j (by have := Fin.val_ne_of_ne hjk; omega)
    case global => exact h.global
    case output => exact h.output

/-- **An interrupt** that comes too early. -/
lemma Good.fault_of_early (h : Good cfg s) (he : Early s .interrupt) :
    (Expression.interrupt cfg s).fault = true := by
  obtain ⟨-, k, hpc, hk⟩ := he
  have h₀ : s.submits.outstanding ≠ 0 := by
    simp only [Process.submits, Process.outstanding, Process.begun, hk]
    rcases hpc with hpc | hpc
    all_goals
      simp only [hpc, Point.asyncs]
      omega
  have hnone : call cfg (s.queue.comp ((k : ℕ) + 1)) s.t = none := by
    refine call_eq_none ?_
    rcases hpc with hpc | hpc
    · exact .inl (by rw [h.queued.inProgress k 1 hpc (by decide)]; rfl)
    · exact .inr (by rw [h.queued.inProgress k 2 hpc (by decide)]; rfl)
  simp only [Expression.interrupt, h.interrupt_busy hk h₀, hnone]

/-- **One step** keeps the invariant, or is too early and a fault. -/
theorem Good.step (h : Good cfg s) (a : Move) (hst : step cfg s a = some t) :
    (¬ Early s a ∧ Good cfg t ∧ t.fault = false) ∨ (Early s a ∧ t.fault = true) := by
  have hf : s.fault = false := by
    by_contra hf
    simp [Expression.step, hf] at hst
  simp only [Expression.step, hf, Bool.false_eq_true, if_false] at hst
  cases a with
  | statement =>
    have hft : t.fault = s.fault := fault_of_statement hst
    exact .inl ⟨(nomatch ·.1), h.statement hst, hft.trans hf⟩
  | interrupt =>
    cases hst
    by_cases he : Early s .interrupt
    · exact .inr ⟨he, h.fault_of_early he⟩
    · exact .inl ⟨he, (h.interrupt he).1, (h.interrupt he).2.trans hf⟩

/-- How far the process is from its end. -/
def remaining (s : Process) : ℕ := (Point.done.rank - s.pc.rank) + (4 - s.called.length)

/-- **Progress.** Some step that is not too early brings the process nearer to its end. -/
lemma Good.progress (h : Good cfg s) (hf : s.fault = false) (hd : s.pc ≠ .done) :
    ∃ a t, Expression.step cfg s a = some t ∧ ¬ Early s a ∧ remaining t < remaining s := by
  by_cases hspin : ∃ k, s.pc = .spin k ∧ (s.t k).spin_lock ≠ Expression.unlocked
  · -- `main` spins, and the handler is still to be called
    obtain ⟨j, hpc, hl⟩ := hspin
    have hle : s.called.length ≤ (j : ℕ) := not_lt.mp fun hlt => hl (h.handled j hlt).2
    have hbegun : (j : ℕ) < s.submits.begun := by
      refine (Point.lt_begun_iff s.pc j).mpr ?_
      rw [hpc]
      exact Point.async_lt_spin j
    have h₀ : s.submits.outstanding ≠ 0 := Nat.sub_ne_zero_of_lt (hle.trans_lt hbegun)
    have he : ¬ Early s .interrupt := by
      rintro ⟨-, k, hk | hk, -⟩ <;> simp [hpc] at hk
    obtain ⟨k, hk⟩ := exists_called h₀
    refine ⟨.interrupt, _, by simp [Expression.step, hf]; rfl, he, ?_⟩
    rw [h.interrupt_eq he hk h₀]
    simp only [remaining, List.length_append, List.length_singleton]
    omega
  · have hnext : ∃ t, Expression.statement cfg s = some t ∧ t.pc = s.pc.next ∧
        t.called = s.called := by
      cases hpc : s.pc with
      | spin k =>
        have hu : (s.t k).spin_lock = Expression.unlocked := by
          by_contra hu
          exact hspin ⟨k, hpc, hu⟩
        simp [Expression.statement, hpc, hu]
      | done => exact absurd hpc hd
      | _ => simp [Expression.statement, hpc]
    obtain ⟨t, hst, hpc, hc⟩ := hnext
    refine ⟨.statement, t, by simp [Expression.step, hf, hst], (nomatch ·.1), ?_⟩
    have hrank := Point.rank_next _ hd
    have hle := Point.rank_le s.pc.next
    simp only [remaining, hpc, hc, hrank] at hle ⊢
    omega

/-- **Completion.** -/
lemma Good.finishes (h : Good cfg s) (hf : s.fault = false) :
    ∃ moves t, moves.length ≤ remaining s ∧ run (Expression.step cfg) s moves = some t ∧
      AllSteps (Expression.step cfg) (fun s a => ¬ Early s a) s moves ∧ t.pc = .done := by
  induction hn : remaining s using Nat.strong_induction_on generalizing s with
  | _ n ih =>
    by_cases hd : s.pc = .done
    · exact ⟨[], s, Nat.zero_le _, rfl, trivial, hd⟩
    · obtain ⟨a, t, hst, he, hlt⟩ := h.progress hf hd
      obtain ⟨-, ht, hft⟩ | ⟨he', -⟩ := h.step a hst
      · obtain ⟨moves, u, hlen, hr, hall, hu⟩ := ih _ (hn ▸ hlt) ht hft rfl
        refine ⟨a :: moves, u, ?_, ?_, ⟨he, ?_⟩, hu⟩
        · simp only [List.length_cons]
          omega
        · rw [run_cons, hst]
          exact hr
        · intro t' ht'
          rw [hst] at ht'
          cases ht'
          exact hall
      · exact absurd he' he

end Good

/-! ## Runs -/

/-- **What the program does.** It crashes exactly when an interrupt comes too early. It prints
nothing but the value of the expression, and this at its end. As long as it has not crashed it can
get there. -/
structure Evaluates (cfg : Config) (v : Fin 4 → Triple) (moves : List Move) (s : Process) :
    Prop where
  fault_iff : s.fault = true ↔ Occurs (step cfg) Early (.start v) moves
  output : s.output = if s.pc = .done then [result cfg] else []
  finishes : s.fault = false → ∃ more t, more.length ≤ remaining s ∧
    run (step cfg) s more = some t ∧
    AllSteps (step cfg) (fun s a => ¬ Early s a) s more ∧ t.pc = .done

section Run

variable {cfg : Config} {v : Fin 4 → Triple} {moves : List Move} {s t : Process} {a : Move}

lemma not_fault_of_step (h : step cfg s a = some t) : s.fault = false := by
  by_contra hf
  simp [step, hf] at h

/-- The invariant holds until the program crashes, and it crashes at an early interrupt. -/
lemma good_of_run (h : run (step cfg) (.start v) moves = some s) :
    (¬ Occurs (step cfg) Early (.start v) moves ∧ s.fault = false ∧ Good cfg s) ∨
      (Occurs (step cfg) Early (.start v) moves ∧ s.fault = true ∧
        s.output = if s.pc = .done then [result cfg] else []) := by
  refine induct (motive := fun moves s =>
    (¬ Occurs (step cfg) Early (.start v) moves ∧ s.fault = false ∧ Good cfg s) ∨
      (Occurs (step cfg) Early (.start v) moves ∧ s.fault = true ∧
        s.output = if s.pc = .done then [result cfg] else []))
    (.inl ⟨id, rfl, good_start v⟩) ?_ h
  intro moves a s t hr ih hst
  have hf := not_fault_of_step hst
  obtain ⟨hno, -, hs⟩ | ⟨-, hf', -⟩ := ih
  · have hocc : Occurs (step cfg) Early (.start v) (moves ++ [a]) ↔ Early s a := by
      rw [occurs_concat, hr]
      simp [hno]
    rw [hocc]
    obtain ⟨he, ht, hft⟩ | ⟨he, hft⟩ := hs.step a hst
    · exact .inl ⟨he, hft, ht⟩
    · refine .inr ⟨he, hft, ?_⟩
      obtain ⟨rfl, -⟩ := he
      simp only [step, hf, Bool.false_eq_true, if_false, Option.some.injEq] at hst
      rw [← hst, interrupt_output, interrupt_pc]
      exact hs.output
  · rw [hf] at hf'
    cases hf'

/-- **The program of `a7/async.c`**, whatever the constants are, what the variables contain at the
start and when the interrupts come. -/
theorem evaluates_of_run (h : run (step cfg) (.start v) moves = some s) :
    Evaluates cfg v moves s := by
  obtain ⟨hno, hf, hs⟩ | ⟨hocc, hf, hout⟩ := good_of_run h
  · exact ⟨iff_of_false (by simp [hf]) hno, hs.output, fun _ => hs.finishes hf⟩
  · exact ⟨iff_of_true hf hocc, hout, fun hf' => by rw [hf] at hf'; cases hf'⟩

/-- The constants of the program. -/
def config : Config where
  t1 := (1, 2)
  t2 := (3, 4)
  last := 7
  add := 1
  sub := 2
  t := ![3, 4, 5, 6]
  add_ne_zero := by decide
  sub_ne_zero := by decide
  sub_ne_add := by decide
  t_ne_zero := by decide
  t_injective := by decide

/-- A run in which every handler is called as soon as its task has been submitted. -/
def prompt : List Move :=
  List.replicate 10 .statement ++ [.interrupt] ++ List.replicate 4 .statement ++ [.interrupt] ++
    List.replicate 9 .statement ++ [.interrupt] ++ List.replicate 8 .statement ++ [.interrupt] ++
    List.replicate 3 .statement

/-- It prints `3`. -/
theorem evaluates_prompt : ∃ s, run (step config) (.start fun _ => ⟨0, 0, 0, 0⟩) prompt = some s ∧
    Evaluates config (fun _ => ⟨0, 0, 0, 0⟩) prompt s ∧ s.output = [3] :=
  ⟨_, rfl, evaluates_of_run rfl, by decide⟩

end Run

end Expression

end Async
