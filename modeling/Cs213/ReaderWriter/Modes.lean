import Mathlib.Algebra.BigOperators.Intervals
import Cs213.ReaderWriter.MonitorMode

set_option relaxedAutoImplicit false
set_option autoImplicit false

/-!
# The modes of the reader/writer program

`a9/reader_writer_test.c` runs with the monitor, without it, or with
`uthread_monitor_enter_read_only` in place of `uthread_monitor_enter` in the readers, which is a
function without any code. Where the monitor is not used, writers lose increments; what is left of
them is the subject here.

## Main definitions

* `ReaderWriter.Mode`, `ReaderWriter.stepIn` — the program in a mode.
* `ReaderWriter.Code.local0`, `ReaderWriter.Code.local1` — a thread as a user of a counter.
* `ReaderWriter.Unguarded` — what the counters are in every mode.

## Main results

* `ReaderWriter.stepIn_m` — monitor mode is the program that the other modules are about.
* `ReaderWriter.unguarded_of_run` — the counters in every state of every run, in any mode; for the
  runs in which an exit wakes the initial thread twice, with the ready queue that
  `Cs213.ReaderWriter.Program` describes.
-/

namespace ReaderWriter

open Counter Finset Runs Uthread

variable {N : ℕ} {cfg : Config} {s t : Sys N}

/-! ## The code -/

/-- The first argument of the program. -/
inductive Mode
  | ns
  | m
  | rwm
  deriving DecidableEq, Repr

/-- `read_proc` or `write_proc` calls `uthread_monitor_enter`. The body of
`uthread_monitor_enter_read_only` is empty. -/
def Mode.enters : Mode → Bool → Bool
  | .ns, _ => false
  | .m, _ => true
  | .rwm, write => write

/-- `read_proc` and `write_proc` call `uthread_monitor_exit`. -/
def Mode.exits : Mode → Bool
  | .ns => false
  | .m | .rwm => true

/-- A step of a thread in `drive_test`, in a mode. -/
def driveIn (mode : Mode) (s : Sys N) (p : Fin N) (garbage : ℕ) (dta : DriveTestArg) (i : ℕ)
    (pt : Point) : Option (Sys N) :=
  match pt with
  | .loop =>
    if (i : ℤ) < dta.count then
      let k := Code.drive dta i (if dta.write then .load0 else .check0)
      if mode.enters dta.write then s.callThen p (.enter mon) k else some (s.goto p k)
    else s.callThen p (.ret garbage) (.drive dta i .finished)
  | .leave =>
    let k := Code.drive dta (i + 1) .loop
    if mode.exits then s.callThen p (.exit mon) k else some (s.goto p k)
  | pt => drive s p garbage dta i pt

/-- A step of a thread in its own code, in a mode. -/
def execIn (mode : Mode) (cfg : Config) (s : Sys N) (p : Fin N) (garbage : ℕ) (k : Code) :
    Option (Sys N) :=
  match k with
  | .drive dta i pt => driveIn mode s p garbage dta i pt
  | k => exec cfg s p garbage k

/-- **The step function** of the program in a mode. -/
def stepIn (mode : Mode) (cfg : Config) (s : Sys N) : Act N → Option (Sys N)
  | .lib p => (Uthread.step s.core (.run p)).map fun c => { s with core := c }
  | .own p garbage =>
    if (s.core.proc p).pc = .user then
      execIn mode cfg s p garbage (s.code (s.core.proc p).thread)
    else none

/-- **Monitor mode.** -/
theorem stepIn_m : stepIn .m cfg = step (N := N) cfg := by
  funext s a
  cases a with
  | lib p => rfl
  | own p v =>
    simp only [stepIn, step]
    cases s.code (s.core.proc p).thread with
    | drive dta i pt => cases pt <;> rfl
    | _ => rfl

/-! ## What is claimed of the program -/

/-- **The counters without a monitor.** They do not count more increments than there are. When all
threads have finished, at least two increments have not been lost, or the only one there was. With
a single writer, none has been lost, and the writer has not seen different counters. -/
structure Unguarded (cfg : Config) (s : Sys N) : Prop where
  le : s.c0 ≤ cfg.numWriterThreads * cfg.count.toNat ∧ s.c1 ≤ cfg.numWriterThreads * cfg.count.toNat
  ge : Finished cfg s → 0 < cfg.numWriterThreads →
    min cfg.count.toNat 2 ≤ s.c0 ∧ min cfg.count.toNat 2 ≤ s.c1
  single : cfg.numWriterThreads = 1 →
    .writerError ∉ s.output ∧ (Finished cfg s → s.c0 = cfg.count.toNat ∧ s.c1 = cfg.count.toNat)

/-! ## The steps -/

/-- **The branches of a step** in a mode: one of those with the monitor, or one that passes by. -/
inductive OwnIn (cfg : Config) (s : Sys N) (p : Fin N) : Code → Sys N → Prop
  | own (k : Code) (t : Sys N) (h : Own cfg s p k t) : OwnIn cfg s p k t
  | enter (dta : DriveTestArg) (i : ℕ) (hi : (i : ℤ) < dta.count) :
      OwnIn cfg s p (.drive dta i .loop)
        (s.goto p (.drive dta i (if dta.write then .load0 else .check0)))
  | leave (dta : DriveTestArg) (i : ℕ) :
      OwnIn cfg s p (.drive dta i .leave) (s.goto p (.drive dta (i + 1) .loop))

section Steps

variable {mode : Mode} {p : Fin N}

lemma ownIn_of_execIn {v : ℕ} {k : Code} (h : execIn mode cfg s p v k = some t) :
    OwnIn cfg s p k t := by
  cases k with
  | drive dta i pt =>
    cases pt with
    | loop =>
      by_cases hi : (i : ℤ) < dta.count
      · by_cases hm : mode.enters dta.write = true
        · rw [execIn, driveIn, if_pos hi, if_pos hm] at h
          obtain ⟨c, hc, rfl⟩ := callThen_eq_some.mp h
          exact .own _ _ (.enter dta i c hi hc)
        · rw [execIn, driveIn, if_pos hi, if_neg hm] at h
          exact Option.some.inj h ▸ .enter dta i hi
      · rw [execIn, driveIn, if_neg hi] at h
        obtain ⟨c, hc, rfl⟩ := callThen_eq_some.mp h
        exact .own _ _ (.ret dta i v c hi hc)
    | leave =>
      by_cases hm : mode.exits = true
      · rw [execIn, driveIn, if_pos hm] at h
        obtain ⟨c, hc, rfl⟩ := callThen_eq_some.mp h
        exact .own _ _ (.leave dta i c hc)
      · rw [execIn, driveIn, if_neg hm] at h
        exact Option.some.inj h ▸ .leave dta i
    | _ => exact .own _ _ (own_of_drive (v := v) h)
  | _ => exact .own _ _ (own_of_exec (v := v) h)

/-- The threads stay at points of their procedures. -/
lemma OwnIn.shape (h : Shape cfg s) (ha : Allocated s.core)
    (ho : OwnIn cfg s p (s.code (s.core.proc p).thread) t) : Shape cfg t := by
  generalize hk : s.code (s.core.proc p).thread = k at ho
  cases ho with
  | own k t ho => exact h.step_own ha (hk ▸ ho)
  | enter dta i hi =>
    have hcode : (s.goto p (.drive dta i (if dta.write then .load0 else .check0))).code =
        Function.update s.code (s.core.proc p).thread _ := rfl
    refine h.step_point rfl rfl hcode ?_ ?_ ?_ ?_ <;> rw [hk] <;> grind
  | leave dta i =>
    have hcode : (s.goto p (.drive dta (i + 1) .loop)).code =
        Function.update s.code (s.core.proc p).thread _ := rfl
    refine h.step_point rfl rfl hcode ?_ ?_ ?_ ?_ <;> rw [hk] <;> grind

end Steps

/-! ## The threads as users of the counters -/

/-- The value of `c0` that a thread has loaded to increment it. -/
@[grind] def Point.pending0 : Point → Option ℕ
  | .store0 x => some x
  | .loop | .load0 | .load1 | .store1 _ | .check0 | .check1 _ | .leave | .finished => none

/-- The value of `c1` that a thread has loaded to increment it. -/
@[grind] def Point.pending1 : Point → Option ℕ
  | .store1 x => some x
  | .loop | .load0 | .store0 _ | .load1 | .check0 | .check1 _ | .leave | .finished => none

@[grind] def Code.pending0 : Code → Option ℕ
  | .drive _ _ pt => pt.pending0
  | .base | .create _ | .join _ | .end0 | .end1 _ | .end2 | .endPrint | .done => none

@[grind] def Code.pending1 : Code → Option ℕ
  | .drive _ _ pt => pt.pending1
  | .base | .create _ | .join _ | .end0 | .end1 _ | .end2 | .endPrint | .done => none

/-- A thread as a user of `c0`. -/
@[grind] def Code.local0 (k : Code) : Local := ⟨k.stores0, k.pending0⟩

/-- A thread as a user of `c1`. -/
@[grind] def Code.local1 (k : Code) : Local := ⟨k.stores1, k.pending1⟩

/-- A thread that is created has done nothing with the counters. -/
lemma Code.local_loop (dta : DriveTestArg) :
    (Code.drive dta 0 .loop).local0 = ⟨0, none⟩ ∧ (Code.drive dta 0 .loop).local1 = ⟨0, none⟩ := by
  simp [Code.local0, Code.local1, Code.stores0, Code.stores1, Point.stored0, Point.stored1,
    Code.pending0, Code.pending1, Point.pending0, Point.pending1]

section Locals

variable {p : Fin N}

/-- **The steps** of the thread that moves are steps of a user of `c0`. -/
lemma OwnIn.step0 (hs : Shape cfg s) (hne : (s.core.proc p).thread ≠ s.core.fresh)
    (ho : OwnIn cfg s p (s.code (s.core.proc p).thread) t) :
    Step s.c0 (s.code (s.core.proc p).thread).local0 t.c0
      (t.code (s.core.proc p).thread).local0 := by
  have hok := hs.ok (s.core.proc p).thread
  generalize s.code (s.core.proc p).thread = k at ho hok
  cases ho with
  | own k t ho =>
    cases ho with
    | load0 dta i => exact .of_load rfl (by grind) (by grind)
    | store0 dta i x => exact .of_store x (by grind) rfl (by grind) (by grind)
    | _ => exact .of_stay rfl (by grind) (by grind)
  | enter dta i hi => exact .of_stay rfl (by grind) (by grind)
  | leave dta i => exact .of_stay rfl (by grind) (by grind)

/-- They are steps of a user of `c1`. -/
lemma OwnIn.step1 (hs : Shape cfg s) (hne : (s.core.proc p).thread ≠ s.core.fresh)
    (ho : OwnIn cfg s p (s.code (s.core.proc p).thread) t) :
    Step s.c1 (s.code (s.core.proc p).thread).local1 t.c1
      (t.code (s.core.proc p).thread).local1 := by
  have hok := hs.ok (s.core.proc p).thread
  generalize s.code (s.core.proc p).thread = k at ho hok
  cases ho with
  | own k t ho =>
    cases ho with
    | load1 dta i => exact .of_load rfl (by grind) (by grind)
    | store1 dta i x => exact .of_store x (by grind) rfl (by grind) (by grind)
    | _ => exact .of_stay rfl (by grind) (by grind)
  | enter dta i hi => exact .of_stay rfl (by grind) (by grind)
  | leave dta i => exact .of_stay rfl (by grind) (by grind)

/-- The other threads do nothing with the counters. -/
lemma OwnIn.local_of_ne (hs : Shape cfg s) (hfresh : s.core.fresh ≠ 0)
    (ho : OwnIn cfg s p (s.code (s.core.proc p).thread) t) {v : Tid}
    (hv : v ≠ (s.core.proc p).thread) : t.code v = s.code v ∨
      (s.code v = .base ∧ ∃ dta, t.code v = .drive dta 0 .loop) := by
  have hb : s.code s.core.fresh = .base := hs.base _ hfresh (.inr le_rfl)
  generalize s.code (s.core.proc p).thread = k at ho
  cases ho with
  | own k t ho => cases ho <;> grind
  | enter dta i hi => grind
  | leave dta i => grind

end Locals

/-! ## The invariants -/

/-- The threads that `do_test` creates. -/
def threads (N : ℕ) (cfg : Config) : Finset Tid := Ico (N + 1) (N + 1 + cfg.numThreads)

/-- The first writer. -/
def writer (N : ℕ) (cfg : Config) : Tid := N + 1 + cfg.numReaderThreads

/-- The invariant of the program in any mode. -/
structure Counters (cfg : Config) (s : Sys N) : Prop where
  allocated : Allocated s.core
  shape : Shape cfg s
  bounded0 : Bounded (threads N cfg) s.c0 fun u => (s.code u).local0
  bounded1 : Bounded (threads N cfg) s.c1 fun u => (s.code u).local1

/-- The invariant with a single writer. -/
structure Single (cfg : Config) (s : Sys N) : Prop where
  exact0 : Exact (writer N cfg) s.c0 fun u => (s.code u).local0
  exact1 : Exact (writer N cfg) s.c1 fun u => (s.code u).local1
  compared : ∀ dta i x, s.code (writer N cfg) = .drive dta i (.check1 x) → x = s.c0
  quiet : .writerError ∉ s.output

section Shape

variable (h : Shape cfg s) {u : Tid}

include h

/-- Who is in `drive_test`. -/
lemma Shape.drive_cases {dta : DriveTestArg} {j : ℕ} {pt : Point}
    (hu : s.code u = .drive dta j pt) :
    ∃ i < cfg.numThreads, u = N + 1 + i ∧ dta = ⟨cfg.numReaderThreads ≤ i, cfg.count⟩ := by
  rcases h.cases_of_ne_zero (h.ne_zero_of_drive hu) with e | ⟨i, j', pt', hi, e, e'⟩
  · rw [e] at hu
    cases hu
  · rw [e'] at hu
    cases hu
    exact ⟨i, hi, e, rfl⟩

/-- The others have not stored. -/
lemma Shape.stores_of_not_mem (hu : u ∉ threads N cfg) :
    (s.code u).stores0 = 0 ∧ (s.code u).stores1 = 0 := by
  refine Code.stores_of_ne_drive fun dta j pt e => hu ?_
  obtain ⟨i, hi, rfl, -⟩ := h.drive_cases e
  exact mem_Ico.mpr ⟨Nat.le_add_right _ _, Nat.add_lt_add_left hi _⟩

/-- A thread has stored at most `count` times, and not at all if it is a reader. -/
lemma Shape.stores_le {i : ℕ} :
    (s.code (N + 1 + i)).stores0 ≤ (if cfg.numReaderThreads ≤ i then cfg.count.toNat else 0) ∧
      (s.code (N + 1 + i)).stores1 ≤ (if cfg.numReaderThreads ≤ i then cfg.count.toNat else 0) := by
  cases hk : s.code (N + 1 + i) with
  | drive dta j pt =>
    obtain ⟨i', -, e, rfl⟩ := h.drive_cases hk
    obtain rfl : i' = i := (Nat.add_left_cancel e).symm
    have hok := h.ok _ _ _ _ hk
    cases pt <;> grind
  | _ => exact ⟨Nat.zero_le _, Nat.zero_le _⟩

end Shape

/-- There are no more stores than increments. -/
lemma Shape.sum_le (h : Shape cfg s) :
    ∑ u ∈ threads N cfg, (s.code u).stores0 ≤ cfg.numWriterThreads * cfg.count.toNat ∧
      ∑ u ∈ threads N cfg, (s.code u).stores1 ≤ cfg.numWriterThreads * cfg.count.toNat := by
  rw [← sum_writers, threads, sum_Ico_eq_sum_range, sum_Ico_eq_sum_range, Nat.add_sub_cancel_left]
  exact ⟨sum_le_sum fun i _ => h.stores_le.1, sum_le_sum fun i _ => h.stores_le.2⟩

/-! ## Steps -/

section Steps

variable {mode : Mode} {p : Fin N}

lemma Counters.fresh_ne_zero (h : Counters cfg s) : s.core.fresh ≠ 0 :=
  (Nat.zero_le N |>.trans_lt h.allocated.base).ne'

/-- Without a change of the counters and the code. -/
lemma Counters.step_lib (h : Counters cfg s) {c : State N}
    (hc : Uthread.step s.core (.run p) = some c) : Counters cfg { s with core := c } where
  allocated := h.allocated.step (trans_of_step hc)
  shape := h.shape.step_lib ((trans_of_step hc).fresh_eq (by simp [Act.begins]))
  bounded0 := h.bounded0
  bounded1 := h.bounded1

lemma Single.step_lib (h : Single cfg s) (c : State N) : Single cfg { s with core := c } :=
  ⟨h.exact0, h.exact1, h.compared, h.quiet⟩

/-- The thread system goes on, or makes a call. -/
lemma OwnIn.allocated (ha : Allocated s.core) {k : Code} (ho : OwnIn cfg s p k t) :
    Allocated t.core := by
  cases ho with
  | own k t ho =>
    cases ho with
    | yield c hc | create i c hi hc | join i c hi hc | enter dta i c hi hc | ret dta i v c hi hc
    | leave dta i c hc => exact ha.step (trans_of_step hc)
    | _ => exact ha
  | enter dta i hi => exact ha
  | leave dta i => exact ha

/-- The views of the other threads stay. -/
lemma Counters.locals_of_ne (h : Counters cfg s)
    (ho : OwnIn cfg s p (s.code (s.core.proc p).thread) t) {v : Tid}
    (hv : v ≠ (s.core.proc p).thread) :
    (t.code v).local0 = (s.code v).local0 ∧ (t.code v).local1 = (s.code v).local1 := by
  rcases ho.local_of_ne h.shape h.fresh_ne_zero hv with e | ⟨e, dta, e'⟩
  · rw [e]
    exact ⟨rfl, rfl⟩
  · rw [e, e']
    exact Code.local_loop dta

/-- **A thread moves** in its own code. -/
lemma Counters.step_own (h : Counters cfg s)
    (ho : OwnIn cfg s p (s.code (s.core.proc p).thread) t) : Counters cfg t := by
  have hne : (s.core.proc p).thread ≠ s.core.fresh := (h.allocated.thread p).ne
  have hshape : Shape cfg t := ho.shape h.shape h.allocated
  have hT : ((t.code (s.core.proc p).thread).stores0 = (s.code (s.core.proc p).thread).stores0 ∧
      (t.code (s.core.proc p).thread).stores1 = (s.code (s.core.proc p).thread).stores1) ∨
      (s.core.proc p).thread ∈ threads N cfg := by
    by_cases hu : (s.core.proc p).thread ∈ threads N cfg
    · exact .inr hu
    · obtain ⟨e₀, e₁⟩ := h.shape.stores_of_not_mem hu
      obtain ⟨e₀', e₁'⟩ := hshape.stores_of_not_mem hu
      exact .inl ⟨e₀'.trans e₀.symm, e₁'.trans e₁.symm⟩
  exact ⟨ho.allocated h.allocated, hshape,
    h.bounded0.step (ho.step0 h.shape hne) (fun v hv => (h.locals_of_ne ho hv).1)
      (hT.imp_left And.left),
    h.bounded1.step (ho.step1 h.shape hne) (fun v hv => (h.locals_of_ne ho hv).2)
      (hT.imp_left And.right)⟩

/-- A writer is the only one. -/
lemma Shape.eq_writer (h : Shape cfg s) (hw : cfg.numWriterThreads = 1) {u : Tid}
    {dta : DriveTestArg} {j : ℕ} {pt : Point} (hu : s.code u = .drive dta j pt)
    (hd : dta.write = true) : u = writer N cfg := by
  obtain ⟨i, hi, rfl, rfl⟩ := h.drive_cases hu
  have hle : cfg.numReaderThreads ≤ i := of_decide_eq_true hd
  rw [Config.numThreads, hw] at hi
  rw [writer, Nat.le_antisymm (Nat.lt_succ_iff.mp hi) hle]

/-- The others do not store. -/
lemma Shape.stores_of_ne_writer (h : Shape cfg s) (hw : cfg.numWriterThreads = 1) {u : Tid}
    (hu : u ≠ writer N cfg) : (s.code u).stores0 = 0 ∧ (s.code u).stores1 = 0 := by
  cases hk : s.code u with
  | drive dta j pt =>
    have hd : ¬ dta.write = true := fun hd => hu (h.eq_writer hw hk hd)
    simp [Code.stores0, Code.stores1, hd]
  | _ => exact ⟨rfl, rfl⟩

/-- What has been loaded to be compared is `c0`. -/
lemma OwnIn.compared (hne : (s.core.proc p).thread ≠ s.core.fresh)
    (ho : OwnIn cfg s p (s.code (s.core.proc p).thread) t) {dta : DriveTestArg} {i x : ℕ}
    (hk : t.code (s.core.proc p).thread = .drive dta i (.check1 x)) : x = t.c0 := by
  generalize s.code (s.core.proc p).thread = k at ho
  cases ho with
  | own k t ho => cases ho <;> grind
  | enter dta i hi => grind
  | leave dta i => grind

/-- A writer complains when it sees different counters. -/
lemma output_of_execIn {v : ℕ} {k : Code} (h : execIn mode cfg s p v k = some t)
    (hs : .writerError ∉ s.output) (ht : .writerError ∈ t.output) :
    ∃ dta i x, k = .drive dta i (.check1 x) ∧ dta.write = true ∧ x ≠ s.c1 := by
  by_cases hk : ∃ dta i x, k = .drive dta i (.check1 x)
  · obtain ⟨dta, i, x, rfl⟩ := hk
    refine ⟨dta, i, x, rfl, ?_⟩
    simp only [execIn, driveIn, drive, Option.some.injEq] at h
    subst h
    simp only [goto_output] at ht
    split_ifs at ht with hx hd
    · exact ⟨hd, hx⟩
    · simp [hs] at ht
    · exact absurd ht hs
  · cases ownIn_of_execIn h with
    | own k t ho =>
      cases ho with
      | equal dta i x hx => exact absurd ⟨dta, i, x, rfl⟩ hk
      | unequal dta i x hx m => exact absurd ⟨dta, i, x, rfl⟩ hk
      | endPrint => simp [hs] at ht
      | _ => exact absurd ht hs
    | enter dta i hi => exact absurd ht hs
    | leave dta i => exact absurd ht hs

/-- **With a single writer**, a thread moves. -/
lemma Single.step_own (hw : cfg.numWriterThreads = 1) (h : Counters cfg s) (h₁ : Single cfg s)
    {v : ℕ} (hex : execIn mode cfg s p v (s.code (s.core.proc p).thread) = some t) :
    Single cfg t := by
  have ho := ownIn_of_execIn hex
  have hne : (s.core.proc p).thread ≠ s.core.fresh := (h.allocated.thread p).ne
  have hshape : Shape cfg t := ho.shape h.shape h.allocated
  have hquiet : .writerError ∉ t.output := by
    intro hmem
    obtain ⟨dta, i, x, hk, hd, hx⟩ := output_of_execIn hex h₁.quiet hmem
    have hu := h.shape.eq_writer hw hk hd
    rw [hu] at hk
    refine hx ((h₁.compared _ _ _ hk).trans ?_)
    rw [h₁.exact0.eq, h₁.exact1.eq]
    simp [Code.local0, Code.local1, hk, Code.stores0, Code.stores1, Point.stored0, Point.stored1]
  have hstep0 := ho.step0 h.shape hne
  have hstep1 := ho.step1 h.shape hne
  by_cases hu : (s.core.proc p).thread = writer N cfg
  · rw [hu] at hstep0 hstep1
    exact ⟨h₁.exact0.step hstep0, h₁.exact1.step hstep1,
      fun dta i x hk => ho.compared hne (hu ▸ hk), hquiet⟩
  · obtain ⟨e₀, e₁⟩ := h.shape.stores_of_ne_writer hw hu
    obtain ⟨e₀', e₁'⟩ := hshape.stores_of_ne_writer hw hu
    have hc₀ : t.c0 = s.c0 := hstep0.eq_of_stored (e₀'.trans e₀.symm)
    have hc₁ : t.c1 = s.c1 := hstep1.eq_of_stored (e₁'.trans e₁.symm)
    have hlocals := h.locals_of_ne ho (Ne.symm hu)
    refine ⟨h₁.exact0.step_other hc₀ hlocals.1, h₁.exact1.step_other hc₁ hlocals.2,
      fun dta i x hk => ?_, hquiet⟩
    rcases ho.local_of_ne h.shape h.fresh_ne_zero (Ne.symm hu) with e | ⟨-, dta', e⟩
    · rw [hc₀]
      exact h₁.compared dta i x (e ▸ hk)
    · rw [e] at hk
      cases hk

end Steps

/-! ## Runs -/

/-- At the start no thread has stored. -/
lemma counters_init (hN : 0 < N) : Counters cfg (init N) where
  allocated := allocated_init hN
  shape := shape_init
  bounded0 := bounded_zero fun u => by simp only [init]; split_ifs <;> rfl
  bounded1 := bounded_zero fun u => by simp only [init]; split_ifs <;> rfl

lemma single_init : Single cfg (init N) where
  exact0 := exact_zero fun u => by simp only [init]; split_ifs <;> rfl
  exact1 := exact_zero fun u => by simp only [init]; split_ifs <;> rfl
  compared dta i x hk := by
    simp only [init] at hk
    split_ifs at hk
  quiet := List.not_mem_nil

/-- A step in any mode keeps the invariants. -/
lemma counters_step {mode : Mode} {a : Act N}
    (h : Counters cfg s ∧ (cfg.numWriterThreads = 1 → Single cfg s))
    (ht : stepIn mode cfg s a = some t) :
    Counters cfg t ∧ (cfg.numWriterThreads = 1 → Single cfg t) := by
  obtain ⟨hc, h₁⟩ := h
  cases a with
  | lib p =>
    obtain ⟨c, hstep, rfl⟩ := Option.map_eq_some_iff.mp ht
    exact ⟨hc.step_lib hstep, fun hw => (h₁ hw).step_lib c⟩
  | own p v =>
    simp only [stepIn] at ht
    split_ifs at ht with hpc
    exact ⟨hc.step_own (ownIn_of_execIn ht), fun hw => (h₁ hw).step_own hw hc ht⟩

/-- What the threads have stored when they have finished. -/
lemma Shape.stores_of_finished (h : Shape cfg s) (hf : Finished cfg s) (u : Tid) :
    (s.code u).stores0 = (s.code u).stores1 ∧
      ((s.code u).stores0 = cfg.count.toNat ∨ (s.code u).stores0 = 0) := by
  by_cases hu : u ∈ threads N cfg
  · obtain ⟨hle, hlt⟩ := mem_Ico.mp hu
    obtain ⟨i, rfl⟩ := Nat.exists_eq_add_of_le hle
    rw [h.code_of_finished hf (Nat.lt_of_add_lt_add_left hlt)]
    simp only [Code.stores0, Code.stores1, Point.stored0, Point.stored1]
    split_ifs <;> simp
  · obtain ⟨e₀, e₁⟩ := h.stores_of_not_mem hu
    exact ⟨e₀.trans e₁.symm, .inr e₀⟩

/-- The first writer has stored. -/
lemma Shape.stores_writer (h : Shape cfg s) (hf : Finished cfg s) (hw : 0 < cfg.numWriterThreads) :
    (s.code (writer N cfg)).stores0 = cfg.count.toNat ∧
      (s.code (writer N cfg)).stores1 = cfg.count.toNat := by
  rw [writer, h.code_of_finished hf (Nat.lt_add_of_pos_right hw)]
  simp [Code.stores0, Code.stores1, Point.stored0, Point.stored1]

/-- Some increments are not lost. -/
lemma min_le_of_bounded {c : ℕ} {l : Tid → Local} {T : Finset Tid} {u : Tid} (h : Bounded T c l)
    (hl : ∀ v, (l v).stored = cfg.count.toNat ∨ (l v).stored = 0)
    (hu : (l u).stored = cfg.count.toNat) :
    min cfg.count.toNat 2 ≤ c := by
  rcases Nat.eq_zero_or_pos cfg.count.toNat with h₀ | hpos
  · simp [h₀]
  · rcases Nat.eq_or_lt_of_le (Nat.succ_le_of_lt hpos) with h₁ | h₂
    · rw [← h₁]
      exact h.pos u (hu ▸ hpos)
    · refine (Nat.min_le_right _ _).trans (h.two_le_of (u := u) (fun v hv => ?_) (hu ▸ hpos))
      rcases hl v with e | e <;> omega

/-- **The counters in any mode**, in every state of every run, for any numbers of processors,
reader threads and writer threads and any count. -/
theorem unguarded_of_run (mode : Mode) (cfg : Config) (hN : 0 < N) (acts : List (Act N)) :
    Throughout (stepIn mode cfg) (Unguarded cfg) (init N) acts := by
  rintro pre suf rfl t ht
  obtain ⟨h, h₁⟩ : Counters cfg t ∧ (cfg.numWriterThreads = 1 → Single cfg t) :=
    induct (motive := fun _ s => Counters cfg s ∧ (cfg.numWriterThreads = 1 → Single cfg s))
      ⟨counters_init hN, fun _ => single_init⟩ (fun _ _ _ _ _ ih hs => counters_step ih hs) ht
  obtain ⟨hle₀, hle₁⟩ := h.shape.sum_le
  refine ⟨⟨h.bounded0.le.trans hle₀, h.bounded1.le.trans hle₁⟩, fun hf hw => ?_, fun hw => ?_⟩
  · have hl := h.shape.stores_of_finished hf
    obtain ⟨hw₀, hw₁⟩ := h.shape.stores_writer hf hw
    refine ⟨min_le_of_bounded h.bounded0 (fun v => (hl v).2) hw₀,
      min_le_of_bounded h.bounded1 (fun v => ?_) hw₁⟩
    have := (hl v).2
    rwa [(hl v).1] at this
  · refine ⟨(h₁ hw).quiet, fun hf => ?_⟩
    obtain ⟨hw₀, hw₁⟩ := h.shape.stores_writer hf (hw ▸ Nat.one_pos)
    exact ⟨(h₁ hw).exact0.eq.trans hw₀, (h₁ hw).exact1.eq.trans hw₁⟩

/-- Two writers that increment twice. The first one stores what it has loaded when the second one
has gone through its first round, and the second one what it has loaded then when the first one has
finished. -/
def lostUpdates : List (Act 2) :=
  inOrder (stepIn .ns ⟨0, 2, 2⟩) (.replicate 25 0 ++ .replicate 15 1 ++ .replicate 1 0 ++
    .replicate 2 1 ++ .replicate 14 0 ++ .replicate 7 1) (init 2)

theorem unguarded_lostUpdates :
    (run (stepIn .ns ⟨0, 2, 2⟩) (init 2) lostUpdates).map
      (fun s => (s.code 3, s.code 4, s.c0)) =
      some (.drive ⟨true, 2⟩ 2 .finished, .drive ⟨true, 2⟩ 2 .finished, 2) ∧
    Throughout (stepIn .ns ⟨0, 2, 2⟩) (Unguarded ⟨0, 2, 2⟩) (init 2) lostUpdates :=
  ⟨by decide +kernel, unguarded_of_run .ns ⟨0, 2, 2⟩ Nat.two_pos lostUpdates⟩

end ReaderWriter
