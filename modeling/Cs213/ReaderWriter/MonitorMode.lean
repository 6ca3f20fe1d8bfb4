import Mathlib.Algebra.BigOperators.Group.Finset.Basic
import Cs213.Library.Counter
import Cs213.ReaderWriter.Exclusion

set_option relaxedAutoImplicit false
set_option autoImplicit false

/-!
# Monitor mode is correct

At most one thread is between the load and the store of an increment, so each counter is the number
of stores to it that the threads have made, and the two counters differ only while a writer is
between the two.

## Main definitions

* `ReaderWriter.Code.stores0`, `ReaderWriter.Code.stores1` — the stores a thread has made.
* `ReaderWriter.Counted` — the counters are the sums of the stores.

## Main results

* `ReaderWriter.monitorMode_of_run` — monitor mode is correct in every state of every run. The runs
  in which an exit wakes the initial thread twice are among them, with a ready queue that holds it
  twice; the source's queue is another one from there on, as `Cs213.ReaderWriter.Program` says.
-/

namespace ReaderWriter

open Uthread Runs Finset

variable {N : ℕ} {cfg : Config} {s t : Sys N}

/-! ## The stores of a thread -/

/-- In this round of the loop the writer has stored `c0`. -/
@[grind] def Point.stored0 : Point → ℕ
  | .load1 | .store1 _ | .check0 | .check1 _ | .leave => 1
  | .loop | .load0 | .store0 _ | .finished => 0

/-- In this round of the loop the writer has stored `c1`. -/
@[grind] def Point.stored1 : Point → ℕ
  | .check0 | .check1 _ | .leave => 1
  | .loop | .load0 | .store0 _ | .load1 | .store1 _ | .finished => 0

/-- The number of stores to `c0` that a thread has made. -/
@[grind] def Code.stores0 : Code → ℕ
  | .drive dta i pt => if dta.write then i + pt.stored0 else 0
  | .base | .create _ | .join _ | .end0 | .end1 _ | .end2 | .endPrint | .done => 0

/-- The number of stores to `c1` that a thread has made. -/
@[grind] def Code.stores1 : Code → ℕ
  | .drive dta i pt => if dta.write then i + pt.stored1 else 0
  | .base | .create _ | .join _ | .end0 | .end1 _ | .end2 | .endPrint | .done => 0

/-- What a thread has loaded is what the counters are. -/
@[grind] def Point.loaded (c0 c1 : ℕ) : Point → Prop
  | .store0 x | .check1 x => x = c0
  | .store1 x => x = c1
  | .loop | .load0 | .load1 | .check0 | .leave | .finished => True

/-- **The counters count the stores.** -/
structure Counted (cfg : Config) (s : Sys N) : Prop where
  loaded : ∀ u dta i pt, s.code u = .drive dta i pt → pt.loaded s.c0 s.c1
  count0 : s.c0 = ∑ i ∈ range cfg.numThreads, (s.code (N + 1 + i)).stores0
  count1 : s.c1 = ∑ i ∈ range cfg.numThreads, (s.code (N + 1 + i)).stores1
  checked : .readerError ∉ s.output ∧ .writerError ∉ s.output

/-! ## Steps -/

/-- The counter grows by the stores of the thread that moves. -/
lemma Own.stores {p : Fin N} (ho : Own cfg s p (s.code (s.core.proc p).thread) t)
    (hne : (s.core.proc p).thread ≠ s.core.fresh) (hs : Shape cfg s) (hc : Counted cfg s) :
    (t.code (s.core.proc p).thread).stores0 + s.c0 =
        (s.code (s.core.proc p).thread).stores0 + t.c0 ∧
      (t.code (s.core.proc p).thread).stores1 + s.c1 =
        (s.code (s.core.proc p).thread).stores1 + t.c1 := by
  have hok := hs.ok (s.core.proc p).thread
  have hl := hc.loaded (s.core.proc p).thread
  generalize s.code (s.core.proc p).thread = k at ho hok hl
  cases ho <;> grind

/-- A thread whose step changes a counter is inside the monitor. -/
lemma Own.counter_cases {p : Fin N} {k : Code} (ho : Own cfg s p k t) :
    t.c0 = s.c0 ∧ t.c1 = s.c1 ∨ k.bracketed := by
  cases ho <;> grind

/-- What a thread has loaded in its step is what the counters are. -/
lemma Own.loaded {p : Fin N} {k : Code} (ho : Own cfg s p k t)
    (hne : (s.core.proc p).thread ≠ s.core.fresh) {dta : DriveTestArg} {i : ℕ} {pt : Point}
    (hk : t.code (s.core.proc p).thread = .drive dta i pt) : pt.loaded t.c0 t.c1 := by
  cases ho <;> grind

/-- The code that is not in `drive_test` has no stores. -/
lemma Code.stores_of_ne_drive {k : Code} (hk : ∀ dta i pt, k ≠ .drive dta i pt) :
    k.stores0 = 0 ∧ k.stores1 = 0 := by
  cases k <;> grind

/-- Readers and writers have not made the same number of stores to the counters only while they
are beyond their first point inside the monitor. -/
lemma Code.eq_drive_of_stores_ne {k : Code} (hk : k.stores0 ≠ k.stores1) :
    ∃ dta i pt, k = .drive dta i pt ∧ pt.bracketed ∧ ¬ pt.opening ∧ ∀ x, pt ≠ .check1 x := by
  cases k with
  | drive dta i pt => exact ⟨dta, i, pt, rfl, by cases pt <;> grind⟩
  | _ => exact absurd rfl hk

/-- A sum over the threads, when one of them moves. -/
lemma sum_step {u : Tid} {n a b : ℕ} {f g : Tid → ℕ} (hne : ∀ v, v ≠ u → g v = f v)
    (hu : g u + a = f u + b) (hd : (∃ i < n, u = N + 1 + i) ∨ g u = f u) :
    ∑ i ∈ range n, g (N + 1 + i) + a = ∑ i ∈ range n, f (N + 1 + i) + b := by
  by_cases hi : ∃ i < n, u = N + 1 + i
  · obtain ⟨i, hi, rfl⟩ := hi
    have hsum : ∑ j ∈ range n, g (N + 1 + j) + f (N + 1 + i) =
        ∑ j ∈ range n, f (N + 1 + j) + g (N + 1 + i) :=
      Counter.sum_move (f := fun j => f (N + 1 + j)) (g := fun j => g (N + 1 + j))
        (mem_range.mpr hi) fun j _ hj => hne _ fun e => hj (Nat.add_left_cancel e)
    omega
  · have hg : ∀ i ∈ range n, g (N + 1 + i) = f (N + 1 + i) := fun i hin =>
      hne _ fun e => hi ⟨i, mem_range.mp hin, e.symm⟩
    rw [sum_congr rfl hg]
    have := hd.resolve_left hi
    omega

namespace Counted

variable (hc : Counted cfg s) (h : Good cfg s) {p : Fin N}
  (hpc : (s.core.proc p).pc = .user)
  (ho : Own cfg s p (s.code (s.core.proc p).thread) t)

include h ho

omit hc in
/-- A thread that moves and is not in `drive_test` does not get there. -/
lemma driver_or_eq : (∃ i < cfg.numThreads, (s.core.proc p).thread = N + 1 + i) ∨
    (∀ dta i pt, s.code (s.core.proc p).thread ≠ .drive dta i pt) ∧
      ∀ dta i pt, t.code (s.core.proc p).thread ≠ .drive dta i pt := by
  by_cases h0 : (s.core.proc p).thread = 0
  · refine .inr ⟨fun dta i pt e => h.shape.ne_zero_of_drive e h0, fun dta i pt e => ?_⟩
    exact (h.shape.step_own h.under.inv.allocated ho).ne_zero_of_drive e h0
  · rcases h.shape.cases_of_ne_zero h0 with e | ⟨i, j, pt, hi, e, -⟩
    · rw [e] at ho ⊢
      cases ho
      exact .inr ⟨by simp, by simp⟩
    · exact .inl ⟨i, hi, e⟩

include hc

/-- **Each counter is the number of stores to it.** -/
lemma count_step : t.c0 = ∑ i ∈ range cfg.numThreads, (t.code (N + 1 + i)).stores0 ∧
    t.c1 = ∑ i ∈ range cfg.numThreads, (t.code (N + 1 + i)).stores1 := by
  obtain ⟨h₀, h₁⟩ := ho.stores (h.under.inv.allocated.thread p).ne h.shape hc
  have hother : ∀ v, v ≠ (s.core.proc p).thread → (t.code v).stores0 = (s.code v).stores0 ∧
      (t.code v).stores1 = (s.code v).stores1 := by
    intro v hv
    rcases h.code_of_ne ho hv with e | ⟨-, e, dta, e'⟩
    · rw [e]
      exact ⟨rfl, rfl⟩
    · rw [e, e']
      exact ⟨by simp [Code.stores0, Point.stored0], by simp [Code.stores1, Point.stored1]⟩
  have hd := driver_or_eq h ho
  constructor
  · have := sum_step (N := N) (fun v hv => (hother v hv).1) h₀ (hd.imp_right fun ⟨e, e'⟩ => by
      rw [(Code.stores_of_ne_drive e).1, (Code.stores_of_ne_drive e').1])
    rw [← hc.count0] at this
    omega
  · have := sum_step (N := N) (fun v hv => (hother v hv).2) h₁ (hd.imp_right fun ⟨e, e'⟩ => by
      rw [(Code.stores_of_ne_drive e).2, (Code.stores_of_ne_drive e').2])
    rw [← hc.count1] at this
    omega

include hpc

/-- What a thread has loaded is not overtaken by another thread. -/
lemma loaded_step (u : Tid) (dta : DriveTestArg) (i : ℕ) (pt : Point)
    (hu : t.code u = .drive dta i pt) : pt.loaded t.c0 t.c1 := by
  by_cases hup : u = (s.core.proc p).thread
  · subst hup
    exact ho.loaded (h.under.inv.allocated.thread p).ne hu
  · rcases h.code_of_ne ho hup with e | ⟨-, -, dta', e⟩
    · rw [e] at hu
      have hl := hc.loaded u dta i pt hu
      rcases ho.counter_cases with ⟨e₀, e₁⟩ | hb
      · rwa [e₀, e₁]
      · by_cases hpt : pt.bracketed ∧ ¬ pt.opening
        · obtain ⟨q, hq, hin⟩ := h.inside_of_not_opening hu hpt.1 hpt.2
          have := h.alone_of_holding (.inr hin) (.inr (.inl ⟨hpc, hb⟩))
          exact absurd (this ▸ hq.symm) hup
        · cases pt <;> grind
    · cases hu.symm.trans e
      trivial

omit ho in
/-- A thread that has loaded `c0` to compare finds `c1` the same. -/
lemma eq_of_check1 {dta : DriveTestArg} {i x : ℕ}
    (hk : s.code (s.core.proc p).thread = .drive dta i (.check1 x)) : x = s.c1 := by
  have hl : x = s.c0 := hc.loaded _ dta i _ hk
  rw [hl, hc.count0, hc.count1]
  refine sum_congr rfl fun j _ => by_contra fun hj => ?_
  obtain ⟨dta', i', pt, e, hb, hopen, hpt⟩ := Code.eq_drive_of_stores_ne hj
  obtain ⟨q, hq, hin⟩ := h.inside_of_not_opening e hb hopen
  have hqp := h.alone_of_holding (.inr hin) (.inr (.inl ⟨hpc, by rw [hk]; trivial⟩))
  rw [← hq, hqp, hk] at e
  cases e
  exact hpt x rfl

lemma checked_step : .readerError ∉ t.output ∧ .writerError ∉ t.output := by
  have hx := @eq_of_check1 _ _ _ hc h p hpc
  have hs := hc.checked
  generalize s.code (s.core.proc p).thread = k at ho hx
  cases ho with
  | unequal dta i x hne m => exact absurd (hx rfl) hne
  | endPrint => simpa using hs
  | _ => exact hs

lemma step_own : Counted cfg t where
  loaded := hc.loaded_step h hpc ho
  count0 := (hc.count_step h ho).1
  count1 := (hc.count_step h ho).2
  checked := hc.checked_step h hpc ho

end Counted

/-- At the start no thread has made a store. -/
lemma counted_init : Counted cfg (init N) where
  loaded u dta i pt hu := by
    simp only [init] at hu
    grind
  count0 := by simp [init, Code.stores0]
  count1 := by simp [init, Code.stores1]
  checked := by simp [init]

/-! ## Runs -/

/-- A step keeps the invariants. -/
lemma good_counted_step {a : Act N} (h : Good cfg s ∧ Counted cfg s) (ht : step cfg s a = some t) :
    Good cfg t ∧ Counted cfg t := by
  obtain ⟨hg, hc⟩ := h
  cases a with
  | lib p =>
    obtain ⟨c, hstep, rfl⟩ := Option.map_eq_some_iff.mp ht
    exact ⟨hg.step_lib hstep, hc.loaded, hc.count0, hc.count1, hc.checked⟩
  | own p v =>
    simp only [step] at ht
    split_ifs at ht with hpc
    have ho := own_of_exec ht
    exact ⟨hg.step_own hpc ho, hc.step_own hg hpc ho⟩

/-- The increments of all writers. -/
lemma sum_writers (cfg : Config) :
    ∑ i ∈ range cfg.numThreads, (if cfg.numReaderThreads ≤ i then cfg.count.toNat else 0) =
      cfg.numWriterThreads * cfg.count.toNat := by
  have hlt : ∀ i ∈ range cfg.numReaderThreads,
      (if cfg.numReaderThreads ≤ i then cfg.count.toNat else 0) = 0 := fun i hi =>
    if_neg (Nat.not_le.mpr (mem_range.mp hi))
  have hge : ∀ i ∈ range cfg.numWriterThreads,
      (if cfg.numReaderThreads ≤ cfg.numReaderThreads + i then cfg.count.toNat else 0) =
        cfg.count.toNat := fun i _ => if_pos (Nat.le_add_right _ i)
  rw [Config.numThreads, sum_range_add, sum_congr rfl hlt, sum_const_zero, Nat.zero_add,
    sum_const_nat hge, card_range]

/-- When all threads have finished, each writer has gone through all rounds of its loop. -/
lemma counted_of_finished (h : Good cfg s) (hc : Counted cfg s) (hf : Finished cfg s) :
    s.c0 = cfg.numWriterThreads * cfg.count.toNat ∧ s.c1 = s.c0 := by
  have hcode : ∀ i ∈ range cfg.numThreads, s.code (N + 1 + i) =
      .drive ⟨cfg.numReaderThreads ≤ i, cfg.count⟩ cfg.count.toNat .finished := fun i hi =>
    h.shape.code_of_finished hf (mem_range.mp hi)
  constructor
  · rw [hc.count0, ← sum_writers]
    exact sum_congr rfl fun i hi => by simp [hcode i hi, Code.stores0, Point.stored0]
  · rw [hc.count0, hc.count1]
    exact sum_congr rfl fun i hi => by
      simp [hcode i hi, Code.stores0, Code.stores1, Point.stored0, Point.stored1]

/-- **Monitor mode is correct** in every state of every run, for any numbers of processors, reader
threads and writer threads and any count; a negative count makes no rounds, as 0 does. -/
theorem monitorMode_of_run (cfg : Config) (hN : 0 < N) (acts : List (Act N)) :
    Throughout (step cfg) (MonitorMode cfg (cfg.numWriterThreads * max cfg.count 0)) (init N)
      acts := by
  rintro pre suf rfl t ht
  obtain ⟨h, hc⟩ : Good cfg t ∧ Counted cfg t :=
    induct (motive := fun _ s => Good cfg s ∧ Counted cfg s) ⟨good_init hN, counted_init⟩
      (fun _ _ _ _ _ ih hs => good_counted_step ih hs) ht
  refine ⟨fun p q hp hq => h.alone_of_holding (.inr hp) (.inr hq), h.asserted, hc.checked,
    fun hf => ?_⟩
  obtain ⟨h₀, h₁⟩ := counted_of_finished h hc hf
  rw [h₀, Int.natCast_mul, Int.toNat_eq_max]
  exact ⟨rfl, h₁.trans h₀⟩

/-- The steps of the processors in an order that is given. -/
def inOrder (next : Sys N → Act N → Option (Sys N)) : List (Fin N) → Sys N → List (Act N)
  | [], _ => []
  | p :: ps, s =>
    let a : Act N := if (s.core.proc p).pc = .user then .own p 0 else .lib p
    match next s a with
    | some t => a :: inOrder next ps t
    | none => []

/-- The two processors in turns. -/
def turns (n : ℕ) : List (Fin 2) := (List.replicate n [0, 1]).flatten

/-- A reader and a writer, one round each. The writer comes while the reader is inside the monitor,
waits, and is woken up; then `main` joins both and returns. -/
def contended : List (Act 2) :=
  inOrder (step ⟨1, 1, 1⟩) (turns 18 ++ .replicate 18 0 ++ turns 60) (init 2)

theorem monitorMode_contended :
    (run (step ⟨1, 1, 1⟩) (init 2) (contended.take 54)).map
        (fun s => ((s.core.monitor mon).holder, (s.core.monitor mon).waiterQueue)) =
      some (some 3, [4]) ∧
    (run (step ⟨1, 1, 1⟩) (init 2) contended).map (fun s => (s.c0, s.output, s.code 0)) =
      some (1, [], .done) ∧
    Throughout (step ⟨1, 1, 1⟩) (MonitorMode ⟨1, 1, 1⟩ (1 * max 1 0)) (init 2) contended :=
  ⟨by decide +kernel, by decide +kernel, monitorMode_of_run ⟨1, 1, 1⟩ Nat.two_pos contended⟩

/-- The arguments `1 -1`: no thread makes a round, and `main` compares the counters with `-1`. -/
def negative : List (Act 2) := inOrder (step ⟨1, 1, -1⟩) (turns 60) (init 2)

theorem negative_not_monitorMode :
    (run (step ⟨1, 1, -1⟩) (init 2) negative).map (fun s => (s.output, s.code 0)) =
      some ([.endError 0 0 (-1)], .done) ∧
    ¬ Throughout (step ⟨1, 1, -1⟩) (MonitorMode ⟨1, 1, -1⟩ (Config.total ⟨1, 1, -1⟩)) (init 2)
        negative := by
  refine ⟨by decide +kernel, fun h => ?_⟩
  have hrun : (run (step ⟨1, 1, -1⟩) (init 2) negative).map
      (fun s => ([s.t 0, s.t 1], [s.code 3, s.code 4], s.c0)) =
      some ([3, 4], [.drive ⟨false, -1⟩ 0 .finished, .drive ⟨true, -1⟩ 0 .finished], 0) := by
    decide +kernel
  obtain ⟨s, hs, e⟩ := Option.map_eq_some_iff.mp hrun
  simp only [Prod.mk.injEq, List.cons.injEq, and_true] at e
  obtain ⟨⟨ht₀, ht₁⟩, ⟨hk₀, hk₁⟩, hc⟩ := e
  have hf : Finished ⟨1, 1, -1⟩ s := by
    intro i hi
    obtain rfl | rfl : i = 0 ∨ i = 1 := by
      simp only [Config.numThreads] at hi
      omega
    · exact ⟨_, _, by rw [ht₀, hk₀]⟩
    · exact ⟨_, _, by rw [ht₁, hk₁]⟩
  have hcount := ((h negative [] (List.append_nil _).symm s hs).counted hf).1
  simp [hc, Config.total] at hcount

end ReaderWriter
