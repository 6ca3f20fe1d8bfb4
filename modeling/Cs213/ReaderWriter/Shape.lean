import Cs213.ReaderWriter.Program

set_option relaxedAutoImplicit false
set_option autoImplicit false

/-!
# The threads of the reader/writer program

Which thread is where in its procedure: the initial thread in `do_test`, the threads it has created
in `drive_test`, in the order of their creation, and the base threads in `pthread_base`.

## Main definitions

* `ReaderWriter.Own` — the branches of a step of a thread in its own code.
* `ReaderWriter.Shape` — the points at which the threads are.
* `ReaderWriter.Policy` — the calls that the program makes.

## Main results

* `ReaderWriter.own_of_exec` — every step of a thread in its own code takes one of the branches.
* `ReaderWriter.Shape.step_lib`, `ReaderWriter.Shape.step_own`, `ReaderWriter.shape_init`.
-/

namespace ReaderWriter

open Uthread Runs

variable {N : ℕ} {cfg : Config} {s t : Sys N}

/-! ## What a step can do -/

section Goto

variable (p : Fin N) (k : Code) (u : Tid)

@[simp, grind =] lemma goto_core : (s.goto p k).core = s.core := rfl
@[simp, grind =] lemma goto_code :
    (s.goto p k).code u = if u = (s.core.proc p).thread then k else s.code u :=
  Function.update_apply ..
@[simp, grind =] lemma goto_t : (s.goto p k).t = s.t := rfl
@[simp, grind =] lemma goto_c0 : (s.goto p k).c0 = s.c0 := rfl
@[simp, grind =] lemma goto_c1 : (s.goto p k).c1 = s.c1 := rfl
@[simp, grind =] lemma goto_output : (s.goto p k).output = s.output := rfl

end Goto

/-- **The branches of a step** of the thread on processor `p` in its own code. -/
inductive Own (cfg : Config) (s : Sys N) (p : Fin N) : Code → Sys N → Prop
  | yield (c : State N) (hc : Uthread.step s.core (.call p .yield) = some c) :
      Own cfg s p .base { s.goto p .base with core := c }
  | create (i : ℕ) (c : State N) (hi : i < cfg.numThreads)
      (hc : Uthread.step s.core (.call p .create) = some c) :
      Own cfg s p (.create i)
        { s.goto p (.create (i + 1)) with
          core := c
          t := Function.update s.t i s.core.fresh
          code := Function.update (s.goto p (.create (i + 1))).code s.core.fresh
            (.drive ⟨cfg.numReaderThreads ≤ i, cfg.count⟩ 0 .loop) }
  | created (i : ℕ) (hi : ¬ i < cfg.numThreads) : Own cfg s p (.create i) (s.goto p (.join 0))
  | join (i : ℕ) (c : State N) (hi : i < cfg.numThreads)
      (hc : Uthread.step s.core (.call p (.join (s.t i))) = some c) :
      Own cfg s p (.join i) { s.goto p (.join (i + 1)) with core := c }
  | joined (i : ℕ) (hi : ¬ i < cfg.numThreads) : Own cfg s p (.join i) (s.goto p .end0)
  | end0 : Own cfg s p .end0 (s.goto p (.end1 s.c0))
  | end1 (x : ℕ) : Own cfg s p (.end1 x) (s.goto p (if x ≠ s.c1 then .endPrint else .end2))
  | end2 : Own cfg s p .end2
      (s.goto p (if (s.c0 : ℤ) ≠ cfg.total then .endPrint else .done))
  | endPrint : Own cfg s p .endPrint
      ({ s with output := s.output ++ [Message.endError s.c0 s.c1 cfg.total] }.goto p .done)
  | enter (dta : DriveTestArg) (i : ℕ) (c : State N) (hi : (i : ℤ) < dta.count)
      (hc : Uthread.step s.core (.call p (.enter mon)) = some c) :
      Own cfg s p (.drive dta i .loop)
        { s.goto p (.drive dta i (if dta.write then .load0 else .check0)) with core := c }
  | ret (dta : DriveTestArg) (i v : ℕ) (c : State N) (hi : ¬ (i : ℤ) < dta.count)
      (hc : Uthread.step s.core (.call p (.ret v)) = some c) :
      Own cfg s p (.drive dta i .loop) { s.goto p (.drive dta i .finished) with core := c }
  | load0 (dta : DriveTestArg) (i : ℕ) :
      Own cfg s p (.drive dta i .load0) (s.goto p (.drive dta i (.store0 s.c0)))
  | store0 (dta : DriveTestArg) (i x : ℕ) :
      Own cfg s p (.drive dta i (.store0 x)) ({ s with c0 := x + 1 }.goto p (.drive dta i .load1))
  | load1 (dta : DriveTestArg) (i : ℕ) :
      Own cfg s p (.drive dta i .load1) (s.goto p (.drive dta i (.store1 s.c1)))
  | store1 (dta : DriveTestArg) (i x : ℕ) :
      Own cfg s p (.drive dta i (.store1 x)) ({ s with c1 := x + 1 }.goto p (.drive dta i .check0))
  | check0 (dta : DriveTestArg) (i : ℕ) :
      Own cfg s p (.drive dta i .check0) (s.goto p (.drive dta i (.check1 s.c0)))
  | equal (dta : DriveTestArg) (i x : ℕ) (hx : x = s.c1) :
      Own cfg s p (.drive dta i (.check1 x)) (s.goto p (.drive dta i .leave))
  | unequal (dta : DriveTestArg) (i x : ℕ) (hx : x ≠ s.c1) (m : Message) :
      Own cfg s p (.drive dta i (.check1 x))
        ({ s with output := s.output ++ [m] }.goto p (.drive dta i .leave))
  | leave (dta : DriveTestArg) (i : ℕ) (c : State N)
      (hc : Uthread.step s.core (.call p (.exit mon)) = some c) :
      Own cfg s p (.drive dta i .leave) { s.goto p (.drive dta (i + 1) .loop) with core := c }

/-- A call takes the thread to the code after it. -/
lemma callThen_eq_some {p : Fin N} {op : Op} {k : Code} :
    s.callThen p op k = some t ↔ ∃ c, Uthread.step s.core (.call p op) = some c ∧
      { s.goto p k with core := c } = t := by
  simp [Sys.callThen]

/-- A step in `drive_test` takes one of the branches. -/
lemma own_of_drive {p : Fin N} {v : ℕ} {dta : DriveTestArg} {i : ℕ} {pt : Point}
    (h : drive s p v dta i pt = some t) : Own cfg s p (.drive dta i pt) t := by
  cases pt with
  | loop =>
    by_cases hi : (i : ℤ) < dta.count
    · rw [drive, if_pos hi] at h
      obtain ⟨c, hc, rfl⟩ := callThen_eq_some.mp h
      exact .enter dta i c hi hc
    · rw [drive, if_neg hi] at h
      obtain ⟨c, hc, rfl⟩ := callThen_eq_some.mp h
      exact .ret dta i v c hi hc
  | load0 => cases h; exact .load0 dta i
  | store0 x => cases h; exact .store0 dta i x
  | load1 => cases h; exact .load1 dta i
  | store1 x => cases h; exact .store1 dta i x
  | check0 => cases h; exact .check0 dta i
  | check1 x =>
    by_cases hx : x = s.c1
    · rw [drive, if_neg (not_not.mpr hx)] at h
      exact Option.some.inj h ▸ .equal dta i x hx
    · rw [drive, if_pos hx] at h
      exact Option.some.inj h ▸ .unequal dta i x hx _
  | leave =>
    obtain ⟨c, hc, rfl⟩ := callThen_eq_some.mp h
    exact .leave dta i c hc
  | finished => cases h

/-- A step of a thread in its own code takes one of the branches. -/
lemma own_of_exec {p : Fin N} {v : ℕ} {k : Code} (h : exec cfg s p v k = some t) :
    Own cfg s p k t := by
  cases k with
  | base =>
    obtain ⟨c, hc, rfl⟩ := callThen_eq_some.mp h
    exact .yield c hc
  | create i =>
    simp only [exec] at h
    split_ifs at h with hi
    · obtain ⟨u, hu, rfl⟩ := Option.map_eq_some_iff.mp h
      obtain ⟨c, hc, rfl⟩ := callThen_eq_some.mp hu
      exact .create i c hi hc
    · cases h
      exact .created i hi
  | join i =>
    simp only [exec] at h
    split_ifs at h with hi
    · obtain ⟨c, hc, rfl⟩ := callThen_eq_some.mp h
      exact .join i c hi hc
    · cases h
      exact .joined i hi
  | end0 => cases h; exact .end0
  | end1 x => cases h; exact .end1 x
  | end2 => cases h; exact .end2
  | endPrint => cases h; exact .endPrint
  | done => cases h
  | drive dta i pt => exact own_of_drive h

/-! ## The code of the threads -/

/-- The number of threads that have been created when the initial thread is at this code. -/
@[grind] def Code.created (cfg : Config) : Code → Option ℕ
  | .create i => some i
  | .join _ | .end0 | .end1 _ | .end2 | .endPrint | .done => some cfg.numThreads
  | .base | .drive _ _ _ => none

/-- The loop counter of a thread at a point of `drive_test`, and who gets there. -/
@[grind] def Point.ok (dta : DriveTestArg) (i : ℕ) : Point → Prop
  | .loop => i ≤ dta.count.toNat
  | .load0 | .store0 _ | .load1 | .store1 _ => i < dta.count.toNat ∧ dta.write
  | .check0 | .check1 _ | .leave => i < dta.count.toNat
  | .finished => i = dta.count.toNat

/-- The initial thread is in `do_test`, the threads it has created are in `drive_test`, and the
others run `pthread_base` or do not exist. -/
structure Shape (cfg : Config) (s : Sys N) : Prop where
  main : ∃ n ≤ cfg.numThreads, (s.code 0).created cfg = some n ∧ s.core.fresh = N + 1 + n ∧
    (∀ i, n ≤ i → s.t i = 0) ∧ ∀ i < n, s.t i = N + 1 + i ∧
      ∃ j pt, s.code (N + 1 + i) = .drive ⟨cfg.numReaderThreads ≤ i, cfg.count⟩ j pt
  base : ∀ u, u ≠ 0 → u ≤ N ∨ s.core.fresh ≤ u → s.code u = .base
  ok : ∀ u dta i pt, s.code u = .drive dta i pt → pt.ok dta i

/-- The calls that the program makes: the initial thread joins, the others use the monitor. -/
@[grind] def Policy (u : Tid) : Op → Prop
  | .join _ => u = 0
  | .enter m | .exit m => m = mon ∧ u ≠ 0
  | .create | .yield | .detach _ | .ret _ => True

/-- A step of a thread in its own code creates a thread, or takes the thread from one point of its
procedure to another. -/
lemma Own.code_cases {p : Fin N} {k : Code} (h : Own cfg s p k t) :
    (∃ i, k = .create i ∧ i < cfg.numThreads ∧ t.core.fresh = s.core.fresh + 1 ∧
      t.t = Function.update s.t i s.core.fresh ∧
      t.code = Function.update (Function.update s.code (s.core.proc p).thread (.create (i + 1)))
        s.core.fresh (.drive ⟨cfg.numReaderThreads ≤ i, cfg.count⟩ 0 .loop)) ∨
    (t.core.fresh = s.core.fresh ∧ t.t = s.t ∧
      ∃ k', t.code = Function.update s.code (s.core.proc p).thread k' ∧
        (k = .base → k' = .base) ∧
        (∀ n ≤ cfg.numThreads, k.created cfg = some n → k'.created cfg = some n) ∧
        (∀ dta i pt, k = .drive dta i pt → ∃ i' pt', k' = .drive dta i' pt') ∧
        ∀ dta i' pt', k' = .drive dta i' pt' →
          ∃ i pt, k = .drive dta i pt ∧ (pt.ok dta i → pt'.ok dta i')) := by
  have hf : ∀ c op, Uthread.step s.core (.call p op) = some c → op ≠ .create →
      c.fresh = s.core.fresh := fun c op hc hop =>
    (trans_of_step hc).fresh_eq (by simpa [Act.begins] using hop)
  cases h with
  | create i c hi hc => exact .inl ⟨i, rfl, hi, (trans_of_step hc).fresh_of_create, rfl, rfl⟩
  | yield c hc | join i c hi hc | leave dta i c hc | ret dta i v c hi hc | enter dta i c hi hc =>
    exact .inr ⟨hf c _ hc (by simp), rfl, _, rfl, by grind⟩
  | _ => exact .inr ⟨rfl, rfl, _, rfl, by grind⟩

namespace Shape

variable (h : Shape cfg s)

include h

/-- The initial thread is not in `drive_test`. -/
lemma ne_zero_of_drive {u : Tid} {dta : DriveTestArg} {i : ℕ} {pt : Point}
    (hu : s.code u = .drive dta i pt) : u ≠ 0 := by
  rintro rfl
  obtain ⟨n, -, hn, -⟩ := h.main
  simp [hu, Code.created] at hn

/-- Threads other than the initial one run `pthread_base` or `drive_test`. -/
lemma cases_of_ne_zero {u : Tid} (hu : u ≠ 0) :
    s.code u = .base ∨ ∃ i j pt, i < cfg.numThreads ∧ u = N + 1 + i ∧
      s.code u = .drive ⟨cfg.numReaderThreads ≤ i, cfg.count⟩ j pt := by
  obtain ⟨n, hle, -, hf, -, hd⟩ := h.main
  by_cases hb : u ≤ N ∨ s.core.fresh ≤ u
  · exact .inl (h.base u hu hb)
  · obtain ⟨i, rfl⟩ : ∃ i, u = N + 1 + i := Nat.exists_eq_add_of_le (by grind)
    obtain ⟨-, j, pt, hc⟩ := hd i (by grind)
    exact .inr ⟨i, j, pt, by grind, rfl, hc⟩

/-- A step of a thread in its own code leaves the thread system alone, or makes one of the calls
that the program makes. -/
lemma core_cases {p : Fin N} (ho : Own cfg s p (s.code (s.core.proc p).thread) t) :
    t.core = s.core ∨ ∃ op, Uthread.step s.core (.call p op) = some t.core ∧
      Policy (s.core.proc p).thread op := by
  have hd := @h.ne_zero_of_drive _ _ _ (s.core.proc p).thread
  have hb := @h.cases_of_ne_zero _ _ _ (s.core.proc p).thread
  generalize s.code (s.core.proc p).thread = k at ho hd hb
  cases ho <;> first | exact .inl rfl | exact .inr ⟨_, ‹_›, by grind⟩

/-- A step inside `uthread.c` takes no thread to another point of its procedure. -/
lemma step_lib {c : State N} (hf : c.fresh = s.core.fresh) :
    Shape cfg { s with core := c } where
  main := by
    obtain ⟨n, hle, hn, hfr, ht, hd⟩ := h.main
    exact ⟨n, hle, hn, hf.trans hfr, ht, hd⟩
  base u hu hb := h.base u hu (hf ▸ hb)
  ok := h.ok

/-- The initial thread creates the next thread. -/
lemma step_create (ha : Allocated s.core) {u : Tid} {i : ℕ} (hu : u < s.core.fresh)
    (hk : s.code u = .create i) (hi : i < cfg.numThreads) (hf : t.core.fresh = s.core.fresh + 1)
    (ht : t.t = Function.update s.t i s.core.fresh)
    (hc : t.code = Function.update (Function.update s.code u (.create (i + 1)))
      s.core.fresh (.drive ⟨cfg.numReaderThreads ≤ i, cfg.count⟩ 0 .loop)) : Shape cfg t := by
  have hb := ha.base
  obtain ⟨n, hle, hn, hfr, hnt, hd⟩ := h.main
  obtain rfl : u = 0 := by
    by_contra h0
    rcases h.cases_of_ne_zero h0 with e | ⟨j, k, pt, -, -, e⟩ <;> simp [hk] at e
  obtain rfl : i = n := by simpa [hk, Code.created] using hn
  have hcode : ∀ v, v ≠ s.core.fresh → v ≠ 0 → t.code v = s.code v := fun v hv h0 => by
    rw [hc, Function.update_of_ne hv, Function.update_of_ne h0]
  refine ⟨⟨i + 1, hi, ?_, by grind, fun j hj => ?_, fun j hj => ?_⟩, fun v hv hb => ?_,
    fun v dta j pt hv => ?_⟩
  · rw [hc, Function.update_of_ne hu.ne, Function.update_self, Code.created]
  · rw [ht, Function.update_of_ne (by omega), hnt j (by omega)]
  · rcases Nat.lt_succ_iff_lt_or_eq.mp hj with hj | rfl
    · obtain ⟨e, k, pt, hk⟩ := hd j hj
      exact ⟨by rw [ht, Function.update_of_ne hj.ne, e], k, pt,
        by rw [hcode _ (by grind) (by grind), hk]⟩
    · exact ⟨by rw [ht, Function.update_self, hfr], 0, .loop,
        by rw [hc, ← hfr, Function.update_self]⟩
  · rw [hcode v (by grind) hv]
    exact h.base v hv (by grind)
  · by_cases hvf : v = s.core.fresh
    · rw [hc, hvf, Function.update_self] at hv
      cases hv
      exact Nat.zero_le _
    · have hv0 : v ≠ 0 := by
        rintro rfl
        simp [hc, Function.update_of_ne hvf] at hv
      exact h.ok v dta j pt (hcode v hvf hv0 ▸ hv)

/-- A thread goes on in its procedure. -/
lemma step_point {u : Tid} {k' : Code} (hf : t.core.fresh = s.core.fresh) (ht : t.t = s.t)
    (hc : t.code = Function.update s.code u k') (hbase : s.code u = .base → k' = .base)
    (hcr : ∀ n ≤ cfg.numThreads, (s.code u).created cfg = some n → k'.created cfg = some n)
    (hdr : ∀ dta i pt, s.code u = .drive dta i pt → ∃ i' pt', k' = .drive dta i' pt')
    (hok : ∀ dta i' pt', k' = .drive dta i' pt' →
      ∃ i pt, s.code u = .drive dta i pt ∧ (pt.ok dta i → pt'.ok dta i')) : Shape cfg t := by
  obtain ⟨n, hle, hn, hfr, hnt, hd⟩ := h.main
  refine ⟨⟨n, hle, ?_, by rw [hf, hfr], ht ▸ hnt, fun j hj => ?_⟩, fun v hv hb => ?_,
    fun v dta j pt hv => ?_⟩
  · by_cases h0 : 0 = u
    · rw [hc, h0, Function.update_self]
      exact hcr n hle (h0 ▸ hn)
    · rw [hc, Function.update_of_ne h0, hn]
  · obtain ⟨e, k, pt, hk⟩ := hd j hj
    refine ⟨by rw [ht, e], ?_⟩
    by_cases hj' : N + 1 + j = u
    · obtain ⟨i', pt', hk'⟩ := hdr _ _ _ (hj' ▸ hk)
      exact ⟨i', pt', by rw [hc, hj', Function.update_self, hk']⟩
    · exact ⟨k, pt, by rw [hc, Function.update_of_ne hj', hk]⟩
  · have hs := h.base v hv (hf ▸ hb)
    by_cases hvu : v = u
    · rw [hc, hvu, Function.update_self, hbase (hvu ▸ hs)]
    · rw [hc, Function.update_of_ne hvu, hs]
  · by_cases hvu : v = u
    · rw [hc, hvu, Function.update_self] at hv
      obtain ⟨i, pt', hk, himp⟩ := hok dta j pt hv
      exact himp (h.ok u dta i pt' hk)
    · rw [hc, Function.update_of_ne hvu] at hv
      exact h.ok v dta j pt hv

lemma step_own (ha : Allocated s.core) {p : Fin N}
    (ho : Own cfg s p (s.code (s.core.proc p).thread) t) : Shape cfg t := by
  rcases ho.code_cases with ⟨i, hk, hi, hf, ht, hc⟩ | ⟨hf, ht, k', hc, hbase, hcr, hdr, hok⟩
  · exact h.step_create ha (ha.thread p) hk hi hf ht hc
  · exact h.step_point hf ht hc hbase hcr hdr hok

/-- Where the threads are when they have finished. -/
lemma code_of_finished (hf : Finished cfg s) {i : ℕ} (hi : i < cfg.numThreads) :
    s.code (N + 1 + i) =
      .drive ⟨cfg.numReaderThreads ≤ i, cfg.count⟩ cfg.count.toNat .finished := by
  obtain ⟨n, hle, -, -, h0, hd⟩ := h.main
  have hn : n = cfg.numThreads := by
    by_contra hne
    obtain ⟨dta, k, e⟩ := hf n (by omega)
    rw [h0 n le_rfl] at e
    exact h.ne_zero_of_drive e rfl
  subst hn
  obtain ⟨ht, j, pt, e⟩ := hd i hi
  obtain ⟨dta, k, e'⟩ := hf i hi
  rw [ht, e] at e'
  cases e'
  have hok : j = cfg.count.toNat := h.ok _ _ _ _ e
  rw [e, hok]

end Shape

/-- At the start no thread has been created. -/
lemma shape_init : Shape cfg (init N) where
  main := ⟨0, Nat.zero_le _, rfl, rfl, fun _ _ => rfl, fun i hi => absurd hi (Nat.not_lt_zero i)⟩
  base u hu _ := by simp [init, hu]
  ok u dta i pt h := by
    simp only [init] at h
    grind

end ReaderWriter
