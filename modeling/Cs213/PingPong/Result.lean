import Cs213.PingPong.Shape
import Cs213.Uthread.JoinValues

set_option relaxedAutoImplicit false
set_option autoImplicit false

/-!
# The program prints the result

Every result is stored before its address is returned, and loaded after it has been returned; so
`main` loads what the program intends, in whatever order the threads are executed.

## Main definitions

* `PingPong.coreActs` — the steps of the thread system in a step of the program.
* `PingPong.FreesEarly` — `uthread_join` frees a block whose exit is not complete.
* `PingPong.Good` — the invariant along a run.

## Main results

* `PingPong.correct_of_run` — the program is correct in every state of every run in which no block
  is freed under the hands of an exit.
-/

namespace PingPong

open Uthread Runs

variable {N : ℕ} {cfg : Config} {s t : Sys N} {a : Act N} {m : Main}

/-! ## The steps of the thread system -/

/-- The steps of the thread system in a step of the program. -/
def coreActs (s : Sys N) : Act N → List (Uthread.Act N)
  | .lib p => [.run p]
  | .own p => match s.code (s.core.proc p).thread with
    | .base => [.call p .yield]
    | .main (.create _) => [.call p .create]
    | .main (.join k) => [.call p (.join (s.thread k))]
    | .worker _ _ (.ret result) => [.call p (.ret result)]
    | _ => []

/-- A call of `uthread_join` that has been woken up frees a block while the exit of the thread still
holds its join spinlock. -/
def FreesEarly (s : Sys N) (a : Act N) : Prop := ∃ b ∈ coreActs s a, FreesLocked s.core b

instance (s : Sys N) (a : Act N) : Decidable (FreesEarly s a) :=
  inferInstanceAs (Decidable (∃ _ ∈ _, _))

/-- The processor that takes a step. -/
def Act.proc : Act N → Fin N
  | .lib p => p
  | .own p => p

/-- A step is one inside `uthread.c`, or one of a thread in its own code. -/
lemma step_cases (h : step cfg s a = some t) :
    (∃ p c, a = .lib p ∧ Uthread.step s.core (.run p) = some c ∧
      t = { s with core := c, joined := s.joinedAfter p }) ∨
    ∃ p, a = .own p ∧ (s.core.proc p).pc = .user ∧
      Own cfg s p (s.code (s.core.proc p).thread) t := by
  cases a with
  | lib p =>
    obtain ⟨c, hc, rfl⟩ := Option.map_eq_some_iff.mp h
    exact .inl ⟨p, c, rfl, hc, rfl⟩
  | own p =>
    obtain ⟨hpc, h⟩ := Option.ite_none_right_eq_some.mp h
    exact .inr ⟨p, rfl, hpc, own_of_exec h⟩

/-- A step of a thread in its own code leaves the thread system alone, or makes a call. -/
lemma Own.core_cases {p : Fin N} (h : Own cfg s p (s.code (s.core.proc p).thread) t) :
    coreActs s (.own p) = [] ∧ t.core = s.core ∨
    ∃ op, coreActs s (.own p) = [.call p op] ∧
      Uthread.step s.core (.call p op) = some t.core ∧
      (op = .yield ∧ s.code (s.core.proc p).thread = .base ∨
        (∃ k, op = .create ∧ s.code (s.core.proc p).thread = .main (.create k)) ∨
        (∃ k, op = .join (s.thread k) ∧ s.code (s.core.proc p).thread = .main (.join k)) ∨
        ∃ pr x w, op = .ret w ∧ s.code (s.core.proc p).thread = .worker pr x (.ret w)) := by
  simp only [coreActs]
  generalize s.code (s.core.proc p).thread = c at h
  cases h with
  | yield c hc => exact .inr ⟨_, rfl, hc, .inl ⟨rfl, rfl⟩⟩
  | create k c hc => exact .inr ⟨_, rfl, hc, .inr (.inl ⟨k, rfl, rfl⟩)⟩
  | join k c hc => exact .inr ⟨_, rfl, hc, .inr (.inr (.inl ⟨k, rfl, rfl⟩))⟩
  | ret pr x w c hc => exact .inr ⟨_, rfl, hc, .inr (.inr (.inr ⟨pr, x, w, rfl, rfl⟩))⟩
  | argFault pr x result pt hx hpt =>
    rcases hpt with rfl | ⟨y, rfl⟩ <;> exact .inl ⟨rfl, rfl⟩
  | _ => exact .inl ⟨rfl, rfl⟩

/-- What the calls of `uthread_join` have returned is not changed by a thread's own code. -/
lemma Own.joined {p : Fin N} {c : Code} (h : Own cfg s p c t) : t.joined = s.joined := by
  cases h <;> rfl

/-- **The thread system makes the steps** that a step of a thread's own code stands for. -/
lemma Own.core_run {p : Fin N} (h : Own cfg s p (s.code (s.core.proc p).thread) t) :
    run Uthread.step s.core (coreActs s (.own p)) = some t.core := by
  rcases h.core_cases with ⟨e, hcore⟩ | ⟨op, e, hc, -⟩
  · simp [e, hcore]
  · simp [e, hc]

/-- Only the thread on the processor gets the value that a call returns. -/
lemma joinedAfter_of_ne {p : Fin N} {u : Tid} (hu : u ≠ (s.core.proc p).thread) :
    s.joinedAfter p u = s.joined u := by
  unfold Sys.joinedAfter
  cases (s.core.proc p).pc <;> first | rfl | exact Function.update_of_ne hu ..

/-! ## The invariant -/

/-- The threads that are joined. -/
def Joinable (N : ℕ) (u : Tid) : Prop := N < u

/-- `main` is in its call of `uthread_join` of thread number `k`, or the call has returned the
address of the result. -/
def Awaits (cfg : Config) (s : Sys N) (k : Fin 4) : Prop :=
  InCall s.core 0 (fun pc => pc.op = some (.join (N + 1 + k))) (.join (N + 1 + k)) ∨
  ∃ p w, s.core.proc p = ⟨0, .user⟩ ∧ s.joined 0 = some w ∧ s.heap w = some (.int (value cfg k))

/-- A step that leaves the thread system alone leaves the call alone. -/
lemma Awaits.of_core {k : Fin 4} (h : Awaits cfg s k) (hcore : t.core = s.core)
    (hjoined : t.joined = s.joined) (hext : Extends s t) : Awaits cfg t k := by
  rcases h with h | ⟨p, w, hp, hw, hheap⟩
  · exact .inl (hcore ▸ h)
  · exact .inr ⟨p, w, hcore ▸ hp, hjoined ▸ hw, hext _ _ hheap⟩

/-- **The invariant along a run** of the actions `acts`, which stand for the steps `core` of the
thread system. -/
structure Good (cfg : Config) (core : List (Uthread.Act N)) (m : Main) (s : Sys N) : Prop where
  run : run Uthread.step (Uthread.init N) core = some s.core
  permits : AllSteps Uthread.step (Permits (ForkJoin (Joinable N))) (Uthread.init N) core
  early : AllSteps Uthread.step (fun s a => ¬ FreesLocked s a) (Uthread.init N) core
  /-- The handles have been used in the order of the threads. -/
  handles : core.filterMap Uthread.Act.handle = (List.range m.joins).map (N + 1 + ·)
  heap : Heap s
  shape : At cfg m s
  /-- What a thread has returned is the address of its result. -/
  results : ∀ k : Fin 4, ∀ w, (s.core.tcb (N + 1 + k)).returnVal = some w →
    s.heap w = some (.int (value cfg k))
  awaits : ∀ k, m = .load k → Awaits cfg s k

/-- A thread in a call of `uthread_join` stays in it until it stops there or the call returns. -/
lemma join_next {s t : State N} {a : Uthread.Act N} (h : Trans s a t) {T : Tid}
    (hop : (s.proc a.proc).pc.op = some (.join T)) :
    ((t.proc a.proc).thread = (s.proc a.proc).thread ∧ (t.proc a.proc).pc.op = some (.join T)) ∨
    (∃ v, (s.proc a.proc).pc = .switchSwap (.join T) v) ∨
    (∃ b v, (s.proc a.proc).pc = .joinReturn b T v ∧
      t.proc a.proc = ⟨(s.proc a.proc).thread, .user⟩) ∨
    (∃ c, (s.proc a.proc).pc = .stopDequeue c ∧ s.readyQueue = []) ∨
    (∃ c, (s.proc a.proc).pc.frame = some (.inside c) ∧
      (s.tcb (s.proc a.proc).thread).state = .nascent) := by
  have hsite : ∀ c : Site, c.op = some (.join T) → c = .join T := by
    rintro (_ | _ | _ | _) hc <;> simp_all [Site.op]
  have hret : ∀ c : Site, c.op = some (.join T) → c.return.op = some (.join T) := fun c hc => by
    rw [hsite c hc]
    rfl
  have hframe : ∀ f : Frame, f.op = some (.join T) → ∃ c, f = .inside c := by
    rintro (_ | _ | c) hf <;> simp_all [Frame.op]
  have hstart : ∀ r : Starter, r.op = some (.join T) → r.return.op = some (.join T) := by
    rintro (_ | _) hr <;> simp_all [Starter.op, Starter.return, Pc.op]
  cases h <;> grind

/-- The first step of a call of `uthread_join`. -/
lemma proc_of_join {s t : State N} {p : Fin N} {T : Tid} (h : Trans s (.call p (.join T)) t) :
    t.proc p = ⟨(s.proc p).thread, .joinTest T⟩ := by
  cases h
  simp

namespace Good

variable {core : List (Uthread.Act N)} (h : Good cfg core m s) (hN : 0 < N)

include h

/-- Every handle is used once. -/
lemma nodup : (core.filterMap Uthread.Act.handle).Nodup := by
  rw [h.handles]
  exact List.nodup_range.map fun i j hij => Nat.add_left_cancel hij

include hN

/-- No joiner is woken up twice, and no block is freed too early. -/
lemma kept : AllSteps Uthread.step (fun s a => ¬ Rewakes (fun _ => True) s a ∧ ¬ FreesLocked s a)
    (Uthread.init N) core :=
  allSteps_and (not_rewakes_of_forkJoin hN h.permits) h.early

/-- The invariants of the thread system. -/
lemma inv : Inv (fun _ => True) s.core :=
  (lifetime_of_run hN h.nodup (h.kept hN) h.run).1

/-- What a call of `uthread_join` is about to return is the address of a result. -/
lemma joinReturn {p : Fin N} {b : Bool} {k : Fin 4} {v : Value}
    (hpc : (s.core.proc p).pc = .joinReturn b (N + 1 + k) v) :
    ∃ w, v = some w ∧ s.heap w = some (.int (value cfg k)) := by
  obtain ⟨e, hx⟩ := joinReturn_eq_returnVal hN h.nodup (h.kept hN) h.run hpc
  obtain ⟨w, hw⟩ := Option.ne_none_iff_exists'.mp
    ((lifetime_of_run hN h.nodup (h.kept hN) h.run).2.2.exited _ hx)
  exact ⟨w, e.trans hw, h.results k w hw⟩

/-- A thread that executes its own code is in no call. -/
lemma int?_of_awaits {p : Fin N} {k : Fin 4} (hp : s.core.proc p = ⟨0, .user⟩)
    (hk : Awaits cfg s k) : s.int? (s.joined 0) = some (value cfg k) := by
  rcases hk with (⟨q, hq, hop⟩ | ⟨hoff, -⟩) | ⟨q, w, -, hw, hheap⟩
  · obtain rfl := (h.inv hN).owned.alone q p trivial (by rw [hq, hp])
    rw [hp] at hop
    cases hop
  · exact absurd (by rw [hp]) (hoff p)
  · simp [Sys.int?, hw, hheap]

/-- `main` is followed through its call of `uthread_join`. -/
lemma awaits_step {b : Uthread.Act N} {k : Fin 4} (hk : Awaits cfg s k)
    (ht : Uthread.step s.core b = some t.core) (hext : Extends s t)
    (huser : (s.core.proc b.proc).thread = 0 → (s.core.proc b.proc).pc ≠ .user)
    (hjoined : ∀ q T v, (s.core.proc b.proc).pc = .joinReturn q T v →
      t.joined (s.core.proc b.proc).thread = v)
    (hother : (s.core.proc b.proc).thread ≠ 0 → t.joined 0 = s.joined 0) : Awaits cfg t k := by
  have hi := h.inv hN
  have hsaved := saved_of_run hN h.run
  have ht := trans_of_step ht
  rcases hk with hk | ⟨p, w, hp, hw, hheap⟩
  · have hnext := InCall.step (t := t.core) (R := ∃ p w, t.core.proc p = ⟨0, .user⟩ ∧
      t.joined 0 = some w ∧ t.heap w = some (.int (value cfg k))) hi.allocated hi.owned
      trivial ht (fun hu hop => ?_) (fun _ => rfl) hk
    · exact hnext
    · rcases join_next ht hop with ⟨e, hop⟩ | hv | ⟨q, v, hpc, e⟩ | ⟨c, hpc, hnil⟩ | ⟨c, hf, hn⟩
      · exact .inl ⟨e.trans hu, hop⟩
      · exact .inr (.inl hv)
      · obtain ⟨w, rfl, hheap⟩ := h.joinReturn hN hpc
        refine .inr (.inr ⟨b.proc, w, by rw [e, hu], ?_, hext _ _ hheap⟩)
        rw [← hu]
        exact hjoined q _ _ hpc
      · exact absurd hnil (hi.idle.readyQueue_ne_nil hpc)
      · exact absurd hn (hsaved.frame _ c hf)
  · have hne : p ≠ b.proc := by
      rintro rfl
      exact huser (by rw [hp]) (by rw [hp])
    refine .inr ⟨p, w, by rw [ht.proc_of_ne hne, hp], ?_, hext _ _ hheap⟩
    rw [hother fun e => hne (hi.owned.alone p b.proc trivial (by rw [hp, e])), hw]

/-! ### Steps inside `uthread.c` -/

section Lib

variable {p : Fin N} {c : State N} (hc : Uthread.step s.core (.run p) = some c)

include hc

omit hN in
/-- No thread is created. -/
lemma shape_lib : At cfg m { s with core := c, joined := s.joinedAfter p } := by
  have hf : c.fresh = s.core.fresh := (trans_of_step hc).fresh_eq (by simp [Act.begins])
  have hs := h.shape
  exact
    { code := hs.code
      fresh := hf.trans hs.fresh
      thread := hs.thread
      filled := hs.filled
      loaded := hs.loaded
      output := hs.output
      base := fun u hu hb => hs.base u hu (hf ▸ hb)
      worker := hs.worker }

omit hN in
/-- No thread returns from its procedure. -/
lemma results_lib (k : Fin 4) (w : ℕ) (hw : (c.tcb (N + 1 + k)).returnVal = some w) :
    s.heap w = some (.int (value cfg k)) := by
  rcases (trans_of_step hc).returnVal_cases (N + 1 + k) with ⟨e, -⟩ | ⟨-, e, -⟩ | ⟨⟨v, hv, -⟩, -⟩
  · exact h.results k w (e ▸ hw)
  · simp [e] at hw
  · cases hv.1

lemma awaits_lib (k : Fin 4) (hk : Awaits cfg s k) :
    Awaits cfg { s with core := c, joined := s.joinedAfter p } k := by
  have hpc : (s.core.proc p).pc ≠ .user := by
    intro e
    simp [Uthread.step, Uthread.exec, e] at hc
  refine h.awaits_step hN hk (b := .run p) hc (fun _ _ e => e) (fun _ => hpc) ?_ fun hne => ?_
  · intro q T v e
    have e : (s.core.proc p).pc = .joinReturn q T v := e
    simp [Sys.joinedAfter, e]
  · exact joinedAfter_of_ne (Ne.symm hne)

/-- A step inside `uthread.c` keeps the invariant. -/
lemma step_lib (hC : ¬ FreesEarly s (.lib p)) :
    Good cfg (core ++ [.run p]) m { s with core := c, joined := s.joinedAfter p } where
  run := run_concat.mpr ⟨_, h.run, hc⟩
  permits := allSteps_concat.mpr ⟨h.permits, fun _ _ _ hop => by simp [Act.begins] at hop⟩
  early := by
    refine allSteps_concat.mpr ⟨h.early, fun u hu hfree => hC ⟨_, List.mem_singleton.mpr rfl, ?_⟩⟩
    rw [h.run] at hu
    exact Option.some.inj hu ▸ hfree
  handles := by
    rw [List.filterMap_append, h.handles]
    simp [Uthread.Act.handle]
  heap := ⟨h.heap.unused, h.heap.pending, h.heap.apart⟩
  shape := h.shape_lib hc
  results := h.results_lib hc
  awaits k hk := h.awaits_lib hN hc k (h.awaits k hk)

end Lib

/-! ### Steps of a thread in its own code -/

section Own

variable {p : Fin N} (hpc : (s.core.proc p).pc = .user)
  (hown : Own cfg s p (s.code (s.core.proc p).thread) t)

include hown

omit hN in
/-- The steps of the thread system that a thread's own code makes are permitted: the threads that
are joined only return. -/
lemma permits_own (hlt : (s.core.proc p).thread < s.core.fresh) :
    AllSteps Uthread.step (Permits (ForkJoin (Joinable N))) s.core (coreActs s (.own p)) := by
  rcases hown.core_cases with ⟨e, -⟩ | ⟨op, e, -, hop⟩
  · rw [e]
    trivial
  · rw [e]
    refine ⟨fun op' hop' => ?_, fun _ _ => trivial⟩
    obtain rfl : op = op' := by simpa [Act.begins] using hop'
    show ForkJoin _ (s.core.proc p).thread op
    rcases hop with ⟨rfl, hb⟩ | ⟨k, rfl, -⟩ | ⟨k, rfl, hm⟩ | ⟨pr, x, w, rfl, -⟩
    · rcases h.shape.thread_cases hlt with h0 | ⟨-, hle, -⟩ | ⟨k, hk, hu⟩
      · simp [h0, h.shape.code] at hb
      · exact Nat.not_lt.mpr hle
      · obtain ⟨pt, hw, -⟩ := h.shape.worker k hk
        simp [hu, hw] at hb
    · trivial
    · obtain ⟨h0, rfl⟩ := h.shape.eq_zero_of_main hlt hm
      rw [h0, h.shape.thread k (Main.next_join k).2.2.1]
      exact ⟨by simp only [Joinable]; omega, by simp [Joinable]⟩
    · trivial

omit hN in
/-- A thread returns the address of its result. -/
lemma results_own (hlt : (s.core.proc p).thread < s.core.fresh) (hext : Extends s t) (k : Fin 4)
    (w : ℕ) (hw : (t.core.tcb (N + 1 + k)).returnVal = some w) :
    t.heap w = some (.int (value cfg k)) := by
  refine hext _ _ ?_
  rcases hown.core_cases with ⟨-, e⟩ | ⟨op, -, hc, hop⟩
  · exact h.results k w (e ▸ hw)
  · rcases (trans_of_step hc).returnVal_cases (N + 1 + k) with ⟨e, -⟩ | ⟨-, e, -⟩ |
      ⟨⟨v, ⟨hv, hth⟩, e⟩, -⟩
    · exact h.results k w (e ▸ hw)
    · simp [e] at hw
    · obtain rfl : v = w := Option.some.inj (e.symm.trans hw)
      obtain rfl : op = .ret v := by
        simp only [Uthread.Act.proc_call, Uthread.Act.call.injEq, true_and] at hv
        exact hv
      have hth : (s.core.proc p).thread = N + 1 + k := hth
      simp only [reduceCtorEq, false_and, exists_false, false_or, Op.ret.injEq] at hop
      obtain ⟨pr, x, w', rfl, hcode⟩ := hop
      have hk : k < m.created := by
        have := h.shape.fresh
        grind
      obtain ⟨pt, hcode', hok⟩ := h.shape.worker k hk
      rw [hth, hcode'] at hcode
      cases hcode
      exact hok

include hpc

omit hown in
/-- When `main` is to load a result, the result is there. -/
lemma int?_load (hu : (s.core.proc p).thread = 0) (k : Fin 4) (hk : m = .load k) :
    s.int? (s.joined 0) = some (value cfg k) :=
  h.int?_of_awaits hN (p := p) (by rw [← hu, ← hpc]) (h.awaits k hk)

omit hN hpc hown in
/-- The handles that `main` has used when its next step is made. -/
lemma handles_main (hown : Own cfg s p (s.code (s.core.proc p).thread) t)
    (hu : (s.core.proc p).thread = 0) :
    (core ++ coreActs s (.own p)).filterMap Uthread.Act.handle =
      (List.range m.next.joins).map (N + 1 + ·) := by
  have hcode := h.shape.code
  rw [List.filterMap_append, h.handles]
  rw [hu, hcode] at hown
  simp only [coreActs, hu, hcode]
  cases hown with
  | fill k => simp [(Main.next_malloc k).2.2.2.1]
  | create k => simp [(Main.next_create k).2.2.2.2.1, Uthread.Act.handle]
  | join k =>
    obtain ⟨hj, hj', hk, -⟩ := Main.next_join k
    simp [Main.next, hj, hj', h.shape.thread k hk, List.range_succ, Uthread.Act.handle]
  | load k | loadFault k => simp [(Main.next_load k).2.2.2.2.1]
  | printf => rfl

/-- **A step of a thread in its own code** keeps the invariant. -/
lemma step_own : ∃ m', Good cfg (core ++ coreActs s (.own p)) m' t := by
  have hi := h.inv hN
  have hlt := hi.allocated.thread p
  have hext := hown.extends h.heap
  have hearly : AllSteps Uthread.step (fun s a => ¬ FreesLocked s a) s.core
      (coreActs s (.own p)) := by
    rcases hown.core_cases with ⟨e, -⟩ | ⟨op, e, -⟩
    · rw [e]
      trivial
    · rw [e]
      refine ⟨fun ⟨T, hT, _⟩ => ?_, fun _ _ => trivial⟩
      simp [hpc, Pc.freesWoken] at hT
  have hrun : ∀ u, Runs.run Uthread.step (Uthread.init N) core = some u → u = s.core :=
    fun u hu => (Option.some.inj (h.run.symm.trans hu)).symm
  have good : ∀ m', At cfg m' t → (core ++ coreActs s (.own p)).filterMap Uthread.Act.handle =
      (List.range m'.joins).map (N + 1 + ·) → (∀ k, m' = .load k → Awaits cfg t k) →
      Good cfg (core ++ coreActs s (.own p)) m' t := fun m' hshape hhandles hawaits =>
    { run := by rw [run_append, h.run]; exact hown.core_run
      permits := allSteps_append.mpr
        ⟨h.permits, fun u hu => hrun u hu ▸ h.permits_own hown hlt⟩
      early := allSteps_append.mpr ⟨h.early, fun u hu => hrun u hu ▸ hearly⟩
      handles := hhandles
      heap := h.heap.step hown
      shape := hshape
      results := h.results_own hown hlt hext
      awaits := hawaits }
  by_cases hu : (s.core.proc p).thread = 0
  · refine ⟨m.next, good _ (h.shape.step_main h.heap hu (h.int?_load hN hpc hu) hown)
      (h.handles_main hown hu) fun k hk => ?_⟩
    -- `main` has just called `uthread_join`
    obtain rfl := Main.eq_join_of_next hk
    obtain ⟨-, -, hkc, -⟩ := Main.next_join k
    rw [hu, h.shape.code] at hown
    cases hown with
    | join _ c hc =>
      have hp := proc_of_join (trans_of_step hc)
      rw [hu, h.shape.thread k hkc] at hp
      exact .inl (.inl ⟨p, by rw [hp], by rw [hp]; rfl⟩)
  · refine ⟨m, good _ (h.shape.step_thread h.heap hu hlt hown) ?_ fun k hk => ?_⟩
    · rw [List.filterMap_append, h.handles]
      rcases hown.core_cases with ⟨e, -⟩ | ⟨op, e, -, hop⟩
      · simp [e]
      · rcases hop with ⟨rfl, -⟩ | ⟨k, rfl, -⟩ | ⟨k, rfl, hm⟩ | ⟨pr, x, w, rfl, -⟩
        · simp [e, Uthread.Act.handle]
        · simp [e, Uthread.Act.handle]
        · exact absurd (h.shape.eq_zero_of_main hlt hm).1 hu
        · simp [e, Uthread.Act.handle]
    · rcases hown.core_cases with ⟨-, hcore⟩ | ⟨op, -, hc, -⟩
      · exact (h.awaits k hk).of_core hcore hown.joined hext
      · refine h.awaits_step hN (h.awaits k hk) hc hext (fun e => absurd e hu) (fun q T v e => ?_)
          fun _ => congrFun hown.joined 0
        exact absurd (hpc.symm.trans e) (by simp)

end Own

end Good

/-- At the start nothing has been done. -/
lemma good_init : Good cfg [] (.malloc 0) (init N) where
  run := rfl
  permits := trivial
  early := trivial
  handles := rfl
  heap := heap_init
  shape := at_init
  results k w hw := by
    have hv : ∀ T, ((Uthread.init N).tcb T).returnVal = none := fun T => by
      simp only [Uthread.init, initTcb]
      grind [uthreadAlloc, uthreadNewThread]
    have hw : ((Uthread.init N).tcb (N + 1 + k)).returnVal = some w := hw
    simp [hv] at hw
  awaits k hk := by cases hk

/-! ## Runs -/

/-- The invariant along a run. -/
lemma good_of_run (hN : 0 < N) {acts : List (Act N)}
    (hC : AllSteps (step cfg) (fun s a => ¬ FreesEarly s a) (init N) acts)
    (h : run (step cfg) (init N) acts = some s) :
    ∃ m, Good cfg (trace (step cfg) coreActs (init N) acts) m s := by
  refine induct_of_allSteps (motive := fun acts s =>
    ∃ m, Good cfg (trace (step cfg) coreActs (init N) acts) m s) ⟨_, good_init⟩ ?_ hC h
  rintro as a t u ht ⟨m, hgood⟩ hC hu
  rw [trace_concat ht]
  rcases step_cases hu with ⟨p, c, rfl, hc, rfl⟩ | ⟨p, rfl, hpc, hown⟩
  · exact ⟨m, hgood.step_lib hN hc hC⟩
  · exact hgood.step_own hN hpc hown

/-- **The program is correct** in every state of every run on `N` processors in which no block is
freed under the hands of an exit. -/
theorem correct_of_run (hN : 0 < N) (acts : List (Act N))
    (hC : AllSteps (step cfg) (fun s a => ¬ FreesEarly s a) (init N) acts) :
    Throughout (step cfg) (Correct cfg) (init N) acts := by
  rintro pre suf rfl s hs
  obtain ⟨m, h⟩ := good_of_run hN hC.left hs
  have hshape := h.shape
  have hout := hshape.output
  refine ⟨fun u => ?_, ?_, fun hdone => ?_⟩
  · by_cases hu : u < s.core.fresh
    · rcases hshape.thread_cases hu with rfl | ⟨-, -, hb⟩ | ⟨k, hk, rfl⟩
      · simp [hshape.code]
      · simp [hb]
      · obtain ⟨pt, hw, -⟩ := hshape.worker k hk
        simp [hw]
    · have h0 : u ≠ 0 := by
        rintro rfl
        exact hu (by rw [hshape.fresh]; exact Nat.lt_add_right _ (Nat.succ_pos N))
      simp [hshape.base u h0 (.inr (Nat.not_lt.mp hu))]
  · split_ifs at hout
    · exact .inr hout
    · exact .inl hout
  · rw [hshape.code] at hdone
    rw [hout, if_pos (Code.main.inj hdone)]
    rfl

/-- The actions of the processors when they take turns in the order `ps`. -/
def turns (cfg : Config) : List (Fin N) → Sys N → List (Act N)
  | [], _ => []
  | p :: ps, s =>
    let a : Act N := if (s.core.proc p).pc = .user then .own p else .lib p
    a :: (step cfg s a).elim [] (turns cfg ps)

/-- The constants of the program. -/
def constants : Config := ⟨⟨1, 2⟩, ⟨3, 4⟩, 7⟩

/-- The program on two processors, of which one does not move. -/
def alone : List (Act 2) := turns constants (List.replicate 173 0) (init 2)

theorem correct_alone :
    (run (step constants) (init 2) alone).map (·.output) = some [3] ∧
      Throughout (step constants) (Correct constants) (init 2) alone :=
  ⟨by decide +kernel, correct_of_run (by decide) alone (by decide +kernel)⟩

end PingPong
