import Cs213.Uthread.Monitor

set_option relaxedAutoImplicit false
set_option autoImplicit false

/-!
# Critical sections

A thread is in the critical section of a monitor from the return of `uthread_monitor_enter` to its
next call of `uthread_monitor_exit`. The number of these returns and calls says who holds the
monitor, and so that at most one thread is inside, and which calls pass the check of the holder. A
thread that enters a monitor twice waits for itself.

## Main definitions

* `Uthread.Enters`, `Uthread.Leaves`, `Uthread.Fails` — the events that are counted.
* `Uthread.SectionLaw` — what the counts say.
* `Uthread.Balanced` — the holder from the counts.
* `Uthread.Reenters` — a thread waits for a monitor that it holds.

## Main results

* `Uthread.Balanced.step` — one step.
* `Uthread.sectionLaw_of_run` — every run.
* `Uthread.reenters_of_run` — a thread that waits for itself does so for ever.
-/

namespace Uthread

open Runs

variable {N : ℕ} {s t : State N} {a : Act N} {m : Mid} {u : Tid}

/-! ## Events -/

/-- A call of `uthread_monitor_enter` by `u` returns. -/
def Enters (m : Mid) (u : Tid) (s : State N) (a : Act N) : Prop :=
  (s.proc a.proc).thread = u ∧ (s.proc a.proc).pc = .enterUnlock m

/-- Thread `u` calls `uthread_monitor_exit`. -/
def Leaves (m : Mid) (u : Tid) (s : State N) (a : Act N) : Prop :=
  (s.proc a.proc).thread = u ∧ a.begins = some (.exit m)

/-- The check of the holder fails in a call by `u`. -/
def Fails (m : Mid) (u : Tid) (s : State N) (a : Act N) : Prop :=
  (s.proc a.proc).thread = u ∧ (s.proc a.proc).pc = .exitLock m ∧ (s.monitor m).holder ≠ some u

instance (s : State N) (a : Act N) : Decidable (Enters m u s a) :=
  inferInstanceAs (Decidable (_ ∧ _))

instance (s : State N) (a : Act N) : Decidable (Leaves m u s a) :=
  inferInstanceAs (Decidable (_ ∧ _))

instance (s : State N) (a : Act N) : Decidable (Fails m u s a) :=
  inferInstanceAs (Decidable (_ ∧ _))

/-- The monitor that a processor has taken, and is about to return with from
`uthread_monitor_enter`, or is about to check the holder of, in `uthread_monitor_exit`. -/
@[grind] def Pc.gate : Pc → Option Mid
  | .enterUnlock m | .exitLock m => some m
  | _ => none

@[simp, grind =] lemma Site.gate_return (c : Site) : c.return.gate = none := by
  cases c <;> rfl

@[simp, grind =] lemma Starter.gate_return (r : Starter) : r.return.gate = none := by
  cases r <;> rfl

/-- **The steps that the counts depend on**: a thread takes a monitor, returns with it, calls
`uthread_monitor_exit`, passes the check, or fails it. -/
lemma Trans.gate_cases (h : Trans s a t) (m : Mid) :
    ((s.proc a.proc).pc.gate ≠ some m ∧ a.begins ≠ some (.exit m) ∧
      (s.monitor m).holder = none ∧ (t.monitor m).holder = some (s.proc a.proc).thread ∧
      t.proc a.proc = ⟨(s.proc a.proc).thread, .enterUnlock m⟩) ∨
    ((s.proc a.proc).pc = .enterUnlock m ∧ a.begins ≠ some (.exit m) ∧
      (t.monitor m).holder = (s.monitor m).holder ∧
      t.proc a.proc = ⟨(s.proc a.proc).thread, .user⟩) ∨
    ((s.proc a.proc).pc = .user ∧ a.begins = some (.exit m) ∧
      (t.monitor m).holder = (s.monitor m).holder ∧
      t.proc a.proc = ⟨(s.proc a.proc).thread, .exitLock m⟩) ∨
    ((s.proc a.proc).pc = .exitLock m ∧ a.begins ≠ some (.exit m) ∧
      (s.monitor m).holder = some (s.proc a.proc).thread ∧ (t.monitor m).holder = none ∧
      (t.proc a.proc).pc.gate = none) ∨
    ((s.proc a.proc).pc = .exitLock m ∧ a.begins ≠ some (.exit m) ∧
      (s.monitor m).holder ≠ some (s.proc a.proc).thread ∧
      (t.monitor m).holder = (s.monitor m).holder ∧
      t.proc a.proc = ⟨(s.proc a.proc).thread, .aborted .holder⟩) ∨
    ((s.proc a.proc).pc.gate ≠ some m ∧ a.begins ≠ some (.exit m) ∧
      (t.monitor m).holder = (s.monitor m).holder ∧ (t.proc a.proc).pc.gate ≠ some m) := by
  cases h <;> grind

/-- After a failed assertion there are no steps. -/
lemma Trans.ne_aborted (h : Trans s a t) (x : Assertion) : (s.proc a.proc).pc ≠ .aborted x := by
  cases h <;> grind

/-- The first step of a call of `uthread_monitor_enter` leaves the holders as they are. -/
lemma Trans.holder_of_enter {p : Fin N} (h : Trans s (.call p (.enter m)) t) (k : Mid) :
    (t.monitor k).holder = (s.monitor k).holder := by
  cases h
  rfl

/-! ## The balance -/

/-- Thread `u` has taken `m` and has not returned with it, or has called `uthread_monitor_exit` and
has not been checked. -/
def AtGate (s : State N) (m : Mid) (u : Tid) : Prop :=
  ∃ p, (s.proc p).thread = u ∧ (s.proc p).pc.gate = some m

instance (s : State N) : Decidable (AtGate s m u) :=
  inferInstanceAs (Decidable (∃ _, _))

/-- **The holder of a monitor from the counts.** -/
structure Balanced (acts : List (Act N)) (s : State N) : Prop where
  balance : ∀ m u, count step (Leaves m u) (init N) acts +
      (if (s.monitor m).holder = some u then 1 else 0) =
    count step (Enters m u) (init N) acts + (if AtGate s m u then 1 else 0) +
      count step (Fails m u) (init N) acts
  /-- A thread whose check has failed does not go on. -/
  failed : ∀ m u, 0 < count step (Fails m u) (init N) acts →
    ∃ p, s.proc p = ⟨u, .aborted .holder⟩

section Step

variable (ho : Owned (fun _ => True) s) (ht : Trans s a t)

include ht

/-- A step of another thread changes nothing that concerns `u`. -/
lemma Trans.atGate_iff_of_ne (hu : (s.proc a.proc).thread ≠ u) :
    ((t.monitor m).holder = some u ↔ (s.monitor m).holder = some u) ∧
      (AtGate t m u ↔ AtGate s m u) := by
  have hgate : ¬ ((t.proc a.proc).thread = u ∧ (t.proc a.proc).pc.gate = some m) := by
    rintro ⟨hu', hg⟩
    rcases ht.gate_cases m with ⟨-, -, -, -, e⟩ | ⟨-, -, -, e⟩ | ⟨-, -, -, e⟩ | ⟨-, -, -, -, e⟩ |
      ⟨-, -, -, -, e⟩ | ⟨-, -, -, e⟩
    · exact hu (by rw [← hu', e])
    · simp [e, Pc.gate] at hg
    · exact hu (by rw [← hu', e])
    · simp [e] at hg
    · simp [e, Pc.gate] at hg
    · exact e hg
  constructor
  · rcases ht.gate_cases m with ⟨-, -, e, e', -⟩ | ⟨-, -, e, -⟩ | ⟨-, -, e, -⟩ | ⟨-, -, e, e', -⟩ |
      ⟨-, -, -, e, -⟩ | ⟨-, -, e, -⟩
    · simp [e, e', hu]
    · rw [e]
    · rw [e]
    · simp [e, e', hu]
    · rw [e]
    · rw [e]
  · constructor
    · rintro ⟨p, hp⟩
      by_cases hpa : p = a.proc
      · exact absurd (hpa ▸ hp) hgate
      · exact ⟨p, ht.proc_of_ne hpa ▸ hp⟩
    · rintro ⟨p, hp, hg⟩
      have hpa : p ≠ a.proc := by
        rintro rfl
        exact hu hp
      exact ⟨p, by rw [ht.proc_of_ne hpa]; exact ⟨hp, hg⟩⟩

omit ht in
include ho in
/-- The thread that makes a step is at the gate where its processor is. -/
lemma Owned.atGate_iff {q : Fin N} (hu : (s.proc q).thread = u) :
    AtGate s m u ↔ (s.proc q).pc.gate = some m := by
  constructor
  · rintro ⟨p, hp, hg⟩
    exact ho.alone p q trivial (hp.trans hu.symm) ▸ hg
  · exact fun hg => ⟨q, hu, hg⟩

include ho in
lemma Trans.atGate_iff (hu : (s.proc a.proc).thread = u) :
    AtGate t m u ↔ (t.proc a.proc).thread = u ∧ (t.proc a.proc).pc.gate = some m := by
  constructor
  · rintro ⟨p, hp, hg⟩
    by_cases hpa : p = a.proc
    · exact hpa ▸ ⟨hp, hg⟩
    · rw [ht.proc_of_ne hpa] at hp
      exact absurd (ho.alone p a.proc trivial (hp.trans hu.symm)) hpa
  · exact fun hg => ⟨_, hg⟩

include ho in
/-- **The balance is kept** by every step. -/
lemma Balanced.step {acts : List (Act N)} (h : Balanced acts s)
    (hr : run step (init N) acts = some s) : Balanced (acts ++ [a]) t where
  balance m u := by
    have hb := h.balance m u
    rw [count_concat hr, count_concat hr, count_concat hr]
    by_cases hu : (s.proc a.proc).thread = u
    · subst hu
      have hG := ho.atGate_iff (q := a.proc) (m := m) rfl
      have hG' := ht.atGate_iff ho (m := m) rfl
      rcases ht.gate_cases m with ⟨hg, hn, e, e', hp⟩ | ⟨hpc, hn, e, hp⟩ | ⟨hpc, hn, e, hp⟩ |
        ⟨hpc, hn, e, e', hp⟩ | ⟨hpc, hn, e, e', hp⟩ | ⟨hg, hn, e, hp⟩
      · have hE : (s.proc a.proc).pc ≠ .enterUnlock m := fun hpc => hg (by rw [hpc, Pc.gate])
        have hF : (s.proc a.proc).pc ≠ .exitLock m := fun hpc => hg (by rw [hpc, Pc.gate])
        simp only [hG, hg, e] at hb
        simp only [Leaves, Enters, Fails, hn, hE, hF, hG', hp, e', Pc.gate]
        simp at hb ⊢
        omega
      · simp only [hG, hpc, Pc.gate] at hb
        simp only [Leaves, Enters, Fails, hn, hpc, hG', hp, e, Pc.gate]
        simp at hb ⊢
        omega
      · simp only [hG, hpc, Pc.gate] at hb
        simp only [Leaves, Enters, Fails, hn, hpc, hG', hp, e, Pc.gate]
        simp at hb ⊢
        omega
      · simp only [hG, hpc, Pc.gate, e] at hb
        simp only [Leaves, Enters, Fails, hn, hpc, hG', hp, e, e']
        simp at hb ⊢
        omega
      · simp only [hG, hpc, Pc.gate, e] at hb
        simp only [Leaves, Enters, Fails, hn, hpc, hG', hp, e', Pc.gate]
        simp [e] at hb ⊢
        omega
      · have hE : (s.proc a.proc).pc ≠ .enterUnlock m := fun hpc => hg (by rw [hpc, Pc.gate])
        have hF : (s.proc a.proc).pc ≠ .exitLock m := fun hpc => hg (by rw [hpc, Pc.gate])
        simp only [hG, hg] at hb
        simp only [Leaves, Enters, Fails, hn, hE, hF, hG', hp, e]
        simpa using hb
    · obtain ⟨e, e'⟩ := ht.atGate_iff_of_ne (m := m) hu
      simp only [Leaves, Enters, Fails, e, e', hu, false_and, if_false, Nat.add_zero]
      exact hb
  failed m u hf := by
    rw [count_concat hr] at hf
    by_cases hF : Fails m u s a
    · obtain ⟨rfl, hpc, hh⟩ := hF
      refine ⟨a.proc, ?_⟩
      rcases ht.gate_cases m with ⟨hg, -⟩ | ⟨hpc', -⟩ | ⟨hpc', -⟩ | ⟨-, -, e, -⟩ |
        ⟨-, -, -, -, hp⟩ | ⟨hg, -⟩
      · simp [hpc, Pc.gate] at hg
      · simp [hpc] at hpc'
      · simp [hpc] at hpc'
      · exact absurd e hh
      · exact hp
      · simp [hpc, Pc.gate] at hg
    · rw [if_neg hF, Nat.add_zero] at hf
      obtain ⟨p, hp⟩ := h.failed m u hf
      have hpa : p ≠ a.proc := by
        rintro rfl
        exact ht.ne_aborted .holder (by rw [hp])
      exact ⟨p, by rw [ht.proc_of_ne hpa, hp]⟩

end Step

lemma balanced_init : Balanced [] (init N) where
  balance m u := by
    have hgate : ¬ AtGate (init N) m u := by
      rintro ⟨p, -, hp⟩
      simp [init, Pc.gate] at hp
    rw [if_neg hgate, if_neg (by simp [init, uthreadMonitorCreate])]
    rfl
  failed m u h := absurd h (Nat.lt_irrefl 0)

/-! ## Every run -/

/-- **The law of critical sections**, for a run that ends in `s`. -/
structure SectionLaw (acts : List (Act N)) (s : State N) : Prop where
  /-- At most one thread is inside, and it is the holder. -/
  inside : ∀ m u, count step (Leaves m u) (init N) acts < count step (Enters m u) (init N) acts →
    (s.monitor m).holder = some u
  /-- It is inside once. -/
  once : ∀ m u, count step (Enters m u) (init N) acts ≤ count step (Leaves m u) (init N) acts + 1
  /-- A call of `uthread_monitor_exit` passes the check exactly if its thread was inside. -/
  checked : ∀ m p, (s.proc p).pc = .exitLock m →
    ((s.monitor m).holder = some (s.proc p).thread ↔
      count step (Leaves m (s.proc p).thread) (init N) acts =
        count step (Enters m (s.proc p).thread) (init N) acts)

section Run

variable {acts : List (Act N)} (hN : 0 < N)
  (hC : AllSteps step (fun s a => ¬ Rewakes (fun _ => True) s a) (init N) acts)

include hN hC

/-- The balance of every run in which no joiner is woken up twice. -/
lemma balanced_of_run (hr : run step (init N) acts = some s) :
    Inv (fun _ => True) s ∧ Balanced acts s := by
  refine induct_of_allSteps (motive := fun acts s => Inv (fun _ => True) s ∧ Balanced acts s)
    ⟨inv_init hN _, balanced_init⟩ ?_ hC hr
  rintro as a t u hr ⟨hi, hb⟩ hC hu
  exact ⟨hi.step (fun _ _ => trivial) hC hu, hb.step hi.owned (trans_of_step hu) hr⟩

/-- **Critical sections exclude each other**, and the check of the holder fails for a thread that is
not inside and for no other. -/
theorem sectionLaw_of_run : ∀ s, run step (init N) acts = some s → SectionLaw acts s := by
  intro s hr
  obtain ⟨hi, hb⟩ := balanced_of_run hN hC hr
  refine ⟨fun m u hlt => ?_, fun m u => ?_, fun m p hpc => ?_⟩
  · have hbal := hb.balance m u
    by_contra hh
    rw [if_neg hh] at hbal
    omega
  · have hbal := hb.balance m u
    split_ifs at hbal <;> omega
  · have hbal := hb.balance m (s.proc p).thread
    have hgate : AtGate s m (s.proc p).thread := ⟨p, rfl, by rw [hpc, Pc.gate]⟩
    have hfail : count step (Fails m (s.proc p).thread) (init N) acts = 0 := by
      by_contra hne
      obtain ⟨q, hq⟩ := hb.failed m _ (Nat.pos_of_ne_zero hne)
      have hqp : q = p := hi.owned.alone q p trivial (by rw [hq])
      have hab : (s.proc p).pc = .aborted .holder := by rw [← hqp, hq]
      simp [hpc] at hab
    rw [if_pos hgate, hfail] at hbal
    split_ifs at hbal with hh
    · exact iff_of_true hh (by omega)
    · exact iff_of_false hh (by omega)

end Run

theorem sectionLaw_handOver : (run step (init 1) handOver).isSome ∧
    ∀ s, run step (init 1) handOver = some s → SectionLaw handOver s :=
  ⟨by decide +kernel, sectionLaw_of_run (by decide) (by decide +kernel)⟩

/-! ## A thread that enters twice -/

/-- Thread `u` holds `m`, and is in a call of `uthread_monitor_enter` for `m` that has not taken
it. -/
structure Reenters (s : State N) (m : Mid) (u : Tid) : Prop where
  holder : (s.monitor m).holder = some u
  call : InCall s u (fun pc => pc.op = some (.enter m) ∧ pc.gate ≠ some m) (.enter m)

namespace Reenters

variable (h : Reenters s m u) (hi : Inv (fun _ => True) s) (ht : Trans s a t)

include h ht

include hi in
/-- Its thread does not call `uthread_monitor_exit`. -/
lemma holder_step : (t.monitor m).holder = some u := by
  rcases ht.gate_cases m with ⟨-, -, e, -⟩ | ⟨-, -, e, -⟩ | ⟨-, -, e, -⟩ | ⟨hpc, -, e, -⟩ |
    ⟨-, -, -, e, -⟩ | ⟨-, -, e, -⟩
  · simp [h.holder] at e
  · rw [e, h.holder]
  · rw [e, h.holder]
  · -- only the holder passes the check
    rw [h.holder, Option.some.injEq] at e
    rcases h.call with ⟨p, hp, hop, -⟩ | ⟨hoff, -⟩
    · rw [hi.owned.alone p a.proc trivial (hp.trans e), hpc] at hop
      simp [Pc.op] at hop
    · exact absurd e.symm (hoff _)
  · rw [e, h.holder]
  · rw [e, h.holder]

/-- It does not take the monitor that it holds. -/
lemma gate_step (hop : (s.proc a.proc).pc.op = some (.enter m))
    (hg : (s.proc a.proc).pc.gate ≠ some m) : (t.proc a.proc).pc.gate ≠ some m := by
  rcases ht.gate_cases m with ⟨-, -, e, -⟩ | ⟨hpc, -⟩ | ⟨hpc, -⟩ | ⟨hpc, -⟩ | ⟨hpc, -⟩ |
    ⟨-, -, -, hg'⟩
  · simp [h.holder] at e
  · simp [hpc, Pc.gate] at hg
  · simp [hpc, Pc.op] at hop
  · simp [hpc, Pc.gate] at hg
  · simp [hpc, Pc.gate] at hg
  · exact hg'

include hi in
/-- **One step.** -/
theorem step (hs : Saved s) : Reenters t m u where
  holder := h.holder_step hi ht
  call := by
    refine (InCall.step (R := False) hi.allocated hi.owned trivial ht ?_
      (fun v => ⟨rfl, by simp [Pc.gate]⟩) h.call).resolve_right id
    rintro hu ⟨hop, hg⟩
    rcases ht.enter_next hop with ⟨e, hop'⟩ | ⟨hpc, -⟩ | hswap | ⟨⟨f, hf, hfm⟩, hn⟩ | ⟨c, hpc, hnil⟩
    · exact .inl ⟨e.trans hu, hop', h.gate_step ht hop hg⟩
    · simp [hpc, Pc.gate] at hg
    · exact .inr (.inl hswap)
    · rw [Frame.eq_enter hfm] at hf
      exact absurd hn (hs.frame a.proc _ hf)
    · exact absurd hnil (hi.idle.readyQueue_ne_nil hpc)

end Reenters

/-- **A thread that enters a monitor that it holds waits for itself** for ever, and nobody gets the
monitor any more. -/
theorem reenters_of_run (hN : 0 < N) {acts more : List (Act N)} {p : Fin N}
    (hC : AllSteps step (fun s a => ¬ Rewakes (fun _ => True) s a) (init N)
      (acts ++ .call p (.enter m) :: more))
    (hs : run step (init N) acts = some s) (hh : (s.monitor m).holder = some (s.proc p).thread)
    (ht : run step s (.call p (.enter m) :: more) = some t) : Reenters t m (s.proc p).thread := by
  obtain ⟨hC, hC'⟩ := allSteps_append.mp hC
  have hinv := (inv_of_run hN (fun _ _ => trivial) hC).last hs
  have hsv := saved_of_run hN hs
  rw [run_cons] at ht
  obtain ⟨s₁, hs₁, ht⟩ := Option.bind_eq_some_iff.mp ht
  obtain ⟨hstep, hmore⟩ := hC' s hs
  have hcall := trans_of_step hs₁
  have hfirst : Reenters s₁ m (s.proc p).thread := by
    have hp := hcall.proc_of_enter
    exact ⟨hcall.holder_of_enter m ▸ hh, .inl ⟨p, by rw [hp], by rw [hp]; simp [Pc.op, Pc.gate]⟩⟩
  have hrun : Inv (fun _ => True) t ∧ Saved t ∧ Reenters t m (s.proc p).thread := by
    refine invariant (I := fun t => Inv (fun _ => True) t ∧ Saved t ∧
      Reenters t m (s.proc p).thread) ?_ ⟨hinv.step (fun _ _ => trivial) hstep hs₁,
        hsv.step hinv.allocated hcall, hfirst⟩ (hmore s₁ hs₁) ht
    rintro s a t ⟨hi, hsv, hre⟩ hC ht
    exact ⟨hi.step (fun _ _ => trivial) hC ht, hsv.step hi.allocated (trans_of_step ht),
      hre.step hi (trans_of_step ht) hsv⟩
  exact hrun.2.2

/-- On one processor thread `0` enters monitor `0`, enters it again and stops. -/
def entersTwice : List (Act 1) :=
  [.call 0 (.enter 0)] ++ runs 0 2 ++ [.call 0 (.enter 0)] ++ runs 0 7 ++ [.call 0 .yield]

theorem reenters_entersTwice : (run step (init 1) entersTwice).isSome ∧
    ∀ t, run step (init 1) entersTwice = some t → Reenters t 0 0 := by
  refine ⟨by decide +kernel, fun t ht => ?_⟩
  have hfirst : (run step (init 1) ([.call 0 (.enter 0)] ++ runs 0 2)).map
      (fun s => ((s.monitor 0).holder, (s.proc 0).thread)) = some (some 0, 0) := by
    decide +kernel
  obtain ⟨s, hs, he⟩ := Option.map_eq_some_iff.mp hfirst
  simp only [Prod.mk.injEq] at he
  have hsplit : entersTwice = ([.call 0 (.enter 0)] ++ runs 0 2) ++
      .call 0 (.enter 0) :: (runs 0 7 ++ [.call 0 .yield]) := rfl
  rw [hsplit, run_append, hs, Option.bind_some] at ht
  have hre := reenters_of_run (by decide) (by decide +kernel) hs (by rw [he.1, he.2]) ht
  rwa [he.2] at hre

end Uthread
