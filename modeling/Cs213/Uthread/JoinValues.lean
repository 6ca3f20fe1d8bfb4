import Cs213.Uthread.Lifetime

set_option relaxedAutoImplicit false
set_option autoImplicit false

/-!
# What `uthread_join` returns

There are three ways through `uthread_join`: the call finds that the thread has a joiner, and
returns the null pointer; it finds the thread dead, and reads the return value; or it stops, and
reads the return value when it has been woken up. When every handle is used once the first way is
not taken, and the other two return the same.

## Main definitions

* `Uthread.Reads` — a call that has found the thread dead reads what it has returned.

## Main results

* `Uthread.reads_of_run`, `Uthread.joinReturn_eq_returnVal` — the value that any call is about to
  return is the return value of the thread.
* `Uthread.joinReturn_of_run` — hence it is the one value that the thread has returned.
-/

namespace Uthread

open Runs

variable {N : ℕ} {s t : State N} {a : Act N}

/-! ## A call that does not stop -/

/-- A call that has found the thread dead reads what it has returned. -/
structure Reads (s : State N) : Prop where
  found : ∀ p T, (s.proc p).pc = .joinValue false T → (s.tcb T).state = .dead
  read : ∀ p T v, ((s.proc p).pc = .joinFree false T v ∨ (s.proc p).pc = .joinReturn false T v) →
    v = (s.tcb T).returnVal ∧ (s.tcb T).state = .dead

/-- A call finds the thread dead when it tests the state. -/
lemma Trans.findsDead_cases (h : Trans s a t) {T : Tid}
    (hpc : (t.proc a.proc).pc = .joinValue false T) :
    (s.tcb T).state = .dead := by
  cases h <;> grind [Site.return_cases, Starter.return_cases]

/-- The value that a call returns has been read, unless the thread has a joiner. -/
lemma Trans.reads_cases (h : Trans s a t) {T : Tid} {v : Value}
    (hpc : (t.proc a.proc).pc = .joinFree false T v ∨ (t.proc a.proc).pc = .joinReturn false T v) :
    (s.proc a.proc).pc = .joinValue false T ∧ v = (s.tcb T).returnVal ∨
      (s.proc a.proc).pc = .joinFree false T v ∨
      (s.proc a.proc).pc = .joinTest T ∧ (s.tcb T).joiner ≠ .null := by
  cases h <;> grind [Site.return_cases, Starter.return_cases]

namespace Reads

variable {acts : List (Act N)} (h : Reads s) (hi : Inv (fun _ => True) s) (hL : Lifetime acts s)
  (ht : Trans s a t)

include h hi ht

lemma found_step (p : Fin N) (T : Tid) (hpc : (t.proc p).pc = .joinValue false T) :
    (t.tcb T).state = .dead := by
  refine hi.owned.dead_mono hi.allocated ht ?_
  by_cases hp : p = a.proc
  · subst hp
    exact ht.findsDead_cases hpc
  · exact h.found p T (ht.proc_of_ne hp ▸ hpc)

include hL

lemma read_step (p : Fin N) (T : Tid) (v : Value)
    (hpc : (t.proc p).pc = .joinFree false T v ∨ (t.proc p).pc = .joinReturn false T v) :
    v = (t.tcb T).returnVal ∧ (t.tcb T).state = .dead := by
  suffices hs : v = (s.tcb T).returnVal ∧ (s.tcb T).state = .dead by
    rw [Values.returnVal_eq hi ht (.inr hs.2)]
    exact ⟨hs.1, hi.owned.dead_mono hi.allocated ht hs.2⟩
  by_cases hp : p = a.proc
  · subst hp
    rcases ht.reads_cases hpc with ⟨hv, rfl⟩ | hpc | ⟨hpc, hj⟩
    · exact ⟨rfl, h.found _ T hv⟩
    · exact h.read _ T v (.inl hpc)
    · exact absurd (hL.before _ T (by rw [hpc]; rfl)) hj
  · exact h.read p T v (ht.proc_of_ne hp ▸ hpc)

/-- **The reads are kept** by every step. -/
theorem step : Reads t where
  found := h.found_step hi ht
  read := h.read_step hi hL ht

end Reads

/-- At the start there is no call. -/
lemma reads_init : Reads (init N) := by
  constructor <;> simp [init]

/-! ## Every call -/

section Law

variable {acts : List (Act N)} (hN : 0 < N) (hone : (acts.filterMap Act.handle).Nodup)
  (h : AllSteps step (fun s a => ¬ Rewakes (fun _ => True) s a ∧ ¬ FreesLocked s a)
    (init N) acts) (hr : run step (init N) acts = some s)

include hN hone h hr

/-- The induction rule for runs in which every handle is used once. -/
lemma induct_lifetime {motive : List (Act N) → State N → Prop} (nil : motive [] (init N))
    (concat : ∀ as a s t, run step (init N) as = some s → Inv (fun _ => True) s → Lifetime as s →
      motive as s → step s a = some t → motive (as ++ [a]) t) : motive acts s := by
  refine induct_of_allSteps (motive := fun as s => (as.filterMap Act.handle).Nodup →
    AllSteps step (fun s a => ¬ Rewakes (fun _ => True) s a ∧ ¬ FreesLocked s a) (init N) as →
    motive as s) (fun _ _ => nil) ?_ h hr hone h
  rintro as a t u ht ih - hu hone hC
  rw [List.filterMap_append] at hone
  have hone := (List.nodup_append'.mp hone).1
  obtain ⟨hi, hL, -⟩ := lifetime_of_run hN hone hC.left ht
  exact concat as a t u ht hi hL (ih hone hC.left) hu

/-- The reads along a run in which every handle is used once. -/
lemma reads_of_run : Reads s := by
  refine induct_lifetime (motive := fun _ s => Reads s) hN hone h hr reads_init ?_
  intro as a s t _ hi hL ih ht
  exact ih.step hi hL (trans_of_step ht)

/-- The value that a call is about to return is the return value of the thread, which has exited. -/
lemma joinReturn_eq_returnVal {p : Fin N} {b : Bool} {T : Tid} {v : Value}
    (hpc : (s.proc p).pc = .joinReturn b T v) : v = (s.tcb T).returnVal ∧ s.exited T := by
  obtain ⟨-, -, hV⟩ := lifetime_of_run hN hone h hr
  cases b with
  | true => exact hV.read p T v (.inr hpc)
  | false =>
    obtain ⟨e, hd⟩ := (reads_of_run hN hone h hr).read p T v (.inr hpc)
    exact ⟨e, .inr hd⟩

/-- **Whichever way it takes, `uthread_join` returns what the thread has returned**, in a run in
which every handle is used once, no joiner is woken up twice and no block is freed under the hands
of its exit. -/
theorem joinReturn_of_run {p : Fin N} {b : Bool} {T : Tid} {v : Value}
    (hpc : (s.proc p).pc = .joinReturn b T v) :
    ∃ w, v = some w ∧ ∀ w', Occurs step (Returns T w') (init N) acts ↔ w' = w := by
  obtain ⟨rfl, hx⟩ := joinReturn_eq_returnVal hN hone h hr hpc
  obtain ⟨-, -, hV⟩ := lifetime_of_run hN hone h hr
  obtain ⟨w, hw⟩ := Option.ne_none_iff_exists'.mp (hV.exited T hx)
  refine ⟨w, hw, fun w' => ?_⟩
  rw [hV.occurs, hw, Option.some.injEq, eq_comm]

end Law

/-- On one processor thread `2` returns before thread `0` joins it. -/
def joinsDead : List (Act 1) :=
  [.call 0 .create, .run 0, .call 0 .yield] ++ runs 0 6 ++ [.call 0 .yield] ++ runs 0 6 ++
  [.call 0 (.ret 7)] ++ runs 0 9 ++ [.call 0 (.join 2)] ++ runs 0 5

theorem joinReturn_joinsDead :
    (run step (init 1) joinsDead).map (fun s => (s.proc 0).pc) =
        some (.joinReturn false 2 (some 7)) ∧
      ∀ s, run step (init 1) joinsDead = some s → (s.proc 0).pc = .joinReturn false 2 (some 7) →
        ∃ w, some 7 = some w ∧ ∀ w', Occurs step (Returns 2 w') (init 1) joinsDead ↔ w' = w :=
  ⟨by decide +kernel, fun _ hs =>
    joinReturn_of_run (by decide) (by decide) (by decide +kernel) hs⟩

end Uthread
