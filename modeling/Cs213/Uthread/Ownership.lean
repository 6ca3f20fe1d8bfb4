import Cs213.Uthread.Effects

set_option relaxedAutoImplicit false
set_option autoImplicit false

/-!
# Who owns a thread

The scheduler invariant: a thread is in at most one place, is executed by at most one processor,
is `TS_RUNNING` while its own code is executed, and is nowhere once it has exited.

It is preserved by every step except one. A processor that has switched away from a thread tests
later whether that thread is dying, and by then the thread may have been resumed elsewhere, have
exited, and have had its exit completed by another processor. The joiner is then woken up twice.
`Uthread.Rewakes` is that step.

## Main definitions

* `Uthread.Rewakes` — the exit of a dead thread starts once more, and the thread has a joiner.
* `Uthread.Owned` — the invariant, for the threads in a set `G` that has all but the initial one.

## Main results

* `Uthread.Owned.step`, `Uthread.owned_init`.

## Implementation notes

The set `G` is there for programs in which only the initial thread joins: a second wakeup then
concerns that thread alone, and all others stay owned.
-/

namespace Uthread

open Placement

variable {N : ℕ} {s t : State N} {a : Act N}

/-! ## The invariant -/

/-- The thread has exited: it is dying or dead. -/
def State.exited (s : State N) (t : Tid) : Prop :=
  (s.tcb t).state = .dying ∨ (s.tcb t).state = .dead

/-- The thread whose exit takes the join spinlock next. -/
def Pc.locksDying : Pc → Option Tid
  | .dyingLock t _ => some t
  | _ => none

/-- The thread in a joiner field. -/
def Joiner.thread? : Joiner → Option Tid
  | .thread j => some j
  | _ => none

/-- The exit of a thread takes the join spinlock when the thread is already dead, and has a joiner
in `G`. -/
def Rewakes (G : Tid → Prop) (s : State N) (a : Act N) : Prop :=
  ∃ t ∈ (s.proc a.proc).pc.locksDying, (s.tcb t).state = .dead ∧
    ∃ j ∈ (s.tcb t).joiner.thread?, G j

instance (G : Tid → Prop) [DecidablePred G] (s : State N) (a : Act N) :
    Decidable (Rewakes G s a) :=
  inferInstanceAs (Decidable (∃ _ ∈ _, _ ∧ ∃ _ ∈ _, _))

/-- **The scheduler invariant**, for the threads in `G`. -/
structure Owned (G : Tid → Prop) (s : State N) : Prop where
  /-- A thread is in at most one place, at most once. -/
  exclusive : ∀ t, G t → Exclusive s.contents t
  /-- A thread is executed by at most one processor. -/
  alone : ∀ p q, G (s.proc p).thread → (s.proc p).thread = (s.proc q).thread → p = q
  /-- A thread whose own code is executed is `TS_RUNNING`. -/
  running : ∀ p, G (s.proc p).thread → (s.proc p).pc.frame = none →
    (s.tcb (s.proc p).thread).state = .running
  /-- A thread found not to be running is not executed. -/
  stopped : ∀ p t, (s.proc p).pc.target = some t → G t → ∀ q, (s.proc q).thread ≠ t
  /-- An exit is that of a dying or dead thread. -/
  reaps : ∀ p t, (s.proc p).pc.reaps = some t → s.exited t
  /-- The exit of a thread that is already dead finds no joiner. -/
  undead : ∀ p t f j, (s.proc p).pc = .dyingJoiner t f → (s.tcb t).joiner = .thread j → G j →
    (s.tcb t).state ≠ .dead
  /-- A thread that has exited is not executed. -/
  off : ∀ t, s.exited t → ∀ q, (s.proc q).thread ≠ t
  /-- A thread that has exited is nowhere. -/
  gone : ∀ t, s.exited t → ∀ l, t ∉ s.contents l
  /-- A thread that is about to exit is nowhere. -/
  exiting : ∀ p, (s.proc p).pc.site = some .exit → ∀ l, (s.proc p).thread ∉ s.contents l
  /-- The initial thread does not exit. -/
  main : (s.tcb 0).startProc = .main ∧ ¬ s.exited 0 ∧
    ∀ p, (s.proc p).pc.site = some .exit → (s.proc p).thread ≠ 0

/-! ## Threads that have exited -/

lemma Pc.mem_carries_of_frame {pc : Pc} (self : Tid) (h : pc.frame ≠ none) :
    self ∈ pc.carries self := by
  cases pc <;> grind

lemma Pc.mem_carries_of_target {pc : Pc} (self : Tid) {v : Tid} (h : pc.target = some v) :
    v ∈ pc.carries self := by
  cases pc <;> grind

/-- What is in a place has been created. -/
lemma Allocated.contents (h : Allocated s) {l : Place N} {v : Tid} (hv : v ∈ s.contents l) :
    v < s.fresh := by
  cases l with
  | ready => exact h.ready v hv
  | waiter m => exact h.waiter m v hv
  | proc p =>
    have hth := h.thread p
    have hpc := h.pc p v
    simp only [State.contents, Proc.carries] at hv
    cases hc : (s.proc p).pc <;> grind
  | slot w => exact h.joiner w v (mem_slot.mp hv).1

/-- A thread that has exited has been created. -/
lemma Allocated.exited (h : Allocated s) {v : Tid} (hv : s.exited v) : v < s.fresh := by
  by_contra hlt
  simp [State.exited, h.unused v (Nat.not_lt.mp hlt), uthreadAlloc] at hv

namespace Owned

variable {G : Tid → Prop} (h : Owned G s) (ha : Allocated s) (hl : JoinGuarded s)
  (ht : Trans s a t)

include h

/-- The initial thread does not exit. -/
lemma ne_zero_of_exited {v : Tid} (hv : s.exited v) : v ≠ 0 := by
  rintro rfl
  exact h.main.2.1 hv

include ha ht

/-- The state of a thread that has exited only becomes `TS_DEAD`. -/
lemma state_of_exited {v : Tid} (hv : s.exited v) :
    (t.tcb v).state = (s.tcb v).state ∨ (t.tcb v).state = .dead := by
  rcases ht.state_cases v with e | ⟨rfl, -⟩ | ⟨e, -⟩ | ⟨e, -⟩ | ⟨⟨r, hr⟩, -⟩ | ⟨-, e⟩
  · exact .inl e
  · exact absurd (ha.exited hv) (Nat.lt_irrefl _)
  · exact absurd e.symm (h.off v hv a.proc)
  · exact absurd e.symm (h.off v hv a.proc)
  · refine absurd ?_ (h.gone v hv (.proc a.proc))
    simp [State.contents, Proc.carries, Pc.carries, hr]
  · exact .inr e

/-- A thread that has exited does not come back. -/
lemma exited_mono {v : Tid} (hv : s.exited v) : t.exited v := by
  rcases h.state_of_exited ha ht hv with e | e
  · rwa [State.exited, e]
  · exact .inr e

/-- A dead thread stays dead. -/
lemma dead_mono {v : Tid} (hv : (s.tcb v).state = .dead) : (t.tcb v).state = .dead := by
  rcases h.state_of_exited ha ht (.inr hv) with e | e
  · rw [e, hv]
  · exact e

omit ha

/-- A thread exits when `uthread_switch` stores `TS_DYING`. -/
lemma exited_cases {v : Tid} (hv : t.exited v) : s.exited v ∨
    (s.proc a.proc).thread = v ∧ ∃ u, (s.proc a.proc).pc = .switchSwap .exit u := by
  rcases ht.state_cases v with e | ⟨-, e⟩ | ⟨rfl, c, u, hpc, e⟩ | ⟨-, -, e⟩ | ⟨-, e⟩ |
    ⟨⟨f, hpc⟩, -⟩
  · exact .inl (by rwa [State.exited, e] at hv)
  · simp [State.exited, e] at hv
  · cases c with
    | exit => exact .inr ⟨rfl, u, hpc⟩
    | yield | join | enter => simp [State.exited, e, Site.stoppingThreadState] at hv
  · simp [State.exited, e] at hv
  · simp [State.exited, e] at hv
  · exact .inl (h.reaps a.proc v (by simp [hpc, Pc.reaps]))

/-! ## Places -/

include ha

/-- A thread gets into a joiner field when it calls `uthread_join`. -/
lemma slot_cases {u v : Tid} (hu : u ∈ t.slot v) :
    u ∈ s.slot v ∨ (s.proc a.proc).pc = .joinSet v ∧ u = (s.proc a.proc).thread := by
  obtain ⟨hj, hd, hw⟩ := mem_slot.mp hu
  rcases ht.joiner_cases v with e | ⟨-, e⟩ | ⟨hpc, e⟩ | ⟨-, e⟩
  · refine .inl (mem_slot.mpr ⟨e ▸ hj, fun hd' => hd (h.dead_mono ha ht hd'), fun q hq => ?_⟩)
    exact (ht.wakes_cases hq).elim (hw q) hd
  · simp [e] at hj
  · exact .inr ⟨hpc, by simpa [e] using hj.symm⟩
  · simp [e] at hj

include hl

/-- **No step puts a thread in two places.** -/
theorem shift {u : Tid} (hu : G u) (hf : u = s.fresh → ∀ p, a ≠ .call p .create) :
    Shift s.contents t.contents u := by
  have hex := h.exclusive u hu
  -- the mover exchanges threads with place `l`, and what the other places hold does not grow
  have hsum : ∀ l : Place N, l ≠ .proc a.proc →
      (t.proc a.proc).carries.count u + (t.contents l).count u ≤
        (s.proc a.proc).carries.count u + (s.contents l).count u →
      (l ≠ .ready → t.readyQueue = s.readyQueue) →
      (∀ m, l ≠ .waiter m → (t.monitor m).waiterQueue = (s.monitor m).waiterQueue) →
      (∀ v, l ≠ .slot v → u ∈ t.slot v → u ∈ s.slot v) → Shift s.contents t.contents u := by
    intro l hne hc hr hw hs
    refine .of_sum hex (.proc a.proc) l hne.symm hc fun k hkp hkl => ?_
    cases k with
    | ready => exact (congrArg _ (hr hkl.symm)).le
    | waiter m => exact (congrArg _ (hw m hkl.symm)).le
    | proc q =>
      have hq : q ≠ a.proc := fun e => hkp (e ▸ rfl)
      simp [State.contents, ht.proc_of_ne hq]
    | slot v => exact count_slot_le_of_mem (hs v hkl.symm)
  have hslot : (∀ v, (s.proc a.proc).pc ≠ .joinSet v) → ∀ v, u ∈ t.slot v → u ∈ s.slot v :=
    fun hpc v hv => (h.slot_cases ha ht hv).resolve_right fun e => hpc v e.1
  rcases ht.move_cases hf with ⟨hc, hm, hpc⟩ | ⟨hr, hpc, m, hc, hm⟩ | ⟨hr, hm, v, hpc, hc⟩ |
    ⟨hr, hm, v, f, j, hpc, hj, hc, hw⟩
  · exact hsum .ready (by simp) hc (by simp) (fun m _ => hm m) fun v _ => hslot hpc v
  · refine hsum (.waiter m) (by simp) hc (fun _ => hr) (fun k hk => ?_) fun v _ => hslot hpc v
    rw [hm k fun e => hk (e ▸ rfl)]
  · refine hsum (.slot v) (by simp) ?_ (fun _ => hr) (fun k _ => by rw [hm]) fun w hw hu => ?_
    · -- the caller of `uthread_join` goes into the joiner field
      have hcs : (s.proc a.proc).carries = [(s.proc a.proc).thread] := by
        simp [Proc.carries, hpc, Pc.carries]
      rw [hc, hcs, List.count_nil]
      by_cases hus : u ∈ t.slot v
      · rcases h.slot_cases ha ht hus with hus' | ⟨-, rfl⟩
        · have := count_slot_le_of_mem (s := s) (t := t) fun _ => hus'
          simp only [State.contents]
          omega
        · have := count_slot_le (s := t) (s.proc a.proc).thread v
          simp only [State.contents, List.count_singleton_self]
          omega
      · simp [State.contents, List.count_eq_zero_of_not_mem hus]
    · refine (h.slot_cases ha ht hu).resolve_right fun e => hw ?_
      rw [hpc] at e
      simp only [Pc.joinSet.injEq] at e
      rw [e.1]
  · have hpc' : ∀ w, (s.proc a.proc).pc ≠ .joinSet w := by simp [hpc]
    refine hsum (.slot v) (by simp) ?_ (fun _ => hr) (fun k _ => by rw [hm])
      fun w _ => hslot hpc' w
    -- the exit of `v` takes the joiner out of the joiner field
    have hcs : (s.proc a.proc).carries = [(s.proc a.proc).thread] := by
      simp [Proc.carries, hpc, Pc.carries]
    have ht0 : u ∉ t.slot v := fun hu => (mem_slot.mp hu).2.2 _ hw
    rw [hc, hcs]
    simp only [State.contents, List.count_eq_zero_of_not_mem ht0, List.count_cons,
      List.count_nil, beq_iff_eq]
    by_cases hju : j = u
    · subst hju
      have hus : j ∈ s.slot v := by
        refine mem_slot.mpr ⟨hj, h.undead _ v f j hpc hj hu, fun q hq => ?_⟩
        have := hl.unique q a.proc v (Pc.joinHeld_of_wakes hq) (by simp [hpc, Pc.joinHeld])
        rw [this, hpc] at hq
        simp [Pc.wakes] at hq
      have := List.count_pos_iff.mpr hus
      rw [if_pos rfl]
      omega
    · simp [hju]

/-- What is in a place after a step was in a place before. -/
lemma mem_of_mem {u : Tid} (hu : G u) (hf : u < s.fresh) {l : Place N} (hm : u ∈ t.contents l) :
    ∃ k, u ∈ s.contents k :=
  (h.shift ha hl ht hu fun e => absurd hf (e ▸ Nat.lt_irrefl _)).mem hm

/-! ## The step -/

lemma exclusive_step (u : Tid) (hu : G u) : Exclusive t.contents u := by
  by_cases hf : u = s.fresh → ∀ p, a ≠ .call p .create
  · exact (h.shift ha hl ht hu hf).exclusive (h.exclusive u hu)
  · push Not at hf
    obtain ⟨rfl, p, rfl⟩ := hf
    have h0 : ∀ k, s.fresh ∉ s.contents k := fun k hk => Nat.lt_irrefl _ (ha.contents hk)
    have hth := (ha.thread p).ne
    have hslot : ∀ v, s.fresh ∈ t.slot v → s.fresh ∈ s.slot v := fun v hv =>
      (h.slot_cases ha ht hv).resolve_right fun e => hth e.2.symm
    cases ht with
    | callCreate _ hpc hc =>
      refine .appear (.proc p) h0 (by simp [State.contents, Pc.carries, hth]) fun k hk => ?_
      cases k with
      | ready | waiter => simp [State.contents]
      | proc q =>
        have hq : q ≠ p := fun e => hk (e ▸ rfl)
        simp [State.contents, hq]
      | slot v =>
        exact count_slot_le_of_mem (hslot v)

omit ha hl in
lemma alone_step (p q : Fin N) (hG : G (t.proc p).thread)
    (hpq : (t.proc p).thread = (t.proc q).thread) : p = q := by
  have hne : ∀ q, q ≠ a.proc → G (t.proc a.proc).thread →
      (t.proc a.proc).thread ≠ (t.proc q).thread := by
    intro q hq hG e
    rw [ht.proc_of_ne hq] at e
    rcases ht.thread with e' | ⟨c, hpc⟩
    · rw [e'] at e hG
      exact hq (h.alone a.proc q hG e).symm
    · exact h.stopped a.proc _ (by rw [hpc, Pc.target]) hG q e.symm
  by_cases hp : p = a.proc <;> by_cases hq : q = a.proc
  · rw [hp, hq]
  · exact absurd (hp ▸ hpq) (hne q hq (hp ▸ hG))
  · exact absurd (hq ▸ hpq.symm) (hne p hp (hq ▸ hpq ▸ hG))
  · rw [ht.proc_of_ne hp] at hG hpq
    rw [ht.proc_of_ne hq] at hpq
    exact h.alone p q hG hpq

omit hl in
lemma running_step (p : Fin N) (hG : G (t.proc p).thread) (hf : (t.proc p).pc.frame = none) :
    (t.tcb (t.proc p).thread).state = .running := by
  have key : G (s.proc p).thread → (s.proc p).pc.frame = none →
      (p = a.proc → (t.proc p).pc.frame = none) →
      (t.tcb (s.proc p).thread).state = .running := by
    intro hG hf hf'
    rcases ht.state_cases (s.proc p).thread with e | ⟨e, -⟩ | ⟨e, c, u, hpc, -⟩ | ⟨-, -, e⟩ |
      ⟨⟨r, hpc⟩, -⟩ | ⟨⟨f, hpc⟩, -⟩
    · rw [e, h.running p hG hf]
    · exact absurd (ha.thread p) (e ▸ Nat.lt_irrefl _)
    · -- after the context switch the mover is on the new stack
      obtain rfl := h.alone p a.proc hG e
      have := hf' rfl
      cases ht <;> simp_all [Pc.frame]
    · exact e
    · exact absurd rfl (h.stopped a.proc _ (by rw [hpc, Pc.target]) hG p)
    · exact absurd rfl (h.off _ (h.reaps a.proc _ (by rw [hpc, Pc.reaps])) p)
  by_cases hp : p = a.proc
  · subst hp
    obtain ⟨e, hf' | ⟨-, hr⟩⟩ := ht.frame_cases hf
    · rw [e] at hG ⊢
      exact key hG hf' fun _ => hf
    · exact hr
  · rw [ht.proc_of_ne hp] at hG hf ⊢
    exact key hG hf fun e => absurd e hp

omit ha hl in
lemma stopped_step (p : Fin N) (v : Tid) (hv : (t.proc p).pc.target = some v) (hG : G v)
    (q : Fin N) : (t.proc q).thread ≠ v := by
  have hex := h.exclusive v hG
  by_cases hp : p = a.proc
  · subst hp
    obtain ⟨-, hst, hpc⟩ := ht.target_cases hv
    have hmem : v ∈ s.contents (.proc a.proc) := by
      rcases hpc with ⟨c, hpc⟩ | ⟨r, hpc⟩ <;>
        simp [State.contents, Proc.carries, hpc, Pc.carries]
    have hq : (t.proc q).thread = (s.proc q).thread := by
      by_cases hq : q = a.proc
      · rw [hq]
        rcases ht.thread with e | ⟨c, e⟩
        · exact e
        · rcases hpc with ⟨c', hpc⟩ | ⟨r, hpc⟩ <;> simp [hpc] at e
      · rw [ht.proc_of_ne hq]
    rintro rfl
    rw [hq] at hst hG hmem hpc hex
    by_cases hf : (s.proc q).pc.frame = none
    · exact hst (h.running q hG hf)
    · -- a thread that is about to be resumed is in the hands of its processor
      have hmq : (s.proc q).thread ∈ s.contents (.proc q) := Pc.mem_carries_of_frame _ hf
      obtain rfl := (Place.proc.inj (hex.unique _ _ hmq hmem)).symm
      rcases hpc with ⟨c, hpc⟩ | ⟨r, hpc⟩
      · simp [hpc, Pc.frame] at hf
      · have := hex.count_le (.proc a.proc)
        simp [State.contents, Proc.carries, hpc, Pc.carries] at this
  · rw [ht.proc_of_ne hp] at hv
    have hs := h.stopped p v hv hG
    by_cases hq : q = a.proc
    · subst hq
      rcases ht.thread with e | ⟨c, hpc⟩
      · exact e ▸ hs a.proc
      · rintro rfl
        have h₁ : (t.proc a.proc).thread ∈ s.contents (.proc p) := Pc.mem_carries_of_target _ hv
        have h₂ : (t.proc a.proc).thread ∈ s.contents (.proc a.proc) := by
          rw [State.contents, Proc.carries, hpc]
          simp [Pc.carries]
        exact hp (Place.proc.inj (hex.unique _ _ h₁ h₂))
    · exact ht.proc_of_ne hq ▸ hs q

omit hl in
lemma reaps_step (p : Fin N) (v : Tid) (hv : (t.proc p).pc.reaps = some v) : t.exited v := by
  refine h.exited_mono ha ht ?_
  by_cases hp : p = a.proc
  · subst hp
    exact (ht.reaps_cases hv).elim (h.reaps a.proc v) .inl
  · exact h.reaps p v (ht.proc_of_ne hp ▸ hv)

lemma undead_step (hC : ¬ Rewakes G s a) (p : Fin N) (v : Tid) (f : Frame) (j : Tid)
    (hpc : (t.proc p).pc = .dyingJoiner v f) (hj : (t.tcb v).joiner = .thread j) (hG : G j) :
    (t.tcb v).state ≠ .dead := by
  by_cases hp : p = a.proc
  · subst hp
    obtain ⟨hl, hst, hj'⟩ := ht.dyingJoiner_cases hpc
    refine fun hd => hC ⟨v, ?_, hst ▸ hd, j, ?_, hG⟩
    · rw [hl]
      rfl
    · rw [← hj', hj]
      rfl
  · rw [ht.proc_of_ne hp] at hpc
    have hheld : (s.proc p).pc.joinHeld = some v := by rw [hpc, Pc.joinHeld]
    rw [hl.joiner_eq ha ht hp hheld] at hj
    exact hl.ne_dead ht hp hheld (h.undead p v f j hpc hj hG)

variable (hG : ∀ v, v ≠ 0 → G v)

include hG

omit ha hl in
lemma off_step (v : Tid) (hv : t.exited v) (q : Fin N) : (t.proc q).thread ≠ v := by
  rcases h.exited_cases ht hv with hv' | ⟨rfl, u, hpc⟩
  · by_cases hq : q = a.proc
    · subst hq
      rcases ht.thread with e | ⟨c, hpc⟩
      · exact e ▸ h.off v hv' a.proc
      · rintro rfl
        refine h.gone _ hv' (.proc a.proc) ?_
        rw [State.contents, Proc.carries, hpc]
        simp [Pc.carries]
    · exact ht.proc_of_ne hq ▸ h.off v hv' q
  · have hsite : (s.proc a.proc).pc.site = some .exit := by rw [hpc, Pc.site]
    by_cases hq : q = a.proc
    · subst hq
      rw [ht.thread_of_switchSwap hpc]
      rintro rfl
      refine h.exiting a.proc hsite (.proc a.proc) ?_
      simp [State.contents, Proc.carries, Pc.carries, hpc]
    · rw [ht.proc_of_ne hq]
      exact fun e => hq (h.alone a.proc q (hG _ (h.main.2.2 _ hsite)) e.symm).symm

lemma gone_step (v : Tid) (hv : t.exited v) (l : Place N) : v ∉ t.contents l := by
  intro hm
  rcases h.exited_cases ht hv with hv' | ⟨rfl, u, hpc⟩
  · obtain ⟨k, hk⟩ := h.mem_of_mem ha hl ht (hG v (h.ne_zero_of_exited hv')) (ha.exited hv') hm
    exact h.gone v hv' k hk
  · have hsite : (s.proc a.proc).pc.site = some .exit := by rw [hpc, Pc.site]
    obtain ⟨k, hk⟩ := h.mem_of_mem ha hl ht (hG _ (h.main.2.2 _ hsite)) (ha.thread _) hm
    exact h.exiting a.proc hsite k hk

omit ha hl hG in
lemma main_exiting_step (p : Fin N) (hp : (t.proc p).pc.site = some .exit) :
    (t.proc p).thread ≠ 0 := by
  by_cases hpa : p = a.proc
  · subst hpa
    obtain ⟨e, hsite | ⟨hc, -⟩ | ⟨v, hc, -⟩ | ⟨m, hc, -⟩ | ⟨-, q, v, -, -, hcan⟩⟩ :=
      ht.site_cases hp
    · exact e ▸ h.main.2.2 _ hsite
    · simp at hc
    · simp at hc
    · simp at hc
    · intro h0
      rw [← e, h0, h.main.1] at hcan
      simp [StartProc.can] at hcan
  · rw [ht.proc_of_ne hpa] at hp ⊢
    exact h.main.2.2 p hp

lemma exiting_step (p : Fin N) (hp : (t.proc p).pc.site = some .exit) (l : Place N) :
    (t.proc p).thread ∉ t.contents l := by
  have hne := h.main_exiting_step ht p hp
  have old : (s.proc p).pc.site = some .exit → (t.proc p).thread = (s.proc p).thread →
      (t.proc p).thread ∉ t.contents l := by
    intro hsite e hm
    rw [e] at hm hne
    obtain ⟨k, hk⟩ := h.mem_of_mem ha hl ht (hG _ hne) (ha.thread p) hm
    exact h.exiting p hsite k hk
  by_cases hpa : p = a.proc
  · subst hpa
    obtain ⟨e, hsite | ⟨hc, -⟩ | ⟨v, hc, -⟩ | ⟨m, hc, -⟩ | ⟨-, q, v, ha', hpc, -⟩⟩ :=
      ht.site_cases hp
    · exact old hsite e
    · simp at hc
    · simp at hc
    · simp at hc
    · -- `start_proc` has returned: the thread was in the hands of its processor only
      rw [e] at hne ⊢
      have hmem : (s.proc a.proc).thread ∈ s.contents (.proc a.proc) := by
        simp [State.contents, Proc.carries, hpc, Pc.carries]
      have hex := h.exclusive _ (hG _ hne)
      have hslot : ∀ w, (s.proc a.proc).thread ∈ t.slot w → (s.proc a.proc).thread ∈ s.slot w :=
        fun w hw => (h.slot_cases ha ht hw).resolve_right fun e => by simp [hpc] at e
      subst ha'
      cases ht with
      | callRet _ self _ hp' hc =>
        refine hex.not_mem_of_remove hmem ?_ (fun k hk => ?_) l
        · simp [State.contents, Proc.carries, Pc.carries, hp']
        · cases k with
          | ready | waiter => simp [State.contents]
          | proc r =>
            have hr : r ≠ q := fun e => hk (e ▸ rfl)
            simp [State.contents, hr]
          | slot w => exact count_slot_le_of_mem (hslot w)
  · exact old (ht.proc_of_ne hpa ▸ hp) (by rw [ht.proc_of_ne hpa])

/-- **The scheduler invariant is kept** by every step but one that wakes a joiner a second time. -/
theorem step (hC : ¬ Rewakes G s a) : Owned G t where
  exclusive := h.exclusive_step ha hl ht
  alone := h.alone_step ht
  running := h.running_step ha ht
  stopped := h.stopped_step ht
  reaps := h.reaps_step ha ht
  undead := h.undead_step ha hl ht hC
  off := h.off_step ht hG
  gone := h.gone_step ha hl ht hG
  exiting := h.exiting_step ha hl ht hG
  main := by
    refine ⟨?_, fun hv => ?_, h.main_exiting_step ht⟩
    · rw [ht.startProc (Nat.zero_le N |>.trans_lt ha.base).ne, h.main.1]
    · rcases h.exited_cases ht hv with hv' | ⟨e, u, hpc⟩
      · exact h.main.2.1 hv'
      · exact h.main.2.2 a.proc (by rw [hpc, Pc.site]) e

end Owned

/-! ## The first state -/

/-- In the first state no thread has exited. -/
lemma not_exited_init (v : Tid) : ¬ (init N).exited v := by
  simp only [State.exited, init, initTcb]
  grind [uthreadNewThread, uthreadAlloc]

/-- In the first state every thread is in one place at most. -/
lemma exclusive_init (v : Tid) : Exclusive (init N).contents v := by
  have hslot : ∀ w, (init N).slot w = [] := fun w => by rw [State.slot, joiner_init]
  have hproc : ∀ p : Fin N, v ∈ (init N).contents (.proc p) →
      v = if p.val = 0 then 0 else p.val + 1 := by
    intro p hv
    simpa [State.contents, init, Proc.carries, Pc.carries] using hv
  have hready : v ∈ (init N).contents .ready → v = 1 := by simp [State.contents, init]
  constructor
  · rintro (_ | m | p | w)
    · exact List.count_le_length
    · simp [State.contents, init, uthreadMonitorCreate]
    · exact List.count_le_length
    · simp [State.contents, hslot]
  · rintro (_ | m | p | w) (_ | m' | p' | w') hl hk <;>
      simp only [State.contents, hslot, List.not_mem_nil] at hl hk
    · rfl
    · cases hk
    · have h₁ := hready hl
      have h₂ := hproc p' hk
      grind
    · cases hl
    · cases hl
    · cases hl
    · have h₁ := hproc p hl
      have h₂ := hready hk
      grind
    · cases hk
    · have h₁ := hproc p hl
      have h₂ := hproc p' hk
      exact congrArg _ (Fin.ext (by grind))

/-- **The scheduler invariant holds at the start.** -/
theorem owned_init (G : Tid → Prop) : Owned G (init N) where
  exclusive v _ := exclusive_init v
  alone p q _ h := by
    simp only [init] at h
    exact Fin.ext (by grind)
  running p _ _ := by
    have := p.isLt
    simp only [init, initTcb]
    grind
  stopped p v h := by simp [init, Pc.target] at h
  reaps p v h := by simp [init, Pc.reaps] at h
  undead p v f j h := by simp [init] at h
  off v h := absurd h (not_exited_init v)
  gone v h := absurd h (not_exited_init v)
  exiting p h := by simp [init, Pc.site] at h
  main := ⟨rfl, not_exited_init 0, fun p h => by simp [init, Pc.site] at h⟩

end Uthread
