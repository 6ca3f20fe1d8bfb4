import Cs213.Uthread.LockedQueues

set_option relaxedAutoImplicit false
set_option autoImplicit false

/-!
# Queue operations are atomic

Any number of processors work on any number of queues, one access at a time. The spinlocks keep them
apart on one queue, and on different queues they access different threads.

## Main definitions

* `Uthread.LockedQueues.Good` — the invariant of the queues and their locks.

## Main results

* `Uthread.LockedQueues.Good.step` — the invariant is kept by every step.
* `Uthread.LockedQueues.linear_of_run` — the calls are atomic in every run.
-/

namespace Uthread.LockedQueues

open Runs Linked Queues

/-! ## The locks -/

section Spin

variable {P ι : Type*}

/-- The lock that a processor is locking. -/
def spinning : Spinlock.Pc ι → Option ι
  | .user => none
  | .test q _ | .exchange q _ | .loopTest q _ => some q

/-- The queue whose spinlock a processor is locking. -/
def Pc.locks : Pc ι → Option ι
  | .lock c => some c.queue
  | _ => none

variable [DecidableEq P] [DecidableEq ι] {spin spin' : Spinlock.State P ι} {p : P} {q : ι}

/-- A step of `spinlock_lock` goes on, or returns with the lock. -/
lemma spin_run_cases (h : Spinlock.step spin (.run p) = some spin')
    (hq : spinning (spin.pc p) = some q) :
    spinning (spin'.pc p) = some q ∧ spin'.inside = spin.inside ∨
      spin'.pc p = .user ∧
        ∀ p' r, spin'.inside p' r = if p' = p ∧ r = q then true else spin.inside p' r := by
  cases hpc : spin.pc p with
  | user =>
    rw [hpc] at hq
    cases hq
  | test r v =>
    rw [hpc] at hq
    cases hq
    left
    simp only [Spinlock.step, Spinlock.spinlockLock, hpc] at h
    split_ifs at h <;> cases h
    · exact ⟨by rw [hpc]; rfl, rfl⟩
    · exact ⟨by simp [spinning], rfl⟩
  | exchange r v =>
    rw [hpc] at hq
    cases hq
    left
    simp only [Spinlock.step, Spinlock.spinlockLock, hpc] at h
    cases h
    exact ⟨by simp [spinning], rfl⟩
  | loopTest r v =>
    rw [hpc] at hq
    cases hq
    simp only [Spinlock.step, Spinlock.spinlockLock, hpc] at h
    split_ifs at h <;> cases h
    · exact .inl ⟨by simp [spinning], rfl⟩
    · exact .inr ⟨by simp, fun p' r' => by simp⟩

/-- A call of `spinlock_lock` begins. -/
lemma spin_lock (h : Spinlock.step spin (.call p (.spinlockLock q)) = some spin') :
    spinning (spin'.pc p) = some q ∧ spin'.inside = spin.inside := by
  obtain ⟨-, heq⟩ := Option.ite_none_right_eq_some.mp h
  cases heq
  exact ⟨by simp [Spinlock.call, spinning], rfl⟩

/-- A call of `spinlock_unlock` gives the lock back. -/
lemma spin_unlock (h : Spinlock.step spin (.call p (.spinlockUnlock q)) = some spin') :
    spin'.pc = spin.pc ∧
      ∀ p' r, spin'.inside p' r = if p' = p ∧ r = q then false else spin.inside p' r := by
  obtain ⟨-, heq⟩ := Option.ite_none_right_eq_some.mp h
  cases heq
  exact ⟨rfl, fun p' r => by simp [Spinlock.call]⟩

end Spin

/-! ## The invariant -/

section Good

variable {P ι : Type*} [DecidableEq ι]

/-- The invariant of the queues and their locks. -/
structure Good (s : Sys P ι) : Prop where
  /-- Every lock is like an atomic one. -/
  locked : ∀ q, ∃ o, Spinlock.Represents q s.spin o
  inside_iff : ∀ p q, s.spin.inside p q = true ↔ (s.pc p).section = some q
  locks_eq : ∀ p, spinning (s.spin.pc p) = (s.pc p).locks
  answers : ∀ pre d post, s.log = pre ++ d :: post →
    d.answer = answer (Queues.lists (pre.map Done.call)) d.call
  disjoint : ∀ q r, q ≠ r → (s.lists q).Disjoint (s.lists r)
  /-- A queue that nobody has locked is a list. -/
  free : ∀ q, (∀ p, (s.pc p).section ≠ some q) →
    IsQueue s.store.next (s.store.queue q).head (s.store.queue q).tail (s.lists q)
  /-- A queue that somebody has locked is what is known at that point. -/
  busy : ∀ p q, (s.pc p).section = some q →
    Local s.store.next (s.store.queue q) (s.lists q) (s.pc p)
  fresh : ∀ p t, (s.pc p).enqueues = some t → ∀ q, t ∉ s.lists q
  unique : ∀ p p' t, (s.pc p).enqueues = some t → (s.pc p').enqueues = some t → p = p'

namespace Good

variable {s t : Sys P ι} {p : P} {c : Call ι}

/-- **A queue is locked by one processor** at most. -/
lemma alone (h : Good s) {p p' : P} {q : ι} (hp : (s.pc p).section = some q)
    (hp' : (s.pc p').section = some q) : p = p' := by
  obtain ⟨o, ho⟩ := h.locked q
  exact ho.law.exclusive p p' ((h.inside_iff p q).mpr hp) ((h.inside_iff p' q).mpr hp')

/-- The invariant implies the law. -/
lemma linear (h : Good s) : Linear s where
  answers := h.answers
  represents hfree := by
    refine ⟨fun q => h.free q fun p hp => ?_, h.disjoint⟩
    rw [hfree p] at hp
    cases hp
  alone _ _ _ := h.alone
  enabled p q hq := (h.busy p q hq).access_ne_none hq

lemma init [DecidableEq P] (next : Tid → Option Tid) :
    Good (LockedQueues.init next : Sys P ι) where
  locked q := by
    refine ⟨none, fun p => ?_, iff_of_true rfl rfl, fun p v hv => ?_⟩
    · exact iff_of_false (not_or_intro Bool.false_ne_true nofun) nofun
    · exact absurd hv (not_or_intro nofun nofun)
  inside_iff _ _ := iff_of_false Bool.false_ne_true nofun
  locks_eq _ := rfl
  answers pre d post h := by
    have hnil : ([] : List (Done ι)) = pre ++ d :: post := h
    simp at hnil
  disjoint _ _ _ := List.disjoint_nil_left _
  free _ _ := IsQueue.nil
  busy _ _ h := nomatch h
  fresh _ _ h := nomatch h
  unique _ _ _ h := nomatch h

/-! ### Steps -/

section Step

variable [DecidableEq P]

omit [DecidableEq ι] in
@[simp] lemma pc_goto {s : Sys P ι} {p p' : P} {pc : Pc ι} :
    (s.goto p pc).pc p' = if p' = p then pc else s.pc p' := Function.update_apply ..

@[simp] lemma lists_goto {s : Sys P ι} {p : P} {pc : Pc ι} : (s.goto p pc).lists = s.lists := rfl

/-- A step on the lock words only: the processor begins to lock, goes on locking, or gets to the
first access of its call. -/
lemma move (h : Good s) {spin : Spinlock.State P ι} {pc : Pc ι}
    (hlocked : ∀ q, ∃ o, Spinlock.Represents q spin o)
    (hinside : ∀ p' q, spin.inside p' q = true ↔
      (if p' = p then pc else s.pc p').section = some q)
    (hlocks : ∀ p', spinning (spin.pc p') = (if p' = p then pc else s.pc p').locks)
    (hleave : (s.pc p).section = none)
    (hlocal : ∀ q, pc.section = some q → Local s.store.next (s.store.queue q) (s.lists q) pc)
    (hfresh : ∀ t, pc.enqueues = some t →
      (∀ q, t ∉ s.lists q) ∧ ∀ p' ≠ p, (s.pc p').enqueues ≠ some t) :
    Good (Sys.goto { s with spin := spin } p pc) where
  locked := hlocked
  inside_iff p' q := by rw [pc_goto]; exact hinside p' q
  locks_eq p' := by rw [pc_goto]; exact hlocks p'
  answers := h.answers
  disjoint := h.disjoint
  free q hfree := by
    refine h.free q fun p' hp' => hfree p' ?_
    have hne : p' ≠ p := by
      rintro rfl
      rw [hleave] at hp'
      cases hp'
    rwa [pc_goto, if_neg hne]
  busy p' q hq := by
    rw [pc_goto] at hq ⊢
    split_ifs at hq ⊢
    · exact hlocal q hq
    · exact h.busy p' q hq
  fresh p' t ht := by
    rw [pc_goto] at ht
    split_ifs at ht
    · exact (hfresh t ht).1
    · exact h.fresh p' t ht
  unique p₁ p₂ t h₁ h₂ := by
    rw [pc_goto] at h₁ h₂
    split_ifs at h₁ h₂ with e₁ e₂ e₂
    · rw [e₁, e₂]
    · exact absurd h₂ ((hfresh t h₁).2 p₂ e₂)
    · exact absurd h₁ ((hfresh t h₂).2 p₁ e₁)
    · exact h.unique p₁ p₂ t h₁ h₂

/-- The step of the lock words keeps every lock like an atomic one. -/
lemma locked_step (h : Good s) {spin : Spinlock.State P ι} {a : Spinlock.Act P ι}
    (hspin : Spinlock.step s.spin a = some spin) (ha : ∀ q, Spinlock.Proper q s.spin a) (q : ι) :
    ∃ o, Spinlock.Represents q spin o := by
  obtain ⟨o, ho⟩ := h.locked q
  obtain ⟨o', -, ho'⟩ := ho.step (ha q) hspin
  exact ⟨o', ho'⟩

/-- A call begins. -/
lemma step_call (h : Good s) (howns : Owns s (.call p c))
    (ht : LockedQueues.step s (.call p c) = some t) : Good t := by
  obtain ⟨hpc, hmap⟩ := Option.ite_none_right_eq_some.mp ht
  obtain ⟨spin, hspin, rfl⟩ := Option.map_eq_some_iff.mp hmap
  obtain ⟨hlock, hinside⟩ := spin_lock hspin
  refine h.move (h.locked_step hspin fun _ => trivial) (fun p' q => ?_) (fun p' => ?_) ?_ nofun ?_
  · rw [hinside, h.inside_iff]
    split_ifs with hp
    · rw [hp, hpc]
      exact iff_of_false nofun nofun
    · rfl
  · split_ifs with hp
    · rw [hp, hlock]
      rfl
    · rw [(Spinlock.step_others (l := c.queue) hspin hp).1, h.locks_eq]
  · rw [hpc]
    rfl
  · intro t ht
    exact ⟨(howns t ht).1, fun p' _ => (howns t ht).2 p'⟩

/-- A step of `spinlock_lock`. -/
lemma step_lock (h : Good s) (hpc : s.pc p = .lock c) (ht : lockStep s p c = some t) : Good t := by
  obtain ⟨spin, hspin, rfl⟩ := Option.map_eq_some_iff.mp ht
  have hlocked := h.locked_step hspin fun _ => trivial
  have hlocks : spinning (s.spin.pc p) = some c.queue := by
    rw [h.locks_eq, hpc]
    rfl
  have hothers : ∀ p' ≠ p, spinning (spin.pc p') = (s.pc p').locks := fun p' hp => by
    rw [(Spinlock.step_others (l := c.queue) hspin hp).1, h.locks_eq]
  have hfresh : ∀ t, enqueued c = some t →
      (∀ q, t ∉ s.lists q) ∧ ∀ p' ≠ p, (s.pc p').enqueues ≠ some t := by
    intro t ht
    have hp : (s.pc p).enqueues = some t := by rwa [hpc]
    exact ⟨h.fresh p t hp, fun p' hp' ht' => hp' (h.unique p' p t ht' hp)⟩
  have hleave : (s.pc p).section = none := by
    rw [hpc]
    rfl
  rcases spin_run_cases hspin hlocks with ⟨hlock, hinside⟩ | ⟨huser, hinside⟩
  · -- the processor goes on locking
    have hne : spin.pc p ≠ .user := fun e => by
      rw [e] at hlock
      cases hlock
    rw [if_neg hne]
    refine h.move hlocked (fun p' q => ?_) (fun p' => ?_) hleave nofun hfresh
    · rw [hinside, h.inside_iff]
      split_ifs with hp
      · rw [hp, hleave]
        exact iff_of_false nofun nofun
      · rfl
    · split_ifs with hp
      · rw [hp]
        exact hlock
      · exact hothers p' hp
  · -- nobody else has the queue
    rw [if_pos huser]
    have hsection : (Pc.entry c).section = some c.queue := by cases c <;> rfl
    refine h.move hlocked (fun p' q => ?_) (fun p' => ?_) hleave (fun q hq => ?_) ?_
    · rw [hinside]
      by_cases hp : p' = p
      · rw [if_pos hp, hsection]
        by_cases hq : q = c.queue
        · rw [if_pos ⟨hp, hq⟩, hq]
          exact iff_of_true rfl rfl
        · rw [if_neg fun h => hq h.2, h.inside_iff, hp, hleave]
          exact iff_of_false nofun fun h => hq (Option.some.inj h).symm
      · rw [if_neg fun h => hp h.1, if_neg hp, h.inside_iff]
    · split_ifs with hp
      · rw [hp, huser]
        cases c <;> rfl
      · exact hothers p' hp
    · obtain rfl : c.queue = q := Option.some.inj (hsection.symm.trans hq)
      have hfree : ∀ p', (s.pc p').section ≠ some c.queue := by
        intro p' hp'
        obtain ⟨o, ho⟩ := hlocked c.queue
        have hin : spin.inside p' c.queue = true := by
          rw [hinside, (h.inside_iff p' c.queue).mpr hp', ite_self]
        have hinp : spin.inside p c.queue = true := by rw [hinside, if_pos ⟨rfl, rfl⟩]
        rw [ho.law.exclusive p' p hin hinp, hleave] at hp'
        cases hp'
      have hqueue := h.free c.queue hfree
      cases c <;> exact hqueue
    · intro t ht
      refine hfresh t ?_
      cases c <;> exact ht

/-- An access to a queue. -/
lemma step_access (h : Good s) {pc : Pc ι} {store : Store ι}
    (hacc : access s.store (s.pc p) = some (pc, store)) :
    Good (Sys.goto { s with store := store } p pc) := by
  obtain ⟨hsection, henq⟩ := access_call hacc
  obtain ⟨q, hq⟩ : ∃ q, (s.pc p).section = some q := by
    cases hpc : s.pc p with
    | user | lock c =>
      rw [hpc] at hacc
      cases hacc
    | _ => exact ⟨_, rfl⟩
  have hlocal := h.busy p q hq
  obtain ⟨hqueue, hnext⟩ := access_frame hacc hq hlocal
  -- the links of the other queues, and of the threads that are enqueued elsewhere
  have hlink : ∀ r ≠ q, ∀ a ∈ s.lists r, store.next a = s.store.next a := fun r hr a ha =>
    hnext a (fun haq => h.disjoint r q hr ha haq) fun hp => h.fresh p a hp r ha
  have hother : ∀ p' ≠ p, ∀ t, (s.pc p').enqueues = some t → store.next t = s.store.next t :=
    fun p' hp' t ht =>
      hnext t (h.fresh p' t ht q) fun hp => hp' (h.unique p' p t ht hp)
  have henq' : ∀ p', ((Sys.goto { s with store := store } p pc).pc p').enqueues =
      (s.pc p').enqueues := by
    intro p'
    rw [pc_goto]
    split_ifs with hp
    · rw [hp, henq]
    · rfl
  have hsection' : ∀ p', ((Sys.goto { s with store := store } p pc).pc p').section =
      (s.pc p').section := by
    intro p'
    rw [pc_goto]
    split_ifs with hp
    · rw [hp, hsection]
    · rfl
  constructor
  case locked => exact h.locked
  case inside_iff =>
    intro p' r
    rw [hsection']
    exact h.inside_iff p' r
  case locks_eq =>
    intro p'
    rw [pc_goto]
    split_ifs with hp
    · have hspin : spinning (s.spin.pc p) = none := by
        rw [h.locks_eq]
        cases hpc : s.pc p with
        | lock c =>
          rw [hpc] at hq
          cases hq
        | _ => rfl
      rw [hp]
      refine hspin.trans ?_
      cases hpc : pc with
      | lock c =>
        rw [hpc, hq] at hsection
        cases hsection
      | _ => rfl
    · exact h.locks_eq p'
  case answers => exact h.answers
  case disjoint => exact h.disjoint
  case free =>
    intro r hr
    have hrq : r ≠ q := by
      rintro rfl
      exact hr p ((hsection' p).trans hq)
    have hfree := h.free r fun p' hp' => hr p' ((hsection' p').trans hp')
    show IsQueue store.next (store.queue r).head (store.queue r).tail (s.lists r)
    rw [hqueue r hrq]
    exact hfree.frame (hlink r hrq)
  case busy =>
    intro p' r hr
    have hr' := (hsection' p').symm.trans hr
    rw [pc_goto]
    split_ifs with hp
    · subst hp
      obtain rfl : q = r := Option.some.inj (hq.symm.trans hr')
      exact hlocal.access hacc hq fun t ht => h.fresh p' t ht q
    · have hrq : r ≠ q := by
        rintro rfl
        exact hp (h.alone hr' hq)
      show Local store.next (store.queue r) (s.lists r) (s.pc p')
      rw [hqueue r hrq]
      exact (h.busy p' r hr').frame (hlink r hrq) (hother p' hp)
  case fresh =>
    intro p' t ht
    exact h.fresh p' t ((henq' p').symm.trans ht)
  case unique =>
    intro p₁ p₂ t h₁ h₂
    exact h.unique p₁ p₂ t ((henq' p₁).symm.trans h₁) ((henq' p₂).symm.trans h₂)

/-- The threads on the queues when a call has been completed. -/
lemma lists_unlock {spin : Spinlock.State P ι} {r : Option Tid} :
    (Sys.goto { s with spin := spin, log := s.log ++ [⟨c, r⟩] } p .user).lists =
      listCall s.lists c := by
  show Queues.lists ((s.log ++ [(⟨c, r⟩ : Done ι)]).map Done.call) = _
  rw [List.map_append]
  exact lists_concat

omit [DecidableEq P] in
/-- What is known when a call is about to unlock: it has been completed. -/
lemma busy_unlock (h : Good s) {r : Option Tid} (hpc : s.pc p = .unlock c r) :
    r = answer s.lists c ∧ IsQueue s.store.next (s.store.queue c.queue).head
      (s.store.queue c.queue).tail (listCall s.lists c c.queue) := by
  have hlocal := h.busy p c.queue (by rw [hpc]; rfl)
  rw [hpc] at hlocal
  cases c with
  | enqueue q t =>
    refine ⟨hlocal.1, ?_⟩
    show IsQueue _ _ _ (Function.update s.lists q (s.lists q ++ [t]) q)
    rw [Function.update_self]
    exact hlocal.2
  | dequeue q =>
    refine ⟨hlocal.1, ?_⟩
    show IsQueue _ _ _ (Function.update s.lists q (s.lists q).tail q)
    rw [Function.update_self]
    exact hlocal.2

omit [DecidableEq P] in
/-- A call that is completed does not change the other queues. -/
lemma listCall_of_ne {l : ι → List Tid} {q : ι} (hq : q ≠ c.queue) : listCall l c q = l q := by
  cases c <;> exact Function.update_of_ne hq ..

omit [DecidableEq P] in
/-- A thread that is on a queue after a call was on one before, or has been enqueued by it. -/
lemma mem_listCall {l : ι → List Tid} {q : ι} {t : Tid} (ht : t ∈ listCall l c q) :
    t ∈ l q ∨ enqueued c = some t := by
  by_cases hq : q = c.queue
  · subst hq
    cases c with
    | enqueue q v =>
      have hmem : t ∈ l q ++ [v] := by
        simpa only [listCall, Call.queue, Function.update_self] using ht
      rcases List.mem_append.mp hmem with hmem | hmem
      · exact .inl hmem
      · exact .inr (by rw [List.mem_singleton.mp hmem]; rfl)
    | dequeue q =>
      have hmem : t ∈ (l q).tail := by
        simpa only [listCall, Call.queue, Function.update_self] using ht
      exact .inl (List.mem_of_mem_tail hmem)
  · rw [listCall_of_ne hq] at ht
    exact .inl ht

/-- A call unlocks and returns. -/
lemma step_unlock (h : Good s) {r : Option Tid} (hpc : s.pc p = .unlock c r)
    (ht : unlockStep s p c r = some t) : Good t := by
  obtain ⟨spin, hspin, rfl⟩ := Option.map_eq_some_iff.mp ht
  obtain ⟨hspc, hinside⟩ := spin_unlock hspin
  obtain ⟨hanswer, hqueue⟩ := h.busy_unlock hpc
  have hsection : (s.pc p).section = some c.queue := by
    rw [hpc]
    rfl
  have henq : (s.pc p).enqueues = enqueued c := by
    rw [hpc]
    rfl
  have hmay : MayCall s.lists c := by
    cases c with
    | enqueue q t => exact h.fresh p t henq
    | dequeue q => trivial
  constructor
  case locked =>
    refine h.locked_step hspin fun q hq => ?_
    exact (h.inside_iff p q).mpr (hq ▸ hsection)
  case inside_iff =>
    intro p' q
    rw [pc_goto]
    show spin.inside p' q = true ↔ _
    rw [hinside]
    by_cases hp : p' = p
    · rw [if_pos hp]
      by_cases hq : q = c.queue
      · rw [if_pos ⟨hp, hq⟩]
        exact iff_of_false Bool.false_ne_true nofun
      · rw [if_neg fun h => hq h.2, h.inside_iff, hp, hsection]
        exact iff_of_false (fun h => hq (Option.some.inj h).symm) nofun
    · rw [if_neg fun h => hp h.1, if_neg hp, h.inside_iff]
  case locks_eq =>
    intro p'
    rw [pc_goto]
    show spinning (spin.pc p') = _
    rw [hspc]
    split_ifs with hp
    · rw [hp, h.locks_eq, hpc]
      rfl
    · exact h.locks_eq p'
  case answers =>
    intro pre d post hlog
    rcases append_singleton_eq hlog with ⟨rfl, rfl⟩ | ⟨post', hlog'⟩
    · exact hanswer
    · exact h.answers pre d post' hlog'
  case disjoint =>
    rw [lists_unlock]
    exact disjoint_listCall h.disjoint hmay
  case free =>
    intro q hq
    rw [lists_unlock]
    by_cases hqc : q = c.queue
    · subst hqc
      exact hqueue
    · rw [listCall_of_ne hqc]
      refine h.free q fun p' hp' => ?_
      have hne : p' ≠ p := by
        rintro rfl
        exact hqc (Option.some.inj (hp'.symm.trans hsection))
      refine hq p' ?_
      rwa [pc_goto, if_neg hne]
  case busy =>
    intro p' q hq
    rw [pc_goto] at hq ⊢
    split_ifs at hq ⊢ with hp
    · cases hq
    · have hqc : q ≠ c.queue := by
        rintro rfl
        exact hp (h.alone hq hsection)
      rw [lists_unlock, listCall_of_ne hqc]
      exact h.busy p' q hq
  case fresh =>
    intro p' v hv q hmem
    rw [pc_goto] at hv
    split_ifs at hv with hp
    · cases hv
    · rw [lists_unlock] at hmem
      rcases mem_listCall hmem with hmem | hc
      · exact h.fresh p' v hv q hmem
      · exact hp (h.unique p' p v hv (henq.trans hc))
  case unique =>
    intro p₁ p₂ v h₁ h₂
    rw [pc_goto] at h₁ h₂
    split_ifs at h₁
    · cases h₁
    · split_ifs at h₂
      · cases h₂
      · exact h.unique p₁ p₂ v h₁ h₂

/-- **The invariant is kept** by every step. -/
theorem step (h : Good s) {a : Act P ι} (ha : Owns s a) (ht : LockedQueues.step s a = some t) :
    Good t := by
  cases a with
  | call p c => exact h.step_call ha ht
  | run p =>
    have hacc : ∀ pc : Pc ι, s.pc p = pc → (access s.store pc).map
        (fun x => Sys.goto { s with store := x.2 } p x.1) = some t → Good t := by
      intro pc hpc hmap
      obtain ⟨⟨pc', store⟩, hx, rfl⟩ := Option.map_eq_some_iff.mp hmap
      exact h.step_access (hpc ▸ hx)
    cases hpc : s.pc p with
    | user => simp [LockedQueues.step, hpc, access] at ht
    | lock c => exact h.step_lock hpc (by simpa only [LockedQueues.step, hpc] using ht)
    | unlock c r => exact h.step_unlock hpc (by simpa only [LockedQueues.step, hpc] using ht)
    | _ => exact hacc _ hpc (by simpa only [LockedQueues.step, hpc] using ht)

end Step

end Good

/-! ## Runs -/

variable [DecidableEq P]

/-- **The calls are atomic** in every state of every run in which a thread is enqueued only by
somebody who has it. -/
theorem linear_of_run (next : Tid → Option Tid) {acts : List (Act P ι)}
    (hC : AllSteps step Owns (init next) acts) : Throughout step Linear (init next) acts :=
  fun pre suf hpre t ht => (throughout_of_invariant (fun _ _ _ h ha hs => h.step ha hs)
    (Good.init next) hC pre suf hpre t ht).linear

end Good

/-- Two processors enqueue a thread each, and one of them has to wait for the lock. Then one takes a
thread off the queue while the other one works on another queue. -/
def contended : List (Act Bool Bool) :=
  [.call false (.enqueue false 1), .call true (.enqueue false 2), .run false, .run true,
    .run false, .run true, .run true, .run true] ++ List.replicate 6 (.run false) ++
  [.run true] ++ List.replicate 2 (.run false) ++ List.replicate 10 (.run true) ++
  [.call false (.dequeue false), .call true (.enqueue true 3)] ++
  (List.replicate 10 [.run false, .run true]).flatten

theorem linear_contended :
    (run step (init fun _ => some 7) contended).map (·.log) =
        some [⟨.enqueue false 1, none⟩, ⟨.enqueue false 2, none⟩, ⟨.dequeue false, some 1⟩,
          ⟨.enqueue true 3, none⟩] ∧
      Throughout step Linear (init fun _ => some 7) contended :=
  ⟨by decide +kernel, linear_of_run _ (by decide +kernel)⟩

end Uthread.LockedQueues
