import Cs213.Uthread.Queues
import Cs213.Uthread.Spinlock
import Mathlib.Data.Fintype.Basic

set_option relaxedAutoImplicit false
set_option autoImplicit false

/-!
# Queues under their spinlocks

`enqueue` and `dequeue` are called with a spinlock held: `ready_queue_enqueue` and
`ready_queue_dequeue` lock `ready_queue_spinlock`, and the waiter queue of a monitor is protected by
the spinlock of the monitor. Here every access of a lock word, of a field of a queue and of the
field `next` of a thread is a step of its own. All queues share the field `next`, and queues with
different spinlocks are worked on at the same time.

A call takes effect when it unlocks. `Uthread.LockedQueues.linear_of_run` says that the calls in the
order in which they unlock are a sequence of calls one after the other, with the same answers.

## Main definitions

* `Uthread.LockedQueues.Pc`, `Uthread.LockedQueues.access` — the accesses of `enqueue` and
  `dequeue`.
* `Uthread.LockedQueues.Sys`, `Uthread.LockedQueues.step` — any number of processors and queues.
* `Uthread.LockedQueues.Owns` — a processor enqueues a thread only if nobody else has it.
* `Uthread.LockedQueues.Linear` — the calls that have been completed are atomic.
* `Uthread.LockedQueues.Local` — what is known at each point about the queue that is locked.

## Main results

* `Uthread.LockedQueues.Local.frame`, `Uthread.LockedQueues.access_frame` — accesses to different
  queues do not meet.
* `Uthread.LockedQueues.Local.access` — an access leads from what is known before it to what is
  known after it.
* `Uthread.LockedQueues.Local.access_ne_none` — no null pointer is dereferenced.
-/

namespace Uthread.LockedQueues

open Runs Linked Queues

/-! ## The code -/

/-- What a processor does next: every point is named after the access it makes. The arguments are
the queue and the local variables, a pointer being `none` if it is null. -/
inductive Pc (ι : Type*)
  | user
  /-- `spinlock_lock` -/
  | lock (c : Call ι)
  /-- `enqueue`: `thread->next = 0` -/
  | clearNext (q : ι) (thread : Tid)
  /-- `if (queue->tail)` -/
  | testTail (q : ι) (thread : Tid)
  /-- `queue->tail->next = thread`: load the tail -/
  | loadTail (q : ι) (thread : Tid)
  | linkTail (q : ι) (thread : Tid) (tail : Option Tid)
  /-- `queue->tail = thread` -/
  | setTail (q : ι) (thread : Tid)
  /-- `if (queue->head==0)` -/
  | testHead (q : ι) (thread : Tid)
  /-- `queue->head = queue->tail`: load the tail -/
  | reloadTail (q : ι) (thread : Tid)
  | setHead (q : ι) (thread : Tid) (tail : Option Tid)
  /-- `dequeue`: `if (queue->head)` -/
  | testEmpty (q : ι)
  /-- `thread = queue->head` -/
  | loadThread (q : ι)
  /-- `queue->head = queue->head->next`: load the head -/
  | loadHead (q : ι) (thread : Option Tid)
  | loadNext (q : ι) (thread head : Option Tid)
  | advance (q : ι) (thread next : Option Tid)
  /-- `if (queue->head==0)` -/
  | testLast (q : ι) (thread : Option Tid)
  /-- `queue->tail=0` -/
  | clearTail (q : ι) (thread : Option Tid)
  /-- `spinlock_unlock`, to return `answer` -/
  | unlock (c : Call ι) (answer : Option Tid)
  deriving DecidableEq, Repr

/-- The first access of a call. -/
def Pc.entry {ι : Type*} : Call ι → Pc ι
  | .enqueue q thread => .clearNext q thread
  | .dequeue q => .testEmpty q

section Access

variable {ι : Type*} [DecidableEq ι]

/-- An access, and the point after it. A null pointer is not dereferenced. -/
def access (s : Store ι) : Pc ι → Option (Pc ι × Store ι)
  | .user | .lock _ | .unlock _ _ => none
  | .clearNext q thread => some (.testTail q thread, s.setNext thread none)
  | .testTail q thread =>
    some (if (s.queue q).tail = none then .setTail q thread else .loadTail q thread, s)
  | .loadTail q thread => some (.linkTail q thread (s.queue q).tail, s)
  | .linkTail q thread tail => tail.map fun a => (.setTail q thread, s.setNext a (some thread))
  | .setTail q thread => some (.testHead q thread, s.setTail q (some thread))
  | .testHead q thread =>
    some (if (s.queue q).head = none then .reloadTail q thread
      else .unlock (.enqueue q thread) none, s)
  | .reloadTail q thread => some (.setHead q thread (s.queue q).tail, s)
  | .setHead q thread tail => some (.unlock (.enqueue q thread) none, s.setHead q tail)
  | .testEmpty q =>
    some (if (s.queue q).head = none then .unlock (.dequeue q) none else .loadThread q, s)
  | .loadThread q => some (.loadHead q (s.queue q).head, s)
  | .loadHead q thread => some (.loadNext q thread (s.queue q).head, s)
  | .loadNext q thread head => head.map fun a => (.advance q thread (s.next a), s)
  | .advance q thread next => some (.testLast q thread, s.setHead q next)
  | .testLast q thread =>
    some (if (s.queue q).head = none then .clearTail q thread
      else .unlock (.dequeue q) thread, s)
  | .clearTail q thread => some (.unlock (.dequeue q) thread, s.setTail q none)

end Access

/-- A call that has been completed, and what it has returned. -/
structure Done (ι : Type*) where
  call : Call ι
  answer : Option Tid
  deriving DecidableEq, Repr

/-- The lock words, the queues, what each processor does next, and the calls that have been
completed so far. -/
structure Sys (P ι : Type*) where
  spin : Spinlock.State P ι
  store : Store ι
  pc : P → Pc ι
  log : List (Done ι)

/-- A processor makes a call, or its next access. -/
inductive Act (P ι : Type*)
  | call (p : P) (c : Call ι)
  | run (p : P)
  deriving DecidableEq, Repr

section Step

variable {P ι : Type*} [DecidableEq P] [DecidableEq ι]

/-- Processor `p` goes on at `pc`. -/
def Sys.goto (s : Sys P ι) (p : P) (pc : Pc ι) : Sys P ι :=
  { s with pc := Function.update s.pc p pc }

/-- The next step of `spinlock_lock`, which may be its last one. -/
def lockStep (s : Sys P ι) (p : P) (c : Call ι) : Option (Sys P ι) :=
  (Spinlock.step s.spin (.run p)).map fun spin =>
    Sys.goto { s with spin := spin } p (if spin.pc p = .user then .entry c else .lock c)

/-- `spinlock_unlock`, and the return. -/
def unlockStep (s : Sys P ι) (p : P) (c : Call ι) (answer : Option Tid) : Option (Sys P ι) :=
  (Spinlock.step s.spin (.call p (.spinlockUnlock c.queue))).map fun spin =>
    Sys.goto { s with spin := spin, log := s.log ++ [⟨c, answer⟩] } p .user

/-- **The step function.** The steps of `spinlock_lock` are those of `Uthread.Spinlock.step`. -/
def step (s : Sys P ι) : Act P ι → Option (Sys P ι)
  | .call p c =>
    if s.pc p = .user then
      (Spinlock.step s.spin (.call p (.spinlockLock c.queue))).map fun spin =>
        Sys.goto { s with spin := spin } p (.lock c)
    else none
  | .run p => match s.pc p with
    | .lock c => lockStep s p c
    | .unlock c answer => unlockStep s p c answer
    | pc => (access s.store pc).map fun x => Sys.goto { s with store := x.2 } p x.1

/-- All locks have been created and all queues initialised. -/
def init (next : Tid → Option Tid) : Sys P ι where
  spin := ⟨fun _ => 0, fun _ => .user, fun _ _ => false⟩
  store := Queues.init next
  pc _ := .user
  log := []

end Step

/-! ## The law -/

section Law

variable {P ι : Type*}

/-- The queue that a processor has locked. -/
def Pc.section : Pc ι → Option ι
  | .user | .lock _ => none
  | .clearNext q _ | .testTail q _ | .loadTail q _ | .linkTail q _ _ | .setTail q _ | .testHead q _
  | .reloadTail q _ | .setHead q _ _ | .testEmpty q | .loadThread q | .loadHead q _
  | .loadNext q _ _ | .advance q _ _ | .testLast q _ | .clearTail q _ => some q
  | .unlock c _ => some c.queue

/-- The thread that a call enqueues. -/
def enqueued : Call ι → Option Tid
  | .enqueue _ thread => some thread
  | .dequeue _ => none

/-- The thread that a processor is enqueuing. -/
def Pc.enqueues : Pc ι → Option Tid
  | .lock c | .unlock c _ => enqueued c
  | .clearNext _ t | .testTail _ t | .loadTail _ t | .linkTail _ t _ | .setTail _ t | .testHead _ t
  | .reloadTail _ t | .setHead _ t _ => some t
  | .user | .testEmpty _ | .loadThread _ | .loadHead _ _ | .loadNext _ _ _ | .advance _ _ _
  | .testLast _ _ | .clearTail _ _ => none

/-- What a call of a queue with these entries returns. -/
def answer (l : ι → List Tid) : Call ι → Option Tid
  | .enqueue _ _ => none
  | .dequeue q => (l q).head?

variable [DecidableEq ι]

/-- The threads on the queues after the calls that have been completed. -/
def Sys.lists (s : Sys P ι) : ι → List Tid := Queues.lists (s.log.map Done.call)

/-- **The promise of the callers**: a thread that is enqueued is on no queue, and nobody else is
enqueuing it. -/
def Owns (s : Sys P ι) : Act P ι → Prop
  | .call _ c => ∀ t ∈ enqueued c, (∀ q, t ∉ s.lists q) ∧ ∀ p, (s.pc p).enqueues ≠ some t
  | .run _ => True

instance [Fintype P] [Fintype ι] (s : Sys P ι) : DecidablePred (Owns s)
  | .call _ c => inferInstanceAs (Decidable
      (∀ t ∈ enqueued c, (∀ q, t ∉ s.lists q) ∧ ∀ p, (s.pc p).enqueues ≠ some t))
  | .run _ => isTrue trivial

/-- **The calls are atomic**: what they have returned is what they return if they are made one after
the other, in the order in which they were completed; when no call is between locking and unlocking,
the linked queues are what the calls have left; and no access dereferences a null pointer. -/
structure Linear (s : Sys P ι) : Prop where
  answers : ∀ pre d post, s.log = pre ++ d :: post →
    d.answer = answer (Queues.lists (pre.map Done.call)) d.call
  represents : (∀ p, (s.pc p).section = none) → Represents s.store s.lists
  alone : ∀ p p' q, (s.pc p).section = some q → (s.pc p').section = some q → p = p'
  enabled : ∀ p q, (s.pc p).section = some q → (∀ c r, s.pc p ≠ .unlock c r) →
    access s.store (s.pc p) ≠ none

end Law

/-! ## One queue -/

/-- A thread has been linked behind the last one of the list, and is the tail when the processor is
beyond the store: what has still to be stored is the head, if there was none. -/
structure Half (next : Tid → Option Tid) (head : Option Tid) (l : List Tid) (t : Tid) : Prop where
  seg : Seg next (if l = [] then some t else head) (l ++ [t]) none
  head_iff : head = none ↔ l = []

/-- **What is known at each point** about the queue that is locked, where `l` are the threads on it
before the call. -/
def Local {ι : Type*} (next : Tid → Option Tid) (queue : Queue) (l : List Tid) : Pc ι → Prop
  | .user | .lock _ => True
  | .clearNext _ _ | .testEmpty _ => IsQueue next queue.head queue.tail l
  | .testTail _ t => IsQueue next queue.head queue.tail l ∧ next t = none
  | .loadTail _ t => IsQueue next queue.head queue.tail l ∧ next t = none ∧ queue.tail ≠ none
  | .linkTail _ t tail =>
    IsQueue next queue.head queue.tail l ∧ next t = none ∧ queue.tail ≠ none ∧ tail = queue.tail
  | .setTail _ t => Half next queue.head l t
  | .testHead _ t => Half next queue.head l t ∧ queue.tail = some t
  | .reloadTail _ t => Half next queue.head l t ∧ queue.tail = some t ∧ queue.head = none
  | .setHead _ t tail =>
    Half next queue.head l t ∧ queue.tail = some t ∧ queue.head = none ∧ tail = some t
  | .loadThread _ => IsQueue next queue.head queue.tail l ∧ queue.head ≠ none
  | .loadHead _ thread =>
    IsQueue next queue.head queue.tail l ∧ queue.head ≠ none ∧ thread = queue.head
  | .loadNext _ thread head =>
    IsQueue next queue.head queue.tail l ∧ queue.head ≠ none ∧ thread = queue.head ∧
      head = queue.head
  | .advance _ thread n =>
    ∃ a m, l = a :: m ∧ thread = some a ∧ IsQueue next queue.head queue.tail l ∧ n = next a
  | .testLast _ thread =>
    ∃ a m, l = a :: m ∧ thread = some a ∧ Seg next queue.head m none ∧ queue.tail = l.getLast?
  | .clearTail _ thread => ∃ a, l = [a] ∧ thread = some a ∧ queue.head = none
  | .unlock (.enqueue _ t) r => r = none ∧ IsQueue next queue.head queue.tail (l ++ [t])
  | .unlock (.dequeue _) r => r = l.head? ∧ IsQueue next queue.head queue.tail l.tail

namespace Half

variable {next next' : Tid → Option Tid} {head tail : Option Tid} {l : List Tid} {t a : Tid}

lemma frame (h : Half next head l t) (hl : ∀ a ∈ l, next' a = next a) (ht : next' t = next t) :
    Half next' head l t where
  seg := h.seg.congr fun a ha => by
    rcases List.mem_append.mp ha with ha | ha
    · exact hl a ha
    · rw [List.mem_singleton.mp ha, ht]
  head_iff := h.head_iff

/-- Nothing is linked to a thread that comes into the empty queue. -/
lemma of_empty (h : IsQueue next head none l) (ht : next t = none) : Half next head l t := by
  have hhead := h.head_eq_none_iff.mpr rfl
  have hnil : l = [] := by rw [← List.head?_eq_none_iff, ← h.head_eq, hhead]
  subst hnil
  exact ⟨⟨rfl, ht⟩, iff_of_true hhead rfl⟩

/-- The last thread is linked to the one that comes behind it. -/
lemma of_link (h : IsQueue next head (some a) l) (hnext : next t = none) (ht : t ∉ l) :
    Half (Function.update next a (some t)) head l t := by
  have hpush := h.push ht
  have hsame : Function.update next t none = next := by rw [← hnext, Function.update_eq_self]
  rw [hsame] at hpush
  have hne : l ≠ [] := by
    rintro rfl
    cases h.tail_eq
  have hhead : head ≠ none := by
    rw [h.head_eq, Ne, List.head?_eq_none_iff]
    exact hne
  refine ⟨?_, iff_of_false hhead hne⟩
  rw [if_neg hne]
  exact hpush.seg

/-- The queue is complete if it has a head. -/
lemma isQueue (h : Half next head l t) (hhead : head ≠ none) :
    IsQueue next head (some t) (l ++ [t]) := by
  have hseg := h.seg
  rw [if_neg (mt h.head_iff.mpr hhead)] at hseg
  exact ⟨hseg, by simp⟩

/-- It is complete when the head has been stored. -/
lemma isQueue_of_none (h : Half next none l t) : IsQueue next (some t) (some t) (l ++ [t]) := by
  have hseg := h.seg
  rw [if_pos (h.head_iff.mp rfl)] at hseg
  exact ⟨hseg, by simp⟩

end Half

section Local

variable {ι : Type*} [DecidableEq ι] {next next' : Tid → Option Tid} {queue : Queue} {l : List Tid}
  {s s' : Store ι} {pc pc' : Pc ι} {q : ι}

omit [DecidableEq ι] in
/-- **The frame rule**: only the links of the threads on the queue matter, and that of the thread
that is enqueued. -/
lemma Local.frame (h : Local next queue l pc) (hl : ∀ a ∈ l, next' a = next a)
    (ht : ∀ t, pc.enqueues = some t → next' t = next t) : Local next' queue l pc := by
  cases pc with
  | user | lock c => trivial
  | clearNext q t | testEmpty q => exact IsQueue.frame h hl
  | testTail q t => exact ⟨h.1.frame hl, (ht t rfl).trans h.2⟩
  | loadTail q t | linkTail q t tail => exact ⟨h.1.frame hl, (ht t rfl).trans h.2.1, h.2.2⟩
  | setTail q t => exact Half.frame h hl (ht t rfl)
  | testHead q t | reloadTail q t | setHead q t tail => exact ⟨h.1.frame hl (ht t rfl), h.2⟩
  | loadThread q | loadHead q t | loadNext q t head => exact ⟨h.1.frame hl, h.2⟩
  | advance q t n =>
    obtain ⟨a, m, rfl, ha, hqueue, hn⟩ := h
    exact ⟨a, m, rfl, ha, hqueue.frame hl, hn.trans (hl a List.mem_cons_self).symm⟩
  | testLast q t =>
    obtain ⟨a, m, rfl, ha, hseg, htail⟩ := h
    exact ⟨a, m, rfl, ha, hseg.congr fun b hb => hl b (List.mem_cons_of_mem a hb), htail⟩
  | clearTail q t => exact h
  | unlock c r =>
    cases c with
    | enqueue q t =>
      refine ⟨h.1, h.2.frame fun a ha => ?_⟩
      rcases List.mem_append.mp ha with ha | ha
      · exact hl a ha
      · rw [List.mem_singleton.mp ha, ht t rfl]
    | dequeue q => exact ⟨h.1, h.2.frame fun a ha => hl a (List.mem_of_mem_tail ha)⟩

/-- An access goes on in the same call. -/
lemma access_call (h : access s pc = some (pc', s')) :
    pc'.section = pc.section ∧ pc'.enqueues = pc.enqueues := by
  cases pc with
  | user | lock c | unlock c r => cases h
  | linkTail q t tail | loadNext q t head =>
    obtain ⟨a, -, heq⟩ := Option.map_eq_some_iff.mp h
    cases heq
    exact ⟨rfl, rfl⟩
  | testTail q t | testHead q t | testEmpty q | testLast q t =>
    cases h
    split_ifs <;> exact ⟨rfl, rfl⟩
  | _ =>
    cases h
    exact ⟨rfl, rfl⟩

/-- An access changes no other queue, and no links but those of the threads on the queue and of the
thread that is enqueued. -/
lemma access_frame (h : access s pc = some (pc', s')) (hq : pc.section = some q)
    (hlocal : Local s.next (s.queue q) l pc) :
    (∀ r ≠ q, s'.queue r = s.queue r) ∧
      ∀ a, a ∉ l → pc.enqueues ≠ some a → s'.next a = s.next a := by
  cases pc with
  | user | lock c | unlock c r => cases h
  | linkTail q t tail =>
    obtain ⟨a, ha, heq⟩ := Option.map_eq_some_iff.mp h
    cases heq
    cases hq
    refine ⟨fun _ _ => rfl, fun b hb _ => Function.update_of_ne ?_ ..⟩
    rintro rfl
    -- the last thread is on the queue
    obtain ⟨hqueue, -, -, htail⟩ := hlocal
    exact hb (List.mem_of_getLast? (by rw [← hqueue.tail_eq, ← htail, ha]))
  | loadNext q t head =>
    obtain ⟨a, -, heq⟩ := Option.map_eq_some_iff.mp h
    cases heq
    exact ⟨fun _ _ => rfl, fun _ _ _ => rfl⟩
  | clearNext q t =>
    cases h
    refine ⟨fun _ _ => rfl, fun a _ ha => Function.update_of_ne ?_ ..⟩
    rintro rfl
    exact ha rfl
  | setTail q t | setHead q t tail | advance q t n | clearTail q t =>
    cases h
    cases hq
    exact ⟨fun r hr => Function.update_of_ne hr .., fun _ _ _ => rfl⟩
  | _ =>
    cases h
    exact ⟨fun _ _ => rfl, fun _ _ _ => rfl⟩

/-- **An access** leads from what is known before it to what is known after it. -/
theorem Local.access (hlocal : Local s.next (s.queue q) l pc)
    (h : LockedQueues.access s pc = some (pc', s')) (hq : pc.section = some q)
    (hfresh : ∀ t, pc.enqueues = some t → t ∉ l) : Local s'.next (s'.queue q) l pc' := by
  cases pc with
  | user | lock c | unlock c r => cases h
  | clearNext q t =>
    cases h
    cases hq
    have ht : t ∉ l := hfresh t rfl
    refine ⟨IsQueue.frame hlocal fun a ha => Function.update_of_ne ?_ .., Function.update_self ..⟩
    rintro rfl
    exact ht ha
  | testTail q t =>
    cases h
    cases hq
    obtain ⟨hqueue, ht⟩ := hlocal
    split_ifs with htail
    · exact Half.of_empty (htail ▸ hqueue) ht
    · exact ⟨hqueue, ht, htail⟩
  | loadTail q t =>
    cases h
    cases hq
    exact ⟨hlocal.1, hlocal.2.1, hlocal.2.2, rfl⟩
  | linkTail q t tail =>
    obtain ⟨a, ha, heq⟩ := Option.map_eq_some_iff.mp h
    cases heq
    cases hq
    obtain ⟨hqueue, ht, -, htail⟩ := hlocal
    have htail' : (s.queue q).tail = some a := htail.symm.trans ha
    exact Half.of_link (htail' ▸ hqueue) ht (hfresh t rfl)
  | setTail q t =>
    cases h
    cases hq
    simpa [Local, Store.setTail] using hlocal
  | testHead q t =>
    cases h
    cases hq
    obtain ⟨hhalf, htail⟩ := hlocal
    split_ifs with hhead
    · exact ⟨hhalf, htail, hhead⟩
    · exact ⟨rfl, htail ▸ hhalf.isQueue hhead⟩
  | reloadTail q t =>
    cases h
    cases hq
    exact ⟨hlocal.1, hlocal.2.1, hlocal.2.2, hlocal.2.1⟩
  | setHead q t tail =>
    cases h
    cases hq
    obtain ⟨hhalf, htail, hhead, rfl⟩ := hlocal
    rw [hhead] at hhalf
    simpa [Local, Store.setHead, htail] using hhalf.isQueue_of_none
  | testEmpty q =>
    cases h
    cases hq
    have hqueue : IsQueue s.next (s.queue q).head (s.queue q).tail l := hlocal
    split_ifs with hhead
    · have hnil : l = [] := by rw [← List.head?_eq_none_iff, ← hqueue.head_eq, hhead]
      subst hnil
      exact ⟨rfl, hqueue⟩
    · exact ⟨hqueue, hhead⟩
  | loadThread q =>
    cases h
    cases hq
    exact ⟨hlocal.1, hlocal.2, rfl⟩
  | loadHead q t =>
    cases h
    cases hq
    exact ⟨hlocal.1, hlocal.2.1, hlocal.2.2, rfl⟩
  | loadNext q t head =>
    obtain ⟨a, ha, heq⟩ := Option.map_eq_some_iff.mp h
    cases heq
    cases hq
    obtain ⟨hqueue, -, rfl, hhead⟩ := hlocal
    have hhead' : (s.queue q).head = some a := hhead.symm.trans ha
    have hl : l.head? = some a := hqueue.head_eq.symm.trans hhead'
    obtain ⟨m, rfl⟩ := List.head?_eq_some_iff.mp hl
    exact ⟨a, m, rfl, hhead', hqueue, rfl⟩
  | advance q t n =>
    cases h
    cases hq
    obtain ⟨a, m, rfl, ht, hqueue, rfl⟩ := hlocal
    obtain ⟨-, hseg⟩ := hqueue.seg
    refine ⟨a, m, rfl, ht, ?_, ?_⟩
    · simpa [Store.setHead] using hseg
    · simpa [Store.setHead] using hqueue.tail_eq
  | testLast q t =>
    cases h
    cases hq
    obtain ⟨a, m, rfl, ht, hseg, htail⟩ := hlocal
    split_ifs with hhead
    · have hnil : m = [] := by rw [← List.head?_eq_none_iff, ← hseg.eq_head?, hhead]
      subst hnil
      exact ⟨a, rfl, ht, hhead⟩
    · refine ⟨ht, hseg, htail.trans ?_⟩
      cases m with
      | nil => exact absurd hseg.eq_head? hhead
      | cons b m => exact List.getLast?_cons_cons
  | clearTail q t =>
    cases h
    cases hq
    obtain ⟨a, rfl, ht, hhead⟩ := hlocal
    refine ⟨ht, ?_⟩
    simpa [Store.setTail, hhead] using IsQueue.nil

/-- **No null pointer** is dereferenced. -/
theorem Local.access_ne_none (hlocal : Local s.next (s.queue q) l pc) (hq : pc.section = some q)
    (hne : ∀ c r, pc ≠ .unlock c r) : LockedQueues.access s pc ≠ none := by
  cases pc with
  | user | lock c => cases hq
  | unlock c r => exact absurd rfl (hne c r)
  | linkTail r t tail =>
    obtain ⟨-, -, htail, rfl⟩ := hlocal
    exact fun h => htail (Option.map_eq_none_iff.mp h)
  | loadNext r t head =>
    obtain ⟨-, hhead, -, rfl⟩ := hlocal
    exact fun h => hhead (Option.map_eq_none_iff.mp h)
  | _ => exact Option.some_ne_none _

end Local

end Uthread.LockedQueues
