import Cs213.Library.Linked
import Cs213.Uthread.State
import Mathlib.Data.List.Induction
import Mathlib.Data.List.Lattice

set_option relaxedAutoImplicit false
set_option autoImplicit false

/-!
# The thread queues

The queues of `a9/uthread.c`, the ready queue and the waiter queues of the monitors, are linked
through the field `next` of the threads, and `dequeue` does not reset it. The lists of
`Uthread.State` are what they stand for: as long as a thread is put on a queue only when it is on
none, each of them behaves like a list of its own.

## Main definitions

* `Uthread.Queues.Store` — the field `next` of all threads, and the queues.
* `Uthread.Queues.enqueue`, `Uthread.Queues.dequeue` — the code.
* `Uthread.Queues.answers` — what `dequeue` returns in a sequence of calls.
* `Uthread.Queues.lists` — what the queues stand for after a sequence of calls.
* `Uthread.Queues.Represents` — the invariant.
* `Uthread.Queues.Refines` — the queues behave like lists.

## Main results

* `Uthread.Queues.Represents.enqueue`, `Uthread.Queues.Represents.dequeue` — a call keeps the
  invariant.
* `Uthread.Queues.represents_after` — the invariant holds after every admissible sequence of calls.
* `Uthread.Queues.after_refines` — the queues behave like lists.

## Implementation notes

A pointer to a thread is `none` if it is null. `uthread_alloc` does not set `next`, so it is
arbitrary at first. The type `ι` has a name for each of the queues.
-/

namespace Uthread.Queues

open Linked

/-! ### The code -/

/-- `struct uthread_queue`. -/
structure Queue where
  head : Option Tid
  tail : Option Tid
  deriving DecidableEq, Repr

/-- `initqueue`. -/
def initqueue : Queue where
  head := none
  tail := none

/-- The field `next` of the threads, and the queues. -/
structure Store (ι : Type*) where
  next : Tid → Option Tid
  queue : ι → Queue

variable {ι : Type*} [DecidableEq ι]

/-- `thread->next = v`. -/
def Store.setNext (s : Store ι) (thread : Tid) (v : Option Tid) : Store ι :=
  { s with next := Function.update s.next thread v }

/-- `queue->head = v`. -/
def Store.setHead (s : Store ι) (q : ι) (v : Option Tid) : Store ι :=
  { s with queue := Function.update s.queue q { s.queue q with head := v } }

/-- `queue->tail = v`. -/
def Store.setTail (s : Store ι) (q : ι) (v : Option Tid) : Store ι :=
  { s with queue := Function.update s.queue q { s.queue q with tail := v } }

/-- `enqueue`. -/
def enqueue (q : ι) (thread : Tid) (s : Store ι) : Store ι :=
  let s := s.setNext thread none
  let s := match (s.queue q).tail with
    | some tail => s.setNext tail (some thread)
    | none => s
  let s := s.setTail q (some thread)
  if (s.queue q).head = none then s.setHead q (s.queue q).tail else s

/-- `dequeue`. -/
def dequeue (q : ι) (s : Store ι) : Option Tid × Store ι :=
  match (s.queue q).head with
  | some thread =>
    let s := s.setHead q (s.next thread)
    (some thread, if (s.queue q).head = none then s.setTail q none else s)
  | none => (none, s)

/-- `ready_queue_enqueue`, under `ready_queue_spinlock`; the waiter queue of monitor `m` is
`some m`. -/
def readyQueueEnqueue (thread : Tid) (s : Store (Option Mid)) : Store (Option Mid) :=
  enqueue none thread s

/-- `ready_queue_dequeue`, under `ready_queue_spinlock`. -/
def readyQueueDequeue (s : Store (Option Mid)) : Option Tid × Store (Option Mid) := dequeue none s

/-! ### Sequences of calls -/

/-- The calls. -/
inductive Call (ι : Type*)
  | enqueue (q : ι) (thread : Tid)
  | dequeue (q : ι)
  deriving DecidableEq, Repr

/-- The queue of a call. -/
def Call.queue : Call ι → ι
  | enqueue q _ => q
  | dequeue q => q

/-- A call. -/
def call (s : Store ι) : Call ι → Store ι
  | .enqueue q thread => enqueue q thread s
  | .dequeue q => (dequeue q s).2

/-- The queues after `initqueue` of each of them; `next` is whatever it was. -/
def init (next : Tid → Option Tid) : Store ι where
  next := next
  queue := fun _ => initqueue

/-- The queues after a sequence of calls. -/
def after (next : Tid → Option Tid) (calls : List (Call ι)) : Store ι :=
  calls.foldl call (init next)

/-- What the calls of `dequeue` on one of the queues return. -/
def answers (q : ι) : Store ι → List (Call ι) → List (Option Tid)
  | _, [] => []
  | s, c :: cs => (if c = .dequeue q then [(dequeue q s).1] else []) ++ answers q (call s c) cs

lemma answers_append (q : ι) (s : Store ι) (cs ds : List (Call ι)) :
    answers q s (cs ++ ds) = answers q s cs ++ answers q (cs.foldl call s) ds := by
  induction cs generalizing s with
  | nil => rfl
  | cons c cs ih => simp [answers, ih]

/-! ### Lists -/

/-- A call on lists, the oldest thread of each first. -/
def listCall (l : ι → List Tid) : Call ι → ι → List Tid
  | .enqueue q thread => Function.update l q (l q ++ [thread])
  | .dequeue q => Function.update l q (l q).tail

/-- What the queues stand for after a sequence of calls. -/
def lists (calls : List (Call ι)) : ι → List Tid := calls.foldl listCall fun _ => []

/-- A thread is enqueued only when it is on no queue. -/
def MayCall (l : ι → List Tid) : Call ι → Prop
  | .enqueue _ thread => ∀ q, thread ∉ l q
  | .dequeue _ => True

/-- All calls of the sequence enqueue a thread only when it is on no queue. -/
def Admissible (calls : List (Call ι)) : Prop :=
  ∀ pre c post, calls = pre ++ c :: post → MayCall (lists pre) c

/-- **The queues behave like lists**: `dequeue` returns the oldest thread, or null if there is none;
`head` and `tail` are null together; the way from `head` visits the threads, each of them once, and
ends at `tail`; and a call leaves the other queues as they are. -/
structure Refines (s : Store ι) (l : ι → List Tid) : Prop where
  answer : ∀ q, (dequeue q s).1 = (l q).head?
  null : ∀ q, (s.queue q).head = none ↔ (s.queue q).tail = none
  chain : ∀ q, Seg s.next (s.queue q).head (l q) none
  nodup : ∀ q, (l q).Nodup
  last : ∀ q, (s.queue q).tail = (l q).getLast?
  others : ∀ c, MayCall l c → ∀ q ≠ c.queue,
    (call s c).queue q = s.queue q ∧ Seg (call s c).next (s.queue q).head (l q) none

/-! ### What a call does -/

section Effect

variable {q r : ι} {thread : Tid} {s : Store ι}

/-- `enqueue` links the thread behind the tail, if there is one. -/
lemma enqueue_next : (enqueue q thread s).next = match (s.queue q).tail with
    | some tail => Function.update (Function.update s.next thread none) tail (some thread)
    | none => Function.update s.next thread none := by
  unfold enqueue
  cases htail : (s.queue q).tail <;> simp only [Store.setNext, htail] <;> split_ifs <;> rfl

/-- `enqueue` makes the thread the tail, and the head if there was none. -/
lemma enqueue_queue : (enqueue q thread s).queue = Function.update s.queue q
    ⟨if (s.queue q).head = none then some thread else (s.queue q).head, some thread⟩ := by
  unfold enqueue
  cases htail : (s.queue q).tail <;> cases hhead : (s.queue q).head <;>
    simp [Store.setNext, Store.setTail, Store.setHead, htail, hhead]

/-- `dequeue` returns the head. -/
lemma dequeue_fst : (dequeue q s).1 = (s.queue q).head := by
  unfold dequeue
  cases (s.queue q).head <;> rfl

/-- `dequeue` leaves all links. -/
lemma dequeue_next : (dequeue q s).2.next = s.next := by
  unfold dequeue
  cases (s.queue q).head with
  | none => rfl
  | some thread =>
    show (if _ then _ else _ : Store ι).next = _
    split_ifs <;> rfl

/-- `dequeue` of an empty queue does nothing. -/
lemma dequeue_of_none (h : (s.queue q).head = none) : (dequeue q s).2 = s := by
  unfold dequeue
  rw [h]

/-- `dequeue` makes the thread after the head the new head. -/
lemma dequeue_queue (h : (s.queue q).head = some thread) : (dequeue q s).2.queue =
    Function.update s.queue q
      ⟨s.next thread, if s.next thread = none then none else (s.queue q).tail⟩ := by
  unfold dequeue
  rw [h]
  cases hnext : s.next thread <;> simp [Store.setTail, Store.setHead, hnext]

/-- **A call does not touch the other queues.** -/
lemma call_queue_of_ne {c : Call ι} (h : r ≠ c.queue) : (call s c).queue r = s.queue r := by
  cases c with
  | enqueue q thread =>
    show (enqueue q thread s).queue r = _
    rw [enqueue_queue]
    exact Function.update_of_ne h ..
  | dequeue q =>
    show (dequeue q s).2.queue r = _
    cases hhead : (s.queue q).head with
    | none => rw [dequeue_of_none hhead]
    | some thread =>
      rw [dequeue_queue hhead]
      exact Function.update_of_ne h ..

end Effect

/-! ### The invariant -/

/-- A list that shares no thread with the other ones takes the place of one of them. -/
lemma disjoint_update {l : ι → List Tid} {q : ι}
    (h : ∀ q r, q ≠ r → (l q).Disjoint (l r)) {m : List Tid} (hm : ∀ r ≠ q, m.Disjoint (l r)) :
    ∀ r r', r ≠ r' → (Function.update l q m r).Disjoint (Function.update l q m r') := by
  intro r r' hne
  by_cases hr : r = q
  · subst hr
    rw [Function.update_self, Function.update_of_ne hne.symm]
    exact hm r' hne.symm
  · by_cases hr' : r' = q
    · subst hr'
      rw [Function.update_self, Function.update_of_ne hr]
      exact (hm r hr).symm
    · rw [Function.update_of_ne hr, Function.update_of_ne hr']
      exact h r r' hne

/-- A call leaves no thread on two queues. -/
lemma disjoint_listCall {l : ι → List Tid} {c : Call ι} (h : ∀ q r, q ≠ r → (l q).Disjoint (l r))
    (hc : MayCall l c) : ∀ q r, q ≠ r → (listCall l c q).Disjoint (listCall l c r) := by
  cases c with
  | enqueue q thread =>
    refine disjoint_update h fun r hr => ?_
    rw [List.disjoint_append_left, List.singleton_disjoint]
    exact ⟨h q r hr.symm, hc r⟩
  | dequeue q =>
    refine disjoint_update h fun r hr => ?_
    exact List.disjoint_of_subset_left (fun _ => List.mem_of_mem_tail) (h q r hr.symm)

/-- The queues are linked lists of the threads on them, and no thread is on two of them. -/
structure Represents (s : Store ι) (l : ι → List Tid) : Prop where
  isQueue : ∀ q, IsQueue s.next (s.queue q).head (s.queue q).tail (l q)
  disjoint : ∀ q r, q ≠ r → (l q).Disjoint (l r)

omit [DecidableEq ι] in
lemma represents_init (next : Tid → Option Tid) : Represents (init next) fun _ : ι => [] :=
  ⟨fun _ => IsQueue.nil, fun _ _ _ => List.disjoint_nil_left _⟩

namespace Represents

variable {s : Store ι} {l : ι → List Tid} {q : ι} {thread : Tid}

/-- A list that shares no thread with the other ones takes the place of one of them. -/
lemma disjoint_update (h : Represents s l) {m : List Tid} (hm : ∀ r ≠ q, m.Disjoint (l r)) :
    ∀ r r', r ≠ r' → (Function.update l q m r).Disjoint (Function.update l q m r') :=
  Queues.disjoint_update h.disjoint hm

/-- `enqueue` changes no link of another queue. -/
lemma enqueue_next_eq (h : Represents s l) {r : ι} (hr : r ≠ q) (hthread : thread ∉ l r) :
    ∀ a ∈ l r, (Queues.enqueue q thread s).next a = s.next a := by
  intro a ha
  have hat : a ≠ thread := by
    rintro rfl
    exact hthread ha
  rw [enqueue_next]
  cases htail : (s.queue q).tail with
  | none => exact Function.update_of_ne hat ..
  | some tail =>
    -- the tail is on `q`
    have hmem : tail ∈ l q := by
      apply List.mem_of_getLast?
      rw [← (h.isQueue q).tail_eq, htail]
    have hatail : a ≠ tail := by
      rintro rfl
      exact h.disjoint r q hr ha hmem
    show Function.update (Function.update s.next thread none) tail (some thread) a = _
    rw [Function.update_of_ne hatail, Function.update_of_ne hat]

/-- **`enqueue` keeps the invariant** if the thread is on no queue. -/
theorem enqueue (h : Represents s l) (hthread : ∀ q, thread ∉ l q) :
    Represents (Queues.enqueue q thread s) (Function.update l q (l q ++ [thread])) where
  isQueue r := by
    rw [enqueue_queue]
    by_cases hr : r = q
    · subst hr
      rw [Function.update_self, Function.update_self, enqueue_next]
      have hq := h.isQueue r
      cases htail : (s.queue r).tail with
      | none =>
        have hhead := hq.head_eq_none_iff.mpr htail
        have hempty : l r = [] := by
          rw [← List.head?_eq_none_iff, ← hq.head_eq, hhead]
        rw [if_pos hhead, hempty]
        exact IsQueue.push_nil
      | some tail =>
        have hhead : (s.queue r).head ≠ none := by
          rw [Ne, hq.head_eq_none_iff, htail]
          exact nofun
        rw [htail] at hq
        rw [if_neg hhead]
        exact hq.push (hthread r)
    · rw [Function.update_of_ne hr, Function.update_of_ne hr]
      exact (h.isQueue r).frame (h.enqueue_next_eq hr (hthread r))
  disjoint := by
    apply h.disjoint_update
    intro r hr
    rw [List.disjoint_append_left, List.singleton_disjoint]
    exact ⟨h.disjoint q r hr.symm, hthread r⟩

/-- **`dequeue` returns the oldest thread.** -/
theorem dequeue_fst (h : Represents s l) : (Queues.dequeue q s).1 = (l q).head? := by
  rw [Queues.dequeue_fst, (h.isQueue q).head_eq]

/-- **`dequeue` keeps the invariant.** -/
theorem dequeue (h : Represents s l) :
    Represents (Queues.dequeue q s).2 (Function.update l q (l q).tail) := by
  have hq := h.isQueue q
  have hhead := hq.head_eq
  cases hl : l q with
  | nil =>
    rw [hl] at hhead
    rw [dequeue_of_none hhead, List.tail_nil, ← hl, Function.update_eq_self]
    exact h
  | cons a m =>
    rw [hl] at hhead hq
    constructor
    case isQueue =>
      intro r
      rw [dequeue_next, dequeue_queue hhead]
      by_cases hr : r = q
      · subst hr
        rw [Function.update_self, Function.update_self]
        exact hq.pop
      · rw [Function.update_of_ne hr, Function.update_of_ne hr]
        exact h.isQueue r
    case disjoint =>
      apply h.disjoint_update
      intro r hr
      have hdisj := h.disjoint q r hr.symm
      rw [hl, List.disjoint_cons_left] at hdisj
      exact hdisj.2

/-- **A call keeps the invariant.** -/
theorem call (h : Represents s l) {c : Call ι} (hc : MayCall l c) :
    Represents (Queues.call s c) (listCall l c) := by
  cases c with
  | enqueue q thread => exact h.enqueue hc
  | dequeue q => exact h.dequeue

/-- **The other queues** are as they were. -/
theorem call_of_ne (h : Represents s l) {c : Call ι} (hc : MayCall l c) (hq : q ≠ c.queue) :
    (Queues.call s c).queue q = s.queue q ∧
      Seg (Queues.call s c).next (s.queue q).head (l q) none := by
  have hqueue : (Queues.call s c).queue q = s.queue q := call_queue_of_ne hq
  have hlist : listCall l c q = l q := by
    cases c <;> exact Function.update_of_ne hq ..
  have hseg := ((h.call hc).isQueue q).seg
  rw [hqueue, hlist] at hseg
  exact ⟨hqueue, hseg⟩

/-- Queues with the invariant behave like lists. -/
theorem refines (h : Represents s l) : Refines s l where
  answer _ := h.dequeue_fst
  null q := (h.isQueue q).head_eq_none_iff
  chain q := (h.isQueue q).seg
  nodup q := (h.isQueue q).seg.nodup
  last q := (h.isQueue q).tail_eq
  others _ hc _ hq := h.call_of_ne hc hq

end Represents

/-! ### Sequences of calls -/

section Calls

variable {next : Tid → Option Tid} {calls : List (Call ι)} {c : Call ι}

lemma after_concat : after next (calls ++ [c]) = call (after next calls) c := by
  unfold after
  rw [List.foldl_append]
  rfl

lemma lists_concat : lists (calls ++ [c]) = listCall (lists calls) c := by
  unfold lists
  rw [List.foldl_append]
  rfl

/-- The last call of an admissible sequence apart. -/
lemma Admissible.of_concat (h : Admissible (calls ++ [c])) :
    Admissible calls ∧ MayCall (lists calls) c := by
  refine ⟨fun pre d post hcalls => h pre d (post ++ [c]) ?_, h calls c [] rfl⟩
  rw [hcalls, List.append_assoc]
  rfl

omit [DecidableEq ι] in
/-- An entry of a list that has been extended by one. -/
lemma append_singleton_eq {α : Type*} {l pre post : List α} {a d : α}
    (h : l ++ [a] = pre ++ d :: post) : (pre = l ∧ d = a) ∨ ∃ post', l = pre ++ d :: post' := by
  rcases List.eq_nil_or_concat post with rfl | ⟨post', e, rfl⟩
  · obtain ⟨hpre, hd⟩ := List.append_inj' h rfl
    cases hd
    exact .inl ⟨hpre.symm, rfl⟩
  · rw [List.concat_eq_append, ← List.cons_append, ← List.append_assoc] at h
    exact .inr ⟨post', (List.append_inj' h rfl).1⟩

lemma admissible_nil : Admissible ([] : List (Call ι)) := by
  intro pre c post h
  simp at h

/-- An admissible sequence goes on with a call that is allowed. -/
lemma Admissible.concat (h : Admissible calls) (hc : MayCall (lists calls) c) :
    Admissible (calls ++ [c]) := by
  intro pre d post heq
  rcases append_singleton_eq heq with ⟨rfl, rfl⟩ | ⟨post', hcalls⟩
  · exact hc
  · exact h pre d post' hcalls

/-- **The invariant** holds after every admissible sequence of calls. -/
theorem represents_after (h : Admissible calls) : Represents (after next calls) (lists calls) := by
  induction calls using List.reverseRecOn with
  | nil => exact represents_init next
  | append_singleton calls c ih =>
    obtain ⟨hcalls, hc⟩ := h.of_concat
    rw [after_concat, lists_concat]
    exact (ih hcalls).call hc

end Calls

/-- **The queues behave like lists** after every sequence of calls that enqueues a thread only when
it is on no queue. -/
theorem after_refines (next : Tid → Option Tid) {calls : List (Call ι)} (h : Admissible calls) :
    Refines (after next calls) (lists calls) :=
  (represents_after h).refines

/-- A thread that was on the ready queue waits for a monitor. -/
def waitAfterReady : List (Call (Option Mid)) :=
  [.enqueue none 1, .enqueue none 2, .dequeue none, .enqueue (some 0) 1]

theorem after_refines_waitAfterReady :
    Refines (after (fun _ => some 1) waitAfterReady) (lists waitAfterReady) := by
  have h₁ : Admissible [Call.enqueue (none : Option Mid) 1] :=
    admissible_nil.concat fun _ => List.not_mem_nil
  have h₂ : Admissible [Call.enqueue (none : Option Mid) 1, .enqueue none 2] :=
    h₁.concat (by rintro (_ | m) <;> simp [lists, listCall])
  have h₃ : Admissible [Call.enqueue (none : Option Mid) 1, .enqueue none 2, .dequeue none] :=
    h₂.concat trivial
  apply after_refines
  exact h₃.concat (by rintro (_ | m) <;> simp [lists, listCall])

end Uthread.Queues
