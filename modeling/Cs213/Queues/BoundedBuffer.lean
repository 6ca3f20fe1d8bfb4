import Cs213.Library.Fifo
import Mathlib.Data.Int.Notation
import Mathlib.Tactic.SplitIfs

set_option relaxedAutoImplicit false
set_option autoImplicit false

/-!
# The bounded buffer

`bounded_buffer.c`: `enqueue` advances the tail before it writes, and once more after it, so an
element is not written where `dequeue` reads it.

## Main definitions

* `BoundedBuffer.State` — the buffer.
* `BoundedBuffer.enqueue`, `BoundedBuffer.dequeue` — the two operations.
* `BoundedBuffer.Law` — the buffer behaves as a queue with room for `size - 1` elements.

## Main results

* `BoundedBuffer.enqueue_head` — an element is never written at the head.
* `BoundedBuffer.bufferLaw_iff` — the law holds exactly if nothing is ever enqueued.
* `BoundedBuffer.enqueueDequeue_not_law` — an element that is not returned.

## Implementation notes

`QUEUE_SIZE` is the parameter `size`. What the buffer holds after some calls is what `dequeue`
returns when it is called again and again from then on.
-/

namespace BoundedBuffer

open Fifo

/-! ## The code -/

/-- A C `int`. -/
abbrev CInt := BitVec 32

/-- The buffer. -/
structure State where
  queue : ℕ → CInt
  queueHead : ℕ
  queueTail : ℕ

/-- The initial values of the variables. -/
def State.start : State := ⟨fun _ => 0, 0, 0⟩

variable (size : ℕ)

/-- `enqueue`. -/
def enqueue (val : CInt) (s : State) : State :=
  if (s.queueTail + 1) % size = s.queueHead then s
  else
    let tail := (s.queueTail + 1) % size
    { s with
      queue := Function.update s.queue tail val
      queueTail := (tail + 1) % size }

/-- `dequeue`. -/
def dequeue (s : State) : CInt × State :=
  if s.queueHead = s.queueTail then (-1, s)
  else (s.queue s.queueHead, { s with queueHead := (s.queueHead + 1) % size })

/-- The bounded buffer, as a queue. -/
def buffer : Queue CInt CInt State where
  init := .start
  put := enqueue size
  take := dequeue size

/-! ## The law -/

/-- The queue with room for `size - 1` elements, and `-1` in place of the oldest element when there
is none. -/
def spec : Queue CInt CInt (List CInt) :=
  fifo (· < size - 1) (·.getD (-1))

/-- **First in, first out**: when `val 0`, `val 1`, ... are enqueued, every `dequeue` returns what
the queue returns, and after the calls the buffer holds what the queue holds, as any number of calls
of `dequeue` can tell. -/
def Law (val : ℕ → CInt) (calls : List Call) : Prop :=
  ∀ n, (buffer size).outputs val (calls ++ List.replicate n .take) =
    (spec size).outputs val (calls ++ List.replicate n .take)

/-! ## Simulation -/

/-- **An element is never written at the head**, because the place that is written is compared with
it. -/
theorem enqueue_head (val : CInt) (s : State) :
    (enqueue size val s).queueHead = s.queueHead ∧
      (enqueue size val s).queue s.queueHead = s.queue s.queueHead := by
  simp only [enqueue]
  split_ifs with hfull
  · exact ⟨rfl, rfl⟩
  · exact ⟨rfl, Function.update_of_ne (Ne.symm hfull) _ _⟩

variable {size}

/-- Before the first `dequeue` after an `enqueue`: nothing has been taken, and the place at the head
still has its initial value. -/
structure Untouched (val : ℕ → CInt) (calls : List Call) (s : State) (l : List CInt) : Prop where
  head : s.queueHead = 0
  slot : s.queue 0 = 0
  fresh : .put ∉ calls → s.queueTail = 0 ∧ l = []
  oldest : .put ∈ calls → l.head? = some (val 0)

variable {val : ℕ → CInt} {calls : List Call} {s : State} {l : List CInt}

lemma untouched_start : Untouched val [] .start [] where
  head := rfl
  slot := rfl
  fresh _ := ⟨rfl, rfl⟩
  oldest h := absurd h (List.not_mem_nil)

/-- An element is put, and the oldest element of the queue remains what it was. -/
lemma Untouched.enqueue (hsize : 2 ≤ size) (h : Untouched val calls s l) :
    Untouched val (calls ++ [.put]) (enqueue size (val (calls.count .put)) s)
      ((spec size).put (val (calls.count .put)) l) := by
  obtain ⟨hhead, hslot⟩ := enqueue_head size (val (calls.count .put)) s
  refine ⟨by rw [hhead, h.head], by rw [← h.head, hslot, h.head, h.slot], by simp, fun _ => ?_⟩
  by_cases hput : .put ∈ calls
  · have hl := h.oldest hput
    simp only [spec, fifo]
    split_ifs
    · rw [List.head?_append, hl, Option.some_or]
    · exact hl
  · have hroom : 0 < size - 1 := by omega
    have hcount : calls.count .put = 0 := List.count_eq_zero.mpr hput
    simp [spec, fifo, (h.fresh hput).2, hroom, hcount]

/-- A `dequeue` before all `enqueue`s returns `-1`, from the buffer and from the queue. -/
lemma Untouched.dequeue_fresh (size : ℕ) (h : Untouched val calls s l) (hput : .put ∉ calls) :
    dequeue size s = (-1, s) ∧ (spec size).take l = (-1, l) := by
  obtain ⟨htail, rfl⟩ := h.fresh hput
  exact ⟨by rw [dequeue, if_pos (by rw [h.head, htail])], rfl⟩

/-- A `dequeue` after an `enqueue` returns `-1` or the initial value of the place at the head. -/
lemma Untouched.dequeue_put (size : ℕ) (h : Untouched val calls s l) :
    (dequeue size s).1 = -1 ∨ (dequeue size s).1 = 0 := by
  rw [dequeue]
  split_ifs
  · exact .inl rfl
  · exact .inr (by rw [h.head, h.slot])

/-- The buffer simulates the queue until a `dequeue` follows an `enqueue`. -/
lemma simulates (hsize : 2 ≤ size) (val : ℕ → CInt) :
    Simulates (buffer size) (spec size) val (.put ∉ ·) (Untouched val) where
  init := untouched_start
  put h := h.enqueue hsize
  take := by
    intro pre s l h hok
    obtain ⟨e, e'⟩ := h.dequeue_fresh size hok
    have e : (buffer size).take s = (-1, s) := e
    rw [e, e']
    exact ⟨rfl, { h with
      fresh := fun _ => h.fresh hok
      oldest := fun hput => absurd hput (by simpa using hok) }⟩

/-- **The bounded buffer**: whatever the elements are, the buffer behaves as a queue exactly if
there is no `enqueue`. -/
theorem bufferLaw_iff (size : ℕ) (hsize : 2 ≤ size) (calls : List Call) :
    (∀ val, Law size val calls) ↔ .put ∉ calls := by
  constructor
  · intro h
    have hmeet : TakesMeet (.put ∉ ·) (calls ++ List.replicate 1 .take) := by
      refine (simulates hsize fun _ => 1).takesMeet_of_outputs_eq ?_ (h (fun _ => 1) 1)
      intro pre s l hR hbad heq
      have hspec : ((spec size).take l).1 = 1 := by
        simp [spec, fifo, hR.oldest (Classical.not_not.mp hbad)]
      have hbuffer : (dequeue size s).1 = 1 := heq.trans hspec
      rcases hR.dequeue_put size with h' | h' <;>
        · rw [h'] at hbuffer
          exact absurd hbuffer (by decide)
    -- the last of the calls is a `dequeue`
    exact hmeet calls [] rfl
  · intro hput val n
    refine (simulates hsize val).outputs_eq fun pre post e hpre => ?_
    have hmem : .put ∈ calls ++ List.replicate n .take := e ▸ List.mem_append_left _ hpre
    rcases List.mem_append.mp hmem with hmem | hmem
    · exact hput hmem
    · cases List.eq_of_mem_replicate hmem

theorem law_takes : Law 16 (fun _ => 7) [.take, .take] :=
  (bufferLaw_iff 16 (by decide) [.take, .take]).mpr (by simp) fun _ => 7

/-- **An element is not returned**: the only element is enqueued, and `dequeue` returns `0`. -/
theorem enqueueDequeue_not_law :
    ¬ ∀ size, 2 ≤ size → ∀ val calls, Law size val calls := by
  intro h
  have hlaw := h 16 (by decide) (fun _ => 7) [.put] 1
  revert hlaw
  decide +kernel

end BoundedBuffer
