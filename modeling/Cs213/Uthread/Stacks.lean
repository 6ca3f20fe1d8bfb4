import Cs213.Library.Alignment
import Cs213.Library.Runs
import Cs213.Uthread.State
import Mathlib

set_option relaxedAutoImplicit false
set_option autoImplicit false

/-!
# The stacks of the threads

Where the stacks of the threads of `a9/uthread.c` are, and what the program records about them. The
initial thread and the pthreads run on native stacks: `uthread_init` and `pthread_base` record
bounds around the address of one of their local variables. A thread of `uthread_new_thread` runs on
the `STACK_SIZE` bytes from the first multiple of `STACK_SIZE` in a block of twice as many bytes,
and the lowest word of this area points at the thread.

## Main definitions

* `Uthread.Stacks.Native`, `Uthread.Stacks.Block` — a native stack, and what `uthread_new_thread`
  allocates.
* `Uthread.Stacks.Globals` — the recorded bounds and the stored pointers.
* `Uthread.Stacks.uthreadSelf` — `uthread_self`, from the address of its `dummy_local`.
* `Uthread.Stacks.Layout` — the stacks of a program, and the calls that record them.

## Main results

* `Uthread.Stacks.Block.le_slot`, `Uthread.Stacks.Block.savedSp_le` — the stack area lies in the
  block.
* `Uthread.Stacks.Block.down_eq_slot_iff` — the addresses of the stack area are the ones that are
  rounded down to the slot.
* `Uthread.Stacks.Layout.globals_eq` — what has been recorded after the calls.
* `Uthread.Stacks.Layout.globals_isSome_iff` — the calls return if there are not too many pthreads.

## Implementation notes

An address, a `uintptr_t`, has `w` bits; the source is compiled for words of 64 and of 32 bits.
`NATIVE_STACK_SIZE` is a parameter, since it may be defined on the command line;
`PTHREAD_SETSTACK_SUPPORT` is `0` everywhere. Memory is modelled as far as `uthread_new_thread`
stores threads in it; what nobody has stored is `none`. Where malloc puts a block, and where a
native stack is, is arbitrary.
-/

namespace Uthread.Stacks

variable {w : ℕ}

/-- `STACK_SIZE`. -/
def stackSize (w : ℕ) : BitVec w := 8 * 1024 * 1024

/-- `MAX_PTHREADS`. -/
def maxPthreads : ℕ := 100

/-- The bytes of a block, `STACK_SIZE * 2`. -/
def blockSize : ℕ := 8 * 1024 * 1024 * 2

/-! ### The data -/

/-- A native stack: the thread that runs on it, its lowest address, and the address of the local
variable that `uthread_init` or `pthread_base` records. -/
structure Native (w : ℕ) where
  thread : Tid
  stack : BitVec w
  recorded : BitVec w
  deriving DecidableEq, Repr

/-- What `uthread_new_thread` allocates: a thread, and the field `stack`, the lowest address of its
block. -/
structure Block (w : ℕ) where
  thread : Tid
  stack : BitVec w
  deriving DecidableEq, Repr

/-- The field `saved_sp`, as `uthread_new_thread` sets it first. -/
def Block.savedSp (b : Block w) : BitVec w :=
  ((b.stack + stackSize w - 1) &&& ~~~(stackSize w - 1)) + stackSize w

/-- The address at which `uthread_new_thread` stores the thread. -/
def Block.slot (b : Block w) : BitVec w := (b.savedSp - 1) &&& ~~~(stackSize w - 1)

/-- The bounds that are recorded for a thread on a native stack. -/
structure Bounds (w : ℕ) where
  thread : Tid
  spLowerBound : BitVec w
  spUpperBound : BitVec w
  deriving DecidableEq, Repr

/-- The bounds around the address of a local variable. -/
def Bounds.around (nativeStackSize : BitVec w) (thread : Tid) (local_ : BitVec w) : Bounds w where
  thread := thread
  spUpperBound := local_ + 1024
  spLowerBound := local_ - nativeStackSize

/-- The test of `uthread_self` for one pair of bounds. -/
def Bounds.Covers (p : Bounds w) (dummyLocal : BitVec w) : Prop :=
  dummyLocal ≥ p.spLowerBound ∧ dummyLocal ≤ p.spUpperBound

instance (p : Bounds w) : DecidablePred p.Covers :=
  fun x => inferInstanceAs (Decidable (x ≥ p.spLowerBound ∧ x ≤ p.spUpperBound))

/-- The variables `base_thread`, `base_sp_lower_bound` and `base_sp_upper_bound`, the first
`num_pthreads` entries of the arrays of `pthread_base`, and the threads stored in memory. -/
structure Globals (w : ℕ) where
  base : Bounds w
  pthreads : List (Bounds w)
  memory : BitVec w → Option Tid

/-! ### The code -/

section Code

variable (nativeStackSize : BitVec w)

/-- `uthread_init`, as far as it records bounds. -/
def uthreadInit (n : Native w) : Globals w where
  base := .around nativeStackSize n.thread n.recorded
  pthreads := []
  memory := fun _ => none

/-- `pthread_base`, as far as it records bounds. The uthread that `uthread_init` makes calls it with
a null argument. -/
def pthreadBase (arg : Option Tid) (addrOfArg : BitVec w) (g : Globals w) : Option (Globals w) :=
  match arg with
  | none => some g
  | some thread =>
    if g.pthreads.length < maxPthreads then
      some { g with pthreads := g.pthreads ++ [.around nativeStackSize thread addrOfArg] }
    else none

/-- `uthread_new_thread`, as far as it stores the thread. -/
def uthreadNewThread (b : Block w) (g : Globals w) : Globals w :=
  { g with memory := Function.update g.memory b.slot (some b.thread) }

/-- `uthread_self`, with the address of its local variable. -/
def uthreadSelf (g : Globals w) (dummyLocal : BitVec w) : Option Tid :=
  if g.base.Covers dummyLocal then some g.base.thread
  else
    match g.pthreads.find? fun p => p.Covers dummyLocal with
    | some p => some p.thread
    | none => g.memory (dummyLocal &&& ~~~(stackSize w - 1))

/-- The calls that record a stack. -/
inductive Call (w : ℕ)
  | pthreadBase (n : Native w)
  | uthreadNewThread (b : Block w)
  deriving DecidableEq, Repr

/-- The native stack of the call, if it is one of `pthread_base`. -/
def Call.native? : Call w → Option (Native w)
  | pthreadBase n => some n
  | uthreadNewThread _ => none

/-- The block of the call, if it is one of `uthread_new_thread`. -/
def Call.block? : Call w → Option (Block w)
  | pthreadBase _ => none
  | uthreadNewThread b => some b

/-- A call. -/
def call (g : Globals w) : Call w → Option (Globals w)
  | .pthreadBase n => pthreadBase nativeStackSize (some n.thread) n.recorded g
  | .uthreadNewThread b => some (uthreadNewThread b g)

end Code

/-- The stacks of a program: the one of the initial thread, and those of the calls, which are made
in some order. -/
structure Layout (w : ℕ) where
  base : Native w
  calls : List (Call w)
  deriving DecidableEq, Repr

namespace Layout

/-- The native stacks of the pthreads. -/
def pthreads (l : Layout w) : List (Native w) := l.calls.filterMap Call.native?

/-- The native stacks. -/
def natives (l : Layout w) : List (Native w) := l.base :: l.pthreads

/-- The blocks. -/
def blocks (l : Layout w) : List (Block w) := l.calls.filterMap Call.block?

/-- The threads that run in their block: `pthread_base` runs the others on native stacks. -/
def uthreads (l : Layout w) : List (Block w) :=
  l.blocks.filter fun b => b.thread ∉ l.natives.map Native.thread

/-- The variables after `uthread_init` and the calls; `none` if an assertion fails. -/
def globals (nativeStackSize : BitVec w) (l : Layout w) : Option (Globals w) :=
  Runs.run (call nativeStackSize) (uthreadInit nativeStackSize l.base) l.calls

end Layout

/-! ### The stack area of a block -/

lemma stackSize_eq : stackSize w = BitVec.ofNat w (2 ^ 23) := by
  show BitVec.ofNat w 8 * BitVec.ofNat w 1024 * BitVec.ofNat w 1024 = _
  rw [← BitVec.ofNat_mul, ← BitVec.ofNat_mul]
  rfl

lemma stackSize_sub_one : stackSize w - 1 = BitVec.ofNat w (2 ^ 23 - 1) := by
  have hsucc : BitVec.ofNat w (2 ^ 23) = BitVec.ofNat w (2 ^ 23 - 1) + 1 :=
    BitVec.ofNat_add (2 ^ 23 - 1) 1
  rw [stackSize_eq, hsucc, BitVec.add_sub_cancel]

/-- The mask of the source rounds down. -/
lemma and_mask_eq (x : BitVec w) : x &&& ~~~(stackSize w - 1) = Alignment.down 23 x := by
  rw [stackSize_sub_one, Alignment.down]

namespace Block

variable {b : Block w} {x : BitVec w}

lemma savedSp_eq : b.savedSp = Alignment.up 23 b.stack + stackSize w := by
  have hassoc : b.stack + stackSize w - 1 = b.stack + (stackSize w - 1) := by
    rw [BitVec.sub_eq_add_neg, BitVec.sub_eq_add_neg, BitVec.add_assoc]
  rw [savedSp, and_mask_eq, hassoc, stackSize_sub_one, Alignment.up]

variable (hb : b.stack.toNat + blockSize ≤ 2 ^ w)

include hb

lemma toNat_stackSize : (stackSize w).toNat = 2 ^ 23 := by
  rw [stackSize_eq, BitVec.toNat_ofNat]
  apply Nat.mod_eq_of_lt
  unfold blockSize at hb
  omega

/-- The first address above the area, as a number. -/
lemma toNat_savedSp_up : b.savedSp.toNat = (Alignment.up 23 b.stack).toNat + 2 ^ 23 := by
  unfold blockSize at hb
  have hlt := Alignment.up_lt (k := 23) (x := b.stack) (by omega)
  rw [savedSp_eq, BitVec.toNat_add, toNat_stackSize hb]
  exact Nat.mod_eq_of_lt (by omega)

/-- The slot is the first word of the area. -/
lemma slot_eq : b.slot = Alignment.up 23 b.stack := by
  have hsp := toNat_savedSp_up hb
  have hone : (1 : BitVec w).toNat = 1 := by
    unfold blockSize at hb
    have hlt : 1 < 2 ^ w := by omega
    exact Nat.mod_eq_of_lt hlt
  have hsub : (b.savedSp - 1).toNat = b.savedSp.toNat - 1 := by
    rw [BitVec.toNat_sub_of_le, hone]
    rw [BitVec.le_def, hone]
    omega
  rw [slot, and_mask_eq]
  apply Alignment.down_eq Alignment.dvd_up <;> omega

/-- **The area** has the size of a stack. -/
theorem toNat_savedSp : b.savedSp.toNat = b.slot.toNat + 2 ^ 23 := by
  rw [slot_eq hb, toNat_savedSp_up hb]

/-- **The area lies in the block**: it starts in it. -/
theorem le_slot : b.stack.toNat ≤ b.slot.toNat := by
  rw [slot_eq hb]
  unfold blockSize at hb
  exact Alignment.le_up (by omega)

/-- **The area lies in the block**: it ends in it. -/
theorem savedSp_le : b.savedSp.toNat ≤ b.stack.toNat + blockSize := by
  rw [toNat_savedSp_up hb]
  unfold blockSize at hb ⊢
  have hlt := Alignment.up_lt (k := 23) (x := b.stack) (by omega)
  omega

/-- **The addresses of the area** are the ones that are rounded down to the slot. -/
theorem down_eq_slot_iff : x &&& ~~~(stackSize w - 1) = b.slot ↔ b.slot ≤ x ∧ x < b.savedSp := by
  have hsp := toNat_savedSp hb
  rw [and_mask_eq, BitVec.le_def, BitVec.lt_def]
  constructor
  · intro h
    have hle := Alignment.down_le (k := 23) (x := x)
    have hlt := Alignment.lt_down_add (k := 23) (x := x)
    rw [h] at hle hlt
    omega
  · rintro ⟨hle, hlt⟩
    refine Alignment.down_eq ?_ hle (by omega)
    rw [slot_eq hb]
    exact Alignment.dvd_up

end Block

/-! ### What is recorded -/

/-- The memory after the threads of the blocks have been stored. -/
def stored (memory : BitVec w → Option Tid) (blocks : List (Block w)) : BitVec w → Option Tid :=
  blocks.foldl (fun m b => Function.update m b.slot (some b.thread)) memory

section Stored

variable {memory : BitVec w → Option Tid} {blocks : List (Block w)} {x : BitVec w}

/-- Memory is unchanged away from the slots. -/
lemma stored_of_ne (h : ∀ b ∈ blocks, x ≠ b.slot) : stored memory blocks x = memory x := by
  induction blocks generalizing memory with
  | nil => rfl
  | cons b blocks ih =>
    rw [List.forall_mem_cons] at h
    show stored (Function.update memory b.slot (some b.thread)) blocks x = _
    rw [ih h.2, Function.update_of_ne h.1]

/-- A slot holds its thread, if the slots are different. -/
lemma stored_slot (h : blocks.Pairwise fun b c => b.slot ≠ c.slot) {b : Block w}
    (hb : b ∈ blocks) : stored memory blocks b.slot = some b.thread := by
  induction blocks generalizing memory with
  | nil => cases hb
  | cons c blocks ih =>
    rw [List.pairwise_cons] at h
    obtain ⟨hc, hblocks⟩ := h
    show stored (Function.update memory c.slot (some c.thread)) blocks b.slot = _
    rcases List.mem_cons.mp hb with rfl | hb
    · rw [stored_of_ne hc, Function.update_self]
    · exact ih hblocks hb

end Stored

namespace Layout

variable {nativeStackSize : BitVec w} {l : Layout w}

/-- What the calls record, from any state of the variables. -/
lemma run_call_eq {g : Globals w} {calls : List (Call w)} (hg : g.pthreads.length ≤ maxPthreads) :
    Runs.run (call nativeStackSize) g calls =
      if g.pthreads.length + (calls.filterMap Call.native?).length ≤ maxPthreads then
        some
          { base := g.base
            pthreads := g.pthreads ++ (calls.filterMap Call.native?).map fun n =>
              .around nativeStackSize n.thread n.recorded
            memory := stored g.memory (calls.filterMap Call.block?) }
      else none := by
  induction calls generalizing g with
  | nil => simp [stored, hg]
  | cons c calls ih =>
    rw [Runs.run_cons]
    cases c with
    | uthreadNewThread b =>
      show Runs.run (call nativeStackSize) (uthreadNewThread b g) calls = _
      rw [ih (g := uthreadNewThread b g) hg]
      rfl
    | pthreadBase n =>
      show (pthreadBase nativeStackSize (some n.thread) n.recorded g).bind _ = _
      have hnative : (Call.pthreadBase n :: calls).filterMap Call.native? =
          n :: calls.filterMap Call.native? := rfl
      have hblock : (Call.pthreadBase n :: calls).filterMap Call.block? =
          calls.filterMap Call.block? := rfl
      rw [hnative, hblock, List.length_cons]
      by_cases hlt : g.pthreads.length < maxPthreads
      · have hroom : (g.pthreads ++
            [Bounds.around nativeStackSize n.thread n.recorded]).length ≤ maxPthreads := by
          rw [List.length_append]
          exact hlt
        simp only [pthreadBase, if_pos hlt, Option.bind_some]
        rw [ih hroom]
        simp [Nat.add_assoc, Nat.add_comm 1]
      · simp only [pthreadBase, if_neg hlt, Option.bind_none]
        rw [if_neg (by omega)]

/-- **What has been recorded** after the calls. -/
theorem globals_eq (h : l.pthreads.length ≤ maxPthreads) :
    l.globals nativeStackSize = some
      { base := .around nativeStackSize l.base.thread l.base.recorded
        pthreads := l.pthreads.map fun n => .around nativeStackSize n.thread n.recorded
        memory := stored (fun _ => none) l.blocks } := by
  unfold globals
  rw [run_call_eq (Nat.zero_le _), if_pos]
  · rfl
  · show 0 + l.pthreads.length ≤ maxPthreads
    omega

/-- **The calls return** if and only if the arrays have room for the pthreads. -/
theorem globals_isSome_iff :
    (l.globals nativeStackSize).isSome ↔ l.pthreads.length ≤ maxPthreads := by
  unfold globals
  rw [run_call_eq (Nat.zero_le _)]
  show (if 0 + l.pthreads.length ≤ maxPthreads then _ else none).isSome ↔ _
  rw [Nat.zero_add]
  split_ifs with h <;> simp [h]

end Layout

end Uthread.Stacks
