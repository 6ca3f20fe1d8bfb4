import Cs213.Uthread.Self

set_option relaxedAutoImplicit false
set_option autoImplicit false

/-!
# The stack areas

`uthread_new_thread` places the stack of a thread in a block from malloc, and `uthread_self` finds
the thread by clearing the low bits of an address in this stack. The areas are in their blocks, so
the lookup finds the thread as long as malloc keeps apart the blocks that are in use, wherever it
puts them, and whatever has been freed and allocated again.

## Main definitions

* `Uthread.Stacks.Block.area`, `Uthread.Stacks.Block.slotBytes` — the stack area of a block, and the
  bytes of the pointer in it.
* `Uthread.Stacks.Block.LayoutLaw` — the area is in the block, and its addresses lead to the slot.
* `Uthread.Stacks.Heap` — the threads that have been created and not freed.
* `Uthread.Stacks.StackLaw` — the layout of the blocks, and the lookup in every run.

## Main results

* `Uthread.Stacks.Block.layoutLaw` — the layout of every block that does not wrap around.
* `Uthread.Stacks.Heap.Separate.step` — the blocks in use stay apart, and their slots keep their
  threads.
* `Uthread.Stacks.Heap.LookupLaw.uthreadSelf_eq` — what `uthread_self` returns away from the bounds.
* `Uthread.Stacks.stackLaw` — the law holds.
-/

namespace Uthread.Stacks

open Runs

variable {w : ℕ}

/-! ### The layout of a block -/

namespace Block

/-- The stack area, from `saved_sp - STACK_SIZE` to `saved_sp`. -/
def area (b : Block w) : Set ℕ := Set.Ico (b.savedSp - stackSize w).toNat b.savedSp.toNat

/-- The bytes of the pointer to the thread. -/
def slotBytes (b : Block w) : Set ℕ := Set.Ico b.slot.toNat (b.slot.toNat + w / 8)

/-- **The layout of a block**: the area is aligned and lies in the block; the slot is its first
word; and the mask takes every address in the area to the slot. -/
structure LayoutLaw (b : Block w) : Prop where
  aligned : 8 * 1024 * 1024 ∣ (b.savedSp - stackSize w).toNat
  area_subset : b.area ⊆ b.extent
  slot_eq : b.slot = b.savedSp - stackSize w
  slotBytes_subset : b.slotBytes ⊆ b.area
  masked : ∀ x : BitVec w, x.toNat ∈ b.area → x &&& ~~~(stackSize w - 1) = b.slot

section Layout

variable {b c : Block w} {x : BitVec w} (hb : b.stack.toNat + blockSize ≤ 2 ^ w)

include hb

/-- The slot is the first address of the area. -/
lemma slot_eq_sub : b.slot = b.savedSp - stackSize w := by
  have hsp := toNat_savedSp hb
  have hsize := toNat_stackSize hb
  apply BitVec.eq_of_toNat_eq
  rw [BitVec.toNat_sub_of_le, hsize, hsp, Nat.add_sub_cancel]
  rw [BitVec.le_def, hsize, hsp]
  exact Nat.le_add_left _ _

lemma mem_area_iff : x.toNat ∈ b.area ↔ b.slot ≤ x ∧ x < b.savedSp := by
  rw [area, ← slot_eq_sub hb]
  rfl

/-- **The area lies in the block.** -/
theorem area_subset_extent : b.area ⊆ b.extent := by
  rw [area, ← slot_eq_sub hb]
  exact Set.Ico_subset_Ico (le_slot hb) (savedSp_le hb)

/-- The pointer is in the area, if it has at most eight bytes. -/
lemma slotBytes_subset_area (hw : w ≤ 64) : b.slotBytes ⊆ b.area := by
  have hsp := toNat_savedSp hb
  rw [area, ← slot_eq_sub hb]
  exact Set.Ico_subset_Ico_right (by omega)

/-- **The layout of every block** that does not wrap around. -/
theorem layoutLaw (hw : w ≤ 64) : b.LayoutLaw where
  aligned := by
    rw [← slot_eq_sub hb, slot_eq hb]
    exact Alignment.dvd_up
  area_subset := area_subset_extent hb
  slot_eq := slot_eq_sub hb
  slotBytes_subset := slotBytes_subset_area hb hw
  masked _ hx := (down_eq_slot_iff hb).mpr ((mem_area_iff hb).mp hx)

/-- The areas of two blocks that do not overlap do not overlap. -/
lemma disjoint_area (hc : c.stack.toNat + blockSize ≤ 2 ^ w) (h : Disjoint b.extent c.extent) :
    Disjoint b.area c.area :=
  h.mono (area_subset_extent hb) (area_subset_extent hc)

end Layout

end Block

/-! ### The blocks in use -/

/-- The last line of `uthread_self`, where the address is in no bounds. -/
def fallback (g : Globals w) (dummyLocal : BitVec w) : Option Tid :=
  g.memory (dummyLocal &&& ~~~(stackSize w - 1))

/-- The variables, and the threads that have been created and not freed. -/
structure Heap (w : ℕ) where
  globals : Globals w
  live : List (Block w)

/-- The calls that allocate and free a block. -/
inductive HeapCall (w : ℕ)
  | uthreadNewThread (b : Block w)
  | uthreadFree (b : Block w)
  deriving DecidableEq, Repr

/-- A call. A thread is freed once. -/
def heapCall (s : Heap w) : HeapCall w → Option (Heap w)
  | .uthreadNewThread b => some ⟨uthreadNewThread b s.globals, b :: s.live⟩
  | .uthreadFree b => if b ∈ s.live then some { s with live := s.live.erase b } else none

/-- What malloc returns: a block that does not wrap around and does not overlap the blocks in
use. -/
def Mallocs (s : Heap w) : HeapCall w → Prop
  | .uthreadNewThread b =>
    b.stack.toNat + blockSize ≤ 2 ^ w ∧ ∀ c ∈ s.live, Disjoint b.extent c.extent
  | .uthreadFree _ => True

instance (b c : Block w) : Decidable (Disjoint b.extent c.extent) :=
  decidable_of_iff' _ Set.Ico_disjoint_Ico

instance (s : Heap w) : DecidablePred (Mallocs s)
  | .uthreadNewThread b => inferInstanceAs (Decidable
      (b.stack.toNat + blockSize ≤ 2 ^ w ∧ ∀ c ∈ s.live, Disjoint b.extent c.extent))
  | .uthreadFree _ => isTrue trivial

namespace Heap

/-- **The lookup**: for an address in the area of a thread, `uthread_self` finds this thread, and it
is the only one whose area has the address. -/
def LookupLaw (s : Heap w) : Prop :=
  ∀ b ∈ s.live, ∀ x : BitVec w, x.toNat ∈ b.area →
    fallback s.globals x = some b.thread ∧ ∀ c ∈ s.live, x.toNat ∈ c.area → c = b

/-- The blocks in use do not wrap around and do not overlap, and their slots hold their threads. -/
structure Separate (s : Heap w) : Prop where
  block_le : ∀ b ∈ s.live, b.stack.toNat + blockSize ≤ 2 ^ w
  disjoint : s.live.Pairwise fun b c => Disjoint b.extent c.extent
  stored : ∀ b ∈ s.live, s.globals.memory b.slot = some b.thread

variable {s t : Heap w} {a : HeapCall w}

/-- With no threads there is nothing to keep apart. -/
lemma separate_nil (g : Globals w) : Separate ⟨g, []⟩ where
  block_le := nofun
  disjoint := .nil
  stored := nofun

/-- **The blocks in use stay apart**, and their slots keep their threads. -/
theorem Separate.step (h : s.Separate) (ha : Mallocs s a) (ht : heapCall s a = some t) :
    t.Separate := by
  cases a with
  | uthreadNewThread b =>
    obtain ⟨hb, hfresh⟩ := ha
    cases ht
    constructor
    · exact List.forall_mem_cons.mpr ⟨hb, h.block_le⟩
    · exact List.pairwise_cons.mpr ⟨hfresh, h.disjoint⟩
    · refine List.forall_mem_cons.mpr ⟨Function.update_self .., fun c hc => ?_⟩
      -- the slot of another thread is not overwritten
      have hne : c.slot ≠ b.slot := (Block.slot_ne hb (h.block_le c hc) (hfresh c hc)).symm
      show Function.update s.globals.memory b.slot (some b.thread) c.slot = some c.thread
      rw [Function.update_of_ne hne, h.stored c hc]
  | uthreadFree b =>
    obtain ⟨-, ht⟩ := Option.ite_none_right_eq_some.mp ht
    cases ht
    constructor
    · exact fun c hc => h.block_le c (List.mem_of_mem_erase hc)
    · exact h.disjoint.sublist List.erase_sublist
    · exact fun c hc => h.stored c (List.mem_of_mem_erase hc)

/-- Blocks that are apart are found. -/
lemma Separate.lookupLaw (h : s.Separate) : s.LookupLaw := by
  intro b hb x hx
  have hle := h.block_le b hb
  constructor
  · rw [fallback, (Block.down_eq_slot_iff hle).mpr ((Block.mem_area_iff hle).mp hx), h.stored b hb]
  · intro c hc hxc
    by_contra hne
    have hsymm : Std.Symm fun b c : Block w => Disjoint b.extent c.extent := ⟨fun _ _ h => h.symm⟩
    have hdisj := h.disjoint.forall hb hc (Ne.symm hne)
    exact Set.disjoint_left.mp (Block.disjoint_area hle (h.block_le c hc) hdisj) hx hxc

end Heap

section Self

variable {g : Globals w} {x : BitVec w} (hbase : ¬ g.base.Covers x)
  (hpthreads : ∀ p ∈ g.pthreads, ¬ p.Covers x)

include hbase hpthreads

/-- Where the address is in no bounds, `uthread_self` returns what the lookup finds. -/
lemma uthreadSelf_eq_fallback : uthreadSelf g x = fallback g x := by
  have hfind : g.pthreads.find? (fun p => p.Covers x) = none := by
    rw [List.find?_eq_none]
    exact fun p hp => by simpa using hpthreads p hp
  rw [uthreadSelf, if_neg hbase, hfind]
  rfl

/-- **`uthread_self` finds the thread** whose area has the address, if no bounds have it. -/
theorem Heap.LookupLaw.uthreadSelf_eq {live : List (Block w)} (h : Heap.LookupLaw ⟨g, live⟩)
    {b : Block w} (hb : b ∈ live) (hx : x.toNat ∈ b.area) : uthreadSelf g x = some b.thread := by
  rw [uthreadSelf_eq_fallback hbase hpthreads]
  exact (h b hb x hx).1

end Self

/-! ### The law -/

/-- **The stack areas**: the layout of the blocks, and the lookup in every run in which malloc keeps
the blocks in use apart. -/
structure StackLaw (w : ℕ) : Prop where
  layout : ∀ b : Block w, b.stack.toNat + blockSize ≤ 2 ^ w → b.LayoutLaw
  apart : ∀ b c : Block w, b.stack.toNat + blockSize ≤ 2 ^ w → c.stack.toNat + blockSize ≤ 2 ^ w →
    Disjoint b.extent c.extent → Disjoint b.area c.area ∧ Disjoint b.slotBytes c.slotBytes
  lookup : ∀ (g : Globals w) (calls : List (HeapCall w)),
    AllSteps heapCall Mallocs ⟨g, []⟩ calls → Throughout heapCall Heap.LookupLaw ⟨g, []⟩ calls

/-- **The stack areas are safe**, for addresses of up to 64 bits. -/
theorem stackLaw (hw : w ≤ 64) : StackLaw w where
  layout _ hb := Block.layoutLaw hb hw
  apart b c hb hc h := by
    have harea := Block.disjoint_area hb hc h
    have hbytes := Block.slotBytes_subset_area hb hw
    exact ⟨harea, harea.mono hbytes (Block.slotBytes_subset_area hc hw)⟩
  lookup g calls hC := by
    have hseparate := throughout_of_invariant (I := Heap.Separate)
      (fun _ _ _ h ha ht => h.step ha ht) (Heap.separate_nil g) hC
    exact fun pre suf hpre t ht => (hseparate pre suf hpre t ht).lookupLaw

/-- Blocks at the end of the address space, next to each other, and over two of these. -/
def highest : Block 64 := ⟨1, 0xffffffffff000000⟩
def lower : Block 64 := ⟨2, 0x7f1000000010⟩
def upper : Block 64 := ⟨3, 0x7f1001000010⟩
def across : Block 64 := ⟨4, 0x7f1000800010⟩

/-- The block of the last thread takes the place of two that have been freed. -/
def reused : List (HeapCall 64) :=
  [.uthreadNewThread highest, .uthreadNewThread lower, .uthreadNewThread upper,
    .uthreadFree lower, .uthreadFree upper, .uthreadNewThread across]

/-- The law, for the blocks of this run. -/
theorem stackLaw_reused : highest.LayoutLaw ∧ Disjoint lower.area upper.area ∧
    Throughout heapCall Heap.LookupLaw
      ⟨uthreadInit 0x800000 ⟨0, 0x7ffe00000000, 0x7ffe007fe000⟩, []⟩ reused := by
  have hlaw : StackLaw 64 := stackLaw (by decide)
  refine ⟨hlaw.layout _ (by decide), ?_, hlaw.lookup _ reused ?_⟩
  · exact (hlaw.apart _ _ (by decide) (by decide) (by decide)).1
  · decide

end Uthread.Stacks
