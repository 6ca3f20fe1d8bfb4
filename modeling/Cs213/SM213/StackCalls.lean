import Cs213.SM213.Assembler

set_option relaxedAutoImplicit false
set_option autoImplicit false

/-!
# Calls on a stack

In `A5-b.s` the function `bar` calls `foo` twice. It keeps the return address and the arguments of
the calls in five words on the stack, which it pushes and pops by hand.

## Main definitions

* `SM213.StackCalls.foo`, `SM213.StackCalls.bar` — the functions of `A5-b.c`.
* `SM213.StackCalls.fooCode`, `SM213.StackCalls.barCode` — those of `A5-b.s`.
* `SM213.StackCalls.Input` — the array and the stack are apart from the code.
* `SM213.StackCalls.Frame` — what the memory is in the course of a call of `bar`.

## Main results

* `SM213.StackCalls.leads_foo` — the rule of a call of `foo`.
* `SM213.StackCalls.bar_returns` — the stack discipline, and what the calls do with the array.
-/

namespace SM213

open Bytes Compute MainMemory StateTransition Until

namespace StackCalls

/-! ## The functions of `A5-b.c` -/

/-- `foo` adds a number to an element of the array. -/
def foo (arr : ℕ → JInt) (arg0 : JInt) (arg1 : ℕ) : ℕ → JInt :=
  Function.update arr arg1 (arr arg1 + arg0)

/-- `bar` calls `foo` twice. -/
def bar (arr : ℕ → JInt) : ℕ → JInt := foo (foo arr 3 4) 1 2

/-! ## The code -/

/-- `foo`, at `0x200`. -/
def fooCode : List Instr := [
  .loadBase 0 5 0,         -- r0 = arg0
  .loadBase 1 5 1,         -- r1 = arg1
  .loadImm 2 0x100,        -- r2 = a
  .loadBase 0 2 2,         -- r2 = &a
  .loadIndexed 2 1 3,      -- r3 = a[arg1]
  .add 3 0,                -- r0 = a[arg1] + arg0
  .storeIndexed 0 2 1,     -- a[arg1] = r0
  .jInd 6 0x0]             -- return

/-- `bar`, at `0x300`. -/
def barCode : List Instr := [
  .loadImm 0 0xfffffff4,   -- r0 = -12
  .add 0 5,                -- push 3 elements to stack
  .storeBase 6 2 5,        -- push return address
  .loadImm 0 0x1,
  .storeBase 0 0 5,        -- arg0 = 1
  .loadImm 0 0x2,
  .storeBase 0 1 5,        -- arg1 = 2
  .loadImm 0 0xfffffff8,   -- r0 = -8
  .add 0 5,                -- push 2 elements to stack
  .loadImm 0 0x3,
  .storeBase 0 0 5,        -- arg0 = 3
  .loadImm 0 0x4,
  .storeBase 0 1 5,        -- arg1 = 4
  .gpc 3 6,                -- set return address
  .j 0x200,                -- foo(arg0, arg1)
  .loadImm 0 0x8,          -- 0x33a
  .add 0 5,                -- pop 2 elements off stack
  .loadBase 0 5 1,         -- r1 = arg0
  .loadBase 1 5 2,         -- r2 = arg1
  .loadImm 0 0xfffffff8,   -- r0 = -8
  .add 0 5,                -- push 2 elements to stack
  .storeBase 1 0 5,
  .storeBase 2 1 5,
  .gpc 3 6,                -- set return address
  .j 0x200,                -- foo(arg0, arg1)
  .loadImm 0 0x8,          -- 0x35a
  .add 0 5,                -- pop 2 elements off stack
  .loadBase 2 5 6,         -- ra = return address
  .loadImm 0 0xc,
  .add 0 5,
  .jInd 6 0x0]

/-- The address of the pointer to the array. -/
abbrev aAt : JInt := 0x100

/-- The code is in memory, and the pointer to the array is. -/
structure Program (p : JInt) (m : MainMemory) : Prop where
  foo : Resident 0x372 0x200 fooCode m
  bar : Resident 0x372 0x300 barCode m
  pointer : m.word aAt = p

/-- The addresses of the code and of the pointer to the array. -/
def reserved : Set ℕ :=
  Set.Ico 0x200 (0x200 + codeSize fooCode) ∪ Set.Ico 0x300 (0x300 + codeSize barCode) ∪ bytesAt aAt

section Blocks

variable {m : MainMemory} {a p q v ra : JInt} {i : ℕ}

lemma foo_part : Part (Program p) 0x200 fooCode := Resident.part (fun _ h => h.foo) (by decide)

lemma bar_part : Part (Program p) 0x300 barCode := Resident.part (fun _ h => h.bar) (by decide)

/-- What can be written: there is a word, which is apart from the program. -/
structure Free (m : MainMemory) (a : JInt) : Prop where
  hasWord : m.HasWord a
  disjoint : Disjoint (bytesAt a) reserved

/-- Writing does not change the program. -/
lemma Free.program (ha : Free m a) (hm : Program p m) : Program p (m.putWord a v) := by
  obtain ⟨hcode, hpointer⟩ := Set.disjoint_union_right.mp ha.disjoint
  obtain ⟨hfoo, hbar⟩ := Set.disjoint_union_right.mp hcode
  constructor
  case foo => exact hm.foo.of_sameOutside sameOutside_putWord (by decide) hfoo.symm
  case bar => exact hm.bar.of_sameOutside sameOutside_putWord (by decide) hbar.symm
  case pointer => rw [sameOutside_putWord.word_eq hpointer.symm, hm.pointer]

/-- Writing does not change what can be written. -/
lemma Free.putWord {b : JInt} (ha : Free m a) : Free (m.putWord b v) a :=
  ⟨hasWord_putWord.mpr ha.hasWord, ha.disjoint⟩

/-- The stack pointer and the return address are in their registers. -/
structure Linked (sp ra : JInt) (r : Fin 8 → JInt) : Prop where
  sp : r 5 = sp
  ra : r 6 = ra

/-- **A call of `foo`**: it adds its first argument to the element of the array that its second
argument is the index of, and returns. -/
lemma leads_foo {x : JInt} (hm : Program p m) (h₀ : m.HasWord q) (h₁ : m.HasWord (q + 4#32))
    (hv : m.word q = v) (hx : m.word (q + 4#32) = x) (hfree : Free m (p + 4 * x))
    (haligned : (p + 4 * x).toNat % 4 = 0) :
    Leads Machine.step? (At 0x200 m (Linked q ra))
      (At ra (m.putWord (p + 4 * x) (m.word (p + 4 * x) + v)) (Linked q ra)) := by
  have hp : m.HasWord aAt := hm.foo.hasWord (by decide)
  have hpointer : m.word 0x100#32 = p := hm.pointer
  have hm' : Program p (m.putWord (p + 4 * x) (m.word (p + 4 * x) + v)) := hfree.program hm
  refine (foo_part.block 0x200 0 8 rfl).leads (fun _ _ _ _ => rfl) hm ?_
  rintro r ⟨hsp, hra⟩
  refine ⟨?_, _, ⟨?_, ?_⟩, by simp [fooCode, hsp, hra, hv, hx, hpointer]; rfl⟩
  · simpa [fooCode, hm, hsp, hv, hx, hpointer] using
      ⟨h₀, h₁, hp, hfree.hasWord, ⟨hfree.hasWord, haligned⟩, hm'⟩
  · simp [hsp]
  · simp [hra]

/-- Three words are pushed: the return address and two arguments. -/
lemma leads_push_ra (hm : Program p m) (h₀ : Free m q) (h₁ : Free m (q + 4#32))
    (h₂ : Free m (q + 8#32)) : Leads Machine.step? (At 0x308 m (Linked q ra))
      (At 0x31a (((m.putWord (q + 8#32) ra).putWord q 1).putWord (q + 4#32) 2) (· 5 = q)) := by
  have hm₁ : Program p (m.putWord (q + 8#32) ra) := h₂.program hm
  have hm₂ : Program p ((m.putWord (q + 8#32) ra).putWord q 1) := h₀.putWord.program hm₁
  have hm₃ : Program p (((m.putWord (q + 8#32) ra).putWord q 1).putWord (q + 4#32) 2) :=
    h₁.putWord.putWord.program hm₂
  refine (bar_part.block 0x308 2 5 rfl).leads (fun _ _ _ _ => rfl) hm ?_
  rintro r ⟨hsp, hra⟩
  refine ⟨?_, _, ?_, by simp [barCode, hsp, hra]; rfl⟩
  · simpa [barCode, hm, hsp, hra] using
      ⟨h₂.hasWord, hm₁, h₀.hasWord, hm₂, h₁.hasWord, hm₃⟩
  · simp [hsp]

/-- Two arguments are pushed, and `foo` is called. -/
lemma leads_call (hm : Program p m) (h₀ : Free m q) (h₁ : Free m (q + 4#32)) :
    Leads Machine.step? (At 0x322 m (· 5 = q))
      (At 0x200 ((m.putWord q 3).putWord (q + 4#32) 4) (Linked q 0x33a)) := by
  have hm₁ : Program p (m.putWord q 3) := h₀.program hm
  have hm₂ : Program p ((m.putWord q 3).putWord (q + 4#32) 4) := h₁.putWord.program hm₁
  refine (bar_part.block 0x322 9 6 rfl).leads (fun _ _ _ _ => rfl) hm fun r hsp => ?_
  refine ⟨?_, _, ⟨?_, ?_⟩, by simp [barCode, hsp]; rfl⟩
  · simpa [barCode, hm, hsp] using ⟨h₀.hasWord, hm₁, h₁.hasWord, hm₂⟩
  · simp [hsp]
  · simp

/-- The other arguments are taken from the stack. -/
lemma leads_args (hm : Program p m) (h₂ : m.HasWord (8#32 + q)) (h₃ : m.HasWord (8#32 + q + 4#32)) :
    Leads Machine.step? (At 0x33a m (Linked q ra))
      (At 0x34e m fun r => r 5 = 0xfffffff8 + (8#32 + q) ∧ r 1 = m.word (8#32 + q) ∧
        r 2 = m.word (8#32 + q + 4#32)) := by
  refine (bar_part.block 0x33a 15 6 rfl).leads (fun _ _ _ _ => rfl) hm ?_
  rintro r ⟨hsp, hra⟩
  refine ⟨?_, _, ⟨?_, ?_, ?_⟩, by simp [barCode, hsp]; rfl⟩
  · simpa [barCode, hm, hsp] using ⟨h₂, h₃⟩
  · simp
  · simp
  · simp

/-- They are pushed, and `foo` is called. -/
lemma leads_call_again {x y : JInt} (hm : Program p m) (h₀ : Free m q) (h₁ : Free m (q + 4#32)) :
    Leads Machine.step? (At 0x34e m fun r => r 5 = q ∧ r 1 = x ∧ r 2 = y)
      (At 0x200 ((m.putWord q x).putWord (q + 4#32) y) (Linked q 0x35a)) := by
  have hm₁ : Program p (m.putWord q x) := h₀.program hm
  have hm₂ : Program p ((m.putWord q x).putWord (q + 4#32) y) := h₁.putWord.program hm₁
  refine (bar_part.block 0x34e 21 4 rfl).leads (fun _ _ _ _ => rfl) hm ?_
  rintro r ⟨hsp, hx, hy⟩
  refine ⟨?_, _, ⟨?_, ?_⟩, by simp [barCode, hsp, hx, hy]; rfl⟩
  · simpa [barCode, hm, hsp, hx, hy] using ⟨h₀.hasWord, hm₁, h₁.hasWord, hm₂⟩
  · simp [hsp]
  · simp

/-- The stack is popped, and `bar` returns. -/
lemma leads_pop {link : JInt} (hm : Program p m) (h₄ : m.HasWord (8#32 + q + 8#32))
    (hra : m.word (8#32 + q + 8#32) = ra) :
    Leads Machine.step? (At 0x35a m (Linked q link)) (At ra m (Linked (12 + (8#32 + q)) ra)) := by
  refine (bar_part.block 0x35a 25 6 rfl).leads (fun _ _ _ _ => rfl) hm ?_
  rintro r ⟨hsp, -⟩
  refine ⟨?_, _, ⟨?_, ?_⟩, by simp [barCode, hsp, hra]; rfl⟩
  · simpa [barCode, hm, hsp] using h₄
  · simp
  · simp

/-- The stack pointer is moved down by three words. -/
lemma leads_push {sp : JInt} (hm : Program p m) : Leads Machine.step? (At 0x300 m (Linked sp ra))
    (At 0x308 m (Linked (0xfffffff4 + sp) ra)) := by
  refine (bar_part.block 0x300 0 2 rfl).leads (fun _ _ _ _ => rfl) hm ?_
  rintro r ⟨hsp, hra⟩
  refine ⟨by simp [barCode, hm], _, ⟨?_, ?_⟩, by simp [barCode]; rfl⟩
  · simp [hsp]
  · simp [hra]

/-- The stack pointer is moved down by two words. -/
lemma leads_push_args (hm : Program p m) :
    Leads Machine.step? (At 0x31a m (· 5 = q)) (At 0x322 m (· 5 = 0xfffffff8 + q)) := by
  refine (bar_part.block 0x31a 7 2 rfl).leads (fun _ _ _ _ => rfl) hm fun r hsp => ?_
  refine ⟨by simp [barCode, hm], _, ?_, by simp [barCode]; rfl⟩
  simp [hsp]

end Blocks

/-! ## The memory in the course of the calls -/

/-- The addresses of the twenty bytes below a stack pointer. -/
def below (sp : JInt) : Set ℕ := Set.Ico (sp - 20).toNat ((sp - 20).toNat + 4 * 5)

/-- The addresses of the two elements of the array that the calls change. -/
def elements (p : JInt) : Set ℕ := bytesAt (p + 8) ∪ bytesAt (p + 16)

/-- **The input**: the stack, the two elements of the array and the program are apart from each
other. -/
structure Input (m : MainMemory) (sp p : JInt) : Prop where
  aligned : p.toNat % 4 = 0
  stack_inside : (sp - 20).toNat + 4 * 5 ≤ m.length
  third_inside : m.HasWord (p + 8)
  fifth_inside : m.HasWord (p + 16)
  stack_reserved : Disjoint (below sp) reserved
  stack_elements : Disjoint (below sp) (elements p)
  elements_reserved : Disjoint (elements p) reserved

/-- The memory in the course of a call of `bar`: the five words on the stack, and the two elements
of the array. -/
structure Frame (m : MainMemory) (sp p : JInt) (ws : List JInt) (x y : JInt) (m' : MainMemory) :
    Prop where
  words_eq : m'.words (sp - 20) 5 = ws
  third_eq : m'.word (p + 8) = x
  fifth_eq : m'.word (p + 16) = y
  same : m.SameOutside (elements p ∪ below sp) m'

section Frame

variable {m m' : MainMemory} {sp p x y v : JInt} {ws : List JInt} {k : ℕ}

/-- The word `k` on the stack. -/
abbrev slot (sp : JInt) (k : ℕ) : JInt := sp - 20 + 4 * BitVec.ofNat 32 k

lemma Frame.program (h : Frame m sp p ws x y m') (hin : Input m sp p) (hm : Program p m) :
    Program p m' := by
  have hdisj : Disjoint reserved (elements p ∪ below sp) :=
    (Set.disjoint_union_left.mpr ⟨hin.elements_reserved, hin.stack_reserved⟩).symm
  obtain ⟨hcode, hpointer⟩ := Set.disjoint_union_left.mp hdisj
  obtain ⟨hfoo, hbar⟩ := Set.disjoint_union_left.mp hcode
  constructor
  case foo => exact hm.foo.of_sameOutside h.same (by decide) hfoo
  case bar => exact hm.bar.of_sameOutside h.same (by decide) hbar
  case pointer => rw [h.same.word_eq hpointer, hm.pointer]

lemma Frame.free_slot (h : Frame m sp p ws x y m') (hin : Input m sp p) (hk : k < 5) :
    Free m' (slot sp k) where
  hasWord := hasWord_element (h.same.length_eq ▸ hin.stack_inside) hk
  disjoint := hin.stack_reserved.mono_left (bytesAt_element_subset hin.stack_inside hk)

lemma Frame.word_slot (h : Frame m sp p ws x y m') (hk : k < ws.length) :
    m'.word (slot sp k) = ws[k] := by
  obtain ⟨rfl, -, -, -⟩ := h
  exact (getElem_words hk).symm

/-- A word on the stack is written. -/
lemma Frame.putWord_slot (h : Frame m sp p ws x y m') (hin : Input m sp p) (hk : k < 5) :
    Frame m sp p (ws.set k v) x y (m'.putWord (slot sp k) v) := by
  have hinside : (sp - 20).toNat + 4 * 5 ≤ m'.length := h.same.length_eq ▸ hin.stack_inside
  have hsub : bytesAt (slot sp k) ⊆ below sp := bytesAt_element_subset hinside hk
  have hdisj : Disjoint (elements p) (bytesAt (slot sp k)) :=
    (hin.stack_elements.mono_left hsub).symm
  obtain ⟨hthird, hfifth⟩ := Set.disjoint_union_left.mp hdisj
  constructor
  case words_eq => rw [words_putWord hinside hk, h.words_eq]
  case third_eq => rw [sameOutside_putWord.word_eq hthird, h.third_eq]
  case fifth_eq => rw [sameOutside_putWord.word_eq hfifth, h.fifth_eq]
  case same =>
    refine (h.same.trans sameOutside_putWord).mono (Set.union_subset (Set.Subset.refl _) ?_)
    exact hsub.trans Set.subset_union_right

/-- The two elements do not overlap. -/
lemma Input.disjoint_elements (hin : Input m sp p) :
    Disjoint (bytesAt (p + 8)) (bytesAt (p + 16)) := by
  have hlt : m.length < 2 ^ 31 := m.length_lt
  have hthird : (p + 8).toNat + 4 ≤ m.length := hin.third_inside
  have hfifth : (p + 16).toNat = (p + 8).toNat + 8 := by
    rw [← toNat_element (a := p + 8) (i := 2) (by omega), BitVec.add_assoc]
    rfl
  refine Set.disjoint_left.mpr fun j hj hj' => ?_
  simp only [bytesAt, Set.mem_Ico] at hj hj'
  omega

/-- The elements of the array are aligned. -/
lemma Input.aligned_element (hin : Input m sp p) (z : JInt) : (p + 4 * z).toNat % 4 = 0 := by
  have haligned := hin.aligned
  have hfour : (4 : JInt).toNat = 4 := rfl
  rw [BitVec.toNat_add, BitVec.toNat_mul, hfour]
  omega

/-- The third element of the array is written. -/
lemma Frame.putWord_third (h : Frame m sp p ws x y m') (hin : Input m sp p) :
    Frame m sp p ws v y (m'.putWord (p + 8) v) := by
  have hinside : (sp - 20).toNat + 4 * 5 ≤ m'.length := h.same.length_eq ▸ hin.stack_inside
  have hword : m'.HasWord (p + 8) := Nat.le_trans hin.third_inside h.same.length_eq.ge
  have hsub : bytesAt (p + 8) ⊆ elements p := Set.subset_union_left
  constructor
  case words_eq =>
    rw [sameOutside_putWord.words_eq hinside (hin.stack_elements.mono_right hsub), h.words_eq]
  case third_eq => rw [word_putWord hword]
  case fifth_eq => rw [sameOutside_putWord.word_eq hin.disjoint_elements.symm, h.fifth_eq]
  case same =>
    refine (h.same.trans sameOutside_putWord).mono (Set.union_subset (Set.Subset.refl _) ?_)
    exact hsub.trans Set.subset_union_left

/-- The fifth element of the array is written. -/
lemma Frame.putWord_fifth (h : Frame m sp p ws x y m') (hin : Input m sp p) :
    Frame m sp p ws x v (m'.putWord (p + 16) v) := by
  have hinside : (sp - 20).toNat + 4 * 5 ≤ m'.length := h.same.length_eq ▸ hin.stack_inside
  have hword : m'.HasWord (p + 16) := Nat.le_trans hin.fifth_inside h.same.length_eq.ge
  have hsub : bytesAt (p + 16) ⊆ elements p := Set.subset_union_right
  constructor
  case words_eq =>
    rw [sameOutside_putWord.words_eq hinside (hin.stack_elements.mono_right hsub), h.words_eq]
  case third_eq => rw [sameOutside_putWord.word_eq hin.disjoint_elements, h.third_eq]
  case fifth_eq => rw [word_putWord hword]
  case same =>
    refine (h.same.trans sameOutside_putWord).mono (Set.union_subset (Set.Subset.refl _) ?_)
    exact hsub.trans Set.subset_union_left

/-- The two elements can be written. -/
lemma Frame.free_third (h : Frame m sp p ws x y m') (hin : Input m sp p) : Free m' (p + 8) where
  hasWord := Nat.le_trans hin.third_inside h.same.length_eq.ge
  disjoint := hin.elements_reserved.mono_left Set.subset_union_left

lemma Frame.free_fifth (h : Frame m sp p ws x y m') (hin : Input m sp p) : Free m' (p + 16) where
  hasWord := Nat.le_trans hin.fifth_inside h.same.length_eq.ge
  disjoint := hin.elements_reserved.mono_left Set.subset_union_right

lemma slot_add {j : ℕ} : slot sp k + 4 * BitVec.ofNat 32 j = slot sp (k + j) := by
  rw [slot, slot, BitVec.add_assoc, ← BitVec.mul_add, ← BitVec.ofNat_add]

end Frame

/-! ## The calls -/

section Calls

variable {m : MainMemory} {sp p ra x y : JInt}

/-- In the course of a call of `bar`, the machine is at the address `pc`. -/
def InFrame (m : MainMemory) (sp p : JInt) (pc : JInt) (ws : List JInt) (x y : JInt)
    (R : (Fin 8 → JInt) → Prop) (s : Machine) : Prop :=
  ∃ m', Frame m sp p ws x y m' ∧ At pc m' R s

/-- The return address and the arguments of the second call are pushed. -/
lemma leads_enter (hm : Program p m) (hin : Input m sp p) :
    Leads Machine.step? (At 0x300 m (Linked sp ra))
      (InFrame m sp p 0x322 [m.word (slot sp 0), m.word (slot sp 1), 1, 2, ra] (m.word (p + 8))
        (m.word (p + 16)) (· 5 = slot sp 0)) := by
  have h : Frame m sp p (m.words (sp - 20) 5) (m.word (p + 8)) (m.word (p + 16)) m :=
    ⟨rfl, rfl, rfl, rfl, fun _ _ => rfl⟩
  have h₁ := h.putWord_slot (k := 4) (v := ra) hin (by decide)
  have h₂ := h₁.putWord_slot (k := 2) (v := 1) hin (by decide)
  have h₃ := h₂.putWord_slot (k := 3) (v := 2) hin (by decide)
  have hthree : slot sp 2 + 4#32 = slot sp 3 := slot_add (j := 1)
  have hfour : slot sp 2 + 8#32 = slot sp 4 := slot_add (j := 2)
  have htwo : 0xfffffff4 + sp = slot sp 2 := by
    rw [slot, BitVec.sub_eq_add_neg, BitVec.add_assoc, BitVec.add_comm]
    rfl
  have hzero : 0xfffffff8 + slot sp 2 = slot sp 0 := by
    rw [slot, slot, BitVec.add_comm, BitVec.add_assoc]
    rfl
  have hpush : Leads Machine.step? (At 0x300 m (Linked sp ra)) _ := leads_push hm
  rw [htwo] at hpush
  have hwrite : Leads Machine.step? (At 0x308 m (Linked (slot sp 2) ra)) _ :=
    leads_push_ra hm (h.free_slot hin (by decide)) (hthree ▸ h.free_slot hin (by decide))
      (hfour ▸ h.free_slot hin (by decide))
  rw [hthree, hfour] at hwrite
  have hargs := leads_push_args (q := slot sp 2) (h₃.program hin hm)
  rw [hzero] at hargs
  exact ((hpush.trans hwrite).trans hargs).mono (fun _ => id) fun _ ht => ⟨_, h₃, ht⟩

/-- **A call of `foo` in the frame**: the arguments are on the top of the stack. -/
lemma leads_foo_frame {m' : MainMemory} {ws : List JInt} {v z : JInt} (hm : Program p m)
    (hin : Input m sp p) (h : Frame m sp p (v :: z :: ws) x y m') (hfree : Free m' (p + 4 * z)) :
    Leads Machine.step? (At 0x200 m' (Linked (slot sp 0) ra))
      (At ra (m'.putWord (p + 4 * z) (m'.word (p + 4 * z) + v)) (Linked (slot sp 0) ra)) := by
  have hone : slot sp 0 + 4#32 = slot sp 1 := slot_add (j := 1)
  refine leads_foo (h.program hin hm) (h.free_slot hin (by decide)).hasWord ?_
    (h.word_slot (Nat.succ_pos _)) ?_ hfree (hin.aligned_element z)
  · rw [hone]
    exact (h.free_slot hin (by decide)).hasWord
  · rw [hone]
    exact h.word_slot (Nat.succ_lt_succ (Nat.succ_pos _))

/-- The first call. -/
lemma leads_first_call {a b c d e : JInt} (hm : Program p m) (hin : Input m sp p) :
    Leads Machine.step? (InFrame m sp p 0x322 [a, b, c, d, e] x y (· 5 = slot sp 0))
      (InFrame m sp p 0x33a [3, 4, c, d, e] x (y + 3) (Linked (slot sp 0) 0x33a)) := by
  rintro s ⟨m', h, hs⟩
  have h₁ := h.putWord_slot (k := 0) (v := 3) hin (by decide)
  have h₂ := h₁.putWord_slot (k := 1) (v := 4) hin (by decide)
  have hone : slot sp 0 + 4#32 = slot sp 1 := slot_add (j := 1)
  have hcall := leads_call (h.program hin hm) (h.free_slot hin (by decide))
    (hone ▸ h.free_slot hin (by decide))
  rw [hone] at hcall
  obtain ⟨t, ht, hst⟩ := hcall.trans (leads_foo_frame hm hin h₂ (h₂.free_fifth hin)) hs
  refine ⟨t, ⟨_, ?_, ht⟩, hst⟩
  have haddr : p + 4 * (4 : JInt) = p + 16 := rfl
  rw [haddr, h₂.fifth_eq]
  exact h₂.putWord_fifth hin

/-- The second call. -/
lemma leads_second_call {a b e link : JInt} (hm : Program p m) (hin : Input m sp p) :
    Leads Machine.step? (InFrame m sp p 0x33a [a, b, 1, 2, e] x y (Linked (slot sp 0) link))
      (InFrame m sp p 0x35a [1, 2, 1, 2, e] (x + 1) y (Linked (slot sp 0) 0x35a)) := by
  rintro s ⟨m', h, hs⟩
  have h₁ := h.putWord_slot (k := 0) (v := 1) hin (by decide)
  have h₂ := h₁.putWord_slot (k := 1) (v := 2) hin (by decide)
  have hone : slot sp 0 + 4#32 = slot sp 1 := slot_add (j := 1)
  have htwo : 8#32 + slot sp 0 = slot sp 2 := (BitVec.add_comm _ _).trans (slot_add (j := 2))
  have hthree : slot sp 2 + 4#32 = slot sp 3 := slot_add (j := 1)
  have hzero : 0xfffffff8 + slot sp 2 = slot sp 0 := by
    rw [slot, slot, BitVec.add_comm, BitVec.add_assoc]
    rfl
  have hargs : Leads Machine.step? (At 0x33a m' (Linked (slot sp 0) link)) _ :=
    leads_args (h.program hin hm) (htwo ▸ (h.free_slot hin (by decide)).hasWord)
      (htwo ▸ hthree ▸ (h.free_slot hin (by decide)).hasWord)
  rw [htwo, hthree, hzero, h.word_slot (by simp : 2 < 5), h.word_slot (by simp : 3 < 5)] at hargs
  have hcall : Leads Machine.step? (At 0x34e m' fun r => r 5 = slot sp 0 ∧ r 1 = 1 ∧ r 2 = 2) _ :=
    leads_call_again (h.program hin hm) (h.free_slot hin (by decide))
      (hone ▸ h.free_slot hin (by decide))
  rw [hone] at hcall
  obtain ⟨t, ht, hst⟩ :=
    (hargs.trans hcall).trans (leads_foo_frame hm hin h₂ (h₂.free_third hin)) hs
  refine ⟨t, ⟨_, ?_, ht⟩, hst⟩
  have haddr : p + 4 * (2 : JInt) = p + 8 := rfl
  rw [haddr, h₂.third_eq]
  exact h₂.putWord_third hin

/-- The stack is popped, and the return address taken from it. -/
lemma leads_exit {a b c d link : JInt} (hm : Program p m) (hin : Input m sp p) :
    Leads Machine.step?
      (InFrame m sp p 0x35a [a, b, c, d, ra] x y (Linked (slot sp 0) link))
      (InFrame m sp p ra [a, b, c, d, ra] x y (Linked sp ra)) := by
  rintro s ⟨m', h, hs⟩
  have htwo : 8#32 + slot sp 0 = slot sp 2 := (BitVec.add_comm _ _).trans (slot_add (j := 2))
  have hfour : slot sp 2 + 8#32 = slot sp 4 := slot_add (j := 2)
  have htop : 12 + slot sp 2 = sp := by
    rw [slot, BitVec.add_comm, BitVec.add_assoc]
    exact BitVec.sub_add_cancel _ _
  have hpop : Leads Machine.step? (At 0x35a m' (Linked (slot sp 0) link)) (At ra m' _) :=
    leads_pop (h.program hin hm) (htwo ▸ hfour ▸ (h.free_slot hin (by decide)).hasWord)
      (htwo ▸ hfour ▸ h.word_slot (by simp : 4 < 5))
  rw [htwo, htop] at hpop
  obtain ⟨t, ht, hst⟩ := hpop hs
  exact ⟨t, ⟨m', h, ht⟩, hst⟩

end Calls

/-- The array in memory. -/
def array (m : MainMemory) (p : JInt) (i : ℕ) : JInt := m.word (p + 4 * BitVec.ofNat 32 i)

/-- **A call of `bar`** from `s` returns in `t`: the stack pointer is what it was, the calls have
changed the array the way they do in `A5-b.c`, and nothing else has changed, except for what was
below the stack pointer. -/
structure Returns (p : JInt) (s t : Machine) : Prop where
  reaches : Reaches Machine.step? s t
  pc_eq : t.pc = s.reg 6
  sp_eq : t.reg 5 = s.reg 5
  third_eq : t.mem.word (p + 8) = s.mem.word (p + 8) + 1
  fifth_eq : t.mem.word (p + 16) = s.mem.word (p + 16) + 3
  array_eq : ∀ i < 10, Disjoint (bytesAt (p + 4 * BitVec.ofNat 32 i)) (below (s.reg 5)) →
    array t.mem p i = bar (array s.mem p) i
  frame : s.mem.SameOutside (elements p ∪ below (s.reg 5)) t.mem

/-- The other elements of the array do not overlap the two. -/
lemma disjoint_element {p : JInt} (hp : p.toNat % 4 = 0) {i : ℕ} (hi : i < 10) (h₂ : i ≠ 2)
    (h₄ : i ≠ 4) : Disjoint (bytesAt (p + 4 * BitVec.ofNat 32 i)) (elements p) := by
  have haddr : (p + 4 * BitVec.ofNat 32 i).toNat = (p.toNat + 4 * i) % 2 ^ 32 := by
    have hfour : (4 : JInt).toNat = 4 := rfl
    rw [BitVec.toNat_add, BitVec.toNat_mul, BitVec.toNat_ofNat, hfour]
    omega
  have hthird : (p + 8).toNat = (p.toNat + 8) % 2 ^ 32 := BitVec.toNat_add _ _
  have hfifth : (p + 16).toNat = (p.toNat + 16) % 2 ^ 32 := BitVec.toNat_add _ _
  refine Set.disjoint_left.mpr fun j hj hj' => ?_
  simp only [elements, bytesAt, Set.mem_union, Set.mem_Ico] at hj hj'
  omega

/-- What `bar` does with an array. -/
lemma bar_apply {arr : ℕ → JInt} (i : ℕ) :
    bar arr i = if i = 2 then arr 2 + 1 else if i = 4 then arr 4 + 3 else arr i := by
  by_cases h₂ : i = 2
  · simp [bar, foo, h₂]
  · by_cases h₄ : i = 4 <;> simp [bar, foo, h₂, h₄]

/-- **The stack discipline**: a call of `bar` returns, for every array and every stack that are
apart from the code and from each other. -/
theorem bar_returns (p : JInt) (s : Machine) (hpc : s.pc = 0x300) (hm : Program p s.mem)
    (hin : Input s.mem (s.reg 5) p) : ∃ t, Returns p s t := by
  have hrun : Leads Machine.step? (At 0x300 s.mem (Linked (s.reg 5) (s.reg 6))) _ :=
    (((leads_enter hm hin).trans (leads_first_call hm hin)).trans
      (leads_second_call hm hin)).trans (leads_exit hm hin)
  obtain ⟨t, ⟨m', hframe, htpc, rfl, htsp, -⟩, ht⟩ := hrun (s := s) ⟨hpc, rfl, rfl, rfl⟩
  refine ⟨t, ?_⟩
  constructor
  case reaches => exact ht
  case pc_eq => exact htpc
  case sp_eq => exact htsp
  case third_eq => exact hframe.third_eq
  case fifth_eq => exact hframe.fifth_eq
  case array_eq =>
    intro i hi hbelow
    rw [bar_apply]
    split_ifs with h₂ h₄
    · subst h₂
      exact hframe.third_eq
    · subst h₄
      exact hframe.fifth_eq
    · exact hframe.same.word_eq
        (Set.disjoint_union_right.mpr ⟨disjoint_element hin.aligned hi h₂ h₄, hbelow⟩)
  case frame => exact hframe.same

/-- A memory with the code, and with this array, of which only the pointer is given. -/
def image (p : JInt) : List Byte :=
  List.replicate 0x100 0 ++ ([p].flatMap beBytes ++ (List.replicate 0xfc 0 ++ (assemble fooCode ++
    (List.replicate 0xec 0 ++ (assemble barCode ++ List.replicate 0x1cba 0)))))

section Image

variable {p : JInt} {m : MainMemory}

lemma length_image : (image p).length = 0x2028 := by
  simp only [image, List.length_append, List.length_replicate, length_assemble,
    length_flatMap_beBytes, List.length_cons, List.length_nil]
  decide

lemma program_image (hm : m.mem = image p) : Program p m := by
  have hlen : 0x372 ≤ m.length := by
    rw [MainMemory.length, hm, length_image]
    decide
  constructor
  case foo =>
    refine resident_assemble (List.replicate 0x100 0 ++ ([p].flatMap beBytes ++
      List.replicate 0xfc 0)) (by simp only [hm, image, List.append_assoc]; rfl) ?_ hlen
    simp only [List.length_append, List.length_replicate, length_flatMap_beBytes,
      List.length_cons, List.length_nil]
    decide
  case bar =>
    refine resident_assemble (List.replicate 0x100 0 ++ ([p].flatMap beBytes ++
      (List.replicate 0xfc 0 ++ (assemble fooCode ++ List.replicate 0xec 0))))
      (by simp only [hm, image, List.append_assoc]; rfl) ?_ hlen
    simp only [List.length_append, List.length_replicate, length_assemble,
      length_flatMap_beBytes, List.length_cons, List.length_nil]
    decide
  case pointer =>
    have hwords : m.words aAt [p].length = [p] :=
      words_of_mem (List.replicate 0x100 0) hm (List.length_replicate ..)
    exact (List.cons.inj (words_succ.symm.trans hwords)).1

/-- The array of `A5-b.s`, and the stack that it begins with. -/
lemma input_image (hm : m.mem = image 0x1000) : Input m 0x2028 0x1000 := by
  have hlen : m.length = 0x2028 := by rw [MainMemory.length, hm, length_image]
  have hfoo : codeSize fooCode = 0x14 := by decide
  have hbar : codeSize barCode = 0x6e := by decide
  have hword : ∀ a : JInt, a.toNat + 4 ≤ 0x2028 → m.HasWord a := fun a ha => Nat.le_trans ha hlen.ge
  constructor
  case aligned => decide
  case stack_inside => rw [hlen]; decide
  case third_inside => exact hword _ (by decide)
  case fifth_inside => exact hword _ (by decide)
  case stack_reserved =>
    rw [reserved, hfoo, hbar, Set.disjoint_union_right, Set.disjoint_union_right]
    simp only [below, bytesAt, Set.Ico_disjoint_Ico]
    decide
  case stack_elements =>
    rw [elements, Set.disjoint_union_right]
    simp only [below, bytesAt, Set.Ico_disjoint_Ico]
    decide
  case elements_reserved =>
    rw [elements, reserved, hfoo, hbar, Set.disjoint_union_left, Set.disjoint_union_right,
      Set.disjoint_union_right, Set.disjoint_union_right, Set.disjoint_union_right]
    simp only [bytesAt, Set.Ico_disjoint_Ico]
    decide

end Image

theorem bar_returns_start : ∃ t, Returns 0x1000
    (boot 0x300 (Function.update (fun _ => 0xe) 5 0x2028)
      ⟨image 0x1000, by rw [length_image]; decide⟩) t :=
  bar_returns 0x1000 _ rfl (program_image rfl) (input_image rfl)

end StackCalls

end SM213
