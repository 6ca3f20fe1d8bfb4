import Cs213.Library.Lookup
import Cs213.Uthread.Stacks

set_option relaxedAutoImplicit false
set_option autoImplicit false

/-!
# Finding the running thread

`uthread_self` has to find the running thread from the address of a local variable. The bounds it
tests reach `NATIVE_STACK_SIZE` bytes below an address that is inside a native stack, so they reach
below the stack as well, and they reach 1024 bytes above it. The thread is found on every stack
exactly if nobody else's stack is there.

## Main definitions

* `Uthread.Stacks.Layout.Valid` — the stacks do not overlap.
* `Uthread.Stacks.SelfLaw` — `uthread_self` finds every thread on its stack.
* `Uthread.Stacks.Layout.Fits` — no bounds reach into the stack of another thread.

## Main results

* `Uthread.Stacks.uthreadSelf_eq_lookup` — `uthread_self` looks the thread up in the bounds.
* `Uthread.Stacks.Layout.Valid.memory_native`, `Uthread.Stacks.Layout.Valid.memory_uthread` — what
  the masked addresses of the stacks hold.
* `Uthread.Stacks.selfLaw_iff` — `uthread_self` finds every thread exactly if the stacks fit.
-/

namespace Uthread.Stacks

variable {w : ℕ} {nativeStackSize : BitVec w} {l : Layout w}

/-! ### The stacks do not overlap -/

/-- The addresses of a native stack. -/
def Native.extent (nativeStackSize : BitVec w) (n : Native w) : Set ℕ :=
  Set.Ico n.stack.toNat (n.stack.toNat + nativeStackSize.toNat)

/-- The addresses of a block. -/
def Block.extent (b : Block w) : Set ℕ := Set.Ico b.stack.toNat (b.stack.toNat + blockSize)

section Slot

variable {b c : Block w} (hb : b.stack.toNat + blockSize ≤ 2 ^ w)

include hb

/-- The slot of a block is in the block. -/
lemma Block.slot_mem_extent : b.slot.toNat ∈ b.extent := by
  have hsp := Block.toNat_savedSp hb
  have hend := Block.savedSp_le hb
  exact ⟨Block.le_slot hb, by omega⟩

/-- Blocks that do not overlap have different slots. -/
lemma Block.slot_ne (hc : c.stack.toNat + blockSize ≤ 2 ^ w) (h : Disjoint b.extent c.extent) :
    b.slot ≠ c.slot := by
  intro heq
  have hslot := Block.slot_mem_extent hc
  rw [← heq] at hslot
  exact Set.disjoint_left.mp h (Block.slot_mem_extent hb) hslot

end Slot

/-- The blocks do not wrap around, the native stacks and the blocks do not overlap, the recorded
addresses are in their stacks, and no two native stacks are of one thread. -/
structure Layout.Valid (nativeStackSize : BitVec w) (l : Layout w) : Prop where
  block_le : ∀ b ∈ l.blocks, b.stack.toNat + blockSize ≤ 2 ^ w
  disjoint : (l.natives.map (Native.extent nativeStackSize) ++
    l.blocks.map Block.extent).Pairwise Disjoint
  recorded_mem : ∀ n ∈ l.natives, n.recorded.toNat ∈ n.extent nativeStackSize
  threads_nodup : (l.natives.map Native.thread).Nodup

/-- `uthread_self` finds the threads: those on native stacks from the lowest address to the one that
is recorded, and the others strictly between their slot and their first `saved_sp`. -/
def SelfLaw (g : Globals w) (l : Layout w) : Prop :=
  (∀ n ∈ l.natives, ∀ x, n.stack ≤ x → x ≤ n.recorded → uthreadSelf g x = some n.thread) ∧
    ∀ b ∈ l.uthreads, ∀ x, b.slot < x → x < b.savedSp → uthreadSelf g x = some b.thread

/-- The bounds of the native stacks do not wrap around, those of an earlier one do not reach into
the used part of a later one, and none reach into the area of another thread. -/
structure Layout.Fits (nativeStackSize : BitVec w) (l : Layout w) : Prop where
  bounds : ∀ n ∈ l.natives,
    nativeStackSize.toNat ≤ n.recorded.toNat ∧ n.recorded.toNat + 1024 < 2 ^ w
  natives : l.natives.Pairwise fun m n =>
    n.recorded.toNat + nativeStackSize.toNat < m.recorded.toNat ∨
      m.recorded.toNat + 1024 < n.stack.toNat
  uthreads : ∀ n ∈ l.natives, ∀ b ∈ l.uthreads,
    b.savedSp.toNat + nativeStackSize.toNat ≤ n.recorded.toNat ∨
      n.recorded.toNat + 1024 ≤ b.slot.toNat

/-! ### The lookup -/

/-- The bounds that are recorded for a native stack. -/
def Native.bounds (nativeStackSize : BitVec w) (n : Native w) : Bounds w :=
  .around nativeStackSize n.thread n.recorded

instance (n : Native w) : DecidablePred (n.bounds nativeStackSize).Covers :=
  inferInstance

/-- The variables after the calls. -/
def Layout.recorded (nativeStackSize : BitVec w) (l : Layout w) : Globals w where
  base := l.base.bounds nativeStackSize
  pthreads := l.pthreads.map (Native.bounds nativeStackSize)
  memory := stored (fun _ => none) l.blocks

/-- The loop of `uthread_self`, with what comes after it. -/
lemma find?_eq_lookup (ns : List (Native w)) (rest : Option Tid) (x : BitVec w) :
    (match (ns.map (Native.bounds nativeStackSize)).find? fun p => p.Covers x with
      | some p => some p.thread
      | none => rest) =
      Lookup.lookup (fun n => (n.bounds nativeStackSize).Covers) Native.thread rest x ns := by
  induction ns with
  | nil => rfl
  | cons n ns ih =>
    rw [Lookup.lookup, List.map_cons]
    by_cases hcov : (n.bounds nativeStackSize).Covers x
    · rw [if_pos hcov, List.find?_cons_of_pos (by simpa using hcov)]
      rfl
    · rw [if_neg hcov, List.find?_cons_of_neg (by simpa using hcov)]
      exact ih

/-- **`uthread_self` looks the thread up**, in the bounds of the native stacks first. -/
theorem uthreadSelf_eq_lookup (x : BitVec w) :
    uthreadSelf (l.recorded nativeStackSize) x =
      Lookup.lookup (fun n => (n.bounds nativeStackSize).Covers) Native.thread
        (stored (fun _ => none) l.blocks (x &&& ~~~(stackSize w - 1))) x l.natives := by
  show (if (l.base.bounds nativeStackSize).Covers x then some l.base.thread else _) = _
  rw [Layout.natives, Lookup.lookup]
  apply if_congr Iff.rfl rfl
  exact find?_eq_lookup l.pthreads _ x

/-! ### What the bounds cover -/

section Bounds

variable {m n : Native w} {x : BitVec w}

lemma toNat_1024 (hw : 1024 < 2 ^ w) : (1024 : BitVec w).toNat = 1024 := Nat.mod_eq_of_lt hw

/-- What bounds that do not wrap around cover. -/
lemma covers_iff (hlow : nativeStackSize.toNat ≤ n.recorded.toNat)
    (hup : n.recorded.toNat + 1024 < 2 ^ w) :
    (n.bounds nativeStackSize).Covers x ↔
      n.recorded.toNat ≤ x.toNat + nativeStackSize.toNat ∧ x.toNat ≤ n.recorded.toNat + 1024 := by
  have hlower : (n.recorded - nativeStackSize).toNat =
      n.recorded.toNat - nativeStackSize.toNat := BitVec.toNat_sub_of_le hlow
  have hupper : (n.recorded + 1024).toNat = n.recorded.toNat + 1024 := by
    rw [BitVec.toNat_add, toNat_1024 (by omega)]
    exact Nat.mod_eq_of_lt hup
  show n.recorded - nativeStackSize ≤ x ∧ x ≤ n.recorded + 1024 ↔ _
  rw [BitVec.le_def, BitVec.le_def, hlower, hupper]
  omega

/-- **The bounds cover the used part of their own stack** exactly if they do not wrap around. -/
lemma own_iff (hw : 24 ≤ w) (hmem : n.recorded.toNat ∈ n.extent nativeStackSize) :
    (∀ x, n.stack ≤ x ∧ x ≤ n.recorded → (n.bounds nativeStackSize).Covers x) ↔
      nativeStackSize.toNat ≤ n.recorded.toNat ∧ n.recorded.toNat + 1024 < 2 ^ w := by
  obtain ⟨hstack, hrec⟩ := hmem
  have hword : 2 ^ 24 ≤ 2 ^ w := Nat.pow_le_pow_right (by omega) hw
  constructor
  · intro h
    have hhighest : n.recorded ≤ n.recorded + 1024 := (h n.recorded ⟨hstack, BitVec.le_refl _⟩).2
    have hlowest : n.recorded - nativeStackSize ≤ n.stack :=
      (h n.stack ⟨BitVec.le_refl _, hstack⟩).1
    rw [BitVec.le_def, BitVec.toNat_add, toNat_1024 (by omega)] at hhighest
    rw [BitVec.le_def, BitVec.toNat_sub] at hlowest
    have hsize := nativeStackSize.isLt
    refine ⟨?_, ?_⟩
    · by_contra hlow
      rw [Nat.mod_eq_of_lt (by omega)] at hlowest
      omega
    · by_contra hup
      have hlt := n.recorded.isLt
      rw [Nat.mod_eq_sub_mod (by omega), Nat.mod_eq_of_lt (by omega)] at hhighest
      omega
  · rintro ⟨hlow, hup⟩ x ⟨hx, hx'⟩
    rw [covers_iff hlow hup]
    rw [BitVec.le_def] at hx hx'
    omega

/-- **Bounds keep away from a stretch of addresses** exactly if they end before it or start after
it. -/
lemma away_iff (hlow : nativeStackSize.toNat ≤ n.recorded.toNat)
    (hup : n.recorded.toNat + 1024 < 2 ^ w) {lo hi : ℕ} (hlohi : lo ≤ hi) (hhi : hi < 2 ^ w) :
    (∀ x : BitVec w, lo ≤ x.toNat ∧ x.toNat ≤ hi → ¬ (n.bounds nativeStackSize).Covers x) ↔
      hi + nativeStackSize.toNat < n.recorded.toNat ∨ n.recorded.toNat + 1024 < lo := by
  simp only [covers_iff hlow hup]
  constructor
  · intro h
    by_contra hnot
    -- the first address of the stretch that the lower bound lets through
    let first := max lo (n.recorded.toNat - nativeStackSize.toNat)
    have hfirst : (BitVec.ofNat w first).toNat = first := by
      rw [BitVec.toNat_ofNat]
      exact Nat.mod_eq_of_lt (by omega)
    refine h (BitVec.ofNat w first) ?_ ?_ <;> rw [hfirst] <;> omega
  · rintro h x hx
    omega

end Bounds

/-! ### What the masked addresses hold -/

namespace Layout.Valid

variable (hl : l.Valid nativeStackSize) {n : Native w} {b : Block w} {x : BitVec w}

include hl

/-- A native stack and a block do not overlap. -/
lemma disjoint_native_block (hn : n ∈ l.natives) (hb : b ∈ l.blocks) :
    Disjoint (n.extent nativeStackSize) b.extent :=
  (List.pairwise_append.mp hl.disjoint).2.2 _ (List.mem_map_of_mem hn) _ (List.mem_map_of_mem hb)

/-- The slots of the blocks are different. -/
lemma slots_ne : l.blocks.Pairwise fun b c => b.slot ≠ c.slot := by
  have hdisj := (List.pairwise_append.mp hl.disjoint).2.1
  rw [List.pairwise_map] at hdisj
  apply hdisj.imp_of_mem
  intro b c hb hc hbc heq
  exact Block.slot_ne (hl.block_le b hb) (hl.block_le c hc) hbc heq

/-- **No thread is stored** at the masked address of a native stack. -/
theorem memory_native (hn : n ∈ l.natives) (hx : n.stack ≤ x ∧ x ≤ n.recorded) :
    stored (fun _ => none) l.blocks (x &&& ~~~(stackSize w - 1)) = none := by
  apply stored_of_ne
  intro b hb heq
  have hle := hl.block_le b hb
  have hslot := Block.le_slot hle
  have hend := Block.savedSp_le hle
  obtain ⟨hlow, hup⟩ := (Block.down_eq_slot_iff hle).mp heq
  obtain ⟨-, hrec⟩ := hl.recorded_mem n hn
  obtain ⟨hstack, hrecorded⟩ := hx
  rw [BitVec.le_def] at hlow hstack hrecorded
  rw [BitVec.lt_def] at hup
  -- the address would be in the block as well
  have hnative : x.toNat ∈ n.extent nativeStackSize := ⟨hstack, by omega⟩
  have hblock : x.toNat ∈ b.extent := ⟨by omega, by omega⟩
  exact Set.disjoint_left.mp (hl.disjoint_native_block hn hb) hnative hblock

/-- **The thread of a block is stored** at the masked address of its area. -/
theorem memory_uthread (hb : b ∈ l.blocks) (hx : b.slot ≤ x ∧ x < b.savedSp) :
    stored (fun _ => none) l.blocks (x &&& ~~~(stackSize w - 1)) = some b.thread := by
  rw [(Block.down_eq_slot_iff (hl.block_le b hb)).mpr hx]
  exact stored_slot hl.slots_ne hb

end Layout.Valid

/-! ### The law -/

section Law

variable (hw : 24 ≤ w) (hl : l.Valid nativeStackSize)

include hw hl

/-- The threads on native stacks are found exactly if the bounds of native stacks fit. -/
lemma natives_found_iff :
    (∀ n ∈ l.natives, ∀ x, n.stack ≤ x ∧ x ≤ n.recorded →
        uthreadSelf (l.recorded nativeStackSize) x = some n.thread) ↔
      (∀ n ∈ l.natives,
          nativeStackSize.toNat ≤ n.recorded.toNat ∧ n.recorded.toNat + 1024 < 2 ^ w) ∧
        l.natives.Pairwise fun m n =>
          n.recorded.toNat + nativeStackSize.toNat < m.recorded.toNat ∨
            m.recorded.toNat + 1024 < n.stack.toNat := by
  simp only [uthreadSelf_eq_lookup]
  have hrest : ∀ n ∈ l.natives, ∀ x, n.stack ≤ x ∧ x ≤ n.recorded →
      stored (fun _ => none) l.blocks (x &&& ~~~(stackSize w - 1)) ≠ some n.thread := by
    intro n hn x hx
    rw [hl.memory_native hn hx]
    exact (Option.some_ne_none _).symm
  rw [Lookup.lookup_iff hl.threads_nodup hrest]
  have hown : (∀ n ∈ l.natives, ∀ x, n.stack ≤ x ∧ x ≤ n.recorded →
      (n.bounds nativeStackSize).Covers x) ↔ ∀ n ∈ l.natives,
        nativeStackSize.toNat ≤ n.recorded.toNat ∧ n.recorded.toNat + 1024 < 2 ^ w :=
    forall₂_congr fun n hn => own_iff hw (hl.recorded_mem n hn)
  rw [hown]
  apply and_congr_right
  intro hbounds
  apply List.Pairwise.iff_of_mem
  intro m n hm hn
  obtain ⟨hlow, hup⟩ := hbounds m hm
  exact away_iff hlow hup (hl.recorded_mem n hn).1 n.recorded.isLt

omit hw in
/-- The thread of a block is found exactly if no bounds reach into its area. -/
lemma uthread_found_iff {b : Block w} (hb : b ∈ l.uthreads) (hbounds : ∀ n ∈ l.natives,
      nativeStackSize.toNat ≤ n.recorded.toNat ∧ n.recorded.toNat + 1024 < 2 ^ w) :
    (∀ x, b.slot < x ∧ x < b.savedSp →
        uthreadSelf (l.recorded nativeStackSize) x = some b.thread) ↔
      ∀ n ∈ l.natives, b.savedSp.toNat + nativeStackSize.toNat ≤ n.recorded.toNat ∨
        n.recorded.toNat + 1024 ≤ b.slot.toNat := by
  obtain ⟨hblock, hthread⟩ := List.mem_filter.mp hb
  have hsp := Block.toNat_savedSp (hl.block_le b hblock)
  have hlookup : ∀ x, b.slot < x ∧ x < b.savedSp →
      (uthreadSelf (l.recorded nativeStackSize) x = some b.thread ↔
        ∀ n ∈ l.natives, ¬ (n.bounds nativeStackSize).Covers x) := by
    intro x hx
    rw [uthreadSelf_eq_lookup, hl.memory_uthread hblock ⟨BitVec.le_of_lt hx.1, hx.2⟩]
    apply Lookup.lookup_rest_iff
    intro n hn heq
    apply of_decide_eq_true hthread
    rw [Option.some.inj heq]
    exact List.mem_map_of_mem hn
  -- the addresses strictly inside the area
  have hinside : ∀ x : BitVec w, b.slot < x ∧ x < b.savedSp ↔
      b.slot.toNat + 1 ≤ x.toNat ∧ x.toNat ≤ b.savedSp.toNat - 1 := by
    intro x
    rw [BitVec.lt_def, BitVec.lt_def]
    omega
  have haway : ∀ n ∈ l.natives,
      ((∀ x, b.slot < x ∧ x < b.savedSp → ¬ (n.bounds nativeStackSize).Covers x) ↔
        b.savedSp.toNat + nativeStackSize.toNat ≤ n.recorded.toNat ∨
          n.recorded.toNat + 1024 ≤ b.slot.toNat) := by
    intro n hn
    obtain ⟨hlow, hup⟩ := hbounds n hn
    have hlt := b.savedSp.isLt
    simp only [hinside]
    rw [away_iff hlow hup (by omega) (by omega)]
    omega
  constructor
  · intro h n hn
    exact (haway n hn).mp fun x hx => (hlookup x hx).mp (h x hx) n hn
  · intro h x hx
    exact (hlookup x hx).mpr fun n hn => (haway n hn).mpr (h n hn) x hx

end Law

/-- **`uthread_self` finds every thread** on its stack if and only if the stacks fit. -/
theorem selfLaw_iff (hw : 24 ≤ w) (hcount : l.pthreads.length ≤ maxPthreads)
    (hl : l.Valid nativeStackSize) :
    ∃ g, l.globals nativeStackSize = some g ∧ (SelfLaw g l ↔ l.Fits nativeStackSize) := by
  refine ⟨l.recorded nativeStackSize, Layout.globals_eq hcount, ?_⟩
  constructor
  · rintro ⟨hnatives, huthreads⟩
    obtain ⟨hbounds, hpairs⟩ :=
      (natives_found_iff hw hl).mp fun n hn x hx => hnatives n hn x hx.1 hx.2
    refine ⟨hbounds, hpairs, fun n hn b hb => ?_⟩
    exact (uthread_found_iff hl hb hbounds).mp (fun x hx => huthreads b hb x hx.1 hx.2) n hn
  · rintro ⟨hbounds, hpairs, huthreads⟩
    refine ⟨fun n hn x hx hx' => ?_, fun b hb x hx hx' => ?_⟩
    · exact (natives_found_iff hw hl).mpr ⟨hbounds, hpairs⟩ n hn x ⟨hx, hx'⟩
    · exact (uthread_found_iff hl hb hbounds).mpr (fun n hn => huthreads n hn b hb) x ⟨hx, hx'⟩

/-! ### Two processors -/

/-- The stacks of two processors and a thread: the stack of the pthread is somewhere above the block
of the thread. -/
def twoProcessors (stack : BitVec 64) : Layout 64 where
  base := ⟨0, 0x7ffe00000000, 0x7ffe007fe000⟩
  calls := [.uthreadNewThread ⟨1, 0x7f3000000010⟩, .uthreadNewThread ⟨2, 0x7f2000000010⟩,
    .pthreadBase ⟨2, stack, stack + 0x7fed00⟩, .uthreadNewThread ⟨3, 0x7f1000000010⟩]

section TwoProcessors

lemma natives_twoProcessors (stack : BitVec 64) : (twoProcessors stack).natives =
    [⟨0, 0x7ffe00000000, 0x7ffe007fe000⟩, ⟨2, stack, stack + 0x7fed00⟩] := rfl

lemma blocks_twoProcessors (stack : BitVec 64) : (twoProcessors stack).blocks =
    [⟨1, 0x7f3000000010⟩, ⟨2, 0x7f2000000010⟩, ⟨3, 0x7f1000000010⟩] := rfl

variable {stack : BitVec 64} (hlow : 0x7f1001000010 ≤ stack.toNat)
  (hup : stack.toNat ≤ 0x7f1100000000)

include hup

lemma toNat_recorded : (stack + 0x7fed00).toNat = stack.toNat + 0x7fed00 :=
  BitVec.toNat_add_of_lt (Nat.lt_of_le_of_lt (Nat.add_le_add_right hup _) (by decide))

include hlow

/-- The stack and the blocks do not overlap. -/
lemma valid_twoProcessors : (twoProcessors stack).Valid 0x800000 where
  block_le := by
    rw [blocks_twoProcessors]
    simp [blockSize]
  disjoint := by
    rw [natives_twoProcessors, blocks_twoProcessors]
    simp [Native.extent, Block.extent, Set.Ico_disjoint_Ico, blockSize]
    omega
  recorded_mem := by
    have hrec := toNat_recorded hup
    rw [natives_twoProcessors, List.forall_mem_cons, List.forall_mem_singleton]
    refine ⟨by constructor <;> decide, ?_, ?_⟩
    · show stack.toNat ≤ (stack + 0x7fed00).toNat
      omega
    · show (stack + 0x7fed00).toNat < stack.toNat + 0x800000
      omega
  threads_nodup := by
    show [0, 2].Nodup
    decide

/-- The bounds do not wrap around. -/
lemma bounds_twoProcessors : ∀ n ∈ (twoProcessors stack).natives,
    (0x800000 : BitVec 64).toNat ≤ n.recorded.toNat ∧ n.recorded.toNat + 1024 < 2 ^ 64 := by
  have hrec := toNat_recorded hup
  rw [natives_twoProcessors, List.forall_mem_cons, List.forall_mem_singleton]
  refine ⟨by decide, ?_, ?_⟩
  · show 0x800000 ≤ (stack + 0x7fed00).toNat
    omega
  · show (stack + 0x7fed00).toNat + 1024 < 2 ^ 64
    omega

end TwoProcessors

/-- With the stack of the pthread away from the block, every thread is found. -/
theorem selfLaw_apart : ∃ g, (twoProcessors 0x7f1002000000).globals 0x800000 = some g ∧
    SelfLaw g (twoProcessors 0x7f1002000000) := by
  obtain ⟨g, hg, hlaw⟩ := selfLaw_iff (l := twoProcessors 0x7f1002000000) (by decide) (by decide)
    (valid_twoProcessors (by decide) (by decide))
  refine ⟨g, hg, hlaw.mpr ⟨bounds_twoProcessors (by decide) (by decide), ?_, ?_⟩⟩
  · decide
  · decide

/-- **A thread that is not found**: a page above the block, the bounds of the pthread reach into the
area of the thread. -/
theorem adjacent_not_selfLaw : ¬ ∀ l : Layout 64, l.pthreads.length ≤ maxPthreads →
    l.Valid 0x800000 → ∃ g, l.globals 0x800000 = some g ∧ SelfLaw g l := by
  intro h
  have hvalid : (twoProcessors 0x7f1001001000).Valid 0x800000 :=
    valid_twoProcessors (by decide) (by decide)
  obtain ⟨g, hg, -, hlaw⟩ := h _ (by decide) hvalid
  rw [Layout.globals_eq (by decide)] at hg
  cases hg
  have hthread : ⟨3, 0x7f1000000010⟩ ∈ (twoProcessors 0x7f1001001000).uthreads := by decide
  have hpthread : ⟨2, 0x7f1001001000, 0x7f10017ffd00⟩ ∈
      (twoProcessors 0x7f1001001000).natives := by decide
  have hfits := (uthread_found_iff hvalid hthread (bounds_twoProcessors (by decide) (by decide))).mp
    (fun x hx => hlaw _ hthread x hx.1 hx.2) _ hpthread
  revert hfits
  decide

end Uthread.Stacks
