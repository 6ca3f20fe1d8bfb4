import Cs213.SM213.Assembler

set_option relaxedAutoImplicit false
set_option autoImplicit false

/-!
# Summing an array, with a loop and without

`S5-loop.s` and `S5a-loop-unrolled.s` sum the ten words of `a` into `s`. The first program has a
loop and stores the index as well, the second one has the body of the loop ten times.

## Main definitions

* `SM213.Sums.rolled`, `SM213.Sums.unrolled` — the programs.
* `SM213.Sums.sum` — the sum of the first words of the array.

## Main results

* `SM213.Sums.rolled_halts`, `SM213.Sums.unrolled_halts` — what each of them leaves in memory.
* `SM213.Sums.sums_agree` — both leave the same sum.
-/

namespace SM213

open Bytes MainMemory StateTransition Until Compute

namespace Sums

/-! ## The code -/

/-- `S5-loop.s`, at `0x100`; `loop` is at `0x118` and `end_loop` at `0x126`. -/
def rolled : List Instr := [
  .loadImm 0 0x0,          -- r0 = temp_i = 0
  .loadImm 1 0x1008,       -- r1 = address of a[0]
  .loadImm 2 0x0,          -- r2 = temp_s = 0
  .loadImm 4 0xfffffff6,   -- r4 = -10
  .mov 0 5,                -- r5 = temp_i
  .add 4 5,                -- r5 = temp_i-10
  .beq 5 0x4,              -- if temp_i=10 goto +4
  .loadIndexed 1 0 3,      -- r3 = a[temp_i]
  .add 3 2,                -- temp_s += a[temp_i]
  .inc 0,                  -- temp_i++
  .br 0xf9,                -- goto -7
  .loadImm 1 0x1000,       -- r1 = address of s
  .storeBase 2 0 1,        -- s = temp_s
  .storeBase 0 1 1,        -- i = temp_i
  .halt]

/-- What `S5a-loop-unrolled.s` does with an element of the array. -/
def body : List Instr := [
  .loadIndexed 1 0 3,      -- r3 = a[i]
  .add 3 2,                -- r2 += a[i]
  .inc 0]                  -- r0++

/-- `S5a-loop-unrolled.s`, at `0x100`. -/
def unrolled : List Instr :=
  [.loadImm 0 0x0,         -- r0 = 0 (temp for i)
    .loadImm 1 0x1008,     -- r1 = address of a[0]
    .loadImm 2 0x0] ++     -- r2 = 0 (temp for s)
  body ++ body ++ body ++ body ++ body ++ body ++ body ++ body ++ body ++ body ++
  [.loadImm 0 0x1000,      -- r0 = address of s
    .storeBase 2 0 0,      -- s = r2 (temp for s)
    .halt]

/-- The address of `s`. -/
abbrev sAt : JInt := 0x1000

/-- The address of `i` in `S5-loop.s`. -/
abbrev iAt : JInt := 0x1004

/-- The address of `a[i]`. -/
def elem (i : ℕ) : JInt := 0x1008 + 4 * BitVec.ofNat 32 i

/-- `S5-loop.s` is in memory. -/
abbrev Rolled : MainMemory → Prop := Resident 0x1030 0x100 rolled

/-- `S5a-loop-unrolled.s` is in memory. -/
abbrev Unrolled : MainMemory → Prop := Resident 0x1030 0x100 unrolled

/-- The sum of the first `k` words of the array, modulo `2 ^ 32`. -/
def sum (m : MainMemory) (k : ℕ) : JInt := ∑ i ∈ Finset.range k, m.word (elem i)

/-! ## The blocks -/

section Blocks

variable {m : MainMemory} {k : ℕ}

lemma rolled_part : Part Rolled 0x100 rolled := Resident.part (fun _ h => h) (by decide)

lemma unrolled_part : Part Unrolled 0x100 unrolled := Resident.part (fun _ h => h) (by decide)

lemma toNat_elem (hk : k ≤ 10) : (elem k).toNat = 0x1008 + 4 * k :=
  toNat_element (by show 0x1008 + 4 * k < 2 ^ 32; omega)

lemma toNat_elem_le (hk : k < 10) : (elem k).toNat + 4 ≤ 0x1030 := by
  have := toNat_elem (Nat.le_of_lt hk)
  omega

lemma sum_succ : sum m (k + 1) = m.word (elem k) + sum m k := by
  rw [sum, Finset.sum_range_succ, add_comm]
  rfl

/-- The registers when `k` words have been added up. -/
structure Summed (m : MainMemory) (k : ℕ) (r : Fin 8 → JInt) : Prop where
  index : r 0 = BitVec.ofNat 32 k
  base : r 1 = 0x1008
  sum : r 2 = sum m k

/-- The registers at the beginning of round `k` of the loop. -/
structure InLoop (m : MainMemory) (k : ℕ) (r : Fin 8 → JInt) : Prop extends Summed m k r where
  limit : r 4 = 0xfffffff6

/-- To the loop. -/
lemma leads_loop (hm : Rolled m) :
    Leads Machine.step? (At 0x100 m fun _ => True) (At 0x118 m (InLoop m 0)) := by
  refine (rolled_part.block 0x100 0 4 rfl).leads (fun _ _ _ _ => rfl) hm fun r _ => ?_
  refine ⟨by simp [rolled, hm], _, ⟨⟨?_, ?_, ?_⟩, ?_⟩, by simp [rolled]; rfl⟩
  all_goals simp [sum]

/-- A round of the loop. -/
lemma leads_round (hm : Rolled m) (hk : k < 10) :
    Leads Machine.step? (At 0x118 m (InLoop m k)) (At 0x118 m (InLoop m (k + 1))) := by
  refine (rolled_part.block 0x118 4 7 rfl).leads (fun _ _ _ _ => rfl) hm ?_
  rintro r ⟨⟨hindex, hbase, hsum⟩, hlimit⟩
  have hne : r 4 + r 0 ≠ 0#32 := by
    rw [hlimit, hindex]
    intro h
    have := congrArg BitVec.toNat h
    simp at this
    omega
  have hw : m.HasWord (r 1 + 4#32 * r 0) := by
    rw [hbase, hindex]
    exact hm.hasWord (toNat_elem_le hk)
  refine ⟨by simp [rolled, hm, hne, hw], _, ⟨⟨?_, ?_, ?_⟩, ?_⟩, by simp [rolled, hne]; rfl⟩
  · simp [hindex, BitVec.ofNat_add]
  · simp [hbase]
  · simp [hbase, hindex, hsum, sum_succ, elem]
  · simp [hlimit]

/-- From the last test of the loop to `halt`. -/
lemma leads_end_loop (hm : Rolled m) : Leads Machine.step? (At 0x118 m (InLoop m 10))
    (At 0x130 ((m.putWord sAt (sum m 10)).putWord iAt 10) fun _ => True) := by
  have hs : m.HasWord sAt := hm.hasWord (by decide)
  have hi : m.HasWord iAt := hm.hasWord (by decide)
  have hm' : Rolled (m.putWord sAt (sum m 10)) := hm.putWord (by decide) (by decide)
  have hm'' : Rolled ((m.putWord sAt (sum m 10)).putWord iAt 10) :=
    hm'.putWord (by decide) (by decide)
  refine Leads.trans (Q := At 0x126 m (InLoop m 10)) ?_ ?_
  · refine (rolled_part.block 0x118 4 3 rfl).leads (fun _ _ _ _ => rfl) hm ?_
    rintro r ⟨⟨hindex, hbase, hsum⟩, hlimit⟩
    refine ⟨by simp [rolled, hm, hlimit, hindex], _, ⟨⟨?_, ?_, ?_⟩, ?_⟩,
      by simp [rolled, hlimit, hindex]; rfl⟩
    · simp [hindex]
    · simp [hbase]
    · simp [hsum]
    · simp [hlimit]
  · refine (rolled_part.block 0x126 11 3 rfl).leads (fun _ _ _ _ => rfl) hm ?_
    rintro r ⟨⟨hindex, hbase, hsum⟩, hlimit⟩
    exact ⟨by simpa [rolled, hm, hindex, hsum, sAt, iAt] using ⟨hs, hm', hi, hm''⟩, _, trivial,
      by simp [rolled, hindex, hsum]; rfl⟩

/-- To the first element, without a loop. -/
lemma leads_body (hm : Unrolled m) : Leads Machine.step? (At 0x100 m fun _ => True)
    (At (0x112 + 6 * BitVec.ofNat 32 0) m (Summed m 0)) := by
  refine (unrolled_part.block 0x100 0 3 rfl).leads (fun _ _ _ _ => rfl) hm fun r _ => ?_
  refine ⟨by simp [unrolled, hm], _, ⟨?_, ?_, ?_⟩, by simp [unrolled]; rfl⟩
  all_goals simp [sum]

/-- One of the ten copies of the body of the loop. -/
lemma body_part (hk : k < 10) : Part Unrolled (0x112 + 6 * BitVec.ofNat 32 k) body := by
  have hbody : ∀ k < 10, (unrolled.drop (3 + 3 * k)).take 3 = body ∧
      0x100 + offset unrolled (3 + 3 * k) = 0x112 + 6 * BitVec.ofNat 32 k := by decide
  obtain ⟨heq, hpc⟩ := hbody k hk
  rw [← heq]
  exact unrolled_part.block _ (3 + 3 * k) 3 hpc

/-- Adding up the next word. -/
lemma leads_next (hm : Unrolled m) (hk : k < 10) :
    Leads Machine.step? (At (0x112 + 6 * BitVec.ofNat 32 k) m (Summed m k))
      (At (0x112 + 6 * BitVec.ofNat 32 (k + 1)) m (Summed m (k + 1))) := by
  refine (body_part hk).leads (fun _ _ _ _ => rfl) hm ?_
  rintro r ⟨hindex, hbase, hsum⟩
  have hw : m.HasWord (r 1 + 4#32 * r 0) := by
    rw [hbase, hindex]
    exact hm.hasWord (toNat_elem_le hk)
  have hpc : 0x112#32 + 6#32 * BitVec.ofNat 32 k + 2#32 + 2#32 + 2#32 =
      0x112#32 + 6#32 * BitVec.ofNat 32 (k + 1) := by
    simp [BitVec.ofNat_add, BitVec.mul_add, BitVec.add_assoc]
  refine ⟨by simp [body, hm, hw], _, ⟨?_, ?_, ?_⟩, by simp [body, hpc]; rfl⟩
  · simp [hindex, BitVec.ofNat_add]
  · simp [hbase]
  · simp [hbase, hindex, hsum, sum_succ, elem]

/-- From the end of the copies to `halt`. -/
lemma leads_end (hm : Unrolled m) : Leads Machine.step?
    (At (0x112 + 6 * BitVec.ofNat 32 10) m (Summed m 10))
    (At 0x156 (m.putWord sAt (sum m 10)) fun _ => True) := by
  have hs : m.HasWord sAt := hm.hasWord (by decide)
  have hm' : Unrolled (m.putWord sAt (sum m 10)) := hm.putWord (by decide) (by decide)
  refine (unrolled_part.block (0x112 + 6 * BitVec.ofNat 32 10) 33 2 rfl).leads
    (fun _ _ _ _ => rfl) hm ?_
  rintro r ⟨hindex, hbase, hsum⟩
  exact ⟨by simpa [unrolled, body, hm, hsum, sAt] using ⟨hs, hm'⟩, _, trivial,
    by simp [unrolled, body, hsum]; rfl⟩

end Blocks

/-! ## The runs -/

section Runs

variable {s : Machine}

/-- **`S5-loop.s`** halts with the sum of the array in `s`, and with 10 in `i`. -/
theorem rolled_halts (hpc : s.pc = 0x100) (hm : Rolled s.mem) : ∃ t, HaltsIn s t ∧
    t.mem = (s.mem.putWord sAt (sum s.mem 10)).putWord iAt 10 := by
  have hm' : Rolled ((s.mem.putWord sAt (sum s.mem 10)).putWord iAt 10) :=
    (hm.putWord (by decide) (by decide)).putWord (by decide) (by decide)
  have hloop : Leads Machine.step? (At 0x118 s.mem (InLoop s.mem 0))
      (At 0x118 s.mem (InLoop s.mem 10)) :=
    Leads.loop (I := fun k => At 0x118 s.mem (InLoop s.mem k)) fun _ hk => leads_round hm hk
  have hrun := ((leads_loop hm).trans hloop).trans (leads_end_loop hm)
  obtain ⟨u, ⟨hupc, humem, -⟩, hu⟩ := hrun (s := s) ⟨hpc, rfl, trivial⟩
  obtain ⟨t, ht, -, hmem⟩ :=
    (rolled_part.block 0x130 14 1 rfl).haltsIn hu hupc (humem ▸ hm')
  exact ⟨t, ht, hmem.trans humem⟩

/-- **`S5a-loop-unrolled.s`** halts with the sum of the array in `s`. -/
theorem unrolled_halts (hpc : s.pc = 0x100) (hm : Unrolled s.mem) : ∃ t, HaltsIn s t ∧
    t.mem = s.mem.putWord sAt (sum s.mem 10) := by
  have hm' : Unrolled (s.mem.putWord sAt (sum s.mem 10)) := hm.putWord (by decide) (by decide)
  have hbodies : Leads Machine.step? (At (0x112 + 6 * BitVec.ofNat 32 0) s.mem (Summed s.mem 0))
      (At (0x112 + 6 * BitVec.ofNat 32 10) s.mem (Summed s.mem 10)) :=
    Leads.loop (I := fun k => At (0x112 + 6 * BitVec.ofNat 32 k) s.mem (Summed s.mem k))
      fun _ hk => leads_next hm hk
  have hrun := ((leads_body hm).trans hbodies).trans (leads_end hm)
  obtain ⟨u, ⟨hupc, humem, -⟩, hu⟩ := hrun (s := s) ⟨hpc, rfl, trivial⟩
  obtain ⟨t, ht, -, hmem⟩ :=
    (unrolled_part.block 0x156 35 1 rfl).haltsIn hu hupc (humem ▸ hm')
  exact ⟨t, ht, hmem.trans humem⟩

/-- **The programs agree**: from `s₁` and `s₂` they halt in `t₁` and `t₂`. -/
structure SumsAgree (s₁ s₂ t₁ t₂ : Machine) : Prop where
  rolled_halts : HaltsIn s₁ t₁
  unrolled_halts : HaltsIn s₂ t₂
  sum_eq : t₁.mem.word sAt = sum s₁.mem 10
  same_sum : t₁.mem.word sAt = t₂.mem.word sAt
  index_eq : t₁.mem.word iAt = 10
  rolled_array : ∀ i < 10, t₁.mem.word (elem i) = s₁.mem.word (elem i)
  unrolled_array : ∀ i < 10, t₂.mem.word (elem i) = s₂.mem.word (elem i)
  rolled_frame : s₁.mem.SameOutside (bytesAt sAt ∪ bytesAt iAt) t₁.mem
  unrolled_frame : s₂.mem.SameOutside (bytesAt sAt) t₂.mem

/-- The array does not overlap what is stored. -/
lemma disjoint_elem {a : JInt} {i : ℕ} (ha : a.toNat + 4 ≤ 0x1008) (hi : i < 10) :
    Disjoint (bytesAt (elem i)) (bytesAt a) := by
  have := toNat_elem (Nat.le_of_lt hi)
  refine Set.disjoint_left.mpr fun j hj hja => ?_
  simp only [bytesAt, Set.mem_Ico] at hj hja
  omega

/-- **The loop and its unrolled form**: with the same array in memory, both programs halt with the
sum of the array in `s`, and change nothing else than `s`, and `i` in the first program. -/
theorem sums_agree (s₁ s₂ : Machine) (hpc₁ : s₁.pc = 0x100) (hpc₂ : s₂.pc = 0x100)
    (h₁ : Rolled s₁.mem) (h₂ : Unrolled s₂.mem)
    (harray : ∀ i < 10, s₁.mem.word (elem i) = s₂.mem.word (elem i)) :
    ∃ t₁ t₂, SumsAgree s₁ s₂ t₁ t₂ := by
  obtain ⟨t₁, ht₁, hmem₁⟩ := rolled_halts hpc₁ h₁
  obtain ⟨t₂, ht₂, hmem₂⟩ := unrolled_halts hpc₂ h₂
  have hw₁ : s₁.mem.HasWord sAt := h₁.hasWord (by decide)
  have hsum₁ : t₁.mem.word sAt = sum s₁.mem 10 := by
    rw [hmem₁, word_putWord_of_disjoint (.inl (by decide)), word_putWord hw₁]
  have hsum₂ : t₂.mem.word sAt = sum s₂.mem 10 := by
    rw [hmem₂, word_putWord (h₂.hasWord (by decide))]
  have hframe₁ : s₁.mem.SameOutside (bytesAt sAt ∪ bytesAt iAt) t₁.mem :=
    hmem₁ ▸ sameOutside_putWord.trans sameOutside_putWord
  have hframe₂ : s₂.mem.SameOutside (bytesAt sAt) t₂.mem := hmem₂ ▸ sameOutside_putWord
  refine ⟨t₁, t₂, ?_⟩
  constructor
  case rolled_halts => exact ht₁
  case unrolled_halts => exact ht₂
  case sum_eq => exact hsum₁
  case same_sum =>
    rw [hsum₁, hsum₂]
    exact Finset.sum_congr rfl fun i hi => harray i (Finset.mem_range.mp hi)
  case index_eq =>
    rw [hmem₁]
    exact word_putWord (hasWord_putWord.mpr (h₁.hasWord (by decide)))
  case rolled_array =>
    exact fun i hi => hframe₁.word_eq
      (Set.disjoint_union_right.mpr ⟨disjoint_elem (by decide) hi, disjoint_elem (by decide) hi⟩)
  case unrolled_array => exact fun i hi => hframe₂.word_eq (disjoint_elem (by decide) hi)
  case rolled_frame => exact hframe₁
  case unrolled_frame => exact hframe₂

end Runs

/-- The array of both programs. -/
def array : List JInt := [2, 4, 6, 8, 10, 12, 14, 16, 18, 20]

/-- A memory with this code and the array. -/
def image (code : List Instr) : List Byte :=
  List.replicate 0x100 0 ++ (assemble code ++
    (List.replicate (0xf08 - codeSize code) 0 ++ array.flatMap beBytes))

/-- The array is in memory behind each of the programs. -/
lemma word_image {m : MainMemory} {code : List Instr} (hm : m.mem = image code)
    (hcode : 0x100 + codeSize code ≤ 0x1008) {i : ℕ} (hi : i < array.length) :
    m.word (elem i) = array[i] := by
  refine word_of_words (List.replicate 0x100 0 ++ (assemble code ++
    List.replicate (0xf08 - codeSize code) 0)) [] ?_ ?_ hi
  · rw [hm, image, List.append_nil, List.append_assoc, List.append_assoc]
  · rw [List.length_append, List.length_append, List.length_replicate, List.length_replicate,
      length_assemble]
    show _ = 0x1008
    omega

theorem sums_agree_array : ∃ t₁ t₂,
    SumsAgree (boot 0x100 (fun _ => 0) ⟨image rolled, by decide +kernel⟩)
      (boot 0x100 (fun _ => 0) ⟨image unrolled, by decide +kernel⟩) t₁ t₂ :=
  sums_agree _ _ rfl rfl (resident_assemble _ rfl List.length_replicate (by decide +kernel))
    (resident_assemble _ rfl List.length_replicate (by decide +kernel))
    fun _ hi => (word_image rfl (by decide) hi).trans (word_image rfl (by decide) hi).symm

end Sums

end SM213
