import Cs213.Library.Compare
import Cs213.SM213.Assembler

set_option relaxedAutoImplicit false
set_option autoImplicit false

/-!
# The largest element of an array

`A5-a.s` looks for the largest element of an array of any length, and for -1 if there is no larger
one. It compares an element with the largest one so far by the sign of their difference.

## Main definitions

* `SM213.Largest.code` — the program.
* `SM213.Largest.LargestLaw` — the program leaves the largest element in memory.
* `SM213.Largest.Fits` — no difference overflows.

## Main results

* `SM213.Largest.halts` — what the program leaves in memory, for every array.
* `SM213.Largest.largestLaw_iff` — the program is right on an array and its beginnings exactly if no
  difference overflows.
-/

namespace SM213

open Bytes Compare Compute MainMemory Selection StateTransition Until

namespace Largest

/-! ## The code -/

/-- `A5-a.s`, at `0x0`; the loop begins at `0x1c` and ends at `0x34`. -/
def code : List Instr := [
  .loadImm 0 0x0,
  .not 0,
  .loadImm 1 0x1000,
  .loadBase 0 1 1,         -- r1 = &a[0]
  .loadImm 2 0x1004,
  .loadBase 0 2 2,         -- r2 = i
  .not 2,                  -- r2 = -i - 1
  .inc 2,                  -- r2 = -i
  .beq 2 0xb,              -- if (i==0) end loop
  .loadBase 0 1 3,         -- r3 = a[i]
  .mov 0 4,
  .not 4,
  .inc 4,
  .add 3 4,
  .bgt 4 0x1,              -- if a[i] > max -> 0x2c
  .br 0x1,
  .mov 3 0,                -- 0x2c
  .inca 1,                 -- r1 = a++
  .inc 2,                  -- i++
  .br 0xf4,
  .loadImm 1 0x1008,       -- end loop
  .storeBase 0 0 1,
  .halt]

/-- The address of the array is stored here. -/
abbrev arrayAt : JInt := 0x1000

/-- The length of the array is stored here. -/
abbrev countAt : JInt := 0x1004

/-- The result is stored here. -/
abbrev maxAt : JInt := 0x1008

/-- The program is in memory, and memory has the words it uses. -/
abbrev Program : MainMemory → Prop := Resident 0x100c 0x0 code

/-- The length of the array. -/
def count (m : MainMemory) : ℕ := (m.word countAt).toInt.toNat

/-- The array. -/
def array (m : MainMemory) : List JInt := m.words (m.word arrayAt) (count m)

/-- The array is in memory, apart from the program and its words. -/
structure Input (m : MainMemory) : Prop where
  count_nonneg : 0 ≤ (m.word countAt).toInt
  inside : count m = 0 ∨ (m.word arrayAt).toNat + 4 * count m ≤ m.length
  disjoint : Disjoint
    (Set.Ico (m.word arrayAt).toNat ((m.word arrayAt).toNat + 4 * count m))
    (Set.Ico 0 (codeSize code) ∪ Set.Ico 0x1000 0x100c)

/-! ## The law -/

/-- The loop of `A5-a.c`: an element that is greater than `max` takes its place. -/
def largest (a : List JInt) : JInt := select Greater (-1) a

/-- What the program selects: `r4` is the difference. -/
def selected (a : List JInt) : JInt := select (fun x max => 0 < (x - max).toInt) (-1) a

/-- **The law**: the program halts, and has stored the greatest one of -1 and the elements of the
array, and nothing else. -/
def LargestLaw (s : Machine) : Prop :=
  ∃ t, HaltsIn s t ∧ Greatest (t.mem.word maxAt) (-1 :: array s.mem) ∧
    s.mem.SameOutside (bytesAt maxAt) t.mem

/-- No difference between an element and the greatest one before it overflows. -/
def Fits (a : List JInt) : Prop :=
  ∀ k (hk : k < a.length), ¬ a[k].ssubOverflow (largest (a.take k))

/-- The array is cut off after `k` elements. -/
def cut (s : Machine) (k : ℕ) : Machine :=
  { s with mem := s.mem.putWord countAt (BitVec.ofNat 32 k) }

/-! ## The blocks -/

section Blocks

variable {m : MainMemory} {k : ℕ}

lemma part : Part Program 0x0 code := Resident.part (fun _ h => h) (by decide)

/-- The element that is read in round `k`. -/
def elem (m : MainMemory) (k : ℕ) : JInt := m.word (m.word arrayAt + 4 * BitVec.ofNat 32 k)

/-- The registers at the beginning of round `k` of the loop. -/
structure InLoop (m : MainMemory) (k : ℕ) (r : Fin 8 → JInt) : Prop where
  max : r 0 = selected ((array m).take k)
  element : r 1 = m.word arrayAt + 4 * BitVec.ofNat 32 k
  index : r 2 = BitVec.ofNat 32 k - m.word countAt

/-- To the loop. -/
lemma leads_loop (hm : Program m) :
    Leads Machine.step? (At 0x0 m fun _ => True) (At 0x1c m (InLoop m 0)) := by
  have ha : m.HasWord arrayAt := hm.hasWord (by decide)
  have hc : m.HasWord countAt := hm.hasWord (by decide)
  refine (part.block 0x0 0 8 rfl).leads (fun _ _ _ _ => rfl) hm fun r _ => ?_
  refine ⟨by simpa [code, hm] using ⟨ha, hc⟩, _, ⟨?_, ?_, ?_⟩, by simp [code]; rfl⟩
  · simp [selected]
  · simp
  · simp [← BitVec.neg_eq_not_add]

lemma toNat_count (hin : Input m) : (m.word countAt).toNat = count m := by
  have hnonneg := hin.count_nonneg
  have hcond := (m.word countAt).toInt_eq_toNat_cond
  rw [count]
  split_ifs at hcond <;> omega

/-- The index is zero after the last round. -/
lemma index_eq_zero_iff (hin : Input m) (hk : k ≤ count m) :
    BitVec.ofNat 32 k - m.word countAt = 0#32 ↔ k = count m := by
  have hcount := toNat_count hin
  have hlt := (m.word countAt).isLt
  rw [BitVec.sub_eq_iff_eq_add, BitVec.zero_add, ← BitVec.toNat_inj, BitVec.toNat_ofNat, hcount]
  omega

/-- The selection, in a round that is not the last one. -/
lemma selected_succ (hk : k < count m) : selected ((array m).take (k + 1)) =
    if 0 < (elem m k - selected ((array m).take k)).toInt then elem m k
    else selected ((array m).take k) := by
  have hk' : k < (array m).length := by rwa [array, MainMemory.length_words]
  rw [selected, select_take_succ hk']
  have helem : (array m)[k] = elem m k := getElem_words _
  rw [helem]
  rfl

section Round

variable {r : Fin 8 → JInt}

lemma InLoop.index_ne (hr : InLoop m k r) (hin : Input m) (hk : k < count m) : ¬ r 2 = 0#32 := by
  rw [hr.index, index_eq_zero_iff hin (Nat.le_of_lt hk)]
  exact Nat.ne_of_lt hk

lemma InLoop.hasWord (hr : InLoop m k r) (hin : Input m) (hk : k < count m) :
    m.HasWord (r 1) := by
  rw [hr.element]
  exact hasWord_element (hin.inside.resolve_left (Nat.ne_zero_of_lt hk)) hk

lemma InLoop.difference (hr : InLoop m k r) :
    m.word (r 1) + (~~~ r 0 + 1#32) = elem m k - selected ((array m).take k) := by
  rw [add_not_add_one, hr.element, hr.max, elem]

end Round

/-- The test of the loop and the comparison, for an element that is taken. -/
lemma leads_greater (hm : Program m) (hin : Input m) (hk : k < count m)
    (h : 0 < (elem m k - selected ((array m).take k)).toInt) :
    Leads Machine.step? (At 0x1c m (InLoop m k))
      (At 0x2c m fun r => InLoop m k r ∧ r 3 = elem m k) := by
  refine (part.block 0x1c 8 7 rfl).leads (fun _ _ _ _ => rfl) hm fun r hr => ?_
  have hne := hr.index_ne hin hk
  have hw := hr.hasWord hin hk
  have hpos : 0 < (m.word (r 1) + (~~~ r 0 + 1#32)).toInt := hr.difference ▸ h
  refine ⟨by simp [code, hm, hne, hw, hpos, -BitVec.toInt_add], _, ⟨⟨?_, ?_, ?_⟩, ?_⟩,
    by simp [code, hne, hpos, -BitVec.toInt_add]; rfl⟩
  · simp [hr.max]
  · simp [hr.element]
  · simp [hr.index]
  · simp [hr.element, elem]

/-- The test of the loop and the comparison, for an element that is not taken. -/
lemma leads_not_greater (hm : Program m) (hin : Input m) (hk : k < count m)
    (h : ¬ 0 < (elem m k - selected ((array m).take k)).toInt) :
    Leads Machine.step? (At 0x1c m (InLoop m k)) (At 0x2e m (InLoop m k)) := by
  refine (part.block 0x1c 8 8 rfl).leads (fun _ _ _ _ => rfl) hm fun r hr => ?_
  have hne := hr.index_ne hin hk
  have hw := hr.hasWord hin hk
  have hpos : ¬ 0 < (m.word (r 1) + (~~~ r 0 + 1#32)).toInt := hr.difference ▸ h
  refine ⟨by simp [code, hm, hne, hw, hpos, -BitVec.toInt_add, -not_lt], _, ⟨?_, ?_, ?_⟩,
    by simp [code, hne, hpos, -BitVec.toInt_add, -not_lt]; rfl⟩
  · simp [hr.max]
  · simp [hr.element]
  · simp [hr.index]

/-- **A round of the loop.** -/
lemma leads_round (hm : Program m) (hin : Input m) (hk : k < count m) :
    Leads Machine.step? (At 0x1c m (InLoop m k)) (At 0x1c m (InLoop m (k + 1))) := by
  have hsucc := selected_succ hk
  by_cases h : 0 < (elem m k - selected ((array m).take k)).toInt
  · rw [if_pos h] at hsucc
    refine (leads_greater hm hin hk h).trans ?_
    refine (part.block 0x2c 16 4 rfl).leads (fun _ _ _ _ => rfl) hm fun r hr => ?_
    refine ⟨by simp [code, hm], _, ⟨?_, ?_, ?_⟩, by simp [code]; rfl⟩
    · simp [hr.2, hsucc]
    · simp [hr.1.element, BitVec.ofNat_add, BitVec.mul_add, BitVec.add_assoc]
    · simp [hr.1.index, BitVec.ofNat_add, BitVec.sub_eq_add_neg, BitVec.add_assoc,
        BitVec.add_comm (1#32)]
  · rw [if_neg h] at hsucc
    refine (leads_not_greater hm hin hk h).trans ?_
    refine (part.block 0x2e 17 3 rfl).leads (fun _ _ _ _ => rfl) hm fun r hr => ?_
    refine ⟨by simp [code, hm], _, ⟨?_, ?_, ?_⟩, by simp [code]; rfl⟩
    · simp [hr.max, hsucc]
    · simp [hr.element, BitVec.ofNat_add, BitVec.mul_add, BitVec.add_assoc]
    · simp [hr.index, BitVec.ofNat_add, BitVec.sub_eq_add_neg, BitVec.add_assoc,
        BitVec.add_comm (1#32)]

/-- From the last test of the loop to `halt`. -/
lemma leads_end (hm : Program m) (hin : Input m) :
    Leads Machine.step? (At 0x1c m (InLoop m (count m)))
      (At 0x3c (m.putWord maxAt (selected (array m))) fun _ => True) := by
  have hw : m.HasWord maxAt := hm.hasWord (by decide)
  have hm' : Program (m.putWord maxAt (selected (array m))) := hm.putWord (by decide) (by decide)
  have hall : (array m).take (count m) = array m := take_words (Nat.le_refl _)
  refine Leads.trans (Q := At 0x34 m (InLoop m (count m))) ?_ ?_
  · refine (part.block 0x1c 8 1 rfl).leads (fun _ _ _ _ => rfl) hm fun r hr => ?_
    have hzero : r 2 = 0#32 := by rw [hr.index, index_eq_zero_iff hin (Nat.le_refl _)]
    exact ⟨by simp [code, hm, hzero], r, hr, by simp [code, hzero]⟩
  · refine (part.block 0x34 20 2 rfl).leads (fun _ _ _ _ => rfl) hm fun r hr => ?_
    have hmax : r 0 = selected (array m) := by rw [hr.max, hall]
    exact ⟨by simpa [code, hm, hmax] using ⟨hw, hm'⟩, _, trivial, by simp [code, hmax]; rfl⟩

end Blocks

/-! ## The runs -/

section Runs

variable {s : Machine} {k : ℕ}

/-- **What the program leaves in memory**, for every array. -/
theorem halts (hpc : s.pc = 0x0) (hm : Program s.mem) (hin : Input s.mem) :
    ∃ t, HaltsIn s t ∧ t.mem = s.mem.putWord maxAt (selected (array s.mem)) := by
  have hm' : Program (s.mem.putWord maxAt (selected (array s.mem))) :=
    hm.putWord (by decide) (by decide)
  have hloop : Leads Machine.step? (At 0x1c s.mem (InLoop s.mem 0))
      (At 0x1c s.mem (InLoop s.mem (count s.mem))) :=
    Leads.loop (I := fun k => At 0x1c s.mem (InLoop s.mem k)) fun _ hk => leads_round hm hin hk
  have hrun := ((leads_loop hm).trans hloop).trans (leads_end hm hin)
  obtain ⟨u, ⟨hupc, humem, -⟩, hu⟩ := hrun (s := s) ⟨hpc, rfl, trivial⟩
  obtain ⟨t, ht, -, hmem⟩ := (part.block 0x3c 22 1 rfl).haltsIn hu hupc (humem ▸ hm')
  exact ⟨t, ht, hmem.trans humem⟩

/-- The program is right if it selects what the loop of `A5-a.c` selects. -/
lemma largestLaw_iff_selected (hpc : s.pc = 0x0) (hm : Program s.mem) (hin : Input s.mem) :
    LargestLaw s ↔ selected (array s.mem) = largest (array s.mem) := by
  obtain ⟨t, ht, hmem⟩ := halts hpc hm hin
  have hword : t.mem.word maxAt = selected (array s.mem) := by
    rw [hmem, word_putWord (hm.hasWord (by decide))]
  have hbest : Greatest (largest (array s.mem)) (-1 :: array s.mem) := greatest_select
  constructor
  · rintro ⟨t', ht', hbest', -⟩
    rw [ht'.unique ht, hword] at hbest'
    exact hbest'.unique hbest
  · intro heq
    refine ⟨t, ht, ?_, hmem ▸ sameOutside_putWord⟩
    rwa [hword, heq]

/-- What is cut off is not in the way. -/
lemma sameOutside_cut : s.mem.SameOutside (bytesAt countAt) (cut s k).mem := sameOutside_putWord

lemma program_cut (hm : Program s.mem) : Program (cut s k).mem :=
  hm.putWord (by decide) (by decide)

lemma word_arrayAt_cut : (cut s k).mem.word arrayAt = s.mem.word arrayAt :=
  word_putWord_of_disjoint (.inl (by decide))

lemma count_lt {m : MainMemory} : count m < 2 ^ 31 := by
  have hcond := (m.word countAt).toInt_eq_toNat_cond
  have hlt := (m.word countAt).isLt
  rw [count]
  split_ifs at hcond <;> omega

lemma word_countAt_cut (hm : Program s.mem) :
    (cut s k).mem.word countAt = BitVec.ofNat 32 k :=
  word_putWord (hm.hasWord (by decide))

lemma toInt_ofNat_of_le (hk : k ≤ count s.mem) : (BitVec.ofNat 32 k).toInt = k := by
  have hlt := count_lt (m := s.mem)
  rw [BitVec.toInt_eq_toNat_cond, BitVec.toNat_ofNat]
  split_ifs <;> omega

lemma count_cut (hm : Program s.mem) (hk : k ≤ count s.mem) : count (cut s k).mem = k := by
  rw [count, word_countAt_cut hm, toInt_ofNat_of_le hk, Int.toNat_natCast]

lemma input_cut (hm : Program s.mem) (hin : Input s.mem) (hk : k ≤ count s.mem) :
    Input (cut s k).mem := by
  have hinside := hin.inside
  have hlen : (cut s k).mem.length = s.mem.length := sameOutside_cut.length_eq
  refine ⟨?_, ?_, ?_⟩
  · rw [word_countAt_cut hm, toInt_ofNat_of_le hk]
    exact Int.natCast_nonneg k
  · rw [word_arrayAt_cut, count_cut hm hk, hlen]
    omega
  · rw [word_arrayAt_cut, count_cut hm hk]
    exact hin.disjoint.mono_left (Set.Ico_subset_Ico_right (by omega))

/-- The elements that are left. -/
lemma array_cut (hm : Program s.mem) (hin : Input s.mem) (hk : k ≤ count s.mem) :
    array (cut s k).mem = (array s.mem).take k := by
  have hinside := hin.inside
  rw [array, word_arrayAt_cut, count_cut hm hk, array, take_words hk]
  rcases Nat.eq_zero_or_pos k with rfl | hpos
  · rfl
  refine sameOutside_cut.words_eq (by omega) ?_
  refine (hin.disjoint.mono_left (Set.Ico_subset_Ico_right (by omega))).mono_right ?_
  exact (Set.Ico_subset_Ico (by decide) (by decide)).trans Set.subset_union_right

/-- **When the program is right.** If no difference overflows, the program leaves the greatest one
of -1 and the elements of the array. It does so for the array and all its beginnings exactly if no
difference overflows. -/
theorem largestLaw_iff (s : Machine) (hpc : s.pc = 0x0) (hm : Program s.mem)
    (hin : Input s.mem) : (Fits (array s.mem) → LargestLaw s) ∧
      ((∀ k ≤ count s.mem, LargestLaw (cut s k)) ↔ Fits (array s.mem)) := by
  have hagree : Agree Greater (fun x max : JInt => 0 < (x - max).toInt) (-1) (array s.mem) ↔
      Fits (array s.mem) := agree_greater_iff
  have hlen : (array s.mem).length = count s.mem := MainMemory.length_words
  constructor
  · intro hfits
    exact (largestLaw_iff_selected hpc hm hin).mpr (hagree.mpr hfits).select_eq
  · rw [← hagree, ← select_take_eq_iff, hlen]
    refine forall_congr' fun k => forall_congr' fun hk => ?_
    have hcut : (cut s k).pc = 0x0 := hpc
    rw [largestLaw_iff_selected hcut (program_cut hm) (input_cut hm hin hk), array_cut hm hin hk]
    rfl

end Runs

/-! ## Two arrays -/

instance (a : List JInt) : Decidable (Fits a) :=
  inferInstanceAs (Decidable (∀ k (_ : k < a.length), _))

/-- A memory with the program and this array at `0x100`. -/
def image (a : List JInt) : List Byte :=
  assemble code ++ (List.replicate 0xc2 0 ++ (a.flatMap beBytes ++
    (List.replicate (0xf00 - 4 * a.length) 0 ++
      [0x100, BitVec.ofNat 32 a.length, 0].flatMap beBytes)))

section Image

variable {a : List JInt} {m : MainMemory}

lemma length_image (ha : 4 * a.length ≤ 0xf00) : (image a).length = 0x100c := by
  rw [image, List.length_append, List.length_append, List.length_append, List.length_append,
    List.length_replicate, List.length_replicate, length_assemble, length_flatMap_beBytes,
    length_flatMap_beBytes]
  show 0x3e + (0xc2 + (4 * a.length + (0xf00 - 4 * a.length + 4 * 3))) = 0x100c
  omega

lemma program_image (hm : m.mem = image a) (ha : 4 * a.length ≤ 0xf00) : Program m :=
  resident_assemble [] hm rfl (by rw [MainMemory.length, hm, length_image ha])

/-- The words behind the array. -/
lemma word_image (hm : m.mem = image a) (ha : 4 * a.length ≤ 0xf00) {i : ℕ} (hi : i < 3) :
    m.word (arrayAt + 4 * BitVec.ofNat 32 i) =
      [0x100, BitVec.ofNat 32 a.length, 0].get ⟨i, hi⟩ := by
  refine word_of_words (assemble code ++ (List.replicate 0xc2 0 ++ (a.flatMap beBytes ++
    List.replicate (0xf00 - 4 * a.length) 0))) [] ?_ ?_ hi
  · simp only [hm, image, List.append_nil, List.append_assoc]
  · rw [List.length_append, List.length_append, List.length_append, List.length_replicate,
      List.length_replicate, length_assemble, length_flatMap_beBytes]
    show 0x3e + (0xc2 + (4 * a.length + (0xf00 - 4 * a.length))) = 0x1000
    omega

lemma word_arrayAt_image (hm : m.mem = image a) (ha : 4 * a.length ≤ 0xf00) :
    m.word arrayAt = 0x100 := word_image hm ha (i := 0) (by decide)

lemma toInt_countAt_image (hm : m.mem = image a) (ha : 4 * a.length ≤ 0xf00) :
    (m.word countAt).toInt = a.length := by
  have hword : m.word countAt = BitVec.ofNat 32 a.length := word_image hm ha (i := 1) (by decide)
  rw [hword, BitVec.toInt_eq_toNat_cond, BitVec.toNat_ofNat]
  split_ifs <;> omega

lemma count_image (hm : m.mem = image a) (ha : 4 * a.length ≤ 0xf00) : count m = a.length := by
  rw [count, toInt_countAt_image hm ha, Int.toNat_natCast]

lemma input_image (hm : m.mem = image a) (ha : 4 * a.length ≤ 0xf00) : Input m := by
  have hlen : m.length = 0x100c := by rw [MainMemory.length, hm, length_image ha]
  refine ⟨?_, ?_, ?_⟩
  · rw [toInt_countAt_image hm ha]
    exact Int.natCast_nonneg _
  · rw [word_arrayAt_image hm ha, count_image hm ha, hlen]
    right
    show 0x100 + _ ≤ _
    omega
  · have hcode : codeSize code = 0x3e := by decide
    have hat : (0x100 : JInt).toNat = 0x100 := by decide
    rw [word_arrayAt_image hm ha, count_image hm ha, hcode, hat]
    refine Set.disjoint_left.mpr fun j hj hj' => ?_
    simp only [Set.mem_Ico, Set.mem_union] at hj hj'
    omega

lemma array_image (hm : m.mem = image a) (ha : 4 * a.length ≤ 0xf00) : array m = a := by
  rw [array, word_arrayAt_image hm ha, count_image hm ha]
  refine List.ext_getElem MainMemory.length_words fun i hi hi' => ?_
  rw [getElem_words]
  refine word_of_words (assemble code ++ List.replicate 0xc2 0)
    (List.replicate (0xf00 - 4 * a.length) 0 ++
      [0x100, BitVec.ofNat 32 a.length, 0].flatMap beBytes) ?_ ?_ hi'
  · simp only [hm, image, List.append_assoc]
  · rw [List.length_append, List.length_replicate, length_assemble]
    rfl

/-- The machine that is about to run the program on this array. -/
def booted (a : List JInt) (ha : 4 * a.length ≤ 0xf00) : Machine :=
  boot 0x0 (fun _ => 0) ⟨image a, by rw [length_image ha]; decide⟩

end Image

theorem largestLaw_example : LargestLaw (booted [0x2, 0x4, 0x10, 0x7, 0x1] (by decide)) :=
  (largestLaw_iff _ rfl (program_image rfl (by decide)) (input_image rfl (by decide))).1
    (by rw [array_image rfl (by decide)]; decide)

/-- **An overflow**: for the array with the largest number only, the program leaves -1. -/
theorem overflow_not_largestLaw : ¬ ∀ s : Machine, s.pc = 0x0 → Program s.mem → Input s.mem →
    LargestLaw s := by
  intro h
  have hp : Program (booted [0x7fffffff] (by decide)).mem := program_image rfl (by decide)
  have hin : Input (booted [0x7fffffff] (by decide)).mem := input_image rfl (by decide)
  have heq := (largestLaw_iff_selected rfl hp hin).mp (h _ rfl hp hin)
  rw [array_image rfl (by decide)] at heq
  revert heq
  decide

end Largest

end SM213
