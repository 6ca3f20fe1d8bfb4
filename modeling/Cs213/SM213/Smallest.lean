import Cs213.Library.Compare
import Cs213.SM213.Assembler

set_option relaxedAutoImplicit false
set_option autoImplicit false

/-!
# The smallest of ten numbers

`q4.s` looks for the smallest one of a number `min` and the ten words of an array. It compares a
word with `min` by the sign of their difference.

## Main definitions

* `SM213.Smallest.code` — the program.
* `SM213.Smallest.SmallestLaw` — the program leaves the smallest number in memory.
* `SM213.Smallest.Fits` — no difference overflows.

## Main results

* `SM213.Smallest.halts` — what the program leaves in memory.
* `SM213.Smallest.smallestLaw_iff` — the program is right on an array, and on those that repeat one
  of its words to the end, exactly if no difference overflows.
-/

namespace SM213

open Bytes Compare Compute MainMemory Selection StateTransition Until

namespace Smallest

/-! ## The code -/

/-- `q4.s`, at `0x100`; `bar` is at `0x116`, `foo` at `0x11e`, `loop` at `0x124` and `end_loop` at
`0x13c`. -/
def code : List Instr := [
  .loadImm 0 0x1004,       -- r0 = &i
  .loadBase 0 0 0,         -- r0 = i = 0
  .loadImm 1 0x1008,       -- r1 = address of a[0]
  .loadImm 2 0x1000,       -- r2 = &min
  .loadBase 0 2 2,         -- r2 = min
  .loadImm 3 0x11e,        -- r3 = address of foo
  .jInd 3 0x0,             -- foo ()
  .loadImm 4 0xfffffff6,   -- r4 = -10
  .mov 0 5,                -- r5 = i
  .add 4 5,                -- r5 = i - 10
  .beq 5 0x9,              -- if i == 10 done loop
  .loadIndexed 1 0 3,      -- r3 = a[i]
  .mov 2 6,                -- r6 = min
  .not 6,                  -- ~r6
  .inc 6,                  -- r6 = -min
  .add 3 6,                -- r6 = a[i] - min
  .inc 0,                  -- i++
  .bgt 6 0xf6,             -- if a[i] > min continue
  .mov 3 2,                -- min = a[i]
  .br 0xf4,                -- next iteration
  .loadImm 1 0x1000,       -- r1 = &min
  .storeBase 2 0 1,        -- min = r2
  .halt]

/-- The address of `min`. -/
abbrev minAt : JInt := 0x1000

/-- The address of `i`. -/
abbrev iAt : JInt := 0x1004

/-- The address of `a[0]`. -/
abbrev aAt : JInt := 0x1008

/-- The program is in memory, and its data is. -/
abbrev Program : MainMemory → Prop := Resident 0x1030 0x100 code

/-- The array. -/
def array (m : MainMemory) : List JInt := m.words aAt 10

/-! ## The law -/

/-- The smallest one of `min` and the words of an array. -/
def smallest (min : JInt) (a : List JInt) : JInt := select Less min a

/-- What the program selects: `r6` is the difference, and the program goes on with the next word if
it is positive. -/
def selected (min : JInt) (a : List JInt) : JInt :=
  select (fun x min => ¬ 0 < (x - min).toInt) min a

/-- **The law**: the program halts, and has stored the smallest one of `min` and the words of the
array, and nothing else. -/
def SmallestLaw (s : Machine) : Prop :=
  ∃ t, HaltsIn s t ∧ Least (t.mem.word minAt) (s.mem.word minAt :: array s.mem) ∧
    t.mem.word iAt = s.mem.word iAt ∧ array t.mem = array s.mem ∧
    s.mem.SameOutside (bytesAt minAt) t.mem

/-- No difference between a word and the smallest one before it overflows. -/
def Fits (min : JInt) (a : List JInt) : Prop :=
  ∀ k (hk : k < a.length), ¬ a[k].ssubOverflow (smallest min (a.take k))

/-- The machine with these words in the array. -/
def withArray (s : Machine) (a : List JInt) : Machine :=
  { s with mem := s.mem.putWords aAt a }

/-! ## The blocks -/

section Blocks

variable {m : MainMemory} {k : ℕ}

lemma part : Part Program 0x100 code := Resident.part (fun _ h => h) (by decide)

lemma length_array : (array m).length = 10 := MainMemory.length_words

/-- The word that is read in round `k`. -/
def elem (m : MainMemory) (k : ℕ) : JInt := m.word (aAt + 4 * BitVec.ofNat 32 k)

/-- The registers at the beginning of round `k` of the loop. -/
structure InLoop (m : MainMemory) (k : ℕ) (r : Fin 8 → JInt) : Prop where
  index : r 0 = BitVec.ofNat 32 k
  base : r 1 = aAt
  min : r 2 = selected (m.word minAt) ((array m).take k)
  limit : r 4 = 0xfffffff6

/-- To the loop. -/
lemma leads_loop (hm : Program m) (hi : m.word iAt = 0) :
    Leads Machine.step? (At 0x100 m fun _ => True) (At 0x124 m (InLoop m 0)) := by
  have hmin : m.HasWord minAt := hm.hasWord (by decide)
  have hiw : m.HasWord iAt := hm.hasWord (by decide)
  refine Leads.trans (Q := At 0x11e m fun r => r 0 = 0 ∧ r 1 = aAt ∧ r 2 = m.word minAt) ?_ ?_
  · refine (part.block 0x100 0 7 rfl).leads (fun _ _ _ _ => rfl) hm fun r _ => ?_
    refine ⟨by simpa [code, hm] using ⟨hiw, hmin⟩, _, ⟨?_, ?_, ?_⟩, by simp [code]; rfl⟩
    · simpa using hi
    · simp
    · simp
  · refine (part.block 0x11e 7 1 rfl).leads (fun _ _ _ _ => rfl) hm ?_
    rintro r ⟨h₀, h₁, h₂⟩
    refine ⟨by simp [code, hm], _, ⟨?_, ?_, ?_, ?_⟩, by simp [code]; rfl⟩
    · simp [h₀]
    · simp [h₁]
    · simp [h₂, selected]
    · simp

/-- The selection, in a round of the loop. -/
lemma selected_succ (hk : k < 10) (min : JInt) : selected min ((array m).take (k + 1)) =
    if 0 < (elem m k - selected min ((array m).take k)).toInt
    then selected min ((array m).take k) else elem m k := by
  have hk' : k < (array m).length := by rwa [length_array]
  have helem : (array m)[k] = elem m k := getElem_words _
  rw [selected, select_take_succ hk', helem, pick, ite_not]
  rfl

section Round

variable {r : Fin 8 → JInt}

lemma InLoop.index_ne (hr : InLoop m k r) (hk : k < 10) : ¬ r 4 + r 0 = 0#32 := by
  have hne : ∀ k < 10, 0xfffffff6#32 + BitVec.ofNat 32 k ≠ 0#32 := by decide
  rw [hr.limit, hr.index]
  exact hne k hk

lemma InLoop.hasWord (hr : InLoop m k r) (hm : Program m) (hk : k < 10) :
    m.HasWord (r 1 + 4#32 * r 0) := by
  rw [hr.base, hr.index]
  exact hasWord_element (n := 10) hm.length_ge hk

lemma InLoop.difference (hr : InLoop m k r) :
    m.word (r 1 + 4#32 * r 0) + (~~~ r 2 + 1#32) =
      elem m k - selected (m.word minAt) ((array m).take k) := by
  rw [add_not_add_one, hr.base, hr.index, hr.min, elem]
  rfl

end Round

/-- **A round of the loop.** -/
lemma leads_round (hm : Program m) (hk : k < 10) :
    Leads Machine.step? (At 0x124 m (InLoop m k)) (At 0x124 m (InLoop m (k + 1))) := by
  have hsucc := selected_succ (m := m) hk (m.word minAt)
  by_cases h : 0 < (elem m k - selected (m.word minAt) ((array m).take k)).toInt
  · rw [if_pos h] at hsucc
    refine (part.block 0x124 8 10 rfl).leads (fun _ _ _ _ => rfl) hm fun r hr => ?_
    have hne := hr.index_ne hk
    have hw := hr.hasWord hm hk
    have hpos : 0 < (m.word (r 1 + 4#32 * r 0) + (~~~ r 2 + 1#32)).toInt := hr.difference ▸ h
    refine ⟨by simp [code, hm, hne, hw, hpos, -BitVec.toInt_add], _, ⟨?_, ?_, ?_, ?_⟩,
      by simp [code, hne, hpos, -BitVec.toInt_add]; rfl⟩
    · simp [hr.index, BitVec.ofNat_add]
    · simp [hr.base]
    · exact (by simp : _ = r 2).trans (hr.min.trans hsucc.symm)
    · simp [hr.limit]
  · rw [if_neg h] at hsucc
    refine (part.block 0x124 8 12 rfl).leads (fun _ _ _ _ => rfl) hm fun r hr => ?_
    have hne := hr.index_ne hk
    have hw := hr.hasWord hm hk
    have hpos : ¬ 0 < (m.word (r 1 + 4#32 * r 0) + (~~~ r 2 + 1#32)).toInt := hr.difference ▸ h
    refine ⟨by simp [code, hm, hne, hw, hpos, -BitVec.toInt_add, -not_lt], _, ⟨?_, ?_, ?_, ?_⟩,
      by simp [code, hne, hpos, -BitVec.toInt_add, -not_lt]; rfl⟩
    · simp [hr.index, BitVec.ofNat_add]
    · simp [hr.base]
    · exact (by simp [hr.base, hr.index, elem] : _ = elem m k).trans hsucc.symm
    · simp [hr.limit]

/-- From the last test of the loop to `halt`. -/
lemma leads_end_loop (hm : Program m) : Leads Machine.step? (At 0x124 m (InLoop m 10))
    (At 0x144 (m.putWord minAt (selected (m.word minAt) (array m))) fun _ => True) := by
  have hw : m.HasWord minAt := hm.hasWord (by decide)
  have hm' : Program (m.putWord minAt (selected (m.word minAt) (array m))) :=
    hm.putWord (by decide) (by decide)
  have hall : (array m).take 10 = array m := take_words (Nat.le_refl _)
  refine Leads.trans (Q := At 0x13c m (InLoop m 10)) ?_ ?_
  · refine (part.block 0x124 8 3 rfl).leads (fun _ _ _ _ => rfl) hm fun r hr => ?_
    have hzero : r 4 + r 0 = 0#32 := by
      rw [hr.limit, hr.index]
      rfl
    refine ⟨by simp [code, hm, hzero], _, ⟨?_, ?_, ?_, ?_⟩, by simp [code, hzero]; rfl⟩
    · simp [hr.index]
    · simp [hr.base]
    · simp [hr.min]
    · simp [hr.limit]
  · refine (part.block 0x13c 20 2 rfl).leads (fun _ _ _ _ => rfl) hm fun r hr => ?_
    have hmin : r 2 = selected (m.word minAt) (array m) := by rw [hr.min, hall]
    exact ⟨by simpa [code, hm, hmin] using ⟨hw, hm'⟩, _, trivial, by simp [code, hmin]; rfl⟩

end Blocks

/-! ## The runs -/

section Runs

variable {s : Machine} {k : ℕ}

/-- **What the program leaves in memory.** -/
theorem halts (hpc : s.pc = 0x100) (hm : Program s.mem) (hi : s.mem.word iAt = 0) :
    ∃ t, HaltsIn s t ∧
      t.mem = s.mem.putWord minAt (selected (s.mem.word minAt) (array s.mem)) := by
  have hm' : Program (s.mem.putWord minAt (selected (s.mem.word minAt) (array s.mem))) :=
    hm.putWord (by decide) (by decide)
  have hloop : Leads Machine.step? (At 0x124 s.mem (InLoop s.mem 0))
      (At 0x124 s.mem (InLoop s.mem 10)) :=
    Leads.loop (I := fun k => At 0x124 s.mem (InLoop s.mem k)) fun _ hk => leads_round hm hk
  have hrun := ((leads_loop hm hi).trans hloop).trans (leads_end_loop hm)
  obtain ⟨u, ⟨hupc, humem, -⟩, hu⟩ := hrun (s := s) ⟨hpc, rfl, trivial⟩
  obtain ⟨t, ht, -, hmem⟩ := (part.block 0x144 22 1 rfl).haltsIn hu hupc (humem ▸ hm')
  exact ⟨t, ht, hmem.trans humem⟩

/-- The program is right if it selects the smallest number. -/
lemma smallestLaw_iff_selected (hpc : s.pc = 0x100) (hm : Program s.mem)
    (hi : s.mem.word iAt = 0) : SmallestLaw s ↔
      selected (s.mem.word minAt) (array s.mem) = smallest (s.mem.word minAt) (array s.mem) := by
  obtain ⟨t, ht, hmem⟩ := halts hpc hm hi
  have hlen := hm.length_ge
  have hsame : s.mem.SameOutside (bytesAt minAt) t.mem := hmem ▸ sameOutside_putWord
  have hword : t.mem.word minAt = selected (s.mem.word minAt) (array s.mem) := by
    rw [hmem, word_putWord (hm.hasWord (by decide))]
  have hbest : Least (smallest (s.mem.word minAt) (array s.mem))
      (s.mem.word minAt :: array s.mem) := least_select
  constructor
  · rintro ⟨t', ht', hbest', -⟩
    rw [ht'.unique ht, hword] at hbest'
    exact hbest'.unique hbest
  · intro heq
    refine ⟨t, ht, ?_, hsame.word_eq ?_, hsame.words_eq hlen ?_, hsame⟩
    · rwa [hword, heq]
    · exact Set.Ico_disjoint_Ico.mpr (by decide)
    · exact Set.Ico_disjoint_Ico.mpr (by decide)

section WithArray

variable {a : List JInt}

/-- What an array of ten words replaces. -/
lemma sameOutside_withArray (hm : Program s.mem) (ha : a.length = 10) :
    s.mem.SameOutside (Set.Ico 0x1008 0x1030) (withArray s a).mem := by
  have hinside : aAt.toNat + 4 * a.length ≤ s.mem.length := by
    rw [ha]
    exact hm.length_ge
  have hsame := sameOutside_putWords hinside
  rwa [ha] at hsame

lemma program_withArray (hm : Program s.mem) (ha : a.length = 10) :
    Program (withArray s a).mem :=
  hm.of_sameOutside (sameOutside_withArray hm ha) (by decide)
    (Set.Ico_disjoint_Ico.mpr (by decide))

lemma word_minAt_withArray (hm : Program s.mem) (ha : a.length = 10) :
    (withArray s a).mem.word minAt = s.mem.word minAt :=
  (sameOutside_withArray hm ha).word_eq (Set.Ico_disjoint_Ico.mpr (by decide))

lemma word_iAt_withArray (hm : Program s.mem) (ha : a.length = 10) :
    (withArray s a).mem.word iAt = s.mem.word iAt :=
  (sameOutside_withArray hm ha).word_eq (Set.Ico_disjoint_Ico.mpr (by decide))

lemma array_withArray (hm : Program s.mem) (ha : a.length = 10) :
    array (withArray s a).mem = a := by
  have hinside : aAt.toNat + 4 * a.length ≤ s.mem.length := by
    rw [ha]
    exact hm.length_ge
  have hwords := words_putWords hinside
  rwa [ha] at hwords

end WithArray

/-- **When the program is right.** If no difference overflows, the program leaves the smallest one
of `min` and the words of the array. It does so for all arrays that repeat one word of this one to
the end exactly if no difference overflows. -/
theorem smallestLaw_iff (s : Machine) (hpc : s.pc = 0x100) (hm : Program s.mem)
    (hi : s.mem.word iAt = 0) :
    (Fits (s.mem.word minAt) (array s.mem) → SmallestLaw s) ∧
      ((∀ k (hk : k < (array s.mem).length), SmallestLaw (withArray s (flat (array s.mem) k hk))) ↔
        Fits (s.mem.word minAt) (array s.mem)) := by
  have hagree : Agree Less (fun x min : JInt => ¬ 0 < (x - min).toInt) (s.mem.word minAt)
      (array s.mem) ↔ Fits (s.mem.word minAt) (array s.mem) := agree_less_iff
  constructor
  · intro hfits
    exact (smallestLaw_iff_selected hpc hm hi).mpr (hagree.mpr hfits).select_eq
  · rw [← hagree, ← select_flat_eq_iff]
    refine forall_congr' fun k => forall_congr' fun hk => ?_
    have hflat : (flat (array s.mem) k hk).length = 10 := (length_flat hk).trans length_array
    have hwith : (withArray s (flat (array s.mem) k hk)).pc = 0x100 := hpc
    rw [smallestLaw_iff_selected hwith (program_withArray hm hflat)
      (by rw [word_iAt_withArray hm hflat, hi]), array_withArray hm hflat,
      word_minAt_withArray hm hflat]
    rfl

end Runs

/-! ## Two arrays -/

instance (min : JInt) (a : List JInt) : Decidable (Fits min a) :=
  inferInstanceAs (Decidable (∀ k (_ : k < a.length), _))

/-- A memory with the program, this `min` and this array. -/
def image (min : JInt) (a : List JInt) : List Byte :=
  List.replicate 0x100 0 ++ (assemble code ++ (List.replicate 0xeba 0 ++
    (min :: 0 :: a).flatMap beBytes))

section Image

variable {min : JInt} {a : List JInt} {m : MainMemory}

lemma length_image (ha : a.length = 10) : (image min a).length = 0x1030 := by
  rw [image, List.length_append, List.length_append, List.length_append, List.length_replicate,
    List.length_replicate, length_assemble, length_flatMap_beBytes, List.length_cons,
    List.length_cons, ha]
  decide

lemma program_image (hm : m.mem = image min a) (ha : a.length = 10) : Program m :=
  resident_assemble (List.replicate 0x100 0) hm (List.length_replicate ..)
    (by rw [MainMemory.length, hm, length_image ha])

/-- The words of the program. -/
lemma word_image (hm : m.mem = image min a) {i : ℕ} (hi : i < (min :: 0 :: a).length) :
    m.word (minAt + 4 * BitVec.ofNat 32 i) = (min :: 0 :: a)[i] := by
  refine word_of_words (List.replicate 0x100 0 ++ (assemble code ++ List.replicate 0xeba 0)) []
    ?_ ?_ hi
  · simp only [hm, image, List.append_nil, List.append_assoc]
  · rw [List.length_append, List.length_append, List.length_replicate, List.length_replicate,
      length_assemble]
    decide

lemma word_minAt_image (hm : m.mem = image min a) : m.word minAt = min :=
  word_image hm (i := 0) (Nat.succ_pos _)

lemma word_iAt_image (hm : m.mem = image min a) : m.word iAt = 0 :=
  word_image hm (i := 1) (Nat.succ_lt_succ (Nat.succ_pos _))

lemma array_image (hm : m.mem = image min a) (ha : a.length = 10) : array m = a := by
  refine List.ext_getElem (length_array.trans ha.symm) fun i hi hi' => ?_
  have hword := word_image (i := i + 2) hm (Nat.succ_lt_succ (Nat.succ_lt_succ hi'))
  rw [BitVec.ofNat_add, BitVec.mul_add, BitVec.add_comm _ (4 * 2#32), ← BitVec.add_assoc] at hword
  exact (getElem_words hi).trans hword

/-- The machine that is about to run the program on this `min` and this array. -/
def booted (min : JInt) (a : List JInt) (ha : a.length = 10) : Machine :=
  boot 0x100 (fun _ => 0) ⟨image min a, by rw [length_image ha]; decide⟩

end Image

theorem smallestLaw_example : SmallestLaw
    (booted 0xf4240 [0x2, 0x28, 0x6, 0x50, 0xa, 0x78, 0xe, 0x10, 0x30, 0x14] rfl) :=
  (smallestLaw_iff _ rfl (program_image rfl rfl) (word_iAt_image rfl)).1
    (by rw [word_minAt_image rfl, array_image rfl rfl]; decide)

/-- **An overflow**: if the least number is in the array, and `min` is 1, the program leaves 1. -/
theorem overflow_not_smallestLaw : ¬ ∀ s : Machine, s.pc = 0x100 → Program s.mem →
    s.mem.word iAt = 0 → SmallestLaw s := by
  intro h
  have hp : Program (booted 1 (0x80000000 :: List.replicate 9 2) rfl).mem :=
    program_image rfl rfl
  have hi : (booted 1 (0x80000000 :: List.replicate 9 2) rfl).mem.word iAt = 0 :=
    word_iAt_image rfl
  have heq := (smallestLaw_iff_selected rfl hp hi).mp (h _ rfl hp hi)
  rw [word_minAt_image rfl, array_image rfl rfl] at heq
  revert heq
  decide +kernel

end Smallest

end SM213
