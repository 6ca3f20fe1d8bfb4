import Cs213.FunWithThreads.Disk

set_option relaxedAutoImplicit false
set_option autoImplicit false

/-!
# Unpacking the result of a read

A read of the disk returns its processing number and its request number in one `int`. The verbose
output takes them apart again.

## Main definitions

* `Disk.Unpacks` — both numbers of a read are recovered from its result.
* `Disk.PackLaw` — they are, for all reads of a run.

## Main results

* `Disk.Counted.loaded_lt` — the processing numbers of `readCount` reads are less than `readCount`.
* `Disk.packLaw_iff` — the law holds exactly for up to 32768 reads.
-/

namespace Disk

open Runs

/-! ## The law -/

/-- `val & 0xffff`. -/
def request (val : JInt) : JInt := val &&& 0xffff

/-- The numbers of a read, recovered from what it returns when `count` is `c`. -/
def Unpacks (c : JInt) (req : ℕ) : Prop :=
  number ((read req).run c).1 = c ∧ request ((read req).run c).1 = BitVec.ofNat 32 req

instance (c : JInt) (req : ℕ) : Decidable (Unpacks c req) := inferInstanceAs (Decidable (_ ∧ _))

/-- **The law** for this number of reads: after `sequential` the verbose output prints the pair
`(i, i)` for read `i`. In every run with threads both numbers are recovered from the result of each
read, whatever `count` is when it is loaded. -/
structure PackLaw (readCount : ℕ) : Prop where
  sequential : ∀ i < readCount, ∃ v, (sequential readCount).1[i]? = some v ∧
    number v = BitVec.ofNat 32 i ∧ request v = BitVec.ofNat 32 i
  threads : ∀ threadCount acts s i v, run (step readCount threadCount) .start acts = some s →
    s.phase i = .loaded v → Unpacks v i

/-! ## The processing numbers of a run -/

section Counted

variable {readCount threadCount : ℕ} {s t : State} {a : Act}

/-- The reads that have returned. -/
def State.returned (readCount : ℕ) (s : State) : Finset ℕ :=
  {i ∈ Finset.range readCount | (s.phase i).isReturned}

/-- No processing number exceeds the number of reads that have returned. -/
structure Counted (readCount : ℕ) (s : State) : Prop where
  count : ∃ c ≤ (s.returned readCount).card, s.count = BitVec.ofNat 32 c
  loaded : ∀ i v, s.phase i = .loaded v →
    ∃ k ≤ (s.returned readCount).card, v = BitVec.ofNat 32 k

lemma counted_start : Counted readCount .start where
  count := ⟨0, Nat.zero_le _, rfl⟩
  loaded := nofun

/-- A read that has not returned gets to a place where it has not returned either. -/
lemma returned_update {i : ℕ} {x : Phase} {count : JInt} {started : ℕ}
    (hi : (s.phase i).isReturned = false) (hx : x.isReturned = false) :
    State.returned readCount ⟨count, Function.update s.phase i x, started⟩ =
      s.returned readCount := by
  unfold State.returned
  refine Finset.filter_congr fun j _ => ?_
  by_cases hj : j = i
  · subst hj
    show (Function.update s.phase j x j).isReturned = true ↔ _
    rw [Function.update_self, hi, hx]
  · show (Function.update s.phase i x j).isReturned = true ↔ _
    rw [Function.update_of_ne hj]

/-- A read returns. -/
lemma card_returned_store {i : ℕ} {v val count : JInt} (hi : i < readCount)
    (hv : s.phase i = .loaded v) :
    (State.returned readCount ⟨count, Function.update s.phase i (.returned val), s.started⟩).card =
      (s.returned readCount).card + 1 := by
  have hnot : i ∉ s.returned readCount := by
    intro hmem
    have hret := (Finset.mem_filter.mp hmem).2
    rw [hv] at hret
    cases hret
  have hinsert : State.returned readCount
      ⟨count, Function.update s.phase i (.returned val), s.started⟩ =
        insert i (s.returned readCount) := by
    ext j
    simp only [State.returned, Finset.mem_filter, Finset.mem_range, Finset.mem_insert]
    by_cases hj : j = i
    · subst hj
      simp [hi, Phase.isReturned]
    · simp [hj]
  rw [hinsert, Finset.card_insert_of_notMem hnot]

/-- What a step does with the processing numbers. -/
lemma Counted.step (h : Counted readCount s) (hq : Queued readCount s)
    (ht : Disk.step readCount threadCount s a = some t) : Counted readCount t := by
  rcases step_cases ht with ⟨-, -, rfl⟩ | ⟨i, -, hi, rfl⟩ | ⟨i, v, -, hi, rfl⟩
  · have hw : s.phase s.started = .waiting := hq.waiting _ (Nat.le_refl _)
    have hsame : State.returned readCount ⟨s.count, _, s.started + 1⟩ = s.returned readCount :=
      returned_update (i := s.started) (x := .running) (by rw [hw]; rfl) rfl
    refine ⟨by rw [hsame]; exact h.count, fun j w hj => ?_⟩
    rw [hsame]
    rcases phase_update hj with ⟨-, e⟩ | ⟨-, hj⟩
    · cases e
    · exact h.loaded j w hj
  · have hsame : State.returned readCount ⟨s.count, _, s.started⟩ = s.returned readCount :=
      returned_update (i := i) (x := .loaded s.count) (by rw [hi]; rfl) rfl
    refine ⟨by rw [hsame]; exact h.count, fun j w hj => ?_⟩
    rw [hsame]
    rcases phase_update hj with ⟨-, e⟩ | ⟨-, hj⟩
    · cases e
      exact h.count
    · exact h.loaded j w hj
  · have hlt : i < readCount := hq.lt (by rw [hi]; nofun)
    have hcard : (State.returned readCount
        ⟨v + 1, Function.update s.phase i (.returned (result v i)), s.started⟩).card = _ :=
      card_returned_store hlt hi
    obtain ⟨k, hk, rfl⟩ := h.loaded i v hi
    refine ⟨⟨k + 1, ?_, (BitVec.ofNat_add k 1).symm⟩, fun j w hj => ?_⟩
    · rw [hcard]
      exact Nat.succ_le_succ hk
    · rcases phase_update hj with ⟨-, e⟩ | ⟨-, hj⟩
      · cases e
      · obtain ⟨l, hl, rfl⟩ := h.loaded j w hj
        refine ⟨l, ?_, rfl⟩
        rw [hcard]
        exact Nat.le_succ_of_le hl

/-- In every run the processing numbers count reads that have returned. -/
lemma counted_of_run {acts : List Act}
    (h : run (Disk.step readCount threadCount) .start acts = some s) : Counted readCount s :=
  induct (motive := fun _ s => Counted readCount s) counted_start
    (fun _ _ _ _ hr hc ht => hc.step (queued_of_run hr) ht) h

/-- A read that has loaded `count` has not returned. -/
lemma Counted.loaded_lt (h : Counted readCount s) {i : ℕ} {v : JInt} (hi : i < readCount)
    (hv : s.phase i = .loaded v) : ∃ k < readCount, v = BitVec.ofNat 32 k := by
  obtain ⟨k, hk, rfl⟩ := h.loaded i v hv
  refine ⟨k, Nat.lt_of_le_of_lt hk ?_, rfl⟩
  have hsub : s.returned readCount ⊆ (Finset.range readCount).erase i := by
    intro j hj
    obtain ⟨hj', hret⟩ := Finset.mem_filter.mp hj
    refine Finset.mem_erase.mpr ⟨?_, hj'⟩
    rintro rfl
    rw [hv] at hret
    cases hret
  have hcard := Finset.card_le_card hsub
  rw [Finset.card_erase_of_mem (Finset.mem_range.mpr hi), Finset.card_range] at hcard
  omega

end Counted

/-! ## When the law holds -/

/-- Numbers that fit are recovered. -/
lemma unpacks_ofNat {k i : ℕ} (hk : k < 2 ^ 15) (hi : i < 2 ^ 16) :
    Unpacks (BitVec.ofNat 32 k) i :=
  ⟨number_ofNat hk hi, result_and _ hi⟩

/-- A value of `val` after `sequential`. -/
lemma getElem?_sequential {readCount i : ℕ} (hi : i < readCount) :
    (sequential readCount).1[i]? = some (result (BitVec.ofNat 32 i) i) := by
  rw [sequential_eq, List.getElem?_map, List.getElem?_range hi]
  rfl

/-- The read with number 32768 comes back with a negative number. -/
lemma PackLaw.le {readCount : ℕ} (h : PackLaw readCount) : readCount ≤ 32768 := by
  by_contra hlt
  have hi : 32768 < readCount := by omega
  obtain ⟨v, hv, hnumber, -⟩ := h.sequential 32768 hi
  rw [getElem?_sequential hi] at hv
  cases hv
  revert hnumber
  decide

/-- **When the law holds**: exactly for up to 32768 reads. -/
theorem packLaw_iff (readCount : ℕ) : PackLaw readCount ↔ readCount ≤ 32768 := by
  constructor
  · intro h
    exact h.le
  · intro hn
    constructor
    case sequential =>
      intro i hi
      refine ⟨_, getElem?_sequential hi, ?_⟩
      exact unpacks_ofNat (k := i) (i := i) (by omega) (by omega)
    case threads =>
      intro threadCount acts s i v hrun hv
      have hi : i < readCount := (queued_of_run hrun).lt (by rw [hv]; nofun)
      obtain ⟨k, hk, rfl⟩ := (counted_of_run hrun).loaded_lt hi hv
      exact unpacks_ofNat (by omega) (by omega)

/-- **An overflow**: of 32769 sequential reads the last one is printed with the number -32768. -/
theorem overflow_not_packLaw : ¬ ∀ readCount < 2 ^ 31, PackLaw readCount := by
  intro h
  have hle := (h 32769 (by decide)).le
  omega

end Disk
