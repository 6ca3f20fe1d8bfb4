import Cs213.Library.Runs
import Mathlib

set_option relaxedAutoImplicit false
set_option autoImplicit false

/-!
# Reading the disk with threads

`FunWithThreads.java`: `readCount` reads of a simulated disk, made one after the other or by
threads. Every read takes a processing number from the shared variable `count`. The increment
`count++` loads the variable and stores it again, and nothing keeps the two together.

## Main definitions

* `Disk.sequential` — the reads one after the other.
* `Disk.State`, `Disk.step` — the reads by a pool of threads.
* `Disk.Renumbers` — the results are those of sequential reads but for the processing numbers.
* `Disk.NoOverlap` — no read loads `count` between the load and the store of another.

## Main results

* `Disk.renumbers_iff` — the results are renumbered exactly if no reads overlap.
* `Disk.overlapping_not_renumbers` — two reads that overlap.

## Implementation notes

The threads of `threaded` and those of `executor` differ in their number only: `threaded` has a
thread for each read. Sleeping changes nothing and is left out.
-/

namespace Disk

open Runs

/-! ## The code -/

/-- A Java `int`. -/
abbrev JInt := BitVec 32

/-- The value of `read (req)` that has loaded `count`. -/
def result (count : JInt) (req : ℕ) : JInt := count <<< 16 ||| BitVec.ofNat 32 req

/-- `read`, when nothing else happens. -/
def read (req : ℕ) : StateM JInt JInt := do
  let count ← get
  set (count + 1)
  return result count req

/-- `sequential`: the values of `val`, and `count`, after this number of rounds of the loop. -/
def sequential : ℕ → List JInt × JInt
  | 0 => ([], 0)
  | i + 1 =>
    let (val, count) := sequential i
    let (v, count) := (read i).run count
    (val ++ [v], count)

/-- Where a read is: it waits for a thread, it has one, it has loaded `count`, or it has
returned. -/
inductive Phase
  | waiting
  | running
  | loaded (count : JInt)
  | returned (val : JInt)
  deriving DecidableEq, Repr

/-- The read has loaded `count` and has not stored it yet. -/
def Phase.isLoaded : Phase → Bool
  | loaded _ => true
  | _ => false

/-- The read has returned. -/
def Phase.isReturned : Phase → Bool
  | returned _ => true
  | _ => false

/-- The read occupies a thread. -/
def Phase.isBusy : Phase → Bool
  | running | loaded _ => true
  | _ => false

/-- The disk and its reads. The first `started` reads have been given to a thread. -/
structure State where
  count : JInt
  phase : ℕ → Phase
  started : ℕ

/-- No read has been given to a thread. -/
def State.start : State := ⟨0, fun _ => .waiting, 0⟩

/-- What the threads do. -/
inductive Act
  | start
  | load (i : ℕ)
  | store (i : ℕ)
  deriving DecidableEq, Repr

/-- `val[i]`, once it has been collected. -/
def State.val (s : State) (i : ℕ) : JInt :=
  match s.phase i with
  | .returned val => val
  | _ => 0

/-- How many threads are busy. -/
def State.busy (readCount : ℕ) (s : State) : ℕ :=
  (List.range readCount).countP fun i => (s.phase i).isBusy

/-- A step of one of `threadCount` threads: it takes the next read, or loads or stores `count` for
the read it has. -/
def step (readCount threadCount : ℕ) (s : State) : Act → Option State
  | .start =>
    if s.started < readCount ∧ s.busy readCount < threadCount then
      some { s with
        phase := Function.update s.phase s.started .running
        started := s.started + 1 }
    else none
  | .load i =>
    match s.phase i with
    | .running => some { s with phase := Function.update s.phase i (.loaded s.count) }
    | _ => none
  | .store i =>
    match s.phase i with
    | .loaded count => some { s with
        count := count + 1
        phase := Function.update s.phase i (.returned (result count i)) }
    | _ => none

/-- All reads have been collected. -/
def State.Collected (readCount : ℕ) (s : State) : Prop :=
  ∀ i < readCount, (s.phase i).isReturned

instance (readCount : ℕ) (s : State) : Decidable (s.Collected readCount) :=
  inferInstanceAs (Decidable (∀ i < readCount, _))

/-! ## The law -/

/-- `val >> 16`. -/
def number (val : JInt) : JInt := val.sshiftRight 16

/-- **A renumbering of sequential reads**: every value has the number of its read, and the
processing numbers are those of the sequential reads, each once. -/
structure Renumbers (readCount : ℕ) (val : ℕ → JInt) (count : JInt) : Prop where
  request : ∀ i < readCount, val i &&& 0xffff = BitVec.ofNat 32 i
  distinct : ∀ i < readCount, ∀ j < readCount, number (val i) = number (val j) → i = j
  numbers : ∀ v : JInt,
    (∃ i < readCount, number (val i) = v) ↔ ∃ k < readCount, v = BitVec.ofNat 32 k
  count : count = BitVec.ofNat 32 readCount

/-- No read loads `count` between the load and the store of another read. -/
def NoOverlap (readCount : ℕ) (s : State) : Act → Prop
  | .load _ => ∀ j < readCount, (s.phase j).isLoaded = false
  | .start | .store _ => True

instance (readCount : ℕ) (s : State) : (a : Act) → Decidable (NoOverlap readCount s a)
  | .load _ => inferInstanceAs (Decidable (∀ j < readCount, _))
  | .start | .store _ => isTrue trivial

/-! ## Values -/

section Values

variable {i : ℕ}

/-- The request number has 16 bits. -/
lemma getLsbD_request {j : ℕ} (hi : i < 2 ^ 16) (hj : 16 ≤ j) :
    (BitVec.ofNat 32 i).getLsbD j = false := by
  have hlt : i < 2 ^ j := Nat.lt_of_lt_of_le hi (Nat.pow_le_pow_right (by decide) hj)
  rw [BitVec.getLsbD_ofNat, Nat.testBit_lt_two_pow hlt, Bool.and_false]

/-- The request number in a value. -/
lemma result_and (v : JInt) (hi : i < 2 ^ 16) : result v i &&& 0xffff = BitVec.ofNat 32 i := by
  apply BitVec.eq_of_getLsbD_eq
  intro j hj
  have hmask : (0xffff : BitVec 32).getLsbD j = decide (j < 16) := by
    revert j
    decide
  rw [BitVec.getLsbD_and, hmask, result, BitVec.getLsbD_or, BitVec.getLsbD_shiftLeft]
  by_cases h : j < 16
  · simp [h]
  · rw [getLsbD_request hi (by omega)]
    simp [h]

/-- The processing number in a value does not depend on the request. -/
lemma number_result (v : JInt) (hi : i < 2 ^ 16) :
    number (result v i) = (v.setWidth 16).signExtend 32 := by
  have hbit : ∀ j < 16, (result v i).getLsbD (16 + j) = v.getLsbD j := fun j hj => by
    rw [result, BitVec.getLsbD_or, BitVec.getLsbD_shiftLeft, getLsbD_request hi (by omega)]
    simp
    omega
  apply BitVec.eq_of_getLsbD_eq
  intro j hj
  have hle : ¬ 32 ≤ j := by omega
  rw [number, BitVec.getLsbD_sshiftRight, BitVec.getLsbD_signExtend, BitVec.getLsbD_setWidth,
    BitVec.msb_eq_getLsbD_last, BitVec.msb_eq_getLsbD_last, BitVec.getLsbD_setWidth]
  by_cases h : j < 16
  · rw [if_pos (by omega), hbit j h]
    simp [h, hj, hle]
  · have hsign := hbit 15 (by decide)
    rw [if_neg (by omega)]
    simp at hsign
    simp [h, hj, hle, hsign]

/-- The processing number of a read that has found `k` reads before it. -/
lemma number_ofNat {k : ℕ} (hk : k < 2 ^ 15) (hi : i < 2 ^ 16) :
    number (result (BitVec.ofNat 32 k) i) = BitVec.ofNat 32 k := by
  rw [number_result _ hi]
  apply BitVec.eq_of_toInt_eq
  rw [BitVec.toInt_signExtend_of_le (by decide), BitVec.toInt_setWidth, BitVec.toNat_ofNat,
    BitVec.toInt_ofNat']
  rw [Int.bmod_eq_of_le (by omega) (by omega), Int.bmod_eq_of_le (by omega) (by omega)]
  omega

end Values

/-- **Reads in some order**, each with the number of those before it. -/
lemma renumbers_of_perm {readCount : ℕ} {order : List ℕ} {val : ℕ → JInt} {count : JInt}
    (hperm : order.Perm (List.range readCount))
    (hval : ∀ k i, order[k]? = some i → val i = result (BitVec.ofNat 32 k) i)
    (hcount : count = BitVec.ofNat 32 readCount) (hn : readCount ≤ 32768) :
    Renumbers readCount val count := by
  have hlen : order.length = readCount := by rw [hperm.length_eq, List.length_range]
  have hlt : ∀ k i, order[k]? = some i → k < readCount ∧ i < readCount := by
    intro k i hk
    refine ⟨?_, List.mem_range.mp (hperm.mem_iff.mp (List.mem_of_getElem? hk))⟩
    rw [← hlen]
    exact (List.getElem?_eq_some_iff.mp hk).1
  have hplace : ∀ i < readCount, ∃ k, order[k]? = some i := fun i hi =>
    List.mem_iff_getElem?.mp (hperm.mem_iff.mpr (List.mem_range.mpr hi))
  have hnumber : ∀ k i, order[k]? = some i → number (val i) = BitVec.ofNat 32 k := by
    intro k i hk
    obtain ⟨hk', hi⟩ := hlt k i hk
    rw [hval k i hk, number_ofNat (by omega) (by omega)]
  refine ⟨fun i hi => ?_, fun i hi j hj e => ?_, fun v => ⟨?_, ?_⟩, hcount⟩
  · obtain ⟨k, hk⟩ := hplace i hi
    rw [hval k i hk, result_and _ (by omega)]
  · obtain ⟨k, hk⟩ := hplace i hi
    obtain ⟨l, hl⟩ := hplace j hj
    rw [hnumber k i hk, hnumber l j hl] at e
    have hkl : k = l := by
      have hk' := (hlt k i hk).1
      have hl' := (hlt l j hl).1
      have := congrArg BitVec.toNat e
      simp only [BitVec.toNat_ofNat] at this
      omega
    subst hkl
    exact Option.some.inj (hk.symm.trans hl)
  · rintro ⟨i, hi, rfl⟩
    obtain ⟨k, hk⟩ := hplace i hi
    exact ⟨k, (hlt k i hk).1, hnumber k i hk⟩
  · rintro ⟨k, hk, rfl⟩
    have hi := List.getElem?_eq_getElem (l := order) (i := k) (by omega)
    exact ⟨_, (hlt k _ hi).2, hnumber k _ hi⟩

/-! ## Steps -/

section Steps

variable {readCount threadCount : ℕ} {s t : State} {a : Act}

/-- What a step can do. -/
lemma step_cases (h : step readCount threadCount s a = some t) :
    (a = .start ∧ s.started < readCount ∧ t = { s with
      phase := Function.update s.phase s.started .running
      started := s.started + 1 }) ∨
    (∃ i, a = .load i ∧ s.phase i = .running ∧
      t = { s with phase := Function.update s.phase i (.loaded s.count) }) ∨
    ∃ i v, a = .store i ∧ s.phase i = .loaded v ∧ t = { s with
      count := v + 1
      phase := Function.update s.phase i (.returned (result v i)) } := by
  cases a with
  | start =>
    simp only [step] at h
    split_ifs at h with hif
    exact .inl ⟨rfl, hif.1, (Option.some.inj h).symm⟩
  | load i =>
    simp only [step] at h
    split at h
    case h_1 hi => exact .inr (.inl ⟨i, rfl, hi, (Option.some.inj h).symm⟩)
    case h_2 => cases h
  | store i =>
    simp only [step] at h
    split at h
    case h_1 v hi => exact .inr (.inr ⟨i, v, rfl, hi, (Option.some.inj h).symm⟩)
    case h_2 => cases h

/-- A step moves one read only. -/
lemma phase_of_ne (h : step readCount threadCount s a = some t) {i : ℕ}
    (hstart : a = .start → i ≠ s.started) (hload : a ≠ .load i) (hstore : a ≠ .store i) :
    t.phase i = s.phase i := by
  rcases step_cases h with ⟨rfl, -, rfl⟩ | ⟨j, rfl, -, rfl⟩ | ⟨j, w, rfl, -, rfl⟩
  · exact Function.update_of_ne (hstart rfl) ..
  · exact Function.update_of_ne (fun e => hload (by rw [e])) ..
  · exact Function.update_of_ne (fun e => hstore (by rw [e])) ..

/-- The reads from number `started` on wait for a thread. -/
structure Queued (readCount : ℕ) (s : State) : Prop where
  waiting : ∀ i, s.started ≤ i → s.phase i = .waiting
  started_le : s.started ≤ readCount

lemma queued_start : Queued readCount .start := ⟨fun _ _ => rfl, Nat.zero_le _⟩

lemma Queued.step (h : Queued readCount s) (ht : Disk.step readCount threadCount s a = some t) :
    Queued readCount t := by
  rcases step_cases ht with ⟨-, hlt, rfl⟩ | ⟨j, -, hj, rfl⟩ | ⟨j, w, -, hj, rfl⟩
  · refine ⟨fun i hi => ?_, hlt⟩
    exact (Function.update_of_ne (Nat.ne_of_gt hi) ..).trans (h.waiting i (Nat.le_of_succ_le hi))
  · refine ⟨fun i hi => ?_, h.started_le⟩
    have hne : i ≠ j := by
      rintro rfl
      rw [h.waiting i hi] at hj
      cases hj
    exact (Function.update_of_ne hne ..).trans (h.waiting i hi)
  · refine ⟨fun i hi => ?_, h.started_le⟩
    have hne : i ≠ j := by
      rintro rfl
      rw [h.waiting i hi] at hj
      cases hj
    exact (Function.update_of_ne hne ..).trans (h.waiting i hi)

/-- A read that has been given to a thread is one of the reads. -/
lemma Queued.lt (h : Queued readCount s) {i : ℕ} (hi : s.phase i ≠ .waiting) : i < readCount :=
  Nat.lt_of_lt_of_le (Nat.lt_of_not_le fun hle => hi (h.waiting i hle)) h.started_le

/-- A read has loaded `v`, and perhaps returned since. -/
def Holds (i : ℕ) (v : JInt) (s : State) : Prop :=
  s.phase i = .loaded v ∨ s.phase i = .returned (result v i)

/-- A read keeps what it has loaded. -/
lemma Holds.step {i : ℕ} {v : JInt} (h : Holds i v s) (hq : Queued readCount s)
    (ht : Disk.step readCount threadCount s a = some t) : Holds i v t := by
  by_cases hstore : a = .store i
  · subst hstore
    rcases step_cases ht with ⟨h', -⟩ | ⟨j, h', -⟩ | ⟨j, w, h', hj, rfl⟩
    · cases h'
    · cases h'
    · cases h'
      rcases h with h | h <;> rw [hj] at h <;> cases h
      exact .inr (Function.update_self ..)
  · have hphase : t.phase i = s.phase i := by
      refine phase_of_ne ht ?_ ?_ hstore
      · rintro - rfl
        rcases h with h | h <;> rw [hq.waiting _ (Nat.le_refl _)] at h <;> cases h
      · rintro rfl
        rcases step_cases ht with ⟨h', -⟩ | ⟨j, h', hj, -⟩ | ⟨j, w, h', -⟩
        · cases h'
        · cases h'
          rcases h with h | h <;> rw [hj] at h <;> cases h
        · cases h'
    unfold Holds
    rwa [hphase]

/-- In every run the reads from number `started` on wait. -/
lemma queued_of_run {acts : List Act}
    (h : run (Disk.step readCount threadCount) .start acts = some s) :
    Queued readCount s :=
  induct (motive := fun _ s => Queued readCount s) queued_start
    (fun _ _ _ _ _ hq ht => hq.step ht) h

/-- A read that has been collected has returned. -/
lemma State.Collected.returned (h : s.Collected readCount) {i : ℕ} (hi : i < readCount) :
    ∃ val, s.phase i = .returned val := by
  have hret := h i hi
  cases hphase : s.phase i with
  | returned val => exact ⟨val, rfl⟩
  | waiting | running | loaded =>
    rw [hphase] at hret
    cases hret

/-- What a read has loaded is what it returns in the end. -/
lemma Holds.val_eq {acts : List Act} {i : ℕ} {v : JInt} (h : Holds i v s) (hq : Queued readCount s)
    (hr : run (Disk.step readCount threadCount) s acts = some t) (hall : t.Collected readCount)
    (hi : i < readCount) : t.val i = result v i := by
  have hlast : Holds i v t ∧ Queued readCount t :=
    induct (motive := fun _ t => Holds i v t ∧ Queued readCount t) ⟨h, hq⟩
      (fun _ _ _ _ _ hs ht => ⟨hs.1.step hs.2 ht, hs.2.step ht⟩) hr
  obtain ⟨r, hr⟩ := hall.returned hi
  rcases hlast.1 with hi | hi
  · rw [hr] at hi
    cases hi
  · unfold State.val
    rw [hi]

end Steps

/-! ## Reads that do not overlap -/

/-- The reads have returned in the order `order`, each with the number of those before it, and at
most one read is between its load and its store. -/
structure Numbered (order : List ℕ) (s : State) : Prop where
  nodup : order.Nodup
  count : s.count = BitVec.ofNat 32 order.length
  value : ∀ k i, order[k]? = some i → s.phase i = .returned (result (BitVec.ofNat 32 k) i)
  mem : ∀ i r, s.phase i = .returned r → i ∈ order
  loaded : ∀ i v, s.phase i = .loaded v → v = s.count
  single : ∀ i v j w, s.phase i = .loaded v → s.phase j = .loaded w → i = j

section Numbered

variable {readCount threadCount : ℕ} {s t : State} {a : Act} {order : List ℕ}

lemma numbered_start : Numbered [] .start where
  nodup := List.nodup_nil
  count := rfl
  value := nofun
  mem := nofun
  loaded := nofun
  single := nofun

/-- The phase of a read, after the phase of some read has changed. -/
lemma phase_update {i j : ℕ} {x y : Phase} (h : Function.update s.phase i x j = y) :
    j = i ∧ x = y ∨ j ≠ i ∧ s.phase j = y := by
  by_cases hj : j = i
  · subst hj
    rw [Function.update_self] at h
    exact .inl ⟨rfl, h⟩
  · rw [Function.update_of_ne hj] at h
    exact .inr ⟨hj, h⟩

/-- A read is given to a thread. -/
lemma Numbered.start (h : Numbered order s) (hw : s.phase s.started = .waiting) :
    Numbered order { s with
      phase := Function.update s.phase s.started .running, started := s.started + 1 } where
  nodup := h.nodup
  count := h.count
  value k i hk := by
    have hi := h.value k i hk
    have hne : i ≠ s.started := by
      rintro rfl
      rw [hw] at hi
      cases hi
    exact (Function.update_of_ne hne ..).trans hi
  mem i r hi := by
    rcases phase_update hi with ⟨-, e⟩ | ⟨-, hi⟩
    · cases e
    · exact h.mem i r hi
  loaded i v hi := by
    rcases phase_update hi with ⟨-, e⟩ | ⟨-, hi⟩
    · cases e
    · exact h.loaded i v hi
  single i v j w hi hj := by
    rcases phase_update hi with ⟨-, e⟩ | ⟨-, hi⟩
    · cases e
    · rcases phase_update hj with ⟨-, e⟩ | ⟨-, hj⟩
      · cases e
      · exact h.single i v j w hi hj

/-- A read loads `count` when no other has loaded it. -/
lemma Numbered.load (h : Numbered order s) {l : ℕ} (hl : s.phase l = .running)
    (hno : ∀ i v, s.phase i ≠ .loaded v) :
    Numbered order { s with phase := Function.update s.phase l (.loaded s.count) } where
  nodup := h.nodup
  count := h.count
  value k i hk := by
    have hi := h.value k i hk
    have hne : i ≠ l := by
      rintro rfl
      rw [hl] at hi
      cases hi
    exact (Function.update_of_ne hne ..).trans hi
  mem i r hi := by
    rcases phase_update hi with ⟨-, e⟩ | ⟨-, hi⟩
    · cases e
    · exact h.mem i r hi
  loaded i v hi := by
    rcases phase_update hi with ⟨-, e⟩ | ⟨-, hi⟩
    · cases e
      rfl
    · exact absurd hi (hno i v)
  single i v j w hi hj := by
    rcases phase_update hi with ⟨hi, -⟩ | ⟨-, hi⟩
    · rcases phase_update hj with ⟨hj, -⟩ | ⟨-, hj⟩
      · exact hi.trans hj.symm
      · exact absurd hj (hno j w)
    · exact absurd hi (hno i v)

/-- A read stores `count` and returns. -/
lemma Numbered.store (h : Numbered order s) {l : ℕ} {v : JInt} (hl : s.phase l = .loaded v) :
    Numbered (order ++ [l]) { s with
      count := v + 1, phase := Function.update s.phase l (.returned (result v l)) } := by
  have hv : v = BitVec.ofNat 32 order.length := (h.loaded l v hl).trans h.count
  have hnot : l ∉ order := by
    intro hmem
    obtain ⟨k, hk⟩ := List.mem_iff_getElem?.mp hmem
    rw [h.value k l hk] at hl
    cases hl
  have hno : ∀ i w, i ≠ l → s.phase i ≠ .loaded w := fun i w hne hi =>
    hne (h.single i w l v hi hl)
  exact {
    nodup := List.nodup_append.mpr ⟨h.nodup, List.nodup_singleton l, by
      intro i hi j hj e
      rw [List.mem_singleton.mp hj] at e
      exact hnot (e ▸ hi)⟩
    count := by
      show v + 1 = _
      rw [hv, List.length_append, List.length_singleton, BitVec.ofNat_add]
      rfl
    value := fun k i hk => by
      rcases Nat.lt_trichotomy k order.length with hlt | rfl | hgt
      · rw [List.getElem?_append_left hlt] at hk
        have hne : i ≠ l := by
          rintro rfl
          exact hnot (List.mem_of_getElem? hk)
        exact (Function.update_of_ne hne ..).trans (h.value k i hk)
      · rw [List.getElem?_concat_length] at hk
        cases hk
        exact (Function.update_self ..).trans (by rw [hv])
      · rw [List.getElem?_eq_none (by simp; omega)] at hk
        cases hk
    mem := fun i r hi => by
      rcases phase_update hi with ⟨rfl, -⟩ | ⟨-, hi⟩
      · exact List.mem_concat_self
      · exact List.mem_append_left _ (h.mem i r hi)
    loaded := fun i w hi => by
      rcases phase_update hi with ⟨-, e⟩ | ⟨hne, hi⟩
      · cases e
      · exact absurd hi (hno i w hne)
    single := fun i w j w' hi hj => by
      rcases phase_update hi with ⟨-, e⟩ | ⟨hne, hi⟩
      · cases e
      · exact absurd hi (hno i w hne) }

/-- **A step that does not overlap** a read keeps the reads numbered. -/
lemma Numbered.step (h : Numbered order s) (hq : Queued readCount s)
    (hC : NoOverlap readCount s a) (ht : Disk.step readCount threadCount s a = some t) :
    ∃ order, Numbered order t := by
  rcases step_cases ht with ⟨-, -, rfl⟩ | ⟨l, rfl, hl, rfl⟩ | ⟨l, v, -, hl, rfl⟩
  · exact ⟨order, h.start (hq.waiting _ (Nat.le_refl _))⟩
  · refine ⟨order, h.load hl fun i v hi => ?_⟩
    have hlt : i < readCount := hq.lt (by rw [hi]; nofun)
    have hload := hC i hlt
    rw [hi] at hload
    cases hload
  · exact ⟨order ++ [l], h.store hl⟩

/-- The reads of a run without overlaps are numbered. -/
lemma numbered_of_run {acts : List Act}
    (hC : AllSteps (Disk.step readCount threadCount) (NoOverlap readCount) .start acts)
    (h : run (Disk.step readCount threadCount) .start acts = some s) :
    ∃ order, Numbered order s :=
  induct_of_allSteps (motive := fun _ s => ∃ order, Numbered order s) ⟨[], numbered_start⟩
    (fun _ _ _ _ hr ⟨_, hs⟩ ha ht => hs.step (queued_of_run hr) ha ht) hC h

/-- When all numbered reads have been collected, every read is in the order once. -/
lemma Numbered.perm (h : Numbered order s) (hq : Queued readCount s)
    (hall : s.Collected readCount) : order.Perm (List.range readCount) := by
  rw [List.perm_ext_iff_of_nodup h.nodup List.nodup_range]
  intro i
  rw [List.mem_range]
  constructor
  · intro hi
    obtain ⟨k, hk⟩ := List.mem_iff_getElem?.mp hi
    exact hq.lt (by rw [h.value k i hk]; nofun)
  · intro hi
    obtain ⟨r, hr⟩ := hall.returned hi
    exact h.mem i r hr

/-- **Numbered reads** are a renumbering. -/
theorem Numbered.renumbers (h : Numbered order s) (hq : Queued readCount s)
    (hall : s.Collected readCount) (hn : readCount ≤ 32768) :
    Renumbers readCount s.val s.count := by
  have hperm := h.perm hq hall
  refine renumbers_of_perm hperm (fun k i hk => ?_) ?_ hn
  · unfold State.val
    rw [h.value k i hk]
  · rw [h.count, hperm.length_eq, List.length_range]

end Numbered

/-! ## Reads that overlap -/

section Overlap

variable {readCount threadCount : ℕ} {s t u : State}

/-- **A read that overlaps** another gets the same number. -/
lemma Numbered.not_distinct {order : List ℕ} (h : Numbered order s) (hq : Queued readCount s)
    {i j : ℕ} {v : JInt} {acts : List Act} (hi : s.phase i = .loaded v)
    (ht : Disk.step readCount threadCount s (.load j) = some t)
    (hr : run (Disk.step readCount threadCount) t acts = some u) (hall : u.Collected readCount)
    (hn : readCount ≤ 32768) : ¬ Renumbers readCount u.val u.count := by
  intro hren
  obtain ⟨hj, htj⟩ : s.phase j = .running ∧ t.phase j = .loaded s.count := by
    rcases step_cases ht with ⟨h', -⟩ | ⟨l, h', hl, rfl⟩ | ⟨l, w, h', -⟩
    · cases h'
    · cases h'
      exact ⟨hl, Function.update_self ..⟩
    · cases h'
  have hne : i ≠ j := by
    rintro rfl
    rw [hi] at hj
    cases hj
  have hv := h.loaded i v hi
  subst hv
  have hqt := hq.step ht
  have hilt : i < readCount := hq.lt (by rw [hi]; nofun)
  have hjlt : j < readCount := hq.lt (by rw [hj]; nofun)
  have hti : Holds i s.count t := Holds.step (.inl hi) hq ht
  have hvi := hti.val_eq hqt hr hall hilt
  have hvj := Holds.val_eq (.inl htj) hqt hr hall hjlt
  refine hne (hren.distinct i hilt j hjlt ?_)
  rw [hvi, hvj, number_result _ (by omega), number_result _ (by omega)]

end Overlap

/-- **Threaded reads.** For at most 32768 reads, any number of threads and every order of their
steps, when all reads have been collected, the results are a renumbering of those of sequential
reads exactly if no read has loaded `count` between the load and the store of another. -/
theorem renumbers_iff (readCount threadCount : ℕ) (hn : readCount ≤ 32768) (acts : List Act)
    (s : State) (h : run (step readCount threadCount) .start acts = some s)
    (hall : s.Collected readCount) :
    Renumbers readCount s.val s.count ↔
      AllSteps (step readCount threadCount) (NoOverlap readCount) .start acts := by
  constructor
  · intro hren
    refine allSteps_of_first ?_
    intro pre a suf hacts hpre t ht
    cases a with
    | start | store => trivial
    | load j =>
    subst hacts
    intro i hi
    obtain ⟨order, hnum⟩ := numbered_of_run hpre ht
    simp only [run_append, ht, Option.bind_some, run_cons, Option.bind_eq_some_iff] at h
    obtain ⟨u, hu, hr⟩ := h
    cases hphase : t.phase i with
    | loaded v => exact absurd hren (hnum.not_distinct (queued_of_run ht) hphase hu hr hall hn)
    | waiting | running | returned => rfl
  · intro hC
    obtain ⟨order, hnum⟩ := numbered_of_run hC h
    exact hnum.renumbers (queued_of_run h) hall hn

/-- **Sequential reads** have the numbers of their requests. -/
theorem sequential_eq (readCount : ℕ) : sequential readCount =
    ((List.range readCount).map fun i => result (BitVec.ofNat 32 i) i,
      BitVec.ofNat 32 readCount) := by
  induction readCount with
  | zero => rfl
  | succ n ih =>
    have hread : (read n).run (BitVec.ofNat 32 n) =
        (result (BitVec.ofNat 32 n) n, BitVec.ofNat 32 n + 1) := rfl
    have hcount : BitVec.ofNat 32 n + 1 = BitVec.ofNat 32 (n + 1) := (BitVec.ofNat_add n 1).symm
    simp only [sequential, ih, hread, hcount, List.range_succ, List.map_append, List.map_singleton]

/-- Sequential reads are a renumbering of themselves. -/
theorem sequential_renumbers (readCount : ℕ) (hn : readCount ≤ 32768) :
    Renumbers readCount (fun i => (sequential readCount).1.getD i 0) (sequential readCount).2 := by
  refine renumbers_of_perm (List.Perm.refl _) (fun k i hk => ?_) (by rw [sequential_eq]) hn
  obtain ⟨hk', rfl⟩ := List.getElem?_eq_some_iff.mp hk
  rw [List.length_range] at hk'
  rw [List.getElem_range, sequential_eq, List.getD_eq_getElem?_getD, List.getElem?_map,
    List.getElem?_range hk']
  rfl

/-- Two reads by two threads, of which the second one is made first. -/
def reversed : List Act := [.start, .start, .load 1, .store 1, .load 0, .store 0]

theorem renumbers_reversed : ∃ s, run (step 2 2) .start reversed = some s ∧
    Renumbers 2 s.val s.count :=
  ⟨_, (Option.some_get (by decide)).symm, (renumbers_iff 2 2 (by decide) reversed _
    (Option.some_get (by decide)).symm (by decide)).mpr (by decide)⟩

/-- Two reads by two threads, of which the second loads `count` before the first stores it. -/
def overlapping : List Act := [.start, .start, .load 0, .load 1, .store 0, .store 1]

/-- **A lost update**: both reads get the number 0, and `count` is 1 in the end. -/
theorem overlapping_not_renumbers : ¬ ∀ readCount threadCount acts s, readCount ≤ 32768 →
    run (step readCount threadCount) .start acts = some s → s.Collected readCount →
      Renumbers readCount s.val s.count := by
  intro h
  have hcount := (h 2 2 overlapping _ (by decide) (Option.some_get (by decide)).symm
    (by decide)).count
  revert hcount
  decide

end Disk
