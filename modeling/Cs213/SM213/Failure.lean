import Cs213.SM213.Faults

set_option relaxedAutoImplicit false
set_option autoImplicit false

/-!
# Cycles that fail

A stage that throws an exception should leave the machine as it was: the next cycle, or the user,
sees either all of an instruction or nothing of it.

## Main definitions

* `SM213.FailureLaw` — a stage that fails has changed nothing.
* `SM213.TornStore` — the store in the instruction registers fails after it has changed memory.

## Main results

* `SM213.failureLaw_iff` — the law holds exactly if no torn store is fetched.
* `SM213.tearing_not_failureLaw` — a torn store.
-/

namespace SM213

open MainMemory Outcomes

/-- **A stage that fails has changed nothing**: if `fetch` throws an exception, everything is as
before, and if `execute` does, then the registers, the memory and the program counter are as
`fetch` has left them. -/
structure FailureLaw (s : Machine) : Prop where
  fetch : ∀ e t, SM213.fetch s = .error e t → t = s
  execute : ∀ t e u, SM213.fetch s = .ok () t → SM213.execute t = .error e u →
    u.reg = t.reg ∧ u.mem = t.mem ∧ u.pc = t.pc

/-- The store in the instruction registers begins in memory and ends beyond the largest `int`, and
the part of its word that is in memory is not what is there. -/
def TornStore (s : Machine) : Prop := ∃ a v, s.Stores a v ∧ Torn s.mem a (integerToBytes v)

section Law

variable {s t u : Machine} {e : Exc}

/-- `fetch` leaves the digits of an instruction in the instruction registers. -/
lemma insOpImm_fetched (s : Machine) :
    s.fetched.insOpImm = s.fetched.insOp1 ++ s.fetched.insOp2 :=
  (hi_append_lo _).symm

/-- `fetch` ends without an exception only if it can read six bytes. -/
lemma fetch_ok (h : fetch s = .ok () t) : s.mem.InRange s.pc 6 ∧ t = s.fetched := by
  by_cases hin : s.mem.InRange s.pc 6
  · rw [fetch_eq s hin] at h
    cases h
    exact ⟨hin, rfl⟩
  · rw [inRange_iff] at hin
    by_cases h₁ : s.mem.HasWord s.pc
    · rw [fetch_of_not_hasWord_add h₁ fun h₂ => hin ⟨h₁, h₂⟩] at h
      cases h
    · rw [fetch_of_not_hasWord h₁] at h
      cases h

/-- **An instruction that fails** has changed nothing, unless it is a torn store. -/
lemma execute_error (himm : t.insOpImm = t.insOp1 ++ t.insOp2) (ht : ¬ TornStore t)
    (h : execute t = .error e u) : u = t := by
  have hfails : t.Fails e u := (execute_ends t himm).exception h
  cases hfails with
  | register | address | halt | opcode => rfl
  | @store a v m hst hset =>
    -- the exception is that of an access beyond the largest `int`
    obtain ⟨m', hm', hiff, -⟩ := writeIntegerUnaligned_of_wraps (m := t.mem) (v := v)
      (wraps_of_writeIntegerUnaligned hset)
    rw [hm'] at hset
    cases hset
    rw [hiff.mpr fun htorn => ht ⟨a, v, hst, htorn⟩]

/-- A torn store has changed memory. -/
lemma execute_tornStore (ht : TornStore t) :
    ∃ e u, execute t = .error e u ∧ u.mem ≠ t.mem := by
  obtain ⟨a, v, hst, htorn⟩ := ht
  obtain ⟨m', hm', hiff, -⟩ := writeIntegerUnaligned_of_wraps (m := t.mem) (v := v) htorn.1
  refine ⟨.arrayIndexOutOfBounds, { t with mem := m' }, ?_, fun hm => hiff.mp hm htorn⟩
  rw [execute_of_stores hst, changing_error hm']

lemma not_failureLaw_of_tornStore (hin : s.mem.InRange s.pc 6) (ht : TornStore s.fetched) :
    ¬ FailureLaw s := by
  intro h
  obtain ⟨e, u, hu, hne⟩ := execute_tornStore ht
  exact hne (h.execute _ e u (fetch_eq s hin) hu).2.1

end Law

/-- **A cycle that fails** leaves the machine as it was exactly if the instruction it fetches is not
a torn store. -/
theorem failureLaw_iff (s : Machine) :
    FailureLaw s ↔ ¬ (s.mem.InRange s.pc 6 ∧ TornStore s.fetched) := by
  constructor
  · intro h ⟨hin, ht⟩
    exact not_failureLaw_of_tornStore hin ht h
  · intro h
    refine ⟨fun e t ht => fetch_error ht, fun t e u ht hu => ?_⟩
    obtain ⟨hin, rfl⟩ := fetch_ok ht
    have hsame := execute_error (insOpImm_fetched s) (fun htorn => h ⟨hin, htorn⟩) hu
    rw [hsame]
    exact ⟨rfl, rfl, rfl⟩

/-- A memory that begins with a store of `r0` to the address in `r1`. -/
def storeMemory (n : ℕ) (h : n + 2 < 2 ^ 31) : MainMemory where
  mem := 0x30 :: 0x01 :: List.replicate n 0
  length_lt := by rwa [List.length_cons, List.length_cons, List.length_replicate]

lemma length_storeMemory (n : ℕ) (h : n + 2 < 2 ^ 31) : (storeMemory n h).length = n + 2 := by
  simp only [storeMemory, MainMemory.length, List.length_cons, List.length_replicate]

lemma getElem?_storeMemory {n j : ℕ} (h : n + 2 < 2 ^ 31) (hj : j < n) :
    (storeMemory n h).mem[j + 2]? = some 0 := by
  simp only [storeMemory, List.getElem?_cons_succ, List.getElem?_replicate, if_pos hj]

/-- A machine that is about to store at the last byte of its memory. -/
def tearing : Machine :=
  boot 0 (fun r => [0x01020304, 0x7ffffffc].getD r 0) (storeMemory 0x7ffffffb (by decide))

/-- **A torn store** writes one byte and throws an exception. -/
theorem tearing_not_failureLaw : ¬ ∀ s, FailureLaw s := by
  intro h
  have hlen : tearing.mem.length = 0x7ffffffd := length_storeMemory _ (by decide)
  have hin : tearing.mem.InRange tearing.pc 6 := by
    unfold InRange
    rw [hlen]
    decide
  have hlast : tearing.mem.mem[0x7ffffffc]? = some 0 :=
    getElem?_storeMemory (n := 0x7ffffffb) (j := 0x7ffffffa) (by decide) (by decide)
  refine not_failureLaw_of_tornStore hin ⟨0x7ffffffc, 0x01020304, ?_, ?_⟩ (h tearing)
  · exact .inl ⟨rfl, 0, 1, rfl, rfl, rfl, rfl⟩
  · refine ⟨by decide, 0x7ffffffc, by decide, ?_, ?_⟩
    · show 0x7ffffffc < tearing.mem.length
      rw [hlen]
      decide
    · show (integerToBytes 0x01020304)[0]? ≠ tearing.mem.mem[0x7ffffffc]?
      rw [hlast]
      decide

end SM213
