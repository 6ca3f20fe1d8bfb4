import Cs213.SM213.Faults

set_option relaxedAutoImplicit false
set_option autoImplicit false

/-!
# Fetching at the end of memory

An instruction of two bytes can be fetched only if six bytes can be read at the program counter:
`fetch` reads the two words of a long instruction before it knows how long the instruction is.

## Main definitions

* `SM213.FetchLaw` — an instruction that lies in memory is fetched, and no other.

## Main results

* `SM213.fetchLaw_iff` — the memories and program counters for which the law holds.
* `SM213.lastHalt_not_fetchLaw` — an instruction at the end of memory that is not fetched.
-/

namespace SM213

open Bytes MainMemory

/-- All bytes of the instruction at the program counter are in memory. -/
def Machine.InstrInMemory (s : Machine) : Prop :=
  s.mem.InRange s.pc (size (hi (s.insByte 0))).toNat

/-- What `fetch` leaves in the registers: the digits and bytes of the instruction, and the program
counter of the next one. -/
structure Loaded (s t : Machine) : Prop where
  insOpCode : t.insOpCode = hi (s.insByte 0)
  insOp0 : t.insOp0 = lo (s.insByte 0)
  insOp1 : t.insOp1 = hi (s.insByte 1)
  insOp2 : t.insOp2 = lo (s.insByte 1)
  insOpImm : t.insOpImm = s.insByte 1
  insOpExt : hi (s.insByte 0) = 0x0 ∨ hi (s.insByte 0) = 0xb →
    t.insOpExt = beWord (s.insByte 2) (s.insByte 3) (s.insByte 4) (s.insByte 5)
  pc : t.pc = s.pc + size (hi (s.insByte 0))

/-- **An instruction that lies in memory is fetched**, and any other program counter is refused and
stays as it is. -/
structure FetchLaw (s : Machine) : Prop where
  fetches : s.InstrInMemory → ∃ t, fetch s = .ok () t ∧ Loaded s t
  raises : ¬ s.InstrInMemory → ∃ t, fetch s = .error .invalidAddress t ∧ t.pc = s.pc

section Law

variable {s : Machine}

/-- An instruction has at most six bytes. -/
lemma instrInMemory_of_inRange (h : s.mem.InRange s.pc 6) : s.InstrInMemory := by
  have hsize : (size (hi (s.insByte 0))).toNat ≤ 6 := by
    unfold size
    split_ifs <;> decide
  simp only [Machine.InstrInMemory, InRange] at *
  omega

/-- The second word that `fetch` reads. -/
lemma word_extension (h : s.mem.InRange s.pc 6) : s.mem.word (s.pc + 2) =
    beWord (s.insByte 2) (s.insByte 3) (s.insByte 4) (s.insByte 5) := by
  have hlt := s.mem.length_lt
  simp only [InRange, MainMemory.length] at h
  have hadd : (s.pc + 2).toNat = s.pc.toNat + 2 := toNat_add_of_lt (i := 2) (by omega)
  rw [word, hadd]
  rfl

/-- What `fetch` has loaded. -/
lemma loaded_fetched (h : s.mem.InRange s.pc 6) : Loaded s s.fetched where
  insOpCode := rfl
  insOp0 := rfl
  insOp1 := rfl
  insOp2 := rfl
  insOpImm := rfl
  insOpExt hlong := by
    have hext : s.fetched.insOpExt = s.mem.word (s.pc + 2) := if_pos hlong
    rw [hext, word_extension h]
  pc := rfl

/-- The law, where `fetch` throws an exception. -/
lemma fetchLaw_of_error {e : Exc} (h : fetch s = .error e s) :
    FetchLaw s ↔ ¬ s.InstrInMemory ∧ e = .invalidAddress := by
  constructor
  · intro hlaw
    have hout : ¬ s.InstrInMemory := fun hmem => by
      obtain ⟨t, ht, -⟩ := hlaw.fetches hmem
      rw [h] at ht
      cases ht
    obtain ⟨t, ht, -⟩ := hlaw.raises hout
    rw [h] at ht
    cases ht
    exact ⟨hout, rfl⟩
  · rintro ⟨hout, rfl⟩
    exact ⟨fun hmem => absurd hmem hout, fun _ => ⟨s, h, rfl⟩⟩

/-- The exception of an access to a word that is not there. -/
lemma exception_eq {a : JInt} :
    (if Wraps a 4 then Exc.arrayIndexOutOfBounds else .invalidAddress) = .invalidAddress ↔
      ¬ Wraps a 4 := by
  split_ifs with hw
  · exact iff_of_false nofun (not_not_intro hw)
  · exact iff_of_true rfl hw

end Law

/-- **Fetching.** The law holds exactly if the six bytes at the program counter are in memory, or
the instruction is not, and neither of the two words that `fetch` reads ends beyond the largest
`int`. -/
theorem fetchLaw_iff (s : Machine) : FetchLaw s ↔ s.mem.InRange s.pc 6 ∨
    ¬ s.InstrInMemory ∧ ¬ Wraps s.pc 4 ∧ ¬ (s.mem.InRange s.pc 4 ∧ Wraps (s.pc + 2) 4) := by
  by_cases hin : s.mem.InRange s.pc 6
  · refine iff_of_true ⟨fun _ => ⟨_, fetch_eq s hin, loaded_fetched hin⟩, fun hout => ?_⟩ (.inl hin)
    exact absurd (instrInMemory_of_inRange hin) hout
  rw [or_iff_right hin]
  rw [inRange_iff] at hin
  by_cases h₁ : s.mem.HasWord s.pc
  · -- the second word cannot be read
    have hfetch := fetch_of_not_hasWord_add h₁ fun h₂ => hin ⟨h₁, h₂⟩
    rw [fetchLaw_of_error hfetch, exception_eq]
    refine and_congr_right fun _ => ⟨fun hw => ?_, fun h hw => h.2 ⟨h₁, hw⟩⟩
    exact ⟨fun hw' => not_inRange_of_wraps hw' h₁, fun h => hw h.2⟩
  · -- the first word cannot be read
    rw [fetchLaw_of_error (fetch_of_not_hasWord h₁), exception_eq]
    exact and_congr_right fun _ => (and_iff_left fun h => h₁ h.1).symm

/-- A machine whose memory is one `halt`. -/
def lastHalt : Machine := boot 0 (fun _ => 0) ⟨[0xf0, 0x00], by decide⟩

/-- **The last instruction** of memory is not fetched. -/
theorem lastHalt_not_fetchLaw : ¬ ∀ s, FetchLaw s := by
  intro h
  have hmem : lastHalt.InstrInMemory := by
    unfold Machine.InstrInMemory
    decide
  obtain ⟨t, ht, -⟩ := (h lastHalt).fetches hmem
  cases ht

end SM213
