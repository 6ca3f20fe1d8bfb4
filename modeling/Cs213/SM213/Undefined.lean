import Cs213.SM213.Shift

set_option relaxedAutoImplicit false
set_option autoImplicit false

/-!
# Undefined encodings

An encoding that is not in the instruction set should be refused. `execute` refuses an unknown
opcode in the outer `switch`; the two inner ones have no default case.

## Main definitions

* `SM213.Machine.Undefined` — the encoding is not in the instruction set.
* `SM213.Machine.Raises` — the exceptions with their reasons, and what is left unchanged.
* `SM213.EncodingLaw` — exactly these encodings are refused, and the others do what they should.

## Main results

* `SM213.encodingLaw_iff` — the encodings for which the law holds.
* `SM213.hole_not_encodingLaw` — an encoding that is executed silently.
-/

namespace SM213

open MainMemory Outcomes

namespace Machine

/-- The encoding in the instruction registers is not in the instruction set: opcode 5, opcode 6 with
a second digit from 8 to e, or opcode f with a second digit from 1 to e. -/
def Undefined (s : Machine) : Prop := s.insOpCode.toNat = 0x5 ∨ s.Hole

/-- The machine `t` is what the instruction in the instruction registers makes of `s`. What a shift
by more than 31 bits puts into its register is left open. -/
def Effect (s t : Machine) : Prop :=
  (∃ i, s.fetchedInstr? = some i ∧ i.Enabled s.arch ∧ t.arch = i.run s.arch) ∨
    ∃ d v, s.Shifts d s.insOpImm ∧ t.arch = s.arch.setReg d v ∧
      (-31 ≤ s.insOpImm.toInt → s.insOpImm.toInt ≤ 31 → v = shiftBy (s.reg d) s.insOpImm.toInt)

end Machine

/-- **The exceptions for a bad register, a bad address and `halt`.** Nothing changes, but for a
store whose word begins in memory and ends beyond the largest `int`: it may have changed memory from
its address on. -/
inductive Machine.Raises (s : Machine) : Exc → Machine → Prop
  | register (h : s.BadRegister) : Raises s .invalidRegisterNumber s
  | address {e : Exc} (h : s.BadAddress) (he : e = .invalidAddress ∨ e = .arrayIndexOutOfBounds) :
    Raises s e s
  | store {a v : JInt} {m : MainMemory} (hst : s.Stores a v) (h : s.BadAddress)
    (hlen : m.length = s.mem.length) (hm : ∀ j < a.toNat, m.mem[j]? = s.mem.mem[j]?) :
    Raises s .arrayIndexOutOfBounds { s with mem := m }
  | halt (hi : s.fetchedInstr? = some .halt) : Raises s .machineHalt s

/-- **No undefined encoding is executed, and every other is.** -/
structure EncodingLaw (s : Machine) : Prop where
  /-- An undefined encoding is refused, and nothing changes. -/
  refused : s.Undefined → ∃ t, execute s = .error .invalidInstruction t ∧
    t.reg = s.reg ∧ t.mem = s.mem ∧ t.pc = s.pc
  /-- No other encoding is refused. -/
  undefined : ∀ t, execute s = .error .invalidInstruction t → s.Undefined
  /-- Every other encoding has the effect of its instruction, or there is a reason not to. -/
  effect : ¬ s.Undefined → (∃ t, execute s = .ok () t ∧ s.Effect t) ∨
    ∃ e t, execute s = .error e t ∧ s.Raises e t

section Law

variable {s t : Machine} {e : Exc} {d : Fin 8} {ss : BitVec 8}

/-- There is no instruction with opcode 5. -/
lemma execute_five (h : s.insOpCode.toNat = 0x5) : execute s = .error .invalidInstruction s := by
  simp only [execute, get_bind, h, throw_run]

/-- A shift is not among the instructions of `Instr`. -/
lemma Machine.Shifts.fetchedInstr?_eq (h : s.Shifts d ss) : s.fetchedInstr? = none := by
  simp only [Machine.fetchedInstr?, decode, h.1]

lemma Machine.Shifts.not_undefined (h : s.Shifts d ss) : ¬ s.Undefined := by
  have hop := h.1
  rintro (h5 | ⟨h6, -⟩ | ⟨hf, -⟩) <;> omega

/-- The exceptions of `execute`. -/
lemma Machine.Fails.cases (h : s.Fails e t) :
    s.Raises e t ∨ e = .invalidInstruction ∧ s.insOpCode.toNat = 0x5 := by
  cases h with
  | register h => exact .inl (.register h)
  | address h he => exact .inl (.address h he)
  | @store a v m hst hset =>
    have hw := wraps_of_writeIntegerUnaligned hset
    obtain ⟨m', hm', -, hlen, hbelow⟩ := writeIntegerUnaligned_of_wraps (m := s.mem) (v := v) hw
    rw [hm'] at hset
    cases hset
    exact .inl (.store hst (hst.badAddress hw) hlen hbelow)
  | halt hi => exact .inl (.halt hi)
  | opcode hop => exact .inr ⟨rfl, hop⟩

lemma not_raises_invalidInstruction : ¬ s.Raises .invalidInstruction t := by
  rintro (_ | ⟨-, he⟩)
  simp at he

/-- A hole is not refused. -/
lemma EncodingLaw.not_hole (himm : s.insOpImm = s.insOp1 ++ s.insOp2) (h : EncodingLaw s) :
    ¬ s.Hole := by
  intro hhole
  obtain ⟨t, ht, -⟩ := h.refused (.inr hhole)
  rcases ((execute_ends s himm).exception ht).cases with hraises | ⟨-, h5⟩
  · exact not_raises_invalidInstruction hraises
  · rcases hhole with ⟨h6, -⟩ | ⟨hf, -⟩ <;> omega

/-- A shift by at most 31 bits has its effect. -/
lemma EncodingLaw.sameShift (h : EncodingLaw s) (hs : s.Shifts d ss) (hlo : -31 ≤ ss.toInt)
    (hhi : ss.toInt ≤ 31) : SameShift (s.reg d) d ss.toInt := by
  rw [← hs.shift_iff hlo hhi]
  obtain ⟨t, ht, heff⟩ | ⟨e, t, ht, -⟩ := h.effect hs.not_undefined
  · rw [hs.execute_eq] at ht
    cases ht
    obtain ⟨i, hi, -⟩ | ⟨d', v, hs', hreg, hv⟩ := heff
    · rw [hs.fetchedInstr?_eq] at hi
      cases hi
    · obtain rfl : d = d' := Option.some.inj (hs.2.1.symm.trans hs'.2.1)
      have hval : s.shifted = v := Function.update_injective s.reg d (congrArg Arch.reg hreg)
      rw [hval, hv (by rwa [hs.2.2]) (by rwa [hs.2.2]), hs.2.2]
  · rw [hs.execute_eq] at ht
    cases ht

end Law

/-- **Undefined encodings.** When the instruction registers hold the digits of an instruction, the
law holds exactly if these are not in a hole of an inner `switch`, and not those of a shift by at
most 31 bits for which it makes a difference that the number of the register is shifted. -/
theorem encodingLaw_iff (s : Machine) (himm : s.insOpImm = s.insOp1 ++ s.insOp2) :
    EncodingLaw s ↔ ¬ s.Hole ∧ ∀ d ss, s.Shifts d ss → -31 ≤ ss.toInt → ss.toInt ≤ 31 →
      SameShift (s.reg d) d ss.toInt := by
  constructor
  · intro h
    exact ⟨h.not_hole himm, fun d ss hs hlo hhi => h.sameShift hs hlo hhi⟩
  rintro ⟨hhole, hshift⟩
  have hends := execute_ends s himm
  refine ⟨fun hund => ?_, fun t ht => ?_, fun hdef => ?_⟩
  · exact ⟨s, execute_five (hund.resolve_right hhole), rfl, rfl, rfl⟩
  · rcases (hends.exception ht).cases with hraises | ⟨-, h5⟩
    · exact absurd hraises not_raises_invalidInstruction
    · exact .inl h5
  · cases hres : execute s with
    | ok u t =>
      refine .inl ⟨t, rfl, ?_⟩
      cases hends.value hres with
      | @instr i hi he => exact .inl ⟨i, hi, he, rfl⟩
      | @shift d hop hd =>
        have hs : s.Shifts d s.insOpImm := ⟨hop, hd, rfl⟩
        refine .inr ⟨d, s.shifted, hs, rfl, fun hlo hhi => ?_⟩
        exact (hs.shift_iff hlo hhi).mpr (hshift d _ hs hlo hhi)
      | hole h => exact absurd h hhole
    | error e t =>
      refine .inr ⟨e, t, rfl, ?_⟩
      rcases (hends.exception hres).cases with hraises | ⟨-, h5⟩
      · exact hraises
      · exact absurd (.inl h5) hdef

/-- Register 1 holds 15 and is shifted by 31 bits to the right. -/
theorem encodingLaw_right :
    EncodingLaw (decoded 0x7 1 0xe 1 (fun _ => 15) ⟨[], length_nil_lt⟩) := by
  refine (encodingLaw_iff _ rfl).mpr ⟨by decide, ?_⟩
  rintro d ss ⟨-, hd, rfl⟩ - -
  obtain rfl : 1 = d := Option.some.inj hd
  rfl

/-- **An undefined encoding** that is executed without an exception. -/
theorem hole_not_encodingLaw : ¬ ∀ s : Machine, s.insOpImm = s.insOp1 ++ s.insOp2 →
    EncodingLaw s := by
  intro h
  let s := decoded 0x6 0x8 0 0 (fun _ => 0) ⟨[], length_nil_lt⟩
  have hhole : s.Hole := by decide
  exact (h s rfl).not_hole rfl hhole

end SM213
