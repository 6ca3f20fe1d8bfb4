import Cs213.SM213.Coherence
import Cs213.SM213.Faults

set_option relaxedAutoImplicit false
set_option autoImplicit false

/-!
# The addressing modes

A load or a store computes its address as base + offset or as base + index. The two should do the
same at the same address. They differ in `CPU.java`: the store with an index is refused if the
address is not a multiple of 4.

## Main definitions

* `SM213.ModesLaw` — the two modes of loads and of stores agree, and a load returns what has been
  stored.

## Main results

* `SM213.modesLaw_iff` — the memories, addresses and words for which they do.
* `SM213.misaligned_not_modesLaw` — a store at an address that is not a multiple of 4.
-/

namespace SM213

open MainMemory

namespace Machine

/-- The instruction registers hold a load base + offset, from the address `a` to register `d`. -/
def LoadsBase (s : Machine) (a : JInt) (d : Fin 8) : Prop :=
  s.insOpCode.toNat = 0x1 ∧ ∃ b, reg? s.insOp1 = some b ∧ reg? s.insOp2 = some d ∧
    s.reg b + 4 * s.insOp0.setWidth 32 = a

/-- The instruction registers hold a load indexed, from the address `a` to register `d`. -/
def LoadsIndexed (s : Machine) (a : JInt) (d : Fin 8) : Prop :=
  s.insOpCode.toNat = 0x2 ∧ ∃ b i, reg? s.insOp0 = some b ∧ reg? s.insOp1 = some i ∧
    reg? s.insOp2 = some d ∧ s.reg b + 4 * s.reg i = a

/-- The machine with another word in a register. -/
def setReg (s : Machine) (d : Fin 8) (v : JInt) : Machine :=
  { s with reg := Function.update s.reg d v }

end Machine

/-- **The addressing modes agree** at the address `a` of the memory `m`, for stores of the word
`v`. -/
structure ModesLaw (m : MainMemory) (a v : JInt) : Prop where
  /-- Both stores succeed and leave the same memory, or both throw and leave it as it was. -/
  stores : ∀ s s' : Machine, s.mem = m → s'.mem = m → s.StoresBase a v → s'.StoresIndexed a v →
    (∃ t t', execute s = .ok () t ∧ execute s' = .ok () t' ∧ t.mem = t'.mem) ∨
      ∃ e e' t t', execute s = .error e t ∧ execute s' = .error e' t' ∧ t.mem = m ∧ t'.mem = m
  /-- Both loads load the same word, or both throw and change nothing. -/
  loads : ∀ (s s' : Machine) (d d' : Fin 8), s.mem = m → s'.mem = m → s.LoadsBase a d →
    s'.LoadsIndexed a d' →
    (∃ w, execute s = .ok () (s.setReg d w) ∧ execute s' = .ok () (s'.setReg d' w)) ∨
      ∃ e e', execute s = .error e s ∧ execute s' = .error e' s'
  /-- Either load returns the word that either store has stored. -/
  loadsStored : ∀ (s t u : Machine) (d : Fin 8), s.mem = m →
    (s.StoresBase a v ∨ s.StoresIndexed a v) → execute s = .ok () t → u.mem = t.mem →
    (u.LoadsBase a d ∨ u.LoadsIndexed a d) → execute u = .ok () (u.setReg d v)

/-! ## What loads and stores do -/

section Modes

variable {m : MainMemory} {s t u : Machine} {a v : JInt} {d : Fin 8} {e : Exc}

/-- Either load. -/
lemma execute_of_loads (h : s.LoadsBase a d ∨ s.LoadsIndexed a d) :
    execute s = (reading (·.readIntegerUnaligned a) >>= fun w => modify (·.setReg d w)) s := by
  obtain ⟨hop, b, hb, hd, rfl⟩ | ⟨hop, b, i, hb, hi, hd, rfl⟩ := h
  · simp only [execute, get_bind, hop, insOp0Get_bind, insOp1Get_bind, insOp2Get_bind,
      regGet_bind hb, mul_four_add]
    by_cases hw : s.mem.HasWord (s.reg b + 4 * s.insOp0.setWidth 32)
    · simp only [readIntegerUnaligned_bind, hw, regSet_run hd, modify_run, Machine.setReg]
    · rw [bind_error (reading_of_not_hasWord hw), bind_error (reading_of_not_hasWord hw)]
  · simp only [execute, get_bind, hop, insOp0Get_bind, insOp1Get_bind, insOp2Get_bind,
      regGet_bind hb, regGet_bind hi, add_mul_four]
    by_cases hw : s.mem.HasWord (s.reg b + 4 * s.reg i)
    · simp only [readIntegerUnaligned_bind, hw, regSet_run hd, modify_run, Machine.setReg]
    · rw [bind_error (reading_of_not_hasWord hw), bind_error (reading_of_not_hasWord hw)]

/-- Either load, where there is a word. -/
lemma execute_loads_hasWord (h : s.LoadsBase a d ∨ s.LoadsIndexed a d) (hw : s.mem.HasWord a) :
    execute s = .ok () (s.setReg d (s.mem.word a)) := by
  rw [execute_of_loads h, readIntegerUnaligned_bind _ hw, modify_run]

/-- Either load, where there is no word. -/
lemma execute_loads_not_hasWord (h : s.LoadsBase a d ∨ s.LoadsIndexed a d)
    (hw : ¬ s.mem.HasWord a) : ∃ e, execute s = .error e s :=
  ⟨_, (execute_of_loads h).trans (bind_error (reading_of_not_hasWord hw) _)⟩

/-- A word is stored where there is none. -/
lemma changing_not_hasWord (hw : ¬ s.mem.HasWord a) :
    ∃ e t, changing (writeIntegerUnaligned a v) s = .error e t ∧
      (t.mem = s.mem ↔ ¬ Torn s.mem a (integerToBytes v)) := by
  by_cases hwrap : Wraps a 4
  · obtain ⟨m', hm', hiff, -⟩ := writeIntegerUnaligned_of_wraps (m := s.mem) (v := v) hwrap
    exact ⟨_, _, changing_error hm', hiff⟩
  · refine ⟨_, _, changing_error (writeIntegerUnaligned_of_not_hasWord hw hwrap), ?_⟩
    exact iff_of_true rfl fun htorn => hwrap htorn.1

/-- A store indexed, at an address that is not a multiple of 4. -/
lemma execute_storesIndexed_misaligned (h : s.StoresIndexed a v) (hal : ¬ isAccessAligned a 4) :
    execute s = .error .invalidAddress s := by
  rw [execute_of_storesIndexed h, writeInteger, if_neg hal]
  rfl

/-- A store that succeeds has stored a word. -/
lemma hasWord_of_store (h : s.StoresBase a v ∨ s.StoresIndexed a v) (ht : execute s = .ok () t) :
    s.mem.HasWord a ∧ t.mem = s.mem.putWord a v := by
  have hst : s.Stores a v := by
    refine h.imp_right fun h => ⟨h, by_contra fun hal => ?_⟩
    rw [execute_storesIndexed_misaligned h hal] at ht
    cases ht
  rw [execute_of_stores hst] at ht
  by_cases hw : s.mem.HasWord a
  · rw [writeIntegerUnaligned_run hw] at ht
    cases ht
    exact ⟨hw, rfl⟩
  · obtain ⟨e, u, hu, -⟩ := changing_not_hasWord (v := v) hw
    rw [hu] at ht
    cases ht

/-! ## When the modes agree -/

/-- The loads agree. -/
lemma loads_agree {s' : Machine} {d' : Fin 8} (hmem : s.mem = s'.mem) (h : s.LoadsBase a d)
    (h' : s'.LoadsIndexed a d') :
    (∃ w, execute s = .ok () (s.setReg d w) ∧ execute s' = .ok () (s'.setReg d' w)) ∨
      ∃ e e', execute s = .error e s ∧ execute s' = .error e' s' := by
  by_cases hw : s.mem.HasWord a
  · refine .inl ⟨s.mem.word a, execute_loads_hasWord (.inl h) hw, ?_⟩
    rw [execute_loads_hasWord (.inr h') (hmem ▸ hw), hmem]
  · obtain ⟨e, he⟩ := execute_loads_not_hasWord (.inl h) hw
    obtain ⟨e', he'⟩ := execute_loads_not_hasWord (.inr h') (hmem ▸ hw)
    exact .inr ⟨e, e', he, he'⟩

/-- **A load returns what has been stored.** -/
lemma loads_stored (hs : s.StoresBase a v ∨ s.StoresIndexed a v) (ht : execute s = .ok () t)
    (hmem : u.mem = t.mem) (hu : u.LoadsBase a d ∨ u.LoadsIndexed a d) :
    execute u = .ok () (u.setReg d v) := by
  obtain ⟨hw, htmem⟩ := hasWord_of_store hs ht
  have huw : u.mem.HasWord a := by
    rw [hmem, htmem]
    unfold HasWord InRange
    rw [length_putWord hw]
    exact hw
  rw [execute_loads_hasWord hu huw, hmem, htmem, word_putWord hw]

/-- The stores agree at an address that is a multiple of 4 or is not that of a word, if the store
is not torn. -/
lemma stores_agree {s' : Machine} (hmem : s.mem = m) (hmem' : s'.mem = m) (h : s.StoresBase a v)
    (h' : s'.StoresIndexed a v) (hal : a.toNat % 4 = 0 ∨ ¬ m.InRange a 4)
    (htorn : ¬ Torn m a (integerToBytes v)) :
    (∃ t t', execute s = .ok () t ∧ execute s' = .ok () t' ∧ t.mem = t'.mem) ∨
      ∃ e e' t t', execute s = .error e t ∧ execute s' = .error e' t' ∧ t.mem = m ∧ t'.mem = m := by
  subst hmem
  by_cases hw : s.mem.HasWord a
  · have hal' : isAccessAligned a 4 :=
      (isAccessAligned_iff hw).mpr (hal.resolve_right fun hout => hout hw)
    refine .inl ⟨_, _, (execute_of_storesBase h).trans (writeIntegerUnaligned_run hw),
      (execute_of_stores (.inr ⟨h', hal'⟩)).trans (writeIntegerUnaligned_run (hmem'.symm ▸ hw)), ?_⟩
    simp only [hmem']
  · obtain ⟨e, t, ht, hiff⟩ := changing_not_hasWord (v := v) hw
    by_cases hal' : isAccessAligned a 4
    · obtain ⟨e', t', ht', hiff'⟩ := changing_not_hasWord (v := v) (hmem'.symm ▸ hw)
      rw [hmem'] at hiff'
      exact .inr ⟨e, e', t, t', (execute_of_storesBase h).trans ht,
        (execute_of_stores (.inr ⟨h', hal'⟩)).trans ht', hiff.mpr htorn, hiff'.mpr htorn⟩
    · exact .inr ⟨e, _, t, s', (execute_of_storesBase h).trans ht,
        execute_storesIndexed_misaligned h' hal', hiff.mpr htorn, hmem'⟩

end Modes

/-- A machine with these digits in its instruction registers, whose first registers hold `v`, `a`
and `0`. -/
def operands (m : MainMemory) (a v : JInt) (o x y z : BitVec 4) : Machine :=
  decoded o x y z (fun r => [v, a].getD r 0) m

section Operands

variable {m : MainMemory} {a v : JInt}

lemma storesBase_operands : (operands m a v 0x3 0 0 1).StoresBase a v := by
  refine ⟨rfl, 0, 1, rfl, rfl, ?_, rfl⟩
  simp [operands, decoded, boot]

lemma storesIndexed_operands : (operands m a v 0x4 0 1 2).StoresIndexed a v := by
  refine ⟨rfl, 0, 1, 2, rfl, rfl, rfl, ?_, rfl⟩
  simp [operands, decoded, boot]

/-- If the stores agree, the address is a multiple of 4 or not that of a word, and the store is
not torn. -/
lemma ModesLaw.aligned (h : ModesLaw m a v) :
    (a.toNat % 4 = 0 ∨ ¬ m.InRange a 4) ∧ ¬ Torn m a (integerToBytes v) := by
  have hbase := storesBase_operands (m := m) (a := a) (v := v)
  have hindexed := storesIndexed_operands (m := m) (a := a) (v := v)
  obtain ⟨t, t', ht, ht', -⟩ | ⟨e, e', t, t', ht, -, hm, -⟩ :=
    h.stores _ _ rfl rfl hbase hindexed
  · -- both succeed
    have hw : m.HasWord a := (hasWord_of_store (.inl hbase) ht).1
    have hal : isAccessAligned a 4 := by
      by_contra hal
      rw [execute_storesIndexed_misaligned hindexed hal] at ht'
      cases ht'
    exact ⟨.inl ((isAccessAligned_iff hw).mp hal), fun htorn => not_inRange_of_wraps htorn.1 hw⟩
  · -- both throw
    rw [execute_of_storesBase hbase] at ht
    by_cases hw : m.HasWord a
    · rw [writeIntegerUnaligned_run (s := operands m a v 0x3 0 0 1) hw] at ht
      cases ht
    · obtain ⟨e₁, t₁, ht₁, hiff⟩ := changing_not_hasWord (s := operands m a v 0x3 0 0 1) (v := v) hw
      rw [ht₁] at ht
      cases ht
      exact ⟨.inr hw, hiff.mp hm⟩

end Operands

/-- **The addressing modes** agree at an address for stores of a word exactly if the address is a
multiple of 4 or there is no word at it, and the store is not torn. -/
theorem modesLaw_iff (m : MainMemory) (a v : JInt) :
    ModesLaw m a v ↔
      (a.toNat % 4 = 0 ∨ ¬ m.InRange a 4) ∧ ¬ Torn m a (integerToBytes v) := by
  refine ⟨ModesLaw.aligned, fun ⟨hal, htorn⟩ => ?_⟩
  exact {
    stores := fun _ _ hm hm' h h' => stores_agree hm hm' h h' hal htorn
    loads := fun _ _ _ _ hm hm' h h' => loads_agree (hm.trans hm'.symm) h h'
    loadsStored := fun _ _ _ _ _ hs ht hmem hu => loads_stored hs ht hmem hu }

/-- **A word at an odd address** can be stored in one mode only. -/
theorem misaligned_not_modesLaw : ¬ ∀ m a v, ModesLaw m a v := by
  intro h
  obtain ⟨hal, -⟩ := (h ⟨List.replicate 8 0, by decide⟩ 1 5).aligned
  revert hal
  decide

end SM213
