import Cs213.Library.Until
import Cs213.SM213.Coherence
import Cs213.SM213.Failure
import Cs213.SM213.Modes

set_option relaxedAutoImplicit false
set_option autoImplicit false

/-!
# Programs in memory

Following a program from instruction to instruction.

## Main definitions

* `SM213.MainMemory.instr?` — the instruction at an address.
* `SM213.MainMemory.Holds` — a list of instructions is in memory.
* `SM213.Machine.step?` — a cycle that throws no exception.
* `SM213.FirstAt` — the first time the program counter is at an address.
* `SM213.Gets` — a program gets from one state to another, on the way to an address.

## Main results

* `SM213.gets_instr` — the instruction at the program counter is executed.
-/

namespace SM213

open Bytes MainMemory Until

/-! ## Stored words -/

namespace MainMemory

variable {m m' : MainMemory} {a b v : JInt}

lemma putWord_of_not (h : ¬ m.HasWord a) : m.putWord a v = m := dif_neg h

/-- Storing a word does not change the size of memory. -/
@[simp] lemma length_putWord_eq : (m.putWord a v).length = m.length := by
  by_cases h : m.HasWord a
  · exact length_putWord h
  · rw [putWord_of_not h]

@[simp] lemma hasWord_putWord : (m.putWord a v).HasWord b ↔ m.HasWord b := by
  simp only [HasWord, InRange, length_putWord_eq]

/-- The bytes that are not of the stored word. -/
lemma byte_putWord_of_not {j : ℕ} (h : j < a.toNat ∨ a.toNat + 4 ≤ j) :
    (m.putWord a v).byte j = m.byte j := by
  by_cases hw : m.HasWord a
  · rw [byte_putWord hw, if_neg (by omega)]
  · rw [putWord_of_not hw]

/-- A word is given by its four bytes. -/
lemma word_congr (h : ∀ j, a.toNat ≤ j → j < a.toNat + 4 → m'.byte j = m.byte j) :
    m'.word a = m.word a := by
  simp only [word]
  rw [h _ (by omega) (by omega), h _ (by omega) (by omega), h _ (by omega) (by omega),
    h _ (by omega) (by omega)]

/-- The words that do not overlap the stored word. -/
lemma word_putWord_of_disjoint (h : b.toNat + 4 ≤ a.toNat ∨ a.toNat + 4 ≤ b.toNat) :
    (m.putWord a v).word b = m.word b := by
  apply word_congr
  intro j hj hj'
  exact byte_putWord_of_not (by omega)

/-- The address of an element of an array of words. -/
lemma toNat_element {i : ℕ} (h : a.toNat + 4 * i < 2 ^ 32) :
    (a + 4 * BitVec.ofNat 32 i).toNat = a.toNat + 4 * i := by
  have hfour : (4 : JInt).toNat = 4 := rfl
  rw [BitVec.toNat_add, BitVec.toNat_mul, BitVec.toNat_ofNat, hfour]
  omega

/-- Storing a word that is already there. -/
lemma putWord_word : m.putWord a (m.word a) = m := by
  by_cases h : m.HasWord a
  · have hput := putWord_bytesToInteger h
    rwa [bytesToInteger_eq] at hput
  · exact putWord_of_not h

end MainMemory

/-! ## Code in memory -/

/-- The instruction at an address. -/
def MainMemory.instr? (m : MainMemory) (a : JInt) : Option Instr :=
  decode (hi (m.byte a.toNat)) (lo (m.byte a.toNat)) (hi (m.byte (a.toNat + 1)))
    (lo (m.byte (a.toNat + 1))) (m.word (a + 2))

/-- The length of an instruction. -/
def Instr.size : Instr → JInt
  | loadImm _ _ | j _ => 6
  | _ => 2

/-- The instructions `is` are in memory, one after the other, from an address on. -/
def MainMemory.Holds (m : MainMemory) : JInt → List Instr → Prop
  | _, [] => True
  | a, i :: is => m.instr? a = some i ∧ m.Holds (a + i.size) is

instance MainMemory.decidableHolds (m : MainMemory) :
    (a : JInt) → (is : List Instr) → Decidable (m.Holds a is)
  | _, [] => isTrue trivial
  | a, i :: is =>
    have := decidableHolds m (a + i.size) is
    inferInstanceAs (Decidable (m.instr? a = some i ∧ m.Holds (a + i.size) is))

/-- The distance of instruction `k` from the first one. -/
def offset : List Instr → ℕ → JInt
  | [], _ | _, 0 => 0
  | i :: is, k + 1 => i.size + offset is k

section Code

variable {m m' : MainMemory} {a : JInt} {i : Instr} {is : List Instr}

/-- The length of an instruction is that of its encoding. -/
lemma size_eq {o x y z : BitVec 4} {e : JInt} (h : decode o x y z e = some i) :
    size o = i.size := by
  have hsize : size o = if o.toNat = 0x0 ∨ o.toNat = 0xb then 6 else 2 := by
    simp only [size, ← BitVec.toNat_inj]
    rfl
  rw [hsize]
  simp only [decode] at h
  split at h
  case h_1 ho =>
    obtain ⟨d, -, rfl⟩ := Option.map_eq_some_iff.mp h
    rw [ho]
    rfl
  case h_10 ho =>
    cases h
    rw [ho]
    rfl
  case h_6 ho =>
    rw [ho]
    split at h <;> simp only [Option.map_eq_some_iff, Option.bind_eq_bind, Option.bind_eq_some_iff,
      Option.pure_def, Option.some.injEq, reduceCtorEq] at h
    case h_1 | h_2 | h_3 =>
      obtain ⟨r, -, d, -, rfl⟩ := h
      rfl
    case h_4 | h_5 | h_6 | h_7 | h_8 | h_9 =>
      obtain ⟨d, -, rfl⟩ := h
      rfl
  case h_14 ho =>
    rw [ho]
    split at h <;> cases h <;> rfl
  all_goals simp only [Option.map_eq_some_iff, Option.bind_eq_bind, Option.bind_eq_some_iff,
    Option.pure_def, Option.some.injEq, reduceCtorEq] at h
  case h_2 ho | h_13 ho =>
    obtain ⟨b, -, d, -, rfl⟩ := h
    rw [ho]
    rfl
  case h_3 ho | h_4 ho | h_5 ho =>
    obtain ⟨b, -, k, -, d, -, rfl⟩ := h
    rw [ho]
    rfl
  case h_7 ho =>
    subst h
    rw [ho]
    rfl
  case h_8 ho | h_9 ho | h_11 ho | h_12 ho =>
    obtain ⟨r, -, rfl⟩ := h
    rw [ho]
    rfl

/-- An instruction of a list. -/
lemma MainMemory.Holds.get (h : m.Holds a is) (k : ℕ) (hi : is[k]? = some i) :
    m.instr? (a + offset is k) = some i := by
  induction is generalizing a k with
  | nil => cases hi
  | cons i' is ih =>
    cases k with
    | zero =>
      cases hi
      simpa [offset] using h.1
    | succ k =>
      rw [offset, ← BitVec.add_assoc]
      exact ih h.2 k hi

/-- The encoding of a store indexed. -/
lemma decode_eq_storeIndexed {o x y z : BitVec 4} {e : JInt} {r d k : Fin 8}
    (h : decode o x y z e = some (.storeIndexed r d k)) :
    o.toNat = 0x4 ∧ reg? x = some r ∧ reg? y = some d ∧ reg? z = some k := by
  simp only [decode] at h
  split at h
  case h_5 ho =>
    simp only [Option.bind_eq_bind, Option.bind_eq_some_iff, Option.pure_def, Option.some.injEq,
      Instr.storeIndexed.injEq] at h
    obtain ⟨_, hr, _, hd, _, hk, rfl, rfl, rfl⟩ := h
    exact ⟨ho, hr, hd, hk⟩
  case h_6 | h_14 => split at h <;> simp [Option.bind_eq_some_iff] at h
  all_goals simp [Option.bind_eq_some_iff] at h

end Code

/-! ## Following a program -/

/-- A cycle that throws no exception. -/
def Machine.step? (s : Machine) : Option Machine :=
  match cycle s with
  | .ok _ t => some t
  | .error _ _ => none

/-- From `s` on, `t` is the first state in which the program counter is `a`. -/
def FirstAt (a : JInt) (s t : Machine) : Prop := First Machine.step? (·.pc = a) s t

/-- Where the program counter is not yet `a`, cycles lead from the state `A` to the state `B`. -/
def Gets (a : JInt) (A B : Arch) : Prop :=
  Leads (upTo Machine.step? (·.pc = a)) (·.arch = A) (·.arch = B)

section Gets

variable {a : JInt} {A B C : Arch} {i : Instr} {s t : Machine}

instance : Trans (Gets a) (Gets a) (Gets a) := ⟨Leads.trans⟩

lemma step?_eq_some : s.step? = some t ↔ cycle s = .ok () t := by
  unfold Machine.step?
  split <;> rename_i h <;> rw [h] <;> simp

/-- The state that instruction `i` acts on. -/
def Arch.skip (A : Arch) (i : Instr) : Arch := { A with pc := A.pc + i.size }

lemma next_eq (hi : s.instr? = some i) : s.next = s.arch.skip i := by
  rw [Machine.next, Arch.skip, ← size_eq hi]
  rfl

/-- A cycle executes the instruction at the program counter. -/
lemma step?_instr (hpc : s.mem.InRange s.pc 6) (hi : s.mem.instr? s.pc = some i)
    (he : i.Enabled (s.arch.skip i)) (hne : i ≠ .halt) :
    ∃ t, s.step? = some t ∧ t.arch = i.run (s.arch.skip i) := by
  have hnext : s.next = s.arch.skip i := next_eq hi
  have hcycle := cycle_eq hpc hi (hnext ▸ he)
  rw [if_neg hne] at hcycle
  exact ⟨_, step?_eq_some.mpr hcycle, congrArg i.run hnext⟩

/-- **An instruction** of a program leads from the state before it to the state after it. -/
theorem gets_instr {m : MainMemory} {pc₀ pc : JInt} {is : List Instr} {r : Fin 8 → JInt}
    (h : m.Holds pc₀ is) (k : ℕ) (hi : is[k]? = some i) (hpc : pc₀ + offset is k = pc)
    (hin : m.InRange pc 6) (hne : i ≠ .halt) (ha : pc ≠ a)
    (he : i.Enabled ⟨pc + i.size, r, m⟩) (hB : i.run ⟨pc + i.size, r, m⟩ = B) :
    Gets a ⟨pc, r, m⟩ B := by
  intro s hs
  have hs' : s.arch = ⟨pc, r, m⟩ := hs
  have hmem : s.mem = m := congrArg Arch.mem hs'
  have hspc : s.pc = pc := congrArg Arch.pc hs'
  have hinstr : m.instr? pc = some i := hpc ▸ h.get k hi
  obtain ⟨t, ht, harch⟩ := step?_instr (s := s) (by rwa [hmem, hspc]) (by rwa [hmem, hspc])
    (by rwa [hs']) hne
  rw [hs'] at harch
  exact ⟨t, harch.trans hB, reaches_of_step (by rwa [hspc]) ht⟩

/-- A store indexed that throws no exception has stored a word. -/
lemma hasWord_of_step? {r d k : Fin 8} (hi : s.mem.instr? s.pc = some (.storeIndexed r d k))
    (h : s.step? = some t) : s.mem.HasWord (s.reg d + 4 * s.reg k) := by
  obtain ⟨ho, hr, hd, hk⟩ := decode_eq_storeIndexed hi
  have hst : s.fetched.StoresIndexed (s.reg d + 4 * s.reg k) (s.reg r) :=
    ⟨ho, r, d, k, hr, hd, hk, rfl, rfl⟩
  rw [step?_eq_some, cycle] at h
  cases hf : fetch s with
  | error e u =>
    rw [bind_error hf] at h
    cases h
  | ok _ u =>
    obtain ⟨-, rfl⟩ := fetch_ok hf
    rw [bind_run hf] at h
    exact (hasWord_of_store (.inr hst) h).1

end Gets

end SM213
