import Cs213.SM213.Blocks

set_option relaxedAutoImplicit false
set_option autoImplicit false

/-!
# The encoding of the instructions

The bytes that stand for an instruction, and the memory that an assembled program is loaded into.

## Main definitions

* `SM213.Instr.encode` — the bytes of an instruction.
* `SM213.assemble` — the bytes of a list of instructions.

## Main results

* `SM213.instr?_of_encode` — an instruction is decoded from its encoding.
* `SM213.resident_assemble` — an assembled program is in memory.
-/

namespace SM213

open Bytes MainMemory

/-! ## Encoding -/

/-- The digit of a register. -/
def digit (r : Fin 8) : BitVec 4 := BitVec.ofNat 4 r

/-- The four digits of the first two bytes of an instruction. -/
def Instr.digits : Instr → BitVec 4 × BitVec 4 × BitVec 4 × BitVec 4
  | loadImm d _ => (0x0, digit d, 0x0, 0x0)
  | loadBase p s d => (0x1, p, digit s, digit d)
  | loadIndexed s i d => (0x2, digit s, digit i, digit d)
  | storeBase s p d => (0x3, digit s, p, digit d)
  | storeIndexed s d i => (0x4, digit s, digit d, digit i)
  | mov s d => (0x6, 0x0, digit s, digit d)
  | add s d => (0x6, 0x1, digit s, digit d)
  | and s d => (0x6, 0x2, digit s, digit d)
  | inc d => (0x6, 0x3, 0x0, digit d)
  | inca d => (0x6, 0x4, 0x0, digit d)
  | dec d => (0x6, 0x5, 0x0, digit d)
  | deca d => (0x6, 0x6, 0x0, digit d)
  | not d => (0x6, 0x7, 0x0, digit d)
  | gpc p d => (0x6, 0xf, p, digit d)
  | br pp => (0x8, 0x0, hi pp, lo pp)
  | beq r pp => (0x9, digit r, hi pp, lo pp)
  | bgt r pp => (0xa, digit r, hi pp, lo pp)
  | j _ => (0xb, 0x0, 0x0, 0x0)
  | jInd t pp => (0xc, digit t, hi pp, lo pp)
  | jDouble t pp => (0xd, digit t, hi pp, lo pp)
  | jDoubleIndexed t i => (0xe, digit t, digit i, 0x0)
  | halt => (0xf, 0x0, 0x0, 0x0)
  | nop => (0xf, 0xf, 0x0, 0x0)

/-- The four bytes that follow in the long instructions. -/
def Instr.ext : Instr → List Byte
  | loadImm _ v | j v => beBytes v
  | _ => []

/-- The bytes of an instruction. -/
def Instr.encode (i : Instr) : List Byte :=
  let (o, x, y, z) := i.digits
  (o ++ x) :: (y ++ z) :: i.ext

/-- The bytes of a list of instructions. -/
def assemble (is : List Instr) : List Byte := is.flatMap Instr.encode

section Encode

variable {m : MainMemory} {a : JInt} {i : Instr} {is : List Instr}

@[simp] lemma reg?_digit (r : Fin 8) : reg? (digit r) = some r := by
  revert r
  decide

@[simp] lemma hi_append (x y : BitVec 4) : hi (x ++ y) = x := by
  revert x y
  decide

@[simp] lemma lo_append (x y : BitVec 4) : lo (x ++ y) = y := by
  revert x y
  decide

lemma ext_cases : i.ext = [] ∨ ∃ v, i.ext = beBytes v := by
  cases i with
  | loadImm d v | j v => exact .inr ⟨v, rfl⟩
  | _ => exact .inl rfl

/-- The length of an instruction is that of its encoding. -/
lemma toNat_size : i.size.toNat = i.ext.length + 2 := by cases i <;> rfl

lemma length_encode : i.encode.length = i.size.toNat := toNat_size.symm

lemma length_assemble : (assemble is).length = codeSize is := by
  rw [assemble, List.length_flatMap, codeSize]
  simp only [length_encode]

lemma beBytes_inj {v w : JInt} (h : beBytes v = beBytes w) : v = w := by
  simp only [beBytes, List.cons.injEq, and_true] at h
  rw [← beWord_beBytes v, ← beWord_beBytes w, h.1, h.2.1, h.2.2.1, h.2.2.2]

/-- The digits of an instruction are decoded, with the word that follows them if it is used. -/
lemma decode_digits {e : JInt} (he : i.ext = [] ∨ i.ext = beBytes e) :
    decode i.digits.1 i.digits.2.1 i.digits.2.2.1 i.digits.2.2.2 e = some i := by
  cases i with
  | loadImm d v =>
    obtain rfl : v = e := beBytes_inj (he.resolve_left nofun)
    simp [Instr.digits, decode]
  | j v =>
    obtain rfl : v = e := beBytes_inj (he.resolve_left nofun)
    simp [Instr.digits, decode]
  | _ => simp [Instr.digits, decode, hi_append_lo]

/-- **An instruction is decoded** from its encoding in memory. -/
theorem instr?_of_encode (ha : a.toNat + i.size.toNat < 2 ^ 32)
    (h : ∀ k < i.size.toNat, m.byte (a.toNat + k) = i.encode.getD k 0) : m.instr? a = some i := by
  have hsize := toNat_size (i := i)
  have h₀ : m.byte a.toNat = i.digits.1 ++ i.digits.2.1 := h 0 (by omega)
  have h₁ : m.byte (a.toNat + 1) = i.digits.2.2.1 ++ i.digits.2.2.2 := h 1 (by omega)
  rw [MainMemory.instr?, h₀, h₁, hi_append, lo_append, hi_append, lo_append]
  apply decode_digits
  rcases ext_cases (i := i) with hext | ⟨v, hext⟩
  · exact .inl hext
  · right
    have hfour : i.ext.length = 4 := by rw [hext]; rfl
    have hbyte : ∀ k < 4, m.byte (a.toNat + 2 + k) = (beBytes v).getD k 0 := by
      intro k hk
      rw [Nat.add_assoc, h (2 + k) (by omega), ← hext, Nat.add_comm]
      rfl
    have hadd : (a + 2).toNat = a.toNat + 2 :=
      BitVec.toNat_add_of_lt (by show a.toNat + 2 < 2 ^ 32; omega)
    have hword : m.word (a + 2) = v := by
      rw [MainMemory.word, hadd, hbyte 0 (by decide), hbyte 1 (by decide), hbyte 2 (by decide),
        hbyte 3 (by decide)]
      exact beWord_beBytes v
    rw [hext, hword]

/-- The instructions of a list are decoded from the bytes they are assembled to. -/
theorem holds_of_assemble (ha : a.toNat + codeSize is < 2 ^ 32)
    (h : ∀ k < codeSize is, m.byte (a.toNat + k) = (assemble is).getD k 0) : m.Holds a is := by
  induction is generalizing a with
  | nil => trivial
  | cons i is ih =>
    have hsize : codeSize (i :: is) = i.size.toNat + codeSize is := by simp [codeSize]
    have hbytes : assemble (i :: is) = i.encode ++ assemble is := List.flatMap_cons
    have hadd : (a + i.size).toNat = a.toNat + i.size.toNat :=
      BitVec.toNat_add_of_lt (by omega)
    refine ⟨instr?_of_encode (by omega) fun k hk => ?_, ih (by omega) fun k hk => ?_⟩
    · rw [h k (by omega), hbytes, List.getD_append _ _ _ _ (by rwa [length_encode])]
    · rw [hadd, Nat.add_assoc, h _ (by omega), hbytes,
        List.getD_append_right _ _ _ _ (by rw [length_encode]; omega), length_encode,
        Nat.add_sub_cancel_left]

end Encode

/-! ## Loading -/

/-- **An assembled program is in memory** where its bytes are. -/
theorem resident_assemble {m : MainMemory} {is : List Instr} {rest : List Byte} {n : ℕ} {pc : JInt}
    (before : List Byte) (hm : m.mem = before ++ (assemble is ++ rest))
    (hpc : before.length = pc.toNat) (hn : n ≤ m.length) : Resident n pc is m where
  length_ge := hn
  holds := by
    have hlt := m.length_lt
    rw [hm, List.length_append, List.length_append, length_assemble] at hlt
    refine holds_of_assemble (by omega) fun k hk => ?_
    rw [byte, hm, ← hpc, List.getD_append_right _ _ _ _ (by omega), Nat.add_sub_cancel_left,
      List.getD_append _ _ _ _ (by rwa [length_assemble])]

lemma length_flatMap_beBytes {ws : List JInt} : (ws.flatMap beBytes).length = 4 * ws.length := by
  induction ws with
  | nil => rfl
  | cons w ws ih =>
    rw [List.flatMap_cons, List.length_append, ih, List.length_cons, Nat.mul_succ, Nat.add_comm]
    rfl

/-- The bytes of word `i` of an array. -/
lemma getD_words {ws : List JInt} {i j : ℕ} (hi : i < ws.length) (hj : j < 4) :
    (ws.flatMap beBytes).getD (4 * i + j) 0 = (beBytes ws[i]).getD j 0 := by
  induction ws generalizing i with
  | nil => exact absurd hi (Nat.not_lt_zero i)
  | cons w ws ih =>
    have hlen : (beBytes w).length = 4 := rfl
    rw [List.flatMap_cons]
    cases i with
    | zero =>
      rw [Nat.mul_zero, Nat.zero_add, List.getD_append _ _ _ _ hj]
      rfl
    | succ i =>
      have hsub : 4 * (i + 1) + j - (beBytes w).length = 4 * i + j := by omega
      rw [List.getD_append_right _ _ _ _ (by omega), hsub]
      exact ih (by simpa using hi)

/-- **An array is in memory** where its bytes are. -/
theorem word_of_words {m : MainMemory} {ws : List JInt} {a : JInt} (before rest : List Byte)
    (hm : m.mem = before ++ (ws.flatMap beBytes ++ rest)) (ha : before.length = a.toNat) {i : ℕ}
    (hi : i < ws.length) : m.word (a + 4 * BitVec.ofNat 32 i) = ws[i] := by
  have hwords : (ws.flatMap beBytes).length = 4 * ws.length := length_flatMap_beBytes
  have hlt : a.toNat + 4 * ws.length < 2 ^ 31 := by
    have := m.length_lt
    rw [hm, List.length_append, List.length_append, hwords] at this
    omega
  have haddr : (a + 4 * BitVec.ofNat 32 i).toNat = a.toNat + 4 * i := toNat_element (by omega)
  have hbyte : ∀ j < 4, m.byte (a.toNat + 4 * i + j) = (beBytes ws[i]).getD j 0 := by
    intro j hj
    rw [byte, hm, ← ha, Nat.add_assoc, List.getD_append_right _ _ _ _ (by omega),
      Nat.add_sub_cancel_left, List.getD_append _ _ _ _ (by omega), getD_words hi hj]
  rw [word, haddr, hbyte 1 (by decide), hbyte 2 (by decide), hbyte 3 (by decide)]
  exact (congrArg (beWord · _ _ _) (hbyte 0 (by decide))).trans (beWord_beBytes ws[i])

lemma words_of_mem {m : MainMemory} {ws : List JInt} {a : JInt} (before : List Byte)
    {rest : List Byte} (hm : m.mem = before ++ (ws.flatMap beBytes ++ rest))
    (ha : before.length = a.toNat) : m.words a ws.length = ws := by
  refine List.ext_getElem length_words fun i hi hi' => ?_
  rw [getElem_words hi, word_of_words before rest hm ha hi']

end SM213
