import Cs213.Library.Bytes

set_option relaxedAutoImplicit false
set_option autoImplicit false

/-!
# Main memory

`MainMemory.java`, with the part of `AbstractMainMemory` that accesses words through it. Both
`get` and `set` first test, in 32-bit arithmetic, that the access stays inside memory, and then go
through the bytes one at a time.

## Main definitions

* `SM213.Exc` — the exceptions that can be thrown.
* `SM213.MainMemory` — the array of bytes.
* `SM213.MainMemory.get`, `SM213.MainMemory.set` — the two accesses.
* `SM213.Contained`, `SM213.GetLaw`, `SM213.SetLaw` — what they promise.

## Main results

* `SM213.MainMemory.get_eq`, `SM213.MainMemory.set_eq` — the accesses that stay inside memory.
* `SM213.laws_iff` — when the promise is kept.
* `SM213.wrapped_not_law` — an access that breaks it.

## Implementation notes

A Java method that changes a memory is a computation in `EStateM`, which keeps the changes made
before an exception. A Java array has fewer than `2 ^ 31` elements.
-/

namespace SM213

open Bytes

/-- A Java `int`. -/
abbrev JInt := BitVec 32

/-- A Java `byte`, and an `UnsignedByte`: it keeps the low byte of what it is given. -/
abbrev Byte := BitVec 8

/-- The exceptions. -/
inductive Exc
  | invalidAddress
  | arrayIndexOutOfBounds
  | negativeArraySize
  | invalidRegisterNumber
  | invalidInstruction
  | machineHalt
  deriving DecidableEq, Repr

/-- `MainMemory`: its array of bytes. -/
structure MainMemory where
  mem : List Byte
  length_lt : mem.length < 2 ^ 31

namespace MainMemory

/-- A memory may have no bytes. -/
lemma length_nil_lt : ([] : List Byte).length < 2 ^ 31 := by decide

/-! ## The code -/

/-- `mem.length`. -/
def length (m : MainMemory) : ℕ := m.mem.length

/-- `isAccessAligned`. -/
def isAccessAligned (address length : JInt) : Bool := address.srem length = 0

/-- `bytesToInteger`. -/
def bytesToInteger (b₀ b₁ b₂ b₃ : Byte) : JInt :=
  (b₀.setWidth 32 <<< 24) + (b₁.setWidth 32 <<< 16) + (b₂.setWidth 32 <<< 8) + b₃.setWidth 32

/-- `integerToBytes`. -/
def integerToBytes (i : JInt) : List Byte :=
  [(i >>> 24).setWidth 8, (i >>> 16).setWidth 8, (i >>> 8).setWidth 8, i.setWidth 8]

/-- The array access `mem[i]`. A negative index is out of bounds as a number without sign too. -/
def load (m : MainMemory) (i : JInt) : Except Exc Byte :=
  match m.mem[i.toNat]? with
  | some b => .ok b
  | none => .error .arrayIndexOutOfBounds

/-- The test of `get` and `set`. -/
def outside (m : MainMemory) (address length : JInt) : Prop :=
  (address + length).toInt > m.length ∨ address.toInt < 0

instance (m : MainMemory) (address length : JInt) : Decidable (m.outside address length) :=
  inferInstanceAs (Decidable (_ ∨ _))

/-- The loop of `get`, from index `i` on, for `n` more bytes. -/
def loadFrom (m : MainMemory) (address : JInt) : ℕ → ℕ → Except Exc (List Byte)
  | _, 0 => .ok []
  | i, n + 1 => do
    let b ← m.load (address + BitVec.ofNat 32 i)
    let bs ← m.loadFrom address (i + 1) n
    return b :: bs

/-- `get`. -/
def get (m : MainMemory) (address length : JInt) : Except Exc (List Byte) :=
  if m.outside address length then .error .invalidAddress
  else if length.toInt < 0 then .error .negativeArraySize
  else m.loadFrom address 0 length.toNat

/-- The array access `mem[i] = b`. -/
def store (i : JInt) (b : Byte) : EStateM Exc MainMemory Unit := fun m =>
  if i.toNat < m.mem.length then
    .ok () ⟨m.mem.set i.toNat b, by rw [List.length_set]; exact m.length_lt⟩
  else .error .arrayIndexOutOfBounds m

/-- The loop of `set`, from index `i` on. -/
def storeFrom (address : JInt) : ℕ → List Byte → EStateM Exc MainMemory Unit
  | _, [] => pure ()
  | i, b :: bs => do
    store (address + BitVec.ofNat 32 i) b
    storeFrom address (i + 1) bs

/-- `set`. -/
def set (address : JInt) (value : List Byte) : EStateM Exc MainMemory Unit := fun m =>
  if m.outside address (BitVec.ofNat 32 value.length) then .error .invalidAddress m
  else storeFrom address 0 value m

/-! ## Words -/

/-- `readUnaliged`. -/
def readUnaliged (m : MainMemory) (address length : JInt) : Except Exc (List Byte) :=
  m.get address length

/-- `readIntegerUnaligned`. -/
def readIntegerUnaligned (m : MainMemory) (address : JInt) : Except Exc JInt := do
  let b ← m.get address 4
  return bytesToInteger (b.getD 0 0) (b.getD 1 0) (b.getD 2 0) (b.getD 3 0)

/-- `readInteger`. -/
def readInteger (m : MainMemory) (address : JInt) : Except Exc JInt :=
  if isAccessAligned address 4 then m.readIntegerUnaligned address else .error .invalidAddress

/-- `writeIntegerUnaligned`. -/
def writeIntegerUnaligned (address value : JInt) : EStateM Exc MainMemory Unit :=
  set address (integerToBytes value)

/-- `writeInteger`. -/
def writeInteger (address value : JInt) : EStateM Exc MainMemory Unit :=
  if isAccessAligned address 4 then writeIntegerUnaligned address value
  else throw .invalidAddress

end MainMemory

/-! ## The promise -/

/-- The bytes `address`, ..., `address + n - 1`, over the integers, lie in memory. -/
def Contained (m : MainMemory) (address : JInt) (n : ℕ) : Prop :=
  ∀ x : ℤ, address.toInt ≤ x → x < address.toInt + n → 0 ≤ x ∧ x < m.length

/-- **The promise of `get`**: the exception if the range is not contained in memory, and the bytes
of the range otherwise. -/
structure GetLaw (m : MainMemory) (address : JInt) (n : ℕ) : Prop where
  raises : ¬ Contained m address n → m.get address (BitVec.ofNat 32 n) = .error .invalidAddress
  returns : Contained m address n → ∃ bs, m.get address (BitVec.ofNat 32 n) = .ok bs ∧
    bs.length = n ∧ ∀ i < n, bs[i]? = m.mem[(address.toInt + i).toNat]?

/-- **The promise of `set`**: the exception and the memory as before if the range is not contained
in memory, and the range overwritten and nothing else otherwise. -/
structure SetLaw (m : MainMemory) (address : JInt) (value : List Byte) : Prop where
  raises : ¬ Contained m address value.length →
    MainMemory.set address value m = .error .invalidAddress m
  returns : Contained m address value.length → ∃ m', MainMemory.set address value m = .ok () m' ∧
    m'.length = m.length ∧ ∀ j : ℕ, m'.mem[j]? =
      if address.toInt ≤ j ∧ j < address.toInt + value.length
      then value[(j - address.toInt).toNat]? else m.mem[j]?

/-- The end of the range is beyond the largest `int`. -/
def Wraps (address : JInt) (n : ℕ) : Prop := 0 ≤ address.toInt ∧ 2 ^ 31 ≤ address.toInt + n

/-- The range is empty, and does not begin in memory or at its end. -/
def EmptyOutside (m : MainMemory) (address : JInt) (n : ℕ) : Prop :=
  n = 0 ∧ (address.toInt < 0 ∨ m.length < address.toInt)

/-! ## Accesses inside memory -/

namespace MainMemory

variable {m : MainMemory} {address : JInt} {n : ℕ}

/-- The range lies in memory. -/
def InRange (m : MainMemory) (address : JInt) (n : ℕ) : Prop := address.toNat + n ≤ m.length

instance (m : MainMemory) (address : JInt) (n : ℕ) : Decidable (m.InRange address n) :=
  inferInstanceAs (Decidable (_ ≤ _))

/-- The memory with `value` written from `address` on. -/
def write (m : MainMemory) (address : JInt) (value : List Byte)
    (h : m.InRange address value.length) : MainMemory :=
  ⟨overwrite m.mem address.toNat value, by
    rw [length_overwrite h]
    exact m.length_lt⟩

/-- The sum of the test, when it does not wrap. -/
lemma toInt_add_ofNat (h₀ : 0 ≤ address.toInt) (h : address.toInt + n < 2 ^ 31) :
    (address + BitVec.ofNat 32 n).toInt = address.toInt + n := by
  rw [BitVec.toInt_add, BitVec.toInt_ofNat', Int.add_bmod_bmod]
  exact Int.bmod_eq_of_le (by omega) (by omega)

/-- The address of element `i` of a range in memory. -/
lemma toNat_add_ofNat {i : ℕ} (h : address.toNat + i < m.length) :
    (address + BitVec.ofNat 32 i).toNat = address.toNat + i := by
  have := m.length_lt
  rw [BitVec.toNat_add, BitVec.toNat_ofNat]
  simp only [length] at h
  omega

/-- The address of a range in memory is not negative. -/
lemma InRange.toInt_eq (h : m.InRange address n) : address.toInt = address.toNat := by
  have := m.length_lt
  simp only [InRange, length] at h
  exact BitVec.toInt_eq_toNat_of_lt (by omega)

/-- A range in memory passes the test. -/
lemma InRange.not_outside (h : m.InRange address n) :
    ¬ m.outside address (BitVec.ofNat 32 n) := by
  have := m.length_lt
  have h₀ := h.toInt_eq
  simp only [InRange, length] at h
  rw [outside, toInt_add_ofNat (by omega) (by omega), h₀]
  simp only [length]
  omega

/-- The loop of `get` returns the range. -/
lemma loadFrom_eq (i : ℕ) (h : address.toNat + i + n ≤ m.length) :
    m.loadFrom address i n = .ok (window m.mem (address.toNat + i) n) := by
  induction n generalizing i with
  | zero => simp [loadFrom, window]
  | succ n ih =>
    have hi : address.toNat + i < m.mem.length := by
      simp only [length] at h
      omega
    rw [loadFrom, load, toNat_add_ofNat hi, List.getElem?_eq_getElem hi, window_succ hi]
    simp only [ih (i + 1) (by omega)]
    rfl

/-- **`get` inside memory** returns the range. -/
theorem get_eq (h : m.InRange address n) :
    m.get address (BitVec.ofNat 32 n) = .ok (window m.mem address.toNat n) := by
  have := m.length_lt
  have hn : (BitVec.ofNat 32 n).toNat = n := by
    simp only [InRange, length] at h
    rw [BitVec.toNat_ofNat]
    omega
  have hn₀ : ¬ (BitVec.ofNat 32 n).toInt < 0 := by
    simp only [InRange, length] at h
    rw [BitVec.toInt_eq_toNat_of_lt (by omega)]
    omega
  rw [get, if_neg h.not_outside, if_neg hn₀, hn]
  exact loadFrom_eq 0 h

/-- The loop of `set` overwrites the range. -/
lemma storeFrom_eq (i : ℕ) (value : List Byte) (m : MainMemory)
    (h : address.toNat + i + value.length ≤ m.length) :
    ∃ m', storeFrom address i value m = .ok () m' ∧
      m'.mem = overwrite m.mem (address.toNat + i) value := by
  induction value generalizing i m with
  | nil => exact ⟨m, rfl, by simp [overwrite]⟩
  | cons b bs ih =>
    simp only [List.length_cons, length] at h
    have hi : address.toNat + i < m.mem.length := by omega
    obtain ⟨m', hm', e⟩ := ih (i + 1)
      ⟨m.mem.set (address.toNat + i) b, by rw [List.length_set]; exact m.length_lt⟩ (by
        simp only [length, List.length_set]
        omega)
    refine ⟨m', ?_, by rw [e, ← overwrite_cons hi]; rfl⟩
    rw [← hm', storeFrom]
    simp only [bind, EStateM.bind, store, toNat_add_ofNat hi, if_pos hi]

/-- **`set` inside memory** overwrites the range. -/
theorem set_eq {value : List Byte} (h : m.InRange address value.length) :
    set address value m = .ok () (m.write address value h) := by
  obtain ⟨m', hm', e⟩ := storeFrom_eq 0 value m h
  rw [set, if_neg h.not_outside, hm']
  congr 1
  cases m'
  simpa [write] using e

/-! ## Accesses that are not inside memory -/

/-- The loop of `get` throws no other exception than that of the array. -/
lemma loadFrom_error {i : ℕ} {e : Exc} (h : m.loadFrom address i n = .error e) :
    e = .arrayIndexOutOfBounds := by
  induction n generalizing i with
  | zero => cases h
  | succ n ih =>
    rw [loadFrom, load] at h
    cases hb : m.mem[(address + BitVec.ofNat 32 i).toNat]? with
    | none =>
      rw [hb] at h
      cases h
      rfl
    | some b =>
      rw [hb] at h
      cases hl : m.loadFrom address (i + 1) n with
      | error e' =>
        rw [hl] at h
        cases h
        exact ih hl
      | ok bs =>
        rw [hl] at h
        cases h

/-- The end of the range does not wrap, and is beyond the end of memory. -/
lemma outside_of_length_lt (h : m.length < address.toInt + n) (hw : ¬ Wraps address n) :
    m.outside address (BitVec.ofNat 32 n) := by
  by_cases h₀ : address.toInt < 0
  · exact .inr h₀
  · refine .inl ?_
    rw [toInt_add_ofNat (by omega) (by simp only [Wraps] at hw; omega)]
    exact h

/-- The sum wraps, and passes the test. -/
lemma not_outside_of_wraps (hn : n < 2 ^ 31) (hw : Wraps address n) :
    ¬ m.outside address (BitVec.ofNat 32 n) := by
  have hlt : address.toInt < 2 ^ 31 := BitVec.toInt_lt
  have hsum : (address + BitVec.ofNat 32 n).toInt = address.toInt + n - 2 ^ 32 := by
    rw [BitVec.toInt_add, BitVec.toInt_ofNat', Int.add_bmod_bmod, ← Int.sub_bmod_right]
    have := hw.2
    exact Int.bmod_eq_of_le (by omega) (by omega)
  have := hw.1
  rw [outside, hsum]
  simp only [length]
  omega

/-- An access that passes the test wrongly does not throw the exception of the test. -/
lemma get_ne_of_wraps (hn : n < 2 ^ 31) (hw : Wraps address n) :
    m.get address (BitVec.ofNat 32 n) ≠ .error .invalidAddress := by
  rw [get, if_neg (not_outside_of_wraps hn hw)]
  split_ifs
  · simp
  · intro h
    cases loadFrom_error h

end MainMemory

/-! ## When the promise is kept -/

open MainMemory

variable {m : MainMemory} {address : JInt} {n : ℕ}

/-- A range that is not empty is contained in memory if both its ends are. -/
lemma contained_iff (hn : 0 < n) :
    Contained m address n ↔ 0 ≤ address.toInt ∧ address.toInt + n ≤ m.length := by
  constructor
  · intro h
    have h₁ := h address.toInt (Int.le_refl _) (by omega)
    have h₂ := h (address.toInt + n - 1) (by omega) (by omega)
    omega
  · intro h x h₁ h₂
    omega

/-- An empty range is contained in every memory. -/
lemma contained_zero : Contained m address 0 := fun x h₁ h₂ => by omega

/-- A range beyond the largest `int` is not contained in memory. -/
lemma not_contained_of_wraps (hw : Wraps address n) : ¬ Contained m address n := by
  have := m.length_lt
  have hlt : address.toInt < 2 ^ 31 := BitVec.toInt_lt
  obtain ⟨h₀, h₁⟩ := hw
  rw [contained_iff (by omega)]
  simp only [MainMemory.length]
  omega

/-- A contained range lies in memory, apart from empty ranges that begin outside. -/
lemma inRange_of_contained (h : Contained m address n) (he : ¬ EmptyOutside m address n) :
    m.InRange address n := by
  have := m.length_lt
  have hends : 0 ≤ address.toInt ∧ address.toInt + n ≤ m.length := by
    rcases Nat.eq_zero_or_pos n with rfl | hn
    · simp only [EmptyOutside, true_and, not_or] at he
      omega
    · exact (contained_iff hn).mp h
  have htoInt := address.toInt_eq_toNat_cond
  have := address.isLt
  simp only [InRange]
  split_ifs at htoInt <;> omega

/-- A range that is not contained in memory does not pass the test, unless the sum wraps. -/
lemma outside_of_not_contained (h : ¬ Contained m address n) (hw : ¬ Wraps address n) :
    m.outside address (BitVec.ofNat 32 n) := by
  have hn : 0 < n := Nat.pos_of_ne_zero (by rintro rfl; exact h contained_zero)
  rw [contained_iff hn] at h
  by_cases h₀ : address.toInt < 0
  · exact .inr h₀
  · exact outside_of_length_lt (by omega) hw

/-- An empty range that begins outside of memory does not pass the test. -/
lemma outside_of_emptyOutside (h : EmptyOutside m address n) :
    m.outside address (BitVec.ofNat 32 n) := by
  obtain ⟨rfl, h | h⟩ := h
  · exact .inr h
  · exact .inl (by simpa using h)

lemma getLaw_of (hw : ¬ Wraps address n) (he : ¬ EmptyOutside m address n) :
    GetLaw m address n where
  raises h := by rw [MainMemory.get, if_pos (outside_of_not_contained h hw)]
  returns h := by
    have hin := inRange_of_contained h he
    refine ⟨_, get_eq hin, length_window hin, fun i hi => ?_⟩
    rw [getElem?_window i hi, hin.toInt_eq]
    rfl

lemma setLaw_of {value : List Byte} (hw : ¬ Wraps address value.length)
    (he : ¬ EmptyOutside m address value.length) : SetLaw m address value where
  raises h := by rw [MainMemory.set, if_pos (outside_of_not_contained h hw)]
  returns h := by
    have hin := inRange_of_contained h he
    refine ⟨_, set_eq hin, length_overwrite hin, fun j => ?_⟩
    rw [write, getElem?_overwrite hin, hin.toInt_eq]
    simp only [Int.ofNat_le, ← Int.natCast_add, Int.ofNat_lt]
    split_ifs with hj
    · congr 1
      omega
    · rfl

/-- **Bounds.** For every memory, address and array of bytes, `get` and `set` keep their promise
exactly if the end of the range is an `int` and the range, if it is empty, begins in memory or at
its end. -/
theorem laws_iff (m : MainMemory) (address : JInt) (value : List Byte)
    (hlen : value.length < 2 ^ 31) :
    (GetLaw m address value.length ∧ SetLaw m address value) ↔
      ¬ Wraps address value.length ∧ ¬ EmptyOutside m address value.length := by
  constructor
  · rintro ⟨hget, -⟩
    refine ⟨fun hw => ?_, fun he => ?_⟩
    · exact get_ne_of_wraps hlen hw (hget.raises (not_contained_of_wraps hw))
    · have hc : Contained m address value.length := he.1 ▸ contained_zero
      obtain ⟨bs, h, -⟩ := hget.returns hc
      rw [MainMemory.get, if_pos (outside_of_emptyOutside he)] at h
      cases h
  · rintro ⟨hw, he⟩
    exact ⟨getLaw_of hw he, setLaw_of hw he⟩

/-- A memory of four bytes. -/
def fourBytes : MainMemory := ⟨[1, 2, 3, 4], by decide⟩

theorem laws_fourBytes : GetLaw fourBytes 1 2 ∧ SetLaw fourBytes 1 [5, 6] :=
  (laws_iff fourBytes 1 [5, 6] (by decide)).mpr (by
    refine ⟨?_, ?_⟩
    · simp [Wraps]
    · simp [EmptyOutside])

/-- **The promise is broken** by an access to the byte at the largest `int`. -/
theorem wrapped_not_law : ¬ ∀ (m : MainMemory) (address : JInt) (value : List Byte),
    value.length < 2 ^ 31 → GetLaw m address value.length ∧ SetLaw m address value := by
  intro h
  have hget := (h fourBytes 0x7fffffff [0] (by decide)).1
  have hc : ¬ Contained fourBytes 0x7fffffff 1 := fun hc => by
    have := (contained_iff (by decide)).mp hc
    simp [fourBytes, MainMemory.length] at this
  have := hget.raises hc
  revert this
  decide

end SM213
