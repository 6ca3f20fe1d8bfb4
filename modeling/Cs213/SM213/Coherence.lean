import Cs213.Library.Runs
import Cs213.SM213.Cycle

set_option relaxedAutoImplicit false
set_option autoImplicit false

/-!
# Memory after a history of writes

A memory that is written to again and again, with ranges that may overlap in any way, holds in
each byte what was written there last.

## Main definitions

* `SM213.Write` — a call of `set`; `SM213.Write.ofInteger` is the one that writes a word.
* `SM213.lastWritten` — what a history of calls has written last at an address.
* `SM213.Coherent` — memory is what its history says.

## Main results

* `SM213.coherent_of_history` — memory is coherent after every history of writes inside memory.

## Implementation notes

A history is a run of `Runs.run`: it has a last memory only if none of its calls throws.
-/

namespace SM213

open Bytes MainMemory Runs

/-! ## Histories -/

/-- `new MainMemory (byteCapacity)`. -/
def MainMemory.ofCapacity (byteCapacity : ℕ) (h : byteCapacity < 2 ^ 31) : MainMemory :=
  ⟨List.replicate byteCapacity 0, by rwa [List.length_replicate]⟩

/-- A call of `set`. -/
structure Write where
  address : JInt
  value : List Byte

namespace Write

/-- The call that writes a word. -/
def ofInteger (a v : JInt) : Write := ⟨a, integerToBytes v⟩

/-- The range that is written lies in a memory of this capacity. -/
def InCapacity (byteCapacity : ℕ) (w : Write) : Prop :=
  w.address.toNat + w.value.length ≤ byteCapacity

instance (byteCapacity : ℕ) (w : Write) : Decidable (w.InCapacity byteCapacity) :=
  inferInstanceAs (Decidable (_ ≤ _))

/-- The ranges that are written do not overlap. -/
def Disjoint (w w' : Write) : Prop :=
  w.address.toNat + w.value.length ≤ w'.address.toNat ∨
    w'.address.toNat + w'.value.length ≤ w.address.toNat

/-- What the call writes at an address. -/
def at? (w : Write) (j : ℕ) : Option Byte :=
  if w.address.toNat ≤ j then w.value[j - w.address.toNat]? else none

/-- The memory after the call, unless it throws an exception. -/
def step (m : MainMemory) (w : Write) : Option MainMemory :=
  match MainMemory.set w.address w.value m with
  | .ok _ m' => some m'
  | .error _ _ => none

end Write

/-- **What was written last** at an address, and `0` if nothing was. -/
def lastWritten (ws : List Write) (j : ℕ) : Byte := (ws.reverse.findSome? (·.at? j)).getD 0

/-- **Coherence.** The memory `m` is what the history `ws` has made of it, its words are the
signed values of their bytes, and writing and reading words are what they should be. -/
structure Coherent (ws : List Write) (m : MainMemory) : Prop where
  /-- Every byte that is read is the one written last. -/
  get_eq : ∀ a n, m.InRange a n → m.get a (BitVec.ofNat 32 n) =
    .ok ((List.range n).map fun i => lastWritten ws (a.toNat + i))
  /-- A word is the signed value of its four bytes. -/
  integer_eq : ∀ a, m.InRange a 4 → ∃ b₀ b₁ b₂ b₃, m.get a 4 = .ok [b₀, b₁, b₂, b₃] ∧
    (bytesToInteger b₀ b₁ b₂ b₃).toInt = Int.bmod
      (b₀.toNat * 2 ^ 24 + b₁.toNat * 2 ^ 16 + b₂.toNat * 2 ^ 8 + b₃.toNat) (2 ^ 32)
  /-- A word that has been written reads back as itself. -/
  readBack : ∀ a v, m.InRange a 4 → ∃ m' b₀ b₁ b₂ b₃, (Write.ofInteger a v).step m = some m' ∧
    m'.get a 4 = .ok [b₀, b₁, b₂, b₃] ∧ bytesToInteger b₀ b₁ b₂ b₃ = v
  /-- Writes to disjoint ranges commute. -/
  commute : ∀ w w' : Write, w.InCapacity m.length → w'.InCapacity m.length → w.Disjoint w' →
    ∃ m', run Write.step m [w, w'] = some m' ∧ run Write.step m [w', w] = some m'
  /-- Writing back what was read changes nothing. -/
  writeBack : ∀ a, m.InRange a 4 → ∃ b₀ b₁ b₂ b₃, m.get a 4 = .ok [b₀, b₁, b₂, b₃] ∧
    (Write.ofInteger a (bytesToInteger b₀ b₁ b₂ b₃)).step m = some m

/-! ## Reading and writing words -/

section Words

variable {m : MainMemory} {a v : JInt}

lemma bytesToInteger_eq (b₀ b₁ b₂ b₃ : Byte) : bytesToInteger b₀ b₁ b₂ b₃ = beWord b₀ b₁ b₂ b₃ :=
  (beWord_eq_sum b₀ b₁ b₂ b₃).symm

/-- The four bytes that are read at an address. -/
lemma get_four (h : m.InRange a 4) : m.get a 4 =
    .ok [m.byte a.toNat, m.byte (a.toNat + 1), m.byte (a.toNat + 2), m.byte (a.toNat + 3)] := by
  have hget : m.get a 4 = .ok (window m.mem a.toNat 4) := MainMemory.get_eq h
  have hlen : (window m.mem a.toNat 4).length = 4 := length_window h
  rw [hget]
  congr 1
  apply List.ext_getElem
  · rw [hlen]
    rfl
  · intro i hi hi'
    have hi₀ : i < 4 := by omega
    have hbyte := getD_window (m := m) (a := a) hi₀
    rw [List.getD_eq_getElem?_getD, List.getElem?_eq_getElem hi, Option.getD_some] at hbyte
    rw [hbyte]
    match i, hi₀ with
    | 0, _ | 1, _ | 2, _ | 3, _ => rfl

/-- A call of `set` inside memory. -/
lemma Write.step_eq {w : Write} (h : m.InRange w.address w.value.length) :
    w.step m = some (m.write w.address w.value h) := by
  unfold Write.step
  rw [MainMemory.set_eq h]

/-- The call that writes a word. -/
lemma step_ofInteger (h : m.InRange a 4) :
    (Write.ofInteger a v).step m = some (m.putWord a v) := by
  have hset : MainMemory.set a (integerToBytes v) m = .ok () (m.putWord a v) :=
    writeIntegerUnaligned_eq h
  unfold Write.step
  show (match MainMemory.set a (integerToBytes v) m with
    | .ok _ m' => some m'
    | .error _ _ => none) = _
  rw [hset]

lemma length_write {value : List Byte} (h : m.InRange a value.length) :
    (m.write a value h).length = m.length :=
  length_overwrite h

/-- Two writes to disjoint ranges, in either order. -/
lemma write_comm {b : JInt} {bs cs : List Byte} (hb : m.InRange a bs.length)
    (hc : m.InRange b cs.length)
    (hd : a.toNat + bs.length ≤ b.toNat ∨ b.toNat + cs.length ≤ a.toNat)
    {hc' : (m.write a bs hb).InRange b cs.length} {hb' : (m.write b cs hc).InRange a bs.length} :
    (m.write a bs hb).write b cs hc' = (m.write b cs hc).write a bs hb' := by
  simp only [MainMemory.write, MainMemory.mk.injEq]
  exact overwrite_comm hb hc hd

lemma length_putWord (h : m.InRange a 4) : (m.putWord a v).length = m.length := by
  rw [putWord_eq h]
  exact length_overwrite h

/-- A word is the signed value of its bytes. -/
lemma toInt_bytesToInteger (b₀ b₁ b₂ b₃ : Byte) : (bytesToInteger b₀ b₁ b₂ b₃).toInt = Int.bmod
    (b₀.toNat * 2 ^ 24 + b₁.toNat * 2 ^ 16 + b₂.toNat * 2 ^ 8 + b₃.toNat) (2 ^ 32) := by
  rw [bytesToInteger_eq, BitVec.toInt_eq_toNat_bmod, toNat_beWord]
  rfl

/-- **Reading back** a word that has been written. -/
lemma bytesToInteger_putWord (h : m.InRange a 4) : bytesToInteger ((m.putWord a v).byte a.toNat)
    ((m.putWord a v).byte (a.toNat + 1)) ((m.putWord a v).byte (a.toNat + 2))
    ((m.putWord a v).byte (a.toNat + 3)) = v := by
  rw [bytesToInteger_eq]
  exact word_putWord h

/-- **Writing back** a word that has been read. -/
lemma putWord_bytesToInteger (h : m.InRange a 4) : m.putWord a (bytesToInteger (m.byte a.toNat)
    (m.byte (a.toNat + 1)) (m.byte (a.toNat + 2)) (m.byte (a.toNat + 3))) = m := by
  have hwin : window m.mem a.toNat 4 =
      [m.byte a.toNat, m.byte (a.toNat + 1), m.byte (a.toNat + 2), m.byte (a.toNat + 3)] := by
    have hget : m.get a 4 = .ok (window m.mem a.toNat 4) := MainMemory.get_eq h
    exact Except.ok.inj (hget.symm.trans (get_four h))
  rw [putWord_eq h]
  cases m
  simp only [MainMemory.write, bytesToInteger_eq, beBytes_beWord, MainMemory.mk.injEq]
  rw [← hwin]
  exact overwrite_window h

end Words

/-! ## Coherence -/

/-- Every byte of the memory is the one written last. -/
def Remembers (ws : List Write) (m : MainMemory) : Prop :=
  ∀ j < m.length, m.mem[j]? = some (lastWritten ws j)

section Remembers

variable {ws : List Write} {w : Write} {m : MainMemory}

/-- The last call of a history decides where it writes. -/
lemma lastWritten_concat (j : ℕ) :
    lastWritten (ws ++ [w]) j = (w.at? j).getD (lastWritten ws j) := by
  unfold lastWritten
  rw [List.reverse_concat, List.findSome?_cons]
  cases w.at? j with
  | none => rfl
  | some b => rfl

lemma remembers_ofCapacity (byteCapacity : ℕ) (h : byteCapacity < 2 ^ 31) :
    Remembers [] (.ofCapacity byteCapacity h) := by
  intro j hj
  have hj' : j < byteCapacity := by simpa [MainMemory.ofCapacity, MainMemory.length] using hj
  simp [MainMemory.ofCapacity, lastWritten, hj']

/-- **One more call** of `set`. -/
lemma Remembers.write (hm : Remembers ws m) (h : m.InRange w.address w.value.length) :
    Remembers (ws ++ [w]) (m.write w.address w.value h) := by
  intro j hj
  rw [length_write h] at hj
  rw [lastWritten_concat, Write.at?]
  unfold MainMemory.write
  rw [getElem?_overwrite h]
  by_cases hin : w.address.toNat ≤ j ∧ j < w.address.toNat + w.value.length
  · -- the byte is written by this call
    have hlt : j - w.address.toNat < w.value.length := by omega
    rw [if_pos hin, if_pos hin.1, List.getElem?_eq_getElem hlt]
    rfl
  · have hnone : (if w.address.toNat ≤ j then w.value[j - w.address.toNat]? else none) = none := by
      split_ifs with hle
      · exact List.getElem?_eq_none (by omega)
      · rfl
    rw [if_neg hin, hnone]
    exact hm j hj

/-- What is read from a memory that remembers its history. -/
lemma Remembers.get_eq (hm : Remembers ws m) {a : JInt} {n : ℕ} (h : m.InRange a n) :
    m.get a (BitVec.ofNat 32 n) =
      .ok ((List.range n).map fun i => lastWritten ws (a.toNat + i)) := by
  have hlen : (window m.mem a.toNat n).length = n := length_window h
  rw [MainMemory.get_eq h]
  congr 1
  apply List.ext_getElem
  · rw [hlen, List.length_map, List.length_range]
  · intro i hi hi'
    have hi₀ : i < n := by omega
    have hj : a.toNat + i < m.length := by
      simp only [InRange] at h
      omega
    have hbyte := hm _ hj
    rw [← getElem?_window i hi₀, List.getElem?_eq_getElem hi] at hbyte
    rw [Option.some.inj hbyte, List.getElem_map, List.getElem_range]

/-- **Coherence** of a memory that remembers its history. -/
lemma Remembers.coherent (hm : Remembers ws m) : Coherent ws m where
  get_eq _ _ h := hm.get_eq h
  integer_eq _ h := ⟨_, _, _, _, get_four h, toInt_bytesToInteger _ _ _ _⟩
  readBack a v h := by
    have h' : (m.putWord a v).InRange a 4 := by
      simp only [InRange, length_putWord h]
      exact h
    exact ⟨_, _, _, _, _, step_ofInteger h, get_four h', bytesToInteger_putWord h⟩
  commute w w' h h' hd := by
    have hw : m.InRange w.address w.value.length := h
    have hw' : m.InRange w'.address w'.value.length := h'
    have h₁ : (m.write w.address w.value hw).InRange w'.address w'.value.length := by
      simp only [InRange, length_write hw]
      exact h'
    have h₂ : (m.write w'.address w'.value hw').InRange w.address w.value.length := by
      simp only [InRange, length_write hw']
      exact h
    refine ⟨(m.write w.address w.value hw).write w'.address w'.value h₁, ?_, ?_⟩
    · simp only [run_cons, run_nil, Write.step_eq hw, Option.bind_some, Write.step_eq h₁]
    · simp only [run_cons, run_nil, Write.step_eq hw', Option.bind_some, Write.step_eq h₂]
      rw [write_comm hw hw' hd]
  writeBack a h := by
    refine ⟨_, _, _, _, get_four h, ?_⟩
    rw [step_ofInteger h, putWord_bytesToInteger h]

end Remembers

/-- A history of writes inside memory ends, in a memory of the same capacity that remembers it. -/
lemma remembers_of_history (byteCapacity : ℕ) (hcap : byteCapacity < 2 ^ 31) (ws : List Write)
    (h : ∀ w ∈ ws, w.InCapacity byteCapacity) :
    ∃ m, run Write.step (.ofCapacity byteCapacity hcap) ws = some m ∧ m.length = byteCapacity ∧
      Remembers ws m := by
  induction ws using List.reverseRecOn with
  | nil => exact ⟨_, rfl, List.length_replicate, remembers_ofCapacity byteCapacity hcap⟩
  | append_singleton ws w ih =>
    obtain ⟨m, hrun, hlen, hm⟩ := ih fun w' hw' => h w' (List.mem_append_left _ hw')
    have hw : m.InRange w.address w.value.length := by
      simp only [InRange, hlen]
      exact h w List.mem_concat_self
    refine ⟨m.write w.address w.value hw, ?_, (length_write hw).trans hlen, hm.write hw⟩
    exact run_concat.mpr ⟨m, hrun, Write.step_eq hw⟩

/-- **Coherence.** For every capacity and every history of calls of `set` inside memory, no call
throws, and memory is coherent afterwards. -/
theorem coherent_of_history (byteCapacity : ℕ) (hcap : byteCapacity < 2 ^ 31) (ws : List Write)
    (h : ∀ w ∈ ws, w.InCapacity byteCapacity) :
    ∃ m, run Write.step (.ofCapacity byteCapacity hcap) ws = some m ∧ m.length = byteCapacity ∧
      Coherent ws m := by
  obtain ⟨m, hrun, hlen, hm⟩ := remembers_of_history byteCapacity hcap ws h
  exact ⟨m, hrun, hlen, hm.coherent⟩

/-- Two words that overlap. -/
theorem coherent_overlapping : ∃ m, run Write.step (.ofCapacity 8 (by decide))
    [.ofInteger 1 0xff000080, .ofInteger 3 0x01020304] = some m ∧ m.length = 8 ∧
      Coherent [.ofInteger 1 0xff000080, .ofInteger 3 0x01020304] m :=
  coherent_of_history 8 (by decide) _ (by decide)

end SM213
