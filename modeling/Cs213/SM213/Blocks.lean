import Cs213.SM213.Programs

set_option relaxedAutoImplicit false
set_option autoImplicit false

/-!
# Blocks of a program

Following a program from block to block. A block is a list of instructions of which only the last
one may jump. What it does is computed from the list, and its rule leads from the states before the
block to those after it.

## Main definitions

* `SM213.Arch.after` — the state after a block.
* `SM213.Arch.Executes` — a block can be executed, and leaves the program as it is.
* `SM213.Part` — a part of a program.
* `SM213.HaltsIn` — a program runs into `halt`.

## Main results

* `SM213.Part.leads` — the rule of a block.
* `SM213.Part.haltsIn` — the rule of `halt`.
-/

namespace SM213

open MainMemory StateTransition Until

/-! ## Memory that changes -/

/-- The memories differ in the bytes with addresses in `X` at most. -/
structure MainMemory.SameOutside (X : Set ℕ) (m m' : MainMemory) : Prop where
  length_eq : m'.length = m.length
  byte_eq : ∀ j ∉ X, m'.byte j = m.byte j

/-- The addresses of the bytes of a word. -/
def bytesAt (a : JInt) : Set ℕ := Set.Ico a.toNat (a.toNat + 4)

section SameOutside

variable {m m' m'' : MainMemory} {X Y : Set ℕ} {a v : JInt}

lemma MainMemory.sameOutside_putWord : m.SameOutside (bytesAt a) (m.putWord a v) where
  length_eq := length_putWord_eq
  byte_eq j hj := byte_putWord_of_not (by simp only [bytesAt, Set.mem_Ico] at hj; omega)

lemma MainMemory.SameOutside.trans (h : m.SameOutside X m') (h' : m'.SameOutside Y m'') :
    m.SameOutside (X ∪ Y) m'' where
  length_eq := h'.length_eq.trans h.length_eq
  byte_eq j hj := by
    rw [h'.byte_eq j fun hY => hj (.inr hY), h.byte_eq j fun hX => hj (.inl hX)]

lemma MainMemory.SameOutside.mono (h : m.SameOutside X m') (hXY : X ⊆ Y) :
    m.SameOutside Y m' where
  length_eq := h.length_eq
  byte_eq j hj := h.byte_eq j fun hX => hj (hXY hX)

/-- A word that has not changed. -/
lemma MainMemory.SameOutside.word_eq (h : m.SameOutside X m') (hX : Disjoint (bytesAt a) X) :
    m'.word a = m.word a :=
  word_congr fun j hj hj' => h.byte_eq j fun hjX => Set.disjoint_left.mp hX ⟨hj, hj'⟩ hjX

end SameOutside

/-! ## Arrays -/

/-- The `n` words at an address. -/
def MainMemory.words (m : MainMemory) (a : JInt) (n : ℕ) : List JInt :=
  (List.range n).map fun i => m.word (a + 4 * BitVec.ofNat 32 i)

section Words

variable {m m' : MainMemory} {a : JInt} {n k : ℕ}

@[simp] lemma MainMemory.length_words : (m.words a n).length = n := by
  rw [words, List.length_map, List.length_range]

lemma MainMemory.getElem_words (hk : k < (m.words a n).length) :
    (m.words a n)[k] = m.word (a + 4 * BitVec.ofNat 32 k) := by
  simp only [words, List.getElem_map, List.getElem_range]

/-- The first words of an array. -/
lemma MainMemory.take_words (hk : k ≤ n) : (m.words a n).take k = m.words a k := by
  rw [words, ← List.map_take, List.take_range, Nat.min_eq_left hk]
  rfl

/-- The first word of an array and the others. -/
lemma MainMemory.words_succ : m.words a (n + 1) = m.word a :: m.words (a + 4) n := by
  rw [words, List.range_succ_eq_map, List.map_cons, List.map_map, words]
  congr 1
  · simp
  · refine List.map_congr_left fun i _ => ?_
    show m.word (a + 4 * BitVec.ofNat 32 (i + 1)) = _
    rw [BitVec.ofNat_add, BitVec.mul_add, BitVec.add_comm (4 * BitVec.ofNat 32 i),
      ← BitVec.add_assoc]
    rfl

lemma MainMemory.hasWord_element (h : a.toNat + 4 * n ≤ m.length) (hk : k < n) :
    m.HasWord (a + 4 * BitVec.ofNat 32 k) := by
  have : m.length < 2 ^ 31 := m.length_lt
  rw [HasWord, InRange, toNat_element (by omega)]
  omega

/-- Storing an element of an array. -/
lemma MainMemory.words_putWord {v : JInt} (h : a.toNat + 4 * n ≤ m.length) (hk : k < n) :
    (m.putWord (a + 4 * BitVec.ofNat 32 k) v).words a n = (m.words a n).set k v := by
  have : m.length < 2 ^ 31 := m.length_lt
  refine List.ext_getElem (by simp) fun i hi hi' => ?_
  rw [length_words] at hi
  rw [getElem_words, List.getElem_set]
  split_ifs with hki
  · rw [← hki, word_putWord (hasWord_element h hk)]
  · rw [getElem_words, word_putWord_of_disjoint]
    rw [toNat_element (by omega), toNat_element (by omega)]
    omega

/-- The bytes of an element are bytes of the array. -/
lemma bytesAt_element_subset (h : a.toNat + 4 * n ≤ m.length) (hk : k < n) :
    bytesAt (a + 4 * BitVec.ofNat 32 k) ⊆ Set.Ico a.toNat (a.toNat + 4 * n) := by
  have : m.length < 2 ^ 31 := m.length_lt
  intro j hj
  rw [bytesAt, toNat_element (by omega), Set.mem_Ico] at hj
  rw [Set.mem_Ico]
  omega

/-- An array that has not changed. -/
lemma MainMemory.SameOutside.words_eq {X : Set ℕ} (h : m.SameOutside X m')
    (ha : a.toNat + 4 * n ≤ m.length)
    (hX : Disjoint (Set.Ico a.toNat (a.toNat + 4 * n)) X) : m'.words a n = m.words a n := by
  refine List.map_congr_left fun i hi => h.word_eq ?_
  exact hX.mono_left (bytesAt_element_subset ha (List.mem_range.mp hi))

/-- Storing the words of a list, from an address on. -/
def MainMemory.putWords (m : MainMemory) (a : JInt) : List JInt → MainMemory
  | [] => m
  | w :: ws => (m.putWord a w).putWords (a + 4) ws

lemma toNat_add_four (h : a.toNat + 4 < 2 ^ 32) : (a + 4).toNat = a.toNat + 4 :=
  BitVec.toNat_add_of_lt h

/-- What a stored list of words changes. -/
lemma MainMemory.sameOutside_putWords {ws : List JInt} (h : a.toNat + 4 * ws.length ≤ m.length) :
    m.SameOutside (Set.Ico a.toNat (a.toNat + 4 * ws.length)) (m.putWords a ws) := by
  have : m.length < 2 ^ 31 := m.length_lt
  induction ws generalizing m a with
  | nil => exact ⟨rfl, fun _ _ => rfl⟩
  | cons w ws ih =>
    rw [List.length_cons] at h ⊢
    have hadd : (a + 4).toNat = a.toNat + 4 := toNat_add_four (by omega)
    refine (sameOutside_putWord.trans (ih ?_ ?_)).mono fun j hj => ?_
    · rw [hadd, length_putWord_eq]
      omega
    · rwa [length_putWord_eq]
    · simp only [bytesAt, hadd, Set.mem_union, Set.mem_Ico] at hj ⊢
      omega

/-- The words that have been stored. -/
lemma MainMemory.words_putWords {ws : List JInt} (h : a.toNat + 4 * ws.length ≤ m.length) :
    (m.putWords a ws).words a ws.length = ws := by
  have : m.length < 2 ^ 31 := m.length_lt
  induction ws generalizing m a with
  | nil => rfl
  | cons w ws ih =>
    rw [List.length_cons] at h
    have hadd : (a + 4).toNat = a.toNat + 4 := toNat_add_four (by omega)
    have hrest : (a + 4).toNat + 4 * ws.length ≤ (m.putWord a w).length := by
      rw [hadd, length_putWord_eq]
      omega
    have hfirst : (m.putWords a (w :: ws)).word a = w := by
      show ((m.putWord a w).putWords (a + 4) ws).word a = w
      rw [(sameOutside_putWords hrest).word_eq]
      · exact word_putWord (by rw [HasWord, InRange]; omega)
      · refine Set.disjoint_left.mpr fun j hj hj' => ?_
        simp only [bytesAt, hadd, Set.mem_Ico] at hj hj'
        omega
    have htail : (m.putWords a (w :: ws)).words (a + 4) ws.length = ws :=
      ih hrest (by rwa [length_putWord_eq])
    rw [List.length_cons, words_succ, hfirst, htail]

end Words

/-! ## Code that does not change -/

/-- The number of bytes of a list of instructions. -/
def codeSize (is : List Instr) : ℕ := (is.map fun i => i.size.toNat).sum

/-- The instructions `is` are in memory from the address `pc` on, and memory has `n` bytes. -/
structure Resident (n : ℕ) (pc : JInt) (is : List Instr) (m : MainMemory) : Prop where
  length_ge : n ≤ m.length
  holds : m.Holds pc is

instance (n : ℕ) (pc : JInt) (is : List Instr) (m : MainMemory) : Decidable (Resident n pc is m) :=
  decidable_of_iff (n ≤ m.length ∧ m.Holds pc is) ⟨fun ⟨h, h'⟩ => ⟨h, h'⟩, fun ⟨h, h'⟩ => ⟨h, h'⟩⟩

/-- The program `P` has the instructions `is` from the address `pc` on. -/
structure Part (P : MainMemory → Prop) (pc : JInt) (is : List Instr) : Prop where
  holds : ∀ m, P m → m.Holds pc is
  inRange : ∀ m, P m → ∀ k < is.length, m.InRange (pc + offset is k) 6

section Resident

variable {m m' : MainMemory} {a pc v : JInt} {i : Instr} {is : List Instr} {n : ℕ} {X : Set ℕ}

/-- An instruction is given by its own bytes. -/
lemma instr?_of_bytes (h : m.instr? a = some i) (ha : a.toNat + i.size.toNat < 2 ^ 32)
    (hbyte : ∀ j, a.toNat ≤ j → j < a.toNat + i.size.toNat → m'.byte j = m.byte j) :
    m'.instr? a = some i := by
  have hsize : size (hi (m.byte a.toNat)) = i.size := size_eq h
  rw [← h]
  by_cases hlong : hi (m.byte a.toNat) = 0x0 ∨ hi (m.byte a.toNat) = 0xb
  · have hsix : i.size.toNat = 6 := by rw [← hsize, size, if_pos hlong]; rfl
    have hadd : (a + 2).toNat = a.toNat + 2 :=
      BitVec.toNat_add_of_lt (by show a.toNat + 2 < 2 ^ 32; omega)
    simp only [MainMemory.instr?, MainMemory.word, hadd]
    rw [hbyte _ (by omega) (by omega), hbyte _ (by omega) (by omega),
      hbyte _ (by omega) (by omega), hbyte _ (by omega) (by omega),
      hbyte _ (by omega) (by omega), hbyte _ (by omega) (by omega)]
  · have htwo : i.size.toNat = 2 := by rw [← hsize, size, if_neg hlong]; rfl
    simp only [MainMemory.instr?]
    rw [hbyte _ (by omega) (by omega), hbyte _ (by omega) (by omega)]
    exact decode_of_short hlong _ _

/-- Instructions are given by their own bytes. -/
lemma MainMemory.Holds.of_bytes (h : m.Holds a is) (ha : a.toNat + codeSize is < 2 ^ 32)
    (hbyte : ∀ j, a.toNat ≤ j → j < a.toNat + codeSize is → m'.byte j = m.byte j) :
    m'.Holds a is := by
  induction is generalizing a with
  | nil => trivial
  | cons i is ih =>
    have hsize : codeSize (i :: is) = i.size.toNat + codeSize is := by simp [codeSize]
    have hadd : (a + i.size).toNat = a.toNat + i.size.toNat :=
      BitVec.toNat_add_of_lt (by omega)
    refine ⟨instr?_of_bytes h.1 (by omega) fun j hj hj' => hbyte j hj (by omega), ?_⟩
    exact ih h.2 (by omega) fun j hj hj' => hbyte j (by omega) (by omega)

/-- What is resident does not change with the memory outside of it. -/
lemma Resident.of_sameOutside (h : Resident n pc is m) (hX : m.SameOutside X m')
    (hpc : pc.toNat + codeSize is < 2 ^ 32)
    (hdisj : Disjoint (Set.Ico pc.toNat (pc.toNat + codeSize is)) X) : Resident n pc is m' where
  length_ge := hX.length_eq ▸ h.length_ge
  holds := h.holds.of_bytes hpc fun j hj hj' =>
    hX.byte_eq j fun hjX => Set.disjoint_left.mp hdisj ⟨hj, hj'⟩ hjX

/-- What is resident does not change when a word outside of it is stored. -/
lemma Resident.putWord (h : Resident n pc is m) (hpc : pc.toNat + codeSize is < 2 ^ 32)
    (ha : a.toNat + 4 ≤ pc.toNat ∨ pc.toNat + codeSize is ≤ a.toNat) :
    Resident n pc is (m.putWord a v) := by
  refine h.of_sameOutside sameOutside_putWord hpc (Set.disjoint_left.mpr fun j hj hja => ?_)
  simp only [bytesAt, Set.mem_Ico] at hj hja
  omega

/-- There are words below the end of what memory has. -/
lemma Resident.hasWord (h : Resident n pc is m) (ha : a.toNat + 4 ≤ n) : m.HasWord a :=
  Nat.le_trans ha h.length_ge

/-- What is resident is a part of every program that it belongs to. -/
lemma Resident.part {P : MainMemory → Prop} (hP : ∀ m, P m → Resident n pc is m)
    (hn : ∀ k < is.length, (pc + offset is k).toNat + 6 ≤ n) : Part P pc is where
  holds m hm := (hP m hm).holds
  inRange m hm k hk := Nat.le_trans (hn k hk) (hP m hm).length_ge

end Resident

/-! ## Blocks -/

/-- The state after a block. -/
def Arch.after : Arch → List Instr → Arch
  | A, [] => A
  | A, i :: is => (i.run (A.skip i)).after is

/-- The instructions of a block are executed one after the other: none of them halts, those before
the last one do not jump, the words they access are there, and the memory is one with the
program. -/
def Arch.Executes (P : MainMemory → Prop) : Arch → List Instr → Prop
  | _, [] => True
  | A, i :: is =>
    i ≠ .halt ∧ i.Enabled (A.skip i) ∧ P (i.run (A.skip i)).mem ∧
      (is ≠ [] → (i.run (A.skip i)).pc = A.pc + i.size) ∧ (i.run (A.skip i)).Executes P is

/-- The machine is at the address `pc`, with the memory `m` and with registers that have `R`. -/
def At (pc : JInt) (m : MainMemory) (R : (Fin 8 → JInt) → Prop) (s : Machine) : Prop :=
  s.pc = pc ∧ s.mem = m ∧ R s.reg

/-- The program runs from `s` into `halt`, which leaves the state `t`. -/
def HaltsIn (s t : Machine) : Prop :=
  ∃ u, Reaches Machine.step? s u ∧ cycle u = .error .machineHalt t

section Part

variable {P : MainMemory → Prop} {pc : JInt} {is : List Instr} {A : Arch} {s : Machine}
  {g : Machine → Option Machine}

@[simp] lemma offset_zero : offset is 0 = 0 := by cases is <;> rfl

/-- The instructions of a list from instruction `k` on. -/
lemma MainMemory.Holds.drop {m : MainMemory} (h : m.Holds pc is) (k : ℕ) :
    m.Holds (pc + offset is k) (is.drop k) := by
  induction is generalizing pc k with
  | nil => simp [MainMemory.Holds]
  | cons i is ih =>
    cases k with
    | zero => simpa using h
    | succ k =>
      rw [offset, ← BitVec.add_assoc]
      exact ih h.2 k

/-- The first instructions of a list. -/
lemma MainMemory.Holds.take {m : MainMemory} (h : m.Holds pc is) (n : ℕ) :
    m.Holds pc (is.take n) := by
  induction is generalizing pc n with
  | nil => simp [MainMemory.Holds]
  | cons i is ih =>
    cases n with
    | zero => trivial
    | succ n => exact ⟨h.1, ih h.2 n⟩

lemma offset_drop (k j : ℕ) : offset is k + offset (is.drop k) j = offset is (k + j) := by
  induction is generalizing k with
  | nil => simp [offset]
  | cons i is ih =>
    cases k with
    | zero => simp [offset]
    | succ k => rw [offset, List.drop_succ_cons, BitVec.add_assoc, ih, Nat.succ_add, offset]

lemma offset_take {n j : ℕ} (h : j ≤ n) : offset (is.take n) j = offset is j := by
  induction is generalizing n j with
  | nil => simp
  | cons i is ih =>
    cases j with
    | zero => simp
    | succ j =>
      obtain ⟨n, rfl⟩ : ∃ k, n = k + 1 := ⟨n - 1, by omega⟩
      rw [List.take_succ_cons, offset, offset, ih (by omega)]

/-- **A block of a part**: the `n` instructions from instruction `k` on. -/
lemma Part.block (h : Part P pc is) (pc' : JInt) (k n : ℕ) (hpc : pc + offset is k = pc') :
    Part P pc' ((is.drop k).take n) where
  holds m hm := hpc ▸ ((h.holds m hm).drop k).take n
  inRange m hm j hj := by
    rw [List.length_take, List.length_drop] at hj
    rw [← hpc, offset_take (by omega), BitVec.add_assoc, offset_drop]
    exact h.inRange m hm (k + j) (by omega)

/-- No instruction of a block is at an address at which no instruction of the whole is. -/
lemma offset_block_ne {a pc' : JInt} (h : ∀ j < is.length, pc + offset is j ≠ a) {k n : ℕ}
    (hpc : pc + offset is k = pc') :
    ∀ j < ((is.drop k).take n).length, pc' + offset ((is.drop k).take n) j ≠ a := by
  intro j hj
  rw [List.length_take, List.length_drop] at hj
  rw [← hpc, offset_take (by omega), BitVec.add_assoc, offset_drop]
  exact h (k + j) (by omega)

/-- The first instruction of a block is executed. -/
lemma Part.step {i : Instr} (h : Part P pc (i :: is)) (hpc : s.pc = pc) (hP : P s.mem)
    (he : i.Enabled (s.arch.skip i)) (hne : i ≠ .halt) :
    ∃ t, s.step? = some t ∧ t.arch = i.run (s.arch.skip i) := by
  have hin : s.mem.InRange s.pc 6 := by
    simpa [hpc] using h.inRange s.mem hP 0 (by simp)
  exact step?_instr hin (hpc ▸ (h.holds s.mem hP).1) he hne

/-- What is left of a block after its first instruction. -/
lemma Part.tail {i : Instr} (h : Part P pc (i :: is)) : Part P (pc + i.size) is where
  holds m hm := (h.holds m hm).2
  inRange m hm k hk := by
    have hin := h.inRange m hm (k + 1) (by simpa using hk)
    rwa [offset, ← BitVec.add_assoc] at hin

/-- The rule of a block, for one state. -/
lemma Part.leads_eq (h : Part P pc is)
    (hg : ∀ s : Machine, ∀ k < is.length, s.pc = pc + offset is k → g s = s.step?)
    (hpc : A.pc = pc) (hP : P A.mem) (hex : A.Executes P is) :
    Leads g (·.arch = A) (·.arch = A.after is) := by
  induction is generalizing A pc with
  | nil => exact Leads.refl _
  | cons i is ih =>
    obtain ⟨hne, he, hP', hpc', hex'⟩ := hex
    have hfirst : Leads g (·.arch = A) (·.arch = i.run (A.skip i)) := by
      rintro s rfl
      obtain ⟨t, ht, harch⟩ := h.step hpc hP he hne
      have hgs : g s = s.step? := hg s 0 (by simp) (hpc.trans (by simp))
      exact ⟨t, harch, Relation.ReflTransGen.single (hgs.trans ht)⟩
    cases is with
    | nil => exact hfirst
    | cons i' is =>
      refine hfirst.trans (ih h.tail (fun s k hk hs => ?_) ?_ hP' hex')
      · refine hg s (k + 1) (by simpa using hk) ?_
        rw [hs, BitVec.add_assoc]
        rfl
      · rw [hpc' (by simp), hpc]

/-- **The rule of a block**: it leads from the states before it to those after it. -/
theorem Part.leads {m m' : MainMemory} {pc' : JInt} {R R' : (Fin 8 → JInt) → Prop}
    (h : Part P pc is)
    (hg : ∀ s : Machine, ∀ k < is.length, s.pc = pc + offset is k → g s = s.step?) (hP : P m)
    (hblock : ∀ r, R r → Arch.Executes P ⟨pc, r, m⟩ is ∧
      ∃ r', R' r' ∧ Arch.after ⟨pc, r, m⟩ is = ⟨pc', r', m'⟩) :
    Leads g (At pc m R) (At pc' m' R') := by
  rintro s ⟨rfl, rfl, hr⟩
  obtain ⟨hex, r', hr', hafter⟩ := hblock s.reg hr
  obtain ⟨t, ht, hst⟩ := h.leads_eq hg rfl hP hex rfl
  have harch : t.arch = ⟨pc', r', m'⟩ := ht.trans hafter
  have hreg : t.reg = r' := congrArg Arch.reg harch
  exact ⟨t, ⟨congrArg Arch.pc harch, congrArg Arch.mem harch, hreg ▸ hr'⟩, hst⟩

/-- `halt` throws the exception that stops the machine. -/
lemma Part.cycle_halt (h : Part P pc (.halt :: is)) (hpc : s.pc = pc) (hP : P s.mem) :
    cycle s = .error .machineHalt s.fetched := by
  have hin : s.mem.InRange s.pc 6 := by
    simpa [hpc] using h.inRange s.mem hP 0 (by simp)
  have hi : s.instr? = some .halt := by
    have hhalt := (h.holds s.mem hP).1
    rwa [← hpc] at hhalt
  rw [cycle_eq hin hi trivial, if_pos rfl]

/-- The machine goes no further than `halt`. -/
lemma Part.step?_halt (h : Part P pc (.halt :: is)) (hpc : s.pc = pc) (hP : P s.mem) :
    s.step? = none := by
  rw [Machine.step?, h.cycle_halt hpc hP]

/-- **The rule of `halt`**: it leaves the registers and the memory as they are. -/
theorem Part.haltsIn (h : Part P pc (.halt :: is)) {u : Machine} (hu : Reaches Machine.step? s u)
    (hpc : u.pc = pc) (hP : P u.mem) : ∃ t, HaltsIn s t ∧ t.reg = u.reg ∧ t.mem = u.mem :=
  ⟨u.fetched, ⟨u, hu, h.cycle_halt hpc hP⟩, rfl, rfl⟩

end Part

/-- **A program halts in one state** at most. -/
theorem HaltsIn.unique {s t t' : Machine} (h : HaltsIn s t) (h' : HaltsIn s t') : t = t' := by
  obtain ⟨u, hu, ht⟩ := h
  obtain ⟨u', hu', ht'⟩ := h'
  have hstop : ∀ {v w w' : Machine}, cycle v = .error .machineHalt w →
      Reaches Machine.step? v w' → w' = v := by
    intro v w w' hv hvw
    rcases Relation.ReflTransGen.cases_head hvw with rfl | ⟨x, hx, -⟩
    · rfl
    · rw [Option.mem_def, step?_eq_some, hv] at hx
      cases hx
  have heq : u = u' := by
    rcases reaches_total hu hu' with huu | huu
    · exact (hstop ht huu).symm
    · exact hstop ht' huu
  subst heq
  rw [ht] at ht'
  cases ht'
  rfl

/-! ## Computing with blocks

The equations by which the state after a block of given instructions is computed. -/

namespace Compute

attribute [scoped simp] Arch.after Arch.Executes Arch.skip Arch.setReg Instr.run Instr.Enabled
  Instr.size

end Compute

end SM213
