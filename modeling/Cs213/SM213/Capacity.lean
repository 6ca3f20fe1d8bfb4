import Cs213.Library.Relational
import Cs213.SM213.Assembler

set_option relaxedAutoImplicit false
set_option autoImplicit false

/-!
# Machines with more memory

A machine with a larger memory, which begins with the bytes of a smaller one, does what the machine
with the smaller memory does, and leaves the additional bytes alone. They go different ways only
from the first access on that is outside of the smaller memory.

## Main definitions

* `SM213.Machine.Extends` — a machine with more memory.
* `SM213.Exc.OfAddress` — the exceptions of an access outside of memory.
* `SM213.Local` — what a method does, it does with more memory.
* `SM213.cycles` — a run of the machine.
* `SM213.SameRun` — two runs that go the same way.

## Main results

* `SM213.local_cycle` — one cycle.
* `SM213.sameRun_of_extends` — any number of cycles.
-/

namespace SM213

open Outcomes Relational

/-- The machine `s'` has the registers of `s`, and its memory is that of `s` followed by `tail`. -/
structure Machine.Extends (tail : List Byte) (s s' : Machine) : Prop where
  mem : s'.mem.mem = s.mem.mem ++ tail
  rest : s' = { s with mem := s'.mem }

/-- The exceptions of an access that is outside of memory. -/
def Exc.OfAddress (e : Exc) : Prop := e = .invalidAddress ∨ e = .arrayIndexOutOfBounds

section Memory

variable {tail : List Byte} {m m' m₁ : MainMemory} {address : JInt} {n : ℕ}

namespace MainMemory

lemma length_le_of_append (h : m'.mem = m.mem ++ tail) : m.length ≤ m'.length := by
  rw [length, length, h, List.length_append]
  exact Nat.le_add_right _ _

/-- What passes the test of a memory passes that of a larger one. -/
lemma not_outside_of_append {len : JInt} (h : m'.mem = m.mem ++ tail)
    (ho : ¬ m.outside address len) : ¬ m'.outside address len := by
  have hle := length_le_of_append h
  simp only [outside, not_or] at ho ⊢
  omega

lemma load_of_append {i : JInt} {b : Byte} (h : m'.mem = m.mem ++ tail) (hl : m.load i = .ok b) :
    m'.load i = .ok b := by
  unfold load at hl ⊢
  cases hb : m.mem[i.toNat]? with
  | none => rw [hb] at hl; cases hl
  | some c =>
    have hlt : i.toNat < m.mem.length := (List.getElem?_eq_some_iff.mp hb).1
    rw [h, List.getElem?_append_left hlt, hb]
    rw [hb] at hl
    exact hl

/-- The loop of `get`. -/
lemma loadFrom_of_append {i : ℕ} {bs : List Byte} (h : m'.mem = m.mem ++ tail)
    (hl : m.loadFrom address i n = .ok bs) : m'.loadFrom address i n = .ok bs := by
  induction n generalizing i bs with
  | zero => exact hl
  | succ n ih =>
    rw [loadFrom] at hl ⊢
    cases hb : m.load (address + BitVec.ofNat 32 i) with
    | error e => rw [hb] at hl; cases hl
    | ok b =>
      rw [hb] at hl
      rw [load_of_append h hb]
      cases hr : m.loadFrom address (i + 1) n with
      | error e => simp only [hr] at hl; cases hl
      | ok cs =>
        simp only [hr] at hl
        simp only [ih hr]
        exact hl

/-- **`get`** returns the same bytes from a larger memory. -/
lemma get_of_append {len : JInt} {bs : List Byte} (h : m'.mem = m.mem ++ tail)
    (hg : m.get address len = .ok bs) : m'.get address len = .ok bs := by
  unfold get at hg ⊢
  split_ifs at hg with ho hn
  rw [if_neg (not_outside_of_append h ho), if_neg hn]
  exact loadFrom_of_append h hg

/-- Its exceptions are those of an access outside of memory, if the length is not negative. -/
lemma ofAddress_of_get {len : JInt} {e : Exc} (hlen : ¬ len.toInt < 0)
    (hg : m.get address len = .error e) : e.OfAddress := by
  unfold get at hg
  split_ifs at hg
  · cases hg
    exact .inl rfl
  · exact .inr (loadFrom_error hg)

/-- The loop of `set`. -/
lemma storeFrom_of_append {i : ℕ} {value : List Byte} (h : m'.mem = m.mem ++ tail)
    (hs : storeFrom address i value m = .ok () m₁) :
    ∃ m₁', storeFrom address i value m' = .ok () m₁' ∧ m₁'.mem = m₁.mem ++ tail := by
  induction value generalizing i m m' with
  | nil =>
    cases hs
    exact ⟨m', rfl, h⟩
  | cons b bs ih =>
    simp only [storeFrom, store, bind, EStateM.bind] at hs ⊢
    split_ifs at hs with hi
    have hi' : (address + BitVec.ofNat 32 i).toNat < m'.mem.length :=
      Nat.lt_of_lt_of_le hi (length_le_of_append h)
    simp only [if_pos hi']
    refine ih ?_ hs
    simp only [h, List.set_append_left _ _ hi]

lemma ofAddress_of_storeFrom {i : ℕ} {value : List Byte} {e : Exc}
    (hs : storeFrom address i value m = .error e m₁) : e.OfAddress := by
  induction value generalizing i m with
  | nil => cases hs
  | cons b bs ih =>
    simp only [storeFrom, store, bind, EStateM.bind] at hs
    split_ifs at hs
    · exact ih hs
    · cases hs
      exact .inr rfl

end MainMemory

end Memory

section Methods

variable {tail : List Byte} {α : Type}

/-- What a method does in a machine, it does in one with more memory, unless it accesses what is
outside of the memory of the first. -/
abbrev Local (tail : List Byte) (x : CpuM α) : Prop :=
  Simulates (Machine.Extends tail) Exc.OfAddress x x

/-- A method that looks at a register. -/
lemma local_get {f : Machine → CpuM α} (h : ∀ s, Local tail (f s))
    (hf : ∀ s m, f { s with mem := m } = f s) : Local tail (get >>= f) := by
  refine simulates_get fun s s' hs => ?_
  have heq : f s' = f s := by
    rw [hs.rest]
    exact hf s s'.mem
  rw [heq]
  exact h s

lemma local_pcGet : Local tail pcGet := local_get (fun s => simulates_pure s.pc) fun _ _ => rfl

lemma local_insOp0Get : Local tail insOp0Get :=
  local_get (fun s => simulates_pure (s.insOp0.setWidth 32)) fun _ _ => rfl

lemma local_insOp1Get : Local tail insOp1Get :=
  local_get (fun s => simulates_pure (s.insOp1.setWidth 32)) fun _ _ => rfl

lemma local_insOp2Get : Local tail insOp2Get :=
  local_get (fun s => simulates_pure (s.insOp2.setWidth 32)) fun _ _ => rfl

lemma local_insOpImmGet : Local tail insOpImmGet :=
  local_get (fun s => simulates_pure (s.insOpImm.signExtend 32)) fun _ _ => rfl

lemma local_insOpExtGet : Local tail insOpExtGet :=
  local_get (fun s => simulates_pure s.insOpExt) fun _ _ => rfl

/-- A method that stores to registers. -/
lemma local_modify {f : Machine → Machine} (hmem : ∀ s, (f s).mem = s.mem)
    (hf : ∀ s m, f { s with mem := m } = { f s with mem := m }) :
    Local tail (modify f : CpuM Unit) := by
  refine simulates_modify fun s s' hs => ⟨?_, ?_⟩
  · rw [hmem, hmem, hs.mem]
  · rw [hmem]
    conv_lhs => rw [hs.rest, hf]

lemma local_pcSet (v : JInt) : Local tail (pcSet v) := local_modify (fun _ => rfl) fun _ _ => rfl

lemma local_regGet (r : JInt) : Local tail (regGet r) := by
  intro s s' hs
  rw [hs.rest]
  by_cases hr : r.toNat < 8
  · exact .of_ok (dif_pos hr) ⟨s', by rw [hs.rest]; exact dif_pos hr, hs⟩
  · exact .of_error (dif_neg hr) (.inr ⟨s', by rw [hs.rest]; exact dif_neg hr, hs⟩)

lemma local_regSet (r v : JInt) : Local tail (regSet r v) := by
  intro s s' hs
  rw [hs.rest]
  by_cases hr : r.toNat < 8
  · exact .of_ok (dif_pos hr) ⟨_, dif_pos hr, hs.mem, rfl⟩
  · exact .of_error (dif_neg hr) (.inr ⟨s', by rw [hs.rest]; exact dif_neg hr, hs⟩)

/-- A method that reads memory. -/
lemma local_reading {x : MainMemory → Except Exc α}
    (hok : ∀ m m' a, m'.mem = m.mem ++ tail → x m = .ok a → x m' = .ok a)
    (herror : ∀ m e, x m = .error e → e.OfAddress) : Local tail (reading x) := by
  intro s s' hs
  cases hx : x s.mem with
  | ok a =>
    have hread : reading x s = .ok a s := by simp only [reading, hx]
    exact .of_ok hread ⟨s', by simp only [reading, hok _ _ a hs.mem hx], hs⟩
  | error e =>
    have hread : reading x s = .error e s := by simp only [reading, hx]
    exact .of_error hread (.inl (herror _ e hx))

/-- A method that writes memory. -/
lemma local_changing {x : EStateM Exc MainMemory Unit}
    (hok : ∀ m m' m₁, m'.mem = m.mem ++ tail → x m = .ok () m₁ →
      ∃ m₁', x m' = .ok () m₁' ∧ m₁'.mem = m₁.mem ++ tail)
    (herror : ∀ m m₁ e, x m = .error e m₁ → e.OfAddress) : Local tail (changing x) := by
  intro s s' hs
  cases hx : x s.mem with
  | ok a m₁ =>
    obtain ⟨m₁', hx', hm⟩ := hok _ _ m₁ hs.mem hx
    have hwrite : changing x s = .ok () { s with mem := m₁ } := by simp only [changing, hx]
    refine .of_ok hwrite ⟨{ s' with mem := m₁' }, ?_, hm, ?_⟩
    · simp only [changing, hx']
    · conv_lhs => rw [hs.rest]
  | error e m₁ =>
    have hwrite : changing x s = .error e { s with mem := m₁ } := by simp only [changing, hx]
    exact .of_error hwrite (.inl (herror _ m₁ e hx))

lemma local_readUnaliged (a len : JInt) (hlen : ¬ len.toInt < 0) :
    Local tail (reading (·.readUnaliged a len)) :=
  local_reading (fun _ _ _ h hg => MainMemory.get_of_append h hg) fun _ _ hg =>
    MainMemory.ofAddress_of_get hlen hg

lemma local_readIntegerUnaligned (a : JInt) :
    Local tail (reading (·.readIntegerUnaligned a)) := by
  refine local_reading (fun m m' v h hv => ?_) fun m e hv => ?_
  · unfold MainMemory.readIntegerUnaligned at hv ⊢
    cases hg : m.get a 4 with
    | error e => rw [hg] at hv; cases hv
    | ok bs =>
      rw [hg] at hv
      rw [MainMemory.get_of_append h hg]
      exact hv
  · unfold MainMemory.readIntegerUnaligned at hv
    cases hg : m.get a 4 with
    | ok bs => rw [hg] at hv; cases hv
    | error e' =>
      rw [hg] at hv
      cases hv
      exact MainMemory.ofAddress_of_get (by decide) hg

lemma local_readInteger (a : JInt) : Local tail (reading (·.readInteger a)) := by
  by_cases ha : MainMemory.isAccessAligned a 4
  · have heq : (fun m : MainMemory => m.readInteger a) = (·.readIntegerUnaligned a) :=
      funext fun _ => if_pos ha
    rw [heq]
    exact local_readIntegerUnaligned a
  · have heq : (fun m : MainMemory => m.readInteger a) = fun _ => .error .invalidAddress :=
      funext fun _ => if_neg ha
    rw [heq]
    exact local_reading nofun fun _ _ h => by cases h; exact .inl rfl

lemma local_writeIntegerUnaligned (a v : JInt) :
    Local tail (changing (MainMemory.writeIntegerUnaligned a v)) := by
  refine local_changing (fun m m' m₁ h hs => ?_) fun m m₁ e hs => ?_
  · unfold MainMemory.writeIntegerUnaligned MainMemory.set at hs ⊢
    split_ifs at hs with ho
    rw [if_neg (MainMemory.not_outside_of_append h ho)]
    exact MainMemory.storeFrom_of_append h hs
  · unfold MainMemory.writeIntegerUnaligned MainMemory.set at hs
    split_ifs at hs
    · cases hs
      exact .inl rfl
    · exact MainMemory.ofAddress_of_storeFrom hs

lemma local_writeInteger (a v : JInt) : Local tail (changing (MainMemory.writeInteger a v)) := by
  unfold MainMemory.writeInteger
  split_ifs
  · exact local_writeIntegerUnaligned a v
  · exact local_changing nofun fun _ _ _ h => by cases h; exact .inl rfl

end Methods

/-! ## A cycle -/

section Cycle

variable {tail : List Byte}

/-- `fetch` -/
lemma local_fetch : Local tail fetch := by
  refine local_pcGet.bind fun baseAddress => ?_
  refine (local_readIntegerUnaligned baseAddress).bind fun high => ?_
  refine (local_readIntegerUnaligned (baseAddress + 2)).bind fun low => ?_
  refine Simulates.bind (local_modify ?_ ?_) fun _ => ?_
  · exact fun _ => rfl
  · exact fun _ _ => rfl
  refine (local_readUnaliged baseAddress 6 (by decide)).bind fun insArr => ?_
  refine Simulates.bind (local_modify ?_ ?_) fun _ => ?_
  · exact fun _ => rfl
  · exact fun _ _ => rfl
  refine Simulates.ite ?_ (local_pcSet _)
  refine (local_readIntegerUnaligned (baseAddress + 2)).bind fun ext => local_modify ?_ ?_
  · exact fun _ => rfl
  · exact fun _ _ => rfl

/-- The ALU instructions. -/
lemma local_executeAlu : Local tail executeAlu := by
  refine local_get (fun s => ?_) fun _ _ => rfl
  split
  · exact local_insOp1Get.bind fun _ => local_insOp2Get.bind fun _ =>
      (local_regGet _).bind fun _ => local_regSet _ _
  · exact local_insOp1Get.bind fun _ => local_insOp2Get.bind fun _ =>
      (local_regGet _).bind fun _ => (local_regGet _).bind fun _ => local_regSet _ _
  · exact local_insOp1Get.bind fun _ => local_insOp2Get.bind fun _ =>
      (local_regGet _).bind fun _ => (local_regGet _).bind fun _ => local_regSet _ _
  · exact local_insOp2Get.bind fun _ => (local_regGet _).bind fun _ => local_regSet _ _
  · exact local_insOp2Get.bind fun _ => (local_regGet _).bind fun _ => local_regSet _ _
  · exact local_insOp2Get.bind fun _ => (local_regGet _).bind fun _ => local_regSet _ _
  · exact local_insOp2Get.bind fun _ => (local_regGet _).bind fun _ => local_regSet _ _
  · exact local_insOp2Get.bind fun _ => (local_regGet _).bind fun _ => local_regSet _ _
  · exact local_insOp1Get.bind fun _ => local_insOp2Get.bind fun _ =>
      local_pcGet.bind fun _ => local_regSet _ _
  · exact simulates_pure _

/-- `execute` -/
lemma local_execute : Local tail execute := by
  refine local_get (fun s => ?_) fun _ _ => rfl
  split
  · exact local_insOp0Get.bind fun _ => local_insOpExtGet.bind fun _ => local_regSet _ _
  · exact local_insOp1Get.bind fun _ => local_insOp2Get.bind fun _ =>
      local_insOp0Get.bind fun _ => (local_regGet _).bind fun _ =>
      (local_readIntegerUnaligned _).bind fun _ => local_regSet _ _
  · exact local_insOp2Get.bind fun _ => local_insOp0Get.bind fun _ =>
      local_insOp1Get.bind fun _ => (local_regGet _).bind fun _ =>
      (local_regGet _).bind fun _ =>
      (local_readIntegerUnaligned _).bind fun _ => local_regSet _ _
  · exact local_insOp0Get.bind fun _ => local_insOp2Get.bind fun _ =>
      local_insOp1Get.bind fun _ => (local_regGet _).bind fun _ =>
      (local_regGet _).bind fun _ => local_writeIntegerUnaligned _ _
  · exact local_insOp0Get.bind fun _ => local_insOp1Get.bind fun _ =>
      local_insOp2Get.bind fun _ => (local_regGet _).bind fun _ =>
      (local_regGet _).bind fun _ => (local_regGet _).bind fun _ => local_writeInteger _ _
  · exact local_executeAlu
  · exact local_insOp0Get.bind fun _ => local_insOpImmGet.bind fun _ =>
      .ite (local_regSet _ _) (local_regSet _ _)
  · exact local_insOpImmGet.bind fun _ => local_pcGet.bind fun _ => local_pcSet _
  · exact local_insOp0Get.bind fun _ => (local_regGet _).bind fun _ =>
      .ite (local_insOpImmGet.bind fun _ => local_pcGet.bind fun _ => local_pcSet _)
        (simulates_pure _)
  · exact local_insOp0Get.bind fun _ => (local_regGet _).bind fun _ =>
      .ite (local_insOpImmGet.bind fun _ => local_pcGet.bind fun _ => local_pcSet _)
        (simulates_pure _)
  · exact local_insOpExtGet.bind fun _ => local_pcSet _
  · exact local_insOpImmGet.bind fun _ => local_insOp0Get.bind fun _ =>
      (local_regGet _).bind fun _ => local_pcSet _
  · exact local_insOp0Get.bind fun _ => (local_regGet _).bind fun _ =>
      local_insOpImmGet.bind fun _ => (local_readInteger _).bind fun _ => local_pcSet _
  · exact local_insOp0Get.bind fun _ => (local_regGet _).bind fun _ =>
      local_insOp1Get.bind fun _ => (local_regGet _).bind fun _ =>
      (local_readInteger _).bind fun _ => local_pcSet _
  · refine local_get (fun s => ?_) fun _ _ => rfl
    split
    · exact simulates_throw _
    · exact simulates_pure _
  · exact simulates_throw _

/-- **A cycle.** -/
theorem local_cycle : Local tail cycle := local_fetch.bind fun _ => local_execute

end Cycle

/-! ## Runs -/

/-- A run of the machine: `n` cycles. -/
def cycles (n : ℕ) : CpuM Unit := iterate cycle n

/-- **Two runs that go the same way.** As long as the first machine does not access what is outside
of its memory, the second one ends its cycles when the first does, with the same registers, the same
exception if there is one, the same bytes in the memory that both have, and the other bytes as they
were. -/
structure SameRun (tail : List Byte) (s s' : Machine) : Prop where
  returns : ∀ n t, cycles n s = .ok () t → ∃ t', cycles n s' = .ok () t' ∧ t.Extends tail t'
  raises : ∀ n e t, cycles n s = .error e t → ¬ e.OfAddress →
    ∃ t', cycles n s' = .error e t' ∧ t.Extends tail t'

/-- **More memory makes no difference** to a program that does not access what is outside of its
memory. -/
theorem sameRun_of_extends {tail : List Byte} {s s' : Machine} (h : s.Extends tail s') :
    SameRun tail s s' where
  returns n _ ht := (local_cycle.iterate n h).value ht
  raises n _ _ ht he := ((local_cycle.iterate n h).exception ht).resolve_left he

/-- `ld $7, r0` and `halt`, and what else `fetch` reads. -/
def loadAndHalt : List Byte := [0, 0, 0, 0, 0, 7, 0xf0, 0, 0, 0, 0, 0]

/-- The program in a memory of twelve bytes, and in one of fourteen. -/
theorem sameRun_loadAndHalt :
    SameRun [1, 2] (boot 0 (fun _ => 0) ⟨loadAndHalt, by decide⟩)
      (boot 0 (fun _ => 0) ⟨loadAndHalt ++ [1, 2], by decide⟩) :=
  sameRun_of_extends ⟨rfl, rfl⟩

end SM213
