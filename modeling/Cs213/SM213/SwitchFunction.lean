import Cs213.Library.Compare
import Cs213.SM213.JumpTable

set_option relaxedAutoImplicit false
set_option autoImplicit false

/-!
# A function with a switch

The function `foo` of `A5-c.s` takes three arguments from the stack, jumps through a table with nine
entries and returns to the address in register 6.

## Main definitions

* `SM213.SwitchFunction.foo` — the function, as it is in `A5-c.c`.
* `SM213.SwitchFunction.code`, `SM213.SwitchFunction.caseCode`, `SM213.SwitchFunction.table` — the
  function, as it is in `A5-c.s`.

## Main results

* `SM213.SwitchFunction.foo_returns` — the code returns what the function does, for all arguments.
-/

namespace SM213

open Bytes Compare Compute MainMemory StateTransition Until

namespace SwitchFunction

/-! ## The function -/

/-- `foo`, with arithmetic modulo `2 ^ 32`. -/
def foo (arg0 arg1 arg2 : JInt) : JInt :=
  match arg0.toInt with
  | 10 => arg1 + arg2
  | 12 => arg1 - arg2
  | 14 => if 0 < (arg1 - arg2).toInt then 1 else 0
  | 16 => if 0 < (arg2 - arg1).toInt then 1 else 0
  | 18 => if arg1 - arg2 = 0 then 1 else 0
  | _ => 0

/-! ## The code -/

/-- `foo`, at `0x300`. -/
def code : List Instr := [
  .loadBase 0 5 0,         -- r0 = arg0
  .loadBase 1 5 1,         -- r1 = arg1
  .loadBase 2 5 2,         -- r2 = arg2
  .loadImm 3 0xfffffff6,   -- r3 = -10
  .add 3 0,                -- r0 = arg0 - 10
  .mov 0 3,                -- r3 = arg0 - 10
  .not 3,
  .inc 3,                  -- r3 = r3 * -1
  .bgt 3 0x37,             -- if arg0 < 10 GOTO L6
  .mov 0 3,                -- r3 = arg0 - 10
  .loadImm 4 0xfffffff8,   -- r4 = -8
  .add 4 3,                -- r3 = arg0 - 18
  .bgt 3 0x31,             -- if arg0 > 18 GOTO L6
  .loadImm 3 0x400,        -- switch setup
  .jDoubleIndexed 3 0]     -- switch (arg0 - 10)

/-- The cases, at `0x330`. -/
def caseCode : List Instr := [
  .add 1 2,
  .br 0x2c,                -- L7
  .not 2,                  -- 0x334
  .inc 2,
  .add 1 2,
  .br 0x28,                -- L7
  .not 2,                  -- 0x33c
  .inc 2,
  .add 1 2,
  .bgt 2 0x4,              -- L0
  .loadImm 2 0x0,
  .br 0x3,                 -- L1
  .loadImm 2 0x1,          -- L0, 0x34c
  .br 0x1c,                -- L1, 0x352: L7
  .not 1,                  -- 0x354
  .inc 1,
  .add 2 1,
  .bgt 1 0x4,              -- L2
  .loadImm 2 0x0,
  .br 0x3,                 -- L3
  .loadImm 2 0x1,          -- L2, 0x364
  .br 0x10,                -- L3, 0x36a: L7
  .not 2,                  -- 0x36c
  .inc 2,
  .add 1 2,
  .beq 2 0x4,              -- L4
  .loadImm 2 0x0,
  .br 0x3,                 -- L5
  .loadImm 2 0x1,          -- L4, 0x37c
  .br 0x4,                 -- L5, 0x382: L7
  .loadImm 2 0x0,          -- L6, 0x384
  .br 0x0,                 -- L7
  .mov 2 0,                -- L7, 0x38c
  .jInd 6 0x0]

/-- The table, and the jump through it. -/
def table : JumpTable where
  jumpAt := 0x328
  base := 3
  index := 0
  tableAt := 0x400
  entries := [0x330, 0x384, 0x334, 0x384, 0x33c, 0x384, 0x354, 0x384, 0x36c]

/-- The code is in memory. -/
structure Code (m : MainMemory) : Prop where
  foo : Resident 0x424 0x300 code m
  cases : Resident 0x424 0x330 caseCode m

/-- The code and the table are in memory. -/
structure Program (m : MainMemory) : Prop extends Code m where
  table : table.InMemory m

/-- **A call of the function** from `s` returns in `t`. On the way the jump is made by the entry of
the first argument. -/
structure Returns (s t : Machine) : Prop where
  reaches : Reaches (upTo Machine.step? (table.Stray (s.mem.word (s.reg 5) - 10))) s t
  pc_eq : t.pc = s.reg 6
  result : t.reg 0 =
    foo (s.mem.word (s.reg 5)) (s.mem.word (s.reg 5 + 4)) (s.mem.word (s.reg 5 + 8))
  sp_eq : t.reg 5 = s.reg 5
  ra_eq : t.reg 6 = s.reg 6
  mem_eq : t.mem = s.mem

/-! ## The blocks -/

section Blocks

variable {m : MainMemory} {a b c v x k sp ra : JInt} {r : Fin 8 → JInt}

lemma code_part : Part Code 0x300 code := Resident.part (fun _ h => h.foo) (by decide)

lemma case_part : Part Code 0x330 caseCode := Resident.part (fun _ h => h.cases) (by decide)

/-- The path that is followed: it ends at a jump that is not by entry `k`. -/
abbrev path (k : JInt) : Machine → Option Machine := upTo Machine.step? (table.Stray k)

/-- The stack pointer and the return address are in their registers. -/
structure Frame (sp ra : JInt) (r : Fin 8 → JInt) : Prop where
  sp : r 5 = sp
  ra : r 6 = ra

/-- The second and the third argument are in registers. -/
structure Args (b c sp ra : JInt) (r : Fin 8 → JInt) : Prop extends Frame sp ra r where
  arg1 : r 1 = b
  arg2 : r 2 = c

/-- The result is in a register. -/
structure Result (v sp ra : JInt) (r : Fin 8 → JInt) : Prop extends Frame sp ra r where
  result : r 2 = v

/-- The tests of the range, which wrap around. -/
lemma tests_iff : (¬ 0 < (~~~ x + 1#32).toInt ∧ ¬ 0 < (0xfffffff8#32 + x).toInt) ↔
    x.toNat < 9 := by
  have hlt := x.isLt
  rw [BitVec.toInt_eq_toNat_cond, BitVec.toInt_eq_toNat_cond, BitVec.toNat_add, BitVec.toNat_add,
    BitVec.toNat_not]
  simp only [BitVec.toNat_ofNat]
  split_ifs <;> omega

/-- The arguments are loaded. -/
lemma leads_args (hm : Code m) (h₀ : m.HasWord sp) (h₁ : m.HasWord (sp + 4))
    (h₂ : m.HasWord (sp + 8)) : Leads (path k) (At 0x300 m (Frame sp ra))
      (At 0x30e m fun r => Args (m.word (sp + 4)) (m.word (sp + 8)) sp ra r ∧
        r 0 = m.word sp - 10) := by
  refine (code_part.block 0x300 0 5 rfl).leads (upTo_stray_eq (by decide)) hm ?_
  rintro r ⟨hsp, hra⟩
  have hsub : 0xfffffff6#32 + m.word sp = m.word sp - 10 := by
    rw [BitVec.sub_eq_add_neg, BitVec.add_comm]
    rfl
  refine ⟨by simpa [code, hm, hsp] using ⟨h₀, h₁, h₂⟩, _, ⟨⟨⟨?_, ?_⟩, ?_, ?_⟩, ?_⟩,
    by simp [code, hsp]; rfl⟩
  · simp [hsp]
  · simp [hra]
  · simp
  · simp
  · exact (by simp : _ = 0xfffffff6#32 + m.word sp).trans hsub

/-- The tests of the range, for an index of the table. -/
lemma leads_in_range (hm : Code m) (hx : x.toNat < 9) :
    Leads (path k) (At 0x30e m fun r => Args b c sp ra r ∧ r 0 = x)
      (At 0x328 m fun r => Args b c sp ra r ∧ r 3 = 0x400 ∧ r 0 = x) := by
  obtain ⟨h₁₀, h₁₈⟩ := tests_iff.mpr hx
  refine (code_part.block 0x30e 5 9 rfl).leads (upTo_stray_eq (by decide)) hm ?_
  rintro r ⟨⟨⟨hsp, hra⟩, hb, hc⟩, hr⟩
  refine ⟨by simp [code, hm, hr, h₁₀, h₁₈, -BitVec.toInt_add, -not_lt], _,
    ⟨⟨⟨?_, ?_⟩, ?_, ?_⟩, ?_, ?_⟩,
    by simp [code, hr, h₁₀, h₁₈, -BitVec.toInt_add, -not_lt]; rfl⟩
  · simp [hsp]
  · simp [hra]
  · simp [hb]
  · simp [hc]
  · simp
  · simp [hr]

/-- The tests of the range, for what is not an index of the table. -/
lemma leads_out_of_range (hm : Code m) (hx : ¬ x.toNat < 9) :
    Leads (path k) (At 0x30e m fun r => Args b c sp ra r ∧ r 0 = x)
      (At 0x384 m (Args b c sp ra)) := by
  by_cases h₁₀ : 0 < (~~~ x + 1#32).toInt
  · refine (code_part.block 0x30e 5 4 rfl).leads (upTo_stray_eq (by decide)) hm ?_
    rintro r ⟨⟨⟨hsp, hra⟩, hb, hc⟩, hr⟩
    refine ⟨by simp [code, hm, hr, h₁₀, -BitVec.toInt_add], _, ⟨⟨?_, ?_⟩, ?_, ?_⟩,
      by simp [code, hr, h₁₀, -BitVec.toInt_add]; rfl⟩
    · simp [hsp]
    · simp [hra]
    · simp [hb]
    · simp [hc]
  · have h₁₈ : 0 < (0xfffffff8#32 + x).toInt := not_not.mp fun h => hx (tests_iff.mp ⟨h₁₀, h⟩)
    refine (code_part.block 0x30e 5 8 rfl).leads (upTo_stray_eq (by decide)) hm ?_
    rintro r ⟨⟨⟨hsp, hra⟩, hb, hc⟩, hr⟩
    refine ⟨by simp [code, hm, hr, h₁₀, h₁₈, -BitVec.toInt_add, -not_lt], _,
      ⟨⟨?_, ?_⟩, ?_, ?_⟩, by simp [code, hr, h₁₀, h₁₈, -BitVec.toInt_add, -not_lt]; rfl⟩
    · simp [hsp]
    · simp [hra]
    · simp [hb]
    · simp [hc]

/-- Case 10. -/
lemma leads_case10 (hm : Code m) :
    Leads (path k) (At 0x330 m (Args b c sp ra)) (At 0x38c m (Result (b + c) sp ra)) := by
  refine (case_part.block 0x330 0 2 rfl).leads (upTo_stray_eq (by decide)) hm ?_
  rintro r ⟨⟨hsp, hra⟩, hb, hc⟩
  refine ⟨by simp [caseCode, hm], _, ⟨⟨?_, ?_⟩, ?_⟩, by simp [caseCode]; rfl⟩
  · simp [hsp]
  · simp [hra]
  · simp [hb, hc]

/-- Case 12. -/
lemma leads_case12 (hm : Code m) :
    Leads (path k) (At 0x334 m (Args b c sp ra)) (At 0x38c m (Result (b - c) sp ra)) := by
  refine (case_part.block 0x334 2 4 rfl).leads (upTo_stray_eq (by decide)) hm ?_
  rintro r ⟨⟨hsp, hra⟩, hb, hc⟩
  refine ⟨by simp [caseCode, hm], _, ⟨⟨?_, ?_⟩, ?_⟩, by simp [caseCode]; rfl⟩
  · simp [hsp]
  · simp [hra]
  · simp [hb, hc, add_not_add_one]

/-- The end of a case that has 1 for a result. -/
lemma leads_one {p : JInt} {pp : BitVec 8} (h : Part Code p [.loadImm 2 0x1, .br pp])
    (hjump : ∀ j < 2, p + offset [.loadImm 2 0x1, .br pp] j ≠ table.jumpAt)
    (hend : p + 6#32 + 2#32 + 2#32 * pp.signExtend 32 = 0x38c) (hm : Code m) :
    Leads (path k) (At p m (Frame sp ra)) (At 0x38c m (Result 1 sp ra)) := by
  refine h.leads (upTo_stray_eq hjump) hm ?_
  rintro r ⟨hsp, hra⟩
  refine ⟨by simp [hm], Function.update r 2 1, ⟨⟨?_, ?_⟩, ?_⟩, by simpa using hend⟩
  · simp [hsp]
  · simp [hra]
  · simp

/-- The end of a case that has 0 for a result. -/
lemma leads_zero {p : JInt} {pp : BitVec 8} (h : Part Code p [.br pp])
    (hjump : ∀ j < 1, p + offset [.br pp] j ≠ table.jumpAt)
    (hend : p + 2#32 + 2#32 * pp.signExtend 32 = 0x38c) (hm : Code m) :
    Leads (path k) (At p m (Result 0 sp ra)) (At 0x38c m (Result 0 sp ra)) := by
  refine h.leads (upTo_stray_eq hjump) hm fun r hr => ?_
  exact ⟨by simp [hm], r, hr, by simpa using hend⟩

/-- A case that tests whether the difference of two registers is positive. -/
abbrev greater (d e : Fin 8) (pp : BitVec 8) : List Instr := [
  .not d,
  .inc d,
  .add e d,
  .bgt d 0x4,
  .loadImm 2 0x0,
  .br 0x3,
  .loadImm 2 0x1,
  .br pp]

/-- **The cases that test whether a difference is positive.** -/
lemma leads_greater {p y : JInt} {d e : Fin 8} {pp : BitVec 8} (h : Part Code p (greater d e pp))
    (hd : d ≠ 5 ∧ d ≠ 6 ∧ e ≠ d) (hargs : ∀ {r}, Args b c sp ra r → r e = x ∧ r d = y)
    (hjump : ∀ j < (greater d e pp).length, p + offset (greater d e pp) j ≠ table.jumpAt)
    (hend : p + 24#32 + 2#32 * pp.signExtend 32 = 0x38c) (hm : Code m) :
    Leads (path k) (At p m (Args b c sp ra))
      (At 0x38c m (Result (if 0 < (x - y).toInt then 1 else 0) sp ra)) := by
  obtain ⟨hd₅, hd₆, hed⟩ := hd
  have hone : p + offset (greater d e pp) 6 = p + 16#32 := rfl
  have hzero : p + offset (greater d e pp) 7 = p + 22#32 := rfl
  by_cases hpos : 0 < (x - y).toInt
  · rw [if_pos hpos]
    have hpos' : 0 < (x + (~~~ y + 1#32)).toInt := add_not_add_one (x := x) ▸ hpos
    refine Leads.trans (Q := At (p + 16#32) m (Frame sp ra)) ?_ ?_
    · refine (h.block p 0 4 (by simp)).leads
        (upTo_stray_eq (offset_block_ne hjump (by simp))) hm ?_
      intro r hr
      obtain ⟨hx, hy⟩ := hargs hr
      refine ⟨by simp [hm, hx, hy, hed, hpos', -BitVec.toInt_add],
        Function.update r d (x + (~~~ y + 1#32)), ⟨?_, ?_⟩, ?_⟩
      · rw [Function.update_of_ne hd₅.symm, hr.sp]
      · rw [Function.update_of_ne hd₆.symm, hr.ra]
      · simp [hx, hy, hed, hpos', BitVec.add_assoc, -BitVec.toInt_add]
    · exact leads_one (h.block _ 6 2 hone) (offset_block_ne (n := 2) hjump hone)
        (by simpa [BitVec.add_assoc] using hend) hm
  · rw [if_neg hpos]
    have hneg : ¬ 0 < (x + (~~~ y + 1#32)).toInt := add_not_add_one (x := x) ▸ hpos
    refine Leads.trans (Q := At (p + 22#32) m (Result 0 sp ra)) ?_ ?_
    · refine (h.block p 0 6 (by simp)).leads
        (upTo_stray_eq (offset_block_ne hjump (by simp))) hm ?_
      intro r hr
      obtain ⟨hx, hy⟩ := hargs hr
      refine ⟨by simp [hm, hx, hy, hed, hneg, -BitVec.toInt_add, -not_lt],
        Function.update (Function.update r d (x + (~~~ y + 1#32))) 2 0, ⟨⟨?_, ?_⟩, ?_⟩, ?_⟩
      · simp [hr.sp, hd₅.symm]
      · simp [hr.ra, hd₆.symm]
      · simp
      · simp [hx, hy, hed, hneg, BitVec.add_assoc, -BitVec.toInt_add, -not_lt]
    · exact leads_zero (h.block _ 7 1 hzero) (offset_block_ne (n := 1) hjump hzero)
        (by simpa [BitVec.add_assoc] using hend) hm

/-- Case 14. -/
lemma leads_case14 (hm : Code m) : Leads (path k) (At 0x33c m (Args b c sp ra))
    (At 0x38c m (Result (if 0 < (b - c).toInt then 1 else 0) sp ra)) :=
  leads_greater (case_part.block 0x33c 6 8 rfl) (by decide) (fun hr => ⟨hr.arg1, hr.arg2⟩)
    (by decide) rfl hm

/-- Case 16. -/
lemma leads_case16 (hm : Code m) : Leads (path k) (At 0x354 m (Args b c sp ra))
    (At 0x38c m (Result (if 0 < (c - b).toInt then 1 else 0) sp ra)) :=
  leads_greater (case_part.block 0x354 14 8 rfl) (by decide) (fun hr => ⟨hr.arg2, hr.arg1⟩)
    (by decide) rfl hm

/-- Case 18. -/
lemma leads_case18 (hm : Code m) : Leads (path k) (At 0x36c m (Args b c sp ra))
    (At 0x38c m (Result (if b - c = 0 then 1 else 0) sp ra)) := by
  by_cases h : b - c = 0
  · rw [if_pos h]
    have hzero : b + (~~~ c + 1#32) = 0#32 := add_not_add_one.trans h
    refine Leads.trans (Q := At 0x37c m (Frame sp ra)) ?_ ?_
    · refine (case_part.block 0x36c 22 4 rfl).leads (upTo_stray_eq (by decide)) hm ?_
      rintro r ⟨⟨hsp, hra⟩, hb, hc⟩
      refine ⟨by simp [caseCode, hm, hb, hc, hzero], _, ⟨?_, ?_⟩,
        by simp [caseCode, hb, hc, hzero]; rfl⟩
      · simp [hsp]
      · simp [hra]
    · exact leads_one (case_part.block 0x37c 28 2 rfl) (by decide) rfl hm
  · rw [if_neg h]
    have hne : ¬ b + (~~~ c + 1#32) = 0#32 := fun hz => h (add_not_add_one.symm.trans hz)
    refine Leads.trans (Q := At 0x382 m (Result 0 sp ra)) ?_ ?_
    · refine (case_part.block 0x36c 22 6 rfl).leads (upTo_stray_eq (by decide)) hm ?_
      rintro r ⟨⟨hsp, hra⟩, hb, hc⟩
      refine ⟨by simp [caseCode, hm, hb, hc, hne], _, ⟨⟨?_, ?_⟩, ?_⟩,
        by simp [caseCode, hb, hc, hne]; rfl⟩
      · simp [hsp]
      · simp [hra]
      · simp
    · exact leads_zero (case_part.block 0x382 29 1 rfl) (by decide) rfl hm

/-- The other numbers. -/
lemma leads_default (hm : Code m) :
    Leads (path k) (At 0x384 m (Args b c sp ra)) (At 0x38c m (Result 0 sp ra)) := by
  refine (case_part.block 0x384 30 2 rfl).leads (upTo_stray_eq (by decide)) hm ?_
  rintro r ⟨⟨hsp, hra⟩, hb, hc⟩
  refine ⟨by simp [caseCode, hm], _, ⟨⟨?_, ?_⟩, ?_⟩, by simp [caseCode]; rfl⟩
  · simp [hsp]
  · simp [hra]
  · simp

/-- The return. -/
lemma leads_return (hm : Code m) : Leads (path k) (At 0x38c m (Result v sp ra))
    (At ra m fun r => Frame sp ra r ∧ r 0 = v) := by
  refine (case_part.block 0x38c 32 2 rfl).leads (upTo_stray_eq (by decide)) hm ?_
  rintro r ⟨⟨hsp, hra⟩, hv⟩
  refine ⟨by simp [caseCode, hm], _, ⟨⟨?_, ?_⟩, ?_⟩, by simp [caseCode, hra]; rfl⟩
  · simp [hsp]
  · simp [hra]
  · simp [hv]

/-- The nine cases of the table. -/
lemma leads_entry (hm : Code m) {n : ℕ} (hn : n < table.entries.length) :
    Leads (path k) (At table.entries[n] m (Args b c sp ra))
      (At 0x38c m (Result (foo (10 + BitVec.ofNat 32 n) b c) sp ra)) := by
  have hn' : n < 9 := hn
  have hodd : ∀ a : JInt, a.toInt = 11 ∨ a.toInt = 13 ∨ a.toInt = 15 ∨ a.toInt = 17 →
      Leads (path k) (At 0x384 m (Args b c sp ra)) (At 0x38c m (Result (foo a b c) sp ra)) := by
    intro a ha
    have hfoo : foo a b c = 0 := by
      rcases ha with ha | ha | ha | ha <;> simp [foo, ha]
    rw [hfoo]
    exact leads_default hm
  interval_cases n
  · exact leads_case10 hm
  · exact hodd _ (by decide)
  · exact leads_case12 hm
  · exact hodd _ (by decide)
  · exact leads_case14 hm
  · exact hodd _ (by decide)
  · exact leads_case16 hm
  · exact hodd _ (by decide)
  · exact leads_case18 hm

/-- The numbers that have no case. -/
lemma foo_eq_zero (ha : ¬ (a - 10).toNat < 9) : foo a b c = 0 := by
  have hrange := mt (toNat_sub_lt_iff (l := 10) (n := 9) (by decide)).mpr ha
  have hten : (10 : JInt).toNat = 10 := rfl
  rw [hten] at hrange
  unfold foo
  split
  case h_6 => rfl
  all_goals omega

/-- **The switch**, from the tests of the range to the return. -/
lemma leads_switch (hm : Program m) :
    Leads (path (a - 10)) (At 0x30e m fun r => Args b c sp ra r ∧ r 0 = a - 10)
      (At 0x38c m (Result (foo a b c) sp ra)) := by
  have hcode : Code m := hm.toCode
  by_cases ha : (a - 10).toNat < 9
  · have hlen : (a - 10).toNat < table.entries.length := ha
    have hjump : Leads (path (a - 10))
        (At 0x328 m fun r => Args b c sp ra r ∧ r 3 = 0x400 ∧ r 0 = a - 10)
        (At table.entries[(a - 10).toNat] m
          fun r => Args b c sp ra r ∧ r 3 = 0x400 ∧ r 0 = a - 10) :=
      (code_part.block 0x328 14 1 rfl).leads_jump hcode hm.table rfl hlen fun _ hr => hr.2
    have hcase : Leads (path (a - 10)) (At table.entries[(a - 10).toNat] m (Args b c sp ra)) _ :=
      leads_entry hcode hlen
    rw [add_ofNat_toNat_sub] at hcase
    refine ((leads_in_range hcode ha).trans hjump).trans (hcase.mono (fun s hs => ?_) fun _ => id)
    exact ⟨hs.1, hs.2.1, hs.2.2.1⟩
  · rw [foo_eq_zero ha]
    exact (leads_out_of_range hcode ha).trans (leads_default hcode)

end Blocks

/-- **The code is right**: for all arguments the call returns what the function does. -/
theorem foo_returns (s : Machine) (hpc : s.pc = 0x300) (hm : Program s.mem)
    (h₀ : s.mem.HasWord (s.reg 5)) (h₁ : s.mem.HasWord (s.reg 5 + 4))
    (h₂ : s.mem.HasWord (s.reg 5 + 8)) : ∃ t, Returns s t := by
  have hcode : Code s.mem := hm.toCode
  have hstart : At 0x300 s.mem (Frame (s.reg 5) (s.reg 6)) s := ⟨hpc, rfl, rfl, rfl⟩
  obtain ⟨t, ⟨htpc, htmem, htframe, htresult⟩, ht⟩ :=
    ((leads_args hcode h₀ h₁ h₂).trans (leads_switch hm)).trans (leads_return hcode) hstart
  refine ⟨t, ?_⟩
  constructor
  case reaches => exact ht
  case pc_eq => exact htpc
  case result => exact htresult
  case sp_eq => exact htframe.sp
  case ra_eq => exact htframe.ra
  case mem_eq => exact htmem

/-- A memory with the program and, behind it, these arguments. -/
def image (a b c : JInt) : List Byte :=
  List.replicate 0x300 0 ++ (assemble code ++ (List.replicate 0x6 0 ++ (assemble caseCode ++
    (List.replicate 0x70 0 ++ (table.entries.flatMap beBytes ++ [a, b, c].flatMap beBytes)))))

section Image

variable {a b c : JInt} {m : MainMemory}

lemma length_image : (image a b c).length = 0x430 := by
  simp only [image, List.length_append, List.length_replicate, length_assemble,
    length_flatMap_beBytes, List.length_cons, List.length_nil]
  decide

lemma program_image (hm : m.mem = image a b c) : Program m := by
  have hlen : 0x424 ≤ m.length := by
    rw [MainMemory.length, hm, length_image]
    decide
  refine ⟨⟨?_, ?_⟩, hlen, ?_⟩
  · exact resident_assemble (List.replicate 0x300 0) hm (List.length_replicate ..) hlen
  · refine resident_assemble (List.replicate 0x300 0 ++ (assemble code ++ List.replicate 0x6 0))
      (by simp only [hm, image, List.append_assoc]; rfl) ?_ hlen
    simp only [List.length_append, List.length_replicate, length_assemble]
    decide
  · refine words_of_mem (List.replicate 0x300 0 ++ (assemble code ++
      (List.replicate 0x6 0 ++ (assemble caseCode ++ List.replicate 0x70 0))))
      (by simp only [hm, image, List.append_assoc]; rfl) ?_
    simp only [List.length_append, List.length_replicate, length_assemble]
    decide

/-- The words of the arguments. -/
lemma hasWord_image (hm : m.mem = image a b c) {p : JInt} (hp : p.toNat ≤ 0x42c) :
    m.HasWord p := by
  rw [HasWord, InRange, MainMemory.length, hm, length_image]
  omega

end Image

theorem foo_returns_14 : ∃ t, Returns
    (boot 0x300 (Function.update (fun _ => 0) 5 0x424)
      ⟨image 14 5 2, by rw [length_image]; decide⟩) t :=
  foo_returns _ rfl (program_image rfl) (hasWord_image rfl (by decide))
    (hasWord_image rfl (by decide)) (hasWord_image rfl (by decide))

end SwitchFunction

end SM213
