import Cs213.SM213.JumpTable

set_option relaxedAutoImplicit false
set_option autoImplicit false

/-!
# A switch, four times

`SB-switch.c` has a switch as a `switch` statement, as a chain of `if` statements, and as a jump
table with tests of the range. `SB-switch.s` has the jump table in machine code.

## Main definitions

* `SM213.Switch.foo`, `SM213.Switch.bar`, `SM213.Switch.zot` — the functions of `SB-switch.c`.
* `SM213.Switch.code`, `SM213.Switch.caseCode`, `SM213.Switch.jmptable` — `SB-switch.s`.
* `SM213.Switch.Agree` — all of them leave the same.

## Main results

* `SM213.Switch.switch_agree` — they do, for every value of `i`.
-/

namespace SM213

open Bytes Compute MainMemory StateTransition Until

namespace Switch

/-! ## The functions of `SB-switch.c` -/

/-- The variables `i` and `j`. -/
@[ext]
structure Globals where
  i : JInt
  j : JInt
  deriving DecidableEq

/-- `foo`: a `switch` statement. -/
def foo (g : Globals) : Globals :=
  match g.i.toInt with
  | 20 => { g with j := 10 }
  | 21 => { g with j := 11 }
  | 22 => { g with j := 12 }
  | 23 => { g with j := 13 }
  | _ => { g with j := 14 }

/-- `bar`: a chain of `if` statements. -/
def bar (g : Globals) : Globals :=
  if g.i = 20 then { g with j := 10 }
  else if g.i = 21 then { g with j := 11 }
  else if g.i = 22 then { g with j := 12 }
  else if g.i = 23 then { g with j := 13 }
  else { g with j := 14 }

/-- The labels of `zot` that are jumped to. -/
inductive Label
  | L20
  | L21
  | L22
  | L23
  | DEFAULT

/-- From a label to the end of `zot`. -/
def Label.run (g : Globals) : Label → Globals
  | L20 => { g with j := 10 }
  | L21 => { g with j := 11 }
  | L22 => { g with j := 12 }
  | L23 => { g with j := 13 }
  | DEFAULT => { g with j := 14 }

/-- The six elements of `jumpTable`, of which the first four are labels. -/
def jumpTable : List (Option Label) := [some .L20, some .L21, some .L22, some .L23, none, none]

/-- `zot`: a jump table with tests of the range. There is no label for a jump to `none`. -/
def zot (g : Globals) : Option Globals :=
  if g.i.toInt < 20 then some (Label.DEFAULT.run g)
  else if g.i.toInt > 23 then some (Label.DEFAULT.run g)
  else jumpTable[(g.i - 20).toNat]?.join.map (Label.run g)

/-! ## The code -/

/-- `SB-switch.s`, from `foo` at `0x100` to `cont` at `0x12e`; `l0` is at `0x114`. -/
def code : List Instr := [
  .loadImm 0 0x1000,       -- r0 = &i
  .loadBase 0 0 0,         -- r0 = i
  .loadImm 1 0xffffffed,   -- r1 = -19
  .add 0 1,                -- r1 = i-19
  .bgt 1 0x1,              -- goto l0 if i>19
  .br 0x26,                -- goto default if i<20
  .loadImm 1 0xffffffe9,   -- r1 = -23
  .add 0 1,                -- r1 = i-23
  .bgt 1 0x21,             -- goto default if i>23
  .loadImm 1 0xffffffec,   -- r1 = -20
  .add 1 0,                -- r0 = i-20
  .loadImm 1 0x800,        -- r1 = &jmptable
  .jDoubleIndexed 1 0,     -- goto jmptable[i-20]
  .halt]                   -- first statement following switch

/-- `SB-switch.s`, from `case20` at `0x140` on; `default` is at `0x160` and `done` at `0x168`. -/
def caseCode : List Instr := [
  .loadImm 1 0xa,          -- r1 = 10
  .br 0x10,                -- goto done
  .loadImm 1 0xb,          -- r1 = 11
  .br 0xc,                 -- goto done
  .loadImm 1 0xc,          -- r1 = 12
  .br 0x8,                 -- goto done
  .loadImm 1 0xd,          -- r1 = 13
  .br 0x4,                 -- goto done
  .loadImm 1 0xe,          -- r1 = 14
  .br 0x0,                 -- goto done
  .loadImm 0 0x1004,       -- r0 = &j
  .storeBase 1 0 0,        -- j = r1
  .j 0x12e]                -- goto cont

/-- The table, and the jump through it. -/
def jmptable : JumpTable where
  jumpAt := 0x12c
  base := 1
  index := 0
  tableAt := 0x800
  entries := [0x140, 0x148, 0x150, 0x158]

/-- The address of `i`. -/
abbrev iAt : JInt := 0x1000

/-- The address of `j`. -/
abbrev jAt : JInt := 0x1004

/-- The code is in memory. -/
structure Code (m : MainMemory) : Prop where
  foo : Resident 0x1008 0x100 code m
  cases : Resident 0x1008 0x140 caseCode m

/-- The program is in memory. -/
structure Program (m : MainMemory) : Prop extends Code m where
  table : jmptable.InMemory m

/-- The variables in memory. -/
def globals (m : MainMemory) : Globals := ⟨m.word iAt, m.word jAt⟩

/-- What is left in `j`. -/
def switched (i : JInt) : JInt := if (i - 20).toNat < 4 then 10 + (i - 20) else 14

/-- **The four agree**: the program halts in `t`, where `i` and `j` are what each of the functions
leaves, and nothing but `j` has changed. The jump is made for an `i` from 20 to 23 only, and to the
entry of its case. -/
structure Agree (s t : Machine) : Prop where
  halts : HaltsIn s t
  foo_eq : foo (globals s.mem) = globals t.mem
  bar_eq : bar (globals s.mem) = globals t.mem
  zot_eq : zot (globals s.mem) = some (globals t.mem)
  frame : s.mem.SameOutside (bytesAt jAt) t.mem
  jump : ∀ u, Reaches Machine.step? s u → u.pc = jmptable.jumpAt →
    20 ≤ (s.mem.word iAt).toInt ∧ (s.mem.word iAt).toInt ≤ 23 ∧
      jmptable.Jumps (s.mem.word iAt - 20) u

/-! ## The functions -/

section Functions

variable {i : JInt} {g : Globals}

/-- The values of `i` that have a case. -/
lemma index_lt_iff : (i - 20).toNat < 4 ↔ 20 ≤ i.toInt ∧ i.toInt < 24 :=
  toNat_sub_lt_iff (l := 20) (n := 4) (by decide)

/-- The tests of the range, which wrap around. -/
lemma tests_iff : (0 < (i + 0xffffffed#32).toInt ∧ ¬ 0 < (i + 0xffffffe9#32).toInt) ↔
    (i - 20).toNat < 4 := by
  have hlt := i.isLt
  rw [BitVec.toInt_eq_toNat_cond, BitVec.toInt_eq_toNat_cond, BitVec.toNat_sub,
    BitVec.toNat_add, BitVec.toNat_add]
  simp only [BitVec.ofNat_eq_ofNat, BitVec.toNat_ofNat]
  split_ifs <;> omega

/-- The four cases, and the default. -/
lemma i_cases : (∃ n < 4, i = 20 + BitVec.ofNat 32 n) ∨ ¬ (i - 20).toNat < 4 :=
  or_iff_not_imp_right.mpr fun h => ⟨(i - 20).toNat, not_not.mp h, add_ofNat_toNat_sub.symm⟩

lemma foo_eq : foo g = { g with j := switched g.i } := by
  obtain ⟨i, j⟩ := g
  rcases i_cases (i := i) with ⟨n, hn, rfl⟩ | h
  · interval_cases n <;> simp [foo, switched]
  · have hrange := mt index_lt_iff.mpr h
    rw [foo, switched, if_neg h]
    split
    case h_5 => rfl
    all_goals
      simp only at *
      omega

lemma bar_eq : bar g = { g with j := switched g.i } := by
  obtain ⟨i, j⟩ := g
  rcases i_cases (i := i) with ⟨n, hn, rfl⟩ | h
  · interval_cases n <;> simp [bar, switched]
  · rw [switched, if_neg h, bar]
    split_ifs with h₀ h₁ h₂ h₃
    case neg => rfl
    all_goals simp_all

lemma zot_eq : zot g = some { g with j := switched g.i } := by
  obtain ⟨i, j⟩ := g
  rcases i_cases (i := i) with ⟨n, hn, rfl⟩ | h
  · interval_cases n <;> simp [zot, switched, jumpTable, Label.run]
  · have hrange := mt index_lt_iff.mpr h
    rw [switched, if_neg h, zot]
    split_ifs with h₀ h₁
    · rfl
    · rfl
    · simp only at h₀ h₁
      omega

end Functions

/-! ## The blocks -/

section Blocks

variable {m : MainMemory} {i k : JInt}

lemma code_part : Part Code 0x100 code := Resident.part (fun _ h => h.foo) (by decide)

lemma case_part : Part Code 0x140 caseCode := Resident.part (fun _ h => h.cases) (by decide)

lemma Code.putWord {v : JInt} (hm : Code m) : Code (m.putWord jAt v) where
  foo := hm.foo.putWord (by decide) (by decide)
  cases := hm.cases.putWord (by decide) (by decide)

/-- The path that is followed: it ends at a jump that is not by entry `k`. -/
abbrev path (k : JInt) : Machine → Option Machine := upTo Machine.step? (jmptable.Stray k)

/-- The variable is loaded. -/
lemma leads_load (hm : Code m) :
    Leads (path k) (At 0x100 m fun _ => True) (At 0x108 m fun r => r 0 = m.word iAt) := by
  have hw : m.HasWord iAt := hm.foo.hasWord (by decide)
  refine (code_part.block 0x100 0 2 rfl).leads (upTo_stray_eq (by decide)) hm fun r _ => ?_
  refine ⟨by simpa [code, hm] using hw, _, ?_, by simp [code]; rfl⟩
  simp

/-- The tests of the range, for a value that has a case. -/
lemma leads_in_range (hm : Code m) (hi : (i - 20).toNat < 4) :
    Leads (path k) (At 0x108 m fun r => r 0 = i)
      (At 0x12c m fun r => r 1 = 0x800 ∧ r 0 = i - 20) := by
  obtain ⟨h₁₉, h₂₃⟩ := tests_iff.mpr hi
  refine Leads.trans (Q := At 0x114 m fun r => r 0 = i) ?_ ?_
  · refine (code_part.block 0x108 2 3 rfl).leads (upTo_stray_eq (by decide)) hm fun r hr => ?_
    refine ⟨by simp [code, hm, hr, h₁₉, -BitVec.toInt_add], _, ?_,
      by simp [code, hr, h₁₉, -BitVec.toInt_add]; rfl⟩
    simpa using hr
  · refine (code_part.block 0x114 6 6 rfl).leads (upTo_stray_eq (by decide)) hm fun r hr => ?_
    have hsub : 0xffffffec#32 + i = i - 20 := by
      rw [BitVec.sub_eq_add_neg, BitVec.add_comm]
      rfl
    refine ⟨by simp [code, hm, hr, h₂₃, -BitVec.toInt_add, -not_lt], _, ⟨?_, ?_⟩,
      by simp [code, hr, h₂₃, -BitVec.toInt_add, -not_lt]; rfl⟩
    · simp
    · exact (by simp : _ = 0xffffffec#32 + i).trans hsub

/-- The tests of the range, for a value that has no case. -/
lemma leads_out_of_range (hm : Code m) (hi : ¬ (i - 20).toNat < 4) :
    Leads (path k) (At 0x108 m fun r => r 0 = i) (At 0x160 m fun _ => True) := by
  by_cases h₁₉ : 0 < (i + 0xffffffed#32).toInt
  · have h₂₃ : 0 < (i + 0xffffffe9#32).toInt := not_not.mp fun h => hi (tests_iff.mp ⟨h₁₉, h⟩)
    refine Leads.trans (Q := At 0x114 m fun r => r 0 = i) ?_ ?_
    · refine (code_part.block 0x108 2 3 rfl).leads (upTo_stray_eq (by decide)) hm fun r hr => ?_
      refine ⟨by simp [code, hm, hr, h₁₉, -BitVec.toInt_add], _, ?_,
        by simp [code, hr, h₁₉, -BitVec.toInt_add]; rfl⟩
      simpa using hr
    · refine (code_part.block 0x114 6 3 rfl).leads (upTo_stray_eq (by decide)) hm fun r hr => ?_
      exact ⟨by simp [code, hm, hr, h₂₃, -BitVec.toInt_add], _, trivial,
        by simp [code, hr, h₂₃, -BitVec.toInt_add]; rfl⟩
  · refine (code_part.block 0x108 2 4 rfl).leads (upTo_stray_eq (by decide)) hm fun r hr => ?_
    exact ⟨by simp [code, hm, hr, h₁₉, -BitVec.toInt_add, -not_lt], _, trivial,
      by simp [code, hr, h₁₉, -BitVec.toInt_add, -not_lt]; rfl⟩

/-- A case, from its entry to `done`. -/
lemma leads_case {a v : JInt} {pp : BitVec 8} (h : Part Code a [.loadImm 1 v, .br pp])
    (hjump : ∀ j < 2, a + offset [.loadImm 1 v, .br pp] j ≠ jmptable.jumpAt)
    (hdone : a + 6#32 + 2#32 + 2#32 * pp.signExtend 32 = 0x168) (hm : Code m) :
    Leads (path k) (At a m fun _ => True) (At 0x168 m fun r => r 1 = v) := by
  refine h.leads (upTo_stray_eq hjump) hm fun r _ => ?_
  exact ⟨by simp [hm], Function.update r 1 v, by simp, by simpa using hdone⟩

/-- The four cases. -/
lemma leads_entry (hm : Code m) {n : ℕ} (hn : n < jmptable.entries.length) :
    Leads (path k) (At jmptable.entries[n] m fun _ => True)
      (At 0x168 m fun r => r 1 = 10 + BitVec.ofNat 32 n) := by
  have hn' : n < 4 := hn
  interval_cases n
  · exact leads_case (a := 0x140) (v := 0xa) (case_part.block 0x140 0 2 rfl) (by decide) rfl hm
  · exact leads_case (a := 0x148) (v := 0xb) (case_part.block 0x148 2 2 rfl) (by decide) rfl hm
  · exact leads_case (a := 0x150) (v := 0xc) (case_part.block 0x150 4 2 rfl) (by decide) rfl hm
  · exact leads_case (a := 0x158) (v := 0xd) (case_part.block 0x158 6 2 rfl) (by decide) rfl hm

/-- The default case. -/
lemma leads_default (hm : Code m) :
    Leads (path k) (At 0x160 m fun _ => True) (At 0x168 m fun r => r 1 = 14) :=
  leads_case (case_part.block 0x160 8 2 rfl) (by decide) rfl hm

/-- From `done` to `cont`. -/
lemma leads_done (hm : Code m) {v : JInt} : Leads (path k) (At 0x168 m fun r => r 1 = v)
    (At 0x12e (m.putWord jAt v) fun _ => True) := by
  have hw : m.HasWord jAt := hm.foo.hasWord (by decide)
  refine (case_part.block 0x168 10 3 rfl).leads (upTo_stray_eq (by decide)) hm fun r hr => ?_
  exact ⟨by simpa [caseCode, hm, hr] using ⟨hw, hm.putWord⟩, _, trivial,
    by simp [caseCode, hr]; rfl⟩

/-- **The switch**, from the value to `done`. -/
lemma leads_switch (hm : Program m) : Leads (path (i - 20)) (At 0x108 m fun r => r 0 = i)
    (At 0x168 m fun r => r 1 = switched i) := by
  have hcode : Code m := hm.toCode
  by_cases hi : (i - 20).toNat < 4
  · have hlen : (i - 20).toNat < jmptable.entries.length := hi
    have hjump : Leads (path (i - 20)) (At 0x12c m fun r => r 1 = 0x800 ∧ r 0 = i - 20)
        (At jmptable.entries[(i - 20).toNat] m fun r => r 1 = 0x800 ∧ r 0 = i - 20) :=
      (code_part.block 0x12c 12 1 rfl).leads_jump hcode hm.table rfl hlen fun _ hr => hr
    have hcase := leads_entry (k := i - 20) hcode hlen
    rw [BitVec.ofNat_toNat, BitVec.setWidth_eq] at hcase
    rw [switched, if_pos hi]
    refine ((leads_in_range hcode hi).trans hjump).trans (hcase.mono (fun s hs => ?_) fun _ => id)
    exact ⟨hs.1, hs.2.1, trivial⟩
  · rw [switched, if_neg hi]
    exact (leads_out_of_range hcode hi).trans (leads_default hcode)

end Blocks

/-! ## The runs -/

section Runs

variable {s : Machine}

/-- **What the program leaves in memory**, and where it jumps. -/
theorem halts (hpc : s.pc = 0x100) (hm : Program s.mem) :
    ∃ t, HaltsIn s t ∧ t.mem = s.mem.putWord jAt (switched (s.mem.word iAt)) ∧
      ∀ u, Reaches Machine.step? s u → ¬ jmptable.Stray (s.mem.word iAt - 20) u := by
  have hcode : Code s.mem := hm.toCode
  have hrun := ((leads_load hcode).trans (leads_switch hm)).trans (leads_done hcode)
  obtain ⟨u, ⟨hupc, humem, -⟩, hpath⟩ := hrun (s := s) ⟨hpc, rfl, trivial⟩
  have hcont : Part Code 0x12e [.halt] := code_part.block 0x12e 13 1 rfl
  have hu' : Code u.mem := humem ▸ hcode.putWord
  obtain ⟨t, ht, -, hmem⟩ := hcont.haltsIn (reaches_of_upTo hpath) hupc hu'
  refine ⟨t, ht, hmem.trans humem, fun v hv => ?_⟩
  refine not_of_reaches hpath (fun hstray => ?_) (hcont.step?_halt hupc hu') hv
  have hne : (0x12e : JInt) ≠ jmptable.jumpAt := by decide
  exact hne (hupc.symm.trans hstray.1)

/-- **The four versions of the switch agree**, for every value of `i`. -/
theorem switch_agree (s : Machine) (hpc : s.pc = 0x100) (hm : Program s.mem) :
    ∃ t, Agree s t := by
  obtain ⟨t, ht, hmem, hjump⟩ := halts hpc hm
  have hi : t.mem.word iAt = s.mem.word iAt := by
    rw [hmem, word_putWord_of_disjoint (.inl (by decide))]
  have hj : t.mem.word jAt = switched (s.mem.word iAt) := by
    rw [hmem, word_putWord (hm.foo.hasWord (by decide))]
  have hglobals : globals t.mem = { globals s.mem with j := switched (globals s.mem).i } :=
    Globals.ext hi hj
  refine ⟨t, ?_⟩
  constructor
  case halts => exact ht
  case foo_eq => rw [hglobals, foo_eq]
  case bar_eq => rw [hglobals, bar_eq]
  case zot_eq => rw [hglobals, zot_eq]
  case frame => exact hmem ▸ sameOutside_putWord
  case jump =>
    intro u hu hupc
    have hjumps : jmptable.Jumps (s.mem.word iAt - 20) u :=
      not_not.mp fun hnot => hjump u hu ⟨hupc, hnot⟩
    obtain ⟨hlow, hhigh⟩ := index_lt_iff.mp hjumps.1
    exact ⟨hlow, Int.lt_add_one_iff.mp hhigh, hjumps⟩

end Runs

/-- A memory with the program and this `i`. -/
def image (i : JInt) : List Byte :=
  List.replicate 0x100 0 ++ (assemble code ++ (List.replicate 0x10 0 ++ (assemble caseCode ++
    (List.replicate 0x68a 0 ++ (jmptable.entries.flatMap beBytes ++ (List.replicate 0x7f0 0 ++
      [i, 0].flatMap beBytes))))))

section Image

variable {i : JInt} {m : MainMemory}

lemma length_image : (image i).length = 0x1008 := by
  simp only [image, List.length_append, List.length_replicate, length_assemble,
    length_flatMap_beBytes, List.length_cons, List.length_nil]
  decide

lemma program_image (hm : m.mem = image i) : Program m := by
  have hlen : m.length = 0x1008 := by rw [MainMemory.length, hm, length_image]
  refine ⟨⟨?_, ?_⟩, by rw [hlen]; decide, ?_⟩
  · exact resident_assemble (List.replicate 0x100 0) hm (List.length_replicate ..) hlen.ge
  · refine resident_assemble (List.replicate 0x100 0 ++ (assemble code ++ List.replicate 0x10 0))
      (by simp only [hm, image, List.append_assoc]; rfl) ?_ hlen.ge
    simp only [List.length_append, List.length_replicate, length_assemble]
    decide
  · refine words_of_mem (List.replicate 0x100 0 ++ (assemble code ++ (List.replicate 0x10 0 ++
      (assemble caseCode ++ List.replicate 0x68a 0))))
      (by simp only [hm, image, List.append_assoc]; rfl) ?_
    simp only [List.length_append, List.length_replicate, length_assemble]
    decide

end Image

theorem switch_agree_22 : ∃ t,
    Agree (boot 0x100 (fun _ => 0) ⟨image 22, by rw [length_image]; decide⟩) t :=
  switch_agree _ rfl (program_image rfl)

end Switch

end SM213
