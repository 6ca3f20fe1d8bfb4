import Cs213.SM213.Assembler

set_option relaxedAutoImplicit false
set_option autoImplicit false

/-!
# Jump tables

A `switch` is compiled to a table of addresses and a double indirect jump through it. The table and
the addresses in it are laid out by hand.

## Main definitions

* `SM213.JumpTable` — a table and the jump through it.
* `SM213.JumpTable.Jumps` — a jump that reads an entry of the table and lands on it.
* `SM213.JumpTable.Stray` — the machine is about to make another jump.

## Main results

* `SM213.Part.leads_jump` — the rule of the jump.
-/

namespace SM213

open MainMemory StateTransition Until

/-- A table of addresses, and the jump through it. -/
structure JumpTable where
  /-- The address of the jump. -/
  jumpAt : JInt
  /-- The register with the address of the table. -/
  base : Fin 8
  /-- The register with the index. -/
  index : Fin 8
  /-- The address of the table. -/
  tableAt : JInt
  /-- The addresses in the table. -/
  entries : List JInt

namespace JumpTable

variable (J : JumpTable)

/-- The table is in memory. -/
structure InMemory (m : MainMemory) : Prop where
  inside : J.tableAt.toNat + 4 * J.entries.length ≤ m.length
  words_eq : m.words J.tableAt J.entries.length = J.entries

instance (m : MainMemory) : Decidable (J.InMemory m) :=
  decidable_of_iff (J.tableAt.toNat + 4 * J.entries.length ≤ m.length ∧
    m.words J.tableAt J.entries.length = J.entries) ⟨fun ⟨h, h'⟩ => ⟨h, h'⟩, fun ⟨h, h'⟩ => ⟨h, h'⟩⟩

/-- **A jump by entry `k`**: there is such an entry, the word that is read is this entry, and the
machine continues at the address that it has. -/
def Jumps (k : JInt) (s : Machine) : Prop :=
  k.toNat < J.entries.length ∧ s.reg J.base + 4 * s.reg J.index = J.tableAt + 4 * k ∧
    s.step?.map Machine.pc = J.entries[k.toNat]?

/-- The machine is about to jump, and not by entry `k`. -/
def Stray (k : JInt) (s : Machine) : Prop := s.pc = J.jumpAt ∧ ¬ J.Jumps k s

instance (k : JInt) : DecidablePred (J.Jumps k) :=
  fun _ => inferInstanceAs (Decidable (_ ∧ _ ∧ _))

instance (k : JInt) : DecidablePred (J.Stray k) := fun _ => inferInstanceAs (Decidable (_ ∧ ¬ _))

section Rule

variable {J : JumpTable} {m : MainMemory} {k : JInt}

lemma InMemory.word_eq (h : J.InMemory m) (hk : k.toNat < J.entries.length) :
    m.word (J.tableAt + 4 * k) = J.entries[k.toNat] := by
  have hk' : k.toNat < (m.words J.tableAt J.entries.length).length := by rwa [length_words]
  have hget := getElem_words hk'
  rw [BitVec.ofNat_toNat, BitVec.setWidth_eq] at hget
  rw [← hget]
  simp only [h.words_eq]

lemma InMemory.hasAlignedWord (h : J.InMemory m) (hJ : J.tableAt.toNat % 4 = 0)
    (hk : k.toNat < J.entries.length) : m.HasAlignedWord (J.tableAt + 4 * k) := by
  have hlt : m.length < 2 ^ 31 := m.length_lt
  have hinside := h.inside
  have hw := hasWord_element h.inside hk
  have haddr := toNat_element (a := J.tableAt) (i := k.toNat) (by omega)
  rw [BitVec.ofNat_toNat, BitVec.setWidth_eq] at hw haddr
  exact ⟨hw, by omega⟩

end Rule

end JumpTable

section Index

variable {i l : JInt} {n : ℕ}

/-- A number is in the range of a `switch` if its index, taken as an unsigned number, is less than
the length of the range. -/
lemma toNat_sub_lt_iff (h : l.toNat + n ≤ 2 ^ 31) :
    (i - l).toNat < n ↔ l.toNat ≤ i.toInt ∧ i.toInt < l.toNat + n := by
  have hcond := i.toInt_eq_toNat_cond
  have hlt := i.isLt
  rw [BitVec.toNat_sub]
  split_ifs at hcond <;> omega

/-- The number that has a given index. -/
lemma add_ofNat_toNat_sub : l + BitVec.ofNat 32 (i - l).toNat = i := by
  rw [BitVec.ofNat_toNat, BitVec.setWidth_eq, BitVec.add_comm, BitVec.sub_add_cancel]

end Index

section Blocks

variable {P : MainMemory → Prop} {pc : JInt} {is : List Instr} {J : JumpTable} {k : JInt}

/-- No instruction of a block strays that is not the jump. -/
lemma upTo_stray_eq (h : ∀ j < is.length, pc + offset is j ≠ J.jumpAt) (s : Machine) :
    ∀ j < is.length, s.pc = pc + offset is j → upTo Machine.step? (J.Stray k) s = s.step? :=
  fun j hj hpc => if_neg fun hs => h j hj (hpc.symm.trans hs.1)

/-- **The rule of the jump**: with the index `k` it leads to the address that is entry `k`. -/
theorem Part.leads_jump {m : MainMemory} {R : (Fin 8 → JInt) → Prop}
    (h : Part P J.jumpAt [.jDoubleIndexed J.base J.index]) (hP : P m) (hJ : J.InMemory m)
    (haligned : J.tableAt.toNat % 4 = 0) (hk : k.toNat < J.entries.length)
    (hR : ∀ r, R r → r J.base = J.tableAt ∧ r J.index = k) :
    Leads (upTo Machine.step? (J.Stray k)) (At J.jumpAt m R) (At J.entries[k.toNat] m R) := by
  rintro s ⟨hpc, rfl, hr⟩
  obtain ⟨hbase, hindex⟩ := hR s.reg hr
  have haddr : s.reg J.base + 4 * s.reg J.index = J.tableAt + 4 * k := by rw [hbase, hindex]
  have hw : s.mem.HasAlignedWord (s.reg J.base + 4 * s.reg J.index) :=
    haddr ▸ hJ.hasAlignedWord haligned hk
  obtain ⟨t, ht, harch⟩ := h.step hpc hP hw (by simp)
  have htpc : t.pc = J.entries[k.toNat] := by
    rw [← hJ.word_eq hk, ← haddr]
    exact congrArg Arch.pc harch
  have hjumps : J.Jumps k s := by
    refine ⟨hk, haddr, ?_⟩
    rw [ht, Option.map_some, htpc, List.getElem?_eq_getElem hk]
  have hreg : t.reg = s.reg := congrArg Arch.reg harch
  exact ⟨t, ⟨htpc, congrArg Arch.mem harch, hreg ▸ hr⟩, reaches_of_step (fun hs => hs.2 hjumps) ht⟩

end Blocks

end SM213
