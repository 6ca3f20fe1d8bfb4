import Cs213.SM213.Copy

set_option relaxedAutoImplicit false
set_option autoImplicit false

/-!
# The overflow of `copy`

When the array of `cpy.s` is longer than `dst`, its third word takes the place of the return address
of `copy`, which then jumps there. In `cpy_attack.s` this is the address of words of the array that
are instructions: those of `attack.s`, and a `halt`.

## Main definitions

* `SM213.Cpy.payload` — loads of constants, followed by `halt`.
* `SM213.Cpy.Hijacked` — `copy` returns to where the array says.

## Main results

* `SM213.Cpy.hijacked_of_source` — it does for every array that is longer than `dst`.
* `SM213.Cpy.haltsIn_of_payload` — instructions of the array are executed.
-/

namespace SM213

open Bytes MainMemory StateTransition Until

/-! ## Loads of constants -/

/-- A state that is one step ahead of where a program halts. -/
lemma HaltsIn.of_step? {s t u : Machine} (h : HaltsIn t u) (hs : s.step? = some t) :
    HaltsIn s u := by
  obtain ⟨v, htv, hv⟩ := h
  exact ⟨v, .head hs htv, hv⟩

/-- The same for many steps. -/
lemma HaltsIn.of_reaches {s t u : Machine} (h : HaltsIn t u) (hs : Reaches Machine.step? s t) :
    HaltsIn s u := by
  obtain ⟨v, htv, hv⟩ := h
  exact ⟨v, hs.trans htv, hv⟩

namespace Cpy

/-- The instructions of `attack.s`: constants are loaded into registers. -/
def loads (vs : List (Fin 8 × JInt)) : List Instr := vs.map fun x => .loadImm x.1 x.2

/-- The same, and then `halt`. -/
def payload (vs : List (Fin 8 × JInt)) : List Instr := loads vs ++ [.halt]

/-- The registers after the constants have been loaded. -/
def assign (r : Fin 8 → JInt) (vs : List (Fin 8 × JInt)) : Fin 8 → JInt :=
  vs.foldl (fun r x => Function.update r x.1 x.2) r

/-- **Loads of constants are executed** wherever they are in memory. -/
lemma haltsIn_of_holds {vs : List (Fin 8 × JInt)} {pc : JInt} {r : Fin 8 → JInt}
    {m : MainMemory} {s : Machine} (hm : m.Holds pc (payload vs))
    (hin : pc.toNat + codeSize (payload vs) + 4 ≤ m.length) (hs : s.arch = ⟨pc, r, m⟩) :
    ∃ t, HaltsIn s t ∧ t.reg = assign r vs ∧ t.mem = m := by
  have hmem : s.mem = m := congrArg Arch.mem hs
  have hpc : s.pc = pc := congrArg Arch.pc hs
  have hlt : m.length < 2 ^ 31 := m.length_lt
  induction vs generalizing pc r s with
  | nil =>
    have hsize : codeSize (payload []) = 2 := rfl
    have hrange : s.mem.InRange s.pc 6 := by
      rw [hmem, hpc, InRange]
      omega
    have hi : s.instr? = some .halt := by
      show s.mem.instr? s.pc = _
      rw [hmem, hpc]
      exact hm.1
    refine ⟨s.fetched, ⟨s, .refl, ?_⟩, congrArg Arch.reg hs, hmem⟩
    rw [cycle_eq hrange hi trivial, if_pos rfl]
  | cons x vs ih =>
    have hsize : codeSize (payload (x :: vs)) = 6 + codeSize (payload vs) := by
      simp [payload, loads, codeSize, Instr.size]
    have hadd : (pc + 6).toNat = pc.toNat + 6 :=
      BitVec.toNat_add_of_lt (by show pc.toNat + 6 < 2 ^ 32; omega)
    obtain ⟨t, ht, harch⟩ := step?_instr (i := .loadImm x.1 x.2) (s := s)
      (by rw [hmem, hpc, InRange]; omega) (by rw [hmem, hpc]; exact hm.1) trivial (by simp)
    rw [hs] at harch
    have hin' : (pc + 6).toNat + codeSize (payload vs) + 4 ≤ m.length := by omega
    obtain ⟨u, hu, hreg, hum⟩ := ih hm.2 hin' harch (congrArg Arch.mem harch)
      (congrArg Arch.pc harch)
    exact ⟨u, hu.of_step? ht, hreg, hum⟩

/-! ## The return of `copy` -/

/-- The call of `copy` returns in the state `back`, to where the array says. -/
structure Hijacked (s back : Machine) : Prop where
  /-- `copy` is called, and it returns. -/
  returns : ∃ call t, FirstAt copyEntry s call ∧ FirstAt copyReturn call t ∧ t.step? = some back
  /-- The third word of the array is where it returns to. -/
  pc_eq : back.pc = s.mem.word (src 2)
  /-- The stack pointer is what it was at the call. -/
  sp_eq : back.reg 5 = 0x1024
  length_eq : back.mem.length = s.mem.length
  /-- The memory below `dst` is as it was. -/
  frame : ∀ j < 0x1018, back.mem.byte j = s.mem.byte j

section Source

variable {s back : Machine} {n : ℕ}

lemma reaches_of_firstAt {a : JInt} {s t : Machine} (h : FirstAt a s t) :
    Reaches Machine.step? s t :=
  reaches_of_upTo (First.reaches h)

lemma Hijacked.reaches (h : Hijacked s back) : Reaches Machine.step? s back := by
  obtain ⟨call, t, hcall, ht, hback⟩ := h.returns
  exact ((reaches_of_firstAt hcall).trans (reaches_of_firstAt ht)).tail hback

lemma AtCall.pc_eq {m : MainMemory} {t : Machine} (h : AtCall m t) : t.pc = copyEntry := by
  obtain ⟨_, _, _, ht⟩ := h
  exact congrArg Arch.pc ht

lemma AtReturn.pc_eq {m : MainMemory} {t : Machine} (h : AtReturn m n t) : t.pc = copyReturn := by
  obtain ⟨_, _, _, ht⟩ := h
  exact congrArg Arch.pc ht

/-- **`copy` returns to where the array says**, if the array is longer than `dst` and there is
memory to copy it to. -/
theorem hijacked_of_source (hpc : s.pc = 0x100) (hp : Program s.mem) (hs : Source s.mem n)
    (h₂ : 2 ≤ n) (hw : ∀ i ≤ n, s.mem.HasWord (dst i)) : ∃ back, Hijacked s back := by
  have hle := hs.le
  have hw' : ∀ i ≤ n, (framed s.mem).HasWord (dst i) := by simpa [framed, pushed] using hw
  obtain ⟨call, hat, hcalled⟩ :=
    (leads_call hp).first (fun _ => AtCall.pc_eq) ⟨hpc, rfl⟩
  have hcopy : LeadsToReturn (AtCall s.mem) (AtReturn (framed s.mem) n) :=
    (leads_while hp).trans (leads_copy (program_framed hp) (source_framed hs) hw')
  obtain ⟨t, ht, hfirst⟩ := hcopy.first (fun _ => AtReturn.pc_eq) hat
  obtain ⟨back, hstep, r, h₅, hback⟩ := ht.step? hp hs
  have hmem : back.mem = copied (framed s.mem) (n + 1) := congrArg Arch.mem hback
  refine ⟨back, ⟨call, t, hcalled, hfirst, hstep⟩, ?_, ?_, ?_, fun j hj => ?_⟩
  · have hdst : dst 2 = 0x1020 := by decide
    rw [← word_src_framed hs h₂, ← word_copied (k := n + 1) (by omega) (by omega) (hw' 2 h₂), hdst]
    exact congrArg Arch.pc hback
  · exact (congrFun (congrArg Arch.reg hback) 5).trans h₅
  · rw [hmem, length_copied, framed, length_putWord_eq, pushed, length_putWord_eq]
  · rw [hmem, byte_copied_of_lt (by omega) hj, byte_framed_of_lt (Nat.lt_trans hj (by decide))]

/-- **Instructions of the array are executed.** If the array is longer than `dst`, and its third
word is the address of loads of constants and `halt`, all of them below `dst`, then the program
halts with these constants in its registers. -/
theorem haltsIn_of_payload (vs : List (Fin 8 × JInt)) (hpc : s.pc = 0x100) (hp : Program s.mem)
    (hs : Source s.mem n) (h₂ : 2 ≤ n) (hw : ∀ i ≤ n, s.mem.HasWord (dst i))
    (hcode : s.mem.Holds (s.mem.word (src 2)) (payload vs))
    (hbelow : (s.mem.word (src 2)).toNat + codeSize (payload vs) ≤ 0x1018) :
    ∃ back t, Hijacked s back ∧ HaltsIn s t ∧ t.reg = assign back.reg vs ∧ t.mem = back.mem := by
  have hlen := hp.length_ge
  obtain ⟨back, hback⟩ := hijacked_of_source hpc hp hs h₂ hw
  have hcode' : back.mem.Holds (s.mem.word (src 2)) (payload vs) :=
    hcode.of_bytes (by omega) fun j _ hj => hback.frame j (by omega)
  obtain ⟨t, ht, hreg, hmem⟩ := haltsIn_of_holds hcode' (by rw [hback.length_eq]; omega)
    (show back.arch = ⟨_, back.reg, back.mem⟩ by rw [← hback.pc_eq]; rfl)
  exact ⟨back, t, hback, ht.of_reaches hback.reaches, hreg, hmem⟩

end Source

/-! ## The attack -/

/-- The constants of `attack.s`. -/
def ones : List (Fin 8 × JInt) := (List.finRange 8).map fun d => (d, 0xffffffff)

lemma assign_ones (r : Fin 8 → JInt) (d : Fin 8) : assign r ones d = 0xffffffff := by
  revert d
  simp [assign, ones, List.finRange, Fin.forall_fin_succ, Function.update_apply]

/-- The words of the array from the fifth one on are instructions. -/
lemma flatMap_attack : attack.flatMap beBytes =
    (attack.take 4).flatMap beBytes ++ (assemble (payload ones) ++ [0x00, 0x00]) := by
  decide

/-- They are in memory. -/
lemma holds_attack {m : MainMemory} (hm : m.mem = image attack) :
    m.Holds 0x910 (payload ones) := by
  rw [image_eq, flatMap_attack] at hm
  refine (resident_assemble (n := 0) (List.replicate 0x100 0 ++ (assemble start ++
    (List.replicate 0xf0 0 ++ (assemble main ++ (List.replicate 0xee 0 ++ (assemble copy ++
      (List.replicate 0x5d4 0 ++ (attack.take 4).flatMap beBytes)))))))
    (by simp only [hm, List.append_assoc]; rfl) ?_ (Nat.zero_le _)).holds
  simp only [List.length_append, List.length_replicate, length_assemble, length_flatMap_beBytes]
  decide

theorem haltsIn_attack : ∃ back t, Hijacked (booted attack (by decide)) back ∧
    HaltsIn (booted attack (by decide)) t ∧ t.mem = back.mem ∧
    ∀ d, t.reg d = 0xffffffff := by
  have hmem : (booted attack (by decide)).mem.mem = image attack := rfl
  have hp := program_image hmem (by decide)
  have hlen := hp.length_ge
  have hsrc : (booted attack (by decide)).mem.word (src 2) = 0x910 :=
    word_src_image (a := attack) (i := 2) hmem (by decide)
  obtain ⟨back, t, hback, ht, hreg, hm⟩ := haltsIn_of_payload ones rfl hp
    (source_image (n := 3) hmem (by decide) (by decide) (by decide) rfl) (by decide)
    (fun i hi => hp.hasWord (by rw [toNat_dst (by omega)]; omega))
    (hsrc ▸ holds_attack hmem) (by rw [hsrc]; decide)
  exact ⟨back, t, hback, ht, hm, fun d => by rw [hreg, assign_ones]⟩

end Cpy

end SM213
