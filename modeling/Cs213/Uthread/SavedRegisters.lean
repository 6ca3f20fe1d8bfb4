import Mathlib.Data.List.Forall2
import Cs213.Library.Spill
import Cs213.Uthread.Assembly

set_option relaxedAutoImplicit false
set_option autoImplicit false

/-!
# Saving and restoring the registers of a thread

What one instruction of the assembly code does, as far as the thread is concerned that the processor
executes: how far its registers have been pushed on its stack or popped from there. The stack of a
stopped thread holds its registers as long as nobody writes below its stack pointer.

## Main definitions

* `Uthread.Assembly.Room` — what the code needs of a stack.
* `Uthread.Assembly.Parked` — a stack from which a thread can be resumed.
* `Uthread.Assembly.Keeps` — the writes that leave such a stack alone.
* `Uthread.Assembly.Saving`, `Uthread.Assembly.Restoring` — how far a thread has got.

## Main results

* `Uthread.Assembly.Cpu.newThread_parked` — a new thread can be resumed.
* `Uthread.Assembly.Saving.step`, `Uthread.Assembly.Restoring.step` — one instruction.
-/

namespace Uthread.Assembly

open Spill

variable {cfg : Config}

/-! ## The code -/

/-- The registers that are saved, besides the frame pointer. -/
def Abi.saves : Abi → List Reg
  | .lp64 =>
    [.bx, .cx, .dx, .si, .di, .r8, .r9, .r10, .r11, .r12, .r13, .r14, .r15, .flags]
  | .ia32 => [.bx, .cx, .dx, .si, .di, .flags]

/-- The code that restores the registers, once the stack pointer is loaded. -/
def Config.restores (cfg : Config) : List Instr :=
  .pop .bp :: .storeFromThread cfg.operands.fromThread :: cfg.abi.saves.reverse.map .pop

/-- The code from the store of the stack pointer on. -/
def Config.swaps (cfg : Config) : List Instr :=
  .storeSp cfg.operands.fromThread :: .storeState cfg.operands.state cfg.operands.fromThread ::
    .loadSp cfg.operands.toThread :: cfg.restores

/-- The code pops in the opposite order what it has pushed. -/
lemma uthreadSwitch_eq (cfg : Config) : cfg.abi.uthreadSwitch cfg.operands =
    (cfg.abi.saves ++ [Reg.bp]).map .push ++ cfg.swaps := by
  rw [Config.swaps, Config.restores]
  cases cfg.abi <;> rfl

lemma Abi.word_pos (abi : Abi) : 0 < abi.word := by cases abi <;> decide

lemma Abi.nodup_saves (abi : Abi) : (.sp :: (abi.saves ++ [.bp])).Nodup := by
  cases abi <;> decide

/-! ## The stack of a stopped thread -/

variable (cfg) in
/-- The number of bytes that the saved registers take. -/
def Config.frameSize : ℕ := cfg.abi.word * (cfg.abi.saves.length + 1)

variable (cfg) in
/-- There is room for the registers on the stack of `v`, and `from_thread` is above them. -/
def Room (v : Tid) (R : Registers) : Prop :=
  cfg.bottom v + cfg.frameSize ≤ R .sp ∧ R .sp ≤ R .bp - cfg.offset ∧
    R .bp - cfg.offset < cfg.top v

instance (v : Tid) (R : Registers) : Decidable (Room cfg v R) :=
  inferInstanceAs (Decidable (_ ∧ _ ∧ _))

variable (cfg) in
/-- **The stack of a thread that can be resumed**: from the saved stack pointer on there are the
registers `E`. -/
structure Parked (m : ℕ → ℕ) (E : Registers) (savedSp : ℕ) : Prop where
  sp : savedSp + cfg.frameSize = E .sp
  holds : Holds cfg.abi.word m E savedSp (.bp :: cfg.abi.saves.reverse)

variable (cfg) in
/-- Two stacks do not overlap. -/
def Apart (u v : Tid) : Prop := cfg.top u ≤ cfg.bottom v ∨ cfg.top v ≤ cfg.bottom u

instance (u v : Tid) : Decidable (Apart cfg u v) := inferInstanceAs (Decidable (_ ∨ _))

variable (cfg) in
/-- The memory agrees on what is below the stack pointer of `v`, and on its `from_thread`. -/
def Keeps (v : Tid) (E : Registers) (m m' : ℕ → ℕ) : Prop :=
  (∀ x < E .sp, cfg.bottom v ≤ x → m' x = m x) ∧
    m' (E .bp - cfg.offset) = m (E .bp - cfg.offset)

instance (v : Tid) (E : Registers) (m m' : ℕ → ℕ) : Decidable (Keeps cfg v E m m') :=
  inferInstanceAs (Decidable ((∀ x < E .sp, cfg.bottom v ≤ x → m' x = m x) ∧ _))

/-- Writes in one stack leave the other ones alone. -/
lemma Apart.keeps {u v : Tid} {E : Registers} {m m' : ℕ → ℕ} (h : Apart cfg u v)
    (hroom : Room cfg v E) (hm : ∀ x, ¬ (cfg.bottom u ≤ x ∧ x < cfg.top u) → m' x = m x) :
    Keeps cfg v E m m' := by
  obtain ⟨hb, hs, ht⟩ := hroom
  refine ⟨fun x hx hbx => hm x fun hu => ?_, hm _ fun hu => ?_⟩
  · rcases h with h | h <;> omega
  · rcases h with h | h <;> omega

/-- The registers on a stack are above its bottom. -/
lemma Room.bottom_le {v : Tid} {E : Registers} (h : Room cfg v E) {rs : List Reg} {a : ℕ}
    (hlen : rs.length ≤ cfg.abi.saves.length + 1) (ha : a + cfg.abi.word * rs.length = E .sp) :
    cfg.bottom v ≤ a := by
  have hle := Nat.mul_le_mul_left cfg.abi.word hlen
  have hb := h.1
  rw [Config.frameSize] at hb
  omega

/-- Writes that keep what is below the stack pointer keep the registers there. -/
lemma holds_keeps {v : Tid} {E : Registers} {m m' : ℕ → ℕ} (hroom : Room cfg v E)
    (hm : Keeps cfg v E m m') {rs : List Reg} {a : ℕ}
    (hlen : rs.length ≤ cfg.abi.saves.length + 1) (ha : a + cfg.abi.word * rs.length = E .sp)
    (h : Holds cfg.abi.word m E a rs) : Holds cfg.abi.word m' E a rs := by
  have hb := hroom.bottom_le hlen ha
  exact h.congr (fun x hx hlt => hm.1 x (by omega) (by omega)) cfg.abi.word_pos

lemma Parked.keeps {v : Tid} {E : Registers} {m m' : ℕ → ℕ} {sp : ℕ} (h : Parked cfg m E sp)
    (hroom : Room cfg v E) (hm : Keeps cfg v E m m') : Parked cfg m' E sp where
  sp := h.sp
  holds := holds_keeps hroom hm (by simp) (by simpa [Config.frameSize] using h.sp) h.holds

/-! ## A new thread -/

section Instructions

variable (x : Cpu) (r q : Reg) (v : ℕ)

@[simp] lemma set_regs : (x.set r v).regs q = if q = r then v else x.regs q :=
  Function.update_apply ..
@[simp] lemma set_mem : (x.set r v).mem = x.mem := rfl
@[simp] lemma set_savedSp : (x.set r v).savedSp = x.savedSp := rfl
@[simp] lemma push_regs : (x.push cfg v).regs q =
    if q = .sp then x.regs .sp - cfg.abi.word else x.regs q := Function.update_apply ..
@[simp] lemma push_mem : (x.push cfg v).mem =
    Function.update x.mem (x.regs .sp - cfg.abi.word) v := rfl
@[simp] lemma push_savedSp : (x.push cfg v).savedSp = x.savedSp := rfl

end Instructions

/-- The instruction pushes the value that `r` has in `E`. -/
def Pushes (R E : Registers) : Instr → Reg → Prop
  | .push src, r => src ≠ .sp ∧ R src = E r
  | .pushImm v, r => v = E r
  | _, _ => False

/-- **A block of pushes.** -/
lemma foldl_pushes {R E : Registers} {is : List Instr} {rs : List Reg}
    (h : List.Forall₂ (Pushes R E) is rs) {x : Cpu} {done : List Reg}
    (hR : ∀ r ≠ .sp, x.regs r = R r) (hsp : cfg.abi.word * is.length ≤ x.regs .sp)
    (hdone : Holds cfg.abi.word x.mem E (x.regs .sp) done) :
    let y := is.foldl (exec cfg) x
    (∀ r ≠ .sp, y.regs r = R r) ∧ y.regs .sp + cfg.abi.word * is.length = x.regs .sp ∧
      y.savedSp = x.savedSp ∧
      (∀ a, ¬ (y.regs .sp ≤ a ∧ a < x.regs .sp) → y.mem a = x.mem a) ∧
      Holds cfg.abi.word y.mem E (y.regs .sp) (rs.reverse ++ done) := by
  induction h generalizing x done with
  | nil => exact ⟨hR, by simp, rfl, fun _ _ => rfl, hdone⟩
  | @cons i r is rs hi his ih =>
    have hw := cfg.abi.word_pos
    have hlen : cfg.abi.word * (i :: is).length = cfg.abi.word + cfg.abi.word * is.length := by
      rw [List.length_cons, Nat.mul_succ, Nat.add_comm]
    rw [hlen] at hsp
    -- the first push
    have hpush : exec cfg x i = x.push cfg (E r) := by
      cases i with
      | push src => exact congrArg (x.push cfg) ((hR src hi.1).trans hi.2)
      | pushImm v => exact congrArg (x.push cfg) hi
      | _ => exact hi.elim
    have hsp' : (x.push cfg (E r)).regs .sp = x.regs .sp - cfg.abi.word := by simp
    have hdone' : Holds cfg.abi.word (x.push cfg (E r)).mem E (x.regs .sp - cfg.abi.word)
        (r :: done) := by
      refine Holds.push ?_ hw
      rwa [Nat.sub_add_cancel (by omega)]
    obtain ⟨h1, h2, h3, h4, h5⟩ := ih (fun q hq => by simpa [hq] using hR q hq)
      (by rw [hsp']; omega) (hsp'.symm ▸ hdone')
    rw [hsp'] at h2 h4
    rw [List.foldl_cons, hpush, hlen]
    refine ⟨h1, by omega, h3, fun a ha => ?_, by simpa using h5⟩
    rw [h4 a (by omega), push_mem, Function.update_of_ne (by omega)]

/-- What `uthread_new_thread` pushes, besides the frame pointer. -/
def Abi.freshPushes : Abi → List Instr
  | .lp64 => [.pushImm 0, .pushImm 0, .pushImm 0, .pushImm 0, .pushImm 0, .push .r8, .push .r9,
    .push .r10, .push .r11, .push .r12, .push .r13, .push .r14, .push .r15, .push .flags]
  | .ia32 => [.pushImm 0, .pushImm 0, .pushImm 0, .pushImm 0, .pushImm 0, .push .flags]

/-- The code of `uthread_new_thread` pushes what `uthread_switch` pops. -/
lemma uthreadNewThread_eq (abi : Abi) (thread : Reg) : abi.uthreadNewThread thread =
    [.mov .sp .ax, .loadSp thread, .sub 512 .sp] ++ abi.freshPushes ++
      [.mov .sp .cx, .add 256 .cx, .push .cx, .storeSp thread, .mov .ax .sp] := by
  cases abi <;> rfl

lemma freshRegisters_sp (t : Tid) (R : Registers) :
    freshRegisters cfg t R .sp = cfg.top t - 512 := if_pos rfl

lemma freshRegisters_bp (t : Tid) (R : Registers) : freshRegisters cfg t R .bp =
    cfg.top t - 512 - cfg.abi.word * cfg.abi.saves.length + 256 := by
  rw [freshRegisters, if_neg (by decide), if_pos rfl]
  cases cfg.abi <;> rfl

lemma Abi.freshPushes_forall₂ (cfg : Config) (t : Tid) {R R' : Registers}
    (h : ∀ r ∉ [.ax, .sp], R r = R' r) (abi : Abi) :
    List.Forall₂ (Pushes R (freshRegisters cfg t R')) abi.freshPushes abi.saves := by
  cases abi <;> simp [freshPushes, saves, Pushes, freshRegisters, h]

/-- There is room on a new stack. -/
lemma room_fresh (cfg : Config) (t : Tid) (R : Registers) :
    Room cfg t (freshRegisters cfg t R) := by
  have hoffset := cfg.offset_le
  have hsize := cfg.size_le t
  rw [Room, Config.frameSize, freshRegisters_sp, freshRegisters_bp]
  cases cfg.abi
  · simp only [Abi.word, Abi.saves, List.length]
    omega
  · simp only [Abi.word, Abi.saves, List.length]
    omega

/-- **A new thread can be resumed**, and nothing else has been written. -/
theorem Cpu.newThread_parked (x : Cpu) (t : Tid) :
    let y := x.newThread cfg t
    Parked cfg y.mem (freshRegisters cfg t (Function.update x.regs cfg.thread t)) (y.savedSp t) ∧
      (∀ a, ¬ (cfg.bottom t ≤ a ∧ a < cfg.top t) → y.mem a = x.mem a) ∧
      ∀ v ≠ t, y.savedSp v = x.savedSp v := by
  obtain ⟨hax, hcx, hsp⟩ : cfg.thread ≠ .ax ∧ cfg.thread ≠ .cx ∧ cfg.thread ≠ .sp := by
    simpa using cfg.thread_ne
  have hw := cfg.abi.word_pos
  set R := Function.update x.regs cfg.thread t with hR
  set E := freshRegisters cfg t R with hE
  -- the stack pointer is loaded
  set y : Cpu := [.mov .sp .ax, .loadSp cfg.thread, .sub 512 .sp].foldl (exec cfg)
    { x.set cfg.thread t with savedSp := Function.update x.savedSp t (cfg.top t) } with hy
  have hyregs : ∀ r ∉ [.ax, .sp], y.regs r = R r := by
    intro r hr
    simp only [List.mem_cons, List.not_mem_nil, or_false, not_or] at hr
    simp [hy, exec, hr, hR, Function.update_apply]
  have hysp : y.regs .sp = E .sp := by
    rw [hE, freshRegisters_sp]
    simp [hy, exec, hax]
  -- the registers are pushed
  have hpushes := Abi.freshPushes_forall₂ cfg t hyregs cfg.abi
  have hlen := hpushes.length_eq
  obtain ⟨hb, hs, ht⟩ := room_fresh cfg t R
  rw [← hE] at hpushes hb hs ht
  rw [Config.frameSize, Nat.mul_succ] at hb
  have hnone : Holds cfg.abi.word y.mem E (y.regs .sp) [] := holds_nil
  obtain ⟨hzregs, hzsp, hzsaved, hzmem, hz⟩ :=
    foldl_pushes hpushes (fun _ _ => rfl) (by rw [hlen, hysp]; omega) hnone
  set z := cfg.abi.freshPushes.foldl (exec cfg) y
  rw [List.append_nil] at hz
  rw [hlen, hysp] at hzsp
  -- the frame pointer
  have hthread : z.regs cfg.thread = t := by
    rw [hzregs _ hsp, hyregs _ (by simp [hax, hsp]), hR, Function.update_self]
  have hbp : z.regs .sp + 256 = E .bp := by
    rw [hE, freshRegisters_bp, ← freshRegisters_sp t R, ← hE]
    omega
  have hnew : x.newThread cfg t = [.mov .sp .cx, .add 256 .cx, .push .cx, .storeSp cfg.thread,
      .mov .ax .sp].foldl (exec cfg) z := by
    rw [Cpu.newThread, uthreadNewThread_eq, List.foldl_append, List.foldl_append]
  have hmem : (x.newThread cfg t).mem =
      Function.update z.mem (z.regs .sp - cfg.abi.word) (E .bp) := by
    simp [hnew, exec, hbp]
  have hsaved : (x.newThread cfg t).savedSp =
      Function.update z.savedSp t (z.regs .sp - cfg.abi.word) := by
    simp [hnew, exec, hcx, hsp, hthread]
  refine ⟨⟨?_, ?_⟩, fun a ha => ?_, fun v hv => ?_⟩
  · rw [hsaved, Function.update_self, Config.frameSize, Nat.mul_succ]
    omega
  · rw [hsaved, Function.update_self, hmem]
    refine Holds.push ?_ hw
    rwa [Nat.sub_add_cancel (by omega)]
  · rw [hmem, Function.update_of_ne (by omega), hzmem a (by omega)]
    simp [hy, exec]
  · rw [hsaved, Function.update_of_ne hv, hzsaved]
    simp [hy, exec, hv]

/-! ## Saving and restoring -/

variable (cfg) in
/-- **How far the thread on a processor has been saved**: `E` are the registers with which it has
entered the code, `R` those of the processor, and the rest of the code is the last argument. -/
inductive Saving (m : ℕ → ℕ) (E R : Registers) (savedSp : ℕ) : List Instr → Prop
  | push (done rest : List Reg) (h : cfg.abi.saves ++ [.bp] = done ++ rest)
      (hR : ∀ r ≠ .sp, R r = E r) (hsp : R .sp + cfg.abi.word * done.length = E .sp)
      (hm : Holds cfg.abi.word m E (R .sp) done.reverse) :
      Saving m E R savedSp (rest.map .push ++ cfg.swaps)
  | stored (hR : ∀ r ≠ .sp, R r = E r) (hsp : R .sp = savedSp) (hm : Parked cfg m E savedSp) :
      Saving m E R savedSp cfg.swaps.tail

variable (cfg) in
/-- **How far a thread has been restored** by a processor that has executed `fromThread` before. -/
inductive Restoring (m : ℕ → ℕ) (E R : Registers) (savedSp : ℕ) (fromThread toThread : Tid) :
    List Instr → Prop
  | load (hfrom : R cfg.operands.fromThread = fromThread)
      (hto : R cfg.operands.toThread = toThread) (hm : Parked cfg m E savedSp) :
      Restoring m E R savedSp fromThread toThread (.loadSp cfg.operands.toThread :: cfg.restores)
  | popBp (hfrom : R cfg.operands.fromThread = fromThread) (hsp : R .sp = savedSp)
      (hm : Parked cfg m E savedSp) :
      Restoring m E R savedSp fromThread toThread cfg.restores
  | storeFromThread (hfrom : R cfg.operands.fromThread = fromThread) (hbp : R .bp = E .bp)
      (hsp : R .sp + cfg.abi.word * cfg.abi.saves.length = E .sp)
      (hm : Holds cfg.abi.word m E (R .sp) cfg.abi.saves.reverse) :
      Restoring m E R savedSp fromThread toThread cfg.restores.tail
  | pop (done rest : List Reg) (h : cfg.abi.saves.reverse = done ++ rest)
      (hfrom : m (E .bp - cfg.offset) = fromThread) (hR : ∀ r ∈ .bp :: done, R r = E r)
      (hsp : R .sp + cfg.abi.word * rest.length = E .sp)
      (hm : Holds cfg.abi.word m E (R .sp) rest) :
      Restoring m E R savedSp fromThread toThread (rest.map .pop)

section Local

variable {m m' : ℕ → ℕ} {E R : Registers} {v u : Tid} {sp : ℕ} {code : List Instr}

lemma Saving.keeps (h : Saving cfg m E R sp code) (hroom : Room cfg v E)
    (hm : Keeps cfg v E m m') : Saving cfg m' E R sp code := by
  cases h with
  | push done rest hsplit hR hsp hdone =>
    have hlen := congrArg List.length hsplit
    rw [List.length_append, List.length_append, List.length_singleton] at hlen
    refine .push done rest hsplit hR hsp (holds_keeps hroom hm ?_ ?_ hdone)
    · rw [List.length_reverse]
      omega
    · rwa [List.length_reverse]
  | stored hR hsp hp => exact .stored hR hsp (hp.keeps hroom hm)

lemma Restoring.keeps (h : Restoring cfg m E R sp u v code) (hroom : Room cfg v E)
    (hm : Keeps cfg v E m m') : Restoring cfg m' E R sp u v code := by
  cases h with
  | load hfrom hto hp => exact .load hfrom hto (hp.keeps hroom hm)
  | popBp hfrom hsp hp => exact .popBp hfrom hsp (hp.keeps hroom hm)
  | storeFromThread hfrom hbp hsp hs =>
    refine .storeFromThread hfrom hbp hsp (holds_keeps hroom hm ?_ ?_ hs)
    · rw [List.length_reverse]
      omega
    · rwa [List.length_reverse]
  | pop done rest hsplit hfrom hR hsp hs =>
    have hlen := congrArg List.length hsplit
    rw [List.length_append, List.length_reverse] at hlen
    exact .pop done rest hsplit (hm.2.trans hfrom) hR hsp
      (holds_keeps hroom hm (by omega) hsp hs)

variable (cfg v) in
/-- An instruction has written nothing outside the stack of `v`, and no stack pointer of another
thread. -/
def Within (x y : Cpu) : Prop :=
  (∀ a, ¬ (cfg.bottom v ≤ a ∧ a < cfg.top v) → y.mem a = x.mem a) ∧
    ∀ u ≠ v, y.savedSp u = x.savedSp u

/-- The operands are not in the frame pointer or the stack pointer. -/
lemma Operands.ne (o : Operands) : (o.fromThread ≠ .bp ∧ o.fromThread ≠ .sp) ∧
    o.toThread ≠ .sp ∧ o.state ≠ .sp := by
  have := o.nodup
  simp only [List.nodup_cons, List.mem_cons, List.not_mem_nil, or_false, not_or] at this
  tauto

/-- **An instruction that saves.** -/
theorem Saving.step {x : Cpu} {i : Instr}
    (h : Saving cfg x.mem E x.regs (x.savedSp v) (i :: code)) (hroom : Room cfg v E)
    (hself : E cfg.operands.fromThread = v)
    (hi : i ≠ .storeState cfg.operands.state cfg.operands.fromThread) :
    Saving cfg (exec cfg x i).mem E (exec cfg x i).regs ((exec cfg x i).savedSp v) code ∧
      Within cfg v x (exec cfg x i) := by
  have hw := cfg.abi.word_pos
  generalize hl : i :: code = l at h
  cases h with
  | push done rest hsplit hR hsp hdone =>
    have hlen := congrArg List.length hsplit
    rw [List.length_append, List.length_append, List.length_singleton] at hlen
    cases rest with
    | nil =>
      -- the stack pointer is stored
      obtain ⟨rfl, rfl⟩ := List.cons.inj hl
      have hfrom : x.regs cfg.operands.fromThread = v := (hR _ cfg.operands.ne.1.2).trans hself
      have hparked : Parked cfg x.mem E (x.regs .sp) := by
        rw [List.append_nil] at hsplit
        refine ⟨?_, by simpa [← hsplit] using hdone⟩
        rw [Config.frameSize, hlen, ← hsp, List.length_nil, Nat.add_zero]
      refine ⟨.stored hR ?_ ?_, fun _ _ => rfl, fun u hu => ?_⟩
      · simp only [exec, hfrom, Function.update_self]
      · simpa only [exec, hfrom, Function.update_self] using hparked
      · simp only [exec, hfrom, Function.update_of_ne hu]
    | cons r rest =>
      obtain ⟨rfl, rfl⟩ := List.cons.inj hl
      rw [List.length_cons] at hlen
      have hr : r ≠ .sp := by
        rintro rfl
        refine (List.nodup_cons.mp cfg.abi.nodup_saves).1 ?_
        rw [hsplit]
        simp
      -- there is room for one more register
      have hroom' : cfg.bottom v + cfg.abi.word * (rest.length + 1) ≤ x.regs .sp := by
        have hb := hroom.1
        rw [Config.frameSize, hlen, ← hsp, Nat.mul_add] at hb
        omega
      rw [Nat.mul_succ] at hroom'
      refine ⟨.push (done ++ [r]) rest ?_ ?_ ?_ ?_, fun a ha => ?_, fun _ _ => rfl⟩
      · rw [hsplit, List.append_assoc, List.singleton_append]
      · exact fun q hq => by simpa [exec, hq] using hR q hq
      · rw [List.length_append, List.length_singleton, Nat.mul_succ, ← hsp]
        simp only [exec, push_regs, if_true]
        omega
      · rw [List.reverse_append, List.reverse_singleton, List.singleton_append]
        simp only [exec, push_regs, if_true, push_mem, hR r hr]
        refine Holds.push ?_ hw
        rwa [Nat.sub_add_cancel (by omega)]
      · have hle := hroom.2.1
        have hlt := hroom.2.2
        simp only [exec, push_mem]
        exact Function.update_of_ne (by omega) _ _
  | stored => exact absurd (List.cons.inj hl).1 hi

/-- **An instruction that restores.** -/
theorem Restoring.step {x : Cpu} {i : Instr}
    (h : Restoring cfg x.mem E x.regs (x.savedSp v) u v (i :: code)) (hroom : Room cfg v E) :
    Restoring cfg (exec cfg x i).mem E (exec cfg x i).regs ((exec cfg x i).savedSp v) u v code ∧
      Within cfg v x (exec cfg x i) := by
  obtain ⟨⟨hfbp, hfsp⟩, -⟩ := cfg.operands.ne
  generalize hl : i :: code = l at h
  cases h with
  | load hfrom hto hp =>
    obtain ⟨rfl, rfl⟩ := List.cons.inj hl
    refine ⟨.popBp ?_ ?_ hp, fun _ _ => rfl, fun _ _ => rfl⟩
    · simpa [exec, hfsp] using hfrom
    · simp [exec, hto]
  | popBp hfrom hsp hp =>
    obtain ⟨rfl, rfl⟩ := List.cons.inj hl
    obtain ⟨hbp, hs⟩ := hp.holds
    have hsize := hp.sp
    rw [Config.frameSize, Nat.mul_succ] at hsize
    refine ⟨.storeFromThread ?_ ?_ ?_ ?_, fun _ _ => rfl, fun _ _ => rfl⟩
    · simpa [exec, hfbp, hfsp] using hfrom
    · simpa [exec, hsp] using hbp
    · simp only [exec, set_regs, if_true, hsp]
      omega
    · simpa [exec, hsp] using hs
  | storeFromThread hfrom hbp hsp hs =>
    obtain ⟨rfl, rfl⟩ := List.cons.inj hl
    obtain ⟨hb, hle, hlt⟩ := hroom
    refine ⟨.pop [] cfg.abi.saves.reverse rfl ?_ ?_ ?_ ?_, fun a ha => ?_, fun _ _ => rfl⟩
    · simp only [exec, hbp, Function.update_self, hfrom]
    · simpa [exec] using hbp
    · simpa [exec] using hsp
    · refine hs.congr (fun a ha halt => ?_) cfg.abi.word_pos
      simp only [exec, hbp]
      refine Function.update_of_ne ?_ _ _
      rw [List.length_reverse, hsp] at halt
      omega
    · simp only [exec, hbp]
      exact Function.update_of_ne (by omega) _ _
  | pop done rest hsplit hfrom hR hsp hs =>
    cases rest with
    | nil => cases hl
    | cons r rest =>
      obtain ⟨rfl, rfl⟩ := List.cons.inj hl
      obtain ⟨hr, hs⟩ := hs
      have hsplit' : cfg.abi.saves.reverse = done ++ [r] ++ rest := by
        rw [hsplit, List.append_assoc, List.singleton_append]
      refine ⟨.pop (done ++ [r]) rest hsplit' hfrom (fun q hq => ?_) ?_ ?_, fun _ _ => rfl,
        fun _ _ => rfl⟩
      · have hqsp : q ≠ .sp := by
          rintro rfl
          refine (List.nodup_cons.mp cfg.abi.nodup_saves).1 ?_
          rw [← List.mem_reverse, List.reverse_append, hsplit']
          simp only [List.mem_cons, List.mem_append, List.reverse_singleton] at hq ⊢
          tauto
        by_cases hqr : q = r
        · subst hqr
          simpa [exec, hqsp] using hr
        · have hq' : q ∈ .bp :: done := by simpa [hqr] using hq
          simpa [exec, hqsp, hqr] using hR q hq'
      · rw [List.length_cons, Nat.mul_succ] at hsp
        simp only [exec, set_regs, if_true]
        omega
      · simpa [exec] using hs

/-- When the state is about to be stored, the registers have been saved. -/
lemma Saving.of_storeState {src thread : Reg}
    (h : Saving cfg m E R sp (.storeState src thread :: code)) :
    src = cfg.operands.state ∧ thread = cfg.operands.fromThread ∧
      code = .loadSp cfg.operands.toThread :: cfg.restores ∧ (∀ r ≠ .sp, R r = E r) ∧
      R .sp = sp ∧ Parked cfg m E sp := by
  generalize hl : Instr.storeState src thread :: code = l at h
  cases h with
  | push done rest =>
    cases rest with
    | nil => cases hl
    | cons r rest => cases hl
  | stored hR hsp hp =>
    obtain ⟨e, rfl⟩ := List.cons.inj hl
    obtain ⟨rfl, rfl⟩ := Instr.storeState.inj e
    exact ⟨rfl, rfl, rfl, hR, hsp, hp⟩

/-- The code that restores does not store the state. -/
lemma Restoring.not_storeState {src thread : Reg} :
    ¬ Restoring cfg m E R sp u v (.storeState src thread :: code) := by
  intro h
  generalize hl : Instr.storeState src thread :: code = l at h
  cases h with
  | pop done rest =>
    cases rest with
    | nil => cases hl
    | cons r rest => cases hl
  | _ => cases hl

/-- A thread is saved until its processor executes the other one. -/
lemma Saving.ne_nil (h : Saving cfg m E R sp code) : code ≠ [] := by
  cases h <;> simp [Config.swaps]

/-- At the end of the code the registers have been restored. -/
lemma Restoring.of_nil (h : Restoring cfg m E R sp u v []) :
    m (R .bp - cfg.offset) = u ∧ ∀ r ∈ .sp :: .bp :: cfg.abi.saves, R r = E r := by
  generalize hl : ([] : List Instr) = l at h
  cases h with
  | pop done rest hsplit hfrom hR hsp =>
    cases rest with
    | cons r rest => cases hl
    | nil =>
      rw [List.append_nil] at hsplit
      refine ⟨by rwa [hR .bp List.mem_cons_self], List.forall_mem_cons.mpr ⟨by simpa using hsp, ?_⟩⟩
      intro r hr
      refine hR r ?_
      rwa [← hsplit, List.mem_cons, List.mem_reverse, ← List.mem_cons]
  | _ => cases hl

end Local

end Uthread.Assembly
