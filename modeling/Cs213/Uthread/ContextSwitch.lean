import Cs213.Uthread.SavedRegisters
import Cs213.Uthread.ForkJoin

set_option relaxedAutoImplicit false
set_option autoImplicit false

/-!
# The context switch gives every thread its registers back

A thread that stops leaves its registers on its stack. Whichever processor runs it again, however
much later, and whatever the processors do in the meantime, one instruction at a time, the thread
finds the registers, the stack pointer and the frame pointer it had, and in `from_thread` the thread
that this processor has executed before. For this no processor may write on the stack of a stopped
thread below its stack pointer, and the spin loop of `uthread_switch` is needed: the state that it
waits for is stored after the stack pointer.

## Main definitions

* `Uthread.Assembly.At` — where the registers of a thread are.
* `Uthread.Assembly.Safe` — what the context switch needs of the rest of the program.
* `Uthread.Assembly.SwitchesBack` — what the context switch guarantees.

## Main results

* `Uthread.Assembly.Good.step` — one step.
* `Uthread.Assembly.switchesBack_of_run` — every run.
-/

namespace Uthread.Assembly

open Runs

variable {N : ℕ} {cfg : Config} {s t : Sys N}

/-! ## The registers of a thread -/

variable (cfg) in
/-- **Where the registers of a thread are**: on its stack, in the processor that executes it, or in
between. -/
inductive At (s : Sys N) (v : Tid) : Prop
  | parked (hoff : ∀ q, (s.core.proc q).thread ≠ v) (hroom : Room cfg v (s.entry v))
      (hm : Parked cfg s.mem (s.entry v) (s.savedSp v))
  | outside (p : Fin N) (hp : (s.core.proc p).thread = v) (hcode : s.code p = none)
  | saving (p : Fin N) (hp : (s.core.proc p).thread = v) (c : Site) (u : Tid) (code : List Instr)
      (hpc : (s.core.proc p).pc = .switchSwap c u) (hroom : Room cfg v (s.entry v))
      (hfrom : s.entry v cfg.operands.fromThread = v) (hto : s.entry v cfg.operands.toThread = u)
      (hstate : s.entry v cfg.operands.state = c.stoppingThreadState.number)
      (hcode : s.code p = some code)
      (hm : Saving cfg s.mem (s.entry v) (s.regs p) (s.savedSp v) code)
  | restoring (p : Fin N) (hp : (s.core.proc p).thread = v) (u : Tid) (f : Frame)
      (code : List Instr) (hpc : (s.core.proc p).pc = .switchDying u f)
      (hroom : Room cfg v (s.entry v)) (hcode : s.code p = some code)
      (hm : Restoring cfg s.mem (s.entry v) (s.regs p) (s.savedSp v) u v code)

/-- Thread `v` has not exited, and is stopped or in the assembly code. -/
def Sys.InSwitch (s : Sys N) (v : Tid) : Prop :=
  ¬ s.core.exited v ∧ ∀ q, (s.core.proc q).thread = v → s.code q ≠ none

instance (s : State N) (v : Tid) : Decidable (s.exited v) :=
  inferInstanceAs (Decidable (_ ∨ _))

instance (s : Sys N) (v : Tid) : Decidable (s.InSwitch v) :=
  inferInstanceAs (Decidable (¬ _ ∧ ∀ q, (s.core.proc q).thread = v → _))

/-- What a step leaves alone leaves the registers of a thread where they are. -/
lemma At.frame {v : Tid} (h : At cfg s v) (hx : ¬ s.core.exited v)
    (halone : ∀ p q, (s.core.proc p).thread = (s.core.proc q).thread → p = q) {p : Fin N}
    (hproc : ∀ q ≠ p, t.core.proc q = s.core.proc q ∧ t.code q = s.code q ∧ t.regs q = s.regs q)
    (hs : (s.core.proc p).thread ≠ v) (ht : (t.core.proc p).thread ≠ v)
    (hentry : t.entry v = s.entry v) (hsp : t.savedSp v = s.savedSp v)
    (hm : Room cfg v (s.entry v) → s.InSwitch v → Keeps cfg v (s.entry v) s.mem t.mem) :
    At cfg t v := by
  cases h with
  | parked hoff hroom hp =>
    have hkeeps := hm hroom ⟨hx, fun q hq => absurd hq (hoff q)⟩
    refine .parked (fun q => ?_) (hentry ▸ hroom) ?_
    · by_cases hq : q = p
      · exact hq ▸ ht
      · rw [(hproc q hq).1]
        exact hoff q
    · rw [hentry, hsp]
      exact hp.keeps hroom hkeeps
  | outside q hq hcode =>
    obtain ⟨h1, h2, -⟩ := hproc q fun e => hs (e ▸ hq)
    exact .outside q (h1 ▸ hq) (h2.trans hcode)
  | saving q hq c u code hpc hroom hfrom hto hstate hcode hsaving =>
    obtain ⟨h1, h2, h3⟩ := hproc q fun e => hs (e ▸ hq)
    have hkeeps := hm hroom ⟨hx, fun q' hq' => by
      rw [halone q' q (hq'.trans hq.symm), hcode]
      exact Option.some_ne_none _⟩
    rw [← h1] at hq hpc
    rw [← hentry] at hfrom hto hstate
    refine .saving q hq c u code hpc (hentry ▸ hroom) hfrom hto hstate (h2.trans hcode) ?_
    rw [hentry, hsp, h3]
    exact hsaving.keeps hroom hkeeps
  | restoring q hq u f code hpc hroom hcode hrest =>
    obtain ⟨h1, h2, h3⟩ := hproc q fun e => hs (e ▸ hq)
    have hkeeps := hm hroom ⟨hx, fun q' hq' => by
      rw [halone q' q (hq'.trans hq.symm), hcode]
      exact Option.some_ne_none _⟩
    rw [← h1] at hq hpc
    refine .restoring q hq u f code hpc (hentry ▸ hroom) (h2.trans hcode) ?_
    rw [hentry, hsp, h3]
    exact hrest.keeps hroom hkeeps

/-! ## The conditions -/

variable (cfg) in
/-- **What the context switch needs**: no joiner is woken up twice; a new stack does not overlap the
stacks of the threads that have not exited; nobody writes below the stack pointer of a thread that
is stopped; and there is room on the stack on which the code is entered. -/
def Safe (s : Sys N) : Act N → Prop
  | .lib a => ¬ Rewakes (fun _ => True) s.core a ∧
    ∀ p, a = .call p .create → ∀ v < s.core.fresh, ¬ s.core.exited v → Apart cfg s.core.fresh v
  | .compute _ _ m => ∀ v < s.core.fresh, s.InSwitch v → Keeps cfg v (s.entry v) s.mem m
  | .asm p => s.code p = none → Room cfg (s.core.proc p).thread (s.regs p)

instance (s : Sys N) : DecidablePred (Safe cfg s)
  | .lib (.run p) => decidable_of_iff (¬ Rewakes (fun _ => True) s.core (.run p))
    ⟨fun h => ⟨h, nofun⟩, And.left⟩
  | .lib (.call p op) => decidable_of_iff (¬ Rewakes (fun _ => True) s.core (.call p op) ∧
      (op = .create → ∀ v < s.core.fresh, ¬ s.core.exited v → Apart cfg s.core.fresh v))
    (and_congr_right fun _ => ⟨fun h _ e => h (Uthread.Act.call.inj e).2, fun h e => h p (e ▸ rfl)⟩)
  | .compute _ _ m => inferInstanceAs
    (Decidable (∀ v < s.core.fresh, s.InSwitch v → Keeps cfg v (s.entry v) s.mem m))
  | .asm p => inferInstanceAs (Decidable (s.code p = none → _))

/-- The invariant of the runs. -/
structure Good (cfg : Config) (s : Sys N) : Prop where
  inv : Inv (fun _ => True) s.core
  apart : ∀ u < s.core.fresh, ∀ v < s.core.fresh, u ≠ v → ¬ s.core.exited u →
    ¬ s.core.exited v → Apart cfg u v
  registers : ∀ v < s.core.fresh, ¬ s.core.exited v → At cfg s v

/-! ## The kinds of steps -/

/-- A step of the thread system. -/
lemma step_lib {a : Uthread.Act N} (h : step cfg s (.lib a) = some t) :
    s.code a.proc = none ∧ (∀ c u, (s.core.proc a.proc).pc ≠ .switchSwap c u) ∧
      ∃ c, Uthread.step s.core a = some c ∧
        ((∃ p, a = .call p .create ∧ t = { s.newThread cfg p s.core.fresh with core := c }) ∨
          (∀ p, a ≠ .call p .create) ∧ t = { s with core := c }) := by
  simp only [step] at h
  split at h
  · cases h
  · cases h
  · rename_i hcode hpc
    obtain ⟨c, hc, rfl⟩ := Option.map_eq_some_iff.mp h
    refine ⟨hcode, fun c' u e => hpc c' u e, c, hc, ?_⟩
    split
    · exact .inl ⟨_, rfl, rfl⟩
    · rename_i hne
      exact .inr ⟨hne, rfl⟩

/-- A step of the assembly code. -/
lemma step_asm {p : Fin N} (h : step cfg s (.asm p) = some t) :
    (∃ c u, s.code p = none ∧ (s.core.proc p).pc = .switchSwap c u ∧ t = s.load cfg p c u) ∨
    (s.code p = some [] ∧ t = s.goto p none) ∨
    (∃ src thread rest c, s.code p = some (.storeState src thread :: rest) ∧
      Uthread.step s.core (.run p) = some c ∧ t = { s.goto p (some rest) with core := c }) ∨
    ∃ i rest, s.code p = some (i :: rest) ∧ (∀ src thread, i ≠ .storeState src thread) ∧
      t = (s.setCpu p (exec cfg (s.cpu p) i)).goto p (some rest) := by
  simp only [step] at h
  split at h
  · rename_i hcode
    split at h
    · rename_i c u hpc
      cases h
      exact .inl ⟨c, u, hcode, hpc, rfl⟩
    · cases h
  · rename_i hcode
    cases h
    exact .inr (.inl ⟨hcode, rfl⟩)
  · rename_i src thread rest hcode
    obtain ⟨c, hc, rfl⟩ := Option.map_eq_some_iff.mp h
    exact .inr (.inr (.inl ⟨src, thread, rest, c, hcode, hc, rfl⟩))
  · rename_i i rest hne hcode
    cases h
    exact .inr (.inr (.inr ⟨i, rest, hcode, fun src thread e => hne src thread e, rfl⟩))

lemma Apart.symm {u v : Tid} (h : Apart cfg u v) : Apart cfg v u := Or.symm h

namespace Good

variable (h : Good cfg s)

include h

/-- A processor executes a thread that has not exited. -/
lemma thread (p : Fin N) :
    (s.core.proc p).thread < s.core.fresh ∧ ¬ s.core.exited (s.core.proc p).thread :=
  ⟨h.inv.allocated.thread p, fun he => h.inv.owned.off _ he p rfl⟩

lemma alone (p q : Fin N) : (s.core.proc p).thread = (s.core.proc q).thread → p = q :=
  h.inv.owned.alone p q trivial

/-- What `At` says of the thread on a processor that is in the assembly code. -/
lemma at_code {p : Fin N} {code : List Instr} (hcode : s.code p = some code) :
    let v := (s.core.proc p).thread
    Room cfg v (s.entry v) ∧
      ((∃ c u, (s.core.proc p).pc = .switchSwap c u ∧ s.entry v cfg.operands.fromThread = v ∧
        s.entry v cfg.operands.toThread = u ∧
        s.entry v cfg.operands.state = c.stoppingThreadState.number ∧
        Saving cfg s.mem (s.entry v) (s.regs p) (s.savedSp v) code) ∨
      ∃ u f, (s.core.proc p).pc = .switchDying u f ∧
        Restoring cfg s.mem (s.entry v) (s.regs p) (s.savedSp v) u v code) := by
  obtain ⟨hlt, hx⟩ := h.thread p
  cases h.registers _ hlt hx with
  | parked hoff => exact absurd rfl (hoff p)
  | outside q hq hq' =>
    obtain rfl := h.alone q p hq
    rw [hcode] at hq'
    cases hq'
  | saving q hq c u code' hpc hroom hfrom hto hstate hcode' hm =>
    obtain rfl := h.alone q p hq
    obtain rfl := Option.some.inj (hcode.symm.trans hcode')
    exact ⟨hroom, .inl ⟨c, u, hpc, hfrom, hto, hstate, hm⟩⟩
  | restoring q hq u f code' hpc hroom hcode' hm =>
    obtain rfl := h.alone q p hq
    obtain rfl := Option.some.inj (hcode.symm.trans hcode')
    exact ⟨hroom, .inr ⟨u, f, hpc, hm⟩⟩

/-- A step of the thread system outside the assembly code. -/
lemma step_lib {a : Uthread.Act N} (hC : Safe cfg s (.lib a))
    (ht : step cfg s (.lib a) = some t) : Good cfg t := by
  obtain ⟨hcode, hpc, c, hc, hcases⟩ := Assembly.step_lib ht
  obtain ⟨hrewake, hnew⟩ := hC
  have htrans := trans_of_step hc
  have hinv := h.inv.step (fun _ _ => trivial) hrewake hc
  have hthread : (c.proc a.proc).thread = (s.core.proc a.proc).thread :=
    htrans.thread.resolve_right fun ⟨c', e⟩ => hpc c' _ e
  have hx : ∀ v, ¬ c.exited v → ¬ s.core.exited v := fun v =>
    mt (h.inv.owned.exited_mono h.inv.allocated htrans)
  rcases hcases with ⟨p, rfl, rfl⟩ | ⟨hne, rfl⟩
  · -- a new thread
    have hfresh : c.fresh = s.core.fresh + 1 := htrans.fresh_of_create
    have hnew := hnew p rfl
    obtain ⟨hparked, hmem, hsaved⟩ := @Cpu.newThread_parked cfg (s.cpu p) s.core.fresh
    refine ⟨hinv, fun u hu v hv huv hxu hxv => ?_, fun v hv hxv => ?_⟩
    · rw [hfresh, Nat.lt_succ_iff_lt_or_eq] at hu hv
      rcases hu with hu | rfl <;> rcases hv with hv | rfl
      · exact h.apart u hu v hv huv (hx u hxu) (hx v hxv)
      · exact (hnew u hu (hx u hxu)).symm
      · exact hnew v hv (hx v hxv)
      · exact absurd rfl huv
    · rw [hfresh, Nat.lt_succ_iff_lt_or_eq] at hv
      by_cases hp : (s.core.proc p).thread = v
      · exact .outside p (hthread.trans hp) hcode
      rcases hv with hv | rfl
      · refine (h.registers v hv (hx v hxv)).frame (p := p) (hx v hxv) h.alone
          (fun q hq => ⟨htrans.proc_of_ne hq, rfl, Function.update_of_ne hq _ _⟩) hp
          (fun e => hp (hthread.symm.trans e)) (Function.update_of_ne hv.ne _ _)
          (hsaved v hv.ne) fun hroom _ => (hnew v hv (hx v hxv)).keeps hroom hmem
      · have hentry : (s.newThread cfg p s.core.fresh).entry s.core.fresh =
            freshRegisters cfg s.core.fresh (Function.update (s.regs p) cfg.thread s.core.fresh) :=
          Function.update_self ..
        refine .parked (fun q => ?_) ?_ ?_
        · by_cases hq : q = p
          · subst hq
            exact fun e => hp (hthread.symm.trans e)
          · show (c.proc q).thread ≠ s.core.fresh
            rw [htrans.proc_of_ne hq]
            exact (h.inv.allocated.thread q).ne
        · show Room cfg _ ((s.newThread cfg p s.core.fresh).entry _)
          rw [hentry]
          exact room_fresh cfg _ _
        · show Parked cfg _ ((s.newThread cfg p s.core.fresh).entry _) _
          rw [hentry]
          exact hparked
  · have hfresh : c.fresh = s.core.fresh := htrans.fresh_eq fun e => by
      cases a with
      | call p op => exact hne p (congrArg _ (Option.some.inj e))
      | run p => cases e
    refine ⟨hinv, ?_, fun v hv hxv => ?_⟩
    · rw [hfresh]
      exact fun u hu v hv huv hxu hxv => h.apart u hu v hv huv (hx u hxu) (hx v hxv)
    · by_cases hp : (s.core.proc a.proc).thread = v
      · exact .outside a.proc (hthread.trans hp) hcode
      · exact (h.registers v (hfresh ▸ hv) (hx v hxv)).frame (hx v hxv) h.alone
          (fun q hq => ⟨htrans.proc_of_ne hq, rfl, rfl⟩) hp (hthread ▸ hp) rfl rfl
          fun _ _ => ⟨fun _ _ _ => rfl, rfl⟩

/-- A step of compiled code. -/
lemma step_compute {p : Fin N} {R : Registers} {m : ℕ → ℕ} (hC : Safe cfg s (.compute p R m))
    (ht : step cfg s (.compute p R m) = some t) : Good cfg t := by
  simp only [step] at ht
  split at ht
  · cases ht
  rename_i hcode
  cases ht
  refine ⟨h.inv, h.apart, fun v hv hx => ?_⟩
  by_cases hp : (s.core.proc p).thread = v
  · exact .outside p hp hcode
  · exact (h.registers v hv hx).frame hx h.alone
      (fun q hq => ⟨rfl, rfl, Function.update_of_ne hq _ _⟩) hp hp rfl rfl
      fun _ hin => hC v hv hin

/-- A processor enters the assembly code. -/
lemma step_load {p : Fin N} {c : Site} {u : Tid} (hpc : (s.core.proc p).pc = .switchSwap c u)
    (hroom : Room cfg (s.core.proc p).thread (s.regs p)) : Good cfg (s.load cfg p c u) := by
  have hnodup := cfg.operands.nodup
  simp only [List.nodup_cons, List.mem_cons, List.not_mem_nil, or_false, not_or] at hnodup
  obtain ⟨⟨hft, hfs, hfb, hfp⟩, ⟨hts, htb, htp⟩, ⟨hsb, hss⟩, -⟩ := hnodup
  set x := (((s.cpu p).set cfg.operands.fromThread (s.core.proc p).thread).set
    cfg.operands.toThread u).set cfg.operands.state c.stoppingThreadState.number with hx
  have hxsp : x.regs .sp = s.regs p .sp := by
    simp [hx, Sys.cpu, Ne.symm hfp, Ne.symm htp, Ne.symm hss]
  have hxbp : x.regs .bp = s.regs p .bp := by
    simp [hx, Sys.cpu, Ne.symm hfb, Ne.symm htb, Ne.symm hsb]
  refine ⟨h.inv, h.apart, fun v hv hxv => ?_⟩
  by_cases hp : (s.core.proc p).thread = v
  · subst hp
    have hentry : (s.load cfg p c u).entry (s.core.proc p).thread = x.regs :=
      Function.update_self ..
    have hregs : (s.load cfg p c u).regs p = x.regs := Function.update_self ..
    have hroom' : Room cfg (s.core.proc p).thread x.regs := by
      rwa [Room, hxsp, hxbp]
    refine .saving p rfl c u _ hpc (hentry ▸ hroom') ?_ ?_ ?_ (Function.update_self ..) ?_
    · rw [hentry]
      simp [hx, hft, hfs]
    · rw [hentry]
      simp [hx, hts]
    · rw [hentry]
      simp [hx]
    · rw [uthreadSwitch_eq, hentry, hregs]
      exact .push [] _ rfl (fun _ _ => rfl) (by simp) Spill.holds_nil
  · exact (h.registers v hv hxv).frame hxv h.alone
      (fun q hq => ⟨rfl, Function.update_of_ne hq _ _, Function.update_of_ne hq _ _⟩) hp hp
      (Function.update_of_ne (Ne.symm hp) _ _) rfl fun _ _ => ⟨fun _ _ _ => rfl, rfl⟩

/-- A processor leaves the assembly code. -/
lemma step_leave {p : Fin N} : Good cfg (s.goto p none) := by
  refine ⟨h.inv, h.apart, fun v hv hx => ?_⟩
  by_cases hp : (s.core.proc p).thread = v
  · exact .outside p hp (Function.update_self ..)
  · exact (h.registers v hv hx).frame hx h.alone
      (fun q hq => ⟨rfl, Function.update_of_ne hq _ _, rfl⟩) hp hp rfl rfl
      fun _ _ => ⟨fun _ _ _ => rfl, rfl⟩

/-- An instruction that the other processors do not see. -/
lemma step_instr {p : Fin N} {i : Instr} {rest : List Instr} (hcode : s.code p = some (i :: rest))
    (hi : ∀ src thread, i ≠ .storeState src thread) :
    Good cfg ((s.setCpu p (exec cfg (s.cpu p) i)).goto p (some rest)) := by
  obtain ⟨hlt, hx⟩ := h.thread p
  obtain ⟨hroom, hcases⟩ := h.at_code hcode
  set v := (s.core.proc p).thread with hv
  set y := exec cfg (s.cpu p) i with hy
  have hregs : ((s.setCpu p y).goto p (some rest)).regs p = y.regs := Function.update_self ..
  have hcode' : ((s.setCpu p y).goto p (some rest)).code p = some rest := Function.update_self ..
  have hat : At cfg ((s.setCpu p y).goto p (some rest)) v ∧ Within cfg v (s.cpu p) y := by
    rcases hcases with ⟨c, u, hpc, hfrom, hto, hstate, hm⟩ | ⟨u, f, hpc, hm⟩
    · obtain ⟨hm, hwithin⟩ := Saving.step (x := s.cpu p) hm hroom hfrom (hi _ _)
      exact ⟨.saving p rfl c u rest hpc hroom hfrom hto hstate hcode' (hregs.symm ▸ hm), hwithin⟩
    · obtain ⟨hm, hwithin⟩ := Restoring.step (x := s.cpu p) hm hroom
      exact ⟨.restoring p rfl u f rest hpc hroom hcode' (hregs.symm ▸ hm), hwithin⟩
  obtain ⟨hat, hmem, hsaved⟩ := hat
  refine ⟨h.inv, h.apart, fun w hw hxw => ?_⟩
  by_cases hp : v = w
  · exact hp ▸ hat
  · exact (h.registers w hw hxw).frame hxw h.alone
      (fun q hq => ⟨rfl, Function.update_of_ne hq _ _, Function.update_of_ne hq _ _⟩) hp hp rfl
      (hsaved w (Ne.symm hp)) fun hroom' _ => (h.apart v hlt w hw hp hx hxw).keeps hroom' hmem

/-- **The store that the other processors see**: from now on the thread can be resumed, and the
processor executes the other one. -/
lemma step_storeState {p : Fin N} {src thread : Reg} {rest : List Instr} {c : State N}
    (hcode : s.code p = some (.storeState src thread :: rest))
    (hc : Uthread.step s.core (.run p) = some c) :
    Good cfg { s.goto p (some rest) with core := c } := by
  have htrans := trans_of_step hc
  obtain ⟨hroom, ⟨site, u, hpc, hfrom, hto, -, hm⟩ | ⟨u, f, hpc, hm⟩⟩ := h.at_code hcode
  swap
  · exact absurd hm Restoring.not_storeState
  set v := (s.core.proc p).thread with hv
  obtain ⟨-, -, rfl, hR, -, hparked⟩ := hm.of_storeState
  have hinv : Inv (fun _ => True) c := by
    refine h.inv.step (fun _ _ => trivial) ?_ hc
    rintro ⟨w, hw, -⟩
    rw [Act.proc_run, hpc] at hw
    cases hw
  have hproc : c.proc p = ⟨u, .switchDying v
      (if u = v then .inside site else (s.core.tcb u).savedSp)⟩ := by
    have he : uthreadSwap s.core p site u = c := by
      simpa [Uthread.step, Uthread.exec, hpc] using hc
    rw [← he, uthreadSwap_proc, if_pos rfl]
  have hfresh : c.fresh = s.core.fresh := htrans.fresh_eq (by simp [Act.begins])
  have hx : ∀ w, ¬ c.exited w → ¬ s.core.exited w := fun w =>
    mt (h.inv.owned.exited_mono h.inv.allocated htrans)
  -- the other thread is stopped
  have hoff := h.inv.owned.stopped p u (by rw [hpc, Pc.target]) trivial
  refine ⟨hinv, ?_, fun w hw hxw => ?_⟩
  · rw [hfresh]
    exact fun a ha b hb hab hxa hxb => h.apart a ha b hb hab (hx a hxa) (hx b hxb)
  rw [hfresh] at hw
  have hthread : (c.proc p).thread = u := by rw [hproc]
  by_cases hwu : u = w
  · -- it is about to be restored
    subst hwu
    cases h.registers u hw (hx u hxw) with
    | outside q hq => exact absurd hq (hoff q)
    | saving q hq => exact absurd hq (hoff q)
    | restoring q hq => exact absurd hq (hoff q)
    | parked _ hroom' hparked' =>
      refine .restoring p hthread v _ _ (by rw [hproc]) hroom' (Function.update_self ..) ?_
      refine .load ?_ ?_ hparked'
      · exact (hR _ cfg.operands.ne.1.2).trans hfrom
      · exact (hR _ cfg.operands.ne.2.1).trans hto
  by_cases hwv : v = w
  · -- the thread is on its stack
    subst hwv
    refine .parked (fun q e => ?_) hroom hparked
    by_cases hq : q = p
    · subst hq
      exact hwu (hthread.symm.trans e)
    · have hqe : (c.proc q).thread = v := e
      rw [htrans.proc_of_ne hq] at hqe
      exact hq (h.alone q p hqe)
  · exact (h.registers w hw (hx w hxw)).frame (hx w hxw) h.alone
      (fun q hq => ⟨htrans.proc_of_ne hq, Function.update_of_ne hq _ _, rfl⟩) hwv
      (fun e => hwu (hthread.symm.trans e)) rfl rfl fun _ _ => ⟨fun _ _ _ => rfl, rfl⟩

/-- **One step.** -/
theorem step {a : Act N} (hC : Safe cfg s a) (ht : step cfg s a = some t) : Good cfg t := by
  cases a with
  | lib a => exact h.step_lib hC ht
  | compute p R m => exact h.step_compute hC ht
  | asm p =>
    rcases step_asm ht with ⟨c, u, hcode, hpc, rfl⟩ | ⟨-, rfl⟩ |
      ⟨src, thread, rest, c, hcode, hc, rfl⟩ | ⟨i, rest, hcode, hi, rfl⟩
    · exact h.step_load hpc (hC hcode)
    · exact h.step_leave
    · exact h.step_storeState hcode hc
    · exact h.step_instr hcode hi

end Good

/-! ## Every run -/

/-- The invariant holds when `uthread_init` returns. -/
lemma good_init (hN : 0 < N) (R : Registers) (Rs : Fin N → Registers) (m : ℕ → ℕ)
    (hapart : ∀ u ≤ N, ∀ v ≤ N, u ≠ v → Apart cfg u v) : Good cfg (init cfg R Rs m) where
  inv := inv_init hN _
  apart u hu v hv huv _ _ := hapart u (Nat.lt_succ_iff.mp hu) v (Nat.lt_succ_iff.mp hv) huv
  registers v hv _ := by
    by_cases h1 : v = 1
    · subst h1
      refine .parked (fun q => ?_) (room_fresh cfg _ _) (Cpu.newThread_parked _ _).1
      simp only [init, Uthread.init]
      split <;> grind
    · by_cases h0 : v = 0
      · exact .outside ⟨0, hN⟩ (by simp [init, Uthread.init, h0]) rfl
      · obtain ⟨k, rfl⟩ : ∃ k, v = k + 2 := Nat.exists_eq_add_of_le' (by grind)
        exact .outside ⟨k + 1, Nat.lt_of_succ_lt_succ hv⟩ (by simp [init, Uthread.init]) rfl

/-- **What the context switch guarantees.** -/
structure SwitchesBack (cfg : Config) (s : Sys N) : Prop where
  /-- At the end of the code a processor has the registers with which the thread that it executes
  now has entered the code, or with which it is to start. -/
  registers : ∀ p, s.code p = some [] →
    ∀ r ∈ .sp :: .bp :: cfg.abi.saves, s.regs p r = s.entry (s.core.proc p).thread r
  /-- In its variable `from_thread` it finds the thread that the processor has executed before. -/
  fromThread : ∀ p, s.code p = some [] → ∃ u f, (s.core.proc p).pc = .switchDying u f ∧
    s.mem (s.regs p .bp - cfg.offset) = u
  /-- The state is stored in the control block of the running thread, when its stack pointer has
  been stored. -/
  state : ∀ p src thread rest, s.code p = some (.storeState src thread :: rest) →
    s.regs p thread = (s.core.proc p).thread ∧
      s.savedSp (s.core.proc p).thread = s.regs p .sp ∧
      ∃ c u, (s.core.proc p).pc = .switchSwap c u ∧
        s.regs p src = c.stoppingThreadState.number

/-- The invariant guarantees it. -/
lemma Good.switchesBack (h : Good cfg s) : SwitchesBack cfg s := by
  refine ⟨fun p hcode => ?_, fun p hcode => ?_, fun p src thread rest hcode => ?_⟩
  · obtain ⟨-, ⟨_, _, -, -, -, -, hm⟩ | ⟨u, f, -, hm⟩⟩ := h.at_code hcode
    · exact absurd rfl hm.ne_nil
    · exact hm.of_nil.2
  · obtain ⟨-, ⟨_, _, -, -, -, -, hm⟩ | ⟨u, f, hpc, hm⟩⟩ := h.at_code hcode
    · exact absurd rfl hm.ne_nil
    · exact ⟨u, f, hpc, hm.of_nil.1⟩
  · obtain ⟨-, ⟨c, u, hpc, hfrom, -, hstate, hm⟩ | ⟨u, f, -, hm⟩⟩ := h.at_code hcode
    · obtain ⟨rfl, rfl, -, hR, hsp, -⟩ := hm.of_storeState
      exact ⟨(hR _ cfg.operands.ne.1.2).trans hfrom, hsp.symm, c, u, hpc,
        (hR _ cfg.operands.ne.2.2).trans hstate⟩
    · exact absurd hm Restoring.not_storeState

/-- **Every thread gets its registers back**, in every run on `N` processors. -/
theorem switchesBack_of_run (hN : 0 < N) (R : Registers) (Rs : Fin N → Registers) (m : ℕ → ℕ)
    (hapart : ∀ u ≤ N, ∀ v ≤ N, u ≠ v → Apart cfg u v) (acts : List (Act N))
    (hC : AllSteps (step cfg) (Safe cfg) (init cfg R Rs m) acts) :
    Throughout (step cfg) (SwitchesBack cfg) (init cfg R Rs m) acts := fun pre suf e t ht =>
  (throughout_of_invariant (fun _ _ _ h ha hs => h.step ha hs) (good_init hN R Rs m hapart) hC
    pre suf e t ht).switchesBack

/-- Stacks of a kilobyte each. -/
def kilobytes : Config where
  abi := .lp64
  operands := ⟨.dx, .si, .cx, by decide⟩
  thread := .bx
  thread_ne := by decide
  offset := 24
  offset_le := by decide
  bottom t := 1024 * t
  top t := 1024 * t + 1024
  size_le _ := Nat.le_refl _

/-- Some registers, and a stack pointer. -/
def stackAt (sp : ℕ) (r : Reg) : ℕ :=
  if r = .sp then sp else if r = .bp then sp + 64 else if r = .bx then 7 else 0

/-- A processor goes through `uthread_yield`, and through the assembly code to its end. -/
def yieldsAt (p : Fin 2) : List (Act 2) :=
  .lib (.call p .yield) :: List.replicate 3 (.lib (.run p)) ++ List.replicate 35 (.asm p)

/-- Thread `0` stops on processor `0` and goes on on processor `1`. -/
def migrates : List (Act 2) := yieldsAt 0 ++ yieldsAt 1

theorem switchesBack_migrates :
    (run (step kilobytes) (init kilobytes (stackAt 512) (fun _ => stackAt 2560) id) migrates).map
        (fun s => ((s.core.proc 1).thread, s.code 1, s.regs 1 .sp, s.mem (s.regs 1 .bp - 24))) =
      some (0, some [], 512, 2) ∧
      Throughout (step kilobytes) (SwitchesBack kilobytes)
        (init kilobytes (stackAt 512) (fun _ => stackAt 2560) id) migrates :=
  ⟨by decide +kernel,
    switchesBack_of_run (by decide) _ _ _ (by decide) migrates (by decide +kernel)⟩

end Uthread.Assembly
