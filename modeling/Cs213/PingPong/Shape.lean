import Mathlib.Tactic.FinCases
import Cs213.PingPong.Program
import Cs213.Uthread.ForkJoin

set_option relaxedAutoImplicit false
set_option autoImplicit false

/-!
# The threads of the program

How far `main` has got, and what the threads it has created and the heap look like then.

## Main definitions

* `PingPong.Own` — the branches of a step of a thread in its own code.
* `PingPong.Main.created`, `PingPong.Main.filled`, `PingPong.Main.joins`, `PingPong.Main.loaded` —
  how many threads have been created, blocks filled, handles used and results loaded.
* `PingPong.Shape` — the points at which the threads are, and what is in the heap.

## Main results

* `PingPong.own_of_exec` — every step of a thread in its own code takes one of the branches.
-/

namespace PingPong

open Uthread Runs

variable {N : ℕ} {cfg : Config} {s t : Sys N}

/-! ## What a step can do -/

section Goto

variable (p : Fin N) (k : Code) (u : Tid) (a : ℕ) (j : Fin 4)

@[simp, grind =] lemma goto_core : (s.goto p k).core = s.core := rfl
@[simp, grind =] lemma goto_code :
    (s.goto p k).code u = if u = (s.core.proc p).thread then k else s.code u :=
  Function.update_apply ..
@[simp, grind =] lemma goto_heap : (s.goto p k).heap a = s.heap a := rfl
@[simp, grind =] lemma goto_brk : (s.goto p k).brk = s.brk := rfl
@[simp, grind =] lemma goto_t : (s.goto p k).t j = s.t j := rfl
@[simp, grind =] lemma goto_thread : (s.goto p k).thread j = s.thread j := rfl
@[simp, grind =] lemma goto_r : (s.goto p k).r j = s.r j := rfl
@[simp, grind =] lemma goto_joined : (s.goto p k).joined u = s.joined u := rfl
@[simp, grind =] lemma goto_output : (s.goto p k).output = s.output := rfl

end Goto

/-- A call takes the thread to the code after it. -/
lemma callThen_eq_some {p : Fin N} {op : Op} {k : Code} :
    s.callThen p op k = some t ↔ ∃ c, Uthread.step s.core (.call p op) = some c ∧
      { s.goto p k with core := c } = t := by
  simp [Sys.callThen]

/-- **The branches of a step** of the thread on processor `p` in its own code. -/
inductive Own (cfg : Config) (s : Sys N) (p : Fin N) : Code → Sys N → Prop
  | yield (c : State N) (hc : Uthread.step s.core (.call p .yield) = some c) :
      Own cfg s p .base { s.goto p .base with core := c }
  | fill (k : Fin 4) : Own cfg s p (.main (.malloc k))
      ({ s with
        heap := Function.update s.heap s.brk (some (.triple (args cfg s.r k)))
        brk := s.brk + 1
        t := Function.update s.t k s.brk }.goto p (.main (Main.malloc k).next))
  | create (k : Fin 4) (c : State N) (hc : Uthread.step s.core (.call p .create) = some c) :
      Own cfg s p (.main (.create k))
        { s.goto p (.main (Main.create k).next) with
          core := c
          thread := Function.update s.thread k s.core.fresh
          code := Function.update (s.goto p (.main (Main.create k).next)).code s.core.fresh
            (.worker (proc k) (s.t k) .malloc) }
  | join (k : Fin 4) (c : State N)
      (hc : Uthread.step s.core (.call p (.join (s.thread k))) = some c) :
      Own cfg s p (.main (.join k)) { s.goto p (.main (.load k)) with core := c }
  | load (k : Fin 4) (v : BitVec 32) (hv : s.int? (s.joined (s.core.proc p).thread) = some v) :
      Own cfg s p (.main (.load k))
        ({ s with r := Function.update s.r k v }.goto p (.main (Main.load k).next))
  | loadFault (k : Fin 4) (hv : s.int? (s.joined (s.core.proc p).thread) = none) :
      Own cfg s p (.main (.load k)) (s.goto p .fault)
  | printf : Own cfg s p (.main .printf)
      ({ s with output := s.output ++ [s.r 3] }.goto p (.main .done))
  | malloc (pr : StartProc) (x : ℕ) : Own cfg s p (.worker pr x .malloc)
      ({ s with brk := s.brk + 1 }.goto p (.worker pr x (.load0 s.brk)))
  | load0 (pr : StartProc) (x result : ℕ) (y : Triple) (hy : s.triple? x = some y) :
      Own cfg s p (.worker pr x (.load0 result))
        (s.goto p (.worker pr x (.load1 result y.arg0)))
  | load1 (pr : StartProc) (x result : ℕ) (arg0 : BitVec 32) (y : Triple)
      (hy : s.triple? x = some y) :
      Own cfg s p (.worker pr x (.load1 result arg0))
        (s.goto p (.worker pr x (.store result (pr.apply ⟨arg0, y.arg1⟩))))
  | argFault (pr : StartProc) (x result : ℕ) (pt : Point) (hx : s.triple? x = none)
      (hpt : pt = .load0 result ∨ ∃ arg0, pt = .load1 result arg0) :
      Own cfg s p (.worker pr x pt) (s.goto p .fault)
  | store (pr : StartProc) (x result : ℕ) (v : BitVec 32) :
      Own cfg s p (.worker pr x (.store result v))
        ({ s with heap := Function.update s.heap result (some (.int v)) }.goto p
          (.worker pr x (.ret result)))
  | ret (pr : StartProc) (x result : ℕ) (c : State N)
      (hc : Uthread.step s.core (.call p (.ret result)) = some c) :
      Own cfg s p (.worker pr x (.ret result))
        { s.goto p (.worker pr x .finished) with core := c }

/-- A step in `add` or `sub` takes one of the branches. -/
lemma own_of_worker {p : Fin N} {pr : StartProc} {x : ℕ} {pt : Point}
    (h : worker s p pr x pt = some t) : Own cfg s p (.worker pr x pt) t := by
  cases pt with
  | malloc => cases h; exact .malloc pr x
  | load0 result =>
    cases hx : s.triple? x with
    | none =>
      simp only [worker, hx] at h
      exact Option.some.inj h ▸ .argFault pr x result _ hx (.inl rfl)
    | some y =>
      simp only [worker, hx] at h
      exact Option.some.inj h ▸ .load0 pr x result y hx
  | load1 result arg0 =>
    cases hx : s.triple? x with
    | none =>
      simp only [worker, hx] at h
      exact Option.some.inj h ▸ .argFault pr x result _ hx (.inr ⟨arg0, rfl⟩)
    | some y =>
      simp only [worker, hx] at h
      exact Option.some.inj h ▸ .load1 pr x result arg0 y hx
  | store result v => cases h; exact .store pr x result v
  | ret result =>
    obtain ⟨c, hc, rfl⟩ := callThen_eq_some.mp h
    exact .ret pr x result c hc
  | finished => cases h

/-- A step of `main` takes one of the branches. -/
lemma own_of_main {p : Fin N} {m : Main} (h : main cfg s p m = some t) :
    Own cfg s p (.main m) t := by
  cases m with
  | malloc k => cases h; exact .fill k
  | create k =>
    obtain ⟨u, hu, rfl⟩ := Option.map_eq_some_iff.mp h
    obtain ⟨c, hc, rfl⟩ := callThen_eq_some.mp hu
    exact .create k c hc
  | join k =>
    obtain ⟨c, hc, rfl⟩ := callThen_eq_some.mp h
    exact .join k c hc
  | load k =>
    cases hv : s.int? (s.joined (s.core.proc p).thread) with
    | none =>
      simp only [main, hv] at h
      exact Option.some.inj h ▸ .loadFault k hv
    | some v =>
      simp only [main, hv] at h
      exact Option.some.inj h ▸ .load k v hv
  | printf => cases h; exact .printf
  | done => cases h

/-- A step of a thread in its own code takes one of the branches. -/
lemma own_of_exec {p : Fin N} {k : Code} (h : exec cfg s p k = some t) : Own cfg s p k t := by
  cases k with
  | base =>
    obtain ⟨c, hc, rfl⟩ := callThen_eq_some.mp h
    exact .yield c hc
  | main m => exact own_of_main h
  | worker pr x pt => exact own_of_worker h
  | fault => cases h

/-! ## How far `main` has got -/

/-- The number of threads that have been created. -/
def Main.created : Main → ℕ
  | .malloc k => if (k : ℕ) < 2 then 0 else k
  | .create k => k
  | .join k | .load k => if (k : ℕ) < 2 then 2 else k + 1
  | .printf | .done => 4

/-- The number of blocks that have been filled with arguments. -/
def Main.filled : Main → ℕ
  | .malloc k => k
  | .create k | .join k | .load k => if (k : ℕ) < 2 then 2 else k + 1
  | .printf | .done => 4

/-- The number of handles that have been passed to `uthread_join`. -/
def Main.joins : Main → ℕ
  | .malloc k | .create k => if (k : ℕ) < 2 then 0 else k
  | .join k => k
  | .load k => k + 1
  | .printf | .done => 4

/-- The number of results that have been loaded. -/
def Main.loaded : Main → ℕ
  | .malloc k | .create k => if (k : ℕ) < 2 then 0 else k
  | .join k | .load k => k
  | .printf | .done => 4

/-- The results that `main` loads, as the program intends them. -/
def value (cfg : Config) : Fin 4 → BitVec 32
  | 0 => cfg.t1.arg0 + cfg.t1.arg1
  | 1 => cfg.t2.arg0 + cfg.t2.arg1
  | 2 => (cfg.t1.arg0 + cfg.t1.arg1) - (cfg.t2.arg0 + cfg.t2.arg1)
  | 3 => (cfg.t1.arg0 + cfg.t1.arg1) - (cfg.t2.arg0 + cfg.t2.arg1) + cfg.last

/-- What changes at a point at which a block is filled. -/
lemma Main.next_malloc (k : Fin 4) : (Main.malloc k).filled = k ∧
    (Main.malloc k).next.filled = k + 1 ∧
    (Main.malloc k).next.created = (Main.malloc k).created ∧
    (Main.malloc k).next.joins = (Main.malloc k).joins ∧
    (Main.malloc k).next.loaded = (Main.malloc k).loaded ∧ (Main.malloc k).next ≠ .done ∧
    (Main.malloc k).created ≤ k := by
  revert k
  decide

/-- What changes at a point at which a thread is created. -/
lemma Main.next_create (k : Fin 4) : (Main.create k).created = k ∧
    (Main.create k).next.created = k + 1 ∧ k < (Main.create k).filled ∧
    (Main.create k).next.filled = (Main.create k).filled ∧
    (Main.create k).next.joins = (Main.create k).joins ∧
    (Main.create k).next.loaded = (Main.create k).loaded ∧ (Main.create k).next ≠ .done := by
  revert k
  decide

/-- What changes at a point at which a thread is joined. -/
lemma Main.next_join (k : Fin 4) : (Main.join k).joins = k ∧ (Main.load k).joins = k + 1 ∧
    k < (Main.join k).created ∧ (Main.load k).created = (Main.join k).created ∧
    (Main.load k).filled = (Main.join k).filled ∧ (Main.load k).loaded = (Main.join k).loaded := by
  revert k
  decide

/-- What changes at a point at which a result is loaded. -/
lemma Main.next_load (k : Fin 4) : (Main.load k).loaded = k ∧
    (Main.load k).next.loaded = k + 1 ∧ (Main.load k).next.created = (Main.load k).created ∧
    (Main.load k).next.filled = (Main.load k).filled ∧
    (Main.load k).next.joins = (Main.load k).joins ∧ (Main.load k).next ≠ .done ∧
    k < (Main.load k).created := by
  revert k
  decide

/-- `main` loads a result when it has joined the thread. -/
lemma Main.eq_join_of_next {m : Main} {k : Fin 4} (h : m.next = .load k) : m = .join k := by
  revert h
  rcases m with j | j | j | j | _ | _
  · revert j k
    decide
  · revert j k
    decide
  · exact fun h => congrArg _ (Main.load.inj h)
  · revert j k
    decide
  · exact nofun
  · exact nofun

/-- There are four operations. -/
lemma Main.created_le (m : Main) : m.created ≤ 4 := by
  rcases m with k | k | k | k | _ | _ <;> first | (revert k; decide) | decide

/-- The block of a thread has been filled before the thread is created. -/
lemma Main.created_le_filled (m : Main) : m.created ≤ m.filled := by
  rcases m with k | k | k | k | _ | _ <;> first | (revert k; decide) | decide

/-- The arguments of an operation are those that the program intends, when the results before it
have been loaded. -/
lemma args_eq (k : Fin 4) {r : Fin 4 → BitVec 32}
    (hr : ∀ j : Fin 4, j < (Main.malloc k).loaded → r j = value cfg j) :
    args cfg r k = args cfg (value cfg) k := by
  fin_cases k
  · rfl
  · rfl
  · have h0 := hr 0 (by decide)
    have h1 := hr 1 (by decide)
    simp [args, h0, h1]
  · have h2 := hr 2 (by decide)
    simp [args, h2]

/-- Each procedure computes what the program intends. -/
lemma value_eq (k : Fin 4) : value cfg k = (proc k).apply (args cfg (value cfg) k) := by
  fin_cases k <;> rfl

/-! ## The heap -/

/-- The block that a thread has allocated and still has to write. -/
@[grind] def Code.pending : Code → Option ℕ
  | .worker _ _ (.load0 x) | .worker _ _ (.load1 x _) | .worker _ _ (.store x _) => some x
  | .worker _ _ .malloc | .worker _ _ (.ret _) | .worker _ _ .finished | .base | .main _
  | .fault => none

/-- **The heap**: what has not been allocated is not written, and of what has been allocated every
thread has a part of its own. -/
structure Heap (s : Sys N) : Prop where
  unused : ∀ a, s.brk ≤ a → s.heap a = none
  pending : ∀ u x, (s.code u).pending = some x → x < s.brk ∧ s.heap x = none
  apart : ∀ u v x, (s.code u).pending = some x → (s.code v).pending = some x → u = v

/-- What has been written stays as it is. -/
def Extends (s t : Sys N) : Prop := ∀ a b, s.heap a = some b → t.heap a = some b

/-- **A step writes what has not been written.** -/
lemma Own.extends {p : Fin N} (h : Own cfg s p (s.code (s.core.proc p).thread) t)
    (hh : Heap s) : Extends s t := by
  intro a b hab
  have hp := hh.pending (s.core.proc p).thread
  have hb := hh.unused s.brk le_rfl
  generalize s.code (s.core.proc p).thread = k at h hp
  cases h <;> grind [Function.update_apply]

namespace Heap

variable (h : Heap s) {p : Fin N} (hown : Own cfg s p (s.code (s.core.proc p).thread) t)

include h hown

/-- A thread has allocated what it had allocated before, or what it allocates in this step. -/
lemma pending_cases {u x : ℕ} (hx : (t.code u).pending = some x) :
    (s.code u).pending = some x ∧ t.heap x = s.heap x ∧ s.brk ≤ t.brk ∨
      u = (s.core.proc p).thread ∧ x = s.brk ∧ t.brk = s.brk + 1 ∧ t.heap x = s.heap x := by
  have hap := h.apart (s.core.proc p).thread u x
  have hlt := h.pending u x
  generalize hk : s.code (s.core.proc p).thread = k at hown hap
  cases hown <;> grind [Function.update_apply]

/-- **The heap is kept in order** by the steps of a thread in its own code. -/
theorem step : Heap t where
  unused a ha := by
    have hun := h.unused a
    have hp := h.pending (s.core.proc p).thread
    generalize s.code (s.core.proc p).thread = k at hown hp
    cases hown <;> grind [Function.update_apply]
  pending u x hx := by
    rcases h.pending_cases hown hx with ⟨hx, e, hb⟩ | ⟨-, rfl, hb, e⟩
    · obtain ⟨hlt, hn⟩ := h.pending u x hx
      exact ⟨hlt.trans_le hb, e.trans hn⟩
    · exact ⟨by omega, e.trans (h.unused _ le_rfl)⟩
  apart u v x hu hv := by
    have hlt := fun u hu => (h.pending u x hu).1
    rcases h.pending_cases hown hu with ⟨hu', -⟩ | ⟨rfl, rfl, -⟩ <;>
      rcases h.pending_cases hown hv with ⟨hv', -⟩ | ⟨rfl, hb, -⟩
    · exact h.apart u v x hu' hv'
    · exact absurd (hlt u hu') (by omega)
    · exact absurd (hlt v hv') (by omega)
    · rfl

end Heap

/-- At the start nothing has been allocated. -/
lemma heap_init : Heap (init N) where
  unused a _ := rfl
  pending u x hx := by
    simp only [init] at hx
    grind
  apart u v x hu := by
    simp only [init] at hu
    grind

/-! ## The threads -/

/-- What a point of `add` or `sub` says about the operation: the first argument has been loaded, the
result has been computed, or it has been stored. -/
@[grind] def Point.Ok (heap : ℕ → Option Block) (arg0 v : BitVec 32) : Point → Prop
  | .load1 _ x => x = arg0
  | .store _ w => w = v
  | .ret result => heap result = some (.int v)
  | .malloc | .load0 _ | .finished => True

/-- What has been stored stays stored. -/
lemma Point.Ok.extend {arg0 v : BitVec 32} {pt : Point} (h : pt.Ok s.heap arg0 v)
    (he : Extends s t) : pt.Ok t.heap arg0 v := by
  cases pt with
  | ret result => exact he _ _ h
  | _ => exact h

/-- **The program when `main` is at `m`.** -/
structure At (cfg : Config) (m : Main) (s : Sys N) : Prop where
  code : s.code 0 = .main m
  fresh : s.core.fresh = N + 1 + m.created
  thread : ∀ k : Fin 4, k < m.created → s.thread k = N + 1 + k
  /-- The arguments of the operations are those that the program intends. -/
  filled : ∀ k : Fin 4, k < m.filled → s.heap (s.t k) = some (.triple (args cfg (value cfg) k))
  /-- So are the results that `main` has loaded. -/
  loaded : ∀ k : Fin 4, k < m.loaded → s.r k = value cfg k
  output : s.output = if m = .done then [value cfg 3] else []
  base : ∀ u, u ≠ 0 → u ≤ N ∨ s.core.fresh ≤ u → s.code u = .base
  /-- The threads that have been created execute their procedures. -/
  worker : ∀ k : Fin 4, k < m.created → ∃ pt, s.code (N + 1 + k) = .worker (proc k) (s.t k) pt ∧
    pt.Ok s.heap (args cfg (value cfg) k).arg0 (value cfg k)

namespace At

variable {m : Main} (h : At cfg m s)

include h

/-- What the threads execute. -/
lemma thread_cases {u : Tid} (hu : u < s.core.fresh) :
    u = 0 ∨ (u ≠ 0 ∧ u ≤ N ∧ s.code u = .base) ∨ ∃ k : Fin 4, k < m.created ∧ u = N + 1 + k := by
  have hf := h.fresh
  by_cases h0 : u = 0
  · exact .inl h0
  · by_cases hN : u ≤ N
    · exact .inr (.inl ⟨h0, hN, h.base u h0 (.inl hN)⟩)
    · obtain ⟨i, rfl⟩ : ∃ i, u = N + 1 + i := Nat.exists_eq_add_of_le (by grind)
      have hi : i < m.created := by grind
      exact .inr (.inr ⟨⟨i, hi.trans_le m.created_le⟩, hi, rfl⟩)

/-- The threads other than the initial one are none of its points. -/
lemma eq_zero_of_main {u : Tid} {m' : Main} (hu : u < s.core.fresh)
    (hc : s.code u = .main m') : u = 0 ∧ m' = m := by
  rcases h.thread_cases hu with rfl | ⟨-, -, hb⟩ | ⟨k, hk, rfl⟩
  · rw [h.code] at hc
    exact ⟨rfl, (Code.main.inj hc).symm⟩
  · simp [hb] at hc
  · obtain ⟨pt, hw, -⟩ := h.worker k hk
    simp [hw] at hc

/-- A thread other than the initial one goes on in its procedure. -/
lemma of_thread {u : Tid} {c : Code} (hu : u ≠ 0) (hcode : t.code = Function.update s.code u c)
    (hf : t.core.fresh = s.core.fresh) (ht : t.t = s.t) (hth : t.thread = s.thread)
    (hr : t.r = s.r) (hout : t.output = s.output) (hext : Extends s t)
    (hbase : s.code u = .base → c = .base)
    (hworker : ∀ (k : Fin 4) pt, s.code u = .worker (proc k) (s.t k) pt →
      pt.Ok s.heap (args cfg (value cfg) k).arg0 (value cfg k) →
      k < m.filled → ∃ pt', c = .worker (proc k) (s.t k) pt' ∧
        pt'.Ok t.heap (args cfg (value cfg) k).arg0 (value cfg k)) : At cfg m t where
  code := by rw [hcode, Function.update_of_ne hu.symm, h.code]
  fresh := hf.trans h.fresh
  thread := hth ▸ h.thread
  filled k hk := ht ▸ hext _ _ (h.filled k hk)
  loaded := hr ▸ h.loaded
  output := hout ▸ h.output
  base v hv hb := by
    have hs := h.base v hv (hf ▸ hb)
    by_cases hvu : v = u
    · rw [hcode, hvu, Function.update_self, hbase (hvu ▸ hs)]
    · rw [hcode, Function.update_of_ne hvu, hs]
  worker k hk := by
    obtain ⟨pt, hc, hok⟩ := h.worker k hk
    rw [ht]
    by_cases hku : N + 1 + k = u
    · rw [hcode, hku, Function.update_self]
      exact hworker k pt (hku ▸ hc) hok (hk.trans_le m.created_le_filled)
    · rw [hcode, Function.update_of_ne hku]
      exact ⟨pt, hc, hok.extend hext⟩

/-- **A step of a thread in `add` or `sub`**, or in `pthread_base`, leaves `main` where it is. -/
lemma step_thread {p : Fin N} (hh : Heap s) (hu : (s.core.proc p).thread ≠ 0)
    (hlt : (s.core.proc p).thread < s.core.fresh)
    (hown : Own cfg s p (s.code (s.core.proc p).thread) t) : At cfg m t := by
  have hext := hown.extends hh
  have hf : ∀ c op, Uthread.step s.core (.call p op) = some c → op ≠ .create →
      c.fresh = s.core.fresh := fun c op hc hop =>
    (trans_of_step hc).fresh_eq (by simpa [Act.begins] using hop)
  have hmain : ∀ m', s.code (s.core.proc p).thread ≠ .main m' := fun m' e =>
    hu (h.eq_zero_of_main hlt e).1
  have htriple : ∀ k : Fin 4, k < m.filled → s.triple? (s.t k) = some (args cfg (value cfg) k) :=
    fun k hk => by simp [Sys.triple?, h.filled k hk]
  generalize hc : s.code (s.core.proc p).thread = c at hown hmain
  cases hown with
  | yield _ hs =>
    exact h.of_thread hu rfl (hf _ _ hs (by simp)) rfl rfl rfl rfl hext (fun _ => rfl)
      (by simp [hc])
  | fill | create | join | load | loadFault | printf => exact absurd rfl (hmain _)
  | malloc pr x =>
    refine h.of_thread hu rfl rfl rfl rfl rfl rfl hext (by simp [hc]) fun k pt e _ _ => ?_
    cases hc.symm.trans e
    exact ⟨_, rfl, trivial⟩
  | load0 pr x result y hy =>
    refine h.of_thread hu rfl rfl rfl rfl rfl rfl hext (by simp [hc]) fun k pt e _ hkf => ?_
    cases hc.symm.trans e
    obtain rfl := Option.some.inj (hy.symm.trans (htriple k hkf))
    exact ⟨_, rfl, rfl⟩
  | load1 pr x result arg0 y hy =>
    refine h.of_thread hu rfl rfl rfl rfl rfl rfl hext (by simp [hc]) fun k pt e hok hkf => ?_
    cases hc.symm.trans e
    obtain rfl := Option.some.inj (hy.symm.trans (htriple k hkf))
    obtain rfl : arg0 = _ := hok
    exact ⟨_, rfl, (value_eq k).symm⟩
  | argFault pr x result pt hx =>
    refine h.of_thread hu rfl rfl rfl rfl rfl rfl hext (by simp [hc]) fun k pt e _ hkf => ?_
    cases hc.symm.trans e
    simp [htriple k hkf] at hx
  | store pr x result v =>
    refine h.of_thread hu rfl rfl rfl rfl rfl rfl hext (by simp [hc]) fun k pt e hok _ => ?_
    cases hc.symm.trans e
    obtain rfl : v = _ := hok
    exact ⟨_, rfl, by simp [Point.Ok]⟩
  | ret pr x result c hs =>
    refine h.of_thread hu rfl (hf _ _ hs (by simp)) rfl rfl rfl rfl hext (by simp [hc])
      fun k pt e _ _ => ?_
    cases hc.symm.trans e
    exact ⟨_, rfl, trivial⟩

/-- `main` goes on from `m` to `m'`, and creates no thread. -/
lemma of_main {m' : Main} (hcode : t.code = Function.update s.code 0 (.main m'))
    (hf : t.core.fresh = s.core.fresh) (hcr : m'.created = m.created) (hth : t.thread = s.thread)
    (ht : ∀ k : Fin 4, k < m.created → t.t k = s.t k) (hext : Extends s t)
    (hfilled : ∀ k : Fin 4, k < m'.filled →
      t.heap (t.t k) = some (.triple (args cfg (value cfg) k)))
    (hloaded : ∀ k : Fin 4, k < m'.loaded → t.r k = value cfg k)
    (hout : t.output = if m' = .done then [value cfg 3] else []) : At cfg m' t where
  code := by rw [hcode, Function.update_self]
  fresh := by rw [hf, h.fresh, hcr]
  thread k hk := hth ▸ h.thread k (hcr ▸ hk)
  filled := hfilled
  loaded := hloaded
  output := hout
  base u hu hb := by
    rw [hcode, Function.update_of_ne hu]
    exact h.base u hu (hf ▸ hb)
  worker k hk := by
    rw [hcr] at hk
    obtain ⟨pt, hc, hok⟩ := h.worker k hk
    rw [hcode, Function.update_of_ne (by grind), ht k hk]
    exact ⟨pt, hc, hok.extend hext⟩

/-- `main` creates the next thread. -/
lemma of_create {k : Fin 4} {c : State N} (hm : m = .create k) (hf : c.fresh = s.core.fresh + 1)
    {code : Tid → Code} (hcode : code = Function.update
      (Function.update s.code 0 (.main (Main.create k).next)) s.core.fresh
      (.worker (proc k) (s.t k) .malloc)) :
    At cfg (Main.create k).next
      { s with core := c, code := code, thread := Function.update s.thread k s.core.fresh } := by
  subst hm
  obtain ⟨hcr, hcr', hkf, hfi, -, hlo, hne⟩ := Main.next_create k
  have hfr := h.fresh
  have hold : ∀ u, u ≠ 0 → u ≠ s.core.fresh → code u = s.code u := fun u h0 hu => by
    rw [hcode, Function.update_of_ne hu, Function.update_of_ne h0]
  have hlast : ∀ j : Fin 4, j < (Main.create k).next.created → j ≠ k →
      j < (Main.create k).created := by
    intro j hj hjk
    have : j.val ≠ k.val := fun e => hjk (Fin.ext e)
    omega
  refine ⟨?_, ?_, fun j hj => ?_, fun j hj => h.filled j (hfi ▸ hj),
    fun j hj => h.loaded j (hlo ▸ hj), ?_, fun u hu hb => ?_, fun j hj => ?_⟩
  · show code 0 = _
    rw [hcode, Function.update_of_ne (by grind), Function.update_self]
  · show c.fresh = _
    rw [hf, hfr, hcr, hcr', Nat.add_assoc]
  · show Function.update s.thread k s.core.fresh j = _
    by_cases hjk : j = k
    · rw [hjk, Function.update_self, hfr, hcr]
    · rw [Function.update_of_ne hjk, h.thread j (hlast j hj hjk)]
  · show s.output = _
    rw [if_neg hne, h.output, if_neg (by simp)]
  · have hb : u ≤ N ∨ s.core.fresh + 1 ≤ u := hf ▸ hb
    show code u = _
    rw [hold u hu (by grind)]
    exact h.base u hu (by grind)
  · show ∃ pt, code _ = .worker _ _ pt ∧ Point.Ok s.heap _ _ pt
    by_cases hjk : j = k
    · subst hjk
      exact ⟨.malloc, by rw [hcode, hfr, hcr, Function.update_self], trivial⟩
    · rw [hold _ (by grind) (by
        have : j.val ≠ k.val := fun e => hjk (Fin.ext e)
        grind)]
      exact h.worker j (hlast j hj hjk)

/-- **A step of `main`** that is at `load` only when the result is there. -/
lemma step_main {p : Fin N} (hh : Heap s) (hu : (s.core.proc p).thread = 0)
    (hload : ∀ k, m = .load k → s.int? (s.joined 0) = some (value cfg k))
    (hown : Own cfg s p (s.code (s.core.proc p).thread) t) : At cfg m.next t := by
  have hext := hown.extends hh
  have hcode : ∀ c, (s.goto p c).code = Function.update s.code 0 c := fun c => by
    rw [Sys.goto, hu]
  have hout := h.output
  rw [hu, h.code] at hown
  cases hown with
  | fill k =>
    obtain ⟨hfi, hfi', hcr, -, hlo, hne, hle⟩ := Main.next_malloc k
    have hback : ∀ j : Fin 4, j ≠ k → Function.update s.t k s.brk j = s.t j := fun j hj =>
      Function.update_of_ne hj ..
    refine h.of_main (hcode _) rfl hcr rfl (fun j hj => hback j fun e => ?_) hext
      (fun j hj => ?_) (fun j hj => h.loaded j (hlo ▸ hj)) ?_
    · exact absurd (e ▸ hj) (Nat.not_lt.mpr hle)
    · by_cases hjk : j = k
      · subst hjk
        simp [args_eq j h.loaded]
      · have hlt : j < (Main.malloc k).filled := by
          have : j.val ≠ k.val := fun e => hjk (Fin.ext e)
          omega
        rw [goto_t, goto_heap]
        show Function.update s.heap _ _ (Function.update s.t k s.brk j) = _
        rw [hback j hjk]
        exact hext _ _ (h.filled j hlt)
    · rw [if_neg hne]
      rwa [if_neg (by simp)] at hout
  | create k c hs =>
    exact h.of_create rfl (trans_of_step hs).fresh_of_create (by rw [hcode])
  | join k c hs =>
    obtain ⟨-, -, -, hcr, hfi, hlo⟩ := Main.next_join k
    have hf : c.fresh = s.core.fresh := (trans_of_step hs).fresh_eq (by simp [Act.begins])
    refine h.of_main (hcode _) hf hcr rfl (fun _ _ => rfl) hext (fun j hj => h.filled j (hfi ▸ hj))
      (fun j hj => h.loaded j (hlo ▸ hj)) ?_
    exact hout
  | load k v hv =>
    obtain ⟨hlo, hlo', hcr, hfi, -, hne, -⟩ := Main.next_load k
    rw [hu, hload k rfl] at hv
    cases hv
    refine h.of_main (hcode _) rfl hcr rfl (fun _ _ => rfl) hext
      (fun j hj => h.filled j (hfi ▸ hj)) (fun j hj => ?_) ?_
    · show Function.update s.r k (value cfg k) j = _
      by_cases hjk : j = k
      · rw [hjk, Function.update_self]
      · rw [Function.update_of_ne hjk]
        have : j.val ≠ k.val := fun e => hjk (Fin.ext e)
        exact h.loaded j (by omega)
    · rw [if_neg hne]
      rwa [if_neg (by simp)] at hout
  | loadFault k hv =>
    rw [hu, hload k rfl] at hv
    cases hv
  | printf =>
    refine h.of_main (hcode _) rfl rfl rfl (fun _ _ => rfl) hext h.filled h.loaded ?_
    have hr : s.r 3 = value cfg 3 := h.loaded 3 (by decide)
    have hnil : s.output = [] := by simpa using hout
    simp [Main.next, hnil, hr]

end At

/-- At the start `main` is at its first point. -/
lemma at_init : At cfg (.malloc 0) (init N) where
  code := rfl
  fresh := rfl
  thread k hk := absurd hk (Nat.not_lt_zero _)
  filled k hk := absurd hk (Nat.not_lt_zero _)
  loaded k hk := absurd hk (Nat.not_lt_zero _)
  output := rfl
  base u hu _ := by simp [init, hu]
  worker k hk := absurd hk (Nat.not_lt_zero _)

end PingPong
