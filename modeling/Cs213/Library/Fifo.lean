import Mathlib.Data.List.Basic
import Mathlib.Logic.Function.Basic

set_option relaxedAutoImplicit false
set_option autoImplicit false

/-!
# Queues

An implementation of a queue is compared with the list it stands for by what its calls return. The
calls do not depend on the entries of the queue, so a sequence of calls is given without them, and
the entries separately.

## Main definitions

* `Fifo.Queue` — an implementation of a queue.
* `Fifo.Queue.outputs` — what a sequence of calls returns.
* `Fifo.fifo` — the queue whose state is the list of its entries.
* `Fifo.Simulates` — one queue simulates another as long as its takes meet a condition.
* `Fifo.Recent` — an array that is written round and round holds the last entries.

## Main results

* `Fifo.Simulates.outputs_eq`, `Fifo.Simulates.takesMeet_of_outputs_eq` — two queues return the
  same if all takes meet the condition, and only then if other takes are answered differently.
* `Fifo.Recent.place_eq` — what is read in place of an entry that has been overwritten.
-/

namespace Fifo

variable {α β σ τ : Type*}

/-! ## Sequences of calls -/

/-- The calls of a queue. -/
inductive Call
  | put
  | take
  deriving DecidableEq, Repr

/-- The takes of a sequence of calls meet a condition on the calls before them. -/
def TakesMeet (ok : List Call → Prop) (calls : List Call) : Prop :=
  ∀ pre post, calls = pre ++ .take :: post → ok pre

section TakesMeet

variable {ok : List Call → Prop} {calls : List Call}

lemma takesMeet_nil : TakesMeet ok [] := by
  intro pre post h
  simp at h

/-- The first call apart. -/
lemma takesMeet_cons {c : Call} : TakesMeet ok (c :: calls) ↔
    (c = .take → ok []) ∧ TakesMeet (fun pre => ok (c :: pre)) calls := by
  constructor
  · intro h
    refine ⟨fun hc => h [] calls (by rw [hc]; rfl), fun pre post e => h (c :: pre) post ?_⟩
    rw [e]
    rfl
  · rintro ⟨h₁, h₂⟩ pre post e
    cases pre with
    | nil =>
      cases e
      exact h₁ rfl
    | cons c' pre =>
      cases e
      exact h₂ pre post rfl

/-- The calls of a sequence that goes on. -/
lemma takesMeet_append {more : List Call} : TakesMeet ok (calls ++ more) ↔
    TakesMeet ok calls ∧ TakesMeet (fun pre => ok (calls ++ pre)) more := by
  induction calls generalizing ok with
  | nil => simp [takesMeet_nil]
  | cons c calls ih => simp only [List.cons_append, takesMeet_cons, ih, and_assoc]

/-- Takes that follow each other. -/
lemma takesMeet_replicate {n : ℕ} : TakesMeet ok (List.replicate n .take) ↔
    ∀ i < n, ok (List.replicate i .take) := by
  constructor
  · intro h i hi
    obtain ⟨m, rfl⟩ := Nat.exists_eq_add_of_lt hi
    refine h _ (List.replicate m .take) ?_
    rw [Nat.add_assoc, List.replicate_add, List.replicate_succ]
  · intro h pre post e
    have hlen := congrArg List.length e
    simp only [List.length_replicate, List.length_append, List.length_cons] at hlen
    have hpre : pre = List.replicate pre.length .take := by
      refine List.eq_replicate_iff.mpr ⟨rfl, fun c hc => ?_⟩
      exact List.eq_of_mem_replicate (e ▸ List.mem_append_left _ hc : c ∈ List.replicate n .take)
    rw [hpre]
    exact h _ (by omega)

end TakesMeet

/-! ## Queues -/

/-- An implementation of a queue: a take returns something, whether there is an entry or not. -/
structure Queue (α β σ : Type*) where
  init : σ
  put : α → σ → σ
  take : σ → β × σ

/-- What the takes return, from a state on, when `entry k`, `entry (k + 1)`, ... are put. -/
def Queue.outputsFrom (q : Queue α β σ) (entry : ℕ → α) : σ → ℕ → List Call → List β
  | _, _, [] => []
  | s, k, .put :: calls => q.outputsFrom entry (q.put (entry k) s) (k + 1) calls
  | s, k, .take :: calls => (q.take s).1 :: q.outputsFrom entry (q.take s).2 k calls

/-- **What the takes return** when `entry 0`, `entry 1`, ... are put. -/
def Queue.outputs (q : Queue α β σ) (entry : ℕ → α) (calls : List Call) : List β :=
  q.outputsFrom entry q.init 0 calls

/-- **First in, first out**: the list of the entries, the oldest one first. An entry is only
accepted if there is room for it, and `out` is how a take returns the oldest entry, if any. -/
def fifo (room : ℕ → Bool) (out : Option α → β) : Queue α β (List α) where
  init := []
  put a l := if room l.length then l ++ [a] else l
  take l := (out l.head?, l.tail)

/-! ## Simulation -/

/-- The queue `p` simulates `q`: the relation, which may depend on the calls so far, is kept by
every put, and by every take that meets a condition on the calls before it. -/
structure Simulates (p : Queue α β σ) (q : Queue α β τ) (entry : ℕ → α) (ok : List Call → Prop)
    (R : List Call → σ → τ → Prop) : Prop where
  init : R [] p.init q.init
  put : ∀ {pre s t}, R pre s t →
    R (pre ++ [.put]) (p.put (entry (pre.count .put)) s) (q.put (entry (pre.count .put)) t)
  take : ∀ {pre s t}, R pre s t → ok pre →
    (p.take s).1 = (q.take t).1 ∧ R (pre ++ [.take]) (p.take s).2 (q.take t).2

namespace Simulates

variable {p : Queue α β σ} {q : Queue α β τ} {entry : ℕ → α} {ok : List Call → Prop}
  {R : List Call → σ → τ → Prop}

/-- From related states on, the same is returned if the takes meet the condition. -/
lemma outputsFrom_eq (h : Simulates p q entry ok R) (calls : List Call) {pre : List Call} {s : σ}
    {t : τ} (hR : R pre s t) (hok : TakesMeet (fun l => ok (pre ++ l)) calls) :
    p.outputsFrom entry s (pre.count .put) calls =
      q.outputsFrom entry t (pre.count .put) calls := by
  induction calls generalizing pre s t with
  | nil => rfl
  | cons c calls ih =>
    obtain ⟨hc, hcalls⟩ := takesMeet_cons.mp hok
    cases c with
    | put =>
      simpa [Queue.outputsFrom, List.count_append] using ih (h.put hR) (by simpa using hcalls)
    | take =>
      obtain ⟨e, hR'⟩ := h.take hR (by simpa using hc rfl)
      simpa [Queue.outputsFrom, List.count_append, e] using ih hR' (by simpa using hcalls)

/-- From related states on, the takes meet the condition if the same is returned. -/
lemma takesMeet_of_outputsFrom_eq (h : Simulates p q entry ok R)
    (hbad : ∀ {pre s t}, R pre s t → ¬ ok pre → (p.take s).1 ≠ (q.take t).1) (calls : List Call)
    {pre : List Call} {s : σ} {t : τ} (hR : R pre s t)
    (heq : p.outputsFrom entry s (pre.count .put) calls =
      q.outputsFrom entry t (pre.count .put) calls) :
    TakesMeet (fun l => ok (pre ++ l)) calls := by
  induction calls generalizing pre s t with
  | nil => exact takesMeet_nil
  | cons c calls ih =>
    rw [takesMeet_cons]
    cases c with
    | put =>
      have := ih (h.put hR) (by simpa [Queue.outputsFrom, List.count_append] using heq)
      simpa using this
    | take =>
      simp only [Queue.outputsFrom, List.cons.injEq] at heq
      have hok : ok pre := by
        by_contra hok
        exact hbad hR hok heq.1
      have := ih (h.take hR hok).2 (by simpa [List.count_append] using heq.2)
      simpa [hok] using this

/-- **Simulation**: the same is returned if all takes meet the condition. -/
theorem outputs_eq (h : Simulates p q entry ok R) {calls : List Call} (hok : TakesMeet ok calls) :
    p.outputs entry calls = q.outputs entry calls :=
  h.outputsFrom_eq calls h.init hok

/-- **Simulation**, the other way round: if a take that does not meet the condition is answered
differently, all takes meet it when the same is returned. -/
theorem takesMeet_of_outputs_eq (h : Simulates p q entry ok R)
    (hbad : ∀ {pre s t}, R pre s t → ¬ ok pre → (p.take s).1 ≠ (q.take t).1) {calls : List Call}
    (heq : p.outputs entry calls = q.outputs entry calls) : TakesMeet ok calls :=
  h.takesMeet_of_outputsFrom_eq hbad calls h.init heq

end Simulates

/-! ## Arrays that are written round and round -/

/-- The last `N` of the `k` entries so far are in the array: entry number `i` is at `i + 1`, modulo
`N`. -/
def Recent (N : ℕ) (slots : ℕ → α) (entry : ℕ → α) (k : ℕ) : Prop :=
  ∀ i < k, k ≤ i + N → slots ((i + 1) % N) = entry i

/-- Two numbers that are less than `N` apart are at different places. -/
lemma mod_ne_mod {N i k : ℕ} (h₁ : i < k) (h₂ : k < i + N) : i % N ≠ k % N := by
  intro e
  have hdvd : N ∣ k - i := Nat.dvd_of_mod_eq_zero (Nat.sub_mod_eq_zero_of_mod_eq e.symm)
  have := Nat.le_of_dvd (by omega) hdvd
  omega

section Recent

variable {N k r : ℕ} {slots entry : ℕ → α}

lemma recent_zero : Recent N slots entry 0 := fun _ h => absurd h (Nat.not_lt_zero _)

/-- The next entry is stored. -/
lemma Recent.store (h : Recent N slots entry k) :
    Recent N (Function.update slots ((k + 1) % N) (entry k)) entry (k + 1) := by
  intro i hi hN
  rcases Nat.lt_succ_iff_lt_or_eq.mp hi with hi | rfl
  · rw [Function.update_of_ne (mod_ne_mod (by omega) (by omega)), h i hi (by omega)]
  · rw [Function.update_self]

/-- The place of entry number `r` holds the last of the entries whose number is `r` modulo `N`. -/
theorem Recent.place_eq (h : Recent N slots entry k) (hr : r < k) (hN : 0 < N) :
    slots ((r + 1) % N) = entry (r + N * ((k - r - 1) / N)) := by
  have hdiv := Nat.div_add_mod (k - r - 1) N
  have hmod := Nat.mod_lt (k - r - 1) hN
  have hplace : (r + N * ((k - r - 1) / N) + 1) % N = (r + 1) % N := by
    rw [Nat.add_right_comm, Nat.add_mul_mod_self_left]
  rw [← hplace]
  exact h _ (by omega) (by omega)

end Recent
end Fifo
