import Mathlib.Data.List.Induction
import Mathlib.Tactic.ByContra

set_option relaxedAutoImplicit false
set_option autoImplicit false

/-!
# Runs of a partial step function

A system is a step function `step : σ → α → Option σ`: in state `s` the action `a` leads to the
state `step s a`, and `none` says that `a` is not enabled in `s`. An interleaving of several
parties is a list of actions, each of which names the party that moves.

## Main definitions

* `Runs.run` — the state after a list of actions.
* `Runs.AllSteps` — every step of a run meets a condition on the state before it.
* `Runs.Throughout` — every state of a run, the first and the last included, has a property.
* `Runs.Occurs`, `Runs.count` — a run has a step of a given kind, and how many it has.
* `Runs.trace` — the actions of another system that a run stands for.

## Main results

* `Runs.induct`, `Runs.induct_of_allSteps` — induction along a run, one step at its end at a time.
* `Runs.invariant` — what the first state has and the steps that meet a condition preserve holds
  in the last state of every run whose steps all meet the condition.
* `Runs.throughout_of_invariant` — and in every state of it.
* `Runs.simulation` — a run of a system whose steps another one simulates is simulated by a run.
* `Runs.trace_queue` — what enters a queue in a run leaves it in the same order, or is still in it.
-/

namespace Runs

variable {σ α : Type*} (step : σ → α → Option σ)

/-- The state after the actions `as`, if each of them is enabled when its turn comes. -/
def run : σ → List α → Option σ
  | s, [] => some s
  | s, a :: as => (step s a).bind fun t => run t as

/-- Every step of the run of `as` meets `C` in the state before the step. -/
def AllSteps (C : σ → α → Prop) : σ → List α → Prop
  | _, [] => True
  | s, a :: as => C s a ∧ ∀ t, step s a = some t → AllSteps C t as

instance decidableAllSteps {C : σ → α → Prop} [∀ s a, Decidable (C s a)] :
    (s : σ) → (as : List α) → Decidable (AllSteps step C s as)
  | _, [] => isTrue trivial
  | s, a :: as =>
    have : Decidable (∀ t, step s a = some t → AllSteps step C t as) :=
      match _h : step s a with
      | none => isTrue nofun
      | some t =>
        have : Decidable (AllSteps step C t as) := decidableAllSteps t as
        decidable_of_iff (AllSteps step C t as)
          ⟨fun ht _ e => Option.some.inj e ▸ ht, fun ht => ht t rfl⟩
    inferInstanceAs (Decidable (C s a ∧ ∀ t, step s a = some t → AllSteps step C t as))

/-- Some step of the run of `as` is of the kind `P`. -/
def Occurs (P : σ → α → Prop) : σ → List α → Prop
  | _, [] => False
  | s, a :: as => P s a ∨ ∃ t, step s a = some t ∧ Occurs P t as

/-- The number of steps of the kind `P` in the run of `as`. -/
def count (P : σ → α → Prop) [∀ s a, Decidable (P s a)] : σ → List α → ℕ
  | _, [] => 0
  | s, a :: as => (if P s a then 1 else 0) + ((step s a).elim 0 fun t => count P t as)

/-- Every state of the run of `as` has the property `I`. -/
def Throughout (I : σ → Prop) (s : σ) (as : List α) : Prop :=
  ∀ pre suf, as = pre ++ suf → ∀ t, run step s pre = some t → I t

variable {step}

@[simp] lemma run_nil (s : σ) : run step s [] = some s := rfl

@[simp] lemma run_cons (s : σ) (a : α) (as : List α) :
    run step s (a :: as) = (step s a).bind fun t => run step t as := rfl

/-- A run of `as ++ bs` is a run of `as` followed by one of `bs`. -/
lemma run_append (s : σ) (as bs : List α) :
    run step s (as ++ bs) = (run step s as).bind fun t => run step t bs := by
  induction as generalizing s with
  | nil => rfl
  | cons a as ih =>
    cases h : step s a with
    | none => simp [h]
    | some t => simp [h, ih]

/-- The last step of a run. -/
lemma run_concat {s t : σ} {as : List α} {a : α} :
    run step s (as ++ [a]) = some t ↔ ∃ u, run step s as = some u ∧ step u a = some t := by
  rw [run_append, Option.bind_eq_some_iff]
  simp

/-- The condition on all steps, split anywhere. -/
lemma allSteps_append {C : σ → α → Prop} {s : σ} {as bs : List α} :
    AllSteps step C s (as ++ bs) ↔
      AllSteps step C s as ∧ ∀ t, run step s as = some t → AllSteps step C t bs := by
  induction as generalizing s with
  | nil => simp [AllSteps]
  | cons b as ih =>
    simp only [List.cons_append, AllSteps, ih, run_cons, Option.bind_eq_some_iff]
    constructor
    · rintro ⟨hb, h⟩
      exact ⟨⟨hb, fun t ht => (h t ht).1⟩, fun t ⟨u, hu, hr⟩ => (h u hu).2 t hr⟩
    · rintro ⟨⟨hb, h⟩, h'⟩
      exact ⟨hb, fun t ht => ⟨h t ht, fun u hu => h' u ⟨t, ht, hu⟩⟩⟩

/-- The condition on all steps, split at the last one. -/
lemma allSteps_concat {C : σ → α → Prop} {s : σ} {as : List α} {a : α} :
    AllSteps step C s (as ++ [a]) ↔
      AllSteps step C s as ∧ ∀ t, run step s as = some t → C t a := by
  simp [allSteps_append, AllSteps]

/-- Two conditions on all steps. -/
lemma allSteps_and {C D : σ → α → Prop} {s : σ} {as : List α} (hC : AllSteps step C s as)
    (hD : AllSteps step D s as) : AllSteps step (fun s a => C s a ∧ D s a) s as := by
  induction as generalizing s with
  | nil => trivial
  | cons a as ih => exact ⟨⟨hC.1, hD.1⟩, fun t ht => ih (hC.2 t ht) (hD.2 t ht)⟩

/-- A weaker condition is met by more runs. -/
lemma AllSteps.mono {C D : σ → α → Prop} (hCD : ∀ s a, C s a → D s a) {s : σ} {as : List α}
    (h : AllSteps step C s as) : AllSteps step D s as := by
  induction as generalizing s with
  | nil => trivial
  | cons a as ih => exact ⟨hCD s a h.1, fun t ht => ih (h.2 t ht)⟩

/-- A kind of step occurs in a run that is extended by one step if it occurred before or the
last step is of this kind. -/
lemma occurs_concat {P : σ → α → Prop} {s : σ} {as : List α} {a : α} :
    Occurs step P s (as ++ [a]) ↔
      Occurs step P s as ∨ ∃ t, run step s as = some t ∧ P t a := by
  induction as generalizing s with
  | nil => simp [Occurs]
  | cons b as ih =>
    simp only [List.cons_append, Occurs, ih, run_cons, Option.bind_eq_some_iff]
    constructor
    · rintro (hb | ⟨t, ht, h | ⟨u, hu, hP⟩⟩)
      · exact .inl (.inl hb)
      · exact .inl (.inr ⟨t, ht, h⟩)
      · exact .inr ⟨u, ⟨t, ht, hu⟩, hP⟩
    · rintro ((hb | ⟨t, ht, h⟩) | ⟨u, ⟨t, ht, hu⟩, hP⟩)
      · exact .inl hb
      · exact .inr ⟨t, ht, .inl h⟩
      · exact .inr ⟨t, ht, .inr ⟨u, hu, hP⟩⟩

/-- The number of steps of one kind in a run that is extended by one step. -/
lemma count_concat {P : σ → α → Prop} [∀ s a, Decidable (P s a)] {s t : σ} {as : List α} {a : α}
    (h : run step s as = some t) :
    count step P s (as ++ [a]) = count step P s as + if P t a then 1 else 0 := by
  induction as generalizing s with
  | nil =>
    cases h
    cases hs : step t a <;> simp [count, hs]
  | cons b as ih =>
    obtain ⟨u, hu, hr⟩ := Option.bind_eq_some_iff.mp h
    simp [count, hu, ih hr, Nat.add_assoc]

/-- **Induction along a run**, the step at its end last. -/
theorem induct {s : σ} {motive : List α → σ → Prop} (nil : motive [] s)
    (concat : ∀ as a t u, run step s as = some t → motive as t → step t a = some u →
      motive (as ++ [a]) u) :
    ∀ {as t}, run step s as = some t → motive as t := by
  intro as
  induction as using List.reverseRecOn with
  | nil =>
    rintro t ⟨⟩
    exact nil
  | append_singleton as a ih =>
    intro t h
    obtain ⟨u, hu, ht⟩ := run_concat.mp h
    exact concat as a u t hu (ih hu) ht

/-- Induction along a run whose steps all meet `C`. -/
theorem induct_of_allSteps {s : σ} {C : σ → α → Prop} {motive : List α → σ → Prop}
    (nil : motive [] s)
    (concat : ∀ as a t u, run step s as = some t → motive as t → C t a → step t a = some u →
      motive (as ++ [a]) u) {as : List α} {t : σ} (hC : AllSteps step C s as)
    (h : run step s as = some t) : motive as t := by
  refine induct (motive := fun as t => AllSteps step C s as → motive as t) (fun _ => nil) ?_ h hC
  intro as a t u hr ih hu hC
  obtain ⟨hC, ha⟩ := allSteps_concat.mp hC
  exact concat as a t u hr (ih hC) (ha t hr) hu

/-- **The invariant rule.** What the first state has and every step that meets `C` preserves
holds in the last state of a run whose steps all meet `C`. -/
theorem invariant {I : σ → Prop} {C : σ → α → Prop}
    (hstep : ∀ s a t, I s → C s a → step s a = some t → I t) {s t : σ} {as : List α}
    (hs : I s) (hC : AllSteps step C s as) (h : run step s as = some t) : I t := by
  induction as generalizing s with
  | nil =>
    cases h
    exact hs
  | cons a as ih =>
    obtain ⟨u, hu, hr⟩ := Option.bind_eq_some_iff.mp h
    exact ih (hstep s a u hs hC.1 hu) (hC.2 u hu) hr

/-- A condition met by all steps of a run is met by all steps of its beginning. -/
lemma AllSteps.left {C : σ → α → Prop} {s : σ} {as bs : List α}
    (h : AllSteps step C s (as ++ bs)) : AllSteps step C s as :=
  (allSteps_append.mp h).1

/-- A condition is met by all steps of a run if every step meets it in the state that the actions
before it lead to. -/
lemma allSteps_of_prefix {C : σ → α → Prop} {s : σ} {as : List α}
    (h : ∀ pre a suf, as = pre ++ a :: suf → ∀ t, run step s pre = some t → C t a) :
    AllSteps step C s as := by
  induction as generalizing s with
  | nil => trivial
  | cons b as ih =>
    refine ⟨h [] b as rfl s rfl, fun t ht => ih ?_⟩
    rintro pre a suf rfl u hu
    exact h (b :: pre) a suf rfl u (by simp [ht, hu])

/-- No step fails to meet the condition that is always true. -/
lemma allSteps_true (s : σ) (as : List α) : AllSteps step (fun _ _ => True) s as :=
  allSteps_of_prefix fun _ _ _ _ _ _ => trivial

/-- A condition is met by all steps of a run if no step is the first that does not meet it. -/
theorem allSteps_of_first {C : σ → α → Prop} {s : σ} {as : List α}
    (h : ∀ pre a suf, as = pre ++ a :: suf → AllSteps step C s pre →
      ∀ t, run step s pre = some t → C t a) : AllSteps step C s as := by
  induction as using List.reverseRecOn with
  | nil => trivial
  | append_singleton as a ih =>
    have has : AllSteps step C s as :=
      ih fun pre b suf hpre => h pre b (suf ++ [a]) (by simp [hpre])
    exact allSteps_concat.mpr ⟨has, fun t ht => h as a [] rfl has t ht⟩

/-- A condition met by all steps of a run is met by the step after its beginning `pre`. -/
lemma AllSteps.at {C : σ → α → Prop} {s t : σ} {a : α} {pre suf : List α}
    (h : AllSteps step C s (pre ++ a :: suf)) (ht : run step s pre = some t) : C t a := by
  have h' : AllSteps step C s (pre ++ [a] ++ suf) := by simpa using h
  exact (allSteps_concat.mp h'.left).2 t ht

/-- Two conditions that agree in every state of a run are both met by all of its steps, or neither
is. -/
theorem allSteps_congr {C D : σ → α → Prop} {s : σ} {as : List α}
    (h : ∀ pre a suf, as = pre ++ a :: suf → ∀ t, run step s pre = some t → (C t a ↔ D t a)) :
    AllSteps step C s as ↔ AllSteps step D s as := by
  constructor
  · intro hC
    refine allSteps_of_prefix fun pre a suf has t ht => (h pre a suf has t ht).mp ?_
    subst has
    exact hC.at ht
  · intro hD
    refine allSteps_of_prefix fun pre a suf has t ht => (h pre a suf has t ht).mpr ?_
    subst has
    exact hD.at ht

/-- The invariant rule, for every state of the run. -/
theorem throughout_of_invariant {I : σ → Prop} {C : σ → α → Prop}
    (hstep : ∀ s a t, I s → C s a → step s a = some t → I t) {s : σ} {as : List α}
    (hs : I s) (hC : AllSteps step C s as) : Throughout step I s as := by
  rintro pre suf rfl t ht
  exact invariant hstep hs hC.left ht

/-- The first state of a run has what every state of it has. -/
lemma Throughout.head {I : σ → Prop} {s : σ} {as : List α} (h : Throughout step I s as) : I s :=
  h [] as rfl s rfl

/-- What every state of a run has, every state of its tail has. -/
lemma Throughout.tail {I : σ → Prop} {s t : σ} {a : α} {as : List α}
    (h : Throughout step I s (a :: as)) (ht : step s a = some t) : Throughout step I t as := by
  rintro pre suf rfl u hu
  exact h (a :: pre) suf rfl u (by simp [ht, hu])

lemma throughout_nil {I : σ → Prop} {s : σ} : Throughout step I s [] ↔ I s := by
  refine ⟨Throughout.head, fun h pre suf has t ht => ?_⟩
  obtain ⟨rfl, rfl⟩ := List.append_eq_nil_iff.mp has.symm
  cases ht
  exact h

/-- The first state of a run apart. -/
lemma throughout_cons {I : σ → Prop} {s : σ} {a : α} {as : List α} :
    Throughout step I s (a :: as) ↔ I s ∧ ∀ t, step s a = some t → Throughout step I t as := by
  refine ⟨fun h => ⟨h.head, fun t ht => h.tail ht⟩, fun ⟨hs, h⟩ pre suf has t ht => ?_⟩
  cases pre with
  | nil =>
    cases ht
    exact hs
  | cons b pre =>
    cases has
    obtain ⟨u, hu, hr⟩ := Option.bind_eq_some_iff.mp ht
    exact h u hu pre suf rfl t hr

instance decidableThroughout {I : σ → Prop} [DecidablePred I] :
    (s : σ) → (as : List α) → Decidable (Throughout step I s as)
  | _, [] => decidable_of_iff' _ throughout_nil
  | s, a :: as =>
    have : Decidable (∀ t, step s a = some t → Throughout step I t as) :=
      match _h : step s a with
      | none => isTrue nofun
      | some t =>
        have : Decidable (Throughout step I t as) := decidableThroughout t as
        decidable_of_iff (Throughout step I t as)
          ⟨fun ht _ e => Option.some.inj e ▸ ht, fun ht => ht t rfl⟩
    decidable_of_iff' _ throughout_cons

/-- What every state of a run has, every state of its beginning has. -/
lemma Throughout.left {I : σ → Prop} {s : σ} {as bs : List α}
    (h : Throughout step I s (as ++ bs)) : Throughout step I s as := by
  rintro pre suf rfl t ht
  exact h pre (suf ++ bs) (List.append_assoc ..) t ht

/-- What every state of a run has, the last one has. -/
lemma Throughout.last {I : σ → Prop} {s t : σ} {as : List α} (h : Throughout step I s as)
    (ht : run step s as = some t) : I t :=
  h as [] (List.append_nil as).symm t ht

/-- If an action that violates `C` in a state with `I` is enabled and ends outside `I`, then the
actions of a run whose states all have `I` all meet `C`. -/
theorem allSteps_of_throughout {I : σ → Prop} {C : σ → α → Prop}
    (hbad : ∀ s a, I s → ¬ C s a → ∃ t, step s a = some t ∧ ¬ I t) {s : σ} {as : List α}
    (h : Throughout step I s as) : AllSteps step C s as := by
  induction as generalizing s with
  | nil => trivial
  | cons a as ih =>
    refine ⟨by_contra fun hC => ?_, fun t ht => ih (h.tail ht)⟩
    obtain ⟨t, ht, hI⟩ := hbad s a h.head hC
    exact hI (h.tail ht).head

/-! ### Simulation -/

section Simulation

variable {τ β : Type*} {stepAbs : τ → β → Option τ} {acts : σ → α → List β}

/-- The actions of another system that the steps of the run of `as` stand for. -/
def trace (step : σ → α → Option σ) (acts : σ → α → List β) : σ → List α → List β
  | _, [] => []
  | s, a :: as => acts s a ++ (step s a).elim [] fun t => trace step acts t as

/-- **The simulation rule.** If another system simulates the steps that meet `C`, from related
states to related states, then it simulates the runs whose steps all meet `C`. -/
theorem simulation {R : σ → τ → Prop} {C : σ → α → Prop}
    (hstep : ∀ s a t u, R s u → C s a → step s a = some t →
      ∃ v, run stepAbs u (acts s a) = some v ∧ R t v)
    {s t : σ} {u : τ} {as : List α} (hs : R s u) (hC : AllSteps step C s as)
    (h : run step s as = some t) :
    ∃ v, run stepAbs u (trace step acts s as) = some v ∧ R t v := by
  induction as generalizing s u with
  | nil =>
    cases h
    exact ⟨u, rfl, hs⟩
  | cons a as ih =>
    obtain ⟨s', hs', hr⟩ := Option.bind_eq_some_iff.mp h
    obtain ⟨u', hu', hR⟩ := hstep s a s' u hs hC.1 hs'
    obtain ⟨v, hv, hR'⟩ := ih hR (hC.2 s' hs') hr
    refine ⟨v, ?_, hR'⟩
    rw [trace, hs', Option.elim_some, run_append, hu']
    exact hv

/-- What a run stands for that is extended by one step. -/
lemma trace_concat {s t : σ} {as : List α} {a : α} (h : run step s as = some t) :
    trace step acts s (as ++ [a]) = trace step acts s as ++ acts t a := by
  induction as generalizing s with
  | nil =>
    cases h
    cases hs : step t a <;> simp [trace, hs]
  | cons b as ih =>
    obtain ⟨u, hu, hr⟩ := Option.bind_eq_some_iff.mp h
    simp [trace, hu, ih hr]

end Simulation

/-! ### Queues -/

section Queue

variable {β : Type*} {queue : σ → List β} {puts takes : σ → α → List β}

/-- **A queue along a run.** If every step adds to the end of a queue and takes from its front, then
what leaves the queue in a run is the beginning of what was in it and what has entered it. -/
theorem trace_queue
    (hstep : ∀ s a t, step s a = some t → queue s ++ puts s a = takes s a ++ queue t)
    {s t : σ} {as : List α} (h : run step s as = some t) :
    queue s ++ trace step puts s as = trace step takes s as ++ queue t := by
  induction as generalizing s with
  | nil =>
    cases h
    simp [trace]
  | cons a as ih =>
    obtain ⟨u, hu, hr⟩ := Option.bind_eq_some_iff.mp h
    calc queue s ++ trace step puts s (a :: as)
        = queue s ++ puts s a ++ trace step puts u as := by simp [trace, hu]
      _ = takes s a ++ (queue u ++ trace step puts u as) := by
          rw [hstep s a u hu, List.append_assoc]
      _ = takes s a ++ trace step takes u as ++ queue t := by rw [ih hr, List.append_assoc]
      _ = trace step takes s (a :: as) ++ queue t := by simp [trace, hu]

/-- If the steps of one kind stand for one action each and the others for none, then a run stands
for as many actions as it has steps of this kind. -/
lemma length_trace {P : σ → α → Prop} [∀ s a, Decidable (P s a)] {acts : σ → α → List β} {s : σ}
    {as : List α} (h : AllSteps step (fun s a => (acts s a).length = if P s a then 1 else 0) s as) :
    (trace step acts s as).length = count step P s as := by
  induction as generalizing s with
  | nil => rfl
  | cons a as ih =>
    rw [trace, count, List.length_append, h.1]
    cases hs : step s a with
    | none => rfl
    | some t => exact congrArg _ (ih (h.2 t hs))

end Queue

end Runs
