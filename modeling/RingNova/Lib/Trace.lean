/-
# Runs of a deterministic labelled system

A system is a partial step function `step : σ → ε → Option σ`: the label says what
happens next, and `none` says that this label is not possible in this state.  The file
collects the rules that turn a fact about one step into a fact about whole runs:

* `Reachable.induct`: an inductive invariant holds in every reachable state;
* `allStates_iff_allSteps`: if, along an invariant, a state property survives a step
  exactly when the step meets a condition, then it holds all along a run exactly when
  every step of the run meets the condition;
* `run_rel`: a step-by-step simulation relates the runs on the same labels, and
  `Reachable.rel`, `allStates_rel` and `allSteps_rel` carry facts about runs along it.
-/
import Mathlib.Data.Option.Basic
import Mathlib.Tactic.Common

namespace RingNova.Trace

variable {σ τ ε : Type}

/-- The state reached from a state by taking the labels of a list in order. -/
def run (step : σ → ε → Option σ) : σ → List ε → Option σ
  | s, [] => some s
  | s, e :: es => (step s e).bind fun s' => run step s' es

variable {step : σ → ε → Option σ}

@[simp] lemma run_nil (s : σ) : run step s [] = some s := rfl

lemma run_cons (s : σ) (e : ε) (es : List ε) :
    run step s (e :: es) = (step s e).bind fun s' => run step s' es := rfl

lemma run_cons_some {s t : σ} {e : ε} {es : List ε} :
    run step s (e :: es) = some t ↔ ∃ s', step s e = some s' ∧ run step s' es = some t := by
  rw [run_cons, Option.bind_eq_some_iff]

lemma run_append (s : σ) (es es' : List ε) :
    run step s (es ++ es') = (run step s es).bind fun t => run step t es' := by
  induction es generalizing s with
  | nil => rfl
  | cons e es ih =>
    rw [List.cons_append, run_cons, run_cons, Option.bind_assoc]
    congr 1
    funext s'
    exact ih s'

lemma run_append_some {s t u : σ} {es es' : List ε} (h : run step s es = some t)
    (h' : run step t es' = some u) : run step s (es ++ es') = some u := by
  rw [run_append, h]
  exact h'

/-- The states of the runs from `s₀`. -/
def Reachable (step : σ → ε → Option σ) (s₀ s : σ) : Prop :=
  ∃ es, run step s₀ es = some s

lemma Reachable.refl (s : σ) : Reachable step s s := ⟨[], rfl⟩

lemma Reachable.tail {s₀ s s' : σ} {e : ε} (h : Reachable step s₀ s)
    (hs : step s e = some s') : Reachable step s₀ s' := by
  obtain ⟨es, hes⟩ := h
  refine ⟨es ++ [e], run_append_some hes ?_⟩
  rw [run_cons, hs]
  rfl

/-- An invariant of the steps is an invariant of the runs. -/
lemma run_invariant {I : σ → Prop} (hstep : ∀ s e s', I s → step s e = some s' → I s')
    {s t : σ} {es : List ε} (h₀ : I s) (h : run step s es = some t) : I t := by
  induction es generalizing s with
  | nil =>
    obtain rfl : s = t := by simpa using h
    exact h₀
  | cons e es ih =>
    obtain ⟨s', hs', hrun⟩ := run_cons_some.1 h
    exact ih (hstep s e s' h₀ hs') hrun

/-- An inductive invariant holds in every reachable state. -/
lemma Reachable.induct {I : σ → Prop} {s₀ s : σ} (h : Reachable step s₀ s) (h₀ : I s₀)
    (hstep : ∀ s e s', I s → step s e = some s' → I s') : I s := by
  obtain ⟨es, hes⟩ := h
  exact run_invariant hstep h₀ hes

/-- If every step with a label of a kind raises a measure, and none lowers it, then the
measure bounds how often the kind occurs. -/
theorem run_countP_le {I : σ → Prop} {μ : σ → ℕ} {P : ε → Bool}
    (hI : ∀ s e s', I s → step s e = some s' → I s')
    (hμ : ∀ s e s', I s → step s e = some s' → μ s + (if P e then 1 else 0) ≤ μ s')
    {s t : σ} {es : List ε} (h₀ : I s) (h : run step s es = some t) :
    μ s + es.countP P ≤ μ t := by
  induction es generalizing s with
  | nil =>
    obtain rfl : s = t := by simpa using h
    simp
  | cons e es ih =>
    obtain ⟨s', hs', hrun⟩ := run_cons_some.1 h
    have hone := hμ s e s' h₀ hs'
    have hrest := ih (hI s e s' h₀ hs') hrun
    rw [List.countP_cons]
    omega

/-- What the steps of the run on `es` yield, in order. -/
def yields {α : Type} (step : σ → ε → Option σ) (f : σ → ε → List α) : σ → List ε → List α
  | _, [] => []
  | s, e :: es => f s e ++ (step s e).elim [] fun s' => yields step f s' es

lemma yields_cons {α : Type} {f : σ → ε → List α} {s s' : σ} {e : ε} (hs : step s e = some s')
    (es : List ε) : yields step f s (e :: es) = f s e ++ yields step f s' es := by
  rw [yields, hs]
  rfl

/-- `P` holds in every state that the run on `es` goes through. -/
def AllStates (step : σ → ε → Option σ) (P : σ → Prop) : σ → List ε → Prop
  | s, [] => P s
  | s, e :: es => P s ∧ ∀ s', step s e = some s' → AllStates step P s' es

/-- `C` holds of every step that the run on `es` takes. -/
def AllSteps (step : σ → ε → Option σ) (C : σ → ε → σ → Prop) : σ → List ε → Prop
  | _, [] => True
  | s, e :: es => ∀ s', step s e = some s' → C s e s' ∧ AllSteps step C s' es

/-- `P` holds in every state in which the run on `es` takes a label, or cannot take it. -/
def AllBefore (step : σ → ε → Option σ) (P : σ → Prop) : σ → List ε → Prop
  | _, [] => True
  | s, e :: es => P s ∧ ∀ s', step s e = some s' → AllBefore step P s' es

lemma AllStates.head {P : σ → Prop} {s : σ} {es : List ε} (h : AllStates step P s es) :
    P s := by
  cases es with
  | nil => exact h
  | cons e es => exact h.1

/-- The last state of a run is one of its states. -/
lemma AllStates.last {P : σ → Prop} {s t : σ} {es : List ε} (h : AllStates step P s es)
    (hrun : run step s es = some t) : P t := by
  induction es generalizing s with
  | nil =>
    obtain rfl : s = t := by simpa using hrun
    exact h
  | cons e es ih =>
    obtain ⟨s', hs', hrun'⟩ := run_cons_some.1 hrun
    exact ih (h.2 s' hs') hrun'

/-- **From steps to runs.**  Let `I` be kept by every step that meets `C`, and let the
steps from `I` end in `P` exactly when they meet `C`.  Then `P` holds all along a run from
`I` exactly when all its steps meet `C`. -/
theorem allStates_iff_allSteps {I P : σ → Prop} {C : σ → ε → σ → Prop}
    (hI : ∀ s e s', I s → step s e = some s' → C s e s' → I s')
    (hP : ∀ s e s', I s → step s e = some s' → (P s' ↔ C s e s'))
    {s : σ} (es : List ε) (h₀ : I s) (hP₀ : P s) :
    AllStates step P s es ↔ AllSteps step C s es := by
  induction es generalizing s with
  | nil => exact ⟨fun _ => trivial, fun _ => hP₀⟩
  | cons e es ih =>
    constructor
    · rintro ⟨-, h⟩ s' hs'
      have hC : C s e s' := (hP s e s' h₀ hs').1 (h s' hs').head
      exact ⟨hC, (ih (hI s e s' h₀ hs' hC) (h s' hs').head).1 (h s' hs')⟩
    · intro h
      refine ⟨hP₀, ?_⟩
      intro s' hs'
      obtain ⟨hC, hrest⟩ := h s' hs'
      exact (ih (hI s e s' h₀ hs' hC) ((hP s e s' h₀ hs').2 hC)).2 hrest

/-- What the steps that meet `C` keep holds all along a run whose steps meet `C`. -/
theorem AllSteps.invariant {I P : σ → Prop} {C : σ → ε → σ → Prop}
    (hI : ∀ s e s', I s → step s e = some s' → C s e s' → I s') (hP : ∀ s, I s → P s)
    {s : σ} {es : List ε} (h : AllSteps step C s es) (h₀ : I s) : AllStates step P s es := by
  induction es generalizing s with
  | nil => exact hP s h₀
  | cons e es ih =>
    refine ⟨hP s h₀, ?_⟩
    intro s' hs'
    obtain ⟨hC, hrest⟩ := h s' hs'
    exact ih hrest (hI s e s' h₀ hs' hC)

/-- Two step conditions that agree along an invariant agree along the runs. -/
theorem allSteps_congr {I : σ → Prop} {C D : σ → ε → σ → Prop}
    (hI : ∀ s e s', I s → step s e = some s' → I s')
    (hCD : ∀ s e s', I s → step s e = some s' → (C s e s' ↔ D s e s'))
    {s : σ} (es : List ε) (h₀ : I s) : AllSteps step C s es ↔ AllSteps step D s es := by
  induction es generalizing s with
  | nil => exact Iff.rfl
  | cons e es ih =>
    refine forall_congr' fun s' => forall_congr' fun hs' => ?_
    exact and_congr (hCD s e s' h₀ hs') (ih (hI s e s' h₀ hs'))

/-- Once `P` holds, it holds in every later state of the run on `es`. -/
def Stable (step : σ → ε → Option σ) (P : σ → Prop) : σ → List ε → Prop
  | _, [] => True
  | s, e :: es => (P s → AllStates step P s (e :: es)) ∧
      ∀ s', step s e = some s' → Stable step P s' es

/-- A property is stable if no step ends it. -/
theorem stable_iff_allSteps {P : σ → Prop} {s : σ} (es : List ε) :
    Stable step P s es ↔ AllSteps step (fun s _ s' => P s → P s') s es := by
  have hkeep : ∀ (es : List ε) (s : σ), P s → AllSteps step (fun s _ s' => P s → P s') s es →
      AllStates step P s es := by
    intro es
    induction es with
    | nil => exact fun s hs _ => hs
    | cons e es ih =>
      exact fun s hs h => ⟨hs, fun s' hs' => ih s' ((h s' hs').1 hs) (h s' hs').2⟩
  induction es generalizing s with
  | nil => exact Iff.rfl
  | cons e es ih =>
    constructor
    · rintro ⟨h1, h2⟩ s' hs'
      exact ⟨fun hP => ((h1 hP).2 s' hs').head, ih.1 (h2 s' hs')⟩
    · intro h
      exact ⟨fun hP => hkeep (e :: es) s hP h, fun s' hs' => ih.2 (h s' hs').2⟩

lemma Stable.later {P : σ → Prop} {s t u : σ} {es es' : List ε} (h : Stable step P s (es ++ es'))
    (ht : run step s es = some t) (hP : P t) (hu : run step t es' = some u) : P u := by
  induction es generalizing s with
  | nil =>
    obtain rfl : s = t := by simpa using ht
    cases es' with
    | nil =>
      obtain rfl : s = u := by simpa using hu
      exact hP
    | cons e es' => exact (h.1 hP).last hu
  | cons e es ih =>
    obtain ⟨s', hs', hrun⟩ := run_cons_some.1 ht
    exact ih (h.2 s' hs') hrun

lemma allSteps_forall {ι : Type} {C : ι → σ → ε → σ → Prop} {s : σ} (es : List ε) :
    AllSteps step (fun s e s' => ∀ i, C i s e s') s es ↔ ∀ i, AllSteps step (C i) s es := by
  induction es generalizing s with
  | nil => exact ⟨fun _ _ => trivial, fun _ => trivial⟩
  | cons e es ih =>
    constructor
    · exact fun h i s' hs' => ⟨(h s' hs').1 i, ih.1 (h s' hs').2 i⟩
    · exact fun h s' hs' => ⟨fun i => (h i s' hs').1, ih.2 fun i => (h i s' hs').2⟩

/-- The run on `es` leads from `s` to `t`, and `t` is the first of its states with `P`. -/
def FirstReach (step : σ → ε → Option σ) (P : σ → Prop) : σ → List ε → σ → Prop
  | s, [], t => s = t ∧ P s
  | s, e :: es, t => ¬ P s ∧ ∃ s', step s e = some s' ∧ FirstReach step P s' es t

lemma FirstReach.holds {P : σ → Prop} {s t : σ} {es : List ε} (h : FirstReach step P s es t) :
    P t := by
  induction es generalizing s with
  | nil =>
    obtain ⟨rfl, hP⟩ := h
    exact hP
  | cons e es ih =>
    obtain ⟨-, s', -, hrest⟩ := h
    exact ih hrest

/-- If `P` holds from the start, the run is empty. -/
lemma FirstReach.eq_of_holds {P : σ → Prop} {s t : σ} {es : List ε}
    (h : FirstReach step P s es t) (hP : P s) : s = t := by
  cases es with
  | nil => exact h.1
  | cons e es => exact absurd hP h.1

/-- Until `P` holds, every step keeps `I` or ends in `F`; then `F` holds when `P` does. -/
theorem FirstReach.ends {P I F : σ → Prop} (hI : ∀ s, I s → ¬ P s) (hF : ∀ s, F s → P s)
    (hstep : ∀ s e s', I s → step s e = some s' → I s' ∨ F s') {s t : σ} {es : List ε}
    (h : FirstReach step P s es t) (h₀ : I s ∨ F s) : F t := by
  induction es generalizing s with
  | nil =>
    obtain ⟨rfl, hP⟩ := h
    exact h₀.resolve_left fun hs => hI s hs hP
  | cons e es ih =>
    obtain ⟨hP, s', hs', hrest⟩ := h
    exact ih hrest (hstep s e s' (h₀.resolve_right fun hs => hP (hF s hs)) hs')

/-- A simulation that depends on a property of the state lasts as long as the property. -/
theorem run_rel_while {step' : τ → ε → Option τ} {I P : σ → Prop} {R : σ → τ → Prop}
    (hI : ∀ s e s', I s → step s e = some s' → I s')
    (hR : ∀ s t e, I s → P s → R s t → Option.Rel R (step s e) (step' t e))
    {s : σ} {t : τ} {es : List ε} (hes : AllBefore step P s es) (h₀ : I s) (h : R s t) :
    Option.Rel R (run step s es) (run step' t es) := by
  induction es generalizing s t with
  | nil => exact Option.Rel.some h
  | cons e es ih =>
    obtain ⟨hP, hrest⟩ := hes
    rw [run_cons, run_cons]
    have hst := hR s t e h₀ hP h
    generalize hs : step s e = x at hst
    generalize step' t e = y at hst
    cases hst with
    | some hab => exact ih (hrest _ hs) (hI s e _ h₀ hs) hab
    | none => exact Option.Rel.none

lemma allBefore_of_forall {P : σ → Prop} (hP : ∀ s, P s) (s : σ) (es : List ε) :
    AllBefore step P s es := by
  induction es generalizing s with
  | nil => trivial
  | cons e es ih => exact ⟨hP s, fun s' _ => ih s'⟩

/-- **Simulation.**  If related states take every label to related states, then the runs
on the same labels are related, and so is their getting stuck. -/
theorem run_rel {step' : τ → ε → Option τ} {R : σ → τ → Prop}
    (hR : ∀ s t e, R s t → Option.Rel R (step s e) (step' t e))
    {s : σ} {t : τ} (es : List ε) (h : R s t) :
    Option.Rel R (run step s es) (run step' t es) :=
  run_rel_while (I := fun _ => True) (P := fun _ => True) (fun _ _ _ _ _ => trivial)
    (fun s t e _ _ hst => hR s t e hst) (allBefore_of_forall (fun _ => trivial) s es) trivial h

section Transfer

variable {step' : τ → ε → Option τ} {R : σ → τ → Prop}
  (hR : ∀ s t e, R s t → Option.Rel R (step s e) (step' t e))

include hR

/-- Related states take a label together. -/
lemma step_rel {s s' : σ} {t : τ} {e : ε} (h : R s t) (hs : step s e = some s') :
    ∃ t', step' t e = some t' ∧ R s' t' := by
  have hst := hR s t e h
  rw [hs] at hst
  cases hst' : step' t e with
  | none =>
    rw [hst'] at hst
    cases hst
  | some t' =>
    rw [hst'] at hst
    cases hst with
    | some h' => exact ⟨t', rfl, h'⟩

lemma step_rel_symm {s : σ} {t t' : τ} {e : ε} (h : R s t) (ht : step' t e = some t') :
    ∃ s', step s e = some s' ∧ R s' t' := by
  have hst := hR s t e h
  rw [ht] at hst
  cases hst' : step s e with
  | none =>
    rw [hst'] at hst
    cases hst
  | some s' =>
    rw [hst'] at hst
    cases hst with
    | some h' => exact ⟨s', rfl, h'⟩

lemma run_rel_some {s s' : σ} {t : τ} {es : List ε} (h : R s t) (hs : run step s es = some s') :
    ∃ t', run step' t es = some t' ∧ R s' t' := by
  have hst := run_rel hR es h
  rw [hs] at hst
  generalize run step' t es = x at hst
  cases hst with
  | some h' => exact ⟨_, rfl, h'⟩

lemma run_rel_symm {s : σ} {t t' : τ} {es : List ε} (h : R s t) (ht : run step' t es = some t') :
    ∃ s', run step s es = some s' ∧ R s' t' := by
  have hst := run_rel hR es h
  rw [ht] at hst
  generalize run step s es = x at hst
  cases hst with
  | some h' => exact ⟨_, rfl, h'⟩

/-- Every reachable state is related to a reachable one. -/
theorem Reachable.rel {s₀ s : σ} {t₀ : τ} (h : Reachable step s₀ s) (h₀ : R s₀ t₀) :
    ∃ t, Reachable step' t₀ t ∧ R s t := by
  refine h.induct (I := fun s => ∃ t, Reachable step' t₀ t ∧ R s t) ⟨t₀, .refl t₀, h₀⟩ ?_
  rintro s e s' ⟨t, ht, hst⟩ hs
  obtain ⟨t', ht', hst'⟩ := step_rel hR hst hs
  exact ⟨t', ht.tail ht', hst'⟩

/-- What agrees on related states agrees along related runs. -/
theorem allStates_rel {P : σ → Prop} {Q : τ → Prop} (hPQ : ∀ s t, R s t → (P s ↔ Q t)) {s : σ}
    {t : τ} (es : List ε) (h : R s t) : AllStates step P s es ↔ AllStates step' Q t es := by
  induction es generalizing s t with
  | nil => exact hPQ s t h
  | cons e es ih =>
    refine and_congr (hPQ s t h) ⟨?_, ?_⟩
    · intro hP t' ht'
      obtain ⟨s', hs', h'⟩ := step_rel_symm hR h ht'
      exact (ih h').1 (hP s' hs')
    · intro hQ s' hs'
      obtain ⟨t', ht', h'⟩ := step_rel hR h hs'
      exact (ih h').2 (hQ t' ht')

theorem allSteps_rel {C : σ → ε → σ → Prop} {D : τ → ε → τ → Prop}
    (hCD : ∀ s t e s' t', R s t → R s' t' → (C s e s' ↔ D t e t')) {s : σ}
    {t : τ} (es : List ε) (h : R s t) : AllSteps step C s es ↔ AllSteps step' D t es := by
  induction es generalizing s t with
  | nil => exact Iff.rfl
  | cons e es ih =>
    constructor
    · intro hC t' ht'
      obtain ⟨s', hs', h'⟩ := step_rel_symm hR h ht'
      exact ⟨(hCD s t e s' t' h h').1 (hC s' hs').1, (ih h').1 (hC s' hs').2⟩
    · intro hD s' hs'
      obtain ⟨t', ht', h'⟩ := step_rel hR h hs'
      exact ⟨(hCD s t e s' t' h h').2 (hD t' ht').1, (ih h').2 (hD t' ht').2⟩

theorem AllStates.of_rel {P : σ → Prop} {Q : τ → Prop} (hQP : ∀ s t, R s t → Q t → P s) {s : σ}
    {t : τ} {es : List ε} (hQ : AllStates step' Q t es) (h : R s t) : AllStates step P s es := by
  induction es generalizing s t with
  | nil => exact hQP s t h hQ
  | cons e es ih =>
    refine ⟨hQP s t h hQ.1, ?_⟩
    intro s' hs'
    obtain ⟨t', ht', h'⟩ := step_rel hR h hs'
    exact ih (hQ.2 t' ht') h'

theorem FirstReach.rel {P : σ → Prop} {Q : τ → Prop} (hPQ : ∀ s t, R s t → (P s ↔ Q t))
    {s s' : σ} {t : τ} {es : List ε} (hP : FirstReach step P s es s') (h : R s t) :
    ∃ t', FirstReach step' Q t es t' ∧ R s' t' := by
  induction es generalizing s t with
  | nil =>
    obtain ⟨rfl, hs⟩ := hP
    exact ⟨t, ⟨rfl, (hPQ s t h).1 hs⟩, h⟩
  | cons e es ih =>
    obtain ⟨hs, s₁, hs₁, hrest⟩ := hP
    obtain ⟨t₁, ht₁, h₁⟩ := step_rel hR h hs₁
    obtain ⟨t', ht', h'⟩ := ih hrest h₁
    exact ⟨t', ⟨fun ht => hs ((hPQ s t h).2 ht), t₁, ht₁, ht'⟩, h'⟩

end Transfer

end RingNova.Trace
