import Mathlib.Data.List.Sort
import Mathlib.Tactic.Common

/-!
# Runs of a partial step function

A system is given by a step function `step : σ → ε → Option σ`: the state
`s` can take the event `e` when `step s e` is defined, and what it is then
is the next state. The events carry everything the system does not decide
itself – what the operating system answers, what the clock reads, what the
code it calls back does – so a list of events is one interleaving, and
quantifying over lists of events is quantifying over all of them.

`Run step ok s es s'` says that the events `es` lead from `s` to `s'`, each
of them allowed, in the state before it, by the condition `ok`. An
assumption about the environment, or the condition under which a program
does what it should, is such an `ok`; no condition at all is `always`.

What is observed of a run is a list, newest first, that the steps put
observations in front of. `Past P` says that each observation of the list
satisfies `P` of those made before it, which is how a statement about the
order of observations is made.
-/

variable {σ ε ω : Type}

/-! ## Runs -/

/-- **A run**: the events lead from the first state to the second, each
allowed by `ok` in the state it is taken in. -/
inductive Run (step : σ → ε → Option σ) (ok : σ → ε → Prop) :
    σ → List ε → σ → Prop
  | nil (s : σ) : Run step ok s [] s
  | cons {s s' s'' : σ} {e : ε} {es : List ε} (hok : ok s e)
      (hstep : step s e = some s') (rest : Run step ok s' es s'') :
      Run step ok s (e :: es) s''

/-- The condition every event meets. -/
def always : σ → ε → Prop := fun _ _ => True

namespace Run

variable {step : σ → ε → Option σ} {ok ok' : σ → ε → Prop} {s s' s'' : σ}
  {es es' : List ε}

/-- One event is a run. -/
theorem single {e : ε} (hok : ok s e) (hstep : step s e = some s') :
    Run step ok s [e] s' :=
  cons hok hstep (nil s')

/-- Runs compose. -/
theorem append (h : Run step ok s es s') (h' : Run step ok s' es' s'') :
    Run step ok s (es ++ es') s'' := by
  induction h with
  | nil s => exact h'
  | cons hok hstep _ ih => exact cons hok hstep (ih h')

/-- **The invariant rule**: what holds at the start and is kept by every
allowed step holds at the end of every run. -/
theorem invariant {P : σ → Prop} (h : Run step ok s es s')
    (hstep : ∀ s e s', P s → ok s e → step s e = some s' → P s')
    (hs : P s) : P s' := by
  induction h with
  | nil s => exact hs
  | cons hok he _ ih => exact ih (hstep _ _ _ hs hok he)

/-- **The condition may be exchanged** for one that the steps meet as well,
where an invariant of the run may be used. -/
theorem imp {P : σ → Prop} (h : Run step ok s es s')
    (hstep : ∀ s e s', P s → ok s e → step s e = some s' → ok' s e ∧ P s') (hs : P s) :
    Run step ok' s es s' := by
  induction h with
  | nil s => exact nil s
  | cons hok he _ ih =>
    obtain ⟨hok', hs'⟩ := hstep _ _ _ hs hok he
    exact cons hok' he (ih hs')

/-- A weaker condition allows more runs. -/
theorem mono (h : Run step ok s es s') (hok : ∀ s e, ok s e → ok' s e) :
    Run step ok' s es s' :=
  h.imp (P := fun _ => True) (fun s e _ _ h' _ => ⟨hok s e h', trivial⟩) trivial

end Run

instance : DecidableRel (always : σ → ε → Prop) :=
  fun _ _ => inferInstanceAs (Decidable True)

/-- **Executing a list of events**: the state they lead to, if each of them
is allowed and can be taken. This is the reading of a run that
evaluates. -/
def exec (step : σ → ε → Option σ) (ok : σ → ε → Prop) [DecidableRel ok] :
    σ → List ε → Option σ
  | s, [] => some s
  | s, e :: es =>
    if ok s e then (step s e).bind (fun s' => exec step ok s' es) else none

section Exec

variable {step : σ → ε → Option σ} {ok : σ → ε → Prop} [DecidableRel ok]

/-- Executing is running. -/
theorem run_of_exec {s s' : σ} {es : List ε} (h : exec step ok s es = some s') :
    Run step ok s es s' := by
  induction es generalizing s with
  | nil =>
    obtain rfl : s = s' := Option.some.inj h
    exact Run.nil s
  | cons e es ih =>
    unfold exec at h
    split at h
    case isTrue hok =>
      obtain ⟨s₁, h₁, h₂⟩ := Option.bind_eq_some_iff.mp h
      exact Run.cons hok h₁ (ih h₂)
    case isFalse hok => exact absurd h (by simp)

/-- **A run found by evaluation**: when executing the events ends in a state
that passes a test, there is a run to a state that passes it. -/
theorem exists_run_of_exec (step : σ → ε → Option σ) (ok : σ → ε → Prop) [DecidableRel ok]
    (s : σ) (es : List ε) (test : σ → Bool) (h : (exec step ok s es).any test = true) :
    ∃ s', Run step ok s es s' ∧ test s' = true := by
  cases hx : exec step ok s es with
  | none => rw [hx] at h; exact absurd h (by simp)
  | some s' => rw [hx] at h; exact ⟨s', run_of_exec hx, h⟩

end Exec

/-! ## What is observed of a run -/

/-- **What is observed along a run**, oldest first, when `obs` says what is
observed of one step. -/
def observed (step : σ → ε → Option σ) (obs : σ → ε → List ω) : σ → List ε → List ω
  | _, [] => []
  | s, e :: es => obs s e ++ (step s e).elim [] (fun s' => observed step obs s' es)

/-- What is observed of the first step comes first. -/
theorem observed_cons {step : σ → ε → Option σ} {s s' : σ} {e : ε} (he : step s e = some s')
    (obs : σ → ε → List ω) (es : List ε) :
    observed step obs s (e :: es) = obs s e ++ observed step obs s' es := by
  rw [observed, he]
  rfl

/-- **The invariant rule with observations**: what holds of the start and what
has been observed by then, and is kept by every allowed step and its
observations, holds at the end of every run. -/
theorem Run.invariant_observed {step : σ → ε → Option σ} {ok : σ → ε → Prop} {s s' : σ}
    {es : List ε} {P : σ → List ω → Prop} (h : Run step ok s es s') (obs : σ → ε → List ω)
    (hstep : ∀ s e s' l, P s l → ok s e → step s e = some s' → P s' (l ++ obs s e))
    {l : List ω} (hs : P s l) : P s' (l ++ observed step obs s es) := by
  induction h generalizing l with
  | nil s =>
    rw [observed, List.append_nil]
    exact hs
  | cons hok he _ ih =>
    rw [observed_cons he, ← List.append_assoc]
    exact ih (hstep _ _ _ _ hs hok he)

/-- **A law that tells which steps are allowed**: it follows from an invariant
that the allowed steps keep, and is broken by every other step. Then it holds
in every state that a run passes exactly if each step of the run is
allowed. -/
theorem Run.forall_prefix_iff {step : σ → ε → Option σ} {ok : σ → ε → Prop} {s s' : σ}
    {es : List ε} {P I : σ → List ω → Prop} (h : Run step always s es s') (obs : σ → ε → List ω)
    (hlaw : ∀ s l, I s l → P s l)
    (honly : ∀ s e s' l, I s l → step s e = some s' → P s' (l ++ obs s e) → ok s e)
    (hstep : ∀ s e s' l, I s l → ok s e → step s e = some s' → I s' (l ++ obs s e))
    {l : List ω} (hs : I s l) :
    (∀ es₁ s₁, es₁ <+: es → Run step always s es₁ s₁ → P s₁ (l ++ observed step obs s es₁))
      ↔ Run step ok s es s' := by
  constructor
  · intro hP
    induction h generalizing l with
    | nil s => exact Run.nil s
    | @cons s s₁ s' e es hok he rest ih =>
      have hone : P s₁ (l ++ obs s e) := by
        have hpass := hP [e] s₁ (List.prefix_append [e] es) (Run.single trivial he)
        rwa [observed_cons he, observed, List.append_nil] at hpass
      have hok' := honly s e s₁ l hs he hone
      refine Run.cons hok' he (ih (hstep s e s₁ l hs hok' he) (fun es₁ s₂ hes hrun => ?_))
      have hpass := hP (e :: es₁) s₂ (List.cons_prefix_cons.mpr ⟨rfl, hes⟩)
        (Run.cons trivial he hrun)
      rwa [observed_cons he, ← List.append_assoc] at hpass
  · intro hrun es₁ s₁ hes hrun₁
    -- the steps of the prefix are those of the run
    have hallowed : Run step ok s es₁ s₁ := by
      clear h hs
      induction hrun₁ generalizing es with
      | nil s => exact Run.nil s
      | @cons s s₂ s₁ e es₁ _ he _ ih =>
        cases hrun with
        | nil => exact absurd hes (by simp)
        | @cons _ s₃ _ e' es' hok he' hrest =>
          obtain ⟨rfl, hes'⟩ := List.cons_prefix_cons.mp hes
          obtain rfl : s₂ = s₃ := Option.some.inj (he.symm.trans he')
          exact Run.cons hok he (ih hrest hes')
    exact hlaw _ _ (hallowed.invariant_observed obs hstep hs)

/-- **What the events are**, when that is all that is observed. -/
theorem Run.observed_events {step : σ → ε → Option σ} {ok : σ → ε → Prop} {s s' : σ}
    {es : List ε} (h : Run step ok s es s') (f : ε → List ω) :
    observed step (fun _ e => f e) s es = es.flatMap f := by
  induction h with
  | nil s => rfl
  | cons hok he _ ih =>
    rw [observed, he, List.flatMap_cons]
    exact congrArg (f _ ++ ·) ih

/-- **What every observation satisfies** is a condition on the steps. -/
theorem Run.forall_observed_iff {step : σ → ε → Option σ} {ok : σ → ε → Prop} {s s' : σ}
    {es : List ε} (h : Run step ok s es s') (obs : σ → ε → List ω) (P : ω → Prop) :
    (∀ x ∈ observed step obs s es, P x)
      ↔ Run step (fun s e => ok s e ∧ ∀ x ∈ obs s e, P x) s es s' := by
  induction h with
  | nil s => exact ⟨fun _ => Run.nil s, fun _ x hx => absurd hx (List.not_mem_nil)⟩
  | @cons s s₁ s' e es hok he rest ih =>
    rw [observed_cons he, List.forall_mem_append, ih]
    constructor
    · rintro ⟨hx, hrest⟩
      exact Run.cons ⟨hok, hx⟩ he hrest
    · intro hrun
      cases hrun with
      | cons hok' he' hrest =>
        obtain rfl := Option.some.inj (he.symm.trans he')
        exact ⟨hok'.2, hrest⟩

/-- **Each observation satisfies `P` of the earlier ones.** The list is
newest first, so what was observed before an entry is the list after it. -/
def Past (P : List ω → ω → Prop) : List ω → Prop
  | [] => True
  | o :: earlier => P earlier o ∧ Past P earlier

namespace Past

variable {P : List ω → ω → Prop}

@[simp] theorem nil : Past P [] := trivial

@[simp] theorem cons_iff {o : ω} {l : List ω} :
    Past P (o :: l) ↔ P l o ∧ Past P l := Iff.rfl

end Past
