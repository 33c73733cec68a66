import Felspar.UringDelivery

/-!
# The two CQEs of an IOP with a deadline

An operation that is linked to a timeout yields two CQEs, and the kernel says
in which order. If the operation finishes first, the timer's result is
`-ECANCELED`. If the timer expires first its result is `-ETIME`, and the
operation is asked to stop: it may be cancelled, and its result is
`-ECANCELED`, but it may also have gone too far for that and finish with what
it has done.

The warden tells a CQE that decides from one that does not by the result
alone: it ignores `-ECANCELED`. So as long as one of the two results is
`-ECANCELED`, the other one is what the coroutine observes, once, in either
order (`UringWarden.Delivery`). When neither is, both are delivered: the
coroutine is resumed twice if its IOP is still there for the second one, and
observes the one that comes first if it is not.
-/

namespace UringWarden

/-! ## The contract -/

/-- **The results the kernel may give the SQEs of an IOP with a deadline**,
`a` to the operation and `t` to the timer. -/
def LinkTimeout (a t : Int) : Prop := t = -ECANCELED ∧ a ≠ -ECANCELED ∨ t = -ETIME

/-- The result of the SQE in each role. -/
def pairResult (a t : Int) : Role → Int
  | .op => a
  | .timer => t

/-- **The steps of a run in which the kernel gives these results** to the SQEs
of the IOP `i`, which is one with a deadline. -/
def Answered (i : DeliveryId) (a t : Int) (s : State) (e : Event) : Prop :=
  Orderly s e ∧ ∀ p ∈ taken s e, p.1.userData = some i →
    p.2 = pairResult a t p.1.role ∧ ∀ c ∈ s.completions i, c.deadline ≠ none

instance (i : DeliveryId) (a t : Int) : DecidableRel (Answered i a t) := fun s e =>
  inferInstanceAs (Decidable (Orderly s e ∧ ∀ p ∈ taken s e, p.1.userData = some i →
    p.2 = pairResult a t p.1.role ∧ ∀ c ∈ s.completions i, c.deadline ≠ none))

/-- **The IOP is not destroyed before its coroutine has been resumed.** It may
be destroyed at any time after that, or be kept. -/
def Outlives (log : List Obs) : Prop :=
  Past (fun earlier o => o.isDestroyed = true → resumptions earlier ≠ []) log

/-- **The coroutine is resumed exactly once**, and observes the same outcome
in every run: whichever CQE comes first, and however long the IOP lives. -/
def ResumedOnce (call : Call) (a t : Int) : Prop :=
  ∃ outcome, ∀ i es s, Run step (Answered i a t) init es s →
    .awaited i call.completion.op call.completion.deadline ∈ s.log i →
    Outlives (s.log i) → (∀ r, 0 < (s.log i).countP (Obs.isExecuted r)) →
      resumptions (s.log i) = [outcome]

/-! ## One of the results is `-ECANCELED` -/

/-- Without a resumption the IOP has not been destroyed. -/
theorem Outlives.not_destroyed {log : List Obs} (h : Outlives log)
    (hr : resumptions log = []) : log.any Obs.isDestroyed = false := by
  induction log with
  | nil => rfl
  | cons o log ih =>
    have hlog : resumptions log = [] := by
      unfold resumptions at hr
      rw [List.filterMap_cons] at hr
      split at hr
      · exact hr
      · exact absurd hr (by simp)
    have ho : o.isDestroyed = false := by
      cases hd : o.isDestroyed
      · rfl
      · exact absurd hlog (h.1 hd)
    rw [List.any_cons, ho, ih h.2 hlog]
    rfl

/-- The deciding CQE decides an IOP that has not been destroyed. -/
theorem decided_of_executed {f : Fate} {log : List Obs}
    (h : 0 < log.countP (Obs.isExecuted f.decider)) (hd : log.any Obs.isDestroyed = false) :
    decided f log = true := by
  induction log with
  | nil => exact absurd h (Nat.lt_irrefl 0)
  | cons o log ih =>
    rw [List.any_cons, Bool.or_eq_false_iff] at hd
    rw [decided, hd.2]
    cases ho : o.isExecuted f.decider with
    | true => rfl
    | false =>
      rw [List.countP_cons_of_neg (by simp [ho])] at h
      rw [ih h hd.2]
      rfl

/-- **An IOP whose results are those of a fate** resumes its coroutine exactly
once, with the outcome of that fate. -/
theorem resumedOnce_of_fate {f : Fate} {call : Call} {a t : Int}
    (hres : ∀ r, pairResult a t r = f.result r)
    (hfit : ∀ c : Completion, c.deadline ≠ none → f.Fits c) : ResumedOnce call a t := by
  refine ⟨f.outcome call.completion.op, fun i es s h ha hout hex => ?_⟩
  have hfollows : Run step (Follows i f) init es s := by
    refine h.mono (fun s e hok => ⟨hok.1, fun cqe sqe he hq hu _ => ?_⟩)
    obtain ⟨hr, hd⟩ := hok.2 _ (taken_of_take he hq) hu
    exact ⟨hr.trans (hres sqe.role), fun c hc => hfit c (hd c hc)⟩
  have htold := (delivery_of_run hfollows).heard.told i _ _ ha
  by_cases hdec : decided f (s.log i) = true
  · rw [if_pos hdec] at htold
    exact htold.1
  · rw [if_neg hdec] at htold
    exact absurd (decided_of_executed (hex f.decider) (hout.not_destroyed htold)) hdec

/-! ## Neither of them is -/

/-- An operation that has not been cancelled is reported. -/
theorem exists_deliver (c : Completion) {a : Int} (ha : a ≠ -ECANCELED) :
    ∃ outcome, c.deliver a = some outcome := by
  have hvoid : ∀ n : Int, n ≠ -ECANCELED → ∃ outcome, c.deliverVoid n = some outcome := by
    intro n hn
    unfold Completion.deliverVoid
    split_ifs with h₁ h₂
    · exact ⟨_, rfl⟩
    · exact absurd h₂.2 hn
    · exact ⟨_, rfl⟩
    · exact ⟨_, rfl⟩
  rw [deliver_of_kind]
  cases c.op.kind with
  | value =>
    show ∃ outcome, c.deliverValue a = some outcome
    unfold Completion.deliverValue
    split_ifs with h₁ h₂
    · exact absurd h₂.2 ha
    · exact ⟨_, rfl⟩
    · exact ⟨_, rfl⟩
  | void => exact hvoid a ha
  | sleep =>
    refine hvoid _ ?_
    split
    · decide
    · exact ha

/-- An IOP is awaited and its SQEs are submitted; the operation finishes, and
then the timer expires. -/
def finishesThenExpires (call : Call) (a : Int) : List Event :=
  [.create call, .runUntil 1, .await 0 2 0 2, .suspend, .condition false 2,
    .waitCqe 0 ⟨0, a⟩, .suspend, .peekCqe (some ⟨0, -ETIME⟩)]

/-- **A program with one IOP**, whose loop is at the point `p`. -/
structure At (s : State) (p : Point) (inflight : List Sqe) (c : Completion) : Prop where
  fault : s.fault = none
  closed : s.closed = false
  frames : s.frames = [⟨some 1, p⟩]
  inflight : s.inflight = inflight
  completion : s.completions 0 = some c

section Steps

variable {s : State} {c : Completion} {sqe : Sqe} {l : List Sqe} {r : Int} {outcome : Outcome}

/-- A CQE is taken and delivered. -/
theorem At.deliver {p : Point} {e : Event} (h : At s p (sqe :: l) c)
    (hp : p = .waitCqe ∧ e = .waitCqe 0 ⟨0, r⟩ ∨ p = .peekCqe ∧ e = .peekCqe (some ⟨0, r⟩))
    (hu : sqe.userData = some 0) (hex : c.iopExists = true) (hd : c.deliver r = some outcome) :
    ∃ s', step s e = some s' ∧ At s' (.delivering 0) l { c with result := outcome }
      ∧ s'.log 0 = .resumed 0 outcome :: .executed 0 sqe.role r :: s.log 0 := by
  obtain ⟨hfault, hclosed, hf, hq, hc⟩ := h
  have htake : s.inflight[0]? = some sqe := by rw [hq]; rfl
  have hstep : step s e = some (execute (s.cqeSeen 0) sqe r) := by
    rcases hp with ⟨rfl, rfl⟩ | ⟨rfl, rfl⟩
    · simp [step, hfault, hclosed, hf, Point.userRuns, loopStep, waitCqe, takeCqe, htake]
    · simp [step, hfault, hclosed, hf, Point.userRuns, loopStep, takeCqe, htake]
  rw [(Executed.delivered (s := s.cqeSeen 0) hu hc hex hd).eq] at hstep
  refine ⟨_, hstep, ?_, ?_⟩
  · rw [goto_eq]
    refine ⟨hfault, hclosed, ?_, ?_, rfl⟩
    · show gotoFrames _ s.frames = _
      rw [hf]
      rfl
    · show s.inflight.eraseIdx 0 = l
      rw [hq]
      rfl
  · rw [goto_eq]
    rfl

/-- The coroutine suspends, and another CQE is to come. -/
theorem At.suspend (h : At s (.delivering 0) l c) (hn : c.iopCount = 2)
    (hout : c.isOutstanding = false) : ∃ s', step s .suspend = some s'
      ∧ At s' .peekCqe l { c with iopCount := 1 } ∧ s'.log 0 = s.log 0 := by
  obtain ⟨hfault, hclosed, hf, hq, hc⟩ := h
  have hend : executeEnd (s.goto .peekCqe) 0
      = (s.goto .peekCqe).setCompletion 0 { c with iopCount := 1 } := by
    have hone : sizeDecrement c.iopCount = 1 := by rw [hn]; decide
    unfold executeEnd
    rw [show (s.goto .peekCqe).completions 0 = some c by rw [goto_eq]; exact hc]
    dsimp only
    rw [hone, hout]
    simp
  have hstep : step s .suspend = some (executeEnd (s.goto .peekCqe) 0) := by
    simp [step, hfault, hclosed, hf, Point.userRuns, userStep, UringWarden.suspend]
  rw [hend, goto_eq] at hstep
  refine ⟨_, hstep, ⟨hfault, hclosed, ?_, hq, rfl⟩, rfl⟩
  show gotoFrames _ s.frames = _
  rw [hf]
  rfl

/-- The IOP is awaited, and its SQEs are submitted. -/
theorem at_awaited {call : Call} {d : TimePoint} (hd : call.completion.deadline = some d)
    (a t : Int) : ∃ s, Run step (Answered 0 a t) init
        [.create call, .runUntil 1, .await 0 2 0 2, .suspend, .condition false 2] s
      ∧ At s .waitCqe [{ prep := .op call.completion.op, userData := some 0, link := true },
          { prep := .linkTimeout (remaining d 0), userData := some 0 }]
          { call.completion with handle := some 2, iopCount := 2 }
      ∧ s.log 0 = [.awaited 0 call.completion.op (some d)] := by
  have hno : ∀ (s : State) (e : Event), e.cqe = none → ∀ p ∈ taken s e,
      p.1.userData = some 0 → p.2 = pairResult a t p.1.role
        ∧ ∀ c ∈ s.completions 0, c.deadline ≠ none := by
    intro s e he p hp
    rw [taken, he] at hp
    exact absurd hp (by simp)
  cases call <;> simp only [Call.completion, reduceCtorEq] at hd <;> subst hd <;>
    exact ⟨_, Run.cons ⟨trivial, hno _ _ rfl⟩ rfl (Run.cons ⟨trivial, hno _ _ rfl⟩ rfl
      (Run.cons ⟨rfl, hno _ _ rfl⟩ rfl (Run.cons ⟨trivial, hno _ _ rfl⟩ rfl
        (Run.single ⟨trivial, hno _ _ rfl⟩ rfl)))), ⟨rfl, rfl, rfl, rfl, rfl⟩, rfl⟩

/-- A step that takes the CQE of the IOP. -/
theorem At.answered {p : Point} {e : Event} (h : At s p (sqe :: l) c) {a t : Int}
    (he : e = .waitCqe 0 ⟨0, r⟩ ∨ e = .peekCqe (some ⟨0, r⟩)) (hr : r = pairResult a t sqe.role)
    (hd : c.deadline ≠ none) : Answered 0 a t s e := by
  have htaken : taken s e = some (sqe, r) := by
    rcases he with rfl | rfl <;> simp [taken, Event.cqe, h.inflight]
  refine ⟨by rcases he with rfl | rfl <;> trivial, fun q hq _ => ?_⟩
  rw [htaken] at hq
  obtain rfl := Option.some.inj hq
  refine ⟨hr, fun c' hc' => ?_⟩
  obtain rfl := Option.some.inj (h.completion.symm.trans hc')
  exact hd

end Steps

/-- **The coroutine is resumed twice** when neither result is `-ECANCELED` and
the IOP is kept. -/
theorem resumed_twice (call : Call) {d : TimePoint} (hd : call.completion.deadline = some d)
    {a : Int} (ha : a ≠ -ECANCELED) :
    ∃ s, Run step (Answered 0 a (-ETIME)) init (finishesThenExpires call a) s
      ∧ .awaited 0 call.completion.op call.completion.deadline ∈ s.log 0
      ∧ Outlives (s.log 0) ∧ (∀ r, 0 < (s.log 0).countP (Obs.isExecuted r))
      ∧ (resumptions (s.log 0)).length = 2 := by
  have hnew : call.completion.iopExists = true ∧ call.completion.isOutstanding = false := by
    cases call <;> exact ⟨rfl, rfl⟩
  have hdl : call.completion.deadline ≠ none := by rw [hd]; simp
  obtain ⟨s₁, hrun, hat₁, hlog₁⟩ := at_awaited hd a (-ETIME)
  obtain ⟨o₁, ho₁⟩ := exists_deliver
    { call.completion with handle := some 2, iopCount := 2 } ha
  obtain ⟨s₂, hs₂, hat₂, hlog₂⟩ := hat₁.deliver (Or.inl ⟨rfl, rfl⟩) rfl hnew.1 ho₁
  obtain ⟨s₃, hs₃, hat₃, hlog₃⟩ := hat₂.suspend rfl hnew.2
  obtain ⟨o₂, ho₂⟩ := exists_deliver
    { call.completion with handle := some 2, iopCount := 1, result := o₁ }
    (a := -ETIME) (by decide)
  obtain ⟨s₄, hs₄, -, hlog₄⟩ := hat₃.deliver (Or.inr ⟨rfl, rfl⟩) rfl hnew.1 ho₂
  have hsuspend : Answered 0 a (-ETIME) s₂ .suspend :=
    ⟨trivial, fun p hp => absurd hp (by simp [taken, Event.cqe])⟩
  have hlog : s₄.log 0 = [.resumed 0 o₂, .executed 0 .timer (-ETIME), .resumed 0 o₁,
      .executed 0 .op a, .awaited 0 call.completion.op (some d)] := by
    rw [hlog₄, hlog₃, hlog₂, hlog₁]
    rfl
  refine ⟨s₄, hrun.append (Run.cons (hat₁.answered (Or.inl rfl) rfl hdl) hs₂
    (Run.cons hsuspend hs₃
      (Run.single (hat₃.answered (Or.inr rfl) rfl hdl) hs₄))), ?_⟩
  rw [hlog, hd]
  refine ⟨by simp, by simp [Outlives, Obs.isDestroyed], fun r => ?_, rfl⟩
  cases r <;> exact Nat.succ_pos _

end UringWarden
