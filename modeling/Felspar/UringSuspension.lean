import Felspar.UringView

/-!
# What a step of the uring warden does to one completion

A step is on one completion, or on none: it creates the IOP, awaits or
destroys it, takes one of its CQEs, ends the `execute` that has resumed its
coroutine, or destructs the warden with the completion outstanding
(`Subject`). Every other step leaves all that the state holds of it
(`view_of_step`).

So the coroutine that awaits an IOP without a deadline, and that nobody else
awaits or destroys, waits for one thing only: that the CQE of its operation is
taken. It is resumed there and then, with what `deliver` makes of the result
(`suspended_of_step`). That is so in every run, whatever else is going on in
the warden.
-/

namespace UringWarden

/-! ## The completion a step is on -/

/-- The SQE whose CQE an event brings, and its result. -/
def taken (s : State) (e : Event) : Option (Sqe × Int) :=
  e.cqe.bind (fun cqe => s.inflight[cqe.index]?.map (fun sqe => (sqe, cqe.res)))

theorem taken_of_take {s : State} {e : Event} {cqe : Cqe} {sqe : Sqe} (he : e.cqe = some cqe)
    (hq : s.inflight[cqe.index]? = some sqe) : taken s e = some (sqe, cqe.res) := by
  rw [taken, he, Option.bind_some, hq]
  rfl

/-- **The step is on the completion.** -/
def Subject (s : State) (i : DeliveryId) : Event → Prop
  | .create _ => i = s.next
  | .await id _ _ _ => id = i
  | .destroy id => id = i
  | .suspend => ∃ f fs, s.frames = f :: fs ∧ f.point = .delivering i
  | .close => i ∈ s.outstanding
  | e => ∃ p ∈ taken s e, p.1.userData = some i

/-- **What a step does when it is on the completion**: each case with what it
finds. -/
inductive SteppedOn (s : State) (i : DeliveryId) : Event → State → Prop
  | create (hid : i = s.next) (call : Call) : SteppedOn s i (.create call) (createIop s call)
  | await {c : Completion} (hi : s.iops i = true) (hc : s.completions i = some c) (h : Handle)
      (now : TimePoint) (sqes : ℕ) :
      SteppedOn s i (.await i h now sqes) (awaitSuspend s i c h now sqes)
  | awaitGone (hi : s.iops i = true) (hc : s.completions i = none) (h : Handle)
      (now : TimePoint) (sqes : ℕ) :
      SteppedOn s i (.await i h now sqes) (s.fail (.useAfterDelete i))
  | destroy (hi : s.iops i = true) : SteppedOn s i (.destroy i) (iopDestructed s i)
  | delivered {f : Frame} {fs : List Frame} (hf : s.frames = f :: fs)
      (hp : f.point = .delivering i) : SteppedOn s i .suspend (executeEnd (s.goto .peekCqe) i)
  | close (hf : s.frames = []) (hid : i ∈ s.outstanding) : SteppedOn s i .close
      { deleteOutstanding s s.outstanding with outstanding := [], closed := true }
  | take {f : Frame} {fs : List Frame} (hf : s.frames = f :: fs)
      (hp : ∀ j, f.point.holds j = false) {e : Event} {cqe : Cqe} {sqe : Sqe}
      (he : e.cqe = some cqe) (hq : s.inflight[cqe.index]? = some sqe)
      (hu : sqe.userData = some i) :
      SteppedOn s i e (execute (s.cqeSeen cqe.index) sqe cqe.res)

section Subject

variable {s s' : State} {i : DeliveryId} {e : Event}

/-- A loop that goes on from a point which delivers nothing. -/
theorem Point.afterSuspend_holds {p q : Point} (h : p.afterSuspend = some q) :
    p.holds i = false ∧ q.holds i = false := by
  cases p <;> cases h <;> exact ⟨rfl, rfl⟩

theorem steppedOn_of_step (hs : step s e = some s') (hid : Subject s i e) :
    SteppedOn s i e s' := by
  have hno : ∀ {e : Event}, e.cqe = none → ¬ ∃ p ∈ taken s e, p.1.userData = some i := by
    rintro e he ⟨p, hp, -⟩
    rw [taken, he] at hp
    exact absurd hp (by simp)
  cases (stepped_of_step hs).2.2 with
  | create call => exact .create hid call
  | @await id c hi hc a now sqes =>
    obtain rfl : id = i := hid
    exact .await hi hc a now sqes
  | @awaitGone id hi hc a now sqes =>
    obtain rfl : id = i := hid
    exact .awaitGone hi hc a now sqes
  | @destroy id hi =>
    obtain rfl : id = i := hid
    exact .destroy hi
  | suspend hf hp =>
    obtain ⟨f, fs, hf', hp'⟩ := hid
    obtain ⟨rfl, -⟩ := List.cons.inj (hf.symm.trans hf')
    exact absurd hp (by rw [hp']; simp [Point.afterSuspend])
  | @delivered g gs hf id hp =>
    obtain ⟨f, fs, hf', hp'⟩ := hid
    obtain ⟨rfl, -⟩ := List.cons.inj (hf.symm.trans hf')
    obtain rfl : id = i := Point.delivering.inj (hp.symm.trans hp')
    exact .delivered hf hp
  | close hf => exact .close hf hid
  | @take f fs hf hp e cqe sqe he hq =>
    have hidle : ∀ j, f.point.holds j = false := by
      intro j
      rcases hp with hp | hp <;> rw [hp] <;> rfl
    refine .take hf hidle he hq ?_
    obtain ⟨p, hp, hu⟩ : ∃ p ∈ taken s e, p.1.userData = some i := by
      cases e <;> first | exact hid | exact absurd he (by simp [Event.cqe])
    obtain rfl : (sqe, cqe.res) = p := Option.some.inj ((taken_of_take he hq).symm.trans hp)
    exact hu
  | waitFails hf hp hret hne cqe => exact absurd hid (hno (if_pos hret))
  | _ => exact absurd hid (hno rfl)

/-- Taking a CQE of the completion is a step that is on it. -/
theorem subject_of_taken {p : Sqe × Int} (hp : p ∈ taken s e) (hu : p.1.userData = some i) :
    Subject s i e := by
  cases e with
  | waitCqe ret cqe => exact ⟨p, hp, hu⟩
  | peekCqe cqe => exact ⟨p, hp, hu⟩
  | _ => exact absurd hp (by simp [taken, Event.cqe])

/-- The destructor of the warden leaves what is not outstanding. -/
theorem view_deleteOutstanding (l : List DeliveryId) (s : State) (hi : i ∉ l) :
    (deleteOutstanding s l).view i = s.view i := by
  induction l generalizing s with
  | nil => rfl
  | cons id l ih =>
    obtain ⟨hne, hl⟩ := not_or.mp (mt List.mem_cons.mpr hi)
    unfold deleteOutstanding
    split
    · exact view_fail s i _
    · rw [ih _ hl, view_delete, if_neg hne]

/-- **A step leaves every completion that it is not on.** -/
theorem view_of_step (hs : step s e = some s') (hid : ¬ Subject s i e) :
    s'.view i = s.view i := by
  cases (stepped_of_step hs).2.2 with
  | create call =>
    have hne : i ≠ s.next := hid
    rw [view_createIop, if_neg hne]
  | await hi hc a now sqes => exact view_awaitSuspend_of_ne s _ i _ a now sqes (Ne.symm hid)
  | awaitGone hi hc a now sqes => exact view_fail s i _
  | destroy hi => exact view_iopDestructed_of_ne s _ i (Ne.symm hid)
  | asyncResume handles sqeLeft taken => exact view_doAsyncResume s i handles sqeLeft taken
  | runUntil coro => exact view_enter i .coroResume _ rfl
  | runBatch taken =>
    rw [← view_submit s i taken]
    exact view_enter i .peekCqe none rfl
  | suspend hf hp =>
    obtain ⟨hleft, hreached⟩ := Point.afterSuspend_holds hp
    exact view_goto_idle i _ hf (hleft.trans hreached.symm)
  | @delivered f fs hf id hp =>
    have hne : id ≠ i := fun h => hid ⟨f, fs, hf, h ▸ hp⟩
    rw [view_executeEnd_of_ne _ _ _ (Ne.symm hne)]
    exact view_goto_idle i .peekCqe hf (by rw [hp]; simp [Point.holds, hne])
  | close hf =>
    show ({ (deleteOutstanding s s.outstanding).view i with listed := 0 } : View) = s.view i
    rw [view_deleteOutstanding s.outstanding s hid]
    exact View.ext rfl rfl rfl rfl rfl (List.count_eq_zero.mpr hid).symm rfl
  | done hf hp taken => exact view_leave i hf (by rw [hp]; rfl)
  | submit hf hp taken =>
    rw [← view_submit s i taken]
    exact view_goto_idle (s := s.submit taken) i .waitCqe hf (by rw [hp]; rfl)
  | interrupted hf hp cqe => exact view_goto_idle i .condition hf (by rw [hp]; rfl)
  | waitFails hf hp hret hne cqe => exact view_leave i hf (by rw [hp]; rfl)
  | @take f fs hf hp e cqe sqe he hq =>
    refine view_execute_of_ne hf ?_ hq
      (fun hu => hid (subject_of_taken (taken_of_take he hq) hu)) cqe.res
    rcases hp with hp | hp <;> rw [hp] <;> rfl
  | peekNone hf hp =>
    exact view_goto_idle (s := { s with resumer := s.resumer.swap }) i _ hf (by rw [hp]; rfl)
  | @resumeNext f fs hf rest hp =>
    have hresumed := resumedAllNext s f rest
    generalize resumeAllNext s f rest = s₁ at hresumed ⊢
    cases hresumed with
    | again =>
      exact view_goto_idle (s := { s with resumer := s.resumer.clearResuming }) i .condition hf
        (by rw [hp]; rfl)
    | leaves =>
      exact view_leave (s := { s with resumer := s.resumer.clearResuming }) i hf (by rw [hp]; rfl)
    | resumes a rest => exact view_goto_idle i (.resumed rest) hf (by rw [hp]; rfl)

end Subject

/-! ## Completions that have not been created -/

/-- What there is to a number that has not been used. -/
def View.blank : View where
  completion := none
  iop := false
  stage := .created
  owed := fun _ => 0
  held := 0
  listed := 0
  log := []

/-- **The numbers that have not been used** have nothing to them. -/
def Unused (s : State) : Prop := ∀ i, s.next ≤ i → s.view i = .blank

section Unused

variable {s s' : State} {i id : DeliveryId} {c : Completion} {e : Event}

theorem unused_init : Unused init := fun _ _ => View.ext rfl rfl rfl rfl rfl rfl rfl

/-- An IOP that exists has been created. -/
theorem Unused.lt_next_of_iop (h : Unused s) (hi : s.iops i = true) : i < s.next := by
  by_contra hlt
  have hiop : s.iops i = false := congrArg View.iop (h i (not_lt.mp hlt))
  exact absurd (hi.symm.trans hiop) (by simp)

/-- A completion that has something to it has been created. -/
theorem Unused.lt_next (h : Unused s) (hc : s.completions i = some c) : i < s.next := by
  by_contra hlt
  have hnone : s.completions i = none := congrArg View.completion (h i (not_lt.mp hlt))
  exact absurd (hc.symm.trans hnone) (by simp)

/-- What is being delivered has been created. -/
theorem Unused.not_delivering (h : Unused s) (hi : s.next ≤ i) {f : Frame} {fs : List Frame}
    (hf : s.frames = f :: fs) : f.point ≠ .delivering i := by
  intro hp
  have hheld := held_eq i hf
  rw [h i hi, hp] at hheld
  simp [View.blank, Point.holds] at hheld

theorem next_goto (s : State) (p : Point) : (s.goto p).next = s.next := by
  rw [goto_eq]

theorem next_executeEnd (s : State) (id : DeliveryId) : (executeEnd s id).next = s.next := by
  rcases executeEnd_eq s id with he | ⟨l, he | ⟨c, he⟩⟩ <;> rw [he] <;> rfl

theorem next_iopDestructed (s : State) (id : DeliveryId) :
    (iopDestructed s id).next = s.next := by
  unfold iopDestructed
  dsimp only
  split
  · rfl
  · split <;> rfl

theorem next_execute (s : State) (sqe : Sqe) (result : Int) :
    (execute s sqe result).next = s.next := by
  have hexec := executed s sqe result
  generalize execute s sqe result = t at hexec ⊢
  cases hexec with
  | nop => exact next_goto s _
  | gone => exact next_goto (s.observe _) _
  | ignored => rw [next_executeEnd, next_goto]; rfl
  | delivered => rw [next_goto]; rfl

theorem next_deleteOutstanding (l : List DeliveryId) (s : State) :
    (deleteOutstanding s l).next = s.next := by
  induction l generalizing s with
  | nil => rfl
  | cons id l ih =>
    unfold deleteOutstanding
    split
    · rfl
    · exact ih _

/-- Numbers are given out when an IOP is created, and stay given out. -/
theorem next_le_of_step (hs : step s e = some s') : s.next ≤ s'.next := by
  cases (stepped_of_step hs).2.2 with
  | create call => exact Nat.le_succ s.next
  | @await id c hi hc a now sqes =>
    rcases awaitSuspend_cases s id c a now sqes _ rfl with
      he | ⟨-, he⟩ | ⟨t, -, he⟩ | ⟨t, -, he⟩ <;> exact le_of_eq (by rw [he]; rfl)
  | awaitGone => exact le_refl _
  | destroy => exact le_of_eq (next_iopDestructed s _).symm
  | asyncResume handles sqeLeft taken =>
    obtain ⟨queue, inflight, he⟩ := doAsyncResume_eq s handles sqeLeft taken
    rw [he]
  | runUntil | runBatch | done | waitFails => exact le_refl _
  | suspend => exact le_of_eq (next_goto s _).symm
  | delivered => rw [next_executeEnd, next_goto]
  | close => exact le_of_eq (next_deleteOutstanding s.outstanding s).symm
  | submit => exact le_of_eq (next_goto (s.submit _) _).symm
  | interrupted => exact le_of_eq (next_goto s _).symm
  | take => exact le_of_eq (next_execute (s.cqeSeen _) _ _).symm
  | peekNone =>
    exact le_of_eq (next_goto { s with resumer := s.resumer.swap } _).symm
  | @resumeNext f _ hf rest hp =>
    have hresumed := resumedAllNext s f rest
    generalize resumeAllNext s f rest = s₁ at hresumed ⊢
    cases hresumed with
    | again => exact le_of_eq (next_goto { s with resumer := s.resumer.clearResuming } _).symm
    | leaves => exact le_refl _
    | resumes => exact le_of_eq (next_goto s _).symm

/-- **A step uses no number but the next one.** -/
theorem unused_of_step (h : Unused s) (hs : step s e = some s') : Unused s' := by
  intro i hnext
  have hlt : s.next ≤ i := (next_le_of_step hs).trans hnext
  have hblank := h i hlt
  have hiop : s.iops i ≠ true := fun hiop => absurd (h.lt_next_of_iop hiop) (not_lt.mpr hlt)
  by_cases hid : Subject s i e
  swap
  · exact (view_of_step hs hid).trans hblank
  -- a step that is on the completion has to find it
  cases steppedOn_of_step hs hid with
  | create hid call =>
    rw [hid] at hnext
    exact absurd hnext (Nat.not_succ_le_self s.next)
  | await hi => exact absurd hi hiop
  | awaitGone hi => exact absurd hi hiop
  | destroy hi => exact absurd hi hiop
  | delivered hf hp => exact absurd hp (h.not_delivering hlt hf)
  | close hf hid =>
    have hlisted : s.outstanding.count i = 0 := congrArg View.listed hblank
    exact absurd hid (List.count_eq_zero.mp hlisted)
  | @take f fs hf hp e cqe sqe he hq hu =>
    -- its SQE would be owed a CQE
    have howed : (s.view i).owed sqe.role = 0 := by
      rw [hblank]
      rfl
    rw [view_taken s i hq] at howed
    simp [Sqe.isOf, hu] at howed

/-- The IOP of a coroutine that has come to an end is destructed. -/
theorem unused_iopDestructed (h : Unused s) (hid : id < s.next) : Unused (iopDestructed s id) := by
  intro i hi
  rw [next_iopDestructed] at hi
  rw [view_iopDestructed_of_ne s id i (ne_of_gt (lt_of_lt_of_le hid hi))]
  exact h i hi

end Unused

/-! ## An IOP without a deadline -/

/-- **A coroutine is suspended on the IOP**, which has no deadline: its SQE has
been queued, and nothing has been delivered to it yet. -/
structure Suspended (s : State) (i : DeliveryId) (op : Op) : Prop where
  completion : ∃ c, s.completions i = some c ∧ c.op = op ∧ c.deadline = none
    ∧ c.iopExists = true
  stage : s.stage i = .awaited
  held : (s.view i).held = 0
  listed : (s.view i).listed = 0

/-- **Its coroutine is resumed** with this outcome, in the `deliver` of the
innermost loop. -/
structure Resumed (s : State) (i : DeliveryId) (outcome : Outcome) : Prop where
  completion : ∃ c, s.completions i = some c ∧ c.result = outcome
  stage : s.stage i = .awaited
  frames : ∃ f fs, s.frames = f :: fs ∧ f.point = .delivering i

section Suspended

variable {s s' : State} {i : DeliveryId} {op : Op} {c : Completion} {e : Event}

theorem Suspended.of_view (h : Suspended s i op) (hview : s'.view i = s.view i) :
    Suspended s' i op := by
  obtain ⟨c, hc, hself⟩ := h.completion
  exact ⟨⟨c, (congrArg View.completion hview).trans hc, hself⟩,
    (congrArg View.stage hview).trans h.stage, (congrArg View.held hview).trans h.held,
    (congrArg View.listed hview).trans h.listed⟩

/-- **Every result is delivered** where there is no deadline that could make
`deliver` ignore it. -/
theorem exists_deliver_of_untimed (hd : c.deadline = none) (result : Int) :
    ∃ outcome, c.deliver result = some outcome := by
  have hvoid : ∀ n : Int, ∃ outcome, c.deliverVoid n = some outcome := by
    intro n
    unfold Completion.deliverVoid
    rw [hd]
    split_ifs with h₁ h₂ h₃
    · exact ⟨_, rfl⟩
    · exact absurd h₂.1 (by simp)
    · exact ⟨_, rfl⟩
    · exact ⟨_, rfl⟩
  unfold Completion.deliver
  cases c.op.kind with
  | value =>
    show ∃ outcome, c.deliverValue result = some outcome
    unfold Completion.deliverValue
    rw [hd]
    split_ifs with h₁ h₂
    · exact absurd h₂.1 (by simp)
    · exact ⟨_, rfl⟩
    · exact ⟨_, rfl⟩
  | void => exact hvoid result
  | sleep => exact hvoid _

/-- Without a deadline one SQE is queued, if there is one. -/
theorem awaitSuspend_untimed (s : State) (i : DeliveryId) (hd : c.deadline = none) (a : Handle)
    (now : TimePoint) (sqes : ℕ) : awaitSuspend s i c a now sqes
      = if sqes = 0 then (s.setCompletion i { c with handle := some a }).setStage i .refused
        else (((s.setCompletion i { c with handle := some a }).push
          { prep := .op c.op, userData := some i }).setStage i .awaited).observe
            (.awaited i c.op none) := by
  unfold awaitSuspend setupTimeout
  by_cases h : sqes = 0
  · rw [if_pos h, if_pos h]
  · rw [if_neg h, if_neg h]
    simp [hd, State.setStage]

/-- **Awaiting an IOP that has just been created** suspends the coroutine on
it, or throws if there is no SQE. -/
theorem suspended_of_await {s₁ : State} (h : Unused s) (call : Call)
    (hd : call.completion.deadline = none) (h₁ : step s (.create call) = some s₁) {a : Handle}
    {now : TimePoint} {sqes : ℕ} (h₂ : step s₁ (.await s.next a now sqes) = some s') :
    if sqes = 0 then s'.stage s.next = .refused else Suspended s' s.next call.completion.op := by
  have hs₁ : s₁ = createIop s call := by
    cases (stepped_of_step h₁).2.2 with
    | create => rfl
    | take hf hp he => exact absurd he (by simp [Event.cqe])
  have hview : s₁.view s.next
      = { View.blank with completion := some call.completion, iop := true } := by
    rw [hs₁, view_createIop, if_pos rfl, h s.next (le_refl _)]
  have hcreated : s₁.completions s.next = some call.completion := congrArg View.completion hview
  have hs' : s' = awaitSuspend s₁ s.next call.completion a now sqes := by
    cases (stepped_of_step h₂).2.2 with
    | await hi hc =>
      obtain rfl := Option.some.inj (hc.symm.trans hcreated)
      rfl
    | awaitGone hi hc => exact absurd (hc.symm.trans hcreated) (by simp)
    | take hf hp he => exact absurd he (by simp [Event.cqe])
  rw [hs', awaitSuspend_untimed s₁ s.next hd]
  by_cases hz : sqes = 0
  · rw [if_pos hz, if_pos hz]
    exact if_pos rfl
  · rw [if_neg hz, if_neg hz]
    -- its SQE is owed a CQE, and there is nothing else to it
    have hqueued := view_push_self (s₁.setCompletion s.next
      { call.completion with handle := some a }) s.next
      { prep := .op call.completion.op, userData := some s.next } rfl
    rw [view_setCompletion, if_pos rfl, hview] at hqueued
    have hex : call.completion.iopExists = true := by cases call <;> rfl
    refine ⟨⟨_, if_pos rfl, rfl, hd, hex⟩, if_pos rfl, ?_, ?_⟩
    · exact congrArg View.held hqueued
    · exact congrArg View.listed hqueued

/-- **A suspended IOP stays as it is until a CQE of it is taken**, when nobody
awaits it again or destroys it; its coroutine is then resumed with what
`deliver` makes of the result. -/
theorem suspended_of_step (h : Suspended s i op) (hnext : i < s.next)
    (hawait : ∀ a now sqes, e ≠ .await i a now sqes) (hdestroy : e ≠ .destroy i)
    (hs : step s e = some s') :
    ((∀ p ∈ taken s e, p.1.userData ≠ some i) ∧ Suspended s' i op)
      ∨ ∃ p ∈ taken s e, p.1.userData = some i ∧ ∃ (c : Completion) (outcome : Outcome),
        c.op = op ∧ c.deadline = none ∧ c.deliver p.2 = some outcome
        ∧ Resumed s' i outcome := by
  obtain ⟨c, hc, hop, hd, hex⟩ := h.completion
  by_cases hid : Subject s i e
  swap
  · exact Or.inl ⟨fun p hp hu => hid (subject_of_taken hp hu), h.of_view (view_of_step hs hid)⟩
  cases steppedOn_of_step hs hid with
  | create hid call => exact absurd hid (ne_of_lt hnext)
  | await => exact absurd rfl (hawait _ _ _)
  | awaitGone => exact absurd rfl (hawait _ _ _)
  | destroy => exact absurd rfl hdestroy
  | delivered hf hp =>
    have hheld := held_eq i hf
    rw [h.held, hp] at hheld
    simp [Point.holds] at hheld
  | close hf hid => exact absurd hid (List.count_eq_zero.mp h.listed)
  | @take f fs hf hp e cqe sqe he hq hu =>
    refine Or.inr ⟨(sqe, cqe.res), taken_of_take he hq, hu, ?_⟩
    obtain ⟨outcome, ho⟩ := exists_deliver_of_untimed hd cqe.res
    refine ⟨c, outcome, hop, hd, ho, ?_⟩
    rw [(Executed.delivered (s := s.cqeSeen cqe.index) hu hc hex ho).eq, goto_eq]
    refine ⟨⟨{ c with result := outcome }, if_pos rfl, rfl⟩, h.stage, ?_⟩
    refine ⟨{ f with point := .delivering i }, fs, ?_, rfl⟩
    show gotoFrames _ s.frames = _
    rw [hf]
    rfl

end Suspended

end UringWarden
