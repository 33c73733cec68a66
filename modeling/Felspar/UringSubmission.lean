import Felspar.UringLedger
import Felspar.WakeUp

/-!
# Submission when the ring is full

`next_sqe` throws when the ring has no SQE left. Two things the uring warden
does need it after they have begun: an IOP with a deadline has filled in the
SQE of its operation when it asks for that of the linked timeout, and
`do_async_resume` has queued its handles when it asks for the NOP that wakes
the loop. In neither is what has been done undone.

Awaiting an IOP is therefore atomic unless it has a deadline and exactly one
SQE is left (`awaitAtomic_iff`), and `do_async_resume` unless it finds the
queue empty and no SQE, or handles in the queue that nothing will wake the
loop for (`asyncResumeAtomic_iff`). Where handles without a wake-up come from
is the subject of the last section: an earlier call that threw, a loop entered
with handles in the queue whose NOP an outer loop has taken, and a swap made
while an outer loop is in its `resume_all`.
-/

namespace UringWarden

/-! ## The SQEs that have not come back -/

/-- The SQEs that have been filled in and whose CQE has not been taken. -/
def State.sqes (s : State) : List Sqe := s.queue ++ s.inflight

section Sqes

variable (s : State) (id : DeliveryId)

@[simp] theorem sqes_goto (p : Point) : (s.goto p).sqes = s.sqes := by
  rw [goto_eq]
  rfl

theorem mem_sqes_push (sqe sqe' : Sqe) :
    sqe' ∈ (s.push sqe).sqes ↔ sqe' ∈ s.sqes ∨ sqe' = sqe := by
  simp only [State.sqes, State.push, List.mem_append, List.mem_singleton]
  tauto

/-- Submitting moves SQEs from one list to the other. -/
theorem mem_sqes_submit (taken : ℕ) (sqe : Sqe) : sqe ∈ (s.submit taken).sqes ↔ sqe ∈ s.sqes := by
  have hqueue : sqe ∈ s.queue ↔ sqe ∈ s.queue.take taken ∨ sqe ∈ s.queue.drop taken := by
    rw [← List.mem_append, List.take_append_drop]
  simp only [State.sqes, State.submit, List.mem_append, hqueue]
  tauto

@[simp] theorem sqes_executeEnd : (executeEnd s id).sqes = s.sqes := by
  rcases executeEnd_eq s id with he | ⟨l, he | ⟨c, he⟩⟩ <;> rw [he] <;> rfl

@[simp] theorem sqes_iopDestructed : (iopDestructed s id).sqes = s.sqes := by
  unfold iopDestructed
  dsimp only
  split
  · rfl
  · split <;> rfl

@[simp] theorem sqes_deleteOutstanding (l : List DeliveryId) :
    (deleteOutstanding s l).sqes = s.sqes := by
  induction l generalizing s with
  | nil => rfl
  | cons id l ih =>
    unfold deleteOutstanding
    split
    · rfl
    · exact (ih (s.delete id)).trans rfl

@[simp] theorem sqes_execute (sqe : Sqe) (result : Int) :
    (execute s sqe result).sqes = s.sqes := by
  have hexec := executed s sqe result
  generalize execute s sqe result = t at hexec ⊢
  cases hexec with
  | nop hu => exact sqes_goto s _
  | gone hu hc => exact sqes_goto (s.observe _) _
  | ignored hu hc hd =>
    rw [sqes_executeEnd, sqes_goto]
    rfl
  | delivered hu hc hex hd =>
    rw [sqes_goto]
    rfl

end Sqes

/-- The event awaits the IOP of the completion. -/
def Event.awaits (e : Event) (id : DeliveryId) : Bool :=
  match e with
  | .await i _ _ _ => i = id
  | _ => false

/-- The SQEs a step can add are those of an IOP that is awaited in it, and the
NOP of a wake-up. -/
def Event.adds (e : Event) (sqe : Sqe) : Prop :=
  sqe.userData = none ∨ ∃ id, e.awaits id = true ∧ sqe.userData = some id

/-- What awaiting an IOP adds are SQEs of its own. -/
theorem mem_sqes_awaitSuspend (s : State) (id : DeliveryId) (c : Completion) (h : Handle)
    (now : TimePoint) (sqes : ℕ) :
    ∃ l : List Sqe, (∀ sqe ∈ l, sqe.userData = some id) ∧
      ∀ sqe, sqe ∈ (awaitSuspend s id c h now sqes).sqes ↔ sqe ∈ s.sqes ∨ sqe ∈ l := by
  rcases awaitSuspend_cases s id c h now sqes _ rfl with
    he | ⟨-, he⟩ | ⟨t, -, he⟩ | ⟨t, -, he⟩
  · exact ⟨[], by simp, fun sqe => by rw [he]; simp [State.sqes, State.setStage,
      State.setCompletion]⟩
  · refine ⟨[{ prep := .op c.op, userData := some id }], by simp, fun sqe => ?_⟩
    rw [he, List.mem_singleton]
    exact mem_sqes_push _ _ sqe
  · refine ⟨[{ prep := .op c.op, userData := some id, link := true },
      { prep := .linkTimeout (remaining t now), userData := some id }], by simp, fun sqe => ?_⟩
    rw [he, List.mem_cons, List.mem_singleton, ← or_assoc]
    refine (mem_sqes_push _ _ sqe).trans (or_congr_left ?_)
    exact mem_sqes_push _ _ sqe
  · refine ⟨[{ prep := .op c.op, userData := some id, link := true }], by simp, fun sqe => ?_⟩
    rw [he, List.mem_singleton]
    exact mem_sqes_push _ _ sqe

/-- What `do_async_resume` adds is a NOP. -/
theorem mem_sqes_doAsyncResume (s : State) (handles : List (Option Handle)) (sqeLeft : Bool)
    (taken : ℕ) :
    ∃ l : List Sqe, (∀ sqe ∈ l, sqe.userData = none) ∧
      ∀ sqe, sqe ∈ (doAsyncResume s handles sqeLeft taken).sqes ↔ sqe ∈ s.sqes ∨ sqe ∈ l := by
  unfold doAsyncResume wakeEventLoop
  dsimp only
  split_ifs
  · refine ⟨[{ prep := .nop, userData := none }], by simp, fun sqe => ?_⟩
    rw [mem_sqes_submit, List.mem_singleton]
    exact mem_sqes_push _ _ sqe
  · exact ⟨[], by simp, fun sqe => by simp [State.sqes]⟩
  · exact ⟨[], by simp, fun sqe => by simp [State.sqes]⟩

@[simp] theorem sqes_resumeAllNext (s : State) (f : Frame) (rest : List Handle) :
    (resumeAllNext s f rest).sqes = s.sqes := by
  have hresumed := resumedAllNext s f rest
  generalize resumeAllNext s f rest = s₁ at hresumed ⊢
  cases hresumed with
  | again => exact sqes_goto _ _
  | leaves => rfl
  | resumes => exact sqes_goto s _

section Steps

variable {s s' : State} {e : Event} {sqe : Sqe}

/-- **What a step does to the SQEs**: it adds what such a step can add, or
takes a CQE and adds nothing. -/
theorem sqes_of_step (hs : step s e = some s') :
    (∃ l : List Sqe, (∀ sqe ∈ l, e.adds sqe) ∧ ∀ sqe, sqe ∈ s'.sqes ↔ sqe ∈ s.sqes ∨ sqe ∈ l)
      ∨ e.cqe ≠ none ∧ ∀ sqe ∈ s'.sqes, sqe ∈ s.sqes := by
  have hkept : (∀ sqe, sqe ∈ s'.sqes ↔ sqe ∈ s.sqes) → ∃ l : List Sqe, (∀ sqe ∈ l, e.adds sqe)
      ∧ ∀ sqe, sqe ∈ s'.sqes ↔ sqe ∈ s.sqes ∨ sqe ∈ l :=
    fun h => ⟨[], by simp, fun sqe => by rw [h]; simp⟩
  cases (stepped_of_step hs).2.2 with
  | @await id c hi hc h now sqes =>
    obtain ⟨l, hself, hl⟩ := mem_sqes_awaitSuspend s id c h now sqes
    exact Or.inl ⟨l, fun sqe hm => Or.inr ⟨id, decide_eq_true rfl, hself sqe hm⟩, hl⟩
  | asyncResume handles sqeLeft taken =>
    obtain ⟨l, hself, hl⟩ := mem_sqes_doAsyncResume s handles sqeLeft taken
    exact Or.inl ⟨l, fun sqe hm => Or.inl (hself sqe hm), hl⟩
  | take hf hp he hq =>
    refine Or.inr ⟨by rw [he]; simp, fun sqe hm => ?_⟩
    rw [sqes_execute] at hm
    rcases List.mem_append.mp hm with hm | hm
    · exact List.mem_append_left _ hm
    · exact List.mem_append_right _ (List.mem_of_mem_eraseIdx hm)
  | create call => exact Or.inl (hkept fun _ => Iff.rfl)
  | awaitGone hi hc h now sqes => exact Or.inl (hkept fun _ => Iff.rfl)
  | destroy hi => exact Or.inl (hkept fun _ => by rw [sqes_iopDestructed])
  | runUntil coro => exact Or.inl (hkept fun _ => Iff.rfl)
  | runBatch taken => exact Or.inl (hkept (mem_sqes_submit s taken))
  | suspend hf hp => exact Or.inl (hkept fun _ => by rw [sqes_goto])
  | delivered hf hp => exact Or.inl (hkept fun _ => by rw [sqes_executeEnd, sqes_goto])
  | close hf =>
    exact Or.inl (hkept fun sqe => by
      rw [← sqes_deleteOutstanding s s.outstanding]
      exact Iff.rfl)
  | done hf hp taken => exact Or.inl (hkept fun _ => Iff.rfl)
  | submit hf hp taken =>
    exact Or.inl (hkept fun sqe => by rw [sqes_goto, mem_sqes_submit])
  | interrupted hf hp cqe => exact Or.inl (hkept fun _ => by rw [sqes_goto])
  | waitFails hf hp hret hne cqe => exact Or.inl (hkept fun _ => Iff.rfl)
  | peekNone hf hp => exact Or.inl (hkept fun _ => by rw [beginResumeAll, sqes_goto]; exact Iff.rfl)
  | resumeNext hf hp => exact Or.inl (hkept fun _ => by rw [sqes_resumeAllNext])

/-- **Where an SQE comes from**: it was there before the step, or the step can
add it. -/
theorem mem_sqes_of_step (hs : step s e = some s') (hm : sqe ∈ s'.sqes) :
    sqe ∈ s.sqes ∨ e.adds sqe := by
  rcases sqes_of_step hs with ⟨l, hl, hmem⟩ | ⟨-, hmem⟩
  · exact ((hmem sqe).mp hm).imp_right (hl sqe)
  · exact Or.inl (hmem sqe hm)

/-- **An SQE stays** until a CQE is taken. -/
theorem mem_sqes_step (hs : step s e = some s') (he : e.cqe = none) (hm : sqe ∈ s.sqes) :
    sqe ∈ s'.sqes := by
  rcases sqes_of_step hs with ⟨l, -, hmem⟩ | ⟨hne, -⟩
  · exact (hmem sqe).mpr (Or.inl hm)
  · exact absurd he hne

end Steps

/-! ## Awaiting an IOP -/

/-- Awaiting the IOP threw: one of its calls of `next_sqe` did. -/
def Stage.threw : Stage → Bool
  | .refused | .halfQueued => true
  | .created | .awaited => false

/-- The steps in which an IOP is not awaited. -/
def Unawaited (id : DeliveryId) (_ : State) (e : Event) : Prop := e.awaits id = false

instance (id : DeliveryId) : DecidableRel (Unawaited id) := fun _ e =>
  inferInstanceAs (Decidable (e.awaits id = false))

/-- The IOP has a deadline, and `next_sqe` finds one SQE and not two. -/
def HalfFits (s : State) (id : DeliveryId) (sqes : ℕ) : Prop :=
  ((s.completions id).bind Completion.deadline).isSome = true ∧ sqes = 1

/-- **Nothing comes of an await**: the submission queue holds what it held,
and as long as the IOP is not awaited again no SQE of it is queued or
submitted that was not before. -/
structure Refused (s : State) (id : DeliveryId) (s' : State) : Prop where
  queue : s'.queue = s.queue
  never : ∀ es s'', Run step (Unawaited id) s' es s'' →
    ∀ sqe ∈ s''.sqes, sqe.userData = some id → sqe ∈ s.sqes

/-- **Awaiting an IOP is atomic**: if it throws, nothing comes of it. -/
def AwaitAtomic (s : State) (id : DeliveryId) (s' : State) : Prop :=
  (s'.stage id).threw = true → Refused s id s'

section Await

variable {s s' : State} {id : DeliveryId} {c : Completion}

/-- **An IOP gets no SQE** in a run that does not await it. -/
theorem mem_sqes_of_run {es : List Event} (h : Run step (Unawaited id) s es s') {sqe : Sqe}
    (hu : sqe.userData = some id) (hm : sqe ∈ s'.sqes) : sqe ∈ s.sqes := by
  refine h.invariant (P := fun t => sqe ∈ t.sqes → sqe ∈ s.sqes) ?_ (fun h => h) hm
  intro t e t' ht hok hs hm'
  rcases mem_sqes_of_step hs hm' with hm' | hnone | ⟨i, hi, hsqe⟩
  · exact ht hm'
  · exact absurd (hu.symm.trans hnone) (by simp)
  · obtain rfl := Option.some.inj (hu.symm.trans hsqe)
    exact absurd (hi.symm.trans hok) (by simp)

/-- Where the queue is as it was, nothing comes of the await. -/
theorem Refused.of_queue (hqueue : s'.queue = s.queue) (hinflight : s'.inflight = s.inflight) :
    Refused s id s' where
  queue := hqueue
  never := fun es s'' hrun sqe hm hu => by
    have hm' := mem_sqes_of_run hrun hu hm
    rwa [State.sqes, hqueue, hinflight] at hm'

/-- **When awaiting throws**: there is no SQE, or there is one and a
deadline. -/
theorem threw_awaitSuspend (h : Handle) (now : TimePoint) (sqes : ℕ) :
    ((awaitSuspend s id c h now sqes).stage id).threw = true
      ↔ sqes = 0 ∨ c.deadline.isSome = true ∧ sqes = 1 := by
  unfold awaitSuspend setupTimeout
  by_cases h₀ : sqes = 0
  · simp [h₀, State.setStage, Stage.threw]
  · cases c.deadline with
    | none => simp [h₀, State.setStage, State.observe, Stage.threw]
    | some t =>
      by_cases h₂ : 2 ≤ sqes
      · simp [h₀, h₂, State.setStage, State.observe, Stage.threw, show sqes ≠ 1 by omega]
      · simp [State.setStage, Stage.threw, show sqes = 1 by omega]

/-- Without an SQE the queue is as it was. -/
theorem queue_awaitSuspend_zero (h : Handle) (now : TimePoint) :
    (awaitSuspend s id c h now 0).queue = s.queue := rfl

/-- With one SQE and a deadline, the SQE of the operation is left in the
queue. -/
theorem queue_awaitSuspend_one (hd : c.deadline.isSome = true) (h : Handle) (now : TimePoint) :
    (awaitSuspend s id c h now 1).queue
      = s.queue ++ [{ prep := .op c.op, userData := some id, link := true }] := by
  obtain ⟨t, ht⟩ := Option.isSome_iff_exists.mp hd
  simp [awaitSuspend, setupTimeout, ht, State.setStage, State.push, State.setCompletion]

/-- **When awaiting is atomic**: unless the IOP has a deadline and exactly one
SQE is left. -/
theorem awaitAtomic_iff {h : Handle} {now : TimePoint} {sqes : ℕ}
    (hs : step s (.await id h now sqes) = some s') :
    AwaitAtomic s id s' ↔ ¬ HalfFits s id sqes := by
  cases (stepped_of_step hs).2.2 with
  | take hf hp hcqe hq => exact absurd hcqe (by simp [Event.cqe])
  | awaitGone hi hc =>
    refine iff_of_true (fun _ => Refused.of_queue rfl rfl) (fun hhalf => ?_)
    rw [HalfFits, hc] at hhalf
    exact absurd hhalf.1 (by simp)
  | @await _ c hi hc =>
    have hhalf : HalfFits s id sqes ↔ c.deadline.isSome = true ∧ sqes = 1 := by
      rw [HalfFits, hc, Option.bind_some]
    rw [hhalf]
    constructor
    · rintro hatomic ⟨hd, rfl⟩
      have hqueue := (hatomic ((threw_awaitSuspend h now 1).mpr (Or.inr ⟨hd, rfl⟩))).queue
      rw [queue_awaitSuspend_one hd] at hqueue
      exact absurd hqueue (by simp)
    · intro hnot hthrew
      rcases (threw_awaitSuspend h now sqes).mp hthrew with rfl | hone
      · exact Refused.of_queue (queue_awaitSuspend_zero h now) rfl
      · exact absurd hone hnot

/-- A read with a deadline is awaited when the ring is full. -/
theorem awaitAtomic_iff_full :
    ∃ s s', Run step Orderly init [.create (.readSome 5 1 (some 7000000)), .runUntil 1] s
      ∧ step s (.await 0 2 0 0) = some s' ∧ (s'.stage 0).threw = true ∧ AwaitAtomic s 0 s' := by
  obtain ⟨s, hrun, htest⟩ := exists_run_of_exec step Orderly init
    [.create (.readSome 5 1 (some 7000000)), .runUntil 1]
    (fun s => (step s (.await 0 2 0 0)).any fun s' => (s'.stage 0).threw)
    (by decide)
  obtain ⟨s', hs, hthrew⟩ := (Option.any_eq_true _ _).mp htest
  exact ⟨s, s', hrun, hs, hthrew,
    (awaitAtomic_iff hs).mpr (fun hhalf => absurd hhalf.2 (by simp))⟩

/-- **Awaiting is not atomic.** A read with a deadline is awaited when one SQE
is left: its coroutine is told that there was none, and the read is submitted
in the next round of the loop. -/
theorem not_awaitAtomic :
    ∃ s s', Run step Orderly init [.create (.readSome 5 1 (some 7000000)), .runUntil 1] s
      ∧ step s (.await 0 2 0 1) = some s' ∧ (s'.stage 0).threw = true ∧ ¬ AwaitAtomic s 0 s'
      ∧ ∃ s'', Run step (Unawaited 0) s' [.suspend, .condition false 1] s''
        ∧ s''.inflight = [{ prep := .op (.readSome 5 1), userData := some 0, link := true }] := by
  refine ⟨_, _, run_of_exec rfl, rfl, rfl, fun h => ?_, _, run_of_exec rfl, rfl⟩
  exact absurd (h rfl).queue (by decide)

end Await

/-! ## Queueing handles -/

/-- `do_async_resume` throws: `wake_event_loop` is called, and finds no SQE for
its NOP. -/
def asyncResumeThrows (s : State) (handles : List (Option Handle)) (sqeLeft : Bool) : Bool :=
  (s.resumer.queue handles).2 && !s.resumer.hasRequests && !sqeLeft

/-- The NOP of a wake-up has been filled in, and its CQE has not been
taken. -/
def State.NopDue (s : State) : Prop := ∃ sqe ∈ s.sqes, sqe.prep = .nop ∧ sqe.userData = none

instance (s : State) : Decidable s.NopDue :=
  inferInstanceAs (Decidable (∃ sqe ∈ s.sqes, sqe.prep = .nop ∧ sqe.userData = none))

/-- **A wake-up is due**: there is a NOP that will end a wait, or the innermost
loop will swap the queue out before it waits. -/
def State.WakeUpDue (s : State) : Prop :=
  s.NopDue ∨ s.frames.head?.any (fun f => f.point.drained) = true

/-- **A call of `do_async_resume` is atomic**: it throws and the queue is as it
was, or all handles are queued and, if there are any, a wake-up is due. -/
structure AsyncResumeAtomic (s : State) (handles : List (Option Handle)) (sqeLeft : Bool)
    (s' : State) : Prop where
  thrown : asyncResumeThrows s handles sqeLeft = true → s'.resumer = s.resumer
  queued : asyncResumeThrows s handles sqeLeft = false →
    s'.resumer.queued = s.resumer.queued ++ handles.reduceOption
      ∧ (handles.reduceOption ≠ [] → s'.WakeUpDue)

/-- **The steps that leave no handle without a wake-up**: a call that finds the
queue empty finds an SQE, a loop that may wait is entered with a NOP for what
is in the queue, and no swap is made while an outer loop is in its
`resume_all`. -/
def Wakes (s : State) : Event → Prop
  | .asyncResume handles sqeLeft _ =>
    handles.reduceOption = [] ∨ s.resumer.queued ≠ [] ∨ sqeLeft = true
  | .runUntil _ => s.resumer.queued = [] ∨ s.NopDue
  | .peekCqe none => ∀ f ∈ s.frames.tail, f.point.resumes = false
  | _ => True

instance : DecidableRel Wakes := fun s e =>
  match e with
  | .asyncResume handles sqeLeft _ => inferInstanceAs (Decidable
    (handles.reduceOption = [] ∨ s.resumer.queued ≠ [] ∨ sqeLeft = true))
  | .runUntil _ => inferInstanceAs (Decidable (s.resumer.queued = [] ∨ s.NopDue))
  | .peekCqe none =>
    inferInstanceAs (Decidable (∀ f ∈ s.frames.tail, f.point.resumes = false))
  | .create _ | .await _ _ _ _ | .destroy _ | .runBatch _ | .suspend | .condition _ _
  | .waitCqe _ _ | .peekCqe (some _) | .resumeNext | .close => inferInstanceAs (Decidable True)

/-- **A queue that is not empty has a wake-up due**, and nothing is left of the
last swap, unless a loop is in it. -/
structure Woken (s : State) : Prop where
  due : s.resumer.queued ≠ [] → s.WakeUpDue
  resuming : (∀ f ∈ s.frames, f.point.resumes = false) → s.resumer.resuming = []

section AsyncResume

variable {s s' : State} {handles : List (Option Handle)} {sqeLeft : Bool} {taken : ℕ}

theorem asyncResumeThrows_iff : asyncResumeThrows s handles sqeLeft = true
    ↔ handles.reduceOption ≠ [] ∧ s.resumer.queued = [] ∧ sqeLeft = false := by
  unfold asyncResumeThrows AsyncResumption.hasRequests
  rw [AsyncResumption.queue_snd]
  cases handles.reduceOption <;> cases s.resumer.queued <;> cases sqeLeft <;> simp

@[simp] theorem resumer_doAsyncResume : (doAsyncResume s handles sqeLeft taken).resumer
    = { s.resumer with queued := s.resumer.queued ++ handles.reduceOption } := by
  obtain ⟨queue, inflight, he⟩ := doAsyncResume_eq s handles sqeLeft taken
  rw [he, AsyncResumption.queue_fst]

@[simp] theorem frames_doAsyncResume :
    (doAsyncResume s handles sqeLeft taken).frames = s.frames := by
  obtain ⟨queue, inflight, he⟩ := doAsyncResume_eq s handles sqeLeft taken
  rw [he]

/-- A NOP is filled in when the queue was empty, and left out otherwise. -/
theorem nopDue_doAsyncResume (hany : handles.reduceOption ≠ []) (hleft : sqeLeft = true) :
    s.resumer.queued = [] → (doAsyncResume s handles sqeLeft taken).NopDue := by
  intro hempty
  have hwake : ((s.resumer.queue handles).2 && !s.resumer.hasRequests) = true := by
    rw [AsyncResumption.queue_snd, AsyncResumption.hasRequests, hempty]
    simpa using hany
  unfold doAsyncResume wakeEventLoop
  dsimp only
  rw [if_pos hwake, if_pos hleft]
  exact ⟨{ prep := .nop, userData := none }, (mem_sqes_submit _ taken _).mpr
    ((mem_sqes_push _ _ _).mpr (Or.inr rfl)), rfl, rfl⟩

theorem sqes_doAsyncResume_of_ne (hne : s.resumer.queued ≠ []) :
    (doAsyncResume s handles sqeLeft taken).sqes = s.sqes := by
  have hwake : ((s.resumer.queue handles).2 && !s.resumer.hasRequests) = false := by
    rw [AsyncResumption.hasRequests]
    simp [hne]
  unfold doAsyncResume
  dsimp only
  rw [if_neg (by rw [hwake]; exact Bool.false_ne_true)]
  rfl

/-- Where the queue was not empty nothing is woken. -/
theorem wakeUpDue_doAsyncResume (hne : s.resumer.queued ≠ []) :
    (doAsyncResume s handles sqeLeft taken).WakeUpDue ↔ s.WakeUpDue := by
  unfold State.WakeUpDue State.NopDue
  rw [sqes_doAsyncResume_of_ne hne, frames_doAsyncResume]

/-- **When one call is atomic**: there is nothing to queue; or there is, and
the queue is empty and an SQE is left, or it is not and a wake-up is due. -/
theorem asyncResumeAtomic_iff_wakes :
    AsyncResumeAtomic s handles sqeLeft (doAsyncResume s handles sqeLeft taken)
      ↔ handles.reduceOption = []
        ∨ if s.resumer.queued = [] then sqeLeft = true else s.WakeUpDue := by
  by_cases hany : handles.reduceOption = []
  · refine iff_of_true ⟨fun hthrown => ?_, fun _ => ⟨?_, fun hne => absurd hany hne⟩⟩
      (Or.inl hany)
    · exact absurd hany (asyncResumeThrows_iff.mp hthrown).1
    · rw [resumer_doAsyncResume]
  · rw [or_iff_right hany]
    by_cases hempty : s.resumer.queued = []
    · rw [if_pos hempty]
      constructor
      · intro hatomic
        by_contra hleft
        have hthrown := asyncResumeThrows_iff.mpr ⟨hany, hempty, Bool.eq_false_iff.mpr hleft⟩
        have hsame := congrArg AsyncResumption.queued (hatomic.thrown hthrown)
        rw [resumer_doAsyncResume] at hsame
        exact hany (List.append_right_eq_self.mp hsame)
      · intro hleft
        refine ⟨fun hthrown => ?_, fun _ => ⟨by rw [resumer_doAsyncResume], fun _ => ?_⟩⟩
        · exact absurd (hleft.symm.trans (asyncResumeThrows_iff.mp hthrown).2.2) (by simp)
        · exact Or.inl (nopDue_doAsyncResume hany hleft hempty)
    · have hsame : (doAsyncResume s handles sqeLeft taken).WakeUpDue ↔ s.WakeUpDue :=
        wakeUpDue_doAsyncResume hempty
      rw [if_neg hempty, ← hsame]
      have hnot : asyncResumeThrows s handles sqeLeft = false := by
        rw [Bool.eq_false_iff]
        exact fun hthrown => hempty (asyncResumeThrows_iff.mp hthrown).2.1
      constructor
      · exact fun hatomic => (hatomic.queued hnot).2 hany
      · exact fun hdue => ⟨fun hthrown => absurd (hthrown.symm.trans hnot) (by simp),
          fun _ => ⟨by rw [resumer_doAsyncResume], fun _ => hdue⟩⟩

end AsyncResume

/-! ## Every run -/

namespace Woken

variable {s s' : State} {f : Frame} {fs : List Frame} {e : Event}

/-- At the points where a loop does not swap the queue next, a NOP is due. -/
theorem nopDue (h : Woken s) (hf : s.frames = f :: fs) (hd : f.point.drained = false)
    (hq : s.resumer.queued ≠ []) : s.NopDue := by
  rcases h.due hq with hnop | hdrained
  · exact hnop
  · rw [hf] at hdrained
    exact absurd (hd.symm.trans hdrained) (by simp)

/-- A NOP that is due stays so until a CQE is taken. -/
theorem nopDue_step (hs : step s e = some s') (he : e.cqe = none) (h : s.NopDue) :
    s'.NopDue := by
  obtain ⟨sqe, hm, hsqe⟩ := h
  exact ⟨sqe, mem_sqes_step hs he hm, hsqe⟩

/-- The queue and the loops stay as they are. -/
theorem of_kept (h : Woken s) (hs : UringWarden.step s e = some s') (he : e.cqe = none)
    (hframes : s'.frames = s.frames) (hresumer : s'.resumer = s.resumer) : Woken s' where
  due := fun hq => by
    rw [hresumer] at hq
    rcases h.due hq with hnop | hdrained
    · exact Or.inl (nopDue_step hs he hnop)
    · exact Or.inr (hframes ▸ hdrained)
  resuming := fun hr => by
    rw [hresumer]
    exact h.resuming (hframes ▸ hr)

/-- The innermost loop goes on, and swaps the queue next if it did before. -/
theorem of_goto (h : Woken s) (hs : UringWarden.step s e = some s') (he : e.cqe = none)
    (hf : s.frames = f :: fs) {p : Point} (hframes : s'.frames = { f with point := p } :: fs)
    (hresumer : s'.resumer = s.resumer) (hd : f.point.drained = true → p.drained = true)
    (hr : f.point.resumes = p.resumes) : Woken s' where
  due := fun hq => by
    rw [hresumer] at hq
    rcases h.due hq with hnop | hdrained
    · exact Or.inl (nopDue_step hs he hnop)
    · rw [hf] at hdrained
      exact Or.inr (by rw [hframes]; exact hd hdrained)
  resuming := fun hres => by
    rw [hresumer]
    refine h.resuming ?_
    rw [hf, List.forall_mem_cons]
    rw [hframes, List.forall_mem_cons] at hres
    exact ⟨hr.trans hres.1, hres.2⟩

/-- A loop that does not swap next is left. -/
theorem of_leave (h : Woken s) (hs : UringWarden.step s e = some s') (he : e.cqe = none)
    (hf : s.frames = f :: fs) (hframes : s'.frames = fs)
    (hresumer : s'.resumer = s.resumer) (hd : f.point.drained = false)
    (hr : f.point.resumes = false) : Woken s' where
  due := fun hq => Or.inl (nopDue_step hs he (h.nopDue hf hd (hresumer ▸ hq)))
  resuming := fun hres => by
    rw [hresumer]
    refine h.resuming ?_
    rw [hf, List.forall_mem_cons]
    exact ⟨hr, hframes ▸ hres⟩

/-- The frames once a CQE has been taken: the innermost loop swaps the queue
next. -/
theorem frames_execute (hf : s.frames = f :: fs) (sqe : Sqe) (result : Int) :
    ∃ p : Point, p.drained = true ∧ p.resumes = false
      ∧ (execute s sqe result).frames = { f with point := p } :: fs
      ∧ (execute s sqe result).resumer = s.resumer := by
  have hexec := executed s sqe result
  generalize execute s sqe result = t at hexec ⊢
  cases hexec with
  | nop hu => exact ⟨.peekCqe, rfl, rfl, by rw [goto_eq, hf]; rfl, by rw [goto_eq]⟩
  | gone hu hc =>
    refine ⟨.peekCqe, rfl, rfl, ?_, ?_⟩
    · show (State.goto _ _).frames = _
      rw [goto_eq, State.observe, hf]
      rfl
    · show (State.goto _ _).resumer = _
      rw [goto_eq]
      rfl
  | @ignored id c hu hc hd =>
    have hloop := Prod.mk.inj (loop_executeEnd
      ((s.observe (.executed id sqe.role result)).goto .peekCqe) id)
    refine ⟨.peekCqe, rfl, rfl, hloop.1.trans ?_, (Prod.mk.inj hloop.2).1.trans ?_⟩
    · rw [goto_eq, State.observe, hf]
      rfl
    · rw [goto_eq]
      rfl
  | @delivered id c outcome hu hc hex hd =>
    refine ⟨.delivering id, rfl, rfl, ?_, ?_⟩
    · rw [goto_eq, State.observe, State.setCompletion, State.observe, hf]
      rfl
    · rw [goto_eq]
      rfl

/-- **Every step leaves a wake-up due** where there is something in the
queue. -/
theorem step (h : Woken s) (hok : Wakes s e) (hs : UringWarden.step s e = some s') :
    Woken s' := by
  have hstep := hs
  cases (stepped_of_step hs).2.2 with
  | create call => exact h.of_kept hstep rfl rfl rfl
  | @await id c hi hc a now sqes =>
    obtain ⟨hframes, hrest⟩ := Prod.mk.inj (loop_awaitSuspend s id c a now sqes)
    exact h.of_kept hstep rfl hframes (Prod.mk.inj hrest).1
  | awaitGone hi hc a now sqes => exact h.of_kept hstep rfl rfl rfl
  | @destroy id hi =>
    obtain ⟨hframes, hrest⟩ := Prod.mk.inj (loop_iopDestructed s id)
    exact h.of_kept hstep rfl hframes (Prod.mk.inj hrest).1
  | close hf =>
    obtain ⟨hframes, hrest⟩ := Prod.mk.inj (loop_deleteOutstanding s s.outstanding)
    exact h.of_kept hstep rfl hframes (Prod.mk.inj hrest).1
  | asyncResume handles sqeLeft taken =>
    refine ⟨fun hq => ?_, fun hr => ?_⟩
    · by_cases hempty : s.resumer.queued = []
      · rw [resumer_doAsyncResume, hempty, List.nil_append] at hq
        rcases hok with hnil | hne | hleft
        · exact absurd hnil hq
        · exact absurd hempty hne
        · exact Or.inl (nopDue_doAsyncResume hq hleft hempty)
      · exact (wakeUpDue_doAsyncResume hempty).mpr (h.due hempty)
    · rw [resumer_doAsyncResume]
      exact h.resuming (by rwa [frames_doAsyncResume] at hr)
  | runUntil coro =>
    refine ⟨fun hq => ?_, fun hr => h.resuming (List.forall_mem_cons.mp hr).2⟩
    rcases hok with hempty | hnop
    · exact absurd hempty hq
    · exact Or.inl (nopDue_step hstep rfl hnop)
  | runBatch taken =>
    exact ⟨fun _ => Or.inr rfl, fun hr => h.resuming (List.forall_mem_cons.mp hr).2⟩
  | @suspend f fs hf p hp =>
    refine h.of_goto hstep rfl hf (by rw [goto_eq, hf]; rfl) (by rw [goto_eq]) ?_ ?_ <;>
      cases hfp : f.point <;> rw [hfp] at hp <;> cases hp <;> simp [Point.drained, Point.resumes]
  | @delivered f fs hf id hp =>
    obtain ⟨hframes, hrest⟩ := Prod.mk.inj (loop_executeEnd (s.goto .peekCqe) id)
    refine h.of_goto hstep rfl hf (p := .peekCqe) (hframes.trans (by rw [goto_eq, hf]; rfl))
      ((Prod.mk.inj hrest).1.trans (by rw [goto_eq])) (fun _ => rfl) (by rw [hp]; rfl)
  | done hf hp taken =>
    exact h.of_leave hstep rfl hf (by rw [State.leave, hf]; rfl) rfl (by rw [hp]; rfl)
      (by rw [hp]; rfl)
  | waitFails hf hp hret hne cqe =>
    exact h.of_leave hstep (by simp [Event.cqe, hret]) hf (by rw [State.leave, hf]; rfl) rfl
      (by rw [hp]; rfl) (by rw [hp]; rfl)
  | submit hf hp taken =>
    exact h.of_goto hstep rfl hf (p := .waitCqe) (by rw [goto_eq, State.submit, hf]; rfl)
      (by rw [goto_eq]; rfl) (by rw [hp]; exact fun hd => hd) (by rw [hp]; rfl)
  | interrupted hf hp cqe =>
    exact h.of_goto hstep rfl hf (p := .condition) (by rw [goto_eq, hf]; rfl)
      (by rw [goto_eq]) (by rw [hp]; exact fun hd => hd) (by rw [hp]; rfl)
  | @take f fs hf hp e cqe sqe he hq =>
    obtain ⟨p, hd, hr, hframes, hresumer⟩ :=
      frames_execute (s := s.cqeSeen cqe.index) hf sqe cqe.res
    have hpoint : f.point.resumes = false := by rcases hp with hp | hp <;> rw [hp] <;> rfl
    refine ⟨fun _ => Or.inr (by rw [hframes]; exact hd), fun hres => ?_⟩
    rw [hresumer]
    refine h.resuming ?_
    rw [hf, List.forall_mem_cons]
    rw [hframes, List.forall_mem_cons] at hres
    exact ⟨hpoint, hres.2⟩
  | @peekNone f fs hf hp =>
    have hnil : s.resumer.resuming = [] := by
      refine h.resuming ?_
      rw [hf, List.forall_mem_cons]
      refine ⟨by rw [hp]; rfl, fun f' hf' => hok f' ?_⟩
      rw [hf]
      exact hf'
    refine ⟨fun hq => ?_, fun hr => ?_⟩
    · rw [beginResumeAll, goto_eq] at hq
      exact absurd hnil hq
    · rw [beginResumeAll, goto_eq, hf] at hr
      exact absurd (List.forall_mem_cons.mp hr).1 (by simp [Point.resumes])
  | @resumeNext f fs hf rest hp =>
    cases rest with
    | nil =>
      have hd : f.point.drained = false := by rw [hp]; rfl
      have hresumer : (resumeAllNext s f []).resumer = s.resumer.clearResuming := by
        unfold resumeAllNext
        cases f.coro
        · rfl
        · dsimp only
          rw [goto_eq]
      refine ⟨fun hq => Or.inl (nopDue_step hstep rfl (h.nopDue hf hd ?_)), fun _ => ?_⟩
      · rwa [hresumer] at hq
      · rw [hresumer]
        rfl
    | cons a rest =>
      exact h.of_goto hstep rfl hf (p := .resumed rest) (by rw [resumeAllNext, goto_eq, hf]; rfl)
        (by rw [resumeAllNext, goto_eq]) (by rw [hp]; exact fun hd => hd) (by rw [hp]; rfl)

end Woken

theorem woken_of_run {es : List Event} {s : State} (h : Run step Wakes init es s) : Woken s :=
  h.invariant (fun _ _ _ hs hok he => hs.step hok he)
    ⟨fun hq => absurd rfl hq, fun _ => rfl⟩

/-- **When `do_async_resume` is atomic**: there is nothing to queue; or the
queue is empty and an SQE is left, or it is not and a wake-up is due. In the
runs that leave no handle without a wake-up, one is always due when the queue
is not empty. -/
theorem asyncResumeAtomic_iff (s : State) (handles : List (Option Handle)) (sqeLeft : Bool)
    (taken : ℕ) :
    (AsyncResumeAtomic s handles sqeLeft (doAsyncResume s handles sqeLeft taken)
      ↔ handles.reduceOption = []
        ∨ if s.resumer.queued = [] then sqeLeft = true else s.WakeUpDue) ∧
    ∀ es, Run step Wakes init es s →
      (AsyncResumeAtomic s handles sqeLeft (doAsyncResume s handles sqeLeft taken)
        ↔ Wakes s (.asyncResume handles sqeLeft taken)) := by
  refine ⟨asyncResumeAtomic_iff_wakes, fun es hrun => asyncResumeAtomic_iff_wakes.trans ?_⟩
  refine or_congr_right ?_
  by_cases hempty : s.resumer.queued = []
  · rw [if_pos hempty, or_iff_right (fun hne => hne hempty)]
  · rw [if_neg hempty]
    exact iff_of_true ((woken_of_run hrun).due hempty) (Or.inl hempty)

/-- A coroutine queues two handles, with an SQE left, and another one before
the loop has swapped the queue, with none. -/
theorem asyncResumeAtomic_iff_twice :
    ∃ s, Run step Wakes init
        [.runUntil 1, .asyncResume [some 7, none, some 8] true 1] s
      ∧ s.resumer.queued = [7, 8]
      ∧ AsyncResumeAtomic s [some 9] false (doAsyncResume s [some 9] false 0) := by
  obtain ⟨s, hrun, htest⟩ := exists_run_of_exec step Wakes init
    [.runUntil 1, .asyncResume [some 7, none, some 8] true 1]
    (fun s => s.resumer.queued = [7, 8]) (by decide)
  have hq : s.resumer.queued = [7, 8] := of_decide_eq_true htest
  exact ⟨s, hrun, hq, ((asyncResumeAtomic_iff s [some 9] false 0).2 _ hrun).mpr
    (Or.inr (Or.inl (by rw [hq]; simp)))⟩

/-- **It is not atomic.** A handle is queued when the queue is empty and no SQE
is left: the call throws, and the handle stays in the queue; and the next call
finds an SQE and does not wake the loop for it. -/
theorem not_asyncResumeAtomic :
    ∃ s, Run step always init [.runUntil 1, .asyncResume [some 7] false 0] s
      ∧ asyncResumeThrows init [some 7] false = true ∧ s.resumer.queued = [7]
      ∧ ¬ AsyncResumeAtomic init [some 7] false (doAsyncResume init [some 7] false 0)
      ∧ ¬ AsyncResumeAtomic s [some 8] true (doAsyncResume s [some 8] true 1) := by
  refine ⟨_, run_of_exec rfl, rfl, rfl, fun h => ?_, fun h => ?_⟩
  · exact absurd (congrArg AsyncResumption.queued (h.thrown rfl)) (by decide)
  · rcases (h.queued rfl).2 (by decide) with hnop | hdrained
    · exact absurd hnop (by decide)
    · exact absurd hdrained (by decide)

end UringWarden
