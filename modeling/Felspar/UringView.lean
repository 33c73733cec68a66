import Mathlib.Data.List.Perm.Basic
import Felspar.UringWarden

/-!
# What the uring warden holds of one completion

`State.view s i` is what the state holds of the completion `i`: the
completion itself and its IOP, the CQEs the kernel owes for it, the calls of
`execute` that are delivering it, its entries in `outstanding`, and what has
been observed of it. Every operation is on one completion, and leaves the
views of the others.
-/

namespace UringWarden

/-! ## The view -/

/-- The completion an observation is about. -/
def Obs.id : Obs → DeliveryId
  | .awaited id _ _ | .executed id _ _ | .resumed id _ | .destroyed id | .deleted id => id

/-- The point is in a `deliver` of the completion. -/
def Point.holds (p : Point) (i : DeliveryId) : Bool := p = .delivering i

/-- The SQE is one of the completion, in the given role. -/
def Sqe.isOf (sqe : Sqe) (i : DeliveryId) (r : Role) : Bool :=
  sqe.userData = some i && sqe.role = r

/-- **What the state holds of one completion.** -/
@[ext] structure View where
  completion : Option Completion
  iop : Bool
  stage : Stage
  /-- The SQEs in each role whose CQE has not been taken. -/
  owed : Role → ℕ
  /-- The calls of `execute` that are delivering it. -/
  held : ℕ
  /-- Its entries in `outstanding`. -/
  listed : ℕ
  /-- What has been observed of it, newest first. -/
  log : List Obs

/-- The view of one completion. -/
def State.view (s : State) (i : DeliveryId) : View where
  completion := s.completions i
  iop := s.iops i
  stage := s.stage i
  owed := fun r => s.queue.countP (fun q => q.isOf i r)
    + s.inflight.countP (fun q => q.isOf i r)
  held := s.frames.countP (fun f => f.point.holds i)
  listed := s.outstanding.count i
  log := s.trace.filter (fun o => o.id = i)

section Primitives

variable (s : State) (id i : DeliveryId) (c : Completion)

@[simp] theorem view_completion : (s.view i).completion = s.completions i := rfl

@[simp] theorem view_stage : (s.view i).stage = s.stage i := rfl

@[simp] theorem view_iop : (s.view i).iop = s.iops i := rfl

@[simp] theorem view_fail (x : Fault) : (s.fail x).view i = s.view i := rfl

theorem view_observe (o : Obs) : (s.observe o).view i
    = if o.id = i then { s.view i with log := o :: (s.view i).log } else s.view i := by
  by_cases h : o.id = i <;> simp [State.observe, State.view, h]

theorem view_observe_of_ne {o : Obs} (h : o.id ≠ i) : (s.observe o).view i = s.view i := by
  rw [view_observe, if_neg h]

theorem view_setCompletion : (s.setCompletion id c).view i
    = if i = id then { s.view i with completion := some c } else s.view i := by
  by_cases h : i = id <;> simp [State.setCompletion, State.view, h]

theorem view_setStage (g : Stage) : (s.setStage id g).view i
    = if i = id then { s.view i with stage := g } else s.view i := by
  by_cases h : i = id <;> simp [State.setStage, State.view, h]

/-- An SQE that has been queued is owed a CQE. -/
theorem view_push (sqe : Sqe) : (s.push sqe).view i
    = { s.view i with owed := fun r =>
          (s.view i).owed r + if sqe.isOf i r then 1 else 0 } := by
  refine View.ext rfl rfl rfl ?_ rfl rfl rfl
  funext r
  simp only [State.push, State.view, List.countP_append, List.countP_singleton]
  omega

/-- Submitting moves SQEs from one list to the other. -/
@[simp] theorem view_submit (taken : ℕ) : (s.submit taken).view i = s.view i := by
  refine View.ext rfl rfl rfl ?_ rfl rfl rfl
  funext r
  have h : s.queue.countP (fun q => q.isOf i r)
      = (s.queue.take taken).countP (fun q => q.isOf i r)
        + (s.queue.drop taken).countP (fun q => q.isOf i r) := by
    rw [← List.countP_append, List.take_append_drop]
  simp only [State.submit, State.view, List.countP_append, h]
  omega

theorem view_delete : (s.delete id).view i
    = if i = id then { s.view i with
        completion := none, log := .deleted id :: (s.view i).log } else s.view i := by
  by_cases h : i = id
  · subst h
    simp [State.delete, State.observe, State.view, Obs.id]
  · simp [State.delete, State.observe, State.view, Obs.id, h, Ne.symm h]

/-- Taking a CQE: the kernel owes it no longer. -/
theorem view_taken {index : ℕ} {sqe : Sqe} (h : s.inflight[index]? = some sqe) :
    s.view i = { (s.cqeSeen index).view i with
      owed := fun r => ((s.cqeSeen index).view i).owed r + if sqe.isOf i r then 1 else 0 } := by
  refine View.ext rfl rfl rfl ?_ rfl rfl rfl
  funext r
  obtain ⟨hlt, he⟩ := List.getElem?_eq_some_iff.mp h
  have hp := (List.getElem_cons_eraseIdx_perm hlt).countP_eq (fun q : Sqe => q.isOf i r)
  rw [List.countP_cons, he] at hp
  simp only [State.view, State.cqeSeen, ← hp]
  omega

/-! ## Frames -/

variable {s} {f : Frame} {fs : List Frame} (p : Point)

/-- The loop goes on: it holds what it held, but for the point it leaves. -/
theorem view_goto (hf : s.frames = f :: fs) : (s.goto p).view i
    = { s.view i with held := fs.countP (fun f => f.point.holds i)
          + if p.holds i then 1 else 0 } := by
  rw [goto_eq, hf]
  refine View.ext rfl rfl rfl rfl ?_ rfl rfl
  simp [State.view, gotoFrames, List.countP_cons]

theorem held_eq (hf : s.frames = f :: fs) : (s.view i).held
    = fs.countP (fun f => f.point.holds i) + if f.point.holds i then 1 else 0 := by
  simp only [State.view, hf, List.countP_cons]

/-- The loop goes from a point that delivers nothing to another one. -/
theorem view_goto_idle (hf : s.frames = f :: fs) (hp : f.point.holds i = p.holds i) :
    (s.goto p).view i = s.view i := by
  rw [view_goto i p hf, ← hp, ← held_eq i hf]

/-- A loop that is left delivers nothing. -/
theorem view_leave (hf : s.frames = f :: fs) (hp : f.point.holds i = false) :
    s.leave.view i = s.view i := by
  have hheld := held_eq i hf
  rw [hp] at hheld
  refine View.ext rfl rfl rfl rfl ?_ rfl rfl
  simp only [State.view, State.leave, hf, List.tail_cons] at hheld ⊢
  rw [hheld]
  rfl

/-- A loop is entered at a point that delivers nothing. -/
theorem view_enter (coro : Option Handle) (hp : p.holds i = false) :
    ({ s with frames := ⟨coro, p⟩ :: s.frames } : State).view i = s.view i := by
  refine View.ext rfl rfl rfl rfl ?_ rfl rfl
  simp [State.view, hp]

end Primitives

/-! ## The operations -/

section Operations

variable (s : State) (id i : DeliveryId) (c : Completion)

theorem view_createIop (call : Call) : (createIop s call).view i
    = if i = s.next then
        { s.view i with completion := some call.completion, iop := true }
      else s.view i := by
  by_cases h : i = s.next
  · simp [createIop, State.view, State.setCompletion, h]
  · simp [createIop, State.view, State.setCompletion, h]

/-- An SQE of another completion is owed nothing here. -/
theorem view_push_of_ne (sqe : Sqe) (h : sqe.userData ≠ some i) :
    (s.push sqe).view i = s.view i := by
  rw [view_push]
  refine View.ext rfl rfl rfl ?_ rfl rfl rfl
  simp [Sqe.isOf, h]

/-- An SQE of the completion is owed a CQE in its role. -/
theorem view_push_self (sqe : Sqe) (h : sqe.userData = some id) :
    (s.push sqe).view id
      = { s.view id with
          owed := fun r => (s.view id).owed r + if r = sqe.role then 1 else 0 } := by
  rw [view_push]
  refine View.ext rfl rfl rfl ?_ rfl rfl rfl
  simp [Sqe.isOf, h, eq_comm]

/-- **How far awaiting an IOP comes**: the first `next_sqe` throws; or there
is no deadline, and one SQE is queued; or there is one, and two are queued;
or the second `next_sqe` throws. -/
theorem awaitSuspend_cases (h : Handle) (now : TimePoint) (sqes : ℕ) (c' : Completion)
    (hc' : c' = { c with handle := some h }) :
    awaitSuspend s id c h now sqes = (s.setCompletion id c').setStage id .refused
    ∨ (c.deadline = none ∧ awaitSuspend s id c h now sqes
        = (((s.setCompletion id c').push { prep := .op c.op, userData := some id }).setStage
            id .awaited).observe (.awaited id c.op none))
    ∨ (∃ t, c.deadline = some t ∧ awaitSuspend s id c h now sqes
        = (((((s.setCompletion id c').push
            { prep := .op c.op, userData := some id, link := true }).push
            { prep := .linkTimeout (remaining t now), userData := some id }).setCompletion
            id { c' with iopCount := 2 }).setStage id .awaited).observe
              (.awaited id c.op (some t)))
    ∨ (∃ t, c.deadline = some t ∧ awaitSuspend s id c h now sqes
        = ((s.setCompletion id c').push
            { prep := .op c.op, userData := some id, link := true }).setStage
              id .halfQueued) := by
  subst hc'
  unfold awaitSuspend setupTimeout
  by_cases h₀ : sqes = 0
  · exact Or.inl (by simp [h₀])
  · cases hd : c.deadline with
    | none => exact Or.inr (Or.inl ⟨rfl, by simp [h₀, State.setStage]⟩)
    | some t =>
      by_cases h₂ : 2 ≤ sqes
      · exact Or.inr (Or.inr (Or.inl ⟨t, rfl, by simp [h₀, h₂, State.setStage]⟩))
      · exact Or.inr (Or.inr (Or.inr ⟨t, rfl, by simp [h₀, h₂, State.setStage]⟩))

theorem view_awaitSuspend_of_ne (h : Handle) (now : TimePoint) (sqes : ℕ) (hi : i ≠ id) :
    (awaitSuspend s id c h now sqes).view i = s.view i := by
  have hid : some id ≠ some i := fun he => hi (Option.some.inj he).symm
  rcases awaitSuspend_cases s id c h now sqes _ rfl with
    he | ⟨-, he⟩ | ⟨t, -, he⟩ | ⟨t, -, he⟩
  · rw [he, view_setStage, if_neg hi, view_setCompletion, if_neg hi]
  · rw [he, view_observe_of_ne _ _ (Ne.symm hi), view_setStage, if_neg hi,
      view_push_of_ne _ _ _ hid, view_setCompletion, if_neg hi]
  · rw [he, view_observe_of_ne _ _ (Ne.symm hi), view_setStage, if_neg hi, view_setCompletion,
      if_neg hi, view_push_of_ne _ _ _ hid, view_push_of_ne _ _ _ hid, view_setCompletion,
      if_neg hi]
  · rw [he, view_setStage, if_neg hi, view_push_of_ne _ _ _ hid, view_setCompletion,
      if_neg hi]

/-- **The view of a completion whose IOP is destructed.** -/
theorem view_iopDestructed_self (hc : s.completions id = some c) :
    (iopDestructed s id).view id
      = if c.iopCount = 0 then
          { s.view id with
            iop := false, completion := none
            log := .deleted id :: .destroyed id :: (s.view id).log }
        else
          { s.view id with
            iop := false
            completion := some { c with iopExists := false, isOutstanding := true }
            listed := (s.view id).listed + 1
            log := .destroyed id :: (s.view id).log } := by
  have hobs : ({ s with iops := fun i => if i = id then false else s.iops i } : State).view id
      = { s.view id with iop := false } := by simp [State.view]
  unfold iopDestructed
  dsimp only
  rw [show (State.observe { s with iops := fun i => if i = id then false else s.iops i }
    (.destroyed id)).completions id = some c from hc]
  dsimp only
  split
  · rw [view_delete, view_observe, hobs]
    simp [Obs.id]
  · refine View.ext ?_ ?_ ?_ ?_ ?_ ?_ ?_ <;>
      simp [State.view, State.setCompletion, State.observe, Obs.id]

theorem view_iopDestructed_of_ne (hi : i ≠ id) : (iopDestructed s id).view i = s.view i := by
  have hid : id ≠ i := Ne.symm hi
  have hobs : (State.observe { s with iops := fun i => if i = id then false else s.iops i }
      (.destroyed id)).view i = s.view i := by
    rw [view_observe, if_neg (by exact hid)]
    simp [State.view, hi]
  unfold iopDestructed
  dsimp only
  split
  · rw [view_fail, hobs]
  · split
    · rw [view_delete, if_neg hi, hobs]
    · rw [← hobs]
      refine View.ext ?_ rfl rfl rfl rfl ?_ rfl <;>
        simp [State.view, State.setCompletion, State.observe, hi, hid]

/-- **The view of a completion at the end of an `execute`.** -/
theorem view_executeEnd_self (hc : s.completions id = some c) :
    (executeEnd s id).view id
      = if sizeDecrement c.iopCount = 0 ∧ c.iopExists = false then
          { s.view id with
            completion := none
            listed := if c.isOutstanding then 0 else (s.view id).listed
            log := .deleted id :: (s.view id).log }
        else
          { s.view id with
            completion := some { c with iopCount := sizeDecrement c.iopCount }
            listed := if c.isOutstanding then 0 else (s.view id).listed } := by
  have hout : (if c.isOutstanding then
        { s with outstanding := s.outstanding.filter (fun i => i ≠ id) } else s).view id
      = { s.view id with listed := if c.isOutstanding then 0 else (s.view id).listed } := by
    cases c.isOutstanding
    · rfl
    · refine View.ext rfl rfl rfl rfl rfl ?_ rfl
      simp [State.view, List.count_eq_zero]
  unfold executeEnd
  rw [hc]
  dsimp only
  split
  · rw [view_delete, if_pos rfl, hout]
  · rw [view_setCompletion, if_pos rfl, hout]

/-- **The view of a completion whose coroutine is resumed**, from a point of
the loop that delivers nothing. -/
theorem view_delivering {f : Frame} {fs : List Frame} (hf : s.frames = f :: fs)
    (hp : f.point.holds i = false) (outcome : Outcome) :
    (((s.setCompletion id c).observe (.resumed id outcome)).goto (.delivering id)).view i
      = if i = id then
          { s.view i with
            completion := some c
            held := (s.view i).held + 1
            log := .resumed id outcome :: (s.view i).log }
        else s.view i := by
  have hheld := held_eq i hf
  rw [hp] at hheld
  have hg := view_goto (s := (s.setCompletion id c).observe (.resumed id outcome)) i
    (.delivering id) hf
  rw [hg, view_observe, view_setCompletion]
  by_cases hi : i = id
  · subst hi
    simp [Obs.id, Point.holds, hheld]
  · have hid : id ≠ i := Ne.symm hi
    refine View.ext ?_ ?_ ?_ ?_ ?_ ?_ ?_ <;> simp [Obs.id, Point.holds, hheld, hi, hid]

theorem view_executeEnd_of_ne (hi : i ≠ id) : (executeEnd s id).view i = s.view i := by
  unfold executeEnd
  split
  · rfl
  · rename_i c hc
    have hout : (if c.isOutstanding then
          { s with outstanding := s.outstanding.filter (fun i => i ≠ id) } else s).view i
        = s.view i := by
      cases c.isOutstanding
      · rfl
      · refine View.ext rfl rfl rfl rfl rfl ?_ rfl
        exact List.count_filter (by simpa using hi)
    dsimp only
    split
    · rw [view_delete, if_neg hi, hout]
    · rw [view_setCompletion, if_neg hi, hout]

/-- Taking a CQE is nothing to the IOPs it is not of. -/
theorem view_cqeSeen_of_ne {s : State} {i : DeliveryId} {index : ℕ} {sqe : Sqe}
    (hq : s.inflight[index]? = some sqe) (hu : sqe.userData ≠ some i) :
    (s.cqeSeen index).view i = s.view i := by
  rw [view_taken s i hq]
  refine View.ext rfl rfl rfl ?_ rfl rfl rfl
  simp [Sqe.isOf, hu]

/-- **Executing a CQE** leaves the IOPs it is not of. -/
theorem view_execute_of_ne {s : State} {i : DeliveryId} {f : Frame} {fs : List Frame}
    (hf : s.frames = f :: fs) (hp : f.point.holds i = false) {index : ℕ} {sqe : Sqe}
    (hq : s.inflight[index]? = some sqe) (hu : sqe.userData ≠ some i) (result : Int) :
    (execute (s.cqeSeen index) sqe result).view i = s.view i := by
  have hne : ∀ {id : DeliveryId}, sqe.userData = some id → i ≠ id := by
    rintro id hid rfl
    exact hu hid
  have hseen : ∀ {id : DeliveryId}, sqe.userData = some id →
      ((s.cqeSeen index).observe (.executed id sqe.role result)).view i = s.view i := by
    intro id hid
    have hobs : (Obs.executed id sqe.role result).id ≠ i := Ne.symm (hne hid)
    rw [view_observe_of_ne _ _ hobs, view_cqeSeen_of_ne hq hu]
  have hexec := executed (s.cqeSeen index) sqe result
  generalize execute (s.cqeSeen index) sqe result = t at hexec ⊢
  cases hexec with
  | nop =>
    rw [view_goto_idle (s := s.cqeSeen index) i .peekCqe hf hp, view_cqeSeen_of_ne hq hu]
  | gone hid hc =>
    rw [view_fail, view_goto_idle (s := (s.cqeSeen index).observe _) i .peekCqe hf hp, hseen hid]
  | ignored hid hc hd =>
    rw [view_executeEnd_of_ne _ _ _ (hne hid),
      view_goto_idle (s := (s.cqeSeen index).observe _) i .peekCqe hf hp, hseen hid]
  | delivered hid hc hex hd =>
    rw [view_delivering ((s.cqeSeen index).observe _) _ i _ hf hp _, if_neg (hne hid), hseen hid]

/-- Waking is about no completion. -/
theorem view_doAsyncResume (handles : List (Option Handle)) (sqeLeft : Bool) (taken : ℕ) :
    (doAsyncResume s handles sqeLeft taken).view i = s.view i := by
  have hnop := view_push_of_ne { s with resumer := (s.resumer.queue handles).1 } i
    { prep := .nop, userData := none } (by simp)
  unfold doAsyncResume wakeEventLoop
  dsimp only
  split_ifs
  · rw [view_submit, hnop]
    rfl
  · rfl
  · rfl

theorem doAsyncResume_eq (handles : List (Option Handle)) (sqeLeft : Bool) (taken : ℕ) :
    ∃ queue inflight, doAsyncResume s handles sqeLeft taken
      = { s with
          resumer := (s.resumer.queue handles).1, queue := queue, inflight := inflight } := by
  unfold doAsyncResume wakeEventLoop
  dsimp only
  split_ifs <;> exact ⟨_, _, rfl⟩

end Operations

/-! ## The loop -/

/-- What the operations on a completion leave alone. -/
def State.loop (s : State) : List Frame × AsyncResumption × List Sqe :=
  (s.frames, s.resumer, s.inflight)

section Loop

variable (s : State) (id : DeliveryId) (c : Completion)

theorem loop_awaitSuspend (a : Handle) (now : TimePoint) (sqes : ℕ) :
    (awaitSuspend s id c a now sqes).loop = s.loop := by
  rcases awaitSuspend_cases s id c a now sqes _ rfl with
    he | ⟨-, he⟩ | ⟨t, -, he⟩ | ⟨t, -, he⟩ <;> rw [he] <;> rfl

theorem loop_iopDestructed : (iopDestructed s id).loop = s.loop := by
  unfold iopDestructed
  dsimp only
  split
  · rfl
  · split <;> rfl

/-- The end of an `execute` deletes a completion or replaces it. -/
theorem executeEnd_eq : executeEnd s id = s.fail (.useAfterDelete id)
    ∨ ∃ l, executeEnd s id = ({ s with outstanding := l } : State).delete id
      ∨ ∃ c, executeEnd s id = ({ s with outstanding := l } : State).setCompletion id c := by
  unfold executeEnd
  split
  · exact Or.inl rfl
  · rename_i c hc
    refine Or.inr ⟨if c.isOutstanding then s.outstanding.filter (fun i => i ≠ id)
      else s.outstanding, ?_⟩
    cases c.isOutstanding <;> dsimp only <;> split
    · exact Or.inl rfl
    · exact Or.inr ⟨_, rfl⟩
    · exact Or.inl rfl
    · exact Or.inr ⟨_, rfl⟩

theorem loop_executeEnd : (executeEnd s id).loop = s.loop := by
  rcases executeEnd_eq s id with he | ⟨l, he | ⟨c, he⟩⟩ <;> rw [he] <;> rfl

@[simp] theorem executeEnd_closed : (executeEnd s id).closed = s.closed := by
  rcases executeEnd_eq s id with he | ⟨l, he | ⟨c, he⟩⟩ <;> rw [he] <;> rfl

@[simp] theorem iopDestructed_closed : (iopDestructed s id).closed = s.closed := by
  unfold iopDestructed
  dsimp only
  split
  · rfl
  · split <;> rfl

theorem loop_deleteOutstanding (l : List DeliveryId) :
    (deleteOutstanding s l).loop = s.loop := by
  induction l generalizing s with
  | nil => rfl
  | cons id l ih =>
    unfold deleteOutstanding
    split
    · rfl
    · exact (ih (s.delete id)).trans rfl

end Loop

end UringWarden
