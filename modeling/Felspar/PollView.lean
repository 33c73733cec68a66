import Felspar.PollLoop

/-!
# What the poll warden holds of one completion

The containers of the warden are shared by all completions, and every
operation works on one of them. `State.view s i` is what the state holds of
the completion `i`: the completion itself, where it is in its life, the
deadlines it is filed under in `timeouts`, and how often it occurs in each
list of `requests`. An operation on one completion changes the view of that
one in a way that can be written down, and leaves the view of every other.

So an invariant that is stated of each view is kept by an operation once it
is kept at the completion the operation is on.
-/

namespace PollWarden

/-- **What the state holds of one completion.** -/
@[ext] structure View where
  completion : Option Completion
  stage : Stage
  /-- The deadlines it is filed under in `timeouts`. -/
  keys : List TimePoint
  /-- How often it occurs in a list of `requests`. -/
  count : SocketDescriptor → Side → ℕ

/-- The view of one completion. -/
def State.view (s : State) (i : RetrierId) : View where
  completion := s.completions i
  stage := s.stage i
  keys := s.timeouts.keysOf i
  count := fun fd d => (s.registered fd d).count i

namespace View

/-- Where the completion registers. -/
def slot (v : View) : Option (SocketDescriptor × Side) :=
  v.completion.bind (fun c => c.op.slot)

end View

section Primitives

variable (s : State) (id i : RetrierId) (c : Completion)

@[simp] theorem view_completion : (s.view i).completion = s.completions i := rfl

@[simp] theorem view_stage : (s.view i).stage = s.stage i := rfl

@[simp] theorem view_observe (o : Obs) : (s.observe o).view i = s.view i := rfl

@[simp] theorem shell_observe (o : Obs) : (s.observe o).shell = s.shell := rfl

@[simp] theorem registered_observe (o : Obs) :
    (s.observe o).registered = s.registered := rfl

/-! ## Setting the completion and its stage -/

@[simp] theorem shell_returnHandle : (returnHandle s id c).1.shell = s.shell := rfl

@[simp] theorem shell_returnNoop : (returnNoop s id c).1.shell = s.shell := rfl

theorem view_returnHandle : (returnHandle s id c).1.view i
    = if i = id then { s.view i with completion := some c, stage := .finished }
      else s.view i := by
  by_cases h : i = id
  · simp [returnHandle, State.view, State.setCompletion, State.setStage,
      State.observe, State.registered, h]
  · simp [returnHandle, State.view, State.setCompletion, State.setStage,
      State.observe, State.registered, h]

theorem view_returnNoop : (returnNoop s id c).1.view i
    = if i = id then { s.view i with completion := some c, stage := .suspended }
      else s.view i := by
  by_cases h : i = id
  · simp [returnNoop, State.view, State.setCompletion, State.setStage,
      State.registered, h]
  · simp [returnNoop, State.view, State.setCompletion, State.setStage,
      State.registered, h]

/-! ## Deadlines -/

@[simp] theorem shell_insertTimeout : (insertTimeout s id c).shell = s.shell := by
  rw [insertTimeout_eq]
  rfl

@[simp] theorem shell_cancelTimeout : (cancelTimeout s id c).shell = s.shell := by
  rw [cancelTimeout_eq]
  rfl

@[simp] theorem requests_insertTimeout :
    (insertTimeout s id c).requests = s.requests := by rw [insertTimeout_eq]

@[simp] theorem requests_cancelTimeout :
    (cancelTimeout s id c).requests = s.requests := by rw [cancelTimeout_eq]

/-- Inserting a deadline files the completion under it. -/
theorem view_insertTimeout_self (h : (s.view id).keys = []) :
    (insertTimeout s id c).view id = { s.view id with keys := c.deadline.toList } := by
  rw [insertTimeout_eq]
  cases hd : c.deadline with
  | none => simpa [View.ext_iff, State.view, State.registered] using h
  | some t =>
    have hk : (s.timeouts.insert t id).keysOf id = [t] :=
      s.timeouts.keysOf_insert_self h
    simp [State.view, State.registered, hk]

theorem view_insertTimeout_of_ne (h : i ≠ id) :
    (insertTimeout s id c).view i = s.view i := by
  rw [insertTimeout_eq]
  cases hd : c.deadline with
  | none => rfl
  | some t =>
    have hk := s.timeouts.keysOf_insert_of_ne (k := t) h
    simp [State.view, State.registered, hk]

/-- Cancelling the deadline drops the first one the completion is filed
under. -/
theorem view_cancelTimeout_self : (cancelTimeout s id c).view id
    = { s.view id with keys := if c.deadline.isSome then (s.view id).keys.tail
                               else (s.view id).keys } := by
  rw [cancelTimeout_eq]
  cases hd : c.deadline with
  | none => rfl
  | some t =>
    simp [State.view, State.registered, s.timeouts.keysOf_eraseFirst_self]

theorem view_cancelTimeout_of_ne (h : i ≠ id) :
    (cancelTimeout s id c).view i = s.view i := by
  rw [cancelTimeout_eq]
  cases hd : c.deadline with
  | none => rfl
  | some t =>
    simp [State.view, State.registered, s.timeouts.keysOf_eraseFirst_of_ne h]

/-! ## Requests -/

variable (fd fd' : SocketDescriptor) (d d' : Side)

@[simp] theorem shell_pushRequest : (pushRequest s fd d id).shell = s.shell := rfl

@[simp] theorem shell_cancelIop : (cancelIop s id c).shell = s.shell := by
  rw [cancelIop_eq]
  rfl

/-- Changing one list of `requests[fd]` leaves the others. -/
theorem registered_modifyRequests (f : List RetrierId → List RetrierId) :
    (s.modifyRequests fd d f).registered fd' d'
      = if fd' = fd ∧ d' = d then f (s.registered fd d) else s.registered fd' d' := by
  unfold State.registered State.modifyRequests
  rw [SubscriptMap.get_modify]
  by_cases hfd : fd' = fd
  · subst hfd
    by_cases hd : d' = d
    · subst hd; simp
    · simp [hd]
  · simp [hfd]

theorem view_pushRequest_self : (pushRequest s fd d id).view id
    = { s.view id with count := fun fd' d' =>
        (s.view id).count fd' d' + if fd' = fd ∧ d' = d then 1 else 0 } := by
  refine View.ext rfl rfl rfl ?_
  funext fd' d'
  simp only [State.view, pushRequest, registered_modifyRequests]
  split
  case isTrue h => obtain ⟨rfl, rfl⟩ := h; simp
  case isFalse h => simp

theorem view_pushRequest_of_ne (h : i ≠ id) :
    (pushRequest s fd d id).view i = s.view i := by
  refine View.ext rfl rfl rfl ?_
  funext fd' d'
  simp only [State.view, pushRequest, registered_modifyRequests]
  split
  case isTrue h' =>
    obtain ⟨rfl, rfl⟩ := h'
    simp [List.count_append, Ne.symm h]
  case isFalse h' => rfl

theorem view_eraseRequest_self : (eraseRequest s fd d id).view id
    = { s.view id with count := fun fd' d' =>
        if fd' = fd ∧ d' = d then 0 else (s.view id).count fd' d' } := by
  refine View.ext rfl rfl rfl ?_
  funext fd' d'
  simp only [State.view, eraseRequest, registered_modifyRequests]
  split
  case isTrue h => simp [List.count_eq_zero]
  case isFalse h => rfl

theorem view_eraseRequest_of_ne (h : i ≠ id) :
    (eraseRequest s fd d id).view i = s.view i := by
  refine View.ext rfl rfl rfl ?_
  funext fd' d'
  simp only [State.view, eraseRequest, registered_modifyRequests]
  split
  case isTrue h' =>
    obtain ⟨rfl, rfl⟩ := h'
    exact List.count_filter (by simpa using h)
  case isFalse h' => rfl

/-- Cancelling the IOP takes the completion out of the list it registers
in. -/
theorem view_cancelIop_self : (cancelIop s id c).view id
    = { s.view id with count := fun fd d =>
        if c.op.slot = some (fd, d) then 0 else (s.view id).count fd d } := by
  unfold cancelIop
  cases hs : c.op.slot with
  | none => exact View.ext rfl rfl rfl (by simp)
  | some p =>
    obtain ⟨fd, d⟩ := p
    rw [view_eraseRequest_self]
    simp [eq_comm]

theorem view_cancelIop_of_ne (h : i ≠ id) :
    (cancelIop s id c).view i = s.view i := by
  unfold cancelIop
  cases hs : c.op.slot with
  | none => rfl
  | some p => exact view_eraseRequest_of_ne s id i p.1 p.2 h

end Primitives

/-! ## The members of a completion

Each of them leaves the shell, and the views of the other completions. -/

section Members

variable (s : State) (id i : RetrierId) (c : Completion) (r : Sys) (h : Handle)

@[simp] theorem shell_called (op : Op) : (called s id op r).shell = s.shell := by
  unfold called
  split <;> rfl

@[simp] theorem view_called (op : Op) : (called s id op r).view i = s.view i := by
  unfold called
  split <;> rfl

@[simp] theorem shell_registerAgain : (registerAgain s id c).shell = s.shell := by
  unfold registerAgain
  cases c.op.slot with
  | none => rfl
  | some p => cases c.op <;> simp

theorem view_registerAgain_of_ne (hi : i ≠ id) :
    (registerAgain s id c).view i = s.view i := by
  unfold registerAgain
  cases c.op.slot with
  | none => rfl
  | some p =>
    cases c.op <;> simp [view_insertTimeout_of_ne _ _ _ _ hi,
      view_pushRequest_of_ne _ _ _ _ _ hi]

@[simp] theorem shell_tryOrResume : (tryOrResume s id c r).1.shell = s.shell := by
  rw [tryOrResume_eq]
  split <;> simp [cancelTimeoutThenResume]

theorem view_tryOrResume_of_ne (hi : i ≠ id) :
    (tryOrResume s id c r).1.view i = s.view i := by
  rw [tryOrResume_eq]
  split
  · rw [view_returnNoop, if_neg hi, view_registerAgain_of_ne _ _ _ _ hi, view_called]
  · rw [cancelTimeoutThenResume, view_returnHandle, if_neg hi,
      view_cancelTimeout_of_ne _ _ _ _ hi, view_called]

/-- **What `await_suspend` does**, type by type: the connect tries at once
and the two readiness IOPs never do; the others file their deadline and make
their first try. -/
theorem awaitSuspend_cases (c' : Completion) (hc : c' = { c with handle := some h }) :
    (∃ fd, c.op = .connect fd ∧ awaitSuspend s id c h r = connectAwaitSuspend s id c' fd r)
    ∨ (∃ fd d, (c.op = .readReady fd ∨ c.op = .writeReady fd)
        ∧ c.op.slot = some (fd, d)
        ∧ awaitSuspend s id c h r = readyAwaitSuspend s id c' fd d)
    ∨ ((∀ fd, c.op ≠ .connect fd ∧ c.op ≠ .readReady fd ∧ c.op ≠ .writeReady fd)
        ∧ awaitSuspend s id c h r = tryOrResume (insertTimeout s id c') id c' r) := by
  subst hc
  obtain ⟨op, deadline, handle, result⟩ := c
  cases op with
  | connect fd => exact Or.inl ⟨fd, rfl, rfl⟩
  | readReady fd => exact Or.inr (Or.inl ⟨fd, .reads, Or.inl rfl, rfl, rfl⟩)
  | writeReady fd => exact Or.inr (Or.inl ⟨fd, .writes, Or.inr rfl, rfl, rfl⟩)
  | _ => exact Or.inr (Or.inr ⟨fun _ => by simp, rfl⟩)

@[simp] theorem shell_awaitSuspend : (awaitSuspend s id c h r).1.shell = s.shell := by
  rcases awaitSuspend_cases s id c r h _ rfl with
    ⟨fd, -, he⟩ | ⟨fd, d, -, -, he⟩ | ⟨-, he⟩
  · rw [he]
    unfold connectAwaitSuspend
    split_ifs <;> simp
  · rw [he]
    simp [readyAwaitSuspend]
  · rw [he]
    simp

theorem view_awaitSuspend_of_ne (hi : i ≠ id) :
    (awaitSuspend s id c h r).1.view i = s.view i := by
  rcases awaitSuspend_cases s id c r h _ rfl with
    ⟨fd, -, he⟩ | ⟨fd, d, -, -, he⟩ | ⟨-, he⟩
  · rw [he]
    unfold connectAwaitSuspend
    split_ifs <;> simp [view_returnHandle, view_returnNoop, hi,
      view_insertTimeout_of_ne _ _ _ _ hi, view_pushRequest_of_ne _ _ _ _ _ hi]
  · rw [he, readyAwaitSuspend, view_returnNoop, if_neg hi,
      view_insertTimeout_of_ne _ _ _ _ hi, view_pushRequest_of_ne _ _ _ _ _ hi]
  · rw [he, view_tryOrResume_of_ne _ _ _ _ _ hi, view_insertTimeout_of_ne _ _ _ _ hi]

@[simp] theorem shell_iopTimedout : (iopTimedout s id c).1.shell = s.shell := by
  unfold iopTimedout
  split <;> simp

theorem view_iopTimedout_of_ne (hi : i ≠ id) :
    (iopTimedout s id c).1.view i = s.view i := by
  unfold iopTimedout
  split <;> simp [view_returnHandle, hi, view_cancelIop_of_ne _ _ _ _ hi]

@[simp] theorem shell_iopDestructed : (iopDestructed s id c).shell = s.shell := by
  have h : (cancelIop (cancelTimeout s id c) id c).shell = s.shell := by simp
  exact h

theorem view_iopDestructed : (iopDestructed s id c).view i
    = if i = id then
        { (cancelIop (cancelTimeout s id c) id c).view id with
          completion := none, stage := .deleted }
      else s.view i := by
  have hv : (cancelIop (cancelTimeout s id c) id c).view i
      = if i = id then (cancelIop (cancelTimeout s id c) id c).view id
        else s.view i := by
    by_cases h : i = id
    · rw [if_pos h, h]
    · rw [if_neg h, view_cancelIop_of_ne _ _ _ _ h, view_cancelTimeout_of_ne _ _ _ _ h]
  by_cases h : i = id
  · subst h
    simp [iopDestructed, State.view, State.setStage, State.registered]
  · rw [if_neg h] at hv ⊢
    rw [← hv]
    simp [iopDestructed, State.view, State.setStage, State.registered, h]

/-- Creating an IOP puts its completion under the next number. -/
theorem view_createIop (call : Call) : (createIop s call).view i
    = if i = s.next then { s.view i with completion := some call.completion }
      else s.view i := by
  by_cases h : i = s.next
  · simp [createIop, State.view, State.setCompletion, State.registered, h]
  · simp [createIop, State.view, State.setCompletion, State.registered, h]

end Members

/-! ## The view of the completion a member is on

The completion keeps its type and its deadline. It occurs once more in the
list it registers in where its coroutine stays suspended, and as often as
before otherwise. -/

/-- `c'` is `c` but for the handle and the outcome. -/
def Completion.Same (c c' : Completion) : Prop :=
  c'.op = c.op ∧ c'.deadline = c.deadline

/-- It registers where its completion says, which the handle and the outcome
are no part of. -/
theorem slot_of_same {s : State} {id : RetrierId} {c c' : Completion}
    (hc : s.completions id = some c') (h : c.Same c') : (s.view id).slot = c.op.slot := by
  unfold View.slot
  rw [view_completion, hc]
  exact congrArg Op.slot h.1

namespace Op

/-- The answer to the first try, in `await_suspend`, leaves the coroutine
suspended. -/
def awaits (op : Op) (r : Sys) : Bool :=
  match op with
  | .connect _ => r.ret ≠ 0 && r.errno = EINPROGRESS
  | .readReady _ | .writeReady _ => true
  | _ => op.waits r

end Op

/-- The stage of a completion whose coroutine stays suspended, or not. -/
def stageOf (waits : Bool) : Stage := if waits then .suspended else .finished

section Self

variable (s : State) (id i : RetrierId) (c : Completion) (r : Sys) (h : Handle)
  (fd : SocketDescriptor) (d : Side)

@[simp] theorem count_insertTimeout :
    ((insertTimeout s id c).view i).count = (s.view i).count := by
  simp [State.view, State.registered]

@[simp] theorem count_cancelTimeout :
    ((cancelTimeout s id c).view i).count = (s.view i).count := by
  simp [State.view, State.registered]

theorem count_pushRequest_self (fd' : SocketDescriptor) (d' : Side) :
    ((pushRequest s fd d id).view id).count fd' d'
      = (s.view id).count fd' d' + if some (fd, d) = some (fd', d') then 1 else 0 := by
  rw [view_pushRequest_self]
  simp [eq_comm]

theorem count_registerAgain_self : ((registerAgain s id c).view id).count fd d
    = (s.view id).count fd d + if c.op.slot = some (fd, d) then 1 else 0 := by
  unfold registerAgain
  cases hs : c.op.slot with
  | none => simp
  | some p =>
    obtain ⟨fd', d'⟩ := p
    cases c.op <;> simp only [count_insertTimeout, count_pushRequest_self]

theorem count_tryOrResume_self : ((tryOrResume s id c r).1.view id).count fd d
    = (s.view id).count fd d
      + if c.op.waits r = true ∧ c.op.slot = some (fd, d) then 1 else 0 := by
  rw [tryOrResume_eq]
  split
  case isTrue hw =>
    rw [view_returnNoop, if_pos rfl, count_registerAgain_self, view_called]
    simp [hw]
  case isFalse hw =>
    rw [cancelTimeoutThenResume, view_returnHandle, if_pos rfl, count_cancelTimeout,
      view_called]
    simp [hw]

theorem completion_tryOrResume_self :
    ∃ c', (tryOrResume s id c r).1.completions id = some c' ∧ c.Same c' := by
  rw [← view_completion, tryOrResume_eq]
  split
  · rw [view_returnNoop, if_pos rfl]
    exact ⟨c, rfl, rfl, rfl⟩
  · rw [cancelTimeoutThenResume, view_returnHandle, if_pos rfl]
    exact ⟨_, rfl, rfl, rfl⟩

theorem stage_tryOrResume_self :
    (tryOrResume s id c r).1.stage id = stageOf (c.op.waits r) := by
  rw [← view_stage, tryOrResume_eq]
  cases hw : c.op.waits r with
  | true => simp [view_returnNoop, stageOf]
  | false => simp [cancelTimeoutThenResume, view_returnHandle, stageOf]

/-- A retry that leaves the coroutine suspended leaves its deadline filed,
and one that hands it back cancels it. Only a connect does otherwise. -/
theorem keys_tryOrResume_self (hc : ∀ fd, c.op ≠ .connect fd) :
    ((tryOrResume s id c r).1.view id).keys
      = if c.op.waits r = true ∨ c.deadline = none then (s.view id).keys
        else (s.view id).keys.tail := by
  rw [tryOrResume_eq]
  cases hw : c.op.waits r with
  | true =>
    have hk : ((registerAgain (called s id c.op r) id c).view id).keys
        = (s.view id).keys := by
      rw [← view_called s id id r c.op]
      unfold registerAgain
      cases hs : c.op.slot with
      | none => rfl
      | some p =>
        cases ho : c.op with
        | connect fd => exact absurd ho (hc fd)
        | _ => rfl
    simp [view_returnNoop, hk]
  | false =>
    rw [if_neg Bool.false_ne_true, cancelTimeoutThenResume, view_returnHandle,
      if_pos rfl, view_cancelTimeout_self, view_called]
    cases hd : c.deadline <;> simp

theorem count_awaitSuspend_self : ((awaitSuspend s id c h r).1.view id).count fd d
    = (s.view id).count fd d
      + if c.op.awaits r = true ∧ c.op.slot = some (fd, d) then 1 else 0 := by
  rcases awaitSuspend_cases s id c r h _ rfl with
    ⟨fd', ho, he⟩ | ⟨fd', d', ho, hs, he⟩ | ⟨ho, he⟩
  · rw [he, ho]
    by_cases h₁ : r.ret = 0 <;> by_cases h₂ : r.errno = EINPROGRESS <;>
      simp [connectAwaitSuspend, view_returnHandle, view_returnNoop,
        count_pushRequest_self, Op.awaits, Op.slot, h₁, h₂]
  · have ha : c.op.awaits r = true := by rcases ho with ho | ho <;> rw [ho] <;> rfl
    rw [he, readyAwaitSuspend, view_returnNoop, if_pos rfl, hs]
    simp [count_pushRequest_self, ha]
  · have ha : c.op.awaits r = c.op.waits r := by
      unfold Op.awaits
      cases hop : c.op with
      | connect fd => exact absurd hop (ho fd).1
      | readReady fd => exact absurd hop (ho fd).2.1
      | writeReady fd => exact absurd hop (ho fd).2.2
      | _ => rfl
    rw [he, count_tryOrResume_self, count_insertTimeout, ha]

theorem completion_awaitSuspend_self :
    ∃ c', (awaitSuspend s id c h r).1.completions id = some c' ∧ c.Same c' := by
  rcases awaitSuspend_cases s id c r h _ rfl with
    ⟨fd, -, he⟩ | ⟨fd, d, -, -, he⟩ | ⟨-, he⟩
  · rw [← view_completion, he]
    unfold connectAwaitSuspend
    split_ifs <;> simp [view_returnHandle, view_returnNoop, Completion.Same]
  · rw [← view_completion, he, readyAwaitSuspend, view_returnNoop, if_pos rfl]
    exact ⟨_, rfl, rfl, rfl⟩
  · rw [he]
    obtain ⟨c', hc', hop, hd⟩ := completion_tryOrResume_self
      (insertTimeout s id { c with handle := some h }) id { c with handle := some h } r
    exact ⟨c', hc', hop, hd⟩

theorem count_iopTimedout_self : ((iopTimedout s id c).1.view id).count fd d
    = if c.op.slot = some (fd, d) then
        if c.op = .sleep then (s.view id).count fd d else 0
      else (s.view id).count fd d := by
  unfold iopTimedout
  cases ho : c.op <;>
    simp [view_returnHandle, view_cancelIop_self, Op.slot, ho]

theorem completion_iopTimedout_self :
    ∃ c', (iopTimedout s id c).1.completions id = some c' ∧ c.Same c' := by
  rw [← view_completion]
  unfold iopTimedout
  split
  · rw [view_returnHandle, if_pos rfl]
    exact ⟨c, rfl, rfl, rfl⟩
  · rw [view_returnHandle, if_pos rfl]
    exact ⟨_, rfl, rfl, rfl⟩

@[simp] theorem stage_iopTimedout_self : (iopTimedout s id c).1.stage id = .finished := by
  rw [← view_stage]
  unfold iopTimedout
  split <;> rw [view_returnHandle, if_pos rfl]

end Self

end PollWarden
