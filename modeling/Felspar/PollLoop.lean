import Felspar.PollWarden

/-!
# The loop of the poll warden

`run_until`, `run_batch` and what they call, from `poll.warden.cpp`, as a
step function on the state of the warden. Between two steps either a
coroutine runs, and the next event is something it does to the warden, or
the loop is at one of its points, and the next event is what the operating
system answers there.

A coroutine that runs may enter the loop again, so the calls of the loop
that are active form a stack. The nested call works on the same containers
as the outer one, and on the same two vectors the outer one iterates over:
`bookkeeping->continuations`, whose iterators a nested pass invalidates by
clearing it, and the vectors of the resumption queue, which a nested
`resume_all` swaps.
-/

namespace PollWarden

/-! ## Timers -/

/-- The value `clear_timeouts` returns when the first deadline is `t` and
the clock reads `now`, if that deadline is not due. -/
def clearTimeoutsResult (t now : TimePoint) : Option Int :=
  let tdiff := chronoSub t now
  if tdiff < oneMillisecond then none else some (toInt (durationCastMs tdiff))

/-! ## The answer of `::poll` -/

/-- The `revents` of a descriptor. -/
structure Revents where
  pollin : Bool := false
  pollout : Bool := false
  pollerr : Bool := false
  pollhup : Bool := false
  pollnval : Bool := false
  deriving DecidableEq

/-- `revents & (POLLIN | POLLHUP | POLLERR | POLLNVAL)`, and
`revents & (POLLOUT | POLLERR | POLLNVAL)`. -/
def Revents.wakes (e : Revents) : Side → Bool
  | .reads => e.pollin || e.pollhup || e.pollerr || e.pollnval
  | .writes => e.pollout || e.pollerr || e.pollnval

/-- **An answer of `::poll`**: what it returns, `errno`, and the `revents`
of the descriptors it was given. -/
structure PollAnswer where
  ret : Int
  errno : Int := 0
  revents : SocketDescriptor → Revents := fun _ => {}

/-- An entry of `bookkeeping->iops`: a descriptor and the events requested
for it. -/
structure PollFd where
  fd : SocketDescriptor
  pollin : Bool
  pollout : Bool
  deriving DecidableEq

/-- The vector `do_poll` passes to `::poll`: the wake-up pipe, then every
key of `requests`. -/
def pollFds (s : State) : List PollFd :=
  { fd := s.wakeFd, pollin := true, pollout := false } ::
    s.requests.keys.map (fun fd =>
      { fd := fd
        pollin := !(s.requests.get fd).reads.isEmpty
        pollout := !(s.requests.get fd).writes.isEmpty })

/-! ## Collecting the continuations -/

/-- `drain_wakeup`: read until the pipe is empty. -/
def drainWakeup (s : State) : State := { s with wakeup := 0 }

/-- Move one list of `requests[fd]` to the end of the continuations. -/
def collectSide (s : State) (fd : SocketDescriptor) (d : Side) : State :=
  { s.modifyRequests fd d (fun _ => []) with
    continuations := s.continuations ++ (s.requests.get fd).side d }

/-- One round of the collecting loop: an entry that is the wake-up pipe
drains it, and any other moves its readers and its writers as `revents`
says. -/
def collectFd (revents : SocketDescriptor → Revents) (s : State)
    (fd : SocketDescriptor) : State :=
  if fd = s.wakeFd then
    if (revents fd).pollin then drainWakeup s else s
  else
    let s := if (revents fd).wakes .reads then collectSide s fd .reads else s
    if (revents fd).wakes .writes then collectSide s fd .writes else s

/-- `bookkeeping->continuations.clear()` -/
def clearContinuations (s : State) : State :=
  { s with continuations := [], generation := s.generation + 1 }

/-- The collecting loop, over the vector that was passed to `::poll`. -/
def collect (s : State) (revents : SocketDescriptor → Revents) : State :=
  ((pollFds s).map PollFd.fd).foldl (collectFd revents) (clearContinuations s)

/-! ## Waking -/

/-- `wake_event_loop`: write a byte to the wake-up pipe. Whether `::write`
takes it is `written`. -/
def wakeEventLoop (s : State) (written : Bool) : State :=
  if written then { s with wakeup := s.wakeup + 1 } else s

/-- `do_async_resume`: wake only when the queue was empty. -/
def doAsyncResume (s : State) (handles : List (Option Handle)) (written : Bool) :
    State :=
  let wasEmpty := !s.resumer.hasRequests
  let q := s.resumer.queue handles
  let s := { s with
    resumer := q.1
    trace := (handles.reduceOption.map Obs.queued).reverse ++ s.trace }
  if q.2 && wasEmpty then wakeEventLoop s written else s

/-! ## The steps -/

/-- What a coroutine does to the warden, and what the operating system
answers the loop. -/
inductive Event
  /-- A coroutine calls the API that creates an IOP. -/
  | create (call : Call)
  /-- A coroutine awaits an IOP, and its system call answers `r`. -/
  | await (id : RetrierId) (h : Handle) (r : Sys)
  /-- An IOP is destructed. -/
  | destroy (id : RetrierId)
  /-- A coroutine calls `async_resume`; `written` is whether the wake-up
  byte, if there is one to write, is taken by the pipe. -/
  | asyncResume (handles : List (Option Handle)) (written : Bool)
  /-- A coroutine, or the program outside the loop, calls `run`. -/
  | runUntil (coro : Handle)
  /-- The same for `run_batch`. -/
  | runBatch
  /-- The coroutine a loop resumed suspends, and control is back in it. -/
  | suspend
  /-- `clear_timeouts` reads the clock; `done` is whether the coroutine of
  `run_until` is done, should the call return. -/
  | clock (now : TimePoint) (done : Bool)
  /-- `::poll` answers. -/
  | poll (answer : PollAnswer)
  /-- The continuation loop goes on, and the system call of the retrier it
  retries, if there is one, answers `r`. -/
  | retry (r : Sys)
  /-- The loop of `resume_all` goes on. -/
  | resumeNext

/-- The coroutine or program on top of the stack is running. -/
def Point.userRuns : Point → Bool
  | .coroResume | .timedOut | .retried _ _ | .resumed _ => true
  | _ => false

/-- A coroutine runs, or the program outside every loop does. -/
def State.userRuns (s : State) : Bool :=
  match s.frames with
  | [] => true
  | f :: _ => f.point.userRuns

/-- Where the innermost loop goes on. -/
def State.goto (s : State) (p : Point) : State :=
  match s.frames with
  | [] => s
  | f :: fs => { s with frames := { f with point := p } :: fs }

/-- The innermost loop returns, or is left by an exception. -/
def State.leave (s : State) : State := { s with frames := s.frames.tail }

/-- The warden follows a pointer it must not follow. -/
def State.fail (s : State) (x : Fault) : State := { s with fault := some x }

/-- The point after the resumption `t`: the coroutine runs, or nothing does
and the loop goes on. -/
def afterTransfer (s : State × Transfer) (running idle : Point) : State :=
  match s.2 with
  | .resume _ => s.1.goto running
  | .noop => s.1.goto idle

/-- `clear_timeouts` returns `t`: `run_until` returns as well if its
coroutine is done, and `run_batch` polls without waiting. -/
def clearTimeoutsReturns (s : State) (f : Frame) (t : Int) (done : Bool) : State :=
  match f.coro with
  | some _ => if done then s.leave else s.goto (.doPoll t)
  | none => s.goto (.doPoll 0)

/-- One evaluation of the condition of `clear_timeouts`, and its body. -/
def clearTimeouts (s : State) (f : Frame) (now : TimePoint) (done : Bool) : State :=
  match s.timeouts.entries with
  | [] => clearTimeoutsReturns s f (-1) done
  | (t, id) :: _ =>
    match clearTimeoutsResult t now with
    | some ms => clearTimeoutsReturns s f ms done
    | none =>
      -- `clear_timeouts` erases the entry before it times the retrier out
      let s := { s with timeouts := s.timeouts.eraseBegin }
      match s.completions id with
      | none => s.fail (.timedOutDeleted id)
      | some c => afterTransfer (iopTimedout s id c) .timedOut .clearTimeouts

/-- `do_poll` returns, and `resume_all` begins. -/
def doPollReturns (s : State) : State :=
  { s with resumer := s.resumer.swap }.goto (.resumeAll s.resumer.queued)

/-- `do_poll`, once `::poll` has answered. Its error is an exception that
leaves the loop, unless a signal interrupted it. -/
def doPoll (s : State) (a : PollAnswer) : State :=
  if a.ret < 0 then
    -- interrupted by a signal, it goes on as if nothing had been reported
    if a.errno = EINTR then doPollReturns s else s.leave
  else if 0 < a.ret then
    let s := collect s a.revents
    s.goto (.continuations s.generation s.continuations)
  else doPollReturns s

/-- One round of the continuation loop of `do_poll`. -/
def retryNext (s : State) (generation : ℕ) (rest : List RetrierId) (r : Sys) :
    State :=
  match rest with
  | [] => doPollReturns s
  | id :: rest =>
    -- another `do_poll` has cleared the vector this one iterates over
    if generation ≠ s.generation then s.fail .invalidIterator
    else match s.completions id with
      | none => s.fail (.retriedDeleted id)
      | some c =>
        afterTransfer (tryOrResume (s.observe (.retried id)) id c r)
          (.retried generation rest) (.continuations generation rest)

/-- One round of the loop of `resume_all`, which ends with the vector
cleared and the loop in its next round. -/
def resumeAllNext (s : State) (f : Frame) (rest : List Handle) : State :=
  match rest with
  | [] =>
    let s := { s with resumer := s.resumer.clearResuming }
    match f.coro with
    | some _ => s.goto .clearTimeouts
    | none => s.leave
  | h :: rest => (s.observe (.handle h)).goto (.resumed rest)

/-- Where a loop goes on when the coroutine it resumed suspends. -/
def Point.afterSuspend : Point → Option Point
  | .coroResume => some .clearTimeouts
  | .timedOut => some .clearTimeouts
  | .retried g rest => some (.continuations g rest)
  | .resumed rest => some (.resumeAll rest)
  | _ => none

/-- What a coroutine that runs does to the warden. -/
def userStep (s : State) : Event → Option State
  | .create call => some (createIop s call)
  | .await id h r => (s.completions id).map (fun c => (awaitSuspend s id c h r).1)
  | .destroy id => (s.completions id).map (fun c => iopDestructed s id c)
  | .asyncResume handles written => some (doAsyncResume s handles written)
  | .runUntil coro => some { s with frames := ⟨some coro, .coroResume⟩ :: s.frames }
  | .runBatch => some { s with frames := ⟨none, .clearTimeouts⟩ :: s.frames }
  | .suspend => s.frames.head?.bind (fun f => f.point.afterSuspend.map s.goto)
  | _ => none

/-- What the innermost loop does with an answer. -/
def loopStep (s : State) (f : Frame) : Event → Option State
  | .clock now done =>
    if f.point = .clearTimeouts then some (clearTimeouts s f now done) else none
  | .poll a => match f.point with
    | .doPoll _ => some (doPoll s a)
    | _ => none
  | .retry r => match f.point with
    | .continuations g rest => some (retryNext s g rest r)
    | _ => none
  | .resumeNext => match f.point with
    | .resumeAll rest => some (resumeAllNext s f rest)
    | _ => none
  | _ => none

/-- **A step of the poll warden.** Once it has followed a pointer it must
not follow there are no more. -/
def step (s : State) (e : Event) : Option State :=
  if s.fault ≠ none then none
  else match s.frames with
    | [] => userStep s e
    | f :: _ => if f.point.userRuns then userStep s e else loopStep s f e

/-! ## The frames

The innermost loop goes from point to point, and nothing else of the state
changes with it. -/

/-- The retriers a point of the loop has still to retry. -/
def Point.pending : Point → List RetrierId
  | .continuations _ rest | .retried _ rest => rest
  | _ => []

/-- The generation of the vector a point of the loop iterates over. -/
def Point.generation : Point → Option ℕ
  | .continuations g _ | .retried g _ => some g
  | _ => none

/-- Suspending leaves a loop with what it had still to retry. -/
theorem Point.pending_afterSuspend {p q : Point} (h : p.afterSuspend = some q) :
    q.pending = p.pending := by
  cases p <;> cases h <;> rfl

theorem Point.generation_afterSuspend {p q : Point} (h : p.afterSuspend = some q) :
    q.generation = p.generation := by
  cases p <;> cases h <;> rfl

/-- The frames after the innermost loop has gone on. -/
def gotoFrames (p : Point) : List Frame → List Frame
  | [] => []
  | f :: fs => { f with point := p } :: fs

section Frames

variable (s : State) (p q : Point) (st : State × Transfer)

theorem goto_eq : s.goto p = { s with frames := gotoFrames p s.frames } := by
  obtain ⟨_, _, _, _, _, _, _, _, _, frames, _, _, _⟩ := s
  cases frames <;> rfl

/-- After a transfer the innermost loop is at one of two points. -/
theorem afterTransfer_eq : ∃ p', (p' = p ∨ p' = q) ∧ afterTransfer st p q = st.1.goto p' := by
  unfold afterTransfer
  cases st.2 with
  | noop => exact ⟨q, Or.inr rfl, rfl⟩
  | resume h => exact ⟨p, Or.inl rfl, rfl⟩

/-- **`async_resume` queues the handles**, and writes to the wake-up pipe at
most. -/
theorem doAsyncResume_eq (handles : List (Option Handle)) (written : Bool) :
    ∃ n, doAsyncResume s handles written = { s with
      resumer := (s.resumer.queue handles).1
      wakeup := n
      trace := (handles.reduceOption.map Obs.queued).reverse ++ s.trace } := by
  unfold doAsyncResume wakeEventLoop
  dsimp only
  split_ifs <;> exact ⟨_, rfl⟩

/-- Returning from `clear_timeouts` leaves the loop, or polls. -/
theorem clearTimeoutsReturns_eq (f : Frame) (t : Int) (done : Bool) :
    clearTimeoutsReturns s f t done = s.leave
      ∨ ∃ t', clearTimeoutsReturns s f t done = s.goto (.doPoll t') := by
  unfold clearTimeoutsReturns
  split
  · split
    · exact Or.inl rfl
    · exact Or.inr ⟨_, rfl⟩
  · exact Or.inr ⟨_, rfl⟩

end Frames

/-! ## What a step can do -/

/-- **The steps, one by one**: the event, what the state was for it to be
possible, and the state after it. -/
inductive Stepped (s : State) : Event → State → Prop
  | create (hu : s.userRuns = true) (call : Call) :
      Stepped s (.create call) (createIop s call)
  | await (hu : s.userRuns = true) {id : RetrierId} {c : Completion}
      (hc : s.completions id = some c) (h : Handle) (r : Sys) :
      Stepped s (.await id h r) (awaitSuspend s id c h r).1
  | destroy (hu : s.userRuns = true) {id : RetrierId} {c : Completion}
      (hc : s.completions id = some c) : Stepped s (.destroy id) (iopDestructed s id c)
  | asyncResume (hu : s.userRuns = true) (handles : List (Option Handle))
      (written : Bool) :
      Stepped s (.asyncResume handles written) (doAsyncResume s handles written)
  | runUntil (hu : s.userRuns = true) (coro : Handle) :
      Stepped s (.runUntil coro)
        { s with frames := ⟨some coro, .coroResume⟩ :: s.frames }
  | runBatch (hu : s.userRuns = true) :
      Stepped s .runBatch { s with frames := ⟨none, .clearTimeouts⟩ :: s.frames }
  | suspend {f : Frame} {fs : List Frame} (hf : s.frames = f :: fs) {p : Point}
      (hp : f.point.afterSuspend = some p) : Stepped s .suspend (s.goto p)
  | clock {f : Frame} {fs : List Frame} (hf : s.frames = f :: fs)
      (hp : f.point = .clearTimeouts) (now : TimePoint) (done : Bool) :
      Stepped s (.clock now done) (clearTimeouts s f now done)
  | poll {f : Frame} {fs : List Frame} (hf : s.frames = f :: fs) {t : Int}
      (hp : f.point = .doPoll t) (a : PollAnswer) : Stepped s (.poll a) (doPoll s a)
  | retry {f : Frame} {fs : List Frame} (hf : s.frames = f :: fs) {g : ℕ}
      {rest : List RetrierId} (hp : f.point = .continuations g rest) (r : Sys) :
      Stepped s (.retry r) (retryNext s g rest r)
  | resumeNext {f : Frame} {fs : List Frame} (hf : s.frames = f :: fs)
      {rest : List Handle} (hp : f.point = .resumeAll rest) :
      Stepped s .resumeNext (resumeAllNext s f rest)

theorem stepped_of_userStep {s s' : State} {e : Event} (hu : s.userRuns = true)
    (h : userStep s e = some s') : Stepped s e s' := by
  cases e with
  | create call => exact Option.some.inj h ▸ Stepped.create hu call
  | await id a r =>
    obtain ⟨c, hc, rfl⟩ := Option.map_eq_some_iff.mp h
    exact Stepped.await hu hc a r
  | destroy id =>
    obtain ⟨c, hc, rfl⟩ := Option.map_eq_some_iff.mp h
    exact Stepped.destroy hu hc
  | asyncResume handles written =>
    exact Option.some.inj h ▸ Stepped.asyncResume hu handles written
  | runUntil coro => exact Option.some.inj h ▸ Stepped.runUntil hu coro
  | runBatch => exact Option.some.inj h ▸ Stepped.runBatch hu
  | suspend =>
    obtain ⟨f, hf, h⟩ := Option.bind_eq_some_iff.mp h
    obtain ⟨p, hp, rfl⟩ := Option.map_eq_some_iff.mp h
    obtain ⟨fs, hfs⟩ := List.head?_eq_some_iff.mp hf
    exact Stepped.suspend hfs hp
  | _ => exact absurd h (by simp [userStep])

theorem stepped_of_loopStep {s s' : State} {e : Event} {f : Frame} {fs : List Frame}
    (hf : s.frames = f :: fs) (h : loopStep s f e = some s') : Stepped s e s' := by
  cases e with
  | clock now done =>
    by_cases hp : f.point = .clearTimeouts
    · simp only [loopStep, if_pos hp] at h
      exact Option.some.inj h ▸ Stepped.clock hf hp now done
    · simp [loopStep, if_neg hp] at h
  | poll a =>
    cases hp : f.point with
    | doPoll t =>
      simp only [loopStep, hp] at h
      exact Option.some.inj h ▸ Stepped.poll hf hp a
    | _ => simp [loopStep, hp] at h
  | retry r =>
    cases hp : f.point with
    | continuations g rest =>
      simp only [loopStep, hp] at h
      exact Option.some.inj h ▸ Stepped.retry hf hp r
    | _ => simp [loopStep, hp] at h
  | resumeNext =>
    cases hp : f.point with
    | resumeAll rest =>
      simp only [loopStep, hp] at h
      exact Option.some.inj h ▸ Stepped.resumeNext hf hp
    | _ => simp [loopStep, hp] at h
  | _ => exact absurd h (by simp [loopStep])

/-- **Every step is one of them**, and is taken in a state without a
fault. -/
theorem stepped_of_step {s s' : State} {e : Event} (h : step s e = some s') :
    s.fault = none ∧ Stepped s e s' := by
  unfold step at h
  split at h
  case isTrue hx => exact absurd h (by simp)
  case isFalse hx =>
    refine ⟨not_not.mp hx, ?_⟩
    split at h
    case h_1 hf => exact stepped_of_userStep (by simp [State.userRuns, hf]) h
    case h_2 f fs hf =>
      split at h
      case isTrue hu => exact stepped_of_userStep (by simpa [State.userRuns, hf] using hu) h
      case isFalse hu => exact stepped_of_loopStep hf h

/-- **What `clear_timeouts` comes to**, once it has read the clock: it
returns, which leaves the loop or has it poll, or the first completion of
`timeouts` is timed out. -/
inductive ClearedTimeouts (s : State) (now : TimePoint) : State → Prop
  | leaves (hkeep : ∀ t id l, s.timeouts.entries = (t, id) :: l →
      clearTimeoutsResult t now ≠ none) : ClearedTimeouts s now s.leave
  | polls (hkeep : ∀ t id l, s.timeouts.entries = (t, id) :: l →
      clearTimeoutsResult t now ≠ none) (t : Int) : ClearedTimeouts s now (s.goto (.doPoll t))
  | fails {t : TimePoint} {id : RetrierId} {l : List (TimePoint × RetrierId)}
      (he : s.timeouts.entries = (t, id) :: l) (hdue : clearTimeoutsResult t now = none)
      (hc : s.completions id = none) : ClearedTimeouts s now
        (({ s with timeouts := s.timeouts.eraseBegin } : State).fail (.timedOutDeleted id))
  | timesOut {t : TimePoint} {id : RetrierId} {l : List (TimePoint × RetrierId)}
      {c : Completion} (he : s.timeouts.entries = (t, id) :: l)
      (hdue : clearTimeoutsResult t now = none) (hc : s.completions id = some c) {p : Point}
      (hp : p = .timedOut ∨ p = .clearTimeouts) :
      ClearedTimeouts s now
        ((iopTimedout { s with timeouts := s.timeouts.eraseBegin } id c).1.goto p)

theorem clearedTimeouts (s : State) (f : Frame) (now : TimePoint) (done : Bool) :
    ClearedTimeouts s now (clearTimeouts s f now done) := by
  unfold clearTimeouts
  split
  · rename_i he
    have hkeep : ∀ t id l, s.timeouts.entries = (t, id) :: l →
        clearTimeoutsResult t now ≠ none := by
      intro t id l h
      rw [he] at h
      exact absurd h (by simp)
    rcases clearTimeoutsReturns_eq s f (-1) done with h | ⟨t, h⟩
    · exact h ▸ ClearedTimeouts.leaves hkeep
    · exact h ▸ ClearedTimeouts.polls hkeep t
  · rename_i t id l he
    split
    · rename_i ms hms
      have hkeep : ∀ t id l, s.timeouts.entries = (t, id) :: l →
          clearTimeoutsResult t now ≠ none := by
        intro t' id' l' h
        rw [he] at h
        obtain ⟨⟨rfl, -⟩, -⟩ : (t = t' ∧ id = id') ∧ l = l' := by simpa using h
        rw [hms]
        simp
      rcases clearTimeoutsReturns_eq s f ms done with h | ⟨t, h⟩
      · exact h ▸ ClearedTimeouts.leaves hkeep
      · exact h ▸ ClearedTimeouts.polls hkeep t
    · rename_i hdue
      dsimp only
      split
      · exact ClearedTimeouts.fails he hdue ‹_›
      · obtain ⟨p, hp, h⟩ := afterTransfer_eq .timedOut .clearTimeouts
          (iopTimedout { s with timeouts := s.timeouts.eraseBegin } id _)
        exact h ▸ ClearedTimeouts.timesOut he hdue ‹_› hp

/-- **What a round of the continuation loop comes to**: the loop ends, follows
a pointer it must not follow, or retries the next completion. -/
inductive RetriedNext (s : State) (g : ℕ) (r : Sys) : List RetrierId → State → Prop
  | returns : RetriedNext s g r [] (doPollReturns s)
  | fails (id : RetrierId) (rest : List RetrierId) (x : Fault)
      (hx : g ≠ s.generation ∨ s.completions id = none) :
      RetriedNext s g r (id :: rest) (s.fail x)
  | retries {id : RetrierId} {rest : List RetrierId} {c : Completion} (hg : g = s.generation)
      (hc : s.completions id = some c) {p : Point}
      (hp : p = .retried g rest ∨ p = .continuations g rest) :
      RetriedNext s g r (id :: rest) ((tryOrResume (s.observe (.retried id)) id c r).1.goto p)

theorem retriedNext (s : State) (g : ℕ) (rest : List RetrierId) (r : Sys) :
    RetriedNext s g r rest (retryNext s g rest r) := by
  unfold retryNext
  split
  · exact RetriedNext.returns
  · rename_i id rest
    split
    · exact RetriedNext.fails id rest _ (Or.inl ‹_›)
    · rename_i hg
      split
      · exact RetriedNext.fails id rest _ (Or.inr ‹_›)
      · obtain ⟨p, hp, h⟩ := afterTransfer_eq (.retried g rest) (.continuations g rest)
          (tryOrResume (s.observe (.retried id)) id _ r)
        exact h ▸ RetriedNext.retries (not_not.mp hg) ‹_› hp

/-- **What an answer of `::poll` comes to**: `do_poll` returns, its error
leaves the loop, or what is reported is collected. -/
inductive Polled (s : State) (a : PollAnswer) : State → Prop
  | returns (ha : a.ret = 0 ∨ a.ret < 0 ∧ a.errno = EINTR) : Polled s a (doPollReturns s)
  | throws (ha : a.ret < 0) (he : a.errno ≠ EINTR) : Polled s a s.leave
  | collects (ha : 0 < a.ret) : Polled s a ((collect s a.revents).goto
      (.continuations (collect s a.revents).generation (collect s a.revents).continuations))

theorem polled (s : State) (a : PollAnswer) : Polled s a (doPoll s a) := by
  unfold doPoll
  split_ifs with hneg he hpos
  · exact Polled.returns (Or.inr ⟨hneg, he⟩)
  · exact Polled.throws hneg he
  · exact Polled.collects hpos
  · exact Polled.returns (Or.inl (le_antisymm (not_lt.mp hpos) (not_lt.mp hneg)))

/-- What is reported is collected, and retried. -/
theorem doPoll_of_pos (s : State) {a : PollAnswer} (ha : 0 < a.ret) :
    doPoll s a = (collect s a.revents).goto
      (.continuations (collect s a.revents).generation (collect s a.revents).continuations) := by
  rw [doPoll, if_neg (not_lt.mpr (le_of_lt ha)), if_pos ha]

/-- **What a round of `resume_all` comes to**: it ends, which leaves the loop
or begins its next round, or resumes the next handle. -/
inductive ResumedAllNext (s : State) (f : Frame) : List Handle → State → Prop
  | again {coro : Handle} (hf : f.coro = some coro) : ResumedAllNext s f []
      (({ s with resumer := s.resumer.clearResuming } : State).goto .clearTimeouts)
  | leaves (hf : f.coro = none) : ResumedAllNext s f []
      ({ s with resumer := s.resumer.clearResuming } : State).leave
  | resumes (h : Handle) (rest : List Handle) :
      ResumedAllNext s f (h :: rest) ((s.observe (.handle h)).goto (.resumed rest))

theorem resumedAllNext (s : State) (f : Frame) (rest : List Handle) :
    ResumedAllNext s f rest (resumeAllNext s f rest) := by
  unfold resumeAllNext
  split
  · dsimp only
    split
    · exact ResumedAllNext.again ‹_›
    · exact ResumedAllNext.leaves ‹_›
  · exact ResumedAllNext.resumes _ _

/-! ## Collecting -/

/-- **The rule of the collecting loop**: what holds once the vector has been
cleared, and is kept by draining the pipe and by moving one list, holds when
the continuations have been collected. -/
theorem collect_rule {P : State → Prop} {s : State}
    (revents : SocketDescriptor → Revents) (hclear : P (clearContinuations s))
    (hdrain : ∀ s, P s → P (drainWakeup s))
    (hside : ∀ s fd d, P s → P (collectSide s fd d)) : P (collect s revents) := by
  unfold collect
  generalize (pollFds s).map PollFd.fd = fds
  generalize clearContinuations s = s₀ at hclear
  induction fds generalizing s₀ with
  | nil => exact hclear
  | cons fd fds ih =>
    refine ih _ ?_
    unfold collectFd
    split
    · split
      · exact hdrain _ hclear
      · exact hclear
    · have hreads : P (if (revents fd).wakes .reads then collectSide s₀ fd .reads
          else s₀) := by
        split
        · exact hside _ _ _ hclear
        · exact hclear
      dsimp only
      split
      · exact hside _ _ _ hreads
      · exact hreads

end PollWarden
