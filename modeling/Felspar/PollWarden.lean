import Felspar.Basic
import Felspar.OrderedMaps
import Felspar.Runs

/-!
# The poll warden

`poll_warden` is an event loop on `::poll`. Its state is two containers of
pointers to suspended completions – `requests`, by descriptor and direction,
and `timeouts`, by deadline – together with the wake-up pipe, the queue of
deferred resumptions and the bookkeeping of the running pass. This module
embeds the IOPs of `poll.iops.cpp` and the completion they share from
`poll.hpp`; the loop is `Felspar.PollLoop`.

A completion is known by a number, which stands for its address: `retrier *`
is a `RetrierId`. `completions` holds the completions that have not been
deleted, so following a pointer is a lookup that can fail, and a lookup that
fails is a use after deletion. Numbers are not used twice.

Coroutines are not part of the model. What they do to the warden – create an
IOP, await it, destroy it, queue a resumption, enter the loop – are the
events of the loop, in any order, and what a system call answers them is
part of the event. `trace` records what passes between the warden and its
surroundings, newest first, and `stage` where each completion is in its
life; both are there to state theorems with, and no function of the warden
reads them.
-/

/-- A `retrier *`, which is also the address of the completion. -/
abbrev RetrierId := ℕ

namespace PollWarden

/-! ## Completions -/

/-- The concrete completion types, with what they need to perform the
operation. The buffer of a read or a write counts by its size, and the
address of a connect not at all. -/
inductive Op
  | close (fd : SocketDescriptor)
  | sleep
  | readSome (fd : SocketDescriptor) (size : ℕ)
  | writeSome (fd : SocketDescriptor) (size : ℕ)
  | accept (fd : SocketDescriptor)
  | connect (fd : SocketDescriptor)
  | readReady (fd : SocketDescriptor)
  | writeReady (fd : SocketDescriptor)
  deriving DecidableEq

/-- The two lists of a `request`. -/
inductive Side
  | reads
  | writes
  deriving DecidableEq

/-- `poll_warden::completion<R>`. The handle is null until the completion is
awaited. -/
structure Completion where
  op : Op
  deadline : Option TimePoint := none
  handle : Option Handle := none
  result : Outcome := {}
  deriving DecidableEq

/-- Where the coroutine awaiting a completion is. -/
inductive Stage
  /-- The completion has not been awaited. -/
  | created
  /-- The coroutine is suspended on it. -/
  | suspended
  /-- The coroutine has been handed back for resumption. -/
  | finished
  /-- The completion has been deleted. -/
  | deleted
  deriving DecidableEq

/-- What a `try_or_resume` or an `await_suspend` returns: the no-op
coroutine, or the handle of the awaiting coroutine. -/
inductive Transfer
  | noop
  | resume (handle : Option Handle)
  deriving DecidableEq

/-- `poll_warden::request` -/
structure Request where
  reads : List RetrierId := []
  writes : List RetrierId := []
  deriving DecidableEq, Inhabited

namespace Request

/-- The list of one side. -/
def side (r : Request) : Side → List RetrierId
  | .reads => r.reads
  | .writes => r.writes

/-- The request with the list of one side changed. -/
def modifySide (r : Request) (d : Side) (f : List RetrierId → List RetrierId) :
    Request :=
  match d with
  | .reads => { r with reads := f r.reads }
  | .writes => { r with writes := f r.writes }

@[simp] theorem side_modifySide_self (r : Request) (d : Side)
    (f : List RetrierId → List RetrierId) :
    (r.modifySide d f).side d = f (r.side d) := by cases d <;> rfl

@[simp] theorem side_modifySide_of_ne (r : Request) {d d' : Side} (h : d' ≠ d)
    (f : List RetrierId → List RetrierId) :
    (r.modifySide d f).side d' = r.side d' := by
  cases d <;> cases d' <;> first | rfl | exact absurd rfl h

@[simp] theorem side_default (d : Side) : (default : Request).side d = [] := by
  cases d <;> rfl

end Request

/-! ## The state -/

/-- What passes between the warden and its surroundings. -/
inductive Obs
  /-- The system call of a `try_or_resume`, by the operation it is for. -/
  | call (id : RetrierId) (op : Op) (answer : Sys)
  /-- The `::connect` of an `await_suspend`. -/
  | connect (id : RetrierId) (answer : Sys)
  /-- The coroutine awaiting a completion is resumed, with this outcome. -/
  | resumed (id : RetrierId) (outcome : Outcome)
  /-- The continuation loop of `do_poll` retries a completion. -/
  | retried (id : RetrierId)
  /-- A handle is queued for deferred resumption. -/
  | queued (h : Handle)
  /-- `resume_all` resumes a handle. -/
  | handle (h : Handle)
  deriving DecidableEq

/-- Pointers the warden must not follow. -/
inductive Fault
  /-- `do_poll` retries a completion that has been deleted. -/
  | retriedDeleted (id : RetrierId)
  /-- `clear_timeouts` times out a completion that has been deleted. -/
  | timedOutDeleted (id : RetrierId)
  /-- `do_poll` goes on with iterators into a vector that a nested pass has
  cleared. -/
  | invalidIterator
  deriving DecidableEq

/-- Where a call of `run_until` or `run_batch` is. In the points that name a
resumption the coroutine resumed there is running. -/
inductive Point
  /-- In the `coro.resume()` that `run_until` begins with. -/
  | coroResume
  /-- At the condition of the loop of `clear_timeouts`. -/
  | clearTimeouts
  /-- In the `iop_timedout().resume()` of that loop. -/
  | timedOut
  /-- About to call `::poll`. -/
  | doPoll (timeout : Int)
  /-- At the head of the continuation loop of `do_poll`, with the retriers
  left to retry and the number of times the vector had been cleared when
  the loop began. -/
  | continuations (generation : ℕ) (rest : List RetrierId)
  /-- In the `try_or_resume().resume()` of that loop. -/
  | retried (generation : ℕ) (rest : List RetrierId)
  /-- At the head of the loop of `resume_all`, with the handles left. -/
  | resumeAll (rest : List Handle)
  /-- In the `h.resume()` of that loop. -/
  | resumed (rest : List Handle)
  deriving DecidableEq

/-- A call of the loop: of `run_until` where it has a coroutine, and of
`run_batch` where it has none. -/
structure Frame where
  coro : Option Handle
  point : Point
  deriving DecidableEq

/-- **The state of a poll warden**, with the calls of its loop that are
active, innermost first. -/
structure State where
  /-- The completions that have not been deleted. -/
  completions : RetrierId → Option Completion
  /-- The number the next completion gets. -/
  next : RetrierId
  requests : SubscriptMap SocketDescriptor Request
  timeouts : Multimap TimePoint RetrierId
  /-- `bookkeeping->continuations` -/
  continuations : List RetrierId
  /-- How often `continuations` has been cleared, which invalidates the
  iterators into it. -/
  generation : ℕ
  /-- The read end of the wake-up pipe. -/
  wakeFd : SocketDescriptor
  /-- The bytes in the wake-up pipe. -/
  wakeup : ℕ
  resumer : AsyncResumption
  frames : List Frame
  fault : Option Fault
  stage : RetrierId → Stage
  trace : List Obs

/-- A warden that has just been constructed, with the descriptor of its
wake-up pipe. -/
def init (wakeFd : SocketDescriptor) : State where
  completions := fun _ => none
  next := 0
  requests := SubscriptMap.empty
  timeouts := Multimap.empty
  continuations := []
  generation := 0
  wakeFd := wakeFd
  wakeup := 0
  resumer := {}
  frames := []
  fault := none
  stage := fun _ => .created
  trace := []

namespace State

/-- Record an observation. -/
def observe (s : State) (o : Obs) : State := { s with trace := o :: s.trace }

/-- Replace a completion that exists. -/
def setCompletion (s : State) (id : RetrierId) (c : Completion) : State :=
  { s with completions := fun i => if i = id then some c else s.completions i }

/-- Record where a completion is in its life. -/
def setStage (s : State) (id : RetrierId) (g : Stage) : State :=
  { s with stage := fun i => if i = id then g else s.stage i }

/-- Change one list of `requests[fd]`. -/
def modifyRequests (s : State) (fd : SocketDescriptor) (d : Side)
    (f : List RetrierId → List RetrierId) : State :=
  { s with requests := s.requests.modify fd (fun r => r.modifySide d f) }

end State

/-! ## What every completion does

These are the members of `completion<R>`, on the completion `c` with the
address `id`. -/

/-- `insert_timeout` -/
def insertTimeout (s : State) (id : RetrierId) (c : Completion) : State :=
  match c.deadline with
  | some t => { s with timeouts := s.timeouts.insert t id }
  | none => s

/-- `cancel_timeout` -/
def cancelTimeout (s : State) (id : RetrierId) (c : Completion) : State :=
  match c.deadline with
  | some _ => { s with timeouts := s.timeouts.eraseFirst id }
  | none => s

/-- `requests[fd].reads.push_back(this)`, or the same on `writes`. -/
def pushRequest (s : State) (fd : SocketDescriptor) (d : Side) (id : RetrierId) :
    State := s.modifyRequests fd d (fun l => l ++ [id])

/-- `std::erase(requests[fd].reads, this)`, or the same on `writes`. -/
def eraseRequest (s : State) (fd : SocketDescriptor) (d : Side) (id : RetrierId) :
    State := s.modifyRequests fd d (fun l => l.filter (fun i => i ≠ id))

/-- Hand back the handle of the awaiting coroutine, which its receiver
resumes at once. -/
def returnHandle (s : State) (id : RetrierId) (c : Completion) : State × Transfer :=
  (((s.setCompletion id c).setStage id .finished).observe (.resumed id c.result),
    .resume c.handle)

/-- `cancel_timeout_then_resume` -/
def cancelTimeoutThenResume (s : State) (id : RetrierId) (c : Completion) :
    State × Transfer := returnHandle (cancelTimeout s id c) id c

/-- Return the no-op coroutine: the awaiting coroutine stays suspended. -/
def returnNoop (s : State) (id : RetrierId) (c : Completion) : State × Transfer :=
  ((s.setCompletion id c).setStage id .suspended, .noop)

/-! ## The IOPs

Each completion type overrides `cancel_iop` and `try_or_resume`, some of
them `await_suspend` or `iop_timedout` as well. A function named after a
type is that type's override. -/

namespace Op

/-- The list of `requests` the type registers in. -/
def slot : Op → Option (SocketDescriptor × Side)
  | .close _ => none
  | .sleep => none
  | .readSome fd _ => some (fd, .reads)
  | .writeSome fd _ => some (fd, .writes)
  | .accept fd => some (fd, .reads)
  | .connect fd => some (fd, .writes)
  | .readReady fd => some (fd, .reads)
  | .writeReady fd => some (fd, .writes)

end Op

/-- `cancel_iop`: nothing for a close and a sleep, and for the others the
pointer is erased from the list it is registered in. -/
def cancelIop (s : State) (id : RetrierId) (c : Completion) : State :=
  match c.op.slot with
  | none => s
  | some (fd, d) => eraseRequest s fd d id

/-- The shape `read_some_completion::try_or_resume` and
`write_some_completion::try_or_resume` share: the result of the system call
`r`, another wait in the list of the type if the call would block, and its
error under the name of the call otherwise. -/
def transferSome (s : State) (id : RetrierId) (c : Completion)
    (fd : SocketDescriptor) (d : Side) (name : String) (r : Sys) :
    State × Transfer :=
  let s := s.observe (.call id c.op r)
  if 0 ≤ r.ret then
    cancelTimeoutThenResume s id { c with result := Outcome.ofResult r.ret }
  else if wouldBlock r.errno then
    returnNoop (pushRequest s fd d id) id c
  else
    cancelTimeoutThenResume s id { c with result := Outcome.ofError r.errno name }

/-- `accept_completion::try_or_resume`, where there is an `accept4`: as a
read, but for a bad descriptor, which is a result and not an error. -/
def acceptTryOrResume (s : State) (id : RetrierId) (c : Completion)
    (fd : SocketDescriptor) (r : Sys) : State × Transfer :=
  let s := s.observe (.call id c.op r)
  if 0 ≤ r.ret then
    cancelTimeoutThenResume s id { c with result := Outcome.ofResult r.ret }
  else if wouldBlock r.errno then
    returnNoop (pushRequest s fd .reads id) id c
  else if badFd r.errno then
    cancelTimeoutThenResume s id { c with result := Outcome.ofResult r.ret }
  else
    cancelTimeoutThenResume s id { c with result := Outcome.ofError r.errno "accept" }

/-- `connect_completion::try_or_resume`: `r` answers the `getsockopt` of
`SO_ERROR`. -/
def connectTryOrResume (s : State) (id : RetrierId) (c : Completion)
    (fd : SocketDescriptor) (r : Sys) : State × Transfer :=
  let s := s.observe (.call id c.op r)
  if r.ret = 0 then
    if r.soError = 0 then cancelTimeoutThenResume s id c
    -- what `getsockopt` has read only tells that there is an error: which one, is
    -- looked up in `errno`
    else if r.errno = EINPROGRESS then
      returnNoop (insertTimeout (pushRequest s fd .writes id) id c) id c
    else
      cancelTimeoutThenResume s id
        { c with result := Outcome.ofError r.errno "connect in follow up call" }
  else
    cancelTimeoutThenResume s id
      { c with result := Outcome.ofError r.errno "connect/getsockopt" }

/-- `try_or_resume`, of whichever type the completion has. -/
def tryOrResume (s : State) (id : RetrierId) (c : Completion) (r : Sys) :
    State × Transfer :=
  match c.op with
  | .close _ => cancelTimeoutThenResume (s.observe (.call id c.op r)) id c
  | .sleep => returnNoop s id c
  | .readSome fd _ => transferSome s id c fd .reads "read" r
  | .writeSome fd _ => transferSome s id c fd .writes "write" r
  | .accept fd => acceptTryOrResume s id c fd r
  | .connect fd => connectTryOrResume s id c fd r
  | .readReady _ => cancelTimeoutThenResume s id c
  | .writeReady _ => cancelTimeoutThenResume s id c

/-- `connect_completion::await_suspend`: `r` answers the `::connect`. -/
def connectAwaitSuspend (s : State) (id : RetrierId) (c : Completion)
    (fd : SocketDescriptor) (r : Sys) : State × Transfer :=
  let s := s.observe (.connect id r)
  -- no deadline has been inserted yet, so there is none to cancel
  if r.ret = 0 then returnHandle s id c
  else if r.errno = EINPROGRESS then
    returnNoop (insertTimeout (pushRequest s fd .writes id) id c) id c
  else
    returnHandle s id
      { c with result := Outcome.ofError r.errno "connect failure in initial call" }

/-- `read_ready_completion::await_suspend`, and the same on `writes`. -/
def readyAwaitSuspend (s : State) (id : RetrierId) (c : Completion)
    (fd : SocketDescriptor) (d : Side) : State × Transfer :=
  returnNoop (insertTimeout (pushRequest s fd d id) id c) id c

/-- `await_suspend`, of whichever type the completion has, by the coroutine
`h`. The `r` answers the system call it makes, if it makes one. -/
def awaitSuspend (s : State) (id : RetrierId) (c : Completion) (h : Handle)
    (r : Sys) : State × Transfer :=
  let c := { c with handle := some h }
  match c.op with
  | .connect fd => connectAwaitSuspend s id c fd r
  | .readReady fd => readyAwaitSuspend s id c fd .reads
  | .writeReady fd => readyAwaitSuspend s id c fd .writes
  | _ => tryOrResume (insertTimeout s id c) id c r

/-- The outcome of a time out. -/
def timedOutOutcome : Outcome := Outcome.ofError Outcome.timeoutError "IOP timed out"

/-- `iop_timedout`: a sleep has done what it should, and the others fail. -/
def iopTimedout (s : State) (id : RetrierId) (c : Completion) : State × Transfer :=
  match c.op with
  | .sleep => returnHandle s id c
  | _ => returnHandle (cancelIop s id c) id { c with result := timedOutOutcome }

/-- `delete_due_to_iop_destructed`, and the deletion that follows in
`iop::~iop` since it returns true. -/
def iopDestructed (s : State) (id : RetrierId) (c : Completion) : State :=
  let s := cancelIop (cancelTimeout s id c) id c
  { s with completions := fun i => if i = id then none else s.completions i }.setStage
    id .deleted

/-! ## Creating an IOP -/

/-- The calls of the warden API that create an IOP. A `sleep` reads the
clock. -/
inductive Call
  | close (fd : SocketDescriptor)
  | sleep (now ns : Int)
  | readSome (fd : SocketDescriptor) (size : ℕ) (timeout : Option TimePoint)
  | writeSome (fd : SocketDescriptor) (size : ℕ) (timeout : Option TimePoint)
  | accept (fd : SocketDescriptor) (timeout : Option TimePoint)
  | connect (fd : SocketDescriptor) (timeout : Option TimePoint)
  | readReady (fd : SocketDescriptor) (timeout : Option TimePoint)
  | writeReady (fd : SocketDescriptor) (timeout : Option TimePoint)
  deriving DecidableEq

/-- The completion a call creates: `do_close`, `do_sleep` and so on. -/
def Call.completion : Call → Completion
  | .close fd => { op := .close fd }
  | .sleep now ns => { op := .sleep, deadline := some (deadlineFrom now ns) }
  | .readSome fd size timeout => { op := .readSome fd size, deadline := timeout }
  | .writeSome fd size timeout => { op := .writeSome fd size, deadline := timeout }
  | .accept fd timeout => { op := .accept fd, deadline := timeout }
  | .connect fd timeout => { op := .connect fd, deadline := timeout }
  | .readReady fd timeout => { op := .readReady fd, deadline := timeout }
  | .writeReady fd timeout => { op := .writeReady fd, deadline := timeout }

/-- Create the completion, and the IOP that points to it. -/
def createIop (s : State) (call : Call) : State :=
  { s.setCompletion s.next call.completion with next := s.next + 1 }

/-! ## What the members leave alone

A member of a completion works on the containers of the warden and on the
completion. `State.shell` is the rest of the state. -/

/-- What no member of a completion changes. -/
structure Shell where
  next : RetrierId
  continuations : List RetrierId
  generation : ℕ
  wakeFd : SocketDescriptor
  wakeup : ℕ
  resumer : AsyncResumption
  frames : List Frame
  fault : Option Fault

/-- The part of the state no member of a completion changes. -/
def State.shell (s : State) : Shell :=
  ⟨s.next, s.continuations, s.generation, s.wakeFd, s.wakeup, s.resumer, s.frames,
    s.fault⟩

/-- The list of one side of `requests[fd]`. -/
def State.registered (s : State) (fd : SocketDescriptor) (d : Side) :
    List RetrierId := (s.requests.get fd).side d

section Members

variable (s : State) (id : RetrierId) (c : Completion)

theorem insertTimeout_eq : insertTimeout s id c = { s with
    timeouts := match c.deadline with
      | some t => s.timeouts.insert t id
      | none => s.timeouts } := by
  unfold insertTimeout
  cases c.deadline <;> rfl

theorem cancelTimeout_eq : cancelTimeout s id c = { s with
    timeouts := match c.deadline with
      | some _ => s.timeouts.eraseFirst id
      | none => s.timeouts } := by
  unfold cancelTimeout
  cases c.deadline <;> rfl

theorem cancelIop_eq : cancelIop s id c = { s with
    requests := match c.op.slot with
      | none => s.requests
      | some (fd, d) => s.requests.modify fd
          (fun q => q.modifySide d (fun l => l.filter (fun i => i ≠ id))) } := by
  unfold cancelIop
  cases c.op.slot <;> rfl

end Members

/-! ## What a retry comes to

`try_or_resume` does one of two things, whichever type it belongs to: it
leaves the coroutine suspended and the completion registered, or it hands
the coroutine back with the deadline cancelled. Which of them it is, and
what the outcome is then, follows from the answer of the system call. -/

namespace Op

/-- The type's `try_or_resume` makes a system call. -/
def calls : Op → Bool
  | .sleep | .readReady _ | .writeReady _ => false
  | _ => true

/-- The answer leaves the coroutine suspended. -/
def waits (op : Op) (r : Sys) : Bool :=
  match op with
  | .sleep => true
  | .readSome _ _ | .writeSome _ _ | .accept _ => r.ret < 0 && wouldBlock r.errno
  | .connect _ => r.ret = 0 && r.soError ≠ 0 && r.errno = EINPROGRESS
  | _ => false

/-- What the answer makes of the outcome, if the coroutine is handed
back. -/
def answered (op : Op) (r : Sys) (o : Outcome) : Outcome :=
  match op with
  | .readSome _ _ =>
    if 0 ≤ r.ret then Outcome.ofResult r.ret else Outcome.ofError r.errno "read"
  | .writeSome _ _ =>
    if 0 ≤ r.ret then Outcome.ofResult r.ret else Outcome.ofError r.errno "write"
  | .accept _ =>
    if 0 ≤ r.ret ∨ badFd r.errno then Outcome.ofResult r.ret
    else Outcome.ofError r.errno "accept"
  | .connect _ =>
    if r.ret ≠ 0 then Outcome.ofError r.errno "connect/getsockopt"
    else if r.soError = 0 then o
    else Outcome.ofError r.errno "connect in follow up call"
  | _ => o

end Op

/-- The state after the system call of a `try_or_resume`. -/
def called (s : State) (id : RetrierId) (op : Op) (r : Sys) : State :=
  if op.calls then s.observe (.call id op r) else s

/-- The registration of a completion whose coroutine stays suspended. A
connect inserts its deadline anew. -/
def registerAgain (s : State) (id : RetrierId) (c : Completion) : State :=
  match c.op.slot with
  | none => s
  | some (fd, d) =>
    match c.op with
    | .connect _ => insertTimeout (pushRequest s fd d id) id c
    | _ => pushRequest s fd d id

section Retry

variable (s : State) (id : RetrierId) (c : Completion) (r : Sys)

/-- Registering again changes the two containers, and nothing else. -/
theorem registerAgain_eq :
    ∃ q t, registerAgain s id c = { s with requests := q, timeouts := t } := by
  unfold registerAgain
  split
  · exact ⟨s.requests, s.timeouts, rfl⟩
  · split
    · rw [insertTimeout_eq]
      exact ⟨_, _, rfl⟩
    · exact ⟨_, s.timeouts, rfl⟩

theorem transferSome_eq (fd : SocketDescriptor) (d : Side) (name : String) :
    transferSome s id c fd d name r
      = if r.ret < 0 && wouldBlock r.errno then
          returnNoop (pushRequest (s.observe (.call id c.op r)) fd d id) id c
        else cancelTimeoutThenResume (s.observe (.call id c.op r)) id
          { c with result := if 0 ≤ r.ret then Outcome.ofResult r.ret
                             else Outcome.ofError r.errno name } := by
  dsimp only [transferSome]
  by_cases h : 0 ≤ r.ret
  · rw [if_pos h, if_pos h, if_neg (by simp [not_lt.mpr h])]
  · cases hb : wouldBlock r.errno <;> simp [h, not_le.mp h]

/-- **A retry leaves the coroutine suspended, or hands it back.** -/
theorem tryOrResume_eq : tryOrResume s id c r
    = if c.op.waits r then returnNoop (registerAgain (called s id c.op r) id c) id c
      else cancelTimeoutThenResume (called s id c.op r) id
        { c with result := c.op.answered r c.result } := by
  obtain ⟨op, deadline, handle, result⟩ := c
  unfold tryOrResume registerAgain
  cases op with
  | close fd => rfl
  | sleep => rfl
  | readSome fd size => exact transferSome_eq s id _ r fd .reads "read"
  | writeSome fd size => exact transferSome_eq s id _ r fd .writes "write"
  | accept fd =>
    simp only [acceptTryOrResume, called, Op.calls, Op.waits, Op.answered, Op.slot]
    by_cases h : 0 ≤ r.ret
    · simp [h, not_lt.mpr h]
    · by_cases hb : wouldBlock r.errno <;> by_cases hf : badFd r.errno <;>
        simp [h, hb, hf, not_le.mp h]
  | connect fd =>
    simp only [connectTryOrResume, called, Op.calls, Op.waits, Op.answered, Op.slot]
    by_cases h : r.ret = 0
    · by_cases hz : r.soError = 0
      · simp [h, hz]
      · by_cases he : r.errno = EINPROGRESS <;> simp [h, hz, he]
    · simp [h]
  | readReady fd => rfl
  | writeReady fd => rfl

end Retry

end PollWarden
