import Felspar.Basic
import Felspar.Runs

/-!
# The uring warden

`uring_warden` hands its operations to the kernel through the submission
queue of an `io_uring`, and takes their results from its completion queue.
An SQE carries the address of a completion as its user data, and so does the
CQE it yields. An IOP with a deadline takes two SQEs, the operation and a
linked timeout, and both carry the same address. This module embeds
`uring.hpp`, `uring.iops.cpp` and `uring.warden.cpp`.

A completion has up to three owners. The IOP deletes it, unless the kernel
still owes a CQE for it; then `execute` deletes it with the last of them; and
what is left when the warden goes is deleted by `~impl`, from the list
`outstanding`. Which of them it is is decided by the three fields of its
`delivery`. Deleting a completion twice, and following a pointer to one that
has been deleted, are faults of the model.

The conventions are those of `Felspar.PollWarden`: a completion is known by a
number, coroutines are the events they cause, the answers of the kernel are
part of the events, and a stack of frames holds the calls of the loop that
are active. `iops`, `stage` and `trace` are there to state theorems with:
which IOPs exist, how far awaiting them has come, and what passes between
the warden and its surroundings.
-/

/-- A `completion<R> *`, which is also the address of its `delivery`. -/
abbrev DeliveryId := ℕ

namespace UringWarden

/-! ## Completions -/

/-- The completion types, with what they need to prepare their SQE. The
buffer of a read or a write counts by its size, and the address of a connect
not at all. The duration of a sleep is its `kts`. -/
inductive Op
  | close (fd : SocketDescriptor)
  | sleep (ns : Int)
  | readSome (fd : SocketDescriptor) (size : ℕ)
  | writeSome (fd : SocketDescriptor) (size : ℕ)
  | accept (fd : SocketDescriptor)
  | connect (fd : SocketDescriptor)
  | poll (fd : SocketDescriptor) (mask : Int)
  deriving DecidableEq

/-- The classes that define `deliver`: `completion<R>`, `completion<void>`
and `sleep_completion`. -/
inductive Kind
  | value
  | void
  | sleep
  deriving DecidableEq

/-- The class whose `deliver` a completion type has. -/
def Op.kind : Op → Kind
  | .readSome _ _ | .writeSome _ _ | .accept _ => .value
  | .close _ | .connect _ | .poll _ _ => .void
  | .sleep _ => .sleep

/-- `completion<R>`, with the fields of its `delivery`. -/
structure Completion where
  op : Op
  deadline : Option TimePoint := none
  /-- The IOP instance still exists. -/
  iopExists : Bool := true
  /-- It is in the outstanding completions list. -/
  isOutstanding : Bool := false
  /-- How many of its SQEs have not come back. -/
  iopCount : ℕ := 1
  handle : Option Handle := none
  result : Outcome := {}
  deriving DecidableEq

/-- `std::size_t{n} - 1` -/
def sizeDecrement (n : ℕ) : ℕ := (n + (2 ^ 64 - 1)) % 2 ^ 64

/-! ## The ring -/

/-- What an SQE has been prepared for. -/
inductive Prep
  | nop
  | op (op : Op)
  /-- A linked timeout, in nanoseconds. -/
  | linkTimeout (nsec : Int)
  deriving DecidableEq

/-- Which of the two SQEs of an IOP it is. -/
inductive Role
  | op
  | timer
  deriving DecidableEq

/-- **A submission queue entry.** -/
structure Sqe where
  prep : Prep
  userData : Option DeliveryId
  /-- `IOSQE_IO_LINK` -/
  link : Bool := false
  deriving DecidableEq

/-- The role of an SQE. -/
def Sqe.role (sqe : Sqe) : Role :=
  match sqe.prep with
  | .linkTimeout _ => .timer
  | _ => .op

/-- **A completion queue entry**: which of the SQEs that have been submitted
it answers, and its result. -/
structure Cqe where
  index : ℕ
  res : Int
  deriving DecidableEq

/-! ## The state -/

/-- What passes between the warden and its surroundings. -/
inductive Obs
  /-- A coroutine awaits an IOP, and its SQEs have been queued. -/
  | awaited (id : DeliveryId) (op : Op) (deadline : Option TimePoint)
  /-- `execute` takes a CQE. -/
  | executed (id : DeliveryId) (role : Role) (res : Int)
  /-- The awaiting coroutine is resumed, with this outcome. -/
  | resumed (id : DeliveryId) (outcome : Outcome)
  /-- An IOP is destructed. -/
  | destroyed (id : DeliveryId)
  /-- A completion is deleted. -/
  | deleted (id : DeliveryId)
  deriving DecidableEq

/-- What must not happen to a completion. -/
inductive Fault
  /-- One that has been deleted is read or written. -/
  | useAfterDelete (id : DeliveryId)
  /-- One that has been deleted is deleted. -/
  | doubleDelete (id : DeliveryId)
  deriving DecidableEq

/-- How far awaiting an IOP has come. -/
inductive Stage
  /-- It has not been awaited. -/
  | created
  /-- The `next_sqe` of `setup_submission` threw. -/
  | refused
  /-- The `next_sqe` of `setup_timeout` threw. -/
  | halfQueued
  /-- Its SQEs have been queued. -/
  | awaited
  deriving DecidableEq

/-- Where a call of `run_until` or `run_batch` is. In the points that name a
resumption the coroutine resumed there is running. -/
inductive Point
  /-- In the `coro.resume()` that `run_until` begins with. -/
  | coroResume
  /-- At the condition of the loop of `run_until`. -/
  | condition
  /-- In `io_uring_wait_cqe`. -/
  | waitCqe
  /-- At the condition of the `io_uring_peek_cqe` loop. -/
  | peekCqe
  /-- In the `handle.resume()` of `deliver`, in `execute`. -/
  | delivering (id : DeliveryId)
  /-- At the head of the loop of `resume_all`, with the handles left. -/
  | resumeAll (rest : List Handle)
  /-- In the `h.resume()` of that loop. -/
  | resumed (rest : List Handle)
  deriving DecidableEq

/-- A call of the loop: of `run_until` where it has a coroutine, and of
`run_batch` where it has none. -/
structure Frame where
  coro : Option Handle
  point : Point
  deriving DecidableEq

/-- **The state of a uring warden**, with the calls of its loop that are
active, innermost first. -/
structure State where
  /-- The completions that have not been deleted. -/
  completions : DeliveryId → Option Completion
  /-- The number the next completion gets. -/
  next : DeliveryId
  /-- The IOPs that exist. -/
  iops : DeliveryId → Bool
  /-- The SQEs that have been filled in and not been submitted. -/
  queue : List Sqe
  /-- The SQEs that have been submitted and whose CQE has not been taken. -/
  inflight : List Sqe
  outstanding : List DeliveryId
  resumer : AsyncResumption
  frames : List Frame
  /-- The warden has been destructed. -/
  closed : Bool
  fault : Option Fault
  stage : DeliveryId → Stage
  trace : List Obs

/-- A warden that has just been constructed. -/
def init : State where
  completions := fun _ => none
  next := 0
  iops := fun _ => false
  queue := []
  inflight := []
  outstanding := []
  resumer := {}
  frames := []
  closed := false
  fault := none
  stage := fun _ => .created
  trace := []

namespace State

/-- Record an observation. -/
def observe (s : State) (o : Obs) : State := { s with trace := o :: s.trace }

/-- Replace a completion that exists. -/
def setCompletion (s : State) (id : DeliveryId) (c : Completion) : State :=
  { s with completions := fun i => if i = id then some c else s.completions i }

/-- Record how far awaiting an IOP has come. -/
def setStage (s : State) (id : DeliveryId) (g : Stage) : State :=
  { s with stage := fun i => if i = id then g else s.stage i }

/-- Append an SQE that has been filled in. -/
def push (s : State) (sqe : Sqe) : State := { s with queue := s.queue ++ [sqe] }

/-- Delete a completion. -/
def delete (s : State) (id : DeliveryId) : State :=
  { s with completions := fun i => if i = id then none else s.completions i }.observe
    (.deleted id)

/-- The warden does to a completion what it must not. -/
def fail (s : State) (x : Fault) : State := { s with fault := some x }

/-- `io_uring_submit`: the kernel takes the first `taken` SQEs of the
queue. -/
def submit (s : State) (taken : ℕ) : State :=
  { s with
    queue := s.queue.drop taken
    inflight := s.inflight ++ s.queue.take taken }

/-- `io_uring_cqe_seen`: the CQE of a submitted SQE has been taken. -/
def cqeSeen (s : State) (index : ℕ) : State :=
  { s with inflight := s.inflight.eraseIdx index }

/-- Where the innermost loop goes on. -/
def goto (s : State) (p : Point) : State :=
  match s.frames with
  | [] => s
  | f :: fs => { s with frames := { f with point := p } :: fs }

/-- The innermost loop returns, or is left by an exception. -/
def leave (s : State) : State := { s with frames := s.frames.tail }

end State

/-! ## IOPs -/

/-- The calls of the warden API that create an IOP. -/
inductive Call
  | close (fd : SocketDescriptor)
  | sleep (ns : Int)
  | readSome (fd : SocketDescriptor) (size : ℕ) (timeout : Option TimePoint)
  | writeSome (fd : SocketDescriptor) (size : ℕ) (timeout : Option TimePoint)
  | accept (fd : SocketDescriptor) (timeout : Option TimePoint)
  | connect (fd : SocketDescriptor) (timeout : Option TimePoint)
  | readReady (fd : SocketDescriptor) (timeout : Option TimePoint)
  | writeReady (fd : SocketDescriptor) (timeout : Option TimePoint)
  deriving DecidableEq

/-- `POLLIN` -/
abbrev POLLIN : Int := 1

/-- `POLLOUT` -/
abbrev POLLOUT : Int := 4

/-- The completion a call creates: `do_close`, `do_sleep` and so on. A sleep
has no deadline, since it is one. -/
def Call.completion : Call → Completion
  | .close fd => { op := .close fd }
  | .sleep ns => { op := .sleep ns }
  | .readSome fd size timeout => { op := .readSome fd size, deadline := timeout }
  | .writeSome fd size timeout => { op := .writeSome fd size, deadline := timeout }
  | .accept fd timeout => { op := .accept fd, deadline := timeout }
  | .connect fd timeout => { op := .connect fd, deadline := timeout }
  | .readReady fd timeout => { op := .poll fd POLLIN, deadline := timeout }
  | .writeReady fd timeout => { op := .poll fd POLLOUT, deadline := timeout }

/-- Create the completion, and the IOP that points to it. -/
def createIop (s : State) (call : Call) : State :=
  { s.setCompletion s.next call.completion with
    next := s.next + 1
    iops := fun i => if i = s.next then true else s.iops i }

/-- The nanoseconds of the linked timeout, at the clock reading `now`. -/
def remaining (deadline now : TimePoint) : Int :=
  if 0 < chronoSub deadline now then chronoSub deadline now else 0

/-- `setup_timeout`, once the SQE of the operation has been prepared:
without a deadline there is nothing to it, and with one a linked timeout is
queued, if `next_sqe` finds another SQE. -/
def setupTimeout (s : State) (id : DeliveryId) (c : Completion) (now : TimePoint)
    (sqeLeft : Bool) : State :=
  match c.deadline with
  | none => (s.push { prep := .op c.op, userData := some id }).setStage id .awaited
  | some t =>
    let s := s.push { prep := .op c.op, userData := some id, link := true }
    if sqeLeft then
      ((s.push { prep := .linkTimeout (remaining t now), userData := some id }).setCompletion
        id { c with iopCount := 2 }).setStage id .awaited
    -- the SQE of the operation stays in the queue, linked to whatever comes next
    else s.setStage id .halfQueued

/-- `await_suspend`, by the coroutine `h`, when `next_sqe` can find `sqes`
more SQEs. It throws where it needs more than there are. -/
def awaitSuspend (s : State) (id : DeliveryId) (c : Completion) (h : Handle)
    (now : TimePoint) (sqes : ℕ) : State :=
  let c := { c with handle := some h }
  let s := s.setCompletion id c
  if sqes = 0 then s.setStage id .refused
  else
    let s := setupTimeout s id c now (decide (2 ≤ sqes))
    if s.stage id = .awaited then s.observe (.awaited id c.op c.deadline) else s

/-- `iop::~iop`, and the `delete_due_to_iop_destructed` it calls. -/
def iopDestructed (s : State) (id : DeliveryId) : State :=
  let s := { s with iops := fun i => if i = id then false else s.iops i }.observe
    (.destroyed id)
  match s.completions id with
  | none => s.fail (.useAfterDelete id)
  | some c =>
    let c := { c with iopExists := false }
    if c.iopCount = 0 then s.delete id
    else
      { s.setCompletion id { c with isOutstanding := true } with
        outstanding := s.outstanding ++ [id] }

/-! ## Delivering -/

namespace Completion

/-- `completion<R>::deliver`: the outcome with which it resumes the
coroutine, or nothing where it returns before that. -/
def deliverValue (c : Completion) (result : Int) : Option Outcome :=
  if result < 0 then
    if c.deadline.isSome ∧ result = -ECANCELED then none
    else some (Outcome.ofError (-result) "uring IOP")
  else some (Outcome.ofResult result)

/-- `completion<void>::deliver` -/
def deliverVoid (c : Completion) (result : Int) : Option Outcome :=
  if result = -ETIME then some (Outcome.ofError ETIME "uring IOP timeout")
  else if c.deadline.isSome ∧ result = -ECANCELED then none
  else if result < 0 then some (Outcome.ofError (-result) "uring IOP")
  else some c.result

/-- `sleep_completion::deliver` -/
def deliverSleep (c : Completion) (result : Int) : Option Outcome :=
  c.deliverVoid (if result = -ETIME then 0 else result)

/-- `deliver`, of whichever class the completion has it from. -/
def deliver (c : Completion) (result : Int) : Option Outcome :=
  match c.op.kind with
  | .value => c.deliverValue result
  | .void => c.deliverVoid result
  | .sleep => c.deliverSleep result

end Completion

/-- The end of `impl::execute`, after `deliver`. -/
def executeEnd (s : State) (id : DeliveryId) : State :=
  match s.completions id with
  | none => s.fail (.useAfterDelete id)
  | some c =>
    -- it goes off the list with each CQE, and not only with the last
    let s := if c.isOutstanding then
        { s with outstanding := s.outstanding.filter (fun i => i ≠ id) } else s
    let c := { c with iopCount := sizeDecrement c.iopCount }
    if c.iopCount = 0 ∧ c.iopExists = false then s.delete id
    else s.setCompletion id c

/-- `impl::execute`, once the CQE of `sqe` has been marked as seen. Where it
resumes a coroutine it is left there. -/
def execute (s : State) (sqe : Sqe) (result : Int) : State :=
  match sqe.userData with
  | none => s.goto .peekCqe
  | some id =>
    let s := s.observe (.executed id sqe.role result)
    match s.completions id with
    | none => (s.goto .peekCqe).fail (.useAfterDelete id)
    | some c =>
      -- without the IOP there is nobody to deliver to
      match if c.iopExists then c.deliver result else none with
      | none => executeEnd (s.goto .peekCqe) id
      | some outcome =>
        ((s.setCompletion id { c with result := outcome }).observe
          (.resumed id outcome)).goto (.delivering id)

/-- Take a CQE, if it is of an SQE that has been submitted. -/
def takeCqe (s : State) (cqe : Cqe) : Option State :=
  s.inflight[cqe.index]?.map (fun sqe =>
    execute (s.cqeSeen cqe.index) sqe cqe.res)

/-- `impl::~impl`: delete what is outstanding. -/
def deleteOutstanding (s : State) : List DeliveryId → State
  | [] => s
  | id :: rest =>
    match s.completions id with
    | none => s.fail (.doubleDelete id)
    | some _ => deleteOutstanding (s.delete id) rest

/-! ## Waking -/

/-- `wake_event_loop`: a NOP is queued, if `next_sqe` finds an SQE, and
submitted at once. -/
def wakeEventLoop (s : State) (sqeLeft : Bool) (taken : ℕ) : State :=
  if sqeLeft then (s.push { prep := .nop, userData := none }).submit taken else s

/-- `do_async_resume`: wake only when the queue was empty. -/
def doAsyncResume (s : State) (handles : List (Option Handle)) (sqeLeft : Bool)
    (taken : ℕ) : State :=
  let wasEmpty := !s.resumer.hasRequests
  let q := s.resumer.queue handles
  let s := { s with resumer := q.1 }
  if q.2 && wasEmpty then wakeEventLoop s sqeLeft taken else s

/-! ## The steps -/

/-- What a coroutine does to the warden, and what the kernel answers. The
`taken` of an event is how many SQEs the kernel takes in its submit. -/
inductive Event
  /-- A coroutine calls the API that creates an IOP. -/
  | create (call : Call)
  /-- A coroutine awaits an IOP. -/
  | await (id : DeliveryId) (h : Handle) (now : TimePoint) (sqes : ℕ)
  /-- An IOP is destructed. -/
  | destroy (id : DeliveryId)
  /-- A coroutine calls `async_resume`. -/
  | asyncResume (handles : List (Option Handle)) (sqeLeft : Bool) (taken : ℕ)
  /-- A coroutine, or the program outside the loop, calls `run`. -/
  | runUntil (coro : Handle)
  /-- The same for `run_batch`. -/
  | runBatch (taken : ℕ)
  /-- The coroutine a loop resumed suspends, and control is back in it. -/
  | suspend
  /-- `run_until` looks whether its coroutine is done, and submits if it is
  not. -/
  | condition (done : Bool) (taken : ℕ)
  /-- `io_uring_wait_cqe` returns. -/
  | waitCqe (ret : Int) (cqe : Cqe)
  /-- `io_uring_peek_cqe` returns, with a CQE or without. -/
  | peekCqe (cqe : Option Cqe)
  /-- The loop of `resume_all` goes on. -/
  | resumeNext
  /-- The warden is destructed. -/
  | close

/-- The coroutine or program on top of the stack is running. -/
def Point.userRuns : Point → Bool
  | .coroResume | .delivering _ | .resumed _ => true
  | _ => false

/-- A coroutine runs, or the program outside every loop does. -/
def State.userRuns (s : State) : Bool :=
  match s.frames with
  | [] => true
  | f :: _ => f.point.userRuns

/-- `resume_all` begins. -/
def beginResumeAll (s : State) : State :=
  { s with resumer := s.resumer.swap }.goto (.resumeAll s.resumer.queued)

/-- One round of the loop of `resume_all`, which ends with the vector
cleared and the loop in its next round. -/
def resumeAllNext (s : State) (f : Frame) (rest : List Handle) : State :=
  match rest with
  | [] =>
    let s := { s with resumer := s.resumer.clearResuming }
    match f.coro with
    | some _ => s.goto .condition
    | none => s.leave
  | _ :: rest => s.goto (.resumed rest)

/-- `io_uring_wait_cqe` returns: an interrupted wait is begun anew, and any
other error is an exception that leaves the loop. -/
def waitCqe (s : State) (ret : Int) (cqe : Cqe) : Option State :=
  if ret = -EINTR then some (s.goto .condition)
  else if ret < 0 then some s.leave
  else takeCqe s cqe

/-- Control is back in the loop: at the end of `execute`, where it was
delivering. -/
def suspend (s : State) (f : Frame) : Option State :=
  match f.point with
  | .coroResume => some (s.goto .condition)
  | .delivering id => some (executeEnd (s.goto .peekCqe) id)
  | .resumed rest => some (s.goto (.resumeAll rest))
  | _ => none

/-- What a coroutine that runs does to the warden. -/
def userStep (s : State) : Event → Option State
  | .create call => some (createIop s call)
  | .await id h now sqes =>
    if s.iops id then
      some (match s.completions id with
        | none => s.fail (.useAfterDelete id)
        | some c => awaitSuspend s id c h now sqes)
    else none
  | .destroy id => if s.iops id then some (iopDestructed s id) else none
  | .asyncResume handles sqeLeft taken => some (doAsyncResume s handles sqeLeft taken)
  | .runUntil coro => some { s with frames := ⟨some coro, .coroResume⟩ :: s.frames }
  | .runBatch taken =>
    some { s.submit taken with frames := ⟨none, .peekCqe⟩ :: s.frames }
  | .suspend => s.frames.head?.bind (fun f => suspend s f)
  | .close => if s.frames = [] then
      some { deleteOutstanding s s.outstanding with outstanding := [], closed := true }
    else none
  | _ => none

/-- What the innermost loop does with an answer. -/
def loopStep (s : State) (f : Frame) : Event → Option State
  | .condition done taken => match f.point with
    | .condition =>
      some (if done then s.leave else (s.submit taken).goto .waitCqe)
    | _ => none
  | .waitCqe ret cqe => match f.point with
    | .waitCqe => waitCqe s ret cqe
    | _ => none
  | .peekCqe cqe => match f.point with
    | .peekCqe => match cqe with
      | none => some (beginResumeAll s)
      | some cqe => takeCqe s cqe
    | _ => none
  | .resumeNext => match f.point with
    | .resumeAll rest => some (resumeAllNext s f rest)
    | _ => none
  | _ => none

/-- The CQE an event brings, if it brings one. -/
def Event.cqe : Event → Option Cqe
  | .waitCqe ret cqe => if ret < 0 then none else some cqe
  | .peekCqe cqe => cqe
  | _ => none

/-- **A step of the uring warden.** There are no more once it has done to a
completion what it must not, nor once it has been destructed. -/
def step (s : State) (e : Event) : Option State :=
  if s.fault ≠ none ∨ s.closed then none
  else match s.frames with
    | [] => userStep s e
    | f :: _ => if f.point.userRuns then userStep s e else loopStep s f e

/-! ## What a step can do -/

/-- The frames after the innermost loop has gone on. -/
def gotoFrames (p : Point) : List Frame → List Frame
  | [] => []
  | f :: fs => { f with point := p } :: fs

theorem goto_eq (s : State) (p : Point) :
    s.goto p = { s with frames := gotoFrames p s.frames } := by
  obtain ⟨_, _, _, _, _, _, _, frames, _, _, _, _⟩ := s
  cases frames <;> rfl

/-- **What taking a CQE comes to**: a NOP has been answered, the completion is
gone, nothing is delivered for it, or its coroutine is resumed. -/
inductive Executed (s : State) (sqe : Sqe) (result : Int) : State → Prop
  | nop (hu : sqe.userData = none) : Executed s sqe result (s.goto .peekCqe)
  | gone {id : DeliveryId} (hu : sqe.userData = some id) (hc : s.completions id = none) :
      Executed s sqe result
        (((s.observe (.executed id sqe.role result)).goto .peekCqe).fail (.useAfterDelete id))
  | ignored {id : DeliveryId} {c : Completion} (hu : sqe.userData = some id)
      (hc : s.completions id = some c)
      (hd : c.iopExists = false ∨ c.deliver result = none) :
      Executed s sqe result
        (executeEnd ((s.observe (.executed id sqe.role result)).goto .peekCqe) id)
  | delivered {id : DeliveryId} {c : Completion} {outcome : Outcome}
      (hu : sqe.userData = some id) (hc : s.completions id = some c)
      (hex : c.iopExists = true) (hd : c.deliver result = some outcome) :
      Executed s sqe result
        ((((s.observe (.executed id sqe.role result)).setCompletion id
          { c with result := outcome }).observe (.resumed id outcome)).goto (.delivering id))

theorem executed (s : State) (sqe : Sqe) (result : Int) :
    Executed s sqe result (execute s sqe result) := by
  unfold execute
  split
  case h_1 hu => exact .nop hu
  case h_2 id hu =>
    dsimp only
    split
    case h_1 hc => exact .gone hu hc
    case h_2 c hc =>
      split
      case h_1 hd =>
        refine .ignored hu hc ?_
        split at hd
        case isTrue => exact Or.inr hd
        case isFalse hex => exact Or.inl (Bool.eq_false_iff.mpr hex)
      case h_2 outcome hd =>
        split at hd
        case isTrue hex => exact .delivered hu hc hex hd
        case isFalse => exact absurd hd (by simp)

/-- The cases are exclusive: each of them says what `execute` does. -/
theorem Executed.eq {s t : State} {sqe : Sqe} {result : Int} (h : Executed s sqe result t) :
    execute s sqe result = t := by
  have hsame : ∀ id, (s.observe (.executed id sqe.role result)).completions id
      = s.completions id := fun _ => rfl
  unfold execute
  cases h with
  | nop hu => rw [hu]
  | gone hu hc => simp only [hu, hsame, hc]
  | @ignored id c hu hc hd =>
    have hnone : (if c.iopExists then c.deliver result else none) = none := by
      rcases hd with hex | hd
      · rw [hex, if_neg Bool.false_ne_true]
      · rw [hd, ite_self]
    simp only [hu, hsame, hc, hnone]
  | delivered hu hc hex hd => simp only [hu, hsame, hc, hex, hd, if_true]

/-- **What a round of `resume_all` comes to**: it ends, which leaves the loop
or begins its next round, or resumes the next handle. -/
inductive ResumedAllNext (s : State) (f : Frame) : List Handle → State → Prop
  | again {coro : Handle} (hf : f.coro = some coro) : ResumedAllNext s f []
      (({ s with resumer := s.resumer.clearResuming } : State).goto .condition)
  | leaves (hf : f.coro = none) : ResumedAllNext s f []
      ({ s with resumer := s.resumer.clearResuming } : State).leave
  | resumes (h : Handle) (rest : List Handle) :
      ResumedAllNext s f (h :: rest) (s.goto (.resumed rest))

theorem resumedAllNext (s : State) (f : Frame) (rest : List Handle) :
    ResumedAllNext s f rest (resumeAllNext s f rest) := by
  unfold resumeAllNext
  split
  · dsimp only
    split
    · exact ResumedAllNext.again ‹_›
    · exact ResumedAllNext.leaves ‹_›
  · exact ResumedAllNext.resumes _ _

/-- Control is back from a coroutine that nothing was being delivered to. -/
def Point.afterSuspend : Point → Option Point
  | .coroResume => some .condition
  | .resumed rest => some (.resumeAll rest)
  | _ => none

/-- **The steps, one by one**: the event, what the state was for it to be
possible, and the state after it. -/
inductive Stepped (s : State) : Event → State → Prop
  | create (call : Call) : Stepped s (.create call) (createIop s call)
  | await {id : DeliveryId} {c : Completion} (hi : s.iops id = true)
      (hc : s.completions id = some c) (h : Handle) (now : TimePoint) (sqes : ℕ) :
      Stepped s (.await id h now sqes) (awaitSuspend s id c h now sqes)
  | awaitGone {id : DeliveryId} (hi : s.iops id = true) (hc : s.completions id = none)
      (h : Handle) (now : TimePoint) (sqes : ℕ) :
      Stepped s (.await id h now sqes) (s.fail (.useAfterDelete id))
  | destroy {id : DeliveryId} (hi : s.iops id = true) :
      Stepped s (.destroy id) (iopDestructed s id)
  | asyncResume (handles : List (Option Handle)) (sqeLeft : Bool) (taken : ℕ) :
      Stepped s (.asyncResume handles sqeLeft taken) (doAsyncResume s handles sqeLeft taken)
  | runUntil (coro : Handle) :
      Stepped s (.runUntil coro) { s with frames := ⟨some coro, .coroResume⟩ :: s.frames }
  | runBatch (taken : ℕ) :
      Stepped s (.runBatch taken)
        { s.submit taken with frames := ⟨none, .peekCqe⟩ :: s.frames }
  | suspend {f : Frame} {fs : List Frame} (hf : s.frames = f :: fs) {p : Point}
      (hp : f.point.afterSuspend = some p) : Stepped s .suspend (s.goto p)
  | delivered {f : Frame} {fs : List Frame} (hf : s.frames = f :: fs) {id : DeliveryId}
      (hp : f.point = .delivering id) :
      Stepped s .suspend (executeEnd (s.goto .peekCqe) id)
  | close (hf : s.frames = []) : Stepped s .close
      { deleteOutstanding s s.outstanding with outstanding := [], closed := true }
  | done {f : Frame} {fs : List Frame} (hf : s.frames = f :: fs)
      (hp : f.point = .condition) (taken : ℕ) : Stepped s (.condition true taken) s.leave
  | submit {f : Frame} {fs : List Frame} (hf : s.frames = f :: fs)
      (hp : f.point = .condition) (taken : ℕ) :
      Stepped s (.condition false taken) ((s.submit taken).goto .waitCqe)
  | interrupted {f : Frame} {fs : List Frame} (hf : s.frames = f :: fs)
      (hp : f.point = .waitCqe) (cqe : Cqe) :
      Stepped s (.waitCqe (-EINTR) cqe) (s.goto .condition)
  | waitFails {f : Frame} {fs : List Frame} (hf : s.frames = f :: fs)
      (hp : f.point = .waitCqe) {ret : Int} (hret : ret < 0) (hne : ret ≠ -EINTR)
      (cqe : Cqe) : Stepped s (.waitCqe ret cqe) s.leave
  | take {f : Frame} {fs : List Frame} (hf : s.frames = f :: fs)
      (hp : f.point = .waitCqe ∨ f.point = .peekCqe) {e : Event} {cqe : Cqe} {sqe : Sqe}
      (he : e.cqe = some cqe) (hq : s.inflight[cqe.index]? = some sqe) :
      Stepped s e (execute (s.cqeSeen cqe.index) sqe cqe.res)
  | peekNone {f : Frame} {fs : List Frame} (hf : s.frames = f :: fs)
      (hp : f.point = .peekCqe) : Stepped s (.peekCqe none) (beginResumeAll s)
  | resumeNext {f : Frame} {fs : List Frame} (hf : s.frames = f :: fs)
      {rest : List Handle} (hp : f.point = .resumeAll rest) :
      Stepped s .resumeNext (resumeAllNext s f rest)

theorem stepped_of_takeCqe {s s' : State} {f : Frame} {fs : List Frame}
    (hf : s.frames = f :: fs) (hp : f.point = .waitCqe ∨ f.point = .peekCqe) {e : Event}
    {cqe : Cqe} (he : e.cqe = some cqe) (h : takeCqe s cqe = some s') : Stepped s e s' := by
  obtain ⟨sqe, hq, rfl⟩ := Option.map_eq_some_iff.mp h
  exact Stepped.take hf hp he hq

theorem stepped_of_userStep {s s' : State} {e : Event} (h : userStep s e = some s') :
    Stepped s e s' := by
  cases e with
  | create call => exact Option.some.inj h ▸ Stepped.create call
  | await id a now sqes =>
    simp only [userStep] at h
    split at h
    case isTrue hi =>
      cases hc : s.completions id with
      | none => rw [hc] at h; exact Option.some.inj h ▸ Stepped.awaitGone hi hc a now sqes
      | some c => rw [hc] at h; exact Option.some.inj h ▸ Stepped.await hi hc a now sqes
    case isFalse hi => exact absurd h (by simp)
  | destroy id =>
    simp only [userStep] at h
    split at h
    case isTrue hi => exact Option.some.inj h ▸ Stepped.destroy hi
    case isFalse hi => exact absurd h (by simp)
  | asyncResume handles sqeLeft taken =>
    exact Option.some.inj h ▸ Stepped.asyncResume handles sqeLeft taken
  | runUntil coro => exact Option.some.inj h ▸ Stepped.runUntil coro
  | runBatch taken => exact Option.some.inj h ▸ Stepped.runBatch taken
  | suspend =>
    obtain ⟨f, hf, h⟩ := Option.bind_eq_some_iff.mp h
    obtain ⟨fs, hfs⟩ := List.head?_eq_some_iff.mp hf
    unfold suspend at h
    split at h
    case h_1 hp => exact Option.some.inj h ▸ Stepped.suspend hfs (by rw [hp]; rfl)
    case h_2 id hp => exact Option.some.inj h ▸ Stepped.delivered hfs hp
    case h_3 rest hp => exact Option.some.inj h ▸ Stepped.suspend hfs (by rw [hp]; rfl)
    case h_4 => exact absurd h (by simp)
  | close =>
    simp only [userStep] at h
    split at h
    case isTrue hf => exact Option.some.inj h ▸ Stepped.close hf
    case isFalse hf => exact absurd h (by simp)
  | _ => exact absurd h (by simp [userStep])

theorem stepped_of_loopStep {s s' : State} {e : Event} {f : Frame} {fs : List Frame}
    (hf : s.frames = f :: fs) (h : loopStep s f e = some s') : Stepped s e s' := by
  cases e with
  | condition done taken =>
    cases hp : f.point with
    | condition =>
      simp only [loopStep, hp] at h
      cases done
      · exact Option.some.inj h ▸ Stepped.submit hf hp taken
      · exact Option.some.inj h ▸ Stepped.done hf hp taken
    | _ => simp [loopStep, hp] at h
  | waitCqe ret cqe =>
    cases hp : f.point with
    | waitCqe =>
      simp only [loopStep, hp, waitCqe] at h
      split at h
      case isTrue hr =>
        rw [hr]
        exact Option.some.inj h ▸ Stepped.interrupted hf hp cqe
      case isFalse hr =>
        split at h
        case isTrue hneg => exact Option.some.inj h ▸ Stepped.waitFails hf hp hneg hr cqe
        case isFalse hneg =>
          exact stepped_of_takeCqe hf (Or.inl hp) (by simp [Event.cqe, hneg]) h
    | _ => simp [loopStep, hp] at h
  | peekCqe cqe =>
    cases hp : f.point with
    | peekCqe =>
      simp only [loopStep, hp] at h
      cases cqe with
      | none => exact Option.some.inj h ▸ Stepped.peekNone hf hp
      | some cqe => exact stepped_of_takeCqe hf (Or.inr hp) rfl h
    | _ => simp [loopStep, hp] at h
  | resumeNext =>
    cases hp : f.point with
    | resumeAll rest =>
      simp only [loopStep, hp] at h
      exact Option.some.inj h ▸ Stepped.resumeNext hf hp
    | _ => simp [loopStep, hp] at h
  | _ => exact absurd h (by simp [loopStep])

/-- **Every step is one of them**, and is taken in a state without a fault
whose warden has not been destructed. -/
theorem stepped_of_step {s s' : State} {e : Event} (h : step s e = some s') :
    s.fault = none ∧ s.closed = false ∧ Stepped s e s' := by
  unfold step at h
  split at h
  case isTrue hx => exact absurd h (by simp)
  case isFalse hx =>
    refine ⟨by_contra (fun hn => hx (Or.inl hn)), ?_, ?_⟩
    · cases hc : s.closed
      · rfl
      · exact absurd (Or.inr hc) hx
    · split at h
      case h_1 hf => exact stepped_of_userStep h
      case h_2 f fs hf =>
        split at h
        case isTrue hu => exact stepped_of_userStep h
        case isFalse hu => exact stepped_of_loopStep hf h

end UringWarden
