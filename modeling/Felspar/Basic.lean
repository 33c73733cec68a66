import Mathlib.Algebra.Order.Ring.Int
import Mathlib.Algebra.Order.Ring.Nat
import Mathlib.Data.List.ReduceOption
import Mathlib.Tactic.Common

/-!
# What the wardens share

The two wardens and the TLS layer all speak of descriptors, coroutine
handles, error codes, deadlines, the outcome of an IOP and the queue of
deferred resumptions. This module holds these, from `completion.hpp`,
`exceptions.hpp`, `deadline.hpp` and `async_resumption.hpp`.

Everything an operating system decides is an input: a system call answers a
`Sys`, which is what it returned, the value of `errno` after it and, for
`getsockopt`, the value of the option it read. A coroutine is opaque, and
known by its handle.
-/

/-- A socket descriptor, in its POSIX reading an `int`. -/
abbrev SocketDescriptor := Int

/-- A non-null `std::coroutine_handle<>`. A handle that can be null is an
`Option` of these. -/
abbrev Handle := ℕ

/-! ## Error codes

The values are those of Linux. They are codes of the system category, and
`0` is the code that says there was no error. -/

abbrev EINTR : Int := 4
abbrev EBADF : Int := 9
abbrev EAGAIN : Int := 11
abbrev EWOULDBLOCK : Int := 11
abbrev ETIME : Int := 62
abbrev ECONNREFUSED : Int := 111
abbrev EINPROGRESS : Int := 115
abbrev ECANCELED : Int := 125

/-- `would_block`, in its POSIX branch. -/
def wouldBlock (err : Int) : Bool := err = EAGAIN || err = EWOULDBLOCK

/-- `bad_fd`, in its POSIX branch. -/
def badFd (err : Int) : Bool := err = EBADF

/-- **The answer of a system call.** -/
structure Sys where
  /-- The value returned. -/
  ret : Int
  /-- The value of `errno` when the call has returned. A call that succeeds
  leaves there what was there before. -/
  errno : Int := 0
  /-- The option read by a `getsockopt` of `SO_ERROR`. -/
  soError : Int := 0
  deriving DecidableEq

/-! ## Outcomes and exceptions -/

/-- The exceptions the library throws. -/
inductive Exception
  /-- `felspar::io::timeout` -/
  | timeout (message : String)
  /-- `felspar::stdexcept::system_error` -/
  | systemError (error : Int) (message : String)
  /-- `felspar::stdexcept::logic_error` -/
  | logicError (message : String)
  /-- `felspar::stdexcept::runtime_error` -/
  | runtimeError (message : String)
  deriving DecidableEq

/-- **The outcome of an API**, the part common to `outcome<void>` and
`outcome<R>`. An IOP with a value gives an integer, a count of bytes or a
descriptor. -/
structure Outcome where
  error : Int := 0
  message : String := ""
  /-- The value, if one was recorded. Unused in an `outcome<void>`. -/
  result : Option Int := none
  deriving DecidableEq

namespace Outcome

/-- `timeout::error` -/
def timeoutError : Int := ETIME

/-- Assigning a value to the outcome. -/
def ofResult (r : Int) : Outcome := { result := some r }

/-- Assigning an `outcome<void>` that holds an error. -/
def ofError (error : Int) (message : String) : Outcome :=
  { error := error, message := message }

/-- `outcome<void>::operator bool`: no error occurred. -/
def ok (o : Outcome) : Bool := o.error = 0

/-- `outcome<void>::throw_exception` -/
def throwException (o : Outcome) : Exception :=
  if o.error = timeoutError then .timeout o.message
  else .systemError o.error o.message

/-- `outcome<void>::value` -/
def valueVoid (o : Outcome) : Except Exception Unit :=
  if o.error ≠ 0 then .error o.throwException else .ok ()

/-- `outcome<R>::value`, as an rvalue. -/
def value (o : Outcome) : Except Exception Int :=
  if o.error ≠ 0 then .error o.throwException
  else match o.result with
    | some r => .ok r
    | none => .error (.logicError "Optional in outcome was empty")

@[simp] theorem value_ofResult (r : Int) : (ofResult r).value = .ok r := rfl

end Outcome

/-! ## Deadlines

A time point of the steady clock is a signed count of nanoseconds in 64
bits, and its arithmetic wraps. -/

/-- A `std::chrono::steady_clock::time_point`, in nanoseconds. -/
abbrev TimePoint := Int

/-- Addition of 64-bit counts. -/
def chronoAdd (a b : Int) : Int := (a + b).bmod (2 ^ 64)

/-- Subtraction of 64-bit counts. -/
def chronoSub (a b : Int) : Int := (a - b).bmod (2 ^ 64)

/-- `deadline_from`, at the clock reading `now`. -/
def deadlineFrom (now timeout : Int) : TimePoint := chronoAdd now timeout

/-- `std::chrono::milliseconds{1}`, in nanoseconds. -/
def oneMillisecond : Int := 1000000

/-- `duration_cast<milliseconds>`, which rounds towards zero. -/
def durationCastMs (ns : Int) : Int := ns.tdiv oneMillisecond

/-- Conversion of a 64-bit count to an `int`. -/
def toInt (n : Int) : Int := n.bmod (2 ^ 32)

/-! ## Deferred coroutine resumption -/

/-- **The queue of deferred resumptions**: the handles to resume in the next
pass, and those the running pass resumes. -/
structure AsyncResumption where
  queued : List Handle := []
  resuming : List Handle := []
  deriving DecidableEq

namespace AsyncResumption

/-- `queue`: append the non-null handles, and say whether there was one. -/
def queue (r : AsyncResumption) : List (Option Handle) → AsyncResumption × Bool
  | [] => (r, false)
  | none :: handles => r.queue handles
  | some h :: handles =>
    ((queue { r with queued := r.queued ++ [h] } handles).1, true)

/-- `has_requests` -/
def hasRequests (r : AsyncResumption) : Bool := !r.queued.isEmpty

/-- The `std::swap` that `resume_all` begins with. -/
def swap (r : AsyncResumption) : AsyncResumption :=
  { queued := r.resuming, resuming := r.queued }

/-- The `resuming.clear()` that `resume_all` ends with. -/
def clearResuming (r : AsyncResumption) : AsyncResumption :=
  { r with resuming := [] }

variable (r : AsyncResumption) (handles : List (Option Handle))

theorem queue_fst : (r.queue handles).1
    = { r with queued := r.queued ++ handles.reduceOption } := by
  induction handles generalizing r with
  | nil => simp [queue]
  | cons h handles ih =>
    cases h with
    | none => rw [queue, ih, List.reduceOption_cons_of_none]
    | some h =>
      rw [queue, ih, List.reduceOption_cons_of_some, List.append_assoc]
      rfl

theorem queue_snd : (r.queue handles).2 = !handles.reduceOption.isEmpty := by
  induction handles generalizing r with
  | nil => rfl
  | cons h handles ih =>
    cases h with
    | none => rw [queue, ih, List.reduceOption_cons_of_none]
    | some h => rw [queue, List.reduceOption_cons_of_some]; rfl

@[simp] theorem queue_resuming : (r.queue handles).1.resuming = r.resuming := by
  rw [queue_fst]

/-- **The queue is empty after `queue` only if it was, and nothing was
queued.** -/
theorem queued_queue_ne_nil_iff : (r.queue handles).1.queued ≠ []
    ↔ r.queued ≠ [] ∨ (r.queue handles).2 = true := by
  rw [queue_fst, queue_snd]
  cases hr : r.queued <;> cases handles.reduceOption <;> simp

end AsyncResumption
