import Felspar.CompoundOperations
import Felspar.PollSuspension

/-!
# Compound operations with a deadline

`read_exactly`, `write_all` and `read_until_lf_strip_cr` pass their deadline
on, unchanged, to every transfer they await, so that it bounds the operation
as a whole. A transfer files it in `timeouts` and tries the system call at
once. If the call does not block, the deadline is taken out again before
anybody has looked at it, and the coroutine goes on to its next transfer.
Only a transfer that has to wait leaves its deadline to `clear_timeouts`, and
the continuation loop of `do_poll` does not ask either whether the deadline of
what it retries has passed.

So a deadline that has passed stops an operation only where its next transfer
has to wait. A descriptor that stays ready is read from for as long as there
is something to read. `punctual_iff_of_run` says exactly when a run keeps to
the deadline: when each system call made for the operation after it would
block, and the earliest deadline of all is not so far in the past that its
distance to the clock overflows.

One coroutine carries the operations out, one after the other, on one
descriptor and with one deadline. What else is going on in the warden is not
restricted, on that descriptor or on others.
-/

namespace PollDeadlines

open Compound (Progress Operation Value)
open PollWarden (iopDestructed timedOutOutcome clearTimeoutsResult Unused unused_iopDestructed)

/-- The call of the warden that awaits a transfer. -/
def call (fd : SocketDescriptor) (D : TimePoint) : Compound.Transfer → PollWarden.Call
  | .readSome size => .readSome fd size (some D)
  | .writeSome bytes => .writeSome fd bytes.length (some D)

/-! ## The coroutine in its warden -/

variable {N : ℕ}

/-- A warden, what its clock read last, and the coroutine with the IOP it is
suspended on. -/
structure State (N : ℕ) where
  warden : PollWarden.State
  now : TimePoint
  coro : Option (Progress (Operation N) Value)
  iop : Option RetrierId

/-- Nothing has been called. -/
def init (wakeFd : SocketDescriptor) (now : TimePoint) : State N where
  warden := PollWarden.init wakeFd
  now := now
  coro := none
  iop := none

/-- The operation has been called, and is not complete. -/
def State.awaiting (s : State N) : Bool :=
  match s.coro with
  | some (.awaits _) => true
  | _ => false

/-- **What happens**, each at a time. -/
inductive Event (N : ℕ)
  /-- An operation is called. -/
  | call (t : TimePoint) (c : Compound.Call N)
  /-- The coroutine comes to its next transfer and awaits it: the system call
  answers `r`, with these bytes. -/
  | transfer (t : TimePoint) (h : Handle) (r : Sys) (bytes : List UInt8)
  /-- The warden takes a step. If it hands the coroutine back after a
  transfer, these are the bytes. -/
  | warden (t : TimePoint) (e : PollWarden.Event) (bytes : List UInt8)
  /-- The coroutine is destroyed while it is suspended. -/
  | drop (t : TimePoint)

/-- When it happens. -/
def Event.time : Event N → TimePoint
  | .call t _ | .transfer t _ _ _ | .warden t _ _ | .drop t => t

/-- The step of the warden is none that only the coroutine can take, and reads
the clock if it reads it. -/
def Admits (iop : Option RetrierId) (t : TimePoint) : PollWarden.Event → Prop
  | .await i _ _ | .destroy i => iop ≠ some i
  | .clock now _ | .create (.sleep now _) => now = t
  | _ => True

instance (iop : Option RetrierId) (t : TimePoint) : DecidablePred (Admits iop t) := fun e =>
  match e with
  | .await i _ _ => inferInstanceAs (Decidable (iop ≠ some i))
  | .destroy i => inferInstanceAs (Decidable (iop ≠ some i))
  | .clock now _ => inferInstanceAs (Decidable (now = t))
  | .create c => by
    cases c <;> first
      | exact inferInstanceAs (Decidable (_ = t))
      | exact inferInstanceAs (Decidable True)
  | .asyncResume _ _ | .runUntil _ | .runBatch | .suspend | .poll _ | .retry _
  | .resumeNext => inferInstanceAs (Decidable True)

/-- The coroutine goes on when the warden hands it back: the IOP goes out of
scope with its outcome, which is a number of bytes or is thrown. -/
def settle (s : State N) (bytes : List UInt8) : Option (State N) :=
  match s.coro, s.iop with
  | some (.awaits op), some id =>
    if s.warden.stage id = .finished then
      (s.warden.completions id).bind fun c =>
        let s := { s with warden := iopDestructed s.warden id c, iop := none }
        match c.result.value with
        | .ok n =>
          if (bytes.length : Int) = n ∧ bytes.length ≤ op.transfer.size then
            some { s with coro := some (op.resume bytes) }
          else none
        | .error e => some { s with coro := some (.throws e) }
    else some s
  | _, _ => some s

/-- **A step.** A coroutine that has been called or handed back runs up to its
next transfer before anything else can happen. -/
def step (fd : SocketDescriptor) (D : TimePoint) (s : State N) (e : Event N) :
    Option (State N) :=
  if e.time < s.now then none
  else match e with
    | .call t c =>
      if s.awaiting = false ∧ s.warden.userRuns = true then
        some { s with now := t, coro := some c.start, iop := none }
      else none
    | .transfer t h r bytes =>
      match s.coro, s.iop with
      | some (.awaits op), none =>
        (PollWarden.step s.warden (.create (call fd D op.transfer))).bind fun w =>
          (PollWarden.step w (.await s.warden.next h r)).bind fun w =>
            settle { s with warden := w, now := t, iop := some s.warden.next } bytes
      | _, _ => none
    | .warden t e bytes =>
      if (s.awaiting = true ∧ s.iop = none) ∨ ¬ Admits s.iop t e then none
      else (PollWarden.step s.warden e).bind fun w =>
        settle { s with warden := w, now := t } bytes
    | .drop t =>
      s.iop.bind fun id => (PollWarden.step s.warden (.destroy id)).map fun w =>
        { s with warden := w, now := t, coro := none, iop := none }

/-- The loop of the warden is about to retry the transfer. -/
def State.Retried (s : State N) : Prop :=
  match s.iop with
  | some id => s.warden.Retries id
  | none => False

instance (s : State N) : Decidable s.Retried := by
  unfold State.Retried
  split
  · exact inferInstance
  · exact inferInstanceAs (Decidable False)

/-! ## What is seen of it -/

/-- What is seen of a run. -/
inductive Obs
  /-- A system call for a transfer of the operation. -/
  | called (t : TimePoint) (r : Sys)
  /-- The operation ends after a transfer. -/
  | ended (t : TimePoint) (how : Except Exception Value)
  /-- A call of `clear_timeouts` returns. -/
  | cleared (t : TimePoint) (awaiting : Bool)
  deriving DecidableEq

/-- When it is seen. -/
def Obs.time : Obs → TimePoint
  | .called t _ | .ended t _ | .cleared t _ => t

/-- What answers the system call that a step makes for the operation, if it
makes one. -/
def State.answer (s : State N) : Event N → Option Sys
  | .transfer _ _ r _ => some r
  | .warden _ (.retry r) _ => if s.Retried then some r else none
  | _ => none

/-- How the operation ends with a step. -/
def ends (s s' : State N) (t : TimePoint) : List Obs :=
  match s.awaiting, s'.coro with
  | true, some (.returns _ v) => [.ended t (.ok v)]
  | true, some (.throws e) => [.ended t (.error e)]
  | _, _ => []

/-- The condition of the loop of `clear_timeouts` has it go on, or the first
deadline is due. -/
def Due (w : PollWarden.State) (t : TimePoint) : Prop :=
  match w.timeouts.entries with
  | [] => False
  | (k, _) :: _ => chronoSub k t < oneMillisecond

instance (w : PollWarden.State) (t : TimePoint) : Decidable (Due w t) := by
  unfold Due
  split
  · exact inferInstanceAs (Decidable False)
  · exact inferInstanceAs (Decidable (_ < _))

/-- A step that is the last of a call of `clear_timeouts`. -/
def clears (s s' : State N) : Event N → List Obs
  | .warden t (.clock _ _) _ => if Due s.warden t then [] else [.cleared t s'.awaiting]
  | _ => []

/-- **What is seen of a step.** -/
def obs (fd : SocketDescriptor) (D : TimePoint) (s : State N) (e : Event N) : List Obs :=
  (step fd D s e).elim [] fun s' =>
    (s.answer e).toList.map (Obs.called e.time) ++ ends s s' e.time ++ clears s s' e

/-- **What keeps to the deadline**: after it no transfer succeeds, the
operation ends with a time out if it ends, and it has ended when
`clear_timeouts` returns. -/
def Punctual (D : TimePoint) : Obs → Prop
  | .called t r => D < t → r.ret < 0
  | .ended t how => D < t → ∃ message, how = .error (.timeout message)
  | .cleared t awaiting => D < t → awaiting = false

/-! ## The condition -/

/-- A system call that would block, or fails with the error of a time out. -/
def Blocks (r : Sys) : Prop :=
  r.ret < 0 ∧ (wouldBlock r.errno = true ∨ r.errno = Outcome.timeoutError)

instance : DecidablePred Blocks := fun _ => inferInstanceAs (Decidable (_ ∧ _))

/-- **Every late system call for the operation blocks**, and the first
deadline is found to be due. -/
def BlocksLate (D : TimePoint) (s : State N) (e : Event N) : Prop :=
  D < e.time → (∀ r ∈ s.answer e, Blocks r) ∧ match e with
    | .warden t (.clock _ _) _ => s.awaiting = true → Due s.warden t
    | _ => True

instance (D : TimePoint) : DecidableRel (BlocksLate (N := N) D) := fun s e => by
  unfold BlocksLate
  refine @instDecidableForall _ _ inferInstance (@instDecidableAnd _ _ inferInstance ?_)
  split
  · exact inferInstance
  · exact inferInstanceAs (Decidable True)

/-- What `clear_timeouts` times out is due. -/
theorem due_of_head {w : PollWarden.State} {t k : TimePoint} {id : RetrierId}
    {l : List (TimePoint × RetrierId)} (he : w.timeouts.entries = (k, id) :: l)
    (h : clearTimeoutsResult k t = none) : Due w t := by
  unfold Due
  rw [he]
  unfold clearTimeoutsResult at h
  by_contra hlt
  dsimp only at h
  rw [if_neg hlt] at h
  exact absurd h (by simp)

/-! ## What a transfer comes to -/

section Transfer

variable {fd : SocketDescriptor} {D t : TimePoint} {tr : Compound.Transfer} {r : Sys}
  {o : Outcome}

theorem call_transfers : (call fd D tr).completion.op.Transfers := by
  cases tr <;> trivial

theorem call_deadline : (call fd D tr).completion.deadline = some D := by
  cases tr <;> rfl

theorem call_waits : (call fd D tr).completion.op.waits r = (r.ret < 0 && wouldBlock r.errno) := by
  cases tr <;> rfl

/-- A transfer that succeeds gives the number of its bytes. -/
theorem value_answered_of_nonneg (fd : SocketDescriptor) (D : TimePoint)
    (tr : Compound.Transfer) (o : Outcome) (h : 0 ≤ r.ret) :
    ((call fd D tr).completion.op.answered r o).value = .ok r.ret := by
  cases tr <;> exact (congrArg Outcome.value (if_pos h)).trans (Outcome.value_ofResult r.ret)

/-- An error is thrown, and is a time out if it has the code of one. -/
theorem value_ofError (error : Int) (name : String) :
    ∃ e, (Outcome.ofError error name).value = .error e
      ∧ ((∃ message, e = .timeout message) ↔ error = Outcome.timeoutError) := by
  unfold Outcome.value Outcome.ofError Outcome.throwException
  dsimp only
  by_cases hz : error = 0
  · rw [if_neg (not_not.mpr hz), hz]
    exact ⟨_, rfl, by simp [Outcome.timeoutError]⟩
  · rw [if_pos hz]
    by_cases ht : error = Outcome.timeoutError
    · rw [if_pos ht]
      exact ⟨_, rfl, by simp [ht]⟩
    · rw [if_neg ht]
      exact ⟨_, rfl, by simp [ht]⟩

theorem value_answered_of_neg (fd : SocketDescriptor) (D : TimePoint)
    (tr : Compound.Transfer) (o : Outcome) (h : r.ret < 0) :
    ∃ e, ((call fd D tr).completion.op.answered r o).value = .error e
      ∧ ((∃ message, e = .timeout message) ↔ r.errno = Outcome.timeoutError) := by
  cases tr with
  | readSome size =>
    have he : (call fd D (.readSome size)).completion.op.answered r o
        = Outcome.ofError r.errno "read" := if_neg (not_le.mpr h)
    rw [he]
    exact value_ofError r.errno "read"
  | writeSome bytes =>
    have he : (call fd D (.writeSome bytes)).completion.op.answered r o
        = Outcome.ofError r.errno "write" := if_neg (not_le.mpr h)
    rw [he]
    exact value_ofError r.errno "write"

end Transfer

/-! ## The invariant -/

/-- The coroutine is suspended on this transfer: the warden has the
completion, and its deadline in `timeouts`. -/
structure Waiting (w : PollWarden.State) (op : PollWarden.Op) (D : TimePoint) (id : RetrierId) :
    Prop where
  completion : ∃ c, w.completions id = some c ∧ c.op = op
  stage : w.stage id = .suspended
  keys : w.timeouts.keysOf id = [D]

theorem Waiting.of_core {w w' : PollWarden.State} {op : PollWarden.Op} {D : TimePoint}
    {id : RetrierId} (h : Waiting w op D id) (hcore : w'.core id = w.core id) :
    Waiting w' op D id := by
  obtain ⟨c, hc, hop⟩ := h.completion
  exact ⟨⟨c, (congrArg PollWarden.Core.completion hcore).trans hc, hop⟩,
    (congrArg PollWarden.Core.stage hcore).trans h.stage,
    (congrArg PollWarden.Core.keys hcore).trans h.keys⟩

/-- **What holds in every run**: the IOP the coroutine has is of the transfer
it awaits, and it is suspended on it. -/
structure Invariant (fd : SocketDescriptor) (D : TimePoint) (s : State N) : Prop where
  unused : Unused s.warden
  waiting : ∀ id, s.iop = some id → ∃ op, s.coro = some (.awaits op)
    ∧ Waiting s.warden (call fd D op.transfer).completion.op D id

theorem Invariant.waiting_of_awaits {fd : SocketDescriptor} {D : TimePoint} {s : State N}
    (h : Invariant fd D s) {op : Operation N} {id : RetrierId}
    (hcoro : s.coro = some (.awaits op)) (hiop : s.iop = some id) :
    Waiting s.warden (call fd D op.transfer).completion.op D id := by
  obtain ⟨op', hcoro', hwaiting⟩ := h.waiting id hiop
  obtain rfl := Progress.awaits.inj (Option.some.inj (hcoro.symm.trans hcoro'))
  exact hwaiting

/-- **What a step comes to** for a coroutine that awaits the transfer of `op`,
by the answer of the system call if one is made. -/
inductive Settled (fd : SocketDescriptor) (D : TimePoint) (op : Operation N) (s' : State N) :
    Option Sys → Prop
  /-- The transfer waits, after a call that blocks or after none. -/
  | waits {r : Option Sys} (id : RetrierId) (hiop : s'.iop = some id)
      (hcoro : s'.coro = some (.awaits op))
      (hwaiting : Waiting s'.warden (call fd D op.transfer).completion.op D id)
      (hr : ∀ a ∈ r, (call fd D op.transfer).completion.op.waits a = true) : Settled fd D op s' r
  /-- The transfer has succeeded. -/
  | succeeds {r : Sys} (bytes : List UInt8) (hiop : s'.iop = none) (hr : 0 ≤ r.ret)
      (hcoro : s'.coro = some (op.resume bytes)) : Settled fd D op s' (some r)
  /-- It has failed. -/
  | fails {r : Sys} (e : Exception) (hiop : s'.iop = none) (hr : r.ret < 0)
      (hw : wouldBlock r.errno = false) (hcoro : s'.coro = some (.throws e))
      (ht : (∃ message, e = .timeout message) ↔ r.errno = Outcome.timeoutError) :
      Settled fd D op s' (some r)
  /-- It has timed out, and no call has been made. -/
  | timesOut (message : String) (hiop : s'.iop = none)
      (hcoro : s'.coro = some (.throws (.timeout message))) : Settled fd D op s' none

section Settle

variable {fd : SocketDescriptor} {D t : TimePoint} {s s' : State N} {op : Operation N}
  {id : RetrierId} {c : PollWarden.Completion} {bytes : List UInt8} {r : Sys}

theorem settle_waits (s : State N) (hiop : s.iop = some id) (hst : s.warden.stage id = .suspended) :
    settle s bytes = some s := by
  unfold settle
  split
  · rename_i op' id' hcoro hiop'
    obtain rfl := Option.some.inj (hiop.symm.trans hiop')
    rw [hst, if_neg (by simp)]
  · rfl

theorem settle_none (hiop : s.iop = none) : settle s bytes = some s := by
  unfold settle
  rw [hiop]
  split
  · rename_i heq
    exact absurd heq (by simp)
  · rfl

/-- A coroutine that is handed back returns, or throws. -/
theorem settle_finished (s : State N) (hcoro : s.coro = some (.awaits op)) (hiop : s.iop = some id)
    (hc : s.warden.completions id = some c) (hst : s.warden.stage id = .finished)
    (hs : settle s bytes = some s') :
    s'.warden = iopDestructed s.warden id c ∧ s'.iop = none
      ∧ ((∃ n, c.result.value = .ok n ∧ s'.coro = some (op.resume bytes))
        ∨ ∃ e, c.result.value = .error e ∧ s'.coro = some (.throws e)) := by
  unfold settle at hs
  rw [hcoro, hiop] at hs
  dsimp only at hs
  rw [if_pos hst, hc] at hs
  dsimp only [Option.bind_some] at hs
  split at hs
  · split at hs
    · obtain rfl := Option.some.inj hs
      exact ⟨rfl, rfl, Or.inl ⟨_, ‹_›, rfl⟩⟩
    · exact absurd hs (by simp)
  · obtain rfl := Option.some.inj hs
    exact ⟨rfl, rfl, Or.inr ⟨_, ‹_›, rfl⟩⟩

/-- **A transfer that has not been answered** waits on. -/
theorem settled_waiting (s : State N) (hcoro : s.coro = some (.awaits op))
    (hiop : s.iop = some id)
    (hwaiting : Waiting s.warden (call fd D op.transfer).completion.op D id) {r : Option Sys}
    (hr : ∀ a ∈ r, (call fd D op.transfer).completion.op.waits a = true)
    (hs : settle s bytes = some s') : s'.warden = s.warden ∧ Settled fd D op s' r := by
  rw [settle_waits s hiop hwaiting.stage] at hs
  obtain rfl := Option.some.inj hs
  exact ⟨rfl, Settled.waits id hiop hcoro hwaiting hr⟩

/-- **A transfer that has been answered** has succeeded or failed. -/
theorem settled_answered (s : State N) (hcoro : s.coro = some (.awaits op)) (hiop : s.iop = some id)
    {o : Outcome} (hc : s.warden.completions id = some c)
    (hres : c.result = (call fd D op.transfer).completion.op.answered r o)
    (hst : s.warden.stage id = .finished)
    (hw : (call fd D op.transfer).completion.op.waits r = false) (hunused : Unused s.warden)
    (hs : settle s bytes = some s') : Unused s'.warden ∧ Settled fd D op s' (some r) := by
  obtain ⟨hwarden, hiop', hcoro'⟩ := settle_finished s hcoro hiop hc hst hs
  rw [hwarden]
  refine ⟨unused_iopDestructed hunused hc, ?_⟩
  rw [hres] at hcoro'
  by_cases hr : 0 ≤ r.ret
  · rw [value_answered_of_nonneg fd D op.transfer o hr] at hcoro'
    rcases hcoro' with ⟨n, -, hcoro'⟩ | ⟨e, he, -⟩
    · exact Settled.succeeds bytes hiop' hr hcoro'
    · exact absurd he (by simp)
  · have hr : r.ret < 0 := not_le.mp hr
    obtain ⟨e, he, ht⟩ := value_answered_of_neg fd D op.transfer o hr
    rw [he] at hcoro'
    rcases hcoro' with ⟨n, he', -⟩ | ⟨e', he', hcoro'⟩
    · exact absurd he' (by simp)
    · obtain rfl := Except.error.inj he'
      rw [call_waits, decide_eq_true hr, Bool.true_and] at hw
      exact Settled.fails e hiop' hr hw hcoro' ht

end Settle

/-! ## The steps -/

section Steps

variable {fd : SocketDescriptor} {D t : TimePoint} {s s' : State N} {op : Operation N}
  {id : RetrierId} {bytes : List UInt8} {r : Sys} {a : Handle} {e : PollWarden.Event}

theorem step_transfer (hs : step fd D s (.transfer t a r bytes) = some s') :
    ∃ op w₁ w₂, s.coro = some (.awaits op) ∧ s.iop = none
      ∧ PollWarden.step s.warden (.create (call fd D op.transfer)) = some w₁
      ∧ PollWarden.step w₁ (.await s.warden.next a r) = some w₂
      ∧ settle { s with warden := w₂, now := t, iop := some s.warden.next } bytes = some s' := by
  unfold step at hs
  split at hs
  · exact absurd hs (by simp)
  · dsimp only at hs
    split at hs
    · rename_i op hcoro hiop
      obtain ⟨w₁, h₁, hs⟩ := Option.bind_eq_some_iff.mp hs
      obtain ⟨w₂, h₂, hs⟩ := Option.bind_eq_some_iff.mp hs
      exact ⟨op, w₁, w₂, hcoro, hiop, h₁, h₂, hs⟩
    · exact absurd hs (by simp)

theorem step_warden (hs : step fd D s (.warden t e bytes) = some s') :
    ¬ (s.awaiting = true ∧ s.iop = none) ∧ Admits s.iop t e
      ∧ ∃ w, PollWarden.step s.warden e = some w
        ∧ settle { s with warden := w, now := t } bytes = some s' := by
  unfold step at hs
  split at hs
  · exact absurd hs (by simp)
  · dsimp only at hs
    split at hs
    · exact absurd hs (by simp)
    · rename_i hok
      rw [not_or, not_not] at hok
      obtain ⟨w, h, hs⟩ := Option.bind_eq_some_iff.mp hs
      exact ⟨hok.1, hok.2, w, h, hs⟩

/-- **Awaiting the next transfer**: it is answered at once, or waits with its
deadline filed. -/
theorem settled_transfer (h : Invariant fd D s) (hcoro : s.coro = some (.awaits op))
    (hs : step fd D s (.transfer t a r bytes) = some s') :
    Unused s'.warden ∧ Settled fd D op s' (some r) := by
  obtain ⟨op', w₁, w₂, hcoro', hiop, h₁, h₂, hs⟩ := step_transfer hs
  obtain rfl := Progress.awaits.inj (Option.some.inj (hcoro.symm.trans hcoro'))
  have hunused : Unused w₂ :=
    PollWarden.unused_of_step (PollWarden.unused_of_step h.unused h₁) h₂
  have hawaited := PollWarden.awaited_of_created h.unused _ call_transfers h₁ h₂
  cases hw : (call fd D op.transfer).completion.op.waits r with
  | true =>
    have hcore := hawaited.1 hw
    rw [call_deadline] at hcore
    have hwaiting : Waiting w₂ (call fd D op.transfer).completion.op D s.warden.next :=
      ⟨⟨_, congrArg PollWarden.Core.completion hcore, rfl⟩,
        congrArg PollWarden.Core.stage hcore, congrArg PollWarden.Core.keys hcore⟩
    have hr : ∀ b ∈ some r, (call fd D op.transfer).completion.op.waits b = true := by
      rintro b hb
      rw [← Option.some.inj hb]
      exact hw
    obtain ⟨hwarden, hsettled⟩ := settled_waiting
      { s with warden := w₂, now := t, iop := some s.warden.next } hcoro rfl hwaiting hr hs
    exact ⟨hwarden ▸ hunused, hsettled⟩
  | false =>
    obtain ⟨hc, hst⟩ := hawaited.2 hw
    exact settled_answered { s with warden := w₂, now := t, iop := some s.warden.next } hcoro rfl
      hc rfl hst hw hunused hs

/-- **A step of the warden** leaves the transfer, retries it, or times it
out. -/
theorem settled_warden (h : Invariant fd D s) (hcoro : s.coro = some (.awaits op))
    (hs : step fd D s (.warden t e bytes) = some s') :
    Unused s'.warden ∧ Settled fd D op s' (s.answer (.warden t e bytes)) := by
  obtain ⟨hrun, hadmits, w, hw, hset⟩ := step_warden hs
  have hawaiting : s.awaiting = true := by
    unfold State.awaiting
    rw [hcoro]
  cases hiop : s.iop with
  | none => exact absurd ⟨hawaiting, hiop⟩ hrun
  | some id =>
    have hwaiting := h.waiting_of_awaits hcoro hiop
    obtain ⟨c, hc, hop⟩ := hwaiting.completion
    have hst := hwaiting.stage
    have hunused : Unused w := PollWarden.unused_of_step h.unused hw
    have htransfers : c.op.Transfers := by
      rw [hop]
      exact call_transfers
    have hretried : s.Retried ↔ s.warden.Retries id := by
      unfold State.Retried
      rw [hiop]
    rw [hiop] at hadmits
    have hawait : ∀ h r, e ≠ .await id h r := by
      rintro h r rfl
      exact hadmits rfl
    have hdestroy : e ≠ .destroy id := by
      rintro rfl
      exact hadmits rfl
    cases PollWarden.suspended_of_step hw hc hst htransfers (ne_of_lt (h.unused.lt_next hc))
      hawait hdestroy with
    | stays hr hcore =>
      have hanswer : s.answer (.warden t e bytes) = none := by
        cases e with
        | retry r => exact if_neg (fun hret => hr r rfl (hretried.mp hret))
        | _ => rfl
      rw [hanswer]
      obtain ⟨hwarden, hsettled⟩ := settled_waiting { s with warden := w, now := t } hcoro hiop
        (hwaiting.of_core hcore) (r := none) (by simp) hset
      exact ⟨hwarden ▸ hunused, hsettled⟩
    | @blocks r _ hr hwaits hcore =>
      have hanswer : s.answer (.warden t (.retry r) bytes) = some r :=
        if_pos (hretried.mpr hr)
      rw [hanswer]
      have hr : ∀ a ∈ some r, (call fd D op.transfer).completion.op.waits a = true := by
        rintro a ha
        rw [← Option.some.inj ha, ← hop]
        exact hwaits
      obtain ⟨hwarden, hsettled⟩ := settled_waiting { s with warden := w, now := t } hcoro hiop
        (hwaiting.of_core hcore) hr hset
      exact ⟨hwarden ▸ hunused, hsettled⟩
    | @answers r _ hr hwaits hc' hst' =>
      have hanswer : s.answer (.warden t (.retry r) bytes) = some r :=
        if_pos (hretried.mpr hr)
      rw [hanswer]
      rw [hop] at hwaits
      exact settled_answered { s with warden := w, now := t } hcoro hiop hc'
        (congrArg (·.answered r c.result) hop) hst' hwaits hunused hset
    | @timesOut now done _ hc' hst' =>
      obtain ⟨hwarden, hiop', hcoro'⟩ :=
        settle_finished { s with warden := w, now := t } hcoro hiop hc' hst' hset
      rw [hwarden]
      refine ⟨unused_iopDestructed hunused hc', ?_⟩
      rcases hcoro' with ⟨n, hv, -⟩ | ⟨x, hv, hcoro'⟩
      · exact absurd hv (by simp [timedOutOutcome, Outcome.ofError, Outcome.value,
          Outcome.timeoutError])
      · obtain rfl : Exception.timeout "IOP timed out" = x := Except.error.inj hv
        exact Settled.timesOut _ hiop' hcoro'

theorem Settled.invariant {r : Option Sys} (h : Settled fd D op s' r) (hu : Unused s'.warden) :
    Invariant fd D s' := by
  refine ⟨hu, fun i hi => ?_⟩
  cases h with
  | waits id hiop hcoro hwaiting hr =>
    obtain rfl := Option.some.inj (hiop.symm.trans hi)
    exact ⟨op, hcoro, hwaiting⟩
  | succeeds bytes hiop => exact absurd (hiop.symm.trans hi) (by simp)
  | fails e hiop => exact absurd (hiop.symm.trans hi) (by simp)
  | timesOut message hiop => exact absurd (hiop.symm.trans hi) (by simp)

/-- When no operation is being carried out, a step starts one, or is a step of
the warden. -/
theorem step_of_not_awaiting (h : Invariant fd D s) (hawaiting : s.awaiting = false)
    {e : Event N} (hs : step fd D s e = some s') :
    s.answer e = none ∧ s'.iop = none ∧ Unused s'.warden
      ∧ ((∃ t c, e = .call t c) ∨ s'.awaiting = false) := by
  have hne : ∀ op, s.coro ≠ some (.awaits op) := by
    intro op hcoro
    unfold State.awaiting at hawaiting
    rw [hcoro] at hawaiting
    exact absurd hawaiting (by simp)
  have hiop : s.iop = none := by
    by_contra hsome
    obtain ⟨id, hid⟩ := Option.ne_none_iff_exists'.mp hsome
    obtain ⟨op, hcoro, -⟩ := h.waiting id hid
    exact hne op hcoro
  cases e with
  | call t c =>
    unfold step at hs
    split at hs
    · exact absurd hs (by simp)
    · dsimp only at hs
      split at hs
      · obtain rfl := Option.some.inj hs
        exact ⟨rfl, rfl, h.unused, Or.inl ⟨t, c, rfl⟩⟩
      · exact absurd hs (by simp)
  | transfer t a r bytes =>
    obtain ⟨op, -, -, hcoro, -⟩ := step_transfer hs
    exact absurd hcoro (hne op)
  | warden t e bytes =>
    obtain ⟨-, -, w, hw, hset⟩ := step_warden hs
    rw [settle_none (s := { s with warden := w, now := t }) hiop] at hset
    obtain rfl := Option.some.inj hset
    refine ⟨?_, hiop, PollWarden.unused_of_step h.unused hw, Or.inr hawaiting⟩
    cases e with
    | retry r =>
      refine if_neg ?_
      unfold State.Retried
      rw [hiop]
      exact not_false
    | _ => rfl
  | drop t =>
    unfold step at hs
    split at hs
    · exact absurd hs (by simp)
    · rw [hiop] at hs
      exact absurd hs (by simp)

/-- **Dropping the coroutine** ends the operation without an outcome. -/
theorem step_drop (h : Invariant fd D s) (hs : step fd D s (.drop t) = some s') :
    s'.coro = none ∧ Invariant fd D s' := by
  unfold step at hs
  split at hs
  · exact absurd hs (by simp)
  · obtain ⟨id, -, hs⟩ := Option.bind_eq_some_iff.mp hs
    obtain ⟨w, hw, rfl⟩ := Option.map_eq_some_iff.mp hs
    exact ⟨rfl, PollWarden.unused_of_step h.unused hw, fun i hi => absurd hi (by simp)⟩

/-- What a step of an operation that is being carried out comes to. -/
theorem settled_of_step (h : Invariant fd D s) (hcoro : s.coro = some (.awaits op))
    {e : Event N} (hdrop : ∀ t, e ≠ .drop t) (hs : step fd D s e = some s') :
    Unused s'.warden ∧ Settled fd D op s' (s.answer e) := by
  cases e with
  | call t c =>
    unfold step State.awaiting at hs
    rw [hcoro] at hs
    split at hs <;> exact absurd hs (by simp)
  | transfer t a r bytes => exact settled_transfer h hcoro hs
  | warden t e bytes => exact settled_warden h hcoro hs
  | drop t => exact absurd rfl (hdrop t)

theorem awaiting_cases (s : State N) :
    s.awaiting = false ∨ ∃ op, s.coro = some (.awaits op) := by
  unfold State.awaiting
  split
  · exact Or.inr ⟨_, ‹_›⟩
  · exact Or.inl rfl

/-- **A step keeps the invariant.** -/
theorem invariant_of_step (h : Invariant fd D s) {e : Event N} (hs : step fd D s e = some s') :
    Invariant fd D s' := by
  rcases awaiting_cases s with hawaiting | ⟨op, hcoro⟩
  · obtain ⟨-, hiop, hunused, -⟩ := step_of_not_awaiting h hawaiting hs
    exact ⟨hunused, fun i hi => absurd (hiop.symm.trans hi) (by simp)⟩
  · by_cases hdrop : ∃ t, e = .drop t
    · obtain ⟨t, rfl⟩ := hdrop
      exact (step_drop h hs).2
    · obtain ⟨hu, hset⟩ := settled_of_step h hcoro (fun t he => hdrop ⟨t, he⟩) hs
      exact hset.invariant hu

theorem invariant_init (wakeFd : SocketDescriptor) (now : TimePoint) :
    Invariant fd D (init wakeFd now : State N) :=
  ⟨PollWarden.unused_init wakeFd, fun i hi => absurd hi (by simp [init])⟩

end Steps

/-! ## When a step keeps to the deadline -/

section Punctual

variable {fd : SocketDescriptor} {D t : TimePoint} {s s' : State N} {op : Operation N}
  {bytes : List UInt8} {e : Event N}

/-- What is seen in time keeps to the deadline, whatever it is. -/
theorem punctual_of_not_late {x : Obs} (h : ¬ D < x.time) : Punctual D x := by
  cases x <;> exact fun hlate => absurd hlate h

theorem time_of_mem_ends {x : Obs} (h : x ∈ ends s s' t) : x.time = t := by
  unfold ends at h
  split at h
  · rw [List.mem_singleton.mp h]
    rfl
  · rw [List.mem_singleton.mp h]
    rfl
  · exact absurd h List.not_mem_nil

/-- **What is seen of the operation** keeps to the deadline if the system call
does. -/
theorem punctual_of_settled {r : Option Sys} (h : Settled fd D op s' r)
    (hcoro : s.coro = some (.awaits op)) :
    (∀ x ∈ r.toList.map (Obs.called t) ++ ends s s' t, Punctual D x)
      ↔ (D < t → ∀ a ∈ r, Blocks a) := by
  have hawaiting : s.awaiting = true := by
    unfold State.awaiting
    rw [hcoro]
  unfold ends
  rw [hawaiting]
  cases h with
  | waits id hiop hcoro' hwaiting hr =>
    rw [hcoro', List.append_nil]
    have hblocks : ∀ a ∈ r, Blocks a := by
      intro a ha
      have hw := hr a ha
      rw [call_waits, Bool.and_eq_true, decide_eq_true_eq] at hw
      exact ⟨hw.1, Or.inl hw.2⟩
    refine iff_of_true (fun x hx => ?_) (fun _ => hblocks)
    obtain ⟨a, ha, rfl⟩ := List.mem_map.mp hx
    exact fun _ => (hblocks a (Option.mem_toList.mp ha)).1
  | @succeeds r bytes hiop hr hcoro' =>
    -- the call does not block, so neither side allows it to be late
    constructor
    · intro h hlate
      have hneg : r.ret < 0 := h (.called t r) (by simp) hlate
      exact absurd hr (not_le.mpr hneg)
    · intro h x hx
      have hlate : ¬ D < t := fun hlate => absurd hr (not_le.mpr (h hlate r rfl).1)
      refine punctual_of_not_late fun hl => hlate ?_
      rcases List.mem_append.mp hx with hx | hx
      · obtain rfl : x = .called t r := by simpa using hx
        exact hl
      · have htime : x.time = t := time_of_mem_ends (by unfold ends; rw [hawaiting]; exact hx)
        rwa [htime] at hl
  | @fails r e hiop hr hw hcoro' ht =>
    rw [hcoro']
    constructor
    · intro h hlate a ha
      obtain rfl := Option.some.inj ha
      obtain ⟨message, hm⟩ := h (.ended t (.error e)) (by simp) hlate
      exact ⟨hr, Or.inr (ht.mp ⟨message, Except.error.inj hm⟩)⟩
    · intro h x hx
      have hx : x = .called t r ∨ x = .ended t (.error e) := by simpa using hx
      rcases hx with rfl | rfl
      · exact fun _ => hr
      · intro hlate
        rcases (h hlate r rfl).2 with hb | hb
        · rw [hw] at hb
          exact absurd hb (by simp)
        · obtain ⟨message, rfl⟩ := ht.mpr hb
          exact ⟨message, rfl⟩
  | timesOut message hiop hcoro' =>
    rw [hcoro']
    refine iff_of_true (fun x hx => ?_) (fun _ a ha => absurd ha (by simp))
    obtain rfl : x = .ended t (.error (.timeout message)) := by simpa using hx
    exact fun _ => ⟨message, rfl⟩

/-- A first deadline that is not due leaves all that `clear_timeouts` could
time out. -/
theorem awaiting_of_not_due (h : Invariant fd D s) {now : TimePoint} {done : Bool}
    (hs : step fd D s (.warden t (.clock now done) bytes) = some s') (hdue : ¬ Due s.warden t) :
    s'.awaiting = s.awaiting := by
  obtain ⟨-, rfl, w, hw, hset⟩ := step_warden hs
  have hcore : ∀ id, w.core id = s.warden.core id := by
    intro id
    cases (PollWarden.stepped_of_step hw).2 with
    | @clock f _ hf hp =>
      have hcleared := PollWarden.clearedTimeouts s.warden f now done
      generalize PollWarden.clearTimeouts s.warden f now done = w at hcleared ⊢
      cases hcleared with
      | leaves => rfl
      | polls => exact PollWarden.core_goto s.warden _
      | fails he hresult => exact absurd (due_of_head he hresult) hdue
      | timesOut he hresult => exact absurd (due_of_head he hresult) hdue
  cases hiop : s.iop with
  | none =>
    rw [settle_none (s := { s with warden := w, now := now }) hiop] at hset
    rw [← Option.some.inj hset]
    rfl
  | some id =>
    obtain ⟨op, -, hwaiting⟩ := h.waiting id hiop
    have hstage : w.stage id = .suspended :=
      (congrArg PollWarden.Core.stage (hcore id)).trans hwaiting.stage
    rw [settle_waits { s with warden := w, now := now } hiop hstage] at hset
    rw [← Option.some.inj hset]
    rfl

/-- **A step keeps to the deadline** if and only if it blocks when it is
late. -/
theorem punctual_iff_of_step (h : Invariant fd D s) (e : Event N)
    (hs : step fd D s e = some s') : (∀ x ∈ obs fd D s e, Punctual D x) ↔ BlocksLate D s e := by
  have hobs : obs fd D s e
      = ((s.answer e).toList.map (Obs.called e.time) ++ ends s s' e.time) ++ clears s s' e := by
    unfold obs
    rw [hs]
    rfl
  rw [hobs, List.forall_mem_append]
  unfold BlocksLate
  rw [imp_and]
  refine and_congr ?_ ?_
  · rcases awaiting_cases s with hawaiting | ⟨op, hcoro⟩
    · obtain ⟨hanswer, -⟩ := step_of_not_awaiting h hawaiting hs
      rw [hanswer]
      refine iff_of_true (fun x hx => ?_) (fun _ a ha => absurd ha (by simp))
      unfold ends at hx
      rw [hawaiting] at hx
      exact absurd hx (by simp)
    · by_cases hdrop : ∃ t, e = .drop t
      · obtain ⟨t, rfl⟩ := hdrop
        refine iff_of_true (fun x hx => ?_) (fun _ a ha => absurd ha (by simp [State.answer]))
        unfold ends at hx
        rw [(step_drop h hs).1] at hx
        exact absurd hx (by simp [State.answer])
      · obtain ⟨-, hset⟩ := settled_of_step h hcoro (fun t he => hdrop ⟨t, he⟩) hs
        exact punctual_of_settled hset hcoro
  · -- only a reading of the clock can be the end of a call of `clear_timeouts`
    unfold clears
    split
    · rename_i t now done bytes
      by_cases hdue : Due s.warden t
      · rw [if_pos hdue]
        exact iff_of_true (fun x hx => absurd hx List.not_mem_nil) (fun _ _ => hdue)
      · rw [if_neg hdue, awaiting_of_not_due h hs hdue, List.forall_mem_singleton]
        refine imp_congr_right fun _ => ?_
        cases s.awaiting with
        | false => exact iff_of_true rfl (fun hf => absurd hf (by simp))
        | true => exact iff_of_false (by simp) (fun hf => hdue (hf rfl))
    · exact iff_of_true (fun x hx => absurd hx List.not_mem_nil) (fun _ => trivial)

end Punctual

/-- Two bytes are read, and the deadline passes before the second. When the
transfer is awaited again it blocks, and `clear_timeouts` times it out. -/
def readThenBlock : List (Event 0) :=
  [.warden 0 (.runUntil 7) [], .call 0 (.readExactly (fun _ => 0) 2),
    .transfer 5 7 { ret := 1 } [104], .transfer 12 7 { ret := -1, errno := EAGAIN } [],
    .warden 12 .suspend [], .warden 20 (.clock 20 false) []]

/-- The same read, of a descriptor that is ready all the time. -/
def readReady : List (Event 0) :=
  [.warden 0 (.runUntil 7) [], .call 0 (.readExactly (fun _ => 0) 2),
    .transfer 5 7 { ret := 1 } [104], .transfer 20 7 { ret := 1 } [105]]

end PollDeadlines
