import Felspar.PollWaiters

/-!
# Closing a descriptor that is waited on

`close_completion` calls `::close` and touches no container of the warden.
The completions that wait for the descriptor stay in `requests`, under its
number, and the next `::poll` is given that number. As long as it is closed,
`::poll` reports `POLLNVAL` for it, the waiters are retried, and their system
calls answer `EBADF`.

That is what becomes of a read, a write and a connect, if the number is not
given to another file in the meantime (`proper_of_run`). If it is, they wait
for that file, and use it. An accept reports the -1 that `::accept4` returned
as if it were a descriptor, and a readiness IOP, which makes no system call,
reports that there was no error.

The files are the ones of the process. Which number a new one gets is up to
the operating system, and everything else that happens in the warden is up to
the program.
-/

namespace PollClose

open PollWarden (Op Side timedOutOutcome clearTimeoutsResult Waiters)

/-! ## The files of the process -/

/-- A file that has been opened, by when it was. -/
abbrev FileId := ℕ

/-- The warden, the open file of each number, and which file has been closed
under each completion that was waiting for it. -/
structure State where
  warden : PollWarden.State
  files : SocketDescriptor → Option FileId
  opened : FileId
  closedUnder : RetrierId → Option FileId

/-- The wake-up pipe of the warden is open. -/
def init (wakeFd : SocketDescriptor) : State where
  warden := PollWarden.init wakeFd
  files := fun fd => if fd = wakeFd then some 0 else none
  opened := 1
  closedUnder := fun _ => none

/-- What happens. -/
inductive Event
  /-- The process opens a file and is given this number. -/
  | opened (fd : SocketDescriptor)
  /-- The warden takes a step. -/
  | warden (e : PollWarden.Event)

namespace State

/-- The number a completion is for. -/
def number (s : State) (id : RetrierId) : Option SocketDescriptor :=
  (s.warden.completions id).bind fun c => c.op.slot.map Prod.fst

/-- The file it is of now. -/
def file (s : State) (id : RetrierId) : Option FileId := (s.number id).bind s.files

/-- The number is of no file. -/
def Closed (s : State) (id : RetrierId) : Prop :=
  match s.number id with
  | some fd => s.files fd = none
  | none => False

instance (s : State) (id : RetrierId) : Decidable (s.Closed id) := by
  unfold Closed
  split
  · exact inferInstance
  · exact inferInstanceAs (Decidable False)

/-- The number is closed, under the completions that wait for its file. -/
def close (s : State) (fd : SocketDescriptor) : State :=
  { s with
    files := fun n => if n = fd then none else s.files n
    closedUnder := fun id => match s.closedUnder id with
      | some home => some home
      | none =>
        if s.warden.stage id = .suspended ∧ s.number id = some fd then s.files fd else none }

end State

/-- The number that a step of the warden closes. -/
def closes (w : PollWarden.State) : PollWarden.Event → Option SocketDescriptor
  | .await id _ _ => (w.completions id).bind fun c => match c.op with
    | .close fd => some fd
    | _ => none
  | _ => none

/-- **A step.** A new file gets a number that is free, and the program does
not close the wake-up pipe of the warden. -/
def step (s : State) : Event → Option State
  | .opened fd =>
    if s.files fd = none then
      some { s with
        files := fun n => if n = fd then some s.opened else s.files n
        opened := s.opened + 1 }
    else none
  | .warden e => (PollWarden.step s.warden e).bind fun w =>
    match closes s.warden e with
    | some fd => if fd = s.warden.wakeFd then none else some { s.close fd with warden := w }
    | none => some { s with warden := w }

/-! ## What is seen of a waiter whose file has been closed -/

/-- What is seen of it. -/
inductive Obs
  /-- A system call is made for it: the file it was waiting for, and the one
  that has the number now. -/
  | called (home : FileId) (file : Option FileId)
  /-- It is retried, or its deadline passes: its coroutine is handed back with
  this outcome, or waits again. -/
  | concluded (outcome : Option Outcome)
  /-- `::poll` has answered while it waits, and a loop is to retry it. -/
  | polled (retried : Bool)
  deriving DecidableEq

/-- A step of the warden makes the system call of the completion. -/
def Calls (w : PollWarden.State) (id : RetrierId) (e : PollWarden.Event) : Prop :=
  (w.completions id).any (fun c => c.op.calls) = true ∧ match e with
    | .retry _ => w.Retries id
    | .await i _ _ => i = id
    | _ => False

instance (w : PollWarden.State) (id : RetrierId) (e : PollWarden.Event) :
    Decidable (Calls w id e) := by
  unfold Calls
  refine @instDecidableAnd _ _ inferInstance ?_
  split
  · exact inferInstance
  · exact inferInstance
  · exact inferInstanceAs (Decidable False)

/-- A step of the warden retries the completion, or times it out. -/
def Concludes (w : PollWarden.State) (id : RetrierId) : PollWarden.Event → Prop
  | .retry _ => w.Retries id
  | .clock now _ => ∃ t, w.timeouts.entries.head? = some (t, id)
      ∧ clearTimeoutsResult t now = none
  | _ => False

instance (w : PollWarden.State) (id : RetrierId) : DecidablePred (Concludes w id) := fun e =>
  match e with
  | .retry _ => inferInstanceAs (Decidable (w.Retries id))
  | .clock now _ =>
    decidable_of_iff (w.timeouts.entries.head?.any
        (fun p => p.2 = id ∧ clearTimeoutsResult p.1 now = none) = true) (by
      rw [Option.any_eq_true]
      constructor
      · rintro ⟨⟨t, i⟩, hhead, h⟩
        obtain ⟨rfl, hdue⟩ := of_decide_eq_true h
        exact ⟨t, hhead, hdue⟩
      · rintro ⟨t, hhead, hdue⟩
        exact ⟨(t, id), hhead, decide_eq_true ⟨rfl, hdue⟩⟩)
  | .create _ | .await _ _ _ | .destroy _ | .asyncResume _ _ | .runUntil _ | .runBatch
  | .suspend | .poll _ | .resumeNext => inferInstanceAs (Decidable False)

/-- The system call. -/
def callsFor (s : State) (id : RetrierId) (home : FileId) (e : PollWarden.Event) : List Obs :=
  if Calls s.warden id e then [.called home (s.file id)] else []

/-- The outcome it has come to. -/
def outcomeOf (w : PollWarden.State) (id : RetrierId) : Option Outcome :=
  if w.stage id = .finished then (w.completions id).map PollWarden.Completion.result else none

/-- What becomes of one that has not been deleted. -/
def concludes (w w' : PollWarden.State) (id : RetrierId) (e : PollWarden.Event) : List Obs :=
  if Concludes w id e ∧ w.completions id ≠ none then [.concluded (outcomeOf w' id)] else []

/-- The poll. One that fails, or that a signal interrupts, says nothing. -/
def pollsOf (w w' : PollWarden.State) (id : RetrierId) : PollWarden.Event → List Obs
  | .poll a =>
    if 0 ≤ a.ret ∧ w.completions id ≠ none ∧ w.stage id = .suspended then
      [.polled (decide (∃ f ∈ w'.frames, id ∈ f.point.pending))]
    else []
  | _ => []

/-- What a step of the warden does for one of them. -/
def seen (s s' : State) (e : PollWarden.Event) (id : RetrierId) : List Obs :=
  match s.closedUnder id with
  | some home =>
    callsFor s id home e ++ concludes s.warden s'.warden id e ++ pollsOf s.warden s'.warden id e
  | none => []

/-- **What is seen of a step**, for all of them. -/
def obs (s : State) : Event → List Obs
  | .opened _ => []
  | .warden e => (step s (.warden e)).elim [] fun s' =>
    (List.range s.warden.next).flatMap (seen s s' e)

/-- **What should be seen**: no system call is made on another file, a retry
ends with `EBADF` and a deadline with a time out, and every poll leads to a
retry. -/
def Proper : Obs → Prop
  | .called home file => ∀ g, file = some g → g = home
  | .concluded outcome => ∃ o, outcome = some o ∧ (o.error = EBADF ∨ o = timedOutOutcome)
  | .polled retried => retried = true

/-! ## The runs -/

/-- **What the operating system does for a number that is closed**: a system
call fails with `EBADF`, and `::poll` counts it and reports `POLLNVAL`. -/
def Honest (s : State) : Event → Prop
  | .warden (.retry r) => ∀ id, id < s.warden.next → s.warden.Retries id → s.Closed id →
      r.ret = -1 ∧ r.errno = EBADF
  | .warden (.poll a) => 0 ≤ a.ret → ∀ fd ∈ (PollWarden.pollFds s.warden).map PollWarden.PollFd.fd,
      s.files fd = none → 0 < a.ret ∧ (a.revents fd).pollnval = true
  | _ => True

instance : DecidableRel Honest := fun s e =>
  match e with
  | .opened _ => inferInstanceAs (Decidable True)
  | .warden e => match e with
    | .retry r => inferInstanceAs (Decidable (∀ id, id < s.warden.next → s.warden.Retries id →
        s.Closed id → r.ret = -1 ∧ r.errno = EBADF))
    | .poll a => inferInstanceAs (Decidable (0 ≤ a.ret →
        ∀ fd ∈ (PollWarden.pollFds s.warden).map PollWarden.PollFd.fd,
          s.files fd = none → 0 < a.ret ∧ (a.revents fd).pollnval = true))
    | .create _ | .await _ _ _ | .destroy _ | .asyncResume _ _ | .runUntil _ | .runBatch
    | .suspend | .clock _ _ | .resumeNext => inferInstanceAs (Decidable True)

/-- The types that report a bad descriptor as the error it is. -/
def reportsBadFd : Op → Bool
  | .readSome _ _ | .writeSome _ _ | .connect _ => true
  | _ => false

/-- **The condition**: a number is not given to another file while a
completion waits on it whose file has been closed, and such a completion is
retried only if it is a read, a write or a connect. -/
def Unreused (s : State) : Event → Prop
  | .opened fd => ∀ id, id < s.warden.next → s.closedUnder id ≠ none → s.number id ≠ some fd
  | .warden (.retry _) => ∀ id, id < s.warden.next → s.warden.Retries id →
      s.closedUnder id ≠ none →
      (s.warden.completions id).all (fun c => reportsBadFd c.op) = true
  | _ => True

instance : DecidableRel Unreused := fun s e =>
  match e with
  | .opened fd => inferInstanceAs (Decidable (∀ id, id < s.warden.next →
      s.closedUnder id ≠ none → s.number id ≠ some fd))
  | .warden e => match e with
    | .retry _ => inferInstanceAs (Decidable (∀ id, id < s.warden.next → s.warden.Retries id →
        s.closedUnder id ≠ none →
        (s.warden.completions id).all (fun c => reportsBadFd c.op) = true))
    | .create _ | .await _ _ _ | .destroy _ | .asyncResume _ _ | .runUntil _ | .runBatch
    | .suspend | .clock _ _ | .poll _ | .resumeNext => inferInstanceAs (Decidable True)

/-! ## The invariant -/

/-- **What holds in every run** that meets the condition: the number of a
completion whose file has been closed is closed. -/
structure Invariant (s : State) : Prop where
  waiters : Waiters s.warden
  closed : ∀ id home, s.closedUnder id = some home → id < s.warden.next
    ∧ ∀ c, s.warden.completions id = some c →
      ∃ fd d, c.op.slot = some (fd, d) ∧ s.files fd = none ∧ fd ≠ s.warden.wakeFd

section Invariant

variable {s s' : State} {id : RetrierId} {home : FileId} {c : PollWarden.Completion}
  {fd : SocketDescriptor} {d : Side}

theorem number_of_slot (hc : s.warden.completions id = some c) (hslot : c.op.slot = some (fd, d)) :
    s.number id = some fd := by
  unfold State.number
  rw [hc]
  show c.op.slot.map Prod.fst = some fd
  rw [hslot]
  rfl

theorem invariant_init (wakeFd : SocketDescriptor) : Invariant (init wakeFd) where
  waiters := PollWarden.waiters_init wakeFd
  closed := fun _ _ h => absurd h (by simp [init])

/-- The warden takes a step, and no file is closed. -/
theorem Invariant.warden (h : Invariant s) {w : PollWarden.State} {e : PollWarden.Event}
    (hw : PollWarden.step s.warden e = some w) : Invariant { s with warden := w } := by
  refine ⟨h.waiters.step hw, fun i home hi => ?_⟩
  obtain ⟨hlt, hclosed⟩ := h.closed i home hi
  refine ⟨lt_of_lt_of_le hlt (PollWarden.next_le_of_step hw), fun c' hc' => ?_⟩
  obtain ⟨c, hc, hop, -⟩ := PollWarden.same_of_step hw hc' (fun _ _ => ne_of_lt hlt)
  obtain ⟨fd, d, hslot, hfile, hwake⟩ := hclosed c hc
  refine ⟨fd, d, ?_, hfile, ?_⟩
  · rw [hop, hslot]
  · show fd ≠ w.wakeFd
    rw [PollWarden.wakeFd_of_step hw]
    exact hwake

/-- **A file is closed** under those that wait for it. -/
theorem Invariant.close (h : Invariant s) (hwake : fd ≠ s.warden.wakeFd) :
    Invariant (s.close fd) := by
  refine ⟨h.waiters, fun i home hi => ?_⟩
  have hfiles : ∀ n, s.files n = none → (s.close fd).files n = none := by
    intro n hn
    show (if n = fd then none else s.files n) = none
    rw [hn, ite_self]
  unfold State.close at hi
  dsimp only at hi
  split at hi
  · rename_i g hg
    obtain ⟨hlt, hclosed⟩ := h.closed i g hg
    refine ⟨hlt, fun c hc => ?_⟩
    obtain ⟨fd', d, hslot, hfile, hwake'⟩ := hclosed c hc
    exact ⟨fd', d, hslot, hfiles fd' hfile, hwake'⟩
  · split at hi
    · rename_i hwaits
      obtain ⟨-, hnumber⟩ := hwaits
      unfold State.number at hnumber
      obtain ⟨c, hc, hfst⟩ := Option.bind_eq_some_iff.mp hnumber
      obtain ⟨⟨fd', d⟩, hslot, rfl⟩ := Option.map_eq_some_iff.mp hfst
      refine ⟨h.waiters.unused.lt_next hc, fun c' hc' => ?_⟩
      obtain rfl := Option.some.inj (hc.symm.trans hc')
      exact ⟨fd', d, hslot, if_pos rfl, hwake⟩
    · exact absurd hi (by simp)

/-- **A step keeps the invariant**, if a number is not reused. -/
theorem Invariant.step (h : Invariant s) {e : Event} (hok : Unreused s e)
    (hs : PollClose.step s e = some s') : Invariant s' := by
  cases e with
  | opened fd =>
    unfold PollClose.step at hs
    dsimp only at hs
    split at hs
    · obtain rfl := Option.some.inj hs
      refine ⟨h.waiters, fun i home hi => ?_⟩
      obtain ⟨hlt, hclosed⟩ := h.closed i home hi
      refine ⟨hlt, fun c hc => ?_⟩
      obtain ⟨fd', d, hslot, hfile, hwake⟩ := hclosed c hc
      refine ⟨fd', d, hslot, ?_, hwake⟩
      have hsome : s.closedUnder i ≠ none := by
        have hi : s.closedUnder i = some home := hi
        rw [hi]
        simp
      have hne : fd' ≠ fd := fun he =>
        hok i hlt hsome ((number_of_slot hc hslot).trans (congrArg some he))
      exact (if_neg hne).trans hfile
    · exact absurd hs (by simp)
  | warden e =>
    obtain ⟨w, hw, hs⟩ := Option.bind_eq_some_iff.mp hs
    split at hs
    · rename_i fd hcloses
      split at hs
      · exact absurd hs (by simp)
      · rename_i hwake
        obtain rfl := Option.some.inj hs
        exact (h.close hwake).warden hw
    · obtain rfl := Option.some.inj hs
      exact h.warden hw

end Invariant

/-! ## What is seen is proper -/

section Proper

variable {s s' : State} {id : RetrierId} {home : FileId} {c : PollWarden.Completion}
  {fd : SocketDescriptor} {d : Side} {w w' : PollWarden.State} {e : PollWarden.Event}

/-- **No system call is made on another file**: there is none. -/
theorem proper_callsFor (h : Invariant s) (hid : s.closedUnder id = some home) :
    ∀ x ∈ callsFor s id home e, Proper x := by
  intro x hx
  unfold callsFor at hx
  split at hx
  · rw [List.mem_singleton.mp hx]
    intro g hg
    unfold State.file State.number at hg
    obtain ⟨fd', hnumber, hfile⟩ := Option.bind_eq_some_iff.mp hg
    obtain ⟨c, hc, hslot⟩ := Option.bind_eq_some_iff.mp hnumber
    obtain ⟨fd, d, hslot', hnone, -⟩ := (h.closed id home hid).2 c hc
    rw [hslot'] at hslot
    obtain rfl : fd = fd' := Option.some.inj hslot
    rw [hnone] at hfile
    exact absurd hfile (by simp)
  · exact absurd hx List.not_mem_nil

/-- A bad descriptor is an error that is reported, of the types that do
so. -/
theorem answered_of_badFd {op : Op} (hop : reportsBadFd op = true) {r : Sys} (hret : r.ret = -1)
    (herrno : r.errno = EBADF) (o : Outcome) :
    op.waits r = false ∧ (op.answered r o).error = EBADF := by
  cases op with
  | readSome fd size => simp [Op.waits, Op.answered, hret, herrno, wouldBlock, Outcome.ofError]
  | writeSome fd size => simp [Op.waits, Op.answered, hret, herrno, wouldBlock, Outcome.ofError]
  | connect fd => simp [Op.waits, Op.answered, hret, herrno, Outcome.ofError]
  | _ => exact absurd hop (by simp [reportsBadFd])

/-- **A retry ends with `EBADF`.** -/
theorem proper_concludes_retry (h : Invariant s) (hid : s.closedUnder id = some home) {r : Sys}
    (hhonest : Honest s (.warden (.retry r))) (hok : Unreused s (.warden (.retry r)))
    (hw : PollWarden.step s.warden (.retry r) = some w) :
    ∀ x ∈ concludes s.warden w id (.retry r), Proper x := by
  intro x hx
  by_cases hconcludes : Concludes s.warden id (.retry r) ∧ s.warden.completions id ≠ none
  swap
  · rw [concludes, if_neg hconcludes] at hx
    exact absurd hx List.not_mem_nil
  rw [concludes, if_pos hconcludes] at hx
  rw [List.mem_singleton.mp hx]
  obtain ⟨hretries, hsome⟩ := hconcludes
  have hretries : s.warden.Retries id := hretries
  obtain ⟨c, hc⟩ := Option.ne_none_iff_exists'.mp hsome
  obtain ⟨hlt, hclosed⟩ := h.closed id home hid
  obtain ⟨fd, d, hslot, hfile, -⟩ := hclosed c hc
  have hbad : s.Closed id := by
    unfold State.Closed
    rw [number_of_slot hc hslot]
    exact hfile
  have hreports : reportsBadFd c.op = true := by
    have hall := hok id hlt hretries (by rw [hid]; simp)
    rw [hc] at hall
    exact hall
  obtain ⟨hret, herrno⟩ := hhonest id hlt hretries hbad
  obtain ⟨hwaits, herror⟩ := answered_of_badFd hreports hret herrno c.result
  cases PollWarden.steppedOn_of_step hw hretries with
  | retryFails hnone => exact absurd hnone hsome
  | @retries f fs hf rest hp c₁ hc₁ r =>
    obtain rfl := Option.some.inj (hc.symm.trans hc₁)
    obtain ⟨hresult, hstage⟩ :=
      PollWarden.tryOrResume_answers (s.warden.observe (.retried id)) id hwaits
    refine ⟨c.op.answered r c.result, ?_, Or.inl herror⟩
    unfold outcomeOf
    rw [PollWarden.stage_goto, PollWarden.completions_goto, hstage, hresult, if_pos rfl]
    rfl

/-- **A deadline that passes** ends with a time out. -/
theorem proper_concludes_clock (h : Invariant s) (hid : s.closedUnder id = some home)
    {now : TimePoint} {done : Bool} (hw : PollWarden.step s.warden (.clock now done) = some w) :
    ∀ x ∈ concludes s.warden w id (.clock now done), Proper x := by
  intro x hx
  by_cases hconcludes : Concludes s.warden id (.clock now done) ∧ s.warden.completions id ≠ none
  swap
  · rw [concludes, if_neg hconcludes] at hx
    exact absurd hx List.not_mem_nil
  rw [concludes, if_pos hconcludes] at hx
  rw [List.mem_singleton.mp hx]
  obtain ⟨⟨t, hhead, hdue⟩, hsome⟩ := hconcludes
  obtain ⟨l, he⟩ := List.head?_eq_some_iff.mp hhead
  cases (PollWarden.stepped_of_step hw).2 with
  | @clock f _ hf hp =>
    have hcleared := PollWarden.clearedTimeouts s.warden f now done
    generalize PollWarden.clearTimeouts s.warden f now done = w at hcleared ⊢
    cases hcleared with
    | leaves hkeep => exact absurd hdue (hkeep t id l he)
    | polls hkeep => exact absurd hdue (hkeep t id l he)
    | @fails t' i l' he' hdue' hnone =>
      rw [he] at he'
      obtain ⟨⟨rfl, rfl⟩, rfl⟩ : (t = t' ∧ id = i) ∧ l = l' := by simpa using he'
      exact absurd hnone hsome
    | @timesOut t' i l' c he' hdue' hc =>
      rw [he] at he'
      obtain ⟨⟨rfl, rfl⟩, rfl⟩ : (t = t' ∧ id = i) ∧ l = l' := by simpa using he'
      obtain ⟨fd, d, hslot, -⟩ := (h.closed id home hid).2 c hc
      refine ⟨timedOutOutcome, ?_, Or.inr rfl⟩
      unfold outcomeOf
      rw [PollWarden.stage_goto, PollWarden.completions_goto, PollWarden.stage_iopTimedout_self,
        if_pos rfl, ← PollWarden.view_completion]
      unfold PollWarden.iopTimedout
      split
      · -- a sleep is in no list
        rename_i hop
        rw [hop] at hslot
        exact absurd hslot (by simp [Op.slot])
      · rw [PollWarden.view_returnHandle, if_pos rfl]
        rfl

/-- **A poll that answers has a waiter retried.** -/
theorem proper_pollsOf (h : Invariant s) (hid : s.closedUnder id = some home)
    (hhonest : Honest s (.warden e)) (hw : PollWarden.step s.warden e = some w) :
    ∀ x ∈ pollsOf s.warden w id e, Proper x := by
  intro x hx
  cases e with
  | poll a =>
    by_cases hwaits : 0 ≤ a.ret ∧ s.warden.completions id ≠ none
        ∧ s.warden.stage id = .suspended
    · rw [pollsOf, if_pos hwaits] at hx
      obtain ⟨hret, hsome, hst⟩ := hwaits
      rw [List.mem_singleton.mp hx]
      refine decide_eq_true ?_
      obtain ⟨c, hc⟩ := Option.ne_none_iff_exists'.mp hsome
      obtain ⟨fd, d, hslot, hfile, hwake⟩ := (h.closed id home hid).2 c hc
      cases (PollWarden.stepped_of_step hw).2 with
      | @poll f fs hf t hp =>
        rcases h.waiters.held id c fd d hc hst hslot with hreg | ⟨f', hf', hi⟩
        · -- it is in its list, which the answer reports
          obtain ⟨hpos, hnval⟩ := hhonest hret fd (PollWarden.mem_pollFds hreg) hfile
          have hwakes : (a.revents fd).wakes d = true := by
            cases d <;> simp [PollWarden.Revents.wakes, hnval]
          have hcollected := PollWarden.mem_continuations_collect a.revents hwake hwakes hreg
          rw [PollWarden.doPoll_of_pos _ hpos, PollWarden.goto_eq, PollWarden.frames_collect, hf]
          exact ⟨_, List.mem_cons_self, hcollected⟩
        · -- an outer loop has it still to retry
          rw [hf] at hf'
          rcases List.mem_cons.mp hf' with rfl | hf'
          · rw [hp] at hi
            exact absurd hi List.not_mem_nil
          · exact ⟨f', PollWarden.mem_frames_doPoll hf hret hf', hi⟩
    · rw [pollsOf, if_neg hwaits] at hx
      exact absurd hx List.not_mem_nil
  | _ => exact absurd hx List.not_mem_nil

/-- **A step that meets the condition** does what it should for every waiter
whose file has been closed. -/
theorem proper_of_step (h : Invariant s) {e : Event} (hhonest : Honest s e)
    (hok : Unreused s e) : ∀ x ∈ obs s e, Proper x := by
  cases e with
  | opened fd => exact fun x hx => absurd hx List.not_mem_nil
  | warden e =>
    intro x hx
    have hx : x ∈ (PollClose.step s (.warden e)).elim [] fun s' =>
        (List.range s.warden.next).flatMap (seen s s' e) := hx
    cases hs : PollClose.step s (.warden e) with
    | none =>
      rw [hs] at hx
      exact absurd hx List.not_mem_nil
    | some s' =>
      rw [hs] at hx
      obtain ⟨id, -, hx⟩ := List.mem_flatMap.mp hx
      have hw : PollWarden.step s.warden e = some s'.warden := by
        obtain ⟨w, hw, hs⟩ := Option.bind_eq_some_iff.mp hs
        split at hs
        · split at hs
          · exact absurd hs (by simp)
          · rw [hw, ← Option.some.inj hs]
        · rw [hw, ← Option.some.inj hs]
      unfold seen at hx
      split at hx
      swap
      · exact absurd hx List.not_mem_nil
      rename_i home hid
      rcases List.mem_append.mp hx with hx | hx
      · rcases List.mem_append.mp hx with hx | hx
        · exact proper_callsFor h hid x hx
        · cases e with
          | retry r => exact proper_concludes_retry h hid hhonest hok hw x hx
          | clock now done => exact proper_concludes_clock h hid hw x hx
          | _ =>
            rw [concludes, if_neg (fun hconcludes => hconcludes.1)] at hx
            exact absurd hx List.not_mem_nil
      · exact proper_pollsOf h hid hhonest hw x hx

end Proper

/-- **Closing a descriptor that is waited on.** In every run in which no
number is given to another file while a completion waits on it whose file has
been closed, and none of these is retried but reads, writes and connects: no
system call is made for one of them on another file, each that is handed back
reports `EBADF` or a time out, and every `::poll` that answers has all of them
retried. -/
theorem proper_of_run (wakeFd : SocketDescriptor) {es : List Event} {s : State}
    (h : Run step (fun s e => Honest s e ∧ Unreused s e) (init wakeFd) es s) :
    ∀ x ∈ observed step obs (init wakeFd) es, Proper x := by
  rw [h.forall_observed_iff]
  exact h.imp (fun s e s' hs hok he =>
    ⟨⟨hok, proper_of_step hs hok.1 hok.2⟩, hs.step hok.2 he⟩) (invariant_init wakeFd)

/-- A coroutine waits for descriptor 5, and another one closes it. -/
def closeWhileReading : List Event :=
  [.opened 5, .warden (.create (.readSome 5 16 none)),
    .warden (.await 0 7 { ret := -1, errno := EAGAIN }),
    .warden (.create (.close 5)), .warden (.await 1 8 { ret := 0 })]

/-- The loop polls the number while it is closed. -/
def pollClosed : List Event :=
  [.warden (.runUntil 9), .warden .suspend, .warden (.clock 0 false),
    .warden (.poll { ret := 1, revents := fun fd => { pollnval := decide (fd = 5) } }),
    .warden (.retry { ret := -1, errno := EBADF })]

/-- `proper_of_run` at `closeWhileReading` and `pollClosed`. -/
theorem proper_of_run_pollClosed :
    ∃ s, Run step (fun s e => Honest s e ∧ Unreused s e) (init 9)
        (closeWhileReading ++ pollClosed) s
      ∧ .concluded (some (Outcome.ofError EBADF "read"))
        ∈ observed step obs (init 9) (closeWhileReading ++ pollClosed)
      ∧ ∀ x ∈ observed step obs (init 9) (closeWhileReading ++ pollClosed), Proper x := by
  obtain ⟨s, hrun, -⟩ := exists_run_of_exec step (fun s e => Honest s e ∧ Unreused s e) (init 9)
    (closeWhileReading ++ pollClosed) (fun _ => true) (by decide)
  exact ⟨s, hrun, by decide, proper_of_run 9 hrun⟩

/-- The number is given to another file, which has something to read. -/
def pollReused : List Event :=
  [.opened 5, .warden (.runUntil 9), .warden .suspend, .warden (.clock 0 false),
    .warden (.poll { ret := 1, revents := fun fd => { pollin := decide (fd = 5) } }),
    .warden (.retry { ret := 4 })]

/-- **The waiter reads from the other file.** -/
theorem not_proper_pollReused :
    ¬ ∀ (es : List Event) (s : State), Run step Honest (init 9) es s →
      ∀ x ∈ observed step obs (init 9) es, Proper x := by
  intro h
  obtain ⟨s, hrun, -⟩ := exists_run_of_exec step Honest (init 9)
    (closeWhileReading ++ pollReused) (fun _ => true) (by decide)
  have hseen : Obs.called 1 (some 2)
      ∈ observed step obs (init 9) (closeWhileReading ++ pollReused) := by decide
  exact absurd (h _ s hrun _ hseen 2 rfl) (by decide)

end PollClose
