import Felspar.PollView

/-!
# What a step does to a suspended completion

A coroutine that is suspended on a completion waits for the warden to do
something to it, and the warden does so in two places only. The continuation
loop of `do_poll` retries it, and hands the coroutine back if the system call
does not have to wait any more; and `clear_timeouts` times it out when its
deadline comes first in `timeouts` and has passed. Every other step is on
another completion, or on none, and leaves this one as it was
(`suspended_of_step`).

That is so in every run, whatever the other coroutines do. Where the warden
has it registered is not part of it: only the deadlines it is filed under are.
-/

namespace PollWarden

/-! ## The completion a step is on -/

/-- The loop is about to retry the completion, and its iterators are
valid. -/
def State.Retries (s : State) (id : RetrierId) : Prop :=
  match s.frames with
  | [] => False
  | f :: _ => match f.point with
    | .continuations g (i :: _) => i = id ∧ g = s.generation
    | _ => False

instance (s : State) (id : RetrierId) : Decidable (s.Retries id) := by
  unfold State.Retries
  split
  · exact inferInstanceAs (Decidable False)
  · split
    · exact inferInstanceAs (Decidable (_ ∧ _))
    · exact inferInstanceAs (Decidable False)

theorem retries_iff {s : State} {id i : RetrierId} {f : Frame} {fs : List Frame} {g : ℕ}
    {rest : List RetrierId} (hf : s.frames = f :: fs)
    (hp : f.point = .continuations g (i :: rest)) :
    s.Retries id ↔ i = id ∧ g = s.generation := by
  unfold State.Retries
  rw [hf]
  dsimp only
  rw [hp]

/-- A loop that is about to retry something has something to retry. -/
theorem not_retries_nil {s : State} {id : RetrierId} {f : Frame} {fs : List Frame} {g : ℕ}
    (hf : s.frames = f :: fs) (hp : f.point = .continuations g []) : ¬ s.Retries id := by
  unfold State.Retries
  rw [hf]
  dsimp only
  rw [hp]
  exact not_false

/-- **The step is on the completion**: it is created, awaited, destroyed,
retried, or its deadline is the first of `timeouts`. -/
def Subject (s : State) (id : RetrierId) : Event → Prop
  | .create _ => id = s.next
  | .await i _ _ => i = id
  | .destroy i => i = id
  | .clock _ _ => ∃ t, s.timeouts.entries.head? = some (t, id)
  | .retry _ => s.Retries id
  | _ => False

/-- **What a step does when it is on the completion**: each case with what it
finds. -/
inductive SteppedOn (s : State) (id : RetrierId) : Event → State → Prop
  | create (hid : id = s.next) (call : Call) : SteppedOn s id (.create call) (createIop s call)
  | await {c : Completion} (hc : s.completions id = some c) (a : Handle) (r : Sys) :
      SteppedOn s id (.await id a r) (awaitSuspend s id c a r).1
  | destroy {c : Completion} (hc : s.completions id = some c) :
      SteppedOn s id (.destroy id) (iopDestructed s id c)
  | leaves {f : Frame} {fs : List Frame} (hf : s.frames = f :: fs) (hp : f.point = .clearTimeouts)
      (now : TimePoint) (done : Bool) : SteppedOn s id (.clock now done) s.leave
  | polls {f : Frame} {fs : List Frame} (hf : s.frames = f :: fs) (hp : f.point = .clearTimeouts)
      (now : TimePoint) (done : Bool) (t : Int) :
      SteppedOn s id (.clock now done) (s.goto (.doPoll t))
  | timeOutFails {t : TimePoint} {l : List (TimePoint × RetrierId)}
      (he : s.timeouts.entries = (t, id) :: l) (hc : s.completions id = none) (now : TimePoint)
      (done : Bool) : SteppedOn s id (.clock now done)
        (({ s with timeouts := s.timeouts.eraseBegin } : State).fail (.timedOutDeleted id))
  | timesOut {f : Frame} {fs : List Frame} (hf : s.frames = f :: fs)
      (hp : f.point = .clearTimeouts) {t : TimePoint} {l : List (TimePoint × RetrierId)}
      (he : s.timeouts.entries = (t, id) :: l) {c : Completion} (hc : s.completions id = some c)
      (now : TimePoint) (done : Bool) {p : Point} (hp' : p = .timedOut ∨ p = .clearTimeouts) :
      SteppedOn s id (.clock now done)
        ((iopTimedout { s with timeouts := s.timeouts.eraseBegin } id c).1.goto p)
  | retryFails (hc : s.completions id = none) (r : Sys) (x : Fault) :
      SteppedOn s id (.retry r) (s.fail x)
  | retries {f : Frame} {fs : List Frame} (hf : s.frames = f :: fs) {rest : List RetrierId}
      (hp : f.point = .continuations s.generation (id :: rest)) {c : Completion}
      (hc : s.completions id = some c) (r : Sys) {p : Point}
      (hp' : p = .retried s.generation rest ∨ p = .continuations s.generation rest) :
      SteppedOn s id (.retry r) ((tryOrResume (s.observe (.retried id)) id c r).1.goto p)

theorem steppedOn_of_step {s s' : State} {id : RetrierId} {e : Event}
    (hs : step s e = some s') (hid : Subject s id e) : SteppedOn s id e s' := by
  cases (stepped_of_step hs).2 with
  | create hu call => exact .create hid call
  | @await hu i c hc a r =>
    obtain rfl : i = id := hid
    exact .await hc a r
  | @destroy hu i c hc =>
    obtain rfl : i = id := hid
    exact .destroy hc
  | @clock f fs hf hp now done =>
    obtain ⟨t, hhead⟩ := hid
    obtain ⟨l, he⟩ := List.head?_eq_some_iff.mp hhead
    have hcleared := clearedTimeouts s f now done
    generalize clearTimeouts s f now done = s₁ at hcleared ⊢
    cases hcleared with
    | leaves => exact .leaves hf hp now done
    | polls hkeep t => exact .polls hf hp now done t
    | @fails t' i l' he' hdue hc =>
      obtain ⟨⟨-, rfl⟩, -⟩ : (t = t' ∧ id = i) ∧ l = l' := by simpa using he.symm.trans he'
      exact .timeOutFails he hc now done
    | @timesOut t' i l' c he' hdue hc p hp' =>
      obtain ⟨⟨-, rfl⟩, -⟩ : (t = t' ∧ id = i) ∧ l = l' := by simpa using he.symm.trans he'
      exact .timesOut hf hp he hc now done hp'
  | @retry f fs hf g rest hp r =>
    have hretried := retriedNext s g rest r
    generalize retryNext s g rest r = s₁ at hretried ⊢
    cases hretried with
    | returns => exact absurd hid (not_retries_nil hf hp)
    | fails i rest x hx =>
      obtain ⟨rfl, rfl⟩ := (retries_iff hf hp).mp hid
      exact .retryFails (hx.resolve_left (not_not.mpr rfl)) r x
    | @retries i rest c hg hc p hp' =>
      obtain ⟨rfl, rfl⟩ := (retries_iff hf hp).mp hid
      exact .retries hf hp hc r hp'
  | _ => exact False.elim hid

/-- What the state has of a completion, but for the lists it is registered
in. -/
structure Core where
  completion : Option Completion
  stage : Stage
  keys : List TimePoint

/-- The core of one completion. -/
def State.core (s : State) (id : RetrierId) : Core :=
  ⟨s.completions id, s.stage id, s.timeouts.keysOf id⟩

section Core

variable {s s' : State} {id i : RetrierId} {c : Completion}

/-- It is a part of the view. -/
theorem core_of_view (h : s'.view i = s.view i) : s'.core i = s.core i := by
  have hv : ∀ t : State, t.core i = ⟨(t.view i).completion, (t.view i).stage, (t.view i).keys⟩ :=
    fun _ => rfl
  rw [hv, hv, h]

theorem completions_goto (s : State) (p : Point) : (s.goto p).completions = s.completions := by
  rw [goto_eq]

theorem stage_goto (s : State) (p : Point) : (s.goto p).stage = s.stage := by
  rw [goto_eq]

theorem core_goto (s : State) (p : Point) : (s.goto p).core id = s.core id := by
  rw [goto_eq]
  rfl

theorem core_doPollReturns : (doPollReturns s).core id = s.core id := by
  unfold doPollReturns
  rw [core_goto]
  rfl

/-- Erasing the first deadline leaves those of the others. -/
theorem core_eraseBegin {t : TimePoint} {l : List (TimePoint × RetrierId)}
    (he : s.timeouts.entries = (t, i) :: l) (hne : id ≠ i) :
    ({ s with timeouts := s.timeouts.eraseBegin } : State).core id = s.core id := by
  unfold State.core
  rw [s.timeouts.keysOf_eraseBegin_of_ne he hne]

/-- Collecting moves pointers, and nothing else. -/
theorem core_collect (revents : SocketDescriptor → Revents) :
    (collect s revents).core id = s.core id :=
  collect_rule (P := fun t => t.core id = s.core id) revents rfl (fun _ h => h)
    (fun _ _ _ h => h)

/-- **A step leaves every completion that it is not on.** -/
theorem core_of_step {e : Event} (hs : step s e = some s') (hid : ¬ Subject s id e) :
    s'.core id = s.core id := by
  cases (stepped_of_step hs).2 with
  | create hu call =>
    have hne : id ≠ s.next := hid
    refine core_of_view ?_
    rw [view_createIop, if_neg hne]
  | await hu hc a r => exact core_of_view (view_awaitSuspend_of_ne s _ id _ r a (Ne.symm hid))
  | destroy hu hc =>
    refine core_of_view ?_
    rw [view_iopDestructed, if_neg (Ne.symm hid)]
  | asyncResume hu handles written =>
    obtain ⟨n, he⟩ := doAsyncResume_eq s handles written
    rw [he]
    rfl
  | runUntil hu coro => rfl
  | runBatch hu => rfl
  | suspend hf hp => exact core_goto s _
  | @clock f _ hf hp now done =>
    have hcleared := clearedTimeouts s f now done
    generalize clearTimeouts s f now done = s₁ at hcleared ⊢
    cases hcleared with
    | leaves => rfl
    | polls => exact core_goto s _
    | @fails t i l he hdue hc =>
      have hne : id ≠ i := fun h => hid ⟨t, by rw [he, h]; rfl⟩
      exact core_eraseBegin he hne
    | @timesOut t i l c he hdue hc =>
      have hne : id ≠ i := fun h => hid ⟨t, by rw [he, h]; rfl⟩
      rw [core_goto, ← core_eraseBegin he hne]
      exact core_of_view (view_iopTimedout_of_ne _ i id c hne)
  | poll hf hp a =>
    have hpolled := polled s a
    generalize doPoll s a = s₁ at hpolled ⊢
    cases hpolled with
    | returns => exact core_doPollReturns
    | throws => rfl
    | collects => rw [core_goto, core_collect]
  | @retry f _ hf g rest hp r =>
    have hretried := retriedNext s g rest r
    generalize retryNext s g rest r = s₁ at hretried ⊢
    cases hretried with
    | returns => exact core_doPollReturns
    | fails => rfl
    | @retries i rest c hg hc =>
      have hne : id ≠ i := fun h => hid ((retries_iff hf hp).mpr ⟨h.symm, hg⟩)
      rw [core_goto]
      exact core_of_view (view_tryOrResume_of_ne _ i id c r hne)
  | @resumeNext f fs hf rest hp =>
    have hresumed := resumedAllNext s f rest
    generalize resumeAllNext s f rest = s₁ at hresumed ⊢
    cases hresumed with
    | again =>
      rw [core_goto]
      rfl
    | leaves => rfl
    | resumes =>
      rw [core_goto]
      rfl

end Core

/-! ## Completions that have not been created -/

/-- **The numbers that have not been used** have nothing to them. -/
def Unused (s : State) : Prop := ∀ i, s.next ≤ i → s.core i = ⟨none, .created, []⟩

section Unused

variable {s s' : State} {c : Completion} {i : RetrierId}

theorem unused_init (w : SocketDescriptor) : Unused (init w) := fun _ _ => rfl

/-- A completion that exists has been created. -/
theorem Unused.lt_next (h : Unused s) (hc : s.completions i = some c) : i < s.next := by
  by_contra hlt
  have hnone : s.completions i = none := congrArg Core.completion (h i (not_lt.mp hlt))
  rw [hnone] at hc
  exact absurd hc (by simp)

/-- What only creating an IOP changes, and what nothing does. -/
def State.given (s : State) : RetrierId × SocketDescriptor := (s.next, s.wakeFd)

theorem given_goto (s : State) (p : Point) : (s.goto p).given = s.given := by
  rw [goto_eq]
  rfl

theorem given_of_shell (h : s'.shell = s.shell) : s'.given = s.given :=
  Prod.ext (congrArg Shell.next h) (congrArg Shell.wakeFd h)

theorem given_doPollReturns : (doPollReturns s).given = s.given := by
  unfold doPollReturns
  rw [given_goto]
  rfl

/-- Numbers are only given out when an IOP is created. -/
theorem given_of_step {e : Event} (hs : step s e = some s') (hcreate : ∀ call, e ≠ .create call) :
    s'.given = s.given := by
  cases (stepped_of_step hs).2 with
  | create hu call => exact absurd rfl (hcreate call)
  | await hu hc a r => exact given_of_shell (shell_awaitSuspend s _ _ r a)
  | destroy hu hc => exact given_of_shell (shell_iopDestructed s _ _)
  | asyncResume hu handles written =>
    obtain ⟨n, he⟩ := doAsyncResume_eq s handles written
    rw [he]
    rfl
  | runUntil hu coro => rfl
  | runBatch hu => rfl
  | suspend hf hp => exact given_goto s _
  | @clock f _ hf hp now done =>
    have hcleared := clearedTimeouts s f now done
    generalize clearTimeouts s f now done = s₁ at hcleared ⊢
    cases hcleared with
    | leaves => rfl
    | polls => exact given_goto s _
    | fails => rfl
    | timesOut =>
      rw [given_goto]
      exact given_of_shell (shell_iopTimedout { s with timeouts := s.timeouts.eraseBegin } _ _)
  | poll hf hp a =>
    have hpolled := polled s a
    generalize doPoll s a = s₁ at hpolled ⊢
    cases hpolled with
    | returns => exact given_doPollReturns
    | throws => rfl
    | collects =>
      rw [given_goto]
      exact collect_rule (P := fun t => t.given = s.given) a.revents rfl (fun _ h => h)
        (fun _ _ _ h => h)
  | @retry f _ hf g rest hp r =>
    have hretried := retriedNext s g rest r
    generalize retryNext s g rest r = s₁ at hretried ⊢
    cases hretried with
    | returns => exact given_doPollReturns
    | fails => rfl
    | retries =>
      rw [given_goto]
      exact given_of_shell (shell_tryOrResume (s.observe (.retried _)) _ _ r)
  | @resumeNext f fs hf rest hp =>
    have hresumed := resumedAllNext s f rest
    generalize resumeAllNext s f rest = s₁ at hresumed ⊢
    cases hresumed with
    | again =>
      rw [given_goto]
      rfl
    | leaves => rfl
    | resumes =>
      rw [given_goto]
      rfl

theorem next_le_of_step {e : Event} (hs : step s e = some s') : s.next ≤ s'.next := by
  cases e with
  | create call =>
    cases (stepped_of_step hs).2
    exact Nat.le_succ _
  | _ => exact le_of_eq (congrArg Prod.fst (given_of_step hs (fun _ => by simp))).symm

theorem wakeFd_of_step {e : Event} (hs : step s e = some s') : s'.wakeFd = s.wakeFd := by
  cases e with
  | create call =>
    cases (stepped_of_step hs).2
    rfl
  | _ => exact congrArg Prod.snd (given_of_step hs (fun _ => by simp))

/-- **A step uses no number but the next one.** -/
theorem unused_of_step {e : Event} (h : Unused s) (hs : step s e = some s') : Unused s' := by
  intro i hi
  have hlt : ∀ {j c}, s.completions j = some c → j ≠ i := fun hc =>
    ne_of_lt (lt_of_lt_of_le (h.lt_next hc) ((next_le_of_step hs).trans hi))
  have hcore := h i ((next_le_of_step hs).trans hi)
  by_cases hid : Subject s i e
  swap
  · exact (core_of_step hs hid).trans hcore
  -- a step that is on the completion has to find it
  have hnone : s.completions i = none := congrArg Core.completion hcore
  have hentry : ∀ {t l}, s.timeouts.entries ≠ (t, i) :: l := fun {t l} he => by
    have hkeys : s.timeouts.keysOf i = [] := congrArg Core.keys hcore
    exact s.timeouts.keysOf_eq_nil_iff.mp hkeys t (he ▸ List.mem_cons_self)
  cases steppedOn_of_step hs hid with
  | create hid call =>
    rw [hid] at hi
    exact absurd hi (Nat.not_succ_le_self s.next)
  | await hc a r => exact absurd rfl (hlt hc)
  | destroy hc => exact absurd rfl (hlt hc)
  | leaves => exact hcore
  | polls => exact (core_goto s _).trans hcore
  | timeOutFails he => exact absurd he hentry
  | timesOut hf hp he => exact absurd he hentry
  | retryFails => exact hcore
  | retries hf hp hc => exact absurd rfl (hlt hc)

/-- The completion is deleted, and its number is not used again. -/
theorem unused_iopDestructed (h : Unused s) (hc : s.completions i = some c) :
    Unused (iopDestructed s i c) := by
  intro j hj
  have hnext : (iopDestructed s i c).next = s.next :=
    congrArg Shell.next (shell_iopDestructed s i c)
  rw [hnext] at hj
  have hne : j ≠ i := ne_of_gt (lt_of_lt_of_le (h.lt_next hc) hj)
  refine (core_of_view ?_).trans (h j hj)
  rw [view_iopDestructed, if_neg hne]

/-- **A completion keeps its type and its deadline.** -/
theorem same_of_step {e : Event} {c' : Completion} (hs : step s e = some s')
    (hc' : s'.completions i = some c') (hi : ∀ call, e = .create call → i ≠ s.next) :
    ∃ c, s.completions i = some c ∧ c.Same c' := by
  have hrefl : c'.Same c' := ⟨rfl, rfl⟩
  by_cases hid : Subject s i e
  swap
  · refine ⟨c', ?_, hrefl⟩
    rw [← hc']
    exact (congrArg Core.completion (core_of_step hs hid)).symm
  cases steppedOn_of_step hs hid with
  | create hid call => exact absurd hid (hi call rfl)
  | @await c hc a r =>
    obtain ⟨c₁, hc₁, hsame⟩ := completion_awaitSuspend_self s i c r a
    obtain rfl := Option.some.inj (hc₁.symm.trans hc')
    exact ⟨c, hc, hsame⟩
  | destroy hc =>
    rw [← view_completion, view_iopDestructed, if_pos rfl] at hc'
    exact absurd hc' (by simp)
  | leaves => exact ⟨c', hc', hrefl⟩
  | polls =>
    rw [completions_goto] at hc'
    exact ⟨c', hc', hrefl⟩
  | timeOutFails => exact ⟨c', hc', hrefl⟩
  | @timesOut f fs hf hp t l he c hc =>
    obtain ⟨c₁, hc₁, hsame⟩ :=
      completion_iopTimedout_self { s with timeouts := s.timeouts.eraseBegin } i c
    rw [completions_goto, hc₁] at hc'
    obtain rfl := Option.some.inj hc'
    exact ⟨c, hc, hsame⟩
  | retryFails => exact ⟨c', hc', hrefl⟩
  | @retries f fs hf rest hp c hc r =>
    obtain ⟨c₁, hc₁, hsame⟩ := completion_tryOrResume_self (s.observe (.retried i)) i c r
    rw [completions_goto, hc₁] at hc'
    obtain rfl := Option.some.inj hc'
    exact ⟨c, hc, hsame⟩

end Unused

/-! ## A completion that a coroutine is suspended on -/

/-- The completion types that wait for a system call not to block. -/
def Op.Transfers : Op → Prop
  | .readSome _ _ | .writeSome _ _ | .accept _ => True
  | _ => False

/-- **What can happen to a suspended completion** in a step. -/
inductive Suspended (s : State) (id : RetrierId) (c : Completion) : Event → State → Prop
  /-- Nothing. -/
  | stays {e : Event} {s' : State} (hr : ∀ r, e = .retry r → ¬ s.Retries id)
      (hcore : s'.core id = s.core id) : Suspended s id c e s'
  /-- It is retried, and has to wait again. -/
  | blocks {r : Sys} {s' : State} (hr : s.Retries id) (hw : c.op.waits r = true)
      (hcore : s'.core id = s.core id) : Suspended s id c (.retry r) s'
  /-- It is retried, and the coroutine is handed back. -/
  | answers {r : Sys} {s' : State} (hr : s.Retries id) (hw : c.op.waits r = false)
      (hc : s'.completions id = some { c with result := c.op.answered r c.result })
      (hst : s'.stage id = .finished) : Suspended s id c (.retry r) s'
  /-- Its deadline passes, and the coroutine is handed back. -/
  | timesOut {now : TimePoint} {done : Bool} {s' : State}
      (hc : s'.completions id = some { c with result := timedOutOutcome })
      (hst : s'.stage id = .finished) : Suspended s id c (.clock now done) s'

section Suspended

variable {s s' : State} {id : RetrierId} {c : Completion}

theorem Op.Transfers.ne_connect {op : Op} (h : op.Transfers) (fd : SocketDescriptor) :
    op ≠ .connect fd := by
  rintro rfl
  exact h

/-- A try that has to wait leaves the completion and its deadline as they
are. -/
theorem core_tryOrResume_waits (s : State) (id : RetrierId) (hop : c.op.Transfers) {r : Sys}
    (hw : c.op.waits r = true) :
    (tryOrResume s id c r).1.core id = ⟨some c, .suspended, s.timeouts.keysOf id⟩ := by
  have hkeys := keys_tryOrResume_self s id c r hop.ne_connect
  rw [if_pos (Or.inl hw)] at hkeys
  have hself : (tryOrResume s id c r).1.completions id = some c
      ∧ (tryOrResume s id c r).1.stage id = .suspended := by
    rw [← view_completion, ← view_stage, tryOrResume_eq, if_pos hw, view_returnNoop, if_pos rfl]
    exact ⟨rfl, rfl⟩
  unfold State.core
  rw [hself.1, hself.2]
  exact congrArg (Core.mk _ _) hkeys

theorem awaitSuspend_transfers (s : State) (id : RetrierId) (hop : c.op.Transfers) {h : Handle}
    {r : Sys} : awaitSuspend s id c h r
      = tryOrResume (insertTimeout s id { c with handle := some h }) id
          { c with handle := some h } r := by
  obtain ⟨op, deadline, handle, result⟩ := c
  cases op <;> first | rfl | exact False.elim hop

/-- One that does not hands the coroutine back. -/
theorem tryOrResume_answers (s : State) (id : RetrierId) {r : Sys} (hw : c.op.waits r = false) :
    (tryOrResume s id c r).1.completions id
        = some { c with result := c.op.answered r c.result }
      ∧ (tryOrResume s id c r).1.stage id = .finished := by
  rw [← view_completion, ← view_stage, tryOrResume_eq, hw, if_neg Bool.false_ne_true,
    cancelTimeoutThenResume, view_returnHandle, if_pos rfl]
  exact ⟨rfl, rfl⟩

/-- A time out hands it back as well. -/
theorem iopTimedout_answers (s : State) (id : RetrierId) (hop : c.op.Transfers) :
    (iopTimedout s id c).1.completions id = some { c with result := timedOutOutcome }
      ∧ (iopTimedout s id c).1.stage id = .finished := by
  rw [← view_completion, ← view_stage]
  unfold iopTimedout
  split
  · rename_i ho
    rw [ho] at hop
    exact False.elim hop
  · rw [view_returnHandle, if_pos rfl]
    exact ⟨rfl, rfl⟩

/-- **Awaiting a transfer** files its deadline and tries it at once. -/
theorem core_awaitSuspend_waits (s : State) (id : RetrierId) (hop : c.op.Transfers)
    (hkeys : s.timeouts.keysOf id = []) (h : Handle) {r : Sys} (hw : c.op.waits r = true) :
    (awaitSuspend s id c h r).1.core id
      = ⟨some { c with handle := some h }, .suspended, c.deadline.toList⟩ := by
  have hins := view_insertTimeout_self s id { c with handle := some h } hkeys
  rw [awaitSuspend_transfers s id hop,
    core_tryOrResume_waits (c := { c with handle := some h }) _ _ hop hw]
  exact congrArg (Core.mk _ _) (congrArg View.keys hins)

/-- **Awaiting a transfer that has just been created** leaves its coroutine
suspended with its deadline filed, or hands it back. -/
theorem awaited_of_created {s₁ : State} (h : Unused s) (call : Call)
    (hop : call.completion.op.Transfers) (h₁ : step s (.create call) = some s₁) {a : Handle}
    {r : Sys} (h₂ : step s₁ (.await s.next a r) = some s') :
    (call.completion.op.waits r = true → s'.core s.next
        = ⟨some { call.completion with handle := some a }, .suspended,
            call.completion.deadline.toList⟩) ∧
    (call.completion.op.waits r = false → s'.completions s.next
        = some { call.completion with
            handle := some a
            result := call.completion.op.answered r call.completion.result }
      ∧ s'.stage s.next = .finished) := by
  have hs₁ : s₁ = createIop s call := by
    cases (stepped_of_step h₁).2
    rfl
  have hcreated : s₁.completions s.next = some call.completion := by
    rw [hs₁]
    exact if_pos rfl
  have hkeys : s₁.timeouts.keysOf s.next = [] := by
    rw [hs₁]
    exact congrArg Core.keys (h s.next (le_refl _))
  have hs' : s' = (awaitSuspend s₁ s.next call.completion a r).1 := by
    cases (stepped_of_step h₂).2 with
    | await hu hc _ _ =>
      obtain rfl := Option.some.inj (hc.symm.trans hcreated)
      rfl
  rw [hs']
  refine ⟨fun hw => core_awaitSuspend_waits s₁ s.next hop hkeys a hw, fun hw => ?_⟩
  rw [awaitSuspend_transfers _ _ hop]
  exact tryOrResume_answers (c := { call.completion with handle := some a })
    (insertTimeout s₁ s.next { call.completion with handle := some a }) s.next hw

/-- **A suspended completion stays as it is, is retried, or times out**, when
nobody awaits it again or destroys it. -/
theorem suspended_of_step {e : Event} (hs : step s e = some s')
    (hc : s.completions id = some c) (hst : s.stage id = .suspended) (hop : c.op.Transfers)
    (hnext : id ≠ s.next) (hawait : ∀ h r, e ≠ .await id h r) (hdestroy : e ≠ .destroy id) :
    Suspended s id c e s' := by
  by_cases hid : Subject s id e
  swap
  · exact Suspended.stays (fun r he hr => hid (by rw [he]; exact hr)) (core_of_step hs hid)
  cases steppedOn_of_step hs hid with
  | create hid => exact absurd hid hnext
  | await hc' a r => exact absurd rfl (hawait a r)
  | destroy => exact absurd rfl hdestroy
  | leaves => exact Suspended.stays (fun _ h => absurd h (by simp)) rfl
  | polls => exact Suspended.stays (fun _ h => absurd h (by simp)) (core_goto s _)
  | timeOutFails he hnone => exact absurd (hc.symm.trans hnone) (by simp)
  | @timesOut f fs hf hp t l he c' hc' =>
    obtain rfl := Option.some.inj (hc.symm.trans hc')
    -- the entry is erased first, and the completion is not touched by that
    have hself := iopTimedout_answers { s with timeouts := s.timeouts.eraseBegin } id hop
    refine Suspended.timesOut ?_ ?_
    · rw [completions_goto, hself.1]
    · rw [stage_goto, hself.2]
  | retryFails hnone => exact absurd (hc.symm.trans hnone) (by simp)
  | @retries f fs hf rest hp c' hc' r =>
    obtain rfl := Option.some.inj (hc.symm.trans hc')
    have hr : s.Retries id := hid
    cases hw : c.op.waits r with
    | true =>
      refine Suspended.blocks hr hw ?_
      rw [core_goto, core_tryOrResume_waits _ _ hop hw]
      unfold State.core
      rw [hc, hst]
      rfl
    | false =>
      have hself := tryOrResume_answers (s.observe (.retried id)) id hw
      refine Suspended.answers hr hw ?_ ?_
      · rw [completions_goto, hself.1]
      · rw [stage_goto, hself.2]

/-- **A completion without a deadline does not time out**: nothing that
`clear_timeouts` does is on it. -/
theorem core_of_clock {now : TimePoint} {done : Bool} (hs : step s (.clock now done) = some s')
    (hkeys : s.timeouts.keysOf id = []) : s'.core id = s.core id := by
  refine core_of_step hs ?_
  rintro ⟨t, hhead⟩
  obtain ⟨l, he⟩ := List.head?_eq_some_iff.mp hhead
  exact s.timeouts.keysOf_eq_nil_iff.mp hkeys t (he ▸ List.mem_cons_self)

end Suspended

end PollWarden
