import Felspar.PollRegistration

/-!
# What a coroutine is told

A coroutine that awaits an IOP is resumed by whichever comes first, the
system call that does not have to wait or the deadline that passes. Both
hand its handle back, and only the registrations tell the warden that one of
them has happened: what has been handed back is in no container
(`Felspar.PollRegistration`), so nothing can find it a second time.

What the coroutine is told is read off the trace. The entry of a resumption
comes directly after the entry of the system call it reports, the entries of
a coroutine that was never resumed contain no such entry, and no coroutine
has two of them (`ToldOnce`, `Resumption`).
-/

namespace PollWarden

/-! ## Observations -/

/-- **The coroutine of `id` is told what happened**: that its deadline
passed; or what the system call that was just made for it answered, which
was not that it has to wait; or, when no system call was ever made for it,
that there was no error. -/
def Told (earlier : List Obs) (id : RetrierId) (outcome : Outcome) : Prop :=
  outcome = timedOutOutcome
  ∨ (∃ op r, earlier.head? = some (.call id op r) ∧ op.waits r = false
      ∧ outcome = op.answered r {})
  ∨ (outcome = {} ∧ ∀ op r, .call id op r ∉ earlier)

/-- **A resumption is the first one of its coroutine**, which is told what
happened. -/
def ToldOnce (earlier : List Obs) : Obs → Prop
  | .resumed id outcome => (∀ out, .resumed id out ∉ earlier) ∧ Told earlier id outcome
  | _ => True

/-- **What the trace says of each completion**: it has been resumed at most
once, and then it is not waiting any more; the system calls made for it are
its own; and its outcome is empty until it is resumed. -/
structure Resumption (s : State) : Prop where
  past : Past ToldOnce s.trace
  resumed : ∀ i out, .resumed i out ∈ s.trace →
    i < s.next ∧ (s.stage i = .finished ∨ s.stage i = .deleted)
  called : ∀ i op r, .call i op r ∈ s.trace →
    i < s.next ∧ op.calls = true ∧ ∀ c, s.completions i = some c → c.op = op
  result : ∀ i c, s.completions i = some c →
    s.stage i = .created ∨ s.stage i = .suspended → c.result = {}

namespace Resumption

variable {s s' : State} {id : RetrierId} {c c' : Completion}

/-- Only the trace, the completions and their stages matter. -/
theorem congr (h : Resumption s) (htrace : s'.trace = s.trace) (hnext : s'.next = s.next)
    (hview : ∀ i, s'.completions i = s.completions i ∧ s'.stage i = s.stage i) :
    Resumption s' where
  past := by rw [htrace]; exact h.past
  resumed := fun i out hm => by
    rw [htrace] at hm
    rw [hnext, (hview i).2]
    exact h.resumed i out hm
  called := fun i op r hm => by
    rw [htrace] at hm
    rw [hnext, (hview i).1]
    exact h.called i op r hm
  result := fun i c hc hs => by
    rw [(hview i).1] at hc
    rw [(hview i).2] at hs
    exact h.result i c hc hs

/-- An observation that is neither a call nor a resumption. -/
theorem observe (h : Resumption s) {o : Obs} (hr : ∀ i out, o ≠ .resumed i out)
    (hc : ∀ i op r, o ≠ .call i op r) : Resumption (s.observe o) where
  past := by
    refine ⟨?_, h.past⟩
    cases o with
    | resumed i out => exact absurd rfl (hr i out)
    | _ => trivial
  resumed := fun i out hm =>
    h.resumed i out ((List.mem_cons.mp hm).resolve_left (fun he => hr i out he.symm))
  called := fun i op r hm =>
    h.called i op r ((List.mem_cons.mp hm).resolve_left (fun he => hc i op r he.symm))
  result := h.result

/-- A system call of a completion that exists. -/
theorem call (h : Resumption s) (hid : id < s.next) (hc : s.completions id = some c)
    (hcalls : c.op.calls = true) (r : Sys) : Resumption (s.observe (.call id c.op r)) where
  past := ⟨trivial, h.past⟩
  resumed := fun i out hm =>
    h.resumed i out ((List.mem_cons.mp hm).resolve_left Obs.noConfusion)
  called := fun i op r' hm => by
    rcases List.mem_cons.mp hm with he | hm
    · cases he
      refine ⟨hid, hcalls, fun c₁ hc₁ => ?_⟩
      obtain rfl := Option.some.inj (hc.symm.trans hc₁)
      rfl
    · exact h.called i op r' hm
  result := h.result

/-- The system calls of a completion stay its own when it is put back. -/
theorem op_of_called (h : Resumption s) (hc : s.completions id = some c) (hop : c'.op = c.op)
    {i : RetrierId} {op : Op} {r : Sys} (hm : .call i op r ∈ s.trace) {c₁ : Completion}
    (hc₁ : (if i = id then some c' else s.completions i) = some c₁) : c₁.op = op := by
  have hown := (h.called i op r hm).2.2
  by_cases hi : i = id
  · rw [if_pos hi] at hc₁
    obtain rfl := Option.some.inj hc₁
    rw [hop]
    exact hown c (hi ▸ hc)
  · rw [if_neg hi] at hc₁
    exact hown c₁ hc₁

/-- The coroutine stays suspended. -/
theorem returnNoop (h : Resumption s) (hc : s.completions id = some c)
    (hop : c'.op = c.op) (hs : s.stage id = .created ∨ s.stage id = .suspended)
    (hr : c'.result = {}) : Resumption (returnNoop s id c').1 where
  past := h.past
  resumed := fun i out hm => by
    obtain ⟨hlt, hst⟩ := h.resumed i out hm
    refine ⟨hlt, ?_⟩
    have hne : i ≠ id := by
      rintro rfl
      rcases hs with hs | hs <;> rw [hs] at hst <;> exact absurd hst (by simp)
    rw [← view_stage, view_returnNoop, if_neg hne]
    exact hst
  called := fun i op r hm => by
    obtain ⟨hlt, hcalls, -⟩ := h.called i op r hm
    refine ⟨hlt, hcalls, fun c₁ hc₁ => h.op_of_called hc hop hm ?_⟩
    rwa [← view_completion, view_returnNoop, apply_ite View.completion] at hc₁
  result := fun i c₁ hc₁ hst => by
    rw [← view_completion, view_returnNoop] at hc₁
    rw [← view_stage, view_returnNoop] at hst
    by_cases hi : i = id
    · rw [if_pos hi] at hc₁
      obtain rfl := Option.some.inj hc₁
      exact hr
    · rw [if_neg hi] at hc₁ hst
      exact h.result i c₁ hc₁ hst

/-- **The coroutine is handed back**, and told `c'.result`. -/
theorem returnHandle (h : Resumption s) (hid : id < s.next)
    (hc : s.completions id = some c) (hop : c'.op = c.op)
    (hs : s.stage id = .created ∨ s.stage id = .suspended)
    (ht : Told s.trace id c'.result) : Resumption (returnHandle s id c').1 where
  past := by
    refine ⟨⟨fun out hm => ?_, ht⟩, h.past⟩
    have hst := (h.resumed id out hm).2
    rcases hs with hs | hs <;> rw [hs] at hst <;> exact absurd hst (by simp)
  resumed := fun i out hm => by
    have hst : (PollWarden.returnHandle s id c').1.stage i
        = if i = id then .finished else s.stage i := by
      rw [← view_stage, view_returnHandle]
      split <;> rfl
    rw [hst]
    by_cases hi : i = id
    · rw [if_pos hi, hi]
      exact ⟨hid, Or.inl rfl⟩
    · rw [if_neg hi]
      refine h.resumed i out ((List.mem_cons.mp hm).resolve_left (fun he => ?_))
      cases he
      exact hi rfl
  called := fun i op r hm => by
    have hm := (List.mem_cons.mp hm).resolve_left Obs.noConfusion
    obtain ⟨hlt, hcalls, -⟩ := h.called i op r hm
    refine ⟨hlt, hcalls, fun c₁ hc₁ => h.op_of_called hc hop hm ?_⟩
    rwa [← view_completion, view_returnHandle, apply_ite View.completion] at hc₁
  result := fun i c₁ hc₁ hst => by
    rw [← view_completion, view_returnHandle] at hc₁
    rw [← view_stage, view_returnHandle] at hst
    by_cases hi : i = id
    · rw [if_pos hi] at hst
      exact absurd hst (by simp)
    · rw [if_neg hi] at hc₁ hst
      exact h.result i c₁ hc₁ hst

/-- The two containers do not matter. -/
theorem containers (h : Resumption s) (requests : SubscriptMap SocketDescriptor Request)
    (timeouts : Multimap TimePoint RetrierId) :
    Resumption { s with requests := requests, timeouts := timeouts } :=
  h.congr rfl rfl (fun _ => ⟨rfl, rfl⟩)

/-- **A try tells the coroutine what its system call answered**, if it hands
it back. -/
theorem tryOrResume (h : Resumption s) (c' : Completion) (hid : id < s.next)
    (hc : s.completions id = some c) (hop : c'.op = c.op) (hr : c'.result = {})
    (hs : s.stage id = .created ∨ s.stage id = .suspended) (r : Sys) :
    Resumption (tryOrResume s id c' r).1 := by
  have hcalled : Resumption (PollWarden.called s id c'.op r) := by
    unfold PollWarden.called
    rw [hop]
    split
    · exact h.call hid hc (by assumption) r
    · exact h
  have hsame : ∀ i, (PollWarden.called s id c'.op r).completions i = s.completions i
      ∧ (PollWarden.called s id c'.op r).stage i = s.stage i := fun i =>
    ⟨congrArg View.completion (view_called s id i r c'.op),
      congrArg View.stage (view_called s id i r c'.op)⟩
  have hnext : (PollWarden.called s id c'.op r).next = s.next :=
    congrArg Shell.next (shell_called s id r c'.op)
  rw [tryOrResume_eq]
  cases hw : c'.op.waits r with
  | true =>
    rw [if_pos rfl]
    obtain ⟨q, t, he⟩ := registerAgain_eq (PollWarden.called s id c'.op r) id c'
    rw [he]
    refine (hcalled.containers q t).returnNoop (c := c) ((hsame id).1.trans hc) hop ?_ hr
    rw [show _ = s.stage id from (hsame id).2]
    exact hs
  | false =>
    rw [if_neg Bool.false_ne_true, cancelTimeoutThenResume, cancelTimeout_eq]
    refine (hcalled.containers _ _).returnHandle (c := c)
      (by rw [show _ = s.next from hnext]; exact hid) ((hsame id).1.trans hc) hop
      (by rw [show _ = s.stage id from (hsame id).2]; exact hs) ?_
    show Told (PollWarden.called s id c'.op r).trace id (c'.op.answered r c'.result)
    rw [hr]
    by_cases hcalls : c'.op.calls = true
    · refine Or.inr (Or.inl ⟨c'.op, r, ?_, hw, rfl⟩)
      unfold PollWarden.called
      rw [if_pos hcalls]
      rfl
    · refine Or.inr (Or.inr ⟨?_, fun op r' hm => ?_⟩)
      · cases ho : c'.op <;> rw [ho] at hcalls <;> simp [Op.calls] at hcalls <;> rfl
      · unfold PollWarden.called at hm
        rw [if_neg hcalls] at hm
        obtain ⟨-, hcalls', hop'⟩ := h.called id op r' hm
        rw [hop, hop' c hc] at hcalls
        exact hcalls hcalls'

theorem awaitSuspend (h : Resumption s) (hid : id < s.next)
    (hc : s.completions id = some c) (hs : s.stage id = .created)
    (hreg : c.op.Registrable) (a : Handle) (r : Sys) :
    Resumption (awaitSuspend s id c a r).1 := by
  have hr : c.result = {} := h.result id c hc (Or.inl hs)
  rcases awaitSuspend_cases s id c r a _ rfl with
    ⟨fd, ho, -⟩ | ⟨fd, d, -, -, he⟩ | ⟨-, he⟩
  · exact absurd ho (hreg.ne_connect fd)
  · rw [he, readyAwaitSuspend, insertTimeout_eq]
    exact (h.containers _ _).returnNoop (c := c) hc rfl (Or.inl hs) hr
  · obtain ⟨t, ht⟩ : ∃ t, insertTimeout s id { c with handle := some a }
        = { s with timeouts := t } := ⟨_, insertTimeout_eq _ _ _⟩
    rw [he, ht]
    exact (h.containers s.requests t).tryOrResume { c with handle := some a } hid hc rfl hr
      (Or.inl hs) r

/-- **A time out tells the coroutine that its deadline passed.** That is no
error for a sleep. -/
theorem iopTimedout (h : Resumption s) (hid : id < s.next)
    (hc : s.completions id = some c) (hs : s.stage id = .suspended) :
    Resumption (iopTimedout s id c).1 := by
  unfold PollWarden.iopTimedout
  split
  · rename_i ho
    refine h.returnHandle (c := c) hid hc rfl (Or.inr hs) (Or.inr (Or.inr ⟨?_, ?_⟩))
    · exact h.result id c hc (Or.inr hs)
    · intro op r hm
      obtain ⟨-, hcalls, hop⟩ := h.called id op r hm
      rw [← hop c hc, ho] at hcalls
      exact Bool.false_ne_true hcalls
  · rw [cancelIop_eq]
    exact (h.containers _ s.timeouts).returnHandle (c := c) hid hc rfl (Or.inr hs)
      (Or.inl rfl)

theorem iopDestructed (h : Resumption s) (id : RetrierId) (c : Completion) :
    Resumption (iopDestructed s id c) := by
  have hv : ∀ i, (PollWarden.iopDestructed s id c).completions i
        = (if i = id then none else s.completions i)
      ∧ (PollWarden.iopDestructed s id c).stage i
        = if i = id then .deleted else s.stage i := fun i => by
    rw [← view_completion, ← view_stage, view_iopDestructed]
    split <;> exact ⟨rfl, rfl⟩
  have ht : (PollWarden.iopDestructed s id c).trace = s.trace := by
    unfold PollWarden.iopDestructed
    rw [cancelIop_eq, cancelTimeout_eq]
    rfl
  have hnext : (PollWarden.iopDestructed s id c).next = s.next :=
    congrArg Shell.next (shell_iopDestructed s id c)
  refine ⟨by rw [ht]; exact h.past, fun i out hm => ?_, fun i op r hm => ?_,
    fun i c₁ hc₁ hst => ?_⟩
  · rw [ht] at hm
    rw [hnext, (hv i).2]
    obtain ⟨hlt, hst⟩ := h.resumed i out hm
    refine ⟨hlt, ?_⟩
    split
    · exact Or.inr rfl
    · exact hst
  · rw [ht] at hm
    rw [hnext]
    obtain ⟨hlt, hcalls, hop⟩ := h.called i op r hm
    refine ⟨hlt, hcalls, fun c₁ hc₁ => ?_⟩
    rw [(hv i).1] at hc₁
    split at hc₁
    · exact absurd hc₁ (by simp)
    · exact hop c₁ hc₁
  · rw [(hv i).1] at hc₁
    rw [(hv i).2] at hst
    split at hst
    · exact absurd hst (by simp)
    · rename_i hi
      rw [if_neg hi] at hc₁
      exact h.result i c₁ hc₁ hst

theorem createIop (h : Resumption s) (call : Call) : Resumption (createIop s call) := by
  have hc : ∀ i, (PollWarden.createIop s call).completions i
      = if i = s.next then some call.completion else s.completions i := fun i => by
    rw [← view_completion, view_createIop]
    split <;> rfl
  refine ⟨h.past, fun i out hm => ?_, fun i op r hm => ?_, fun i c₁ hc₁ hst => ?_⟩
  · obtain ⟨hlt, hst⟩ := h.resumed i out hm
    exact ⟨Nat.lt_succ_of_lt hlt, hst⟩
  · obtain ⟨hlt, hcalls, hop⟩ := h.called i op r hm
    refine ⟨Nat.lt_succ_of_lt hlt, hcalls, fun c₁ hc₁ => ?_⟩
    rw [hc, if_neg (ne_of_lt hlt)] at hc₁
    exact hop c₁ hc₁
  · rw [hc] at hc₁
    split at hc₁
    · obtain rfl := Option.some.inj hc₁
      cases call <;> rfl
    · exact h.result i c₁ hc₁ hst

theorem goto (h : Resumption s) (p : Point) : Resumption (s.goto p) := by
  rw [goto_eq]
  exact h.congr rfl rfl (fun _ => ⟨rfl, rfl⟩)

theorem doPollReturns (h : Resumption s) : Resumption (doPollReturns s) := by
  have h' : Resumption { s with resumer := s.resumer.swap } :=
    h.congr rfl rfl (fun _ => ⟨rfl, rfl⟩)
  exact h'.goto _

/-- **Every step keeps what the trace says of each completion.** -/
theorem step {e : Event} (hreg : Registration s) (h : Resumption s) (hok : PlainStep s e)
    (hs : step s e = some s') : Resumption s' := by
  cases (stepped_of_step hs).2 with
  | create hu call => exact h.createIop call
  | await hu hc a r =>
    exact h.awaitSuspend (hreg.filed.lt_next hc) hc hok
      ((hreg.filed.view _).registrable _ hc) a r
  | destroy hu hc => exact h.iopDestructed _ _
  | asyncResume hu handles written =>
    have hq : ∀ l : List Handle, Resumption
        { s with trace := (l.map Obs.queued) ++ s.trace } := fun l => by
      induction l with
      | nil => exact h
      | cons a l ih => exact ih.observe (o := .queued a) (by simp) (by simp)
    have hq' := hq handles.reduceOption.reverse
    rw [List.map_reverse] at hq'
    obtain ⟨n, he⟩ := doAsyncResume_eq s handles written
    rw [he]
    exact hq'.congr rfl rfl (fun _ => ⟨rfl, rfl⟩)
  | runUntil hu coro => exact h.congr rfl rfl (fun _ => ⟨rfl, rfl⟩)
  | runBatch hu => exact h.congr rfl rfl (fun _ => ⟨rfl, rfl⟩)
  | suspend hf hp => exact h.goto _
  | @clock f fs hf hp now done =>
    have hcleared := clearedTimeouts s f now done
    generalize PollWarden.clearTimeouts s f now done = s₁ at hcleared ⊢
    cases hcleared with
    | leaves => exact h.congr rfl rfl (fun _ => ⟨rfl, rfl⟩)
    | polls => exact h.goto _
    | fails => exact h.congr rfl rfl (fun _ => ⟨rfl, rfl⟩)
    | @timesOut t id l c he hdue hc p =>
      have hfiled := hreg.filed
      rw [State.pending_eq hf, hp] at hfiled
      obtain ⟨hst, -⟩ := hfiled.timedOut he
      exact ((h.containers s.requests s.timeouts.eraseBegin).iopTimedout
        (hreg.filed.lt_next hc) hc hst).goto p
  | @poll f fs hf t hp a =>
    have hpolled := polled s a
    generalize PollWarden.doPoll s a = s₁ at hpolled ⊢
    cases hpolled with
    | returns => exact h.doPollReturns
    | throws => exact h.congr rfl rfl (fun _ => ⟨rfl, rfl⟩)
    | collects =>
      refine (collect_rule (P := Resumption) a.revents ?_ (fun t ht => ?_)
        (fun t fd d ht => ?_)).goto _
      · exact h.congr rfl rfl (fun _ => ⟨rfl, rfl⟩)
      · exact ht.congr rfl rfl (fun _ => ⟨rfl, rfl⟩)
      · exact ht.congr rfl rfl (fun _ => ⟨rfl, rfl⟩)
  | @retry f fs hf g rest hp r =>
    have hretried := retriedNext s g rest r
    generalize PollWarden.retryNext s g rest r = s₁ at hretried ⊢
    cases hretried with
    | returns => exact h.doPollReturns
    | fails => exact h.congr rfl rfl (fun _ => ⟨rfl, rfl⟩)
    | @retries id rest c hg hc p =>
      have hfiled := hreg.filed
      rw [State.pending_eq hf, hp] at hfiled
      have hst := ((hfiled.view id).of_pending (by simp [Point.pending])).1
      exact ((h.observe (o := .retried id) (by simp) (by simp)).tryOrResume (c := c) c
        (hreg.filed.lt_next hc) hc rfl (h.result id c hc (Or.inr hst)) (Or.inr hst)
        r).goto p
  | @resumeNext f fs hf rest hp =>
    have h' : Resumption { s with resumer := s.resumer.clearResuming } :=
      h.congr rfl rfl (fun _ => ⟨rfl, rfl⟩)
    have hresumed := resumedAllNext s f rest
    generalize resumeAllNext s f rest = s₁ at hresumed ⊢
    cases hresumed with
    | again => exact h'.goto _
    | leaves => exact h'.congr rfl rfl (fun _ => ⟨rfl, rfl⟩)
    | resumes a rest => exact (h.observe (o := .handle a) (by simp) (by simp)).goto _

end Resumption

theorem resumption_init (w : SocketDescriptor) : Resumption (init w) where
  past := Past.nil
  resumed := fun i out hm => absurd hm (by simp [init])
  called := fun i op r hm => absurd hm (by simp [init])
  result := fun i c hc => absurd hc (by simp [init])

/-- **In every such run each coroutine is resumed at most once**, and is told
what happened. -/
theorem resumption_of_run {w : SocketDescriptor} {es : List Event} {s : State}
    (h : Run step PlainStep (init w) es s) : Resumption s :=
  (h.invariant (P := fun s => Registration s ∧ Resumption s)
    (fun _ _ _ hs hok he => ⟨hs.1.step hok he, hs.2.step hs.1 hok he⟩)
    ⟨registration_init w, resumption_init w⟩).2

/-! ## Between the passes -/

/-- **A completion is where it has to be, and nowhere else.** Suspended, it
is in `timeouts` exactly once, under its own deadline, if it has one, and not
at all otherwise; and it is exactly once in the list its type registers in,
and in no other. If it is not suspended it is in neither. -/
def State.RegisteredOnce (s : State) (i : RetrierId) : Prop :=
  (s.stage i = .suspended → ∃ c, s.completions i = some c
    ∧ s.timeouts.keysOf i = c.deadline.toList
    ∧ ∀ fd d, (s.registered fd d).count i = if c.op.slot = some (fd, d) then 1 else 0)
  ∧ (s.stage i ≠ .suspended → s.timeouts.keysOf i = []
    ∧ ∀ fd d, i ∉ s.registered fd d)

/-- **Whenever the loop is about to look at the timeouts, every completion is
registered where it has to be, and nowhere else**; and each coroutine has
been resumed at most once, with the answer of its system call or with the
time out. -/
theorem registeredOnce_of_run {w : SocketDescriptor} {es : List Event} {s : State}
    (h : Run step PlainStep (init w) es s) :
    (∀ f fs, s.frames = f :: fs → f.point = .clearTimeouts →
      ∀ i, s.RegisteredOnce i) ∧ Past ToldOnce s.trace := by
  refine ⟨fun f fs hf hp i => ?_, (resumption_of_run h).past⟩
  have hfiled := (registration_of_run h).filed
  rw [State.pending_eq hf, hp] at hfiled
  have hv := hfiled.view i
  rw [show ((Point.clearTimeouts).pending).count i = 0 from List.count_nil] at hv
  refine ⟨fun hs => ?_, fun hs => ?_⟩
  · obtain ⟨c, hc⟩ := hfiled.exists_completion hs
    refine ⟨c, hc, ?_, fun fd d => ?_⟩
    · have hk := hv.keys
      rw [if_pos (show (s.view i).stage = _ from hs),
        deadlines_of_same hc ⟨rfl, rfl⟩] at hk
      exact hk
    · have hcount := hv.count fd d
      rw [ite_self, Nat.add_zero, slot_of_same hc ⟨rfl, rfl⟩] at hcount
      rw [show (s.registered fd d).count i = _ from hcount]
      by_cases hslot : c.op.slot = some (fd, d)
      · rw [if_pos hslot, if_pos ⟨hs, hslot⟩]
      · rw [if_neg hslot, if_neg (fun hand => hslot hand.2)]
  · obtain ⟨hk, -, hcount⟩ := hv.eq_zero hs
    exact ⟨hk, fun fd d => List.count_eq_zero.mp (hcount fd d)⟩

/-- A read with a deadline and a sleep are awaited; the descriptor of the
read is reported ready, and the read finds that it has to wait again. -/
theorem registeredOnce_of_run_readAgain :
    ∃ s, Run step PlainStep (init 3)
      [.create (.readSome 5 1 (some 7000000)), .create (.sleep 0 9000000), .runUntil 1,
        .await 0 2 ⟨-1, EAGAIN, 0⟩, .await 1 3 ⟨0, 0, 0⟩, .suspend, .clock 0 false,
        .poll { ret := 1, revents := fun fd => { pollin := fd = 5 } },
        .retry ⟨-1, EAGAIN, 0⟩, .retry ⟨0, 0, 0⟩, .resumeNext] s
      ∧ s.frames = [⟨some 1, .clearTimeouts⟩] ∧ s.stage 0 = .suspended
      ∧ s.RegisteredOnce 0 ∧ Past ToldOnce s.trace := by
  obtain ⟨s, hrun, htest⟩ := exists_run_of_exec step PlainStep
    (init 3) [.create (.readSome 5 1 (some 7000000)),
      .create (.sleep 0 9000000), .runUntil 1, .await 0 2 ⟨-1, EAGAIN, 0⟩,
      .await 1 3 ⟨0, 0, 0⟩, .suspend, .clock 0 false,
      .poll { ret := 1, revents := fun fd => { pollin := fd = 5 } },
      .retry ⟨-1, EAGAIN, 0⟩, .retry ⟨0, 0, 0⟩, .resumeNext]
    (fun s => s.frames = [⟨some 1, .clearTimeouts⟩] ∧ s.stage 0 = .suspended)
    (by decide)
  obtain ⟨hf, hs⟩ := of_decide_eq_true htest
  obtain ⟨hreg, hpast⟩ := registeredOnce_of_run hrun
  exact ⟨s, hrun, hf, hs, hreg _ _ hf rfl 0, hpast⟩

end PollWarden
