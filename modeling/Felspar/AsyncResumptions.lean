import Felspar.WakeUp

/-!
# Deferred resumption, exactly once and in order

What `async_resume` queues is resumed by `resume_all`, which swaps the queue
for an empty vector and resumes what was in it. Handles queued meanwhile go to
the vector that is now the queue, and wait for the next `resume_all`.

The two vectors and the loops that resume form a small machine of their own
(`Resumer`), which a warden contains. What is observed of it is a list, and
the `resume_all`s that start divide that list into passes, so that the law can
be said of each pass: it resumes what was queued in the one before, each
handle as often as it was queued and in the order of queueing (`InOrder`). The
law is proved of the machine (`Kept.moves`), and both wardens, as long as
their loops are not entered from within, are shown to make its moves
(`moves_of_step`).
-/

namespace AsyncResumption

/-! ## What is observed -/

/-- What is observed of deferred resumption. -/
inductive Deferral
  /-- `async_resume` is called. -/
  | queued (handles : List (Option Handle))
  /-- A `resume_all` starts. -/
  | started
  /-- It resumes a handle. -/
  | resumed (h : Handle)
  deriving DecidableEq

/-- The handles that are queued: null handles are dropped. -/
def Deferral.handlesQueued : Deferral → List Handle
  | .queued handles => handles.reduceOption
  | _ => []

/-- The handle that is resumed. -/
def Deferral.handlesResumed : Deferral → List Handle
  | .resumed h => [h]
  | _ => []

/-- The number of `resume_all`s that have started. -/
def starts (l : List Deferral) : ℕ := l.count .started

@[simp] theorem starts_nil : starts [] = 0 := rfl

@[simp] theorem starts_started (l : List Deferral) : starts (.started :: l) = starts l + 1 :=
  List.count_cons_self

@[simp] theorem starts_queued (handles : List (Option Handle)) (l : List Deferral) :
    starts (.queued handles :: l) = starts l :=
  List.count_cons_of_ne (by simp)

@[simp] theorem starts_resumed (h : Handle) (l : List Deferral) :
    starts (.resumed h :: l) = starts l :=
  List.count_cons_of_ne (by simp)

/-- **What is observed in one pass**: with `k` `resume_all`s having started,
and before the next. -/
def during (f : Deferral → List Handle) : List Deferral → ℕ → List Handle
  | [], _ => []
  | .started :: _, 0 => []
  | .started :: l, k + 1 => during f l k
  | o :: l, 0 => f o ++ during f l 0
  | _ :: l, k + 1 => during f l (k + 1)

section During

variable (f : Deferral → List Handle) (l : List Deferral) (k : ℕ)

/-- A `resume_all` that starts begins a pass. -/
theorem during_started : during f (l ++ [.started]) k = during f l k := by
  induction l generalizing k with
  | nil => cases k <;> rfl
  | cons o l ih => cases o <;> cases k <;> simp [during, ih]

/-- Anything else is observed in the last pass. -/
theorem during_append {o : Deferral} (ho : o ≠ .started) :
    during f (l ++ [o]) k = during f l k ++ if k = starts l then f o else [] := by
  induction l generalizing k with
  | nil => cases o <;> cases k <;> simp_all [during]
  | cons a l ih => cases a <;> cases k <;> simp [during, ih]

/-- Nothing is observed in a pass that has not begun. -/
theorem during_of_starts_lt (hk : starts l < k) : during f l k = [] := by
  induction l generalizing k with
  | nil => rfl
  | cons o l ih =>
    cases k with
    | zero => exact absurd hk (by simp)
    | succ k => cases o <;> simp_all [during]

end During

/-! ## The machine -/

/-- **The vectors, and the loops that are active**, innermost first. Of a loop
that is in a `resume_all` the handles count that it has still to resume. -/
structure Resumer where
  loops : List (Option (List Handle))
  vectors : AsyncResumption

/-- What the running `resume_all` has still to resume, if one runs. -/
def Resumer.left (r : Resumer) : Option (List Handle) := r.loops.head?.join

/-- **A move of the machine**, where a loop is entered only outside all
others. -/
inductive Moves : Resumer → List Deferral → Resumer → Prop
  | stays (r : Resumer) : Moves r [] r
  | enter (v : AsyncResumption) : Moves ⟨[], v⟩ [] ⟨[none], v⟩
  | leave (v : AsyncResumption) : Moves ⟨[none], v⟩ [] ⟨[], v⟩
  | queue (r : Resumer) (handles : List (Option Handle)) :
      Moves r [.queued handles] { r with vectors := (r.vectors.queue handles).1 }
  | start (v : AsyncResumption) : Moves ⟨[none], v⟩ [.started] ⟨[some v.queued], v.swap⟩
  | resume (v : AsyncResumption) (h : Handle) (rest : List Handle) :
      Moves ⟨[some (h :: rest)], v⟩ [.resumed h] ⟨[some rest], v⟩
  | finish (v : AsyncResumption) : Moves ⟨[some []], v⟩ [] ⟨[none], v.clearResuming⟩
  | finishLast (v : AsyncResumption) : Moves ⟨[some []], v⟩ [] ⟨[], v.clearResuming⟩

/-- **Each pass resumes what was queued in the one before.** When `k`
`resume_all`s have started, the handles queued are those the next one resumes;
`left` are those the running one has still to resume, and `queue` the ones
that wait. In total every handle is resumed as often as it was queued, in the
order of queueing. -/
structure InOrder (l : List Deferral) (left queue : List Handle) : Prop where
  first : during Deferral.handlesResumed l 0 = []
  passes : ∀ k < starts l, during Deferral.handlesResumed l (k + 1)
    ++ (if k + 1 = starts l then left else []) = during Deferral.handlesQueued l k
  waiting : queue = during Deferral.handlesQueued l (starts l)
  total : l.flatMap Deferral.handlesResumed ++ left ++ queue
    = l.flatMap Deferral.handlesQueued

section InOrder

variable {l : List Deferral} {left waits : List Handle}

theorem starts_append_of_ne {o : Deferral} (ho : o ≠ .started) :
    starts (l ++ [o]) = starts l := by
  simp [starts, ho]

/-- What is queued waits, in the pass it is queued in. -/
theorem InOrder.queue (h : InOrder l left waits) (handles : List (Option Handle)) :
    InOrder (l ++ [.queued handles]) left (waits ++ handles.reduceOption) := by
  have hs : starts (l ++ [.queued handles]) = starts l := starts_append_of_ne (by simp)
  refine ⟨?_, fun k hk => ?_, ?_, ?_⟩
  · rw [during_append _ _ _ (by simp), h.first]
    simp [Deferral.handlesResumed]
  · rw [hs] at hk ⊢
    rw [during_append _ _ _ (by simp), during_append _ _ _ (by simp), if_neg hk.ne,
      ← h.passes k hk]
    simp [Deferral.handlesResumed]
  · rw [hs, during_append _ _ _ (by simp), if_pos rfl, ← h.waiting]
    rfl
  · rw [List.flatMap_append, List.flatMap_append, ← h.total]
    simp [Deferral.handlesResumed, Deferral.handlesQueued]

/-- **The swap**: what waited is what the `resume_all` that starts has to
resume, and nothing waits. -/
theorem InOrder.start (h : InOrder l [] waits) : InOrder (l ++ [.started]) waits [] := by
  have hs : starts (l ++ [.started]) = starts l + 1 := by simp [starts]
  refine ⟨?_, fun k hk => ?_, ?_, ?_⟩
  · rw [during_started, h.first]
  · rw [hs] at hk ⊢
    rw [during_started, during_started]
    -- an earlier pass is over; the one that starts has what waited still to resume
    rcases Nat.lt_succ_iff_lt_or_eq.mp hk with hlt | rfl
    · rw [if_neg (by omega), ← h.passes k hlt, ite_self]
    · rw [if_pos rfl, during_of_starts_lt _ _ _ (Nat.lt_succ_self _)]
      exact h.waiting
  · rw [hs, during_started, during_of_starts_lt _ _ _ (Nat.lt_succ_self _)]
  · rw [List.flatMap_append, List.flatMap_append, ← h.total]
    simp [Deferral.handlesResumed, Deferral.handlesQueued]

/-- A handle is resumed in the pass its `resume_all` began. -/
theorem InOrder.resume {a : Handle} {rest : List Handle} (h : InOrder l (a :: rest) waits)
    (hpos : 0 < starts l) : InOrder (l ++ [.resumed a]) rest waits := by
  have hs : starts (l ++ [.resumed a]) = starts l := starts_append_of_ne (by simp)
  refine ⟨?_, fun k hk => ?_, ?_, ?_⟩
  · rw [during_append _ _ _ (by simp), h.first, if_neg hpos.ne]
    rfl
  · rw [hs] at hk ⊢
    rw [during_append _ _ _ (by simp), during_append _ _ _ (by simp), if_neg hk.ne,
      List.append_nil, ← h.passes k hk]
    split <;> simp [Deferral.handlesResumed]
  · rw [hs, during_append _ _ _ (by simp), if_pos rfl, ← h.waiting]
    simp [Deferral.handlesQueued]
  · rw [List.flatMap_append, List.flatMap_append, ← h.total]
    simp [Deferral.handlesResumed, Deferral.handlesQueued]

end InOrder

/-- **The invariant** of the machine: the law; what a `resume_all` has still to
resume is the end of the vector it iterates over, of which nothing is left
when it has ended; and one loop is active at most. -/
structure Kept (l : List Deferral) (r : Resumer) : Prop where
  inOrder : InOrder l (r.left.getD []) r.vectors.queued
  resuming : r.left = none → r.vectors.resuming = []
  suffix : ∀ rest, r.left = some rest → rest <:+ r.vectors.resuming
  started : r.left ≠ none → 0 < starts l
  single : r.loops.length ≤ 1

/-- Nothing is queued to begin with. -/
theorem kept_nil : Kept [] ⟨[], {}⟩ where
  inOrder :=
    { first := rfl
      passes := fun k hk => absurd hk (by simp)
      waiting := rfl
      total := rfl }
  resuming := fun _ => rfl
  suffix := fun _ hr => absurd hr (by simp [Resumer.left])
  started := fun hn => absurd rfl hn
  single := Nat.zero_le 1

/-- **Every move keeps the law.** -/
theorem Kept.moves {l os : List Deferral} {r r' : Resumer} (h : Kept l r)
    (hm : Moves r os r') : Kept (l ++ os) r' := by
  cases hm with
  | stays => rwa [List.append_nil]
  | enter v =>
    rw [List.append_nil]
    exact ⟨h.inOrder, h.resuming, h.suffix, h.started, le_rfl⟩
  | leave v =>
    rw [List.append_nil]
    exact ⟨h.inOrder, h.resuming, fun _ hr => absurd hr (by simp [Resumer.left]), h.started,
      Nat.zero_le 1⟩
  | queue _ handles =>
    refine ⟨?_, fun hn => ?_, fun rest hr => ?_, fun hn => ?_, h.single⟩
    · rw [queue_fst]
      exact h.inOrder.queue handles
    · rw [queue_resuming]
      exact h.resuming hn
    · rw [queue_resuming]
      exact h.suffix rest hr
    · rw [starts_append_of_ne (by simp)]
      exact h.started hn
  | start v =>
    have hempty : v.swap.queued = [] := h.resuming rfl
    refine ⟨?_, fun hn => absurd hn (by simp [Resumer.left]), fun rest hr => ?_, fun _ => ?_,
      le_rfl⟩
    · rw [hempty]
      exact h.inOrder.start
    · -- the loop of `resume_all` begins at the beginning of the vector
      exact Option.some.inj hr ▸ List.suffix_refl v.queued
    · show 0 < starts (l ++ [.started])
      simp [starts]
  | resume v a rest =>
    have hpos : 0 < starts l := h.started (by simp [Resumer.left])
    refine ⟨h.inOrder.resume hpos, fun hn => absurd hn (by simp [Resumer.left]),
      fun rest' hr => ?_, fun _ => ?_, le_rfl⟩
    · have hnext : rest' = rest := (Option.some.inj hr).symm
      rw [hnext]
      exact (List.suffix_cons a rest).trans (h.suffix _ rfl)
    · rw [starts_append_of_ne (by simp)]
      exact hpos
  | finish v =>
    rw [List.append_nil]
    exact ⟨h.inOrder, fun _ => rfl, fun _ hr => absurd hr (by simp [Resumer.left]),
      fun hn => absurd rfl hn, le_rfl⟩
  | finishLast v =>
    rw [List.append_nil]
    exact ⟨h.inOrder, fun _ => rfl, fun _ hr => absurd hr (by simp [Resumer.left]),
      fun hn => absurd rfl hn, Nat.zero_le 1⟩

/-! ## Where it is part of a warden

A warden that does anything but queue or resume a handle either leaves the
vectors alone or starts a `resume_all`. -/

/-- What is observed when a warden goes from one state to another. -/
def startedBetween (r r' : Resumer) : List Deferral :=
  if r.left = none ∧ r'.left ≠ none then [.started] else []

section Between

variable {r r' : Resumer} {v : AsyncResumption}

theorem Moves.of_stays (h : r' = r) : Moves r (startedBetween r r') r' := by
  rw [h, startedBetween, if_neg (fun hn => hn.2 hn.1)]
  exact .stays r

theorem Moves.of_enter (h : r = ⟨[], v⟩) (h' : r' = ⟨[none], v⟩) :
    Moves r (startedBetween r r') r' := by
  rw [h, h']
  exact .enter v

theorem Moves.of_leave (h : r = ⟨[none], v⟩) (h' : r' = ⟨[], v⟩) :
    Moves r (startedBetween r r') r' := by
  rw [h, h']
  exact .leave v

theorem Moves.of_start (h : r = ⟨[none], v⟩) (h' : r' = ⟨[some v.queued], v.swap⟩) :
    Moves r (startedBetween r r') r' := by
  rw [h, h']
  exact .start v

end Between

end AsyncResumption

open AsyncResumption

/-! ## The poll warden -/

namespace PollWarden

/-- **The steps of a run whose loop is not entered from within.** -/
def Unnested (s : State) : Event → Prop
  | .runUntil _ | .runBatch => s.frames = []
  | _ => True

instance : DecidableRel Unnested := fun s e =>
  match e with
  | .runUntil _ | .runBatch => inferInstanceAs (Decidable (s.frames = []))
  | .create _ | .await _ _ _ | .destroy _ | .asyncResume _ _ | .suspend | .clock _ _
  | .poll _ | .retry _ | .resumeNext => inferInstanceAs (Decidable True)

/-- What a loop that is in a `resume_all` has still to resume. -/
def Point.toResume : Point → Option (List Handle)
  | .resumeAll rest | .resumed rest => some rest
  | _ => none

/-- The machine that is part of the warden. -/
def State.resumes (s : State) : Resumer :=
  ⟨s.frames.map (fun f => f.point.toResume), s.resumer⟩

/-- What a step does of deferred resumption. -/
def deferred (s : State) (e : Event) : List Deferral :=
  match e with
  | .asyncResume handles _ => [.queued handles]
  | .resumeNext => ((s.resumes.left.bind List.head?).map Deferral.resumed).toList
  | _ => (step s e).elim [] (fun s' => startedBetween s.resumes s'.resumes)

section Moves

variable {s s' : State} {f : Frame}

/-- A step that neither queues nor resumes starts a `resume_all` at most. -/
theorem deferred_eq {e : Event} (hs : step s e = some s')
    (hq : ∀ handles written, e ≠ .asyncResume handles written) (hr : e ≠ .resumeNext) :
    deferred s e = startedBetween s.resumes s'.resumes := by
  cases e with
  | asyncResume handles written => exact absurd rfl (hq handles written)
  | resumeNext => exact absurd rfl hr
  | _ =>
    show (step s _).elim [] _ = _
    rw [hs]
    rfl

/-- A member of a completion leaves the machine. -/
theorem resumes_of_shell (h : s'.shell = s.shell) : s'.resumes = s.resumes := by
  unfold State.resumes
  rw [show s'.frames = s.frames from congrArg Shell.frames h,
    show s'.resumer = s.resumer from congrArg Shell.resumer h]

variable {x : Option (List Handle)} {v : AsyncResumption}

theorem resumes_goto (h : s.resumes = ⟨[x], v⟩) (p : Point) :
    (s.goto p).resumes = ⟨[p.toResume], v⟩ := by
  rw [State.resumes, Resumer.mk.injEq] at h
  obtain ⟨f, hf, -⟩ := List.map_eq_singleton_iff.mp h.1
  rw [goto_eq, State.resumes, hf, h.2]
  rfl

theorem resumes_leave (h : s.resumes = ⟨[x], v⟩) : s.leave.resumes = ⟨[], v⟩ := by
  rw [State.resumes, Resumer.mk.injEq] at h
  obtain ⟨f, hf, -⟩ := List.map_eq_singleton_iff.mp h.1
  rw [State.leave, State.resumes, hf, h.2]
  rfl

theorem resumes_doPollReturns (h : s.resumes = ⟨[x], v⟩) :
    (doPollReturns s).resumes = ⟨[some v.queued], v.swap⟩ := by
  have hv : s.resumer = v := congrArg Resumer.vectors h
  have hswap : ({ s with resumer := s.resumer.swap } : State).resumes = ⟨[x], v.swap⟩ := by
    rw [← hv]
    exact congrArg (fun r : Resumer => { r with vectors := s.resumer.swap }) h
  rw [← hv] at hswap ⊢
  exact resumes_goto hswap _

/-- The loop that is active is the only one. -/
theorem resumes_of_frames {fs : List Frame} (hf : s.frames = f :: fs)
    (h : s.resumes.loops.length ≤ 1) : s.resumes = ⟨[f.point.toResume], s.resumer⟩ := by
  rw [State.resumes, hf] at h
  have hfs : fs = [] := List.eq_nil_of_length_eq_zero (by simpa using h)
  rw [State.resumes, hf, hfs]
  rfl

/-- A round of `resume_all`: it resumes a handle, or ends. -/
theorem moves_resumeNext {rest : List Handle} (h : s.resumes = ⟨[some rest], s.resumer⟩) :
    Moves s.resumes (deferred s .resumeNext) (resumeAllNext s f rest).resumes := by
  have hleft : deferred s .resumeNext = (rest.head?.map Deferral.resumed).toList := by
    rw [deferred, h]
    rfl
  rw [hleft, h]
  have hclear : ({ s with resumer := s.resumer.clearResuming } : State).resumes
      = ⟨[some rest], s.resumer.clearResuming⟩ :=
    congrArg (fun r : Resumer => { r with vectors := s.resumer.clearResuming }) h
  have hresumed := resumedAllNext s f rest
  generalize resumeAllNext s f rest = s₁ at hresumed ⊢
  cases hresumed with
  | again =>
    rw [resumes_goto hclear]
    exact .finish s.resumer
  | leaves =>
    rw [resumes_leave hclear]
    exact .finishLast s.resumer
  | resumes a rest =>
    rw [resumes_goto (s := s.observe (.handle a)) h]
    exact .resume s.resumer a rest

/-- **Every step is a move of the machine**, as long as the loop is not
entered from within. -/
theorem moves_of_step {e : Event} (hlen : s.resumes.loops.length ≤ 1) (hok : Unnested s e)
    (hs : step s e = some s') : Moves s.resumes (deferred s e) s'.resumes := by
  cases (stepped_of_step hs).2 with
  | create hu call =>
    rw [deferred_eq hs (by simp) (by simp)]
    exact .of_stays rfl
  | @await hu id c hc a r =>
    rw [deferred_eq hs (by simp) (by simp)]
    exact .of_stays (resumes_of_shell (shell_awaitSuspend s id c r a))
  | @destroy hu id c hc =>
    rw [deferred_eq hs (by simp) (by simp)]
    exact .of_stays (resumes_of_shell (shell_iopDestructed s id c))
  | asyncResume hu handles written =>
    have hr : (doAsyncResume s handles written).resumes
        = { s.resumes with vectors := (s.resumer.queue handles).1 } := by
      obtain ⟨n, he⟩ := doAsyncResume_eq s handles written
      rw [he]
      rfl
    rw [hr]
    exact .queue s.resumes handles
  | runUntil hu coro =>
    rw [deferred_eq hs (by simp) (by simp)]
    have hf : s.frames = [] := hok
    exact .of_enter (v := s.resumer) (by rw [State.resumes, hf]; rfl)
      (by rw [State.resumes, hf]; rfl)
  | runBatch hu =>
    rw [deferred_eq hs (by simp) (by simp)]
    have hf : s.frames = [] := hok
    exact .of_enter (v := s.resumer) (by rw [State.resumes, hf]; rfl)
      (by rw [State.resumes, hf]; rfl)
  | @suspend f fs hf p hp =>
    rw [deferred_eq hs (by simp) (by simp)]
    have hat := resumes_of_frames hf hlen
    have hsame : p.toResume = f.point.toResume := by
      cases hfp : f.point <;> rw [hfp] at hp <;> cases hp <;> rfl
    exact .of_stays (by rw [resumes_goto hat, hat, hsame])
  | @clock f fs hf hp now done =>
    rw [deferred_eq hs (by simp) (by simp)]
    have hat := resumes_of_frames hf hlen
    rw [hp] at hat
    have hcleared := clearedTimeouts s f now done
    generalize clearTimeouts s f now done = s₁ at hcleared ⊢
    cases hcleared with
    | leaves => exact .of_leave hat (resumes_leave hat)
    | polls => exact .of_stays ((resumes_goto hat _).trans hat.symm)
    | fails => exact .of_stays rfl
    | @timesOut t id l c he hdue hc p hp' =>
      have hshell := shell_iopTimedout { s with timeouts := s.timeouts.eraseBegin } id c
      refine .of_stays ((resumes_goto ((resumes_of_shell hshell).trans hat) _).trans ?_)
      rw [hat]
      rcases hp' with rfl | rfl <;> rfl
  | @poll f fs hf t hp a =>
    rw [deferred_eq hs (by simp) (by simp)]
    have hat := resumes_of_frames hf hlen
    rw [hp] at hat
    have hpolled := polled s a
    generalize doPoll s a = s₁ at hpolled ⊢
    cases hpolled with
    | returns => exact .of_start hat (resumes_doPollReturns hat)
    | throws => exact .of_leave hat (resumes_leave hat)
    | collects =>
      obtain ⟨hframes, hresumer⟩ := Awake.collect_loop s a.revents
      have hcollect : (collect s a.revents).resumes = s.resumes := by
        unfold State.resumes
        rw [hframes, hresumer]
      exact .of_stays ((resumes_goto (hcollect.trans hat) _).trans hat.symm)
  | @retry f fs hf g rest hp r =>
    rw [deferred_eq hs (by simp) (by simp)]
    have hat := resumes_of_frames hf hlen
    rw [hp] at hat
    have hretried := retriedNext s g rest r
    generalize retryNext s g rest r = s₁ at hretried ⊢
    cases hretried with
    | returns => exact .of_start hat (resumes_doPollReturns hat)
    | fails => exact .of_stays rfl
    | @retries id rest c hg hc p hp' =>
      have hshell := shell_tryOrResume (s.observe (.retried id)) id c r
      refine .of_stays ((resumes_goto ((resumes_of_shell hshell).trans hat) _).trans ?_)
      rw [hat]
      rcases hp' with rfl | rfl <;> rfl
  | @resumeNext f fs hf rest hp =>
    have hat := resumes_of_frames hf hlen
    rw [hp] at hat
    exact moves_resumeNext hat

end Moves

/-- **The law, over every run of the poll warden.** -/
theorem kept_of_run {w : SocketDescriptor} {es : List Event} {s : State}
    (h : Run step Unnested (init w) es s) :
    Kept (observed step deferred (init w) es) s.resumes :=
  h.invariant_observed deferred (P := fun s l => Kept l s.resumes)
    (fun _ _ _ _ hk hok hs => hk.moves (moves_of_step hk.single hok hs)) kept_nil

end PollWarden

/-! ## The uring warden -/

namespace UringWarden

/-- **The steps of a run whose loop is not entered from within.** -/
def Unnested (s : State) : Event → Prop
  | .runUntil _ | .runBatch _ => s.frames = []
  | _ => True

instance : DecidableRel Unnested := fun s e =>
  match e with
  | .runUntil _ | .runBatch _ => inferInstanceAs (Decidable (s.frames = []))
  | .create _ | .await _ _ _ _ | .destroy _ | .asyncResume _ _ _ | .suspend
  | .condition _ _ | .waitCqe _ _ | .peekCqe _ | .resumeNext | .close =>
    inferInstanceAs (Decidable True)

/-- What a loop that is in a `resume_all` has still to resume. -/
def Point.toResume : Point → Option (List Handle)
  | .resumeAll rest | .resumed rest => some rest
  | _ => none

/-- The machine that is part of the warden. -/
def State.resumes (s : State) : Resumer :=
  ⟨s.frames.map (fun f => f.point.toResume), s.resumer⟩

/-- What a step does of deferred resumption. -/
def deferred (s : State) (e : Event) : List Deferral :=
  match e with
  | .asyncResume handles _ _ => [.queued handles]
  | .resumeNext => ((s.resumes.left.bind List.head?).map Deferral.resumed).toList
  | _ => (step s e).elim [] (fun s' => startedBetween s.resumes s'.resumes)

section Moves

variable {s s' : State} {f : Frame}

/-- A step that neither queues nor resumes starts a `resume_all` at most. -/
theorem deferred_eq {e : Event} (hs : step s e = some s')
    (hq : ∀ handles sqeLeft taken, e ≠ .asyncResume handles sqeLeft taken)
    (hr : e ≠ .resumeNext) : deferred s e = startedBetween s.resumes s'.resumes := by
  cases e with
  | asyncResume handles sqeLeft taken => exact absurd rfl (hq handles sqeLeft taken)
  | resumeNext => exact absurd rfl hr
  | _ =>
    show (step s _).elim [] _ = _
    rw [hs]
    rfl

/-- An operation on a completion leaves the machine. -/
theorem resumes_of_loop (h : s'.loop = s.loop) : s'.resumes = s.resumes := by
  unfold State.resumes
  rw [show s'.frames = s.frames from congrArg Prod.fst h,
    show s'.resumer = s.resumer from congrArg (fun l => l.2.1) h]

variable {x : Option (List Handle)} {v : AsyncResumption}

theorem resumes_goto (h : s.resumes = ⟨[x], v⟩) (p : Point) :
    (s.goto p).resumes = ⟨[p.toResume], v⟩ := by
  rw [State.resumes, Resumer.mk.injEq] at h
  obtain ⟨f, hf, -⟩ := List.map_eq_singleton_iff.mp h.1
  rw [goto_eq, State.resumes, hf, h.2]
  rfl

theorem resumes_leave (h : s.resumes = ⟨[x], v⟩) : s.leave.resumes = ⟨[], v⟩ := by
  rw [State.resumes, Resumer.mk.injEq] at h
  obtain ⟨f, hf, -⟩ := List.map_eq_singleton_iff.mp h.1
  rw [State.leave, State.resumes, hf, h.2]
  rfl

/-- The loop that is active is the only one. -/
theorem resumes_of_frames {fs : List Frame} (hf : s.frames = f :: fs)
    (h : s.resumes.loops.length ≤ 1) : s.resumes = ⟨[f.point.toResume], s.resumer⟩ := by
  rw [State.resumes, hf] at h
  have hfs : fs = [] := List.eq_nil_of_length_eq_zero (by simpa using h)
  rw [State.resumes, hf, hfs]
  rfl

/-- A CQE is taken, and perhaps delivered. -/
theorem resumes_execute (h : s.resumes = ⟨[x], v⟩) (sqe : Sqe) (result : Int) :
    (execute s sqe result).resumes = ⟨[none], v⟩ := by
  have hexec := executed s sqe result
  generalize execute s sqe result = t at hexec ⊢
  cases hexec with
  | nop hu => exact resumes_goto h .peekCqe
  | @gone id hu hc =>
    exact resumes_goto (s := s.observe (.executed id sqe.role result)) h .peekCqe
  | @ignored id c hu hc hd =>
    have hpeek := resumes_goto (s := s.observe (.executed id sqe.role result)) h .peekCqe
    exact (resumes_of_loop (loop_executeEnd _ _)).trans hpeek
  | @delivered id c outcome hu hc hex hd =>
    exact resumes_goto (s := ((s.observe (.executed id sqe.role result)).setCompletion id
      { c with result := outcome }).observe (.resumed id outcome)) h (.delivering id)

/-- A round of `resume_all`: it resumes a handle, or ends. -/
theorem moves_resumeNext {rest : List Handle} (h : s.resumes = ⟨[some rest], s.resumer⟩) :
    Moves s.resumes (deferred s .resumeNext) (resumeAllNext s f rest).resumes := by
  have hleft : deferred s .resumeNext = (rest.head?.map Deferral.resumed).toList := by
    rw [deferred, h]
    rfl
  rw [hleft, h]
  have hclear : ({ s with resumer := s.resumer.clearResuming } : State).resumes
      = ⟨[some rest], s.resumer.clearResuming⟩ :=
    congrArg (fun r : Resumer => { r with vectors := s.resumer.clearResuming }) h
  have hresumed := resumedAllNext s f rest
  generalize resumeAllNext s f rest = s₁ at hresumed ⊢
  cases hresumed with
  | again =>
    rw [resumes_goto hclear]
    exact .finish s.resumer
  | leaves =>
    rw [resumes_leave hclear]
    exact .finishLast s.resumer
  | resumes a rest =>
    rw [resumes_goto h]
    exact .resume s.resumer a rest

/-- **Every step is a move of the machine**, as long as the loop is not
entered from within. -/
theorem moves_of_step {e : Event} (hlen : s.resumes.loops.length ≤ 1) (hok : Unnested s e)
    (hs : step s e = some s') : Moves s.resumes (deferred s e) s'.resumes := by
  cases (stepped_of_step hs).2.2 with
  | create call =>
    rw [deferred_eq hs (by simp) (by simp)]
    exact .of_stays rfl
  | @await id c hi hc a now sqes =>
    rw [deferred_eq hs (by simp) (by simp)]
    exact .of_stays (resumes_of_loop (loop_awaitSuspend s id c a now sqes))
  | awaitGone hi hc a now sqes =>
    rw [deferred_eq hs (by simp) (by simp)]
    exact .of_stays rfl
  | @destroy id hi =>
    rw [deferred_eq hs (by simp) (by simp)]
    exact .of_stays (resumes_of_loop (loop_iopDestructed s id))
  | asyncResume handles sqeLeft taken =>
    have hr : (doAsyncResume s handles sqeLeft taken).resumes
        = { s.resumes with vectors := (s.resumer.queue handles).1 } := by
      obtain ⟨queue, inflight, he⟩ := doAsyncResume_eq s handles sqeLeft taken
      rw [he]
      rfl
    rw [hr]
    exact .queue s.resumes handles
  | runUntil coro =>
    rw [deferred_eq hs (by simp) (by simp)]
    have hf : s.frames = [] := hok
    exact .of_enter (v := s.resumer) (by rw [State.resumes, hf]; rfl)
      (by rw [State.resumes, hf]; rfl)
  | runBatch taken =>
    rw [deferred_eq hs (by simp) (by simp)]
    have hf : s.frames = [] := hok
    exact .of_enter (v := s.resumer) (by rw [State.resumes, hf]; rfl)
      (by rw [State.resumes, hf]; rfl)
  | @suspend f fs hf p hp =>
    rw [deferred_eq hs (by simp) (by simp)]
    have hat := resumes_of_frames hf hlen
    have hsame : p.toResume = f.point.toResume := by
      cases hfp : f.point <;> rw [hfp] at hp <;> cases hp <;> rfl
    exact .of_stays (by rw [resumes_goto hat, hat, hsame])
  | @delivered f fs hf id hp =>
    rw [deferred_eq hs (by simp) (by simp)]
    have hat := resumes_of_frames hf hlen
    rw [hp] at hat
    exact .of_stays (((resumes_of_loop (loop_executeEnd _ id)).trans
      (resumes_goto hat .peekCqe)).trans hat.symm)
  | close hf =>
    rw [deferred_eq hs (by simp) (by simp)]
    have hdelete : (deleteOutstanding s s.outstanding).resumes = s.resumes :=
      resumes_of_loop (loop_deleteOutstanding s s.outstanding)
    exact .of_stays hdelete
  | @done f fs hf hp taken =>
    rw [deferred_eq hs (by simp) (by simp)]
    have hat := resumes_of_frames hf hlen
    rw [hp] at hat
    exact .of_leave hat (resumes_leave hat)
  | @submit f fs hf hp taken =>
    rw [deferred_eq hs (by simp) (by simp)]
    have hat := resumes_of_frames hf hlen
    rw [hp] at hat
    exact .of_stays ((resumes_goto (s := s.submit taken) hat .waitCqe).trans hat.symm)
  | @interrupted f fs hf hp cqe =>
    rw [deferred_eq hs (by simp) (by simp)]
    have hat := resumes_of_frames hf hlen
    rw [hp] at hat
    exact .of_stays ((resumes_goto hat .condition).trans hat.symm)
  | @waitFails f fs hf hp ret hret hne cqe =>
    rw [deferred_eq hs (by simp) (by simp)]
    have hat := resumes_of_frames hf hlen
    rw [hp] at hat
    exact .of_leave hat (resumes_leave hat)
  | @take f fs hf hp e cqe sqe he hq =>
    rw [deferred_eq hs (by rintro _ _ _ rfl; simp [Event.cqe] at he)
      (by rintro rfl; simp [Event.cqe] at he)]
    have hat := resumes_of_frames hf hlen
    rw [show f.point.toResume = none by rcases hp with hp | hp <;> rw [hp] <;> rfl] at hat
    exact .of_stays
      ((resumes_execute (s := s.cqeSeen cqe.index) hat sqe cqe.res).trans hat.symm)
  | @peekNone f fs hf hp =>
    rw [deferred_eq hs (by simp) (by simp)]
    have hat := resumes_of_frames hf hlen
    rw [hp] at hat
    have hswap : ({ s with resumer := s.resumer.swap } : State).resumes
        = ⟨[none], s.resumer.swap⟩ :=
      congrArg (fun r : Resumer => { r with vectors := s.resumer.swap }) hat
    exact .of_start hat (resumes_goto hswap _)
  | @resumeNext f fs hf rest hp =>
    have hat := resumes_of_frames hf hlen
    rw [hp] at hat
    exact moves_resumeNext hat

end Moves

/-- **The law, over every run of the uring warden.** -/
theorem kept_of_run {es : List Event} {s : State} (h : Run step Unnested init es s) :
    Kept (observed step deferred init es) s.resumes :=
  h.invariant_observed deferred (P := fun s l => Kept l s.resumes)
    (fun _ _ _ _ hk hok hs => hk.moves (moves_of_step hk.single hok hs)) kept_nil

end UringWarden

/-! ## Both wardens -/

/-- **Deferred resumption is exactly once and in order.** In every run of
either warden whose loop is not entered from within, each `resume_all` resumes
what had been queued when it started and not been resumed by then. -/
theorem deferred_inOrder_of_run :
    (∀ w es s, Run PollWarden.step PollWarden.Unnested (PollWarden.init w) es s →
      InOrder (observed PollWarden.step PollWarden.deferred (PollWarden.init w) es)
        (s.resumes.left.getD []) s.resumer.queued) ∧
    (∀ es s, Run UringWarden.step UringWarden.Unnested UringWarden.init es s →
      InOrder (observed UringWarden.step UringWarden.deferred UringWarden.init es)
        (s.resumes.left.getD []) s.resumer.queued) :=
  ⟨fun _ _ _ h => (PollWarden.kept_of_run h).inOrder,
    fun _ _ h => (UringWarden.kept_of_run h).inOrder⟩

/-- A coroutine queues itself again while it is resumed, and another one with
it; null handles are dropped, and the next `resume_all` resumes the two. -/
theorem deferred_inOrder_of_run_again :
    (∃ s, Run PollWarden.step PollWarden.Unnested (PollWarden.init 3)
      [.asyncResume [some 7, none] true, .runBatch, .clock 0 false, .poll { ret := 0 },
        .resumeNext, .asyncResume [some 7, some 8] true, .suspend, .resumeNext, .runBatch,
        .clock 0 false, .poll { ret := 0 }, .resumeNext] s
      ∧ InOrder [.queued [some 7, none], .started, .resumed 7, .queued [some 7, some 8],
          .started, .resumed 7] [8] []) ∧
    (∃ s, Run UringWarden.step UringWarden.Unnested UringWarden.init
      [.runBatch 0, .peekCqe none, .resumeNext, .asyncResume [none, some 5] true 1,
        .runBatch 0, .peekCqe none, .resumeNext, .asyncResume [some 5] true 1] s
      ∧ InOrder [.started, .queued [none, some 5], .started, .resumed 5, .queued [some 5]]
          [] [5]) := by
  constructor
  · obtain ⟨s, hrun, htest⟩ := exists_run_of_exec PollWarden.step PollWarden.Unnested
      (PollWarden.init 3)
      [.asyncResume [some 7, none] true, .runBatch, .clock 0 false, .poll { ret := 0 },
        .resumeNext, .asyncResume [some 7, some 8] true, .suspend, .resumeNext, .runBatch,
        .clock 0 false, .poll { ret := 0 }, .resumeNext]
      (fun s => s.frames = [⟨none, .resumed [8]⟩] ∧ s.resumer.queued = []) (by decide)
    obtain ⟨hf, hq⟩ := of_decide_eq_true htest
    have h := deferred_inOrder_of_run.1 3 _ s hrun
    rw [hq, PollWarden.State.resumes, hf] at h
    exact ⟨s, hrun, h⟩
  · obtain ⟨s, hrun, htest⟩ := exists_run_of_exec UringWarden.step UringWarden.Unnested
      UringWarden.init
      [.runBatch 0, .peekCqe none, .resumeNext, .asyncResume [none, some 5] true 1,
        .runBatch 0, .peekCqe none, .resumeNext, .asyncResume [some 5] true 1]
      (fun s => s.frames = [⟨none, .resumed []⟩] ∧ s.resumer.queued = [5]) (by decide)
    obtain ⟨hf, hq⟩ := of_decide_eq_true htest
    have h := deferred_inOrder_of_run.2 _ s hrun
    rw [hq, UringWarden.State.resumes, hf] at h
    exact ⟨s, hrun, h⟩
