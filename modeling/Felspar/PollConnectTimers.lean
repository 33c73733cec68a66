import Felspar.PollConnect
import Felspar.PollWaiters

/-!
# The deadline of a connect

A completion with a deadline files it once, when it is awaited, and
`cancel_timeout` erases one entry. A connect that is retried while `errno`
still says that it is in progress files its deadline again. It is filed twice
then, and when the connect concludes only one of the entries is erased: the
other is of a coroutine that has been handed back.

This module follows one connect from its creation on. Besides the two
containers its completion may be in the hands of a pass, which has collected
it and has still to retry it.
-/

namespace PollWarden

/-! ## In the hands of a pass -/

/-- How often a loop at this point has the completion still to retry, when
the vector has the generation `g`. -/
def Point.inHand (p : Point) (g : ℕ) (id : RetrierId) : ℕ :=
  if p.generation = some g then p.pending.count id else 0

/-- How often the loops have the completion still to retry, by iterators that
are valid. -/
def State.inHand (s : State) (id : RetrierId) : ℕ :=
  (s.frames.map (fun f => f.point.inHand s.generation id)).sum

/-- No loop iterates over a vector that is still to come. -/
def Generations (s : State) : Prop :=
  ∀ f ∈ s.frames, ∀ g, f.point.generation = some g → g ≤ s.generation

section Hands

variable {s s' : State} {id i : RetrierId} {f : Frame} {fs : List Frame} {p q : Point} {g : ℕ}

theorem Point.inHand_eq_zero (h : p.pending = []) : p.inHand g id = 0 := by
  unfold Point.inHand
  rw [h, List.count_nil, ite_self]

theorem Point.inHand_afterSuspend (h : p.afterSuspend = some q) :
    q.inHand g id = p.inHand g id := by
  unfold Point.inHand
  rw [Point.pending_afterSuspend h, Point.generation_afterSuspend h]

theorem inHand_of_frames (hf : s.frames = f :: fs) : s.inHand id
    = f.point.inHand s.generation id + (fs.map (fun f => f.point.inHand s.generation id)).sum := by
  unfold State.inHand
  rw [hf, List.map_cons, List.sum_cons]

/-- Where the innermost loop goes on, the others keep what they have. -/
theorem inHand_goto (hf : s.frames = f :: fs) : (s.goto p).inHand id
    = p.inHand s.generation id + (fs.map (fun f => f.point.inHand s.generation id)).sum := by
  have hgoto : (s.goto p).frames = { f with point := p } :: fs := by
    rw [goto_eq, hf]
    rfl
  rw [inHand_of_frames hgoto, goto_eq]

theorem inHand_goto_le (hf : s.frames = f :: fs)
    (hp : p.inHand s.generation id ≤ f.point.inHand s.generation id) :
    (s.goto p).inHand id ≤ s.inHand id := by
  rw [inHand_goto hf, inHand_of_frames hf]
  exact Nat.add_le_add_right hp _

theorem inHand_leave_le (hf : s.frames = f :: fs) : s.leave.inHand id ≤ s.inHand id := by
  have hleave : s.leave.inHand id
      = (fs.map (fun f => f.point.inHand s.generation id)).sum := by
    unfold State.inHand State.leave
    rw [hf, List.tail_cons]
  rw [hleave, inHand_of_frames hf]
  exact Nat.le_add_left _ _

/-- Only the loops and the generation of the vector matter. -/
theorem inHand_congr (hframes : s'.frames = s.frames) (hgen : s'.generation = s.generation) :
    s'.inHand id = s.inHand id := by
  unfold State.inHand
  rw [hframes, hgen]

theorem inHand_of_shell (h : s'.shell = s.shell) : s'.inHand id = s.inHand id :=
  inHand_congr (congrArg Shell.frames h) (congrArg Shell.generation h)

/-- A loop that is about to retry the completion has it in hand. -/
theorem inHand_of_retries (hf : s.frames = f :: fs) {rest : List RetrierId}
    (hp : f.point = .continuations s.generation (id :: rest)) :
    s.inHand id = 1 + (Point.continuations s.generation rest).inHand s.generation id
      + (fs.map (fun f => f.point.inHand s.generation id)).sum := by
  rw [inHand_of_frames hf, hp]
  simp only [Point.inHand, Point.generation, Point.pending, if_true, List.count_cons_self]
  omega

theorem Point.inHand_retried (rest : List RetrierId) :
    (Point.retried g rest).inHand g id = (Point.continuations g rest).inHand g id := rfl

end Hands

section Generations

variable {s s' : State} {f : Frame} {fs : List Frame}

theorem generations_init (w : SocketDescriptor) : Generations (init w) := fun _ hf => by
  cases hf

theorem Generations.congr (h : Generations s) (hframes : s'.frames = s.frames)
    (hgen : s'.generation = s.generation) : Generations s' := by
  unfold Generations
  rw [hframes, hgen]
  exact h

theorem Generations.goto (h : Generations s) {p : Point}
    (hp : ∀ g, p.generation = some g → g ≤ s.generation) : Generations (s.goto p) := by
  rw [goto_eq]
  unfold Generations
  cases hf : s.frames with
  | nil => exact fun f hm => absurd hm List.not_mem_nil
  | cons f₀ fs =>
    intro f hm
    rcases List.mem_cons.mp hm with rfl | hm
    · exact hp
    · exact h f (hf ▸ List.mem_cons_of_mem _ hm)

theorem Generations.leave (h : Generations s) : Generations s.leave :=
  fun f hm => h f (List.mem_of_mem_tail hm)

theorem Generations.enter (h : Generations s) (hs' : s'.frames = f :: s.frames)
    (hgen : s'.generation = s.generation) (hf : f.point.generation = none) : Generations s' := by
  intro f' hm g hg
  rw [hs'] at hm
  rcases List.mem_cons.mp hm with rfl | hm
  · rw [hf] at hg
    cases hg
  · rw [hgen]
    exact h f' hm g hg

/-- Collecting starts the next generation. -/
theorem generation_collect (revents : SocketDescriptor → Revents) :
    (collect s revents).generation = s.generation + 1 :=
  collect_rule (P := fun t => t.generation = s.generation + 1) revents rfl (fun _ h => h)
    (fun _ _ _ h => h)

/-- **Every step keeps the generations in order.** -/
theorem Generations.step {e : Event} (h : Generations s) (hs : step s e = some s') :
    Generations s' := by
  have hnone : ∀ {t : State} {p : Point}, Generations t → p.generation = none →
      Generations (t.goto p) := fun ht hp => ht.goto (fun g hg => by rw [hp] at hg; cases hg)
  have hshell : ∀ {t t' : State}, Generations t → t'.shell = t.shell → Generations t' :=
    fun ht he => ht.congr (congrArg Shell.frames he) (congrArg Shell.generation he)
  cases (stepped_of_step hs).2 with
  | create hu call => exact h.congr rfl rfl
  | await hu hc a r => exact hshell h (shell_awaitSuspend s _ _ r a)
  | destroy hu hc => exact hshell h (shell_iopDestructed s _ _)
  | asyncResume hu handles written =>
    obtain ⟨n, he⟩ := doAsyncResume_eq s handles written
    rw [he]
    exact h.congr rfl rfl
  | runUntil hu coro => exact h.enter (f := ⟨some coro, .coroResume⟩) rfl rfl rfl
  | runBatch hu => exact h.enter (f := ⟨none, .clearTimeouts⟩) rfl rfl rfl
  | @suspend f fs hf p hp =>
    refine h.goto (fun g hg => h f (hf ▸ List.mem_cons_self) g ?_)
    rw [← Point.generation_afterSuspend hp]
    exact hg
  | @clock f fs hf hp now done =>
    have hcleared := clearedTimeouts s f now done
    generalize clearTimeouts s f now done = s₁ at hcleared ⊢
    cases hcleared with
    | leaves => exact h.leave
    | polls => exact hnone h rfl
    | fails => exact h.congr rfl rfl
    | @timesOut t id l c he hdue hc p hp' =>
      refine hnone (hshell ?_ (shell_iopTimedout _ id c)) ?_
      · exact h.congr rfl rfl
      · rcases hp' with rfl | rfl <;> rfl
  | poll hf hp a =>
    have hpolled := polled s a
    generalize doPoll s a = s₁ at hpolled ⊢
    cases hpolled with
    | returns => exact hnone (h.congr rfl rfl) rfl
    | throws => exact h.leave
    | collects =>
      refine Generations.goto ?_ (fun g hg => ?_)
      · intro f hm g hg
        rw [frames_collect] at hm
        rw [generation_collect]
        exact Nat.le_succ_of_le (h f hm g hg)
      · exact le_of_eq (Option.some.inj hg).symm
  | @retry f fs hf g rest hp r =>
    have hretried := retriedNext s g rest r
    generalize retryNext s g rest r = s₁ at hretried ⊢
    cases hretried with
    | returns => exact hnone (h.congr rfl rfl) rfl
    | fails => exact h.congr rfl rfl
    | @retries id rest c hg hc p hp' =>
      have hs₁ := shell_tryOrResume (s.observe (.retried id)) id c r
      refine (hshell h hs₁).goto (fun g' hg' => ?_)
      rw [show (tryOrResume (s.observe (.retried id)) id c r).1.generation = s.generation from
        congrArg Shell.generation hs₁]
      rcases hp' with rfl | rfl <;> exact le_of_eq ((Option.some.inj hg').symm.trans hg)
  | @resumeNext f fs hf rest hp =>
    have hresumed := resumedAllNext s f rest
    generalize resumeAllNext s f rest = s₁ at hresumed ⊢
    cases hresumed with
    | again => exact hnone (h.congr rfl rfl) rfl
    | leaves => exact Generations.leave (h.congr rfl rfl)
    | resumes => exact hnone (h.congr rfl rfl) rfl

end Generations

/-! ## A step that is not on the completion -/

/-- **What a step that is not on the completion does to it**: nothing, but
that a pass may collect it, and that a loop that is left has it no more in
hand. -/
inductive Moved (s : State) (id : RetrierId) : Event → State → Prop
  | stays {e : Event} {s' : State} (hview : s'.view id = s.view id)
      (hlog : s'.log id = s.log id) (hhand : s'.inHand id ≤ s.inHand id) : Moved s id e s'
  | collects {f : Frame} {fs : List Frame} (hf : s.frames = f :: fs) (a : PollAnswer) :
      Moved s id (.poll a) ((collect s a.revents).goto
        (.continuations (collect s a.revents).generation (collect s a.revents).continuations))

section Moved

variable {s s' : State} {id i : RetrierId} {c : Completion} {r : Sys} {h : Handle}
  {fd : SocketDescriptor}

theorem view_goto (s : State) (p : Point) : (s.goto p).view i = s.view i := by
  rw [goto_eq]
  rfl

theorem log_goto (s : State) (p : Point) : (s.goto p).log i = s.log i := by
  rw [goto_eq]
  rfl

/-- What an `await_suspend` observes is of its completion. -/
theorem trace_awaitSuspend (s : State) (id : RetrierId) (c : Completion) (h : Handle) (r : Sys) :
    ∃ os, (awaitSuspend s id c h r).1.trace = os ++ s.trace
      ∧ ∀ o ∈ os, o.subject = some id := by
  rcases awaitSuspend_cases s id c r h _ rfl with
    ⟨fd, -, he⟩ | ⟨fd, d, -, -, he⟩ | ⟨-, he⟩
  · rw [he]
    unfold connectAwaitSuspend
    dsimp only
    split_ifs
    · exact ⟨[.resumed id c.result, .connect id r], rfl, by simp [Obs.subject]⟩
    · refine ⟨[.connect id r], ?_, by simp [Obs.subject]⟩
      rw [insertTimeout_eq]
      rfl
    · exact ⟨[.resumed id _, .connect id r], rfl, by simp [Obs.subject]⟩
  · refine ⟨[], ?_, by simp⟩
    rw [he, readyAwaitSuspend, insertTimeout_eq]
    rfl
  · refine ⟨answerObs id { c with handle := some h } r ++ callObs id c.op r, ?_,
      fun o ho => (mem_tryObs ho).1⟩
    rw [he, trace_tryOrResume, insertTimeout_eq, List.append_assoc]

theorem trace_iopDestructed : (iopDestructed s id c).trace = s.trace := by
  unfold iopDestructed
  rw [cancelIop_eq, cancelTimeout_eq]
  rfl

/-- A member of one completion is no matter of the others. -/
theorem Moved.of_member {e : Event} {l : List Obs} (hview : s'.view i = s.view i)
    (hshell : s'.shell = s.shell) (htrace : s'.trace = l ++ s.trace)
    (hl : ∀ o ∈ l, o.subject = some id) (hne : i ≠ id) : Moved s i e s' :=
  .stays hview (log_of_trace_of_ne htrace (fun o ho he =>
    hne (Option.some.inj (he.symm.trans (hl o ho))))) (le_of_eq (inHand_of_shell hshell))

/-- **A step moves every completion that it is not on**, or leaves it where it
is. -/
theorem moved_of_step {e : Event} (hs : step s e = some s') (hid : ¬ Subject s id e) :
    Moved s id e s' := by
  -- the loop goes on to a point that has nothing to retry
  have hnone : ∀ (t : State) {f : Frame} {fs : List Frame} (p : Point), t.frames = f :: fs →
      p.pending = [] → (t.goto p).inHand id ≤ t.inHand id := fun t f fs p hf hp =>
    inHand_goto_le hf (by rw [Point.inHand_eq_zero hp]; exact Nat.zero_le _)
  have hreturn : ∀ {e : Event} {f : Frame} {fs : List Frame}, s.frames = f :: fs →
      Moved s id e (doPollReturns s) := fun hf =>
    .stays (view_goto _ _) (log_goto _ _) (hnone { s with resumer := s.resumer.swap } _ hf rfl)
  cases (stepped_of_step hs).2 with
  | create hu call =>
    have hne : id ≠ s.next := hid
    exact .stays (by rw [view_createIop, if_neg hne]) rfl (le_refl _)
  | @await hu j c hc a r =>
    obtain ⟨os, htrace, hos⟩ := trace_awaitSuspend s j c a r
    exact .of_member (view_awaitSuspend_of_ne s j id c r a (Ne.symm hid))
      (shell_awaitSuspend s j c r a) htrace hos (Ne.symm hid)
  | @destroy hu j c hc =>
    refine .of_member (l := []) ?_ (shell_iopDestructed s j c) trace_iopDestructed (by simp)
      (Ne.symm hid)
    rw [view_iopDestructed, if_neg (Ne.symm hid)]
  | asyncResume hu handles written =>
    obtain ⟨n, he⟩ := doAsyncResume_eq s handles written
    rw [he]
    exact .stays rfl (log_of_trace_of_ne (l := (handles.reduceOption.map Obs.queued).reverse)
        rfl (by simp [Obs.subject])) (le_refl _)
  | runUntil hu coro =>
    refine .stays rfl rfl (le_of_eq ?_)
    exact (inHand_of_frames rfl).trans (Nat.zero_add _)
  | runBatch hu =>
    refine .stays rfl rfl (le_of_eq ?_)
    exact (inHand_of_frames rfl).trans (Nat.zero_add _)
  | suspend hf hp =>
    exact .stays (view_goto s _) (log_goto s _)
      (inHand_goto_le hf (le_of_eq (Point.inHand_afterSuspend hp)))
  | @clock f fs hf hp now done =>
    have hcleared := clearedTimeouts s f now done
    generalize clearTimeouts s f now done = s₁ at hcleared ⊢
    cases hcleared with
    | leaves => exact .stays rfl rfl (inHand_leave_le hf)
    | polls => exact .stays (view_goto s _) (log_goto s _) (hnone s _ hf rfl)
    | @fails t j l he hdue hc =>
      have hne : id ≠ j := fun he' => hid ⟨t, by rw [he, he']; rfl⟩
      refine .stays ?_ rfl (le_refl _)
      refine View.ext rfl rfl ?_ rfl
      exact Multimap.keysOf_eraseBegin_of_ne he hne
    | @timesOut t j l c he hdue hc p hp' =>
      have hne : id ≠ j := fun he' => hid ⟨t, by rw [he, he']; rfl⟩
      have hshell := shell_iopTimedout { s with timeouts := s.timeouts.eraseBegin } j c
      have hpoint : p.pending = [] := by rcases hp' with rfl | rfl <;> rfl
      refine .stays ?_ ?_ ?_
      · rw [view_goto, view_iopTimedout_of_ne _ j id c hne]
        refine View.ext rfl rfl ?_ rfl
        exact Multimap.keysOf_eraseBegin_of_ne he hne
      · rw [log_goto]
        refine log_of_trace_of_ne (l := [_]) (trace_iopTimedout _ j c) (fun o ho => ?_)
        rw [List.mem_singleton.mp ho]
        exact fun he' => hne (Option.some.inj he').symm
      · exact (hnone _ p ((congrArg Shell.frames hshell).trans hf) hpoint).trans
          (le_of_eq (inHand_of_shell hshell))
  | @poll f fs hf t hp a =>
    have hpolled := polled s a
    generalize doPoll s a = s₁ at hpolled ⊢
    cases hpolled with
    | returns => exact hreturn hf
    | throws => exact .stays rfl rfl (inHand_leave_le hf)
    | collects => exact .collects hf a
  | @retry f fs hf g rest hp r =>
    have hretried := retriedNext s g rest r
    generalize retryNext s g rest r = s₁ at hretried ⊢
    cases hretried with
    | returns => exact hreturn hf
    | fails => exact .stays rfl rfl (le_refl _)
    | @retries j rest c hg hc p hp' =>
      have hne : id ≠ j := fun he => hid ((retries_iff hf hp).mpr ⟨he.symm, hg⟩)
      have hshell := shell_tryOrResume (s.observe (.retried j)) j c r
      refine .stays ?_ ?_ ?_
      · rw [view_goto, view_tryOrResume_of_ne _ j id c r hne, view_observe]
      · have htrace : (tryOrResume (s.observe (.retried j)) j c r).1.trace
            = (answerObs j c r ++ callObs j c.op r ++ [.retried j]) ++ s.trace := by
          rw [trace_tryOrResume]
          simp [State.observe]
        rw [log_goto]
        refine log_of_trace_of_ne htrace (fun o ho => ?_)
        rcases List.mem_append.mp ho with ho | ho
        · rw [(mem_tryObs ho).1]
          exact fun he => hne (Option.some.inj he).symm
        · rw [List.mem_singleton.mp ho]
          simp [Obs.subject]
      · refine le_trans (inHand_goto_le ((congrArg Shell.frames hshell).trans hf) ?_)
          (le_of_eq (inHand_of_shell hshell))
        -- the loop goes on with the rest, which has the completion as often
        rw [hp]
        rcases hp' with rfl | rfl <;>
          simp [Point.inHand, Point.generation, Point.pending, Ne.symm hne]
  | @resumeNext f fs hf rest hp =>
    have hresumed := resumedAllNext s f rest
    generalize resumeAllNext s f rest = s₁ at hresumed ⊢
    cases hresumed with
    | again =>
      exact .stays (view_goto _ _) (log_goto _ _)
        (hnone { s with resumer := s.resumer.clearResuming } _ hf rfl)
    | leaves => exact .stays rfl rfl (inHand_leave_le hf)
    | resumes a rest =>
      refine .stays (view_goto _ _) ?_ (hnone (s.observe (.handle a)) _ hf rfl)
      rw [log_goto]
      exact log_of_trace_of_ne (l := [.handle a]) rfl (by simp [Obs.subject])

/-- **Collecting moves pointers to the vector**, where it adds nothing to what
was in the lists. -/
theorem count_collect (revents : SocketDescriptor → Revents) {d : Side}
    (helse : ∀ fd' d', (fd', d') ≠ (fd, d) → (s.view id).count fd' d' = 0) :
    (∀ fd' d', (fd', d') ≠ (fd, d) → ((collect s revents).view id).count fd' d' = 0)
      ∧ ((collect s revents).view id).count fd d + (collect s revents).continuations.count id
        ≤ (s.view id).count fd d := by
  refine collect_rule (P := fun t =>
      (∀ fd' d', (fd', d') ≠ (fd, d) → (t.view id).count fd' d' = 0)
        ∧ (t.view id).count fd d + t.continuations.count id ≤ (s.view id).count fd d)
    revents ⟨helse, le_refl _⟩ (fun t ht => ht) (fun t fd₁ d₁ ht => ?_)
  have hcount : ∀ fd' d', ((collectSide t fd₁ d₁).view id).count fd' d'
      = if fd' = fd₁ ∧ d' = d₁ then 0 else (t.view id).count fd' d' := by
    intro fd' d'
    show ((collectSide t fd₁ d₁).registered fd' d').count id = _
    rw [registered_collectSide]
    split_ifs <;> rfl
  have hvector : (collectSide t fd₁ d₁).continuations.count id
      = t.continuations.count id + (t.view id).count fd₁ d₁ := List.count_append
  refine ⟨fun fd' d' hne => ?_, ?_⟩
  · rw [hcount, ht.1 fd' d' hne, ite_self]
  · rw [hcount, hvector]
    have hle := ht.2
    by_cases he : (fd₁, d₁) = (fd, d)
    · obtain ⟨rfl, rfl⟩ := Prod.mk.inj he
      rw [if_pos ⟨rfl, rfl⟩]
      omega
    · rw [if_neg (fun hand => he (Prod.ext hand.1.symm hand.2.symm)), ht.1 fd₁ d₁ he]
      exact hle

/-- Collecting takes nothing of what is in no list. -/
theorem count_collect_zero (revents : SocketDescriptor → Revents)
    (hzero : ∀ fd d, (s.view id).count fd d = 0) :
    (∀ fd d, ((collect s revents).view id).count fd d = 0)
      ∧ (collect s revents).continuations.count id = 0 := by
  have hcount := fun fd => count_collect revents (d := .reads)
    (fun fd' d' (_ : (fd', d') ≠ (fd, .reads)) => hzero fd' d')
  have hle := fun fd => (hcount fd).2
  simp only [hzero] at hle
  refine ⟨fun fd d => ?_, by have := hle 0; omega⟩
  cases d with
  | reads => have := hle fd; omega
  | writes => exact (hcount fd).1 fd .writes (by simp)

theorem log_collect (revents : SocketDescriptor → Revents) :
    (collect s revents).log id = s.log id :=
  collect_rule (P := fun t => t.log id = s.log id) revents rfl (fun _ h => h) (fun _ _ _ h => h)

/-- When what is ready has been collected, only the innermost loop has it in
hand. -/
theorem inHand_collects (id : RetrierId) (hg : Generations s) {f : Frame} {fs : List Frame}
    (hf : s.frames = f :: fs) (revents : SocketDescriptor → Revents) :
    ((collect s revents).goto
        (.continuations (collect s revents).generation (collect s revents).continuations)).inHand id
      = (collect s revents).continuations.count id := by
  have hold : (fs.map (fun f => f.point.inHand (collect s revents).generation id)).sum = 0 := by
    refine List.sum_eq_zero_iff_forall_eq_nat.mpr (fun n hn => ?_)
    obtain ⟨f', hf', rfl⟩ := List.mem_map.mp hn
    unfold Point.inHand
    rw [generation_collect, if_neg]
    intro he
    exact Nat.not_succ_le_self _ (hg f' (hf ▸ List.mem_cons_of_mem _ hf') _ he)
  rw [inHand_goto ((frames_collect revents).trans hf), hold, Nat.add_zero]
  exact if_pos rfl

end Moved

/-! ## One connect -/

/-- The coroutine of the connect is waiting: it has awaited it, it has not
been handed back, and the completion has not been deleted. -/
def State.waiting (s : State) (id : RetrierId) : Bool :=
  (s.view id).stage ≠ .created && !(s.log id).any Obs.isResumed
    && (s.view id).completion.isSome

/-- **What holds of a connect with a deadline** while it is not retried in
vain: it is filed once and is in the list of its descriptor or in the hands of
a pass once, as long as its coroutine is waiting, and then neither filed nor
in the list. -/
structure Tracked (fd : SocketDescriptor) (D : TimePoint) (id : RetrierId) (s : State) :
    Prop where
  exists_lt : id < s.next
  completion : ∀ c, (s.view id).completion = some c → c.op = .connect fd ∧ c.deadline = some D
  elsewhere : ∀ fd' d', (fd', d') ≠ (fd, .writes) → (s.view id).count fd' d' = 0
  once : (s.view id).count fd .writes + s.inHand id ≤ 1
  keys : (s.view id).keys = if s.waiting id then [D] else []
  gone : s.waiting id = false → (s.view id).count fd .writes = 0
  fresh : (s.view id).stage = .created →
    (s.log id).any Obs.isResumed = false ∧ s.inHand id = 0
  generations : Generations s

/-- The coroutine of the IOP has been handed back, or its completion has been
deleted. -/
def State.HandedBack (s : State) (id : RetrierId) : Prop :=
  (s.log id).any Obs.isResumed = true ∨ s.completions id = none

/-- **The connect is known once**: it is filed under one deadline and is in
the list of its descriptor once, at most, and in neither when its coroutine
has been handed back. -/
structure State.Once (s : State) (fd : SocketDescriptor) (id : RetrierId) : Prop where
  timeouts : (s.timeouts.keysOf id).length ≤ 1
  writes : (s.registered fd .writes).count id ≤ 1
  handedBack : s.HandedBack id → s.timeouts.keysOf id = [] ∧ id ∉ s.registered fd .writes

/-- **A step leaves the connect known once**, and does not time it out when it
has been handed back. -/
def StaysOnce (fd : SocketDescriptor) (id : RetrierId) (s : State) (e : Event) : Prop :=
  ∀ s', step s e = some s' → s'.Once fd id
    ∧ (s.HandedBack id → ∀ now done, e = .clock now done → s'.log id = s.log id)

/-- **A retry in vain**: `getsockopt` gives an error, and `errno` says that
the connect is still in progress. -/
def Rearms (id : RetrierId) (s : State) : Event → Prop
  | .retry r => s.Retries id ∧ (s.completions id).isSome ∧ r.ret = 0 ∧ stillInProgress r = true
  | _ => False

instance (id : RetrierId) : DecidableRel (Rearms id) := fun s e =>
  match e with
  | .retry r => inferInstanceAs (Decidable
      (s.Retries id ∧ (s.completions id).isSome ∧ r.ret = 0 ∧ stillInProgress r = true))
  | .create _ | .await _ _ _ | .destroy _ | .asyncResume _ _ | .runUntil _ | .runBatch
  | .suspend | .clock _ _ | .poll _ | .resumeNext => inferInstanceAs (Decidable False)

/-- The connect is awaited once. -/
def AwaitsOnce (id : RetrierId) (s : State) : Event → Prop
  | .await i _ _ => i = id → s.stage i = .created
  | _ => True

instance (id : RetrierId) : DecidableRel (AwaitsOnce id) := fun s e =>
  match e with
  | .await i _ _ => inferInstanceAs (Decidable (i = id → s.stage i = .created))
  | .create _ | .destroy _ | .asyncResume _ _ | .runUntil _ | .runBatch | .suspend | .clock _ _
  | .poll _ | .retry _ | .resumeNext => inferInstanceAs (Decidable True)

/-- **Nothing is known of a completion before it is created.** -/
structure Unborn (id : RetrierId) (s : State) : Prop where
  view : s.view id = ⟨none, .created, [], fun _ _ => 0⟩
  log : s.log id = []
  inHand : s.inHand id = 0

section Tracked

variable {s s' : State} {id : RetrierId} {fd : SocketDescriptor} {D : TimePoint} {e : Event}
  {c : Completion}

/-! ## Before it is created -/

theorem unborn_init (w : SocketDescriptor) (id : RetrierId) : Unborn id (init w) where
  view := by
    refine View.ext rfl rfl rfl ?_
    funext fd d
    cases d <;> rfl
  log := rfl
  inHand := rfl

theorem Unborn.of_moved (h : Unborn id s) (hg : Generations s) (hm : Moved s id e s') :
    Unborn id s' := by
  cases hm with
  | stays hview hlog hhand =>
    exact ⟨hview.trans h.view, hlog.trans h.log, Nat.eq_zero_of_le_zero (h.inHand ▸ hhand)⟩
  | collects hf a =>
    have hcore : (collect s a.revents).core id = s.core id := core_collect a.revents
    have hzero : ∀ fd d, (s.view id).count fd d = 0 := fun fd d => by rw [h.view]
    obtain ⟨hlists, hvector⟩ := count_collect_zero a.revents hzero
    refine ⟨?_, ?_, ?_⟩
    · rw [view_goto]
      refine View.ext ?_ ?_ ?_ (funext fun fd => funext fun d => hlists fd d)
      · exact (congrArg Core.completion hcore).trans (congrArg View.completion h.view)
      · exact (congrArg Core.stage hcore).trans (congrArg View.stage h.view)
      · exact (congrArg Core.keys hcore).trans (congrArg View.keys h.view)
    · rw [log_goto, log_collect]
      exact h.log
    · rw [inHand_collects id hg hf]
      exact hvector

/-- Only creating it concerns a completion that does not exist. -/
theorem Unborn.not_subject (h : Unborn id s) (hs : step s e = some s')
    (hcreate : ∀ call, e = .create call → id ≠ s.next) : ¬ Subject s id e := by
  have hcompletion : s.completions id = none := congrArg View.completion h.view
  intro hid
  cases (stepped_of_step hs).2 with
  | create hu call => exact hcreate call rfl hid
  | await hu hc a r =>
    obtain rfl : _ = id := hid
    rw [hcompletion] at hc
    cases hc
  | destroy hu hc =>
    obtain rfl : _ = id := hid
    rw [hcompletion] at hc
    cases hc
  | clock hf hp now done =>
    obtain ⟨t, hhead⟩ := hid
    have hkeys : s.timeouts.keysOf id = [] := congrArg View.keys h.view
    exact s.timeouts.keysOf_eq_nil_iff.mp hkeys t (List.mem_of_mem_head? hhead)
  | @retry f fs hf g rest hp r =>
    cases rest with
    | nil => exact not_retries_nil hf hp hid
    | cons j rest =>
      obtain ⟨rfl, rfl⟩ := (retries_iff hf hp).mp hid
      have hhand := inHand_of_retries hf hp
      rw [h.inHand] at hhand
      omega
  | _ => exact hid

/-- **Numbers that have not been given out are not in use.** -/
theorem unborn_of_run {w : SocketDescriptor} {es : List Event}
    (h : Run step always (init w) es s) :
    Generations s ∧ ∀ id, s.next ≤ id → Unborn id s := by
  refine h.invariant (P := fun s => Generations s ∧ ∀ id, s.next ≤ id → Unborn id s)
    (fun s e s' hP _ hs => ⟨hP.1.step hs, fun id hid => ?_⟩)
    ⟨generations_init w, fun id _ => unborn_init w id⟩
  have hunborn := hP.2 id ((next_le_of_step hs).trans hid)
  refine hunborn.of_moved hP.1 (moved_of_step hs (hunborn.not_subject hs ?_))
  rintro call rfl rfl
  cases (stepped_of_step hs).2 with
  | create hu call => exact Nat.not_succ_le_self _ hid

/-- **It is tracked from its creation on.** -/
theorem Unborn.tracked (h : Unborn s.next s) (hg : Generations s)
    (hs : step s (.create (.connect fd (some D))) = some s') : Tracked fd D s.next s' := by
  cases (stepped_of_step hs).2 with
  | create hu call =>
    have hview : (createIop s (.connect fd (some D))).view s.next
        = ⟨some { op := .connect fd, deadline := some D }, .created, [], fun _ _ => 0⟩ := by
      rw [view_createIop, if_pos rfl, h.view]
      rfl
    have hlog : (createIop s (.connect fd (some D))).log s.next = [] := h.log
    have hhand : (createIop s (.connect fd (some D))).inHand s.next = 0 := h.inHand
    refine ⟨Nat.lt_succ_self _, ?_, ?_, ?_, ?_, ?_, ?_, hg⟩
    · rw [hview]
      exact fun c hc => Option.some.inj hc ▸ ⟨rfl, rfl⟩
    · rw [hview]
      exact fun _ _ _ => rfl
    · rw [hview, hhand]
      exact Nat.zero_le _
    · unfold State.waiting
      rw [hview]
      rfl
    · rw [hview]
      exact fun _ => rfl
    · rw [hlog, hhand]
      exact fun _ => ⟨rfl, rfl⟩

/-! ## The steps that are not on it -/

/-- Whether the coroutine is waiting is a matter of the completion, its stage
and its log. -/
theorem waiting_congr (hcore : s'.core id = s.core id) (hlog : s'.log id = s.log id) :
    s'.waiting id = s.waiting id := by
  unfold State.waiting
  rw [hlog, show (s'.view id).stage = (s.view id).stage from congrArg Core.stage hcore,
    show (s'.view id).completion = (s.view id).completion from congrArg Core.completion hcore]

theorem Tracked.of_moved (h : Tracked fd D id s) (hs : step s e = some s')
    (hm : Moved s id e s') : Tracked fd D id s' := by
  have hlt : id < s'.next := lt_of_lt_of_le h.exists_lt (next_le_of_step hs)
  have hgen := h.generations.step hs
  cases hm with
  | stays hview hlog hhand =>
    have hwaiting : s'.waiting id = s.waiting id := by
      unfold State.waiting
      rw [hview, hlog]
    refine ⟨hlt, hview ▸ h.completion, hview ▸ h.elsewhere, ?_, ?_, ?_, ?_, hgen⟩
    · rw [hview]
      exact (Nat.add_le_add_left hhand _).trans h.once
    · rw [hview, hwaiting]
      exact h.keys
    · rw [hview, hwaiting]
      exact h.gone
    · rw [hview, hlog]
      exact fun hst => ⟨(h.fresh hst).1, Nat.eq_zero_of_le_zero ((h.fresh hst).2 ▸ hhand)⟩
  | collects hf a =>
    have hcore : (collect s a.revents).core id = s.core id := core_collect a.revents
    have hlog : (collect s a.revents).log id = s.log id := log_collect a.revents
    obtain ⟨helse, hmoved⟩ := count_collect a.revents h.elsewhere
    have hhand := inHand_collects id h.generations hf a.revents
    have hwaiting : State.waiting ((collect s a.revents).goto (.continuations
        (collect s a.revents).generation (collect s a.revents).continuations)) id
          = s.waiting id := by
      refine waiting_congr ?_ ?_
      · rw [core_goto]
        exact hcore
      · rw [log_goto]
        exact hlog
    refine ⟨hlt, ?_, ?_, ?_, ?_, ?_, ?_, hgen⟩
    · rw [view_goto, show ((collect s a.revents).view id).completion = (s.view id).completion from
        congrArg Core.completion hcore]
      exact h.completion
    · rw [view_goto]
      exact helse
    · rw [view_goto, hhand]
      exact hmoved.trans ((Nat.le_add_right _ _).trans h.once)
    · rw [view_goto, hwaiting, show ((collect s a.revents).view id).keys = (s.view id).keys from
        congrArg Core.keys hcore]
      exact h.keys
    · rw [view_goto, hwaiting]
      intro hw
      have hzero := h.gone hw
      omega
    · rw [view_goto, log_goto, hlog, hhand,
        show ((collect s a.revents).view id).stage = (s.view id).stage from
          congrArg Core.stage hcore]
      refine fun hst => ⟨(h.fresh hst).1, ?_⟩
      have hzero := h.gone (by unfold State.waiting; rw [hst]; rfl)
      omega

/-! ## The steps that are on it -/

/-- **A member of its completion** has to settle what is said of it there. -/
theorem Tracked.of_member (h : Tracked fd D id s) {t : State} (hs : step s e = some s')
    (hview : s'.view id = t.view id) (hlog : s'.log id = t.log id)
    (hcompletion : ∀ c, (t.view id).completion = some c → c.op = .connect fd ∧ c.deadline = some D)
    (helse : ∀ fd' d', (fd', d') ≠ (fd, .writes) → (t.view id).count fd' d' = 0)
    (hkeys : (t.view id).keys = if t.waiting id then [D] else [])
    (hgone : t.waiting id = false → (t.view id).count fd .writes = 0)
    (honce : (t.view id).count fd .writes + s'.inHand id ≤ 1)
    (hstage : (t.view id).stage ≠ .created) : Tracked fd D id s' := by
  have hwaiting : s'.waiting id = t.waiting id := by
    unfold State.waiting
    rw [hview, hlog]
  refine ⟨lt_of_lt_of_le h.exists_lt (next_le_of_step hs), hview ▸ hcompletion, hview ▸ helse,
    hview ▸ honce, ?_, ?_, fun hst => absurd (hview ▸ hst) hstage, h.generations.step hs⟩
  · rw [hview, hwaiting]
    exact hkeys
  · rw [hview, hwaiting]
    exact hgone

theorem waiting_eq_false_of_resumed (h : (s.log id).any Obs.isResumed = true) :
    s.waiting id = false := by
  unfold State.waiting
  rw [h, Bool.not_true, Bool.and_false, Bool.false_and]

/-- The coroutine of a connect is handed back at once, or its deadline is
filed. -/
theorem awaitSuspend_connect (hop : c.op = .connect fd) (hd : c.deadline = some D)
    (hkeys : (s.view id).keys = []) (hlog : (s.log id).any Obs.isResumed = false) (a : Handle)
    (r : Sys) : ((awaitSuspend s id c a r).1.view id).stage ≠ .created
      ∧ ((awaitSuspend s id c a r).1.view id).keys = (if c.op.awaits r then [D] else [])
      ∧ (awaitSuspend s id c a r).1.waiting id = c.op.awaits r := by
  let c₁ : Completion := { c with handle := some a }
  let c₂ : Completion := { c₁ with
    result := Outcome.ofError r.errno "connect failure in initial call" }
  have he : awaitSuspend s id c a r = connectAwaitSuspend s id c₁ fd r := by
    unfold awaitSuspend
    simp only [hop, c₁]
  have hlogs : ∀ (t : State) (os : List Obs), t.trace = os ++ s.trace →
      (∀ o ∈ os, o.subject = some id) → (t.log id).any Obs.isResumed = os.any Obs.isResumed := by
    intro t os htrace hos
    rw [log_of_trace_self htrace hos, List.any_append, hlog, Bool.or_false]
  rw [he]
  by_cases hz : r.ret = 0
  · have hst : connectAwaitSuspend s id c₁ fd r
        = returnHandle (s.observe (.connect id r)) id c₁ := by
      simp [connectAwaitSuspend, hz]
    have haw : c.op.awaits r = false := by simp [hop, Op.awaits, hz]
    rw [hst, haw, view_returnHandle, if_pos rfl]
    exact ⟨by simp, hkeys, waiting_eq_false_of_resumed
      (hlogs _ [.resumed id c.result, .connect id r] rfl (by simp [Obs.subject]))⟩
  · by_cases hprog : r.errno = EINPROGRESS
    · let s₁ : State := pushRequest (s.observe (.connect id r)) fd .writes id
      have hst : connectAwaitSuspend s id c₁ fd r
          = returnNoop (insertTimeout s₁ id c₁) id c₁ := by
        simp [connectAwaitSuspend, hz, hprog, s₁]
      have haw : c.op.awaits r = true := by simp [hop, Op.awaits, hz, hprog]
      have hpush : (s₁.view id).keys = [] := by
        rw [view_pushRequest_self]
        exact hkeys
      have hview : (returnNoop (insertTimeout s₁ id c₁) id c₁).1.view id
          = { s₁.view id with keys := [D], completion := some c₁, stage := .suspended } := by
        rw [view_returnNoop, if_pos rfl, view_insertTimeout_self _ _ _ hpush,
          show c₁.deadline = some D from hd]
        rfl
      have hany := hlogs (returnNoop (insertTimeout s₁ id c₁) id c₁).1 [.connect id r]
        (by rw [insertTimeout_eq]; rfl) (by simp [Obs.subject])
      rw [hst, haw, hview]
      refine ⟨by simp, rfl, ?_⟩
      unfold State.waiting
      rw [hview, hany]
      rfl
    · have hst : connectAwaitSuspend s id c₁ fd r
          = returnHandle (s.observe (.connect id r)) id c₂ := by
        simp [connectAwaitSuspend, hz, hprog, c₂]
      have haw : c.op.awaits r = false := by simp [hop, Op.awaits, hprog]
      rw [hst, haw, view_returnHandle, if_pos rfl]
      exact ⟨by simp, hkeys, waiting_eq_false_of_resumed
        (hlogs _ [.resumed id c₂.result, .connect id r] rfl (by simp [Obs.subject]))⟩

theorem Tracked.await (h : Tracked fd D id s) (hc : s.completions id = some c)
    (hst : s.stage id = .created) {a : Handle} {r : Sys}
    (hs : step s (.await id a r) = some (awaitSuspend s id c a r).1) :
    Tracked fd D id (awaitSuspend s id c a r).1 := by
  obtain ⟨hop, hd⟩ := h.completion c hc
  have hidle : s.waiting id = false := by
    unfold State.waiting
    rw [view_stage, hst]
    rfl
  have hkeys : (s.view id).keys = [] := by
    rw [h.keys, hidle]
    rfl
  obtain ⟨hlog, hhand⟩ := h.fresh hst
  obtain ⟨hstage, hkeys', hwaiting⟩ := awaitSuspend_connect hop hd hkeys hlog a r
  have hcount := fun fd' d' => count_awaitSuspend_self s id c r a fd' d'
  have hzero := h.gone hidle
  refine h.of_member hs rfl rfl ?_ ?_ ?_ ?_ ?_ hstage
  · obtain ⟨c', hc', hsame⟩ := completion_awaitSuspend_self s id c r a
    intro c₁ hc₁
    obtain rfl := Option.some.inj (hc'.symm.trans hc₁)
    exact ⟨hsame.1.trans hop, hsame.2.trans hd⟩
  · intro fd' d' hne
    rw [hcount, h.elsewhere fd' d' hne, hop,
      if_neg (fun hand => hne (Option.some.inj hand.2).symm)]
  · rw [hkeys', hwaiting]
  · intro hw
    rw [hcount, hzero, if_neg (fun hand => by rw [hwaiting, hand.1] at hw; cases hw)]
  · rw [inHand_of_shell (shell_awaitSuspend s id c r a), hhand, hcount, hzero]
    split_ifs <;> simp

theorem Tracked.destroy (h : Tracked fd D id s) (hc : s.completions id = some c)
    (hs : step s (.destroy id) = some (iopDestructed s id c)) :
    Tracked fd D id (iopDestructed s id c) := by
  obtain ⟨hop, hd⟩ := h.completion c hc
  have hview : (iopDestructed s id c).view id
      = { (cancelIop (cancelTimeout s id c) id c).view id with
          completion := none, stage := .deleted } := by
    rw [view_iopDestructed, if_pos rfl]
  rw [view_cancelIop_self] at hview
  have hgone : (iopDestructed s id c).waiting id = false := by
    unfold State.waiting
    rw [hview]
    simp
  have hkeys : ((iopDestructed s id c).view id).keys = [] := by
    rw [hview]
    show ((cancelTimeout s id c).view id).keys = []
    rw [view_cancelTimeout_self, hd, Option.isSome_some, if_pos rfl, h.keys]
    split_ifs <;> rfl
  have hcount : ∀ fd' d', ((iopDestructed s id c).view id).count fd' d' = 0 := by
    intro fd' d'
    rw [hview]
    show (if c.op.slot = some (fd', d') then 0
      else ((cancelTimeout s id c).view id).count fd' d') = 0
    rw [count_cancelTimeout]
    split_ifs with hslot
    · rfl
    · refine h.elsewhere fd' d' (fun he => hslot ?_)
      rw [hop, he]
      rfl
  refine h.of_member hs rfl rfl ?_ (fun fd' d' _ => hcount fd' d') ?_ (fun _ => hcount fd .writes)
    ?_ ?_
  · rw [hview]
    simp
  · rw [hkeys, hgone]
    rfl
  · rw [hcount, inHand_of_shell (shell_iopDestructed s id c), Nat.zero_add]
    exact (Nat.le_add_left _ _).trans h.once
  · rw [hview]
    simp

/-- Its deadline passes: that was the one entry it has. -/
theorem Tracked.timesOut (h : Tracked fd D id s) (hc : s.completions id = some c) {t : TimePoint}
    {l : List (TimePoint × RetrierId)} (he : s.timeouts.entries = (t, id) :: l) {p : Point}
    (hp : p.pending = []) {f : Frame} {fs : List Frame} (hf : s.frames = f :: fs)
    (hs : step s e
      = some ((iopTimedout { s with timeouts := s.timeouts.eraseBegin } id c).1.goto p)) :
    Tracked fd D id ((iopTimedout { s with timeouts := s.timeouts.eraseBegin } id c).1.goto p) := by
  obtain ⟨hop, hd⟩ := h.completion c hc
  let s₁ : State := { s with timeouts := s.timeouts.eraseBegin }
  have hshell : (iopTimedout s₁ id c).1.shell = s.shell := shell_iopTimedout s₁ id c
  have hsleep : c.op ≠ .sleep := by rw [hop]; simp
  have hkeys : ((iopTimedout s₁ id c).1.view id).keys = [] := by
    have hcons : (s.view id).keys = t :: s.timeouts.eraseBegin.keysOf id :=
      Multimap.keysOf_eraseBegin_self he
    have herased : s.timeouts.eraseBegin.keysOf id = [] := by
      rw [h.keys] at hcons
      split_ifs at hcons
      · exact (List.cons.inj hcons).2.symm
    have htimeouts : (iopTimedout s₁ id c).1.timeouts = s.timeouts.eraseBegin := by
      unfold iopTimedout
      split
      · exact absurd ‹_› hsleep
      · rw [cancelIop_eq]
        rfl
    show (iopTimedout s₁ id c).1.timeouts.keysOf id = []
    rw [htimeouts, herased]
  have hcount : ∀ fd' d', ((iopTimedout s₁ id c).1.view id).count fd' d' = 0 := by
    intro fd' d'
    rw [count_iopTimedout_self, if_neg hsleep]
    split_ifs with hslot
    · rfl
    · refine h.elsewhere fd' d' (fun he => hslot ?_)
      rw [hop, he]
      rfl
  have hgone : (iopTimedout s₁ id c).1.waiting id = false := by
    refine waiting_eq_false_of_resumed ?_
    rw [log_of_trace_self (l := [_]) (trace_iopTimedout s₁ id c)
      (fun o ho => by rw [List.mem_singleton.mp ho]; rfl)]
    rfl
  refine h.of_member hs (view_goto _ p) (log_goto _ p) ?_ (fun fd' d' _ => hcount fd' d') ?_
    (fun _ => hcount fd .writes) ?_ ?_
  · obtain ⟨c', hc', hsame⟩ := completion_iopTimedout_self s₁ id c
    intro c₁ hc₁
    obtain rfl := Option.some.inj (hc'.symm.trans hc₁)
    exact ⟨hsame.1.trans hop, hsame.2.trans hd⟩
  · rw [hkeys, hgone]
    rfl
  · rw [hcount, Nat.zero_add]
    have hle : ((iopTimedout s₁ id c).1.goto p).inHand id ≤ (iopTimedout s₁ id c).1.inHand id :=
      inHand_goto_le ((congrArg Shell.frames hshell).trans hf)
        (by rw [Point.inHand_eq_zero hp]; exact Nat.zero_le _)
    rw [inHand_of_shell hshell] at hle
    exact hle.trans ((Nat.le_add_left _ _).trans h.once)
  · rw [view_stage, stage_iopTimedout_self]
    simp

/-- A reading settles it: the pass had it in hand, so that it is in no list,
and its one entry is erased. -/
theorem Tracked.settles (h : Tracked fd D id s) (hc : s.completions id = some c)
    {f : Frame} {fs : List Frame} (hf : s.frames = f :: fs) {rest : List RetrierId}
    (hp : f.point = .continuations s.generation (id :: rest)) {r : Sys}
    (hw : c.op.waits r = false) {p : Point}
    (hpoint : p = .retried s.generation rest ∨ p = .continuations s.generation rest)
    (hs : step s e = some ((tryOrResume (s.observe (.retried id)) id c r).1.goto p)) :
    Tracked fd D id ((tryOrResume (s.observe (.retried id)) id c r).1.goto p) := by
  obtain ⟨hop, hd⟩ := h.completion c hc
  let s₁ : State := s.observe (.retried id)
  have hshell : (tryOrResume s₁ id c r).1.shell = s.shell := shell_tryOrResume s₁ id c r
  have hcount : ∀ fd' d', ((tryOrResume s₁ id c r).1.view id).count fd' d'
      = (s.view id).count fd' d' := by
    intro fd' d'
    rw [count_tryOrResume_self, if_neg (fun hand => by rw [hw] at hand; cases hand.1)]
    rfl
  have hkeys : ((tryOrResume s₁ id c r).1.view id).keys = [] := by
    have htail : ((tryOrResume s₁ id c r).1.view id).keys = (s.view id).keys.tail := by
      rw [tryOrResume_eq, if_neg (by rw [hw]; simp), cancelTimeoutThenResume, view_returnHandle,
        if_pos rfl, view_cancelTimeout_self, view_called]
      simp [hd, s₁]
    rw [htail, h.keys]
    split_ifs <;> rfl
  have hgone : (tryOrResume s₁ id c r).1.waiting id = false := by
    refine waiting_eq_false_of_resumed ?_
    have htrace : (tryOrResume s₁ id c r).1.trace
        = (answerObs id c r ++ callObs id c.op r) ++ s₁.trace := by
      rw [trace_tryOrResume, List.append_assoc]
    rw [log_of_trace_self htrace (fun o ho => (mem_tryObs ho).1)]
    unfold answerObs
    rw [hw]
    rfl
  have hhand := inHand_of_retries hf hp
  have honce := h.once
  refine h.of_member hs (view_goto _ p) (log_goto _ p) ?_ ?_ ?_ ?_ ?_ ?_
  · obtain ⟨c', hc', hsame⟩ := completion_tryOrResume_self s₁ id c r
    intro c₁ hc₁
    obtain rfl := Option.some.inj (hc'.symm.trans hc₁)
    exact ⟨hsame.1.trans hop, hsame.2.trans hd⟩
  · intro fd' d' hne
    rw [hcount]
    exact h.elsewhere fd' d' hne
  · rw [hkeys, hgone]
    rfl
  · intro _
    rw [hcount]
    omega
  · have hgoto : ((tryOrResume s₁ id c r).1.goto p).inHand id + 1 = s.inHand id := by
      rw [inHand_goto ((congrArg Shell.frames hshell).trans hf), hhand,
        show (tryOrResume s₁ id c r).1.generation = s.generation from
          congrArg Shell.generation hshell]
      rcases hpoint with rfl | rfl
      · rw [Point.inHand_retried]
        omega
      · omega
    show ((tryOrResume s₁ id c r).1.view id).count fd .writes
      + ((tryOrResume s₁ id c r).1.goto p).inHand id ≤ 1
    rw [hcount]
    omega
  · rw [view_stage, stage_tryOrResume_self]
    exact stageOf_ne_created _

/-- **A retry in vain files its deadline once more**: it is filed twice then,
or filed although the coroutine has been handed back. -/
theorem Tracked.not_once_of_rearms (h : Tracked fd D id s) (hc : s.completions id = some c)
    (hin : s.inHand id ≠ 0) {r : Sys} (hw : c.op.waits r = true) (p : Point) :
    ¬ State.Once ((tryOrResume (s.observe (.retried id)) id c r).1.goto p) fd id := by
  obtain ⟨hop, hd⟩ := h.completion c hc
  intro honce
  let s₁ : State := s.observe (.retried id)
  have hkeys : ((tryOrResume s₁ id c r).1.timeouts.keysOf id).Perm
      (D :: s.timeouts.keysOf id) := by
    have htimeouts : (tryOrResume s₁ id c r).1.timeouts = s.timeouts.insert D id := by
      rw [tryOrResume_eq, if_pos hw]
      unfold registerAgain insertTimeout
      simp only [hop, Op.slot, hd]
      have hcalled : (called s₁ id (.connect fd) r).timeouts = s.timeouts := rfl
      show (pushRequest (called s₁ id (.connect fd) r) fd .writes id).timeouts.insert D id = _
      rw [← hcalled]
      rfl
    rw [htimeouts]
    exact s.timeouts.perm_keysOf_insert_self
  have hgoto : ((tryOrResume s₁ id c r).1.goto p).timeouts.keysOf id
      = (tryOrResume s₁ id c r).1.timeouts.keysOf id := congrArg View.keys (view_goto _ p)
  have hlength : (s.timeouts.keysOf id).length = 0 := by
    have hle := honce.timeouts
    rw [hgoto, hkeys.length_eq, List.length_cons] at hle
    omega
  -- it has been filed no more, so that its coroutine has been handed back
  have hwaiting : s.waiting id = false := by
    by_contra hne
    rw [show s.timeouts.keysOf id = [D] from h.keys.trans (if_pos (by simpa using hne))] at hlength
    cases hlength
  have hresumed : (s.log id).any Obs.isResumed = true := by
    have hstage : s.stage id ≠ .created := fun hst => hin (h.fresh hst).2
    cases hany : (s.log id).any Obs.isResumed with
    | true => rfl
    | false =>
      unfold State.waiting at hwaiting
      rw [hany, view_stage, view_completion, hc] at hwaiting
      simp [hstage] at hwaiting
  have hback : State.HandedBack ((tryOrResume s₁ id c r).1.goto p) id := by
    have htrace : (tryOrResume s₁ id c r).1.trace
        = (answerObs id c r ++ callObs id c.op r) ++ s₁.trace := by
      rw [trace_tryOrResume, List.append_assoc]
    refine Or.inl ?_
    rw [log_goto, log_of_trace_self htrace (fun o ho => (mem_tryObs ho).1), List.any_append,
      show (s₁.log id).any Obs.isResumed = true from hresumed, Bool.or_true]
  have hnil := hkeys.length_eq
  rw [← hgoto, (honce.handedBack hback).1] at hnil
  cases hnil

/-- While it is not retried in vain it is known once. -/
theorem Tracked.known (h : Tracked fd D id s) : s.Once fd id where
  timeouts := by
    rw [show s.timeouts.keysOf id = _ from h.keys]
    split_ifs <;> simp
  writes := (Nat.le_add_right _ _).trans h.once
  handedBack := fun hback => by
    have hgone : s.waiting id = false := by
      rcases hback with hresumed | hnone
      · exact waiting_eq_false_of_resumed hresumed
      · unfold State.waiting
        rw [view_completion, hnone]
        simp
    have hkeys := h.keys
    rw [hgone] at hkeys
    exact ⟨hkeys, List.count_eq_zero.mp (h.gone hgone)⟩

/-- The answer that has a connect wait is one that leaves it in progress. -/
theorem waits_connect_iff (fd : SocketDescriptor) (r : Sys) :
    (Op.connect fd).waits r = true ↔ r.ret = 0 ∧ stillInProgress r = true := by
  simp [Op.waits, stillInProgress, and_assoc]

/-- **A step that is not a retry in vain keeps track of it.** -/
theorem Tracked.step (h : Tracked fd D id s) (hok : AwaitsOnce id s e) (hr : ¬ Rearms id s e)
    (hs : step s e = some s') : Tracked fd D id s' := by
  by_cases hid : Subject s id e
  swap
  · exact h.of_moved hs (moved_of_step hs hid)
  cases steppedOn_of_step hs hid with
  | create hnext call => exact absurd h.exists_lt (by rw [hnext]; exact lt_irrefl _)
  | await hc a r => exact h.await hc (hok rfl) hs
  | destroy hc => exact h.destroy hc hs
  | leaves hf hp now done =>
    exact h.of_moved hs (.stays (e := .clock now done) rfl rfl (inHand_leave_le hf))
  | polls hf hp now done t =>
    refine h.of_moved hs (.stays (e := .clock now done) (view_goto _ _) (log_goto _ _)
      (inHand_goto_le hf ?_))
    rw [Point.inHand_eq_zero rfl]
    exact Nat.zero_le _
  | timeOutFails he hc now done =>
    have hkeys := (Multimap.keysOf_eraseBegin_self he).symm.trans h.keys
    unfold State.waiting at hkeys
    rw [view_completion, hc] at hkeys
    simp at hkeys
  | timesOut hf hp he hc now done hp' =>
    exact h.timesOut hc he (by rcases hp' with rfl | rfl <;> rfl) hf hs
  | retryFails hc r x => exact h.of_moved hs (.stays (e := .retry r) rfl rfl (le_refl _))
  | @retries f fs hf rest hp c hc r p hp' =>
    have hw : c.op.waits r = false := by
      by_contra hw
      rw [Bool.not_eq_false, (h.completion c hc).1, waits_connect_iff] at hw
      exact hr ⟨hid, by rw [hc]; rfl, hw⟩
    exact h.settles hc hf hp hw hp' hs

/-- **A retry in vain is what files it twice.** -/
theorem Tracked.staysOnce_iff (h : Tracked fd D id s) (hok : AwaitsOnce id s e)
    (hs : PollWarden.step s e = some s') : StaysOnce fd id s e ↔ ¬ Rearms id s e := by
  constructor
  · intro hstays hr
    cases e with
    | retry r =>
      obtain ⟨hid, hsome, hw⟩ := hr
      cases steppedOn_of_step hs hid with
      | retryFails hnone =>
        rw [hnone] at hsome
        cases hsome
      | @retries f fs hf rest hp c hc r p hp' =>
        rw [← waits_connect_iff fd, ← (h.completion c hc).1] at hw
        have hhand := inHand_of_retries hf hp
        exact h.not_once_of_rearms hc (by omega) hw p (hstays _ hs).1
    | _ => exact hr
  · intro hr s'' hs''
    have h' := h.step hok hr hs''
    refine ⟨h'.known, ?_⟩
    rintro hback now done rfl
    -- it is in `timeouts` no more, so that the reading is not on it
    have hid : ¬ Subject s id (.clock now done) := by
      rintro ⟨t, hhead⟩
      exact s.timeouts.keysOf_eq_nil_iff.mp (h.known.handedBack hback).1 t
        (List.mem_of_mem_head? hhead)
    cases moved_of_step hs'' hid with
    | stays hview hlog hhand => exact hlog

end Tracked

/-! ## Every run -/

/-- **A connect with a deadline, from its creation on.** It is known once in
every state, and its deadline does not resume it when it has been handed back,
exactly when it is never retried in vain. -/
theorem connect_once_iff {w fd : SocketDescriptor} {D : TimePoint} {es₁ es₂ : List Event}
    {s₁ s₂ s₃ : State} (h₁ : Run step always (init w) es₁ s₁)
    (hcreate : step s₁ (.create (.connect fd (some D))) = some s₂) :
    Run step (fun s e => AwaitsOnce s₁.next s e ∧ StaysOnce fd s₁.next s e) s₂ es₂ s₃
      ↔ Run step (fun s e => AwaitsOnce s₁.next s e ∧ ¬ Rearms s₁.next s e) s₂ es₂ s₃ := by
  obtain ⟨hgen, hunborn⟩ := unborn_of_run h₁
  have h := (hunborn s₁.next (le_refl _)).tracked hgen hcreate
  constructor
  · intro hrun
    refine hrun.imp (P := Tracked fd D s₁.next) (fun s e s' ht hok hs => ?_) h
    have hr := (ht.staysOnce_iff hok.1 hs).mp hok.2
    exact ⟨⟨hok.1, hr⟩, ht.step hok.1 hr hs⟩
  · intro hrun
    refine hrun.imp (P := Tracked fd D s₁.next) (fun s e s' ht hok hs => ?_) h
    exact ⟨⟨hok.1, (ht.staysOnce_iff hok.1 hs).mpr hok.2⟩, ht.step hok.1 hok.2 hs⟩

/-- A warden on which a connect with a deadline has been created. -/
def connectOn (w fd : SocketDescriptor) (D : TimePoint) : State :=
  createIop (init w) (.connect fd (some D))

/-- It is in progress, and its descriptor is reported. -/
def connectReported : List Event :=
  [.runUntil 1, .await 0 2 ⟨-1, EINPROGRESS, 0⟩, .suspend, .clock 0 false,
    .poll { ret := 1, revents := fun fd => { pollout := fd = 5 } }]

/-- The connection is established at the first reading. -/
theorem connect_once_iff_established :
    ∃ s, Run step (fun s e => AwaitsOnce 0 s e ∧ StaysOnce 5 0 s e) (connectOn 3 5 7000000)
        (connectReported ++ [.retry ⟨0, EINPROGRESS, 0⟩]) s
      ∧ (s.log 0).countP Obs.isResumed = 1 := by
  obtain ⟨s, hrun, hone⟩ := exists_run_of_exec step
    (fun s e => AwaitsOnce 0 s e ∧ ¬ Rearms 0 s e) (connectOn 3 5 7000000)
    (connectReported ++ [.retry ⟨0, EINPROGRESS, 0⟩])
    (fun s => (s.log 0).countP Obs.isResumed = 1) (by decide)
  exact ⟨s, (connect_once_iff (Run.nil (init 3)) rfl).mpr hrun, of_decide_eq_true hone⟩

/-- The connection is refused, and `errno` is still that of the `::connect`. -/
def connectRefused : List Event :=
  connectReported ++ [.retry ⟨0, EINPROGRESS, ECONNREFUSED⟩]

/-- **Its deadline is filed twice.** At the next reading the connect concludes,
and when the deadline passes its coroutine is resumed once more. -/
theorem not_staysOnce_refused :
    (∃ s, Run step (AwaitsOnce 0) (connectOn 3 5 7000000)
        (connectRefused ++ [.retry ⟨0, 0, 0⟩, .resumeNext, .clock 0 false,
          .poll { ret := 1, revents := fun fd => { pollout := fd = 5 } }, .retry ⟨0, 0, 0⟩,
          .suspend, .retry ⟨0, 0, 0⟩, .resumeNext, .clock 7000000 false]) s
      ∧ (s.log 0).countP Obs.isResumed = 2)
    ∧ ¬ ∀ es s, Run step (AwaitsOnce 0) (connectOn 3 5 7000000) es s →
      Run step (fun s e => AwaitsOnce 0 s e ∧ StaysOnce 5 0 s e) (connectOn 3 5 7000000) es s := by
  constructor
  · obtain ⟨s, hrun, htwice⟩ := exists_run_of_exec step (AwaitsOnce 0) (connectOn 3 5 7000000)
      (connectRefused ++ [.retry ⟨0, 0, 0⟩, .resumeNext, .clock 0 false,
        .poll { ret := 1, revents := fun fd => { pollout := fd = 5 } }, .retry ⟨0, 0, 0⟩,
        .suspend, .retry ⟨0, 0, 0⟩, .resumeNext, .clock 7000000 false])
      (fun s => (s.log 0).countP Obs.isResumed = 2) (by decide)
    exact ⟨s, hrun, of_decide_eq_true htwice⟩
  · intro h
    obtain ⟨s, hrun, htwice⟩ := exists_run_of_exec step (AwaitsOnce 0) (connectOn 3 5 7000000)
      connectRefused (fun s => (s.timeouts.keysOf 0).length = 2) (by decide)
    have honce : s.timeouts.keysOf 0 = [] ∨ s.Once 5 0 :=
      (h _ _ hrun).invariant (P := fun s => s.timeouts.keysOf 0 = [] ∨ s.Once 5 0)
        (fun _ _ s' _ hok hs => Or.inr (hok.2 s' hs).1) (Or.inl rfl)
    have htwo : (s.timeouts.keysOf 0).length = 2 := of_decide_eq_true htwice
    rcases honce with hnil | honce
    · rw [hnil] at htwo
      cases htwo
    · have hle := honce.timeouts
      omega

end PollWarden
