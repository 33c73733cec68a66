import Felspar.PollSuspension

/-!
# Where a waiter is

A completion that waits for its descriptor is in the list of `requests` it
registers in, or among the retriers that a pass of the loop has collected and
has still to retry. Nothing takes it from there but what hands its coroutine
back or deletes it, and so no waiter is lost (`held_of_run`), however the
loops are nested and whatever the coroutines do that they run.

A pass collects what `::poll` reports, and moves it from the one place to the
other (`mem_continuations_collect`).
-/

namespace PollWarden

/-- The completion is in a list of `requests`, or a loop has it still to
retry. -/
def State.Held (s : State) (i : RetrierId) (fd : SocketDescriptor) (d : Side) : Prop :=
  i ∈ s.registered fd d ∨ ∃ f ∈ s.frames, i ∈ f.point.pending

/-! ## What leaves a waiter where it is -/

section Held

variable {s s' : State} {i id : RetrierId} {c : Completion} {fd : SocketDescriptor} {d : Side}
  {f : Frame} {fs : List Frame}

theorem mem_registered_iff : i ∈ s.registered fd d ↔ (s.view i).count fd d ≠ 0 :=
  List.count_pos_iff.symm.trans Nat.pos_iff_ne_zero

/-- The lists and the loops are all that matters. -/
theorem State.Held.congr (h : s.Held i fd d) (hview : s'.view i = s.view i)
    (hframes : s'.frames = s.frames) : s'.Held i fd d := by
  unfold State.Held at h ⊢
  rw [mem_registered_iff, hview, ← mem_registered_iff, hframes]
  exact h

/-- The innermost loop may go on, as long as it does not pass the completion
by. -/
theorem State.Held.goto (h : s.Held i fd d) (hf : s.frames = f :: fs) {p : Point}
    (hp : i ∈ f.point.pending → i ∈ p.pending) : (s.goto p).Held i fd d := by
  unfold State.Held at h ⊢
  rw [goto_eq, hf]
  rw [hf] at h
  rcases h with h | ⟨f', hf', hi⟩
  · exact Or.inl h
  · right
    rcases List.mem_cons.mp hf' with rfl | hf'
    · exact ⟨_, List.mem_cons_self, hp hi⟩
    · exact ⟨f', List.mem_cons_of_mem _ hf', hi⟩

/-- A loop that has nothing to retry may be left. -/
theorem State.Held.leave (h : s.Held i fd d) (hf : s.frames = f :: fs)
    (hp : f.point.pending = []) : s.leave.Held i fd d := by
  unfold State.Held at h ⊢
  unfold State.leave
  rw [hf] at h ⊢
  rcases h with h | ⟨f', hf', hi⟩
  · exact Or.inl h
  · rcases List.mem_cons.mp hf' with rfl | hf'
    · rw [hp] at hi
      exact absurd hi List.not_mem_nil
    · exact Or.inr ⟨f', hf', hi⟩

theorem State.Held.doPollReturns (h : s.Held i fd d) (hf : s.frames = f :: fs)
    (hp : f.point.pending = []) : (doPollReturns s).Held i fd d := by
  unfold PollWarden.doPollReturns
  have h' : State.Held { s with resumer := s.resumer.swap } i fd d := h.congr rfl rfl
  refine h'.goto hf (fun hi => ?_)
  rw [hp] at hi
  exact absurd hi List.not_mem_nil

/-! ## Collecting the waiters -/

theorem registered_collectSide (s : State) (fd' : SocketDescriptor) (d' : Side) :
    (collectSide s fd' d').registered fd d
      = if fd = fd' ∧ d = d' then [] else s.registered fd d :=
  registered_modifyRequests s fd' fd d' d (fun _ => [])

/-- What has been collected stays so. -/
theorem mem_continuations_collectFd_of_mem (revents : SocketDescriptor → Revents) (s : State)
    (fd' : SocketDescriptor) (h : i ∈ s.continuations) :
    i ∈ (collectFd revents s fd').continuations := by
  have hkept : ∀ (t : State) (d' : Side), i ∈ t.continuations →
      i ∈ (collectSide t fd' d').continuations := fun t d' h => List.mem_append_left _ h
  unfold collectFd
  split
  · split <;> exact h
  · dsimp only
    split_ifs
    · exact hkept _ _ (hkept _ _ h)
    · exact hkept _ _ h
    · exact hkept _ _ h
    · exact h

/-- A round of the collecting loop moves a waiter, or leaves it where it
is. -/
theorem mem_collectFd (revents : SocketDescriptor → Revents) (s : State)
    (fd' : SocketDescriptor) (h : i ∈ s.registered fd d ∨ i ∈ s.continuations) :
    i ∈ (collectFd revents s fd').registered fd d
      ∨ i ∈ (collectFd revents s fd').continuations := by
  have hside : ∀ (t : State) (d' : Side), i ∈ t.registered fd d ∨ i ∈ t.continuations →
      i ∈ (collectSide t fd' d').registered fd d ∨ i ∈ (collectSide t fd' d').continuations := by
    intro t d' h
    rw [registered_collectSide]
    rcases h with h | h
    · by_cases he : fd = fd' ∧ d = d'
      · obtain ⟨rfl, rfl⟩ := he
        exact Or.inr (List.mem_append_right _ h)
      · rw [if_neg he]
        exact Or.inl h
    · exact Or.inr (List.mem_append_left _ h)
  unfold collectFd
  split
  · split <;> exact h
  · dsimp only
    split_ifs
    · exact hside _ _ (hside _ _ h)
    · exact hside _ _ h
    · exact hside _ _ h
    · exact h

/-- The round of its own descriptor moves it. -/
theorem mem_continuations_collectFd (revents : SocketDescriptor → Revents) (s : State)
    (hwake : fd ≠ s.wakeFd) (hwakes : (revents fd).wakes d = true)
    (h : i ∈ s.registered fd d) : i ∈ (collectFd revents s fd).continuations := by
  unfold collectFd
  rw [if_neg hwake]
  dsimp only
  cases d with
  | reads =>
    rw [if_pos hwakes]
    have hmoved : i ∈ (collectSide s fd .reads).continuations := List.mem_append_right _ h
    split
    · exact List.mem_append_left _ hmoved
    · exact hmoved
  | writes =>
    rw [if_pos hwakes]
    refine List.mem_append_right _ ?_
    split
    · -- moving the readers of the descriptor leaves its writers
      have hreg : (collectSide s fd .reads).registered fd .writes = s.registered fd .writes :=
        (registered_collectSide s fd .reads).trans (if_neg (fun he => absurd he.2 (by simp)))
      rw [← hreg] at h
      exact h
    · exact h

theorem mem_continuations_foldl (revents : SocketDescriptor → Revents)
    (fds : List SocketDescriptor) (s : State) (hwake : fd ≠ s.wakeFd)
    (hwakes : (revents fd).wakes d = true)
    (h : fd ∈ fds ∧ i ∈ s.registered fd d ∨ i ∈ s.continuations) :
    i ∈ (fds.foldl (collectFd revents) s).continuations := by
  -- a round collects the waiter or leaves it in its list, for the round of its
  -- descriptor
  induction fds generalizing s with
  | nil => exact h.resolve_left (fun hm => absurd hm.1 List.not_mem_nil)
  | cons fd' fds ih =>
    have hfd : (collectFd revents s fd').wakeFd = s.wakeFd := by
      unfold collectFd
      split
      · split <;> rfl
      · dsimp only
        split_ifs <;> rfl
    refine ih _ (by rw [hfd]; exact hwake) ?_
    rcases h with ⟨hm, hi⟩ | hi
    · by_cases he : fd = fd'
      · subst he
        exact Or.inr (mem_continuations_collectFd revents s hwake hwakes hi)
      · have hm : fd ∈ fds := (List.mem_cons.mp hm).resolve_left he
        exact (mem_collectFd revents s fd' (Or.inl hi)).imp (fun h => ⟨hm, h⟩) id
    · exact Or.inr (mem_continuations_collectFd_of_mem revents s fd' hi)

/-- A descriptor that something waits on is polled. -/
theorem mem_pollFds (h : i ∈ s.registered fd d) : fd ∈ (pollFds s).map PollFd.fd := by
  have hkey : fd ∈ s.requests.keys := by
    by_contra hk
    unfold State.registered at h
    rw [s.requests.get_of_notMem fd hk, Request.side_default] at h
    exact absurd h List.not_mem_nil
  unfold pollFds
  rw [List.map_cons, List.map_map]
  exact List.mem_cons_of_mem _ (List.mem_map.mpr ⟨fd, hkey, rfl⟩)

/-- **A waiter whose descriptor is reported is collected.** -/
theorem mem_continuations_collect (revents : SocketDescriptor → Revents)
    (hwake : fd ≠ s.wakeFd) (hwakes : (revents fd).wakes d = true)
    (h : i ∈ s.registered fd d) : i ∈ (collect s revents).continuations :=
  mem_continuations_foldl revents _ (clearContinuations s) hwake hwakes
    (Or.inl ⟨mem_pollFds h, h⟩)

/-- The loops are not touched by collecting. -/
theorem frames_collect (revents : SocketDescriptor → Revents) :
    (collect s revents).frames = s.frames :=
  collect_rule (P := fun t => t.frames = s.frames) revents rfl (fun _ h => h)
    (fun _ _ _ h => h)

theorem mem_collect (revents : SocketDescriptor → Revents) (h : i ∈ s.registered fd d) :
    i ∈ (collect s revents).registered fd d ∨ i ∈ (collect s revents).continuations := by
  unfold collect
  have hclear : i ∈ (clearContinuations s).registered fd d ∨
      i ∈ (clearContinuations s).continuations := Or.inl h
  generalize (pollFds s).map PollFd.fd = fds
  generalize clearContinuations s = t at hclear
  induction fds generalizing t with
  | nil => exact hclear
  | cons fd' fds ih => exact ih _ (mem_collectFd revents t fd' hclear)

/-- An answer of `::poll` is for the innermost loop. -/
theorem mem_frames_doPoll {a : PollAnswer} (hf : s.frames = f :: fs) (ha : 0 ≤ a.ret)
    {f' : Frame} (hm : f' ∈ fs) : f' ∈ (doPoll s a).frames := by
  have hreturns : f' ∈ (doPollReturns s).frames := by
    unfold PollWarden.doPollReturns
    rw [goto_eq, hf]
    exact List.mem_cons_of_mem _ hm
  have hpolled := polled s a
  generalize PollWarden.doPoll s a = s₁ at hpolled ⊢
  cases hpolled with
  | returns => exact hreturns
  | throws hneg => exact absurd hneg (not_lt.mpr ha)
  | collects =>
    rw [goto_eq, frames_collect, hf]
    exact List.mem_cons_of_mem _ hm

/-- **An answer of `::poll`** leaves a waiter where it is, or collects it. -/
theorem State.Held.doPoll (h : s.Held i fd d) (hf : s.frames = f :: fs)
    (hp : f.point.pending = []) (a : PollAnswer) : (doPoll s a).Held i fd d := by
  have hpolled := polled s a
  generalize PollWarden.doPoll s a = s₁ at hpolled ⊢
  cases hpolled with
  | returns => exact h.doPollReturns hf hp
  | throws => exact h.leave hf hp
  | collects =>
    have hf' : (collect s a.revents).frames = f :: fs := (frames_collect a.revents).trans hf
    unfold State.Held at h ⊢
    rw [goto_eq, hf']
    rw [hf] at h
    rcases h with h | ⟨f', hm, hi⟩
    · rcases mem_collect a.revents h with h | h
      · exact Or.inl h
      · exact Or.inr ⟨_, List.mem_cons_self, h⟩
    · rcases List.mem_cons.mp hm with rfl | hm
      · rw [hp] at hi
        exact absurd hi List.not_mem_nil
      · exact Or.inr ⟨f', List.mem_cons_of_mem _ hm, hi⟩

end Held

/-! ## A step leaves the waiters it is not on -/

section Step

variable {s s' : State} {i id : RetrierId} {c : Completion} {fd : SocketDescriptor} {d : Side}
  {e : Event}

/-- A member on another completion leaves a waiter where it is. -/
theorem State.Held.of_member (h : s.Held i fd d) (hview : s'.view i = s.view i)
    (hshell : s'.shell = s.shell) : s'.Held i fd d :=
  h.congr hview (congrArg Shell.frames hshell)

theorem held_of_not_subject (hs : step s e = some s') (hid : ¬ Subject s i e)
    (h : s.Held i fd d) : s'.Held i fd d := by
  cases (stepped_of_step hs).2 with
  | create hu call =>
    have hne : i ≠ s.next := hid
    exact h.congr (by rw [view_createIop, if_neg hne]) rfl
  | await hu hc a r =>
    exact h.of_member (view_awaitSuspend_of_ne s _ i _ r a (Ne.symm hid))
      (shell_awaitSuspend s _ _ r a)
  | destroy hu hc =>
    refine h.of_member ?_ (shell_iopDestructed s _ _)
    rw [view_iopDestructed, if_neg (Ne.symm hid)]
  | asyncResume hu handles written =>
    obtain ⟨n, he⟩ := doAsyncResume_eq s handles written
    rw [he]
    exact h.congr rfl rfl
  | runUntil hu coro =>
    exact h.imp (fun hr => hr) (fun ⟨f, hf, hi⟩ => ⟨f, List.mem_cons_of_mem _ hf, hi⟩)
  | runBatch hu =>
    exact h.imp (fun hr => hr) (fun ⟨f, hf, hi⟩ => ⟨f, List.mem_cons_of_mem _ hf, hi⟩)
  | suspend hf hp =>
    exact h.goto hf (fun hi => by rw [Point.pending_afterSuspend hp]; exact hi)
  | @clock f fs hf hp now done =>
    have hpend : f.point.pending = [] := by
      rw [hp]
      rfl
    have hgoto : ∀ {t : State} (p : Point), t.Held i fd d → t.frames = f :: fs →
        (t.goto p).Held i fd d := fun p ht hft =>
      ht.goto hft (fun hi => absurd (hpend ▸ hi) List.not_mem_nil)
    have hcleared := clearedTimeouts s f now done
    generalize clearTimeouts s f now done = s₁ at hcleared ⊢
    cases hcleared with
    | leaves => exact h.leave hf hpend
    | polls => exact hgoto _ h hf
    | @fails t j l he hdue hc =>
      have hne : i ≠ j := fun he' => hid ⟨t, by rw [he, he']; rfl⟩
      exact h.imp (fun hr => hr) (fun hf => hf)
    | @timesOut t j l c he hdue hc =>
      have hne : i ≠ j := fun he' => hid ⟨t, by rw [he, he']; rfl⟩
      have hshell := shell_iopTimedout { s with timeouts := s.timeouts.eraseBegin } j c
      refine hgoto _ ?_ ((congrArg Shell.frames hshell).trans hf)
      have herase : State.Held { s with timeouts := s.timeouts.eraseBegin } i fd d := h
      exact herase.of_member (view_iopTimedout_of_ne _ j i c hne) hshell
  | poll hf hp a => exact h.doPoll hf (by rw [hp]; rfl) a
  | @retry f fs hf g rest hp r =>
    have hretried := retriedNext s g rest r
    generalize retryNext s g rest r = s₁ at hretried ⊢
    cases hretried with
    | returns => exact h.doPollReturns hf (by rw [hp]; rfl)
    | fails => exact h
    | @retries j rest c hg hc p hp' =>
      have hne : i ≠ j := fun he => hid ((retries_iff hf hp).mpr ⟨he.symm, hg⟩)
      have hshell := shell_tryOrResume (s.observe (.retried j)) j c r
      have hobserved : (s.observe (.retried j)).Held i fd d := h
      have ht := hobserved.of_member (view_tryOrResume_of_ne _ j i c r hne) hshell
      refine ht.goto ((congrArg Shell.frames hshell).trans hf) (fun hi => ?_)
      -- the loop goes on with the rest, which is without the one it retries
      have hi : i ∈ j :: rest := by
        rw [hp] at hi
        exact hi
      have hi : i ∈ rest := (List.mem_cons.mp hi).resolve_left hne
      rcases hp' with rfl | rfl <;> exact hi
  | @resumeNext f fs hf rest hp =>
    have hpend : f.point.pending = [] := by
      rw [hp]
      rfl
    have hcleared : State.Held { s with resumer := s.resumer.clearResuming } i fd d := h
    have hresumed := resumedAllNext s f rest
    generalize resumeAllNext s f rest = s₁ at hresumed ⊢
    cases hresumed with
    | again => exact hcleared.goto hf (fun hi => absurd (hpend ▸ hi) List.not_mem_nil)
    | leaves => exact hcleared.leave hf hpend
    | resumes a rest =>
      have hobserved : (s.observe (.handle a)).Held i fd d := h
      exact hobserved.goto hf (fun hi => absurd (hpend ▸ hi) List.not_mem_nil)

end Step

/-! ## No waiter is lost -/

/-- **Every waiter is held**: a completion that a coroutine is suspended on,
and that registers in a list, is in that list or about to be retried. -/
structure Waiters (s : State) : Prop where
  unused : Unused s
  held : ∀ i c fd d, s.completions i = some c → s.stage i = .suspended →
    c.op.slot = some (fd, d) → s.Held i fd d

section Waiters

variable {s s' : State} {i id : RetrierId} {c : Completion} {fd : SocketDescriptor} {d : Side}
  {e : Event}

/-- A try that leaves the coroutine suspended registers the completion. -/
theorem mem_tryOrResume (s : State) (id : RetrierId) {r : Sys}
    (hst : (tryOrResume s id c r).1.stage id = .suspended) (hslot : c.op.slot = some (fd, d)) :
    id ∈ (tryOrResume s id c r).1.registered fd d := by
  rw [stage_tryOrResume_self] at hst
  have hw : c.op.waits r = true := by
    cases hw : c.op.waits r with
    | true => rfl
    | false => rw [hw] at hst; exact absurd hst (by simp [stageOf])
  rw [mem_registered_iff, count_tryOrResume_self, if_pos ⟨hw, hslot⟩]
  exact Nat.succ_ne_zero _

/-- So does a first try. -/
theorem mem_awaitSuspend (s : State) (id : RetrierId) (h : Handle) {r : Sys}
    (hst : (awaitSuspend s id c h r).1.stage id = .suspended)
    (hslot : c.op.slot = some (fd, d)) : id ∈ (awaitSuspend s id c h r).1.registered fd d := by
  have ha : c.op.awaits r = true := by
    rw [← view_stage] at hst
    rcases awaitSuspend_cases s id c r h _ rfl with
      ⟨fd', ho, he⟩ | ⟨fd', d', ho, -, he⟩ | ⟨ho, he⟩
    · rw [he] at hst
      rw [ho]
      unfold connectAwaitSuspend at hst
      dsimp only at hst
      split_ifs at hst with h₁ h₂
      · rw [view_returnHandle, if_pos rfl] at hst
        exact absurd hst (by simp)
      · simp [Op.awaits, h₁, h₂]
      · rw [view_returnHandle, if_pos rfl] at hst
        exact absurd hst (by simp)
    · rcases ho with ho | ho <;> rw [ho] <;> rfl
    · rw [he, view_stage, stage_tryOrResume_self] at hst
      have hw : c.op.waits r = true := by
        cases hw : c.op.waits r with
        | true => rfl
        | false =>
          have hst : stageOf (c.op.waits r) = .suspended := hst
          rw [hw] at hst
          exact absurd hst (by simp [stageOf])
      rw [← hw]
      unfold Op.awaits
      cases hop : c.op with
      | connect fd => exact absurd hop (ho fd).1
      | readReady fd => exact absurd hop (ho fd).2.1
      | writeReady fd => exact absurd hop (ho fd).2.2
      | _ => rfl
  rw [mem_registered_iff, count_awaitSuspend_self, if_pos ⟨ha, hslot⟩]
  exact Nat.succ_ne_zero _

/-- **No step loses a waiter.** -/
theorem Waiters.step (h : Waiters s) (hs : PollWarden.step s e = some s') : Waiters s' := by
  refine ⟨unused_of_step h.unused hs, fun i c' fd d hc' hst hslot => ?_⟩
  by_cases hid : Subject s i e
  swap
  · have hcore := core_of_step hs hid
    have hc : s.completions i = some c' := by
      rw [← hc']
      exact (congrArg Core.completion hcore).symm
    have hst : s.stage i = .suspended := by
      rw [← hst]
      exact (congrArg Core.stage hcore).symm
    exact held_of_not_subject hs hid (h.held i c' fd d hc hst hslot)
  cases steppedOn_of_step hs hid with
  | create hid call =>
    have hcreated : s.stage s.next = .created :=
      congrArg Core.stage (h.unused s.next (le_refl _))
    rw [hid] at hst
    exact absurd (hcreated.symm.trans hst) (by simp)
  | @await c hc a r =>
    obtain ⟨c₁, hc₁, hsame⟩ := completion_awaitSuspend_self s i c r a
    obtain rfl := Option.some.inj (hc₁.symm.trans hc')
    exact Or.inl (mem_awaitSuspend s i a hst (hsame.1 ▸ hslot))
  | destroy hc =>
    rw [← view_completion, view_iopDestructed, if_pos rfl] at hc'
    exact absurd hc' (by simp)
  | leaves hf hp => exact (h.held i c' fd d hc' hst hslot).leave hf (by rw [hp]; rfl)
  | @polls f fs hf hp =>
    have hpend : f.point.pending = [] := by
      rw [hp]
      rfl
    rw [completions_goto] at hc'
    rw [stage_goto] at hst
    exact (h.held i c' fd d hc' hst hslot).goto hf
      (fun hi => absurd (hpend ▸ hi) List.not_mem_nil)
  | timeOutFails => exact h.held i c' fd d hc' hst hslot
  | timesOut =>
    rw [stage_goto, stage_iopTimedout_self] at hst
    exact absurd hst (by simp)
  | retryFails => exact h.held i c' fd d hc' hst hslot
  | @retries f fs hf rest hp c hc r =>
    obtain ⟨c₁, hc₁, hsame⟩ := completion_tryOrResume_self (s.observe (.retried i)) i c r
    rw [completions_goto, hc₁] at hc'
    obtain rfl := Option.some.inj hc'
    rw [stage_goto] at hst
    left
    rw [goto_eq]
    exact mem_tryOrResume (s.observe (.retried i)) i hst (hsame.1 ▸ hslot)

theorem waiters_init (w : SocketDescriptor) : Waiters (init w) where
  unused := unused_init w
  held := fun _ _ _ _ hc => absurd hc (by simp [init])

/-- **In every run no waiter is lost.** -/
theorem held_of_run {w : SocketDescriptor} {es : List Event} {s : State}
    (h : Run PollWarden.step always (init w) es s) : Waiters s :=
  h.invariant (fun _ _ _ hs _ he => hs.step he) (waiters_init w)

end Waiters

end PollWarden
