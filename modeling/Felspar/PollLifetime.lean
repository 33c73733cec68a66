import Felspar.PollView

/-!
# What the continuation loop retries

`do_poll` copies the pointers of the retriers that are ready into
`bookkeeping->continuations`, empties the lists it copied them from, and
only then retries them one by one, running their coroutines as it goes. A
coroutine that runs there may destroy the IOP of a retrier the pass has
collected and not yet reached. Its completion is taken out of `requests` and
`timeouts` and deleted, but the vector keeps the pointer.

So the loop follows a dangling pointer exactly then. As long as nobody
destroys an IOP that a pass has still to retry, and no pass clears the
vector under another one that is not through with it, every pointer a list
of `requests` or the vector holds is one to a completion that exists
(`Lifetime`), and the continuation loop never retries a deleted completion
(`not_staleRetry_of_run`).
-/

namespace PollWarden

/-- The continuation loop followed a pointer it must not follow: one to a
completion that has been deleted, or one it read through an iterator that
was no longer valid. -/
def StaleRetry (s : State) : Prop :=
  s.fault = some .invalidIterator ∨ ∃ id, s.fault = some (.retriedDeleted id)

/-- **Nothing a pass has still to retry is taken from it**: an IOP that is
destroyed is not one of them, and a pass that collects does not find another
one unfinished. -/
def KeepsCollected (s : State) : Event → Prop
  | .destroy id => ∀ f ∈ s.frames, id ∉ f.point.pending
  | .poll a => 0 < a.ret → ∀ f ∈ s.frames, f.point.pending = []
  | _ => True

instance : DecidableRel KeepsCollected := fun s e =>
  match e with
  | .destroy id => inferInstanceAs (Decidable (∀ f ∈ s.frames, id ∉ f.point.pending))
  | .poll a => inferInstanceAs (Decidable (0 < a.ret → ∀ f ∈ s.frames, f.point.pending = []))
  | .create _ | .await _ _ _ | .asyncResume _ _ | .runUntil _ | .runBatch | .suspend
  | .clock _ _ | .retry _ | .resumeNext => inferInstanceAs (Decidable True)

/-- A completion that occurs in a list of `requests` exists, and the list is
the one it registers in. -/
def View.Owned (v : View) : Prop :=
  ∀ fd d, v.count fd d ≠ 0 → v.slot = some (fd, d)

/-- **The pointers the warden holds are to completions that exist**: those
in `requests`, and those a pass has still to retry, which the vector it
iterates over has not been cleared of. -/
structure Lifetime (s : State) : Prop where
  fresh : ∀ i, s.next ≤ i → s.completions i = none
  owned : ∀ i, (s.view i).Owned
  pending : ∀ f ∈ s.frames, ∀ i ∈ f.point.pending, s.completions i ≠ none
  generation : ∀ f ∈ s.frames, f.point.pending ≠ [] →
    f.point.generation = some s.generation
  fault : ¬ StaleRetry s

namespace Lifetime

variable {s s' : State}

/-- The completions that exist have been given a number. -/
theorem lt_next (h : Lifetime s) {i : RetrierId} {c : Completion}
    (hc : s.completions i = some c) : i < s.next := by
  by_contra hi
  rw [h.fresh i (not_lt.mp hi)] at hc
  exact absurd hc (by simp)

/-- A member of a completion keeps the lifetimes where it keeps them at the
completion it is on. -/
theorem of_view (h : Lifetime s) {id : RetrierId} {c : Completion}
    (hc : s.completions id = some c) (hshell : s'.shell = s.shell)
    (hne : ∀ i, i ≠ id → s'.view i = s.view i) (hown : (s'.view id).Owned)
    (hlive : s'.completions id = none → ∀ f ∈ s.frames, id ∉ f.point.pending) :
    Lifetime s' := by
  have hnext : s'.next = s.next := congrArg Shell.next hshell
  have hframes : s'.frames = s.frames := congrArg Shell.frames hshell
  have hgen : s'.generation = s.generation := congrArg Shell.generation hshell
  have hfault : s'.fault = s.fault := congrArg Shell.fault hshell
  have hcompl : ∀ i, i ≠ id → s'.completions i = s.completions i :=
    fun i hi => congrArg View.completion (hne i hi)
  refine ⟨fun i hi => ?_, fun i => ?_, fun f hf i hi => ?_, fun f hf hp => ?_, ?_⟩
  · rw [hnext] at hi
    rw [hcompl i (ne_of_gt (lt_of_lt_of_le (h.lt_next hc) hi))]
    exact h.fresh i hi
  · by_cases hid : i = id
    · rw [hid]; exact hown
    · rw [hne i hid]; exact h.owned i
  · rw [hframes] at hf
    by_cases hid : i = id
    · subst hid
      exact fun hnone => hlive hnone f hf hi
    · rw [hcompl i hid]
      exact h.pending f hf i hi
  · rw [hframes] at hf
    rw [hgen]
    exact h.generation f hf hp
  · unfold StaleRetry
    rw [hfault]
    exact h.fault

/-- Only what the state says about completions, lists and frames matters. -/
theorem congr (h : Lifetime s) (hnext : s'.next = s.next)
    (hview : ∀ i, s'.view i = s.view i) (hgen : s'.generation = s.generation)
    (hfault : ¬ StaleRetry s')
    (hframes : ∀ f ∈ s'.frames, f.point.pending = [] ∨ f ∈ s.frames) : Lifetime s' := by
  have hcompl : ∀ i, s'.completions i = s.completions i :=
    fun i => congrArg View.completion (hview i)
  refine ⟨fun i hi => ?_, fun i => ?_, fun f hf i hi => ?_, fun f hf hp => ?_, hfault⟩
  · rw [hcompl]
    exact h.fresh i (hnext ▸ hi)
  · rw [hview]
    exact h.owned i
  · rcases hframes f hf with he | hm
    · rw [he] at hi
      exact absurd hi (by simp)
    · rw [hcompl]
      exact h.pending f hm i hi
  · rcases hframes f hf with he | hm
    · exact absurd he hp
    · rw [hgen]
      exact h.generation f hm hp

/-- The innermost loop may go on to a point that has nothing to retry, or
that has some of what it had. -/
theorem goto (h : Lifetime s) (p : Point)
    (hp : ∀ i ∈ p.pending, s.completions i ≠ none)
    (hg : p.pending ≠ [] → p.generation = some s.generation) :
    Lifetime (s.goto p) := by
  rw [goto_eq]
  refine ⟨h.fresh, h.owned, fun f hf => ?_, fun f hf => ?_, h.fault⟩
  · revert hf
    cases hfs : s.frames with
    | nil => simp [gotoFrames]
    | cons f₀ fs =>
      rintro hf i hi
      rcases List.mem_cons.mp hf with rfl | hf
      · exact hp i hi
      · exact h.pending f (by rw [hfs]; exact List.mem_cons_of_mem _ hf) i hi
  · revert hf
    cases hfs : s.frames with
    | nil => simp [gotoFrames]
    | cons f₀ fs =>
      rintro hf hne
      rcases List.mem_cons.mp hf with rfl | hf
      · exact hg hne
      · exact h.generation f (by rw [hfs]; exact List.mem_cons_of_mem _ hf) hne

/-- The innermost loop may go on to a point that has nothing to retry. -/
theorem goto_nil (h : Lifetime s) {p : Point} (hp : p.pending = []) :
    Lifetime (s.goto p) :=
  h.goto p (by rw [hp]; simp) (fun hne => absurd hp hne)

/-- A loop may be left. -/
theorem leave (h : Lifetime s) : Lifetime s.leave :=
  h.congr rfl (fun _ => rfl) rfl h.fault
    (fun _ hf => Or.inr (List.mem_of_mem_tail hf))

end Lifetime

/-! ## The members -/

section Members

variable {s : State} {id : RetrierId} {c : Completion}

/-- Occurrences at the completion a member is on are either old ones or in
the list it registers in. -/
theorem View.Owned.of_count {s' : State} (h : (s.view id).Owned)
    (hc : s.completions id = some c)
    (hc' : ∃ c', s'.completions id = some c' ∧ c.Same c')
    (hcount : ∀ fd d, (s'.view id).count fd d ≠ 0 →
      (s.view id).count fd d ≠ 0 ∨ c.op.slot = some (fd, d)) :
    (s'.view id).Owned := by
  obtain ⟨c', hc', hsame⟩ := hc'
  intro fd d hne
  rw [slot_of_same hc' hsame]
  rcases hcount fd d hne with hold | hslot
  · rw [← slot_of_same hc ⟨rfl, rfl⟩]
    exact h fd d hold
  · exact hslot

theorem Lifetime.tryOrResume (h : Lifetime s) (hc : s.completions id = some c)
    (r : Sys) : Lifetime (tryOrResume s id c r).1 := by
  have hc' := completion_tryOrResume_self s id c r
  refine h.of_view hc (shell_tryOrResume s id c r)
    (fun i hi => view_tryOrResume_of_ne s id i c r hi)
    ((h.owned id).of_count hc hc' (fun fd d hne => ?_)) (fun hnone => ?_)
  · rw [count_tryOrResume_self] at hne
    by_cases hs : c.op.slot = some (fd, d)
    · exact Or.inr hs
    · exact Or.inl (by simpa [hs] using hne)
  · obtain ⟨c', hc', -⟩ := hc'
    exact absurd (hc'.symm.trans hnone) (by simp)

theorem Lifetime.awaitSuspend (h : Lifetime s) (hc : s.completions id = some c)
    (a : Handle) (r : Sys) : Lifetime (awaitSuspend s id c a r).1 := by
  have hc' := completion_awaitSuspend_self s id c r a
  refine h.of_view hc (shell_awaitSuspend s id c r a)
    (fun i hi => view_awaitSuspend_of_ne s id i c r a hi)
    ((h.owned id).of_count hc hc' (fun fd d hne => ?_)) (fun hnone => ?_)
  · rw [count_awaitSuspend_self] at hne
    by_cases hs : c.op.slot = some (fd, d)
    · exact Or.inr hs
    · exact Or.inl (by simpa [hs] using hne)
  · obtain ⟨c', hc', -⟩ := hc'
    exact absurd (hc'.symm.trans hnone) (by simp)

theorem Lifetime.iopTimedout (h : Lifetime s) (hc : s.completions id = some c) :
    Lifetime (iopTimedout s id c).1 := by
  have hc' := completion_iopTimedout_self s id c
  refine h.of_view hc (shell_iopTimedout s id c)
    (fun i hi => view_iopTimedout_of_ne s id i c hi)
    ((h.owned id).of_count hc hc' (fun fd d hne => ?_)) (fun hnone => ?_)
  · rw [count_iopTimedout_self] at hne
    by_cases hs : c.op.slot = some (fd, d)
    · exact Or.inr hs
    · exact Or.inl (by simpa [hs] using hne)
  · obtain ⟨c', hc', -⟩ := hc'
    exact absurd (hc'.symm.trans hnone) (by simp)

/-- Destroying an IOP no pass has still to retry. Its completion occurred in
the list it registers in at most, and is taken out of that. -/
theorem Lifetime.iopDestructed (h : Lifetime s) (hc : s.completions id = some c)
    (hp : ∀ f ∈ s.frames, id ∉ f.point.pending) : Lifetime (iopDestructed s id c) := by
  refine h.of_view hc (shell_iopDestructed s id c) (fun i hi => ?_) ?_ (fun _ => hp)
  · rw [view_iopDestructed, if_neg hi]
  · rw [view_iopDestructed, if_pos rfl, view_cancelIop_self]
    intro fd d hne
    have hold : c.op.slot ≠ some (fd, d) ∧ (s.view id).count fd d ≠ 0 := by
      simpa using hne
    have hslot := h.owned id fd d hold.2
    rw [slot_of_same hc ⟨rfl, rfl⟩] at hslot
    exact absurd hslot hold.1

end Members

/-! ## The loop -/

section Loop

variable {s s' : State}

theorem Lifetime.createIop (h : Lifetime s) (call : Call) :
    Lifetime (createIop s call) := by
  have hnone := h.fresh s.next (le_refl _)
  refine ⟨fun i hi => ?_, fun i => ?_, fun f hf i hi => ?_, h.generation, h.fault⟩
  · have hlt : s.next < i := hi
    have hne : i ≠ s.next := ne_of_gt hlt
    rw [← view_completion, view_createIop, if_neg hne]
    exact h.fresh i (le_of_lt hlt)
  · rw [view_createIop]
    split
    case isTrue hi =>
      subst hi
      intro fd d hne
      have hslot := h.owned s.next fd d hne
      simp [View.slot, hnone] at hslot
    case isFalse hi => exact h.owned i
  · have hlive := h.pending f hf i hi
    have hne : i ≠ s.next := fun he => hlive (he ▸ hnone)
    rw [← view_completion, view_createIop, if_neg hne]
    exact hlive

/-- Collecting moves pointers from `requests` to the vector, which is the
only one in use. -/
theorem Lifetime.collect (h : Lifetime s) (hp : ∀ f ∈ s.frames, f.point.pending = [])
    (revents : SocketDescriptor → Revents) :
    Lifetime (collect s revents) ∧
      ∀ i ∈ (collect s revents).continuations, (collect s revents).completions i ≠ none := by
  let P : State → Prop := fun t => Lifetime t ∧
    ∀ i ∈ t.continuations, t.completions i ≠ none
  have hclear : P (clearContinuations s) := by
    refine ⟨⟨h.fresh, h.owned, h.pending, fun f hf hne => ?_, h.fault⟩, by
      simp [clearContinuations]⟩
    exact absurd (hp f hf) hne
  refine collect_rule (P := P) revents hclear (fun t ht => ?_) (fun t fd d ht => ?_)
  · exact ⟨ht.1.congr rfl (fun _ => rfl) rfl ht.1.fault (fun _ hf => Or.inr hf), ht.2⟩
  · have hcount : ∀ i fd' d', ((collectSide t fd d).view i).count fd' d' ≠ 0 →
        (t.view i).count fd' d' ≠ 0 := by
      intro i fd' d' hne
      have hr := registered_modifyRequests t fd fd' d d' (fun _ => [])
      simp only [State.view] at hne ⊢
      rw [show (collectSide t fd d).registered fd' d' = _ from hr] at hne
      split at hne
      · exact absurd List.count_nil hne
      · exact hne
    refine ⟨⟨ht.1.fresh, fun i fd' d' hne => ht.1.owned i fd' d' (hcount i fd' d' hne),
      ht.1.pending, ht.1.generation, ht.1.fault⟩, fun i hi => ?_⟩
    rcases List.mem_append.mp hi with hi | hi
    · exact ht.2 i hi
    · have hpos : (t.view i).count fd d ≠ 0 :=
        Nat.ne_of_gt (List.count_pos_iff.mpr hi)
      have hslot := ht.1.owned i fd d hpos
      intro hnone
      rw [View.slot, view_completion, show t.completions i = none from hnone] at hslot
      exact absurd hslot (by simp)

theorem Lifetime.doPollReturns (h : Lifetime s) : Lifetime (doPollReturns s) :=
  Lifetime.goto_nil (s := { s with resumer := s.resumer.swap })
    (h.congr rfl (fun _ => rfl) rfl h.fault (fun _ hf => Or.inr hf)) rfl

theorem Lifetime.doPoll (h : Lifetime s) (a : PollAnswer)
    (hok : KeepsCollected s (.poll a)) : Lifetime (doPoll s a) := by
  have hpolled := polled s a
  generalize PollWarden.doPoll s a = s₁ at hpolled ⊢
  cases hpolled with
  | returns => exact h.doPollReturns
  | throws => exact h.leave
  | collects hpos =>
    obtain ⟨hl, hcont⟩ := h.collect (hok hpos) a.revents
    exact hl.goto _ hcont (fun _ => rfl)

/-- An expired timer leaves the lists of `requests` in order. The pointers
in `timeouts` are another matter, and what following one of them comes to is
no fault of the continuation loop. -/
theorem Lifetime.clearTimeouts (h : Lifetime s) (f : Frame) (now : TimePoint)
    (done : Bool) : Lifetime (clearTimeouts s f now done) := by
  have hcleared := clearedTimeouts s f now done
  generalize PollWarden.clearTimeouts s f now done = s₁ at hcleared ⊢
  cases hcleared with
  | leaves => exact h.leave
  | polls => exact h.goto_nil rfl
  | fails =>
    refine ⟨h.fresh, h.owned, h.pending, h.generation, ?_⟩
    simp [StaleRetry, State.fail]
  | @timesOut t id l c he hdue hc p hp =>
    have h' : Lifetime { s with timeouts := s.timeouts.eraseBegin } :=
      ⟨h.fresh, h.owned, h.pending, h.generation, h.fault⟩
    refine (h'.iopTimedout hc).goto_nil ?_
    rcases hp with rfl | rfl <;> rfl

/-- The retrier the loop is at exists, and the loop goes on with the
rest. -/
theorem Lifetime.retryNext (h : Lifetime s) {f : Frame} {fs : List Frame}
    (hf : s.frames = f :: fs) {g : ℕ} {rest : List RetrierId}
    (hp : f.point = .continuations g rest) (r : Sys) :
    Lifetime (retryNext s g rest r) := by
  have hmem : f ∈ s.frames := by rw [hf]; exact List.mem_cons_self
  have hlive : ∀ i ∈ rest, s.completions i ≠ none := fun i hi =>
    h.pending f hmem i (by rw [hp]; exact hi)
  have hretried := retriedNext s g rest r
  generalize PollWarden.retryNext s g rest r = s₁ at hretried ⊢
  cases hretried with
  | returns => exact h.doPollReturns
  | fails id rest x hx =>
    have hgen := h.generation f hmem (by rw [hp]; exact List.cons_ne_nil _ _)
    rw [hp] at hgen
    have hgen : g = s.generation := Option.some.inj hgen
    exact absurd hx (not_or.mpr ⟨not_not.mpr hgen, hlive id List.mem_cons_self⟩)
  | @retries id rest c hg hc p hp' =>
    have h' : Lifetime (s.observe (.retried id)) :=
      h.congr rfl (fun _ => rfl) rfl h.fault (fun _ hf => Or.inr hf)
    have hl := h'.tryOrResume hc r
    have hpend : p.pending = rest := by rcases hp' with rfl | rfl <;> rfl
    have hpgen : p.generation = some g := by rcases hp' with rfl | rfl <;> rfl
    refine hl.goto p (fun i hi => ?_) (fun _ => ?_)
    · rw [hpend] at hi
      by_cases hid : i = id
      · subst hid
        obtain ⟨c', hc', -⟩ := completion_tryOrResume_self (s.observe (.retried i)) i c r
        rw [hc']
        exact Option.some_ne_none c'
      · rw [← view_completion, view_tryOrResume_of_ne _ _ _ _ _ hid]
        exact hlive i (List.mem_cons_of_mem _ hi)
    · rw [hpgen, hg]
      exact congrArg some (congrArg Shell.generation
        (shell_tryOrResume (s.observe (.retried id)) id c r)).symm

theorem Lifetime.resumeAllNext (h : Lifetime s) (f : Frame) (rest : List Handle) :
    Lifetime (resumeAllNext s f rest) := by
  have h' : Lifetime { s with resumer := s.resumer.clearResuming } :=
    h.congr rfl (fun _ => rfl) rfl h.fault (fun _ hf => Or.inr hf)
  have hresumed := resumedAllNext s f rest
  generalize PollWarden.resumeAllNext s f rest = s₁ at hresumed ⊢
  cases hresumed with
  | again => exact h'.goto_nil rfl
  | leaves => exact h'.leave
  | resumes a rest =>
    exact Lifetime.goto_nil (s := s.observe (.handle a))
      (h.congr rfl (fun _ => rfl) rfl h.fault (fun _ hf => Or.inr hf)) rfl

theorem Lifetime.suspend (h : Lifetime s) {f : Frame} (hf : f ∈ s.frames) {p : Point}
    (hp : f.point.afterSuspend = some p) : Lifetime (s.goto p) := by
  have hpend := Point.pending_afterSuspend hp
  refine h.goto p (fun i hi => h.pending f hf i (hpend ▸ hi)) (fun hne => ?_)
  rw [Point.generation_afterSuspend hp]
  exact h.generation f hf (hpend ▸ hne)

end Loop

/-! ## Every step, and every run -/

/-- **A step that takes nothing from a pass keeps the lifetimes.** -/
theorem Lifetime.step {s s' : State} {e : Event} (h : Lifetime s)
    (hok : KeepsCollected s e) (hs : step s e = some s') : Lifetime s' := by
  cases (stepped_of_step hs).2 with
  | create hu call => exact h.createIop call
  | await hu hc a r => exact h.awaitSuspend hc a r
  | destroy hu hc => exact h.iopDestructed hc hok
  | asyncResume hu handles written =>
    obtain ⟨n, he⟩ := doAsyncResume_eq s handles written
    rw [he]
    exact h.congr rfl (fun _ => rfl) rfl h.fault (fun _ hf => Or.inr hf)
  | runUntil hu coro =>
    refine h.congr rfl (fun _ => rfl) rfl h.fault (fun f hf => ?_)
    rcases List.mem_cons.mp hf with rfl | hf
    · exact Or.inl rfl
    · exact Or.inr hf
  | runBatch hu =>
    refine h.congr rfl (fun _ => rfl) rfl h.fault (fun f hf => ?_)
    rcases List.mem_cons.mp hf with rfl | hf
    · exact Or.inl rfl
    · exact Or.inr hf
  | suspend hf hp => exact h.suspend (by rw [hf]; exact List.mem_cons_self) hp
  | clock hf hp now done => exact h.clearTimeouts _ now done
  | poll hf hp a => exact h.doPoll a hok
  | retry hf hp r => exact h.retryNext hf hp r
  | resumeNext hf hp => exact h.resumeAllNext _ _

theorem lifetime_init (w : SocketDescriptor) : Lifetime (init w) where
  fresh := fun _ _ => rfl
  owned := fun i fd d hne => by
    cases d <;> exact absurd (List.count_nil (a := i)) hne
  pending := fun f hf => absurd hf (by simp [init])
  generation := fun f hf => absurd hf (by simp [init])
  fault := by simp [StaleRetry, init]

/-- **Every run that takes nothing from a pass keeps the lifetimes.** -/
theorem lifetime_of_run {w : SocketDescriptor} {es : List Event} {s : State}
    (h : Run step KeepsCollected (init w) es s) : Lifetime s :=
  h.invariant (fun _ _ _ hs hok he => hs.step hok he) (lifetime_init w)

/-! ## When something is taken from a pass

The condition cannot be dropped: destroying the IOP of a retrier the
innermost pass has still to reach leads to a stale retry, whatever the
retriers before it do. -/

section Converse

/-- A deleted completion that the continuation loop has still to retry. -/
theorem exists_staleRetry_of_pending (rest : List RetrierId) :
    ∀ (s : State) (f : Frame) (fs : List Frame) (g : ℕ) (id : RetrierId),
      s.fault = none → s.frames = f :: fs → f.point = .continuations g rest →
      id ∈ rest → s.completions id = none →
      ∃ es s', Run step always s es s' ∧ StaleRetry s' := by
  -- the pass retries what is in front of the one that has been deleted, and each
  -- of these leaves it deleted
  induction rest with
  | nil => intro s f fs g id _ _ _ hid; exact absurd hid (by simp)
  | cons j rest ih =>
    intro s f fs g id hfault hf hp hid hnone
    have hstep : ∀ r, step s (.retry r) = some (retryNext s g (j :: rest) r) := fun r => by
      unfold step
      simp [hfault, hf, hp, Point.userRuns, loopStep]
    by_cases hg : g = s.generation
    · cases hj : s.completions j with
      | none =>
        refine ⟨[.retry ⟨0, 0, 0⟩], s.fail (.retriedDeleted j),
          Run.single trivial ?_, Or.inr ⟨j, rfl⟩⟩
        rw [hstep]
        simp [retryNext, hg, hj]
      | some c =>
        -- the retrier at the head exists, so it is another one
        have hne : id ≠ j := fun he => by rw [he, hj] at hnone; exact absurd hnone (by simp)
        have hid' : id ∈ rest := (List.mem_cons.mp hid).resolve_left hne
        let st := tryOrResume (s.observe (.retried j)) j c ⟨0, 0, 0⟩
        have hshell : st.1.shell = s.shell := shell_tryOrResume _ _ _ _
        have hframes : st.1.frames = f :: fs := (congrArg Shell.frames hshell).trans hf
        have hfault' : st.1.fault = none := (congrArg Shell.fault hshell).trans hfault
        have hnone' : st.1.completions id = none := by
          rw [← view_completion, view_tryOrResume_of_ne _ _ _ _ _ hne]
          exact hnone
        have hnext : retryNext s g (j :: rest) ⟨0, 0, 0⟩
            = afterTransfer st (.retried g rest) (.continuations g rest) := by
          simp [retryNext, hg, hj, st]
        have hrun := hstep ⟨0, 0, 0⟩
        rw [hnext] at hrun
        have hgoto : ∀ p, (st.1.goto p).frames = { f with point := p } :: fs ∧
            (st.1.goto p).fault = none ∧ (st.1.goto p).completions id = none := fun p => by
          rw [goto_eq]
          exact ⟨by rw [hframes]; rfl, hfault', hnone'⟩
        obtain ⟨p, hp', he⟩ := afterTransfer_eq (.retried g rest) (.continuations g rest) st
        rw [he] at hrun
        obtain ⟨hpf, hpx, hpn⟩ := hgoto p
        rcases hp' with rfl | rfl
        · have hsusp : step (st.1.goto (.retried g rest)) .suspend
              = some ((st.1.goto (.retried g rest)).goto (.continuations g rest)) := by
            unfold step
            simp [hpx, hpf, Point.userRuns, userStep, Point.afterSuspend]
          obtain ⟨es, s', hr, hst⟩ :=
            ih ((st.1.goto (.retried g rest)).goto (.continuations g rest))
              { f with point := .continuations g rest } fs g id
              (by rw [goto_eq]; exact hpx) (by rw [goto_eq, hpf]; rfl) rfl hid'
              (by rw [goto_eq]; exact hpn)
          exact ⟨_, s', Run.cons trivial hrun (Run.cons trivial hsusp hr), hst⟩
        · obtain ⟨es, s', hr, hst⟩ := ih _ { f with point := .continuations g rest } fs g id
            hpx hpf rfl hid' hpn
          exact ⟨_, s', Run.cons trivial hrun hr, hst⟩
    · refine ⟨[.retry ⟨0, 0, 0⟩], s.fail .invalidIterator, Run.single trivial ?_, Or.inl rfl⟩
      rw [hstep]
      simp [retryNext, hg]

/-- Destroying the IOP of a retrier the innermost pass has still to
reach. -/
theorem exists_staleRetry_of_destroy {s s' : State} {f : Frame} {fs : List Frame}
    {id : RetrierId} (hf : s.frames = f :: fs) (hid : id ∈ f.point.pending)
    (hs : step s (.destroy id) = some s') :
    ∃ es s'', Run step always s' es s'' ∧ StaleRetry s'' := by
  unfold step at hs
  split at hs
  case isTrue hfault => exact absurd hs (by simp)
  case isFalse hfault =>
    rw [hf] at hs
    dsimp only at hs
    split at hs
    case isFalse hu => exact absurd hs (by simp [loopStep])
    case isTrue hu =>
      obtain ⟨c, hc, rfl⟩ := Option.map_eq_some_iff.mp hs
      cases hp : f.point with
      | retried g rest =>
        rw [hp] at hid
        have hshell := shell_iopDestructed s id c
        have hframes : (iopDestructed s id c).frames = f :: fs :=
          (congrArg Shell.frames hshell).trans hf
        have hfault' : (iopDestructed s id c).fault = none :=
          (congrArg Shell.fault hshell).trans (not_not.mp hfault)
        have hnone : (iopDestructed s id c).completions id = none := by
          rw [← view_completion, view_iopDestructed, if_pos rfl]
        have hsusp : step (iopDestructed s id c) .suspend
            = some ((iopDestructed s id c).goto (.continuations g rest)) := by
          unfold step
          simp [hfault', hframes, hp, Point.userRuns, userStep, Point.afterSuspend]
        obtain ⟨es, s', hr, hst⟩ := exists_staleRetry_of_pending rest
          ((iopDestructed s id c).goto (.continuations g rest))
          { f with point := .continuations g rest } fs g id
          (by rw [goto_eq]; exact hfault') (by rw [goto_eq, hframes]; rfl) rfl hid
          (by rw [goto_eq]; exact hnone)
        exact ⟨_, s', Run.cons trivial hsusp hr, hst⟩
      | continuations g rest => rw [hp] at hu; exact absurd hu (by simp [Point.userRuns])
      | _ => rw [hp] at hid; exact absurd hid (by simp [Point.pending])

end Converse

/-! ## The continuation loop -/

/-- Two reads wait on two descriptors, and both become ready in one pass. -/
def twoReadsReady : List Event :=
  [.create (.readSome 5 1 none), .create (.readSome 6 1 none), .runUntil 1,
    .await 0 2 ⟨-1, EAGAIN, 0⟩, .await 1 3 ⟨-1, EAGAIN, 0⟩, .suspend, .clock 0 false,
    .poll { ret := 2, revents := fun fd => { pollin := fd = 5 || fd = 6 } },
    .retry ⟨1, 0, 0⟩]

end PollWarden
