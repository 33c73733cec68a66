import Felspar.PollConnectTimers
import Felspar.PollRegistration
import Felspar.PollTimers
import Mathlib.Data.List.Perm.Subperm

/-!
# One call of `clear_timeouts`

`clear_timeouts` times out the first deadline of `timeouts` for as long as it
is due, and reads the container anew every time. A coroutine that it resumes
may file another deadline, and when that is due as well the same call goes on
with it: a coroutine that waits again whenever it is resumed keeps the call
from returning, and the loop from polling. `resume_all` takes care that this
cannot happen to it.

A call is followed from any of its states on, through the coroutines it
resumes and the loops that they enter.
-/

namespace PollWarden

/-! ## A call and what it has done -/

/-- The completion that `clear_timeouts` times out when the clock reads
`now`. -/
def State.firstDue (s : State) (now : TimePoint) : Option RetrierId :=
  match s.timeouts.entries with
  | [] => none
  | (t, id) :: _ =>
    if clearTimeoutsResult t now = none ∧ (s.completions id).isSome then some id else none

/-- The connects that are filed again, for `errno` says that they are in
progress. -/
def State.filedAgain (s : State) : Event → List RetrierId
  | .retry r => s.pending.filter (fun id => decide (Rearms id s (.retry r))
      && (s.completions id).any (fun c => c.op.isConnect))
  | _ => []

/-- **A call of `clear_timeouts`**: the warden, the IOPs that have been
awaited and the connects that have been filed again since the call began, and
those that the call has timed out. -/
structure TimerPass where
  warden : State
  awaited : List RetrierId := []
  filedAgain : List RetrierId := []
  timedOut : List RetrierId := []

namespace TimerPass

/-- The IOP an event awaits. -/
def awaits : Event → List RetrierId
  | .await id _ _ => [id]
  | _ => []

/-- The IOP that the call of the loop number `n`, counted from the outermost,
times out. -/
def timesOut (n : ℕ) (s : State) : Event → List RetrierId
  | .clock now _ => if s.frames.length = n then (s.firstDue now).toList else []
  | _ => []

/-- A step of the warden during the call. -/
def step (n : ℕ) (x : TimerPass) (e : Event) : Option TimerPass :=
  (PollWarden.step x.warden e).map (fun s =>
    { warden := s
      awaited := awaits e ++ x.awaited
      filedAgain := x.warden.filedAgain e ++ x.filedAgain
      timedOut := timesOut n x.warden e ++ x.timedOut })

/-- The call has not returned: its loop is in it, or a coroutine that it has
resumed has entered another loop. -/
def Runs (n : ℕ) (x : TimerPass) : Prop :=
  n < x.warden.frames.length ∨ (x.warden.frames.length = n
    ∧ ∃ f ∈ x.warden.frames.head?, f.point = .clearTimeouts ∨ f.point = .timedOut)

instance (n : ℕ) (x : TimerPass) : Decidable (x.Runs n) := inferInstanceAs (Decidable (_ ∨ _))

/-- **What is filed during the call can wait**: when the call reads the clock,
the first deadline is not due, or has been filed before. -/
def Keeps (n : ℕ) (x : TimerPass) : Event → Prop
  | .clock now _ => x.warden.frames.length = n →
      ∀ id ∈ x.warden.firstDue now, id ∉ x.awaited ∧ id ∉ x.filedAgain
  | _ => True

instance (n : ℕ) : DecidableRel (Keeps n) := fun x e =>
  match e with
  | .clock now _ => inferInstanceAs (Decidable (x.warden.frames.length = n →
      ∀ id ∈ x.warden.firstDue now, id ∉ x.awaited ∧ id ∉ x.filedAgain))
  | .create _ | .await _ _ _ | .destroy _ | .asyncResume _ _ | .runUntil _ | .runBatch | .suspend
  | .poll _ | .retry _ | .resumeNext => inferInstanceAs (Decidable True)

end TimerPass

/-! ## What a step does to the deadlines -/

section Lengths

variable {s s' : State} {id : RetrierId} {e : Event} {now : TimePoint} {done : Bool}

/-- As often as it is filed, a completion is an entry of `timeouts`. -/
theorem count_entries (s : State) (id : RetrierId) :
    (s.timeouts.entries.map Prod.snd).count id = (s.timeouts.keysOf id).length := by
  unfold Multimap.keysOf
  rw [List.length_map, ← List.countP_eq_length_filter, List.count, List.countP_map]
  exact List.countP_congr (fun x _ => by simp)

/-- A try that does not file the connect again files nothing. -/
theorem length_keys_tryOrResume {c : Completion} {r : Sys}
    (h : c.op.waits r = true → c.op.isConnect = false) :
    ((tryOrResume s id c r).1.timeouts.keysOf id).length ≤ (s.timeouts.keysOf id).length := by
  rw [tryOrResume_eq]
  split
  case isTrue hw =>
    have hagain : (registerAgain (called s id c.op r) id c).timeouts = s.timeouts := by
      unfold registerAgain
      split
      · exact timeouts_called c.op
      · split
        case h_1 hop => exact absurd (h hw) (by rw [hop]; simp [Op.isConnect])
        case h_2 => exact timeouts_called c.op
    show ((registerAgain (called s id c.op r) id c).timeouts.keysOf id).length ≤ _
    rw [hagain]
  case isFalse hw =>
    show ((cancelTimeout (called s id c.op r) id _).timeouts.keysOf id).length ≤ _
    unfold cancelTimeout
    split
    · show ((called s id c.op r).timeouts.eraseFirst id |>.keysOf id).length ≤ _
      rw [Multimap.keysOf_eraseFirst_self, List.length_tail, timeouts_called]
      exact Nat.sub_le _ _
    · rw [timeouts_called]

/-- **Nothing is filed more often after a step** than before it, but what is
awaited, and the connects that are filed again. -/
theorem length_keys_of_step (hs : step s e = some s') (ha : id ∉ TimerPass.awaits e)
    (hr : id ∉ s.filedAgain e) :
    (s'.timeouts.keysOf id).length ≤ (s.timeouts.keysOf id).length := by
  by_cases hid : Subject s id e
  swap
  · exact le_of_eq (congrArg (fun k : Core => k.keys.length) (core_of_step hs hid))
  cases steppedOn_of_step hs hid with
  | create => exact le_refl _
  | await => exact absurd (List.mem_singleton.mpr rfl) ha
  | @destroy c hc =>
    have hview : ((iopDestructed s id c).view id).keys
        = if c.deadline.isSome then (s.view id).keys.tail else (s.view id).keys := by
      rw [view_iopDestructed, if_pos rfl, view_cancelIop_self]
      show ((cancelTimeout s id c).view id).keys = _
      rw [view_cancelTimeout_self]
    show ((iopDestructed s id c).view id).keys.length ≤ _
    rw [hview]
    split_ifs
    · rw [List.length_tail]
      exact Nat.sub_le _ _
    · exact le_refl _
  | leaves => exact le_refl _
  | polls => rw [timeouts_goto]
  | timeOutFails he =>
    show (s.timeouts.eraseBegin.keysOf id).length ≤ _
    rw [Multimap.keysOf_eraseBegin_self he, List.length_cons]
    exact Nat.le_succ _
  | timesOut hf hp he =>
    rw [timeouts_goto, timeouts_iopTimedout, Multimap.keysOf_eraseBegin_self he, List.length_cons]
    exact Nat.le_succ _
  | retryFails => exact le_refl _
  | @retries f fs hf rest hp c hc r =>
    rw [timeouts_goto]
    refine length_keys_tryOrResume (s := s.observe (.retried id)) (fun hw => ?_)
    -- a connect that has to wait again is one that is filed again
    by_contra hconnect
    refine hr (List.mem_filter.mpr ⟨?_, ?_⟩)
    · rw [State.pending_eq hf, hp]
      exact List.mem_cons_self
    · rw [Bool.not_eq_false] at hconnect
      obtain ⟨fd, hop⟩ : ∃ fd, c.op = .connect fd := by
        cases ho : c.op with
        | connect fd => exact ⟨fd, rfl⟩
        | _ => rw [ho] at hconnect; exact absurd hconnect (by simp [Op.isConnect])
      have hrearms : Rearms id s (.retry r) := by
        refine ⟨hid, by rw [hc]; rfl, ?_⟩
        rw [hop] at hw
        exact (waits_connect_iff fd r).mp hw
      simp [hc, hconnect, hrearms]

/-- What is timed out is filed once less. -/
theorem length_keys_of_firstDue (hs : step s (.clock now done) = some s')
    (hdue : s.firstDue now = some id) :
    (s'.timeouts.keysOf id).length + 1 = (s.timeouts.keysOf id).length := by
  unfold State.firstDue at hdue
  cases he : s.timeouts.entries with
  | nil => rw [he] at hdue; cases hdue
  | cons x l =>
    obtain ⟨t, j⟩ := x
    rw [he] at hdue
    dsimp only at hdue
    split_ifs at hdue with hcond
    obtain rfl : j = id := Option.some.inj hdue
    have hvalue : clearTimeoutsValue s now = none := by
      rw [clearTimeoutsValue, he]
      exact hcond.1
    have hentries : s'.timeouts.keysOf j = s.timeouts.eraseBegin.keysOf j := by
      unfold Multimap.keysOf
      rw [timeouts_of_due hs hvalue, Multimap.entries_eraseBegin]
    rw [hentries, Multimap.keysOf_eraseBegin_self he, List.length_cons]

end Lengths

/-! ## A call that keeps to what it began with -/

/-- **No timer is timed out more often than it was filed** when the call
began; one that has not been filed since is filed less for it. -/
def TimerPass.Bounded (s₀ : State) (x : TimerPass) : Prop :=
  ∀ id, x.timedOut.count id ≤ (s₀.timeouts.keysOf id).length
    ∧ (id ∉ x.awaited → id ∉ x.filedAgain →
      x.timedOut.count id + (x.warden.timeouts.keysOf id).length
        ≤ (s₀.timeouts.keysOf id).length)

section Bounded

variable {n : ℕ} {s₀ : State} {x x' : TimerPass} {e : Event}

theorem TimerPass.step_eq (h : TimerPass.step n x e = some x') :
    PollWarden.step x.warden e = some x'.warden ∧ x'.awaited = awaits e ++ x.awaited
      ∧ x'.filedAgain = x.warden.filedAgain e ++ x.filedAgain
      ∧ x'.timedOut = timesOut n x.warden e ++ x.timedOut := by
  obtain ⟨s, hs, rfl⟩ := Option.map_eq_some_iff.mp h
  exact ⟨hs, rfl, rfl, rfl⟩

/-- What a step of the call times out. -/
theorem TimerPass.timesOut_cases (n : ℕ) (s : State) (e : Event) :
    timesOut n s e = [] ∨ ∃ now done id, e = .clock now done ∧ s.frames.length = n
      ∧ s.firstDue now = some id ∧ timesOut n s e = [id] := by
  cases e with
  | clock now done =>
    have he : timesOut n s (.clock now done)
        = if s.frames.length = n then (s.firstDue now).toList else [] := rfl
    rw [he]
    by_cases hn : s.frames.length = n
    · rw [if_pos hn]
      cases hdue : s.firstDue now with
      | none => exact Or.inl rfl
      | some id => exact Or.inr ⟨now, done, id, rfl, hn, hdue, rfl⟩
    · rw [if_neg hn]
      exact Or.inl rfl
  | _ => exact Or.inl rfl

theorem TimerPass.Bounded.step (h : x.Bounded s₀) (hok : x.Keeps n e)
    (hs : TimerPass.step n x e = some x') : x'.Bounded s₀ := by
  obtain ⟨hstep, hawaited, hagain, htimedOut⟩ := TimerPass.step_eq hs
  intro id
  obtain ⟨hcount, hfiled⟩ := h id
  -- what has not been filed by now has not been filed in this step
  have hsplit : id ∉ x'.awaited → id ∉ x'.filedAgain →
      (id ∉ x.awaited ∧ id ∉ x.filedAgain)
        ∧ (x'.warden.timeouts.keysOf id).length ≤ (x.warden.timeouts.keysOf id).length := by
    rw [hawaited, hagain]
    intro ha hr
    have ha := not_or.mp (fun hm => ha (List.mem_append.mpr hm))
    have hr := not_or.mp (fun hm => hr (List.mem_append.mpr hm))
    exact ⟨⟨ha.2, hr.2⟩, length_keys_of_step hstep ha.1 hr.1⟩
  rcases TimerPass.timesOut_cases n x.warden e with hnone | ⟨now, done, j, rfl, hn, hdue, hone⟩
  · rw [htimedOut, hnone, List.nil_append]
    refine ⟨hcount, fun ha hr => ?_⟩
    obtain ⟨⟨ha, hr⟩, hle⟩ := hsplit ha hr
    have hbefore := hfiled ha hr
    omega
  · rw [htimedOut, hone, List.singleton_append]
    by_cases hj : j = id
    · subst hj
      obtain ⟨ha, hr⟩ := hok hn j hdue
      have hbefore := hfiled ha hr
      have hless := length_keys_of_firstDue hstep hdue
      rw [List.count_cons_self]
      exact ⟨by omega, fun _ _ => by omega⟩
    · rw [List.count_cons_of_ne hj]
      refine ⟨hcount, fun ha hr => ?_⟩
      obtain ⟨⟨ha, hr⟩, hle⟩ := hsplit ha hr
      have hbefore := hfiled ha hr
      omega

end Bounded

/-! ## IOPs that have not been awaited -/

/-- **Nothing is known of an IOP that has not been awaited**, but its
completion. -/
structure Untouched (id : RetrierId) (s : State) : Prop where
  keys : s.timeouts.keysOf id = []
  count : ∀ fd d, (s.view id).count fd d = 0
  inHand : s.inHand id = 0

section Untouched

variable {s s' : State} {id : RetrierId} {c : Completion} {e : Event}

theorem stage_awaitSuspend_ne_created (a : Handle) (r : Sys) :
    (awaitSuspend s id c a r).1.stage id ≠ .created := by
  rw [← view_stage]
  rcases awaitSuspend_cases s id c r a _ rfl with
    ⟨fd, -, he⟩ | ⟨fd, d, -, -, he⟩ | ⟨-, he⟩
  · rw [he]
    unfold connectAwaitSuspend
    dsimp only
    split_ifs
    · rw [view_returnHandle, if_pos rfl]
      exact Stage.noConfusion
    · rw [view_returnNoop, if_pos rfl]
      exact Stage.noConfusion
    · rw [view_returnHandle, if_pos rfl]
      exact Stage.noConfusion
  · rw [he, readyAwaitSuspend, view_returnNoop, if_pos rfl]
    exact Stage.noConfusion
  · rw [he, view_stage, stage_tryOrResume_self]
    exact stageOf_ne_created _

/-- An IOP that has not been awaited was not before. -/
theorem created_of_step (hs : step s e = some s') (h : s'.stage id = .created) :
    s.stage id = .created := by
  by_cases hid : Subject s id e
  swap
  · have hstage : s'.stage id = s.stage id := congrArg Core.stage (core_of_step hs hid)
    rw [← hstage]
    exact h
  cases steppedOn_of_step hs hid with
  | create => exact h
  | await hc a r => exact absurd h (stage_awaitSuspend_ne_created a r)
  | destroy =>
    rw [← view_stage, view_iopDestructed, if_pos rfl] at h
    cases h
  | leaves => exact h
  | polls => exact stage_goto s _ ▸ h
  | timeOutFails => exact h
  | timesOut =>
    rw [stage_goto, stage_iopTimedout_self] at h
    cases h
  | retryFails => exact h
  | retries =>
    rw [stage_goto, stage_tryOrResume_self] at h
    exact absurd h (stageOf_ne_created _)

theorem Untouched.step (h : Untouched id s) (hg : Generations s) (hs : step s e = some s')
    (hst : s'.stage id = .created) : Untouched id s' := by
  by_cases hid : Subject s id e
  · cases (stepped_of_step hs).2 with
    | create hu call =>
      refine ⟨h.keys, fun fd d => ?_, h.inHand⟩
      rw [view_createIop]
      split <;> exact h.count fd d
    | @await hu j c hc a r =>
      obtain rfl : j = id := hid
      exact absurd hst (stage_awaitSuspend_ne_created a r)
    | @destroy hu j c hc =>
      obtain rfl : j = id := hid
      rw [← view_stage, view_iopDestructed, if_pos rfl] at hst
      cases hst
    | clock hf hp now done =>
      obtain ⟨t, hhead⟩ := hid
      exact absurd (List.mem_of_mem_head? hhead) (s.timeouts.keysOf_eq_nil_iff.mp h.keys t)
    | @retry f fs hf g rest hp r =>
      cases rest with
      | nil => exact absurd hid (not_retries_nil hf hp)
      | cons j rest =>
        obtain ⟨rfl, rfl⟩ := (retries_iff hf hp).mp hid
        have hhand := inHand_of_retries hf hp
        rw [h.inHand] at hhand
        omega
    | _ => exact False.elim hid
  · cases moved_of_step hs hid with
    | stays hview hlog hhand =>
      exact ⟨(congrArg View.keys hview).trans h.keys, hview ▸ h.count,
        Nat.eq_zero_of_le_zero (h.inHand ▸ hhand)⟩
    | collects hf a =>
      obtain ⟨hlists, hvector⟩ := count_collect_zero a.revents h.count
      have hcore : (collect s a.revents).core id = s.core id := core_collect a.revents
      refine ⟨?_, ?_, (inHand_collects id hg hf a.revents).trans hvector⟩
      · have hkeys := congrArg View.keys (view_goto (i := id) (collect s a.revents)
          (.continuations (collect s a.revents).generation (collect s a.revents).continuations))
        exact (hkeys.trans (congrArg Core.keys hcore)).trans h.keys
      · rw [view_goto]
        exact hlists

theorem untouched_of_run {w : SocketDescriptor} {es : List Event}
    (h : Run step always (init w) es s) :
    Generations s ∧ ∀ id, s.stage id = .created → Untouched id s := by
  refine h.invariant (P := fun s => Generations s ∧ ∀ id, s.stage id = .created → Untouched id s)
    (fun s e s' hP _ hs => ⟨hP.1.step hs, fun id hst =>
      (hP.2 id (created_of_step hs hst)).step hP.1 hs hst⟩)
    ⟨generations_init w, fun id _ => ?_⟩
  have hunborn := unborn_init w id
  exact ⟨congrArg View.keys hunborn.view, fun fd d => by rw [hunborn.view], hunborn.inHand⟩

end Untouched

/-! ## When a call keeps to what it began with -/

namespace TimerPass

/-- The call begins, or goes on, in a state. -/
def begins (s : State) : TimerPass := { warden := s }

/-- **A call keeps to what it began with**: it has timed out only what was
filed when it began, and nothing more often than it was filed. -/
def Pending (s₀ : State) (x : TimerPass) : Prop :=
  List.Subperm x.timedOut (s₀.timeouts.entries.map Prod.snd)

instance (s₀ : State) (x : TimerPass) : Decidable (x.Pending s₀) :=
  decidable_of_iff (∀ id ∈ x.timedOut, x.timedOut.count id
      ≤ (s₀.timeouts.entries.map Prod.snd).count id) List.subperm_ext_iff.symm

/-- The call goes on; every IOP is awaited once, and no connect is filed
again. -/
def Once (n : ℕ) (x : TimerPass) (e : Event) : Prop :=
  x.Runs n ∧ (∀ id ∈ awaits e, x.warden.stage id = .created) ∧ x.warden.filedAgain e = []

instance (n : ℕ) : DecidableRel (Once n) := fun _ _ => inferInstanceAs (Decidable (_ ∧ _))

/-- Nothing is filed in a call but what is awaited there for the first
time. -/
structure Awaited (s₀ : State) (x : TimerPass) : Prop where
  awaited : ∀ id ∈ x.awaited, s₀.stage id = .created
  created : ∀ id, x.warden.stage id = .created → s₀.stage id = .created
  filedAgain : x.filedAgain = []

variable {n : ℕ} {s₀ : State} {x x' : TimerPass} {e : Event}

theorem Bounded.pending (h : x.Bounded s₀) : x.Pending s₀ :=
  List.subperm_iff_count.mpr (fun id => by rw [count_entries]; exact (h id).1)

theorem bounded_begins : (begins s₀).Bounded s₀ := fun _ =>
  ⟨Nat.zero_le _, fun _ _ => le_of_eq (Nat.zero_add _)⟩

theorem Awaited.step (h : x.Awaited s₀) (hok : x.Once n e)
    (hs : TimerPass.step n x e = some x') : x'.Awaited s₀ := by
  obtain ⟨hstep, hawaited, hagain, -⟩ := step_eq hs
  refine ⟨fun id hid => ?_, fun id hst => h.created id (created_of_step hstep hst), ?_⟩
  · rw [hawaited] at hid
    rcases List.mem_append.mp hid with hid | hid
    · cases e with
      | await j a r =>
        obtain rfl : id = j := List.mem_singleton.mp hid
        exact h.created id (hok.2.1 id (List.mem_singleton.mpr rfl))
      | _ => cases hid
    · exact h.awaited id hid
  · rw [hagain, hok.2.2, h.filedAgain]
    rfl

/-- A deadline that is filed in the call and found due there is none of those
it began with. -/
theorem Awaited.keeps (h : x.Awaited s₀) (h₀ : ∀ id, s₀.stage id = .created → Untouched id s₀)
    (hs : TimerPass.step n x e = some x') (hp : x'.Pending s₀) : x.Keeps n e := by
  obtain ⟨-, -, -, htimedOut⟩ := step_eq hs
  cases e with
  | clock now done =>
    intro hn id hdue
    refine ⟨fun hid => ?_, by rw [h.filedAgain]; exact List.not_mem_nil⟩
    have hone : timesOut n x.warden (.clock now done) = [id] := by
      have he : timesOut n x.warden (.clock now done)
          = if x.warden.frames.length = n then (x.warden.firstDue now).toList else [] := rfl
      rw [he, if_pos hn, hdue]
      rfl
    have hcount := List.subperm_iff_count.mp hp id
    rw [htimedOut, hone, List.singleton_append, List.count_cons_self, count_entries,
      (h₀ id (h.awaited id hid)).keys] at hcount
    cases hcount
  | _ => trivial

/-- **A reading at which nothing is due ends the call.** -/
theorem not_runs_of_firstDue {now : TimePoint} {done : Bool} (hn : x.warden.frames.length = n)
    (hs : TimerPass.step n x (.clock now done) = some x') (hdue : x.warden.firstDue now = none)
    (hfault : x'.warden.fault = none) : ¬ x'.Runs n := by
  obtain ⟨hstep, -⟩ := step_eq hs
  unfold Runs
  generalize x'.warden = s' at hstep hfault ⊢
  generalize x.warden = s at hn hstep hdue
  cases (stepped_of_step hstep).2 with
  | @clock f fs hf hp now done =>
    rw [hf, List.length_cons] at hn
    have hcleared := clearedTimeouts s f now done
    generalize clearTimeouts s f now done = s₁ at hcleared hfault ⊢
    cases hcleared with
    | leaves =>
      show ¬ (n < (s.frames.tail).length ∨ (s.frames.tail).length = n ∧ _)
      rw [hf, List.tail_cons]
      omega
    | polls hkeep t =>
      rw [goto_eq]
      show ¬ (n < (gotoFrames (.doPoll t) s.frames).length
        ∨ (gotoFrames (.doPoll t) s.frames).length = n
          ∧ ∃ f ∈ (gotoFrames (.doPoll t) s.frames).head?, _)
      rw [hf]
      rintro (hlt | ⟨-, f', hf', hpoint⟩)
      · rw [gotoFrames, List.length_cons] at hlt
        omega
      · obtain rfl : { f with point := .doPoll t } = f' := Option.some.inj hf'
        rcases hpoint with hpoint | hpoint <;> cases hpoint
    | fails => exact absurd hfault (Option.some_ne_none _)
    | @timesOut t j l c he hnow hc p hp' =>
      unfold State.firstDue at hdue
      rw [he] at hdue
      simp [hnow, hc] at hdue

end TimerPass

/-- **A timer pass ends**: a call in which nothing that is filed meanwhile is
found due times out only what was filed when it began, and nothing more often
than that, and the first reading at which nothing is due ends it. Where every
IOP is awaited once and no connect is filed again, only such calls keep to what
they began with. -/
theorem timerPass_pending (s₀ : State) :
    (∀ es x, Run (TimerPass.step s₀.frames.length)
        (fun x e => x.Runs s₀.frames.length ∧ x.Keeps s₀.frames.length e) (.begins s₀) es x →
      x.Pending s₀ ∧ x.timedOut.length ≤ s₀.timeouts.entries.length)
    ∧ (∀ x now done x', x.warden.frames.length = s₀.frames.length →
      TimerPass.step s₀.frames.length x (.clock now done) = some x' →
      x.warden.firstDue now = none → x'.warden.fault = none → ¬ x'.Runs s₀.frames.length)
    ∧ ∀ w es₀, Run step always (init w) es₀ s₀ → ∀ es x,
      (Run (TimerPass.step s₀.frames.length) (fun x e => x.Once s₀.frames.length e
          ∧ ∀ x', TimerPass.step s₀.frames.length x e = some x' → x'.Pending s₀) (.begins s₀) es x
        ↔ Run (TimerPass.step s₀.frames.length) (fun x e => x.Once s₀.frames.length e
          ∧ x.Keeps s₀.frames.length e) (.begins s₀) es x) := by
  refine ⟨fun es x h => ?_, fun x now done x' => TimerPass.not_runs_of_firstDue,
    fun w es₀ h₀ es x => ⟨fun h => ?_, fun h => ?_⟩⟩
  · have hpending := (h.invariant (P := TimerPass.Bounded s₀)
      (fun x e x' hP hok hs => hP.step hok.2 hs) TimerPass.bounded_begins).pending
    have hlength := hpending.length_le
    rw [List.length_map] at hlength
    exact ⟨hpending, hlength⟩
  · have hbegins : (TimerPass.begins s₀).Awaited s₀ :=
      ⟨fun id hid => absurd hid List.not_mem_nil, fun _ hst => hst, rfl⟩
    exact h.imp (P := TimerPass.Awaited s₀)
      (fun x e x' hP hok hs => ⟨⟨hok.1, hP.keeps (untouched_of_run h₀).2 hs (hok.2 x' hs)⟩,
        hP.step hok.1 hs⟩) hbegins
  · refine h.imp (P := TimerPass.Bounded s₀) (fun x e x' hP hok hs => ?_)
      TimerPass.bounded_begins
    refine ⟨⟨hok.1, fun x'' hs' => ?_⟩, hP.step hok.2 hs⟩
    exact (hP.step hok.2 hs').pending

/-- Two coroutines sleep, one longer than the other. -/
def twoSleeps : List Event :=
  [.runUntil 1, .create (.sleep 0 5000000), .create (.sleep 0 9000000), .await 0 2 ⟨0, 0, 0⟩,
    .await 1 3 ⟨0, 0, 0⟩, .suspend]

/-- The first of them is resumed, and sleeps on. -/
def firstSleepsOn : List Event :=
  [.clock 5000000 false, .destroy 0, .create (.sleep 5000000 5000000), .await 2 2 ⟨0, 0, 0⟩,
    .suspend, .clock 5000000 false]

theorem timerPass_pending_twoSleeps :
    ∃ s₀ x, Run step always (init 3) twoSleeps s₀
      ∧ Run (TimerPass.step s₀.frames.length) (fun x e => x.Once s₀.frames.length e
          ∧ ∀ x', TimerPass.step s₀.frames.length x e = some x' → x'.Pending s₀)
        (.begins s₀) firstSleepsOn x
      ∧ x.Pending s₀ ∧ x.timedOut.length ≤ s₀.timeouts.entries.length
      ∧ x.timedOut = [0] ∧ ¬ x.Runs s₀.frames.length := by
  obtain ⟨s₀, hrun, htest⟩ := exists_run_of_exec step always (init 3) twoSleeps
    (fun s₀ => (exec (TimerPass.step s₀.frames.length)
      (fun x e => x.Once s₀.frames.length e ∧ x.Keeps s₀.frames.length e) (.begins s₀)
      firstSleepsOn).any (fun x : TimerPass => x.timedOut = [0]
        && !decide (x.Runs s₀.frames.length))) (by decide)
  obtain ⟨x, hx, hends⟩ := (Option.any_eq_true _ _).mp htest
  simp only [Bool.and_eq_true, Bool.not_eq_true', decide_eq_true_eq, decide_eq_false_iff_not]
    at hends
  have hcall := run_of_exec hx
  obtain ⟨hpending, hlength⟩ := (timerPass_pending s₀).1 _ x
    (hcall.mono (fun x e hok => ⟨hok.1.1, hok.2⟩))
  exact ⟨s₀, x, hrun, ((timerPass_pending s₀).2.2 3 _ hrun _ x).mpr hcall, hpending, hlength,
    hends⟩

/-- A coroutine that sleeps for no time waits for its IOP `k`. -/
structure SleepsOn (k : RetrierId) (s : State) : Prop where
  frames : s.frames = [⟨some 1, .clearTimeouts⟩]
  fault : s.fault = none
  next : s.next = k + 1
  timeouts : s.timeouts.entries = [(0, k)]
  completions : s.completions k = some { op := .sleep, deadline := some 0, handle := some 2 }

/-- It is resumed, and sleeps for no time again. -/
def sleepsAgain (k : RetrierId) : List Event :=
  [.clock 0 false, .destroy k, .create (.sleep 0 0), .await (k + 1) 2 ⟨0, 0, 0⟩, .suspend]

theorem SleepsOn.again {k : RetrierId} {x : TimerPass} (h : SleepsOn k x.warden) :
    ∃ x', Run (TimerPass.step 1) (fun x _ => x.Runs 1) x (sleepsAgain k) x'
      ∧ SleepsOn (k + 1) x'.warden ∧ x'.timedOut = k :: x.timedOut := by
  obtain ⟨⟨completions, next, requests, ⟨entries, sorted⟩, continuations, generation, wakeFd,
    wakeup, resumer, frames, fault, stage, trace⟩, awaited, again, timedOut⟩ := x
  obtain ⟨hframes, hfault, hnext, htimeouts, hc⟩ := h
  dsimp only at hframes hfault hnext htimeouts hc
  subst hframes hfault hnext htimeouts
  have hdue : clearTimeoutsResult 0 0 = none := by decide
  have hdeadline : deadlineFrom 0 0 = 0 := by decide
  -- the warden is run on the events, whatever the rest of its state is
  have hexec : ∃ x', exec (TimerPass.step 1) (fun x _ => x.Runs 1) ⟨⟨completions, k + 1,
      requests, ⟨[(0, k)], sorted⟩, continuations, generation, wakeFd, wakeup, resumer,
      [⟨some 1, .clearTimeouts⟩], none, stage, trace⟩, awaited, again, timedOut⟩ (sleepsAgain k)
        = some x' ∧ SleepsOn (k + 1) x'.warden ∧ x'.timedOut = k :: timedOut := by
    simp [exec, sleepsAgain, TimerPass.step, TimerPass.Runs, TimerPass.timesOut, State.firstDue,
      PollWarden.step, Point.userRuns, Point.afterSuspend, loopStep, clearTimeouts, hdue, hc,
      iopTimedout, returnHandle, afterTransfer, State.goto, State.observe, State.setStage,
      State.setCompletion, userStep, Multimap.eraseBegin, Multimap.eraseFirst, iopDestructed,
      cancelTimeout, cancelIop, Op.slot, createIop, Call.completion, hdeadline, awaitSuspend,
      tryOrResume, insertTimeout, Multimap.insert, Multimap.insertEntry, returnNoop]
    exact ⟨rfl, rfl, rfl, rfl, by simp⟩
  obtain ⟨x', hx', hagain⟩ := hexec
  exact ⟨x', run_of_exec hx', hagain⟩

/-- The call goes on for as long as the coroutine does. -/
theorem SleepsOn.goesOn {s₀ : State} (h : SleepsOn 0 s₀) (n : ℕ) :
    ∃ es x, Run (TimerPass.step 1) (fun x _ => x.Runs 1) (.begins s₀) es x
      ∧ SleepsOn n x.warden ∧ x.timedOut.length = n := by
  induction n with
  | zero => exact ⟨[], _, Run.nil _, h, rfl⟩
  | succ n ih =>
    obtain ⟨es, x, hrun, hsleeps, hlength⟩ := ih
    obtain ⟨x', hrun', hsleeps', htimedOut⟩ := hsleeps.again
    refine ⟨es ++ sleepsAgain n, x', hrun.append hrun', hsleeps', ?_⟩
    rw [htimedOut, List.length_cons, hlength]

/-- **A coroutine that sleeps for no time keeps the call from returning**: a
call that begins with one deadline times out as many IOPs as one likes. -/
theorem not_pending_sleepsOn :
    (∃ s₀, Run step always (init 3)
        [.runUntil 1, .create (.sleep 0 0), .await 0 2 ⟨0, 0, 0⟩, .suspend] s₀
      ∧ s₀.timeouts.entries.length = 1 ∧ ∀ n, ∃ es x,
        Run (TimerPass.step 1) (fun x _ => x.Runs 1) (.begins s₀) es x ∧ x.Runs 1
          ∧ x.timedOut.length = n)
    ∧ ¬ ∀ w es₀ s₀, Run step always (init w) es₀ s₀ → ∀ es x,
      Run (TimerPass.step s₀.frames.length) (fun x _ => x.Runs s₀.frames.length) (.begins s₀)
        es x → x.Pending s₀ := by
  obtain ⟨s₀, hrun, hsleeps⟩ : ∃ s₀, Run step always (init 3)
      [.runUntil 1, .create (.sleep 0 0), .await 0 2 ⟨0, 0, 0⟩, .suspend] s₀ ∧ SleepsOn 0 s₀ :=
    ⟨_, run_of_exec rfl, rfl, rfl, rfl, rfl, rfl⟩
  have hone : s₀.timeouts.entries.length = 1 := by rw [hsleeps.timeouts, List.length_singleton]
  refine ⟨⟨s₀, hrun, hone, fun n => ?_⟩, fun h => ?_⟩
  · obtain ⟨es, x, hcall, hsleeps, hlength⟩ := hsleeps.goesOn n
    have hruns : x.Runs 1 := by
      refine Or.inr ⟨?_, ⟨some 1, .clearTimeouts⟩, ?_, Or.inl rfl⟩
      · rw [hsleeps.frames, List.length_singleton]
      · rw [hsleeps.frames]
        rfl
    exact ⟨es, x, hcall, hruns, hlength⟩
  · obtain ⟨es, x, hcall, -, hlength⟩ := hsleeps.goesOn 2
    have hframes : s₀.frames.length = 1 := by rw [hsleeps.frames, List.length_singleton]
    have hle := (h 3 _ s₀ hrun es x (by rw [hframes]; exact hcall)).length_le
    rw [List.length_map, hlength, hone] at hle
    omega

end PollWarden
