import Felspar.PollConnectTimers
import Felspar.PollLifetime
import Felspar.PollRegistration

/-!
# Whom a pass wakes

When `::poll` has answered, `do_poll` moves the readers and the writers of the
descriptors that are reported to `continuations`, and retries them one by one.
The conditions of the two are written separately: a hang-up, which the kernel
reports whether it was asked for or not, wakes the readers of a descriptor and
not its writers.

A pass is followed from the answer to its end here, through the coroutines it
resumes, as long as they destroy nothing that is waiting and do not enter the
loop.
-/

namespace PollWarden

/-! ## Who should be woken -/

/-- Something is reported that a waiter of this side is waiting for, or an
error that ends its wait. -/
def Revents.reports (e : Revents) : Side → Bool
  | .reads => e.pollin || e.pollhup || e.pollerr || e.pollnval
  | .writes => e.pollout || e.pollhup || e.pollerr || e.pollnval

/-- The waiters of one descriptor, of the sides that `woken` says. -/
def waitersOf (woken : Revents → Side → Bool) (s : State) (e : Revents)
    (fd : SocketDescriptor) : List RetrierId :=
  (if woken e .reads then s.registered fd .reads else [])
    ++ (if woken e .writes then s.registered fd .writes else [])

/-- **The waiters that an answer should wake.** -/
def due (s : State) (a : PollAnswer) : List RetrierId :=
  s.requests.keys.flatMap (fun fd => waitersOf Revents.reports s (a.revents fd) fd)

/-- The completions retried so far, newest first. -/
def State.retrieds (s : State) : List RetrierId :=
  s.trace.filterMap (fun o => match o with
    | .retried id => some id
    | _ => none)

/-- **An answer wakes the right waiters**: those retried since, and those the
pass has still to retry, are the ones that should be woken, each as often as
it is waiting; and the others stay registered in their places. -/
structure WakesRight (s : State) (a : PollAnswer) (s' : State) : Prop where
  retried : ∃ l : List RetrierId, s'.retrieds = l.reverse ++ s.retrieds
    ∧ (l ++ s'.pending).Perm (due s a)
  stays : ∀ fd d, (a.revents fd).reports d = false → s.registered fd d <+: s'.registered fd d
  sound : s'.fault = none

/-- **Nobody who should be woken is passed over**: nobody waits to write to a
descriptor that is reported with a hang-up and nothing else that wakes its
writers, and nobody waits for the wake-up pipe. -/
structure NoneOverlooked (s : State) (a : PollAnswer) : Prop where
  hangUp : ∀ fd ∈ s.requests.keys, (a.revents fd).pollhup = true →
    (a.revents fd).pollout = false → (a.revents fd).pollerr = false →
    (a.revents fd).pollnval = false → s.registered fd .writes = []
  wakeup : ∀ d, (a.revents s.wakeFd).reports d = true → s.registered s.wakeFd d = []

instance (s : State) (a : PollAnswer) : Decidable (NoneOverlooked s a) :=
  decidable_of_iff
    ((∀ fd ∈ s.requests.keys, (a.revents fd).pollhup = true → (a.revents fd).pollout = false →
        (a.revents fd).pollerr = false → (a.revents fd).pollnval = false →
        s.registered fd .writes = [])
      ∧ ∀ d ∈ [Side.reads, Side.writes],
        (a.revents s.wakeFd).reports d = true → s.registered s.wakeFd d = [])
    ⟨fun h => ⟨h.1, fun d => h.2 d (by cases d <;> simp)⟩,
      fun h => ⟨h.hangUp, fun d _ => h.wakeup d⟩⟩

/-! ## What is collected -/

section Collected

variable {s : State} {fd : SocketDescriptor} {d : Side}

/-- The round of an entry that is the wake-up pipe drains it at most. -/
theorem collectFd_wakeFd (revents : SocketDescriptor → Revents) (h : fd = s.wakeFd) :
    collectFd revents s fd = s ∨ collectFd revents s fd = drainWakeup s := by
  unfold collectFd
  rw [if_pos h]
  split
  · exact Or.inr rfl
  · exact Or.inl rfl

/-- **A round empties the lists of its descriptor** that it finds ready, and
no others. -/
theorem registered_collectFd (revents : SocketDescriptor → Revents) (fd' : SocketDescriptor) :
    (collectFd revents s fd').registered fd d
      = if fd = fd' ∧ fd' ≠ s.wakeFd ∧ (revents fd').wakes d = true then []
        else s.registered fd d := by
  by_cases hwake : fd' = s.wakeFd
  · rw [if_neg (fun hand => hand.2.1 hwake)]
    rcases collectFd_wakeFd revents hwake with he | he
    · rw [he]
    · rw [he]
      rfl
  · unfold collectFd
    rw [if_neg hwake]
    cases d <;> split_ifs <;> simp_all [registered_collectSide]

theorem wakeFd_collectFd (revents : SocketDescriptor → Revents) (fd' : SocketDescriptor) :
    (collectFd revents s fd').wakeFd = s.wakeFd := by
  unfold collectFd
  split
  · split <;> rfl
  · dsimp only
    split_ifs <;> rfl

/-- A round of the collecting loop takes the waiters of its descriptor. -/
theorem continuations_collectFd (revents : SocketDescriptor → Revents) (hfd : fd ≠ s.wakeFd) :
    (collectFd revents s fd).continuations
      = s.continuations ++ waitersOf Revents.wakes s (revents fd) fd := by
  have hwrites : (collectSide s fd .reads).registered fd .writes = s.registered fd .writes :=
    (registered_collectSide s fd .reads).trans (if_neg (fun hand => absurd hand.2 (by simp)))
  have htake : ∀ (t : State) (d' : Side),
      (collectSide t fd d').continuations = t.continuations ++ t.registered fd d' := fun _ _ => rfl
  unfold collectFd waitersOf
  rw [if_neg hfd]
  dsimp only
  split_ifs
  · rw [htake, htake, hwrites, List.append_assoc]
  · rw [htake, List.nil_append]
  · rw [htake, List.append_nil]
  · rw [List.append_nil, List.append_nil]

/-- **The collecting loop takes the waiters of every descriptor** that it
finds ready. No descriptor comes twice, so that a round finds the lists of its
descriptor as they were. -/
theorem continuations_foldl (revents : SocketDescriptor → Revents)
    (fds : List SocketDescriptor) (hnodup : fds.Nodup) :
    (fds.foldl (collectFd revents) s).continuations
      = s.continuations ++ fds.flatMap (fun fd =>
          if fd = s.wakeFd then [] else waitersOf Revents.wakes s (revents fd) fd) := by
  induction fds generalizing s with
  | nil => exact (List.append_nil _).symm
  | cons fd fds ih =>
    obtain ⟨hfd, hnodup⟩ := List.nodup_cons.mp hnodup
    have hrest : fds.flatMap (fun fd' => if fd' = (collectFd revents s fd).wakeFd then []
          else waitersOf Revents.wakes (collectFd revents s fd) (revents fd') fd')
        = fds.flatMap (fun fd' => if fd' = s.wakeFd then []
          else waitersOf Revents.wakes s (revents fd') fd') := by
      refine List.flatMap_congr (fun fd' hm => ?_)
      have hne : fd' ≠ fd := fun he => hfd (he ▸ hm)
      have hkept : ∀ d, (collectFd revents s fd).registered fd' d = s.registered fd' d := by
        intro d
        rw [registered_collectFd, if_neg (fun hand => hne hand.1)]
      rw [wakeFd_collectFd]
      unfold waitersOf
      rw [hkept, hkept]
    have hround : (collectFd revents s fd).continuations = s.continuations
        ++ (if fd = s.wakeFd then [] else waitersOf Revents.wakes s (revents fd) fd) := by
      by_cases hwake : fd = s.wakeFd
      · rw [if_pos hwake, List.append_nil]
        rcases collectFd_wakeFd revents hwake with he | he
        · rw [he]
        · rw [he]
          rfl
      · rw [if_neg hwake, continuations_collectFd revents hwake]
    rw [List.foldl_cons, ih hnodup, hrest, hround, List.flatMap_cons, List.append_assoc]

/-- **What a pass has to retry**: the waiters of the descriptors that it finds
ready, in the order of the descriptors. -/
theorem continuations_collect (revents : SocketDescriptor → Revents) :
    (collect s revents).continuations = s.requests.keys.flatMap (fun fd =>
      if fd = s.wakeFd then [] else waitersOf Revents.wakes s (revents fd) fd) := by
  have hkeys : (pollFds s).map PollFd.fd = s.wakeFd :: s.requests.keys := by
    unfold pollFds
    rw [List.map_cons, List.map_map]
    exact congrArg _ (List.map_id _)
  have hwake : s.wakeFd = (clearContinuations s).wakeFd := rfl
  have hdrain := collectFd_wakeFd revents hwake
  have hnil : (collectFd revents (clearContinuations s) s.wakeFd).continuations = [] := by
    rcases hdrain with he | he <;> rw [he] <;> rfl
  have hregistered : ∀ fd d, (collectFd revents (clearContinuations s) s.wakeFd).registered fd d
      = s.registered fd d := by
    intro fd d
    rcases hdrain with he | he <;> rw [he] <;> rfl
  unfold collect
  rw [hkeys, List.foldl_cons, continuations_foldl revents _ (s.requests.sorted.imp ne_of_lt),
    hnil, List.nil_append]
  refine List.flatMap_congr (fun fd _ => ?_)
  rw [wakeFd_collectFd]
  unfold waitersOf
  rw [hregistered, hregistered]
  rfl

/-- A list that is not collected stays as it is. -/
theorem registered_collect_of_not_wakes (revents : SocketDescriptor → Revents)
    (h : (revents fd).wakes d = false) :
    (collect s revents).registered fd d = s.registered fd d := by
  have hround : ∀ (t : State) (fd' : SocketDescriptor),
      (collectFd revents t fd').registered fd d = t.registered fd d := by
    intro t fd'
    rw [registered_collectFd, if_neg]
    rintro ⟨rfl, -, hwakes⟩
    rw [h] at hwakes
    cases hwakes
  unfold collect
  generalize (pollFds s).map PollFd.fd = fds
  have hclear : (clearContinuations s).registered fd d = s.registered fd d := rfl
  rw [← hclear]
  generalize clearContinuations s = t
  induction fds generalizing t with
  | nil => rfl
  | cons fd' fds ih => exact (ih _).trans (hround t fd')

end Collected

/-! ## Pointers in the lists -/

/-- **The pointers in `requests` are to completions that exist**, and are in
the lists they register in. -/
structure Owners (s : State) : Prop where
  fresh : ∀ i, s.next ≤ i → s.completions i = none
  owned : ∀ i, (s.view i).Owned

section Owners

variable {s s' : State} {i : RetrierId} {fd : SocketDescriptor} {d : Side} {e : Event}

theorem Owners.slot (h : Owners s) (hm : i ∈ s.registered fd d) :
    (s.view i).slot = some (fd, d) := h.owned i fd d (mem_registered_iff.mp hm)

theorem Owners.exists_completion (h : Owners s) (hm : i ∈ s.registered fd d) :
    s.completions i ≠ none := by
  intro hnone
  have hslot := h.slot hm
  rw [View.slot, view_completion, hnone] at hslot
  cases hslot

/-- Where something is collected, what is left in a list was there before. -/
theorem count_collect_le (revents : SocketDescriptor → Revents) :
    ((collect s revents).view i).count fd d ≤ (s.view i).count fd d := by
  refine collect_rule (P := fun t => (t.view i).count fd d ≤ (s.view i).count fd d) revents
    (le_refl _) (fun _ ht => ht) (fun t fd' d' ht => ?_)
  show ((collectSide t fd' d').registered fd d).count i ≤ _
  rw [registered_collectSide]
  split
  · exact Nat.zero_le _
  · exact ht

/-- **No step loses an owner.** -/
theorem Owners.step (h : Owners s) (hs : step s e = some s') : Owners s' := by
  have hnext := next_le_of_step hs
  have hlt : ∀ {j c}, s.completions j = some c → j < s.next := fun {j c} hc => by
    by_contra hle
    rw [h.fresh j (not_lt.mp hle)] at hc
    cases hc
  refine ⟨fun i hi => ?_, fun i => ?_⟩
  · -- a number is used when an IOP is created, which makes it the last one given out
    cases hc' : s'.completions i with
    | none => rfl
    | some c' =>
      have hi' : ∀ call, e = .create call → i ≠ s.next := by
        rintro call rfl rfl
        cases (stepped_of_step hs).2 with
        | create hu call => exact Nat.not_succ_le_self _ hi
      obtain ⟨c, hc, -⟩ := same_of_step hs hc' hi'
      exact absurd (hlt hc) (not_lt.mpr (hnext.trans hi))
  · by_cases hid : Subject s i e
    swap
    · cases moved_of_step hs hid with
      | stays hview hlog hhand =>
        rw [hview]
        exact h.owned i
      | collects hf a =>
        have hcore : (collect s a.revents).core i = s.core i := core_collect a.revents
        intro fd d hne
        rw [view_goto] at hne ⊢
        rw [View.slot, show ((collect s a.revents).view i).completion = (s.view i).completion from
          congrArg Core.completion hcore]
        exact h.owned i fd d (fun h₀ => hne (Nat.eq_zero_of_le_zero (h₀ ▸ count_collect_le _)))
    cases steppedOn_of_step hs hid with
    | create hid call =>
      subst hid
      intro fd d hne
      have hold : (s.view s.next).count fd d ≠ 0 := by
        rw [view_createIop, if_pos rfl] at hne
        exact hne
      have hslot := h.owned s.next fd d hold
      rw [View.slot, view_completion, h.fresh s.next (le_refl _)] at hslot
      cases hslot
    | @await c hc a r =>
      refine (h.owned i).of_count hc (completion_awaitSuspend_self s i c r a) (fun fd d hne => ?_)
      rw [count_awaitSuspend_self] at hne
      by_cases hslot : c.op.slot = some (fd, d)
      · exact Or.inr hslot
      · exact Or.inl (by simpa [hslot] using hne)
    | @destroy c hc =>
      rw [view_iopDestructed, if_pos rfl, view_cancelIop_self]
      intro fd d hne
      have hold : c.op.slot ≠ some (fd, d) ∧ (s.view i).count fd d ≠ 0 := by simpa using hne
      have hslot := h.owned i fd d hold.2
      rw [slot_of_same hc ⟨rfl, rfl⟩] at hslot
      exact absurd hslot hold.1
    | leaves => exact h.owned i
    | polls =>
      rw [view_goto]
      exact h.owned i
    | timeOutFails => exact h.owned i
    | @timesOut f fs hf hp t l he c hc =>
      rw [view_goto]
      have hown : (State.view { s with timeouts := s.timeouts.eraseBegin } i).Owned := h.owned i
      refine hown.of_count hc (completion_iopTimedout_self _ i c) (fun fd d hne => ?_)
      rw [count_iopTimedout_self] at hne
      by_cases hslot : c.op.slot = some (fd, d)
      · exact Or.inr hslot
      · exact Or.inl (by simpa [hslot] using hne)
    | retryFails => exact h.owned i
    | @retries f fs hf rest hp c hc r =>
      rw [view_goto]
      have hown : (State.view (s.observe (.retried i)) i).Owned := h.owned i
      refine hown.of_count hc (completion_tryOrResume_self _ i c r) (fun fd d hne => ?_)
      rw [count_tryOrResume_self] at hne
      by_cases hslot : c.op.slot = some (fd, d)
      · exact Or.inr hslot
      · exact Or.inl (by simpa [hslot] using hne)

theorem owners_of_run {w : SocketDescriptor} {es : List Event} (h : Run step always (init w) es s) :
    Owners s := by
  refine h.invariant (P := Owners) (fun s e s' hP _ hs => hP.step hs) ⟨fun _ _ => rfl, ?_⟩
  intro i fd d hne
  cases d <;> exact absurd rfl hne

end Owners

/-! ## The members and the lists -/

section Lists

variable {s : State} {id : RetrierId} {c : Completion} {fd : SocketDescriptor} {d : Side}

theorem prefix_pushRequest (fd' : SocketDescriptor) (d' : Side) :
    s.registered fd d <+: (pushRequest s fd' d' id).registered fd d := by
  unfold pushRequest
  rw [registered_modifyRequests]
  split
  case isTrue h =>
    obtain ⟨rfl, rfl⟩ := h
    exact List.prefix_append _ _
  case isFalse h => exact List.prefix_refl _

theorem registered_insertTimeout : (insertTimeout s id c).registered = s.registered := by
  unfold State.registered
  rw [requests_insertTimeout]

theorem registered_cancelTimeout : (cancelTimeout s id c).registered = s.registered := by
  unfold State.registered
  rw [requests_cancelTimeout]

theorem registered_called (op : Op) (r : Sys) : (called s id op r).registered = s.registered := by
  unfold called
  split <;> rfl

/-- **A try adds its completion to the end of a list**, if it changes one. -/
theorem prefix_tryOrResume (r : Sys) :
    s.registered fd d <+: (tryOrResume s id c r).1.registered fd d := by
  have hcalled : (called s id c.op r).registered = s.registered := registered_called c.op r
  have hagain : s.registered fd d
      <+: (registerAgain (called s id c.op r) id c).registered fd d := by
    rw [← hcalled]
    unfold registerAgain
    split
    · exact List.prefix_refl _
    · split
      · rw [registered_insertTimeout]
        exact prefix_pushRequest _ _
      · exact prefix_pushRequest _ _
  rw [tryOrResume_eq]
  split
  · exact hagain
  · have hkept : (cancelTimeoutThenResume (called s id c.op r) id
        { c with result := c.op.answered r c.result }).1.registered = s.registered := by
      rw [← hcalled]
      exact registered_cancelTimeout
    exact hkept ▸ List.prefix_refl _

theorem prefix_awaitSuspend (h : Handle) (r : Sys) :
    s.registered fd d <+: (awaitSuspend s id c h r).1.registered fd d := by
  rcases awaitSuspend_cases s id c r h _ rfl with
    ⟨fd', -, he⟩ | ⟨fd', d', -, -, he⟩ | ⟨-, he⟩
  · rw [he]
    unfold connectAwaitSuspend
    dsimp only
    split_ifs
    · exact List.prefix_refl _
    · show s.registered fd d <+: (insertTimeout _ id _).registered fd d
      rw [registered_insertTimeout]
      exact prefix_pushRequest _ _
    · exact List.prefix_refl _
  · rw [he]
    show s.registered fd d <+: (insertTimeout _ id _).registered fd d
    rw [registered_insertTimeout]
    exact prefix_pushRequest _ _
  · have hinsert : (insertTimeout s id { c with handle := some h }).registered = s.registered :=
      registered_insertTimeout
    rw [he, ← hinsert]
    exact prefix_tryOrResume r

/-- Destroying an IOP that is in no list leaves the lists. -/
theorem lists_iopDestructed (hid : ∀ fd d, id ∉ s.registered fd d) :
    (iopDestructed s id c).registered fd d = s.registered fd d := by
  show (cancelIop (cancelTimeout s id c) id c).registered fd d = _
  unfold cancelIop
  split
  · rw [registered_cancelTimeout]
  · unfold eraseRequest
    rw [registered_modifyRequests, registered_cancelTimeout]
    split
    case isTrue h =>
      obtain ⟨rfl, rfl⟩ := h
      refine List.filter_eq_self.mpr (fun i hi => ?_)
      have hne : i ≠ id := fun he => hid _ _ (he ▸ hi)
      simpa using hne
    case isFalse h => rfl

end Lists

/-! ## The retries of a pass -/

section Retrieds

variable {s s' : State}

/-- Observations of an IOP are no retries. -/
theorem retrieds_of_trace {l : List Obs} (htrace : s'.trace = l ++ s.trace)
    (hl : ∀ o ∈ l, ∀ id, o ≠ .retried id) : s'.retrieds = s.retrieds := by
  unfold State.retrieds
  rw [htrace, List.filterMap_append, List.filterMap_eq_nil_iff.mpr, List.nil_append]
  intro o ho
  cases o with
  | retried id => exact absurd rfl (hl _ ho id)
  | _ => rfl

theorem retrieds_of_subject {l : List Obs} {id : RetrierId} (htrace : s'.trace = l ++ s.trace)
    (hl : ∀ o ∈ l, o.subject = some id) : s'.retrieds = s.retrieds := by
  refine retrieds_of_trace htrace (fun o ho i he => ?_)
  have hsubject := hl o ho
  rw [he] at hsubject
  cases hsubject

theorem retrieds_goto (p : Point) : (s.goto p).retrieds = s.retrieds := by
  rw [goto_eq]
  rfl

theorem retrieds_collect (revents : SocketDescriptor → Revents) :
    (collect s revents).retrieds = s.retrieds :=
  collect_rule (P := fun t => t.retrieds = s.retrieds) revents rfl (fun _ h => h)
    (fun _ _ _ h => h)

end Retrieds

/-! ## The pass -/

/-- The innermost loop retries what it has collected. -/
def State.inPass (s : State) : Bool :=
  s.frames.head?.any (fun f => f.point.generation.isSome)

/-- **The steps of a pass**, until it ends: the coroutines it resumes destroy
no IOP that waits for a descriptor, and do not enter the loop. -/
def Quiet (s : State) (e : Event) : Prop :=
  s.inPass = true ∧ match e with
    | .destroy id => id ∉ s.pending ∧ ∀ fd ∈ s.requests.keys,
        id ∉ s.registered fd .reads ∧ id ∉ s.registered fd .writes
    | .runUntil _ | .runBatch => False
    | _ => True

instance : DecidableRel Quiet := fun s e =>
  @instDecidableAnd _ _ _ (match e with
    | .destroy id => inferInstanceAs (Decidable (id ∉ s.pending ∧ ∀ fd ∈ s.requests.keys,
        id ∉ s.registered fd .reads ∧ id ∉ s.registered fd .writes))
    | .runUntil _ | .runBatch => inferInstanceAs (Decidable False)
    | .create _ | .await _ _ _ | .asyncResume _ _ | .suspend | .clock _ _ | .poll _ | .retry _
    | .resumeNext => inferInstanceAs (Decidable True))

/-- **What holds during the pass** that `t` is collected for: those retried
and those still to be retried are what has been collected, these exist and the
iterators to them are valid, and the lists are only added to. -/
structure Passing (t s : State) : Prop where
  retried : ∃ l : List RetrierId, s.retrieds = l.reverse ++ t.retrieds
    ∧ l ++ s.pending = t.continuations
  exist : ∀ i ∈ s.pending, s.completions i ≠ none
  generation : ∀ f ∈ s.frames.head?, ∀ g, f.point.generation = some g → g = s.generation
  stays : ∀ fd d, t.registered fd d <+: s.registered fd d
  fault : s.fault = none

section Passing

variable {t s s' : State} {e : Event}

/-- What concerns neither the lists nor the loops. -/
theorem Passing.congr (h : Passing t s) (hretrieds : s'.retrieds = s.retrieds)
    (hframes : s'.frames = s.frames) (hgen : s'.generation = s.generation)
    (hfault : s'.fault = s.fault) (hexist : ∀ i ∈ s.pending, s'.completions i ≠ none)
    (hstays : ∀ fd d, s.registered fd d <+: s'.registered fd d) : Passing t s' := by
  have hpending : s'.pending = s.pending := by
    unfold State.pending
    rw [hframes]
  refine ⟨?_, hpending ▸ hexist, ?_, fun fd d => (h.stays fd d).trans (hstays fd d),
    hfault.trans h.fault⟩
  · rw [hretrieds, hpending]
    exact h.retried
  · rw [hframes, hgen]
    exact h.generation

/-- The loop goes on to a point that has as much to retry. -/
theorem Passing.goto (h : Passing t s) {f : Frame} {fs : List Frame} (hf : s.frames = f :: fs)
    {p : Point} (hp : p.pending = f.point.pending)
    (hg : ∀ g, p.generation = some g → g = s.generation) : Passing t (s.goto p) := by
  have hgoto : (s.goto p).frames = { f with point := p } :: fs := by
    rw [goto_eq, hf]
    rfl
  have hpending : (s.goto p).pending = s.pending := by
    rw [State.pending_eq hgoto, State.pending_eq hf, ← hp]
  obtain ⟨l, hl, hrest⟩ := h.retried
  refine ⟨⟨l, (retrieds_goto p).trans hl, hpending ▸ hrest⟩, ?_, ?_, ?_, ?_⟩
  · rw [hpending, completions_goto]
    exact h.exist
  · intro f' hf' g hg'
    rw [hgoto] at hf'
    obtain rfl := Option.some.inj hf'
    rw [hg g hg', goto_eq]
  · rw [goto_eq]
    exact h.stays
  · rw [goto_eq]
    exact h.fault

/-- A retry of the completion at the head. -/
theorem Passing.retries (h : Passing t s) {f : Frame} {fs : List Frame} (hf : s.frames = f :: fs)
    {id : RetrierId} {rest : List RetrierId}
    (hp : f.point = .continuations s.generation (id :: rest)) {c : Completion} (r : Sys)
    {p : Point} (hp' : p = .retried s.generation rest ∨ p = .continuations s.generation rest) :
    Passing t ((tryOrResume (s.observe (.retried id)) id c r).1.goto p) := by
  let s₁ : State := s.observe (.retried id)
  have hshell : (tryOrResume s₁ id c r).1.shell = s.shell := shell_tryOrResume s₁ id c r
  have hgoto : ((tryOrResume s₁ id c r).1.goto p).frames = { f with point := p } :: fs := by
    rw [goto_eq, show (tryOrResume s₁ id c r).1.frames = f :: fs from
      (congrArg Shell.frames hshell).trans hf]
    rfl
  have hpoint : p.pending = rest ∧ p.generation = some s.generation := by
    rcases hp' with rfl | rfl <;> exact ⟨rfl, rfl⟩
  have hpending : ((tryOrResume s₁ id c r).1.goto p).pending = rest := by
    rw [State.pending_eq hgoto]
    exact hpoint.1
  have hhead : s.pending = id :: rest := by
    rw [State.pending_eq hf, hp]
    rfl
  obtain ⟨l, hl, hrest⟩ := h.retried
  refine ⟨⟨l ++ [id], ?_, ?_⟩, ?_, ?_, fun fd d => ?_, ?_⟩
  · have htrace : (tryOrResume s₁ id c r).1.trace
        = (answerObs id c r ++ callObs id c.op r) ++ s₁.trace := by
      rw [trace_tryOrResume, List.append_assoc]
    rw [retrieds_goto, retrieds_of_subject htrace (fun o ho => (mem_tryObs ho).1)]
    show id :: s.retrieds = _
    rw [hl]
    simp
  · rw [hpending, ← hrest, hhead]
    simp
  · intro i hi
    rw [hpending] at hi
    rw [completions_goto]
    by_cases hne : i = id
    · obtain ⟨c', hc', -⟩ := completion_tryOrResume_self s₁ id c r
      rw [hne, hc']
      simp
    · rw [← view_completion, view_tryOrResume_of_ne s₁ id i c r hne]
      exact h.exist i (hhead ▸ List.mem_cons_of_mem _ hi)
  · intro f' hf' g hg
    rw [hgoto] at hf'
    obtain rfl := Option.some.inj hf'
    have hgen : ((tryOrResume s₁ id c r).1.goto p).generation = s.generation := by
      rw [goto_eq]
      exact congrArg Shell.generation hshell
    rw [hgen]
    exact Option.some.inj (hg.symm.trans hpoint.2)
  · have hobserved : t.registered fd d <+: s₁.registered fd d := h.stays fd d
    have htried : t.registered fd d <+: (tryOrResume s₁ id c r).1.registered fd d :=
      hobserved.trans (prefix_tryOrResume r)
    rw [goto_eq]
    exact htried
  · rw [goto_eq]
    exact (congrArg Shell.fault hshell).trans h.fault

/-- **A step of a pass goes on with it, or ends it.** -/
theorem Passing.step (h : Passing t s) (hok : Quiet s e) (hs : step s e = some s') :
    Passing t s' := by
  obtain ⟨hpass, hok⟩ := hok
  -- the innermost loop is at no point that has no vector to iterate over
  have hpoint : ∀ {f : Frame} {fs : List Frame}, s.frames = f :: fs →
      f.point.generation ≠ none := fun hf hnone => by
    unfold State.inPass at hpass
    rw [hf] at hpass
    simp [hnone] at hpass
  have hreturns : ∀ {f : Frame} {fs : List Frame}, s.frames = f :: fs → f.point.pending = [] →
      Passing t (doPollReturns s) := fun {f fs} hf hp =>
    Passing.goto (s := { s with resumer := s.resumer.swap })
      (h.congr rfl rfl rfl rfl h.exist (fun _ _ => List.prefix_refl _)) hf hp.symm
      (fun g hg => by cases hg)
  cases (stepped_of_step hs).2 with
  | create hu call =>
    refine h.congr rfl rfl rfl rfl (fun i hi => ?_) (fun _ _ => List.prefix_refl _)
    rw [← view_completion, view_createIop]
    split
    · simp
    · exact h.exist i hi
  | @await hu j c hc a r =>
    obtain ⟨os, htrace, hos⟩ := trace_awaitSuspend s j c a r
    have hshell := shell_awaitSuspend s j c r a
    refine h.congr (retrieds_of_subject htrace hos) (congrArg Shell.frames hshell)
      (congrArg Shell.generation hshell) (congrArg Shell.fault hshell) (fun i hi => ?_)
      (fun fd d => prefix_awaitSuspend a r)
    by_cases hne : i = j
    · obtain ⟨c', hc', -⟩ := completion_awaitSuspend_self s j c r a
      rw [hne, hc']
      simp
    · rw [← view_completion, view_awaitSuspend_of_ne s j i c r a hne]
      exact h.exist i hi
  | @destroy hu j c hc =>
    have hshell := shell_iopDestructed s j c
    have hlists : ∀ fd d, j ∉ s.registered fd d := by
      intro fd d
      by_cases hkey : fd ∈ s.requests.keys
      · cases d with
        | reads => exact (hok.2 fd hkey).1
        | writes => exact (hok.2 fd hkey).2
      · unfold State.registered
        rw [s.requests.get_of_notMem fd hkey, Request.side_default]
        exact List.not_mem_nil
    refine h.congr (retrieds_of_trace (l := []) trace_iopDestructed (by simp))
      (congrArg Shell.frames hshell) (congrArg Shell.generation hshell)
      (congrArg Shell.fault hshell) (fun i hi => ?_)
      (fun fd d => lists_iopDestructed hlists ▸ List.prefix_refl _)
    have hne : i ≠ j := fun he => hok.1 (he ▸ hi)
    rw [← view_completion, view_iopDestructed, if_neg hne]
    exact h.exist i hi
  | asyncResume hu handles written =>
    obtain ⟨n, he⟩ := doAsyncResume_eq s handles written
    rw [he]
    exact h.congr (retrieds_of_trace (l := (handles.reduceOption.map Obs.queued).reverse) rfl
        (by simp)) rfl rfl rfl h.exist (fun _ _ => List.prefix_refl _)
  | runUntil hu coro => exact hok.elim
  | runBatch hu => exact hok.elim
  | @suspend f fs hf p hp =>
    refine h.goto hf (Point.pending_afterSuspend hp)
      (fun g hg => h.generation f (by rw [hf]; rfl) g ?_)
    rw [← Point.generation_afterSuspend hp]
    exact hg
  | clock hf hp now done => exact absurd (by rw [hp]; rfl) (hpoint hf)
  | poll hf hp a => exact absurd (by rw [hp]; rfl) (hpoint hf)
  | @retry f fs hf g rest hp r =>
    have hretried := retriedNext s g rest r
    generalize retryNext s g rest r = s₁ at hretried ⊢
    have hgen : g = s.generation := h.generation f (by rw [hf]; rfl) g (by rw [hp]; rfl)
    cases hretried with
    | returns => exact hreturns hf (by rw [hp]; rfl)
    | fails id rest x hx =>
      have hmem : id ∈ s.pending := by
        rw [State.pending_eq hf, hp]
        exact List.mem_cons_self
      rcases hx with hx | hx
      · exact absurd hgen hx
      · exact absurd hx (h.exist id hmem)
    | @retries id rest c hg hc p hp' =>
      subst hg
      exact h.retries hf hp r hp'
  | resumeNext hf hp => exact absurd (by rw [hp]; rfl) (hpoint hf)

end Passing

/-! ## What the pass comes to -/

section Woken

variable {s : State} {i : RetrierId} {fd : SocketDescriptor} {d : Side} {a : PollAnswer}

theorem mem_waitersOf {woken : Revents → Side → Bool} {e : Revents} :
    i ∈ waitersOf woken s e fd ↔ ∃ d, woken e d = true ∧ i ∈ s.registered fd d := by
  unfold waitersOf
  constructor
  · intro hm
    rcases List.mem_append.mp hm with hm | hm
    · split_ifs at hm with hw
      · exact ⟨.reads, hw, hm⟩
      · cases hm
    · split_ifs at hm with hw
      · exact ⟨.writes, hw, hm⟩
      · cases hm
  · rintro ⟨d, hw, hm⟩
    cases d with
    | reads => exact List.mem_append_left _ (by rw [if_pos hw]; exact hm)
    | writes => exact List.mem_append_right _ (by rw [if_pos hw]; exact hm)

/-- A list that is not empty is that of a descriptor in `requests`. -/
theorem mem_keys_of_registered (hm : i ∈ s.registered fd d) : fd ∈ s.requests.keys := by
  by_contra hkey
  unfold State.registered at hm
  rw [s.requests.get_of_notMem fd hkey, Request.side_default] at hm
  cases hm

/-- What wakes a side is something that should. -/
theorem Revents.reports_of_wakes {e : Revents} (h : e.wakes d = true) : e.reports d = true := by
  cases d with
  | reads => exact h
  | writes =>
    unfold Revents.wakes at h
    unfold Revents.reports
    cases hout : e.pollout <;> cases herr : e.pollerr <;> simp_all

/-- Something wakes the side that should, unless it is the writers at a
hang-up. -/
theorem Revents.wakes_of_reports {e : Revents} (h : e.reports d = true) :
    e.wakes d = true ∨ (d = .writes ∧ e.pollhup = true ∧ e.pollout = false
      ∧ e.pollerr = false ∧ e.pollnval = false) := by
  cases d with
  | reads => exact Or.inl h
  | writes =>
    unfold Revents.reports at h
    unfold Revents.wakes
    cases hout : e.pollout <;> cases herr : e.pollerr <;> cases hnval : e.pollnval <;> simp_all

/-- **What is collected is what should be woken** when nobody is
overlooked. -/
theorem continuations_collect_eq_due (h : NoneOverlooked s a) :
    (collect s a.revents).continuations = due s a := by
  rw [continuations_collect]
  refine List.flatMap_congr (fun fd hkey => ?_)
  by_cases hwake : fd = s.wakeFd
  · subst hwake
    rw [if_pos rfl]
    unfold waitersOf
    have hnone : ∀ d, (if (a.revents s.wakeFd).reports d then s.registered s.wakeFd d else [])
        = [] := fun d => by
      split
      case isTrue hr => exact h.wakeup d hr
      case isFalse => rfl
    rw [hnone, hnone, List.append_nil]
  · rw [if_neg hwake]
    have hside : ∀ d, (if (a.revents fd).wakes d then s.registered fd d else [])
        = if (a.revents fd).reports d then s.registered fd d else [] := fun d => by
      by_cases hr : (a.revents fd).reports d = true
      · rw [if_pos hr]
        rcases Revents.wakes_of_reports hr with hw | ⟨rfl, hhup, hout, herr, hnval⟩
        · rw [if_pos hw]
        · rw [h.hangUp fd hkey hhup hout herr hnval, ite_self]
      · rw [if_neg hr, if_neg (fun hw => hr (Revents.reports_of_wakes hw))]
    unfold waitersOf
    rw [hside, hside]

/-- **Nobody is overlooked when they are the same**, for a waiter is in the
list that its completion registers in, and in no other. -/
theorem noneOverlooked_of_perm (ho : Owners s)
    (h : (collect s a.revents).continuations.Perm (due s a)) : NoneOverlooked s a := by
  -- a waiter that should be woken is collected from its own list
  have hwoken : ∀ {i fd d}, (a.revents fd).reports d = true → i ∈ s.registered fd d →
      fd ≠ s.wakeFd ∧ (a.revents fd).wakes d = true := by
    intro i fd d hr hm
    have hdue : i ∈ due s a := List.mem_flatMap.mpr
      ⟨fd, mem_keys_of_registered hm, mem_waitersOf.mpr ⟨d, hr, hm⟩⟩
    have hcollected := h.mem_iff.mpr hdue
    rw [continuations_collect] at hcollected
    obtain ⟨fd', -, hm'⟩ := List.mem_flatMap.mp hcollected
    split_ifs at hm' with hwake
    · cases hm'
    · obtain ⟨d', hw, hm'⟩ := mem_waitersOf.mp hm'
      obtain ⟨rfl, rfl⟩ : fd' = fd ∧ d' = d := by
        have hslot := (ho.slot hm').symm.trans (ho.slot hm)
        exact Prod.mk.inj (Option.some.inj hslot)
      exact ⟨hwake, hw⟩
  refine ⟨fun fd _ hhup hout herr hnval => ?_, fun d hr => ?_⟩
  · refine List.eq_nil_iff_forall_not_mem.mpr (fun i hm => ?_)
    have hr : (a.revents fd).reports .writes = true := by
      unfold Revents.reports
      simp [hhup]
    have hw := (hwoken hr hm).2
    unfold Revents.wakes at hw
    simp [hout, herr, hnval] at hw
  · exact List.eq_nil_iff_forall_not_mem.mpr (fun i hm => (hwoken hr hm).1 rfl)

/-- **The pass begins** with what has been collected. -/
theorem passing_of_poll {s₀ : State} (ho : Owners s) (ha : 0 < a.ret)
    (hs : step s (.poll a) = some s₀) : Passing (collect s a.revents) s₀ := by
  have hfault := (stepped_of_step hs).1
  cases (stepped_of_step hs).2 with
  | @poll f fs hf t hp a =>
    let p : Point :=
      .continuations (collect s a.revents).generation (collect s a.revents).continuations
    have he : doPoll s a = (collect s a.revents).goto p := doPoll_of_pos s ha
    have hgoto : (doPoll s a).frames = { f with point := p } :: fs := by
      rw [he, goto_eq, frames_collect, hf]
      rfl
    have hpending : (doPoll s a).pending = (collect s a.revents).continuations :=
      State.pending_eq hgoto
    refine ⟨⟨[], ?_, by rw [hpending]; rfl⟩, fun i hi => ?_, fun f' hf' g hg => ?_, ?_, ?_⟩
    · rw [he, retrieds_goto]
      rfl
    · rw [hpending, continuations_collect] at hi
      obtain ⟨fd, -, hm⟩ := List.mem_flatMap.mp hi
      split_ifs at hm
      · cases hm
      · obtain ⟨d, -, hm⟩ := mem_waitersOf.mp hm
        have hcore : (collect s a.revents).core i = s.core i := core_collect a.revents
        rw [he, completions_goto,
          show (collect s a.revents).completions i = s.completions i from
            congrArg Core.completion hcore]
        exact ho.exists_completion hm
    · rw [hgoto] at hf'
      obtain rfl := Option.some.inj hf'
      rw [he, goto_eq]
      exact (Option.some.inj hg).symm
    · rw [he, goto_eq]
      exact fun _ _ => List.prefix_refl _
    · rw [he, goto_eq]
      exact collect_rule (P := fun t => t.fault = none) a.revents hfault (fun _ h => h)
        (fun _ _ _ h => h)

end Woken

/-- **When a pass wakes the right waiters**: exactly when nobody who should be
woken is overlooked. This is so in every state of the pass, and in the one it
ends in. -/
theorem wakesRight_iff {w : SocketDescriptor} {es es' : List Event} {s s₀ s₁ : State}
    {a : PollAnswer} (h : Run step always (init w) es s) (ha : 0 < a.ret)
    (hpoll : step s (.poll a) = some s₀) (hpass : Run step Quiet s₀ es' s₁) :
    WakesRight s a s₁ ↔ NoneOverlooked s a := by
  have ho := owners_of_run h
  have hpassing := hpass.invariant (P := Passing (collect s a.revents))
    (fun s e s' hP hok hs => hP.step hok hs) (passing_of_poll ho ha hpoll)
  obtain ⟨l, hl, hcollected⟩ := hpassing.retried
  rw [retrieds_collect] at hl
  constructor
  · intro hwakes
    obtain ⟨l', hl', hperm⟩ := hwakes.retried
    obtain rfl : l' = l :=
      List.reverse_injective (List.append_cancel_right (hl'.symm.trans hl))
    exact noneOverlooked_of_perm ho (hcollected ▸ hperm)
  · intro hnone
    have hdue := continuations_collect_eq_due hnone
    refine ⟨⟨l, hl, ?_⟩, fun fd d hr => ?_, hpassing.fault⟩
    · rw [hcollected, hdue]
    · have hwakes : (a.revents fd).wakes d = false := by
        by_contra hw
        rw [Revents.reports_of_wakes (by simpa using hw)] at hr
        cases hr
      have hstays := hpassing.stays fd d
      rw [registered_collect_of_not_wakes a.revents hwakes] at hstays
      exact hstays

/-- A read waits for descriptor 5 and a write for descriptor 6. -/
def readAndWrite : List Event :=
  [.create (.readSome 5 1 none), .create (.writeSome 6 1 none), .runUntil 1,
    .await 0 2 ⟨-1, EAGAIN, 0⟩, .await 1 3 ⟨-1, EAGAIN, 0⟩, .suspend, .clock 0 false]

/-- The other end of descriptor 5 has been closed, and 6 takes bytes. -/
def hangUpAndWritable : PollAnswer where
  ret := 2
  revents := fun fd => { pollhup := fd = 5, pollout := fd = 6 }

/-- The two are retried; the coroutine of the read waits for its descriptor
again. -/
def retryBoth : List Event :=
  [.retry ⟨0, 0, 0⟩, .create (.readReady 5 none), .await 2 2 ⟨0, 0, 0⟩, .suspend,
    .retry ⟨1, 0, 0⟩, .suspend, .retry ⟨0, 0, 0⟩]

/-- Both are retried, each once. -/
theorem wakesRight_iff_hangUp :
    ∃ s s₀ s₁, Run step always (init 3) readAndWrite s
      ∧ step s (.poll hangUpAndWritable) = some s₀ ∧ Run step Quiet s₀ retryBoth s₁
      ∧ s₁.retrieds = [1, 0] ∧ WakesRight s hangUpAndWritable s₁ := by
  obtain ⟨s, hrun, htest⟩ := exists_run_of_exec step always (init 3) readAndWrite
    (fun s => decide (NoneOverlooked s hangUpAndWritable)
      && (step s (.poll hangUpAndWritable)).any (fun s₀ =>
        (exec step Quiet s₀ retryBoth).any (fun s₁ => s₁.retrieds = [1, 0]))) (by decide)
  obtain ⟨hnone, hpoll⟩ := Bool.and_eq_true_iff.mp htest
  obtain ⟨s₀, hs₀, hpass⟩ := (Option.any_eq_true _ _).mp hpoll
  obtain ⟨s₁, hs₁, hretrieds⟩ := (Option.any_eq_true _ _).mp hpass
  exact ⟨s, s₀, s₁, hrun, hs₀, run_of_exec hs₁, of_decide_eq_true hretrieds,
    (wakesRight_iff hrun (by decide) hs₀ (run_of_exec hs₁)).mpr (of_decide_eq_true hnone)⟩

/-- Both descriptors are hung up. -/
def hangUps : PollAnswer where
  ret := 2
  revents := fun fd => { pollhup := fd = 5 || fd = 6 }

/-- **A write is passed over** when its descriptor is reported with a hang-up
only: the pass has the read to retry, and not the write. -/
theorem not_wakesRight_hangUps :
    ¬ ∀ es s a s₀ es' s₁, Run step always (init 3) es s → 0 < a.ret →
      step s (.poll a) = some s₀ → Run step Quiet s₀ es' s₁ → WakesRight s a s₁ := by
  intro h
  obtain ⟨s, hrun, htest⟩ := exists_run_of_exec step always (init 3) readAndWrite
    (fun s => s.retrieds = [] && (due s hangUps).length = 2
      && (step s (.poll hangUps)).any (fun s₀ => s₀.retrieds = [] && s₀.pending = [0]))
    (by decide)
  simp only [Bool.and_eq_true, decide_eq_true_eq] at htest
  obtain ⟨⟨hbefore, hdue⟩, hpoll⟩ := htest
  obtain ⟨s₀, hs₀, hpass⟩ := (Option.any_eq_true _ _).mp hpoll
  simp only [Bool.and_eq_true, decide_eq_true_eq] at hpass
  obtain ⟨l, hl, hperm⟩ := (h _ s hangUps s₀ [] s₀ hrun (by decide) hs₀ (Run.nil s₀)).retried
  rw [hpass.1, hbefore, List.append_nil] at hl
  obtain rfl : l = [] := List.reverse_eq_nil_iff.mp hl.symm
  have hlength := hperm.length_eq
  rw [hpass.2, hdue] at hlength
  cases hlength

end PollWarden
