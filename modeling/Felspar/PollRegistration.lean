import Felspar.PollView

/-!
# Where a suspended completion is registered

A completion whose coroutine is suspended is known to the warden through two
containers: `timeouts`, if it has a deadline, and the list of `requests` its
type registers in, if it has one. While a pass of `do_poll` runs there is a
third place, the vector of retriers the pass has collected and not yet
reached.

The invariant is stated of each completion separately, on its
`PollWarden.View`: a suspended one occurs once in `timeouts` under its own
deadline, and once either in its list or in the vector; any other occurs
nowhere (`View.Registered`).

The runs this is about are those of reads, writes, accepts, readiness waits
and sleeps, each awaited once. The loop is not entered from within, and no
coroutine that the continuation loop resumes destroys the IOP another one is
suspended on – what that would do is the subject of
`Felspar.PollLifetime`.
-/

namespace PollWarden

/-! ## The runs -/

/-- The types of IOP that register once, when they are awaited. A connect
registers its deadline again at every retry, and a close never waits. -/
def Op.Registrable : Op → Prop
  | .close _ | .connect _ => False
  | _ => True

instance : DecidablePred Op.Registrable := fun op => by
  cases op <;> unfold Op.Registrable <;> infer_instance

/-- The loop is in its continuation loop, with a resumed coroutine
running. -/
def Point.inRetry : Point → Bool
  | .retried _ _ => true
  | _ => false

/-- **The steps of such a run**: registrable IOPs, each awaited once, no
nested loop, and no IOP destroyed from the continuation loop while a
coroutine is suspended on it. -/
def PlainStep (s : State) : Event → Prop
  | .create call => call.completion.op.Registrable
  | .await id _ _ => s.stage id = .created
  | .destroy id => ∀ f ∈ s.frames, f.point.inRetry = true → s.stage id ≠ .suspended
  | .runUntil _ | .runBatch => s.frames = []
  | _ => True

instance : DecidableRel PlainStep := fun s e =>
  match e with
  | .create call => inferInstanceAs (Decidable call.completion.op.Registrable)
  | .await id _ _ => inferInstanceAs (Decidable (s.stage id = .created))
  | .destroy id => inferInstanceAs
      (Decidable (∀ f ∈ s.frames, f.point.inRetry = true → s.stage id ≠ .suspended))
  | .runUntil _ | .runBatch => inferInstanceAs (Decidable (s.frames = []))
  | .asyncResume _ _ | .suspend | .clock _ _ | .poll _ | .retry _ | .resumeNext =>
    inferInstanceAs (Decidable True)

/-- The retriers the running pass has still to reach. -/
def State.pending (s : State) : List RetrierId :=
  match s.frames with
  | [] => []
  | f :: _ => f.point.pending

theorem State.pending_eq {s : State} {f : Frame} {fs : List Frame}
    (hf : s.frames = f :: fs) : s.pending = f.point.pending := by
  unfold State.pending
  rw [hf]

/-! ## The invariant -/

/-- The deadline of the completion, as the list of the keys it has to be
filed under. -/
def View.deadlines (v : View) : List TimePoint :=
  (v.completion.bind (fun c => c.deadline)).toList

/-- The view once a list of `requests` has been emptied. -/
def View.emptied (v : View) (fd : SocketDescriptor) (d : Side) : View :=
  { v with count := fun fd' d' => if fd' = fd ∧ d' = d then 0 else v.count fd' d' }

/-- **A completion is registered where it has to be**, when the running pass
has still to retry it `n` times. -/
structure View.Registered (v : View) (n : ℕ) : Prop where
  /-- A coroutine is suspended on completions that exist. -/
  exists_of_suspended : v.stage = .suspended → v.completion ≠ none
  /-- It is filed under its deadline, if its coroutine is suspended. -/
  keys : v.keys = if v.stage = .suspended then v.deadlines else []
  /-- It is in the list it registers in or in the vector, if its coroutine
  is suspended, and in no other list. -/
  count : ∀ fd d, v.count fd d + (if v.slot = some (fd, d) then n else 0)
    = if v.stage = .suspended ∧ v.slot = some (fd, d) then 1 else 0
  /-- What a pass retries is registered in a list. -/
  slot_of_pending : n ≠ 0 → v.slot ≠ none
  /-- It is of one of the types this is about. -/
  registrable : ∀ c, v.completion = some c → c.op.Registrable

/-- Every completion is registered where it has to be, when the running pass
has still to retry those in `l`. -/
structure Filed (s : State) (l : List RetrierId) : Prop where
  fresh : ∀ i, s.next ≤ i → s.completions i = none ∧ s.stage i = .created
  view : ∀ i, (s.view i).Registered (l.count i)

/-- **Every completion is registered where it has to be**, and the one pass
that may be running iterates over a vector nobody has cleared. -/
structure Registration (s : State) : Prop where
  filed : Filed s s.pending
  frames : s.frames.length ≤ 1
  generation : ∀ f ∈ s.frames, f.point.pending ≠ [] →
    f.point.generation = some s.generation
  fault : s.fault = none

namespace View.Registered

variable {v : View} {n : ℕ}

/-- A completion that is not suspended occurs nowhere. -/
theorem eq_zero (h : v.Registered n) (hs : v.stage ≠ .suspended) :
    v.keys = [] ∧ n = 0 ∧ ∀ fd d, v.count fd d = 0 := by
  have hcount : ∀ fd d, v.count fd d + (if v.slot = some (fd, d) then n else 0) = 0 :=
    fun fd d => by rw [h.count, if_neg (fun hand => hs hand.1)]
  refine ⟨by rw [h.keys, if_neg hs], ?_, fun fd d => (Nat.add_eq_zero_iff.mp (hcount fd d)).1⟩
  by_contra hn
  obtain ⟨⟨fd, d⟩, hp⟩ := Option.ne_none_iff_exists'.mp (h.slot_of_pending hn)
  have := hcount fd d
  rw [if_pos hp] at this
  exact hn (Nat.add_eq_zero_iff.mp this).2

/-- A completion the pass has still to retry is suspended, is to be retried
once, and is in no list. -/
theorem of_pending (h : v.Registered n) (hn : n ≠ 0) :
    v.stage = .suspended ∧ n = 1 ∧ ∀ fd d, v.count fd d = 0 := by
  have hs : v.stage = .suspended := by
    by_contra hs
    exact hn (h.eq_zero hs).2.1
  obtain ⟨⟨fd₀, d₀⟩, hp⟩ := Option.ne_none_iff_exists'.mp (h.slot_of_pending hn)
  have h₀ := h.count fd₀ d₀
  rw [if_pos hp, if_pos ⟨hs, hp⟩] at h₀
  refine ⟨hs, by omega, fun fd d => ?_⟩
  have hfd := h.count fd d
  by_cases he : v.slot = some (fd, d)
  · rw [if_pos he, if_pos ⟨hs, he⟩] at hfd
    omega
  · rw [if_neg he, if_neg (fun hand => he hand.2)] at hfd
    exact hfd

/-- A completion that is filed under a deadline is suspended, and that
deadline is the only one. -/
theorem of_keys (h : v.Registered n) {t : TimePoint} {ts : List TimePoint}
    (hk : v.keys = t :: ts) : v.stage = .suspended ∧ ts = [] := by
  have hs : v.stage = .suspended := by
    by_contra hs
    rw [(h.eq_zero hs).1] at hk
    exact absurd hk (by simp)
  refine ⟨hs, ?_⟩
  rw [h.keys, if_pos hs, View.deadlines] at hk
  cases hd : v.completion.bind (fun c => c.deadline) with
  | none => rw [hd] at hk; exact absurd hk (by simp)
  | some t' => rw [hd] at hk; exact (List.cons.inj hk).2.symm

/-- Nothing is registered of a completion that is not suspended. -/
theorem of_nowhere (hs : v.stage ≠ .suspended) (hk : v.keys = [])
    (hc : ∀ fd d, v.count fd d = 0)
    (hr : ∀ c, v.completion = some c → c.op.Registrable) : v.Registered 0 where
  exists_of_suspended := fun h => absurd h hs
  keys := by rw [hk, if_neg hs]
  count := fun fd d => by rw [hc, ite_self, if_neg (fun hand : _ ∧ _ => hs hand.1)]
  slot_of_pending := fun h => absurd rfl h
  registrable := hr

/-- **Collecting a list** moves its occurrences to the vector. -/
theorem emptied (h : v.Registered n) (fd : SocketDescriptor) (d : Side) :
    (v.emptied fd d).Registered (n + v.count fd d) := by
  have hother : ∀ p, v.slot = some p → p ≠ (fd, d) → v.count fd d = 0 := fun p hp hne => by
    have hcount := h.count fd d
    rw [hp, if_neg (fun he => hne (Option.some.inj he)),
      if_neg (fun hand => hne (Option.some.inj hand.2))] at hcount
    exact hcount
  refine ⟨h.exists_of_suspended, h.keys, fun fd' d' => ?_, fun hne => ?_, h.registrable⟩
  · have hcount := h.count fd' d'
    show (if fd' = fd ∧ d' = d then 0 else v.count fd' d')
        + (if v.slot = some (fd', d') then n + v.count fd d else 0)
      = if v.stage = .suspended ∧ v.slot = some (fd', d') then 1 else 0
    rw [← hcount]
    by_cases hs : v.slot = some (fd', d')
    · rw [if_pos hs, if_pos hs]
      by_cases hfd : fd' = fd ∧ d' = d
      · rw [if_pos hfd, Nat.zero_add, Nat.add_comm, hfd.1, hfd.2]
      · rw [if_neg hfd, hother _ hs (by simpa using hfd), Nat.add_zero]
    · rw [if_neg hs, if_neg (fun hand : _ ∧ _ => hs hand.2)] at hcount
      rw [if_neg hs, if_neg hs, show v.count fd' d' = 0 from hcount, ite_self]
  · intro hnone
    have hn : n = 0 := not_not.mp (fun hn => h.slot_of_pending hn hnone)
    have hcount := h.count fd d
    rw [show v.slot = none from hnone, if_neg (by simp), if_neg (by simp)] at hcount
    exact hne (by rw [hn, Nat.zero_add]; exact hcount)

end View.Registered

/-! ## The members -/

section Members

variable {s : State} {id : RetrierId} {c : Completion}

theorem Op.Registrable.ne_connect {op : Op} (h : op.Registrable) (fd : SocketDescriptor) :
    op ≠ .connect fd := by
  rintro rfl
  exact h

theorem deadlines_of_same {c' : Completion} (hc : s.completions id = some c')
    (h : c.Same c') : (s.view id).deadlines = c.deadline.toList := by
  unfold View.deadlines
  rw [view_completion, hc]
  exact congrArg Option.toList h.2

/-- **A try leaves the completion registered.** It is filed under its
deadline and in no list when the try is made, which is so of the first one
and of a retry alike. -/
theorem registered_tryOrResume (hk : (s.view id).keys = c.deadline.toList)
    (h₀ : ∀ fd d, (s.view id).count fd d = 0) (hop : c.op.Registrable) (r : Sys) :
    ((tryOrResume s id c r).1.view id).Registered 0 := by
  obtain ⟨c', hc', hsame⟩ := completion_tryOrResume_self s id c r
  have hstage := stage_tryOrResume_self s id c r
  have hslot := slot_of_same hc' hsame
  have hdead := deadlines_of_same hc' hsame
  have hkeys := keys_tryOrResume_self s id c r hop.ne_connect
  have hcount : ∀ fd d, ((tryOrResume s id c r).1.view id).count fd d
      = if c.op.waits r = true ∧ c.op.slot = some (fd, d) then 1 else 0 := fun fd d => by
    rw [count_tryOrResume_self, h₀, Nat.zero_add]
  have hr : ∀ c₁, ((tryOrResume s id c r).1.view id).completion = some c₁ →
      c₁.op.Registrable := fun c₁ hc₁ => by
    rw [view_completion, hc'] at hc₁
    obtain rfl := Option.some.inj hc₁
    rw [hsame.1]
    exact hop
  cases hw : c.op.waits r with
  | true =>
    rw [hw] at hstage
    refine ⟨fun _ => ?_, ?_, fun fd d => ?_, fun hn => absurd rfl hn, hr⟩
    · rw [view_completion, hc']
      exact Option.some_ne_none c'
    · rw [view_stage, hstage, hkeys, hdead, if_pos (Or.inl hw), hk]
      rfl
    · rw [hcount, view_stage, hstage, hslot, hw]
      simp [stageOf]
  | false =>
    rw [hw] at hstage
    refine View.Registered.of_nowhere ?_ ?_ (fun fd d => ?_) hr
    · rw [view_stage, hstage]
      simp [stageOf]
    · rw [hkeys, hk]
      cases c.deadline <;> simp [hw]
    · rw [hcount, hw]
      simp

/-- **Awaiting a completion leaves it registered**, when nothing is
registered of it before. -/
theorem registered_awaitSuspend (hk : (s.view id).keys = [])
    (h₀ : ∀ fd d, (s.view id).count fd d = 0) (hop : c.op.Registrable) (h : Handle)
    (r : Sys) : ((awaitSuspend s id c h r).1.view id).Registered 0 := by
  rcases awaitSuspend_cases s id c r h _ rfl with
    ⟨fd, ho, -⟩ | ⟨fd, d, ho, hs, he⟩ | ⟨-, he⟩
  · exact absurd ho (hop.ne_connect fd)
  · have hcount : ∀ fd' d', ((awaitSuspend s id c h r).1.view id).count fd' d'
        = if c.op.slot = some (fd', d') then 1 else 0 := fun fd' d' => by
      have ha : c.op.awaits r = true := by rcases ho with ho | ho <;> rw [ho] <;> rfl
      rw [count_awaitSuspend_self, h₀, Nat.zero_add, ha]
      simp
    have hv : (awaitSuspend s id c h r).1.view id
        = { (awaitSuspend s id c h r).1.view id with
            completion := some { c with handle := some h }
            stage := .suspended
            keys := c.deadline.toList } := by
      rw [he, readyAwaitSuspend, view_returnNoop, if_pos rfl,
        view_insertTimeout_self (pushRequest s fd d id) id { c with handle := some h }
          (by rw [view_pushRequest_self]; exact hk)]
    rw [hv]
    refine ⟨fun _ => Option.some_ne_none _, rfl, fun fd' d' => ?_,
      fun hn => absurd rfl hn, fun c₁ hc₁ => ?_⟩
    · rw [show (View.slot _) = c.op.slot from rfl]
      simp only [hcount, ite_self, Nat.add_zero, true_and]
    · obtain rfl := Option.some.inj hc₁
      exact hop
  · rw [he]
    have hv := view_insertTimeout_self s id { c with handle := some h } hk
    exact registered_tryOrResume (c := { c with handle := some h }) (by rw [hv])
      (fun fd d => by rw [hv]; exact h₀ fd d) hop r

/-- **A time out leaves nothing registered**, when the deadline has been
taken out of `timeouts`. -/
theorem registered_iopTimedout (hk : (s.view id).keys = [])
    (hcount : ∀ fd d, (s.view id).count fd d ≠ 0 → c.op.slot = some (fd, d))
    (hop : c.op.Registrable) : ((iopTimedout s id c).1.view id).Registered 0 := by
  obtain ⟨c', hc', hsame⟩ := completion_iopTimedout_self s id c
  refine View.Registered.of_nowhere ?_ ?_ (fun fd d => ?_) (fun c₁ hc₁ => ?_)
  · rw [view_stage, stage_iopTimedout_self]
    exact Stage.noConfusion
  · unfold iopTimedout
    split <;> rw [view_returnHandle, if_pos rfl]
    · exact hk
    · rw [view_cancelIop_self]
      exact hk
  · rw [count_iopTimedout_self]
    by_cases hs : c.op.slot = some (fd, d)
    · have hne : c.op ≠ .sleep := fun he => by rw [he] at hs; exact absurd hs (by simp [Op.slot])
      rw [if_pos hs, if_neg hne]
    · rw [if_neg hs]
      exact not_not.mp (fun hne => hs (hcount fd d hne))
  · rw [view_completion, hc'] at hc₁
    obtain rfl := Option.some.inj hc₁
    rw [hsame.1]
    exact hop

/-- **Destroying an IOP leaves nothing registered**, when no pass has it
still to retry. -/
theorem registered_iopDestructed (h : (s.view id).Registered 0)
    (hc : s.completions id = some c) : ((iopDestructed s id c).view id).Registered 0 := by
  have hslot := slot_of_same hc (c := c) ⟨rfl, rfl⟩
  have hdead := deadlines_of_same hc (c := c) ⟨rfl, rfl⟩
  rw [view_iopDestructed, if_pos rfl, view_cancelIop_self, view_cancelTimeout_self]
  refine View.Registered.of_nowhere Stage.noConfusion ?_ (fun fd d => ?_)
    (fun c₁ hc₁ => absurd hc₁ (by simp))
  · have hk := h.keys
    rw [hdead] at hk
    simp only
    rw [hk]
    cases c.deadline <;> split_ifs <;> simp_all
  · have hcount := h.count fd d
    rw [ite_self, Nat.add_zero, hslot] at hcount
    simp only
    by_cases hs : c.op.slot = some (fd, d)
    · rw [if_pos hs]
    · rw [if_neg hs, hcount, if_neg (fun hand => hs hand.2)]

end Members

/-! ## The loop -/

namespace Filed

variable {s s' : State} {l : List RetrierId} {id : RetrierId} {c : Completion}

/-- The completions that exist have been given a number. -/
theorem lt_next (h : Filed s l) (hc : s.completions id = some c) : id < s.next := by
  by_contra hi
  rw [(h.fresh id (not_lt.mp hi)).1] at hc
  exact absurd hc (by simp)

/-- What is suspended exists. -/
theorem exists_completion (h : Filed s l) (hs : s.stage id = .suspended) :
    ∃ c, s.completions id = some c :=
  Option.ne_none_iff_exists'.mp ((h.view id).exists_of_suspended hs)

/-- Only the views matter, and how often a completion occurs in the
vector. -/
theorem congr (h : Filed s l) (hnext : s'.next = s.next)
    (hview : ∀ i, s'.view i = s.view i) : Filed s' l where
  fresh := fun i hi => by
    have hfresh := h.fresh i (hnext ▸ hi)
    have hv := hview i
    exact ⟨(congrArg View.completion hv).trans hfresh.1,
      (congrArg View.stage hv).trans hfresh.2⟩
  view := fun i => by
    rw [hview i]
    exact h.view i

/-- **A member of a completion keeps the others registered**, so it is enough
that it keeps the one it is on. -/
theorem of_view {l' : List RetrierId} (h : Filed s l) (hc : s.completions id = some c)
    (hnext : s'.next = s.next) (hne : ∀ i, i ≠ id → s'.view i = s.view i)
    (hcount : ∀ i, i ≠ id → l'.count i = l.count i)
    (hself : (s'.view id).Registered (l'.count id)) : Filed s' l' where
  fresh := fun i hi => by
    rw [hnext] at hi
    have hv := hne i (ne_of_gt (lt_of_lt_of_le (h.lt_next hc) hi))
    have hfresh := h.fresh i hi
    exact ⟨(congrArg View.completion hv).trans hfresh.1,
      (congrArg View.stage hv).trans hfresh.2⟩
  view := fun i => by
    by_cases hi : i = id
    · rw [hi]
      exact hself
    · rw [hne i hi, hcount i hi]
      exact h.view i

theorem createIop (h : Filed s l) (call : Call) (hr : call.completion.op.Registrable) :
    Filed (createIop s call) l where
  fresh := fun i hi => by
    have hlt : s.next < i := hi
    have hv := view_createIop s i call
    rw [if_neg (ne_of_gt hlt)] at hv
    have hfresh := h.fresh i (le_of_lt hlt)
    exact ⟨(congrArg View.completion hv).trans hfresh.1,
      (congrArg View.stage hv).trans hfresh.2⟩
  view := fun i => by
    rw [view_createIop]
    by_cases hi : i = s.next
    · subst hi
      have hs : (s.view s.next).stage ≠ .suspended := by
        rw [view_stage, (h.fresh s.next (le_refl _)).2]
        exact Stage.noConfusion
      obtain ⟨hk, hn, hcount⟩ := (h.view s.next).eq_zero hs
      rw [if_pos rfl, hn]
      refine View.Registered.of_nowhere hs hk hcount (fun c hc => ?_)
      obtain rfl := Option.some.inj hc
      exact hr
    · rw [if_neg hi]
      exact h.view i

theorem awaitSuspend (h : Filed s l) (hc : s.completions id = some c)
    (hs : s.stage id = .created) (a : Handle) (r : Sys) :
    Filed (awaitSuspend s id c a r).1 l := by
  have hne : (s.view id).stage ≠ .suspended := by
    rw [view_stage, hs]
    exact Stage.noConfusion
  obtain ⟨hk, hn, hcount⟩ := (h.view id).eq_zero hne
  refine h.of_view hc (congrArg Shell.next (shell_awaitSuspend s id c r a))
    (fun i hi => view_awaitSuspend_of_ne s id i c r a hi) (fun _ _ => rfl) ?_
  rw [hn]
  exact registered_awaitSuspend hk hcount ((h.view id).registrable c hc) a r

/-- A retry of the completion at the head of the vector. -/
theorem tryOrResume {rest : List RetrierId} (h : Filed s (id :: rest))
    (hc : s.completions id = some c) (r : Sys) :
    Filed (tryOrResume s id c r).1 rest := by
  have hn : (id :: rest).count id = rest.count id + 1 := List.count_cons_self
  obtain ⟨hs, hone, hcount⟩ := (h.view id).of_pending (by rw [hn]; exact Nat.succ_ne_zero _)
  have hrest : rest.count id = 0 := by omega
  have hk := (h.view id).keys
  rw [if_pos hs, deadlines_of_same hc ⟨rfl, rfl⟩] at hk
  refine h.of_view hc (congrArg Shell.next (shell_tryOrResume s id c r))
    (fun i hi => view_tryOrResume_of_ne s id i c r hi)
    (fun i hi => (List.count_cons_of_ne (Ne.symm hi)).symm) ?_
  rw [hrest]
  exact registered_tryOrResume hk hcount ((h.view id).registrable c hc) r

theorem iopDestructed (h : Filed s l) (hc : s.completions id = some c)
    (hn : l.count id = 0) : Filed (iopDestructed s id c) l := by
  have hself := h.view id
  rw [hn] at hself
  refine h.of_view hc (congrArg Shell.next (shell_iopDestructed s id c))
    (fun i hi => by rw [view_iopDestructed, if_neg hi]) (fun _ _ => rfl) ?_
  rw [hn]
  exact registered_iopDestructed hself hc

/-- **The first deadline of `timeouts` belongs to a suspended completion**,
and timing that out leaves the others registered. -/
theorem timedOut {t : TimePoint} {entries : List (TimePoint × RetrierId)}
    (h : Filed s []) (he : s.timeouts.entries = (t, id) :: entries) :
    s.stage id = .suspended ∧ ∀ c, s.completions id = some c →
      Filed (iopTimedout { s with timeouts := s.timeouts.eraseBegin } id c).1 [] := by
  have hk : (s.view id).keys = t :: s.timeouts.eraseBegin.keysOf id :=
    s.timeouts.keysOf_eraseBegin_self he
  obtain ⟨hs, hnil⟩ := (h.view id).of_keys hk
  refine ⟨hs, fun c hc => ?_⟩
  refine h.of_view hc (congrArg Shell.next
      (shell_iopTimedout { s with timeouts := s.timeouts.eraseBegin } id c)) (fun i hi => ?_)
    (fun _ _ => rfl) ?_
  · rw [view_iopTimedout_of_ne _ _ _ _ hi]
    exact View.ext rfl rfl (s.timeouts.keysOf_eraseBegin_of_ne he hi) rfl
  · refine registered_iopTimedout hnil (fun fd d hne => ?_)
      ((h.view id).registrable c hc)
    have hcount := (h.view id).count fd d
    rw [slot_of_same hc ⟨rfl, rfl⟩] at hcount
    by_contra hslot
    rw [if_neg hslot, if_neg (fun hand => hslot hand.2)] at hcount
    exact hne hcount

/-- Collecting one list moves what is registered there to the vector. -/
theorem collectSide (h : Filed s s.continuations) (fd : SocketDescriptor) (d : Side) :
    Filed (collectSide s fd d) (collectSide s fd d).continuations where
  fresh := h.fresh
  view := fun i => by
    have hi := h.view i
    have hv : (PollWarden.collectSide s fd d).view i = (s.view i).emptied fd d := by
      refine View.ext rfl rfl rfl ?_
      funext fd' d'
      have hr := registered_modifyRequests s fd fd' d d' (fun _ => [])
      simp only [State.view, View.emptied]
      rw [show (PollWarden.collectSide s fd d).registered fd' d' = _ from hr]
      split <;> rfl
    have hcont : (PollWarden.collectSide s fd d).continuations.count i
        = s.continuations.count i + (s.view i).count fd d := List.count_append
    rw [hv, hcont]
    exact hi.emptied fd d

end Filed

/-- The pass that is running is the only one. -/
theorem pending_goto {s : State} (hf : s.frames ≠ []) (p : Point) :
    (s.goto p).pending = p.pending := by
  rw [goto_eq]
  obtain ⟨f, fs, hfs⟩ := List.exists_cons_of_ne_nil hf
  simp [State.pending, hfs, gotoFrames]

namespace Registration

variable {s s' : State} {id : RetrierId} {c : Completion}

/-- Only the views, the frames and the vector's generation matter. -/
theorem congr (h : Registration s) (hnext : s'.next = s.next)
    (hview : ∀ i, s'.view i = s.view i) (hframes : s'.frames = s.frames)
    (hgen : s'.generation = s.generation) (hfault : s'.fault = s.fault) :
    Registration s' where
  filed := by
    have hp : s'.pending = s.pending := by unfold State.pending; rw [hframes]
    rw [hp]
    exact h.filed.congr hnext hview
  frames := by rw [hframes]; exact h.frames
  generation := fun f hf hp => by
    rw [hframes] at hf
    rw [hgen]
    exact h.generation f hf hp
  fault := hfault.trans h.fault

/-- A member keeps what its completion is registered in in order, and leaves
the shell. -/
theorem of_filed (h : Registration s) (hfiled : Filed s' s.pending)
    (hshell : s'.shell = s.shell) : Registration s' where
  filed := by
    have hp : s'.pending = s.pending := by
      unfold State.pending
      rw [show s'.frames = s.frames from congrArg Shell.frames hshell]
    rw [hp]
    exact hfiled
  frames := by
    rw [show s'.frames = s.frames from congrArg Shell.frames hshell]
    exact h.frames
  generation := fun f hf hp => by
    rw [show s'.frames = s.frames from congrArg Shell.frames hshell] at hf
    rw [show s'.generation = s.generation from congrArg Shell.generation hshell]
    exact h.generation f hf hp
  fault := (congrArg Shell.fault hshell).trans h.fault

/-- The active loop is the only one. -/
theorem frames_eq (h : Registration s) {f : Frame} {fs : List Frame}
    (hf : s.frames = f :: fs) : s.frames = [f] := by
  have hlen := h.frames
  rw [hf] at hlen ⊢
  have hfs : fs = [] := List.eq_nil_of_length_eq_zero (by simpa using hlen)
  rw [hfs]

/-- The loop goes on, with the retriers its next point has still to
retry. -/
theorem goto {f : Frame} (hf : s.frames = [f]) (p : Point) (hfiled : Filed s p.pending)
    (hgen : p.pending ≠ [] → p.generation = some s.generation) (hfault : s.fault = none) :
    Registration (s.goto p) := by
  have hframes : (s.goto p).frames = [{ f with point := p }] := by
    rw [goto_eq, hf]
    rfl
  refine ⟨?_, by rw [hframes]; exact le_refl _, fun f' hf' hp => ?_, by
    rw [goto_eq]; exact hfault⟩
  · rw [pending_goto (by rw [hf]; exact List.cons_ne_nil _ _), goto_eq]
    exact hfiled.congr rfl (fun _ => rfl)
  · rw [hframes, List.mem_singleton] at hf'
    rw [goto_eq]
    subst hf'
    exact hgen hp

/-- The loop goes on with nothing to retry, where it had nothing to
retry. -/
theorem goto_nil (h : Registration s) {f : Frame} {fs : List Frame}
    (hf : s.frames = f :: fs) {p : Point} (hp : p.pending = [])
    (hpend : s.pending = []) : Registration (s.goto p) :=
  Registration.goto (h.frames_eq hf) p (by rw [hp, ← hpend]; exact h.filed)
    (fun hne => absurd hp hne) h.fault

/-- The loop is left, where it had nothing to retry. -/
theorem leave (h : Registration s) (hpend : s.pending = []) : Registration s.leave := by
  have htail : s.frames.tail = [] :=
    List.eq_nil_of_length_eq_zero (by rw [List.length_tail]; have := h.frames; omega)
  have hp : s.leave.pending = [] := by
    unfold State.pending
    rw [show s.leave.frames = [] from htail]
  refine ⟨?_, ?_, fun f hf => ?_, h.fault⟩
  · rw [hp, ← hpend]
    exact h.filed.congr rfl (fun _ => rfl)
  · show s.frames.tail.length ≤ 1
    rw [htail]
    exact Nat.zero_le 1
  · exact absurd (show f ∈ s.frames.tail from hf) (by rw [htail]; simp)

theorem doPollReturns (h : Registration s) {f : Frame} {fs : List Frame}
    (hf : s.frames = f :: fs) (hpend : s.pending = []) : Registration (doPollReturns s) := by
  have h' : Registration { s with resumer := s.resumer.swap } :=
    h.congr rfl (fun _ => rfl) rfl rfl rfl
  exact h'.goto_nil hf rfl hpend

/-- `::poll` has answered: what is ready goes from its list to the
vector. -/
theorem doPoll (h : Registration s) {f : Frame} {fs : List Frame}
    (hf : s.frames = f :: fs) (hpend : s.pending = []) (a : PollAnswer) :
    Registration (doPoll s a) := by
  have hpolled := polled s a
  generalize PollWarden.doPoll s a = s₁ at hpolled ⊢
  cases hpolled with
  | returns => exact h.doPollReturns hf hpend
  | throws => exact h.leave hpend
  | collects =>
    let P : State → Prop := fun t => Filed t t.continuations ∧ t.frames = s.frames ∧
      t.fault = none
    have hclear : P (clearContinuations s) := by
      refine ⟨?_, rfl, h.fault⟩
      have hfiled := h.filed
      rw [hpend] at hfiled
      exact hfiled.congr rfl (fun _ => rfl)
    obtain ⟨hfiled, hframes, hfault⟩ := collect_rule (P := P) a.revents hclear
      (fun t ht => ⟨ht.1.congr rfl (fun _ => rfl), ht.2⟩)
      (fun t fd d ht => ⟨ht.1.collectSide fd d, ht.2⟩)
    exact Registration.goto (hframes.trans (h.frames_eq hf)) _ hfiled (fun _ => rfl)
      hfault

theorem clearTimeouts (h : Registration s) {f : Frame} {fs : List Frame}
    (hf : s.frames = f :: fs) (hpend : s.pending = []) (now : TimePoint) (done : Bool) :
    Registration (clearTimeouts s f now done) := by
  have hfiled := h.filed
  rw [hpend] at hfiled
  have hcleared := clearedTimeouts s f now done
  generalize PollWarden.clearTimeouts s f now done = s₁ at hcleared ⊢
  cases hcleared with
  | leaves => exact h.leave hpend
  | polls => exact h.goto_nil hf rfl hpend
  | @fails t id l he hdue hnone =>
    obtain ⟨hs, -⟩ := hfiled.timedOut he
    obtain ⟨c, hc⟩ := hfiled.exists_completion hs
    exact absurd (hnone.symm.trans hc) (by simp)
  | @timesOut t id l c he hdue hc p hp =>
    obtain ⟨-, hto⟩ := hfiled.timedOut he
    have hshell := shell_iopTimedout { s with timeouts := s.timeouts.eraseBegin } id c
    have hpn : p.pending = [] := by rcases hp with rfl | rfl <;> rfl
    refine Registration.goto ((congrArg Shell.frames hshell).trans (h.frames_eq hf)) p ?_
      (fun hne => absurd hpn hne) ((congrArg Shell.fault hshell).trans h.fault)
    rw [hpn]
    exact hto c hc

theorem retryNext (h : Registration s) {f : Frame} {fs : List Frame}
    (hf : s.frames = f :: fs) {g : ℕ} {rest : List RetrierId}
    (hp : f.point = .continuations g rest) (r : Sys) :
    Registration (retryNext s g rest r) := by
  have hpend : s.pending = rest := by rw [State.pending_eq hf, hp]; rfl
  have hfiled := h.filed
  rw [hpend] at hfiled
  have hretried := retriedNext s g rest r
  generalize PollWarden.retryNext s g rest r = s₁ at hretried ⊢
  cases hretried with
  | returns => exact h.doPollReturns hf hpend
  | fails id rest x hx =>
    -- what the loop has still to retry exists, and its vector has not been cleared
    have hgen := h.generation f (by rw [hf]; exact List.mem_cons_self)
      (by rw [hp]; exact List.cons_ne_nil _ _)
    rw [hp] at hgen
    have hgen : g = s.generation := Option.some.inj hgen
    obtain ⟨c, hc⟩ := hfiled.exists_completion ((hfiled.view id).of_pending (by simp)).1
    have hsome : s.completions id ≠ none := by
      rw [hc]
      simp
    exact absurd hx (not_or.mpr ⟨not_not.mpr hgen, hsome⟩)
  | @retries id rest c hg hc p hp' =>
    have hshell := shell_tryOrResume (s.observe (.retried id)) id c r
    have hpn : p.pending = rest ∧ p.generation = some g := by
      rcases hp' with rfl | rfl <;> exact ⟨rfl, rfl⟩
    refine Registration.goto ((congrArg Shell.frames hshell).trans (h.frames_eq hf)) p ?_
      (fun _ => ?_) ((congrArg Shell.fault hshell).trans h.fault)
    · rw [hpn.1]
      have h' : Filed (s.observe (.retried id)) (id :: rest) := hfiled.congr rfl (fun _ => rfl)
      exact h'.tryOrResume hc r
    · rw [hpn.2, hg]
      exact congrArg some (congrArg Shell.generation hshell).symm

theorem resumeAllNext (h : Registration s) {f : Frame} {fs : List Frame}
    (hf : s.frames = f :: fs) (hpend : s.pending = []) (rest : List Handle) :
    Registration (resumeAllNext s f rest) := by
  have hcleared : Registration { s with resumer := s.resumer.clearResuming } :=
    h.congr rfl (fun _ => rfl) rfl rfl rfl
  have hresumed := resumedAllNext s f rest
  generalize PollWarden.resumeAllNext s f rest = s₁ at hresumed ⊢
  cases hresumed with
  | again => exact hcleared.goto_nil hf rfl hpend
  | leaves => exact hcleared.leave hpend
  | resumes a rest =>
    have h' : Registration (s.observe (.handle a)) := h.congr rfl (fun _ => rfl) rfl rfl rfl
    exact h'.goto_nil hf rfl hpend

/-- A loop is entered, where there was none. -/
theorem enter (h : Registration s) (hf : s.frames = []) (f : Frame)
    (hp : f.point.pending = []) : Registration { s with frames := [f] } := by
  refine ⟨?_, le_refl _, fun f' hf' hne => ?_, h.fault⟩
  · have hpend : s.pending = [] := by unfold State.pending; rw [hf]
    have hfiled := h.filed
    rw [hpend] at hfiled
    show Filed _ f.point.pending
    rw [hp]
    exact hfiled.congr rfl (fun _ => rfl)
  · obtain rfl := List.mem_singleton.mp hf'
    exact absurd hp hne

/-- **Every step of such a run keeps the completions registered.** -/
theorem step {e : Event} (h : Registration s) (hok : PlainStep s e)
    (hs : step s e = some s') : Registration s' := by
  cases (stepped_of_step hs).2 with
  | create hu call =>
    exact ⟨h.filed.createIop call hok, h.frames, h.generation, h.fault⟩
  | await hu hc a r =>
    exact h.of_filed (h.filed.awaitSuspend hc hok a r) (shell_awaitSuspend s _ _ r a)
  | @destroy hu id c hc =>
    refine h.of_filed (h.filed.iopDestructed hc ?_) (shell_iopDestructed s _ _)
    by_contra hn
    have hsusp := ((h.filed.view id).of_pending hn).1
    -- something is left to retry, so the coroutine is one the pass resumed
    cases hf : s.frames with
    | nil =>
      rw [show s.pending = [] by unfold State.pending; rw [hf]] at hn
      exact hn List.count_nil
    | cons f fs =>
      rw [State.pending_eq hf] at hn
      have hrun : f.point.userRuns = true := by
        unfold State.userRuns at hu
        rw [hf] at hu
        exact hu
      refine hok f (by rw [hf]; exact List.mem_cons_self) ?_ hsusp
      cases hp : f.point with
      | retried g rest => rfl
      | continuations g rest => rw [hp] at hrun; exact absurd hrun (by simp [Point.userRuns])
      | _ => rw [hp] at hn; exact absurd List.count_nil hn
  | asyncResume hu handles written =>
    obtain ⟨n, he⟩ := doAsyncResume_eq s handles written
    rw [he]
    exact h.congr rfl (fun _ => rfl) rfl rfl rfl
  | runUntil hu coro =>
    rw [show s.frames = [] from hok]
    exact h.enter hok _ rfl
  | runBatch hu =>
    rw [show s.frames = [] from hok]
    exact h.enter hok _ rfl
  | @suspend f fs hf p hp =>
    have hpend : s.pending = p.pending :=
      (State.pending_eq hf).trans (Point.pending_afterSuspend hp).symm
    refine Registration.goto (h.frames_eq hf) p (hpend ▸ h.filed) (fun hne => ?_) h.fault
    rw [Point.generation_afterSuspend hp]
    refine h.generation f (by rw [hf]; exact List.mem_cons_self) ?_
    rw [← Point.pending_afterSuspend hp]
    exact hne
  | clock hf hp now done =>
    exact h.clearTimeouts hf (by rw [State.pending_eq hf, hp]; rfl) now done
  | poll hf hp a =>
    exact h.doPoll hf (by rw [State.pending_eq hf, hp]; rfl) a
  | retry hf hp r => exact h.retryNext hf hp r
  | resumeNext hf hp =>
    exact h.resumeAllNext hf (by rw [State.pending_eq hf, hp]; rfl) _

end Registration

theorem registration_init (w : SocketDescriptor) : Registration (init w) where
  filed := ⟨fun _ _ => ⟨rfl, rfl⟩, fun i => View.Registered.of_nowhere Stage.noConfusion rfl
    (fun fd d => by cases d <;> exact List.count_nil (a := i))
    (fun c hc => absurd hc (by simp [init]))⟩
  frames := Nat.zero_le _
  generation := fun f hf => absurd hf (by simp [init])
  fault := rfl

/-- **Every such run keeps the completions registered.** -/
theorem registration_of_run {w : SocketDescriptor} {es : List Event} {s : State}
    (h : Run step PlainStep (init w) es s) : Registration s :=
  h.invariant (fun _ _ _ hs hok he => hs.step hok he) (registration_init w)

end PollWarden
