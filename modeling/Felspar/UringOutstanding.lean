import Felspar.UringLedger

/-!
# The list of outstanding completions

A completion whose IOP has been destroyed belongs to the kernel, until its
last CQE has been executed. The list `outstanding` is how the warden knows of
these: the destructor of the IOP puts the completion on it, `execute` takes it
off, and what is on it when the warden goes is deleted.

Two things get in the way. `iop_count` begins at one, so that an IOP which is
destroyed with nothing queued for it – it was never awaited, or there was no
SQE for it – goes on the list too, and no CQE comes to take it off. And
`execute` takes a completion off with every CQE, not only with the last: of
an IOP with a deadline the second CQE finds it missing from the list, and if
the warden goes before that CQE comes, nobody deletes it.

As long as neither happens (`Counted`) the list is exact: it holds each of
these completions once and nothing else, and each is owed a CQE or has the
`execute` of its last one at work on it.
-/

namespace UringWarden

/-! ## The condition -/

/-- The completion exists, and its IOP has been destroyed. -/
def View.orphaned (v : View) : Bool := v.completion.any (fun c => !c.iopExists)

/-- The completion of the `execute` a step ends, if it ends one; a CQE that is
delivered does not yet end its own. -/
def ended (s : State) : Event → Option DeliveryId
  | .suspend => match s.frames.head?.map Frame.point with
    | some (.delivering id) => some id
    | _ => none
  | e => (e.cqe.bind (fun cqe => s.inflight[cqe.index]?)).bind Sqe.userData

/-- No other CQE of it is to come, if its IOP has been destroyed. -/
def EndsLast (s : State) (id : DeliveryId) : Bool :=
  (s.completions id).all (fun c => c.iopExists || c.iopCount = 1)

/-- Something has been queued for an IOP that is destroyed. -/
def DestroysQueued (s : State) : Event → Prop
  | .destroy id => (s.stage id).queued = true
  | _ => True

/-- **The steps that keep the list exact**: an IOP is destroyed only with
something queued for it, and an `execute` ends, for a completion whose IOP has
been destroyed, only with its last CQE. -/
def Counted (s : State) (e : Event) : Prop :=
  AwaitedOnce s e ∧ DestroysQueued s e ∧ (ended s e).all (EndsLast s) = true

instance : DecidableRel DestroysQueued := fun s e =>
  match e with
  | .destroy id => inferInstanceAs (Decidable ((s.stage id).queued = true))
  | .create _ | .await _ _ _ _ | .asyncResume _ _ _ | .runUntil _ | .runBatch _ | .suspend
  | .condition _ _ | .waitCqe _ _ | .peekCqe _ | .resumeNext | .close =>
    inferInstanceAs (Decidable True)

instance : DecidableRel Counted := fun s e =>
  inferInstanceAs (Decidable
    (AwaitedOnce s e ∧ DestroysQueued s e ∧ (ended s e).all (EndsLast s) = true))

/-- **The list is exact**: it holds each completion whose IOP has been
destroyed once, and no other; each is owed a CQE, or the `execute` of its last
one has resumed a coroutine and not ended. When the warden has gone it has
deleted all of them. -/
def State.Booked (s : State) : Prop :=
  if s.closed then ∀ id, (s.view id).orphaned = false
  else ∀ id, s.outstanding.count id = (if (s.view id).orphaned then 1 else 0) ∧
    ((s.view id).orphaned = true →
      0 < (s.view id).owedCqes ∨ ∃ f ∈ s.frames, f.point = .delivering id)

/-- The steps that lead to a state whose list is exact. -/
def Books (s : State) (e : Event) : Prop :=
  AwaitedOnce s e ∧ ∀ s', step s e = some s' → s'.Booked

/-! ## The invariant -/

/-- **What the list says of one completion**: one whose IOP has been destroyed
is on it once, and has had something queued for it. -/
def View.Listed (v : View) : Prop :=
  ∀ c, v.completion = some c → c.iopExists = false → v.stage.queued = true ∧ v.listed = 1

/-- **The list is exact**, in a sound state; when the warden has gone there is
nothing left that it should have deleted. -/
structure Exact (s : State) : Prop where
  sound : Sound s
  listed : s.closed = false → ∀ i, (s.view i).Listed
  closed : s.closed = true → ∀ i, (s.view i).orphaned = false

/-- What the invariant is about. -/
def State.books (s : State) :
    (DeliveryId → Option Completion) × (DeliveryId → Stage) × List DeliveryId :=
  (s.completions, s.stage, s.outstanding)

section Listed

variable {s s' : State} {id : DeliveryId} {c : Completion}

theorem Listed.congr (h : ∀ i, (s.view i).Listed) (hb : s'.books = s.books) :
    ∀ i, (s'.view i).Listed := by
  obtain ⟨hc, hb⟩ := Prod.mk.inj hb
  obtain ⟨hg, ho⟩ := Prod.mk.inj hb
  intro i c
  show s'.completions i = some c → c.iopExists = false →
    (s'.stage i).queued = true ∧ s'.outstanding.count i = 1
  rw [hc, hg, ho]
  exact h i c

/-- A completion whose IOP exists need not be on the list. -/
theorem View.listed_of_iop {v : View} (h : ∀ c, v.completion = some c → c.iopExists = true) :
    v.Listed :=
  fun c hc hn => absurd ((h c hc).symm.trans hn) (by simp)

theorem listed_createIop (h : ∀ i, (s.view i).Listed) (call : Call) :
    ∀ i, ((createIop s call).view i).Listed := by
  intro i
  rw [view_createIop]
  split
  · refine View.listed_of_iop (fun c hc => ?_)
    rw [← Option.some.inj hc]
    cases call <;> rfl
  · exact h i

theorem listed_awaitSuspend (h : ∀ i, (s.view i).Listed) (hc : s.completions id = some c)
    (hex : c.iopExists = true) (a : Handle) (now : TimePoint) (sqes : ℕ) :
    ∀ i, ((awaitSuspend s id c a now sqes).view i).Listed := by
  intro i
  by_cases hi : i = id
  · subst hi
    refine View.listed_of_iop (fun c' hc' => ?_)
    rcases awaitSuspend_cases s i c a now sqes _ rfl with
      he | ⟨-, he⟩ | ⟨t, -, he⟩ | ⟨t, -, he⟩ <;>
      (rw [he] at hc'
       simp only [State.view, State.setStage, State.setCompletion, State.push, State.observe,
         if_true] at hc'
       rw [← Option.some.inj hc']
       exact hex)
  · rw [view_awaitSuspend_of_ne s id i c a now sqes hi]
    exact h i

/-- **The IOP is destroyed**: if something has been queued for it, its
completion goes on the list, where it was not yet. -/
theorem listed_iopDestructed (h : ∀ i, (s.view i).Listed) (hl : Ledger s none)
    (hi : s.iops id = true) (hq : (s.stage id).queued = true) :
    ∀ i, ((iopDestructed s id).view i).Listed := by
  obtain ⟨c, hc⟩ := hl.exists_of_iop hi
  have hk := hl.kept id
  intro i
  by_cases hne : i = id
  · subst hne
    rw [view_iopDestructed_self s i c hc]
    split
    · exact View.listed_of_iop (fun c' hc' => absurd hc' (by simp))
    · intro c' hc' hn
      refine ⟨hq, ?_⟩
      have hex : c.iopExists = true := (hk.iop c hc).trans hi
      have hzero := hk.listed c hc
      rw [hk.outstanding c hc, hex] at hzero
      show (s.view i).listed + 1 = 1
      exact congrArg (· + 1) (Nat.le_zero.mp hzero)
  · rw [view_iopDestructed_of_ne s id i hne]
    exact h i

/-- **An `execute` ends**: with the last CQE the completion is deleted, if its
IOP has been destroyed. -/
theorem listed_executeEnd (h : ∀ i, (s.view i).Listed) (hc : s.completions id = some c)
    (hlast : EndsLast s id = true) : ∀ i, ((executeEnd s id).view i).Listed := by
  intro i
  by_cases hne : i = id
  · subst hne
    rw [view_executeEnd_self s i c hc]
    split
    case isTrue hdel => exact View.listed_of_iop (fun c' hc' => absurd hc' (by simp))
    case isFalse hkeep =>
      refine View.listed_of_iop (fun c' hc' => ?_)
      rw [← Option.some.inj hc']
      show c.iopExists = true
      by_contra hex
      have hn : c.iopExists = false := by simpa using hex
      have hone : c.iopCount = 1 := by
        rw [EndsLast, hc] at hlast
        simpa [hn] using hlast
      exact hkeep ⟨by rw [hone]; rfl, hn⟩
  · rw [view_executeEnd_of_ne s id i hne]
    exact h i

theorem listed_execute (h : ∀ i, (s.view i).Listed) {index : ℕ} {sqe : Sqe}
    (hex : ∀ id, sqe.userData = some id → ∃ c, s.completions id = some c)
    (hlast : ∀ id, sqe.userData = some id → EndsLast s id = true) (result : Int) :
    ∀ i, ((execute (s.cqeSeen index) sqe result).view i).Listed := by
  have hexec := executed (s.cqeSeen index) sqe result
  generalize execute (s.cqeSeen index) sqe result = t at hexec ⊢
  cases hexec with
  | nop hu => exact Listed.congr h (by rw [goto_eq]; rfl)
  | @gone id hu hc =>
    obtain ⟨c, hc'⟩ := hex id hu
    exact absurd (hc.symm.trans hc') (by simp)
  | @ignored id c hu hc hd =>
    have hpeek : ∀ i, (((s.cqeSeen index).observe
        (.executed id sqe.role result)).goto .peekCqe |>.view i).Listed :=
      Listed.congr h (by rw [goto_eq]; rfl)
    refine listed_executeEnd hpeek (c := c) (by rw [goto_eq]; exact hc) ?_
    rw [goto_eq]
    exact hlast id hu
  | @delivered id c outcome hu hc hiop hd =>
    -- what is delivered is recorded in the completion, and its IOP exists
    intro i c' hc' hn
    rw [goto_eq] at hc' ⊢
    by_cases hne : i = id
    · subst hne
      have heq : c' = { c with result := outcome } := by
        simpa [State.view, State.setCompletion, State.observe] using hc'.symm
      rw [heq] at hn
      exact absurd (hiop.symm.trans hn) (by simp)
    · refine h i c' ?_ hn
      simpa [State.view, State.setCompletion, State.observe, State.cqeSeen, hne] using hc'

end Listed

/-! ## Every step, and every run -/

section Steps

variable {s s' : State}

/-- **The destructor deletes what is on the list.** -/
theorem completions_deleteOutstanding (l : List DeliveryId) (s : State) (hl : l.Nodup)
    (hex : ∀ i ∈ l, s.completions i ≠ none) (i : DeliveryId) :
    (deleteOutstanding s l).completions i = if i ∈ l then none else s.completions i := by
  induction l generalizing s with
  | nil => rfl
  | cons id l ih =>
    obtain ⟨hid, hl⟩ := List.nodup_cons.mp hl
    obtain ⟨c, hc⟩ := Option.ne_none_iff_exists'.mp (hex id List.mem_cons_self)
    have hdel : ∀ j, (s.delete id).completions j
        = if j = id then none else s.completions j := fun j => rfl
    unfold deleteOutstanding
    rw [hc]
    dsimp only
    rw [ih (s.delete id) hl (fun j hj => by
      have hne : j ≠ id := fun he => hid (he ▸ hj)
      rw [hdel, if_neg hne]
      exact hex j (List.mem_cons_of_mem _ hj)), hdel]
    by_cases hi : i = id
    · simp [hi]
    · simp [hi]

/-- The `execute` of the CQE an event brings. -/
theorem ended_of_cqe {e : Event} {cqe : Cqe} {sqe : Sqe} (he : e.cqe = some cqe)
    (hq : s.inflight[cqe.index]? = some sqe) : ended s e = sqe.userData := by
  have hbind : (e.cqe.bind (fun cqe => s.inflight[cqe.index]?)).bind Sqe.userData
      = sqe.userData := by rw [he, Option.bind_some, hq]; rfl
  cases e with
  | suspend => exact absurd he (by simp [Event.cqe])
  | _ => exact hbind

@[simp] theorem execute_closed (sqe : Sqe) (result : Int) :
    (execute s sqe result).closed = s.closed := by
  have hexec := executed s sqe result
  generalize execute s sqe result = t at hexec ⊢
  cases hexec with
  | nop hu => rw [goto_eq]
  | gone hu hc => rw [goto_eq]; rfl
  | ignored hu hc hd => rw [executeEnd_closed, goto_eq]; rfl
  | delivered hu hc hex hd => rw [goto_eq]; rfl

theorem View.orphaned_eq_true {v : View} : v.orphaned = true
    ↔ ∃ c, v.completion = some c ∧ c.iopExists = false := by
  unfold View.orphaned
  rw [Option.any_eq_true]
  simp

/-- **The destructor leaves no completion whose IOP is gone.** -/
theorem not_orphaned_close (hl : Ledger s none) (hlisted : ∀ i, (s.view i).Listed)
    (i : DeliveryId) : ((deleteOutstanding s s.outstanding).view i).orphaned = false := by
  have hcount := hl.count_outstanding_le
  have hcompl := completions_deleteOutstanding s.outstanding s
    (List.nodup_iff_count_le_one.mpr (fun i => (hcount i).1))
    (fun i hi => (hcount i).2 (Nat.ne_of_gt (List.count_pos_iff.mpr hi))) i
  rw [← Bool.not_eq_true, View.orphaned_eq_true]
  rintro ⟨c, hc, hn⟩
  have hc' : (deleteOutstanding s s.outstanding).completions i = some c := hc
  rw [hcompl] at hc'
  -- a completion whose IOP was gone was on the list, and has been deleted
  split at hc'
  case isTrue hi => exact absurd hc' (by simp)
  case isFalse hi =>
    have hone : s.outstanding.count i = 1 := (hlisted i c hc' hn).2
    exact hi (List.count_pos_iff.mp (by omega))

/-- **Every step that meets the condition keeps the list exact.** -/
theorem Exact.step {e : Event} (h : Exact s) (hok : Counted s e) (hs : step s e = some s') :
    Exact s' := by
  obtain ⟨hawait, hdestroy, hended⟩ := hok
  have hsound := h.sound.step hawait hs
  obtain ⟨-, hclosed, hstep⟩ := stepped_of_step hs
  have hl := h.sound.ledger hclosed
  have hlisted := h.listed hclosed
  have hopen : ∀ {t : State}, Sound t → t.closed = false → (∀ i, (t.view i).Listed) →
      Exact t := fun ht hc hi =>
    ⟨ht, fun _ => hi, fun hn => absurd (hc.symm.trans hn) (by simp)⟩
  cases hstep with
  | create call => exact hopen hsound hclosed (listed_createIop hlisted call)
  | @await id c hi hc a now sqes =>
    have hex : c.iopExists = true := ((hl.kept id).iop c hc).trans hi
    refine hopen hsound ?_ (listed_awaitSuspend hlisted hc hex a now sqes)
    rcases awaitSuspend_cases s id c a now sqes _ rfl with
      he | ⟨-, he⟩ | ⟨t, -, he⟩ | ⟨t, -, he⟩ <;> rw [he] <;> exact hclosed
  | awaitGone hi hc a now sqes => exact hopen hsound hclosed hlisted
  | @destroy id hi =>
    exact hopen hsound (by rw [iopDestructed_closed]; exact hclosed)
      (listed_iopDestructed hlisted hl hi hdestroy)
  | asyncResume handles sqeLeft taken =>
    obtain ⟨queue, inflight, he⟩ := doAsyncResume_eq s handles sqeLeft taken
    exact hopen hsound (by rw [he]; exact hclosed) (Listed.congr hlisted (by rw [he]; rfl))
  | runUntil coro => exact hopen hsound hclosed (Listed.congr hlisted rfl)
  | runBatch taken => exact hopen hsound hclosed (Listed.congr hlisted rfl)
  | suspend hf hp =>
    exact hopen hsound (by rw [goto_eq]; exact hclosed)
      (Listed.congr hlisted (by rw [goto_eq]; rfl))
  | @delivered f fs hf id hp =>
    have hlast : EndsLast s id = true := by
      have hend : ended s .suspend = some id := by simp [ended, hf, hp]
      rw [hend] at hended
      exact hended
    obtain ⟨c, hc⟩ := (hl.released hf hp).exists_working
    have hc' : s.completions id = some c := by
      rw [goto_eq] at hc
      exact hc
    refine hopen hsound ?_ (listed_executeEnd (c := c)
      (Listed.congr hlisted (by rw [goto_eq]; rfl)) hc (by rw [goto_eq]; exact hlast))
    rw [executeEnd_closed, goto_eq]
    exact hclosed
  | close hf =>
    exact ⟨hsound, fun hn => absurd hn (by simp), fun _ => not_orphaned_close hl hlisted⟩
  | done hf hp taken => exact hopen hsound hclosed (Listed.congr hlisted rfl)
  | submit hf hp taken =>
    exact hopen hsound (by rw [goto_eq]; exact hclosed)
      (Listed.congr hlisted (by rw [goto_eq]; rfl))
  | interrupted hf hp cqe =>
    exact hopen hsound (by rw [goto_eq]; exact hclosed)
      (Listed.congr hlisted (by rw [goto_eq]; rfl))
  | waitFails hf hp hret hne cqe => exact hopen hsound hclosed (Listed.congr hlisted rfl)
  | @take f fs hf hp e cqe sqe he hq =>
    rw [ended_of_cqe he hq] at hended
    have htaken := hl.taken hq
    refine hopen hsound ?_ (listed_execute hlisted (fun id hu => ?_) (fun id hu => ?_) cqe.res)
    · rw [execute_closed]
      exact hclosed
    · exact (hu ▸ htaken).exists_working
    · rw [hu] at hended
      exact hended
  | peekNone hf hp =>
    exact hopen hsound (by rw [beginResumeAll, goto_eq]; exact hclosed)
      (Listed.congr hlisted (by rw [beginResumeAll, goto_eq]; rfl))
  | @resumeNext f fs hf rest hp =>
    have hsame : (resumeAllNext s f rest).closed = s.closed ∧
        (resumeAllNext s f rest).books = s.books := by
      have hresumed := resumedAllNext s f rest
      generalize resumeAllNext s f rest = s₁ at hresumed ⊢
      cases hresumed with
      | again =>
        rw [goto_eq]
        exact ⟨rfl, rfl⟩
      | leaves => exact ⟨rfl, rfl⟩
      | resumes =>
        rw [goto_eq]
        exact ⟨rfl, rfl⟩
    exact hopen hsound (hsame.1.trans hclosed) (Listed.congr hlisted hsame.2)

end Steps

theorem exact_init : Exact init where
  sound := sound_init
  listed := fun _ _ => View.listed_of_iop (fun _ hc => absurd hc (by simp [init, State.view]))
  closed := fun hn => absurd hn (by simp [init])

/-- The invariant says that the list is exact. -/
theorem Exact.booked {s : State} (h : Exact s) : s.Booked := by
  unfold State.Booked
  cases hclosed : s.closed with
  | true => exact h.closed hclosed
  | false =>
    intro id
    have hk := (h.sound.ledger hclosed).kept id
    refine ⟨?_, fun ho => ?_⟩
    · split
      case isTrue ho =>
        obtain ⟨c, hc, hn⟩ := View.orphaned_eq_true.mp ho
        exact (h.listed hclosed id c hc hn).2
      case isFalse ho =>
        cases hc : (s.view id).completion with
        | none => exact (hk.gone hc).2.2.2.1
        | some c =>
          have hex : c.iopExists = true := by
            by_contra hn
            exact ho (View.orphaned_eq_true.mpr ⟨c, hc, by simpa using hn⟩)
          have hle := hk.listed c hc
          rw [hk.outstanding c hc, hex] at hle
          exact Nat.le_zero.mp hle
    · obtain ⟨c, hc, hn⟩ := View.orphaned_eq_true.mp ho
      have hcount := hk.count c hc
      rw [if_pos (h.listed hclosed id c hc hn).1] at hcount
      have hpos := hk.count_pos c hc hn
      by_cases howed : 0 < (s.view id).owedCqes
      · exact Or.inl howed
      · have hheld : 0 < s.frames.countP (fun f => f.point.holds id) := by
          show 0 < (s.view id).held
          omega
        obtain ⟨f, hf, hp⟩ := List.countP_pos_iff.mp hheld
        exact Or.inr ⟨f, hf, of_decide_eq_true hp⟩

/-! ## Where the condition is not met -/

section Exactness

variable {s s' : State} {id : DeliveryId} {c : Completion}

/-- An IOP is destroyed with nothing queued for it: its completion is on the
list, and is owed nothing. -/
theorem not_booked_destroy (hl : Ledger s none) (hclosed : s.closed = false)
    (hi : s.iops id = true) (hq : (s.stage id).queued = false) :
    ¬ (iopDestructed s id).Booked := by
  intro hb
  obtain ⟨c, hc⟩ := hl.exists_of_iop hi
  have hk := hl.kept id
  obtain ⟨hone, howed, hheld, -⟩ : c.iopCount = 1 ∧ (s.view id).owedCqes = 0
      ∧ (s.view id).held = 0 ∧ 0 = 0 := by
    have hcount := hk.count c hc
    rwa [if_neg (show ¬ (s.view id).stage.queued = true by simp [hq])] at hcount
  have hself := view_iopDestructed_self s id c hc
  rw [if_neg (by rw [hone]; exact one_ne_zero)] at hself
  have hframes : (iopDestructed s id).frames = s.frames :=
    congrArg Prod.fst (loop_iopDestructed s id)
  rw [State.Booked, if_neg (by rw [iopDestructed_closed, hclosed]; simp)] at hb
  obtain ⟨-, hto⟩ := hb id
  rw [hself, hframes] at hto
  rcases hto (View.orphaned_eq_true.mpr ⟨_, rfl, rfl⟩) with hpos | ⟨f, hf, hp⟩
  · exact absurd howed (Nat.ne_of_gt hpos)
  · have hpos : 0 < s.frames.countP (fun f => f.point.holds id) :=
      List.countP_pos_iff.mpr ⟨f, hf, decide_eq_true hp⟩
    exact absurd hheld (Nat.ne_of_gt hpos)

/-- An `execute` ends, with another CQE to come, for a completion whose IOP has
been destroyed: the completion is not on the list any longer. -/
theorem not_booked_executeEnd (hl : Ledger s (some id)) (hclosed : s.closed = false)
    (hc : s.completions id = some c) (hlast : EndsLast s id = false) :
    ¬ (executeEnd s id).Booked := by
  intro hb
  have hk := hl.view id
  rw [if_pos rfl] at hk
  obtain ⟨hn, hne⟩ : c.iopExists = false ∧ c.iopCount ≠ 1 := by
    rw [EndsLast, hc] at hlast
    simpa using hlast
  have hcount := (hk.count_eq hc (by omega)).2
  have hmore : sizeDecrement c.iopCount ≠ 0 := by
    have hle := hk.count_le c hc
    rw [hcount, View.Kept.sizeDecrement_succ (by omega)]
    omega
  have hself := view_executeEnd_self s id c hc
  rw [if_neg (fun h => hmore h.1), if_pos (by rw [hk.outstanding c hc, hn]; rfl)] at hself
  rw [State.Booked, if_neg (by rw [executeEnd_closed, hclosed]; simp)] at hb
  obtain ⟨hone, -⟩ := hb id
  have hlisted : (executeEnd s id).outstanding.count id = 0 := congrArg View.listed hself
  rw [hlisted, if_pos (View.orphaned_eq_true.mpr
    ⟨_, congrArg View.completion hself, hn⟩)] at hone
  exact absurd hone (by simp)

/-- The CQE that is taken is of a completion whose IOP has been destroyed, with
another to come: nothing is delivered for it, and its `execute` ends at once. -/
theorem not_booked_take (hl : Ledger s none) (hclosed : s.closed = false) {f : Frame}
    {fs : List Frame} (hf : s.frames = f :: fs) (hp : ∀ i, f.point.holds i = false)
    {index : ℕ} {sqe : Sqe} (hq : s.inflight[index]? = some sqe) (hu : sqe.userData = some id)
    (hlast : EndsLast s id = false) (result : Int) :
    ¬ (execute (s.cqeSeen index) sqe result).Booked := by
  intro hb
  have htaken := hl.taken hq
  rw [hu] at htaken
  obtain ⟨c, hc⟩ := htaken.exists_working
  have hn : c.iopExists = false := by
    have hlast' := hlast
    rw [EndsLast, show s.completions id = some c from hc] at hlast'
    by_contra hex
    simp [show c.iopExists = true by simpa using hex] at hlast'
  rw [(Executed.ignored (s := s.cqeSeen index) hu hc (Or.inl hn)).eq] at hb
  have ho := htaken.observe (.executed id sqe.role result) (htaken.lt_next hc) rfl
  refine not_booked_executeEnd (ho.goto_idle hf .peekCqe (fun i => hp i))
    (by rw [goto_eq]; exact hclosed) (c := c) (by rw [goto_eq]; exact hc) ?_ hb
  rw [goto_eq]
  exact hlast

/-- **Where the list stays exact the condition has been met.** -/
theorem Exact.counted {e : Event} (h : Exact s) (hok : Books s e)
    (hs : UringWarden.step s e = some s') : Counted s e := by
  obtain ⟨hawait, hbooked⟩ := hok
  have hb : s'.Booked := hbooked s' hs
  obtain ⟨-, hclosed, hstep⟩ := stepped_of_step hs
  have hl := h.sound.ledger hclosed
  refine ⟨hawait, ?_, ?_⟩
  · cases hstep with
    | @destroy id hi =>
      show (s.stage id).queued = true
      by_contra hq
      exact not_booked_destroy hl hclosed hi (by simpa using hq) hb
    | @take f fs hf hp e cqe sqe he hq =>
      cases e with
      | destroy id => exact absurd he (by simp [Event.cqe])
      | _ => trivial
    | _ => trivial
  · cases hstep with
    | @delivered f fs hf id hp =>
      rw [show ended s .suspend = some id by simp [ended, hf, hp]]
      show EndsLast s id = true
      by_contra hlast
      obtain ⟨c, hc⟩ := (hl.released hf hp).exists_working
      refine not_booked_executeEnd (hl.released hf hp) (by rw [goto_eq]; exact hclosed) hc ?_ hb
      rw [goto_eq]
      exact (Bool.not_eq_true _).mp hlast
    | @suspend f fs hf p hp =>
      have hnone : ended s .suspend = none := by
        rw [ended, hf]
        cases hfp : f.point <;> rw [hfp] at hp <;> cases hp <;> simp [hfp]
      rw [hnone]
      rfl
    | @take f fs hf hp e cqe sqe he hq =>
      rw [ended_of_cqe he hq]
      cases hu : sqe.userData with
      | none => rfl
      | some id =>
        show EndsLast s id = true
        by_contra hlast
        have hidle : ∀ i, f.point.holds i = false := fun i => by
          rcases hp with hp | hp <;> rw [hp] <;> rfl
        exact not_booked_take hl hclosed hf hidle hq hu ((Bool.not_eq_true _).mp hlast) cqe.res hb
    | waitFails hf hp hret hne cqe =>
      rw [show ended s (.waitCqe _ cqe) = none by simp [ended, Event.cqe, hret]]
      rfl
    | _ => rfl

end Exactness

/-- **When the list is exact**: in the runs in which no IOP is destroyed with
nothing queued for it, and no `execute` ends, for a completion whose IOP has
been destroyed, with another CQE to come – and in no others. -/
theorem booked_iff_counted (es : List Event) (s : State) :
    Run step Books init es s ↔ Run step Counted init es s := by
  constructor
  · intro h
    refine h.imp (P := Exact) (fun s e s' hx hok hs => ?_) exact_init
    have hcounted := hx.counted hok hs
    exact ⟨hcounted, hx.step hcounted hs⟩
  · intro h
    refine h.imp (P := Exact) (fun s e s' hx hok hs => ?_) exact_init
    have hx' := hx.step hok hs
    refine ⟨⟨hok.1, fun t ht => ?_⟩, hx'⟩
    rw [← Option.some.inj (hs.symm.trans ht)]
    exact hx'.booked

/-- **The list is not always exact.** The IOP of a read is destroyed before it
has been awaited, and its completion is listed with no CQE to come; and the
IOP of a read with a deadline is destroyed while it is in flight, and its
completion is off the list once the first of its two CQEs has been
executed. -/
theorem not_booked_of_run :
    (∃ s, Run step Orderly init [.create (.readSome 5 1 none), .destroy 0] s
      ∧ s.outstanding = [0] ∧ (s.view 0).owedCqes = 0 ∧ ¬ s.Booked) ∧
    (∃ s, Run step Orderly init
      [.create (.readSome 5 1 (some 7000000)), .runUntil 1, .await 0 2 0 2, .destroy 0,
        .suspend, .condition false 2, .waitCqe 0 ⟨0, 1⟩] s
      ∧ s.outstanding = [] ∧ (s.view 0).owedCqes = 1 ∧ ¬ s.Booked) := by
  constructor
  · obtain ⟨s, hrun, htest⟩ := exists_run_of_exec step Orderly init
      [.create (.readSome 5 1 none), .destroy 0]
      (fun s => s.closed = false ∧ s.outstanding = [0] ∧ (s.view 0).owedCqes = 0
        ∧ (s.view 0).orphaned = true ∧ s.frames = []) (by decide)
    obtain ⟨hclosed, hout, howed, ho, hf⟩ := of_decide_eq_true htest
    refine ⟨s, hrun, hout, howed, fun hb => ?_⟩
    rw [State.Booked, if_neg (by rw [hclosed]; simp)] at hb
    rcases (hb 0).2 ho with hpos | ⟨f, hmem, -⟩
    · exact absurd howed (Nat.ne_of_gt hpos)
    · rw [hf] at hmem
      exact absurd hmem (by simp)
  · obtain ⟨s, hrun, htest⟩ := exists_run_of_exec step Orderly init
      [.create (.readSome 5 1 (some 7000000)), .runUntil 1, .await 0 2 0 2, .destroy 0,
        .suspend, .condition false 2, .waitCqe 0 ⟨0, 1⟩]
      (fun s => s.closed = false ∧ s.outstanding = [] ∧ (s.view 0).owedCqes = 1
        ∧ (s.view 0).orphaned = true) (by decide)
    obtain ⟨hclosed, hout, howed, ho⟩ := of_decide_eq_true htest
    refine ⟨s, hrun, hout, howed, fun hb => ?_⟩
    rw [State.Booked, if_neg (by rw [hclosed]; simp)] at hb
    have hone := (hb 0).1
    rw [hout, ho] at hone
    exact absurd hone (by simp)

/-- The condition is met by an IOP that is destroyed in the `deliver` of its
only CQE, which is how most of them go. -/
example : (exec step Counted init
    [.create (.readSome 5 1 none), .runUntil 1, .await 0 2 0 1, .suspend, .condition false 1,
      .waitCqe 0 ⟨0, 1⟩, .destroy 0, .suspend, .peekCqe none]).isSome = true := by decide

end UringWarden
