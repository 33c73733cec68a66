import Felspar.UringDelivery

/-!
# Reads that are cancelled

When the IOP of a read is destroyed while the read is in flight, nothing tells
the kernel: the destructor puts the completion on the list of outstanding
ones, under the comment that it cancels the IOP, and the operation goes on. It
takes what comes to the descriptor next, and `execute` drops the CQE that says
so, as there is no coroutine left to tell.

A read reports what it has taken if its CQE finds a coroutine that waits for
it, and what is said here is that this is also the only way: in a run nothing
that a read has taken is lost if and only if no CQE with a count of bytes
comes for a read whose IOP has been destroyed, whose await has thrown, or
whose coroutine the linked timeout has resumed already.
-/

namespace UringWarden

/-! ## What reads take -/

/-- The coroutine that awaits an IOP is suspended there. -/
def State.waits (s : State) (id : DeliveryId) : Bool :=
  s.iops id && decide (s.stage id = .awaited) && (resumptions (s.log id)).isEmpty

/-- **What a read has taken from a descriptor**, and whether the coroutine
that waits for it is resumed with it. -/
structure Transfer where
  fd : SocketDescriptor
  bytes : Int
  reported : Bool
  deriving DecidableEq

/-- The read of which an event brings a CQE that counts bytes. -/
def readTaken (s : State) (e : Event) : Option (SocketDescriptor × Int × DeliveryId) :=
  e.cqe.bind (fun cqe => s.inflight[cqe.index]?.bind (fun sqe =>
    match sqe.prep, sqe.userData with
    | .op (.readSome fd _), some id => if 0 < cqe.res then some (fd, cqe.res, id) else none
    | _, _ => none))

/-- What a step takes from a descriptor. -/
def transfers (s : State) (e : Event) : List Transfer :=
  match readTaken s e with
  | none => []
  | some (fd, n, id) =>
    [⟨fd, n, s.waits id && (step s e).any (fun s' =>
      s'.trace.head? = some (.resumed id (Outcome.ofResult n)))⟩]

/-- **The steps that lose nothing**: a CQE that counts the bytes of a read
finds its coroutine waiting. -/
def Heeded (s : State) (e : Event) : Prop :=
  AwaitedOnce s e ∧ ∀ p ∈ readTaken s e, s.waits p.2.2 = true

instance : DecidableRel Heeded := fun s e =>
  inferInstanceAs (Decidable (AwaitedOnce s e ∧ ∀ p ∈ readTaken s e, s.waits p.2.2 = true))

/-! ## What an SQE has been prepared for -/

/-- **An SQE is of the operation of its completion.** -/
def Prepared (s : State) : Prop :=
  ∀ sqe ∈ s.queue ++ s.inflight, ∀ id op c, sqe.userData = some id → sqe.prep = .op op →
    s.completions id = some c → c.op = op

section Prepared

variable {s s' : State} {id : DeliveryId} {c : Completion}

/-- Nothing is queued, and completions are changed in other fields or
deleted. -/
theorem Prepared.mono (h : Prepared s)
    (hq : ∀ q ∈ s'.queue ++ s'.inflight, q ∈ s.queue ++ s.inflight ∨ q.userData = none)
    (hc : ∀ i c', s'.completions i = some c' → ∃ c, s.completions i = some c ∧ c'.op = c.op) :
    Prepared s' := by
  intro sqe hsqe i op c' hu hp hc'
  obtain ⟨c, hci, hop⟩ := hc i c' hc'
  rcases hq sqe hsqe with hmem | hnone
  · rw [hop]
    exact h sqe hmem i op c hu hp hci
  · exact absurd (hnone.symm.trans hu) (by simp)

/-- The queues and the completions stay as they are. -/
theorem Prepared.congr (h : Prepared s) (hq : s'.queue ++ s'.inflight = s.queue ++ s.inflight)
    (hc : s'.completions = s.completions) : Prepared s' :=
  h.mono (fun _ hsqe => Or.inl (hq ▸ hsqe)) (fun _ c' hc' => ⟨c', hc ▸ hc', rfl⟩)

theorem Prepared.observe (h : Prepared s) (o : Obs) : Prepared (s.observe o) := h.congr rfl rfl

theorem Prepared.goto (h : Prepared s) (p : Point) : Prepared (s.goto p) := by
  rw [goto_eq]
  exact h.congr rfl rfl

theorem Prepared.submit (h : Prepared s) (taken : ℕ) : Prepared (s.submit taken) := by
  refine h.mono (fun sqe hsqe => Or.inl ?_) (fun i c' hc' => ⟨c', hc', rfl⟩)
  rcases List.mem_append.mp hsqe with hm | hm
  · exact List.mem_append_left _ (List.mem_of_mem_drop hm)
  · rcases List.mem_append.mp hm with hm | hm
    · exact List.mem_append_right _ hm
    · exact List.mem_append_left _ (List.mem_of_mem_take hm)

/-- Another field of a completion changes. -/
theorem Prepared.setCompletion (h : Prepared s) (hc : s.completions id = some c)
    (c' : Completion) (hop : c'.op = c.op) : Prepared (s.setCompletion id c') := by
  refine h.mono (fun sqe hsqe => Or.inl hsqe) (fun i c₁ hc₁ => ?_)
  by_cases hi : i = id
  · subst hi
    rw [show c₁ = c' by simpa [State.setCompletion] using hc₁.symm]
    exact ⟨c, hc, hop⟩
  · exact ⟨c₁, by simpa [State.setCompletion, hi] using hc₁, rfl⟩

theorem Prepared.delete (h : Prepared s) (id : DeliveryId) : Prepared (s.delete id) := by
  refine h.mono (fun sqe hsqe => Or.inl hsqe) (fun i c' hc' => ⟨c', ?_, rfl⟩)
  have hd : (if i = id then none else s.completions i) = some c' := hc'
  split at hd
  · exact absurd hd (by simp)
  · exact hd

/-- An SQE that is queued is of the operation of its completion, or of
none. -/
theorem Prepared.push (h : Prepared s) (hc : s.completions id = some c) {sqe : Sqe}
    (hu : sqe.userData = some id) (hp : ∀ op, sqe.prep = .op op → c.op = op) :
    Prepared (s.push sqe) := by
  intro q hq i op c' hqu hqp hc'
  have hmem : q ∈ s.queue ++ s.inflight ∨ q = sqe := by
    simp only [State.push, List.mem_append, List.mem_singleton] at hq ⊢
    tauto
  rcases hmem with hm | rfl
  · exact h q hm i op c' hqu hqp hc'
  · obtain rfl := Option.some.inj (hu.symm.trans hqu)
    obtain rfl := Option.some.inj (hc.symm.trans hc')
    exact hp op hqp

/-- No SQE is of a completion that is still to be created. -/
theorem Prepared.createIop (h : Prepared s) (hl : Ledger s none) (call : Call) :
    Prepared (createIop s call) := by
  intro sqe hsqe i op c hu hp hc
  by_cases hi : i = s.next
  · subst hi
    obtain ⟨-, howed, -⟩ := (hl.kept s.next).gone (hl.fresh s.next (le_refl _)).1
    have hof : sqe.isOf s.next sqe.role = true := by simp [Sqe.isOf, hu]
    have hpos : 0 < (s.view s.next).owed sqe.role := by
      have hcount : 0 < (s.queue ++ s.inflight).countP (fun q => q.isOf s.next sqe.role) :=
        List.countP_pos_iff.mpr ⟨sqe, hsqe, hof⟩
      rwa [List.countP_append] at hcount
    unfold View.owedCqes at howed
    cases hr : sqe.role <;> rw [hr] at hpos <;> omega
  · have hc' : s.completions i = some c := by
      simpa [UringWarden.createIop, State.setCompletion, hi] using hc
    exact h sqe hsqe i op c hu hp hc'

theorem Prepared.awaitSuspend (h : Prepared s) (hc : s.completions id = some c) (a : Handle)
    (now : TimePoint) (sqes : ℕ) : Prepared (awaitSuspend s id c a now sqes) := by
  have hset : Prepared (s.setCompletion id { c with handle := some a }) :=
    h.setCompletion hc _ rfl
  have hself : ∀ c', (s.setCompletion id c').completions id = some c' := fun c' => if_pos rfl
  have hop : ∀ link, Prepared ((s.setCompletion id { c with handle := some a }).push
      { prep := .op c.op, userData := some id, link := link }) := fun link =>
    hset.push (hself _) rfl (fun op hp => (Prep.op.inj hp))
  rcases awaitSuspend_cases s id c a now sqes _ rfl with
    he | ⟨-, he⟩ | ⟨t, -, he⟩ | ⟨t, -, he⟩
  · rw [he]
    exact hset.congr rfl rfl
  · rw [he]
    exact (hop false).congr rfl rfl
  · rw [he]
    have htimer : Prepared (((s.setCompletion id { c with handle := some a }).push
        { prep := .op c.op, userData := some id, link := true }).push
          { prep := .linkTimeout (remaining t now), userData := some id }) :=
      (hop true).push (hself _) rfl (fun op hp => absurd hp (by simp))
    exact (htimer.setCompletion (hself _) { c with handle := some a, iopCount := 2 } rfl).congr
      rfl rfl
  · rw [he]
    exact (hop true).congr rfl rfl

theorem Prepared.iopDestructed (h : Prepared s) (id : DeliveryId) :
    Prepared (iopDestructed s id) := by
  unfold UringWarden.iopDestructed
  dsimp only
  split
  · exact h.congr rfl rfl
  · rename_i c hc
    split
    · exact Prepared.delete (h.congr rfl rfl) id
    · exact (Prepared.setCompletion (h.congr rfl rfl) hc
        { c with iopExists := false, isOutstanding := true } rfl).congr rfl rfl

theorem Prepared.executeEnd (h : Prepared s) (id : DeliveryId) : Prepared (executeEnd s id) := by
  refine h.mono (fun sqe hsqe => Or.inl ?_) (fun i c' hc' => ?_)
  · rcases executeEnd_eq s id with he | ⟨l, he | ⟨c, he⟩⟩ <;> rw [he] at hsqe <;> exact hsqe
  · by_cases hi : i = id
    · subst hi
      cases hc : s.completions i with
      | none =>
        have hfail : UringWarden.executeEnd s i = s.fail (.useAfterDelete i) := by
          unfold UringWarden.executeEnd
          rw [hc]
        rw [hfail] at hc'
        exact absurd (hc.symm.trans hc') (by simp)
      | some c =>
        refine ⟨c, rfl, ?_⟩
        have hself := congrArg View.completion (view_executeEnd_self s i c hc)
        rw [view_completion, hc'] at hself
        split at hself
        · exact absurd hself (by simp)
        · rw [Option.some.inj hself]
    · have hne := congrArg View.completion (view_executeEnd_of_ne s id i hi)
      rw [view_completion, hc'] at hne
      exact ⟨c', hne.symm, rfl⟩

theorem Prepared.execute (h : Prepared s) (sqe : Sqe) (result : Int) :
    Prepared (execute s sqe result) := by
  have hexec := executed s sqe result
  generalize UringWarden.execute s sqe result = t at hexec ⊢
  cases hexec with
  | nop hu => exact h.goto _
  | @gone id hu hc =>
    have hobs := h.observe (.executed id sqe.role result)
    exact (hobs.goto .peekCqe).congr rfl rfl
  | @ignored id c hu hc hd =>
    have hobs := h.observe (.executed id sqe.role result)
    exact (hobs.goto .peekCqe).executeEnd id
  | @delivered id c outcome hu hc hex hd =>
    have hobs := h.observe (.executed id sqe.role result)
    have hset := hobs.setCompletion hc { c with result := outcome } rfl
    exact (hset.observe (.resumed id outcome)).goto _

theorem Prepared.deleteOutstanding (l : List DeliveryId) (h : Prepared s) :
    Prepared (deleteOutstanding s l) := by
  induction l generalizing s with
  | nil => exact h
  | cons id l ih =>
    unfold UringWarden.deleteOutstanding
    split
    · exact h.congr rfl rfl
    · exact ih (h.delete id)

end Prepared

/-! ## Every step, and every run -/

section Steps

variable {s s' : State}

theorem Prepared.step {e : Event} (h : Prepared s) (hsound : Sound s)
    (hs : UringWarden.step s e = some s') : Prepared s' := by
  obtain ⟨-, hclosed, hstep⟩ := stepped_of_step hs
  have hl := hsound.ledger hclosed
  cases hstep with
  | create call => exact h.createIop hl call
  | await hi hc a now sqes => exact h.awaitSuspend hc a now sqes
  | awaitGone hi hc a now sqes => exact h.congr rfl rfl
  | destroy hi => exact h.iopDestructed _
  | asyncResume handles sqeLeft taken =>
    unfold doAsyncResume wakeEventLoop
    dsimp only
    -- the SQE of the wake-up is of no completion
    have hnop : Prepared (State.push { s with resumer := (s.resumer.queue handles).1 }
        { prep := .nop, userData := none }) := by
      refine h.mono (fun sqe hsqe => ?_) (fun i c hc => ⟨c, hc, rfl⟩)
      simp only [State.push, List.mem_append, List.mem_singleton] at hsqe ⊢
      rcases hsqe with (hm | rfl) | hm
      · exact Or.inl (Or.inl hm)
      · exact Or.inr rfl
      · exact Or.inl (Or.inr hm)
    split_ifs
    · exact hnop.submit taken
    · exact h.congr rfl rfl
    · exact h.congr rfl rfl
  | runUntil coro => exact h.congr rfl rfl
  | runBatch taken => exact (h.submit taken).congr rfl rfl
  | suspend hf hp => exact h.goto _
  | delivered hf hp => exact (h.goto _).executeEnd _
  | close hf => exact (h.deleteOutstanding s.outstanding).congr rfl rfl
  | done hf hp taken => exact h.congr rfl rfl
  | submit hf hp taken => exact (h.submit taken).goto _
  | interrupted hf hp cqe => exact h.goto _
  | waitFails hf hp hret hne cqe => exact h.congr rfl rfl
  | @take f fs hf hp e cqe sqe he hq =>
    have hseen : Prepared (s.cqeSeen cqe.index) := by
      refine h.mono (fun q hmem => Or.inl ?_) (fun i c hc => ⟨c, hc, rfl⟩)
      rcases List.mem_append.mp hmem with hm | hm
      · exact List.mem_append_left _ hm
      · exact List.mem_append_right _ (List.mem_of_mem_eraseIdx hm)
    exact hseen.execute sqe cqe.res
  | peekNone hf hp => exact Prepared.goto (s := { s with resumer := s.resumer.swap }) h _
  | @resumeNext f fs hf rest hp =>
    have hresumed := resumedAllNext s f rest
    generalize resumeAllNext s f rest = s₁ at hresumed ⊢
    cases hresumed with
    | again => exact Prepared.goto (s := { s with resumer := s.resumer.clearResuming }) h _
    | leaves => exact h.congr rfl rfl
    | resumes => exact h.goto _

/-- What the event of a read's CQE is. -/
theorem readTaken_eq_some {e : Event} {fd : SocketDescriptor} {n : Int} {id : DeliveryId}
    (h : readTaken s e = some (fd, n, id)) :
    ∃ cqe sqe size, e.cqe = some cqe ∧ s.inflight[cqe.index]? = some sqe
      ∧ sqe.prep = .op (.readSome fd size) ∧ sqe.userData = some id ∧ cqe.res = n ∧ 0 < n := by
  obtain ⟨cqe, he, h⟩ := Option.bind_eq_some_iff.mp h
  obtain ⟨sqe, hq, h⟩ := Option.bind_eq_some_iff.mp h
  refine ⟨cqe, sqe, ?_⟩
  split at h
  · rename_i fd' size id' hp hu
    split at h
    · rename_i hpos
      obtain ⟨rfl, rfl, rfl⟩ : fd' = fd ∧ cqe.res = n ∧ id' = id := by
        simpa using Option.some.inj h
      exact ⟨size, he, hq, hp, hu, rfl, hpos⟩
    · exact absurd h (by simp)
  · exact absurd h (by simp)

/-- **A read whose coroutine waits reports what it has taken.** -/
theorem reported_of_waits {e : Event} (hp : Prepared s) (hsound : Sound s)
    {fd : SocketDescriptor} {n : Int} {id : DeliveryId}
    (h : readTaken s e = some (fd, n, id)) (hw : s.waits id = true)
    (hs : UringWarden.step s e = some s') :
    s'.trace.head? = some (.resumed id (Outcome.ofResult n)) := by
  obtain ⟨cqe, sqe, size, he, hq, hprep, hu, rfl, hpos⟩ := readTaken_eq_some h
  obtain ⟨-, hclosed, hstep⟩ := stepped_of_step hs
  have hl := hsound.ledger hclosed
  have hiop : s.iops id = true := by
    unfold State.waits at hw
    simp only [Bool.and_eq_true] at hw
    exact hw.1.1
  obtain ⟨c, hc⟩ := hl.exists_of_iop hiop
  have hex : c.iopExists = true := ((hl.kept id).iop c hc).trans hiop
  have hop : c.op = .readSome fd size :=
    hp sqe (List.mem_append_right _ (List.mem_of_getElem? hq)) id _ c hu hprep hc
  have hd : c.deliver cqe.res = some (Outcome.ofResult cqe.res) := by
    rw [deliver_of_kind, hop]
    show c.deliverValue cqe.res = _
    unfold Completion.deliverValue
    rw [if_neg (not_lt.mpr hpos.le)]
  have htake : s' = execute (s.cqeSeen cqe.index) sqe cqe.res := by
    cases hstep with
    | @take f fs hf hp e cqe' sqe' he' hq' =>
      obtain rfl := Option.some.inj (he.symm.trans he')
      obtain rfl := Option.some.inj (hq.symm.trans hq')
      rfl
    | waitFails hf hp hret hne cqe' => exact absurd he (by simp [Event.cqe, hret])
    | interrupted hf hp cqe' => exact absurd he (by simp [Event.cqe])
    | _ => exact absurd he (by simp [Event.cqe])
  rw [htake, (Executed.delivered (s := s.cqeSeen cqe.index) hu hc hex hd).eq, goto_eq]
  rfl

end Steps

/-- A read that takes bytes is one transfer. -/
theorem transfers_eq {s : State} {e : Event} {fd : SocketDescriptor} {n : Int}
    {id : DeliveryId} (h : readTaken s e = some (fd, n, id)) :
    transfers s e = [⟨fd, n, s.waits id && (step s e).any (fun s' =>
      s'.trace.head? = some (.resumed id (Outcome.ofResult n)))⟩] := by
  unfold transfers
  rw [h]

/-- **When nothing that a read takes is lost**: in the runs in which every
CQE that counts bytes finds the coroutine of its read waiting, and in no
others. -/
theorem reported_iff_of_run {es : List Event} {s : State}
    (h : Run step AwaitedOnce init es s) :
    (∀ x ∈ observed step transfers init es, x.reported = true)
      ↔ Run step Heeded init es s := by
  rw [h.forall_observed_iff transfers (fun x => x.reported = true)]
  constructor
  · intro hrun
    refine hrun.mono (fun s e hok => ⟨hok.1, ?_⟩)
    rintro ⟨fd, n, id⟩ hp
    have hx := hok.2 _ (by rw [transfers_eq hp]; exact List.mem_singleton_self _)
    exact (Bool.and_eq_true_iff.mp hx).1
  · intro hrun
    refine hrun.imp (P := fun s => Sound s ∧ Prepared s) (fun s e s' hinv hok hs => ?_)
      ⟨sound_init, fun sqe hsqe => absurd hsqe (by simp [init])⟩
    obtain ⟨hsound, hprepared⟩ := hinv
    refine ⟨⟨hok.1, fun x hx => ?_⟩, hsound.step hok.1 hs, hprepared.step hsound hs⟩
    cases hr : readTaken s e with
    | none =>
      rw [transfers, hr] at hx
      exact absurd hx (by simp)
    | some p =>
      obtain ⟨fd, n, id⟩ := p
      have hw : s.waits id = true := hok.2 _ hr
      rw [transfers_eq hr] at hx
      obtain rfl := List.mem_singleton.mp hx
      have hrep := reported_of_waits hprepared hsound hr hw hs
      show (s.waits id && (step s e).any _) = true
      rw [hw, hs]
      exact decide_eq_true hrep

/-- A read is told of the five bytes it has taken. -/
theorem reported_iff_of_run_read :
    ∃ s, Run step AwaitedOnce init
        [.create (.readSome 5 8 none), .runUntil 1, .await 0 2 0 1, .suspend,
          .condition false 1, .waitCqe 0 ⟨0, 5⟩] s
      ∧ Run step Heeded init
        [.create (.readSome 5 8 none), .runUntil 1, .await 0 2 0 1, .suspend,
          .condition false 1, .waitCqe 0 ⟨0, 5⟩] s := by
  obtain ⟨s, hrun, -⟩ := exists_run_of_exec step AwaitedOnce init
    [.create (.readSome 5 8 none), .runUntil 1, .await 0 2 0 1, .suspend,
      .condition false 1, .waitCqe 0 ⟨0, 5⟩] (fun _ => true) (by decide)
  exact ⟨s, hrun, (reported_iff_of_run hrun).mp (by decide)⟩

/-- **Bytes are lost**: the coroutine that awaits a sleep destroys the IOP of
a read that is in flight, and then the read takes five bytes. -/
theorem not_reported_of_run :
    ∃ s, Run step Orderly init
        [.create (.readSome 5 8 none), .create (.sleep 10), .runUntil 1, .await 0 2 0 1,
          .await 1 3 0 1, .suspend, .condition false 2, .waitCqe 0 ⟨1, -ETIME⟩, .destroy 0,
          .suspend, .peekCqe (some ⟨0, 5⟩)] s
      ∧ resumptions (s.log 0) = []
      ∧ observed step transfers init
          [.create (.readSome 5 8 none), .create (.sleep 10), .runUntil 1, .await 0 2 0 1,
            .await 1 3 0 1, .suspend, .condition false 2, .waitCqe 0 ⟨1, -ETIME⟩,
            .destroy 0, .suspend, .peekCqe (some ⟨0, 5⟩)]
        = [{ fd := 5, bytes := 5, reported := false }] := by
  obtain ⟨s, hrun, htest⟩ := exists_run_of_exec step Orderly init
    [.create (.readSome 5 8 none), .create (.sleep 10), .runUntil 1, .await 0 2 0 1,
      .await 1 3 0 1, .suspend, .condition false 2, .waitCqe 0 ⟨1, -ETIME⟩, .destroy 0,
      .suspend, .peekCqe (some ⟨0, 5⟩)]
    (fun s => resumptions (s.log 0) = []) (by decide)
  exact ⟨s, hrun, of_decide_eq_true htest, by decide⟩

end UringWarden
