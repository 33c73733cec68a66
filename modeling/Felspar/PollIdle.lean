import Felspar.PollPasses

/-!
# Descriptors that nothing waits for

`do_poll` passes every key of `requests` to `::poll`, and no function of the
warden erases one: `requests[fd]` inserts the key when an IOP waits for the
descriptor, and also when an IOP is destroyed that never had to. Once the last
of them is through, the key stays with two empty lists. The descriptor is
polled for no events then, and is still reported when it is closed or hung up:
`::poll` returns at once, and there is nothing to retry.
-/

namespace PollWarden

/-- A retrier is registered with the descriptor. -/
def State.Waited (s : State) (fd : SocketDescriptor) : Prop :=
  s.registered fd .reads ≠ [] ∨ s.registered fd .writes ≠ []

instance (s : State) (fd : SocketDescriptor) : Decidable (s.Waited fd) :=
  inferInstanceAs (Decidable (_ ∨ _))

/-- **Something is pending on whatever is polled**, but for the wake-up
pipe. -/
def Busy (s : State) : Prop :=
  ∀ x ∈ pollFds s, x.fd ≠ s.wakeFd → x.pollin = true ∨ x.pollout = true

instance (s : State) : Decidable (Busy s) :=
  inferInstanceAs (Decidable
    (∀ x ∈ pollFds s, x.fd ≠ s.wakeFd → x.pollin = true ∨ x.pollout = true))

/-- The descriptor of the list the type registers in. -/
def Op.descriptor (op : Op) : Option SocketDescriptor := op.slot.map Prod.fst

/-- **The descriptors a step has used**: that of an IOP that has to wait when
it is awaited, and that of an IOP that is destroyed. -/
def uses (s : State) : Event → List SocketDescriptor
  | .await id _ r => (s.completions id).toList.flatMap
      (fun c => if c.op.awaits r then c.op.descriptor.toList else [])
  | .destroy id => (s.completions id).toList.flatMap (fun c => c.op.descriptor.toList)
  | _ => []

/-! ## The keys -/

section Keys

variable {s s' : State} {id : RetrierId} {c : Completion} {fd fd' : SocketDescriptor} {d : Side}

theorem mem_keys_modify (f : List RetrierId → List RetrierId) :
    fd' ∈ (s.modifyRequests fd d f).requests.keys ↔ fd' = fd ∨ fd' ∈ s.requests.keys :=
  mem_insertKey

theorem mem_descriptor (op : Op) : op.descriptor = some fd ↔ ∃ d, op.slot = some (fd, d) := by
  unfold Op.descriptor
  rw [Option.map_eq_some_iff]
  exact ⟨fun ⟨p, hp, he⟩ => ⟨p.2, he ▸ hp⟩, fun ⟨d, hd⟩ => ⟨(fd, d), hd, rfl⟩⟩

theorem requests_called (op : Op) (r : Sys) : (called s id op r).requests = s.requests := by
  unfold called
  split <;> rfl

theorem mem_keys_cancelIop : fd ∈ (cancelIop s id c).requests.keys
    ↔ c.op.descriptor = some fd ∨ fd ∈ s.requests.keys := by
  unfold cancelIop Op.descriptor
  cases c.op.slot with
  | none => simp
  | some p =>
    refine (mem_keys_modify _).trans ?_
    simp [eq_comm]

theorem mem_keys_registerAgain : fd ∈ (registerAgain s id c).requests.keys
    ↔ c.op.descriptor = some fd ∨ fd ∈ s.requests.keys := by
  unfold registerAgain Op.descriptor
  cases c.op.slot with
  | none => simp
  | some p =>
    have hpush : fd ∈ (pushRequest s p.1 p.2 id).requests.keys
        ↔ Option.map Prod.fst (some p) = some fd ∨ fd ∈ s.requests.keys := by
      refine (mem_keys_modify _).trans ?_
      simp [eq_comm]
    dsimp only
    split
    · rw [requests_insertTimeout]
      exact hpush
    · exact hpush

/-- A try inserts the descriptor it waits for. -/
theorem mem_keys_tryOrResume (r : Sys) : fd ∈ (tryOrResume s id c r).1.requests.keys
    ↔ (c.op.waits r = true ∧ c.op.descriptor = some fd) ∨ fd ∈ s.requests.keys := by
  rw [tryOrResume_eq]
  split
  case isTrue hw =>
    show fd ∈ (registerAgain (called s id c.op r) id c).requests.keys ↔ _
    rw [mem_keys_registerAgain, requests_called]
    simp [hw]
  case isFalse hw =>
    show fd ∈ (cancelTimeout (called s id c.op r) id _).requests.keys ↔ _
    rw [requests_cancelTimeout, requests_called]
    simp [hw]

theorem mem_keys_awaitSuspend (h : Handle) (r : Sys) :
    fd ∈ (awaitSuspend s id c h r).1.requests.keys
      ↔ (c.op.awaits r = true ∧ c.op.descriptor = some fd) ∨ fd ∈ s.requests.keys := by
  rcases awaitSuspend_cases s id c r h _ rfl with
    ⟨fd', hop, he⟩ | ⟨fd', d', hop, hslot, he⟩ | ⟨hop, he⟩
  · rw [he]
    unfold connectAwaitSuspend
    dsimp only
    split_ifs with h₁ h₂
    · simp [hop, Op.awaits, h₁, returnHandle, State.observe, State.setStage, State.setCompletion]
    · show fd ∈ (insertTimeout _ id _).requests.keys ↔ _
      rw [requests_insertTimeout]
      refine (mem_keys_modify _).trans ?_
      simp [hop, Op.awaits, Op.descriptor, Op.slot, h₁, h₂, State.observe, eq_comm]
    · simp [hop, Op.awaits, h₂, returnHandle, State.observe, State.setStage, State.setCompletion]
  · rw [he]
    show fd ∈ (insertTimeout (pushRequest s fd' d' id) id _).requests.keys ↔ _
    rw [requests_insertTimeout]
    refine (mem_keys_modify _).trans ?_
    have hw : c.op.awaits r = true := by rcases hop with hop | hop <;> rw [hop] <;> rfl
    simp [hw, Op.descriptor, hslot, eq_comm]
  · have hw : c.op.awaits r = c.op.waits r := by
      cases ho : c.op with
      | connect fd => exact absurd ho (hop fd).1
      | readReady fd => exact absurd ho (hop fd).2.1
      | writeReady fd => exact absurd ho (hop fd).2.2
      | _ => rfl
    rw [he, mem_keys_tryOrResume, requests_insertTimeout, hw]

theorem mem_keys_iopTimedout : fd ∈ (iopTimedout s id c).1.requests.keys
    ↔ c.op.descriptor = some fd ∨ fd ∈ s.requests.keys := by
  unfold iopTimedout
  split
  case h_1 hop =>
    show fd ∈ s.requests.keys ↔ _
    simp [hop, Op.descriptor, Op.slot]
  case h_2 hop => exact mem_keys_cancelIop

theorem mem_keys_iopDestructed : fd ∈ (iopDestructed s id c).requests.keys
    ↔ c.op.descriptor = some fd ∨ fd ∈ s.requests.keys := by
  show fd ∈ (cancelIop (cancelTimeout s id c) id c).requests.keys ↔ _
  rw [mem_keys_cancelIop, requests_cancelTimeout]

/-- **Collecting inserts no key**: the descriptors it goes through are keys. -/
theorem mem_keys_collect (revents : SocketDescriptor → Revents) :
    fd ∈ (collect s revents).requests.keys ↔ fd ∈ s.requests.keys := by
  have hround : ∀ (t : State) (fd' : SocketDescriptor), t.wakeFd = fd' ∨ fd' ∈ t.requests.keys →
      ∀ fd, fd ∈ (collectFd revents t fd').requests.keys ↔ fd ∈ t.requests.keys := by
    intro t fd' hmem fd
    have hside : ∀ (t' : State) (d : Side), fd' ∈ t'.requests.keys →
        (fd ∈ (collectSide t' fd' d).requests.keys ↔ fd ∈ t'.requests.keys) := fun t' d hkey =>
      (mem_keys_modify (s := t') (fun _ => [])).trans (or_iff_right_of_imp (fun he => he ▸ hkey))
    by_cases hwake : fd' = t.wakeFd
    · rcases collectFd_wakeFd revents hwake with he | he
      · rw [he]
      · rw [he]
        rfl
    · have hkey := hmem.resolve_left (Ne.symm hwake)
      have hkey' : fd' ∈ (collectSide t fd' .reads).requests.keys :=
        (mem_keys_modify (s := t) (fun _ => [])).mpr (Or.inr hkey)
      unfold collectFd
      rw [if_neg hwake]
      dsimp only
      split_ifs
      · rw [hside _ _ hkey', hside _ _ hkey]
      · exact hside _ _ hkey
      · exact hside _ _ hkey
      · rfl
  have hloop : ∀ (fds : List SocketDescriptor) (t : State),
      (∀ fd' ∈ fds, t.wakeFd = fd' ∨ fd' ∈ t.requests.keys) →
      (fd ∈ (fds.foldl (collectFd revents) t).requests.keys ↔ fd ∈ t.requests.keys) := by
    intro fds
    induction fds with
    | nil => exact fun t _ => Iff.rfl
    | cons fd' fds ih =>
      intro t hmem
      have hkeys := hround t fd' (hmem fd' List.mem_cons_self)
      refine (ih _ (fun fd'' hm => ?_)).trans (hkeys fd)
      rw [wakeFd_collectFd, hkeys]
      exact hmem fd'' (List.mem_cons_of_mem _ hm)
  refine hloop _ (clearContinuations s) (fun fd' hm => ?_)
  have hpolled : (pollFds s).map PollFd.fd = s.wakeFd :: s.requests.keys := by
    unfold pollFds
    rw [List.map_cons, List.map_map]
    exact congrArg _ (List.map_id _)
  rw [hpolled] at hm
  exact (List.mem_cons.mp hm).imp Eq.symm id

end Keys

/-! ## Whose descriptor is a key -/

/-- **The descriptor of a completion that has been waiting is a key**: of one
that is filed under a deadline, and of one that a pass has in hand. -/
def Known (s : State) : Prop :=
  ∀ id fd d, (s.view id).slot = some (fd, d) → (s.view id).keys ≠ [] ∨ s.inHand id ≠ 0 →
    fd ∈ s.requests.keys

/-- What the keys of `requests` are in a run. -/
structure KeysUsed (s : State) (used : List SocketDescriptor) : Prop where
  keys : ∀ fd, fd ∈ s.requests.keys ↔ fd ∈ used
  known : Known s
  owners : Owners s
  generations : Generations s
  unborn : ∀ id, s.next ≤ id → Unborn id s

section Known

variable {s s' : State} {id : RetrierId} {c : Completion} {fd : SocketDescriptor} {d : Side}
  {e : Event}

theorem requests_goto (p : Point) : (s.goto p).requests = s.requests := by
  rw [goto_eq]

theorem requests_doPollReturns : (doPollReturns s).requests = s.requests := by
  unfold doPollReturns
  rw [requests_goto]

/-- **What a step inserts are the descriptors it has used.** A completion that
is retried has been waiting before, and so has one that times out. -/
theorem mem_keys_of_step (h : Known s) (hs : step s e = some s') (fd : SocketDescriptor) :
    fd ∈ s'.requests.keys ↔ fd ∈ s.requests.keys ∨ fd ∈ uses s e := by
  cases (stepped_of_step hs).2 with
  | create hu call => exact (or_iff_left List.not_mem_nil).symm
  | @await hu j c hc a r =>
    rw [mem_keys_awaitSuspend]
    simp only [uses, hc, Option.toList_some, List.flatMap_cons, List.flatMap_nil, List.append_nil]
    split
    case isTrue hw => simp [hw, or_comm]
    case isFalse hw => simp [hw]
  | @destroy hu j c hc =>
    rw [mem_keys_iopDestructed]
    simp [uses, hc, or_comm]
  | asyncResume hu handles written =>
    refine Iff.trans ?_ (or_iff_left List.not_mem_nil).symm
    obtain ⟨n, he⟩ := doAsyncResume_eq s handles written
    rw [he]
  | runUntil hu coro => exact (or_iff_left List.not_mem_nil).symm
  | runBatch hu => exact (or_iff_left List.not_mem_nil).symm
  | suspend hf hp =>
    rw [requests_goto]
    exact (or_iff_left List.not_mem_nil).symm
  | @clock f fs hf hp now done =>
    refine Iff.trans ?_ (or_iff_left List.not_mem_nil).symm
    have hcleared := clearedTimeouts s f now done
    generalize clearTimeouts s f now done = s₁ at hcleared ⊢
    cases hcleared with
    | leaves => rfl
    | polls => rw [requests_goto]
    | fails => rfl
    | @timesOut t j l c he hdue hc p hp' =>
      rw [requests_goto, mem_keys_iopTimedout]
      refine or_iff_right_of_imp (fun hfd => ?_)
      obtain ⟨d, hslot⟩ := (mem_descriptor _).mp hfd
      refine h j fd d ((slot_of_same hc ⟨rfl, rfl⟩).trans hslot) (Or.inl (fun hnil => ?_))
      exact s.timeouts.keysOf_eq_nil_iff.mp hnil t (he ▸ List.mem_cons_self)
  | @poll f fs hf t hp a =>
    refine Iff.trans ?_ (or_iff_left List.not_mem_nil).symm
    have hpolled := polled s a
    generalize doPoll s a = s₁ at hpolled ⊢
    cases hpolled with
    | returns => rw [requests_doPollReturns]
    | throws => rfl
    | collects => rw [requests_goto, mem_keys_collect]
  | @retry f fs hf g rest hp r =>
    refine Iff.trans ?_ (or_iff_left List.not_mem_nil).symm
    have hretried := retriedNext s g rest r
    generalize retryNext s g rest r = s₁ at hretried ⊢
    cases hretried with
    | returns => rw [requests_doPollReturns]
    | fails => rfl
    | @retries j rest c hg hc p hp' =>
      rw [requests_goto, mem_keys_tryOrResume]
      refine or_iff_right_of_imp (fun hfd => ?_)
      obtain ⟨d, hslot⟩ := (mem_descriptor _).mp hfd.2
      have hhand := inHand_of_retries hf (hg ▸ hp)
      exact h j fd d ((slot_of_same hc ⟨rfl, rfl⟩).trans hslot) (Or.inr (by omega))
  | @resumeNext f fs hf rest hp =>
    refine Iff.trans ?_ (or_iff_left List.not_mem_nil).symm
    have hresumed := resumedAllNext s f rest
    generalize resumeAllNext s f rest = s₁ at hresumed ⊢
    cases hresumed with
    | again => rw [requests_goto]
    | leaves => rfl
    | resumes =>
      rw [requests_goto]
      rfl

/-- An await that does not have to wait files the deadline and cancels it, or
leaves it alone. -/
theorem length_keys_awaitSuspend (s : State) (id : RetrierId) {r : Sys}
    (hw : c.op.awaits r = false) (a : Handle) :
    ((awaitSuspend s id c a r).1.view id).keys.length = (s.view id).keys.length := by
  rcases awaitSuspend_cases s id c r a _ rfl with
    ⟨fd', hop, he⟩ | ⟨fd', d', hop, hslot, he⟩ | ⟨hop, he⟩
  · rw [he]
    unfold connectAwaitSuspend
    dsimp only
    split_ifs with h₁ h₂
    · rw [view_returnHandle, if_pos rfl]
      rfl
    · rw [hop] at hw
      simp [Op.awaits, h₁, h₂] at hw
    · rw [view_returnHandle, if_pos rfl]
      rfl
  · rcases hop with hop | hop <;> rw [hop] at hw <;> cases hw
  · have hwaits : c.op.waits r = false := by
      rw [← hw]
      cases ho : c.op with
      | connect fd => exact absurd ho (hop fd).1
      | readReady fd => exact absurd ho (hop fd).2.1
      | writeReady fd => exact absurd ho (hop fd).2.2
      | _ => rfl
    let c₁ : Completion := { c with handle := some a }
    have hinsert : ((insertTimeout s id c₁).view id).keys.length
        = (s.view id).keys.length + if c.deadline.isSome then 1 else 0 := by
      unfold insertTimeout
      cases hd : c.deadline with
      | none => rfl
      | some D => exact (s.timeouts.perm_keysOf_insert_self (k := D) (v := id)).length_eq
    rw [he, tryOrResume_eq, if_neg (by rw [hwaits]; simp), cancelTimeoutThenResume,
      view_returnHandle, if_pos rfl, view_cancelTimeout_self, view_called]
    show (if c.deadline.isSome then ((insertTimeout s id c₁).view id).keys.tail
      else ((insertTimeout s id c₁).view id).keys).length = _
    split_ifs with hd
    · rw [List.length_tail, hinsert, if_pos hd, Nat.add_sub_cancel]
    · rw [hinsert, if_neg hd, Nat.add_zero]

/-- **Every step keeps the descriptors known.** -/
theorem KeysUsed.step {used : List SocketDescriptor} (h : KeysUsed s used)
    (hs : step s e = some s') : KeysUsed s' (used ++ uses s e) := by
  have hkeys := mem_keys_of_step h.known hs
  have hle : ∀ {fd}, fd ∈ s.requests.keys → fd ∈ s'.requests.keys := fun hfd =>
    (hkeys _).mpr (Or.inl hfd)
  refine ⟨fun fd => ?_, ?_, h.owners.step hs, h.generations.step hs, ?_⟩
  · rw [hkeys fd, h.keys fd, List.mem_append]
  swap
  · intro i hi
    refine (h.unborn i ((next_le_of_step hs).trans hi)).of_moved h.generations
      (moved_of_step hs ((h.unborn i ((next_le_of_step hs).trans hi)).not_subject hs ?_))
    rintro call rfl rfl
    cases (stepped_of_step hs).2 with
    | create hu call => exact Nat.not_succ_le_self _ hi
  intro id fd d hslot hwaits
  -- the completion has waited before
  have hbefore : ∀ {d'}, (s.view id).slot = some (fd, d') →
      (s.view id).keys ≠ [] ∨ s.inHand id ≠ 0 → fd ∈ s'.requests.keys := fun hslot hw =>
    hle (h.known id fd _ hslot hw)
  have hstays : s'.view id = s.view id → s'.inHand id ≤ s.inHand id → fd ∈ s'.requests.keys := by
    intro hview hhand
    rw [hview] at hslot hwaits
    exact hbefore hslot (hwaits.imp_right (fun hne h₀ => hne (Nat.eq_zero_of_le_zero (h₀ ▸ hhand))))
  by_cases hid : Subject s id e
  swap
  · cases moved_of_step hs hid with
    | stays hview hlog hhand => exact hstays hview hhand
    | collects hf a =>
      have hcore : (collect s a.revents).core id = s.core id := core_collect a.revents
      rw [view_goto] at hslot hwaits
      rw [View.slot, show ((collect s a.revents).view id).completion = (s.view id).completion from
        congrArg Core.completion hcore] at hslot
      rw [show ((collect s a.revents).view id).keys = (s.view id).keys from
        congrArg Core.keys hcore, inHand_collects id h.generations hf] at hwaits
      rcases hwaits with hkeys | hcollected
      · exact hbefore hslot (Or.inl hkeys)
      · -- it has been collected from the list of its descriptor
        have hmem := List.count_pos_iff.mp (Nat.pos_of_ne_zero hcollected)
        rw [continuations_collect] at hmem
        obtain ⟨fd', hkey, hm⟩ := List.mem_flatMap.mp hmem
        split_ifs at hm
        · cases hm
        · obtain ⟨d', -, hm⟩ := mem_waitersOf.mp hm
          obtain ⟨rfl, -⟩ := Prod.mk.inj (Option.some.inj ((h.owners.slot hm).symm.trans hslot))
          exact hle hkey
  cases steppedOn_of_step hs hid with
  | create hnext call =>
    subst hnext
    have hunborn := h.unborn s.next (le_refl _)
    rcases hwaits with hkeys | hhand
    · rw [view_createIop, if_pos rfl, hunborn.view] at hkeys
      exact absurd rfl hkeys
    · exact absurd hunborn.inHand hhand
  | @await c hc a r =>
    obtain ⟨c', hc', hsame⟩ := completion_awaitSuspend_self s id c r a
    rw [slot_of_same hc' ⟨rfl, rfl⟩, hsame.1] at hslot
    cases hw : c.op.awaits r with
    | true =>
      exact (mem_keys_awaitSuspend a r).mpr (Or.inl ⟨hw, (mem_descriptor _).mpr ⟨d, hslot⟩⟩)
    | false =>
      refine hbefore ((slot_of_same hc ⟨rfl, rfl⟩).trans hslot) (hwaits.imp (fun hkeys hnil => ?_)
        (fun hhand => ?_))
      · have hlength := length_keys_awaitSuspend s id hw a
        rw [hnil] at hlength
        exact hkeys (List.eq_nil_of_length_eq_zero hlength)
      · rw [inHand_of_shell (shell_awaitSuspend s id c r a)] at hhand
        exact hhand
  | destroy hc =>
    rw [View.slot, view_iopDestructed, if_pos rfl] at hslot
    cases hslot
  | leaves hf => exact hstays rfl (inHand_leave_le hf)
  | polls hf =>
    refine hstays (view_goto s _) (inHand_goto_le hf ?_)
    rw [Point.inHand_eq_zero rfl]
    exact Nat.zero_le _
  | timeOutFails he hc =>
    obtain ⟨c₂, hc₂, -⟩ := Option.bind_eq_some_iff.mp hslot
    exact absurd (hc₂.symm.trans hc) (by simp)
  | @timesOut f fs hf hp t l he c hc now done =>
    obtain ⟨c', hc', hsame⟩ :=
      completion_iopTimedout_self { s with timeouts := s.timeouts.eraseBegin } id c
    rw [view_goto, slot_of_same hc' ⟨rfl, rfl⟩, hsame.1] at hslot
    rw [requests_goto]
    exact mem_keys_iopTimedout.mpr (Or.inl ((mem_descriptor _).mpr ⟨d, hslot⟩))
  | retryFails => exact hstays rfl (le_refl _)
  | @retries f fs hf rest hp c hc r =>
    obtain ⟨c', hc', hsame⟩ := completion_tryOrResume_self (s.observe (.retried id)) id c r
    rw [view_goto, slot_of_same hc' ⟨rfl, rfl⟩, hsame.1] at hslot
    have hhand := inHand_of_retries hf hp
    exact hbefore ((slot_of_same hc ⟨rfl, rfl⟩).trans hslot) (Or.inr (by omega))

end Known

/-! ## When something is pending on whatever is polled -/

/-- **A bad descriptor gives the pass something to retry**, whichever of those
that are polled it is. -/
def Productive (s : State) : Prop :=
  ∀ revents : SocketDescriptor → Revents, ∀ fd ∈ s.requests.keys, fd ≠ s.wakeFd →
    (revents fd).pollnval = true → (collect s revents).continuations ≠ []

section Busy

variable {s : State}

theorem busy_iff : Busy s ↔ ∀ fd ∈ s.requests.keys, fd ≠ s.wakeFd → s.Waited fd := by
  have hmask : ∀ fd, ((!(s.requests.get fd).reads.isEmpty) = true
      ∨ (!(s.requests.get fd).writes.isEmpty) = true) ↔ s.Waited fd := fun fd => by
    unfold State.Waited State.registered
    simp [Request.side]
  constructor
  · intro h fd hkey hfd
    rw [← hmask]
    exact h _ (List.mem_cons_of_mem _ (List.mem_map_of_mem hkey)) hfd
  · intro h x hx hfd
    rcases List.mem_cons.mp hx with rfl | hx
    · exact absurd rfl hfd
    · obtain ⟨fd, hkey, rfl⟩ := List.mem_map.mp hx
      exact (hmask fd).mpr (h fd hkey hfd)

/-- An idle descriptor is reported by itself, with nothing to retry. -/
theorem productive_iff : Productive s ↔ ∀ fd ∈ s.requests.keys, fd ≠ s.wakeFd → s.Waited fd := by
  constructor
  · intro h fd hkey hfd
    by_contra hidle
    obtain ⟨hreads, hwrites⟩ : s.registered fd .reads = [] ∧ s.registered fd .writes = [] := by
      simpa [State.Waited] using hidle
    refine h (fun fd' => { pollnval := decide (fd' = fd) }) fd hkey hfd (by simp) ?_
    rw [continuations_collect]
    refine List.flatMap_eq_nil_iff.mpr (fun fd' _ => ?_)
    unfold waitersOf
    by_cases he : fd' = fd
    · rw [he, hreads, hwrites]
      simp
    · simp [he, Revents.wakes]
  · intro h revents fd hkey hfd hnval hnil
    rw [continuations_collect] at hnil
    have hround := List.flatMap_eq_nil_iff.mp hnil fd hkey
    rw [if_neg hfd] at hround
    obtain ⟨hreads, hwrites⟩ := List.append_eq_nil_iff.mp hround
    rcases h fd hkey hfd with hne | hne
    · exact hne (by simpa [Revents.wakes, hnval] using hreads)
    · exact hne (by simpa [Revents.wakes, hnval] using hwrites)

end Busy

theorem keysUsed_init (w : SocketDescriptor) : KeysUsed (init w) [] where
  keys := fun _ => Iff.rfl
  known := fun _ _ _ hslot _ => by cases hslot
  owners := owners_of_run (Run.nil (init w))
  generations := generations_init w
  unborn := fun id _ => unborn_init w id

/-- **When something is pending on whatever is polled**: exactly when
somebody still waits for every descriptor that an IOP has ever waited for, or
been destroyed with. Only then does a descriptor that is bad give every pass
something to retry. -/
theorem busy_iff_of_run {w : SocketDescriptor} {es : List Event} {s : State}
    (h : Run step always (init w) es s) :
    (Busy s ↔ ∀ fd ∈ observed step uses (init w) es, fd ≠ w → s.Waited fd)
      ∧ (Productive s ↔ ∀ fd ∈ observed step uses (init w) es, fd ≠ w → s.Waited fd) := by
  have hused := h.invariant_observed (P := KeysUsed) uses
    (fun s e s' used hP _ hs => hP.step hs) (keysUsed_init w)
  have hwake : s.wakeFd = w := h.invariant (P := fun s => s.wakeFd = w)
    (fun s e s' hP _ hs => (wakeFd_of_step hs).trans hP) rfl
  have hkeys : (∀ fd ∈ s.requests.keys, fd ≠ s.wakeFd → s.Waited fd)
      ↔ ∀ fd ∈ observed step uses (init w) es, fd ≠ w → s.Waited fd := by
    rw [hwake]
    exact forall_congr' (fun fd => imp_congr (hused.keys fd) Iff.rfl)
  exact ⟨busy_iff.trans hkeys, productive_iff.trans hkeys⟩

/-- Two coroutines wait for descriptor 5, one to read and one to write. -/
def twoWaiters : List Event :=
  [.create (.readSome 5 1 none), .create (.writeSome 5 1 none), .runUntil 1,
    .await 0 2 ⟨-1, EAGAIN, 0⟩, .await 1 3 ⟨-1, EAGAIN, 0⟩, .suspend, .clock 0 false]

/-- The read is answered, and its IOP is destroyed; the write still waits. -/
def readAnswered : List Event :=
  [.poll { ret := 1, revents := fun fd => { pollin := fd = 5 } }, .retry ⟨1, 0, 0⟩, .destroy 0,
    .suspend, .retry ⟨0, 0, 0⟩, .resumeNext, .clock 0 false]

theorem busy_iff_of_run_readAnswered :
    ∃ s, Run step always (init 3) (twoWaiters ++ readAnswered) s ∧ Busy s ∧ Productive s := by
  obtain ⟨s, hrun, hwaited⟩ := exists_run_of_exec step always (init 3)
    (twoWaiters ++ readAnswered)
    (fun s => decide (∀ fd ∈ observed step uses (init 3) (twoWaiters ++ readAnswered),
      fd ≠ 3 → s.Waited fd)) (by decide)
  have hiff := busy_iff_of_run hrun
  exact ⟨s, hrun, hiff.1.mpr (of_decide_eq_true hwaited), hiff.2.mpr (of_decide_eq_true hwaited)⟩

/-- The write is answered as well. -/
def writeAnswered : List Event :=
  [.poll { ret := 1, revents := fun fd => { pollout := fd = 5 } }, .retry ⟨1, 0, 0⟩, .destroy 1,
    .suspend, .retry ⟨0, 0, 0⟩, .resumeNext, .clock 0 false]

/-- The descriptor has been closed, and a round of the loop ends where it
began. -/
def closedRound : List Event :=
  [.poll { ret := 1, revents := fun fd => { pollnval := fd = 5 } }, .retry ⟨0, 0, 0⟩, .resumeNext,
    .clock 0 false]

/-- **The descriptor is polled on**, with nothing pending. When it has been
closed the loop goes round without waiting, and without retrying anything. -/
theorem not_busy_writeAnswered :
    (¬ ∀ es s, Run step always (init 3) es s → Busy s)
    ∧ ∃ s s', Run step always (init 3) (twoWaiters ++ readAnswered ++ writeAnswered) s
      ∧ Run step always s closedRound s' ∧ s.frames = [⟨some 1, .doPoll (-1)⟩]
      ∧ s'.frames = s.frames ∧ s'.trace = s.trace := by
  obtain ⟨s, hrun, htest⟩ := exists_run_of_exec step always (init 3)
    (twoWaiters ++ readAnswered ++ writeAnswered)
    (fun s => !decide (Busy s) && s.frames = [⟨some 1, .doPoll (-1)⟩]
      && (exec step always s closedRound).any
        (fun s' => s'.frames = s.frames && s'.trace = s.trace)) (by decide)
  simp only [Bool.and_eq_true, Bool.not_eq_true', decide_eq_false_iff_not, decide_eq_true_eq]
    at htest
  obtain ⟨⟨hidle, hframes⟩, hround⟩ := htest
  obtain ⟨s', hs', hsame⟩ := (Option.any_eq_true _ _).mp hround
  simp only [Bool.and_eq_true, decide_eq_true_eq] at hsame
  exact ⟨fun h => hidle (h _ s hrun),
    s, s', hrun, run_of_exec hs', hframes, hsame.1, hsame.2⟩

end PollWarden
