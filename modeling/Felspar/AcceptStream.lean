import Felspar.PollSuspension
import Felspar.UringSuspension

/-!
# The stream of accepted connections

`io::accept` is a coroutine that awaits one accept of its warden after the
other, and makes each result an output of its own: a descriptor is yielded,
`EBADF` ends the stream, since that is how it learns that the listening
descriptor has been closed, and any other error is thrown.

Three layers are on the way from the kernel to the stream, and they do not
agree on how an error is told. `io::accept` expects the negated `errno` as the
value of its `co_await`. The poll warden gives it the value of `::accept`
itself where the descriptor is bad, which is `-1` whatever the `errno`, and
throws any other error from the `co_await`; the uring warden throws them all.
So the branch that ends the stream is never taken. Every other result is told
as it should be, on both wardens and over runs of any length
(`faithful_iff_of_run`).

The stream is written for a `Warden`, of which it uses very little, and what
has to be known of one is that each accept waits for its result, and comes
back with an outcome that tells it (`Warden.Lawful`).
-/

namespace AcceptStream

/-! ## The stream -/

/-- **What an accept comes to.** -/
inductive Result
  /-- The kernel has accepted a connection. -/
  | accepted (fd : SocketDescriptor)
  /-- The kernel has failed it. -/
  | failed (errno : Int)
  /-- It has not been asked: there is no SQE for it. -/
  | refused
  deriving DecidableEq

/-- **What the stream does** with a result. -/
inductive Output
  /-- `co_yield` -/
  | yields (fd : SocketDescriptor)
  /-- It ends normally. -/
  | returns
  | throws (e : Exception)
  deriving DecidableEq

/-- The loop of `io::accept` from its `co_await`, which evaluates to `s` or
throws. -/
def accept (s : Except Exception Int) : Output :=
  match s with
  | .error e => .throws e
  | .ok s =>
    if 0 ≤ s then .yields s
    else if s ≠ -EBADF then .throws (.systemError (-s) "accept")
    else .returns

theorem accept_ok_of_nonneg {n : Int} (h : 0 ≤ n) : accept (.ok n) = .yields n := if_pos h

/-- Where the coroutine is. -/
inductive Coro
  /-- Before its first round, or in its `co_yield`. -/
  | ready
  /-- In its `co_await`, with the IOP it awaits. -/
  | accepting (id : ℕ)
  /-- It has returned or thrown. -/
  | ended
  /-- It has been destroyed before that. -/
  | dropped
  deriving DecidableEq

/-- Where an output leaves it. -/
def Output.next : Output → Coro
  | .yields _ => .ready
  | .returns | .throws _ => .ended

/-- The `errno` of an exception that is a `system_error`, as a `timeout` is. -/
def errno : Exception → Option Int
  | .systemError error _ => some error
  | .timeout _ => some Outcome.timeoutError
  | .logicError _ | .runtimeError _ => none

/-- **What the stream has to do with a result**: yield the descriptor, end if
the listening descriptor has been closed, and throw the `errno` of any other
error. An accept that has not been made has no `errno`. -/
def Result.Asks : Result → Output → Prop
  | .accepted fd, .yields fd' => fd = fd'
  | .failed error, .returns => error = EBADF
  | .failed error, .throws e => error ≠ EBADF ∧ errno e = some error
  | .refused, .throws e => errno e = none
  | _, _ => False

instance : DecidableRel Result.Asks := fun r o => by
  cases r <;> cases o <;> unfold Result.Asks <;> infer_instance

/-- **An error that a warden throws** is told as it is, and so `EBADF` does not
end the stream. -/
theorem asks_ofError {error : Int} (name : String) (h : error ≠ 0) :
    (Result.failed error).Asks (accept (Outcome.ofError error name).value) ↔ error ≠ EBADF := by
  obtain ⟨e, he, herrno⟩ : ∃ e, (Outcome.ofError error name).value = .error e
      ∧ errno e = some error := by
    unfold Outcome.value Outcome.ofError Outcome.throwException
    dsimp only
    rw [if_pos h]
    by_cases ht : error = Outcome.timeoutError
    · rw [if_pos ht]
      exact ⟨_, rfl, congrArg some ht.symm⟩
    · rw [if_neg ht]
      exact ⟨_, rfl, rfl⟩
  rw [he]
  exact ⟨fun hasks => hasks.1, fun hne => ⟨hne, herrno⟩⟩

/-- The stream goes on after the output. -/
def Output.goesOn (o : Output) : Bool := o.next = .ready

/-- **The stream is faithful**: each result has its output, in order, and the
one that ends the stream is the last. -/
structure Faithful (results : List Result) (outputs : List Output) : Prop where
  asks : List.Forall₂ Result.Asks results outputs
  last : ∀ o ∈ outputs.dropLast, o.goesOn = true

/-! ## A warden -/

/-- **An `io::warden`, as far as the stream uses it**, with the states `W`, the
events `E`, and what else is said of the await of an IOP, in an `A`. -/
structure Warden (W E A : Type) where
  step : W → E → Option W
  /-- The address the next completion gets. -/
  next : W → ℕ
  /-- `accept(fd, {}, loc)` -/
  create : SocketDescriptor → E
  /-- The `co_await` of an IOP begins. -/
  await : ℕ → A → E
  /-- What the `co_await` of an IOP comes to, when it has ended. -/
  awaited : W → ℕ → Option (Except Exception Int)
  /-- The IOP goes out of scope. -/
  destruct : W → ℕ → W
  /-- It does so since its coroutine is destroyed. -/
  destroy : ℕ → E
  /-- The step is one that only the coroutine of the IOP takes. -/
  own : ℕ → E → Bool
  /-- What the accept of an IOP comes to in a step. -/
  result : W → ℕ → E → Option Result
  /-- The kernel answers the accept as `::accept` does. -/
  conforms : W → ℕ → E → Bool

section Machine

variable {W E A : Type}

/-- **A warden and the stream.** The results and the outputs are there to state
theorems with. -/
structure State (W : Type) where
  warden : W
  coro : Coro := .ready
  results : List Result := []
  outputs : List Output := []

/-- **What happens.** -/
inductive Event (E A : Type)
  /-- The stream is asked for its next descriptor, and awaits an accept. -/
  | next (a : A)
  /-- The warden takes a step. -/
  | warden (e : E)
  /-- The stream is destroyed. -/
  | drop

variable (V : Warden W E A) (fd : SocketDescriptor)

/-- A step of the warden in which the accept may have come to something. -/
def State.record (s : State W) (w : W) (result : Option Result) : State W :=
  { s with warden := w, results := s.results ++ result.toList }

/-- The coroutine is in its `co_await`, and goes on if that has ended: the IOP
goes out of scope, and what the coroutine does then is up to its next `co_await`
or its end. -/
def settle (s : State W) (id : ℕ) : State W :=
  match V.awaited s.warden id with
  | none => { s with coro := .accepting id }
  | some v =>
    { s with
      warden := V.destruct s.warden id
      coro := (accept v).next
      outputs := s.outputs ++ [accept v] }

/-- **A step.** -/
def step (s : State W) : Event E A → Option (State W)
  | .next a => match s.coro with
    | .ready =>
      let id := V.next s.warden
      (V.step s.warden (V.create fd)).bind fun w =>
        (V.step w (V.await id a)).map fun w' =>
          settle V (s.record w' (V.result w id (V.await id a))) id
    | _ => none
  | .warden e => match s.coro with
    | .accepting id =>
      if V.own id e then none
      else (V.step s.warden e).map fun w =>
        settle V (s.record w (V.result s.warden id e)) id
    | _ => (V.step s.warden e).map fun w => { s with warden := w }
  | .drop => match s.coro with
    | .ready => some { s with coro := .dropped }
    | .accepting id =>
      (V.step s.warden (V.destroy id)).map fun w => { s with warden := w, coro := .dropped }
    | _ => none

/-- **The kernel answers the accepts of the stream** as `::accept` does. -/
def Conforms (s : State W) : Event E A → Prop
  | .next a => ∀ w ∈ V.step s.warden (V.create fd),
    V.conforms w (V.next s.warden) (V.await (V.next s.warden) a) = true
  | .warden e => match s.coro with
    | .accepting id => V.conforms s.warden id e = true
    | _ => True
  | .drop => True

instance : DecidableRel (Conforms V fd) := fun s e => by
  unfold Conforms
  cases e with
  | next a => infer_instance
  | warden e =>
    dsimp only
    split <;> infer_instance
  | drop => exact inferInstanceAs (Decidable True)

/-- **The steps, one by one**: the event, what the state was for it to be
possible, and the state after it. -/
inductive Stepped (s : State W) : Event E A → State W → Prop
  | next (hcoro : s.coro = .ready) {a : A} {w w' : W}
      (hcreate : V.step s.warden (V.create fd) = some w)
      (hawait : V.step w (V.await (V.next s.warden) a) = some w') :
      Stepped s (.next a) (settle V
        (s.record w' (V.result w (V.next s.warden) (V.await (V.next s.warden) a)))
        (V.next s.warden))
  | accepts {id : ℕ} (hcoro : s.coro = .accepting id) {e : E} {w : W}
      (hown : V.own id e = false) (hstep : V.step s.warden e = some w) :
      Stepped s (.warden e) (settle V (s.record w (V.result s.warden id e)) id)
  | passes (hcoro : ∀ id, s.coro ≠ .accepting id) {e : E} {w : W}
      (hstep : V.step s.warden e = some w) : Stepped s (.warden e) { s with warden := w }
  | drop (hcoro : s.coro = .ready) : Stepped s .drop { s with coro := .dropped }
  | dropAccepting {id : ℕ} (hcoro : s.coro = .accepting id) {w : W}
      (hstep : V.step s.warden (V.destroy id) = some w) :
      Stepped s .drop { s with warden := w, coro := .dropped }

variable {V fd} in
theorem stepped_of_step {s s' : State W} {e : Event E A} (h : step V fd s e = some s') :
    Stepped V fd s e s' := by
  obtain ⟨warden, coro, results, outputs⟩ := s
  cases e with
  | next a =>
    cases coro with
    | ready =>
      obtain ⟨w, hcreate, h⟩ := Option.bind_eq_some_iff.mp h
      obtain ⟨w', hawait, rfl⟩ := Option.map_eq_some_iff.mp h
      exact .next rfl hcreate hawait
    | _ => exact absurd h (by simp [step])
  | warden e =>
    cases coro with
    | accepting id =>
      simp only [step] at h
      split at h
      case isTrue hown => exact absurd h (by simp)
      case isFalse hown =>
        obtain ⟨w, hstep, rfl⟩ := Option.map_eq_some_iff.mp h
        exact .accepts rfl (Bool.eq_false_iff.mpr hown) hstep
    | _ =>
      obtain ⟨w, hstep, rfl⟩ := Option.map_eq_some_iff.mp h
      exact .passes (fun id hid => absurd hid (by simp)) hstep
  | drop =>
    cases coro with
    | ready =>
      obtain rfl := Option.some.inj h
      exact .drop rfl
    | accepting id =>
      obtain ⟨w, hstep, rfl⟩ := Option.map_eq_some_iff.mp h
      exact .dropAccepting rfl hstep
    | _ => exact absurd h (by simp [step])

/-! ## What has to be known of a warden -/

/-- **What a step comes to for an accept**: it waits, or it has come to a
result, and the `co_await` has ended. What the stream makes of that is what the
result asks for, unless it is `EBADF`. -/
inductive Comes (pending : W → ℕ → Prop) (w : W) (id : ℕ) (e : E) (w' : W) : Prop
  | waits (hr : V.result w id e = none) (hv : V.awaited w' id = none) (hp : pending w' id) :
      Comes pending w id e w'
  | ends {r : Result} {v : Except Exception Int} (hr : V.result w id e = some r)
      (hv : V.awaited w' id = some v) (hasks : r.Asks (accept v) ↔ r ≠ .failed EBADF) :
      Comes pending w id e w'

/-- **A warden that tells the results of its accepts**, with an invariant of its
own and what it holds of an accept that waits. -/
structure Warden.Lawful (inv : W → Prop) (pending : W → ℕ → Prop) : Prop where
  step : ∀ {w w' e}, inv w → V.step w e = some w' → inv w'
  destruct : ∀ {w id v}, inv w → V.awaited w id = some v → inv (V.destruct w id)
  begins : ∀ {w w₁ w₂ a}, inv w → V.step w (V.create fd) = some w₁ →
    V.conforms w₁ (V.next w) (V.await (V.next w) a) = true →
    V.step w₁ (V.await (V.next w) a) = some w₂ →
      Comes V pending w₁ (V.next w) (V.await (V.next w) a) w₂
  goesOn : ∀ {w w' id e}, inv w → pending w id → V.own id e = false →
    V.conforms w id e = true → V.step w e = some w' → Comes V pending w id e w'

/-- **What holds in every run**: the accept that the stream awaits waits, each
result that is not `EBADF` has the output it asks for, and the stream has not
gone on after an output that ends it. -/
structure Invariant (inv : W → Prop) (pending : W → ℕ → Prop) (s : State W) : Prop where
  warden : inv s.warden
  pending : ∀ id, s.coro = .accepting id → pending s.warden id
  asks : List.Forall₂ (fun r o => Result.Asks r o ↔ r ≠ .failed EBADF) s.results s.outputs
  last : ∀ o ∈ s.outputs.dropLast, o.goesOn = true
  goesOn : s.coro ≠ .ended → ∀ o ∈ s.outputs, o.goesOn = true

/-- A relation that holds of each pair exactly where something holds of its
first entry. -/
theorem forall₂_iff_of_forall₂ {α β : Type} {R : α → β → Prop} {P : α → Prop} {l : List α}
    {l' : List β} (h : List.Forall₂ (fun a b => R a b ↔ P a) l l') :
    List.Forall₂ R l l' ↔ ∀ a ∈ l, P a := by
  induction h with
  | nil => simp
  | cons hab _ ih => rw [List.forall₂_cons, List.forall_mem_cons, hab, ih]

section Run

variable {V fd} {inv : W → Prop} {pending : W → ℕ → Prop} {s s' : State W}

/-- An output is put behind those that the stream has gone on after. -/
theorem Invariant.settle (hV : V.Lawful fd inv pending) (h : Invariant inv pending s)
    (hcoro : s.coro ≠ .ended) {w w' : W} {id : ℕ} {e : E} (hw : inv w')
    (hcomes : Comes V pending w id e w') :
    Invariant inv pending (settle V (s.record w' (V.result w id e)) id) := by
  have hgoes := h.goesOn hcoro
  cases hcomes with
  | waits hr hv hp =>
    have hsettle : AcceptStream.settle V (s.record w' (V.result w id e)) id
        = { s with warden := w', coro := .accepting id } := by
      unfold AcceptStream.settle State.record
      rw [hr]
      dsimp only
      rw [hv, Option.toList_none, List.append_nil]
    rw [hsettle]
    refine ⟨hw, fun i hi => ?_, h.asks, h.last, fun _ => hgoes⟩
    obtain rfl := Coro.accepting.inj hi
    exact hp
  | @ends r v hr hv hasks =>
    have hsettle : AcceptStream.settle V (s.record w' (V.result w id e)) id
        = { warden := V.destruct w' id, coro := (accept v).next, results := s.results ++ [r],
            outputs := s.outputs ++ [accept v] } := by
      unfold AcceptStream.settle State.record
      rw [hr]
      dsimp only
      rw [hv]
      rfl
    rw [hsettle]
    refine ⟨hV.destruct hw hv, fun i hi => ?_, ?_, ?_, fun hne => ?_⟩
    · -- after an output it is in no `co_await`
      cases ho : accept v <;> rw [ho] at hi <;> exact absurd hi (by simp [Output.next])
    · exact List.rel_append h.asks (List.Forall₂.cons hasks List.Forall₂.nil)
    · show ∀ o ∈ (s.outputs ++ [accept v]).dropLast, o.goesOn = true
      rw [List.dropLast_concat]
      exact hgoes
    · show ∀ o ∈ s.outputs ++ [accept v], o.goesOn = true
      rw [List.forall_mem_append, List.forall_mem_singleton]
      refine ⟨hgoes, ?_⟩
      cases ho : accept v <;> rw [ho] at hne
      · rfl
      · exact absurd rfl hne
      · exact absurd rfl hne

/-- **A step keeps the invariant.** -/
theorem invariant_of_step (hV : V.Lawful fd inv pending) {e : Event E A}
    (h : Invariant inv pending s) (hok : Conforms V fd s e) (hs : step V fd s e = some s') :
    Invariant inv pending s' := by
  cases stepped_of_step hs with
  | next hcoro hcreate hawait =>
    exact h.settle hV (by rw [hcoro]; simp) (hV.step (hV.step h.warden hcreate) hawait)
      (hV.begins h.warden hcreate (hok _ hcreate) hawait)
  | @accepts id hcoro e w hown hstep =>
    unfold Conforms at hok
    rw [hcoro] at hok
    exact h.settle hV (by rw [hcoro]; simp) (hV.step h.warden hstep)
      (hV.goesOn h.warden (h.pending id hcoro) hown hok hstep)
  | passes hcoro hstep =>
    exact ⟨hV.step h.warden hstep, fun id hid => absurd hid (hcoro id), h.asks, h.last, h.goesOn⟩
  | drop hcoro =>
    exact ⟨h.warden, fun id hid => absurd hid (by simp), h.asks, h.last,
      fun _ => h.goesOn (by rw [hcoro]; simp)⟩
  | dropAccepting hcoro hstep =>
    exact ⟨hV.step h.warden hstep, fun id hid => absurd hid (by simp), h.asks, h.last,
      fun _ => h.goesOn (by rw [hcoro]; simp)⟩

/-- **The stream is faithful exactly to the results that are not `EBADF`.** -/
theorem faithful_iff (hV : V.Lawful fd inv pending) {w : W} (hw : inv w) {es : List (Event E A)}
    (h : Run (step V fd) (Conforms V fd) { warden := w } es s) :
    Faithful s.results s.outputs ↔ .failed EBADF ∉ s.results := by
  have hinv : Invariant inv pending s :=
    h.invariant (fun _ _ _ hs hok he => invariant_of_step hV hs hok he)
      ⟨hw, fun i hi => absurd hi (by simp), List.Forall₂.nil, by simp, by simp⟩
  have hasks := forall₂_iff_of_forall₂ hinv.asks
  constructor
  · rintro hfaithful hbad
    exact hasks.mp hfaithful.asks _ hbad rfl
  · intro hbad
    exact ⟨hasks.mpr (fun r hr he => hbad (he ▸ hr)), hinv.last⟩

end Run

end Machine

/-! ## The poll warden -/

section Poll

open PollWarden (Unused)

/-- What answers an `::accept`: a result, unless it would block. -/
def Result.ofSys (r : Sys) : Option Result :=
  if 0 ≤ r.ret then some (.accepted r.ret)
  else if wouldBlock r.errno then none
  else some (.failed r.errno)

/-- `::accept` gives a descriptor, or `-1` with an `errno`. -/
def isAccept (r : Sys) : Bool := 0 ≤ r.ret || (r.ret = -1 && 0 < r.errno)

/-- What answers the `::accept` that a step makes for an IOP, if it makes
one. -/
def pollAnswer (w : PollWarden.State) (id : RetrierId) : PollWarden.Event → Option Sys
  | .await i _ r => if i = id then some r else none
  | .retry r => if w.Retries id then some r else none
  | _ => none

/-- **The poll warden.** The await of an IOP is by a coroutine, and its system
call is answered. -/
def poll : Warden PollWarden.State PollWarden.Event (Handle × Sys) where
  step := PollWarden.step
  next := PollWarden.State.next
  create := fun fd => .create (.accept fd none)
  await := fun id a => .await id a.1 a.2
  awaited := fun w id =>
    if w.stage id = .finished then (w.completions id).map (fun c => c.result.value) else none
  destruct := fun w id => (w.completions id).elim w (PollWarden.iopDestructed w id)
  destroy := fun id => .destroy id
  own := fun id e => match e with
    | .await i _ _ | .destroy i => i = id
    | _ => false
  result := fun w id e => (pollAnswer w id e).bind Result.ofSys
  conforms := fun w id e => (pollAnswer w id e).all isAccept

/-- The accept waits, and no deadline is filed for it. -/
structure PollPending (fd : SocketDescriptor) (w : PollWarden.State) (id : RetrierId) : Prop where
  completion : ∃ c, w.completions id = some c ∧ c.op = .accept fd
  stage : w.stage id = .suspended
  keys : w.timeouts.keysOf id = []

variable {fd : SocketDescriptor} {w w' : PollWarden.State} {id : RetrierId}
  {e : PollWarden.Event} {r : Sys}

theorem PollPending.of_core (h : PollPending fd w id) (hcore : w'.core id = w.core id) :
    PollPending fd w' id := by
  obtain ⟨c, hc, hop⟩ := h.completion
  exact ⟨⟨c, (congrArg PollWarden.Core.completion hcore).trans hc, hop⟩,
    (congrArg PollWarden.Core.stage hcore).trans h.stage,
    (congrArg PollWarden.Core.keys hcore).trans h.keys⟩

theorem PollPending.awaited (h : PollPending fd w id) : poll.awaited w id = none := by
  show (if w.stage id = .finished then _ else none) = none
  rw [h.stage, if_neg (by simp)]

/-- The result of an accept whose coroutine is handed back. -/
theorem ofSys_of_not_waits (hw : (PollWarden.Op.accept fd).waits r = false) :
    Result.ofSys r = some (if 0 ≤ r.ret then .accepted r.ret else .failed r.errno) := by
  unfold Result.ofSys
  by_cases hr : 0 ≤ r.ret
  · rw [if_pos hr, if_pos hr]
  · have hb : wouldBlock r.errno = false := by
      simpa [PollWarden.Op.waits, not_le.mp hr] using hw
    rw [if_neg hr, if_neg hr, hb, if_neg Bool.false_ne_true]

/-- **What the stream makes of an answer**, when the poll warden hands it back.
A bad descriptor
is a value, and not that of the `errno`. -/
theorem asks_poll (fd : SocketDescriptor) (o : Outcome) (hr : isAccept r = true) :
    (if 0 ≤ r.ret then Result.accepted r.ret else .failed r.errno).Asks
        (accept ((PollWarden.Op.accept fd).answered r o).value)
      ↔ (if 0 ≤ r.ret then Result.accepted r.ret else .failed r.errno) ≠ .failed EBADF := by
  by_cases hret : 0 ≤ r.ret
  · have hanswered : (PollWarden.Op.accept fd).answered r o = Outcome.ofResult r.ret :=
      if_pos (Or.inl hret)
    rw [if_pos hret, hanswered, Outcome.value_ofResult, accept_ok_of_nonneg hret]
    exact iff_of_true rfl (by simp)
  · obtain ⟨hone, hpos⟩ : r.ret = -1 ∧ 0 < r.errno := by simpa [isAccept, hret] using hr
    rw [if_neg hret]
    by_cases hbad : r.errno = EBADF
    · -- the value is `-1`, which the stream takes for the negated `errno`
      have hanswered : (PollWarden.Op.accept fd).answered r o = Outcome.ofResult (-1) := by
        rw [← hone]
        exact if_pos (Or.inr (decide_eq_true hbad))
      rw [hanswered, hbad]
      decide
    · have hanswered : (PollWarden.Op.accept fd).answered r o
          = Outcome.ofError r.errno "accept" :=
        if_neg (by simpa [hret, badFd] using hbad)
      rw [hanswered]
      refine (asks_ofError "accept" (ne_of_gt hpos)).trans ?_
      simp

/-- An accept that has been answered. -/
theorem comes_of_answered {pending : PollWarden.State → ℕ → Prop} {c : PollWarden.Completion}
    (o : Outcome) (hanswer : pollAnswer w id e = some r) (hr : isAccept r = true)
    (hw : (PollWarden.Op.accept fd).waits r = false) (hc : w'.completions id = some c)
    (hres : c.result = (PollWarden.Op.accept fd).answered r o)
    (hst : w'.stage id = .finished) : Comes poll pending w id e w' := by
  refine Comes.ends (r := if 0 ≤ r.ret then .accepted r.ret else .failed r.errno)
    (v := c.result.value) ?_ ?_ ?_
  · show (pollAnswer w id e).bind Result.ofSys = _
    rw [hanswer, Option.bind_some, ofSys_of_not_waits hw]
  · show (if w'.stage id = .finished then _ else none) = _
    rw [if_pos hst, hc]
    rfl
  · rw [hres]
    exact asks_poll fd o hr

/-- An accept that would block, or has not been tried. -/
theorem comes_of_pending (h : PollPending fd w' id)
    (hanswer : ∀ r ∈ pollAnswer w id e, (PollWarden.Op.accept fd).waits r = true) :
    Comes poll (PollPending fd) w id e w' := by
  refine Comes.waits ?_ h.awaited h
  show (pollAnswer w id e).bind Result.ofSys = none
  rw [Option.bind_eq_none_iff]
  intro r hr
  have hw := hanswer r hr
  unfold PollWarden.Op.waits at hw
  dsimp only at hw
  rw [Bool.and_eq_true, decide_eq_true_eq] at hw
  unfold Result.ofSys
  rw [if_neg (not_le.mpr hw.1), hw.2, if_pos rfl]

/-- **The poll warden tells the results of its accepts.** -/
theorem lawful_poll (fd : SocketDescriptor) : poll.Lawful fd Unused (PollPending fd) where
  step := fun h hs => PollWarden.unused_of_step h hs
  destruct := by
    intro w id v h hv
    show Unused ((w.completions id).elim w (PollWarden.iopDestructed w id))
    cases hc : w.completions id with
    | none => exact h
    | some c => exact PollWarden.unused_iopDestructed h hc
  begins := by
    intro w w₁ w₂ a h hcreate hconf hawait
    have hawaited := PollWarden.awaited_of_created h (.accept fd none) trivial hcreate hawait
    have hanswer : pollAnswer w₁ w.next (.await w.next a.1 a.2) = some a.2 := if_pos rfl
    cases hw : (PollWarden.Op.accept fd).waits a.2 with
    | true =>
      have hcore := hawaited.1 hw
      refine comes_of_pending ⟨⟨_, congrArg PollWarden.Core.completion hcore, rfl⟩,
        congrArg PollWarden.Core.stage hcore, congrArg PollWarden.Core.keys hcore⟩ ?_
      intro r hr
      obtain rfl : a.2 = r := Option.some.inj (hanswer.symm.trans hr)
      exact hw
    | false =>
      obtain ⟨hc, hst⟩ := hawaited.2 hw
      have hconf : isAccept a.2 = true := by
        have hall : (pollAnswer w₁ w.next (.await w.next a.1 a.2)).all isAccept = true := hconf
        rwa [hanswer] at hall
      exact comes_of_answered {} hanswer hconf hw hc rfl hst
  goesOn := by
    intro w w' id e h hpending hown hconf hs
    obtain ⟨c, hc, hop⟩ := hpending.completion
    have hconf : (pollAnswer w id e).all isAccept = true := hconf
    have hawait : ∀ a r, e ≠ .await id a r := by
      rintro a r rfl
      exact absurd hown (by simp [poll])
    have hdestroy : e ≠ .destroy id := by
      rintro rfl
      exact absurd hown (by simp [poll])
    cases PollWarden.suspended_of_step hs hc hpending.stage (by rw [hop]; trivial)
      (ne_of_lt (h.lt_next hc)) hawait hdestroy with
    | stays hr hcore =>
      refine comes_of_pending (hpending.of_core hcore) ?_
      intro r hanswer
      cases e with
      | await i a r' =>
        have hne : i ≠ id := fun hi => hawait a r' (by rw [hi])
        exact absurd hanswer (by simp [pollAnswer, hne])
      | retry r' => exact absurd hanswer (by simp [pollAnswer, hr r' rfl])
      | _ => exact absurd hanswer (by simp [pollAnswer])
    | @blocks r _ hr hw hcore =>
      refine comes_of_pending (hpending.of_core hcore) ?_
      intro r' hanswer
      obtain rfl : r = r' := Option.some.inj ((if_pos hr).symm.trans hanswer)
      rwa [hop] at hw
    | @answers r _ hr hw hc' hst' =>
      have hanswer : pollAnswer w id (.retry r) = some r := if_pos hr
      rw [hanswer] at hconf
      rw [hop] at hw
      exact comes_of_answered c.result hanswer hconf hw hc'
        (congrArg (·.answered r c.result) hop) hst'
    | timesOut hc' hst' =>
      -- there is no deadline
      have hstage := congrArg PollWarden.Core.stage (PollWarden.core_of_clock hs hpending.keys)
      exact absurd (hst'.symm.trans (hstage.trans hpending.stage)) (by simp)

end Poll

/-! ## The uring warden -/

section Uring

open UringWarden (Unused)

/-- What the result of a CQE says: a descriptor, or the negated `errno`. -/
def Result.ofRes (res : Int) : Result := if 0 ≤ res then .accepted res else .failed (-res)

/-- **The uring warden.** The await of an IOP is by a coroutine, at a reading
of the clock, and finds so many SQEs. -/
def uring : Warden UringWarden.State UringWarden.Event (Handle × TimePoint × ℕ) where
  step := UringWarden.step
  next := UringWarden.State.next
  create := fun fd => .create (.accept fd none)
  await := fun id a => .await id a.1 a.2.1 a.2.2
  awaited := fun w id =>
    if w.stage id = .refused then
      some (.error (.runtimeError "No more SQEs are available in the ring"))
    else if w.frames.head?.any (fun f => f.point = .delivering id) then
      (w.completions id).map (fun c => c.result.value)
    else none
  destruct := UringWarden.iopDestructed
  destroy := fun id => .destroy id
  own := fun id e => match e with
    | .await i _ _ _ | .destroy i => i = id
    | _ => false
  result := fun w id e => match e with
    | .await i _ _ sqes => if i = id ∧ sqes = 0 then some .refused else none
    | e => (UringWarden.taken w e).bind fun p =>
      if p.1.userData = some id then some (.ofRes p.2) else none
  conforms := fun _ _ _ => true

variable {fd : SocketDescriptor} {w w' : UringWarden.State} {id : ℕ} {e : UringWarden.Event}

/-- What the stream makes of a CQE, when the uring warden resumes it. A negative
result is an error. -/
theorem asks_uring {c : UringWarden.Completion} {res : Int} {outcome : Outcome}
    (hop : c.op = .accept fd) (hd : c.deadline = none) (ho : c.deliver res = some outcome) :
    (Result.ofRes res).Asks (accept outcome.value) ↔ Result.ofRes res ≠ .failed EBADF := by
  have hvalue : c.deliverValue res = some outcome := by
    rw [UringWarden.Completion.deliver, hop] at ho
    exact ho
  unfold UringWarden.Completion.deliverValue at hvalue
  unfold Result.ofRes
  by_cases hneg : res < 0
  · rw [if_pos hneg, hd, if_neg (by simp)] at hvalue
    rw [if_neg (not_le.mpr hneg), ← Option.some.inj hvalue]
    refine (asks_ofError "uring IOP" (ne_of_gt (neg_pos.mpr hneg))).trans ?_
    simp
  · have hnonneg := not_lt.mp hneg
    rw [if_neg hneg] at hvalue
    rw [if_pos hnonneg, ← Option.some.inj hvalue, Outcome.value_ofResult,
      accept_ok_of_nonneg hnonneg]
    exact iff_of_true rfl (by simp)

theorem awaited_of_suspended (h : UringWarden.Suspended w id (.accept fd)) :
    uring.awaited w id = none := by
  show (if w.stage id = .refused then _ else if _ then _ else none) = none
  rw [h.stage, if_neg (by simp), if_neg]
  cases hf : w.frames with
  | nil => simp
  | cons f fs =>
    -- nothing is being delivered to it
    have hheld := UringWarden.held_eq id hf
    rw [h.held] at hheld
    intro hp
    rw [UringWarden.Point.holds, if_pos (by simpa using hp)] at hheld
    omega

/-- **The uring warden tells the results of its accepts.** -/
theorem lawful_uring (fd : SocketDescriptor) :
    uring.Lawful fd Unused (fun w id => UringWarden.Suspended w id (.accept fd)) where
  step := fun h hs => UringWarden.unused_of_step h hs
  destruct := by
    intro w id v h hv
    refine UringWarden.unused_iopDestructed h ?_
    by_contra hlt
    have hle : w.next ≤ id := not_lt.mp hlt
    have hstage : w.stage id = .created := congrArg UringWarden.View.stage (h id hle)
    have hnone : w.completions id = none := congrArg UringWarden.View.completion (h id hle)
    simp [uring, hstage, hnone] at hv
  begins := by
    intro w w₁ w₂ a h hcreate hconf hawait
    have hawaited := UringWarden.suspended_of_await h (.accept fd none) rfl hcreate hawait
    split at hawaited
    case isTrue hz =>
      refine Comes.ends (r := .refused) (if_pos ⟨rfl, hz⟩) (if_pos hawaited) ?_
      decide
    case isFalse hz =>
      exact Comes.waits (if_neg (fun hr => hz hr.2)) (awaited_of_suspended hawaited) hawaited
  goesOn := by
    intro w w' id e h hpending hown hconf hs
    obtain ⟨c, hc, -⟩ := hpending.completion
    have hawait : ∀ a now sqes, e ≠ .await id a now sqes := by
      rintro a now sqes rfl
      exact absurd hown (by simp [uring])
    have hdestroy : e ≠ .destroy id := by
      rintro rfl
      exact absurd hown (by simp [uring])
    have hresult : uring.result w id e = (UringWarden.taken w e).bind fun p =>
        if p.1.userData = some id then some (.ofRes p.2) else none := by
      cases e with
      | await i a now sqes =>
        have hne : i ≠ id := fun hi => hawait a now sqes (by rw [hi])
        exact if_neg (fun hi => hne hi.1)
      | _ => rfl
    rcases UringWarden.suspended_of_step hpending (h.lt_next hc) hawait hdestroy hs with
      ⟨htaken, hstill⟩ | ⟨p, hp, hu, c, outcome, hop, hd, ho, hresumed⟩
    · refine Comes.waits ?_ (awaited_of_suspended hstill) hstill
      rw [hresult, Option.bind_eq_none_iff]
      exact fun p hp => if_neg (htaken p hp)
    · refine Comes.ends (r := .ofRes p.2) (v := outcome.value) ?_ ?_ (asks_uring hop hd ho)
      · rw [hresult, hp, Option.bind_some, if_pos hu]
      · obtain ⟨c', hc', hresult'⟩ := hresumed.completion
        obtain ⟨f, fs, hf, hp'⟩ := hresumed.frames
        show (if w'.stage id = .refused then _ else if _ then _ else none) = _
        rw [hresumed.stage, if_neg (by simp), hf, if_pos (by simp [hp']), hc', ← hresult']
        rfl

end Uring

/-! ## Both wardens -/

/-- **The stream is faithful on both wardens exactly as long as the kernel does
not answer `EBADF`**: in every run, the accepts of the stream have come to
results, and what the stream has done with them is what they ask for, each in
its turn, if and only if none of them is `EBADF`. -/
theorem faithful_iff_of_run (wakeFd fd : SocketDescriptor)
    {es : List (Event PollWarden.Event (Handle × Sys))} {s : State PollWarden.State}
    {es' : List (Event UringWarden.Event (Handle × TimePoint × ℕ))} {s' : State UringWarden.State}
    (h : Run (step poll fd) (Conforms poll fd) { warden := PollWarden.init wakeFd } es s)
    (h' : Run (step uring fd) (Conforms uring fd) { warden := UringWarden.init } es' s') :
    (Faithful s.results s.outputs ↔ .failed EBADF ∉ s.results) ∧
    (Faithful s'.results s'.outputs ↔ .failed EBADF ∉ s'.results) :=
  ⟨faithful_iff (lawful_poll fd) (PollWarden.unused_init wakeFd) h,
    faithful_iff (lawful_uring fd) UringWarden.unused_init h'⟩

/-- Two connections are accepted on the poll warden, the second one when the
descriptor has become ready, and then the process has no descriptors left. -/
def pollAccepts : List (Event PollWarden.Event (Handle × Sys)) :=
  [.warden (.runUntil 1), .next (2, { ret := 5 }), .next (2, { ret := -1, errno := EAGAIN }),
    .warden .suspend, .warden (.clock 0 false),
    .warden (.poll { ret := 1, revents := fun fd => if fd = 3 then { pollin := true } else {} }),
    .warden (.retry { ret := 6 }), .next (2, { ret := -1, errno := 24 })]

/-- The same on the uring warden, where each accept waits for its CQE. -/
def uringAccepts : List (Event UringWarden.Event (Handle × TimePoint × ℕ)) :=
  [.warden (.runUntil 1), .next (2, 0, 1), .warden .suspend, .warden (.condition false 1),
    .warden (.waitCqe 0 ⟨0, 5⟩), .next (2, 0, 1), .warden .suspend, .warden (.peekCqe none),
    .warden .resumeNext, .warden (.condition false 1), .warden (.waitCqe 0 ⟨0, 6⟩),
    .next (2, 0, 1), .warden .suspend, .warden (.peekCqe none), .warden .resumeNext,
    .warden (.condition false 1), .warden (.waitCqe 0 ⟨0, -24⟩)]

/-- `faithful_iff_of_run` at `pollAccepts` and `uringAccepts`. -/
theorem faithful_iff_of_run_accepts :
    (∃ s, Run (step poll 3) (Conforms poll 3) { warden := PollWarden.init 9 } pollAccepts s
      ∧ s.outputs = [.yields 5, .yields 6, .throws (.systemError 24 "accept")]
      ∧ Faithful s.results s.outputs) ∧
    (∃ s, Run (step uring 3) (Conforms uring 3) { warden := UringWarden.init } uringAccepts s
      ∧ s.outputs = [.yields 5, .yields 6, .throws (.systemError 24 "uring IOP")]
      ∧ Faithful s.results s.outputs) := by
  obtain ⟨s, hrun, htest⟩ := exists_run_of_exec (step poll 3) (Conforms poll 3)
    { warden := PollWarden.init 9 } pollAccepts
    (fun s => s.results = [.accepted 5, .accepted 6, .failed 24]
      ∧ s.outputs = [.yields 5, .yields 6, .throws (.systemError 24 "accept")]) (by decide)
  obtain ⟨s', hrun', htest'⟩ := exists_run_of_exec (step uring 3) (Conforms uring 3)
    { warden := UringWarden.init } uringAccepts
    (fun s => s.results = [.accepted 5, .accepted 6, .failed 24]
      ∧ s.outputs = [.yields 5, .yields 6, .throws (.systemError 24 "uring IOP")]) (by decide)
  obtain ⟨hr, ho⟩ := of_decide_eq_true htest
  obtain ⟨hr', ho'⟩ := of_decide_eq_true htest'
  have hfaithful := faithful_iff_of_run 9 3 hrun hrun'
  exact ⟨⟨s, hrun, ho, hfaithful.1.mpr (by rw [hr]; decide)⟩,
    ⟨s', hrun', ho', hfaithful.2.mpr (by rw [hr']; decide)⟩⟩

/-- **A closed listener does not end the stream.** The kernel answers the first
accept with `EBADF`: on the poll warden the stream throws `EPERM`, which is the
`-1` of `::accept` negated, and on the uring warden it throws `EBADF`. -/
theorem throws_of_closed_listener :
    (∃ s, Run (step poll 3) (Conforms poll 3) { warden := PollWarden.init 9 }
        [.warden (.runUntil 1), .next (2, { ret := -1, errno := EBADF })] s
      ∧ s.results = [.failed EBADF] ∧ s.outputs = [.throws (.systemError 1 "accept")]
      ∧ ¬ Faithful s.results s.outputs) ∧
    (∃ s, Run (step uring 3) (Conforms uring 3) { warden := UringWarden.init }
        [.warden (.runUntil 1), .next (2, 0, 1), .warden .suspend,
          .warden (.condition false 1), .warden (.waitCqe 0 ⟨0, -EBADF⟩)] s
      ∧ s.results = [.failed EBADF] ∧ s.outputs = [.throws (.systemError EBADF "uring IOP")]
      ∧ ¬ Faithful s.results s.outputs) := by
  have hnot : ∀ e : Exception, ¬ Faithful [.failed EBADF] [.throws e] :=
    fun e h => (List.forall₂_cons.mp h.asks).1.1 rfl
  obtain ⟨s, hrun, htest⟩ := exists_run_of_exec (step poll 3) (Conforms poll 3)
    { warden := PollWarden.init 9 }
    [.warden (.runUntil 1), .next (2, { ret := -1, errno := EBADF })]
    (fun s => s.results = [.failed EBADF]
      ∧ s.outputs = [.throws (.systemError 1 "accept")]) (by decide)
  obtain ⟨s', hrun', htest'⟩ := exists_run_of_exec (step uring 3) (Conforms uring 3)
    { warden := UringWarden.init }
    [.warden (.runUntil 1), .next (2, 0, 1), .warden .suspend,
      .warden (.condition false 1), .warden (.waitCqe 0 ⟨0, -EBADF⟩)]
    (fun s => s.results = [.failed EBADF]
      ∧ s.outputs = [.throws (.systemError EBADF "uring IOP")]) (by decide)
  obtain ⟨hr, ho⟩ := of_decide_eq_true htest
  obtain ⟨hr', ho'⟩ := of_decide_eq_true htest'
  refine ⟨⟨s, hrun, hr, ho, ?_⟩, ⟨s', hrun', hr', ho', ?_⟩⟩
  · rw [hr, ho]
    exact hnot _
  · rw [hr', ho']
    exact hnot _

end AcceptStream
