import Felspar.UringLedger
import Felspar.UringSuspension

/-!
# What the coroutine of an IOP observes

The kernel settles each IOP in one of two ways: the operation finishes with
some result, or its timer fires (`Fate`). An IOP with a deadline yields two
CQEs either way, in either order, and one of them says no more than that the
other one decided. `deliver` has to ignore that one and to resume the
coroutine with the other, and it has nothing to go by but the result and the
deadline.

Which way an IOP goes is fixed before the run, and a run is one in which the
kernel keeps to it. What is proved of such a run is read off what has been
observed of the IOP (`State.log`): its coroutine is resumed exactly once when
the deciding CQE finds the IOP alive, with what the IOP came to, and not at
all otherwise; and never after the IOP has been destroyed.
-/

namespace UringWarden

/-! ## What the kernel does -/

/-- **What an IOP comes to.** -/
inductive Fate
  /-- The operation finishes first, with this result. -/
  | finished (r : Int)
  /-- The timer fires first. -/
  | timedOut
  deriving DecidableEq

namespace Fate

/-- The results of the two SQEs. -/
def result : Fate → Role → Int
  | .finished r, .op => r
  | .finished _, .timer => -ECANCELED
  | .timedOut, .op => -ECANCELED
  | .timedOut, .timer => -ETIME

/-- The SQE whose CQE says what the IOP has come to. -/
def decider : Fate → Role
  | .finished _ => .op
  | .timedOut => .timer

/-- An IOP without a deadline does not time out, and an operation that has a
timer is not cancelled but by it. -/
def Fits (f : Fate) (c : Completion) : Prop :=
  match f with
  | .finished r => c.deadline ≠ none → r ≠ -ECANCELED
  | .timedOut => c.deadline ≠ none

instance (f : Fate) (c : Completion) : Decidable (f.Fits c) := by
  cases f <;> unfold Fits <;> infer_instance

end Fate

/-- The CQE has the result it has to have, if it is one of an IOP whose SQEs
have all been queued. -/
def KeepsTo (fate : DeliveryId → Fate) (s : State) (cqe : Cqe) : Prop :=
  match s.inflight[cqe.index]? with
  | none => True
  | some sqe => match sqe.userData with
    | none => True
    | some id => s.stage id = .awaited → cqe.res = (fate id).result sqe.role ∧
      match s.completions id with
      | none => True
      | some c => (fate id).Fits c

instance (fate : DeliveryId → Fate) (s : State) (cqe : Cqe) :
    Decidable (KeepsTo fate s cqe) := by
  unfold KeepsTo
  cases s.inflight[cqe.index]? with
  | none => infer_instance
  | some sqe =>
    dsimp only
    cases sqe.userData with
    | none => infer_instance
    | some id =>
      dsimp only
      cases s.completions id <;> infer_instance

/-- **The steps of a run in which the kernel keeps to the fate of each
IOP**, and each is awaited at most once. -/
def Settled (fate : DeliveryId → Fate) (s : State) (e : Event) : Prop :=
  Orderly s e ∧ match e.cqe with
    | none => True
    | some cqe => KeepsTo fate s cqe

instance (fate : DeliveryId → Fate) : DecidableRel (Settled fate) := fun s e => by
  unfold Settled
  cases e.cqe <;> infer_instance

/-! ## What is observed of an IOP -/

/-- What has been observed of one IOP, newest first. -/
def State.log (s : State) (id : DeliveryId) : List Obs := (s.view id).log

namespace Obs

/-- A CQE of the SQE in this role has been taken. -/
def isExecuted (r : Role) : Obs → Bool
  | .executed _ r' _ => r' = r
  | _ => false

/-- The IOP has been destructed. -/
def isDestroyed : Obs → Bool
  | .destroyed _ => true
  | _ => false

/-- The outcome its coroutine is resumed with. -/
def outcome? : Obs → Option Outcome
  | .resumed _ outcome => some outcome
  | _ => none

end Obs

/-- The outcomes the coroutine has been resumed with. -/
def resumptions (log : List Obs) : List Outcome := log.filterMap Obs.outcome?

/-- **The deciding CQE has been executed**, with the IOP not destroyed
before. -/
def decided (f : Fate) : List Obs → Bool
  | [] => false
  | o :: earlier => (o.isExecuted f.decider && !earlier.any Obs.isDestroyed) || decided f earlier

/-- **The outcome says what the IOP has come to**: the result as a value, or
its negative as an error; a time out; and no error for a sleep that has run
its time. -/
def Observes (op : Op) (f : Fate) (outcome : Outcome) : Prop :=
  match f with
  | .finished r =>
    if op.kind = .sleep ∧ r = -ETIME then outcome.error = 0
    else if 0 ≤ r then outcome.error = 0 ∧ (op.kind = .value → outcome.result = some r)
    else outcome.error = -r
  | .timedOut => outcome.error = Outcome.timeoutError

/-- **The outcome the coroutine is resumed with**: what `deliver` makes of the
deciding result where there is no deadline that could make it ignore it. -/
def Fate.outcome (f : Fate) (op : Op) : Outcome :=
  (Completion.deliver { op := op } (f.result f.decider)).getD {}

/-! ## Delivering -/

section Deliver

variable {c : Completion}

theorem deliver_of_kind (result : Int) : c.deliver result = match c.op.kind with
    | .value => c.deliverValue result
    | .void => c.deliverVoid result
    | .sleep => c.deliverSleep result := rfl

/-- A timed completion ignores that one of its SQEs has been cancelled. -/
theorem deliver_canceled (hd : c.deadline ≠ none) (hk : c.op.kind ≠ .sleep) :
    c.deliver (-ECANCELED) = none := by
  have hsome : c.deadline.isSome = true := Option.isSome_iff_ne_none.mpr hd
  rw [deliver_of_kind]
  cases hkind : c.op.kind with
  | value =>
    show c.deliverValue (-ECANCELED) = none
    unfold Completion.deliverValue
    rw [if_pos (by decide), if_pos ⟨hsome, rfl⟩]
  | void =>
    show c.deliverVoid (-ECANCELED) = none
    unfold Completion.deliverVoid
    rw [if_neg (by decide), if_pos ⟨hsome, rfl⟩]
  | sleep => exact absurd hkind hk

/-- The linked timeout makes it a time out. -/
theorem deliver_timedOut (hk : c.op.kind ≠ .sleep) :
    ∃ outcome, c.deliver (-ETIME) = some outcome ∧ Observes c.op .timedOut outcome := by
  rw [deliver_of_kind]
  cases hkind : c.op.kind with
  | value =>
    refine ⟨Outcome.ofError (- -ETIME) "uring IOP", ?_, rfl⟩
    show c.deliverValue (-ETIME) = _
    unfold Completion.deliverValue
    rw [if_pos (by decide), if_neg (fun hand => absurd hand.2 (by decide))]
  | void =>
    refine ⟨Outcome.ofError ETIME "uring IOP timeout", ?_, rfl⟩
    show c.deliverVoid (-ETIME) = _
    unfold Completion.deliverVoid
    rw [if_pos rfl]
  | sleep => exact absurd hkind hk

/-- A void completion reports a result that is no cancellation. -/
theorem deliverVoid_finished (hr : c.result = {}) {n : Int}
    (hc : ¬ (c.deadline.isSome = true ∧ n = -ECANCELED)) :
    ∃ outcome, c.deliverVoid n = some outcome
      ∧ if 0 ≤ n then outcome = {} else outcome.error = -n := by
  unfold Completion.deliverVoid
  by_cases ht : n = -ETIME
  · refine ⟨Outcome.ofError ETIME "uring IOP timeout", if_pos ht, ?_⟩
    rw [ht, if_neg (by decide)]
    rfl
  · rw [if_neg ht, if_neg hc]
    by_cases hn : n < 0
    · refine ⟨_, if_pos hn, ?_⟩
      rw [if_neg (not_le.mpr hn)]
      rfl
    · refine ⟨_, if_neg hn, ?_⟩
      rw [if_pos (not_lt.mp hn)]
      exact hr

/-- The operation reports its result. -/
theorem deliver_finished (hr : c.result = {}) {n : Int}
    (hc : ¬ (c.deadline.isSome = true ∧ n = -ECANCELED)) :
    ∃ outcome, c.deliver n = some outcome ∧ Observes c.op (.finished n) outcome := by
  cases hkind : c.op.kind with
  | value =>
    simp only [Completion.deliver, hkind, Completion.deliverValue, Observes]
    by_cases hn : n < 0
    · rw [if_pos hn, if_neg hc]
      refine ⟨_, rfl, ?_⟩
      rw [if_neg (by simp), if_neg (not_le.mpr hn)]
      rfl
    · rw [if_neg hn]
      refine ⟨_, rfl, ?_⟩
      rw [if_neg (by simp), if_pos (not_lt.mp hn)]
      exact ⟨rfl, fun _ => rfl⟩
  | void =>
    obtain ⟨outcome, ho, hobs⟩ := deliverVoid_finished hr hc
    simp only [Completion.deliver, hkind, Observes]
    refine ⟨outcome, ho, ?_⟩
    rw [if_neg (by simp)]
    split
    case isTrue hn => rw [if_pos hn] at hobs; rw [hobs]; exact ⟨rfl, by simp⟩
    case isFalse hn => rw [if_neg hn] at hobs; exact hobs
  | sleep =>
    simp only [Completion.deliver, hkind, Completion.deliverSleep, Observes]
    by_cases ht : n = -ETIME
    · obtain ⟨outcome, ho, hobs⟩ := deliverVoid_finished (n := 0) hr
        (fun hand => absurd hand.2 (by decide))
      rw [if_pos ht]
      refine ⟨outcome, ho, ?_⟩
      rw [if_pos ⟨trivial, ht⟩]
      rw [if_pos (le_refl 0)] at hobs
      rw [hobs]
    · obtain ⟨outcome, ho, hobs⟩ := deliverVoid_finished hr hc
      rw [if_neg ht]
      refine ⟨outcome, ho, ?_⟩
      rw [if_neg (fun hand => ht hand.2)]
      split
      case isTrue hn => rw [if_pos hn] at hobs; rw [hobs]; exact ⟨rfl, by simp⟩
      case isFalse hn => rw [if_neg hn] at hobs; exact hobs

/-- Neither the deadline nor the other fields matter to what is delivered. -/
theorem deliver_eq_untimed (hr : c.result = {}) {n : Int}
    (hc : ¬ (c.deadline.isSome = true ∧ n = -ECANCELED)) :
    c.deliver n = Completion.deliver { op := c.op } n := by
  have hvoid : ∀ m, ¬ (c.deadline.isSome = true ∧ m = -ECANCELED) →
      c.deliverVoid m = Completion.deliverVoid { op := c.op } m := by
    intro m hm
    unfold Completion.deliverVoid
    rw [if_neg hm, hr]
    simp
  rw [deliver_of_kind, deliver_of_kind]
  cases c.op.kind with
  | value =>
    show c.deliverValue n = Completion.deliverValue { op := c.op } n
    unfold Completion.deliverValue
    rw [if_neg hc]
    simp
  | void => exact hvoid n hc
  | sleep =>
    refine hvoid _ (fun hand => hc ⟨hand.1, ?_⟩)
    by_cases ht : n = -ETIME
    · rw [if_pos ht] at hand
      exact absurd hand.2 (by decide)
    · rw [if_neg ht] at hand
      exact hand.2

/-- **The deciding CQE delivers the outcome of the IOP's fate.** -/
theorem deliver_decider (hr : c.result = {}) {f : Fate}
    (hc : ¬ (c.deadline.isSome = true ∧ f.result f.decider = -ECANCELED)) {outcome : Outcome}
    (hd : c.deliver (f.result f.decider) = some outcome) : outcome = f.outcome c.op := by
  rw [deliver_eq_untimed hr hc] at hd
  rw [Fate.outcome, hd]
  rfl

/-- **The deciding CQE resumes the coroutine with what the IOP has come to**,
and the other one is ignored. -/
theorem deliver_result {f : Fate} (hf : f.Fits c) {r : Role}
    (hr : r = f.decider → c.result = {})
    (hsleep : c.op.kind = .sleep → c.deadline = none)
    (ht : r = .timer → c.deadline ≠ none) :
    if r = f.decider then
      c.deliver (f.result r) = some (f.outcome c.op) ∧ Observes c.op f (f.outcome c.op)
    else c.deliver (f.result r) = none := by
  have hk : c.deadline ≠ none → c.op.kind ≠ .sleep := fun hd hs => hd (hsleep hs)
  cases f with
  | timedOut =>
    cases r with
    | op => exact deliver_canceled hf (hk hf)
    | timer =>
      obtain ⟨outcome, hd, hobs⟩ := deliver_timedOut (hk hf)
      obtain rfl := deliver_decider (f := .timedOut) (hr rfl)
        (fun hand => absurd hand.2 (by decide)) hd
      exact ⟨hd, hobs⟩
  | finished n =>
    cases r with
    | op =>
      have hn : ¬ (c.deadline.isSome = true ∧ n = -ECANCELED) := fun hand =>
        hf (Option.isSome_iff_ne_none.mp hand.1) hand.2
      obtain ⟨outcome, hd, hobs⟩ := deliver_finished (hr rfl) hn
      obtain rfl := deliver_decider (f := .finished n) (hr rfl) hn hd
      exact ⟨hd, hobs⟩
    | timer => exact deliver_canceled (ht rfl) (hk (ht rfl))

end Deliver

/-! ## The invariant -/

/-- **What has been observed of the IOP is as it has to be**: if it has been
awaited, its coroutine has been resumed with what it has come to once that is
decided, and not before; and no coroutine has been resumed after its IOP has
been destroyed. -/
structure Heard (f : Fate) (log : List Obs) : Prop where
  told : ∀ id op deadline, .awaited id op deadline ∈ log →
    if decided f log then resumptions log = [f.outcome op] ∧ Observes op f (f.outcome op)
    else resumptions log = []
  past : Past (fun earlier o => o.outcome? ≠ none → earlier.any Obs.isDestroyed = false) log

/-- **What the state says of the IOP goes with what has been observed of
it.** -/
structure View.Told (f : Fate) (v : View) : Prop where
  heard : Heard f v.log
  /-- Each of its SQEs yields one CQE. -/
  once : ∀ r, v.owed r + v.log.countP (Obs.isExecuted r) ≤ 1
  created : v.stage = .created →
    (∀ r, v.log.countP (Obs.isExecuted r) = 0) ∧ resumptions v.log = []
  awaited : ∀ id op deadline, .awaited id op deadline ∈ v.log →
    v.stage = .awaited ∧ ∀ c, v.completion = some c → c.op = op
  timer : ∀ c, v.completion = some c → 0 < v.owed .timer → c.deadline ≠ none
  sleep : ∀ c, v.completion = some c → c.op.kind = .sleep → c.deadline = none
  result : ∀ c, v.completion = some c → resumptions v.log = [] → c.result = {}
  destroyed : v.log.any Obs.isDestroyed = true → v.iop = false
  gone : ∀ c, v.completion = some c → c.iopExists = false →
    v.log.any Obs.isDestroyed = true

/-- What is decided has been executed. -/
theorem decided_eq_false {f : Fate} {log : List Obs}
    (h : log.countP (Obs.isExecuted f.decider) = 0) : decided f log = false := by
  induction log with
  | nil => rfl
  | cons o log ih =>
    rw [List.countP_cons] at h
    obtain ⟨hlog, ho⟩ := Nat.add_eq_zero_iff.mp h
    have ho' : o.isExecuted f.decider = false := by
      cases hx : o.isExecuted f.decider
      · rfl
      · rw [hx] at ho
        exact absurd ho (by simp)
    rw [decided, ho', ih hlog]
    rfl

namespace Heard

variable {f : Fate} {log : List Obs}

/-- Before anything has been executed nothing has been decided. -/
theorem resumptions_eq_nil (h : Heard f log)
    (hz : log.countP (Obs.isExecuted f.decider) = 0) {id : DeliveryId} {op : Op}
    {deadline : Option TimePoint} (ha : .awaited id op deadline ∈ log) :
    resumptions log = [] := by
  have ht := h.told id op deadline ha
  rw [decided_eq_false hz, if_neg Bool.false_ne_true] at ht
  exact ht

/-- An observation that neither awaits, nor decides, nor resumes. -/
theorem cons (h : Heard f log) {o : Obs} (ha : ∀ id op deadline, o ≠ .awaited id op deadline)
    (hd : decided f (o :: log) = decided f log) (hr : o.outcome? = none) :
    Heard f (o :: log) where
  told := fun id op deadline hm => by
    have hm' := (List.mem_cons.mp hm).resolve_left (fun he => ha id op deadline he.symm)
    have hres : resumptions (o :: log) = resumptions log := List.filterMap_cons_none hr
    rw [hd, hres]
    exact h.told id op deadline hm'
  past := ⟨fun hne => absurd hr hne, h.past⟩

theorem deleted (h : Heard f log) (id : DeliveryId) : Heard f (.deleted id :: log) :=
  h.cons (fun _ _ _ => Obs.noConfusion) (by simp [decided, Obs.isExecuted]) rfl

theorem destroyed (h : Heard f log) (id : DeliveryId) : Heard f (.destroyed id :: log) :=
  h.cons (fun _ _ _ => Obs.noConfusion) (by simp [decided, Obs.isExecuted]) rfl

end Heard

namespace View.Told

variable {f : Fate} {v : View} {c : Completion}

/-- Neither how often a completion is held nor whether it is listed
matters. -/
theorem congr (h : v.Told f) (held listed : ℕ) :
    ({ v with held := held, listed := listed } : View).Told f :=
  ⟨h.heard, h.once, h.created, h.awaited, h.timer, h.sleep, h.result, h.destroyed, h.gone⟩

/-- A completion is deleted. -/
theorem deleted (h : v.Told f) (id : DeliveryId) :
    ({ v with completion := none, log := .deleted id :: v.log } : View).Told f where
  heard := h.heard.deleted id
  once := fun r => by
    rw [List.countP_cons_of_neg (by simp [Obs.isExecuted])]
    exact h.once r
  created := fun hs => by
    obtain ⟨hz, hr⟩ := h.created hs
    exact ⟨fun r => by rw [List.countP_cons_of_neg (by simp [Obs.isExecuted])]; exact hz r, hr⟩
  awaited := fun i op deadline hm =>
    ⟨(h.awaited i op deadline ((List.mem_cons.mp hm).resolve_left Obs.noConfusion)).1,
      fun c hc => absurd hc (by simp)⟩
  timer := fun c hc => absurd hc (by simp)
  sleep := fun c hc => absurd hc (by simp)
  result := fun c hc => absurd hc (by simp)
  destroyed := h.destroyed
  gone := fun c hc => absurd hc (by simp)

/-- The fields of its `delivery` and its handle change, and nothing
else. -/
theorem set (h : v.Told f) (hc : v.completion = some c) (c' : Completion)
    (hop : c'.op = c.op) (hd : c'.deadline = c.deadline) (hr : c'.result = c.result)
    (he : c'.iopExists = c.iopExists) :
    ({ v with completion := some c' } : View).Told f where
  heard := h.heard
  once := h.once
  created := h.created
  awaited := fun i op deadline hm => by
    obtain ⟨hs, hop'⟩ := h.awaited i op deadline hm
    refine ⟨hs, fun c₁ hc₁ => ?_⟩
    obtain rfl := Option.some.inj hc₁
    rw [hop]
    exact hop' c hc
  timer := fun c₁ hc₁ ht => by
    obtain rfl := Option.some.inj hc₁
    rw [hd]
    exact h.timer c hc ht
  sleep := fun c₁ hc₁ hs => by
    obtain rfl := Option.some.inj hc₁
    rw [hd]
    exact h.sleep c hc (hop ▸ hs)
  result := fun c₁ hc₁ hn => by
    obtain rfl := Option.some.inj hc₁
    rw [hr]
    exact h.result c hc hn
  destroyed := h.destroyed
  gone := fun c₁ hc₁ hx => by
    obtain rfl := Option.some.inj hc₁
    exact h.gone c hc (he ▸ hx)

/-- **The IOP is destructed.** -/
theorem iopDestructed (h : v.Told f) (hc : v.completion = some c) (id : DeliveryId) :
    ({ v with
        iop := false
        completion := some { c with iopExists := false, isOutstanding := true }
        log := .destroyed id :: v.log } : View).Told f where
  heard := h.heard.destroyed id
  once := fun r => by
    rw [List.countP_cons_of_neg (by simp [Obs.isExecuted])]
    exact h.once r
  created := fun hs => by
    obtain ⟨hz, hr⟩ := h.created hs
    exact ⟨fun r => by rw [List.countP_cons_of_neg (by simp [Obs.isExecuted])]; exact hz r, hr⟩
  awaited := fun i op deadline hm => by
    obtain ⟨hs, hop⟩ :=
      h.awaited i op deadline ((List.mem_cons.mp hm).resolve_left Obs.noConfusion)
    refine ⟨hs, fun c₁ hc₁ => ?_⟩
    obtain rfl := Option.some.inj hc₁
    exact hop c hc
  timer := fun c₁ hc₁ => by
    obtain rfl := Option.some.inj hc₁
    exact h.timer c hc
  sleep := fun c₁ hc₁ => by
    obtain rfl := Option.some.inj hc₁
    exact h.sleep c hc
  result := fun c₁ hc₁ => by
    obtain rfl := Option.some.inj hc₁
    exact h.result c hc
  destroyed := fun _ => rfl
  gone := fun _ _ _ => rfl

/-- **Its SQEs are queued**, one in each role at most. -/
theorem queued (h : v.Told f) (hs : v.stage = .created) (howed : ∀ r, v.owed r = 0)
    (hc : v.completion = some c) (c' : Completion) (g : Stage) (owed : Role → ℕ)
    (hop : c'.op = c.op) (hd : c'.deadline = c.deadline) (hr : c'.result = c.result)
    (he : c'.iopExists = c.iopExists) (hg : g ≠ .created)
    (hle : ∀ r, owed r ≤ 1) (ht : 0 < owed .timer → c.deadline ≠ none) :
    ({ v with
        completion := some c', stage := g, owed := fun r => v.owed r + owed r } :
      View).Told f := by
  have hset := h.set hc c' hop hd hr he
  refine ⟨h.heard, fun r => ?_, fun hg' => absurd hg' hg, fun i op deadline hm => ?_,
    fun c₁ hc₁ hpos => ?_, hset.sleep, hset.result, hset.destroyed, hset.gone⟩
  · show v.owed r + owed r + v.log.countP (Obs.isExecuted r) ≤ 1
    rw [howed, (h.created hs).1 r]
    have := hle r
    omega
  · have hst := (h.awaited i op deadline hm).1
    rw [hs] at hst
    exact absurd hst (by simp)
  · obtain rfl := Option.some.inj hc₁
    rw [hd]
    refine ht ?_
    have hpos' : 0 < v.owed .timer + owed .timer := hpos
    rw [howed] at hpos'
    omega

/-- **The IOP has been awaited.** -/
theorem observedAwaited (h : v.Told f) (hs : v.stage = .awaited)
    (hc : v.completion = some c) (hz : ∀ r, v.log.countP (Obs.isExecuted r) = 0)
    (hr : resumptions v.log = []) (hno : ∀ i op deadline, .awaited i op deadline ∉ v.log)
    (id : DeliveryId) (deadline : Option TimePoint) :
    ({ v with log := .awaited id c.op deadline :: v.log } : View).Told f := by
  have hd : decided f (.awaited id c.op deadline :: v.log) = false := by
    simp [decided, Obs.isExecuted, decided_eq_false (hz f.decider)]
  refine ⟨⟨fun i op dl hm => ?_, ⟨fun hne => absurd rfl hne, h.heard.past⟩⟩, fun r => ?_,
    fun hs' => ?_, fun i op dl hm => ?_, h.timer, h.sleep, h.result, h.destroyed, h.gone⟩
  · rw [hd, if_neg Bool.false_ne_true]
    exact hr
  · rw [List.countP_cons_of_neg (by simp [Obs.isExecuted])]
    exact h.once r
  · rw [hs] at hs'
    exact absurd hs' (by simp)
  · rcases List.mem_cons.mp hm with he | hm
    · cases he
      refine ⟨hs, fun c₁ hc₁ => ?_⟩
      obtain rfl := Option.some.inj (hc.symm.trans hc₁)
      rfl
    · exact absurd hm (hno i op dl)

section Execute

variable {r : Role} {owed : Role → ℕ} {id : DeliveryId} {res : Int}
  (h : ({ v with owed := fun r' => owed r' + if r = r' then 1 else 0 } : View).Told f)
  (hc : v.completion = some c) (hstage : v.stage ≠ .created)

include h

/-- The CQE that is taken is the first one of its SQE. -/
theorem executed_eq_zero : v.log.countP (Obs.isExecuted r) = 0 := by
  have hone : (owed r + if r = r then 1 else 0) + v.log.countP (Obs.isExecuted r) ≤ 1 :=
    h.once r
  rw [if_pos rfl] at hone
  omega

include hc

/-- What `deliver` does with the CQE of an IOP that has been awaited. -/
theorem deliver_eq (hkeep : v.stage = .awaited → res = f.result r ∧ f.Fits c) {i : DeliveryId}
    {op : Op} {deadline : Option TimePoint} (ha : .awaited i op deadline ∈ v.log) :
    c.op = op ∧ if r = f.decider then resumptions v.log = []
        ∧ c.deliver res = some (f.outcome c.op) ∧ Observes c.op f (f.outcome c.op)
      else c.deliver res = none := by
  obtain ⟨hs, hop⟩ := h.awaited i op deadline ha
  obtain ⟨hres, hfit⟩ := hkeep hs
  have hnil : r = f.decider → resumptions v.log = [] := fun hr =>
    h.heard.resumptions_eq_nil (hr ▸ h.executed_eq_zero) ha
  have hdel := deliver_result (c := c) hfit (r := r) (fun hr => h.result c hc (hnil hr))
    (h.sleep c hc) (fun hr => h.timer c hc (by
      show 0 < owed .timer + if r = .timer then 1 else 0
      rw [if_pos hr]
      exact Nat.succ_pos _))
  refine ⟨hop c hc, ?_⟩
  rw [hres]
  split
  case isTrue hr => rw [if_pos hr] at hdel; exact ⟨hnil hr, hdel⟩
  case isFalse hr => rw [if_neg hr] at hdel; exact hdel

include hstage

/-- **A CQE resumes the coroutine**: it is the deciding one, and finds the
IOP alive. -/
theorem resumed (hiop : v.iop = true)
    (hkeep : v.stage = .awaited → res = f.result r ∧ f.Fits c) {outcome : Outcome}
    (hd : c.deliver res = some outcome) :
    ({ v with
        completion := some { c with result := outcome }
        owed := owed
        log := .resumed id outcome :: .executed id r res :: v.log } : View).Told f := by
  have halive : v.log.any Obs.isDestroyed = false := by
    cases hx : v.log.any Obs.isDestroyed
    · rfl
    · exact absurd ((h.destroyed hx).symm.trans hiop) Bool.false_ne_true
  refine ⟨⟨fun i op deadline hm => ?_, ?_⟩, fun r' => ?_, fun hs => absurd hs hstage,
    fun i op deadline hm => ?_, fun c₁ hc₁ hpos => ?_, fun c₁ hc₁ => ?_, fun c₁ hc₁ hn => ?_,
    h.destroyed, fun c₁ hc₁ => ?_⟩
  · have ha : .awaited i op deadline ∈ v.log := by simpa using hm
    obtain ⟨hop, hdel⟩ := h.deliver_eq hc hkeep ha
    by_cases hr : r = f.decider
    · rw [if_pos hr] at hdel
      obtain ⟨hnil, ho, hobs⟩ := hdel
      obtain rfl := Option.some.inj (hd.symm.trans ho)
      rw [if_pos (by simp [decided, Obs.isExecuted, hr, halive])]
      refine ⟨?_, hop ▸ hobs⟩
      show f.outcome c.op :: resumptions v.log = [f.outcome op]
      rw [hnil, hop]
    · rw [if_neg hr] at hdel
      exact absurd (hd.symm.trans hdel) (by simp)
  · exact ⟨fun _ => halive, fun hne => absurd rfl hne, h.heard.past⟩
  · have hone := h.once r'
    rw [List.countP_cons_of_neg (by simp [Obs.isExecuted]), List.countP_cons]
    show owed r' + (v.log.countP (Obs.isExecuted r') + _) ≤ 1
    have hone' : (owed r' + if r = r' then 1 else 0)
      + v.log.countP (Obs.isExecuted r') ≤ 1 := hone
    simp only [Obs.isExecuted, decide_eq_true_eq]
    omega
  · have ha : .awaited i op deadline ∈ v.log := by simpa using hm
    obtain ⟨hs, hop⟩ := h.awaited i op deadline ha
    refine ⟨hs, fun c₁ hc₁ => ?_⟩
    obtain rfl := Option.some.inj hc₁
    exact hop c hc
  · obtain rfl := Option.some.inj hc₁
    exact h.timer c hc (Nat.add_pos_left hpos _)
  · obtain rfl := Option.some.inj hc₁
    exact h.sleep c hc
  · exact absurd hn (by simp [resumptions, Obs.outcome?])
  · obtain rfl := Option.some.inj hc₁
    exact h.gone c hc

/-- **A CQE is ignored**: it is not the deciding one, or the IOP is not there
any more. -/
theorem ignored (hkeep : v.stage = .awaited → res = f.result r ∧ f.Fits c)
    (hd : c.iopExists = false ∨ c.deliver res = none) :
    ({ v with owed := owed, log := .executed id r res :: v.log } : View).Told f := by
  refine ⟨⟨fun i op deadline hm => ?_, ?_⟩, fun r' => ?_, fun hs => absurd hs hstage,
    fun i op deadline hm => ?_, fun c₁ hc₁ hpos => ?_, h.sleep, h.result, h.destroyed,
    h.gone⟩
  · have ha : .awaited i op deadline ∈ v.log := by simpa using hm
    have hsame : decided f (.executed id r res :: v.log) = decided f v.log := by
      rcases hd with hx | hx
      · simp [decided, h.gone c hc hx]
      · obtain ⟨-, hdel⟩ := h.deliver_eq hc hkeep ha
        have hr : r ≠ f.decider := by
          intro hr
          rw [if_pos hr] at hdel
          exact absurd (hdel.2.1.symm.trans hx) (by simp)
        simp [decided, Obs.isExecuted, hr]
    have hres : resumptions (.executed id r res :: v.log) = resumptions v.log :=
      List.filterMap_cons_none rfl
    rw [hsame, hres]
    exact h.heard.told i op deadline ha
  · exact ⟨fun hne => absurd rfl hne, h.heard.past⟩
  · have hone' : (owed r' + if r = r' then 1 else 0)
      + v.log.countP (Obs.isExecuted r') ≤ 1 := h.once r'
    rw [List.countP_cons]
    show owed r' + (v.log.countP (Obs.isExecuted r') + _) ≤ 1
    simp only [Obs.isExecuted, decide_eq_true_eq]
    omega
  · have ha : .awaited i op deadline ∈ v.log := by simpa using hm
    exact h.awaited i op deadline ha
  · exact h.timer c₁ hc₁ (Nat.add_pos_left hpos _)

end Execute

end View.Told

/-! ## The operations

Each is on one completion, and is followed here at any one, which is the `i`
of the statements. -/

section Operations

variable {f : Fate} {i : DeliveryId} {s s' : State} {id : DeliveryId} {c : Completion}

/-- An operation on one completion leaves the others. -/
theorem told_of_view (id : DeliveryId) (h : (s.view i).Told f)
    (hne : i ≠ id → s'.view i = s.view i)
    (hself : (s.view id).Told f → (s'.view id).Told f) : (s'.view i).Told f := by
  by_cases hi : i = id
  · subst hi
    exact hself h
  · rw [hne hi]
    exact h

theorem told_createIop (hl : Ledger s none) (h : (s.view i).Told f) (call : Call) :
    ((createIop s call).view i).Told f := by
  refine told_of_view s.next h (fun hi => by rw [view_createIop, if_neg hi]) (fun hold => ?_)
  rw [view_createIop, if_pos rfl]
  obtain ⟨hnone, hs, hlog⟩ := hl.fresh s.next (le_refl _)
  obtain ⟨-, ho, -, -, -⟩ := (hl.kept s.next).gone hnone
  have hnew : call.completion.result = {} ∧ call.completion.iopExists = true
      ∧ (call.completion.op.kind = .sleep → call.completion.deadline = none) := by
    cases call <;> simp [Call.completion, Op.kind]
  refine ⟨hold.heard, hold.once, hold.created, fun i op deadline hm => ?_,
    fun c hc hpos => ?_, fun c hc => ?_, fun c hc _ => ?_, fun hd => ?_, fun c hc hx => ?_⟩
  · rw [hlog] at hm
    exact absurd hm (by simp)
  · have hz : (s.view s.next).owed .timer = 0 := by
      unfold View.owedCqes at ho
      omega
    exact absurd hpos (by rw [hz]; exact Nat.lt_irrefl 0)
  · obtain rfl := Option.some.inj hc
    exact hnew.2.2
  · obtain rfl := Option.some.inj hc
    exact hnew.1
  · rw [hlog] at hd
    exact absurd hd (by simp)
  · obtain rfl := Option.some.inj hc
    exact absurd (hnew.2.1.symm.trans hx) (by simp)

theorem told_awaitSuspend (hl : Ledger s none) (h : (s.view i).Told f)
    (hc : s.completions id = some c) (hs : s.stage id = .created) (a : Handle)
    (now : TimePoint) (sqes : ℕ) : ((awaitSuspend s id c a now sqes).view i).Told f := by
  refine told_of_view id h (fun hi => view_awaitSuspend_of_ne s id i c a now sqes hi)
    (fun hold => ?_)
  have howed : ∀ r, (s.view id).owed r = 0 := by
    have hk := (hl.kept id).count c hc
    rw [show (s.view id).stage = .created from hs] at hk
    obtain ⟨-, ho, -, -⟩ := hk
    unfold View.owedCqes at ho
    intro r
    cases r <;> omega
  obtain ⟨hz, hr⟩ := hold.created hs
  have hno : ∀ i op deadline, Obs.awaited i op deadline ∉ (s.view id).log :=
    fun i op deadline hm => by
      have hst := (hold.awaited i op deadline hm).1
      rw [show (s.view id).stage = .created from hs] at hst
      exact absurd hst (by simp)
  rcases awaitSuspend_cases s id c a now sqes _ rfl with
    he | ⟨-, he⟩ | ⟨t, hd, he⟩ | ⟨t, -, he⟩
  · rw [he, view_setStage, if_pos rfl, view_setCompletion, if_pos rfl]
    exact hold.queued hs howed hc { c with handle := some a } .refused (fun _ => 0)
      rfl rfl rfl rfl (by simp) (fun _ => Nat.zero_le 1)
      (fun hlt => absurd hlt (Nat.lt_irrefl 0))
  · rw [he, view_observe, if_pos (by rfl), view_setStage, if_pos rfl,
      view_push_self _ _ _ rfl, view_setCompletion, if_pos rfl]
    have hq := hold.queued hs howed hc { c with handle := some a } .awaited
      (fun r => if r = .op then 1 else 0) rfl rfl rfl rfl (by simp)
      (fun r => by cases r <;> simp) (fun hlt => absurd hlt (by simp))
    exact hq.observedAwaited rfl rfl hz hr hno id none
  · rw [he, view_observe, if_pos (by rfl), view_setStage, if_pos rfl, view_setCompletion,
      if_pos rfl, view_push_self _ _ _ rfl, view_push_self _ _ _ rfl, view_setCompletion,
      if_pos rfl]
    have hq := hold.queued hs howed hc { c with handle := some a, iopCount := 2 } .awaited
      (fun r => (if r = .op then 1 else 0) + if r = .timer then 1 else 0)
      rfl rfl rfl rfl (by simp) (fun r => by cases r <;> simp) (fun _ => by rw [hd]; simp)
    simp only [← Nat.add_assoc] at hq
    exact hq.observedAwaited rfl rfl hz hr hno id (some t)
  · rw [he, view_setStage, if_pos rfl, view_push_self _ _ _ rfl, view_setCompletion,
      if_pos rfl]
    exact hold.queued hs howed hc { c with handle := some a } .halfQueued
      (fun r => if r = .op then 1 else 0) rfl rfl rfl rfl (by simp)
      (fun r => by cases r <;> simp) (fun hlt => absurd hlt (by simp))

theorem told_iopDestructed (hl : Ledger s none) (h : (s.view i).Told f)
    (hi : s.iops id = true) : ((iopDestructed s id).view i).Told f := by
  obtain ⟨c, hc⟩ := hl.exists_of_iop hi
  refine told_of_view id h (fun hi => view_iopDestructed_of_ne s id i hi) (fun hold => ?_)
  rw [view_iopDestructed_self s id c hc]
  split
  · exact (hold.iopDestructed hc id).deleted id
  · exact (hold.iopDestructed hc id).congr _ _

theorem told_executeEnd (h : (s.view i).Told f) (hc : s.completions id = some c) :
    ((executeEnd s id).view i).Told f := by
  refine told_of_view id h (fun hi => view_executeEnd_of_ne s id i hi) (fun hold => ?_)
  rw [view_executeEnd_self s id c hc]
  split
  · exact (hold.deleted id).congr _ _
  · exact (hold.set hc { c with iopCount := sizeDecrement c.iopCount } rfl rfl rfl rfl).congr _ _

/-- What is being executed has been awaited. -/
theorem stage_ne_created (h : Ledger s (some id)) (hc : s.completions id = some c) :
    (s.view id).stage ≠ .created := fun hs => by
  have hk := h.view id
  rw [if_pos rfl] at hk
  have hqd := (hk.count_eq hc (by omega)).1
  rw [hs] at hqd
  exact absurd hqd (by simp [Stage.queued])

/-- The CQE that has been taken was owed. -/
theorem told_cqeSeen {index : ℕ} {sqe : Sqe} (h : (s.view id).Told f)
    (hq : s.inflight[index]? = some sqe) (hu : sqe.userData = some id) :
    ({ (s.cqeSeen index).view id with
      owed := fun r => ((s.cqeSeen index).view id).owed r + if sqe.role = r then 1 else 0 }
        : View).Told f := by
  have hview := view_taken s id hq
  simp only [Sqe.isOf, hu, decide_true, Bool.true_and, decide_eq_true_eq] at hview
  rw [← hview]
  exact h

/-- **A CQE is executed**, and the kernel keeps to the fate of its IOP. -/
theorem told_execute (hl : Ledger s none) (h : (s.view i).Told f) {g : Frame}
    {fs : List Frame} (hf : s.frames = g :: fs) (hp : ∀ i, g.point.holds i = false)
    {cqe : Cqe} {sqe : Sqe} (hq : s.inflight[cqe.index]? = some sqe)
    (hkeep : sqe.userData = some i → s.stage i = .awaited →
      cqe.res = f.result sqe.role ∧ ∀ c, s.completions i = some c → f.Fits c) :
    ((execute (s.cqeSeen cqe.index) sqe cqe.res).view i).Told f := by
  by_cases hi : sqe.userData = some i
  swap
  · rw [view_execute_of_ne hf (hp i) hq hi]
    exact h
  -- the CQE is one of the IOP
  have ht := hl.taken hq
  rw [hi] at ht
  have hexec := executed (s.cqeSeen cqe.index) sqe cqe.res
  generalize execute (s.cqeSeen cqe.index) sqe cqe.res = t at hexec ⊢
  cases hexec with
  | nop hu => exact absurd (hu.symm.trans hi) (by simp)
  | @gone id hu hc =>
    obtain rfl := Option.some.inj (hu.symm.trans hi)
    -- a completion that is owed a CQE has not been deleted
    obtain ⟨c, hc'⟩ := ht.exists_working
    exact absurd (hc.symm.trans hc') (by simp)
  | @ignored id c hu hc hd =>
    obtain rfl := Option.some.inj (hu.symm.trans hi)
    refine told_executeEnd (c := c) ?_ (by rw [goto_eq]; exact hc)
    rw [view_goto_idle (s := (s.cqeSeen cqe.index).observe _) id .peekCqe hf (hp id),
      view_observe, if_pos (by rfl)]
    refine (told_cqeSeen h hq hu).ignored hc (stage_ne_created ht hc) (fun hs => ?_) hd
    obtain ⟨hres, hfit⟩ := hkeep hu hs
    exact ⟨hres, hfit c hc⟩
  | @delivered id c outcome hu hc hex hd =>
    obtain rfl := Option.some.inj (hu.symm.trans hi)
    have hk := ht.view id
    rw [if_pos rfl] at hk
    have hiop : ((s.cqeSeen cqe.index).view id).iop = true := (hk.iop c hc).symm.trans hex
    rw [view_delivering ((s.cqeSeen cqe.index).observe (.executed id sqe.role cqe.res)) id id
      { c with result := outcome } hf (hp id) outcome, if_pos rfl, view_observe,
      if_pos (by rfl)]
    refine ((told_cqeSeen h hq hu).resumed hc (stage_ne_created ht hc) hiop
      (fun hs => ?_) hd).congr _ _
    obtain ⟨hres, hfit⟩ := hkeep hu hs
    exact ⟨hres, hfit c hc⟩

/-- The destructor adds nothing to the log but deletions. -/
theorem heard_deleteOutstanding (l : List DeliveryId) (s : State) (h : Heard f (s.log i)) :
    Heard f ((deleteOutstanding s l).log i) := by
  induction l generalizing s with
  | nil => exact h
  | cons id l ih =>
    unfold deleteOutstanding
    split
    · exact h
    · refine ih _ ?_
      unfold State.log
      rw [view_delete]
      split
      · exact h.deleted id
      · exact h

end Operations

/-! ## Every step, and every run -/

/-- The kernel keeps to the fate of one IOP, whatever it does with others. -/
def Follows (i : DeliveryId) (f : Fate) (s : State) (e : Event) : Prop :=
  Orderly s e ∧ ∀ cqe sqe, e.cqe = some cqe → s.inflight[cqe.index]? = some sqe →
    sqe.userData = some i → s.stage i = .awaited →
      cqe.res = f.result sqe.role ∧ ∀ c, s.completions i = some c → f.Fits c

theorem Settled.follows {fate : DeliveryId → Fate} {s : State} {e : Event}
    (h : Settled fate s e) (i : DeliveryId) : Follows i (fate i) s e := by
  refine ⟨h.1, fun cqe sqe he hq hu hs => ?_⟩
  have hkeep := h.2
  rw [he] at hkeep
  dsimp only [KeepsTo] at hkeep
  rw [hq] at hkeep
  dsimp only at hkeep
  rw [hu] at hkeep
  obtain ⟨hres, hfit⟩ := hkeep hs
  refine ⟨hres, fun c hc => ?_⟩
  rw [hc] at hfit
  exact hfit

/-- **What holds of every state of such a run**: what has been observed of
the IOP is as it has to be, and the state goes with it as long as the warden
is there. -/
structure Delivery (i : DeliveryId) (f : Fate) (s : State) : Prop where
  sound : Sound s
  heard : Heard f (s.log i)
  told : s.closed = false → (s.view i).Told f

section Steps

variable {i : DeliveryId} {f : Fate} {s s' : State}

theorem Delivery.of_told (hs : Sound s) (h : (s.view i).Told f) : Delivery i f s :=
  ⟨hs, h.heard, fun _ => h⟩

/-- Only the view of the IOP matters. -/
theorem Delivery.of_view (hs : Sound s') (h : (s.view i).Told f)
    (hview : s'.view i = s.view i) : Delivery i f s' :=
  Delivery.of_told hs (by rw [hview]; exact h)

/-- **Every step keeps what has been observed as it has to be.** -/
theorem Delivery.step {e : Event} (h : Delivery i f s) (hok : Follows i f s e)
    (hs : step s e = some s') : Delivery i f s' := by
  have hsound := h.sound.step hok.1.awaitedOnce hs
  have hclosed := (stepped_of_step hs).2.1
  have hl := h.sound.ledger hclosed
  have ht := h.told hclosed
  by_cases hid : Subject s i e
  swap
  · exact Delivery.of_view hsound ht (view_of_step hs hid)
  cases steppedOn_of_step hs hid with
  | create hi call => exact Delivery.of_told hsound (told_createIop hl ht call)
  | await hi hc a now sqes =>
    exact Delivery.of_told hsound (told_awaitSuspend hl ht hc hok.1 a now sqes)
  | awaitGone hi hc a now sqes => exact Delivery.of_view hsound ht (view_fail s i _)
  | destroy hi => exact Delivery.of_told hsound (told_iopDestructed hl ht hi)
  | delivered hf hp =>
    obtain ⟨c, hc⟩ := (hl.released hf hp).exists_working
    refine Delivery.of_told hsound (told_executeEnd (c := c) ?_ hc)
    rw [view_goto i .peekCqe hf]
    exact ht.congr _ _
  | close hf hi =>
    exact ⟨hsound, heard_deleteOutstanding s.outstanding s h.heard,
      fun hc => absurd hc (by simp)⟩
  | @take g fs hf hp e cqe sqe he hq hu =>
    exact Delivery.of_told hsound (told_execute hl ht hf hp hq (hok.2 cqe sqe he hq))

theorem delivery_init (i : DeliveryId) (f : Fate) : Delivery i f init := by
  refine Delivery.of_told sound_init ⟨⟨fun _ _ _ hm => ?_, Past.nil⟩, fun _ => ?_,
    fun _ => ⟨fun _ => rfl, rfl⟩, fun _ _ _ hm => ?_, fun c hc => ?_, fun c hc => ?_,
    fun c hc => ?_, fun hd => ?_, fun c hc => ?_⟩
  · exact absurd hm (by simp [State.view, init])
  · exact Nat.zero_le 1
  · exact absurd hm (by simp [State.view, init])
  · exact absurd hc (by simp [init])
  · exact absurd hc (by simp [init])
  · exact absurd hc (by simp [init])
  · exact absurd hd (by simp [State.view, init])
  · exact absurd hc (by simp [init])

theorem delivery_of_run {es : List Event} (h : Run UringWarden.step (Follows i f) init es s) :
    Delivery i f s :=
  h.invariant (fun _ _ _ hs hok he => hs.step hok he) (delivery_init i f)

end Steps

/-- **The coroutine of an IOP is resumed exactly once**, with what the IOP
has come to, if the CQE that decides it has been executed with the IOP not
destroyed before, and not at all otherwise; and no coroutine is resumed after
its IOP has been destroyed. -/
theorem resumed_once_of_run {fate : DeliveryId → Fate} {es : List Event} {s : State}
    (h : Run step (Settled fate) init es s) :
    (∀ id op deadline, .awaited id op deadline ∈ s.log id →
      if decided (fate id) (s.log id) then
        ∃ outcome, resumptions (s.log id) = [outcome] ∧ Observes op (fate id) outcome
      else resumptions (s.log id) = [])
    ∧ ∀ id, Past (fun earlier o => o.outcome? ≠ none → earlier.any Obs.isDestroyed = false)
        (s.log id) := by
  have hheard : ∀ id, Heard (fate id) (s.log id) := fun id =>
    (delivery_of_run (h.mono (fun _ _ hok => hok.follows id))).heard
  refine ⟨fun id op deadline ha => ?_, fun id => (hheard id).past⟩
  have htold := (hheard id).told id op deadline ha
  split at htold
  case isTrue hd =>
    rw [if_pos hd]
    exact ⟨_, htold⟩
  case isFalse hd =>
    rw [if_neg hd]
    exact htold

/-- The first of three IOPs finishes with three bytes, the second one times
out, and the third one is a sleep that runs its time. -/
def readsAndSleep : DeliveryId → Fate
  | 0 => .finished 3
  | 1 => .timedOut
  | _ => .finished (-ETIME)

/-- Two timed reads, of which the CQE of the first one's timer comes before
the deciding one; the coroutine of the second one goes on to a sleep. -/
theorem resumed_once_of_run_readsAndSleep :
    ∃ s, Run step (Settled readsAndSleep) init
      [.create (.readSome 5 8 (some 7000000)), .create (.readSome 6 8 (some 7000000)),
        .runUntil 1, .await 0 2 0 2, .await 1 3 0 2, .suspend, .condition false 4,
        .waitCqe 0 ⟨1, -ECANCELED⟩, .peekCqe (some ⟨0, 3⟩), .suspend,
        .peekCqe (some ⟨0, -ECANCELED⟩), .peekCqe (some ⟨0, -ETIME⟩), .create (.sleep 10),
        .await 2 3 0 1, .suspend, .peekCqe none, .resumeNext, .condition false 1,
        .waitCqe 0 ⟨0, -ETIME⟩] s
      ∧ resumptions (s.log 0) = [Outcome.ofResult 3]
      ∧ resumptions (s.log 1) = [Outcome.ofError ETIME "uring IOP"]
      ∧ resumptions (s.log 2) = [{}]
      ∧ ∃ outcome, resumptions (s.log 2) = [outcome]
          ∧ Observes (.sleep 10) (.finished (-ETIME)) outcome := by
  obtain ⟨s, hrun, htest⟩ := exists_run_of_exec step
    (Settled readsAndSleep) init
    [.create (.readSome 5 8 (some 7000000)), .create (.readSome 6 8 (some 7000000)),
      .runUntil 1, .await 0 2 0 2, .await 1 3 0 2, .suspend, .condition false 4,
      .waitCqe 0 ⟨1, -ECANCELED⟩, .peekCqe (some ⟨0, 3⟩), .suspend,
      .peekCqe (some ⟨0, -ECANCELED⟩), .peekCqe (some ⟨0, -ETIME⟩), .create (.sleep 10),
      .await 2 3 0 1, .suspend, .peekCqe none, .resumeNext, .condition false 1,
      .waitCqe 0 ⟨0, -ETIME⟩]
    (fun s => resumptions (s.log 0) = [Outcome.ofResult 3]
      ∧ resumptions (s.log 1) = [Outcome.ofError ETIME "uring IOP"]
      ∧ resumptions (s.log 2) = [{}] ∧ .awaited 2 (.sleep 10) none ∈ s.log 2
      ∧ decided (readsAndSleep 2) (s.log 2) = true)
    (by decide)
  obtain ⟨h0, h1, h2, ha, hd⟩ := of_decide_eq_true htest
  have htold := (resumed_once_of_run hrun).1 2 (.sleep 10) none ha
  rw [if_pos hd] at htold
  exact ⟨s, hrun, h0, h1, h2, htold⟩

end UringWarden
