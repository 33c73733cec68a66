import Felspar.PollView

/-!
# What a connect concludes

A non-blocking `::connect` that is in progress is settled later: the
descriptor becomes writable, and `SO_ERROR` says whether the connection was
established. `connect_completion::try_or_resume` reads it into `errvalue`,
and from then on looks at `errno` instead. The two have nothing to do with
each other: `errno` holds what the last call that failed left there, which
after a `::connect` is `EINPROGRESS`, and reading `SO_ERROR` clears it, so
that the next reading of a refused connection is zero.

So the outcome of a connection that was not established depends on `errno`.
This module says how: in every run, what a connect reports is as it should be
exactly when the reading that settled it was the first one and zero, or left
with a code in `errno` that the socket had reported
(`connect_concludes_of_run`).
-/

namespace PollWarden

/-! ## What is observed of an IOP -/

/-- The IOP a system call or a resumption is for. -/
def Obs.subject : Obs → Option RetrierId
  | .call id _ _ | .connect id _ | .resumed id _ => some id
  | _ => none

/-- The system calls and the resumptions of one IOP, newest first. -/
def State.log (s : State) (i : RetrierId) : List Obs :=
  s.trace.filter (fun o => o.subject = some i)

/-- The readings of `SO_ERROR`, newest first. -/
def readings (log : List Obs) : List Sys :=
  log.filterMap (fun o => match o with
    | .call _ _ r => some r
    | _ => none)

/-- The coroutine has been resumed. -/
def Obs.isResumed : Obs → Bool
  | .resumed _ _ => true
  | _ => false

/-! ## What a connect should report -/

/-- The reading leaves the connect waiting. -/
def stillInProgress (r : Sys) : Bool := r.soError ≠ 0 && r.errno = EINPROGRESS

/-- **What a connect should report**, when `::connect` answered `r₀` and the
readings were these: success only if `::connect` succeeded or the first
reading was zero, and otherwise the error of `::connect`, an error that was
read, or the time out. -/
def Reports (r₀ : Sys) (rs : List Sys) (outcome : Outcome) : Prop :=
  if outcome.error = 0 then r₀.ret = 0 ∨ ∃ r, rs.getLast? = some r ∧ r.soError = 0
  else (r₀.ret ≠ 0 ∧ r₀.errno ≠ EINPROGRESS ∧ outcome.error = r₀.errno)
    ∨ outcome.error ∈ rs.map Sys.soError ∨ outcome.error = Outcome.timeoutError

/-- **The readings are harmless**: there is none; or the last one left the
connect waiting, for its deadline; or it was zero, and the first one; or it
was not, and `errno` held a code that had been read (or that of a time
out). -/
def Harmless : List Sys → Prop
  | [] => True
  | r :: earlier => stillInProgress r = true ∨
    if r.soError = 0 then earlier = []
    else r.errno ∈ (r :: earlier).map Sys.soError ∨ r.errno = Outcome.timeoutError

theorem harmless_cons (r : Sys) (earlier : List Sys) :
    Harmless (r :: earlier) ↔ stillInProgress r = true ∨
      if r.soError = 0 then earlier = []
      else r.errno ∈ (r :: earlier).map Sys.soError ∨ r.errno = Outcome.timeoutError :=
  Iff.rfl

/-- The first time the coroutine of a connect is resumed, `P` holds of what
`::connect` answered, of the readings, and of the outcome. -/
def FirstResumed (P : Sys → List Sys → Outcome → Prop) (earlier : List Obs) : Obs → Prop
  | .resumed id outcome => earlier.any Obs.isResumed = false →
      ∀ r₀, .connect id r₀ ∈ earlier → P r₀ (readings earlier) outcome
  | _ => True

/-- A connect reports what it should exactly when the readings are
harmless. -/
def Concludes : List Obs → Obs → Prop :=
  FirstResumed (fun r₀ rs outcome => Reports r₀ rs outcome ↔ Harmless rs)

/-! ## The runs -/

/-- The completion is a connect. -/
def Op.isConnect : Op → Bool
  | .connect _ => true
  | _ => false

/-- The loop is about to retry a connect. -/
def State.retriesConnect (s : State) : Bool :=
  match s.frames with
  | [] => false
  | f :: _ => match f.point with
    | .continuations _ (id :: _) => (s.completions id).any (fun c => c.op.isConnect)
    | _ => false

/-- **The steps of such a run**: each IOP is awaited once, a system call that
fails says why, and the readings succeed. -/
def ConnectStep (s : State) : Event → Prop
  | .await id _ r => s.stage id = .created ∧ (r.ret ≠ 0 → r.errno ≠ 0)
  | .retry r => s.retriesConnect = true → r.ret = 0
  | _ => True

instance : DecidableRel ConnectStep := fun s e =>
  match e with
  | .await id _ r =>
    inferInstanceAs (Decidable (s.stage id = .created ∧ (r.ret ≠ 0 → r.errno ≠ 0)))
  | .retry r => inferInstanceAs (Decidable (s.retriesConnect = true → r.ret = 0))
  | .create _ | .destroy _ | .asyncResume _ _ | .runUntil _ | .runBatch | .suspend | .clock _ _
  | .poll _ | .resumeNext => inferInstanceAs (Decidable True)

/-! ## How a connect concludes -/

section Concluding

/-- **A time out is reported**, whatever was read before. -/
theorem reports_timedOut (r₀ : Sys) (rs : List Sys) : Reports r₀ rs timedOutOutcome := by
  unfold Reports
  rw [if_neg (by decide)]
  exact Or.inr (Or.inr rfl)

/-- Readings that all left the connect waiting are harmless. -/
theorem harmless_of_inProgress {rs : List Sys} (h : ∀ r ∈ rs, stillInProgress r = true) :
    Harmless rs := by
  cases rs with
  | nil => trivial
  | cons r earlier => exact Or.inl (h r List.mem_cons_self)

/-- A reading that leaves the connect waiting is not zero. -/
theorem stillInProgress_iff (r : Sys) :
    stillInProgress r = true ↔ r.soError ≠ 0 ∧ r.errno = EINPROGRESS := by
  simp [stillInProgress]

/-- **A reading that settles the connect** is reported as it should be
exactly when it is harmless. -/
theorem reports_iff_harmless {r₀ r : Sys} {earlier : List Sys} {fd : SocketDescriptor}
    (h₀ : r₀.ret ≠ 0 ∧ r₀.errno = EINPROGRESS) (hret : r.ret = 0)
    (hr : stillInProgress r = false)
    (hearlier : ∀ r ∈ earlier, stillInProgress r = true) :
    Reports r₀ (r :: earlier) ((Op.connect fd).answered r {}) ↔ Harmless (r :: earlier) := by
  have hnz : r.soError ≠ 0 → 0 ∉ (r :: earlier).map Sys.soError := by
    intro hv hm
    obtain ⟨r', hm', he⟩ := List.mem_map.mp hm
    rcases List.mem_cons.mp hm' with rfl | hm'
    · exact hv he
    · exact ((stillInProgress_iff r').mp (hearlier r' hm')).1 he
  rw [harmless_cons, hr]
  simp only [Bool.false_eq_true, false_or]
  by_cases hv : r.soError = 0
  · rw [if_pos hv]
    have hout : (Op.connect fd).answered r {} = {} := by simp [Op.answered, hret, hv]
    rw [hout]
    unfold Reports
    rw [if_pos rfl]
    constructor
    · rintro (hz | ⟨r', hlast, hz⟩)
      · exact absurd hz h₀.1
      · cases earlier with
        | nil => rfl
        | cons r₁ older =>
          rw [List.getLast?_cons_cons] at hlast
          have hm := List.mem_of_getLast? hlast
          exact absurd hz ((stillInProgress_iff r').mp (hearlier r' hm)).1
    · rintro rfl
      exact Or.inr ⟨r, rfl, hv⟩
  · rw [if_neg hv]
    have hout : (Op.connect fd).answered r {}
        = Outcome.ofError r.errno "connect in follow up call" := by
      simp [Op.answered, hret, hv]
    rw [hout]
    unfold Reports
    show (if r.errno = 0 then _ else _ ∨ r.errno ∈ _ ∨ r.errno = _) ↔ _
    by_cases he : r.errno = 0
    · rw [if_pos he, he]
      constructor
      · rintro (hz | ⟨r', hlast, hz⟩)
        · exact absurd hz h₀.1
        · refine absurd ?_ (hnz hv)
          rw [← hz]
          exact List.mem_map_of_mem (List.mem_of_getLast? hlast)
      · rintro (hm | hm)
        · exact absurd hm (hnz hv)
        · exact absurd hm (by decide)
    · rw [if_neg he]
      constructor
      · rintro (⟨-, hne, -⟩ | hrest)
        · exact absurd h₀.2 hne
        · exact hrest
      · exact Or.inr

end Concluding

/-! ## What has been observed of an IOP -/

/-- **What has been observed of an IOP goes with its completion.** A connect
that has not been resumed has only been told that it is in progress. -/
structure Connecting (completion : Option Completion) (stage : Stage) (log : List Obs) :
    Prop where
  concludes : Past Concludes log
  created : stage = .created → log = []
  waiting : ∀ c, completion = some c → c.op.isConnect = true →
    log.any Obs.isResumed = false → c.result = {}
      ∧ (∀ i r, .connect i r ∈ log → r.ret ≠ 0 ∧ r.errno = EINPROGRESS)
      ∧ ∀ r ∈ readings log, stillInProgress r = true
  other : ∀ c, completion = some c → c.op.isConnect = false →
    ∀ i r, .connect i r ∉ log

/-- Nothing is observed of an IOP before it is created. -/
structure Connections (s : State) : Prop where
  fresh : ∀ i, s.next ≤ i → s.completions i = none ∧ s.stage i = .created ∧ s.log i = []
  connecting : ∀ i, Connecting (s.completions i) (s.stage i) (s.log i)

section Log

variable {s s' : State} {i id : RetrierId} {l : List Obs}

/-- Observations that are not of the IOP do not show in its log. -/
theorem log_of_trace_of_ne (ht : s'.trace = l ++ s.trace)
    (hos : ∀ o ∈ l, o.subject ≠ some i) : s'.log i = s.log i := by
  unfold State.log
  rw [ht, List.filter_append, List.filter_eq_nil_iff.mpr, List.nil_append]
  simpa using hos

theorem log_of_trace_self (ht : s'.trace = l ++ s.trace)
    (hos : ∀ o ∈ l, o.subject = some i) : s'.log i = l ++ s.log i := by
  unfold State.log
  rw [ht, List.filter_append, List.filter_eq_self.mpr]
  simpa using hos

/-- A log without a connect concludes nothing. -/
theorem concludes_of_not_mem {log : List Obs} (h : ∀ i r, Obs.connect i r ∉ log) :
    Past Concludes log := by
  induction log with
  | nil => exact Past.nil
  | cons o log ih =>
    refine ⟨?_, ih (fun i r hm => h i r (List.mem_cons_of_mem _ hm))⟩
    cases o with
    | resumed id outcome =>
      exact fun _ r₀ hm => absurd (List.mem_cons_of_mem _ hm) (h id r₀)
    | _ => trivial

end Log

namespace Connections

variable {s s' : State} {id : RetrierId} {c : Completion}

/-- What concerns no IOP changes nothing. -/
theorem congr (h : Connections s) (os : List Obs) (hn : s'.next = s.next)
    (hc : s'.completions = s.completions) (hg : s'.stage = s.stage)
    (ht : s'.trace = os ++ s.trace)
    (hos : ∀ o ∈ os, o.subject = none) : Connections s' := by
  have hl : ∀ i, s'.log i = s.log i := fun i =>
    log_of_trace_of_ne ht (fun o ho => by rw [hos o ho]; simp)
  refine ⟨fun i hi => ?_, fun i => ?_⟩
  · rw [hc, hg, hl]
    exact h.fresh i (hn ▸ hi)
  · rw [hc, hg, hl]
    exact h.connecting i

/-- The loop goes on. -/
theorem goto (h : Connections s) (p : Point) : Connections (s.goto p) := by
  rw [goto_eq]
  exact h.congr [] rfl rfl rfl rfl (by simp)

/-- **A member on one completion** has to keep the log of that one. -/
theorem of_member (h : Connections s) (os : List Obs) (hc : s.completions id = some c)
    (hshell : s'.shell = s.shell) (hview : ∀ i, i ≠ id → s'.view i = s.view i)
    (ht : s'.trace = os ++ s.trace)
    (hos : ∀ o ∈ os, o.subject = some id)
    (hself : Connecting (s'.completions id) (s'.stage id) (os ++ s.log id)) :
    Connections s' := by
  have hother : ∀ i, i ≠ id → s'.completions i = s.completions i
      ∧ s'.stage i = s.stage i ∧ s'.log i = s.log i := fun i hi =>
    ⟨congrArg View.completion (hview i hi), congrArg View.stage (hview i hi),
      log_of_trace_of_ne ht (fun o ho he =>
        hi (Option.some.inj (he.symm.trans (hos o ho))))⟩
  refine ⟨fun i hi => ?_, fun i => ?_⟩
  · have hfresh := h.fresh i (le_of_eq_of_le (congrArg Shell.next hshell).symm hi)
    by_cases he : i = id
    · rw [he, hc] at hfresh
      exact absurd hfresh.1 (by simp)
    · obtain ⟨h₁, h₂, h₃⟩ := hother i he
      rw [h₁, h₂, h₃]
      exact hfresh
  · by_cases he : i = id
    · rw [he, log_of_trace_self ht hos]
      exact hself
    · obtain ⟨h₁, h₂, h₃⟩ := hother i he
      rw [h₁, h₂, h₃]
      exact h.connecting i

end Connections

/-! ## The members -/

section Members

variable {s : State} {id : RetrierId} {c : Completion}

/-- The system call of a `try_or_resume`. -/
def callObs (id : RetrierId) (op : Op) (r : Sys) : List Obs :=
  if op.calls then [.call id op r] else []

/-- The resumption of a `try_or_resume`, if there is one. -/
def answerObs (id : RetrierId) (c : Completion) (r : Sys) : List Obs :=
  if c.op.waits r then [] else [.resumed id (c.op.answered r c.result)]

theorem trace_tryOrResume (s : State) (id : RetrierId) (c : Completion) (r : Sys) :
    (tryOrResume s id c r).1.trace
      = answerObs id c r ++ (callObs id c.op r ++ s.trace) := by
  have hcalled : (called s id c.op r).trace = callObs id c.op r ++ s.trace := by
    unfold called callObs
    split <;> rfl
  rw [tryOrResume_eq, ← hcalled]
  unfold answerObs
  split
  · obtain ⟨q, t, he⟩ := registerAgain_eq (called s id c.op r) id c
    rw [he]
    rfl
  · rw [cancelTimeoutThenResume, cancelTimeout_eq]
    rfl

theorem trace_iopTimedout (s : State) (id : RetrierId) (c : Completion) :
    (iopTimedout s id c).1.trace
      = .resumed id (if c.op = .sleep then c.result else timedOutOutcome) :: s.trace := by
  unfold iopTimedout
  split
  case h_1 hop => rw [if_pos hop]; rfl
  case h_2 hop => rw [if_neg hop, cancelIop_eq]; rfl

/-- A member of a completion that is no connect observes no `::connect`. -/
theorem Connecting.of_other {completion : Option Completion} {stage : Stage}
    {log os : List Obs} (h : Connecting (some c) stage log) (hop : c.op.isConnect = false)
    {c' : Completion} {stage' : Stage} (hc' : completion = some c') (hsame : c.Same c')
    (hstage : stage' ≠ .created) (hos : ∀ i r, .connect i r ∉ os) :
    Connecting completion stage' (os ++ log) := by
  subst hc'
  have hno : ∀ i r, Obs.connect i r ∉ os ++ log := by
    intro i r hm
    rcases List.mem_append.mp hm with hm | hm
    · exact hos i r hm
    · exact h.other c rfl hop i r hm
  refine ⟨concludes_of_not_mem hno, fun hg => absurd hg hstage, ?_, fun _ _ _ => hno⟩
  intro c₁ hc₁ hcon
  rw [← Option.some.inj hc₁, hsame.1, hop] at hcon
  exact absurd hcon (by simp)

/-- A connect that is resumed has nothing more to wait for. -/
theorem Connecting.of_resumed {stage : Stage} {log : List Obs} {outcome : Outcome}
    {c' : Completion} (h : Past Concludes log) (hop : c'.op.isConnect = true)
    (hconcl : Concludes log (.resumed id outcome)) (hstage : stage ≠ .created) :
    Connecting (some c') stage (.resumed id outcome :: log) where
  concludes := ⟨hconcl, h⟩
  created := fun he => absurd he hstage
  waiting := fun _ _ _ hany => absurd hany (by simp [Obs.isResumed])
  other := fun c hc hno => by
    rw [← Option.some.inj hc, hop] at hno
    exact absurd hno (by simp)

theorem stageOf_ne_created (waits : Bool) : stageOf waits ≠ .created := by
  cases waits <;> simp [stageOf]

theorem mem_callObs {op : Op} {r : Sys} {o : Obs} (h : o ∈ callObs id op r) :
    o = .call id op r := by
  unfold callObs at h
  split at h
  · exact List.mem_singleton.mp h
  · exact absurd h (by simp)

theorem mem_answerObs {r : Sys} {o : Obs} (h : o ∈ answerObs id c r) :
    o = .resumed id (c.op.answered r c.result) := by
  unfold answerObs at h
  split at h
  · exact absurd h (by simp)
  · exact List.mem_singleton.mp h

/-- What a `try_or_resume` observes is of its completion, and no
`::connect`. -/
theorem mem_tryObs {r : Sys} {o : Obs}
    (h : o ∈ answerObs id c r ++ callObs id c.op r) :
    o.subject = some id ∧ ∀ i r', o ≠ .connect i r' := by
  rcases List.mem_append.mp h with h | h
  · rw [mem_answerObs h]
    exact ⟨rfl, fun _ _ => by simp⟩
  · rw [mem_callObs h]
    exact ⟨rfl, fun _ _ => by simp⟩

/-- A connect is retried. Before it is resumed, its readings have all left it
waiting, and this one either does so too or settles it. -/
theorem Connecting.retry {log : List Obs} {stage : Stage} {r : Sys}
    (h : Connecting (some c) stage log) (hop : c.op.isConnect = true) (hr : r.ret = 0) :
    Connecting (some (if c.op.waits r then c
        else { c with result := c.op.answered r c.result })) (stageOf (c.op.waits r))
      ((answerObs id c r ++ callObs id c.op r) ++ log) := by
  obtain ⟨fd, hfd⟩ : ∃ fd, c.op = .connect fd := by
    cases hc : c.op with
    | connect fd => exact ⟨fd, rfl⟩
    | _ => rw [hc] at hop; exact absurd hop (by simp [Op.isConnect])
  have hwaits : c.op.waits r = stillInProgress r := by
    simp [hfd, Op.waits, stillInProgress, hr]
  have hcall : callObs id c.op r = [.call id c.op r] := by
    rw [hfd]; rfl
  have hcalled : Past Concludes (.call id c.op r :: log) := ⟨trivial, h.concludes⟩
  rw [hcall]
  unfold answerObs
  rw [hwaits]
  cases hw : stillInProgress r with
  | true =>
    refine ⟨hcalled, fun he => absurd he (by simp [stageOf]), ?_, ?_⟩
    · intro c₁ hc₁ hop₁ hany
      obtain ⟨hres, hcon, hread⟩ := h.waiting c rfl hop (by simpa [Obs.isResumed] using hany)
      rw [← Option.some.inj hc₁]
      refine ⟨hres, fun i r' hm => ?_, fun r' hm => ?_⟩
      · exact hcon i r' (by simpa using hm)
      · rcases List.mem_cons.mp (show r' ∈ r :: readings log from hm) with rfl | hm
        · exact hw
        · exact hread r' hm
    · intro c₁ hc₁ hno
      rw [← Option.some.inj hc₁, if_pos rfl, hop] at hno
      exact absurd hno (by simp)
  | false =>
    refine Connecting.of_resumed hcalled hop ?_ (by simp [stageOf])
    intro hany r₀ hm
    obtain ⟨hres, hcon, hread⟩ := h.waiting c rfl hop (by simpa [Obs.isResumed] using hany)
    rw [hres, hfd]
    exact reports_iff_harmless (hcon id r₀ (by simpa using hm)) hr hw hread

/-- A connect that times out says so, and its readings have all left it
waiting. -/
theorem Connecting.timedOut {log : List Obs} {stage : Stage}
    (h : Connecting (some c) stage log) (hop : c.op.isConnect = true) :
    Connecting (some { c with result := timedOutOutcome }) .finished
      (.resumed id timedOutOutcome :: log) := by
  refine Connecting.of_resumed h.concludes hop (fun hany r₀ _ => ?_) (by simp)
  obtain ⟨-, -, hread⟩ := h.waiting c rfl hop hany
  exact iff_of_true (reports_timedOut r₀ _) (harmless_of_inProgress hread)

/-- **A connect is awaited**: the `::connect` establishes the connection, is
in progress, or fails and says why. -/
theorem Connecting.await {log : List Obs} (h : Connecting (some c) .created log)
    (id : RetrierId) (a : Handle) {r : Sys} (hop : c.op.isConnect = true)
    (hr : r.ret ≠ 0 → r.errno ≠ 0) :
    (r.ret = 0 → Connecting (some { c with handle := some a }) .finished
        (.resumed id c.result :: .connect id r :: log))
    ∧ (r.ret ≠ 0 → r.errno = EINPROGRESS →
        Connecting (some { c with handle := some a }) .suspended (.connect id r :: log))
    ∧ (r.ret ≠ 0 → r.errno ≠ EINPROGRESS →
        Connecting (some { c with
            handle := some a
            result := Outcome.ofError r.errno "connect failure in initial call" })
          .finished
          (.resumed id (Outcome.ofError r.errno "connect failure in initial call")
            :: .connect id r :: log)) := by
  obtain rfl := h.created rfl
  obtain ⟨hres, -, -⟩ := h.waiting c rfl hop rfl
  have hconn : Past Concludes [.connect id r] := ⟨trivial, trivial⟩
  have hr₀ : ∀ r₀, Obs.connect id r₀ ∈ [.connect id r] → r₀ = r := fun r₀ hm => by
    simpa using hm
  refine ⟨fun hz => ?_, fun hnz hprog => ?_, fun hnz hprog => ?_⟩
  · refine Connecting.of_resumed hconn hop (fun _ r₀ hm => ?_) (by simp)
    rw [hr₀ r₀ hm, hres]
    exact iff_of_true (Or.inl hz) trivial
  · refine ⟨hconn, fun he => absurd he (by simp), ?_, ?_⟩
    · intro c₁ hc₁ _ _
      rw [← Option.some.inj hc₁]
      refine ⟨hres, fun i r' hm => ?_, fun r' hm => absurd hm (by simp [readings])⟩
      obtain ⟨-, rfl⟩ : i = id ∧ r' = r := by simpa using hm
      exact ⟨hnz, hprog⟩
    · intro c₁ hc₁ hno
      rw [← Option.some.inj hc₁, hop] at hno
      exact absurd hno (by simp)
  · refine Connecting.of_resumed hconn hop (fun _ r₀ hm => ?_) (by simp)
    rw [hr₀ r₀ hm]
    have hne : (Outcome.ofError r.errno "connect failure in initial call").error ≠ 0 := hr hnz
    refine iff_of_true ?_ trivial
    unfold Reports
    rw [if_neg hne]
    exact Or.inl ⟨hnz, hprog, rfl⟩

end Members

namespace Connections

variable {s : State} {id : RetrierId} {c : Completion}

theorem self (h : Connections s) (hc : s.completions id = some c) :
    Connecting (some c) (s.stage id) (s.log id) := hc ▸ h.connecting id

theorem tryOrResume (h : Connections s) (hc : s.completions id = some c) {r : Sys}
    (hr : c.op.isConnect = true → r.ret = 0) :
    Connections (tryOrResume s id c r).1 := by
  have hstage := stage_tryOrResume_self s id c r
  refine h.of_member (answerObs id c r ++ callObs id c.op r) hc (shell_tryOrResume s id c r)
    (fun i hi => view_tryOrResume_of_ne s id i c r hi)
    (by rw [trace_tryOrResume, List.append_assoc])
    (fun o ho => (mem_tryObs ho).1) ?_
  cases hop : c.op.isConnect with
  | false =>
    obtain ⟨c', hc', hsame⟩ := completion_tryOrResume_self s id c r
    refine (h.self hc).of_other hop hc' hsame ?_ (fun i r' hm => (mem_tryObs hm).2 i r' rfl)
    rw [hstage]
    exact stageOf_ne_created _
  | true =>
    have hc' : (PollWarden.tryOrResume s id c r).1.completions id
        = some (if c.op.waits r then c
            else { c with result := c.op.answered r c.result }) := by
      rw [← view_completion, tryOrResume_eq]
      split
      · rw [view_returnNoop, if_pos rfl]
      · rw [cancelTimeoutThenResume, view_returnHandle, if_pos rfl]
    rw [hc', hstage]
    exact (h.self hc).retry hop (hr hop)

theorem iopTimedout (h : Connections s) (hc : s.completions id = some c) :
    Connections (iopTimedout s id c).1 := by
  refine h.of_member [_] hc (shell_iopTimedout s id c)
    (fun i hi => view_iopTimedout_of_ne s id i c hi) (trace_iopTimedout s id c)
    (fun o ho => by rw [List.mem_singleton.mp ho]; rfl) ?_
  cases hop : c.op.isConnect with
  | false =>
    obtain ⟨c', hc', hsame⟩ := completion_iopTimedout_self s id c
    refine (h.self hc).of_other hop hc' hsame ?_ (fun i r' hm => by simp at hm)
    rw [stage_iopTimedout_self]
    simp
  | true =>
    have hne : c.op ≠ .sleep := fun he => by
      rw [he] at hop
      exact absurd hop (by simp [Op.isConnect])
    have hc' : (PollWarden.iopTimedout s id c).1.completions id
        = some { c with result := timedOutOutcome } := by
      rw [← view_completion]
      unfold PollWarden.iopTimedout
      split
      case h_1 he => exact absurd he hne
      case h_2 => rw [view_returnHandle, if_pos rfl]
    rw [hc', stage_iopTimedout_self, if_neg hne]
    exact (h.self hc).timedOut hop

/-- The `await_suspend` of a connect. -/
theorem connectAwaitSuspend (h : Connections s) (hc : s.completions id = some c)
    {fd : SocketDescriptor} (hop : c.op = .connect fd) {a : Handle} {r : Sys}
    (hg : s.stage id = .created) (hr : r.ret ≠ 0 → r.errno ≠ 0) :
    Connections (awaitSuspend s id c a r).1 := by
  have hshell := shell_awaitSuspend s id c r a
  have hview := fun i hi => view_awaitSuspend_of_ne s id i c r a hi
  have he : awaitSuspend s id c a r
      = PollWarden.connectAwaitSuspend s id { c with handle := some a } fd r := by
    unfold awaitSuspend
    rw [hop]
  have hself := h.self hc
  rw [hg] at hself
  obtain ⟨hok, hwait, hfail⟩ := hself.await id a (by rw [hop]; rfl) hr
  -- the cases are the branches of the source, each with its own entries in the log
  by_cases hz : r.ret = 0
  · have hst : awaitSuspend s id c a r
        = returnHandle (s.observe (.connect id r)) id { c with handle := some a } := by
      rw [he]
      simp [PollWarden.connectAwaitSuspend, hz]
    rw [hst] at hshell hview ⊢
    refine h.of_member [.resumed id c.result, .connect id r] hc hshell hview rfl
      (by simp [Obs.subject]) ?_
    rw [← view_completion, ← view_stage, view_returnHandle, if_pos rfl]
    exact hok hz
  · by_cases hprog : r.errno = EINPROGRESS
    · have hst : awaitSuspend s id c a r
          = returnNoop (insertTimeout (pushRequest (s.observe (.connect id r)) fd .writes id) id
              { c with handle := some a }) id { c with handle := some a } := by
        rw [he]
        simp [PollWarden.connectAwaitSuspend, hz, hprog]
      rw [hst] at hshell hview ⊢
      refine h.of_member [.connect id r] hc hshell hview ?_ (by simp [Obs.subject]) ?_
      · rw [insertTimeout_eq]
        rfl
      · rw [← view_completion, ← view_stage, view_returnNoop, if_pos rfl]
        exact hwait hz hprog
    · have hst : awaitSuspend s id c a r
          = returnHandle (s.observe (.connect id r)) id { c with
              handle := some a
              result := Outcome.ofError r.errno "connect failure in initial call" } := by
        rw [he]
        simp [PollWarden.connectAwaitSuspend, hz, hprog]
      rw [hst] at hshell hview ⊢
      refine h.of_member [.resumed id _, .connect id r] hc hshell hview rfl
        (by simp [Obs.subject]) ?_
      rw [← view_completion, ← view_stage, view_returnHandle, if_pos rfl]
      exact hfail hz hprog

theorem awaitSuspend (h : Connections s) (hc : s.completions id = some c) {a : Handle}
    {r : Sys} (hg : s.stage id = .created) (hr : r.ret ≠ 0 → r.errno ≠ 0) :
    Connections (awaitSuspend s id c a r).1 := by
  have hshell := shell_awaitSuspend s id c r a
  have hview := fun i hi => view_awaitSuspend_of_ne s id i c r a hi
  obtain ⟨c', hc', hsame⟩ := completion_awaitSuspend_self s id c r a
  rcases awaitSuspend_cases s id c r a _ rfl with
    ⟨fd, hop, -⟩ | ⟨fd, d, hop, -, he⟩ | ⟨hop, he⟩
  · exact h.connectAwaitSuspend hc hop hg hr
  · have hno : c.op.isConnect = false := by rcases hop with hop | hop <;> rw [hop] <;> rfl
    refine h.of_member [] hc hshell hview ?_ (by simp)
      ((h.self hc).of_other hno hc' hsame ?_ (by simp))
    · rw [he, readyAwaitSuspend, insertTimeout_eq]
      rfl
    · rw [he, ← view_stage, readyAwaitSuspend, view_returnNoop, if_pos rfl]
      simp
  · have hno : c.op.isConnect = false := by
      cases ho : c.op with
      | connect fd => exact absurd ho (hop fd).1
      | _ => rfl
    refine h.of_member
      (answerObs id { c with handle := some a } r ++ callObs id c.op r) hc hshell hview
      ?_ (fun o ho => (mem_tryObs ho).1)
      ((h.self hc).of_other hno hc' hsame ?_ (fun i r' hm => (mem_tryObs hm).2 i r' rfl))
    · rw [he, trace_tryOrResume, insertTimeout_eq, List.append_assoc]
    · rw [he, stage_tryOrResume_self]
      exact stageOf_ne_created _

theorem iopDestructed (h : Connections s) (hc : s.completions id = some c) :
    Connections (iopDestructed s id c) := by
  refine h.of_member [] hc (shell_iopDestructed s id c) (fun i hi => ?_) ?_ (by simp) ?_
  · rw [view_iopDestructed, if_neg hi]
  · unfold PollWarden.iopDestructed
    rw [cancelIop_eq, cancelTimeout_eq]
    rfl
  · rw [← view_completion, ← view_stage, view_iopDestructed, if_pos rfl]
    exact ⟨(h.connecting id).concludes, by simp, by simp, by simp⟩

/-! ## The loop -/

theorem createIop (h : Connections s) (call : Call) : Connections (createIop s call) := by
  obtain ⟨hnone, hg, hl⟩ := h.fresh s.next (le_refl _)
  have hlog : ∀ i, (PollWarden.createIop s call).log i = s.log i := fun _ => rfl
  refine ⟨fun i hi => ?_, fun i => ?_⟩
  · have hlt : s.next < i := hi
    rw [← view_completion, ← view_stage, view_createIop, if_neg (ne_of_gt hlt), hlog]
    exact h.fresh i (le_of_lt hlt)
  · rw [← view_completion, ← view_stage, view_createIop, hlog]
    by_cases hi : i = s.next
    · rw [if_pos hi, hi, hl]
      refine ⟨Past.nil, fun _ => rfl, fun c hc _ _ => ⟨?_, by simp, by simp [readings]⟩, by simp⟩
      rw [← Option.some.inj hc]
      cases call <;> rfl
    · rw [if_neg hi]
      exact h.connecting i

theorem collect (h : Connections s) (revents : SocketDescriptor → Revents) :
    Connections (collect s revents) := by
  refine collect_rule revents ?_ (fun t ht => ?_) (fun t fd d ht => ?_)
  · exact h.congr [] rfl rfl rfl rfl (by simp)
  · exact ht.congr [] rfl rfl rfl rfl (by simp)
  · exact ht.congr [] rfl rfl rfl rfl (by simp)

theorem leave (h : Connections s) : Connections s.leave :=
  h.congr [] rfl rfl rfl rfl (by simp)

theorem doPollReturns (h : Connections s) : Connections (doPollReturns s) :=
  goto (s := { s with resumer := s.resumer.swap })
    (h.congr [] rfl rfl rfl rfl (by simp)) _

theorem doPoll (h : Connections s) (a : PollAnswer) : Connections (doPoll s a) := by
  have hpolled := polled s a
  generalize PollWarden.doPoll s a = s₁ at hpolled ⊢
  cases hpolled with
  | returns => exact h.doPollReturns
  | throws => exact h.leave
  | collects => exact (h.collect a.revents).goto _

theorem clearTimeouts (h : Connections s) (f : Frame) (now : TimePoint) (done : Bool) :
    Connections (clearTimeouts s f now done) := by
  have hcleared := clearedTimeouts s f now done
  generalize PollWarden.clearTimeouts s f now done = s₁ at hcleared ⊢
  cases hcleared with
  | leaves => exact h.leave
  | polls => exact h.goto _
  | fails => exact h.congr [] rfl rfl rfl rfl (by simp)
  | @timesOut t id l c he hdue hc p =>
    have h' : Connections { s with timeouts := s.timeouts.eraseBegin } :=
      h.congr [] rfl rfl rfl rfl (by simp)
    exact (h'.iopTimedout hc).goto p

theorem retryNext (h : Connections s) {f : Frame} {fs : List Frame}
    (hf : s.frames = f :: fs) {g : ℕ} {rest : List RetrierId}
    (hp : f.point = .continuations g rest) {r : Sys} (hok : ConnectStep s (.retry r)) :
    Connections (retryNext s g rest r) := by
  have hretried := retriedNext s g rest r
  generalize PollWarden.retryNext s g rest r = s₁ at hretried ⊢
  cases hretried with
  | returns => exact h.doPollReturns
  | fails => exact h.congr [] rfl rfl rfl rfl (by simp)
  | @retries id rest c hg hc p =>
    have hok : s.retriesConnect = true → r.ret = 0 := hok
    have h' : Connections (s.observe (.retried id)) :=
      h.congr [.retried id] rfl rfl rfl rfl (by simp [Obs.subject])
    refine (h'.tryOrResume hc (fun hop => hok ?_)).goto p
    unfold State.retriesConnect
    simp [hf, hp, hc, hop]

theorem resumeAllNext (h : Connections s) (f : Frame) (rest : List Handle) :
    Connections (resumeAllNext s f rest) := by
  have hcleared : Connections { s with resumer := s.resumer.clearResuming } :=
    h.congr [] rfl rfl rfl rfl (by simp)
  have hresumed := resumedAllNext s f rest
  generalize PollWarden.resumeAllNext s f rest = s₁ at hresumed ⊢
  cases hresumed with
  | again => exact hcleared.goto _
  | leaves => exact hcleared.leave
  | resumes a rest =>
    have h' : Connections (s.observe (.handle a)) :=
      h.congr [.handle a] rfl rfl rfl rfl (by simp [Obs.subject])
    exact h'.goto _

theorem doAsyncResume (h : Connections s) (handles : List (Option Handle)) (written : Bool) :
    Connections (doAsyncResume s handles written) := by
  unfold PollWarden.doAsyncResume wakeEventLoop
  dsimp only
  split_ifs <;>
    exact h.congr (handles.reduceOption.map Obs.queued).reverse rfl rfl rfl rfl
      (by simp [Obs.subject])

/-- **Every step keeps what has been observed of the connects.** -/
theorem step {s s' : State} {e : Event} (h : Connections s) (hok : ConnectStep s e)
    (hs : step s e = some s') : Connections s' := by
  cases (stepped_of_step hs).2 with
  | create hu call => exact h.createIop call
  | await hu hc a r => exact h.awaitSuspend hc hok.1 hok.2
  | destroy hu hc => exact h.iopDestructed hc
  | asyncResume hu handles written => exact h.doAsyncResume handles written
  | runUntil hu coro => exact h.congr [] rfl rfl rfl rfl (by simp)
  | runBatch hu => exact h.congr [] rfl rfl rfl rfl (by simp)
  | suspend hf hp => exact h.goto _
  | clock hf hp now done => exact h.clearTimeouts _ now done
  | poll hf hp a => exact h.doPoll a
  | retry hf hp r => exact h.retryNext hf hp hok
  | resumeNext hf hp => exact h.resumeAllNext _ _

end Connections

theorem connections_init (w : SocketDescriptor) : Connections (init w) where
  fresh := fun _ _ => ⟨rfl, rfl, rfl⟩
  connecting := fun i => ⟨Past.nil, fun _ => rfl, by simp [init], by simp [init]⟩

/-- **In every run, a connect reports what it should exactly when its
readings were harmless.** -/
theorem connect_concludes_of_run {w : SocketDescriptor} {es : List Event} {s : State}
    (h : Run step ConnectStep (init w) es s) (i : RetrierId) : Past Concludes (s.log i) :=
  ((h.invariant (fun _ _ _ hs hok he => hs.step hok he) (connections_init w)).connecting
    i).concludes

/-- A connect that is in progress, and whose descriptor becomes writable. -/
def connectInProgress : List Event :=
  [.create (.connect 5 none), .runUntil 1, .await 0 2 ⟨-1, EINPROGRESS, 0⟩, .suspend,
    .clock 0 false, .poll { ret := 1, revents := fun fd => { pollout := fd = 5 } }]

/-- The first reading is zero, and the connection is established. -/
theorem connect_concludes_of_run_established :
    ∃ s, Run step ConnectStep (init 3)
        (connectInProgress ++ [.retry ⟨0, EINPROGRESS, 0⟩]) s ∧
      Obs.resumed 0 {} ∈ s.log 0 ∧ Past Concludes (s.log 0) := by
  obtain ⟨s, hrun, htest⟩ := exists_run_of_exec step ConnectStep
    (init 3) (connectInProgress ++ [.retry ⟨0, EINPROGRESS, 0⟩])
    (fun s => Obs.resumed 0 {} ∈ s.log 0) (by decide)
  exact ⟨s, hrun, of_decide_eq_true htest, connect_concludes_of_run hrun 0⟩

/-- The connection is refused. The first reading says so, but `errno` is
still that of the `::connect`; the second reading is zero, since the first
one has cleared `SO_ERROR`, and the connect succeeds. -/
theorem connect_refused_succeeds :
    ¬ ∀ w es s, Run step ConnectStep (init w) es s →
      ∀ i, Past (FirstResumed Reports) (s.log i) := by
  intro h
  obtain ⟨s, hrun, htest⟩ := exists_run_of_exec step ConnectStep
    (init 3) (connectInProgress ++ [.retry ⟨0, EINPROGRESS, ECONNREFUSED⟩,
      .retry ⟨0, 0, 0⟩, .resumeNext, .clock 0 false,
      .poll { ret := 1, revents := fun fd => { pollout := fd = 5 } },
      .retry ⟨0, EINPROGRESS, 0⟩])
    (fun s => s.log 0 = [.resumed 0 {}, .call 0 (.connect 5) ⟨0, EINPROGRESS, 0⟩,
      .call 0 (.connect 5) ⟨0, EINPROGRESS, ECONNREFUSED⟩,
      .connect 0 ⟨-1, EINPROGRESS, 0⟩]) (by decide)
  have hlog := h 3 _ s hrun 0
  rw [of_decide_eq_true htest] at hlog
  have hrep := hlog.1 rfl ⟨-1, EINPROGRESS, 0⟩ (by simp)
  rcases hrep with hz | ⟨r, hr, hz⟩
  · exact absurd hz (by decide)
  · obtain rfl := Option.some.inj hr
    exact absurd hz (by decide)

end PollWarden
