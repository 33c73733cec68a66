import Felspar.PollView
import Felspar.UringView

/-!
# No lost wake-up

A warden that blocks has to be woken when a handle is queued for deferred
resumption. Both wardens post a wake-up only when the queue goes from empty
to non-empty – a byte in the pipe, a NOP in the ring – and consume it apart
from the queue: the one drains the pipe, and the other takes the CQE, some
time before it swaps the queue out and resumes what was in it. What is queued
in between posts no wake-up if the queue was not empty, and needs none, since
the swap is still to come.

`AsyncResumption.Awake` says this of the queue, in terms of where the loop
is: between the consumption of wake-ups and the swap (`drained`), in the
resumptions that follow the swap (`resumes`), or elsewhere. Each warden then
says which of its points are which.
-/

/-! ## The queue -/

namespace AsyncResumption

/-- **A queue that is not empty has a wake-up pending**, unless the loop is
between consuming wake-ups and swapping the queue out; and nothing is left to
resume of the last swap, unless the loop is in it. -/
structure Awake (r : AsyncResumption) (drained resumes : Bool) (woken : Prop) : Prop where
  pending : drained = false → r.queued ≠ [] → woken
  resuming : resumes = false → r.resuming = []

namespace Awake

variable {r : AsyncResumption} {drained resumes : Bool} {woken woken' : Prop}

/-- A wake-up that is pending may stay so. -/
theorem mono (h : r.Awake drained resumes woken) (hw : woken → woken') :
    r.Awake drained resumes woken' :=
  ⟨fun hd hq => hw (h.pending hd hq), h.resuming⟩

/-- Wake-ups may be consumed before a swap. -/
theorem drain (h : r.Awake drained false woken) (woken' : Prop) :
    r.Awake true false woken' :=
  ⟨fun hd => absurd hd (by simp), h.resuming⟩

/-- **Queueing posts a wake-up** when the queue was empty. -/
theorem queue (h : r.Awake drained resumes woken) (handles : List (Option Handle))
    (hw : woken → woken')
    (hwake : (r.queue handles).2 = true → r.hasRequests = false → woken') :
    (r.queue handles).1.Awake drained resumes woken' where
  pending := fun hd hq => by
    by_cases hold : r.queued = []
    · refine hwake (((queued_queue_ne_nil_iff r handles).mp hq).resolve_left (· hold)) ?_
      simp [hasRequests, hold]
    · exact hw (h.pending hd hold)
  resuming := fun hr => by
    rw [queue_resuming]
    exact h.resuming hr

/-- **The swap empties the queue.** -/
theorem swap (h : r.Awake drained false woken) (woken' : Prop) :
    r.swap.Awake false true woken' :=
  ⟨fun _ hq => absurd (h.resuming rfl) hq, fun hr => absurd hr (by simp)⟩

/-- What the swap took out has been resumed. -/
theorem clearResuming (h : r.Awake false resumes woken) :
    r.clearResuming.Awake false false woken :=
  ⟨h.pending, fun _ => rfl⟩

end Awake

end AsyncResumption

/-! ## The poll warden -/

namespace PollWarden

/-- **The steps of such a run**: the loop is not entered from within, and
the wake-up byte is taken by the pipe unless there is one in it already. -/
def Wakeable (s : State) : Event → Prop
  | .asyncResume _ written => written = true ∨ 0 < s.wakeup
  | .runUntil _ | .runBatch => s.frames = []
  | _ => True

instance : DecidableRel Wakeable := fun s e =>
  match e with
  | .asyncResume _ written => inferInstanceAs (Decidable (written = true ∨ 0 < s.wakeup))
  | .runUntil _ | .runBatch => inferInstanceAs (Decidable (s.frames = []))
  | .create _ | .await _ _ _ | .destroy _ | .suspend | .clock _ _ | .poll _ | .retry _
  | .resumeNext => inferInstanceAs (Decidable True)

/-- The point is between draining the pipe and the swap. -/
def Point.drained : Point → Bool
  | .continuations _ _ | .retried _ _ => true
  | _ => false

/-- The point is in the resumptions that follow the swap. -/
def Point.resumes : Point → Bool
  | .resumeAll _ | .resumed _ => true
  | _ => false

/-- **A wake-up is pending where one has to be**, and there is one loop at
most. -/
structure Awake (s : State) : Prop where
  frames : s.frames = [] ∨ ∃ f, s.frames = [f]
  outside : s.frames = [] → s.resumer.Awake false false (0 < s.wakeup)
  inside : ∀ f, s.frames = [f] →
    s.resumer.Awake f.point.drained f.point.resumes (0 < s.wakeup)

namespace Awake

variable {s s' : State} {f : Frame} {fs : List Frame}

/-- The loop that is active is the only one. -/
theorem frames_eq (h : Awake s) (hf : s.frames = f :: fs) : s.frames = [f] := by
  rcases h.frames with he | ⟨f', he⟩ <;> rw [hf] at he <;> cases he
  exact hf

/-- The queue, where the loop is at a given point. -/
theorem at_point (h : Awake s) (hf : s.frames = f :: fs) :
    s.resumer.Awake f.point.drained f.point.resumes (0 < s.wakeup) :=
  h.inside f (h.frames_eq hf)

/-- The queue stays as it is, and so does the loop. -/
theorem congr (h : Awake s) (hframes : s'.frames = s.frames)
    (hresumer : s'.resumer = s.resumer) (hwakeup : s'.wakeup = s.wakeup) : Awake s' := by
  refine ⟨?_, fun hf => ?_, fun f hf => ?_⟩
  · rw [hframes]
    exact h.frames
  · rw [hresumer, hwakeup]
    exact h.outside (hframes ▸ hf)
  · rw [hresumer, hwakeup]
    exact h.inside f (hframes ▸ hf)

/-- A member of a completion leaves the queue and the loop. -/
theorem of_shell (h : Awake s) (hshell : s'.shell = s.shell) : Awake s' :=
  h.congr (congrArg Shell.frames hshell) (congrArg Shell.resumer hshell)
    (congrArg Shell.wakeup hshell)

/-- The one loop goes on to a point where a wake-up is pending, if one has to
be. -/
theorem goto (hf : s.frames = [f]) {p : Point}
    (hp : s.resumer.Awake p.drained p.resumes (0 < s.wakeup)) : Awake (s.goto p) := by
  have hframes : (s.goto p).frames = [{ f with point := p }] := by rw [goto_eq, hf]; rfl
  refine ⟨Or.inr ⟨_, hframes⟩, fun hn => ?_, fun f' hf' => ?_⟩
  · rw [hframes] at hn
    exact absurd hn (by simp)
  · rw [hframes] at hf'
    cases hf'
    rw [goto_eq]
    exact hp

/-- The one loop is left, with a wake-up pending if there has to be one. -/
theorem leave (hf : s.frames = [f]) (hp : s.resumer.Awake false false (0 < s.wakeup)) :
    Awake s.leave := by
  have hframes : s.leave.frames = [] := by rw [State.leave, hf]; rfl
  exact ⟨Or.inl hframes, fun _ => hp, fun f' hf' => by
    rw [hframes] at hf'; exact absurd hf' (by simp)⟩

/-- A loop is entered, where there was none. -/
theorem enter (h : Awake s) (hf : s.frames = []) (hd : f.point.drained = false)
    (hr : f.point.resumes = false) : Awake { s with frames := [f] } := by
  refine ⟨Or.inr ⟨f, rfl⟩, fun hn => absurd hn (by simp), fun f' hf' => ?_⟩
  cases hf'
  rw [hd, hr]
  exact h.outside hf

theorem doPollReturns (hf : s.frames = [f]) {d : Bool} {woken : Prop}
    (hp : s.resumer.Awake d false woken) : Awake (doPollReturns s) :=
  Awake.goto (s := { s with resumer := s.resumer.swap }) hf (hp.swap _)

/-- The pipe is drained on the way to the swap. -/
theorem collect_loop (s : State) (revents : SocketDescriptor → Revents) :
    (collect s revents).frames = s.frames ∧ (collect s revents).resumer = s.resumer :=
  collect_rule (P := fun t => t.frames = s.frames ∧ t.resumer = s.resumer) revents
    ⟨rfl, rfl⟩ (fun _ ht => ht) (fun _ _ _ ht => ht)

/-- **Queueing a handle writes to the pipe** when the queue was empty, unless
there is a byte in it already. -/
theorem doAsyncResume_loop {d re : Bool} (h : s.resumer.Awake d re (0 < s.wakeup))
    (handles : List (Option Handle)) {written : Bool} (hok : written = true ∨ 0 < s.wakeup) :
    (doAsyncResume s handles written).resumer.Awake d re
      (0 < (doAsyncResume s handles written).wakeup) := by
  have hresumer : (doAsyncResume s handles written).resumer = (s.resumer.queue handles).1 := by
    obtain ⟨n, he⟩ := doAsyncResume_eq s handles written
    rw [he]
  rw [hresumer]
  refine h.queue handles (fun hw => ?_) (fun hany hempty => ?_)
  · unfold doAsyncResume wakeEventLoop
    dsimp only
    split_ifs
    · exact Nat.succ_pos _
    · exact hw
    · exact hw
  · unfold doAsyncResume wakeEventLoop
    dsimp only
    rw [hany, hempty]
    rcases hok with hw | hw
    · rw [hw]
      exact Nat.succ_pos _
    · split
      · split
        · exact Nat.succ_pos _
        · exact hw
      · exact hw

/-- **Every step keeps a wake-up pending where one has to be.** -/
theorem step {e : Event} (h : Awake s) (hok : Wakeable s e) (hs : step s e = some s') :
    Awake s' := by
  cases (stepped_of_step hs).2 with
  | create hu call => exact h.congr rfl rfl rfl
  | await hu hc a r => exact h.of_shell (shell_awaitSuspend s _ _ r a)
  | destroy hu hc => exact h.of_shell (shell_iopDestructed s _ _)
  | asyncResume hu handles written =>
    have hframes : (doAsyncResume s handles written).frames = s.frames := by
      obtain ⟨n, he⟩ := doAsyncResume_eq s handles written
      rw [he]
    exact ⟨hframes ▸ h.frames,
      fun hf => doAsyncResume_loop (h.outside (hframes ▸ hf)) handles hok,
      fun f hf => doAsyncResume_loop (h.inside f (hframes ▸ hf)) handles hok⟩
  | runUntil hu coro =>
    rw [show s.frames = [] from hok]
    exact h.enter hok rfl rfl
  | runBatch hu =>
    rw [show s.frames = [] from hok]
    exact h.enter hok rfl rfl
  | @suspend f fs hf p hp =>
    have hat := h.at_point hf
    refine Awake.goto (h.frames_eq hf) ?_
    cases hfp : f.point <;> rw [hfp] at hp hat <;> cases hp <;> exact hat
  | @clock f fs hf hp now done =>
    have hat := h.at_point hf
    rw [hp] at hat
    have hcleared := clearedTimeouts s f now done
    generalize clearTimeouts s f now done = s₁ at hcleared ⊢
    cases hcleared with
    | leaves => exact Awake.leave (h.frames_eq hf) hat
    | polls => exact Awake.goto (h.frames_eq hf) hat
    | fails => exact h.congr rfl rfl rfl
    | @timesOut t id l c he hdue hc p hp' =>
      have hshell := shell_iopTimedout { s with timeouts := s.timeouts.eraseBegin } id c
      have herased : Awake { s with timeouts := s.timeouts.eraseBegin } :=
        h.congr rfl rfl rfl
      have h' : Awake (iopTimedout { s with timeouts := s.timeouts.eraseBegin } id c).1 :=
        herased.of_shell hshell
      have hf' := (congrArg Shell.frames hshell).trans hf
      have hat' := h'.at_point hf'
      refine Awake.goto (h'.frames_eq hf') ?_
      rw [hp] at hat'
      rcases hp' with rfl | rfl <;> exact hat'
  | @poll f fs hf t hp a =>
    have hat := h.at_point hf
    rw [hp] at hat
    have hpolled := polled s a
    generalize doPoll s a = s₁ at hpolled ⊢
    cases hpolled with
    | returns => exact Awake.doPollReturns (h.frames_eq hf) hat
    | throws => exact Awake.leave (h.frames_eq hf) hat
    | collects =>
      obtain ⟨hframes, hresumer⟩ := collect_loop s a.revents
      refine Awake.goto (f := f) (hframes.trans (h.frames_eq hf)) ?_
      rw [hresumer]
      exact hat.drain _
  | @retry f fs hf g rest hp r =>
    have hat := h.at_point hf
    rw [hp] at hat
    have hretried := retriedNext s g rest r
    generalize retryNext s g rest r = s₁ at hretried ⊢
    cases hretried with
    | returns => exact Awake.doPollReturns (h.frames_eq hf) hat
    | fails => exact h.congr rfl rfl rfl
    | @retries id rest c hg hc p hp' =>
      have hshell := shell_tryOrResume (s.observe (.retried id)) id c r
      have h' : Awake (tryOrResume (s.observe (.retried id)) id c r).1 :=
        h.of_shell hshell
      have hf' := (congrArg Shell.frames hshell).trans hf
      have hat' := h'.at_point hf'
      refine Awake.goto (h'.frames_eq hf') ?_
      rw [hp] at hat'
      rcases hp' with rfl | rfl <;> exact hat'
  | @resumeNext f fs hf rest hp =>
    have hat := h.at_point hf
    rw [hp] at hat
    have hresumed := resumedAllNext s f rest
    generalize resumeAllNext s f rest = s₁ at hresumed ⊢
    cases hresumed with
    | again =>
      exact Awake.goto (s := { s with resumer := s.resumer.clearResuming })
        (h.frames_eq hf) hat.clearResuming
    | leaves =>
      exact Awake.leave (s := { s with resumer := s.resumer.clearResuming })
        (h.frames_eq hf) hat.clearResuming
    | resumes a rest =>
      exact Awake.goto (s := s.observe (.handle a)) (h.frames_eq hf) hat

end Awake

theorem awake_of_run {w : SocketDescriptor} {es : List Event} {s : State}
    (h : Run step Wakeable (init w) es s) : Awake s :=
  h.invariant (fun _ _ _ hs hok he => hs.step hok he)
    ⟨Or.inl rfl, fun _ => ⟨fun _ hq => absurd rfl hq, fun _ => rfl⟩,
      fun f hf => absurd hf (by simp [init])⟩

end PollWarden

/-! ## The uring warden -/

namespace UringWarden

/-- **The steps of such a run**: the loop is not entered from within, and
waking finds an SQE and has the queue submitted. -/
def Wakeable (s : State) : Event → Prop
  | .asyncResume _ sqeLeft taken => sqeLeft = true ∧ s.queue.length < taken
  | .runUntil _ | .runBatch _ => s.frames = []
  | _ => True

instance : DecidableRel Wakeable := fun s e =>
  match e with
  | .asyncResume _ sqeLeft taken =>
    inferInstanceAs (Decidable (sqeLeft = true ∧ s.queue.length < taken))
  | .runUntil _ | .runBatch _ => inferInstanceAs (Decidable (s.frames = []))
  | .create _ | .await _ _ _ _ | .destroy _ | .suspend | .condition _ _ | .waitCqe _ _
  | .peekCqe _ | .resumeNext | .close => inferInstanceAs (Decidable True)

/-- The point is between taking CQEs and the swap. -/
def Point.drained : Point → Bool
  | .peekCqe | .delivering _ => true
  | _ => false

/-- The point is in the resumptions that follow the swap. -/
def Point.resumes : Point → Bool
  | .resumeAll _ | .resumed _ => true
  | _ => false

/-- **A wake-up is pending**: a NOP has been submitted, and its CQE has not
been taken. -/
def State.WakeUpPending (s : State) : Prop :=
  ∃ sqe ∈ s.inflight, sqe.prep = .nop ∧ sqe.userData = none

/-- **A wake-up is pending where one has to be**, and there is one loop at
most. -/
structure Awake (s : State) : Prop where
  frames : s.frames = [] ∨ ∃ f, s.frames = [f]
  outside : s.frames = [] → s.resumer.Awake false false s.WakeUpPending
  inside : ∀ f, s.frames = [f] →
    s.resumer.Awake f.point.drained f.point.resumes s.WakeUpPending

namespace Awake

variable {s s' : State} {f : Frame} {fs : List Frame}

/-- The loop that is active is the only one. -/
theorem frames_eq (h : Awake s) (hf : s.frames = f :: fs) : s.frames = [f] := by
  rcases h.frames with he | ⟨f', he⟩ <;> rw [hf] at he <;> cases he
  exact hf

/-- The queue, where the loop is at a given point. -/
theorem at_point (h : Awake s) (hf : s.frames = f :: fs) :
    s.resumer.Awake f.point.drained f.point.resumes s.WakeUpPending :=
  h.inside f (h.frames_eq hf)

/-- An operation on a completion leaves the queue, the loop and what has been
submitted. -/
theorem of_loop (h : Awake s) (hloop : s'.loop = s.loop) : Awake s' := by
  obtain ⟨hframes, hrest⟩ := Prod.mk.inj hloop
  obtain ⟨hresumer, hinflight⟩ := Prod.mk.inj hrest
  have hw : s'.WakeUpPending = s.WakeUpPending := by
    unfold State.WakeUpPending
    rw [hinflight]
  refine ⟨?_, fun hf => ?_, fun f hf => ?_⟩
  · rw [hframes]
    exact h.frames
  · rw [hresumer, hw]
    exact h.outside (hframes ▸ hf)
  · rw [hresumer, hw]
    exact h.inside f (hframes ▸ hf)

/-- The one loop goes on to a point where a wake-up is pending, if one has to
be. -/
theorem goto (hf : s.frames = [f]) {p : Point}
    (hp : s.resumer.Awake p.drained p.resumes s.WakeUpPending) : Awake (s.goto p) := by
  have hframes : (s.goto p).frames = [{ f with point := p }] := by rw [goto_eq, hf]; rfl
  refine ⟨Or.inr ⟨_, hframes⟩, fun hn => ?_, fun f' hf' => ?_⟩
  · rw [hframes] at hn
    exact absurd hn (by simp)
  · rw [hframes] at hf'
    cases hf'
    rw [goto_eq]
    exact hp

/-- The one loop is left, with a wake-up pending if there has to be one. -/
theorem leave (hf : s.frames = [f]) (hp : s.resumer.Awake false false s.WakeUpPending) :
    Awake s.leave := by
  have hframes : s.leave.frames = [] := by rw [State.leave, hf]; rfl
  exact ⟨Or.inl hframes, fun _ => hp, fun f' hf' => by
    rw [hframes] at hf'; exact absurd hf' (by simp)⟩

/-- Submitting takes no CQE. -/
theorem wakeUpPending_submit (taken : ℕ) (h : s.WakeUpPending) :
    (s.submit taken).WakeUpPending := by
  obtain ⟨sqe, hm, hsqe⟩ := h
  exact ⟨sqe, List.mem_append_left _ hm, hsqe⟩

/-- **Waking submits a NOP.** -/
theorem wakeUpPending_wakeEventLoop {taken : ℕ} (ht : s.queue.length < taken) :
    (wakeEventLoop s true taken).WakeUpPending := by
  refine ⟨{ prep := .nop, userData := none }, List.mem_append_right _ ?_, rfl, rfl⟩
  show _ ∈ (s.queue ++ [_]).take taken
  rw [List.take_of_length_le (by rw [List.length_append]; exact ht)]
  exact List.mem_append_right _ List.mem_cons_self

/-- A CQE is taken on the way to the swap. -/
theorem execute (hf : s.frames = [f]) {d : Bool} {woken : Prop}
    (hp : s.resumer.Awake d false woken) (sqe : Sqe) (result : Int) :
    Awake (execute s sqe result) := by
  have hnext : ∀ t : State, t.frames = s.frames → t.resumer = s.resumer →
      ∀ p : Point, p.drained = true → p.resumes = false → Awake (t.goto p) :=
    fun t hframes hresumer p hd hr => by
      refine Awake.goto (hframes.trans hf) ?_
      rw [hd, hr, hresumer]
      exact hp.drain _
  have hexec := executed s sqe result
  generalize UringWarden.execute s sqe result = t at hexec ⊢
  cases hexec with
  | nop hu => exact hnext s rfl rfl .peekCqe rfl rfl
  | @gone id hu hc =>
    exact (hnext (s.observe (.executed id sqe.role result)) rfl rfl .peekCqe rfl rfl).of_loop rfl
  | @ignored id c hu hc hd =>
    have hpeek := hnext (s.observe (.executed id sqe.role result)) rfl rfl .peekCqe rfl rfl
    exact hpeek.of_loop (loop_executeEnd _ _)
  | @delivered id c outcome hu hc hex hd =>
    exact hnext (((s.observe (.executed id sqe.role result)).setCompletion id
      { c with result := outcome }).observe (.resumed id outcome)) rfl rfl
        (.delivering id) rfl rfl

/-- **Every step keeps a wake-up pending where one has to be.** -/
theorem step {e : Event} (h : Awake s) (hok : Wakeable s e) (hs : step s e = some s') :
    Awake s' := by
  cases (stepped_of_step hs).2.2 with
  | create call => exact h.of_loop rfl
  | await hi hc a now sqes => exact h.of_loop (loop_awaitSuspend s _ _ a now sqes)
  | awaitGone hi hc a now sqes => exact h.of_loop rfl
  | destroy hi => exact h.of_loop (loop_iopDestructed s _)
  | asyncResume handles sqeLeft taken =>
    obtain ⟨hleft, htaken⟩ := hok
    have hq : ∀ {d re : Bool}, s.resumer.Awake d re s.WakeUpPending →
        (doAsyncResume s handles sqeLeft taken).resumer.Awake d re
          (doAsyncResume s handles sqeLeft taken).WakeUpPending := fun hr => by
      have hwake : ∀ r, (wakeEventLoop { s with resumer := r } true taken).WakeUpPending :=
        fun r => wakeUpPending_wakeEventLoop (s := { s with resumer := r }) htaken
      obtain ⟨queue, inflight, he⟩ := doAsyncResume_eq s handles sqeLeft taken
      rw [show (doAsyncResume s handles sqeLeft taken).resumer = (s.resumer.queue handles).1 by
        rw [he]]
      refine hr.queue handles (fun hw => ?_) (fun hany hempty => ?_)
      · unfold doAsyncResume
        dsimp only
        split
        · rw [hleft]
          exact hwake _
        · exact hw
      · unfold doAsyncResume
        dsimp only
        rw [hany, hempty, hleft]
        exact hwake _
    have hframes : (doAsyncResume s handles sqeLeft taken).frames = s.frames := by
      obtain ⟨queue, inflight, he⟩ := doAsyncResume_eq s handles sqeLeft taken
      rw [he]
    exact ⟨hframes ▸ h.frames, fun hf => hq (h.outside (hframes ▸ hf)),
      fun f hf => hq (h.inside f (hframes ▸ hf))⟩
  | runUntil coro =>
    rw [show s.frames = [] from hok]
    refine ⟨Or.inr ⟨_, rfl⟩, fun hn => absurd hn (by simp), fun f hf => ?_⟩
    cases hf
    exact h.outside hok
  | runBatch taken =>
    rw [show s.frames = [] from hok]
    refine ⟨Or.inr ⟨_, rfl⟩, fun hn => absurd hn (by simp), fun f hf => ?_⟩
    cases hf
    exact (h.outside hok).drain _
  | @suspend f fs hf p hp =>
    have hat := h.at_point hf
    refine Awake.goto (h.frames_eq hf) ?_
    cases hfp : f.point <;> rw [hfp] at hp hat <;> cases hp <;> exact hat
  | delivered hf hp =>
    have hat := h.at_point hf
    rw [hp] at hat
    exact (Awake.goto (p := .peekCqe) (h.frames_eq hf) hat).of_loop (loop_executeEnd _ _)
  | close hf =>
    have hloop := Prod.mk.inj (loop_deleteOutstanding s s.outstanding)
    exact h.of_loop (Prod.ext hloop.1 hloop.2)
  | done hf hp taken =>
    have hat := h.at_point hf
    rw [hp] at hat
    exact Awake.leave (h.frames_eq hf) hat
  | submit hf hp taken =>
    have hat := h.at_point hf
    rw [hp] at hat
    exact Awake.goto (s := s.submit taken) (h.frames_eq hf)
      (hat.mono (wakeUpPending_submit taken))
  | interrupted hf hp cqe =>
    have hat := h.at_point hf
    rw [hp] at hat
    exact Awake.goto (h.frames_eq hf) hat
  | waitFails hf hp hret hne cqe =>
    have hat := h.at_point hf
    rw [hp] at hat
    exact Awake.leave (h.frames_eq hf) hat
  | @take f fs hf hp e cqe sqe he hq =>
    have hat := h.at_point hf
    have hr : f.point.resumes = false := by rcases hp with hp | hp <;> rw [hp] <;> rfl
    rw [hr] at hat
    exact Awake.execute (s := s.cqeSeen cqe.index) (h.frames_eq hf) hat sqe cqe.res
  | peekNone hf hp =>
    have hat := h.at_point hf
    rw [hp] at hat
    exact Awake.goto (s := { s with resumer := s.resumer.swap }) (h.frames_eq hf)
      (hat.swap _)
  | @resumeNext f fs hf rest hp =>
    have hat := h.at_point hf
    rw [hp] at hat
    have hresumed := resumedAllNext s f rest
    generalize resumeAllNext s f rest = s₁ at hresumed ⊢
    cases hresumed with
    | again =>
      exact Awake.goto (s := { s with resumer := s.resumer.clearResuming })
        (h.frames_eq hf) hat.clearResuming
    | leaves =>
      exact Awake.leave (s := { s with resumer := s.resumer.clearResuming })
        (h.frames_eq hf) hat.clearResuming
    | resumes a rest => exact Awake.goto (h.frames_eq hf) hat

end Awake

theorem awake_of_run {es : List Event} {s : State} (h : Run step Wakeable init es s) :
    Awake s :=
  h.invariant (fun _ _ _ hs hok he => hs.step hok he)
    ⟨Or.inl rfl, fun _ => ⟨fun _ hq => absurd rfl hq, fun _ => rfl⟩,
      fun f hf => absurd hf (by simp [init])⟩

end UringWarden

/-! ## Both wardens -/

/-- **No wake-up is lost.** Whenever a warden is about to block with a handle
queued for resumption, a wake-up is pending: there is a byte in the pipe of
the poll warden, or a NOP of the uring warden has been submitted and its CQE
not been taken. -/
theorem wakeUp_pending_of_run :
    (∀ w es s, Run PollWarden.step PollWarden.Wakeable (PollWarden.init w) es s →
      ∀ f fs t, s.frames = f :: fs → f.point = .doPoll t → s.resumer.queued ≠ [] →
        0 < s.wakeup) ∧
    (∀ es s, Run UringWarden.step UringWarden.Wakeable UringWarden.init es s →
      ∀ f fs, s.frames = f :: fs → f.point = .waitCqe → s.resumer.queued ≠ [] →
        s.WakeUpPending) := by
  refine ⟨fun w es s h f fs t hf hp hq => ?_, fun es s h f fs hf hp hq => ?_⟩
  · have hat := (PollWarden.awake_of_run h).at_point hf
    rw [hp] at hat
    exact hat.pending rfl hq
  · have hat := (UringWarden.awake_of_run h).at_point hf
    rw [hp] at hat
    exact hat.pending rfl hq

/-- A handle is queued before the loop and one while handles are being
resumed; the wait of the uring warden is interrupted in between. -/
theorem wakeUp_pending_of_run_twice :
    (∃ s, Run PollWarden.step PollWarden.Wakeable (PollWarden.init 3)
      [.asyncResume [some 7] true, .runUntil 1, .suspend, .clock 0 false,
        .poll { ret := 1, revents := fun fd => { pollin := fd = 3 } }, .retry ⟨0, 0, 0⟩,
        .resumeNext, .asyncResume [some 8, none] true, .suspend, .resumeNext,
        .clock 0 false] s
      ∧ s.resumer.queued = [8] ∧ 0 < s.wakeup) ∧
    (∃ s, Run UringWarden.step UringWarden.Wakeable UringWarden.init
      [.asyncResume [some 7] true 1, .runUntil 1, .suspend, .condition false 0,
        .waitCqe (-EINTR) ⟨0, 0⟩, .condition false 0] s
      ∧ s.resumer.queued = [7] ∧ s.WakeUpPending) := by
  constructor
  · obtain ⟨s, hrun, htest⟩ := exists_run_of_exec PollWarden.step
      PollWarden.Wakeable (PollWarden.init 3)
      [.asyncResume [some 7] true, .runUntil 1, .suspend, .clock 0 false,
        .poll { ret := 1, revents := fun fd => { pollin := fd = 3 } }, .retry ⟨0, 0, 0⟩,
        .resumeNext, .asyncResume [some 8, none] true, .suspend, .resumeNext,
        .clock 0 false]
      (fun s => s.frames = [⟨some 1, .doPoll (-1)⟩] ∧ s.resumer.queued = [8])
      (by decide)
    obtain ⟨hf, hq⟩ := of_decide_eq_true htest
    exact ⟨s, hrun, hq,
      wakeUp_pending_of_run.1 3 _ s hrun _ _ (-1) hf rfl (by rw [hq]; simp)⟩
  · obtain ⟨s, hrun, htest⟩ := exists_run_of_exec UringWarden.step
      UringWarden.Wakeable UringWarden.init
      [.asyncResume [some 7] true 1, .runUntil 1, .suspend, .condition false 0,
        .waitCqe (-EINTR) ⟨0, 0⟩, .condition false 0]
      (fun s => s.frames = [⟨some 1, .waitCqe⟩] ∧ s.resumer.queued = [7])
      (by decide)
    obtain ⟨hf, hq⟩ := of_decide_eq_true htest
    exact ⟨s, hrun, hq, wakeUp_pending_of_run.2 _ s hrun _ _ hf rfl (by rw [hq]; simp)⟩
