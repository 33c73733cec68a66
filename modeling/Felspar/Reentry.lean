import Felspar.AsyncResumptions
import Felspar.PollConnectTimers
import Felspar.PollLifetime
import Felspar.PollRegistration

/-!
# Loops within loops

A coroutine that a loop resumes may enter the loop of its warden anew, and
what it resumes may do so again. The loops then share the vectors of deferred
resumption, and on the poll warden the vector of what a pass has collected.
`clear_timeouts` and `execute` have done with their containers before they
resume; the loops of `resume_all` and `do_poll` have not, but iterate over
them.

The vectors and all the loops that are active, one within another, are a
machine (`Nest`) that both wardens contain, whatever they do. The law of it is
that what has been queued has been resumed, is left to a loop, or waits
(`Nest.Balanced`). A `resume_all` that begins while another one goes on breaks
the law, for its swap queues again what the other one resumes; every other
move keeps it.
-/

namespace AsyncResumption

/-! ## The machine -/

/-- **Where a loop is**, as far as `resume_all` is concerned. -/
inductive Phase
  /-- Not in a `resume_all`. -/
  | outside
  /-- At the head of its loop, with the handles left. -/
  | head (rest : List Handle)
  /-- In the `h.resume()` of that loop. -/
  | within (rest : List Handle)
  deriving DecidableEq

/-- The handles a loop has still to resume. -/
def Phase.left : Phase → List Handle
  | .outside => []
  | .head rest | .within rest => rest

/-- The loop is in a `resume_all`. -/
def Phase.resumes : Phase → Bool
  | .outside => false
  | .head _ | .within _ => true

/-- **The vectors, and the loops that are active**, innermost first. -/
structure Nest where
  phases : List Phase
  vectors : AsyncResumption

namespace Nest

/-- The handle that the innermost loop resumes next. -/
def next (n : Nest) : Option Handle := n.phases.head?.bind (fun p => match p with
  | .head rest => rest.head?
  | _ => none)

/-- **A move of the machine.** A loop is entered from outside all others, or
from a coroutine that the innermost one has resumed. -/
inductive Moves : Nest → List Deferral → Nest → Prop
  | stays (n : Nest) : Moves n [] n
  | enter (n : Nest) (h : ∀ rest, n.phases.head? ≠ some (.head rest)) :
      Moves n [] { n with phases := .outside :: n.phases }
  | leave (ps : List Phase) (v : AsyncResumption) : Moves ⟨.outside :: ps, v⟩ [] ⟨ps, v⟩
  | queue (n : Nest) (handles : List (Option Handle)) :
      Moves n [.queued handles] { n with vectors := (n.vectors.queue handles).1 }
  | start (ps : List Phase) (v : AsyncResumption) :
      Moves ⟨.outside :: ps, v⟩ [.started] ⟨.head v.queued :: ps, v.swap⟩
  | resume (ps : List Phase) (v : AsyncResumption) (h : Handle) (rest : List Handle) :
      Moves ⟨.head (h :: rest) :: ps, v⟩ [.resumed h] ⟨.within rest :: ps, v⟩
  | suspend (ps : List Phase) (v : AsyncResumption) (rest : List Handle) :
      Moves ⟨.within rest :: ps, v⟩ [] ⟨.head rest :: ps, v⟩
  | finish (ps : List Phase) (v : AsyncResumption) :
      Moves ⟨.head [] :: ps, v⟩ [] ⟨.outside :: ps, v.clearResuming⟩
  | finishLast (ps : List Phase) (v : AsyncResumption) :
      Moves ⟨.head [] :: ps, v⟩ [] ⟨ps, v.clearResuming⟩

/-- **What has been queued has been resumed**, is left to one of the loops, or
waits for the next `resume_all`, each handle as often as it was queued. -/
def Balanced (n : Nest) (l : List Deferral) : Prop :=
  (l.flatMap Deferral.handlesResumed ++ (n.phases.flatMap Phase.left ++ n.vectors.queued)).Perm
    (l.flatMap Deferral.handlesQueued)

instance (n : Nest) (l : List Deferral) : Decidable (n.Balanced l) :=
  inferInstanceAs (Decidable (List.Perm _ _))

/-- A `resume_all` that begins finds no other one going on. -/
def Apart (n : Nest) (os : List Deferral) : Prop :=
  .started ∈ os → ∀ p ∈ n.phases.tail, p.resumes = false

/-- **What holds of the loops while no `resume_all` begins within another**:
one of them goes on at most; what it has still to resume is the end of
`resuming`, which is empty when none goes on; and a loop that another one has
been entered from is in a resumption. -/
structure Sound (n : Nest) : Prop where
  single : n.phases.Pairwise (fun p q => p.resumes = false ∨ q.resumes = false)
  resuming : (∀ p ∈ n.phases, p.resumes = false) → n.vectors.resuming = []
  head : ∀ rest, .head rest ∈ n.phases → rest.length ≤ n.vectors.resuming.length
  within : ∀ rest, .within rest ∈ n.phases → rest.length < n.vectors.resuming.length
  inner : ∀ rest, .head rest ∉ n.phases.tail

section Moves

variable {n n' : Nest} {l os : List Deferral} {ps : List Phase} {v : AsyncResumption}

theorem Moves.of_eq (h : n' = n) : Moves n [] n' := h ▸ .stays n

/-- A loop that is not in a `resume_all` has nothing to say. -/
theorem Sound.of_outside (h : Sound ⟨ps, v⟩) (hinner : ∀ rest, ps.head? ≠ some (.head rest)) :
    Sound ⟨.outside :: ps, v⟩ where
  single := List.pairwise_cons.mpr ⟨fun _ _ => Or.inl rfl, h.single⟩
  resuming := fun hall => h.resuming (fun p hp => hall p (List.mem_cons_of_mem _ hp))
  head := fun rest hm => h.head rest ((List.mem_cons.mp hm).resolve_left (by simp))
  within := fun rest hm => h.within rest ((List.mem_cons.mp hm).resolve_left (by simp))
  inner := fun rest hm => by
    cases ps with
    | nil => exact absurd hm List.not_mem_nil
    | cons p ps =>
      rcases List.mem_cons.mp hm with rfl | hm
      · exact hinner rest rfl
      · exact h.inner rest hm

/-- The innermost loop may be left. -/
theorem Sound.tail {p : Phase} (h : Sound ⟨p :: ps, v⟩) (hp : p.resumes = false) :
    Sound ⟨ps, v⟩ where
  single := (List.pairwise_cons.mp h.single).2
  resuming := fun hall => h.resuming (fun q hq => by
    rcases List.mem_cons.mp hq with rfl | hq
    · exact hp
    · exact hall q hq)
  head := fun rest hm => h.head rest (List.mem_cons_of_mem _ hm)
  within := fun rest hm => h.within rest (List.mem_cons_of_mem _ hm)
  inner := fun rest hm => h.inner rest (List.mem_of_mem_tail hm)

/-- The loop that is in a `resume_all` is the innermost. -/
theorem Sound.outside_of_resumes {p : Phase} (h : Sound ⟨p :: ps, v⟩) (hp : p.resumes = true) :
    ∀ q ∈ ps, q.resumes = false := fun q hq =>
  ((List.pairwise_cons.mp h.single).1 q hq).resolve_left (by rw [hp]; simp)

/-- Where the other loops are outside, the innermost one decides. -/
theorem Sound.of_tail {p : Phase} (hps : ∀ q ∈ ps, q.resumes = false)
    (hresuming : p.resumes = false → v.resuming = [])
    (hhead : ∀ rest, p = .head rest → rest.length ≤ v.resuming.length)
    (hwithin : ∀ rest, p = .within rest → rest.length < v.resuming.length) :
    Sound ⟨p :: ps, v⟩ where
  single := List.pairwise_cons.mpr ⟨fun q hq => Or.inr (hps q hq),
    List.pairwise_of_forall_mem_list (fun q hq _ _ => Or.inl (hps q hq))⟩
  resuming := fun hall => hresuming (hall p List.mem_cons_self)
  head := fun rest hm => by
    rcases List.mem_cons.mp hm with hp | hm
    · exact hhead rest hp.symm
    · exact absurd (hps _ hm) (by simp [Phase.resumes])
  within := fun rest hm => by
    rcases List.mem_cons.mp hm with hp | hm
    · exact hwithin rest hp.symm
    · exact absurd (hps _ hm) (by simp [Phase.resumes])
  inner := fun rest hm => absurd (hps _ hm) (by simp [Phase.resumes])

/-- **A move keeps the loops sound**, unless a `resume_all` begins within
another. -/
theorem Sound.moves (h : Sound n) (hm : Moves n os n') (hok : n.Apart os) : Sound n' := by
  cases hm with
  | stays => exact h
  | enter _ hinner => exact h.of_outside hinner
  | leave ps v => exact h.tail rfl
  | queue _ handles =>
    refine ⟨h.single, ?_, ?_, ?_, h.inner⟩ <;> dsimp only <;> rw [queue_resuming]
    · exact h.resuming
    · exact h.head
    · exact h.within
  | start ps v =>
    have hps : ∀ q ∈ ps, q.resumes = false := hok List.mem_cons_self
    refine .of_tail hps (fun hr => absurd hr (by simp [Phase.resumes])) (fun rest hr => ?_)
      (fun rest hr => by cases hr)
    obtain rfl : v.queued = rest := Phase.head.inj hr
    exact le_refl _
  | resume ps v a rest =>
    refine .of_tail (h.outside_of_resumes rfl) (fun hr => absurd hr (by simp [Phase.resumes]))
      (fun rest' hr => by cases hr) (fun rest' hr => ?_)
    obtain rfl : rest = rest' := Phase.within.inj hr
    exact h.head _ List.mem_cons_self
  | suspend ps v rest =>
    refine .of_tail (h.outside_of_resumes rfl) (fun hr => absurd hr (by simp [Phase.resumes]))
      (fun rest' hr => ?_) (fun rest' hr => by cases hr)
    obtain rfl : rest = rest' := Phase.head.inj hr
    exact le_of_lt (h.within _ List.mem_cons_self)
  | finish ps v =>
    exact .of_tail (h.outside_of_resumes rfl) (fun _ => rfl) (fun _ hr => by cases hr)
      (fun _ hr => by cases hr)
  | finishLast ps v =>
    have houtside : Sound ⟨.outside :: ps, v.clearResuming⟩ :=
      .of_tail (h.outside_of_resumes rfl) (fun _ => rfl) (fun _ hr => by cases hr)
        (fun _ hr => by cases hr)
    exact houtside.tail rfl

/-- **What `resuming` says when a `resume_all` begins**: it is empty exactly
if no other one goes on. -/
theorem Sound.resuming_eq_nil_iff (h : Sound ⟨.outside :: ps, v⟩) :
    v.resuming = [] ↔ ∀ p ∈ ps, p.resumes = false := by
  constructor
  · intro hnil p hp
    cases p with
    | outside => rfl
    | head rest => exact absurd hp (h.inner rest)
    | within rest =>
      have hlt := h.within rest (List.mem_cons_of_mem _ hp)
      dsimp only at hlt
      rw [hnil] at hlt
      exact absurd hlt (Nat.not_lt_zero _)
  · intro hall
    refine h.resuming (fun p hp => ?_)
    rcases List.mem_cons.mp hp with rfl | hp
    · rfl
    · exact hall p hp

/-- **A move keeps the balance exactly if it begins no `resume_all` within
another.** -/
theorem Balanced.moves_iff (h : n.Balanced l) (hn : Sound n) (hm : Moves n os n') :
    n'.Balanced (l ++ os) ↔ n.Apart os := by
  have hother : ∀ {os : List Deferral} {n' : Nest}, .started ∉ os → n'.Balanced (l ++ os) →
      (n'.Balanced (l ++ os) ↔ n.Apart os) := fun hno hb => ⟨fun _ hs => absurd hs hno, fun _ => hb⟩
  cases hm with
  | stays => exact hother List.not_mem_nil (by rwa [List.append_nil])
  | enter => exact hother List.not_mem_nil (by rwa [List.append_nil])
  | leave => exact hother List.not_mem_nil (by rwa [List.append_nil])
  | suspend => exact hother List.not_mem_nil (by rwa [List.append_nil])
  | finish => exact hother List.not_mem_nil (by rwa [List.append_nil])
  | finishLast => exact hother List.not_mem_nil (by rwa [List.append_nil])
  | queue _ handles =>
    refine hother (by simp) ?_
    unfold Balanced at h ⊢
    rw [queue_fst, List.flatMap_append, List.flatMap_append]
    simpa [Deferral.handlesResumed, Deferral.handlesQueued] using
      h.append_right handles.reduceOption
  | resume ps v a rest =>
    refine hother (by simp) ?_
    unfold Balanced at h ⊢
    simpa [Deferral.handlesResumed, Deferral.handlesQueued, Phase.left] using h
  | start ps v =>
    -- what waited is left to the loop, and what is in `resuming` waits again
    have hswap : (l.flatMap Deferral.handlesResumed
          ++ (v.queued ++ ps.flatMap Phase.left ++ v.resuming)).Perm
        (l.flatMap Deferral.handlesQueued ++ v.resuming) := by
      have hcount := List.perm_iff_count.mp h
      refine List.perm_iff_count.mpr (fun a => ?_)
      have ha := hcount a
      simp only [Phase.left, List.flatMap_cons, List.nil_append, List.count_append] at ha ⊢
      omega
    have hbalanced : Balanced ⟨.head v.queued :: ps, v.swap⟩ (l ++ [.started])
        ↔ v.resuming = [] := by
      unfold Balanced
      rw [List.flatMap_append, List.flatMap_append]
      simp only [Deferral.handlesResumed, Deferral.handlesQueued, Phase.left, swap,
        List.flatMap_cons, List.flatMap_nil, List.append_nil]
      constructor
      · intro hb
        have hlength := (hswap.symm.trans hb).length_eq
        rw [List.length_append] at hlength
        exact List.eq_nil_of_length_eq_zero (by omega)
      · intro hnil
        rw [hnil, List.append_nil, List.append_nil] at hswap
        rwa [hnil, List.append_nil]
    rw [hbalanced, hn.resuming_eq_nil_iff]
    exact ⟨fun hall _ => hall, fun hok => hok List.mem_cons_self⟩

/-- Nothing is active, and nothing is queued. -/
theorem sound_nil : Sound ⟨[], {}⟩ where
  single := List.Pairwise.nil
  resuming := fun _ => rfl
  head := fun _ hm => absurd hm List.not_mem_nil
  within := fun _ hm => absurd hm List.not_mem_nil
  inner := fun _ => List.not_mem_nil

end Moves

/-- **A system that contains the machine stays balanced**, in all states of a
run, exactly if no `resume_all` of the run begins while another one goes on. -/
theorem balanced_iff_of_moves {σ ε : Type} {step : σ → ε → Option σ} (nest : σ → Nest)
    (deferrals : σ → ε → List Deferral) {ok : σ → ε → Prop}
    (hok : ∀ s e, (nest s).Apart (deferrals s e) ↔ ok s e)
    (hmoves : ∀ s e s', step s e = some s' → Moves (nest s) (deferrals s e) (nest s'))
    {s s' : σ} {es : List ε} (hs : nest s = ⟨[], {}⟩) (h : Run step always s es s') :
    (∀ es₁ s₁, es₁ <+: es → Run step always s es₁ s₁ →
        (nest s₁).Balanced (observed step deferrals s es₁))
      ↔ Run step ok s es s' := by
  have hiff : ∀ (s : σ) (e : ε) (s' : σ) (l : List Deferral),
      ((nest s).Sound ∧ (nest s).Balanced l) → step s e = some s' →
      ((nest s').Balanced (l ++ deferrals s e) ↔ ok s e) := fun s e s' l hI hs =>
    (hI.2.moves_iff hI.1 (hmoves s e s' hs)).trans (hok s e)
  exact h.forall_prefix_iff deferrals (P := fun s l => (nest s).Balanced l)
    (I := fun s l => (nest s).Sound ∧ (nest s).Balanced l) (l := [])
    (fun s l hI => hI.2) (fun s e s' l hI hs => (hiff s e s' l hI hs).mp)
    (fun s e s' l hI hok' hs => ⟨hI.1.moves (hmoves s e s' hs) ((hok s e).mpr hok'),
      (hiff s e s' l hI hs).mpr hok'⟩)
    (hs ▸ ⟨sound_nil, List.Perm.refl _⟩)

end Nest

end AsyncResumption

open AsyncResumption

/-! ## The poll warden -/

namespace PollWarden

/-- Where a loop is, as far as `resume_all` is concerned. -/
def Point.phase : Point → Phase
  | .resumeAll rest => .head rest
  | .resumed rest => .within rest
  | _ => .outside

/-- The machine that is part of the warden. -/
def State.nest (s : State) : Nest := ⟨s.frames.map (fun f => f.point.phase), s.resumer⟩

/-- `do_poll` returns, and a `resume_all` begins: nothing is reported, the wait
is interrupted, or all that the pass has collected has been retried. -/
def begins (s : State) : Event → Bool
  | .poll a => a.ret = 0 || (a.ret < 0 && a.errno = EINTR)
  | .retry _ => s.pending.isEmpty
  | _ => false

/-- What a step does of deferred resumption. -/
def deferrals (s : State) (e : Event) : List Deferral :=
  match e with
  | .asyncResume handles _ => [.queued handles]
  | .resumeNext => (s.nest.next.map Deferral.resumed).toList
  | _ => if begins s e then [.started] else []

/-- **No `resume_all` begins while another one goes on** further out. -/
def Apart (s : State) (e : Event) : Prop :=
  begins s e = true → ∀ f ∈ s.frames.tail, f.point.resumes = false

instance : DecidableRel Apart := fun _ _ => inferInstanceAs (Decidable (_ → _))

section Nest

variable {s s' : State} {f : Frame} {fs : List Frame} {e : Event}

theorem Point.resumes_phase (p : Point) : p.phase.resumes = p.resumes := by
  cases p <;> rfl

/-- What is observed of a step that neither queues nor resumes. -/
theorem deferrals_eq (hq : ∀ handles written, e ≠ .asyncResume handles written)
    (hr : e ≠ .resumeNext) : deferrals s e = if begins s e then [.started] else [] := by
  cases e with
  | asyncResume handles written => exact absurd rfl (hq handles written)
  | resumeNext => exact absurd rfl hr
  | _ => rfl

theorem apart_iff (s : State) (e : Event) : s.nest.Apart (deferrals s e) ↔ Apart s e := by
  have hbegins : .started ∈ deferrals s e ↔ begins s e = true := by
    cases e with
    | asyncResume handles written => simp [deferrals, begins]
    | resumeNext => simp [deferrals, begins]
    | _ => rw [deferrals_eq (by simp) (by simp)]; simp
  have htail : (∀ p ∈ s.nest.phases.tail, p.resumes = false)
      ↔ ∀ f ∈ s.frames.tail, f.point.resumes = false := by
    simp [State.nest, ← List.map_tail, Point.resumes_phase]
  unfold Nest.Apart Apart
  rw [hbegins, htail]

theorem nest_of_frames (hf : s.frames = f :: fs) :
    s.nest = ⟨f.point.phase :: fs.map (fun f => f.point.phase), s.resumer⟩ := by
  rw [State.nest, hf, List.map_cons]

/-- A member of a completion leaves the machine. -/
theorem nest_of_shell (h : s'.shell = s.shell) : s'.nest = s.nest := by
  unfold State.nest
  rw [show s'.frames = s.frames from congrArg Shell.frames h,
    show s'.resumer = s.resumer from congrArg Shell.resumer h]

theorem nest_goto (hf : s.frames = f :: fs) (p : Point) :
    (s.goto p).nest = ⟨p.phase :: fs.map (fun f => f.point.phase), s.resumer⟩ := by
  rw [goto_eq, State.nest, hf]
  rfl

/-- Going on to a point of the same phase leaves the machine. -/
theorem nest_goto_of_phase (hf : s.frames = f :: fs) {p : Point}
    (hp : p.phase = f.point.phase) : (s.goto p).nest = s.nest := by
  rw [nest_goto hf, nest_of_frames hf, hp]

theorem nest_leave (hf : s.frames = f :: fs) :
    s.leave.nest = ⟨fs.map (fun f => f.point.phase), s.resumer⟩ := by
  rw [State.leave, State.nest, hf]
  rfl

theorem nest_doPollReturns (hf : s.frames = f :: fs) : (doPollReturns s).nest
    = ⟨.head s.resumer.queued :: fs.map (fun f => f.point.phase), s.resumer.swap⟩ :=
  nest_goto (s := { s with resumer := s.resumer.swap }) hf _

/-- A coroutine runs, and not the loop that resumed it. -/
theorem Point.phase_ne_head {p : Point} (h : p.userRuns = true) (rest : List Handle) :
    p.phase ≠ .head rest := by
  cases p with
  | resumeAll left => exact absurd h (by simp [Point.userRuns])
  | _ => exact fun hp => by cases hp

theorem head?_ne_of_userRuns (hu : s.userRuns = true) (rest : List Handle) :
    s.nest.phases.head? ≠ some (.head rest) := by
  unfold State.userRuns at hu
  cases hf : s.frames with
  | nil =>
    rw [State.nest, hf]
    exact fun h => by cases h
  | cons f fs =>
    rw [hf] at hu
    rw [nest_of_frames hf]
    exact fun h => Point.phase_ne_head hu rest (Option.some.inj h)

/-- `clear_timeouts` begins no `resume_all`. -/
theorem moves_clearTimeouts (hf : s.frames = f :: fs) (hp : f.point = .clearTimeouts)
    (now : TimePoint) (done : Bool) :
    Nest.Moves s.nest [] (clearTimeouts s f now done).nest := by
  have hcleared := clearedTimeouts s f now done
  generalize clearTimeouts s f now done = s₁ at hcleared ⊢
  cases hcleared with
  | leaves =>
    rw [nest_of_frames hf, hp, nest_leave hf]
    exact .leave _ s.resumer
  | polls => exact .of_eq (nest_goto_of_phase hf (by rw [hp]; rfl))
  | fails => exact .of_eq rfl
  | @timesOut t id l c he hdue hc p hp' =>
    have hshell := shell_iopTimedout { s with timeouts := s.timeouts.eraseBegin } id c
    have hframes : (iopTimedout { s with timeouts := s.timeouts.eraseBegin } id c).1.frames
        = f :: fs := (congrArg Shell.frames hshell).trans hf
    refine .of_eq ((nest_goto_of_phase hframes ?_).trans (nest_of_shell hshell))
    rw [hp]
    rcases hp' with rfl | rfl <;> rfl

/-- `do_poll` begins one when there is nothing to retry, or collects. -/
theorem moves_doPoll (hf : s.frames = f :: fs) {t : Int} (hp : f.point = .doPoll t)
    (a : PollAnswer) : Nest.Moves s.nest (deferrals s (.poll a)) (doPoll s a).nest := by
  have hat : s.nest = ⟨.outside :: fs.map (fun f => f.point.phase), s.resumer⟩ := by
    rw [nest_of_frames hf, hp]
    rfl
  rw [deferrals_eq (by simp) (by simp)]
  have hbegins : begins s (.poll a) = true ↔ a.ret = 0 ∨ a.ret < 0 ∧ a.errno = EINTR := by
    simp [begins]
  have hpolled := polled s a
  generalize doPoll s a = s₁ at hpolled ⊢
  cases hpolled with
  | returns ha =>
    rw [if_pos (hbegins.mpr ha), hat, nest_doPollReturns hf]
    exact .start _ s.resumer
  | throws ha he =>
    rw [if_neg (by rw [hbegins]; omega), hat, nest_leave hf]
    exact .leave _ s.resumer
  | collects ha =>
    rw [if_neg (by rw [hbegins]; omega)]
    obtain ⟨hframes, hresumer⟩ := Awake.collect_loop s a.revents
    have hcollect : (collect s a.revents).nest = s.nest := by
      unfold State.nest
      rw [hframes, hresumer]
    refine .of_eq ((nest_goto_of_phase (hframes.trans hf) ?_).trans hcollect)
    rw [hp]
    rfl

/-- A round of the continuation loop begins one when nothing is left. -/
theorem moves_retryNext (hf : s.frames = f :: fs) {g : ℕ} {rest : List RetrierId}
    (hp : f.point = .continuations g rest) (r : Sys) :
    Nest.Moves s.nest (deferrals s (.retry r)) (retryNext s g rest r).nest := by
  have hat : s.nest = ⟨.outside :: fs.map (fun f => f.point.phase), s.resumer⟩ := by
    rw [nest_of_frames hf, hp]
    rfl
  have hbegins : begins s (.retry r) = rest.isEmpty := by
    rw [begins, State.pending_eq hf, hp]
    rfl
  rw [deferrals_eq (by simp) (by simp), hbegins]
  have hretried := retriedNext s g rest r
  generalize retryNext s g rest r = s₁ at hretried ⊢
  cases hretried with
  | returns =>
    rw [hat, nest_doPollReturns hf]
    exact .start _ s.resumer
  | fails => exact .of_eq rfl
  | @retries id rest c hg hc p hp' =>
    have hshell := shell_tryOrResume (s.observe (.retried id)) id c r
    have hframes : (tryOrResume (s.observe (.retried id)) id c r).1.frames = f :: fs :=
      (congrArg Shell.frames hshell).trans hf
    refine .of_eq ((nest_goto_of_phase hframes ?_).trans (nest_of_shell hshell))
    rw [hp]
    rcases hp' with rfl | rfl <;> rfl

/-- A round of `resume_all`: it resumes a handle, or ends. -/
theorem moves_resumeAllNext (hf : s.frames = f :: fs) {rest : List Handle}
    (hp : f.point = .resumeAll rest) :
    Nest.Moves s.nest (deferrals s .resumeNext) (resumeAllNext s f rest).nest := by
  have hat : s.nest = ⟨.head rest :: fs.map (fun f => f.point.phase), s.resumer⟩ := by
    rw [nest_of_frames hf, hp]
    rfl
  have hnext : deferrals s .resumeNext = (rest.head?.map Deferral.resumed).toList := by
    rw [deferrals, hat]
    rfl
  rw [hnext, hat]
  have hresumed := resumedAllNext s f rest
  generalize resumeAllNext s f rest = s₁ at hresumed ⊢
  cases hresumed with
  | again =>
    rw [nest_goto (s := { s with resumer := s.resumer.clearResuming }) hf]
    exact .finish _ s.resumer
  | leaves =>
    rw [nest_leave (s := { s with resumer := s.resumer.clearResuming }) hf]
    exact .finishLast _ s.resumer
  | resumes a rest =>
    rw [nest_goto (s := s.observe (.handle a)) hf]
    exact .resume _ s.resumer a rest

/-- Suspending goes back to the loop that resumed. -/
theorem moves_suspend (hf : s.frames = f :: fs) {p : Point} (hp : f.point.afterSuspend = some p) :
    Nest.Moves s.nest [] (s.goto p).nest := by
  cases hfp : f.point with
  | resumed rest =>
    rw [hfp] at hp
    obtain rfl : .resumeAll rest = p := Option.some.inj hp
    rw [nest_of_frames hf, hfp, nest_goto hf]
    exact .suspend _ s.resumer rest
  | _ =>
    rw [hfp] at hp
    refine .of_eq (nest_goto_of_phase hf ?_)
    rw [hfp]
    cases hp <;> rfl

/-- **Every step is a move of the machine**, however deep the loops are. -/
theorem nest_of_step (hs : step s e = some s') :
    Nest.Moves s.nest (deferrals s e) s'.nest := by
  cases (stepped_of_step hs).2 with
  | create hu call => exact .of_eq rfl
  | @await hu id c hc a r => exact .of_eq (nest_of_shell (shell_awaitSuspend s id c r a))
  | @destroy hu id c hc => exact .of_eq (nest_of_shell (shell_iopDestructed s id c))
  | asyncResume hu handles written =>
    have hr : (doAsyncResume s handles written).nest
        = { s.nest with vectors := (s.resumer.queue handles).1 } := by
      obtain ⟨n, he⟩ := doAsyncResume_eq s handles written
      rw [he]
      rfl
    rw [hr]
    exact .queue s.nest handles
  | runUntil hu coro => exact .enter s.nest (head?_ne_of_userRuns hu)
  | runBatch hu => exact .enter s.nest (head?_ne_of_userRuns hu)
  | suspend hf hp => exact moves_suspend hf hp
  | clock hf hp now done => exact moves_clearTimeouts hf hp now done
  | poll hf hp a => exact moves_doPoll hf hp a
  | retry hf hp r => exact moves_retryNext hf hp r
  | resumeNext hf hp => exact moves_resumeAllNext hf hp

end Nest

/-! ## The passes of the poll warden

A pass is told by how often `continuations` had been cleared when it began. -/

/-- What is observed of the passes. -/
inductive Passed
  /-- `do_poll` collects, and a pass begins. -/
  | collected (generation : ℕ) (ids : List RetrierId)
  /-- The pass retries one of them. -/
  | retried (generation : ℕ) (id : RetrierId)
  deriving DecidableEq

/-- The retriers that a pass has collected. -/
def Passed.collectedIn (g : ℕ) : Passed → List RetrierId
  | .collected g' ids => if g' = g then ids else []
  | .retried _ _ => []

/-- The retrier that it retries. -/
def Passed.retriedIn (g : ℕ) : Passed → List RetrierId
  | .collected _ _ => []
  | .retried g' id => if g' = g then [id] else []

/-- What a loop retries at a point of it. -/
def State.retriedAt (s : State) : Point → List Passed
  | .continuations g (id :: _) =>
    if g = s.generation ∧ (s.completions id).isSome then [.retried g id] else []
  | _ => []

/-- What a step does of the passes. -/
def passed (s : State) : Event → List Passed
  | .poll a =>
    if 0 < a.ret then [.collected (s.generation + 1) (collect s a.revents).continuations] else []
  | .retry _ => s.frames.head?.elim [] (fun f => s.retriedAt f.point)
  | _ => []

/-- What a point of the loop has still to retry of a pass. -/
def Point.leftIn (g : ℕ) (p : Point) : List RetrierId :=
  if p.generation = some g then p.pending else []

/-- What is left to retry of a pass. -/
def State.leftIn (s : State) (g : ℕ) : List RetrierId :=
  s.frames.flatMap (fun f => f.point.leftIn g)

/-- **Each pass has retried what it has collected**, each retrier as often as
it was collected and in that order, but for those that are left. -/
def Retried (s : State) (l : List Passed) : Prop :=
  ∀ g, l.flatMap (Passed.retriedIn g) ++ s.leftIn g = l.flatMap (Passed.collectedIn g)

section Passes

variable {s s' : State} {f : Frame} {fs : List Frame} {e : Event} {l : List Passed} {g : ℕ}

theorem Point.leftIn_of_none {p : Point} (h : p.generation = none) : p.leftIn g = [] := by
  rw [Point.leftIn, h]
  rfl

theorem leftIn_of_frames (hf : s.frames = f :: fs) :
    s.leftIn g = f.point.leftIn g ++ fs.flatMap (fun f => f.point.leftIn g) := by
  rw [State.leftIn, hf, List.flatMap_cons]

theorem leftIn_goto (hf : s.frames = f :: fs) (p : Point) :
    (s.goto p).leftIn g = p.leftIn g ++ fs.flatMap (fun f => f.point.leftIn g) := by
  rw [goto_eq, State.leftIn, hf]
  rfl

theorem leftIn_of_shell (h : s'.shell = s.shell) : s'.leftIn g = s.leftIn g := by
  unfold State.leftIn
  rw [show s'.frames = s.frames from congrArg Shell.frames h]

/-- Going on to a point that has as much left. -/
theorem leftIn_goto_of_point (hf : s.frames = f :: fs) {p : Point}
    (hp : p.leftIn g = f.point.leftIn g) : (s.goto p).leftIn g = s.leftIn g := by
  rw [leftIn_goto hf, leftIn_of_frames hf, hp]

theorem leftIn_leave (hf : s.frames = f :: fs) (hp : f.point.generation = none) :
    s.leave.leftIn g = s.leftIn g := by
  rw [leftIn_of_frames hf, Point.leftIn_of_none hp, State.leave, State.leftIn, hf]
  rfl

/-- A pass that has not begun has nothing left. -/
theorem Generations.leftIn_eq_nil (h : Generations s) (hg : s.generation < g) :
    s.leftIn g = [] := by
  refine List.flatMap_eq_nil_iff.mpr (fun f hm => ?_)
  rw [Point.leftIn, if_neg]
  intro hp
  have hle := h f hm g hp
  omega

/-- Where the passes are as before, they have retried the same. -/
theorem Retried.stays (h : Retried s l) (hleft : ∀ g, s'.leftIn g = s.leftIn g) :
    Retried s' (l ++ []) := fun g => by
  rw [List.append_nil, hleft]
  exact h g

/-- A pass begins, and has everything left. -/
theorem Retried.collects (h : Retried s l) (hg : Generations s) {g' : ℕ}
    (hg' : s.generation < g') {ids : List RetrierId}
    (hleft : ∀ g, s'.leftIn g = (if g' = g then ids else []) ++ s.leftIn g) :
    Retried s' (l ++ [.collected g' ids]) := fun g => by
  have hbefore := h g
  rw [List.flatMap_append, List.flatMap_append, hleft]
  simp only [List.flatMap_cons, List.flatMap_nil, Passed.retriedIn, Passed.collectedIn,
    List.append_nil]
  by_cases hgg : g' = g
  · subst hgg
    rw [hg.leftIn_eq_nil hg', List.append_nil] at hbefore
    rw [if_pos rfl, hg.leftIn_eq_nil hg', List.append_nil, hbefore]
  · rw [if_neg hgg, List.nil_append, List.append_nil, hbefore]

/-- A pass retries the first of those that it has left. -/
theorem Retried.retries (h : Retried s l) {g' : ℕ} {id : RetrierId}
    (hleft : ∀ g, s.leftIn g = (if g' = g then [id] else []) ++ s'.leftIn g) :
    Retried s' (l ++ [.retried g' id]) := fun g => by
  have hbefore := h g
  rw [hleft g] at hbefore
  rw [List.flatMap_append, List.flatMap_append, ← hbefore]
  simp [Passed.retriedIn, Passed.collectedIn]

theorem leftIn_doPollReturns (hf : s.frames = f :: fs) (hp : f.point.pending = []) :
    (doPollReturns s).leftIn g = s.leftIn g := by
  refine leftIn_goto_of_point (s := { s with resumer := s.resumer.swap }) hf ?_
  rw [Point.leftIn_of_none rfl, Point.leftIn, hp, ite_self]

/-- A loop is entered with nothing left. -/
theorem leftIn_enter (hp : f.point.generation = none) :
    ({ s with frames := f :: s.frames } : State).leftIn g = s.leftIn g := by
  rw [State.leftIn, List.flatMap_cons, Point.leftIn_of_none hp]
  rfl

theorem leftIn_clearTimeouts (hf : s.frames = f :: fs) (hp : f.point = .clearTimeouts)
    (now : TimePoint) (done : Bool) :
    (clearTimeouts s f now done).leftIn g = s.leftIn g := by
  have hcleared := clearedTimeouts s f now done
  generalize clearTimeouts s f now done = s₁ at hcleared ⊢
  cases hcleared with
  | leaves => exact leftIn_leave hf (by rw [hp]; rfl)
  | polls => exact leftIn_goto_of_point hf (by rw [hp]; rfl)
  | fails => rfl
  | @timesOut t id l c he hdue hc p hp' =>
    have hshell := shell_iopTimedout { s with timeouts := s.timeouts.eraseBegin } id c
    have hframes : (iopTimedout { s with timeouts := s.timeouts.eraseBegin } id c).1.frames
        = f :: fs := (congrArg Shell.frames hshell).trans hf
    refine (leftIn_goto_of_point hframes ?_).trans (leftIn_of_shell hshell)
    rw [hp]
    rcases hp' with rfl | rfl <;> rfl

theorem leftIn_resumeAllNext (hf : s.frames = f :: fs) {rest : List Handle}
    (hp : f.point = .resumeAll rest) : (resumeAllNext s f rest).leftIn g = s.leftIn g := by
  have hnone : f.point.generation = none := by
    rw [hp]
    rfl
  have hresumed := resumedAllNext s f rest
  generalize resumeAllNext s f rest = s₁ at hresumed ⊢
  cases hresumed with
  | again =>
    exact leftIn_goto_of_point (s := { s with resumer := s.resumer.clearResuming }) hf
      (by rw [hp]; rfl)
  | leaves => exact leftIn_leave (s := { s with resumer := s.resumer.clearResuming }) hf hnone
  | resumes a rest =>
    exact leftIn_goto_of_point (s := s.observe (.handle a)) hf (by rw [hp]; rfl)

/-- `do_poll` begins a pass when something is reported. -/
theorem Retried.doPoll (h : Retried s l) (hg : Generations s) (hf : s.frames = f :: fs) {t : Int}
    (hp : f.point = .doPoll t) (a : PollAnswer) :
    Retried (doPoll s a) (l ++ passed s (.poll a)) := by
  have hnone : f.point.generation = none := by
    rw [hp]
    rfl
  have hpassed : passed s (.poll a) = if 0 < a.ret then
      [.collected (s.generation + 1) (collect s a.revents).continuations] else [] := rfl
  rw [hpassed]
  by_cases hpos : 0 < a.ret
  · have hgen : (collect s a.revents).generation = s.generation + 1 :=
      generation_collect a.revents
    rw [if_pos hpos, doPoll_of_pos s hpos]
    refine h.collects hg (Nat.lt_succ_self _) (fun g => ?_)
    rw [leftIn_goto ((frames_collect a.revents).trans hf), leftIn_of_frames hf,
      Point.leftIn_of_none hnone, List.nil_append, hgen]
    simp [Point.leftIn, Point.generation, Point.pending]
  · rw [if_neg hpos]
    have hpolled := polled s a
    generalize PollWarden.doPoll s a = s₁ at hpolled ⊢
    cases hpolled with
    | returns => exact h.stays (fun g => leftIn_doPollReturns hf (by rw [hp]; rfl))
    | throws => exact h.stays (fun g => leftIn_leave hf hnone)
    | collects h => exact absurd h hpos

/-- A round of the continuation loop retries the first that is left. -/
theorem Retried.retryNext (h : Retried s l) (hf : s.frames = f :: fs) {g : ℕ}
    {rest : List RetrierId} (hp : f.point = .continuations g rest) (r : Sys) :
    Retried (retryNext s g rest r) (l ++ passed s (.retry r)) := by
  have hpassed : passed s (.retry r) = s.retriedAt (.continuations g rest) := by
    rw [passed, hf, ← hp]
    rfl
  have hretried := retriedNext s g rest r
  generalize PollWarden.retryNext s g rest r = s₁ at hretried ⊢
  rw [hpassed]
  cases hretried with
  | returns => exact h.stays (fun g => leftIn_doPollReturns hf (by rw [hp]; rfl))
  | fails id rest x hx =>
    have hneg : ¬ (g = s.generation ∧ (s.completions id).isSome = true) := by
      rintro ⟨hgen, hsome⟩
      rcases hx with hne | hnone
      · exact hne hgen
      · rw [hnone] at hsome
        cases hsome
    rw [State.retriedAt, if_neg hneg]
    exact h.stays (fun g => rfl)
  | @retries id rest c hgen hc p hp' =>
    rw [State.retriedAt, if_pos ⟨hgen, by rw [hc]; rfl⟩]
    have hshell := shell_tryOrResume (s.observe (.retried id)) id c r
    have hframes : (tryOrResume (s.observe (.retried id)) id c r).1.frames = f :: fs :=
      (congrArg Shell.frames hshell).trans hf
    refine h.retries (fun g' => ?_)
    rw [leftIn_goto hframes, leftIn_of_frames hf, hp, ← List.append_assoc]
    congr 1
    rcases hp' with rfl | rfl <;>
      simp only [Point.leftIn, Point.generation, Point.pending, Option.some.injEq] <;>
      split_ifs <;> rfl

/-- **A step goes on with the passes**, however deep the loops are. -/
theorem Retried.step (h : Retried s l) (hg : Generations s) (hs : step s e = some s') :
    Retried s' (l ++ passed s e) := by
  cases (stepped_of_step hs).2 with
  | create hu call => exact h.stays (fun g => rfl)
  | @await hu id c hc a r =>
    exact h.stays (fun g => leftIn_of_shell (shell_awaitSuspend s id c r a))
  | @destroy hu id c hc => exact h.stays (fun g => leftIn_of_shell (shell_iopDestructed s id c))
  | asyncResume hu handles written =>
    refine h.stays (fun g => ?_)
    obtain ⟨n, he⟩ := doAsyncResume_eq s handles written
    rw [he]
    rfl
  | runUntil hu coro => exact h.stays (fun g => leftIn_enter rfl)
  | runBatch hu => exact h.stays (fun g => leftIn_enter rfl)
  | suspend hf hp =>
    refine h.stays (fun g => leftIn_goto_of_point hf ?_)
    rw [Point.leftIn, Point.leftIn, Point.generation_afterSuspend hp, Point.pending_afterSuspend hp]
  | clock hf hp now done => exact h.stays (fun g => leftIn_clearTimeouts hf hp now done)
  | poll hf hp a => exact h.doPoll hg hf hp a
  | retry hf hp r => exact h.retryNext hf hp r
  | resumeNext hf hp => exact h.stays (fun g => leftIn_resumeAllNext hf hp)

end Passes

/-- **Every pass retries what it has collected**, each retrier as often as it
was collected, as long as nothing is taken from it. -/
theorem retried_of_run {w : SocketDescriptor} {es : List Event} {s : State}
    (h : Run step KeepsCollected (init w) es s) :
    Retried s (observed step passed (init w) es) ∧ ¬ StaleRetry s := by
  refine ⟨?_, (lifetime_of_run h).fault⟩
  exact (h.invariant_observed passed (P := fun s l => Generations s ∧ Retried s l)
    (fun s e s' l hI _ hs => ⟨hI.1.step hs, hI.2.step hI.1 hs⟩) (l := [])
    ⟨generations_init w, fun g => rfl⟩).2

end PollWarden

/-! ## The uring warden -/

namespace UringWarden

/-- Where a loop is, as far as `resume_all` is concerned. -/
def Point.phase : Point → Phase
  | .resumeAll rest => .head rest
  | .resumed rest => .within rest
  | _ => .outside

/-- The machine that is part of the warden. -/
def State.nest (s : State) : Nest := ⟨s.frames.map (fun f => f.point.phase), s.resumer⟩

/-- What a step does of deferred resumption. A `resume_all` begins when no
further CQE is there. -/
def deferrals (s : State) : Event → List Deferral
  | .asyncResume handles _ _ => [.queued handles]
  | .resumeNext => (s.nest.next.map Deferral.resumed).toList
  | .peekCqe none => [.started]
  | _ => []

/-- **No `resume_all` begins while another one goes on** further out. -/
def Apart (s : State) : Event → Prop
  | .peekCqe none => ∀ f ∈ s.frames.tail, f.point.resumes = false
  | _ => True

instance : DecidableRel Apart := fun s e =>
  match e with
  | .peekCqe none => inferInstanceAs (Decidable (∀ f ∈ s.frames.tail, f.point.resumes = false))
  | .peekCqe (some _) | .create _ | .await _ _ _ _ | .destroy _ | .asyncResume _ _ _ | .runUntil _
  | .runBatch _ | .suspend | .condition _ _ | .waitCqe _ _ | .resumeNext | .close =>
    inferInstanceAs (Decidable True)

section Nest

variable {s s' : State} {f : Frame} {fs : List Frame} {e : Event}

theorem Point.resumes_phase (p : Point) : p.phase.resumes = p.resumes := by
  cases p <;> rfl

theorem apart_iff (s : State) (e : Event) : s.nest.Apart (deferrals s e) ↔ Apart s e := by
  cases e with
  | peekCqe cqe =>
    cases cqe with
    | none => simp [Nest.Apart, Apart, deferrals, State.nest, ← List.map_tail, Point.resumes_phase]
    | some cqe => simp [Nest.Apart, Apart, deferrals]
  | _ => simp [Nest.Apart, Apart, deferrals]

theorem nest_of_frames (hf : s.frames = f :: fs) :
    s.nest = ⟨f.point.phase :: fs.map (fun f => f.point.phase), s.resumer⟩ := by
  rw [State.nest, hf, List.map_cons]

/-- An operation on a completion leaves the machine. -/
theorem nest_of_loop (h : s'.loop = s.loop) : s'.nest = s.nest := by
  unfold State.nest
  rw [show s'.frames = s.frames from congrArg Prod.fst h,
    show s'.resumer = s.resumer from congrArg (fun l => l.2.1) h]

theorem nest_goto (hf : s.frames = f :: fs) (p : Point) :
    (s.goto p).nest = ⟨p.phase :: fs.map (fun f => f.point.phase), s.resumer⟩ := by
  rw [goto_eq, State.nest, hf]
  rfl

/-- Going on to a point of the same phase leaves the machine. -/
theorem nest_goto_of_phase (hf : s.frames = f :: fs) {p : Point}
    (hp : p.phase = f.point.phase) : (s.goto p).nest = s.nest := by
  rw [nest_goto hf, nest_of_frames hf, hp]

theorem nest_leave (hf : s.frames = f :: fs) :
    s.leave.nest = ⟨fs.map (fun f => f.point.phase), s.resumer⟩ := by
  rw [State.leave, State.nest, hf]
  rfl

/-- A coroutine runs, and not the loop that resumed it. -/
theorem Point.phase_ne_head {p : Point} (h : p.userRuns = true) (rest : List Handle) :
    p.phase ≠ .head rest := by
  cases p with
  | resumeAll left => exact absurd h (by simp [Point.userRuns])
  | _ => exact fun hp => by cases hp

/-- A loop is entered by a coroutine, or by the program outside all loops. -/
theorem head?_ne_of_enters (he : (∃ coro, e = .runUntil coro) ∨ ∃ taken, e = .runBatch taken)
    (hs : step s e = some s') (rest : List Handle) :
    s.nest.phases.head? ≠ some (.head rest) := by
  cases hf : s.frames with
  | nil =>
    rw [State.nest, hf]
    exact fun h => by cases h
  | cons f fs =>
    rw [nest_of_frames hf]
    by_cases hu : f.point.userRuns = true
    · exact fun h => Point.phase_ne_head hu rest (Option.some.inj h)
    · -- a loop that goes on takes no such step
      rw [step, if_neg (by rw [(stepped_of_step hs).1, (stepped_of_step hs).2.1]; simp), hf] at hs
      dsimp only at hs
      rw [if_neg hu] at hs
      rcases he with ⟨coro, rfl⟩ | ⟨taken, rfl⟩ <;> cases hs

/-- A CQE is taken, and perhaps delivered. -/
theorem nest_execute (hf : s.frames = f :: fs) (hp : f.point.phase = .outside) (sqe : Sqe)
    (result : Int) : (execute s sqe result).nest = s.nest := by
  have hexec := executed s sqe result
  generalize execute s sqe result = t at hexec ⊢
  cases hexec with
  | nop hu => exact nest_goto_of_phase hf hp.symm
  | @gone id hu hc =>
    exact nest_goto_of_phase (s := s.observe (.executed id sqe.role result)) hf hp.symm
  | @ignored id c hu hc hd =>
    exact (nest_of_loop (loop_executeEnd _ _)).trans
      (nest_goto_of_phase (s := s.observe (.executed id sqe.role result)) hf hp.symm)
  | @delivered id c outcome hu hc hex hd =>
    exact nest_goto_of_phase (s := ((s.observe (.executed id sqe.role result)).setCompletion id
      { c with result := outcome }).observe (.resumed id outcome)) hf hp.symm

/-- A round of `resume_all`: it resumes a handle, or ends. -/
theorem moves_resumeAllNext (hf : s.frames = f :: fs) {rest : List Handle}
    (hp : f.point = .resumeAll rest) :
    Nest.Moves s.nest (deferrals s .resumeNext) (resumeAllNext s f rest).nest := by
  have hat : s.nest = ⟨.head rest :: fs.map (fun f => f.point.phase), s.resumer⟩ := by
    rw [nest_of_frames hf, hp]
    rfl
  have hnext : deferrals s .resumeNext = (rest.head?.map Deferral.resumed).toList := by
    rw [deferrals, hat]
    rfl
  rw [hnext, hat]
  have hresumed := resumedAllNext s f rest
  generalize resumeAllNext s f rest = s₁ at hresumed ⊢
  cases hresumed with
  | again =>
    rw [nest_goto (s := { s with resumer := s.resumer.clearResuming }) hf]
    exact .finish _ s.resumer
  | leaves =>
    rw [nest_leave (s := { s with resumer := s.resumer.clearResuming }) hf]
    exact .finishLast _ s.resumer
  | resumes a rest =>
    rw [nest_goto hf]
    exact .resume _ s.resumer a rest

/-- Suspending goes back to the loop that resumed. -/
theorem moves_suspend (hf : s.frames = f :: fs) {p : Point} (hp : f.point.afterSuspend = some p) :
    Nest.Moves s.nest [] (s.goto p).nest := by
  cases hfp : f.point with
  | resumed rest =>
    rw [hfp] at hp
    obtain rfl : .resumeAll rest = p := Option.some.inj hp
    rw [nest_of_frames hf, hfp, nest_goto hf]
    exact .suspend _ s.resumer rest
  | _ =>
    rw [hfp] at hp
    refine .of_eq (nest_goto_of_phase hf ?_)
    rw [hfp]
    cases hp <;> rfl

/-- **Every step is a move of the machine**, however deep the loops are. -/
theorem nest_of_step (hs : step s e = some s') :
    Nest.Moves s.nest (deferrals s e) s'.nest := by
  have hleaves : ∀ {f : Frame} {fs : List Frame}, s.frames = f :: fs →
      f.point.phase = .outside → Nest.Moves s.nest [] s.leave.nest := fun hf hp => by
    rw [nest_of_frames hf, hp, nest_leave hf]
    exact .leave _ s.resumer
  cases (stepped_of_step hs).2.2 with
  | create call => exact .of_eq rfl
  | @await id c hi hc a now sqes =>
    exact .of_eq (nest_of_loop (loop_awaitSuspend s id c a now sqes))
  | awaitGone hi hc a now sqes => exact .of_eq rfl
  | @destroy id hi => exact .of_eq (nest_of_loop (loop_iopDestructed s id))
  | asyncResume handles sqeLeft taken =>
    have hr : (doAsyncResume s handles sqeLeft taken).nest
        = { s.nest with vectors := (s.resumer.queue handles).1 } := by
      obtain ⟨queue, inflight, he⟩ := doAsyncResume_eq s handles sqeLeft taken
      rw [he]
      rfl
    rw [hr]
    exact .queue s.nest handles
  | runUntil coro => exact .enter s.nest (head?_ne_of_enters (Or.inl ⟨coro, rfl⟩) hs)
  | runBatch taken => exact .enter s.nest (head?_ne_of_enters (Or.inr ⟨taken, rfl⟩) hs)
  | suspend hf hp => exact moves_suspend hf hp
  | @delivered f fs hf id hp =>
    refine .of_eq ((nest_of_loop (loop_executeEnd _ id)).trans (nest_goto_of_phase hf ?_))
    rw [hp]
    rfl
  | close hf =>
    have hdelete : (deleteOutstanding s s.outstanding).nest = s.nest :=
      nest_of_loop (loop_deleteOutstanding s s.outstanding)
    exact .of_eq hdelete
  | done hf hp taken => exact hleaves hf (by rw [hp]; rfl)
  | submit hf hp taken =>
    exact .of_eq (nest_goto_of_phase (s := s.submit taken) hf (by rw [hp]; rfl))
  | interrupted hf hp cqe => exact .of_eq (nest_goto_of_phase hf (by rw [hp]; rfl))
  | waitFails hf hp hret hne cqe => exact hleaves hf (by rw [hp]; rfl)
  | @take f fs hf hp e cqe sqe he hq =>
    have hnone : deferrals s e = [] := by
      cases e with
      | peekCqe cqe' => cases cqe' with
        | none => cases he
        | some cqe' => rfl
      | asyncResume => cases he
      | resumeNext => cases he
      | _ => rfl
    rw [hnone]
    exact .of_eq (nest_execute (s := s.cqeSeen cqe.index) hf
      (by rcases hp with hp | hp <;> rw [hp] <;> rfl) sqe cqe.res)
  | peekNone hf hp =>
    rw [nest_of_frames hf, hp, beginResumeAll,
      nest_goto (s := { s with resumer := s.resumer.swap }) hf]
    exact .start _ s.resumer
  | resumeNext hf hp => exact moves_resumeAllNext hf hp

end Nest

end UringWarden

/-! ## Both wardens -/

/-- **When a loop may be entered from within.** Every handle is resumed exactly
as often as it is queued, in all states of a run of either warden, exactly if
no `resume_all` of the run begins while another one goes on further out. On the
poll warden every pass retries exactly what it has collected, as long as no
pass collects, and no IOP is destroyed, that another pass has still to
retry. -/
theorem reentered_iff_apart (w : SocketDescriptor) :
    (∀ es s, Run PollWarden.step always (PollWarden.init w) es s →
      ((∀ es₁ s₁, es₁ <+: es → Run PollWarden.step always (PollWarden.init w) es₁ s₁ →
          s₁.nest.Balanced (observed PollWarden.step PollWarden.deferrals (PollWarden.init w) es₁))
        ↔ Run PollWarden.step PollWarden.Apart (PollWarden.init w) es s))
    ∧ (∀ es s, Run UringWarden.step always UringWarden.init es s →
      ((∀ es₁ s₁, es₁ <+: es → Run UringWarden.step always UringWarden.init es₁ s₁ →
          s₁.nest.Balanced (observed UringWarden.step UringWarden.deferrals UringWarden.init es₁))
        ↔ Run UringWarden.step UringWarden.Apart UringWarden.init es s))
    ∧ ∀ es s, Run PollWarden.step PollWarden.KeepsCollected (PollWarden.init w) es s →
      PollWarden.Retried s (observed PollWarden.step PollWarden.passed (PollWarden.init w) es)
        ∧ ¬ PollWarden.StaleRetry s :=
  ⟨fun _ _ h => Nest.balanced_iff_of_moves PollWarden.State.nest PollWarden.deferrals
      PollWarden.apart_iff (fun _ _ _ => PollWarden.nest_of_step) rfl h,
    fun _ _ h => Nest.balanced_iff_of_moves UringWarden.State.nest UringWarden.deferrals
      UringWarden.apart_iff (fun _ _ _ => UringWarden.nest_of_step) rfl h,
    fun _ _ h => PollWarden.retried_of_run h⟩

/-- The coroutine of a read that a pass retries queues a handle, and calls
`run_batch`, which resumes it; then the pass goes on to the second read. -/
def PollWarden.reentersFromPass : List PollWarden.Event :=
  [.create (.readSome 5 1 none), .create (.readSome 6 1 none), .runUntil 1,
    .await 0 2 ⟨-1, EAGAIN, 0⟩, .await 1 3 ⟨-1, EAGAIN, 0⟩, .suspend, .clock 0 false,
    .poll { ret := 2, revents := fun fd => { pollin := fd = 5 || fd = 6 } }, .retry ⟨1, 0, 0⟩,
    .asyncResume [some 7] true, .runBatch, .clock 0 false, .poll { ret := 0 }, .resumeNext,
    .suspend, .resumeNext, .suspend, .retry ⟨1, 0, 0⟩]

/-- The coroutine of a read whose CQE is delivered does the same. -/
def UringWarden.reentersFromDelivery : List UringWarden.Event :=
  [.create (.readSome 5 8 none), .runUntil 1, .await 0 2 0 1, .suspend, .condition false 1,
    .waitCqe 0 ⟨0, 3⟩, .asyncResume [some 7] true 1, .runBatch 0, .peekCqe none, .resumeNext,
    .suspend, .resumeNext, .suspend, .peekCqe none, .resumeNext]

theorem reentered_iff_apart_runBatch :
    (∃ s, Run PollWarden.step always (PollWarden.init 3) PollWarden.reentersFromPass s
      ∧ s.nest.Balanced (observed PollWarden.step PollWarden.deferrals (PollWarden.init 3)
          PollWarden.reentersFromPass)
      ∧ PollWarden.Retried s (observed PollWarden.step PollWarden.passed (PollWarden.init 3)
          PollWarden.reentersFromPass)
      ∧ ¬ PollWarden.StaleRetry s)
    ∧ ∃ s, Run UringWarden.step always UringWarden.init UringWarden.reentersFromDelivery s
      ∧ s.nest.Balanced (observed UringWarden.step UringWarden.deferrals UringWarden.init
          UringWarden.reentersFromDelivery) := by
  constructor
  · obtain ⟨s, hrun, -⟩ := exists_run_of_exec PollWarden.step
      (fun s e => PollWarden.Apart s e ∧ PollWarden.KeepsCollected s e) (PollWarden.init 3)
      PollWarden.reentersFromPass (fun _ => true) (by decide)
    have hall : Run PollWarden.step always (PollWarden.init 3) PollWarden.reentersFromPass s :=
      hrun.mono (fun _ _ _ => trivial)
    have hbalanced := ((reentered_iff_apart 3).1 _ s hall).mpr
      (hrun.mono (fun _ _ hok => hok.1)) _ s (List.prefix_refl _) hall
    obtain ⟨hretried, hfresh⟩ := (reentered_iff_apart 3).2.2 _ s (hrun.mono (fun _ _ hok => hok.2))
    exact ⟨s, hall, hbalanced, hretried, hfresh⟩
  · obtain ⟨s, hrun, -⟩ := exists_run_of_exec UringWarden.step UringWarden.Apart UringWarden.init
      UringWarden.reentersFromDelivery (fun _ => true) (by decide)
    have hall : Run UringWarden.step always UringWarden.init UringWarden.reentersFromDelivery s :=
      hrun.mono (fun _ _ _ => trivial)
    exact ⟨s, hall, ((reentered_iff_apart 3).2.1 _ s hall).mpr hrun _ s (List.prefix_refl _) hall⟩

/-- A handle is queued, and the coroutine that `resume_all` resumes calls
`run_batch`; the next `run_batch` follows when both have returned. -/
def PollWarden.reentersFromResumeAll : List PollWarden.Event :=
  [.asyncResume [some 7] true, .runBatch, .clock 0 false, .poll { ret := 0 }, .resumeNext,
    .runBatch, .clock 0 false, .poll { ret := 0 }, .resumeNext, .suspend, .resumeNext,
    .runBatch, .clock 0 false, .poll { ret := 0 }, .resumeNext]

/-- The same, on the other warden. -/
def UringWarden.reentersFromResumeAll : List UringWarden.Event :=
  [.asyncResume [some 7] true 1, .runBatch 0, .peekCqe none, .resumeNext, .runBatch 0,
    .peekCqe none, .resumeNext, .suspend, .resumeNext, .runBatch 0, .peekCqe none, .resumeNext]

/-- The coroutine of the first of two reads queues a handle and calls
`run_batch`, whose `::poll` reports the wake-up pipe. -/
def PollWarden.collectsWithin : List PollWarden.Event :=
  PollWarden.twoReadsReady ++
    [.asyncResume [some 7] true, .runBatch, .clock 0 false,
      .poll { ret := 1, revents := fun fd => { pollin := fd = 3 } }, .retry ⟨0, 0, 0⟩, .resumeNext,
      .suspend, .resumeNext, .suspend, .retry ⟨1, 0, 0⟩]

/-- **A handle that is queued once is resumed twice** when the coroutine that
is resumed enters the loop; and a pass that a nested one clears the vector of
follows an iterator that is no longer valid, with the second read still to
retry. -/
theorem not_balanced_reentered :
    (∃ s, Run PollWarden.step always (PollWarden.init 3) PollWarden.reentersFromResumeAll s
      ∧ observed PollWarden.step PollWarden.deferrals (PollWarden.init 3)
          PollWarden.reentersFromResumeAll
        = [.queued [some 7], .started, .resumed 7, .started, .started, .resumed 7])
    ∧ (∃ s, Run UringWarden.step always UringWarden.init UringWarden.reentersFromResumeAll s
      ∧ observed UringWarden.step UringWarden.deferrals UringWarden.init
          UringWarden.reentersFromResumeAll
        = [.queued [some 7], .started, .resumed 7, .started, .started, .resumed 7])
    ∧ (∃ s, Run PollWarden.step PollWarden.Apart (PollWarden.init 3) PollWarden.collectsWithin s
      ∧ s.fault = some .invalidIterator ∧ s.leftIn 1 = [1])
    ∧ (¬ ∀ w es s, Run PollWarden.step always (PollWarden.init w) es s →
      s.nest.Balanced (observed PollWarden.step PollWarden.deferrals (PollWarden.init w) es)
        ∧ ¬ PollWarden.StaleRetry s)
    ∧ ¬ ∀ es s, Run UringWarden.step always UringWarden.init es s →
      s.nest.Balanced (observed UringWarden.step UringWarden.deferrals UringWarden.init es) := by
  obtain ⟨s₁, hrun₁, htest₁⟩ := exists_run_of_exec PollWarden.step always (PollWarden.init 3)
    PollWarden.reentersFromResumeAll (fun s => !decide (s.nest.Balanced (observed PollWarden.step
      PollWarden.deferrals (PollWarden.init 3) PollWarden.reentersFromResumeAll))) (by decide)
  obtain ⟨s₂, hrun₂, htest₂⟩ := exists_run_of_exec UringWarden.step always UringWarden.init
    UringWarden.reentersFromResumeAll (fun s => !decide (s.nest.Balanced (observed UringWarden.step
      UringWarden.deferrals UringWarden.init UringWarden.reentersFromResumeAll))) (by decide)
  obtain ⟨s₃, hrun₃, htest₃⟩ := exists_run_of_exec PollWarden.step PollWarden.Apart
    (PollWarden.init 3) PollWarden.collectsWithin
    (fun s => s.fault = some .invalidIterator ∧ s.leftIn 1 = [1]) (by decide)
  simp only [Bool.not_eq_true', decide_eq_false_iff_not] at htest₁ htest₂
  exact ⟨⟨s₁, hrun₁, by decide⟩, ⟨s₂, hrun₂, by decide⟩, ⟨s₃, hrun₃, of_decide_eq_true htest₃⟩,
    fun h => htest₁ (h 3 _ s₁ hrun₁).1, fun h => htest₂ (h _ s₂ hrun₂)⟩
