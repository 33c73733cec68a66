import Felspar.PollSuspension

/-!
# Deadlines as numbers

`clear_timeouts` takes the first deadline of `timeouts`, subtracts the clock
from it, and compares: what is less than a millisecond away is timed out, and
otherwise the distance, in milliseconds and as an `int`, is what `::poll` is
to wait for. The difference is one of 64-bit counts, which wraps, and the
conversion to an `int` keeps 32 bits. So a deadline that is `2 ^ 31`
milliseconds away makes `::poll` wait for ever, and one that is too far away
for its distance to be a 64-bit count is timed out at once.

`deadline_from` adds two 64-bit counts, and wraps as well. A difference that
wraps undoes a sum that does, so that no deadline ends a wait prematurely; but
a deadline that is computed from a time out for ever may lie in the past, and
then goes in front of all others.
-/

namespace PollWarden

/-- The number is a 64-bit count. -/
def IsCount (n : Int) : Prop := -2 ^ 63 ≤ n ∧ n < 2 ^ 63

instance : DecidablePred IsCount := fun _ => inferInstanceAs (Decidable (_ ∧ _))

/-! ## One reading of the clock -/

/-- The value `clear_timeouts` returns when the clock reads `now`, if it
returns. -/
def clearTimeoutsValue (s : State) (now : TimePoint) : Option Int :=
  match s.timeouts.entries with
  | [] => some (-1)
  | (t, _) :: _ => clearTimeoutsResult t now

/-- It returns that value to `run_until`, which polls with it. -/
theorem clearTimeouts_of_value {s : State} {now : TimePoint} {v : Int}
    (h : clearTimeoutsValue s now = some v) (f : Frame) (done : Bool) :
    clearTimeouts s f now done = clearTimeoutsReturns s f v done := by
  unfold clearTimeoutsValue at h
  cases he : s.timeouts.entries with
  | nil =>
    rw [he] at h
    unfold clearTimeouts
    rw [he, ← Option.some.inj h]
  | cons x l =>
    rw [he] at h
    have h : clearTimeoutsResult x.1 now = some v := h
    unfold clearTimeouts
    rw [he]
    dsimp only
    rw [h]

/-- The distances a deadline may have to the clock: it has passed, or is less
than a millisecond away, but is not so long past that it seems to be to come;
or it is to come, in a number of milliseconds that is positive as an `int`. -/
def InTime (x : Int) : Prop :=
  (x < oneMillisecond ∧ ¬ (oneMillisecond - 2 ^ 64 ≤ x ∧ x < -2 ^ 63)) ∨
    (oneMillisecond ≤ x ∧ x < 2 ^ 63 ∧ 0 < x / oneMillisecond % 2 ^ 32
      ∧ x / oneMillisecond % 2 ^ 32 < 2 ^ 31)

instance : DecidablePred InTime := fun _ => inferInstanceAs (Decidable (_ ∨ _))

section Arithmetic

variable {t now : Int}

/-- The difference of two 64-bit counts. -/
theorem chronoSub_eq (ht : IsCount t) (hnow : IsCount now) :
    chronoSub t now = if t - now < -2 ^ 63 then t - now + 2 ^ 64
      else if t - now < 2 ^ 63 then t - now else t - now - 2 ^ 64 := by
  unfold IsCount at ht hnow
  unfold chronoSub
  split
  case isTrue h =>
    rw [← Int.add_bmod_right, Int.bmod_eq_of_le (by omega) (by omega)]
    rfl
  case isFalse h =>
    split
    case isTrue h' => rw [Int.bmod_eq_of_le (by omega) (by omega)]
    case isFalse h' =>
      rw [← Int.sub_bmod_right, Int.bmod_eq_of_le (by omega) (by omega)]
      rfl

/-- Conversion of a number of milliseconds to an `int`. -/
theorem toInt_eq (q : Int) : toInt q
    = if q % 2 ^ 32 < 2 ^ 31 then q % 2 ^ 32 else q % 2 ^ 32 - 2 ^ 32 := by
  unfold toInt Int.bmod
  dsimp only
  norm_cast

/-- **What is returned**, where something is: the whole milliseconds of the
difference, as an `int`. -/
theorem clearTimeoutsResult_eq (hd : oneMillisecond ≤ chronoSub t now) :
    clearTimeoutsResult t now = some (toInt (chronoSub t now / oneMillisecond)) := by
  have hnot : ¬ chronoSub t now < oneMillisecond := not_lt.mpr hd
  unfold clearTimeoutsResult durationCastMs
  dsimp only
  rw [if_neg hnot, Int.tdiv_eq_ediv_of_nonneg (le_trans (by decide) hd)]

theorem clearTimeoutsResult_eq_none_iff :
    clearTimeoutsResult t now = none ↔ chronoSub t now < oneMillisecond := by
  unfold clearTimeoutsResult
  dsimp only
  split
  case isTrue h => exact iff_of_true rfl h
  case isFalse h => exact iff_of_false (by simp) h

/-- A number of milliseconds is positive as an `int` when its lower 32 bits
are, and then it is not larger for that. -/
theorem one_le_toInt_iff {q : Int} (hq : 0 ≤ q) :
    (1 ≤ toInt q ↔ 0 < q % 2 ^ 32 ∧ q % 2 ^ 32 < 2 ^ 31) ∧ toInt q ≤ q := by
  rw [toInt_eq]
  split <;> omega

/-- **When the result is as it should be**: what is timed out is less than a
millisecond away, and what is returned is positive and no more than the
distance. -/
theorem clearTimeoutsResult_iff (ht : IsCount t) (hnow : IsCount now) :
    ((∀ v, clearTimeoutsResult t now = some v → 1 ≤ v ∧ v * oneMillisecond ≤ t - now)
      ∧ (clearTimeoutsResult t now = none → t - now < oneMillisecond)) ↔ InTime (t - now) := by
  have hsub := chronoSub_eq ht hnow
  have hms : oneMillisecond = 1000000 := rfl
  unfold IsCount at ht hnow
  by_cases hdue : chronoSub t now < oneMillisecond
  · -- it is timed out
    rw [clearTimeoutsResult_eq_none_iff.mpr hdue, hms]
    rw [hsub, hms] at hdue
    have hno : ∀ v, (none : Option Int) = some v → 1 ≤ v ∧ v * 1000000 ≤ t - now := by simp
    rw [and_iff_right hno, InTime, hms]
    simp only [forall_const]
    split_ifs at hdue <;> omega
  · -- it is not, and the distance is returned
    rw [clearTimeoutsResult_eq (not_lt.mp hdue), hms]
    rw [hms] at hdue
    obtain ⟨hpos, hle⟩ := one_le_toInt_iff (q := chronoSub t now / 1000000) (by omega)
    have hno : some (toInt (chronoSub t now / 1000000)) = none → t - now < 1000000 := by simp
    rw [and_iff_left hno, InTime, hms]
    simp only [Option.some.injEq, forall_eq', hpos]
    generalize chronoSub t now = d at hsub hdue hpos hle ⊢
    split_ifs at hsub <;> omega

end Arithmetic

/-! ## The deadlines that are filed -/

section Filed

variable {s s' : State} {id : RetrierId} {c : Completion} {r : Sys} {h : Handle}
  {x : TimePoint × RetrierId}

theorem mem_timeouts_insertTimeout (hm : x ∈ (insertTimeout s id c).timeouts.entries) :
    x ∈ s.timeouts.entries ∨ x.2 = id ∧ c.deadline = some x.1 := by
  rw [insertTimeout_eq] at hm
  cases hd : c.deadline with
  | none =>
    rw [hd] at hm
    exact Or.inl hm
  | some t =>
    rw [hd] at hm
    rcases (Multimap.mem_insert _).mp hm with rfl | hm
    · exact Or.inr ⟨rfl, rfl⟩
    · exact Or.inl hm

theorem mem_timeouts_cancelTimeout (hm : x ∈ (cancelTimeout s id c).timeouts.entries) :
    x ∈ s.timeouts.entries := by
  rw [cancelTimeout_eq] at hm
  cases hd : c.deadline with
  | none =>
    rw [hd] at hm
    exact hm
  | some t =>
    rw [hd] at hm
    exact List.mem_of_mem_eraseP hm

theorem timeouts_cancelIop : (cancelIop s id c).timeouts = s.timeouts := by
  rw [cancelIop_eq]

theorem timeouts_called (op : Op) : (called s id op r).timeouts = s.timeouts := by
  unfold called
  split <;> rfl

theorem mem_timeouts_registerAgain (hm : x ∈ (registerAgain s id c).timeouts.entries) :
    x ∈ s.timeouts.entries ∨ x.2 = id ∧ c.deadline = some x.1 := by
  unfold registerAgain at hm
  split at hm
  · exact Or.inl hm
  · split at hm
    · exact mem_timeouts_insertTimeout (s := pushRequest s _ _ id) hm
    · exact Or.inl hm

theorem mem_timeouts_tryOrResume (hm : x ∈ (tryOrResume s id c r).1.timeouts.entries) :
    x ∈ s.timeouts.entries ∨ x.2 = id ∧ c.deadline = some x.1 := by
  rw [tryOrResume_eq] at hm
  split at hm
  · have hm' := mem_timeouts_registerAgain (s := called s id c.op r) (c := c) hm
    rwa [timeouts_called] at hm'
  · have hm' := mem_timeouts_cancelTimeout (s := called s id c.op r) (c := c) hm
    rw [timeouts_called] at hm'
    exact Or.inl hm'

theorem mem_timeouts_awaitSuspend (hm : x ∈ (awaitSuspend s id c h r).1.timeouts.entries) :
    x ∈ s.timeouts.entries ∨ x.2 = id ∧ c.deadline = some x.1 := by
  rcases awaitSuspend_cases s id c r h _ rfl with
    ⟨fd, -, he⟩ | ⟨fd, d, -, -, he⟩ | ⟨-, he⟩ <;> rw [he] at hm
  · unfold connectAwaitSuspend at hm
    dsimp only at hm
    split_ifs at hm
    · exact Or.inl hm
    · exact mem_timeouts_insertTimeout (s := pushRequest (s.observe (.connect id r)) fd .writes id)
        (c := { c with handle := some h }) hm
    · exact Or.inl hm
  · exact mem_timeouts_insertTimeout (s := pushRequest s fd d id)
      (c := { c with handle := some h }) hm
  · rcases mem_timeouts_tryOrResume (c := { c with handle := some h }) hm with hm | hm
    · exact mem_timeouts_insertTimeout (c := { c with handle := some h }) hm
    · exact Or.inr hm

theorem timeouts_iopTimedout : (iopTimedout s id c).1.timeouts = s.timeouts := by
  unfold iopTimedout
  split
  · rfl
  · exact timeouts_cancelIop

theorem mem_timeouts_iopDestructed (hm : x ∈ (iopDestructed s id c).timeouts.entries) :
    x ∈ s.timeouts.entries := by
  have hcancel : (cancelIop (cancelTimeout s id c) id c).timeouts
      = (cancelTimeout s id c).timeouts := timeouts_cancelIop
  have hm : x ∈ (cancelIop (cancelTimeout s id c) id c).timeouts.entries := hm
  rw [hcancel] at hm
  exact mem_timeouts_cancelTimeout hm

theorem timeouts_goto (p : Point) : (s.goto p).timeouts = s.timeouts := by
  rw [goto_eq]

theorem timeouts_doPollReturns : (doPollReturns s).timeouts = s.timeouts :=
  timeouts_goto (s := { s with resumer := s.resumer.swap }) _

theorem timeouts_collect (revents : SocketDescriptor → Revents) :
    (collect s revents).timeouts = s.timeouts :=
  collect_rule (P := fun t => t.timeouts = s.timeouts) revents rfl (fun _ h => h)
    (fun _ _ _ h => h)

/-- **What is filed after a step** was filed before it, or is the deadline of
the completion it belongs to. -/
theorem mem_timeouts_of_step {e : Event} (hs : step s e = some s')
    (hm : x ∈ s'.timeouts.entries) :
    x ∈ s.timeouts.entries ∨ ∃ c, s.completions x.2 = some c ∧ c.deadline = some x.1 := by
  cases (stepped_of_step hs).2 with
  | create hu call => exact Or.inl hm
  | await hu hc a r =>
    rcases mem_timeouts_awaitSuspend hm with hm | ⟨hid, hd⟩
    · exact Or.inl hm
    · exact Or.inr ⟨_, by rw [hid]; exact hc, hd⟩
  | destroy hu hc => exact Or.inl (mem_timeouts_iopDestructed hm)
  | asyncResume hu handles written =>
    obtain ⟨n, he⟩ := doAsyncResume_eq s handles written
    rw [he] at hm
    exact Or.inl hm
  | runUntil hu coro => exact Or.inl hm
  | runBatch hu => exact Or.inl hm
  | suspend hf hp =>
    rw [timeouts_goto] at hm
    exact Or.inl hm
  | @clock f _ hf hp now done =>
    have hcleared := clearedTimeouts s f now done
    generalize clearTimeouts s f now done = s₁ at hcleared hm
    cases hcleared with
    | leaves => exact Or.inl hm
    | polls =>
      rw [timeouts_goto] at hm
      exact Or.inl hm
    | fails => exact Or.inl (List.mem_of_mem_tail hm)
    | timesOut he hdue hc hp =>
      rw [timeouts_goto, timeouts_iopTimedout] at hm
      exact Or.inl (List.mem_of_mem_tail hm)
  | poll hf hp a =>
    have hpolled := polled s a
    generalize doPoll s a = s₁ at hpolled hm
    cases hpolled with
    | returns =>
      rw [timeouts_doPollReturns] at hm
      exact Or.inl hm
    | throws => exact Or.inl hm
    | collects =>
      rw [timeouts_goto, timeouts_collect] at hm
      exact Or.inl hm
  | @retry f _ hf g rest hp r =>
    have hretried := retriedNext s g rest r
    generalize retryNext s g rest r = s₁ at hretried hm
    cases hretried with
    | returns =>
      rw [timeouts_doPollReturns] at hm
      exact Or.inl hm
    | fails => exact Or.inl hm
    | @retries id rest c hg hc p hp =>
      rw [timeouts_goto] at hm
      rcases mem_timeouts_tryOrResume hm with hm | ⟨hid, hd⟩
      · exact Or.inl hm
      · exact Or.inr ⟨c, by rw [hid]; exact hc, hd⟩
  | @resumeNext f fs hf rest hp =>
    have hresumed := resumedAllNext s f rest
    generalize resumeAllNext s f rest = s₁ at hresumed hm
    cases hresumed with
    | again =>
      rw [timeouts_goto] at hm
      exact Or.inl hm
    | leaves => exact Or.inl hm
    | resumes =>
      rw [timeouts_goto] at hm
      exact Or.inl hm

end Filed

/-- **Every deadline is one that its completion may have**: those in
`timeouts`, and those that completions have been created with. -/
structure Deadlines (Q : RetrierId → TimePoint → Prop) (s : State) : Prop where
  filed : ∀ x ∈ s.timeouts.entries, Q x.2 x.1
  given : ∀ id c t, s.completions id = some c → c.deadline = some t → Q id t

/-- A completion keeps the deadline it has been created with. -/
theorem Deadlines.step {Q : RetrierId → TimePoint → Prop} {s s' : State} {e : Event}
    (h : Deadlines Q s)
    (hcreate : ∀ call, e = .create call → ∀ t, call.completion.deadline = some t → Q s.next t)
    (hs : step s e = some s') : Deadlines Q s' where
  filed := fun x hm => by
    rcases mem_timeouts_of_step hs hm with hm | ⟨c, hc, hd⟩
    · exact h.filed x hm
    · exact h.given x.2 c x.1 hc hd
  given := fun id c t hc hd => by
    by_cases hi : ∀ call, e = .create call → id ≠ s.next
    · obtain ⟨c₀, hc₀, -, hsame⟩ := same_of_step hs hc hi
      exact h.given id c₀ t hc₀ (hsame ▸ hd)
    · push Not at hi
      obtain ⟨call, rfl, rfl⟩ := hi
      cases (stepped_of_step hs).2 with
      | create hu =>
        rw [← view_completion, view_createIop, if_pos rfl] at hc
        obtain rfl := Option.some.inj hc
        exact hcreate call rfl t hd

/-! ## The readings of a run -/

/-- A reading of the clock in `clear_timeouts`, with the state before it and
after it. -/
structure Reading where
  before : State
  now : TimePoint
  after : State

/-- The reading of a step. -/
def clockReadings (s : State) (e : Event) : List Reading :=
  match e with
  | .clock now _ => (step s e).toList.map (fun s' => ⟨s, now, s'⟩)
  | _ => []

/-- **A reading comes to what it should.** What is returned is `-1` where no
deadline is filed, and otherwise positive and no more milliseconds than there
are to any of them. What is timed out is the first of all, is less than a
millisecond away, and is filed no more when its coroutine runs. -/
structure Reading.Proper (x : Reading) : Prop where
  returns : ∀ v, clearTimeoutsValue x.before x.now = some v →
    (v = -1 ↔ x.before.timeouts.entries = []) ∧
      ∀ e ∈ x.before.timeouts.entries, 1 ≤ v ∧ v * oneMillisecond ≤ e.1 - x.now
  timesOut : clearTimeoutsValue x.before x.now = none →
    ∃ t id l, x.before.timeouts.entries = (t, id) :: l ∧ (∀ e ∈ l, t ≤ e.1)
      ∧ t - x.now < oneMillisecond ∧ x.after.timeouts.entries = l

/-- Every deadline and every reading of the clock is a 64-bit count. -/
def Counts (_ : State) : Event → Prop
  | .create call => ∀ t ∈ call.completion.deadline, IsCount t
  | .clock now _ => IsCount now
  | _ => True

/-- **The first deadline is at a distance that survives the conversions.** -/
def Timely (s : State) : Event → Prop
  | .clock now _ => ∀ x ∈ s.timeouts.entries.head?, InTime (x.1 - now)
  | _ => True

instance : DecidableRel Counts := fun _ e =>
  match e with
  | .create call => inferInstanceAs (Decidable (∀ t ∈ call.completion.deadline, IsCount t))
  | .clock now _ => inferInstanceAs (Decidable (IsCount now))
  | .await _ _ _ | .destroy _ | .asyncResume _ _ | .runUntil _ | .runBatch | .suspend
  | .poll _ | .retry _ | .resumeNext => inferInstanceAs (Decidable True)

instance : DecidableRel Timely := fun s e =>
  match e with
  | .clock now _ =>
    inferInstanceAs (Decidable (∀ x ∈ s.timeouts.entries.head?, InTime (x.1 - now)))
  | .create _ | .await _ _ _ | .destroy _ | .asyncResume _ _ | .runUntil _ | .runBatch
  | .suspend | .poll _ | .retry _ | .resumeNext => inferInstanceAs (Decidable True)

section Readings

variable {s s' : State} {now : TimePoint} {done : Bool}

/-- What is timed out is erased before its coroutine runs. -/
theorem timeouts_of_due (hs : step s (.clock now done) = some s')
    (hnone : clearTimeoutsValue s now = none) :
    s'.timeouts.entries = s.timeouts.entries.tail := by
  unfold clearTimeoutsValue at hnone
  split at hnone
  · exact absurd hnone (by simp)
  · rename_i t id l he
    cases (stepped_of_step hs).2 with
    | @clock f _ hf hp =>
      have hcleared := clearedTimeouts s f now done
      generalize clearTimeouts s f now done = s₁ at hcleared ⊢
      cases hcleared with
      | leaves hkeep => exact absurd hnone (hkeep t id l he)
      | polls hkeep => exact absurd hnone (hkeep t id l he)
      | fails => rfl
      | timesOut he hdue hc hp =>
        rw [timeouts_goto, timeouts_iopTimedout]
        rfl

/-- **When a reading comes to what it should.** -/
theorem proper_iff (hfiled : ∀ x ∈ s.timeouts.entries, IsCount x.1) (hnow : IsCount now)
    (hs : step s (.clock now done) = some s') :
    (Reading.mk s now s').Proper ↔ Timely s (.clock now done) := by
  have hafter := timeouts_of_due hs
  have hsorted := s.timeouts.sorted
  cases he : s.timeouts.entries with
  | nil =>
    refine iff_of_true ⟨fun v hv => ?_, fun hnone => ?_⟩ (by simp [Timely, he])
    · rw [clearTimeoutsValue, he] at hv
      rw [← Option.some.inj hv, he]
      simp
    · rw [clearTimeoutsValue, he] at hnone
      exact absurd hnone (by simp)
  | cons x l =>
    obtain ⟨t, id⟩ := x
    have hvalue : clearTimeoutsValue s now = clearTimeoutsResult t now := by
      rw [clearTimeoutsValue, he]
    rw [he] at hsorted hfiled hafter
    have hcount : IsCount t := hfiled (t, id) List.mem_cons_self
    have hle : ∀ e ∈ l, t ≤ e.1 := (List.pairwise_cons.mp hsorted).1
    have hhead : Timely s (.clock now done) ↔ InTime (t - now) := by simp [Timely, he]
    rw [hhead, ← clearTimeoutsResult_iff hcount hnow]
    constructor
    · intro hproper
      refine ⟨fun v hv => ?_, fun hnone => ?_⟩
      · exact (hproper.returns v (hvalue.trans hv)).2 (t, id) (by
          rw [he]
          exact List.mem_cons_self)
      · obtain ⟨t', id', l', he', -, hdue, -⟩ := hproper.timesOut (hvalue.trans hnone)
        rw [he] at he'
        cases he'
        exact hdue
    · rintro ⟨hreturns, hdue⟩
      refine ⟨fun v hv => ?_, fun hnone => ?_⟩
      · obtain ⟨hpos, hms⟩ := hreturns v (hvalue.symm.trans hv)
        refine ⟨iff_of_false (by omega) (by rw [he]; simp), fun e hm => ⟨hpos, ?_⟩⟩
        rw [he] at hm
        rcases List.mem_cons.mp hm with rfl | hm
        · exact hms
        · exact hms.trans (Int.sub_le_sub_right (hle e hm) now)
      · exact ⟨t, id, l, he, hle, hdue (hvalue.symm.trans hnone),
          hafter hnone⟩

end Readings

theorem deadlines_init (Q : RetrierId → TimePoint → Prop) (w : SocketDescriptor) :
    Deadlines Q (init w) :=
  ⟨fun _ hm => absurd hm List.not_mem_nil, fun _ _ _ hc => absurd hc (by simp [init])⟩

/-- **An IOP is not ended too soon** by the deadline it gets from the time out
`d` when the clock reads `now`: not at a reading from `least` on with more than
a millisecond left of it. -/
def Waits (least now d : Int) : Prop :=
  ∀ w es₁ s₁ call s₂ es₂ s₃ (t : Int) done s₄, Run step always (init w) es₁ s₁ →
    step s₁ (.create call) = some s₂ → call.completion.deadline = some (deadlineFrom now d) →
    Run step always s₂ es₂ s₃ → step s₃ (.clock t done) = some s₄ →
    least ≤ t → t - now < d - oneMillisecond →
    ∀ o, s₄.trace ≠ .resumed s₁.next o :: s₃.trace

/-- **A time out is never premature**: an IOP is not ended too soon, and the
deadline is not before the reading it is computed from. -/
structure NotPremature (now d : Int) : Prop where
  waits : Waits 0 now d
  later : now ≤ deadlineFrom now d

section TimeOut

variable {now d t : Int} {s s' : State} {done : Bool} {id : RetrierId}

/-- **The sum and the difference wrap alike**: the distance of the deadline is
what is left of the time out, if that is a 64-bit count. -/
theorem chronoSub_deadlineFrom (hlt : now + d - t < 2 ^ 63) (hleft : 0 ≤ now + d - t) :
    chronoSub (deadlineFrom now d) t = now + d - t := by
  unfold chronoSub deadlineFrom chronoAdd
  rw [Int.bmod_sub_bmod, Int.bmod_eq_of_le (by omega) (by omega)]

/-- The deadline is not before the reading, unless the sum wraps. -/
theorem le_deadlineFrom_iff (hnow : 0 ≤ now ∧ IsCount now) (hd : 0 ≤ d ∧ IsCount d) :
    now ≤ deadlineFrom now d ↔ now + d < 2 ^ 63 := by
  unfold IsCount at hnow hd
  unfold deadlineFrom chronoAdd
  by_cases h : now + d < 2 ^ 63
  · rw [Int.bmod_eq_of_le (by omega) (by omega)]
    exact iff_of_true (by omega) h
  · rw [← Int.sub_bmod_right, Int.bmod_eq_of_le (by omega) (by omega)]
    exact iff_of_false (by omega) h

/-- A step that reads the clock and resumes a coroutine has found its deadline
to be due. -/
theorem due_of_resumed {o : Outcome} (hs : step s (.clock t done) = some s')
    (htrace : s'.trace = .resumed id o :: s.trace) :
    ∃ D, (D, id) ∈ s.timeouts.entries ∧ clearTimeoutsResult D t = none := by
  cases (stepped_of_step hs).2 with
  | @clock f _ hf hp =>
    have hcleared := clearedTimeouts s f t done
    generalize clearTimeouts s f t done = s₁ at hcleared htrace
    cases hcleared with
    | leaves => exact absurd htrace (by simp [State.leave])
    | polls => exact absurd htrace (by simp [goto_eq])
    | fails => exact absurd htrace (by simp [State.fail])
    | @timesOut D i l c he hdue hc p hp =>
      have hi : i = id := by
        rw [goto_eq] at htrace
        unfold iopTimedout at htrace
        split at htrace
        · have hhead := (List.cons.inj htrace).1
          exact (Obs.resumed.inj hhead).1
        · rw [cancelIop_eq] at htrace
          have hhead := (List.cons.inj htrace).1
          exact (Obs.resumed.inj hhead).1
      exact ⟨D, by rw [he, hi]; exact List.mem_cons_self, hdue⟩

end TimeOut

/-- **An IOP is not ended too soon** where its time out is not longer than a
64-bit count from the first reading on. -/
theorem waits_of_lt {least now d : Int} (hlt : now + d - least < 2 ^ 63) :
    Waits least now d := by
  intro w es₁ s₁ call s₂ es₂ s₃ t done s₄ hrun₁ hcreate hdeadline hrun₂ hs hle hleft o htrace
  have hunused : Unused s₁ :=
    hrun₁.invariant (fun _ _ _ h _ hs => unused_of_step h hs) (unused_init w)
  -- what is filed under the number of the IOP is the one deadline it was given
  let Q : RetrierId → TimePoint → Prop := fun i k => i = s₁.next → k = deadlineFrom now d
  have hbefore : Deadlines Q s₁ := by
    have hcore := hunused s₁.next (le_refl _)
    refine ⟨fun x hm hx => ?_, fun i c k hc _ hi => ?_⟩
    · have hkeys : s₁.timeouts.keysOf s₁.next = [] := congrArg Core.keys hcore
      exact absurd (hx ▸ hm) ((Multimap.keysOf_eq_nil_iff _).mp hkeys x.1)
    · have hnone : s₁.completions s₁.next = none := congrArg Core.completion hcore
      rw [hi, hnone] at hc
      exact absurd hc (by simp)
  have hstart : Deadlines Q s₂ ∧ s₁.next < s₂.next := by
    refine ⟨hbefore.step (fun call' he k hk _ => ?_) hcreate, ?_⟩
    · cases he
      exact Option.some.inj (hk.symm.trans hdeadline)
    · cases (stepped_of_step hcreate).2
      exact Nat.lt_succ_self _
  obtain ⟨hfiled, -⟩ := hrun₂.invariant (P := fun s => Deadlines Q s ∧ s₁.next < s.next)
    (fun s e s' hinv _ hs => ⟨hinv.1.step (fun _ _ _ _ hi => absurd hi (ne_of_gt hinv.2)) hs,
      lt_of_lt_of_le hinv.2 (next_le_of_step hs)⟩) hstart
  obtain ⟨D, hm, hdue⟩ := due_of_resumed hs htrace
  have hD : D = deadlineFrom now d := hfiled.filed (D, s₁.next) hm rfl
  have hms : oneMillisecond = 1000000 := rfl
  rw [hms] at hleft
  rw [clearTimeoutsResult_eq_none_iff, hms, hD,
    chronoSub_deadlineFrom (by omega) (by omega)] at hdue
  omega

/-- **When a time out is never premature**: unless the clock and the time out
add up to more than a 64-bit count. Even then the IOP is not ended too soon, at
readings that are not before the one its deadline is computed from. -/
theorem notPremature_iff (now d : Int) (hnow : 0 ≤ now ∧ IsCount now)
    (hd : 0 ≤ d ∧ IsCount d) :
    (NotPremature now d ↔ now + d < 2 ^ 63) ∧ Waits now now d := by
  refine ⟨⟨fun h => (le_deadlineFrom_iff hnow hd).mp h.later, fun h => ⟨?_, ?_⟩⟩, ?_⟩
  · exact waits_of_lt (by omega)
  · exact (le_deadlineFrom_iff hnow hd).mpr h
  · have hcount := hd.2.2
    exact waits_of_lt (by omega)

/-- A time out of five milliseconds. -/
theorem notPremature_iff_sleep : NotPremature 7 5000000 ∧ Waits 7 7 5000000 :=
  have h := notPremature_iff 7 5000000 (by decide) (by decide)
  ⟨h.1.mpr (by decide), h.2⟩

/-- **A deadline may be in the past.** A coroutine sleeps for the longest time
there is, and another one for five milliseconds: the deadline of the first is
before the clock reading it is computed from, so that it is the first of
`timeouts`, and when the five milliseconds have passed the second coroutine is
not resumed. -/
theorem not_notPremature :
    ¬ NotPremature 7 (2 ^ 63 - 1) ∧ ∃ s, Run step always (init 3)
        [.create (.sleep 7 (2 ^ 63 - 1)), .create (.sleep 7 5000000), .runUntil 1,
          .await 0 2 ⟨0, 0, 0⟩, .await 1 3 ⟨0, 0, 0⟩, .suspend, .clock 9000000 false] s
      ∧ s.stage 1 = .suspended ∧ s.frames.map Frame.point ≠ [.timedOut] := by
  refine ⟨fun h => absurd h.later (by decide), _, run_of_exec rfl, rfl, ?_⟩
  decide

end PollWarden
