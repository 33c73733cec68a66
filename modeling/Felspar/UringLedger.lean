import Felspar.UringView

/-!
# Who deletes a completion

A completion of the uring warden is deleted by its IOP, by the `execute` that
takes its last CQE, or by the destructor of the warden. All of them go by the
three fields of its `delivery`, and `iop_count` is the one that carries the
argument: it is the number of CQEs the kernel still owes for the completion,
and of the calls of `execute` that have taken one and are not through with
it. So a call that is delivering keeps the completion alive, whatever the
coroutine it resumed does – destroy the IOP, or enter the loop again and take
the other CQE there (`View.Kept`).

A completion nothing was queued for keeps the count of one it begins with,
which no CQE will bring down. Its IOP leaves it to the destructor.
-/

namespace UringWarden

/-! ## The runs -/

/-- **Each IOP is awaited at most once, and the warden outlives them all.** -/
def Orderly (s : State) : Event → Prop
  | .await id _ _ _ => s.stage id = .created
  | .close => ∀ i < s.next, s.iops i = false
  | _ => True

instance : DecidableRel Orderly := fun s e =>
  match e with
  | .await id _ _ _ => inferInstanceAs (Decidable (s.stage id = .created))
  | .close => inferInstanceAs (Decidable (∀ i < s.next, s.iops i = false))
  | .create _ | .destroy _ | .asyncResume _ _ _ | .runUntil _ | .runBatch _ | .suspend
  | .condition _ _ | .waitCqe _ _ | .peekCqe _ | .resumeNext => inferInstanceAs (Decidable True)

/-- The SQE of the operation has been queued. -/
def Stage.queued : Stage → Bool
  | .halfQueued | .awaited => true
  | _ => false

/-- **Each IOP is awaited at most once**, but for the times there is no SQE
for it. -/
def AwaitedOnce (s : State) : Event → Prop
  | .await id _ _ _ => (s.stage id).queued = false
  | _ => True

instance : DecidableRel AwaitedOnce := fun s e =>
  match e with
  | .await id _ _ _ => inferInstanceAs (Decidable ((s.stage id).queued = false))
  | .create _ | .destroy _ | .asyncResume _ _ _ | .runUntil _ | .runBatch _ | .suspend
  | .condition _ _ | .waitCqe _ _ | .peekCqe _ | .resumeNext | .close =>
    inferInstanceAs (Decidable True)

theorem Orderly.awaitedOnce {s : State} {e : Event} (h : Orderly s e) : AwaitedOnce s e := by
  cases e with
  | await id a now sqes =>
    show (s.stage id).queued = false
    rw [show s.stage id = .created from h]
    rfl
  | _ => trivial

/-! ## The invariant -/

/-- The observation is of a deletion. -/
def Obs.isDeleted : Obs → Bool
  | .deleted _ => true
  | _ => false

/-- The CQEs the kernel owes. -/
def View.owedCqes (v : View) : ℕ := v.owed .op + v.owed .timer

/-- **A completion is kept as long as somebody will come back for it.** The
`k` counts a call of `execute` that is at work on it, outside of a
`deliver`. -/
structure View.Kept (v : View) (k : ℕ) : Prop where
  /-- Nobody comes back for a completion that does not exist. -/
  gone : v.completion = none →
    v.iop = false ∧ v.owedCqes = 0 ∧ v.held = 0 ∧ v.listed = 0 ∧ k = 0
  /-- `iop_exists` is what it says. -/
  iop : ∀ c, v.completion = some c → c.iopExists = v.iop
  /-- `iop_count` counts who comes back, once something has been queued. -/
  count : ∀ c, v.completion = some c →
    if v.stage.queued then c.iopCount = v.owedCqes + v.held + k
    else c.iopCount = 1 ∧ v.owedCqes = 0 ∧ v.held = 0 ∧ k = 0
  count_le : ∀ c, v.completion = some c → c.iopCount ≤ 2
  /-- Without its IOP it is kept for somebody. -/
  count_pos : ∀ c, v.completion = some c → c.iopExists = false → 0 < c.iopCount
  /-- It is in `outstanding` at most once, and then `is_outstanding` says
  so. -/
  listed : ∀ c, v.completion = some c → v.listed ≤ if c.isOutstanding then 1 else 0
  outstanding : ∀ c, v.completion = some c → c.isOutstanding = !c.iopExists
  /-- It has been deleted once, if it does not exist, and not at all
  otherwise. -/
  deleted : v.log.countP Obs.isDeleted ≤ if v.completion.isNone then 1 else 0

/-- **The ledger of the warden**: every completion is kept as long as
somebody will come back for it. If an `execute` is at work on one outside of
a `deliver`, it is `work`. -/
structure Ledger (s : State) (work : Option DeliveryId) : Prop where
  fresh : ∀ i, s.next ≤ i → s.completions i = none ∧ s.stage i = .created
    ∧ (s.view i).log = []
  view : ∀ i, (s.view i).Kept (if work = some i then 1 else 0)

namespace View.Kept

variable {v : View} {k : ℕ} {c : Completion}

/-- What has to be so of a completion that exists. -/
theorem of_some (hc : v.completion = some c) (hiop : c.iopExists = v.iop)
    (hcount : if v.stage.queued then c.iopCount = v.owedCqes + v.held + k
      else c.iopCount = 1 ∧ v.owedCqes = 0 ∧ v.held = 0 ∧ k = 0)
    (hle : c.iopCount ≤ 2) (hpos : c.iopExists = false → 0 < c.iopCount)
    (hlisted : v.listed ≤ if c.isOutstanding then 1 else 0)
    (hout : c.isOutstanding = !c.iopExists) (hdel : v.log.countP Obs.isDeleted = 0) :
    v.Kept k := by
  have hall : ∀ {P : Completion → Prop}, P c → ∀ c', v.completion = some c' → P c' := by
    intro P hP c' hc'
    obtain rfl := Option.some.inj (hc.symm.trans hc')
    exact hP
  exact ⟨fun hn => absurd (hc.symm.trans hn) (by simp), hall hiop, hall hcount, hall hle,
    hall hpos, hall hlisted, hall hout, by rw [hdel]; exact Nat.zero_le _⟩

/-- What has to be so of a completion that does not exist. -/
theorem of_none (hc : v.completion = none) (hiop : v.iop = false) (howed : v.owedCqes = 0)
    (hheld : v.held = 0) (hlisted : v.listed = 0)
    (hdel : v.log.countP Obs.isDeleted ≤ 1) : v.Kept 0 := by
  have hall : ∀ {P : Completion → Prop}, ∀ c', v.completion = some c' → P c' :=
    fun c' hc' => absurd (hc.symm.trans hc') (by simp)
  exact ⟨fun _ => ⟨hiop, howed, hheld, hlisted, rfl⟩, hall, hall, hall, hall, hall, hall, by
    rw [hc]; exact hdel⟩

/-- Somebody comes back for a completion that exists. -/
theorem exists_completion (h : v.Kept k) (hpos : 0 < v.owedCqes + v.held + k) :
    ∃ c, v.completion = some c := by
  cases hc : v.completion with
  | some c => exact ⟨c, rfl⟩
  | none =>
    obtain ⟨-, ho, hh, -, hk⟩ := h.gone hc
    omega

/-- Something has been queued for a completion somebody comes back for. -/
theorem count_eq (h : v.Kept k) (hc : v.completion = some c)
    (hpos : 0 < v.owedCqes + v.held + k) :
    v.stage.queued = true ∧ c.iopCount = v.owedCqes + v.held + k := by
  have hcount := h.count c hc
  split at hcount
  case isTrue hq => exact ⟨hq, hcount⟩
  case isFalse hq =>
    obtain ⟨-, ho, hh, hk⟩ := hcount
    omega

/-- A completion that exists has not been deleted. -/
theorem deleted_eq_zero (h : v.Kept k) (hc : v.completion = some c) :
    v.log.countP Obs.isDeleted = 0 := by
  have hd := h.deleted
  rw [hc] at hd
  exact Nat.le_zero.mp hd

/-- The log matters for the deletions in it. -/
theorem observed (h : v.Kept k) {o : Obs} (ho : o.isDeleted = false) :
    ({ v with log := o :: v.log } : View).Kept k :=
  ⟨h.gone, h.iop, h.count, h.count_le, h.count_pos, h.listed, h.outstanding, by
    rw [List.countP_cons_of_neg (by simp [ho])]; exact h.deleted⟩

/-- **A CQE is taken**: what the kernel owed, the `execute` that takes it is
at work on. -/
theorem taken {r : Role} (owed : Role → ℕ)
    (h : ({ v with owed := fun r' => owed r' + if r = r' then 1 else 0 } : View).Kept 0) :
    ({ v with owed := owed } : View).Kept 1 := by
  have ho : ({ v with owed := fun r' => owed r' + if r = r' then 1 else 0 } : View).owedCqes
      = ({ v with owed := owed } : View).owedCqes + 1 := by
    cases r <;> simp [View.owedCqes] <;> omega
  have hpos : 0 < ({ v with owed := owed } : View).owedCqes + 1 + v.held + 0 := by omega
  obtain ⟨c, hc⟩ := h.exists_completion (by rw [ho]; exact hpos)
  obtain ⟨hq, hcount⟩ := h.count_eq hc (by rw [ho]; exact hpos)
  refine of_some (c := c) hc (h.iop c hc) ?_ (h.count_le c hc) (h.count_pos c hc)
    (h.listed c hc) (h.outstanding c hc) (h.deleted_eq_zero hc)
  rw [if_pos (show ({ v with owed := owed } : View).stage.queued = true from hq), hcount, ho]
  show _ + 1 + v.held + 0 = _ + v.held + 1
  omega

/-- **A `deliver` begins**: the `execute` is at work in it. -/
theorem held (h : v.Kept 1) (hc : v.completion = some c) (outcome : Outcome) :
    ({ v with
        completion := some { c with result := outcome }
        held := v.held + 1 } : View).Kept 0 := by
  obtain ⟨hq, hcount⟩ := h.count_eq hc (by omega)
  refine of_some (c := { c with result := outcome }) rfl (h.iop c hc) ?_ (h.count_le c hc)
    (h.count_pos c hc) (h.listed c hc) (h.outstanding c hc) (h.deleted_eq_zero hc)
  rw [if_pos (show v.stage.queued = true from hq)]
  show c.iopCount = v.owedCqes + (v.held + 1) + 0
  omega

/-- **A `deliver` is over**: the `execute` is at work outside of it. -/
theorem released {n : ℕ} (h : v.Kept 0) (hn : v.held = n + 1) :
    ({ v with held := n } : View).Kept 1 := by
  obtain ⟨c, hc⟩ := h.exists_completion (by omega)
  obtain ⟨hq, hcount⟩ := h.count_eq hc (by omega)
  refine of_some (c := c) hc (h.iop c hc) ?_ (h.count_le c hc) (h.count_pos c hc)
    (h.listed c hc) (h.outstanding c hc) (h.deleted_eq_zero hc)
  rw [if_pos (show v.stage.queued = true from hq)]
  show c.iopCount = v.owedCqes + n + 1
  omega

theorem sizeDecrement_succ {n : ℕ} (h : n ≤ 1) : sizeDecrement (n + 1) = n := by
  unfold sizeDecrement
  omega

/-- **An `execute` is over**: it deletes the completion if nobody else comes
back for it and its IOP is gone, and counts itself off otherwise. -/
theorem executed (h : v.Kept 1) (hc : v.completion = some c) (i : DeliveryId) :
    (if sizeDecrement c.iopCount = 0 ∧ c.iopExists = false then
        { v with
          completion := none
          listed := if c.isOutstanding then 0 else v.listed
          log := .deleted i :: v.log }
      else
        { v with
          completion := some { c with iopCount := sizeDecrement c.iopCount }
          listed := if c.isOutstanding then 0 else v.listed } : View).Kept 0 := by
  obtain ⟨hq, hcount⟩ := h.count_eq hc (by omega)
  have hle := h.count_le c hc
  have hdec : sizeDecrement c.iopCount = v.owedCqes + v.held := by
    rw [hcount]
    exact sizeDecrement_succ (by omega)
  have hlisted := h.listed c hc
  have hl : (if c.isOutstanding then 0 else v.listed) = 0 := by
    split
    · rfl
    case isFalse ho => rw [if_neg ho] at hlisted; omega
  rw [hdec, hl]
  split
  case isTrue hdel =>
    refine of_none rfl ((h.iop c hc).symm.trans hdel.2) ?_ ?_ rfl ?_
    · show v.owedCqes = 0
      omega
    · show v.held = 0
      omega
    · rw [List.countP_cons, h.deleted_eq_zero hc]
      exact le_refl 1
  case isFalse hkeep =>
    refine of_some (c := { c with iopCount := v.owedCqes + v.held }) rfl (h.iop c hc) ?_ ?_
      (fun hex => Nat.pos_of_ne_zero (fun hz => hkeep ⟨hz, hex⟩)) (Nat.zero_le _)
      (h.outstanding c hc) (h.deleted_eq_zero hc)
    · rw [if_pos (show v.stage.queued = true from hq)]
      rfl
    · show v.owedCqes + v.held ≤ 2
      omega

/-- **The IOP is destructed**: it deletes the completion if nobody comes back
for it, and puts it on the list otherwise. -/
theorem destroyed (h : v.Kept 0) (hi : v.iop = true) (hc : v.completion = some c)
    (i : DeliveryId) :
    (if c.iopCount = 0 then
        { v with
          iop := false
          completion := none
          log := .deleted i :: .destroyed i :: v.log }
      else
        { v with
          iop := false
          completion := some { c with iopExists := false, isOutstanding := true }
          listed := v.listed + 1
          log := .destroyed i :: v.log } : View).Kept 0 := by
  have hex : c.iopExists = true := (h.iop c hc).trans hi
  have hlisted : v.listed = 0 := by
    have hl := h.listed c hc
    rw [h.outstanding c hc, hex] at hl
    simpa using hl
  have hdel := h.deleted_eq_zero hc
  have hcount := h.count c hc
  split
  case isTrue hz =>
    have hnone : v.owedCqes = 0 ∧ v.held = 0 := by split at hcount <;> omega
    refine of_none rfl rfl hnone.1 hnone.2 hlisted ?_
    rw [List.countP_cons, List.countP_cons, hdel]
    exact le_refl 1
  case isFalse hz =>
    refine of_some (c := { c with iopExists := false, isOutstanding := true }) rfl rfl hcount
      (h.count_le c hc) (fun _ => Nat.pos_of_ne_zero hz) ?_ rfl ?_
    · show v.listed + 1 ≤ 1
      omega
    · rw [List.countP_cons, hdel]
      rfl

/-- **The IOP is awaited**, for the first time: as many SQEs are queued as
`iop_count` then says, or none. -/
theorem awaited (h : v.Kept 0) (hs : v.stage.queued = false) (hc : v.completion = some c)
    (c' : Completion) (g : Stage) (owed : Role → ℕ)
    (hsame : c'.iopExists = c.iopExists ∧ c'.isOutstanding = c.isOutstanding)
    (hle : c'.iopCount ≤ 2) (hpos : 0 < c'.iopCount)
    (hcount : if g.queued then c'.iopCount = owed .op + owed .timer
      else c'.iopCount = 1 ∧ owed .op + owed .timer = 0) :
    ({ v with
        completion := some c', stage := g, owed := fun r => v.owed r + owed r } :
      View).Kept 0 := by
  have hold := h.count c hc
  rw [if_neg (by simp [hs])] at hold
  obtain ⟨-, ho, hh, -⟩ := hold
  have howed : v.owed .op + owed .op + (v.owed .timer + owed .timer)
      = owed .op + owed .timer := by
    unfold View.owedCqes at ho
    omega
  refine of_some (c := c') rfl (hsame.1.trans (h.iop c hc)) ?_ hle (fun _ => hpos) ?_ ?_
    (h.deleted_eq_zero hc)
  · show if g.queued = true then c'.iopCount
        = v.owed .op + owed .op + (v.owed .timer + owed .timer) + v.held + 0
      else c'.iopCount = 1 ∧ v.owed .op + owed .op + (v.owed .timer + owed .timer) = 0
        ∧ v.held = 0 ∧ 0 = 0
    rw [howed, hh]
    split at hcount
    case isTrue hq => rw [if_pos hq]; exact hcount
    case isFalse hq => rw [if_neg hq]; exact ⟨hcount.1, hcount.2, rfl, rfl⟩
  · rw [hsame.2]
    exact h.listed c hc
  · rw [hsame.2, hsame.1]
    exact h.outstanding c hc

end View.Kept

/-! ## The operations -/

namespace Ledger

variable {s s' : State} {work work' : Option DeliveryId} {id : DeliveryId}
  {c : Completion}

/-- The completions that exist have been given a number. -/
theorem lt_next (h : Ledger s work) (hc : s.completions id = some c) : id < s.next := by
  by_contra hi
  rw [(h.fresh id (not_lt.mp hi)).1] at hc
  exact absurd hc (by simp)

/-- What an `execute` is at work on exists. -/
theorem exists_working (h : Ledger s (some id)) : ∃ c, s.completions id = some c := by
  have hk := h.view id
  rw [if_pos rfl] at hk
  exact hk.exists_completion (by omega)

/-- Only the views matter. -/
theorem congr (h : Ledger s work) (hnext : s'.next = s.next)
    (hview : ∀ i, s'.view i = s.view i) : Ledger s' work where
  fresh := fun i hi => by
    have hfresh := h.fresh i (hnext ▸ hi)
    have hv := hview i
    rw [hv]
    exact ⟨(congrArg View.completion hv).trans hfresh.1,
      (congrArg View.stage hv).trans hfresh.2.1, hfresh.2.2⟩
  view := fun i => by
    rw [hview i]
    exact h.view i

/-- **An operation on one completion leaves the others kept**, so it is
enough that it keeps the one it is on. -/
theorem of_view (h : Ledger s work) (hid : id < s.next) (hnext : s'.next = s.next)
    (hne : ∀ i, i ≠ id → s'.view i = s.view i)
    (hwork : ∀ i, i ≠ id → (work' = some i ↔ work = some i))
    (hself : (s'.view id).Kept (if work' = some id then 1 else 0)) : Ledger s' work' where
  fresh := fun i hi => by
    rw [hnext] at hi
    have hfresh := h.fresh i hi
    have hv := hne i (ne_of_gt (lt_of_lt_of_le hid hi))
    rw [hv]
    exact ⟨(congrArg View.completion hv).trans hfresh.1,
      (congrArg View.stage hv).trans hfresh.2.1, hfresh.2.2⟩
  view := fun i => by
    by_cases hi : i = id
    · rw [hi]
      exact hself
    · rw [hne i hi]
      simpa only [hwork i hi] using h.view i

theorem kept (h : Ledger s none) (i : DeliveryId) : (s.view i).Kept 0 := h.view i

theorem createIop (h : Ledger s none) (call : Call) : Ledger (createIop s call) none where
  fresh := fun i hi => by
    have hlt : s.next < i := hi
    have hfresh := h.fresh i (le_of_lt hlt)
    have hv := view_createIop s i call
    rw [if_neg (ne_of_gt hlt)] at hv
    rw [hv]
    exact ⟨(congrArg View.completion hv).trans hfresh.1,
      (congrArg View.stage hv).trans hfresh.2.1, hfresh.2.2⟩
  view := fun i => by
    rw [view_createIop]
    split
    case isFalse hi => exact h.view i
    case isTrue hi =>
      subst hi
      obtain ⟨hnone, hs, hlog⟩ := h.fresh s.next (le_refl _)
      obtain ⟨-, ho, hh, hl, -⟩ := (h.kept s.next).gone hnone
      have hcall : call.completion.iopExists = true ∧ call.completion.isOutstanding = false
          ∧ call.completion.iopCount = 1 := by cases call <;> exact ⟨rfl, rfl, rfl⟩
      refine View.Kept.of_some (c := call.completion) rfl hcall.1 ?_ ?_ ?_ ?_ ?_ ?_
      · rw [show (s.view s.next).stage = .created from hs]
        exact ⟨hcall.2.2, ho, hh, rfl⟩
      · rw [hcall.2.2]
        exact Nat.le_succ 1
      · rw [hcall.2.2]
        exact fun _ => Nat.one_pos
      · rw [hcall.2.1]
        exact le_of_eq hl
      · rw [hcall.1, hcall.2.1]
        rfl
      · rw [show (s.view s.next).log = [] from hlog]
        rfl

theorem awaitSuspend (h : Ledger s none) (hc : s.completions id = some c)
    (hs : (s.stage id).queued = false) (a : Handle) (now : TimePoint) (sqes : ℕ) :
    Ledger (awaitSuspend s id c a now sqes) none := by
  have hcount : c.iopCount = 1 := by
    have hk := (h.kept id).count c hc
    rw [if_neg (show ¬ (s.view id).stage.queued = true by simp [hs])] at hk
    exact hk.1
  have hnext : (UringWarden.awaitSuspend s id c a now sqes).next = s.next := by
    rcases awaitSuspend_cases s id c a now sqes _ rfl with
      he | ⟨-, he⟩ | ⟨t, -, he⟩ | ⟨t, -, he⟩ <;> rw [he] <;> rfl
  refine h.of_view (h.lt_next hc) hnext
    (fun i hi => view_awaitSuspend_of_ne s id i c a now sqes hi) (fun _ _ => Iff.rfl) ?_
  rcases awaitSuspend_cases s id c a now sqes _ rfl with
    he | ⟨-, he⟩ | ⟨t, -, he⟩ | ⟨t, -, he⟩
  · rw [he, view_setStage, if_pos rfl, view_setCompletion, if_pos rfl]
    exact (h.kept id).awaited hs hc { c with handle := some a } .refused (fun _ => 0)
      ⟨rfl, rfl⟩ (by simp [hcount]) (by simp [hcount]) ⟨hcount, rfl⟩
  · rw [he, view_observe, if_pos (by rfl)]
    refine View.Kept.observed ?_ rfl
    rw [view_setStage, if_pos rfl, view_push_self _ _ _ rfl, view_setCompletion, if_pos rfl]
    exact (h.kept id).awaited hs hc { c with handle := some a } .awaited
      (fun r => if r = .op then 1 else 0) ⟨rfl, rfl⟩ (by simp [hcount])
      (by simp [hcount]) hcount
  · rw [he, view_observe, if_pos (by rfl)]
    refine View.Kept.observed ?_ rfl
    rw [view_setStage, if_pos rfl, view_setCompletion, if_pos rfl, view_push_self _ _ _ rfl,
      view_push_self _ _ _ rfl, view_setCompletion, if_pos rfl]
    have hk := (h.kept id).awaited hs hc { c with handle := some a, iopCount := 2 } .awaited
      (fun r => (if r = .op then 1 else 0) + if r = .timer then 1 else 0)
      ⟨rfl, rfl⟩ (le_refl 2) (Nat.succ_pos 1) rfl
    simp only [← Nat.add_assoc] at hk
    exact hk
  · rw [he, view_setStage, if_pos rfl, view_push_self _ _ _ rfl, view_setCompletion,
      if_pos rfl]
    exact (h.kept id).awaited hs hc { c with handle := some a } .halfQueued
      (fun r => if r = .op then 1 else 0) ⟨rfl, rfl⟩ (by simp [hcount])
      (by simp [hcount]) hcount

/-- An IOP that exists has a completion. -/
theorem exists_of_iop (h : Ledger s none) (hi : s.iops id = true) :
    ∃ c, s.completions id = some c := by
  cases hc : s.completions id with
  | some c => exact ⟨c, rfl⟩
  | none => exact absurd (((h.kept id).gone hc).1.symm.trans hi) Bool.false_ne_true

theorem iopDestructed (h : Ledger s none) (hi : s.iops id = true) :
    Ledger (iopDestructed s id) none ∧ (iopDestructed s id).fault = s.fault := by
  obtain ⟨c, hc⟩ := h.exists_of_iop hi
  have hshape : (UringWarden.iopDestructed s id).next = s.next
      ∧ (UringWarden.iopDestructed s id).fault = s.fault := by
    unfold UringWarden.iopDestructed
    dsimp only
    rw [show (State.observe { s with iops := fun i => if i = id then false else s.iops i }
      (.destroyed id)).completions id = some c from hc]
    dsimp only
    split <;> exact ⟨rfl, rfl⟩
  refine ⟨h.of_view (h.lt_next hc) hshape.1 (fun i hi => view_iopDestructed_of_ne s id i hi)
    (fun _ _ => Iff.rfl) ?_, hshape.2⟩
  rw [view_iopDestructed_self s id c hc]
  exact (h.kept id).destroyed hi hc id

/-! ## Executing -/

/-- **A CQE is taken**, and the `execute` that takes it is at work. -/
theorem taken (h : Ledger s none) {index : ℕ} {sqe : Sqe}
    (hq : s.inflight[index]? = some sqe) :
    Ledger (s.cqeSeen index) sqe.userData where
  fresh := h.fresh
  view := fun i => by
    have hk := h.kept i
    rw [view_taken s i hq] at hk
    by_cases hu : sqe.userData = some i
    · rw [if_pos hu]
      refine View.Kept.taken (v := (s.cqeSeen index).view i) (r := sqe.role)
        ((s.cqeSeen index).view i).owed ?_
      simpa only [Sqe.isOf, hu, decide_true, Bool.true_and, decide_eq_true_eq] using hk
    · rw [if_neg hu]
      simpa only [Sqe.isOf, hu, decide_false, Bool.false_and, Bool.false_eq_true, if_false,
        Nat.add_zero] using hk

theorem executeEnd (h : Ledger s (some id)) :
    Ledger (executeEnd s id) none ∧ (executeEnd s id).fault = s.fault := by
  obtain ⟨c, hc⟩ := h.exists_working
  have hk := h.view id
  rw [if_pos rfl] at hk
  have hshape : (UringWarden.executeEnd s id).next = s.next
      ∧ (UringWarden.executeEnd s id).fault = s.fault := by
    unfold UringWarden.executeEnd
    rw [show s.completions id = some c from hc]
    dsimp only
    split_ifs <;> exact ⟨rfl, rfl⟩
  refine ⟨h.of_view (h.lt_next hc) hshape.1 (fun i hi => view_executeEnd_of_ne s id i hi)
    (fun i hi => ?_) ?_, hshape.2⟩
  · simp [Ne.symm hi]
  · rw [view_executeEnd_self s id c hc]
    exact hk.executed hc id

/-- **The loop goes on from a `deliver`**, and the `execute` is at work. -/
theorem released (h : Ledger s none) {f : Frame} {fs : List Frame}
    (hf : s.frames = f :: fs) (hp : f.point = .delivering id) :
    Ledger (s.goto .peekCqe) (some id) := by
  have hheld : ∀ i, (s.view i).held = fs.countP (fun f => f.point.holds i)
      + if i = id then 1 else 0 := fun i => by
    rw [held_eq i hf, hp]
    simp [Point.holds, eq_comm]
  have hid : id < s.next := by
    by_contra hn
    have hgone := (h.kept id).gone (h.fresh id (not_lt.mp hn)).1
    have hh := hheld id
    rw [if_pos rfl, hgone.2.2.1] at hh
    omega
  have hgoto : ∀ i, (s.goto .peekCqe).view i
      = { s.view i with held := fs.countP (fun f => f.point.holds i) } := fun i =>
    view_goto i .peekCqe hf
  refine h.of_view hid (by rw [goto_eq]) (fun i hi => ?_) (fun i hi => ?_) ?_
  · rw [hgoto]
    refine View.ext rfl rfl rfl rfl ?_ rfl rfl
    rw [hheld, if_neg hi]
    rfl
  · simp [Ne.symm hi]
  · rw [hgoto, if_pos rfl]
    exact (h.kept id).released (by rw [hheld, if_pos rfl])

theorem goto_idle (h : Ledger s work) {f : Frame} {fs : List Frame}
    (hf : s.frames = f :: fs) (p : Point) (hp : ∀ i, f.point.holds i = p.holds i) :
    Ledger (s.goto p) work :=
  h.congr (by rw [goto_eq]) (fun i => view_goto_idle i p hf (hp i))

theorem leave (h : Ledger s work) {f : Frame} {fs : List Frame} (hf : s.frames = f :: fs)
    (hp : ∀ i, f.point.holds i = false) : Ledger s.leave work :=
  h.congr rfl (fun i => view_leave i hf (hp i))

/-- The log does not matter, but for the deletions in it. -/
theorem observe (h : Ledger s work) (o : Obs) (hid : o.id < s.next)
    (ho : o.isDeleted = false) : Ledger (s.observe o) work := by
  refine h.of_view hid rfl (fun i hi => view_observe_of_ne s i (Ne.symm hi))
    (fun _ _ => Iff.rfl) ?_
  rw [view_observe, if_pos rfl]
  exact (h.view o.id).observed ho

/-- **A `deliver` begins**, from a point of the loop that delivers
nothing. -/
theorem delivering (h : Ledger s (some id)) {f : Frame} {fs : List Frame}
    (hf : s.frames = f :: fs) (hp : ∀ i, f.point.holds i = false)
    (hc : s.completions id = some c) (outcome : Outcome) :
    Ledger (((s.setCompletion id { c with result := outcome }).observe
      (.resumed id outcome)).goto (.delivering id)) none := by
  refine h.of_view (h.lt_next hc) (by rw [goto_eq]; rfl) (fun i hi => ?_) (fun i hi => ?_) ?_
  · rw [view_delivering _ id i _ hf (hp i), if_neg hi]
  · simp [Ne.symm hi]
  · have hbegin := h.view id
    rw [if_pos rfl] at hbegin
    rw [view_delivering _ id id _ hf (hp id), if_pos rfl]
    exact (hbegin.held hc outcome).observed (o := .resumed id outcome) rfl

/-- **A CQE is executed**, from a point of the loop that delivers nothing. -/
theorem execute (h : Ledger s none) {f : Frame} {fs : List Frame} (hf : s.frames = f :: fs)
    (hp : ∀ i, f.point.holds i = false) {index : ℕ} {sqe : Sqe}
    (hq : s.inflight[index]? = some sqe) (result : Int) :
    Ledger (execute (s.cqeSeen index) sqe result) none
      ∧ (execute (s.cqeSeen index) sqe result).fault
        = s.fault := by
  have ht := h.taken hq
  have hexec := executed (s.cqeSeen index) sqe result
  generalize UringWarden.execute (s.cqeSeen index) sqe result = t at hexec ⊢
  cases hexec with
  | nop hu =>
    rw [hu] at ht
    exact ⟨ht.goto_idle hf .peekCqe (fun i => hp i), by rw [goto_eq]; rfl⟩
  | @gone id hu hc =>
    -- a completion that is owed a CQE has not been deleted
    obtain ⟨c, hc'⟩ := (hu ▸ ht).exists_working
    exact absurd (hc.symm.trans hc') (by simp)
  | @ignored id c hu hc hd =>
    rw [hu] at ht
    have ho := ht.observe (.executed id sqe.role result) (ht.lt_next hc) rfl
    have hend := (ho.goto_idle hf .peekCqe (fun i => hp i)).executeEnd
    exact ⟨hend.1, hend.2.trans (by rw [goto_eq]; rfl)⟩
  | @delivered id c outcome hu hc hex hd =>
    rw [hu] at ht
    have ho := ht.observe (.executed id sqe.role result) (ht.lt_next hc) rfl
    exact ⟨ho.delivering (show _ = f :: fs from hf) hp hc outcome, by rw [goto_eq]; rfl⟩

end Ledger

/-- A completion is on the list once at most, and then it exists. -/
theorem Ledger.count_outstanding_le {s : State} (h : Ledger s none) (i : DeliveryId) :
    s.outstanding.count i ≤ 1 ∧ (s.outstanding.count i ≠ 0 → s.completions i ≠ none) := by
  cases hc : s.completions i with
  | none =>
    have hz : s.outstanding.count i = 0 := ((h.kept i).gone hc).2.2.2.1
    exact ⟨by omega, fun hne => absurd hz hne⟩
  | some c =>
    refine ⟨le_trans ((h.kept i).listed c hc) ?_, fun _ => by simp⟩
    split
    · exact le_refl 1
    · exact Nat.zero_le 1

/-! ## The destructor -/

/-- **The destructor deletes what is outstanding**, each completion of the
list once. -/
theorem deleteOutstanding_spec (l : List DeliveryId) (s : State) (hl : l.Nodup)
    (hex : ∀ i ∈ l, s.completions i ≠ none) :
    (deleteOutstanding s l).fault = s.fault ∧
      ∀ i, ((deleteOutstanding s l).view i).log.countP Obs.isDeleted
        = (s.view i).log.countP Obs.isDeleted + if i ∈ l then 1 else 0 := by
  induction l generalizing s with
  | nil => exact ⟨rfl, fun i => rfl⟩
  | cons id l ih =>
    obtain ⟨hid, hl⟩ := List.nodup_cons.mp hl
    obtain ⟨c, hc⟩ := Option.ne_none_iff_exists'.mp (hex id List.mem_cons_self)
    unfold deleteOutstanding
    rw [hc]
    dsimp only
    obtain ⟨hfault, hlog⟩ := ih (s.delete id) hl (fun i hi => by
      have hne : i ≠ id := fun he => hid (he ▸ hi)
      rw [← view_completion, view_delete, if_neg hne]
      exact hex i (List.mem_cons_of_mem _ hi))
    refine ⟨hfault, fun i => ?_⟩
    rw [hlog, view_delete]
    by_cases hi : i = id
    · subst hi
      rw [if_pos rfl, if_neg hid, if_pos List.mem_cons_self, List.countP_cons]
      rfl
    · rw [if_neg hi]
      simp [hi]

/-! ## Every step, and every run -/

/-- **What holds of every state of a run**: nothing has been done to a
completion that must not be, none has been deleted twice, and the ledger is
kept as long as the warden is there. -/
structure Sound (s : State) : Prop where
  fault : s.fault = none
  deleted : ∀ i, (s.view i).log.countP Obs.isDeleted ≤ 1
  ledger : s.closed = false → Ledger s none

/-- A state with a ledger and without a fault is sound. -/
theorem Sound.of_ledger {s : State} (hl : Ledger s none) (hf : s.fault = none) :
    Sound s where
  fault := hf
  deleted := fun i => by
    have hd := (hl.kept i).deleted
    split at hd
    · exact hd
    · exact le_trans hd (Nat.zero_le 1)
  ledger := fun _ => hl

/-- **Every step keeps the ledger**, and the last one closes it. -/
theorem Sound.step {s s' : State} {e : Event} (h : Sound s) (hok : AwaitedOnce s e)
    (hs : step s e = some s') : Sound s' := by
  obtain ⟨hfault, hclosed, hstep⟩ := stepped_of_step hs
  have hl := h.ledger hclosed
  cases hstep with
  | create call => exact Sound.of_ledger (hl.createIop call) hfault
  | @await id c hi hc a now sqes =>
    refine Sound.of_ledger (hl.awaitSuspend hc hok a now sqes) ?_
    rcases awaitSuspend_cases s id c a now sqes _ rfl with
      he | ⟨-, he⟩ | ⟨t, -, he⟩ | ⟨t, -, he⟩ <;> rw [he] <;> exact hfault
  | awaitGone hi hc a now sqes =>
    obtain ⟨c, hc'⟩ := hl.exists_of_iop hi
    exact absurd (hc.symm.trans hc') (by simp)
  | destroy hi =>
    obtain ⟨hl', hf'⟩ := hl.iopDestructed hi
    exact Sound.of_ledger hl' (hf'.trans hfault)
  | asyncResume handles sqeLeft taken =>
    obtain ⟨queue, inflight, he⟩ := doAsyncResume_eq s handles sqeLeft taken
    exact Sound.of_ledger (hl.congr (by rw [he])
      (fun i => view_doAsyncResume s i handles sqeLeft taken)) (by rw [he]; exact hfault)
  | runUntil coro =>
    exact Sound.of_ledger (hl.congr rfl (fun i => view_enter i .coroResume _ rfl)) hfault
  | runBatch taken =>
    have hsubmit : Ledger (s.submit taken) none := hl.congr rfl (fun i => view_submit s i taken)
    exact Sound.of_ledger (hsubmit.congr rfl (fun i => view_enter i .peekCqe none rfl)) hfault
  | @suspend f fs hf p hp =>
    refine Sound.of_ledger (hl.goto_idle hf p (fun i => ?_)) (by rw [goto_eq]; exact hfault)
    cases hfp : f.point <;> rw [hfp] at hp <;> cases hp <;> rfl
  | delivered hf hp =>
    obtain ⟨hl', hf'⟩ := (hl.released hf hp).executeEnd
    exact Sound.of_ledger hl' (hf'.trans (by rw [goto_eq]; exact hfault))
  | close hf =>
    have hcount := hl.count_outstanding_le
    obtain ⟨hf', hlog⟩ := deleteOutstanding_spec s.outstanding s
      (List.nodup_iff_count_le_one.mpr (fun i => (hcount i).1))
      (fun i hi => (hcount i).2 (Nat.ne_of_gt (List.count_pos_iff.mpr hi)))
    refine ⟨hf'.trans hfault, fun i => ?_, fun hc => absurd hc (by simp)⟩
    show ((deleteOutstanding s s.outstanding).view i).log.countP Obs.isDeleted ≤ 1
    rw [hlog]
    split
    case isTrue hi =>
      obtain ⟨c, hc⟩ := Option.ne_none_iff_exists'.mp
        ((hcount i).2 (Nat.ne_of_gt (List.count_pos_iff.mpr hi)))
      rw [(hl.kept i).deleted_eq_zero hc]
    case isFalse hi => exact h.deleted i
  | done hf hp taken =>
    exact Sound.of_ledger (hl.leave hf (fun i => by rw [hp]; rfl)) hfault
  | submit hf hp taken =>
    have hsub : Ledger (s.submit taken) none := hl.congr rfl (fun i => view_submit s i taken)
    exact Sound.of_ledger (hsub.goto_idle hf .waitCqe (fun i => by rw [hp]; rfl))
      (by rw [goto_eq]; exact hfault)
  | interrupted hf hp cqe =>
    exact Sound.of_ledger (hl.goto_idle hf .condition (fun i => by rw [hp]; rfl))
      (by rw [goto_eq]; exact hfault)
  | waitFails hf hp hret hne cqe =>
    exact Sound.of_ledger (hl.leave hf (fun i => by rw [hp]; rfl)) hfault
  | @take f fs hf hp e cqe sqe he hq =>
    obtain ⟨hl', hf'⟩ := hl.execute hf (fun i => by
      rcases hp with hp | hp <;> rw [hp] <;> rfl) hq cqe.res
    exact Sound.of_ledger hl' (hf'.trans hfault)
  | peekNone hf hp =>
    have hswap : Ledger { s with resumer := s.resumer.swap } none :=
      hl.congr rfl (fun _ => rfl)
    exact Sound.of_ledger (hswap.goto_idle hf (.resumeAll s.resumer.queued)
      (fun i => by rw [hp]; rfl)) (by rw [beginResumeAll, goto_eq]; exact hfault)
  | @resumeNext f fs hf rest hp =>
    have hclear : Ledger { s with resumer := s.resumer.clearResuming } none :=
      hl.congr rfl (fun _ => rfl)
    have hresumed := resumedAllNext s f rest
    generalize resumeAllNext s f rest = s₁ at hresumed ⊢
    cases hresumed with
    | again =>
      refine Sound.of_ledger (hclear.goto_idle hf .condition (fun i => by rw [hp]; rfl)) ?_
      rw [goto_eq]
      exact hfault
    | leaves => exact Sound.of_ledger (hclear.leave hf (fun i => by rw [hp]; rfl)) hfault
    | resumes a rest =>
      refine Sound.of_ledger (hl.goto_idle hf (.resumed rest) (fun i => by rw [hp]; rfl)) ?_
      rw [goto_eq]
      exact hfault

theorem sound_init : Sound init :=
  Sound.of_ledger ⟨fun _ _ => ⟨rfl, rfl, rfl⟩, fun _ =>
    View.Kept.of_none rfl rfl rfl rfl rfl (Nat.zero_le 1)⟩ rfl

theorem sound_of_run {es : List Event} {s : State} (h : Run step Orderly init es s) :
    Sound s :=
  h.invariant (fun _ _ _ hs hok he => hs.step hok.awaitedOnce he) sound_init

/-- **A completion is deleted at most once, and not touched afterwards.** -/
theorem deleted_once_of_run {es : List Event} {s : State}
    (h : Run step Orderly init es s) :
    s.fault = none ∧ ∀ id, s.trace.count (.deleted id) ≤ 1 := by
  have hsound := sound_of_run h
  refine ⟨hsound.fault, fun id => le_trans ?_ (hsound.deleted id)⟩
  show s.trace.count (.deleted id) ≤ (s.trace.filter (fun o => o.id = id)).countP Obs.isDeleted
  rw [← List.count_filter (p := fun o => o.id = id) (by simp [Obs.id])]
  exact List.countP_mono_left (fun o _ ho => by rw [eq_of_beq ho]; rfl)

/-- A coroutine destroys the IOP of its read while it is being resumed, with
the CQE of the linked timeout still owed. Another IOP is destroyed before it
has been awaited, and is left to the destructor. -/
theorem deleted_once_of_run_cancel :
    ∃ s, Run step Orderly init
      [.create (.readSome 5 1 (some 7000000)), .create (.accept 6 none), .runUntil 1,
        .await 0 2 0 2, .suspend, .condition false 2, .waitCqe 0 ⟨0, 1⟩, .destroy 0,
        .destroy 1, .suspend, .peekCqe (some ⟨0, -ECANCELED⟩), .peekCqe none, .resumeNext,
        .condition true 0, .close] s
      ∧ s.trace.count (.deleted 0) = 1 ∧ s.trace.count (.deleted 1) = 1
      ∧ s.fault = none ∧ ∀ id, s.trace.count (.deleted id) ≤ 1 := by
  obtain ⟨s, hrun, htest⟩ := exists_run_of_exec step Orderly init
    [.create (.readSome 5 1 (some 7000000)), .create (.accept 6 none), .runUntil 1,
      .await 0 2 0 2, .suspend, .condition false 2, .waitCqe 0 ⟨0, 1⟩, .destroy 0,
      .destroy 1, .suspend, .peekCqe (some ⟨0, -ECANCELED⟩), .peekCqe none, .resumeNext,
      .condition true 0, .close]
    (fun s => s.trace.count (.deleted 0) = 1 ∧ s.trace.count (.deleted 1) = 1)
    (by decide)
  obtain ⟨h0, h1⟩ := of_decide_eq_true htest
  exact ⟨s, hrun, h0, h1, deleted_once_of_run hrun⟩

end UringWarden
