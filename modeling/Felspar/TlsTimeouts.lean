import Felspar.TlsDuplex

/-!
# Timeouts of a TLS operation

`bio_read` takes the bytes out of the network BIO before it awaits
`write_all`, and `write_all` may await any number of writes. When one of them
throws, because of a deadline or for another reason, the exception leaves
`bio_read` and the operation, and the bytes that are still in the buffer are
forgotten: nothing of `impl` says that they are there. The next operation
sends what the network BIO has then, and there is a gap in the stream.

A deadline that expires while `bio_write` waits for the socket does no harm,
since nothing is held then. So the stream is without a gap exactly when no
`write_some` of `write_all` has thrown, or written nothing
(`gapless_iff_of_run`).
-/

namespace Tls

open SharedBuffer

/-! ## How many bytes are lost -/

/-- **As many bytes have been drained as have been sent and are held**, until
a coroutine gives up what it was to write, and more afterwards. -/
structure Counted (s : State) : Prop where
  kept : s.gaveUp = false → s.sent.length + s.unsent.length = s.drained.length
  lost : s.gaveUp = true → s.sent.length + s.unsent.length < s.drained.length

namespace Counted

variable {s s' : State} {e : Event}

/-- As many bytes are drained as come to be held or sent. -/
theorem of_eq (h : Counted s) {n : ℕ} (hup : s'.gaveUp = s.gaveUp)
    (hcount : s'.sent.length + s'.unsent.length = s.sent.length + s.unsent.length + n)
    (hdrained : s'.drained.length = s.drained.length + n) : Counted s' where
  kept := fun hg => by
    have := h.kept (hup ▸ hg)
    omega
  lost := fun hg => by
    have := h.lost (hup ▸ hg)
    omega

/-- Bytes are given up. -/
theorem of_lt (h : Counted s) {n : ℕ} (hn : 0 < n) (hup : s'.gaveUp = true)
    (hcount : s'.sent.length + s'.unsent.length + n = s.sent.length + s.unsent.length)
    (hdrained : s'.drained.length = s.drained.length) : Counted s' where
  kept := fun hg => absurd (hup.symm.trans hg) (by simp)
  lost := fun _ => by
    cases hg : s.gaveUp with
    | false =>
      have := h.kept hg
      omega
    | true =>
      have := h.lost hg
      omega

/-- **Every step keeps the count.** -/
theorem moved (ht : Tracked s) (h : Counted s) (hm : Moved s e s') : Counted s' := by
  cases hm with
  | rest hold hnew hs =>
    obtain ⟨hdrained, hsent, -, -⟩ := hs.bytes
    have hlen := hs.length_unsent ht rfl rfl rfl rfl
    rw [hold.1, hnew.1] at hlen
    refine h.of_eq (n := 0) hs.gaveUp ?_ ?_
    · rw [hsent]
      omega
    · rw [hdrained]
      omega
  | drained hne hold hnew hunfed hs read =>
    obtain ⟨hdrained, hsent, -, -⟩ := hs.bytes
    have hlen := hs.length_unsent ht rfl rfl rfl rfl
    rw [hold.1, hnew] at hlen
    refine h.of_eq (n := s.outgoing.length) hs.gaveUp ?_ ?_
    · rw [hsent]
      simp only at hlen ⊢
      omega
    · rw [hdrained]
      exact List.length_append
  | sent hpos hle hunfed hnew hnew' hs =>
    obtain ⟨hdrained, hsent, -, -⟩ := hs.bytes
    have hlen := hs.length_unsent ht rfl rfl rfl rfl
    rw [hnew] at hlen
    refine h.of_eq (n := 0) hs.gaveUp ?_ ?_
    · rw [hsent, List.length_append, length_slice]
      simp only at hlen
      omega
    · rw [hdrained]
      rfl
  | goesOn he hpos hunfed hnew hnew' hs =>
    obtain ⟨hdrained, hsent, -, -⟩ := hs.bytes
    have hlen := hs.length_unsent ht rfl rfl rfl rfl
    rw [hnew] at hlen
    refine h.of_eq (n := 0) hs.gaveUp ?_ ?_
    · rw [hsent]
      omega
    · rw [hdrained]
      omega
  | @gaveUp _ t _ o he ho hpos hunfed hnew hs =>
    obtain ⟨hdrained, hsent, -, -⟩ := hs.bytes
    have hlen := hs.length_unsent ht rfl rfl rfl rfl
    rw [hnew.1] at hlen
    refine h.of_lt hpos ?_ ?_ ?_
    · rw [hs.gaveUp]
      exact List.any_eq_true.mpr ⟨o, List.mem_cons_self, ho⟩
    · rw [hsent]
      show s.sent.length + _ + _ = _
      omega
    · rw [hdrained]
      rfl
  | received hold hnew hnew' hs =>
    obtain ⟨hdrained, hsent, -, -⟩ := hs.bytes
    have hlen := hs.length_unsent ht rfl rfl rfl rfl
    rw [hold.1, hnew] at hlen
    refine h.of_eq (n := 0) hs.gaveUp ?_ ?_
    · rw [hsent]
      show s.sent.length + _ = _
      omega
    · rw [hdrained]
      rfl
  | fed hpos hold hnew hall hs =>
    obtain ⟨hdrained, hsent, -, -⟩ := hs.bytes
    have hlen := hs.length_unsent ht rfl rfl rfl rfl
    rw [hold, hnew.1] at hlen
    refine h.of_eq (n := 0) hs.gaveUp ?_ ?_
    · rw [hsent]
      show s.sent.length + _ = _
      omega
    · rw [hdrained]
      rfl

end Counted

/-! ## One operation at a time -/

/-- **The operations follow one another.** -/
def OneAtATime (s : State) (e : Event) : Prop :=
  ReadsAll s e ∧ match e with
    | .call _ _ _ => s.active = []
    | _ => True

instance : DecidableRel OneAtATime := fun s e =>
  match e with
  | .call c op socket =>
    inferInstanceAs (Decidable (ReadsAll s (.call c op socket) ∧ s.active = []))
  | .ssl c result error consumed produced =>
    inferInstanceAs (Decidable (ReadsAll s (.ssl c result error consumed produced) ∧ True))
  | .bioRead c read => inferInstanceAs (Decidable (ReadsAll s (.bioRead c read) ∧ True))
  | .write c n => inferInstanceAs (Decidable (ReadsAll s (.write c n) ∧ True))
  | .read c bytes => inferInstanceAs (Decidable (ReadsAll s (.read c bytes) ∧ True))
  | .resume c written => inferInstanceAs (Decidable (ReadsAll s (.resume c written) ∧ True))
  | .throw c outcome => inferInstanceAs (Decidable (ReadsAll s (.throw c outcome) ∧ True))

/-- At most one coroutine is in an operation. -/
def Alone (s : State) : Prop := ∀ a ∈ s.active, ∀ b ∈ s.active, a = b

section Alone

variable {s s' : State} {e : Event} {c : CoroId}

/-- One that holds bytes to be sent is in an operation. -/
theorem active_of_draining (h : Tracked s) (hc : c ∈ s.draining) : c ∈ s.active := by
  by_contra hn
  exact Nat.ne_of_gt ((h.draining c).mp hc) (empty_of_not_active h hn).1

theorem active_of_feeding (h : Tracked s) (hc : c ∈ s.feeding) : c ∈ s.active := by
  by_contra hn
  exact Nat.ne_of_gt ((h.feeding c).mp hc) (empty_of_not_active h hn).2

/-- **The one in an operation that holds nothing** has the buffer to
itself. -/
theorem free_of_alone (h : Tracked s) (ha : Alone s) (hc : c ∈ s.active) (hold : s.Empty c)
    (n : ℕ) : s.Free n := by
  refine ⟨List.eq_nil_iff_forall_not_mem.mpr (fun a hm => ?_), fun a hm => ?_⟩
  · have hpos := (h.feeding a).mp hm
    rw [ha a (active_of_feeding h hm) c hc, hold.2] at hpos
    exact absurd hpos (Nat.lt_irrefl 0)
  · have hpos := (h.draining a).mp hm
    rw [ha a (active_of_draining h hm) c hc, hold.1] at hpos
    exact absurd hpos (Nat.lt_irrefl 0)

/-- It is the first of those that have drained bytes, if it holds some. -/
theorem head_of_alone (h : Tracked s) (ha : Alone s) (hc : c ∈ s.draining) :
    s.draining.head? = some c := by
  cases hd : s.draining with
  | nil =>
    rw [hd] at hc
    exact absurd hc (by simp)
  | cons a l =>
    have hm : a ∈ s.draining := by rw [hd]; exact List.mem_cons_self
    rw [ha a (active_of_draining h hm) c (active_of_draining h hc)]
    rfl

/-- A step is one of a coroutine in an operation, or calls one. -/
theorem active_of_step (h : Tracked s) (hs : step s e = some s') :
    e.coro ∈ s.active ∨ ∃ c op socket, e = .call c op socket := by
  cases stepped_of_step hs with
  | @call c hc op hop socket => exact Or.inr ⟨c, op, socket, rfl⟩
  | ssl ht hp => exact Or.inl ((h.active _).mpr ⟨_, ht, by rw [hp]; rfl⟩)
  | bioRead ht hp => exact Or.inl ((h.active _).mpr ⟨_, ht, by rw [hp]; rfl⟩)
  | write ht hp => exact Or.inl ((h.active _).mpr ⟨_, ht, by rw [hp]; rfl⟩)
  | read ht hp => exact Or.inl ((h.active _).mpr ⟨_, ht, by rw [hp]; rfl⟩)
  | connected ht hp => exact Or.inl ((h.active _).mpr ⟨_, ht, by rw [hp]; rfl⟩)
  | wrote ht hp => exact Or.inl ((h.active _).mpr ⟨_, ht, by rw [hp]; rfl⟩)
  | received ht hp => exact Or.inl ((h.active _).mpr ⟨_, ht, by rw [hp]; rfl⟩)
  | connectThrew ht hp => exact Or.inl ((h.active _).mpr ⟨_, ht, by rw [hp]; rfl⟩)
  | writeThrew ht hp => exact Or.inl ((h.active _).mpr ⟨_, ht, by rw [hp]; rfl⟩)
  | readThrew ht hp => exact Or.inl ((h.active _).mpr ⟨_, ht, by rw [hp]; rfl⟩)

/-- Only the coroutine a step is about may come to be in an operation. -/
theorem mem_active_of_moved (hm : Moved s e s') (hc : c ∈ s'.active) :
    c ∈ s.active ∨ c = e.coro := by
  cases hm with
  | rest hold hnew hs => exact hs.mem_active hc
  | drained hne hold hnew hunfed hs read => exact hs.mem_active hc
  | sent hpos hle hunfed hnew hnew' hs => exact hs.mem_active hc
  | goesOn he hpos hunfed hnew hnew' hs => exact hs.mem_active hc
  | gaveUp he ho hpos hunfed hnew hs => exact hs.mem_active hc
  | received hold hnew hnew' hs => exact hs.mem_active hc
  | fed hpos hold hnew hall hs => exact hs.mem_active hc

/-- Operations that follow one another stay alone. -/
theorem alone_of_step (ht : Tracked s) (ha : Alone s) (hok : OneAtATime s e)
    (hs : step s e = some s') : Alone s' := by
  have hm := moved_of_step ht hok.1 hs
  intro a hma b hmb
  -- the coroutine of the step was in an operation before, or it calls one, and then
  -- no other is in one
  rcases active_of_step ht hs with hc | ⟨c, op, socket, rfl⟩
  · have hin : ∀ x ∈ s'.active, x ∈ s.active := fun x hx => by
      rcases mem_active_of_moved hm hx with h | rfl
      · exact h
      · exact hc
    exact ha a (hin a hma) b (hin b hmb)
  · have hnil : s.active = [] := hok.2
    have honly : ∀ x ∈ s'.active, x = c := fun x hx => by
      rcases mem_active_of_moved hm hx with h | h
      · rw [hnil] at h
        exact absurd h (by simp)
      · exact h
    rw [honly a hma, honly b hmb]

/-- **One that is alone uses the buffer exclusively.** -/
theorem exclusive_of_alone (ht : Tracked s) (ha : Alone s) (hs : step s e = some s') :
    Exclusive s e := by
  cases stepped_of_step hs with
  | @bioRead c t htask want hp read hread =>
    have hc : c ∈ s.active := (ht.active c).mpr ⟨t, htask, by rw [hp]; rfl⟩
    exact fun _ => free_of_alone ht ha hc (empty_of_point htask hp ⟨rfl, rfl⟩) _
  | @read c t htask hp bytes hle =>
    have hc : c ∈ s.active := (ht.active c).mpr ⟨t, htask, by rw [hp]; rfl⟩
    exact fun _ => free_of_alone ht ha hc (empty_of_point htask hp ⟨rfl, rfl⟩) _
  | @write c t htask span want hp n le =>
    refine fun _ => head_of_alone ht ha ((ht.draining c).mpr ?_)
    rw [span_eq htask hp]
    exact span.pos
  | _ => trivial

end Alone

/-! ## Giving up -/

section GivingUp

variable {s s' : State} {e : Event}

/-- A coroutine that holds nothing to be sent has nothing to give up. -/
theorem not_givesUp_of_eq_zero (h : Tracked s) (hold : (s.span e.coro).2 = 0) :
    ¬ GivesUp s e := by
  intro hup
  cases e with
  | throw c outcome => exact Nat.ne_of_gt ((h.draining c).mp hup) hold
  | resume c written =>
    obtain ⟨t, ht, hp⟩ := (Option.any_eq_true _ _).mp hup
    cases hpoint : t.point with
    | wrote span n le want =>
      have hspan : (s.span c).2 = span.len - n := by rw [span_eq ht hpoint]; rfl
      have hn : n = 0 := by simpa [hpoint, Point.wroteNothing] using hp
      have hpos := span.pos
      have hold : (s.span c).2 = 0 := hold
      omega
    | _ => rw [hpoint] at hp; exact absurd hp (by simp [Point.wroteNothing])
  | _ => exact hup

/-- **It is recorded that a step gives up**, and nothing else is. -/
theorem gaveUp_of_moved (h : Tracked s) (hm : Moved s e s') :
    s'.gaveUp = true ↔ s.gaveUp = true ∨ GivesUp s e := by
  cases hm with
  | rest hold hnew hs =>
    rw [hs.gaveUp]
    exact (or_iff_left (not_givesUp_of_eq_zero h hold.1)).symm
  | drained hne hold hnew hunfed hs read =>
    rw [hs.gaveUp]
    exact (or_iff_left id).symm
  | sent hpos hle hunfed hnew hnew' hs =>
    rw [hs.gaveUp]
    exact (or_iff_left id).symm
  | goesOn he hpos hunfed hnew hnew' hs =>
    rw [hs.gaveUp]
    exact (or_iff_left he).symm
  | @gaveUp _ t _ o he ho hpos hunfed hnew hs =>
    rw [hs.gaveUp]
    exact iff_of_true (List.any_eq_true.mpr ⟨o, List.mem_cons_self, ho⟩) (Or.inr he)
  | received hold hnew hnew' hs =>
    rw [hs.gaveUp]
    exact (or_iff_left id).symm
  | fed hpos hold hnew hall hs =>
    rw [hs.gaveUp]
    exact (or_iff_left (not_givesUp_of_eq_zero (e := .resume _ _) h hold)).symm

end GivingUp

/-! ## Every run -/

/-- **The count, in every run**, whatever coroutines use the connection. -/
theorem counted_of_run {es : List Event} {s : State} (h : Run step ReadsAll init es s) :
    Tracked s ∧ Counted s :=
  h.invariant (P := fun s => Tracked s ∧ Counted s)
    (fun _ _ _ hs hok he =>
      have hm := moved_of_step hs.1 hok he
      ⟨hs.1.moved hm, hs.2.moved hs.1 hm⟩)
    ⟨tracked_init, fun _ => rfl, fun hg => absurd hg (by decide)⟩

/-- **One operation at a time**, at most one coroutine is in one, and the bytes
are in order as long as no coroutine has given up. -/
theorem alone_of_run {es : List Event} {s : State} (h : Run step OneAtATime init es s) :
    Tracked s ∧ Alone s ∧ (s.gaveUp = false → s.sent ++ s.unsent = s.drained) :=
  h.invariant
    (P := fun s => Tracked s ∧ Alone s ∧ (s.gaveUp = false → s.sent ++ s.unsent = s.drained))
    (fun s e s' hs hok he => by
      obtain ⟨ht, ha, hsent⟩ := hs
      have hm := moved_of_step ht hok.1 he
      refine ⟨ht.moved hm, alone_of_step ht ha hok he, fun hg => ?_⟩
      have hnot : ¬ (s.gaveUp = true ∨ GivesUp s e) := by
        rw [← gaveUp_of_moved ht hm, hg]
        exact Bool.false_ne_true
      have hg : s.gaveUp = false := Bool.eq_false_iff.mpr (fun hx => hnot (Or.inl hx))
      exact sent_of_moved ht (hsent hg) (exclusive_of_alone ht ha he)
        (fun hx => hnot (Or.inr hx)) hm)
    ⟨tracked_init, fun a hm => absurd hm (by simp [init]), fun _ => rfl⟩

/-- As many bytes have been drained as have been sent and are held exactly when
no coroutine has given up. -/
theorem counted_iff_of_run {es : List Event} {s : State} (h : Run step ReadsAll init es s) :
    s.sent.length + s.unsent.length = s.drained.length ↔ s.gaveUp = false := by
  obtain ⟨-, hkept, hlost⟩ := counted_of_run h
  refine ⟨fun heq => Bool.eq_false_iff.mpr (fun hg => ?_), hkept⟩
  have := hlost hg
  omega

/-- One operation at a time, so it is of the bytes. -/
theorem sent_iff_of_run {es : List Event} {s : State} (h : Run step OneAtATime init es s) :
    s.sent ++ s.unsent = s.drained ↔ s.gaveUp = false := by
  refine ⟨fun heq => (counted_iff_of_run (h.mono (fun _ _ hok => hok.1))).mp ?_,
    (alone_of_run h).2.2⟩
  rw [← heq, List.length_append]

/-- **The stream has no gap exactly when no coroutine has given up what it was
to write.** In every run, whatever coroutines use the connection, that is so
of the number of bytes. When the operations follow one another it is so of the
bytes themselves; and an await that throws, because of a deadline or for
another reason, leaves a gap exactly when it is one of `write_all`. -/
theorem gapless_iff_of_run (es : List Event) (s : State) :
    (Run step ReadsAll init es s →
      (s.sent.length + s.unsent.length = s.drained.length ↔ s.gaveUp = false)) ∧
    (Run step OneAtATime init es s →
      (s.sent ++ s.unsent = s.drained ↔ s.gaveUp = false)) ∧
    (Run step OneAtATime init es s → s.gaveUp = false →
      ∀ c outcome s', step s (.throw c outcome) = some s' →
        (s'.sent ++ s'.unsent = s'.drained ↔ c ∉ s.draining)) := by
  refine ⟨counted_iff_of_run, sent_iff_of_run, fun h hg c outcome s' hs => ?_⟩
  have ht := (counted_of_run (h.mono (fun _ _ hok => hok.1))).1
  have hok : OneAtATime s (.throw c outcome) := ⟨trivial, trivial⟩
  have hm := moved_of_step ht hok.1 hs
  rw [sent_iff_of_run (h.append (Run.single hok hs)), Bool.eq_false_iff, Ne,
    gaveUp_of_moved ht hm, hg]
  simp [GivesUp]

/-- The outcome of a deadline that expires. -/
def timedOut : Outcome := Outcome.ofError Outcome.timeoutError "IOP timed out"

/-- The deadline of a write expires while OpenSSL waits for the peer, when
everything drained has been sent. -/
theorem gapless_iff_of_run_readTimesOut :
    ∃ s s', Run step OneAtATime init (halfWritten ++ [.write 1 2, .resume 1 0]) s ∧
      step s (.throw 1 timedOut) = some s' ∧ s'.sent ++ s'.unsent = s'.drained := by
  obtain ⟨s, hrun, htest⟩ := exists_run_of_exec step OneAtATime init
    (halfWritten ++ [.write 1 2, .resume 1 0])
    (fun s => s.gaveUp = false ∧ (step s (.throw 1 timedOut)).isSome = true
      ∧ 1 ∉ s.draining) (by decide)
  obtain ⟨hg, hsome, hnot⟩ := of_decide_eq_true htest
  obtain ⟨s', hs⟩ := Option.isSome_iff_exists.mp hsome
  exact ⟨s, s', hrun, hs, ((gapless_iff_of_run _ s).2.2 hrun hg 1 timedOut s' hs).mpr hnot⟩

/-- The deadline of a write expires when the socket has taken one byte of
three. The next operation sends its bytes, and the other two are missing. -/
theorem gap_after_timeout :
    ¬ ∀ es s, Run step OneAtATime init es s → s.sent <+: s.drained := by
  intro h
  obtain ⟨s, hrun, htest⟩ := exists_run_of_exec step OneAtATime init
    (halfWritten ++ [.throw 1 timedOut, .call 1 (.writeSome 1) none,
      .ssl 1 (-1) SSL_ERROR_WANT_READ 0 [4, 5], .bioRead 1 2, .write 1 2])
    (fun s => s.sent = [1, 4, 5] ∧ s.drained = [1, 2, 3, 4, 5]) (by decide)
  obtain ⟨hsent, hdrained⟩ := of_decide_eq_true htest
  have hprefix := h _ s hrun
  rw [hsent, hdrained] at hprefix
  exact absurd hprefix (by decide)

end Tls
