import Felspar.Tls

/-!
# When a TLS connection is established

`tls::connect` calls `SSL_connect` through `service_operation` and ignores
what that returns. But `service_operation` returns in three ways: with the
result of the operation, when `SSL_get_error` reports no error; with zero,
when the socket is at the end of the stream; and with zero, when OpenSSL
reports that the peer has closed the connection. Only the first of them means
that there is one.

So a peer that closes during the handshake makes `tls::connect` return a
`tls`. It does what it should exactly when the peer has not done so
(`connect_sound_iff_of_run`).
-/

namespace Tls

/-! ## Tasks

A step sets the task of one coroutine. -/

section SetTask

variable (s : State) (c : CoroId) (t : Task) (p : Point)

@[simp] theorem tasks_setTask :
    (s.setTask c t).tasks = Function.update s.tasks c (some t) := rfl

@[simp] theorem tasks_runAt :
    (s.runAt c t p).tasks = Function.update s.tasks c (some { t with point := p }) := rfl

@[simp] theorem tasks_stopAt :
    (s.stopAt c t p).tasks = Function.update s.tasks c (some { t with point := p }) := rfl

end SetTask

/-- The state after differs in the task of `c`, which now satisfies `P`. -/
def SetsTask (P : Task → Prop) (s : State) (c : CoroId) (s' : State) : Prop :=
  ∃ t', s'.tasks = Function.update s.tasks c (some t') ∧ P t'

/-- **The rule for invariants of each task**: a step that sets one task to
one that has the property keeps it of all of them. -/
theorem SetsTask.all {P : Task → Prop} {s s' : State} {c : CoroId}
    (h : SetsTask P s c s') (hs : ∀ c t, s.tasks c = some t → P t) :
    ∀ c t, s'.tasks c = some t → P t := by
  obtain ⟨t', ht', hP⟩ := h
  intro a t ht
  rw [ht'] at ht
  by_cases ha : a = c
  · rw [ha, Function.update_self] at ht
    exact Option.some.inj ht ▸ hP
  · rw [Function.update_of_ne ha] at ht
    exact hs a t ht

/-! ## What a connect has been told -/

/-- The answer says that the peer has closed the connection: the end of the
stream, or a close alert. -/
def Answer.closes : Answer → Bool
  | .ssl _ error => error = SSL_ERROR_ZERO_RETURN
  | .read n => n = 0

/-- The operation has returned, and not thrown. -/
def returnedValue (r : Except Exception Result) : Prop := ∃ v, r = .ok v

/-- **What a task has been told.** While an operation is in progress the peer
has not closed, and OpenSSL has not succeeded; a connect that has ended
returned a value although OpenSSL had not succeeded exactly when the peer had
closed. -/
structure Task.Handshake (t : Task) : Prop where
  inProgress : t.point.inProgress = true →
    t.answers.any Answer.closes = false ∧ lastError t.answers ≠ some SSL_ERROR_NONE
  returned : ∀ r, t.point = .returned r → t.op = .connect →
    ((returnedValue r → lastError t.answers = some SSL_ERROR_NONE)
      ↔ t.answers.any Answer.closes = false)

section Handshake

variable {s : State} {c : CoroId} {t : Task}

/-- An operation goes on. -/
theorem Task.Handshake.at_inProgress {p : Point} (hp : p.inProgress = true)
    (hc : t.answers.any Answer.closes = false)
    (hl : lastError t.answers ≠ some SSL_ERROR_NONE) :
    Task.Handshake { t with point := p } :=
  ⟨fun _ => ⟨hc, hl⟩, fun r hr => by
    have hr : p = .returned r := hr
    rw [hr] at hp
    exact absurd hp (by simp [Point.inProgress])⟩

/-- It throws, and the peer has not closed. -/
theorem setsTask_throwException (e : Exception)
    (hc : t.answers.any Answer.closes = false) :
    SetsTask Task.Handshake s c (throwException s c t e) := by
  refine ⟨_, rfl, fun h => absurd h (by simp [Point.inProgress]), fun r hr _ => ?_⟩
  obtain rfl : Except.error e = r := Point.returned.inj hr
  exact iff_of_true (fun ⟨v, hv⟩ => absurd hv (by simp)) hc

/-- It returns. -/
theorem setsTask_coReturn (ret : Int)
    (h : lastError t.answers = some SSL_ERROR_NONE ↔ t.answers.any Answer.closes = false) :
    SetsTask Task.Handshake s c (coReturn s c t ret) := by
  refine ⟨{ t with point := .returned (t.op.returns ((lastError t.answers).getD
    SSL_ERROR_NONE) ret) }, ?_, fun hi => absurd hi (by simp [Point.inProgress]), ?_⟩
  · unfold coReturn
    dsimp only
    split <;> rfl
  · intro r hr hop
    have hop : t.op = .connect := hop
    have hr := Point.returned.inj hr
    rw [hop] at hr
    subst hr
    exact ⟨fun hv => h.mp (hv ⟨.tls, rfl⟩), fun hc _ => h.mpr hc⟩

theorem setsTask_bioReadReturns {want : Want} (hc : t.answers.any Answer.closes = false)
    (hl : lastError t.answers ≠ some SSL_ERROR_NONE) :
    SetsTask Task.Handshake s c (bioReadReturns s c t want) := by
  cases want with
  | read => exact ⟨_, rfl, Task.Handshake.at_inProgress rfl hc hl⟩
  | write => exact ⟨_, rfl, Task.Handshake.at_inProgress rfl hc hl⟩

theorem setsTask_writeAll {want : Want} {off len : ℕ} {fits : off + len ≤ bufferSize}
    (hc : t.answers.any Answer.closes = false)
    (hl : lastError t.answers ≠ some SSL_ERROR_NONE) :
    SetsTask Task.Handshake s c (writeAll s c t want off len fits) := by
  unfold writeAll
  split
  · exact ⟨_, rfl, Task.Handshake.at_inProgress rfl hc hl⟩
  · exact setsTask_bioReadReturns hc hl

theorem setsTask_bioRead {want : Want} {read : Int}
    (hc : t.answers.any Answer.closes = false)
    (hl : lastError t.answers ≠ some SSL_ERROR_NONE) :
    SetsTask Task.Handshake s c (bioRead s c t want read) := by
  unfold bioRead
  split
  · exact setsTask_throwException _ hc
  · split
    · exact setsTask_bioReadReturns hc hl
    · split
      · exact setsTask_throwException _ hc
      · split
        · exact setsTask_throwException _ hc
        · exact setsTask_writeAll hc hl

/-- **A round of the loop.** Of the five ways on, only one returns although
the peer has closed. -/
theorem setsTask_serviceOperation {result error : Int}
    (hc : t.answers.any Answer.closes = false) :
    SetsTask Task.Handshake s c (serviceOperation s c t result error) := by
  have hcons : error ≠ SSL_ERROR_ZERO_RETURN →
      (Answer.ssl result error :: t.answers).any Answer.closes = false := fun hz => by
    simp [Answer.closes, hz, hc]
  unfold serviceOperation
  dsimp only
  by_cases hnone : error = SSL_ERROR_NONE
  · subst hnone
    exact setsTask_coReturn _ (iff_of_true rfl (hcons (by decide)))
  · rw [if_neg hnone]
    have hlast : lastError (.ssl result error :: t.answers) ≠ some SSL_ERROR_NONE :=
      fun he => hnone (Option.some.inj he)
    by_cases hread : error = SSL_ERROR_WANT_READ
    · subst hread
      exact ⟨_, rfl, Task.Handshake.at_inProgress rfl (hcons (by decide)) hlast⟩
    · rw [if_neg hread]
      by_cases hwrite : error = SSL_ERROR_WANT_WRITE
      · subst hwrite
        exact ⟨_, rfl, Task.Handshake.at_inProgress rfl (hcons (by decide)) hlast⟩
      · rw [if_neg hwrite]
        by_cases hzero : error = SSL_ERROR_ZERO_RETURN
        · subst hzero
          exact setsTask_coReturn _ (iff_of_false hlast (by simp [Answer.closes]))
        · rw [if_neg hzero]
          exact setsTask_throwException _ (hcons hzero)

/-- **The end of `bio_write`.** At the end of the stream it returns, and the
peer has closed. -/
theorem setsTask_bioWrite {n : ℕ} {written : Int}
    (hc : t.answers.any Answer.closes = false)
    (hl : lastError t.answers ≠ some SSL_ERROR_NONE) :
    SetsTask Task.Handshake s c (bioWrite s c t n written) := by
  unfold bioWrite
  dsimp only
  by_cases hn : n = 0
  · subst hn
    exact setsTask_coReturn _ (iff_of_false hl (by simp [Answer.closes]))
  · rw [if_neg hn]
    have hcons : (Answer.read n :: t.answers).any Answer.closes = false := by
      simp [Answer.closes, hn, hc]
    split
    · exact setsTask_throwException _ hcons
    · split
      · exact setsTask_throwException _ hcons
      · exact ⟨_, rfl, Task.Handshake.at_inProgress rfl hcons hl⟩

/-- A coroutine is resumed by a step when its operation is in progress. -/
theorem Task.Handshake.answers (h : t.Handshake) {p : Point} (hp : t.point = p)
    (hi : p.inProgress = true) :
    t.answers.any Answer.closes = false ∧ lastError t.answers ≠ some SSL_ERROR_NONE :=
  h.inProgress (by rw [hp]; exact hi)

/-- Every step keeps what the tasks have been told. -/
theorem handshake_step {s' : State} {e : Event} (hs : ∀ c t, s.tasks c = some t → t.Handshake)
    (h : step s e = some s') : ∀ c t, s'.tasks c = some t → t.Handshake := by
  cases stepped_of_step h with
  | @call c hc op hop socket =>
    refine SetsTask.all (c := c) ?_ hs
    unfold call
    cases op with
    | connect =>
      cases socket with
      | none => exact ⟨_, rfl, Task.Handshake.at_inProgress rfl rfl (by simp [lastError])⟩
      | some e => exact setsTask_throwException (s := { s with phase := .connecting }) e rfl
    | readSome size => exact ⟨_, rfl, Task.Handshake.at_inProgress rfl rfl (by simp [lastError])⟩
    | writeSome size => exact ⟨_, rfl, Task.Handshake.at_inProgress rfl rfl (by simp [lastError])⟩
  | @ssl c t ht hp result error consumed produced =>
    exact SetsTask.all (s := sslTransfer s consumed produced)
      (setsTask_serviceOperation ((hs c t ht).answers hp rfl).1) hs
  | @bioRead c t ht want hp read hread =>
    obtain ⟨hc, hl⟩ := (hs c t ht).answers hp rfl
    exact (setsTask_bioRead hc hl).all hs
  | @write c t ht span want hp n le =>
    obtain ⟨hc, hl⟩ := (hs c t ht).answers hp rfl
    refine SetsTask.all (c := c) ⟨_, rfl, ?_⟩ hs
    exact Task.Handshake.at_inProgress rfl hc hl
  | @read c t ht hp bytes hle =>
    obtain ⟨hc, hl⟩ := (hs c t ht).answers hp rfl
    refine SetsTask.all (c := c) ⟨_, rfl, ?_⟩ hs
    exact Task.Handshake.at_inProgress rfl hc hl
  | @connected c t ht hp written =>
    obtain ⟨hc, hl⟩ := (hs c t ht).answers hp rfl
    exact SetsTask.all ⟨_, rfl, Task.Handshake.at_inProgress rfl hc hl⟩ hs
  | @wrote c t ht span n le want hp written =>
    obtain ⟨hc, hl⟩ := (hs c t ht).answers hp rfl
    refine SetsTask.all (c := c) ?_ hs
    unfold writeSomeReturns
    split
    · exact setsTask_bioReadReturns (s := s.observe (.wroteNothing c)) hc hl
    · exact setsTask_writeAll hc hl
  | @received c t ht n hp written hle =>
    obtain ⟨hc, hl⟩ := (hs c t ht).answers hp rfl
    exact (setsTask_bioWrite hc hl).all hs
  | @connectThrew c t ht hp outcome =>
    exact (setsTask_throwException _ ((hs c t ht).answers hp rfl).1).all hs
  | @writeThrew c t ht span want hp outcome =>
    exact SetsTask.all (s := s.observe (.writeThrew c outcome))
      (setsTask_throwException _ ((hs c t ht).answers hp rfl).1) hs
  | @readThrew c t ht hp outcome =>
    exact SetsTask.all (s := s.observe (.readThrew c outcome))
      (setsTask_throwException _ ((hs c t ht).answers hp rfl).1) hs

end Handshake

/-! ## Every run -/

/-- **`tls::connect` returns a `tls` only if its last `SSL_connect` succeeded,
exactly when the peer did not close the connection before that.** -/
theorem connect_sound_iff_of_run {es : List Event} {s : State}
    (h : Run step always init es s) {c : CoroId} {t : Task} (ht : s.tasks c = some t)
    (hop : t.op = .connect) {r : Except Exception Result} (hp : t.point = .returned r) :
    (returnedValue r → lastError t.answers = some SSL_ERROR_NONE)
      ↔ t.answers.any Answer.closes = false := by
  have hall := h.invariant (P := fun s => ∀ c t, s.tasks c = some t → t.Handshake)
    (fun _ _ _ hs _ he => handshake_step hs he) (fun c t hn => absurd hn (by simp [init]))
  exact (hall c t ht).returned r hp hop

/-- A handshake that sends three bytes and waits for the answer. -/
def handshake : List Event :=
  [.call 0 .connect none, .resume 0 0, .ssl 0 (-1) SSL_ERROR_WANT_READ 0 [22, 3, 1],
    .bioRead 0 3, .write 0 3, .resume 0 0]

/-- The task has returned a `tls`. -/
def Task.isTls (t : Task) : Bool :=
  match t.point with
  | .returned (.ok .tls) => true
  | _ => false

theorem point_of_isTls {t : Task} (h : t.isTls = true) : t.point = .returned (.ok .tls) := by
  unfold Task.isTls at h
  split at h
  · assumption
  · exact absurd h (by simp)

/-- The answer arrives, and the handshake succeeds. -/
theorem connect_sound_iff_of_run_succeeds :
    ∃ s t, Run step always init
        (handshake ++ [.read 0 [22, 3, 3], .resume 0 3, .ssl 0 1 SSL_ERROR_NONE 3 []]) s ∧
      s.tasks 0 = some t ∧ t.point = .returned (.ok .tls) ∧
      lastError t.answers = some SSL_ERROR_NONE := by
  obtain ⟨s, hrun, htest⟩ := exists_run_of_exec step always init
    (handshake ++ [.read 0 [22, 3, 3], .resume 0 3, .ssl 0 1 SSL_ERROR_NONE 3 []])
    (fun s => (s.tasks 0).any (fun t => t.op = .connect && t.isTls
      && !t.answers.any Answer.closes)) (by decide)
  obtain ⟨t, ht, htls⟩ := (Option.any_eq_true _ _).mp htest
  simp only [Bool.and_eq_true, decide_eq_true_eq, Bool.not_eq_true'] at htls
  obtain ⟨⟨hop, htls⟩, hcloses⟩ := htls
  have hp := point_of_isTls htls
  exact ⟨s, t, hrun, ht, hp, (connect_sound_iff_of_run hrun ht hop hp).mpr hcloses ⟨.tls, rfl⟩⟩

/-- The peer closes instead, and `tls::connect` returns a `tls` all the
same. -/
theorem connect_returns_after_end_of_stream :
    ¬ ∀ es s c t r, Run step always init es s → s.tasks c = some t → t.op = .connect →
      t.point = .returned r → returnedValue r →
      lastError t.answers = some SSL_ERROR_NONE := by
  intro h
  obtain ⟨s, hrun, htest⟩ := exists_run_of_exec step always init
    (handshake ++ [.read 0 [], .resume 0 0])
    (fun s => (s.tasks 0).any (fun t => t.op = .connect && t.isTls
      && lastError t.answers = some SSL_ERROR_WANT_READ)) (by decide)
  obtain ⟨t, ht, htls⟩ := (Option.any_eq_true _ _).mp htest
  simp only [Bool.and_eq_true, decide_eq_true_eq] at htls
  obtain ⟨⟨hop, htls⟩, hlast⟩ := htls
  have hnone := h _ s 0 t _ hrun ht hop (point_of_isTls htls) ⟨.tls, rfl⟩
  rw [hlast] at hnone
  exact absurd hnone (by decide)

end Tls
