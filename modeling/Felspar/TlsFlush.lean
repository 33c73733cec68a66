import Felspar.TlsTimeouts

/-!
# When the bytes of a TLS write reach the socket

`service_operation` empties the network BIO on its way to another round: the
branches of `SSL_ERROR_WANT_READ` and `SSL_ERROR_WANT_WRITE` call `bio_read`.
The branch of `SSL_ERROR_NONE` does not, and it is the one in which a
`tls::write_some` returns what it has written. What OpenSSL has produced in
that round stays in the network BIO, together with what it had produced in
the rounds before it that have not wanted anything, until an operation comes
to want something.

So a `tls::write_some` that returns has handed everything to the socket
exactly when OpenSSL has produced nothing since a round last wanted something
(`flushed_iff_of_run`).
-/

namespace Tls

open SharedBuffer

/-! ## What OpenSSL answers -/

/-- What OpenSSL does in one round of `service_operation`: what
`SSL_get_error` says, and the bytes that come into the network BIO. -/
structure Round where
  error : Int
  produced : List UInt8

/-- The branch calls `bio_read`. -/
def Round.Wants (r : Round) : Prop :=
  r.error = SSL_ERROR_WANT_READ ∨ r.error = SSL_ERROR_WANT_WRITE

instance (r : Round) : Decidable r.Wants :=
  inferInstanceAs (Decidable (r.error = SSL_ERROR_WANT_READ ∨ r.error = SSL_ERROR_WANT_WRITE))

/-- The round the event is. -/
def Event.rounds : Event → List Round
  | .ssl _ _ error _ produced => [⟨error, produced⟩]
  | _ => []

/-- **Everything OpenSSL produces** in these rounds. -/
def produced (rounds : List Round) : List UInt8 := rounds.flatMap Round.produced

/-- What is pending after a round, when `pending` is before. More than the
buffer holds is not read. -/
def Round.flush (pending : List UInt8) (r : Round) : List UInt8 :=
  if r.Wants ∧ (pending ++ r.produced).length ≤ bufferSize then []
  else pending ++ r.produced

/-- **What OpenSSL has produced since a round last wanted something.** -/
def unflushed (rounds : List Round) : List UInt8 := rounds.foldl Round.flush []

@[simp] theorem produced_append (l l' : List Round) :
    produced (l ++ l') = produced l ++ produced l' := List.flatMap_append

@[simp] theorem unflushed_concat (l : List Round) (r : Round) :
    unflushed (l ++ [r]) = r.flush (unflushed l) := by
  unfold unflushed
  rw [List.foldl_append]
  rfl

/-! ## What is pending -/

/-- What has been taken out of the network BIO, and what is still in it. -/
def State.network (s : State) : List UInt8 × List UInt8 := (s.drained, s.outgoing)

/-- The coroutine that runs is at the beginning of `bio_read`. -/
def State.AboutToRead (s : State) : Prop :=
  ∃ c t want, s.running = some c ∧ s.tasks c = some t ∧ t.point = .bioRead want

/-- **A coroutine goes on without the network BIO**, and not to `bio_read`. -/
structure Passes (s s' : State) : Prop where
  network : s'.network = s.network
  notAbout : ¬ s'.AboutToRead

section Pending

variable {s s' : State} {e : Event} {c : CoroId} {t : Task}

theorem not_aboutToRead_of_running (h : s.running = none) : ¬ s.AboutToRead := by
  rintro ⟨c, t, want, hc, -, -⟩
  exact absurd (h.symm.trans hc) (by simp)

/-- A coroutine that runs is where it is. -/
theorem aboutToRead_iff (hc : s.running = some c) (ht : s.tasks c = some t) :
    s.AboutToRead ↔ ∃ want, t.point = .bioRead want := by
  constructor
  · rintro ⟨a, t', want, ha, ht', hp⟩
    obtain rfl := Option.some.inj (hc.symm.trans ha)
    obtain rfl := Option.some.inj (ht.symm.trans ht')
    exact ⟨want, hp⟩
  · rintro ⟨want, hp⟩
    exact ⟨c, t, want, hc, ht, hp⟩

theorem aboutToRead_runAt (p : Point) :
    (s.runAt c t p).AboutToRead ↔ ∃ want, p = .bioRead want :=
  aboutToRead_iff (t := { t with point := p }) rfl (by simp)

/-- The kernel works on a span of the buffer, while another coroutine or none
runs. -/
theorem aboutToRead_setTask (ht : s.tasks c = some t) (hold : ∀ want, t.point ≠ .bioRead want)
    {t' : Task} (hnew : ∀ want, t'.point ≠ .bioRead want) :
    (s.setTask c t').AboutToRead ↔ s.AboutToRead := by
  constructor
  · rintro ⟨a, t₁, want, ha, ht₁, hp⟩
    rw [tasks_setTask] at ht₁
    by_cases hac : a = c
    · rw [hac, Function.update_self] at ht₁
      exact absurd hp (Option.some.inj ht₁ ▸ hnew want)
    · rw [Function.update_of_ne hac] at ht₁
      exact ⟨a, t₁, want, ha, ht₁, hp⟩
  · rintro ⟨a, t₁, want, ha, ht₁, hp⟩
    have hac : a ≠ c := by
      intro hac
      rw [hac, ht] at ht₁
      exact hold want (Option.some.inj ht₁ ▸ hp)
    refine ⟨a, t₁, want, ha, ?_, hp⟩
    rw [tasks_setTask, Function.update_of_ne hac]
    exact ht₁

theorem passes_stopAt (p : Point) : Passes s (s.stopAt c t p) :=
  ⟨rfl, not_aboutToRead_of_running rfl⟩

theorem passes_operating : Passes s (s.runAt c t .operating) :=
  ⟨rfl, fun h => by simpa using (aboutToRead_runAt _).mp h⟩

/-- Elsewhere the network BIO was the same. -/
theorem Passes.of_network {s₁ : State} (h : Passes s₁ s') (heq : s₁.network = s.network) :
    Passes s s' :=
  ⟨h.network.trans heq, h.notAbout⟩

theorem passes_coReturn (ret : Int) : Passes s (coReturn s c t ret) := by
  unfold coReturn
  dsimp only
  split
  · exact ⟨rfl, not_aboutToRead_of_running rfl⟩
  · exact passes_stopAt _

theorem passes_bioReadReturns (want : Want) : Passes s (bioReadReturns s c t want) := by
  cases want with
  | read => exact passes_stopAt _
  | write => exact passes_operating

theorem passes_writeAll (want : Want) (off len : ℕ) (fits : off + len ≤ bufferSize) :
    Passes s (writeAll s c t want off len fits) := by
  unfold writeAll
  split
  · exact passes_stopAt _
  · exact passes_bioReadReturns want

theorem passes_call (op : Op) (socket : Option Exception) :
    Passes s (call s c op socket) := by
  unfold call
  split
  · split <;> exact ⟨rfl, not_aboutToRead_of_running rfl⟩
  · exact passes_operating

theorem passes_bioWrite (n : ℕ) (written : Int) : Passes s (bioWrite s c t n written) := by
  unfold bioWrite
  dsimp only
  split_ifs
  · exact passes_coReturn _
  · exact passes_stopAt _
  · exact (passes_stopAt _).of_network rfl
  · exact passes_operating.of_network rfl

theorem passes_writeSomeReturns (want : Want) (span : Span) (n : ℕ) (le : n ≤ span.len) :
    Passes s (writeSomeReturns s c t want span n le) := by
  unfold writeSomeReturns
  split
  · exact (passes_bioReadReturns want).of_network rfl
  · exact passes_writeAll want _ _ _

/-- **A round** goes to `bio_read` when it wants something. -/
theorem serviceOperation_wants (result error : Int) (produced : List UInt8) :
    (serviceOperation s c t result error).network = s.network
      ∧ ((serviceOperation s c t result error).AboutToRead
        ↔ Round.Wants ⟨error, produced⟩) := by
  have hnot : ∀ {s' : State}, Passes s s' → ¬ Round.Wants ⟨error, produced⟩ →
      s'.network = s.network ∧ (s'.AboutToRead ↔ Round.Wants ⟨error, produced⟩) :=
    fun h hw => ⟨h.network, iff_of_false h.notAbout hw⟩
  unfold serviceOperation
  dsimp only
  split_ifs with h₁ h₂ h₃ h₄
  · exact hnot (passes_coReturn _) (by simp [Round.Wants, h₁])
  · exact ⟨rfl, iff_of_true ((aboutToRead_runAt _).mpr ⟨.read, rfl⟩) (Or.inl h₂)⟩
  · exact ⟨rfl, iff_of_true ((aboutToRead_runAt _).mpr ⟨.write, rfl⟩) (Or.inr h₃)⟩
  · exact hnot (passes_coReturn _) (by simp [Round.Wants, h₄])
  · exact hnot (passes_stopAt _) (by rintro (h | h); exacts [h₂ h, h₃ h])

/-- **`bio_read` empties the network BIO**, unless there is more in it than
the buffer holds. -/
theorem passes_bioRead (want : Want) {read : Int} (hread : read = s.outgoing.length) :
    ¬ (bioRead s c t want read).AboutToRead
      ∧ (bioRead s c t want read).network
        = if s.outgoing.length ≤ bufferSize then (s.drained ++ s.outgoing, [])
          else s.network := by
  by_cases hbig : bufferSize < s.outgoing.length
  · have heq : bioRead s c t want read = throwException s c t
        (.logicError "Pending read BIO buffer too small") := by
      unfold bioRead
      rw [dif_pos hbig]
    rw [heq, if_neg (Nat.not_le.mpr hbig)]
    exact ⟨(passes_stopAt _).notAbout, rfl⟩
  · rw [if_pos (Nat.not_lt.mp hbig)]
    by_cases hnil : s.outgoing = []
    · have heq : bioRead s c t want read = bioReadReturns s c t want := by
        unfold bioRead
        rw [dif_neg hbig, if_pos hnil]
      have hp := passes_bioReadReturns (s := s) (c := c) (t := t) want
      rw [heq, hp.network, hnil, List.append_nil]
      exact ⟨hp.notAbout, by rw [State.network, hnil]⟩
    · have hpos : 0 < s.outgoing.length := List.length_pos_of_ne_nil hnil
      have heq : bioRead s c t want read
          = writeAll (bioDrain s read.toNat) c t want 0 s.outgoing.length (by omega) := by
        unfold bioRead
        rw [dif_neg hbig, if_neg hnil, if_neg (by omega), if_neg (not_not.mpr hread)]
      have hp := passes_writeAll (s := bioDrain s read.toNat) (c := c) (t := t) want 0
        s.outgoing.length (by omega)
      rw [heq, hp.network, hread]
      refine ⟨hread ▸ hp.notAbout, ?_⟩
      show (s.drained ++ s.outgoing.take s.outgoing.length,
        s.outgoing.drop s.outgoing.length) = _
      rw [List.take_length, List.drop_length]

end Pending

/-! ## Every run -/

section Run

variable {s s' : State} {e : Event} {c : CoroId} {t : Task} {l : List Round}

/-- **What is pending after these rounds.** Everything OpenSSL has produced has
been drained or is pending; pending is what it has produced since a round
last wanted something, or, when `bio_read` is about to be called, what it is
to empty the network BIO of. -/
structure Flushed (s : State) (l : List Round) : Prop where
  produced : s.drained ++ s.outgoing = produced l
  pending : ¬ s.AboutToRead → s.outgoing = unflushed l
  reading : s.AboutToRead →
    unflushed l = if s.outgoing.length ≤ bufferSize then [] else s.outgoing

/-- The calls, and the awaits, of a coroutine are made when no other runs; the
rounds and `bio_read` are of the one that does. -/
theorem running_of_step (hs : step s e = some s') :
    match e with
    | .call _ _ _ | .resume _ _ | .throw _ _ => s.running = none
    | .ssl c _ _ _ _ | .bioRead c _ => s.running = some c
    | _ => True := by
  cases e with
  | write c n => trivial
  | read c bytes => trivial
  | _ =>
    simp only [step] at hs
    split at hs
    case isTrue hg => first | exact hg | exact hg.1
    case isFalse => exact absurd hs (by simp)

/-- Nothing happens to the network BIO. -/
theorem Flushed.congr (h : Flushed s l) (hn : s'.network = s.network)
    (ha : s'.AboutToRead ↔ s.AboutToRead) : Flushed s' l := by
  obtain ⟨hd, ho⟩ := Prod.mk.inj hn
  exact ⟨by rw [hd, ho]; exact h.produced, fun hb => ho.trans (h.pending (hb ∘ ha.mpr)),
    fun hb => by rw [ho]; exact h.reading (ha.mp hb)⟩

/-- A coroutine that is called or resumed goes on. -/
theorem Flushed.passes (h : Flushed s l) (hr : s.running = none) (hp : Passes s s') :
    Flushed s' l :=
  h.congr hp.network (iff_of_false hp.notAbout (not_aboutToRead_of_running hr))

/-- **A round** adds what it produces. -/
theorem Flushed.ssl (h : Flushed s l) (hr : s.running = some c) (ht : s.tasks c = some t)
    (hp : t.point = .operating) (result error : Int) (consumed : ℕ) (bytes : List UInt8) :
    Flushed (serviceOperation (sslTransfer s consumed bytes) c t result error)
      (l ++ [⟨error, bytes⟩]) := by
  have hnot : ¬ s.AboutToRead := fun ha => by
    obtain ⟨want, hw⟩ := (aboutToRead_iff hr ht).mp ha
    exact absurd (hp.symm.trans hw) (by simp)
  obtain ⟨hn, ha⟩ := serviceOperation_wants (s := sslTransfer s consumed bytes) (c := c)
    (t := t) result error bytes
  obtain ⟨hd, ho⟩ := Prod.mk.inj hn
  have hout : (serviceOperation (sslTransfer s consumed bytes) c t result error).outgoing
      = unflushed l ++ bytes := by
    rw [ho, ← h.pending hnot]
    rfl
  refine ⟨?_, fun hb => ?_, fun hb => ?_⟩
  · rw [hd, ho, produced_append, ← h.produced]
    show s.drained ++ (s.outgoing ++ bytes) = s.drained ++ s.outgoing ++ (bytes ++ [])
    rw [List.append_nil, List.append_assoc]
  · rw [unflushed_concat, Round.flush, if_neg (fun hw => hb (ha.mpr hw.1))]
    exact hout
  · rw [unflushed_concat, Round.flush, hout]
    simp only [ha.mp hb, true_and]

/-- **`bio_read`** empties the network BIO. -/
theorem Flushed.bioRead (h : Flushed s l) (hr : s.running = some c) (ht : s.tasks c = some t)
    {want : Want} (hp : t.point = .bioRead want) {read : Int}
    (hread : read = s.outgoing.length) : Flushed (bioRead s c t want read) l := by
  have hun := h.reading ((aboutToRead_iff hr ht).mpr ⟨want, hp⟩)
  obtain ⟨hnot, hn⟩ := passes_bioRead (c := c) (t := t) want hread
  by_cases hle : s.outgoing.length ≤ bufferSize
  · rw [if_pos hle] at hun hn
    obtain ⟨hd, ho⟩ := Prod.mk.inj hn
    refine ⟨?_, fun _ => ho.trans hun.symm, fun ha => absurd ha hnot⟩
    rw [hd, ho, List.append_nil]
    exact h.produced
  · rw [if_neg hle] at hun hn
    obtain ⟨hd, ho⟩ := Prod.mk.inj hn
    refine ⟨?_, fun _ => ho.trans hun.symm, fun ha => absurd ha hnot⟩
    rw [hd, ho]
    exact h.produced

/-- A step that is no round. -/
theorem Flushed.of_rounds (he : e.rounds = []) (h : Flushed s' l) :
    Flushed s' (l ++ e.rounds) := by
  rw [he, List.append_nil]
  exact h

/-- **Every step keeps count of what is pending.** -/
theorem Flushed.step (h : Flushed s l) (hok : ReadsAll s e) (hs : step s e = some s') :
    Flushed s' (l ++ e.rounds) := by
  have hr := running_of_step hs
  cases stepped_of_step hs with
  | ssl ht hp result error consumed produced => exact h.ssl hr ht hp result error consumed _
  | bioRead ht hp hread =>
    exact Flushed.of_rounds rfl (h.bioRead hr ht hp hok)
  | write ht hp le =>
    exact Flushed.of_rounds rfl (h.congr rfl (aboutToRead_setTask ht (by simp [hp]) (by simp)))
  | read ht hp hle =>
    exact Flushed.of_rounds rfl (h.congr rfl (aboutToRead_setTask ht (by simp [hp]) (by simp)))
  | call hc hop socket =>
    exact Flushed.of_rounds rfl (h.passes hr (passes_call _ _))
  | connected ht hp written =>
    exact Flushed.of_rounds rfl (h.passes hr passes_operating)
  | wrote ht hp written =>
    exact Flushed.of_rounds rfl (h.passes hr (passes_writeSomeReturns _ _ _ _))
  | received ht hp hle =>
    exact Flushed.of_rounds rfl (h.passes hr (passes_bioWrite _ _))
  | connectThrew ht hp outcome =>
    exact Flushed.of_rounds rfl (h.passes hr (passes_stopAt _))
  | writeThrew ht hp outcome =>
    exact Flushed.of_rounds rfl (h.passes hr ((passes_stopAt _).of_network rfl))
  | readThrew ht hp outcome =>
    exact Flushed.of_rounds rfl (h.passes hr ((passes_stopAt _).of_network rfl))

/-- The rounds of a run. -/
def rounds (es : List Event) : List Round := es.flatMap Event.rounds

/-- **What is pending, in every run.** -/
theorem flushed_of_run {es : List Event} (h : Run step ReadsAll init es s) :
    Flushed s (rounds es) := by
  have hrun := h.invariant_observed (P := Flushed) (fun _ e => e.rounds)
    (fun _ _ _ _ hs hok he => hs.step hok he) (l := [])
    ⟨rfl, fun _ => rfl, fun ha => absurd ha (not_aboutToRead_of_running rfl)⟩
  rwa [h.observed_events, List.nil_append] at hrun

end Run

/-! ## What `tls::write_some` returns -/

/-- The number of bytes an operation has returned. -/
def Point.size : Point → Option ℕ
  | .returned (.ok (.size n)) => some n
  | _ => none

/-- What `tls::write_some` has returned. -/
def Task.written (t : Task) : Option ℕ :=
  match t.op with
  | .writeSome _ => t.point.size
  | _ => none

/-- It has returned nothing. -/
def Task.Unwritten (t : Task) : Prop := t.written = none

/-- **`tls::write_some` returns** `n` to the coroutine. -/
def WriteReturns (s s' : State) (c : CoroId) (n : ℕ) : Prop :=
  c ∈ s.active ∧ (s'.tasks c).bind Task.written = some n

instance (s s' : State) (c : CoroId) (n : ℕ) : Decidable (WriteReturns s s' c n) :=
  inferInstanceAs (Decidable (c ∈ s.active ∧ (s'.tasks c).bind Task.written = some n))

section WriteReturns

variable {s s' : State} {e : Event} {c : CoroId} {t : Task}

theorem unwritten_of_size (h : t.point.size = none) : t.Unwritten := by
  unfold Task.Unwritten Task.written
  split
  · exact h
  · rfl

/-- A write that is in progress has returned nothing. -/
theorem unwritten_of_inProgress (h : t.point.inProgress = true) : t.Unwritten := by
  refine unwritten_of_size ?_
  cases hp : t.point with
  | returned r =>
    rw [hp] at h
    exact absurd h (by simp [Point.inProgress])
  | _ => rfl

theorem setsTask_stopAt {p : Point} (hp : p.size = none) :
    SetsTask Task.Unwritten s c (s.stopAt c t p) :=
  ⟨{ t with point := p }, rfl, unwritten_of_size hp⟩

theorem setsTask_runAt {p : Point} (hp : p.size = none) :
    SetsTask Task.Unwritten s c (s.runAt c t p) :=
  ⟨{ t with point := p }, rfl, unwritten_of_size hp⟩

/-- **`service_operation` returns zero** when there is nothing more to come,
and `tls::write_some` throws. -/
theorem unwritten_coReturn : SetsTask Task.Unwritten s c (coReturn s c t 0) := by
  unfold coReturn
  dsimp only
  cases hop : t.op with
  | writeSome size => exact ⟨_, rfl, unwritten_of_size rfl⟩
  | connect =>
    refine ⟨_, rfl, ?_⟩
    show Task.written _ = none
    rw [Task.written, hop]
  | readSome size =>
    refine ⟨_, rfl, ?_⟩
    show Task.written _ = none
    rw [Task.written, hop]

/-- Whatever it returns, it sets its task. -/
theorem setsTask_of_coReturn (ret : Int) :
    SetsTask (fun _ => True) s c (coReturn s c t ret) := by
  refine ⟨{ t with point := .returned (t.op.returns ((lastError t.answers).getD
    SSL_ERROR_NONE) ret) }, ?_, trivial⟩
  unfold coReturn
  dsimp only
  split <;> rfl

theorem unwritten_bioReadReturns (want : Want) :
    SetsTask Task.Unwritten s c (bioReadReturns s c t want) := by
  cases want with
  | read => exact setsTask_stopAt rfl
  | write => exact setsTask_runAt rfl

theorem unwritten_writeAll (want : Want) (off len : ℕ) (fits : off + len ≤ bufferSize) :
    SetsTask Task.Unwritten s c (writeAll s c t want off len fits) := by
  unfold writeAll
  split
  · exact setsTask_stopAt rfl
  · exact unwritten_bioReadReturns want

theorem unwritten_bioRead (want : Want) (read : Int) :
    SetsTask Task.Unwritten s c (bioRead s c t want read) := by
  unfold bioRead
  split_ifs
  · exact setsTask_stopAt rfl
  · exact unwritten_bioReadReturns want
  · exact setsTask_stopAt rfl
  · exact setsTask_stopAt rfl
  · exact unwritten_writeAll want _ _ _

theorem unwritten_bioWrite (n : ℕ) (written : Int) :
    SetsTask Task.Unwritten s c (bioWrite s c t n written) := by
  unfold bioWrite
  dsimp only
  split_ifs
  · exact unwritten_coReturn
  · exact setsTask_stopAt rfl
  · exact setsTask_stopAt rfl
  · exact setsTask_runAt rfl

theorem unwritten_writeSomeReturns (want : Want) (span : Span) (n : ℕ)
    (le : n ≤ span.len) :
    SetsTask Task.Unwritten s c (writeSomeReturns s c t want span n le) := by
  unfold writeSomeReturns
  split
  · exact unwritten_bioReadReturns want
  · exact unwritten_writeAll want _ _ _

theorem unwritten_call (op : Op) (socket : Option Exception) :
    SetsTask Task.Unwritten s c (call s c op socket) := by
  unfold call
  split
  · split <;> exact setsTask_stopAt rfl
  · exact setsTask_runAt rfl

/-- **A round in which OpenSSL reports an error** does not make
`tls::write_some` return a size. -/
theorem unwritten_serviceOperation {result error : Int} (he : error ≠ SSL_ERROR_NONE) :
    SetsTask Task.Unwritten s c (serviceOperation s c t result error) := by
  unfold serviceOperation
  dsimp only
  rw [if_neg he]
  split_ifs
  · exact setsTask_runAt rfl
  · exact setsTask_runAt rfl
  · exact unwritten_coReturn
  · exact setsTask_stopAt rfl

/-- **Only the coroutine whose step it is** returns. -/
theorem SetsTask.writeReturns_coro {P : Task → Prop} {a : CoroId} {n : ℕ}
    (h : SetsTask P s a s') (ht : Tracked s) (hw : WriteReturns s s' c n) : c = a := by
  by_contra hca
  obtain ⟨t', ht', -⟩ := h
  obtain ⟨hc, hw⟩ := hw
  obtain ⟨t, htask, hp⟩ := (ht.active c).mp hc
  rw [ht', Function.update_of_ne hca, htask] at hw
  exact absurd ((unwritten_of_inProgress hp).symm.trans hw) (by simp)

/-- A step after which it has returned nothing is none in which it returns. -/
theorem SetsTask.not_writeReturns {a : CoroId} {n : ℕ} (h : SetsTask Task.Unwritten s a s')
    (ht : Tracked s) : ¬ WriteReturns s s' c n := by
  intro hw
  obtain rfl := h.writeReturns_coro ht hw
  obtain ⟨t', ht', hun⟩ := h
  have hw := hw.2
  rw [ht', Function.update_self] at hw
  exact absurd (hun.symm.trans hw) (by simp)

/-- **`tls::write_some` returns in a round without an error.** -/
theorem ssl_of_writeReturns {n : ℕ} (ht : Tracked s) (hs : step s e = some s')
    (hw : WriteReturns s s' c n) :
    ∃ t result consumed bytes, e = .ssl c result SSL_ERROR_NONE consumed bytes
      ∧ s.tasks c = some t ∧ t.point = .operating
      ∧ s' = serviceOperation (sslTransfer s consumed bytes) c t result SSL_ERROR_NONE := by
  cases stepped_of_step hs with
  | call => exact absurd hw ((unwritten_call _ _).not_writeReturns ht)
  | @ssl a t hta hp result error consumed bytes =>
    by_cases he : error = SSL_ERROR_NONE
    · subst he
      have hsets : SetsTask (fun _ => True) s a
          (serviceOperation (sslTransfer s consumed bytes) a t result SSL_ERROR_NONE) :=
        setsTask_of_coReturn (s := sslTransfer s consumed bytes) result
      obtain rfl := hsets.writeReturns_coro ht hw
      exact ⟨t, result, consumed, bytes, rfl, hta, hp, rfl⟩
    · have hsets : SetsTask Task.Unwritten s a
          (serviceOperation (sslTransfer s consumed bytes) a t result error) :=
        unwritten_serviceOperation (s := sslTransfer s consumed bytes) he
      exact absurd hw (hsets.not_writeReturns ht)
  | bioRead => exact absurd hw ((unwritten_bioRead _ _).not_writeReturns ht)
  | @write a t hta span want hp n le =>
    have hsets : SetsTask Task.Unwritten s a
        ({ s with sent := s.sent ++ slice s.buffer span.off n }.setTask a
          { t with point := .wrote span n le want }) := ⟨_, rfl, unwritten_of_size rfl⟩
    exact absurd hw (hsets.not_writeReturns ht)
  | @read a t hta hp bytes hle =>
    have hsets : SetsTask Task.Unwritten s a
        ({ s with
          buffer := store s.buffer 0 bytes
          received := s.received ++ bytes }.setTask a
            { t with point := .received bytes.length }) := ⟨_, rfl, unwritten_of_size rfl⟩
    exact absurd hw (hsets.not_writeReturns ht)
  | connected => exact absurd hw ((setsTask_runAt rfl).not_writeReturns ht)
  | wrote => exact absurd hw ((unwritten_writeSomeReturns _ _ _ _).not_writeReturns ht)
  | received => exact absurd hw ((unwritten_bioWrite _ _).not_writeReturns ht)
  | connectThrew => exact absurd hw ((setsTask_stopAt rfl).not_writeReturns ht)
  | @writeThrew a t hta span want hp outcome =>
    have hsets : SetsTask Task.Unwritten s a (throwException
        (s.observe (.writeThrew a outcome)) a t outcome.throwException) :=
      setsTask_stopAt (s := s.observe (.writeThrew a outcome)) rfl
    exact absurd hw (hsets.not_writeReturns ht)
  | @readThrew a t hta hp outcome =>
    have hsets : SetsTask Task.Unwritten s a (throwException
        (s.observe (.readThrew a outcome)) a t outcome.throwException) :=
      setsTask_stopAt (s := s.observe (.readThrew a outcome)) rfl
    exact absurd hw (hsets.not_writeReturns ht)

end WriteReturns

/-! ## Whether everything has reached the socket -/

section Returns

variable {es : List Event} {e : Event} {s s' : State} {c : CoroId} {n : ℕ}

/-- **What is pending when `tls::write_some` returns**: no coroutine is about
to call `bio_read`. -/
theorem pending_of_writeReturns (h : Run step ReadsAll init es s) (hs : step s e = some s')
    (hw : WriteReturns s s' c n) :
    Run step ReadsAll init (es ++ [e]) s' ∧ s'.outgoing = unflushed (rounds (es ++ [e]))
      ∧ s'.drained ++ s'.outgoing = produced (rounds (es ++ [e])) := by
  obtain ⟨t, result, consumed, bytes, rfl, ht, hp, rfl⟩ :=
    ssl_of_writeReturns (counted_of_run h).1 hs hw
  have hok : ReadsAll s (.ssl c result SSL_ERROR_NONE consumed bytes) := trivial
  have hrun := h.append (Run.single hok hs)
  have hf := flushed_of_run hrun
  have hnot : ¬ (serviceOperation (sslTransfer s consumed bytes) c t result
      SSL_ERROR_NONE).AboutToRead := fun ha =>
    absurd ((serviceOperation_wants result SSL_ERROR_NONE bytes).2.mp ha)
      (by simp [Round.Wants])
  exact ⟨hrun, hf.pending hnot, hf.produced⟩

/-- **Nothing is held when it returns**, if the operations follow one
another. -/
theorem sent_of_writeReturns (h : Run step OneAtATime init es s) (hs : step s e = some s')
    (hw : WriteReturns s s' c n) :
    s'.unsent = [] ∧ s'.gaveUp = s.gaveUp ∧ (s.gaveUp = false → s'.sent = s'.drained) := by
  obtain ⟨htr, ha, hsent⟩ := alone_of_run h
  obtain ⟨t, result, consumed, bytes, rfl, ht, hp, rfl⟩ := ssl_of_writeReturns htr hs hw
  have hempty : s.Empty c := empty_of_point ht hp ⟨rfl, rfl⟩
  have hnone : s.draining = [] := by
    refine List.eq_nil_iff_forall_not_mem.mpr (fun a hm => ?_)
    have hpos := (htr.draining a).mp hm
    rw [ha a (active_of_draining htr hm) c hw.1, hempty.1] at hpos
    exact absurd hpos (Nat.lt_irrefl 0)
  have hunsent : s.unsent = [] := by
    rw [State.unsent, hnone]
    rfl
  obtain ⟨t', hnew, r, p, a, b, tr, htrace, hset⟩ := sets_serviceOperation
    (s := sslTransfer s consumed bytes) (c := c) (t := t) result SSL_ERROR_NONE
  have hsets : Sets s c t' _ := ⟨_, _, _, _, _, htrace, hset⟩
  refine ⟨?_, hsets.gaveUp, fun hg => ?_⟩
  · rw [hsets.unsent, unsent_setTask_of_eq_zero htr hempty.1 hnew.1, hunsent]
  · have hsent := hsent hg
    rw [hunsent, List.append_nil] at hsent
    obtain ⟨hdrained', hsent', -, -⟩ := hsets.bytes
    rw [hdrained', hsent', hsent]

end Returns

/-- **`tls::write_some` leaves nothing in the network BIO** exactly when
OpenSSL has produced nothing since a round last wanted something, whatever
other coroutines do. When the operations follow one another, everything that
OpenSSL has produced has then been sent, unless one of them has given up what
it was to write. -/
theorem flushed_iff_of_run (es : List Event) (e : Event) (s s' : State) (c : CoroId) (n : ℕ) :
    (Run step ReadsAll init es s → step s e = some s' → WriteReturns s s' c n →
      (s'.outgoing = [] ↔ unflushed (rounds (es ++ [e])) = [])) ∧
    (Run step OneAtATime init es s → step s e = some s' → WriteReturns s s' c n →
      (s'.sent = produced (rounds (es ++ [e]))
        ↔ unflushed (rounds (es ++ [e])) = [] ∧ s.gaveUp = false)) := by
  refine ⟨fun h hs hw => by rw [(pending_of_writeReturns h hs hw).2.1], fun h hs hw => ?_⟩
  obtain ⟨hrun, hpending, hproduced⟩ :=
    pending_of_writeReturns (h.mono (fun _ _ hok => hok.1)) hs hw
  obtain ⟨hunsent, hup, hsent⟩ := sent_of_writeReturns h hs hw
  rw [← hpending, ← hproduced]
  constructor
  · intro hall
    have hg : s.gaveUp = false := by
      refine Bool.eq_false_iff.mpr (fun hg => ?_)
      have hlost := (counted_of_run hrun).2.lost (hup.trans hg)
      have hlen := congrArg List.length hall
      rw [List.length_append] at hlen
      omega
    rw [hsent hg] at hall
    exact ⟨List.self_eq_append_right.mp hall, hg⟩
  · rintro ⟨hnil, hg⟩
    rw [hsent hg, hnil, List.append_nil]

/-- A connection is established, and a coroutine is about to call
`SSL_write`. -/
def aboutToWrite : List Event :=
  [.call 0 .connect none, .resume 0 0, .ssl 0 1 SSL_ERROR_NONE 0 [],
    .call 1 (.writeSome 3) none]

/-- A round wants to write, and what it has produced is sent before the next
one succeeds. -/
def wantsWrite : List Event :=
  aboutToWrite ++ [.ssl 1 (-1) SSL_ERROR_WANT_WRITE 0 [1, 2, 3], .bioRead 1 3, .write 1 3,
    .resume 1 0]

/-- That write has reached the socket. -/
theorem flushed_iff_of_run_wantsWrite :
    ∃ s s', Run step OneAtATime init wantsWrite s ∧
      step s (.ssl 1 3 SSL_ERROR_NONE 0 []) = some s' ∧ WriteReturns s s' 1 3 ∧
      s'.outgoing = [] ∧ s'.sent = [1, 2, 3] := by
  obtain ⟨s, hrun, htest⟩ := exists_run_of_exec step OneAtATime init wantsWrite
    (fun s => (step s (.ssl 1 3 SSL_ERROR_NONE 0 [])).any
      (fun s' => WriteReturns s s' 1 3) ∧ s.gaveUp = false) (by decide)
  obtain ⟨hany, hg⟩ := of_decide_eq_true htest
  obtain ⟨s', hs, hw⟩ := (Option.any_eq_true _ _).mp hany
  have hw : WriteReturns s s' 1 3 := of_decide_eq_true hw
  obtain ⟨hnothing, hall⟩ :=
    flushed_iff_of_run wantsWrite (.ssl 1 3 SSL_ERROR_NONE 0 []) s s' 1 3
  exact ⟨s, s', hrun, hs, hw,
    (hnothing (hrun.mono (fun _ _ hok => hok.1)) hs hw).mpr (by decide),
    (hall hrun hs hw).mpr ⟨by decide, hg⟩⟩

/-- `SSL_write` succeeds at once. What it has produced stays where it is. -/
theorem pending_after_write :
    ¬ ∀ es e s s' c n, Run step OneAtATime init es s → step s e = some s' →
      WriteReturns s s' c n → s'.outgoing = [] := by
  intro h
  obtain ⟨s, hrun, htest⟩ := exists_run_of_exec step OneAtATime init aboutToWrite
    (fun s => (step s (.ssl 1 3 SSL_ERROR_NONE 0 [1, 2, 3])).any
      (fun s' => WriteReturns s s' 1 3 ∧ s'.outgoing ≠ [])) (by decide)
  obtain ⟨s', hs, htest⟩ := (Option.any_eq_true _ _).mp htest
  obtain ⟨hw, hne⟩ := of_decide_eq_true htest
  exact hne (h _ _ s s' 1 3 hrun hs hw)

end Tls
