import Felspar.TlsFlush

/-!
# One TLS operation at a time

What `service_operation` relies on is never said in `tls.cpp`: that the network
BIO never holds more than the buffer does, that it takes everything that
`bio_write` offers it, and that OpenSSL has a reason for what it wants. With a
BIO pair of the default size, of which each direction holds 17 KB, and one
operation at a time, this is enough: OpenSSL wants to read only when it has
consumed everything, so the network BIO is empty when `bio_write` feeds it, and
the buffer is as big as either direction.

Then none of the three checks of `bio_read` and `bio_write` fails, and the
bytes go through in order. A write of the socket that fails has had its bytes
drained from the network BIO already, so these are not sent; all others are.
And no round of the loop is idle: it ends the operation, or has moved a byte.
-/

namespace Tls

open SharedBuffer

/-! ## What is assumed -/

/-- How much each direction of a BIO pair holds that is made with size 0. -/
def pairSize : ℕ := 17 * 1024

/-- What `BIO_write` returns for `n` bytes, where there is room for `free`. -/
def bioWritten (free n : ℕ) : Int := if free = 0 then -1 else ↑(min free n)

/-- A `system_error`, which is what `create_socket` throws. -/
def ofSystem : Exception → Bool
  | .systemError _ _ => true
  | _ => false

/-- **One operation at a time, without timeouts, and a BIO pair and an OpenSSL
that do what they should.** -/
def Assumed (s : State) : Event → Prop
  | .call _ _ socket => s.active = [] ∧ socket.all ofSystem = true
  | .ssl _ _ error consumed produced =>
    s.outgoing.length + produced.length ≤ pairSize
      ∧ (error = SSL_ERROR_WANT_READ → s.incoming.length ≤ consumed)
      ∧ (error = SSL_ERROR_WANT_WRITE → s.outgoing ++ produced ≠ [])
  | .bioRead _ read => read = s.outgoing.length
  | .write _ n => 0 < n
  | .read _ _ => True
  | .resume c written =>
    0 < s.unfedAt c → written = bioWritten (pairSize - s.incoming.length) (s.unfedAt c)
  | .throw _ outcome => outcome.error ≠ Outcome.timeoutError

instance : DecidableRel Assumed := fun s e =>
  match e with
  | .call _ _ socket => inferInstanceAs (Decidable (s.active = [] ∧ socket.all ofSystem = true))
  | .ssl _ _ error consumed produced =>
    inferInstanceAs (Decidable (s.outgoing.length + produced.length ≤ pairSize
      ∧ (error = SSL_ERROR_WANT_READ → s.incoming.length ≤ consumed)
      ∧ (error = SSL_ERROR_WANT_WRITE → s.outgoing ++ produced ≠ [])))
  | .bioRead _ read => inferInstanceAs (Decidable (read = s.outgoing.length))
  | .write _ n => inferInstanceAs (Decidable (0 < n))
  | .read _ _ => inferInstanceAs (Decidable True)
  | .resume c written => inferInstanceAs (Decidable
      (0 < s.unfedAt c → written = bioWritten (pairSize - s.incoming.length) (s.unfedAt c)))
  | .throw _ outcome => inferInstanceAs (Decidable (outcome.error ≠ Outcome.timeoutError))

/-- The operations follow one another. -/
theorem Assumed.oneAtATime {s : State} {e : Event} (h : Assumed s e) : OneAtATime s e := by
  cases e with
  | call c op socket => exact ⟨trivial, h.1⟩
  | bioRead c read => exact ⟨h, trivial⟩
  | _ => exact ⟨trivial, trivial⟩

/-! ## Where a coroutine is -/

/-- The exceptions of the checks in `bio_read` and `bio_write`. -/
def relayFailures : List Exception :=
  [.logicError "Pending read BIO buffer too small",
    .runtimeError "Reading BIO read bytes mismatch",
    .runtimeError "Not all bytes written to BIO"]

/-- **What the network BIO holds** while a coroutine is there. When OpenSSL wants
to read, it has consumed everything; when it wants to write, there is
something to be written. -/
def Point.On (incoming outgoing : List UInt8) : Point → Prop
  | .bioRead .read => incoming = []
  | .bioRead .write => outgoing ≠ []
  | .writing _ .read => incoming = []
  | .wrote _ n _ .read => 0 < n ∧ incoming = []
  | .wrote _ n _ .write => 0 < n
  | .reading => incoming = []
  | .received n => incoming = [] ∧ n ≤ bufferSize
  | .returned (.error x) => x ∉ relayFailures
  | _ => True

/-- A byte has been moved in this round of the loop, or there is no round
yet. -/
def Point.ahead : Point → Bool
  | .connecting => true
  | .operating => true
  | .wrote _ _ _ _ => true
  | _ => false

/-- How many bytes have been sent and fed. -/
def State.moved (s : State) : ℕ := s.sent.length + s.fed.length

/-- **What a step of `c` comes to**: the coroutine is where it may be, and if it
is ahead, then a byte has moved in this step or it was ahead before. -/
def Lands (s : State) (c : CoroId) (t : Task) (s' : State) : Prop :=
  SetsTask (fun t' => t'.point.On s'.incoming s'.outgoing
    ∧ (t'.point.ahead = true → s.moved < s'.moved ∨ t.point.ahead = true)) s c s'

/-! ## The exceptions -/

/-- A message that begins in another way. -/
theorem runtimeError_not_mem {message : String} (hr : message.toList.head? ≠ some 'R')
    (hn : message.toList.head? ≠ some 'N') : Exception.runtimeError message ∉ relayFailures := by
  intro h
  rcases List.mem_cons.mp h with h | h
  · exact absurd h (by simp)
  · rcases List.mem_cons.mp h with h | h
    · exact hr (by rw [Exception.runtimeError.inj h]; decide)
    · exact hn (by rw [Exception.runtimeError.inj (List.mem_singleton.mp h)]; decide)

theorem append_not_mem {message rest : String} (first : Char)
    (h : message.toList.head? = some first) (hr : first ≠ 'R') (hn : first ≠ 'N') :
    Exception.runtimeError (message ++ rest) ∉ relayFailures := by
  have hfirst : (message ++ rest).toList.head? = some first := by
    rw [String.toList_append, List.head?_append, h]
    rfl
  refine runtimeError_not_mem ?_ ?_
  · rw [hfirst]
    exact fun he => hr (Option.some.inj he)
  · rw [hfirst]
    exact fun he => hn (Option.some.inj he)

/-- What an operation makes of its result is not one of them. -/
theorem returns_not_mem {op : Op} {error ret : Int} {x : Exception}
    (h : op.returns error ret = .error x) : x ∉ relayFailures := by
  unfold Op.returns at h
  cases op with
  | connect => exact absurd h (by simp)
  | readSome size =>
    dsimp only at h
    split at h
    · obtain rfl := Except.error.inj h
      exact append_not_mem 'E' (by decide) (by decide) (by decide)
    · exact absurd h (by simp)
  | writeSome size =>
    dsimp only at h
    split at h
    · obtain rfl := Except.error.inj h
      decide
    · exact absurd h (by simp)

/-- Nor is what an await throws. -/
theorem throwException_not_mem (outcome : Outcome) : outcome.throwException ∉ relayFailures := by
  unfold Outcome.throwException
  split <;> simp [relayFailures]

theorem ofSystem_not_mem {x : Exception} (h : ofSystem x = true) : x ∉ relayFailures := by
  cases x with
  | systemError error message => simp [relayFailures]
  | _ => exact absurd h (by simp [ofSystem])

/-! ## What each function comes to -/

/-- The coroutine is where it may be, and not ahead. -/
def Rests (s : State) (c : CoroId) (s' : State) : Prop :=
  SetsTask (fun t' => t'.point.On s'.incoming s'.outgoing ∧ t'.point.ahead = false) s c s'

section Lands

variable {s s' : State} {c : CoroId} {t : Task}

theorem Rests.lands (h : Rests s c s') : Lands s c t s' := by
  obtain ⟨t', htasks, hon, hahead⟩ := h
  exact ⟨t', htasks, hon, fun ha => absurd (ha.symm.trans hahead) (by simp)⟩

theorem rests_stopAt {p : Point} (hon : p.On s.incoming s.outgoing) (hahead : p.ahead = false) :
    Rests s c (s.stopAt c t p) :=
  ⟨{ t with point := p }, rfl, hon, hahead⟩

theorem rests_throwException {x : Exception} (hx : x ∉ relayFailures) :
    Rests s c (throwException s c t x) :=
  rests_stopAt hx rfl

theorem rests_coReturn (ret : Int) : Rests s c (coReturn s c t ret) := by
  have hrests : Rests s c (s.stopAt c t
      (.returned (t.op.returns ((lastError t.answers).getD SSL_ERROR_NONE) ret))) := by
    refine rests_stopAt ?_ rfl
    cases hr : t.op.returns ((lastError t.answers).getD SSL_ERROR_NONE) ret with
    | ok v => trivial
    | error x => exact returns_not_mem hr
  unfold coReturn
  cases hop : t.op with
  | connect => rw [hop] at hrests; exact hrests
  | readSome size => rw [hop] at hrests; exact hrests
  | writeSome size => rw [hop] at hrests; exact hrests

theorem lands_runAt {p : Point} (hon : p.On s.incoming s.outgoing)
    (hahead : p.ahead = true → t.point.ahead = true) : Lands s c t (s.runAt c t p) :=
  ⟨{ t with point := p }, rfl, hon, fun h => .inr (hahead h)⟩

theorem lands_bioReadReturns {want : Want} (hin : want = .read → s.incoming = [])
    (hahead : want = .write → t.point.ahead = true) :
    Lands s c t (bioReadReturns s c t want) := by
  cases want with
  | read =>
    have hrests : Rests s c (s.stopAt c t .reading) := rests_stopAt (hin rfl) rfl
    exact hrests.lands
  | write => exact lands_runAt trivial (fun _ => hahead rfl)

theorem lands_writeAll {want : Want} {off len : ℕ} {fits : off + len ≤ bufferSize}
    (hin : want = .read → s.incoming = [])
    (hahead : len = 0 → want = .write → t.point.ahead = true) :
    Lands s c t (writeAll s c t want off len fits) := by
  unfold writeAll
  split
  case isTrue h =>
    refine Rests.lands (rests_stopAt ?_ rfl)
    cases want with
    | read => exact hin rfl
    | write => trivial
  case isFalse h => exact lands_bioReadReturns hin (hahead (Nat.eq_zero_of_not_pos h))

/-- **No check of `bio_read` fails**, and it has something to write when OpenSSL
wants to write. -/
theorem lands_bioRead {want : Want} (hp : t.point = .bioRead want)
    (hon : t.point.On s.incoming s.outgoing) (hfits : s.outgoing.length ≤ bufferSize) :
    Lands s c t (bioRead s c t want s.outgoing.length) := by
  have hin : want = .read → s.incoming = [] := by
    rintro rfl
    rw [hp] at hon
    exact hon
  have hout : want = .write → s.outgoing ≠ [] := by
    rintro rfl
    rw [hp] at hon
    exact hon
  unfold bioRead
  rw [dif_neg (Nat.not_lt.mpr hfits)]
  by_cases hnil : s.outgoing = []
  · rw [if_pos hnil]
    exact lands_bioReadReturns hin (fun hw => absurd hnil (hout hw))
  · have hpos : 0 < s.outgoing.length := List.length_pos_of_ne_nil hnil
    rw [if_neg hnil, if_neg (by omega), if_neg (not_not.mpr rfl)]
    exact lands_writeAll (s := bioDrain s s.outgoing.length) hin
      (fun hzero => absurd hzero hpos.ne')

/-- **A round begins**, and no byte has been moved in it. -/
theorem rests_serviceOperation {result error : Int} {consumed : ℕ} {produced : List UInt8}
    (hread : error = SSL_ERROR_WANT_READ → s.incoming.length ≤ consumed)
    (hwrite : error = SSL_ERROR_WANT_WRITE → s.outgoing ++ produced ≠ []) :
    Rests s c (serviceOperation (sslTransfer s consumed produced) c t result error) := by
  change Rests (sslTransfer s consumed produced) c _
  unfold serviceOperation
  dsimp only
  split
  · exact rests_coReturn result
  · split
    case isTrue he => exact ⟨_, rfl, List.drop_eq_nil_of_le (hread he), rfl⟩
    case isFalse =>
      split
      case isTrue he => exact ⟨_, rfl, hwrite he, rfl⟩
      case isFalse =>
        split
        · exact rests_coReturn 0
        · exact rests_throwException (append_not_mem 'U' (by decide) (by decide) (by decide))

/-- **The network BIO takes all it is given**: it has room for as much as the
buffer holds. -/
theorem bioWritten_eq {n : ℕ} (hin : s.incoming = []) (hn : n ≤ bufferSize) :
    bioWritten (pairSize - s.incoming.length) n = n := by
  have hfree : pairSize - s.incoming.length = bufferSize := by rw [hin]; rfl
  have hsize : bufferSize ≠ 0 := by decide
  rw [hfree, bioWritten, if_neg hsize, min_eq_right hn]

/-- **No check of `bio_write` fails.** -/
theorem lands_bioWrite {n : ℕ} (hp : t.point = .received n)
    (hon : t.point.On s.incoming s.outgoing) {written : Int}
    (hwritten : 0 < n → written = bioWritten (pairSize - s.incoming.length) n) :
    Lands s c t (bioWrite s c t n written) := by
  rw [hp] at hon
  obtain ⟨hin, hn⟩ := hon
  change Lands s c { t with answers := .read n :: t.answers } _
  unfold bioWrite
  dsimp only
  by_cases hzero : n = 0
  · rw [if_pos hzero]
    exact (rests_coReturn 0).lands
  · have hall : written = n := (hwritten (Nat.pos_of_ne_zero hzero)).trans (bioWritten_eq hin hn)
    rw [if_neg hzero, if_neg (by omega), if_neg (not_not.mpr hall)]
    refine ⟨_, rfl, trivial, fun _ => .inl ?_⟩
    show s.sent.length + s.fed.length
      < s.sent.length + (s.fed ++ slice s.buffer 0 n).length
    rw [List.length_append, length_slice]
    omega

theorem lands_writeSomeReturns {want : Want} {span : Span} {n : ℕ} {le : n ≤ span.len}
    (hp : t.point = .wrote span n le want) (hon : t.point.On s.incoming s.outgoing) :
    Lands s c t (writeSomeReturns s c t want span n le) := by
  have hahead : t.point.ahead = true := by rw [hp]; rfl
  have hpos : 0 < n := by
    rw [hp] at hon
    cases want with
    | read => exact hon.1
    | write => exact hon
  have hin : want = .read → s.incoming = [] := by
    rintro rfl
    rw [hp] at hon
    exact hon.2
  unfold writeSomeReturns
  rw [if_neg hpos.ne']
  exact lands_writeAll hin (fun _ _ => hahead)

theorem lands_call (op : Op) {socket : Option Exception} (hsocket : socket.all ofSystem = true)
    {s' : State} (hs' : s' = call s c op socket) :
    ∃ t', s'.tasks = Function.update s.tasks c (some t') ∧ t'.point.On s'.incoming s'.outgoing := by
  subst hs'
  cases op with
  | connect =>
    cases socket with
    | none => exact ⟨_, rfl, trivial⟩
    | some x => exact ⟨_, rfl, ofSystem_not_mem (x := x) hsocket⟩
  | readSome size => exact ⟨_, rfl, trivial⟩
  | writeSome size => exact ⟨_, rfl, trivial⟩

end Lands

/-! ## What a step comes to -/

/-- **The relay**: the coroutines are where they may be, and the bytes are in
order. -/
structure Relays (s : State) : Prop where
  tracked : Tracked s
  alone : Alone s
  fits : s.outgoing.length ≤ bufferSize
  on : ∀ c t, s.tasks c = some t → t.point.On s.incoming s.outgoing
  kept : (s.sent ++ s.unsent).Sublist s.drained
  fed : s.fed ++ s.unfed = s.received
  one : s.feeding.length ≤ 1

section Step

variable {s s' : State} {e : Event} {c : CoroId} {t : Task}

/-- One that is in no operation may be where it is, whatever the network BIO
holds. -/
theorem on_of_ended {incoming outgoing : List UInt8} (hended : t.point.inProgress = false)
    (h : t.point.On s.incoming s.outgoing) : t.point.On incoming outgoing := by
  cases hp : t.point with
  | returned r =>
    rw [hp] at h
    cases r <;> exact h
  | _ => rw [hp] at hended; exact absurd hended (by simp [Point.inProgress])

/-- **A step of an operation**, where it leads to. -/
theorem lands_of_step (h : Relays s) (hok : Assumed s e) (hs : step s e = some s')
    (hcall : ∀ c op socket, e ≠ .call c op socket) :
    ∃ t, s.tasks e.coro = some t ∧ t.point.inProgress = true ∧ Lands s e.coro t s' := by
  cases stepped_of_step hs with
  | @call c hc op hop socket => exact absurd rfl (hcall c op socket)
  | @ssl c t ht hp result error consumed produced =>
    exact ⟨t, ht, by rw [hp]; rfl, (rests_serviceOperation hok.2.1 hok.2.2).lands⟩
  | @bioRead c t ht want hp read hread =>
    obtain rfl : read = s.outgoing.length := hok
    exact ⟨t, ht, by rw [hp]; rfl, lands_bioRead hp (h.on c t ht) h.fits⟩
  | @write c t ht span want hp n le =>
    have hn : 0 < n := hok
    have hon := h.on c t ht
    rw [hp] at hon
    refine ⟨t, ht, by rw [hp]; rfl, _, rfl, ?_, fun _ => .inl ?_⟩
    · cases want with
      | read => exact ⟨hn, hon⟩
      | write => exact hn
    · show s.sent.length + s.fed.length
        < (s.sent ++ slice s.buffer span.off n).length + s.fed.length
      rw [List.length_append, length_slice]
      omega
  | @read c t ht hp bytes hle =>
    have hon := h.on c t ht
    rw [hp] at hon
    exact ⟨t, ht, by rw [hp]; rfl, _, rfl, ⟨hon, hle⟩, fun h => absurd h (by simp [Point.ahead])⟩
  | @connected c t ht hp written =>
    exact ⟨t, ht, by rw [hp]; rfl, lands_runAt trivial (fun _ => by rw [hp]; rfl)⟩
  | @wrote c t ht span n le want hp written =>
    exact ⟨t, ht, by rw [hp]; rfl, lands_writeSomeReturns hp (h.on c t ht)⟩
  | @received c t ht n hp written hle =>
    have hunfed : s.unfedAt c = n := unfedAt_eq ht hp
    have hwritten : 0 < s.unfedAt c →
      written = bioWritten (pairSize - s.incoming.length) (s.unfedAt c) := hok
    rw [hunfed] at hwritten
    exact ⟨t, ht, by rw [hp]; rfl, lands_bioWrite hp (h.on c t ht) hwritten⟩
  | @connectThrew c t ht hp outcome =>
    exact ⟨t, ht, by rw [hp]; rfl, (rests_throwException (throwException_not_mem outcome)).lands⟩
  | @writeThrew c t ht span want hp outcome =>
    exact ⟨t, ht, by rw [hp]; rfl, Rests.lands <| rests_throwException
      (s := s.observe (.writeThrew c outcome)) (throwException_not_mem outcome)⟩
  | @readThrew c t ht hp outcome =>
    exact ⟨t, ht, by rw [hp]; rfl, Rests.lands <| rests_throwException
      (s := s.observe (.readThrew c outcome)) (throwException_not_mem outcome)⟩

/-- When a step has set the task of one coroutine, and no other is in an
operation, all are where they may be. -/
theorem on_of_set {t' : Task} (h : Relays s)
    (htasks : s'.tasks = Function.update s.tasks c (some t'))
    (hon : t'.point.On s'.incoming s'.outgoing) (hothers : ∀ a ∈ s.active, a = c) :
    ∀ a t, s'.tasks a = some t → t.point.On s'.incoming s'.outgoing := by
  intro a t ht
  rw [htasks] at ht
  by_cases ha : a = c
  · rw [ha, Function.update_self] at ht
    exact Option.some.inj ht ▸ hon
  · rw [Function.update_of_ne ha] at ht
    refine on_of_ended (Bool.eq_false_iff.mpr (fun hp => ha ?_)) (h.on a t ht)
    exact hothers a ((h.tracked.active a).mpr ⟨t, ht, hp⟩)

theorem on_of_step (h : Relays s) (hok : Assumed s e) (hs : step s e = some s') :
    ∀ a t, s'.tasks a = some t → t.point.On s'.incoming s'.outgoing := by
  by_cases hcall : ∃ c op socket, e = .call c op socket
  · obtain ⟨c, op, socket, rfl⟩ := hcall
    obtain ⟨hnil, hsocket⟩ := hok
    cases stepped_of_step hs with
    | call hc hop _ =>
      obtain ⟨t', htasks, hon⟩ := lands_call (s := s) (c := c) op hsocket rfl
      exact on_of_set h htasks hon (fun a ha => absurd (hnil ▸ ha) (by simp))
  · obtain ⟨t, ht, hp, t', htasks, hon, -⟩ := lands_of_step h hok hs
      (fun c op socket he => hcall ⟨c, op, socket, he⟩)
    have hc : e.coro ∈ s.active := (h.tracked.active _).mpr ⟨t, ht, hp⟩
    exact on_of_set h htasks hon (fun a ha => h.alone a ha _ hc)

/-- The network BIO never holds more than the buffer does. -/
theorem fits_of_step (h : Relays s) (hok : Assumed s e) (hs : step s e = some s') :
    s'.outgoing.length ≤ bufferSize := by
  have hsame (hn : s'.network = s.network) : s'.outgoing.length ≤ bufferSize :=
    (congrArg (fun n : List UInt8 × List UInt8 => n.2.length) hn).le.trans h.fits
  cases stepped_of_step hs with
  | @ssl c t ht hp result error consumed produced =>
    have hn := (serviceOperation_wants (s := sslTransfer s consumed produced) (c := c) (t := t)
      result error produced).1
    have hout := congrArg (fun n : List UInt8 × List UInt8 => n.2.length) hn
    have hsum : (s.outgoing ++ produced).length ≤ bufferSize := by
      rw [List.length_append]
      exact hok.1
    exact hout.le.trans hsum
  | @bioRead c t ht want hp read hread =>
    have hn := (passes_bioRead (s := s) (c := c) (t := t) want hok).2
    rw [if_pos h.fits] at hn
    have hout := congrArg (fun n : List UInt8 × List UInt8 => n.2.length) hn
    exact hout.le.trans (Nat.zero_le _)
  | write ht hp le => exact h.fits
  | read ht hp hle => exact h.fits
  | call hc hop socket => exact hsame (passes_call _ _).network
  | connected ht hp written => exact h.fits
  | wrote ht hp written => exact hsame (passes_writeSomeReturns _ _ _ _).network
  | received ht hp hle => exact hsame (passes_bioWrite _ _).network
  | connectThrew ht hp outcome => exact h.fits
  | writeThrew ht hp outcome => exact h.fits
  | readThrew ht hp outcome => exact h.fits

/-- One that holds bytes to be fed feeds all of them. -/
theorem takesAll_of_assumed (h : Relays s) (hok : Assumed s e) : TakesAll s e := by
  cases e with
  | resume c written =>
    intro hpos
    cases ht : s.tasks c with
    | none =>
      have hzero : s.unfedAt c = 0 := by rw [State.unfedAt, ht]; rfl
      exact absurd hzero hpos.ne'
    | some t =>
      cases hp : t.point with
      | received n =>
        have hon := h.on c t ht
        rw [hp] at hon
        have hunfed : s.unfedAt c = n := unfedAt_eq ht hp
        rw [hok hpos, hunfed]
        exact bioWritten_eq hon.1 hon.2
      | _ => exact absurd (unfedAt_eq ht hp) hpos.ne'
  | _ => trivial

/-- **What is sent and held to be sent stays a part of what is drained**, and in
its order. One that gives up is the only one that holds anything. -/
theorem kept_of_moved (h : Relays s) (hex : Exclusive s e) (hm : Moved s e s') :
    (s'.sent ++ s'.unsent).Sublist s'.drained := by
  by_cases hup : GivesUp s e
  · cases hm with
    | rest hold hnew hs => exact absurd hup (not_givesUp_of_eq_zero h.tracked hold.1)
    | drained hne hold hnew hunfed hs read => exact absurd hup id
    | sent hpos hle hunfed hnew hnew' hs => exact absurd hup id
    | goesOn he hpos hunfed hnew hnew' hs => exact absurd hup he
    | @gaveUp _ t _ o he ho hpos hunfed hnew hs =>
      obtain ⟨hdrained, hsent, -, -⟩ := hs.bytes
      have hhead := head_of_alone h.tracked h.alone ((h.tracked.draining _).mpr hpos)
      obtain ⟨rest, hrest, hset⟩ := unsent_setTask_head (s := s.observe o) (t := t)
        (h.tracked.congr rfl rfl rfl rfl) hhead
      rw [hnew.1, slice_zero, List.nil_append] at hset
      have hrest : s.unsent = s.unsentOf e.coro ++ rest := hrest
      rw [hdrained, hsent, hs.unsent, hset]
      refine List.Sublist.trans ?_ h.kept
      rw [hrest]
      exact (List.sublist_append_right _ _).append_left s.sent
    | received hold hnew hnew' hs => exact absurd hup id
    | fed hpos hold hnew hall hs =>
      exact absurd hup (not_givesUp_of_eq_zero (e := .resume _ _) h.tracked hold)
  · obtain ⟨bytes, hdrained, hsent⟩ := appended_of_moved h.tracked hex hup hm
    rw [hdrained, hsent]
    exact h.kept.append (List.Sublist.refl bytes)

/-- No byte is taken back. -/
theorem moved_le_of_moved (hm : Moved s e s') : s.moved ≤ s'.moved := by
  unfold State.moved
  cases hm with
  | rest hold hnew hs =>
    obtain ⟨-, hsent, -, hfed⟩ := hs.bytes
    rw [hsent, hfed]
  | drained hne hold hnew hunfed hs read =>
    obtain ⟨-, hsent, -, hfed⟩ := hs.bytes
    rw [hsent, hfed]
  | sent hpos hle hunfed hnew hnew' hs =>
    obtain ⟨-, hsent, -, hfed⟩ := hs.bytes
    rw [hsent, hfed, List.length_append]
    show s.sent.length + s.fed.length ≤ _ + s.fed.length
    omega
  | goesOn he hpos hunfed hnew hnew' hs =>
    obtain ⟨-, hsent, -, hfed⟩ := hs.bytes
    rw [hsent, hfed]
  | gaveUp he ho hpos hunfed hnew hs =>
    obtain ⟨-, hsent, -, hfed⟩ := hs.bytes
    rw [hsent, hfed]
    rfl
  | received hold hnew hnew' hs =>
    obtain ⟨-, hsent, -, hfed⟩ := hs.bytes
    rw [hsent, hfed]
  | fed hpos hold hnew hall hs =>
    obtain ⟨-, hsent, -, hfed⟩ := hs.bytes
    rw [hsent, hfed, List.length_append]
    show s.sent.length + s.fed.length ≤ s.sent.length + _
    omega

/-- **Every step keeps the relay.** -/
theorem Relays.step (h : Relays s) (hok : Assumed s e) (hs : Tls.step s e = some s') :
    Relays s' := by
  have hm := moved_of_step h.tracked hok.oneAtATime.1 hs
  have hex := exclusive_of_alone h.tracked h.alone hs
  obtain ⟨hfed, hone⟩ := fed_of_moved h.tracked h.fed h.one hex (takesAll_of_assumed h hok) hm
  exact ⟨h.tracked.moved hm, alone_of_step h.tracked h.alone hok.oneAtATime hs,
    fits_of_step h hok hs, on_of_step h hok hs, kept_of_moved h hex hm, hfed, hone⟩

theorem relays_init : Relays init where
  tracked := tracked_init
  alone := fun a hm => absurd hm (by simp [init])
  fits := Nat.zero_le _
  on := fun c t ht => absurd ht (by simp [init])
  kept := List.Sublist.refl _
  fed := rfl
  one := Nat.zero_le 1

end Step

/-! ## A round of the loop -/

/-- The step is within a round: no operation is called, and none of OpenSSL. -/
def Event.withinRound : Event → Bool
  | .call _ _ _ => false
  | .ssl _ _ _ _ _ => false
  | _ => true

section Round

variable {s s' : State} {es : List Event} {c : CoroId} {k : ℕ}

/-- What has been moved since a round began, where `k` bytes had been moved
then. -/
structure InRound (k : ℕ) (c : CoroId) (s : State) : Prop where
  relays : Relays s
  moved : k ≤ s.moved
  ahead : ∀ t, s.tasks c = some t → t.point.ahead = true → k < s.moved

/-- **A step within a round** gets ahead only by moving a byte. -/
theorem InRound.step {e : Event} (h : InRound k c s) (hok : Assumed s e)
    (hwithin : e.withinRound = true) (hs : Tls.step s e = some s') : InRound k c s' := by
  have hle : s.moved ≤ s'.moved :=
    moved_le_of_moved (moved_of_step h.relays.tracked hok.oneAtATime.1 hs)
  refine ⟨h.relays.step hok hs, h.moved.trans hle, fun t' ht' hahead => ?_⟩
  obtain ⟨t, ht, -, t₁, htasks, -, hlands⟩ := lands_of_step h.relays hok hs
    (fun c op socket he => by
      rw [he] at hwithin
      exact absurd hwithin (by simp [Event.withinRound]))
  rw [htasks] at ht'
  by_cases hc : c = e.coro
  · subst hc
    rw [Function.update_self] at ht'
    obtain rfl := Option.some.inj ht'
    rcases hlands hahead with hlt | hold
    · exact lt_of_le_of_lt h.moved hlt
    · exact lt_of_lt_of_le (h.ahead t ht hold) hle
  · rw [Function.update_of_ne hc] at ht'
    exact lt_of_lt_of_le (h.ahead t' ht' hahead) hle

/-- The beginning of a round. -/
theorem inRound_of_ssl {result error : Int} {consumed : ℕ} {produced : List UInt8}
    (h : Relays s) (hok : Assumed s (.ssl c result error consumed produced))
    (hs : step s (.ssl c result error consumed produced) = some s') : InRound s.moved c s' := by
  refine ⟨h.step hok hs, moved_le_of_moved (moved_of_step h.tracked hok.oneAtATime.1 hs),
    fun t' ht' hahead => ?_⟩
  cases stepped_of_step hs with
  | @ssl _ t ht hp _ _ _ _ =>
    have hbegins : Rests s c
        (serviceOperation (sslTransfer s consumed produced) c t result error) :=
      rests_serviceOperation hok.2.1 hok.2.2
    obtain ⟨t₁, htasks, -, hrests⟩ := hbegins
    rw [htasks, Function.update_self] at ht'
    obtain rfl := Option.some.inj ht'
    exact absurd (hahead.symm.trans hrests) (by simp)

/-- **A round that does not end the operation moves a byte**: between a call of
the operation of OpenSSL and the next one, which the coroutine is about to
make. -/
def RoundsMove (s : State) : Prop :=
  ∀ c result error consumed produced s₁ es s₂ t,
    Assumed s (.ssl c result error consumed produced) →
    step s (.ssl c result error consumed produced) = some s₁ →
    Run step (fun s e => Assumed s e ∧ e.withinRound = true) s₁ es s₂ →
    s₂.tasks c = some t → t.point = .operating → s.moved < s₂.moved

theorem Relays.roundsMove (h : Relays s) : RoundsMove s := by
  intro c result error consumed produced s₁ es s₂ t hok hs hrun ht hp
  have hround := hrun.invariant (P := InRound s.moved c)
    (fun _ _ _ hin hok he => hin.step hok.1 hok.2 he) (inRound_of_ssl h hok hs)
  exact hround.ahead t ht (by rw [hp]; rfl)

end Round

/-! ## Every run -/

/-- One operation at a time, nothing is held when it has ended. -/
theorem Relays.held_nil {s : State} (h : Relays s) (hactive : s.active = []) :
    s.unsent = [] ∧ s.unfed = [] := by
  have hdraining : s.draining = [] := List.eq_nil_iff_forall_not_mem.mpr (fun c hc => by
    have := active_of_draining h.tracked hc
    rw [hactive] at this
    exact absurd this (by simp))
  have hfeeding : s.feeding = [] := List.eq_nil_iff_forall_not_mem.mpr (fun c hc => by
    have := active_of_feeding h.tracked hc
    rw [hactive] at this
    exact absurd this (by simp))
  exact ⟨by rw [State.unsent, hdraining]; rfl, unfed_of_feeding_nil hfeeding⟩

/-- **One operation at a time, the relay is right.** In every run in which the
operations follow one another, without timeouts, and the BIO pair and OpenSSL
do what they should: no check of `bio_read` and `bio_write` fails; as long as
no write of the socket has failed, every byte drained has been sent, once and
in order, or is held by the operation in progress, and in any case what has
been sent is a part of what was drained, in its order; every byte received has
been fed, once and in order, or is held; and each round of the loop that does
not end the operation moves a byte. -/
theorem relays_of_run {es : List Event} {s : State} (h : Run step Assumed init es s) :
    (∀ c t x, s.tasks c = some t → t.point = .returned (.error x) → x ∉ relayFailures)
      ∧ (s.gaveUp = false → s.sent ++ s.unsent = s.drained)
      ∧ (s.sent ++ s.unsent).Sublist s.drained
      ∧ s.fed ++ s.unfed = s.received
      ∧ (s.active = [] → s.unsent = [] ∧ s.unfed = [])
      ∧ RoundsMove s := by
  have hrelays : Relays s :=
    h.invariant (P := Relays) (fun _ _ _ hr hok he => hr.step hok he) relays_init
  refine ⟨fun c t x ht hp => ?_, ?_, hrelays.kept, hrelays.fed, hrelays.held_nil,
    hrelays.roundsMove⟩
  · have hon := hrelays.on c t ht
    rw [hp] at hon
    exact hon
  · exact (alone_of_run (h.mono (fun _ _ hok => hok.oneAtATime))).2.2

/-- A connection is established, and an operation wants to write three bytes. The
socket takes one of them and then the others; OpenSSL wants to read, and the
socket has two bytes. -/
def writesThenReads : List Event :=
  [.call 0 .connect none, .resume 0 0, .ssl 0 1 SSL_ERROR_NONE 0 [],
    .call 1 (.readSome 8) none, .ssl 1 (-1) SSL_ERROR_WANT_WRITE 0 [1, 2, 3], .bioRead 1 3,
    .write 1 1, .resume 1 0, .write 1 2, .resume 1 0,
    .ssl 1 (-1) SSL_ERROR_WANT_READ 0 [], .bioRead 1 0, .read 1 [7, 8], .resume 1 2,
    .ssl 1 2 SSL_ERROR_NONE 2 []]

theorem relays_of_run_writesThenReads :
    ∃ s, Run step Assumed init writesThenReads s ∧ s.drained = [1, 2, 3] ∧ s.received = [7, 8]
      ∧ s.sent ++ s.unsent = [1, 2, 3] ∧ s.fed ++ s.unfed = [7, 8] := by
  obtain ⟨s, hrun, htest⟩ := exists_run_of_exec step Assumed init writesThenReads
    (fun s => s.gaveUp = false ∧ s.drained = [1, 2, 3] ∧ s.received = [7, 8]) (by decide)
  obtain ⟨hup, hdrained, hreceived⟩ := of_decide_eq_true htest
  have h := relays_of_run hrun
  exact ⟨s, hrun, hdrained, hreceived, (h.2.1 hup).trans hdrained, h.2.2.2.1.trans hreceived⟩

/-- What a failing write of the socket reports: `EPIPE`. -/
def brokenPipe : Outcome := Outcome.ofError 32 "write"

/-- **A write of the socket that fails.** Its bytes have been drained, and are not
sent when the operation has ended. -/
theorem unsent_after_broken_pipe :
    ¬ ∀ es s, Run step Assumed init es s → s.active = [] → s.sent = s.drained := by
  intro h
  obtain ⟨s, hrun, htest⟩ := exists_run_of_exec step Assumed init
    [.call 0 .connect none, .resume 0 0, .ssl 0 1 SSL_ERROR_NONE 0 [],
      .call 1 (.writeSome 1) none, .ssl 1 (-1) SSL_ERROR_WANT_WRITE 0 [1, 2, 3], .bioRead 1 3,
      .throw 1 brokenPipe]
    (fun s => s.active = [] ∧ s.sent = [] ∧ s.drained = [1, 2, 3]) (by decide)
  obtain ⟨hactive, hsent, hdrained⟩ := of_decide_eq_true htest
  have heq := h _ s hrun hactive
  rw [hsent, hdrained] at heq
  exact absurd heq (by decide)

end Tls
