import Felspar.Basic
import Felspar.Runs
import Felspar.SharedBuffer

/-!
# TLS over a socket

`tls.cpp` runs OpenSSL on a pair of memory BIOs and moves the bytes between
the network BIO and the socket itself. `tls::impl::service_operation` is the
loop that does so: it calls an operation of OpenSSL, and while that wants
more input or has output, it drains the network BIO to the socket with
`bio_read` and feeds it from the socket with `bio_write`. Both go through the
one array `impl::buffer`.

This module embeds these coroutines as a step function. A coroutine runs from
one suspension to the next without another one running in between, and while
it is suspended on a read or a write of the socket the kernel works on the
span of the buffer it was given: it takes bytes out of it or stores bytes in
it, at a moment of its own, before the coroutine is resumed.

OpenSSL and the socket are not part of the model. What they answer is part of
the event: what an operation returns, what `SSL_get_error` says of it, how
many bytes it has consumed from the network BIO and which it has produced,
what `BIO_read` and `BIO_write` return, how many bytes the socket takes and
which bytes arrive on it. The plain text never leaves OpenSSL and the span of
the caller, and is left out. A deadline shows as an await that throws, which
any of them may.

Four lists record the bytes in the order in which they passed: those
`drained` from the network BIO and those `sent`, those `received` from the
socket and those `fed` to the network BIO. Together with the lists of the
coroutines that hold some of them, the answers of each operation, and the
trace, they are there to state theorems with.
-/

namespace Tls

open SharedBuffer

/-! ## OpenSSL -/

/-- `SSL_ERROR_NONE` -/
abbrev SSL_ERROR_NONE : Int := 0

/-- `SSL_ERROR_WANT_READ` -/
abbrev SSL_ERROR_WANT_READ : Int := 2

/-- `SSL_ERROR_WANT_WRITE` -/
abbrev SSL_ERROR_WANT_WRITE : Int := 3

/-- `SSL_ERROR_ZERO_RETURN` -/
abbrev SSL_ERROR_ZERO_RETURN : Int := 6

/-- `impl::ssl_error`, when `SSL_get_error` answers `error`. -/
def sslError (error : Int) : String := "Unknown error " ++ toString error

/-! ## Operations -/

/-- A coroutine, by number. -/
abbrev CoroId := ℕ

/-- `tls::connect`, `tls::read_some` and `tls::write_some`, the last two with
the size of their span. -/
inductive Op
  | connect
  | readSome (size : ℕ)
  | writeSome (size : ℕ)
  deriving DecidableEq

/-- What the task of an operation produces. -/
inductive Result
  | tls
  | size (n : ℕ)
  deriving DecidableEq

/-- What an operation makes of the integer `service_operation` returns, with
the last answer of `SSL_get_error`. -/
def Op.returns (op : Op) (error ret : Int) : Except Exception Result :=
  match op with
  | .connect => .ok .tls
  | .readSome _ =>
    if ret < 0 then
      .error (.runtimeError ("Error performing SSL_read: " ++ sslError error))
    else .ok (.size ret.toNat)
  | .writeSome _ =>
    if ret ≤ 0 then .error (.runtimeError "Error performing SSL_write")
    else .ok (.size ret.toNat)

/-- `impl::buffer.size()` -/
def bufferSize : ℕ := 17 <<< 10

/-- The part of the buffer `write_all` has still to write. It is never empty,
and never reaches beyond the end. -/
structure Span where
  off : ℕ
  len : ℕ
  pos : 0 < len
  fits : off + len ≤ bufferSize

/-- The branch of `service_operation` that is in `bio_read`. -/
inductive Want
  | read
  | write
  deriving DecidableEq

/-- Where the coroutine of an operation is. -/
inductive Point
  /-- `tls::connect` awaits `warden.connect`. -/
  | connecting
  /-- About to call the operation of OpenSSL. -/
  | operating
  /-- At the beginning of `bio_read`. -/
  | bioRead (want : Want)
  /-- `write_all` awaits a `write_some` of the span. -/
  | writing (span : Span) (want : Want)
  /-- The socket has taken the first `n` bytes of the span. -/
  | wrote (span : Span) (n : ℕ) (le : n ≤ span.len) (want : Want)
  /-- `bio_write` awaits a `read_some` into the buffer. -/
  | reading
  /-- The first `n` bytes of the buffer have been received. -/
  | received (n : ℕ)
  /-- The operation has returned or thrown. -/
  | returned (result : Except Exception Result)

/-- What an operation has been told. -/
inductive Answer
  /-- What the operation of OpenSSL returned, and `SSL_get_error` after it. -/
  | ssl (result error : Int)
  /-- The number of bytes `read_some` read. -/
  | read (n : ℕ)
  deriving DecidableEq

/-- The last answer of `SSL_get_error`. -/
def lastError : List Answer → Option Int
  | [] => none
  | .ssl _ error :: _ => some error
  | .read _ :: earlier => lastError earlier

/-- The coroutine of an operation, with the answers it got, newest first. -/
structure Task where
  op : Op
  point : Point
  answers : List Answer := []

namespace Point

/-- The bytes of the buffer that have been drained and not been sent, as an
offset and a length. -/
def unsent : Point → ℕ × ℕ
  | .writing span _ => (span.off, span.len)
  | .wrote span n _ _ => (span.off + n, span.len - n)
  | _ => (0, 0)

/-- How many bytes at the front of the buffer have been received and not been
fed. -/
def unfed : Point → ℕ
  | .received n => n
  | _ => 0

/-- The operation has not ended. -/
def inProgress : Point → Bool
  | .returned _ => false
  | _ => true

end Point

/-! ## The state -/

/-- How far `tls::connect` has come. -/
inductive Phase
  | start
  | connecting
  | connected
  deriving DecidableEq

/-- An await that ends an operation or loses what it was to write. -/
inductive Obs
  /-- The `read_some` of `bio_write` throws. -/
  | readThrew (c : CoroId) (outcome : Outcome)
  /-- The `write_some` of `write_all` throws. -/
  | writeThrew (c : CoroId) (outcome : Outcome)
  /-- The `write_some` of `write_all` returns zero. -/
  | wroteNothing (c : CoroId)
  deriving DecidableEq

/-- **The state of a connection.** -/
structure State where
  /-- What `BIO_read` on the network BIO reads next. -/
  outgoing : List UInt8
  /-- What OpenSSL has still to consume. -/
  incoming : List UInt8
  buffer : ℕ → UInt8
  tasks : CoroId → Option Task
  /-- The coroutine that runs. -/
  running : Option CoroId
  phase : Phase
  drained : List UInt8
  sent : List UInt8
  received : List UInt8
  fed : List UInt8
  /-- The coroutines that hold bytes to be sent, in the order they drained
  them. -/
  draining : List CoroId
  /-- The coroutines that hold bytes to be fed. -/
  feeding : List CoroId
  /-- The coroutines in an operation. -/
  active : List CoroId
  trace : List Obs

/-- Before `tls::connect` is called. -/
def init : State where
  outgoing := []
  incoming := []
  buffer := fun _ => 0
  tasks := fun _ => none
  running := none
  phase := .start
  drained := []
  sent := []
  received := []
  fed := []
  draining := []
  feeding := []
  active := []
  trace := []

namespace State

/-- The coroutine `c` is now where the task says. -/
def setTask (s : State) (c : CoroId) (t : Task) : State :=
  { s with
    tasks := Function.update s.tasks c (some t)
    draining := track c (0 < t.point.unsent.2) s.draining
    feeding := track c (0 < t.point.unfed) s.feeding
    active := track c t.point.inProgress s.active }

/-- The coroutine `c` runs on, at the point `p`. -/
def runAt (s : State) (c : CoroId) (t : Task) (p : Point) : State :=
  { s.setTask c { t with point := p } with running := some c }

/-- The coroutine `c` is suspended, or has ended, at the point `p`. -/
def stopAt (s : State) (c : CoroId) (t : Task) (p : Point) : State :=
  { s.setTask c { t with point := p } with running := none }

/-- Record an observation. -/
def observe (s : State) (o : Obs) : State := { s with trace := o :: s.trace }

end State

/-! ## The coroutines -/

/-- The operation throws. -/
def throwException (s : State) (c : CoroId) (t : Task) (e : Exception) : State :=
  s.stopAt c t (.returned (.error e))

/-- `service_operation` returns, and so does the operation that awaits it. -/
def coReturn (s : State) (c : CoroId) (t : Task) (ret : Int) : State :=
  let s := s.stopAt c t
    (.returned (t.op.returns ((lastError t.answers).getD SSL_ERROR_NONE) ret))
  match t.op with
  | .connect => { s with phase := .connected }
  | _ => s

/-- `bio_read` returns to the branch of `service_operation` it is in, which
goes on to `bio_write` or to the next round. -/
def bioReadReturns (s : State) (c : CoroId) (t : Task) : Want → State
  | .read => s.stopAt c t .reading
  | .write => s.runAt c t .operating

/-- The loop of `write_all`, with this part of the buffer left. -/
def writeAll (s : State) (c : CoroId) (t : Task) (want : Want) (off len : ℕ)
    (fits : off + len ≤ bufferSize) : State :=
  if h : 0 < len then s.stopAt c t (.writing ⟨off, len, h, fits⟩ want)
  else bioReadReturns s c t want

/-- `BIO_read` on the network BIO, which reads `n` bytes. -/
def bioDrain (s : State) (n : ℕ) : State :=
  { s with
    outgoing := s.outgoing.drop n
    buffer := store s.buffer 0 (s.outgoing.take n)
    drained := s.drained ++ s.outgoing.take n }

/-- `bio_read`, where `BIO_read` returns `read`. -/
def bioRead (s : State) (c : CoroId) (t : Task) (want : Want) (read : Int) : State :=
  if h : bufferSize < s.outgoing.length then
    throwException s c t (.logicError "Pending read BIO buffer too small")
  else if s.outgoing = [] then bioReadReturns s c t want
  else if read ≤ 0 then
    throwException (bioDrain s read.toNat) c t (.runtimeError "Error reading from BIO")
  else if read ≠ s.outgoing.length then
    throwException (bioDrain s read.toNat) c t
      (.runtimeError "Reading BIO read bytes mismatch")
  else
    writeAll (bioDrain s read.toNat) c t want 0 s.outgoing.length (by omega)

/-- One round of `service_operation`, when the operation of OpenSSL returned
`result` and `SSL_get_error` says `error`. -/
def serviceOperation (s : State) (c : CoroId) (t : Task) (result error : Int) : State :=
  let t := { t with answers := .ssl result error :: t.answers }
  if error = SSL_ERROR_NONE then coReturn s c t result
  else if error = SSL_ERROR_WANT_READ then s.runAt c t (.bioRead .read)
  else if error = SSL_ERROR_WANT_WRITE then s.runAt c t (.bioRead .write)
  else if error = SSL_ERROR_ZERO_RETURN then coReturn s c t 0
  else throwException s c t (.runtimeError ("Unknown openssl error " ++ toString error))

/-- `BIO_write` on the network BIO, which takes the first `n` bytes of the
buffer. -/
def bioFeed (s : State) (n : ℕ) : State :=
  { s with
    incoming := s.incoming ++ slice s.buffer 0 n
    fed := s.fed ++ slice s.buffer 0 n }

/-- The rest of `bio_write`, once `read_some` has read `n` bytes, where
`BIO_write` returns `written`. -/
def bioWrite (s : State) (c : CoroId) (t : Task) (n : ℕ) (written : Int) : State :=
  let t := { t with answers := .read n :: t.answers }
  -- the end of the stream
  if n = 0 then coReturn s c t 0
  else if written < 0 then
    throwException s c t (.runtimeError "Error writing to BIO")
  else if written ≠ n then
    throwException (bioFeed s written.toNat) c t
      (.runtimeError "Not all bytes written to BIO")
  else (bioFeed s n).runAt c t .operating

/-- `write_all` is resumed, once `write_some` has written `n` bytes of the
span. -/
def writeSomeReturns (s : State) (c : CoroId) (t : Task) (want : Want) (span : Span)
    (n : ℕ) (le : n ≤ span.len) : State :=
  -- `write_all` returns, and the rest of the span is not sent
  if n = 0 then bioReadReturns (s.observe (.wroteNothing c)) c t want
  else writeAll s c t want (span.off + n) (span.len - n) (by
    have := span.fits
    omega)

/-! ## The steps -/

/-- What the coroutines do, and what OpenSSL, the kernel and the warden
answer them. -/
inductive Event
  /-- A coroutine that is in no operation calls one. For a connect, `socket`
  is what `create_socket` throws, if it does. -/
  | call (c : CoroId) (op : Op) (socket : Option Exception)
  /-- The operation of OpenSSL is called. It consumes a number of bytes from
  the network BIO, and produces bytes. -/
  | ssl (c : CoroId) (result error : Int) (consumed : ℕ) (produced : List UInt8)
  /-- `bio_read` is called, and `BIO_read`, if it is called, returns `read`. -/
  | bioRead (c : CoroId) (read : Int)
  /-- The socket takes `n` bytes of a `write_some`. -/
  | write (c : CoroId) (n : ℕ)
  /-- The socket has these bytes for a `read_some`. There are none at the end
  of the stream. -/
  | read (c : CoroId) (bytes : List UInt8)
  /-- The coroutine is resumed with what it awaits. For a `read_some`, what
  `BIO_write` returns is `written`. -/
  | resume (c : CoroId) (written : Int)
  /-- What the coroutine awaits throws. -/
  | throw (c : CoroId) (outcome : Outcome)

/-- The coroutine the event is about. -/
def Event.coro : Event → CoroId
  | .call c _ _ | .ssl c _ _ _ _ | .bioRead c _ | .write c _ | .read c _ | .resume c _
  | .throw c _ => c

/-- The operation may be called: a connection is connected once, and there is
a `tls` when that has returned one. -/
def Op.callable : Op → Phase → Bool
  | .connect, .start => true
  | .readSome _, .connected => true
  | .writeSome _, .connected => true
  | _, _ => false

/-- An operation is called. -/
def call (s : State) (c : CoroId) (op : Op) (socket : Option Exception) : State :=
  match op with
  | .connect =>
    let s := { s with phase := .connecting }
    match socket with
    | some e => throwException s c { op := op, point := .connecting } e
    | none => s.stopAt c { op := op, point := .connecting } .connecting
  | _ => s.runAt c { op := op, point := .operating } .operating

/-- The operation of OpenSSL works on the BIO pair. -/
def sslTransfer (s : State) (consumed : ℕ) (produced : List UInt8) : State :=
  { s with
    outgoing := s.outgoing ++ produced
    incoming := s.incoming.drop consumed }

/-- **A step of a connection.** -/
def step (s : State) : Event → Option State
  | .call c op socket =>
    if s.running = none ∧ c ∉ s.active ∧ op.callable s.phase = true then
      some (call s c op socket)
    else none
  | .ssl c result error consumed produced =>
    if s.running = some c then (s.tasks c).bind (fun t => match t.point with
      | .operating =>
        some (serviceOperation (sslTransfer s consumed produced) c t result error)
      | _ => none)
    else none
  | .bioRead c read =>
    if s.running = some c ∧ read ≤ s.outgoing.length then
      (s.tasks c).bind (fun t => match t.point with
        | .bioRead want => some (bioRead s c t want read)
        | _ => none)
    else none
  | .write c n => (s.tasks c).bind (fun t => match t.point with
    | .writing span want =>
      if le : n ≤ span.len then
        some ({ s with sent := s.sent ++ slice s.buffer span.off n }.setTask c
          { t with point := .wrote span n le want })
      else none
    | _ => none)
  | .read c bytes => (s.tasks c).bind (fun t => match t.point with
    | .reading =>
      if bytes.length ≤ bufferSize then
        some ({ s with
          buffer := store s.buffer 0 bytes
          received := s.received ++ bytes }.setTask c
            { t with point := .received bytes.length })
      else none
    | _ => none)
  | .resume c written =>
    if s.running = none then (s.tasks c).bind (fun t => match t.point with
      | .connecting => some (s.runAt c t .operating)
      | .wrote span n le want => some (writeSomeReturns s c t want span n le)
      | .received n =>
        if written ≤ n then some (bioWrite s c t n written) else none
      | _ => none)
    else none
  | .throw c outcome =>
    if s.running = none ∧ outcome.ok = false then
      (s.tasks c).bind (fun t => match t.point with
        | .connecting => some (throwException s c t outcome.throwException)
        | .writing _ _ =>
          some (throwException (s.observe (.writeThrew c outcome)) c t
            outcome.throwException)
        | .reading =>
          some (throwException (s.observe (.readThrew c outcome)) c t
            outcome.throwException)
        | _ => none)
    else none

/-! ## What a step can do -/

/-- **The steps, one by one**: the event, what the state was for it to be
possible, and the state after it. -/
inductive Stepped (s : State) : Event → State → Prop
  | call {c : CoroId} (hc : c ∉ s.active) {op : Op}
      (hop : op.callable s.phase = true) (socket : Option Exception) :
      Stepped s (.call c op socket) (call s c op socket)
  | ssl {c : CoroId} {t : Task} (ht : s.tasks c = some t) (hp : t.point = .operating)
      (result error : Int) (consumed : ℕ) (produced : List UInt8) :
      Stepped s (.ssl c result error consumed produced)
        (serviceOperation (sslTransfer s consumed produced) c t result error)
  | bioRead {c : CoroId} {t : Task} (ht : s.tasks c = some t) {want : Want}
      (hp : t.point = .bioRead want) {read : Int} (hread : read ≤ s.outgoing.length) :
      Stepped s (.bioRead c read) (bioRead s c t want read)
  | write {c : CoroId} {t : Task} (ht : s.tasks c = some t) {span : Span} {want : Want}
      (hp : t.point = .writing span want) {n : ℕ} (le : n ≤ span.len) :
      Stepped s (.write c n)
        ({ s with sent := s.sent ++ slice s.buffer span.off n }.setTask c
          { t with point := .wrote span n le want })
  | read {c : CoroId} {t : Task} (ht : s.tasks c = some t) (hp : t.point = .reading)
      {bytes : List UInt8} (hle : bytes.length ≤ bufferSize) :
      Stepped s (.read c bytes)
        ({ s with
          buffer := store s.buffer 0 bytes
          received := s.received ++ bytes }.setTask c
            { t with point := .received bytes.length })
  | connected {c : CoroId} {t : Task} (ht : s.tasks c = some t)
      (hp : t.point = .connecting) (written : Int) :
      Stepped s (.resume c written) (s.runAt c t .operating)
  | wrote {c : CoroId} {t : Task} (ht : s.tasks c = some t) {span : Span} {n : ℕ}
      {le : n ≤ span.len} {want : Want} (hp : t.point = .wrote span n le want)
      (written : Int) :
      Stepped s (.resume c written) (writeSomeReturns s c t want span n le)
  | received {c : CoroId} {t : Task} (ht : s.tasks c = some t) {n : ℕ}
      (hp : t.point = .received n) {written : Int} (hle : written ≤ n) :
      Stepped s (.resume c written) (bioWrite s c t n written)
  | connectThrew {c : CoroId} {t : Task} (ht : s.tasks c = some t)
      (hp : t.point = .connecting) (outcome : Outcome) :
      Stepped s (.throw c outcome) (throwException s c t outcome.throwException)
  | writeThrew {c : CoroId} {t : Task} (ht : s.tasks c = some t) {span : Span}
      {want : Want} (hp : t.point = .writing span want) (outcome : Outcome) :
      Stepped s (.throw c outcome)
        (throwException (s.observe (.writeThrew c outcome)) c t outcome.throwException)
  | readThrew {c : CoroId} {t : Task} (ht : s.tasks c = some t) (hp : t.point = .reading)
      (outcome : Outcome) :
      Stepped s (.throw c outcome)
        (throwException (s.observe (.readThrew c outcome)) c t outcome.throwException)

/-- **Every step is one of them.** -/
theorem stepped_of_step {s s' : State} {e : Event} (h : step s e = some s') :
    Stepped s e s' := by
  cases e with
  | call c op socket =>
    simp only [step] at h
    split at h
    case isTrue hg => exact Option.some.inj h ▸ Stepped.call hg.2.1 hg.2.2 socket
    case isFalse => exact absurd h (by simp)
  | ssl c result error consumed produced =>
    simp only [step] at h
    split at h
    case isTrue =>
      obtain ⟨t, ht, h⟩ := Option.bind_eq_some_iff.mp h
      cases hp : t.point with
      | operating =>
        simp only [hp] at h
        exact Option.some.inj h ▸ Stepped.ssl ht hp result error consumed produced
      | _ => simp [hp] at h
    case isFalse => exact absurd h (by simp)
  | bioRead c read =>
    simp only [step] at h
    split at h
    case isTrue hg =>
      obtain ⟨t, ht, h⟩ := Option.bind_eq_some_iff.mp h
      cases hp : t.point with
      | bioRead want =>
        simp only [hp] at h
        exact Option.some.inj h ▸ Stepped.bioRead ht hp hg.2
      | _ => simp [hp] at h
    case isFalse => exact absurd h (by simp)
  | write c n =>
    obtain ⟨t, ht, h⟩ := Option.bind_eq_some_iff.mp h
    cases hp : t.point with
    | writing span want =>
      simp only [hp] at h
      split at h
      case isTrue le => exact Option.some.inj h ▸ Stepped.write ht hp le
      case isFalse => exact absurd h (by simp)
    | _ => simp [hp] at h
  | read c bytes =>
    obtain ⟨t, ht, h⟩ := Option.bind_eq_some_iff.mp h
    cases hp : t.point with
    | reading =>
      simp only [hp] at h
      split at h
      case isTrue hle => exact Option.some.inj h ▸ Stepped.read ht hp hle
      case isFalse => exact absurd h (by simp)
    | _ => simp [hp] at h
  | resume c written =>
    simp only [step] at h
    split at h
    case isTrue =>
      obtain ⟨t, ht, h⟩ := Option.bind_eq_some_iff.mp h
      cases hp : t.point with
      | connecting =>
        simp only [hp] at h
        exact Option.some.inj h ▸ Stepped.connected ht hp written
      | wrote span n le want =>
        simp only [hp] at h
        exact Option.some.inj h ▸ Stepped.wrote ht hp written
      | received n =>
        simp only [hp] at h
        split at h
        case isTrue hle => exact Option.some.inj h ▸ Stepped.received ht hp hle
        case isFalse => exact absurd h (by simp)
      | _ => simp [hp] at h
    case isFalse => exact absurd h (by simp)
  | throw c outcome =>
    simp only [step] at h
    split at h
    case isTrue =>
      obtain ⟨t, ht, h⟩ := Option.bind_eq_some_iff.mp h
      cases hp : t.point with
      | connecting =>
        simp only [hp] at h
        exact Option.some.inj h ▸ Stepped.connectThrew ht hp outcome
      | writing span want =>
        simp only [hp] at h
        exact Option.some.inj h ▸ Stepped.writeThrew ht hp outcome
      | reading =>
        simp only [hp] at h
        exact Option.some.inj h ▸ Stepped.readThrew ht hp outcome
      | _ => simp [hp] at h
    case isFalse => exact absurd h (by simp)

end Tls
