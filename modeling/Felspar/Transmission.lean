import Felspar.CompoundOperations
import Felspar.PollWarden

/-!
# Writing and reading over a channel

A coroutine that writes a string with `write_all` and one that reads with
`read_exactly`, at the two ends of a pipe or of a connection. Each awaits one
transfer after another. A transfer is a system call that is made when it is
awaited and again each time the descriptor is ready, until it does not block
any more; it moves as many bytes as the kernel pleases, up to what there is
room for.

A run is any interleaving of the answers to these calls. Every byte that the
channel has accepted has been taken out of it or is still in it, so both
loops count what the channel has accepted: the number `write_all` returns is
that of the accepted bytes, whichever of its two ways out it takes, and
`read_exactly` has put the first of them into its buffer and has left the
rest of it as it was (`transmission_of_run`).
-/

open SharedBuffer

namespace Transmission

open Compound PollWarden

/-! ## The channel and the coroutines -/

/-- A channel: the descriptors of its two ends, and how many bytes it
holds. -/
structure Channel where
  readEnd : SocketDescriptor
  writeEnd : SocketDescriptor
  capacity : ℕ

/-- **The state**: the two coroutines, and what is in the channel. All bytes
that have been `accepted` by the channel and all that have been `taken` out of
it are there to state theorems with. -/
structure State where
  writer : Progress WriteAll ℕ
  reader : Progress ReadExactly ℕ
  channel : List UInt8 := []
  closed : Bool := false
  accepted : List UInt8 := []
  taken : List UInt8 := []

/-- `write_all` of the string has been called, and `read_exactly` of a buffer
of `m` bytes. -/
def start (s : List UInt8) (memory : ℕ → UInt8) (m : ℕ) : State where
  writer := writeAll s
  reader := readExactly memory m

/-- The answers of the kernel to the system calls of the two IOPs. -/
inductive Event
  /-- The `::write` of the `write_some`, tried or retried. -/
  | write (r : Sys)
  /-- The `::read` of the `read_some`. -/
  | read (r : Sys)
  /-- The write end is closed. -/
  | close

/-- The `co_await` of a `write_some` ends with this outcome. -/
def writeAwaited (f : WriteAll) (o : Outcome) : Progress WriteAll ℕ :=
  match o.value with
  | .ok n => f.resume n.toNat
  | .error e => .throws e

/-- The `co_await` of a `read_some` ends with this outcome, when these bytes
have been read. -/
def readAwaited (f : ReadExactly) (bytes : List UInt8) (o : Outcome) :
    Progress ReadExactly ℕ :=
  match o.value with
  | .ok _ => f.resume bytes
  | .error e => .throws e

/-- The state when the `::write` has answered, and has not blocked. -/
def State.wrote (p : Channel) (s : State) (f : WriteAll) (r : Sys) : State :=
  { s with
    writer := writeAwaited f ((Op.writeSome p.writeEnd f.out.length).answered r {})
    channel := s.channel ++ f.out.take r.ret.toNat
    accepted := s.accepted ++ f.out.take r.ret.toNat }

/-- The same of the `::read`. -/
def State.read (p : Channel) (s : State) (f : ReadExactly) (r : Sys) : State :=
  { s with
    reader := readAwaited f (s.channel.take r.ret.toNat)
      ((Op.readSome p.readEnd f.inSize).answered r {})
    channel := s.channel.drop r.ret.toNat
    taken := s.taken ++ s.channel.take r.ret.toNat }

/-- **A step.** A call that blocks leaves its coroutine suspended. The channel
takes no more than there is room for and gives no more than it has, and a
`::read` reads nothing only at its end. -/
def step (p : Channel) (s : State) : Event → Option State
  | .write r => match s.writer with
    | .awaits f =>
      if (Op.writeSome p.writeEnd f.out.length).waits r then some s
      else if r.ret ≤ min f.out.length (p.capacity - s.channel.length) then some (s.wrote p f r)
      else none
    | _ => none
  | .read r => match s.reader with
    | .awaits f =>
      if (Op.readSome p.readEnd f.inSize).waits r then some s
      else if r.ret ≤ min f.inSize s.channel.length
          ∧ (r.ret = 0 → s.channel = [] ∧ s.closed = true) then some (s.read p f r)
      else none
    | _ => none
  | .close => match s.writer with
    | .returns _ _ => some { s with closed := true }
    | _ => none

/-- **No operation fails.** -/
def NoFailure (_ : State) : Event → Prop
  | .write r | .read r => r.ret < 0 → wouldBlock r.errno = true
  | .close => True

instance : DecidableRel NoFailure := fun _ e =>
  match e with
  | .write r | .read r => inferInstanceAs (Decidable (r.ret < 0 → wouldBlock r.errno = true))
  | .close => inferInstanceAs (Decidable True)

/-- No `write_some` returns zero. -/
def WritesSome (_ : State) : Event → Prop
  | .write r => r.ret ≠ 0
  | _ => True

instance : DecidableRel WritesSome := fun _ e =>
  match e with
  | .write r => inferInstanceAs (Decidable (r.ret ≠ 0))
  | .read _ | .close => inferInstanceAs (Decidable True)

/-- No operation fails, and no `write_some` returns zero. -/
def Smooth (s : State) (e : Event) : Prop := NoFailure s e ∧ WritesSome s e

instance : DecidableRel Smooth := fun s e =>
  inferInstanceAs (Decidable (NoFailure s e ∧ WritesSome s e))

/-! ## What a step can do -/

/-- **The steps, one by one.** -/
inductive Stepped (p : Channel) (s : State) : Event → State → Prop
  | writeBlocks {f : WriteAll} (hw : s.writer = .awaits f) {r : Sys}
      (hb : (Op.writeSome p.writeEnd f.out.length).waits r = true) : Stepped p s (.write r) s
  | writes {f : WriteAll} (hw : s.writer = .awaits f) {r : Sys}
      (hb : (Op.writeSome p.writeEnd f.out.length).waits r = false)
      (hle : r.ret ≤ min f.out.length (p.capacity - s.channel.length)) :
      Stepped p s (.write r) (s.wrote p f r)
  | readBlocks {f : ReadExactly} (hr : s.reader = .awaits f) {r : Sys}
      (hb : (Op.readSome p.readEnd f.inSize).waits r = true) : Stepped p s (.read r) s
  | reads {f : ReadExactly} (hr : s.reader = .awaits f) {r : Sys}
      (hb : (Op.readSome p.readEnd f.inSize).waits r = false)
      (hle : r.ret ≤ min f.inSize s.channel.length)
      (hend : r.ret = 0 → s.channel = [] ∧ s.closed = true) :
      Stepped p s (.read r) (s.read p f r)
  | closes {f : WriteAll} {n : ℕ} (hw : s.writer = .returns f n) :
      Stepped p s .close { s with closed := true }

/-- **Every step is one of them.** -/
theorem stepped_of_step {p : Channel} {s s' : State} {e : Event} (h : step p s e = some s') :
    Stepped p s e s' := by
  cases e with
  | write r =>
    cases hw : s.writer with
    | awaits f =>
      simp only [step, hw] at h
      split at h
      case isTrue hb => exact Option.some.inj h ▸ Stepped.writeBlocks hw hb
      case isFalse hb =>
        split at h
        case isTrue hle =>
          exact Option.some.inj h ▸ Stepped.writes hw (Bool.eq_false_iff.mpr hb) hle
        case isFalse => exact absurd h (by simp)
    | _ => simp [step, hw] at h
  | read r =>
    cases hr : s.reader with
    | awaits f =>
      simp only [step, hr] at h
      split at h
      case isTrue hb => exact Option.some.inj h ▸ Stepped.readBlocks hr hb
      case isFalse hb =>
        split at h
        case isTrue hg =>
          exact Option.some.inj h ▸ Stepped.reads hr (Bool.eq_false_iff.mpr hb) hg.1 hg.2
        case isFalse => exact absurd h (by simp)
    | _ => simp [step, hr] at h
  | close =>
    simp only [step] at h
    split at h
    case h_1 f n hw => exact Option.some.inj h ▸ Stepped.closes hw
    case h_2 => exact absurd h (by simp)

/-! ## What a transfer does -/

section Awaited

variable {r : Sys} {fd : SocketDescriptor} {size : ℕ}

/-- A `write_some` that does not fail, and is not left to wait, has written
what `::write` says. -/
theorem value_write (hok : r.ret < 0 → wouldBlock r.errno = true)
    (hw : (Op.writeSome fd size).waits r = false) :
    0 ≤ r.ret ∧ ((Op.writeSome fd size).answered r {}).value = .ok r.ret := by
  have hpos : 0 ≤ r.ret := by
    by_contra hneg
    have hlt : r.ret < 0 := not_le.mp hneg
    rw [show (Op.writeSome fd size).waits r = (r.ret < 0 && wouldBlock r.errno) from rfl,
      hok hlt, decide_eq_true hlt] at hw
    exact absurd hw (by simp)
  refine ⟨hpos, ?_⟩
  unfold Op.answered
  dsimp only
  rw [if_pos hpos, Outcome.value_ofResult]

/-- The same of a `read_some`. -/
theorem value_read (hok : r.ret < 0 → wouldBlock r.errno = true)
    (hw : (Op.readSome fd size).waits r = false) :
    0 ≤ r.ret ∧ ((Op.readSome fd size).answered r {}).value = .ok r.ret := by
  have hw : (Op.writeSome fd size).waits r = false := hw
  have hpos := (value_write hok hw).1
  refine ⟨hpos, ?_⟩
  unfold Op.answered
  dsimp only
  rw [if_pos hpos, Outcome.value_ofResult]

end Awaited

/-! ## Every run -/

/-- **The channel and the two loops.** What the channel has accepted has been
taken out of it or is in it; the one loop has written what it has accepted,
and the other has read what has been taken. -/
structure Transmitted (s : List UInt8) (memory : ℕ → UInt8) (m : ℕ) (t : State) : Prop where
  channel : t.taken ++ t.channel = t.accepted
  writer : Wrote s t.accepted t.writer
  reader : Filled memory m t.taken (t.channel = [] ∧ t.closed = true) t.reader
  closed : t.closed = true → ∃ f n, t.writer = .returns f n

section Run

variable {p : Channel} {s : List UInt8} {memory : ℕ → UInt8} {m : ℕ} {t t' : State} {e : Event}

theorem transmitted_start : Transmitted s memory m (start s memory m) :=
  ⟨rfl, wrote_writeAll, filled_readExactly, fun h => absurd h (by simp [start])⟩

/-- **Every step keeps it.** -/
theorem Transmitted.step (h : Transmitted s memory m t) (hok : NoFailure t e)
    (hs : step p t e = some t') : Transmitted s memory m t' := by
  cases stepped_of_step hs with
  | writeBlocks => exact h
  | readBlocks => exact h
  | @writes f hw r hb hle =>
    obtain ⟨-, hval⟩ := value_write hok hb
    have hopen : t.closed ≠ true := fun hc => by
      obtain ⟨g, n, hg⟩ := h.closed hc
      exact absurd (hw.symm.trans hg) (by simp)
    refine ⟨?_, ?_, h.reader.mono (fun hc => absurd hc.2 hopen), fun hc => absurd hc hopen⟩
    · show t.taken ++ (t.channel ++ _) = t.accepted ++ _
      rw [← List.append_assoc, h.channel]
    · show Wrote s _ (writeAwaited f _)
      rw [writeAwaited, hval]
      exact (hw ▸ h.writer).resume
  | @reads f hr r hb hle hend =>
    obtain ⟨hpos, hval⟩ := value_read hok hb
    refine ⟨?_, h.writer, ?_, h.closed⟩
    · show t.taken ++ t.channel.take _ ++ t.channel.drop _ = t.accepted
      rw [List.append_assoc, List.take_append_drop, h.channel]
    · show Filled memory m _ (t.channel.drop _ = [] ∧ t.closed = true) (readAwaited f _ _)
      rw [readAwaited, hval]
      have hlen : (t.channel.take r.ret.toNat).length = r.ret.toNat := by
        rw [List.length_take]
        omega
      refine (hr ▸ h.reader).resume (by omega) (fun hnil => ?_)
      have hzero : r.ret = 0 := by
        rw [hnil, List.length_nil] at hlen
        omega
      obtain ⟨hempty, hclosed⟩ := hend hzero
      exact ⟨by rw [hempty, List.drop_nil], hclosed⟩
  | closes hw =>
    exact ⟨h.channel, h.writer, h.reader.mono (fun hc => ⟨hc.1, rfl⟩), fun _ => ⟨_, _, hw⟩⟩

/-- It holds in every run. -/
theorem transmitted_of_run {es : List Event}
    (h : Run (Transmission.step p) NoFailure (start s memory m) es t) :
    Transmitted s memory m t :=
  h.invariant (fun _ _ _ ht hok hs => ht.step hok hs) transmitted_start

/-- **What `write_all` returns** is the number of bytes the channel has
accepted. -/
theorem Transmitted.write_all (h : Transmitted s memory m t) {f : WriteAll} {n : ℕ}
    (hw : t.writer = .returns f n) : n = t.accepted.length := by
  have hwrote := h.writer
  rw [hw] at hwrote
  cases hwrote with
  | returns f n hout hn => exact hn

/-- The channel accepts the string from its beginning. -/
theorem Transmitted.accepted_prefix (h : Transmitted s memory m t) : t.accepted <+: s := by
  have hwrote := h.writer
  generalize t.writer = w at hwrote
  cases hwrote with
  | awaits f hs hout hne => exact ⟨f.out, hout⟩
  | returns f n hout hn => exact ⟨f.out, hout⟩

/-- **What `read_exactly` returns** is the number of bytes the channel has
accepted, if there is room for them, and the buffer has the first of
them. -/
theorem Transmitted.read_exactly (h : Transmitted s memory m t) {f : ReadExactly} {n : ℕ}
    (hr : t.reader = .returns f n) :
    n = min m t.accepted.length ∧ slice f.memory 0 n = s.take n
      ∧ ∀ i, n ≤ i → f.memory i = memory i := by
  have hfilled := h.reader
  rw [hr] at hfilled
  obtain ⟨hslice, hrest⟩ := hfilled.contents
  obtain ⟨rest, hs⟩ := h.accepted_prefix
  cases hfilled with
  | returns f n hmemory hn hle hend =>
    have hlen := congrArg List.length h.channel
    rw [List.length_append] at hlen
    refine ⟨?_, ?_, hrest⟩
    · rcases hend with hfull | ⟨hempty, -⟩
      · omega
      · rw [hempty, List.length_nil] at hlen
        omega
    · rw [hslice, ← hs, ← h.channel, List.append_assoc, hn, List.take_left' rfl]

/-- Neither of them throws. -/
theorem Transmitted.not_throws (h : Transmitted s memory m t) (x : Exception) :
    t.writer ≠ .throws x ∧ t.reader ≠ .throws x := by
  constructor
  · intro hw
    have hwrote := h.writer
    rw [hw] at hwrote
    cases hwrote
  · intro hr
    have hfilled := h.reader
    rw [hr] at hfilled
    cases hfilled

/-- **When every `write_some` writes something**, `write_all` returns the
length of the string. -/
theorem whole_of_run {es : List Event}
    (h : Run (Transmission.step p) Smooth (start s memory m) es t) :
    Transmitted s memory m t ∧ ∀ f n, t.writer = .returns f n → n = s.length := by
  refine h.invariant
    (P := fun t => Transmitted s memory m t ∧ ∀ f n, t.writer = .returns f n → n = s.length)
    (fun t e t' ht hok hs => ⟨ht.1.step hok.1 hs, fun f n hw => ?_⟩)
    ⟨transmitted_start, fun f n hw => ?_⟩
  · cases stepped_of_step hs with
    | writeBlocks => exact ht.2 f n hw
    | readBlocks => exact ht.2 f n hw
    | @writes g hg r hb hle =>
      obtain ⟨hpos, hval⟩ := value_write hok.1 hb
      have hne : r.ret ≠ 0 := hok.2
      have hw : writeAwaited g _ = .returns f n := hw
      rw [writeAwaited, hval] at hw
      exact (hg ▸ ht.1.writer).resume_returns (by omega) hw
    | reads => exact ht.2 f n hw
    | closes => exact ht.2 f n hw
  · have hwrote : Wrote s [] (writeAll s) := wrote_writeAll
    have hw : writeAll s = .returns f n := hw
    unfold writeAll WriteAll.loop at hw
    split at hw
    · exact absurd hw (by simp)
    · exact (Progress.returns.inj hw).2.symm

/-- Then as much of the string is read as there is room for. -/
theorem Transmitted.read_whole (h : Transmitted s memory m t)
    (hall : ∀ f n, t.writer = .returns f n → n = s.length) {f : ReadExactly} {n : ℕ}
    (hr : t.reader = .returns f n) : n = min m s.length := by
  obtain ⟨hn, -, -⟩ := h.read_exactly hr
  have hle := h.accepted_prefix.length_le
  have hfilled := h.reader
  rw [hr] at hfilled
  cases hfilled with
  | returns f n hmemory hn' hm hend =>
    rcases hend with hfull | ⟨-, hclosed⟩
    · omega
    · obtain ⟨g, k, hg⟩ := h.closed hclosed
      have hk := h.write_all hg
      have hk' := hall g k hg
      omega

end Run

/-! ## The reader is never stuck -/

/-- How much the writing coroutine has still to do. -/
def writeLeft : Progress WriteAll ℕ → ℕ
  | .awaits f => f.out.length + 1
  | _ => 0

/-- How much the reading one has. -/
def readLeft : Progress ReadExactly ℕ → ℕ
  | .awaits f => f.inSize
  | _ => 0

/-- **How much there is still to be done.** Each transfer makes it less, and so
does closing. -/
def State.left (t : State) : ℕ :=
  writeLeft t.writer + readLeft t.reader + if t.closed then 0 else 1

section Left

variable {p : Channel} {s : List UInt8} {memory : ℕ → UInt8} {m : ℕ} {t : State}

theorem writeLeft_resume {f : WriteAll} (hne : f.out ≠ []) (n : ℕ) :
    writeLeft (f.resume n) < writeLeft (.awaits f) := by
  have hpos := List.length_pos_of_ne_nil hne
  unfold WriteAll.resume WriteAll.loop
  split
  · exact Nat.succ_pos _
  · split
    · show (f.out.drop n).length + 1 < f.out.length + 1
      rw [List.length_drop]
      omega
    · exact Nat.succ_pos _

theorem readLeft_resume {f : ReadExactly} (hne : f.inSize ≠ 0) (bytes : List UInt8) :
    readLeft (f.resume bytes) < readLeft (.awaits f) := by
  have hpos := Nat.pos_of_ne_zero hne
  unfold ReadExactly.resume ReadExactly.loop
  split
  · exact hpos
  · dsimp only
    split
    · show f.inSize - bytes.length < f.inSize
      omega
    · exact hpos

/-- The `::write` may write this many bytes. -/
theorem exists_write {f : WriteAll} (hw : t.writer = .awaits f) (hne : f.out ≠ []) {n : ℕ}
    (hpos : 0 < n) (hle : n ≤ min f.out.length (p.capacity - t.channel.length)) :
    ∃ e t', Smooth t e ∧ step p t e = some t' ∧ t'.left < t.left := by
  have hstep : step p t (.write { ret := n }) = some (t.wrote p f { ret := n }) := by
    simp only [step, hw]
    rw [if_neg (by simp [Op.waits]), if_pos (by exact_mod_cast hle)]
  have hok : Smooth t (.write { ret := n }) :=
    ⟨fun hneg : (n : Int) < 0 => by omega, show (n : Int) ≠ 0 by omega⟩
  have hwriter : (t.wrote p f { ret := n }).writer = f.resume n := rfl
  refine ⟨_, _, hok, hstep, ?_⟩
  have hless := writeLeft_resume hne n
  unfold State.left
  rw [hwriter, hw]
  show _ + readLeft t.reader + _ < _
  exact Nat.add_lt_add_right (Nat.add_lt_add_right hless _) _

/-- The `::read` may read this many. -/
theorem exists_read {f : ReadExactly} (hr : t.reader = .awaits f) (hne : f.inSize ≠ 0) {n : ℕ}
    (hle : n ≤ min f.inSize t.channel.length)
    (hend : n = 0 → t.channel = [] ∧ t.closed = true) :
    ∃ e t', Smooth t e ∧ step p t e = some t' ∧ t'.left < t.left := by
  have hstep : step p t (.read { ret := n }) = some (t.read p f { ret := n }) := by
    simp only [step, hr]
    rw [if_neg (by simp [Op.waits]),
      if_pos ⟨by exact_mod_cast hle, fun hz => hend (by exact_mod_cast hz)⟩]
  have hok : Smooth t (.read { ret := n }) :=
    ⟨fun hneg : (n : Int) < 0 => by omega, trivial⟩
  have hreader : (t.read p f { ret := n }).reader = f.resume (t.channel.take n) := rfl
  refine ⟨_, _, hok, hstep, ?_⟩
  have hless := readLeft_resume hne (t.channel.take n)
  unfold State.left
  rw [hreader, hr]
  show writeLeft t.writer + _ + _ < _
  exact Nat.add_lt_add_right (Nat.add_lt_add_left hless _) _

/-- **While the reader waits, something can happen**: there are bytes to be
read, or there is room for bytes to be written, or the write end can be closed,
or the end of the stream can be read. -/
theorem Transmitted.exists_step (h : Transmitted s memory m t) (hcap : 0 < p.capacity)
    {f : ReadExactly} (hr : t.reader = .awaits f) :
    ∃ e t', Smooth t e ∧ Transmission.step p t e = some t' ∧ t'.left < t.left := by
  have hin : f.inSize ≠ 0 := by
    have hfilled := h.reader
    rw [hr] at hfilled
    cases hfilled with
    | awaits f hsize hmemory hin hne => exact hne
  -- only with an empty channel does the reader need the writer, or the end of the
  -- stream
  by_cases hempty : t.channel = []
  · have hwrote := h.writer
    cases hw : t.writer with
    | awaits g =>
      rw [hw] at hwrote
      cases hwrote with
      | awaits g hs hout hne =>
        have hout := List.length_pos_of_ne_nil hne
        refine exists_write hw hne (n := min g.out.length (p.capacity - t.channel.length)) ?_
          (le_refl _)
        rw [hempty, List.length_nil]
        omega
    | returns g n =>
      by_cases hclosed : t.closed = true
      · exact exists_read hr hin (Nat.zero_le _) (fun _ => ⟨hempty, hclosed⟩)
      · refine ⟨.close, { t with closed := true }, ⟨trivial, trivial⟩, ?_, ?_⟩
        · simp only [Transmission.step]
          rw [hw]
        · unfold State.left
          rw [if_neg hclosed, if_pos rfl]
          exact Nat.lt_succ_self _
    | throws x => exact absurd hw (h.not_throws x).1
  · have hpos := List.length_pos_of_ne_nil hempty
    exact exists_read hr hin (n := min f.inSize t.channel.length) (le_refl _) (fun hz => by omega)

/-- **`read_exactly` can always return**, from wherever a run has come to, if
the channel holds anything at all. -/
theorem Transmitted.reader_returns (h : Transmitted s memory m t) (hcap : 0 < p.capacity) :
    ∃ es t', Run (Transmission.step p) Smooth t es t' ∧ ∃ f n, t'.reader = .returns f n := by
  -- each step `exists_step` finds leaves less to be done
  induction hn : t.left using Nat.strong_induction_on generalizing t with
  | _ n ih =>
    cases hr : t.reader with
    | returns f n => exact ⟨[], t, Run.nil t, f, n, hr⟩
    | throws x => exact absurd hr (h.not_throws x).2
    | awaits f =>
      obtain ⟨e, t₁, hok, hs, hless⟩ := h.exists_step hcap hr
      obtain ⟨es, t', hrun, hreturns⟩ := ih t₁.left (hn ▸ hless) (h.step hok.1 hs) rfl
      exact ⟨e :: es, t', Run.cons hok hs hrun, hreturns⟩

end Left

/-- **`write_all` and `read_exactly` over a channel.** In every run in which no
operation fails, `write_all` returns how many bytes the channel has accepted,
and `read_exactly` how many of them there is room for; they are the first bytes
of the string, in order, and the rest of the buffer is untouched. If no
`write_some` has returned zero, all of the string has been accepted. -/
theorem transmission_of_run (p : Channel) (s : List UInt8) (memory : ℕ → UInt8) (m : ℕ)
    (es : List Event) (t : State) :
    (Run (step p) NoFailure (start s memory m) es t →
      (∀ f n, t.writer = .returns f n → n = t.accepted.length) ∧
      (∀ f n, t.reader = .returns f n → n = min m t.accepted.length
        ∧ slice f.memory 0 n = s.take n ∧ ∀ i, n ≤ i → f.memory i = memory i) ∧
      ∀ x, t.writer ≠ .throws x ∧ t.reader ≠ .throws x) ∧
    (Run (step p) Smooth (start s memory m) es t →
      (∀ f n, t.writer = .returns f n → n = s.length) ∧
      ∀ f n, t.reader = .returns f n → n = min m s.length) := by
  constructor
  · intro h
    have ht := transmitted_of_run h
    exact ⟨fun f n => ht.write_all, fun f n => ht.read_exactly, ht.not_throws⟩
  · intro h
    obtain ⟨ht, hall⟩ := whole_of_run h
    exact ⟨hall, fun f n => ht.read_whole hall⟩

/-- The coroutine has returned. -/
def returned {F V : Type} : Compound.Progress F V → Bool
  | .returns _ _ => true
  | _ => false

theorem returned_iff {F V : Type} {p : Compound.Progress F V} :
    returned p = true ↔ ∃ f v, p = .returns f v := by
  cases p <;> simp [returned]

/-- Three bytes pass a channel that holds two, to a buffer for five. -/
def threeBytes : List Event :=
  [.write ⟨2, 0, 0⟩, .write ⟨-1, EAGAIN, 0⟩, .read ⟨1, 0, 0⟩, .write ⟨1, 0, 0⟩, .close,
    .read ⟨2, 0, 0⟩, .read ⟨0, 0, 0⟩]

/-- Both coroutines have counted three, and the rest of the buffer is as it
was. -/
theorem transmission_of_run_threeBytes :
    ∃ t f g, Run (step ⟨0, 1, 2⟩) Smooth (start [1, 2, 3] (fun _ => 9) 5) threeBytes t ∧
      t.writer = .returns f 3 ∧ t.reader = .returns g 3 ∧ slice g.memory 0 3 = [1, 2, 3] ∧
      g.memory 4 = 9 := by
  obtain ⟨t, hrun, htest⟩ := exists_run_of_exec (step ⟨0, 1, 2⟩) Smooth
    (start [1, 2, 3] (fun _ => 9) 5) threeBytes
    (fun t => returned t.writer && returned t.reader) (by decide)
  obtain ⟨hcounts, hwhole⟩ :=
    transmission_of_run ⟨0, 1, 2⟩ [1, 2, 3] (fun _ => 9) 5 threeBytes t
  obtain ⟨-, hreads, -⟩ := hcounts (hrun.mono (fun _ _ hok => hok.1))
  obtain ⟨hwritten, hread⟩ := hwhole hrun
  rw [Bool.and_eq_true] at htest
  obtain ⟨f, n, hw⟩ := returned_iff.mp htest.1
  obtain ⟨g, k, hr⟩ := returned_iff.mp htest.2
  obtain rfl := hwritten f n hw
  obtain rfl := hread g k hr
  obtain ⟨-, hslice, hrest⟩ := hreads g _ hr
  exact ⟨t, f, g, hrun, hw, hr, hslice, hrest 4 (by decide)⟩

end Transmission
