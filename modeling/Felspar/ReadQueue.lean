import Felspar.ReadBuffer
import Felspar.Runs

/-!
# The read buffer as a queue

A `read_buffer` is a queue of bytes: `do_read_some` puts bytes in at one end
and `consume` takes them out at the other. Its two spans point into its own
storage, so a buffer that is moved has to have them pointed into the storage
of the target, which `recalculate_data_read` and `recalculate_empty_buffer` do
by pointer arithmetic.

The abstract queue is the list of the bytes that are waiting. The
representation of `Felspar.ReadBuffer` refines it operation by operation
(`refines_access`), moves included, so that over every sequence of operations
on any number of buffers what has been consumed of a buffer, and then what has
not, is what has been read into it (`queue_of_run`). A move goes on with the
bytes of the buffer that is moved; as the storage is an array, that one keeps
its own as well.
-/

open SharedBuffer

namespace ReadBuffer

variable {N : ℕ}

/-! ## Moving -/

/-- `new_storage.data() + (old.data() - old_storage.data())`, a difference of
pointers being signed. -/
def rebase (newStorage oldStorage old : ℕ) : ℕ :=
  ((newStorage : ℤ) + ((old : ℤ) - oldStorage)).toNat

/-- `recalculate_data_read` -/
def recalculateDataRead (newStorage oldStorage : ℕ) (old : Span) : Span :=
  ⟨rebase newStorage oldStorage old.data, old.size⟩

/-- `recalculate_empty_buffer` -/
def recalculateEmptyBuffer (newStorage oldStorage : ℕ) (old : Span) : Span :=
  ⟨rebase newStorage oldStorage old.data, old.size⟩

/-- `read_buffer(read_buffer &&)`, for a buffer whose storage is at
`address`. -/
def moveConstruct (address : ℕ) (rb : ReadBuffer N) : ReadBuffer N where
  address := address
  storage := rb.storage
  dataRead := recalculateDataRead address rb.address rb.dataRead
  emptyBuffer := recalculateEmptyBuffer address rb.address rb.emptyBuffer

/-- `operator=(read_buffer &&)`. The target stays where it is. -/
def moveAssign (target rb : ReadBuffer N) : ReadBuffer N :=
  { target with
    storage := rb.storage
    dataRead := recalculateDataRead target.address rb.address rb.dataRead
    emptyBuffer := recalculateEmptyBuffer target.address rb.address rb.emptyBuffer }

section Moving

variable {rb : ReadBuffer N}

theorem rebase_of_le {newStorage oldStorage old : ℕ} (h : oldStorage ≤ old) :
    rebase newStorage oldStorage old = newStorage + (old - oldStorage) := by
  unfold rebase
  omega

/-- Assigning is constructing in place. -/
theorem moveAssign_eq (target rb : ReadBuffer N) :
    moveAssign target rb = moveConstruct target.address rb := rfl

/-- **Moving keeps the unread data**, and the spans are as they should be in
the new storage. -/
theorem Valid.moveConstruct (h : rb.Valid) (address : ℕ) :
    (moveConstruct address rb).Valid ∧ (moveConstruct address rb).unread = rb.unread := by
  have h₁ := h.inside
  have h₂ := h.meets
  have h₃ := h.ends
  have hdata : rebase address rb.address rb.dataRead.data
      = address + (rb.dataRead.data - rb.address) := rebase_of_le h₁
  have hempty : rebase address rb.address rb.emptyBuffer.data
      = address + (rb.emptyBuffer.data - rb.address) := rebase_of_le (by omega)
  refine ⟨⟨?_, ?_, ?_⟩, ?_⟩
  · show address ≤ rebase address rb.address rb.dataRead.data
    omega
  · show rebase address rb.address rb.dataRead.data + rb.dataRead.size
      = rebase address rb.address rb.emptyBuffer.data
    omega
  · show rebase address rb.address rb.emptyBuffer.data + rb.emptyBuffer.size = address + N
    omega
  · show slice rb.storage (rebase address rb.address rb.dataRead.data - address)
      rb.dataRead.size = slice rb.storage (rb.dataRead.data - rb.address) rb.dataRead.size
    rw [hdata, Nat.add_sub_cancel_left]

end Moving

/-! ## The queue -/

/-- **The abstract queue**, with what has been put into it and taken out. -/
structure Queue (α : Type) where
  waiting : List α := []
  readIn : List α := []
  consumed : List α := []

namespace Queue

variable {α : Type}

/-- Put items in. -/
def enqueue (q : Queue α) (l : List α) : Queue α :=
  { q with waiting := q.waiting ++ l, readIn := q.readIn ++ l }

/-- Take the first items out. -/
def dequeue (q : Queue α) (n : ℕ) : Queue α :=
  { q with waiting := q.waiting.drop n, consumed := q.consumed ++ q.waiting.take n }

/-- **First in, first out.** -/
def Ordered (q : Queue α) : Prop := q.consumed ++ q.waiting = q.readIn

theorem Ordered.enqueue {q : Queue α} (h : q.Ordered) (l : List α) : (q.enqueue l).Ordered := by
  show q.consumed ++ (q.waiting ++ l) = q.readIn ++ l
  rw [← List.append_assoc, show q.consumed ++ q.waiting = q.readIn from h]

theorem Ordered.dequeue {q : Queue α} (h : q.Ordered) (n : ℕ) : (q.dequeue n).Ordered := by
  show (q.consumed ++ q.waiting.take n) ++ q.waiting.drop n = q.readIn
  rw [List.append_assoc, List.take_append_drop]
  exact h

end Queue

/-! ## The buffers of a program -/

/-- **A buffer and its history**: what has been read into it, and the spans
consumed from it, each as it was when it was returned. -/
structure Tracked (N : ℕ) where
  buffer : ReadBuffer N
  readIn : List UInt8
  consumed : List UInt8

/-- The buffers of a program, by number. -/
abbrev Buffers (N : ℕ) := ℕ → Option (Tracked N)

/-- What is done with the buffers. -/
inductive Access
  /-- `read_buffer i;`, with its storage at `address`. -/
  | construct (i : ℕ) (address : ℕ)
  /-- `i.do_read_some`, for which the bytes arrive. -/
  | doReadSome (i : ℕ) (bytes : List UInt8)
  /-- `i.consume(bytes)` -/
  | consume (i : ℕ) (bytes : ℕ)
  /-- `read_buffer j{std::move(i)};`, with its storage at `address`. -/
  | moveConstruct (i j : ℕ) (address : ℕ)
  /-- `j = std::move(i);` -/
  | moveAssign (i j : ℕ)

/-- Bytes arrive, in `remaining()`. -/
def Tracked.doReadSome (t : Tracked N) (bytes : List UInt8) : Tracked N :=
  { t with buffer := (t.buffer.doReadSome bytes).1, readIn := t.readIn ++ bytes }

/-- A span is consumed, and read. -/
def Tracked.consume (t : Tracked N) (bytes : ℕ) : Tracked N :=
  let (start, rb) := t.buffer.consume bytes
  { t with buffer := rb, consumed := t.consumed ++ rb.contents start }

/-- **One access.** A new buffer gets a number that is free. No more bytes
arrive than there is room for, and no more are consumed than there are. -/
def access (b : Buffers N) : Access → Option (Buffers N)
  | .construct i address =>
    if b i = none then some (Function.update b i (some ⟨new N address, [], []⟩)) else none
  | .doReadSome i bytes => (b i).bind (fun t =>
    if bytes.length ≤ t.buffer.remaining.size then
      some (Function.update b i (some (t.doReadSome bytes)))
    else none)
  | .consume i bytes => (b i).bind (fun t =>
    if bytes ≤ t.buffer.notConsumed.size then
      some (Function.update b i (some (t.consume bytes)))
    else none)
  | .moveConstruct i j address => (b i).bind (fun t =>
    if b j = none then
      some (Function.update b j (some { t with buffer := t.buffer.moveConstruct address }))
    else none)
  | .moveAssign i j => (b i).bind (fun t => (b j).map (fun target =>
    Function.update b j (some { t with buffer := moveAssign target.buffer t.buffer })))

/-! ## The refinement -/

/-- What the buffer stands for. -/
def Tracked.queue (t : Tracked N) : Queue UInt8 := ⟨t.buffer.unread, t.readIn, t.consumed⟩

section Refinement

variable {t : Tracked N}

/-- **`do_read_some` enqueues.** -/
theorem queue_doReadSome (h : t.buffer.Valid) {bytes : List UInt8}
    (hle : bytes.length ≤ t.buffer.remaining.size) :
    (t.doReadSome bytes).buffer.Valid ∧ (t.doReadSome bytes).queue = t.queue.enqueue bytes := by
  obtain ⟨-, hvalid, hunread, -⟩ := h.doReadSome hle
  refine ⟨hvalid, ?_⟩
  show (⟨(t.buffer.doReadSome bytes).1.unread, t.readIn ++ bytes, t.consumed⟩ : Queue UInt8) = _
  rw [hunread]
  rfl

/-- **`consume` dequeues.** -/
theorem queue_consume (h : t.buffer.Valid) {n : ℕ} (hn : n ≤ t.buffer.notConsumed.size) :
    (t.consume n).buffer.Valid ∧ (t.consume n).queue = t.queue.dequeue n := by
  have hle : n ≤ t.buffer.unread.length := by
    rw [length_unread]
    exact hn
  obtain ⟨-, hcont, hvalid, hunread, -⟩ := h.consume hle
  refine ⟨hvalid, ?_⟩
  show (⟨(t.buffer.consume n).2.unread, t.readIn,
    t.consumed ++ (t.buffer.consume n).2.contents (t.buffer.consume n).1⟩ : Queue UInt8) = _
  rw [hcont, hunread]
  rfl

/-- **A move leaves the queue as it is.** -/
theorem queue_moveConstruct (h : t.buffer.Valid) (address : ℕ) :
    (t.buffer.moveConstruct address).Valid
      ∧ ({ t with buffer := t.buffer.moveConstruct address } : Tracked N).queue = t.queue := by
  obtain ⟨hvalid, hunread⟩ := h.moveConstruct address
  refine ⟨hvalid, ?_⟩
  show (⟨(t.buffer.moveConstruct address).unread, t.readIn, t.consumed⟩ : Queue UInt8) = _
  rw [hunread]
  rfl

end Refinement

/-- **The invariant**: the spans of a buffer are as they should be, and it
stands for a queue. -/
def Tracked.Refines (t : Tracked N) : Prop := t.buffer.Valid ∧ t.queue.Ordered

/-- Every access keeps it of all buffers. -/
theorem refines_access {b b' : Buffers N} {e : Access}
    (hb : ∀ i t, b i = some t → t.Refines) (h : access b e = some b') :
    ∀ i t, b' i = some t → t.Refines := by
  -- an access sets one buffer
  have hset : ∀ {j : ℕ} {t' : Tracked N}, t'.Refines →
      ∀ i t, Function.update b j (some t') i = some t → t.Refines := by
    intro j t' ht' i t ht
    by_cases hi : i = j
    · rw [hi, Function.update_self] at ht
      exact Option.some.inj ht ▸ ht'
    · rw [Function.update_of_ne hi] at ht
      exact hb i t ht
  cases e with
  | construct i address =>
    simp only [access] at h
    split at h
    case isTrue => exact Option.some.inj h ▸ hset ⟨valid_new N address, rfl⟩
    case isFalse => exact absurd h (by simp)
  | doReadSome i bytes =>
    obtain ⟨t, ht, h⟩ := Option.bind_eq_some_iff.mp h
    obtain ⟨hvalid, hordered⟩ := hb i t ht
    split at h
    case isTrue hle =>
      obtain ⟨hvalid', hqueue⟩ := queue_doReadSome hvalid hle
      exact Option.some.inj h ▸ hset ⟨hvalid', hqueue ▸ hordered.enqueue bytes⟩
    case isFalse => exact absurd h (by simp)
  | consume i n =>
    obtain ⟨t, ht, h⟩ := Option.bind_eq_some_iff.mp h
    obtain ⟨hvalid, hordered⟩ := hb i t ht
    split at h
    case isTrue hle =>
      obtain ⟨hvalid', hqueue⟩ := queue_consume hvalid hle
      exact Option.some.inj h ▸ hset ⟨hvalid', hqueue ▸ hordered.dequeue n⟩
    case isFalse => exact absurd h (by simp)
  | moveConstruct i j address =>
    obtain ⟨t, ht, h⟩ := Option.bind_eq_some_iff.mp h
    obtain ⟨hvalid, hordered⟩ := hb i t ht
    split at h
    case isTrue =>
      obtain ⟨hvalid', hqueue⟩ := queue_moveConstruct hvalid address
      exact Option.some.inj h ▸ hset ⟨hvalid', hqueue ▸ hordered⟩
    case isFalse => exact absurd h (by simp)
  | moveAssign i j =>
    obtain ⟨t, ht, h⟩ := Option.bind_eq_some_iff.mp h
    obtain ⟨target, -, rfl⟩ := Option.map_eq_some_iff.mp h
    obtain ⟨hvalid, hordered⟩ := hb i t ht
    obtain ⟨hvalid', hqueue⟩ := queue_moveConstruct hvalid target.buffer.address
    rw [moveAssign_eq]
    exact hset ⟨hvalid', hqueue ▸ hordered⟩

/-! ## Every sequence of operations -/

/-- **A read buffer is a first-in, first-out queue.** Over every sequence of
operations, what has been consumed from a buffer and then what has not been is
what has been read into it; the unread data is inside its own storage and ends
where `remaining()` begins, which ends where the storage does. -/
theorem queue_of_run {es : List Access} {b : Buffers N}
    (h : Run access always (fun _ => none) es b) {i : ℕ} {t : Tracked N} (ht : b i = some t) :
    t.consumed ++ t.buffer.contents t.buffer.notConsumed = t.readIn
      ∧ t.buffer.address ≤ t.buffer.notConsumed.data
      ∧ t.buffer.notConsumed.data + t.buffer.notConsumed.size = t.buffer.remaining.data
      ∧ t.buffer.remaining.data + t.buffer.remaining.size = t.buffer.address + N := by
  obtain ⟨hvalid, hordered⟩ := h.invariant
    (P := fun b => ∀ i t, b i = some t → t.Refines)
    (fun _ _ _ hb _ he => refines_access hb he) (fun _ _ hn => absurd hn (by simp)) i t ht
  exact ⟨hordered, hvalid.inside, hvalid.meets, hvalid.ends⟩

/-- A buffer is moved with a part of its data consumed, and read into and
consumed from in its new place. -/
def movedInUse : List Access :=
  [.construct 0 1000, .doReadSome 0 [97, 98, 99], .consume 0 2, .moveConstruct 0 1 40,
    .doReadSome 1 [100], .construct 2 500, .moveAssign 1 2, .moveAssign 2 2, .consume 2 2]

theorem queue_of_run_movedInUse :
    ∃ (b : Buffers 4) (t : Tracked 4), Run access always (fun _ => none) movedInUse b ∧
      b 2 = some t ∧ t.consumed = [97, 98, 99, 100] ∧
      t.consumed ++ t.buffer.contents t.buffer.notConsumed = t.readIn := by
  obtain ⟨b, hrun, htest⟩ := exists_run_of_exec (access (N := 4)) always (fun _ => none)
    movedInUse (fun b => (b 2).any (fun t => t.consumed = [97, 98, 99, 100])) (by decide)
  obtain ⟨t, ht, hc⟩ := (Option.any_eq_true _ _).mp htest
  exact ⟨b, t, hrun, ht, of_decide_eq_true hc, (queue_of_run hrun ht).1⟩

end ReadBuffer
