import Felspar.ReadLines

/-!
# Compound operations

`read_exactly` and `read_until_lf_strip_cr` from `read.hpp` and `write_all`
from `write.hpp` are loops around a `read_some` or a `write_some`. Each is a
coroutine that is suspended in one place only, at the `co_await` of that
transfer, so what it is there is its frame: the span it has still to fill or
to write, or the read buffer. This module has the three loops as they go from
one suspension to the next. What carries the transfers out, a warden or a
kernel, is left to those who use them.

The condition of each loop is `loop`, and `resume` is the rest of its body
once the transfer has given a number of bytes. What the transfer stores in
memory counts as a part of `resume`.
-/

open SharedBuffer

namespace Compound

/-- **How far a coroutine has come**: it awaits a transfer, has returned a
value, or has ended with the exception of a transfer. -/
inductive Progress (F V : Type)
  | awaits (frame : F)
  | returns (frame : F) (value : V)
  | throws (e : Exception)

/-- The transfer a coroutine awaits, with the bytes it is to write or the
number of bytes there is room for. -/
inductive Transfer
  | readSome (size : ℕ)
  | writeSome (bytes : List UInt8)
  deriving DecidableEq

/-- The size of the span. -/
def Transfer.size : Transfer → ℕ
  | .readSome size => size
  | .writeSome bytes => bytes.length

/-! ## `read_exactly` -/

/-- The frame of `read_exactly`: the memory of the span `b` from its first
byte on, and the sizes of `b` and of its rest `in`. -/
structure ReadExactly where
  memory : ℕ → UInt8
  size : ℕ
  inSize : ℕ
  le : inSize ≤ size

namespace ReadExactly

/-- `while (in.size())` -/
def loop (f : ReadExactly) : Progress ReadExactly ℕ :=
  if f.inSize ≠ 0 then .awaits f else .returns f f.size

/-- `read_some` has put these bytes into `in`. -/
def resume (f : ReadExactly) (bytes : List UInt8) : Progress ReadExactly ℕ :=
  let memory := store f.memory (f.size - f.inSize) bytes
  if bytes.length = 0 then .returns f (f.size - f.inSize)
  else loop
    { f with
      memory := memory
      inSize := f.inSize - bytes.length
      le := (Nat.sub_le _ _).trans f.le }

end ReadExactly

/-- **`read_exactly`**, of a span of this size at this place in memory. -/
def readExactly (memory : ℕ → UInt8) (size : ℕ) : Progress ReadExactly ℕ :=
  ReadExactly.loop ⟨memory, size, size, le_refl size⟩

/-- **The coroutine has read** these bytes into the front of a span of `m`
bytes. If it has returned without filling it, then `ended`. -/
inductive Filled (memory : ℕ → UInt8) (m : ℕ) (done : List UInt8) (ended : Prop) :
    Progress ReadExactly ℕ → Prop
  | awaits (f : ReadExactly) (hsize : f.size = m) (hmemory : f.memory = store memory 0 done)
      (hin : done.length + f.inSize = m) (hne : f.inSize ≠ 0) :
      Filled memory m done ended (.awaits f)
  | returns (f : ReadExactly) (n : ℕ) (hmemory : f.memory = store memory 0 done)
      (hn : n = done.length) (hle : n ≤ m) (hend : n = m ∨ ended) :
      Filled memory m done ended (.returns f n)

section Filled

variable {memory : ℕ → UInt8} {m : ℕ} {done bytes : List UInt8} {ended ended' : Prop}
  {f : ReadExactly}

theorem ReadExactly.filled_loop (hsize : f.size = m) (hmemory : f.memory = store memory 0 done)
    (hin : done.length + f.inSize = m) : Filled memory m done ended f.loop := by
  unfold ReadExactly.loop
  by_cases hz : f.inSize = 0
  · rw [if_neg (not_not.mpr hz), hsize]
    exact Filled.returns f m hmemory (by omega) (le_refl m) (Or.inl rfl)
  · rw [if_pos hz]
    exact Filled.awaits f hsize hmemory hin hz

theorem filled_readExactly : Filled memory m [] ended (readExactly memory m) :=
  ReadExactly.filled_loop rfl (store_nil memory 0).symm (Nat.zero_add m)

/-- **A transfer** puts its bytes behind those that have been read. One that
has read nothing ends the loop. -/
theorem Filled.resume (h : Filled memory m done ended (.awaits f))
    (hle : bytes.length ≤ f.inSize) (hend : bytes = [] → ended') :
    Filled memory m (done ++ bytes) ended' (f.resume bytes) := by
  cases h with
  | awaits f hsize hmemory hin hne =>
    have hoff : f.size - f.inSize = done.length := by omega
    unfold ReadExactly.resume
    by_cases hz : bytes.length = 0
    · have hnil : bytes = [] := List.eq_nil_of_length_eq_zero hz
      rw [if_pos hz, hoff, hnil, List.append_nil]
      exact Filled.returns f _ hmemory rfl (by omega) (Or.inr (hend hnil))
    · rw [if_neg hz]
      refine ReadExactly.filled_loop hsize ?_ ?_
      · show store f.memory (f.size - f.inSize) bytes = _
        rw [hoff, hmemory, ← store_append, Nat.zero_add]
      · show (done ++ bytes).length + (f.inSize - bytes.length) = m
        rw [List.length_append]
        omega

/-- What has ended stays so. -/
theorem Filled.mono {p : Progress ReadExactly ℕ} (h : Filled memory m done ended p)
    (himp : ended → ended') : Filled memory m done ended' p := by
  cases h with
  | awaits f hsize hmemory hin hne => exact Filled.awaits f hsize hmemory hin hne
  | returns f n hmemory hn hle hend => exact Filled.returns f n hmemory hn hle (hend.imp id himp)

/-- **What is in the memory** when it has returned: the bytes, and behind them
what was there before. -/
theorem Filled.contents {n : ℕ} (h : Filled memory m done ended (.returns f n)) :
    slice f.memory 0 n = done ∧ ∀ i, n ≤ i → f.memory i = memory i := by
  cases h with
  | returns f n hmemory hn hle hend =>
    rw [hmemory, hn]
    exact ⟨slice_store_self memory done 0,
      fun i hi => store_of_le memory done 0 ((Nat.zero_add _).trans_le hi)⟩

end Filled

/-! ## `write_all` -/

/-- The frame of `write_all`: the span `s`, and its rest `out`. -/
structure WriteAll where
  s : List UInt8
  out : List UInt8
  isSuffix : out <:+ s

namespace WriteAll

/-- `while (out.size())` -/
def loop (f : WriteAll) : Progress WriteAll ℕ :=
  if f.out.length ≠ 0 then .awaits f else .returns f f.s.length

/-- `write_some` has written this many bytes of `out`. -/
def resume (f : WriteAll) (bytes : ℕ) : Progress WriteAll ℕ :=
  if bytes = 0 then .returns f (f.s.length - f.out.length)
  else loop
    { f with
      out := f.out.drop bytes
      isSuffix := (List.drop_suffix bytes f.out).trans f.isSuffix }

end WriteAll

/-- **`write_all`** -/
def writeAll (s : List UInt8) : Progress WriteAll ℕ :=
  WriteAll.loop ⟨s, s, List.suffix_refl s⟩

/-- **The coroutine has written** these bytes of the string `s`. -/
inductive Wrote (s done : List UInt8) : Progress WriteAll ℕ → Prop
  | awaits (f : WriteAll) (hs : f.s = s) (hout : done ++ f.out = s) (hne : f.out ≠ []) :
      Wrote s done (.awaits f)
  | returns (f : WriteAll) (n : ℕ) (hout : done ++ f.out = s) (hn : n = done.length) :
      Wrote s done (.returns f n)

section Wrote

variable {s done : List UInt8} {f : WriteAll} {n : ℕ}

theorem WriteAll.wrote_loop (hs : f.s = s) (hout : done ++ f.out = s) :
    Wrote s done f.loop := by
  unfold WriteAll.loop
  by_cases hz : f.out.length = 0
  · have hnil : f.out = [] := List.eq_nil_of_length_eq_zero hz
    rw [if_neg (not_not.mpr hz)]
    refine Wrote.returns f _ hout ?_
    rw [hs, ← hout, hnil, List.append_nil]
  · rw [if_pos hz]
    exact Wrote.awaits f hs hout (fun hnil => hz (by rw [hnil]; rfl))

theorem wrote_writeAll : Wrote s [] (writeAll s) :=
  WriteAll.wrote_loop rfl (List.nil_append s)

/-- **A transfer** writes the next bytes. Whether the loop ends because there
are no more or because nothing has been written, it returns how many have
been. -/
theorem Wrote.resume (h : Wrote s done (.awaits f)) :
    Wrote s (done ++ f.out.take n) (f.resume n) := by
  cases h with
  | awaits f hs hout hne =>
    unfold WriteAll.resume
    by_cases hz : n = 0
    · rw [if_pos hz, hz, List.take_zero, List.append_nil]
      refine Wrote.returns f _ hout ?_
      rw [hs, ← hout, List.length_append]
      omega
    · rw [if_neg hz]
      refine WriteAll.wrote_loop hs ?_
      rw [List.append_assoc]
      show done ++ (f.out.take n ++ f.out.drop n) = s
      rw [List.take_append_drop]
      exact hout

/-- If it has written something, it returns only at the end of the string. -/
theorem Wrote.resume_returns (h : Wrote s done (.awaits f)) (hn : n ≠ 0) {g : WriteAll} {k : ℕ}
    (hr : f.resume n = .returns g k) : k = s.length := by
  cases h with
  | awaits f hs hout hne =>
    unfold WriteAll.resume WriteAll.loop at hr
    rw [if_neg hn] at hr
    split at hr
    · exact absurd hr (by simp)
    · rw [← (Progress.returns.inj hr).2]
      exact congrArg List.length hs

end Wrote

/-! ## `read_until_lf_strip_cr` -/

namespace ReadUntilLf

variable {N : ℕ}

/-- `while (cr == read_buffer.end())`, and what follows the loop. -/
def loop (rb : ReadBuffer N) : Progress (ReadBuffer N) (List UInt8) :=
  let line := rb.find ReadBuffer.LF
  if line = rb.unread.length then .awaits rb
  else
    let (start, rb) := rb.consume (line + 1)
    .returns rb (rb.contents (rb.stripCrSpan (start.first line)))

/-- The `read_some` of `do_read_some` has put these bytes into
`remaining()`. -/
def resume (rb : ReadBuffer N) (bytes : List UInt8) :
    Progress (ReadBuffer N) (List UInt8) :=
  let (rb, n) := rb.doReadSome bytes
  if n = 0 then .returns rb [] else loop rb

/-- The coroutine, when a descriptor gives it what it awaits, with a bound on
its reads. -/
def drive : ℕ → Progress (ReadBuffer N) (List UInt8) → ReadBuffer.Source →
    Option (List UInt8 × ReadBuffer N × ReadBuffer.Source)
  | _, .returns rb line, src => some (line, rb, src)
  | reads + 1, .awaits rb, src =>
    let (bytes, src) := src.readSome rb.remaining.size
    drive reads (resume rb bytes) src
  | _, _, _ => none

section Drive

variable {rb : ReadBuffer N} {src : ReadBuffer.Source} {rounds : ℕ}

/-- When there is no line, the coroutine awaits a read, and so does a round of
`readUntilLoop`. -/
theorem awaits_of_find (rounds : ℕ) (src : ReadBuffer.Source)
    (h : rb.find ReadBuffer.LF = rb.unread.length) :
    loop rb = .awaits rb ∧ ReadBuffer.readUntilLoop (rounds + 1) rb src
      = if (rb.doReadSome (src.readSome rb.remaining.size).1).2 = 0 then
          some ([], (rb.doReadSome (src.readSome rb.remaining.size).1).1,
            (src.readSome rb.remaining.size).2)
        else ReadBuffer.readUntilLoop rounds
          (rb.doReadSome (src.readSome rb.remaining.size).1).1
          (src.readSome rb.remaining.size).2 := by
  rw [loop, ReadBuffer.readUntilLoop]
  dsimp only
  rw [if_pos h, if_pos h]
  exact ⟨rfl, rfl⟩

/-- When there is one, both return it. -/
theorem returns_of_find (rounds : ℕ) (src : ReadBuffer.Source)
    (h : rb.find ReadBuffer.LF ≠ rb.unread.length) :
    ∃ rb' line, loop rb = .returns rb' line
      ∧ ReadBuffer.readUntilLoop (rounds + 1) rb src = some (line, rb', src) := by
  rw [loop, ReadBuffer.readUntilLoop]
  dsimp only
  rw [if_neg h, if_neg h]
  exact ⟨_, _, rfl, rfl⟩

/-- **The coroutine does what the loop of `Felspar.ReadLines` does.** -/
theorem readUntilLoop_of_drive {r : List UInt8 × ReadBuffer N × ReadBuffer.Source}
    (h : drive rounds (loop rb) src = some r) :
    ReadBuffer.readUntilLoop (rounds + 1) rb src = some r := by
  induction rounds generalizing rb src with
  | zero =>
    by_cases hf : rb.find ReadBuffer.LF = rb.unread.length
    · rw [(awaits_of_find 0 src hf).1] at h
      exact absurd h (by simp [drive])
    · obtain ⟨rb', line, hl, hr⟩ := returns_of_find 0 src hf
      rw [hl] at h
      exact hr.trans h
  | succ rounds ih =>
    by_cases hf : rb.find ReadBuffer.LF = rb.unread.length
    · obtain ⟨hl, hr⟩ := awaits_of_find (rounds + 1) src hf
      rw [hl] at h
      have h : drive rounds (resume rb (src.readSome rb.remaining.size).1)
        (src.readSome rb.remaining.size).2 = some r := h
      rw [hr]
      unfold resume at h
      dsimp only at h
      split at h
      case isTrue hz =>
        rw [if_pos hz]
        cases rounds <;> exact h
      case isFalse hz =>
        rw [if_neg hz]
        exact ih h
    · obtain ⟨rb', line, hl, hr⟩ := returns_of_find (rounds + 1) src hf
      rw [hl] at h
      exact hr.trans h

end Drive

end ReadUntilLf

/-! ## Any of the three -/

/-- What a coroutine returns, in a frame of another type. -/
def Progress.map {F F' V V' : Type} (frame : F → F') (value : V → V') :
    Progress F V → Progress F' V'
  | .awaits f => .awaits (frame f)
  | .returns f v => .returns (frame f) (value v)
  | .throws e => .throws e

/-- The calls of the three. -/
inductive Call (N : ℕ)
  | readExactly (memory : ℕ → UInt8) (size : ℕ)
  | writeAll (s : List UInt8)
  | readUntilLf (rb : ReadBuffer N)

/-- A frame of one of them. -/
inductive Operation (N : ℕ)
  | readExactly (f : ReadExactly)
  | writeAll (f : WriteAll)
  | readUntilLf (rb : ReadBuffer N)

/-- What one of them returns. -/
inductive Value
  | size (n : ℕ)
  | line (l : List UInt8)
  deriving DecidableEq

section Operation

variable {N : ℕ}

/-- The coroutine up to its first transfer. -/
def Call.start : Call N → Progress (Operation N) Value
  | .readExactly memory size => (Compound.readExactly memory size).map .readExactly .size
  | .writeAll s => (Compound.writeAll s).map .writeAll .size
  | .readUntilLf rb => (ReadUntilLf.loop rb).map .readUntilLf .line

namespace Operation

/-- The transfer it awaits. -/
def transfer : Operation N → Transfer
  | .readExactly f => .readSome f.inSize
  | .writeAll f => .writeSome f.out
  | .readUntilLf rb => .readSome rb.remaining.size

/-- The rest of the coroutine up to its next transfer, when this one has
carried these bytes. -/
def resume (op : Operation N) (bytes : List UInt8) : Progress (Operation N) Value :=
  match op with
  | .readExactly f => (f.resume bytes).map .readExactly .size
  | .writeAll f => (f.resume bytes.length).map .writeAll .size
  | .readUntilLf rb => (ReadUntilLf.resume rb bytes).map .readUntilLf .line

end Operation

end Operation

end Compound
