import Felspar.CompoundOperations
import Felspar.Tls
import Felspar.UringWarden

/-!
# The length a transfer asks for

The size of a span is a `std::size_t`. `uring_warden` hands it to
`io_uring_prep_read` and `io_uring_prep_write`, whose `nbytes` is an
`unsigned`, and `tls` hands it to `SSL_read` and `SSL_write`, whose `num` is an
`int`. The conversions are implicit, and keep 32 bits: a span of `2 ^ 32` bytes
becomes a length of zero, and one of `2 ^ 31` bytes a negative `num`.

A transfer of length zero gives zero, which `read_exactly` takes for the end of
the stream and `write_all` for a descriptor that takes no more. So the two
loops do what they say exactly when none of the spans they ask for, the whole
one and what is left of it after partial transfers, has such a size.
-/

open Compound

/-- The `nbytes` of the SQE of a read or a write. -/
def UringWarden.Op.nbytes : UringWarden.Op → ℕ
  | .readSome _ size | .writeSome _ size => size % 2 ^ 32
  | _ => 0

/-- The `num` that `SSL_read` or `SSL_write` is given. -/
def Tls.Op.num : Tls.Op → Int
  | .readSome size | .writeSome size => toInt size
  | .connect => 0

namespace TransferLengths

/-! ## Transfers -/

/-- **A layer that narrows**: the length it hands on for a read and for a write
of a span, and what a transfer gives when that length is not positive. -/
structure Layer where
  readLength : ℕ → Int
  writeLength : ℕ → Int
  degenerate : Except Exception ℕ

/-- `uring_warden`. The kernel transfers nothing when `nbytes` is zero. -/
def uring (fd : SocketDescriptor) : Layer where
  readLength n := (UringWarden.Op.readSome fd n).nbytes
  writeLength n := (UringWarden.Op.writeSome fd n).nbytes
  degenerate := .ok 0

/-- `tls`, with what OpenSSL does when `num` is not positive. -/
def tls (degenerate : Except Exception ℕ) : Layer where
  readLength n := (Tls.Op.readSome n).num
  writeLength n := (Tls.Op.writeSome n).num
  degenerate := degenerate

/-- **What a transfer gives**, with this length, when the stream has or takes
`left` more bytes: as long as there are any and the length is positive, the
kernel transfers one and up to `more` others. -/
def transferred (l : Layer) (length : Int) (left more : ℕ) : Except Exception ℕ :=
  if 0 < length then .ok (min (more + 1) (min length.toNat left)) else l.degenerate

/-- A `read_some`: the size of its span, and how many bytes the stream has
still to give. -/
structure Asked where
  size : ℕ
  left : ℕ
  deriving DecidableEq

/-- **`read_exactly` over a layer**, from where it is: what it asks for, and
how far it comes with as many transfers as there are numbers. -/
def readRun (l : Layer) : Progress ReadExactly ℕ → List UInt8 → List ℕ →
    List Asked × Progress ReadExactly ℕ
  | .awaits f, left, more :: rest =>
    let run := match transferred l (l.readLength f.inSize) left.length more with
      | .ok n => readRun l (f.resume (left.take n)) (left.drop n) rest
      | .error e => ([], .throws e)
    (⟨f.inSize, left.length⟩ :: run.1, run.2)
  | p, _, _ => ([], p)

/-- **`write_all` over a layer**, to a descriptor that takes bytes as long as
there are some. -/
def writeRun (l : Layer) : Progress WriteAll ℕ → List ℕ → List ℕ × Progress WriteAll ℕ
  | .awaits f, more :: rest =>
    let run := match transferred l (l.writeLength f.out.length) f.out.length more with
      | .ok n => writeRun l (f.resume n) rest
      | .error e => ([], .throws e)
    (f.out.length :: run.1, run.2)
  | p, _ => ([], p)

/-! ## What is expected of them -/

/-- The length is positive, and no more than the size of the span. -/
def Fits (length : Int) (n : ℕ) : Prop := 0 < length ∧ length ≤ n

/-- A transfer that gives zero has come to the end of the stream. -/
def ZeroIsEnd (l : Layer) (length : Int) : Prop :=
  ∀ left more, transferred l length left more = .ok 0 → left = 0

/-- `read_exactly`, of a span of `m` bytes and a stream of `total`, does not
throw, and returns short only at the end of the stream. -/
def ReadsToEnd (m total : ℕ) (p : Progress ReadExactly ℕ) : Prop :=
  (∀ e, p ≠ .throws e) ∧ ∀ f n, p = .returns f n → n = m ∨ n = total

/-- `write_all` does not throw, and does not return short. -/
def WritesAll (m : ℕ) (p : Progress WriteAll ℕ) : Prop :=
  (∀ e, p ≠ .throws e) ∧ ∀ f n, p = .returns f n → n = m

/-! ## Lengths -/

theorem fits_nbytes (n : ℕ) : Fits (n % 2 ^ 32 : ℕ) n ↔ ¬ 2 ^ 32 ∣ n := by
  unfold Fits
  rw [Nat.dvd_iff_mod_eq_zero]
  have hle := Nat.mod_le n (2 ^ 32)
  omega

/-- Conversion of a size to an `int`. -/
theorem toInt_natCast (n : ℕ) :
    toInt n = if n % 2 ^ 32 < 2 ^ 31 then ((n % 2 ^ 32 : ℕ) : Int)
      else ((n % 2 ^ 32 : ℕ) : Int) - 2 ^ 32 := by
  unfold toInt Int.bmod
  dsimp only
  norm_cast

theorem toInt_le (n : ℕ) : toInt n ≤ n := by
  have hle := Nat.mod_le n (2 ^ 32)
  rw [toInt_natCast]
  split <;> omega

theorem fits_num (n : ℕ) : Fits (toInt n) n ↔ 0 < n % 2 ^ 32 ∧ n % 2 ^ 32 < 2 ^ 31 := by
  have hle := Nat.mod_le n (2 ^ 32)
  have hlt := Nat.mod_lt n (Nat.two_pow_pos 32)
  unfold Fits
  rw [toInt_natCast]
  split <;> omega

section Transferred

variable {l : Layer} {length : Int} {left more : ℕ}

/-- **A transfer with a positive length** moves something, if there is
anything to move, and no more than that. -/
theorem transferred_of_pos (l : Layer) (left more : ℕ) (h : 0 < length) :
    ∃ n, transferred l length left more = .ok n ∧ (n : Int) ≤ length ∧ n ≤ left
      ∧ (n = 0 → left = 0) := by
  refine ⟨_, if_pos h, ?_, ?_, ?_⟩ <;> omega

/-- **When zero is the end of the stream**, for a layer that answers zero to a
length of zero: when the length is positive. -/
theorem zeroIsEnd_iff (hd : l.degenerate = .ok 0) : ZeroIsEnd l length ↔ 0 < length := by
  constructor
  · intro h
    by_contra hneg
    have hzero : transferred l length 1 0 = .ok 0 := (if_neg hneg).trans hd
    exact absurd (h 1 0 hzero) (by simp)
  · intro h left more hzero
    obtain ⟨n, hn, -, -, hend⟩ := transferred_of_pos l left more h
    exact hend (Except.ok.inj (hn.symm.trans hzero))

theorem zeroIsEnd_of_pos (h : 0 < length) : ZeroIsEnd l length := by
  intro left more hzero
  obtain ⟨n, hn, -, -, hend⟩ := transferred_of_pos l left more h
  exact hend (Except.ok.inj (hn.symm.trans hzero))

end Transferred

/-! ## `read_exactly` -/

section Read

variable {l : Layer} {memory : ℕ → UInt8} {m : ℕ}

/-- A loop that has returned asks for nothing more. -/
theorem readRun_returns (f : ReadExactly) (n : ℕ) (left : List UInt8) (rest : List ℕ) :
    readRun l (.returns f n) left rest = ([], .returns f n) := by
  cases rest <;> rfl

/-- Where the loop is, it has not returned short. -/
theorem readsToEnd_of_filled {done left : List UInt8} {p : Progress ReadExactly ℕ}
    (h : Filled memory m done (left = []) p) : ReadsToEnd m (done.length + left.length) p := by
  cases h with
  | awaits f hsize hmemory hin hne => exact ⟨by simp, by simp⟩
  | returns f n hmemory hn hle hend =>
    refine ⟨by simp, fun g k hg => ?_⟩
    rw [← (Progress.returns.inj hg).2]
    rcases hend with hm | hend
    · exact Or.inl hm
    · exact Or.inr (by rw [hend, hn]; rfl)

/-- **When `read_exactly` reads to the end**, over a layer that answers zero to
a length of zero: when each length it asks for is positive, as long as the
stream has bytes. The induction is on the transfers, and what has been read by
then is `done`. -/
theorem readRun_readsToEnd_iff (hd : l.degenerate = .ok 0) (hle : ∀ n, l.readLength n ≤ n)
    (rest : List ℕ) {done : List UInt8} (left : List UInt8) {p : Progress ReadExactly ℕ}
    (h : Filled memory m done (left = []) p) :
    ReadsToEnd m (done.length + left.length) (readRun l p left rest).2
      ↔ ∀ a ∈ (readRun l p left rest).1, a.left ≠ 0 → 0 < l.readLength a.size := by
  induction rest generalizing done left p with
  | nil =>
    cases p <;> exact iff_of_true (readsToEnd_of_filled h) (by simp [readRun])
  | cons more rest ih =>
    cases p with
    | returns f n => exact iff_of_true (readsToEnd_of_filled h) (by simp [readRun])
    | throws e => cases h
    | awaits f =>
      -- the bytes a transfer moves are those the loop goes on with
      have hnext : ∀ n, transferred l (l.readLength f.inSize) left.length more = .ok n →
          n ≤ f.inSize → n ≤ left.length → (n = 0 → left = []) →
          (0 < l.readLength f.inSize ∨ left = []) →
          (ReadsToEnd m (done.length + left.length) (readRun l (.awaits f) left (more :: rest)).2
            ↔ ∀ a ∈ (readRun l (.awaits f) left (more :: rest)).1,
              a.left ≠ 0 → 0 < l.readLength a.size) := by
        intro n hn hin hleft hend hask
        have hlen : (left.take n).length = n := List.length_take_of_le hleft
        have hfilled : Filled memory m (done ++ left.take n) (left.drop n = [])
            (f.resume (left.take n)) := h.resume (by omega) (fun hnil => by
          have hzero : n = 0 := by rw [← hlen, hnil]; rfl
          rw [hend hzero, List.drop_nil])
        have htotal : (done ++ left.take n).length + (left.drop n).length
            = done.length + left.length := by
          rw [List.length_append, List.length_drop, hlen]
          omega
        have hrun := ih (left.drop n) hfilled
        rw [htotal] at hrun
        rw [readRun, hn]
        dsimp only
        rw [hrun, List.forall_mem_cons, and_iff_right]
        intro hne
        exact hask.resolve_right (fun hnil => hne (by rw [hnil]; rfl))
      by_cases hpos : 0 < l.readLength f.inSize
      · obtain ⟨n, hn, hlen, hleft, hend⟩ :=
          transferred_of_pos l left.length more hpos
        have hsize := hle f.inSize
        exact hnext n hn (by omega) hleft
          (fun hz => List.eq_nil_of_length_eq_zero (hend hz)) (Or.inl hpos)
      · have hzero : transferred l (l.readLength f.inSize) left.length more = .ok 0 :=
          (if_neg hpos).trans hd
        by_cases hnil : left = []
        · exact hnext 0 hzero (Nat.zero_le _) (Nat.zero_le _) (fun _ => hnil) (Or.inr hnil)
        · -- nothing is read, and the loop takes it for the end
          have hne : left.length ≠ 0 := fun hz => hnil (List.eq_nil_of_length_eq_zero hz)
          have hreturns : f.resume (left.take 0) = .returns _ (f.size - f.inSize) := rfl
          rw [readRun, hzero]
          dsimp only
          rw [hreturns, readRun_returns]
          refine iff_of_false (fun hends => ?_) (fun hall => ?_)
          · cases h with
            | awaits f hsize hmemory hin hroom =>
              rcases hends.2 _ _ rfl with hm | htotal <;> omega
          · exact hpos ((List.forall_mem_cons.mp hall).1 hne)

/-- What the layer does with a length that is not positive does not matter where
there is none. -/
theorem readRun_degenerate (d : Except Exception ℕ) (rest : List ℕ) {left : List UInt8}
    {p : Progress ReadExactly ℕ}
    (h : ∀ a ∈ (readRun l p left rest).1, 0 < l.readLength a.size) :
    readRun { l with degenerate := d } p left rest = readRun l p left rest := by
  induction rest generalizing left p with
  | nil => cases p <;> rfl
  | cons more rest ih =>
    cases p with
    | returns f n => rfl
    | throws e => rfl
    | awaits f =>
      rw [readRun] at h
      obtain ⟨hpos, hrest⟩ := List.forall_mem_cons.mp h
      have hpos : 0 < l.readLength f.inSize := hpos
      obtain ⟨n, hn, -, -, -⟩ :=
        transferred_of_pos l left.length more hpos
      have hn' : transferred { l with degenerate := d } (l.readLength f.inSize) left.length more
          = .ok n := (if_pos hpos).trans ((if_pos hpos).symm.trans hn)
      rw [hn] at hrest
      rw [readRun, readRun, hn, hn']
      dsimp only
      rw [ih hrest]

/-- **`read_exactly` reads to the end** over any layer, where each length it
asks for is positive. -/
theorem readsToEnd_of_forall_pos (hle : ∀ n, l.readLength n ≤ n) (stream : List UInt8)
    (rest : List ℕ)
    (h : ∀ a ∈ (readRun l (readExactly memory m) stream rest).1, 0 < l.readLength a.size) :
    ReadsToEnd m stream.length (readRun l (readExactly memory m) stream rest).2 := by
  have hsame := readRun_degenerate (.ok 0) rest h
  have hfilled : Filled memory m [] (stream = []) (readExactly memory m) := filled_readExactly
  have hread := readRun_readsToEnd_iff (l := { l with degenerate := .ok 0 }) rfl hle rest stream
    hfilled
  rw [hsame, List.length_nil, Nat.zero_add] at hread
  exact hread.mpr (fun a ha _ => h a ha)

end Read

/-! ## `write_all` -/

section Write

variable {l : Layer} {s : List UInt8}

/-- A loop that has returned asks for nothing more. -/
theorem writeRun_returns (f : WriteAll) (n : ℕ) (rest : List ℕ) :
    writeRun l (.returns f n) rest = ([], .returns f n) := by
  cases rest <;> rfl

/-- **When `write_all` writes everything**, over a layer that answers zero to a
length of zero: when each length it asks for is positive. -/
theorem writeRun_writesAll_iff (hd : l.degenerate = .ok 0) (rest : List ℕ) {done : List UInt8}
    {p : Progress WriteAll ℕ} (h : Wrote s done p) (hreturned : WritesAll s.length p) :
    WritesAll s.length (writeRun l p rest).2
      ↔ ∀ size ∈ (writeRun l p rest).1, 0 < l.writeLength size := by
  induction rest generalizing done p with
  | nil => cases p <;> exact iff_of_true hreturned (by simp [writeRun])
  | cons more rest ih =>
    cases p with
    | returns f n => exact iff_of_true hreturned (by simp [writeRun])
    | throws e => cases h
    | awaits f =>
      by_cases hpos : 0 < l.writeLength f.out.length
      · obtain ⟨n, hn, -, -, hend⟩ :=
          transferred_of_pos l f.out.length more hpos
        have hne : n ≠ 0 := by
          cases h with
          | awaits f hs hout hne => exact fun hz => hne (List.eq_nil_of_length_eq_zero (hend hz))
        have hnext : WritesAll s.length (f.resume n) := by
          refine ⟨fun e he => ?_, fun g k hg => h.resume_returns hne hg⟩
          have hwrote := h.resume (n := n)
          rw [he] at hwrote
          cases hwrote
        rw [writeRun, hn]
        dsimp only
        rw [ih h.resume hnext, List.forall_mem_cons, and_iff_right hpos]
      · -- nothing is written, and the loop returns
        have hzero : transferred l (l.writeLength f.out.length) f.out.length more = .ok 0 :=
          (if_neg hpos).trans hd
        have hreturns : f.resume 0 = .returns f (f.s.length - f.out.length) := rfl
        rw [writeRun, hzero]
        dsimp only
        rw [hreturns, writeRun_returns]
        refine iff_of_false (fun hall => ?_) (fun hall => ?_)
        · cases h with
          | awaits f hs hout hne =>
            have hlen := congrArg List.length hout
            have hpos : f.out.length ≠ 0 := fun hz => hne (List.eq_nil_of_length_eq_zero hz)
            have hshort := hall.2 _ _ rfl
            rw [List.length_append] at hlen
            rw [hs] at hshort
            omega
        · exact hpos (List.forall_mem_cons.mp hall).1

theorem writeRun_degenerate (d : Except Exception ℕ) (rest : List ℕ)
    {p : Progress WriteAll ℕ} (h : ∀ size ∈ (writeRun l p rest).1, 0 < l.writeLength size) :
    writeRun { l with degenerate := d } p rest = writeRun l p rest := by
  induction rest generalizing p with
  | nil => cases p <;> rfl
  | cons more rest ih =>
    cases p with
    | returns f n => rfl
    | throws e => rfl
    | awaits f =>
      rw [writeRun] at h
      obtain ⟨hpos, hrest⟩ := List.forall_mem_cons.mp h
      have hpos : 0 < l.writeLength f.out.length := hpos
      obtain ⟨n, hn, -, -, -⟩ :=
        transferred_of_pos l f.out.length more hpos
      have hn' : transferred { l with degenerate := d } (l.writeLength f.out.length) f.out.length
          more = .ok n := (if_pos hpos).trans ((if_pos hpos).symm.trans hn)
      rw [hn] at hrest
      rw [writeRun, writeRun, hn, hn']
      dsimp only
      rw [ih hrest]

/-- Before the first transfer `write_all` has not returned short. -/
theorem writesAll_writeAll (s : List UInt8) : WritesAll s.length (writeAll s) := by
  unfold writeAll WriteAll.loop
  split
  · exact ⟨by simp, by simp⟩
  · exact ⟨by simp, fun g k hg => (Progress.returns.inj hg).2.symm⟩

/-- **`write_all` writes everything** over any layer, where each length it asks
for is positive. -/
theorem writesAll_of_forall_pos (rest : List ℕ)
    (h : ∀ size ∈ (writeRun l (writeAll s) rest).1, 0 < l.writeLength size) :
    WritesAll s.length (writeRun l (writeAll s) rest).2 := by
  have hsame := writeRun_degenerate (.ok 0) rest h
  have hwrite := writeRun_writesAll_iff (l := { l with degenerate := .ok 0 }) rfl rest
    wrote_writeAll (writesAll_writeAll s)
  rw [hsame] at hwrite
  exact hwrite.mpr h

end Write

/-! ## Both layers -/

/-- **A span is handed on faithfully**: its length fits, for a read and for a
write, and a read of it that gives zero has come to the end of the stream. -/
structure Faithful (l : Layer) (n : ℕ) : Prop where
  read : Fits (l.readLength n) n
  write : Fits (l.writeLength n) n
  zero : ZeroIsEnd l (l.readLength n)

/-- The size is positive and the same as an `int`, but for multiples of
`2 ^ 32`. -/
def IntSize (n : ℕ) : Prop := 0 < n % 2 ^ 32 ∧ n % 2 ^ 32 < 2 ^ 31

section Layers

variable (fd : SocketDescriptor) (d : Except Exception ℕ) (n : ℕ)

theorem readLength_uring : (uring fd).readLength n = ((n % 2 ^ 32 : ℕ) : Int) := rfl

theorem readLength_uring_le : (uring fd).readLength n ≤ n := by
  rw [readLength_uring]
  exact Int.ofNat_le.mpr (Nat.mod_le n _)

theorem pos_uring : 0 < (uring fd).readLength n ↔ ¬ 2 ^ 32 ∣ n := by
  rw [← fits_nbytes, ← readLength_uring fd]
  exact (and_iff_left (readLength_uring_le fd n)).symm

theorem readLength_tls : (tls d).readLength n = toInt n := by
  simp only [tls, Tls.Op.num]

theorem readLength_tls_le : (tls d).readLength n ≤ n := by
  rw [readLength_tls]
  exact toInt_le n

theorem pos_tls : 0 < (tls d).readLength n ↔ IntSize n := by
  rw [IntSize, ← fits_num, ← readLength_tls d]
  exact (and_iff_left (readLength_tls_le d n)).symm

theorem faithful_uring : Faithful (uring fd) n ↔ ¬ 2 ^ 32 ∣ n := by
  constructor
  · intro h
    exact (pos_uring fd n).mp h.read.1
  · intro h
    have hpos := (pos_uring fd n).mpr h
    exact ⟨⟨hpos, readLength_uring_le fd n⟩, ⟨hpos, readLength_uring_le fd n⟩,
      zeroIsEnd_of_pos hpos⟩

theorem faithful_tls : Faithful (tls d) n ↔ IntSize n := by
  constructor
  · intro h
    exact (pos_tls d n).mp h.read.1
  · intro h
    have hpos := (pos_tls d n).mpr h
    exact ⟨⟨hpos, readLength_tls_le d n⟩, ⟨hpos, readLength_tls_le d n⟩,
      zeroIsEnd_of_pos hpos⟩

end Layers

/-- **When a length is handed on as it should be.** `uring_warden` does so for
every size that is not a multiple of `2 ^ 32`, and `tls` for those that are
positive as an `int`. Over `uring_warden`, `read_exactly` never takes anything
else for the end of the stream and `write_all` never returns short exactly when
nothing they ask for is a multiple of `2 ^ 32`; and over `tls` they do not when
everything they ask for is positive as an `int`. -/
theorem transferLengths_iff (fd : SocketDescriptor) (d : Except Exception ℕ) (n : ℕ) :
    (Faithful (uring fd) n ↔ ¬ 2 ^ 32 ∣ n) ∧ (Faithful (tls d) n ↔ IntSize n) ∧
    (∀ memory stream rest,
      ReadsToEnd n stream.length (readRun (uring fd) (readExactly memory n) stream rest).2
        ↔ ∀ a ∈ (readRun (uring fd) (readExactly memory n) stream rest).1,
          a.left ≠ 0 → ¬ 2 ^ 32 ∣ a.size) ∧
    (∀ s rest, WritesAll s.length (writeRun (uring fd) (writeAll s) rest).2
      ↔ ∀ size ∈ (writeRun (uring fd) (writeAll s) rest).1, ¬ 2 ^ 32 ∣ size) ∧
    (∀ memory stream rest,
      (∀ a ∈ (readRun (tls d) (readExactly memory n) stream rest).1, IntSize a.size) →
        ReadsToEnd n stream.length (readRun (tls d) (readExactly memory n) stream rest).2) ∧
    (∀ s rest, (∀ size ∈ (writeRun (tls d) (writeAll s) rest).1, IntSize size) →
      WritesAll s.length (writeRun (tls d) (writeAll s) rest).2) := by
  refine ⟨faithful_uring fd n, faithful_tls d n, fun memory stream rest => ?_, fun s rest => ?_,
    fun memory stream rest h => ?_, fun s rest h => ?_⟩
  · have hfilled : Filled memory n [] (stream = []) (readExactly memory n) := filled_readExactly
    have hread := readRun_readsToEnd_iff (l := uring fd) rfl (readLength_uring_le fd) rest stream
      hfilled
    rw [List.length_nil, Nat.zero_add] at hread
    exact hread.trans (forall₂_congr fun a _ => imp_congr_right fun _ => pos_uring fd a.size)
  · exact (writeRun_writesAll_iff (l := uring fd) rfl rest wrote_writeAll
      (writesAll_writeAll s)).trans (forall₂_congr fun size _ => pos_uring fd size)
  · exact readsToEnd_of_forall_pos (readLength_tls_le d) stream rest
      (fun a ha => (pos_tls d a.size).mpr (h a ha))
  · exact writesAll_of_forall_pos rest (fun size hs => (pos_tls d size).mpr (h size hs))

/-- A span of five bytes is read in two transfers, and one of two bytes is
written over `tls`. -/
theorem transferLengths_iff_five :
    Faithful (uring 3) 5
      ∧ ReadsToEnd 5 6 (readRun (uring 3) (readExactly (fun _ => 0) 5) [1, 2, 3, 4, 5, 6] [2, 9]).2
      ∧ WritesAll 2 (writeRun (tls (.ok 0)) (writeAll [1, 2]) [0, 0]).2 :=
  have hread := (transferLengths_iff 3 (.ok 0) 5).2.2.1 (fun _ => 0) [1, 2, 3, 4, 5, 6] [2, 9]
  have hwrite := (transferLengths_iff 3 (.ok 0) 5).2.2.2.2.2 [1, 2] [0, 0]
  ⟨(transferLengths_iff 3 (.ok 0) 5).1.mpr (by decide), hread.mpr (by decide),
    hwrite (by unfold IntSize; decide)⟩

/-- `write_all` of `2 ^ 32` bytes writes nothing. -/
theorem not_writesAll {s : List UInt8} (hlen : s.length = 2 ^ 32) :
    ¬ WritesAll s.length (writeRun (uring 5) (writeAll s) [0]).2 := by
  have hne : s.length ≠ 0 := by omega
  have hnone : ¬ 0 < (uring 5).writeLength s.length := by
    rw [hlen]
    decide
  have hzero : transferred (uring 5) ((uring 5).writeLength s.length) s.length 0 = .ok 0 :=
    if_neg hnone
  intro h
  unfold writeAll WriteAll.loop at h
  rw [if_pos hne, writeRun, hzero] at h
  have hshort : s.length - s.length = s.length := h.2 _ _ rfl
  omega

/-- **The length is not always what it should be.** For a span of `2 ^ 32`
bytes the SQE of a read or a write has the length zero: `read_exactly` reports
the end of a stream that has a byte, and `write_all` writes nothing. For one of
`2 ^ 31` bytes the `num` of `SSL_read` is negative. -/
theorem not_faithful :
    ¬ Faithful (uring 5) (2 ^ 32) ∧ ¬ Faithful (tls (.ok 0)) (2 ^ 31)
      ∧ ¬ ReadsToEnd (2 ^ 32) 1
        (readRun (uring 5) (readExactly (fun _ => 0) (2 ^ 32)) [7] [0]).2
      ∧ ∃ s : List UInt8, s.length = 2 ^ 32
        ∧ ¬ WritesAll s.length (writeRun (uring 5) (writeAll s) [0]).2 := by
  refine ⟨fun h => ?_, fun h => ?_, fun h => ?_, _, List.length_replicate,
    not_writesAll (s := List.replicate (2 ^ 32) 7) List.length_replicate⟩
  · exact absurd h.read.1 (by decide)
  · exact absurd h.read.1 (by decide)
  · rcases h.2 _ _ rfl with hm | htotal
    · exact absurd hm (by decide)
    · exact absurd htotal (by decide)

end TransferLengths
