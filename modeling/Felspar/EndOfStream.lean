import Felspar.ReadLines

/-!
# Reporting the end of a stream

An empty span from `read_until_lf_strip_cr` is to say that the descriptor has
been closed. It is returned where `do_read_some` has read nothing, which is at
the end of the stream or when there is no room left to read into, and it is
returned for a line that has nothing in it but a CR. Only the first of these is
the end of the stream.

What a call can tell about the stream is decided where it leaves its loop,
before the line is consumed (`loopEnd`). So a call is right about the end of
the stream when it returns an empty span exactly if nothing is left to be read
there and no LF is in the unread data. All the calls are, if and only if no
line is empty and no read ends in the middle of a line just as the storage is
full, with something still to be read (`reportsEnd_iff`).
-/

open SharedBuffer

namespace ReadBuffer

variable {N : ℕ}

/-! ## Where a call leaves its loop -/

/-- The loop of `read_until_lf_strip_cr`, up to where it is left. -/
def loopEnd : ℕ → ReadBuffer N → Source → Option (ReadBuffer N × Source)
  | 0, _, _ => none
  | rounds + 1, rb, src =>
    if rb.find LF = rb.unread.length then
      let (bytes, src) := src.readSome rb.remaining.size
      let (rb, n) := rb.doReadSome bytes
      if n = 0 then some (rb, src) else loopEnd rounds rb src
    else some (rb, src)

/-- What follows the loop: an empty span when there is still no LF, or else the
line, which is consumed. -/
def afterLoop (rb : ReadBuffer N) (src : Source) : List UInt8 × ReadBuffer N × Source :=
  let line := rb.find LF
  if line = rb.unread.length then ([], rb, src)
  else
    let (start, rb) := rb.consume (line + 1)
    (rb.contents (rb.stripCrSpan (start.first line)), rb, src)

/-- **The end of file**: nothing is left to be read, and there is no LF in the
unread data. -/
def AtEnd (rb : ReadBuffer N) (src : Source) : Prop := src.stream = [] ∧ LF ∉ rb.unread

instance (rb : ReadBuffer N) (src : Source) : Decidable (AtEnd rb src) :=
  inferInstanceAs (Decidable (_ ∧ _))

/-- Where the `k`-th successive call leaves its loop. -/
def nthEnd : ℕ → ReadBuffer N → Source → Option (ReadBuffer N × Source)
  | 0, rb, src => loopEnd (src.stream.length + 1) rb src
  | k + 1, rb, src => (readUntilLfStripCr rb src).bind (fun r => nthEnd k r.2.1 r.2.2)

/-- **Every call is right about the end of the stream.** It returns, and an
empty span if and only if it has got to the end of file. -/
def ReportsEnd (rb : ReadBuffer N) (src : Source) : Prop :=
  ∀ k, ∃ result rb' src', nthCall k rb src = some result ∧ nthEnd k rb src = some (rb', src')
    ∧ (result = [] ↔ AtEnd rb' src')

section Loop

variable {rb : ReadBuffer N} {src : Source}

theorem afterLoop_of_not_mem (h : LF ∉ rb.unread) : afterLoop rb src = ([], rb, src) :=
  if_pos (List.idxOf_eq_length h)

/-- What reads nothing changes nothing. -/
theorem doReadSome_of_zero {bytes : List UInt8} (h : (rb.doReadSome bytes).2 = 0) :
    (rb.doReadSome bytes).1 = rb := by
  have hnil : bytes = [] := by
    by_contra hne
    unfold doReadSome at h
    rw [if_neg (fun hlen => hne (List.eq_nil_of_length_eq_zero hlen))] at h
    exact hne (List.eq_nil_of_length_eq_zero h)
  rw [hnil, doReadSome_nil]

/-- **A call is its loop and what follows.** Where nothing has been read there
is no LF either. -/
theorem readUntilLoop_eq (rounds : ℕ) (rb : ReadBuffer N) (src : Source) :
    readUntilLoop rounds rb src
      = (loopEnd rounds rb src).map (fun e => afterLoop e.1 e.2) := by
  induction rounds generalizing rb src with
  | zero => rfl
  | succ rounds ih =>
    unfold readUntilLoop loopEnd
    by_cases hfind : rb.find LF = rb.unread.length
    · dsimp only
      rw [if_pos hfind, if_pos hfind]
      by_cases hzero : (rb.doReadSome (src.readSome rb.remaining.size).1).2 = 0
      · rw [if_pos hzero, if_pos hzero]
        rw [doReadSome_of_zero hzero, Option.map_some,
          afterLoop_of_not_mem (List.idxOf_eq_length_iff.mp hfind)]
      · rw [if_neg hzero, if_neg hzero, ih]
    · rw [if_neg hfind]
      unfold afterLoop
      dsimp only
      rw [if_neg hfind, Option.map_some, if_neg hfind]

/-- The line that is returned, and the buffer after it. -/
theorem afterLoop_of_mem {p : Progress} (h : Follows rb src p) (hl : LF ∈ rb.unread) :
    afterLoop rb src
      = (stripCr (rb.unread.take (rb.find LF)), (rb.consume (rb.find LF + 1)).2, src) := by
  obtain ⟨-, -, hcont, -, -⟩ := h.consume hl
  have hfind : rb.find LF ≠ rb.unread.length := Nat.ne_of_lt (List.idxOf_lt_length_iff.mpr hl)
  unfold afterLoop
  dsimp only
  rw [if_neg hfind, contents_stripCrSpan, hcont]

end Loop

/-! ## Reads that come to be blocked -/

/-- **The reads are blocked**: the storage is full, and something is still to be
read. -/
def Progress.Blocked (N : ℕ) (p : Progress) : Prop := p.used = N ∧ p.src.stream ≠ []

/-- The reads come to be blocked. -/
def Progress.GetsBlocked (N : ℕ) (p : Progress) : Prop :=
  ∃ reads, ((Progress.advance N)^[reads] p).Blocked N

section Blocked

variable {p : Progress}

/-- While there is room they are not blocked. -/
theorem getsBlocked_advance (h : p.used ≠ N) :
    p.GetsBlocked N ↔ (p.advance N).GetsBlocked N :=
  (exists_iterate_iff (Progress.advance N) (Progress.Blocked N) p).trans
    (or_iff_right (fun hb => h hb.1))

/-- A stream that fits into the storage does not get the reads blocked. -/
theorem not_getsBlocked_of_fits (h : p.used + p.src.stream.length ≤ N) : ¬ p.GetsBlocked N := by
  rintro ⟨reads, hr⟩
  induction reads generalizing p with
  | zero =>
    obtain ⟨hused, hne⟩ := hr
    have hused : p.used = N := hused
    exact hne (List.eq_nil_of_length_eq_zero (by rw [Function.iterate_zero_apply]; omega))
  | succ reads ih =>
    rw [Function.iterate_succ_apply] at hr
    exact ih (fits_advance h) hr

end Blocked

/-- No more of the storage is in use than there is. -/
theorem Follows.used_le {rb : ReadBuffer N} {src : Source} {p : Progress} (h : Follows rb src p) :
    p.used ≤ N := by
  by_cases hnil : p.line = []
  · rw [h.clean hnil]
    exact Nat.zero_le N
  · rw [← h.used hnil]
    have h₁ := h.valid.meets
    have h₂ := h.valid.ends
    unfold ReadBuffer.filled
    omega

/-! ## One call -/

section Call

variable {rb : ReadBuffer N} {src : Source} {p : Progress}

/-- **The three ways to leave the loop**: with a line, at the end of file, and
with no room to read into. -/
inductive Left (rb : ReadBuffer N) (src : Source) (p : Progress) : Prop
  | line (hline : LF ∈ rb.unread)
  | ended (hend : AtEnd rb src)
  | full (hno : LF ∉ rb.unread) (hblocked : p.Blocked N)

/-- **The loop is left in one of these ways**, what is still to come is what it
was, and so is whether the reads come to be blocked. The induction is on the
rounds, each of which but the last reads something. -/
theorem left_of_rounds (rounds : ℕ) : ∀ {rb : ReadBuffer N} {src : Source} {p : Progress},
    Follows rb src p → src.stream.length < rounds →
    ∃ rb' src' p', loopEnd rounds rb src = some (rb', src') ∧ Follows rb' src' p'
      ∧ text rb' src' = text rb src ∧ (p.GetsBlocked N ↔ p'.GetsBlocked N)
      ∧ Left rb' src' p' := by
  induction rounds with
  | zero => intro rb src p h hlt; exact absurd hlt (Nat.not_lt_zero _)
  | succ rounds ih =>
    intro rb src p h hlt
    by_cases hl : LF ∈ rb.unread
    · have hfind : rb.find LF ≠ rb.unread.length := Nat.ne_of_lt (List.idxOf_lt_length_iff.mpr hl)
      exact ⟨rb, src, p, if_neg hfind, h, rfl, Iff.rfl, .line hl⟩
    · by_cases hused : p.used = N
      · have hfind : rb.find LF = rb.unread.length := List.idxOf_eq_length hl
        have hloop : loopEnd (rounds + 1) rb src = some (rb, src) := by
          unfold loopEnd Source.readSome
          dsimp only
          rw [if_pos hfind, if_pos (h.room_eq_zero hl hused)]
          dsimp only
          rw [doReadSome_nil]
          rfl
        refine ⟨rb, src, p, hloop, h, rfl, Iff.rfl, ?_⟩
        by_cases hstream : src.stream = []
        · exact .ended ⟨hstream, hl⟩
        · exact .full hl ⟨hused, h.source ▸ hstream⟩
      · obtain ⟨hn, hunread, hfollows⟩ := h.read hl
        have hfind : rb.find LF = rb.unread.length := List.idxOf_eq_length hl
        have htext := h.text_read hl
        have hloop : loopEnd (rounds + 1) rb src
            = if (src.readSome rb.remaining.size).1.length = 0 then
                some ((rb.doReadSome (src.readSome rb.remaining.size).1).1,
                  (src.readSome rb.remaining.size).2)
              else loopEnd rounds (rb.doReadSome (src.readSome rb.remaining.size).1).1
                (src.readSome rb.remaining.size).2 := by
          rw [loopEnd]
          dsimp only
          rw [if_pos hfind, hn]
        rw [hloop]
        by_cases hzero : (src.readSome rb.remaining.size).1.length = 0
        · rw [if_pos hzero]
          have hnil := List.eq_nil_of_length_eq_zero hzero
          have happend := readSome_append src rb.remaining.size
          rw [stream_eq_nil_of_readSome (h.sizes _) (h.room_ne_zero hl hused) hzero] at happend
          refine ⟨_, _, _, rfl, hfollows, htext, getsBlocked_advance hused, .ended ⟨?_, ?_⟩⟩
          · exact (List.append_eq_nil_iff.mp happend).2
          · rw [hunread, hnil, List.append_nil]
            exact hl
        · rw [if_neg hzero]
          have hless : (src.readSome rb.remaining.size).2.stream.length < rounds :=
            lt_of_lt_of_le (readSome_length_lt hzero) (Nat.le_of_lt_succ hlt)
          obtain ⟨rb', src', p', hend, hf, htext', hblocked, hleft⟩ := ih hfollows hless
          exact ⟨rb', src', p', hend, hf, htext'.trans htext,
            (getsBlocked_advance hused).trans hblocked, hleft⟩

end Call

/-! ## All calls -/

section Calls

variable {rb rb' : ReadBuffer N} {src src' : Source} {p : Progress}

/-- What the first call comes to, and the calls after it. -/
theorem calls_of_loopEnd (hend : loopEnd (src.stream.length + 1) rb src = some (rb', src')) :
    nthCall 0 rb src = some (afterLoop rb' src').1 ∧ nthEnd 0 rb src = some (rb', src')
      ∧ (∀ k, nthCall (k + 1) rb src
          = nthCall k (afterLoop rb' src').2.1 (afterLoop rb' src').2.2)
      ∧ ∀ k, nthEnd (k + 1) rb src
          = nthEnd k (afterLoop rb' src').2.1 (afterLoop rb' src').2.2 := by
  have hcall : readUntilLfStripCr rb src = some (afterLoop rb' src') := by
    rw [readUntilLfStripCr, readUntilLoop_eq, hend]
    rfl
  refine ⟨?_, hend, fun k => ?_, fun k => ?_⟩
  · rw [nthCall, hcall]
    rfl
  · rw [nthCall, hcall]
    rfl
  · rw [nthEnd, hcall]
    rfl

/-- The calls are right when the first one is and those after it are. -/
theorem reportsEnd_iff_first
    (hend : loopEnd (src.stream.length + 1) rb src = some (rb', src')) :
    ReportsEnd rb src ↔ ((afterLoop rb' src').1 = [] ↔ AtEnd rb' src')
      ∧ ReportsEnd (afterLoop rb' src').2.1 (afterLoop rb' src').2.2 := by
  obtain ⟨hfirst, hfirstEnd, hnext, hnextEnd⟩ := calls_of_loopEnd hend
  constructor
  · intro h
    refine ⟨?_, fun k => ?_⟩
    · obtain ⟨result, rb₁, src₁, hresult, hat, hiff⟩ := h 0
      rw [hfirst] at hresult
      rw [hfirstEnd] at hat
      obtain rfl := Option.some.inj hresult
      obtain ⟨rfl, rfl⟩ := Prod.mk.inj (Option.some.inj hat)
      exact hiff
    · obtain ⟨result, rb₁, src₁, hresult, hat, hiff⟩ := h (k + 1)
      rw [hnext] at hresult
      rw [hnextEnd] at hat
      exact ⟨result, rb₁, src₁, hresult, hat, hiff⟩
  · rintro ⟨hiff, hrest⟩ k
    cases k with
    | zero => exact ⟨_, rb', src', hfirst, hfirstEnd, hiff⟩
    | succ k =>
      rw [hnext, hnextEnd]
      exact hrest k

/-- At the end of file a call leaves its loop at once. -/
theorem loopEnd_of_atEnd (h : AtEnd rb src) (rounds : ℕ) :
    ∃ src', loopEnd (rounds + 1) rb src = some (rb, src') ∧ AtEnd rb src' := by
  obtain ⟨hstream, hno⟩ := h
  have happend := readSome_append src rb.remaining.size
  rw [hstream] at happend
  obtain ⟨hbytes, hrest⟩ := List.append_eq_nil_iff.mp happend
  refine ⟨(src.readSome rb.remaining.size).2, ?_, hrest, hno⟩
  have hfind : rb.find LF = rb.unread.length := List.idxOf_eq_length hno
  unfold loopEnd
  dsimp only
  rw [if_pos hfind, hbytes, doReadSome_nil]
  rfl

/-- **At the end of file every call says so.** -/
theorem reportsEnd_of_atEnd (h : AtEnd rb src) : ReportsEnd rb src := by
  intro k
  induction k generalizing src with
  | zero =>
    obtain ⟨src', hend, hat⟩ := loopEnd_of_atEnd h src.stream.length
    obtain ⟨hfirst, hfirstEnd, -, -⟩ := calls_of_loopEnd hend
    exact ⟨_, rb, src', hfirst, hfirstEnd,
      iff_of_true (congrArg Prod.fst (afterLoop_of_not_mem hat.2)) hat⟩
  | succ k ih =>
    obtain ⟨src', hend, hat⟩ := loopEnd_of_atEnd h src.stream.length
    obtain ⟨-, -, hnext, hnextEnd⟩ := calls_of_loopEnd hend
    rw [hnext, hnextEnd, afterLoop_of_not_mem hat.2]
    exact ih hat

/-- **Every call is right about the end of the stream exactly when** no line is
empty and the reads do not come to be blocked. The induction is on what is
still to come. -/
theorem reportsEnd_iff_of_follows (n : ℕ) : ∀ {rb : ReadBuffer N} {src : Source} {p : Progress},
    Follows rb src p → (text rb src).length ≤ n →
    (ReportsEnd rb src
      ↔ (∀ line ∈ completeLines (text rb src), stripCr line ≠ []) ∧ ¬ p.GetsBlocked N) := by
  induction n using Nat.strong_induction_on with
  | _ n ih =>
    intro rb src p h hn
    obtain ⟨rb', src', p', hend, hf, htext, hblocked, hleft⟩ :=
      left_of_rounds (src.stream.length + 1) h (Nat.lt_succ_self _)
    rw [reportsEnd_iff_first hend, hblocked, ← htext]
    rw [← htext] at hn
    cases hleft with
    | line hline =>
      obtain ⟨hnot, hsplit, -, hunread, hfollows⟩ := hf.consume hline
      have htext' : text rb' src' = rb'.unread.take (rb'.find LF)
          ++ LF :: text (rb'.consume (rb'.find LF + 1)).2 src' := by
        unfold text
        rw [hunread]
        conv_lhs => rw [hsplit]
        rw [List.append_assoc, List.cons_append]
      have hless : (text (rb'.consume (rb'.find LF + 1)).2 src').length < n := by
        have hlen := congrArg List.length htext'
        rw [List.length_append, List.length_cons] at hlen
        omega
      have hnotEnd : ¬ AtEnd rb' src' := fun hat => hat.2 hline
      rw [afterLoop_of_mem hf hline, ih _ hless hfollows (Nat.le_refl _), htext',
        completeLines_append_cons hnot, List.forall_mem_cons, iff_false_right hnotEnd, and_assoc]
    | ended hatEnd =>
      rw [afterLoop_of_not_mem hatEnd.2]
      refine iff_of_true ⟨iff_of_true rfl hatEnd, reportsEnd_of_atEnd hatEnd⟩
        ⟨fun line hmem => ?_, not_getsBlocked_of_fits ?_⟩
      · have hlf := mem_of_mem_completeLines hmem
        rw [text, hatEnd.1, List.append_nil] at hlf
        exact absurd hlf hatEnd.2
      · rw [hf.source, hatEnd.1]
        exact hf.used_le
    | full hno hfull =>
      refine iff_of_false (fun hreports => ?_) (fun hnot => hnot.2 ⟨0, hfull⟩)
      rw [afterLoop_of_not_mem hno] at hreports
      exact (hf.source ▸ hfull.2) (hreports.1.mp rfl).1

end Calls

/-! ## The end of a stream -/

/-- **Reporting the end of a stream.** For every storage, every stream and every
schedule of reads that are not empty, each successive call returns an empty
span exactly where it has got to the end of file, if and only if no complete
line is empty once it is stripped and no read ends in the middle of a line just
as the storage is full, with something still to be read. -/
theorem reportsEnd_iff (N address : ℕ) (stream : List UInt8) (sizes : ℕ → ℕ)
    (hsizes : ∀ i, 0 < sizes i) :
    ReportsEnd (new N address) ⟨stream, sizes, 0⟩
      ↔ (∀ line ∈ completeLines stream, stripCr line ≠ [])
        ∧ ¬ Progress.GetsBlocked N ⟨0, [], ⟨stream, sizes, 0⟩⟩ := by
  have htext : text (new N address) ⟨stream, sizes, 0⟩ = stream := rfl
  have h := reportsEnd_iff_of_follows stream.length (follows_new N address hsizes)
    (le_of_eq (congrArg List.length htext))
  rwa [htext] at h

/-- `"ab\ncd"`, in reads of two bytes. The first call returns the line, and the
ones after it tell that the descriptor has been closed. -/
theorem reportsEnd_iff_inTwos : ReportsEnd (new 8 0) ⟨[97, 98, 10, 99, 100], fun _ => 2, 0⟩ :=
  (reportsEnd_iff 8 0 [97, 98, 10, 99, 100] (fun _ => 2) (fun _ => by decide)).mpr
    ⟨by decide, not_getsBlocked_of_fits (by decide)⟩

/-- **An open connection is reported as closed**, by a line that is empty, and by
one that is longer than the storage. -/
theorem open_reported_closed :
    ¬ ReportsEnd (new 8 0) ⟨[13, 10, 97, 10], fun _ => 8, 0⟩
      ∧ ¬ ReportsEnd (new 2 0) ⟨[97, 98, 99, 10], fun _ => 8, 0⟩ := by
  have hfalse {N : ℕ} {stream : List UInt8} {sizes : ℕ → ℕ}
      (hcall : nthCall 0 (new N 0) ⟨stream, sizes, 0⟩ = some [])
      (hend : (nthEnd 0 (new N 0) ⟨stream, sizes, 0⟩).any (fun e => AtEnd e.1 e.2) = false) :
      ¬ ReportsEnd (new N 0) ⟨stream, sizes, 0⟩ := by
    intro h
    obtain ⟨result, rb', src', hresult, hat, hiff⟩ := h 0
    rw [hcall] at hresult
    rw [hat] at hend
    exact of_decide_eq_false hend (hiff.mp (Option.some.inj hresult).symm)
  exact ⟨hfalse (by decide) (by decide), hfalse (by decide) (by decide)⟩

end ReadBuffer
