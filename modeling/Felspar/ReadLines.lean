import Mathlib.Data.List.DropRight
import Mathlib.Logic.Function.Iterate
import Felspar.ReadBuffer

/-!
# Reading lines

`read_until_lf_strip_cr` reads from a descriptor until the unread data of a
read buffer has a line feed in it, and returns the line without it. An empty
span says that the descriptor has been closed: it is returned when
`do_read_some` has read nothing.

That happens at the end of the stream, but also when `remaining()` is empty:
consuming lines leaves the storage in front of the unread data unused, so the
beginning of a line may reach the end of the storage although the line would
fit. From then on every call returns an empty span. So whether the lines of a
stream are read as they are depends on where the reads end. It does exactly
when no read ends in the middle of a line just as the storage is full
(`lines_iff`).
-/

open SharedBuffer

namespace ReadBuffer

/-- `'\n'` -/
abbrev LF : UInt8 := 10

/-- `'\r'` -/
abbrev CR : UInt8 := 13

/-! ## The descriptor -/

/-- **A descriptor**: what is still to be read from it, and how much each of
the reads delivers at most. -/
structure Source where
  stream : List UInt8
  sizes : ℕ → ℕ
  reads : ℕ

/-- `read_some` into a span of this size. Into an empty one it reads
nothing. -/
def Source.readSome (src : Source) (room : ℕ) : List UInt8 × Source :=
  if room = 0 then ([], src)
  else
    (src.stream.take (min room (src.sizes src.reads)),
      { src with
        stream := src.stream.drop (min room (src.sizes src.reads))
        reads := src.reads + 1 })

/-! ## `read_until_lf_strip_cr` -/

variable {N : ℕ}

/-- The span without a final CR. -/
def stripCrSpan (rb : ReadBuffer N) (read : Span) : Span :=
  if read.size ≠ 0 ∧ (rb.contents read).getLast? = some CR then read.first (read.size - 1)
  else read

/-- The loop, with a bound on its rounds: the line, the buffer, and what is
left to be read. -/
def readUntilLoop : ℕ → ReadBuffer N → Source → Option (List UInt8 × ReadBuffer N × Source)
  | 0, _, _ => none
  | rounds + 1, rb, src =>
    let line := rb.find LF
    if line = rb.unread.length then
      let (bytes, src) := src.readSome rb.remaining.size
      let (rb, n) := rb.doReadSome bytes
      if n = 0 then some ([], rb, src) else readUntilLoop rounds rb src
    else
      let (start, rb) := rb.consume (line + 1)
      some (rb.contents (rb.stripCrSpan (start.first line)), rb, src)

/-- **`read_until_lf_strip_cr`.** Each round but the last reads something. -/
def readUntilLfStripCr (rb : ReadBuffer N) (src : Source) :
    Option (List UInt8 × ReadBuffer N × Source) :=
  readUntilLoop (src.stream.length + 1) rb src

/-- What the `k`-th successive call returns, counting from zero. -/
def nthCall : ℕ → ReadBuffer N → Source → Option (List UInt8)
  | 0, rb, src => (readUntilLfStripCr rb src).map Prod.fst
  | k + 1, rb, src => (readUntilLfStripCr rb src).bind (fun r => nthCall k r.2.1 r.2.2)

/-! ## Lines -/

/-- The complete lines of a stream, without their LF. -/
def completeLines (stream : List UInt8) : List (List UInt8) := (stream.splitOn LF).dropLast

/-- A line without one trailing CR. -/
def stripCr (line : List UInt8) : List UInt8 :=
  if line.getLast? = some CR then line.dropLast else line

/-- The part of the stream after its last LF. -/
def lastLine (stream : List UInt8) : List UInt8 := stream.rtakeWhile (fun b => b ≠ LF)

section Lines

variable {line stream l l' : List UInt8}

theorem completeLines_of_not_mem (h : LF ∉ stream) : completeLines stream = [] := by
  rw [completeLines, List.splitOn_eq_singleton h]
  rfl

/-- **The first line, and those after it.** -/
theorem completeLines_append_cons (h : LF ∉ line) :
    completeLines (line ++ LF :: stream) = line :: completeLines stream := by
  rw [completeLines, List.splitOn_append_cons_self_of_not_mem h,
    List.dropLast_cons_of_ne_nil (List.splitOn_ne_nil LF stream)]
  rfl

theorem mem_of_mem_completeLines (h : line ∈ completeLines stream) : LF ∈ stream := by
  by_contra hn
  rw [completeLines_of_not_mem hn] at h
  exact absurd h (by simp)

theorem lastLine_eq_self (h : LF ∉ l) : lastLine l = l := by
  unfold lastLine
  rw [List.rtakeWhile_eq_self_iff]
  exact fun b hb => decide_eq_true (fun he => h (he ▸ hb))

theorem lf_not_mem_lastLine : LF ∉ lastLine l := fun h => by
  simpa using List.mem_rtakeWhile_imp h

/-- What is after the last LF does not depend on what is before an LF. -/
theorem lastLine_append_cons : lastLine (l ++ LF :: l') = lastLine l' := by
  unfold lastLine
  induction l' using List.reverseRecOn with
  | nil => simp
  | append_singleton l' b ih =>
    rw [show l ++ LF :: (l' ++ [b]) = (l ++ LF :: l') ++ [b] by simp,
      List.rtakeWhile_concat, List.rtakeWhile_concat, ih]

/-- Where the first LF is. -/
theorem take_idxOf_lf (h : LF ∈ l) :
    LF ∉ l.take (l.idxOf LF) ∧ l = l.take (l.idxOf LF) ++ LF :: l.drop (l.idxOf LF + 1) := by
  induction l with
  | nil => exact absurd h (by simp)
  | cons b l ih =>
    by_cases hb : b = LF
    · subst hb
      rw [List.idxOf_cons_self]
      exact ⟨by simp, rfl⟩
    · obtain ⟨hnot, heq⟩ := ih ((List.mem_cons.mp h).resolve_left (Ne.symm hb))
      rw [List.idxOf_cons_ne l hb]
      refine ⟨fun hm => ?_, congrArg (b :: ·) heq⟩
      rcases List.mem_cons.mp hm with he | hm
      · exact hb he.symm
      · exact hnot hm

end Lines

/-- The span without a final CR holds the line without one. -/
theorem contents_stripCrSpan (rb : ReadBuffer N) (read : Span) :
    rb.contents (rb.stripCrSpan read) = stripCr (rb.contents read) := by
  have hlen : (rb.contents read).length = read.size := length_slice _ _ _
  unfold stripCrSpan stripCr
  by_cases hcr : (rb.contents read).getLast? = some CR
  · have hne : read.size ≠ 0 := fun hz => by
      rw [hz] at hlen
      rw [List.eq_nil_of_length_eq_zero hlen] at hcr
      exact absurd hcr (by simp)
    rw [if_pos ⟨hne, hcr⟩, if_pos hcr, List.dropLast_eq_take, hlen]
    exact rb.contents_first (Nat.sub_le _ _)
  · rw [if_neg (fun hand => hcr hand.2), if_neg hcr]

/-! ## Where the reads end -/

/-- **Where a read ended**: the part of the line that it ended in, what is
still to be read, and how much has been read since the last time a read ended
between two lines. -/
structure Progress where
  used : ℕ
  line : List UInt8
  src : Source

/-- The next read, into a storage of `N` bytes. -/
def Progress.advance (N : ℕ) (p : Progress) : Progress :=
  let (bytes, src) := p.src.readSome (N - p.used)
  let line := lastLine (p.line ++ bytes)
  { used := if line = [] then 0 else p.used + bytes.length
    line := line
    src := src }

/-- **The reads are stuck**: the storage is full, and of this line and the
later ones that are complete one is not empty once it is stripped. -/
def Progress.Stuck (N : ℕ) (p : Progress) : Prop :=
  p.used = N ∧ ∃ line ∈ completeLines (p.line ++ p.src.stream), stripCr line ≠ []

/-- The reads come to be stuck. -/
def Progress.GetsStuck (N : ℕ) (p : Progress) : Prop :=
  ∃ reads, ((Progress.advance N)^[reads] p).Stuck N

section Progress

variable {p : Progress}

/-- What comes to hold of the iterates holds at once, or comes to hold of those
that begin after one. -/
theorem exists_iterate_iff {α : Type} (f : α → α) (P : α → Prop) (a : α) :
    (∃ n, P (f^[n] a)) ↔ P a ∨ ∃ n, P (f^[n] (f a)) :=
  Nat.or_exists_add_one.symm

/-- They are stuck, or come to be so after the next read. -/
theorem getsStuck_iff : p.GetsStuck N ↔ p.Stuck N ∨ (p.advance N).GetsStuck N :=
  exists_iterate_iff (Progress.advance N) (Progress.Stuck N) p

/-- While there is room they are not. -/
theorem getsStuck_advance (h : p.used ≠ N) :
    p.GetsStuck N ↔ (p.advance N).GetsStuck N := by
  rw [getsStuck_iff]
  exact or_iff_right (fun hs => h hs.1)

/-- Into a full storage nothing is read. -/
theorem getsStuck_of_full (h : p.used = N) (hl : LF ∉ p.line) (hclean : p.line = [] → p.used = 0) :
    p.GetsStuck N ↔ p.Stuck N := by
  have hadv : p.advance N = p := by
    unfold Progress.advance Source.readSome
    rw [if_pos (by omega)]
    dsimp only
    rw [List.append_nil, lastLine_eq_self hl]
    by_cases hnil : p.line = []
    · rw [if_pos hnil, ← hclean hnil]
    · rw [if_neg hnil]
      rfl
  constructor
  · rintro ⟨reads, hr⟩
    rwa [Function.iterate_fixed hadv] at hr
  · exact fun hs => ⟨0, hs⟩

theorem readSome_append (src : Source) (room : ℕ) :
    (src.readSome room).1 ++ (src.readSome room).2.stream = src.stream := by
  unfold Source.readSome
  split
  · rfl
  · exact List.take_append_drop _ _

/-- A read that reads something leaves less. -/
theorem readSome_length_lt {src : Source} {room : ℕ} (h : (src.readSome room).1.length ≠ 0) :
    (src.readSome room).2.stream.length < src.stream.length := by
  have hlen := congrArg List.length (readSome_append src room)
  rw [List.length_append] at hlen
  omega

/-- A read into a span that has room reads nothing only at the end. -/
theorem stream_eq_nil_of_readSome {src : Source} {room : ℕ} (hsize : 0 < src.sizes src.reads)
    (hroom : room ≠ 0) (h : (src.readSome room).1.length = 0) : src.stream = [] := by
  unfold Source.readSome at h
  rw [if_neg hroom, List.length_take] at h
  exact List.eq_nil_of_length_eq_zero (by omega)

/-- Reads that come to be stuck have a complete line before them. -/
theorem mem_of_getsStuck (h : p.GetsStuck N) : LF ∈ p.line ++ p.src.stream := by
  obtain ⟨reads, hr⟩ := h
  induction reads generalizing p with
  | zero =>
    obtain ⟨-, line, hline, -⟩ := hr
    exact mem_of_mem_completeLines hline
  | succ reads ih =>
    rw [Function.iterate_succ_apply] at hr
    have hmem := ih hr
    rw [← readSome_append p.src (N - p.used)]
    rcases List.mem_append.mp hmem with hm | hm
    · exact absurd hm lf_not_mem_lastLine
    · exact List.mem_append_right _ (List.mem_append_right _ hm)

/-- **As long as everything fits into the storage**, it does so after the next
read. -/
theorem fits_advance (h : p.used + p.src.stream.length ≤ N) :
    (p.advance N).used + (p.advance N).src.stream.length ≤ N := by
  have hlen := congrArg List.length (readSome_append p.src (N - p.used))
  rw [List.length_append] at hlen
  unfold Progress.advance
  dsimp only
  split <;> omega

/-- **A stream that fits into the storage does not get the reads stuck.** -/
theorem not_getsStuck_of_fits (hl : LF ∉ p.line) (h : p.used + p.src.stream.length ≤ N) :
    ¬ p.GetsStuck N := by
  rintro ⟨reads, hr⟩
  induction reads generalizing p with
  | zero =>
    obtain ⟨hused, line, hline, -⟩ := hr
    have hused : p.used = N := hused
    have hnil : p.src.stream = [] := List.eq_nil_of_length_eq_zero (by omega)
    have hmem := mem_of_mem_completeLines hline
    rw [Function.iterate_zero_apply, hnil, List.append_nil] at hmem
    exact hl hmem
  | succ reads ih =>
    rw [Function.iterate_succ_apply] at hr
    exact ih lf_not_mem_lastLine (fits_advance h) hr

end Progress

/-! ## The buffer and where the reads end -/

/-- **The buffer goes with where the last read ended.** Its unread data ends
with the part of the line the read ended in, and as much of the storage is in
use as has been read since a read ended between two lines. -/
structure Follows (rb : ReadBuffer N) (src : Source) (p : Progress) : Prop where
  valid : rb.Valid
  source : p.src = src
  sizes : ∀ i, 0 < src.sizes i
  line : p.line = lastLine rb.unread
  used : p.line ≠ [] → rb.filled = p.used
  clean : p.line = [] → p.used = 0
  empty : rb.unread = [] → rb.filled = 0

section Follows

variable {rb : ReadBuffer N} {src : Source} {p : Progress}

/-- When there is no line to return, this is where the next read goes. -/
theorem Follows.filled (h : Follows rb src p) (hl : LF ∉ rb.unread) :
    p.line = rb.unread ∧ rb.filled = p.used := by
  have hline : p.line = rb.unread := h.line.trans (lastLine_eq_self hl)
  refine ⟨hline, ?_⟩
  by_cases hnil : rb.unread = []
  · rw [h.empty hnil, h.clean (hline.trans hnil)]
  · exact h.used (hline ▸ hnil)

/-- Then there is room, unless the storage is full. -/
theorem Follows.room_ne_zero (h : Follows rb src p) (hl : LF ∉ rb.unread) (hused : p.used ≠ N) :
    rb.remaining.size ≠ 0 := by
  have h₁ := h.valid.meets
  have h₂ := h.valid.ends
  have h₃ := h.valid.inside
  have hfilled : rb.emptyBuffer.data - rb.address = p.used := (h.filled hl).2
  unfold remaining
  omega

/-- And then there is none. -/
theorem Follows.room_eq_zero (h : Follows rb src p) (hl : LF ∉ rb.unread) (hused : p.used = N) :
    rb.remaining.size = 0 := by
  rw [h.valid.remaining_size, (h.filled hl).2, hused, Nat.sub_self]

/-- **A read**, when there is no line to return. -/
theorem Follows.read (h : Follows rb src p) (hl : LF ∉ rb.unread) :
    let bytes := (src.readSome rb.remaining.size).1
    (rb.doReadSome bytes).2 = bytes.length
      ∧ (rb.doReadSome bytes).1.unread = rb.unread ++ bytes
      ∧ Follows (rb.doReadSome bytes).1 (src.readSome rb.remaining.size).2 (p.advance N) := by
  intro bytes
  obtain ⟨hline, hfilled⟩ := h.filled hl
  have hroom : rb.remaining.size = N - p.used := by rw [h.valid.remaining_size, hfilled]
  have hle : bytes.length ≤ rb.remaining.size := by
    show (src.readSome rb.remaining.size).1.length ≤ _
    unfold Source.readSome
    split
    · exact Nat.zero_le _
    · exact le_trans (List.length_take_le _ _) (min_le_left _ _)
  obtain ⟨hn, hvalid, hunread, hfill⟩ := h.valid.doReadSome hle
  refine ⟨hn, hunread, ?_⟩
  have hbytes : (p.src.readSome (N - p.used)).1 = bytes := by rw [h.source, ← hroom]
  have hadv : p.advance N = {
      used := if lastLine (rb.unread ++ bytes) = [] then 0 else p.used + bytes.length
      line := lastLine (rb.unread ++ bytes)
      src := (src.readSome rb.remaining.size).2 } := by
    unfold Progress.advance
    dsimp only
    rw [hbytes, hline, h.source, ← hroom]
  rw [hadv]
  refine ⟨hvalid, rfl, ?_, ?_, fun hne => ?_, fun hnil => if_pos hnil, fun hnil => ?_⟩
  · unfold Source.readSome
    split <;> exact h.sizes
  · rw [hunread]
  · rw [hfill, hfilled]
    exact (if_neg hne).symm
  · rw [hunread] at hnil
    obtain ⟨hold, hnew⟩ := List.append_eq_nil_iff.mp hnil
    rw [hfill, hnew, h.empty hold]
    rfl

/-- **A line is consumed.** -/
theorem Follows.consume (h : Follows rb src p) (hl : LF ∈ rb.unread) :
    let line := rb.unread.take (rb.find LF)
    let rest := rb.unread.drop (rb.find LF + 1)
    LF ∉ line ∧ rb.unread = line ++ LF :: rest
      ∧ (rb.consume (rb.find LF + 1)).2.contents
          ((rb.consume (rb.find LF + 1)).1.first (rb.find LF)) = line
      ∧ (rb.consume (rb.find LF + 1)).2.unread = rest
      ∧ Follows (rb.consume (rb.find LF + 1)).2 src p := by
  intro line rest
  obtain ⟨hnot, hsplit⟩ := take_idxOf_lf hl
  have hlt : rb.find LF < rb.unread.length := List.idxOf_lt_length_iff.mpr hl
  obtain ⟨hstart, hcont, hvalid, hunread, hfilled⟩ := h.valid.consume hlt
  have hrest : rest = [] ↔ rb.unread.length = rb.find LF + 1 := by
    rw [List.drop_eq_nil_iff]
    omega
  refine ⟨hnot, hsplit, ?_, hunread, hvalid, h.source, h.sizes, ?_, fun hne => ?_, h.clean,
    fun hnil => ?_⟩
  · have hsize : rb.find LF ≤ (rb.consume (rb.find LF + 1)).1.size := by
      rw [hstart]
      exact Nat.le_succ _
    rw [contents_first _ hsize, hcont, List.take_take, min_eq_left (Nat.le_succ _)]
  · rw [hunread, h.line]
    conv_lhs => rw [hsplit]
    exact lastLine_append_cons
  · have hne' : rest ≠ [] := fun hnil => by
      rw [h.line, hsplit] at hne
      exact hne (lastLine_append_cons.trans (congrArg lastLine hnil))
    rw [hfilled, if_neg (fun hall => hne' (hrest.mpr hall)), h.used hne]
  · rw [hunread] at hnil
    rw [hfilled, if_pos (hrest.mp hnil)]

end Follows

/-! ## One call -/

section Call

variable {rb : ReadBuffer N} {src : Source} {p : Progress}

/-- What is still to come: the unread data, and what is still to be read. -/
def text (rb : ReadBuffer N) (src : Source) : List UInt8 := rb.unread ++ src.stream

/-- A read moves bytes from the one to the other. -/
theorem Follows.text_read (h : Follows rb src p) (hl : LF ∉ rb.unread) :
    text (rb.doReadSome (src.readSome rb.remaining.size).1).1
      (src.readSome rb.remaining.size).2 = text rb src := by
  obtain ⟨-, hunread, -⟩ := h.read hl
  unfold text
  rw [hunread, List.append_assoc, readSome_append]

/-- **The three ways a call ends**: it returns the next line; there is no
complete line; or nothing can be read although there is one. -/
inductive Called (rb : ReadBuffer N) (src : Source) (result : List UInt8)
    (rb' : ReadBuffer N) (src' : Source) (p' : Progress) : Prop
  | line {line : List UInt8} (hline : LF ∉ line)
      (htext : text rb src = line ++ LF :: text rb' src') (hresult : result = stripCr line)
  | noLine (hno : LF ∉ text rb src)
  | full (hline : LF ∉ rb'.unread) (htext : text rb src = text rb' src')
      (hused : p'.used = N) (hresult : result = [])

/-- When there is no line to return and the storage is full, a call changes
nothing. -/
theorem readUntilLoop_of_full (h : Follows rb src p) (hl : LF ∉ rb.unread)
    (hused : p.used = N) (rounds : ℕ) :
    readUntilLoop (rounds + 1) rb src = some ([], rb, src) := by
  have hfind : rb.find LF = rb.unread.length := List.idxOf_eq_length hl
  unfold readUntilLoop Source.readSome
  dsimp only
  rw [if_pos hfind, if_pos (h.room_eq_zero hl hused)]
  dsimp only
  rw [doReadSome_nil]
  rfl

/-- **A call ends in one of three ways**, and whether the reads come to be
stuck is as it was. The induction is on the rounds, each of which but the last
reads something. -/
theorem called_of_rounds (rounds : ℕ) : ∀ {rb : ReadBuffer N} {src : Source} {p : Progress},
    Follows rb src p → src.stream.length < rounds →
    ∃ result rb' src' p', readUntilLoop rounds rb src = some (result, rb', src')
      ∧ Follows rb' src' p' ∧ (p.GetsStuck N ↔ p'.GetsStuck N)
      ∧ Called rb src result rb' src' p' := by
  induction rounds with
  | zero => intro rb src p h hlt; exact absurd hlt (Nat.not_lt_zero _)
  | succ rounds ih =>
    intro rb src p h hlt
    -- a line that is complete is returned without reading
    by_cases hl : LF ∈ rb.unread
    · obtain ⟨hnot, hsplit, hcont, hunread, hfollows⟩ := h.consume hl
      have hfind : rb.find LF ≠ rb.unread.length := Nat.ne_of_lt (List.idxOf_lt_length_iff.mpr hl)
      refine ⟨stripCr (rb.unread.take (rb.find LF)), (rb.consume (rb.find LF + 1)).2, src, p, ?_,
        hfollows, Iff.rfl, Called.line hnot ?_ rfl⟩
      · unfold readUntilLoop
        dsimp only
        rw [if_neg hfind, contents_stripCrSpan, hcont]
      · unfold text
        rw [hunread]
        conv_lhs => rw [hsplit]
        rw [List.append_assoc, List.cons_append]
    · by_cases hused : p.used = N
      · refine ⟨[], rb, src, p, readUntilLoop_of_full h hl hused rounds, h, Iff.rfl, ?_⟩
        exact Called.full hl rfl hused rfl
      · obtain ⟨hn, -, hfollows⟩ := h.read hl
        have hfind : rb.find LF = rb.unread.length := List.idxOf_eq_length hl
        have htext := h.text_read hl
        have hloop : readUntilLoop (rounds + 1) rb src
            = if (src.readSome rb.remaining.size).1.length = 0 then
                some ([], (rb.doReadSome (src.readSome rb.remaining.size).1).1,
                  (src.readSome rb.remaining.size).2)
              else readUntilLoop rounds (rb.doReadSome (src.readSome rb.remaining.size).1).1
                (src.readSome rb.remaining.size).2 := by
          rw [readUntilLoop]
          dsimp only
          rw [if_pos hfind, hn]
        rw [hloop]
        by_cases hzero : (src.readSome rb.remaining.size).1.length = 0
        · rw [if_pos hzero]
          refine ⟨_, _, _, _, rfl, hfollows, getsStuck_advance hused, Called.noLine ?_⟩
          have hroom : rb.remaining.size ≠ 0 := h.room_ne_zero hl hused
          rw [text, stream_eq_nil_of_readSome (h.sizes _) hroom hzero, List.append_nil]
          exact hl
        · rw [if_neg hzero]
          have hless : (src.readSome rb.remaining.size).2.stream.length < rounds :=
            lt_of_lt_of_le (readSome_length_lt hzero) (Nat.le_of_lt_succ hlt)
          obtain ⟨result, rb', src', p', hres, hf, hstuck, hcalled⟩ := ih hfollows hless
          refine ⟨result, rb', src', p', hres, hf, (getsStuck_advance hused).trans hstuck, ?_⟩
          cases hcalled with
          | line hline heq hresult => exact Called.line hline (htext.symm.trans heq) hresult
          | noLine hno => exact Called.noLine (htext ▸ hno)
          | full hline heq hfull hresult =>
            exact Called.full hline (htext.symm.trans heq) hfull hresult

end Call

/-! ## All calls -/

section Calls

variable {rb : ReadBuffer N} {src : Source} {p : Progress}

/-- **Each call returns its line.** -/
def ReturnsLines (rb : ReadBuffer N) (src : Source) : Prop :=
  ∀ k line, (completeLines (text rb src))[k]? = some line → nthCall k rb src = some (stripCr line)

/-- When there is no line to return and the storage is full, every call returns
an empty span. -/
theorem nthCall_of_full (h : Follows rb src p) (hl : LF ∉ rb.unread) (hused : p.used = N)
    (k : ℕ) : nthCall k rb src = some [] := by
  induction k with
  | zero =>
    unfold nthCall readUntilLfStripCr
    rw [readUntilLoop_of_full h hl hused]
    rfl
  | succ k ih =>
    unfold nthCall readUntilLfStripCr
    rw [readUntilLoop_of_full h hl hused]
    exact ih

/-- With a full storage, the lines are returned exactly when all of them are
empty once stripped. -/
theorem returnsLines_iff_of_full (h : Follows rb src p) (hl : LF ∉ rb.unread)
    (hused : p.used = N) : ReturnsLines rb src ↔ ¬ p.GetsStuck N := by
  have hline : p.line = rb.unread := (h.filled hl).1
  have htext : p.line ++ p.src.stream = text rb src := by rw [hline, h.source, text]
  rw [getsStuck_of_full hused (hline ▸ hl) h.clean]
  constructor
  · rintro hret ⟨-, line, hmem, hne⟩
    rw [htext] at hmem
    obtain ⟨k, hk⟩ := List.mem_iff_getElem?.mp hmem
    have hcall := hret k line hk
    rw [nthCall_of_full h hl hused] at hcall
    exact hne (Option.some.inj hcall).symm
  · intro hnot k line hk
    rw [nthCall_of_full h hl hused]
    by_contra hne
    refine hnot ⟨hused, line, ?_, fun he => hne (congrArg some he.symm)⟩
    rw [htext]
    exact List.mem_of_getElem? hk

/-- **The lines are returned as they are exactly when the reads do not come to
be stuck.** The induction is on what is still to come. -/
theorem returnsLines_iff (n : ℕ) : ∀ {rb : ReadBuffer N} {src : Source} {p : Progress},
    Follows rb src p → (text rb src).length ≤ n → (ReturnsLines rb src ↔ ¬ p.GetsStuck N) := by
  induction n using Nat.strong_induction_on with
  | _ n ih =>
    intro rb src p h hn
    obtain ⟨result, rb', src', p', hres, hf, hstuck, hcalled⟩ :=
      called_of_rounds (src.stream.length + 1) h (Nat.lt_succ_self _)
    have hzero : nthCall 0 rb src = some result := by
      unfold nthCall readUntilLfStripCr
      rw [hres]
      rfl
    have hsucc : ∀ k, nthCall (k + 1) rb src = nthCall k rb' src' := fun k => by
      conv_lhs => unfold nthCall readUntilLfStripCr
      rw [hres]
      rfl
    cases hcalled with
    | @line line hline htext hresult =>
      have hless : (text rb' src').length < n := by
        have hlen := congrArg List.length htext
        rw [List.length_append, List.length_cons] at hlen
        omega
      rw [hstuck, ← ih _ hless hf (Nat.le_refl _)]
      unfold ReturnsLines
      rw [htext, completeLines_append_cons hline]
      constructor
      · intro hret k l hk
        rw [← hsucc]
        exact hret (k + 1) l hk
      · intro hret k l hk
        cases k with
        | zero =>
          rw [hzero, hresult]
          exact congrArg (some <| stripCr ·) (Option.some.inj hk)
        | succ k =>
          rw [hsucc]
          exact hret k l hk
    | noLine hno =>
      refine iff_of_true (fun k l hk => ?_) (fun hs => hno ?_)
      · exact absurd (List.mem_of_getElem? hk) (by rw [completeLines_of_not_mem hno]; simp)
      · have hmem := mem_of_getsStuck hs
        rw [h.line, h.source] at hmem
        rcases List.mem_append.mp hmem with hm | hm
        · exact absurd hm lf_not_mem_lastLine
        · exact List.mem_append_right _ hm
    | full hline htext hused hresult =>
      have hcalls : ∀ k, nthCall k rb src = nthCall k rb' src' := fun k => by
        cases k with
        | zero => rw [hzero, hresult, nthCall_of_full hf hline hused]
        | succ k => rw [hsucc, nthCall_of_full hf hline hused, nthCall_of_full hf hline hused]
      rw [hstuck, ← returnsLines_iff_of_full hf hline hused]
      unfold ReturnsLines
      rw [htext]
      exact forall_congr' (fun k => by rw [hcalls k])

end Calls

/-! ## The lines of a stream -/

theorem follows_new (N address : ℕ) {src : Source} (hsizes : ∀ i, 0 < src.sizes i) :
    Follows (new N address) src ⟨0, [], src⟩ where
  valid := valid_new N address
  source := rfl
  sizes := hsizes
  line := rfl
  used := fun h => absurd rfl h
  clean := fun _ => rfl
  empty := fun _ => Nat.sub_self address

/-- **Reading the lines of a stream.** For every storage, every stream and
every schedule of reads that are not empty, the `k`-th call returns the `k`-th
complete line, without its LF and one trailing CR, for all of them, if and only
if no read ends in the middle of a line just as the storage is full, with this
line or a later one not empty. -/
theorem lines_iff (N address : ℕ) (stream : List UInt8) (sizes : ℕ → ℕ)
    (hsizes : ∀ i, 0 < sizes i) :
    (∀ k line, (completeLines stream)[k]? = some line →
        nthCall k (new N address) ⟨stream, sizes, 0⟩ = some (stripCr line))
      ↔ ¬ Progress.GetsStuck N ⟨0, [], ⟨stream, sizes, 0⟩⟩ := by
  have htext : text (new N address) ⟨stream, sizes, 0⟩ = stream := rfl
  rw [← returnsLines_iff stream.length (follows_new N address hsizes) (le_of_eq (by rw [htext])),
    ReturnsLines, htext]

/-- `"ab\r\ncd\n"`, in reads of three bytes, the second of which ends in the
middle of a line. -/
theorem lines_iff_inThrees :
    nthCall 0 (new 8 0) ⟨[97, 98, 13, 10, 99, 100, 10], fun _ => 3, 0⟩ = some [97, 98]
      ∧ nthCall 1 (new 8 0) ⟨[97, 98, 13, 10, 99, 100, 10], fun _ => 3, 0⟩ = some [99, 100] := by
  have h := (lines_iff 8 0 [97, 98, 13, 10, 99, 100, 10] (fun _ => 3) (fun _ => by decide)).mpr
    (not_getsStuck_of_fits (by decide) (by decide))
  exact ⟨h 0 [97, 98, 13] (by decide), h 1 [99, 100] (by decide)⟩

/-- **A line that would fit is not returned.** `"ab\ncd\n"`, in a storage of
four bytes and reads of as many. The first read ends after the `c`, at the end
of the storage; the second call reads into an empty span and returns one. -/
theorem second_line_lost :
    completeLines [97, 98, 10, 99, 100, 10] = [[97, 98], [99, 100]]
      ∧ nthCall 0 (new 4 0) ⟨[97, 98, 10, 99, 100, 10], fun _ => 4, 0⟩ = some [97, 98]
      ∧ nthCall 1 (new 4 0) ⟨[97, 98, 10, 99, 100, 10], fun _ => 4, 0⟩ = some [] := by
  decide

end ReadBuffer
