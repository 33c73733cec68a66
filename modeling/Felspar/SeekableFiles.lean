import Mathlib.Data.List.TakeWhile
import Felspar.CompoundOperations

/-!
# Transfers on a seekable file

A regular file has a position, which `::read` and `::write` use and advance,
and which `::pread` and `::pwrite` do not look at: they are given an offset.
`poll_warden` carries a `read_some` out with `::read` and a `write_some` with
`::write`. `uring_warden` prepares an SQE for each, with the offset 0, and the
kernel then does what `::pread` and `::pwrite` do. For a socket or a pipe the
offset is ignored and the two wardens do the same.

On a file every operation of the one goes on where the one before it has
ended, and every operation of the other is at the beginning. So they agree on
a sequence of operations only as long as nothing has been transferred before:
the file is at its beginning, and no operation that asks for anything comes
after one that has transferred something (`agree_iff`).
-/

namespace SeekableFiles

open Compound (Transfer)

/-! ## The file -/

/-- A regular file that is open, with its position. -/
structure File where
  content : List UInt8
  position : ℕ
  deriving DecidableEq

/-- What a system call has transferred, from which position on. -/
structure Moved where
  position : ℕ
  bytes : List UInt8
  deriving DecidableEq

/-- The bytes, each with its position in the file. -/
def Moved.cells (m : Moved) : List (UInt8 × ℕ) := m.bytes.zipIdx m.position

namespace File

/-- Write bytes at an offset, which may be behind the end. Writing none
changes nothing. -/
def overwrite (content : List UInt8) (offset : ℕ) (bytes : List UInt8) : List UInt8 :=
  if bytes = [] then content
  else content.takeD offset 0 ++ bytes ++ content.drop (offset + bytes.length)

/-- `::pread`, where the kernel transfers at most `most` bytes. -/
def pread (f : File) (size offset most : ℕ) : Moved × File :=
  (⟨offset, (f.content.drop offset).take (min size most)⟩, f)

/-- `::pwrite` -/
def pwrite (f : File) (bytes : List UInt8) (offset most : ℕ) : Moved × File :=
  (⟨offset, bytes.take most⟩,
    { f with content := overwrite f.content offset (bytes.take most) })

/-- `::read`, at the position of the file, which it advances. -/
def read (f : File) (size most : ℕ) : Moved × File :=
  let (m, f) := f.pread size f.position most
  (m, { f with position := f.position + m.bytes.length })

/-- `::write` -/
def write (f : File) (bytes : List UInt8) (most : ℕ) : Moved × File :=
  let (m, f) := f.pwrite bytes f.position most
  (m, { f with position := f.position + m.bytes.length })

end File

/-! ## The two wardens -/

/-- A `read_some` or a `write_some`, with how much the kernel transfers at
most. -/
structure Call where
  transfer : Transfer
  most : ℕ

/-- What `poll_warden` does. -/
def pollWarden (f : File) (c : Call) : Moved × File :=
  match c.transfer with
  | .readSome size => f.read size c.most
  | .writeSome bytes => f.write bytes c.most

/-- What `uring_warden` does: both SQEs are prepared with the offset 0. -/
def uringWarden (f : File) (c : Call) : Moved × File :=
  match c.transfer with
  | .readSome size => f.pread size 0 c.most
  | .writeSome bytes => f.pwrite bytes 0 c.most

/-- What a sequence of calls transfers. -/
def transfers (warden : File → Call → Moved × File) : File → List Call → List Moved
  | _, [] => []
  | f, c :: cs => (warden f c).1 :: transfers warden (warden f c).2 cs

/-- The same bytes are transferred at the same positions, call by call, when
the one warden has one file and the other another. -/
def AgreeOn (fp fu : File) (cs : List Call) : Prop :=
  (transfers pollWarden fp cs).map Moved.cells = (transfers uringWarden fu cs).map Moved.cells

/-- **The two wardens agree** on these calls. -/
def Agree (f : File) (cs : List Call) : Prop := AgreeOn f f cs

/-! ## What a call comes to -/

/-- The call asks for something, and may be given some of it. -/
def Call.Asks (c : Call) : Prop := c.transfer.size ≠ 0 ∧ c.most ≠ 0

/-- It transfers something from the beginning of a file, or to it. Of an
empty file there is nothing to be read. -/
def Call.Moves (content : List UInt8) (c : Call) : Prop :=
  c.Asks ∧ match c.transfer with
    | .readSome _ => content ≠ []
    | .writeSome _ => True

section Call

variable {f fp fu : File} {c : Call} {cs : List Call}

/-- **A call that moves nothing** leaves the file as it is, in either
warden. -/
theorem wardens_of_not_moves (h : ¬ c.Moves f.content) :
    pollWarden f c = (⟨f.position, []⟩, f) ∧ uringWarden f c = (⟨0, []⟩, f) := by
  obtain ⟨transfer, most⟩ := c
  cases transfer with
  | readSome size =>
    have hnil : ∀ offset, (f.content.drop offset).take (min size most) = [] := by
      intro offset
      by_cases hasks : size ≠ 0 ∧ most ≠ 0
      · have hempty : f.content = [] := by
          by_contra hne
          exact h ⟨hasks, hne⟩
        rw [hempty, List.drop_nil, List.take_nil]
      · rw [show min size most = 0 by omega, List.take_zero]
    unfold pollWarden uringWarden File.read File.pread
    dsimp only
    rw [hnil, hnil]
    exact ⟨rfl, rfl⟩
  | writeSome bytes =>
    have hnil : bytes.take most = [] := by
      rw [List.take_eq_nil_iff]
      by_contra hne
      rw [not_or] at hne
      exact h ⟨⟨fun hz => hne.2 (List.eq_nil_of_length_eq_zero hz), hne.1⟩, trivial⟩
    unfold pollWarden uringWarden File.write File.pwrite File.overwrite
    dsimp only
    rw [if_pos hnil, if_pos hnil, hnil]
    exact ⟨rfl, rfl⟩

/-- **A call that moves something**, in the uring warden: it does so at the
beginning of the file. -/
theorem uringWarden_moves (h : c.Moves fu.content) :
    (uringWarden fu c).1.position = 0 ∧ (uringWarden fu c).1.bytes ≠ [] := by
  obtain ⟨transfer, most⟩ := c
  cases transfer with
  | readSome size =>
    refine ⟨rfl, ?_⟩
    obtain ⟨⟨hsize, hmost⟩, hne⟩ := h
    show (fu.content.drop 0).take (min size most) ≠ []
    rw [List.drop_zero, Ne, List.take_eq_nil_iff, not_or]
    have hsize : size ≠ 0 := hsize
    have hmost : most ≠ 0 := hmost
    exact ⟨by omega, hne⟩
  | writeSome bytes =>
    refine ⟨rfl, ?_⟩
    obtain ⟨⟨hsize, hmost⟩, -⟩ := h
    show bytes.take most ≠ []
    rw [Ne, List.take_eq_nil_iff, not_or]
    exact ⟨hmost, fun hnil => hsize (by rw [hnil]; rfl)⟩

/-- In the poll warden a call transfers at the position of the file. -/
theorem pollWarden_position : (pollWarden fp c).1.position = fp.position := by
  obtain ⟨transfer, most⟩ := c
  cases transfer <;> rfl

/-- Away from the beginning the two transfer different bytes. -/
theorem cells_ne (hpos : fp.position ≠ 0) (h : c.Moves fu.content) :
    (pollWarden fp c).1.cells ≠ (uringWarden fu c).1.cells := by
  obtain ⟨hzero, hne⟩ := uringWarden_moves h
  obtain ⟨b, bytes, hbytes⟩ := List.exists_cons_of_ne_nil hne
  intro heq
  unfold Moved.cells at heq
  rw [hbytes, hzero, pollWarden_position] at heq
  cases hp : (pollWarden fp c).1.bytes with
  | nil =>
    rw [hp] at heq
    exact absurd heq (by simp)
  | cons a l =>
    rw [hp] at heq
    have hhead := congrArg List.head? heq
    simp only [List.zipIdx_cons, List.head?_cons, Option.some.injEq, Prod.mk.injEq] at hhead
    exact hpos hhead.2

/-- **At the beginning they transfer the same**, and have the same content
afterwards, which is not empty; but the position of the one is not at the
beginning any more. -/
theorem wardens_of_moves (hpos : f.position = 0) (h : c.Moves f.content) :
    (pollWarden f c).1 = (uringWarden f c).1
      ∧ (pollWarden f c).2.content = (uringWarden f c).2.content
      ∧ (uringWarden f c).2.content ≠ [] ∧ (pollWarden f c).2.position ≠ 0 := by
  have hne := (uringWarden_moves h).2
  obtain ⟨content, position⟩ := f
  obtain rfl : position = 0 := hpos
  obtain ⟨transfer, most⟩ := c
  cases transfer with
  | readSome size =>
    refine ⟨rfl, rfl, h.2, ?_⟩
    show 0 + _ ≠ 0
    rw [Nat.zero_add]
    exact fun hz => hne (List.eq_nil_of_length_eq_zero hz)
  | writeSome bytes =>
    have hne : bytes.take most ≠ [] := hne
    refine ⟨rfl, rfl, ?_, ?_⟩
    · show File.overwrite content 0 (bytes.take most) ≠ []
      unfold File.overwrite
      rw [if_neg hne]
      simp [hne]
    · show 0 + (bytes.take most).length ≠ 0
      rw [Nat.zero_add]
      exact fun hz => hne (List.eq_nil_of_length_eq_zero hz)

/-- Of a file that is not empty a call that asks moves something. -/
theorem moves_iff_asks {content : List UInt8} (h : content ≠ []) :
    c.Moves content ↔ c.Asks := by
  obtain ⟨transfer, most⟩ := c
  unfold Call.Moves
  cases transfer with
  | readSome size => exact and_iff_left h
  | writeSome bytes => exact and_iff_left trivial

end Call

/-! ## Sequences of calls -/

section Calls

variable {f fp fu : File} {c : Call} {cs : List Call}

/-- Two wardens agree on a call and those after it. -/
theorem agreeOn_cons : AgreeOn fp fu (c :: cs)
    ↔ (pollWarden fp c).1.cells = (uringWarden fu c).1.cells
      ∧ AgreeOn (pollWarden fp c).2 (uringWarden fu c).2 cs := by
  unfold AgreeOn
  rw [transfers, transfers, List.map_cons, List.map_cons, List.cons_eq_cons]

/-- A call that moves nothing makes no difference. -/
theorem agreeOn_cons_of_not_moves (hcontent : fp.content = fu.content)
    (h : ¬ c.Moves fu.content) : AgreeOn fp fu (c :: cs) ↔ AgreeOn fp fu cs := by
  rw [agreeOn_cons, (wardens_of_not_moves (hcontent ▸ h)).1, (wardens_of_not_moves h).2]
  exact and_iff_right rfl

/-- **Away from the beginning** they agree only on calls that move
nothing. -/
theorem agreeOn_iff (hpos : fp.position ≠ 0) (hcontent : fp.content = fu.content) :
    AgreeOn fp fu cs ↔ ∀ c ∈ cs, ¬ c.Moves fu.content := by
  induction cs with
  | nil => exact iff_of_true rfl (fun c hc => absurd hc List.not_mem_nil)
  | cons c cs ih =>
    by_cases hm : c.Moves fu.content
    · rw [agreeOn_cons]
      exact iff_of_false (fun h => cells_ne hpos hm h.1)
        (fun h => h c List.mem_cons_self hm)
    · rw [agreeOn_cons_of_not_moves hcontent hm, ih, List.forall_mem_cons]
      exact (and_iff_right hm).symm

/-- **From the beginning** they agree until a call has moved something. -/
theorem agree_iff_of_start (hpos : f.position = 0) :
    Agree f cs ↔ cs.Pairwise (fun c c' => c.Moves f.content → ¬ c'.Asks) := by
  induction cs with
  | nil => exact iff_of_true rfl List.Pairwise.nil
  | cons c cs ih =>
    rw [List.pairwise_cons]
    by_cases hm : c.Moves f.content
    · obtain ⟨hsame, hcontent, hne, hmoved⟩ := wardens_of_moves hpos hm
      have htail : AgreeOn (pollWarden f c).2 (uringWarden f c).2 cs ↔ ∀ c' ∈ cs, ¬ c'.Asks := by
        rw [agreeOn_iff hmoved hcontent]
        simp only [moves_iff_asks hne]
      unfold Agree
      rw [agreeOn_cons, htail, hsame]
      constructor
      · rintro ⟨-, hall⟩
        exact ⟨fun c' hc' _ => hall c' hc',
          List.pairwise_of_forall_mem_list (fun a _ b hb _ => hall b hb)⟩
      · rintro ⟨hall, -⟩
        exact ⟨rfl, fun c' hc' => hall c' hc' hm⟩
    · unfold Agree
      rw [agreeOn_cons_of_not_moves rfl hm]
      exact ih.trans (and_iff_right (fun c' _ h => absurd h hm)).symm

end Calls

/-- **The wardens agree on a sequence of calls** exactly when the file is at
its beginning and no call that asks for anything comes after one that moves
something, or when no call moves anything at all. -/
theorem agree_iff (f : File) (cs : List Call) :
    Agree f cs ↔
      (f.position = 0 ∧ cs.Pairwise (fun c c' => c.Moves f.content → ¬ c'.Asks))
        ∨ ∀ c ∈ cs, ¬ c.Moves f.content := by
  by_cases hpos : f.position = 0
  · rw [agree_iff_of_start hpos]
    constructor
    · exact fun h => Or.inl ⟨hpos, h⟩
    · rintro (h | h)
      · exact h.2
      · exact List.pairwise_of_forall_mem_list (fun a ha b _ hm => absurd hm (h a ha))
  · unfold Agree
    rw [agreeOn_iff hpos rfl]
    exact (or_iff_right (fun h => hpos h.1)).symm

/-- A file of four bytes is read two by two. -/
theorem not_agree_twice :
    ¬ ∀ f cs, Agree f cs := by
  intro h
  have hagree := h ⟨[1, 2, 3, 4], 0⟩ [⟨.readSome 2, 2⟩, ⟨.readSome 2, 2⟩]
  exact absurd hagree (by unfold Agree AgreeOn; decide)

/-! ## Programs

`read_exactly` and the other loops decide on the next call by what has been
transferred. -/

/-- A program, which makes the next call, or none, once it has seen what those
before it have transferred. -/
abbrev Program := List (List UInt8) → Option Call

/-- The calls a program makes, and what they transfer, with a bound on their
number. -/
def session (warden : File → Call → Moved × File) (program : Program) :
    ℕ → File → List (List UInt8) → List (Call × Moved)
  | 0, _, _ => []
  | calls + 1, f, seen =>
    match program seen with
    | none => []
    | some c =>
      (c, (warden f c).1) ::
        session warden program calls (warden f c).2 (seen ++ [(warden f c).1.bytes])

/-- The cells of each call. -/
def sessionCells (l : List (Call × Moved)) : List (List (UInt8 × ℕ)) :=
  l.map (fun x => x.2.cells)

/-- A call is seen by the cells it has transferred. -/
theorem bytes_of_cells {m m' : Moved} (h : m.cells = m'.cells) : m.bytes = m'.bytes := by
  have hbytes : ∀ m : Moved, m.cells.map Prod.fst = m.bytes := fun m =>
    List.zipIdx_map_fst m.position m.bytes
  rw [← hbytes m, ← hbytes m', h]

/-- **A program transfers the same in either warden** exactly when the two
agree on the calls it makes in the poll warden. -/
theorem session_eq_iff (program : Program) (calls : ℕ) (fp fu : File)
    (seen : List (List UInt8)) :
    sessionCells (session pollWarden program calls fp seen)
        = sessionCells (session uringWarden program calls fu seen)
      ↔ AgreeOn fp fu ((session pollWarden program calls fp seen).map Prod.fst) := by
  -- the program has seen the same in both wardens as long as the cells are the
  -- same, and then it makes the same call
  induction calls generalizing fp fu seen with
  | zero => exact iff_of_true rfl rfl
  | succ calls ih =>
    unfold session
    cases program seen with
    | none => exact iff_of_true rfl rfl
    | some c =>
      dsimp only
      rw [List.map_cons, agreeOn_cons]
      unfold sessionCells
      rw [List.map_cons, List.map_cons, List.cons_eq_cons]
      refine and_congr_right (fun hcells => ?_)
      rw [bytes_of_cells hcells]
      exact ih _ _ _

/-- So it transfers the same when nothing it asks for comes after something
has been transferred from the beginning of the file, or when it transfers
nothing. -/
theorem program_agrees_iff (program : Program) (calls : ℕ) (f : File) :
    sessionCells (session pollWarden program calls f [])
        = sessionCells (session uringWarden program calls f [])
      ↔ (f.position = 0 ∧ ((session pollWarden program calls f []).map Prod.fst).Pairwise
          (fun c c' => c.Moves f.content → ¬ c'.Asks))
        ∨ ∀ c ∈ (session pollWarden program calls f []).map Prod.fst, ¬ c.Moves f.content :=
  (session_eq_iff program calls f f []).trans (agree_iff f _)

end SeekableFiles
