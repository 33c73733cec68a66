import Felspar.Basic
import Felspar.SharedBuffer

/-!
# The read buffer

`read_buffer` from `read.hpp`, on an array of bytes. It has two spans over its
storage: `data_read` is what has been read and not been consumed, and
`empty_buffer` the rest of the storage behind it. Consuming a part of the data
moves `data_read` and leaves the storage in front of it unused; only when
everything has been consumed do both spans go back to the beginning.

A span is an address and a size, as in the source, and the storage is at an
address of its own. `Valid` is what is true of the spans, and each operation
has its effect on the unread data.
-/

open SharedBuffer

namespace ReadBuffer

/-- `std::span` -/
structure Span where
  data : ℕ
  size : ℕ
  deriving DecidableEq

/-- `std::span::first` -/
def Span.first (s : Span) (n : ℕ) : Span := { s with size := n }

/-- `std::span::subspan` -/
def Span.subspan (s : Span) (n : ℕ) : Span := ⟨s.data + n, s.size - n⟩

end ReadBuffer

/-- **`read_buffer<std::array<char, N>>`**, with its storage by position. -/
structure ReadBuffer (N : ℕ) where
  /-- `storage.data()` -/
  address : ℕ
  storage : ℕ → UInt8
  dataRead : ReadBuffer.Span
  emptyBuffer : ReadBuffer.Span

namespace ReadBuffer

variable {N : ℕ}

/-- A new buffer. -/
def new (N address : ℕ) : ReadBuffer N where
  address := address
  storage := fun _ => 0
  dataRead := ⟨address, 0⟩
  emptyBuffer := ⟨address, N⟩

/-- What is in a span. -/
def contents (rb : ReadBuffer N) (s : Span) : List UInt8 :=
  slice rb.storage (s.data - rb.address) s.size

/-- `not_consumed` -/
def notConsumed (rb : ReadBuffer N) : Span := rb.dataRead

/-- `remaining` -/
def remaining (rb : ReadBuffer N) : Span := rb.emptyBuffer

/-- The data that has been read and not been consumed. -/
def unread (rb : ReadBuffer N) : List UInt8 := rb.contents rb.notConsumed

/-- `do_read_some`, when the `read_some` it awaits has put these bytes into
`remaining()`. -/
def doReadSome (rb : ReadBuffer N) (bytes : List UInt8) : ReadBuffer N × ℕ :=
  let rb := { rb with
    storage := store rb.storage (rb.remaining.data - rb.address) bytes }
  if bytes.length = 0 then (rb, 0)
  else
    ({ rb with
      dataRead := ⟨rb.dataRead.data, rb.dataRead.size + bytes.length⟩
      emptyBuffer := rb.emptyBuffer.subspan bytes.length }, bytes.length)

/-- `consume` -/
def consume (rb : ReadBuffer N) (bytes : ℕ) : Span × ReadBuffer N :=
  let start := rb.dataRead.first bytes
  -- with nothing left to be consumed, reading begins at the front again
  if rb.dataRead.size = bytes then
    (start, { rb with dataRead := ⟨rb.address, 0⟩, emptyBuffer := ⟨rb.address, N⟩ })
  else (start, { rb with dataRead := rb.dataRead.subspan bytes })

/-- `find`, as the distance from `begin()`. It is that of `end()` when the
value does not occur. -/
def find (rb : ReadBuffer N) (v : UInt8) : ℕ := rb.unread.idxOf v

/-- The first part of a span. -/
theorem contents_first (rb : ReadBuffer N) {s : Span} {n : ℕ} (h : n ≤ s.size) :
    rb.contents (s.first n) = (rb.contents s).take n := by
  have hsplit : rb.contents s = slice rb.storage (s.data - rb.address) n
      ++ slice rb.storage (s.data - rb.address + n) (s.size - n) := by
    rw [slice_append, Nat.add_sub_cancel' h]
    rfl
  rw [hsplit, List.take_left' (length_slice _ _ _)]
  rfl

/-! ## What is true of the spans -/

/-- **The representation**: the unread data is inside the storage and ends
where the empty part begins, which ends where the storage does. -/
structure Valid (rb : ReadBuffer N) : Prop where
  inside : rb.address ≤ rb.dataRead.data
  meets : rb.dataRead.data + rb.dataRead.size = rb.emptyBuffer.data
  ends : rb.emptyBuffer.data + rb.emptyBuffer.size = rb.address + N

/-- How much of the storage is in front of the empty part. -/
def filled (rb : ReadBuffer N) : ℕ := rb.emptyBuffer.data - rb.address

section Valid

variable {rb : ReadBuffer N}

theorem valid_new (N address : ℕ) : (new N address).Valid := ⟨Nat.le_refl _, rfl, rfl⟩

@[simp] theorem length_unread : rb.unread.length = rb.dataRead.size := length_slice _ _ _

/-- The empty part is what is not filled. -/
theorem Valid.remaining_size (h : rb.Valid) : rb.remaining.size = N - rb.filled := by
  have h₁ := h.inside
  have h₂ := h.meets
  have h₃ := h.ends
  unfold remaining filled
  omega

/-- Where the unread data ends. -/
theorem Valid.filled_eq (h : rb.Valid) :
    rb.filled = rb.dataRead.data - rb.address + rb.dataRead.size := by
  have h₁ := h.inside
  have h₂ := h.meets
  unfold filled
  omega

/-! ## Reading -/

theorem doReadSome_nil : rb.doReadSome [] = (rb, 0) := by
  unfold doReadSome
  rw [store_nil]
  rfl

/-- **Reading appends to the unread data.** -/
theorem Valid.doReadSome (h : rb.Valid) {bytes : List UInt8}
    (hle : bytes.length ≤ rb.remaining.size) :
    (rb.doReadSome bytes).2 = bytes.length ∧ (rb.doReadSome bytes).1.Valid
      ∧ (rb.doReadSome bytes).1.unread = rb.unread ++ bytes
      ∧ (rb.doReadSome bytes).1.filled = rb.filled + bytes.length := by
  by_cases hnil : bytes = []
  · rw [hnil, doReadSome_nil]
    exact ⟨rfl, h, (List.append_nil _).symm, rfl⟩
  · have hne : bytes.length ≠ 0 := fun he => hnil (List.eq_nil_of_length_eq_zero he)
    have hread : rb.doReadSome bytes = ({ rb with
        storage := store rb.storage rb.filled bytes
        dataRead := ⟨rb.dataRead.data, rb.dataRead.size + bytes.length⟩
        emptyBuffer := rb.emptyBuffer.subspan bytes.length }, bytes.length) := by
      unfold ReadBuffer.doReadSome
      rw [if_neg hne]
      rfl
    have h₁ := h.inside
    have h₂ := h.meets
    have h₃ := h.ends
    have hle : bytes.length ≤ rb.emptyBuffer.size := hle
    rw [hread]
    refine ⟨rfl, ⟨h₁, ?_, ?_⟩, ?_, ?_⟩
    · show rb.dataRead.data + (rb.dataRead.size + bytes.length)
        = rb.emptyBuffer.data + bytes.length
      omega
    · show rb.emptyBuffer.data + bytes.length + (rb.emptyBuffer.size - bytes.length)
        = rb.address + N
      omega
    · show slice (store rb.storage rb.filled bytes) (rb.dataRead.data - rb.address)
        (rb.dataRead.size + bytes.length) = rb.unread ++ bytes
      rw [← slice_append, slice_store_of_ge _ _ _ (Nat.le_of_eq h.filled_eq.symm),
        ← h.filled_eq, slice_store_self]
      rfl
    · show rb.emptyBuffer.data + bytes.length - rb.address
        = rb.emptyBuffer.data - rb.address + bytes.length
      omega

/-! ## Consuming -/

/-- **Consuming splits the unread data.** The storage is used from the
beginning again when nothing is left, and only then. -/
theorem Valid.consume (h : rb.Valid) {n : ℕ} (hn : n ≤ rb.unread.length) :
    (rb.consume n).1 = rb.dataRead.first n
      ∧ (rb.consume n).2.contents (rb.consume n).1 = rb.unread.take n
      ∧ (rb.consume n).2.Valid ∧ (rb.consume n).2.unread = rb.unread.drop n
      ∧ (rb.consume n).2.filled = if rb.unread.length = n then 0 else rb.filled := by
  have hsplit : rb.unread = slice rb.storage (rb.dataRead.data - rb.address) n
      ++ slice rb.storage (rb.dataRead.data - rb.address + n) (rb.dataRead.size - n) := by
    rw [slice_append, Nat.add_sub_cancel' (by simpa using hn)]
    rfl
  have htake : rb.contents (rb.dataRead.first n) = rb.unread.take n :=
    rb.contents_first (by simpa using hn)
  have hdrop : slice rb.storage (rb.dataRead.data - rb.address + n) (rb.dataRead.size - n)
      = rb.unread.drop n := by
    rw [hsplit, List.drop_left' (length_slice _ _ _)]
  have h₁ := h.inside
  have h₂ := h.meets
  have h₃ := h.ends
  unfold ReadBuffer.consume
  rw [length_unread] at hn ⊢
  by_cases hall : rb.dataRead.size = n
  · rw [if_pos hall, if_pos hall]
    refine ⟨rfl, htake, ⟨Nat.le_refl _, rfl, rfl⟩, ?_, ?_⟩
    · rw [← hdrop, hall, Nat.sub_self]
      rfl
    · exact Nat.sub_self rb.address
  · rw [if_neg hall, if_neg hall]
    refine ⟨rfl, htake, ⟨?_, ?_, h₃⟩, ?_, rfl⟩
    · show rb.address ≤ rb.dataRead.data + n
      omega
    · show rb.dataRead.data + n + (rb.dataRead.size - n) = rb.emptyBuffer.data
      omega
    · rw [← hdrop]
      show slice rb.storage (rb.dataRead.data + n - rb.address) (rb.dataRead.size - n) = _
      rw [show rb.dataRead.data + n - rb.address = rb.dataRead.data - rb.address + n by omega]

end Valid

end ReadBuffer
