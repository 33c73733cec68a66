import Mathlib.Algebra.Order.Ring.Nat
import Mathlib.Data.List.Nodup
import Mathlib.Tactic.Common

/-!
# Memory resources and when they are equal

A warden is a memory resource, and an `io::allocator` is a warden that has its
memory from another resource. It forwards all three virtual functions of a
`pmr::memory_resource` to that one, `do_allocate` and `do_deallocate` as well
as `do_is_equal`, while a warden compares itself by identity.

To forward a comparison unwraps its left operand only. What an allocator is
equal to is therefore the resource it forwards to in the end, and this is
never an allocator: no allocator is equal to itself, and it is equal to what it
wraps without that being equal to it. The comparison is the equivalence that
a memory resource promises exactly where there is no allocator.
-/

namespace MemoryResource

/-! ## Resources -/

/-- The address of an object. -/
abbrev Address := ℕ

/-- What memory is taken from in the end. -/
inductive Pool
  /-- `new_delete_resource()` -/
  | newDelete
  /-- Storage of another kind, such as a fixed pool or an arena. -/
  | storage (id : ℕ)
  deriving DecidableEq

/-- **A memory resource**, at its address. What an `allocator` refers to as its
`backing_allocator` has been made before it, so the nesting is finite. -/
inductive Resource
  /-- A `poll_warden` or a `uring_warden`. -/
  | warden (address : Address)
  /-- A resource whose `do_is_equal` is `this == &other`, with the pool it takes
  its memory from. -/
  | identity (address : Address) (pool : Pool)
  /-- An `io::allocator`. -/
  | allocator (address : Address) (backingAllocator : Resource)
  deriving DecidableEq

/-- A block that has been allocated. The size and the alignment with which it
is given back are to be those it has been asked for with. -/
structure Block where
  pool : Pool
  bytes : ℕ
  alignment : ℕ
  deriving DecidableEq

namespace Resource

/-- `this`, as an address. -/
def address : Resource → Address
  | warden this => this
  | identity this _ => this
  | allocator this _ => this

/-- `do_allocate` -/
def allocate : Resource → ℕ → ℕ → Block
  | warden _, bytes, alignment => { pool := .newDelete, bytes, alignment }
  | identity _ pool, bytes, alignment => { pool, bytes, alignment }
  | allocator _ backingAllocator, bytes, alignment =>
    backingAllocator.allocate bytes alignment

/-- `do_deallocate`: whether this is a block that the pool it reaches has
handed out, for this size and alignment. Otherwise the behaviour is
undefined. -/
def deallocate : Resource → Block → ℕ → ℕ → Bool
  | warden _, p, bytes, alignment => p = { pool := .newDelete, bytes, alignment }
  | identity _ pool, p, bytes, alignment => p = { pool, bytes, alignment }
  | allocator _ backingAllocator, p, bytes, alignment =>
    backingAllocator.deallocate p bytes alignment

/-- `do_is_equal` -/
def isEqual : Resource → Resource → Bool
  | warden this, other => this = other.address
  | identity this _, other => this = other.address
  | allocator _ backingAllocator, other => backingAllocator.isEqual other

/-- Whether this is an `io::allocator`. -/
def isAllocator : Resource → Bool
  | warden _ => false
  | identity _ _ => false
  | allocator _ _ => true

/-- The resource and those it wraps, from the outside in. -/
def nesting : Resource → List Resource
  | warden this => [warden this]
  | identity this pool => [identity this pool]
  | allocator this backingAllocator => allocator this backingAllocator :: backingAllocator.nesting

/-- **Where the forwarding ends.** -/
def ultimate : Resource → Resource
  | warden this => warden this
  | identity this pool => identity this pool
  | allocator _ backingAllocator => backingAllocator.ultimate

theorem mem_nesting (r : Resource) : r ∈ r.nesting := by
  cases r <;> simp [nesting]

theorem ultimate_mem_nesting (r : Resource) : r.ultimate ∈ r.nesting := by
  induction r with
  | warden this => exact mem_nesting _
  | identity this pool => exact mem_nesting _
  | allocator this backing ih => exact List.mem_cons_of_mem _ ih

@[simp] theorem isAllocator_ultimate (r : Resource) : r.ultimate.isAllocator = false := by
  induction r with
  | warden this => rfl
  | identity this pool => rfl
  | allocator this backing ih => exact ih

/-- The forwarding ends at once just where there is nothing to forward to. -/
theorem ultimate_eq_self_iff (r : Resource) : r.ultimate = r ↔ r.isAllocator = false := by
  refine ⟨fun h => by rw [← h, isAllocator_ultimate], fun h => ?_⟩
  cases r with
  | warden this => rfl
  | identity this pool => rfl
  | allocator this backing => simp [isAllocator] at h

/-! ### What the forwarding comes to -/

theorem allocate_ultimate (r : Resource) : r.ultimate.allocate = r.allocate := by
  induction r with
  | warden this => rfl
  | identity this pool => rfl
  | allocator this backing ih => exact ih

theorem deallocate_ultimate (r : Resource) : r.ultimate.deallocate = r.deallocate := by
  induction r with
  | warden this => rfl
  | identity this pool => rfl
  | allocator this backing ih => exact ih

/-- **The left operand is unwrapped, and the right one is not.** -/
theorem isEqual_eq_address (r other : Resource) :
    r.isEqual other = decide (r.ultimate.address = other.address) := by
  induction r with
  | warden this => rfl
  | identity this pool => rfl
  | allocator this backing ih => exact ih

/-- What a resource allocates it takes back. -/
theorem deallocate_allocate (r : Resource) (bytes alignment : ℕ) :
    r.deallocate (r.allocate bytes alignment) bytes alignment = true := by
  induction r with
  | warden this => simp [deallocate, allocate]
  | identity this pool => simp [deallocate, allocate]
  | allocator this backing ih => exact ih

end Resource

open Resource

/-- **What the comparison is for.** What one of them allocates the other may
deallocate. -/
def Interchangeable (a b : Resource) : Prop :=
  ∀ bytes alignment, b.deallocate (a.allocate bytes alignment) bytes alignment = true

/-- Two resources that forward to the same one are interchangeable. -/
theorem interchangeable_of_ultimate {a b : Resource} (h : a.ultimate = b.ultimate) :
    Interchangeable a b := by
  intro bytes alignment
  rw [← allocate_ultimate a, h, allocate_ultimate]
  exact deallocate_allocate b bytes alignment

/-! ## A set of resources -/

/-- **Resources that exist side by side.** Of the objects of the set, and of
those they wrap, no two are at one address. -/
structure Resources where
  objects : List Resource
  apart : ∀ a ∈ objects, ∀ b ∈ objects, ∀ x ∈ a.nesting, ∀ y ∈ b.nesting,
    x.address = y.address → x = y

/-- **What a memory resource promises of its comparison**: it is an equivalence,
and it holds only of resources that forward to the same one, so that memory
may pass from one to the other. -/
structure EqualityLaws (s : Resources) : Prop where
  equivalence : Equivalence (fun a b : {r // r ∈ s.objects} => a.1.isEqual b.1 = true)
  sound : ∀ a ∈ s.objects, ∀ b ∈ s.objects, a.isEqual b = true →
    a.ultimate = b.ultimate ∧ Interchangeable a b

section

variable (s : Resources) {a b c : Resource}

/-- **A resource is equal to the one it forwards to**, and to no other. -/
theorem isEqual_iff (ha : a ∈ s.objects) (hb : b ∈ s.objects) :
    a.isEqual b = true ↔ a.ultimate = b := by
  rw [isEqual_eq_address, decide_eq_true_iff]
  exact ⟨s.apart a ha b hb _ (ultimate_mem_nesting a) b (mem_nesting b),
    fun h => congrArg Resource.address h⟩

/-- So the right operand of a comparison that holds wraps nothing. -/
theorem isAllocator_of_isEqual (ha : a ∈ s.objects) (hb : b ∈ s.objects)
    (h : a.isEqual b = true) : b.isAllocator = false := by
  rw [← (isEqual_iff s ha hb).mp h]
  exact isAllocator_ultimate a

/-- Only what wraps nothing is equal to itself. -/
theorem isEqual_self_iff (ha : a ∈ s.objects) :
    a.isEqual a = true ↔ a.isAllocator = false :=
  (isEqual_iff s ha ha).trans (ultimate_eq_self_iff a)

/-- **The comparison is transitive**, whatever the resources wrap. -/
theorem isEqual_trans (ha : a ∈ s.objects) (hb : b ∈ s.objects) (hc : c ∈ s.objects)
    (hab : a.isEqual b = true) (hbc : b.isEqual c = true) : a.isEqual c = true := by
  have hb' : b.ultimate = b :=
    (ultimate_eq_self_iff b).mpr (isAllocator_of_isEqual s ha hb hab)
  have hcb : b = c := hb'.symm.trans ((isEqual_iff s hb hc).mp hbc)
  exact hcb ▸ hab

/-- **The comparison is sound**, whatever the resources wrap. -/
theorem ultimate_of_isEqual (ha : a ∈ s.objects) (hb : b ∈ s.objects)
    (h : a.isEqual b = true) : a.ultimate = b.ultimate := by
  have hb' : b.ultimate = b :=
    (ultimate_eq_self_iff b).mpr (isAllocator_of_isEqual s ha hb h)
  exact ((isEqual_iff s ha hb).mp h).trans hb'.symm

/-- It is symmetric where the left operand wraps nothing either. -/
theorem isEqual_symm (ha : a ∈ s.objects) (hb : b ∈ s.objects) (hwraps : a.isAllocator = false)
    (h : a.isEqual b = true) : b.isEqual a = true := by
  have hab : a = b :=
    ((ultimate_eq_self_iff a).mpr hwraps).symm.trans ((isEqual_iff s ha hb).mp h)
  exact hab ▸ h

end

/-- **The comparison keeps its promise just where nothing is an allocator.** An
allocator is not equal to itself. Of the other resources each is equal to
itself alone. -/
theorem equalityLaws_iff (s : Resources) :
    EqualityLaws s ↔ ∀ r ∈ s.objects, r.isAllocator = false := by
  constructor
  · intro h r hr
    exact (isEqual_self_iff s hr).mp (h.equivalence.refl ⟨r, hr⟩)
  · intro hwraps
    refine ⟨⟨fun r => ?_, fun {a b} h => ?_, fun {a b c} hab hbc => ?_⟩, fun a ha b hb h => ?_⟩
    · exact (isEqual_self_iff s r.2).mpr (hwraps r.1 r.2)
    · exact isEqual_symm s a.2 b.2 (hwraps a.1 a.2) h
    · exact isEqual_trans s a.2 b.2 c.2 hab hbc
    · have hultimate := ultimate_of_isEqual s ha hb h
      exact ⟨hultimate, interchangeable_of_ultimate hultimate⟩

/-- An allocator over a resource that counts what it hands out, as in the test
of allocators. -/
def counted : Resources where
  objects := [.allocator 1 (.identity 0 .newDelete), .identity 0 .newDelete]
  apart := by
    simp [nesting, Resource.address]

/-- The allocator of that test is equal to the resource behind it, which is not
equal to the allocator, and the allocator is not equal to itself. -/
theorem counted_breaks_equalityLaws : ¬ EqualityLaws counted ∧
    (allocator 1 (identity 0 .newDelete)).isEqual (identity 0 .newDelete) = true ∧
    (identity 0 .newDelete).isEqual (allocator 1 (identity 0 .newDelete)) = false := by
  refine ⟨fun h => ?_, by decide, by decide⟩
  have hself := h.equivalence.refl ⟨allocator 1 (identity 0 .newDelete), by simp [counted]⟩
  exact absurd hself (by decide)

end MemoryResource
