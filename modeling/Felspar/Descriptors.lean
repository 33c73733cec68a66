import Mathlib.Algebra.Order.Group.Nat
import Mathlib.Data.List.Count
import Felspar.Basic
import Felspar.Programs

/-!
# Descriptors and who owns them

A `posix::fd` owns a descriptor: moving it passes the descriptor on, `release`
hands it out, and `close` and the destructor pass it to `::close`. The moved
from object keeps `invalid_handle`. The model has the objects in the order of
their construction, and keeps what has been handed out and what has been
closed.

Everything the class does comes down to `std::exchange`. Each of its members
takes a descriptor out of an object and puts it somewhere else, so at any time
a descriptor is in one object, has been released, or has been closed. That
this is so of move assignment too, for an object and itself and where the
target owns a descriptor, is only a matter of what is given and handed back
along its two exchanges and its temporary.
-/

namespace Posix

/-! ## The objects -/

/-- `io::invalid_handle` -/
abbrev invalidHandle : SocketDescriptor := -1

/-- An object of type `posix::fd`. -/
abbrev FdId := ℕ

/-- What can be seen of the descriptors from outside, and, in a program that
has more to show, what else there is to see. -/
inductive Obs (κ : Type)
  /-- The system has opened a descriptor. -/
  | opened (d : SocketDescriptor)
  /-- A descriptor has been handed out by `release`. -/
  | released (d : SocketDescriptor)
  /-- `::close` has been called. -/
  | closed (d : SocketDescriptor)
  | other (x : κ)
  deriving DecidableEq

/-- **A process and its `posix::fd` objects.** -/
structure Process (κ : Type) where
  /-- The member `f` of each object that has been constructed, in the order of
  construction. Nothing of one that has been destructed. -/
  fds : List (Option SocketDescriptor)
  /-- What has been seen, newest first. -/
  log : List (Obs κ)
  deriving DecidableEq

/-- A piece of the program. It has no meaning where it uses an object that does
not exist. -/
abbrev Program (κ α : Type) := StateT (Process κ) Option α

variable {κ : Type}

namespace Process

/-- The member `f` of an object. -/
def f (s : Process κ) (self : FdId) : Option SocketDescriptor := s.fds[self]?.join

/-- Make an object of its `f`, or destroy it. -/
def setF (s : Process κ) (self : FdId) (f : Option SocketDescriptor) : Process κ :=
  { s with fds := s.fds.set self f }

end Process

/-- Show something. -/
def see (o : Obs κ) : Program κ Unit := fun s => some ((), { s with log := o :: s.log })

/-- `std::exchange` of the `f` of an object. -/
def exchange (self : FdId) (v : SocketDescriptor) : Program κ SocketDescriptor := fun s =>
  (s.f self).map (fun old => (old, s.setF self (some v)))

/-- `close_socket_if_valid` -/
def closeSocketIfValid (s : SocketDescriptor) : Program κ Unit :=
  if s ≠ invalidHandle then see (.closed s) else pure ()

/-- `fd::fd(socket_descriptor)` -/
def construct (f : SocketDescriptor) : Program κ FdId := fun s =>
  some (s.fds.length, { s with fds := s.fds ++ [some f] })

/-- `fd::fd()` -/
def default : Program κ FdId := construct invalidHandle

/-- `fd::fd(fd &&)` -/
def moveConstruct (o : FdId) : Program κ FdId := do
  construct (← exchange o invalidHandle)

/-- `fd::~fd` -/
def destruct (self : FdId) : Program κ Unit := do
  let f ← fun s => (s.f self).map (fun f => (f, s.setF self none))
  closeSocketIfValid f

/-- `fd::operator=(fd &&)`. The inner exchange is evaluated before the outer
one, and the temporary `s` goes when the function returns. -/
def moveAssign (self o : FdId) : Program κ Unit := do
  let s ← construct (← exchange self (← exchange o invalidHandle))
  destruct s

/-- `fd::operator bool` -/
def valid (self : FdId) : Program κ Bool := fun s =>
  (s.f self).map (fun f => (decide (f ≠ invalidHandle), s))

/-- The caller of `release` has a descriptor now, if there was one. -/
def handOut (d : SocketDescriptor) : Program κ Unit :=
  if d ≠ invalidHandle then see (.released d) else pure ()

/-- `fd::release` -/
def release (self : FdId) : Program κ SocketDescriptor := do
  let d ← exchange self invalidHandle
  handOut d
  return d

/-- `fd::close` -/
def close (self : FdId) : Program κ Unit := do
  let c ← exchange self invalidHandle
  closeSocketIfValid c

/-! ## What is done with them -/

/-- **What a program can do with its objects.** -/
inductive Event
  | default
  | moveConstruct (o : FdId)
  | moveAssign (self o : FdId)
  | release (self : FdId)
  | close (self : FdId)
  | destruct (self : FdId)

/-- The member that is called. -/
def Event.program : Event → Program κ Unit
  | default => do let _ ← Posix.default
  | moveConstruct o => do let _ ← Posix.moveConstruct o
  | moveAssign self o => Posix.moveAssign self o
  | release self => do let _ ← Posix.release self
  | close self => Posix.close self
  | destruct self => Posix.destruct self

/-- **One step of a program.** -/
def step (s : Process κ) (e : Event) : Option (Process κ) := (e.program s).map Prod.snd

/-- Objects that have been constructed from descriptors, and nothing else. -/
def constructed (ds : List SocketDescriptor) : Process κ := { fds := ds.map some, log := [] }

/-! ## Accounting for a descriptor -/

section Accounting

variable (d : SocketDescriptor)

/-- Whether a value in hand is the descriptor. -/
def hand (v : SocketDescriptor) : ℕ := if v = d ∧ d ≠ invalidHandle then 1 else 0

/-- In how many objects the descriptor is. -/
def held (s : Process κ) : ℕ := if d ≠ invalidHandle then s.fds.count (some d) else 0

@[simp] theorem hand_invalidHandle : hand d invalidHandle = 0 := by
  unfold hand
  split
  case isTrue h => exact absurd h.1.symm h.2
  case isFalse => rfl

theorem count_set_add {l : List (Option SocketDescriptor)} {i : ℕ} {old : Option SocketDescriptor}
    (h : l[i]? = some old) (new b : Option SocketDescriptor) :
    (l.set i new).count b + (if old = b then 1 else 0)
      = l.count b + (if new = b then 1 else 0) := by
  obtain ⟨hi, rfl⟩ := List.getElem?_eq_some_iff.mp h
  rw [List.count_set hi]
  by_cases hold : l[i] = b
  · have hpos : 0 < l.count b := List.count_pos_iff.mpr (hold ▸ List.getElem_mem hi)
    simp only [hold, beq_self_eq_true, if_true, beq_iff_eq]
    omega
  · simp [hold]

theorem f_eq_some_iff {s : Process κ} {self : FdId} {v : SocketDescriptor} :
    s.f self = some v ↔ s.fds[self]? = some (some v) := by
  simp only [Process.f, Option.join_eq_some_iff]

/-- What the object loses and what it gets. -/
theorem held_setF {s : Process κ} {self : FdId} {old : SocketDescriptor} (h : s.f self = some old)
    (new : Option SocketDescriptor) :
    held d (s.setF self new) + hand d old = held d s + new.elim 0 (hand d) := by
  have hcount := count_set_add (f_eq_some_iff.mp h) new (some d)
  unfold held hand Process.setF
  by_cases hd : d ≠ invalidHandle
  · cases new with
    | none => simpa [hd] using hcount
    | some new => simpa [hd, hand] using hcount
  · cases new <;> simp [hd]

variable [DecidableEq κ]

/-- How often it has been handed out or closed. -/
def gone (s : Process κ) : ℕ := s.log.count (.released d) + s.log.count (.closed d)

/-- **In how many places the descriptor is.** -/
def places (s : Process κ) : ℕ := held d s + gone d s

/-- **An exchange** puts one descriptor in and takes another one out. -/
theorem exchange_accounts (self : FdId) (v : SocketDescriptor) :
    Accounts (places d) (hand d v) (exchange (κ := κ) self v) (hand d) := by
  intro s old s' h
  obtain ⟨x, hx, heq⟩ := Option.map_eq_some_iff.mp h
  obtain ⟨rfl, rfl⟩ := Prod.mk.inj heq
  have hheld := held_setF d hx (some v)
  have hgone : gone d (s.setF self (some v)) = gone d s := rfl
  simp only [Option.elim] at hheld
  unfold places
  omega

/-- A constructor puts one in. -/
theorem construct_accounts (v : SocketDescriptor) :
    Accounts (places d) (hand d v) (construct (κ := κ) v) (fun _ => 0) := by
  intro s self s' h
  obtain ⟨rfl, rfl⟩ := Prod.mk.inj (Option.some.inj h)
  unfold places held gone hand
  by_cases hd : d ≠ invalidHandle
  · by_cases hv : v = d
    · simp [hd, hv, List.count_append]
      omega
    · simp [hd, hv, List.count_append]
  · simp [hd]

/-- **What has been closed or handed out has gone**, and `invalid_handle` is
neither. -/
theorem seeIfValid_accounts {v : SocketDescriptor} {o : Obs κ}
    (ho : o = .released v ∨ o = .closed v) :
    Accounts (places d) (hand d v) (if v ≠ invalidHandle then see o else pure ())
      (fun _ => 0) := by
  split
  case isTrue hv =>
    intro s u s' h
    obtain ⟨-, rfl⟩ := Prod.mk.inj (Option.some.inj h)
    unfold places held gone hand
    have hd (h : v = d) : d ≠ invalidHandle := h ▸ hv
    rcases ho with rfl | rfl
    all_goals
      simp only [List.count_cons, beq_iff_eq, Obs.released.injEq, Obs.closed.injEq, reduceCtorEq,
        if_false, and_iff_left_of_imp hd]
      omega
  case isFalse hv =>
    obtain rfl : v = invalidHandle := not_not.mp hv
    exact (Accounts.pure ()).congr (hand_invalidHandle d).symm (fun _ => rfl)

theorem closeSocketIfValid_accounts (v : SocketDescriptor) :
    Accounts (places d) (hand d v) (closeSocketIfValid (κ := κ) v) (fun _ => 0) :=
  seeIfValid_accounts d (.inr rfl)

theorem handOut_accounts (v : SocketDescriptor) :
    Accounts (places d) (hand d v) (handOut (κ := κ) v) (fun _ => 0) :=
  seeIfValid_accounts d (.inl rfl)

/-- **A moved descriptor is in the new object.** -/
theorem moveConstruct_conserves (o : FdId) : Conserves (places d) (moveConstruct (κ := κ) o) :=
  ((exchange_accounts d o invalidHandle).congr (hand_invalidHandle d) (fun _ => rfl)).bind
    (construct_accounts d)

/-- **A destructor closes what it takes.** -/
theorem destruct_conserves (self : FdId) : Conserves (places d) (destruct (κ := κ) self) := by
  have htaken : Accounts (places d) 0 (fun s : Process κ => (s.f self).map
      (fun f => (f, s.setF self none)) : Program κ SocketDescriptor) (hand d) := by
    intro s f s' h
    obtain ⟨x, hx, heq⟩ := Option.map_eq_some_iff.mp h
    obtain ⟨rfl, rfl⟩ := Prod.mk.inj heq
    have hheld := held_setF d hx none
    have hgone : gone d (s.setF self none) = gone d s := rfl
    simp only [Option.elim] at hheld
    unfold places
    omega
  exact htaken.bind (closeSocketIfValid_accounts d)

/-- **Move assignment**: what the source gives goes through the inner exchange
into the target, what the target had goes through the outer one into the
temporary, and the temporary closes it. Where source and target are one object
its descriptor passes through both exchanges, and the temporary has
nothing. -/
theorem moveAssign_conserves (self o : FdId) :
    Conserves (places d) (moveAssign (κ := κ) self o) :=
  ((exchange_accounts d o invalidHandle).congr (hand_invalidHandle d) (fun _ => rfl)).bind
    (fun given => (exchange_accounts d self given).bind
      (fun old => (construct_accounts d old).bind (fun temp => destruct_conserves d temp)))

theorem close_conserves (self : FdId) : Conserves (places d) (close (κ := κ) self) :=
  ((exchange_accounts d self invalidHandle).congr (hand_invalidHandle d) (fun _ => rfl)).bind
    (closeSocketIfValid_accounts d)

theorem release_conserves (self : FdId) : Conserves (places d) (release (κ := κ) self) :=
  ((exchange_accounts d self invalidHandle).congr (hand_invalidHandle d) (fun _ => rfl)).bind
    (fun v => (handOut_accounts d v).bind (fun _ => Accounts.pure v))

/-- **No member function loses a descriptor or makes one.** -/
theorem program_conserves (e : Event) : Conserves (places d) (e.program (κ := κ)) := by
  cases e with
  | default =>
    exact ((construct_accounts d invalidHandle).congr (hand_invalidHandle d) (fun _ => rfl)).bind
      (fun _ => Accounts.pure ())
  | moveConstruct o => exact (moveConstruct_conserves d o).bind (fun _ => Accounts.pure ())
  | moveAssign self o => exact moveAssign_conserves d self o
  | release self => exact (release_conserves d self).bind (fun _ => Accounts.pure ())
  | close self => exact close_conserves d self
  | destruct self => exact destruct_conserves d self

/-- The objects of the beginning have each descriptor as often as it was
given. -/
theorem places_constructed {ds : List SocketDescriptor} (hvalid : ∀ d ∈ ds, d ≠ invalidHandle) :
    places d (constructed (κ := κ) ds) = ds.count d := by
  have hgone : gone d (constructed (κ := κ) ds) = 0 := rfl
  unfold places held
  rw [hgone, Nat.add_zero]
  split
  case isTrue => exact List.count_map_of_injective ds some (Option.some_injective _) d
  case isFalse hd =>
    exact (List.count_eq_zero.mpr (fun hmem => hd (hvalid d hmem))).symm

end Accounting

/-! ## One owner -/

section Ownership

variable [DecidableEq κ] {ds : List SocketDescriptor} {es : List Event} {s : Process κ}
  {d : SocketDescriptor}

/-- **In a run each descriptor stays in as many places as it began in.** -/
theorem places_of_run (hvalid : ∀ d ∈ ds, d ≠ invalidHandle)
    (h : Run step always (constructed ds) es s) (d : SocketDescriptor) :
    places d s = ds.count d :=
  (h.conserves (program_conserves d)).trans (places_constructed d hvalid)

/-- What is in a list at most once is in one place of it. -/
theorem eq_of_count_le_one {α : Type} [BEq α] [LawfulBEq α] {l : List α} {a : α} {i j : ℕ}
    (h : l.count a ≤ 1) (hi : l[i]? = some a) (hj : l[j]? = some a) : i = j := by
  induction l generalizing i j with
  | nil => exact absurd hi (by simp)
  | cons x l ih =>
    have hlater {k : ℕ} (hk : l[k]? = some a) : 0 < l.count a :=
      List.count_pos_iff.mpr (List.mem_of_getElem? hk)
    rw [List.count_cons] at h
    match i, j with
    | 0, 0 => rfl
    | 0, j + 1 =>
      obtain rfl : x = a := Option.some.inj hi
      have := hlater (by simpa using hj)
      simp only [beq_self_eq_true, if_true] at h
      omega
    | i + 1, 0 =>
      obtain rfl : x = a := Option.some.inj hj
      have := hlater (by simpa using hi)
      simp only [beq_self_eq_true, if_true] at h
      omega
    | i + 1, j + 1 =>
      exact congrArg (· + 1) (ih (by omega) (by simpa using hi) (by simpa using hj))

/-- **No two objects have one descriptor.** -/
theorem eq_of_held {i j : FdId} (h : places d s ≤ 1) (hd : d ≠ invalidHandle)
    (hi : s.f i = some d) (hj : s.f j = some d) : i = j := by
  refine eq_of_count_le_one (a := some d) ?_ (f_eq_some_iff.mp hi) (f_eq_some_iff.mp hj)
  unfold places held at h
  rw [if_pos hd] at h
  omega

/-- What has gone at most once has not been closed twice, nor closed after it
was handed out. -/
theorem past_of_gone {s : Process κ} (h : ∀ d, gone d s ≤ 1) :
    Past (fun earlier o => ∀ d, o = .closed d → .closed d ∉ earlier ∧ .released d ∉ earlier)
      s.log := by
  obtain ⟨fds, log⟩ := s
  induction log with
  | nil => exact Past.nil
  | cons o log ih =>
    refine ⟨fun d ho => ?_, ih (fun d => le_trans ?_ (h d))⟩
    · subst ho
      have hone := h d
      unfold gone at hone
      simp only [List.count_cons, beq_iff_eq, reduceCtorEq, if_true, if_false] at hone
      exact ⟨List.count_eq_zero.mp (by omega), List.count_eq_zero.mp (by omega)⟩
    · unfold gone
      simp only [List.count_cons]
      omega

/-- **What becomes of a descriptor**: exactly one object has it, or it has been
released, or it has been closed, and only one of these. -/
def OneFate (s : Process κ) (d : SocketDescriptor) : Prop :=
  ((∃! self, s.f self = some d) ∧ .released d ∉ s.log ∧ .closed d ∉ s.log)
    ∨ ((∀ self, s.f self ≠ some d) ∧ .released d ∈ s.log ∧ .closed d ∉ s.log)
    ∨ ((∀ self, s.f self ≠ some d) ∧ .released d ∉ s.log ∧ .closed d ∈ s.log)

theorem oneFate_of_places (h : places d s = 1) (hd : d ≠ invalidHandle) : OneFate s d := by
  have hsum : s.fds.count (some d) + (s.log.count (.released d) + s.log.count (.closed d)) = 1 := by
    rw [← h, places, held, if_pos hd, gone]
  have hnone (h0 : s.fds.count (some d) = 0) (self : FdId) : s.f self ≠ some d :=
    fun hf => List.count_eq_zero.mp h0 (List.mem_of_getElem? (f_eq_some_iff.mp hf))
  rcases Nat.eq_zero_or_pos (s.fds.count (some d)) with h0 | hpos
  · rcases Nat.eq_zero_or_pos (s.log.count (.closed d)) with hc | hc
    · exact .inr (.inl ⟨hnone h0, List.count_pos_iff.mp (by omega), List.count_eq_zero.mp hc⟩)
    · exact .inr (.inr ⟨hnone h0, List.count_eq_zero.mp (by omega), List.count_pos_iff.mp hc⟩)
  · obtain ⟨self, hself⟩ := List.mem_iff_getElem?.mp (List.count_pos_iff.mp hpos)
    refine .inl ⟨⟨self, f_eq_some_iff.mpr hself, fun j hj => ?_⟩,
      List.count_eq_zero.mp (by omega), List.count_eq_zero.mp (by omega)⟩
    exact eq_of_held h.le hd hj (f_eq_some_iff.mpr hself)

/-- **Every descriptor has one owner at most and one fate.** Whatever is done
with objects constructed from descriptors that are open and all different: no
two of them have one descriptor, each descriptor is in exactly one object, or
released, or closed, none is closed twice or after it was released, and nothing
else is closed. -/
theorem owned_once (hopen : ∀ d ∈ ds, d ≠ invalidHandle) (hdistinct : ds.Nodup)
    (h : Run step always (constructed ds) es s) :
    (∀ d, d ≠ invalidHandle → ∀ i j, s.f i = some d → s.f j = some d → i = j)
      ∧ (∀ d ∈ ds, OneFate s d)
      ∧ Past (fun earlier o => ∀ d, o = .closed d →
          .closed d ∉ earlier ∧ .released d ∉ earlier) s.log
      ∧ ∀ d, .closed d ∈ s.log → d ∈ ds := by
  have hplaces := places_of_run hopen h
  have hle (d) : places d s ≤ 1 := (hplaces d).le.trans (List.nodup_iff_count_le_one.mp hdistinct d)
  refine ⟨fun d hd i j hi hj => eq_of_held (hle d) hd hi hj, fun d hmem => ?_,
    past_of_gone (fun d => le_trans (Nat.le_add_left _ _) (hle d)), fun d hclosed => ?_⟩
  · exact oneFate_of_places ((hplaces d).trans (List.count_eq_one_of_mem hdistinct hmem))
      (hopen d hmem)
  · refine List.count_pos_iff.mp ((hplaces d) ▸ ?_)
    have := List.count_pos_iff.mpr hclosed
    unfold places gone
    omega

/-- One object is assigned to itself, one over another, what it got is closed,
and all are destructed. -/
theorem owned_once_reassigned : ∃ s : Process Unit,
    (∀ d ∈ ([3, 4, 5] : List SocketDescriptor), OneFate s d)
      ∧ s.log = [.closed 3, .released 5, .closed 4] := by
  obtain ⟨s, hrun, hlog⟩ := exists_run_of_exec step always (constructed (κ := Unit) [3, 4, 5])
    [.moveAssign 0 0, .moveAssign 1 0, .release 2, .close 1, .destruct 1, .destruct 0]
    (fun s => s.log = [.closed 3, .released 5, .closed 4]) (by decide)
  exact ⟨s, (owned_once (by decide) (by decide) hrun).2.1, of_decide_eq_true hlog⟩

end Ownership

end Posix
