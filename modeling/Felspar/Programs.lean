import Mathlib.Algebra.Group.Basic
import Mathlib.Tactic.Common
import Felspar.Runs

/-!
# Programs with a state, exceptions and scopes

A program is a partial computation over a state, `StateT σ Option`: it has no
meaning where what it does is undefined. One that may throw is an `ExceptT` over
these, and an object that lives in a block has its destructor run when the
block is left, in whichever way that happens. How such programs run is told by
one rule for each way to compose them.

A quantity `μ` says how much of something a state has. What is taken out of the
state is in hand until it is put back, handed to the next part of the program,
or thrown away. `Accounts μ given x back` says that nothing gets lost on the
way: `x`, begun with `given` in hand, ends with `back a` in hand, where `a` is
what it returns, and the state has gained what the hand has lost. The rules
follow the program: what one part hands back is what the next part is given. A
program that begins and ends with nothing in hand leaves `μ` alone, and so does
every run of such programs.
-/

variable {σ ε ν α β : Type}

/-! ## Programs that may throw -/

/-- A program that may throw. -/
abbrev Throwing (σ ν α : Type) := ExceptT ν (StateT σ Option) α

/-- A part of the program that does not throw. -/
def noexcept (x : StateT σ Option α) : Throwing σ ν α := ExceptT.lift x

/-- What a call that the model does not look into comes to. -/
def awaited (outcome : Except ν α) : Throwing σ ν α := ExceptT.mk (pure outcome)

/-- **The block in which an object lives.** Its destructor runs when the block
ends, and when an exception leaves it. -/
def scope (destructor : StateT σ Option Unit) (body : Throwing σ ν α) : Throwing σ ν α :=
  ExceptT.mk do
    let result ← body.run
    destructor
    return result

/-- **The block in which an object lives that is given away in the end.** Its
destructor runs only when an exception leaves the block. -/
def scopeUnlessReturned (destructor : StateT σ Option Unit) (body : Throwing σ ν α) :
    Throwing σ ν α :=
  ExceptT.mk do
    let result ← body.run
    match result with
    | .ok a => return .ok a
    | .error e =>
      destructor
      return .error e

section Throwing

variable {s s' s'' : σ} {a : α} {e : ν} {r : Except ν α} {destructor : StateT σ Option Unit}

theorem noexcept_run {x : StateT σ Option α} (h : x s = some (a, s')) :
    (noexcept x : Throwing σ ν α) s = some (.ok a, s') :=
  Option.bind_eq_some_iff.mpr ⟨(a, s'), h, rfl⟩

theorem bind_run {x : StateT σ Option α} (h : x s = some (a, s')) (f : α → StateT σ Option β) :
    (x >>= f) s = f a s' := by
  change (x s).bind _ = _
  rw [h]
  rfl

/-- What comes after a part that has returned goes on with what it
returned. -/
theorem bind_run_ok {x : Throwing σ ν α} (h : x s = some (.ok a, s')) (f : α → Throwing σ ν β) :
    (x >>= f) s = f a s' := by
  change (x s).bind _ = _
  rw [h]
  rfl

/-- What comes after a part that has thrown is left out. -/
theorem bind_run_error {x : Throwing σ ν α} (h : x s = some (.error e, s'))
    (f : α → Throwing σ ν β) : (x >>= f) s = some (.error e, s') := by
  change (x s).bind _ = _
  rw [h]
  rfl

/-- What is awaited and has come out well is only passed on. -/
theorem awaited_ok_bind (f : α → Throwing σ ν β) : (awaited (.ok a) >>= f) = f a := rfl

theorem awaited_error_bind (f : α → Throwing σ ν β) :
    (awaited (.error e) >>= f) = awaited (.error e) := rfl

/-- **What an exception is caught with.** -/
theorem tryCatch_run_error {x : Throwing σ ν α} (h : x s = some (.error e, s'))
    (handler : ν → Throwing σ ν α) : tryCatch x handler s = handler e s' := by
  change (x s).bind _ = _
  rw [h]
  rfl

theorem tryCatch_run_ok {x : Throwing σ ν α} (h : x s = some (.ok a, s'))
    (handler : ν → Throwing σ ν α) : tryCatch x handler s = some (.ok a, s') := by
  change (x s).bind _ = _
  rw [h]
  rfl

/-- **The end of a block.** -/
theorem scope_run {body : Throwing σ ν α} (h : body s = some (r, s'))
    (hdestructor : destructor s' = some ((), s'')) : scope destructor body s = some (r, s'') := by
  change (body s).bind _ = _
  rw [h]
  exact bind_run hdestructor _

theorem scopeUnlessReturned_run_ok {body : Throwing σ ν α} (h : body s = some (.ok a, s')) :
    scopeUnlessReturned destructor body s = some (.ok a, s') := by
  change (body s).bind _ = _
  rw [h]
  rfl

theorem scopeUnlessReturned_run_error {body : Throwing σ ν α} (h : body s = some (.error e, s'))
    (hdestructor : destructor s' = some ((), s'')) :
    scopeUnlessReturned destructor body s = some (.error e, s'') := by
  change (body s).bind _ = _
  rw [h]
  exact bind_run hdestructor _

end Throwing

/-! ## Accounting for what is passed on -/

variable {M : Type} [AddCommMonoid M]

/-- **What is in the state and what is in hand make up the same** before the
program and after it. -/
def Accounts (μ : σ → M) (given : M) (x : StateT σ Option α) (back : α → M) : Prop :=
  ∀ s a s', x s = some (a, s') → μ s' + back a = μ s + given

/-- A program that leaves the quantity alone. -/
abbrev Conserves (μ : σ → M) (x : StateT σ Option α) : Prop :=
  Accounts μ 0 x (fun _ => 0)

namespace Accounts

variable {μ : σ → M} {given : M} {x : StateT σ Option α} {f : α → StateT σ Option β}
  {mid : α → M} {back : β → M}

/-- What is returned is still in hand. -/
theorem pure (b : β) : Accounts μ (back b) (Pure.pure b) back := by
  intro s a s' h
  obtain ⟨rfl, rfl⟩ := Prod.mk.inj (Option.some.inj h)
  rfl

/-- **One program after the other**: what the first hands back is what the
second is given. -/
theorem bind (hx : Accounts μ given x mid) (hf : ∀ a, Accounts μ (mid a) (f a) back) :
    Accounts μ given (x >>= f) back := by
  intro s b s'' h
  obtain ⟨⟨a, s'⟩, ha, hb⟩ := Option.bind_eq_some_iff.mp h
  exact (hf a s' b s'' hb).trans (hx s a s' ha)

/-- How much is in hand may be said in another way. -/
theorem congr {given' : M} {mid' : α → M} (hx : Accounts μ given x mid) (hgiven : given = given')
    (hback : ∀ a, mid a = mid' a) : Accounts μ given' x mid' := by
  intro s a s' h
  rw [← hgiven, ← hback a]
  exact hx s a s' h

end Accounts

/-- **A run of programs that leave the quantity alone leaves it alone.** -/
theorem Run.conserves {μ : σ → M} {program : ε → StateT σ Option α} {ok : σ → ε → Prop}
    {s s' : σ} {es : List ε} (hprogram : ∀ e, Conserves μ (program e))
    (h : Run (fun s e => (program e s).map Prod.snd) ok s es s') : μ s' = μ s := by
  refine h.invariant (P := fun s' => μ s' = μ s) (fun s₁ e s₂ hs _ he => ?_) rfl
  obtain ⟨⟨a, s₃⟩, ha, rfl⟩ := Option.map_eq_some_iff.mp he
  have hsame := hprogram e s₁ a s₃ ha
  rw [add_zero, add_zero] at hsame
  exact hsame.trans hs
