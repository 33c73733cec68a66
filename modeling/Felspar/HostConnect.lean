import Felspar.Descriptors

/-!
# Connecting to a host by name

`getaddrinfo` gives a list of addresses for a name, and `io::connect` and
`tls::connect` try them in turn: a socket is created and prepared, it is
connected, for TLS the handshake is made, and an exception anywhere on the way
is kept while the next address is tried. The first attempt that gets through
ends the loop with a `co_return` from inside the `try` block.

The model is of the program with its local objects, their moves and their
destructors. What the system and the warden answer for an address comes with
the address, and any exception may come from there. What an attempt comes to is
decided by these answers, and what it leaves behind is one descriptor in one
object, or none: the loop is then the search for the first attempt that
succeeds.
-/

namespace HostConnect

open Posix

/-! ## Addresses -/

abbrev AF_INET : ℕ := 2
abbrev AF_INET6 : ℕ := 10

/-- A `sockaddr` and its length. -/
structure Host where
  saFamily : ℕ
  port : ℕ
  address : ℕ
  addrlen : ℕ
  deriving DecidableEq

/-- `posix::set_port` -/
def setPort (host : Host) (port : ℕ) : Host :=
  if host.saFamily = AF_INET then { host with port }
  else if host.saFamily = AF_INET6 then { host with port }
  else host

variable {ε : Type}

/-- An exception of the library, or one of any other kind. -/
abbrev AnyException (ε : Type) := Exception ⊕ ε

/-- **An address and what becomes of an attempt to connect to it**: the answer
of `::socket`, and the outcomes of `do_prepare_socket`, of awaiting the
warden's `connect`, and of the `service_operation` that runs `SSL_connect`. -/
structure Attempt (ε : Type) where
  host : Host
  socket : Sys
  prepare : Except (AnyException ε) Unit := .ok ()
  connect : Except (AnyException ε) Unit := .ok ()
  handshake : Except (AnyException ε) Int := .ok 1

/-- A part of the program that may throw. What is seen of it, apart from its
descriptors, are the addresses it takes. -/
abbrev Connecting (ε α : Type) := Throwing (Process Host) (AnyException ε) α

/-- `io::addrinfo`, with the addresses `getaddrinfo` gives when it succeeds. -/
def addrinfo (hostname : String) (port : ℕ) (addresses : Option (List (Attempt ε))) :
    Except (AnyException ε) (List (Attempt ε)) :=
  match addresses with
  | none => .error (.inl (.runtimeError ("getaddrinfo error looking up " ++ hostname)))
  | some addresses => .ok (addresses.map (fun a => { a with host := setPort a.host port }))

/-! ## One attempt -/

/-- `::socket` -/
def socket (answer : Sys) : Program Host SocketDescriptor := do
  if answer.ret ≠ invalidHandle then see (.opened answer.ret)
  return answer.ret

/-- `warden::create_socket` -/
def createSocket (answer : Sys) (doPrepareSocket : Except (AnyException ε) Unit) :
    Connecting ε FdId := do
  let s ← noexcept (construct (← noexcept (socket answer)))
  scope (destruct s) do
    if not (← noexcept (valid s)) then
      throw (.inl (.systemError answer.errno "Error creating socket"))
    else
      awaited doPrepareSocket
      noexcept (moveConstruct s)

/-- The `try` block of `io::connect`. -/
def connectAddress (a : Attempt ε) : Connecting ε FdId := do
  let fd ← createSocket a.socket a.prepare
  scope (destruct fd) do
    awaited a.connect
    noexcept (moveConstruct fd)

/-- `tls::impl::impl`, of which only the member `fd` is of interest here. -/
def makeImpl (fd : FdId) : Program Host FdId := do
  let f ← moveConstruct fd
  let member ← moveConstruct f
  destruct f
  return member

/-- `tls::connect`, with an address. What the handshake returns is not looked
at. The descriptor is in the `impl` that the result owns. -/
def tlsConnectAddress (a : Attempt ε) : Connecting ε FdId := do
  let fd ← createSocket a.socket a.prepare
  scope (destruct fd) do
    awaited a.connect
    let i ← noexcept (makeImpl fd)
    scopeUnlessReturned (destruct i) do
      let _ ← awaited a.handshake
      return i

/-! ## The loop -/

/-- **The loop over the addresses** that `io::connect` and `tls::connect` both
have: `eptr` keeps the exception of the last attempt. -/
def tryEach (attempt : Attempt ε → Connecting ε FdId) (hostname : String) :
    List (Attempt ε) → Option (AnyException ε) → Connecting ε FdId
  | [], some eptr => throw eptr
  | [], none => throw (.inl (.runtimeError ("No host found for " ++ hostname)))
  | a :: rest, _ => do
    noexcept (see (.other a.host))
    tryCatch (attempt a) (fun e => tryEach attempt hostname rest (some e))

/-- `io::connect`, with a host name. -/
def connect (hostname : String) (port : ℕ) (addresses : Option (List (Attempt ε))) :
    Connecting ε FdId := do
  let hosts ← awaited (addrinfo hostname port addresses)
  tryEach connectAddress hostname hosts none

/-- `tls::connect`, with a host name. -/
def tlsConnect (hostname : String) (port : ℕ) (addresses : Option (List (Attempt ε))) :
    Connecting ε FdId := do
  let hosts ← awaited (addrinfo hostname port addresses)
  tryEach tlsConnectAddress hostname hosts none

/-! ## What an attempt comes to

The objects that an attempt makes come behind those that are there. -/

section Objects

variable {κ : Type}

/-- What is seen where a descriptor is opened, which `invalid_handle` is not. -/
def opening (d : SocketDescriptor) : List (Obs κ) :=
  if d ≠ invalidHandle then [.opened d] else []

/-- What is seen where an object that has the value is destructed. -/
def closing (d : SocketDescriptor) : List (Obs κ) :=
  if d ≠ invalidHandle then [.closed d] else []

variable (l new : List (Option SocketDescriptor)) (log : List (Obs κ)) (k : ℕ)

theorem f_behind : (⟨l ++ new, log⟩ : Process κ).f (l.length + k) = new[k]?.join := by
  unfold Process.f
  rw [List.getElem?_append_right (Nat.le_add_right _ _), Nat.add_sub_cancel_left]

theorem setF_behind (x : Option SocketDescriptor) :
    (⟨l ++ new, log⟩ : Process κ).setF (l.length + k) x = ⟨l ++ new.set k x, log⟩ := by
  unfold Process.setF
  rw [List.set_append_right _ _ (Nat.le_add_right _ _), Nat.add_sub_cancel_left]

theorem construct_behind (v : SocketDescriptor) :
    construct v (⟨l ++ new, log⟩ : Process κ)
      = some (l.length + new.length, ⟨l ++ (new ++ [some v]), log⟩) := by
  unfold construct
  rw [List.length_append, List.append_assoc]

theorem valid_behind {d : SocketDescriptor} (h : new[k]?.join = some d) :
    valid (l.length + k) (⟨l ++ new, log⟩ : Process κ)
      = some (decide (d ≠ invalidHandle), ⟨l ++ new, log⟩) := by
  unfold valid
  rw [f_behind, h]
  rfl

theorem moveConstruct_behind {d : SocketDescriptor} (h : new[k]?.join = some d) :
    moveConstruct (l.length + k) (⟨l ++ new, log⟩ : Process κ)
      = some (l.length + new.length,
          ⟨l ++ (new.set k (some invalidHandle) ++ [some d]), log⟩) := by
  have hexchange : exchange (l.length + k) invalidHandle (⟨l ++ new, log⟩ : Process κ)
      = some (d, ⟨l ++ new.set k (some invalidHandle), log⟩) := by
    unfold exchange
    rw [f_behind, h, setF_behind]
    rfl
  unfold moveConstruct
  rw [bind_run hexchange, construct_behind, List.length_set]

theorem destruct_behind {d : SocketDescriptor} (h : new[k]?.join = some d) :
    destruct (l.length + k) (⟨l ++ new, log⟩ : Process κ)
      = some ((), ⟨l ++ new.set k none, closing d ++ log⟩) := by
  have hf : (fun s : Process κ => (s.f (l.length + k)).map
      (fun f => (f, s.setF (l.length + k) none)) : Program κ SocketDescriptor) ⟨l ++ new, log⟩
      = some (d, ⟨l ++ new.set k none, log⟩) := by
    beta_reduce
    rw [f_behind, h, setF_behind]
    rfl
  unfold destruct
  rw [bind_run hf]
  unfold closeSocketIfValid closing
  split
  · rfl
  · rfl

end Objects

section OneAttempt

variable (a : Attempt ε) (l : List (Option SocketDescriptor)) (log : List (Obs Host))
  {d : SocketDescriptor} {e : AnyException ε}

/-- What creating a socket comes to. -/
def created : Except (AnyException ε) SocketDescriptor :=
  if a.socket.ret = invalidHandle then
    .error (.inl (.systemError a.socket.errno "Error creating socket"))
  else a.prepare.map (fun _ => a.socket.ret)

/-- **What an attempt of `io::connect` comes to.** -/
def reached : Except (AnyException ε) SocketDescriptor := do
  let d ← created a
  a.connect
  return d

/-- **What an attempt of `tls::connect` comes to.** -/
def secured : Except (AnyException ε) SocketDescriptor := do
  let d ← reached a
  let _ ← a.handshake
  return d

theorem socket_run (answer : Sys) :
    socket answer ⟨l, log⟩ = some (answer.ret, ⟨l, opening answer.ret ++ log⟩) := by
  unfold socket opening
  split
  · rfl
  · rfl

/-- The socket is in an object of its own when it is to be prepared. -/
theorem createSocket_begins (doPrepareSocket : Except (AnyException ε) Unit)
    {r : Except (AnyException ε) FdId} {s : Process Host}
    (h : scope (destruct l.length)
      (do
        if not (← noexcept (valid l.length)) then
          throw (.inl (.systemError a.socket.errno "Error creating socket"))
        else
          awaited doPrepareSocket
          noexcept (moveConstruct l.length))
      ⟨l ++ [some a.socket.ret], opening a.socket.ret ++ log⟩ = some (r, s)) :
    createSocket a.socket doPrepareSocket ⟨l, log⟩ = some (r, s) := by
  have hconstruct := construct_behind l [] (opening a.socket.ret ++ log) a.socket.ret
  rw [List.append_nil, List.nil_append, List.length_nil, Nat.add_zero] at hconstruct
  unfold createSocket
  rw [bind_run_ok (noexcept_run (socket_run l log a.socket)), bind_run_ok (noexcept_run hconstruct)]
  exact h

/-- A descriptor that has been created is the one that `::socket` returned, and
it has been prepared. -/
theorem created_eq_ok (h : created a = .ok d) :
    a.socket.ret = d ∧ d ≠ invalidHandle ∧ a.prepare = .ok () := by
  unfold created at h
  split at h
  case isTrue => exact absurd h (by simp)
  case isFalse hret =>
    cases hprepare : a.prepare with
    | error e => rw [hprepare] at h; exact absurd h (by simp [Except.map])
    | ok u =>
      rw [hprepare] at h
      obtain rfl : a.socket.ret = d := Except.ok.inj h
      exact ⟨rfl, hret, rfl⟩

/-- **A socket that is created is in an object of the caller**, and the one that
`create_socket` had it in is gone. -/
theorem createSocket_run_ok (h : created a = .ok d) :
    createSocket a.socket a.prepare ⟨l, log⟩
      = some (.ok (l.length + 1), ⟨l ++ [none, some d], opening d ++ log⟩) := by
  obtain ⟨rfl, hret, hprepare⟩ := created_eq_ok a h
  rw [hprepare]
  refine createSocket_begins a l log _ (scope_run ?_
    (destruct_behind l [some invalidHandle, some a.socket.ret] _ 0 rfl))
  refine (bind_run_ok (noexcept_run (valid_behind l [some a.socket.ret] _ 0 rfl)) _).trans ?_
  rw [decide_eq_true hret]
  exact noexcept_run (moveConstruct_behind l [some a.socket.ret] _ 0 rfl)

/-- **A socket that is not created** is closed, if there is one. -/
theorem createSocket_run_error (h : created a = .error e) :
    createSocket a.socket a.prepare ⟨l, log⟩
      = some (.error e, ⟨l ++ [none], closing a.socket.ret ++ (opening a.socket.ret ++ log)⟩) := by
  refine createSocket_begins a l log _ (scope_run ?_
    (destruct_behind l [some a.socket.ret] _ 0 rfl))
  refine (bind_run_ok (noexcept_run (valid_behind l [some a.socket.ret] _ 0 rfl)) _).trans ?_
  unfold created at h
  split at h
  case isTrue hret =>
    obtain rfl := Except.error.inj h
    rw [decide_eq_false (not_not.mpr hret)]
    rfl
  case isFalse hret =>
    rw [decide_eq_true hret]
    cases hprepare : a.prepare with
    | ok u => rw [hprepare] at h; exact absurd h (by simp [Except.map])
    | error e' =>
      rw [hprepare] at h
      obtain rfl : e' = e := Except.error.inj h
      rfl

/-- **What an attempt leaves behind.** A descriptor that is connected is in one
object more, which is the result. Otherwise what has been opened is closed, and
there is no object more. -/
def Leaves (attempt : Attempt ε → Connecting ε FdId)
    (outcome : Attempt ε → Except (AnyException ε) SocketDescriptor) : Prop :=
  ∀ a l log, match outcome a with
    | .ok d => ∃ k, attempt a ⟨l, log⟩ = some (.ok (l.length + k),
        ⟨l ++ (List.replicate k none ++ [some d]), .opened d :: log⟩)
    | .error e => ∃ k, attempt a ⟨l, log⟩ = some (.error e,
        ⟨l ++ List.replicate k none, closing a.socket.ret ++ (opening a.socket.ret ++ log)⟩)

/-- **What the two attempts have in common**, with the `rest` that is left when
the descriptor has been connected: it is in an object then, which is destructed
after the rest. -/
theorem connects_run (rest : FdId → Connecting ε FdId) (attempt : Connecting ε FdId)
    (h : attempt = do
      let fd ← createSocket a.socket a.prepare
      scope (destruct fd) do
        awaited a.connect
        rest fd) :
    match reached a with
    | .ok d => (a.socket.ret = d ∧ d ≠ invalidHandle) ∧ attempt ⟨l, log⟩
        = scope (destruct (l.length + 1)) (rest (l.length + 1))
            ⟨l ++ [none, some d], .opened d :: log⟩
    | .error e => ∃ k, attempt ⟨l, log⟩ = some (.error e,
        ⟨l ++ List.replicate k none, closing a.socket.ret ++ (opening a.socket.ret ++ log)⟩) := by
  subst h
  unfold reached
  cases hcreated : created a with
  | error e => exact ⟨1, bind_run_error (createSocket_run_error a l log hcreated) _⟩
  | ok d =>
    obtain ⟨rfl, hvalid, -⟩ := created_eq_ok a hcreated
    rw [bind_run_ok (createSocket_run_ok a l log hcreated)]
    cases hconnect : a.connect with
    | error e =>
      rw [awaited_error_bind]
      exact ⟨2, scope_run rfl (destruct_behind l [none, some a.socket.ret] _ 1 rfl)⟩
    | ok u =>
      have hopening : opening (κ := Host) a.socket.ret = [.opened a.socket.ret] := if_pos hvalid
      rw [awaited_ok_bind, hopening]
      exact ⟨⟨rfl, hvalid⟩, rfl⟩

theorem connectAddress_leaves : Leaves (connectAddress (ε := ε)) reached := by
  intro a l log
  have hrun := connects_run a l log (fun fd => noexcept (moveConstruct fd)) (connectAddress a) rfl
  cases hreached : reached a with
  | error e =>
    rw [hreached] at hrun
    exact hrun
  | ok d =>
    rw [hreached] at hrun
    -- `fd` is destructed after the result has been made from it
    exact ⟨2, hrun.2.trans (scope_run
      (noexcept_run (moveConstruct_behind l [none, some d] _ 1 rfl))
      (destruct_behind l [none, some invalidHandle, some d] _ 1 rfl))⟩

/-- The descriptor goes through the parameter of the constructor to its
member. -/
theorem makeImpl_run :
    makeImpl (l.length + 1) ⟨l ++ [none, some d], log⟩
      = some (l.length + 3, ⟨l ++ [none, some invalidHandle, none, some d], log⟩) := by
  have hf := moveConstruct_behind l [none, some d] log 1 rfl
  have hmember := moveConstruct_behind l [none, some invalidHandle, some d] log 2 rfl
  have hdestruct :=
    destruct_behind l [none, some invalidHandle, some invalidHandle, some d] log 2 rfl
  unfold makeImpl
  rw [bind_run hf]
  exact (bind_run hmember _).trans (bind_run hdestruct _)

theorem tlsConnectAddress_leaves : Leaves (tlsConnectAddress (ε := ε)) secured := by
  intro a l log
  have hrun := connects_run a l log (fun fd => do
    let i ← noexcept (makeImpl fd)
    scopeUnlessReturned (destruct i) do
      let _ ← awaited a.handshake
      return i) (tlsConnectAddress a) rfl
  unfold secured
  cases hreached : reached a with
  | error e =>
    rw [hreached] at hrun
    exact hrun
  | ok d =>
    rw [hreached] at hrun
    obtain ⟨⟨rfl, hvalid⟩, hrun⟩ := hrun
    have himpl := noexcept_run (ν := AnyException ε)
      (makeImpl_run l ([.opened a.socket.ret] ++ log) (d := a.socket.ret))
    -- `i` goes before `fd` does, and `fd` is empty by then
    cases hhandshake : a.handshake with
    | error e =>
      have hopening : opening (κ := Host) a.socket.ret = [.opened a.socket.ret] := if_pos hvalid
      rw [hhandshake] at hrun
      refine ⟨4, hrun.trans ?_⟩
      rw [hopening]
      exact scope_run ((bind_run_ok himpl _).trans (scopeUnlessReturned_run_error rfl
          (destruct_behind l [none, some invalidHandle, none, some a.socket.ret] _ 3 rfl)))
        (destruct_behind l [none, some invalidHandle, none, none] _ 1 rfl)
    | ok ret =>
      rw [hhandshake] at hrun
      exact ⟨3, hrun.trans (scope_run ((bind_run_ok himpl _).trans
          (scopeUnlessReturned_run_ok rfl))
        (destruct_behind l [none, some invalidHandle, none, some a.socket.ret] _ 1 rfl))⟩

end OneAttempt

/-! ## One attempt after the other -/

section Tries

variable {attempt : Attempt ε → Connecting ε FdId}
  {outcome : Attempt ε → Except (AnyException ε) SocketDescriptor}

/-- What is seen of an attempt that fails, newest first: its address has been
taken, and a socket that was opened has been closed. -/
def traceOf (a : Attempt ε) : List (Obs Host) :=
  closing a.socket.ret ++ (opening a.socket.ret ++ [.other a.host])

/-- What is seen of attempts that fail. -/
def tracesOf (failed : List (Attempt ε)) : List (Obs Host) := failed.reverse.flatMap traceOf

theorem tracesOf_cons (a : Attempt ε) (failed : List (Attempt ε)) :
    tracesOf (a :: failed) = tracesOf failed ++ traceOf a := by
  simp [tracesOf]

theorem tracesOf_concat (failed : List (Attempt ε)) (a : Attempt ε) :
    tracesOf (failed ++ [a]) = traceOf a ++ tracesOf failed := by
  simp [tracesOf]

/-- That an attempt throws. -/
def Fails (outcome : Attempt ε → Except (AnyException ε) SocketDescriptor) (a : Attempt ε) : Prop :=
  ∃ e, outcome a = .error e

/-- **What trying one address after the other comes to.** The first attempt that
succeeds gives the result, which is an object more and has the descriptor of
this attempt, and none of the later addresses has been taken. If every attempt
fails, the result is the exception of the last one. If there is no address, it
is an exception that says so. In no case is there another object more, or
another descriptor left open. -/
inductive Tries (outcome : Attempt ε → Except (AnyException ε) SocketDescriptor)
    (hostname : String) (s : Process Host) :
    List (Attempt ε) → Except (AnyException ε) FdId → Process Host → Prop
  | connected {failed : List (Attempt ε)} {a : Attempt ε} {later : List (Attempt ε)}
      {d : SocketDescriptor} {r : FdId} {s' : Process Host}
      (hfailed : ∀ b ∈ failed, Fails outcome b) (ha : outcome a = .ok d)
      (hnew : s.f r = none) (hf : s'.f = Function.update s.f r (some d))
      (hlog : s'.log = .opened d :: .other a.host :: (tracesOf failed ++ s.log)) :
      Tries outcome hostname s (failed ++ a :: later) (.ok r) s'
  | exhausted {failed : List (Attempt ε)} {a : Attempt ε} {e : AnyException ε} {s' : Process Host}
      (hfailed : ∀ b ∈ failed, Fails outcome b) (ha : outcome a = .error e) (hf : s'.f = s.f)
      (hlog : s'.log = tracesOf (failed ++ [a]) ++ s.log) :
      Tries outcome hostname s (failed ++ [a]) (.error e) s'
  | noHost :
      Tries outcome hostname s []
        (.error (.inl (.runtimeError ("No host found for " ++ hostname)))) s

/-- One attempt that fails. -/
theorem tryEach_cons_of_fails (hostname : String) (h : Leaves attempt outcome) {a : Attempt ε}
    {e : AnyException ε} (ha : outcome a = .error e) (rest : List (Attempt ε))
    (eptr : Option (AnyException ε)) (l : List (Option SocketDescriptor)) (log : List (Obs Host)) :
    ∃ k, tryEach attempt hostname (a :: rest) eptr ⟨l, log⟩
      = tryEach attempt hostname rest (some e) ⟨l ++ List.replicate k none, traceOf a ++ log⟩ := by
  have hleaves := h a l (.other a.host :: log)
  rw [ha] at hleaves
  obtain ⟨k, hk⟩ := hleaves
  refine ⟨k, ?_⟩
  rw [tryEach, bind_run_ok rfl, tryCatch_run_error hk, traceOf, List.append_assoc,
    List.append_assoc]
  rfl

/-- **Attempts that fail leave nothing behind** but an exception. -/
theorem tryEach_append (hostname : String) (h : Leaves attempt outcome)
    {failed : List (Attempt ε)} (hfailed : ∀ b ∈ failed, Fails outcome b) (rest : List (Attempt ε))
    (eptr : Option (AnyException ε)) (l : List (Option SocketDescriptor)) (log : List (Obs Host)) :
    ∃ k eptr', tryEach attempt hostname (failed ++ rest) eptr ⟨l, log⟩
      = tryEach attempt hostname rest eptr'
          ⟨l ++ List.replicate k none, tracesOf failed ++ log⟩ := by
  induction failed generalizing eptr l log with
  | nil => exact ⟨0, eptr, by simp [tracesOf]⟩
  | cons a failed ih =>
    obtain ⟨e, he⟩ := hfailed a List.mem_cons_self
    obtain ⟨k, hk⟩ := tryEach_cons_of_fails hostname h he (failed ++ rest) eptr l log
    obtain ⟨k', eptr', hk'⟩ := ih (fun b hb => hfailed b (List.mem_cons_of_mem a hb)) (some e)
      (l ++ List.replicate k none) (traceOf a ++ log)
    refine ⟨k + k', eptr', ?_⟩
    rw [List.cons_append, hk, hk', List.append_assoc, List.replicate_append_replicate,
      tracesOf_cons, List.append_assoc]

/-- There is no object behind the last one. -/
theorem f_of_length_le {l : List (Option SocketDescriptor)} {i : FdId} (h : l.length ≤ i)
    (log : List (Obs Host)) : (⟨l, log⟩ : Process Host).f i = none := by
  unfold Process.f
  rw [List.getElem?_eq_none h]
  rfl

/-- Objects that are gone make no difference. -/
theorem f_append_none (l : List (Option SocketDescriptor)) (k : ℕ) (log log' : List (Obs Host)) :
    (⟨l ++ List.replicate k none, log⟩ : Process Host).f = (⟨l, log'⟩ : Process Host).f := by
  funext i
  unfold Process.f
  rcases Nat.lt_or_ge i l.length with hi | hi
  · rw [List.getElem?_append_left hi]
  · rw [List.getElem?_append_right hi, List.getElem?_eq_none hi, List.getElem?_replicate]
    split <;> rfl

/-- The object of the result is one more. -/
theorem f_append_some (l : List (Option SocketDescriptor)) (k : ℕ) (d : SocketDescriptor)
    (log log' : List (Obs Host)) :
    (⟨l ++ (List.replicate k none ++ [some d]), log⟩ : Process Host).f
      = Function.update (⟨l, log'⟩ : Process Host).f (l.length + k) (some d) := by
  have hlength : (l ++ List.replicate k none).length = l.length + k := by simp
  funext i
  rw [← f_append_none l k log log', ← List.append_assoc]
  rcases Nat.lt_trichotomy i (l.length + k) with hlt | rfl | hgt
  · rw [Function.update_of_ne hlt.ne]
    unfold Process.f
    rw [List.getElem?_append_left (hlength ▸ hlt)]
  · rw [Function.update_self, ← hlength, ← Nat.add_zero (List.length _), f_behind]
    rfl
  · have hshort : (l ++ List.replicate k none).length ≤ i := hlength.le.trans hgt.le
    have hlong : (l ++ List.replicate k none ++ [some d]).length ≤ i := by
      rw [List.length_append, hlength]
      exact hgt
    rw [Function.update_of_ne hgt.ne', f_of_length_le hlong, f_of_length_le hshort]

/-- **The first attempt that succeeds**, if there is one. -/
theorem first_success (outcome : Attempt ε → Except (AnyException ε) SocketDescriptor)
    (hosts : List (Attempt ε)) :
    (∃ failed a later d, hosts = failed ++ a :: later ∧ (∀ b ∈ failed, Fails outcome b)
        ∧ outcome a = .ok d)
      ∨ ∀ b ∈ hosts, Fails outcome b := by
  induction hosts with
  | nil => exact .inr (fun b hb => absurd hb (List.not_mem_nil))
  | cons a hosts ih =>
    cases ha : outcome a with
    | ok d => exact .inl ⟨[], a, hosts, d, rfl, fun b hb => absurd hb (List.not_mem_nil), ha⟩
    | error e =>
      have hcons {failed : List (Attempt ε)} (hfailed : ∀ b ∈ failed, Fails outcome b) :
          ∀ b ∈ a :: failed, Fails outcome b :=
        List.forall_mem_cons.mpr ⟨⟨e, ha⟩, hfailed⟩
      rcases ih with ⟨failed, a', later, d, rfl, hfailed, ha'⟩ | hall
      · exact .inl ⟨a :: failed, a', later, d, rfl, hcons hfailed, ha'⟩
      · exact .inr (hcons hall)

/-- **The loop tries one address after the other.** -/
theorem tryEach_tries (hostname : String) (h : Leaves attempt outcome) (hosts : List (Attempt ε))
    (s : Process Host) :
    ∃ result s', tryEach attempt hostname hosts none s = some (result, s')
      ∧ Tries outcome hostname s hosts result s' := by
  obtain ⟨l, log⟩ := s
  rcases first_success outcome hosts with ⟨failed, a, later, d, rfl, hfailed, ha⟩ | hall
  · obtain ⟨k, eptr, hk⟩ := tryEach_append hostname h hfailed (a :: later) none l log
    have hleaves := h a (l ++ List.replicate k none) (.other a.host :: (tracesOf failed ++ log))
    rw [ha] at hleaves
    obtain ⟨k', hk'⟩ := hleaves
    have hrun := hk.trans (by rw [tryEach, bind_run_ok rfl, tryCatch_run_ok hk'])
    have hgone := f_append_none l k (.other a.host :: (tracesOf failed ++ log)) log
    refine ⟨_, _, hrun, .connected hfailed ha ?_ ?_ rfl⟩
    · rw [← hgone]
      exact f_of_length_le (Nat.le_add_right _ _) _
    · rw [← hgone, f_append_some]
  · rcases List.eq_nil_or_concat hosts with rfl | ⟨failed, a, rfl⟩
    · exact ⟨_, _, rfl, .noHost⟩
    · rw [List.concat_eq_append] at hall ⊢
      obtain ⟨hfailed, hlast⟩ := List.forall_mem_append.mp hall
      obtain ⟨e, ha⟩ := hlast a List.mem_cons_self
      obtain ⟨k, eptr, hk⟩ := tryEach_append hostname h hfailed [a] none l log
      obtain ⟨k', hk'⟩ := tryEach_cons_of_fails hostname h ha [] eptr
        (l ++ List.replicate k none) (tracesOf failed ++ log)
      refine ⟨_, _, hk.trans hk', .exhausted hfailed ha ?_ ?_⟩
      · exact (f_append_none _ k' _ log).trans (f_append_none l k log log)
      · rw [tracesOf_concat]
        exact (List.append_assoc _ _ _).symm

end Tries

/-! ## Connecting by name -/

/-- The addresses, with the port to connect to. -/
def withPort (port : ℕ) (addresses : List (Attempt ε)) : List (Attempt ε) :=
  addresses.map (fun a => { a with host := setPort a.host port })

/-- A name that cannot be looked up. -/
theorem connect_of_lookup_fails (hostname : String) (port : ℕ) (s : Process Host) :
    connect (ε := ε) hostname port none s
        = some (.error (.inl (.runtimeError ("getaddrinfo error looking up " ++ hostname))), s)
      ∧ tlsConnect (ε := ε) hostname port none s
        = some (.error (.inl (.runtimeError ("getaddrinfo error looking up " ++ hostname))), s) :=
  ⟨rfl, rfl⟩

/-- **Connecting by name tries one address after the other**, and for TLS an
attempt includes the handshake. Whatever the addresses are and whatever becomes
of each attempt, both functions end, and they end as `Tries` says. -/
theorem connect_first_success (hostname : String) (port : ℕ) (addresses : List (Attempt ε))
    (s : Process Host) :
    (∃ result s', connect hostname port (some addresses) s = some (result, s')
        ∧ Tries reached hostname s (withPort port addresses) result s')
      ∧ ∃ result s', tlsConnect hostname port (some addresses) s = some (result, s')
        ∧ Tries secured hostname s (withPort port addresses) result s' :=
  ⟨tryEach_tries hostname connectAddress_leaves (withPort port addresses) s,
    tryEach_tries hostname tlsConnectAddress_leaves (withPort port addresses) s⟩

end HostConnect
