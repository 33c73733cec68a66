import Felspar.TlsRelay

/-!
# TLS in both directions at once

`impl::buffer` is one array, and every coroutine that drains or feeds the
network BIO does it through the front of that array, across a suspension. A
coroutine that is suspended in the middle of a write still has bytes in it.
When another one drains the network BIO, or the socket delivers to another
one, they are overwritten; and when another one has drained bytes after it
and writes them first, they arrive out of order.

What is needed for the bytes to arrive as they should is that a store leaves
alone what is held, and that those who hold bytes write them in their turn.
Then, in every run, what has been sent is what has been drained but for what
is held, and what has been fed is what has been received but for what is held
(`relayed_of_run`).
-/

namespace Tls

open SharedBuffer

/-! ## The bytes on their way -/

/-- **Every byte is where it should be.** What has been sent, and then what is
held to be sent, is what has been drained; what has been fed, and then what is
held to be fed, is what has been received. -/
structure Relayed (s : State) : Prop where
  sent : s.sent ++ s.unsent = s.drained
  fed : s.fed ++ s.unfed = s.received

/-- Nothing is held in the first `n` positions of the buffer. -/
def State.Free (s : State) (n : ℕ) : Prop :=
  s.feeding = [] ∧ ∀ c ∈ s.draining, n ≤ (s.span c).1

instance (s : State) (n : ℕ) : Decidable (s.Free n) :=
  inferInstanceAs (Decidable (s.feeding = [] ∧ ∀ c ∈ s.draining, n ≤ (s.span c).1))

/-- **The buffer is used by one at a time**: what is stored in it leaves what
is held, and the socket takes bytes from the one that has drained first. -/
def Exclusive (s : State) : Event → Prop
  | .bioRead _ _ => s.outgoing ≠ [] → s.Free s.outgoing.length
  | .read _ bytes => bytes ≠ [] → s.Free bytes.length
  | .write c n => 0 < n → s.draining.head? = some c
  | _ => True

instance : DecidableRel Exclusive := fun s e =>
  match e with
  | .bioRead _ _ => inferInstanceAs (Decidable (s.outgoing ≠ [] → s.Free s.outgoing.length))
  | .read _ bytes => inferInstanceAs (Decidable (bytes ≠ [] → s.Free bytes.length))
  | .write c n => inferInstanceAs (Decidable (0 < n → s.draining.head? = some c))
  | .call _ _ _ | .ssl _ _ _ _ _ | .resume _ _ | .throw _ _ => inferInstanceAs (Decidable True)

/-- **The network BIO takes all it is given** by a `BIO_write`. -/
def TakesAll (s : State) : Event → Prop
  | .resume c written => 0 < s.unfedAt c → written = s.unfedAt c
  | _ => True

instance : DecidableRel TakesAll := fun s e =>
  match e with
  | .resume c written => inferInstanceAs (Decidable (0 < s.unfedAt c → written = s.unfedAt c))
  | .call _ _ _ | .ssl _ _ _ _ _ | .bioRead _ _ | .write _ _ | .read _ _ | .throw _ _ =>
    inferInstanceAs (Decidable True)

/-- **Nothing fails**: the network BIO does what it is asked to, and no write
throws or writes nothing. -/
def Healthy (s : State) (e : Event) : Prop := ReadsAll s e ∧ TakesAll s e ∧ ¬ GivesUp s e

instance : DecidableRel Healthy := fun s e =>
  inferInstanceAs (Decidable (ReadsAll s e ∧ TakesAll s e ∧ ¬ GivesUp s e))

/-- Nothing fails, and the buffer is used by one at a time. -/
def Undisturbed (s : State) (e : Event) : Prop := Healthy s e ∧ Exclusive s e

instance : DecidableRel Undisturbed := fun s e =>
  inferInstanceAs (Decidable (Healthy s e ∧ Exclusive s e))

/-! ## Towards the socket -/

section Sending

variable {s s' : State} {e : Event}

/-- **A step sends in order**, unless it gives up what was to be sent: what has
been sent and is held to be sent grows by what is drained. -/
theorem appended_of_moved (ht : Tracked s) (hex : Exclusive s e) (hup : ¬ GivesUp s e)
    (hm : Moved s e s') :
    ∃ bytes, s'.drained = s.drained ++ bytes
      ∧ s'.sent ++ s'.unsent = s.sent ++ s.unsent ++ bytes := by
  cases hm with
  | rest hold hnew hs =>
    obtain ⟨hdrained, hsent, -, -⟩ := hs.bytes
    refine ⟨[], by rw [hdrained, List.append_nil], ?_⟩
    rw [hsent, hs.unsent, unsent_setTask_of_eq_zero ht hold.1 hnew.1, List.append_nil]
  | @drained c t _ hne hold hnew hunfed hs read =>
    obtain ⟨hdrained, hsent, -, -⟩ := hs.bytes
    have hbegin := unsent_setTask_of_pos (c := c) (t := t)
      (s := { s with
        buffer := store s.buffer 0 s.outgoing
        drained := s.drained ++ s.outgoing })
      (ht.congr rfl rfl rfl rfl) hold.1 (by rw [hnew]; exact List.length_pos_of_ne_nil hne)
    have hstore := unsent_store (s := { s with drained := s.drained ++ s.outgoing })
      (l := s.outgoing) (hex hne).2
    rw [hnew, slice_store_self, hstore] at hbegin
    refine ⟨s.outgoing, hdrained, ?_⟩
    rw [hsent, hs.unsent, hbegin]
    show s.sent ++ (s.unsent ++ s.outgoing) = _
    rw [List.append_assoc]
  | @sent c t _ n hpos hle hunfed hnew hnew' hs =>
    obtain ⟨hdrained, hsent, -, -⟩ := hs.bytes
    refine ⟨[], by rw [hdrained, List.append_nil], ?_⟩
    rw [hsent, hs.unsent, List.append_nil]
    show (s.sent ++ slice s.buffer (s.span c).1 n) ++ _ = s.sent ++ s.unsent
    have ht' : Tracked ({ s with sent := s.sent ++ slice s.buffer (s.span c).1 n } : State) :=
      ht.congr rfl rfl rfl rfl
    -- only when it sends something is the coroutine known to be the first that
    -- holds bytes
    by_cases hn : 0 < n
    · obtain ⟨rest, hrest, hset⟩ := unsent_setTask_head (t := t) ht' (hex hn)
      have hunsent : s.unsent = slice s.buffer (s.span c).1 n
          ++ (slice s.buffer ((s.span c).1 + n) ((s.span c).2 - n) ++ rest) := by
        rw [← List.append_assoc, slice_append, Nat.add_sub_cancel' hle]
        exact hrest
      rw [hset, hnew, hunsent, List.append_assoc]
    · obtain rfl := Nat.eq_zero_of_not_pos hn
      rw [unsent_setTask_of_eq ht' hpos hnew, slice_zero, List.append_nil]
  | goesOn he hpos hunfed hnew hnew' hs =>
    obtain ⟨hdrained, hsent, -, -⟩ := hs.bytes
    refine ⟨[], by rw [hdrained, List.append_nil], ?_⟩
    rw [hsent, hs.unsent, unsent_setTask_of_eq ht hpos hnew, List.append_nil]
  | gaveUp he ho hpos hunfed hnew hs => exact absurd he hup
  | @received c t _ bytes hold hnew hnew' hs =>
    obtain ⟨hdrained, hsent, -, -⟩ := hs.bytes
    have hset := unsent_setTask_of_eq_zero (c := c) (t := t)
      (s := { s with
        buffer := store s.buffer 0 bytes
        received := s.received ++ bytes }) (ht.congr rfl rfl rfl rfl) hold.1 hnew
    have hstore : ({ s with
        buffer := store s.buffer 0 bytes
        received := s.received ++ bytes } : State).unsent = s.unsent := by
      by_cases hne : bytes = []
      · rw [hne, store_nil]
        rfl
      · exact unsent_store (s := { s with received := s.received ++ bytes }) (hex hne).2
    refine ⟨[], by rw [hdrained, List.append_nil], ?_⟩
    rw [hsent, hs.unsent, hset, hstore, List.append_nil]
  | @fed c t _ n written hpos hold hnew hall hs =>
    obtain ⟨hdrained, hsent, -, -⟩ := hs.bytes
    have hset := unsent_setTask_of_eq_zero (c := c) (t := t)
      (s := { s with fed := s.fed ++ slice s.buffer 0 n }) (ht.congr rfl rfl rfl rfl) hold
      hnew.1
    refine ⟨[], by rw [hdrained, List.append_nil], ?_⟩
    rw [hsent, hs.unsent, hset, List.append_nil]
    rfl

/-- So every byte stays where it should be. -/
theorem sent_of_moved (ht : Tracked s) (h : s.sent ++ s.unsent = s.drained)
    (hex : Exclusive s e) (hup : ¬ GivesUp s e) (hm : Moved s e s') :
    s'.sent ++ s'.unsent = s'.drained := by
  obtain ⟨bytes, hdrained, hsent⟩ := appended_of_moved ht hex hup hm
  rw [hsent, hdrained, h]

end Sending

/-! ## Towards the network BIO -/

section Feeding

variable {s s' : State} {e : Event}

theorem unfed_of_feeding_nil (h : s.feeding = []) : s.unfed = [] := by
  rw [State.unfed, h]
  rfl

/-- The only one that holds bytes to be fed. -/
theorem feeding_eq_singleton {c : CoroId} (hone : s.feeding.length ≤ 1)
    (hc : c ∈ s.feeding) : s.feeding = [c] := by
  cases hf : s.feeding with
  | nil =>
    rw [hf] at hc
    exact absurd hc (by simp)
  | cons a l =>
    rw [hf] at hone hc
    obtain rfl : l = [] := List.eq_nil_of_length_eq_zero (by simpa using hone)
    rw [List.mem_singleton.mp hc]

/-- A step of a coroutine that holds no bytes to be fed, and will hold
none. -/
theorem fed_of_sets {c : CoroId} {t : Task} (hs : Sets s c t s') (ht : Tracked s)
    (hold : s.unfedAt c = 0) (hnew : t.point.unfed = 0) (h : s.fed ++ s.unfed = s.received)
    (hone : s.feeding.length ≤ 1) :
    s'.fed ++ s'.unfed = s'.received ∧ s'.feeding.length ≤ 1 := by
  obtain ⟨-, -, hreceived, hfed⟩ := hs.bytes
  obtain ⟨hf, hu⟩ := unfed_setTask_of_eq_zero ht hold hnew
  rw [hreceived, hfed, hs.unfed, hu, hs.feeding, hf]
  exact ⟨h, hone⟩

/-- **A step feeds in order.** At most one coroutine holds bytes to be
fed. -/
theorem fed_of_moved (ht : Tracked s) (h : s.fed ++ s.unfed = s.received)
    (hone : s.feeding.length ≤ 1) (hex : Exclusive s e) (hall : TakesAll s e)
    (hm : Moved s e s') :
    s'.fed ++ s'.unfed = s'.received ∧ s'.feeding.length ≤ 1 := by
  cases hm with
  | rest hold hnew hs => exact fed_of_sets hs ht hold.2 hnew.2 h hone
  | @drained c t _ hne hold hnew hunfed hs read =>
    obtain ⟨-, -, hreceived, hfed⟩ := hs.bytes
    have hnil := (hex hne).1
    obtain ⟨hlen, hu⟩ := unfed_setTask_nil (c := c) (t := t) (s := { s with
      buffer := store s.buffer 0 s.outgoing
      drained := s.drained ++ s.outgoing }) hnil
    rw [hunfed, slice_zero] at hu
    rw [unfed_of_feeding_nil hnil] at h
    rw [hreceived, hfed, hs.unfed, hu, hs.feeding]
    exact ⟨h, hlen⟩
  | sent hpos hle hunfed hnew hnew' hs =>
    exact fed_of_sets hs (ht.congr rfl rfl rfl rfl) hunfed hnew' h hone
  | goesOn he hpos hunfed hnew hnew' hs => exact fed_of_sets hs ht hunfed hnew' h hone
  | gaveUp he ho hpos hunfed hnew hs =>
    exact fed_of_sets hs (ht.congr rfl rfl rfl rfl) hunfed hnew.2 h hone
  | @received c t _ bytes hold hnew hnew' hs =>
    obtain ⟨-, -, hreceived, hfed⟩ := hs.bytes
    -- the end of the stream stores nothing, whoever else uses the buffer
    by_cases hne : bytes = []
    · subst hne
      refine fed_of_sets hs (ht.congr rfl rfl rfl rfl) hold.2 hnew' ?_ hone
      show s.fed ++ s.unfed = s.received ++ []
      rw [List.append_nil, h]
    · have hnil := (hex hne).1
      obtain ⟨hlen, hu⟩ := unfed_setTask_nil (c := c) (t := t) (s := { s with
        buffer := store s.buffer 0 bytes
        received := s.received ++ bytes }) hnil
      rw [hnew', slice_store_self] at hu
      rw [unfed_of_feeding_nil hnil, List.append_nil] at h
      rw [hreceived, hfed, hs.unfed, hu, hs.feeding]
      exact ⟨congrArg (· ++ bytes) h, hlen⟩
  | @fed c t _ n written hpos hold hnew htakes hs =>
    obtain ⟨-, -, hreceived, hfed⟩ := hs.bytes
    have hc := feeding_eq_singleton hone ((ht.feeding c).mpr hpos)
    obtain ⟨hu, hf, hu'⟩ := unfed_setTask_singleton (t := t)
      (s := { s with fed := s.fed ++ slice s.buffer 0 n }) hc hnew.2
    have hu : s.unfed = slice s.buffer 0 (s.unfedAt c) := hu
    rw [hreceived, hfed, hs.unfed, hu', hs.feeding, hf, List.append_nil, htakes (hall hpos),
      ← hu]
    exact ⟨h, Nat.zero_le 1⟩

end Feeding

/-! ## Every run -/

/-- **As long as nothing fails and the buffer is used by one at a time, every
byte is where it should be**, in every run, whatever coroutines use the
connection. -/
theorem relayed_of_run {es : List Event} {s : State} (h : Run step Undisturbed init es s) :
    Relayed s := by
  have hinv := h.invariant
    (P := fun s => Tracked s ∧ s.sent ++ s.unsent = s.drained
      ∧ s.fed ++ s.unfed = s.received ∧ s.feeding.length ≤ 1)
    (fun s e s' hs hok he => by
      obtain ⟨ht, hsent, hfed, hone⟩ := hs
      obtain ⟨⟨hreads, htakes, hup⟩, hex⟩ := hok
      have hm := moved_of_step ht hreads he
      exact ⟨ht.moved hm, sent_of_moved ht hsent hex hup hm,
        fed_of_moved ht hfed hone hex htakes hm⟩)
    ⟨tracked_init, rfl, rfl, Nat.zero_le 1⟩
  exact ⟨hinv.2.1, hinv.2.2.1⟩

/-- A connection is established, and a coroutine begins to write: OpenSSL has
three bytes for the socket, which takes one of them. -/
def halfWritten : List Event :=
  [.call 0 .connect none, .resume 0 0, .ssl 0 1 SSL_ERROR_NONE 0 [],
    .call 1 (.writeSome 1) none, .ssl 1 (-1) SSL_ERROR_WANT_READ 0 [1, 2, 3], .bioRead 1 3,
    .write 1 1, .resume 1 0]

/-- Another coroutine begins to read, and waits for the socket. -/
def readsMeanwhile : List Event :=
  [.call 2 (.readSome 1) none, .ssl 2 (-1) SSL_ERROR_WANT_READ 0 [], .bioRead 2 0]

/-- The socket takes the rest before it has bytes for the other coroutine. -/
theorem relayed_of_run_readsMeanwhile :
    ∃ s, Run step Undisturbed init
        (halfWritten ++ readsMeanwhile ++ [.write 1 2, .read 2 [7, 8, 9], .resume 2 3]) s ∧
      s.sent = [1, 2, 3] ∧ s.fed = [7, 8, 9] ∧ Relayed s := by
  obtain ⟨s, hrun, htest⟩ := exists_run_of_exec step Undisturbed init
    (halfWritten ++ readsMeanwhile ++ [.write 1 2, .read 2 [7, 8, 9], .resume 2 3])
    (fun s => s.sent = [1, 2, 3] ∧ s.fed = [7, 8, 9]) (by decide)
  obtain ⟨hsent, hfed⟩ := of_decide_eq_true htest
  exact ⟨s, hrun, hsent, hfed, relayed_of_run hrun⟩

/-- The socket has bytes for the other coroutine first. They overwrite those
that are still to be sent, and it is they that are sent. -/
theorem sent_overwritten :
    ¬ ∀ es s, Run step Healthy init es s → s.sent <+: s.drained := by
  intro h
  obtain ⟨s, hrun, htest⟩ := exists_run_of_exec step Healthy init
    (halfWritten ++ readsMeanwhile ++ [.read 2 [7, 8, 9], .write 1 2])
    (fun s => s.sent = [1, 8, 9] ∧ s.drained = [1, 2, 3]) (by decide)
  obtain ⟨hsent, hdrained⟩ := of_decide_eq_true htest
  have hprefix := h _ s hrun
  rw [hsent, hdrained] at hprefix
  exact absurd hprefix (by decide)

end Tls
