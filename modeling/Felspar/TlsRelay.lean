import Felspar.TlsConnect

/-!
# What a step moves

The bytes of a TLS connection go from the network BIO through the buffer to
the socket, and from the socket through the buffer to the network BIO. On the
way they are held by the coroutine that took them out of the one and has not
yet put them into the other, in a span of the buffer. This module says what
each step of a connection moves: it drains the network BIO, the socket takes
bytes, it delivers bytes, bytes are fed to the network BIO, or nothing moves;
or a coroutine gives up and forgets what it holds (`moved_of_step`).
-/

namespace Tls

open SharedBuffer

/-! ## What is held -/

/-- The bytes the coroutine has drained and not sent. -/
def State.span (s : State) (c : CoroId) : ℕ × ℕ :=
  ((s.tasks c).map (fun t => t.point.unsent)).getD (0, 0)

/-- How many bytes the coroutine has received and not fed. -/
def State.unfedAt (s : State) (c : CoroId) : ℕ :=
  ((s.tasks c).map (fun t => t.point.unfed)).getD 0

/-- The bytes the coroutine holds to be sent. -/
def State.unsentOf (s : State) (c : CoroId) : List UInt8 :=
  slice s.buffer (s.span c).1 (s.span c).2

/-- The bytes the coroutine holds to be fed. -/
def State.unfedOf (s : State) (c : CoroId) : List UInt8 := slice s.buffer 0 (s.unfedAt c)

/-- **The bytes held to be sent**, in the order in which they were drained. -/
def State.unsent (s : State) : List UInt8 := s.draining.flatMap s.unsentOf

/-- **The bytes held to be fed.** -/
def State.unfed (s : State) : List UInt8 := s.feeding.flatMap s.unfedOf

theorem span_eq {s : State} {c : CoroId} {t : Task} {p : Point} (ht : s.tasks c = some t)
    (hp : t.point = p) : s.span c = p.unsent := by
  rw [State.span, ht, ← hp]
  rfl

theorem unfedAt_eq {s : State} {c : CoroId} {t : Task} {p : Point} (ht : s.tasks c = some t)
    (hp : t.point = p) : s.unfedAt c = p.unfed := by
  rw [State.unfedAt, ht, ← hp]
  rfl

/-- **The lists of the holders have those that hold something.** -/
structure Tracked (s : State) : Prop where
  draining_nodup : s.draining.Nodup
  draining : ∀ c, c ∈ s.draining ↔ 0 < (s.span c).2
  feeding_nodup : s.feeding.Nodup
  feeding : ∀ c, c ∈ s.feeding ↔ 0 < s.unfedAt c
  active : ∀ c, c ∈ s.active ↔ ∃ t, s.tasks c = some t ∧ t.point.inProgress = true

section SetTask

variable (s : State) (c a : CoroId) (t : Task)

theorem span_setTask :
    (s.setTask c t).span = Function.update s.span c t.point.unsent := by
  funext a
  unfold State.span
  rw [tasks_setTask]
  by_cases ha : a = c
  · rw [ha, Function.update_self, Function.update_self]
    rfl
  · rw [Function.update_of_ne ha, Function.update_of_ne ha]

theorem unfedAt_setTask :
    (s.setTask c t).unfedAt = Function.update s.unfedAt c t.point.unfed := by
  funext a
  unfold State.unfedAt
  rw [tasks_setTask]
  by_cases ha : a = c
  · rw [ha, Function.update_self, Function.update_self]
    rfl
  · rw [Function.update_of_ne ha, Function.update_of_ne ha]

theorem unsentOf_setTask : (s.setTask c t).unsentOf
    = Function.update s.unsentOf c (slice s.buffer t.point.unsent.1 t.point.unsent.2) := by
  funext a
  unfold State.unsentOf
  rw [span_setTask]
  by_cases ha : a = c
  · rw [ha, Function.update_self, Function.update_self]
    rfl
  · rw [Function.update_of_ne ha, Function.update_of_ne ha]
    rfl

/-- Setting a task keeps the lists of the holders. -/
theorem Tracked.setTask (h : Tracked s) : Tracked (s.setTask c t) where
  draining_nodup := nodup_track h.draining_nodup
  draining := fun a => by
    rw [span_setTask, show (s.setTask c t).draining = track c _ s.draining from rfl, mem_track]
    by_cases ha : a = c
    · simp [ha]
    · rw [if_neg ha, Function.update_of_ne ha]
      exact h.draining a
  feeding_nodup := nodup_track h.feeding_nodup
  feeding := fun a => by
    rw [unfedAt_setTask, show (s.setTask c t).feeding = track c _ s.feeding from rfl, mem_track]
    by_cases ha : a = c
    · simp [ha]
    · rw [if_neg ha, Function.update_of_ne ha]
      exact h.feeding a
  active := fun a => by
    rw [show (s.setTask c t).active = track c _ s.active from rfl, mem_track, tasks_setTask]
    by_cases ha : a = c
    · simp [ha]
    · rw [if_neg ha, Function.update_of_ne ha]
      exact h.active a

end SetTask

/-! ## The bytes to be sent, when a task is set -/

section Unsent

variable {s : State} {c : CoroId} {t : Task}

/-- The holders other than `c` hold what they held. -/
theorem flatMap_unsentOf_setTask {l : List CoroId} (hc : c ∉ l) :
    l.flatMap (s.setTask c t).unsentOf = l.flatMap s.unsentOf := by
  rw [unsentOf_setTask]
  exact List.flatMap_congr (fun a ha =>
    Function.update_of_ne (show a ≠ c from fun he => hc (he ▸ ha)) _ _)

/-- One that held nothing and holds nothing. -/
theorem unsent_setTask_of_eq_zero (h : Tracked s) (hold : (s.span c).2 = 0)
    (hnew : t.point.unsent.2 = 0) : (s.setTask c t).unsent = s.unsent := by
  have hc : c ∉ s.draining := fun hm => Nat.ne_of_gt ((h.draining c).mp hm) hold
  have hd : (s.setTask c t).draining = s.draining := by
    show track c (decide (0 < t.point.unsent.2)) s.draining = _
    rw [hnew]
    exact track_of_not_mem hc
  unfold State.unsent
  rw [hd, flatMap_unsentOf_setTask hc]

/-- One that begins to hold something comes last. -/
theorem unsent_setTask_of_pos (h : Tracked s) (hold : (s.span c).2 = 0)
    (hnew : 0 < t.point.unsent.2) :
    (s.setTask c t).unsent
      = s.unsent ++ slice s.buffer t.point.unsent.1 t.point.unsent.2 := by
  have hc : c ∉ s.draining := fun hm => Nat.ne_of_gt ((h.draining c).mp hm) hold
  have hd : (s.setTask c t).draining = s.draining ++ [c] := by
    show track c (decide (0 < t.point.unsent.2)) s.draining = _
    rw [decide_eq_true hnew]
    exact track_true_of_not_mem hc
  unfold State.unsent
  rw [hd, List.flatMap_append, flatMap_unsentOf_setTask hc, unsentOf_setTask]
  simp

/-- One that goes on holding the same bytes keeps its place. -/
theorem unsent_setTask_of_eq (h : Tracked s) (hold : 0 < (s.span c).2)
    (hnew : t.point.unsent = s.span c) : (s.setTask c t).unsent = s.unsent := by
  have hc : c ∈ s.draining := (h.draining c).mpr hold
  have hd : (s.setTask c t).draining = s.draining := by
    show track c (decide (0 < t.point.unsent.2)) s.draining = _
    rw [hnew, decide_eq_true hold]
    exact track_true_of_mem hc
  have hu : (s.setTask c t).unsentOf = s.unsentOf := by
    rw [unsentOf_setTask, hnew]
    exact Function.update_eq_self c s.unsentOf
  unfold State.unsent
  rw [hd, hu]

/-- **The first one** puts what it holds now in the place of what it held. -/
theorem unsent_setTask_head (h : Tracked s) (hhead : s.draining.head? = some c) :
    ∃ rest, s.unsent = s.unsentOf c ++ rest ∧ (s.setTask c t).unsent
      = slice s.buffer t.point.unsent.1 t.point.unsent.2 ++ rest := by
  obtain ⟨l, hl⟩ := List.head?_eq_some_iff.mp hhead
  have hnodup := h.draining_nodup
  rw [hl] at hnodup
  have hc : c ∉ l := (List.nodup_cons.mp hnodup).1
  refine ⟨l.flatMap s.unsentOf, by rw [State.unsent, hl, List.flatMap_cons], ?_⟩
  have hd : (s.setTask c t).draining = track c (decide (0 < t.point.unsent.2)) (c :: l) := by
    rw [← hl]
    rfl
  unfold State.unsent
  rw [hd]
  by_cases hpos : 0 < t.point.unsent.2
  · rw [decide_eq_true hpos, track_true_of_mem List.mem_cons_self, List.flatMap_cons,
      flatMap_unsentOf_setTask hc, unsentOf_setTask, Function.update_self]
  · rw [decide_eq_false hpos, track_false_cons hnodup, flatMap_unsentOf_setTask hc,
      Nat.eq_zero_of_not_pos hpos]
    rfl

/-- The number of bytes held to be sent. -/
theorem length_unsent (s : State) :
    s.unsent.length = (s.draining.map (fun c => (s.span c).2)).sum := by
  unfold State.unsent State.unsentOf
  rw [List.length_flatMap]
  simp

/-- **The number of bytes held to be sent**, when one coroutine comes to hold
others. -/
theorem length_unsent_setTask (h : Tracked s) :
    (s.setTask c t).unsent.length + (s.span c).2 = s.unsent.length + t.point.unsent.2 := by
  rw [length_unsent, length_unsent]
  have hspan : (fun a => ((s.setTask c t).span a).2)
      = Function.update (fun a => (s.span a).2) c t.point.unsent.2 := by
    rw [span_setTask]
    funext a
    by_cases ha : a = c
    · rw [ha, Function.update_self, Function.update_self]
    · rw [Function.update_of_ne ha, Function.update_of_ne ha]
  rw [hspan]
  exact sum_track (f := fun a => (s.span a).2) h.draining_nodup h.draining t.point.unsent.2

/-- **Storing in front of every span held** leaves what is held to be sent. -/
theorem unsent_store {l : List UInt8} (hl : ∀ c ∈ s.draining, l.length ≤ (s.span c).1) :
    ({ s with buffer := store s.buffer 0 l } : State).unsent = s.unsent :=
  List.flatMap_congr (fun c hc =>
    slice_store_of_le s.buffer l _ (le_of_eq_of_le (Nat.zero_add _) (hl c hc)))

end Unsent

/-! ## The bytes to be fed, when a task is set -/

section Unfed

variable {s : State} {c : CoroId} {t : Task}

theorem unfedOf_setTask : (s.setTask c t).unfedOf
    = Function.update s.unfedOf c (slice s.buffer 0 t.point.unfed) := by
  funext a
  unfold State.unfedOf
  rw [unfedAt_setTask]
  by_cases ha : a = c
  · rw [ha, Function.update_self, Function.update_self]
    rfl
  · rw [Function.update_of_ne ha, Function.update_of_ne ha]
    rfl

/-- One that held nothing and holds nothing. -/
theorem unfed_setTask_of_eq_zero (h : Tracked s) (hold : s.unfedAt c = 0)
    (hnew : t.point.unfed = 0) :
    (s.setTask c t).feeding = s.feeding ∧ (s.setTask c t).unfed = s.unfed := by
  have hc : c ∉ s.feeding := fun hm => Nat.ne_of_gt ((h.feeding c).mp hm) hold
  have hf : (s.setTask c t).feeding = s.feeding := by
    show track c (decide (0 < t.point.unfed)) s.feeding = _
    rw [hnew]
    exact track_of_not_mem hc
  refine ⟨hf, ?_⟩
  unfold State.unfed
  rw [hf, unfedOf_setTask]
  exact List.flatMap_congr (fun a ha =>
    Function.update_of_ne (show a ≠ c from fun he => hc (he ▸ ha)) _ _)

/-- The only one. -/
theorem unfed_setTask_nil (hnil : s.feeding = []) :
    (s.setTask c t).feeding.length ≤ 1
      ∧ (s.setTask c t).unfed = slice s.buffer 0 t.point.unfed := by
  have hf : (s.setTask c t).feeding = track c (decide (0 < t.point.unfed)) [] := by
    rw [← hnil]
    rfl
  unfold State.unfed
  rw [hf, unfedOf_setTask]
  by_cases hpos : 0 < t.point.unfed
  · rw [decide_eq_true hpos]
    simp [track]
  · rw [Nat.eq_zero_of_not_pos hpos]
    simp [track]

/-- The only one lets go of what it holds. -/
theorem unfed_setTask_singleton (hc : s.feeding = [c]) (hnew : t.point.unfed = 0) :
    s.unfed = s.unfedOf c ∧ (s.setTask c t).feeding = [] ∧ (s.setTask c t).unfed = [] := by
  have hf : (s.setTask c t).feeding = [] := by
    show track c (decide (0 < t.point.unfed)) s.feeding = _
    rw [hnew, hc]
    simp [track]
  refine ⟨by rw [State.unfed, hc]; simp, hf, ?_⟩
  rw [State.unfed, hf]
  rfl

end Unfed

/-! ## What a step moves -/

/-- The await that throws, or returns zero, is one of `write_all`. -/
def Obs.givesUp : Obs → Bool
  | .writeThrew _ _ => true
  | .wroteNothing _ => true
  | .readThrew _ _ => false

/-- A coroutine has given up what it was to write. -/
def State.gaveUp (s : State) : Bool := s.trace.any Obs.givesUp

/-- The socket has taken none of the span. -/
def Point.wroteNothing : Point → Bool
  | .wrote _ n _ _ => n = 0
  | _ => false

/-- The step gives up what a coroutine was to write: its `write_some` throws,
or has written nothing. -/
def GivesUp (s : State) : Event → Prop
  | .throw c _ => c ∈ s.draining
  | .resume c _ => (s.tasks c).any (fun t => t.point.wroteNothing) = true
  | _ => False

instance : DecidableRel GivesUp := fun s e =>
  match e with
  | .throw c _ => inferInstanceAs (Decidable (c ∈ s.draining))
  | .resume c _ =>
    inferInstanceAs (Decidable ((s.tasks c).any (fun t => t.point.wroteNothing) = true))
  | .call _ _ _ | .ssl _ _ _ _ _ | .bioRead _ _ | .write _ _ | .read _ _ =>
    inferInstanceAs (Decidable False)

/-- **The task of `c` is set**, and of the rest of the state nothing changes
that the bytes on their way depend on. -/
def Sets (s : State) (c : CoroId) (t : Task) (s' : State) : Prop :=
  ∃ outgoing incoming running phase trace, trace.any Obs.givesUp = s.gaveUp ∧
    s' = { s.setTask c t with
      outgoing := outgoing
      incoming := incoming
      running := running
      phase := phase
      trace := trace }

/-- The task holds no bytes. -/
def Point.Empty (p : Point) : Prop := p.unsent.2 = 0 ∧ p.unfed = 0

/-- The coroutine holds no bytes. -/
def State.Empty (s : State) (c : CoroId) : Prop := (s.span c).2 = 0 ∧ s.unfedAt c = 0

/-- **What a step moves.** -/
inductive Moved (s : State) : Event → State → Prop
  /-- Nothing moves. -/
  | rest {e : Event} {t : Task} {s' : State} (hold : s.Empty e.coro)
      (hnew : t.point.Empty) (hs : Sets s e.coro t s') : Moved s e s'
  /-- The network BIO is drained. -/
  | drained {c : CoroId} {t : Task} {s' : State} (hne : s.outgoing ≠ []) (hold : s.Empty c)
      (hnew : t.point.unsent = (0, s.outgoing.length)) (hunfed : t.point.unfed = 0)
      (hs : Sets { s with
        buffer := store s.buffer 0 s.outgoing
        drained := s.drained ++ s.outgoing } c t s') (read : Int) :
      Moved s (.bioRead c read) s'
  /-- The socket takes bytes. -/
  | sent {c : CoroId} {t : Task} {s' : State} {n : ℕ} (hpos : 0 < (s.span c).2)
      (hle : n ≤ (s.span c).2) (hunfed : s.unfedAt c = 0)
      (hnew : t.point.unsent = ((s.span c).1 + n, (s.span c).2 - n))
      (hnew' : t.point.unfed = 0)
      (hs : Sets { s with sent := s.sent ++ slice s.buffer (s.span c).1 n } c t s') :
      Moved s (.write c n) s'
  /-- `write_all` goes on with the rest of what it holds. -/
  | goesOn {e : Event} {t : Task} {s' : State} (he : ¬ GivesUp s e)
      (hpos : 0 < (s.span e.coro).2) (hunfed : s.unfedAt e.coro = 0)
      (hnew : t.point.unsent = s.span e.coro) (hnew' : t.point.unfed = 0)
      (hs : Sets s e.coro t s') : Moved s e s'
  /-- `write_all` gives up what it holds. -/
  | gaveUp {e : Event} {t : Task} {s' : State} {o : Obs} (he : GivesUp s e)
      (ho : o.givesUp = true) (hpos : 0 < (s.span e.coro).2) (hunfed : s.unfedAt e.coro = 0)
      (hnew : t.point.Empty) (hs : Sets (s.observe o) e.coro t s') : Moved s e s'
  /-- The socket has bytes, or is at the end of the stream. -/
  | received {c : CoroId} {t : Task} {s' : State} {bytes : List UInt8} (hold : s.Empty c)
      (hnew : t.point.unsent.2 = 0) (hnew' : t.point.unfed = bytes.length)
      (hs : Sets { s with
        buffer := store s.buffer 0 bytes
        received := s.received ++ bytes } c t s') : Moved s (.read c bytes) s'
  /-- The network BIO is fed. -/
  | fed {c : CoroId} {t : Task} {s' : State} {n : ℕ} {written : Int}
      (hpos : 0 < s.unfedAt c) (hold : (s.span c).2 = 0) (hnew : t.point.Empty)
      (hall : written = s.unfedAt c → n = s.unfedAt c)
      (hs : Sets { s with fed := s.fed ++ slice s.buffer 0 n } c t s') :
      Moved s (.resume c written) s'

/-- **The network BIO gives all it has** to a `BIO_read` that asks for it. -/
def ReadsAll (s : State) : Event → Prop
  | .bioRead _ read => read = s.outgoing.length
  | _ => True

instance : DecidableRel ReadsAll := fun s e =>
  match e with
  | .bioRead _ read => inferInstanceAs (Decidable (read = s.outgoing.length))
  | .call _ _ _ | .ssl _ _ _ _ _ | .write _ _ | .read _ _ | .resume _ _ | .throw _ _ =>
    inferInstanceAs (Decidable True)

section Sets

variable {s s' : State} {c : CoroId} {t : Task}

theorem Sets.unsent (hs : Sets s c t s') : s'.unsent = (s.setTask c t).unsent := by
  obtain ⟨_, _, _, _, _, -, rfl⟩ := hs
  rfl

theorem Sets.unfed (hs : Sets s c t s') : s'.unfed = (s.setTask c t).unfed := by
  obtain ⟨_, _, _, _, _, -, rfl⟩ := hs
  rfl

theorem Sets.feeding (hs : Sets s c t s') : s'.feeding = (s.setTask c t).feeding := by
  obtain ⟨_, _, _, _, _, -, rfl⟩ := hs
  rfl

/-- The bytes that have passed are the same. -/
theorem Sets.bytes (hs : Sets s c t s') : s'.drained = s.drained ∧ s'.sent = s.sent
    ∧ s'.received = s.received ∧ s'.fed = s.fed := by
  obtain ⟨_, _, _, _, _, -, rfl⟩ := hs
  exact ⟨rfl, rfl, rfl, rfl⟩

/-- Only the one whose task is set may come to be in an operation. -/
theorem Sets.mem_active (hs : Sets s c t s') {a : CoroId} (ha : a ∈ s'.active) :
    a ∈ s.active ∨ a = c := by
  obtain ⟨_, _, _, _, _, -, rfl⟩ := hs
  have ha : a ∈ track c t.point.inProgress s.active := ha
  rw [mem_track] at ha
  by_cases hac : a = c
  · exact Or.inr hac
  · exact Or.inl (by rwa [if_neg hac] at ha)

theorem Sets.gaveUp (hs : Sets s c t s') : s'.gaveUp = s.gaveUp := by
  obtain ⟨_, _, _, _, _, htr, rfl⟩ := hs
  exact htr

/-- A coroutine goes on, is suspended, or ends. -/
theorem Sets.runAt (s : State) (c : CoroId) (t : Task) (p : Point) :
    Sets s c { t with point := p } (s.runAt c t p) := ⟨_, _, _, _, _, rfl, rfl⟩

theorem Sets.stopAt (s : State) (c : CoroId) (t : Task) (p : Point) :
    Sets s c { t with point := p } (s.stopAt c t p) := ⟨_, _, _, _, _, rfl, rfl⟩

/-- The points without bytes. -/
theorem sets_throwException (e : Exception) :
    ∃ t', t'.point.Empty ∧ Sets s c t' (throwException s c t e) :=
  ⟨_, ⟨rfl, rfl⟩, Sets.stopAt s c t _⟩

theorem sets_coReturn (ret : Int) :
    ∃ t', t'.point.Empty ∧ Sets s c t' (coReturn s c t ret) := by
  unfold coReturn
  dsimp only
  split
  · exact ⟨_, ⟨rfl, rfl⟩, ⟨_, _, _, _, _, rfl, rfl⟩⟩
  · exact ⟨_, ⟨rfl, rfl⟩, Sets.stopAt s c t _⟩

theorem sets_bioReadReturns (want : Want) :
    ∃ t', t'.point.Empty ∧ Sets s c t' (bioReadReturns s c t want) := by
  cases want with
  | read => exact ⟨_, ⟨rfl, rfl⟩, Sets.stopAt s c t _⟩
  | write => exact ⟨_, ⟨rfl, rfl⟩, Sets.runAt s c t _⟩

theorem sets_serviceOperation (result error : Int) :
    ∃ t', t'.point.Empty ∧ Sets s c t' (serviceOperation s c t result error) := by
  unfold serviceOperation
  dsimp only
  split_ifs
  · exact sets_coReturn _
  · exact ⟨_, ⟨rfl, rfl⟩, Sets.runAt s c _ _⟩
  · exact ⟨_, ⟨rfl, rfl⟩, Sets.runAt s c _ _⟩
  · exact sets_coReturn _
  · exact sets_throwException _

theorem sets_call (op : Op) (socket : Option Exception) :
    ∃ t', t'.point.Empty ∧ Sets s c t' (call s c op socket) := by
  unfold call
  split
  · split
    · exact ⟨_, ⟨rfl, rfl⟩, ⟨_, _, _, _, _, rfl, rfl⟩⟩
    · exact ⟨_, ⟨rfl, rfl⟩, ⟨_, _, _, _, _, rfl, rfl⟩⟩
  · exact ⟨_, ⟨rfl, rfl⟩, Sets.runAt s c _ _⟩

end Sets

section Moved

variable {s : State} {c : CoroId} {t : Task}

/-- A coroutine at a point without bytes holds none. -/
theorem empty_of_point {p : Point} (ht : s.tasks c = some t) (hp : t.point = p)
    (h : p.Empty) : s.Empty c :=
  ⟨by rw [span_eq ht hp]; exact h.1, by rw [unfedAt_eq ht hp]; exact h.2⟩

/-- A coroutine that is in no operation holds no bytes. -/
theorem empty_of_not_active (h : Tracked s) (hc : c ∉ s.active) : s.Empty c := by
  cases ht : s.tasks c with
  | none =>
    unfold State.Empty State.span State.unfedAt
    rw [ht]
    exact ⟨rfl, rfl⟩
  | some t =>
    cases hp : t.point with
    | returned result => exact empty_of_point ht hp ⟨rfl, rfl⟩
    | _ => exact absurd ((h.active c).mpr ⟨t, ht, by rw [hp]; rfl⟩) hc

/-- `bio_read`, when the network BIO gives all it has: it throws, or has
nothing to do, or drains the network BIO. -/
theorem moved_bioRead (ht : s.tasks c = some t) {want : Want}
    (hp : t.point = .bioRead want) {read : Int} (hread : read = s.outgoing.length) :
    Moved s (.bioRead c read) (bioRead s c t want read) := by
  have hold := empty_of_point ht hp ⟨rfl, rfl⟩
  by_cases hbig : bufferSize < s.outgoing.length
  · obtain ⟨t', hnew, hs⟩ := sets_throwException (s := s) (c := c) (t := t)
      (.logicError "Pending read BIO buffer too small")
    unfold bioRead
    rw [dif_pos hbig]
    exact Moved.rest hold hnew hs
  · by_cases hnil : s.outgoing = []
    · obtain ⟨t', hnew, hs⟩ := sets_bioReadReturns (s := s) (c := c) (t := t) want
      unfold bioRead
      rw [dif_neg hbig, if_pos hnil]
      exact Moved.rest hold hnew hs
    · have hpos : 0 < s.outgoing.length := List.length_pos_of_ne_nil hnil
      have heq : bioRead s c t want read = ({ s with
            outgoing := []
            buffer := store s.buffer 0 s.outgoing
            drained := s.drained ++ s.outgoing } : State).stopAt c t
          (.writing ⟨0, s.outgoing.length, hpos, by omega⟩ want) := by
        unfold bioRead
        rw [dif_neg hbig, if_neg hnil, if_neg (by omega), if_neg (not_not.mpr hread)]
        unfold writeAll bioDrain
        rw [dif_pos hpos, hread]
        simp
      rw [heq]
      exact Moved.drained hnil hold rfl rfl ⟨_, _, _, _, _, rfl, rfl⟩ read

/-- `write_all` is resumed: it goes on, has come to the end, or gives up. -/
theorem moved_writeSomeReturns (ht : s.tasks c = some t) {span : Span} {n : ℕ}
    {le : n ≤ span.len} {want : Want} (hp : t.point = .wrote span n le want)
    (written : Int) :
    Moved s (.resume c written) (writeSomeReturns s c t want span n le) := by
  have hspan : s.span c = (span.off + n, span.len - n) := span_eq ht hp
  have hunfed : s.unfedAt c = 0 := unfedAt_eq ht hp
  unfold writeSomeReturns
  by_cases hn : n = 0
  · obtain ⟨t', hnew, hs⟩ := sets_bioReadReturns (s := s.observe (.wroteNothing c)) (c := c)
      (t := t) want
    rw [if_pos hn]
    refine Moved.gaveUp (o := .wroteNothing c) ?_ rfl ?_ hunfed hnew hs
    · simp [GivesUp, ht, hp, Point.wroteNothing, hn]
    · have hpos := span.pos
      show 0 < (s.span c).2
      rw [hspan]
      show 0 < span.len - n
      omega
  · rw [if_neg hn]
    unfold writeAll
    by_cases hpos : 0 < span.len - n
    · rw [dif_pos hpos]
      have hpos' : 0 < (s.span c).2 := by
        rw [hspan]
        exact hpos
      refine Moved.goesOn ?_ hpos' hunfed ?_ ?_ (Sets.stopAt s c t _)
      · simp [GivesUp, ht, hp, Point.wroteNothing, hn]
      · exact hspan.symm
      · rfl
    · obtain ⟨t', hnew, hs⟩ := sets_bioReadReturns (s := s) (c := c) (t := t) want
      have hold : (s.span c).2 = 0 := by
        rw [hspan]
        show span.len - n = 0
        omega
      rw [dif_neg hpos]
      exact Moved.rest ⟨hold, hunfed⟩ hnew hs

/-- The end of `bio_write`: it feeds the network BIO, or the stream has
ended. -/
theorem moved_bioWrite (ht : s.tasks c = some t) {n : ℕ} (hp : t.point = .received n)
    {written : Int} : Moved s (.resume c written) (bioWrite s c t n written) := by
  have hspan : s.span c = (0, 0) := span_eq ht hp
  have hunfed : s.unfedAt c = n := unfedAt_eq ht hp
  have hold : (s.span c).2 = 0 := by rw [hspan]
  unfold bioWrite
  dsimp only
  by_cases hn : n = 0
  · obtain ⟨t', hnew, hs⟩ := sets_coReturn (s := s) (c := c)
      (t := { t with answers := .read n :: t.answers }) 0
    rw [if_pos hn]
    exact Moved.rest ⟨hold, hunfed.trans hn⟩ hnew hs
  · have hpos : 0 < s.unfedAt c := by rw [hunfed]; exact Nat.pos_of_ne_zero hn
    rw [if_neg hn]
    by_cases hneg : written < 0
    · rw [if_pos hneg]
      obtain ⟨t', hnew, hs⟩ := sets_throwException (s := s) (c := c)
        (t := { t with answers := .read n :: t.answers })
        (.runtimeError "Error writing to BIO")
      refine Moved.fed (n := 0) hpos hold hnew (fun he => by omega) ?_
      rw [slice_zero, List.append_nil]
      exact hs
    · rw [if_neg hneg]
      by_cases hall : written = n
      · rw [if_neg (not_not.mpr hall)]
        refine Moved.fed (n := n) hpos hold ⟨rfl, rfl⟩ (fun _ => hunfed.symm)
          ⟨_, _, _, _, _, rfl, rfl⟩
      · rw [if_pos hall]
        refine Moved.fed (n := written.toNat) hpos hold ⟨rfl, rfl⟩ (fun he => ?_)
          ⟨_, _, _, _, _, rfl, rfl⟩
        omega

end Moved

/-- **Every step moves bytes in one of these ways**, when the network BIO
gives all it has. -/
theorem moved_of_step {s s' : State} {e : Event} (h : Tracked s) (hok : ReadsAll s e)
    (hs : step s e = some s') : Moved s e s' := by
  cases stepped_of_step hs with
  | @call c hc op hop socket =>
    obtain ⟨t', hnew, hs⟩ := sets_call (s := s) (c := c) op socket
    exact Moved.rest (empty_of_not_active h hc) hnew hs
  | @ssl c t ht hp result error consumed produced =>
    obtain ⟨t', hnew, r, p, a, b, tr, htr, hs⟩ := sets_serviceOperation
      (s := sslTransfer s consumed produced) (c := c) (t := t) result error
    exact Moved.rest (t := t') (empty_of_point ht hp ⟨rfl, rfl⟩) hnew ⟨_, _, _, _, _, htr, hs⟩
  | @bioRead c t ht want hp read hread => exact moved_bioRead ht hp hok
  | @write c t ht span want hp n le =>
    have hspan : s.span c = (span.off, span.len) := span_eq ht hp
    refine Moved.sent (t := { t with point := .wrote span n le want }) ?_ ?_
      (unfedAt_eq ht hp) ?_ rfl ?_
    · rw [hspan]
      exact span.pos
    · rw [hspan]
      exact le
    · rw [hspan]
      rfl
    · rw [hspan]
      exact ⟨_, _, _, _, _, rfl, rfl⟩
  | @read c t ht hp bytes hle =>
    exact Moved.received (empty_of_point ht hp ⟨rfl, rfl⟩) rfl rfl ⟨_, _, _, _, _, rfl, rfl⟩
  | @connected c t ht hp written =>
    exact Moved.rest (empty_of_point ht hp ⟨rfl, rfl⟩) ⟨rfl, rfl⟩ (Sets.runAt s c t _)
  | @wrote c t ht span n le want hp written => exact moved_writeSomeReturns ht hp _
  | @received c t ht n hp written hle => exact moved_bioWrite ht hp
  | @connectThrew c t ht hp outcome =>
    exact Moved.rest (empty_of_point ht hp ⟨rfl, rfl⟩) ⟨rfl, rfl⟩ (Sets.stopAt s c t _)
  | @writeThrew c t ht span want hp outcome =>
    have hpos : 0 < (s.span c).2 := by
      rw [span_eq ht hp]
      exact span.pos
    exact Moved.gaveUp (o := .writeThrew c outcome) ((h.draining c).mpr hpos) rfl hpos
      (unfedAt_eq ht hp) ⟨rfl, rfl⟩ (Sets.stopAt (s.observe (.writeThrew c outcome)) c t _)
  | @readThrew c t ht hp outcome =>
    obtain ⟨t', hnew, r, p, a, b, tr, htr, hs⟩ := sets_throwException
      (s := s.observe (.readThrew c outcome)) (c := c) (t := t) outcome.throwException
    exact Moved.rest (t := t') (empty_of_point ht hp ⟨rfl, rfl⟩) hnew ⟨_, _, _, _, _, htr, hs⟩

/-! ## The lists of the holders in every run -/

section Tracked

variable {s s' : State}

/-- Setting a task keeps the lists of the holders. -/
theorem Sets.tracked {c : CoroId} {t : Task} (hs : Sets s c t s') (h : Tracked s) :
    Tracked s' := by
  obtain ⟨_, _, _, _, _, -, rfl⟩ := hs
  have h' := h.setTask s c t
  exact ⟨h'.draining_nodup, h'.draining, h'.feeding_nodup, h'.feeding, h'.active⟩

/-- The lists of the holders depend on nothing else. -/
theorem Tracked.congr (h : Tracked s) (ht : s'.tasks = s.tasks)
    (hd : s'.draining = s.draining) (hf : s'.feeding = s.feeding)
    (ha : s'.active = s.active) : Tracked s' := by
  have hspan : s'.span = s.span := by unfold State.span; rw [ht]
  have hunfed : s'.unfedAt = s.unfedAt := by unfold State.unfedAt; rw [ht]
  exact ⟨hd ▸ h.draining_nodup, by rw [hd, hspan]; exact h.draining, hf ▸ h.feeding_nodup,
    by rw [hf, hunfed]; exact h.feeding, by rw [ha, ht]; exact h.active⟩

/-- The number of bytes held to be sent, where a task is set and bytes have
passed. -/
theorem Sets.length_unsent {s₁ : State} {c : CoroId} {t : Task} (hs : Sets s₁ c t s')
    (h : Tracked s) (ht : s₁.tasks = s.tasks) (hd : s₁.draining = s.draining)
    (hf : s₁.feeding = s.feeding) (ha : s₁.active = s.active) :
    s'.unsent.length + (s.span c).2 = s.unsent.length + t.point.unsent.2 := by
  have hspan : s₁.span = s.span := by unfold State.span; rw [ht]
  have hlen : s₁.unsent.length = s.unsent.length := by
    rw [Tls.length_unsent, Tls.length_unsent, hspan, hd]
  rw [hs.unsent, ← hspan, ← hlen]
  exact length_unsent_setTask (h.congr ht hd hf ha)

/-- **Every step keeps the lists of the holders.** -/
theorem Tracked.moved {e : Event} (h : Tracked s) (hm : Moved s e s') : Tracked s' := by
  cases hm with
  | rest hold hnew hs => exact hs.tracked h
  | drained hne hold hnew hunfed hs read => exact hs.tracked (h.congr rfl rfl rfl rfl)
  | sent hpos hle hunfed hnew hnew' hs => exact hs.tracked (h.congr rfl rfl rfl rfl)
  | goesOn he hpos hunfed hnew hnew' hs => exact hs.tracked h
  | gaveUp he ho hpos hunfed hnew hs => exact hs.tracked (h.congr rfl rfl rfl rfl)
  | received hold hnew hnew' hs => exact hs.tracked (h.congr rfl rfl rfl rfl)
  | fed hpos hold hnew hall hs => exact hs.tracked (h.congr rfl rfl rfl rfl)

theorem tracked_init : Tracked init where
  draining_nodup := List.nodup_nil
  draining := fun c => by simp [init, State.span]
  feeding_nodup := List.nodup_nil
  feeding := fun c => by simp [init, State.unfedAt]
  active := fun c => by simp [init]

end Tracked

end Tls
