import Mathlib.Algebra.Order.Ring.Nat
import Mathlib.Data.List.Nodup
import Mathlib.Logic.Function.Basic
import Mathlib.Tactic.Common

/-!
# A buffer that several parties hold spans of

A buffer is a function from positions to values. A party that has stored
values in it, or has still to take values out of it, holds a span: an offset
and a length. `slice` is what a span contains and `store` puts values into the
buffer, which leaves the spans before and behind them as they were.

The parties that hold something are listed in the order in which they began
to. `track` keeps such a list when one party changes what it holds: it joins
the end of the list, keeps its place, or leaves.
-/

namespace SharedBuffer

variable {α β : Type}

/-! ## Slices -/

/-- The contents of a span. -/
def slice (buffer : ℕ → β) (off len : ℕ) : List β := (List.range' off len).map buffer

/-- Put values into the buffer, from the position `off` on. -/
def store (buffer : ℕ → β) (off : ℕ) (l : List β) : ℕ → β := fun i =>
  if off ≤ i then l[i - off]?.getD (buffer i) else buffer i

section Slice

variable (buffer : ℕ → β) (l : List β) (off n m : ℕ)

@[simp] theorem slice_zero : slice buffer off 0 = [] := rfl

@[simp] theorem length_slice : (slice buffer off n).length = n := by simp [slice]

@[simp] theorem store_nil : store buffer off [] = buffer := by
  funext i
  simp [store]

/-- A span splits where a part of it has been taken out. -/
theorem slice_append : slice buffer off n ++ slice buffer (off + n) m
    = slice buffer off (n + m) := by
  unfold slice
  rw [← List.map_append, List.range'_append_1]

/-- What has been stored is there. -/
theorem slice_store_self : slice (store buffer off l) off l.length = l := by
  refine List.ext_getElem (by simp) (fun i _ hi => ?_)
  simp [slice, store, hi]

/-- Storing twice, the second time behind the first. -/
theorem store_append (l' : List β) :
    store (store buffer off l) (off + l.length) l' = store buffer off (l ++ l') := by
  funext i
  unfold store
  by_cases hbehind : off + l.length ≤ i
  · rw [if_pos hbehind, if_pos (by omega), if_pos (by omega), List.getElem?_append_right (by omega),
      List.getElem?_eq_none (show l.length ≤ i - off by omega), Nat.sub_add_eq]
    rfl
  · by_cases hoff : off ≤ i
    · rw [if_neg hbehind, if_pos hoff, if_pos hoff, List.getElem?_append_left (by omega)]
    · rw [if_neg hbehind, if_neg hoff, if_neg hoff]

/-- What has not been stored to is as it was. -/
theorem store_of_le {i : ℕ} (h : off + l.length ≤ i) : store buffer off l i = buffer i := by
  unfold store
  rw [if_pos (by omega), List.getElem?_eq_none (by omega)]
  rfl

/-- **Storing leaves the spans behind it.** -/
theorem slice_store_of_le {off off' : ℕ} (h : off + l.length ≤ off') :
    slice (store buffer off l) off' n = slice buffer off' n := by
  unfold slice
  refine List.map_congr_left (fun i hi => ?_)
  have hle : l.length ≤ i - off := by
    have := (List.mem_range'_1.mp hi).1
    omega
  simp [store, List.getElem?_eq_none hle]

/-- **Storing leaves the spans before it.** -/
theorem slice_store_of_ge {off off' : ℕ} (h : off' + n ≤ off) :
    slice (store buffer off l) off' n = slice buffer off' n := by
  unfold slice
  refine List.map_congr_left (fun i hi => ?_)
  have hlt : ¬ off ≤ i := by
    have := (List.mem_range'_1.mp hi).2
    omega
  simp [store, hlt]

end Slice

/-! ## The parties that hold something -/

section Track

variable [DecidableEq α]

/-- **The list of the holders** when `c` begins to hold something, goes on
holding something, or ends: `holds` is whether it does so then. -/
def track (c : α) (holds : Bool) (l : List α) : List α :=
  if holds then (if c ∈ l then l else l ++ [c]) else l.filter (fun a => a ≠ c)

variable {c : α} {l : List α}

theorem mem_track {holds : Bool} {a : α} :
    a ∈ track c holds l ↔ if a = c then holds = true else a ∈ l := by
  unfold track
  cases holds with
  | true =>
    by_cases hc : c ∈ l
    · by_cases ha : a = c
      · simp [hc, ha]
      · simp [hc, ha]
    · by_cases ha : a = c
      · simp [hc, ha]
      · simp [hc, ha]
  | false =>
    by_cases ha : a = c
    · simp [ha]
    · simp [ha]

theorem nodup_track {holds : Bool} (h : l.Nodup) : (track c holds l).Nodup := by
  unfold track
  cases holds with
  | true =>
    by_cases hc : c ∈ l
    · simpa [hc] using h
    · simp only [hc, if_true, if_false]
      exact List.Nodup.append h (List.nodup_singleton c) (by simpa using hc)
  | false => exact List.Nodup.filter _ h

/-- One that held nothing and holds nothing is not in the list. -/
theorem track_of_not_mem (h : c ∉ l) : track c false l = l := by
  unfold track
  rw [if_neg Bool.false_ne_true]
  exact List.filter_eq_self.mpr (fun a ha => by simpa using fun he : a = c => h (he ▸ ha))

/-- One that begins to hold something comes last. -/
theorem track_true_of_not_mem (h : c ∉ l) : track c true l = l ++ [c] := by
  simp [track, h]

/-- One that goes on holding something keeps its place. -/
theorem track_true_of_mem (h : c ∈ l) : track c true l = l := by simp [track, h]

/-- The first one leaves. -/
theorem track_false_cons (h : (c :: l).Nodup) : track c false (c :: l) = l := by
  have hc : c ∉ l := (List.nodup_cons.mp h).1
  unfold track
  rw [if_neg Bool.false_ne_true, List.filter_cons_of_neg (by simp)]
  exact List.filter_eq_self.mpr (fun a ha => by simpa using fun he : a = c => hc (he ▸ ha))

/-- **How much is held**, when the list has those that hold something, and
`c` comes to hold `n`. -/
theorem sum_track {f : α → ℕ} (hnodup : l.Nodup) (hl : ∀ a, a ∈ l ↔ 0 < f a) (n : ℕ) :
    ((track c (0 < n) l).map (Function.update f c n)).sum + f c = (l.map f).sum + n := by
  have hother : ∀ l' : List α, c ∉ l' → l'.map (Function.update f c n) = l'.map f :=
    fun l' hc => List.map_congr_left (fun a ha =>
      Function.update_of_ne (show a ≠ c from fun he => hc (he ▸ ha)) n f)
  by_cases hc : c ∈ l
  · obtain ⟨l₁, l₂, rfl⟩ := List.append_of_mem hc
    have hmid := List.nodup_middle.mp hnodup
    have hc' : c ∉ l₁ ++ l₂ := (List.nodup_cons.mp hmid).1
    have h₁ : c ∉ l₁ := fun h => hc' (List.mem_append_left _ h)
    have h₂ : c ∉ l₂ := fun h => hc' (List.mem_append_right _ h)
    by_cases hn : 0 < n
    · rw [show decide (0 < n) = true from decide_eq_true hn, track_true_of_mem hc]
      simp only [List.map_append, List.map_cons, hother l₁ h₁, hother l₂ h₂, List.sum_append,
        List.sum_cons, Function.update_self]
      omega
    · have hfilter : track c (0 < n) (l₁ ++ c :: l₂) = l₁ ++ l₂ := by
        rw [show decide (0 < n) = false from decide_eq_false hn]
        unfold track
        rw [if_neg Bool.false_ne_true, List.filter_append,
          List.filter_cons_of_neg (by simp), ← List.filter_append]
        exact List.filter_eq_self.mpr (fun a ha => by
          simpa using fun he : a = c => hc' (he ▸ ha))
      rw [hfilter, hother _ hc']
      simp only [List.map_append, List.map_cons, List.sum_append, List.sum_cons]
      omega
  · have hf : f c = 0 := Nat.eq_zero_of_not_pos (fun h => hc ((hl c).mpr h))
    by_cases hn : 0 < n
    · rw [show decide (0 < n) = true from decide_eq_true hn, track_true_of_not_mem hc,
        List.map_append, hother l hc]
      simp [hf]
    · rw [show decide (0 < n) = false from decide_eq_false hn, track_of_not_mem hc,
        hother l hc]
      omega

end Track

end SharedBuffer
