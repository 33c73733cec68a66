import Mathlib.Data.List.Sort
import Mathlib.Order.Basic
import Mathlib.Tactic.Common

/-!
# Ordered maps with default entries, and ordered multimaps

Two containers of the C++ standard library, with the properties their
users rely on.

`SubscriptMap κ ν` is a `std::map` used through its subscript: reading a
key that is absent gives the default value, and writing through a key
inserts it first. The keys are kept in increasing order, which is the order
the map is walked in, and a key once inserted stays until it is erased –
also when its value has gone back to the default.

`Multimap κ ν` is a `std::multimap`: entries in increasing order of their
keys, several of them with one key, and among those in the order they were
inserted. What a user of the container knows about a *value* is the list of
the keys it is filed under (`Multimap.keysOf`), and each operation changes
that list for one value only.
-/

variable {κ ν : Type} [LinearOrder κ]

/-! ## Maps read and written through the subscript -/

/-- **A map read and written through its subscript.** -/
structure SubscriptMap (κ ν : Type) [LinearOrder κ] [Inhabited ν] where
  /-- The keys that have been inserted, in increasing order. -/
  keys : List κ
  /-- The value the subscript gives, the default one where the key is
  absent. -/
  get : κ → ν
  /-- The keys are in order, and each is there once. -/
  sorted : keys.Pairwise (· < ·)
  /-- A key that was never inserted has the default value. -/
  get_of_notMem : ∀ k, k ∉ keys → get k = default

/-- Insert a key in its place in an increasing list, unless it is there. -/
def insertKey (k : κ) (ks : List κ) : List κ :=
  if k ∈ ks then ks else ks.orderedInsert (· ≤ ·) k

theorem mem_insertKey {k k' : κ} {ks : List κ} :
    k' ∈ insertKey k ks ↔ k' = k ∨ k' ∈ ks := by
  unfold insertKey
  split
  case isTrue h =>
    constructor
    · exact Or.inr
    · rintro (rfl | h')
      · exact h
      · exact h'
  case isFalse h => exact List.mem_orderedInsert _

theorem pairwise_insertKey {k : κ} {ks : List κ} (h : ks.Pairwise (· < ·)) :
    (insertKey k ks).Pairwise (· < ·) := by
  unfold insertKey
  split
  case isTrue hk => exact h
  case isFalse hk =>
    have hle : (ks.orderedInsert (· ≤ ·) k).Pairwise (· ≤ ·) :=
      (h.imp le_of_lt).orderedInsert k _
    have hnd : (ks.orderedInsert (· ≤ ·) k).Nodup :=
      (List.perm_orderedInsert _ k ks).nodup_iff.mpr
        (List.nodup_cons.mpr ⟨hk, h.imp ne_of_lt⟩)
    exact hle.imp₂ (fun _ _ hle hne => lt_of_le_of_ne hle hne) hnd

namespace SubscriptMap

variable [Inhabited ν]

/-- The map with no keys. -/
def empty : SubscriptMap κ ν where
  keys := []
  get := fun _ => default
  sorted := List.Pairwise.nil
  get_of_notMem := fun _ _ => rfl

/-- **Writing through the subscript**: the key is inserted if it is absent,
and its value replaced by `f` of what it was. -/
def modify (m : SubscriptMap κ ν) (k : κ) (f : ν → ν) : SubscriptMap κ ν where
  keys := insertKey k m.keys
  get := fun k' => if k' = k then f (m.get k) else m.get k'
  sorted := pairwise_insertKey m.sorted
  get_of_notMem := fun k' h => by
    have hk : k' ≠ k := fun h' => h (mem_insertKey.mpr (Or.inl h'))
    rw [if_neg hk]
    exact m.get_of_notMem k' (fun h' => h (mem_insertKey.mpr (Or.inr h')))

theorem get_modify (m : SubscriptMap κ ν) (k k' : κ) (f : ν → ν) :
    (m.modify k f).get k' = if k' = k then f (m.get k) else m.get k' := rfl

end SubscriptMap

/-! ## Multimaps -/

/-- **An ordered multimap**: entries in increasing order of the keys. -/
structure Multimap (κ ν : Type) [LinearOrder κ] where
  /-- The entries, in the order the map is walked in. -/
  entries : List (κ × ν)
  /-- They are in order of their keys. -/
  sorted : entries.Pairwise (fun a b => a.1 ≤ b.1)

namespace Multimap

/-- The multimap with no entries. -/
def empty : Multimap κ ν := ⟨[], List.Pairwise.nil⟩

/-- Insertion after every entry whose key is not larger. -/
def insertEntry (e : κ × ν) (l : List (κ × ν)) : List (κ × ν) :=
  l.orderedInsert (fun a b => a.1 < b.1) e

theorem pairwise_insertEntry {e : κ × ν} {l : List (κ × ν)}
    (h : l.Pairwise (fun a b => a.1 ≤ b.1)) :
    (insertEntry e l).Pairwise (fun a b => a.1 ≤ b.1) := by
  induction l with
  | nil => exact List.pairwise_singleton _ _
  | cons a l ih =>
    have ha := List.pairwise_cons.mp h
    unfold insertEntry
    rw [List.orderedInsert_cons]
    split
    case isTrue hlt =>
      refine List.pairwise_cons.mpr ⟨fun b hb => ?_, h⟩
      rcases List.mem_cons.mp hb with rfl | hb
      · exact le_of_lt hlt
      · exact le_trans (le_of_lt hlt) (ha.1 b hb)
    case isFalse hlt =>
      refine List.pairwise_cons.mpr ⟨fun b hb => ?_, ih ha.2⟩
      rcases (List.mem_orderedInsert _).mp hb with rfl | hb
      · exact le_of_not_gt hlt
      · exact ha.1 b hb

/-- **Inserting an entry**: it goes behind those with the same key. -/
def insert (m : Multimap κ ν) (k : κ) (v : ν) : Multimap κ ν :=
  ⟨insertEntry (k, v) m.entries, pairwise_insertEntry m.sorted⟩

/-- **Erasing the first entry with a given value**, if there is one. -/
def eraseFirst [DecidableEq ν] (m : Multimap κ ν) (v : ν) : Multimap κ ν :=
  ⟨m.entries.eraseP (fun e => e.2 = v), m.sorted.sublist List.eraseP_sublist⟩

/-- **Erasing the first entry.** -/
def eraseBegin (m : Multimap κ ν) : Multimap κ ν :=
  ⟨m.entries.tail, m.sorted.sublist (List.tail_sublist _)⟩

/-- What is inserted is there, and what was there before. -/
theorem mem_insert (m : Multimap κ ν) {k : κ} {v : ν} {e : κ × ν} :
    e ∈ (m.insert k v).entries ↔ e = (k, v) ∨ e ∈ m.entries :=
  List.mem_orderedInsert _

/-- **The keys a value is filed under.** -/
def keysOf [DecidableEq ν] (m : Multimap κ ν) (v : ν) : List κ :=
  (m.entries.filter (fun e => e.2 = v)).map Prod.fst

variable [DecidableEq ν] (m : Multimap κ ν) {k : κ} {v v' : ν}

omit [DecidableEq ν] in
theorem entries_insert : (m.insert k v).entries = insertEntry (k, v) m.entries := rfl

theorem entries_eraseFirst :
    (m.eraseFirst v).entries = m.entries.eraseP (fun e => e.2 = v) := rfl

omit [DecidableEq ν] in
theorem entries_eraseBegin : m.eraseBegin.entries = m.entries.tail := rfl

@[simp] theorem keysOf_empty : (empty : Multimap κ ν).keysOf v = [] := rfl

theorem keysOf_eq_nil_iff : m.keysOf v = [] ↔ ∀ k, (k, v) ∉ m.entries := by
  unfold keysOf
  rw [List.map_eq_nil_iff, List.filter_eq_nil_iff]
  constructor
  · intro h k hk
    exact h (k, v) hk (by simp)
  · rintro h ⟨k, v'⟩ he hv
    obtain rfl : v' = v := by simpa using hv
    exact h k he

/-- Inserting a value files it under one key more. -/
theorem perm_keysOf_insert_self : ((m.insert k v).keysOf v).Perm (k :: m.keysOf v) := by
  have hi : (insertEntry (k, v) m.entries).Perm ((k, v) :: m.entries) :=
    List.perm_orderedInsert _ _ _
  simpa [keysOf, entries_insert] using (hi.filter (fun e => e.2 = v)).map Prod.fst

/-- A value that is filed nowhere is filed under the key it is inserted
with. -/
theorem keysOf_insert_self (h : m.keysOf v = []) : (m.insert k v).keysOf v = [k] := by
  have hp := m.perm_keysOf_insert_self (k := k) (v := v)
  rw [h] at hp
  exact List.perm_singleton.mp hp

/-- Inserting one value leaves the keys of the others. -/
theorem keysOf_insert_of_ne (h : v' ≠ v) : (m.insert k v).keysOf v' = m.keysOf v' := by
  unfold keysOf
  rw [entries_insert]
  refine congrArg (List.map Prod.fst) ?_
  unfold insertEntry
  generalize m.entries = l
  induction l with
  | nil => simp [Ne.symm h]
  | cons a l ih =>
    rw [List.orderedInsert_cons]
    split
    · rw [List.filter_cons_of_neg (by simpa using Ne.symm h)]
    · rw [List.filter_cons, List.filter_cons, ih]

/-- Erasing the first entry of a value drops the first of its keys. -/
theorem keysOf_eraseFirst_self : (m.eraseFirst v).keysOf v = (m.keysOf v).tail := by
  unfold keysOf
  rw [entries_eraseFirst]
  generalize m.entries = l
  induction l with
  | nil => rfl
  | cons a l ih =>
    by_cases ha : a.2 = v
    · simp [ha]
    · simpa [ha] using ih

/-- Erasing the first entry of one value leaves the keys of the others. -/
theorem keysOf_eraseFirst_of_ne (h : v' ≠ v) :
    (m.eraseFirst v).keysOf v' = m.keysOf v' := by
  unfold keysOf
  rw [entries_eraseFirst]
  generalize m.entries = l
  induction l with
  | nil => rfl
  | cons a l ih =>
    by_cases ha : a.2 = v
    · simp [ha, Ne.symm h]
    · by_cases hv' : a.2 = v'
      · simpa [hv', h] using ih
      · simpa [ha, hv'] using ih

section EraseBegin

variable {m} {l : List (κ × ν)} (hm : m.entries = (k, v) :: l)
include hm

/-- Erasing the first entry drops the first key of its value. -/
theorem keysOf_eraseBegin_self : m.keysOf v = k :: m.eraseBegin.keysOf v := by
  simp [keysOf, entries_eraseBegin, hm]

/-- Erasing the first entry leaves the keys of the other values. -/
theorem keysOf_eraseBegin_of_ne (h : v' ≠ v) :
    m.eraseBegin.keysOf v' = m.keysOf v' := by
  simp [keysOf, entries_eraseBegin, hm, Ne.symm h]

end EraseBegin

end Multimap
