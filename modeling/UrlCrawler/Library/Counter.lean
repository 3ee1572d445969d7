import Mathlib.Data.List.Perm.Lattice
import Mathlib.Algebra.BigOperators.Group.List.Basic
import Mathlib.Algebra.GroupWithZero.Nat
import Mathlib.Logic.Function.Basic

/-! # Counters

How often each key has occurred, and the keys that have, in the order in which they first did.

* `Counter.increment` counts one more occurrence; `Counter.total` goes up by one.
* `Counter.entries` are the keys with their counts, `mem_entries` says which.
* `Counter.total_eq_sum` sums over any list that has all the keys.
-/
set_option autoImplicit false

/-- The keys are those with a count, each once. -/
structure Counter (κ : Type*) where
  keys : List κ
  count : κ → ℕ
  nodup : keys.Nodup
  mem_keys : ∀ key, key ∈ keys ↔ 0 < count key

namespace Counter
variable {κ : Type*}

instance : CoeFun (Counter κ) fun _ => κ → ℕ := ⟨count⟩

def empty : Counter κ where
  keys := []
  count _ := 0
  nodup := List.nodup_nil
  mem_keys _ := by simp

def total (c : Counter κ) : ℕ := (c.keys.map c).sum

def entries (c : Counter κ) : List (κ × ℕ) := c.keys.map fun key => (key, c key)

theorem keys_entries (c : Counter κ) : c.entries.map Prod.fst = c.keys := by
  simp [entries, Function.comp_def]

theorem mem_entries {c : Counter κ} {key : κ} {n : ℕ} :
    (key, n) ∈ c.entries ↔ 0 < n ∧ n = c key := by
  simp only [entries, List.mem_map, Prod.mk.injEq]
  constructor
  · rintro ⟨key', hmem, rfl, rfl⟩
    exact ⟨(c.mem_keys key').mp hmem, rfl⟩
  · rintro ⟨hpos, rfl⟩
    exact ⟨key, (c.mem_keys key).mpr hpos, rfl, rfl⟩

/-- A list with all the keys adds up to the total, whatever else is in it. -/
theorem total_eq_sum (c : Counter κ) {all : List κ} (hnodup : all.Nodup)
    (hall : ∀ key, 0 < c key → key ∈ all) : c.total = (all.map c).sum := by
  have hperm : c.keys.Perm (all.filter fun key => 0 < c key) := by
    refine (List.perm_ext_iff_of_nodup c.nodup (hnodup.filter _)).mpr fun key => ?_
    rw [c.mem_keys, List.mem_filter, decide_eq_true_eq]
    exact ⟨fun hpos => ⟨hall key hpos, hpos⟩, And.right⟩
  rw [total, (hperm.map c).sum_eq]
  clear hnodup hall hperm
  induction all with
  | nil => rfl
  | cons key all ih =>
    by_cases hpos : 0 < c key
    · rw [List.filter_cons_of_pos (by simpa using hpos), List.map_cons, List.sum_cons, ih,
        List.map_cons, List.sum_cons]
    · rw [List.filter_cons_of_neg (by simpa using hpos), ih, List.map_cons, List.sum_cons]
      omega

section
variable [DecidableEq κ]

/-- One more occurrence of a key. -/
def increment (c : Counter κ) (key : κ) : Counter κ where
  keys := if key ∈ c.keys then c.keys else c.keys ++ [key]
  count := Function.update c.count key (c.count key + 1)
  nodup := by
    split
    · exact c.nodup
    · rename_i hnew
      exact List.nodup_append.mpr ⟨c.nodup, List.nodup_singleton key, fun other hmem last hlast => by
        rintro rfl
        exact hnew (List.mem_singleton.mp hlast ▸ hmem)⟩
  mem_keys other := by
    have hkeys := c.mem_keys other
    by_cases hother : other = key
    · subst hother
      split <;> simp_all
    · rw [Function.update_of_ne hother, ← hkeys]
      split <;> simp [hother]

@[simp] theorem increment_self (c : Counter κ) (key : κ) : c.increment key key = c key + 1 :=
  Function.update_self ..

theorem increment_of_ne (c : Counter κ) {key other : κ} (h : other ≠ key) :
    c.increment key other = c other :=
  Function.update_of_ne h ..

theorem total_increment (c : Counter κ) (key : κ) : (c.increment key).total = c.total + 1 := by
  have hnodup := (c.increment key).nodup
  have hmem : key ∈ (c.increment key).keys := by
    rw [mem_keys, increment_self]
    exact Nat.succ_pos _
  have hall : ∀ other, 0 < c other → other ∈ (c.increment key).keys := by
    intro other hpos
    by_cases hother : other = key
    · rwa [hother]
    · rwa [mem_keys, increment_of_ne c hother]
  have hperm := List.perm_cons_erase hmem
  have hrest : ((c.increment key).keys.erase key).map (c.increment key) =
      ((c.increment key).keys.erase key).map c := by
    refine List.map_congr_left fun other hother => increment_of_ne c ?_
    exact (hnodup.mem_erase_iff.mp hother).1
  rw [c.total_eq_sum hnodup hall, total, (hperm.map (c.increment key)).sum_eq, (hperm.map c).sum_eq,
    List.map_cons, List.map_cons, List.sum_cons, List.sum_cons, hrest, increment_self]
  omega

end
end Counter
