import Mathlib.Data.Finset.Insert
import Mathlib.Data.Set.Insert

/-! # Searches with a worklist

A search visits items that are told apart by their keys. It keeps the set of keys seen and the items
that are pending; an item that is done has had the keys of the items next to it put into the set,
and those that were new are pending in turn. Nothing is said about the order in which pending items
are taken, or about how many are worked on at a time.

* `Reach root` is the least set of keys that contains the root's and is closed under `next`.
* `Sound` says that only keys of `Reach` are seen, apart from those seen before the search began.
* `Search` says that nothing seen is lost and that what is done is closed under `next`.
* `Search.exact`: when nothing is pending, the keys of the items done are exactly these.
-/
set_option autoImplicit false

namespace Worklist
variable {U K : Type*} (key : U → K → Prop) (next : U → U → Prop)

/-- The keys of the items that are found from `root`. -/
inductive Reach (root : U) : K → Prop
  | root {k : K} : key root k → Reach root k
  | next {u v : U} {k k' : K} : Reach root k → key u k → next u v → key v k' → Reach root k'

/-- What is seen was there `before` or is found from the root, and so is what is pending. -/
structure Sound (root : U) (before : Set K) (seen : Finset K) (pending : List U) : Prop where
  seen : ∀ k ∈ seen, k ∈ before ∨ Reach key next root k
  pending : ∀ u ∈ pending, ∃ k, key u k ∧ Reach key next root k

/-- Every key seen belongs to an item that is done or pending, and every item next to one that is
done is seen. -/
structure Search (seen : Finset K) (done pending : List U) : Prop where
  covered : ∀ k ∈ seen, ∃ u ∈ done ++ pending, key u k
  closed : ∀ u ∈ done, ∀ v, next u v → ∃ k ∈ seen, key v k

variable {key next} {root : U} {before : Set K} {seen seen' : Finset K}
  {done done' pending pending' : List U}

theorem Sound.sub (h : Sound key next root before seen pending) (hsub : pending' ⊆ pending) :
    Sound key next root before seen pending' :=
  ⟨h.seen, fun u hu => h.pending u (hsub hu)⟩

/-- A new item next to one that was found is pending. -/
theorem Sound.discover [DecidableEq K] (h : Sound key next root before seen pending) {u v : U}
    {k k' : K} (hu : Reach key next root k) (huk : key u k) (hv : next u v) (hvk : key v k') :
    Sound key next root before (insert k' seen) (pending ++ [v]) where
  seen := fun k hk => by
    rcases Finset.mem_insert.mp hk with rfl | hk
    · exact .inr (hu.next huk hv hvk)
    · exact h.seen k hk
  pending := fun w hw => by
    rcases List.mem_append.mp hw with hw | hw
    · exact h.pending w hw
    · obtain rfl := List.mem_singleton.mp hw
      exact ⟨k', hvk, hu.next huk hv hvk⟩

theorem Search.sub (h : Search key next seen done pending)
    (hsub : done ++ pending ⊆ done' ++ pending') (hdone : done' ⊆ done) :
    Search key next seen done' pending' where
  covered := fun k hk => by
    obtain ⟨u, hu, huk⟩ := h.covered k hk
    exact ⟨u, hsub hu, huk⟩
  closed := fun u hu => h.closed u (hdone hu)

/-- With fewer items next to each other it is still a search. -/
theorem Search.mono {next' : U → U → Prop} (h : Search key next seen done pending)
    (hsub : ∀ u v, next' u v → next u v) : Search key next' seen done pending where
  covered := h.covered
  closed := fun u hu v hv => h.closed u hu v (hsub u v hv)

theorem Search.discover [DecidableEq K] (h : Search key next seen done pending) {v : U} {k : K}
    (hvk : key v k) : Search key next (insert k seen) done (pending ++ [v]) where
  covered := fun k' hk' => by
    rcases Finset.mem_insert.mp hk' with rfl | hk'
    · exact ⟨v, by simp, hvk⟩
    · obtain ⟨u, hu, huk⟩ := h.covered k' hk'
      refine ⟨u, ?_, huk⟩
      rw [← List.append_assoc]
      exact List.mem_append_left _ hu
  closed := fun u hu w hw => by
    obtain ⟨k', hk', hwk⟩ := h.closed u hu w hw
    exact ⟨k', Finset.mem_insert_of_mem hk', hwk⟩

/-- A pending item is done once all that is next to it is seen. -/
theorem Search.settle (h : Search key next seen done pending) {u : U}
    (hsub : pending ⊆ u :: pending') (hnext : ∀ v, next u v → ∃ k ∈ seen, key v k) :
    Search key next seen (done ++ [u]) pending' where
  covered := fun k hk => by
    obtain ⟨v, hv, hvk⟩ := h.covered k hk
    refine ⟨v, ?_, hvk⟩
    rcases List.mem_append.mp hv with hv | hv
    · simp [hv]
    · rcases List.mem_cons.mp (hsub hv) with rfl | hv
      · simp
      · simp [hv]
  closed := fun v hv w hw => by
    rcases List.mem_append.mp hv with hv | hv
    · exact h.closed v hv w hw
    · obtain rfl := List.mem_singleton.mp hv
      exact hnext w hw

section Complete
variable (functional : ∀ u k k', key u k → key u k' → k = k')
  (congruent : ∀ u v k, key u k → key v k → ∀ w, next u w → next v w)
include functional congruent

/-- When nothing is pending, everything that is found from an item done has been seen. -/
theorem Search.reach_seen (h : Search key next seen done []) {k : K}
    (hroot : ∀ k, key root k → k ∈ seen) (hk : Reach key next root k) : k ∈ seen := by
  induction hk with
  | root hk => exact hroot _ hk
  | next _ huk hv hvk ih =>
    obtain ⟨u', hu', hu'k⟩ := h.covered _ ih
    rw [List.append_nil] at hu'
    obtain ⟨k', hk', hvk'⟩ := h.closed u' hu' _ (congruent _ _ _ huk hu'k _ hv)
    exact functional _ _ _ hvk' hvk ▸ hk'

/-- A search with nothing pending has done exactly what was there before and what is found. -/
theorem Search.exact (h : Search key next seen done []) (hs : Sound key next root before seen [])
    (hbefore : ∀ k ∈ before, k ∈ seen) (hroot : ∀ k, key root k → k ∈ seen)
    (hdone : ∀ u ∈ done, ∃ k ∈ seen, key u k) (k : K) :
    (∃ u ∈ done, key u k) ↔ k ∈ before ∨ Reach key next root k := by
  constructor
  · rintro ⟨u, hu, huk⟩
    obtain ⟨k', hk', huk'⟩ := hdone u hu
    exact functional _ _ _ huk' huk ▸ hs.seen k' hk'
  · intro hk
    have hseen : k ∈ seen := by
      rcases hk with hk | hk
      · exact hbefore k hk
      · exact h.reach_seen functional congruent hroot hk
    obtain ⟨u, hu, huk⟩ := h.covered k hseen
    rw [List.append_nil] at hu
    exact ⟨u, hu, huk⟩

end Complete

end Worklist
