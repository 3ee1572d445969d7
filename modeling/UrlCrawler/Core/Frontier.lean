import UrlCrawler.Core.Urls
import Mathlib.Data.Finset.Insert

/-! # The frontier

`url_crawler/frontier.py`: a queue that takes each canonical key once. `unfinished` is the counter
`asyncio.Queue` keeps for `join`; only a worker that has taken a URL calls `task_done`, so it
never counts below zero.
-/
set_option autoImplicit false

namespace UrlCrawler

structure Frontier where
  queue : List Text := []
  seen : Finset Text := ∅
  duplicatesDropped : ℕ := 0
  unfinished : ℕ := 0

namespace Frontier

def add (u : Unicode) (f : Frontier) (url : Text) : Except Exn Frontier :=
  (canonicalKey u url).map fun key =>
    if key ∈ f.seen then { f with duplicatesDropped := f.duplicatesDropped + 1 }
    else
      { f with
        seen := insert key f.seen
        queue := f.queue ++ [url]
        unfinished := f.unfinished + 1 }

/-- Whether the key is new, and the frontier that has seen it. -/
def markSeen (u : Unicode) (f : Frontier) (url : Text) : Except Exn (Bool × Frontier) :=
  (canonicalKey u url).map fun key =>
    if key ∈ f.seen then (false, f) else (true, { f with seen := insert key f.seen })

def get (f : Frontier) : Option (Text × Frontier) :=
  match f.queue with
  | [] => none
  | url :: queue => some (url, { f with queue })

def taskDone (f : Frontier) : Frontier := { f with unfinished := f.unfinished - 1 }

variable {u : Unicode} {P : Text → Prop} {f f' f'' : Frontier}

/-! ## What `add` can do -/

/-- `f'` comes from `f` by adding URLs that satisfy `P`. -/
inductive Grows (u : Unicode) (P : Text → Prop) (f : Frontier) : Frontier → Prop
  | refl : Grows u P f f
  | dropped (f' : Frontier) (h : Grows u P f f') :
      Grows u P f { f' with duplicatesDropped := f'.duplicatesDropped + 1 }
  | added (f' : Frontier) (url key : Text) (h : Grows u P f f') (hurl : P url)
      (hkey : canonicalKey u url = .ok key) (hnew : key ∉ f'.seen) :
      Grows u P f
        { f' with
          seen := insert key f'.seen
          queue := f'.queue ++ [url]
          unfinished := f'.unfinished + 1 }

theorem Grows.trans (h : Grows u P f f') (h' : Grows u P f' f'') : Grows u P f f'' := by
  induction h' with
  | refl => exact h
  | dropped g _ ih => exact .dropped g ih
  | added g url key _ hurl hkey hnew ih => exact .added g url key ih hurl hkey hnew

theorem Grows.mono {Q : Text → Prop} (h : Grows u P f f') (hpq : ∀ url, P url → Q url) :
    Grows u Q f f' := by
  induction h with
  | refl => exact .refl
  | dropped g _ ih => exact .dropped g ih
  | added g url key _ hurl hkey hnew ih => exact .added g url key ih (hpq url hurl) hkey hnew

theorem Grows.seen_subset (h : Grows u P f f') : f.seen ⊆ f'.seen := by
  induction h with
  | refl => exact Finset.Subset.refl _
  | dropped g _ ih => exact ih
  | added g url key _ _ _ _ ih => exact ih.trans (Finset.subset_insert key g.seen)

theorem Grows.queue (h : Grows u P f f') : ∀ url ∈ f'.queue, url ∈ f.queue ∨ P url := by
  induction h with
  | refl => exact fun url hurl => .inl hurl
  | dropped g _ ih => exact ih
  | added g next key _ hnext _ _ ih =>
    intro url hurl
    rcases List.mem_append.mp hurl with hurl | hurl
    · exact ih url hurl
    · obtain rfl := List.mem_singleton.mp hurl
      exact .inr hnext

/-- `join` counts what was added. -/
theorem Grows.unfinished (h : Grows u P f f') :
    f'.unfinished + f.queue.length = f.unfinished + f'.queue.length := by
  induction h with
  | refl => rfl
  | dropped g _ ih => exact ih
  | added g url key _ _ _ _ ih =>
    simp only [List.length_append, List.length_singleton]
    omega

theorem add_grows {url : Text} (hurl : P url) (h : f.add u url = .ok f') : Grows u P f f' := by
  obtain ⟨key, hkey, rfl⟩ := map_eq_ok.mp h
  split
  · exact .dropped f .refl
  · rename_i hnew
    exact .added f url key .refl hurl hkey hnew

/-- After `add`, the key of the URL is seen. -/
theorem seen_of_add {url : Text} (h : f.add u url = .ok f') :
    ∃ key ∈ f'.seen, canonicalKey u url = .ok key := by
  obtain ⟨key, hkey, rfl⟩ := map_eq_ok.mp h
  refine ⟨key, ?_, hkey⟩
  split
  · assumption
  · exact Finset.mem_insert_self key f.seen

/-- A URL that is added is queued or dropped. -/
theorem offered_of_add {url : Text} (h : f.add u url = .ok f') :
    f'.duplicatesDropped + f'.queue.length = f.duplicatesDropped + f.queue.length + 1 := by
  obtain ⟨key, -, rfl⟩ := map_eq_ok.mp h
  split
  · simp only
    omega
  · simp only [List.length_append, List.length_singleton]
    omega

theorem markSeen_spec {url : Text} {new : Bool} (h : f.markSeen u url = .ok (new, f')) :
    f'.queue = f.queue ∧ f'.unfinished = f.unfinished ∧
      f'.duplicatesDropped = f.duplicatesDropped ∧ ∃ key, canonicalKey u url = .ok key ∧
        f'.seen = insert key f.seen ∧ (new = true ↔ key ∉ f.seen) := by
  obtain ⟨key, hkey, h⟩ := map_eq_ok.mp h
  split at h
  · rename_i hseen
    cases h
    exact ⟨rfl, rfl, rfl, key, hkey, (Finset.insert_eq_self.mpr hseen).symm, by simp [hseen]⟩
  · rename_i hseen
    cases h
    exact ⟨rfl, rfl, rfl, key, hkey, rfl, by simp [hseen]⟩

theorem get_spec {url : Text} (h : f.get = some (url, f')) :
    f.queue = url :: f'.queue ∧ f'.unfinished = f.unfinished ∧ f'.seen = f.seen := by
  unfold get at h
  split at h
  · cases h
  · rename_i next queue hq
    cases h
    exact ⟨hq, rfl, rfl⟩

/-! ## No key twice -/

/-- The URLs handed out so far and those in the queue have pairwise different keys, all of them
seen. -/
structure Fresh (u : Unicode) (issued : List Text) (f : Frontier) : Prop where
  distinct : (issued ++ f.queue).Pairwise fun a b => canonicalKey u a ≠ canonicalKey u b
  seen : ∀ url ∈ issued ++ f.queue, ∃ key ∈ f.seen, canonicalKey u url = .ok key

variable {issued issued' : List Text}

theorem Fresh.perm (h : Fresh u issued f) (hp : (issued ++ f.queue).Perm (issued' ++ f'.queue))
    (hseen : f.seen ⊆ f'.seen) : Fresh u issued' f' where
  distinct := (hp.pairwise_iff fun hab => hab.symm).mp h.distinct
  seen := fun url hurl => by
    obtain ⟨key, hkey, hok⟩ := h.seen url (hp.mem_iff.mpr hurl)
    exact ⟨key, hseen hkey, hok⟩

theorem Fresh.sublist (h : Fresh u issued f) (hs : issued'.Sublist issued) : Fresh u issued' f where
  distinct := h.distinct.sublist (hs.append_right f.queue)
  seen := fun url hurl => h.seen url ((hs.append_right f.queue).subset hurl)

/-- A URL whose key is not seen yet is one more. -/
theorem Fresh.insert (h : Fresh u issued f) {url key : Text} (hkey : canonicalKey u url = .ok key)
    (hnew : key ∉ f.seen) : Fresh u (url :: issued) { f with seen := insert key f.seen } where
  distinct := by
    refine List.Pairwise.cons (fun other hother he => ?_) h.distinct
    obtain ⟨key', hseen, hok⟩ := h.seen other hother
    obtain rfl := Except.ok.inj (hkey.symm.trans (he.trans hok))
    exact hnew hseen
  seen := fun other hother => by
    rcases List.mem_cons.mp hother with rfl | hother
    · exact ⟨key, Finset.mem_insert_self key f.seen, hkey⟩
    · obtain ⟨key', hseen, hok⟩ := h.seen other hother
      exact ⟨key', Finset.mem_insert_of_mem hseen, hok⟩

theorem Fresh.grows (h : Fresh u issued f) (hg : Grows u P f f') : Fresh u issued f' := by
  induction hg with
  | refl => exact h
  | dropped g _ ih => exact ⟨ih.distinct, ih.seen⟩
  | added g url key _ _ hkey hnew ih =>
    refine (ih.insert hkey hnew).perm ?_ (Finset.Subset.refl _)
    rw [List.cons_append, ← List.append_assoc]
    exact (List.perm_append_singleton url _).symm

theorem Fresh.markSeen (h : Fresh u issued f) {url : Text} {new : Bool}
    (hm : f.markSeen u url = .ok (new, f')) :
    Fresh u issued f' ∧ (new = true → Fresh u (url :: issued) f') := by
  obtain ⟨hqueue, -, -, key, hkey, hseen, hnew⟩ := markSeen_spec hm
  have hsub : f.seen ⊆ f'.seen := hseen ▸ Finset.subset_insert key f.seen
  refine ⟨h.perm (by rw [hqueue]) hsub, fun hn => ?_⟩
  refine (h.insert hkey (hnew.mp hn)).perm ?_ (hseen ▸ Finset.Subset.refl _)
  rw [hqueue]

theorem Fresh.get (h : Fresh u issued f) {url : Text} (hg : f.get = some (url, f')) :
    Fresh u (url :: issued) f' := by
  obtain ⟨hqueue, -, hseen⟩ := get_spec hg
  refine h.perm ?_ (hseen ▸ Finset.Subset.refl _)
  rw [hqueue]
  exact List.perm_middle

end Frontier

end UrlCrawler
