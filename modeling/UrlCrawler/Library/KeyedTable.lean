import Mathlib.Data.List.Basic
import Mathlib.Data.List.Nodup

/-! # Tables with a primary key

A relational table as the list of its rows, in no meaningful order, with the primary key constraint
carried by the structure: no two rows have the same key. `Update` is an SQL `UPDATE … SET … WHERE`
that leaves the key alone; `apply`, `insertIgnore` (`ON CONFLICT DO NOTHING`) and `deleteWhere` keep
the constraint by construction, so nothing that uses them proves it again.

Statements about a table are made through `lookup`; the `lookup_*` lemmas say what each
operation does to it.
-/
set_option autoImplicit false

/-- The rows of a table whose primary key is `key`. -/
structure KeyedTable (κ ρ : Type*) (key : ρ → κ) where
  rows : List ρ
  nodup : (rows.map key).Nodup

/-- `UPDATE … SET set WHERE matches`. -/
structure Update (κ ρ : Type*) (key : ρ → κ) where
  cond : ρ → Bool
  set : ρ → ρ
  set_key : ∀ r, key (set r) = key r

namespace Update
variable {κ ρ : Type*} {key : ρ → κ}

/-- What the statement makes of one row. -/
def onRow (u : Update κ ρ key) (r : ρ) : ρ := if u.cond r then u.set r else r

theorem onRow_key (u : Update κ ρ key) (r : ρ) : key (u.onRow r) = key r := by
  unfold onRow
  split
  · exact u.set_key r
  · rfl

theorem onRow_of_cond {u : Update κ ρ key} {r : ρ} (h : u.cond r = true) : u.onRow r = u.set r :=
  if_pos h

theorem onRow_of_not_cond {u : Update κ ρ key} {r : ρ} (h : u.cond r = false) : u.onRow r = r := by
  simp [onRow, h]

end Update

namespace KeyedTable
variable {κ ρ : Type*} {key : ρ → κ} [DecidableEq κ]

def empty : KeyedTable κ ρ key := ⟨[], List.nodup_nil⟩

/-- The row with primary key `k`. -/
def lookup (t : KeyedTable κ ρ key) (k : κ) : Option ρ := t.rows.find? fun r => key r = k

theorem lookup_key {t : KeyedTable κ ρ key} {k : κ} {r : ρ} (h : t.lookup k = some r) :
    key r = k := by
  simpa using List.find?_some h

theorem mem_of_lookup {t : KeyedTable κ ρ key} {k : κ} {r : ρ} (h : t.lookup k = some r) :
    r ∈ t.rows :=
  List.mem_of_find?_eq_some h

theorem find?_key_of_mem : ∀ {l : List ρ}, (l.map key).Nodup → ∀ {r : ρ}, r ∈ l →
    l.find? (fun x => key x = key r) = some r
  | [], _, _, h => by simp at h
  | x :: l, hn, r, h => by
      rw [List.map_cons, List.nodup_cons] at hn
      rcases List.mem_cons.mp h with rfl | hr
      · simp
      · have hne : key x ≠ key r := fun he => hn.1 (he ▸ List.mem_map_of_mem hr)
        rw [List.find?_cons_of_neg (by simpa using hne)]
        exact find?_key_of_mem hn.2 hr

theorem lookup_of_mem {t : KeyedTable κ ρ key} {r : ρ} (h : r ∈ t.rows) :
    t.lookup (key r) = some r :=
  find?_key_of_mem t.nodup h

theorem mem_rows_iff {t : KeyedTable κ ρ key} {r : ρ} :
    r ∈ t.rows ↔ t.lookup (key r) = some r :=
  ⟨lookup_of_mem, mem_of_lookup⟩

/-! ## `UPDATE` -/

/-- Run an `UPDATE`. -/
def apply (t : KeyedTable κ ρ key) (u : Update κ ρ key) : KeyedTable κ ρ key where
  rows := t.rows.map u.onRow
  nodup := by
    rw [List.map_map, show key ∘ u.onRow = key from funext u.onRow_key]
    exact t.nodup

/-- The rows an `UPDATE … RETURNING` gives back, before they are set. -/
def matching (t : KeyedTable κ ρ key) (u : Update κ ρ key) : List ρ := t.rows.filter u.cond

theorem lookup_apply (t : KeyedTable κ ρ key) (u : Update κ ρ key) (k : κ) :
    (t.apply u).lookup k = (t.lookup k).map u.onRow := by
  unfold lookup apply
  rw [List.find?_map]
  congr 2
  funext r
  simp [u.onRow_key]

/-- A statement that matches no row changes nothing. -/
theorem apply_of_not_matching {t : KeyedTable κ ρ key} {u : Update κ ρ key}
    (h : ∀ k r, t.lookup k = some r → u.cond r = false) : t.apply u = t := by
  obtain ⟨rows, nodup⟩ := t
  have hrows : rows.map u.onRow = rows := by
    refine (List.map_congr_left fun r hr => ?_).trans (List.map_id rows)
    exact Update.onRow_of_not_cond (h (key r) r (lookup_of_mem hr))
  simp only [apply, hrows]

theorem filter_of_key {p : ρ → Bool} {k : κ} (hp : ∀ r, p r = true → key r = k) :
    ∀ {l : List ρ}, (l.map key).Nodup →
      l.filter p = ((l.find? fun r => key r = k).filter p).toList
  | [], _ => rfl
  | x :: l, hn => by
      rw [List.map_cons, List.nodup_cons] at hn
      by_cases hx : key x = k
      · have hl : l.filter p = [] := by
          rw [List.filter_eq_nil_iff]
          intro r hr hpr
          exact hn.1 (hx.trans (hp r hpr).symm ▸ List.mem_map_of_mem hr)
        rw [List.find?_cons_of_pos (by simpa using hx), List.filter_cons, hl]
        cases hpx : p x <;> simp [Option.filter, hpx]
      · have hpx : p x = false := by
          cases h : p x with
          | false => rfl
          | true => exact absurd (hp x h) hx
        rw [List.find?_cons_of_neg (by simpa using hx), List.filter_cons, hpx]
        exact filter_of_key hp hn.2

/-- An `UPDATE` whose condition names a primary key gives back at most the row with that key. -/
theorem matching_of_key (t : KeyedTable κ ρ key) {u : Update κ ρ key} {k : κ}
    (hu : ∀ r, u.cond r = true → key r = k) :
    t.matching u = ((t.lookup k).filter u.cond).toList :=
  filter_of_key hu t.nodup

/-! ## `INSERT` -/

theorem lookup_eq_none_iff {t : KeyedTable κ ρ key} {k : κ} :
    t.lookup k = none ↔ k ∉ t.rows.map key := by
  unfold lookup
  rw [List.find?_eq_none, List.mem_map]
  constructor
  · rintro h ⟨r, hr, rfl⟩
    simpa using h r hr
  · intro h r hr
    simpa using fun he => h ⟨r, hr, he⟩

/-- `INSERT … ON CONFLICT DO NOTHING` for one row. -/
def insertIgnore (t : KeyedTable κ ρ key) (r : ρ) : KeyedTable κ ρ key :=
  if h : t.lookup (key r) = none then
    { rows := t.rows ++ [r]
      nodup := by
        rw [List.map_append, List.map_singleton]
        exact List.nodup_append.mpr ⟨t.nodup, List.nodup_singleton _, fun a ha b hb => by
          rw [List.mem_singleton.mp hb]
          exact fun he => lookup_eq_none_iff.mp h (he ▸ ha)⟩ }
  else t

theorem lookup_insertIgnore (t : KeyedTable κ ρ key) (r : ρ) (k : κ) :
    (t.insertIgnore r).lookup k =
      (t.lookup k).orElse fun _ => if key r = k then some r else none := by
  unfold insertIgnore
  split
  · rename_i h
    unfold lookup
    rw [List.find?_append]
    by_cases hk : key r = k
    · subst hk
      simp
    · simp [hk]
  · rename_i h
    by_cases hk : key r = k
    · subst hk
      obtain ⟨x, hx⟩ := Option.ne_none_iff_exists'.mp h
      simp [hx]
    · simp [hk]

/-- `INSERT … VALUES …, … ON CONFLICT DO NOTHING`. -/
def insertAllIgnore (t : KeyedTable κ ρ key) (rs : List ρ) : KeyedTable κ ρ key :=
  rs.foldl insertIgnore t

theorem lookup_insertAllIgnore (t : KeyedTable κ ρ key) (rs : List ρ) (k : κ) :
    (t.insertAllIgnore rs).lookup k =
      (t.lookup k).orElse fun _ => rs.find? fun r => key r = k := by
  unfold insertAllIgnore
  induction rs generalizing t with
  | nil => simp
  | cons r rs ih =>
    rw [List.foldl_cons, ih, lookup_insertIgnore, List.find?_cons]
    by_cases hk : key r = k
    · cases t.lookup k <;> simp [hk]
    · cases t.lookup k <;> simp [hk]

/-! ## `DELETE` -/

/-- `DELETE … WHERE p`. -/
def deleteWhere (t : KeyedTable κ ρ key) (p : ρ → Bool) : KeyedTable κ ρ key where
  rows := t.rows.filter fun r => !p r
  nodup := (t.nodup.sublist (List.filter_sublist.map key))

theorem lookup_deleteWhere (t : KeyedTable κ ρ key) (p : κ → Bool) (k : κ) :
    (t.deleteWhere fun r => p (key r)).lookup k = if p k then none else t.lookup k := by
  unfold lookup deleteWhere
  rw [List.find?_filter]
  split
  · rename_i hp
    rw [List.find?_eq_none]
    rintro r - hr
    simp only [Bool.and_eq_true, Bool.not_eq_eq_eq_not, Bool.not_true, decide_eq_true_eq,
      Bool.decide_and] at hr
    simp [hr.2, hp] at hr
  · rename_i hp
    congr 1
    funext r
    by_cases hk : key r = k
    · simp [hk, hp]
    · simp [hk]

end KeyedTable
