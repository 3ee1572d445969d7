import Mathlib.Data.List.Basic

/-! # Incremental decoders

A decoder that is fed its input in pieces and asked for at most `limit` items of output a call, and for
at least one. What makes it incremental is that a call goes on where the last one stopped, unless that
gave all it was asked for. A call that has given all it was asked for may go on reading, and refuse what
it reads then.
-/
set_option autoImplicit false

namespace Incremental

variable {α β σ ε : Type*}

structure Lawful (decode : σ → List α → ℕ → Except ε (List β × σ)) : Prop where
  le : ∀ {s s' : σ} {a : List α} {out : List β} {limit : ℕ}, 1 ≤ limit →
    decode s a limit = .ok (out, s') → out.length ≤ limit
  resume : ∀ {s s' : σ} {a : List α} {out : List β} {limit : ℕ} (b : List α), 1 ≤ limit →
    decode s a limit = .ok (out, s') → out.length < limit →
      decode s (a ++ b) limit =
        (decode s' b (limit - out.length)).map fun (more, s') => (out ++ more, s')
  full : ∀ {s s' t : σ} {a b : List α} {out out' : List β} {limit : ℕ}, 1 ≤ limit →
    decode s a limit = .ok (out, s') → out.length = limit →
      decode s (a ++ b) limit = .ok (out', t) → out' = out
  refuse : ∀ {s : σ} {a : List α} {limit : ℕ} {e : ε} (b : List α), 1 ≤ limit →
    decode s a limit = .error e → decode s (a ++ b) limit = .error e

/-! ## Decoders that take one item at a time -/

section Step
variable (step : σ → α → Except ε (List β × σ))

/-- The state of the decoder is that of `step` with the output it still has to hand out. Input is
read until there is output that may not be handed out. -/
def decode : σ × List β → List α → ℕ → Except ε (List β × σ × List β)
  | (s, pending), [], limit => .ok (pending.take limit, s, pending.drop limit)
  | (s, pending), a :: rest, limit =>
    if limit < pending.length then .ok (pending.take limit, s, pending.drop limit)
    else
      match step s a with
      | .error e => .error e
      | .ok (out, s) => decode (s, pending ++ out) rest limit

variable {step}

theorem decode_pending {s : σ} {p q : List β} {input : List α} {limit : ℕ} (h : p.length ≤ limit) :
    decode step (s, p ++ q) input limit =
      (decode step (s, q) input (limit - p.length)).map fun (more, s') => (p ++ more, s') := by
  induction input generalizing s q with
  | nil =>
    rw [decode, decode, Except.map, List.take_append, List.drop_append, List.take_of_length_le h,
      List.drop_of_length_le h]
    rfl
  | cons a rest ih =>
    have hcut : limit < (p ++ q).length ↔ limit - p.length < q.length := by
      rw [List.length_append]
      omega
    rw [decode, decode]
    by_cases hfull : limit - p.length < q.length
    · rw [if_pos (hcut.mpr hfull), if_pos hfull, Except.map, List.take_append, List.drop_append,
        List.take_of_length_le h, List.drop_of_length_le h]
      rfl
    · rw [if_neg fun hc => hfull (hcut.mp hc), if_neg hfull]
      cases hstep : step s a with
      | error e => rfl
      | ok r =>
        dsimp only
        rw [List.append_assoc]
        exact ih

theorem decode_resume {d d' : σ × List β} {a : List α} {out : List β} {limit : ℕ} (b : List α)
    (h : decode step d a limit = .ok (out, d')) (hlt : out.length < limit) :
    decode step d (a ++ b) limit =
      (decode step d' b (limit - out.length)).map fun (more, d') => (out ++ more, d') := by
  obtain ⟨s, pending⟩ := d
  induction a generalizing s pending with
  | nil =>
    obtain ⟨rfl, rfl⟩ := Prod.mk.inj (Except.ok.inj h)
    have hshort : pending.length ≤ limit := by
      rw [List.length_take] at hlt
      omega
    rw [List.take_of_length_le hshort, List.drop_of_length_le hshort, List.nil_append]
    conv_lhs => rw [← List.append_nil pending]
    exact decode_pending hshort
  | cons a rest ih =>
    rw [decode] at h
    split at h
    · obtain ⟨rfl, rfl⟩ := Prod.mk.inj (Except.ok.inj h)
      rw [List.length_take] at hlt
      omega
    · rename_i hfull
      rw [List.cons_append, decode, if_neg hfull]
      cases hstep : step s a with
      | error e =>
        rw [hstep] at h
        cases h
      | ok r =>
        rw [hstep] at h
        exact ih _ _ h

/-- What is pending in excess of the limit is not added to. -/
theorem decode_over {s : σ} {pending : List β} {b : List α} {out : List β} {d : σ × List β}
    {limit : ℕ} (hfull : limit ≤ pending.length)
    (h : decode step (s, pending) b limit = .ok (out, d)) : out = pending.take limit := by
  induction b generalizing s pending with
  | nil => exact (Prod.mk.inj (Except.ok.inj h)).1.symm
  | cons a rest ih =>
    rw [decode] at h
    split at h
    · exact (Prod.mk.inj (Except.ok.inj h)).1.symm
    · cases hstep : step s a with
      | error e =>
        rw [hstep] at h
        cases h
      | ok r =>
        rw [hstep] at h
        have hlonger : limit ≤ (pending ++ r.1).length := by
          rw [List.length_append]
          omega
        rw [ih hlonger h, List.take_append_of_le_length hfull]

theorem decode_full {d d' e : σ × List β} {a b : List α} {out out' : List β} {limit : ℕ}
    (h : decode step d a limit = .ok (out, d')) (hlen : out.length = limit)
    (hmore : decode step d (a ++ b) limit = .ok (out', e)) : out' = out := by
  obtain ⟨s, pending⟩ := d
  induction a generalizing s pending with
  | nil =>
    obtain ⟨rfl, -⟩ := Prod.mk.inj (Except.ok.inj h)
    rw [List.length_take] at hlen
    exact decode_over (by omega) hmore
  | cons a rest ih =>
    rw [decode] at h
    rw [List.cons_append, decode] at hmore
    split at h
    · rename_i hfull
      rw [if_pos hfull] at hmore
      obtain ⟨rfl, -⟩ := Prod.mk.inj (Except.ok.inj h)
      exact (Prod.mk.inj (Except.ok.inj hmore)).1.symm
    · rename_i hfull
      rw [if_neg hfull] at hmore
      cases hstep : step s a with
      | error e =>
        rw [hstep] at h
        cases h
      | ok r =>
        rw [hstep] at h hmore
        exact ih _ _ h hmore

theorem decode_refuse {d : σ × List β} {a : List α} {limit : ℕ} {e : ε} (b : List α)
    (h : decode step d a limit = .error e) : decode step d (a ++ b) limit = .error e := by
  obtain ⟨s, pending⟩ := d
  induction a generalizing s pending with
  | nil => cases h
  | cons a rest ih =>
    rw [decode] at h
    rw [List.cons_append, decode]
    split at h
    · cases h
    · rename_i hfull
      rw [if_neg hfull]
      cases hstep : step s a with
      | error e' =>
        rw [hstep] at h
        exact h
      | ok r =>
        rw [hstep] at h
        exact ih _ _ h

theorem length_decode_le {d d' : σ × List β} {a : List α} {out : List β} {limit : ℕ}
    (h : decode step d a limit = .ok (out, d')) : out.length ≤ limit := by
  obtain ⟨s, pending⟩ := d
  induction a generalizing s pending with
  | nil =>
    obtain ⟨rfl, -⟩ := Prod.mk.inj (Except.ok.inj h)
    exact List.length_take_le _ _
  | cons a rest ih =>
    rw [decode] at h
    split at h
    · obtain ⟨rfl, -⟩ := Prod.mk.inj (Except.ok.inj h)
      exact List.length_take_le _ _
    · cases hstep : step s a with
      | error e =>
        rw [hstep] at h
        cases h
      | ok r =>
        rw [hstep] at h
        exact ih _ _ h

/-- Decoding one item at a time is incremental. -/
theorem lawful_decode : Lawful (decode step) where
  le := fun _ => length_decode_le
  resume := fun b _ => decode_resume b
  full := fun _ => decode_full
  refuse := fun b _ => decode_refuse b

end Step

end Incremental
