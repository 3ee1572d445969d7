import UrlCrawler.Core.Python

/-! # Reading a body up to a cap

`read_bounded` of `url_crawler/fetcher.py`. Two running totals, of the raw bytes read and of the bytes
decoded, bound what is fed to the inflater and what it is asked for; asked for 0 bytes, an inflater would
give back all it has.
-/
set_option autoImplicit false

namespace UrlCrawler

/-- `chunk[:n]`. -/
def sliceTo (chunk : List UInt8) (n : ℤ) : List UInt8 :=
  if 0 ≤ n then chunk.take n.toNat else chunk.take (chunk.length + n).toNat

/-- What the loop has read. -/
structure BodyRead (σ : Type) where
  inflater : Option σ
  body : List UInt8 := []
  rawBytes : ℕ := 0

/-- What happens in the loop: a call of the inflater, and the bytes accumulated after a chunk. -/
inductive ReadEvent
  | inflate (chunk : List UInt8) (maxLength : ℤ)
  | held (length : ℕ)
deriving DecidableEq, Repr

section Loop
variable {σ : Type} (inflate : σ → List UInt8 → ℤ → Except Exn (List UInt8 × σ)) (maxBytes : ℕ)

/-- The body of the loop, up to its `if`. -/
def BodyRead.read (r : BodyRead σ) (chunk : List UInt8) : List ReadEvent × Except Exn (BodyRead σ) :=
  let capped := sliceTo chunk (maxBytes - r.rawBytes)
  let rawBytes := r.rawBytes + chunk.length
  match r.inflater with
  | none => ([], .ok { r with body := r.body ++ capped, rawBytes })
  | some inflater =>
    let maxLength : ℤ := maxBytes + 1 - r.body.length
    ([.inflate capped maxLength], (inflate inflater capped maxLength).map fun (out, inflater) =>
      { inflater := some inflater, body := r.body ++ out, rawBytes })

/-- One of the totals has run past the cap. -/
def BodyRead.pastCap (r : BodyRead σ) : Bool := maxBytes < r.rawBytes || maxBytes < r.body.length

def readLoop (r : BodyRead σ) : List (List UInt8) → List ReadEvent × Except Exn (BodyRead σ × Bool)
  | [] => ([], .ok (r, false))
  | chunk :: rest =>
    match r.read inflate maxBytes chunk with
    | (calls, .error e) => (calls, .error e)
    | (calls, .ok r) =>
      if r.pastCap maxBytes then (calls ++ [.held r.body.length], .ok (r, true))
      else
        let (later, result) := readLoop r rest
        (calls ++ .held r.body.length :: later, result)

/-- `read_bounded`, with the inflater the content encoding asks for. -/
def readBounded (inflater : Option σ) (chunks : List (List UInt8)) : Except Exn (List UInt8 × Bool) :=
  (readLoop inflate maxBytes { inflater } chunks).2.map fun (r, past) =>
    (if past then r.body.take maxBytes else r.body, past)

end Loop

/-! ## One turn -/

section Bounds
variable {σ : Type} {inflate : σ → List UInt8 → ℤ → Except Exn (List UInt8 × σ)} {maxBytes : ℕ}

theorem sliceTo_sub {n m : ℕ} (h : m ≤ n) (chunk : List UInt8) :
    sliceTo chunk ((n : ℤ) - m) = chunk.take (n - m) := by
  rw [sliceTo, if_pos (by omega)]
  congr 1
  omega

/-- The state each turn of the loop starts from: the bytes `read` so far, of which nothing is missing
where there is no encoding, are within the cap, and so are the bytes decoded. -/
structure BodyRead.Within (maxBytes : ℕ) (read : List UInt8) (r : BodyRead σ) : Prop where
  raw : r.rawBytes = read.length
  read_le : read.length ≤ maxBytes
  body_le : r.body.length ≤ maxBytes
  plain : r.inflater = none → r.body = read

/-- Where there is no encoding, what fits of what has been read is kept. -/
theorem read_plain {read : List UInt8} {r : BodyRead σ} (h : r.Within maxBytes read)
    (hplain : r.inflater = none) (chunk : List UInt8) :
    (r.read inflate maxBytes chunk).2 = .ok
      { inflater := none, body := (read ++ chunk).take maxBytes,
        rawBytes := (read ++ chunk).length } := by
  rw [BodyRead.read, hplain, h.plain hplain, h.raw, sliceTo_sub h.read_le, List.take_append,
    List.take_of_length_le h.read_le, List.length_append]

theorem within_of_not_over {read : List UInt8} {r : BodyRead σ} (hover : r.pastCap maxBytes = false)
    (hraw : r.rawBytes = read.length) (hplain : r.inflater = none → r.body = read.take maxBytes) :
    r.Within maxBytes read := by
  simp only [BodyRead.pastCap, Bool.or_eq_false_iff, decide_eq_false_iff_not, not_lt] at hover
  have hle : read.length ≤ maxBytes := by omega
  exact ⟨hraw, hle, hover.2, fun h => (hplain h).trans (List.take_of_length_le hle)⟩

/-! ## The loop -/

theorem readLoop_cons (r : BodyRead σ) (chunk : List UInt8) (rest : List (List UInt8)) :
    readLoop inflate maxBytes r (chunk :: rest) =
      match (r.read inflate maxBytes chunk).2 with
      | .error e => ((r.read inflate maxBytes chunk).1, .error e)
      | .ok r' =>
        if r'.pastCap maxBytes then
          ((r.read inflate maxBytes chunk).1 ++ [.held r'.body.length], .ok (r', true))
        else ((r.read inflate maxBytes chunk).1 ++
          .held r'.body.length :: (readLoop inflate maxBytes r' rest).1,
            (readLoop inflate maxBytes r' rest).2) := by
  rw [readLoop]
  cases hread : r.read inflate maxBytes chunk with
  | mk calls result => cases result <;> rfl

/-- Without an encoding the loop keeps what fits of the stream. -/
theorem readLoop_plain {chunks : List (List UInt8)} :
    ∀ {read : List UInt8} {r : BodyRead σ}, r.Within maxBytes read → r.inflater = none →
      ((readLoop inflate maxBytes r chunks).2.map fun (r, past) =>
        (if past then r.body.take maxBytes else r.body, past)) =
        .ok ((read ++ chunks.flatten).take maxBytes,
          decide (maxBytes < (read ++ chunks.flatten).length)) := by
  induction chunks with
  | nil =>
    intro read r h hplain
    rw [List.flatten_nil, List.append_nil, List.take_of_length_le h.read_le,
      decide_eq_false (not_lt.mpr h.read_le), ← h.plain hplain]
    rfl
  | cons chunk rest ih =>
    intro read r h hplain
    rw [readLoop_cons, read_plain h hplain, List.flatten_cons, ← List.append_assoc]
    dsimp only
    split
    · rename_i hover
      have hlong : maxBytes < (read ++ chunk).length := by
        have htake := List.length_take_le maxBytes (read ++ chunk)
        rw [BodyRead.pastCap, Bool.or_eq_true, decide_eq_true_iff, decide_eq_true_iff] at hover
        dsimp only at hover
        omega
      have hall : maxBytes < (read ++ chunk ++ rest.flatten).length := by
        rw [List.length_append]
        omega
      rw [List.take_append_of_le_length hlong.le, decide_eq_true hall, Except.map]
      dsimp only
      rw [if_pos rfl, List.take_take, min_self]
    · rename_i hover
      exact ih (within_of_not_over (by simpa using hover) rfl fun _ => rfl) rfl

theorem readBounded_plain (chunks : List (List UInt8)) :
    readBounded inflate maxBytes none chunks =
      .ok (chunks.flatten.take maxBytes, decide (maxBytes < chunks.flatten.length)) := by
  have hstart : ({ inflater := none } : BodyRead σ).Within maxBytes [] :=
    ⟨rfl, Nat.zero_le _, Nat.zero_le _, fun _ => rfl⟩
  rw [readBounded, readLoop_plain hstart rfl, List.nil_append]

end Bounds

end UrlCrawler
