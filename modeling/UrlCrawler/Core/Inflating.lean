import UrlCrawler.Core.ReadBounded
import UrlCrawler.Library.Incremental
import Mathlib.Data.List.Infix

/-! # Chunk boundaries

`_Inflater` and `_inflater_for` of `url_crawler/fetcher.py`, and what `read_bounded` makes of a body under
each content encoding. zlib is a parameter, an incremental decoder. Two things depend on the chunks. The
retry of a raw deflate body is made on the first of them, which need not hold both bytes of a header. And
a body that is in error past the point where it has given too much is cut at a boundary between the two.
-/
set_option autoImplicit false

namespace UrlCrawler

/-- The module `zlib`: decompression objects by their `wbits`, and `decompress(data, max_length)`. -/
structure Zlib (σ : Type) where
  decompressobj : ℤ → σ
  decompress : σ → List UInt8 → ℤ → Except String (List UInt8 × σ)

/-- `zlib.MAX_WBITS`. -/
def maxWbits : ℤ := 15

/-- `_GZIP_WBITS`. -/
def gzipWbits : ℤ := 16 + maxWbits

def decodingError (text : String) : Exn := ⟨"DecodingError", text⟩

structure Inflater (σ : Type) where
  decompressor : σ
  fallbackWbits : Option ℤ

section Source
variable {σ : Type} (z : Zlib σ)

def Inflater.new (wbits : ℤ) (deflateFallback : Bool := false) : Inflater σ where
  decompressor := z.decompressobj wbits
  fallbackWbits := if deflateFallback then some (-maxWbits) else none

/-- `_decompress`. -/
def Inflater.decompress (decompressor : σ) (chunk : List UInt8) (maxLength : ℤ) :
    Except Exn (List UInt8 × Inflater σ) :=
  match z.decompress decompressor chunk maxLength with
  | .ok (out, decompressor) => .ok (out, { decompressor, fallbackWbits := none })
  | .error text => .error (decodingError text)

def Inflater.inflate (inflater : Inflater σ) (chunk : List UInt8) (maxLength : ℤ) :
    Except Exn (List UInt8 × Inflater σ) :=
  match inflater.fallbackWbits with
  | none => Inflater.decompress z inflater.decompressor chunk maxLength
  | some fallback =>
    match z.decompress inflater.decompressor chunk maxLength with
    | .ok (out, decompressor) => .ok (out, { decompressor, fallbackWbits := none })
    | .error _ => Inflater.decompress z (z.decompressobj fallback) chunk maxLength

def inflaterFor (u : Unicode) (contentEncoding : Text) : Except Exn (Option (Inflater σ)) :=
  let encoding := u.lower (strip contentEncoding)
  if encoding = "gzip".toList ∨ encoding = "x-gzip".toList then .ok (some (.new z gzipWbits))
  else if encoding = "deflate".toList then .ok (some (.new z maxWbits true))
  else if encoding = [] ∨ encoding = "identity".toList then .ok none
  else .error (decodingError
    ("unsupported content-encoding " ++ String.ofList (u.repr encoding)))

/-- `read_bounded` of a response with the given header and chunks. -/
def readResponse (u : Unicode) (contentEncoding : Text) (maxBytes : ℕ)
    (chunks : List (List UInt8)) : Except Exn (List UInt8 × Bool) := do
  let inflater ← inflaterFor z u contentEncoding
  readBounded (Inflater.inflate z) maxBytes inflater chunks

end Source

/-- A result up to the text of its exception. -/
def readOutcome {α : Type} (result : Except Exn α) : Except String α := result.mapError Exn.type

/-- What is documented of zlib: decompression goes on where it stopped, a new object gives nothing for
nothing, and one byte is too short for a header to be wrong. A `max_length` of 0 would set no limit, so
none of it is said of that. -/
structure Zlib.Documented {σ : Type} (z : Zlib σ) : Prop where
  lawful : Incremental.Lawful fun s bytes (limit : ℕ) => z.decompress s bytes limit
  nil : ∀ wbits (limit : ℕ), 1 ≤ limit → z.decompress (z.decompressobj wbits) [] limit =
    .ok ([], z.decompressobj wbits)
  header : ∀ byte (limit : ℕ), 1 ≤ limit →
    ∃ s, z.decompress (z.decompressobj maxWbits) [byte] limit = .ok ([], s)

/-! ## One decompression object -/

section Decoded
variable {σ : Type} {z : Zlib σ} {maxBytes : ℕ}

variable (z maxBytes) in
/-- What the whole body comes to, read in one piece by one decompression object: what is decoded of
what fits the cap, at most one byte too many, and whether a total runs past it. -/
def decoded (start : σ) (body : List UInt8) : Except String (List UInt8 × Bool) :=
  match z.decompress start (body.take maxBytes) ((maxBytes + 1 : ℕ) : ℤ) with
  | .error _ => .error "DecodingError"
  | .ok (out, _) => .ok (out, decide (maxBytes < body.length) || decide (maxBytes < out.length))

variable (z maxBytes) in
/-- The object is in error on some bytes. -/
def Refuses (start : σ) (bytes : List UInt8) : Prop :=
  ∃ text, z.decompress start bytes ((maxBytes + 1 : ℕ) : ℤ) = .error text

variable (z maxBytes) in
/-- The object makes more of some bytes than the cap allows. -/
def Exceeds (start : σ) (bytes : List UInt8) : Prop :=
  ∃ out s, z.decompress start bytes ((maxBytes + 1 : ℕ) : ℤ) = .ok (out, s) ∧ maxBytes < out.length

theorem Refuses.mono (hz : z.Documented) {start : σ} {part bytes : List UInt8} (hpart : part <+: bytes)
    (h : Refuses z maxBytes start part) : Refuses z maxBytes start bytes := by
  obtain ⟨rest, rfl⟩ := hpart
  obtain ⟨text, htext⟩ := h
  exact ⟨text, hz.lawful.refuse rest (Nat.le_add_left 1 maxBytes) htext⟩

theorem Exceeds.not_refuses {start : σ} {bytes : List UInt8} (h : Exceeds z maxBytes start bytes) :
    ¬Refuses z maxBytes start bytes := by
  rintro ⟨text, htext⟩
  obtain ⟨out, s, hok, -⟩ := h
  cases htext.symm.trans hok

theorem not_exceeds_nil (hz : z.Documented) (wbits : ℤ) :
    ¬Exceeds z maxBytes (z.decompressobj wbits) [] := by
  rintro ⟨out, s, hok, hlong⟩
  obtain ⟨rfl, -⟩ := Prod.mk.inj (Except.ok.inj (hok.symm.trans (hz.nil wbits _ (Nat.le_add_left 1 _))))
  exact Nat.not_lt_zero _ hlong

/-- What an object makes of more bytes, if it does not refuse them, when it has made enough already. -/
theorem decompress_exceeded (hz : z.Documented) {start s t : σ} {bytes rest out out' : List UInt8}
    (h : z.decompress start bytes ((maxBytes + 1 : ℕ) : ℤ) = .ok (out, s)) (hlong : maxBytes < out.length)
    (hmore : z.decompress start (bytes ++ rest) ((maxBytes + 1 : ℕ) : ℤ) = .ok (out', t)) :
    out' = out := by
  have hle := hz.lawful.le (Nat.le_add_left 1 maxBytes) h
  exact hz.lawful.full (Nat.le_add_left 1 maxBytes) h (by omega) hmore

/-- A turn of the loop feeds the object what the chunk adds to the capped body. -/
theorem read_decoded (hz : z.Documented) {start s : σ} {read : List UInt8}
    {r : BodyRead (Inflater σ)} (h : r.Within maxBytes read) (hr : r.inflater = some ⟨s, none⟩)
    (hread : z.decompress start read ((maxBytes + 1 : ℕ) : ℤ) = .ok (r.body, s)) (chunk : List UInt8) :
    match (r.read (Inflater.inflate z) maxBytes chunk).2 with
    | .error e => e.type = "DecodingError" ∧ ∃ text,
        z.decompress start ((read ++ chunk).take maxBytes) ((maxBytes + 1 : ℕ) : ℤ) = .error text
    | .ok r' => r'.rawBytes = (read ++ chunk).length ∧ ∃ s', r'.inflater = some ⟨s', none⟩ ∧
        z.decompress start ((read ++ chunk).take maxBytes) ((maxBytes + 1 : ℕ) : ℤ) =
          .ok (r'.body, s') := by
  have hbody := h.body_le
  have hlimit : ((maxBytes : ℤ) + 1 - r.body.length) = ((maxBytes + 1 - r.body.length : ℕ) : ℤ) := by
    omega
  have hresume := hz.lawful.resume (chunk.take (maxBytes - read.length))
    (Nat.le_add_left 1 maxBytes) hread (by omega)
  have hcapped : (read ++ chunk).take maxBytes = read ++ chunk.take (maxBytes - read.length) := by
    rw [List.take_append, List.take_of_length_le h.read_le]
  rw [hcapped, BodyRead.read, hr, h.raw, sliceTo_sub h.read_le, hlimit]
  dsimp only [Inflater.inflate, Inflater.decompress]
  cases hdecode : z.decompress s (chunk.take (maxBytes - read.length))
      ((maxBytes + 1 - r.body.length : ℕ) : ℤ) with
  | error text =>
    rw [hdecode] at hresume
    exact ⟨rfl, text, hresume⟩
  | ok result =>
    rw [hdecode] at hresume
    exact ⟨List.length_append.symm, result.2, rfl, hresume⟩

/-- The loop comes to what the whole body comes to, unless the object refuses the body and a chunk ends
where it has given too much already. -/
theorem readLoop_decoded (hz : z.Documented) {start : σ} {chunks : List (List UInt8)} :
    ∀ {read : List UInt8} {r : BodyRead (Inflater σ)} {s : σ}, r.Within maxBytes read →
      r.inflater = some ⟨s, none⟩ →
      z.decompress start read ((maxBytes + 1 : ℕ) : ℤ) = .ok (r.body, s) →
      (∀ n, 0 < n → Exceeds z maxBytes start ((read ++ (chunks.take n).flatten).take maxBytes) →
        ¬Refuses z maxBytes start ((read ++ chunks.flatten).take maxBytes)) →
      readOutcome ((readLoop (Inflater.inflate z) maxBytes r chunks).2.map fun (r, past) =>
        (r.body, past)) =
        decoded z maxBytes start (read ++ chunks.flatten) := by
  induction chunks with
  | nil =>
    intro read r s h hr hread _
    rw [List.flatten_nil, List.append_nil, decoded, List.take_of_length_le h.read_le, hread,
      decide_eq_false (not_lt.mpr h.read_le)]
    dsimp only
    rw [decide_eq_false (not_lt.mpr h.body_le)]
    rfl
  | cons chunk rest ih =>
    intro read r s h hr hread hends
    have hturn := read_decoded hz h hr hread chunk
    have hpart : (read ++ chunk).take maxBytes <+: (read ++ chunk ++ rest.flatten).take maxBytes :=
      List.IsPrefix.take (List.prefix_append _ _) maxBytes
    rw [List.flatten_cons, ← List.append_assoc] at hends ⊢
    rw [readLoop_cons]
    cases hr' : (r.read (Inflater.inflate z) maxBytes chunk).2 with
    | error e =>
      rw [hr'] at hturn
      obtain ⟨htype, hrefused⟩ := hturn
      obtain ⟨text, hall⟩ := Refuses.mono hz hpart hrefused
      rw [decoded, hall]
      exact congrArg Except.error htype
    | ok r' =>
      rw [hr'] at hturn
      obtain ⟨hraw, s', hs', hread'⟩ := hturn
      dsimp only
      by_cases hover : r'.pastCap maxBytes = true
      · -- past the cap: what is left of the body adds nothing to what is decoded
        have hpast : maxBytes < (read ++ chunk).length ∨ maxBytes < r'.body.length := by
          simpa [BodyRead.pastCap, hraw] using hover
        obtain ⟨s'', hall⟩ : ∃ s'', z.decompress start
            ((read ++ chunk ++ rest.flatten).take maxBytes) ((maxBytes + 1 : ℕ) : ℤ) =
              .ok (r'.body, s'') := by
          rcases hpast with hpast | hpast
          · rw [List.take_append_of_le_length hpast.le]
            exact ⟨s', hread'⟩
          · have hkept := hends 1 Nat.one_pos
            rw [List.take_succ_cons, List.take_zero, List.flatten_singleton] at hkept
            cases hwhole : z.decompress start ((read ++ chunk ++ rest.flatten).take maxBytes)
                ((maxBytes + 1 : ℕ) : ℤ) with
            | error text => exact absurd ⟨text, hwhole⟩ (hkept ⟨_, s', hread', hpast⟩)
            | ok result =>
              obtain ⟨more, hmore⟩ := hpart
              rw [← hmore] at hwhole
              exact ⟨result.2, congrArg _ (Prod.ext (decompress_exceeded hz hread' hpast hwhole) rfl)⟩
        have hlong : maxBytes < (read ++ chunk ++ rest.flatten).length ∨
            maxBytes < r'.body.length := by
          rw [List.length_append]
          omega
        rw [if_pos hover, decoded, hall]
        simpa [readOutcome, Except.map, Except.mapError] using hlong
      · have hnot : r'.pastCap maxBytes = false := by simpa using hover
        have hwithin := within_of_not_over hnot hraw fun hplain => by
          rw [hs'] at hplain
          cases hplain
        rw [List.take_of_length_le hwithin.read_le] at hread'
        rw [if_neg hover]
        refine ih hwithin hs' hread' fun n _ => ?_
        have hlater := hends (n + 1) (Nat.succ_pos n)
        rw [List.take_succ_cons, List.flatten_cons, ← List.append_assoc] at hlater
        exact hlater

/-- `body[:max_bytes]`, where a total has run past the cap. -/
def cutBody (maxBytes : ℕ) : List UInt8 × Bool → List UInt8 × Bool
  | (body, past) => (if past then body.take maxBytes else body, past)

theorem readOutcome_map {α β : Type} (result : Except Exn α) (f : α → β) :
    readOutcome (result.map f) = (readOutcome result).map f := by
  cases result <;> rfl

theorem readOutcome_decoded (hz : z.Documented) (wbits : ℤ) (chunks : List (List UInt8))
    (hends : ∀ n, 0 < n →
      Exceeds z maxBytes (z.decompressobj wbits) ((chunks.take n).flatten.take maxBytes) →
        ¬Refuses z maxBytes (z.decompressobj wbits) (chunks.flatten.take maxBytes)) :
    readOutcome (readBounded (Inflater.inflate z) maxBytes (some ⟨z.decompressobj wbits, none⟩) chunks) =
      (decoded z maxBytes (z.decompressobj wbits) chunks.flatten).map (cutBody maxBytes) := by
  have hstart : ({ inflater := some ⟨z.decompressobj wbits, none⟩ } : BodyRead (Inflater σ)).Within
      maxBytes [] := ⟨rfl, Nat.zero_le _, Nat.zero_le _, nofun⟩
  have hnil := hz.nil wbits (maxBytes + 1) (Nat.le_add_left 1 maxBytes)
  rw [← List.nil_append chunks.flatten, ← readLoop_decoded hz hstart rfl hnil hends,
    ← readOutcome_map, readBounded]
  cases (readLoop (Inflater.inflate z) maxBytes
    { inflater := some ⟨z.decompressobj wbits, none⟩ } chunks).2 <;> rfl

section First
variable (start : σ) (chunk : List UInt8) (rest : List (List UInt8))

/-- What the first chunk of a body leads to. -/
theorem read_first : ({ inflater := some ⟨start, none⟩ } : BodyRead (Inflater σ)).read
      (Inflater.inflate z) maxBytes chunk =
    ([.inflate (chunk.take maxBytes) (maxBytes + 1)],
      match z.decompress start (chunk.take maxBytes) ((maxBytes + 1 : ℕ) : ℤ) with
      | .error text => .error (decodingError text)
      | .ok (out, s) => .ok { inflater := some ⟨s, none⟩, body := out, rawBytes := chunk.length }) := by
  have hcapped : sliceTo chunk ((maxBytes : ℤ) - (0 : ℕ)) = chunk.take maxBytes :=
    sliceTo_sub (Nat.zero_le _) chunk
  have hlimit : (maxBytes : ℤ) + 1 - (0 : ℕ) = ((maxBytes + 1 : ℕ) : ℤ) := by omega
  simp only [BodyRead.read, List.length_nil, hcapped, hlimit, Inflater.inflate, Inflater.decompress,
    List.nil_append, Nat.zero_add]
  cases z.decompress start (chunk.take maxBytes) ((maxBytes + 1 : ℕ) : ℤ) <;> rfl

variable {start chunk}

theorem readOutcome_refused (h : Refuses z maxBytes start (chunk.take maxBytes)) :
    readOutcome (readBounded (Inflater.inflate z) maxBytes (some ⟨start, none⟩) (chunk :: rest)) =
      .error "DecodingError" := by
  obtain ⟨text, htext⟩ := h
  rw [readBounded, readLoop_cons, read_first, htext]
  rfl

theorem readOutcome_exceeded (h : Exceeds z maxBytes start (chunk.take maxBytes)) : ∃ body,
    readOutcome (readBounded (Inflater.inflate z) maxBytes (some ⟨start, none⟩) (chunk :: rest)) =
      .ok (body, true) := by
  obtain ⟨out, s, hok, hlong⟩ := h
  refine ⟨out.take maxBytes, ?_⟩
  rw [readBounded, readLoop_cons, read_first, hok]
  dsimp only
  rw [if_pos (by simp [BodyRead.pastCap, hlong])]
  rfl

end First

/-! ## The retry -/

theorem readLoop_congr {τ : Type} {inflate : τ → List UInt8 → ℤ → Except Exn (List UInt8 × τ)}
    {r r' : BodyRead τ} {chunk : List UInt8}
    (h : r.read inflate maxBytes chunk = r'.read inflate maxBytes chunk) (rest : List (List UInt8)) :
    readLoop inflate maxBytes r (chunk :: rest) = readLoop inflate maxBytes r' (chunk :: rest) := by
  rw [readLoop, readLoop, h]

variable (z maxBytes) in
/-- The first chunk alone says which object reads the body. -/
def firstWbits (wbits fallback : ℤ) (chunk : List UInt8) : ℤ :=
  match z.decompress (z.decompressobj wbits) (chunk.take maxBytes) ((maxBytes + 1 : ℕ) : ℤ) with
  | .ok _ => wbits
  | .error _ => fallback

theorem readBounded_retry (wbits fallback : ℤ) (chunk : List UInt8) (rest : List (List UInt8)) :
    readBounded (Inflater.inflate z) maxBytes (some ⟨z.decompressobj wbits, some fallback⟩)
        (chunk :: rest) =
      readBounded (Inflater.inflate z) maxBytes
        (some ⟨z.decompressobj (firstWbits z maxBytes wbits fallback chunk), none⟩)
        (chunk :: rest) := by
  have hcapped : sliceTo chunk ((maxBytes : ℤ) - (0 : ℕ)) = chunk.take maxBytes :=
    sliceTo_sub (Nat.zero_le _) chunk
  have hlimit : (maxBytes : ℤ) + 1 - (0 : ℕ) = ((maxBytes + 1 : ℕ) : ℤ) := by omega
  rw [readBounded, readBounded]
  refine congrArg (fun loop => Except.map _ (Prod.snd loop)) (readLoop_congr ?_ rest)
  simp only [BodyRead.read, List.length_nil, hcapped, hlimit, Inflater.inflate, firstWbits]
  cases hdecode : z.decompress (z.decompressobj wbits) (chunk.take maxBytes)
      ((maxBytes + 1 : ℕ) : ℤ) with
  | error text => rfl
  | ok r =>
    dsimp only
    rw [Inflater.decompress, hdecode]

variable (z maxBytes) in
/-- A raw deflate body, as far as it fits the cap: the decoder for wrapped ones refuses it. -/
def RawDeflate (body : List UInt8) : Prop :=
  (∃ text, z.decompress (z.decompressobj maxWbits) (body.take maxBytes) ((maxBytes + 1 : ℕ) : ℤ) =
      .error text) ∧
    ∃ r, z.decompress (z.decompressobj (-maxWbits)) (body.take maxBytes) ((maxBytes + 1 : ℕ) : ℤ) = .ok r

theorem firstWbits_cases (wbits fallback : ℤ) (chunk : List UInt8) :
    (firstWbits z maxBytes wbits fallback chunk = wbits ∧
      ¬Refuses z maxBytes (z.decompressobj wbits) (chunk.take maxBytes)) ∨
    (firstWbits z maxBytes wbits fallback chunk = fallback ∧
      Refuses z maxBytes (z.decompressobj wbits) (chunk.take maxBytes)) := by
  unfold firstWbits Refuses
  cases z.decompress (z.decompressobj wbits) (chunk.take maxBytes) ((maxBytes + 1 : ℕ) : ℤ) with
  | ok r => exact .inl ⟨rfl, nofun⟩
  | error text => exact .inr ⟨rfl, text, rfl⟩

/-! ## Bodies that it matters for -/

variable (z maxBytes) in
/-- A body that is in error, but only after a part that the same object makes too much of. -/
def Overrun (wbits : ℤ) (body : List UInt8) : Prop :=
  Refuses z maxBytes (z.decompressobj wbits) (body.take maxBytes) ∧
    ∃ part, part <+: body.take maxBytes ∧ Exceeds z maxBytes (z.decompressobj wbits) part

variable (z maxBytes) in
/-- A raw deflate body that is in error, but only after a part that is too much and is not taken for
wrapped. -/
def RawOverrun (body : List UInt8) : Prop :=
  Refuses z maxBytes (z.decompressobj (-maxWbits)) (body.take maxBytes) ∧
    ∃ part, part <+: body.take maxBytes ∧ Refuses z maxBytes (z.decompressobj maxWbits) part ∧
      Exceeds z maxBytes (z.decompressobj (-maxWbits)) part

variable (z maxBytes) in
/-- A body that comes to one thing in one chunk and to another in several. -/
def TwoReadings (inflater : Inflater σ) (body : List UInt8) : Prop :=
  body ≠ [] ∧ ∃ chunks : List (List UInt8), chunks.flatten = body ∧ (∀ chunk ∈ chunks, chunk ≠ []) ∧
    readOutcome (readBounded (Inflater.inflate z) maxBytes (some inflater) [body]) ≠
      readOutcome (readBounded (Inflater.inflate z) maxBytes (some inflater) chunks)

/-- The boundary after a part that is too much. -/
theorem exists_boundary (hz : z.Documented) {wbits : ℤ} {body part : List UInt8}
    (hpart : part <+: body.take maxBytes) (hover : Exceeds z maxBytes (z.decompressobj wbits) part)
    (hrefused : Refuses z maxBytes (z.decompressobj wbits) (body.take maxBytes)) :
    ∃ rest, body = part ++ rest ∧ part ≠ [] ∧ rest ≠ [] ∧ part.take maxBytes = part := by
  obtain ⟨⟨rest, rfl⟩, hlength⟩ := List.prefix_take_iff.mp hpart
  have htake := List.take_of_length_le hlength
  refine ⟨rest, rfl, ?_, ?_, htake⟩
  · rintro rfl
    exact not_exceeds_nil hz wbits hover
  · rintro rfl
    rw [List.append_nil, htake] at hrefused
    exact hover.not_refuses hrefused

/-- In one chunk the body is refused, and cut at the boundary it is not. -/
theorem Overrun.twoReadings (hz : z.Documented) {wbits : ℤ} {body : List UInt8}
    (h : Overrun z maxBytes wbits body) : TwoReadings z maxBytes ⟨z.decompressobj wbits, none⟩ body := by
  obtain ⟨hrefused, part, hpart, hover⟩ := h
  obtain ⟨rest, rfl, hne, hne', htake⟩ := exists_boundary hz hpart hover hrefused
  refine ⟨by simp [hne], [part, rest], by simp, by simp [hne, hne'], ?_⟩
  obtain ⟨read, hread⟩ := readOutcome_exceeded [rest] (htake.symm ▸ hover)
  rw [readOutcome_refused [] hrefused, hread]
  nofun

/-- One byte is no body that the decoder for wrapped ones refuses. -/
theorem Refuses.two_le (hz : z.Documented) {bytes : List UInt8}
    (h : Refuses z maxBytes (z.decompressobj maxWbits) bytes) :
    ∃ first second rest, bytes = first :: second :: rest := by
  obtain ⟨text, htext⟩ := h
  match bytes with
  | [] => cases (hz.nil maxWbits _ (Nat.le_add_left 1 maxBytes)).symm.trans htext
  | [byte] =>
    obtain ⟨s, hok⟩ := hz.header byte _ (Nat.le_add_left 1 maxBytes)
    cases hok.symm.trans htext
  | first :: second :: rest => exact ⟨first, second, rest, rfl⟩

/-- A body whose first byte comes alone is read as a wrapped one. -/
theorem readOutcome_firstByte (hz : z.Documented) {first : UInt8} {rest : List UInt8}
    (h : Refuses z maxBytes (z.decompressobj maxWbits) ((first :: rest).take maxBytes)) :
    readOutcome (readBounded (Inflater.inflate z) maxBytes (some (.new z maxWbits true))
      [[first], rest]) = .error "DecodingError" := by
  obtain ⟨a, b, more, hbytes⟩ := h.two_le hz
  have hcap : 2 ≤ maxBytes := by
    have hlength := congrArg List.length hbytes
    simp only [List.length_take, List.length_cons] at hlength
    omega
  have htake : [first].take maxBytes = [first] := List.take_of_length_le (by simp; omega)
  obtain ⟨s, hs⟩ := hz.header first (maxBytes + 1) (Nat.le_add_left 1 maxBytes)
  have hwrapped : firstWbits z maxBytes maxWbits (-maxWbits) [first] = maxWbits := by
    rw [firstWbits, htake, hs]
  have hstart : ({ inflater := some ⟨s, none⟩, body := [], rawBytes := 1 } :
      BodyRead (Inflater σ)).Within maxBytes [first] := ⟨rfl, by simp; omega, Nat.zero_le _, nofun⟩
  have hturn := read_decoded hz hstart rfl hs rest
  have hloop : readBounded (Inflater.inflate z) maxBytes (some (.new z maxWbits true))
      [[first], rest] = readBounded (Inflater.inflate z) maxBytes
        (some ⟨z.decompressobj maxWbits, none⟩) [[first], rest] := by
    have hretry := @readBounded_retry _ z maxBytes maxWbits (-maxWbits) [first] [rest]
    rw [hwrapped] at hretry
    exact hretry
  rw [hloop, readBounded, readLoop_cons, read_first, htake, hs]
  dsimp only
  rw [if_neg (by simp [BodyRead.pastCap]; omega)]
  dsimp only
  rw [readLoop_cons]
  cases hread : (BodyRead.read (Inflater.inflate z) maxBytes
      { inflater := some ⟨s, none⟩, body := [], rawBytes := 1 } rest).2 with
  | error e =>
    rw [hread] at hturn
    exact congrArg Except.error hturn.1
  | ok r =>
    rw [hread] at hturn
    obtain ⟨-, s', -, hok⟩ := hturn
    obtain ⟨text, htext⟩ := h
    cases hok.symm.trans htext

/-- Which object reads a deflate body. -/
theorem readOutcome_wrapped {chunk : List UInt8}
    (h : ¬Refuses z maxBytes (z.decompressobj maxWbits) (chunk.take maxBytes))
    (rest : List (List UInt8)) :
    readOutcome (readBounded (Inflater.inflate z) maxBytes (some (.new z maxWbits true))
        (chunk :: rest)) =
      readOutcome (readBounded (Inflater.inflate z) maxBytes
        (some ⟨z.decompressobj maxWbits, none⟩) (chunk :: rest)) := by
  obtain ⟨hwbits, -⟩ | ⟨-, hrefused⟩ :=
    @firstWbits_cases _ z maxBytes maxWbits (-maxWbits) chunk
  · have hretry := @readBounded_retry _ z maxBytes maxWbits (-maxWbits) chunk rest
    rw [hwbits] at hretry
    exact congrArg readOutcome hretry
  · exact absurd hrefused h

theorem readOutcome_raw {chunk : List UInt8}
    (h : Refuses z maxBytes (z.decompressobj maxWbits) (chunk.take maxBytes))
    (rest : List (List UInt8)) :
    readOutcome (readBounded (Inflater.inflate z) maxBytes (some (.new z maxWbits true))
        (chunk :: rest)) =
      readOutcome (readBounded (Inflater.inflate z) maxBytes
        (some ⟨z.decompressobj (-maxWbits), none⟩) (chunk :: rest)) := by
  obtain ⟨-, hnot⟩ | ⟨hwbits, -⟩ :=
    @firstWbits_cases _ z maxBytes maxWbits (-maxWbits) chunk
  · exact absurd h hnot
  · have hretry := @readBounded_retry _ z maxBytes maxWbits (-maxWbits) chunk rest
    rw [hwbits] at hretry
    exact congrArg readOutcome hretry

/-- A raw body is read when it comes in one chunk, and refused when its first byte comes alone. -/
theorem RawDeflate.twoReadings (hz : z.Documented) {body : List UInt8} (h : RawDeflate z maxBytes body) :
    TwoReadings z maxBytes (.new z maxWbits true) body := by
  obtain ⟨hwrapped, ⟨out, s⟩, hraw⟩ := h
  have hrefused : Refuses z maxBytes (z.decompressobj maxWbits) (body.take maxBytes) := hwrapped
  obtain ⟨first, second, rest, rfl⟩ := (hrefused.mono hz (List.take_prefix _ _)).two_le hz
  refine ⟨List.cons_ne_nil _ _, [[first], second :: rest], by simp, by simp, ?_⟩
  rw [readOutcome_firstByte hz hrefused, readOutcome_raw hrefused, readBounded, readLoop_cons, read_first,
    hraw]
  dsimp only
  split
  · intro heq
    cases heq
  · intro heq
    cases heq

/-- In one chunk a body that the decoder for wrapped ones refuses is refused, unless it is a raw one. -/
theorem readOutcome_whole {body : List UInt8} (hraw : ¬RawDeflate z maxBytes body)
    (h : Refuses z maxBytes (z.decompressobj maxWbits) (body.take maxBytes)) :
    readOutcome (readBounded (Inflater.inflate z) maxBytes (some (.new z maxWbits true)) [body]) =
      .error "DecodingError" := by
  rw [readOutcome_raw h]
  refine readOutcome_refused [] ?_
  cases hunwrapped : z.decompress (z.decompressobj (-maxWbits)) (body.take maxBytes)
      ((maxBytes + 1 : ℕ) : ℤ) with
  | ok r => exact absurd ⟨h, r, hunwrapped⟩ hraw
  | error text => exact ⟨text, hunwrapped⟩

theorem Overrun.twoReadings_deflate (hz : z.Documented) {body : List UInt8}
    (h : Overrun z maxBytes maxWbits body) : TwoReadings z maxBytes (.new z maxWbits true) body := by
  obtain ⟨hrefused, part, hpart, hover⟩ := h
  by_cases hraw : RawDeflate z maxBytes body
  · exact hraw.twoReadings hz
  · obtain ⟨rest, rfl, hne, hne', htake⟩ := exists_boundary hz hpart hover hrefused
    refine ⟨by simp [hne], [part, rest], by simp, by simp [hne, hne'], ?_⟩
    rw [← htake] at hover
    obtain ⟨read, hread⟩ := readOutcome_exceeded [rest] hover
    rw [readOutcome_whole hraw hrefused, readOutcome_wrapped hover.not_refuses, hread]
    nofun

theorem RawOverrun.twoReadings (hz : z.Documented) {body : List UInt8} (h : RawOverrun z maxBytes body) :
    TwoReadings z maxBytes (.new z maxWbits true) body := by
  obtain ⟨hrefused, part, hpart, hwrapped, hover⟩ := h
  obtain ⟨rest, rfl, hne, hne', htake⟩ := exists_boundary hz hpart hover hrefused
  refine ⟨by simp [hne], [part, rest], by simp, by simp [hne, hne'], ?_⟩
  rw [readOutcome_raw (hwrapped.mono hz hpart), readOutcome_refused [] hrefused]
  rw [← htake] at hover hwrapped
  obtain ⟨read, hread⟩ := readOutcome_exceeded [rest] hover
  rw [readOutcome_raw hwrapped, hread]
  nofun

/-! ## Bodies that it does not matter for -/

theorem prefix_of_take_chunks (chunks : List (List UInt8)) (n : ℕ) :
    (chunks.take n).flatten.take maxBytes <+: chunks.flatten.take maxBytes :=
  List.IsPrefix.take (List.take_prefix n chunks).flatten maxBytes

/-- A body that is not overrun comes to what it comes to in one piece. -/
theorem readOutcome_of_not_overrun (hz : z.Documented) {wbits : ℤ} {chunks : List (List UInt8)}
    (h : ¬Overrun z maxBytes wbits chunks.flatten) :
    readOutcome (readBounded (Inflater.inflate z) maxBytes (some ⟨z.decompressobj wbits, none⟩) chunks) =
      (decoded z maxBytes (z.decompressobj wbits) chunks.flatten).map (cutBody maxBytes) :=
  readOutcome_decoded hz wbits chunks fun n _ hover hrefused =>
    h ⟨hrefused, _, prefix_of_take_chunks chunks n, hover⟩

/-- Unless the body is a raw one or overrun, the decoder for wrapped ones gives the result, whatever the
first chunk. -/
theorem readOutcome_deflate (hz : z.Documented) {chunks : List (List UInt8)}
    (hraw : ¬RawDeflate z maxBytes chunks.flatten) (hover : ¬Overrun z maxBytes maxWbits chunks.flatten)
    (hrawOver : ¬RawOverrun z maxBytes chunks.flatten) :
    readOutcome (readBounded (Inflater.inflate z) maxBytes (some (.new z maxWbits true)) chunks) =
      (decoded z maxBytes (z.decompressobj maxWbits) chunks.flatten).map (cutBody maxBytes) := by
  cases chunks with
  | nil =>
    rw [List.flatten_nil, decoded, List.take_nil, hz.nil maxWbits _ (Nat.le_add_left 1 maxBytes)]
    rfl
  | cons chunk rest =>
    by_cases hfirst : Refuses z maxBytes (z.decompressobj maxWbits) (chunk.take maxBytes)
    · -- both decoders refuse the body, and no chunk ends where the one for raw bodies has too much
      have hpart (n : ℕ) (hpos : 0 < n) : chunk.take maxBytes <+:
          ((chunk :: rest).take n).flatten.take maxBytes := by
        obtain ⟨n, rfl⟩ := Nat.exists_eq_add_of_lt hpos
        rw [Nat.zero_add, List.take_succ_cons, List.flatten_cons]
        exact List.IsPrefix.take (List.prefix_append _ _) maxBytes
      have hwrapped := (hfirst.mono hz (hpart 1 Nat.one_pos)).mono hz (prefix_of_take_chunks _ 1)
      rw [readOutcome_raw hfirst, readOutcome_decoded hz]
      · cases hunwrapped : z.decompress (z.decompressobj (-maxWbits))
            ((chunk :: rest).flatten.take maxBytes) ((maxBytes + 1 : ℕ) : ℤ) with
        | ok r => exact absurd ⟨hwrapped, r, hunwrapped⟩ hraw
        | error text =>
          obtain ⟨text', htext'⟩ := hwrapped
          rw [decoded, decoded, htext', hunwrapped]
      · intro n hpos htoo hrefused
        exact hrawOver ⟨hrefused, _, prefix_of_take_chunks _ n, hfirst.mono hz (hpart n hpos), htoo⟩
    · rw [readOutcome_wrapped hfirst]
      exact readOutcome_of_not_overrun hz hover

/-! ## Every splitting of a body -/

variable (z maxBytes) in
/-- The result of reading `body` is one and the same for all its splittings into chunks that `ok`
admits. -/
def SameForAll (u : Unicode) (contentEncoding : Text) (ok : List UInt8 → Prop) (body : List UInt8) :
    Prop :=
  ∀ chunks chunks' : List (List UInt8), chunks.flatten = body → chunks'.flatten = body →
    (∀ chunk ∈ chunks, ok chunk) → (∀ chunk ∈ chunks', ok chunk) →
      readOutcome (readResponse z u contentEncoding maxBytes chunks) =
        readOutcome (readResponse z u contentEncoding maxBytes chunks')

variable (z maxBytes) in
/-- The bodies whose chunk boundaries matter: what the decoder is too late to refuse, and what it begins
to read as a wrapped body though it is a raw one. -/
def BoundariesMatter (u : Unicode) (contentEncoding : Text) (body : List UInt8) : Prop :=
  ((u.lower (strip contentEncoding) = "gzip".toList ∨
      u.lower (strip contentEncoding) = "x-gzip".toList) ∧ Overrun z maxBytes gzipWbits body) ∨
  (u.lower (strip contentEncoding) = "deflate".toList ∧
    (RawDeflate z maxBytes body ∨ Overrun z maxBytes maxWbits body ∨ RawOverrun z maxBytes body))

/-- What decides is the object that the header asks for. -/
theorem BoundariesMatter.twoReadings (hz : z.Documented) {u : Unicode} {contentEncoding : Text}
    {body : List UInt8} (h : BoundariesMatter z maxBytes u contentEncoding body) :
    ∃ inflater, inflaterFor z u contentEncoding = .ok (some inflater) ∧
      TwoReadings z maxBytes inflater body := by
  rcases h with ⟨hencoding, hover⟩ | ⟨hencoding, hbody⟩
  · exact ⟨_, by rw [inflaterFor, if_pos hencoding]; rfl, hover.twoReadings hz⟩
  · refine ⟨_, by rw [inflaterFor, hencoding]; rfl, ?_⟩
    rcases hbody with hraw | hover | hover
    · exact hraw.twoReadings hz
    · exact hover.twoReadings_deflate hz
    · exact hover.twoReadings hz

theorem readResponse_same (hz : z.Documented) {u : Unicode} {contentEncoding : Text}
    {body : List UInt8} (h : ¬BoundariesMatter z maxBytes u contentEncoding body) :
    ∃ result, ∀ chunks : List (List UInt8), chunks.flatten = body →
      readOutcome (readResponse z u contentEncoding maxBytes chunks) = result := by
  simp only [readResponse, inflaterFor]
  split
  · rename_i hencoding
    refine ⟨(decoded z maxBytes (z.decompressobj gzipWbits) body).map (cutBody maxBytes),
      fun chunks hchunks => ?_⟩
    subst hchunks
    exact readOutcome_of_not_overrun hz fun hover => h (.inl ⟨hencoding, hover⟩)
  split
  · rename_i hencoding
    refine ⟨(decoded z maxBytes (z.decompressobj maxWbits) body).map (cutBody maxBytes),
      fun chunks hchunks => ?_⟩
    subst hchunks
    exact readOutcome_deflate hz (fun hraw => h (.inr ⟨hencoding, .inl hraw⟩))
      (fun hover => h (.inr ⟨hencoding, .inr (.inl hover)⟩))
      fun hover => h (.inr ⟨hencoding, .inr (.inr hover)⟩)
  split
  · refine ⟨.ok (body.take maxBytes, decide (maxBytes < body.length)), fun chunks hchunks => ?_⟩
    subst hchunks
    exact congrArg readOutcome (readBounded_plain chunks)
  · exact ⟨_, fun _ _ => rfl⟩

/-- Chunk boundaries matter for these bodies and for no others; it makes no difference whether chunks may
be empty. -/
theorem readResponse_chunks (hz : z.Documented) (u : Unicode) (contentEncoding : Text)
    (body : List UInt8) :
    (SameForAll z maxBytes u contentEncoding (fun _ => True) body ↔
      ¬BoundariesMatter z maxBytes u contentEncoding body) ∧
    (SameForAll z maxBytes u contentEncoding (fun chunk => chunk ≠ []) body ↔
      ¬BoundariesMatter z maxBytes u contentEncoding body) := by
  have hdiffer : BoundariesMatter z maxBytes u contentEncoding body →
      ¬SameForAll z maxBytes u contentEncoding (fun chunk => chunk ≠ []) body := by
    intro h hall
    obtain ⟨inflater, hinflater, hne, chunks, hchunks, hnonempty, hdiffers⟩ := h.twoReadings hz
    have hsame := hall [body] chunks (by simp) hchunks (by simpa using hne) hnonempty
    rw [readResponse, readResponse, hinflater] at hsame
    exact hdiffers hsame
  have hsufficient : ∀ ok : List UInt8 → Prop, ¬BoundariesMatter z maxBytes u contentEncoding body →
      SameForAll z maxBytes u contentEncoding ok body := by
    intro ok hnot chunks chunks' h h' _ _
    obtain ⟨result, hresult⟩ := readResponse_same hz hnot
    rw [hresult chunks h, hresult chunks' h']
  refine ⟨⟨fun hall hmatters => ?_, hsufficient _⟩, fun hall hmatters => hdiffer hmatters hall,
    hsufficient _⟩
  exact hdiffer hmatters fun chunks chunks' h h' _ _ =>
    hall chunks chunks' h h' (fun _ _ => trivial) fun _ _ => trivial

end Decoded

/-! ## A decoder of one stored block -/

/-- Where a decoder stands in a stream of one stored block, with or without the two bytes of a
header. -/
inductive StoredStage
  | method
  | flags (method : UInt8)
  | block
  | length (read : List UInt8)
  | data (left : ℕ)
  | done
deriving DecidableEq, Repr

def storedStep : StoredStage → UInt8 → Except String (List UInt8 × StoredStage)
  | .method, byte => .ok ([], .flags byte)
  | .flags method, byte =>
    if (256 * method.toNat + byte.toNat) % 31 = 0 ∧ method.toNat % 16 = 8 then .ok ([], .block)
    else .error "incorrect header check"
  | .block, byte => if byte = 1 then .ok ([], .length []) else .error "invalid block type"
  | .length read, byte =>
    match read with
    | [low, high, complement] =>
      if complement = ~~~low ∧ byte = ~~~high then
        .ok ([], if low = 0 ∧ high = 0 then .done else .data (256 * high.toNat + low.toNat))
      else .error "invalid stored block lengths"
    | _ => .ok ([], .length (read ++ [byte]))
  | .data left, byte => .ok ([byte], if left = 1 then .done else .data (left - 1))
  | .done, _ => .ok ([], .done)

def storedZlib : Zlib (StoredStage × List UInt8) where
  decompressobj wbits := (if wbits < 0 then .block else .method, [])
  decompress d bytes maxLength := Incremental.decode storedStep d bytes maxLength.toNat

theorem documented_storedZlib : storedZlib.Documented where
  lawful := Incremental.lawful_decode
  nil wbits limit _ := by
    simp only [storedZlib, Incremental.decode, List.take_nil, List.drop_nil]
  header byte limit _ := by
    refine ⟨(.flags byte, []), ?_⟩
    show Incremental.decode storedStep (.method, []) [byte] (limit : ℤ).toNat = _
    rw [Incremental.decode, if_neg (by simp), storedStep]
    dsimp only
    rw [Incremental.decode, List.append_nil, List.take_nil, List.drop_nil]

/-- The two letters `hi` as a raw deflate stream. -/
def rawHi : List UInt8 := [0x01, 0x02, 0x00, 0xFD, 0xFF, 0x68, 0x69]

theorem readResponse_chunks_stored :
    (SameForAll storedZlib 100 .ascii "deflate".toList (fun _ => True) rawHi ↔
      ¬BoundariesMatter storedZlib 100 .ascii "deflate".toList rawHi) ∧
    (SameForAll storedZlib 100 .ascii "deflate".toList (fun chunk => chunk ≠ []) rawHi ↔
      ¬BoundariesMatter storedZlib 100 .ascii "deflate".toList rawHi) :=
  readResponse_chunks documented_storedZlib .ascii "deflate".toList rawHi

/-- In one chunk the body is read; when its first byte comes alone it is refused. -/
theorem readResponse_rawHi :
    [rawHi].flatten = [[0x01], rawHi.tail].flatten ∧
      readOutcome (readResponse storedZlib .ascii "deflate".toList 100 [rawHi]) =
        .ok ([0x68, 0x69], false) ∧
      readOutcome (readResponse storedZlib .ascii "deflate".toList 100 [[0x01], rawHi.tail]) =
        .error "DecodingError" := by
  decide +kernel

end UrlCrawler
