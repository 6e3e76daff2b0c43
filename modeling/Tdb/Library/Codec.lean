import Mathlib.Data.List.Basic
import Mathlib.Tactic.Ring

namespace Tdb.Library

-- The input ends before a byte, or within a run of bytes that is taken at once, or what the
-- bytes spell is refused.
inductive DecodeError where
  | unexpectedEof
  | cutRun
  | invalid
deriving DecidableEq, Repr

-- A binary format: a writer, and a reader that takes its bytes off the front of the input.
-- The reader undoes the writer on every value that fits, and accepts nothing else.
structure Codec (α : Type*) where
  Fits : α → Prop
  encode : α → List UInt8
  decode : List UInt8 → Except DecodeError (α × List UInt8)
  decode_encode : ∀ {x : α}, Fits x → ∀ rest, decode (encode x ++ rest) = .ok (x, rest)
  decode_exact : ∀ {bytes : List UInt8} {x : α} {rest : List UInt8},
    decode bytes = .ok (x, rest) → Fits x ∧ bytes = encode x ++ rest

namespace Codec

variable {α β : Type*}

section Laws

variable (c : Codec α)

theorem decode_eq_ok_iff (bytes : List UInt8) (x : α) (rest : List UInt8) :
    c.decode bytes = .ok (x, rest) ↔ c.Fits x ∧ bytes = c.encode x ++ rest := by
  constructor
  · exact c.decode_exact
  · rintro ⟨hx, rfl⟩
    exact c.decode_encode hx rest

theorem decode_encode_self {x : α} (hx : c.Fits x) : c.decode (c.encode x) = .ok (x, []) := by
  simpa using c.decode_encode hx []

-- Bytes after an accepted value are left alone, whatever they are.
theorem decode_append {bytes : List UInt8} {x : α} {rest : List UInt8}
    (h : c.decode bytes = .ok (x, rest)) (more : List UInt8) :
    c.decode (bytes ++ more) = .ok (x, rest ++ more) := by
  obtain ⟨hx, rfl⟩ := c.decode_exact h
  rw [List.append_assoc]
  exact c.decode_encode hx (rest ++ more)

-- No encoding is a strict prefix of another one.
theorem encode_prefix_free {x y : α} (hx : c.Fits x) (hy : c.Fits y) {left right : List UInt8}
    (h : c.encode x ++ left = c.encode y ++ right) : x = y ∧ left = right := by
  have hl := c.decode_encode hx left
  rw [h, c.decode_encode hy right] at hl
  obtain ⟨rfl, rfl⟩ := Prod.mk.inj (Except.ok.inj hl)
  exact ⟨rfl, rfl⟩

theorem decode_strict_prefix {x : α} (hx : c.Fits x) {cut lost : List UInt8}
    (hcut : cut ++ lost = c.encode x) (hlost : lost ≠ []) :
    ∃ e, c.decode cut = .error e := by
  cases hd : c.decode cut with
  | error e => exact ⟨e, rfl⟩
  | ok result =>
      obtain ⟨y, rest⟩ := result
      have hmore := c.decode_append hd lost
      rw [hcut, c.decode_encode_self hx] at hmore
      have hnil := (Prod.mk.inj (Except.ok.inj hmore)).2
      exact False.elim (hlost (List.append_eq_nil_iff.mp hnil.symm).2)

end Laws

def byte : Codec UInt8 where
  Fits _ := True
  encode b := [b]
  decode
    | [] => .error .unexpectedEof
    | b :: rest => .ok (b, rest)
  decode_encode _ _ := rfl
  decode_exact {bytes x rest} h := by
    cases bytes with
    | nil => cases h
    | cons b tail =>
        obtain ⟨rfl, rfl⟩ := Prod.mk.inj (Except.ok.inj h)
        exact ⟨trivial, rfl⟩

@[simp] theorem byte_fits (b : UInt8) : byte.Fits b := trivial

section LittleEndian

def encodeLE : Nat → Nat → List UInt8
  | 0, _ => []
  | width + 1, n => UInt8.ofNat n :: encodeLE width (n / 256)

def decodeLE : Nat → List UInt8 → Except DecodeError (Nat × List UInt8)
  | 0, bytes => .ok (0, bytes)
  | _ + 1, [] => .error .unexpectedEof
  | width + 1, b :: bytes =>
      match decodeLE width bytes with
      | .error e => .error e
      | .ok (high, rest) => .ok (b.toNat + 256 * high, rest)

@[simp] theorem encodeLE_length (width n : Nat) : (encodeLE width n).length = width := by
  induction width generalizing n with
  | zero => rfl
  | succ width ih => simp [encodeLE, ih]

theorem decodeLE_encodeLE (width n : Nat) (hn : n < 256 ^ width) (rest : List UInt8) :
    decodeLE width (encodeLE width n ++ rest) = .ok (n, rest) := by
  induction width generalizing n with
  | zero =>
      obtain rfl : n = 0 := by simpa using hn
      rfl
  | succ width ih =>
      have hhigh : n / 256 < 256 ^ width := by
        rw [pow_succ] at hn
        omega
      simp only [encodeLE, List.cons_append, decodeLE, ih _ hhigh, UInt8.toNat_ofNat']
      congr 2
      omega

theorem decodeLE_exact (width : Nat) {bytes : List UInt8} {n : Nat} {rest : List UInt8}
    (h : decodeLE width bytes = .ok (n, rest)) :
    n < 256 ^ width ∧ bytes = encodeLE width n ++ rest := by
  induction width generalizing bytes n with
  | zero =>
      obtain ⟨rfl, rfl⟩ := Prod.mk.inj (Except.ok.inj h)
      exact ⟨by simp, rfl⟩
  | succ width ih =>
      cases bytes with
      | nil => cases h
      | cons b bytes =>
          cases hd : decodeLE width bytes with
          | error e => simp [decodeLE, hd] at h
          | ok result =>
              obtain ⟨high, tail⟩ := result
              simp only [decodeLE, hd, Except.ok.injEq, Prod.mk.injEq] at h
              obtain ⟨rfl, rfl⟩ := h
              obtain ⟨hhigh, rfl⟩ := ih hd
              have hb := b.toNat_lt
              have hdiv : (b.toNat + 256 * high) / 256 = high := by omega
              refine ⟨by rw [pow_succ]; omega, ?_⟩
              have hlow : UInt8.ofNat (b.toNat + 256 * high) = b := by
                apply UInt8.toNat_inj.mp
                rw [UInt8.toNat_ofNat']
                omega
              simp only [encodeLE, hdiv, hlow, List.cons_append]

-- A natural number in a fixed count of bytes, low byte first.
def uint (width : Nat) : Codec Nat where
  Fits n := n < 256 ^ width
  encode := encodeLE width
  decode := decodeLE width
  decode_encode hn rest := decodeLE_encodeLE width _ hn rest
  decode_exact h := decodeLE_exact width h

end LittleEndian

section Combinators

def pair (c : Codec α) (d : Codec β) : Codec (α × β) where
  Fits p := c.Fits p.1 ∧ d.Fits p.2
  encode p := c.encode p.1 ++ d.encode p.2
  decode bytes :=
    match c.decode bytes with
    | .error e => .error e
    | .ok (x, bytes) =>
        match d.decode bytes with
        | .error e => .error e
        | .ok (y, rest) => .ok ((x, y), rest)
  decode_encode {p} hp rest := by
    simp only [List.append_assoc, c.decode_encode hp.1, d.decode_encode hp.2]
  decode_exact {bytes p rest} h := by
    cases hc : c.decode bytes with
    | error e => simp [hc] at h
    | ok first =>
        obtain ⟨x, tail⟩ := first
        cases hd : d.decode tail with
        | error e => simp [hc, hd] at h
        | ok second =>
            obtain ⟨y, tail'⟩ := second
            simp only [hc, hd, Except.ok.injEq, Prod.mk.injEq] at h
            obtain ⟨rfl, rfl⟩ := h
            obtain ⟨hx, rfl⟩ := c.decode_exact hc
            obtain ⟨hy, rfl⟩ := d.decode_exact hd
            exact ⟨⟨hx, hy⟩, (List.append_assoc _ _ _).symm⟩

@[simp] theorem pair_fits (c : Codec α) (d : Codec β) (p : α × β) :
    (c.pair d).Fits p ↔ c.Fits p.1 ∧ d.Fits p.2 := Iff.rfl

-- Read the same bytes as another type, when a check accepts what they spell.
def refine (c : Codec α) (check : α → Option β) (raw : β → α)
    (hraw : ∀ y, check (raw y) = some y)
    (hcheck : ∀ x y, c.Fits x → check x = some y → raw y = x) : Codec β where
  Fits y := c.Fits (raw y)
  encode y := c.encode (raw y)
  decode bytes :=
    match c.decode bytes with
    | .error e => .error e
    | .ok (x, rest) =>
        match check x with
        | none => .error .invalid
        | some y => .ok (y, rest)
  decode_encode {y} hy rest := by
    simp only [c.decode_encode hy, hraw]
  decode_exact {bytes y rest} h := by
    cases hc : c.decode bytes with
    | error e => simp [hc] at h
    | ok result =>
        obtain ⟨x, tail⟩ := result
        cases hx : check x with
        | none => simp [hc, hx] at h
        | some y' =>
            simp only [hc, hx, Except.ok.injEq, Prod.mk.injEq] at h
            obtain ⟨rfl, rfl⟩ := h
            obtain ⟨hfits, rfl⟩ := c.decode_exact hc
            rw [hcheck x y' hfits hx]
            exact ⟨hfits, rfl⟩

@[simp] theorem refine_fits (c : Codec α) (check : α → Option β) (raw : β → α) (hraw hcheck)
    (y : β) : (c.refine check raw hraw hcheck).Fits y ↔ c.Fits (raw y) := Iff.rfl

-- Another view of the same values, as of a tuple of fields as a record.
def view (c : Codec α) (make : α → β) (fields : β → α) (hmake : ∀ y, make (fields y) = y)
    (hfields : ∀ x, c.Fits x → fields (make x) = x) : Codec β :=
  c.refine (fun x => some (make x)) fields (fun y => congrArg some (hmake y)) (by
    intro x y hx h
    rw [← Option.some.inj h, hfields x hx])

@[simp] theorem view_fits (c : Codec α) (make : α → β) (fields : β → α) (hmake hfields) (y : β) :
    (c.view make fields hmake hfields).Fits y ↔ c.Fits (fields y) := Iff.rfl

def decodeMany (c : Codec α) : Nat → List UInt8 → Except DecodeError (List α × List UInt8)
  | 0, bytes => .ok ([], bytes)
  | count + 1, bytes =>
      match c.decode bytes with
      | .error e => .error e
      | .ok (x, bytes) =>
          match decodeMany c count bytes with
          | .error e => .error e
          | .ok (xs, rest) => .ok (x :: xs, rest)

theorem decodeMany_encode (c : Codec α) (xs : List α) (hxs : ∀ x ∈ xs, c.Fits x)
    (rest : List UInt8) :
    c.decodeMany xs.length (xs.flatMap c.encode ++ rest) = .ok (xs, rest) := by
  induction xs with
  | nil => rfl
  | cons x xs ih =>
      rw [List.forall_mem_cons] at hxs
      simp only [List.length_cons, List.flatMap_cons, List.append_assoc, decodeMany,
        c.decode_encode hxs.1, ih hxs.2]

theorem decodeMany_exact (c : Codec α) (count : Nat) {bytes : List UInt8} {xs : List α}
    {rest : List UInt8} (h : c.decodeMany count bytes = .ok (xs, rest)) :
    xs.length = count ∧ (∀ x ∈ xs, c.Fits x) ∧ bytes = xs.flatMap c.encode ++ rest := by
  induction count generalizing bytes xs with
  | zero =>
      obtain ⟨rfl, rfl⟩ := Prod.mk.inj (Except.ok.inj h)
      simp
  | succ count ih =>
      cases hc : c.decode bytes with
      | error e => simp [decodeMany, hc] at h
      | ok first =>
          obtain ⟨x, tail⟩ := first
          cases hm : c.decodeMany count tail with
          | error e => simp [decodeMany, hc, hm] at h
          | ok others =>
              obtain ⟨ys, tail'⟩ := others
              simp only [decodeMany, hc, hm, Except.ok.injEq, Prod.mk.injEq] at h
              obtain ⟨rfl, rfl⟩ := h
              obtain ⟨hlen, hys, rfl⟩ := ih hm
              obtain ⟨hx, rfl⟩ := c.decode_exact hc
              refine ⟨by simp [hlen], List.forall_mem_cons.mpr ⟨hx, hys⟩, ?_⟩
              simp only [List.flatMap_cons, List.append_assoc]

-- A run of bytes behind its length.
def run (count : Codec Nat) : Codec (List UInt8) where
  Fits bytes := count.Fits bytes.length
  encode bytes := count.encode bytes.length ++ bytes
  decode bytes :=
    match count.decode bytes with
    | .error e => .error e
    | .ok (n, bytes) =>
        if bytes.length < n then .error .cutRun else .ok (bytes.take n, bytes.drop n)
  decode_encode {bytes} hfits rest := by
    simp [count.decode_encode hfits]
  decode_exact {bytes x rest} h := by
    cases hn : count.decode bytes with
    | error e => simp [hn] at h
    | ok result =>
        obtain ⟨n, tail⟩ := result
        simp only [hn] at h
        split at h
        · cases h
        · obtain ⟨rfl, rfl⟩ := Prod.mk.inj (Except.ok.inj h)
          obtain ⟨hfits, rfl⟩ := count.decode_exact hn
          have hlength : (tail.take n).length = n := by
            rw [List.length_take]
            omega
          rw [hlength, List.append_assoc, List.take_append_drop]
          exact ⟨hfits, rfl⟩

@[simp] theorem run_fits (count : Codec Nat) (bytes : List UInt8) :
    (run count).Fits bytes ↔ count.Fits bytes.length := Iff.rfl

-- A sequence behind its length.
def counted (count : Codec Nat) (c : Codec α) : Codec (List α) where
  Fits xs := count.Fits xs.length ∧ ∀ x ∈ xs, c.Fits x
  encode xs := count.encode xs.length ++ xs.flatMap c.encode
  decode bytes :=
    match count.decode bytes with
    | .error e => .error e
    | .ok (n, bytes) => c.decodeMany n bytes
  decode_encode {xs} hxs rest := by
    simp only [List.append_assoc, count.decode_encode hxs.1, c.decodeMany_encode xs hxs.2]
  decode_exact {bytes xs rest} h := by
    cases hn : count.decode bytes with
    | error e => simp [hn] at h
    | ok result =>
        obtain ⟨n, tail⟩ := result
        simp only [hn] at h
        obtain ⟨rfl, hxs, rfl⟩ := c.decodeMany_exact n h
        obtain ⟨hfits, rfl⟩ := count.decode_exact hn
        exact ⟨⟨hfits, hxs⟩, (List.append_assoc _ _ _).symm⟩

@[simp] theorem counted_fits (count : Codec Nat) (c : Codec α) (xs : List α) :
    (counted count c).Fits xs ↔ count.Fits xs.length ∧ ∀ x ∈ xs, c.Fits x := Iff.rfl

end Combinators

end Codec

end Tdb.Library
