import Mathlib.Data.Nat.Digits.Lemmas

/- Byte strings and the encodings the protocol is built from: decimal numbers
   (`strconv.FormatUint`), eight-byte big-endian lengths, hexadecimal digits
   (`hex.EncodeToString`), and unpadded URL-safe base64 (`base64.RawURLEncoding`),
   encoding and strict decoding.

   A Go string is a byte string, so both `string` and `[]byte` are `Bytes`.
   `decode_encode` is the round trip of base64; `decimal_inj`, `be64_inj`, `hex_inj` and
   `frame_inj` say that numbers and length-prefixed parts can be read back. -/
abbrev Bytes := List UInt8

instance : LawfulBEq Bytes := inferInstance

/-- The bytes of a string literal. -/
def utf8 (s : String) : Bytes := s.toUTF8.data.toList

namespace Encoding

/-- `strconv.FormatUint(n, 10)`. -/
def decimal (n : Nat) : Bytes :=
  if n = 0 then [48] else (Nat.digits 10 n).reverse.map (fun d => UInt8.ofNat (48 + d))

/-- The eight bytes of `n`, most significant first; `byte(value)` drops the rest. -/
def be64 (n : Nat) : Bytes :=
  (List.range 8).map (fun i => UInt8.ofNat (n / 256 ^ (7 - i)))

def hexDigit (n : Nat) : UInt8 := UInt8.ofNat (if n < 10 then 48 + n else 87 + n)

/-- `hex.EncodeToString`. -/
def hex (bytes : Bytes) : Bytes :=
  bytes.flatMap fun b => [hexDigit (b.toNat / 16), hexDigit (b.toNat % 16)]

def frame (part : Bytes) : Bytes := be64 part.length ++ part

/-- The number that decimal digits spell. -/
def spelt (digits : Bytes) : Nat := Nat.ofDigits 10 (digits.reverse.map fun c => c.toNat - 48)

theorem spelt_decimal (n : Nat) : spelt (decimal n) = n := by
  unfold decimal
  split
  · next h =>
    rw [h]
    rfl
  · have hdigit : ∀ d ∈ Nat.digits 10 n, (UInt8.ofNat (48 + d)).toNat - 48 = d := by
      intro d hd
      have := Nat.digits_lt_base (by decide : 1 < 10) hd
      simp
      omega
    unfold spelt
    rw [← List.map_reverse, List.reverse_reverse, List.map_map]
    conv_rhs => rw [← Nat.ofDigits_digits 10 n, ← List.map_id (Nat.digits 10 n)]
    congr 1
    exact List.map_congr_left hdigit

variable {a b n : Nat}

theorem decimal_inj (h : decimal a = decimal b) : a = b := by
  rw [← spelt_decimal a, h, spelt_decimal]

theorem decimal_digit (n : Nat) : ∀ b ∈ decimal n, 48 ≤ b.toNat ∧ b.toNat ≤ 57 := by
  intro b hb
  unfold decimal at hb
  split at hb
  · rw [List.mem_singleton.mp hb]
    decide
  · obtain ⟨d, hd, rfl⟩ := List.mem_map.mp hb
    have := Nat.digits_lt_base (by decide : 1 < 10) (List.mem_reverse.mp hd)
    simp
    omega

theorem decimal_ascii (n : Nat) : ∀ b ∈ decimal n, b.toNat < 0x80 := by
  intro b hb
  have := decimal_digit n b hb
  omega

/-- `strconv.FormatInt(n, 10)`. -/
def decimalInt (n : Int) : Bytes := if n < 0 then 45 :: decimal n.natAbs else decimal n.natAbs

theorem decimal_not_mem {b : UInt8} (h : b < 48) : b ∉ decimal n := by
  intro hb
  have hdigit := (decimal_digit n b hb).1
  exact absurd (UInt8.lt_iff_toNat_lt.mp h) (Nat.not_lt.mpr hdigit)

theorem decimalInt_inj {a b : Int} (h : decimalInt a = decimalInt b) : a = b := by
  unfold decimalInt at h
  split at h <;> split at h
  · have := decimal_inj (List.cons.inj h).2
    omega
  · exact absurd (h ▸ List.mem_cons_self) (decimal_not_mem (by decide))
  · exact absurd (h ▸ List.mem_cons_self) (decimal_not_mem (by decide))
  · have := decimal_inj h
    omega

theorem comma_not_mem_decimalInt (n : Int) : (44 : UInt8) ∉ decimalInt n := by
  unfold decimalInt
  split
  · exact List.not_mem_cons_of_ne_of_not_mem (by decide) (decimal_not_mem (by decide))
  · exact decimal_not_mem (by decide)

theorem decimalInt_ascii (n : Int) : ∀ b ∈ decimalInt n, b.toNat < 0x80 := by
  intro b hb
  unfold decimalInt at hb
  split at hb
  · rcases List.mem_cons.mp hb with rfl | hb
    · decide
    · exact decimal_ascii _ b hb
  · exact decimal_ascii _ b hb

/-- What stands before the first separator is one thing, what follows another. -/
theorem append_sep_inj {α : Type} {s : α} {a b x y : List α} (ha : s ∉ a) (hb : s ∉ b)
    (h : a ++ s :: x = b ++ s :: y) : a = b ∧ x = y := by
  induction a generalizing b with
  | nil =>
    cases b with
    | nil => simpa using h
    | cons c b =>
      simp only [List.nil_append, List.cons_append, List.cons.injEq] at h
      exact absurd (by rw [h.1]; exact List.mem_cons_self) hb
  | cons c a ih =>
    cases b with
    | nil =>
      simp only [List.nil_append, List.cons_append, List.cons.injEq] at h
      exact absurd (by rw [← h.1]; exact List.mem_cons_self) ha
    | cons d b =>
      simp only [List.cons_append, List.cons.injEq] at h
      obtain ⟨rfl, h⟩ := h
      obtain ⟨rfl, rfl⟩ := ih (fun hm => ha (List.mem_cons_of_mem _ hm))
        (fun hm => hb (List.mem_cons_of_mem _ hm)) h
      exact ⟨rfl, rfl⟩

theorem decimal_length_le {k : Nat} (hk : 0 < k) (h : n < 10 ^ k) : (decimal n).length ≤ k := by
  unfold decimal
  split
  · exact hk
  · rw [List.length_map, List.length_reverse]
    exact (Nat.digits_length_le_iff (by decide) n).mpr h

theorem hexDigit_inj : ∀ n, n < 16 → ∀ m, m < 16 → hexDigit n = hexDigit m → n = m := by decide

theorem hex_ascii (bytes : Bytes) : ∀ b ∈ hex bytes, b.toNat < 0x80 := by
  have digit : ∀ n, n < 16 → (hexDigit n).toNat < 0x80 := by decide
  intro b hb
  obtain ⟨c, -, hb⟩ := List.mem_flatMap.mp hb
  have := c.toNat_lt
  simp only [List.mem_cons, List.not_mem_nil, or_false] at hb
  rcases hb with rfl | rfl
  · exact digit _ (by omega)
  · exact digit _ (by omega)

theorem hex_inj {a b : Bytes} (h : hex a = hex b) : a = b := by
  induction a generalizing b with
  | nil =>
    cases b with
    | nil => rfl
    | cons y b => cases h
  | cons x a ih =>
    cases b with
    | nil => cases h
    | cons y b =>
      obtain ⟨hhigh, h⟩ := List.cons.inj h
      obtain ⟨hlow, h⟩ := List.cons.inj h
      have hx := x.toNat_lt
      have hy := y.toNat_lt
      have high := hexDigit_inj _ (by omega) _ (by omega) hhigh
      have low := hexDigit_inj _ (by omega) _ (by omega) hlow
      have same : x = y := UInt8.toNat_inj.mp (by omega)
      rw [same, ih h]

theorem be64_length (n : Nat) : (be64 n).length = 8 := by simp [be64]

theorem ofNat_eq_iff : UInt8.ofNat a = UInt8.ofNat b ↔ a % 256 = b % 256 := by
  rw [← UInt8.toNat_inj]
  simp

theorem be64_inj (ha : a < 2 ^ 64) (hb : b < 2 ^ 64) (h : be64 a = be64 b) : a = b := by
  simp only [be64, List.range, List.range.loop, List.map_cons, List.map_nil, List.cons.injEq,
    ofNat_eq_iff] at h
  norm_num at h ha hb
  omega

/-- Framed parts followed by equal or different tails split in one way only. -/
theorem frame_inj {a b x y : Bytes} (ha : a.length < 2 ^ 64) (hb : b.length < 2 ^ 64)
    (h : frame a ++ x = frame b ++ y) : a = b ∧ x = y := by
  unfold frame at h
  rw [List.append_assoc, List.append_assoc] at h
  obtain ⟨hl, ht⟩ := List.append_inj h (by rw [be64_length, be64_length])
  exact List.append_inj ht (be64_inj ha hb hl)

/-! Base64 with the URL-safe alphabet and no padding. -/

/-- The character of a six-bit value. -/
def symbol (n : Nat) : UInt8 :=
  if n < 26 then UInt8.ofNat (65 + n)
  else if n < 52 then UInt8.ofNat (97 + (n - 26))
  else if n < 62 then UInt8.ofNat (48 + (n - 52))
  else if n = 62 then 45 else 95

/-- The six-bit value of a character of the alphabet. -/
def value (c : UInt8) : Option Nat :=
  let n := c.toNat
  if 65 ≤ n ∧ n ≤ 90 then some (n - 65)
  else if 97 ≤ n ∧ n ≤ 122 then some (n - 97 + 26)
  else if 48 ≤ n ∧ n ≤ 57 then some (n - 48 + 52)
  else if n = 45 then some 62
  else if n = 95 then some 63
  else none

/-- `base64.RawURLEncoding.EncodeToString`. -/
def encode : Bytes → Bytes
  | a :: b :: c :: rest =>
    symbol (a.toNat / 4) :: symbol (a.toNat % 4 * 16 + b.toNat / 16) ::
      symbol (b.toNat % 16 * 4 + c.toNat / 64) :: symbol (c.toNat % 64) :: encode rest
  | [a, b] =>
    [symbol (a.toNat / 4), symbol (a.toNat % 4 * 16 + b.toNat / 16), symbol (b.toNat % 16 * 4)]
  | [a] => [symbol (a.toNat / 4), symbol (a.toNat % 4 * 16)]
  | [] => []

/-- Decoding of text without line breaks; strictly, the unused low bits of a
    partial last group must be zero. -/
def decodeQuads (strict : Bool) : Bytes → Option Bytes
  | w :: x :: y :: z :: rest => do
    let w ← value w
    let x ← value x
    let y ← value y
    let z ← value z
    let tail ← decodeQuads strict rest
    return UInt8.ofNat (w * 4 + x / 16) :: UInt8.ofNat (x % 16 * 16 + y / 4) ::
      UInt8.ofNat (y % 4 * 64 + z) :: tail
  | [w, x, y] => do
    let w ← value w
    let x ← value x
    let y ← value y
    if strict ∧ y % 4 ≠ 0 then none
    else some [UInt8.ofNat (w * 4 + x / 16), UInt8.ofNat (x % 16 * 16 + y / 4)]
  | [w, x] => do
    let w ← value w
    let x ← value x
    if strict ∧ x % 16 ≠ 0 then none else some [UInt8.ofNat (w * 4 + x / 16)]
  | [_] => none
  | [] => some []

/-- Carriage return and line feed, which Go's decoder skips. -/
def isLineBreak (c : UInt8) : Bool := c == 13 || c == 10

/-- `base64.RawURLEncoding.Strict().DecodeString`. -/
def decode (s : Bytes) : Option Bytes := decodeQuads true (s.filter (fun c => !isLineBreak c))

/-- `base64.RawURLEncoding.DecodeString`. -/
def decodeLoosely (s : Bytes) : Option Bytes := decodeQuads false (s.filter (fun c => !isLineBreak c))

theorem value_symbol (h : n < 64) : value (symbol n) = some n := by
  have all : ∀ m : Fin 64, value (symbol m) = some m.val := by decide
  exact all ⟨n, h⟩

theorem symbol_not_lineBreak (h : n < 64) : isLineBreak (symbol n) = false := by
  have all : ∀ m : Fin 64, isLineBreak (symbol m) = false := by decide
  exact all ⟨n, h⟩

theorem toNat_lt (a : UInt8) : a.toNat < 256 := a.toNat_lt

theorem ofNat_eq {a : UInt8} (h : n = a.toNat) : UInt8.ofNat n = a := by
  rw [h, UInt8.ofNat_toNat]

theorem encode_no_lineBreak (b : Bytes) : ∀ c ∈ encode b, isLineBreak c = false := by
  fun_induction encode b with
  | case1 a b c rest ih =>
    have ha := toNat_lt a
    have hb := toNat_lt b
    intro x hx
    simp only [List.mem_cons] at hx
    rcases hx with rfl | rfl | rfl | rfl | hx
    · exact symbol_not_lineBreak (by omega)
    · exact symbol_not_lineBreak (by omega)
    · have hc := toNat_lt c
      exact symbol_not_lineBreak (by omega)
    · exact symbol_not_lineBreak (by omega)
    · exact ih x hx
  | case2 a b =>
    have ha := toNat_lt a
    have hb := toNat_lt b
    intro x hx
    simp only [List.mem_cons, List.not_mem_nil, or_false] at hx
    rcases hx with rfl | rfl | rfl <;> exact symbol_not_lineBreak (by omega)
  | case3 a =>
    have ha := toNat_lt a
    intro x hx
    simp only [List.mem_cons, List.not_mem_nil, or_false] at hx
    rcases hx with rfl | rfl <;> exact symbol_not_lineBreak (by omega)
  | case4 => simp

theorem decodeQuads_encode (strict : Bool) (b : Bytes) : decodeQuads strict (encode b) = some b := by
  fun_induction encode b with
  | case1 a b c rest ih =>
    have ha := toNat_lt a
    have hb := toNat_lt b
    have hc := toNat_lt c
    simp only [decodeQuads, ih, value_symbol (show a.toNat / 4 < 64 by omega),
      value_symbol (show a.toNat % 4 * 16 + b.toNat / 16 < 64 by omega),
      value_symbol (show b.toNat % 16 * 4 + c.toNat / 64 < 64 by omega),
      value_symbol (show c.toNat % 64 < 64 by omega), Option.bind_eq_bind, Option.bind_some,
      Option.pure_def, Option.some.injEq, List.cons.injEq, and_true]
    exact ⟨ofNat_eq (by omega), ofNat_eq (by omega), ofNat_eq (by omega)⟩
  | case2 a b =>
    have ha := toNat_lt a
    have hb := toNat_lt b
    simp only [decodeQuads, value_symbol (show a.toNat / 4 < 64 by omega),
      value_symbol (show a.toNat % 4 * 16 + b.toNat / 16 < 64 by omega),
      value_symbol (show b.toNat % 16 * 4 < 64 by omega), Option.bind_eq_bind, Option.bind_some]
    rw [if_neg fun h => h.2 (by omega)]
    simp only [Option.some.injEq, List.cons.injEq, and_true]
    exact ⟨ofNat_eq (by omega), ofNat_eq (by omega)⟩
  | case3 a =>
    have ha := toNat_lt a
    simp only [decodeQuads, value_symbol (show a.toNat / 4 < 64 by omega),
      value_symbol (show a.toNat % 4 * 16 < 64 by omega), Option.bind_eq_bind, Option.bind_some]
    rw [if_neg fun h => h.2 (by omega)]
    simp only [Option.some.injEq, List.cons.injEq, and_true]
    exact ofNat_eq (by omega)
  | case4 => rfl

theorem decode_encode (b : Bytes) : decode (encode b) = some b := by
  have hkeep : (encode b).filter (fun c => !isLineBreak c) = encode b := by
    rw [List.filter_eq_self]
    intro c hc
    rw [encode_no_lineBreak b c hc]
    rfl
  unfold decode
  rw [hkeep, decodeQuads_encode]

theorem encode_inj {a b : Bytes} (h : encode a = encode b) : a = b := by
  have := decode_encode a
  rw [h, decode_encode] at this
  exact (Option.some.inj this).symm

example : encode [0, 16, 131, 16, 81] = utf8 "ABCDEFE" := by decide
example : decode (utf8 "AB") = none ∧ decode (utf8 "AA") = some [0] := by decide

end Encoding
