import SesameServer.Lib.Sha1
import SesameServer.Selfhost.Owners

/- One-time codes (`internal/authkit/totp.go`).

   1. `decodeSecret`, `truncate`, `verifyTOTP`, `totpCode`.
   2. `atoi_six`: what six bytes `strconv.Atoi` reads as a number, the digits of it or a sign
      and five digits.
   3. `verifyTOTP_exact_iff`: the codes that are accepted are the codes that are printed,
      unless one with a sign spells the number of a step. -/
namespace Sesame.Authkit
open Calendar (padded)
open Selfhost (atoi)

/-! The functions. -/

/-- `strings.ToUpper` of a character. Outside ASCII only U+0131 and U+017F have an upper case
    in it, and what stays outside is no base32 letter. -/
def toUpper : Utf8.Piece → Option UInt8
  | .ascii b => some (if 97 ≤ b ∧ b ≤ 122 then b - 32 else b)
  | .wide [0xc4, 0xb1] => some 73
  | .wide [0xc5, 0xbf] => some 83
  | _ => none

/-- The value of a letter of `base32.StdEncoding`. -/
def decodeMap (c : UInt8) : Option UInt8 :=
  if 65 ≤ c ∧ c ≤ 90 then some (c - 65) else if 50 ≤ c ∧ c ≤ 55 then some (c - 24) else none

/-- The bytes of up to eight letters. A last part of one, three or six letters has none. -/
def quantum (v : List UInt8) : Bytes :=
  let d (i : Nat) : UInt8 := v.getD i 0
  [d 0 <<< 3 ||| d 1 >>> 2, d 1 <<< 6 ||| d 2 <<< 1 ||| d 3 >>> 4, d 3 <<< 4 ||| d 4 >>> 1,
    d 4 <<< 7 ||| d 5 <<< 2 ||| d 6 >>> 3, d 6 <<< 5 ||| d 7].take
    (match v.length with | 8 => 5 | 7 => 4 | 5 => 3 | 4 => 2 | 2 => 1 | _ => 0)

def decodeSecret (secret : Bytes) : Option Bytes := do
  let upper ← (Utf8.pieces secret).mapM toUpper
  let values ← (upper.filter fun c => c != 10 && c != 13).mapM decodeMap
  let decoded := (values.toChunks 8).flatMap quantum
  if decoded.length < 16 then none else some decoded

def truncate (key : Bytes) (counter : Int) : Nat :=
  let digest := Sha1.hmac key (Encoding.be64 (counter % 2 ^ 64).toNat)
  let index := (digest.getLastD 0 &&& 0x0f).toNat
  let d (i : Nat) : Nat := (digest.getD (index + i) 0).toNat
  (d 0 % 128 * 2 ^ 24 + d 1 * 2 ^ 16 + d 2 * 2 ^ 8 + d 3) % 1000000

def steps (now : Int) : List Int := [now.tdiv 30 - 1, now.tdiv 30, now.tdiv 30 + 1]

def verifyTOTP : Bytes → Bytes → Int → Option Int := Selfhost.verifyTOTP decodeSecret truncate

theorem truncate_lt (key : Bytes) (counter : Int) : truncate key counter < 10 ^ 6 :=
  Nat.mod_lt _ (by decide)

/-- `fmt.Sprintf("%06d", …)` of the code at a time. -/
def totpCode (secret : Bytes) (unix : Int) : Option Bytes :=
  (decodeSecret secret).map fun decoded => padded 6 (truncate decoded (unix.tdiv 30))

/-! What `Atoi` reads. -/

/-- A sign and five digits that `Atoi` reads as `n`. -/
def Signed (n : Nat) (code : Bytes) : Prop :=
  code.length = 6 ∧ (code = 43 :: padded 5 n ∨ n = 0 ∧ code = 45 :: padded 5 0)

instance (n : Nat) (code : Bytes) : Decidable (Signed n code) := inferInstanceAs (Decidable (_ ∧ _))

theorem digits_iff {digits : Bytes} {w : Nat} (n : Nat) (hlen : digits.length = w + 1) :
    (digits.any (fun b => b < 48 || b > 57) = false ∧ Encoding.spelt digits = n) ↔
      digits = padded (w + 1) n := by
  simp only [List.any_eq_false, Bool.not_eq_true, Bool.or_eq_false_iff, decide_eq_false_iff_not,
    UInt8.lt_iff_toNat_lt, gt_iff_lt, Nat.not_lt]
  constructor
  · rintro ⟨hdigits, rfl⟩
    rw [← hlen]
    exact (Calendar.padded_spelt (List.ne_nil_of_length_eq_add_one hlen) hdigits).symm
  · rintro rfl
    exact ⟨Calendar.padded_digit _ _, Calendar.spelt_padded _ _⟩

theorem padded_ne_cons {n : Nat} {c : UInt8} {rest : Bytes} (hc : c.toNat < 48) :
    padded 6 n ≠ c :: rest := by
  intro h
  have := Calendar.padded_digit 6 n c (h ▸ List.mem_cons_self)
  omega

variable {code decoded : Bytes} {now step : Int}

theorem atoi_six {n : Nat} (hlen : code.length = 6) :
    atoi code = some (n : Int) ↔ code = padded 6 n ∨ Signed n code := by
  obtain ⟨c, rest, rfl⟩ := List.exists_cons_of_length_eq_add_one hlen
  have hrest : rest.length = 4 + 1 := Nat.succ.inj hlen
  have hne : rest.isEmpty = false := by
    cases rest with
    | nil => cases hrest
    | cons => rfl
  by_cases hplus : c = 43
  · subst hplus
    have hsigned : Signed n (43 :: rest) ↔ rest = padded 5 n := by simp [Signed, hrest]
    have hprinted : 43 :: rest ≠ padded 6 n := (padded_ne_cons (by decide)).symm
    simp only [hsigned, hprinted, false_or, ← digits_iff n hrest]
    simp [atoi, hne]
  by_cases hminus : c = 45
  · subst hminus
    have hsigned : Signed n (45 :: rest) ↔ n = 0 ∧ rest = padded 5 0 := by simp [Signed, hrest]
    have hprinted : 45 :: rest ≠ padded 6 n := (padded_ne_cons (by decide)).symm
    simp only [hsigned, hprinted, false_or, ← digits_iff 0 hrest]
    simp [atoi, hne]
    exact ⟨fun ⟨a, b, c⟩ => ⟨c, a, b⟩, fun ⟨c, a, b⟩ => ⟨a, b, c⟩⟩
  · have hsigned : ¬Signed n (c :: rest) := by simp [Signed, hplus, hminus]
    simp [atoi, hplus, hminus, hsigned, ← digits_iff n hlen]

/-! The codes that are accepted. -/

/-- A code is accepted exactly when a step around the time prints it, with such a step. -/
def Exact (secret code : Bytes) (now : Int) : Prop :=
  (∀ step, verifyTOTP secret code now = some step →
    step ∈ steps now ∧ totpCode secret (30 * step) = some (Utf8.trimSpace code)) ∧
  ∀ step ∈ steps now, totpCode secret (30 * step) = some (Utf8.trimSpace code) →
    ∃ found, verifyTOTP secret code now = some found

theorem verifyTOTP_iff {secret : Bytes} (hsecret : decodeSecret secret = some decoded) :
    verifyTOTP secret code now = some step ↔ (Utf8.trimSpace code).length = 6 ∧
      ∃ want, atoi (Utf8.trimSpace code) = some want ∧
        (steps now).find? (fun candidate => (truncate decoded candidate : Int) == want) =
          some step := by
  unfold verifyTOTP Selfhost.verifyTOTP steps
  simp only [hsecret, Option.bind_eq_bind, ite_eq_iff, Option.bind_eq_some_iff, reduceCtorEq,
    and_false, false_or, ne_eq, not_not, Option.some.injEq, exists_eq_left']

/-- A code of six bytes that `Atoi` reads as the number of a step. -/
def Spells (decoded code : Bytes) (step : Int) : Prop :=
  Utf8.trimSpace code = padded 6 (truncate decoded step) ∨
    Signed (truncate decoded step) (Utf8.trimSpace code)

theorem verifyTOTP_some {secret : Bytes} (hsecret : decodeSecret secret = some decoded)
    (h : verifyTOTP secret code now = some step) : step ∈ steps now ∧ Spells decoded code step := by
  obtain ⟨hlen, want, hwant, hfind⟩ := (verifyTOTP_iff hsecret).mp h
  have hfound := List.find?_some hfind
  refine ⟨List.mem_of_find?_eq_some hfind, (atoi_six hlen).mp ?_⟩
  rw [hwant, beq_iff_eq.mp hfound]

theorem verifyTOTP_exists {secret : Bytes} (hsecret : decodeSecret secret = some decoded)
    (hstep : step ∈ steps now) (h : Spells decoded code step) :
    ∃ found, verifyTOTP secret code now = some found := by
  have hlen : (Utf8.trimSpace code).length = 6 := by
    rcases h with h | h
    · rw [h]
      exact Calendar.length_padded (truncate_lt _ _) (by decide)
    · exact h.1
  obtain ⟨found, hfound⟩ := Option.isSome_iff_exists.mp ((List.find?_isSome
    (p := fun candidate => (truncate decoded candidate : Int) == truncate decoded step)).mpr
    ⟨step, hstep, beq_self_eq_true _⟩)
  exact ⟨found, (verifyTOTP_iff hsecret).mpr ⟨hlen, _, (atoi_six hlen).mpr h, hfound⟩⟩

theorem totpCode_step {secret : Bytes} (hsecret : decodeSecret secret = some decoded) (step : Int) :
    totpCode secret (30 * step) = some (padded 6 (truncate decoded step)) := by
  rw [totpCode, hsecret, Option.map_some, Int.mul_tdiv_cancel_left _ (by decide)]

/-- **The codes that are accepted.** They are the codes that the steps print if and only if
    the code, without its white space, is not a sign and five digits that spell the number of
    one of them. -/
theorem verifyTOTP_exact_iff {secret decoded : Bytes} (code : Bytes) (now : Int)
    (hsecret : decodeSecret secret = some decoded) : Exact secret code now ↔
      ∀ step ∈ steps now, ¬Signed (truncate decoded step) (Utf8.trimSpace code) := by
  unfold Exact
  simp only [totpCode_step hsecret, Option.some.injEq]
  constructor
  · rintro ⟨hexact, -⟩ step hstep hsigned
    obtain ⟨found, hfound⟩ := verifyTOTP_exists hsecret hstep (.inr hsigned)
    have hprinted := (hexact found hfound).2
    rcases hsigned.2 with h | ⟨-, h⟩
    all_goals exact padded_ne_cons (by decide) (hprinted.trans h)
  · intro hunsigned
    refine ⟨fun step h => ?_, fun step hstep h => verifyTOTP_exists hsecret hstep (.inl h.symm)⟩
    obtain ⟨hstep, h⟩ := verifyTOTP_some hsecret h
    exact ⟨hstep, (h.resolve_right (hunsigned step hstep)).symm⟩

namespace Demo

/-- The secret of RFC 6238. -/
def secret : Bytes := utf8 "GEZDGNBVGY3TQOJQGEZDGNBVGY3TQOJQ"

/-- At 1111111109 the code is 081804; with its zero as a sign it is accepted too. -/
theorem signed_accepted : (decodeSecret secret).isSome ∧
    verifyTOTP secret (utf8 "+81804") 1111111109 = some 37037036 ∧
    ¬Exact secret (utf8 "+81804") 1111111109 := by
  have haccepted : verifyTOTP secret (utf8 "+81804") 1111111109 = some 37037036 := by
    decide +kernel
  refine ⟨by decide +kernel, haccepted, fun h => ?_⟩
  exact absurd (h.1 _ haccepted).2 (by decide +kernel)

/-- The code as it is printed, between blanks. -/
theorem printed_exact : Exact secret (utf8 " 081804 ") 1111111109 :=
  (verifyTOTP_exact_iff _ _ (Option.eq_some_of_isSome (by decide +kernel))).mpr (by decide +kernel)

end Demo

end Sesame.Authkit
