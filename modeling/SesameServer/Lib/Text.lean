import SesameServer.Lib.Encoding

/- Text as Go's `strings`, `strconv` and `net/url` take it apart; `strings.Split` on one byte
   is Mathlib's `splitOn`.

   1. `cut`, `parseUint`, the character classes, and `URL`, what `url.Parse` finds.
   2. `cut_eq`, `mem_of_splitOn` — what was taken apart is made of its parts. -/
namespace Text

def isDigit (b : UInt8) : Bool := 48 ≤ b && b ≤ 57
def isLower (b : UInt8) : Bool := 97 ≤ b && b ≤ 122
def isUpper (b : UInt8) : Bool := 65 ≤ b && b ≤ 90
def isLowerHex (b : UInt8) : Bool := isDigit b || (97 ≤ b && b ≤ 102)

/-- `strings.Cut`: what comes before and after the first `sep`. -/
def cut (sep : Bytes) : Bytes → Option (Bytes × Bytes)
  | [] => if sep = [] then some ([], []) else none
  | b :: rest =>
    if sep.isPrefixOf (b :: rest) then some ([], (b :: rest).drop sep.length)
    else (cut sep rest).map fun p => (b :: p.1, p.2)

/-- `strings.ContainsAny(s, "\r\n")`. -/
def hasLineBreak (s : Bytes) : Bool := s.any fun b => b == 13 || b == 10

/-- `strconv.ParseUint(s, 10, 64)`. -/
def parseUint (s : Bytes) : Option Nat :=
  if s ≠ [] ∧ s.all isDigit = true ∧ Encoding.spelt s < 2 ^ 64 then some (Encoding.spelt s) else none

/-- `^[0-9a-f]{64}$`. -/
def sha256Pattern (s : Bytes) : Bool := s.length == 64 && s.all isLowerHex

/-- What `url.Parse` finds. -/
structure URL where
  scheme : Bytes
  host : Bytes
  hostname : Bytes
  /-- The address holds user info. -/
  hasUser : Bool
  opaquePart : Bytes
  fragment : Bytes
  deriving DecidableEq

theorem cut_eq {sep s a b : Bytes} (h : cut sep s = some (a, b)) : s = a ++ sep ++ b := by
  induction s generalizing a with
  | nil =>
    obtain ⟨hsep, h⟩ := Option.ite_none_right_eq_some.mp h
    cases h
    simp [hsep]
  | cons c rest ih =>
    unfold cut at h
    split at h
    · next hpre =>
      cases h
      obtain ⟨t, ht⟩ := List.isPrefixOf_iff_prefix.mp hpre
      simp [← ht]
    · obtain ⟨p, hp, heq⟩ := Option.map_eq_some_iff.mp h
      cases heq
      rw [ih hp]
      simp

/-- A byte of the text is the separator or belongs to a part. -/
theorem mem_of_splitOn {x b : UInt8} {s : Bytes} (h : b ∈ s) : b = x ∨ ∃ part ∈ s.splitOn x, b ∈ part := by
  have hjoin : ∀ parts : List Bytes, b ∈ [x].intercalate parts → b = x ∨ ∃ part ∈ parts, b ∈ part := by
    intro parts hb
    induction parts with
    | nil => simp at hb
    | cons part parts ih =>
      by_cases hnil : parts = []
      · subst hnil
        exact .inr ⟨part, by simp, by simpa using hb⟩
      · rw [List.intercalate_cons_of_ne_nil hnil, List.mem_append, List.mem_append] at hb
        rcases hb with (hb | hb) | hb
        · exact .inr ⟨part, by simp, hb⟩
        · exact .inl (List.mem_singleton.mp hb)
        · rcases ih hb with hb | ⟨other, hother, hb⟩
          · exact .inl hb
          · exact .inr ⟨other, List.mem_cons_of_mem _ hother, hb⟩
  exact hjoin _ ((@List.intercalate_splitOn _ s _ _ x).symm ▸ h)

end Text
