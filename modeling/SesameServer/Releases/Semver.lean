import SesameServer.Lib.Outcome
import SesameServer.Lib.Text
import SesameServer.Lib.Utf8

/- Release versions (`internal/releases/semver.go`): SemVer in its canonical form, without build
   metadata.

   1. `ParseVersion`, `ValidVersion`.
   2. `validVersion_bytes` — a version is made of digits, letters, `-` and `.`. -/
namespace Sesame.Releases
open Outcome Text

structure Identifier where
  raw : Bytes
  numeric : Bool
  number : Nat
  deriving DecidableEq

structure Version where
  major : Nat
  minor : Nat
  patch : Nat
  prerelease : List Identifier
  deriving DecidableEq

def parseNumber (part : Bytes) : Except String Nat :=
  if part = [] ∨ (1 < part.length ∧ part.head? = some 48) then .error "version must be canonical SemVer"
  else
    match parseUint part with
    | some n => .ok n
    | none => .error "version must be canonical SemVer"

def identifierByte (b : UInt8) : Bool := isDigit b || isLower b || isUpper b || b == 45

def parseIdentifier (part : Bytes) : Except String Identifier :=
  if part = [] ∨ part.all identifierByte = false then .error "version prerelease is invalid"
  else if part.all isDigit then
    if 1 < part.length ∧ part.head? = some 48 then .error "version prerelease is invalid"
    -- a number that does not fit is the largest one
    else .ok ⟨part, true, (parseUint part).getD (2 ^ 64 - 1)⟩
  else .ok ⟨part, false, 0⟩

def parsePrerelease : Option Bytes → Except String (List Identifier)
  | none => .ok []
  | some [] => .error "version prerelease is invalid"
  | some text => (text.splitOn 46).mapM parseIdentifier

def ParseVersion (raw : Bytes) : Except String Version := do
  check (raw = [] ∨ Utf8.trimSpace raw ≠ raw ∨ raw.contains 43 = true)
    "version must be canonical SemVer without build metadata"
  let halves := match cut (utf8 "-") raw with
    | some (core, prerelease) => (core, some prerelease)
    | none => (raw, none)
  match halves.1.splitOn 46 with
  | [major, minor, patch] => do
    let major ← parseNumber major
    let minor ← parseNumber minor
    let patch ← parseNumber patch
    let identifiers ← parsePrerelease halves.2
    pure ⟨major, minor, patch, identifiers⟩
  | _ => throw "version must be canonical SemVer"

def ValidVersion (raw : Bytes) : Bool := (ParseVersion raw).isOk

/-! What a version is made of. -/

/-- A digit, a letter, `-` or `.`. -/
def versionByte (b : UInt8) : Bool := identifierByte b || b == 46

theorem parseNumber_digits {part : Bytes} {n : Nat} (h : parseNumber part = .ok n) :
    part.all isDigit = true := by
  unfold parseNumber at h
  split at h
  · cases h
  · split at h
    · next hn => exact (Option.ite_none_right_eq_some.mp hn).1.2.1
    · cases h

theorem parseIdentifier_bytes {part : Bytes} {i : Identifier} (h : parseIdentifier part = .ok i) :
    part.all identifierByte = true := by
  unfold parseIdentifier at h
  split at h
  · cases h
  · next hok => simpa using (not_or.mp hok).2

theorem parsePrerelease_bytes {text : Bytes} {is : List Identifier}
    (h : parsePrerelease (some text) = .ok is) : ∀ b ∈ text, versionByte b = true := by
  intro b hb
  cases text with
  | nil => cases h
  | cons c text =>
    rcases mem_of_splitOn (x := 46) hb with rfl | ⟨part, hpart, hb⟩
    · rfl
    · obtain ⟨i, hi⟩ := (mapM_ok h).1 part hpart
      have := List.all_eq_true.mp (parseIdentifier_bytes hi) b hb
      simp [versionByte, this]

theorem core_bytes {core major minor patch : Bytes} {x y z : Nat}
    (hsplit : core.splitOn 46 = [major, minor, patch]) (hx : parseNumber major = .ok x)
    (hy : parseNumber minor = .ok y) (hz : parseNumber patch = .ok z) :
    ∀ b ∈ core, versionByte b = true := by
  intro b hb
  rcases mem_of_splitOn (x := 46) hb with rfl | ⟨part, hpart, hb⟩
  · rfl
  · have hdigit : isDigit b = true := by
      rw [hsplit] at hpart
      simp only [List.mem_cons, List.not_mem_nil, or_false] at hpart
      rcases hpart with rfl | rfl | rfl
      · exact List.all_eq_true.mp (parseNumber_digits hx) b hb
      · exact List.all_eq_true.mp (parseNumber_digits hy) b hb
      · exact List.all_eq_true.mp (parseNumber_digits hz) b hb
    simp [versionByte, identifierByte, hdigit]

/-- **A version is made of digits, letters, `-` and `.`.** -/
theorem ParseVersion_bytes {raw : Bytes} {version : Version} (h : ParseVersion raw = .ok version) :
    ∀ b ∈ raw, versionByte b = true := by
  unfold ParseVersion at h
  obtain ⟨-, -, h⟩ := except_bind_ok.mp h
  dsimp only at h
  split at h
  case h_2 => cases h
  next major minor patch hsplit =>
  obtain ⟨x, hx, h⟩ := except_bind_ok.mp h
  obtain ⟨y, hy, h⟩ := except_bind_ok.mp h
  obtain ⟨z, hz, h⟩ := except_bind_ok.mp h
  obtain ⟨is, his, -⟩ := except_bind_ok.mp h
  have hcore := core_bytes hsplit hx hy hz
  intro b hb
  cases hcut : cut (utf8 "-") raw with
  | none =>
    rw [hcut] at hcore
    exact hcore b hb
  | some halves =>
    rw [hcut] at hcore his
    rw [cut_eq hcut] at hb
    rcases List.mem_append.mp hb with hb | hb
    · rcases List.mem_append.mp hb with hb | hb
      · exact hcore b hb
      · rw [show utf8 "-" = [45] by decide, List.mem_singleton] at hb
        rw [hb]
        rfl
    · exact parsePrerelease_bytes his b hb

theorem validVersion_bytes {raw : Bytes} (h : ValidVersion raw = true) :
    ∀ b ∈ raw, versionByte b = true := by
  unfold ValidVersion at h
  cases hparse : ParseVersion raw with
  | ok version => exact ParseVersion_bytes hparse
  | error e =>
    rw [hparse] at h
    cases h

end Sesame.Releases
