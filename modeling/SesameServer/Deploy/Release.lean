import Mathlib.Algebra.Ring.Nat
import Mathlib.Data.Nat.Log
import SesameServer.Lib.Outcome

/- Releases of the deployment script (`scripts/release-contract.mjs`, `parseRelease`,
   `compareVersions` and `attestationTarget` of `scripts/deploy-release-lib.mjs`).

   1. `Text` — JavaScript strings, with `trim`, line terminators and `Number` of digits.
   2. `releaseIdentity`, `digestReference`, `parseRelease` — what a manifest must carry.
   3. `compareVersions` — the order of versions.
   4. `attestationTarget` — where an image's provenance is looked up.

   A manifest is read after `JSON.parse`; what is not there is `none`, and reads as `undefined`. -/
namespace Sesame.Deploy

/-! Texts. -/

abbrev Text := List Char

/-- A JavaScript error: its message, and the code of a failed system call. -/
structure Err where
  message : Text
  code : Option Text := none
  deriving DecidableEq

/-- `throw new Error(…)`. -/
def raise {α : Type} (parts : List Text) : Except Err α := .error ⟨parts.flatten, none⟩

/-- What `\s` matches and `trim` removes. -/
def isSpace (c : Char) : Bool :=
  let n := c.toNat
  (9 ≤ n && n ≤ 13) || n == 0x20 || n == 0xA0 || n == 0x1680 || (0x2000 ≤ n && n ≤ 0x200A) ||
    n == 0x2028 || n == 0x2029 || n == 0x202F || n == 0x205F || n == 0x3000 || n == 0xFEFF

/-- What `.` does not match. -/
def isLineTerminator (c : Char) : Bool :=
  c == '\n' || c == '\r' || c.toNat == 0x2028 || c.toNat == 0x2029

def trim (t : Text) : Text := ((t.dropWhile isSpace).reverse.dropWhile isSpace).reverse

def isDigit (c : Char) : Bool := '0' ≤ c && c ≤ '9'

def isHex (c : Char) : Bool := isDigit c || ('a' ≤ c && c ≤ 'f')

def undefinedText : Text := "undefined".toList

/-- A whole number as a double: 53 bits, ties to even, and Infinity as `2 ^ 1024`. -/
def toDouble (n : Nat) : Nat :=
  if n < 2 ^ 53 then n
  else
    let e := n.log2 - 52
    let q := n / 2 ^ e
    let r := n % 2 ^ e
    let up := 2 ^ (e - 1) < r || (r == 2 ^ (e - 1) && q % 2 == 1)
    min ((if up then q + 1 else q) * 2 ^ e) (2 ^ 1024)

/-- `Number(t)` of decimal digits. -/
def number (t : Text) : Nat := toDouble (t.foldl (fun n c => n * 10 + (c.toNat - 48)) 0)

/-! Identities. -/

/-- `0|[1-9]\d*`. -/
def isNumber (t : Text) : Bool :=
  match t with
  | [] => false
  | ['0'] => true
  | c :: _ => c != '0' && t.all isDigit

/-- `\d+`. -/
def isNumeric (t : Text) : Bool := !t.isEmpty && t.all isDigit

/-- `[0-9A-Za-z-]+`. -/
def isIdentifier (t : Text) : Bool :=
  !t.isEmpty && t.all fun c => isDigit c || ('A' ≤ c && c ≤ 'Z') || ('a' ≤ c && c ≤ 'z') || c == '-'

structure VersionText where
  numbers : Text × Text × Text
  prerelease : Option Text
  deriving DecidableEq

/-- `N.N.N`, with a prerelease after a hyphen or without. -/
def matchVersion (t : Text) : Option VersionText :=
  let core := t.takeWhile (· != '-')
  let prerelease := match t.dropWhile (· != '-') with
    | [] => none
    | _ :: rest => some rest
  match core.splitOn '.' with
  | [a, b, c] =>
    if isNumber a && isNumber b && isNumber c && prerelease.all (fun p => (p.splitOn '.').all isIdentifier)
    then some ⟨(a, b, c), prerelease⟩
    else none
  | _ => none

/-- `t.replace(/^v/, '')`. -/
def withoutV : Text → Text
  | 'v' :: rest => rest
  | t => t

def releaseIdentity (versionInput commitInput : Text) : Except Err (Text × Text) := do
  let version := withoutV (trim versionInput)
  match matchVersion version with
  | none => raise ["Release version must be a complete semantic version tag.".toList]
  | some parts =>
    if parts.prerelease.any fun p => (p.splitOn '.').any fun identifier =>
        isNumeric identifier && 1 < identifier.length && identifier.head? == some '0' then
      raise ["Numeric prerelease identifiers must not contain leading zeroes.".toList]
    else
      let commit := (trim commitInput).map Char.toLower
      if commit.length == 40 && commit.all isHex then
        return (version, commit)
      else
        raise ["Release commit must be a full 40-character Git SHA.".toList]

/-! Images. -/

inductive Component where
  | api | account | admin
  deriving DecidableEq

namespace Component

def all : List Component := [.api, .account, .admin]

/-- The line of the env file that names the image. -/
def field : Component → Text
  | .api => "SESAME_API_IMAGE".toList
  | .account => "SESAME_ACCOUNT_IMAGE".toList
  | .admin => "SESAME_ADMIN_IMAGE".toList

def label : Component → Text
  | .api => "API".toList
  | .account => "Account".toList
  | .admin => "Admin".toList

def text : Component → Text
  | .api => "api".toList
  | .account => "account".toList
  | .admin => "admin".toList

theorem mem_all (c : Component) : c ∈ all := by cases c <;> decide

end Component

structure Images (α : Type) where
  api : α
  account : α
  admin : α
  deriving DecidableEq

namespace Images

variable {α β : Type}

def get (images : Images α) : Component → α
  | .api => images.api
  | .account => images.account
  | .admin => images.admin

def map (f : α → β) (images : Images α) : Images β := ⟨f images.api, f images.account, f images.admin⟩

theorem get_map (f : α → β) (images : Images α) (c : Component) :
    (images.map f).get c = f (images.get c) := by cases c <;> rfl

end Images

structure Image where
  reference : Text
  name : Text
  digest : Text
  deriving DecidableEq

/-- `/^([^\s@]+)@sha256:([0-9a-f]{64})$/`. -/
def digestReference (value component : Text) : Except Err Image :=
  let reference := trim value
  let name := reference.takeWhile (· != '@')
  let rest := reference.dropWhile (· != '@')
  let hex := rest.drop 8
  if !name.isEmpty && name.all (!isSpace ·) && rest.take 8 == "@sha256:".toList && hex.length == 64 &&
      hex.all isHex then
    .ok ⟨reference, name, "sha256:".toList ++ hex⟩
  else
    raise [component, " image must use an immutable sha256 digest reference.".toList]

/-- An image of a manifest or of a deployment record: an object, or the reference alone. -/
inductive RawImage where
  | named (reference name digest : Option Text)
  | plain (reference : Text)
  deriving DecidableEq

def parseReleaseImage (value : Option RawImage) (label : Text) : Except Err Image :=
  match value with
  | some (.named reference name digest) => do
    let image ← digestReference (reference.getD undefinedText) label
    if name ≠ some image.name ∨ digest ≠ some image.digest then
      raise [label, " image must carry a name and digest that match its digest reference.".toList]
    else
      return image
  | some (.plain reference) => digestReference reference label
  | none => digestReference undefinedText label

abbrev RawImages := Images (Option RawImage)

def Image.raw (image : Image) : RawImage :=
  .named (some image.reference) (some image.name) (some image.digest)

/-- `.reference` of an image; of what is missing, a TypeError. -/
def rawReference : Option RawImage → Option Text
  | none => none
  | some (.plain _) => some undefinedText
  | some (.named reference _ _) => some (reference.getD undefinedText)

structure Release where
  version : Text
  commit : Text
  images : Images Image
  setDigest : Text
  deriving DecidableEq

structure Manifest where
  schemaVersion : Option Int
  version : Option Text
  commit : Option Text
  images : Option RawImages
  deriving DecidableEq

/-- `sha256` is the hexadecimal digest of the manifest's text, `raw` what it parses to. -/
def parseRelease (sha256 : Text → Text) (text : Text) (raw : Manifest) : Except Err Release := do
  if raw.schemaVersion ≠ some 1 then
    raise ["The server release manifest must carry schemaVersion 1.".toList]
  let (version, commit) ← releaseIdentity (raw.version.getD undefinedText) (raw.commit.getD undefinedText)
  let value (c : Component) : Option RawImage := raw.images.bind (·.get c)
  let api ← parseReleaseImage (value .api) (Component.label .api)
  let account ← parseReleaseImage (value .account) (Component.label .account)
  let admin ← parseReleaseImage (value .admin) (Component.label .admin)
  return ⟨version, commit, ⟨api, account, admin⟩, sha256 text⟩

/-! What is known of an image that was accepted. -/

theorem isSpace_of_isLineTerminator {c : Char} (h : isLineTerminator c = true) : isSpace c = true := by
  simp only [isLineTerminator, Bool.or_eq_true, beq_iff_eq] at h
  rcases h with ((rfl | rfl) | h) | h
  · decide
  · decide
  · simp [isSpace, h]
  · simp [isSpace, h]

theorem not_isSpace_of_isHex {c : Char} (h : isHex c = true) : isSpace c = false := by
  have hn : 48 ≤ c.toNat ∧ c.toNat ≤ 102 := by
    simp only [isHex, isDigit, Bool.or_eq_true, Bool.and_eq_true, decide_eq_true_eq, Char.le_def] at h
    simp only [UInt32.le_iff_toNat_le] at h
    have h0 : '0'.val.toNat = 48 := rfl
    have h9 : '9'.val.toNat = 57 := rfl
    have ha : 'a'.val.toNat = 97 := rfl
    have hf : 'f'.val.toNat = 102 := rfl
    have hc : c.toNat = c.val.toNat := rfl
    omega
  simp only [isSpace, Bool.or_eq_false_iff, Bool.and_eq_false_iff, decide_eq_false_iff_not,
    beq_eq_false_iff_ne]
  omega

theorem digestReference_plain {value component : Text} {image : Image}
    (h : digestReference value component = .ok image) : ∀ c ∈ image.reference, isSpace c = false := by
  unfold digestReference at h
  dsimp only at h
  split at h
  · next hmatch =>
    cases h
    simp only [Bool.and_eq_true, List.all_eq_true, beq_iff_eq, Bool.not_eq_true'] at hmatch
    obtain ⟨⟨⟨⟨-, hname⟩, hmark⟩, -⟩, hhex⟩ := hmatch
    intro c hc
    dsimp only at hc
    rw [← List.takeWhile_append_dropWhile (p := fun c => c != '@') (l := trim value),
      ← List.take_append_drop 8 (List.dropWhile _ _), List.mem_append, List.mem_append, hmark] at hc
    rcases hc with hc | hc | hc
    · exact hname c hc
    · have hspace : ("@sha256:".toList.all fun c => isSpace c == false) = true := by decide
      exact beq_iff_eq.mp (List.all_eq_true.mp hspace c hc)
    · exact not_isSpace_of_isHex (hhex c hc)
  · cases h

theorem parseReleaseImage_plain {value : Option RawImage} {label : Text} {image : Image}
    (h : parseReleaseImage value label = .ok image) : ∀ c ∈ image.reference, isSpace c = false := by
  unfold parseReleaseImage at h
  split at h
  · next reference name digest =>
    cases hread : digestReference (reference.getD undefinedText) label with
    | error e =>
      rw [hread] at h
      cases h
    | ok read =>
      rw [hread] at h
      dsimp only [Bind.bind, Except.bind] at h
      split at h
      · cases h
      · cases h
        exact digestReference_plain hread
  · exact digestReference_plain h
  · exact digestReference_plain h

/-- **No reference of a release can break a line.** -/
theorem parseRelease_plain {sha256 : Text → Text} {text : Text} {raw : Manifest} {release : Release}
    (h : parseRelease sha256 text raw = .ok release) (c : Component) :
    ∀ x ∈ (release.images.get c).reference, isLineTerminator x = false := by
  unfold parseRelease at h
  split at h
  · cases h
  · simp only [Outcome.except_bind_ok] at h
    obtain ⟨identity, -, api, hapi, account, haccount, admin, hadmin, h⟩ := h
    cases h
    have hplain : ∀ x ∈ ((⟨api, account, admin⟩ : Images Image).get c).reference, isSpace x = false := by
      cases c with
      | api => exact parseReleaseImage_plain hapi
      | account => exact parseReleaseImage_plain haccount
      | admin => exact parseReleaseImage_plain hadmin
    intro x hx
    cases hterm : isLineTerminator x with
    | false => rfl
    | true =>
      have := isSpace_of_isLineTerminator hterm
      rw [hplain x hx] at this
      cases this

/-! Versions. -/

structure Version where
  numbers : Nat × Nat × Nat
  prerelease : Option Text
  deriving DecidableEq

def versionParts (version : Text) : Except Err Version :=
  match matchVersion version with
  | some parts =>
    let (a, b, c) := parts.numbers
    .ok ⟨(number a, number b, number c), parts.prerelease⟩
  | none => raise ["Version ".toList, version, " is not a supported release version.".toList]

def compareIdentifiers : List Text → List Text → Ordering
  | [], [] => .eq
  | [], _ :: _ => .lt
  | _ :: _, [] => .gt
  | x :: xs, y :: ys =>
    match isNumeric x, isNumeric y with
    | true, true => (compare (number x) (number y)).then (compareIdentifiers xs ys)
    | true, false => .lt
    | false, true => .gt
    | false, false => if x = y then compareIdentifiers xs ys else if x < y then .lt else .gt

def comparePrerelease (left right : Option Text) : Ordering :=
  if left = right then .eq
  else match left, right with
    | none, _ => .gt
    | _, none => .lt
    | some a, some b => compareIdentifiers (a.splitOn '.') (b.splitOn '.')

def compareVersions (left right : Text) : Except Err Ordering := do
  let a ← versionParts left
  let b ← versionParts right
  return (compare a.numbers.1 b.numbers.1).then <| (compare a.numbers.2.1 b.numbers.2.1).then <|
    (compare a.numbers.2.2 b.numbers.2.2).then <| comparePrerelease a.prerelease b.prerelease

theorem compareVersions_self {version : Text} {order : Ordering}
    (h : compareVersions version version = .ok order) : order = .eq := by
  unfold compareVersions at h
  cases hparts : versionParts version with
  | error e => simp [hparts, Bind.bind, Except.bind] at h
  | ok parts =>
    simp only [hparts, Bind.bind, Except.bind, Pure.pure, Except.pure, Except.ok.injEq] at h
    simpa [comparePrerelease, Std.ReflCmp.compare_self] using h.symm

/-! Provenance. -/

def releaseRepository : Text := "usesesame/sesame-server".toList

def releaseWorkflow : Text := ".github/workflows/release.yml".toList

structure AttestationTarget where
  reference : Text
  repository : Text
  signerWorkflow : Text
  sourceRef : Text
  deriving DecidableEq

/-- Of the release it reads the version and the image. -/
def attestationTarget (version : Text) (image : Image) (component : Component) :
    Except Err AttestationTarget :=
  let the := ["The ".toList, component.text, " image ".toList, image.name]
  match image.name.splitOn '/' with
  | [host, owner, path] =>
    if host = "ghcr.io".toList ∧ owner ≠ [] ∧ path ≠ [] then
      let suffix := '-' :: component.text
      if path.length ≤ suffix.length ∨ ¬suffix.isSuffixOf path then
        raise (the ++ [" does not follow the release repository naming of a ".toList, suffix,
          " image, so its provenance cannot be verified.".toList])
      else
        let repository := owner ++ '/' :: path.take (path.length - suffix.length)
        if repository ≠ releaseRepository then
          raise (the ++ [" names the release repository ".toList, repository,
            ", not the pinned repository ".toList, releaseRepository,
            ", so its provenance cannot be verified.".toList])
        else
          .ok ⟨image.reference, releaseRepository, releaseRepository ++ '/' :: releaseWorkflow,
            "refs/tags/v".toList ++ version⟩
    else
      raise (the ++ [" is not hosted on ghcr.io, so its provenance cannot be verified.".toList])
  | _ => raise (the ++ [" is not hosted on ghcr.io, so its provenance cannot be verified.".toList])

end Sesame.Deploy
