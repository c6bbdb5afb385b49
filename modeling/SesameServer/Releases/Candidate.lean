import Mathlib.Data.List.Sort
import SesameServer.Lib.Json
import SesameServer.Lib.Lines
import SesameServer.Lib.Sha256
import SesameServer.Releases.Semver

/- Release candidates (`internal/httpapi/release_candidates.go`, `ReleaseArtifact` and
   `ReleaseCandidate` of `internal/admin/types.go`).

   1. `Evidence` — a `map[string]any` as it was read from JSON, by its entries in the order of
      their keys; a nil map is `none`, and `Evidence.same` is `reflect.DeepEqual`.
   2. `releaseCandidateValidationError` — the checks, in their order.
   3. `releaseSetDigest`, `releaseCandidateSigningPayload` — the lines that are hashed and signed.

   `url.Parse`, SHA-256 and `json.Marshal` are parameters. -/
namespace Sesame.Releases

open Outcome Text Encoding

/-! Types. -/

/-- A `float64` that JSON was read into: it is finite, and a zero has a sign. -/
structure Number where
  value : Rat
  minusZero : Bool := false
  of_minusZero : minusZero = true → value = 0 := by decide
  deriving DecidableEq

/-- A value that JSON was read into. Arrays and objects are `nested`. -/
inductive Value (X : Type) where
  | null
  | bool (b : Bool)
  | number (n : Number)
  | text (s : Bytes)
  | nested (x : X)
  deriving DecidableEq

structure Evidence (X : Type) where
  entries : List (Bytes × Value X)
  sorted : entries.Pairwise fun x y => Json.Before x.1 y.1
  deriving DecidableEq

/-- `evidence[key]`. -/
def Evidence.get {X : Type} (evidence : Evidence X) (key : Bytes) : Option (Value X) :=
  (evidence.entries.find? fun entry => entry.1 = key).map (·.2)

/-- `len(evidence) == 0`, for a nil map too. -/
def Evidence.isEmpty {X : Type} : Option (Evidence X) → Bool
  | none => true
  | some evidence => evidence.entries.isEmpty

/-- `reflect.DeepEqual` of two values, given it for nested ones. Numbers are compared by `==`. -/
def Value.same {X : Type} (deep : X → X → Bool) : Value X → Value X → Bool
  | .null, .null => true
  | .bool b, .bool b' => b = b'
  | .number n, .number n' => n.value = n'.value
  | .text s, .text s' => s = s'
  | .nested x, .nested x' => deep x x'
  | _, _ => false

def sameEntries {X : Type} (deep : X → X → Bool) : List (Bytes × Value X) → List (Bytes × Value X) → Bool
  | [], [] => true
  | (key, value) :: rest, (key', value') :: rest' =>
    key = key' && value.same deep value' && sameEntries deep rest rest'
  | _, _ => false

/-- `reflect.DeepEqual` of two maps. -/
def Evidence.same {X : Type} (deep : X → X → Bool) : Option (Evidence X) → Option (Evidence X) → Bool
  | none, none => true
  | some evidence, some evidence' => sameEntries deep evidence.entries evidence'.entries
  | _, _ => false

/-- A `time.Time`; no location is UTC. -/
structure Time where
  nanos : Int
  location : Option Bytes
  deriving DecidableEq

def Time.zero : Time := ⟨0, none⟩

structure ReleaseArtifact (X : Type) where
  id : Bytes := []
  format : Bytes := []
  architecture : Bytes := []
  url : Bytes := []
  objectKey : Bytes := []
  sha256 : Bytes := []
  bytes : Int := 0
  updaterCapable : Bool := false
  updaterSignature : Bytes := []
  updaterSigningKeyID : Bytes := []
  distributionClass : Bytes := []
  sigstoreEvidence : Option (Evidence X) := none
  sigstoreVerified : Bool := false
  sigstoreIssuer : Bytes := []
  sigstoreIdentity : Bytes := []
  sigstoreBundleSHA256 : Bytes := []
  authenticodeEvidence : Option (Evidence X) := none
  authenticodeVerified : Bool := false
  authenticodeSubject : Bytes := []
  authenticodeThumbprint : Bytes := []
  verifiedAt : Time := .zero
  candidatePayload : Bytes := []
  candidateSigningKeyID : Bytes := []
  candidateSignature : Bytes := []
  deriving DecidableEq

structure ReleaseCandidate (X : Type) where
  schemaVersion : Int
  version : Bytes
  channel : Bytes
  platform : Bytes
  architecture : Bytes
  supportedWindows : Bytes
  releaseNotesURL : Bytes
  setDigest : Bytes
  artifacts : List (ReleaseArtifact X)
  candidateSigningKeyID : Bytes
  candidateSignature : Bytes
  signingPayload : Bytes := []
  deriving DecidableEq

/-- A digest of SHA-256. -/
abbrev Digest := { b : Bytes // b.length = 32 }

/-! Checks. -/

def windows : Bytes := utf8 "windows"
def linux : Bytes := utf8 "linux"

def maxTextBytes : Nat := 16 * 1024

/-- Too long, or more than one line. -/
def badLine (value : Bytes) : Bool := value.length > maxTextBytes || hasLineBreak value

def badText (value : Bytes) : Bool := value.isEmpty || badLine value

def validHTTPS (parseURL : Bytes → Option URL) (raw : Bytes) : Bool :=
  match parseURL raw with
  | some url => url.scheme = utf8 "https" && !url.host.isEmpty && !url.hasUser && url.fragment.isEmpty
  | none => false

def objectKeyByte (b : UInt8) : Bool := isLower b || isUpper b || isDigit b || (utf8 "._/-").contains b

def validArtifactObjectKey (value : Bytes) : Bool :=
  !value.isEmpty && value.length ≤ 1024 && value.head? != some 47 && (cut (utf8 "//") value).isNone &&
    (value.splitOn 47).all (fun part => !part.isEmpty && part != utf8 "." && part != utf8 "..") &&
    value.all objectKeyByte

/-- `releases.ArtifactEligible`. -/
def ArtifactEligible (distributionClass : Bytes) (sigstoreVerified authenticodeVerified : Bool) : Bool :=
  sigstoreVerified &&
    if distributionClass = utf8 "early_access" then !authenticodeVerified
    else if distributionClass = utf8 "production" then authenticodeVerified
    else false

section
variable {X : Type} [DecidableEq X]

def validSigstoreCandidateEvidence (candidate : ReleaseCandidate X) (artifact : ReleaseArtifact X) : Bool :=
  let workflow := if candidate.platform = linux
    then utf8 ".github/workflows/release-linux-early-access.yml"
    else utf8 ".github/workflows/release-early-access.yml"
  let ref := utf8 "refs/tags/v" ++ candidate.version
  let expectedIdentity := utf8 "https://github.com/usesesame/sesame-desktop/" ++ workflow ++ utf8 "@" ++ ref
  artifact.sigstoreVerified &&
    artifact.sigstoreIssuer = utf8 "https://token.actions.githubusercontent.com" &&
    artifact.sigstoreIdentity = expectedIdentity && sha256Pattern artifact.sigstoreBundleSHA256 &&
    !Evidence.isEmpty artifact.sigstoreEvidence &&
    match artifact.sigstoreEvidence with
    | none => false
    | some evidence =>
      evidence.get (utf8 "schemaVersion") = some (.number {value := 1}) &&
      evidence.get (utf8 "verified") = some (.bool true) &&
      evidence.get (utf8 "transparencyLogVerified") = some (.bool true) &&
      evidence.get (utf8 "issuer") = some (.text artifact.sigstoreIssuer) &&
      evidence.get (utf8 "certificateIdentity") = some (.text artifact.sigstoreIdentity) &&
      evidence.get (utf8 "repository") = some (.text (utf8 "usesesame/sesame-desktop")) &&
      evidence.get (utf8 "workflow") = some (.text workflow) &&
      evidence.get (utf8 "ref") = some (.text ref) &&
      evidence.get (utf8 "artifactSha256") = some (.text artifact.sha256) &&
      evidence.get (utf8 "artifactBundleSha256") = some (.text artifact.sigstoreBundleSHA256)

/-- `artifact.Format + ":" + artifact.Architecture`. -/
def ReleaseArtifact.key (artifact : ReleaseArtifact X) : Bytes :=
  artifact.format ++ 58 :: artifact.architecture

def expectedFormats (candidate : ReleaseCandidate X) : List Bytes :=
  if candidate.platform = linux then [utf8 "appimage", utf8 "deb", utf8 "rpm"] else [utf8 "nsis"]

variable (parseURL : Bytes → Option URL)

/-- The body of the loop over the artifacts, after the key. -/
def artifactValidationError (candidate : ReleaseCandidate X) (artifact : ReleaseArtifact X) :
    Except String Unit := do
  check ([artifact.format, artifact.architecture, artifact.url, artifact.objectKey, artifact.sha256,
    artifact.distributionClass, artifact.sigstoreIssuer, artifact.sigstoreIdentity,
    artifact.sigstoreBundleSHA256].any badText = true) "artifact-text"
  check ([artifact.updaterSignature, artifact.updaterSigningKeyID, artifact.authenticodeSubject,
    artifact.authenticodeThumbprint].any badLine = true) "artifact-evidence-text"
  check (validHTTPS parseURL artifact.url = false ∨ validArtifactObjectKey artifact.objectKey = false)
    "artifact-location"
  check (sha256Pattern artifact.sha256 = false ∨ artifact.bytes ≤ 0 ∨
    8 * 1024 * 1024 * 1024 < artifact.bytes) "artifact-integrity"
  let expectedUpdaterCapability := candidate.platform = windows ∧ artifact.format = utf8 "nsis"
  check (artifact.updaterCapable ≠ decide expectedUpdaterCapability ∨
    (artifact.updaterCapable = true ∧
      (artifact.updaterSignature.length < 64 ∨ artifact.updaterSigningKeyID = [])) ∨
    (artifact.updaterCapable = false ∧
      (artifact.updaterSignature ≠ [] ∨ artifact.updaterSigningKeyID ≠ []))) "updater-capability"
  check (validSigstoreCandidateEvidence candidate artifact = false) "sigstore-evidence"
  check (artifact.authenticodeVerified = true ∧ (Evidence.isEmpty artifact.authenticodeEvidence = true ∨
    artifact.authenticodeSubject = [] ∨ artifact.authenticodeThumbprint = [])) "authenticode-evidence"
  check (ArtifactEligible artifact.distributionClass artifact.sigstoreVerified
    artifact.authenticodeVerified = false) "distribution-eligibility"

/-- The loop; `seen` are the keys before. -/
def artifactsValidationError (candidate : ReleaseCandidate X) (seen : List Bytes) :
    List (ReleaseArtifact X) → Except String Unit
  | [] => .ok ()
  | artifact :: rest => do
    check (artifact.key ∈ seen ∨ artifact.format ∉ expectedFormats candidate ∨
      artifact.architecture ≠ candidate.architecture) "artifact-set"
    artifactValidationError parseURL candidate artifact
    artifactsValidationError candidate (artifact.key :: seen) rest

def releaseCandidateValidationError (candidate : ReleaseCandidate X) : Except String Unit := do
  check ([candidate.channel, candidate.platform, candidate.architecture, candidate.releaseNotesURL,
    candidate.setDigest, candidate.candidateSigningKeyID, candidate.candidateSignature].any badText = true)
    "required-text"
  check (candidate.schemaVersion ≠ 3) "schema-version"
  check (ValidVersion candidate.version = false) "version"
  check (candidate.channel ≠ utf8 "owner" ∧ candidate.channel ≠ utf8 "beta") "channel"
  check (candidate.platform ≠ windows ∧ candidate.platform ≠ linux) "platform"
  check (candidate.architecture ≠ utf8 "x86_64" ∧ candidate.architecture ≠ utf8 "aarch64") "platform"
  check (candidate.platform = windows ∧ candidate.supportedWindows = []) "supported-windows"
  check (candidate.platform = linux ∧ candidate.supportedWindows ≠ []) "supported-windows"
  check (validHTTPS parseURL candidate.releaseNotesURL = false ∨ sha256Pattern candidate.setDigest = false)
    "https-url"
  check (candidate.artifacts.length ≠ (expectedFormats candidate).length) "artifact-set"
  artifactsValidationError parseURL candidate [] candidate.artifacts
  check ((decodeLoosely candidate.candidateSignature).isNone = true) "candidate-signature"

end

/-! Digest and payload. -/

/-- `strings.Join(lines, "\n")`. -/
def joinLines (lines : List Bytes) : Bytes := Lines.joined 10 lines

/-- `strconv.FormatBool`. -/
def formatBool (b : Bool) : Bytes := if b then utf8 "true" else utf8 "false"

section
variable {X : Type} (sha256 : Bytes → Digest) (marshal : Option (Evidence X) → Option Bytes)

/-- The digest of the Authenticode evidence, if there is any. -/
def authenticodeDigest (artifact : ReleaseArtifact X) : Option Bytes :=
  if Evidence.isEmpty artifact.authenticodeEvidence then some []
  else (marshal artifact.authenticodeEvidence).map fun evidence => encode (sha256 evidence).1

def artifactLines (artifact : ReleaseArtifact X) : Option (List Bytes) := do
  let evidence ← marshal artifact.sigstoreEvidence
  let digest ← authenticodeDigest sha256 marshal artifact
  return [utf8 "artifact", artifact.format, artifact.architecture, artifact.url, artifact.objectKey,
    artifact.sha256, decimalInt artifact.bytes, formatBool artifact.updaterCapable,
    artifact.updaterSignature, artifact.updaterSigningKeyID, artifact.distributionClass,
    formatBool artifact.sigstoreVerified, artifact.sigstoreIssuer, artifact.sigstoreIdentity,
    artifact.sigstoreBundleSHA256, encode (sha256 evidence).1, formatBool artifact.authenticodeVerified,
    artifact.authenticodeSubject, artifact.authenticodeThumbprint, digest]

/-- `sort.Slice` by the key. -/
def sortArtifacts (artifacts : List (ReleaseArtifact X)) : List (ReleaseArtifact X) :=
  artifacts.insertionSort fun a b => ¬ Json.Before b.key a.key

def releaseSetLines (candidate : ReleaseCandidate X) : Option (List Bytes) := do
  let blocks ← (sortArtifacts candidate.artifacts).mapM (artifactLines sha256 marshal)
  return [utf8 "sesame-release-set-digest-v1", candidate.version, candidate.channel,
    candidate.platform, candidate.architecture, candidate.supportedWindows,
    candidate.releaseNotesURL] ++ blocks.flatten

def releaseSetDigest (candidate : ReleaseCandidate X) : Option Bytes :=
  (releaseSetLines sha256 marshal candidate).map fun lines => hex (sha256 (joinLines lines)).1

/-- The artifact that the updater takes, or the zero one. -/
def updaterArtifact (artifacts : List (ReleaseArtifact X)) : ReleaseArtifact X :=
  (artifacts.find? (·.updaterCapable)).getD {}

def releaseCandidateSigningPayload (candidate : ReleaseCandidate X) : Option Bytes := do
  let digest ← releaseSetDigest sha256 marshal candidate
  if digest ≠ candidate.setDigest then
    none
  else
    let updater := updaterArtifact candidate.artifacts
    let updaterBytes := if updater.updaterCapable then decimalInt updater.bytes else []
    return joinLines [utf8 "sesame-release-set-candidate-v1", candidate.version, candidate.channel,
      candidate.platform, candidate.architecture, candidate.supportedWindows,
      candidate.releaseNotesURL, candidate.setDigest, utf8 "updater", updater.format,
      updater.architecture, updater.url, updater.objectKey, updater.sha256, updaterBytes,
      updater.updaterSignature, updater.updaterSigningKeyID]

end

namespace Demo

/-! A set for Linux with one evidence map. Every text is an address, and numbers with a fraction
    are left out of the encoding; the rest is as the server has it. -/

def parseURL (_ : Bytes) : Option URL :=
  some ⟨utf8 "https", utf8 "cdn", utf8 "cdn", false, [], []⟩

def sha256 (text : Bytes) : Digest := ⟨Sha256.sum text, Sha256.size_sum text⟩

def hash : Bytes := List.replicate 64 97

def issuer : Bytes := utf8 "https://token.actions.githubusercontent.com"

def workflow : Bytes := utf8 ".github/workflows/release-linux-early-access.yml"

def ref : Bytes := utf8 "refs/tags/v1.0.0"

def identity : Bytes := utf8 "https://github.com/usesesame/sesame-desktop/" ++ workflow ++ utf8 "@" ++ ref

def evidence : Evidence Empty where
  entries := [(utf8 "artifactBundleSha256", .text hash), (utf8 "artifactSha256", .text hash),
    (utf8 "certificateIdentity", .text identity), (utf8 "issuer", .text issuer), (utf8 "ref", .text ref),
    (utf8 "repository", .text (utf8 "usesesame/sesame-desktop")),
    (utf8 "schemaVersion", .number { value := 1 }),
    (utf8 "transparencyLogVerified", .bool true), (utf8 "verified", .bool true),
    (utf8 "workflow", .text workflow)]
  sorted := by decide +kernel

/-- A value as `json.Marshal` writes it. -/
def literal : Value Empty → Option Bytes
  | .null => some (utf8 "null")
  | .bool b => some (formatBool b)
  | .number n => if n.value.isInt ∧ n.value.num.natAbs < 10 ^ 21 then some (decimalInt n.value.num) else none
  | .text s => some ((Json.quote s).flatMap Utf8.Piece.bytes)

def marshal : Option (Evidence Empty) → Option Bytes
  | none => some (utf8 "null")
  | some map => do
    let members ← map.entries.mapM fun (key, value) =>
      (literal value).map fun text => (Json.quote key).flatMap Utf8.Piece.bytes ++ utf8 ":" ++ text
    return utf8 "\x7b" ++ (utf8 ",").intercalate members ++ utf8 "\x7d"

def artifact (format : String) : ReleaseArtifact Empty where
  format := utf8 format
  architecture := utf8 "x86_64"
  url := utf8 "https://cdn/sesame"
  objectKey := utf8 "sesame/1.0.0"
  sha256 := hash
  bytes := 1
  distributionClass := utf8 "early_access"
  sigstoreEvidence := some evidence
  sigstoreVerified := true
  sigstoreIssuer := issuer
  sigstoreIdentity := identity
  sigstoreBundleSHA256 := hash

def unsigned : ReleaseCandidate Empty where
  schemaVersion := 3
  version := utf8 "1.0.0"
  channel := utf8 "beta"
  platform := linux
  architecture := utf8 "x86_64"
  supportedWindows := []
  releaseNotesURL := utf8 "https://cdn/notes"
  setDigest := []
  artifacts := [artifact "appimage", artifact "deb", artifact "rpm"]
  candidateSigningKeyID := utf8 "pipeline"
  candidateSignature := encode (List.replicate 64 7)

def candidate : ReleaseCandidate Empty :=
  { unsigned with
    setDigest := utf8 "6d3cffe6f613703b1e33b5b12306960bf64c43be9eb55a180f606e3686de0c32" }

example : releaseCandidateValidationError parseURL candidate = .ok () := by decide +kernel

end Demo

end Sesame.Releases
