import SesameServer.Lib.Json
import SesameServer.Lib.Table
import SesameServer.Releases.Semver

/- The signed feed of releases (`internal/selfhost/updates`: `feed.go`, `registry.go`).

   1. Envelopes, payloads and the registry. What Go's libraries do with a text is a field of
      the verifier: reading JSON, checking a signature, taking an address apart.
   2. `ValidatePayload`, `CheckFresh`, `Verifier.Open`, `Verifier.Verify` — with the text of
      each error. Times are in nanoseconds.
   3. `Verify_ok` — what a feed that verifies has gone through (`Vouched`). -/
namespace Sesame.Updates
open Outcome Text

structure Envelope where
  payload : Bytes
  signature : Bytes
  keyID : Bytes
  deriving DecidableEq

structure Image where
  ref : Bytes
  deriving DecidableEq

structure Binary where
  os : Bytes
  arch : Bytes
  url : Bytes
  sha256 : Bytes
  deriving DecidableEq

structure Release where
  version : Bytes
  publishedAt : Int
  notesURL : Bytes
  security : Bool
  minimumFrom : Bytes
  images : List Image
  binaries : List Binary
  deriving DecidableEq

structure Product where
  id : Bytes
  channels : Table Bytes Release

structure Payload where
  schemaVersion : Int
  sequence : Int
  issuedAt : Int
  expiresAt : Int
  products : List Product

structure Document where
  payload : Payload
  envelope : Envelope
  raw : Bytes

structure ProductSpec where
  id : Bytes
  channels : List Bytes
  deriving DecidableEq

def ProductSpec.hasChannel (p : ProductSpec) (channel : Bytes) : Bool := p.channels.contains channel

abbrev Registry := Table Bytes ProductSpec

/-- `Registry.IDs`, in order. -/
def Registry.ids (r : Registry) : List Bytes :=
  (r.entries.map Sigma.fst).mergeSort fun a b => decide (¬Json.Before b a)

inductive FeedError where
  | invalid (message : Bytes)
  | expired
  | rollback
  | unreachable
  deriving DecidableEq

/-- What a JSON decoder finds in a text. -/
inductive Decoded (α : Type) where
  | bad
  | trailing (value : α)
  | done (value : α)

structure Verifier where
  keys : Table Bytes Bytes
  registry : Registry
  decodeEnvelope : Bytes → Decoded Envelope
  decodePayload : Bytes → Decoded Payload
  /-- `ed25519.Verify`: the key, the message and the signature. -/
  verify : Bytes → Bytes → Bytes → Bool
  parseURL : Bytes → Option URL

/-! Limits. -/

def feedSchemaVersion : Int := 1
def maxFeedBytes : Nat := 256 * 1024
def maxSequence : Int := 1000000000
def maxURLBytes : Nat := 2048
def maxImagesPerRelease : Nat := 8
def maxBinariesPerRelease : Nat := 32
def maxProducts : Nat := 32
def signingContext : Bytes := utf8 "sesame-update-feed-v1\n"
def signatureSize : Nat := 64

def second : Int := 1000000000
def maxFeedLifetime : Int := 45 * 24 * 3600 * second
def maxIssuedSkew : Int := 10 * 60 * second

/-- The zero `time.Time`, the start of year 1. -/
def zeroTime : Int := -62135596800 * second

/-! Checks. -/

def lowerOrDigit (b : UInt8) : Bool := isLower b || isDigit b

def imageNamePattern (s : Bytes) : Bool :=
  s.head?.any lowerOrDigit && s.length ≤ 255 &&
    s.tail.all fun b => lowerOrDigit b || (utf8 "._/:-").contains b

def platformPattern (s : Bytes) : Bool := 2 ≤ s.length && s.length ≤ 16 && s.all lowerOrDigit

def validProductID (value : Bytes) : Bool :=
  !(value.isEmpty || value.length > 64 || value.head? == some 45) &&
    value.all fun b => lowerOrDigit b || b == 45

def validImageRef (ref : Bytes) : Bool :=
  match cut (utf8 "@sha256:") ref with
  | some (name, digest) => imageNamePattern name && sha256Pattern digest
  | none => false

section
variable (v : Verifier)

/-- Characters that no address may hold. -/
def badURLByte (b : UInt8) : Bool :=
  b ≤ 0x20 || b ≥ 0x7f || [39, 34, 96, 92, 60, 62, 123, 125, 91, 93, 124, 94].contains b

def Verifier.validateURL (raw : Bytes) : Except String Unit := do
  check (raw = [] ∨ raw.length > maxURLBytes) "a url is required and must be at most 2048 bytes"
  check (raw.any badURLByte = true) "the url holds a character that is not allowed"
  match v.parseURL raw with
  | some url =>
    check (url.scheme ≠ utf8 "https" ∨ url.host = [] ∨ url.hostname = [] ∨ url.hasUser = true ∨
        url.opaquePart ≠ [] ∨ url.fragment ≠ [])
      "the url must be https with a host, no user info and no fragment"
  | none => throw "the url must be https with a host, no user info and no fragment"

/-- `fmt.Errorf("…: %w", err)`. -/
def within (label : String) : Except String Unit → Except String Unit
  | .ok () => .ok ()
  | .error message => .error (label ++ message)

/-- The loop over the binaries; `platforms` are those before. -/
def Verifier.validateBinaries (platforms : List Bytes) : List Binary → Except String Unit
  | [] => .ok ()
  | binary :: rest => do
    check (platformPattern binary.os = false ∨ platformPattern binary.arch = false)
      "a binary needs a plain os and arch"
    let platform := binary.os ++ utf8 "/" ++ binary.arch
    check (platform ∈ platforms)
      ("binary " ++ String.ofList (platform.map fun b => Char.ofNat b.toNat) ++ " is listed twice")
    within "binary url: " (v.validateURL binary.url)
    check (sha256Pattern binary.sha256 = false) "a binary sha256 must be 64 lowercase hex digits"
    Verifier.validateBinaries (platform :: platforms) rest

def Verifier.validateRelease (release : Release) : Except String Unit := do
  check (Releases.ValidVersion release.version = false) "version is not canonical SemVer"
  check (release.publishedAt = zeroTime) "publishedAt is required"
  within "notesUrl: " (v.validateURL release.notesURL)
  check (release.minimumFrom ≠ [] ∧ Releases.ValidVersion release.minimumFrom = false)
    "minimumFrom is not canonical SemVer"
  check (release.images.length > maxImagesPerRelease) "too many images"
  check ((release.images.any fun image => !validImageRef image.ref) = true)
    "an image ref must be a lowercase name followed by @sha256: and 64 hex digits"
  check (release.binaries.length > maxBinariesPerRelease) "too many binaries"
  v.validateBinaries [] release.binaries

/-- `%q` of an id or a channel, which hold nothing to escape. -/
def quoted (text : Bytes) : Bytes := utf8 "\"" ++ text ++ utf8 "\""

/-- The channels of one product, those that it is registered with. -/
def Verifier.validateChannels (spec : ProductSpec) (product : Product) :
    List (Sigma fun _ : Bytes => Release) → Except FeedError Unit
  | [] => .ok ()
  | ⟨channel, release⟩ :: rest => do
    if spec.hasChannel channel then
      match v.validateRelease release with
      | .ok () => pure ()
      | .error message =>
        throw (.invalid (utf8 "product " ++ quoted product.id ++ utf8 " channel " ++ quoted channel ++
          utf8 ": " ++ utf8 message))
    Verifier.validateChannels spec product rest

/-- The loop over the products; `seen` are those before. -/
def Verifier.validateProducts (seen : List Bytes) : List Product → Except FeedError (List Bytes)
  | [] => .ok seen
  | product :: rest => do
    check (validProductID product.id = false) (.invalid (utf8 "a product id is not valid"))
    check (product.id ∈ seen)
      (.invalid (utf8 "product " ++ quoted product.id ++ utf8 " appears more than once"))
    match v.registry.lookup product.id with
    | some spec => v.validateChannels spec product product.channels.entries
    | none => pure ()
    Verifier.validateProducts (product.id :: seen) rest

def Verifier.validatePayload (payload : Payload) : Except FeedError Unit := do
  check (payload.schemaVersion ≠ feedSchemaVersion) (.invalid (utf8 "schemaVersion must be 1"))
  check (payload.sequence < 1 ∨ payload.sequence > maxSequence)
    (.invalid (utf8 "sequence must be a whole number from 1 to 1000000000"))
  check (payload.issuedAt = zeroTime ∨ payload.expiresAt = zeroTime)
    (.invalid (utf8 "issuedAt and expiresAt are required"))
  check (payload.expiresAt ≤ payload.issuedAt ∨ payload.expiresAt - payload.issuedAt > maxFeedLifetime)
    (.invalid (utf8 "expiresAt must be after issuedAt and at most 45 days later"))
  check (payload.products = [] ∨ payload.products.length > maxProducts)
    (.invalid (utf8 "the feed must list between 1 and 32 products"))
  let seen ← v.validateProducts [] payload.products
  match v.registry.ids.find? fun id => !seen.contains id with
  | some id => throw (.invalid (utf8 "product " ++ quoted id ++ utf8 " is missing"))
  | none => pure ()

def checkFresh (payload : Payload) (now : Int) : Except FeedError Unit := do
  check (payload.issuedAt > now + maxIssuedSkew) (.invalid (utf8 "the feed was issued in the future"))
  check (now > payload.expiresAt) .expired

def signedMessage (payload : Bytes) : Bytes := signingContext ++ payload

/-- `json.Marshal` of an envelope. -/
def Envelope.marshal (e : Envelope) : Bytes :=
  (Json.object [(utf8 "payload", e.payload), (utf8 "signature", e.signature),
    (utf8 "keyId", e.keyID)]).flatMap Utf8.Piece.bytes

/-- The payload that a signature of the envelope's key covers. -/
def Verifier.signedPayload (envelope : Envelope) : Except FeedError Bytes := do
  match v.keys.lookup envelope.keyID with
  | none => throw (.invalid (utf8 "the key id is not pinned"))
  | some key =>
    check (hasLineBreak envelope.payload = true ∨ hasLineBreak envelope.signature = true)
      (.invalid (utf8 "the payload and signature must not hold line breaks"))
    match Encoding.decode envelope.payload with
    | none | some [] => throw (.invalid (utf8 "the payload is not unpadded base64url"))
    | some payload =>
      match Encoding.decode envelope.signature with
      | none => throw (.invalid
          (utf8 "the signature is not a 64 byte Ed25519 signature in unpadded base64url"))
      | some signature =>
        check (signature.length ≠ signatureSize) (.invalid
          (utf8 "the signature is not a 64 byte Ed25519 signature in unpadded base64url"))
        check (v.verify key (signedMessage payload) signature = false)
          (.invalid (utf8 "the signature does not match"))
        pure payload

/-- `Verifier.Open`. -/
def Verifier.open_ (body : Bytes) : Except FeedError Document := do
  check (body.length > maxFeedBytes) (.invalid (utf8 "the feed is larger than 262144 bytes"))
  match v.decodeEnvelope body with
  | .bad => throw (.invalid (utf8 "the envelope is not JSON"))
  | .trailing _ => throw (.invalid (utf8 "the envelope has data after the JSON object"))
  | .done envelope =>
    let payloadBytes ← v.signedPayload envelope
    match v.decodePayload payloadBytes with
    | .bad => throw (.invalid (utf8 "the payload is not the expected JSON"))
    | .trailing _ => throw (.invalid (utf8 "the payload has data after the JSON object"))
    | .done payload =>
      v.validatePayload payload
      pure ⟨payload, envelope, envelope.marshal⟩

/-- `Verifier.Verify`. -/
def Verifier.verifyFeed (body : Bytes) (now : Int) : Except FeedError Document := do
  let document ← v.open_ body
  checkFresh document.payload now
  pure document

/-! What verification says. -/

/-- The body is an envelope, signed under a pinned key, whose payload is valid and was fresh at
    `now`; `document.raw` is the envelope in its canonical form. -/
structure Vouched (body : Bytes) (now : Int) (document : Document) : Prop where
  envelope : v.decodeEnvelope body = .done document.envelope
  signed : ∃ key payload signature, v.keys.lookup document.envelope.keyID = some key ∧
    Encoding.decode document.envelope.payload = some payload ∧
    Encoding.decode document.envelope.signature = some signature ∧
    v.verify key (signedMessage payload) signature = true ∧
    v.decodePayload payload = .done document.payload
  valid : v.validatePayload document.payload = .ok ()
  fresh : checkFresh document.payload now = .ok ()
  canonical : document.raw = document.envelope.marshal

end

variable {v : Verifier} {body : Bytes} {now : Int} {document : Document}

theorem signedPayload_ok {envelope : Envelope} {payload : Bytes}
    (h : v.signedPayload envelope = .ok payload) : ∃ key signature,
    v.keys.lookup envelope.keyID = some key ∧ Encoding.decode envelope.payload = some payload ∧
    Encoding.decode envelope.signature = some signature ∧
    v.verify key (signedMessage payload) signature = true := by
  unfold Verifier.signedPayload at h
  split at h
  · cases h
  next key hkey =>
  obtain ⟨-, -, h⟩ := except_bind_ok.mp h
  split at h
  · cases h
  · cases h
  next decoded _ hpayload =>
  split at h
  · cases h
  next signature hsignature =>
  obtain ⟨-, -, h⟩ := except_bind_ok.mp h
  obtain ⟨_, hverify, h⟩ := except_bind_ok.mp h
  cases h
  exact ⟨key, signature, hkey, hpayload, hsignature, by simpa using check_ok.mp hverify⟩

theorem Verify_ok (h : v.verifyFeed body now = .ok document) : Vouched v body now document := by
  obtain ⟨opened, hopen, h⟩ := except_bind_ok.mp h
  obtain ⟨_, hfresh, h⟩ := except_bind_ok.mp h
  cases h
  unfold Verifier.open_ at hopen
  obtain ⟨-, -, hopen⟩ := except_bind_ok.mp hopen
  split at hopen
  · cases hopen
  · cases hopen
  next envelope henvelope =>
  obtain ⟨payloadBytes, hsigned, hopen⟩ := except_bind_ok.mp hopen
  obtain ⟨key, signature, hkey, hpayload, hsignature, hverify⟩ := signedPayload_ok hsigned
  split at hopen
  · cases hopen
  · cases hopen
  next payload hdecode =>
  obtain ⟨_, hvalid, hopen⟩ := except_bind_ok.mp hopen
  cases hopen
  exact ⟨henvelope, ⟨key, payloadBytes, signature, hkey, hpayload, hsignature, hverify, hdecode⟩, hvalid,
    hfresh, rfl⟩

end Sesame.Updates
