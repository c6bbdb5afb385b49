import SesameServer.Sync.DeviceChain

/- Signed snapshot headers (`internal/syncproto/header.go`).

   A header names the entry of the device list it was made under, and is
   checked against the list: `verifyHeader`. `verifyHeader_grows` is why a
   header checked once stays good: an entry accepted later changes neither the
   digest nor the epoch at the header's index, and its signer was a member there
   and keeps its signing key. -/
namespace Sesame.Syncproto
open Outcome

structure Header where
  version : Int
  vaultID : Bytes
  deviceID : Bytes
  revision : Nat
  vaultEpoch : Nat
  deviceListIndex : Nat
  deviceListDigest : Bytes
  previousDigest : Bytes
  ciphertextDigest : Bytes
  ciphertextLength : Nat
  nonce : Bytes
  signature : Bytes
  deriving DecidableEq

/-- `uint64(n)` of a signed integer. -/
def toUint64 (n : Int) : Nat := (n % 2 ^ 64).toNat

namespace Header

/-- `fields`, after the label. -/
def fields (header : Header) : List Bytes :=
  [number (toUint64 header.version), header.vaultID, header.deviceID, number header.revision,
   number header.vaultEpoch, number header.deviceListIndex, header.deviceListDigest,
   header.previousDigest, header.ciphertextDigest, number header.ciphertextLength, header.nonce]

def signingPayload (header : Header) : Bytes := canonical (labelHeader :: header.fields)

def digest (crypto : Crypto) (header : Header) : Bytes :=
  canonicalDigest crypto (labelHeaderDigest :: header.fields ++ [header.signature])

def validate (header : Header) : Except Err Unit := do
  check (header.version ≠ versionV3) (.detail .headerInvalid "version")
  check (¬(opaqueID header.vaultID = true ∧ opaqueID header.deviceID = true))
    (.detail .headerInvalid "identifiers")
  check (header.revision = 0 ∨ header.vaultEpoch = 0 ∨ header.deviceListIndex = 0)
    (.detail .headerInvalid "revision, epoch or device list index")
  check (decide (header.revision = 1) ≠ decide (header.previousDigest = []))
    (.detail .headerInvalid "previous digest")
  check (header.previousDigest ≠ [] ∧ validDigest header.previousDigest = false)
    (.detail .headerInvalid "previous digest")
  check (¬(validDigest header.deviceListDigest = true ∧ validDigest header.ciphertextDigest = true))
    (.detail .headerInvalid "digest")
  check (header.ciphertextLength < 16 ∨ maxCiphertextBytes < header.ciphertextLength)
    (.detail .headerInvalid "ciphertext length")
  check (failed (decodeCanonical header.nonce xChaChaNonceBytes) = true)
    (.detail .headerInvalid "nonce")
  check (failed (decodeCanonical header.signature ed25519SignatureBytes) = true)
    (.detail .headerInvalid "signature")

def verifyCiphertext (crypto : Crypto) (header : Header) (ciphertext : Bytes) : Except Err Unit := do
  check (ciphertext.length ≠ header.ciphertextLength) (.detail .historyBroken "ciphertext length")
  match decodeCanonical header.ciphertextDigest digestBytes with
  | .error _ => .error (.detail .historyBroken "ciphertext digest")
  | .ok expected =>
    check (crypto.sha256 ciphertext ≠ expected) (.detail .historyBroken "ciphertext digest")

/-- `SnapshotAADV3`: the data that a snapshot's encryption authenticates besides. -/
def snapshotAADV3 (header : Header) : Bytes :=
  canonical [labelAAD, number (toUint64 header.version), header.vaultID, header.deviceID,
    number header.revision, number header.vaultEpoch, number header.deviceListIndex,
    header.deviceListDigest, header.previousDigest]

theorem validate_index {header : Header} (h : header.validate = .ok ()) :
    header.deviceListIndex ≠ 0 := by
  simp only [validate, except_bind_ok, check_ok] at h
  obtain ⟨_, _, _, _, _, hpos, _⟩ := h
  push Not at hpos
  exact hpos.2.2

theorem validate_version {header : Header} (h : header.validate = .ok ()) :
    header.version = versionV3 := by
  simp only [validate, except_bind_ok, check_ok, not_not] at h
  obtain ⟨_, hversion, _⟩ := h
  exact hversion

end Header

/-- `verifyLink`: `header` follows `previous` directly. -/
def verifyLink (crypto : Crypto) (previous header : Header) : Except Err Unit := do
  check (checkedNext previous.revision ≠ some header.revision)
    (.detail .historyBroken "revision does not follow")
  check (header.previousDigest ≠ previous.digest crypto) (.detail .historyBroken "previous digest")
  check (header.deviceListIndex < previous.deviceListIndex ∨
    header.vaultEpoch < previous.vaultEpoch)
    (.detail .historyBroken "device list or epoch went backwards")

/-- The link check of `VerifyHeader`, made only when there is a previous header. -/
def verifyPrevious (crypto : Crypto) : Option Header → Header → Except Err Unit
  | none, _ => .ok ()
  | some previous, header => verifyLink crypto previous header

/-- The signature check of `VerifyHeader`: by the device that was a member at
    the index the header names. -/
def verifySigner (crypto : Crypto) (list : DeviceList) (header : Header) : Except Err Unit :=
  match list.memberAt header.deviceID header.deviceListIndex with
  | none => .error (.detail .historyBroken "signer was not a member")
  | some signer =>
    match decodeCanonical signer.signingKey ed25519PublicKeyBytes with
    | .error _ => .error (.detail .historyBroken "signer key")
    | .ok key =>
      check (signatureHolds crypto key header.signingPayload header.signature = false)
        (.detail .historyBroken "signature")

def verifyHeader (crypto : Crypto) (list : DeviceList) (previous : Option Header)
    (header : Header) : Except Err Unit := do
  header.validate
  check (header.vaultID ≠ list.vaultID) (.detail .historyBroken "vault")
  check (list.head < header.deviceListIndex) (.detail .historyBroken
    "header names a device list entry this device has not verified")
  check ((list.digestAt header.deviceListIndex).getD [] ≠ header.deviceListDigest)
    (.detail .historyBroken "device list digest")
  check ((list.epochAt header.deviceListIndex).getD 0 ≠ header.vaultEpoch)
    (.detail .historyBroken "epoch")
  verifyPrevious crypto previous header
  verifySigner crypto list header

def verifyHeaderChain (crypto : Crypto) (list : DeviceList) :
    Option Header → List Header → Except Err Unit
  | _, [] => .ok ()
  | previous, header :: rest => do
    verifyHeader crypto list previous header
    verifyHeaderChain crypto list (some header) rest

section
variable {crypto : Crypto} {entry : DeviceListEntry} {list list' : DeviceList}
open DeviceList

variable {previous : Option Header} {header : Header} {i : Nat}

theorem verifyHeader_ok : verifyHeader crypto list previous header = .ok () ↔
      header.validate = .ok () ∧ header.vaultID = list.vaultID ∧
      header.deviceListIndex ≤ list.head ∧
      (list.digestAt header.deviceListIndex).getD [] = header.deviceListDigest ∧
      (list.epochAt header.deviceListIndex).getD 0 = header.vaultEpoch ∧
      verifyPrevious crypto previous header = .ok () ∧
      verifySigner crypto list header = .ok () := by
  simp only [verifyHeader, except_bind_ok, check_ok, not_not, not_lt]
  constructor
  · rintro ⟨_, h₁, _, h₂, _, h₃, _, h₄, _, h₅, _, h₆, h₇⟩
    exact ⟨h₁, h₂, h₃, h₄, h₅, h₆, h₇⟩
  · rintro ⟨h₁, h₂, h₃, h₄, h₅, h₆, h₇⟩
    exact ⟨(), h₁, (), h₂, (), h₃, (), h₄, (), h₅, (), h₆, h₇⟩

theorem verifyLink_ok {previous : Header} : verifyLink crypto previous header = .ok () ↔
      checkedNext previous.revision = some header.revision ∧
      header.previousDigest = previous.digest crypto ∧
      previous.deviceListIndex ≤ header.deviceListIndex ∧
      previous.vaultEpoch ≤ header.vaultEpoch := by
  simp only [verifyLink, except_bind_ok, check_ok, not_not, not_or, not_lt, exists_const]

/-- A header that verifies after its predecessor also verifies alone. -/
theorem verifyHeader_alone (h : verifyHeader crypto list previous header = .ok ()) :
    verifyHeader crypto list none header = .ok () := by
  obtain ⟨h₁, h₂, h₃, h₄, h₅, _, h₇⟩ := verifyHeader_ok.mp h
  exact verifyHeader_ok.mpr ⟨h₁, h₂, h₃, h₄, h₅, rfl, h₇⟩

theorem digestAt_grows (g : Grows crypto entry list list') (hi : i ≤ list.head) :
    list'.digestAt i = list.digestAt i := by
  unfold DeviceList.digestAt
  split
  · rfl
  · rw [g.digests, List.getElem?_append_left (by unfold DeviceList.head at hi; omega)]

theorem epochAt_grows (g : Grows crypto entry list list') (wf : WF list)
    (hi : i ≤ list.head) : list'.epochAt i = list.epochAt i := by
  obtain ⟨e, he⟩ := g.epochs
  unfold DeviceList.epochAt
  split
  · rfl
  · have := wf.epochs
    rw [he, List.getElem?_append_left (by unfold DeviceList.head at hi; omega)]

theorem memberAt_some {d : Bytes} {m : DeviceListMember} (h : list.memberAt d i = some m) :
    ∃ m₀, list.member d = some m₀ ∧ m₀.memberAt i = true ∧ m.signingKey = m₀.signingKey := by
  unfold DeviceList.memberAt at h
  cases hm : list.members.lookup d with
  | none => simp [hm] at h
  | some m₀ =>
    simp only [hm] at h
    split at h
    · next hat =>
      obtain rfl := Option.some.inj h
      exact ⟨m₀, hm, hat, rfl⟩
    · cases h

theorem memberAt_of {d : Bytes} {m : DeviceListMember} (hm : list.member d = some m)
    (hat : m.memberAt i = true) :
    ∃ m', list.memberAt d i = some m' ∧ m'.signingKey = m.signingKey := by
  unfold DeviceList.memberAt
  unfold DeviceList.member at hm
  rw [hm]
  simp only [hat, if_true]
  exact ⟨_, rfl, rfl⟩

theorem verifySigner_grows (g : Grows crypto entry list list') (hi : entry.index = list.head + 1)
    (wf : WF list) (hle : header.deviceListIndex ≤ list.head)
    (h : verifySigner crypto list header = .ok ()) : verifySigner crypto list' header = .ok () := by
  unfold verifySigner at h ⊢
  cases hs : list.memberAt header.deviceID header.deviceListIndex with
  | none => simp [hs] at h
  | some signer =>
    obtain ⟨m, hm, hat, hkey⟩ := memberAt_some hs
    obtain ⟨m', hm', hkey', _, hstay⟩ := g.member_stable hi wf hm
    obtain ⟨signer', hs', hkey''⟩ := memberAt_of hm' (hstay _ hle hat)
    rw [hs] at h
    rw [hs']
    simpa only [hkey'', hkey', ← hkey] using h

/-- **A header checked once stays good** when the list grows. -/
theorem verifyHeader_grows (g : Grows crypto entry list list') (hi : entry.index = list.head + 1)
    (wf : WF list) (h : verifyHeader crypto list previous header = .ok ()) :
    verifyHeader crypto list' previous header = .ok () := by
  obtain ⟨hvalid, hvault, hle, hdigest, hepoch, hprev, hsigner⟩ := verifyHeader_ok.mp h
  -- a list that a header verified against is not empty, so the entry is no create
  have hpos := Header.validate_index hvalid
  have hv : list'.vaultID = list.vaultID := by
    cases g with
    | create first => omega
    | add | remove | key | rotate => rfl
  refine verifyHeader_ok.mpr ⟨hvalid, hvault.trans hv.symm, ?_, ?_, ?_, hprev, ?_⟩
  · rw [g.head]; omega
  · rw [digestAt_grows g hle, hdigest]
  · rw [epochAt_grows g wf hle, hepoch]
  · exact verifySigner_grows g hi wf hle hsigner

end

end Sesame.Syncproto
