import SesameServer.Sync.Packages

/- The payloads that are signed or hashed are told apart.

   Ten encodings share one builder and differ in their label and their fields. A
   payload's bytes are its label and its fields, each after its length, so they are
   read back in one way only (`Payload.bytes_inj`), whatever the fields hold: text
   that looks like another label or another length stays inside its own part. The
   label comes first and names the kind (`Kind.label_inj`), so a payload is never
   taken for one of another kind. -/
namespace Sesame.Syncproto
open Outcome

inductive Kind where
  | entry | header | request | receipt | keyPackage | checkpoint | snapshotAAD
  | entryDigest | headerDigest | keyPackageDigest
  deriving DecidableEq

def Kind.label : Kind → Bytes
  | .entry => labelDeviceList
  | .header => labelHeader
  | .request => labelRequest
  | .receipt => labelReceipt
  | .keyPackage => labelKeyPackage
  | .checkpoint => labelCheckpoint
  | .snapshotAAD => labelAAD
  | .entryDigest => labelDeviceListDigest
  | .headerDigest => labelHeaderDigest
  | .keyPackageDigest => labelKeyPackageDigest

def Kind.arity : Kind → Nat
  | .entry => 11
  | .header => 11
  | .request => 6
  | .receipt => 5
  | .keyPackage => 6
  | .checkpoint => 8
  | .snapshotAAD => 8
  | .entryDigest => 12
  | .headerDigest => 12
  | .keyPackageDigest => 7

/-- A value to be signed (the first six), authenticated, or hashed (the last three). -/
inductive Payload where
  | entry (entry : DeviceListEntry)
  | header (header : Header)
  | request (request : RequestSignature)
  | receipt (receipt : ReceiptV3)
  | keyPackage (pkg : KeyPackageV3)
  | checkpoint (checkpoint : Checkpoint)
  | snapshotAAD (header : Header)
  | entryDigest (entry : DeviceListEntry)
  | headerDigest (header : Header)
  | keyPackageDigest (pkg : KeyPackageV3)

namespace Payload

variable {crypto : Crypto} {p q : Payload}

def kind : Payload → Kind
  | .entry _ => .entry
  | .header _ => .header
  | .request _ => .request
  | .receipt _ => .receipt
  | .keyPackage _ => .keyPackage
  | .checkpoint _ => .checkpoint
  | .snapshotAAD _ => .snapshotAAD
  | .entryDigest _ => .entryDigest
  | .headerDigest _ => .headerDigest
  | .keyPackageDigest _ => .keyPackageDigest

/-- The bytes that are signed, authenticated or hashed. -/
def bytes (crypto : Crypto) : Payload → Bytes
  | .entry e => e.signingPayload
  | .header h => h.signingPayload
  | .request r => r.signingPayload crypto
  | .receipt r => r.signingPayload
  | .keyPackage k => k.signingPayload
  | .checkpoint c => c.signingPayload
  | .snapshotAAD h => h.snapshotAADV3
  | .entryDigest e => canonical (labelDeviceListDigest :: e.fields ++ [e.signature])
  | .headerDigest h => canonical (labelHeaderDigest :: h.fields ++ [h.signature])
  | .keyPackageDigest k => canonical (labelKeyPackageDigest :: k.fields ++ [k.signature])

/-- The text among the fields, as it is written. -/
def texts : Payload → List Bytes
  | .entry e => [e.vaultID, e.previousDigest, e.kind, e.signerDeviceID, e.subjectDeviceID,
      e.subjectSigningKey, e.subjectPackageKey, e.sealedLabel]
  | .header h => [h.vaultID, h.deviceID, h.deviceListDigest, h.previousDigest, h.ciphertextDigest,
      h.nonce]
  | .request r => [r.method, r.target, r.nonce]
  | .receipt r => [r.vaultID, r.headerDigest]
  | .keyPackage k => [k.vaultID, k.senderDeviceID, k.recipientDeviceID, k.entryDigest, k.ciphertext]
  | .checkpoint c => [c.vaultID, c.deviceID, c.deviceListDigest, c.headerDigest]
  | .snapshotAAD h => [h.vaultID, h.deviceID, h.deviceListDigest, h.previousDigest]
  | .entryDigest e => [e.vaultID, e.previousDigest, e.kind, e.signerDeviceID, e.subjectDeviceID,
      e.subjectSigningKey, e.subjectPackageKey, e.sealedLabel, e.signature]
  | .headerDigest h => [h.vaultID, h.deviceID, h.deviceListDigest, h.previousDigest,
      h.ciphertextDigest, h.nonce, h.signature]
  | .keyPackageDigest k => [k.vaultID, k.senderDeviceID, k.recipientDeviceID, k.entryDigest,
      k.ciphertext, k.signature]

def numbers : Payload → List Nat
  | .entry e | .entryDigest e => [e.index, e.epochAfter, e.snapshotFloor]
  | .header h | .headerDigest h => [h.revision, h.vaultEpoch, h.deviceListIndex, h.ciphertextLength]
  | .request r => [r.timestamp]
  | .receipt r => [r.revision, r.vaultEpoch, r.acceptedAt]
  | .keyPackage k | .keyPackageDigest k => [k.vaultEpoch]
  | .checkpoint c => [c.deviceListIndex, c.headerRevision, c.observedAt]
  | .snapshotAAD h => [h.revision, h.vaultEpoch, h.deviceListIndex]

/-- The fields hold what Go's types can: no string has 2^63 bytes, and a number has
    64 bits. -/
structure InRange (p : Payload) : Prop where
  texts : ∀ t ∈ p.texts, t.length < 2 ^ 63
  numbers : ∀ n ∈ p.numbers, n < 2 ^ 64

/-- The same kind of value with the same encoded fields. A signing payload leaves its
    signature out, a request holds its body and its token as their hashes, and a
    version is written as a `uint64`. -/
def Agree (crypto : Crypto) : Payload → Payload → Prop
  | .entry a, .entry b => { a with signature := [] } = { b with signature := [] }
  | .header a, .header b =>
    { a with signature := [], version := toUint64 a.version } =
      { b with signature := [], version := toUint64 b.version }
  | .request a, .request b =>
    a.method = b.method ∧ a.target = b.target ∧ crypto.sha256 a.body = crypto.sha256 b.body ∧
      crypto.sha256 a.token = crypto.sha256 b.token ∧ a.timestamp = b.timestamp ∧ a.nonce = b.nonce
  | .receipt a, .receipt b => a = b
  | .keyPackage a, .keyPackage b => { a with signature := [] } = { b with signature := [] }
  | .checkpoint a, .checkpoint b =>
    { a with signature := [], version := toUint64 a.version } =
      { b with signature := [], version := toUint64 b.version }
  | .snapshotAAD a, .snapshotAAD b =>
    toUint64 a.version = toUint64 b.version ∧ a.vaultID = b.vaultID ∧ a.deviceID = b.deviceID ∧
      a.revision = b.revision ∧ a.vaultEpoch = b.vaultEpoch ∧
      a.deviceListIndex = b.deviceListIndex ∧ a.deviceListDigest = b.deviceListDigest ∧
      a.previousDigest = b.previousDigest
  | .entryDigest a, .entryDigest b => a = b
  | .headerDigest a, .headerDigest b =>
    { a with version := toUint64 a.version } = { b with version := toUint64 b.version }
  | .keyPackageDigest a, .keyPackageDigest b => a = b
  | _, _ => False

def fields (crypto : Crypto) : Payload → List Bytes
  | .entry e => e.fields
  | .header h => h.fields
  | .request r => [r.method, r.target, crypto.sha256 r.body, crypto.sha256 r.token,
      number r.timestamp, r.nonce]
  | .receipt r => [r.vaultID, number r.revision, r.headerDigest, number r.vaultEpoch,
      number r.acceptedAt]
  | .keyPackage k => k.fields
  | .checkpoint c => [number (toUint64 c.version), c.vaultID, c.deviceID, number c.deviceListIndex,
      c.deviceListDigest, number c.headerRevision, c.headerDigest, number c.observedAt]
  | .snapshotAAD h => [number (toUint64 h.version), h.vaultID, h.deviceID, number h.revision,
      number h.vaultEpoch, number h.deviceListIndex, h.deviceListDigest, h.previousDigest]
  | .entryDigest e => e.fields ++ [e.signature]
  | .headerDigest h => h.fields ++ [h.signature]
  | .keyPackageDigest k => k.fields ++ [k.signature]

/-! Labels and fields. -/

theorem bytes_eq (p : Payload) : p.bytes crypto = canonical (p.kind.label :: p.fields crypto) := by
  cases p <;> rfl

theorem fields_length (p : Payload) : (p.fields crypto).length = p.kind.arity := by
  cases p <;> rfl

end Payload

theorem Kind.label_inj {k k' : Kind} (h : k.label = k'.label) : k = k' := by
  have all : ∀ k : Kind, [Kind.entry, .header, .request, .receipt, .keyPackage, .checkpoint,
      .snapshotAAD, .entryDigest, .headerDigest, .keyPackageDigest].find?
        (fun x => x.label = k.label) = some k := fun k => by cases k <;> decide
  have hk := all k
  rw [h, all k'] at hk
  exact (Option.some.inj hk).symm

theorem Kind.label_length (k : Kind) : k.label.length < 2 ^ 64 := by cases k <;> decide

theorem number_inj {a b : Nat} : number a = number b ↔ a = b :=
  ⟨Encoding.decimal_inj, congrArg number⟩

theorem number_length {n : Nat} (h : n < 2 ^ 64) : (number n).length < 2 ^ 64 :=
  (Encoding.decimal_length_le (k := 20) (by decide) (h.trans (by decide))).trans_lt (by decide)

theorem toUint64_lt (n : Int) : toUint64 n < 2 ^ 64 := by
  unfold toUint64
  omega

namespace Payload

variable {crypto : Crypto} {p q : Payload}

theorem agree_iff (hkind : p.kind = q.kind) :
    p.Agree crypto q ↔ p.fields crypto = q.fields crypto := by
  cases p <;> cases q <;> cases hkind
  case entry a b | entryDigest a b =>
    cases a
    cases b
    simp only [Agree, fields, DeviceListEntry.fields, DeviceListEntry.mk.injEq, List.cons_append,
      List.nil_append, List.cons.injEq, number_inj, and_true]
  case header a b | headerDigest a b =>
    cases a
    cases b
    simp only [Agree, fields, Header.fields, Header.mk.injEq, List.cons_append, List.nil_append,
      List.cons.injEq, number_inj, Nat.cast_inj, and_true]
  case keyPackage a b | keyPackageDigest a b =>
    cases a
    cases b
    simp only [Agree, fields, KeyPackageV3.fields, KeyPackageV3.mk.injEq, List.cons_append,
      List.nil_append, List.cons.injEq, number_inj, and_true]
  case receipt a b =>
    cases a
    cases b
    simp only [Agree, fields, ReceiptV3.mk.injEq, List.cons.injEq, number_inj, and_true]
  case checkpoint a b =>
    simp only [Agree, fields, Checkpoint.mk.injEq, List.cons.injEq, number_inj, Nat.cast_inj,
      and_true]
  case request | snapshotAAD =>
    simp only [Agree, fields, List.cons.injEq, number_inj, and_true]

theorem Agree.kind_eq (h : p.Agree crypto q) : p.kind = q.kind := by
  cases p <;> cases q <;> first | rfl | exact h.elim

/-- No part is longer than its length prefix can say. -/
theorem InRange.fields (h : p.InRange) (hsize : ∀ b, (crypto.sha256 b).length = digestBytes) :
    ∀ part ∈ p.kind.label :: p.fields crypto, part.length < 2 ^ 64 := by
  have htext : ∀ {t : Bytes}, t.length < 2 ^ 63 → t.length < 2 ^ 64 := fun ht => by omega
  have hsha : ∀ b, (crypto.sha256 b).length < 2 ^ 64 := fun b => by rw [hsize]; decide
  have hnumber : ∀ {n : Nat}, n < 2 ^ 64 → (number n).length < 2 ^ 64 := number_length
  have hversion : ∀ v, (number (toUint64 v)).length < 2 ^ 64 := fun v => hnumber (toUint64_lt v)
  obtain ⟨texts, numbers⟩ := h
  refine List.forall_mem_cons.mpr ⟨p.kind.label_length, ?_⟩
  cases p <;>
    simp only [Payload.texts, Payload.numbers, Payload.fields, DeviceListEntry.fields, Header.fields,
      KeyPackageV3.fields, List.cons_append, List.nil_append, List.forall_mem_cons] at texts numbers ⊢ <;>
    simp_all

/-- **A payload's bytes are read back in one way only.** -/
theorem bytes_inj (hsize : ∀ b, (crypto.sha256 b).length = digestBytes) (hp : p.InRange)
    (hq : q.InRange) (h : p.bytes crypto = q.bytes crypto) : p.Agree crypto q := by
  have hp' := hp.fields hsize
  have hq' := hq.fields hsize
  rw [bytes_eq, bytes_eq] at h
  -- the label is the first part, and tells how many follow
  have hlabel : p.kind.label = q.kind.label := by
    simp only [canonical, List.flatMap_cons] at h
    exact (Encoding.frame_inj (hp' _ List.mem_cons_self) (hq' _ List.mem_cons_self) h).1
  have hkind := Kind.label_inj hlabel
  have hparts := canonical_inj (by simp [fields_length, hkind]) hp' hq' h
  rw [agree_iff hkind]
  exact (List.cons.inj hparts).2

end Payload

/-- **Payloads are told apart.** Whatever Go values two payloads hold, their bytes are
    equal exactly if they are of the same kind and have the same encoded fields. So a
    signature that is good for one message only is good for both payloads only if
    they agree, and so do payloads with the same digest, unless SHA-256 maps their
    different bytes to it. -/
theorem payloads_apart {crypto : Crypto} {p q : Payload}
    (hsize : ∀ b, (crypto.sha256 b).length = digestBytes) (hp : p.InRange) (hq : q.InRange) :
    (p.bytes crypto = q.bytes crypto ↔ p.Agree crypto q) ∧
    (∀ key signature, (∀ m m', crypto.verify key m signature = true →
        crypto.verify key m' signature = true → m = m') →
      crypto.verify key (p.bytes crypto) signature = true →
      crypto.verify key (q.bytes crypto) signature = true → p.Agree crypto q) ∧
    (Set.InjOn crypto.sha256 {p.bytes crypto, q.bytes crypto} →
      Encoding.encode (crypto.sha256 (p.bytes crypto)) =
        Encoding.encode (crypto.sha256 (q.bytes crypto)) → p.Agree crypto q) := by
  refine ⟨⟨Payload.bytes_inj hsize hp hq, fun h => ?_⟩, fun key signature honce h h' => ?_,
    fun hinj h => ?_⟩
  · rw [Payload.bytes_eq, Payload.bytes_eq, h.kind_eq, (Payload.agree_iff h.kind_eq).mp h]
  · exact Payload.bytes_inj hsize hp hq (honce _ _ h h')
  · exact Payload.bytes_inj hsize hp hq (hinj (by simp) (by simp) (Encoding.encode_inj h))

end Sesame.Syncproto

namespace Sesame.Syncsvc.Demo
open Syncproto

theorem toyHash_length (b : Bytes) : (toyCrypto.sha256 b).length = digestBytes := by
  simp [toyCrypto, toyHash, digestBytes]

/-- An entry is signed and hashed under different bytes. -/
theorem payloads_apart_entry :
    (Payload.entry addEntry).bytes toyCrypto ≠ (Payload.entryDigest addEntry).bytes toyCrypto := by
  intro h
  have hp : (Payload.entry addEntry).InRange := ⟨by decide +kernel, by decide +kernel⟩
  have hq : (Payload.entryDigest addEntry).InRange := ⟨by decide +kernel, by decide +kernel⟩
  exact (payloads_apart toyHash_length hp hq).1.mp h

end Sesame.Syncsvc.Demo
