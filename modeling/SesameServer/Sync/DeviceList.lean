import SesameServer.Lib.Table
import SesameServer.Sync.Canonical

/- The signed device list (`internal/syncproto/devicelist.go`): a chain of
   entries, each signed by a current member, that creates a vault's list, adds
   and removes devices, replaces a device's package key or rotates the epoch.

   `extend` is the code's `DeviceList.Extend`, a program over the list it
   mutates. What an accepted entry does is said once, by `Grows`
   (`extend_grows`); every later fact about lists is a case analysis on it. A
   refused entry leaves the list as it was (`extend_clean`). -/
namespace Sesame.Syncproto
open Outcome

/-- The kinds of entry. On the wire a kind is text, and any text can arrive. -/
inductive EntryKind where
  | create | add | remove | key | rotate
  deriving DecidableEq

def EntryKind.text : EntryKind → Bytes
  | .create => utf8 "create"
  | .add => utf8 "add"
  | .remove => utf8 "remove"
  | .key => utf8 "key"
  | .rotate => utf8 "rotate"

def EntryKind.ofText (t : Bytes) : Option EntryKind :=
  [EntryKind.create, .add, .remove, .key, .rotate].find? (fun k => k.text = t)

theorem EntryKind.ofText_text (k : EntryKind) : EntryKind.ofText k.text = some k := by
  cases k <;> decide

theorem EntryKind.text_of_ofText {t : Bytes} {k : EntryKind} (h : EntryKind.ofText t = some k) :
    t = k.text := by
  have := List.find?_some h
  exact (of_decide_eq_true this).symm

theorem EntryKind.text_ne {k k' : EntryKind} (h : k ≠ k') : k.text ≠ k'.text := by
  intro he
  have := EntryKind.ofText_text k
  rw [he, EntryKind.ofText_text] at this
  exact h (Option.some.inj this).symm

structure DeviceListEntry where
  vaultID : Bytes
  index : Nat
  previousDigest : Bytes
  kind : Bytes
  signerDeviceID : Bytes
  subjectDeviceID : Bytes
  subjectSigningKey : Bytes
  subjectPackageKey : Bytes
  sealedLabel : Bytes
  epochAfter : Nat
  snapshotFloor : Nat
  signature : Bytes
  deriving DecidableEq

namespace DeviceListEntry

/-- `fields`, after the label. -/
def fields (entry : DeviceListEntry) : List Bytes :=
  [entry.vaultID, number entry.index, entry.previousDigest, entry.kind, entry.signerDeviceID,
   entry.subjectDeviceID, entry.subjectSigningKey, entry.subjectPackageKey, entry.sealedLabel,
   number entry.epochAfter, number entry.snapshotFloor]

def signingPayload (entry : DeviceListEntry) : Bytes := canonical (labelDeviceList :: entry.fields)

def digest (crypto : Crypto) (entry : DeviceListEntry) : Bytes :=
  canonicalDigest crypto (labelDeviceListDigest :: entry.fields ++ [entry.signature])

/-- What a kind of entry must and must not carry. -/
def validateKind (entry : DeviceListEntry) : Except Err Unit :=
  match EntryKind.ofText entry.kind with
  | some .create | some .add => do
    check (failed (decodeCanonical entry.subjectSigningKey ed25519PublicKeyBytes) = true)
      (.detail .deviceListInvalid "signing key")
    check (failed (decodeCanonicalOneOf entry.subjectPackageKey
      [x25519PublicKeyBytes, xWingPublicKeyBytes]) = true)
      (.detail .deviceListInvalid "package key")
    check (failed (decodeCanonicalRange entry.sealedLabel minSealedLabelBytes
      maxSealedLabelBytes) = true) (.detail .deviceListInvalid "label")
  | some .remove =>
    check (entry.subjectSigningKey ≠ [] ∨ entry.subjectPackageKey ≠ [] ∨ entry.sealedLabel ≠ [])
      (.detail .deviceListInvalid "a removal carries no key or label")
  | some .key => do
    check (entry.signerDeviceID ≠ entry.subjectDeviceID ∨ entry.subjectSigningKey ≠ [] ∨
      entry.sealedLabel ≠ []) (.detail .deviceListInvalid
        "a key replacement is signed by its own device and carries only the new package key")
    check (failed (decodeCanonical entry.subjectPackageKey xWingPublicKeyBytes) = true)
      (.detail .deviceListInvalid "package key")
  | some .rotate =>
    check (entry.signerDeviceID ≠ entry.subjectDeviceID ∨ entry.subjectSigningKey ≠ [] ∨
      entry.subjectPackageKey ≠ [] ∨ entry.sealedLabel ≠ []) (.detail .deviceListInvalid
        "a rotation is signed by its own device and carries no key or label")
  | none => .error (.detail .deviceListInvalid "kind")

def validate (entry : DeviceListEntry) : Except Err Unit := do
  check (¬(opaqueID entry.vaultID = true ∧ opaqueID entry.signerDeviceID = true ∧
    opaqueID entry.subjectDeviceID = true)) (.detail .deviceListInvalid "identifiers")
  check (entry.index = 0 ∨ entry.epochAfter = 0) (.detail .deviceListInvalid "index or epoch")
  check (decide (entry.index = 1) ≠ decide (entry.previousDigest = []))
    (.detail .deviceListInvalid "previous digest")
  check (entry.previousDigest ≠ [] ∧ validDigest entry.previousDigest = false)
    (.detail .deviceListInvalid "previous digest")
  entry.validateKind
  check (entry.kind ≠ EntryKind.add.text ∧ entry.snapshotFloor ≠ 0)
    (.detail .deviceListInvalid "snapshot floor")
  check (failed (decodeCanonical entry.signature ed25519SignatureBytes) = true)
    (.detail .deviceListInvalid "signature")

/-- What later proofs use of an entry that validates. -/
theorem validate_ok {entry : DeviceListEntry} (h : entry.validate = .ok ()) :
    opaqueID entry.vaultID = true ∧ opaqueID entry.signerDeviceID = true ∧
    opaqueID entry.subjectDeviceID = true ∧ entry.index ≠ 0 ∧ entry.epochAfter ≠ 0 ∧
    entry.validateKind = .ok () := by
  simp only [validate, except_bind_ok, check_ok] at h
  obtain ⟨_, hid, _, hpos, _, _, _, _, _, hkind, _⟩ := h
  rw [not_not] at hid
  push Not at hpos
  exact ⟨hid.1, hid.2.1, hid.2.2, hpos.1, hpos.2, hkind⟩

/-- A key replacement and a rotation are about the device that signs them. -/
theorem validate_self {entry : DeviceListEntry} (h : entry.validate = .ok ())
    (hk : EntryKind.ofText entry.kind = some .key ∨ EntryKind.ofText entry.kind = some .rotate) :
    entry.subjectDeviceID = entry.signerDeviceID := by
  have hkind := (validate_ok h).2.2.2.2.2
  rcases hk with hk | hk
  · simp only [validateKind, hk, except_bind_ok, check_ok] at hkind
    obtain ⟨_, hself, _⟩ := hkind
    push Not at hself
    exact hself.1.symm
  · simp only [validateKind, hk, check_ok] at hkind
    push Not at hkind
    exact hkind.1.symm

end DeviceListEntry

structure PackageKeyChange where
  index : Nat
  previous : Bytes
  deriving DecidableEq

structure DeviceListMember where
  deviceID : Bytes
  signingKey : Bytes
  packageKey : Bytes
  sealedLabel : Bytes
  addedIndex : Nat
  removedIndex : Nat := 0
  replaced : List PackageKeyChange := []
  deriving DecidableEq

/-- `memberAt`: a member from its entry on, and until the entry that removes it. -/
def DeviceListMember.memberAt (member : DeviceListMember) (index : Nat) : Bool :=
  member.addedIndex ≤ index && (member.removedIndex == 0 || decide (index < member.removedIndex))

structure DeviceList where
  vaultID : Bytes
  members : Table Bytes DeviceListMember
  digests : List Bytes
  epochs : List Nat

def newDeviceList : DeviceList := ⟨[], ∅, [], []⟩

def memberFromEntry (entry : DeviceListEntry) : DeviceListMember :=
  { deviceID := entry.subjectDeviceID, signingKey := entry.subjectSigningKey,
    packageKey := entry.subjectPackageKey, sealedLabel := entry.sealedLabel,
    addedIndex := entry.index }

def verifyEntrySignature (crypto : Crypto) (entry : DeviceListEntry) (encodedKey : Bytes) :
    Except Err Unit :=
  match decodeCanonical encodedKey ed25519PublicKeyBytes with
  | .error _ => .error (.detail .deviceListBroken "signer key")
  | .ok key =>
    check (signatureHolds crypto key entry.signingPayload entry.signature = false)
      (.detail .deviceListBroken "signature")

namespace DeviceList

def head (list : DeviceList) : Nat := list.digests.length

def headDigest (list : DeviceList) : Bytes := list.digests.getLastD []

def epoch (list : DeviceList) : Nat := list.epochs.getLastD 0

def digestAt (list : DeviceList) (index : Nat) : Option Bytes :=
  if index = 0 then none else list.digests[index - 1]?

def epochAt (list : DeviceList) (index : Nat) : Option Nat :=
  if index = 0 then none else list.epochs[index - 1]?

def member (list : DeviceList) (deviceID : Bytes) : Option DeviceListMember :=
  list.members.lookup deviceID

/-- The package key a member had at `index`: the loop over `replaced` stops at
    the first change after it. -/
def packageKeyAt (index : Nat) (now : Bytes) (replaced : List PackageKeyChange) : Bytes :=
  match replaced.find? (fun change => index < change.index) with
  | none => now
  | some change => change.previous

def memberAt (list : DeviceList) (deviceID : Bytes) (index : Nat) : Option DeviceListMember :=
  match list.members.lookup deviceID with
  | none => none
  | some member =>
    if member.memberAt index then
      some { member with packageKey := packageKeyAt index member.packageKey member.replaced }
    else none

def current (list : DeviceList) : List DeviceListMember :=
  list.members.values.filter (fun member => member.removedIndex = 0)

/-- The list with the entry's digest and epoch on top: `append`. -/
def append (crypto : Crypto) (list : DeviceList) (entry : DeviceListEntry) (epoch : Nat) :
    DeviceList :=
  { list with
    digests := list.digests ++ [entry.digest crypto]
    epochs := list.epochs ++ [epoch] }

def setMember (list : DeviceList) (member : DeviceListMember) (deviceID : Bytes) : DeviceList :=
  { list with members := list.members.insert deviceID member }

section
variable (crypto : Crypto) (entry : DeviceListEntry)

def extendCreate : EStateM Err DeviceList Unit := do
  refuse (entry.kind ≠ EntryKind.create.text ∨ entry.signerDeviceID ≠ entry.subjectDeviceID ∨
    entry.epochAfter ≠ 1 ∨ entry.snapshotFloor ≠ 0) (.detail .deviceListBroken
      "the first entry must be a self signed create at epoch 1")
  lift (verifyEntrySignature crypto entry entry.subjectSigningKey)
  modify fun list => append crypto ({ list with vaultID := entry.vaultID }.setMember
    (memberFromEntry entry) entry.subjectDeviceID) entry 1

def extendAdd : EStateM Err DeviceList Unit := do
  let list ← get
  refuse ((list.members.lookup entry.subjectDeviceID).isSome = true)
    (.detail .deviceListBroken "device id was already used")
  refuse (entry.epochAfter ≠ list.epoch)
    (.detail .deviceListBroken "an add does not change the epoch")
  refuse (maxDevicesPerVault ≤ list.current.length)
    (.detail .deviceListBroken "too many devices")
  set (append crypto (list.setMember (memberFromEntry entry) entry.subjectDeviceID) entry
    entry.epochAfter)

def extendRemove : EStateM Err DeviceList Unit := do
  let list ← get
  match list.members.lookup entry.subjectDeviceID with
  | none => throw (.detail .deviceListBroken "subject is not a member")
  | some subject =>
    refuse (subject.removedIndex ≠ 0) (.detail .deviceListBroken "subject is not a member")
    refuse (checkedNext list.epoch ≠ some entry.epochAfter)
      (.detail .deviceListBroken "a removal raises the epoch by one")
    set (append crypto (list.setMember { subject with removedIndex := entry.index }
      entry.subjectDeviceID) entry entry.epochAfter)

def extendKey (signer : DeviceListMember) : EStateM Err DeviceList Unit := do
  let list ← get
  refuse (entry.epochAfter ≠ list.epoch)
    (.detail .deviceListBroken "a key replacement does not change the epoch")
  refuse (failed (decodeCanonical signer.packageKey x25519PublicKeyBytes) = true)
    (.detail .deviceListBroken "only a device with the older package key can replace it")
  set (append crypto (list.setMember
    { signer with
      replaced := signer.replaced ++ [⟨entry.index, signer.packageKey⟩]
      packageKey := entry.subjectPackageKey } signer.deviceID) entry entry.epochAfter)

def extendRotate : EStateM Err DeviceList Unit := do
  let list ← get
  refuse (checkedNext list.epoch ≠ some entry.epochAfter)
    (.detail .deviceListBroken "a rotation raises the epoch by one")
  set (append crypto list entry entry.epochAfter)

/-- `Extend` of an entry that is not the first. -/
def extendNext : EStateM Err DeviceList Unit := do
  let list ← get
  refuse (entry.vaultID ≠ list.vaultID) (.detail .deviceListBroken "vault")
  refuse (entry.previousDigest ≠ list.headDigest) (.detail .deviceListBroken "previous digest")
  match list.members.lookup entry.signerDeviceID with
  | none => throw (.detail .deviceListBroken "signer is not a member")
  | some signer =>
    refuse (signer.removedIndex ≠ 0) (.detail .deviceListBroken "signer is not a member")
    lift (verifyEntrySignature crypto entry signer.signingKey)
    match EntryKind.ofText entry.kind with
    | some .create => throw (.detail .deviceListBroken "only the first entry creates")
    | some .add => extendAdd crypto entry
    | some .remove => extendRemove crypto entry
    | some .key => extendKey crypto entry signer
    | some .rotate => extendRotate crypto entry
    | none => throw (.detail .deviceListBroken "kind")

def extend : EStateM Err DeviceList Unit := do
  lift entry.validate
  let list ← get
  refuse (checkedNext list.head ≠ some entry.index) (.detail .deviceListBroken
    ("index " ++ toString entry.index ++ " does not follow " ++ toString list.head))
  if entry.index = 1 then extendCreate crypto entry else extendNext crypto entry

end

def extendAll (crypto : Crypto) : List DeviceListEntry → EStateM Err DeviceList Unit
  | [] => pure ()
  | entry :: rest => do
    extend crypto entry
    extendAll crypto rest

end DeviceList

def verifyDeviceList (crypto : Crypto) (entries : List DeviceListEntry) : Except Err DeviceList :=
  match DeviceList.extendAll crypto entries newDeviceList with
  | .ok _ list => .ok list
  | .error e _ => .error e

namespace DeviceList

/-! What an accepted entry does. -/

/-- `list` grows by `entry` into `list'`: one case for each kind of entry, with
    everything the code checked before it mutated the list. -/
inductive Grows (crypto : Crypto) (entry : DeviceListEntry) (list : DeviceList) :
    DeviceList → Prop
  | create (first : entry.index = 1) (kind : entry.kind = EntryKind.create.text)
      (self : entry.signerDeviceID = entry.subjectDeviceID) (epoch : entry.epochAfter = 1)
      (signed : verifyEntrySignature crypto entry entry.subjectSigningKey = .ok ()) :
      Grows crypto entry list (append crypto ({ list with vaultID := entry.vaultID }.setMember
        (memberFromEntry entry) entry.subjectDeviceID) entry 1)
  | add (signer : DeviceListMember) (isSigner : list.member entry.signerDeviceID = some signer)
      (present : signer.removedIndex = 0)
      (signed : verifyEntrySignature crypto entry signer.signingKey = .ok ())
      (vault : entry.vaultID = list.vaultID)
      (kind : entry.kind = EntryKind.add.text)
      (fresh : list.member entry.subjectDeviceID = none) (epoch : entry.epochAfter = list.epoch)
      (room : list.current.length < maxDevicesPerVault) :
      Grows crypto entry list (append crypto (list.setMember (memberFromEntry entry)
        entry.subjectDeviceID) entry entry.epochAfter)
  | remove (signer : DeviceListMember) (isSigner : list.member entry.signerDeviceID = some signer)
      (present : signer.removedIndex = 0)
      (signed : verifyEntrySignature crypto entry signer.signingKey = .ok ())
      (vault : entry.vaultID = list.vaultID)
      (kind : entry.kind = EntryKind.remove.text)
      (subject : DeviceListMember) (isSubject : list.member entry.subjectDeviceID = some subject)
      (subjectPresent : subject.removedIndex = 0) (epoch : entry.epochAfter = list.epoch + 1) :
      Grows crypto entry list (append crypto (list.setMember
        { subject with removedIndex := entry.index } entry.subjectDeviceID) entry entry.epochAfter)
  | key (signer : DeviceListMember) (isSigner : list.member entry.signerDeviceID = some signer)
      (present : signer.removedIndex = 0)
      (signed : verifyEntrySignature crypto entry signer.signingKey = .ok ())
      (vault : entry.vaultID = list.vaultID)
      (kind : entry.kind = EntryKind.key.text) (epoch : entry.epochAfter = list.epoch) :
      Grows crypto entry list (append crypto (list.setMember
        { signer with
          replaced := signer.replaced ++ [⟨entry.index, signer.packageKey⟩]
          packageKey := entry.subjectPackageKey } signer.deviceID) entry entry.epochAfter)
  | rotate (signer : DeviceListMember) (isSigner : list.member entry.signerDeviceID = some signer)
      (present : signer.removedIndex = 0)
      (signed : verifyEntrySignature crypto entry signer.signingKey = .ok ())
      (vault : entry.vaultID = list.vaultID)
      (kind : entry.kind = EntryKind.rotate.text) (epoch : entry.epochAfter = list.epoch + 1) :
      Grows crypto entry list (append crypto list entry entry.epochAfter)

section
variable {crypto : Crypto} {entry : DeviceListEntry} {list list' : DeviceList} {u : Unit}

section
variable {signer : DeviceListMember} (isSigner : list.member entry.signerDeviceID = some signer)
  (present : signer.removedIndex = 0)
  (signed : verifyEntrySignature crypto entry signer.signingKey = .ok ())
  (vault : entry.vaultID = list.vaultID)
include isSigner present signed vault

theorem extendAdd_grows (kind : entry.kind = EntryKind.add.text)
    (h : extendAdd crypto entry list = .ok u list') : Grows crypto entry list list' := by
  simp only [extendAdd, bind_ok, get_ok, refuse_ok, set_ok] at h
  obtain ⟨_, _, ⟨rfl, rfl⟩, _, _, ⟨hfresh, rfl⟩, _, _, ⟨hepoch, rfl⟩, _, _, ⟨hroom, rfl⟩, rfl⟩ := h
  exact .add signer isSigner present signed vault kind (by simpa [member] using hfresh)
    (not_not.mp hepoch) (by omega)

theorem extendRemove_grows (kind : entry.kind = EntryKind.remove.text)
    (h : extendRemove crypto entry list = .ok u list') : Grows crypto entry list list' := by
  simp only [extendRemove, bind_ok, get_ok] at h
  obtain ⟨_, _, ⟨rfl, rfl⟩, h⟩ := h
  cases hsubject : list.members.lookup entry.subjectDeviceID with
  | none =>
    simp only [hsubject, throw_ok] at h
  | some subject =>
    simp only [hsubject, bind_ok, refuse_ok, set_ok, not_not, checkedNext_some] at h
    obtain ⟨_, _, ⟨hgone, rfl⟩, _, _, ⟨⟨_, hepoch⟩, rfl⟩, rfl⟩ := h
    exact .remove signer isSigner present signed vault kind subject hsubject hgone hepoch

end

theorem extendNext_grows (h : extendNext crypto entry list = .ok u list') :
    Grows crypto entry list list' := by
  simp only [extendNext, bind_ok, get_ok, refuse_ok, not_not] at h
  obtain ⟨_, _, ⟨rfl, rfl⟩, _, _, ⟨hvault, rfl⟩, _, _, ⟨_, rfl⟩, h⟩ := h
  cases hsigner : list.members.lookup entry.signerDeviceID with
  | none => simp only [hsigner, throw_ok] at h
  | some signer =>
    simp only [hsigner, bind_ok, refuse_ok, lift_ok, not_not] at h
    obtain ⟨_, _, ⟨hpresent, rfl⟩, _, _, ⟨hsigned, rfl⟩, h⟩ := h
    cases hk : EntryKind.ofText entry.kind with
    | none => simp only [hk, throw_ok] at h
    | some kind =>
      have hkind := EntryKind.text_of_ofText hk
      rw [hk] at h
      cases kind with
      | create => exact (throw_ok.mp h).elim
      | add => exact extendAdd_grows hsigner hpresent hsigned hvault hkind h
      | remove => exact extendRemove_grows hsigner hpresent hsigned hvault hkind h
      | key =>
        simp only [extendKey, bind_ok, get_ok, refuse_ok, set_ok, not_not] at h
        obtain ⟨_, _, ⟨rfl, rfl⟩, _, _, ⟨hepoch, rfl⟩, _, _, ⟨_, rfl⟩, rfl⟩ := h
        exact .key signer hsigner hpresent hsigned hvault hkind hepoch
      | rotate =>
        simp only [extendRotate, bind_ok, get_ok, refuse_ok, set_ok, not_not,
          checkedNext_some] at h
        obtain ⟨_, _, ⟨rfl, rfl⟩, _, _, ⟨⟨_, hepoch⟩, rfl⟩, rfl⟩ := h
        exact .rotate signer hsigner hpresent hsigned hvault hkind hepoch

theorem extendCreate_grows (first : entry.index = 1)
    (h : extendCreate crypto entry list = .ok u list') : Grows crypto entry list list' := by
  simp only [extendCreate, bind_ok, refuse_ok, lift_ok, modify_ok] at h
  obtain ⟨_, _, ⟨hform, rfl⟩, _, _, ⟨hsigned, rfl⟩, rfl⟩ := h
  push Not at hform
  exact .create first hform.1 hform.2.1 hform.2.2.1 hsigned

/-- **One accepted entry.** It is valid, its index is the next one, and the list
    grows by it. -/
theorem extend_grows (h : extend crypto entry list = .ok u list') :
    entry.validate = .ok () ∧ entry.index = list.head + 1 ∧ Grows crypto entry list list' := by
  simp only [extend, bind_ok, lift_ok, get_ok, refuse_ok, not_not, checkedNext_some] at h
  obtain ⟨_, _, ⟨hvalid, rfl⟩, _, _, ⟨rfl, rfl⟩, _, _, ⟨⟨_, hindex⟩, rfl⟩, h⟩ := h
  refine ⟨hvalid, hindex, ?_⟩
  by_cases first : entry.index = 1
  · rw [if_pos first] at h
    exact extendCreate_grows first h
  · rw [if_neg first] at h
    exact extendNext_grows h

/-- An accepted entry that is not the first names the digest of the one before. -/
theorem extend_previous (h : extend crypto entry list = .ok u list') (next : entry.index ≠ 1) :
    entry.previousDigest = list.headDigest := by
  simp only [extend, bind_ok, lift_ok, get_ok, refuse_ok, if_neg next, extendNext, not_not] at h
  obtain ⟨_, _, ⟨_, rfl⟩, _, _, ⟨rfl, rfl⟩, _, _, ⟨_, rfl⟩, _, _, ⟨rfl, rfl⟩, _, _, ⟨_, rfl⟩, _, _,
    ⟨hprevious, rfl⟩, _⟩ := h
  exact hprevious

theorem extendRemove_clean : FailsClean (extendRemove crypto entry) := by
  refine .get_clean fun list => ?_
  cases list.members.lookup entry.subjectDeviceID with
  | none => exact .throw_clean _
  | some subject => exact .refuse_clean fun _ => .refuse_clean fun _ => .set_clean _

theorem extendNext_clean : FailsClean (extendNext crypto entry) := by
  refine .get_clean fun list => .refuse_clean fun _ => .refuse_clean fun _ => ?_
  cases list.members.lookup entry.signerDeviceID with
  | none => exact .throw_clean _
  | some signer =>
    refine .refuse_clean fun _ => .lift_clean fun _ => ?_
    cases EntryKind.ofText entry.kind with
    | none => exact .throw_clean _
    | some kind =>
      cases kind with
      | create => exact .throw_clean _
      | add =>
        exact .get_clean fun _ => .refuse_clean fun _ => .refuse_clean fun _ =>
          .refuse_clean fun _ => .set_clean _
      | remove => exact extendRemove_clean
      | key => exact .get_clean fun _ => .refuse_clean fun _ => .refuse_clean fun _ => .set_clean _
      | rotate => exact .get_clean fun _ => .refuse_clean fun _ => .set_clean _

/-- A refused entry leaves the list as it was: every check precedes the mutation. -/
theorem extend_clean : FailsClean (extend crypto entry) := by
  refine .lift_clean fun _ => .get_clean fun list => .refuse_clean fun _ => ?_
  by_cases first : entry.index = 1
  · rw [if_pos first]
    exact .refuse_clean fun _ => .lift_clean fun _ => .modify_clean _
  · rw [if_neg first]
    exact extendNext_clean

end

end DeviceList

end Sesame.Syncproto
