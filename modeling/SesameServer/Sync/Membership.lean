import SesameServer.Sync.DeviceChain

/- What a sequence of device list entries keeps, accepted one after the other by `Extend` from an
   empty list.

   1. `extend_member` — what an entry does to a member: its signing key and its label stay, and
      its package key is replaced at most by a longer one, in an entry of its own.
   2. `Grows.room`, `Grows.raises` — the number of members and the epoch.
   3. `Kept` — the invariant over a sequence; `accepted_sequence` puts it together. -/
namespace Sesame.Syncproto
open Outcome DeviceList

namespace DeviceListEntry

def raises (entry : DeviceListEntry) : Bool :=
  EntryKind.ofText entry.kind == some .remove || EntryKind.ofText entry.kind == some .rotate

/-- The entry adds its subject, the first one included. -/
def adds (entry : DeviceListEntry) : Bool :=
  EntryKind.ofText entry.kind == some .create || EntryKind.ofText entry.kind == some .add

/-- The entry replaces the package key of `d`. -/
def replaces (d : Bytes) (entry : DeviceListEntry) : Bool :=
  EntryKind.ofText entry.kind == some .key && entry.subjectDeviceID == d

end DeviceListEntry

def Encodes (n : Nat) (value : Bytes) : Prop := ∃ b, decodeCanonical value n = .ok b

theorem decodeCanonical_ok {value b : Bytes} {n : Nat} (h : decodeCanonical value n = .ok b) :
    Encoding.decode value = some b ∧ b.length = n := by
  unfold decodeCanonical decodeCanonicalWhere at h
  split at h
  · cases h
  split at h
  · cases h
  next decoded hdecode =>
  split at h
  · cases h
  next hlength =>
  split at h
  · cases h
  cases h
  exact ⟨hdecode, by simpa using hlength⟩

theorem Encodes.unique {value : Bytes} {n m : Nat} (h : Encodes n value) (h' : Encodes m value) :
    n = m := by
  obtain ⟨b, hb⟩ := h
  obtain ⟨b', hb'⟩ := h'
  obtain ⟨hdecode, rfl⟩ := decodeCanonical_ok hb
  obtain ⟨hdecode', rfl⟩ := decodeCanonical_ok hb'
  rw [hdecode] at hdecode'
  rw [Option.some.inj hdecode']

section
variable {crypto : Crypto} {entry : DeviceListEntry} {entries : List DeviceListEntry}
  {list list' : DeviceList} {u : Unit}

/-! One entry. -/

theorem validate_newer (h : entry.validate = .ok ()) (kind : EntryKind.ofText entry.kind = some .key) :
    Encodes xWingPublicKeyBytes entry.subjectPackageKey := by
  have hkind := (DeviceListEntry.validate_ok h).2.2.2.2.2
  simp only [DeviceListEntry.validateKind, kind, except_bind_ok, check_ok] at hkind
  obtain ⟨-, -, hkey⟩ := hkind
  exact failed_eq_false.mp (by simpa using hkey)

/-- A key entry is accepted only from a device with a key of the old length. -/
theorem extend_older {signer : DeviceListMember} (h : extend crypto entry list = .ok u list')
    (next : entry.index ≠ 1) (kind : EntryKind.ofText entry.kind = some .key)
    (hsigner : list.member entry.signerDeviceID = some signer) :
    Encodes x25519PublicKeyBytes signer.packageKey := by
  have hsigner : list.members.lookup entry.signerDeviceID = some signer := hsigner
  simp only [extend, bind_ok, lift_ok, get_ok, refuse_ok, if_neg next, extendNext] at h
  obtain ⟨_, _, ⟨_, rfl⟩, _, _, ⟨rfl, rfl⟩, _, _, ⟨_, rfl⟩, _, _, ⟨rfl, rfl⟩, _, _, ⟨_, rfl⟩, _, _,
    ⟨_, rfl⟩, h⟩ := h
  simp only [hsigner, kind, extendKey, bind_ok, refuse_ok, lift_ok, get_ok] at h
  obtain ⟨_, _, ⟨_, rfl⟩, _, _, ⟨_, rfl⟩, _, _, ⟨rfl, rfl⟩, _, _, ⟨_, rfl⟩, _, _, ⟨hold, rfl⟩, _⟩ := h
  exact failed_eq_false.mp (by simpa using hold)

/-- What stays of a member, and what may be replaced. -/
structure Stays (m m' : DeviceListMember) : Prop where
  signingKey : m'.signingKey = m.signingKey
  sealedLabel : m'.sealedLabel = m.sealedLabel
  packageKey : m'.packageKey = m.packageKey ∨
    Encodes x25519PublicKeyBytes m.packageKey ∧ Encodes xWingPublicKeyBytes m'.packageKey

theorem Stays.refl (m : DeviceListMember) : Stays m m := ⟨rfl, rfl, .inl rfl⟩

variable {m : DeviceListMember} {d : Bytes}

theorem Stays.trans {m' m'' : DeviceListMember} (h : Stays m m') (h' : Stays m' m'') :
    Stays m m'' where
  signingKey := h'.signingKey.trans h.signingKey
  sealedLabel := h'.sealedLabel.trans h.sealedLabel
  packageKey := by
    rcases h.packageKey with heq | ⟨hold, hnew⟩
    · exact heq ▸ h'.packageKey
    · rcases h'.packageKey with heq | ⟨hold', -⟩
      · exact .inr ⟨hold, heq ▸ hnew⟩
      · exact absurd (hnew.unique hold') (by decide)

/-- **What an entry does to a member.** Its package key is replaced exactly by a key entry of its
    own. -/
theorem extend_member (h : extend crypto entry list = .ok u list') (wf : WF list)
    (hm : list.member d = some m) : ∃ m', list'.member d = some m' ∧ Stays m m' ∧
      (entry.replaces d = true → Encodes x25519PublicKeyBytes m.packageKey ∧
        Encodes xWingPublicKeyBytes m'.packageKey) ∧
      (entry.replaces d = false → m'.packageKey = m.packageKey) := by
  obtain ⟨valid, hi, g⟩ := extend_grows h
  obtain ⟨m', hm', hcase⟩ := g.member_cases hi wf hm
  -- what replaces the key of `d` is a key entry that `d` signed
  have hkey : entry.replaces d = true →
      entry.kind = EntryKind.key.text ∧ d = entry.signerDeviceID := by
    intro hrep
    simp only [DeviceListEntry.replaces, Bool.and_eq_true, beq_iff_eq] at hrep
    exact ⟨EntryKind.text_of_ofText hrep.1,
      hrep.2.symm.trans (DeviceListEntry.validate_self valid (.inl hrep.1))⟩
  refine ⟨m', hm', ?_⟩
  rcases hcase with ⟨rfl, hown⟩ | ⟨-, ⟨kind, rfl⟩ | ⟨kind, rfl, rfl⟩⟩
  · exact ⟨.refl m', fun hrep => absurd (hkey hrep).2 (hown (hkey hrep).1), fun _ => rfl⟩
  · refine ⟨⟨rfl, rfl, .inl rfl⟩, fun hrep => ?_, fun _ => rfl⟩
    exact absurd (kind.symm.trans (hkey hrep).1) (EntryKind.text_ne (by decide))
  · have hkind : EntryKind.ofText entry.kind = some .key := by rw [kind, EntryKind.ofText_text]
    have hnext : entry.index ≠ 1 := by
      intro first
      rw [wf.no_members (by omega)] at hm
      cases hm
    have hold := extend_older h hnext hkind hm
    have hnew := validate_newer valid hkind
    refine ⟨⟨rfl, rfl, .inr ⟨hold, hnew⟩⟩, fun _ => ⟨hold, hnew⟩, fun hrep => ?_⟩
    simp [DeviceListEntry.replaces, hkind, DeviceListEntry.validate_self valid (.inl hkind)] at hrep

/-- An entry after the first is signed by a current member. -/
theorem DeviceList.Grows.signer (g : Grows crypto entry list list') (next : entry.index ≠ 1) : ∃ signer,
    list.member entry.signerDeviceID = some signer ∧ signer.removedIndex = 0 ∧
    verifyEntrySignature crypto entry signer.signingKey = .ok () := by
  cases g with
  | create first => exact absurd first next
  | add signer isSigner present signed | remove signer isSigner present signed
  | key signer isSigner present signed | rotate signer isSigner present signed =>
    exact ⟨signer, isSigner, present, signed⟩

theorem DeviceList.WF.head_ne_zero (wf : WF list) (h : list.member d = some m) : list.head ≠ 0 := by
  intro hzero
  rw [wf.no_members hzero] at h
  cases h

/-- The epoch after the first entry is 1, and after another it is higher exactly for a removal or
    a rotation. -/
theorem DeviceList.Grows.raises (g : Grows crypto entry list list') (wf : WF list)
    (hi : entry.index = list.head + 1) : list'.epoch =
      (if list.head = 0 then 1 else list.epoch) + if entry.raises then 1 else 0 := by
  cases g with
  | create first kind =>
    simp [DeviceListEntry.raises, kind, EntryKind.ofText_text, show list.head = 0 by omega]
  | add _ isSigner _ _ _ kind _ epoch | remove _ isSigner _ _ _ kind _ _ _ epoch
  | key _ isSigner _ _ _ kind epoch | rotate _ isSigner _ _ _ kind epoch =>
    simp [DeviceListEntry.raises, kind, EntryKind.ofText_text, wf.head_ne_zero isSigner, epoch]

theorem current_length (list : DeviceList) : list.current.length =
    Finmap.sumBy list.members.toFinmap fun m => if m.removedIndex = 0 then 1 else 0 := by
  rw [Finmap.sumBy_toFinmap, current]
  induction list.members.values with
  | nil => rfl
  | cons m values ih =>
    by_cases hm : m.removedIndex = 0
    · simp [hm, ih, Nat.add_comm]
    · simp [hm, ih]

theorem current_setMember_le (list : DeviceList) (m : DeviceListMember) (d : Bytes) :
    (list.setMember m d).current.length ≤
      list.current.length + if m.removedIndex = 0 then 1 else 0 := by
  rw [current_length, current_length]
  exact Finmap.sumBy_insert_le (m := list.members.toFinmap) m fun m => if m.removedIndex = 0 then 1 else 0

theorem current_replace {m' : DeviceListMember} (h : list.member d = some m)
    (same : m'.removedIndex = m.removedIndex) :
    (list.setMember m' d).current.length = list.current.length := by
  have hsum := Finmap.sumBy_replace m' (fun m => if m.removedIndex = 0 then 1 else 0)
    (show list.members.toFinmap.lookup d = some m from h)
  rw [current_length, current_length]
  rw [same] at hsum
  exact Nat.add_right_cancel hsum

theorem DeviceList.Grows.room (g : Grows crypto entry list list') (wf : WF list)
    (hi : entry.index = list.head + 1)
    (room : list.current.length ≤ maxDevicesPerVault) : list'.current.length ≤ maxDevicesPerVault := by
  cases g with
  | create first =>
    have hnone : list.current.length = 0 := by
      refine List.length_eq_zero_iff.mpr (List.eq_nil_iff_forall_not_mem.mpr fun m hm => ?_)
      obtain ⟨⟨d, hd⟩, -⟩ := mem_current.mp hm
      exact wf.head_ne_zero hd (by omega)
    have hle := current_setMember_le { list with vaultID := entry.vaultID } (memberFromEntry entry)
      entry.subjectDeviceID
    exact Nat.le_trans hle (by simp [memberFromEntry, show ({ list with vaultID := entry.vaultID } :
      DeviceList).current.length = 0 from hnone, maxDevicesPerVault])
  | add _ _ _ _ _ _ fresh _ hroom =>
    refine Nat.le_trans (current_setMember_le list (memberFromEntry entry) _) ?_
    simpa [memberFromEntry] using hroom
  | remove _ _ _ _ _ _ subject =>
    refine Nat.le_trans (current_setMember_le list { subject with removedIndex := entry.index } _) ?_
    simpa [hi] using room
  | key signer isSigner present =>
    have hrecord : list.member signer.deviceID = some signer := wf.keyed _ _ isSigner ▸ isSigner
    exact Nat.le_trans (Nat.le_of_eq (current_replace hrecord rfl)) room
  | rotate => exact room

/-- An entry that adds a device adds one that no entry has added. -/
theorem DeviceList.Grows.adds (g : Grows crypto entry list list') (wf : WF list)
    (hi : entry.index = list.head + 1)
    (hadds : entry.adds = true) : list.member entry.subjectDeviceID = none ∧
      (list'.member entry.subjectDeviceID).isSome = true := by
  cases g with
  | create first =>
    rw [member_append, member_setMember, if_pos rfl]
    exact ⟨wf.no_members (by omega) _, rfl⟩
  | add _ _ _ _ _ _ fresh =>
    rw [member_append, member_setMember, if_pos rfl]
    exact ⟨fresh, rfl⟩
  | remove _ _ _ _ _ kind | key _ _ _ _ _ kind | rotate _ _ _ _ _ kind =>
    simp [DeviceListEntry.adds, kind, EntryKind.ofText_text] at hadds

theorem DeviceList.Grows.key_subject (g : Grows crypto entry list list')
    (valid : entry.validate = .ok ()) (hrep : entry.replaces d = true) :
    ∃ m, list.member d = some m := by
  simp only [DeviceListEntry.replaces, Bool.and_eq_true, beq_iff_eq] at hrep
  obtain ⟨hkind, rfl⟩ := hrep
  have hself := DeviceListEntry.validate_self valid (.inl hkind)
  cases g with
  | create _ kind => simp [kind, EntryKind.ofText_text] at hkind
  | add _ isSigner | remove _ isSigner | key _ isSigner | rotate _ isSigner =>
    exact ⟨_, hself ▸ isSigner⟩

/-! A sequence of entries. -/

structure Kept (entries : List DeviceListEntry) (list : DeviceList) : Prop where
  epoch : entries ≠ [] → list.epoch = 1 + entries.countP DeviceListEntry.raises
  room : list.current.length ≤ maxDevicesPerVault
  added : ∀ entry ∈ entries, entry.adds = true → (list.member entry.subjectDeviceID).isSome = true
  once : ((entries.filter DeviceListEntry.adds).map (·.subjectDeviceID)).Nodup
  keys : ∀ d, entries.countP (DeviceListEntry.replaces d) ≤ 1
  newer : ∀ d, 0 < entries.countP (DeviceListEntry.replaces d) → ∃ m, list.member d = some m ∧
    Encodes xWingPublicKeyBytes m.packageKey

theorem Kept.nil : Kept [] newDeviceList where
  epoch h := absurd rfl h
  room := Nat.zero_le _
  added _ h := by cases h
  once := List.nodup_nil
  keys _ := Nat.zero_le _
  newer _ h := by cases h

theorem Kept.snoc (kept : Kept entries list) (wf : WF list) (head : list.head = entries.length)
    (h : extend crypto entry list = .ok u list') : Kept (entries ++ [entry]) list' := by
  obtain ⟨valid, hi, g⟩ := extend_grows h
  have hmember := fun d m (hm : list.member d = some m) => extend_member h wf hm
  refine ⟨fun _ => ?_, g.room wf hi kept.room, fun e he hadds => ?_, ?_, fun d => ?_, fun d hpos => ?_⟩
  · rw [g.raises wf hi, List.countP_append, List.countP_singleton]
    cases entries with
    | nil => simp [head]
    | cons e es =>
      rw [if_neg (by simp [head]), kept.epoch (List.cons_ne_nil e es)]
      omega
  · rcases List.mem_append.mp he with he | he
    · obtain ⟨m, hm⟩ := Option.isSome_iff_exists.mp (kept.added e he hadds)
      obtain ⟨m', hm', -⟩ := hmember _ m hm
      exact Option.isSome_iff_exists.mpr ⟨m', hm'⟩
    · cases List.mem_singleton.mp he
      exact (g.adds wf hi hadds).2
  · rw [List.filter_append, List.map_append]
    by_cases hadds : entry.adds = true
    · rw [List.filter_cons_of_pos hadds, List.filter_nil]
      refine List.nodup_append.mpr ⟨kept.once, by simp, fun d hd d' hd' heq => ?_⟩
      -- what was added before is a member, and the subject is none
      obtain ⟨e, he, rfl⟩ := List.mem_map.mp hd
      obtain ⟨he, headds⟩ := List.mem_filter.mp he
      have hsome := kept.added e he headds
      rw [heq, List.mem_singleton.mp hd', (g.adds wf hi hadds).1] at hsome
      cases hsome
    · rw [List.filter_cons_of_neg hadds, List.filter_nil]
      simpa using kept.once
  · rw [List.countP_append, List.countP_singleton]
    split
    · next hrep =>
      -- the key it replaces has the old length, so it is the first one
      have hzero : entries.countP (DeviceListEntry.replaces d) = 0 := by
        by_contra hne
        obtain ⟨m, hm, hnew⟩ := kept.newer d (Nat.pos_of_ne_zero hne)
        obtain ⟨m', -, -, hold, -⟩ := hmember d m hm
        exact absurd ((hold hrep).1.unique hnew) (by decide)
      omega
    · exact kept.keys d
  · rw [List.countP_append, List.countP_singleton] at hpos
    split at hpos
    · next hrep =>
      obtain ⟨m, hm⟩ := g.key_subject valid hrep
      obtain ⟨m', hm', -, hold, -⟩ := hmember d m hm
      exact ⟨m', hm', (hold hrep).2⟩
    · next hrep =>
      obtain ⟨m, hm, hnew⟩ := kept.newer d hpos
      obtain ⟨m', hm', -, -, hsame⟩ := hmember d m hm
      exact ⟨m', hm', (hsame (by simpa using hrep)).symm ▸ hnew⟩

theorem verifyDeviceList_kept (h : verifyDeviceList crypto entries = .ok list) : Kept entries list := by
  induction entries using List.reverseRecOn generalizing list with
  | nil =>
    obtain rfl := Except.ok.inj h
    exact .nil
  | append_singleton entries entry ih =>
    obtain ⟨l, hl, hextend⟩ := verifyDeviceList_snoc.mp h
    exact (ih hl).snoc (verifyDeviceList_wf hl) (verifyDeviceList_head hl) hextend

theorem verifyDeviceList_stays {more : List DeviceListEntry}
    (h : verifyDeviceList crypto (entries ++ more) = .ok list') : ∃ list,
    verifyDeviceList crypto entries = .ok list ∧
    ∀ d m, list.member d = some m → ∃ m', list'.member d = some m' ∧ Stays m m' := by
  induction more using List.reverseRecOn generalizing list' with
  | nil =>
    rw [List.append_nil] at h
    exact ⟨list', h, fun d m hm => ⟨m, hm, .refl m⟩⟩
  | append_singleton more entry ih =>
    rw [← List.append_assoc] at h
    obtain ⟨l, hl, hextend⟩ := verifyDeviceList_snoc.mp h
    obtain ⟨list, hlist, hstays⟩ := ih hl
    refine ⟨list, hlist, fun d m hm => ?_⟩
    obtain ⟨m', hm', hfirst⟩ := hstays d m hm
    obtain ⟨m'', hm'', hlast, -⟩ := extend_member hextend (verifyDeviceList_wf hl) hm'
    exact ⟨m'', hm'', hfirst.trans hlast⟩

/-- **An accepted sequence of entries.** They are numbered from 1; the epoch is 1 and one more for
    each removal and rotation, unless there is no entry; there are at most 10 current members;
    no device id is added twice; what a member was it stays, but for one replacement of a
    package key of 32 bytes by one of 1216; every entry after the first is signed by a device
    that is a current member just before it; and an entry that is refused leaves the list as
    it was. -/
theorem accepted_sequence (h : verifyDeviceList crypto entries = .ok list) :
    entries.map (·.index) = (List.range entries.length).map (· + 1) ∧
    (entries ≠ [] → list.epoch = 1 + entries.countP DeviceListEntry.raises) ∧
    list.current.length ≤ 10 ∧
    ((entries.filter DeviceListEntry.adds).map (·.subjectDeviceID)).Nodup ∧
    (∀ d, entries.countP (DeviceListEntry.replaces d) ≤ 1) ∧
    (∀ before after, entries = before ++ after → ∃ list₀,
      verifyDeviceList crypto before = .ok list₀ ∧
      ∀ d m, list₀.member d = some m → ∃ m', list.member d = some m' ∧
        m'.signingKey = m.signingKey ∧ m'.sealedLabel = m.sealedLabel ∧
        (m'.packageKey = m.packageKey ∨ Encodes 32 m.packageKey ∧ Encodes 1216 m'.packageKey)) ∧
    (∀ before entry after, entries = before ++ entry :: after → before ≠ [] → ∃ list₀ signer,
      verifyDeviceList crypto before = .ok list₀ ∧
      list₀.member entry.signerDeviceID = some signer ∧ signer.removedIndex = 0 ∧
      verifyEntrySignature crypto entry signer.signingKey = .ok ()) ∧
    ∀ entry e list', extend crypto entry list = .error e list' → list' = list := by
  have kept := verifyDeviceList_kept h
  refine ⟨verifyDeviceList_index h, kept.epoch, kept.room, kept.once, kept.keys, ?_, ?_, ?_⟩
  · rintro before after rfl
    obtain ⟨list₀, hbefore, hstays⟩ := verifyDeviceList_stays h
    refine ⟨list₀, hbefore, fun d m hm => ?_⟩
    obtain ⟨m', hm', hkeep⟩ := hstays d m hm
    exact ⟨m', hm', hkeep.signingKey, hkeep.sealedLabel, hkeep.packageKey⟩
  · rintro before entry after rfl hne
    rw [List.append_cons] at h
    obtain ⟨list₁, hlist₁, -⟩ := verifyDeviceList_stays h
    obtain ⟨list₀, hbefore, hextend⟩ := verifyDeviceList_snoc.mp hlist₁
    obtain ⟨-, hi, g⟩ := extend_grows hextend
    have hnext : entry.index ≠ 1 := by
      rw [hi, verifyDeviceList_head hbefore]
      simpa using hne
    obtain ⟨signer, hsigner, hpresent, hsigned⟩ := g.signer hnext
    exact ⟨list₀, signer, hbefore, hsigner, hpresent, hsigned⟩
  · intro entry e list' herror
    exact (extend_clean list e list' herror).symm

end

namespace Membership.Demo

/-- Stand-ins: a digest that shows the length, and signatures that all hold. -/
def crypto : Crypto where
  sha256 message := List.replicate 32 (UInt8.ofNat message.length)
  verify _ _ _ := true
  sign _ _ := List.replicate 64 0
  publicKey _ := List.replicate 32 0

def device (n : UInt8) : Bytes := utf8 "device-000000000" ++ [n + 48]

def entry (index : Nat) (previous : Bytes) (kind : EntryKind) (subject : UInt8) (keys : Bool)
    (packageKey : Bytes) (epoch : Nat) : DeviceListEntry :=
  ⟨utf8 "vault-0000000000", index, previous, kind.text, device 1, device subject,
    if keys then Encoding.encode (List.replicate 32 subject) else [], packageKey,
    if keys then Encoding.encode (List.replicate 40 subject) else [], epoch, 0,
    Encoding.encode (List.replicate 64 0)⟩

def older : Bytes := Encoding.encode (List.replicate 32 7)
def newer : Bytes := Encoding.encode (List.replicate 1216 8)

def first : DeviceListEntry := entry 1 [] .create 1 true older 1
def second : DeviceListEntry := entry 2 (first.digest crypto) .add 2 true older 1
def third : DeviceListEntry := entry 3 (second.digest crypto) .key 1 false newer 1
def fourth : DeviceListEntry := entry 4 (third.digest crypto) .remove 2 false [] 2

/-- A vault is made, a device is added, the first one gets a new key and removes the other. -/
theorem four_entries : ∃ list, verifyDeviceList crypto [first, second, third, fourth] = .ok list ∧
    list.epoch = 1 + [first, second, third, fourth].countP DeviceListEntry.raises ∧
    list.current.length ≤ 10 := by
  have hok : (verifyDeviceList crypto [first, second, third, fourth]).isOk = true := by decide +kernel
  obtain ⟨list, hlist⟩ : ∃ list, verifyDeviceList crypto [first, second, third, fourth] = .ok list := by
    cases h : verifyDeviceList crypto [first, second, third, fourth] with
    | ok list => exact ⟨list, rfl⟩
    | error e =>
      rw [h] at hok
      cases hok
  obtain ⟨-, hepoch, hroom, -⟩ := accepted_sequence hlist
  exact ⟨list, hlist, hepoch (by simp), hroom⟩

/-- No entry at all is accepted, too, and the epoch is then 0. -/
theorem epoch_before_first : ∃ list, verifyDeviceList crypto [] = .ok list ∧
    list.epoch ≠ 1 + ([] : List DeviceListEntry).countP DeviceListEntry.raises :=
  ⟨newDeviceList, rfl, by decide⟩

end Membership.Demo

end Sesame.Syncproto
