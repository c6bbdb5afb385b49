import SesameServer.Sync.Packages

/- The device list as it was.

   A list keeps its removed members and their replaced package keys, so that
   `memberAt` can tell who was a member at an earlier entry. `SameUpTo` says that two
   lists tell the same of every entry up to `i`:

   1. `memberAt_grows` — an accepted entry changes nothing that `memberAt` tells of
      the entries before it.
   2. `verifyDeviceList_past` — so a verified chain tells of every entry up to `i`
      what the chain of its first `i` entries tells.
   3. `memberAt_head` — and at its head, a list tells its current members.
   4. `member_at_replays` — `memberAt` is a replay, and headers and checkpoints get
      the same verdict from both lists. -/
namespace Sesame.Syncproto
open Outcome

def DeviceListMember.identity (m : DeviceListMember) : Bytes × Bytes × Bytes × Bytes × Nat :=
  (m.deviceID, m.signingKey, m.packageKey, m.sealedLabel, m.addedIndex)

namespace DeviceList

variable {crypto : Crypto} {entry : DeviceListEntry} {list list' past : DeviceList} {d : Bytes}
  {i : Nat}

/-- What `memberAt` tells of a member's record. -/
def told (index : Nat) (m : DeviceListMember) : Option (Bytes × Bytes × Bytes × Bytes × Nat) :=
  if m.memberAt index then
    some ({ m with packageKey := packageKeyAt index m.packageKey m.replaced } :
      DeviceListMember).identity
  else none

theorem memberAt_told : (list.memberAt d i).map (·.identity) = (list.member d).bind (told i) := by
  unfold memberAt member told
  cases list.members.lookup d with
  | none => rfl
  | some m =>
    simp only [Option.bind_some]
    split <;> rfl

theorem told_early {m : DeviceListMember} (h : i < m.addedIndex) : told i m = none := by
  have hat : m.memberAt i = false := by
    simp only [DeviceListMember.memberAt, Bool.and_eq_false_iff, decide_eq_false_iff_not]
    omega
  simp [told, hat]

theorem told_removed {m : DeviceListMember} {k : Nat} (hpresent : m.removedIndex = 0) (h : i < k) :
    told i { m with removedIndex := k } = told i m := by
  have hat : ({ m with removedIndex := k } : DeviceListMember).memberAt i = m.memberAt i := by
    simp [DeviceListMember.memberAt, hpresent, h]
  simp only [told, hat]
  rfl

theorem told_replaced {m : DeviceListMember} {k : Nat} {key : Bytes} (h : i < k) :
    told i { m with replaced := m.replaced ++ [⟨k, m.packageKey⟩], packageKey := key } =
      told i m := by
  have hkey : packageKeyAt i key (m.replaced ++ [⟨k, m.packageKey⟩]) =
      packageKeyAt i m.packageKey m.replaced := by
    unfold packageKeyAt
    rw [List.find?_append]
    cases m.replaced.find? (fun change => i < change.index) with
    | some change => rfl
    | none => simp [h]
  unfold told
  rw [hkey]
  rfl

/-- **An accepted entry leaves the past alone.** -/
theorem memberAt_grows (g : Grows crypto entry list list') (hi : entry.index = list.head + 1)
    (wf : WF list) (hle : i ≤ list.head) (d : Bytes) :
    (list'.memberAt d i).map (·.identity) = (list.memberAt d i).map (·.identity) := by
  simp only [memberAt_told]
  have hlt : i < entry.index := by omega
  -- the record that is set tells what the old one told
  have hset : ∀ {m : DeviceListMember} {k : Bytes}, told i m = (list.member k).bind (told i) →
      (if d = k then some m else list.member d).bind (told i) = (list.member d).bind (told i) := by
    intro m k h
    split
    · next hd => rw [hd, ← h, Option.bind_some]
    · rfl
  cases g with
  | create first =>
    rw [member_append, member_setMember]
    refine hset ?_
    rw [told_early (by simpa [memberFromEntry] using hlt), wf.no_members (by omega)]
    rfl
  | add _ _ _ _ _ _ fresh =>
    rw [member_append, member_setMember]
    refine hset ?_
    rw [told_early (by simpa [memberFromEntry] using hlt), fresh]
    rfl
  | remove _ _ _ _ _ _ subject isSubject present =>
    rw [member_append, member_setMember]
    refine hset ?_
    rw [told_removed present hlt, isSubject, Option.bind_some]
  | key signer isSigner =>
    rw [member_append, member_setMember]
    refine hset ?_
    rw [told_replaced hlt, wf.keyed _ _ isSigner, isSigner, Option.bind_some]
  | rotate => rw [member_append]

/-- Two lists tell the same of every entry up to `i`. -/
structure SameUpTo (i : Nat) (past list : DeviceList) : Prop where
  vault : 0 < i → past.vaultID = list.vaultID
  digests : ∀ j ≤ i, past.digestAt j = list.digestAt j
  epochs : ∀ j ≤ i, past.epochAt j = list.epochAt j
  members : ∀ j ≤ i, ∀ d,
    (past.memberAt d j).map (·.identity) = (list.memberAt d j).map (·.identity)

theorem SameUpTo.refl (i : Nat) (list : DeviceList) : SameUpTo i list list :=
  ⟨fun _ => rfl, fun _ _ => rfl, fun _ _ => rfl, fun _ _ _ => rfl⟩

theorem SameUpTo.grows (h : SameUpTo i past list) (g : Grows crypto entry list list')
    (hi : entry.index = list.head + 1) (wf : WF list) (hle : i ≤ list.head) :
    SameUpTo i past list' := by
  refine ⟨fun hpos => ?_, fun j hj => ?_, fun j hj => ?_, fun j hj d => ?_⟩
  · rw [h.vault hpos]
    cases g with
    | create first => omega
    | add | remove | key | rotate => rfl
  · rw [h.digests j hj, digestAt_grows g (hj.trans hle)]
  · rw [h.epochs j hj, epochAt_grows g wf (hj.trans hle)]
  · rw [h.members j hj d, memberAt_grows g hi wf (hj.trans hle)]

/-! The head of a list. -/

/-- No package key was replaced after the head. -/
theorem Grows.replaced (g : Grows crypto entry list list') (hi : entry.index = list.head + 1)
    (h : ∀ d m, list.member d = some m → ∀ change ∈ m.replaced, change.index ≤ list.head) :
    ∀ d m, list'.member d = some m → ∀ change ∈ m.replaced, change.index ≤ list'.head := by
  intro d m hm change hc
  rw [g.head]
  have hold : ∀ {k : Bytes} {m' : DeviceListMember}, list.member k = some m' →
      change ∈ m'.replaced → change.index ≤ list.head + 1 :=
    fun hm' hc' => Nat.le_succ_of_le (h _ _ hm' change hc')
  have hset : ∀ {x : DeviceListMember} {k : Bytes}, (list.setMember x k).member d = some m →
      m = x ∨ list.member d = some m := by
    intro x k hx
    rw [member_setMember] at hx
    split at hx
    · exact Or.inl (Option.some.inj hx).symm
    · exact Or.inr hx
  cases g with
  | create | add =>
    rcases hset hm with rfl | hm
    · cases hc
    · exact hold hm hc
  | remove _ _ _ _ _ _ subject isSubject =>
    rcases hset hm with rfl | hm
    · exact hold isSubject hc
    · exact hold hm hc
  | key signer isSigner =>
    rcases hset hm with rfl | hm
    · rcases List.mem_append.mp hc with hc | hc
      · exact hold isSigner hc
      · rw [List.mem_singleton.mp hc]
        exact Nat.le_of_eq hi
    · exact hold hm hc
  | rotate => exact hold hm hc

end DeviceList

section
variable {crypto : Crypto} {entries : List DeviceListEntry} {list past : DeviceList} {d : Bytes}
  {i : Nat}
open DeviceList

theorem verifyDeviceList_replaced (h : verifyDeviceList crypto entries = .ok list) :
    ∀ d m, list.member d = some m → ∀ change ∈ m.replaced, change.index ≤ list.head :=
  verifyDeviceList_induction (P := fun _ list => ∀ d m, list.member d = some m →
    ∀ change ∈ m.replaced, change.index ≤ list.head) (fun _ _ hm => by cases hm)
    (fun _ _ _ _ _ _ hi hg ih => hg.replaced hi ih) h

/-- **At its head, a verified list tells its current members.** -/
theorem memberAt_head (h : verifyDeviceList crypto entries = .ok list) (d : Bytes) :
    list.memberAt d list.head = (list.member d).filter (fun m => m.removedIndex = 0) := by
  have wf := verifyDeviceList_wf h
  have hreplaced := verifyDeviceList_replaced h d
  unfold DeviceList.memberAt
  have hadded := wf.added d
  have hremoved := wf.removed d
  unfold DeviceList.member at hadded hremoved hreplaced ⊢
  cases hm : list.members.lookup d with
  | none => rfl
  | some m =>
    have hat : m.memberAt list.head = decide (m.removedIndex = 0) := by
      have := hadded m hm
      have := hremoved m hm
      by_cases h0 : m.removedIndex = 0
      · simp [DeviceListMember.memberAt, h0]
        omega
      · simp [DeviceListMember.memberAt, h0]
        omega
    have hkey : packageKeyAt list.head m.packageKey m.replaced = m.packageKey := by
      unfold packageKeyAt
      rw [List.find?_eq_none.mpr fun change hc => ?_]
      have := hreplaced m hm change hc
      simpa using this
    simp only [hat, hkey, Option.filter_some]

/-- **A verified chain tells of every entry up to `i` what its first `i` entries tell.** -/
theorem verifyDeviceList_past (h : verifyDeviceList crypto entries = .ok list)
    (hle : i ≤ entries.length) :
    ∃ past, verifyDeviceList crypto (entries.take i) = .ok past ∧ SameUpTo i past list := by
  induction entries using List.reverseRecOn generalizing list with
  | nil => exact ⟨list, by simpa using h, .refl i list⟩
  | append_singleton entries entry ih =>
    rcases Nat.lt_or_ge entries.length i with hlt | hge
    · refine ⟨list, ?_, .refl i list⟩
      rwa [List.take_of_length_le (by simpa using hlt)]
    · obtain ⟨before, hbefore, hext⟩ := verifyDeviceList_snoc.mp h
      obtain ⟨_, hi, g⟩ := extend_grows hext
      obtain ⟨past, hpast, hsame⟩ := ih hbefore hge
      refine ⟨past, ?_, hsame.grows g hi (verifyDeviceList_wf hbefore) ?_⟩
      · rwa [List.take_append_of_le_length hge]
      · rwa [verifyDeviceList_head hbefore]

/-! The verdicts. -/

/-- The signer at an entry up to `i` has the same signing key in both lists. -/
theorem DeviceList.SameUpTo.signer (same : SameUpTo i past list) {j : Nat} (hj : j ≤ i) (d : Bytes) :
    (past.memberAt d j).map (·.signingKey) = (list.memberAt d j).map (·.signingKey) := by
  have hkey : ∀ x : Option DeviceListMember,
      x.map (·.signingKey) = (x.map (·.identity)).map (·.2.1) := fun x => by cases x <;> rfl
  rw [hkey, hkey, same.members j hj d]

theorem check_head {j : Nat} (hpast : i ≤ past.head) (hlist : i ≤ list.head) (hj : j ≤ i) (e : Err) :
    check (past.head < j) e = check (list.head < j) e := by
  rw [check, check, if_neg (by omega), if_neg (by omega)]

theorem verifySigner_eq (header : Header)
    (h : (past.memberAt header.deviceID header.deviceListIndex).map (·.signingKey) =
      (list.memberAt header.deviceID header.deviceListIndex).map (·.signingKey)) :
    verifySigner crypto past header = verifySigner crypto list header := by
  unfold verifySigner
  cases hp : past.memberAt header.deviceID header.deviceListIndex with
  | none =>
    cases hl : list.memberAt header.deviceID header.deviceListIndex with
    | none => rfl
    | some signer => simp [hp, hl] at h
  | some signer =>
    cases hl : list.memberAt header.deviceID header.deviceListIndex with
    | none => simp [hp, hl] at h
    | some signer' =>
      simp only [hp, hl, Option.map_some, Option.some.injEq] at h
      simp only [h]

theorem DeviceList.SameUpTo.verifyHeader_eq (same : SameUpTo i past list) (hpos : 0 < i)
    (hpast : i ≤ past.head) (hlist : i ≤ list.head) (previous : Option Header) {header : Header}
    (hle : header.deviceListIndex ≤ i) :
    verifyHeader crypto past previous header = verifyHeader crypto list previous header := by
  unfold verifyHeader
  rw [same.vault hpos, same.digests _ hle, same.epochs _ hle, check_head hpast hlist hle,
    verifySigner_eq header (same.signer hle _)]

theorem DeviceList.SameUpTo.verifyAgainst_eq (same : SameUpTo i past list) (hpos : 0 < i)
    (hpast : i ≤ past.head) (hlist : i ≤ list.head) {checkpoint : Checkpoint}
    (hle : checkpoint.deviceListIndex ≤ i) :
    checkpoint.verifyAgainst crypto past = checkpoint.verifyAgainst crypto list := by
  have hsigner := same.signer hle checkpoint.deviceID
  unfold Checkpoint.verifyAgainst
  rw [same.vault hpos, same.digests _ hle, check_head hpast hlist hle]
  cases hp : past.memberAt checkpoint.deviceID checkpoint.deviceListIndex with
  | none =>
    cases hl : list.memberAt checkpoint.deviceID checkpoint.deviceListIndex with
    | none => rfl
    | some signer => simp [hp, hl] at hsigner
  | some signer =>
    cases hl : list.memberAt checkpoint.deviceID checkpoint.deviceListIndex with
    | none => simp [hp, hl] at hsigner
    | some signer' =>
      simp only [hp, hl, Option.map_some, Option.some.injEq] at hsigner
      simp only [hsigner]

/-- The current members are those told of at the head. -/
theorem mem_current_iff (h : verifyDeviceList crypto entries = .ok list) {m : DeviceListMember} :
    m ∈ list.current ↔ list.memberAt m.deviceID list.head = some m := by
  have wf := verifyDeviceList_wf h
  rw [memberAt_head h, Option.filter_eq_some_iff, mem_current, decide_eq_true_eq]
  constructor
  · rintro ⟨⟨d, hm⟩, hpresent⟩
    rw [wf.keyed d m hm]
    exact ⟨hm, hpresent⟩
  · rintro ⟨hm, hpresent⟩
    exact ⟨⟨_, hm⟩, hpresent⟩

/-- **`MemberAt` is a replay.** For a verified chain and an entry `i` of it, the first
    `i` entries verify, and the list they make has as its current members exactly the
    devices that `MemberAt` finds at `i` in the full list, with the same signing key,
    package key, label and added index. Every header and every checkpoint that names
    an entry up to `i` gets the same verdict from both lists. -/
theorem member_at_replays (h : verifyDeviceList crypto entries = .ok list) (hpos : 1 ≤ i)
    (hle : i ≤ entries.length) : ∃ past, verifyDeviceList crypto (entries.take i) = .ok past ∧
      (∀ d, (∃ m, list.memberAt d i = some m) ↔ d ∈ past.current.map (·.deviceID)) ∧
      (∀ m now, list.memberAt now.deviceID i = some m → now ∈ past.current →
        m.signingKey = now.signingKey ∧ m.packageKey = now.packageKey ∧
        m.sealedLabel = now.sealedLabel ∧ m.addedIndex = now.addedIndex) ∧
      (∀ previous header, header.deviceListIndex ≤ i →
        verifyHeader crypto past previous header = verifyHeader crypto list previous header) ∧
      ∀ checkpoint : Checkpoint, checkpoint.deviceListIndex ≤ i →
        checkpoint.verifyAgainst crypto past = checkpoint.verifyAgainst crypto list := by
  obtain ⟨past, hpast, same⟩ := verifyDeviceList_past h hle
  have hhead : past.head = i := by
    rw [verifyDeviceList_head hpast, List.length_take]
    omega
  have hlist : i ≤ list.head := by rwa [verifyDeviceList_head h]
  have htold := same.members i (Nat.le_refl i)
  refine ⟨past, hpast, fun d => ?_, fun m now hm hnow => ?_,
    fun previous header hj => same.verifyHeader_eq hpos hhead.ge hlist previous hj,
    fun checkpoint hj => same.verifyAgainst_eq hpos hhead.ge hlist hj⟩
  · have hfound : (past.memberAt d i).isSome = (list.memberAt d i).isSome := by
      have := congrArg Option.isSome (htold d)
      simpa using this
    rw [← Option.isSome_iff_exists, ← hfound, Option.isSome_iff_exists, ← hhead, memberAt_head hpast]
    simp only [List.mem_map, Option.filter_eq_some_iff, decide_eq_true_eq, mem_current]
    constructor
    · rintro ⟨m, hm, hpresent⟩
      exact ⟨m, ⟨⟨d, hm⟩, hpresent⟩, (verifyDeviceList_wf hpast).keyed d m hm⟩
    · rintro ⟨m, ⟨⟨d', hm⟩, hpresent⟩, rfl⟩
      exact ⟨m, by rw [(verifyDeviceList_wf hpast).keyed d' m hm]; exact hm, hpresent⟩
  · have hnow' := (mem_current_iff hpast).mp hnow
    have hidentity := htold now.deviceID
    rw [← hhead, hnow', hhead, hm] at hidentity
    simp only [Option.map_some, Option.some.injEq, DeviceListMember.identity, Prod.mk.injEq]
      at hidentity
    obtain ⟨_, hsigning, hpackage, hlabel, hadded⟩ := hidentity
    exact ⟨hsigning.symm, hpackage.symm, hlabel.symm, hadded.symm⟩

end

end Sesame.Syncproto

namespace Sesame.Syncsvc.Demo
open Syncproto

/-- The chain of `paired`: device 1 creates the list and adds device 2. -/
def chain : List DeviceListEntry := [createEntry vaultID 1, addEntry]

theorem chain_verifies : (verifyDeviceList toyCrypto chain).toOption.isSome = true := by
  decide +kernel

/-- The list before device 2 was added, read off the list after it. -/
theorem member_at_replays_chain : ∃ list past, verifyDeviceList toyCrypto chain = .ok list ∧
      verifyDeviceList toyCrypto [createEntry vaultID 1] = .ok past ∧
      ∀ d, (∃ m, list.memberAt d 1 = some m) ↔ d ∈ past.current.map (·.deviceID) := by
  have hverifies := chain_verifies
  cases hlist : verifyDeviceList toyCrypto chain with
  | error e =>
    rw [hlist] at hverifies
    cases hverifies
  | ok list =>
    obtain ⟨past, hpast, hmembers, _⟩ := member_at_replays hlist (Nat.le_refl 1) (by decide)
    exact ⟨list, past, rfl, hpast, hmembers⟩

end Sesame.Syncsvc.Demo
