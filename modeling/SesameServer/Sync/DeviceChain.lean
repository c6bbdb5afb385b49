import SesameServer.Sync.DeviceList

/- Chains of device list entries.

   1. `WF` — the list's own invariant: as many epochs as digests, every member
      under its own id, and no index beyond the head. Every accepted entry keeps
      it (`Grows.wf`), so a verified chain has it (`verifyDeviceList_wf`).
   2. `Grows.member_stable` — an accepted entry never takes away what a member
      was: its signing key and added index stay, and so does its membership at
      every index up to the old head.
   3. `verifyDeviceList_snoc` — a verified chain grows entry by entry, and entry
      `i` of it has index `i + 1` (`verifyDeviceList_index`).
   4. `loadPages_eq` — reading a stored chain page by page verifies exactly the
      chain, so a chain that verified once loads again. -/
namespace Sesame.Syncproto
open Outcome

namespace DeviceList

variable {crypto : Crypto} {entry : DeviceListEntry} {list list' : DeviceList}

/-! Reading an extended list. -/

@[simp] theorem head_append (epoch : Nat) :
    (append crypto list entry epoch).head = list.head + 1 := by
  simp [append, head]

@[simp] theorem epoch_append (epoch : Nat) : (append crypto list entry epoch).epoch = epoch := by
  simp [append, DeviceList.epoch]

@[simp] theorem vaultID_append (epoch : Nat) :
    (append crypto list entry epoch).vaultID = list.vaultID := rfl

@[simp] theorem member_append (epoch : Nat) (d : Bytes) :
    (append crypto list entry epoch).member d = list.member d := rfl

@[simp] theorem head_setMember (m : DeviceListMember) (d : Bytes) :
    (list.setMember m d).head = list.head := rfl

@[simp] theorem vaultID_setMember (m : DeviceListMember) (d : Bytes) :
    (list.setMember m d).vaultID = list.vaultID := rfl

theorem member_setMember (m : DeviceListMember) (d d' : Bytes) :
    (list.setMember m d).member d' = if d' = d then some m else list.member d' :=
  Table.lookup_insert_eq list.members d d' m

variable {m : DeviceListMember}

theorem mem_current : m ∈ list.current ↔ (∃ d, list.member d = some m) ∧ m.removedIndex = 0 := by
  simp [current, Table.mem_values, member]

/-! The list's invariant. -/

structure WF (list : DeviceList) : Prop where
  epochs : list.epochs.length = list.digests.length
  keyed : ∀ d m, list.member d = some m → m.deviceID = d
  added : ∀ d m, list.member d = some m → 0 < m.addedIndex ∧ m.addedIndex ≤ list.head
  removed : ∀ d m, list.member d = some m → m.removedIndex ≤ list.head

theorem newDeviceList_wf : WF newDeviceList := by
  have none : ∀ d, newDeviceList.member d = none := fun d => rfl
  refine ⟨rfl, ?_, ?_, ?_⟩ <;> intro d m h <;> rw [none] at h <;> cases h

theorem WF.no_members (h : WF list) (h0 : list.head = 0) (d : Bytes) : list.member d = none := by
  cases hm : list.member d with
  | none => rfl
  | some m => have := h.added d m hm; omega

theorem WF.nodup_ids (h : WF list) : (list.members.values.map (·.deviceID)).Nodup := by
  have hkeys : list.members.values.map (·.deviceID) = list.members.keys := by
    simp only [Table.values, AList.keys, List.keys, List.map_map]
    refine List.map_congr_left fun e he => ?_
    exact h.keyed e.1 e.2 (AList.mem_lookup_iff.mpr he)
  rw [hkeys]
  exact list.members.keys_nodup

theorem WF.append (h : WF list) (epoch : Nat) : WF (append crypto list entry epoch) := by
  refine ⟨by simp [DeviceList.append, h.epochs], h.keyed, fun d m hm => ?_, fun d m hm => ?_⟩
  · have := h.added d m hm
    rw [head_append]; omega
  · have := h.removed d m hm
    rw [head_append]; omega

/-- Recording one member under its own id and appending the entry keeps a list
    well formed. -/
theorem WF.setMember (h : WF list) {d : Bytes} (epoch : Nat) (hid : m.deviceID = d)
    (hadd : 0 < m.addedIndex ∧ m.addedIndex ≤ list.head + 1) (hrem : m.removedIndex ≤ list.head + 1) :
    WF (DeviceList.append crypto (list.setMember m d) entry epoch) := by
  have hcases : ∀ d' m', (list.setMember m d).member d' = some m' →
      (d' = d ∧ m = m') ∨ list.member d' = some m' := by
    intro d' m' hm
    rw [member_setMember] at hm
    split at hm
    · next e => exact Or.inl ⟨e, Option.some.inj hm⟩
    · exact Or.inr hm
  refine ⟨by simp [DeviceList.append, DeviceList.setMember, h.epochs], ?_, ?_, ?_⟩
  · intro d' m' hm
    rcases hcases d' m' hm with ⟨rfl, rfl⟩ | hm
    · exact hid
    · exact h.keyed d' m' hm
  · intro d' m' hm
    rw [head_append, head_setMember]
    rcases hcases d' m' hm with ⟨rfl, rfl⟩ | hm
    · exact hadd
    · have := h.added d' m' hm
      omega
  · intro d' m' hm
    rw [head_append, head_setMember]
    rcases hcases d' m' hm with ⟨rfl, rfl⟩ | hm
    · exact hrem
    · have := h.removed d' m' hm
      omega

section
variable (g : Grows crypto entry list list')
include g

theorem Grows.wf (hi : entry.index = list.head + 1) (h : WF list) : WF list' := by
  cases g with
  | create =>
    have h' : WF { list with vaultID := entry.vaultID } := ⟨h.epochs, h.keyed, h.added, h.removed⟩
    exact h'.setMember 1 rfl ⟨by simp [memberFromEntry, hi], by simp [memberFromEntry, hi, head]⟩
      (by simp [memberFromEntry])
  | add =>
    exact h.setMember _ rfl ⟨by simp [memberFromEntry, hi], by simp [memberFromEntry, hi]⟩
      (by simp [memberFromEntry])
  | remove _ _ _ _ _ _ subject isSubject =>
    have hid := h.keyed _ _ isSubject
    obtain ⟨hpos, hle⟩ := h.added _ _ isSubject
    exact h.setMember _ hid ⟨hpos, Nat.le_succ_of_le hle⟩ (Nat.le_of_eq hi)
  | key signer isSigner =>
    obtain ⟨hpos, hle⟩ := h.added _ _ isSigner
    have hrem := h.removed _ _ isSigner
    exact h.setMember _ rfl ⟨hpos, Nat.le_succ_of_le hle⟩ (Nat.le_succ_of_le hrem)
  | rotate => exact h.append _

theorem Grows.head : list'.head = list.head + 1 := by
  cases g <;> simp [DeviceList.setMember, DeviceList.append, DeviceList.head]

theorem Grows.epoch : list'.epoch = entry.epochAfter := by
  cases g <;> simp_all

theorem Grows.digests : list'.digests = list.digests ++ [entry.digest crypto] := by
  cases g <;> rfl

theorem Grows.epochs : ∃ e, list'.epochs = list.epochs ++ [e] := by
  cases g <;> exact ⟨_, rfl⟩

theorem Grows.vaultID : list'.vaultID = entry.vaultID := by
  cases g <;> simp_all

/-- What an accepted entry does to a member: nothing, its removal, or a new package key of its
    own. -/
theorem Grows.member_cases (hi : entry.index = list.head + 1) (h : WF list) {d : Bytes}
    (hm : list.member d = some m) : ∃ m', list'.member d = some m' ∧
      (m' = m ∧ (entry.kind = EntryKind.key.text → d ≠ entry.signerDeviceID) ∨
        m.removedIndex = 0 ∧
          (entry.kind = EntryKind.remove.text ∧ m' = { m with removedIndex := entry.index } ∨
            entry.kind = EntryKind.key.text ∧ d = entry.signerDeviceID ∧ m' = { m with
              replaced := m.replaced ++ [⟨entry.index, m.packageKey⟩]
              packageKey := entry.subjectPackageKey })) := by
  have other : ∀ (x : DeviceListMember) (k : Bytes), d ≠ k →
      (list.setMember x k).member d = some m := by
    intro x k hk
    rw [member_setMember, if_neg hk, hm]
  have noKey : ∀ {kind : EntryKind}, entry.kind = kind.text → kind ≠ .key →
      entry.kind = EntryKind.key.text → d ≠ entry.signerDeviceID :=
    fun hkind hne hkey => absurd (hkind.symm.trans hkey) (EntryKind.text_ne hne)
  cases g with
  | create first =>
    rw [h.no_members (by omega) d] at hm
    cases hm
  | add _ _ _ _ _ kind fresh =>
    have hne : d ≠ entry.subjectDeviceID := by
      rintro rfl
      rw [fresh] at hm
      cases hm
    exact ⟨m, other _ _ hne, .inl ⟨rfl, noKey kind (by decide)⟩⟩
  | remove _ _ _ _ _ kind subject isSubject present =>
    by_cases hd : d = entry.subjectDeviceID
    · obtain rfl : subject = m := Option.some.inj (isSubject.symm.trans (hd ▸ hm))
      exact ⟨_, by rw [member_append, member_setMember, if_pos hd], .inr ⟨present, .inl ⟨kind, rfl⟩⟩⟩
    · exact ⟨m, other _ _ hd, .inl ⟨rfl, noKey kind (by decide)⟩⟩
  | key signer isSigner present _ _ kind =>
    have hid := h.keyed _ _ isSigner
    by_cases hd : d = signer.deviceID
    · obtain rfl : signer = m := Option.some.inj (isSigner.symm.trans (hid ▸ hd ▸ hm))
      exact ⟨_, by rw [member_append, member_setMember, if_pos hd],
        .inr ⟨present, .inr ⟨kind, hd.trans hid, rfl⟩⟩⟩
    · exact ⟨m, other _ _ hd, .inl ⟨rfl, fun _ => hid ▸ hd⟩⟩
  | rotate _ _ _ _ _ kind => exact ⟨m, hm, .inl ⟨rfl, noKey kind (by decide)⟩⟩

section
variable (hi : entry.index = list.head + 1) (h : WF list) {d : Bytes} {m : DeviceListMember}
  (hm : list.member d = some m)
include hi h hm

/-- What a member was, it stays: the signing key and the added index never
    change, and neither does membership at an index the list already had. -/
theorem Grows.member_stable : ∃ m', list'.member d = some m' ∧ m'.signingKey = m.signingKey ∧
      m'.addedIndex = m.addedIndex ∧
      ∀ i ≤ list.head, m.memberAt i = true → m'.memberAt i = true := by
  obtain ⟨m', hm', ⟨rfl, -⟩ | ⟨-, ⟨-, rfl⟩ | ⟨-, -, rfl⟩⟩⟩ := g.member_cases hi h hm
  · exact ⟨m', hm', rfl, rfl, fun _ _ x => x⟩
  · refine ⟨_, hm', rfl, rfl, fun i hle hat => ?_⟩
    -- the removal's index is past every index the list had
    simp only [DeviceListMember.memberAt, Bool.and_eq_true, Bool.or_eq_true, beq_iff_eq,
      decide_eq_true_eq] at hat ⊢
    exact ⟨hat.1, .inr (by omega)⟩
  · exact ⟨_, hm', rfl, rfl, fun _ _ x => x⟩

theorem Grows.removed_kept (hremoved : m.removedIndex ≠ 0) : list'.member d = some m := by
  obtain ⟨m', hm', ⟨rfl, -⟩ | ⟨hpresent, -⟩⟩ := g.member_cases hi h hm
  · exact hm'
  · exact absurd hpresent hremoved

end

end

/-! Chains. -/

theorem extendAll_append (es fs : List DeviceListEntry) :
    extendAll crypto (es ++ fs) = (do extendAll crypto es; extendAll crypto fs) := by
  induction es with
  | nil => rfl
  | cons e es ih =>
    funext s
    simp only [List.cons_append, extendAll, ih]
    show EStateM.bind _ _ s = EStateM.bind (EStateM.bind _ _) _ s
    unfold EStateM.bind
    cases extend crypto e s <;> rfl

end DeviceList

section
variable {crypto : Crypto} {entry : DeviceListEntry} {entries : List DeviceListEntry}
  {list list' : DeviceList}
open DeviceList

theorem verifyDeviceList_ok : verifyDeviceList crypto entries = .ok list ↔
    extendAll crypto entries newDeviceList = .ok () list := by
  unfold verifyDeviceList
  cases extendAll crypto entries newDeviceList <;> simp

theorem verifyDeviceList_snoc : verifyDeviceList crypto (entries ++ [entry]) = .ok list' ↔
    ∃ list, verifyDeviceList crypto entries = .ok list ∧ extend crypto entry list = .ok () list' := by
  simp only [verifyDeviceList_ok, extendAll_append, bind_ok, extendAll, pure_ok]
  constructor
  · rintro ⟨_, l, h₁, _, l', h₂, _, rfl⟩
    exact ⟨l, h₁, h₂⟩
  · rintro ⟨l, h₁, h₂⟩
    exact ⟨(), l, h₁, (), list', h₂, trivial, rfl⟩

/-- Facts about verified chains are proved from the last entry back. -/
theorem verifyDeviceList_induction {P : List DeviceListEntry → DeviceList → Prop}
    (nil : P [] newDeviceList)
    (snoc : ∀ entries entry list list', verifyDeviceList crypto entries = .ok list →
      entry.validate = .ok () → entry.index = list.head + 1 → Grows crypto entry list list' →
      P entries list → P (entries ++ [entry]) list')
    (h : verifyDeviceList crypto entries = .ok list) : P entries list := by
  induction entries using List.reverseRecOn generalizing list with
  | nil =>
    simp only [verifyDeviceList, extendAll] at h
    obtain rfl := Except.ok.inj h
    exact nil
  | append_singleton entries entry ih =>
    obtain ⟨l, h₁, h₂⟩ := verifyDeviceList_snoc.mp h
    obtain ⟨hv, hi, hg⟩ := extend_grows h₂
    exact snoc entries entry l list h₁ hv hi hg (ih h₁)

section
variable (h : verifyDeviceList crypto entries = .ok list)
include h

theorem verifyDeviceList_wf : WF list :=
  verifyDeviceList_induction (P := fun _ list => WF list) newDeviceList_wf
    (fun _ _ _ _ _ _ hi hg ih => hg.wf hi ih) h

theorem verifyDeviceList_head : list.head = entries.length :=
  verifyDeviceList_induction (P := fun entries list => list.head = entries.length) rfl
    (fun _ _ _ _ _ _ _ hg ih => by rw [hg.head, ih]; simp) h

theorem verifyDeviceList_digests : list.digests = entries.map (·.digest crypto) :=
  verifyDeviceList_induction (P := fun entries list => list.digests = entries.map (·.digest crypto))
    rfl (fun _ _ _ _ _ _ _ hg ih => by rw [hg.digests, ih]; simp) h

/-- Entry `i` of a verified chain, counted from 0, has index `i + 1`. -/
theorem verifyDeviceList_index :
    entries.map (·.index) = (List.range entries.length).map (· + 1) := by
  refine verifyDeviceList_induction (P := fun entries _ =>
    entries.map (·.index) = (List.range entries.length).map (· + 1)) rfl ?_ h
  intro entries entry list _ hl _ hi _ ih
  rw [verifyDeviceList_head hl] at hi
  simp [List.range_succ, ih, hi]

end

end

/-! Reading a stored chain page by page. -/

/-- `tx.DeviceListEntries`: at most `limit` entries with an index above `after`. -/
def pageAfter (entries : List DeviceListEntry) (after limit : Nat) : List DeviceListEntry :=
  (entries.filter (fun entry => after < entry.index)).take limit

/-- The loop of `loadList`. Each full page takes `limit` entries off what is
    left, so `entries.length + 1` rounds always suffice (`loadPages_eq`). -/
def loadPages (crypto : Crypto) (entries : List DeviceListEntry) (limit : Nat) :
    Nat → Nat → DeviceList → Except Err DeviceList
  | 0, _, _ => .error (.plain "out of rounds")
  | rounds + 1, after, list =>
    let page := pageAfter entries after limit
    match DeviceList.extendAll crypto page list with
    | .error e _ => .error (.context "stored device list does not verify" e)
    | .ok _ list' =>
      if page.length < limit then .ok list'
      else loadPages crypto entries limit rounds ((page.getLast?.map (·.index)).getD after) list'

variable {entries : List DeviceListEntry}

/-- In a chain with consecutive indices, the entries above `after` are a suffix. -/
theorem pageAfter_eq_drop (limit : Nat)
    (hidx : entries.map (·.index) = (List.range entries.length).map (· + 1)) (k : Nat) :
    pageAfter entries k limit = (entries.drop k).take limit := by
  unfold pageAfter
  congr 1
  induction entries using List.reverseRecOn with
  | nil => simp
  | append_singleton es e ih =>
    simp only [List.map_append, List.map_cons, List.map_nil, List.length_append, List.length_cons,
      List.length_nil, List.range_succ, Nat.zero_add] at hidx
    obtain ⟨hes, he⟩ := List.append_inj hidx (by simp)
    simp only [List.cons.injEq, and_true] at he
    rw [List.filter_append, ih hes, List.drop_append]
    congr 1
    by_cases hk : k < e.index
    · rw [List.filter_cons_of_pos (by simpa using hk), show k - es.length = 0 by omega]
      simp
    · rw [List.filter_cons_of_neg (by simpa using hk), List.drop_eq_nil_of_le (by simp; omega)]
      simp

theorem getLast_index_take {limit k : Nat} (hlimit : 0 < limit)
    (hidx : entries.map (·.index) = (List.range entries.length).map (· + 1))
    (hfull : ((entries.drop k).take limit).length = limit) :
    (((entries.drop k).take limit).getLast?.map (·.index)).getD k = k + limit := by
  simp only [List.length_take, List.length_drop] at hfull
  have hlt : k + limit - 1 < entries.length := by omega
  have hget : ((entries.drop k).take limit).getLast? = some entries[k + limit - 1] := by
    rw [List.getLast?_eq_getElem?, List.length_take, List.length_drop,
      List.getElem?_take_of_lt (by omega), List.getElem?_drop]
    rw [show k + (min limit (entries.length - k) - 1) = k + limit - 1 by omega]
    exact List.getElem?_eq_getElem hlt
  have hi : (entries.map (·.index))[k + limit - 1]? = some (k + limit) := by
    rw [hidx, List.getElem?_map, List.getElem?_range hlt]
    simp only [Option.map_some, Option.some.injEq]
    omega
  rw [List.getElem?_map, List.getElem?_eq_getElem hlt] at hi
  rw [hget]
  simpa using hi

/-- Loading the pages from `k` on is extending the list by every entry from `k` on. -/
theorem loadPages_eq {crypto : Crypto} {limit : Nat} (hlimit : 0 < limit)
    (hidx : entries.map (·.index) = (List.range entries.length).map (· + 1)) :
    ∀ (rounds k : Nat) (list : DeviceList), entries.length - k < rounds →
    loadPages crypto entries limit rounds k list =
      match DeviceList.extendAll crypto (entries.drop k) list with
      | .ok _ list' => .ok list'
      | .error e _ => .error (.context "stored device list does not verify" e)
  | 0, _, _, hr => absurd hr (by omega)
  | rounds + 1, k, list, hr => by
    have hsplit : entries.drop k =
        (entries.drop k).take limit ++ entries.drop (k + limit) := by
      rw [← List.drop_drop]
      exact (List.take_append_drop limit _).symm
    rw [hsplit, DeviceList.extendAll_append]
    simp only [loadPages, pageAfter_eq_drop limit hidx, bind, EStateM.bind]
    cases DeviceList.extendAll crypto ((entries.drop k).take limit) list with
    | error e mid => rfl
    | ok u mid =>
      dsimp only
      split
      · next hshort =>
        -- a short page is the last one
        have hnil : entries.drop (k + limit) = [] := by
          simp only [List.length_take, List.length_drop] at hshort
          exact List.drop_eq_nil_of_le (by omega)
        rw [hnil]
        rfl
      · next hfull =>
        have hlen : ((entries.drop k).take limit).length = limit := by
          have := List.length_take_le limit (entries.drop k)
          omega
        rw [getLast_index_take hlimit hidx hlen]
        have hk : k + limit ≤ entries.length := by
          simp only [List.length_take, List.length_drop] at hlen
          omega
        exact loadPages_eq hlimit hidx rounds (k + limit) mid (by omega)

end Sesame.Syncproto
