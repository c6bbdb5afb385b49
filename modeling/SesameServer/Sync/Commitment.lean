import SesameServer.Lib.HashChain
import SesameServer.Sync.Domains
import SesameServer.Sync.History
import SesameServer.Sync.Past

/- The newest digest commits to the whole history.

   Entries and headers are two hash chains, and a header also names the entry it was
   made under. Where SHA-256 has no collision on what was hashed:

   1. `entries_linked`, `headers_linked` — what verifies is a chain in the sense of
      `HashChain`.
   2. `entry_digest_injOn`, `header_digest_injOn` — and its digests are those of its
      items only.
   3. `history_committed` — so one digest stands for all of it. -/
namespace Sesame.Syncproto
open Outcome HashChain DeviceList

variable {crypto : Crypto} {entries entries' : List DeviceListEntry} {list list' : DeviceList}
  {headers headers' : List Header}

/-! Verified sequences are chains. -/

theorem headDigest_eq (h : verifyDeviceList crypto entries = .ok list) :
    list.headDigest = (entries.getLast?.map (·.digest crypto)).getD [] := by
  unfold DeviceList.headDigest
  rw [verifyDeviceList_digests h, ← List.getLast?_map, List.getLastD_eq_getLast?]

theorem entries_linked (h : verifyDeviceList crypto entries = .ok list) :
    Linked (·.index) (·.previousDigest) (·.digest crypto) entries := by
  induction entries using List.reverseRecOn generalizing list with
  | nil => exact .nil
  | append_singleton entries entry ih =>
    obtain ⟨before, hbefore, hext⟩ := verifyDeviceList_snoc.mp h
    obtain ⟨_, hindex, _⟩ := extend_grows hext
    rw [verifyDeviceList_head hbefore] at hindex
    refine .snoc (ih hbefore) hindex fun last hlast => ?_
    have hnext : entry.index ≠ 1 := by
      intro hfirst
      have hnil : entries = [] := List.length_eq_zero_iff.mp (by omega)
      rw [hnil] at hlast
      cases hlast
    rw [extend_previous hext hnext, headDigest_eq hbefore, hlast]
    rfl

theorem verifyHeaderChain_snoc {header : Header} : ∀ {headers : List Header}
    {previous : Option Header},
    verifyHeaderChain crypto list previous (headers ++ [header]) = .ok () ↔
      verifyHeaderChain crypto list previous headers = .ok () ∧
        verifyHeader crypto list (headers.getLast?.or previous) header = .ok ()
  | [], previous => by
    simp only [List.nil_append, verifyHeaderChain, except_bind_ok, List.getLast?_nil, Option.none_or,
      true_and]
    exact ⟨fun ⟨_, h, _⟩ => h, fun h => ⟨(), h, trivial⟩⟩
  | first :: rest, previous => by
    have hlast : ((first :: rest).getLast?.or previous) = rest.getLast?.or (some first) := by
      rw [List.getLast?_cons]
      cases rest.getLast? <;> rfl
    simp only [List.cons_append, verifyHeaderChain, except_bind_ok, hlast, verifyHeaderChain_snoc]
    constructor
    · rintro ⟨u, h, hrest, hheader⟩
      exact ⟨⟨u, h, hrest⟩, hheader⟩
    · rintro ⟨⟨u, h, hrest⟩, hheader⟩
      exact ⟨u, h, hrest, hheader⟩

theorem headers_linked (h : verifyHeaderChain crypto list none headers = .ok ())
    (first : ∀ header, headers.head? = some header → header.revision = 1) :
    Linked (·.revision) (·.previousDigest) (·.digest crypto) headers := by
  induction headers using List.reverseRecOn with
  | nil => exact .nil
  | append_singleton headers header ih =>
    obtain ⟨hbefore, hheader⟩ := verifyHeaderChain_snoc.mp h
    have hchain := ih hbefore fun x hx => first x (by simp [List.head?_append, hx])
    obtain ⟨_, _, _, _, _, hprevious, _⟩ := verifyHeader_ok.mp hheader
    cases hlast : headers.getLast? with
    | none =>
      have hnil := List.getLast?_eq_none_iff.mp hlast
      refine .snoc hchain ?_ fun last hl => by rw [hlast] at hl; cases hl
      rw [hnil]
      exact first header (by simp [hnil])
    | some last =>
      rw [hlast] at hprevious
      obtain ⟨hrevision, hdigest, _⟩ := verifyLink_ok.mp hprevious
      have hnumbered : last.revision = headers.length := by
        cases hchain with
        | nil => cases hlast
        | @snoc items item chain numbered linked =>
          obtain rfl : item = last := by simpa using hlast
          rw [numbered]
          simp
      refine .snoc hchain ?_ fun last' hl => ?_
      · rw [(checkedNext_some.mp hrevision).2, hnumbered]
      · rw [hlast] at hl
        rw [← Option.some.inj hl]
        exact hdigest

/-! Digests without collisions. -/

/-- What is hashed for the digests of the entries and of the headers. -/
def Hashed (crypto : Crypto) (entries : List DeviceListEntry) (headers : List Header) : Set Bytes :=
  {b | (∃ e ∈ entries, b = (Payload.entryDigest e).bytes crypto) ∨
    ∃ h ∈ headers, b = (Payload.headerDigest h).bytes crypto}

/-- SHA-256 as far as the histories need it: 32 bytes long, and without a collision
    on what is hashed for them. -/
structure Collisionless (crypto : Crypto) (entries : List DeviceListEntry) (headers : List Header) :
    Prop where
  size : ∀ b, (crypto.sha256 b).length = digestBytes
  injOn : Set.InjOn crypto.sha256 (Hashed crypto entries headers)

theorem entry_digest_injOn (h : Collisionless crypto entries headers)
    (range : ∀ e ∈ entries, (Payload.entryDigest e).InRange) :
    Set.InjOn (fun e : DeviceListEntry => e.digest crypto) {e | e ∈ entries} := by
  intro a ha b hb hdigest
  have hbytes : (Payload.entryDigest a).bytes crypto = (Payload.entryDigest b).bytes crypto :=
    h.injOn (Or.inl ⟨a, ha, rfl⟩) (Or.inl ⟨b, hb, rfl⟩) (Encoding.encode_inj hdigest)
  exact Payload.bytes_inj h.size (range a ha) (range b hb) hbytes

theorem header_digest_injOn (h : Collisionless crypto entries headers)
    (range : ∀ x ∈ headers, (Payload.headerDigest x).InRange)
    (version : ∀ x ∈ headers, x.version = versionV3) :
    Set.InjOn (fun x : Header => x.digest crypto) {x | x ∈ headers} := by
  intro a ha b hb hdigest
  have hbytes : (Payload.headerDigest a).bytes crypto = (Payload.headerDigest b).bytes crypto :=
    h.injOn (Or.inr ⟨a, ha, rfl⟩) (Or.inr ⟨b, hb, rfl⟩) (Encoding.encode_inj hdigest)
  have hagree := Payload.bytes_inj h.size (range a ha) (range b hb) hbytes
  have hversion := (version a ha).trans (version b hb).symm
  obtain ⟨⟩ := a
  obtain ⟨⟩ := b
  simp only [Payload.Agree, Header.mk.injEq] at hagree hversion ⊢
  exact ⟨hversion, hagree.2⟩

theorem Collisionless.mono {es es' : List DeviceListEntry} {hs hs' : List Header}
    (h : Collisionless crypto es hs) (hes : ∀ e ∈ es', e ∈ es) (hhs : ∀ x ∈ hs', x ∈ hs) :
    Collisionless crypto es' hs' := by
  refine ⟨h.size, h.injOn.mono ?_⟩
  rintro b (⟨e, he, rfl⟩ | ⟨x, hx, rfl⟩)
  · exact Or.inl ⟨e, hes e he, rfl⟩
  · exact Or.inr ⟨x, hhs x hx, rfl⟩

theorem digest_ne_nil (hsize : ∀ b, (crypto.sha256 b).length = digestBytes) (e : DeviceListEntry) :
    e.digest crypto ≠ [] := by
  intro h
  have hnil : crypto.sha256 ((Payload.entryDigest e).bytes crypto) = [] := Encoding.encode_inj h
  have hlength := hsize ((Payload.entryDigest e).bytes crypto)
  rw [hnil] at hlength
  cases hlength

/-! What the digests commit to. -/

/-- Chains of entries whose last digests are equal are equal. -/
theorem entries_committed (h : verifyDeviceList crypto entries = .ok list)
    (h' : verifyDeviceList crypto entries' = .ok list')
    (range : ∀ e ∈ entries ++ entries', (Payload.entryDigest e).InRange)
    (sha : Collisionless crypto (entries ++ entries') [])
    (hlast : entries.getLast?.map (·.digest crypto) = entries'.getLast?.map (·.digest crypto)) :
    entries = entries' :=
  (entries_linked h).unique (entries_linked h') (entry_digest_injOn sha range)
    (fun _ hx => List.mem_append_left _ hx) (fun _ hx => List.mem_append_right _ hx) hlast

/-- The digest at an index is the last one of the entries up to it. -/
theorem digestAt_take (h : verifyDeviceList crypto entries = .ok list) {i : Nat} (hpos : i ≠ 0)
    (hle : i ≤ entries.length) :
    list.digestAt i = (entries.take i).getLast?.map (·.digest crypto) := by
  have hget : entries[i - 1]? = some entries[i - 1] := List.getElem?_eq_getElem (by omega)
  unfold DeviceList.digestAt
  rw [if_neg hpos, verifyDeviceList_digests h, List.getElem?_map, List.getLast?_take, if_neg hpos,
    hget]
  rfl

theorem verifyHeaderChain_mem : ∀ {headers : List Header} {previous : Option Header},
    verifyHeaderChain crypto list previous headers = .ok () → ∀ header ∈ headers,
      ∃ previous, verifyHeader crypto list previous header = .ok ()
  | first :: rest, previous, h, header, hmem => by
    simp only [verifyHeaderChain, except_bind_ok] at h
    obtain ⟨_, hfirst, hrest⟩ := h
    rcases List.mem_cons.mp hmem with rfl | hmem
    · exact ⟨previous, hfirst⟩
    · exact verifyHeaderChain_mem hrest header hmem

/-- Lists that a header verifies against have the same entries up to the one it names. -/
theorem named_entries (h : verifyDeviceList crypto entries = .ok list)
    (h' : verifyDeviceList crypto entries' = .ok list')
    (range : ∀ e ∈ entries ++ entries', (Payload.entryDigest e).InRange)
    (sha : Collisionless crypto (entries ++ entries') []) {header : Header}
    {previous previous' : Option Header}
    (hheader : verifyHeader crypto list previous header = .ok ())
    (hheader' : verifyHeader crypto list' previous' header = .ok ()) :
    entries.take header.deviceListIndex = entries'.take header.deviceListIndex := by
  obtain ⟨hvalid, _, hle, hdigest, _⟩ := verifyHeader_ok.mp hheader
  obtain ⟨_, _, hle', hdigest', _⟩ := verifyHeader_ok.mp hheader'
  have hpos := Header.validate_index hvalid
  rw [verifyDeviceList_head h] at hle
  rw [verifyDeviceList_head h'] at hle'
  obtain ⟨past, hpast, _⟩ := verifyDeviceList_past h hle
  obtain ⟨past', hpast', _⟩ := verifyDeviceList_past h' hle'
  have hmem : ∀ e ∈ entries.take header.deviceListIndex ++ entries'.take header.deviceListIndex,
      e ∈ entries ++ entries' := by
    intro e he
    rcases List.mem_append.mp he with he | he
    · exact List.mem_append_left _ (List.mem_of_mem_take he)
    · exact List.mem_append_right _ (List.mem_of_mem_take he)
  refine entries_committed hpast hpast' (fun e he => range e (hmem e he))
    (sha.mono hmem fun _ hx => hx) ?_
  -- both lists have a digest at the index, and it is the one the header names
  rw [digestAt_take h hpos hle] at hdigest
  rw [digestAt_take h' hpos hle'] at hdigest'
  have hsome : ∀ es : List DeviceListEntry, header.deviceListIndex ≤ es.length →
      ∃ e, (es.take header.deviceListIndex).getLast? = some e := by
    intro es hes
    refine Option.ne_none_iff_exists'.mp fun hnone => ?_
    rcases List.take_eq_nil_iff.mp (List.getLast?_eq_none_iff.mp hnone) with h0 | rfl
    · exact hpos h0
    · exact hpos (Nat.le_zero.mp hes)
  obtain ⟨e, he⟩ := hsome entries hle
  obtain ⟨e', he'⟩ := hsome entries' hle'
  rw [he] at hdigest
  rw [he'] at hdigest'
  rw [he, he']
  exact congrArg some (hdigest.trans hdigest'.symm)

/-- **The newest digest commits to the whole history**, as far as SHA-256 has no
    collision on what was hashed. Chains of entries that verify to lists with the same
    head digest are identical. Chains of headers that verify from revision 1 on,
    against whatever verified lists, and end in headers with the same digest are
    identical, and the lists have the same entries up to every entry they name. -/
theorem history_committed :
    (∀ entries entries' list list', verifyDeviceList crypto entries = .ok list →
      verifyDeviceList crypto entries' = .ok list' →
      (∀ e ∈ entries ++ entries', (Payload.entryDigest e).InRange) →
      Collisionless crypto (entries ++ entries') [] →
      list.headDigest = list'.headDigest → entries = entries') ∧
    ∀ entries entries' list list' headers headers', verifyDeviceList crypto entries = .ok list →
      verifyDeviceList crypto entries' = .ok list' →
      verifyHeaderChain crypto list none headers = .ok () →
      verifyHeaderChain crypto list' none headers' = .ok () →
      headers.head?.map (·.revision) = some 1 → headers'.head?.map (·.revision) = some 1 →
      (∀ e ∈ entries ++ entries', (Payload.entryDigest e).InRange) →
      (∀ x ∈ headers ++ headers', (Payload.headerDigest x).InRange) →
      Collisionless crypto (entries ++ entries') (headers ++ headers') →
      headers.getLast?.map (·.digest crypto) = headers'.getLast?.map (·.digest crypto) →
      headers = headers' ∧ ∀ header ∈ headers,
        entries.take header.deviceListIndex = entries'.take header.deviceListIndex := by
  constructor
  · intro entries entries' list list' h h' range sha hhead
    refine entries_committed h h' range sha ?_
    rw [headDigest_eq h, headDigest_eq h'] at hhead
    cases hl : entries.getLast? with
    | none =>
      cases hl' : entries'.getLast? with
      | none => rfl
      | some e' =>
        rw [hl, hl'] at hhead
        exact absurd hhead.symm (digest_ne_nil sha.size e')
    | some e =>
      cases hl' : entries'.getLast? with
      | none =>
        rw [hl, hl'] at hhead
        exact absurd hhead (digest_ne_nil sha.size e)
      | some e' =>
        rw [hl, hl'] at hhead
        exact congrArg some hhead
  · intro entries entries' list list' headers headers' h h' hchain hchain' hfirst hfirst' range
      headerRange sha hlast
    have hone : ∀ {hs : List Header}, hs.head?.map (·.revision) = some 1 →
        ∀ x, hs.head? = some x → x.revision = 1 := by
      intro hs hhs x hx
      rw [hx] at hhs
      exact Option.some.inj hhs
    have hversion : ∀ x ∈ headers ++ headers', x.version = versionV3 := by
      intro x hx
      rcases List.mem_append.mp hx with hx | hx
      · obtain ⟨_, hverify⟩ := verifyHeaderChain_mem hchain x hx
        exact Header.validate_version (verifyHeader_ok.mp hverify).1
      · obtain ⟨_, hverify⟩ := verifyHeaderChain_mem hchain' x hx
        exact Header.validate_version (verifyHeader_ok.mp hverify).1
    have heq : headers = headers' :=
      (headers_linked hchain (hone hfirst)).unique (headers_linked hchain' (hone hfirst'))
        (header_digest_injOn sha headerRange hversion) (fun _ hx => List.mem_append_left _ hx)
        (fun _ hx => List.mem_append_right _ hx) hlast
    refine ⟨heq, fun header hmem => ?_⟩
    obtain ⟨_, hheader⟩ := verifyHeaderChain_mem hchain header hmem
    obtain ⟨_, hheader'⟩ := verifyHeaderChain_mem hchain' header (heq ▸ hmem)
    exact named_entries h h' range (sha.mono (fun _ he => he) fun _ hx => by cases hx) hheader
      hheader'

end Sesame.Syncproto

namespace Sesame.Syncsvc.Demo
open Syncproto

/-- The entries and headers of two short histories and their continuations. -/
def shortEntries : List DeviceListEntry := [createEntry vaultID 1] ++ chain

def shortHeaders : List Header := [header₁] ++ [header₁, header₂]

theorem short_entries_inRange : ∀ e ∈ shortEntries, (Payload.entryDigest e).InRange := by
  have h : ∀ e ∈ shortEntries, (∀ t ∈ (Payload.entryDigest e).texts, t.length < 2 ^ 63) ∧
      ∀ n ∈ (Payload.entryDigest e).numbers, n < 2 ^ 64 := by decide +kernel
  exact fun e he => ⟨(h e he).1, (h e he).2⟩

theorem short_headers_inRange : ∀ x ∈ shortHeaders, (Payload.headerDigest x).InRange := by
  have h : ∀ x ∈ shortHeaders, (∀ t ∈ (Payload.headerDigest x).texts, t.length < 2 ^ 63) ∧
      ∀ n ∈ (Payload.headerDigest x).numbers, n < 2 ^ 64 := by decide +kernel
  exact fun x hx => ⟨(h x hx).1, (h x hx).2⟩

theorem short_collisionless : Collisionless toyCrypto shortEntries shortHeaders := by
  have hbytes : ∀ a ∈ shortEntries.map Payload.entryDigest ++ shortHeaders.map Payload.headerDigest,
      ∀ b ∈ shortEntries.map Payload.entryDigest ++ shortHeaders.map Payload.headerDigest,
      toyHash (a.bytes toyCrypto) = toyHash (b.bytes toyCrypto) →
        a.bytes toyCrypto = b.bytes toyCrypto := by
    decide +kernel
  have hpayload : ∀ b ∈ Hashed toyCrypto shortEntries shortHeaders,
      ∃ a ∈ shortEntries.map Payload.entryDigest ++ shortHeaders.map Payload.headerDigest,
        b = a.bytes toyCrypto := by
    rintro b (⟨e, he, rfl⟩ | ⟨x, hx, rfl⟩)
    · exact ⟨_, List.mem_append_left _ (List.mem_map_of_mem he), rfl⟩
    · exact ⟨_, List.mem_append_right _ (List.mem_map_of_mem hx), rfl⟩
  refine ⟨toyHash_length, fun b hb c hc h => ?_⟩
  obtain ⟨p, hp, rfl⟩ := hpayload b hb
  obtain ⟨q, hq, rfl⟩ := hpayload c hc
  exact hbytes p hp q hq h

/-- The head digest tells the list of device 1 alone from the list with device 2, and
    the digest of its first header from that of its second. -/
theorem history_committed_chain :
    ∃ list list', verifyDeviceList toyCrypto [createEntry vaultID 1] = .ok list ∧
      verifyDeviceList toyCrypto chain = .ok list' ∧ list.headDigest ≠ list'.headDigest ∧
      verifyHeaderChain toyCrypto list' none [header₁, header₂] = .ok () ∧
      header₁.digest toyCrypto ≠ header₂.digest toyCrypto := by
  have hcheck : (do
      let list ← verifyDeviceList toyCrypto [createEntry vaultID 1]
      let list' ← verifyDeviceList toyCrypto chain
      verifyHeaderChain toyCrypto list none [header₁]
      verifyHeaderChain toyCrypto list' none [header₁, header₂]) = .ok () := by
    decide +kernel
  simp only [Outcome.except_bind_ok] at hcheck
  obtain ⟨list, hlist, list', hlist', _, hfirst, hboth⟩ := hcheck
  refine ⟨list, list', hlist, hlist', fun hdigest => ?_, hboth, fun hdigest => ?_⟩
  · have := history_committed.1 _ _ _ _ hlist hlist' short_entries_inRange
      (short_collisionless.mono (fun _ he => he) fun _ hx => by cases hx) hdigest
    cases this
  · have := (history_committed.2 _ _ _ _ _ _ hlist hlist' hfirst hboth rfl rfl
      short_entries_inRange short_headers_inRange short_collisionless
      (congrArg some hdigest)).1
    cases this

end Sesame.Syncsvc.Demo
