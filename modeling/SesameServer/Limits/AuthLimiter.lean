import SesameServer.Lib.Encoding
import SesameServer.Lib.Table

/- The limiter of the sign-in routes (`internal/httpapi/request_security.go`): the times of the
   attempts that were allowed, for each key, and a list of the keys with the last used one in front.
   A new key takes the place of the last one in the list when 4096 are known.

   1. `Sound` — the map and the list have the same keys.
   2. `Run` — calls at times that never run back, and what each of them answered.
   3. `Remembers` — what the limiter knows of the calls of a key: nothing that was not allowed, and
      everything that was allowed within the window, unless the key was evicted.
   4. `allow_bounded`. -/
namespace Sesame.Limits

/-- An element of `container/list`. The `id` stands for the pointer to it. -/
structure Element where
  id : Nat
  value : Bytes
  deriving DecidableEq

structure LimitEntry where
  attempts : List Int
  element : Nat
  deriving DecidableEq

structure AuthLimiter where
  attempts : Table Bytes LimitEntry
  recency : List Element
  created : Nat

namespace AuthLimiter

def capacity : Nat := 4096

def empty : AuthLimiter := ⟨∅, [], 0⟩

/-- `MoveToFront`: an element of another list stays where it is. -/
def moveToFront (recency : List Element) (element : Nat) : List Element :=
  recency.filter (·.id == element) ++ recency.filter (!·.id == element)

/-- The element that a call for `key` evicts. -/
def oldest (l : AuthLimiter) (key : Bytes) : Option Element :=
  if l.attempts.lookup key = none ∧ l.attempts.keys.length ≥ capacity then l.recency.getLast? else none

def makeRoom (l : AuthLimiter) (key : Bytes) : AuthLimiter :=
  match l.oldest key with
  | none => l
  | some oldest =>
    { l with attempts := l.attempts.erase oldest.value, recency := l.recency.dropLast }

/-- The entry of a key, which is then the last used one. -/
def touch (l : AuthLimiter) (key : Bytes) : LimitEntry × AuthLimiter :=
  match l.attempts.lookup key with
  | some entry => (entry, { l with recency := moveToFront l.recency entry.element })
  | none =>
    let l := l.makeRoom key
    let entry : LimitEntry := ⟨[], l.created⟩
    (entry, ⟨l.attempts.insert key entry, ⟨l.created, key⟩ :: l.recency, l.created + 1⟩)

/-- `allow`, at the time `now`. The slice is filtered in place, each time behind the one it is read
    from. -/
def allow (l : AuthLimiter) (now : Int) (key : Bytes) (limit window : Int) : Bool × AuthLimiter :=
  let cutoff := now - window
  let (entry, l) := l.touch key
  let kept := entry.attempts.filter (cutoff < ·)
  if limit ≤ kept.length then
    (false, { l with attempts := l.attempts.insert key { entry with attempts := kept } })
  else (true, { l with attempts := l.attempts.insert key { entry with attempts := kept ++ [now] } })

/-! The keys. -/

/-- The map and the list have the same keys, and there is room for them. -/
structure Sound (l : AuthLimiter) : Prop where
  same : (l.recency.map (·.value)).Perm l.attempts.keys
  bounded : l.attempts.keys.length ≤ capacity

variable {l : AuthLimiter} {key other : Bytes} {now limit window : Int}

theorem not_mem_keys (h : l.attempts.lookup key = none) : key ∉ l.attempts.keys := by
  intro hmem
  rw [← AList.mem_keys, ← AList.lookup_isSome, h] at hmem
  cases hmem

/-- When the map is full, the last element of the list goes, and its key with it. -/
theorem Sound.makeRoom (h : l.Sound) (hnew : l.attempts.lookup key = none) :
    ((l.makeRoom key).recency.map (·.value)).Perm (l.makeRoom key).attempts.keys ∧
      (l.makeRoom key).attempts.keys.length < capacity ∧ key ∉ (l.makeRoom key).attempts.keys := by
  have hkey := not_mem_keys hnew
  unfold AuthLimiter.makeRoom oldest
  by_cases hfull : l.attempts.keys.length ≥ capacity
  · rw [if_pos ⟨hnew, hfull⟩]
    have hlength := h.same.length_eq
    rcases List.eq_nil_or_concat' l.recency with hempty | ⟨front, last, hrecency⟩
    · rw [hempty, List.map_nil, List.length_nil] at hlength
      rw [← hlength] at hfull
      exact absurd hfull (by decide)
    · have hsame : (last.value :: front.map (·.value)).Perm l.attempts.keys := by
        refine .trans ?_ h.same
        rw [hrecency, List.map_append]
        exact (List.perm_append_singleton _ _).symm
      rw [hrecency, List.getLast?_concat]
      dsimp only
      have hkeys := hsame.trans (Table.keys_erase_perm (hsame.mem_iff.mp List.mem_cons_self)).symm
      rw [List.dropLast_concat]
      refine ⟨hkeys.cons_inv, ?_, fun hmem => hkey (Table.mem_keys_erase hmem)⟩
      have hbounded := h.bounded
      rw [← hkeys.cons_inv.length_eq]
      rw [← hsame.length_eq] at hbounded
      exact hbounded
  · rw [if_neg fun h => hfull h.2]
    exact ⟨h.same, not_le.mp hfull, hkey⟩

theorem Sound.touch (h : l.Sound) (key : Bytes) :
    (l.touch key).2.Sound ∧ key ∈ (l.touch key).2.attempts.keys := by
  unfold AuthLimiter.touch
  cases hkey : l.attempts.lookup key with
  | some entry =>
    refine ⟨⟨.trans ?_ h.same, h.bounded⟩, ?_⟩
    · exact (List.filter_append_perm (·.id == entry.element) l.recency).map _
    · rw [← AList.mem_keys, ← AList.lookup_isSome, hkey]
      rfl
  | none =>
    obtain ⟨hsame, hroom, hnew⟩ := h.makeRoom hkey
    refine ⟨⟨?_, ?_⟩, ?_⟩ <;> dsimp only <;> rw [Table.keys_insert_new hnew]
    · exact hsame.cons key
    · exact hroom
    · exact List.mem_cons_self

theorem Sound.allow (h : l.Sound) : (l.allow now key limit window).2.Sound := by
  obtain ⟨hsound, hkey⟩ := h.touch key
  have hinsert : ∀ entry, ({ (l.touch key).2 with
      attempts := (l.touch key).2.attempts.insert key entry } : AuthLimiter).Sound := by
    intro entry
    have hkeys := Table.keys_insert_perm hkey entry
    exact ⟨hsound.same.trans hkeys.symm, hkeys.length_eq ▸ hsound.bounded⟩
  unfold AuthLimiter.allow
  dsimp only
  split
  · exact hinsert _
  · exact hinsert _

/-! The times. -/

def stored (l : AuthLimiter) (key : Bytes) : List Int :=
  ((l.attempts.lookup key).map (·.attempts)).getD []

def evicts (l : AuthLimiter) (key : Bytes) : Option Bytes := (l.oldest key).map (·.value)

theorem touch_attempts : (l.touch key).1.attempts = l.stored key := by
  unfold touch stored
  cases l.attempts.lookup key <;> rfl

theorem touch_other (h : other ≠ key) : (l.touch key).2.stored other =
    if l.evicts key = some other then [] else l.stored other := by
  unfold touch evicts
  cases hkey : l.attempts.lookup key with
  | some entry => simp [oldest, hkey, stored]
  | none =>
    dsimp only [stored]
    rw [AList.lookup_insert_ne h, makeRoom]
    cases l.oldest key with
    | none => simp
    | some oldest =>
      by_cases hother : oldest.value = other
      · simp [hother]
      · simp [hother, AList.lookup_erase_ne (Ne.symm hother)]

/-- One call: whether it is allowed, and the times that are kept afterwards. -/
theorem allow_spec (l : AuthLimiter) (now : Int) (key : Bytes) (limit window : Int) :
    let kept := (l.stored key).filter (now - window < ·)
    let after := l.allow now key limit window
    (after.1 = true ↔ (kept.length : Int) < limit) ∧
      after.2.stored key = kept ++ (if after.1 then [now] else []) ∧
      ∀ other, other ≠ key → after.2.stored other =
        if l.evicts key = some other then [] else l.stored other := by
  intro kept after
  have hother : ∀ entry other, other ≠ key → ({ (l.touch key).2 with
      attempts := (l.touch key).2.attempts.insert key entry } : AuthLimiter).stored other =
        if l.evicts key = some other then [] else l.stored other := by
    intro entry other hne
    rw [← touch_other hne, stored, AList.lookup_insert_ne hne]
    rfl
  have hkept : (l.touch key).1.attempts.filter (now - window < ·) = kept := by rw [touch_attempts]
  simp only [after, allow, hkept]
  split
  · next hfull => exact ⟨by simp [hfull], by simp [stored], hother _⟩
  · next hroom => exact ⟨by simp [not_le.mp hroom], by simp [stored], hother _⟩

end AuthLimiter

/-! Runs. -/

structure Called where
  key : Bytes
  time : Int
  limit : Int
  window : Int
  allowed : Bool
  evicted : Option Bytes
  deriving DecidableEq

/-- The calls so far, at times that never run back. -/
inductive Run : Int → List Called → AuthLimiter → Prop
  | start (now : Int) : Run now [] .empty
  | call {last events l} (now : Int) (key : Bytes) (limit window : Int) : Run last events l → last ≤ now →
      Run now (events ++ [⟨key, now, limit, window, (l.allow now key limit window).1, l.evicts key⟩])
        (l.allow now key limit window).2

/-- The times at which calls for `key` were allowed. -/
def granted (events : List Called) (key : Bytes) : List Int :=
  (events.filter fun e => e.key == key && e.allowed).map (·.time)

/-- Since `since`, calls for `key` have one limit and one window, and no call evicts it. -/
def Steady (events : List Called) (key : Bytes) (limit window since : Int) : Prop :=
  ∀ e ∈ events, since ≤ e.time →
    (e.key = key → e.limit = limit ∧ e.window = window) ∧ e.evicted ≠ some key

variable {events : List Called} {l : AuthLimiter} {key : Bytes} {now limit window since : Int}

theorem granted_other {e : Called} (h : e.key ≠ key) :
    granted (events ++ [e]) key = granted events key := by
  simp [granted, h]

theorem granted_own (e : Called) : granted (events ++ [e]) e.key =
    granted events e.key ++ if e.allowed then [e.time] else [] := by
  cases h : e.allowed <;> simp [granted, h]

theorem Run.sound (h : Run now events l) : l.Sound := by
  induction h with
  | start => exact ⟨.nil, by decide⟩
  | call _ _ _ _ _ _ ih => exact ih.allow

theorem Run.times (h : Run now events l) (key : Bytes) : ∀ t ∈ granted events key, t ≤ now := by
  induction h with
  | start => simp [granted]
  | @call _ events l now key' limit window _ hlast ih =>
    have hbefore : ∀ t ∈ granted events key, t ≤ now := fun t ht => (ih t ht).trans hlast
    by_cases hk : key' = key
    · subst hk
      rw [granted_own]
      intro t ht
      rcases List.mem_append.mp ht with ht | ht
      · exact hbefore t ht
      · split at ht
        · exact (List.mem_singleton.mp ht).le
        · cases ht
    · rwa [granted_other hk]

theorem Run.stored_granted (h : Run now events l) (key : Bytes) :
    (l.stored key).Sublist (granted events key) := by
  induction h with
  | start => exact .slnil
  | @call _ events l now key' limit window _ _ ih =>
    obtain ⟨-, hkey, hother⟩ := l.allow_spec now key' limit window
    by_cases hk : key' = key
    · subst hk
      rw [granted_own, hkey]
      exact (List.filter_sublist.trans ih).append (.refl _)
    · rw [granted_other hk, hother key (Ne.symm hk)]
      split
      · exact List.nil_sublist _
      · exact ih

/-- **A call is denied only after `limit` others.** They were allowed within the last window. -/
theorem Run.denied (h : Run now events l) : ∀ front e, front ++ [e] <+: events → e.allowed = false →
    e.limit.toNat ≤ ((granted front e.key).filter fun t => e.time - e.window < t ∧ t ≤ e.time).length := by
  induction h with
  | start =>
    intro front e hfront
    simp at hfront
  | @call _ events l now key limit window run hlast ih =>
    intro front e hfront hdenied
    rcases List.prefix_concat_iff.mp hfront with heq | hbefore
    · obtain ⟨rfl, rfl⟩ := List.append_singleton_inj.mp heq
      have hfull := not_lt.mp (mt (l.allow_spec now key limit window).1.mpr (by simpa using hdenied))
      refine (Int.toNat_le.mpr hfull).trans ?_
      have hkept : (l.stored key).filter (now - window < ·) =
          ((l.stored key).filter fun t => now - window < t ∧ t ≤ now) := by
        refine List.filter_congr fun t ht => ?_
        have := (run.times key t ((run.stored_granted key).subset ht)).trans hlast
        simp [this]
      rw [hkept]
      exact ((run.stored_granted key).filter _).length_le
    · exact ih front e hbefore hdenied

/-- What is known of a key that is not evicted, from the time `since` on. -/
structure Remembers (events : List Called) (l : AuthLimiter) (key : Bytes)
    (limit window since now : Int) : Prop where
  recent : ∀ cutoff, now - window ≤ cutoff →
    ((granted events key).filter fun t => since ≤ t ∧ cutoff < t).Sublist (l.stored key)
  bounded : ∀ inside : Int → Bool,
    (∀ t t', inside t = true → inside t' = true → since ≤ t ∧ t' - window < t) →
      ((granted events key).filter inside).length ≤ limit.toNat

/-- Before `since` nothing is asked. -/
theorem Remembers.before (times : ∀ t ∈ granted events key, t ≤ now) (h : now < since) :
    Remembers events l key limit window since now := by
  have hnone : ∀ p : Int → Bool, (∀ t, p t = true → since ≤ t) → (granted events key).filter p = [] := by
    refine fun p hp => List.filter_eq_nil_iff.mpr fun t ht hpt => ?_
    have := times t ht
    have := hp t hpt
    omega
  refine ⟨fun cutoff _ => ?_, fun inside hinside => ?_⟩
  · rw [hnone _ fun t ht => (of_decide_eq_true ht).1]
    exact List.nil_sublist _
  · rw [hnone _ fun t ht => (hinside t t ht ht).1]
    exact Nat.zero_le _

/-- A call for the key itself. The calls of an interval of the length of the window are all kept when
    the last of them is made. -/
theorem Remembers.own {last : Int} (h : Remembers events l key limit window since last)
    (hlast : last ≤ now) :
    let e : Called := ⟨key, now, limit, window, (l.allow now key limit window).1, l.evicts key⟩
    Remembers (events ++ [e]) (l.allow now key limit window).2 key limit window since now := by
  intro e
  obtain ⟨hallowed, hkey, -⟩ := l.allow_spec now key limit window
  have hkept : ∀ cutoff, now - window ≤ cutoff →
      ((granted events key).filter fun t => since ≤ t ∧ cutoff < t).Sublist
        ((l.stored key).filter (now - window < ·)) := by
    intro cutoff hcutoff
    have hagain := (h.recent cutoff (by omega)).filter (now - window < ·)
    rw [List.filter_filter] at hagain
    convert hagain using 2
    funext t
    have : cutoff < t → now - window < t := hcutoff.trans_lt
    by_cases hin : since ≤ t ∧ cutoff < t <;> simp_all
  have hgranted : granted (events ++ [e]) key =
      granted events key ++ if e.allowed then [e.time] else [] := granted_own e
  refine ⟨fun cutoff hcutoff => ?_, fun inside hinside => ?_⟩ <;> rw [hgranted, List.filter_append]
  · rw [hkey]
    exact (hkept cutoff hcutoff).append List.filter_sublist
  · rw [List.length_append]
    have hbefore := h.bounded inside hinside
    by_cases hnow : e.allowed = true ∧ inside now = true
    · have hroom := hallowed.mp hnow.1
      have hless : ((granted events key).filter inside).length ≤
          ((l.stored key).filter (now - window < ·)).length := by
        refine .trans (List.Sublist.length_le ?_) (hkept _ le_rfl).length_le
        refine List.monotone_filter_right _ fun t ht => ?_
        simpa using hinside t now ht hnow.2
      rw [if_pos hnow.1, List.filter_cons_of_pos hnow.2, List.filter_nil, List.length_singleton]
      omega
    · have hnone : ((if e.allowed = true then [e.time] else []).filter inside) = [] := by
        split
        · next hyes => exact List.filter_cons_of_neg fun h => hnow ⟨hyes, h⟩
        · rfl
      rw [hnone]
      exact hbefore

theorem Run.remembers (h : Run now events l) (steady : Steady events key limit window since) :
    Remembers events l key limit window since now := by
  induction h with
  | start => exact ⟨fun _ _ => List.nil_sublist _, fun _ _ => Nat.zero_le _⟩
  | @call last events l now key' limit' window' run hlast ih =>
    have hbefore := ih fun e he => steady e (List.mem_append_left _ he)
    have hcall := steady _ (List.mem_append_right _ (List.mem_singleton.mpr rfl))
    have htimes := (run.call now key' limit' window' hlast).times key
    rcases lt_or_ge now since with hearly | hnow
    · exact .before htimes hearly
    · obtain ⟨huse, hevict⟩ := hcall hnow
      by_cases hk : key' = key
      · subst hk
        obtain ⟨rfl, rfl⟩ := huse rfl
        exact hbefore.own hlast
      · have hstored := (l.allow_spec now key' limit' window').2.2 key (Ne.symm hk)
        rw [if_neg hevict] at hstored
        refine ⟨fun cutoff hcutoff => ?_, fun inside hinside => ?_⟩ <;> rw [granted_other hk]
        · rw [hstored]
          exact hbefore.recent cutoff (by omega)
        · exact hbefore.bounded inside hinside

/-- **The limiter of the sign-in routes.** The map and the list hold the same keys, each once, and
    never more than 4096. Of a key that is used with one limit and one window and not evicted since
    `since`, at most `limit` calls are allowed in any half-open interval of the length of the window
    after it. A call is denied only if `limit` calls for the key were allowed within the last window. -/
theorem allow_bounded (run : Run now events l) :
    (l.recency.map (·.value)).Perm l.attempts.keys ∧ (l.recency.map (·.value)).Nodup ∧
    l.recency.length ≤ AuthLimiter.capacity ∧
    (∀ key limit window since, Steady events key limit window since → ∀ a, since ≤ a →
      ((granted events key).filter fun t => a ≤ t ∧ t < a + window).length ≤ limit.toNat ∧
      ((granted events key).filter fun t => a < t ∧ t ≤ a + window).length ≤ limit.toNat) ∧
    ∀ front e, front ++ [e] <+: events → e.allowed = false →
      e.limit.toNat ≤ ((granted front e.key).filter fun t => e.time - e.window < t ∧ t ≤ e.time).length := by
  obtain ⟨hsame, hbounded⟩ := run.sound
  refine ⟨hsame, hsame.nodup_iff.mpr l.attempts.keys_nodup, ?_, fun key limit window since steady a ha => ?_,
    run.denied⟩
  · rw [← List.length_map (·.value), hsame.length_eq]
    exact hbounded
  · have hremembers := run.remembers steady
    refine ⟨hremembers.bounded _ fun t t' ht ht' => ?_, hremembers.bounded _ fun t t' ht ht' => ?_⟩ <;>
      · simp only [decide_eq_true_eq] at ht ht'
        omega

namespace Demo

/-- One call a minute: the second one is denied. -/
theorem second_denied : ∃ events l, Run 20 events l ∧ events.map (·.allowed) = [true, false] ∧
    ((granted events [1]).filter fun t => 10 ≤ t ∧ t < 10 + 60).length ≤ 1 := by
  have run := ((Run.start 0).call 10 [1] 1 60 (by decide)).call 20 [1] 1 60 (by decide)
  refine ⟨_, _, run, by decide +kernel, ((allow_bounded run).2.2.2.1 [1] 1 60 0 ?_ 10 (by decide)).1⟩
  unfold Steady
  decide +kernel

end Demo

end Sesame.Limits
