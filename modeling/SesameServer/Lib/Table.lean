import Mathlib.Data.Finmap
import Mathlib.Algebra.Ring.Nat

/- Go maps as Mathlib's association lists with distinct keys. The order of the
   entries is the order in which a `range` loop visits the map; Go leaves that
   order open, so `Reordered` relates two tables with the same entries in any
   order, and every fact proved here is about lookups, which do not see it.

   Added to `AList` are the two loops the stores use: collecting the values and
   deleting while ranging (`deleteWhere`). -/
abbrev Table (κ ν : Type) := AList (fun _ : κ => ν)

namespace Table

variable {κ ν : Type}

/-- The values in the order a `range` loop sees them. -/
def values (t : Table κ ν) : List ν := t.entries.map Sigma.snd

/-- `for k, v := range t { if p k v { delete(t, k) } }`. -/
def deleteWhere (t : Table κ ν) (p : κ → ν → Bool) : Table κ ν :=
  ⟨t.entries.filter (fun e => !p e.1 e.2),
    (List.Sublist.map Sigma.fst List.filter_sublist).nodup t.nodupKeys⟩

/-- The same map, met in another order. -/
def Reordered (t t' : Table κ ν) : Prop := t.entries.Perm t'.entries

/-- `UPDATE … WHERE`. -/
def updateWhere (t : Table κ ν) (p : κ → ν → Bool) (f : ν → ν) : Table κ ν :=
  ⟨t.entries.map fun e => ⟨e.1, if p e.1 e.2 then f e.2 else e.2⟩, by
    have hkeys : (t.entries.map fun e => (⟨e.1, if p e.1 e.2 then f e.2 else e.2⟩ :
        Sigma fun _ : κ => ν)).map Sigma.fst = t.entries.map Sigma.fst := by
      rw [List.map_map]
      rfl
    have := t.nodupKeys
    unfold List.NodupKeys List.keys at this ⊢
    rwa [hkeys]⟩

def find? (t : Table κ ν) (p : κ → ν → Bool) : Option (κ × ν) :=
  (t.entries.find? fun e => p e.1 e.2).map fun e => (e.1, e.2)

def count (t : Table κ ν) (p : κ → ν → Bool) : Nat := t.entries.countP fun e => p e.1 e.2

variable [DecidableEq κ]

/-- `t[k]` of a map whose values are maps or slices: the empty one if `k` is absent. -/
def getD (t : Table κ ν) (k : κ) (d : ν) : ν := (t.lookup k).getD d

variable {t t' : Table κ ν} {v : ν} {p : κ → ν → Bool} {k : κ}

theorem mem_values : v ∈ t.values ↔ ∃ k, t.lookup k = some v := by
  unfold values
  rw [List.mem_map]
  constructor
  · rintro ⟨⟨k, w⟩, he, rfl⟩
    exact ⟨k, AList.mem_lookup_iff.mpr he⟩
  · rintro ⟨k, hk⟩
    exact ⟨⟨k, v⟩, AList.mem_lookup_iff.mp hk, rfl⟩

theorem lookup_deleteWhere (t : Table κ ν) (p : κ → ν → Bool) (k : κ) :
    (t.deleteWhere p).lookup k = (t.lookup k).filter (fun v => !p k v) := by
  ext v
  rw [← Option.mem_def, AList.mem_lookup_iff, Option.filter_eq_some_iff, ← Option.mem_def,
    AList.mem_lookup_iff]
  simp [deleteWhere]

theorem lookup_updateWhere (t : Table κ ν) (p : κ → ν → Bool) (f : ν → ν) (k : κ) :
    (t.updateWhere p f).lookup k = (t.lookup k).map fun v => if p k v then f v else v := by
  ext v
  rw [← Option.mem_def, AList.mem_lookup_iff, Option.map_eq_some_iff]
  simp only [updateWhere, List.mem_map, Sigma.mk.injEq]
  constructor
  · rintro ⟨⟨k', w⟩, he, rfl, hv⟩
    exact ⟨w, AList.mem_lookup_iff.mpr he, eq_of_heq hv⟩
  · rintro ⟨w, hw, rfl⟩
    exact ⟨⟨k, w⟩, AList.mem_lookup_iff.mp hw, rfl, HEq.rfl⟩

theorem find?_some (h : t.find? p = some (k, v)) : t.lookup k = some v ∧ p k v = true := by
  obtain ⟨e, he, hkv⟩ := Option.map_eq_some_iff.mp h
  obtain ⟨rfl, rfl⟩ := Prod.mk.inj hkv
  exact ⟨AList.mem_lookup_iff.mpr (List.mem_of_find?_eq_some he), by simpa using List.find?_some he⟩

theorem find?_isSome (h : t.lookup k = some v) (hp : p k v = true) : (t.find? p).isSome = true := by
  rw [find?, Option.isSome_map, List.find?_isSome]
  exact ⟨⟨k, v⟩, AList.mem_lookup_iff.mp h, hp⟩

/-- A row that is gone is not missed by a search that would not have found it. -/
theorem find?_deleteWhere {d : κ → ν → Bool}
    (h : ∀ k v, t.lookup k = some v → p k v = true → d k v = false) :
    (t.deleteWhere d).find? p = t.find? p := by
  have kept : ∀ l : List (Sigma fun _ : κ => ν), (∀ e ∈ l, p e.1 e.2 = true → d e.1 e.2 = false) →
      (l.filter fun e => !d e.1 e.2).find? (fun e => p e.1 e.2) =
        l.find? fun e => p e.1 e.2 := by
    intro l
    induction l with
    | nil => exact fun _ => rfl
    | cons e l ih =>
      intro hl
      have ih := ih fun x hx => hl x (List.mem_cons_of_mem _ hx)
      cases hd : d e.1 e.2 with
      | false =>
        rw [List.filter_cons_of_pos (by simp [hd])]
        simp only [List.find?_cons, ih]
      | true =>
        have hp : p e.1 e.2 ≠ true := fun hp => by
          rw [hl e List.mem_cons_self hp] at hd
          cases hd
        rw [List.filter_cons_of_neg (by simp [hd]), ih]
        simp [hp]
  unfold find? deleteWhere
  rw [kept _ fun e he hp => h e.1 e.2 (AList.mem_lookup_iff.mpr he) hp]

/-- A search sees of a condition what it says of the rows. -/
theorem find?_congr {q : κ → ν → Bool}
    (h : ∀ k v, t.lookup k = some v → p k v = q k v) : t.find? p = t.find? q := by
  have same : ∀ l : List (Sigma fun _ : κ => ν), (∀ e ∈ l, p e.1 e.2 = q e.1 e.2) →
      l.find? (fun e => p e.1 e.2) = l.find? fun e => q e.1 e.2 := by
    intro l
    induction l with
    | nil => exact fun _ => rfl
    | cons e l ih =>
      intro hl
      rw [List.find?_cons, List.find?_cons, hl e List.mem_cons_self,
        ih fun x hx => hl x (List.mem_cons_of_mem _ hx)]
  unfold find?
  rw [same _ fun e he => h e.1 e.2 (AList.mem_lookup_iff.mpr he)]

/-- A row that is gone is not missed by a count that leaves it out. -/
theorem count_deleteWhere {d : κ → ν → Bool}
    (h : ∀ k v, t.lookup k = some v → p k v = true → d k v = false) :
    (t.deleteWhere d).count p = t.count p := by
  unfold count deleteWhere
  rw [List.countP_filter]
  refine List.countP_congr fun e he => ?_
  have := h e.1 e.2 (AList.mem_lookup_iff.mpr he)
  cases hp : p e.1 e.2 <;> simp_all

theorem count_eq_zero : t.count p = 0 ↔ ∀ k v, t.lookup k = some v → p k v = false := by
  unfold count
  rw [List.countP_eq_zero]
  constructor
  · intro h k v hkv
    simpa using h ⟨k, v⟩ (AList.mem_lookup_iff.mp hkv)
  · intro h e he
    simpa using h e.1 e.2 (AList.mem_lookup_iff.mpr he)

/-- `INSERT`: fails if the key is taken, or another unique column is. -/
def insertNew (t : Table κ ν) (k : κ) (v : ν) (clash : ν → Bool) : Option (Table κ ν) :=
  if (t.lookup k).isSome || (t.find? fun _ w => clash w).isSome then none else some (t.insert k v)

theorem insertNew_some {clash : ν → Bool} : t.insertNew k v clash = some t' ↔ t.lookup k = none ∧
      (t.find? fun _ w => clash w) = none ∧ t.insert k v = t' := by
  unfold insertNew
  split
  · next h =>
    simp only [Bool.or_eq_true, Option.isSome_iff_ne_none] at h
    simp only [reduceCtorEq, false_iff, not_and]
    intro h₁ h₂
    simp [h₁, h₂] at h
  · next h =>
    simp only [Bool.or_eq_true, not_or, Bool.not_eq_true, Option.isSome_eq_false_iff,
      Option.isNone_iff_eq_none] at h
    simp [h.1, h.2]

theorem insertNew_of_new {clash : ν → Bool} (h : t.lookup k = none)
    (hclash : ∀ k w, t.lookup k = some w → clash w = false) :
    t.insertNew k v clash = some (t.insert k v) := by
  refine insertNew_some.mpr ⟨h, ?_, rfl⟩
  cases hfind : t.find? fun _ w => clash w with
  | none => rfl
  | some e =>
    obtain ⟨he, hc⟩ := find?_some (show t.find? _ = some (e.1, e.2) from hfind)
    rw [hclash e.1 e.2 he] at hc
    cases hc

/-- `UPDATE … WHERE` the key is `k`, and more: fails if no row is changed. -/
def change (t : Table κ ν) (k : κ) (c : ν → Bool) (f : ν → ν) : Option (Table κ ν) :=
  ((t.lookup k).filter c).map fun v => t.insert k (f v)

theorem change_some {c : ν → Bool} {f : ν → ν} :
    t.change k c f = some t' ↔ ∃ v, t.lookup k = some v ∧ c v = true ∧ t.insert k (f v) = t' := by
  unfold change
  simp [Option.map_eq_some_iff, Option.filter_eq_some_iff, and_assoc]

theorem lookup_insert_eq (t : Table κ ν) (k k' : κ) (v : ν) :
    (t.insert k v).lookup k' = if k' = k then some v else t.lookup k' := by
  split
  · next h => rw [h, AList.lookup_insert]
  · next h => exact AList.lookup_insert_ne h

theorem lookup_erase_eq (t : Table κ ν) (k k' : κ) :
    (t.erase k).lookup k' = if k' = k then none else t.lookup k' := by
  split
  · next h => rw [h, AList.lookup_erase]
  · next h => exact AList.lookup_erase_ne h

variable {k' : κ} {w : ν}

theorem lookup_insert_some :
    (t.insert k v).lookup k' = some w ↔ k' = k ∧ v = w ∨ k' ≠ k ∧ t.lookup k' = some w := by
  rw [lookup_insert_eq]
  split
  · next h => simp [h]
  · next h => simp [h]

theorem lookup_erase_some : (t.erase k).lookup k' = some w ↔ k' ≠ k ∧ t.lookup k' = some w := by
  rw [lookup_erase_eq]
  split
  · next h => simp [h]
  · next h => simp [h]

theorem lookup_deleteWhere_some :
    (t.deleteWhere p).lookup k = some w ↔ t.lookup k = some w ∧ p k w = false := by
  rw [lookup_deleteWhere, Option.filter_eq_some_iff]
  simp

theorem lookup_updateWhere_some {f : ν → ν} : (t.updateWhere p f).lookup k = some w ↔
      ∃ v, t.lookup k = some v ∧ (if p k v then f v else v) = w := by
  rw [lookup_updateWhere, Option.map_eq_some_iff]

theorem getD_insert (t : Table κ ν) (k k' : κ) (v d : ν) :
    getD (t.insert k v) k' d = if k' = k then v else t.getD k' d := by
  unfold getD
  rw [lookup_insert_eq]
  split <;> rfl

/-- What holds of every key in use still does after one more came into use. -/
theorem forall_lookup_insert {P : κ → Prop} (h : ∀ k v, t.lookup k = some v → P k)
    {k₀ : κ} (h₀ : P k₀) {v₀ : ν} : ∀ k v, (t.insert k₀ v₀).lookup k = some v → P k := by
  intro k v hk
  rw [lookup_insert_eq] at hk
  split at hk
  · next e => rw [e]; exact h₀
  · exact h k v hk

/-! The keys. -/

theorem keys_insert_perm (h : k ∈ t.keys) (v : ν) : (AList.insert k v t).keys.Perm t.keys := by
  rw [AList.keys_insert]
  exact (List.perm_cons_erase h).symm

theorem keys_insert_new (h : k ∉ t.keys) : (AList.insert k v t).keys = k :: t.keys := by
  rw [AList.keys_insert, List.erase_of_not_mem h]

theorem keys_erase_perm (h : k ∈ t.keys) : (k :: (AList.erase k t).keys).Perm t.keys := by
  rw [AList.keys_erase]
  exact (List.perm_cons_erase h).symm

theorem mem_keys_erase (h : k ∈ (AList.erase k' t).keys) : k ∈ t.keys := by
  rw [AList.keys_erase] at h
  exact List.mem_of_mem_erase h

theorem Reordered.lookup (h : Reordered t t') (k : κ) :
    t.lookup k = t'.lookup k := AList.perm_lookup h

end Table

/-! Sums over a map, as the unordered map `Finmap` sees it. -/

namespace Finmap

variable {κ ν : Type}

def sumBy (m : Finmap (fun _ : κ => ν)) (f : ν → Nat) : Nat :=
  (m.entries.map (fun e => f e.2)).sum

theorem sumBy_toFinmap (t : Table κ ν) (f : ν → Nat) :
    sumBy t.toFinmap f = (t.values.map f).sum := by
  simp [sumBy, Table.values, AList.toFinmap, Function.comp_def]

variable [DecidableEq κ]

variable {m : Finmap (fun _ : κ => ν)} {k : κ}

theorem mem_entries {v : ν} :
    (⟨k, v⟩ : Sigma fun _ : κ => ν) ∈ m.entries ↔ m.lookup k = some v := by
  induction m using Finmap.induction_on with
  | H t => exact AList.mem_lookup_iff.symm

theorem sumBy_insert (v : ν) (f : ν → Nat)
    (h : m.lookup k = none) : sumBy (m.insert k v) f = sumBy m f + f v := by
  unfold sumBy
  rw [Finmap.entries_insert_of_notMem (Finmap.lookup_eq_none.mp h)]
  simp [Nat.add_comm]

theorem sumBy_erase {v : ν} (f : ν → Nat)
    (h : m.lookup k = some v) : sumBy (m.erase k) f + f v = sumBy m f := by
  have hm : m = (m.erase k).insert k v := by
    apply Finmap.ext_lookup
    intro k'
    by_cases hk : k' = k
    · rw [hk, h, Finmap.lookup_insert]
    · rw [Finmap.lookup_insert_of_ne _ hk, Finmap.lookup_erase_ne hk]
  conv_rhs => rw [hm]
  rw [sumBy_insert v f (Finmap.lookup_erase k m)]

theorem sumBy_le {m' : Finmap (fun _ : κ => ν)} (f : ν → Nat)
    (h : ∀ k v, m'.lookup k = some v → m.lookup k = some v) : sumBy m' f ≤ sumBy m f := by
  have hsub : m'.entries ⊆ m.entries := by
    rintro ⟨k, v⟩ he
    exact mem_entries.mpr (h k v (mem_entries.mp he))
  have hle : m'.entries ≤ m.entries :=
    (Multiset.le_iff_subset m'.nodupKeys.nodup).mpr hsub
  obtain ⟨rest, hrest⟩ := Multiset.le_iff_exists_add.mp hle
  unfold sumBy
  rw [hrest, Multiset.map_add, Multiset.sum_add]
  exact Nat.le_add_right _ _

theorem insert_eq (v : ν) : m.insert k v = (m.erase k).insert k v := by
  apply Finmap.ext_lookup
  intro k'
  by_cases hk : k' = k
  · rw [hk, Finmap.lookup_insert, Finmap.lookup_insert]
  · rw [Finmap.lookup_insert_of_ne _ hk, Finmap.lookup_insert_of_ne _ hk, Finmap.lookup_erase_ne hk]

theorem sumBy_replace {old : ν} (v : ν) (f : ν → Nat)
    (h : m.lookup k = some old) : sumBy (m.insert k v) f + f old = sumBy m f + f v := by
  rw [insert_eq, sumBy_insert v f (Finmap.lookup_erase k m), ← sumBy_erase f h]
  omega

theorem sumBy_insert_le (v : ν) (f : ν → Nat) : sumBy (m.insert k v) f ≤ sumBy m f + f v := by
  rw [insert_eq, sumBy_insert v f (Finmap.lookup_erase k m)]
  refine Nat.add_le_add_right (sumBy_le f fun k' x hx => ?_) _
  by_cases hk : k' = k
  · rw [hk, Finmap.lookup_erase] at hx; cases hx
  · rwa [Finmap.lookup_erase_ne hk] at hx

end Finmap
