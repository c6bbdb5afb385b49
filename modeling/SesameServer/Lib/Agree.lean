import SesameServer.Lib.Table

/- Two tables that differ only in rows that are of no more use.

   `Agree spent t t'` says that what is left of the two without the rows that are `spent` is
   the same. Whatever passes over spent rows finds the same in both (`find?`, `lookup`,
   `count`), and every kind of write keeps the two in agreement: of an update it is asked that
   a spent row stays spent, of a deletion that it judges the other rows alike. -/
namespace Table

variable {κ ν : Type} {t t' : Table κ ν} {spent p : κ → ν → Bool}

def Agree (spent : κ → ν → Bool) (t t' : Table κ ν) : Prop :=
  t.deleteWhere spent = t'.deleteWhere spent

theorem agree_iff : Agree spent t t' ↔ t.entries.filter (fun e => !spent e.1 e.2) =
    t'.entries.filter fun e => !spent e.1 e.2 := AList.ext_iff

theorem Agree.trans {t'' : Table κ ν} (h : Agree spent t t') (h' : Agree spent t' t'') :
    Agree spent t t'' := Eq.trans h h'

theorem Agree.updateWhere (h : Agree spent t t') (q : κ → ν → Bool) (f : ν → ν)
    (stays : ∀ k v, spent k v = true → q k v = true → spent k (f v) = true) :
    Agree spent (t.updateWhere q f) (t'.updateWhere q f) := by
  rw [agree_iff] at h ⊢
  -- a row that is left after the update was left before it
  have left (l : List (Sigma fun _ : κ => ν)) :
      (l.map fun e => (⟨e.1, if q e.1 e.2 then f e.2 else e.2⟩ : Sigma fun _ : κ => ν)).filter
          (fun e => !spent e.1 e.2) =
        ((l.filter fun e => !spent e.1 e.2).map fun e =>
          (⟨e.1, if q e.1 e.2 then f e.2 else e.2⟩ : Sigma fun _ : κ => ν)).filter
            fun e => !spent e.1 e.2 := by
    rw [List.filter_map, List.filter_map, List.filter_filter]
    congr 1
    refine List.filter_congr fun e _ => ?_
    cases hspent : spent e.1 e.2 with
    | false => simp
    | true =>
      cases hq : q e.1 e.2 with
      | false => simp [hq, hspent]
      | true => simp [hq, stays _ _ hspent hq]
  exact (left _).trans ((congrArg _ (congrArg _ h)).trans (left _).symm)

variable [DecidableEq κ] {k : κ} {v : ν}

theorem Agree.find? (h : Agree spent t t') (hp : ∀ k v, p k v = true → spent k v = false) :
    t.find? p = t'.find? p := by
  rw [← find?_deleteWhere fun k v _ => hp k v, h, find?_deleteWhere fun k v _ => hp k v]

theorem Agree.count (h : Agree spent t t') (hp : ∀ k v, p k v = true → spent k v = false) :
    t.count p = t'.count p := by
  rw [← count_deleteWhere fun k v _ => hp k v, h, count_deleteWhere fun k v _ => hp k v]

theorem Agree.lookup (h : Agree spent t t') {c : ν → Bool}
    (hc : ∀ v, c v = true → spent k v = false) : (t.lookup k).filter c = (t'.lookup k).filter c := by
  have left (t : Table κ ν) : ((t.deleteWhere spent).lookup k).filter c = (t.lookup k).filter c := by
    rw [lookup_deleteWhere, Option.filter_filter]
    congr 1
    funext v
    cases hv : c v with
    | false => simp
    | true => simp [hc v hv]
  rw [← left, h, left]

theorem Agree.lookup_some (h : Agree spent t t') (hk : t.lookup k = some v) (hv : spent k v = false) :
    t'.lookup k = some v := by
  have kept : (t'.deleteWhere spent).lookup k = some v := by
    rw [← h]
    exact lookup_deleteWhere_some.mpr ⟨hk, hv⟩
  exact (lookup_deleteWhere_some.mp kept).1

theorem filter_kerase {p : (Sigma fun _ : κ => ν) → Bool} {l : List (Sigma fun _ : κ => ν)}
    (nodup : l.NodupKeys) : (l.kerase k).filter p = (l.filter p).kerase k := by
  induction l with
  | nil => rfl
  | cons e l ih =>
    have ⟨hnot, nodup⟩ := List.nodupKeys_cons.mp nodup
    have ih := ih nodup
    by_cases hk : k = e.1
    · have gone : k ∉ (l.filter p).keys := fun h =>
        hnot (hk ▸ (List.Sublist.map Sigma.fst List.filter_sublist).subset h)
      rw [List.kerase_cons_eq hk]
      cases hp : p e with
      | false => rw [List.filter_cons_of_neg (by simp [hp]), List.kerase_of_notMem_keys gone]
      | true => rw [List.filter_cons_of_pos hp, List.kerase_cons_eq hk]
    · rw [List.kerase_cons_ne hk]
      cases hp : p e with
      | false => rw [List.filter_cons_of_neg (by simp [hp]), List.filter_cons_of_neg (by simp [hp]), ih]
      | true => rw [List.filter_cons_of_pos hp, List.filter_cons_of_pos hp, List.kerase_cons_ne hk, ih]

theorem Agree.erase (h : Agree spent t t') (k : κ) : Agree spent (t.erase k) (t'.erase k) := by
  rw [agree_iff] at h ⊢
  rw [AList.erase, AList.erase, filter_kerase t.nodupKeys, filter_kerase t'.nodupKeys, h]

theorem Agree.insert (h : Agree spent t t') (k : κ) (v : ν) :
    Agree spent (t.insert k v) (t'.insert k v) := by
  have rest := agree_iff.mp (h.erase k)
  rw [agree_iff, AList.entries_insert, AList.entries_insert, List.filter_cons, List.filter_cons]
  split
  · exact congrArg _ rest
  · exact rest

/-- A spent row is written in the place of a spent one, or of none. -/
theorem Agree.insert_spent (hv : spent k v = true)
    (hold : ∀ w, t.lookup k = some w → spent k w = true) : Agree spent (t.insert k v) t := by
  have gone : k ∉ (t.entries.filter fun e => !spent e.1 e.2).keys := by
    intro hk
    obtain ⟨w, hw⟩ := List.exists_of_mem_keys hk
    obtain ⟨hmem, hleft⟩ := List.mem_filter.mp hw
    simp [hold w (AList.mem_lookup_iff.mpr hmem)] at hleft
  rw [agree_iff, AList.entries_insert, List.filter_cons_of_neg (by simp [hv]), filter_kerase t.nodupKeys,
    List.kerase_of_notMem_keys gone]

theorem Agree.of_deleteWhere {q : κ → ν → Bool}
    (hq : ∀ k v, t.lookup k = some v → q k v = true → spent k v = true) :
    Agree spent (t.deleteWhere q) t := by
  rw [agree_iff, Table.deleteWhere, List.filter_filter]
  refine List.filter_congr fun e he => ?_
  have := hq e.1 e.2 (AList.mem_lookup_iff.mpr he)
  cases hspent : spent e.1 e.2 <;> cases hrow : q e.1 e.2 <;> simp_all

/-- The two deletions may be by different conditions. -/
theorem Agree.deleteWhere (h : Agree spent t t') {q q' : κ → ν → Bool}
    (hq : ∀ k v, t.lookup k = some v → t'.lookup k = some v → spent k v = false → q k v = q' k v) :
    Agree spent (t.deleteWhere q) (t'.deleteWhere q') := by
  have comm (t : Table κ ν) (q : κ → ν → Bool) :
      (t.deleteWhere q).deleteWhere spent = (t.deleteWhere spent).deleteWhere q :=
    AList.ext (List.filter_comm _ _ _)
  have same : (t.deleteWhere spent).deleteWhere q = (t.deleteWhere spent).deleteWhere q' := by
    refine AList.ext (List.filter_congr fun e he => ?_)
    obtain ⟨hrow, hleft⟩ := lookup_deleteWhere_some.mp (AList.mem_lookup_iff.mpr he)
    rw [hq e.1 e.2 hrow (h.lookup_some hrow hleft) hleft]
  rw [Agree, comm, same, h, ← comm]

theorem Agree.change (h : Agree spent t t') {c : ν → Bool} (hc : ∀ v, c v = true → spent k v = false)
    (f : ν → ν) : Option.Rel (fun a b => Agree spent a b ∧ ∃ v, c v = true ∧ a.lookup k = some (f v))
      (t.change k c f) (t'.change k c f) := by
  unfold Table.change
  rw [h.lookup hc]
  cases hrow : (t'.lookup k).filter c with
  | none => exact .none
  | some v =>
    exact .some ⟨h.insert k (f v), v, (Option.filter_eq_some_iff.mp hrow).2, AList.lookup_insert _⟩

variable {clash : ν → Bool}

/-- Of a row whose key is new to both; the unique columns are those of rows that are left. -/
theorem Agree.insertNew (h : Agree spent t t') (new : t.lookup k = none) (new' : t'.lookup k = none)
    (hclash : ∀ k v, clash v = true → spent k v = false) :
    Option.Rel (fun a b => Agree spent a b ∧ a.lookup k = some v) (t.insertNew k v clash)
      (t'.insertNew k v clash) := by
  unfold Table.insertNew
  rw [new, new', h.find? hclash]
  split
  · exact .none
  · exact .some ⟨h.insert k v, AList.lookup_insert _⟩

/-- Neither the key nor a unique column is in use. -/
def Fresh (t : Table κ ν) (k : κ) (clash : ν → Bool) : Prop :=
  t.lookup k = none ∧ ∀ k v, t.lookup k = some v → clash v = false

theorem fresh_iff :
    t.Fresh k clash ↔ (t.lookup k).isNone = true ∧ t.count (fun _ v => clash v) = 0 := by
  rw [count_eq_zero, Option.isNone_iff_eq_none]
  rfl

instance (t : Table κ ν) (k : κ) (clash : ν → Bool) : Decidable (t.Fresh k clash) :=
  decidable_of_iff' _ fresh_iff

theorem Fresh.deleteWhere (h : t.Fresh k clash) (q : κ → ν → Bool) :
    (t.deleteWhere q).Fresh k clash := by
  refine ⟨by rw [lookup_deleteWhere, h.1]; rfl, fun k v hk => ?_⟩
  exact h.2 k v (lookup_deleteWhere_some.mp hk).1

theorem Fresh.updateWhere (h : t.Fresh k clash) (q : κ → ν → Bool) {f : ν → ν}
    (hf : ∀ v, clash (f v) = clash v) : (t.updateWhere q f).Fresh k clash := by
  refine ⟨by rw [lookup_updateWhere, h.1]; rfl, fun k v hk => ?_⟩
  obtain ⟨w, hw, rfl⟩ := lookup_updateWhere_some.mp hk
  split
  · exact (hf w).trans (h.2 k w hw)
  · exact h.2 k w hw

theorem Agree.insertFresh (h : Agree spent t t') (new : t.Fresh k clash) (new' : t'.Fresh k clash) :
    Option.Rel (Agree spent) (t.insertNew k v clash) (t'.insertNew k v clash) := by
  rw [insertNew_of_new new.1 new.2, insertNew_of_new new'.1 new'.2]
  exact .some (h.insert k v)

end Table
