import Mathlib.Data.List.Induction
import Mathlib.Data.Set.Function

/- Hash chains.

   1. `Linked` — the items of a chain are numbered from 1, and each names the digest of the
      one before it. `Linked.unique`: if no two items share a digest, the last digest stands
      for the whole chain, its length included.
   2. `Chained` — the items are not numbered; the first one names a digest that none has.
      `Chained.unique`: if a digest tells what is in an item, the last one tells what is in
      the whole chain. -/
namespace HashChain

variable {α δ : Type} {number : α → Nat} {back digest : α → δ}

/-- A chain, from its first item on. -/
inductive Linked (number : α → Nat) (back digest : α → δ) : List α → Prop
  | nil : Linked number back digest []
  | snoc {items : List α} {item : α} (chain : Linked number back digest items)
      (numbered : number item = items.length + 1)
      (linked : ∀ last, items.getLast? = some last → back item = digest last) :
      Linked number back digest (items ++ [item])

/-- **The last digest commits to the chain.** -/
theorem Linked.unique {items items' : List α} (chain : Linked number back digest items)
    (chain' : Linked number back digest items') {S : Set α} (inj : Set.InjOn digest S)
    (mem : ∀ x ∈ items, x ∈ S) (mem' : ∀ x ∈ items', x ∈ S)
    (h : items.getLast?.map digest = items'.getLast?.map digest) : items = items' := by
  -- from the last item back: it is the same in both, and so is the digest it names
  induction chain generalizing items' with
  | nil =>
    have hlast : items'.getLast? = none := by simpa using h.symm
    exact (List.getLast?_eq_none_iff.mp hlast).symm
  | @snoc items item chain numbered linked ih =>
    cases chain' with
    | nil => simp at h
    | @snoc items' item' chain' numbered' linked' =>
      have hitem : item = item' := by
        refine inj (mem _ (by simp)) (mem' _ (by simp)) ?_
        simpa using h
      subst hitem
      have hlength : items.length = items'.length := by omega
      rw [ih chain' (fun x hx => mem x (List.mem_append_left _ hx))
        (fun x hx => mem' x (List.mem_append_left _ hx)) ?_]
      cases hlast : items.getLast? with
      | none =>
        have hnil : items = [] := by simpa using hlast
        have hnil' : items' = [] := by
          rw [hnil] at hlength
          exact List.length_eq_zero_iff.mp hlength.symm
        rw [hnil']
        rfl
      | some last =>
        cases hlast' : items'.getLast? with
        | none =>
          have hnil : items' = [] := by simpa using hlast'
          rw [hnil] at hlength
          rw [List.length_eq_zero_iff.mp hlength] at hlast
          cases hlast
        | some last' =>
          rw [Option.map_some, Option.map_some, ← linked last hlast, ← linked' last' hlast']

/-! Chains from a first digest on. -/

/-- The digest that the next item has to name. -/
def tip (genesis : δ) (digest : α → δ) (items : List α) : δ :=
  (items.getLast?.map digest).getD genesis

@[simp] theorem tip_nil (genesis : δ) (digest : α → δ) : tip genesis digest [] = genesis := rfl

@[simp] theorem tip_snoc (genesis : δ) (digest : α → δ) (items : List α) (item : α) :
    tip genesis digest (items ++ [item]) = digest item := by
  simp [tip]

inductive Chained (genesis : δ) (back digest : α → δ) : List α → Prop
  | nil : Chained genesis back digest []
  | snoc {items : List α} {item : α} (chain : Chained genesis back digest items)
      (linked : back item = tip genesis digest items) :
      Chained genesis back digest (items ++ [item])

theorem Chained.of_append {genesis : δ} {items rest : List α}
    (chain : Chained genesis back digest (items ++ rest)) : Chained genesis back digest items := by
  induction rest using List.reverseRecOn with
  | nil => simpa using chain
  | append_singleton rest item ih =>
    generalize hall : items ++ (rest ++ [item]) = all at chain
    cases chain with
    | nil => simp at hall
    | snoc chain _ =>
      rw [← List.append_assoc] at hall
      exact ih ((List.append_inj' hall rfl).1 ▸ chain)

/-- **The last digest tells what is in the chain.** -/
theorem Chained.unique {β : Type} {genesis : δ} {content : α → β} {items items' : List α}
    (chain : Chained genesis back digest items) (chain' : Chained genesis back digest items')
    (tells : ∀ x ∈ items, ∀ y ∈ items', digest x = digest y →
      content x = content y ∧ back x = back y)
    (fresh : ∀ x ∈ items, digest x ≠ genesis) (fresh' : ∀ x ∈ items', digest x ≠ genesis)
    (h : tip genesis digest items = tip genesis digest items') :
    items.map content = items'.map content := by
  induction chain generalizing items' with
  | nil =>
    cases chain' with
    | nil => rfl
    | @snoc items' item' _ _ => exact absurd (by simpa using h.symm) (fresh' item' (by simp))
  | @snoc items item chain linked ih =>
    cases chain' with
    | nil => exact absurd (by simpa using h) (fresh item (by simp))
    | @snoc items' item' chain' linked' =>
      rw [tip_snoc, tip_snoc] at h
      obtain ⟨hcontent, hback⟩ := tells item (by simp) item' (by simp) h
      rw [List.map_append, List.map_append, List.map_singleton, List.map_singleton, hcontent]
      rw [ih chain' (fun x hx y hy => tells x (List.mem_append_left _ hx) y
          (List.mem_append_left _ hy)) (fun x hx => fresh x (List.mem_append_left _ hx))
        (fun y hy => fresh' y (List.mem_append_left _ hy))]
      rw [← linked, hback, linked']

end HashChain
