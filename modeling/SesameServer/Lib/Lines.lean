import Mathlib.Data.List.Forall2
import SesameServer.Lib.Encoding

/- Fields joined by a separator, as a signed or a hashed text has them.

   1. `joined_inj` — fields without the separator can be read back, and one field more that may
      hold anything, provided the number of fields before it and after it is known.
   2. `flatten_blocks_inj` — records of one fixed length, laid end to end, can be read back.
   3. `forall₂_of_blocks` — what two lists have in common that are written as the same records. -/
namespace Lines

section
variable {α : Type}

/-- The fields with `s` between them. -/
def joined (s : α) (fields : List (List α)) : List α := [s].intercalate fields

theorem joined_cons (s : α) (field : List α) {rest : List (List α)} (h : rest ≠ []) :
    joined s (field :: rest) = field ++ s :: joined s rest := by
  obtain ⟨next, rest, rfl⟩ := List.exists_cons_of_ne_nil h
  simp [joined, List.intercalate]

theorem joined_concat (s : α) (field : List α) {rest : List (List α)} (h : rest ≠ []) :
    joined s (rest ++ [field]) = joined s rest ++ s :: field := by
  induction rest with
  | nil => exact absurd rfl h
  | cons first rest ih =>
    cases rest with
    | nil => simp [joined, List.intercalate]
    | cons second rest =>
      rw [List.cons_append, joined_cons s first (by simp), ih (by simp), joined_cons s first (by simp)]
      simp

variable {s : α} {β : Type} {items : List α} {blocks : List β}

/-- What follows the last separator is one thing, what stands before it another. -/
theorem append_sep_inj_last {a b x y : List α} (ha : s ∉ a) (hb : s ∉ b)
    (h : x ++ s :: a = y ++ s :: b) : x = y ∧ a = b := by
  have hrev : a.reverse ++ s :: x.reverse = b.reverse ++ s :: y.reverse := by
    simpa using congrArg List.reverse h
  obtain ⟨hab, hxy⟩ := Encoding.append_sep_inj (by simpa using ha) (by simpa using hb) hrev
  exact ⟨List.reverse_injective hxy, List.reverse_injective hab⟩

theorem joined_trail_inj {w w' : List α} {trail trail' : List (List α)}
    (hlen : trail.length = trail'.length) (ht : ∀ f ∈ trail, s ∉ f) (ht' : ∀ f ∈ trail', s ∉ f)
    (h : joined s (w :: trail) = joined s (w' :: trail')) : w = w' ∧ trail = trail' := by
  induction trail using List.reverseRecOn generalizing trail' with
  | nil =>
    obtain rfl := List.length_eq_zero_iff.mp hlen.symm
    exact ⟨by simpa [joined, List.intercalate] using h, rfl⟩
  | append_singleton trail field ih =>
    cases trail' using List.reverseRecOn with
    | nil => simp at hlen
    | append_singleton trail' field' =>
      rw [← List.cons_append, ← List.cons_append, joined_concat s field (by simp),
        joined_concat s field' (by simp)] at h
      obtain ⟨hfront, hlast⟩ := append_sep_inj_last (ht field (by simp)) (ht' field' (by simp)) h
      obtain ⟨hw, htrail⟩ := ih (by simpa using hlen) (fun f hf => ht f (by simp [hf]))
        (fun f hf => ht' f (by simp [hf])) hfront
      exact ⟨hw, by rw [htrail, hlast]⟩

/-- **A joined text with one free field can be read back.** -/
theorem joined_inj {w w' : List α} {lead lead' trail trail' : List (List α)}
    (hlead : lead.length = lead'.length) (htrail : trail.length = trail'.length)
    (hl : ∀ f ∈ lead, s ∉ f) (hl' : ∀ f ∈ lead', s ∉ f) (ht : ∀ f ∈ trail, s ∉ f)
    (ht' : ∀ f ∈ trail', s ∉ f)
    (h : joined s (lead ++ w :: trail) = joined s (lead' ++ w' :: trail')) :
    lead = lead' ∧ w = w' ∧ trail = trail' := by
  induction lead generalizing lead' with
  | nil =>
    obtain rfl := List.length_eq_zero_iff.mp hlead.symm
    exact ⟨rfl, joined_trail_inj htrail ht ht' h⟩
  | cons field lead ih =>
    cases lead' with
    | nil => simp at hlead
    | cons field' lead' =>
      rw [List.cons_append, List.cons_append, joined_cons s field (by simp),
        joined_cons s field' (by simp)] at h
      obtain ⟨hfield, hrest⟩ := Encoding.append_sep_inj (hl field (by simp)) (hl' field' (by simp)) h
      obtain ⟨hlead', hw, htrail'⟩ := ih (by simpa using hlead) (fun f hf => hl f (by simp [hf]))
        (fun f hf => hl' f (by simp [hf])) hrest
      exact ⟨by rw [hfield, hlead'], hw, htrail'⟩

theorem length_flatten_blocks {n : Nat} {blocks : List (List α)} (h : ∀ b ∈ blocks, b.length = n) :
    blocks.flatten.length = blocks.length * n := by
  rw [List.length_flatten, List.map_congr_left h]
  simp

theorem flatten_blocks_inj {n : Nat} {blocks blocks' : List (List α)}
    (hlen : blocks.length = blocks'.length) (hn : ∀ b ∈ blocks, b.length = n)
    (hn' : ∀ b ∈ blocks', b.length = n) (h : blocks.flatten = blocks'.flatten) : blocks = blocks' := by
  induction blocks generalizing blocks' with
  | nil => exact (List.length_eq_zero_iff.mp hlen.symm).symm
  | cons block blocks ih =>
    cases blocks' with
    | nil => simp at hlen
    | cons block' blocks' =>
      simp only [List.flatten_cons] at h
      have hblock : block.length = block'.length := by rw [hn block (by simp), hn' block' (by simp)]
      obtain ⟨hfirst, hrest⟩ := List.append_inj h hblock
      rw [hfirst, ih (by simpa using hlen) (fun b hb => hn b (by simp [hb]))
        (fun b hb => hn' b (by simp [hb])) hrest]

theorem mapM_some {f : α → Option β} (h : items.mapM f = some blocks) :
    List.Forall₂ (fun item block => f item = some block) items blocks := by
  induction items generalizing blocks with
  | nil =>
    obtain rfl : [] = blocks := Option.some.inj h
    exact .nil
  | cons item items ih =>
    rw [List.mapM_cons] at h
    obtain ⟨block, hblock, h⟩ := Option.bind_eq_some_iff.mp h
    obtain ⟨rest, hrest, h⟩ := Option.bind_eq_some_iff.mp h
    obtain rfl := Option.some.inj h
    exact .cons hblock (ih hrest)

theorem exists_item {R : α → β → Prop} (h : List.Forall₂ R items blocks) {block : β}
    (hmem : block ∈ blocks) : ∃ item ∈ items, R item block := by
  induction h with
  | nil => cases hmem
  | cons hfirst _ ih =>
    rcases List.mem_cons.mp hmem with rfl | hmem
    · exact ⟨_, List.mem_cons_self, hfirst⟩
    · obtain ⟨item, hitem, hblock⟩ := ih hmem
      exact ⟨item, List.mem_cons_of_mem _ hitem, hblock⟩

/-- Items that are written as the same records agree, if any two with one record do. -/
theorem forall₂_of_blocks {f : α → Option β} {R : α → α → Prop} {items' : List α}
    (h : items.mapM f = some blocks) (h' : items'.mapM f = some blocks)
    (hR : ∀ item ∈ items, ∀ item' ∈ items', ∀ block, f item = some block → f item' = some block →
      R item item') : List.Forall₂ R items items' := by
  have hf := mapM_some h
  have hf' := mapM_some h'
  clear h h'
  induction hf generalizing items' with
  | nil =>
    cases hf'
    exact .nil
  | @cons item block items blocks hitem _ ih =>
    cases hf' with
    | @cons item' _ items' _ hitem' hrest =>
      refine .cons (hR item List.mem_cons_self item' List.mem_cons_self block hitem hitem') (ih ?_ hrest)
      intro a ha a' ha'
      exact hR a (List.mem_cons_of_mem _ ha) a' (List.mem_cons_of_mem _ ha')

end

end Lines
