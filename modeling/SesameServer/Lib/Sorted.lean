import Mathlib.Data.List.Basic

/- Lists in the order of a number, as a query returns the rows of a table by its key. -/
namespace Sorted

variable {α : Type} {key : α → Int} {l : List α}

theorem snoc (h : l.Pairwise fun x y => key x < key y) {x : α}
    (hx : ∀ y ∈ l.getLast?, key y < key x) : (l ++ [x]).Pairwise fun x y => key x < key y := by
  rw [List.pairwise_append]
  refine ⟨h, List.pairwise_singleton _ _, fun y hy z hz => ?_⟩
  rw [List.mem_singleton.mp hz]
  rcases List.eq_nil_or_concat l with rfl | ⟨init, last, rfl⟩
  · cases hy
  · rw [List.concat_eq_append] at *
    have hlast := hx last (by simp)
    rcases List.mem_append.mp hy with hy | hy
    · exact Int.lt_trans ((List.pairwise_append.mp h).2.2 y hy last (by simp)) hlast
    · rw [List.mem_singleton.mp hy]
      exact hlast

theorem split (h : l.Pairwise fun x y => key x < key y) (n : Int) :
    l = l.filter (fun x => key x < n) ++ l.filter fun x => n ≤ key x := by
  induction l with
  | nil => rfl
  | cons x l ih =>
    obtain ⟨hx, h⟩ := List.pairwise_cons.mp h
    by_cases hn : key x < n
    · rw [List.filter_cons_of_pos (by simpa using hn), List.filter_cons_of_neg (by simpa using hn),
        List.cons_append, ← ih h]
    · have hnone : l.filter (fun x => key x < n) = [] := by
        refine List.filter_eq_nil_iff.mpr fun y hy => ?_
        have := hx y hy
        simp
        omega
      have ih := ih h
      rw [hnone, List.nil_append] at ih
      rw [List.filter_cons_of_neg (by simpa using hn), hnone, List.nil_append,
        List.filter_cons_of_pos (by simpa using hn), ← ih]

theorem le_last (h : l.Pairwise fun x y => key x < key y) {x last : α} (hx : x ∈ l)
    (hlast : l.getLast? = some last) : x = last ∨ key x < key last := by
  obtain ⟨init, rfl⟩ := List.getLast?_eq_some_iff.mp hlast
  rcases List.mem_append.mp hx with hx | hx
  · exact .inr ((List.pairwise_append.mp h).2.2 x hx last (by simp))
  · exact .inl (List.mem_singleton.mp hx)

theorem last_eq (h : l.Pairwise fun x y => key x < key y) {x : α} (hx : x ∈ l)
    (hmax : ∀ y ∈ l, key y ≤ key x) : l.getLast? = some x := by
  cases hlast : l.getLast? with
  | none =>
    rw [List.getLast?_eq_none_iff.mp hlast] at hx
    cases hx
  | some last =>
    rcases le_last h hx hlast with rfl | hlt
    · rfl
    · have := hmax last (List.mem_of_getLast? hlast)
      omega

end Sorted
