import Mathlib

/-!
# Walks that come back

A function iterated from a point. As long as a property with finitely many points
holds along the walk, the walk goes on forever exactly when it comes back to a point
where it was before.
-/
namespace Gemiboot.Walks

variable {α : Type*} {f : α → α} {P : α → Prop} {x : α}

/-- The walk is at the same point twice, with the property at every point before. -/
def Returns (f : α → α) (P : α → Prop) (x : α) : Prop :=
  ∃ i j, i < j ∧ f^[i] x = f^[j] x ∧ ∀ k < j, P (f^[k] x)

theorem Returns.forever (h : Returns f P x) (n : ℕ) : P (f^[n] x) := by
  obtain ⟨i,j,hij,heq,hP⟩ := h
  induction n using Nat.strong_induction_on with
  | _ n ih =>
      by_cases hn : n < j
      · exact hP n hn
      · have hback : f^[n] x = f^[n-j+i] x := by
          rw [Function.iterate_add_apply,heq,← Function.iterate_add_apply]
          congr 1
          omega
        rw [hback]
        exact ih (n-j+i) (by omega)

theorem returns_of_forever (hfin : {a | P a}.Finite) (h : ∀ n, P (f^[n] x)) : Returns f P x := by
  have := hfin.to_subtype
  obtain ⟨i,j,hne,heq⟩ := Finite.exists_ne_map_eq_of_infinite
    fun n => (⟨f^[n] x,h n⟩ : {a | P a})
  have heq' : f^[i] x = f^[j] x := congrArg Subtype.val heq
  rcases Nat.lt_or_gt_of_ne hne with hij | hji
  · exact ⟨i,j,hij,heq',fun k _ => h k⟩
  · exact ⟨j,i,hji,heq'.symm,fun k _ => h k⟩

theorem forever_iff_returns (hfin : {a | P a}.Finite) : (∀ n, P (f^[n] x)) ↔ Returns f P x :=
  ⟨returns_of_forever hfin,fun h => h.forever⟩

end Gemiboot.Walks
