import Mathlib

/-!
# Chains in a successor table

A table maps every node to its successor, and a predicate on table values marks
the end of a chain. A chain is a finite derivation, so a listed chain is always
acyclic and is determined by its first node. A run of consecutive numbers in
which every node points at the next one is the chain a bump allocator builds.
-/
namespace Gemiboot.LinkedChains

section General
variable {A : Type*} {next : A → A} {stop : A → Prop}

inductive Chain (next : A → A) (stop : A → Prop) : A → List A → Prop
  | last {c : A} : stop (next c) → Chain next stop c [c]
  | link {c : A} {l : List A} : ¬stop (next c) → Chain next stop (next c) l →
      Chain next stop c (c::l)

theorem Chain.head_mem {c : A} {l : List A} (h : Chain next stop c l) : c ∈ l := by
  cases h <;> simp

/-- The table is a function, so the first node fixes the whole chain. -/
theorem Chain.unique {c : A} {l l' : List A} (h : Chain next stop c l)
    (h' : Chain next stop c l') : l = l' := by
  induction h generalizing l' with
  | last hs =>
      cases h' with
      | last _ => rfl
      | link hn _ => exact (hn hs).elim
  | link hn _ ih =>
      cases h' with
      | last hs => exact (hn hs).elim
      | link _ ht => rw [ih ht]

theorem Chain.subchain {c d : A} {l : List A} (h : Chain next stop c l) (hd : d ∈ l) :
    ∃ l', Chain next stop d l' ∧ l'.length ≤ l.length := by
  induction h with
  | last hs =>
      obtain rfl := List.mem_singleton.mp hd
      exact ⟨_,.last hs,le_rfl⟩
  | @link c l hn ht ih =>
      rcases List.mem_cons.mp hd with rfl | hd
      · exact ⟨_,.link hn ht,le_rfl⟩
      · obtain ⟨l',h',hl⟩ := ih hd
        exact ⟨l',h',by simp only [List.length_cons]; omega⟩

/-- A chain that ends never returns to a node it has left. -/
theorem Chain.nodup {c : A} {l : List A} (h : Chain next stop c l) : l.Nodup := by
  induction h with
  | last _ => simp
  | @link c l hn ht ih =>
      refine List.nodup_cons.mpr ⟨?_,ih⟩
      intro hc
      obtain ⟨l',h',hl⟩ := ht.subchain hc
      have he : c::l = l' := Chain.unique (.link hn ht) h'
      rw [← he,List.length_cons] at hl
      omega

end General

section Runs
variable {next : ℕ → ℕ} {stop : ℕ → Prop}

/-- Consecutive nodes, each pointing at its successor and the last one stopping. -/
theorem chain_run (a n : ℕ) (hl : ∀ c, a ≤ c → c < a+n → next c = c+1)
    (hn : ∀ c, a < c → c ≤ a+n → ¬stop c) (hs : stop (next (a+n))) :
    Chain next stop a (List.range' a (n+1)) := by
  induction n generalizing a with
  | zero => exact .last hs
  | succ n ih =>
      have ha : next a = a+1 := hl a le_rfl (by omega)
      have ht := ih (a+1) (fun c h₁ h₂ => hl c (by omega) (by omega))
        (fun c h₁ h₂ => hn c (by omega) (by omega))
        (by rwa [show a+1+n = a+(n+1) by omega])
      rw [List.range'_succ]
      refine .link ?_ ?_
      · rw [ha]
        exact hn (a+1) (by omega) (by omega)
      · rwa [ha]

end Runs

end Gemiboot.LinkedChains
