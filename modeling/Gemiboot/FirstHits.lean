import Mathlib

/-!
# First answers

A search asks the places 0, 1, 2, … in turn until one of them answers. A search in
blocks, where each block is asked place by place, is the search of all places.
-/
namespace Gemiboot.FirstHits

variable {β : Type*} {u v : ℕ → Option β} {r : β}

/-- Place `n` answers, and none before it. -/
def FirstHit (v : ℕ → Option β) (n : ℕ) (r : β) : Prop := v n = some r ∧ ∀ j < n, v j = none

theorem FirstHit.unique {n n' : ℕ} {r' : β} (h : FirstHit v n r) (h' : FirstHit v n' r') :
    n = n' ∧ r = r' := by
  obtain rfl : n = n' := by
    rcases Nat.lt_trichotomy n n' with hlt | heq | hlt
    · have hnone := h'.2 n hlt
      rw [h.1] at hnone
      cases hnone
    · exact heq
    · have hnone := h.2 n' hlt
      rw [h'.1] at hnone
      cases hnone
  exact ⟨rfl,Option.some.inj (h.1.symm.trans h'.1)⟩

theorem findSome?_range'_congr {s n : ℕ} (h : ∀ i, s ≤ i → i < s+n → u i = v i) :
    (List.range' s n).findSome? u = (List.range' s n).findSome? v := by
  induction n generalizing s with
  | zero => rfl
  | succ n ih =>
      rw [List.range'_succ,List.findSome?_cons,List.findSome?_cons,h s le_rfl (by omega),
        ih fun i h₁ h₂ => h i (by omega) (by omega)]

theorem findSome?_range'_shift (a n : ℕ) : (List.range' a n).findSome? v =
    (List.range' 0 n).findSome? fun i => v (a+i) := by
  rw [← Nat.add_zero a,← List.map_add_range',List.findSome?_map,Nat.add_zero]
  rfl

/-- A search that gets the same answer everywhere. -/
theorem findSome?_range'_const {s n : ℕ} (hn : 0 < n) (h : ∀ i, s ≤ i → i < s+n → v i = some r) :
    (List.range' s n).findSome? v = some r := by
  obtain ⟨n,rfl⟩ := Nat.exists_eq_succ_of_ne_zero hn.ne'
  rw [List.range'_succ,List.findSome?_cons,h s le_rfl (by omega)]

theorem findSome?_range'_none {s n : ℕ} :
    (List.range' s n).findSome? v = none ↔ ∀ i, s ≤ i → i < s+n → v i = none := by
  rw [List.findSome?_eq_none_iff]
  simp only [List.mem_range'_1,and_imp]

theorem findSome?_range'_some {s n : ℕ} : (List.range' s n).findSome? v = some r ↔
    ∃ i, s ≤ i ∧ i < s+n ∧ v i = some r ∧ ∀ j, s ≤ j → j < i → v j = none := by
  induction n generalizing s with
  | zero =>
      constructor
      · intro h
        cases h
      · intro h
        obtain ⟨i,h₁,h₂,-⟩ := h
        omega
  | succ n ih =>
      rw [List.range'_succ,List.findSome?_cons]
      cases hs : v s with
      | some r' =>
          constructor
          · intro h
            exact ⟨s,le_rfl,by omega,hs.trans h,fun j h₁ h₂ => by omega⟩
          · intro h
            obtain ⟨i,h₁,-,hi,hbefore⟩ := h
            obtain rfl : s = i := by
              by_contra hne
              have hnone := hbefore s le_rfl (by omega)
              rw [hs] at hnone
              cases hnone
            exact hs.symm.trans hi
      | none =>
          change (List.range' (s+1) n).findSome? v = some r ↔ _
          rw [ih]
          constructor
          · intro h
            obtain ⟨i,h₁,h₂,hi,hbefore⟩ := h
            refine ⟨i,by omega,by omega,hi,fun j hj₁ hj₂ => ?_⟩
            rcases Nat.eq_or_lt_of_le hj₁ with rfl | hlt
            · exact hs
            · exact hbefore j hlt hj₂
          · intro h
            obtain ⟨i,h₁,h₂,hi,hbefore⟩ := h
            have hne : s ≠ i := by
              intro heq
              rw [← heq,hs] at hi
              cases hi
            exact ⟨i,by omega,by omega,hi,fun j hj₁ hj₂ => hbefore j (by omega) hj₂⟩

/-- A finite part of the search gives the first answer if it is long enough. -/
theorem findSome?_range_some {n : ℕ} : (List.range' 0 n).findSome? v = some r ↔
    ∃ i < n, FirstHit v i r := by
  rw [findSome?_range'_some]
  simp only [Nat.zero_le,true_and,Nat.zero_add,forall_const,FirstHit]

theorem FirstHit.eq_iff {n : ℕ} (h : FirstHit v n r) {r' : β} : r = r' ↔ ∃ k, FirstHit v k r' := by
  constructor
  · intro heq
    exact ⟨n,heq ▸ h⟩
  · intro hk
    obtain ⟨k,hk⟩ := hk
    exact (h.unique hk).2

/-- The first answering block is the block of the first answering place. -/
theorem firstHit_blocks {b : ℕ} (hb : 0 < b) (h : ∀ k, u k = (List.range' (b*k) b).findSome? v) {k : ℕ} :
    FirstHit u k r ↔ ∃ n, n/b = k ∧ FirstHit v n r := by
  have hnone : (∀ j < k, u j = none) ↔ ∀ i < b*k, v i = none := by
    constructor
    · intro hu i hi
      have hj : i/b < k := Nat.div_lt_of_lt_mul hi
      have hblock := hu _ hj
      rw [h,findSome?_range'_none] at hblock
      exact hblock i (Nat.mul_div_le i b) (Nat.lt_mul_div_succ i hb)
    · intro hv j hj
      rw [h,findSome?_range'_none]
      intro i _ hi
      apply hv
      calc i < b*j+b := hi
        _ = b*(j+1) := by ring
        _ ≤ b*k := Nat.mul_le_mul_left b hj
  unfold FirstHit
  rw [hnone,h,findSome?_range'_some]
  constructor
  · intro hk
    obtain ⟨⟨i,h₁,h₂,hi,hbefore⟩,hbefore'⟩ := hk
    refine ⟨i,?_,hi,fun j hj => ?_⟩
    · rw [Nat.div_eq_iff hb]
      constructor
      · rwa [Nat.mul_comm]
      · rw [Nat.mul_comm k b]
        omega
    · by_cases hlt : j < b*k
      · exact hbefore' j hlt
      · exact hbefore j (by omega) hj
  · intro hn
    obtain ⟨n,rfl,hn,hbefore⟩ := hn
    have hle := Nat.mul_div_le n b
    have hlt : n < b*(n/b)+b := Nat.lt_mul_div_succ n hb
    exact ⟨⟨n,hle,hlt,hn,fun j _ hj => hbefore j hj⟩,fun i hi => hbefore i (by omega)⟩

theorem exists_firstHit_blocks {b : ℕ} (hb : 0 < b)
    (h : ∀ k, u k = (List.range' (b*k) b).findSome? v) :
    (∃ k, FirstHit u k r) ↔ ∃ n, FirstHit v n r := by
  simp only [firstHit_blocks hb h]
  constructor
  · intro hk
    obtain ⟨k,n,-,hn⟩ := hk
    exact ⟨n,hn⟩
  · intro hn
    obtain ⟨n,hn⟩ := hn
    exact ⟨n/b,n,rfl,hn⟩

end Gemiboot.FirstHits
