import Mathlib

/-!
# Aligned windows from the top down

A bump allocator that moves down from a limit: each item gets the highest window
of its size, at a multiple of the size, below the window given out before. While
the space lasts the windows are disjoint. For a power of two the alignment is the
usual clearing of low bits.
-/
namespace Gemiboot.Packing

/-- The highest multiple of `n` from which `n` addresses end by `top`. -/
def place (top n : ℕ) : ℕ := (top-n)/n*n

theorem place_dvd (top n : ℕ) : n ∣ place top n := Dvd.intro_left _ rfl

theorem place_add_le {top n : ℕ} (h : n ≤ top) : place top n+n ≤ top := by
  have hle : place top n ≤ top-n := Nat.div_mul_le_self _ _
  omega

theorem lt_place_add (top : ℕ) {n : ℕ} (hn : 0 < n) : top < place top n+2*n := by
  have hlt : top-n < place top n+n := by
    have h := Nat.lt_div_mul_add hn (a := top-n)
    exact h
  omega

/-- Clearing the low bits rounds down to a multiple of the power of two. -/
theorem ldiff_mask (x n : ℕ) : x.ldiff (2^n-1) = x/2^n*2^n := by
  apply Nat.eq_of_testBit_eq
  intro i
  rw [Nat.testBit_ldiff,Nat.testBit_two_pow_sub_one,Nat.testBit_mul_two_pow,Nat.testBit_div_two_pow]
  by_cases hi : i < n
  · simp [hi,Nat.not_le_of_lt hi]
  · have hle : n ≤ i := Nat.le_of_not_lt hi
    simp [hi,hle,Nat.sub_add_cancel hle]

section Windows
variable {γ : Type*} (size : γ → ℕ)

/-- The items with the bases of their windows. -/
def windows : ℕ → List γ → List (γ × ℕ)
  | _,[] => []
  | top,c::cs => (c,place top (size c))::windows (place top (size c)) cs

/-- No item is larger than the space that is left for it. -/
def Fits : ℕ → List γ → Prop
  | _,[] => True
  | top,c::cs => 0 < size c ∧ size c ≤ top ∧ Fits (place top (size c)) cs

variable {size}

theorem windows_map_fst (size : γ → ℕ) (top : ℕ) (cs : List γ) :
    (windows size top cs).map Prod.fst = cs := by
  induction cs generalizing top with
  | nil => rfl
  | cons c cs ih => rw [windows,List.map_cons,ih]

theorem windows_dvd {top : ℕ} {cs : List γ} {p : γ × ℕ} (hp : p ∈ windows size top cs) :
    size p.1 ∣ p.2 := by
  induction cs generalizing top with
  | nil => cases hp
  | cons c cs ih =>
      rcases List.mem_cons.mp hp with rfl | hp
      · exact place_dvd top (size c)
      · exact ih hp

theorem windows_le {top : ℕ} {cs : List γ} (h : Fits size top cs) {p : γ × ℕ}
    (hp : p ∈ windows size top cs) : p.2+size p.1 ≤ top := by
  induction cs generalizing top with
  | nil => cases hp
  | cons c cs ih =>
      obtain ⟨-,hle,hfit⟩ := h
      have hc := place_add_le hle
      rcases List.mem_cons.mp hp with rfl | hp
      · exact hc
      · have := ih hfit hp
        omega

/-- Every window ends by the base of each one before it. -/
theorem windows_pairwise {top : ℕ} {cs : List γ} (h : Fits size top cs) :
    (windows size top cs).Pairwise fun p q => q.2+size q.1 ≤ p.2 := by
  induction cs generalizing top with
  | nil => exact .nil
  | cons c cs ih => exact .cons (fun q hq => windows_le h.2.2 hq) (ih h.2.2)

/-- Windows of different items are disjoint. -/
theorem windows_disjoint {top : ℕ} {cs : List γ} (h : Fits size top cs) {p q : γ × ℕ}
    (hp : p ∈ windows size top cs) (hq : q ∈ windows size top cs) (hpq : p ≠ q) :
    Disjoint (Set.Ico p.2 (p.2+size p.1)) (Set.Ico q.2 (q.2+size q.1)) := by
  let apart := fun p q : γ × ℕ =>
    Disjoint (Set.Ico p.2 (p.2+size p.1)) (Set.Ico q.2 (q.2+size q.1))
  have hsymm : Std.Symm apart := ⟨fun _ _ hd => hd.symm⟩
  have hall : (windows size top cs).Pairwise apart := by
    apply (windows_pairwise h).imp
    intro p q hle
    apply Set.disjoint_left.mpr
    intro x hx hx'
    have h₁ := hx.1
    have h₂ := hx'.2
    omega
  exact hall.forall hp hq hpq

end Windows

end Gemiboot.Packing
