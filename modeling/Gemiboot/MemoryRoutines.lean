import Gemiboot.ByteMemory

/-!
# memcpy, memset and memmove

The byte loops of `common/string.c` in an address space of `w` bytes. A forward
copy equals a block write of `f` as soon as every source byte still is its byte
of `f` when the loop comes to it, whether or not the two ranges overlap.
-/
namespace Gemiboot.MemoryRoutines
open ByteMemory

/-- `for (i = 0; i < n; i++) d[i] = s[i]`, from index `i` on. -/
def memcpyFrom (w dest src : ℕ) : ℕ → ℕ → Memory → Memory
  | 0,_,m => m
  | n+1,i,m => memcpyFrom w dest src n (i+1) (Function.update m ((dest+i)%w) (m ((src+i)%w)))

def memcpy (w : ℕ) (m : Memory) (dest src n : ℕ) : Memory := memcpyFrom w dest src n 0 m

def memsetFrom (w dest : ℕ) (val : UInt8) : ℕ → ℕ → Memory → Memory
  | 0,_,m => m
  | n+1,i,m => memsetFrom w dest val n (i+1) (Function.update m ((dest+i)%w) val)

def memset (w : ℕ) (m : Memory) (dest : ℕ) (val : UInt8) (n : ℕ) : Memory :=
  memsetFrom w dest val n 0 m

/-- `for (i = n; i > 0; i--) d[i - 1] = s[i - 1]`. -/
def memmoveBack (w dest src : ℕ) : ℕ → Memory → Memory
  | 0,m => m
  | i+1,m => memmoveBack w dest src i (Function.update m ((dest+i)%w) (m ((src+i)%w)))

def memmove (w : ℕ) (m : Memory) (dest src n : ℕ) : Memory :=
  if dest < src then memcpyFrom w dest src n 0 m
  else if dest > src then memmoveBack w dest src n m
  else m

theorem update_blit (m : Memory) (a i : ℕ) (f : Memory) :
    Function.update (blit m a i f) (a+i) (f i) = blit m a (i+1) f := by
  funext x
  by_cases hx : x = a+i
  · subst hx
    rw [Function.update_self,blit_at (Nat.lt_succ_self i)]
  · rw [Function.update_of_ne hx]
    by_cases h : a ≤ x ∧ x < a+i
    · rw [blit_inside h.1 h.2,blit_inside h.1 (by omega)]
    · rw [blit_outside (by omega),blit_outside (by omega)]

/-- The loop invariant of the copy: `i` bytes of `f` are in place. -/
theorem memcpyFrom_eq {w dest src : ℕ} {m f : Memory} (n i : ℕ) (hd : dest+(i+n) ≤ w)
    (hs : src+(i+n) ≤ w) (hsrc : ∀ t < i+n, m (src+t) = f t)
    (hov : ∀ t < i+n, ∀ u < t, dest+u = src+t → f u = f t) :
    memcpyFrom w dest src n i (blit m dest i f) = blit m dest (i+n) f := by
  induction n generalizing i with
  | zero => rfl
  | succ n ih =>
      have hread : blit m dest i f (src+i) = f i := by
        by_cases h : dest ≤ src+i ∧ src+i < dest+i
        · rw [blit_inside h.1 h.2]
          exact hov i (by omega) (src+i-dest) (by omega) (by omega)
        · rw [blit_outside (by omega)]
          exact hsrc i (by omega)
      rw [memcpyFrom,Nat.mod_eq_of_lt (show dest+i < w by omega),
        Nat.mod_eq_of_lt (show src+i < w by omega),hread,update_blit]
      have hstep := ih (i+1) (by omega) (by omega) (fun t ht => hsrc t (by omega))
        (fun t ht => hov t (by omega))
      rwa [Nat.add_right_comm i 1 n] at hstep

theorem memcpy_eq_blit {w dest src n : ℕ} {m f : Memory} (hd : dest+n ≤ w) (hs : src+n ≤ w)
    (hsrc : ∀ t < n, m (src+t) = f t)
    (hov : ∀ t < n, ∀ u < t, dest+u = src+t → f u = f t) :
    memcpy w m dest src n = blit m dest n f := by
  have h := memcpyFrom_eq n 0 (show dest+(0+n) ≤ w by omega) (show src+(0+n) ≤ w by omega)
    (fun t ht => hsrc t (by omega)) (fun t ht => hov t (by omega))
  rwa [blit_zero,Nat.zero_add] at h

/-! Writes that may wrap: an address none of them hits. -/

theorem memcpyFrom_outside {w dest src x : ℕ} (n i : ℕ) (m : Memory)
    (h : ∀ t < n, (dest+(i+t))%w ≠ x) : memcpyFrom w dest src n i m x = m x := by
  induction n generalizing i m with
  | zero => rfl
  | succ n ih =>
      have hhere : x ≠ (dest+i)%w := (h 0 (Nat.succ_pos n)).symm
      rw [memcpyFrom,ih (i+1),Function.update_of_ne hhere]
      intro t ht
      have hnext := h (t+1) (by omega)
      rwa [Nat.add_right_comm i 1 t]

theorem memcpy_outside {w dest src n x : ℕ} {m : Memory} (h : ∀ t < n, (dest+t)%w ≠ x) :
    memcpy w m dest src n x = m x := by
  apply memcpyFrom_outside
  intro t ht
  rw [Nat.zero_add]
  exact h t ht

theorem memsetFrom_outside {w dest x : ℕ} {val : UInt8} (n i : ℕ) (m : Memory)
    (h : ∀ t < n, (dest+(i+t))%w ≠ x) : memsetFrom w dest val n i m x = m x := by
  induction n generalizing i m with
  | zero => rfl
  | succ n ih =>
      have hhere : x ≠ (dest+i)%w := (h 0 (Nat.succ_pos n)).symm
      rw [memsetFrom,ih (i+1),Function.update_of_ne hhere]
      intro t ht
      have hnext := h (t+1) (by omega)
      rwa [Nat.add_right_comm i 1 t]

theorem memset_outside {w dest n x : ℕ} {val : UInt8} {m : Memory}
    (h : ∀ t < n, (dest+t)%w ≠ x) : memset w m dest val n x = m x := by
  apply memsetFrom_outside
  intro t ht
  rw [Nat.zero_add]
  exact h t ht

theorem memmove_zero (w : ℕ) (m : Memory) (dest src : ℕ) : memmove w m dest src 0 = m := by
  unfold memmove
  split_ifs <;> rfl

/-- Moving down: a byte is read before the copy comes to its place. -/
theorem memmove_down {w dest src n : ℕ} {m : Memory} (h : dest < src) (hs : src+n ≤ w) :
    memmove w m dest src n = blit m dest n fun t => m (src+t) := by
  rw [memmove,if_pos h]
  exact memcpy_eq_blit (by omega) hs (fun _ _ => rfl) fun t ht u hu hover => by omega

/-- The byte next below a copied block joins it. -/
theorem update_blit_below (m : Memory) (a n : ℕ) (f : Memory) :
    Function.update (blit m (a+1) n fun t => f (t+1)) a (f 0) = blit m a (n+1) f := by
  funext x
  rcases lt_trichotomy x a with h | h | h
  · rw [Function.update_of_ne (by omega),blit_outside (by omega),blit_outside (by omega)]
  · subst h
    rw [Function.update_self,blit_inside (by omega) (by omega),Nat.sub_self]
  · rw [Function.update_of_ne (by omega)]
    by_cases hx : x < a+(n+1)
    · rw [blit_inside (by omega) (by omega),blit_inside (by omega) hx]
      congr 1
      omega
    · rw [blit_outside (by omega),blit_outside (by omega)]

/-- The loop invariant of the backward copy: the bytes from `i` on are in place,
and below `dest+i` the memory is as it was, so every byte still to be read is. -/
theorem memmoveBack_eq {w dest src : ℕ} {m : Memory} (h : src ≤ dest) (i n : ℕ)
    (hd : dest+(i+n) ≤ w) :
    memmoveBack w dest src i (blit m (dest+i) n fun t => m (src+i+t)) =
      blit m dest (i+n) fun t => m (src+t) := by
  induction i generalizing n with
  | zero => simp only [memmoveBack,Nat.add_zero,Nat.zero_add]
  | succ i ih =>
      have hread : blit m (dest+(i+1)) n (fun t => m (src+(i+1)+t)) (src+i) = m (src+i) :=
        blit_outside (by omega)
      have hstep := update_blit_below m (dest+i) n fun t => m (src+i+t)
      have hshift : (fun t => m (src+(i+1)+t)) = fun t => m (src+i+(t+1)) := by
        funext t
        congr 1
        omega
      rw [memmoveBack,Nat.mod_eq_of_lt (show dest+i < w by omega),
        Nat.mod_eq_of_lt (show src+i < w by omega),hread,hshift]
      change memmoveBack w dest src i (Function.update (blit m (dest+i+1) n _) _ (m (src+i+0))) = _
      rw [hstep,ih (n+1) (by omega)]
      congr 1
      omega

/-- Moving up: the copy runs from the end, and a byte is again read before its
place is written. -/
theorem memmove_up {w dest src n : ℕ} {m : Memory} (h : src < dest) (hd : dest+n ≤ w) :
    memmove w m dest src n = blit m dest n fun t => m (src+t) := by
  have hback := memmoveBack_eq (m := m) (Nat.le_of_lt h) n 0 (show dest+(n+0) ≤ w by omega)
  rw [blit_zero,Nat.add_zero] at hback
  rw [memmove,if_neg (by omega),if_pos h]
  exact hback

theorem memmove_same (w : ℕ) (m : Memory) (dest n : ℕ) : memmove w m dest dest n = m := by
  rw [memmove,if_neg (Nat.lt_irrefl dest),if_neg (Nat.lt_irrefl dest)]

theorem blit_same (m : Memory) (a n : ℕ) : (blit m a n fun t => m (a+t)) = m := by
  funext x
  by_cases h : a ≤ x ∧ x < a+n
  · rw [blit_inside h.1 h.2,Nat.add_sub_cancel' h.1]
  · rw [blit_outside (by omega)]

/-- Whatever the order of the two ranges, the block read before the call is written. -/
theorem memmove_eq_blit {w dest src n : ℕ} {m : Memory} (hd : dest+n ≤ w) (hs : src+n ≤ w) :
    memmove w m dest src n = blit m dest n fun t => m (src+t) := by
  rcases lt_trichotomy dest src with h | h | h
  · exact memmove_down h hs
  · rw [h,memmove_same,blit_same]
  · exact memmove_up h hd

theorem memcpy_eq_memmove {w dest src n : ℕ} {m : Memory} (hd : dest+n ≤ w) (hs : src+n ≤ w)
    (h : dest+n ≤ src ∨ src+n ≤ dest ∨ dest ≤ src) :
    memcpy w m dest src n = memmove w m dest src n := by
  rw [memmove_eq_blit hd hs]
  apply memcpy_eq_blit hd hs
  · intro t ht
    rfl
  · intro t ht u hu hover
    exfalso
    omega

theorem memsetFrom_eq {w dest : ℕ} (m : Memory) (val : UInt8) (n i : ℕ) (hd : dest+(i+n) ≤ w) :
    memsetFrom w dest val n i (fill m dest i val) = fill m dest (i+n) val := by
  induction n generalizing i with
  | zero => rfl
  | succ n ih =>
      have hstep := ih (i+1) (by omega)
      rw [memsetFrom,Nat.mod_eq_of_lt (show dest+i < w by omega),fill,
        update_blit m dest i fun _ => val]
      rwa [Nat.add_right_comm i 1 n] at hstep

theorem memset_eq_fill {w dest n : ℕ} {m : Memory} {val : UInt8} (hd : dest+n ≤ w) :
    memset w m dest val n = fill m dest n val := by
  have h := memsetFrom_eq m val n 0 (show dest+(0+n) ≤ w by omega)
  rwa [fill,blit_zero,Nat.zero_add] at h

/-- After `memmove` the destination holds what the source held before the call and
nothing else has changed, whether the ranges are disjoint, equal or overlap in
either direction. `memcpy` agrees unless the destination begins inside the source. -/
theorem memmove_copies {w dest src n : ℕ} (m : Memory) (hd : dest+n ≤ w) (hs : src+n ≤ w) :
    (∀ i < n, memmove w m dest src n (dest+i) = m (src+i)) ∧
      (∀ x, x < dest ∨ dest+n ≤ x → memmove w m dest src n x = m x) ∧
      (dest+n ≤ src ∨ src+n ≤ dest ∨ dest ≤ src →
        memcpy w m dest src n = memmove w m dest src n) := by
  constructor
  · intro i hi
    rw [memmove_eq_blit hd hs,blit_at hi]
  · constructor
    · intro x hx
      rw [memmove_eq_blit hd hs,blit_outside hx]
    · exact memcpy_eq_memmove hd hs

/-- An upward move inside its own source, in a space of 16 bytes that hold their addresses. -/
theorem memmove_copies_up :
    memmove 16 UInt8.ofNat 6 4 5 10 = 8 ∧ memmove 16 UInt8.ofNat 6 4 5 5 = 5 := by
  have h := memmove_copies UInt8.ofNat (show 6+5 ≤ 16 by decide) (show 4+5 ≤ 16 by decide)
  constructor
  · exact h.1 4 (by decide)
  · exact h.2.1 5 (by decide)

end Gemiboot.MemoryRoutines
