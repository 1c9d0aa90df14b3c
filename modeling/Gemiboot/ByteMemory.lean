import Mathlib

/-!
# Flat byte memories and little-endian words

A memory is a total map from addresses to bytes. Block writes are described
pointwise, so a frame condition is an arithmetic side goal and never a search
through the writes that came before. Words of any width are little-endian.
Unsigned machine arithmetic is carried out on naturals and reduced explicitly.
-/
namespace Gemiboot.ByteMemory

abbrev Memory := ℕ → UInt8

/-- Unsigned 32-bit arithmetic is arithmetic on naturals followed by this. -/
def u32 (n : ℕ) : ℕ := n % 4294967296

theorem u32_of_lt {n : ℕ} (h : n < 4294967296) : u32 n = n := Nat.mod_eq_of_lt h

theorem u32_lt (n : ℕ) : u32 n < 4294967296 := Nat.mod_lt n (by decide)

theorem u32_le (n : ℕ) : u32 n ≤ n := Nat.mod_le n _

/-- Overwrite the `n` bytes from `a` by the first `n` bytes of `src`. -/
def blit (m : Memory) (a n : ℕ) (src : Memory) : Memory :=
  fun x => if a ≤ x ∧ x < a+n then src (x-a) else m x

def fill (m : Memory) (a n : ℕ) (b : UInt8) : Memory := blit m a n fun _ => b

theorem blit_inside {m src : Memory} {a n x : ℕ} (h₁ : a ≤ x) (h₂ : x < a+n) :
    blit m a n src x = src (x-a) := if_pos ⟨h₁,h₂⟩

theorem blit_at {m src : Memory} {a n i : ℕ} (h : i < n) : blit m a n src (a+i) = src i := by
  rw [blit_inside (by omega) (by omega)]
  congr 1
  omega

theorem blit_outside {m src : Memory} {a n x : ℕ} (h : x < a ∨ a+n ≤ x) :
    blit m a n src x = m x := if_neg (by omega)

theorem blit_zero (m : Memory) (a : ℕ) (src : Memory) : blit m a 0 src = m := by
  funext x
  exact blit_outside (by omega)

/-- Two adjacent blocks are one block. -/
theorem blit_append {m src src' : Memory} {a n k : ℕ} (h : ∀ i < k, src' i = src (n+i)) :
    blit (blit m a n src) (a+n) k src' = blit m a (n+k) src := by
  funext x
  by_cases h₁ : a+n ≤ x ∧ x < a+n+k
  · rw [blit_inside h₁.1 h₁.2,blit_inside (by omega) (by omega),h _ (by omega)]
    congr 1
    omega
  · rw [blit_outside (by omega)]
    by_cases h₂ : a ≤ x ∧ x < a+n
    · rw [blit_inside h₂.1 h₂.2,blit_inside h₂.1 (by omega)]
    · rw [blit_outside (by omega),blit_outside (by omega)]

/-- The same at one address, of a memory that only there need hold the first block. -/
theorem blit_extend {m m' src src' : Memory} {a n k x : ℕ} (hm : m' x = blit m a n src x)
    (h : ∀ i < k, src' i = src (n+i)) : blit m' (a+n) k src' x = blit m a (n+k) src x := by
  rw [← blit_append h]
  by_cases hx : a+n ≤ x ∧ x < a+n+k
  · rw [blit_inside hx.1 hx.2,blit_inside hx.1 hx.2]
  · rw [blit_outside (by omega),blit_outside (by omega),hm]

theorem blit_congr {m src src' : Memory} {a n : ℕ} (h : ∀ i < n, src i = src' i) :
    blit m a n src = blit m a n src' := by
  funext x
  by_cases hx : a ≤ x ∧ x < a+n
  · rw [blit_inside hx.1 hx.2,blit_inside hx.1 hx.2,h _ (by omega)]
  · rw [blit_outside (by omega),blit_outside (by omega)]

theorem fill_inside {m : Memory} {a n x : ℕ} {b : UInt8} (h₁ : a ≤ x) (h₂ : x < a+n) :
    fill m a n b x = b := blit_inside h₁ h₂

theorem fill_outside {m : Memory} {a n x : ℕ} {b : UInt8} (h : x < a ∨ a+n ≤ x) :
    fill m a n b x = m x := blit_outside h

/-- The little-endian number held by the `w` bytes from `a`. -/
def load : ℕ → Memory → ℕ → ℕ
  | 0,_,_ => 0
  | w+1,m,a => (m a).toNat+256*load w m (a+1)

/-- Byte `i` of the little-endian spelling of `v`. -/
def byteOf (v i : ℕ) : UInt8 := UInt8.ofNat (v/256^i)

def store (w : ℕ) (m : Memory) (a v : ℕ) : Memory := blit m a w (byteOf v)

/-- A word is made up of a low and a high part. -/
theorem load_add (w v : ℕ) (m : Memory) (a : ℕ) :
    load (w+v) m a = load w m a+256^w*load v m (a+w) := by
  induction w generalizing a with
  | zero => simp [load]
  | succ w ih =>
      have ha : a+1+w = a+(w+1) := by omega
      rw [Nat.succ_add,load,load,ih,ha,pow_succ']
      ring

theorem load_lt (w : ℕ) (m : Memory) (a : ℕ) : load w m a < 256^w := by
  induction w generalizing a with
  | zero => simp [load]
  | succ w ih =>
      have hb := (m a).toNat_lt
      have hr := ih (a+1)
      rw [load,pow_succ]
      omega

theorem load_congr {w : ℕ} {m m' : Memory} {a a' : ℕ}
    (h : ∀ i < w, m (a+i) = m' (a'+i)) : load w m a = load w m' a' := by
  induction w generalizing a a' with
  | zero => rfl
  | succ w ih =>
      have h₀ : m a = m' a' := by simpa using h 0 (by omega)
      have ht : load w m (a+1) = load w m' (a'+1) := by
        apply ih
        intro i hi
        simpa only [Nat.add_assoc,Nat.add_comm 1 i] using h (i+1) (by omega)
      rw [load,load,h₀,ht]

/-- A word determines its bytes. -/
theorem load_inj {w : ℕ} {m m' : Memory} {a a' : ℕ} (h : load w m a = load w m' a') :
    ∀ i < w, m (a+i) = m' (a'+i) := by
  induction w generalizing a a' with
  | zero => omega
  | succ w ih =>
      have hb := (m a).toNat_lt
      have hb' := (m' a').toNat_lt
      rw [load,load] at h
      have h₀ : m a = m' a' := UInt8.toNat.inj (by omega)
      have ht := ih (show load w m (a+1) = load w m' (a'+1) by omega)
      intro i hi
      cases i with
      | zero => exact h₀
      | succ i => simpa only [Nat.add_assoc,Nat.add_comm 1 i] using ht i (by omega)

theorem load_blit_outside {w : ℕ} {m src : Memory} {a n b : ℕ} (h : b+w ≤ a ∨ a+n ≤ b) :
    load w (blit m a n src) b = load w m b :=
  load_congr fun i hi => blit_outside (by omega)

theorem load_store_outside {w v : ℕ} {m : Memory} {a n b : ℕ} (h : b+w ≤ a ∨ a+n ≤ b) :
    load w (store n m a v) b = load w m b := load_blit_outside h

private theorem load_byteOf (w v k : ℕ) :
    load w (byteOf v) k = v/256^k % 256^w := by
  induction w generalizing k with
  | zero => simp [load,Nat.mod_one]
  | succ w ih =>
      have hb : (byteOf v k).toNat = v/256^k % 256 := by simp [byteOf]
      rw [load,ih,hb,pow_succ 256 k,← Nat.div_div_eq_div_mul,pow_succ',Nat.mod_mul]

theorem load_store (w : ℕ) (m : Memory) (a v : ℕ) :
    load w (store w m a v) a = v % 256^w := by
  have h : load w (store w m a v) a = load w (byteOf v) 0 :=
    load_congr fun i hi => by rw [store,blit_at hi,Nat.zero_add]
  rw [h,load_byteOf]
  simp

/-- Reading back a word that was stored in full. -/
theorem load_store_of_lt {w v : ℕ} (m : Memory) (a : ℕ) (h : v < 256^w) :
    load w (store w m a v) a = v := by
  rw [load_store,Nat.mod_eq_of_lt h]

theorem load_zero {w : ℕ} {m : Memory} {a : ℕ} (h : ∀ i < w, m (a+i) = 0) :
    load w m a = 0 := by
  induction w generalizing a with
  | zero => rfl
  | succ w ih =>
      have h₀ : m a = 0 := by simpa using h 0 (by omega)
      have ht : load w m (a+1) = 0 := ih fun i hi => by
        simpa only [Nat.add_assoc,Nat.add_comm 1 i] using h (i+1) (by omega)
      rw [load,h₀,ht]
      rfl

end Gemiboot.ByteMemory
