import Mathlib

/-!
# Decimal texts

The decimal text of a number, the most significant digit first and zero as a single
digit, and the number a text reads back to. Bytes are ASCII.
-/
namespace Gemiboot.DecimalText

def zeroChar : UInt8 := 0x30

/-- The character of a digit below ten. -/
def digitChar (d : ℕ) : UInt8 := UInt8.ofNat (48+d)

/-- The digits of `n` as characters, the least significant first and none for zero. -/
def reversedDigits (n : ℕ) : List UInt8 := (Nat.digits 10 n).map digitChar

def decimal (n : ℕ) : List UInt8 := if n = 0 then [zeroChar] else (reversedDigits n).reverse

/-- What a text of digits is worth. -/
def valueOf (cs : List UInt8) : ℕ := cs.foldl (fun v c => 10*v+(c.toNat-48)) 0

def IsDigit (c : UInt8) : Prop := 0x30 ≤ c ∧ c ≤ 0x39

theorem digitChar_toNat {d : ℕ} (h : d < 10) : (digitChar d).toNat = 48+d := by
  rw [digitChar,UInt8.toNat_ofNat']
  exact Nat.mod_eq_of_lt (by omega)

theorem digitChar_isDigit {d : ℕ} (h : d < 10) : IsDigit (digitChar d) := by
  have hd := digitChar_toNat h
  constructor
  · rw [UInt8.le_iff_toNat_le,hd]
    exact Nat.le_add_right 48 d
  · rw [UInt8.le_iff_toNat_le,hd]
    exact Nat.add_le_add_left (Nat.le_of_lt_succ h) 48

theorem reversedDigits_step {n : ℕ} (h : 0 < n) :
    reversedDigits n = digitChar (n%10)::reversedDigits (n/10) := by
  rw [reversedDigits,Nat.digits_def' (by norm_num) h,List.map_cons,reversedDigits]

theorem reversedDigits_zero : reversedDigits 0 = [] := rfl

theorem reversedDigits_length {n k : ℕ} (h : n < 10^k) : (reversedDigits n).length ≤ k := by
  rw [reversedDigits,List.length_map]
  exact (Nat.digits_length_le_iff (by norm_num) n).mpr h

theorem reversedDigits_isDigit {n : ℕ} : ∀ c ∈ reversedDigits n, IsDigit c := by
  intro c hc
  rcases List.mem_map.mp hc with ⟨d,hd,rfl⟩
  exact digitChar_isDigit (Nat.digits_lt_base (by norm_num) hd)

theorem decimal_isDigit (n : ℕ) : ∀ c ∈ decimal n, IsDigit c := by
  intro c hc
  unfold decimal at hc
  split_ifs at hc with h
  · rw [List.mem_singleton.mp hc]
    exact digitChar_isDigit (show 0 < 10 by norm_num)
  · exact reversedDigits_isDigit c (List.mem_reverse.mp hc)

/-- Reading digits from the least significant end. -/
theorem valueOf_reversedDigits (n : ℕ) : valueOf (reversedDigits n).reverse = n := by
  induction n using Nat.strong_induction_on with
  | _ n ih =>
      rcases Nat.eq_zero_or_pos n with rfl | h
      · rfl
      · have hrest := ih (n/10) (Nat.div_lt_self h (by norm_num))
        have hd := digitChar_toNat (Nat.mod_lt n (show 0 < 10 by norm_num))
        rw [valueOf] at hrest ⊢
        rw [reversedDigits_step h,List.reverse_cons,List.foldl_append,hrest,List.foldl_cons,
          List.foldl_nil,hd]
        omega

theorem valueOf_decimal (n : ℕ) : valueOf (decimal n) = n := by
  unfold decimal
  split_ifs with h
  · rw [h]
    rfl
  · exact valueOf_reversedDigits n

/-- Only zero begins with a zero, and its text has nothing else. -/
theorem decimal_head {n : ℕ} (h : n ≠ 0) : (decimal n).head? ≠ some zeroChar := by
  rw [decimal,if_neg h,List.head?_reverse,reversedDigits,List.getLast?_map]
  intro hlast
  rcases Option.map_eq_some_iff.mp hlast with ⟨d,hd,hz⟩
  have hne : Nat.digits 10 n ≠ [] := Nat.digits_ne_nil_iff_ne_zero.mpr h
  rw [List.getLast?_eq_some_getLast hne,Option.some_inj] at hd
  have hd10 : d < 10 := by
    rw [← hd]
    exact Nat.digits_lt_base (by norm_num) (List.getLast_mem hne)
  have hd0 : d = 0 := by
    have hval := digitChar_toNat hd10
    rw [hz] at hval
    change 48 = 48+d at hval
    omega
  exact Nat.getLast_digit_ne_zero 10 h (hd.trans hd0)

theorem decimal_zero : decimal 0 = [zeroChar] := rfl

/-- A digit is neither a terminator nor a line end. -/
theorem IsDigit.ne {c : UInt8} (h : IsDigit c) : c ≠ 0 ∧ c ≠ 0x0A := by
  constructor
  · rintro rfl
    exact absurd h.1 (by decide)
  · rintro rfl
    exact absurd h.1 (by decide)

end Gemiboot.DecimalText
