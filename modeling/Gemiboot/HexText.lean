import Mathlib

/-!
# Hexadecimal texts

The last `w` hexadecimal digits of a number, the most significant first, as upper-case
ASCII, and the number such a text reads back to.
-/
namespace Gemiboot.HexText

/-- The character of a digit below sixteen. -/
def hexChar (d : ℕ) : UInt8 := if d < 10 then UInt8.ofNat (48+d) else UInt8.ofNat (55+d)

def hexText (w n : ℕ) : List UInt8 := (List.range w).map fun i => hexChar (n/16^(w-1-i)%16)

def hexDigitOf (c : UInt8) : ℕ := if c.toNat < 58 then c.toNat-48 else c.toNat-55

/-- What a text of hexadecimal digits is worth. -/
def hexValue (cs : List UInt8) : ℕ := cs.foldl (fun v c => 16*v+hexDigitOf c) 0

theorem hexChar_toNat {d : ℕ} (h : d < 16) :
    (hexChar d).toNat = if d < 10 then 48+d else 55+d := by
  unfold hexChar
  split_ifs
  · exact Nat.mod_eq_of_lt (by omega)
  · exact Nat.mod_eq_of_lt (by omega)

theorem hexDigitOf_hexChar {d : ℕ} (h : d < 16) : hexDigitOf (hexChar d) = d := by
  rw [hexDigitOf,hexChar_toNat h]
  split_ifs <;> omega

/-- A digit or one of the letters A to F; in particular no terminator and no line end. -/
theorem hexChar_range {d : ℕ} (h : d < 16) : 0x30 ≤ (hexChar d).toNat := by
  rw [hexChar_toNat h]
  split_ifs <;> omega

theorem hexText_length (w n : ℕ) : (hexText w n).length = w := by
  rw [hexText,List.length_map,List.length_range]

theorem hexText_succ (w n : ℕ) : hexText (w+1) n = hexText w (n/16)++[hexChar (n%16)] := by
  rw [hexText,List.range_succ,List.map_append,List.map_singleton,hexText]
  congr 1
  · apply List.map_congr_left
    intro i hi
    have hlt := List.mem_range.mp hi
    have hw : w+1-1-i = w-1-i+1 := by omega
    rw [hw,pow_succ',Nat.div_div_eq_div_mul]
  · rw [Nat.add_sub_cancel,Nat.sub_self,pow_zero,Nat.div_one]

/-- The text of enough digits reads back to the number. -/
theorem hexValue_hexText (w n : ℕ) : hexValue (hexText w n) = n%16^w := by
  induction w generalizing n with
  | zero => rw [pow_zero,Nat.mod_one]; rfl
  | succ w ih =>
      have hrest := ih (n/16)
      rw [hexValue] at hrest ⊢
      rw [hexText_succ,List.foldl_append,hrest,List.foldl_cons,List.foldl_nil,
        hexDigitOf_hexChar (Nat.mod_lt n (by decide)),pow_succ',Nat.mod_mul,Nat.add_comm]

theorem hexText_range {w n : ℕ} : ∀ c ∈ hexText w n, 0x30 ≤ c.toNat := by
  intro c hc
  rcases List.mem_map.mp hc with ⟨i,-,rfl⟩
  exact hexChar_range (Nat.mod_lt _ (by decide))

end Gemiboot.HexText
