import Gemiboot.HexText
import Gemiboot.UefiConsole

/-!
# Hexadecimal output

`serial_put_hex` of `common/string.c` and `uefi_put_hex` of `efi64.c` and `efi32.c`. The
first passes the digits on one by one, the second collects them in an array of 12
characters.
-/
namespace Gemiboot.HexConsole
open ByteMemory FixedBuffers GopConsole HexText SerialPort ShortNames UefiConsole

/-- `hex_chars`. -/
def hexChars : List UInt8 := asciiText "0123456789ABCDEF"

def hexPrefix : CString := ⟨asciiText "0x",by simp [asciiText]⟩

/-- `hex_chars[(val >> i) & 0xF]`. -/
def hexDigitAt (val i : ℕ) : Option UInt8 := hexChars[(val >>> i) &&& 0xF]?

/-- `for (i = 28; i >= 0; i -= 4)`. -/
def serialPutHex (val : ℕ) : Option (List UInt8) := do
  let digits ← [28,24,20,16,12,8,4,0].mapM (hexDigitAt val)
  some (serialPuts (some hexPrefix)++digits)

/-- The loop of `uefi_put_hex`. -/
def putHexDigits (val n : ℕ) (buf : List UInt8) : Option (List UInt8) :=
  (List.range n).foldlM (fun buf i => do
    let c ← hexDigitAt val (28-i*4)
    put buf (2+i) c) buf

def uefiPutHex (w : ℕ) (font : Memory) (fb : Framebuffer)
    (firmware : List UInt16 → Memory → Memory) (conOut : Bool) (digits : Vector UInt8 12)
    (buf : Vector UInt16 256) (val : ℕ) (s : Screen) : Option (Screen × List ℕ) := do
  let digits ← put digits.toList 0 0x30
  let digits ← put digits 1 0x78
  let digits ← putHexDigits val 8 digits
  let digits ← put digits 10 0
  uefiPuts w font fb firmware conOut buf digits s

theorem hexChars_getElem? {d : ℕ} (h : d < 16) : hexChars[d]? = some (hexChar d) := by
  have hall : ∀ d < 16, hexChars[d]? = some (hexChar d) := by decide
  exact hall d h

theorem hexDigitAt_eq (val i : ℕ) : hexDigitAt val i = some (hexChar (val/2^i%16)) := by
  have hand : (val >>> i) &&& 0xF = val/2^i%16 := by
    rw [Nat.shiftRight_eq_div_pow]
    exact Nat.and_two_pow_sub_one_eq_mod _ 4
  rw [hexDigitAt,hand,hexChars_getElem? (Nat.mod_lt _ (by decide))]

theorem hexDigitAt_pow (val k : ℕ) : hexDigitAt val (4*k) = some (hexChar (val/16^k%16)) := by
  have h16 : (2 : ℕ)^(4*k) = 16^k := pow_mul 2 4 k
  rw [hexDigitAt_eq,h16]

theorem serialPutHex_eq (val : ℕ) :
    serialPutHex val = some (hexPrefix.chars++hexText 8 val) := by
  have h := hexDigitAt_pow val
  have hdigits : [28,24,20,16,12,8,4,0].mapM (hexDigitAt val) = some (hexText 8 val) := by
    simp only [List.mapM_cons,List.mapM_nil,h 7,h 6,h 5,h 4,h 3,h 2,h 1,h 0]
    rfl
  rw [serialPutHex,hdigits]
  rfl

/-- Each pass writes the next digit behind the others. -/
theorem putHexDigits_spec {val n : ℕ} {buf l : List UInt8} (h : l <+: buf) (hl : l.length = 2)
    (hn : n ≤ 8) (hroom : 2+n ≤ buf.length) :
    ∃ buf', putHexDigits val n buf = some buf' ∧ l++(hexText 8 val).take n <+: buf' ∧
      buf'.length = buf.length := by
  induction n with
  | zero =>
      refine ⟨buf,rfl,?_,rfl⟩
      rwa [List.take_zero,List.append_nil]
  | succ n ih =>
      rcases ih (by omega) (by omega) with ⟨buf₁,hrun,hpre,hlen⟩
      have htake : (hexText 8 val).take n++[hexChar (val/16^(7-n)%16)] =
          (hexText 8 val).take (n+1) := by
        have hlt : n < (hexText 8 val).length := by
          rw [hexText_length]
          omega
        rw [List.take_add_one,List.getElem?_eq_getElem hlt]
        simp [hexText]
      have hsize : (l++(hexText 8 val).take n).length = 2+n := by
        rw [List.length_append,hl,List.length_take,hexText_length]
        omega
      rcases put_prefix (hexChar (val/16^(7-n)%16)) hpre (by omega) with ⟨buf₂,hput,hpre₂,hlen₂⟩
      rw [hsize] at hput
      rw [List.append_assoc,htake] at hpre₂
      refine ⟨buf₂,?_,hpre₂,hlen₂.trans hlen⟩
      have hshift : 28-n*4 = 4*(7-n) := by omega
      rw [putHexDigits] at hrun ⊢
      rw [List.range_succ,List.foldlM_append,hrun]
      simp only [List.foldlM_cons,List.foldlM_nil,Option.bind_eq_bind,Option.bind_some,hshift,
        hexDigitAt_pow,hput]
      rfl

section
variable (w : ℕ) (font : Memory) (fb : Framebuffer)

/-- The array handed to `uefi_puts` holds the text and its terminator. -/
theorem uefiPutHex_eq (firmware : List UInt16 → Memory → Memory) (conOut : Bool)
    (digits : Vector UInt8 12) (buf : Vector UInt16 256) (val : ℕ) (s : Screen) :
    ∃ after, uefiPutHex w font fb firmware conOut digits buf val s =
      uefiPuts w font fb firmware conOut buf ((hexPrefix.chars++hexText 8 val)++0::after) s := by
  have hcap : digits.toList.length = 12 := by simp
  rcases put_prefix 0x30 (List.nil_prefix : [] <+: digits.toList)
    (by rw [List.length_nil]; omega) with ⟨ds₁,h₁,hp₁,hl₁⟩
  rcases put_prefix 0x78 hp₁ (by simp only [List.nil_append,List.length_singleton]; omega)
    with ⟨ds₂,h₂,hp₂,hl₂⟩
  rcases putHexDigits_spec hp₂ rfl le_rfl (by omega) with ⟨ds₃,h₃,hp₃,hl₃⟩
  have hfull : (hexText 8 val).take 8 = hexText 8 val := by
    rw [List.take_of_length_le]
    rw [hexText_length]
  rw [hfull] at hp₃
  have hten : ([]++[0x30]++[0x78]++hexText 8 val).length = 10 := by
    rw [List.length_append,hexText_length]
    rfl
  rcases put_prefix 0 hp₃ (by omega) with ⟨ds₄,h₄,⟨r,rfl⟩,-⟩
  rw [hten] at h₄
  refine ⟨r,?_⟩
  have hshape : []++[0x30]++[0x78]++hexText 8 val++[0]++r =
      (hexPrefix.chars++hexText 8 val)++0::r := by
    rw [List.append_assoc _ [0] r,List.singleton_append]
    rfl
  rw [hshape] at h₄
  rw [List.length_nil] at h₁
  rw [List.nil_append,List.length_singleton] at h₂
  rw [uefiPutHex,h₁]
  simp only [Option.bind_eq_bind,Option.bind_some,h₂,h₃,h₄]

theorem expandNewlines_plain {cs : List UInt8} (h : ∀ c ∈ cs, 0x30 ≤ c.toNat) :
    expandNewlines cs = cs := by
  induction cs with
  | nil => rfl
  | cons c cs ih =>
      have hc : c ≠ lineFeed := by
        rintro rfl
        exact absurd (h lineFeed List.mem_cons_self) (by decide)
      rw [expandNewlines_cons,ih fun d hd => h d (List.mem_cons_of_mem c hd),expandNewlines,
        List.flatMap_cons,if_neg hc]
      rfl

/-- Both printers end with the same ten characters, which read back to the argument. -/
theorem putHex_roundTrip (firmware : List UInt16 → Memory → Memory) {val : ℕ}
    (hval : val < 4294967296) :
    ∃ cs : List UInt8, serialPutHex val = some (asciiText "0x"++cs) ∧
      (∀ conOut digits buf s, ∃ s' written,
        uefiPutHex w font fb firmware conOut digits buf val s = some (s',written) ∧
        (fb.base ≠ 0 → s'.drawn = s.drawn++(asciiText "0x"++cs)) ∧
        (conOut = true → s'.texts = s.texts++[(asciiText "0x"++cs).map UInt8.toUInt16])) ∧
      cs.length = 8 ∧ (∀ c ∈ cs, c ∈ hexChars) ∧ hexValue cs = val := by
  have hrange : ∀ c ∈ hexPrefix.chars++hexText 8 val, 0x30 ≤ c.toNat := by
    intro c hc
    rcases List.mem_append.mp hc with hc | hc
    · have hall : ∀ c ∈ hexPrefix.chars, 0x30 ≤ c.toNat := by simp [hexPrefix,asciiText]
      exact hall c hc
    · exact hexText_range c hc
  have hplain := expandNewlines_plain hrange
  refine ⟨hexText 8 val,serialPutHex_eq val,?_,hexText_length 8 val,?_,?_⟩
  · intro conOut digits buf s
    rcases uefiPutHex_eq w font fb firmware conOut digits buf val s with ⟨after,hrun⟩
    have hnonzero : ∀ c ∈ hexPrefix.chars++hexText 8 val, c ≠ 0 := by
      rintro c hc rfl
      exact absurd (hrange 0 hc) (by decide)
    have hshort : (expandNewlines (hexPrefix.chars++hexText 8 val)).length ≤ 254 := by
      rw [hplain,List.length_append,hexText_length]
      exact (by decide : 2+8 ≤ 254)
    rcases uefiPuts_short w font fb firmware conOut buf
      ⟨hexPrefix.chars++hexText 8 val,hnonzero⟩ after s hshort with ⟨s',written,h,hd,ht⟩
    rw [hplain] at ht
    exact ⟨s',written,hrun.trans h,hd,ht⟩
  · intro c hc
    rcases List.mem_map.mp hc with ⟨i,-,rfl⟩
    exact List.mem_of_getElem? (hexChars_getElem? (Nat.mod_lt _ (by decide)))
  · rw [hexValue_hexText]
    exact Nat.mod_eq_of_lt hval

end

/-- An entry point as the loaders print it. -/
theorem putHex_roundTrip_mebibyte : ∃ cs : List UInt8,
    serialPutHex 0x100000 = some (asciiText "0x"++cs) ∧ hexValue cs = 0x100000 := by
  rcases putHex_roundTrip 4294967296 (fun _ => 0) ⟨0,0,0,0⟩ (fun _ m => m)
    (show 0x100000 < 4294967296 by norm_num) with ⟨cs,hs,-,-,-,hv⟩
  exact ⟨cs,hs,hv⟩

end Gemiboot.HexConsole
