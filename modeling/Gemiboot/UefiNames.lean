import Gemiboot.ShortNames

/-!
# Comparing a UTF-16 name with an ASCII name

`utf16_case_equals` of both UEFI loaders. A string is read cell by cell, and a cell
behind the terminator cannot be read, so an answer means that no such read was made.
-/
namespace Gemiboot.UefiNames
open ShortNames

/-- The units of a NUL-terminated UTF-16 string before the terminator. -/
structure Utf16String where
  units : List UInt16
  nonzero : ∀ x ∈ units, x ≠ 0
  deriving DecidableEq

def Utf16String.cell (u : Utf16String) (i : ℕ) : Option UInt16 := (u.units++[0])[i]?

/-- The loop over the ASCII string, with unit `i` of the other one next. `char`
comparisons against 'a' and 'z' come out the same for signed and unsigned `char`. -/
def caseEqualsFrom (u : ℕ → Option UInt16) : ℕ → List UInt8 → Option Bool
  | i,[] => (u i).map fun x => x = 0
  | i,c::cs =>
      match u i with
      | none => none
      | some x => if toUpper c ≠ toUpper x.toUInt8 then some false else caseEqualsFrom u (i+1) cs

def utf16CaseEquals (u : ℕ → Option UInt16) (ascii : CString) : Option Bool :=
  caseEqualsFrom u 0 ascii.chars

/-! ### Equality up to the case of ASCII letters -/

def upperUnit (x : UInt16) : UInt16 := if 0x61 ≤ x ∧ x ≤ 0x7A then x-32 else x

def SameUnit (x : UInt16) (c : UInt8) : Prop := upperUnit x = (toUpper c).toUInt16

/-- Same length, and the same characters up to letter case. -/
def SameText (u : Utf16String) (a : CString) : Prop := List.Forall₂ SameUnit u.units a.chars

/-- The low byte of the unit is the character up to letter case. -/
def SameLow (x : UInt16) (c : UInt8) : Prop := toUpper c = toUpper x.toUInt8

def SameLowBytes (u : Utf16String) (a : CString) : Prop := List.Forall₂ SameLow u.units a.chars

instance (x : UInt16) (c : UInt8) : Decidable (SameUnit x c) := inferInstanceAs (Decidable (_ = _))
instance (x : UInt16) (c : UInt8) : Decidable (SameLow x c) := inferInstanceAs (Decidable (_ = _))
instance (u : Utf16String) (a : CString) : Decidable (SameText u a) :=
  inferInstanceAs (Decidable (List.Forall₂ _ _ _))
instance (u : Utf16String) (a : CString) : Decidable (SameLowBytes u a) :=
  inferInstanceAs (Decidable (List.Forall₂ _ _ _))

theorem toUpper_eq_zero {c : UInt8} : toUpper c = 0 ↔ c = 0 := toUpper_eq_iff (by decide)

/-- The same arithmetic for both widths. -/
def upper (n : ℕ) : ℕ := if 0x61 ≤ n ∧ n ≤ 0x7A then n-32 else n

theorem toUpper_toNat (c : UInt8) : (toUpper c).toNat = upper c.toNat := by
  unfold toUpper upper
  simp only [UInt8.le_iff_toNat_le,show (0x61 : UInt8).toNat = 0x61 from rfl,
    show (0x7A : UInt8).toNat = 0x7A from rfl]
  split_ifs with h
  · exact toNat_sub_of_lower (UInt8.le_iff_toNat_le.mpr h.1)
  · rfl

theorem upperUnit_toNat (x : UInt16) : (upperUnit x).toNat = upper x.toNat := by
  unfold upperUnit upper
  simp only [UInt16.le_iff_toNat_le,show (0x61 : UInt16).toNat = 0x61 from rfl,
    show (0x7A : UInt16).toNat = 0x7A from rfl]
  split_ifs with h
  · apply UInt16.toNat_sub_of_le
    rw [UInt16.le_iff_toNat_le]
    exact (by decide : (32 : UInt16).toNat ≤ 0x61).trans h.1
  · rfl

/-- The comparison of low bytes is right below 0x100 only. -/
theorem sameUnit_iff (x : UInt16) (c : UInt8) : SameUnit x c ↔ SameLow x c ∧ x ≤ 0xFF := by
  have hx := x.toNat_lt
  have hc := c.toNat_lt
  unfold SameUnit SameLow
  rw [← UInt16.toNat_inj,← UInt8.toNat_inj,UInt16.le_iff_toNat_le,UInt8.toNat_toUInt16,
    upperUnit_toNat,toUpper_toNat,toUpper_toNat,UInt16.toNat_toUInt8]
  change _ ↔ _ ∧ x.toNat ≤ 255
  unfold upper
  split_ifs <;> omega

theorem sameText_iff (u : Utf16String) (a : CString) :
    SameText u a ↔ SameLowBytes u a ∧ ∀ x ∈ u.units, x ≤ 0xFF := by
  unfold SameText SameLowBytes
  generalize u.units = units
  generalize a.chars = chars
  induction units generalizing chars with
  | nil => cases chars <;> simp
  | cons x units ih =>
      cases chars with
      | nil => simp
      | cons c chars =>
          rw [List.forall₂_cons,List.forall₂_cons,ih,sameUnit_iff,List.forall_mem_cons]
          tauto

theorem sameLowBytes_caseless {a b : CString} (h : a.chars.map toUpper = b.chars.map toUpper)
    (u : Utf16String) : SameLowBytes u a ↔ SameLowBytes u b := by
  have hmap : ∀ c : CString, SameLowBytes u c ↔
      List.Forall₂ (fun x d => d = toUpper x.toUInt8) u.units (c.chars.map toUpper) := by
    intro c
    rw [List.forall₂_map_right_iff]
    rfl
  rw [hmap,hmap,h]

/-! ### What the loop computes -/

theorem cell_append {u : Utf16String} {pre rest : List UInt16} (hu : u.units = pre++rest) :
    u.cell pre.length = some (rest.headD 0) := by
  unfold Utf16String.cell
  rw [hu,List.append_assoc,List.getElem?_append_right le_rfl,Nat.sub_self]
  cases rest <;> rfl

/-- Every answer is given at a unit or at the terminator. -/
theorem caseEqualsFrom_eq {u : Utf16String} {pre rest : List UInt16} (hu : u.units = pre++rest)
    {cs : List UInt8} (hcs : ∀ c ∈ cs, c ≠ 0) :
    ∃ r, caseEqualsFrom u.cell pre.length cs = some r ∧
      (r = true ↔ List.Forall₂ SameLow rest cs) := by
  have hcell := cell_append hu
  induction cs generalizing pre rest with
  | nil =>
      rw [caseEqualsFrom,hcell]
      refine ⟨_,rfl,?_⟩
      cases rest with
      | nil => simp
      | cons x rest =>
          have hx : x ≠ 0 := u.nonzero x (by rw [hu]; simp)
          simp [hx]
  | cons c cs ih =>
      rw [caseEqualsFrom,hcell]
      dsimp only
      cases rest with
      | nil =>
          -- the terminator is no character, so the loop stops here
          have hc : toUpper c ≠ toUpper (([] : List UInt16).headD 0).toUInt8 :=
            toUpper_eq_zero.not.mpr (hcs c (by simp))
          rw [if_pos hc]
          exact ⟨false,rfl,by simp⟩
      | cons x rest =>
          rw [List.forall₂_cons]
          change ∃ r, (if toUpper c ≠ toUpper x.toUInt8 then _ else _) = _ ∧
            (_ ↔ toUpper c = toUpper x.toUInt8 ∧ _)
          by_cases hsame : toUpper c = toUpper x.toUInt8
          · have hu' : u.units = pre++[x]++rest := by rw [hu,List.append_assoc]; rfl
            have hnext := ih hu' (fun d hd => hcs d (by simp [hd])) (cell_append hu')
            rw [List.length_append,List.length_singleton] at hnext
            obtain ⟨r,hr,hiff⟩ := hnext
            rw [if_neg (not_not.mpr hsame)]
            exact ⟨r,hr,by rw [hiff,and_iff_right hsame]⟩
          · rw [if_pos hsame]
            exact ⟨false,rfl,by simp [hsame]⟩

theorem utf16CaseEquals_eq (u : Utf16String) (a : CString) :
    ∃ r, utf16CaseEquals u.cell a = some r ∧ (r = true ↔ SameLowBytes u a) :=
  caseEqualsFrom_eq (List.nil_append _).symm a.nonzero

theorem SameLow.ascii {x : UInt16} {c : UInt8} (h : SameLow x c) (hc : c < 0x80)
    (hx : x ≤ 0xFF) : x ≤ 0x7F := by
  unfold SameLow at h
  rw [← UInt8.toNat_inj,toUpper_toNat,toUpper_toNat,UInt16.toNat_toUInt8] at h
  rw [UInt8.lt_iff_toNat_lt] at hc
  rw [UInt16.le_iff_toNat_le] at hx ⊢
  change c.toNat < 128 at hc
  change x.toNat ≤ 255 at hx
  change x.toNat ≤ 127
  unfold upper at h
  split_ifs at h <;> omega

theorem ascii_of_sameLowBytes {u : Utf16String} {a : CString} (ha : ∀ c ∈ a.chars, c < 0x80)
    (hlow : SameLowBytes u a) (hle : ∀ x ∈ u.units, x ≤ 0xFF) : ∀ x ∈ u.units, x ≤ 0x7F := by
  unfold SameLowBytes at hlow
  generalize u.units = units at hlow hle
  generalize a.chars = chars at ha hlow
  induction hlow with
  | nil => exact fun x hx => absurd hx List.not_mem_nil
  | cons hsame _ ih =>
      rw [List.forall_mem_cons] at ha hle ⊢
      exact ⟨hsame.ascii ha.1 hle.1,ih hle.2 ha.2⟩

/-- An answer without a read behind the terminator, and the right one. -/
structure DecidesSameText (u : Utf16String) (a : CString) : Prop where
  answers : ∃ r, utf16CaseEquals u.cell a = some r
  right : utf16CaseEquals u.cell a = some true ↔ SameText u a
  ascii : (∃ x ∈ u.units, 0x7F < x) → utf16CaseEquals u.cell a = some false

/-- The answer is wrong exactly when the low bytes agree with the name and a unit has
a high byte. -/
theorem decidesSameText_iff (u : Utf16String) (a : CString) (ha : ∀ c ∈ a.chars, c < 0x80) :
    DecidesSameText u a ↔ ¬(SameLowBytes u a ∧ ∃ x ∈ u.units, 0xFF < x) := by
  obtain ⟨r,hr,hiff⟩ := utf16CaseEquals_eq u a
  constructor
  · intro h hbad
    have htrue : utf16CaseEquals u.cell a = some true := by
      rw [hr,hiff.mpr hbad.1]
    obtain ⟨x,hx,hhigh⟩ := hbad.2
    have hle := ((sameText_iff u a).mp (h.right.mp htrue)).2 x hx
    exact UInt16.lt_irrefl _ (UInt16.lt_of_lt_of_le hhigh hle)
  · intro h
    have hsmall : SameLowBytes u a → ∀ x ∈ u.units, x ≤ 0xFF :=
      fun hlow x hx => UInt16.not_lt.mp fun hhigh => h ⟨hlow,x,hx,hhigh⟩
    constructor
    · exact ⟨r,hr⟩
    · rw [hr,Option.some.injEq,hiff,sameText_iff]
      exact ⟨fun hlow => ⟨hlow,hsmall hlow⟩,fun htext => htext.1⟩
    · intro hhigh
      rw [hr]
      congr 1
      obtain ⟨x,hx,hgt⟩ := hhigh
      rw [Bool.eq_false_iff,ne_eq,hiff]
      intro hlow
      have hle := ascii_of_sameLowBytes ha hlow (hsmall hlow) x hx
      exact UInt16.lt_irrefl _ (UInt16.lt_of_lt_of_le hgt hle)

theorem kernelName_nonzero :
    ∀ c ∈ ([0x67,0x65,0x6D,0x69,0x6F,0x73,0x2E,0x65,0x6C,0x66] : List UInt8), c ≠ 0 := by simp

/-- The name gemios.elf, and the same in mixed case. -/
def kernelName : CString :=
  ⟨[0x67,0x65,0x6D,0x69,0x6F,0x73,0x2E,0x65,0x6C,0x66],kernelName_nonzero⟩
def mixedName : Utf16String :=
  ⟨[0x47,0x65,0x4D,0x69,0x4F,0x73,0x2E,0x45,0x6C,0x46],by simp⟩

theorem decidesSameText_iff_mixedName :
    DecidesSameText mixedName kernelName ∧ SameText mixedName kernelName := by
  have hsmall : ¬(SameLowBytes mixedName kernelName ∧ ∃ x ∈ mixedName.units, 0xFF < x) := by decide
  have hascii : ∀ c ∈ kernelName.chars, c < 0x80 := by decide +kernel
  exact ⟨(decidesSameText_iff mixedName kernelName hascii).mpr hsmall,by decide⟩

theorem plainLetter_nonzero : ∀ c ∈ ([0x41] : List UInt8), c ≠ 0 := by simp

/-- The Polish letter U+0141 and the ASCII letter 0x41. -/
def strokedLetter : Utf16String := ⟨[0x0141],by simp⟩
def plainLetter : CString := ⟨[0x41],plainLetter_nonzero⟩

/-- They are taken for the same. -/
theorem strokedLetter_taken : utf16CaseEquals strokedLetter.cell plainLetter = some true ∧
    ¬SameText strokedLetter plainLetter ∧ ¬DecidesSameText strokedLetter plainLetter := by
  have htrue : utf16CaseEquals strokedLetter.cell plainLetter = some true := by decide
  have hno : ¬SameText strokedLetter plainLetter := by decide
  exact ⟨htrue,hno,fun h => hno (h.right.mp htrue)⟩

end Gemiboot.UefiNames
