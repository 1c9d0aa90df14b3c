import Gemiboot.ByteMemory

/-!
# The two 8.3 name scanners

mkdisk writes directory names with its own scanner, and the boot-time reader
looks names up with another one. Both walk the name once with a mode flag and
two counters. The reader stops after 64 characters and has no special case for
the two dot names; for every other name of at most 64 bytes the eleven bytes
they produce are the same.
-/
namespace Gemiboot.ShortNames
open ByteMemory

/-- The characters of a NUL-terminated string before the terminator. -/
structure CString where
  chars : List UInt8
  nonzero : ∀ c ∈ chars, c ≠ 0
  deriving DecidableEq

def dot : UInt8 := 0x2E
def space : UInt8 := 0x20

/-- `char` comparisons against 'a' and 'z' have the same outcome whether `char`
is signed or not: bytes from 0x80 fail one of them either way. -/
def toUpper (c : UInt8) : UInt8 := if 0x61 ≤ c ∧ c ≤ 0x7A then c-32 else c

theorem toNat_sub_of_lower {c : UInt8} (h : 0x61 ≤ c) : (c-32).toNat = c.toNat-32 := by
  have hc : 0x61 ≤ c.toNat := UInt8.le_iff_toNat_le.mp h
  have hle : (32 : UInt8) ≤ c := by
    rw [UInt8.le_iff_toNat_le]
    exact (by decide : (32 : ℕ) ≤ 0x61).trans hc
  exact UInt8.toNat_sub_of_le c 32 hle

theorem toUpper_eq_iff {c v : UInt8} (hv : v < 0x41 ∨ 0x7A < v) : toUpper c = v ↔ c = v := by
  unfold toUpper
  split_ifs with h
  · have hs := toNat_sub_of_lower h.1
    simp only [UInt8.le_iff_toNat_le,UInt8.lt_iff_toNat_lt,← UInt8.toNat_inj] at *
    rw [hs]
    simp at *
    omega
  · rfl

/-! ### The writer: `format_83` in mkdisk -/

/-- The locals of the writer's loop with its two output arrays. -/
structure Scan where
  outName : Memory
  outExt : Memory
  ni : ℕ
  ei : ℕ
  inExt : Bool

def Scan.step (s : Scan) (c : UInt8) : Scan :=
  if c = dot then {s with inExt := true}
  else if s.inExt then
    if s.ei < 3 then {s with outExt := Function.update s.outExt s.ei (toUpper c), ei := s.ei+1}
    else s
  else
    if s.ni < 8 then {s with outName := Function.update s.outName s.ni (toUpper c), ni := s.ni+1}
    else s

def blankScan (outName outExt : Memory) : Scan :=
  ⟨fill outName 0 8 space,fill outExt 0 3 space,0,0,false⟩

/-- `format_83`: the two dot names are answered before the scan. -/
def format83 (name : CString) (outName outExt : Memory) : Memory × Memory :=
  let s := blankScan outName outExt
  if name.chars = [dot] then (Function.update s.outName 0 dot,s.outExt)
  else if name.chars = [dot,dot] then
    (Function.update (Function.update s.outName 0 dot) 1 dot,s.outExt)
  else
    let t := name.chars.foldl Scan.step s
    (t.outName,t.outExt)

/-- The name field of a directory entry: eight name bytes, three extension bytes. -/
def entryName (name : CString) : Memory := fun i =>
  let r := format83 name (fun _ => 0) (fun _ => 0)
  if i < 8 then r.1 i else r.2 (i-8)

/-! ### The reader: `format_83_name` in fat.c -/

structure ReadScan where
  output : Memory
  nameIdx : ℕ
  extIdx : ℕ
  inExt : Bool

def ReadScan.step (s : ReadScan) (c : UInt8) : ReadScan :=
  if c = dot then {s with inExt := true}
  else if !s.inExt then
    if s.nameIdx < 8 then
      {s with output := Function.update s.output s.nameIdx (toUpper c), nameIdx := s.nameIdx+1}
    else s
  else
    if s.extIdx < 3 then
      {s with output := Function.update s.output (8+s.extIdx) (toUpper c), extIdx := s.extIdx+1}
    else s

/-- The loop counter is only compared with the cut-off of 64 characters. -/
def readScanFrom : ℕ → List UInt8 → ReadScan → ReadScan
  | _,[],s => s
  | i,c::cs,s => if i < 64 then readScanFrom (i+1) cs (s.step c) else s

def format83Name (input : CString) (output : Memory) : Memory :=
  (readScanFrom 0 input.chars ⟨fill output 0 11 space,0,0,false⟩).output

theorem readScanFrom_eq_foldl (i : ℕ) (cs : List UInt8) (s : ReadScan)
    (h : i+cs.length ≤ 64) : readScanFrom i cs s = cs.foldl ReadScan.step s := by
  induction cs generalizing i s with
  | nil => rfl
  | cons c cs ih =>
      rw [List.length_cons] at h
      rw [readScanFrom,if_pos (by omega),ih (i+1) _ (by omega)]
      rfl

/-! ### Agreement -/

/-- The reader's single array is the writer's two arrays side by side. -/
structure Agrees (s : Scan) (t : ReadScan) : Prop where
  ni : t.nameIdx = s.ni
  ei : t.extIdx = s.ei
  mode : t.inExt = s.inExt
  name : ∀ i < 8, t.output i = s.outName i
  ext : ∀ i < 3, t.output (8+i) = s.outExt i

theorem Agrees.step {s : Scan} {t : ReadScan} (h : Agrees s t) (c : UInt8) :
    Agrees (s.step c) (t.step c) := by
  obtain ⟨outName,outExt,ni,ei,inExt⟩ := s
  obtain ⟨output,nameIdx,extIdx,inExt'⟩ := t
  obtain ⟨rfl,rfl,rfl,hn,he⟩ := h
  dsimp only at *
  unfold Scan.step ReadScan.step
  by_cases hc : c = dot
  · simp only [if_pos hc]
    exact ⟨rfl,rfl,rfl,hn,he⟩
  simp only [if_neg hc]
  cases inExt' with
  | true =>
      by_cases hk : extIdx < 3
      · simp only [Bool.not_true,Bool.false_eq_true,if_true,if_false,if_pos hk]
        refine ⟨rfl,rfl,rfl,?_,?_⟩
        · intro i hi
          dsimp only
          rw [Function.update_of_ne (by omega)]
          exact hn i hi
        · intro i hi
          by_cases hie : i = extIdx
          · simp [hie]
          · dsimp only
            rw [Function.update_of_ne (by omega),Function.update_of_ne hie]
            exact he i hi
      · simp only [Bool.not_true,Bool.false_eq_true,if_true,if_false,if_neg hk]
        exact ⟨rfl,rfl,rfl,hn,he⟩
  | false =>
      by_cases hk : nameIdx < 8
      · simp only [Bool.not_false,Bool.false_eq_true,if_true,if_false,if_pos hk]
        refine ⟨rfl,rfl,rfl,?_,?_⟩
        · intro i hi
          by_cases hie : i = nameIdx
          · simp [hie]
          · dsimp only
            rw [Function.update_of_ne hie,Function.update_of_ne hie]
            exact hn i hi
        · intro i hi
          dsimp only
          rw [Function.update_of_ne (by omega)]
          exact he i hi
      · simp only [Bool.not_false,Bool.false_eq_true,if_true,if_false,if_neg hk]
        exact ⟨rfl,rfl,rfl,hn,he⟩

theorem Agrees.foldl {s : Scan} {t : ReadScan} (h : Agrees s t) (cs : List UInt8) :
    Agrees (cs.foldl Scan.step s) (cs.foldl ReadScan.step t) := by
  induction cs generalizing s t with
  | nil => exact h
  | cons c cs ih => exact ih (h.step c)

theorem blank_agrees (outName outExt output : Memory) :
    Agrees (blankScan outName outExt) ⟨fill output 0 11 space,0,0,false⟩ := by
  refine ⟨rfl,rfl,rfl,?_,?_⟩
  · intro i hi
    simp only [blankScan]
    rw [fill_inside (by omega) (by omega),fill_inside (by omega) (by omega)]
  · intro i hi
    simp only [blankScan]
    rw [fill_inside (by omega) (by omega),fill_inside (by omega) (by omega)]

/-- A name the reader scans to its end is spelled as the writer stored it. -/
theorem format83Name_eq (name : CString) (output : Memory) (hl : name.chars.length ≤ 64)
    (h₁ : name.chars ≠ [dot]) (h₂ : name.chars ≠ [dot,dot]) :
    ∀ i < 11, format83Name name output i = entryName name i := by
  intro i hi
  have ha := (blank_agrees (fun _ => 0) (fun _ => 0) output).foldl name.chars
  unfold format83Name entryName format83
  rw [readScanFrom_eq_foldl 0 _ _ (by omega)]
  simp only [if_neg h₁,if_neg h₂]
  split_ifs with h8
  · exact ha.name i h8
  · simpa only [show 8+(i-8) = i by omega] using ha.ext (i-8) (by omega)

/-! ### Letter case -/

theorem toUpper_toUpper (c : UInt8) : toUpper (toUpper c) = toUpper c := by
  by_cases h : 0x61 ≤ c ∧ c ≤ 0x7A
  · have hc : toUpper c = c-32 := if_pos h
    have h32 : (32 : UInt8) ≤ c := UInt8.le_trans (by decide) h.1
    have hn : (c-32).toNat = c.toNat-32 := UInt8.toNat_sub_of_le _ _ h32
    rw [hc,toUpper,if_neg]
    simp only [UInt8.le_iff_toNat_le,hn] at h ⊢
    simp at h ⊢
    omega
  · have hc : toUpper c = c := if_neg h
    rw [hc,hc]

theorem Scan.step_toUpper (s : Scan) (c : UInt8) : s.step (toUpper c) = s.step c := by
  have hd : toUpper c = dot ↔ c = dot := toUpper_eq_iff (by decide)
  simp only [Scan.step,hd,toUpper_toUpper]

theorem foldl_step_toUpper (cs : List UInt8) (s : Scan) :
    (cs.map toUpper).foldl Scan.step s = cs.foldl Scan.step s := by
  rw [List.foldl_map]
  congr 1
  funext s c
  exact s.step_toUpper c

theorem map_toUpper_dots (cs : List UInt8) :
    (cs.map toUpper = [dot] ↔ cs = [dot]) ∧ (cs.map toUpper = [dot,dot] ↔ cs = [dot,dot]) := by
  have hd : ∀ c, toUpper c = dot ↔ c = dot := fun c => toUpper_eq_iff (by decide)
  rcases cs with _ | ⟨a,_ | ⟨b,_ | ⟨c,cs⟩⟩⟩ <;> simp [hd]

/-- Names that differ in letter case only are written alike. -/
theorem format83_caseless {a b : CString} (h : a.chars.map toUpper = b.chars.map toUpper)
    (outName outExt : Memory) : format83 a outName outExt = format83 b outName outExt := by
  have h₁ : a.chars = [dot] ↔ b.chars = [dot] := by
    rw [← (map_toUpper_dots a.chars).1,h,(map_toUpper_dots b.chars).1]
  have h₂ : a.chars = [dot,dot] ↔ b.chars = [dot,dot] := by
    rw [← (map_toUpper_dots a.chars).2,h,(map_toUpper_dots b.chars).2]
  have hf : ∀ s, a.chars.foldl Scan.step s = b.chars.foldl Scan.step s := by
    intro s
    rw [← foldl_step_toUpper,h,foldl_step_toUpper]
  simp only [format83,h₁,h₂,hf]

theorem entryName_caseless {a b : CString} (h : a.chars.map toUpper = b.chars.map toUpper) :
    entryName a = entryName b := by
  funext i
  simp only [entryName,format83_caseless h]

/-! ### The first byte of a stored name -/

/-- Once a name byte is out, or the scan is past a leading dot, byte 0 is final. -/
def Scan.Settled (s : Scan) (v : UInt8) : Prop :=
  s.outName 0 = v ∧ (0 < s.ni ∨ s.inExt = true)

theorem Scan.Settled.step {s : Scan} {v : UInt8} (h : s.Settled v) (c : UInt8) :
    (s.step c).Settled v := by
  obtain ⟨hv,hp⟩ := h
  unfold Scan.step
  split_ifs with hc hm he hn
  · exact ⟨hv,.inr rfl⟩
  · exact ⟨hv,.inr hm⟩
  · exact ⟨hv,.inr hm⟩
  · have hpos : 0 < s.ni := hp.resolve_right hm
    exact ⟨(Function.update_of_ne (by omega) _ _).trans hv,.inl (by simp)⟩
  · exact ⟨hv,hp⟩

theorem Scan.Settled.foldl {s : Scan} {v : UInt8} (h : s.Settled v) (cs : List UInt8) :
    (cs.foldl Scan.step s).Settled v := by
  induction cs generalizing s with
  | nil => exact h
  | cons c cs ih => exact ih (h.step c)

/-- The first byte of an entry is the first character in upper case, except
that names with nothing before the first dot start with a blank. -/
theorem entryName_zero (name : CString) :
    entryName name 0 = space ∨ entryName name 0 = dot ∨
      ∃ c, name.chars.head? = some c ∧ entryName name 0 = toUpper c := by
  unfold entryName format83
  simp only [show (0 : ℕ) < 8 by decide,if_true]
  split_ifs with h₁ h₂
  · exact .inr (.inl (by simp))
  · exact .inr (.inl (by simp))
  · have hb : (blankScan (fun _ => 0) (fun _ => 0)).outName 0 = space := by
      simp [blankScan,fill,blit]
    cases hcs : name.chars with
    | nil => exact .inl hb
    | cons c cs =>
        by_cases hc : c = dot
        · have hs : ((blankScan (fun _ => 0) (fun _ => 0)).step c).Settled space := by
            rw [Scan.step,if_pos hc]
            exact ⟨hb,.inr rfl⟩
          exact .inl (hs.foldl cs).1
        · have hs : ((blankScan (fun _ => 0) (fun _ => 0)).step c).Settled (toUpper c) := by
            rw [Scan.step,if_neg hc]
            exact ⟨by simp [blankScan],.inl (by simp [blankScan])⟩
          exact .inr (.inr ⟨c,rfl,(hs.foldl cs).1⟩)

/-- The byte that marks a deleted entry can only come from the name itself. -/
theorem entryName_live (name : CString) (h : name.chars.head? ≠ some 0xE5) :
    entryName name 0 ≠ 0 ∧ entryName name 0 ≠ 0xE5 := by
  rcases entryName_zero name with he | he | ⟨c,hc,he⟩
  · rw [he]; decide
  · rw [he]; decide
  · have hz : c ≠ 0 := name.nonzero c (List.mem_of_mem_head? hc)
    have hd : c ≠ 0xE5 := fun hd => h (hd ▸ hc)
    rw [he]
    exact ⟨(toUpper_eq_iff (by decide)).not.mpr hz,(toUpper_eq_iff (by decide)).not.mpr hd⟩

/-! ### Stored names have no lower-case letters -/

def Lower (c : UInt8) : Prop := 0x61 ≤ c ∧ c ≤ 0x7A

instance (c : UInt8) : Decidable (Lower c) := inferInstanceAs (Decidable (_ ∧ _))

theorem toUpper_not_lower (c : UInt8) : ¬Lower (toUpper c) := by
  unfold toUpper Lower
  split_ifs with h
  · have hs := toNat_sub_of_lower h.1
    simp only [UInt8.le_iff_toNat_le] at *
    rw [hs]
    simp at *
    omega
  · exact h

def Scan.Upper (s : Scan) : Prop := ∀ i < 8, ¬Lower (s.outName i)

theorem Scan.Upper.step {s : Scan} (h : s.Upper) (c : UInt8) : (s.step c).Upper := by
  unfold Scan.step
  split_ifs with hc hm he hn
  · exact h
  · exact h
  · exact h
  · intro i hi
    change ¬Lower (Function.update s.outName s.ni (toUpper c) i)
    rw [Function.update_apply]
    split_ifs
    · exact toUpper_not_lower c
    · exact h i hi
  · exact h

theorem Scan.Upper.foldl {s : Scan} (h : s.Upper) (cs : List UInt8) :
    (cs.foldl Scan.step s).Upper := by
  induction cs generalizing s with
  | nil => exact h
  | cons c cs ih => exact ih (h.step c)

theorem entryName_not_lower (name : CString) {i : ℕ} (hi : i < 8) :
    ¬Lower (entryName name i) := by
  have hb : (blankScan (fun _ => 0) (fun _ => 0)).Upper := by
    intro j hj
    have hj' : (blankScan (fun _ => 0) (fun _ => 0)).outName j = space := by
      change fill (fun _ => 0) 0 8 space j = space
      exact fill_inside (Nat.zero_le j) (by omega)
    rw [hj']
    decide
  have hdot : ¬Lower dot := by decide
  unfold entryName format83
  simp only [if_pos hi]
  split_ifs with h₁ h₂
  · dsimp only
    rw [Function.update_apply]
    split_ifs
    · exact hdot
    · exact hb i hi
  · dsimp only
    rw [Function.update_apply,Function.update_apply]
    split_ifs
    · exact hdot
    · exact hdot
    · exact hb i hi
  · exact hb.foldl _ i hi

end Gemiboot.ShortNames
