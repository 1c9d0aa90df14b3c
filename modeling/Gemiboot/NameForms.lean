import Gemiboot.ShortNames

/-!
# What the name scanners compute

Both scanners are compared with a form that is stated without counters or a mode:
up to eight characters in front of the first dot, up to three characters that are
no dots behind it, upper case, blanks at the end of each part.
-/
namespace Gemiboot.ShortNames
open ByteMemory

/-! ### The reference form -/

def base (cs : List UInt8) : List UInt8 := cs.takeWhile (· ≠ dot)

def extension (cs : List UInt8) : List UInt8 := (cs.dropWhile (· ≠ dot)).filter (· ≠ dot)

/-- The first `n` characters in upper case, filled up with blanks. -/
def field (n : ℕ) (cs : List UInt8) : List UInt8 :=
  (cs.take n).map toUpper++List.replicate (n-cs.length) space

def shortForm (cs : List UInt8) : List UInt8 := field 8 (base cs)++field 3 (extension cs)

def bytesOf (m : Memory) (n : ℕ) : List UInt8 := (List.range n).map m

theorem bytesOf_update {m : Memory} {n k : ℕ} (v : UInt8) :
    bytesOf (Function.update m k v) n = (bytesOf m n).set k v := by
  unfold bytesOf
  apply List.ext_getElem
  · simp
  · intro i h₁ h₂
    simp only [List.getElem_map,List.getElem_range,List.getElem_set,Function.update_apply,eq_comm]

theorem bytesOf_congr {m m' : Memory} {n : ℕ} (h : ∀ i < n, m i = m' i) :
    bytesOf m n = bytesOf m' n :=
  List.map_congr_left fun i hi => h i (List.mem_range.mp hi)

theorem bytesOf_add (m : Memory) (n k : ℕ) :
    bytesOf m (n+k) = bytesOf m n++bytesOf (fun i => m (n+i)) k := by
  unfold bytesOf
  rw [List.range_add,List.map_append,List.map_map]
  rfl

theorem bytesOf_inj {m m' : Memory} {n : ℕ} (h : bytesOf m n = bytesOf m' n) {i : ℕ}
    (hi : i < n) : m i = m' i := List.map_inj_left.mp h i (List.mem_range.mpr hi)

theorem field_nil (n : ℕ) : field n [] = List.replicate n space := by
  simp [field]

/-- One more character goes to the place behind the others, if there is room. -/
theorem field_concat (n : ℕ) (cs : List UInt8) (c : UInt8) : field n (cs++[c]) =
    if cs.length < n then (field n cs).set cs.length (toUpper c) else field n cs := by
  unfold field
  rw [List.length_append,List.length_singleton]
  split_ifs with h
  · have hroom : n-cs.length = n-(cs.length+1)+1 := by omega
    have hfit : (cs++[c]).length ≤ n := by
      rw [List.length_append,List.length_singleton]
      exact h
    rw [List.take_of_length_le hfit,List.take_of_length_le h.le,
      List.set_append_right _ _ (List.length_map _).le,hroom,List.replicate_succ]
    simp
  · have hle : n ≤ cs.length := Nat.le_of_not_lt h
    rw [List.take_append_of_le_length hle,Nat.sub_eq_zero_of_le hle,
      Nat.sub_eq_zero_of_le (hle.trans (Nat.le_succ _))]

theorem base_concat (cs : List UInt8) (c : UInt8) :
    base (cs++[c]) = if dot ∈ cs ∨ c = dot then base cs else base cs++[c] := by
  unfold base
  induction cs with
  | nil => by_cases h : c = dot <;> simp [h]
  | cons d cs ih =>
      by_cases hd : d = dot
      · simp [hd]
      · have hne : dot ≠ d := fun h => hd h.symm
        simp only [List.cons_append,List.takeWhile_cons,ne_eq,hd,not_false_eq_true,decide_true,
          if_true,List.mem_cons,hne,false_or] at ih ⊢
        rw [ih]
        split_ifs <;> rfl

theorem extension_concat (cs : List UInt8) (c : UInt8) :
    extension (cs++[c]) = if dot ∈ cs ∧ c ≠ dot then extension cs++[c] else extension cs := by
  unfold extension
  induction cs with
  | nil => by_cases h : c = dot <;> simp [h]
  | cons d cs ih =>
      by_cases hd : d = dot
      · by_cases hc : c = dot <;> simp [hd,hc]
      · have hne : dot ≠ d := fun h => hd h.symm
        simp only [List.cons_append,List.dropWhile_cons,ne_eq,hd,not_false_eq_true,decide_true,
          if_true,List.mem_cons,hne,false_or] at ih ⊢
        exact ih

/-! ### The writer -/

/-- An output array of `n` characters with its counter, after the characters `cs`. -/
structure Part (n : ℕ) (before : Memory) (cs : List UInt8) (m : Memory) (k : ℕ) : Prop where
  count : k = min n cs.length
  bytes : bytesOf m n = field n cs
  frame : ∀ i, n ≤ i → m i = before i

theorem part_blank (n : ℕ) (before : Memory) : Part n before [] (fill before 0 n space) 0 := by
  constructor
  · simp
  · rw [field_nil,bytesOf,List.eq_replicate_iff]
    constructor
    · simp
    · intro b hb
      obtain ⟨i,hi,rfl⟩ := List.mem_map.mp hb
      exact fill_inside (Nat.zero_le i) (by simpa using hi)
  · exact fun i hi => fill_outside (by omega)

section Push
variable {n k : ℕ} {before m : Memory} {cs : List UInt8}

theorem Part.push (h : Part n before cs m k) (hk : k < n) (c : UInt8) :
    Part n before (cs++[c]) (Function.update m k (toUpper c)) (k+1) := by
  have hlen : k = cs.length := by
    have := h.count
    omega
  constructor
  · rw [List.length_append,List.length_singleton]
    omega
  · rw [bytesOf_update,field_concat,if_pos (by omega),h.bytes,hlen]
  · intro i hi
    rw [Function.update_of_ne (by omega)]
    exact h.frame i hi

theorem Part.full (h : Part n before cs m k) (hk : ¬k < n) (c : UInt8) :
    Part n before (cs++[c]) m k := by
  have hcount := h.count
  constructor
  · rw [List.length_append,List.length_singleton]
    omega
  · rw [field_concat,if_neg (by omega)]
    exact h.bytes
  · exact h.frame

end Push

/-- What the writer's locals say about the characters it has seen. -/
structure Scan.Spelled (outName outExt : Memory) (cs : List UInt8) (s : Scan) : Prop where
  mode : s.inExt = true ↔ dot ∈ cs
  name : Part 8 outName (base cs) s.outName s.ni
  ext : Part 3 outExt (extension cs) s.outExt s.ei

theorem blankScan_spelled (outName outExt : Memory) :
    Scan.Spelled outName outExt [] (blankScan outName outExt) :=
  ⟨by simp [blankScan],part_blank 8 outName,part_blank 3 outExt⟩

theorem Scan.Spelled.step {outName outExt : Memory} {cs : List UInt8} {s : Scan}
    (h : s.Spelled outName outExt cs) (c : UInt8) :
    (s.step c).Spelled outName outExt (cs++[c]) := by
  have hbase := base_concat cs c
  have hext := extension_concat cs c
  unfold Scan.step
  by_cases hc : c = dot
  · rw [if_pos (.inr hc)] at hbase
    rw [if_neg (fun hn => hn.2 hc)] at hext
    rw [if_pos hc]
    constructor
    · simp [hc]
    · rw [hbase]
      exact h.name
    · rw [hext]
      exact h.ext
  · rw [if_neg hc]
    have hmode : s.inExt = true ↔ dot ∈ cs++[c] := by
      rw [h.mode]
      simp [Ne.symm hc]
    by_cases he : s.inExt = true
    · have hin := h.mode.mp he
      rw [if_pos (.inl hin)] at hbase
      rw [if_pos ⟨hin,hc⟩] at hext
      rw [if_pos he]
      split_ifs with hk
      · exact ⟨hmode,hbase ▸ h.name,hext ▸ h.ext.push hk c⟩
      · exact ⟨hmode,hbase ▸ h.name,hext ▸ h.ext.full hk c⟩
    · have hno : ¬(dot ∈ cs ∨ c = dot) := not_or.mpr ⟨fun hin => he (h.mode.mpr hin),hc⟩
      rw [if_neg hno] at hbase
      rw [if_neg (fun hin => hno (.inl hin.1))] at hext
      rw [if_neg he]
      split_ifs with hk
      · exact ⟨hmode,hbase ▸ h.name.push hk c,hext ▸ h.ext⟩
      · exact ⟨hmode,hbase ▸ h.name.full hk c,hext ▸ h.ext⟩

theorem foldl_spelled (outName outExt : Memory) (cs : List UInt8) :
    (cs.foldl Scan.step (blankScan outName outExt)).Spelled outName outExt cs := by
  induction cs using List.reverseRecOn with
  | nil => exact blankScan_spelled outName outExt
  | append_singleton cs c ih =>
      rw [List.foldl_append]
      exact ih.step c

/-! ### The reader -/

theorem ReadScan.step_frame (s : ReadScan) (c : UInt8) {i : ℕ} (hi : 11 ≤ i) :
    (s.step c).output i = s.output i := by
  unfold ReadScan.step
  split_ifs with hc hm hn he
  · rfl
  · exact Function.update_of_ne (by omega) _ _
  · rfl
  · exact Function.update_of_ne (by omega) _ _
  · rfl

theorem format83Name_frame (name : CString) (output : Memory) {i : ℕ} (hi : 11 ≤ i) :
    format83Name name output i = output i := by
  have hscan : ∀ (cs : List UInt8) (k : ℕ) (s : ReadScan),
      (readScanFrom k cs s).output i = s.output i := by
    intro cs
    induction cs with
    | nil => exact fun k s => rfl
    | cons c cs ih =>
        intro k s
        rw [readScanFrom]
        split_ifs
        · rw [ih,s.step_frame c hi]
        · rfl
  unfold format83Name
  rw [hscan]
  exact fill_outside (by omega)

/-! ### Both in the reference form -/

section Names
variable {name : CString}

/-- The two dot names are answered before the scan. -/
def NotDots (name : CString) : Prop := name.chars ≠ [dot] ∧ name.chars ≠ [dot,dot]

theorem format83_spelled (h : NotDots name) (outName outExt : Memory) :
    let r := format83 name outName outExt
    bytesOf r.1 8++bytesOf r.2 3 = shortForm name.chars ∧
      (∀ i, 8 ≤ i → r.1 i = outName i) ∧ ∀ i, 3 ≤ i → r.2 i = outExt i := by
  have hs := foldl_spelled outName outExt name.chars
  have hr : format83 name outName outExt =
      ((name.chars.foldl Scan.step (blankScan outName outExt)).outName,
        (name.chars.foldl Scan.step (blankScan outName outExt)).outExt) := by
    unfold format83
    simp only [if_neg h.1,if_neg h.2]
  rw [hr]
  dsimp only
  rw [hs.name.bytes,hs.ext.bytes]
  exact ⟨rfl,hs.name.frame,hs.ext.frame⟩

theorem format83Name_spelled (hl : name.chars.length ≤ 64) (h : NotDots name) (output : Memory) :
    bytesOf (format83Name name output) 11 = shortForm name.chars := by
  rw [← (format83_spelled h (fun _ => 0) fun _ => 0).1,
    bytesOf_congr (format83Name_eq name output hl h.1 h.2),bytesOf_add (entryName name) 8 3]
  congr 1

/-- A memory is its first bytes and the rest. -/
theorem memory_ext {m m' before : Memory} {n : ℕ} (hb : bytesOf m n = bytesOf m' n)
    (hm : ∀ i, n ≤ i → m i = before i) (hm' : ∀ i, n ≤ i → m' i = before i) : m = m' := by
  funext i
  by_cases hi : i < n
  · exact bytesOf_inj hb hi
  · rw [hm i (Nat.le_of_not_lt hi),hm' i (Nat.le_of_not_lt hi)]

theorem toUpper_ne_dot (c : UInt8) : decide (toUpper c ≠ dot) = decide (c ≠ dot) :=
  decide_eq_decide.mpr (toUpper_eq_iff (by decide)).not

/-- The reference form does not see the case of letters. -/
theorem shortForm_caseless {a b : List UInt8} (h : a.map toUpper = b.map toUpper) :
    shortForm a = shortForm b := by
  have hform : ∀ cs : List UInt8, shortForm (cs.map toUpper) = shortForm cs := by
    intro cs
    have hp : (fun c => decide (c ≠ dot)) ∘ toUpper = fun c => decide (c ≠ dot) :=
      funext toUpper_ne_dot
    have hu : toUpper ∘ toUpper = toUpper := funext toUpper_toUpper
    have hfield : ∀ n (l : List UInt8), field n (l.map toUpper) = field n l := by
      intro n l
      unfold field
      rw [List.length_map,← List.map_take,List.map_map,hu]
    unfold shortForm base extension
    rw [List.takeWhile_map,List.dropWhile_map,List.filter_map,hp,hfield,hfield]
  rw [← hform a,h,hform b]

theorem format83Name_caseless {other : CString} (hl : name.chars.length ≤ 64) (h : NotDots name)
    (hsame : other.chars.map toUpper = name.chars.map toUpper) (output : Memory) :
    format83Name other output = format83Name name output := by
  have hl' : other.chars.length ≤ 64 := by
    rw [← List.length_map toUpper,hsame,List.length_map]
    exact hl
  have h' : NotDots other := by
    constructor
    · intro hd
      rw [← (map_toUpper_dots _).1,hsame,(map_toUpper_dots _).1] at hd
      exact h.1 hd
    · intro hd
      rw [← (map_toUpper_dots _).2,hsame,(map_toUpper_dots _).2] at hd
      exact h.2 hd
  apply memory_ext (n := 11)
  · rw [format83Name_spelled hl h,format83Name_spelled hl' h',shortForm_caseless hsame]
  · exact fun i hi => format83Name_frame other output hi
  · exact fun i hi => format83Name_frame name output hi

/-- What the reader looks for is what the writer stored, in the reference form; nothing
behind the arrays is written, and the case of letters does not matter. -/
theorem nameScanners_agree (name : CString) (hl : name.chars.length ≤ 64) (h : NotDots name)
    (output outName outExt : Memory) :
    let r := format83 name outName outExt
    bytesOf (format83Name name output) 11 = bytesOf r.1 8++bytesOf r.2 3 ∧
      bytesOf (format83Name name output) 11 = shortForm name.chars ∧
      (∀ i, 11 ≤ i → format83Name name output i = output i) ∧
      (∀ i, 8 ≤ i → r.1 i = outName i) ∧
      (∀ i, 3 ≤ i → r.2 i = outExt i) ∧
      ∀ other : CString, other.chars.map toUpper = name.chars.map toUpper →
        format83Name other output = format83Name name output ∧
          format83 other outName outExt = r := by
  intro r
  have hr := format83_spelled h outName outExt
  have ho := format83Name_spelled hl h output
  exact ⟨ho.trans hr.1.symm,ho,fun i => format83Name_frame name output,hr.2.1,hr.2.2,
    fun other hsame =>
      ⟨format83Name_caseless hl h hsame output,format83_caseless hsame outName outExt⟩⟩

end Names

/-- "a.b.cfg": the second dot belongs to neither part. -/
def dottedName : CString := ⟨[0x61,0x2E,0x62,0x2E,0x63,0x66,0x67],by simp⟩

theorem nameScanners_agree_dotted : bytesOf (format83Name dottedName fun _ => 0) 11 =
    [0x41,0x20,0x20,0x20,0x20,0x20,0x20,0x20,0x42,0x43,0x46] := by
  have hdots : NotDots dottedName := by constructor <;> simp [dottedName]
  have h := nameScanners_agree dottedName (by decide) hdots (fun _ => 0) (fun _ => 0) fun _ => 0
  exact h.2.1.trans (by decide)

end Gemiboot.ShortNames
