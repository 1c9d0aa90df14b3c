import Gemiboot.GopConsole
import Gemiboot.SerialPort

/-!
# The UEFI console

`uefi_puts` and `uefi_put_dec`, the same in `efi64.c` and `efi32.c`. `uefi_puts` copies
the string into a line of 256 UTF-16 units for the firmware console and draws each
character on the framebuffer. The first loop may stop inside the string when the line
is full; the second goes on from there for the framebuffer alone. What the firmware
console does to memory when it prints is a parameter.
-/
namespace Gemiboot.UefiConsole
open ByteMemory DecimalText FixedBuffers GopConsole SerialPort ShortNames

structure Screen where
  console : Console
  /-- Ghost: the characters passed to `gop_draw_char`, in order. -/
  drawn : List UInt8
  /-- The texts given to `OutputString`, in order. -/
  texts : List (List UInt16)

/-- The line of the first loop with its write index. -/
structure Line where
  buf : List UInt16
  j : ℕ
  /-- Ghost: the indices written, in order. -/
  written : List ℕ

/-- `buf[j++] = u`. -/
def Line.push (l : Line) (u : UInt16) : Option Line := do
  let buf ← put l.buf l.j u
  some ⟨buf,l.j+1,l.written++[l.j]⟩

/-- `if (str[i] == '\n') buf[j++] = '\r'`. -/
def Line.pushReturn (l : Line) (c : UInt8) : Option Line :=
  if c = lineFeed then l.push carriageReturn.toUInt16 else some l

section Printing
variable (w : ℕ) (font : Memory) (fb : Framebuffer)

/-- `if (g_fb_base) gop_draw_char(c)`. -/
def draw (c : UInt8) (s : Screen) : Screen :=
  if fb.base = 0 then s
  else {s with console := gopDrawChar w font fb c s.console, drawn := s.drawn++[c]}

/-- The first loop, on the characters from `str[i]` on; it returns those it left. -/
def fillLine : List UInt8 → Line → Screen → Option (List UInt8 × Line × Screen)
  | [],_,_ => none
  | c::cs,l,s =>
      if c ≠ 0 ∧ l.j < 254 then do
        let l ← l.pushReturn c
        let l ← l.push c.toUInt16
        fillLine cs l (draw w font fb c s)
      else some (c::cs,l,s)

/-- `while (str[i])`, the second loop. -/
def drawRest : List UInt8 → Screen → Option Screen
  | [],_ => none
  | c::cs,s => if c = 0 then some s else drawRest cs (draw w font fb c s)

/-- `OutputString` reads the line up to its terminator. -/
def outputString (firmware : List UInt16 → Memory → Memory) (text : List UInt16)
    (s : Screen) : Screen :=
  { s with
    console := {s.console with mem := firmware text s.console.mem}
    texts := s.texts++[text] }

/-- `conOut` says whether there is a firmware console; the indices written are returned. -/
def uefiPuts (firmware : List UInt16 → Memory → Memory) (conOut : Bool)
    (buf : Vector UInt16 256) (str : List UInt8) (s : Screen) : Option (Screen × List ℕ) :=
  if conOut then do
    let (rest,l,s) ← fillLine w font fb str ⟨buf.toList,0,[]⟩ s
    let l ← l.push 0
    let text ← textOf l.buf
    let s ← drawRest w font fb rest (outputString firmware text s)
    some (s,l.written)
  else do
    let s ← drawRest w font fb str s
    some (s,[])

/-- The digits are written backwards, terminated, and reversed where they are. -/
def uefiPutDec (firmware : List UInt16 → Memory → Memory) (conOut : Bool) (fuel : ℕ)
    (digits : Vector UInt8 16) (buf : Vector UInt16 256) (val : ℕ) (s : Screen) :
    Option (Screen × List ℕ) :=
  if val = 0 then uefiPuts w font fb firmware conOut buf [zeroChar,0] s
  else do
    let (digits,i) ← pushDigits fuel digits.toList 0 val
    let digits ← put digits i 0
    let digits ← swapEnds fuel digits 0 (i-1)
    uefiPuts w font fb firmware conOut buf digits s

end Printing

/-! ### The line -/

/-- The line holds the text `t` and nothing else has been written. -/
structure Line.Holds (l : Line) (t : List UInt8) : Prop where
  index : l.j = t.length
  text : t.map UInt8.toUInt16 <+: l.buf
  size : l.buf.length = 256
  written : l.written = List.range t.length

theorem Line.Holds.push {l : Line} {t : List UInt8} (h : l.Holds t) (c : UInt8)
    (ht : t.length < 256) : ∃ l', l.push c.toUInt16 = some l' ∧ l'.Holds (t++[c]) := by
  have hlen : (t.map UInt8.toUInt16).length = l.j := by rw [List.length_map,h.index]
  have hlt : (t.map UInt8.toUInt16).length < l.buf.length := by
    rw [List.length_map,h.size]
    exact ht
  rcases put_prefix c.toUInt16 h.text hlt with ⟨buf,hput,hpre,hsize⟩
  rw [hlen] at hput
  refine ⟨⟨buf,l.j+1,l.written++[l.j]⟩,?_,?_,?_,hsize.trans h.size,?_⟩
  · rw [Line.push,hput]
    rfl
  · rw [List.length_append,List.length_singleton,← h.index]
  · rw [List.map_append]
    exact hpre
  · change l.written++[l.j] = _
    rw [h.written,h.index,List.length_append,List.length_singleton,List.range_succ]

theorem expandNewlines_cons (c : UInt8) (cs : List UInt8) :
    expandNewlines (c::cs) = expandNewlines [c]++expandNewlines cs := by
  rw [expandNewlines,List.flatMap_cons,expandNewlines,expandNewlines,List.flatMap_cons,
    List.flatMap_nil,List.append_nil]

theorem expandNewlines_append (cs ds : List UInt8) :
    expandNewlines (cs++ds) = expandNewlines cs++expandNewlines ds := by
  rw [expandNewlines,List.flatMap_append,expandNewlines,expandNewlines]

/-- One character takes at most two units, so it fits while the index is below 254. -/
theorem Line.Holds.pushChar {l : Line} {t : List UInt8} (h : l.Holds t) (c : UInt8)
    (ht : t.length < 254) : ∃ l₁ l₂, l.pushReturn c = some l₁ ∧
      l₁.push c.toUInt16 = some l₂ ∧ l₂.Holds (t++expandNewlines [c]) ∧
      (t++expandNewlines [c]).length ≤ 255 := by
  by_cases hc : c = lineFeed
  · rcases h.push carriageReturn (by omega) with ⟨l₁,h₁,hl₁⟩
    have ht₁ : (t++[carriageReturn]).length < 256 := by
      rw [List.length_append,List.length_singleton]
      omega
    rcases hl₁.push c ht₁ with ⟨l₂,h₂,hl₂⟩
    have hexp : t++[carriageReturn]++[c] = t++expandNewlines [c] := by
      rw [expandNewlines,List.flatMap_cons,if_pos hc,List.flatMap_nil,List.append_nil,
        List.append_assoc]
      rfl
    rw [hexp] at hl₂
    refine ⟨l₁,l₂,?_,h₂,hl₂,?_⟩
    · rw [Line.pushReturn,if_pos hc,h₁]
    · rw [← hexp,List.length_append,List.length_append,List.length_singleton,
        List.length_singleton]
      omega
  · rcases h.push c (by omega) with ⟨l₂,h₂,hl₂⟩
    have hexp : t++[c] = t++expandNewlines [c] := by
      rw [expandNewlines,List.flatMap_cons,if_neg hc,List.flatMap_nil,List.append_nil]
    rw [hexp] at hl₂
    refine ⟨l,l₂,?_,h₂,hl₂,?_⟩
    · rw [Line.pushReturn,if_neg hc]
    · rw [← hexp,List.length_append,List.length_singleton]
      omega

theorem toUInt16_ne_zero {c : UInt8} (h : c ≠ 0) : c.toUInt16 ≠ 0 := by
  intro hc
  apply h
  rw [← UInt8.toNat_inj]
  have hn : c.toUInt16.toNat = 0 := by rw [hc]; rfl
  rwa [UInt8.toNat_toUInt16] at hn

theorem expandNewlines_nonzero {cs : List UInt8} (h : ∀ c ∈ cs, c ≠ 0) :
    ∀ u ∈ (expandNewlines cs).map UInt8.toUInt16, u ≠ 0 := by
  intro u hu
  rcases List.mem_map.mp hu with ⟨d,hd,rfl⟩
  rcases List.mem_flatMap.mp hd with ⟨c,hc,hdc⟩
  apply toUInt16_ne_zero
  split_ifs at hdc with hlf
  · rcases List.mem_cons.mp hdc with rfl | hd
    · decide
    · rw [List.mem_singleton.mp hd]
      exact h c hc
  · rw [List.mem_singleton.mp hdc]
    exact h c hc

/-! ### The two loops -/

section Loops
variable (w : ℕ) (font : Memory) (fb : Framebuffer)

def drawChars (cs : List UInt8) (s : Screen) : Screen :=
  cs.foldl (fun s c => draw w font fb c s) s

theorem drawChars_texts (cs : List UInt8) (s : Screen) :
    (drawChars w font fb cs s).texts = s.texts := by
  induction cs generalizing s with
  | nil => rfl
  | cons c cs ih =>
      have hc : (draw w font fb c s).texts = s.texts := by
        unfold draw
        split_ifs <;> rfl
      exact (ih (draw w font fb c s)).trans hc

theorem drawChars_drawn (cs : List UInt8) (s : Screen) (h : fb.base ≠ 0) :
    (drawChars w font fb cs s).drawn = s.drawn++cs := by
  induction cs generalizing s with
  | nil => exact (List.append_nil s.drawn).symm
  | cons c cs ih =>
      have hc : (draw w font fb c s).drawn = s.drawn++[c] := by rw [draw,if_neg h]
      have hrest := ih (draw w font fb c s)
      rw [hc,List.append_assoc] at hrest
      exact hrest

theorem drawRest_spec {cs : List UInt8} (after : List UInt8) (s : Screen)
    (h : ∀ c ∈ cs, c ≠ 0) :
    drawRest w font fb (cs++0::after) s = some (drawChars w font fb cs s) := by
  induction cs generalizing s with
  | nil => rfl
  | cons c cs ih =>
      have hc : c ≠ 0 := h c List.mem_cons_self
      rw [List.cons_append,drawRest,if_neg hc,ih _ fun d hd => h d (List.mem_cons_of_mem c hd)]
      rfl

/-- The first loop takes a prefix of the string, and leaves none of it or a full line. -/
theorem fillLine_spec {cs t : List UInt8} {l : Line} (after : List UInt8) (s : Screen)
    (h : ∀ c ∈ cs, c ≠ 0) (hl : l.Holds t) (ht : t.length ≤ 255) :
    ∃ pre rest l', cs = pre++rest ∧
      fillLine w font fb (cs++0::after) l s =
        some (rest++0::after,l',drawChars w font fb pre s) ∧
      l'.Holds (t++expandNewlines pre) ∧ (t++expandNewlines pre).length ≤ 255 ∧
      (rest ≠ [] → 254 ≤ (t++expandNewlines pre).length) := by
  induction cs generalizing t l s with
  | nil =>
      refine ⟨[],[],l,rfl,?_,?_,?_,?_⟩
      · simp [fillLine,drawChars]
      · simpa [expandNewlines] using hl
      · simpa [expandNewlines] using ht
      · intro hne
        exact absurd rfl hne
  | cons c cs ih =>
      have hc : c ≠ 0 := h c List.mem_cons_self
      by_cases hj : t.length < 254
      · rcases hl.pushChar c hj with ⟨l₁,l₂,h₁,h₂,hl₂,ht₂⟩
        rcases ih (draw w font fb c s) (fun d hd => h d (List.mem_cons_of_mem c hd)) hl₂ ht₂
          with ⟨pre,rest,l',hsplit,hrun,hhold,hlen,hfull⟩
        have hexp : t++expandNewlines [c]++expandNewlines pre = t++expandNewlines (c::pre) := by
          rw [expandNewlines_cons c pre,List.append_assoc]
        rw [hexp] at hhold hlen hfull
        refine ⟨c::pre,rest,l',?_,?_,hhold,hlen,hfull⟩
        · rw [hsplit,List.cons_append]
        · rw [List.cons_append,fillLine,if_pos ⟨hc,by rwa [hl.index]⟩,h₁]
          simp only [Option.bind_eq_bind,Option.bind_some,h₂]
          exact hrun
      · have hnil : t++expandNewlines [] = t := List.append_nil t
        refine ⟨[],c::cs,l,rfl,?_,?_,?_,?_⟩
        · rw [List.cons_append,fillLine,if_neg (by rw [hl.index]; omega)]
          rfl
        · rwa [hnil]
        · rwa [hnil]
        · intro hne
          rw [hnil]
          omega

/-- With a firmware console: what it is given and where the framebuffer ends up. -/
theorem uefiPuts_console (firmware : List UInt16 → Memory → Memory) (buf : Vector UInt16 256)
    (str : CString) (after : List UInt8) (s : Screen) :
    ∃ pre rest, str.chars = pre++rest ∧
      uefiPuts w font fb firmware true buf (str.chars++0::after) s =
        some (drawChars w font fb rest (outputString firmware
          ((expandNewlines pre).map UInt8.toUInt16) (drawChars w font fb pre s)),
          List.range ((expandNewlines pre).length+1)) ∧
      (expandNewlines pre).length ≤ 255 ∧ (rest ≠ [] → 254 ≤ (expandNewlines pre).length) := by
  have hstart : Line.Holds ⟨buf.toList,0,[]⟩ [] := ⟨rfl,List.nil_prefix,by simp,rfl⟩
  rcases fillLine_spec w font fb after s str.nonzero hstart (by simp)
    with ⟨pre,rest,l,hsplit,hrun,hhold,hlen,hfull⟩
  rw [List.nil_append] at hhold hlen hfull
  rcases hhold.push 0 (by omega) with ⟨l',hpush,hl'⟩
  have hpre : ∀ c ∈ pre, c ≠ 0 := fun c hc => str.nonzero c (by
    rw [hsplit]
    exact List.mem_append_left rest hc)
  have hrest : ∀ c ∈ rest, c ≠ 0 := fun c hc => str.nonzero c (by
    rw [hsplit]
    exact List.mem_append_right pre hc)
  have htext : textOf l'.buf = some ((expandNewlines pre).map UInt8.toUInt16) := by
    apply textOf_prefix _ (expandNewlines_nonzero hpre)
    have hmap := hl'.text
    rw [List.map_append] at hmap
    exact hmap
  have hwritten := hl'.written
  rw [List.length_append,List.length_singleton] at hwritten
  refine ⟨pre,rest,hsplit,?_,hlen,hfull⟩
  rw [uefiPuts,if_pos rfl,hrun]
  change l.push 0 = some l' at hpush
  simp only [Option.bind_eq_bind,Option.bind_some,hpush,htext]
  rw [drawRest_spec w font fb after _ hrest,hwritten]
  rfl

theorem uefiPuts_silent (firmware : List UInt16 → Memory → Memory) (buf : Vector UInt16 256)
    (str : CString) (after : List UInt8) (s : Screen) :
    uefiPuts w font fb firmware false buf (str.chars++0::after) s =
      some (drawChars w font fb str.chars s,[]) := by
  rw [uefiPuts,if_neg Bool.false_ne_true,drawRest_spec w font fb after s str.nonzero]
  rfl

theorem expandNewlines_length (cs : List UInt8) : cs.length ≤ (expandNewlines cs).length := by
  induction cs with
  | nil => exact Nat.le_refl 0
  | cons c cs ih =>
      have hc : 1 ≤ (expandNewlines [c]).length := by
        rw [expandNewlines,List.flatMap_cons,List.flatMap_nil,List.append_nil]
        split_ifs
        · exact Nat.le_succ 1
        · exact Nat.le_refl 1
      rw [expandNewlines_cons,List.length_append,List.length_cons]
      omega

/-- A line that had to stop early would have held more than 254 units. -/
theorem rest_eq_nil {cs pre rest : List UInt8} (hsplit : cs = pre++rest)
    (hfull : rest ≠ [] → 254 ≤ (expandNewlines pre).length)
    (h : (expandNewlines cs).length ≤ 254) : rest = [] := by
  by_contra hne
  have hlen := expandNewlines_length rest
  have hpos := List.length_pos_iff.mpr hne
  have hpre := hfull hne
  rw [hsplit,expandNewlines_append,List.length_append] at h
  omega

theorem outputString_texts (firmware : List UInt16 → Memory → Memory) (text : List UInt16)
    (s : Screen) : (outputString firmware text s).texts = s.texts++[text] := rfl

theorem outputString_drawn (firmware : List UInt16 → Memory → Memory) (text : List UInt16)
    (s : Screen) : (outputString firmware text s).drawn = s.drawn := rfl

/-- The characters drawn before and after the firmware call are the whole string. -/
theorem drawn_around (firmware : List UInt16 → Memory → Memory) (text : List UInt16)
    (pre rest : List UInt8) (s : Screen) (h : fb.base ≠ 0) :
    (drawChars w font fb rest (outputString firmware text (drawChars w font fb pre s))).drawn =
      s.drawn++(pre++rest) := by
  rw [drawChars_drawn w font fb rest _ h,outputString_drawn,drawChars_drawn w font fb pre s h,
    List.append_assoc]

theorem texts_around (firmware : List UInt16 → Memory → Memory) (text : List UInt16)
    (pre rest : List UInt8) (s : Screen) :
    (drawChars w font fb rest (outputString firmware text (drawChars w font fb pre s))).texts =
      s.texts++[text] := by
  rw [drawChars_texts,outputString_texts,drawChars_texts]

theorem uefiPuts_short (firmware : List UInt16 → Memory → Memory) (conOut : Bool)
    (buf : Vector UInt16 256) (str : CString) (after : List UInt8) (s : Screen)
    (h : (expandNewlines str.chars).length ≤ 254) :
    ∃ s' written, uefiPuts w font fb firmware conOut buf (str.chars++0::after) s =
        some (s',written) ∧
      (fb.base ≠ 0 → s'.drawn = s.drawn++str.chars) ∧
      (conOut = true → s'.texts = s.texts++[(expandNewlines str.chars).map UInt8.toUInt16]) := by
  cases conOut with
  | false =>
      refine ⟨_,_,uefiPuts_silent w font fb firmware buf str after s,
        drawChars_drawn w font fb str.chars s,?_⟩
      intro hf
      exact absurd hf Bool.false_ne_true
  | true =>
      rcases uefiPuts_console w font fb firmware buf str after s
        with ⟨pre,rest,hsplit,hrun,-,hfull⟩
      have hnil := rest_eq_nil hsplit hfull h
      rw [hnil,List.append_nil] at hsplit
      rw [hnil,← hsplit] at hrun
      refine ⟨_,_,hrun,?_,?_⟩
      · intro hb
        rw [drawn_around w font fb firmware _ str.chars [] s hb,List.append_nil]
      · intro _
        exact texts_around w font fb firmware _ str.chars [] s

/-- The array handed to `uefi_puts` begins with the decimal text and a terminator. -/
theorem uefiPutDec_eq (firmware : List UInt16 → Memory → Memory) (conOut : Bool) {fuel val : ℕ}
    (digits : Vector UInt8 16) (buf : Vector UInt16 256) (s : Screen) (hval : val < 4294967296)
    (hfuel : 10 < fuel) :
    ∃ after, uefiPutDec w font fb firmware conOut fuel digits buf val s =
      uefiPuts w font fb firmware conOut buf (decimal val++0::after) s := by
  unfold uefiPutDec decimal
  split_ifs with h
  · exact ⟨[],rfl⟩
  · have hlen : (reversedDigits val).length ≤ 10 := reversedDigits_length (by omega)
    have hcap : digits.toList.length = 16 := by simp
    rcases pushDigits_spec (List.nil_prefix : [] <+: digits.toList)
      (by rw [List.length_nil]; omega) (show (reversedDigits val).length < fuel by omega)
      with ⟨ds₁,hrun,hpre,hlen₁⟩
    rw [List.length_nil,Nat.zero_add] at hrun
    rw [List.nil_append] at hpre
    rcases put_prefix 0 hpre (by omega) with ⟨ds₂,hput,⟨r,rfl⟩,-⟩
    have hswap := swapEnds_reverse [] (reversedDigits val) (0::r)
      (show (reversedDigits val).length < fuel by omega)
    rw [List.nil_append,List.length_nil,Nat.zero_add,List.nil_append] at hswap
    have hshape : reversedDigits val++[0]++r = reversedDigits val++0::r := by
      rw [List.append_assoc,List.singleton_append]
    rw [hshape] at hput
    refine ⟨r,?_⟩
    rw [hrun]
    simp only [Option.bind_eq_bind,Option.bind_some,hput,hswap]

theorem expandNewlines_digits {cs : List UInt8} (h : ∀ c ∈ cs, IsDigit c) :
    expandNewlines cs = cs := by
  induction cs with
  | nil => rfl
  | cons c cs ih =>
      have hc : c ≠ lineFeed := (h c List.mem_cons_self).ne.2
      rw [expandNewlines_cons,ih fun d hd => h d (List.mem_cons_of_mem c hd),expandNewlines,
        List.flatMap_cons,if_neg hc]
      rfl

theorem decimal_length {val : ℕ} (h : val < 4294967296) : (decimal val).length ≤ 10 := by
  unfold decimal
  split_ifs
  · exact (by decide : 1 ≤ 10)
  · rw [List.length_reverse]
    exact reversedDigits_length (by omega)

/-- Both printers end with the same characters, the decimal text of their argument. -/
theorem putDec_roundTrip (firmware : List UInt16 → Memory → Memory) {val : ℕ}
    (hval : val < 4294967296) :
    ∃ cs : List UInt8,
      (∀ fuel > 10, ∀ buf, serialPutDec fuel buf val = some cs) ∧
      (∀ p : Port, p.KeepsReady →
        ∃ fuel n, serialSend fuel p cs = some ⟨p.status,n,p.sent++cs⟩) ∧
      (∀ fuel > 10, ∀ conOut digits buf s, ∃ s' written,
        uefiPutDec w font fb firmware conOut fuel digits buf val s = some (s',written) ∧
        (fb.base ≠ 0 → s'.drawn = s.drawn++cs) ∧
        (conOut = true → s'.texts = s.texts++[cs.map UInt8.toUInt16])) ∧
      (∀ c ∈ cs, IsDigit c) ∧
      (val = 0 → cs = [zeroChar]) ∧ (val ≠ 0 → cs.head? ≠ some zeroChar) ∧
      valueOf cs = val := by
  have hdigits := decimal_isDigit val
  have hplain := expandNewlines_digits hdigits
  refine ⟨decimal val,?_,?_,?_,hdigits,?_,decimal_head,valueOf_decimal val⟩
  · intro fuel hfuel buf
    exact serialPutDec_spec buf hval hfuel
  · intro p hp
    exact serialSend_sends hp (decimal val)
  · intro fuel hfuel conOut digits buf s
    rcases uefiPutDec_eq w font fb firmware conOut digits buf s hval hfuel with ⟨after,hrun⟩
    have hshort : (expandNewlines (decimal val)).length ≤ 254 := by
      have hlen := decimal_length hval
      rw [hplain]
      omega
    rcases uefiPuts_short w font fb firmware conOut buf
      ⟨decimal val,fun c hc => (hdigits c hc).ne.1⟩ after s hshort with ⟨s',written,h,hd,ht⟩
    rw [hplain] at ht
    exact ⟨s',written,hrun.trans h,hd,ht⟩
  · rintro rfl
    exact decimal_zero

end Loops

/-- The largest argument, ten digits long. -/
theorem putDec_roundTrip_max : ∃ cs : List UInt8,
    serialPutDec 11 (Vector.replicate 12 0) 4294967295 = some cs ∧ valueOf cs = 4294967295 := by
  rcases putDec_roundTrip 4294967296 (fun _ => 0) ⟨0,0,0,0⟩ (fun _ m => m)
    (show 4294967295 < 4294967296 by decide) with ⟨cs,hs,-,-,-,-,-,hv⟩
  exact ⟨cs,hs 11 (by decide) _,hv⟩

end Gemiboot.UefiConsole
