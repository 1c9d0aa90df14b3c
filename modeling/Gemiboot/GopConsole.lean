import Gemiboot.MemoryRoutines
import Gemiboot.TextTerminal

/-!
# The framebuffer console

`gop_clear_screen`, `gop_scroll` and `gop_draw_char`, which `efi64.c` and `efi32.c` share
word for word; `w` is the size of the address space, where the two differ. The font is a
table of 16 bytes a glyph. A ghost field remembers every byte assigned to.
-/
namespace Gemiboot.GopConsole
open ByteMemory MemoryRoutines

def fontWidth : ℕ := 8
def fontHeight : ℕ := 16
def fontFirstChar : ℕ := 32
def fontLastChar : ℕ := 126
def fgColor : ℕ := 0x00FFFFFF
def bgColor : ℕ := 0x00000000

/-- `g_fb_base`, `g_fb_width`, `g_fb_height` and `g_fb_pitch`. -/
structure Framebuffer where
  base : ℕ
  width : ℕ
  height : ℕ
  pitch : ℕ

structure Console where
  cursorX : ℕ
  cursorY : ℕ
  mem : Memory
  /-- Ghost: every address assigned to, the latest first. -/
  written : List ℕ

/-- The bytes `d[0]` to `d[n - 1]`. -/
def targets (w dest n : ℕ) : List ℕ := (List.range n).map fun i => (dest+i)%w

def gopClearScreen (w : ℕ) (fb : Framebuffer) (g : Console) : Console :=
  if fb.base = 0 ∨ fb.height = 0 ∨ fb.pitch = 0 then g
  else
    let n := u32 (fb.height*fb.pitch)
    ⟨0,0,memset w g.mem fb.base 0 n,targets w fb.base n++g.written⟩

/-- `height - FONT_HEIGHT` is an unsigned subtraction. -/
def gopScroll (w : ℕ) (fb : Framebuffer) (g : Console) : Console :=
  if fb.base = 0 ∨ fb.height = 0 ∨ fb.pitch = 0 then g
  else
    let lineBytes := u32 (fontHeight*fb.pitch)
    let copyBytes := u32 (u32 (fb.height+4294967296-fontHeight)*fb.pitch)
    let m := memmove w g.mem fb.base ((fb.base+lineBytes)%w) copyBytes
    { g with
      mem := memset w m ((fb.base+copyBytes)%w) 0 lineBytes
      written := targets w ((fb.base+copyBytes)%w) lineBytes++
        (targets w fb.base copyBytes++g.written) }

/-- The lines `gop_draw_char` has twice, for a line feed and for a wrap. -/
def nextLine (w : ℕ) (fb : Framebuffer) (g : Console) : Console :=
  let g := {g with cursorX := 0, cursorY := u32 (g.cursorY+1)}
  if u32 (u32 (g.cursorY+1)*fontHeight) > fb.height then
    {gopScroll w fb g with cursorY := u32 (fb.height/fontHeight+4294967295)}
  else g

/-- `glyph[y]`, out of the font or of the blank glyph. -/
def glyphRow (font : Memory) (c : UInt8) (y : ℕ) : UInt8 :=
  if fontFirstChar ≤ c.toNat ∧ c.toNat ≤ fontLastChar then
    font ((c.toNat-fontFirstChar)*fontHeight+y)
  else 0

/-- `line[x] = v`. -/
def putPixel (w line x v : ℕ) (g : Console) : Console :=
  let a := (line+4*x)%w
  {g with mem := store 4 g.mem a v, written := targets w a 4++g.written}

def drawRow (w line : ℕ) (row : UInt8) (g : Console) : Console :=
  (List.range fontWidth).foldl (fun g x =>
    putPixel w line x (if row.toNat &&& (0x80 >>> x) ≠ 0 then fgColor else bgColor) g) g

def drawGlyph (w : ℕ) (fb : Framebuffer) (glyph : ℕ → UInt8) (pxStart pyStart : ℕ)
    (g : Console) : Console :=
  (List.range fontHeight).foldl (fun g y =>
    drawRow w ((fb.base+u32 (u32 (pyStart+y)*fb.pitch)+u32 (pxStart*4))%w) (glyph y) g) g

def gopDrawChar (w : ℕ) (font : Memory) (fb : Framebuffer) (c : UInt8) (g : Console) : Console :=
  if fb.base = 0 ∨ fb.width = 0 ∨ fb.height = 0 then g
  else if c = 0x0D then {g with cursorX := 0}
  else if c = 0x0A then nextLine w fb g
  else
    let g := if u32 (u32 (g.cursorX+1)*fontWidth) > fb.width then nextLine w fb g else g
    let g := drawGlyph w fb (glyphRow font c) (u32 (g.cursorX*fontWidth))
      (u32 (g.cursorY*fontHeight)) g
    {g with cursorX := u32 (g.cursorX+1)}

def drawAll (w : ℕ) (font : Memory) (fb : Framebuffer) (cs : List UInt8) (g : Console) : Console :=
  cs.foldl (fun g c => gopDrawChar w font fb c g) g

/-- A loop over `range n` keeps what each pass keeps. -/
theorem foldl_range_invariant {β : Type*} {f : β → ℕ → β} {P : ℕ → β → Prop} {b : β} (n : ℕ)
    (h₀ : P 0 b) (hs : ∀ i < n, ∀ b, P i b → P (i+1) (f b i)) :
    P n ((List.range n).foldl f b) := by
  induction n with
  | zero => exact h₀
  | succ n ih =>
      rw [List.range_succ,List.foldl_append]
      exact hs n (Nat.lt_succ_self n) _ (ih fun i hi => hs i (by omega))

/-! ### Geometry -/

/-- What the firmware promises about the mode. -/
structure Usable (w : ℕ) (fb : Framebuffer) : Prop where
  base : fb.base ≠ 0
  width : 8 ≤ fb.width
  height : 16 ≤ fb.height
  pitch : 4*fb.width ≤ fb.pitch
  size : fb.height*fb.pitch < 4294967296
  fits : fb.base+fb.height*fb.pitch ≤ w

/-- Byte `o` of scan line `y`. -/
def Framebuffer.addr (fb : Framebuffer) (y o : ℕ) : ℕ := fb.base+y*fb.pitch+o

def Framebuffer.Holds (fb : Framebuffer) (a : ℕ) : Prop :=
  fb.base ≤ a ∧ a < fb.base+fb.height*fb.pitch

section Geometry
variable {w : ℕ} {fb : Framebuffer}

theorem Usable.bounds (h : Usable w fb) : fb.width < 67108864 ∧ fb.height < 134217728 ∧
    16*fb.pitch ≤ fb.height*fb.pitch := by
  have hh := h.height
  have hp := h.pitch
  have hw := h.width
  have hs := h.size
  have h₁ : 16*fb.pitch ≤ fb.height*fb.pitch := Nat.mul_le_mul_right fb.pitch hh
  have h₂ : fb.height*32 ≤ fb.height*fb.pitch := Nat.mul_le_mul_left fb.height (by omega)
  omega

theorem line_end {y n p : ℕ} (h : y < n) : y*p+p ≤ n*p := by
  have hle : (y+1)*p ≤ n*p := Nat.mul_le_mul_right p h
  rwa [Nat.succ_mul] at hle

/-- Distinct lines do not overlap. -/
theorem addr_block (y y' : ℕ) {o o' n : ℕ} (ho : o < fb.pitch) (ho' : o'+n ≤ fb.pitch) :
    fb.addr y' o' ≤ fb.addr y o ∧ fb.addr y o < fb.addr y' o'+n ↔
      y = y' ∧ o' ≤ o ∧ o < o'+n := by
  unfold Framebuffer.addr
  constructor
  · intro hin
    rcases Nat.lt_trichotomy y y' with hlt | heq | hgt
    · have := line_end (p := fb.pitch) hlt
      omega
    · subst heq
      omega
    · have := line_end (p := fb.pitch) hgt
      omega
  · intro hin
    obtain ⟨rfl,h₁,h₂⟩ := hin
    omega

theorem addr_holds {y o : ℕ} (hy : y < fb.height) (ho : o < fb.pitch) : fb.Holds (fb.addr y o) := by
  have := line_end (p := fb.pitch) hy
  unfold Framebuffer.Holds Framebuffer.addr
  omega

end Geometry

/-! ### What a step writes -/

/-- Only bytes of the framebuffer are assigned to, and nothing else changes. -/
structure Within (fb : Framebuffer) (g g' : Console) : Prop where
  written : ∀ a ∈ g'.written, a ∈ g.written ∨ fb.Holds a
  frame : ∀ a, ¬fb.Holds a → g'.mem a = g.mem a

theorem Within.refl (fb : Framebuffer) (g : Console) : Within fb g g :=
  ⟨fun _ h => .inl h,fun _ _ => rfl⟩

theorem Within.trans {fb : Framebuffer} {g g' g'' : Console} (h : Within fb g g')
    (h' : Within fb g' g'') : Within fb g g'' := by
  constructor
  · intro a ha
    exact (h'.written a ha).elim (h.written a) .inr
  · intro a ha
    rw [h'.frame a ha,h.frame a ha]

/-- The cursor is not part of it. -/
theorem Within.moved {fb : Framebuffer} {g g' g'' : Console} (h : Within fb g g')
    (hm : g''.mem = g'.mem) (hw : g''.written = g'.written) : Within fb g g'' := by
  constructor
  · intro a ha
    rw [hw] at ha
    exact h.written a ha
  · intro a ha
    rw [hm]
    exact h.frame a ha

theorem mem_targets {w dest n a : ℕ} (h : dest+n ≤ w) (ha : a ∈ targets w dest n) :
    dest ≤ a ∧ a < dest+n := by
  obtain ⟨i,hi,rfl⟩ := List.mem_map.mp ha
  have hn := List.mem_range.mp hi
  rw [Nat.mod_eq_of_lt (show dest+i < w by omega)]
  omega

section Steps
variable {w : ℕ} {fb : Framebuffer}

/-- Assigning one block inside the framebuffer. -/
theorem within_block {g g' : Console} {dest n : ℕ} (src : Memory) (h : Usable w fb)
    (h₁ : fb.base ≤ dest) (h₂ : dest+n ≤ fb.base+fb.height*fb.pitch)
    (hm : g'.mem = blit g.mem dest n src) (hw : g'.written = targets w dest n++g.written) :
    Within fb g g' := by
  have hfits := h.fits
  constructor
  · intro a ha
    rw [hw] at ha
    rcases List.mem_append.mp ha with ha | ha
    · have := mem_targets (show dest+n ≤ w by omega) ha
      exact .inr ⟨by omega,by omega⟩
    · exact .inl ha
  · intro a ha
    unfold Framebuffer.Holds at ha
    rw [hm,blit_outside (by omega)]

theorem gopClearScreen_spec (h : Usable w fb) (g : Console) :
    (gopClearScreen w fb g).cursorX = 0 ∧ (gopClearScreen w fb g).cursorY = 0 ∧
      (∀ a, fb.Holds a → (gopClearScreen w fb g).mem a = 0) ∧
      Within fb g (gopClearScreen w fb g) := by
  have hb := h.base
  have hh := h.height
  have hp := h.pitch
  have hw := h.width
  have hset : memset w g.mem fb.base 0 (fb.height*fb.pitch) =
      blit g.mem fb.base (fb.height*fb.pitch) fun _ => 0 := memset_eq_fill h.fits
  unfold gopClearScreen
  rw [if_neg (by omega)]
  dsimp only
  rw [u32_of_lt h.size,hset]
  exact ⟨rfl,rfl,fun a ha => blit_inside ha.1 ha.2,within_block (fun _ => 0) h le_rfl le_rfl rfl rfl⟩

/-- The text moves up by one line of cells; the last one becomes blank. -/
theorem gopScroll_spec (h : Usable w fb) (g : Console) :
    (gopScroll w fb g).cursorX = g.cursorX ∧ Within fb g (gopScroll w fb g) ∧
      ∀ y < fb.height, ∀ o < fb.pitch, (gopScroll w fb g).mem (fb.addr y o) =
        if y+16 < fb.height then g.mem (fb.addr (y+16) o) else 0 := by
  have hb := h.base
  have hh := h.height
  have hp := h.pitch
  have hw := h.width
  have hs := h.size
  have hf := h.fits
  obtain ⟨-,hh₂,hline⟩ := h.bounds
  -- the copied part and the cleared line make up the framebuffer
  have hsplit : (fb.height-16)*fb.pitch+16*fb.pitch = fb.height*fb.pitch := by
    rw [← Nat.add_mul,Nat.sub_add_cancel hh]
  have hl : u32 (fontHeight*fb.pitch) = 16*fb.pitch := u32_of_lt (by
    change 16*fb.pitch < 4294967296
    omega)
  have hc : u32 (u32 (fb.height+4294967296-fontHeight)*fb.pitch) = (fb.height-16)*fb.pitch := by
    have hsub : u32 (fb.height+4294967296-fontHeight) = fb.height-16 := by
      unfold u32 fontHeight
      omega
    rw [hsub]
    exact u32_of_lt (by omega)
  have hd : (fb.base+(fb.height-16)*fb.pitch)%w = fb.base+(fb.height-16)*fb.pitch :=
    Nat.mod_eq_of_lt (by omega)
  have hmove : memmove w g.mem fb.base ((fb.base+16*fb.pitch)%w) ((fb.height-16)*fb.pitch) =
      blit g.mem fb.base ((fb.height-16)*fb.pitch) fun t => g.mem (fb.base+16*fb.pitch+t) := by
    by_cases hz : (fb.height-16)*fb.pitch = 0
    · rw [hz,memmove_zero,blit_zero]
    · rw [Nat.mod_eq_of_lt (by omega)]
      exact memmove_down (by omega) (by omega)
  have hset : ∀ m, memset w m (fb.base+(fb.height-16)*fb.pitch) 0 (16*fb.pitch) =
      blit m (fb.base+(fb.height-16)*fb.pitch) (16*fb.pitch) fun _ => 0 := fun m =>
    memset_eq_fill (by omega)
  unfold gopScroll
  rw [if_neg (by omega)]
  dsimp only
  rw [hl,hc,hd,hmove,hset]
  refine ⟨rfl,?_,?_⟩
  · have hcopied : Within fb g { g with
        mem := blit g.mem fb.base ((fb.height-16)*fb.pitch) fun t => g.mem (fb.base+16*fb.pitch+t)
        written := targets w fb.base ((fb.height-16)*fb.pitch)++g.written } :=
      within_block (fun t => g.mem (fb.base+16*fb.pitch+t)) h le_rfl (by omega) rfl rfl
    exact hcopied.trans (within_block (fun _ => 0) h (Nat.le_add_right _ _) (by omega) rfl rfl)
  · intro y hy o ho
    unfold Framebuffer.addr
    have hy' := line_end (p := fb.pitch) hy
    split_ifs with hlow
    · have hcopy := line_end (p := fb.pitch) (show y < fb.height-16 by omega)
      have hshift : (y+16)*fb.pitch = y*fb.pitch+16*fb.pitch := Nat.add_mul y 16 fb.pitch
      rw [blit_outside (by omega),blit_inside (by omega) (by omega),hshift]
      congr 1
      omega
    · have hcopy : (fb.height-16)*fb.pitch ≤ y*fb.pitch :=
        Nat.mul_le_mul_right fb.pitch (by omega)
      rw [blit_inside (by omega) (by omega)]

/-! ### Drawing a glyph -/

/-- Whether the glyph row has this pixel; the leftmost one is the highest bit. -/
def lit (row : UInt8) (x : ℕ) : Bool := row.toNat.testBit (7-x)

/-- Byte `o` of a cell's scan line. -/
def rowByte (row : UInt8) (o : ℕ) : UInt8 :=
  byteOf (if lit row (o/4) then fgColor else bgColor) (o%4)

theorem mask_iff (row : UInt8) {x : ℕ} (hx : x < 8) :
    row.toNat &&& (0x80 >>> x) ≠ 0 ↔ lit row x = true := by
  have hpow : 0x80 >>> x = 2^(7-x) := by
    interval_cases x <;> rfl
  rw [hpow,lit,Nat.and_two_pow]
  cases row.toNat.testBit (7-x) <;> simp

/-- Eight stores in a row are one block. -/
theorem drawRow_spec {line : ℕ} (row : UInt8) (g : Console) (h : Usable w fb)
    (h₁ : fb.base ≤ line) (h₂ : line+32 ≤ fb.base+fb.height*fb.pitch) :
    (drawRow w line row g).cursorX = g.cursorX ∧ (drawRow w line row g).cursorY = g.cursorY ∧
      (drawRow w line row g).mem = blit g.mem line 32 (rowByte row) ∧
      Within fb g (drawRow w line row g) := by
  have hfits := h.fits
  refine foldl_range_invariant (P := fun n g' => g'.cursorX = g.cursorX ∧
    g'.cursorY = g.cursorY ∧ g'.mem = blit g.mem line (4*n) (rowByte row) ∧ Within fb g g') 8
    ⟨rfl,rfl,(blit_zero _ _ _).symm,Within.refl fb g⟩ ?_
  intro n hn b hb
  obtain ⟨hx,hy,hm,hwithin⟩ := hb
  have ha : (line+4*n)%w = line+4*n := Nat.mod_eq_of_lt (by omega)
  unfold putPixel
  dsimp only
  rw [ha]
  refine ⟨hx,hy,?_,hwithin.trans (within_block _ h (by omega) (by omega) rfl rfl)⟩
  rw [hm,store,Nat.mul_succ]
  apply blit_append
  intro i hi
  rw [rowByte,show (4*n+i)/4 = n by omega,show (4*n+i)%4 = i by omega]
  simp only [mask_iff row hn]

/-- The whole glyph: 16 lines of 32 bytes, and nothing else of the framebuffer. -/
theorem drawGlyph_spec (glyph : ℕ → UInt8) {px py : ℕ} (g : Console) (h : Usable w fb)
    (hx : 4*px+32 ≤ fb.pitch) (hy : py+16 ≤ fb.height) :
    (drawGlyph w fb glyph px py g).cursorX = g.cursorX ∧
      (drawGlyph w fb glyph px py g).cursorY = g.cursorY ∧
      Within fb g (drawGlyph w fb glyph px py g) ∧
      ∀ y < fb.height, ∀ o < fb.pitch, (drawGlyph w fb glyph px py g).mem (fb.addr y o) =
        if py ≤ y ∧ y < py+16 ∧ 4*px ≤ o ∧ o < 4*px+32 then rowByte (glyph (y-py)) (o-4*px)
        else g.mem (fb.addr y o) := by
  have hs := h.size
  have hf := h.fits
  obtain ⟨-,hh,hp⟩ := h.bounds
  refine foldl_range_invariant (P := fun n g' => g'.cursorX = g.cursorX ∧
    g'.cursorY = g.cursorY ∧ Within fb g g' ∧
    ∀ y < fb.height, ∀ o < fb.pitch, g'.mem (fb.addr y o) =
      if py ≤ y ∧ y < py+n ∧ 4*px ≤ o ∧ o < 4*px+32 then rowByte (glyph (y-py)) (o-4*px)
      else g.mem (fb.addr y o)) 16 ⟨rfl,rfl,Within.refl fb g,?_⟩ ?_
  · intro y hy o ho
    rw [if_neg (by omega)]
  · intro n hn b hb
    obtain ⟨hcx,hcy,hwithin,hmem⟩ := hb
    have hend := line_end (p := fb.pitch) (show py+n < fb.height by omega)
    -- no step of the address arithmetic wraps
    have hline : (fb.base+u32 (u32 (py+n)*fb.pitch)+u32 (px*4))%w = fb.addr (py+n) (4*px) := by
      have hrow : u32 (py+n) = py+n := u32_of_lt (by omega)
      rw [hrow,u32_of_lt (show (py+n)*fb.pitch < 4294967296 by omega),
        u32_of_lt (show px*4 < 4294967296 by omega),Nat.mod_eq_of_lt (by omega),Nat.mul_comm px]
      rfl
    have h₁ : fb.base ≤ fb.addr (py+n) (4*px) := by
      unfold Framebuffer.addr
      omega
    have h₂ : fb.addr (py+n) (4*px)+32 ≤ fb.base+fb.height*fb.pitch := by
      unfold Framebuffer.addr
      omega
    rw [hline]
    obtain ⟨hrx,hry,hrm,hrw⟩ := drawRow_spec (glyph n) b h h₁ h₂
    refine ⟨hrx.trans hcx,hry.trans hcy,hwithin.trans hrw,?_⟩
    intro y hy o ho
    have hblock := addr_block y (py+n) ho hx
    rw [hrm]
    by_cases hin : y = py+n ∧ 4*px ≤ o ∧ o < 4*px+32
    · have hin' := hblock.mpr hin
      rw [blit_inside hin'.1 hin'.2,if_pos (by omega),hin.1]
      have hsub : fb.addr (py+n) o-fb.addr (py+n) (4*px) = o-4*px := by
        unfold Framebuffer.addr
        omega
      rw [hsub,Nat.add_sub_cancel_left]
    · have hout : ¬(fb.addr (py+n) (4*px) ≤ fb.addr y o ∧
          fb.addr y o < fb.addr (py+n) (4*px)+32) := fun hin' => hin (hblock.mp hin')
      rw [blit_outside (by omega),hmem y hy o ho]
      congr 1
      simp only [eq_iff_iff]
      omega

end Steps

end Gemiboot.GopConsole
