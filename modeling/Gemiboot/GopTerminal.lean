import Gemiboot.GopConsole
import Gemiboot.TextTerminal

/-!
# The console shows a terminal

The framebuffer console simulates a text terminal with a row for every 16 scan lines
and a column for every 8 pixels. The relation between the two fixes every byte of the
framebuffer, those outside the grid of cells included, and each character preserves it.
-/
namespace Gemiboot.GopConsole
open ByteMemory TextTerminal

/-! ### Rendering -/

/-- Scan line `y` of the glyph of a character. The font has 16 bytes for each of the codes
32 to 126; every other character is blank. -/
def glyphLine (font : Memory) (c : UInt8) (y : ℕ) : UInt8 :=
  if 32 ≤ c.toNat ∧ c.toNat ≤ 126 then font (16*(c.toNat-32)+y) else 0

/-- Byte `o` of a cell's scan line, four for each pixel and the highest bit first. -/
def lineByte (line : UInt8) (o : ℕ) : UInt8 :=
  if line.toNat.testBit (7-o/4) ∧ o%4 < 3 then 0xFF else 0

/-- Byte `o` of scan line `y` of a cell; a cell never written to is black. -/
def cellByte (font : Memory) (code : Option UInt8) (y o : ℕ) : UInt8 :=
  match code with
  | none => 0
  | some c => lineByte (glyphLine font c y) o

/-- The framebuffer is exactly the rendering of the terminal. -/
structure Renders {rows cols : ℕ} (font : Memory) (fb : Framebuffer)
    (t : Terminal UInt8 rows cols) (m : Memory) : Prop where
  cells : ∀ (r : Fin rows) (c : Fin cols), ∀ y < 16, ∀ o < 32,
    m (fb.addr (16*r+y) (32*c+o)) = cellByte font (t.cells r c) y o
  outside : ∀ y < fb.height, ∀ o < fb.pitch, 16*rows ≤ y ∨ 32*cols ≤ o → m (fb.addr y o) = 0

def keyOf (c : UInt8) : Key UInt8 :=
  if c = 0x0D then .carriageReturn else if c = 0x0A then .lineFeed else .glyph c

/-- Byte `o` of scan line `y` of the screen. -/
def rendered {rows cols : ℕ} (font : Memory) (t : Terminal UInt8 rows cols) (y o : ℕ) : UInt8 :=
  cellByte font (t.shown (y/16) (o/32)) (y%16) (o%32)

/-- The code looks its glyphs up there. -/
theorem glyphRow_eq (font : Memory) (c : UInt8) (y : ℕ) :
    glyphRow font c y = glyphLine font c y := by
  rw [glyphRow,glyphLine,fontHeight,Nat.mul_comm]
  rfl

/-- White is 0x00FFFFFF, little-endian. -/
theorem rowByte_eq (row : UInt8) (o : ℕ) : rowByte row o = lineByte row o := by
  have hlt : o%4 < 4 := Nat.mod_lt o (by decide)
  rw [rowByte,lineByte,lit]
  generalize row.toNat.testBit (7-o/4) = b
  generalize o%4 = k at hlt
  cases b with
  | false =>
      rw [if_neg Bool.false_ne_true,if_neg (fun h => Bool.false_ne_true h.1)]
      exact congrArg UInt8.ofNat (Nat.zero_div _)
  | true =>
      interval_cases k <;> decide

/-! ### The simulation -/

def fbRows (fb : Framebuffer) : ℕ := fb.height/16
def fbCols (fb : Framebuffer) : ℕ := fb.width/8

/-- The console shows the terminal and has kept to the framebuffer since `g₀`. -/
structure Simulates (font : Memory) (fb : Framebuffer) (g₀ : Console)
    (t : Terminal UInt8 (fbRows fb) (fbCols fb)) (g : Console) : Prop where
  cursorX : g.cursorX = t.col.val
  cursorY : g.cursorY = t.row.val
  shows : ∀ y < fb.height, ∀ o < fb.pitch, g.mem (fb.addr y o) = rendered font t y o
  within : Within fb g₀ g

variable {w : ℕ} {fb : Framebuffer} {font : Memory} {g₀ g : Console}
  {t : Terminal UInt8 (fbRows fb) (fbCols fb)}

theorem Usable.rows_pos (h : Usable w fb) : 0 < fbRows fb := by
  have := h.height
  unfold fbRows
  omega

theorem Usable.cols_pos (h : Usable w fb) : 0 < fbCols fb := by
  have := h.width
  unfold fbCols
  omega

theorem simulates_clear (h : Usable w fb) (font : Memory) (g : Console) :
    Simulates font fb g (blank UInt8 (fbRows fb) (fbCols fb) h.rows_pos)
      (gopClearScreen w fb g) := by
  obtain ⟨hx,hy,hzero,hwithin⟩ := gopClearScreen_spec h g
  refine ⟨hx,hy,?_,hwithin⟩
  intro y hy o ho
  rw [hzero _ (addr_holds hy ho),rendered,Terminal.shown_blank]
  rfl

/-- A line feed or a wrap: to the next row, or up with everything. -/
theorem Simulates.nextLine (hs : Simulates font fb g₀ t g) (h : Usable w fb) :
    Simulates font fb g₀ t.lineFeed (nextLine w fb g) := by
  have hh := h.height
  have hb := h.bounds
  have hrow : t.row.val < fb.height/16 := t.row.isLt
  have hcur := hs.cursorY
  have hdown : u32 (g.cursorY+1) = t.row.val+1 := by
    rw [hcur]
    exact u32_of_lt (by omega)
  have htest : u32 (u32 (t.row.val+1+1)*fontHeight) = 16*(t.row.val+2) := by
    rw [u32_of_lt (show t.row.val+1+1 < 4294967296 by omega)]
    unfold fontHeight u32
    omega
  unfold GopConsole.nextLine
  dsimp only
  rw [hdown,htest]
  by_cases hroom : t.row.val+1 < fbRows fb
  · obtain ⟨hr,hshown⟩ := Terminal.lineFeed_down hroom
    unfold fbRows at hroom
    rw [if_neg (by omega)]
    refine ⟨(Terminal.lineFeed_col t).symm,hr.symm,?_,hs.within.moved rfl rfl⟩
    intro y hy o ho
    rw [rendered,hshown]
    exact hs.shows y hy o ho
  · obtain ⟨hr,hshown⟩ := Terminal.lineFeed_scroll hroom
    unfold fbRows at hroom
    rw [if_pos (by omega)]
    have hcleared : Within fb g₀ {g with cursorX := 0, cursorY := t.row.val+1} :=
      hs.within.moved rfl rfl
    obtain ⟨hx,hwithin,hmem⟩ := gopScroll_spec h {g with cursorX := 0, cursorY := t.row.val+1}
    refine ⟨hx.trans (Terminal.lineFeed_col t).symm,?_,?_,?_⟩
    · rw [hr]
      change u32 (fb.height/16+4294967295) = t.row.val
      unfold u32
      omega
    · intro y hy o ho
      rw [rendered,hshown]
      dsimp only
      rw [hmem y hy o ho]
      split_ifs with hlow
      · have hcell := hs.shows (y+16) hlow o ho
        rw [rendered,Nat.add_div_right y (by decide),Nat.add_mod_right] at hcell
        exact hcell
      · -- the last row and the lines left over get nothing
        rw [Terminal.shown_outside t (.inl (by unfold fbRows; omega))]
        rfl
    · exact (hcleared.trans hwithin).moved rfl rfl

theorem Simulates.wrap (hs : Simulates font fb g₀ t g) (h : Usable w fb) :
    Simulates font fb g₀ t.wrap
      (if u32 (u32 (g.cursorX+1)*fontWidth) > fb.width then GopConsole.nextLine w fb g else g) := by
  have hb := h.bounds
  have hcol := t.col.isLt
  unfold fbCols at hcol
  have htest : u32 (u32 (g.cursorX+1)*fontWidth) = 8*(t.col.val+1) := by
    rw [hs.cursorX,u32_of_lt (show t.col.val+1 < 4294967296 by omega)]
    unfold fontWidth u32
    omega
  rw [htest]
  unfold Terminal.wrap
  by_cases hroom : t.col.val < fbCols fb
  · rw [if_pos hroom]
    unfold fbCols at hroom
    rw [if_neg (by omega)]
    exact hs
  · rw [if_neg hroom]
    unfold fbCols at hroom
    rw [if_pos (by omega)]
    exact hs.nextLine h

/-- Drawing the glyph puts the character into its cell. -/
theorem Simulates.put (hs : Simulates font fb g₀ t g) (h : Usable w fb)
    (hcol : t.col.val < fbCols fb) (c : UInt8) :
    Simulates font fb g₀ (t.put c)
      (let g := drawGlyph w fb (glyphRow font c) (u32 (g.cursorX*fontWidth))
        (u32 (g.cursorY*fontHeight)) g
      {g with cursorX := u32 (g.cursorX+1)}) := by
  have hb := h.bounds
  have hp := h.pitch
  have hrow : t.row.val < fb.height/16 := t.row.isLt
  obtain ⟨hputr,hputc⟩ := Terminal.put_cursor hcol c
  have hshown := Terminal.shown_put hcol c
  have hcol' : t.col.val < fb.width/8 := hcol
  have hx : u32 (g.cursorX*fontWidth) = 8*t.col.val := by
    rw [hs.cursorX]
    unfold fontWidth u32
    omega
  have hy : u32 (g.cursorY*fontHeight) = 16*t.row.val := by
    rw [hs.cursorY]
    unfold fontHeight u32
    omega
  rw [hx,hy]
  obtain ⟨hdx,hdy,hwithin,hmem⟩ := drawGlyph_spec (glyphRow font c) g h
    (show 4*(8*t.col.val)+32 ≤ fb.pitch by omega) (show 16*t.row.val+16 ≤ fb.height by omega)
  refine ⟨?_,?_,?_,(hs.within.trans hwithin).moved rfl rfl⟩
  · dsimp only
    rw [hputc,hdx,hs.cursorX]
    exact u32_of_lt (by omega)
  · dsimp only
    rw [hputr,hdy,hs.cursorY]
  · intro y hyh o ho
    dsimp only
    rw [hmem y hyh o ho,rendered,hshown]
    by_cases hcell : y/16 = t.row.val ∧ o/32 = t.col.val
    · have hy' : y-16*t.row.val = y%16 := by omega
      have ho' : o-4*(8*t.col.val) = o%32 := by omega
      rw [if_pos hcell,if_pos (by omega),hy',ho',rowByte_eq,glyphRow_eq]
      rfl
    · rw [if_neg hcell,if_neg (by omega)]
      exact hs.shows y hyh o ho

/-- One character. -/
theorem Simulates.drawChar (hs : Simulates font fb g₀ t g) (h : Usable w fb) (c : UInt8) :
    Simulates font fb g₀ (t.type (keyOf c)) (gopDrawChar w font fb c g) := by
  have hb := h.base
  have hh := h.height
  have hw := h.width
  unfold gopDrawChar keyOf
  rw [if_neg (show ¬(fb.base = 0 ∨ fb.width = 0 ∨ fb.height = 0) by omega)]
  by_cases hcr : c = 0x0D
  · rw [if_pos hcr,if_pos hcr]
    exact ⟨rfl,hs.cursorY,hs.shows,hs.within.moved rfl rfl⟩
  rw [if_neg hcr,if_neg hcr]
  by_cases hlf : c = 0x0A
  · rw [if_pos hlf,if_pos hlf]
    exact hs.nextLine h
  rw [if_neg hlf,if_neg hlf]
  exact (hs.wrap h).put h (Terminal.wrap_col h.cols_pos) c

/-- Any number of characters. -/
theorem Simulates.drawAll (hs : Simulates font fb g₀ t g) (h : Usable w fb) (cs : List UInt8) :
    Simulates font fb g₀ (t.typeAll (cs.map keyOf)) (drawAll w font fb cs g) := by
  induction cs generalizing t g with
  | nil => exact hs
  | cons c cs ih => exact ih (hs.drawChar h c)

theorem Simulates.renders (hs : Simulates font fb g₀ t g) (h : Usable w fb) :
    Renders font fb t g.mem := by
  have hp := h.pitch
  constructor
  · intro r c y hy o ho
    have hr : r.val < fb.height/16 := r.isLt
    have hc : c.val < fb.width/8 := c.isLt
    rw [hs.shows _ (by omega) _ (by omega),rendered]
    have h₁ : (16*r.val+y)/16 = r.val ∧ (16*r.val+y)%16 = y := by omega
    have h₂ : (32*c.val+o)/32 = c.val ∧ (32*c.val+o)%32 = o := by omega
    rw [h₁.1,h₁.2,h₂.1,h₂.2,Terminal.shown,dif_pos ⟨r.isLt,c.isLt⟩]
  · intro y hy o ho hout
    rw [hs.shows y hy o ho,rendered,Terminal.shown_outside t (by omega)]
    rfl

/-- After any output the framebuffer shows what a terminal would, and nothing but the
framebuffer has been written to. -/
theorem drawAll_renders (h : Usable w fb) (font : Memory) (g : Console) (cs : List UInt8) :
    let g' := drawAll w font fb cs (gopClearScreen w fb g)
    Renders font fb
        ((blank UInt8 (fbRows fb) (fbCols fb) h.rows_pos).typeAll (cs.map keyOf)) g'.mem ∧
      (∀ a ∈ g'.written, a ∈ g.written ∨ fb.Holds a) ∧
      ∀ a, ¬fb.Holds a → g'.mem a = g.mem a := by
  intro g'
  have hs := (simulates_clear h font g).drawAll h cs
  exact ⟨hs.renders h,hs.within.written,hs.within.frame⟩

/-- Two rows of two cells, with lines and pixels left over and padded lines. -/
def smallScreen : Framebuffer := ⟨0xA0000,20,40,100⟩

theorem smallScreen_usable : Usable 4294967296 smallScreen :=
  ⟨by decide,by decide,by decide,by decide,by decide,by decide⟩

/-- A wrap and two scrolls. -/
theorem drawAll_renders_smallScreen :
    let cs := [0x41,0x0A,0x42,0x43,0x44,0x0A]
    let g : Console := ⟨5,7,fun _ => 1,[]⟩
    let g' := drawAll 4294967296 UInt8.ofNat smallScreen cs
      (gopClearScreen 4294967296 smallScreen g)
    Renders UInt8.ofNat smallScreen ((blank UInt8 (fbRows smallScreen) (fbCols smallScreen)
        smallScreen_usable.rows_pos).typeAll (cs.map keyOf)) g'.mem ∧
      (∀ a ∈ g'.written, a ∈ g.written ∨ smallScreen.Holds a) ∧
      ∀ a, ¬smallScreen.Holds a → g'.mem a = g.mem a :=
  drawAll_renders smallScreen_usable UInt8.ofNat ⟨5,7,fun _ => 1,[]⟩
    [0x41,0x0A,0x42,0x43,0x44,0x0A]

end Gemiboot.GopConsole
