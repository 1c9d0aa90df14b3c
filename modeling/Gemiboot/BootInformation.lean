import Gemiboot.BiosMemoryMap

/-!
# The boot information of the BIOS loader

The part of `bios_loader_main` between the ELF loader and the pause: it fills the
multiboot structure from the memory map and the graphics information that `io16.S` has
left in low memory. The display the kernel is told about is compared with the one
`init_video_mode` has left active.
-/
namespace Gemiboot.BootInformation
open ByteMemory MultibootMap BiosMemoryMap

def multibootInfoBootdev : ℕ := 1<<<1
def multibootInfoBootLoaderName : ℕ := 1<<<9
def multibootInfoFramebufferInfo : ℕ := 1<<<12

def multibootFramebufferTypeIndexed : ℕ := 0
def multibootFramebufferTypeRgb : ℕ := 1
def multibootFramebufferTypeEgaText : ℕ := 2

/-- More offsets in `struct multiboot_info`. -/
def bootDeviceOff : ℕ := 12
def bootLoaderNameOff : ℕ := 64
def framebufferAddrLowOff : ℕ := 88
def framebufferAddrHiOff : ℕ := 92
def framebufferPitchOff : ℕ := 96
def framebufferWidthOff : ℕ := 100
def framebufferHeightOff : ℕ := 104
def framebufferBppOff : ℕ := 108
def framebufferTypeOff : ℕ := 109
def framebufferRedFieldPositionOff : ℕ := 110
def framebufferRedMaskSizeOff : ℕ := 111
def framebufferGreenFieldPositionOff : ℕ := 112
def framebufferGreenMaskSizeOff : ℕ := 113
def framebufferBlueFieldPositionOff : ℕ := 114
def framebufferBlueMaskSizeOff : ℕ := 115

def gfxInfoBufferAddr : ℕ := 0x00009000

def mbiByte (m : Memory) (off : ℕ) : ℕ := load 1 m (multibootInfoAddr+off)

def setMbiByte (m : Memory) (off v : ℕ) : Memory := store 1 m (multibootInfoAddr+off) v

/-- `mbi->flags |= flag`. -/
def addFlag (m : Memory) (flag : ℕ) : Memory := setMbi m flagsOff (mbi m flagsOff ||| flag)

/-- The block that fills the framebuffer fields. -/
def prepareFramebuffer (m : Memory) : Memory :=
  let gfxBpp := load 4 m gfxInfoBufferAddr
  let gfxWidth := load 4 m (gfxInfoBufferAddr+4)
  let gfxHeight := load 4 m (gfxInfoBufferAddr+8)
  let gfxPitch := load 4 m (gfxInfoBufferAddr+12)
  let gfxFb := load 4 m (gfxInfoBufferAddr+16)
  let rgbInfo := gfxInfoBufferAddr+0x14
  if gfxFb ≠ 0 ∧ gfxWidth > 0 ∧ gfxHeight > 0 ∧ gfxBpp > 0 then
    let m := setMbi m framebufferAddrLowOff gfxFb
    let m := setMbi m framebufferAddrHiOff 0
    let m := setMbi m framebufferWidthOff gfxWidth
    let m := setMbi m framebufferHeightOff gfxHeight
    let m := setMbi m framebufferPitchOff gfxPitch
    let m := setMbiByte m framebufferBppOff gfxBpp
    let m := setMbiByte m framebufferTypeOff
      (if gfxBpp ≥ 15 then multibootFramebufferTypeRgb else multibootFramebufferTypeIndexed)
    let m :=
      if mbiByte m framebufferTypeOff = multibootFramebufferTypeRgb then
        let m := setMbiByte m framebufferRedFieldPositionOff (load 1 m rgbInfo)
        let m := setMbiByte m framebufferRedMaskSizeOff (load 1 m (rgbInfo+1))
        let m := setMbiByte m framebufferGreenFieldPositionOff (load 1 m (rgbInfo+2))
        let m := setMbiByte m framebufferGreenMaskSizeOff (load 1 m (rgbInfo+3))
        let m := setMbiByte m framebufferBlueFieldPositionOff (load 1 m (rgbInfo+4))
        setMbiByte m framebufferBlueMaskSizeOff (load 1 m (rgbInfo+5))
      else m
    addFlag m multibootInfoFramebufferInfo
  else
    let m := setMbi m framebufferAddrLowOff 0xB8000
    let m := setMbi m framebufferAddrHiOff 0
    let m := setMbi m framebufferWidthOff 80
    let m := setMbi m framebufferHeightOff 25
    let m := setMbi m framebufferPitchOff 160
    let m := setMbiByte m framebufferBppOff 16
    let m := setMbiByte m framebufferTypeOff multibootFramebufferTypeEgaText
    addFlag m multibootInfoFramebufferInfo

/-- All of it; `bootLoaderName` is where the linker has put the name. -/
def prepareBootInfo (bootLoaderName : ℕ) (m : Memory) : Memory :=
  let m := prepareMemoryMap m
  let m := setMbi m bootDeviceOff 0x8000FFFF
  let m := addFlag m multibootInfoBootdev
  let m := setMbi m bootLoaderNameOff bootLoaderName
  let m := addFlag m multibootInfoBootLoaderName
  prepareFramebuffer m

/-! ### What the fields say -/

/-- The graphics information in low memory. -/
structure GfxInfo where
  bpp : ℕ
  width : ℕ
  height : ℕ
  pitch : ℕ
  fb : ℕ
  /-- Position and size of the red, the green and the blue field. -/
  rgb : List ℕ
  deriving DecidableEq

def gfxAt (m : Memory) : GfxInfo where
  bpp := load 4 m gfxInfoBufferAddr
  width := load 4 m (gfxInfoBufferAddr+4)
  height := load 4 m (gfxInfoBufferAddr+8)
  pitch := load 4 m (gfxInfoBufferAddr+12)
  fb := load 4 m (gfxInfoBufferAddr+16)
  rgb := (List.range 6).map fun i => load 1 m (gfxInfoBufferAddr+0x14+i)

/-- The framebuffer fields of the multiboot structure. -/
structure FramebufferInfo where
  addr : ℕ
  width : ℕ
  height : ℕ
  pitch : ℕ
  bpp : ℕ
  type : ℕ
  colors : List ℕ
  deriving DecidableEq

def framebufferAt (m : Memory) : FramebufferInfo where
  addr := mbi m framebufferAddrLowOff+4294967296*mbi m framebufferAddrHiOff
  width := mbi m framebufferWidthOff
  height := mbi m framebufferHeightOff
  pitch := mbi m framebufferPitchOff
  bpp := mbiByte m framebufferBppOff
  type := mbiByte m framebufferTypeOff
  colors := (List.range 6).map fun i => mbiByte m (framebufferRedFieldPositionOff+i)

/-- 80 by 25 characters of two bytes. -/
def textDisplay : FramebufferInfo :=
  ⟨0xB8000,80,25,160,16,multibootFramebufferTypeEgaText,[0,0,0,0,0,0]⟩

/-- A linear framebuffer that goes by its colors from 15 bits per pixel on. -/
def linearDisplay (addr width height pitch bpp : ℕ) (rgb : List ℕ) : FramebufferInfo :=
  if 15 ≤ bpp then ⟨addr,width,height,pitch,bpp,multibootFramebufferTypeRgb,rgb⟩
  else ⟨addr,width,height,pitch,bpp,multibootFramebufferTypeIndexed,[0,0,0,0,0,0]⟩

/-- The display of a VBE mode, from the fields of its information block. -/
def modeDisplay (info : Memory) : FramebufferInfo :=
  linearDisplay (load 4 info 40) (load 2 info 18) (load 2 info 20) (load 2 info 16)
    (load 1 info 25) [load 1 info 32,load 1 info 31,load 1 info 34,load 1 info 33,
      load 1 info 36,load 1 info 35]

/-- The VBE mode that `init_video_mode` leaves active, if any. -/
def activeMode (mode4112 mode4111 mode4101 : VbeMode) : Option Memory :=
  if mode4112.infoOk ∧ mode4112.setOk then some mode4112.info
  else if mode4111.infoOk ∧ mode4111.setOk then some mode4111.info
  else if mode4101.infoOk ∧ mode4101.setOk then some mode4101.info
  else none

def displayOf : Option Memory → FramebufferInfo
  | none => textDisplay
  | some info => modeDisplay info

/-- The mode has a linear framebuffer, and its resolution and depth are known. -/
def LinearMode (info : Memory) : Prop :=
  load 4 info 40 ≠ 0 ∧ 0 < load 2 info 18 ∧ 0 < load 2 info 20 ∧ 0 < load 1 info 25

instance (info : Memory) : Decidable (LinearMode info) :=
  inferInstanceAs (Decidable (_ ∧ _ ∧ _ ∧ _))

/-! ### One field at a time -/

theorem mbi_addFlag_flags (m : Memory) {flag : ℕ} (h : flag < 4294967296) :
    mbi (addFlag m flag) flagsOff = mbi m flagsOff ||| flag := by
  have hlt : mbi m flagsOff < 2^32 := load_lt 4 m _
  exact load_store_of_lt m _ (Nat.or_lt_two_pow hlt h)

theorem addFlag_outside {m : Memory} {flag x : ℕ}
    (h : x < multibootInfoAddr ∨ multibootInfoAddr+4 ≤ x) : addFlag m flag x = m x :=
  setMbi_outside h

/-- The bytes behind the flags are not changed by a flag. -/
theorem load_addFlag {w flag a : ℕ} (m : Memory)
    (h : a+w ≤ multibootInfoAddr ∨ multibootInfoAddr+4 ≤ a) :
    load w (addFlag m flag) a = load w m a := load_store_outside h

theorem framebufferAt_addFlag (m : Memory) (flag : ℕ) :
    framebufferAt (addFlag m flag) = framebufferAt m := by
  have h : ∀ w k, 4 ≤ k → load w (addFlag m flag) (multibootInfoAddr+k) =
      load w m (multibootInfoAddr+k) :=
    fun w k hk => load_addFlag m (.inr (Nat.add_le_add_left hk _))
  have hcolors : ((List.range 6).map fun i => mbiByte (addFlag m flag)
      (framebufferRedFieldPositionOff+i)) =
      (List.range 6).map fun i => mbiByte m (framebufferRedFieldPositionOff+i) := by
    apply List.map_congr_left
    intro i _
    exact h 1 _ (Nat.le_trans (by decide) (Nat.le_add_right _ i))
  simp only [framebufferAt,hcolors]
  simp only [mbi,mbiByte]
  rw [h 4 framebufferAddrLowOff (by decide),h 4 framebufferAddrHiOff (by decide),
    h 4 framebufferWidthOff (by decide),h 4 framebufferHeightOff (by decide),
    h 4 framebufferPitchOff (by decide),h 1 framebufferBppOff (by decide),
    h 1 framebufferTypeOff (by decide)]

/-- The seven stores that both branches begin with. -/
def setFramebuffer (m : Memory) (addr width height pitch bpp type : ℕ) : Memory :=
  let m := setMbi m framebufferAddrLowOff addr
  let m := setMbi m framebufferAddrHiOff 0
  let m := setMbi m framebufferWidthOff width
  let m := setMbi m framebufferHeightOff height
  let m := setMbi m framebufferPitchOff pitch
  let m := setMbiByte m framebufferBppOff bpp
  setMbiByte m framebufferTypeOff type

def setColors (m : Memory) (rgb : ℕ → ℕ) : Memory :=
  let m := setMbiByte m framebufferRedFieldPositionOff (rgb 0)
  let m := setMbiByte m framebufferRedMaskSizeOff (rgb 1)
  let m := setMbiByte m framebufferGreenFieldPositionOff (rgb 2)
  let m := setMbiByte m framebufferGreenMaskSizeOff (rgb 3)
  let m := setMbiByte m framebufferBlueFieldPositionOff (rgb 4)
  setMbiByte m framebufferBlueMaskSizeOff (rgb 5)

theorem framebufferAt_setFramebuffer (m : Memory) {addr width height pitch bpp type : ℕ}
    (ha : addr < 256^4) (hw : width < 256^4) (hh : height < 256^4) (hp : pitch < 256^4)
    (hb : bpp < 256^1) (ht : type < 256^1) :
    framebufferAt (setFramebuffer m addr width height pitch bpp type) =
      ⟨addr,width,height,pitch,bpp,type,(framebufferAt m).colors⟩ := by
  simp only [framebufferAt,mbi,mbiByte,setFramebuffer,setMbi,setMbiByte,multibootInfoAddr,
    framebufferAddrLowOff,framebufferAddrHiOff,framebufferWidthOff,framebufferHeightOff,
    framebufferPitchOff,framebufferBppOff,framebufferTypeOff,framebufferRedFieldPositionOff,
    List.range_succ_eq_map,List.range_zero,List.map_cons,List.map_nil]
  simp (disch := omega) only [load_store_outside,load_store_of_lt,Nat.mul_zero,Nat.add_zero]

theorem framebufferAt_setColors (m : Memory) {rgb : ℕ → ℕ} (h : ∀ i < 6, rgb i < 256^1) :
    framebufferAt (setColors m rgb) = {framebufferAt m with colors := (List.range 6).map rgb} := by
  have h₀ := h 0 (by decide)
  have h₁ := h 1 (by decide)
  have h₂ := h 2 (by decide)
  have h₃ := h 3 (by decide)
  have h₄ := h 4 (by decide)
  have h₅ := h 5 (by decide)
  simp only [framebufferAt,mbi,mbiByte,setColors,setMbiByte,multibootInfoAddr,
    framebufferAddrLowOff,framebufferAddrHiOff,framebufferWidthOff,framebufferHeightOff,
    framebufferPitchOff,framebufferBppOff,framebufferTypeOff,framebufferRedFieldPositionOff,
    framebufferRedMaskSizeOff,framebufferGreenFieldPositionOff,framebufferGreenMaskSizeOff,
    framebufferBlueFieldPositionOff,framebufferBlueMaskSizeOff,List.range_succ_eq_map,
    List.range_zero,List.map_cons,List.map_nil]
  simp (disch := omega) only [load_store_outside,load_store_of_lt]

theorem setFramebuffer_outside {m : Memory} {addr width height pitch bpp type x : ℕ}
    (h : x < multibootInfoAddr+88 ∨ multibootInfoAddr+110 ≤ x) :
    setFramebuffer m addr width height pitch bpp type x = m x := by
  simp only [multibootInfoAddr] at h
  simp only [setFramebuffer,setMbi,setMbiByte,multibootInfoAddr,framebufferAddrLowOff,
    framebufferAddrHiOff,framebufferWidthOff,framebufferHeightOff,framebufferPitchOff,
    framebufferBppOff,framebufferTypeOff]
  simp (disch := omega) only [store_outside]

theorem setColors_outside {m : Memory} {rgb : ℕ → ℕ} {x : ℕ}
    (h : x < multibootInfoAddr+110 ∨ multibootInfoAddr+116 ≤ x) : setColors m rgb x = m x := by
  simp only [multibootInfoAddr] at h
  simp only [setColors,setMbiByte,multibootInfoAddr,framebufferRedFieldPositionOff,
    framebufferRedMaskSizeOff,framebufferGreenFieldPositionOff,framebufferGreenMaskSizeOff,
    framebufferBlueFieldPositionOff,framebufferBlueMaskSizeOff]
  simp (disch := omega) only [store_outside]

/-! ### The framebuffer block -/

def GfxInfo.Usable (g : GfxInfo) : Prop :=
  g.fb ≠ 0 ∧ g.width > 0 ∧ g.height > 0 ∧ g.bpp > 0

instance (g : GfxInfo) : Decidable g.Usable := inferInstanceAs (Decidable (_ ∧ _ ∧ _ ∧ _))

/-- The stores before the flag. -/
def storeDisplay (m : Memory) : Memory :=
  let g := gfxAt m
  if g.Usable then
    if 15 ≤ g.bpp then
      setColors (setFramebuffer m g.fb g.width g.height g.pitch g.bpp multibootFramebufferTypeRgb)
        fun i => load 1 m (gfxInfoBufferAddr+0x14+i)
    else setFramebuffer m g.fb g.width g.height g.pitch g.bpp multibootFramebufferTypeIndexed
  else setFramebuffer m 0xB8000 80 25 160 16 multibootFramebufferTypeEgaText

/-- The color fields come from a buffer that the stores before do not reach. -/
theorem storeColors_eq {m m' : Memory} (h : ∀ x < multibootInfoAddr, m' x = m x) :
    (let rgbInfo := gfxInfoBufferAddr+0x14
     let m := setMbiByte m' framebufferRedFieldPositionOff (load 1 m' rgbInfo)
     let m := setMbiByte m framebufferRedMaskSizeOff (load 1 m (rgbInfo+1))
     let m := setMbiByte m framebufferGreenFieldPositionOff (load 1 m (rgbInfo+2))
     let m := setMbiByte m framebufferGreenMaskSizeOff (load 1 m (rgbInfo+3))
     let m := setMbiByte m framebufferBlueFieldPositionOff (load 1 m (rgbInfo+4))
     setMbiByte m framebufferBlueMaskSizeOff (load 1 m (rgbInfo+5))) =
      setColors m' fun i => load 1 m (gfxInfoBufferAddr+0x14+i) := by
  have hkeep : ∀ i < 6, load 1 m (gfxInfoBufferAddr+0x14+i) =
      load 1 m' (gfxInfoBufferAddr+0x14+i) := by
    intro i hi
    apply load_congr
    intro k hk
    apply (h _ _).symm
    simp only [gfxInfoBufferAddr,multibootInfoAddr]
    omega
  rw [setColors]
  dsimp only
  rw [hkeep 0 (by decide),hkeep 1 (by decide),hkeep 2 (by decide),hkeep 3 (by decide),
    hkeep 4 (by decide),hkeep 5 (by decide)]
  simp only [setMbiByte,gfxInfoBufferAddr,multibootInfoAddr,framebufferRedFieldPositionOff,
    framebufferRedMaskSizeOff,framebufferGreenFieldPositionOff,framebufferGreenMaskSizeOff,
    framebufferBlueFieldPositionOff]
  simp (disch := omega) only [load_store_outside,Nat.add_zero]

/-- The type that is read back is the one just stored. -/
theorem mbiByte_setFramebuffer (m : Memory) (addr width height pitch bpp : ℕ) {type : ℕ}
    (ht : type < 256^1) :
    mbiByte (setFramebuffer m addr width height pitch bpp type) framebufferTypeOff = type :=
  load_store_of_lt _ _ ht

theorem prepareFramebuffer_eq (m : Memory) :
    prepareFramebuffer m = addFlag (storeDisplay m) multibootInfoFramebufferInfo := by
  rw [prepareFramebuffer]
  by_cases hu : (gfxAt m).Usable
  · have hs : storeDisplay m = if 15 ≤ (gfxAt m).bpp then _ else _ := if_pos hu
    refine (if_pos hu).trans ?_
    rw [hs]
    by_cases hb : 15 ≤ load 4 m gfxInfoBufferAddr
    · have hread := mbiByte_setFramebuffer m (gfxAt m).fb (gfxAt m).width (gfxAt m).height
        (gfxAt m).pitch (gfxAt m).bpp (show multibootFramebufferTypeRgb < 256^1 by decide)
      rw [if_pos (show 15 ≤ (gfxAt m).bpp from hb)]
      simp only [if_pos (show load 4 m gfxInfoBufferAddr ≥ 15 from hb)]
      refine congrArg (addFlag · multibootInfoFramebufferInfo) ((if_pos hread).trans ?_)
      exact storeColors_eq fun x hx => setFramebuffer_outside (.inl (by omega))
    · have hread := mbiByte_setFramebuffer m (gfxAt m).fb (gfxAt m).width (gfxAt m).height
        (gfxAt m).pitch (gfxAt m).bpp (show multibootFramebufferTypeIndexed < 256^1 by decide)
      rw [if_neg (show ¬15 ≤ (gfxAt m).bpp from hb)]
      simp only [if_neg (show ¬load 4 m gfxInfoBufferAddr ≥ 15 from hb)]
      refine congrArg (addFlag · multibootInfoFramebufferInfo) (if_neg ?_)
      intro h
      exact absurd (hread.symm.trans h) (by decide)
  · have hs : storeDisplay m = _ := if_neg hu
    rw [hs]
    exact if_neg hu

theorem storeDisplay_outside {m : Memory} {x : ℕ}
    (h : x < multibootInfoAddr+88 ∨ multibootInfoAddr+116 ≤ x) : storeDisplay m x = m x := by
  rw [storeDisplay]
  split_ifs
  · rw [setColors_outside (by omega),setFramebuffer_outside (by omega)]
  · exact setFramebuffer_outside (by omega)
  · exact setFramebuffer_outside (by omega)

theorem gfxAt_lt (m : Memory) : (gfxAt m).fb < 256^4 ∧ (gfxAt m).width < 256^4 ∧
    (gfxAt m).height < 256^4 ∧ (gfxAt m).pitch < 256^4 :=
  ⟨load_lt 4 m _,load_lt 4 m _,load_lt 4 m _,load_lt 4 m _⟩

/-- In a cleared structure the block records the buffer, or the text mode. -/
theorem framebufferAt_prepareFramebuffer {m : Memory}
    (hz : (framebufferAt m).colors = [0,0,0,0,0,0]) (hb : (gfxAt m).bpp < 256) :
    framebufferAt (prepareFramebuffer m) =
      if (gfxAt m).Usable then linearDisplay (gfxAt m).fb (gfxAt m).width (gfxAt m).height
        (gfxAt m).pitch (gfxAt m).bpp (gfxAt m).rgb
      else textDisplay := by
  obtain ⟨hf,hw,hh,hp⟩ := gfxAt_lt m
  rw [prepareFramebuffer_eq,framebufferAt_addFlag,storeDisplay]
  split_ifs with hu h15
  · rw [framebufferAt_setColors _ fun i _ => load_lt 1 m _,
      framebufferAt_setFramebuffer m hf hw hh hp hb (by decide),linearDisplay,if_pos h15]
    rfl
  · rw [framebufferAt_setFramebuffer m hf hw hh hp hb (by decide),linearDisplay,if_neg h15,hz]
  · rw [framebufferAt_setFramebuffer m (by decide) (by decide) (by decide) (by decide) (by decide)
      (by decide),hz]
    rfl

/-! ### The graphics information -/

theorem gfxAt_congr {m m' : Memory} (h : ∀ x, 0x9000 ≤ x → x < 0x901A → m' x = m x) :
    gfxAt m' = gfxAt m := by
  have hl : ∀ w k, k+w ≤ 26 → load w m' (gfxInfoBufferAddr+k) =
      load w m (gfxInfoBufferAddr+k) := by
    intro w k hk
    apply load_congr
    intro i hi
    apply h <;> simp only [gfxInfoBufferAddr] <;> omega
  have hrgb : (List.range 6).map (fun i => load 1 m' (gfxInfoBufferAddr+0x14+i)) =
      (List.range 6).map fun i => load 1 m (gfxInfoBufferAddr+0x14+i) := by
    apply List.map_congr_left
    intro i hi
    have hlt := List.mem_range.mp hi
    rw [Nat.add_assoc,hl 1 (0x14+i) (by omega)]
  rw [gfxAt,gfxAt,hrgb,hl 4 4 (by decide),hl 4 8 (by decide),hl 4 12 (by decide),
    hl 4 16 (by decide),show gfxInfoBufferAddr = gfxInfoBufferAddr+0 from rfl,
    hl 4 0 (by decide)]

/-- The bytes and words of the information block are stored as 32-bit numbers. -/
theorem gfxAt_vbeModeSetOk (info m : Memory) : gfxAt (vbeModeSetOk info m) =
    ⟨load 1 info 25,load 2 info 18,load 2 info 20,load 2 info 16,load 4 info 40,
      [load 1 info 32,load 1 info 31,load 1 info 34,load 1 info 33,load 1 info 36,
        load 1 info 35]⟩ := by
  have h₁ : ∀ k, load 1 info k < 256^1 := load_lt 1 info
  have hbyte : load 1 info 25 < 256^4 := (h₁ 25).trans (by decide)
  have hword : ∀ k, load 2 info k < 256^4 := fun k => (load_lt 2 info k).trans (by decide)
  have hdword : load 4 info 40 < 256^4 := load_lt 4 info 40
  simp only [gfxAt,vbeModeSetOk,gfxInfoBufferAddr,List.range_succ_eq_map,List.range_zero,
    List.map_cons,List.map_nil]
  simp (disch := omega) only [load_store_outside]
  rw [load_store_of_lt _ _ hbyte,load_store_of_lt _ _ (hword 18),load_store_of_lt _ _ (hword 20),
    load_store_of_lt _ _ (hword 16),load_store_of_lt _ _ hdword,load_store_of_lt _ _ (h₁ 32),
    load_store_of_lt _ _ (h₁ 31),load_store_of_lt _ _ (h₁ 34),load_store_of_lt _ _ (h₁ 33),
    load_store_of_lt _ _ (h₁ 36),load_store_of_lt _ _ (h₁ 35)]

theorem gfxAt_vbeFallback (m : Memory) : (gfxAt (vbeFallback m)).bpp = 0 := by
  simp only [gfxAt,vbeFallback,gfxInfoBufferAddr]
  simp (disch := omega) only [load_store_outside,load_store_of_lt]

theorem initVideoMode_eq (a b c : VbeMode) (m : Memory) : initVideoMode a b c m =
    match activeMode a b c with
    | none => vbeFallback m
    | some info => vbeModeSetOk info m := by
  rw [initVideoMode,activeMode]
  split_ifs <;> rfl

/-! ### The whole structure -/

/-- Only the records of the fallback map and the structure itself are written. -/
theorem prepareMemoryMap_eq (m : Memory) : ∃ length m', prepareMemoryMap m = finish length m' ∧
    ∀ x, x < mmapBufferAddr+4 ∨ mmapBufferAddr+76 ≤ x →
      m' x = fill m multibootInfoAddr multibootInfoSize 0 x := by
  rw [prepareMemoryMap]
  dsimp only
  split_ifs with h
  · exact ⟨_,_,rfl,fun x _ => rfl⟩
  · refine ⟨3*24,_,rfl,fun x hx => ?_⟩
    exact storeEntries_outside (hx.imp id fun h => h)

/-- The fields before the framebuffer, apart from the map itself. -/
theorem finish_fields {length : ℕ} {m : Memory} (hz : mbi m flagsOff = 0) :
    mbi (finish length m) flagsOff = multibootInfoMemMap ||| multibootInfoMemory ∧
      mbi (finish length m) memLowerOff = 640 := by
  have hmap : multibootInfoMemMap < 256^4 := by decide
  have hboth : multibootInfoMemMap ||| multibootInfoMemory < 256^4 := by decide
  simp only [mbi,flagsOff] at hz
  simp only [finish,mbi,setMbi,multibootInfoAddr,mmapBufferAddr,flagsOff,memLowerOff,memUpperOff,
    mmapLengthOff,mmapAddrOff] at hz ⊢
  simp (disch := omega) only [load_store_outside,load_store_of_lt,hz,Nat.zero_or,and_self]

theorem finish_rest {length k : ℕ} {m : Memory} (h : 12 ≤ k ∧ k < 44 ∨ 52 ≤ k) :
    finish length m (multibootInfoAddr+k) = m (multibootInfoAddr+k) := by
  simp only [finish,setMbi,multibootInfoAddr,mmapBufferAddr,flagsOff,memLowerOff,memUpperOff,
    mmapLengthOff,mmapAddrOff]
  simp (disch := omega) only [store_outside]

/-- The flags and the fields after the memory map; whatever has no flag is zero. -/
theorem prepareMemoryMap_fields (m : Memory) :
    mbi (prepareMemoryMap m) flagsOff = multibootInfoMemMap ||| multibootInfoMemory ∧
      mbi (prepareMemoryMap m) memLowerOff = 640 ∧
      ∀ k, 12 ≤ k ∧ k < 44 ∨ 52 ≤ k ∧ k < 116 →
        prepareMemoryMap m (multibootInfoAddr+k) = 0 := by
  obtain ⟨length,m',he,hm'⟩ := prepareMemoryMap_eq m
  have hzero : ∀ k < 116, m' (multibootInfoAddr+k) = 0 := by
    intro k hk
    rw [hm' _ (.inr (by simp only [mmapBufferAddr,multibootInfoAddr]; omega))]
    exact fill_inside (Nat.le_add_right _ k) (Nat.add_lt_add_left hk _)
  obtain ⟨hf,hl⟩ := finish_fields
    (load_zero fun i hi => hzero i (by omega) : mbi m' flagsOff = 0)
  rw [he]
  refine ⟨hf,hl,fun k hk => ?_⟩
  rw [finish_rest (by omega),hzero k (by omega)]

/-- Nothing else of low memory changes. -/
theorem prepareMemoryMap_outside {m : Memory} {x : ℕ}
    (h : x < mmapBufferAddr+4 ∨ mmapBufferAddr+76 ≤ x) (hx : x < multibootInfoAddr) :
    prepareMemoryMap m x = m x := by
  obtain ⟨length,m',he,hm'⟩ := prepareMemoryMap_eq m
  rw [he,finish_outside hx,hm' x h]
  exact fill_outside (.inl hx)

/-- The boot device and the name, between the memory map and the framebuffer. -/
def nameLoader (bootLoaderName : ℕ) (m : Memory) : Memory :=
  addFlag (setMbi (addFlag (setMbi m bootDeviceOff 0x8000FFFF) multibootInfoBootdev)
    bootLoaderNameOff bootLoaderName) multibootInfoBootLoaderName

theorem nameLoader_outside {name x : ℕ} {m : Memory}
    (h : x < multibootInfoAddr ∨ multibootInfoAddr+4 ≤ x ∧ x < multibootInfoAddr+12 ∨
      multibootInfoAddr+16 ≤ x ∧ x < multibootInfoAddr+64 ∨ multibootInfoAddr+68 ≤ x) :
    nameLoader name m x = m x := by
  rw [nameLoader,addFlag_outside (by omega)]
  rw [setMbi_outside (by simp only [bootLoaderNameOff]; omega),addFlag_outside (by omega)]
  exact setMbi_outside (by simp only [bootDeviceOff]; omega)

theorem nameLoader_fields {name : ℕ} (hn : name < 256^4) (m : Memory) :
    mbi (nameLoader name m) flagsOff =
        mbi m flagsOff ||| multibootInfoBootdev ||| multibootInfoBootLoaderName ∧
      mbi (nameLoader name m) bootDeviceOff = 0x8000FFFF ∧
      mbi (nameLoader name m) bootLoaderNameOff = name := by
  have hset : ∀ m off v, 4 ≤ off → mbi (setMbi m off v) flagsOff = mbi m flagsOff := by
    intro m off v h
    apply load_store_outside
    simp only [flagsOff]
    omega
  refine ⟨?_,?_,?_⟩
  · rw [nameLoader,mbi_addFlag_flags _ (by decide),hset _ _ _ (by decide),
      mbi_addFlag_flags _ (by decide),hset _ _ _ (by decide)]
  · simp only [nameLoader,mbi,addFlag,setMbi,multibootInfoAddr,flagsOff,bootDeviceOff,
      bootLoaderNameOff]
    simp (disch := omega) only [load_store_outside,load_store_of_lt]
  · simp only [nameLoader,mbi,addFlag,setMbi,multibootInfoAddr,flagsOff,bootDeviceOff,
      bootLoaderNameOff]
    simp (disch := omega) only [load_store_outside,load_store_of_lt]

theorem prepareBootInfo_eq (name : ℕ) (m : Memory) : prepareBootInfo name m =
    prepareFramebuffer (nameLoader name (prepareMemoryMap m)) := rfl

theorem prepareFramebuffer_outside {m : Memory} {x : ℕ}
    (h : x < multibootInfoAddr ∨ multibootInfoAddr+4 ≤ x ∧ x < multibootInfoAddr+88 ∨
      multibootInfoAddr+116 ≤ x) : prepareFramebuffer m x = m x := by
  rw [prepareFramebuffer_eq,addFlag_outside (by omega),storeDisplay_outside (by omega)]

/-- What the kernel is told: five flags, the fields that go with them, and zero in all
the others. -/
structure Informs (es : List MmapEntry) (display : FramebufferInfo) (name : ℕ) (m : Memory) :
    Prop where
  flags : mbi m flagsOff = multibootInfoMemMap ||| multibootInfoMemory ||| multibootInfoBootdev |||
    multibootInfoBootLoaderName ||| multibootInfoFramebufferInfo
  lower : mbi m memLowerOff = 640
  map : Tells es m
  bootDevice : mbi m bootDeviceOff = 0x8000FFFF
  bootLoaderName : mbi m bootLoaderNameOff = name
  framebuffer : framebufferAt m = display
  rest : ∀ k, 16 ≤ k ∧ k < 44 ∨ 52 ≤ k ∧ k < 64 ∨ 68 ≤ k ∧ k < 88 → m (multibootInfoAddr+k) = 0

theorem tells_congr {es : List MmapEntry} {m m' : Memory} (h : Tells es m)
    (hlen : es.length ≤ 128)
    (hm : ∀ x, x < multibootInfoAddr ∨ multibootInfoAddr+4 ≤ x ∧ x < multibootInfoAddr+12 ∨
      multibootInfoAddr+44 ≤ x ∧ x < multibootInfoAddr+52 → m' x = m x) : Tells es m' := by
  have hmbi : ∀ off, 4 ≤ off ∧ off ≤ 8 ∨ 44 ≤ off ∧ off ≤ 48 → mbi m' off = mbi m off := by
    intro off ho
    apply load_congr
    intro i hi
    exact hm _ (by omega)
  have haddr := hmbi mmapAddrOff (by decide)
  have hlength := hmbi mmapLengthOff (by decide)
  refine ⟨haddr.trans h.addr,hlength.trans h.length,?_,(hmbi memUpperOff (by decide)).trans h.upper⟩
  have hrec := h.records
  rw [handedMap] at hrec ⊢
  rw [haddr,hlength]
  rw [h.addr,h.length,Nat.mul_div_cancel _ (by decide)] at hrec ⊢
  refine (entriesAt_congr fun i hi => hm _ (.inl ?_)).trans hrec
  simp only [mmapBufferAddr,multibootInfoAddr]
  omega

/-- The records that `bios_loader_main` passes on. -/
def toldMap (rs : List Response) : List MmapEntry :=
  if 1 ≤ (counted rs).length ∧ (counted rs).length ≤ 128 then (counted rs).map Response.record
  else fallbackMap

theorem toldMap_length (rs : List Response) : (toldMap rs).length ≤ 128 := by
  unfold toldMap
  split_ifs with h
  · rw [List.length_map]
    exact h.2
  · decide

/-- The display it tells of: a mode without a linear framebuffer passes for text. -/
def toldDisplay (active : Option Memory) : FramebufferInfo :=
  match active with
  | none => textDisplay
  | some info => if LinearMode info then modeDisplay info else textDisplay

/-- The display block on top of what `init_video_mode` left in the buffer. -/
theorem framebufferAt_told {a b c : VbeMode} {m₁ m : Memory}
    (hz : (framebufferAt m).colors = [0,0,0,0,0,0])
    (hm : ∀ x, 0x9000 ≤ x → x < 0x901A → m x = initVideoMode a b c m₁ x) :
    framebufferAt (prepareFramebuffer m) = toldDisplay (activeMode a b c) := by
  have hg := gfxAt_congr hm
  rw [initVideoMode_eq] at hg
  cases hact : activeMode a b c with
  | none =>
      rw [hact] at hg
      have hbpp : (gfxAt m).bpp = 0 := by
        rw [hg]
        exact gfxAt_vbeFallback m₁
      rw [framebufferAt_prepareFramebuffer hz (by omega)]
      exact if_neg fun h => absurd h.2.2.2 (by omega)
  | some info =>
      rw [hact] at hg
      have hmode : gfxAt m = _ := hg.trans (gfxAt_vbeModeSetOk info m₁)
      have hlt : load 1 info 25 < 256 := load_lt 1 info 25
      rw [framebufferAt_prepareFramebuffer hz (by rw [hmode]; exact hlt),hmode]
      rfl

/-- Whatever the firmware answers, as long as its memory map comes to an end: when the
two buffers in low memory are as `io16.S` left them, this is what the kernel is told. -/
theorem prepareBootInfo_informs {rs : List Response} (h : ∃ r ∈ rs, r.Stops) (a b c : VbeMode)
    (m : Memory) {name : ℕ} (hn : name < 256^4) :
    ∃ m₁, getE820MemoryMap rs m = some m₁ ∧
      ∀ m₂, (∀ x, 0x8000 ≤ x → x < 0x901A → m₂ x = initVideoMode a b c m₁ x) →
        Informs (toldMap rs) (toldDisplay (activeMode a b c)) name (prepareBootInfo name m₂) := by
  obtain ⟨m₁,hm₁,hc,he⟩ := getE820MemoryMap_some h m
  refine ⟨m₁,hm₁,fun m₂ hm₂ => ?_⟩
  have hbuf : mmapBufferAddr = 0x8000 := rfl
  have hsame : ∀ x, 0x8000 ≤ x → x < 0x9000 → m₂ x = m₁ x := by
    intro x h₁ h₂
    rw [hm₂ x h₁ (by omega),initVideoMode_outside a b c m₁ h₂]
  have hcount : load 4 m₂ mmapBufferAddr = (counted rs).length := by
    rw [← hc]
    exact load_congr fun i hi => hsame _ (by omega) (by omega)
  have htells : Tells (toldMap rs) (prepareMemoryMap m₂) := by
    unfold toldMap
    by_cases hn : 1 ≤ (counted rs).length ∧ (counted rs).length ≤ 128
    · rw [if_pos hn]
      have hlen : ((counted rs).map Response.record).length = (counted rs).length :=
        List.length_map _
      apply prepareMemoryMap_counted (by rw [hcount,hlen]) (by rwa [hlen])
      rw [hlen,← he hn.2]
      exact entriesAt_congr fun i hi => hsame _ (by omega) (by omega)
    · rw [if_neg hn]
      exact prepareMemoryMap_fallback hcount hn
  obtain ⟨hf,hl,hz⟩ := prepareMemoryMap_fields m₂
  obtain ⟨hf',hd,hname⟩ := nameLoader_fields hn (prepareMemoryMap m₂)
  have hkeep : ∀ off, 4 ≤ off → off+4 ≤ 88 →
      mbi (prepareFramebuffer (nameLoader name (prepareMemoryMap m₂))) off =
        mbi (nameLoader name (prepareMemoryMap m₂)) off := by
    intro off h₁ h₂
    exact load_congr fun i hi => prepareFramebuffer_outside (by omega)
  rw [prepareBootInfo_eq]
  constructor
  · rw [prepareFramebuffer_eq,mbi_addFlag_flags _ (by decide)]
    have hflags : mbi (storeDisplay (nameLoader name (prepareMemoryMap m₂))) flagsOff =
        mbi (nameLoader name (prepareMemoryMap m₂)) flagsOff := by
      apply load_congr
      intro i hi
      apply storeDisplay_outside
      simp only [flagsOff]
      omega
    rw [hflags,hf',hf]
  · rw [hkeep memLowerOff (by decide) (by decide),← hl]
    apply load_congr
    intro i hi
    apply nameLoader_outside
    simp only [memLowerOff]
    omega
  · apply tells_congr htells (toldMap_length rs)
    intro x hx
    rw [prepareFramebuffer_outside (by omega),nameLoader_outside (by omega)]
  · rw [hkeep bootDeviceOff (by decide) (by decide),hd]
  · rw [hkeep bootLoaderNameOff (by decide) (by decide),hname]
  · apply framebufferAt_told
    · have hzero : ∀ i < 6, mbiByte (nameLoader name (prepareMemoryMap m₂))
          (framebufferRedFieldPositionOff+i) = 0 := by
        intro i hi
        apply load_zero
        intro k hk
        rw [Nat.add_assoc multibootInfoAddr]
        simp only [framebufferRedFieldPositionOff]
        rw [nameLoader_outside (by omega),hz _ (by omega)]
      simp only [framebufferAt,List.range_succ_eq_map,List.range_zero,List.map_cons,List.map_nil]
      rw [hzero 0 (by decide),hzero 1 (by decide),hzero 2 (by decide),hzero 3 (by decide),
        hzero 4 (by decide),hzero 5 (by decide)]
    · intro x h₁ h₂
      have haddr : multibootInfoAddr = 0x95000 := rfl
      rw [nameLoader_outside (by omega),prepareMemoryMap_outside (by omega) (by omega),
        hm₂ x (by omega) h₂]
  · intro k hk
    rw [prepareFramebuffer_outside (by omega),nameLoader_outside (by omega),hz k (by omega)]

/-- The kernel is told of the display that `init_video_mode` has left active exactly when
that is the text mode or a mode with a linear framebuffer; of any other mode it is told
that it is the text mode. -/
theorem display_told_iff {rs : List Response} (h : ∃ r ∈ rs, r.Stops) (a b c : VbeMode)
    (m : Memory) {name : ℕ} (hn : name < 4294967296) :
    ∃ m₁, getE820MemoryMap rs m = some m₁ ∧
      ∀ m₂, (∀ x, 0x8000 ≤ x → x < 0x901A → m₂ x = initVideoMode a b c m₁ x) →
        (framebufferAt (prepareBootInfo name m₂) = displayOf (activeMode a b c) ↔
          ∀ info, activeMode a b c = some info → LinearMode info) ∧
        (framebufferAt (prepareBootInfo name m₂) ≠ displayOf (activeMode a b c) →
          framebufferAt (prepareBootInfo name m₂) = textDisplay) := by
  obtain ⟨m₁,hm₁,hinf⟩ := prepareBootInfo_informs h a b c m hn
  refine ⟨m₁,hm₁,fun m₂ hm₂ => ?_⟩
  rw [(hinf m₂ hm₂).framebuffer]
  cases activeMode a b c with
  | none => simp [toldDisplay,displayOf]
  | some info =>
      have hne : textDisplay ≠ modeDisplay info := by
        intro he
        have ht := congrArg FramebufferInfo.type he
        rw [modeDisplay,linearDisplay] at ht
        split_ifs at ht
        · exact absurd ht (show (2 : ℕ) ≠ 1 by decide)
        · exact absurd ht (show (2 : ℕ) ≠ 0 by decide)
      by_cases hl : LinearMode info
      · simp [toldDisplay,displayOf,hl]
      · simp [toldDisplay,displayOf,hl,hne]

/-- 640 by 480 at 16 bits, but without a linear framebuffer. -/
def bankedMode : VbeMode where
  infoOk := true
  info := fun i => if i = 18 then 0x80 else if i = 19 then 2 else if i = 20 then 0xE0
    else if i = 21 then 1 else if i = 25 then 16 else 0
  setOk := true

theorem display_told_iff_banked : ∃ m₁,
    getE820MemoryMap [reservedResponse 0] (fun _ => 0) = some m₁ ∧
      framebufferAt (prepareBootInfo 0x12000 (initVideoMode bankedMode noVideo noVideo m₁)) =
        textDisplay := by
  obtain ⟨m₁,hm₁,hall⟩ := display_told_iff ⟨reservedResponse 0,.head _,fun _ => rfl⟩ bankedMode
    noVideo noVideo (fun _ => 0) (show 0x12000 < 4294967296 by decide)
  obtain ⟨hiff,htext⟩ := hall _ fun x _ _ => rfl
  refine ⟨m₁,hm₁,htext fun he => ?_⟩
  have hlinear := hiff.mp he bankedMode.info rfl
  exact absurd hlinear (by decide)

end Gemiboot.BootInformation
