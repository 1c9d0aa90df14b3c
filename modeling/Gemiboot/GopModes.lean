import Gemiboot.GopConsole
import Gemiboot.UefiFileSearch

/-!
# The graphics mode and its description

`init_gop`, the same in `efi64.c` and `efi32.c`, chooses a mode of the Graphics Output
Protocol and records it for the console and in the multiboot information. The protocol
is a table of modes of any length, of which QueryMode may fail to report some; SetMode
may fail and then leaves the current mode as it is. `w` is the size of the address space.
-/
namespace Gemiboot.GopModes
open ByteMemory GopConsole UefiFileSearch

inductive PixelFormat where
  | redGreenBlueReserved8BitPerColor
  | blueGreenRedReserved8BitPerColor
  | bitMask
  | bltOnly
  deriving DecidableEq

/-- EFI_PIXEL_BITMASK. -/
structure PixelBitmask where
  redMask : UInt32
  greenMask : UInt32
  blueMask : UInt32
  reservedMask : UInt32
  deriving DecidableEq

/-- EFI_GRAPHICS_OUTPUT_MODE_INFORMATION. -/
structure ModeInfo where
  horizontalResolution : UInt32
  verticalResolution : UInt32
  pixelFormat : PixelFormat
  pixelInformation : PixelBitmask
  pixelsPerScanLine : UInt32
  deriving DecidableEq

structure Gop where
  maxMode : UInt32
  /-- `Mode->Mode`, the mode that is active before the call. -/
  mode : UInt32
  table : ℕ → ModeInfo
  queryFails : ℕ → Bool
  setFails : ℕ → Bool
  /-- `Mode->Info` is NULL as long as this mode is active. -/
  infoNull : ℕ → Bool
  frameBufferBase : ℕ → UInt64

/-- The fields of the multiboot information that `init_gop` writes. -/
structure MultibootInfo where
  flags : UInt32
  framebufferAddrLow : UInt32
  framebufferAddrHi : UInt32
  framebufferPitch : UInt32
  framebufferWidth : UInt32
  framebufferHeight : UInt32
  framebufferBpp : UInt8
  framebufferType : UInt8
  framebufferRedFieldPosition : UInt8
  framebufferRedMaskSize : UInt8
  framebufferGreenFieldPosition : UInt8
  framebufferGreenMaskSize : UInt8
  framebufferBlueFieldPosition : UInt8
  framebufferBlueMaskSize : UInt8
  deriving DecidableEq

structure Globals where
  fb : Framebuffer
  console : Console
  mbi : MultibootInfo

structure InitResult where
  status : EfiStatus
  /-- `*out_gop` has been set. -/
  found : Bool
  /-- The modes that SetMode was called with. -/
  requests : List ℕ
  globals : Globals

def framebufferInfo : UInt32 := 0x1000
def framebufferTypeRgb : UInt8 := 1

/-- The initial value of `best_mode` and `fallback_mode`. -/
def noMode : ℕ := 0xFFFFFFFF

def Gop.queryMode (g : Gop) (mode : ℕ) : Option ModeInfo :=
  if g.queryFails mode then none else some (g.table mode)

def ModeInfo.isRgbOrBgr (i : ModeInfo) : Bool :=
  i.pixelFormat = .redGreenBlueReserved8BitPerColor ∨
    i.pixelFormat = .blueGreenRedReserved8BitPerColor

/-- The loop from `mode` on, with `fallback_mode`; it ends with both candidates. -/
def scanModes (g : Gop) : ℕ → ℕ → ℕ → ℕ × ℕ
  | 0,_,fallback => (noMode,fallback)
  | n+1,mode,fallback =>
      match g.queryMode mode with
      | none => scanModes g n (mode+1) fallback
      | some info =>
          if info.isRgbOrBgr then
            let fallback := if fallback = noMode then mode else fallback
            if info.horizontalResolution = 640 ∧ info.verticalResolution = 480 then
              (mode,fallback)
            else scanModes g n (mode+1) fallback
          else scanModes g n (mode+1) fallback

def bestMode (g : Gop) : ℕ :=
  let (best,fallback) := scanModes g g.maxMode.toNat 0 noMode
  if best = noMode then if fallback ≠ noMode then fallback else g.mode.toNat else best

/-- The six fields, for the one format and for every other. -/
def colorFields (format : PixelFormat) (mbi : MultibootInfo) : MultibootInfo :=
  if format = .redGreenBlueReserved8BitPerColor then
    { mbi with
      framebufferRedFieldPosition := 0
      framebufferRedMaskSize := 8
      framebufferGreenFieldPosition := 8
      framebufferGreenMaskSize := 8
      framebufferBlueFieldPosition := 16
      framebufferBlueMaskSize := 8 }
  else
    { mbi with
      framebufferBlueFieldPosition := 0
      framebufferBlueMaskSize := 8
      framebufferGreenFieldPosition := 8
      framebufferGreenMaskSize := 8
      framebufferRedFieldPosition := 16
      framebufferRedMaskSize := 8 }

/-- What is recorded of the mode that `Mode` describes after the selection. -/
def recordMode (w : ℕ) (base : UInt64) (info : ModeInfo) (s : Globals) : Globals :=
  let fb : Framebuffer := ⟨base.toNat%w,info.horizontalResolution.toNat,
    info.verticalResolution.toNat,(info.pixelsPerScanLine*4).toNat⟩
  let mbi := colorFields info.pixelFormat
    { s.mbi with
      framebufferAddrLow := (base &&& 0xFFFFFFFF).toUInt32
      framebufferAddrHi := (base >>> 32).toUInt32
      framebufferWidth := info.horizontalResolution
      framebufferHeight := info.verticalResolution
      framebufferPitch := info.pixelsPerScanLine*4
      framebufferBpp := 32
      framebufferType := framebufferTypeRgb }
  ⟨fb,gopClearScreen w fb s.console,{mbi with flags := mbi.flags ||| framebufferInfo}⟩

/-- `locate` is what LocateProtocol returns and the pointer it stores. -/
def initGop (w : ℕ) (locate : EfiStatus × Option Gop) (s : Globals) : InitResult :=
  match locate with
  | (.success,some g) =>
      let best := bestMode g
      let requests := if best ≠ g.mode.toNat then [best] else []
      let active := if best ≠ g.mode.toNat ∧ ¬g.setFails best then best else g.mode.toNat
      if g.infoNull active then ⟨.success,true,requests,s⟩
      else ⟨.success,true,requests,recordMode w (g.frameBufferBase active) (g.table active) s⟩
  | (status,_) => ⟨status,false,[],s⟩

/-! ### What the call is for -/

/-- QueryMode reports an RGB or BGR mode. -/
def Gop.Offered (g : Gop) (mode : ℕ) : Prop :=
  mode < g.maxMode.toNat ∧ g.queryFails mode = false ∧ (g.table mode).isRgbOrBgr

def Gop.Preferred (g : Gop) (mode : ℕ) : Prop :=
  g.Offered mode ∧ (g.table mode).horizontalResolution = 640 ∧
    (g.table mode).verticalResolution = 480

/-- The first preferred mode, or else the first offered one, or else the current one. -/
def Gop.Chosen (g : Gop) (mode : ℕ) : Prop :=
  IsLeast {x | g.Preferred x} mode ∨
    (∀ x, ¬g.Preferred x) ∧ IsLeast {x | g.Offered x} mode ∨
    (∀ x, ¬g.Offered x) ∧ mode = g.mode.toNat

/-- The chosen mode is active in the end, unless it would have to be set and cannot be. -/
def Gop.ActiveAfter (g : Gop) (mode : ℕ) : Prop :=
  ∃ m, g.Chosen m ∧ mode = if m ≠ g.mode.toNat ∧ ¬g.setFails m then m else g.mode.toNat

/-- The masks of a pixel; a mode without a linear framebuffer has none. -/
def ModeInfo.masks (i : ModeInfo) : Option PixelBitmask :=
  match i.pixelFormat with
  | .redGreenBlueReserved8BitPerColor => some ⟨0xFF,0xFF00,0xFF0000,0xFF000000⟩
  | .blueGreenRedReserved8BitPerColor => some ⟨0xFF0000,0xFF00,0xFF,0xFF000000⟩
  | .bitMask => some i.pixelInformation
  | .bltOnly => none

/-- A pixel takes as many bytes as it needs for its highest mask bit. -/
def PixelBitmask.bytesPerPixel (p : PixelBitmask) : ℕ :=
  (Nat.size (p.redMask.toNat ||| p.greenMask.toNat ||| p.blueMask.toNat |||
    p.reservedMask.toNat)+7)/8

/-- The mask consists of `size` bits from bit `position` on. -/
def FieldIs (mask : UInt32) (position size : UInt8) : Prop :=
  mask.toNat = (2^size.toNat-1)*2^position.toNat

/-- The stored description is that of the mode. -/
structure Describes (base : UInt64) (i : ModeInfo) (p : PixelBitmask) (mbi : MultibootInfo) :
    Prop where
  address : mbi.framebufferAddrLow.toNat+4294967296*mbi.framebufferAddrHi.toNat = base.toNat
  width : mbi.framebufferWidth = i.horizontalResolution
  height : mbi.framebufferHeight = i.verticalResolution
  pitch : mbi.framebufferPitch.toNat = i.pixelsPerScanLine.toNat*p.bytesPerPixel
  bpp : mbi.framebufferBpp.toNat = 8*p.bytesPerPixel
  type : mbi.framebufferType = framebufferTypeRgb
  red : FieldIs p.redMask mbi.framebufferRedFieldPosition mbi.framebufferRedMaskSize
  green : FieldIs p.greenMask mbi.framebufferGreenFieldPosition mbi.framebufferGreenMaskSize
  blue : FieldIs p.blueMask mbi.framebufferBlueFieldPosition mbi.framebufferBlueMaskSize

/-- The state of both callers before the call: the information has just been cleared. -/
structure Fresh (s : Globals) : Prop where
  base : s.fb.base = 0
  flags : s.mbi.flags &&& framebufferInfo = 0

def FlagSet (s : Globals) : Prop := s.mbi.flags &&& framebufferInfo ≠ 0

/-- The selection, and a description that matches the mode active on return. -/
structure Faithful (locate : EfiStatus × Option Gop) (r : InitResult) : Prop where
  selection : ∀ g, locate = (.success,some g) → ∀ m, g.Chosen m →
    r.requests = if m ≠ g.mode.toNat then [m] else []
  described : FlagSet r.globals → ∃ g a p, locate = (.success,some g) ∧ g.ActiveAfter a ∧
    (g.table a).masks = some p ∧ Describes (g.frameBufferBase a) (g.table a) p r.globals.mbi
  blt : ∀ g, locate = (.success,some g) → ∀ a, g.ActiveAfter a →
    (g.table a).pixelFormat = .bltOnly → ¬FlagSet r.globals ∧ r.globals.fb.base = 0

/-! ### The selection -/

section Selection
variable {g : Gop}

/-- What the loop knows of `fallback_mode` when it comes to `mode`. -/
def FallbackIs (g : Gop) (mode fallback : ℕ) : Prop :=
  fallback = noMode ∧ (∀ x < mode, ¬g.Offered x) ∨
    fallback < mode ∧ IsLeast {x | g.Offered x} fallback

theorem FallbackIs.skip {mode fallback : ℕ} (h : FallbackIs g mode fallback)
    (hm : ¬g.Offered mode) : FallbackIs g (mode+1) fallback := by
  rcases h with ⟨hf,hnone⟩ | ⟨hlt,hleast⟩
  · left
    exact ⟨hf,Nat.forall_lt_succ_right.mpr ⟨hnone,hm⟩⟩
  · exact .inr ⟨Nat.lt_succ_of_lt hlt,hleast⟩

theorem FallbackIs.take {mode fallback : ℕ} (h : FallbackIs g mode fallback)
    (hm : g.Offered mode) (hmode : mode < noMode) :
    FallbackIs g (mode+1) (if fallback = noMode then mode else fallback) := by
  right
  rcases h with ⟨hf,hnone⟩ | ⟨hlt,hleast⟩
  · rw [if_pos hf]
    refine ⟨Nat.lt_succ_self mode,hm,fun x hx => ?_⟩
    by_contra hlt
    exact hnone x (Nat.lt_of_not_le hlt) hx
  · rw [if_neg (by omega)]
    exact ⟨Nat.lt_succ_of_lt hlt,hleast⟩

/-- What the loop leaves in `best_mode` and `fallback_mode`. -/
def ScanEnds (g : Gop) (r : ℕ × ℕ) : Prop :=
  r.1 = noMode ∧ (∀ x < g.maxMode.toNat, ¬g.Preferred x) ∧ FallbackIs g g.maxMode.toNat r.2 ∨
    r.1 < noMode ∧ IsLeast {x | g.Preferred x} r.1

/-- Mode numbers stay below the value that stands for none. -/
theorem scanModes_spec {n mode fallback : ℕ} (hn : mode+n = g.maxMode.toNat)
    (hpref : ∀ x < mode, ¬g.Preferred x) (hf : FallbackIs g mode fallback) :
    ScanEnds g (scanModes g n mode fallback) := by
  have hmax := g.maxMode.toNat_lt
  have hno : noMode = 4294967295 := rfl
  induction n generalizing mode fallback with
  | zero =>
      rw [Nat.add_zero] at hn
      rw [hn] at hpref hf
      exact .inl ⟨rfl,hpref,hf⟩
  | succ n ih =>
      have hskip : ∀ f, FallbackIs g (mode+1) f → ¬g.Preferred mode →
          ScanEnds g (scanModes g n (mode+1) f) := by
        intro f hf' hm
        exact ih (by omega) (Nat.forall_lt_succ_right.mpr ⟨hpref,hm⟩) hf'
      unfold scanModes
      unfold Gop.queryMode
      cases hq : g.queryFails mode with
      | true =>
          have hm : ¬g.Offered mode := by
            intro h
            rw [h.2.1] at hq
            exact Bool.false_ne_true hq
          exact hskip fallback (hf.skip hm) fun h => hm h.1
      | false =>
          simp only [Bool.false_eq_true,if_false]
          by_cases hc : (g.table mode).isRgbOrBgr = true
          · have hm : g.Offered mode := ⟨by omega,hq,hc⟩
            rw [if_pos hc]
            by_cases hres : (g.table mode).horizontalResolution = 640 ∧
                (g.table mode).verticalResolution = 480
            · rw [if_pos hres]
              refine .inr ⟨by omega,⟨hm,hres⟩,fun x hx => ?_⟩
              by_contra hlt
              exact hpref x (Nat.lt_of_not_le hlt) hx
            · rw [if_neg hres]
              exact hskip _ (hf.take hm (by omega)) fun h => hres h.2
          · have hm : ¬g.Offered mode := fun h => hc h.2.2
            rw [if_neg hc]
            exact hskip fallback (hf.skip hm) fun h => hm h.1

theorem bestMode_chosen (g : Gop) : g.Chosen (bestMode g) := by
  have hspec := @scanModes_spec g g.maxMode.toNat 0 noMode (Nat.zero_add _)
    (fun x hx => absurd hx (Nat.not_lt_zero x))
    (.inl ⟨rfl,fun x hx => absurd hx (Nat.not_lt_zero x)⟩)
  have hmax := g.maxMode.toNat_lt
  have hno : noMode = 4294967295 := rfl
  unfold bestMode
  rcases hspec with ⟨hbest,hpref,hf⟩ | ⟨hlt,hleast⟩
  · simp only [hbest,if_true]
    have hnone : ∀ x, ¬g.Preferred x := fun x hx => hpref x hx.1.1 hx
    rcases hf with ⟨hf,hoff⟩ | ⟨hlt,hleast⟩
    · rw [if_neg (by rw [hf]; exact fun h => h rfl)]
      exact .inr (.inr ⟨fun x hx => hoff x hx.1 hx,rfl⟩)
    · rw [if_pos (by omega)]
      exact .inr (.inl ⟨hnone,hleast⟩)
  · simp only
    rw [if_neg (by omega)]
    exact .inl hleast

theorem Gop.Chosen.unique {m m' : ℕ} (h : g.Chosen m) (h' : g.Chosen m') : m = m' := by
  rcases h with h | ⟨hp,h⟩ | ⟨ho,rfl⟩
  · rcases h' with h' | ⟨hp',-⟩ | ⟨ho',-⟩
    · exact h.unique h'
    · exact absurd h.1 (hp' m)
    · exact absurd h.1.1 (ho' m)
  · rcases h' with h' | ⟨-,h'⟩ | ⟨ho',-⟩
    · exact absurd h'.1 (hp m')
    · exact h.unique h'
    · exact absurd h.1 (ho' m)
  · rcases h' with h' | ⟨-,h'⟩ | ⟨-,h'⟩
    · exact absurd h'.1.1 (ho m')
    · exact absurd h'.1 (ho m')
    · exact h'.symm

theorem Gop.ActiveAfter.unique {a a' : ℕ} (h : g.ActiveAfter a) (h' : g.ActiveAfter a') :
    a = a' := by
  rcases h with ⟨m,hm,rfl⟩
  rcases h' with ⟨m',hm',rfl⟩
  rw [hm.unique hm']

end Selection

/-! ### The description -/

/-- The modes that four bytes with blue lowest, or red lowest in the RGB format,
describe, and whose scan line has a length of 32 bits. -/
def ModeInfo.Describable (i : ModeInfo) : Prop :=
  i.pixelsPerScanLine.toNat < 1073741824 ∧
    (i.isRgbOrBgr = true ∨ i.pixelFormat = .bitMask ∧ i.pixelInformation.redMask = 0xFF0000 ∧
      i.pixelInformation.greenMask = 0xFF00 ∧ i.pixelInformation.blueMask = 0xFF ∧
      0x1000000 ≤ i.pixelInformation.reservedMask.toNat)

theorem fieldIs_iff {mask : UInt32} {position : UInt8} {v : UInt32}
    (h : v.toNat = 255*2^position.toNat) : FieldIs mask position 8 ↔ mask = v := by
  have h8 : 2^(8 : UInt8).toNat-1 = 255 := rfl
  rw [FieldIs,h8,← h,UInt32.toNat_inj]

/-- Four bytes are needed exactly when some mask reaches beyond the third. -/
theorem bytesPerPixel_eq_four (p : PixelBitmask) : p.bytesPerPixel = 4 ↔
    2^24 ≤ p.redMask.toNat ||| p.greenMask.toNat ||| p.blueMask.toNat |||
      p.reservedMask.toNat := by
  have hlt : p.redMask.toNat ||| p.greenMask.toNat ||| p.blueMask.toNat |||
      p.reservedMask.toNat < 2^32 :=
    Nat.or_lt_two_pow (Nat.or_lt_two_pow (Nat.or_lt_two_pow p.redMask.toNat_lt
      p.greenMask.toNat_lt) p.blueMask.toNat_lt) p.reservedMask.toNat_lt
  have hle := Nat.size_le.mpr hlt
  have hsize := @Nat.lt_size 24 (p.redMask.toNat ||| p.greenMask.toNat ||| p.blueMask.toNat |||
    p.reservedMask.toNat)
  rw [← hsize,PixelBitmask.bytesPerPixel]
  omega

theorem bytesPerPixel_bgr {p : PixelBitmask} (hr : p.redMask = 0xFF0000)
    (hg : p.greenMask = 0xFF00) (hb : p.blueMask = 0xFF) :
    p.bytesPerPixel = 4 ↔ 0x1000000 ≤ p.reservedMask.toNat := by
  rw [bytesPerPixel_eq_four,hr,hg,hb]
  have hlow : (0xFF0000 : UInt32).toNat ||| (0xFF00 : UInt32).toNat ||| (0xFF : UInt32).toNat =
      0xFFFFFF := rfl
  rw [hlow]
  constructor
  · intro h
    by_contra hlt
    have hor := Nat.or_lt_two_pow (show 0xFFFFFF < 2^24 by decide)
      (show p.reservedMask.toNat < 2^24 by omega)
    omega
  · intro h
    exact h.trans Nat.right_le_or

section Description
variable {w : ℕ} {base : UInt64} {i : ModeInfo} {p : PixelBitmask} (s : Globals)

theorem address_halves (base : UInt64) :
    (base &&& 0xFFFFFFFF).toUInt32.toNat+4294967296*(base >>> 32).toUInt32.toNat =
      base.toNat := by
  have hb := base.toNat_lt
  have hlow : (base &&& 0xFFFFFFFF).toNat = base.toNat%2^32 := by
    rw [UInt64.toNat_and]
    exact Nat.and_two_pow_sub_one_eq_mod base.toNat 32
  have hhigh : (base >>> 32).toNat = base.toNat/2^32 := by
    rw [UInt64.toNat_shiftRight]
    exact Nat.shiftRight_eq_div_pow base.toNat 32
  rw [UInt64.toNat_toUInt32,UInt64.toNat_toUInt32,hlow,hhigh]
  omega

theorem pitch_eq_iff (n : UInt32) : (n*4).toNat = n.toNat*4 ↔ n.toNat < 1073741824 := by
  have hn := n.toNat_lt
  have h4 : (4 : UInt32).toNat = 4 := rfl
  rw [UInt32.toNat_mul,h4]
  omega

theorem recordMode_flag : FlagSet (recordMode w base i s) := by
  intro h
  have hz := congrArg UInt32.toNat h
  change ((_ ||| framebufferInfo) &&& framebufferInfo).toNat = 0 at hz
  rw [UInt32.toNat_and,UInt32.toNat_or,Nat.and_or_distrib_right,Nat.and_self] at hz
  have hle : framebufferInfo.toNat ≤ _ := Nat.right_le_or.trans_eq hz
  exact absurd hle (by decide)

/-- The fields that do not depend on the pixel format. -/
theorem recordMode_fields :
    (recordMode w base i s).mbi.framebufferAddrLow = (base &&& 0xFFFFFFFF).toUInt32 ∧
      (recordMode w base i s).mbi.framebufferAddrHi = (base >>> 32).toUInt32 ∧
      (recordMode w base i s).mbi.framebufferWidth = i.horizontalResolution ∧
      (recordMode w base i s).mbi.framebufferHeight = i.verticalResolution ∧
      (recordMode w base i s).mbi.framebufferPitch = i.pixelsPerScanLine*4 ∧
      (recordMode w base i s).mbi.framebufferBpp = 32 ∧
      (recordMode w base i s).mbi.framebufferType = framebufferTypeRgb := by
  unfold recordMode colorFields
  split_ifs
  · exact ⟨rfl,rfl,rfl,rfl,rfl,rfl,rfl⟩
  · exact ⟨rfl,rfl,rfl,rfl,rfl,rfl,rfl⟩

/-- The six fields that do, as the masks they describe. -/
def ColorsAre (p : PixelBitmask) (mbi : MultibootInfo) : Prop :=
  FieldIs p.redMask mbi.framebufferRedFieldPosition mbi.framebufferRedMaskSize ∧
    FieldIs p.greenMask mbi.framebufferGreenFieldPosition mbi.framebufferGreenMaskSize ∧
    FieldIs p.blueMask mbi.framebufferBlueFieldPosition mbi.framebufferBlueMaskSize

theorem recordMode_colors : ColorsAre p (recordMode w base i s).mbi ↔ p.greenMask = 0xFF00 ∧
    if i.pixelFormat = .redGreenBlueReserved8BitPerColor then
      p.redMask = 0xFF ∧ p.blueMask = 0xFF0000
    else p.redMask = 0xFF0000 ∧ p.blueMask = 0xFF := by
  have h0 : ∀ m : UInt32, FieldIs m 0 8 ↔ m = 0xFF := fun m => fieldIs_iff rfl
  have h8 : ∀ m : UInt32, FieldIs m 8 8 ↔ m = 0xFF00 := fun m => fieldIs_iff rfl
  have h16 : ∀ m : UInt32, FieldIs m 16 8 ↔ m = 0xFF0000 := fun m => fieldIs_iff rfl
  unfold ColorsAre recordMode colorFields
  split_ifs
  · simp only [h0,h8,h16]
    exact and_left_comm
  · simp only [h0,h8,h16]
    exact and_left_comm

/-- What is stored describes pixels of four bytes only. -/
theorem recordMode_describes : Describes base i p (recordMode w base i s).mbi ↔
    p.bytesPerPixel = 4 ∧ i.pixelsPerScanLine.toNat < 1073741824 ∧
      ColorsAre p (recordMode w base i s).mbi := by
  rcases recordMode_fields s with ⟨hlow,hhigh,hwidth,hheight,hpitch,hbpp,htype⟩
  constructor
  · intro h
    have hbytes : 32 = 8*p.bytesPerPixel := by
      rw [← h.bpp,hbpp]
      rfl
    have h4 : p.bytesPerPixel = 4 := by omega
    have hp := h.pitch
    rw [hpitch,h4,pitch_eq_iff] at hp
    exact ⟨h4,hp,h.red,h.green,h.blue⟩
  · rintro ⟨h4,hp,hred,hgreen,hblue⟩
    refine ⟨?_,hwidth,hheight,?_,?_,htype,hred,hgreen,hblue⟩
    · rw [hlow,hhigh]
      exact address_halves base
    · rw [hpitch,h4]
      exact (pitch_eq_iff _).mpr hp
    · rw [hbpp,h4]
      rfl

/-- The description of a mode with these masks is right exactly if it is describable. -/
theorem recordMode_describable (hp : i.masks = some p) :
    Describes base i p (recordMode w base i s).mbi ↔ i.Describable := by
  have hfour : (⟨0xFF,0xFF00,0xFF0000,0xFF000000⟩ : PixelBitmask).bytesPerPixel = 4 ∧
      (⟨0xFF0000,0xFF00,0xFF,0xFF000000⟩ : PixelBitmask).bytesPerPixel = 4 := by
    rw [bytesPerPixel_eq_four,bytesPerPixel_eq_four]
    decide
  rw [recordMode_describes,recordMode_colors]
  unfold ModeInfo.Describable ModeInfo.isRgbOrBgr
  unfold ModeInfo.masks at hp
  cases hf : i.pixelFormat with
  | redGreenBlueReserved8BitPerColor =>
      rw [hf] at hp
      cases hp
      simp [hfour.1]
  | blueGreenRedReserved8BitPerColor =>
      rw [hf] at hp
      cases hp
      simp [hfour.2]
  | bitMask =>
      rw [hf] at hp
      cases hp
      simp only [if_neg (show PixelFormat.bitMask ≠ .redGreenBlueReserved8BitPerColor by decide)]
      constructor
      · rintro ⟨h4,hpitch,hg,hr,hb⟩
        exact ⟨hpitch,.inr ⟨trivial,hr,hg,hb,(bytesPerPixel_bgr hr hg hb).mp h4⟩⟩
      · rintro ⟨hpitch,h | ⟨-,hr,hg,hb,hx⟩⟩
        · simp at h
        · exact ⟨(bytesPerPixel_bgr hr hg hb).mpr hx,hpitch,hg,hr,hb⟩
  | bltOnly =>
      rw [hf] at hp
      cases hp

theorem ModeInfo.Describable.masks (h : i.Describable) : ∃ p, i.masks = some p := by
  unfold ModeInfo.masks
  rcases h.2 with hf | ⟨hf,-⟩
  · cases hi : i.pixelFormat with
    | redGreenBlueReserved8BitPerColor => exact ⟨_,rfl⟩
    | blueGreenRedReserved8BitPerColor => exact ⟨_,rfl⟩
    | bitMask => exact ⟨_,rfl⟩
    | bltOnly => simp [ModeInfo.isRgbOrBgr,hi] at hf
  · rw [hf]
    exact ⟨_,rfl⟩

end Description

/-! ### The call -/

section Call
variable {w : ℕ} {g : Gop} {s : Globals}

/-- The mode that is recorded is the one active in the end. -/
theorem initGop_eq (w : ℕ) (g : Gop) (s : Globals) : ∃ a, g.ActiveAfter a ∧
    initGop w (.success,some g) s =
      ⟨.success,true,if bestMode g ≠ g.mode.toNat then [bestMode g] else [],
        if g.infoNull a then s else recordMode w (g.frameBufferBase a) (g.table a) s⟩ := by
  refine ⟨_,⟨bestMode g,bestMode_chosen g,rfl⟩,?_⟩
  unfold initGop
  simp only
  split_ifs <;> rfl

/-- Whatever becomes of the request and of the description, the selection is right. -/
theorem initGop_requests {m : ℕ} (hm : g.Chosen m) :
    (initGop w (.success,some g) s).requests = if m ≠ g.mode.toNat then [m] else [] := by
  rcases initGop_eq w g s with ⟨a,-,heq⟩
  rw [heq,(bestMode_chosen g).unique hm]

/-- What goes wrong with any other active mode that has an Info. -/
theorem Faithful.describable (h : Faithful (.success,some g) (initGop w (.success,some g) s))
    {a : ℕ} (ha : g.ActiveAfter a) (hinfo : g.infoNull a = false) :
    (g.table a).Describable := by
  rcases initGop_eq w g s with ⟨a',ha',heq⟩
  have haa := ha'.unique ha
  rw [haa,hinfo] at heq
  rw [heq] at h
  rcases h.described (recordMode_flag s) with ⟨g',b,p,hg,hb,hp,hd⟩
  cases hg
  rw [hb.unique ha] at hp hd
  exact (recordMode_describable s hp).mp hd

/-- A call that records nothing keeps every promise. -/
theorem faithful_unrecorded {locate : EfiStatus × Option Gop} {r : InitResult} (h : Fresh s)
    (hs : r.globals = s) (hsel : ∀ g, locate = (.success,some g) → ∀ m, g.Chosen m →
      r.requests = if m ≠ g.mode.toNat then [m] else []) : Faithful locate r := by
  have hclear : ¬FlagSet r.globals := by
    rw [hs]
    exact fun hflag => hflag h.flags
  refine ⟨hsel,fun hflag => absurd hflag hclear,?_⟩
  intro g hg a ha hblt
  rw [hs] at hclear ⊢
  exact ⟨hclear,h.base⟩

theorem initGop_faithful (h : Fresh s)
    (hd : ∀ a, g.ActiveAfter a → g.infoNull a = false → (g.table a).Describable) :
    Faithful (.success,some g) (initGop w (.success,some g) s) := by
  rcases initGop_eq w g s with ⟨a,ha,heq⟩
  have hsel : ∀ g', ((EfiStatus.success,some g) : EfiStatus × Option Gop) = (.success,some g') →
      ∀ m, g'.Chosen m → (initGop w (.success,some g) s).requests =
        if m ≠ g'.mode.toNat then [m] else [] := by
    intro g' hg m hm
    cases hg
    exact initGop_requests hm
  rw [heq] at hsel ⊢
  cases hinfo : g.infoNull a with
  | true => exact faithful_unrecorded h rfl hsel
  | false =>
      have hda := hd a ha hinfo
      rcases hda.masks with ⟨p,hp⟩
      refine ⟨hsel,fun _ => ⟨g,a,p,rfl,ha,hp,(recordMode_describable s hp).mpr hda⟩,?_⟩
      intro g' hg a' ha' hblt
      cases hg
      rw [ha'.unique ha] at hblt
      rw [ModeInfo.masks,hblt] at hp
      cases hp

end Call

/-- The description is right exactly when the mode active in the end is one the stored
fields can describe. -/
theorem initGop_faithful_iff (w : ℕ) (locate : EfiStatus × Option Gop) {s : Globals}
    (h : Fresh s) : Faithful locate (initGop w locate s) ↔
      ∀ g, locate = (.success,some g) → ∀ a, g.ActiveAfter a → g.infoNull a = false →
        (g.table a).Describable := by
  constructor
  · rintro hf g rfl a ha hinfo
    exact hf.describable ha hinfo
  · intro hd
    rcases locate with ⟨status,pointer⟩
    have hnone : ∀ r : InitResult, r.globals = s →
        (∀ g, (status,pointer) ≠ (EfiStatus.success,some g)) → Faithful (status,pointer) r :=
      fun r hr hne => faithful_unrecorded h hr fun g hg => absurd hg (hne g)
    cases status with
    | error code => exact hnone _ rfl fun g hg => by cases hg
    | success =>
        cases pointer with
        | none => exact hnone _ rfl fun g hg => by cases hg
        | some g => exact initGop_faithful h (hd g rfl)

/-! ### Modes at the edge -/

/-- A protocol with one mode, which is the current one. -/
def singleMode (info : ModeInfo) (base : UInt64) : Gop :=
  ⟨1,0,fun _ => info,fun _ => false,fun _ => false,fun _ => false,fun _ => base⟩

def cleared : Globals := ⟨⟨0,0,0,0⟩,⟨0,0,fun _ => 0,[]⟩,⟨0,0,0,0,0,0,0,0,0,0,0,0,0,0⟩⟩

theorem cleared_fresh : Fresh cleared := ⟨rfl,rfl⟩

theorem singleMode_activeAfter (info : ModeInfo) (base : UInt64) :
    (singleMode info base).ActiveAfter 0 := by
  have hlt : ∀ x, (singleMode info base).Offered x → x = 0 := fun x hx => Nat.lt_one_iff.mp hx.1
  have hchosen := bestMode_chosen (singleMode info base)
  have hzero : bestMode (singleMode info base) = 0 := by
    rcases hchosen with h | ⟨-,h⟩ | ⟨-,h⟩
    · exact hlt _ h.1.1
    · exact hlt _ h.1
    · exact h
  rw [hzero] at hchosen
  exact ⟨0,hchosen,rfl⟩

def vgaRgb : ModeInfo := ⟨640,480,.redGreenBlueReserved8BitPerColor,⟨0,0,0,0⟩,640⟩

/-- No linear framebuffer; pixels are written by Blt only. -/
def vgaBltOnly : ModeInfo := ⟨640,480,.bltOnly,⟨0,0,0,0⟩,640⟩

/-- Pixels of 16 bits, five red, six green and five blue. -/
def vgaHighColor : ModeInfo := ⟨640,480,.bitMask,⟨0xF800,0x7E0,0x1F,0⟩,640⟩

/-- A larger mode, and 640 x 480 with blue first and padded lines. -/
def xgaRgb : ModeInfo := ⟨1024,768,.redGreenBlueReserved8BitPerColor,⟨0,0,0,0⟩,1024⟩
def vgaBgr : ModeInfo := ⟨640,480,.blueGreenRedReserved8BitPerColor,⟨0,0,0,0⟩,704⟩

/-- Mode 0 is the current one, mode 1 is not reported, mode 2 has no framebuffer, and
modes 3 and 4 are the ones looked for. -/
def fiveModes : Gop :=
  ⟨5,0,fun m => if m = 0 then xgaRgb else if m = 2 then vgaBltOnly else if m = 3 then vgaBgr
    else vgaRgb,fun m => m = 1,fun _ => false,fun _ => false,fun _ => 0xC0000000⟩

theorem fiveModes_bestMode : bestMode fiveModes = 3 := by decide +kernel

theorem fiveModes_activeAfter : fiveModes.ActiveAfter 3 := by
  have hchosen := bestMode_chosen fiveModes
  rw [fiveModes_bestMode] at hchosen
  exact ⟨3,hchosen,rfl⟩

theorem initGop_faithful_fiveModes :
    let r := initGop 18446744073709551616 (.success,some fiveModes) cleared
    Faithful (.success,some fiveModes) r ∧ r.requests = [3] ∧ FlagSet r.globals := by
  intro r
  have hfaithful : Faithful (.success,some fiveModes) r := by
    apply (initGop_faithful_iff 18446744073709551616 _ cleared_fresh).mpr
    intro g hg a ha _
    cases hg
    rw [ha.unique fiveModes_activeAfter]
    exact ⟨show (704 : UInt32).toNat < 1073741824 by decide,.inl rfl⟩
  obtain ⟨a,ha,heq⟩ := initGop_eq 18446744073709551616 fiveModes cleared
  obtain rfl := ha.unique fiveModes_activeAfter
  refine ⟨hfaithful,?_,?_⟩
  · rw [show r = _ from heq,fiveModes_bestMode]
    rfl
  · have hinfo : fiveModes.infoNull 3 = false := rfl
    rw [show r = _ from heq,hinfo]
    exact recordMode_flag cleared

theorem initGop_not_faithful :
    ¬Faithful (.success,some (singleMode vgaBltOnly 0))
        (initGop 18446744073709551616 (.success,some (singleMode vgaBltOnly 0)) cleared) ∧
      ¬Faithful (.success,some (singleMode vgaHighColor 0xC0000000))
        (initGop 18446744073709551616 (.success,some (singleMode vgaHighColor 0xC0000000))
          cleared) := by
  constructor
  · intro h
    have hd := h.describable (singleMode_activeAfter vgaBltOnly 0) rfl
    revert hd
    unfold ModeInfo.Describable
    decide
  · intro h
    have hd := h.describable (singleMode_activeAfter vgaHighColor 0xC0000000) rfl
    revert hd
    unfold ModeInfo.Describable
    decide

end Gemiboot.GopModes
