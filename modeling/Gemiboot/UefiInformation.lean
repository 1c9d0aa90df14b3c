import Gemiboot.BootInformation
import Gemiboot.FirstHits
import Gemiboot.GopModes
import Gemiboot.StringRoutines

/-!
# The boot information of the UEFI loaders

The first part of `efi_main`, the same in `efi64.c` and `efi32.c` but for the name: the
multiboot structure is cleared, the loader names itself, looks for the ACPI tables and
sets the graphics mode. The messages on the screen are left out; the framebuffer they are
drawn to is not part of the memory here. `w` is the size of the address space.
-/
namespace Gemiboot.UefiInformation
open ByteMemory MultibootMap BiosMemoryMap BootInformation FirstHits MemoryRoutines GopConsole
open StringRoutines (strcpyLiteral strcpyLiteral_eq_blit)
open UefiFileSearch (EfiStatus)
open GopModes (Gop MultibootInfo Globals InitResult ModeInfo initGop recordMode)

structure EfiGuid where
  data1 : UInt32
  data2 : UInt16
  data3 : UInt16
  data4 : List UInt8
  deriving DecidableEq

structure ConfigurationTable where
  vendorGuid : EfiGuid
  /-- `VendorTable`, a pointer. -/
  vendorTable : ℕ

/-- What the loader uses of the system table. -/
structure SystemTable where
  numberOfTableEntries : ℕ
  /-- `ConfigurationTable` may be NULL. -/
  configurationTable : Option (ℕ → ConfigurationTable)

def acpi20Guid : EfiGuid :=
  ⟨0x8868e871,0xe4f1,0x11d3,[0xbc,0x22,0x00,0x80,0xc7,0x3c,0x88,0x81]⟩
def acpi10Guid : EfiGuid :=
  ⟨0xeb9d2d30,0x2d88,0x11d3,[0x9a,0x16,0x00,0x90,0x27,0x3f,0xc1,0x4d]⟩

/-- `for (i = 0; i < st->NumberOfTableEntries; i++)`, from `i` on. -/
def tableWith (tables : ℕ → ConfigurationTable) (guid : EfiGuid) : ℕ → ℕ → Option ℕ
  | 0,_ => none
  | n+1,i =>
      if (tables i).vendorGuid = guid then some (tables i).vendorTable
      else tableWith tables guid n (i+1)

def findAcpiRsdp (st : SystemTable) : ℕ :=
  match st.configurationTable with
  | none => 0
  | some tables =>
      match tableWith tables acpi20Guid st.numberOfTableEntries 0 with
      | some table => table
      | none => (tableWith tables acpi10Guid st.numberOfTableEntries 0).getD 0

def multibootInfoConfigTable : ℕ := 1<<<8
def configTableOff : ℕ := 60

/-- Where the name of the loader goes. -/
def nameAddr : ℕ := multibootInfoAddr+256

/-- `efi_main` up to the call of `init_gop`. -/
def identify (w : ℕ) (name : List UInt8) (st : SystemTable) (m : Memory) : Memory :=
  let m := memset w m multibootInfoAddr 0 multibootInfoSize
  let m := setMbi m bootDeviceOff 0x8000FFFF
  let m := addFlag m multibootInfoBootdev
  let m := strcpyLiteral m nameAddr name
  let m := setMbi m bootLoaderNameOff (u32 nameAddr)
  let m := addFlag m multibootInfoBootLoaderName
  let rsdp := findAcpiRsdp st
  if rsdp ≠ 0 then addFlag (setMbi m configTableOff (u32 rsdp)) multibootInfoConfigTable else m

/-- The fields that `init_gop` may write, as they are in memory. -/
def infoAt (m : Memory) : MultibootInfo where
  flags := (mbi m flagsOff).toUInt32
  framebufferAddrLow := (mbi m framebufferAddrLowOff).toUInt32
  framebufferAddrHi := (mbi m framebufferAddrHiOff).toUInt32
  framebufferPitch := (mbi m framebufferPitchOff).toUInt32
  framebufferWidth := (mbi m framebufferWidthOff).toUInt32
  framebufferHeight := (mbi m framebufferHeightOff).toUInt32
  framebufferBpp := (mbiByte m framebufferBppOff).toUInt8
  framebufferType := (mbiByte m framebufferTypeOff).toUInt8
  framebufferRedFieldPosition := (mbiByte m framebufferRedFieldPositionOff).toUInt8
  framebufferRedMaskSize := (mbiByte m framebufferRedMaskSizeOff).toUInt8
  framebufferGreenFieldPosition := (mbiByte m framebufferGreenFieldPositionOff).toUInt8
  framebufferGreenMaskSize := (mbiByte m framebufferGreenMaskSizeOff).toUInt8
  framebufferBlueFieldPosition := (mbiByte m framebufferBlueFieldPositionOff).toUInt8
  framebufferBlueMaskSize := (mbiByte m framebufferBlueMaskSizeOff).toUInt8

def storeInfo (i : MultibootInfo) (m : Memory) : Memory :=
  let m := setMbi m framebufferAddrLowOff i.framebufferAddrLow.toNat
  let m := setMbi m framebufferAddrHiOff i.framebufferAddrHi.toNat
  let m := setMbi m framebufferWidthOff i.framebufferWidth.toNat
  let m := setMbi m framebufferHeightOff i.framebufferHeight.toNat
  let m := setMbi m framebufferPitchOff i.framebufferPitch.toNat
  let m := setMbiByte m framebufferBppOff i.framebufferBpp.toNat
  let m := setMbiByte m framebufferTypeOff i.framebufferType.toNat
  let m := setMbiByte m framebufferRedFieldPositionOff i.framebufferRedFieldPosition.toNat
  let m := setMbiByte m framebufferRedMaskSizeOff i.framebufferRedMaskSize.toNat
  let m := setMbiByte m framebufferGreenFieldPositionOff i.framebufferGreenFieldPosition.toNat
  let m := setMbiByte m framebufferGreenMaskSizeOff i.framebufferGreenMaskSize.toNat
  let m := setMbiByte m framebufferBlueFieldPositionOff i.framebufferBlueFieldPosition.toNat
  let m := setMbiByte m framebufferBlueMaskSizeOff i.framebufferBlueMaskSize.toNat
  setMbi m flagsOff i.flags.toNat

/-- `init_gop` with the variables behind `g_fb_base` and the structure in memory. -/
def initGopAt (w : ℕ) (locate : EfiStatus × Option Gop) (fb : Framebuffer) (console : Console)
    (m : Memory) : InitResult × Memory :=
  let r := initGop w locate ⟨fb,console,infoAt m⟩
  (r,storeInfo r.globals.mbi m)

/-- The framebuffer variables and the cursor as they are when the program starts. -/
def initialFramebuffer : Framebuffer := ⟨0,0,0,0⟩
def initialConsole : Console := ⟨0,0,fun _ => 0,[]⟩

/-- `efi_main` up to the first message. -/
def prepareInfo (w : ℕ) (name : List UInt8) (st : SystemTable)
    (locate : EfiStatus × Option Gop) (m : Memory) : InitResult × Memory :=
  initGopAt w locate initialFramebuffer initialConsole (identify w name st m)

/-! ### What is found and shown -/

/-- The table an entry points to, if the entry is of this kind. -/
def entryTable (tables : ℕ → ConfigurationTable) (guid : EfiGuid) (k : ℕ) : Option ℕ :=
  if (tables k).vendorGuid = guid then some (tables k).vendorTable else none

/-- The first entry of this kind points to `table`. -/
def IsTable (st : SystemTable) (guid : EfiGuid) (table : ℕ) : Prop :=
  ∃ tables, st.configurationTable = some tables ∧
    ∃ n < st.numberOfTableEntries, FirstHit (entryTable tables guid) n table

def Missing (st : SystemTable) (guid : EfiGuid) : Prop :=
  ∀ tables, st.configurationTable = some tables → ∀ n < st.numberOfTableEntries,
    (tables n).vendorGuid ≠ guid

/-- The tables of ACPI 2.0 go first, wherever they are listed. -/
def IsRsdp (st : SystemTable) (rsdp : ℕ) : Prop :=
  IsTable st acpi20Guid rsdp ∨ Missing st acpi20Guid ∧
    (IsTable st acpi10Guid rsdp ∨ Missing st acpi10Guid ∧ rsdp = 0)

/-- The mode active in the end, with its framebuffer, if it has an Info. -/
def Shows (locate : EfiStatus × Option Gop) (display : Option (UInt64 × ModeInfo)) : Prop :=
  (∃ g a, locate = (.success,some g) ∧ g.ActiveAfter a ∧
    display = if g.infoNull a then none else some (g.frameBufferBase a,g.table a)) ∨
  (∀ g, locate ≠ (.success,some g)) ∧ display = none

/-- How a mode is described; pixels take four bytes. -/
def modeInfo (base : UInt64) (i : ModeInfo) : FramebufferInfo where
  addr := base.toNat
  width := i.horizontalResolution.toNat
  height := i.verticalResolution.toNat
  pitch := (i.pixelsPerScanLine*4).toNat
  bpp := 32
  type := multibootFramebufferTypeRgb
  colors := if i.pixelFormat = .redGreenBlueReserved8BitPerColor then [0,8,8,8,16,8]
    else [16,8,8,8,0,8]

def displayInfo : Option (UInt64 × ModeInfo) → FramebufferInfo
  | none => ⟨0,0,0,0,0,0,[0,0,0,0,0,0]⟩
  | some (base,i) => modeInfo base i

def displayBase : Option (UInt64 × ModeInfo) → ℕ
  | none => 0
  | some (base,_) => base.toNat

/-- A string with its terminator. -/
def StringAt (m : Memory) (a : ℕ) (s : List UInt8) : Prop :=
  ∀ i ≤ s.length, m (a+i) = s.getD i 0

def toldFlags (rsdp : ℕ) (display : Option (UInt64 × ModeInfo)) : ℕ :=
  multibootInfoBootdev ||| multibootInfoBootLoaderName |||
    (if rsdp ≠ 0 then multibootInfoConfigTable else 0) |||
    (if display.isSome then multibootInfoFramebufferInfo else 0)

/-- The structure with these flags, this pointer to the tables and this display, and the
name it points to. Fields of which it says nothing are zero, but for the map. -/
structure Tells (name : List UInt8) (flags config : ℕ) (display : FramebufferInfo)
    (m : Memory) : Prop where
  flags : mbi m flagsOff = flags
  bootDevice : mbi m bootDeviceOff = 0x8000FFFF
  loaderName : mbi m bootLoaderNameOff = nameAddr
  name : StringAt m nameAddr name
  configTable : mbi m configTableOff = config
  framebuffer : framebufferAt m = display
  rest : ∀ k, 16 ≤ k ∧ k < 44 ∨ 52 ≤ k ∧ k < 60 ∨ 68 ≤ k ∧ k < 88 →
    m (multibootInfoAddr+k) = 0

/-- The structure without the memory map. -/
abbrev Told (name : List UInt8) (rsdp : ℕ) (display : Option (UInt64 × ModeInfo))
    (m : Memory) : Prop :=
  Tells name (toldFlags rsdp display) (u32 rsdp) (displayInfo display) m

/-! ### The tables -/

theorem tableWith_eq (tables : ℕ → ConfigurationTable) (guid : EfiGuid) (n i : ℕ) :
    tableWith tables guid n i = (List.range' i n).findSome? (entryTable tables guid) := by
  induction n generalizing i with
  | zero => rfl
  | succ n ih =>
      rw [tableWith,ih,List.range'_succ,List.findSome?_cons,entryTable]
      split_ifs <;> rfl

theorem tableWith_none {tables : ℕ → ConfigurationTable} {guid : EfiGuid} {n : ℕ}
    (h : tableWith tables guid n 0 = none) : ∀ k < n, (tables k).vendorGuid ≠ guid := by
  rw [tableWith_eq,findSome?_range'_none] at h
  intro k hk hguid
  have hnone := h k (Nat.zero_le k) (by omega)
  rw [entryTable,if_pos hguid] at hnone
  cases hnone

theorem tableWith_cases {st : SystemTable} {tables : ℕ → ConfigurationTable}
    (h : st.configurationTable = some tables) (guid : EfiGuid) :
    (∃ table, tableWith tables guid st.numberOfTableEntries 0 = some table ∧
      IsTable st guid table) ∨
    tableWith tables guid st.numberOfTableEntries 0 = none ∧ Missing st guid := by
  cases hw : tableWith tables guid st.numberOfTableEntries 0 with
  | some table =>
      rw [tableWith_eq,findSome?_range_some] at hw
      exact .inl ⟨table,rfl,tables,h,hw⟩
  | none =>
      refine .inr ⟨rfl,fun tables' h' => ?_⟩
      obtain rfl := Option.some.inj (h.symm.trans h')
      exact tableWith_none hw

theorem findAcpiRsdp_spec (st : SystemTable) : IsRsdp st (findAcpiRsdp st) := by
  cases hc : st.configurationTable with
  | none =>
      have hmissing : ∀ guid, Missing st guid := fun guid tables h => by
        rw [hc] at h
        cases h
      rw [findAcpiRsdp,hc]
      exact .inr ⟨hmissing _,.inr ⟨hmissing _,rfl⟩⟩
  | some tables =>
      rw [findAcpiRsdp,hc]
      dsimp only
      rcases tableWith_cases hc acpi20Guid with ⟨table,hw,htable⟩ | ⟨hw,hmissing⟩
      · rw [hw]
        exact .inl htable
      · rw [hw]
        rcases tableWith_cases hc acpi10Guid with ⟨table,hw',htable⟩ | ⟨hw',hmissing'⟩
        · rw [hw']
          exact .inr ⟨hmissing,.inl htable⟩
        · rw [hw']
          exact .inr ⟨hmissing,.inr ⟨hmissing',rfl⟩⟩

/-! ### The name -/

theorem stringAt_strcpy (m : Memory) (dest : ℕ) (s : List UInt8) :
    StringAt (strcpyLiteral m dest s) dest s := by
  intro i hi
  rw [strcpyLiteral_eq_blit,blit_at (by omega)]

/-! ### The fields -/

section Fields
variable {m : Memory} {i : MultibootInfo}

def describe (i : MultibootInfo) : FramebufferInfo where
  addr := i.framebufferAddrLow.toNat+4294967296*i.framebufferAddrHi.toNat
  width := i.framebufferWidth.toNat
  height := i.framebufferHeight.toNat
  pitch := i.framebufferPitch.toNat
  bpp := i.framebufferBpp.toNat
  type := i.framebufferType.toNat
  colors := [i.framebufferRedFieldPosition.toNat,i.framebufferRedMaskSize.toNat,
    i.framebufferGreenFieldPosition.toNat,i.framebufferGreenMaskSize.toNat,
    i.framebufferBlueFieldPosition.toNat,i.framebufferBlueMaskSize.toNat]

theorem mbi_toUInt32 (m : Memory) (off : ℕ) : (mbi m off).toUInt32.toNat = mbi m off :=
  Nat.mod_eq_of_lt (load_lt 4 m _)

theorem mbiByte_toUInt8 (m : Memory) (off : ℕ) : (mbiByte m off).toUInt8.toNat = mbiByte m off :=
  Nat.mod_eq_of_lt (load_lt 1 m _)

theorem describe_infoAt (m : Memory) : describe (infoAt m) = framebufferAt m := by
  simp only [describe,infoAt,mbi_toUInt32,mbiByte_toUInt8,framebufferAt,List.range_succ_eq_map,
    List.range_zero,List.map_cons,List.map_nil]
  rfl

theorem framebufferAt_storeInfo : framebufferAt (storeInfo i m) = describe i := by
  have h₁ := i.framebufferAddrLow.toNat_lt
  have h₂ := i.framebufferAddrHi.toNat_lt
  have h₃ := i.framebufferWidth.toNat_lt
  have h₄ := i.framebufferHeight.toNat_lt
  have h₅ := i.framebufferPitch.toNat_lt
  have h₆ := i.framebufferBpp.toNat_lt
  have h₇ := i.framebufferType.toNat_lt
  have h₈ := i.framebufferRedFieldPosition.toNat_lt
  have h₉ := i.framebufferRedMaskSize.toNat_lt
  have h₁₀ := i.framebufferGreenFieldPosition.toNat_lt
  have h₁₁ := i.framebufferGreenMaskSize.toNat_lt
  have h₁₂ := i.framebufferBlueFieldPosition.toNat_lt
  have h₁₃ := i.framebufferBlueMaskSize.toNat_lt
  simp only [describe,framebufferAt,mbi,mbiByte,storeInfo,setMbi,setMbiByte,multibootInfoAddr,
    framebufferAddrLowOff,framebufferAddrHiOff,framebufferWidthOff,framebufferHeightOff,
    framebufferPitchOff,framebufferBppOff,framebufferTypeOff,framebufferRedFieldPositionOff,
    framebufferRedMaskSizeOff,framebufferGreenFieldPositionOff,framebufferGreenMaskSizeOff,
    framebufferBlueFieldPositionOff,framebufferBlueMaskSizeOff,flagsOff,List.range_succ_eq_map,
    List.range_zero,List.map_cons,List.map_nil]
  simp (disch := omega) only [load_store_outside,load_store_of_lt]

theorem mbi_storeInfo_flags : mbi (storeInfo i m) flagsOff = i.flags.toNat :=
  load_store_of_lt _ _ i.flags.toNat_lt

/-- Only the flags and the framebuffer fields are written. -/
theorem storeInfo_outside {x : ℕ} (h₁ : x < multibootInfoAddr ∨ multibootInfoAddr+4 ≤ x)
    (h₂ : x < multibootInfoAddr+88 ∨ multibootInfoAddr+116 ≤ x) : storeInfo i m x = m x := by
  simp only [multibootInfoAddr] at h₁ h₂
  simp only [storeInfo,setMbi,setMbiByte,multibootInfoAddr,framebufferAddrLowOff,
    framebufferAddrHiOff,framebufferWidthOff,framebufferHeightOff,framebufferPitchOff,
    framebufferBppOff,framebufferTypeOff,framebufferRedFieldPositionOff,
    framebufferRedMaskSizeOff,framebufferGreenFieldPositionOff,framebufferGreenMaskSizeOff,
    framebufferBlueFieldPositionOff,framebufferBlueMaskSizeOff,flagsOff]
  simp (disch := omega) only [store_outside]

end Fields

/-! ### Before the graphics mode -/

section Identify
variable {w : ℕ} {m : Memory} {name : List UInt8} {st : SystemTable}

theorem mbi_setMbi {off v : ℕ} (h : v < 4294967296) : mbi (setMbi m off v) off = v :=
  load_store_of_lt _ _ h

theorem mbi_setMbi_of_ne {off off' v : ℕ} (h : off+4 ≤ off' ∨ off'+4 ≤ off) :
    mbi (setMbi m off v) off' = mbi m off' := load_store_outside (by omega)

theorem mbi_addFlag_of_ne {off flag : ℕ} (h : 4 ≤ off) :
    mbi (addFlag m flag) off = mbi m off := mbi_setMbi_of_ne (.inl (by simpa [flagsOff] using h))

theorem nameAddr_eq : nameAddr = multibootInfoAddr+256 := rfl

/-- The name lies behind the structure. -/
theorem mbi_strcpy {off : ℕ} (h : off+4 ≤ 116) (a : List UInt8) :
    mbi (strcpyLiteral m nameAddr a) off = mbi m off := by
  rw [strcpyLiteral_eq_blit]
  exact load_blit_outside (.inl (by rw [nameAddr_eq]; omega))

/-- The structure with the device and the name of the loader, and nothing else. -/
structure Named (name : List UInt8) (m : Memory) : Prop where
  flags : mbi m flagsOff = multibootInfoBootdev ||| multibootInfoBootLoaderName
  bootDevice : mbi m bootDeviceOff = 0x8000FFFF
  loaderName : mbi m bootLoaderNameOff = nameAddr
  name : StringAt m nameAddr name
  rest : ∀ k, 16 ≤ k ∧ k < 64 ∨ 68 ≤ k ∧ k < 116 → m (multibootInfoAddr+k) = 0

/-- `identify` before the search for the ACPI tables. -/
def nameSelf (w : ℕ) (name : List UInt8) (m : Memory) : Memory :=
  let m := memset w m multibootInfoAddr 0 multibootInfoSize
  let m := setMbi m bootDeviceOff 0x8000FFFF
  let m := addFlag m multibootInfoBootdev
  let m := strcpyLiteral m nameAddr name
  let m := setMbi m bootLoaderNameOff (u32 nameAddr)
  addFlag m multibootInfoBootLoaderName

theorem nameSelf_named (hw : multibootInfoAddr+multibootInfoSize ≤ w) :
    Named name (nameSelf w name m) := by
  rw [nameSelf,memset_eq_fill hw]
  have hzero : ∀ k < 116, fill m multibootInfoAddr multibootInfoSize 0 (multibootInfoAddr+k) = 0 :=
    fun k hk => fill_inside (Nat.le_add_right _ k) (Nat.add_lt_add_left hk _)
  generalize fill m multibootInfoAddr multibootInfoSize 0 = m₀ at hzero
  have hflags : mbi m₀ flagsOff = 0 := load_zero fun i hi => hzero i (by omega)
  have haddr : u32 nameAddr = nameAddr := rfl
  constructor
  · rw [mbi_addFlag_flags _ (by decide),mbi_setMbi_of_ne (.inr (by decide)),mbi_strcpy (by decide),
      mbi_addFlag_flags _ (by decide),mbi_setMbi_of_ne (.inr (by decide)),hflags,Nat.zero_or]
  · rw [mbi_addFlag_of_ne (by decide),mbi_setMbi_of_ne (.inr (by decide)),mbi_strcpy (by decide),
      mbi_addFlag_of_ne (by decide),mbi_setMbi (by decide)]
  · rw [mbi_addFlag_of_ne (by decide),haddr,mbi_setMbi (by decide)]
  · intro i hi
    rw [addFlag_outside (.inr (by rw [nameAddr_eq]; omega)),
      setMbi_outside (.inr (by rw [nameAddr_eq,bootLoaderNameOff]; omega))]
    exact stringAt_strcpy _ _ _ i hi
  · intro k hk
    have hname : multibootInfoAddr+k < nameAddr := by rw [nameAddr_eq]; omega
    rw [addFlag_outside (.inr (by omega)),setMbi_outside (by rw [bootLoaderNameOff]; omega),
      strcpyLiteral_eq_blit,blit_outside (.inl hname),addFlag_outside (.inr (by omega)),
      setMbi_outside (by rw [bootDeviceOff]; omega),hzero k (by omega)]

/-- The structure as `init_gop` finds it. -/
structure Identified (name : List UInt8) (rsdp : ℕ) (m : Memory) : Prop where
  flags : mbi m flagsOff = multibootInfoBootdev ||| multibootInfoBootLoaderName |||
    (if rsdp ≠ 0 then multibootInfoConfigTable else 0)
  bootDevice : mbi m bootDeviceOff = 0x8000FFFF
  loaderName : mbi m bootLoaderNameOff = nameAddr
  name : StringAt m nameAddr name
  configTable : mbi m configTableOff = u32 rsdp
  rest : ∀ k, 16 ≤ k ∧ k < 60 ∨ 68 ≤ k ∧ k < 116 → m (multibootInfoAddr+k) = 0

theorem identify_identified (hw : multibootInfoAddr+multibootInfoSize ≤ w) :
    Identified name (findAcpiRsdp st) (identify w name st m) := by
  have hn : Named name (nameSelf w name m) := nameSelf_named hw
  have heq : identify w name st m = if findAcpiRsdp st ≠ 0 then
      addFlag (setMbi (nameSelf w name m) configTableOff (u32 (findAcpiRsdp st)))
        multibootInfoConfigTable else nameSelf w name m := rfl
  rw [heq]
  generalize nameSelf w name m = m₁ at hn
  by_cases hr : findAcpiRsdp st = 0
  · rw [if_neg (not_not.mpr hr),hr]
    refine ⟨?_,hn.bootDevice,hn.loaderName,hn.name,?_,fun k hk => hn.rest k (by omega)⟩
    · rw [hn.flags,if_neg (by simp),Nat.or_zero]
    · exact load_zero fun i hi => by
        rw [Nat.add_assoc]
        exact hn.rest _ (by rw [configTableOff]; omega)
  · rw [if_pos hr]
    constructor
    · rw [mbi_addFlag_flags _ (by decide),mbi_setMbi_of_ne (.inr (by decide)),hn.flags,if_pos hr]
    · rw [mbi_addFlag_of_ne (by decide),mbi_setMbi_of_ne (.inr (by decide)),hn.bootDevice]
    · rw [mbi_addFlag_of_ne (by decide),mbi_setMbi_of_ne (.inl (by decide)),hn.loaderName]
    · intro i hi
      rw [addFlag_outside (.inr (by rw [nameAddr_eq]; omega)),
        setMbi_outside (.inr (by rw [nameAddr_eq,configTableOff]; omega))]
      exact hn.name i hi
    · rw [mbi_addFlag_of_ne (by decide),mbi_setMbi (u32_lt _)]
    · intro k hk
      rw [addFlag_outside (.inr (by omega)),setMbi_outside (by rw [configTableOff]; omega),
        hn.rest k (by omega)]

end Identify

/-! ### After it -/

section Told
variable {w : ℕ} {name : List UInt8} {rsdp : ℕ} {m : Memory}

theorem describe_recordMode (w : ℕ) (base : UInt64) (i : ModeInfo) (s : Globals) :
    describe (recordMode w base i s).mbi = modeInfo base i := by
  obtain ⟨hlow,hhigh,hwidth,hheight,hpitch,hbpp,htype⟩ := GopModes.recordMode_fields
    (w := w) (i := i) s
  have haddr := GopModes.address_halves base
  unfold describe modeInfo
  rw [hlow,hhigh,hwidth,hheight,hpitch,hbpp,htype,haddr]
  unfold recordMode GopModes.colorFields
  split_ifs <;> rfl

theorem recordMode_flags (w : ℕ) (base : UInt64) (i : ModeInfo) (s : Globals) :
    (recordMode w base i s).mbi.flags = s.mbi.flags ||| GopModes.framebufferInfo := by
  unfold recordMode GopModes.colorFields
  split_ifs <;> rfl

/-- Nothing is shown of a protocol that is missing or has no Info. -/
theorem initGop_shows (w : ℕ) (locate : EfiStatus × Option Gop) (s : Globals) :
    ∃ display, Shows locate display ∧ (initGop w locate s).globals =
      match display with
      | none => s
      | some (base,i) => recordMode w base i s := by
  rcases locate with ⟨status,pointer⟩
  have hnone : (∀ g, (status,pointer) ≠ (EfiStatus.success,some g)) →
      (initGop w (status,pointer) s).globals = s := by
    intro hne
    cases status with
    | error code => rfl
    | success =>
        cases pointer with
        | none => rfl
        | some g => exact absurd rfl (hne g)
  by_cases hg : ∃ g, (status,pointer) = (EfiStatus.success,some g)
  · obtain ⟨g,hg⟩ := hg
    obtain ⟨a,ha,heq⟩ := GopModes.initGop_eq w g s
    rw [hg,heq]
    refine ⟨_,.inl ⟨g,a,rfl,ha,rfl⟩,?_⟩
    dsimp only
    split_ifs <;> rfl
  · rw [not_exists] at hg
    exact ⟨none,.inr ⟨hg,rfl⟩,hnone hg⟩

/-- What `init_gop` adds to the structure. -/
theorem storeInfo_told (h : Identified name rsdp m) {display : Option (UInt64 × ModeInfo)}
    {i : MultibootInfo} (hf : i.flags.toNat = toldFlags rsdp display)
    (hd : describe i = displayInfo display) : Told name rsdp display (storeInfo i m) := by
  have hkeep : ∀ off, 4 ≤ off → off+4 ≤ 88 → mbi (storeInfo i m) off = mbi m off := by
    intro off h₁ h₂
    apply load_congr
    intro k hk
    exact storeInfo_outside (.inr (by omega)) (.inl (by omega))
  constructor
  · rw [mbi_storeInfo_flags,hf]
  · rw [hkeep _ (by decide) (by decide),h.bootDevice]
  · rw [hkeep _ (by decide) (by decide),h.loaderName]
  · intro k hk
    rw [storeInfo_outside (.inr (by rw [nameAddr_eq]; omega)) (.inr (by rw [nameAddr_eq]; omega))]
    exact h.name k hk
  · rw [hkeep _ (by decide) (by decide),h.configTable]
  · rw [framebufferAt_storeInfo,hd]
  · intro k hk
    rw [storeInfo_outside (.inr (by omega)) (.inl (by omega)),h.rest k (by omega)]

/-- A structure without a display describes none. -/
theorem Identified.framebuffer (h : Identified name rsdp m) :
    framebufferAt m = displayInfo none := by
  have hz : ∀ v off, 88 ≤ off → off+v ≤ 116 → load v m (multibootInfoAddr+off) = 0 := by
    intro v off h₁ h₂
    apply load_zero
    intro i hi
    rw [Nat.add_assoc]
    exact h.rest _ (by omega)
  have hcolors : ((List.range 6).map fun i => mbiByte m (framebufferRedFieldPositionOff+i)) =
      (List.range 6).map fun _ => 0 := by
    apply List.map_congr_left
    intro i hi
    have hlt := List.mem_range.mp hi
    exact hz 1 _ (by rw [framebufferRedFieldPositionOff]; omega)
      (by rw [framebufferRedFieldPositionOff]; omega)
  rw [framebufferAt,hcolors]
  simp only [mbi,mbiByte]
  rw [hz 4 framebufferAddrLowOff (by decide) (by decide),
    hz 4 framebufferAddrHiOff (by decide) (by decide),
    hz 4 framebufferWidthOff (by decide) (by decide),
    hz 4 framebufferHeightOff (by decide) (by decide),
    hz 4 framebufferPitchOff (by decide) (by decide),
    hz 1 framebufferBppOff (by decide) (by decide),
    hz 1 framebufferTypeOff (by decide) (by decide)]
  rfl

/-- What the structure tells before the kernel is read, and the variables of the console. -/
theorem prepareInfo_told (hw : multibootInfoAddr+multibootInfoSize ≤ w) (name : List UInt8)
    (st : SystemTable) (locate : EfiStatus × Option Gop) (m : Memory) :
    ∃ display, Shows locate display ∧
      (prepareInfo w name st locate m).1.globals.fb.base = displayBase display%w ∧
      Told name (findAcpiRsdp st) display (prepareInfo w name st locate m).2 := by
  have hi : Identified name (findAcpiRsdp st) (identify w name st m) := identify_identified hw
  rw [prepareInfo,initGopAt]
  generalize identify w name st m = m₁ at hi
  obtain ⟨display,hs,heq⟩ := initGop_shows w locate
    ⟨initialFramebuffer,initialConsole,infoAt m₁⟩
  refine ⟨display,hs,?_⟩
  dsimp only
  rw [heq]
  cases display with
  | none =>
      refine ⟨(Nat.zero_mod w).symm,storeInfo_told hi ?_ ?_⟩
      · change (mbi m₁ flagsOff).toUInt32.toNat = _
        rw [mbi_toUInt32,hi.flags,toldFlags,Option.isSome_none,if_neg Bool.false_ne_true,Nat.or_zero]
      · exact (describe_infoAt m₁).trans hi.framebuffer
  | some d =>
      obtain ⟨base,i⟩ := d
      refine ⟨rfl,storeInfo_told hi ?_ (describe_recordMode _ _ _ _)⟩
      dsimp only
      rw [recordMode_flags,UInt32.toNat_or]
      change (mbi m₁ flagsOff).toUInt32.toNat ||| _ = _
      rw [mbi_toUInt32,hi.flags,toldFlags,Option.isSome_some,if_pos rfl]
      rfl

end Told

end Gemiboot.UefiInformation
