import Gemiboot.MkdiskInvariant

/-!
# The formatted image

Everything main writes before the first file lies below the FAT region, provided
the copy of IO.SYS stays inside the buffer, so the tables start out zero except
for the three entries main sets and the image represents the empty volume.
-/
namespace Gemiboot.Mkdisk
open ByteMemory ShortNames LinkedChains

/-- The copy of IO.SYS into the reserved sectors, when it is made, stays inside
the disk buffer. Only a size whose rounding to sectors wraps breaks this. -/
def ioCopyInside (ioSys : HostFile) : Prop :=
  ioCopyWritten ioSys → getSector (partitionStartLba+2)+ioSys.size ≤ totalSectors*sectorSize

instance (ioSys : HostFile) : Decidable (ioCopyInside ioSys) :=
  inferInstanceAs (Decidable (_ → _))

theorem ioCopy_size {ioSys : HostFile} (h : ioCopyInside ioSys) (hw : ioCopyWritten ioSys) :
    ioSys.size ≤ 14848 := by
  have hi := h hw
  have hs := ioSys.size_lt
  simp only [ioCopyWritten,ioSecCount,getSector,u32,partitionStartLba,sectorSize_eq,
    totalSectors_eq,rsvdSecCnt] at hw hi
  omega

theorem ioCopyWritten_iff {ioSys : HostFile} (h : ioSys.size+511 < 4294967296) :
    ioCopyWritten ioSys ↔ (ioSys.size+511)/512 < 30 := by
  simp only [ioCopyWritten,ioSecCount,u32,sectorSize_eq,rsvdSecCnt]
  omega

theorem ioCopyInside_of_size {ioSys : HostFile} (h : ioSys.size+511 < 4294967296) :
    ioCopyInside ioSys := by
  intro hw
  have := (ioCopyWritten_iff h).mp hw
  simp only [getSector,u32,partitionStartLba,sectorSize_eq,totalSectors_eq]
  omega

/-! ### Where the layout writes -/

theorem writeMbr_frame {mbr : HostFile} {m : Memory} {x : ℕ} (h : 512 ≤ x) :
    writeMbr mbr m x = m x := by
  have hb : (if mbr.size < 440 then mbr.size else 440) ≤ 440 := by split_ifs <;> omega
  unfold writeMbr
  simp (disch := omega) only [store,blit_outside]

theorem writeBpb_frame {vbr : HostFile} {a : ℕ} {m : Memory} {x : ℕ}
    (h : x < a ∨ a+512 ≤ x) : writeBpb vbr a m x = m x := by
  have hb : (if vbr.size < sectorSize then vbr.size else sectorSize) ≤ 512 := by
    rw [sectorSize_eq]
    split_ifs <;> omega
  unfold writeBpb
  simp (disch := omega) only [store,blit_outside]

theorem writeFsInfo_frame {a : ℕ} {m : Memory} {x : ℕ} (h : x < a ∨ a+512 ≤ x) :
    writeFsInfo a m x = m x := by
  unfold writeFsInfo
  simp (disch := omega) only [store,blit_outside]

theorem copySector_frame {src dest : ℕ} {m : Memory} {x : ℕ}
    (h : x < getSector dest ∨ getSector dest+512 ≤ x) : copySector src dest m x = m x := by
  rw [copySector,sectorSize_eq,blit_outside h]

theorem copySector_at {src dest : ℕ} {m : Memory} {i : ℕ} (h : i < 512) :
    copySector src dest m (getSector dest+i) = m (getSector src+i) := by
  rw [copySector,sectorSize_eq,blit_at h]

/-- Sectors this side of the end of the disk are where one expects them. -/
theorem getSector_eq {lba : ℕ} (h : lba < 8388608) : getSector lba = lba*512 :=
  u32_of_lt (by rw [sectorSize_eq]; omega)

/-- The disk before IO.SYS is copied behind the boot sectors. -/
def bootSectors (mbr vbr : HostFile) : Memory :=
  let m := writeMbr mbr fun _ => 0
  let m := writeBpb vbr (getSector partitionStartLba) m
  let m := writeFsInfo (getSector (partitionStartLba+1)) m
  let m := copySector partitionStartLba (partitionStartLba+6) m
  copySector (partitionStartLba+1) (partitionStartLba+7) m

theorem layOut_disk (mbr vbr ioSys : HostFile) : (layOut mbr vbr ioSys).disk =
    if ioCopyWritten ioSys then
      blit (bootSectors mbr vbr) (getSector (partitionStartLba+2)) ioSys.size ioSys.data
    else bootSectors mbr vbr := by
  unfold layOut bootSectors
  split_ifs <;> rfl

/-- Outside sectors 0, 1, 6 and 7 of the partition there is only the MBR. -/
theorem bootSectors_outside {mbr vbr : HostFile} {x : ℕ} (h₀ : x < 1048576 ∨ 1049600 ≤ x)
    (h₆ : x < 1051648 ∨ 1052672 ≤ x) : bootSectors mbr vbr x = writeMbr mbr (fun _ => 0) x := by
  simp only [bootSectors,partitionStartLba]
  rw [copySector_frame (by rw [getSector_eq (by omega)]; omega),
    copySector_frame (by rw [getSector_eq (by omega)]; omega),
    writeFsInfo_frame (by rw [getSector_eq (by omega)]; omega),
    writeBpb_frame (by rw [getSector_eq (by omega)]; omega)]

theorem bootSectors_zero {mbr vbr : HostFile} {x : ℕ} (h₀ : 1049600 ≤ x)
    (h₆ : x < 1051648 ∨ 1052672 ≤ x) : bootSectors mbr vbr x = 0 := by
  rw [bootSectors_outside (.inr h₀) h₆]
  exact writeMbr_frame (by omega)

/-- The FAT region and the data area are untouched by the layout. -/
theorem layOut_above {mbr vbr ioSys : HostFile} (h : ioCopyInside ioSys) {x : ℕ}
    (hx : 1064960 ≤ x) : (layOut mbr vbr ioSys).disk x = 0 := by
  rw [layOut_disk]
  split_ifs with hw
  · have hs := ioCopy_size h hw
    rw [blit_outside (by simp only [partitionStartLba]; rw [getSector_eq (by omega)]; omega)]
    exact bootSectors_zero (by omega) (by omega)
  · exact bootSectors_zero (by omega) (by omega)

/-! ### The boot sectors -/

/-- Byte `i` of the boot sector: the fields of the BPB over the vbr file. -/
def bootSectorByte (vbr : HostFile) (i : ℕ) : UInt8 :=
  if 3 ≤ i ∧ i < 40 then
    bytes [0x47,0x45,0x4D,0x49,0x42,0x4F,0x4F,0x54,0,2,4,32,0,2,0,0,0,0,0xF8,0,0,63,0,255,0,
      0,8,0,0,0,0xF8,7,0,0xFC,3,0,0] (i-3)
  else if 44 ≤ i ∧ i < 52 then bytes [2,0,0,0,1,0,6,0] (i-44)
  else if i = 64 then 0x80
  else if 66 ≤ i ∧ i < 90 then
    bytes [0x29,0x78,0x56,0x34,0x12,0x47,0x45,0x4D,0x49,0x42,0x4F,0x4F,0x54,32,32,32,
      0x46,0x41,0x54,0x33,0x32,32,32,32] (i-66)
  else if 510 ≤ i then bytes [0x55,0xAA] (i-510)
  else if i < vbr.size then vbr.data i else 0

/-- Byte `i` of the FSInfo sector, which has its signatures and no counts. -/
def fsInfoByte (i : ℕ) : UInt8 :=
  if i < 4 then bytes [0x52,0x52,0x61,0x41] i
  else if 484 ≤ i ∧ i < 496 then
    bytes [0x72,0x72,0x41,0x61,255,255,255,255,255,255,255,255] (i-484)
  else if 508 ≤ i then bytes [0,0,0x55,0xAA] (i-508)
  else 0

theorem writeBpb_at (vbr : HostFile) {m : Memory} {i : ℕ} (hi : i < 512)
    (hm : m (1048576+i) = 0) : writeBpb vbr 1048576 m (1048576+i) = bootSectorByte vbr i := by
  unfold bootSectorByte
  split_ifs with h₁ h₂ h₃ h₄ h₅ h₆
  · obtain ⟨h,h'⟩ := h₁
    clear hm hi
    interval_cases i <;> rfl
  · obtain ⟨h,h'⟩ := h₂
    clear hm hi h₁
    interval_cases i <;> rfl
  · subst h₃
    rfl
  · obtain ⟨h,h'⟩ := h₄
    clear hm hi h₁ h₂ h₃
    interval_cases i <;> rfl
  · clear hm h₁ h₂ h₃ h₄
    interval_cases i <;> rfl
  · unfold writeBpb
    have hv : i < if vbr.size < sectorSize then vbr.size else sectorSize := by
      rw [sectorSize_eq]
      split_ifs <;> omega
    simp (disch := omega) only [store,blit_outside]
    rw [blit_at hv]
  · unfold writeBpb
    have hv : (if vbr.size < sectorSize then vbr.size else sectorSize) ≤ i := by
      rw [sectorSize_eq]
      split_ifs <;> omega
    simp (disch := omega) only [store,blit_outside]
    exact hm

theorem writeFsInfo_at {m : Memory} {i : ℕ} (hi : i < 512) (hm : m (1049088+i) = 0) :
    writeFsInfo 1049088 m (1049088+i) = fsInfoByte i := by
  unfold fsInfoByte
  split_ifs with h₁ h₂ h₃
  · clear hm hi
    interval_cases i <;> rfl
  · obtain ⟨h,h'⟩ := h₂
    clear hm hi h₁
    interval_cases i <;> rfl
  · clear hm h₁ h₂
    interval_cases i <;> rfl
  · unfold writeFsInfo
    simp (disch := omega) only [store,blit_outside]
    exact hm

/-- The four sectors before IO.SYS is copied in: the backups are copies. -/
theorem bootSectors_at (mbr vbr : HostFile) {i : ℕ} (hi : i < 512) :
    bootSectors mbr vbr (1048576+i) = bootSectorByte vbr i ∧
      bootSectors mbr vbr (1049088+i) = fsInfoByte i ∧
      bootSectors mbr vbr (1051648+i) = bootSectorByte vbr i ∧
      bootSectors mbr vbr (1052160+i) = fsInfoByte i := by
  have hs : ∀ k < 8, getSector (2048+k) = 1048576+512*k := by
    intro k hk
    rw [getSector_eq (by omega)]
    omega
  have h₀ := hs 0 (by omega)
  have h₁ := hs 1 (by omega)
  have h₆ := hs 6 (by omega)
  have h₇ := hs 7 (by omega)
  have hz : ∀ x, 1048576 ≤ x → writeMbr mbr (fun _ => 0) x = 0 := fun x hx =>
    writeMbr_frame (by omega)
  have hb : writeBpb vbr 1048576 (writeMbr mbr fun _ => 0) (1048576+i) = bootSectorByte vbr i :=
    writeBpb_at vbr hi (hz _ (by omega))
  have hf : writeFsInfo 1049088 (writeBpb vbr 1048576 (writeMbr mbr fun _ => 0)) (1049088+i) =
      fsInfoByte i := by
    refine writeFsInfo_at hi ?_
    rw [writeBpb_frame (by omega)]
    exact hz _ (by omega)
  have hb' : writeFsInfo 1049088 (writeBpb vbr 1048576 (writeMbr mbr fun _ => 0)) (1048576+i) =
      bootSectorByte vbr i := by rw [writeFsInfo_frame (by omega),hb]
  have hat : ∀ {src dest : ℕ} (m : Memory) (a b : ℕ), getSector src = a → getSector dest = b →
      copySector src dest m (b+i) = m (a+i) := by
    rintro src dest m a b rfl rfl
    exact copySector_at hi
  simp only [bootSectors,partitionStartLba,Nat.add_zero] at *
  simp only [h₀,h₁]
  refine ⟨?_,?_,?_,?_⟩
  · rw [copySector_frame (by omega),copySector_frame (by omega),hb']
  · rw [copySector_frame (by omega),copySector_frame (by omega),hf]
  · rw [copySector_frame (by omega),hat _ 1048576 1051648 h₀ (by omega),hb']
  · rw [hat _ 1049088 1052160 (by omega) (by omega),copySector_frame (by omega),hf]

/-! ### The empty volume -/

theorem formatted_frame {mbr vbr ioSys : HostFile} {x : ℕ} (hx : ¬InFat x) :
    (formatted mbr vbr ioSys).disk x = (layOut mbr vbr ioSys).disk x := by
  simp only [formatted]
  rw [setFatEntry_frame (by decide) _ _ hx,setFatEntry_frame (by decide) _ _ hx,
    setFatEntry_frame (by decide) _ _ hx]

theorem formatted_entry {mbr vbr ioSys : HostFile} (h : ioCopyInside ioSys) (b : Bool) {d : ℕ}
    (hd : d < fatEntries) : entry b (formatted mbr vbr ioSys).disk d =
      if d = 0 then 0x0FFFFFF8 else if d < 3 then endOfChain else 0 := by
  have hz : entry b (layOut mbr vbr ioSys).disk d = 0 := by
    apply load_zero
    intro i _
    apply layOut_above h
    cases b <;> simp only [fatBase,Bool.false_eq_true,if_false,if_true] <;> omega
  simp only [formatted]
  rw [entry_setFatEntry (by decide) _ _ _ hd,entry_setFatEntry (by decide) _ _ _ hd,
    entry_setFatEntry (by decide) _ _ _ hd,hz]
  by_cases h₃ : d < 3
  · interval_cases d <;> rfl
  · rw [if_neg (by simp only [rootClus]; omega),if_neg (by omega),if_neg (by omega),
      if_neg (by omega),if_neg h₃]

theorem formatted_next (mbr vbr ioSys : HostFile) : (formatted mbr vbr ioSys).nextFreeClus = 3 := by
  simp only [formatted,fat32SetFatEntry,layOut]
  split_ifs <;> rfl

theorem formatted_represents (mbr vbr : HostFile) {ioSys : HostFile} (h : ioCopyInside ioSys) :
    Represents (formatted mbr vbr ioSys) emptyVolume (formatted mbr vbr ioSys) := by
  refine ⟨⟨formatted_next _ _ _,by decide,?_,?_,?_,?_,?_,fun _ _ => rfl,Visits.refl _ _⟩,?_,?_⟩
  · intro d hd
    rw [formatted_entry h _ hd,formatted_entry h _ hd]
  · rw [formatted_entry h _ (by decide)]
    decide
  · intro o ho
    simp [emptyVolume] at ho
  · intro d h₁ hd
    have h₃ : 3 ≤ d := h₁
    rw [formatted_entry h _ hd,if_neg (by omega),if_neg (by omega)]
  · intro o ho
    simp [emptyVolume] at ho
  · intro d
    simp [emptyVolume,listings]
  · intro d hd
    obtain rfl := List.mem_singleton.mp hd
    refine ⟨?_,fun _ i hi => absurd hi (by simp [emptyVolume,listings])⟩
    intro k _ hk
    have hx : 2109440 ≤ slotOffset rootClus k := by
      unfold slotOffset clusterOffset
      omega
    rw [formatted_frame (not_inFat_cluster hx)]
    exact layOut_above h (by omega)

/-- Every run of admissible calls on the formatted image builds its volume. -/
theorem run_represents (mbr vbr : HostFile) {ioSys : HostFile} (h : ioCopyInside ioSys) {cs : List Call}
    {v : Volume} (hr : emptyVolume.run cs = some v) :
    Represents (formatted mbr vbr ioSys) v (performAll cs (formatted mbr vbr ioSys)) :=
  performAll_represents (formatted_represents mbr vbr h) hr

end Gemiboot.Mkdisk
