import Gemiboot.AllocationTable

/-!
# The finished image

The six calls of main as a run of the volume, and the boot sectors it leaves in
the reserved area. The copy of IO.SYS starts at reserved sector 2 and is allowed
to be up to 29 sectors long, so it runs over the backups in sectors 6 and 7; they
survive exactly when the bytes written over them happen to be the same.
-/
namespace Gemiboot.Mkdisk
open ByteMemory ShortNames

/-! ### main as a run -/

def HostFile.clusters (f : HostFile) : ℕ := max 1 ((f.size+2047)/2048)

/-- The four files and the two directories have clusters on the disk. -/
def FitImage (inp : Inputs) : Prop :=
  3+inp.ioSys.clusters+inp.kernel.clusters+2+inp.ia32.clusters+inp.x64.clusters ≤ clusterLimit

instance (inp : Inputs) : Decidable (FitImage inp) := inferInstanceAs (Decidable (_ ≤ _))

def HostFile.kind (f : HostFile) : Kind := .file (some f.data) f.size

def efiClus (inp : Inputs) : ℕ := 3+inp.ioSys.clusters+inp.kernel.clusters

def mainCalls (inp : Inputs) : List Call :=
  [⟨rootClus,ioSysName,inp.ioSys.kind⟩,⟨rootClus,gemiosName,inp.kernel.kind⟩,
    ⟨rootClus,efiName,.directory⟩,⟨efiClus inp,bootName,.directory⟩,
    ⟨efiClus inp+1,bootIa32Name,inp.ia32.kind⟩,⟨efiClus inp+1,bootX64Name,inp.x64.kind⟩]

theorem listings_length (os : List Object) (d : ℕ) : (listings os d).length ≤ 3*os.length := by
  induction os with
  | nil => simp [listings]
  | cons o os ih =>
      have hdots : o.dots.length = 2 := rfl
      simp only [listings,List.length_append,List.length_cons]
      split_ifs <;> simp only [List.length_nil,List.length_singleton,hdots] <;> omega

theorem run_cons {v : Volume} {c : Call} (cs : List Call) (h : v.Admits c) :
    v.run (c::cs) = (v.place c h.1).run cs := by
  rw [Volume.run,dif_pos h]

/-- With few objects only the parent and the clusters are left to check. -/
theorem admits_of_few {v : Volume} {c : Call} (hp : c.parentClus ∈ directories v.objects)
    (hl : v.next+c.kind.clusters ≤ clusterLimit) (hn : v.objects.length ≤ 21) : v.Admits c := by
  have := listings_length v.objects c.parentClus
  exact ⟨hp,hl,by omega⟩

theorem root_mem_directories (os : List Object) : rootClus ∈ directories os :=
  mem_directories.mpr (.inl rfl)

/-- One call of main: the run goes on from the volume with the object placed. -/
theorem place_step (v : Volume) (c : Call) (hp : c.parentClus ∈ directories v.objects)
    (hl : v.next+c.kind.clusters ≤ clusterLimit) (hn : v.objects.length ≤ 21) :
    ∃ v' : Volume, (∀ cs, v.run (c::cs) = v'.run cs) ∧ v'.next = v.next+c.kind.clusters ∧
      v'.objects = ⟨c,v.next⟩::v.objects :=
  ⟨v.place c hp,fun cs => run_cons cs (admits_of_few hp hl hn),rfl,rfl⟩

theorem FitImage.ioCopyInside {inp : Inputs} (h : FitImage inp) : ioCopyInside inp.ioSys := by
  apply ioCopyInside_of_size
  simp only [FitImage,HostFile.clusters,clusterLimit] at h
  omega

theorem perform_file (parentClus : ℕ) (name : CString) (f : HostFile) (g : Globals) :
    (Call.mk parentClus name f.kind).perform g =
      writeFileData parentClus name (some f.data) f.size g := by
  simp only [Call.perform,HostFile.kind]

theorem perform_directory (parentClus : ℕ) (name : CString) (g : Globals) :
    (Call.mk parentClus name .directory).perform g = createDirectory parentClus name g := by
  simp only [Call.perform]

theorem HostFile.kind_clusters (f : HostFile) : f.kind.clusters = f.clusters := rfl

theorem directory_clusters : Kind.directory.clusters = 1 := rfl

/-- The calls of main stay within the image. -/
theorem mainCalls_run {inp : Inputs} (h : FitImage inp) :
    ∃ v, emptyVolume.run (mainCalls inp) = some v := by
  have hlim : 3+inp.ioSys.clusters+inp.kernel.clusters+2+inp.ia32.clusters+inp.x64.clusters ≤
    clusterLimit := h
  obtain ⟨v₁,hr₁,hn₁,ho₁⟩ := place_step emptyVolume ⟨rootClus,ioSysName,inp.ioSys.kind⟩
    (root_mem_directories _) (by simp only [emptyVolume,HostFile.kind_clusters]; omega)
    (by simp [emptyVolume])
  simp only [emptyVolume,HostFile.kind_clusters] at hn₁
  obtain ⟨v₂,hr₂,hn₂,ho₂⟩ := place_step v₁ ⟨rootClus,gemiosName,inp.kernel.kind⟩
    (root_mem_directories _) (by simp only [hn₁,HostFile.kind_clusters]; omega)
    (by simp [ho₁,emptyVolume])
  simp only [hn₁,HostFile.kind_clusters] at hn₂
  obtain ⟨v₃,hr₃,hn₃,ho₃⟩ := place_step v₂ ⟨rootClus,efiName,.directory⟩
    (root_mem_directories _) (by simp only [hn₂,directory_clusters]; omega)
    (by simp [ho₂,ho₁,emptyVolume])
  simp only [hn₂,directory_clusters] at hn₃
  rw [hn₂] at ho₃
  obtain ⟨v₄,hr₄,hn₄,ho₄⟩ := place_step v₃ ⟨efiClus inp,bootName,.directory⟩
    (by rw [ho₃]; exact List.mem_cons_self) (by simp only [hn₃,directory_clusters]; omega)
    (by simp [ho₃,ho₂,ho₁,emptyVolume])
  simp only [hn₃,directory_clusters] at hn₄
  rw [hn₃] at ho₄
  obtain ⟨v₅,hr₅,hn₅,ho₅⟩ := place_step v₄ ⟨efiClus inp+1,bootIa32Name,inp.ia32.kind⟩
    (by rw [ho₄]; exact List.mem_cons_self) (by simp only [hn₄,HostFile.kind_clusters]; omega)
    (by simp [ho₄,ho₃,ho₂,ho₁,emptyVolume])
  simp only [hn₄,HostFile.kind_clusters] at hn₅
  obtain ⟨v₆,hr₆,-,-⟩ := place_step v₅ ⟨efiClus inp+1,bootX64Name,inp.x64.kind⟩
    (by rw [ho₅,ho₄]; exact List.mem_cons_self)
    (by simp only [hn₅,HostFile.kind_clusters]; omega)
    (by simp [ho₅,ho₄,ho₃,ho₂,ho₁,emptyVolume])
  refine ⟨v₆,?_⟩
  rw [mainCalls,hr₁,hr₂,hr₃,hr₄,hr₅,hr₆]
  rfl

/-- What main does after the layout is this list of calls. -/
theorem main_performAll {inp : Inputs} (h : FitImage inp) :
    main inp = performAll (mainCalls inp) (formatted inp.mbr inp.vbr inp.ioSys) := by
  obtain ⟨v,hv⟩ := mainCalls_run h
  have h₀ := formatted_represents inp.mbr inp.vbr h.ioCopyInside
  have he : 3+inp.ioSys.clusters+inp.kernel.clusters = efiClus inp := rfl
  obtain ⟨-,-,v₁,hr₁,h₁,hn₁,-⟩ := run_step h₀ hv
  obtain ⟨-,-,v₂,hr₂,h₂,hn₂,-⟩ := run_step h₁ hr₁
  obtain ⟨-,hf₃,v₃,hr₃,h₃,hn₃,-⟩ := run_step h₂ hr₂
  obtain ⟨-,hf₄,-⟩ := run_step h₃ hr₃
  simp only [emptyVolume,HostFile.kind_clusters] at hn₁
  simp only [hn₁,HostFile.kind_clusters,he] at hn₂
  simp only [hn₂,directory_clusters] at hf₃ hn₃
  rw [hn₃] at hf₄
  simp only [perform_file,perform_directory] at hf₃ hf₄
  simp only [main,mainCalls,performAll,perform_file,perform_directory,hf₃,hf₄]

/-- main performs these calls, and the image represents the volume they build. -/
theorem main_run {inp : Inputs} (h : FitImage inp) : ∃ v, emptyVolume.run (mainCalls inp) = some v ∧
    Represents (formatted inp.mbr inp.vbr inp.ioSys) v (main inp) := by
  obtain ⟨v,hv⟩ := mainCalls_run h
  refine ⟨v,hv,?_⟩
  rw [main_performAll h]
  exact performAll_represents (formatted_represents inp.mbr inp.vbr h.ioCopyInside) hv

/-! ### What is left of the backups -/

def Apart (r s : ℕ × ℕ) : Prop := r.1+r.2 ≤ s.1 ∨ s.1+s.2 ≤ r.1

/-- The regions of the reserved area, as offset and length. -/
def reservedRegions (inp : Inputs) : List (ℕ × ℕ) :=
  [(getSector partitionStartLba,sectorSize),(getSector (partitionStartLba+1),sectorSize),
    (getSector (partitionStartLba+6),sectorSize),(getSector (partitionStartLba+7),sectorSize)]++
    if ioCopyWritten inp.ioSys then [(getSector (partitionStartLba+2),inp.ioSys.size)] else []

structure RegionsKept (inp : Inputs) (g : Globals) : Prop where
  backupBoot : ∀ i < sectorSize,
    g.disk (getSector (partitionStartLba+6)+i) = g.disk (getSector partitionStartLba+i)
  backupFsInfo : ∀ i < sectorSize,
    g.disk (getSector (partitionStartLba+7)+i) = g.disk (getSector (partitionStartLba+1)+i)
  ioSysCopy : ioCopyWritten inp.ioSys → ∀ i < inp.ioSys.size,
    g.disk (getSector (partitionStartLba+2)+i) = inp.ioSys.data i
  apart : ∀ r ∈ reservedRegions inp, Apart r (getSector fatStart,fatSize*sectorSize) ∧
    Apart r (getSector (fatStart+fatSize),fatSize*sectorSize) ∧
    ∀ c, 2 ≤ c → c < clusterLimit → Apart r (getSector (clusterToLba c),secPerClus*sectorSize)

/-- The part of IO.SYS that lands on sectors 6 and 7 repeats what was there. -/
def BackupsRepeated (inp : Inputs) : Prop :=
  ∀ i < 512, (2048+i < inp.ioSys.size → inp.ioSys.data (2048+i) = bootSectorByte inp.vbr i) ∧
    (2560+i < inp.ioSys.size → inp.ioSys.data (2560+i) = fsInfoByte i)

/-- Nothing main does after the layout reaches below the first table. -/
theorem main_reserved {inp : Inputs} (h : FitImage inp) {x : ℕ} (hx : x < 1064960) :
    (main inp).disk x = if ioCopyWritten inp.ioSys then
      blit (bootSectors inp.mbr inp.vbr) 1049600 inp.ioSys.size inp.ioSys.data x
      else bootSectors inp.mbr inp.vbr x := by
  obtain ⟨v,-,hrep⟩ := main_run h
  have hs : getSector (partitionStartLba+2) = 1049600 := rfl
  rw [hrep.allocated.reserved x hx,formatted_frame (by unfold InFat; omega),layOut_disk,hs]
  split_ifs <;> rfl

theorem reservedRegions_apart {inp : Inputs} (h : ioCopyInside inp.ioSys) :
    ∀ r ∈ reservedRegions inp, Apart r (getSector fatStart,fatSize*sectorSize) ∧
      Apart r (getSector (fatStart+fatSize),fatSize*sectorSize) ∧
      ∀ c, 2 ≤ c → c < clusterLimit → Apart r (getSector (clusterToLba c),secPerClus*sectorSize) := by
  intro r hr
  -- every region ends before the first table starts
  have hend : r.1+r.2 ≤ 1064960 := by
    rcases List.mem_append.mp hr with hr | hr
    · simp only [List.mem_cons,List.not_mem_nil,or_false,partitionStartLba,sectorSize_eq] at hr
      rcases hr with rfl | rfl | rfl | rfl <;> rw [getSector_eq (by omega)] <;> omega
    · split_ifs at hr with hw
      · have := ioCopy_size h hw
        rw [List.mem_singleton.mp hr]
        simp only [partitionStartLba]
        rw [getSector_eq (by omega)]
        omega
      · simp at hr
  refine ⟨.inl ?_,.inl ?_,fun c h₂ hc => .inl ?_⟩
  · rw [fatStart_eq,getSector_eq (by omega)]
    exact hend
  · rw [fatStart_eq,fatSize_eq,getSector_eq (by omega)]
    dsimp only
    omega
  · rw [getSector_clusterToLba h₂ hc]
    unfold clusterOffset
    dsimp only
    omega

/-- The four sectors of the finished image. -/
theorem main_sectors {inp : Inputs} (h : FitImage inp) {i : ℕ} (hi : i < 512) :
    (main inp).disk (1048576+i) = bootSectorByte inp.vbr i ∧
      (main inp).disk (1049088+i) = fsInfoByte i ∧
      (main inp).disk (1051648+i) = (if ioCopyWritten inp.ioSys ∧ 2048+i < inp.ioSys.size then
        inp.ioSys.data (2048+i) else bootSectorByte inp.vbr i) ∧
      (main inp).disk (1052160+i) = (if ioCopyWritten inp.ioSys ∧ 2560+i < inp.ioSys.size then
        inp.ioSys.data (2560+i) else fsInfoByte i) := by
  obtain ⟨h₀,h₁,h₆,h₇⟩ := bootSectors_at inp.mbr inp.vbr hi
  rw [main_reserved h (by omega),main_reserved h (by omega),main_reserved h (by omega),
    main_reserved h (by omega)]
  by_cases hw : ioCopyWritten inp.ioSys
  · simp only [hw,true_and,if_true]
    refine ⟨?_,?_,?_,?_⟩
    · rw [blit_outside (by omega),h₀]
    · rw [blit_outside (by omega),h₁]
    · split_ifs with hs
      · rw [blit_inside (by omega) (by omega),show 1051648+i-1049600 = 2048+i by omega]
      · rw [blit_outside (by omega),h₆]
    · split_ifs with hs
      · rw [blit_inside (by omega) (by omega),show 1052160+i-1049600 = 2560+i by omega]
      · rw [blit_outside (by omega),h₇]
  · simp only [hw,false_and,if_false]
    exact ⟨h₀,h₁,h₆,h₇⟩

/-- The reserved regions of the finished image survive one another exactly when
IO.SYS is not copied there or does not differ where it runs over the backups. -/
theorem main_regionsKept_iff {inp : Inputs} (h : FitImage inp) :
    RegionsKept inp (main inp) ↔ (ioCopyWritten inp.ioSys → BackupsRepeated inp) := by
  have h₀ : getSector partitionStartLba = 1048576 := rfl
  have h₁ : getSector (partitionStartLba+1) = 1049088 := rfl
  have h₂ : getSector (partitionStartLba+2) = 1049600 := rfl
  have h₆ : getSector (partitionStartLba+6) = 1051648 := rfl
  have h₇ : getSector (partitionStartLba+7) = 1052160 := rfl
  constructor
  · rintro ⟨hb,hf,-,-⟩ hw i hi
    simp only [sectorSize_eq,h₀,h₁,h₆,h₇] at hb hf
    obtain ⟨hs₀,hs₁,hs₆,hs₇⟩ := main_sectors h hi
    refine ⟨fun hs => ?_,fun hs => ?_⟩
    · rw [← hs₀,← hb i hi,hs₆,if_pos ⟨hw,hs⟩]
    · rw [← hs₁,← hf i hi,hs₇,if_pos ⟨hw,hs⟩]
  · intro hrep
    refine ⟨?_,?_,?_,reservedRegions_apart h.ioCopyInside⟩
    · intro i hi
      rw [sectorSize_eq] at hi
      obtain ⟨hs₀,-,hs₆,-⟩ := main_sectors h hi
      rw [h₀,h₆,hs₀,hs₆]
      split_ifs with hw
      · exact (hrep hw.1 i hi).1 hw.2
      · rfl
    · intro i hi
      rw [sectorSize_eq] at hi
      obtain ⟨-,hs₁,-,hs₇⟩ := main_sectors h hi
      rw [h₁,h₇,hs₁,hs₇]
      split_ifs with hw
      · exact (hrep hw.1 i hi).2 hw.2
      · rfl
    · intro hw i hi
      have := ioCopy_size h.ioCopyInside hw
      rw [h₂,main_reserved h (by omega),if_pos hw,blit_at hi]

/-- An IO.SYS one byte longer than four sectors, and five empty files. -/
def longIoSys : Inputs :=
  ⟨emptyFile,emptyFile,⟨fun _ => 1,2049,by decide⟩,emptyFile,emptyFile,emptyFile⟩

theorem main_regionsKept_iff_longIoSys : RegionsKept longIoSys (main longIoSys) ↔
    (ioCopyWritten longIoSys.ioSys → BackupsRepeated longIoSys) :=
  main_regionsKept_iff (by decide)

/-- Its last byte replaces the first byte of the backup boot sector. -/
theorem longIoSys_overwrites : FitImage longIoSys ∧ ¬RegionsKept longIoSys (main longIoSys) := by
  have hfit : FitImage longIoSys := by decide
  refine ⟨hfit,fun hk => ?_⟩
  obtain ⟨hs₀,-,hs₆,-⟩ := main_sectors hfit (i := 0) (by decide)
  have hb := hk.backupBoot 0 (by decide)
  have h₀ : getSector partitionStartLba = 1048576 := rfl
  have h₆ : getSector (partitionStartLba+6) = 1051648 := rfl
  rw [h₀,h₆,hs₀,hs₆,if_pos (by decide)] at hb
  exact absurd hb (by decide)

end Gemiboot.Mkdisk
