import Gemiboot.MkdiskMain
import Gemiboot.VbrScan

/-!
# Where the boot record finds IO.SYS

The scan starts at reserved sector 2. If IO.SYS was copied there, it stops at once.
If not, it runs over the backups, both tables and the root directory, none of which
can carry the two marks: the backups and FSInfo have other bytes at offset 3, a table
sector ends in the top byte of a 28-bit entry, and stored names are in upper case. The
next cluster is the first one IO.SYS was given, and its clusters are consecutive.
-/
namespace Gemiboot.VbrScan
open ByteMemory ShortNames Mkdisk StateTransition
open StageOneLoad (Bios LbaPacket transfer)

/-! ### Sectors without the marks -/

theorem Marked.identifier {disk : Memory} {lba : ℕ} (h : Marked disk lba) :
    disk (512*lba+3) = 0x67 := by
  have h₄ := h.2
  simp only [load] at h₄
  have hb := (disk (512*lba+3)).toNat_lt
  apply UInt8.toNat.inj
  change _ = 0x67
  omega

theorem Marked.signature {disk : Memory} {lba : ℕ} (h : Marked disk lba) :
    disk (512*lba+511) = 0xAA := by
  have h₂ := h.1
  simp only [load] at h₂
  have hb := (disk (512*lba+510)).toNat_lt
  apply UInt8.toNat.inj
  change _ = 0xAA
  have ha : 512*lba+510+1 = 512*lba+511 := rfl
  rw [ha] at h₂
  omega

/-! ### Names in a directory cluster -/

/-- The name fields of a directory cluster have no lower-case letters. -/
def UpperNames (m : Memory) (d : ℕ) : Prop :=
  ∀ k < 64, ∀ i < 8, ¬Lower (m (slotOffset d k+i))

theorem addListing_upperNames {d p : ℕ} (h₂ : 2 ≤ p) (hp : p < clusterLimit) (e : Listing)
    {g : Globals} (h : UpperNames g.disk d) : UpperNames (addListing p e g).disk d := by
  obtain ⟨vis,-,he⟩ := addDirEntry_spec h₂ hp e.name e.attr e.clus e.size g
  rw [addListing,he]
  cases hf : firstFree g.disk p with
  | none => exact h
  | some n =>
      intro k hk i hi
      dsimp only
      by_cases hin : slotOffset p n ≤ slotOffset d k+i ∧ slotOffset d k+i < slotOffset p n+32
      · -- slots are aligned, so it is this one
        have hslot : slotOffset d k = slotOffset p n := by
          unfold slotOffset clusterOffset at *
          omega
        have hname := (writeDirEntry_holds g.disk (slotOffset p n) e.name e.attr e.clus
          e.size).name i (by omega)
        rw [hslot,hname]
        exact entryName_not_lower e.name hi
      · rw [writeDirEntry_frame _ _ _ _ (by omega)]
        exact h k hk i hi

theorem stored_upperNames {g g' : Globals} {first n d : ℕ} {content : Memory}
    (hs : Stored g g' first n content) (h₂ : 2 ≤ d) (hd : d < first)
    (h : UpperNames g.disk d) : UpperNames g'.disk d := by
  intro k hk i hi
  have hx : clusterOffset d ≤ slotOffset d k+i ∧ slotOffset d k+i < clusterOffset d+2048 := by
    unfold slotOffset
    omega
  unfold clusterOffset at hx
  rw [hs.bytes _ (not_inFat_cluster (by omega)),if_neg (by unfold clusterOffset; omega)]
  exact h k hk i hi

theorem perform_upperNames {g₀ g : Globals} {v : Volume} (hrep : Represents g₀ v g) {c : Call}
    (ha : v.Admits c) {d : ℕ} (h₂ : 2 ≤ d) (hd : d < v.next) (h : UpperNames g.disk d) :
    UpperNames (c.perform g).2.disk d := by
  have hp := v.tiled.directory_bounds ha.1
  have hpos := c.kind.clusters_pos
  have h₃ := v.tiled.le
  have hlim := ha.2.1
  rcases c.kind.cases with ⟨data,size,hk⟩ | hk
  · obtain ⟨g₁,hs,hperf⟩ := writeFileData_stored hrep hk ha
    rw [hperf]
    exact addListing_upperNames hp.1 (by omega) _ (stored_upperNames hs h₂ hd h)
  · obtain ⟨g₁,hs,hperf⟩ := createDirectory_stored hrep hk ha
    rw [hperf]
    have h₁ := addListing_upperNames hp.1 (by omega) ⟨c.name,attrDirectory,v.next,0⟩
      (stored_upperNames hs h₂ hd h)
    exact addListing_upperNames (by omega) (by omega) _
      (addListing_upperNames (by omega) (by omega) _ h₁)

theorem performAll_upperNames {cs : List Call} {g₀ g : Globals} {v v' : Volume}
    (hrep : Represents g₀ v g) (hr : v.run cs = some v') {d : ℕ} (h₂ : 2 ≤ d) (hd : d < v.next)
    (h : UpperNames g.disk d) : UpperNames (performAll cs g).disk d := by
  induction cs generalizing v g with
  | nil => exact h
  | cons c cs ih =>
      obtain ⟨ha,-,v₁,hr₁,hrep₁,hn₁,-⟩ := run_step hrep hr
      exact ih hrep₁ hr₁ (by omega) (perform_upperNames hrep ha h₂ hd h)

/-! ### The sectors of the finished image -/

/-- An entry of a used or free cluster has 28 bits. -/
theorem entry_lt {g₀ g : Globals} {v : Volume} (h : Allocated g₀ v g) (b : Bool) {d : ℕ}
    (h₂ : 2 ≤ d) (hd : d < fatEntries) : entry b g.disk d < 268435456 := by
  have hfalse : entry false g.disk d < 268435456 := by
    by_cases hroot : d = rootClus
    · rw [hroot,h.root]
      decide
    by_cases hfree : v.next ≤ d
    · rw [h.free d hfree hd]
      decide
    have h₃ : 3 ≤ d := by
      simp only [rootClus] at hroot
      omega
    obtain ⟨o,ho,hfirst,hlast⟩ := v.tiled.cover h₃ (not_le.mp hfree)
    rw [h.chained o ho d hfirst hlast]
    unfold fatEntries at hd
    split_ifs
    · decide
    · omega
  cases b with
  | false => exact hfalse
  | true =>
      rw [h.mirrored d hd]
      exact hfalse

/-- A table sector ends in the top byte of an entry. -/
theorem table_unmarked {g₀ g : Globals} {v : Volume} (h : Allocated g₀ v g) {lba : ℕ}
    (h₁ : 2080 ≤ lba) (h₂ : lba < 4120) : ¬Marked g.disk lba := by
  intro hm
  have hlast : ∀ b d, 2 ≤ d → d < fatEntries → fatBase b+4*d = 512*lba+508 → False := by
    intro b d hd₂ hd haddr
    have hlt := entry_lt h b hd₂ hd
    rw [entry,haddr] at hlt
    have htop := hm.signature
    simp only [load] at hlt
    have ha : 512*lba+508+1+1+1 = 512*lba+511 := rfl
    rw [ha,htop] at hlt
    have haa : (0xAA : UInt8).toNat = 170 := rfl
    omega
  by_cases hcopy : lba < 3100
  · refine hlast false (128*(lba-2080)+127) (by omega) (by unfold fatEntries; omega) ?_
    simp only [fatBase,Bool.false_eq_true,if_false]
    omega
  · refine hlast true (128*(lba-3100)+127) (by omega) (by unfold fatEntries; omega) ?_
    simp only [fatBase,if_true]
    omega

theorem root_unmarked {m : Memory} (h : UpperNames m rootClus) {lba : ℕ} (h₁ : 4120 ≤ lba)
    (h₂ : lba < 4124) : ¬Marked m lba := by
  intro hm
  have hslot := h (16*(lba-4120)) (by omega) 3 (by omega)
  have ha : slotOffset rootClus (16*(lba-4120))+3 = 512*lba+3 := by
    unfold slotOffset clusterOffset rootClus
    omega
  rw [ha,hm.identifier] at hslot
  exact absurd hslot (by decide)

/-- Without the copy, no reserved sector from 2 on has the identifier. -/
theorem reserved_unmarked {inp : Inputs} (h : FitImage inp) (hw : ¬ioCopyWritten inp.ioSys)
    {lba : ℕ} (h₁ : 2050 ≤ lba) (h₂ : lba < 2080) : ¬Marked (main inp).disk lba := by
  intro hm
  have hid := hm.identifier
  rw [main_reserved h (by omega),if_neg hw] at hid
  obtain ⟨-,-,h₆,h₇⟩ := bootSectors_at inp.mbr inp.vbr (i := 3) (by decide)
  by_cases hback : lba = 2054 ∨ lba = 2055
  · rcases hback with rfl | rfl
    · have hboot : bootSectorByte inp.vbr 3 = 0x47 := rfl
      have heq : (0x47 : UInt8) = 0x67 := hboot.symm.trans (h₆.symm.trans hid)
      exact absurd heq (by decide)
    · have hinfo : fsInfoByte 3 = 0x41 := rfl
      have heq : (0x41 : UInt8) = 0x67 := hinfo.symm.trans (h₇.symm.trans hid)
      exact absurd heq (by decide)
  · rw [bootSectors_zero (by omega) (by omega)] at hid
    exact absurd hid (by decide)

/-! ### The scan of a finished image -/

/-- What the boot record relies on: IO.SYS fills a sector and carries both marks. -/
structure IoSysMarked (ioSys : HostFile) : Prop where
  size : 512 ≤ ioSys.size
  identifier : load 4 ioSys.data 3 = 0x696D6567
  signature : load 2 ioSys.data 510 = 0xAA55

/-- The file starts at this sector and goes on without a gap. -/
def HoldsFile (disk : Memory) (lba : ℕ) (f : HostFile) : Prop :=
  ∀ i < f.size, disk (512*lba+i) = f.data i

theorem HoldsFile.marked {disk : Memory} {lba : ℕ} {f : HostFile} (h : HoldsFile disk lba f)
    (hf : IoSysMarked f) : Marked disk lba := by
  have hsize := hf.size
  constructor
  · rw [← hf.signature]
    apply load_congr
    intro i hi
    rw [← h (510+i) (by omega),Nat.add_assoc]
  · rw [← hf.identifier]
    apply load_congr
    intro i hi
    rw [← h (3+i) (by omega),Nat.add_assoc]

/-- The sector the scan is to stop at: reserved sector 2 or the first data cluster
behind the root directory. -/
def ioSysLba (inp : Inputs) : ℕ := if ioCopyWritten inp.ioSys then 2050 else 4124

theorem main_holdsIoSys {inp : Inputs} (h : FitImage inp) :
    HoldsFile (main inp).disk (ioSysLba inp) inp.ioSys := by
  intro i hi
  unfold ioSysLba
  split_ifs with hw
  · have := ioCopy_size h.ioCopyInside hw
    rw [main_reserved h (by omega),if_pos hw]
    exact blit_at hi
  · obtain ⟨v,hv,hrep⟩ := main_run h
    -- the first call of main gets cluster 3
    obtain ⟨-,-,v₁,hr₁,-,-,hobj⟩ :=
      run_step (formatted_represents inp.mbr inp.vbr h.ioCopyInside) hv
    have ho : (⟨⟨rootClus,ioSysName,inp.ioSys.kind⟩,3⟩ : Object) ∈ v.objects := by
      apply run_mem hr₁
      rw [hobj]
      exact List.mem_cons_self
    have hlen : i < 2048*inp.ioSys.clusters := by
      unfold HostFile.clusters
      omega
    have hbyte := hrep.allocated.files _ ho (some inp.ioSys.data) inp.ioSys.size rfl i hlen
    have hd : fileBytes (some inp.ioSys.data) inp.ioSys.size i = inp.ioSys.data i := if_pos hi
    rw [← hd,← hbyte]
    rfl

theorem main_unmarked {inp : Inputs} (h : FitImage inp) {lba : ℕ} (h₁ : 2050 ≤ lba)
    (h₂ : lba < ioSysLba inp) : ¬Marked (main inp).disk lba := by
  unfold ioSysLba at h₂
  split_ifs at h₂ with hw
  · omega
  obtain ⟨v,hv,hrep⟩ := main_run h
  rcases lt_or_ge lba 2080 with hres | hfat
  · exact reserved_unmarked h hw h₁ hres
  rcases lt_or_ge lba 4120 with hfat' | hroot
  · exact table_unmarked hrep.allocated hfat hfat'
  have hz : UpperNames (formatted inp.mbr inp.vbr inp.ioSys).disk rootClus := by
    intro k hk i hi
    have hx : 2109440 ≤ slotOffset rootClus k+i := by
      unfold slotOffset clusterOffset
      omega
    rw [formatted_frame (not_inFat_cluster hx),layOut_above h.ioCopyInside (by omega)]
    decide
  rw [main_performAll h]
  apply root_unmarked _ hroot h₂
  exact performAll_upperNames (formatted_represents inp.mbr inp.vbr h.ioCopyInside) hv
    (by decide) (by decide) hz

theorem main_first {inp : Inputs} (h : FitImage inp) (hio : IoSysMarked inp.ioSys) :
    IsLeast {k | 2048+2 ≤ k ∧ Marked (main inp).disk k} (ioSysLba inp) := by
  constructor
  · refine ⟨?_,(main_holdsIoSys h).marked hio⟩
    unfold ioSysLba
    split_ifs <;> omega
  · intro k hk
    by_contra hlt
    exact main_unmarked h hk.1 (not_le.mp hlt) hk.2

/-- On every image the builder finishes, the scan ends at a complete IO.SYS. -/
theorem eval_ioSys {σ : Type} {b : Bios σ} {inp : Inputs} {dl : UInt8} {bios : σ} {mem : Memory}
    (h : FitImage inp) (hio : IoSysMarked inp.ioSys)
    (hread : ReadsSucceed b (main inp).disk (start dl 2048 bios mem)) :
    ∃ s ∈ eval (step b) (start dl 2048 bios mem), s.label = .ioSys ∧
      HoldsFile (main inp).disk s.ebx inp.ioSys := by
  have hl : ioSysLba inp < 4294967296 := by
    unfold ioSysLba
    split_ifs <;> omega
  obtain ⟨s,hs,hlabel,hebx,-⟩ := eval_first hread (main_first h hio) hl
  refine ⟨s,hs,hlabel,?_⟩
  rw [hebx]
  exact main_holdsIoSys h

/-- An IO.SYS of 30 sectors, one more than fits behind the boot sectors. -/
def largeIoSys : Inputs :=
  ⟨emptyFile,emptyFile,⟨store 2 (store 4 (fun _ => 0) 3 0x696D6567) 510 0xAA55,14849,by decide⟩,
    emptyFile,emptyFile,emptyFile⟩

theorem eval_ioSys_largeIoSys :
    ∃ s ∈ eval (step (StageOneLoad.reliableBios (main largeIoSys).disk))
        (start 0x80 2048 () fun _ => 0),
      s.label = .ioSys ∧ HoldsFile (main largeIoSys).disk s.ebx largeIoSys.ioSys :=
  eval_ioSys (by decide) ⟨by decide,by decide,by decide⟩ fun _ _ _ => ⟨rfl,rfl⟩

end Gemiboot.VbrScan
