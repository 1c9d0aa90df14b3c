import Gemiboot.FatGeometry
import Gemiboot.FatReadFile
import Gemiboot.LinkedChains

/-!
# Files on FAT12 volumes

`fat_init` accepts volumes with fewer than 4085 clusters and types them FAT12, whose
table packs two entries into three bytes. `fat_get_next_cluster` knows 16-bit and
32-bit entries only and answers with an end mark, so a file stops behind its first
cluster.
-/
namespace Gemiboot.FatReader
open ByteMemory LinkedChains

/-! ### The packed table -/

/-- Byte `i` of the first table. -/
def tableByte (fs : FatFs) (read : Disk) (i : ℕ) : Option UInt8 :=
  (read (u32 (fs.partLba+fs.rsvdSecCnt+i/512))).map fun buf => buf (i%512)

/-- Entry `c` starts at byte `c + c/2`, which can be the last byte of a sector. -/
def packedEntry (fs : FatFs) (read : Disk) (c : ℕ) : Option ℕ :=
  match tableByte fs read (c+c/2),tableByte fs read (c+c/2+1) with
  | some low,some high =>
      let pair := low.toNat+256*high.toNat
      some (if c%2 = 0 then pair%4096 else pair/16)
  | _,_ => none

/-- The clusters of a file, by its chain in the packed table; all of it can be read. -/
structure PackedFile (fs : FatFs) (read : Disk) (first : ℕ) (clusters : List ℕ) : Prop where
  chain : Chain (fun c => (packedEntry fs read c).getD 0) (0xFF8 ≤ ·) first clusters
  inside : ∀ c ∈ clusters, IsCluster fs c
  entries : ∀ c ∈ clusters, (packedEntry fs read c).isSome = true
  sectors : ∀ c ∈ clusters, ∀ s < fs.secPerClus,
    (read (clusterSector fs c s)).isSome = true

/-- The bytes of these clusters in order. -/
def clusterContents (fs : FatFs) (read : Disk) (clusters : List ℕ) : Memory := fun i =>
  ((read (clusterSector fs (clusters.getD (i/512/fs.secPerClus) 0)
    (i/512%fs.secPerClus))).getD fun _ => 0) (i%512)

/-- The call returns 0 and leaves the bytes of these clusters, and nothing else. -/
def Delivers (fs : FatFs) (read : Disk) (first size : ℕ) (clusters : List ℕ) (mem : Memory)
    (dest : ℕ) : Prop :=
  ∃ enough, ∀ fuel, enough ≤ fuel →
    ∃ l, fatReadFileRun fuel fs read first size mem dest = some (.ok l) ∧
      l.mem = blit mem dest size (clusterContents fs read clusters)

section Packed
variable {fs : FatFs} {read : Disk} {first size dest : ℕ} {mem : Memory} {clusters : List ℕ}

theorem totalClusters_lt {boot : Disk} {partLba : ℕ} (h : fatInit boot partLba = .ready fs)
    (h12 : fs.fatType = 12) : fs.totalClusters < 4085 := by
  obtain ⟨bpb,-,-,-,rfl⟩ := fatInit_ready h
  by_contra hge
  have htype : (describe bpb partLba).fatType = if (describe bpb partLba).totalClusters < 4085
      then 12 else if (describe bpb partLba).totalClusters < 65525 then 16 else 32 := rfl
  rw [htype,if_neg hge] at h12
  split_ifs at h12 <;> cases h12

/-- Packed entries have no value. -/
theorem tableEntry_packed (h12 : fs.fatType = 12) (c : ℕ) : tableEntry fs read c = none := by
  unfold tableEntry
  rw [h12]
  rfl

theorem IsCluster.live {c : ℕ} (h : IsCluster fs c) (h12 : fs.fatType = 12)
    (htotal : fs.totalClusters < 4085) : Live fs c := by
  have hle := h.2
  unfold Live entryBits
  rw [h12]
  exact ⟨h.1,show c+8 < 4096 by omega⟩

/-- Of any chain the code sees the first cluster only. -/
theorem Supplied.first_cluster (h12 : fs.fatType = 12) (hspc : 0 < fs.secPerClus) {j : ℕ}
    (h : Supplied fs read first j) : j < fs.secPerClus := by
  by_contra hge
  obtain ⟨k,hk⟩ := Nat.exists_eq_add_of_lt (Nat.div_pos (Nat.le_of_not_lt hge) hspc)
  have hlive := h.1
  rw [hk,clusterAt,tableEntry_packed h12] at hlive
  exact not_live_lastMark fs hlive

theorem PackedFile.supplied (h : PackedFile fs read first clusters) (h12 : fs.fatType = 12)
    (htotal : fs.totalClusters < 4085) {j : ℕ} (hj : j < fs.secPerClus) :
    Supplied fs read first j := by
  have hmem := h.chain.head_mem
  unfold Supplied sectorLba
  rw [Nat.div_eq_of_lt hj,Nat.mod_eq_of_lt hj]
  exact ⟨(h.inside first hmem).live h12 htotal,h.sectors first hmem j hj⟩

theorem PackedFile.getD_zero (h : PackedFile fs read first clusters) :
    clusters.getD 0 0 = first := by
  cases h.chain <;> rfl

/-- In the first cluster the code and the table agree. -/
theorem PackedFile.contents (h : PackedFile fs read first clusters) {i : ℕ}
    (hi : i/512 < fs.secPerClus) :
    chainContents fs read first i = clusterContents fs read clusters i := by
  unfold chainContents clusterContents sectorLba
  rw [Nat.div_eq_of_lt hi,h.getD_zero]
  rfl

end Packed

/-- A file of a FAT12 volume is delivered exactly when it fits in one cluster. -/
theorem delivers_iff {boot : Disk} {partLba : ℕ} {fs : FatFs}
    (h : fatInit boot partLba = .ready fs) (h12 : fs.fatType = 12) (read : Disk) (first : ℕ)
    (clusters : List ℕ) (hfile : PackedFile fs read first clusters) (size : ℕ) (mem : Memory)
    (dest : ℕ) :
    Delivers fs read first size clusters mem dest ↔ size ≤ 512*fs.secPerClus := by
  have hspc := secPerClus_pos h
  have htotal := totalClusters_lt h h12
  have hsectors : size ≤ 512*fs.secPerClus ↔ fileSectors size ≤ fs.secPerClus := by
    unfold fileSectors
    omega
  rw [hsectors]
  constructor
  · intro hdel
    obtain ⟨enough,henough⟩ := hdel
    obtain ⟨l,hl,-⟩ := henough (max enough (fileSectors size+1)) (Nat.le_max_left _ _)
    obtain ⟨r,hr,hcases⟩ := @fatReadFileRun_cases fs read first size dest mem hspc
      (max enough (fileSectors size+1)) (Nat.lt_of_lt_of_le (Nat.lt_succ_self _) (Nat.le_max_right _ _))
    rw [hl] at hr
    cases hr
    rcases hcases with hgood | ⟨i,hbad,-⟩
    · by_contra hgt
      have hlast := (hgood.2 fs.secPerClus (Nat.lt_of_not_le hgt)).first_cluster h12 hspc
      exact Nat.lt_irrefl _ hlast
    · cases hbad
  · intro hle
    refine ⟨fileSectors size+1,fun fuel hfuel => ?_⟩
    obtain ⟨r,hr,hcases⟩ := @fatReadFileRun_cases fs read first size dest mem hspc fuel hfuel
    rcases hcases with hgood | ⟨i,-,j,hj,hbad⟩
    · refine ⟨_,hr.trans (congrArg some hgood.1),?_⟩
      rw [afterSectors_mem]
      apply blit_congr
      intro i hi
      apply hfile.contents
      unfold fileSectors at hle
      omega
    · exact absurd (hfile.supplied h12 htotal (Nat.lt_of_lt_of_le hj hle)) hbad

/-- A FAT12 volume of 2880 sectors whose table chains cluster 2 to 3 and ends there. -/
def floppy : Disk := fun lba => some fun i =>
  if lba = 0 then
    if i = 12 then 2 else if i = 13 then 1 else if i = 14 then 1 else if i = 16 then 1
    else if i = 19 then 0x40 else if i = 20 then 0x0B else if i = 22 then 9 else 0
  else if lba = 1 then if i = 3 then 0x03 else if i = 4 then 0xF0 else if i = 5 then 0xFF else 0
  else UInt8.ofNat lba

def floppyFs : FatFs := ⟨0,512,1,1,1,9,10,0,10,2880,2870,0,12⟩

theorem floppy_init : fatInit floppy 0 = .ready floppyFs := by decide +kernel

theorem floppy_file : PackedFile floppyFs floppy 2 [2,3] := by
  constructor
  · apply Chain.link
    · decide +kernel
    · have hnext : (packedEntry floppyFs floppy 2).getD 0 = 3 := by decide +kernel
      rw [hnext]
      apply Chain.last
      decide +kernel
  · unfold IsCluster
    decide +kernel
  · decide +kernel
  · decide +kernel

theorem delivers_iff_floppy : Delivers floppyFs floppy 2 400 [2,3] (fun _ => 0) 0x200000 :=
  (delivers_iff floppy_init rfl floppy 2 [2,3] floppy_file 400 (fun _ => 0) 0x200000).mpr
    (by decide)

/-- 600 bytes lie in two clusters, and only the first one is read. -/
theorem floppy_cut : 600 ≤ 512*floppyFs.secPerClus*[2,3].length ∧
    (∀ fuel, 2 < fuel → ∃ l, fatReadFileRun fuel floppyFs floppy 2 600 (fun _ => 0) 0x200000 =
      some (.error l)) ∧
    ¬Delivers floppyFs floppy 2 600 [2,3] (fun _ => 0) 0x200000 := by
  have hrun : ∀ fuel, 2 < fuel →
      ∃ l, fatReadFileRun fuel floppyFs floppy 2 600 (fun _ => 0) 0x200000 = some (.error l) := by
    intro fuel hfuel
    obtain ⟨r,hr,hcases⟩ := @fatReadFileRun_cases floppyFs floppy 2 600 0x200000 (fun _ => 0)
      (by decide) fuel hfuel
    rcases hcases with hgood | ⟨i,hbad,-⟩
    · exact absurd ((hgood.2 1 (by decide)).first_cluster rfl (by decide)) (by decide)
    · exact ⟨_,hr.trans (congrArg some hbad)⟩
  refine ⟨by decide,hrun,fun hdel => ?_⟩
  obtain ⟨enough,henough⟩ := hdel
  obtain ⟨l,hl,-⟩ := henough (enough+3) (Nat.le_add_right _ _)
  obtain ⟨l',hl'⟩ := hrun (enough+3) (by omega)
  rw [hl'] at hl
  cases hl

end Gemiboot.FatReader
