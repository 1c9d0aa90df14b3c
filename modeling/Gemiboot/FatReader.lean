import Gemiboot.ShortNames

/-!
# The boot-time FAT reader

`common/fat.c` over a disk given as a partial map from sector numbers to
sectors; a read that fails gives nothing. The two loops that follow a cluster
chain take fuel and answer `none` when it runs out. Fields of the descriptor are
naturals within the widths of the C struct, and 32-bit sums are reduced.
-/
namespace Gemiboot.FatReader
open ByteMemory ShortNames

/-- `disk_read_fn` with a count of one sector. -/
abbrev Disk := ℕ → Option Memory

def sectorSize : ℕ := 512

structure FatFs where
  partLba : ℕ
  bytesPerSec : ℕ
  secPerClus : ℕ
  rsvdSecCnt : ℕ
  numFats : ℕ
  fatSize : ℕ
  rootDirSec : ℕ
  rootEntCnt : ℕ
  dataSec : ℕ
  totalSectors : ℕ
  totalClusters : ℕ
  rootClus : ℕ
  fatType : ℕ
  deriving DecidableEq

inductive FatInit where
  | failed
  | divisionByZero
  | ready (fs : FatFs)
  deriving DecidableEq

/-- The descriptor `fat_init` derives from a boot sector of 512-byte sectors. -/
def describe (bpb : Memory) (partLba : ℕ) : FatFs :=
  let bytesPerSec := load 2 bpb 11
  let rsvdSecCnt := load 2 bpb 14
  let numFats := load 1 bpb 16
  let rootEntCnt := load 2 bpb 17
  let totalSectors := if load 2 bpb 19 ≠ 0 then load 2 bpb 19 else load 4 bpb 32
  let fatSize := if load 2 bpb 22 ≠ 0 then load 2 bpb 22 else load 4 bpb 36
  let rootDirSectors := (rootEntCnt*32+(bytesPerSec-1))/bytesPerSec
  let rootDirSec := u32 (partLba+rsvdSecCnt+u32 (numFats*fatSize))
  let overhead := u32 (rsvdSecCnt+u32 (numFats*fatSize)+rootDirSectors)
  let dataSectors := u32 (totalSectors+(4294967296-overhead))
  let totalClusters := dataSectors/load 1 bpb 13
  let fatType := if totalClusters < 4085 then 12 else if totalClusters < 65525 then 16 else 32
  { partLba, bytesPerSec, secPerClus := load 1 bpb 13, rsvdSecCnt, numFats, fatSize, rootDirSec,
    rootEntCnt, dataSec := u32 (rootDirSec+rootDirSectors), totalSectors, totalClusters
    rootClus := if fatType = 32 then load 4 bpb 44 else 0
    fatType }

/-- The division by `sec_per_clus` is reached for every 512-byte boot sector. -/
def fatInit (read : Disk) (partLba : ℕ) : FatInit :=
  match read partLba with
  | none => .failed
  | some bpb =>
      if load 2 bpb 11 ≠ sectorSize then .failed
      else if load 1 bpb 13 = 0 then .divisionByZero
      else .ready (describe bpb partLba)

/-- `cluster - 2` is an unsigned subtraction. -/
def clusterToLba (fs : FatFs) (cluster : ℕ) : ℕ :=
  u32 (fs.dataSec+u32 (u32 (cluster+4294967294)*fs.secPerClus))

/-- The entry of a cluster, `width` bytes wide, or the value used on a failed read. -/
def fatEntry (fs : FatFs) (read : Disk) (width failed cluster : ℕ) : ℕ :=
  let fatOffset := u32 (cluster*width)
  match read (u32 (fs.partLba+fs.rsvdSecCnt+fatOffset/fs.bytesPerSec)) with
  | none => failed
  | some buf => load width buf (fatOffset%fs.bytesPerSec)

def fatGetNextCluster (fs : FatFs) (read : Disk) (cluster : ℕ) : ℕ :=
  if fs.fatType = 32 then fatEntry fs read 4 0x0FFFFFFF cluster &&& 0x0FFFFFFF
  else if fs.fatType = 16 then fatEntry fs read 2 0xFFFF cluster
  else 0x0FFFFFFF

def isEndOfClusterChain (fs : FatFs) (cluster : ℕ) : Bool :=
  if fs.fatType = 32 then 0x0FFFFFF8 ≤ cluster
  else if fs.fatType = 16 then 0xFFF8 ≤ cluster
  else 0xFF8 ≤ cluster

/-! ### The directory search -/

inductive Search where
  | found (firstCluster fileSize : ℕ)
  | failed
  deriving DecidableEq

/-- What one entry decides: the end of the directory, a skipped or different
entry (`none`), or the file. -/
def entryVerdict (target buf : Memory) (a : ℕ) : Option Search :=
  if buf a = 0x00 then some .failed
  else if buf a = 0xE5 ∨ buf (a+11) &&& 0x08 ≠ 0 then none
  else if ∀ i < 11, buf (a+i) = target i then
    some (.found (load 2 buf (a+20) <<< 16 ||| load 2 buf (a+26)) (load 4 buf (a+28)))
  else none

def scanSector (target buf : Memory) : ℕ → ℕ → Option Search
  | 0,_ => none
  | n+1,e =>
      match entryVerdict target buf (32*e) with
      | none => scanSector target buf n (e+1)
      | some r => some r

def scanSectors (read : Disk) (target : Memory) (lba : ℕ) : ℕ → ℕ → Option Search
  | 0,_ => none
  | n+1,s =>
      match read (u32 (lba+s)) with
      | none => some .failed
      | some buf =>
          match scanSector target buf (sectorSize/32) 0 with
          | none => scanSectors read target lba n (s+1)
          | some r => some r

/-- The FAT32 root directory: a loop over its cluster chain. -/
def scanChain (fs : FatFs) (read : Disk) (target : Memory) : ℕ → ℕ → Option Search
  | 0,_ => none
  | fuel+1,cluster =>
      if !isEndOfClusterChain fs cluster ∧ cluster ≥ 2 then
        match scanSectors read target (clusterToLba fs cluster) fs.secPerClus 0 with
        | none => scanChain fs read target fuel (fatGetNextCluster fs read cluster)
        | some r => some r
      else some .failed

def fatFindFile (fuel : ℕ) (fs : FatFs) (read : Disk) (filename : CString) : Option Search :=
  let target := format83Name filename fun _ => 0
  if fs.fatType = 32 then scanChain fs read target fuel fs.rootClus
  else
    let rootSectors := (fs.rootEntCnt*32+(fs.bytesPerSec-1))/fs.bytesPerSec
    some ((scanSectors read target fs.rootDirSec rootSectors 0).getD .failed)

/-! ### Reading a file -/

/-- Memory with the destination pointer and the bytes still wanted. -/
structure ReadLoop where
  mem : Memory
  dest : ℕ
  bytesRemaining : ℕ

/-- The sector loop of one cluster; a full sector is read straight into the
destination, the last part through the sector buffer. A failed read returns -1. -/
def readSectors (read : Disk) (lba : ℕ) : ℕ → ℕ → ReadLoop → Except ReadLoop ReadLoop
  | 0,_,l => .ok l
  | n+1,s,l =>
      if l.bytesRemaining > 0 then
        let copyLen := if l.bytesRemaining > sectorSize then sectorSize else l.bytesRemaining
        match read (u32 (lba+s)) with
        | none => .error l
        | some buf => readSectors read lba n (s+1)
            ⟨blit l.mem l.dest copyLen buf,l.dest+copyLen,l.bytesRemaining-copyLen⟩
      else .ok l

/-- The result is `none` out of fuel, `.ok` for a return of 0 and `.error` for -1. -/
def readChain (fs : FatFs) (read : Disk) : ℕ → ℕ → ReadLoop → Option (Except ReadLoop ReadLoop)
  | 0,_,_ => none
  | fuel+1,cluster,l =>
      if l.bytesRemaining > 0 ∧ !isEndOfClusterChain fs cluster ∧ cluster ≥ 2 then
        match readSectors read (clusterToLba fs cluster) fs.secPerClus 0 l with
        | .error l' => some (.error l')
        | .ok l' => readChain fs read fuel (fatGetNextCluster fs read cluster) l'
      else if l.bytesRemaining = 0 then some (.ok l) else some (.error l)

/-- The call with its memory, also when it fails. -/
def fatReadFileRun (fuel : ℕ) (fs : FatFs) (read : Disk) (firstCluster fileSize : ℕ)
    (mem : Memory) (dest : ℕ) : Option (Except ReadLoop ReadLoop) :=
  readChain fs read fuel firstCluster ⟨mem,dest,fileSize⟩

/-- The call as its caller uses it: `some none` is a return of -1. -/
def fatReadFile (fuel : ℕ) (fs : FatFs) (read : Disk) (firstCluster fileSize : ℕ) (mem : Memory)
    (dest : ℕ) : Option (Option ReadLoop) :=
  (fatReadFileRun fuel fs read firstCluster fileSize mem dest).map Except.toOption

/-! ### The partition table -/

/-- `find_active_partition_lba` of the BIOS loader. -/
def findActivePartitionLba (read : Disk) : ℕ :=
  match read 0 with
  | none => 2048
  | some mbr =>
      let startLba := fun i => load 4 mbr (446+16*i+8)
      match (List.range 4).find? fun i => mbr (446+16*i) = 0x80 ∧ startLba i ≠ 0 with
      | some i => startLba i
      | none => if startLba 0 ≠ 0 then startLba 0 else 2048

/-! ### The descriptor -/

theorem fatInit_ready {read : Disk} {partLba : ℕ} {fs : FatFs}
    (h : fatInit read partLba = .ready fs) : ∃ bpb, read partLba = some bpb ∧
      load 2 bpb 11 = sectorSize ∧ load 1 bpb 13 ≠ 0 ∧ fs = describe bpb partLba := by
  unfold fatInit at h
  cases hread : read partLba with
  | none =>
      rw [hread] at h
      cases h
  | some bpb =>
      rw [hread] at h
      dsimp only at h
      split_ifs at h with h₁ h₂
      cases h
      exact ⟨bpb,rfl,not_not.mp h₁,h₂,rfl⟩

theorem secPerClus_pos {read : Disk} {partLba : ℕ} {fs : FatFs}
    (h : fatInit read partLba = .ready fs) : 0 < fs.secPerClus := by
  obtain ⟨bpb,-,-,hspc,rfl⟩ := fatInit_ready h
  exact Nat.pos_of_ne_zero hspc

/-! ### Loops as list searches and block copies -/

theorem scanSector_eq (target buf : Memory) (n e : ℕ) : scanSector target buf n e =
    (List.range' e n).findSome? fun k => entryVerdict target buf (32*k) := by
  induction n generalizing e with
  | zero => rfl
  | succ n ih =>
      rw [scanSector,List.range'_succ,List.findSome?_cons]
      cases entryVerdict target buf (32*e) with
      | none => exact ih (e+1)
      | some r => rfl

/-- Readable sectors of a directory are searched as one run of slots; `m` holds
them from `a` on. -/
theorem scanSectors_eq {read : Disk} {target m : Memory} {lba a : ℕ} (n s : ℕ)
    (h : ∀ t, s ≤ t → t < s+n → read (u32 (lba+t)) = some fun i => m (a+512*t+i)) :
    scanSectors read target lba n s =
      (List.range' (16*s) (16*n)).findSome? fun k => entryVerdict target m (a+32*k) := by
  induction n generalizing s with
  | zero => rfl
  | succ n ih =>
      have hv : ∀ e, entryVerdict target (fun i => m (a+512*s+i)) (32*e) =
          entryVerdict target m (a+32*(16*s+e)) := by
        intro e
        have hm : ∀ k, m (a+512*s+(32*e+k)) = m (a+32*(16*s+e)+k) := by
          intro k
          congr 1
          omega
        have hl : ∀ w k, load w (fun i => m (a+512*s+i)) (32*e+k) =
            load w m (a+32*(16*s+e)+k) := by
          intro w k
          apply load_congr
          intro i _
          rw [Nat.add_assoc (32*e),hm]
          congr 1
          omega
        have h₀ := hm 0
        simp only [Nat.add_zero] at h₀
        simp only [entryVerdict,hm,hl,h₀]
      have hsplit : List.range' (16*s) (16*(n+1)) =
          (List.range' 0 16).map (16*s+·)++List.range' (16*(s+1)) (16*n) := by
        rw [List.map_add_range',Nat.add_zero (16*s),Nat.mul_succ 16 n,Nat.add_comm (16*n),
          ← List.range'_append_1,Nat.mul_succ]
      rw [scanSectors,h s le_rfl (by omega)]
      simp only [show sectorSize/32 = 16 from rfl]
      rw [scanSector_eq,hsplit,List.findSome?_append,List.findSome?_map]
      simp only [hv]
      rw [ih (s+1) fun t h₁ h₂ => h t (by omega) (by omega)]
      have hcomp : ((fun k => entryVerdict target m (a+32*k)) ∘ fun x => 16*s+x) =
          fun k => entryVerdict target m (a+32*(16*s+k)) := rfl
      rw [hcomp]
      cases (List.range' 0 16).findSome? fun k => entryVerdict target m (a+32*(16*s+k)) <;> rfl

/-- Readable sectors of a cluster fill the destination with as much of the
cluster as is still wanted. -/
theorem readSectors_eq {read : Disk} (src : Memory) {lba : ℕ} (n s : ℕ) (l : ReadLoop)
    (h : ∀ t, s ≤ t → t < s+n → read (u32 (lba+t)) = some fun i => src (512*t+i)) :
    readSectors read lba n s l =
      .ok ⟨blit l.mem l.dest (min l.bytesRemaining (512*n)) fun i => src (512*s+i),
        l.dest+min l.bytesRemaining (512*n),l.bytesRemaining-min l.bytesRemaining (512*n)⟩ := by
  induction n generalizing s l with
  | zero =>
      rw [readSectors,Nat.mul_zero,Nat.min_zero,blit_zero]
      rfl
  | succ n ih =>
      rw [readSectors]
      by_cases hpos : l.bytesRemaining > 0
      · have hk : (if l.bytesRemaining > sectorSize then sectorSize else l.bytesRemaining) =
            min l.bytesRemaining 512 := by
          rw [sectorSize]
          split_ifs <;> omega
        have hmin : min l.bytesRemaining 512+min (l.bytesRemaining-min l.bytesRemaining 512) (512*n) =
            min l.bytesRemaining (512*(n+1)) := by omega
        simp only [if_pos hpos,hk,h s le_rfl (by omega)]
        rw [ih (s+1) _ fun t h₁ h₂ => h t (by omega) (by omega)]
        dsimp only
        rw [blit_append,hmin,Nat.add_assoc,hmin,Nat.sub_sub,hmin]
        intro i hi
        congr 1
        omega
      · have hz : min l.bytesRemaining (512*(n+1)) = 0 := by omega
        rw [if_neg hpos,hz,blit_zero]
        rfl

end Gemiboot.FatReader
