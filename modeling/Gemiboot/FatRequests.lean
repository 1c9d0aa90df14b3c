import Gemiboot.FatGeometry
import Gemiboot.FatReadFile

/-!
# The sectors that are asked for

The loops of `fat_find_file` and `fat_read_file` once more, with the requests they make
instead of their results. A walk goes on at any cluster that is at least 2 and below
the end marks. Both loops check the lower bound of the clusters and not the upper one,
which `fat_init` has computed as `total_clusters + 1`.
-/
namespace Gemiboot.FatReader
open ByteMemory ShortNames

/-- The walk goes on at a cluster, and asks for sectors of data and of the table. -/
inductive Event where
  | visit (cluster : ℕ)
  | data (lba : ℕ)
  | table (lba : ℕ)
  deriving DecidableEq

/-! ### The requests of each loop -/

def tableEvents (fs : FatFs) (cluster : ℕ) : List Event :=
  if fs.fatType = 32 then
    [.table (u32 (fs.partLba+fs.rsvdSecCnt+u32 (cluster*4)/fs.bytesPerSec))]
  else if fs.fatType = 16 then
    [.table (u32 (fs.partLba+fs.rsvdSecCnt+u32 (cluster*2)/fs.bytesPerSec))]
  else []

def scanSectorsEvents (read : Disk) (target : Memory) (lba : ℕ) : ℕ → ℕ → List Event
  | 0,_ => []
  | n+1,s => .data (u32 (lba+s))::
      match read (u32 (lba+s)) with
      | none => []
      | some buf =>
          match scanSector target buf (sectorSize/32) 0 with
          | none => scanSectorsEvents read target lba n (s+1)
          | some _ => []

def scanChainEvents (fs : FatFs) (read : Disk) (target : Memory) : ℕ → ℕ → List Event
  | 0,_ => []
  | fuel+1,cluster =>
      if !isEndOfClusterChain fs cluster ∧ cluster ≥ 2 then
        .visit cluster::
          (scanSectorsEvents read target (clusterToLba fs cluster) fs.secPerClus 0++
            match scanSectors read target (clusterToLba fs cluster) fs.secPerClus 0 with
            | none => tableEvents fs cluster++
                scanChainEvents fs read target fuel (fatGetNextCluster fs read cluster)
            | some _ => [])
      else []

def fatFindFileEvents (fuel : ℕ) (fs : FatFs) (read : Disk) (filename : CString) : List Event :=
  let target := format83Name filename fun _ => 0
  if fs.fatType = 32 then scanChainEvents fs read target fuel fs.rootClus
  else scanSectorsEvents read target fs.rootDirSec
    ((fs.rootEntCnt*32+(fs.bytesPerSec-1))/fs.bytesPerSec) 0

def readSectorsEvents (read : Disk) (lba : ℕ) : ℕ → ℕ → ReadLoop → List Event
  | 0,_,_ => []
  | n+1,s,l =>
      if l.bytesRemaining > 0 then
        let copyLen := if l.bytesRemaining > sectorSize then sectorSize else l.bytesRemaining
        .data (u32 (lba+s))::
          match read (u32 (lba+s)) with
          | none => []
          | some buf => readSectorsEvents read lba n (s+1)
              ⟨blit l.mem l.dest copyLen buf,l.dest+copyLen,l.bytesRemaining-copyLen⟩
      else []

def readChainEvents (fs : FatFs) (read : Disk) : ℕ → ℕ → ReadLoop → List Event
  | 0,_,_ => []
  | fuel+1,cluster,l =>
      if l.bytesRemaining > 0 ∧ !isEndOfClusterChain fs cluster ∧ cluster ≥ 2 then
        .visit cluster::
          (readSectorsEvents read (clusterToLba fs cluster) fs.secPerClus 0 l++
            match readSectors read (clusterToLba fs cluster) fs.secPerClus 0 l with
            | .error _ => []
            | .ok l' => tableEvents fs cluster++
                readChainEvents fs read fuel (fatGetNextCluster fs read cluster) l')
      else []

/-- `fat_find_file`, and `fat_read_file` with what it has found. -/
def loadEvents (fuel : ℕ) (fs : FatFs) (read : Disk) (filename : CString) (mem : Memory)
    (dest : ℕ) : List Event :=
  fatFindFileEvents fuel fs read filename++
    match fatFindFile fuel fs read filename with
    | some (.found c s) => readChainEvents fs read fuel c ⟨mem,dest,s⟩
    | _ => []

/-! ### The results depend on nothing else -/

/-- The two disks agree on a requested sector. -/
def SameAt (read read' : Disk) : Event → Prop
  | .visit _ => True
  | .data lba => read lba = read' lba
  | .table lba => read lba = read' lba

section Same
variable {fs : FatFs} {read read' : Disk} {target : Memory}

theorem scanSectors_same {lba : ℕ} (n s : ℕ)
    (h : ∀ e ∈ scanSectorsEvents read target lba n s, SameAt read read' e) :
    scanSectors read target lba n s = scanSectors read' target lba n s := by
  induction n generalizing s with
  | zero => rfl
  | succ n ih =>
      rw [scanSectorsEvents,List.forall_mem_cons] at h
      have hread : read (u32 (lba+s)) = read' (u32 (lba+s)) := h.1
      rw [scanSectors,scanSectors,← hread]
      cases hbuf : read (u32 (lba+s)) with
      | none => rfl
      | some buf =>
          rw [hbuf] at h
          dsimp only at h ⊢
          cases hscan : scanSector target buf (sectorSize/32) 0 with
          | some r => rfl
          | none =>
              rw [hscan] at h
              exact ih (s+1) h.2

theorem next_same {c : ℕ} (h : ∀ e ∈ tableEvents fs c, SameAt read read' e) :
    fatGetNextCluster fs read c = fatGetNextCluster fs read' c := by
  unfold tableEvents at h
  unfold fatGetNextCluster fatEntry
  split_ifs at h ⊢ with h32 h16
  · have hread : read _ = read' _ := h _ List.mem_cons_self
    dsimp only
    rw [hread]
  · have hread : read _ = read' _ := h _ List.mem_cons_self
    dsimp only
    rw [hread]
  · rfl

theorem scanChain_same (fuel c : ℕ)
    (h : ∀ e ∈ scanChainEvents fs read target fuel c, SameAt read read' e) :
    scanChain fs read target fuel c = scanChain fs read' target fuel c := by
  induction fuel generalizing c with
  | zero => rfl
  | succ fuel ih =>
      rw [scanChainEvents] at h
      rw [scanChain,scanChain]
      split_ifs at h ⊢ with hlive
      · rw [List.forall_mem_cons,List.forall_mem_append] at h
        rw [← scanSectors_same _ _ h.2.1]
        cases hscan : scanSectors read target (clusterToLba fs c) fs.secPerClus 0 with
        | some r => rfl
        | none =>
            rw [hscan] at h
            dsimp only at h ⊢
            rw [List.forall_mem_append] at h
            rw [← next_same h.2.2.1]
            exact ih _ h.2.2.2
      · rfl

/-- The search reads no other sector. -/
theorem fatFindFile_same (fuel : ℕ) (filename : CString)
    (h : ∀ e ∈ fatFindFileEvents fuel fs read filename, SameAt read read' e) :
    fatFindFile fuel fs read filename = fatFindFile fuel fs read' filename := by
  unfold fatFindFileEvents at h
  unfold fatFindFile
  dsimp only at h ⊢
  split_ifs at h ⊢ with h32
  · exact scanChain_same _ _ h
  · rw [scanSectors_same _ _ h]

theorem readSectors_same {lba : ℕ} (n s : ℕ) (l : ReadLoop)
    (h : ∀ e ∈ readSectorsEvents read lba n s l, SameAt read read' e) :
    readSectors read lba n s l = readSectors read' lba n s l := by
  induction n generalizing s l with
  | zero => rfl
  | succ n ih =>
      rw [readSectorsEvents] at h
      rw [readSectors,readSectors]
      by_cases hpos : l.bytesRemaining > 0
      · rw [if_pos hpos] at h
        rw [if_pos hpos,if_pos hpos]
        dsimp only at h ⊢
        rw [List.forall_mem_cons] at h
        have hread : read (u32 (lba+s)) = read' (u32 (lba+s)) := h.1
        rw [← hread]
        cases hbuf : read (u32 (lba+s)) with
        | none => rfl
        | some buf =>
            rw [hbuf] at h
            exact ih (s+1) _ h.2
      · rw [if_neg hpos,if_neg hpos]

/-- Nor does the reader. -/
theorem readChain_same (fuel c : ℕ) (l : ReadLoop)
    (h : ∀ e ∈ readChainEvents fs read fuel c l, SameAt read read' e) :
    readChain fs read fuel c l = readChain fs read' fuel c l := by
  induction fuel generalizing c l with
  | zero => rfl
  | succ fuel ih =>
      rw [readChainEvents] at h
      rw [readChain,readChain]
      split_ifs at h ⊢ with hlive hdone
      · rw [List.forall_mem_cons,List.forall_mem_append] at h
        rw [← readSectors_same _ _ _ h.2.1]
        cases hsec : readSectors read (clusterToLba fs c) fs.secPerClus 0 l with
        | error l' => rfl
        | ok l' =>
            rw [hsec] at h
            dsimp only at h ⊢
            rw [List.forall_mem_append] at h
            rw [← next_same h.2.2.1]
            exact ih _ _ h.2.2.2
      · rfl
      · rfl

end Same

/-! ### Inside the partition -/

/-- What the boot sector should say: the regions fit, the volume ends within 32-bit
sector numbers, and the table has an entry for every cluster. -/
structure Consistent (fs : FatFs) : Prop where
  fits : fs.overhead ≤ fs.totalSectors
  addressable : fs.partLba+fs.totalSectors ≤ 4294967296
  tables : 1 ≤ fs.numFats
  entries : (fs.totalClusters+2)*fs.fatType ≤ 8*(512*fs.fatSize)

/-- A sector of the partition, and a lookup is in the first table. -/
def Allowed (fs : FatFs) : Event → Prop
  | .visit _ => True
  | .data lba => fs.partLba ≤ lba ∧ lba < fs.partLba+fs.totalSectors
  | .table lba => (fs.partLba ≤ lba ∧ lba < fs.partLba+fs.totalSectors) ∧
      fs.partLba+fs.rsvdSecCnt ≤ lba ∧ lba < fs.partLba+fs.rsvdSecCnt+fs.fatSize

/-- The clusters at which a walk goes on are clusters of the volume. -/
def VisitsClusters (fs : FatFs) (events : List Event) : Prop :=
  ∀ c, .visit c ∈ events → c ≤ fs.totalClusters+1

instance (fs : FatFs) : DecidablePred (Allowed fs) := fun e =>
  match e with
  | .visit _ => isTrue trivial
  | .data _ => inferInstanceAs (Decidable (_ ∧ _))
  | .table _ => inferInstanceAs (Decidable ((_ ∧ _) ∧ _ ∧ _))

section Inside
variable {boot read : Disk} {partLba : ℕ} {fs : FatFs} {target : Memory}

theorem Consistent.usable (hgeo : Consistent fs) (h : fatInit boot partLba = .ready fs) :
    UsableGeometry fs := by
  obtain ⟨bpb,hread,hb,hspc,rfl⟩ := fatInit_ready h
  have hfits := hgeo.fits
  rw [describe_overhead hb] at hfits
  have haddr : partLba+Bpb.totalSectors bpb ≤ 4294967296 := hgeo.addressable
  change Bpb.overhead bpb ≤ Bpb.totalSectors bpb at hfits
  refine describe_usable hb ⟨hspc,hfits,?_⟩
  by_cases hzero : Bpb.clusters bpb = 0
  · exact .inl hzero
  · have hlast := (clusterToLba_describe (p := partLba) hb hfits
      (Nat.sub_lt (Nat.pos_of_ne_zero hzero) Nat.one_pos)).2
    have hpos : 0 < Bpb.secPerClus bpb := Nat.pos_of_ne_zero hspc
    right
    generalize (Bpb.clusters bpb-1)*Bpb.secPerClus bpb = x at *
    omega

/-- The sectors of the fixed root area. -/
theorem Consistent.rootArea (hgeo : Consistent fs) (h : fatInit boot partLba = .ready fs) {s : ℕ}
    (hs : s < (fs.rootEntCnt*32+(fs.bytesPerSec-1))/fs.bytesPerSec) :
    Allowed fs (.data (u32 (fs.rootDirSec+s))) := by
  obtain ⟨bpb,hread,hb,hspc,rfl⟩ := fatInit_ready h
  have hfits := hgeo.fits
  have haddr := hgeo.addressable
  have hdir : (describe bpb partLba).rootDirSec = u32 ((describe bpb partLba).partLba+
      (describe bpb partLba).rsvdSecCnt+u32 ((describe bpb partLba).numFats*
        (describe bpb partLba).fatSize)) := rfl
  unfold FatFs.overhead at hfits
  unfold Allowed
  rw [hdir]
  generalize (describe bpb partLba).numFats*(describe bpb partLba).fatSize = fats at *
  generalize ((describe bpb partLba).rootEntCnt*32+((describe bpb partLba).bytesPerSec-1))/
    (describe bpb partLba).bytesPerSec = area at *
  generalize describe bpb partLba = fs at *
  simp only [u32]
  omega

/-- The sectors of a cluster. -/
theorem Consistent.cluster (hgeo : Consistent fs) (h : fatInit boot partLba = .ready fs) {c s : ℕ}
    (hc : IsCluster fs c) (hs : s < fs.secPerClus) :
    Allowed fs (.data (u32 (clusterToLba fs c+s))) := by
  have hin := (hgeo.usable h).inside c hc
  have haddr := hgeo.addressable
  unfold Allowed
  rw [u32_of_lt (by omega)]
  omega

/-- The table entry of a cluster. -/
theorem Consistent.lookup (hgeo : Consistent fs) (h : fatInit boot partLba = .ready fs) {c : ℕ}
    (hlive : Live fs c) (hc : IsCluster fs c) : ∀ e ∈ tableEvents fs c, Allowed fs e := by
  have hbps : fs.bytesPerSec = 512 := by
    obtain ⟨bpb,-,hb,-,rfl⟩ := fatInit_ready h
    exact hb
  have hregion : fs.partLba+fs.rsvdSecCnt+fs.fatSize ≤ fs.partLba+fs.totalSectors := by
    have hfits := hgeo.fits
    have hone : fs.fatSize ≤ fs.numFats*fs.fatSize := Nat.le_mul_of_pos_left _ hgeo.tables
    unfold FatFs.overhead at hfits
    generalize fs.numFats*fs.fatSize = fats at *
    generalize (fs.rootEntCnt*32+(fs.bytesPerSec-1))/fs.bytesPerSec = area at *
    omega
  have haddr := hgeo.addressable
  have hentries := hgeo.entries
  have hlast := hc.2
  have hend := hlive.2
  unfold entryBits at hend
  unfold tableEvents
  rw [hbps]
  split_ifs at hend ⊢ with h32 h16
  · intro e he
    obtain rfl := List.mem_singleton.mp he
    rw [h32] at hentries
    unfold Allowed
    simp only [u32]
    omega
  · intro e he
    obtain rfl := List.mem_singleton.mp he
    rw [h16] at hentries
    unfold Allowed
    simp only [u32]
    omega
  · exact fun e he => absurd he List.not_mem_nil

/-! ### The walks -/

theorem scanSectorsEvents_allowed {lba : ℕ} (n s : ℕ)
    (h : ∀ t, s ≤ t → t < s+n → Allowed fs (.data (u32 (lba+t)))) :
    ∀ e ∈ scanSectorsEvents read target lba n s, Allowed fs e := by
  induction n generalizing s with
  | zero => exact fun e he => absurd he List.not_mem_nil
  | succ n ih =>
      rw [scanSectorsEvents,List.forall_mem_cons]
      refine ⟨h s le_rfl (by omega),?_⟩
      cases read (u32 (lba+s)) with
      | none => exact fun e he => absurd he List.not_mem_nil
      | some buf =>
          dsimp only
          cases scanSector target buf (sectorSize/32) 0 with
          | none => exact ih (s+1) fun t h₁ h₂ => h t (by omega) (by omega)
          | some r => exact fun e he => absurd he List.not_mem_nil

theorem readSectorsEvents_allowed {lba : ℕ} (n s : ℕ) (l : ReadLoop)
    (h : ∀ t, s ≤ t → t < s+n → Allowed fs (.data (u32 (lba+t)))) :
    ∀ e ∈ readSectorsEvents read lba n s l, Allowed fs e := by
  induction n generalizing s l with
  | zero => exact fun e he => absurd he List.not_mem_nil
  | succ n ih =>
      rw [readSectorsEvents]
      by_cases hpos : l.bytesRemaining > 0
      · rw [if_pos hpos]
        dsimp only
        rw [List.forall_mem_cons]
        refine ⟨h s le_rfl (by omega),?_⟩
        cases read (u32 (lba+s)) with
        | none => exact fun e he => absurd he List.not_mem_nil
        | some buf => exact ih (s+1) _ fun t h₁ h₂ => h t (by omega) (by omega)
      · rw [if_neg hpos]
        exact fun e he => absurd he List.not_mem_nil

theorem VisitsClusters.append {l l' : List Event} (h : VisitsClusters fs (l++l')) :
    VisitsClusters fs l ∧ VisitsClusters fs l' :=
  ⟨fun c hc => h c (List.mem_append_left _ hc),fun c hc => h c (List.mem_append_right _ hc)⟩

theorem VisitsClusters.tail {e : Event} {l : List Event} (h : VisitsClusters fs (e::l)) :
    VisitsClusters fs l := fun c hc => h c (List.mem_cons_of_mem e hc)

theorem scanChainEvents_allowed (hgeo : Consistent fs) (h : fatInit boot partLba = .ready fs)
    (fuel c : ℕ) (hvisits : VisitsClusters fs (scanChainEvents fs read target fuel c)) :
    ∀ e ∈ scanChainEvents fs read target fuel c, Allowed fs e := by
  induction fuel generalizing c with
  | zero => exact fun e he => absurd he List.not_mem_nil
  | succ fuel ih =>
      rw [scanChainEvents] at hvisits ⊢
      split_ifs at hvisits ⊢ with hgo
      · have hlive : Live fs c := live_iff.mpr hgo
        have hc : IsCluster fs c := ⟨hlive.1,hvisits c List.mem_cons_self⟩
        have hrest := hvisits.tail.append.2
        rw [List.forall_mem_cons,List.forall_mem_append]
        refine ⟨trivial,?_,?_⟩
        · exact scanSectorsEvents_allowed _ _ fun t _ ht => hgeo.cluster h hc (by omega)
        · cases hscan : scanSectors read target (clusterToLba fs c) fs.secPerClus 0 with
          | some r => exact fun e he => absurd he List.not_mem_nil
          | none =>
              rw [hscan] at hrest
              dsimp only at hrest ⊢
              rw [List.forall_mem_append]
              exact ⟨hgeo.lookup h hlive hc,ih _ hrest.append.2⟩
      · exact fun e he => absurd he List.not_mem_nil

theorem readChainEvents_allowed (hgeo : Consistent fs) (h : fatInit boot partLba = .ready fs)
    (fuel c : ℕ) (l : ReadLoop) (hvisits : VisitsClusters fs (readChainEvents fs read fuel c l)) :
    ∀ e ∈ readChainEvents fs read fuel c l, Allowed fs e := by
  induction fuel generalizing c l with
  | zero => exact fun e he => absurd he List.not_mem_nil
  | succ fuel ih =>
      rw [readChainEvents] at hvisits ⊢
      split_ifs at hvisits ⊢ with hgo
      · have hlive : Live fs c := live_iff.mpr hgo.2
        have hc : IsCluster fs c := ⟨hlive.1,hvisits c List.mem_cons_self⟩
        have hrest := hvisits.tail.append.2
        rw [List.forall_mem_cons,List.forall_mem_append]
        refine ⟨trivial,?_,?_⟩
        · exact readSectorsEvents_allowed _ _ _ fun t _ ht => hgeo.cluster h hc (by omega)
        · cases hsec : readSectors read (clusterToLba fs c) fs.secPerClus 0 l with
          | error l' => exact fun e he => absurd he List.not_mem_nil
          | ok l' =>
              rw [hsec] at hrest
              dsimp only at hrest ⊢
              rw [List.forall_mem_append]
              exact ⟨hgeo.lookup h hlive hc,ih _ _ hrest.append.2⟩
      · exact fun e he => absurd he List.not_mem_nil

end Inside

/-- A run that goes on at clusters of the volume only stays inside the partition, and
its lookups inside the first table. -/
theorem loadEvents_allowed {boot : Disk} {partLba : ℕ} {fs : FatFs}
    (h : fatInit boot partLba = .ready fs) (hgeo : Consistent fs) (read : Disk)
    (filename : CString) (mem : Memory) (dest fuel : ℕ)
    (hvisits : VisitsClusters fs (loadEvents fuel fs read filename mem dest)) :
    ∀ e ∈ loadEvents fuel fs read filename mem dest, Allowed fs e := by
  unfold loadEvents at hvisits ⊢
  have hparts := hvisits.append
  rw [List.forall_mem_append]
  constructor
  · have hfind := hparts.1
    unfold fatFindFileEvents at hfind ⊢
    dsimp only at hfind ⊢
    split_ifs at hfind ⊢ with h32
    · exact scanChainEvents_allowed hgeo h fuel fs.rootClus hfind
    · exact scanSectorsEvents_allowed _ _ fun t _ ht => hgeo.rootArea h (by omega)
  · have hread := hparts.2
    cases hfound : fatFindFile fuel fs read filename with
    | none => exact fun e he => absurd he List.not_mem_nil
    | some r =>
        rw [hfound] at hread
        cases r with
        | failed => exact fun e he => absurd he List.not_mem_nil
        | found c s => exact readChainEvents_allowed hgeo h fuel c _ hread

/-- A FAT16 volume with 16 root entries. The file A has 1024 bytes and starts in cluster
2, whose table entry is given; cluster 3 is the end of a chain. -/
def chainVolume (low high : UInt8) : Disk := fun lba => some fun i =>
  if lba = 0 then
    if i = 12 then 2 else if i = 13 then 1 else if i = 14 then 1 else if i = 16 then 1
    else if i = 17 then 16 else if i = 20 then 0x20 else if i = 22 then 32 else 0
  else if lba = 1 then
    if i = 4 then low else if i = 5 then high else if i = 6 ∨ i = 7 then 0xFF else 0
  else if lba = 33 then
    if i = 0 then 0x41 else if i < 11 then 0x20 else if i = 26 then 2 else if i = 29 then 4 else 0
  else 0

def chainFs : FatFs := ⟨0,512,1,1,1,32,33,16,34,8192,8158,0,16⟩

theorem chainFs_consistent : Consistent chainFs := by
  constructor <;> decide +kernel

/-- The requests when cluster 2 is followed by cluster 3. -/
theorem loadEvents_allowed_chain : List.Forall (Allowed chainFs)
    [.data 33,.visit 2,.data 34,.table 1,.visit 3,.data 35,.table 1] := by
  have hinit : fatInit (chainVolume 3 0) 0 = .ready chainFs := by decide +kernel
  have hevents : loadEvents 5 chainFs (chainVolume 3 0) ⟨[0x61],by simp⟩ (fun _ => 0) 0x200000 =
      [.data 33,.visit 2,.data 34,.table 1,.visit 3,.data 35,.table 1] := by decide +kernel
  rw [← hevents,List.forall_iff_forall_mem]
  apply loadEvents_allowed hinit chainFs_consistent
  rw [hevents]
  intro c hc
  have hcases : c = 2 ∨ c = 3 := by simpa using hc
  change c ≤ 8159
  omega

/-- A bad-cluster mark is followed as if it were a cluster. -/
theorem chainVolume_badMark : fatInit (chainVolume 0xF7 0xFF) 0 = .ready chainFs ∧
    Consistent chainFs ∧
    .data 65559 ∈ loadEvents 5 chainFs (chainVolume 0xF7 0xFF) ⟨[0x61],by simp⟩ (fun _ => 0)
      0x200000 ∧
    ¬Allowed chainFs (.data 65559) := by
  refine ⟨?_,chainFs_consistent,?_,?_⟩
  · decide +kernel
  · decide +kernel
  · decide

end Gemiboot.FatReader
