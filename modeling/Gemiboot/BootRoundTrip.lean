import Gemiboot.FatReader
import Gemiboot.MkdiskLoss
import Gemiboot.MkdiskMain

/-!
# What the builder writes, the boot loader reads

The reader gets the sectors of an image built by admissible calls. Its partition
lookup and its geometry agree with the builder's, its directory search runs over
the slots the builder filled, and its cluster walk follows the chain the builder
laid, so every file of the root directory comes back byte for byte.
-/
namespace Gemiboot.BootRoundTrip
open ByteMemory ShortNames LinkedChains Mkdisk FatReader

/-- A disk read function over the finished image. -/
def imageRead (m : Memory) : Disk := fun lba =>
  if lba < totalSectors then some fun i => m (getSector lba+i) else none

/-- The builder's geometry as the reader's descriptor. -/
def volumeFs : FatFs where
  partLba := partitionStartLba
  bytesPerSec := 512
  secPerClus := secPerClus
  rsvdSecCnt := rsvdSecCnt
  numFats := numFats
  fatSize := 1020
  rootDirSec := 4120
  rootEntCnt := 0
  dataSec := 4120
  totalSectors := 522240
  totalClusters := 130042
  rootClus := rootClus
  fatType := 32

theorem imageRead_sector (m : Memory) {lba : ℕ} (h : lba < 524288) :
    imageRead m lba = some fun i => m (512*lba+i) := by
  rw [imageRead,if_pos (by rwa [totalSectors_eq]),getSector_eq (by omega)]
  simp only [Nat.mul_comm]

/-! ### The reserved sectors -/

variable {mbr vbr ioSys : HostFile} {v : Volume} {g : Globals}

/-- The IO.SYS copy starts behind the FSInfo sector. -/
theorem reserved_low (h : Represents (formatted mbr vbr ioSys) v g) {x : ℕ} (hx : x < 1049600) :
    g.disk x = bootSectors mbr vbr x := by
  have hs : getSector (partitionStartLba+2) = 1049600 := rfl
  rw [h.allocated.reserved x (by omega),formatted_frame (by unfold InFat; omega),layOut_disk,hs]
  split_ifs
  · exact blit_outside (by omega)
  · rfl

theorem findActivePartitionLba_image (h : Represents (formatted mbr vbr ioSys) v g) :
    findActivePartitionLba (imageRead g.disk) = 2048 := by
  have hm : ∀ x < 512, g.disk (512*0+x) = writeMbr mbr (fun _ => 0) x := by
    intro x hx
    rw [Nat.mul_zero,Nat.zero_add,reserved_low h (by omega),
      bootSectors_outside (by omega) (by omega)]
  have hstatus : g.disk (512*0+446) = 0x80 := (hm 446 (by decide)).trans rfl
  have hstart : load 4 (fun i => g.disk (512*0+i)) 454 = 2048 := by
    have : load 4 (fun i => g.disk (512*0+i)) 454 = load 4 (writeMbr mbr fun _ => 0) 454 :=
      load_congr fun i hi => hm (454+i) (by omega)
    rw [this]
    rfl
  have hfind : ((List.range 4).find? fun i => g.disk (512*0+(446+16*i)) = 0x80 ∧
      load 4 (fun j => g.disk (512*0+j)) (446+16*i+8) ≠ 0) = some 0 := by
    rw [List.range_succ_eq_map,List.find?_cons_of_pos]
    exact decide_eq_true ⟨hstatus,by rw [hstart]; decide⟩
  rw [findActivePartitionLba,imageRead_sector _ (by decide)]
  simp only [hfind]
  exact hstart

/-- The geometry fields of the BPB do not come from the vbr file. -/
theorem bootSectorByte_geometry (vbr : HostFile) {i : ℕ}
    (h : 3 ≤ i ∧ i < 40 ∨ 44 ≤ i ∧ i < 52) : bootSectorByte vbr i = bootSectorByte emptyFile i := by
  unfold bootSectorByte
  by_cases h₁ : 3 ≤ i ∧ i < 40
  · rw [if_pos h₁,if_pos h₁]
  · rw [if_neg h₁,if_neg h₁,if_pos (h.resolve_left h₁),if_pos (h.resolve_left h₁)]

theorem fatInit_image (h : Represents (formatted mbr vbr ioSys) v g) :
    fatInit (imageRead g.disk) 2048 = .ready volumeFs := by
  have hm : ∀ w k, 3 ≤ k ∧ k+w ≤ 40 ∨ 44 ≤ k ∧ k+w ≤ 52 →
      load w (fun i => g.disk (512*2048+i)) k = load w (bootSectorByte emptyFile) k := by
    intro w k hk
    apply load_congr
    intro i hi
    rw [reserved_low h (by omega)]
    exact (bootSectors_at mbr vbr (by omega)).1.trans
      (bootSectorByte_geometry vbr (by omega))
  have hdesc : describe (fun i => g.disk (512*2048+i)) 2048 =
      describe (bootSectorByte emptyFile) 2048 := by
    unfold describe
    simp (disch := omega) only [hm]
  have hinit : fatInit (fun _ => some (bootSectorByte emptyFile)) 2048 = .ready volumeFs := by
    decide
  rw [← hinit,fatInit,fatInit,imageRead_sector _ (by decide)]
  simp (disch := omega) only [hm,hdesc]

/-! ### Cluster arithmetic -/

theorem clusterToLba_image {c : ℕ} (h₂ : 2 ≤ c) (hc : c < clusterLimit) :
    FatReader.clusterToLba volumeFs c = 4120+4*(c-2) := by
  simp only [FatReader.clusterToLba,volumeFs,secPerClus,u32,clusterLimit] at *
  omega

/-- The four sectors of a cluster, as the reader addresses them. -/
theorem read_cluster (m : Memory) {c t : ℕ} (h₂ : 2 ≤ c) (hc : c < clusterLimit) (ht : t < 4) :
    imageRead m (u32 (FatReader.clusterToLba volumeFs c+t)) =
      some fun i => m (clusterOffset c+512*t+i) := by
  have hlim : c < 130044 := hc
  rw [clusterToLba_image h₂ hc,u32_of_lt (by omega),imageRead_sector m (by omega)]
  have ho : 512*(4120+4*(c-2)+t) = clusterOffset c+512*t := by
    unfold clusterOffset
    omega
  rw [ho]

theorem fatEntry_image (m : Memory) {c : ℕ} (hc : c < fatEntries) :
    fatEntry volumeFs (imageRead m) 4 0x0FFFFFFF c = entry false m c := by
  have hlim : c < 130560 := hc
  have hu : u32 (c*4) = c*4 := u32_of_lt (by omega)
  have hlba : u32 (2048+32+c*4/512) = 2080+c*4/512 := u32_of_lt (by omega)
  simp only [fatEntry,volumeFs,partitionStartLba,rsvdSecCnt,hu,hlba]
  rw [imageRead_sector m (by omega)]
  dsimp only
  apply load_congr
  intro i hi
  congr 1
  simp only [fatBase,Bool.false_eq_true,if_false]
  omega

theorem next_image (m : Memory) {c : ℕ} (hc : c < fatEntries)
    (he : entry false m c < 268435456) :
    fatGetNextCluster volumeFs (imageRead m) c = entry false m c := by
  have ht : volumeFs.fatType = 32 := rfl
  rw [fatGetNextCluster,if_pos ht,fatEntry_image m hc,mask_eq,Nat.mod_eq_of_lt he]

theorem isEnd_image (c : ℕ) : isEndOfClusterChain volumeFs c = decide (0x0FFFFFF8 ≤ c) := rfl

/-! ### The directory search -/

/-- The slot of a listing whose name is not the one wanted is passed over. -/
theorem verdict_other {m target : Memory} {a : ℕ} {e : Listing} (hl : Live e.name)
    (h : HoldsEntry m a e.name e.attr e.clus e.size)
    (hne : ∃ i < 11, entryName e.name i ≠ target i) : entryVerdict target m a = none := by
  have hz : m a = entryName e.name 0 := h.name 0 (by omega)
  have hb := entryName_live e.name hl
  obtain ⟨i,hi,hne⟩ := hne
  rw [entryVerdict,if_neg (by rw [hz]; exact hb.1)]
  split_ifs with hd hm
  · rfl
  · rw [← h.name i hi] at hne
    exact absurd (hm i hi) hne
  · rfl

theorem verdict_found {m target : Memory} {a : ℕ} {e : Listing} (hl : Live e.name)
    (h : HoldsEntry m a e.name e.attr e.clus e.size) (hattr : e.attr%256 &&& 8 = 0)
    (hc : e.clus < 4294967296) (hs : e.size < 4294967296)
    (hn : ∀ i < 11, entryName e.name i = target i) :
    entryVerdict target m a = some (.found e.clus e.size) := by
  have hz : m a = entryName e.name 0 := h.name 0 (by omega)
  have hb := entryName_live e.name hl
  have hv : m (a+11) &&& 0x08 = 0 := by
    have ha := h.attr
    rw [load,load,Nat.mul_zero,Nat.add_zero] at ha
    rw [← UInt8.toNat_inj,UInt8.toNat_and,ha]
    exact hattr
  have hcl : load 2 m (a+20) <<< 16 ||| load 2 m (a+26) = e.clus := by
    have hhi : (e.clus >>> 16)%65536 = e.clus/65536 := by
      rw [Nat.shiftRight_eq_div_pow]
      omega
    rw [h.hi,h.lo,hhi,← Nat.shiftLeft_add_eq_or_of_lt (by omega),Nat.shiftLeft_eq]
    omega
  rw [entryVerdict,if_neg (by rw [hz]; exact hb.1),if_neg,if_pos,hcl,h.size,Nat.mod_eq_of_lt hs]
  · intro i hi
    rw [h.name i hi,hn i hi]
  · rintro (hd | hd)
    · rw [hz] at hd
      exact hb.2 hd
    · exact hd hv

/-- The search over the root slots answers with the one listing of that name. -/
theorem scanRoot {m : Memory} (target : Memory) {es : List Listing} (h : DirHolds m rootClus es)
    (hlen : es.length ≤ 64) (hlive : ∀ e ∈ es, Live e.name)
    (hdis : es.Pairwise fun e f => ∃ i < 11, entryName e.name i ≠ entryName f.name i)
    {e : Listing} (he : e ∈ es) (hattr : e.attr%256 &&& 8 = 0) (hc : e.clus < 4294967296)
    (hs : e.size < 4294967296) (hn : ∀ i < 11, entryName e.name i = target i) :
    scanSectors (imageRead m) target (FatReader.clusterToLba volumeFs rootClus) 4 0 =
      some (.found e.clus e.size) := by
  obtain ⟨n,hn',rfl⟩ := List.getElem_of_mem he
  rw [scanSectors_eq (m := m) (a := clusterOffset rootClus) 4 0 fun t _ ht =>
    read_cluster m le_rfl (by decide) (by omega)]
  have hsplit : List.range' (16*0) (16*4) = List.range' 0 n++n::List.range' (n+1) (63-n) := by
    rw [← List.range'_succ,show 63-n+1 = 64-n by omega]
    have := List.range'_append_1 (s := 0) (m := n) (n := 64-n)
    rw [Nat.zero_add] at this
    rw [this,show n+(64-n) = 64 by omega]
  refine List.findSome?_eq_some_iff.mpr ⟨_,n,_,hsplit,?_,?_⟩
  · exact verdict_found (hlive _ he) (h.held hlive n hn') hattr hc hs hn
  · intro k hk
    have hkn : k < n := by
      have := List.mem_range'_1.mp hk
      omega
    have hk' : k < es.length := by omega
    refine verdict_other (hlive _ (List.getElem_mem hk')) (h.held hlive k hk') ?_
    obtain ⟨i,hi,hne⟩ := List.pairwise_iff_getElem.mp hdis k n hk' hn' hkn
    exact ⟨i,hi,by rwa [← hn i hi]⟩

/-! ### The cluster walk -/

theorem chainByte_cons (m : Memory) (c : ℕ) (l : List ℕ) (j : ℕ) :
    chainByte m (c::l) (2048+j) = chainByte m l j := by
  rw [chainByte,chainByte,show (2048+j)/2048 = j/2048+1 by omega,
    show (2048+j)%2048 = j%2048 by omega,List.getD_cons_succ]

theorem chainByte_head (m : Memory) (c : ℕ) (l : List ℕ) {j : ℕ} (h : j < 2048) :
    chainByte m (c::l) j = m (clusterOffset c+j) := by
  rw [chainByte,Nat.div_eq_of_lt h,Nat.mod_eq_of_lt h,List.getD_cons_zero]

/-- One cluster of the loop in `fat_read_file`. -/
theorem readCluster (m : Memory) {c : ℕ} (h₂ : 2 ≤ c) (hc : c < clusterLimit) (l : ReadLoop) :
    readSectors (imageRead m) (FatReader.clusterToLba volumeFs c) volumeFs.secPerClus 0 l =
      .ok ⟨blit l.mem l.dest (min l.bytesRemaining 2048) fun i => m (clusterOffset c+i),
        l.dest+min l.bytesRemaining 2048,l.bytesRemaining-min l.bytesRemaining 2048⟩ := by
  have h4 : volumeFs.secPerClus = 4 := rfl
  rw [h4,readSectors_eq (fun i => m (clusterOffset c+i)) 4 0 l]
  · simp only [Nat.mul_zero,Nat.zero_add,show 512*4 = 2048 from rfl]
  · intro t _ ht
    simpa only [Nat.add_assoc] using read_cluster m h₂ hc (t := t) (by omega)

/-- Once nothing is wanted the loop ends, whatever the cluster. -/
theorem readChain_done (m : Memory) {fuel : ℕ} (hf : 0 < fuel) (c : ℕ) (mem : Memory)
    (dest : ℕ) : readChain volumeFs (imageRead m) fuel c ⟨mem,dest,0⟩ =
      some (.ok ⟨mem,dest,0⟩) := by
  cases fuel with
  | zero => exact absurd hf (lt_irrefl 0)
  | succ fuel => simp [readChain]

/-- One pass of the loop, over the first cluster of a chain. -/
theorem readChain_cluster (m : Memory) {c n : ℕ} (h₂ : 2 ≤ c) (hc : c < clusterLimit)
    (hpos : n ≠ 0) (l : List ℕ) (fuel : ℕ) (mem : Memory) (dest : ℕ) :
    readChain volumeFs (imageRead m) (fuel+1) c ⟨mem,dest,n⟩ =
      readChain volumeFs (imageRead m) fuel (fatGetNextCluster volumeFs (imageRead m) c)
        ⟨blit mem dest (min n 2048) (chainByte m (c::l)),dest+min n 2048,n-min n 2048⟩ := by
  have hlim : c < 130044 := hc
  rw [readChain,if_pos ⟨by dsimp only; omega,by rw [isEnd_image]; simp; omega,h₂⟩,
    readCluster m h₂ hc]
  dsimp only
  rw [blit_congr fun i hi => (chainByte_head m c l (by omega)).symm]

/-- Following a chain that lies on the disk delivers its bytes. -/
theorem readChain_image {m : Memory} {c : ℕ} {l : List ℕ} (h : FatChain m c l)
    (hl : ∀ d ∈ l, 2 ≤ d ∧ d < clusterLimit) {n fuel : ℕ} (hn : n ≤ 2048*l.length)
    (hf : l.length < fuel) (mem : Memory) (dest : ℕ) :
    readChain volumeFs (imageRead m) fuel c ⟨mem,dest,n⟩ =
      some (.ok ⟨blit mem dest n (chainByte m l),dest+n,0⟩) := by
  induction h generalizing n fuel mem dest with
  | @last c hs =>
      obtain ⟨h₂,hc⟩ := hl c (by simp)
      cases fuel with
      | zero => exact absurd hf (Nat.not_lt_zero _)
      | succ fuel =>
          by_cases hpos : n = 0
          · subst hpos
            rw [readChain_done m (Nat.succ_pos _),blit_zero]
            rfl
          · rw [List.length_singleton] at hn hf
            rw [readChain_cluster m h₂ hc hpos [],show min n 2048 = n by omega,Nat.sub_self]
            exact readChain_done m (by omega) _ _ _
  | @link c l hns ht ih =>
      obtain ⟨h₂,hc⟩ := hl c (by simp)
      have hlim : c < 130044 := hc
      have hnext := hl (entry false m c) (List.mem_cons_of_mem _ (Chain.head_mem ht))
      have hnlim : entry false m c < 130044 := hnext.2
      cases fuel with
      | zero => exact absurd hf (Nat.not_lt_zero _)
      | succ fuel =>
          by_cases hpos : n = 0
          · subst hpos
            rw [readChain_done m (Nat.succ_pos _),blit_zero]
            rfl
          · rw [List.length_cons] at hn hf
            rw [readChain_cluster m h₂ hc hpos l,
              next_image m (by unfold fatEntries; omega) (by omega),
              ih (fun d hd => hl d (List.mem_cons_of_mem _ hd)) (by omega) (by omega),blit_append]
            · rw [Nat.add_assoc,show min n 2048+(n-min n 2048) = n by omega]
            · intro i hi
              rw [show min n 2048 = 2048 by omega,chainByte_cons]

/-! ### Files of the root directory -/

/-- A name both scanners spell alike. -/
def Plain (name : CString) : Prop :=
  name.chars.length ≤ 64 ∧ name.chars ≠ [dot] ∧ name.chars ≠ [dot,dot]

instance (name : CString) : Decidable (Plain name) := inferInstanceAs (Decidable (_ ∧ _ ∧ _))

def SameShortName (a b : CString) : Prop := ∀ i < 11, entryName a i = entryName b i

instance (a b : CString) : Decidable (SameShortName a b) :=
  inferInstanceAs (Decidable (∀ i < 11, _))

def sameLetters (a b : CString) : Prop := a.chars.map toUpper = b.chars.map toUpper

instance (a b : CString) : Decidable (sameLetters a b) := inferInstanceAs (Decidable (_ = _))

theorem Plain.query {name query : CString} (h : Plain name) (hq : sameLetters query name) :
    ∀ i < 11, entryName name i = format83Name query (fun _ => 0) i := by
  obtain ⟨hl,h₁,h₂⟩ := h
  have hlen := congrArg List.length hq
  rw [List.length_map,List.length_map] at hlen
  intro i hi
  rw [format83Name_eq query _ (by omega) ?_ ?_ i hi,entryName_caseless hq]
  · rwa [Ne,← (map_toUpper_dots query.chars).1,hq,(map_toUpper_dots name.chars).1]
  · rwa [Ne,← (map_toUpper_dots query.chars).2,hq,(map_toUpper_dots name.chars).2]

/-- The names in the root directory are told apart and none looks deleted. -/
structure RootListed (v : Volume) : Prop where
  live : ∀ e ∈ listings v.objects rootClus, Live e.name
  distinct : (listings v.objects rootClus).Pairwise fun e f => ¬SameShortName e.name f.name

/-- Finding and reading back one file, with any fuel beyond its clusters. -/
theorem file_roundTrip (h : Represents (formatted mbr vbr ioSys) v g) (hv : RootListed v)
    {o : Object} (ho : o ∈ v.objects) (hp : o.parentClus = rootClus) (hplain : Plain o.name)
    {data : Option Memory} {size : ℕ} (hk : o.kind = .file data size) (query : CString)
    (hq : sameLetters query o.name) {fuel : ℕ} (hfuel : o.kind.clusters < fuel) :
    fatFindFile fuel volumeFs (imageRead g.disk) query = some (.found o.first size) ∧
      ∀ mem dest, fatReadFile fuel volumeFs (imageRead g.disk) o.first size mem dest =
        some (some ⟨blit mem dest size (fileBytes data size),dest+size,0⟩) := by
  have hb := v.tiled.bounds ho
  have hlim : v.next ≤ 130044 := h.allocated.limit
  have hcl : o.kind.clusters = max 1 ((size+2047)/2048) := by rw [hk]; rfl
  have hlist : o.listing = ⟨o.name,attrArchive,o.first,size⟩ := by
    simp only [Object.listing,hk]
  have hmem : o.listing ∈ listings v.objects rootClus := hp ▸ listing_mem ho
  have hroot : rootClus ∈ directories v.objects := mem_directories.mpr (.inl rfl)
  have hdis : (listings v.objects rootClus).Pairwise
      fun e f => ∃ i < 11, entryName e.name i ≠ entryName f.name i :=
    hv.distinct.imp fun hne => by simpa [SameShortName] using hne
  have hattr : attrArchive%256 &&& 8 = 0 := by decide
  have hscan := scanRoot (format83Name query fun _ => 0) (h.listed _ hroot)
    (h.room _) hv.live hdis hmem (by rw [hlist]; exact hattr) (by rw [hlist]; dsimp only; omega)
    (by rw [hlist]; dsimp only; omega) (by rw [hlist]; exact hplain.query hq)
  rw [hlist] at hscan
  obtain ⟨n,rfl⟩ : ∃ n, fuel = n+1 := ⟨fuel-1,by omega⟩
  constructor
  · have ht : volumeFs.fatType = 32 := rfl
    have h4 : volumeFs.secPerClus = 4 := rfl
    have hr : volumeFs.rootClus = rootClus := rfl
    have hend : (!isEndOfClusterChain volumeFs rootClus) = true ∧ rootClus ≥ 2 := by decide
    rw [fatFindFile]
    simp only [if_pos ht,hr,scanChain,if_pos hend,h4,hscan]
  · intro mem dest
    rw [fatReadFile,fatReadFileRun,readChain_image (h.chained ho) ?_ ?_ ?_]
    · rw [blit_congr fun j hj => h.fileByte ho hk (by omega)]
      rfl
    · intro d hd
      have := Object.mem_chain.mp hd
      unfold clusterLimit
      omega
    · rw [Object.chain_length]
      omega
    · rw [Object.chain_length]
      exact hfuel

/-! ### Runs -/

/-- What the root names of a run must satisfy. -/
structure RootNames (cs : List Call) : Prop where
  plain : ∀ c ∈ cs, c.parentClus = rootClus → Plain c.name ∧ Live c.name
  distinct : (cs.filter (·.parentClus = rootClus)).Pairwise fun c d => ¬SameShortName c.name d.name

/-- A run adds its root names to the root directory, in order. -/
theorem run_rootNames {cs : List Call} {v v' : Volume} (h : v.run cs = some v') :
    (listings v'.objects rootClus).map Listing.name =
      (listings v.objects rootClus).map Listing.name++
        (cs.filter (·.parentClus = rootClus)).map Call.name := by
  induction cs generalizing v with
  | nil =>
      obtain rfl := Option.some.inj h
      simp
  | cons c cs ih =>
      rw [Volume.run] at h
      split_ifs at h with ha
      have h₃ := v.tiled.le
      have hne : ¬(c.kind.isDirectory = true ∧ v.next = rootClus) := by
        simp only [rootClus]
        omega
      rw [ih h]
      simp only [Volume.place,listings,if_neg hne,List.append_nil,List.map_append]
      by_cases hp : c.parentClus = rootClus
      · rw [if_pos hp,List.filter_cons_of_pos (by simpa using hp)]
        simp [Object.listing_name]
      · rw [if_neg hp,List.filter_cons_of_neg (by simpa using hp)]
        simp

theorem RootNames.listed {cs : List Call} (h : RootNames cs) {v : Volume}
    (hr : emptyVolume.run cs = some v) : RootListed v := by
  have hn := run_rootNames hr
  have he : (listings emptyVolume.objects rootClus).map Listing.name = [] := rfl
  rw [he,List.nil_append] at hn
  constructor
  · intro e he
    have hm : e.name ∈ (listings v.objects rootClus).map Listing.name := List.mem_map_of_mem he
    rw [hn] at hm
    obtain ⟨c,hc,hce⟩ := List.mem_map.mp hm
    obtain ⟨hc,hp⟩ := List.mem_filter.mp hc
    rw [← hce]
    exact (h.plain c hc (by simpa using hp)).2
  · have hd : ((cs.filter (·.parentClus = rootClus)).map Call.name).Pairwise
        fun a b => ¬SameShortName a b := List.pairwise_map.mpr h.distinct
    rw [← hn] at hd
    exact List.pairwise_map.mp hd

theorem run_object {cs : List Call} {v : Volume} (hr : emptyVolume.run cs = some v) {c : Call}
    (hc : c ∈ cs) : ∃ o ∈ v.objects, o.toCall = c := by
  have hm : c ∈ v.objects.map Object.toCall := by
    rw [run_calls hr]
    simpa [emptyVolume] using hc
  simpa using hm

/-- Every file written to the root directory is found and read back whole. -/
theorem image_roundTrip (mbr vbr : HostFile) {ioSys : HostFile} (hio : ioCopyInside ioSys)
    {cs : List Call} (hf : Fits cs) (hn : RootNames cs) :
    let read := imageRead (performAll cs (formatted mbr vbr ioSys)).disk
    findActivePartitionLba read = 2048 ∧ ∃ fs, fatInit read 2048 = .ready fs ∧ fs.fatType = 32 ∧
      ∀ c ∈ cs, c.parentClus = rootClus → ∀ data size, c.kind = .file data size →
        ∀ query, sameLetters query c.name → ∃ first enough, ∀ fuel, enough ≤ fuel →
          fatFindFile fuel fs read query = some (.found first size) ∧
            ∀ mem dest, ∃ l, fatReadFile fuel fs read first size mem dest = some (some l) ∧
              ∀ d, data = some d → l.mem = blit mem dest size d := by
  intro read
  obtain ⟨v,hv⟩ := Option.isSome_iff_exists.mp hf
  have hrep := run_represents mbr vbr hio hv
  refine ⟨findActivePartitionLba_image hrep,volumeFs,fatInit_image hrep,rfl,?_⟩
  intro c hc hp data size hk query hq
  obtain ⟨o,ho,rfl⟩ := run_object hv hc
  refine ⟨o.first,o.kind.clusters+1,fun fuel hfuel => ?_⟩
  obtain ⟨hfind,hread⟩ := file_roundTrip hrep (hn.listed hv) ho hp (hn.plain _ hc hp).1 hk query hq
    (show o.kind.clusters < fuel by omega)
  refine ⟨hfind,fun mem dest => ⟨_,hread mem dest,?_⟩⟩
  rintro d rfl
  exact blit_congr fun j hj => if_pos hj

theorem image_roundTrip_nested :
    let read := imageRead (performAll nestedCalls (formatted emptyFile emptyFile emptyFile)).disk
    findActivePartitionLba read = 2048 ∧ ∃ fs, fatInit read 2048 = .ready fs ∧ fs.fatType = 32 ∧
      ∀ c ∈ nestedCalls, c.parentClus = rootClus → ∀ data size, c.kind = .file data size →
        ∀ query, sameLetters query c.name → ∃ first enough, ∀ fuel, enough ≤ fuel →
          fatFindFile fuel fs read query = some (.found first size) ∧
            ∀ mem dest, ∃ l, fatReadFile fuel fs read first size mem dest = some (some l) ∧
              ∀ d, data = some d → l.mem = blit mem dest size d :=
  image_roundTrip emptyFile emptyFile (by decide) (by decide) ⟨by decide,by decide⟩

/-! ### The kernel -/

/-- `gemios.elf`, as the loader spells it. -/
def kernelQuery : CString := ⟨[0x67,0x65,0x6D,0x69,0x6F,0x73,0x2E,0x65,0x6C,0x66],by simp⟩

theorem mainCalls_rootNames {inp : Inputs} : RootNames (mainCalls inp) := by
  have hefi : efiClus inp ≠ rootClus ∧ efiClus inp+1 ≠ rootClus := by
    simp only [efiClus,rootClus]
    omega
  have hroot : (mainCalls inp).filter (·.parentClus = rootClus) =
      [⟨rootClus,ioSysName,inp.ioSys.kind⟩,⟨rootClus,gemiosName,inp.kernel.kind⟩,
        ⟨rootClus,efiName,.directory⟩] := by
    simp [mainCalls,hefi.1,hefi.2]
  constructor
  · intro c hc hp
    have hm : c ∈ (mainCalls inp).filter (·.parentClus = rootClus) :=
      List.mem_filter.mpr ⟨hc,by simpa using hp⟩
    rw [hroot] at hm
    simp only [List.mem_cons,List.not_mem_nil,or_false] at hm
    rcases hm with rfl | rfl | rfl <;> dsimp only <;> decide
  · rw [hroot]
    have h₁ : ¬SameShortName ioSysName gemiosName := by decide
    have h₂ : ¬SameShortName ioSysName efiName := by decide
    have h₃ : ¬SameShortName gemiosName efiName := by decide
    simp [h₁,h₂,h₃]

/-- The loader finds the kernel of every finished image and reads all of it. -/
theorem kernel_roundTrip {inp : Inputs} (h : FitImage inp) :
    let read := imageRead (main inp).disk
    findActivePartitionLba read = 2048 ∧ fatInit read 2048 = .ready volumeFs ∧
      ∃ first enough, ∀ fuel, enough ≤ fuel →
        fatFindFile fuel volumeFs read kernelQuery = some (.found first inp.kernel.size) ∧
          ∀ mem dest, ∃ l,
            fatReadFile fuel volumeFs read first inp.kernel.size mem dest = some (some l) ∧
              l.mem = blit mem dest inp.kernel.size inp.kernel.data := by
  intro read
  obtain ⟨v,hv,hrep⟩ := main_run h
  refine ⟨findActivePartitionLba_image hrep,fatInit_image hrep,?_⟩
  obtain ⟨o,ho,hcall⟩ := run_object hv
    (c := ⟨rootClus,gemiosName,inp.kernel.kind⟩) (by simp [mainCalls])
  refine ⟨o.first,o.kind.clusters+1,fun fuel hfuel => ?_⟩
  obtain ⟨hfind,hread⟩ := file_roundTrip hrep (mainCalls_rootNames.listed hv) ho
    (by rw [hcall]) (by rw [hcall]; dsimp only; decide) (by rw [hcall]; rfl)
    kernelQuery (by rw [hcall]; dsimp only; decide) (show o.kind.clusters < fuel by omega)
  exact ⟨hfind,fun mem dest => ⟨_,hread mem dest,blit_congr fun j hj => if_pos hj⟩⟩

end Gemiboot.BootRoundTrip
