import Gemiboot.BootRoundTrip
import Gemiboot.VbrIoSys

/-!
# The directory tree of an image

The reader only searches the root directory, but its loop over a directory takes the
first cluster from the descriptor. With another cluster there it searches any directory,
and with one search for each component it follows a path. On an image built by
admissible calls every object has a path, and following it gives the object.
-/
namespace Gemiboot.DirectoryTree
open ByteMemory ShortNames Mkdisk FatReader BootRoundTrip

/-! ### Paths -/

/-- The descriptor with another directory in the place of the root. -/
def inDirectory (fs : FatFs) (d : ℕ) : FatFs := {fs with rootClus := d}

/-- One component: what was found is the directory to search. -/
def descend (fuel : ℕ) (fs : FatFs) (read : Disk) : Option Search → CString → Option Search
  | some (.found c _),name => fatFindFile fuel (inDirectory fs c) read name
  | r,_ => r

/-- A path from the root directory. -/
def resolve (fuel : ℕ) (fs : FatFs) (read : Disk) (path : List CString) : Option Search :=
  path.foldl (descend fuel fs read) (some (.found fs.rootClus 0))

theorem resolve_snoc (fuel : ℕ) (fs : FatFs) (read : Disk) (path : List CString)
    (name : CString) : resolve fuel fs read (path++[name]) =
      descend fuel fs read (resolve fuel fs read path) name := by
  rw [resolve,List.foldl_append]
  rfl

/-- The path of an object of the volume. -/
inductive Located (v : Volume) : List CString → Object → Prop
  | root {o : Object} : o ∈ v.objects → o.parentClus = rootClus → Located v [o.name] o
  | inside {path : List CString} {d o : Object} : Located v path d → d.kind.isDirectory = true →
      o ∈ v.objects → o.parentClus = d.first → Located v (path++[o.name]) o

theorem Located.mem {v : Volume} {path : List CString} {o : Object} (h : Located v path o) :
    o ∈ v.objects := by
  cases h with
  | root ho _ => exact ho
  | inside _ _ ho _ => exact ho

/-- Parents are older, so every object has a path. -/
theorem exists_located (v : Volume) {o : Object} (ho : o ∈ v.objects) :
    ∃ path, Located v path o := by
  have hsub : ∀ (os : List Object) (n : ℕ), Tiled os n → (∀ p ∈ os, p ∈ v.objects) →
      ∀ o ∈ os, ∃ path, Located v path o := by
    intro os
    induction os with
    | nil => exact fun _ _ _ o ho => absurd ho List.not_mem_nil
    | cons p os ih =>
        intro n ht hin o ho
        have holder := ih p.first ht.2.2 fun q hq => hin q (List.mem_cons_of_mem _ hq)
        rcases List.mem_cons.mp ho with rfl | ho
        · rcases mem_directories.mp ht.2.1 with hroot | ⟨d,hd,hk,hfirst⟩
          · exact ⟨_,.root (hin o List.mem_cons_self) hroot⟩
          · obtain ⟨path,hpath⟩ := holder d hd
            exact ⟨_,.inside hpath hk (hin o List.mem_cons_self) hfirst.symm⟩
        · exact holder o ho
  exact hsub v.objects v.next v.tiled (fun _ h => h) o ho

/-! ### One directory -/

/-- The names in every directory are told apart and none looks deleted. -/
structure Listed (v : Volume) : Prop where
  plain : ∀ o ∈ v.objects, Plain o.name
  live : ∀ o ∈ v.objects, Live o.name
  distinct : ∀ d, (listings v.objects d).Pairwise fun e f => ¬SameShortName e.name f.name

theorem isEnd_inDirectory (d c : ℕ) : isEndOfClusterChain (inDirectory volumeFs d) c =
    decide (0x0FFFFFF8 ≤ c) := rfl

section Directory
variable {mbr vbr ioSys : HostFile} {v : Volume} {g : Globals}

/-- The search over the slots of a directory cluster. -/
theorem scanDirectory {m : Memory} {d : ℕ} (h₂ : 2 ≤ d) (hd : d < clusterLimit)
    (target : Memory) {es : List Listing} (h : DirHolds m d es) (hlen : es.length ≤ 64)
    (hlive : ∀ e ∈ es, Live e.name)
    (hdis : es.Pairwise fun e f => ¬SameShortName e.name f.name) {e : Listing} (he : e ∈ es)
    (hattr : e.attr%256 &&& 8 = 0) (hc : e.clus < 4294967296) (hs : e.size < 4294967296)
    (hn : ∀ i < 11, entryName e.name i = target i) :
    scanSectors (imageRead m) target (FatReader.clusterToLba volumeFs d) 4 0 =
      some (.found e.clus e.size) := by
  obtain ⟨n,hn',rfl⟩ := List.getElem_of_mem he
  rw [scanSectors_eq (m := m) (a := clusterOffset d) 4 0 fun t _ ht =>
    read_cluster m h₂ hd (by omega)]
  have hsplit : List.range' (16*0) (16*4) = List.range' 0 n++n::List.range' (n+1) (63-n) := by
    rw [← List.range'_succ,show 63-n+1 = 64-n by omega]
    have happ := List.range'_append_1 (s := 0) (m := n) (n := 64-n)
    rw [Nat.zero_add,show n+(64-n) = 64 by omega] at happ
    exact happ.symm
  refine List.findSome?_eq_some_iff.mpr ⟨_,n,_,hsplit,?_,?_⟩
  · exact verdict_found (hlive _ he) (h.held hlive n hn') hattr hc hs hn
  · intro k hk
    have hkn : k < n := by
      have := List.mem_range'_1.mp hk
      omega
    have hk' : k < es.length := hkn.trans hn'
    have hne := List.pairwise_iff_getElem.mp hdis k n hk' hn' hkn
    obtain ⟨i,hi,hi'⟩ : ∃ i < 11, entryName es[k].name i ≠ entryName es[n].name i := by
      simpa [SameShortName] using hne
    exact verdict_other (hlive _ (List.getElem_mem hk')) (h.held hlive k hk')
      ⟨i,hi,by rwa [← hn i hi]⟩

/-- The reader, with a directory of the volume in the place of the root, finds what is in it. -/
theorem fatFindFile_directory (h : Represents (formatted mbr vbr ioSys) v g) (hv : Listed v)
    {o : Object} (ho : o ∈ v.objects) (query : CString) (hq : sameLetters query o.name)
    {fuel : ℕ} (hfuel : 0 < fuel) :
    fatFindFile fuel (inDirectory volumeFs o.parentClus) (imageRead g.disk) query =
      some (.found o.first o.listing.size) := by
  have hb := v.tiled.bounds ho
  have hlim : v.next ≤ 130044 := h.allocated.limit
  have hparent := v.tiled.parent ho
  have hp := v.tiled.directory_bounds hparent
  have hpos := o.kind.clusters_pos
  have hlisting : o.listing.name = o.name ∧ o.listing.clus = o.first ∧
      o.listing.attr%256 &&& 8 = 0 ∧ o.listing.size < 4294967296 := by
    rcases o.kind.cases with ⟨data,size,hk⟩ | hk
    · have hcl : o.kind.clusters = max 1 ((size+2047)/2048) := by rw [hk]; rfl
      simp only [Object.listing,hk]
      exact ⟨trivial,trivial,by decide,by omega⟩
    · simp only [Object.listing,hk]
      exact ⟨trivial,trivial,by decide,by decide⟩
  obtain ⟨hname,hclus,hattr,hsize⟩ := hlisting
  have hscan := scanDirectory hp.1 (by unfold clusterLimit; omega)
    (format83Name query fun _ => 0) (h.listed _ hparent) (h.room _)
    (listings_live hv.live o.parentClus) (hv.distinct _) (listing_mem ho) hattr
    (by omega) hsize (by rw [hname]; exact (hv.plain o ho).query hq)
  rw [hclus] at hscan
  obtain ⟨n,rfl⟩ : ∃ n, fuel = n+1 := ⟨fuel-1,by omega⟩
  have ht : (inDirectory volumeFs o.parentClus).fatType = 32 := rfl
  have hr : (inDirectory volumeFs o.parentClus).rootClus = o.parentClus := rfl
  have h4 : (inDirectory volumeFs o.parentClus).secPerClus = 4 := rfl
  have hlba : FatReader.clusterToLba (inDirectory volumeFs o.parentClus) o.parentClus =
      FatReader.clusterToLba volumeFs o.parentClus := rfl
  have hend : (!isEndOfClusterChain (inDirectory volumeFs o.parentClus) o.parentClus) = true ∧
      o.parentClus ≥ 2 := by
    refine ⟨?_,hp.1⟩
    rw [isEnd_inDirectory,Bool.not_eq_true',decide_eq_false_iff_not,not_le]
    exact (hp.2.trans_le hlim).trans (by decide)
  rw [fatFindFile,if_pos ht,hr,scanChain,if_pos hend,h4,hlba,hscan]

/-- A path in any case leads to the object it is the path of. -/
theorem resolve_located (h : Represents (formatted mbr vbr ioSys) v g) (hv : Listed v)
    {path : List CString} {o : Object} (hl : Located v path o) {query : List CString}
    (hq : List.Forall₂ sameLetters query path) {fuel : ℕ} (hfuel : 0 < fuel) :
    resolve fuel volumeFs (imageRead g.disk) query = some (.found o.first o.listing.size) := by
  have hroot : inDirectory volumeFs volumeFs.rootClus = inDirectory volumeFs rootClus := rfl
  induction hl generalizing query with
  | @root o ho hp =>
      obtain ⟨q,t,hname,ht,rfl⟩ := List.forall₂_cons_right_iff.mp hq
      obtain rfl := List.forall₂_nil_right_iff.mp ht
      change fatFindFile fuel (inDirectory volumeFs volumeFs.rootClus) (imageRead g.disk) q = _
      rw [hroot,← hp]
      exact fatFindFile_directory h hv ho q hname hfuel
  | @inside path d o hd hk ho hp ih =>
      have hfront := List.forall₂_take_append query path [o.name] hq
      obtain ⟨q,t,hname,ht,hlast⟩ :=
        List.forall₂_cons_right_iff.mp (List.forall₂_drop_append query path [o.name] hq)
      obtain rfl := List.forall₂_nil_right_iff.mp ht
      rw [← List.take_append_drop path.length query,hlast,resolve_snoc,ih hfront,descend,← hp]
      exact fatFindFile_directory h hv ho q hname hfuel

/-- A file anywhere in the tree is read back whole. -/
theorem fatReadFile_object (h : Represents (formatted mbr vbr ioSys) v g) {o : Object}
    (ho : o ∈ v.objects) {data : Option Memory} {size : ℕ} (hk : o.kind = .file data size)
    {fuel : ℕ} (hfuel : o.kind.clusters < fuel) (mem : Memory) (dest : ℕ) :
    fatReadFile fuel volumeFs (imageRead g.disk) o.first size mem dest =
      some (some ⟨blit mem dest size (fileBytes data size),dest+size,0⟩) := by
  have hb := v.tiled.bounds ho
  have hlim : v.next ≤ 130044 := h.allocated.limit
  have hcl : o.kind.clusters = max 1 ((size+2047)/2048) := by rw [hk]; rfl
  rw [fatReadFile,fatReadFileRun,readChain_image (h.chained ho) ?_ ?_ ?_]
  · rw [blit_congr fun j hj => h.fileByte ho hk (by omega)]
    rfl
  · intro d hd
    have hmem := Object.mem_chain.mp hd
    unfold clusterLimit
    omega
  · rw [Object.chain_length]
    omega
  · rw [Object.chain_length]
    exact hfuel

end Directory

/-! ### Names -/

/-- What the names of a run must satisfy: none looks like another of its directory or like
the two entries every directory starts with. -/
structure TreeNames (cs : List Call) : Prop where
  plain : ∀ c ∈ cs, Plain c.name ∧ Live c.name
  dots : ∀ c ∈ cs, ¬SameShortName c.name dotName ∧ ¬SameShortName c.name dotDotName
  distinct : cs.Pairwise fun c d => c.parentClus = d.parentClus → ¬SameShortName c.name d.name

theorem sameShortName_symm {a b : CString} (h : SameShortName a b) : SameShortName b a :=
  fun i hi => (h i hi).symm

/-- A listing is that of an object in this directory or one of the two. -/
theorem listings_cases {os : List Object} {d : ℕ} {e : Listing} (he : e ∈ listings os d) :
    (∃ o ∈ os, o.parentClus = d ∧ e.name = o.name) ∨ e.name = dotName ∨ e.name = dotDotName := by
  induction os with
  | nil => exact absurd he List.not_mem_nil
  | cons o os ih =>
      simp only [listings,List.mem_append] at he
      rcases he with (he | he) | he
      · rcases ih he with ⟨p,hp,hpd,hname⟩ | hdots
        · exact .inl ⟨p,List.mem_cons_of_mem _ hp,hpd,hname⟩
        · exact .inr hdots
      · split_ifs at he
        · simp only [Object.dots,List.mem_cons,List.not_mem_nil,or_false] at he
          rcases he with rfl | rfl
          · exact .inr (.inl rfl)
          · exact .inr (.inr rfl)
        · exact absurd he List.not_mem_nil
      · split_ifs at he with hp
        · rw [List.mem_singleton.mp he]
          exact .inl ⟨o,List.mem_cons_self,hp,o.listing_name⟩
        · exact absurd he List.not_mem_nil

theorem dots_distinct : ¬SameShortName dotName dotDotName := by decide

theorem listings_distinct {os : List Object} {n : ℕ} (ht : Tiled os n)
    (hdots : ∀ o ∈ os, ¬SameShortName o.name dotName ∧ ¬SameShortName o.name dotDotName)
    (hne : os.Pairwise fun o p => o.parentClus = p.parentClus → ¬SameShortName p.name o.name)
    (d : ℕ) : (listings os d).Pairwise fun e f => ¬SameShortName e.name f.name := by
  induction os generalizing n with
  | nil => exact .nil
  | cons o os ih =>
      have holder := ih ht.2.2 (fun p hp => hdots p (List.mem_cons_of_mem _ hp))
        (List.pairwise_cons.mp hne).2
      have hnew := hdots o List.mem_cons_self
      have hothers := (List.pairwise_cons.mp hne).1
      rw [listings]
      refine List.pairwise_append.mpr ⟨List.pairwise_append.mpr ⟨holder,?_,?_⟩,?_,?_⟩
      · split_ifs
        · exact List.pairwise_pair.mpr dots_distinct
        · exact .nil
      · -- nothing is listed in a directory before it is made
        intro e he f hf
        split_ifs at hf with hk
        · rw [ht.2.2.listings_nil hk.2.le] at he
          exact absurd he List.not_mem_nil
        · exact absurd hf List.not_mem_nil
      · split_ifs
        · exact List.pairwise_singleton _ _
        · exact .nil
      · intro e he f hf
        split_ifs at hf with hp
        swap
        · exact absurd hf List.not_mem_nil
        rw [List.mem_singleton.mp hf,o.listing_name]
        rcases List.mem_append.mp he with he | he
        · rcases listings_cases he with ⟨p,hpin,hpd,hname⟩ | hname | hname
          · rw [hname]
            exact hothers p hpin (hp.trans hpd.symm)
          · rw [hname]
            exact fun h => hnew.1 (sameShortName_symm h)
          · rw [hname]
            exact fun h => hnew.2 (sameShortName_symm h)
        · split_ifs at he with hk
          · simp only [Object.dots,List.mem_cons,List.not_mem_nil,or_false] at he
            rcases he with rfl | rfl
            · exact fun h => hnew.1 (sameShortName_symm h)
            · exact fun h => hnew.2 (sameShortName_symm h)
          · exact absurd he List.not_mem_nil

theorem TreeNames.listed {cs : List Call} (h : TreeNames cs) {v : Volume}
    (hr : emptyVolume.run cs = some v) : Listed v := by
  have hcalls := run_calls hr
  have hempty : emptyVolume.objects.map Object.toCall = [] := rfl
  rw [hempty,List.append_nil] at hcalls
  have hmem : ∀ o ∈ v.objects, o.toCall ∈ cs := by
    intro o ho
    have hin := List.mem_map_of_mem (f := Object.toCall) ho
    rw [hcalls] at hin
    exact List.mem_reverse.mp hin
  refine ⟨fun o ho => (h.plain _ (hmem o ho)).1,fun o ho => (h.plain _ (hmem o ho)).2,?_⟩
  refine listings_distinct v.tiled (fun o ho => h.dots _ (hmem o ho)) ?_
  have hpair : (v.objects.map Object.toCall).Pairwise fun c d =>
      d.parentClus = c.parentClus → ¬SameShortName d.name c.name := by
    rw [hcalls]
    exact List.pairwise_reverse.mpr h.distinct
  exact (List.pairwise_map.mp hpair).imp fun hne heq => hne heq.symm

/-! ### Images -/

/-- Every object of the image is where its path leads, and every file is read back whole. -/
theorem tree_roundTrip (mbr vbr : HostFile) {ioSys : HostFile} (hio : ioCopyInside ioSys)
    {cs : List Call} (hf : Fits cs) (hn : TreeNames cs) :
    let read := imageRead (performAll cs (formatted mbr vbr ioSys)).disk
    ∃ v, emptyVolume.run cs = some v ∧ ∀ o ∈ v.objects, ∃ path, Located v path o ∧
      ∀ query, List.Forall₂ sameLetters query path → ∀ fuel, o.kind.clusters < fuel →
        resolve fuel volumeFs read query = some (.found o.first o.listing.size) ∧
          ∀ data size, o.kind = .file data size → ∀ mem dest,
            fatReadFile fuel volumeFs read o.first size mem dest =
              some (some ⟨blit mem dest size (fileBytes data size),dest+size,0⟩) := by
  intro read
  obtain ⟨v,hv⟩ := Option.isSome_iff_exists.mp hf
  have hrep := run_represents mbr vbr hio hv
  refine ⟨v,hv,fun o ho => ?_⟩
  obtain ⟨path,hpath⟩ := exists_located v ho
  refine ⟨path,hpath,fun query hq fuel hfuel => ⟨?_,?_⟩⟩
  · exact resolve_located hrep (hn.listed hv) hpath hq (Nat.zero_lt_of_lt hfuel)
  · intro data size hk mem dest
    exact fatReadFile_object hrep ho hk hfuel mem dest

theorem tree_roundTrip_nested :
    let read := imageRead (performAll nestedCalls (formatted emptyFile emptyFile emptyFile)).disk
    ∃ v, emptyVolume.run nestedCalls = some v ∧ ∀ o ∈ v.objects, ∃ path, Located v path o ∧
      ∀ query, List.Forall₂ sameLetters query path → ∀ fuel, o.kind.clusters < fuel →
        resolve fuel volumeFs read query = some (.found o.first o.listing.size) ∧
          ∀ data size, o.kind = .file data size → ∀ mem dest,
            fatReadFile fuel volumeFs read o.first size mem dest =
              some (some ⟨blit mem dest size (fileBytes data size),dest+size,0⟩) :=
  tree_roundTrip emptyFile emptyFile (by decide) (by decide) ⟨by decide,by decide,by decide⟩

/-- A call gets the cluster behind all those before it. -/
theorem run_first (pre : List Call) {post : List Call} {c : Call} {v v' : Volume}
    (h : v.run (pre++c::post) = some v') :
    ⟨c,v.next+(pre.map fun d => d.kind.clusters).sum⟩ ∈ v'.objects := by
  induction pre generalizing v with
  | nil =>
      rw [List.nil_append,Volume.run] at h
      split_ifs at h with ha
      exact run_mem h List.mem_cons_self
  | cons d pre ih =>
      rw [List.cons_append,Volume.run] at h
      split_ifs at h with ha
      have hrest := ih h
      rw [List.map_cons,List.sum_cons,← Nat.add_assoc]
      exact hrest

/-- The files of a finished image, by their paths. -/
def tree (inp : Inputs) : List (List CString × HostFile) :=
  [([ioSysName],inp.ioSys),([gemiosName],inp.kernel),([efiName,bootName,bootIa32Name],inp.ia32),
    ([efiName,bootName,bootX64Name],inp.x64)]

theorem mainCalls_treeNames (inp : Inputs) : TreeNames (mainCalls inp) := by
  have hnames : (mainCalls inp).map Call.name =
      [ioSysName,gemiosName,efiName,bootName,bootIa32Name,bootX64Name] := rfl
  have hmem : ∀ c ∈ mainCalls inp, c.name ∈
      [ioSysName,gemiosName,efiName,bootName,bootIa32Name,bootX64Name] := by
    intro c hc
    rw [← hnames]
    exact List.mem_map_of_mem hc
  have hplain : ∀ n ∈ [ioSysName,gemiosName,efiName,bootName,bootIa32Name,bootX64Name],
      (Plain n ∧ Live n) ∧ ¬SameShortName n dotName ∧ ¬SameShortName n dotDotName := by decide
  have hpair : ([ioSysName,gemiosName,efiName,bootName,bootIa32Name,bootX64Name] :
      List CString).Pairwise fun a b => ¬SameShortName a b := by decide
  rw [← hnames] at hpair
  exact ⟨fun c hc => (hplain _ (hmem c hc)).1,fun c hc => (hplain _ (hmem c hc)).2,
    (List.pairwise_map.mp hpair).imp fun {a b} hne (_ : a.parentClus = b.parentClus) => hne⟩

/-- Each file of the tree is an object of the volume. -/
theorem main_located {inp : Inputs} {v : Volume} (hv : emptyVolume.run (mainCalls inp) = some v) :
    ∀ e ∈ tree inp, ∃ o, Located v e.1 o ∧ o.kind = e.2.kind := by
  have hio := run_first [] hv
  have hkernel := run_first [⟨rootClus,ioSysName,inp.ioSys.kind⟩] hv
  have hefi := run_first ((mainCalls inp).take 2) hv
  have hboot := run_first ((mainCalls inp).take 3) hv
  have hia32 := run_first ((mainCalls inp).take 4) hv
  have hx64 := run_first ((mainCalls inp).take 5) hv
  have hfirst : efiClus inp = emptyVolume.next+
      (((mainCalls inp).take 2).map fun d => d.kind.clusters).sum := by
    simp only [efiClus,mainCalls,emptyVolume,List.take_succ_cons,List.take_zero,List.map_cons,
      List.map_nil,List.sum_cons,List.sum_nil,HostFile.kind_clusters]
    omega
  have hsecond : efiClus inp+1 = emptyVolume.next+
      (((mainCalls inp).take 3).map fun d => d.kind.clusters).sum := by
    simp only [efiClus,mainCalls,emptyVolume,List.take_succ_cons,List.take_zero,List.map_cons,
      List.map_nil,List.sum_cons,List.sum_nil,HostFile.kind_clusters,directory_clusters]
    omega
  have hdir : Located v [efiName,bootName] _ :=
    .inside (.root hefi rfl) rfl hboot hfirst
  intro e he
  simp only [tree,List.mem_cons,List.not_mem_nil,or_false] at he
  rcases he with rfl | rfl | rfl | rfl
  · exact ⟨_,.root hio rfl,rfl⟩
  · exact ⟨_,.root hkernel rfl,rfl⟩
  · exact ⟨_,.inside hdir rfl hia32 hsecond,rfl⟩
  · exact ⟨_,.inside hdir rfl hx64 hsecond,rfl⟩

/-- On every finished image the four files are where the loaders and the firmware look
for them, with every byte of the host's. -/
theorem main_tree {inp : Inputs} (h : FitImage inp) :
    let read := imageRead (main inp).disk
    fatInit read 2048 = .ready volumeFs ∧ ∀ e ∈ tree inp, ∀ query,
      List.Forall₂ sameLetters query e.1 → ∃ first, ∀ fuel, e.2.clusters < fuel →
        resolve fuel volumeFs read query = some (.found first e.2.size) ∧
          ∀ mem dest, ∃ l, fatReadFile fuel volumeFs read first e.2.size mem dest =
            some (some l) ∧ l.mem = blit mem dest e.2.size e.2.data := by
  intro read
  obtain ⟨v,hv,hrep⟩ := main_run h
  refine ⟨fatInit_image hrep,fun e he query hq => ?_⟩
  obtain ⟨o,hpath,hk⟩ := main_located hv e he
  refine ⟨o.first,fun fuel hfuel => ⟨?_,fun mem dest => ?_⟩⟩
  · have hfind := resolve_located hrep ((mainCalls_treeNames inp).listed hv) hpath hq
      (Nat.zero_lt_of_lt hfuel)
    have hsize : o.listing.size = e.2.size := by
      simp only [Object.listing,hk,HostFile.kind]
    rw [hsize] at hfind
    exact hfind
  · have hclusters : o.kind.clusters = e.2.clusters := by
      rw [hk]
      rfl
    exact ⟨_,fatReadFile_object hrep hpath.mem hk (by rw [hclusters]; exact hfuel) mem dest,
      blit_congr fun j hj => if_pos hj⟩

theorem main_tree_large :
    let inp := VbrScan.largeIoSys
    let read := imageRead (main inp).disk
    fatInit read 2048 = .ready volumeFs ∧ ∀ e ∈ tree inp, ∀ query,
      List.Forall₂ sameLetters query e.1 → ∃ first, ∀ fuel, e.2.clusters < fuel →
        resolve fuel volumeFs read query = some (.found first e.2.size) ∧
          ∀ mem dest, ∃ l, fatReadFile fuel volumeFs read first e.2.size mem dest =
            some (some l) ∧ l.mem = blit mem dest e.2.size e.2.data :=
  main_tree (by decide)

end Gemiboot.DirectoryTree
