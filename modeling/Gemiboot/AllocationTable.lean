import Gemiboot.MkdiskFormat

/-!
# The allocation table the builder leaves

A run of admissible calls is read back from the disk buffer alone: both copies
of the table agree, the chains are those of the objects created, they partition
the clusters handed out, and no later call touches an earlier object beyond one
slot in the parent directory.
-/
namespace Gemiboot.Mkdisk
open ByteMemory ShortNames LinkedChains

/-- The calls of a run with the clusters they return, latest first. -/
def created : List Object → List Call → Globals → List Object
  | os,[],_ => os
  | os,c::cs,g => created (⟨c,(c.perform g).1⟩::os) cs (c.perform g).2

theorem created_eq {cs : List Call} {g₀ g : Globals} {v v' : Volume} (h : Represents g₀ v g)
    (hr : v.run cs = some v') : created v.objects cs g = v'.objects := by
  induction cs generalizing v g with
  | nil =>
      obtain rfl := Option.some.inj hr
      rfl
  | cons c cs ih =>
      rw [Volume.run] at hr
      split_ifs at hr with ha
      obtain ⟨hfirst,hrep⟩ := perform_represents h ha
      have := ih hrep hr
      rwa [created,hfirst]

def Object.chain (o : Object) : List ℕ := List.range' o.first o.kind.clusters

def FatChain (m : Memory) : ℕ → List ℕ → Prop := Chain (entry false m) (· = endOfChain)

/-- Byte `j` of the data stored along a chain. -/
def chainByte (m : Memory) (l : List ℕ) (j : ℕ) : UInt8 :=
  m (clusterOffset (l.getD (j/2048) 0)+j%2048)

/-- The table of a disk that holds the root directory and these objects. -/
structure WellFormedTable (os : List Object) (g : Globals) : Prop where
  mirrored : ∀ i < fatSize*sectorSize,
    g.disk (getSector (fatStart+fatSize)+i) = g.disk (getSector fatStart+i)
  free : ∀ b d, g.nextFreeClus ≤ d → d < fatEntries → entry b g.disk d = 0
  root : FatChain g.disk rootClus [rootClus]
  chained : ∀ o ∈ os, FatChain g.disk o.first o.chain
  acyclic : ∀ o ∈ os, o.chain.Nodup
  disjoint : ([rootClus]::os.map Object.chain).Pairwise List.Disjoint
  cover : ∀ d, d ∈ ([rootClus]::os.map Object.chain).flatten ↔ 2 ≤ d ∧ d < g.nextFreeClus
  length : ∀ o ∈ os, ∀ data size, o.kind = .file data size →
    o.chain.length = max 1 ((size+2047)/2048)
  slack : ∀ o ∈ os, ∀ data size, o.kind = .file data size → ∀ j, size ≤ j →
    j < 2048*o.chain.length → chainByte g.disk o.chain j = 0

/-- From `g` to `g'` nothing allocated before the call changes except one free
slot of its parent, which then lists the new object. -/
structure AddsOneEntry (o : Object) (g g' : Globals) : Prop where
  entries : ∀ b d, d < g.nextFreeClus → entry b g'.disk d = entry b g.disk d
  slot : ∃ k < 64, slotFree (g.disk (slotOffset o.parentClus k)) ∧
    HoldsEntry g'.disk (slotOffset o.parentClus k) o.listing.name o.listing.attr o.listing.clus
      o.listing.size ∧
    ∀ d, 2 ≤ d → d < g.nextFreeClus → ∀ x, clusterOffset d ≤ x → x < clusterOffset d+2048 →
      (x < slotOffset o.parentClus k ∨ slotOffset o.parentClus k+32 ≤ x) → g'.disk x = g.disk x

/-! ### The table of a represented volume -/

theorem Object.mem_chain {o : Object} {d : ℕ} :
    d ∈ o.chain ↔ o.first ≤ d ∧ d < o.first+o.kind.clusters := by
  rw [Object.chain,List.mem_range'_1]

theorem Object.chain_length (o : Object) : o.chain.length = o.kind.clusters := by
  rw [Object.chain,List.length_range']

theorem chain_getD {o : Object} {i : ℕ} (h : i < o.kind.clusters) :
    o.chain.getD i 0 = o.first+i := by
  rw [Object.chain,List.getD_eq_getElem _ _ (by rwa [List.length_range']),List.getElem_range'_1]

/-- Consecutive clusters hold consecutive bytes. -/
theorem chainByte_eq {m : Memory} {o : Object} {j : ℕ} (h₂ : 2 ≤ o.first)
    (h : j < 2048*o.kind.clusters) : chainByte m o.chain j = m (clusterOffset o.first+j) := by
  rw [chainByte,chain_getD (by omega)]
  congr 1
  unfold clusterOffset
  omega

theorem Represents.chained {g₀ g : Globals} {v : Volume} (h : Represents g₀ v g) {o : Object}
    (ho : o ∈ v.objects) : FatChain g.disk o.first o.chain := by
  have hb := v.tiled.bounds ho
  have hlim : v.next ≤ 130044 := h.allocated.limit
  have hc := h.allocated.chained o ho
  obtain ⟨n,hn⟩ : ∃ n, o.kind.clusters = n+1 := ⟨_,(Nat.succ_pred_eq_of_pos o.kind.clusters_pos).symm⟩
  rw [Object.chain,hn]
  rw [hn] at hc hb
  apply chain_run
  · intro c h₁ h₂
    rw [hc c h₁ (by omega),if_neg (by omega)]
  · intro c _ h₂
    simp only [endOfChain]
    omega
  · rw [hc _ (by omega) (by omega),if_pos (by omega)]

theorem Represents.mirrored {g₀ g : Globals} {v : Volume} (h : Represents g₀ v g) {i : ℕ}
    (hi : i < fatSize*sectorSize) :
    g.disk (getSector (fatStart+fatSize)+i) = g.disk (getSector fatStart+i) := by
  rw [getSector_eq (by decide),getSector_eq (by decide)]
  simp only [fatSize_eq,fatStart_eq,sectorSize_eq] at hi ⊢
  have he := h.allocated.mirrored (i/4) (by unfold fatEntries; omega)
  have hb := load_inj he (i%4) (by omega)
  simp only [fatBase,Bool.false_eq_true,if_true,if_false] at hb
  rw [show (2080+1020)*512+i = 1587200+4*(i/4)+i%4 by omega,hb]
  congr 1
  omega

theorem Represents.disjoint {g₀ g : Globals} {v : Volume} (_ : Represents g₀ v g) :
    ([rootClus]::v.objects.map Object.chain).Pairwise List.Disjoint := by
  refine List.pairwise_cons.mpr ⟨?_,?_⟩
  · intro l hl d hd hdl
    obtain ⟨o,ho,rfl⟩ := List.mem_map.mp hl
    have := v.tiled.bounds ho
    have := Object.mem_chain.mp hdl
    rw [List.mem_singleton,rootClus] at hd
    omega
  · rw [List.pairwise_map]
    refine v.tiled.disjoint.imp ?_
    intro o p hop d hd hdp
    have := Object.mem_chain.mp hd
    have := Object.mem_chain.mp hdp
    omega

theorem Represents.cover {g₀ g : Globals} {v : Volume} (h : Represents g₀ v g) {d : ℕ} :
    d ∈ ([rootClus]::v.objects.map Object.chain).flatten ↔ 2 ≤ d ∧ d < g.nextFreeClus := by
  have h₃ := v.tiled.le
  rw [h.allocated.next]
  simp only [List.flatten_cons,List.mem_append,List.mem_singleton,List.mem_flatten,List.mem_map]
  constructor
  · rintro (rfl | ⟨l,⟨o,ho,rfl⟩,hd⟩)
    · simp only [rootClus]
      omega
    · have := v.tiled.bounds ho
      have := Object.mem_chain.mp hd
      omega
  · rintro ⟨h₂,hd⟩
    by_cases hr : d = rootClus
    · exact .inl hr
    · rw [rootClus] at hr
      obtain ⟨o,ho,hod⟩ := v.tiled.cover (by omega) hd
      exact .inr ⟨_,⟨o,ho,rfl⟩,Object.mem_chain.mpr hod⟩

theorem Represents.wellFormedTable {g₀ g : Globals} {v : Volume} (h : Represents g₀ v g) :
    WellFormedTable v.objects g := by
  refine ⟨fun i hi => h.mirrored hi,?_,.last h.allocated.root,fun o ho => h.chained ho,?_,
    h.disjoint,fun d => h.cover,?_,?_⟩
  · intro b d h₁ hd
    have hf := h.allocated.free d (h.allocated.next ▸ h₁) hd
    cases b with
    | false => exact hf
    | true => rw [h.allocated.mirrored d hd,hf]
  · intro o ho
    exact (h.chained ho).nodup
  · intro o ho data size hk
    rw [Object.chain_length,hk]
    rfl
  · intro o ho data size hk j hj hl
    have := (v.tiled.bounds ho).1
    rw [Object.chain_length] at hl
    rw [chainByte_eq (by omega) hl,h.allocated.files o ho data size hk j hl,fileBytes_past hj]

/-! ### The frame of one call -/

/-- The slot a listing takes was free, and only that slot changes. -/
theorem DirHolds.slot {d : ℕ} {es : List Listing} {g : Globals} (h : DirHolds g.disk d es)
    (h₂ : 2 ≤ d) (hd : d < clusterLimit) (hl : es.length < 64) (e : Listing) :
    ∃ k < 64, slotFree (g.disk (slotOffset d k)) ∧
      HoldsEntry (addListing d e g).disk (slotOffset d k) e.name e.attr e.clus e.size ∧
      ∀ x, x < slotOffset d k ∨ slotOffset d k+32 ≤ x →
        (addListing d e g).disk x = g.disk x := by
  obtain ⟨k,hk,-,-⟩ := h.firstFree hl
  exact ⟨k,(addListing_only h₂ hd e g).2 k hk⟩

/-- The common part of both kinds of call: the clusters are stored, the parent
lists them, and what follows stays inside the new clusters. -/
theorem addsOneEntry_of {g₀ g g₁ : Globals} {v : Volume} (h : Represents g₀ v g) {c : Call}
    (ha : v.Admits c) {content : Memory} (hs : Stored g g₁ v.next c.kind.clusters content)
    (hentry : ∀ b d, d < fatEntries → entry b (c.perform g).2.disk d =
      entry b (addListing c.parentClus (Object.mk c v.next).listing g₁).disk d)
    (hbelow : ∀ x, x < clusterOffset v.next → (c.perform g).2.disk x =
      (addListing c.parentClus (Object.mk c v.next).listing g₁).disk x) :
    AddsOneEntry ⟨c,v.next⟩ g (c.perform g).2 := by
  obtain ⟨hp,hlim,hlist⟩ := id ha
  have hp' := v.tiled.directory_bounds hp
  have hlim' : v.next+c.kind.clusters ≤ 130044 := hlim
  have hd₁ := dirHolds_stored hs (h.listed _ hp) (by omega) hp'.1 hp'.2
  have hpl : c.parentClus < clusterLimit := by unfold clusterLimit; omega
  obtain ⟨k,hk,hfree,hholds,hframe⟩ := hd₁.slot hp'.1 hpl hlist (Object.mk c v.next).listing
  obtain ⟨honly,-⟩ := addListing_only hp'.1 hpl (Object.mk c v.next).listing g₁
  have hold : ∀ x, 2109440 ≤ x → x < clusterOffset v.next → g₁.disk x = g.disk x := by
    intro x h₁ hx
    rw [hs.bytes x (not_inFat_cluster h₁),if_neg (by omega)]
  have hslot : 2109440 ≤ slotOffset c.parentClus k ∧
      slotOffset c.parentClus k+32 ≤ clusterOffset v.next := by
    unfold slotOffset clusterOffset
    omega
  have hnext := h.allocated.next
  refine ⟨?_,k,hk,?_,hholds.congr fun i hi => hbelow _ (by omega),?_⟩
  · intro b d hd
    rw [hentry b d (by unfold fatEntries; omega),
      entry_onlyCluster honly b (by unfold fatEntries; omega),
      hs.entry b d (by unfold fatEntries; omega),if_neg (by omega)]
  · rwa [← hold _ hslot.1 (by omega)]
  · intro d h₂ hd x h₁ hx hout
    have hxb : 2109440 ≤ x ∧ x < clusterOffset v.next := by
      unfold clusterOffset at *
      omega
    rw [hbelow x hxb.2,hframe x hout,hold x hxb.1 hxb.2]

theorem perform_addsOneEntry {g₀ g : Globals} {v : Volume} (h : Represents g₀ v g) {c : Call}
    (ha : v.Admits c) : AddsOneEntry ⟨c,(c.perform g).1⟩ g (c.perform g).2 := by
  rw [(perform_represents h ha).1]
  have h₃ := v.tiled.le
  rcases c.kind.cases with ⟨data,size,hk⟩ | hk
  · obtain ⟨g₁,hs,hperf⟩ := writeFileData_stored h hk ha
    have hl : (Object.mk c v.next).listing = ⟨c.name,attrArchive,v.next,size⟩ := by
      simp only [Object.listing,hk]
    refine addsOneEntry_of h ha hs ?_ ?_
    · intro b d _
      rw [hperf,hl]
    · intro x _
      rw [hperf,hl]
  · obtain ⟨g₁,hs,hperf⟩ := createDirectory_stored h hk ha
    have hcl : c.kind.clusters = 1 := by rw [hk]; rfl
    have hn : v.next < clusterLimit := by
      have := ha.2.1
      omega
    have hl : (Object.mk c v.next).listing = ⟨c.name,attrDirectory,v.next,0⟩ := by
      simp only [Object.listing,hk]
    refine addsOneEntry_of h ha hs ?_ ?_
    · intro b d hd
      rw [hperf,hl]
      rw [entry_onlyCluster (addListing_only (by omega) hn _ _).1 b hd,
        entry_onlyCluster (addListing_only (by omega) hn _ _).1 b hd]
    · intro x hx
      rw [hperf,hl]
      rw [(addListing_only (by omega) hn _ _).1.frame x (.inl hx),
        (addListing_only (by omega) hn _ _).1.frame x (.inl hx)]

/-! ### Runs -/

/-- The calls stay within the clusters of the image, the 64 slots of each
directory, and directories made before. -/
def Fits (cs : List Call) : Prop := (emptyVolume.run cs).isSome

instance (cs : List Call) : Decidable (Fits cs) := inferInstanceAs (Decidable (_ = true))

theorem run_append {v v' : Volume} {pre cs : List Call} (h : v.run (pre++cs) = some v') :
    ∃ u, v.run pre = some u ∧ u.run cs = some v' := by
  induction pre generalizing v with
  | nil => exact ⟨v,rfl,h⟩
  | cons c pre ih =>
      rw [List.cons_append,Volume.run] at h
      split_ifs at h with ha
      obtain ⟨u,hu,hc⟩ := ih h
      exact ⟨u,by rw [Volume.run,dif_pos ha,hu],hc⟩

theorem allocationTable_wellFormed (mbr vbr : HostFile) {ioSys : HostFile} (hio : ioCopyInside ioSys)
    {cs : List Call} (hf : Fits cs) :
    let g₀ := formatted mbr vbr ioSys
    WellFormedTable (created [] cs g₀) (performAll cs g₀) ∧
      ∀ pre c post, cs = pre++c::post →
        let g := performAll pre g₀
        AddsOneEntry ⟨c,(c.perform g).1⟩ g (c.perform g).2 := by
  intro g₀
  obtain ⟨v,hv⟩ := Option.isSome_iff_exists.mp hf
  refine ⟨?_,?_⟩
  · have hos : created [] cs g₀ = v.objects := created_eq (formatted_represents mbr vbr hio) hv
    rw [hos]
    exact (run_represents mbr vbr hio hv).wellFormedTable
  · rintro pre c post rfl
    obtain ⟨u,hu,hc⟩ := run_append hv
    rw [Volume.run] at hc
    split_ifs at hc with ha
    exact perform_addsOneEntry (run_represents mbr vbr hio hu) ha

def emptyFile : HostFile := ⟨fun _ => 0,0,by decide⟩

/-- A file of three clusters, a directory, and an empty file inside it. -/
def nestedCalls : List Call :=
  [⟨rootClus,⟨[0x41],by simp⟩,.file (some fun _ => 7) 5000⟩,
    ⟨rootClus,⟨[0x44],by simp⟩,.directory⟩,
    ⟨6,⟨[0x42],by simp⟩,.file (some fun _ => 7) 0⟩]

theorem allocationTable_wellFormed_nested :
    let g₀ := formatted emptyFile emptyFile emptyFile
    WellFormedTable (created [] nestedCalls g₀) (performAll nestedCalls g₀) ∧
      ∀ pre c post, nestedCalls = pre++c::post →
        let g := performAll pre g₀
        AddsOneEntry ⟨c,(c.perform g).1⟩ g (c.perform g).2 :=
  allocationTable_wellFormed emptyFile emptyFile (by decide) (by decide)

end Gemiboot.Mkdisk
