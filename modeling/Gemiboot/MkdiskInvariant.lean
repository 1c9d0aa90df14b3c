import Gemiboot.MkdiskVolume

/-!
# The builder refines the volume

Each admissible call takes a disk buffer that represents a volume to one that
represents the volume with the new object placed. Chains and contents depend on
clusters below the allocation counter only, new clusters are above it, and a
directory entry goes into a directory cluster, which no file owns.
-/
namespace Gemiboot.Mkdisk
open ByteMemory ShortNames LinkedChains

/-- The first slots hold the listings, the others have never been written. A
name that looks deleted leaves its slot to the next entry, so the listings are
only claimed when every one of them is live. -/
structure DirHolds (m : Memory) (d : ℕ) (es : List Listing) : Prop where
  unused : ∀ k, es.length ≤ k → k < 64 → m (slotOffset d k) = 0
  held : (∀ e ∈ es, Live e.name) → ∀ i (h : i < es.length),
    HoldsEntry m (slotOffset d i) es[i].name es[i].attr es[i].clus es[i].size

/-- The two tables and the data area, apart from directory slots. -/
structure Allocated (g₀ : Globals) (v : Volume) (g : Globals) : Prop where
  next : g.nextFreeClus = v.next
  limit : v.next ≤ clusterLimit
  mirrored : ∀ d < fatEntries, entry true g.disk d = entry false g.disk d
  root : entry false g.disk rootClus = endOfChain
  chained : ∀ o ∈ v.objects, ∀ d, o.first ≤ d → d < o.first+o.kind.clusters →
    entry false g.disk d = if d+1 = o.first+o.kind.clusters then endOfChain else d+1
  free : ∀ d, v.next ≤ d → d < fatEntries → entry false g.disk d = 0
  files : ∀ o ∈ v.objects, ∀ data size, o.kind = .file data size → ∀ j < 2048*o.kind.clusters,
    g.disk (clusterOffset o.first+j) = fileBytes data size j
  reserved : ∀ x < 1064960, g.disk x = g₀.disk x
  visits : Visits g₀ g v.next

structure Represents (g₀ : Globals) (v : Volume) (g : Globals) : Prop where
  allocated : Allocated g₀ v g
  room : ∀ d, (listings v.objects d).length ≤ 64
  listed : ∀ d ∈ directories v.objects, DirHolds g.disk d (listings v.objects d)

/-! ### Inserting an entry -/

/-- A step that writes inside one data cluster only. -/
structure OnlyCluster (g g' : Globals) (p : ℕ) : Prop where
  next : g'.nextFreeClus = g.nextFreeClus
  frame : ∀ x, x < clusterOffset p ∨ clusterOffset p+2048 ≤ x → g'.disk x = g.disk x
  visits : Visits g g' 0

theorem visits_sectors {g g' : Globals} {vis : List ℕ} (hs : g'.sectors = vis++g.sectors)
    (he : g'.entries = g.entries) (hv : ∀ s ∈ vis, fatStart ≤ s ∧ s < totalSectors) :
    Visits g g' 0 := by
  refine ⟨?_,fun c hc => .inl (he ▸ hc)⟩
  intro s hs'
  rw [hs] at hs'
  exact (List.mem_append.mp hs').elim (fun h => .inr (hv s h)) .inl

/-- Whatever `add_dir_entry` does, it does in the directory's cluster, and it
rewrites a slot that was free. -/
theorem addListing_only {d : ℕ} (h₂ : 2 ≤ d) (h : d < clusterLimit) (e : Listing)
    (g : Globals) :
    OnlyCluster g (addListing d e g) d ∧ ∀ k, firstFree g.disk d = some k →
      k < 64 ∧ slotFree (g.disk (slotOffset d k)) ∧
        HoldsEntry (addListing d e g).disk (slotOffset d k) e.name e.attr e.clus e.size ∧
        ∀ x, x < slotOffset d k ∨ slotOffset d k+32 ≤ x →
          (addListing d e g).disk x = g.disk x := by
  obtain ⟨vis,hv,he⟩ := addDirEntry_spec h₂ h e.name e.attr e.clus e.size g
  cases hf : firstFree g.disk d with
  | none =>
      rw [hf] at he
      rw [addListing,he]
      exact ⟨⟨rfl,fun _ _ => rfl,visits_sectors rfl rfl hv⟩,by simp⟩
  | some k =>
      rw [hf] at he
      have hk : k < 64 := List.mem_range.mp (List.mem_of_find?_eq_some hf)
      rw [addListing,he]
      refine ⟨⟨rfl,?_,visits_sectors rfl rfl hv⟩,?_⟩
      · intro x hx
        exact writeDirEntry_frame _ _ _ _ (by unfold slotOffset; omega)
      · intro k' hk'
        obtain rfl := Option.some.inj hk'
        exact ⟨hk,(List.find?_range_eq_some.mp hf).1,writeDirEntry_holds _ _ _ _ _ _,
          fun x hx => writeDirEntry_frame _ _ _ _ hx⟩

/-- An unused slot is left, so the search succeeds at or before it. -/
theorem firstFree_of_unused {m : Memory} {d n : ℕ} (hn : n < 64)
    (h : m (slotOffset d n) = 0) : ∃ k, firstFree m d = some k ∧ k ≤ n := by
  have hfree : slotFree (m (slotOffset d n)) = true := by rw [h]; rfl
  cases hf : firstFree m d with
  | none => exact absurd hfree (List.find?_eq_none.mp hf n (List.mem_range.mpr hn))
  | some k =>
      refine ⟨k,rfl,?_⟩
      by_contra hk
      have := (List.find?_range_eq_some.mp hf).2.2 n (by omega)
      rw [hfree] at this
      exact absurd this (by decide)

theorem HoldsEntry.taken {m : Memory} {a : ℕ} {name : CString} {attr clus size : ℕ}
    (h : HoldsEntry m a name attr clus size) (hl : Live name) : slotFree (m a) = false := by
  have hz : m a = entryName name 0 := h.name 0 (by omega)
  have hb := entryName_live name hl
  rw [hz,slotFree]
  simpa using hb

/-- Live listings fill the slots in order: the search finds the next one. -/
theorem DirHolds.firstFree {m : Memory} {d : ℕ} {es : List Listing} (h : DirHolds m d es)
    (hl : es.length < 64) : ∃ k, firstFree m d = some k ∧ k ≤ es.length ∧
      ((∀ e ∈ es, Live e.name) → k = es.length) := by
  obtain ⟨k,hk,hle⟩ := firstFree_of_unused hl (h.unused es.length le_rfl hl)
  refine ⟨k,hk,hle,?_⟩
  intro hlive
  by_contra hne
  have hlt : k < es.length := by omega
  have ht := (h.held hlive k hlt).taken (hlive _ (List.getElem_mem hlt))
  have hf := List.find?_some hk
  rw [ht] at hf
  exact absurd hf (by decide)

theorem DirHolds.congr {m m' : Memory} {d : ℕ} {es : List Listing} (h : DirHolds m d es)
    (hl : es.length ≤ 64)
    (he : ∀ x, clusterOffset d ≤ x → x < clusterOffset d+2048 → m' x = m x) :
    DirHolds m' d es := by
  constructor
  · intro k h₁ h₂
    rw [he _ (by unfold slotOffset; omega) (by unfold slotOffset; omega)]
    exact h.unused k h₁ h₂
  · intro hlive i hi
    apply (h.held hlive i hi).congr
    intro j hj
    exact he _ (by unfold slotOffset; omega) (by unfold slotOffset; omega)

/-- The entry is inserted, and the directory holds it after the others. -/
theorem DirHolds.insert {d : ℕ} {es : List Listing} {g : Globals} (h : DirHolds g.disk d es)
    (h₂ : 2 ≤ d) (hd : d < clusterLimit) (hl : es.length < 64) (e : Listing) :
    OnlyCluster g (addListing d e g) d ∧ DirHolds (addListing d e g).disk d (es++[e]) := by
  obtain ⟨honly,hslot⟩ := addListing_only h₂ hd e g
  obtain ⟨k,hk,hle,hlast⟩ := h.firstFree hl
  obtain ⟨hk64,-,hholds,hframe⟩ := hslot k hk
  refine ⟨honly,?_,?_⟩
  · intro i h₁ hi
    rw [List.length_append,List.length_singleton] at h₁
    rw [hframe _ (by unfold slotOffset; omega)]
    exact h.unused i (by omega) hi
  · intro hlive i hi
    have hlive' : ∀ e' ∈ es, Live e'.name := fun e' he' => hlive e' (List.mem_append_left _ he')
    have hkl := hlast hlive'
    by_cases hie : i < es.length
    · rw [List.getElem_append_left hie]
      apply (h.held hlive' i hie).congr
      intro j hj
      exact hframe _ (by unfold slotOffset; omega)
    · rw [List.length_append,List.length_singleton] at hi
      have hik : i = k := by omega
      have hget : (es++[e])[i] = e := by
        rw [List.getElem_append_right (by omega)]
        simp
      rw [hget,hik]
      exact hholds

/-! ### The allocation part -/

theorem entry_onlyCluster {g g' : Globals} {p : ℕ} (h : OnlyCluster g g' p) (b : Bool) {d : ℕ}
    (hd : d < fatEntries) : entry b g'.disk d = entry b g.disk d := by
  refine entry_congr ?_ b hd
  intro x hx
  apply h.frame
  unfold InFat at hx
  unfold clusterOffset
  omega

/-- Writing inside a directory cluster leaves chains and files alone. -/
theorem Allocated.only {g₀ g g' : Globals} {v : Volume} {p : ℕ} (h : Allocated g₀ v g)
    (ho : OnlyCluster g g' p) (hp : p ∈ directories v.objects) : Allocated g₀ v g' := by
  have hb := v.tiled.directory_bounds hp
  have hlim : v.next ≤ 130044 := h.limit
  have hroot : rootClus < fatEntries := by decide
  refine ⟨ho.next.trans h.next,h.limit,?_,?_,?_,?_,?_,?_,?_⟩
  · intro d hd
    rw [entry_onlyCluster ho _ hd,entry_onlyCluster ho _ hd]
    exact h.mirrored d hd
  · rw [entry_onlyCluster ho _ hroot]
    exact h.root
  · intro o hobj d h₁ h₂
    have := v.tiled.bounds hobj
    rw [entry_onlyCluster ho _ (by simp only [fatEntries]; omega)]
    exact h.chained o hobj d h₁ h₂
  · intro d h₁ h₂
    rw [entry_onlyCluster ho _ h₂]
    exact h.free d h₁ h₂
  · intro o hobj data size hk j hj
    have hbo := v.tiled.bounds hobj
    have hf : o.kind.isDirectory = false := by rw [hk]; rfl
    have hdis := v.tiled.directory_not_file hobj hf hp
    rw [ho.frame _ (by unfold clusterOffset; omega)]
    exact h.files o hobj data size hk j hj
  · intro x hx
    rw [ho.frame _ (by unfold clusterOffset; omega)]
    exact h.reserved x hx
  · exact h.visits.trans (ho.visits.trans (Visits.refl _ v.next) (by omega)) le_rfl

/-- Storing the clusters of a new object extends the allocation. -/
theorem Allocated.stored {g₀ g g' : Globals} {v : Volume} (h : Allocated g₀ v g) {c : Call}
    (hp : c.parentClus ∈ directories v.objects) (hlim : v.next+c.kind.clusters ≤ clusterLimit)
    {content : Memory} (hs : Stored g g' v.next c.kind.clusters content)
    (hc : ∀ data size, c.kind = .file data size → content = fileBytes data size) :
    Allocated g₀ (v.place c hp) g' := by
  have h₃ := v.tiled.le
  have hpos := c.kind.clusters_pos
  have hlim' : v.next+c.kind.clusters ≤ 130044 := hlim
  have hold : ∀ b d, d < fatEntries → d < v.next → entry b g'.disk d = entry b g.disk d := by
    intro b d hd hdn
    rw [hs.entry b d hd,if_neg (by omega)]
  refine ⟨hs.next,hlim,?_,?_,?_,?_,?_,?_,?_⟩
  · intro d hd
    rw [hs.entry _ d hd,hs.entry _ d hd,h.mirrored d hd]
  · rw [hold _ _ (by decide) (by simp only [rootClus]; omega)]
    exact h.root
  · intro o ho d h₁ h₂
    rcases List.mem_cons.mp ho with rfl | ho
    · rw [hs.entry _ d (by simp only [fatEntries] at *; omega),if_pos ⟨h₁,h₂⟩]
    · have hb := v.tiled.bounds ho
      rw [hold _ d (by simp only [fatEntries]; omega) (by omega)]
      exact h.chained o ho d h₁ h₂
  · intro d h₁ h₂
    have hd : v.next+c.kind.clusters ≤ d := h₁
    rw [hs.entry _ d h₂,if_neg (by omega)]
    exact h.free d (by omega) h₂
  · intro o ho data size hk j hj
    have hx : ∀ f, ¬InFat (clusterOffset f+j) := fun f =>
      not_inFat_cluster (by unfold clusterOffset; omega)
    rw [hs.bytes _ (hx _)]
    rcases List.mem_cons.mp ho with rfl | ho
    · rw [if_pos ⟨by dsimp only; omega,by dsimp only at *; omega⟩,hc data size hk]
      congr 1
      dsimp only
      omega
    · have hb := v.tiled.bounds ho
      rw [if_neg (by unfold clusterOffset; omega)]
      exact h.files o ho data size hk j hj
  · intro x hx
    rw [hs.bytes x (by unfold InFat; omega),if_neg (by unfold clusterOffset; omega)]
    exact h.reserved x hx
  · show Visits g₀ g' (v.next+c.kind.clusters)
    exact h.visits.trans hs.visits (by omega)

/-- Directories below the new clusters keep their slots. -/
theorem dirHolds_stored {g g' : Globals} {first n d : ℕ} {content : Memory}
    {es : List Listing} (hs : Stored g g' first n content) (h : DirHolds g.disk d es)
    (hl : es.length ≤ 64) (h₂ : 2 ≤ d) (hd : d < first) : DirHolds g'.disk d es := by
  apply h.congr hl
  intro x h₁ hx
  rw [hs.bytes x (not_inFat_cluster (by unfold clusterOffset at h₁; omega)),
    if_neg (by unfold clusterOffset at *; omega)]

theorem dirHolds_only {g g' : Globals} {p d : ℕ} {es : List Listing} (ho : OnlyCluster g g' p)
    (h : DirHolds g.disk d es) (hl : es.length ≤ 64) (h₂ : 2 ≤ d) (hp : 2 ≤ p) (hne : d ≠ p) :
    DirHolds g'.disk d es := by
  apply h.congr hl
  intro x h₁ hx
  exact ho.frame x (by unfold clusterOffset at *; omega)

/-! ### One call -/

theorem place_room {v : Volume} {c : Call} (h : v.Admits c)
    (hr : ∀ d, (listings v.objects d).length ≤ 64) (d : ℕ) :
    (listings (v.place c h.1).objects d).length ≤ 64 := by
  have hp := (v.tiled.directory_bounds h.1).2
  have hl := h.2.2
  simp only [Volume.place,listings]
  by_cases hn : v.next = d
  · subst hn
    rw [v.tiled.listings_nil le_rfl,if_neg (show c.parentClus ≠ v.next by omega)]
    split_ifs <;> simp [Object.dots]
  · rw [if_neg (show ¬(c.kind.isDirectory = true ∧ v.next = d) from fun h => hn h.2)]
    by_cases hd : c.parentClus = d
    · subst hd
      simp only [if_true,List.append_nil,List.length_append,List.length_singleton]
      omega
    · simpa only [if_neg hd,List.append_nil] using hr d

/-- What `write_file_data` does, up to the listing. -/
theorem writeFileData_stored {g₀ g : Globals} {v : Volume} (h : Represents g₀ v g) {c : Call}
    {data : Option Memory} {size : ℕ} (hk : c.kind = .file data size) (ha : v.Admits c) :
    ∃ g₁, Stored g g₁ v.next c.kind.clusters (fileBytes data size) ∧
      c.perform g = (v.next,addListing c.parentClus ⟨c.name,attrArchive,v.next,size⟩ g₁) := by
  have h₃ := v.tiled.le
  have hlim : v.next+c.kind.clusters ≤ 130044 := ha.2.1
  have hcl : c.kind.clusters = max 1 ((size+2047)/2048) := by rw [hk]; rfl
  have hnum : numClusters size = c.kind.clusters := by
    rw [numClusters_eq (by omega),hcl]
  obtain ⟨hfirst,hs⟩ := writeClusters_spec data
    (show 2 ≤ g.nextFreeClus by rw [h.allocated.next]; omega)
    (show g.nextFreeClus+numClusters size ≤ clusterLimit by
      rw [h.allocated.next,hnum]; exact hlim)
  rw [h.allocated.next] at hfirst
  rw [h.allocated.next,hnum] at hs
  refine ⟨_,hs,?_⟩
  have hperf : c.perform g = writeFileData c.parentClus c.name data size g := by
    rw [Call.perform,hk]
  rw [hperf,writeFileData_eq]
  simp only [hnum] at hfirst ⊢
  simp only [hfirst]

/-- A file: its clusters are stored, then its parent lists it. -/
theorem writeFileData_represents {g₀ g : Globals} {v : Volume} (h : Represents g₀ v g)
    {c : Call} {data : Option Memory} {size : ℕ} (hk : c.kind = .file data size)
    (ha : v.Admits c) : (c.perform g).1 = v.next ∧
      Represents g₀ (v.place c ha.1) (c.perform g).2 := by
  obtain ⟨hp,hlim,hlist⟩ := id ha
  have hp' := v.tiled.directory_bounds hp
  have hlim' : v.next+c.kind.clusters ≤ 130044 := hlim
  have hl : (Object.mk c v.next).listing = ⟨c.name,attrArchive,v.next,size⟩ := by
    simp only [Object.listing,hk]
  obtain ⟨g₁,hs,hperf⟩ := writeFileData_stored h hk ha
  rw [hperf]
  have hd₁ := dirHolds_stored hs (h.listed _ hp) (by omega) hp'.1 hp'.2
  obtain ⟨honly,hd₂⟩ := hd₁.insert hp'.1 (by unfold clusterLimit; omega) hlist
    ⟨c.name,attrArchive,v.next,size⟩
  have hall := h.allocated.stored hp hlim hs fun data' size' hk' => by
    rw [hk] at hk'
    cases hk'
    rfl
  have hdirs : directories (v.place c hp).objects = directories v.objects := by
    simp only [Volume.place,directories,hk,Kind.isDirectory,Bool.false_eq_true,if_false]
  refine ⟨rfl,hall.only honly (by rw [hdirs]; exact hp),place_room ha h.room,?_⟩
  intro d hd
  rw [hdirs] at hd
  have hd' := v.tiled.directory_bounds hd
  have hlst : listings (v.place c hp).objects d = listings v.objects d++
      if c.parentClus = d then [⟨c.name,attrArchive,v.next,size⟩] else [] := by
    simp only [Volume.place,listings,hk,Kind.isDirectory,Bool.false_eq_true,false_and,if_false,
      List.append_nil]
    rw [← hl]
  rw [hlst]
  by_cases hdp : c.parentClus = d
  · subst hdp
    simpa only [if_true] using hd₂
  · rw [if_neg hdp,List.append_nil]
    exact dirHolds_only honly (dirHolds_stored hs (h.listed d hd) (h.room d) hd'.1 hd'.2)
      (h.room d) hd'.1 hp'.1 (Ne.symm hdp)

/-- What `create_directory` does, up to its three listings. -/
theorem createDirectory_stored {g₀ g : Globals} {v : Volume} (h : Represents g₀ v g)
    {c : Call} (hk : c.kind = .directory) (ha : v.Admits c) :
    ∃ g₁, Stored g g₁ v.next c.kind.clusters (fun _ => 0) ∧
      c.perform g = (v.next,addListing v.next
        ⟨dotDotName,attrDirectory,if c.parentClus = rootClus then 0 else c.parentClus,0⟩
        (addListing v.next ⟨dotName,attrDirectory,v.next,0⟩
          (addListing c.parentClus ⟨c.name,attrDirectory,v.next,0⟩ g₁))) := by
  have h₃ := v.tiled.le
  have hcl : c.kind.clusters = 1 := by rw [hk]; rfl
  have hlim : v.next+c.kind.clusters ≤ clusterLimit := ha.2.1
  have hs := allocateCluster_spec (g := g) (by rw [h.allocated.next]; omega)
    (by rw [h.allocated.next]; omega)
  rw [h.allocated.next,← hcl] at hs
  refine ⟨_,hs,?_⟩
  have hperf : c.perform g = createDirectory c.parentClus c.name g := by
    rw [Call.perform,hk]
  have hcreate := createDirectory_eq c.parentClus c.name g
  rw [h.allocated.next] at hcreate
  rw [hperf,hcreate]

/-- A new directory lists itself and its parent. -/
theorem Volume.listings_place_new (v : Volume) {c : Call} (hk : c.kind = .directory)
    (hp : c.parentClus ∈ directories v.objects) :
    listings (v.place c hp).objects v.next = [⟨dotName,attrDirectory,v.next,0⟩,
      ⟨dotDotName,attrDirectory,if c.parentClus = rootClus then 0 else c.parentClus,0⟩] := by
  have hp' := v.tiled.directory_bounds hp
  simp only [Volume.place,listings,hk,Kind.isDirectory,v.tiled.listings_nil le_rfl]
  rw [if_neg (show c.parentClus ≠ v.next by omega)]
  rfl

/-- In the directories there are, only the parent lists it. -/
theorem Volume.listings_place_old (v : Volume) {c : Call} (hk : c.kind = .directory)
    (hp : c.parentClus ∈ directories v.objects) {d : ℕ} (hd : d ∈ directories v.objects) :
    listings (v.place c hp).objects d = listings v.objects d++
      if c.parentClus = d then [⟨c.name,attrDirectory,v.next,0⟩] else [] := by
  have hd' := v.tiled.directory_bounds hd
  have hl : (Object.mk c v.next).listing = ⟨c.name,attrDirectory,v.next,0⟩ := by
    simp only [Object.listing,hk]
  simp only [Volume.place,listings,hk,Kind.isDirectory]
  rw [if_neg (show ¬(True ∧ v.next = d) from fun h => by omega),List.append_nil,← hl]

/-- A directory: a zeroed cluster, an entry in the parent, then the dot entries. -/
theorem createDirectory_represents {g₀ g : Globals} {v : Volume} (h : Represents g₀ v g)
    {c : Call} (hk : c.kind = .directory) (ha : v.Admits c) :
    (c.perform g).1 = v.next ∧ Represents g₀ (v.place c ha.1) (c.perform g).2 := by
  obtain ⟨hp,hlim,hlist⟩ := id ha
  have hp' := v.tiled.directory_bounds hp
  have h₃ := v.tiled.le
  have hcl : c.kind.clusters = 1 := by rw [hk]; rfl
  have hn : v.next < clusterLimit := by omega
  obtain ⟨ga,hs,hperf⟩ := createDirectory_stored h hk ha
  rw [hperf]
  refine ⟨rfl,?_⟩
  dsimp only
  clear hperf
  have hall := h.allocated.stored hp hlim hs fun data' size' hk' => by
    rw [hk] at hk'
    cases hk'
  have hdirs : directories (v.place c hp).objects = v.next::directories v.objects := by
    simp only [Volume.place,directories,hk,Kind.isDirectory,if_true]
  -- the parent's entry
  have hd₁ := dirHolds_stored hs (h.listed _ hp) (by omega) hp'.1 hp'.2
  obtain ⟨ho₁,hd₂⟩ := hd₁.insert hp'.1 (by omega) hlist ⟨c.name,attrDirectory,v.next,0⟩
  -- the new directory, empty so far
  have hnew : DirHolds ga.disk v.next [] := by
    refine ⟨?_,fun _ i hi => absurd hi (by simp)⟩
    intro k _ hk64
    rw [hs.bytes _ (not_inFat_cluster (by unfold slotOffset clusterOffset; omega)),
      if_pos ⟨by unfold slotOffset; omega,by unfold slotOffset; omega⟩]
  generalize addListing c.parentClus ⟨c.name,attrDirectory,v.next,0⟩ ga = g₁ at *
  have hnew₁ := dirHolds_only ho₁ hnew (by simp) (by omega) hp'.1 (by omega)
  obtain ⟨ho₂,hnew₂⟩ := hnew₁.insert (by omega) hn (by simp) ⟨dotName,attrDirectory,v.next,0⟩
  generalize addListing v.next ⟨dotName,attrDirectory,v.next,0⟩ g₁ = g₂ at *
  obtain ⟨ho₃,hnew₃⟩ := hnew₂.insert (by omega) hn (by simp)
    ⟨dotDotName,attrDirectory,if c.parentClus = rootClus then 0 else c.parentClus,0⟩
  generalize addListing v.next ⟨dotDotName,attrDirectory,
    if c.parentClus = rootClus then 0 else c.parentClus,0⟩ g₂ = g₃ at *
  have hpd : c.parentClus ∈ directories (v.place c hp).objects := by
    rw [hdirs]
    exact List.mem_cons_of_mem _ hp
  have hnd : v.next ∈ directories (v.place c hp).objects := by
    rw [hdirs]
    exact List.mem_cons_self
  refine ⟨((hall.only ho₁ hpd).only ho₂ hnd).only ho₃ hnd,place_room ha h.room,?_⟩
  intro d hd
  rw [hdirs] at hd
  rcases List.mem_cons.mp hd with rfl | hd
  · rw [v.listings_place_new hk hp]
    exact hnew₃
  · have hd' := v.tiled.directory_bounds hd
    rw [v.listings_place_old hk hp hd]
    have hkeep : ∀ es : List Listing, es.length ≤ 64 → DirHolds g₁.disk d es →
        DirHolds g₃.disk d es := fun es hes hde =>
      dirHolds_only ho₃ (dirHolds_only ho₂ hde hes hd'.1 (by omega) (by omega)) hes hd'.1
        (by omega) (by omega)
    by_cases hdp : c.parentClus = d
    · subst hdp
      simp only [if_true]
      exact hkeep _ (by simp only [List.length_append,List.length_singleton]; omega) hd₂
    · rw [if_neg hdp,List.append_nil]
      exact hkeep _ (h.room d) (dirHolds_only ho₁
        (dirHolds_stored hs (h.listed d hd) (h.room d) hd'.1 hd'.2) (h.room d) hd'.1 hp'.1
        (Ne.symm hdp))

theorem perform_represents {g₀ g : Globals} {v : Volume} (h : Represents g₀ v g) {c : Call}
    (ha : v.Admits c) : (c.perform g).1 = v.next ∧
      Represents g₀ (v.place c ha.1) (c.perform g).2 := by
  rcases c.kind.cases with ⟨data,size,hk⟩ | hk
  · exact writeFileData_represents h hk ha
  · exact createDirectory_represents h hk ha

/-- The first call of a run is admissible; the rest is a run from the volume it leaves. -/
theorem run_step {c : Call} {cs : List Call} {g₀ g : Globals} {v v' : Volume}
    (h : Represents g₀ v g) (hr : v.run (c::cs) = some v') :
    v.Admits c ∧ (c.perform g).1 = v.next ∧ ∃ v₁ : Volume, v₁.run cs = some v' ∧
      Represents g₀ v₁ (c.perform g).2 ∧ v₁.next = v.next+c.kind.clusters ∧
      v₁.objects = ⟨c,v.next⟩::v.objects := by
  rw [Volume.run] at hr
  split_ifs at hr with ha
  obtain ⟨hfirst,hrep⟩ := perform_represents h ha
  exact ⟨ha,hfirst,_,hr,hrep,rfl,rfl⟩

/-- A whole run of admissible calls. -/
theorem performAll_represents {cs : List Call} {g₀ g : Globals} {v v' : Volume}
    (h : Represents g₀ v g) (hr : v.run cs = some v') : Represents g₀ v' (performAll cs g) := by
  induction cs generalizing v g with
  | nil =>
      obtain rfl := Option.some.inj hr
      exact h
  | cons c cs ih =>
      obtain ⟨-,-,v₁,hr₁,h₁,-⟩ := run_step h hr
      exact ih h₁ hr₁

/-- A run keeps the objects there were. -/
theorem run_mem {cs : List Call} {v v' : Volume} (hr : v.run cs = some v') {o : Object}
    (ho : o ∈ v.objects) : o ∈ v'.objects := by
  induction cs generalizing v with
  | nil =>
      obtain rfl := Option.some.inj hr
      exact ho
  | cons c cs ih =>
      rw [Volume.run] at hr
      split_ifs at hr with ha
      exact ih hr (List.mem_cons_of_mem _ ho)

end Gemiboot.Mkdisk
