import Gemiboot.Mkdisk

/-!
# What each step of the image builder changes

Below the first cluster past the end of the disk no 32-bit sum wraps, and every
sector and FAT offset has a closed form. Each function of the builder then gets
one description of its effect, stated pointwise on the disk buffer: the FAT
entries through `entry`, everything outside the two tables byte by byte.
-/
namespace Gemiboot.Mkdisk
open ByteMemory ShortNames

/-! ### Geometry in numbers -/

@[simp] theorem sectorSize_eq : sectorSize = 512 := rfl
@[simp] theorem totalSectors_eq : totalSectors = 524288 := by decide
@[simp] theorem fatStart_eq : fatStart = 2080 := by decide
@[simp] theorem fatSize_eq : fatSize = 1020 := by decide
@[simp] theorem dataStart_eq : dataStart = 4120 := by decide

/-- One past the last cluster whose four sectors are on the disk. -/
def clusterLimit : ℕ := 130044

/-- The number of entries in one FAT copy; more than the data area has clusters. -/
def fatEntries : ℕ := 130560

/-- Where the first (`false`) or the second (`true`) FAT copy starts. -/
def fatBase (copy : Bool) : ℕ := if copy then 1587200 else 1064960

def InFat (x : ℕ) : Prop := 1064960 ≤ x ∧ x < 2109440

def clusterOffset (cluster : ℕ) : ℕ := 2109440+2048*(cluster-2)

def slotOffset (cluster k : ℕ) : ℕ := clusterOffset cluster+32*k

/-- The FAT entry of a cluster in one of the copies. -/
def entry (copy : Bool) (m : Memory) (cluster : ℕ) : ℕ := load 4 m (fatBase copy+4*cluster)

theorem getSector_fat1 {c : ℕ} (h : c < fatEntries) :
    getSector (fat1Sec c)+entOffset c = fatBase false+4*c := by
  simp only [getSector,fat1Sec,entOffset,fatBase,u32,sectorSize_eq,fatStart_eq,fatEntries,
    Bool.false_eq_true,if_false] at *
  omega

theorem getSector_fat2 {c : ℕ} (h : c < fatEntries) :
    getSector (fat2Sec c)+entOffset c = fatBase true+4*c := by
  simp only [getSector,fat2Sec,entOffset,fatBase,u32,sectorSize_eq,fatStart_eq,fatSize_eq,
    fatEntries,if_true] at *
  omega

theorem fatSec_bounds {c : ℕ} (h : c < fatEntries) :
    fatStart ≤ fat1Sec c ∧ fat1Sec c < fatStart+fatSize ∧
      fatStart+fatSize ≤ fat2Sec c ∧ fat2Sec c < dataStart := by
  simp only [fat1Sec,fat2Sec,u32,sectorSize_eq,fatStart_eq,fatSize_eq,dataStart_eq,
    fatEntries] at *
  omega

theorem clusterToLba_eq {c : ℕ} (h₂ : 2 ≤ c) (h : c < clusterLimit) :
    clusterToLba c = 4120+4*(c-2) := by
  simp only [clusterToLba,u32,dataStart_eq,secPerClus,clusterLimit] at *
  omega

theorem getSector_cluster {c s : ℕ} (h₂ : 2 ≤ c) (h : c < clusterLimit) (hs : s < 4) :
    getSector (u32 (clusterToLba c+s)) = clusterOffset c+512*s := by
  rw [clusterToLba_eq h₂ h]
  simp only [getSector,u32,clusterOffset,sectorSize_eq,clusterLimit] at *
  omega

theorem getSector_clusterToLba {c : ℕ} (h₂ : 2 ≤ c) (h : c < clusterLimit) :
    getSector (clusterToLba c) = clusterOffset c := by
  rw [clusterToLba_eq h₂ h]
  simp only [getSector,u32,clusterOffset,sectorSize_eq,clusterLimit] at *
  omega

/-! ### FAT entries -/

theorem mask_eq (v : ℕ) : v &&& 0x0FFFFFFF = v%268435456 := Nat.and_two_pow_sub_one_eq_mod v 28

theorem setFatEntry_disk {c : ℕ} (h : c < fatEntries) (v : ℕ) (g : Globals) :
    (fat32SetFatEntry c v g).disk =
      store 4 (store 4 g.disk (fatBase false+4*c) (v%268435456)) (fatBase true+4*c)
        (v%268435456) := by
  rw [fat32SetFatEntry]
  simp only [getSector_fat1 h,getSector_fat2 h,mask_eq]

theorem entry_setFatEntry {c : ℕ} (h : c < fatEntries) (v : ℕ) (g : Globals) (b : Bool)
    {d : ℕ} (hd : d < fatEntries) :
    entry b (fat32SetFatEntry c v g).disk d = if d = c then v%268435456 else entry b g.disk d := by
  have hv : v%268435456 < 256^4 := (Nat.mod_lt v (by decide)).trans (by decide)
  rw [setFatEntry_disk h,entry,entry]
  simp only [fatEntries] at h hd
  cases b with
  | false =>
      rw [load_store_outside (by simp only [fatBase,Bool.false_eq_true,if_true,if_false]; omega)]
      split_ifs with he
      · rw [he,load_store_of_lt _ _ hv]
      · rw [load_store_outside (by omega)]
  | true =>
      split_ifs with he
      · rw [he,load_store_of_lt _ _ hv]
      · rw [load_store_outside (by omega),
          load_store_outside (by simp only [fatBase,Bool.false_eq_true,if_true,if_false]; omega)]

theorem setFatEntry_frame {c : ℕ} (h : c < fatEntries) (v : ℕ) (g : Globals) {x : ℕ}
    (hx : ¬InFat x) : (fat32SetFatEntry c v g).disk x = g.disk x := by
  rw [setFatEntry_disk h]
  simp only [InFat,fatEntries] at hx h
  rw [store,blit_outside (by simp only [fatBase,if_true]; omega),store,
    blit_outside (by simp only [fatBase,Bool.false_eq_true,if_false]; omega)]

/-- Entries are bytes of the two tables only. -/
theorem entry_congr {m m' : Memory} (h : ∀ x, InFat x → m' x = m x) (b : Bool) {c : ℕ}
    (hc : c < fatEntries) : entry b m' c = entry b m c := by
  apply load_congr
  intro i hi
  apply h
  simp only [InFat,fatEntries] at *
  cases b <;> simp only [fatBase,Bool.false_eq_true,if_true,if_false] <;> omega

theorem not_inFat_cluster {x : ℕ} (h : 2109440 ≤ x) : ¬InFat x := by
  unfold InFat
  omega

/-! ### Where a step may write -/

/-- Sectors visited and entries set since `g`, all of them inside the disk. -/
structure Visits (g g' : Globals) (limit : ℕ) : Prop where
  sectors : ∀ s ∈ g'.sectors, s ∈ g.sectors ∨ (fatStart ≤ s ∧ s < totalSectors)
  entries : ∀ c ∈ g'.entries, c ∈ g.entries ∨ c < limit

theorem Visits.refl (g : Globals) (limit : ℕ) : Visits g g limit :=
  ⟨fun _ h => .inl h,fun _ h => .inl h⟩

theorem Visits.trans {g g' g'' : Globals} {limit limit' : ℕ} (h : Visits g g' limit)
    (h' : Visits g' g'' limit') (hl : limit ≤ limit') : Visits g g'' limit' := by
  constructor
  · intro s hs
    exact (h'.sectors s hs).elim (h.sectors s) .inr
  · intro c hc
    rcases h'.entries c hc with hc | hc
    · exact (h.entries c hc).imp_right fun hc => hc.trans_le hl
    · exact .inr hc

theorem visits_sector {g g' : Globals} {s : ℕ} (hs : g'.sectors = s::g.sectors)
    (he : g'.entries = g.entries) (h₁ : fatStart ≤ s) (h₂ : s < totalSectors) (limit : ℕ) :
    Visits g g' limit := by
  refine ⟨?_,fun c hc => .inl (he ▸ hc)⟩
  intro t ht
  rw [hs] at ht
  rcases List.mem_cons.mp ht with rfl | ht
  · exact .inr ⟨h₁,h₂⟩
  · exact .inl ht

theorem visits_setFatEntry {c limit : ℕ} (h : c < fatEntries) (hl : c < limit) (v : ℕ)
    (g : Globals) : Visits g (fat32SetFatEntry c v g) limit := by
  have hb := fatSec_bounds h
  simp only [fatStart_eq,fatSize_eq,dataStart_eq] at hb
  constructor
  · intro s hs
    simp only [fat32SetFatEntry,List.mem_cons] at hs
    simp only [fatStart_eq,totalSectors_eq]
    rcases hs with rfl | rfl | hs
    · exact .inr (by omega)
    · exact .inr (by omega)
    · exact .inl hs
  · intro d hd
    simp only [fat32SetFatEntry,List.mem_cons] at hd
    rcases hd with rfl | hd
    · exact .inr hl
    · exact .inl hd

/-! ### Clusters laid down by one call -/

/-- The effect of storing `n` clusters from `first` on: they form one chain,
they hold `content`, and nothing else changes outside the two tables. -/
structure Stored (g g' : Globals) (first n : ℕ) (content : Memory) : Prop where
  next : g'.nextFreeClus = first+n
  entry : ∀ b d, d < fatEntries → entry b g'.disk d =
    if first ≤ d ∧ d < first+n then (if d+1 = first+n then endOfChain else d+1)
    else entry b g.disk d
  bytes : ∀ x, ¬InFat x → g'.disk x =
    if clusterOffset first ≤ x ∧ x < clusterOffset first+2048*n then content (x-clusterOffset first)
    else g.disk x
  visits : Visits g g' (first+n)

@[simp] theorem allocateCluster_fst (g : Globals) : (allocateCluster g).1 = g.nextFreeClus := by
  simp only [allocateCluster]

theorem allocateCluster_spec {g : Globals} (h₂ : 2 ≤ g.nextFreeClus)
    (h : g.nextFreeClus < clusterLimit) :
    Stored g (allocateCluster g).2 g.nextFreeClus 1 fun _ => 0 := by
  have hf : g.nextFreeClus < fatEntries := h.trans (by decide)
  have hlba := clusterToLba_eq h₂ h
  have hlim : g.nextFreeClus < 130044 := h
  have hfill : ∀ x, InFat x → (allocateCluster g).2.disk x =
      (fat32SetFatEntry g.nextFreeClus endOfChain g).disk x := by
    intro x hx
    simp only [allocateCluster,Globals.visit,getSector_clusterToLba h₂ h]
    rw [fill_outside (by simp only [InFat,clusterOffset] at *; omega)]
    rfl
  refine ⟨?_,?_,?_,?_⟩
  · show u32 (g.nextFreeClus+1) = g.nextFreeClus+1
    exact u32_of_lt (by omega)
  · intro b d hd
    rw [entry_congr hfill b hd,entry_setFatEntry hf endOfChain g b hd]
    split_ifs <;> first | rfl | omega
  · intro x hx
    simp only [allocateCluster,Globals.visit,getSector_clusterToLba h₂ h,secPerClus,sectorSize_eq]
    split_ifs with hin
    · exact fill_inside hin.1 (by omega)
    · rw [fill_outside (by omega)]
      exact setFatEntry_frame hf endOfChain _ hx
  · have h₁ : Visits g (fat32SetFatEntry g.nextFreeClus endOfChain g) (g.nextFreeClus+1) :=
      visits_setFatEntry hf (by omega) endOfChain g
    have h₂ : Visits (fat32SetFatEntry g.nextFreeClus endOfChain g) (allocateCluster g).2
        (g.nextFreeClus+1) := by
      refine visits_sector (s := clusterToLba g.nextFreeClus) ?_ ?_ ?_ ?_ _
      · simp only [allocateCluster,Globals.visit,fat32SetFatEntry]
      · simp only [allocateCluster,Globals.visit,fat32SetFatEntry]
      · rw [hlba,fatStart_eq]; omega
      · rw [hlba,totalSectors_eq]; omega
    exact h₁.trans h₂ le_rfl

/-- What a file's clusters hold: its data, then zeros; nothing for a null pointer. -/
def fileBytes (data : Option Memory) (size : ℕ) : Memory := fun j =>
  match data with
  | none => 0
  | some d => if j < size then d j else 0

theorem fileBytes_past {data : Option Memory} {size j : ℕ} (h : size ≤ j) :
    fileBytes data size j = 0 := by
  cases data with
  | none => rfl
  | some d => exact if_neg (by omega)

/-- The cursor of the copy loop before cluster `i` of the file. -/
def AtCluster (data : Option Memory) (size i : ℕ) (l : FileLoop) : Prop :=
  match data with
  | none => True
  | some _ => l.src = min size (2048*i) ∧ l.remaining = size-min size (2048*i)

/-- One copy fills one zeroed cluster with the file's next bytes. -/
structure Copied (data : Option Memory) (size i c : ℕ) (g : Globals) (r : FileLoop × Globals) :
    Prop where
  cursor : AtCluster data size (i+1) r.1
  next : r.2.nextFreeClus = g.nextFreeClus
  frame : ∀ x, x < clusterOffset c ∨ clusterOffset c+2048 ≤ x → r.2.disk x = g.disk x
  bytes : (∀ j < 2048, g.disk (clusterOffset c+j) = 0) →
    ∀ j < 2048, r.2.disk (clusterOffset c+j) = fileBytes data size (2048*i+j)
  visits : Visits g r.2 0

theorem copyCluster_length (l : FileLoop) :
    (if l.remaining > secPerClus*sectorSize then secPerClus*sectorSize else l.remaining) =
      min l.remaining 2048 := by
  have h4 : secPerClus*sectorSize = 2048 := rfl
  rw [h4]
  split_ifs <;> omega

/-- A cluster of which some bytes remain to be copied. -/
theorem copyCluster_copies {d : Memory} {c : ℕ} {l : FileLoop} (g : Globals) (h₂ : 2 ≤ c)
    (h : c < clusterLimit) (hpos : min l.remaining 2048 > 0) :
    copyCluster (some d) c l g =
      ({l with src := l.src+min l.remaining 2048, remaining := l.remaining-min l.remaining 2048},
        {g with
          disk := blit g.disk (clusterOffset c) (min l.remaining 2048) fun i => d (l.src+i)
          sectors := clusterToLba c::g.sectors}) := by
  simp only [copyCluster,copyCluster_length,if_pos hpos,Globals.visit,getSector_clusterToLba h₂ h]

theorem copyCluster_done {d : Memory} {c : ℕ} {l : FileLoop} (g : Globals)
    (hpos : ¬min l.remaining 2048 > 0) : copyCluster (some d) c l g = (l,g) := by
  simp only [copyCluster,copyCluster_length,if_neg hpos]

theorem copyCluster_spec {data : Option Memory} {size i c : ℕ} {l : FileLoop} (g : Globals)
    (hl : AtCluster data size i l) (h₂ : 2 ≤ c) (h : c < clusterLimit) :
    Copied data size i c g (copyCluster data c l g) ∧
      (copyCluster data c l g).1.firstClus = l.firstClus := by
  cases data with
  | none =>
      refine ⟨⟨trivial,rfl,fun _ _ => rfl,?_,Visits.refl g 0⟩,rfl⟩
      intro hz j hj
      exact hz j hj
  | some d =>
      obtain ⟨hs,hr⟩ := hl
      have hlba := clusterToLba_eq h₂ h
      have hlim : c < 130044 := h
      by_cases hpos : min l.remaining 2048 > 0
      · rw [copyCluster_copies g h₂ h hpos]
        refine ⟨⟨⟨?_,?_⟩,rfl,?_,?_,?_⟩,rfl⟩
        · dsimp only; omega
        · dsimp only; omega
        · intro x hx
          dsimp only
          rw [blit_outside (by omega)]
        · intro hz j hj
          simp only [fileBytes]
          by_cases hin : j < l.remaining
          · rw [blit_at (by omega),if_pos (by omega),show l.src+j = 2048*i+j by omega]
          · rw [blit_outside (by omega),if_neg (by omega)]
            exact hz j hj
        · refine visits_sector (s := clusterToLba c) ?_ ?_ ?_ ?_ _
          · rfl
          · rfl
          · rw [hlba,fatStart_eq]; omega
          · rw [hlba,totalSectors_eq]; omega
      · rw [copyCluster_done g hpos]
        refine ⟨⟨⟨?_,?_⟩,rfl,fun _ _ => rfl,?_,Visits.refl g 0⟩,rfl⟩
        · dsimp only; omega
        · dsimp only; omega
        · intro hz j hj
          simp only [fileBytes]
          rw [if_neg (by omega)]
          exact hz j hj

/-! ### The cluster loop of `write_file_data` -/

/-- Loop invariant: `i` clusters from `first` hold the file so far, chained and
closed, and the cursor and the two remembered clusters are where they belong. -/
structure Writing (data : Option Memory) (size : ℕ) (g₀ : Globals) (i : ℕ) (l : FileLoop)
    (g : Globals) : Prop where
  stored : Stored g₀ g g₀.nextFreeClus i (fileBytes data size)
  cursor : AtCluster data size i l
  first : 0 < i → l.firstClus = g₀.nextFreeClus
  prev : 0 < i → l.prevClus+1 = g₀.nextFreeClus+i

theorem writing_start (data : Option Memory) (size : ℕ) (g : Globals) :
    Writing data size g 0 ⟨0,0,0,size⟩ g := by
  refine ⟨⟨rfl,?_,?_,Visits.refl g _⟩,?_,by omega,by omega⟩
  · intro b d _
    rw [if_neg (by omega)]
  · intro x _
    rw [if_neg (by omega)]
  · cases data with
    | none => trivial
    | some d => exact ⟨by simp,by simp⟩

/-- The link to the cluster before, when there is one: one entry of the two tables. -/
structure Linked (g : Globals) (i clus : ℕ) (g₁ : Globals) : Prop where
  next : g₁.nextFreeClus = g.nextFreeClus
  frame : ∀ x, ¬InFat x → g₁.disk x = g.disk x
  entry : ∀ b d, d < fatEntries → entry b g₁.disk d =
    if 0 < i ∧ d+1 = clus then d+1 else entry b g.disk d
  visits : Visits g g₁ (clus+1)

theorem linked_previous {i prev clus : ℕ} (g : Globals) (hp : 0 < i → prev+1 = clus)
    (hc : clus < clusterLimit) :
    Linked g i clus (if i = 0 then g else fat32SetFatEntry prev clus g) := by
  have hlim : clus < 130044 := hc
  by_cases hi : i = 0
  · rw [if_pos hi]
    refine ⟨rfl,fun _ _ => rfl,?_,Visits.refl g (clus+1)⟩
    intro b d _
    rw [if_neg (by omega)]
  · have hprev := hp (by omega)
    have hf : prev < fatEntries := by
      unfold fatEntries
      omega
    rw [if_neg hi]
    refine ⟨rfl,fun x hx => setFatEntry_frame hf clus g hx,?_,?_⟩
    · intro b d hd
      rw [entry_setFatEntry hf clus g b hd]
      split_ifs <;> omega
    · exact visits_setFatEntry hf (by omega) clus g

/-- One pass of the loop: allocate, link the previous cluster, copy. -/
theorem writing_step {data : Option Memory} {size i : ℕ} {g₀ g : Globals} {l : FileLoop}
    (h : Writing data size g₀ i l g) (h₂ : 2 ≤ g₀.nextFreeClus)
    (hlim : g₀.nextFreeClus+i < clusterLimit) :
    let a := allocateCluster g
    let l₁ := if i = 0 then {l with firstClus := a.1} else l
    let g₁ := if i = 0 then a.2 else fat32SetFatEntry l.prevClus a.1 a.2
    let c := copyCluster data a.1 l₁ g₁
    Writing data size g₀ (i+1) {c.1 with prevClus := a.1} c.2 := by
  intro a l₁ g₁ c
  have hn : g.nextFreeClus = g₀.nextFreeClus+i := h.stored.next
  have ha : Stored g a.2 (g₀.nextFreeClus+i) 1 fun _ => 0 := by
    have := allocateCluster_spec (g := g) (by omega) (by omega)
    rwa [hn] at this
  have ha₁ : a.1 = g₀.nextFreeClus+i := hn
  have hlink : Linked a.2 i a.1 g₁ :=
    linked_previous a.2 (fun hi => (h.prev hi).trans ha₁.symm) (by omega)
  have hl₁ : AtCluster data size i l₁ ∧ l₁.firstClus = g₀.nextFreeClus := by
    have hc := h.cursor
    by_cases hi : i = 0
    · simp only [l₁,if_pos hi]
      refine ⟨?_,by omega⟩
      cases data with
      | none => trivial
      | some d => exact hc
    · simp only [l₁,if_neg hi]
      exact ⟨hc,h.first (by omega)⟩
  obtain ⟨hc,hfirst⟩ := copyCluster_spec g₁ hl₁.1 (c := a.1) (by omega) (by omega)
  have hoff : clusterOffset a.1 = clusterOffset g₀.nextFreeClus+2048*i := by
    rw [ha₁]
    unfold clusterOffset
    omega
  have hbase : 2109440 ≤ clusterOffset g₀.nextFreeClus := by
    unfold clusterOffset
    omega
  have hcopied : ∀ j < 2048, c.2.disk (clusterOffset a.1+j) = fileBytes data size (2048*i+j) := by
    apply hc.bytes
    intro j hj
    have hx : ¬InFat (clusterOffset a.1+j) := not_inFat_cluster (by omega)
    rw [hlink.frame _ hx,ha.bytes _ hx,if_pos ⟨by rw [← ha₁]; omega,by rw [← ha₁]; omega⟩]
  refine ⟨⟨?_,?_,?_,?_⟩,hc.cursor,fun _ => hfirst.trans hl₁.2,fun _ => by dsimp only; omega⟩
  · rw [hc.next,hlink.next,ha.next]
    omega
  · intro b d hd
    have hframe : ∀ x, InFat x → c.2.disk x = g₁.disk x := by
      intro x hx
      apply hc.frame
      unfold InFat at hx
      omega
    rw [entry_congr hframe b hd,hlink.entry b d hd,ha.entry b d hd,h.stored.entry b d hd]
    split_ifs <;> omega
  · intro x hx
    by_cases hin : clusterOffset a.1 ≤ x ∧ x < clusterOffset a.1+2048
    · have := hcopied (x-clusterOffset a.1) (by omega)
      rw [show clusterOffset a.1+(x-clusterOffset a.1) = x by omega] at this
      rw [this,if_pos (by omega)]
      congr 1
      omega
    · rw [hc.frame x (by omega),hlink.frame x hx,ha.bytes x hx,if_neg (by rw [← ha₁]; omega),
        h.stored.bytes x hx]
      split_ifs <;> first | rfl | omega
  · have hcopy := hc.visits.trans (Visits.refl _ (g₀.nextFreeClus+(i+1))) (by omega)
    have hpass := (ha.visits.trans hlink.visits (by omega)).trans hcopy (by omega)
    exact h.stored.visits.trans hpass (by omega)

theorem writing_run {data : Option Memory} {size : ℕ} (n : ℕ) {i : ℕ} {g₀ g : Globals}
    {l : FileLoop} (h : Writing data size g₀ i l g) (h₂ : 2 ≤ g₀.nextFreeClus)
    (hlim : g₀.nextFreeClus+(i+n) ≤ clusterLimit) :
    Writing data size g₀ (i+n) (writeClusters data n i l g).1 (writeClusters data n i l g).2 := by
  induction n generalizing i l g with
  | zero => exact h
  | succ n ih =>
      have hs := ih (writing_step h h₂ (by omega)) (by omega)
      rw [show i+1+n = i+(n+1) by omega] at hs
      exact hs

theorem numClusters_pos (size : ℕ) : 0 < numClusters size := by
  simp only [numClusters]
  split_ifs with h
  · exact Nat.one_pos
  · exact Nat.pos_of_ne_zero h

/-- Without a wrap in the rounding the loop runs `max(1, ceil(size/2048))` times. -/
theorem numClusters_eq {size : ℕ} (h : size+2047 < 4294967296) :
    numClusters size = max 1 ((size+2047)/2048) := by
  have h4 : secPerClus*sectorSize = 2048 := rfl
  simp only [numClusters,h4]
  rw [u32_of_lt (by omega),show size+2048-1 = size+2047 by omega]
  split_ifs <;> omega

/-- Everything `write_file_data` does before it lists the file: the last entry
is closed once more, which changes nothing. -/
theorem writeClusters_spec (data : Option Memory) {size : ℕ} {g : Globals}
    (h₂ : 2 ≤ g.nextFreeClus) (hlim : g.nextFreeClus+numClusters size ≤ clusterLimit) :
    let w := writeClusters data (numClusters size) 0 ⟨0,0,0,size⟩ g
    w.1.firstClus = g.nextFreeClus ∧
      Stored g (fat32SetFatEntry w.1.prevClus endOfChain w.2) g.nextFreeClus (numClusters size)
        (fileBytes data size) := by
  intro w
  have hw : Writing data size g (numClusters size) w.1 w.2 := by
    have := writing_run (numClusters size) (writing_start data size g) h₂
      (by rwa [Nat.zero_add])
    rwa [Nat.zero_add] at this
  have hpos := numClusters_pos size
  have hp := hw.prev hpos
  have hlim' : g.nextFreeClus+numClusters size ≤ 130044 := hlim
  have hf : w.1.prevClus < fatEntries := by simp only [fatEntries]; omega
  refine ⟨hw.first hpos,?_,?_,?_,?_⟩
  · exact hw.stored.next
  · intro b d hd
    rw [entry_setFatEntry hf endOfChain _ b hd,hw.stored.entry b d hd]
    simp only [endOfChain]
    split_ifs <;> omega
  · intro x hx
    rw [setFatEntry_frame hf endOfChain _ hx,hw.stored.bytes x hx]
  · exact hw.stored.visits.trans (visits_setFatEntry hf (by omega) endOfChain _) le_rfl

/-! ### Directory entries -/

/-- What a directory slot at `a` says. -/
structure HoldsEntry (m : Memory) (a : ℕ) (name : CString) (attr clus size : ℕ) : Prop where
  name : ∀ i < 11, m (a+i) = entryName name i
  attr : load 1 m (a+11) = attr%256
  hi : load 2 m (a+20) = (clus >>> 16)%65536
  lo : load 2 m (a+26) = clus%65536
  size : load 4 m (a+28) = size%4294967296

theorem HoldsEntry.congr {m m' : Memory} {a : ℕ} {name : CString} {attr clus size : ℕ}
    (h : HoldsEntry m a name attr clus size) (he : ∀ i < 32, m' (a+i) = m (a+i)) :
    HoldsEntry m' a name attr clus size := by
  have hl : ∀ {w k : ℕ}, k+w ≤ 32 → load w m' (a+k) = load w m (a+k) := by
    intro w k hk
    apply load_congr
    intro i hi
    rw [Nat.add_assoc]
    exact he (k+i) (by omega)
  refine ⟨?_,?_,?_,?_,?_⟩
  · intro i hi
    rw [he i (by omega)]
    exact h.name i hi
  · rw [hl (by omega)]
    exact h.attr
  · rw [hl (by omega)]
    exact h.hi
  · rw [hl (by omega)]
    exact h.lo
  · rw [hl (by omega)]
    exact h.size

theorem writeDirEntry_holds (m : Memory) (a : ℕ) (name : CString) (attr clus size : ℕ) :
    HoldsEntry (writeDirEntry m a name attr clus size) a name attr clus size := by
  have hlo : clus &&& 0xFFFF = clus%65536 := Nat.and_two_pow_sub_one_eq_mod clus 16
  unfold writeDirEntry
  refine ⟨?_,?_,?_,?_,?_⟩
  · intro i hi
    simp (disch := omega) only [store,blit_outside]
    by_cases h8 : i < 8
    · rw [blit_outside (by omega),blit_at h8,entryName]
      simp only [if_pos h8]
    · rw [show a+i = a+8+(i-8) by omega,blit_at (by omega),entryName]
      simp only [if_neg h8]
  · simp (disch := omega) only [load_store_outside]
    exact load_store 1 _ _ _
  · simp (disch := omega) only [load_store_outside]
    exact load_store 2 _ _ _
  · simp (disch := omega) only [load_store_outside]
    rw [load_store,hlo]
    exact Nat.mod_mod clus 65536
  · simp (disch := omega) only [load_store_outside]
    exact load_store 4 _ _ _

theorem writeDirEntry_frame {m : Memory} {a x : ℕ} (name : CString) (attr clus size : ℕ)
    (hx : x < a ∨ a+32 ≤ x) : writeDirEntry m a name attr clus size x = m x := by
  unfold writeDirEntry
  simp (disch := omega) only [store,blit_outside]

/-- The slot `add_dir_entry` takes: the first free one of the cluster's 64. -/
def firstFree (m : Memory) (dirClus : ℕ) : Option ℕ :=
  (List.range 64).find? fun k => slotFree (m (slotOffset dirClus k))

/-- Slots are searched in order across the sectors of the cluster. -/
theorem addDirEntryFrom_spec {d : ℕ} (h₂ : 2 ≤ d) (h : d < clusterLimit) (name : CString)
    (attr clus size n s : ℕ) (hs : s+n = 4) (g : Globals) :
    ∃ vis : List ℕ, (∀ v ∈ vis, fatStart ≤ v ∧ v < totalSectors) ∧
      addDirEntryFrom (clusterToLba d) name attr clus size n s g =
        match (List.range' (16*s) (16*n)).find? fun k => slotFree (g.disk (slotOffset d k)) with
        | none => (-1,{g with sectors := vis++g.sectors})
        | some k => (0,{g with
            disk := writeDirEntry g.disk (slotOffset d k) name attr clus size
            sectors := vis++g.sectors}) := by
  induction n generalizing s g with
  | zero => exact ⟨[],by simp,rfl⟩
  | succ n ih =>
      have hlim : d < 130044 := h
      have hlba : fatStart ≤ u32 (clusterToLba d+s) ∧ u32 (clusterToLba d+s) < totalSectors := by
        rw [clusterToLba_eq h₂ h,u32_of_lt (by omega),fatStart_eq,totalSectors_eq]
        omega
      have hsplit : List.range' (16*s) (16*(n+1)) =
          (List.range 16).map (16*s+·)++List.range' (16*(s+1)) (16*n) := by
        rw [← List.range'_eq_map_range,Nat.mul_succ 16 n,Nat.add_comm (16*n),
          ← List.range'_append_1,Nat.mul_succ]
      have hoff : ∀ e, getSector (u32 (clusterToLba d+s))+32*e = slotOffset d (16*s+e) := by
        intro e
        rw [getSector_cluster h₂ h (by omega),slotOffset]
        omega
      rw [hsplit,List.find?_append,List.find?_map,addDirEntryFrom]
      simp only [hoff,Globals.visit,sectorSize_eq,show 512/32 = 16 from rfl]
      cases hf : (List.range 16).find? fun e => slotFree (g.disk (slotOffset d (16*s+e))) with
      | some e =>
          refine ⟨[u32 (clusterToLba d+s)],by simpa using hlba,?_⟩
          have hf' : (List.range 16).find? ((fun k => slotFree (g.disk (slotOffset d k))) ∘
              (16*s+·)) = some e := hf
          rw [hf']
          rfl
      | none =>
          obtain ⟨vis,hv,he⟩ := ih (s+1) (by omega) (g.visit (u32 (clusterToLba d+s)))
          have hf' : (List.range 16).find? ((fun k => slotFree (g.disk (slotOffset d k))) ∘
              (16*s+·)) = none := hf
          refine ⟨vis++[u32 (clusterToLba d+s)],?_,?_⟩
          · intro v hv'
            rcases List.mem_append.mp hv' with hv' | hv'
            · exact hv v hv'
            · rw [List.mem_singleton.mp hv']
              exact hlba
          · rw [hf']
            simp only [Option.map_none,Option.none_or,List.append_assoc,List.singleton_append]
            exact he

theorem addDirEntry_spec {d : ℕ} (h₂ : 2 ≤ d) (h : d < clusterLimit) (name : CString)
    (attr clus size : ℕ) (g : Globals) :
    ∃ vis : List ℕ, (∀ v ∈ vis, fatStart ≤ v ∧ v < totalSectors) ∧
      addDirEntry d name attr clus size g =
        match firstFree g.disk d with
        | none => (-1,{g with sectors := vis++g.sectors})
        | some k => (0,{g with
            disk := writeDirEntry g.disk (slotOffset d k) name attr clus size
            sectors := vis++g.sectors}) := by
  obtain ⟨vis,hv,he⟩ := addDirEntryFrom_spec h₂ h name attr clus size 4 0 rfl g
  refine ⟨vis,hv,?_⟩
  rw [firstFree,List.range_eq_range',addDirEntry]
  exact he

end Gemiboot.Mkdisk
