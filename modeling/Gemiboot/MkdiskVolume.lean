import Gemiboot.MkdiskSteps
import Gemiboot.LinkedChains

/-!
# The volume a run of the builder describes

A volume lists the files and directories made so far, latest first, each with
the clusters it was given. It cannot be built any other way than by admissible
calls: the parent is a directory of the volume, the clusters fit on the disk,
and the parent has a slot left. `Represents` says that a disk buffer is this
volume: chains, contents, directory slots, and untouched bytes elsewhere.
-/
namespace Gemiboot.Mkdisk
open ByteMemory ShortNames LinkedChains

inductive Kind where
  | file (data : Option Memory) (size : ℕ)
  | directory

def Kind.isDirectory : Kind → Bool
  | .file _ _ => false
  | .directory => true

/-- The clusters an object needs; a file without data still gets one. -/
def Kind.clusters : Kind → ℕ
  | .file _ size => max 1 ((size+2047)/2048)
  | .directory => 1

theorem Kind.clusters_pos (k : Kind) : 0 < k.clusters := by
  cases k <;> simp [Kind.clusters]

theorem Kind.cases (k : Kind) : (∃ data size, k = .file data size) ∨ k = .directory := by
  cases k with
  | file data size => exact .inl ⟨data,size,rfl⟩
  | directory => exact .inr rfl

/-- A call of `write_file_data` or `create_directory`. -/
structure Call where
  parentClus : ℕ
  name : CString
  kind : Kind

def Call.perform (c : Call) (g : Globals) : ℕ × Globals :=
  match c.kind with
  | .file data size => writeFileData c.parentClus c.name data size g
  | .directory => createDirectory c.parentClus c.name g

def performAll : List Call → Globals → Globals
  | [],g => g
  | c::cs,g => performAll cs (c.perform g).2

structure Object extends Call where
  first : ℕ

/-- What one directory slot lists. -/
structure Listing where
  name : CString
  attr : ℕ
  clus : ℕ
  size : ℕ

/-- Not mistaken for an unused or deleted slot. -/
def Live (name : CString) : Prop := name.chars.head? ≠ some 0xE5

def Object.listing (o : Object) : Listing :=
  match o.kind with
  | .file _ size => ⟨o.name,attrArchive,o.first,size⟩
  | .directory => ⟨o.name,attrDirectory,o.first,0⟩

/-- The two entries a new directory starts with. -/
def Object.dots (o : Object) : List Listing :=
  [⟨dotName,attrDirectory,o.first,0⟩,
    ⟨dotDotName,attrDirectory,if o.parentClus = rootClus then 0 else o.parentClus,0⟩]

/-- `add_dir_entry` for what a listing says. -/
def addListing (dirClus : ℕ) (e : Listing) (g : Globals) : Globals :=
  (addDirEntry dirClus e.name e.attr e.clus e.size g).2

theorem addListing_mk (dirClus : ℕ) (name : CString) (attr clus size : ℕ) (g : Globals) :
    (addDirEntry dirClus name attr clus size g).2 =
      addListing dirClus ⟨name,attr,clus,size⟩ g := by
  rw [addListing]

theorem writeFileData_eq (parentClus : ℕ) (name : CString) (data : Option Memory) (size : ℕ)
    (g : Globals) : writeFileData parentClus name data size g =
      let w := writeClusters data (numClusters size) 0 ⟨0,0,0,size⟩ g
      (w.1.firstClus,addListing parentClus ⟨name,attrArchive,w.1.firstClus,size⟩
        (fat32SetFatEntry w.1.prevClus endOfChain w.2)) := by
  simp only [writeFileData,addListing_mk]

theorem createDirectory_eq (parentClus : ℕ) (name : CString) (g : Globals) :
    createDirectory parentClus name g =
      let clus := g.nextFreeClus
      let up := if parentClus = rootClus then 0 else parentClus
      (clus,addListing clus ⟨dotDotName,attrDirectory,up,0⟩
        (addListing clus ⟨dotName,attrDirectory,clus,0⟩
          (addListing parentClus ⟨name,attrDirectory,clus,0⟩ (allocateCluster g).2))) := by
  simp only [createDirectory,addListing_mk,allocateCluster_fst]

def directories : List Object → List ℕ
  | [] => [rootClus]
  | o::os => if o.kind.isDirectory then o.first::directories os else directories os

/-- The slots of the directory at cluster `d`, in the order they were taken. -/
def listings : List Object → ℕ → List Listing
  | [],_ => []
  | o::os,d =>
      listings os d++(if o.kind.isDirectory ∧ o.first = d then o.dots else [])++
        (if o.parentClus = d then [o.listing] else [])

/-- Objects take consecutive clusters from 3 on, inside directories made before. -/
def Tiled : List Object → ℕ → Prop
  | [],n => n = 3
  | o::os,n => n = o.first+o.kind.clusters ∧ o.parentClus ∈ directories os ∧ Tiled os o.first

structure Volume where
  next : ℕ
  objects : List Object
  tiled : Tiled objects next

def emptyVolume : Volume := ⟨3,[],rfl⟩

def Volume.Admits (v : Volume) (c : Call) : Prop :=
  c.parentClus ∈ directories v.objects ∧ v.next+c.kind.clusters ≤ clusterLimit ∧
    (listings v.objects c.parentClus).length < 64

instance (v : Volume) (c : Call) : Decidable (v.Admits c) :=
  inferInstanceAs (Decidable (_ ∧ _ ∧ _))

def Volume.place (v : Volume) (c : Call) (h : c.parentClus ∈ directories v.objects) : Volume :=
  ⟨v.next+c.kind.clusters,⟨c,v.next⟩::v.objects,rfl,h,v.tiled⟩

/-- The volume after a list of calls, when every one of them is admissible. -/
def Volume.run : Volume → List Call → Option Volume
  | v,[] => some v
  | v,c::cs => if h : v.Admits c then (v.place c h.1).run cs else none

/-! ### Arithmetic of a tiled volume -/

theorem Tiled.le {os : List Object} {n : ℕ} (h : Tiled os n) : 3 ≤ n := by
  induction os generalizing n with
  | nil => exact h.ge
  | cons o os ih =>
      have := ih h.2.2
      have := h.1
      omega

theorem Tiled.bounds {os : List Object} {n : ℕ} (h : Tiled os n) {o : Object} (ho : o ∈ os) :
    3 ≤ o.first ∧ o.first+o.kind.clusters ≤ n := by
  induction os generalizing n with
  | nil => simp at ho
  | cons p os ih =>
      have hn := h.1
      rcases List.mem_cons.mp ho with rfl | ho
      · exact ⟨h.2.2.le,by omega⟩
      · have := ih h.2.2 ho
        omega

/-- Every cluster from 3 on belongs to some object. -/
theorem Tiled.cover {os : List Object} {n : ℕ} (h : Tiled os n) {d : ℕ} (h₃ : 3 ≤ d)
    (hd : d < n) : ∃ o ∈ os, o.first ≤ d ∧ d < o.first+o.kind.clusters := by
  induction os generalizing n with
  | nil => exact absurd hd (by rw [show n = 3 from h]; omega)
  | cons o os ih =>
      have hn := h.1
      by_cases ho : o.first ≤ d
      · exact ⟨o,List.mem_cons_self,ho,by omega⟩
      · obtain ⟨p,hp,hpd⟩ := ih h.2.2 (by omega)
        exact ⟨p,List.mem_cons_of_mem _ hp,hpd⟩

/-- Two objects that share a cluster are the same object. -/
theorem Tiled.disjoint {os : List Object} {n : ℕ} (h : Tiled os n) :
    os.Pairwise fun o p => p.first+p.kind.clusters ≤ o.first := by
  induction os generalizing n with
  | nil => exact .nil
  | cons o os ih => exact .cons (fun p hp => (h.2.2.bounds hp).2) (ih h.2.2)

theorem mem_directories {os : List Object} {d : ℕ} : d ∈ directories os ↔
    d = rootClus ∨ ∃ o ∈ os, o.kind.isDirectory ∧ o.first = d := by
  induction os with
  | nil => simp [directories]
  | cons o os ih =>
      rw [directories]
      split_ifs with ho
      · rw [List.mem_cons,ih]
        constructor
        · rintro (rfl | hr | ⟨p,hp,hk⟩)
          · exact .inr ⟨o,List.mem_cons_self,ho,rfl⟩
          · exact .inl hr
          · exact .inr ⟨p,List.mem_cons_of_mem _ hp,hk⟩
        · rintro (hr | ⟨p,hp,hk⟩)
          · exact .inr (.inl hr)
          · rcases List.mem_cons.mp hp with rfl | hp
            · exact .inl hk.2.symm
            · exact .inr (.inr ⟨p,hp,hk⟩)
      · rw [ih]
        constructor
        · rintro (hr | ⟨p,hp,hk⟩)
          · exact .inl hr
          · exact .inr ⟨p,List.mem_cons_of_mem _ hp,hk⟩
        · rintro (hr | ⟨p,hp,hk⟩)
          · exact .inl hr
          · rcases List.mem_cons.mp hp with rfl | hp
            · exact absurd hk.1 ho
            · exact .inr ⟨p,hp,hk⟩

theorem Tiled.directory_bounds {os : List Object} {n : ℕ} (h : Tiled os n) {d : ℕ}
    (hd : d ∈ directories os) : 2 ≤ d ∧ d < n := by
  rcases mem_directories.mp hd with rfl | ⟨o,ho,_,rfl⟩
  · have := h.le
    simp only [rootClus]
    omega
  · have := h.bounds ho
    have := o.kind.clusters_pos
    omega

/-- A directory cluster is not a cluster of any file. -/
theorem Tiled.directory_not_file {os : List Object} {n : ℕ} (h : Tiled os n) {o : Object}
    (ho : o ∈ os) (hf : o.kind.isDirectory = false) {d : ℕ} (hd : d ∈ directories os) :
    d < o.first ∨ o.first+o.kind.clusters ≤ d := by
  have hb := h.bounds ho
  rcases mem_directories.mp hd with rfl | ⟨p,hp,hk,rfl⟩
  · simp only [rootClus]
    omega
  · have hne : o ≠ p := by
      rintro rfl
      simp [hf] at hk
    have hpos := p.kind.clusters_pos
    have hdis : ∀ q ∈ os, ∀ r ∈ os, q ≠ r →
        q.first+q.kind.clusters ≤ r.first ∨ r.first+r.kind.clusters ≤ q.first := by
      intro q hq r hr
      exact List.Pairwise.forall_of_forall_of_flip
        (R := fun q r => q ≠ r → q.first+q.kind.clusters ≤ r.first ∨
          r.first+r.kind.clusters ≤ q.first)
        (fun _ _ hn => absurd rfl hn)
        (h.disjoint.imp fun hqr _ => .inr hqr)
        (h.disjoint.imp fun hqr _ => .inl hqr) hq hr
    rcases hdis o ho p hp hne with h' | h' <;> omega

/-- Nothing is listed in a cluster that has not been handed out. -/
theorem Tiled.listings_nil {os : List Object} {n : ℕ} (h : Tiled os n) {d : ℕ} (hd : n ≤ d) :
    listings os d = [] := by
  induction os generalizing n with
  | nil => rfl
  | cons o os ih =>
      have hn := h.1
      have hp := (h.2.2.directory_bounds h.2.1).2
      have hpos := o.kind.clusters_pos
      rw [listings,ih h.2.2 (by omega),if_neg (by omega),if_neg (by omega)]
      rfl

end Gemiboot.Mkdisk
