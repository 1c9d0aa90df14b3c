import Gemiboot.MultibootMap

/-!
# The UEFI memory map

`convert_memory_map`, the same in both UEFI loaders. It writes one record for each
of the first 120 descriptors of the firmware's buffer, which it walks with the
descriptor size the firmware gave, and adds up the usable ones on the way.
-/
namespace Gemiboot.UefiMemoryMap
open ByteMemory MultibootMap

/-- The fields of `EFI_MEMORY_DESCRIPTOR` that are used. -/
structure EfiMemoryDescriptor where
  type : ℕ
  physicalStart : ℕ
  numberOfPages : ℕ

def descriptorAt (buf : Memory) (a : ℕ) : EfiMemoryDescriptor :=
  ⟨load 4 buf a,load 8 buf (a+8),load 8 buf (a+24)⟩

def efiLoaderCode : ℕ := 1
def efiLoaderData : ℕ := 2
def efiBootServicesCode : ℕ := 3
def efiBootServicesData : ℕ := 4
def efiConventionalMemory : ℕ := 7
def efiAcpiReclaimMemory : ℕ := 9
def efiAcpiMemoryNvs : ℕ := 10

namespace EfiMemoryDescriptor

def Usable (d : EfiMemoryDescriptor) : Prop :=
  d.type = efiLoaderCode ∨ d.type = efiLoaderData ∨ d.type = efiBootServicesCode ∨
    d.type = efiBootServicesData ∨ d.type = efiConventionalMemory

instance (d : EfiMemoryDescriptor) : Decidable d.Usable := inferInstanceAs (Decidable (_ ∨ _))

def mmapType (d : EfiMemoryDescriptor) : ℕ :=
  if d.Usable then multibootMemoryAvailable
  else if d.type = efiAcpiReclaimMemory then multibootMemoryAcpiReclaimable
  else if d.type = efiAcpiMemoryNvs then multibootMemoryNvs
  else multibootMemoryReserved

def len (d : EfiMemoryDescriptor) : ℕ := u64 (d.numberOfPages*4096)

def entry (d : EfiMemoryDescriptor) : MmapEntry :=
  ⟨20,u32 d.physicalStart,u32 (d.physicalStart>>>32),u32 d.len,u32 (d.len>>>32),d.mmapType⟩

end EfiMemoryDescriptor

structure Conversion where
  entryCount : ℕ
  totalRamBytes : ℕ
  mem : Memory

/-- The body of the loop. -/
def Conversion.add (c : Conversion) (d : EfiMemoryDescriptor) : Conversion where
  entryCount := c.entryCount+1
  totalRamBytes := if d.Usable then u64 (c.totalRamBytes+d.len) else c.totalRamBytes
  mem := storeEntry c.mem (mmapBufferAddr+4+24*c.entryCount) d.entry

/-- `for (i = 0; i < num_desc && entry_count < 120; i++)`. -/
def convertLoop (buf : Memory) (descSize : ℕ) : ℕ → ℕ → Conversion → Conversion
  | 0,_,c => c
  | left+1,i,c =>
      if c.entryCount < 120 then
        convertLoop buf descSize left (i+1) (c.add (descriptorAt buf (i*descSize)))
      else c

def memUpper (totalRamBytes : ℕ) : ℕ :=
  u32 (if totalRamBytes > 1024*1024 then (totalRamBytes-1024*1024)/1024 else 127*1024)

/-- `convert_memory_map`; a descriptor size of zero is a division error. -/
def convertMemoryMap (buf : Memory) (mmapSize descSize : ℕ) (m : Memory) : Option Memory :=
  if descSize = 0 then none
  else
    let c := convertLoop buf descSize (mmapSize/descSize) 0 ⟨0,0,m⟩
    let m := store 4 c.mem mmapBufferAddr c.entryCount
    let m := setMbi m mmapAddrOff (mmapBufferAddr+4)
    let m := setMbi m mmapLengthOff (c.entryCount*24)
    let m := setMbi m flagsOff (mbi m flagsOff ||| multibootInfoMemMap)
    let m := setMbi m memLowerOff 640
    let m := setMbi m memUpperOff (memUpper c.totalRamBytes)
    some (setMbi m flagsOff (mbi m flagsOff ||| multibootInfoMemory))

/-! ### The descriptors -/

/-- The descriptors in the buffer. -/
def descriptors (buf : Memory) (mmapSize descSize : ℕ) : List EfiMemoryDescriptor :=
  (List.range (mmapSize/descSize)).map fun i => descriptorAt buf (i*descSize)

/-- The usable bytes among some descriptors, in 64 bits. -/
def totalRam (ds : List EfiMemoryDescriptor) : ℕ :=
  u64 ((ds.filter fun d => d.Usable).map EfiMemoryDescriptor.len).sum

theorem descriptors_length (buf : Memory) (mmapSize descSize : ℕ) :
    (descriptors buf mmapSize descSize).length = mmapSize/descSize := by
  rw [descriptors,List.length_map,List.length_range]

theorem EfiMemoryDescriptor.entry_fits (d : EfiMemoryDescriptor) : d.entry.Fits := by
  constructor
  · exact (by decide : 20 < 4294967296)
  · exact u32_lt _
  · exact u32_lt _
  · exact u32_lt _
  · exact u32_lt _
  · show d.mmapType < 4294967296
    unfold EfiMemoryDescriptor.mmapType
    split_ifs <;> decide

theorem EfiMemoryDescriptor.len_lt (d : EfiMemoryDescriptor) : d.len < 18446744073709551616 :=
  Nat.mod_lt _ (by decide)

/-- Two halves make up a 64-bit number. -/
theorem halves {n : ℕ} (h : n < 18446744073709551616) :
    u32 n+4294967296*u32 (n>>>32) = n := by
  rw [Nat.shiftRight_eq_div_pow,u32,u32,show (2^32 : ℕ) = 4294967296 from rfl]
  omega

theorem EfiMemoryDescriptor.entry_length (d : EfiMemoryDescriptor) : d.entry.length = d.len :=
  halves d.len_lt

theorem EfiMemoryDescriptor.entry_base {d : EfiMemoryDescriptor}
    (h : d.physicalStart < 18446744073709551616) : d.entry.base = d.physicalStart := halves h

/-! ### The loop -/

theorem convertLoop_eq (buf : Memory) (descSize left i : ℕ) (c : Conversion) :
    convertLoop buf descSize left i c =
      (((List.range' i left).map fun i => descriptorAt buf (i*descSize)).take
        (120-c.entryCount)).foldl Conversion.add c := by
  induction left generalizing i c with
  | zero => rw [convertLoop,List.range'_zero,List.map_nil,List.take_nil,List.foldl_nil]
  | succ left ih =>
      rw [convertLoop]
      by_cases h : c.entryCount < 120
      · have hs : 120-c.entryCount = 120-(c.entryCount+1)+1 := by omega
        rw [if_pos h,ih,hs,List.range'_succ,List.map_cons,List.take_succ_cons,List.foldl_cons]
        rfl
      · have hz : 120-c.entryCount = 0 := by omega
        rw [if_neg h,hz,List.take_zero,List.foldl_nil]

/-- What the loop has done after some descriptors. -/
theorem foldl_add (ds : List EfiMemoryDescriptor) {c : Conversion}
    (hc : c.totalRamBytes < 18446744073709551616) :
    (ds.foldl Conversion.add c).entryCount = c.entryCount+ds.length ∧
      (ds.foldl Conversion.add c).totalRamBytes =
        u64 (c.totalRamBytes+((ds.filter fun d => d.Usable).map EfiMemoryDescriptor.len).sum) ∧
      (ds.foldl Conversion.add c).mem = storeEntries c.mem
        (mmapBufferAddr+4+24*c.entryCount) (ds.map EfiMemoryDescriptor.entry) := by
  induction ds generalizing c with
  | nil => exact ⟨rfl,(Nat.mod_eq_of_lt hc).symm,rfl⟩
  | cons d ds ih =>
      have hn : (c.add d).entryCount = c.entryCount+1 := rfl
      have ht : (c.add d).totalRamBytes =
          if d.Usable then u64 (c.totalRamBytes+d.len) else c.totalRamBytes := rfl
      have hlt : (c.add d).totalRamBytes < 18446744073709551616 := by
        rw [ht]
        split_ifs
        · exact Nat.mod_lt _ (by decide)
        · exact hc
      obtain ⟨hn',ht',hm'⟩ := ih hlt
      rw [List.foldl_cons]
      refine ⟨?_,?_,?_⟩
      · rw [hn',hn,List.length_cons]
        omega
      · rw [ht',ht]
        by_cases hu : d.Usable
        · rw [List.filter_cons_of_pos (by simpa using hu),List.map_cons,List.sum_cons,if_pos hu,
            u64,u64,u64]
          omega
        · rw [List.filter_cons_of_neg (by simpa using hu),if_neg hu]
      · rw [hm',List.map_cons,storeEntries]
        rfl

/-! ### The whole conversion -/

/-- The descriptors that get a record. -/
def converted (buf : Memory) (mmapSize descSize : ℕ) : List EfiMemoryDescriptor :=
  (descriptors buf mmapSize descSize).take 120

/-- The multiboot structure describes these descriptors. -/
structure Describes (ds : List EfiMemoryDescriptor) (m : Memory) : Prop where
  count : load 4 m mmapBufferAddr = ds.length
  addr : mbi m mmapAddrOff = mmapBufferAddr+4
  length : mbi m mmapLengthOff = ds.length*24
  records : handedMap m = ds.map EfiMemoryDescriptor.entry
  upper : mbi m memUpperOff = memUpper (totalRam ds)

/-- The bytes the conversion may write: the counter and the records, and five
fields of the multiboot structure. -/
def Written (n x : ℕ) : Prop :=
  mmapBufferAddr ≤ x ∧ x < mmapBufferAddr+4+24*n ∨
  multibootInfoAddr ≤ x ∧ x < multibootInfoAddr+12 ∨
  multibootInfoAddr+mmapLengthOff ≤ x ∧ x < multibootInfoAddr+mmapLengthOff+8

theorem converted_length (buf : Memory) (mmapSize descSize : ℕ) :
    (converted buf mmapSize descSize).length = min (mmapSize/descSize) 120 := by
  rw [converted,List.length_take,descriptors_length,Nat.min_comm]

theorem convertLoop_converted (buf : Memory) (mmapSize descSize : ℕ) (m : Memory) :
    convertLoop buf descSize (mmapSize/descSize) 0 ⟨0,0,m⟩ =
      (converted buf mmapSize descSize).foldl Conversion.add ⟨0,0,m⟩ := by
  rw [convertLoop_eq,converted,descriptors,List.range_eq_range']
  rfl

theorem memUpper_lt (t : ℕ) : memUpper t < 4294967296 := u32_lt _

/-- The stores behind the loop. -/
def finish (count total : ℕ) (m : Memory) : Memory :=
  let m := store 4 m mmapBufferAddr count
  let m := setMbi m mmapAddrOff (mmapBufferAddr+4)
  let m := setMbi m mmapLengthOff (count*24)
  let m := setMbi m flagsOff (mbi m flagsOff ||| multibootInfoMemMap)
  let m := setMbi m memLowerOff 640
  let m := setMbi m memUpperOff (memUpper total)
  setMbi m flagsOff (mbi m flagsOff ||| multibootInfoMemory)

theorem finish_outside {count total x : ℕ} {m : Memory}
    (h₁ : x < mmapBufferAddr ∨ mmapBufferAddr+4 ≤ x)
    (h₂ : x < multibootInfoAddr ∨ multibootInfoAddr+12 ≤ x)
    (h₃ : x < multibootInfoAddr+mmapLengthOff ∨ multibootInfoAddr+mmapLengthOff+8 ≤ x) :
    finish count total m x = m x := by
  simp only [mmapBufferAddr,multibootInfoAddr,mmapLengthOff] at h₁ h₂ h₃
  simp only [finish,setMbi,multibootInfoAddr,mmapBufferAddr,flagsOff,memLowerOff,memUpperOff,
    mmapLengthOff,mmapAddrOff]
  simp (disch := omega) only [store_outside]

theorem finish_fields (total : ℕ) (m : Memory) {count : ℕ} (hn : count ≤ 120) :
    load 4 (finish count total m) mmapBufferAddr = count ∧
      mbi (finish count total m) mmapAddrOff = mmapBufferAddr+4 ∧
      mbi (finish count total m) mmapLengthOff = count*24 ∧
      mbi (finish count total m) memUpperOff = memUpper total := by
  have hu := memUpper_lt total
  simp only [finish,mbi,setMbi,multibootInfoAddr,mmapBufferAddr,flagsOff,memLowerOff,memUpperOff,
    mmapLengthOff,mmapAddrOff]
  simp (disch := omega) only [load_store_outside,load_store_of_lt,and_self]

theorem convertMemoryMap_some (buf : Memory) (mmapSize : ℕ) {descSize : ℕ} (m : Memory)
    (hd : descSize ≠ 0) : ∃ m', convertMemoryMap buf mmapSize descSize m = some m' ∧
      Describes (converted buf mmapSize descSize) m' ∧
      ∀ x, ¬Written (converted buf mmapSize descSize).length x → m' x = m x := by
  obtain ⟨hn,ht,hm⟩ := foldl_add (converted buf mmapSize descSize) (c := ⟨0,0,m⟩)
    (show 0 < 18446744073709551616 by decide)
  have hlen : (converted buf mmapSize descSize).length ≤ 120 := List.length_take_le _ _
  have hconv : convertMemoryMap buf mmapSize descSize m = some
      (finish (converted buf mmapSize descSize).length (totalRam (converted buf mmapSize descSize))
        (storeEntries m (mmapBufferAddr+4)
          ((converted buf mmapSize descSize).map EfiMemoryDescriptor.entry))) := by
    rw [convertMemoryMap,if_neg hd,convertLoop_converted]
    dsimp only at hn ht hm ⊢
    rw [hn,ht,hm,Nat.zero_add,Nat.zero_add,Nat.mul_zero,Nat.add_zero]
    rfl
  refine ⟨_,hconv,?_,?_⟩
  · generalize converted buf mmapSize descSize = ds at hlen
    obtain ⟨h₁,h₂,h₃,h₄⟩ := finish_fields (totalRam ds)
      (storeEntries m (mmapBufferAddr+4) (ds.map EfiMemoryDescriptor.entry)) hlen
    refine ⟨h₁,h₂,h₃,?_,h₄⟩
    rw [handedMap,h₂,h₃,Nat.mul_div_cancel _ (by decide)]
    have hkeep : entriesAt (finish ds.length (totalRam ds) (storeEntries m (mmapBufferAddr+4)
        (ds.map EfiMemoryDescriptor.entry))) (mmapBufferAddr+4) ds.length =
        entriesAt (storeEntries m (mmapBufferAddr+4) (ds.map EfiMemoryDescriptor.entry))
          (mmapBufferAddr+4) ds.length := by
      apply entriesAt_congr
      intro i hi
      have hbuf : mmapBufferAddr = 32768 := rfl
      have hinfo : multibootInfoAddr = 610304 := rfl
      exact finish_outside (by omega) (by omega) (by omega)
    have hfits : ∀ e ∈ ds.map EfiMemoryDescriptor.entry, e.Fits := by
      intro e he
      obtain ⟨d,-,rfl⟩ := List.mem_map.mp he
      exact d.entry_fits
    have hread := entriesAt_storeEntries (m := m) (a := mmapBufferAddr+4) hfits
    rw [List.length_map] at hread
    rw [hkeep,hread]
  · intro x hx
    rw [Written] at hx
    rw [finish_outside (by omega) (by omega) (by omega),
      storeEntries_outside (by rw [List.length_map]; omega)]

/-! ### Transcription -/

/-- The descriptor types that become available memory. -/
def availableTypes : List ℕ :=
  [efiLoaderCode,efiLoaderData,efiBootServicesCode,efiBootServicesData,efiConventionalMemory]

/-- The record has the range of the descriptor, and its type case by case. -/
structure Transcribes (d : EfiMemoryDescriptor) (e : MmapEntry) : Prop where
  size : e.size = 20
  base : e.base = d.physicalStart
  length : e.length = u64 (d.numberOfPages*4096)
  available : d.type ∈ availableTypes → e.type = multibootMemoryAvailable
  acpiReclaim : d.type = efiAcpiReclaimMemory → e.type = multibootMemoryAcpiReclaimable
  acpiNvs : d.type = efiAcpiMemoryNvs → e.type = multibootMemoryNvs
  reserved : d.type ∉ availableTypes → d.type ≠ efiAcpiReclaimMemory →
    d.type ≠ efiAcpiMemoryNvs → e.type = multibootMemoryReserved

theorem mem_availableTypes {d : EfiMemoryDescriptor} : d.type ∈ availableTypes ↔ d.Usable := by
  simp [availableTypes,EfiMemoryDescriptor.Usable]

theorem descriptorAt_transcribes (buf : Memory) (a : ℕ) :
    Transcribes (descriptorAt buf a) (descriptorAt buf a).entry := by
  generalize hd : descriptorAt buf a = d
  have hbase : d.physicalStart < 18446744073709551616 := by
    rw [← hd]
    exact load_lt 8 buf (a+8)
  have hother : ∀ t, t ∉ availableTypes → d.type = t → ¬d.Usable := by
    intro t ht htype hu
    rw [← mem_availableTypes,htype] at hu
    exact ht hu
  refine ⟨rfl,EfiMemoryDescriptor.entry_base hbase,d.entry_length,?_,?_,?_,?_⟩
  · intro hav
    exact if_pos (mem_availableTypes.mp hav)
  · intro htype
    exact (if_neg (hother _ (by decide) htype)).trans (if_pos htype)
  · intro htype
    have hreclaim : d.type ≠ efiAcpiReclaimMemory := by
      rw [htype]
      decide
    exact (if_neg (hother _ (by decide) htype)).trans
      ((if_neg hreclaim).trans (if_pos htype))
  · intro hav hreclaim hnvs
    exact (if_neg (mt mem_availableTypes.mpr hav)).trans
      ((if_neg hreclaim).trans (if_neg hnvs))

theorem converted_transcribes {buf : Memory} {mmapSize descSize : ℕ} {d : EfiMemoryDescriptor}
    (h : d ∈ converted buf mmapSize descSize) : Transcribes d d.entry := by
  obtain ⟨i,-,rfl⟩ := List.mem_map.mp (List.mem_of_mem_take h)
  exact descriptorAt_transcribes buf _

theorem Describes.transcribes {buf : Memory} {mmapSize descSize : ℕ} {m : Memory}
    (h : Describes (converted buf mmapSize descSize) m) :
    List.Forall₂ Transcribes (converted buf mmapSize descSize) (handedMap m) := by
  rw [h.records,List.forall₂_map_right_iff,List.forall₂_same]
  exact fun d hd => converted_transcribes hd

/-! ### What the kernel gets to know -/

/-- Each of these descriptors has its record, and all of them count for `mem_upper`. -/
structure Lossless (ds : List EfiMemoryDescriptor) (m : Memory) : Prop where
  covered : ∀ d ∈ ds, ∃ e ∈ handedMap m, Transcribes d e
  upper : mbi m memUpperOff = memUpper (totalRam ds)

/-- A record of a usable descriptor makes its range available. -/
theorem Lossless.available {ds : List EfiMemoryDescriptor} {m : Memory} (h : Lossless ds m)
    {d : EfiMemoryDescriptor} (hd : d ∈ ds) (hu : d.Usable) :
    Set.Ico d.physicalStart (d.physicalStart+d.len) ⊆ markedAvailable m := by
  obtain ⟨e,he,ht⟩ := h.covered d hd
  intro x hx
  have htype : e.type = multibootMemoryAvailable := ht.available (mem_availableTypes.mpr hu)
  have hlen : e.length = d.len := ht.length
  refine ⟨e,he,htype,?_,?_⟩
  · rw [ht.base]
    exact hx.1
  · rw [ht.base,hlen]
    exact hx.2

theorem mmapType_of_not_usable {d : EfiMemoryDescriptor} (h : ¬d.Usable) :
    d.mmapType ≠ multibootMemoryAvailable := by
  rw [EfiMemoryDescriptor.mmapType,if_neg h]
  split_ifs <;> decide

theorem Describes.lossless {buf : Memory} {mmapSize descSize : ℕ} {m : Memory}
    (h : Describes (converted buf mmapSize descSize) m) :
    Lossless (converted buf mmapSize descSize) m := by
  refine ⟨fun d hd => ⟨d.entry,?_,converted_transcribes hd⟩,h.upper⟩
  rw [h.records]
  exact List.mem_map_of_mem hd

/-- The first 120 descriptors get their records, in order, and nothing else does;
up to 120 descriptors no memory is lost. -/
theorem convertMemoryMap_lossless (buf : Memory) (mmapSize : ℕ) {descSize : ℕ} (m : Memory)
    (hd : descSize ≠ 0) : ∃ m', convertMemoryMap buf mmapSize descSize m = some m' ∧
      List.Forall₂ Transcribes ((descriptors buf mmapSize descSize).take 120) (handedMap m') ∧
      Lossless ((descriptors buf mmapSize descSize).take 120) m' ∧
      (mmapSize/descSize ≤ 120 → Lossless (descriptors buf mmapSize descSize) m') := by
  obtain ⟨m',hm,hdesc,-⟩ := convertMemoryMap_some buf mmapSize m hd
  refine ⟨m',hm,hdesc.transcribes,hdesc.lossless,fun hn => ?_⟩
  have hall : converted buf mmapSize descSize = descriptors buf mmapSize descSize := by
    rw [converted,List.take_of_length_le]
    rwa [descriptors_length]
  rw [← hall]
  exact hdesc.lossless

/-- Descriptors of one page each, conventional and reserved in turn. -/
def alternatingMap : Memory := fun x =>
  if x%40 = 0 then if x/40%2 = 0 then 7 else 0
  else if x%40 = 9 then UInt8.ofNat (x/40*16)
  else if x%40 = 10 then UInt8.ofNat (x/40/16)
  else if x%40 = 24 then 1
  else 0

theorem convertMemoryMap_lossless_alternatingMap :
    (5*40)/40 ≤ 120 ∧ ∃ m', convertMemoryMap alternatingMap (5*40) 40 (fun _ => 0) = some m' ∧
      Lossless (descriptors alternatingMap (5*40) 40) m' := by
  have hn : (5*40)/40 ≤ 120 := by decide
  obtain ⟨m',hm,-,-,h⟩ := convertMemoryMap_lossless alternatingMap (5*40) (fun _ => 0)
    (show 40 ≠ 0 by decide)
  exact ⟨hn,m',hm,h hn⟩

theorem alternatingMap_start : ∀ i ≤ 120, load 8 alternatingMap (i*40+8) = i*4096 := by
  decide +kernel

/-- The 121st descriptor is usable and has no record. -/
theorem alternatingMap_loses : 121*40 ≤ 0x4000 ∧
    ∃ m', convertMemoryMap alternatingMap (121*40) 40 (fun _ => 0) = some m' ∧
      ¬Lossless (descriptors alternatingMap (121*40) 40) m' := by
  obtain ⟨m',hm,hdesc,-⟩ := convertMemoryMap_some alternatingMap (121*40) (fun _ => 0)
    (show 40 ≠ 0 by decide)
  refine ⟨by decide,m',hm,fun h => ?_⟩
  have hlast : descriptorAt alternatingMap (120*40) ∈ descriptors alternatingMap (121*40) 40 :=
    List.mem_map.mpr ⟨120,by decide,rfl⟩
  obtain ⟨e,he,ht⟩ := h.covered _ hlast
  rw [hdesc.records] at he
  obtain ⟨d,hd,rfl⟩ := List.mem_map.mp he
  have hbase := ht.base.symm.trans (converted_transcribes hd).base
  rw [converted,descriptors,← List.map_take,List.take_range,List.mem_map] at hd
  obtain ⟨i,hi,rfl⟩ := hd
  have hlt : i < 120 := List.mem_range.mp hi
  rw [descriptorAt,descriptorAt] at hbase
  dsimp only at hbase
  rw [alternatingMap_start 120 (le_refl 120),alternatingMap_start i hlt.le] at hbase
  omega

end Gemiboot.UefiMemoryMap
