import Gemiboot.BiosMemoryMap
import Gemiboot.UefiMemoryMap
import Gemiboot.Intervals

/-!
# The two summaries of memory

The multiboot structure describes memory twice, by `mem_upper` and by its map. The
two agree when the upper memory is available in the map. Both ways to the structure
are treated, the BIOS hand-over and the conversion of a UEFI map.
-/
namespace Gemiboot.MemorySummary
open ByteMemory MultibootMap Intervals

/-- The upper memory lies inside the available entries. -/
def SummariesAgree (m : Memory) : Prop := upperMemory m ⊆ markedAvailable m

/-- A firmware memory map, with what else the conversion depends on. -/
inductive FirmwareMap where
  | e820 (rs : List BiosMemoryMap.Response) (mode4112 mode4111 mode4101 : BiosMemoryMap.VbeMode)
  | uefi (buf : Memory) (mmapSize descSize : ℕ)

namespace FirmwareMap

/-- The responses come to an end, or the descriptors have a size. -/
def Converts : FirmwareMap → Prop
  | .e820 rs _ _ _ => ∃ r ∈ rs, r.Stops
  | .uefi _ _ descSize => descSize ≠ 0

def convert : FirmwareMap → Memory → Option Memory
  | .e820 rs a b c,m => BiosMemoryMap.handOver rs a b c m
  | .uefi buf mmapSize descSize,m => UefiMemoryMap.convertMemoryMap buf mmapSize descSize m

end FirmwareMap

/-! ### What is reported as available -/

def responseRanges (rs : List BiosMemoryMap.Response) : List (ℕ × ℕ) :=
  (rs.filter fun r => load 4 r.entry 16 = multibootMemoryAvailable).map fun r =>
    (load 8 r.entry 0,load 8 r.entry 8)

def descriptorRanges (ds : List UefiMemoryMap.EfiMemoryDescriptor) : List (ℕ × ℕ) :=
  (ds.filter fun d => d.Usable).map fun d => (d.physicalStart,d.len)

/-- Where the upper memory of a UEFI map ends, given the sum of its usable ranges. -/
def upperEnd (total : ℕ) : ℕ :=
  if total ≤ 0x100000 then 0x8000000 else 0x100000+u32 ((total-0x100000)/1024)*1024

/-- On a BIOS, unless the fallback map is used, all of [1 MiB,128 MiB) is reported as
available; on UEFI the usable ranges go on from 1 MiB for as long as their sum says. -/
def FirmwareMap.Consistent : FirmwareMap → Prop
  | .e820 rs _ _ _ =>
      1 ≤ (BiosMemoryMap.counted rs).length → (BiosMemoryMap.counted rs).length ≤ 128 →
        NoGap (responseRanges (BiosMemoryMap.counted rs)) 0x100000 0x8000000
  | .uefi buf mmapSize descSize =>
      NoGap (descriptorRanges (UefiMemoryMap.converted buf mmapSize descSize)) 0x100000
        (upperEnd (UefiMemoryMap.totalRam (UefiMemoryMap.converted buf mmapSize descSize)))

/-! ### The two loaders -/

theorem markedAvailable_responses {rs : List BiosMemoryMap.Response} {m : Memory}
    (h : handedMap m = rs.map BiosMemoryMap.Response.record) :
    markedAvailable m = union (responseRanges rs) := by
  ext x
  constructor
  · rintro ⟨e,he,hx⟩
    rw [h] at he
    obtain ⟨r,hr,rfl⟩ := List.mem_map.mp he
    rw [r.record_available] at hx
    exact ⟨_,List.mem_map_of_mem (List.mem_filter.mpr ⟨hr,decide_eq_true hx.1⟩),hx.2⟩
  · rintro ⟨p,hp,hx⟩
    obtain ⟨r,hr,rfl⟩ := List.mem_map.mp hp
    obtain ⟨hmem,htype⟩ := List.mem_filter.mp hr
    refine ⟨r.record,?_,?_⟩
    · rw [h]
      exact List.mem_map_of_mem hmem
    · rw [r.record_available]
      exact ⟨of_decide_eq_true htype,hx⟩

theorem markedAvailable_descriptors {buf : Memory} {mmapSize descSize : ℕ} {m : Memory}
    (h : UefiMemoryMap.Describes (UefiMemoryMap.converted buf mmapSize descSize) m) :
    markedAvailable m =
      union (descriptorRanges (UefiMemoryMap.converted buf mmapSize descSize)) := by
  ext x
  constructor
  · rintro ⟨e,he,htype,hx⟩
    rw [h.records] at he
    obtain ⟨d,hd,rfl⟩ := List.mem_map.mp he
    have ht := UefiMemoryMap.converted_transcribes hd
    have hu : d.Usable := by
      by_contra hn
      exact UefiMemoryMap.mmapType_of_not_usable hn htype
    rw [ht.base,ht.length] at hx
    exact ⟨_,List.mem_map_of_mem (List.mem_filter.mpr ⟨hd,decide_eq_true hu⟩),hx⟩
  · rintro ⟨p,hp,hx⟩
    obtain ⟨d,hd,rfl⟩ := List.mem_map.mp hp
    obtain ⟨hmem,hu⟩ := List.mem_filter.mp hd
    exact h.lossless.available hmem (of_decide_eq_true hu) hx

theorem upperEnd_eq (total : ℕ) :
    upperEnd total = 0x100000+UefiMemoryMap.memUpper total*1024 := by
  rw [upperEnd,UefiMemoryMap.memUpper]
  by_cases h : total ≤ 0x100000
  · rw [if_pos h,if_neg (by omega)]
    rfl
  · rw [if_neg h,if_pos (by omega)]

/-- The fallback map and the fixed `mem_upper` go together. -/
theorem fallbackMap_agrees {m : Memory}
    (h : BiosMemoryMap.Tells BiosMemoryMap.fallbackMap m) : SummariesAgree m := by
  intro x hx
  rw [upperMemory,h.upper] at hx
  refine ⟨⟨20,0x00100000,0,127*1024*1024,0,multibootMemoryAvailable⟩,?_,rfl,hx.1,hx.2⟩
  rw [h.records]
  exact .tail _ (.tail _ (.head _))

theorem e820_agrees {rs : List BiosMemoryMap.Response} (h : ∃ r ∈ rs, r.Stops)
    (a b c : BiosMemoryMap.VbeMode) (m : Memory) :
    ∃ m', BiosMemoryMap.handOver rs a b c m = some m' ∧
      (SummariesAgree m' ↔ (FirmwareMap.e820 rs a b c).Consistent) := by
  obtain ⟨m',hm',ht⟩ := BiosMemoryMap.handOver_tells h a b c m
  refine ⟨m',hm',?_⟩
  by_cases hn : 1 ≤ (BiosMemoryMap.counted rs).length ∧ (BiosMemoryMap.counted rs).length ≤ 128
  · rw [if_pos hn] at ht
    rw [SummariesAgree,upperMemory,ht.upper,markedAvailable_responses ht.records,← noGap_iff]
    exact ⟨fun hg _ _ => hg,fun hg => hg hn.1 hn.2⟩
  · rw [if_neg hn] at ht
    exact ⟨fun _ h₁ h₂ => absurd ⟨h₁,h₂⟩ hn,fun _ => fallbackMap_agrees ht⟩

theorem uefi_agrees (buf : Memory) (mmapSize : ℕ) {descSize : ℕ} (hd : descSize ≠ 0)
    (m : Memory) : ∃ m', UefiMemoryMap.convertMemoryMap buf mmapSize descSize m = some m' ∧
      (SummariesAgree m' ↔ (FirmwareMap.uefi buf mmapSize descSize).Consistent) := by
  obtain ⟨m',hm',hdesc,-⟩ := UefiMemoryMap.convertMemoryMap_some buf mmapSize m hd
  refine ⟨m',hm',?_⟩
  rw [SummariesAgree,upperMemory,hdesc.upper,markedAvailable_descriptors hdesc,← upperEnd_eq,
    ← noGap_iff]
  rfl

/-- The summaries agree exactly for the consistent maps. -/
theorem summariesAgree_iff {f : FirmwareMap} (h : f.Converts) (m : Memory) :
    ∃ m', f.convert m = some m' ∧ (SummariesAgree m' ↔ f.Consistent) := by
  cases f with
  | e820 rs a b c => exact e820_agrees h a b c m
  | uefi buf mmapSize descSize => exact uefi_agrees buf mmapSize h m

/-- Conventional memory below 1 MiB, loader data up to 2 MiB and conventional memory up
to 3 MiB. -/
def contiguousMap : Memory := fun x =>
  if x = 0 ∨ x = 80 then 7 else if x = 40 then 2
  else if x = 50 then 0x10 else if x = 90 then 0x20
  else if x = 25 ∨ x = 65 ∨ x = 105 then 1 else 0

theorem summariesAgree_iff_contiguousMap :
    ∃ m', (FirmwareMap.uefi contiguousMap 120 40).convert (fun _ => 0) = some m' ∧
      SummariesAgree m' := by
  obtain ⟨m',hm',hiff⟩ := summariesAgree_iff (f := .uefi contiguousMap 120 40)
    (by decide : 40 ≠ 0) fun _ => 0
  exact ⟨m',hm',hiff.mpr ⟨by decide +kernel,by decide +kernel⟩⟩

/-- A single conventional range of 2 MiB, at 4 GiB. -/
def highMap : Memory := fun x => if x = 0 then 7 else if x = 12 then 1 else if x = 25 then 2 else 0

/-- A BIOS that reports the first megabyte only. -/
def lowResponse : BiosMemoryMap.Response :=
  ⟨false,0x534D4150,0,fun i => if i = 10 then 0x10 else if i = 16 then 1 else 0⟩

/-- Both machines are given upper memory at 1 MiB, where their maps have none. -/
theorem summaries_disagree :
    (∃ m', (FirmwareMap.uefi highMap 40 40).convert (fun _ => 0) = some m' ∧
      ¬SummariesAgree m') ∧
    ∃ m', (FirmwareMap.e820 [lowResponse] BiosMemoryMap.noVideo BiosMemoryMap.noVideo
      BiosMemoryMap.noVideo).convert (fun _ => 0) = some m' ∧ ¬SummariesAgree m' := by
  constructor
  · obtain ⟨m',hm',hiff⟩ := uefi_agrees highMap 40 (by decide : 40 ≠ 0) fun _ => 0
    refine ⟨m',hm',fun ha => ?_⟩
    have hfirst := (hiff.mp ha).first (by decide +kernel)
    revert hfirst
    decide +kernel
  · obtain ⟨m',hm',hiff⟩ := @e820_agrees [lowResponse] ⟨_,.head _,fun _ => rfl⟩
      BiosMemoryMap.noVideo BiosMemoryMap.noVideo BiosMemoryMap.noVideo fun _ => 0
    refine ⟨m',hm',fun ha => ?_⟩
    have hfirst := (hiff.mp ha (by decide) (by decide)).first (by decide)
    revert hfirst
    decide +kernel

end Gemiboot.MemorySummary
