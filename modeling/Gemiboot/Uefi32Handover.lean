import Gemiboot.UefiMemoryMap

/-!
# Leaving the firmware, 32-bit loader

The end of `efi_main` in `efi32.c`: fetch the memory map, convert it, try to exit,
and start over until it works. The responses of the firmware are sequences, one for
each attempt. A failed call may leave anything in its output parameters.
-/
namespace Gemiboot.UefiHandover
open ByteMemory MultibootMap UefiMemoryMap StateTransition

/-- A response to `GetMemoryMap`, with what the outputs hold afterwards. -/
structure MapResponse where
  success : Bool
  buf : Memory
  mmapSize : ℕ
  mapKey : ℕ
  descSize : ℕ

/-- The responses in each attempt; `ExitBootServices` may not be called in it. -/
structure Firmware where
  getMemoryMap : ℕ → MapResponse
  exitBootServices : ℕ → Bool

/-- The map of one response, as the kernel finds it. -/
structure HandedOver (r : MapResponse) (m : Memory) : Prop where
  count : load 4 m mmapBufferAddr = min (r.mmapSize/r.descSize) 120
  addr : mbi m mmapAddrOff = mmapBufferAddr+4
  length : mbi m mmapLengthOff = min (r.mmapSize/r.descSize) 120*24
  records : List.Forall₂ Transcribes (converted r.buf r.mmapSize r.descSize) (handedMap m)

theorem handedOver_of_describes {r : MapResponse} {m : Memory}
    (h : Describes (converted r.buf r.mmapSize r.descSize) m) : HandedOver r m := by
  have hn := converted_length r.buf r.mmapSize r.descSize
  refine ⟨?_,h.addr,?_,h.transcribes⟩
  · rw [h.count,hn]
  · rw [h.length,hn]

namespace Efi32

def uefiMmapBufSize : ℕ := 0x4000

/-- A boot service call with its response. -/
inductive Call where
  | getMemoryMap (r : MapResponse)
  | exitBootServices (mapKey : ℕ) (success : Bool)

inductive Label where
  | getMap | exitBoot | jump | fault
  deriving DecidableEq

structure State where
  label : Label
  attempt : ℕ
  buf : Memory
  mmapSize : ℕ
  mapKey : ℕ
  descSize : ℕ
  mem : Memory
  /-- Ghost: the calls made, the latest first. -/
  calls : List Call

def start (buf mem : Memory) : State := ⟨.getMap,0,buf,uefiMmapBufSize,0,0,mem,[]⟩

/-- `GetMemoryMap`, and the conversion when it succeeds. -/
def State.getMap (fw : Firmware) (s : State) : State :=
  let r := fw.getMemoryMap s.attempt
  let s := {s with
    buf := r.buf, mmapSize := r.mmapSize, mapKey := r.mapKey, descSize := r.descSize
    calls := .getMemoryMap r::s.calls}
  if r.success then
    match convertMemoryMap s.buf s.mmapSize s.descSize s.mem with
    | some m => {s with label := .exitBoot, mem := m}
    | none => {s with label := .fault}
  else {s with label := .getMap, attempt := s.attempt+1}

def State.exitBoot (fw : Firmware) (s : State) : State :=
  let ok := fw.exitBootServices s.attempt
  let s := {s with calls := .exitBootServices s.mapKey ok::s.calls}
  if ok then {s with label := .jump} else {s with label := .getMap, attempt := s.attempt+1}

def step (fw : Firmware) (s : State) : Option State :=
  match s.label with
  | .getMap => some (s.getMap fw)
  | .exitBoot => some (s.exitBoot fw)
  | .jump => none
  | .fault => none

/-! ### The invariant -/

/-- What holds before an exit and at the jump: the latest response is in place. -/
structure Fresh (r : MapResponse) (s : State) : Prop where
  success : r.success = true
  key : s.mapKey = r.mapKey
  handed : HandedOver r s.mem

/-- Nothing past the buffer of 120 records is written below the multiboot structure. -/
def Contained (mem : Memory) (s : State) : Prop :=
  ∀ x, 0x8B44 ≤ x → x < multibootInfoAddr → s.mem x = mem x

/-- A firmware that fails once, with a map of three pages, and then exits with one of a
single page. -/
def slowFirmware : Firmware where
  getMemoryMap i := ⟨true,fun x => if x%40 = 0 then 7 else if x%40 = 24 then 1 else 0,
    if i = 0 then 120 else 40,i,40⟩
  exitBootServices i := i = 1

end Efi32

end Gemiboot.UefiHandover
