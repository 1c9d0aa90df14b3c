import Gemiboot.PciScan
import Gemiboot.Uefi32Handover

/-!
# Leaving the firmware, 64-bit loader

The end of `efi_main` in `efi64.c`: two tries to get pages for the trampoline, ten
attempts to leave the boot services, and then, whatever came of them, conversion of
the memory map, relocation of the BARs and the jump.
-/
namespace Gemiboot.UefiHandover
open ByteMemory MultibootMap UefiMemoryMap PciRemap StateTransition

namespace Efi64

def uefiMmapBufSize : ℕ := 0x10000

/-- Also the status and `*Memory` of the two `AllocatePages` calls. -/
structure Firmware extends UefiHandover.Firmware where
  allocateAddress : Bool × ℕ
  allocateMaxAddress : Bool × ℕ

/-- The parts of the loader that are copied for the switch to 32 bits. -/
structure Image where
  trampoline : Memory
  trampSize : ℕ
  gdtTable : Memory
  gdtSize : ℕ

inductive Event where
  | allocatePages (success : Bool) (memory : ℕ)
  | copyTrampoline (dst : ℕ)
  | copyGdt (dst : ℕ)
  | getMemoryMap (r : MapResponse)
  | exitBootServices (mapKey : ℕ) (success : Bool)
  | convertMemoryMap (buf : Memory) (mmapSize descSize : ℕ)

inductive Label where
  | allocateAddress | allocateMaxAddress | copyTrampoline | getMap | exitBoot
  | convert | remap | jump | fault
  deriving DecidableEq

structure State where
  label : Label
  retry : ℕ
  trampPhys : ℕ
  gTrampPhys : ℕ
  buf : Memory
  mmapSize : ℕ
  mapKey : ℕ
  descSize : ℕ
  gFbBase : ℕ
  regs : Registers
  mem : Memory
  /-- Ghost: what has happened, the latest first. -/
  events : List Event

def start (buf mem : Memory) (regs : Registers) (gFbBase : ℕ) : State where
  label := .allocateAddress
  retry := 0
  trampPhys := 0x00020000
  gTrampPhys := 0x00020000
  buf := buf
  mmapSize := uefiMmapBufSize
  mapKey := 0
  descSize := 0
  gFbBase := gFbBase
  regs := regs
  mem := mem
  events := []

/-- `AllocatePages` at 0x20000, and then anywhere below 4 GiB. -/
def State.allocate (response : Bool × ℕ) (otherwise : Label) (s : State) : State :=
  let s := {s with trampPhys := response.2, events := .allocatePages response.1 response.2::s.events}
  if response.1 then {s with label := .copyTrampoline} else {s with label := otherwise}

def State.copyTrampoline (img : Image) (s : State) : State :=
  {s with
    label := .getMap
    mem := blit (blit s.mem s.trampPhys img.trampSize img.trampoline) (s.trampPhys+0x800)
      img.gdtSize img.gdtTable
    gTrampPhys := s.trampPhys
    events := .copyGdt (s.trampPhys+0x800)::.copyTrampoline s.trampPhys::s.events}

/-- The head of the retry loop and its first call. -/
def State.getMap (fw : Firmware) (s : State) : State :=
  if s.retry < 10 then
    let r := fw.getMemoryMap s.retry
    let s := {s with
      buf := r.buf, mmapSize := r.mmapSize, mapKey := r.mapKey, descSize := r.descSize
      events := .getMemoryMap r::s.events}
    if r.success then {s with label := .exitBoot} else {s with label := .getMap, retry := s.retry+1}
  else {s with label := .convert}

def State.exitBoot (fw : Firmware) (s : State) : State :=
  let ok := fw.exitBootServices s.retry
  let s := {s with events := .exitBootServices s.mapKey ok::s.events}
  if ok then {s with label := .convert} else {s with label := .getMap, retry := s.retry+1}

def State.convert (s : State) : State :=
  let s := {s with events := .convertMemoryMap s.buf s.mmapSize s.descSize::s.events}
  match convertMemoryMap s.buf s.mmapSize s.descSize s.mem with
  | some m => {s with label := .remap, mem := m}
  | none => {s with label := .fault}

def framebufferAddrLowOff : ℕ := 88
def framebufferAddrHiOff : ℕ := 92

/-- What `efi_main` does with the result of the scan. -/
def State.moveFramebuffer (scan : Scan) (s : State) : State :=
  let newFb := scan.newFbBase
  let s := {s with label := .jump, regs := scan.regs}
  if newFb ≠ s.gFbBase then
    {s with
      gFbBase := newFb
      mem := setMbi (setMbi s.mem framebufferAddrLowOff (u32 newFb)) framebufferAddrHiOff
        (u32 (newFb>>>32))}
  else s

def State.remap (hw : Hardware) (s : State) : State :=
  s.moveFramebuffer (pciRemapAbove4gBars hw s.regs s.gFbBase)

/-- `jump_to_32bit_kernel` gets `gTrampPhys` and does not return. -/
def step (fw : Firmware) (img : Image) (hw : Hardware) (s : State) : Option State :=
  match s.label with
  | .allocateAddress => some (s.allocate fw.allocateAddress .allocateMaxAddress)
  | .allocateMaxAddress =>
      some ({s with trampPhys := 0xFFFFFFFF}.allocate fw.allocateMaxAddress .getMap)
  | .copyTrampoline => some (s.copyTrampoline img)
  | .getMap => some (s.getMap fw)
  | .exitBoot => some (s.exitBoot fw)
  | .convert => some s.convert
  | .remap => some (s.remap hw)
  | .jump => none
  | .fault => none

/-! ### What must hold at the jump -/

/-- The latest successful `GetMemoryMap`. -/
def latestMap : List Event → Option MapResponse
  | [] => none
  | .getMemoryMap r::es => if r.success then some r else latestMap es
  | _::es => latestMap es

/-- The boot services were left with the key of the latest map, that map is the one
that was converted, and the trampoline and the GDT are where the jump goes. -/
structure SafeJump (s : State) : Prop where
  map : ∃ r, latestMap s.events = some r ∧ .exitBootServices r.mapKey true ∈ s.events ∧
    .convertMemoryMap r.buf r.mmapSize r.descSize ∈ s.events ∧ HandedOver r s.mem
  trampoline : .copyTrampoline s.gTrampPhys ∈ s.events ∧
    .copyGdt (s.gTrampPhys+0x800) ∈ s.events

structure SafeHandover (fw : Firmware) (img : Image) (hw : Hardware) (s₀ : State) : Prop where
  jump : ∀ s, Reaches (step fw img hw) s₀ s → s.label = .jump → SafeJump s
  convert : ∀ s, Reaches (step fw img hw) s₀ s → ∀ buf mmapSize descSize,
    .convertMemoryMap buf mmapSize descSize ∈ s.events →
      descSize ≠ 0 ∧ mmapSize ≤ uefiMmapBufSize

/-- Both calls of an attempt succeed. -/
def Firmware.Exits (fw : Firmware) (i : ℕ) : Prop :=
  (fw.getMemoryMap i).success = true ∧ fw.exitBootServices i = true

instance (fw : Firmware) (i : ℕ) : Decidable (fw.Exits i) := inferInstanceAs (Decidable (_ ∧ _))

/-- One of the two allocations succeeds, and so does one of the ten attempts, the
first one with a map that can be walked and fits the buffer. -/
structure Firmware.Cooperates (fw : Firmware) : Prop where
  pages : fw.allocateAddress.1 = true ∨ fw.allocateMaxAddress.1 = true
  exits : ∃ i < 10, fw.Exits i ∧ (∀ j < i, ¬fw.Exits j) ∧
    (fw.getMemoryMap i).descSize ≠ 0 ∧ (fw.getMemoryMap i).mmapSize ≤ uefiMmapBufSize

/-! ### One run -/

variable {fw : Firmware} {img : Image} {hw : Hardware}

/-- The pages the trampoline is copied to. -/
def Firmware.granted (fw : Firmware) : Option ℕ :=
  if fw.allocateAddress.1 then some fw.allocateAddress.2
  else if fw.allocateMaxAddress.1 then some fw.allocateMaxAddress.2
  else none

theorem Firmware.granted_some (fw : Firmware) :
    (∃ t, fw.granted = some t) ↔ fw.allocateAddress.1 = true ∨ fw.allocateMaxAddress.1 = true := by
  unfold Firmware.granted
  split_ifs with h₁ h₂
  · simp [h₁]
  · simp [h₂]
  · simp [h₁,h₂]

/-- The trampoline has been copied to the granted pages, if there are any. -/
structure Copied (fw : Firmware) (s : State) : Prop where
  granted : ∀ t, fw.granted = some t → s.gTrampPhys = t ∧ .copyTrampoline t ∈ s.events ∧
    .copyGdt (t+0x800) ∈ s.events
  missing : fw.granted = none → ∀ t, .copyTrampoline t ∉ s.events

/-- Nothing has been converted, and no exit has succeeded. -/
structure Open (s : State) : Prop where
  exits : ∀ k, .exitBootServices k true ∉ s.events
  converts : ∀ buf mmapSize descSize, .convertMemoryMap buf mmapSize descSize ∉ s.events

theorem reaches_step {s₀ s s' : State} (h : Reaches (step fw img hw) s₀ s)
    (hs : step fw img hw s = some s') : Reaches (step fw img hw) s₀ s' := h.tail hs

theorem allocate_granted {r : Bool × ℕ} (h : r.1 = true) (l : Label) (s : State) :
    s.allocate r l = {s with
      label := .copyTrampoline, trampPhys := r.2
      events := .allocatePages r.1 r.2::s.events} := by
  rw [State.allocate]
  exact if_pos h

theorem allocate_denied {r : Bool × ℕ} (h : r.1 ≠ true) (l : Label) (s : State) :
    s.allocate r l = {s with
      label := l, trampPhys := r.2
      events := .allocatePages r.1 r.2::s.events} := by
  rw [State.allocate]
  exact if_neg h

/-- After the allocations the attempts begin. -/
theorem reaches_getMap (img : Image) (hw : Hardware) (buf mem : Memory) (regs : Registers) (gFbBase : ℕ) :
    ∃ s, Reaches (step fw img hw) (start buf mem regs gFbBase) s ∧ s.label = .getMap ∧
      s.retry = 0 ∧ Copied fw s ∧ Open s := by
  have hfirst : Reaches (step fw img hw) (start buf mem regs gFbBase)
      ((start buf mem regs gFbBase).allocate fw.allocateAddress .allocateMaxAddress) :=
    reaches_step .refl rfl
  by_cases h₁ : fw.allocateAddress.1 = true
  · have hg : fw.granted = some fw.allocateAddress.2 := if_pos h₁
    rw [allocate_granted h₁] at hfirst
    refine ⟨_,reaches_step hfirst rfl,rfl,rfl,⟨?_,?_⟩,⟨?_,?_⟩⟩
    · intro t ht
      obtain rfl := Option.some.inj (hg.symm.trans ht)
      simp [State.copyTrampoline]
    · intro hnone
      rw [hg] at hnone
      cases hnone
    · simp [State.copyTrampoline,start]
    · simp [State.copyTrampoline,start]
  · rw [allocate_denied h₁] at hfirst
    have hsecond := reaches_step hfirst rfl
    by_cases h₂ : fw.allocateMaxAddress.1 = true
    · have hg : fw.granted = some fw.allocateMaxAddress.2 := by
        rw [Firmware.granted,if_neg h₁,if_pos h₂]
      rw [allocate_granted h₂] at hsecond
      refine ⟨_,reaches_step hsecond rfl,rfl,rfl,⟨?_,?_⟩,⟨?_,?_⟩⟩
      · intro t ht
        obtain rfl := Option.some.inj (hg.symm.trans ht)
        simp [State.copyTrampoline]
      · intro hnone
        rw [hg] at hnone
        cases hnone
      · simp [State.copyTrampoline,start]
      · simp [State.copyTrampoline,start]
    · have hg : fw.granted = none := by rw [Firmware.granted,if_neg h₁,if_neg h₂]
      rw [allocate_denied h₂] at hsecond
      refine ⟨_,hsecond,rfl,rfl,⟨?_,?_⟩,⟨?_,?_⟩⟩
      · intro t ht
        rw [hg] at ht
        cases ht
      · simp [start]
      · simp [start]
      · simp [start]

/-! ### The attempts -/

theorem getMap_success {s : State} (hr : s.retry < 10)
    (hs : (fw.getMemoryMap s.retry).success = true) : s.getMap fw = {s with
      label := .exitBoot
      buf := (fw.getMemoryMap s.retry).buf, mmapSize := (fw.getMemoryMap s.retry).mmapSize
      mapKey := (fw.getMemoryMap s.retry).mapKey, descSize := (fw.getMemoryMap s.retry).descSize
      events := .getMemoryMap (fw.getMemoryMap s.retry)::s.events} := by
  rw [State.getMap,if_pos hr]
  exact if_pos hs

theorem getMap_failure {s : State} (hr : s.retry < 10)
    (hs : (fw.getMemoryMap s.retry).success ≠ true) : s.getMap fw = {s with
      label := .getMap, retry := s.retry+1
      buf := (fw.getMemoryMap s.retry).buf, mmapSize := (fw.getMemoryMap s.retry).mmapSize
      mapKey := (fw.getMemoryMap s.retry).mapKey, descSize := (fw.getMemoryMap s.retry).descSize
      events := .getMemoryMap (fw.getMemoryMap s.retry)::s.events} := by
  rw [State.getMap,if_pos hr]
  exact if_neg hs

theorem step_getMap {s : State} (hl : s.label = .getMap) :
    step fw img hw s = some (s.getMap fw) := by rw [step,hl]

theorem step_exitBoot {s : State} (hl : s.label = .exitBoot) :
    step fw img hw s = some (s.exitBoot fw) := by rw [step,hl]

/-- Events of failed attempts do not matter for the trampoline. -/
theorem Copied.mono {s s' : State} (h : Copied fw s) (hg : s'.gTrampPhys = s.gTrampPhys)
    (hsub : s.events ⊆ s'.events)
    (hnew : ∀ t, .copyTrampoline t ∈ s'.events → .copyTrampoline t ∈ s.events) :
    Copied fw s' := by
  constructor
  · intro t ht
    obtain ⟨h₁,h₂,h₃⟩ := h.granted t ht
    exact ⟨hg.trans h₁,hsub h₂,hsub h₃⟩
  · exact fun hnone t ht => h.missing hnone t (hnew t ht)

/-- A failed attempt. -/
theorem attempt_fails {s₀ s : State} (h : Reaches (step fw img hw) s₀ s) (hl : s.label = .getMap)
    (hr : s.retry < 10) (hx : ¬fw.Exits s.retry) (hc : Copied fw s) (ho : Open s) :
    ∃ s', Reaches (step fw img hw) s₀ s' ∧ s'.label = .getMap ∧ s'.retry = s.retry+1 ∧
      Copied fw s' ∧ Open s' := by
  have hget := reaches_step h (step_getMap hl)
  by_cases hs : (fw.getMemoryMap s.retry).success = true
  · have hok : fw.exitBootServices s.retry = false := by
      rw [Firmware.Exits,not_and] at hx
      simpa using hx hs
    rw [getMap_success hr hs] at hget
    have hexit := reaches_step hget (step_exitBoot rfl)
    simp only [State.exitBoot,hok,Bool.false_eq_true,if_false] at hexit
    refine ⟨_,hexit,rfl,rfl,hc.mono rfl ?_ ?_,⟨?_,?_⟩⟩
    · exact fun e he => .tail _ (.tail _ he)
    · simp
    · simpa using ho.exits
    · simpa using ho.converts
  · rw [getMap_failure hr hs] at hget
    refine ⟨_,hget,rfl,rfl,hc.mono rfl ?_ ?_,⟨?_,?_⟩⟩
    · exact fun e he => .tail _ he
    · simp
    · simpa using ho.exits
    · simpa using ho.converts

theorem attempts_fail (img : Image) (hw : Hardware) (buf mem : Memory) (regs : Registers) (gFbBase : ℕ) {n : ℕ} (hn : n ≤ 10)
    (hx : ∀ j < n, ¬fw.Exits j) :
    ∃ s, Reaches (step fw img hw) (start buf mem regs gFbBase) s ∧ s.label = .getMap ∧
      s.retry = n ∧ Copied fw s ∧ Open s := by
  induction n with
  | zero => exact reaches_getMap img hw buf mem regs gFbBase
  | succ n ih =>
      obtain ⟨s,h,hl,hr,hc,ho⟩ := ih (by omega) fun j hj => hx j (by omega)
      have hx' : ¬fw.Exits s.retry := by
        rw [hr]
        exact hx n (by omega)
      have hfail := attempt_fails h hl (by omega) hx' hc ho
      rwa [hr] at hfail

/-- Before the conversion: either all ten attempts failed, or the first one that did
not left its map behind. -/
theorem reaches_convert_exits (img : Image) (hw : Hardware) (buf mem : Memory) (regs : Registers) (gFbBase : ℕ) {i : ℕ}
    (hi : i < 10) (hx : fw.Exits i) (hfirst : ∀ j < i, ¬fw.Exits j) :
    ∃ s es, Reaches (step fw img hw) (start buf mem regs gFbBase) s ∧ s.label = .convert ∧
      s.buf = (fw.getMemoryMap i).buf ∧ s.mmapSize = (fw.getMemoryMap i).mmapSize ∧
      s.descSize = (fw.getMemoryMap i).descSize ∧
      s.events = .exitBootServices (fw.getMemoryMap i).mapKey true::
        .getMemoryMap (fw.getMemoryMap i)::es ∧
      Copied fw s ∧
      ∀ buf mmapSize descSize, .convertMemoryMap buf mmapSize descSize ∉ s.events := by
  obtain ⟨s,h,hl,rfl,hc,ho⟩ := attempts_fail img hw buf mem regs gFbBase hi.le hfirst
  have hget := reaches_step h (step_getMap hl)
  rw [getMap_success hi hx.1] at hget
  have hexit := reaches_step hget (step_exitBoot rfl)
  simp only [State.exitBoot,hx.2,if_true] at hexit
  refine ⟨_,s.events,hexit,rfl,rfl,rfl,rfl,rfl,hc.mono rfl ?_ ?_,?_⟩
  · exact fun e he => .tail _ (.tail _ he)
  · simp
  · simpa using ho.converts

theorem reaches_convert_open (img : Image) (hw : Hardware) (buf mem : Memory) (regs : Registers) (gFbBase : ℕ)
    (hx : ∀ j < 10, ¬fw.Exits j) :
    ∃ s, Reaches (step fw img hw) (start buf mem regs gFbBase) s ∧ s.label = .convert ∧
      Open s := by
  obtain ⟨s,h,hl,hr,-,ho⟩ := attempts_fail img hw buf mem regs gFbBase (le_refl 10) hx
  have hget := reaches_step h (step_getMap hl)
  rw [State.getMap,if_neg (by omega)] at hget
  exact ⟨_,hget,rfl,ho.exits,ho.converts⟩

/-! ### The conversion and the jump -/

theorem step_convert {s : State} (hl : s.label = .convert) :
    step fw img hw s = some s.convert := by rw [step,hl]

theorem step_remap {s : State} (hl : s.label = .remap) :
    step fw img hw s = some (s.remap hw) := by rw [step,hl]

theorem convert_fields (s : State) :
    s.convert.events = .convertMemoryMap s.buf s.mmapSize s.descSize::s.events ∧
      s.convert.gTrampPhys = s.gTrampPhys := by
  rw [State.convert]
  dsimp only
  cases convertMemoryMap s.buf s.mmapSize s.descSize s.mem <;> exact ⟨rfl,rfl⟩

theorem convert_walks {s : State} (hd : s.descSize ≠ 0) : s.convert.label = .remap ∧
    Describes (converted s.buf s.mmapSize s.descSize) s.convert.mem := by
  obtain ⟨m,hm,hdesc,-⟩ := convertMemoryMap_some s.buf s.mmapSize s.mem hd
  rw [State.convert]
  dsimp only
  rw [hm]
  exact ⟨rfl,hdesc⟩

/-- The fields before `framebuffer_addr_low`, and the map, of an unchanged memory. -/
theorem handedMap_congr {r : MapResponse} {m m' : Memory} (h : HandedOver r m)
    (haddr : mbi m' mmapAddrOff = mbi m mmapAddrOff)
    (hlength : mbi m' mmapLengthOff = mbi m mmapLengthOff)
    (hm : ∀ x, x < multibootInfoAddr → m' x = m x) : handedMap m' = handedMap m := by
  have hinfo : multibootInfoAddr = 610304 := rfl
  have hbuf : mmapBufferAddr = 32768 := rfl
  rw [handedMap,haddr,hlength,handedMap,h.addr,h.length]
  apply entriesAt_congr
  intro i hi
  apply hm
  omega

/-- The map stays when memory changes only from `framebuffer_addr_low` on. -/
theorem handedOver_congr {r : MapResponse} {m m' : Memory} (h : HandedOver r m)
    (hm : ∀ x, x < multibootInfoAddr+framebufferAddrLowOff → m' x = m x) : HandedOver r m' := by
  have haddr : mbi m' mmapAddrOff = mbi m mmapAddrOff := by
    apply load_congr
    intro i hi
    apply hm
    simp only [mmapAddrOff,framebufferAddrLowOff]
    omega
  have hlength : mbi m' mmapLengthOff = mbi m mmapLengthOff := by
    apply load_congr
    intro i hi
    apply hm
    simp only [mmapLengthOff,framebufferAddrLowOff]
    omega
  have hlow : ∀ x, x < multibootInfoAddr → m' x = m x :=
    fun x hx => hm x (hx.trans_le (Nat.le_add_right _ _))
  have hcount : load 4 m' mmapBufferAddr = load 4 m mmapBufferAddr := by
    apply load_congr
    intro i hi
    apply hlow
    simp only [mmapBufferAddr,multibootInfoAddr]
    omega
  refine ⟨hcount.trans h.count,haddr.trans h.addr,hlength.trans h.length,?_⟩
  rw [handedMap_congr h haddr hlength hlow]
  exact h.records

theorem moveFramebuffer_fields (scan : Scan) (s : State) :
    (s.moveFramebuffer scan).label = .jump ∧ (s.moveFramebuffer scan).events = s.events ∧
      (s.moveFramebuffer scan).gTrampPhys = s.gTrampPhys ∧
      ∀ x, x < multibootInfoAddr+framebufferAddrLowOff →
        (s.moveFramebuffer scan).mem x = s.mem x := by
  rw [State.moveFramebuffer]
  split_ifs with h
  · refine ⟨rfl,rfl,rfl,fun x hx => ?_⟩
    simp only [framebufferAddrLowOff] at hx
    dsimp only
    rw [setMbi_outside (.inl (by simp only [framebufferAddrHiOff]; omega)),
      setMbi_outside (.inl (by simp only [framebufferAddrLowOff]; omega))]
  · exact ⟨rfl,rfl,rfl,fun _ _ => rfl⟩

theorem remap_fields (hw : Hardware) (s : State) :
    (s.remap hw).label = .jump ∧ (s.remap hw).events = s.events ∧
      (s.remap hw).gTrampPhys = s.gTrampPhys ∧
      ∀ x, x < multibootInfoAddr+framebufferAddrLowOff → (s.remap hw).mem x = s.mem x := by
  rw [State.remap]
  exact moveFramebuffer_fields _ s

/-- With a descriptor size the run ends at the jump. -/
theorem reaches_jump {s₀ s : State} (h : Reaches (step fw img hw) s₀ s) (hl : s.label = .convert)
    (hd : s.descSize ≠ 0) :
    ∃ e, Reaches (step fw img hw) s₀ e ∧ e.label = .jump ∧
      e.events = .convertMemoryMap s.buf s.mmapSize s.descSize::s.events ∧
      e.gTrampPhys = s.gTrampPhys ∧
      ∀ r, s.buf = r.buf → s.mmapSize = r.mmapSize → s.descSize = r.descSize →
        HandedOver r e.mem := by
  have hconv := reaches_step h (step_convert hl)
  obtain ⟨hlabel,hdesc⟩ := convert_walks hd
  obtain ⟨hevents,htramp⟩ := convert_fields s
  have hremap := reaches_step hconv (step_remap hlabel)
  obtain ⟨hj,he,ht,hm⟩ := remap_fields hw s.convert
  refine ⟨_,hremap,hj,he.trans hevents,ht.trans htramp,?_⟩
  intro r h₁ h₂ h₃
  rw [h₁,h₂,h₃] at hdesc
  exact handedOver_congr (handedOver_of_describes hdesc) hm

section Safe
variable {buf mem : Memory} {regs : Registers} {gFbBase : ℕ}

/-- Whatever is converted can be walked, and then the run gets to the jump. -/
theorem SafeHandover.of_convert (h : SafeHandover fw img hw (start buf mem regs gFbBase))
    {s : State} (hr : Reaches (step fw img hw) (start buf mem regs gFbBase) s)
    (hl : s.label = .convert) :
    (s.descSize ≠ 0 ∧ s.mmapSize ≤ uefiMmapBufSize) ∧
      ∃ e, SafeJump e ∧ e.events = .convertMemoryMap s.buf s.mmapSize s.descSize::s.events := by
  have hwalk := h.convert _ (reaches_step hr (step_convert hl)) s.buf s.mmapSize s.descSize (by
    rw [(convert_fields s).1]
    exact .head _)
  obtain ⟨e,he,hj,hev,-,-⟩ := reaches_jump hr hl hwalk.1
  exact ⟨hwalk,e,h.jump e he hj,hev⟩

/-- After ten failures a map would be converted whose key was never accepted. -/
theorem SafeHandover.exits (h : SafeHandover fw img hw (start buf mem regs gFbBase)) :
    ∃ i < 10, fw.Exits i := by
  by_contra hx
  have hnone : ∀ j < 10, ¬fw.Exits j := fun j hj he => hx ⟨j,hj,he⟩
  obtain ⟨s,hr,hl,ho⟩ := reaches_convert_open img hw buf mem regs gFbBase hnone
  obtain ⟨-,e,he,hev⟩ := h.of_convert hr hl
  obtain ⟨r,-,hexit,-⟩ := he.map
  rw [hev] at hexit
  exact ho.exits r.mapKey (by simpa using hexit)

end Safe

end Efi64

end Gemiboot.UefiHandover
