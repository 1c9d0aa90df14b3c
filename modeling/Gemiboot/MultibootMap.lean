import Gemiboot.ByteMemory

/-!
# The multiboot memory map

The records and the fields of `multiboot.h` through which the kernel learns about
memory, in the physical memory both loaders write. The map of a kernel is what it
finds when it follows `mmap_addr` and `mmap_length`.
-/
namespace Gemiboot.MultibootMap
open ByteMemory

def multibootInfoAddr : ℕ := 0x00095000
def mmapBufferAddr : ℕ := 0x00008000

def multibootMemoryAvailable : ℕ := 1
def multibootMemoryReserved : ℕ := 2
def multibootMemoryAcpiReclaimable : ℕ := 3
def multibootMemoryNvs : ℕ := 4

def multibootInfoMemory : ℕ := 1<<<0
def multibootInfoMemMap : ℕ := 1<<<6

/-- Unsigned 64-bit arithmetic. -/
def u64 (n : ℕ) : ℕ := n % 18446744073709551616

/-! ### Records -/

/-- `struct multiboot_mmap_entry`. -/
structure MmapEntry where
  size : ℕ
  addrLow : ℕ
  addrHigh : ℕ
  lenLow : ℕ
  lenHigh : ℕ
  type : ℕ
  deriving DecidableEq

def entryAt (m : Memory) (a : ℕ) : MmapEntry :=
  ⟨load 4 m a,load 4 m (a+4),load 4 m (a+8),load 4 m (a+12),load 4 m (a+16),load 4 m (a+20)⟩

def storeEntry (m : Memory) (a : ℕ) (e : MmapEntry) : Memory :=
  let m := store 4 m a e.size
  let m := store 4 m (a+4) e.addrLow
  let m := store 4 m (a+8) e.addrHigh
  let m := store 4 m (a+12) e.lenLow
  let m := store 4 m (a+16) e.lenHigh
  store 4 m (a+20) e.type

/-- Every field fits its 32 bits. -/
structure MmapEntry.Fits (e : MmapEntry) : Prop where
  size : e.size < 4294967296
  addrLow : e.addrLow < 4294967296
  addrHigh : e.addrHigh < 4294967296
  lenLow : e.lenLow < 4294967296
  lenHigh : e.lenHigh < 4294967296
  type : e.type < 4294967296

def MmapEntry.base (e : MmapEntry) : ℕ := e.addrLow+4294967296*e.addrHigh
def MmapEntry.length (e : MmapEntry) : ℕ := e.lenLow+4294967296*e.lenHigh

/-- The bytes that a record marks as available. -/
def MmapEntry.available (e : MmapEntry) : Set ℕ :=
  {x | e.type = multibootMemoryAvailable ∧ e.base ≤ x ∧ x < e.base+e.length}

theorem store_outside {w : ℕ} {m : Memory} {a v x : ℕ} (h : x < a ∨ a+w ≤ x) :
    store w m a v x = m x := blit_outside h

theorem storeEntry_outside {m : Memory} {a x : ℕ} {e : MmapEntry} (h : x < a ∨ a+24 ≤ x) :
    storeEntry m a e x = m x := by
  rw [storeEntry]
  rw [store_outside (by omega),store_outside (by omega),store_outside (by omega),
    store_outside (by omega),store_outside (by omega),store_outside (by omega)]

theorem entryAt_congr {m m' : Memory} {a : ℕ} (h : ∀ i < 24, m' (a+i) = m (a+i)) :
    entryAt m' a = entryAt m a := by
  have hl : ∀ o, o ≤ 20 → load 4 m' (a+o) = load 4 m (a+o) := by
    intro o ho
    apply load_congr
    intro i hi
    rw [Nat.add_assoc,h (o+i) (by omega)]
  have h₀ := hl 0 (by decide)
  rw [Nat.add_zero] at h₀
  rw [entryAt,entryAt,h₀,hl 4 (by decide),hl 8 (by decide),hl 12 (by decide),hl 16 (by decide),
    hl 20 (by decide)]

theorem entryAt_storeEntry {m : Memory} {a : ℕ} {e : MmapEntry} (h : e.Fits) :
    entryAt (storeEntry m a e) a = e := by
  have hb : ∀ {v}, v < 4294967296 → v < 256^4 := fun hv => hv
  rw [entryAt,storeEntry]
  simp (disch := omega) only [load_store_outside]
  rw [load_store_of_lt _ _ (hb h.size),load_store_of_lt _ _ (hb h.addrLow),
    load_store_of_lt _ _ (hb h.addrHigh),load_store_of_lt _ _ (hb h.lenLow),
    load_store_of_lt _ _ (hb h.lenHigh),load_store_of_lt _ _ (hb h.type)]

/-! ### Tables of records -/

def storeEntries (m : Memory) (a : ℕ) : List MmapEntry → Memory
  | [] => m
  | e::es => storeEntries (storeEntry m a e) (a+24) es

def entriesAt (m : Memory) (a n : ℕ) : List MmapEntry :=
  (List.range n).map fun i => entryAt m (a+24*i)

theorem storeEntries_outside {m : Memory} {a x : ℕ} {es : List MmapEntry}
    (h : x < a ∨ a+24*es.length ≤ x) : storeEntries m a es x = m x := by
  induction es generalizing m a with
  | nil => rfl
  | cons e es ih =>
      rw [List.length_cons] at h
      rw [storeEntries,ih (by omega),storeEntry_outside (by omega)]

theorem entriesAt_congr {m m' : Memory} {a n : ℕ} (h : ∀ i < 24*n, m' (a+i) = m (a+i)) :
    entriesAt m' a n = entriesAt m a n := by
  apply List.map_congr_left
  intro i hi
  apply entryAt_congr
  intro j hj
  have hlt := List.mem_range.mp hi
  rw [Nat.add_assoc,h (24*i+j) (by omega)]

theorem entriesAt_succ (m : Memory) (a n : ℕ) :
    entriesAt m a (n+1) = entryAt m a::entriesAt m (a+24) n := by
  rw [entriesAt,List.range_succ_eq_map,List.map_cons,List.map_map,entriesAt]
  congr 1
  apply List.map_congr_left
  intro i _
  dsimp only [Function.comp_apply]
  congr 1
  omega

theorem entriesAt_storeEntries {m : Memory} {a : ℕ} {es : List MmapEntry}
    (h : ∀ e ∈ es, e.Fits) : entriesAt (storeEntries m a es) a es.length = es := by
  induction es generalizing m a with
  | nil => rfl
  | cons e es ih =>
      rw [List.length_cons,entriesAt_succ,storeEntries,ih fun e' he => h e' (.tail e he)]
      congr 1
      have hkeep : entryAt (storeEntries (storeEntry m a e) (a+24) es) a =
          entryAt (storeEntry m a e) a :=
        entryAt_congr fun i hi => storeEntries_outside (by omega)
      rw [hkeep,entryAt_storeEntry (h e (.head es))]

/-! ### What the kernel reads -/

/-- Offsets in `struct multiboot_info`. -/
def flagsOff : ℕ := 0
def memLowerOff : ℕ := 4
def memUpperOff : ℕ := 8
def mmapLengthOff : ℕ := 44
def mmapAddrOff : ℕ := 48

def mbi (m : Memory) (off : ℕ) : ℕ := load 4 m (multibootInfoAddr+off)

def setMbi (m : Memory) (off v : ℕ) : Memory := store 4 m (multibootInfoAddr+off) v

/-- The memory map that is handed over. -/
def handedMap (m : Memory) : List MmapEntry :=
  entriesAt m (mbi m mmapAddrOff) (mbi m mmapLengthOff/24)

/-- The bytes of memory that it marks as available. -/
def markedAvailable (m : Memory) : Set ℕ := {x | ∃ e ∈ handedMap m, x ∈ e.available}

/-- The upper memory announced by `mem_upper`. -/
def upperMemory (m : Memory) : Set ℕ := Set.Ico 0x100000 (0x100000+mbi m memUpperOff*1024)

theorem setMbi_outside {m : Memory} {off v x : ℕ}
    (h : x < multibootInfoAddr+off ∨ multibootInfoAddr+off+4 ≤ x) : setMbi m off v x = m x :=
  blit_outside h

end Gemiboot.MultibootMap
