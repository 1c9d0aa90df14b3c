import Gemiboot.MultibootMap

/-!
# The BIOS memory map

From INT 15h/E820 to the multiboot structure: the loop `get_e820_memory_map` of
`io16.S`, the graphics information that `init_video_mode` stores behind it, and the
part of `bios_loader_main` that hands the records over. The loop addresses memory
through ES = 0 and a 16-bit DI, so it wraps. DI is always a multiple of 4 and a word
never crosses the end of the segment.
-/
namespace Gemiboot.BiosMemoryMap
open ByteMemory MultibootMap

def u16 (n : ℕ) : ℕ := n % 65536

/-! ### The query loop -/

/-- What one INT 15h returns; `entry` is the 20 bytes it puts at ES:DI. -/
structure Response where
  carry : Bool
  eax : ℕ
  ebx : ℕ
  entry : Memory

/-- `n` bytes at ES:DI, around the end of the segment. -/
def writeWrapped (m : Memory) (di n : ℕ) (src : Memory) : Memory :=
  fun x => if x < 65536 ∧ u16 (x+65536-di) < n then src (u16 (x+65536-di)) else m x

structure Query where
  di : ℕ
  ebp : ℕ
  mem : Memory

/-- The loop up to the return of the BIOS. The default type goes four bytes too far,
to the size field of the next record. -/
def Query.call (q : Query) (r : Response) : Query :=
  let m := store 4 q.mem q.di 20
  let di := u16 (q.di+4)
  let m := store 4 m (u16 (di+20)) 1
  {q with di := di, mem := writeWrapped m di 20 r.entry}

def Query.count (q : Query) : Query := {q with ebp := u32 (q.ebp+1), di := u16 (q.di+20)}

/-- `e820_query_loop`, over the responses that are still to come. -/
def e820QueryLoop : List Response → Query → Option Query
  | [],_ => none
  | r::rs,q =>
      let q := q.call r
      if r.carry then some q
      else if r.eax ≠ 0x534D4150 then some q
      else
        let q := q.count
        if r.ebx = 0 then some q else e820QueryLoop rs q

def getE820MemoryMap (rs : List Response) (m : Memory) : Option Memory :=
  (e820QueryLoop rs ⟨0x8004,0,m⟩).map fun q => store 4 q.mem 0x8000 q.ebp

/-! ### The graphics information -/

/-- A VBE mode: its information block, and whether the two calls for it succeed. -/
structure VbeMode where
  infoOk : Bool
  info : Memory
  setOk : Bool

def vbeModeSetOk (info : Memory) (m : Memory) : Memory :=
  let m := store 4 m 0x9000 (load 1 info 25)
  let m := store 4 m 0x9004 (load 2 info 18)
  let m := store 4 m 0x9008 (load 2 info 20)
  let m := store 4 m 0x900C (load 2 info 16)
  let m := store 4 m 0x9010 (load 4 info 40)
  let m := store 1 m 0x9014 (load 1 info 32)
  let m := store 1 m 0x9015 (load 1 info 31)
  let m := store 1 m 0x9016 (load 1 info 34)
  let m := store 1 m 0x9017 (load 1 info 33)
  let m := store 1 m 0x9018 (load 1 info 36)
  store 1 m 0x9019 (load 1 info 35)

def vbeFallback (m : Memory) : Memory :=
  let m := store 4 m 0x9000 0
  let m := store 4 m 0x9004 80
  let m := store 4 m 0x9008 25
  let m := store 4 m 0x900C 160
  store 4 m 0x9010 0xB8000

/-- `init_video_mode` tries the modes 0x4112, 0x4111 and 0x4101. -/
def initVideoMode (mode4112 mode4111 mode4101 : VbeMode) (m : Memory) : Memory :=
  if mode4112.infoOk ∧ mode4112.setOk then vbeModeSetOk mode4112.info m
  else if mode4111.infoOk ∧ mode4111.setOk then vbeModeSetOk mode4111.info m
  else if mode4101.infoOk ∧ mode4101.setOk then vbeModeSetOk mode4101.info m
  else vbeFallback m

/-! ### The multiboot structure -/

/-- The map that `bios_loader_main` makes up. -/
def fallbackMap : List MmapEntry :=
  [⟨20,0x00000000,0,639*1024,0,multibootMemoryAvailable⟩,
    ⟨20,0x0009FC00,0,385*1024,0,multibootMemoryReserved⟩,
    ⟨20,0x00100000,0,127*1024*1024,0,multibootMemoryAvailable⟩]

def multibootInfoSize : ℕ := 116

/-- `bios_loader_main`, from the clearing of the structure to the memory flags. -/
def prepareMemoryMap (m : Memory) : Memory :=
  let m := fill m multibootInfoAddr multibootInfoSize 0
  let e820Count := load 4 m mmapBufferAddr
  let m :=
    if e820Count > 0 ∧ e820Count ≤ 128 then
      let mmapLen := u32 (e820Count*24)
      let m := setMbi m mmapAddrOff (mmapBufferAddr+4)
      let m := setMbi m mmapLengthOff mmapLen
      setMbi m flagsOff (mbi m flagsOff ||| multibootInfoMemMap)
    else
      let m := storeEntries m (mmapBufferAddr+4) fallbackMap
      let m := setMbi m mmapAddrOff (mmapBufferAddr+4)
      let m := setMbi m mmapLengthOff (3*24)
      setMbi m flagsOff (mbi m flagsOff ||| multibootInfoMemMap)
  let m := setMbi m memLowerOff 640
  let m := setMbi m memUpperOff (127*1024)
  setMbi m flagsOff (mbi m flagsOff ||| multibootInfoMemory)

/-- The three together. -/
def handOver (rs : List Response) (mode4112 mode4111 mode4101 : VbeMode) (m : Memory) :
    Option Memory :=
  (getE820MemoryMap rs m).map fun m =>
    prepareMemoryMap (initVideoMode mode4112 mode4111 mode4101 m)

/-! ### The responses -/

namespace Response

/-- Carry clear and the signature in EAX. -/
def Accepted (r : Response) : Prop := r.carry = false ∧ r.eax = 0x534D4150

instance (r : Response) : Decidable r.Accepted := inferInstanceAs (Decidable (_ ∧ _))

/-- The loop ends with this response. -/
def Stops (r : Response) : Prop := r.Accepted → r.ebx = 0

instance (r : Response) : Decidable r.Stops := inferInstanceAs (Decidable (_ → _))

/-- The record of an accepted response. -/
def record (r : Response) : MmapEntry :=
  ⟨20,load 4 r.entry 0,load 4 r.entry 4,load 4 r.entry 8,load 4 r.entry 12,load 4 r.entry 16⟩

/-- The bytes that the BIOS reports as available. -/
def available (r : Response) : Set ℕ :=
  {x | load 4 r.entry 16 = multibootMemoryAvailable ∧ load 8 r.entry 0 ≤ x ∧
    x < load 8 r.entry 0+load 8 r.entry 8}

end Response

/-- The successful responses, up to the one that ends the loop. -/
def accepted : List Response → List Response
  | [] => []
  | r::rs => if r.Accepted then if r.ebx = 0 then [r] else r::accepted rs else []

def Query.add (q : Query) (r : Response) : Query := (q.call r).count

/-- The loop is a fold over the accepted responses, perhaps with one more call. -/
theorem e820QueryLoop_some {rs : List Response} (h : ∃ r ∈ rs, r.Stops) (q : Query) :
    ∃ q', e820QueryLoop rs q = some q' ∧ (q' = (accepted rs).foldl Query.add q ∨
      ∃ r, q' = ((accepted rs).foldl Query.add q).call r) := by
  induction rs generalizing q with
  | nil =>
      obtain ⟨r,hr,-⟩ := h
      cases hr
  | cons r rs ih =>
      rw [e820QueryLoop,accepted]
      by_cases ha : r.Accepted
      · rw [if_pos ha,if_neg (by simp [ha.1]),if_neg (not_not_intro ha.2)]
        by_cases hz : r.ebx = 0
        · rw [if_pos hz,if_pos hz]
          exact ⟨_,rfl,.inl rfl⟩
        · have hrest : ∃ r ∈ rs, r.Stops := by
            obtain ⟨r',hr',hs⟩ := h
            rcases List.mem_cons.mp hr' with rfl | hr'
            · exact absurd (hs ha) hz
            · exact ⟨r',hr',hs⟩
          rw [if_neg hz,if_neg hz]
          exact ih hrest _
      · rw [if_neg ha]
        refine ⟨q.call r,?_,.inr ⟨r,rfl⟩⟩
        by_cases hc : r.carry = true
        · rw [if_pos hc]
        · have he : r.eax ≠ 0x534D4150 := fun he => ha ⟨by simpa using hc,he⟩
          rw [if_neg hc,if_pos he]

/-! ### What one call stores -/

theorem writeWrapped_eq_blit {m src : Memory} {di n : ℕ} (h : di+n ≤ 65536) :
    writeWrapped m di n src = blit m di n src := by
  funext x
  rw [writeWrapped,blit,u16]
  by_cases hx : di ≤ x ∧ x < di+n
  · have he : (x+65536-di)%65536 = x-di := by omega
    rw [he,if_pos hx,if_pos ⟨by omega,by omega⟩]
  · rw [if_neg hx,if_neg (by omega)]

theorem call_mem {q : Query} (h : q.di+28 ≤ 65536) (r : Response) :
    (q.call r).mem =
      blit (store 4 (store 4 q.mem q.di 20) (q.di+24) 1) (q.di+4) 20 r.entry := by
  have h₁ : u16 (q.di+4) = q.di+4 := Nat.mod_eq_of_lt (by omega)
  have h₂ : u16 (q.di+4+20) = q.di+24 := Nat.mod_eq_of_lt (by omega)
  rw [Query.call]
  dsimp only
  rw [h₁,h₂,writeWrapped_eq_blit (by omega)]

theorem call_outside {q : Query} (h : q.di+28 ≤ 65536) (r : Response) {x : ℕ}
    (hx : x < q.di ∨ q.di+28 ≤ x) : (q.call r).mem x = q.mem x := by
  rw [call_mem h,blit_outside (by omega),store_outside (by omega),store_outside (by omega)]

theorem call_entry {q : Query} (h : q.di+28 ≤ 65536) (r : Response) :
    entryAt (q.call r).mem q.di = r.record := by
  have hsize : load 4 (q.call r).mem q.di = 20 := by
    rw [call_mem h,load_blit_outside (by omega),load_store_outside (by omega),
      load_store_of_lt _ _ (by decide)]
  have hfield : ∀ o, o ≤ 16 → load 4 (q.call r).mem (q.di+(4+o)) = load 4 r.entry o := by
    intro o ho
    rw [call_mem h]
    apply load_congr
    intro i hi
    rw [blit_inside (by omega) (by omega)]
    congr 1
    omega
  rw [entryAt,hsize,hfield 0 (by decide),hfield 4 (by decide),hfield 8 (by decide),
    hfield 12 (by decide),hfield 16 (by decide)]
  rfl

/-! ### The records -/

/-- DI and EBP after some responses. -/
theorem foldl_add_registers (rs : List Response) {q : Query} (hd : q.di < 65536)
    (he : q.ebp < 4294967296) : (rs.foldl Query.add q).di = u16 (q.di+24*rs.length) ∧
      (rs.foldl Query.add q).ebp = u32 (q.ebp+rs.length) := by
  induction rs generalizing q with
  | nil => exact ⟨(Nat.mod_eq_of_lt hd).symm,(Nat.mod_eq_of_lt he).symm⟩
  | cons r rs ih =>
      have hd' : (q.add r).di = u16 (u16 (q.di+4)+20) := rfl
      have he' : (q.add r).ebp = u32 (q.ebp+1) := rfl
      obtain ⟨h₁,h₂⟩ := @ih (q.add r) (Nat.mod_lt _ (by decide)) (u32_lt _)
      rw [List.foldl_cons,h₁,h₂,hd',he',List.length_cons]
      simp only [u16,u32]
      omega

theorem entriesAt_snoc (m : Memory) (a n : ℕ) :
    entriesAt m a (n+1) = entriesAt m a n++[entryAt m (a+24*n)] := by
  rw [entriesAt,List.range_succ,List.map_append,entriesAt]
  rfl

/-- As long as DI does not wrap, the records are those of the responses. -/
theorem foldl_add_entries (rs : List Response) {q : Query} (he : q.ebp < 4294967296)
    (h : q.di+24*rs.length+4 ≤ 65536) :
    entriesAt (rs.foldl Query.add q).mem q.di rs.length = rs.map Response.record := by
  induction rs using List.reverseRecOn with
  | nil => rfl
  | append_singleton rs r ih =>
      rw [List.length_append,List.length_singleton] at h
      have hdi : (rs.foldl Query.add q).di = q.di+24*rs.length := by
        rw [(foldl_add_registers rs (by omega) he).1]
        exact Nat.mod_eq_of_lt (by omega)
      have hlast := call_entry (q := rs.foldl Query.add q) (by omega) r
      rw [hdi] at hlast
      rw [List.foldl_append,List.foldl_cons,List.foldl_nil,List.length_append,
        List.length_singleton,entriesAt_snoc,List.map_append]
      have hkeep : entriesAt ((rs.foldl Query.add q).add r).mem q.di rs.length =
          entriesAt (rs.foldl Query.add q).mem q.di rs.length := by
        apply entriesAt_congr
        intro i hi
        exact call_outside (by omega) r (.inl (by omega))
      rw [hkeep,ih (by omega)]
      exact congrArg (rs.map Response.record ++ [·]) hlast

/-- EBP counts modulo 2^32; these are the latest responses it knows of. -/
def counted (rs : List Response) : List Response :=
  (accepted rs).drop ((accepted rs).length-u32 (accepted rs).length)

theorem counted_length (rs : List Response) :
    (counted rs).length = u32 (accepted rs).length := by
  have h := u32_le (accepted rs).length
  rw [counted,List.length_drop]
  omega

theorem counted_of_lt {rs : List Response} (h : (accepted rs).length < 4294967296) :
    counted rs = accepted rs := by
  rw [counted,u32_of_lt h,Nat.sub_self,List.drop_zero]

/-- When EBP has come around, DI has too. -/
theorem foldl_add_counted (rs : List Response) (m : Memory) :
    ∃ m', (accepted rs).foldl Query.add ⟨0x8004,0,m⟩ =
      (counted rs).foldl Query.add ⟨0x8004,0,m'⟩ := by
  have hmod := Nat.mod_le (accepted rs).length 4294967296
  have hlen := Nat.div_add_mod (accepted rs).length 4294967296
  set n := (accepted rs).length with hn
  have htake : ((accepted rs).take (n-u32 n)).length = n-u32 n := by
    rw [List.length_take]
    omega
  obtain ⟨hd,he⟩ := foldl_add_registers ((accepted rs).take (n-u32 n))
    (q := ⟨0x8004,0,m⟩) (show 0x8004 < 65536 by decide) (show 0 < 4294967296 by decide)
  rw [htake] at hd he
  have hd' : u16 (0x8004+24*(n-u32 n)) = 0x8004 := by
    rw [u16,u32]
    omega
  have he' : u32 (0+(n-u32 n)) = 0 := by
    rw [u32,u32]
    omega
  refine ⟨(((accepted rs).take (n-u32 n)).foldl Query.add ⟨0x8004,0,m⟩).mem,?_⟩
  have hq : ∀ q : Query, q.di = 0x8004 → q.ebp = 0 → q = ⟨0x8004,0,q.mem⟩ := by
    rintro ⟨di,ebp,mem⟩ rfl rfl
    rfl
  rw [← hq _ (hd.trans hd') (he.trans he'),counted,← List.foldl_append,List.take_append_drop]

/-! ### The hand-over -/

/-- The counter and, when there are not too many, the records of the responses. -/
theorem getE820MemoryMap_some {rs : List Response} (h : ∃ r ∈ rs, r.Stops) (m : Memory) :
    ∃ m', getE820MemoryMap rs m = some m' ∧ load 4 m' mmapBufferAddr = (counted rs).length ∧
      ((counted rs).length ≤ 128 →
        entriesAt m' (mmapBufferAddr+4) (counted rs).length =
          (counted rs).map Response.record) := by
  obtain ⟨q',hq',hend⟩ := e820QueryLoop_some h ⟨0x8004,0,m⟩
  obtain ⟨m₀,hm₀⟩ := foldl_add_counted rs m
  rw [hm₀] at hend
  have hlt : (counted rs).length < 4294967296 := by
    rw [counted_length]
    exact u32_lt _
  obtain ⟨hd,he⟩ := foldl_add_registers (counted rs) (q := ⟨0x8004,0,m₀⟩)
    (show 0x8004 < 65536 by decide) (show 0 < 4294967296 by decide)
  have hebp : q'.ebp = (counted rs).length := by
    have hfold : ((counted rs).foldl Query.add ⟨0x8004,0,m₀⟩).ebp = (counted rs).length := by
      rw [he]
      dsimp only
      rw [Nat.zero_add,u32_of_lt hlt]
    rcases hend with rfl | ⟨r,rfl⟩
    · exact hfold
    · exact hfold
  refine ⟨store 4 q'.mem 0x8000 q'.ebp,?_,?_,fun hn => ?_⟩
  · rw [getE820MemoryMap,hq']
    rfl
  · rw [hebp]
    exact load_store_of_lt _ _ hlt
  · have hdi : ((counted rs).foldl Query.add ⟨0x8004,0,m₀⟩).di = 0x8004+24*(counted rs).length := by
      rw [hd]
      exact Nat.mod_eq_of_lt (show 0x8004+24*(counted rs).length < 65536 by omega)
    have hmem : ∀ x, x < 0x8004+24*(counted rs).length →
        q'.mem x = ((counted rs).foldl Query.add ⟨0x8004,0,m₀⟩).mem x := by
      intro x hx
      rcases hend with rfl | ⟨r,rfl⟩
      · rfl
      · exact call_outside (by omega) r (.inl (by omega))
    have hrec := foldl_add_entries (counted rs) (q := ⟨0x8004,0,m₀⟩)
      (show 0 < 4294967296 by decide) (show 0x8004+24*(counted rs).length+4 ≤ 65536 by omega)
    rw [← hrec]
    apply entriesAt_congr
    intro i hi
    have hbuf : mmapBufferAddr = 0x8000 := rfl
    rw [store_outside (by omega)]
    exact hmem _ (by omega)

/-- The graphics information lies behind 128 records. -/
theorem initVideoMode_outside (a b c : VbeMode) (m : Memory) {x : ℕ} (hx : x < 0x9000) :
    initVideoMode a b c m x = m x := by
  have hset : ∀ info, vbeModeSetOk info m x = m x := by
    intro info
    rw [vbeModeSetOk]
    simp (disch := omega) only [store_outside]
  have hfall : vbeFallback m x = m x := by
    rw [vbeFallback]
    simp (disch := omega) only [store_outside]
  rw [initVideoMode]
  split_ifs
  · exact hset _
  · exact hset _
  · exact hset _
  · exact hfall

/-- What `bios_loader_main` tells the kernel about this table of records. -/
structure Tells (es : List MmapEntry) (m : Memory) : Prop where
  addr : mbi m mmapAddrOff = mmapBufferAddr+4
  length : mbi m mmapLengthOff = es.length*24
  records : handedMap m = es
  upper : mbi m memUpperOff = 127*1024

/-- The stores behind the choice of the map. -/
def finish (length : ℕ) (m : Memory) : Memory :=
  let m := setMbi m mmapAddrOff (mmapBufferAddr+4)
  let m := setMbi m mmapLengthOff length
  let m := setMbi m flagsOff (mbi m flagsOff ||| multibootInfoMemMap)
  let m := setMbi m memLowerOff 640
  let m := setMbi m memUpperOff (127*1024)
  setMbi m flagsOff (mbi m flagsOff ||| multibootInfoMemory)

theorem finish_outside {length x : ℕ} {m : Memory} (hx : x < multibootInfoAddr) :
    finish length m x = m x := by
  simp only [finish]
  simp (disch := omega) only [setMbi_outside]

theorem finish_tells {m : Memory} {es : List MmapEntry} (hn : es.length ≤ 128)
    (he : entriesAt m (mmapBufferAddr+4) es.length = es) : Tells es (finish (es.length*24) m) := by
  have hfields : mbi (finish (es.length*24) m) mmapAddrOff = mmapBufferAddr+4 ∧
      mbi (finish (es.length*24) m) mmapLengthOff = es.length*24 ∧
      mbi (finish (es.length*24) m) memUpperOff = 127*1024 := by
    simp only [finish,mbi,setMbi,multibootInfoAddr,mmapBufferAddr,flagsOff,memLowerOff,memUpperOff,
      mmapLengthOff,mmapAddrOff]
    simp (disch := omega) only [load_store_outside,load_store_of_lt,and_self]
  obtain ⟨h₁,h₂,h₃⟩ := hfields
  refine ⟨h₁,h₂,?_,h₃⟩
  rw [handedMap,h₁,h₂,Nat.mul_div_cancel _ (by decide)]
  have hkeep : entriesAt (finish (es.length*24) m) (mmapBufferAddr+4) es.length =
      entriesAt m (mmapBufferAddr+4) es.length := by
    apply entriesAt_congr
    intro i hi
    apply finish_outside
    simp only [mmapBufferAddr,multibootInfoAddr]
    omega
  rw [hkeep,he]

theorem fallbackMap_fits : ∀ e ∈ fallbackMap, e.Fits := by
  intro e he
  rw [fallbackMap,List.mem_cons,List.mem_cons,List.mem_singleton] at he
  rcases he with rfl | rfl | rfl <;> constructor <;> decide

theorem prepareMemoryMap_counted {m : Memory} {es : List MmapEntry}
    (hc : load 4 m mmapBufferAddr = es.length) (hn : 1 ≤ es.length ∧ es.length ≤ 128)
    (he : entriesAt m (mmapBufferAddr+4) es.length = es) : Tells es (prepareMemoryMap m) := by
  have hbuf : mmapBufferAddr = 0x8000 := rfl
  have hinfo : multibootInfoAddr = 610304 := rfl
  have hc' : load 4 (fill m multibootInfoAddr multibootInfoSize 0) mmapBufferAddr = es.length := by
    rw [← hc]
    exact load_congr fun i hi => fill_outside (.inl (by omega))
  have hprep : prepareMemoryMap m =
      finish (es.length*24) (fill m multibootInfoAddr multibootInfoSize 0) := by
    rw [prepareMemoryMap,hc',if_pos (show es.length > 0 ∧ es.length ≤ 128 from hn),
      u32_of_lt (by omega)]
    rfl
  rw [hprep]
  apply finish_tells hn.2
  have hkeep : entriesAt (fill m multibootInfoAddr multibootInfoSize 0) (mmapBufferAddr+4)
      es.length = entriesAt m (mmapBufferAddr+4) es.length := by
    apply entriesAt_congr
    intro i hi
    exact fill_outside (.inl (by omega))
  rw [hkeep,he]

theorem prepareMemoryMap_fallback {m : Memory} {n : ℕ} (hc : load 4 m mmapBufferAddr = n)
    (hn : ¬(1 ≤ n ∧ n ≤ 128)) : Tells fallbackMap (prepareMemoryMap m) := by
  have hbuf : mmapBufferAddr = 0x8000 := rfl
  have hinfo : multibootInfoAddr = 610304 := rfl
  have hc' : load 4 (fill m multibootInfoAddr multibootInfoSize 0) mmapBufferAddr = n := by
    rw [← hc]
    exact load_congr fun i hi => fill_outside (.inl (by omega))
  have hprep : prepareMemoryMap m = finish (fallbackMap.length*24)
      (storeEntries (fill m multibootInfoAddr multibootInfoSize 0) (mmapBufferAddr+4)
        fallbackMap) := by
    rw [prepareMemoryMap,hc',if_neg (show ¬(n > 0 ∧ n ≤ 128) from hn)]
    rfl
  rw [hprep]
  exact finish_tells (by decide) (entriesAt_storeEntries fallbackMap_fits)

/-- The responses that are counted reach the kernel, or else the fallback does. -/
theorem handOver_tells {rs : List Response} (h : ∃ r ∈ rs, r.Stops) (a b c : VbeMode)
    (m : Memory) : ∃ m', handOver rs a b c m = some m' ∧
      Tells (if 1 ≤ (counted rs).length ∧ (counted rs).length ≤ 128
        then (counted rs).map Response.record else fallbackMap) m' := by
  obtain ⟨m₁,hm₁,hc,he⟩ := getE820MemoryMap_some h m
  refine ⟨_,congrArg (Option.map _) hm₁,?_⟩
  have hbuf : mmapBufferAddr = 0x8000 := rfl
  have hc' : load 4 (initVideoMode a b c m₁) mmapBufferAddr = (counted rs).length := by
    rw [← hc]
    exact load_congr fun i hi => initVideoMode_outside a b c m₁ (by omega)
  by_cases hn : 1 ≤ (counted rs).length ∧ (counted rs).length ≤ 128
  · rw [if_pos hn]
    have hlen : ((counted rs).map Response.record).length = (counted rs).length :=
      List.length_map _
    apply prepareMemoryMap_counted (by rw [hc',hlen]) (by rwa [hlen])
    rw [hlen,← he hn.2]
    apply entriesAt_congr
    intro i hi
    exact initVideoMode_outside a b c m₁ (by omega)
  · rw [if_neg hn]
    exact prepareMemoryMap_fallback hc' hn

/-! ### Availability -/

theorem Response.record_available (r : Response) : r.record.available = r.available := by
  have h : ∀ a, load 8 r.entry a = load 4 r.entry a+4294967296*load 4 r.entry (a+4) :=
    fun a => load_add 4 4 r.entry a
  rw [MmapEntry.available,Response.available,h,h]
  rfl

/-- Up to 128 responses the kernel gets their records unchanged, and whenever the
count is between 1 and 128 it sees only memory that was reported; otherwise it gets
the fallback map. -/
theorem handOver_map {rs : List Response} (h : ∃ r ∈ rs, r.Stops) (a b c : VbeMode)
    (m : Memory) : ∃ m', handOver rs a b c m = some m' ∧
      (1 ≤ (accepted rs).length → (accepted rs).length ≤ 128 →
        mbi m' mmapAddrOff = mmapBufferAddr+4 ∧
          mbi m' mmapLengthOff = (accepted rs).length*24 ∧
          handedMap m' = (accepted rs).map Response.record) ∧
      (1 ≤ u32 (accepted rs).length → u32 (accepted rs).length ≤ 128 →
        ∀ x ∈ markedAvailable m', ∃ r ∈ accepted rs, x ∈ r.available) ∧
      (¬(1 ≤ u32 (accepted rs).length ∧ u32 (accepted rs).length ≤ 128) →
        handedMap m' = fallbackMap) := by
  obtain ⟨m',hm',ht⟩ := handOver_tells h a b c m
  rw [counted_length] at ht
  refine ⟨m',hm',?_,?_,?_⟩
  · intro h₁ h₂
    have hlt : (accepted rs).length < 4294967296 := by omega
    rw [u32_of_lt hlt,counted_of_lt hlt,if_pos ⟨h₁,h₂⟩] at ht
    exact ⟨ht.addr,ht.length.trans (by rw [List.length_map]),ht.records⟩
  · rintro h₁ h₂ x ⟨e,he,hx⟩
    rw [if_pos ⟨h₁,h₂⟩] at ht
    rw [ht.records] at he
    obtain ⟨r,hr,rfl⟩ := List.mem_map.mp he
    rw [r.record_available] at hx
    exact ⟨r,List.mem_of_mem_drop hr,hx⟩
  · intro hn
    rw [if_neg hn] at ht
    exact ht.records

/-- A response with a megabyte of reserved memory. -/
def reservedResponse (ebx : ℕ) : Response :=
  ⟨false,0x534D4150,ebx,fun i => if i = 10 then 0x10 else if i = 16 then 2 else 0⟩

def noVideo : VbeMode := ⟨false,fun _ => 0,false⟩

/-- A range of any type; EBX is 0 for the last one. -/
def rangeResponse (ebx addr len type : ℕ) : Response :=
  ⟨false,0x534D4150,ebx,store 4 (store 8 (store 8 (fun _ => 0) 0 addr) 8 len) 16 type⟩

/-- Low memory, ROM, memory above 1 MiB, ACPI tables and memory above 4 GiB. -/
def fiveRanges : List Response :=
  [rangeResponse 1 0 0x9FC00 1,rangeResponse 2 0xF0000 0x10000 2,
    rangeResponse 3 0x100000 0x3FEE0000 1,rangeResponse 4 0x3FFE0000 0x20000 3,
    rangeResponse 0 0x100000000 0x140000000 1]

theorem handOver_map_fiveRanges :
    ∃ m', handOver fiveRanges noVideo noVideo noVideo (fun _ => 0) = some m' ∧
      handedMap m' = [⟨20,0,0,0x9FC00,0,1⟩,⟨20,0xF0000,0,0x10000,0,2⟩,
        ⟨20,0x100000,0,0x3FEE0000,0,1⟩,⟨20,0x3FFE0000,0,0x20000,0,3⟩,
        ⟨20,0,1,0x40000000,1,1⟩] := by
  have hlen : (accepted fiveRanges).length = 5 := by decide
  obtain ⟨m',hm',h,-,-⟩ := @handOver_map fiveRanges
    ⟨rangeResponse 0 0x100000000 0x140000000 1,by simp [fiveRanges],fun _ => rfl⟩
    noVideo noVideo noVideo fun _ => 0
  refine ⟨m',hm',(h (by omega) (by omega)).2.2.trans ?_⟩
  decide +kernel

theorem accepted_replicate {r : Response} (ha : r.Accepted) (hz : r.ebx ≠ 0) (n : ℕ)
    (rs : List Response) : accepted (List.replicate n r++rs) = List.replicate n r++accepted rs := by
  induction n with
  | zero => rfl
  | succ n ih =>
      rw [List.replicate_succ,List.cons_append,accepted,if_pos ha,if_neg hz,ih,List.cons_append]

/-- One response too many, all of reserved memory: the kernel is told of available
memory at 0. -/
theorem reservedResponses_fallback :
    let rs := List.replicate 128 (reservedResponse 1)++[reservedResponse 0]
    (accepted rs).length = 129 ∧
      ∃ m', handOver rs noVideo noVideo noVideo (fun _ => 0) = some m' ∧
        0 ∈ markedAvailable m' ∧ ∀ r ∈ accepted rs, 0 ∉ r.available := by
  intro rs
  have hacc : accepted rs = List.replicate 128 (reservedResponse 1)++[reservedResponse 0] :=
    accepted_replicate ⟨rfl,rfl⟩ (by decide) 128 [reservedResponse 0]
  have hlen : (accepted rs).length = 129 := by
    rw [hacc,List.length_append,List.length_replicate,List.length_singleton]
  obtain ⟨m',hm',ht⟩ := @handOver_tells rs ⟨reservedResponse 0,
    List.mem_append_right _ (.head _),fun _ => rfl⟩ noVideo noVideo noVideo fun _ => 0
  rw [counted_length,hlen,if_neg (by decide)] at ht
  refine ⟨hlen,m',hm',?_,?_⟩
  · refine ⟨⟨20,0,0,639*1024,0,multibootMemoryAvailable⟩,?_,rfl,?_,?_⟩
    · rw [ht.records]
      exact .head _
    · exact Nat.zero_le _
    · decide
  · intro r hr hx
    have htype : load 4 r.entry 16 = 2 := by
      rw [hacc,List.mem_append,List.mem_singleton] at hr
      rcases hr with hr | rfl
      · rw [List.eq_of_mem_replicate hr]
        decide
      · decide
    have hone := hx.1
    rw [htype] at hone
    revert hone
    decide

end Gemiboot.BiosMemoryMap
