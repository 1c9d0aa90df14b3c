import Gemiboot.DiskThunk
import Gemiboot.MemoryRoutines
import Gemiboot.SerialPort

/-!
# Disk reads through the bounce buffer

`bios_read_sectors` splits a request into raw reads of at most 64 sectors, which the
BIOS delivers to a buffer below 1 MiB, and copies each to its destination. A raw read
fills the buffer or fails with a nonzero value and leaves the buffer in any state; the
drive behind it has a state of its own, so reads may fail in any pattern. Memory is
the 32-bit address space.
-/
namespace Gemiboot.ChunkedReads
open ByteMemory DiskThunk MemoryRoutines SerialPort ShortNames StageOneLoad

def bouncePaddr : ℕ := 0x20000
def bounceSeg : ℕ := 0x2000
def bounceOff : ℕ := 0
def maxSectorsChunk : ℕ := 64

/-- The bytes a raw read may touch. -/
def bounceSize : ℕ := 512*maxSectorsChunk

/-- What one call of `bios_disk_read_raw` does. -/
inductive Reply where
  | filled
  | failed (res : ℕ) (left : Memory) (h : res ≠ 0)

/-- The buffer after the call; byte `512*lba+t` of the disk is byte `t` of sector `lba`. -/
def Reply.apply (disk : Memory) (lba sectors segment offset : ℕ) (m : Memory) : Reply → Memory
  | .filled => blit m (16*segment+offset) (512*sectors) fun t => disk (512*lba+t)
  | .failed _ left _ => blit m (16*segment+offset) bounceSize left

def Reply.res : Reply → ℕ
  | .filled => 0
  | .failed res _ _ => res

/-- A raw read that was issued. -/
structure Request where
  lba : ℕ
  sectors : ℕ
  succeeded : Bool
  deriving DecidableEq

def Request.range (q : Request) : List ℕ := List.range' q.lba q.sectors

structure Run (σ : Type*) where
  res : ℤ
  mem : Memory
  drive : σ
  /-- The characters passed to `serial_putc`. -/
  message : List UInt8
  /-- Ghost: the raw reads issued, in order. -/
  log : List Request

def lbaText : CString := ⟨asciiText "[BIOS DISK] ERROR: read failed for LBA ",by simp [asciiText]⟩
def countText : CString := ⟨asciiText " count ",by simp [asciiText]⟩
def resText : CString := ⟨asciiText " res=",by simp [asciiText]⟩
def endText : CString := ⟨asciiText "\n",by simp [asciiText]⟩

/-- The report of a failed read. -/
def failedMessage (fuel : ℕ) (buf : Vector UInt8 12) (lba chunk res : ℕ) :
    Option (List UInt8) := do
  let lba ← serialPutDec fuel buf lba
  let chunk ← serialPutDec fuel buf chunk
  let res ← serialPutDec fuel buf (u32 res)
  some (serialPuts lbaText++lba++serialPuts countText++chunk++serialPuts resText++res++
    serialPuts endText)

/-- The sectors of the next read. -/
def chunkOf (count : ℕ) : ℕ := if count > maxSectorsChunk then maxSectorsChunk else count

theorem chunkOf_pos {count : ℕ} (h : 0 < count) : 0 < chunkOf count := by
  unfold chunkOf
  split_ifs
  · exact (by decide : 0 < 64)
  · exact h

theorem chunkOf_le (count : ℕ) : chunkOf count ≤ count ∧ chunkOf count ≤ 64 := by
  unfold chunkOf maxSectorsChunk
  split_ifs <;> omega

section Reading
variable {σ : Type*} (raw : σ → ℕ → ℕ → ℕ → ℕ → Reply × σ) (disk : Memory) (fuel : ℕ)
  (buf : Vector UInt8 12)

/-- `while (count > 0)`; the reads issued so far are in `log`. A chunk fits the 16 bits of
the raw read's parameter. -/
def readLoop (lba count dest : ℕ) (drive : σ) (m : Memory) (log : List Request) :
    Option (Run σ) :=
  if _h : count = 0 then some ⟨0,m,drive,[],log⟩
  else
    let chunk := chunkOf count
    let r := raw drive lba chunk bounceSeg bounceOff
    let m := r.1.apply disk lba chunk bounceSeg bounceOff m
    match r.1 with
    | .failed res _ _ =>
        (failedMessage fuel buf lba chunk res).map fun message =>
          ⟨-1,m,r.2,message,log++[⟨lba,chunk,false⟩]⟩
    | .filled =>
        readLoop (u32 (lba+chunk)) (count-chunk) (u32 (dest+chunk*512)) r.2
          (memcpy 4294967296 m dest bouncePaddr (chunk*512)) (log++[⟨lba,chunk,true⟩])
  termination_by count
  decreasing_by
    have hpos := Nat.pos_of_ne_zero _h
    exact Nat.sub_lt hpos (chunkOf_pos hpos)

def biosReadSectors (lba count dest : ℕ) (drive : σ) (m : Memory) : Option (Run σ) :=
  if count = 0 ∨ dest = 0 then some ⟨0,m,drive,[],[]⟩
  else readLoop raw disk fuel buf lba count dest drive m []

end Reading

/-! ### The loop -/

/-- Memory outside the bounce buffer. -/
def Outside (x : ℕ) : Prop := x < bouncePaddr ∨ bouncePaddr+bounceSize ≤ x

theorem Reply.apply_filled (disk : Memory) (lba sectors : ℕ) (m : Memory) :
    Reply.filled.apply disk lba sectors bounceSeg bounceOff m =
      blit m bouncePaddr (512*sectors) fun t => disk (512*lba+t) := rfl

theorem Reply.apply_failed (disk : Memory) (lba sectors : ℕ) (m : Memory) {res : ℕ}
    (left : Memory) (h : res ≠ 0) :
    (Reply.failed res left h).apply disk lba sectors bounceSeg bounceOff m =
      blit m bouncePaddr bounceSize left := rfl

theorem Reply.apply_outside {disk m : Memory} {lba sectors x : ℕ} (reply : Reply)
    (hs : sectors ≤ 64) (hx : Outside x) :
    reply.apply disk lba sectors bounceSeg bounceOff m x = m x := by
  have hsize : bounceSize = 32768 := rfl
  unfold Outside at hx
  cases reply with
  | filled =>
      rw [Reply.apply_filled]
      exact blit_outside (by omega)
  | failed res left h =>
      rw [Reply.apply_failed]
      exact blit_outside (by omega)

/-- The first `done` sectors have been read and are at the destination. -/
structure Progress (disk m₀ : Memory) (lba dest done : ℕ) (m : Memory) (log : List Request) :
    Prop where
  sectors : log.flatMap Request.range = List.range' lba done
  sizes : ∀ q ∈ log, 1 ≤ q.sectors ∧ q.sectors ≤ 64
  succeeded : ∀ q ∈ log, q.succeeded = true
  mem : ∀ x, Outside x → m x = blit m₀ dest (512*done) (fun t => disk (512*lba+t)) x

section Progress
variable {disk m₀ m : Memory} {lba dest done chunk : ℕ} {log : List Request}

theorem range_append (log : List Request) (q : Request)
    (h : log.flatMap Request.range = List.range' lba done) (hq : q.lba = lba+done) :
    (log++[q]).flatMap Request.range = List.range' lba (done+q.sectors) := by
  rw [List.flatMap_append,h,List.flatMap_cons,List.flatMap_nil,List.append_nil,Request.range,hq,
    ← List.range'_append_1]

/-- A failed read changes the bounce buffer only. -/
theorem Progress.apply (h : Progress disk m₀ lba dest done m log) (reply : Reply) (l : ℕ)
    (hs : chunk ≤ 64) :
    Progress disk m₀ lba dest done (reply.apply disk l chunk bounceSeg bounceOff m) log := by
  refine ⟨h.sectors,h.sizes,h.succeeded,?_⟩
  intro x hx
  rw [reply.apply_outside hs hx,h.mem x hx]

/-- What one pass of the loop does when its read succeeds. -/
theorem Progress.step (h : Progress disk m₀ lba dest done m log) (hpos : 0 < chunk)
    (hs : chunk ≤ 64) (hspace : dest+512*(done+chunk) ≤ 4294967296)
    (hdisj : dest+512*(done+chunk) ≤ bouncePaddr ∨ bouncePaddr+bounceSize ≤ dest) :
    Progress disk m₀ lba dest (done+chunk)
      (memcpy 4294967296 (Reply.filled.apply disk (lba+done) chunk bounceSeg bounceOff m)
        (dest+512*done) bouncePaddr (chunk*512))
      (log++[⟨lba+done,chunk,true⟩]) := by
  have hsize : bounceSize = 32768 := rfl
  have haddr : bouncePaddr = 131072 := rfl
  have hcopy : memcpy 4294967296
      (Reply.filled.apply disk (lba+done) chunk bounceSeg bounceOff m) (dest+512*done)
      bouncePaddr (chunk*512) =
        blit (Reply.filled.apply disk (lba+done) chunk bounceSeg bounceOff m)
          (dest+512*done) (chunk*512) fun t => disk (512*(lba+done)+t) := by
    apply memcpy_eq_blit (by omega) (by omega)
    · intro t ht
      rw [Reply.apply_filled]
      exact blit_at (by omega)
    · intro t ht u hu hover
      exfalso
      omega
  refine ⟨range_append log _ h.sectors rfl,?_,?_,?_⟩
  · intro q hq
    rcases List.mem_append.mp hq with hq | hq
    · exact h.sizes q hq
    · rw [List.mem_singleton.mp hq]
      exact ⟨hpos,hs⟩
  · intro q hq
    rcases List.mem_append.mp hq with hq | hq
    · exact h.succeeded q hq
    · rw [List.mem_singleton.mp hq]
  · intro x hx
    rw [hcopy,Nat.mul_add 512 done chunk,Nat.mul_comm chunk 512]
    apply blit_extend
    · rw [Reply.apply_outside Reply.filled hs hx,h.mem x hx]
    · intro i hi
      congr 1
      omega

end Progress

theorem failedMessage_some {fuel : ℕ} (buf : Vector UInt8 12) {lba chunk res : ℕ}
    (hfuel : 10 < fuel) (hlba : lba < 4294967296) (hchunk : chunk ≤ 64) :
    ∃ text, failedMessage fuel buf lba chunk res = some text := by
  rw [failedMessage,serialPutDec_spec buf hlba hfuel,
    serialPutDec_spec buf (show chunk < 4294967296 by omega) hfuel,
    serialPutDec_spec buf (u32_lt res) hfuel]
  exact ⟨_,rfl⟩

/-- How a run over `total` sectors ends. -/
inductive Ends {σ : Type*} (disk m₀ : Memory) (lba dest total : ℕ) (r : Run σ) : Prop where
  | all : r.res = 0 → Progress disk m₀ lba dest total r.mem r.log → Ends disk m₀ lba dest total r
  | failed (done chunk : ℕ) (log : List Request) : r.res = -1 → 0 < chunk → chunk ≤ 64 →
      done+chunk ≤ total → Progress disk m₀ lba dest done r.mem log →
      r.log = log++[⟨lba+done,chunk,false⟩] → Ends disk m₀ lba dest total r

section Runs
variable {σ : Type*} (raw : σ → ℕ → ℕ → ℕ → ℕ → Reply × σ) (disk : Memory) {fuel : ℕ}
  (buf : Vector UInt8 12)

theorem readLoop_zero (l d : ℕ) (drive : σ) (m : Memory) (log : List Request) :
    readLoop raw disk fuel buf l 0 d drive m log = some ⟨0,m,drive,[],log⟩ := by
  rw [readLoop,dif_pos rfl]

theorem readLoop_filled {l count d : ℕ} {drive drive' : σ} {m : Memory} {log : List Request}
    (hc : count ≠ 0)
    (hr : raw drive l (chunkOf count) bounceSeg bounceOff = (Reply.filled,drive')) :
    readLoop raw disk fuel buf l count d drive m log =
      readLoop raw disk fuel buf (u32 (l+chunkOf count)) (count-chunkOf count)
        (u32 (d+chunkOf count*512)) drive'
        (memcpy 4294967296
          (Reply.filled.apply disk l (chunkOf count) bounceSeg bounceOff m) d bouncePaddr
          (chunkOf count*512))
        (log++[⟨l,chunkOf count,true⟩]) := by
  rw [readLoop,dif_neg hc]
  simp only [hr]

theorem readLoop_failed {l count d res : ℕ} {left : Memory} {h : res ≠ 0} {drive drive' : σ}
    {m : Memory} {log : List Request} (hc : count ≠ 0)
    (hr : raw drive l (chunkOf count) bounceSeg bounceOff = (Reply.failed res left h,drive')) :
    readLoop raw disk fuel buf l count d drive m log =
      (failedMessage fuel buf l (chunkOf count) res).map fun message =>
        ⟨-1,(Reply.failed res left h).apply disk l (chunkOf count) bounceSeg bounceOff m,
          drive',message,log++[⟨l,chunkOf count,false⟩]⟩ := by
  rw [readLoop,dif_neg hc]
  simp only [hr]

/-- By induction on the sectors that remain. The two 32-bit sums are exact as long as
any sector remains. -/
theorem readLoop_ends {m₀ m : Memory} {lba dest done count l d : ℕ} {drive : σ}
    {log : List Request} (hfuel : 10 < fuel) (hlba : lba+(done+count) ≤ 4294967296)
    (hspace : dest+512*(done+count) ≤ 4294967296)
    (hdisj : dest+512*(done+count) ≤ bouncePaddr ∨ bouncePaddr+bounceSize ≤ dest)
    (h : Progress disk m₀ lba dest done m log)
    (hcur : count ≠ 0 → l = lba+done ∧ d = dest+512*done) :
    ∃ r, readLoop raw disk fuel buf l count d drive m log = some r ∧
      Ends disk m₀ lba dest (done+count) r := by
  induction count using Nat.strong_induction_on generalizing done l d drive m log with
  | _ count ih =>
      by_cases hc : count = 0
      · rw [hc,readLoop_zero]
        exact ⟨_,rfl,Ends.all rfl h⟩
      · have hpos : 0 < chunkOf count := chunkOf_pos (Nat.pos_of_ne_zero hc)
        have hle := chunkOf_le count
        rcases hcur hc with ⟨rfl,rfl⟩
        cases hr : raw drive (lba+done) (chunkOf count) bounceSeg bounceOff with
        | mk reply drive' =>
            cases reply with
            | filled =>
                have hstep := h.step hpos hle.2 (by omega) (by omega)
                have htotal : done+chunkOf count+(count-chunkOf count) = done+count := by omega
                rw [readLoop_filled raw disk buf hc hr,← htotal]
                apply ih (count-chunkOf count) (by omega) (by omega) (by omega) (by omega) hstep
                intro hrest
                constructor
                · rw [u32_of_lt (by omega),Nat.add_assoc]
                · rw [u32_of_lt (by omega)]
                  omega
            | failed res left hres =>
                rcases failedMessage_some buf hfuel (show lba+done < 4294967296 by omega) hle.2
                  with ⟨text,htext⟩
                rw [readLoop_failed raw disk buf hc hr,htext]
                exact ⟨_,rfl,Ends.failed done (chunkOf count) log rfl hpos hle.2 (by omega)
                  (h.apply (.failed res left hres) (lba+done) hle.2) rfl⟩

theorem biosReadSectors_ends {lba count dest : ℕ} (drive : σ) (m : Memory) (hfuel : 10 < fuel)
    (hlba : lba+count ≤ 4294967296) (hnull : dest ≠ 0) (hspace : dest+512*count ≤ 4294967296)
    (hdisj : dest+512*count ≤ bouncePaddr ∨ bouncePaddr+bounceSize ≤ dest) :
    ∃ r, biosReadSectors raw disk fuel buf lba count dest drive m = some r ∧
      Ends disk m lba dest count r := by
  have hstart : Progress disk m lba dest 0 m [] := by
    refine ⟨rfl,?_,?_,?_⟩
    · intro q hq
      exact absurd hq List.not_mem_nil
    · intro q hq
      exact absurd hq List.not_mem_nil
    · intro x _
      rw [Nat.mul_zero,blit_zero]
  unfold biosReadSectors
  split_ifs with h
  · rcases h with rfl | h
    · exact ⟨_,rfl,Ends.all rfl hstart⟩
    · exact absurd h hnull
  · have hrun : ∃ r, readLoop raw disk fuel buf lba count dest drive m [] = some r ∧
        Ends disk m lba dest (0+count) r := by
      apply readLoop_ends raw disk buf hfuel (by omega) (by omega) (by omega) hstart
      intro _
      exact ⟨rfl,rfl⟩
    rwa [Nat.zero_add] at hrun

end Runs

/-! ### The thunk as a raw read -/

section RawReads
variable {disk mem : Memory} {outcome : ℕ → Outcome} {lba : UInt32} {sectors : UInt16}

/-- Whatever the attempts do, only the blocks of the packet are written. -/
theorem biosDiskReadRaw_outside {x : ℕ}
    (hx : x < bouncePaddr ∨ bouncePaddr+512*sectors.toNat ≤ x) :
    (biosDiskReadRaw disk outcome lba sectors 0x2000 0 mem).2 x = mem x := by
  have haddr : bouncePaddr = 131072 := rfl
  have hbase : 16*(0x2000 : UInt16).toNat+(0 : UInt16).toNat = 131072 := rfl
  change (tryThunkInt13 disk outcome (2+1) 0 _).mem x = mem x
  cases ho : outcome 0 with
  | success =>
      rw [tryThunkInt13_success ho,transfer]
      apply blit_outside
      change x < 16*(0x2000 : UInt16).toNat+(0 : UInt16).toNat ∨
        16*(0x2000 : UInt16).toNat+(0 : UInt16).toNat+512*sectors.toNat ≤ x
      omega
  | failure blocks =>
      have hmin : min blocks sectors.toNat ≤ sectors.toNat := Nat.min_le_right _ _
      rw [tryThunkInt13_failure ho,transfer]
      apply blit_outside
      change x < 16*(0x2000 : UInt16).toNat+(0 : UInt16).toNat ∨
        16*(0x2000 : UInt16).toNat+(0 : UInt16).toNat+512*min blocks sectors.toNat ≤ x
      omega

/-- A call of the thunk that can be relied upon is a raw read as it is taken here. -/
theorem biosDiskReadRaw_reply (hs : sectors.toNat ≤ 64)
    (h : Reliable disk outcome lba sectors 0x2000 0 mem) :
    ∃ reply : Reply,
      reply.res = (biosDiskReadRaw disk outcome lba sectors 0x2000 0 mem).1 ∧
      reply.apply disk lba.toNat sectors.toNat bounceSeg bounceOff mem =
        (biosDiskReadRaw disk outcome lba sectors 0x2000 0 mem).2 := by
  have hsize : bounceSize = 32768 := rfl
  by_cases hz : (biosDiskReadRaw disk outcome lba sectors 0x2000 0 mem).1 = 0
  · refine ⟨.filled,hz.symm,?_⟩
    funext x
    rw [Reply.apply_filled]
    by_cases hx : bouncePaddr ≤ x ∧ x < bouncePaddr+512*sectors.toNat
    · have hdel := h.delivered hz (x-bouncePaddr) (by omega)
      have hbase : 16*(0x2000 : UInt16).toNat+(0 : UInt16).toNat+(x-bouncePaddr) = x := by
        change bouncePaddr+(x-bouncePaddr) = x
        exact Nat.add_sub_cancel' hx.1
      rw [hbase] at hdel
      rw [blit_inside hx.1 hx.2,hdel]
    · rw [blit_outside (by omega),biosDiskReadRaw_outside (by omega)]
  · refine ⟨.failed _ (fun t =>
      (biosDiskReadRaw disk outcome lba sectors 0x2000 0 mem).2 (bouncePaddr+t)) hz,rfl,?_⟩
    funext x
    rw [Reply.apply_failed]
    by_cases hx : bouncePaddr ≤ x ∧ x < bouncePaddr+bounceSize
    · rw [blit_inside hx.1 hx.2,Nat.add_sub_cancel' hx.1]
    · rw [blit_outside (by omega),biosDiskReadRaw_outside (by omega)]

end RawReads

/-! ### The result -/

theorem Ends.res {σ : Type*} {disk m₀ : Memory} {lba dest total : ℕ} {r : Run σ}
    (h : Ends disk m₀ lba dest total r) :
    r.res = 0 ↔ ∀ q ∈ r.log, q.succeeded = true := by
  cases h with
  | all hres hp => exact ⟨fun _ => hp.succeeded,fun _ => hres⟩
  | failed done chunk log hres hpos hle htotal hp hlog =>
      constructor
      · intro h0
        rw [hres] at h0
        exact absurd h0 (by decide)
      · intro hall
        have hlast := hall ⟨lba+done,chunk,false⟩ (by
          rw [hlog]
          exact List.mem_append_right log (List.mem_singleton_self _))
        exact absurd hlast Bool.false_ne_true

/-- The requests follow one another and stay in range. -/
theorem Ends.covers {σ : Type*} {disk m₀ : Memory} {lba dest total : ℕ} {r : Run σ}
    (h : Ends disk m₀ lba dest total r) :
    ∃ k ≤ total, r.log.flatMap Request.range = List.range' lba k ∧ (r.res = 0 → k = total) := by
  cases h with
  | all hres hp => exact ⟨total,le_refl total,hp.sectors,fun _ => rfl⟩
  | failed done chunk log hres hpos hle htotal hp hlog =>
      refine ⟨done+chunk,htotal,?_,?_⟩
      · rw [hlog]
        exact range_append log _ hp.sectors rfl
      · intro h0
        rw [hres] at h0
        exact absurd h0 (by decide)

theorem Ends.sizes {σ : Type*} {disk m₀ : Memory} {lba dest total : ℕ} {r : Run σ}
    (h : Ends disk m₀ lba dest total r) : ∀ q ∈ r.log, 1 ≤ q.sectors ∧ q.sectors ≤ 64 := by
  intro q hq
  cases h with
  | all hres hp => exact hp.sizes q hq
  | failed done chunk log hres hpos hle htotal hp hlog =>
      rw [hlog] at hq
      rcases List.mem_append.mp hq with hq | hq
      · exact hp.sizes q hq
      · rw [List.mem_singleton.mp hq]
        exact ⟨hpos,hle⟩

theorem Ends.mem {σ : Type*} {disk m₀ : Memory} {lba dest total : ℕ} {r : Run σ}
    (h : Ends disk m₀ lba dest total r) (h0 : r.res = 0) {x : ℕ} (hx : Outside x) :
    r.mem x = blit m₀ dest (512*total) (fun t => disk (512*lba+t)) x := by
  cases h with
  | all hres hp => exact hp.mem x hx
  | failed done chunk log hres hpos hle htotal hp hlog =>
      rw [hres] at h0
      exact absurd h0 (by decide)

/-- After a failure at sector `lba+done`, the sectors before it are there and the rest of
the destination has not been touched. -/
theorem Ends.failure {σ : Type*} {disk m₀ : Memory} {lba dest total : ℕ} {r : Run σ}
    (h : Ends disk m₀ lba dest total r) (h0 : r.res ≠ 0) :
    r.res = -1 ∧ ∃ l, lba ≤ l ∧ l < lba+total ∧
      (∃ q, r.log.getLast? = some q ∧ q.lba = l ∧ q.succeeded = false) ∧
      ∀ x, Outside x → r.mem x = blit m₀ dest (512*(l-lba)) (fun t => disk (512*lba+t)) x := by
  cases h with
  | all hres hp => exact absurd hres h0
  | failed done chunk log hres hpos hle htotal hp hlog =>
      refine ⟨hres,lba+done,Nat.le_add_right lba done,by omega,
        ⟨⟨lba+done,chunk,false⟩,?_,rfl,rfl⟩,?_⟩
      · rw [hlog,List.getLast?_concat]
      · rw [Nat.add_sub_cancel_left]
        exact hp.mem

/-! ### Whole requests -/

section Requests
variable {σ : Type*} (raw : σ → ℕ → ℕ → ℕ → ℕ → Reply × σ) (disk : Memory) {fuel : ℕ}
  (buf : Vector UInt8 12)

theorem biosReadSectors_run {lba count dest : ℕ} {drive : σ} {m : Memory} {r : Run σ}
    (hfuel : 10 < fuel) (hlba : lba+count ≤ 4294967296) (hnull : dest ≠ 0)
    (hspace : dest+512*count ≤ 4294967296)
    (hdisj : dest+512*count ≤ bouncePaddr ∨ bouncePaddr+bounceSize ≤ dest)
    (h : biosReadSectors raw disk fuel buf lba count dest drive m = some r) :
    Ends disk m lba dest count r := by
  rcases biosReadSectors_ends raw disk buf drive m hfuel hlba hnull hspace hdisj
    with ⟨r',hr',hends⟩
  rw [h,Option.some_inj] at hr'
  rwa [hr']

/-- Reading `a+b` sectors leaves outside the bounce buffer what reading `a` and then `b`
sectors leaves there. -/
theorem biosReadSectors_add {lba a b dest : ℕ} {drive drive₁ drive₂ : σ} {m : Memory}
    {r r₁ r₂ : Run σ} (hfuel : 10 < fuel) (hlba : lba+(a+b) ≤ 4294967296) (hnull : dest ≠ 0)
    (hspace : dest+512*(a+b) ≤ 4294967296)
    (hdisj : dest+512*(a+b) ≤ bouncePaddr ∨ bouncePaddr+bounceSize ≤ dest)
    (h : biosReadSectors raw disk fuel buf lba (a+b) dest drive m = some r)
    (h₁ : biosReadSectors raw disk fuel buf lba a dest drive₁ m = some r₁)
    (h₂ : biosReadSectors raw disk fuel buf (u32 (lba+a)) b (u32 (dest+512*a)) drive₂ r₁.mem =
      some r₂)
    (h0 : r.res = 0) (h0₁ : r₁.res = 0) (h0₂ : r₂.res = 0) {x : ℕ} (hx : Outside x) :
    r₂.mem x = r.mem x := by
  have hmem := (biosReadSectors_run raw disk buf hfuel hlba hnull hspace hdisj h).mem h0 hx
  have hmem₁ := (biosReadSectors_run raw disk buf hfuel (by omega) hnull (by omega) (by omega)
    h₁).mem h0₁ hx
  rcases Nat.eq_zero_or_pos b with rfl | hb
  · rw [biosReadSectors,if_pos (.inl rfl),Option.some_inj] at h₂
    rw [← h₂,hmem,Nat.add_zero]
    exact hmem₁
  · rw [u32_of_lt (by omega),u32_of_lt (by omega)] at h₂
    have hmem₂ := (biosReadSectors_run raw disk buf hfuel (by omega) (by omega) (by omega)
      (by omega) h₂).mem h0₂ hx
    rw [hmem₂,hmem,Nat.mul_add 512 a b]
    apply blit_extend hmem₁
    intro i hi
    congr 1
    omega

/-- A request is read chunk by chunk as it would be sector by sector. -/
theorem biosReadSectors_chunked {lba count dest : ℕ} (drive : σ) (m : Memory)
    (hfuel : 10 < fuel) (hlba : lba+count ≤ 4294967296) (hnull : dest ≠ 0)
    (hspace : dest+512*count ≤ 4294967296)
    (hdisj : dest+512*count ≤ bouncePaddr ∨ bouncePaddr+bounceSize ≤ dest) :
    ∃ r, biosReadSectors raw disk fuel buf lba count dest drive m = some r ∧
      (∀ q ∈ r.log, 1 ≤ q.sectors ∧ q.sectors ≤ 64) ∧
      (∃ k ≤ count, r.log.flatMap Request.range = List.range' lba k ∧ (r.res = 0 → k = count)) ∧
      (r.res = 0 ↔ ∀ q ∈ r.log, q.succeeded = true) ∧
      (r.res = 0 → ∀ t < 512*count, r.mem (dest+t) = disk (512*lba+t)) ∧
      (r.res ≠ 0 → r.res = -1 ∧ ∃ l, lba ≤ l ∧ l < lba+count ∧
        (∃ q, r.log.getLast? = some q ∧ q.lba = l ∧ q.succeeded = false) ∧
        (∀ t < 512*(l-lba), r.mem (dest+t) = disk (512*lba+t)) ∧
        ∀ t, 512*(l-lba) ≤ t → t < 512*count → r.mem (dest+t) = m (dest+t)) ∧
      (∀ x, Outside x → x < dest ∨ dest+512*count ≤ x → r.mem x = m x) ∧
      ∀ a b, a+b = count → ∀ drive₁ drive₂ r₁ r₂,
        biosReadSectors raw disk fuel buf lba a dest drive₁ m = some r₁ →
        biosReadSectors raw disk fuel buf (u32 (lba+a)) b (u32 (dest+512*a)) drive₂ r₁.mem =
          some r₂ →
        r.res = 0 → r₁.res = 0 → r₂.res = 0 → ∀ x, Outside x → r₂.mem x = r.mem x := by
  have hsize : bounceSize = 32768 := rfl
  have haddr : bouncePaddr = 131072 := rfl
  have hout : ∀ t < 512*count, Outside (dest+t) := by
    intro t ht
    unfold Outside
    omega
  rcases biosReadSectors_ends raw disk buf drive m hfuel hlba hnull hspace hdisj
    with ⟨r,hr,hends⟩
  refine ⟨r,hr,hends.sizes,hends.covers,hends.res,?_,?_,?_,?_⟩
  · intro h0 t ht
    rw [hends.mem h0 (hout t ht),blit_at ht]
  · intro h0
    rcases hends.failure h0 with ⟨hres,l,hl,hlt,hlast,hmem⟩
    refine ⟨hres,l,hl,hlt,hlast,?_,?_⟩
    · intro t ht
      rw [hmem _ (hout t (by omega)),blit_at ht]
    · intro t ht htc
      rw [hmem _ (hout t htc),blit_outside (by omega)]
  · intro x hx hd
    by_cases h0 : r.res = 0
    · rw [hends.mem h0 hx,blit_outside hd]
    · rcases hends.failure h0 with ⟨-,l,hl,hlt,-,hmem⟩
      rw [hmem x hx,blit_outside (by omega)]
  · rintro a b rfl drive₁ drive₂ r₁ r₂ h₁ h₂ h0 h0₁ h0₂ x hx
    exact biosReadSectors_add raw disk buf hfuel hlba hnull hspace hdisj hr h₁ h₂ h0 h0₁ h0₂ hx

end Requests

/-- A drive whose sector 70 cannot be read. -/
def scratchedDrive : Unit → ℕ → ℕ → ℕ → ℕ → Reply × Unit := fun _ lba sectors _ _ =>
  (if lba ≤ 70 ∧ 70 < lba+sectors then .failed 1 (fun _ => 0) Nat.one_ne_zero else .filled,())

/-- The second chunk of a request for sectors 0 to 99 fails, with the first in place. -/
theorem biosReadSectors_chunked_failing : ∃ r,
    biosReadSectors scratchedDrive (fun x => UInt8.ofNat x) 11 (Vector.replicate 12 0) 0 100
      0x100000 () (fun _ => 0) = some r ∧
    r.log = [⟨0,64,true⟩,⟨64,36,false⟩] ∧ r.res = -1 ∧
    ∀ t < 512*64, r.mem (0x100000+t) = UInt8.ofNat t := by
  rcases biosReadSectors_chunked scratchedDrive (fun x => UInt8.ofNat x) (Vector.replicate 12 0)
      () (fun _ => 0) (show 10 < 11 by decide) (show 0+100 ≤ 4294967296 by decide)
      (show 0x100000 ≠ 0 by decide) (show 0x100000+512*100 ≤ 4294967296 by decide)
      (.inr (by decide))
    with ⟨r,hr,-,-,-,-,hfail,-⟩
  have hrun := hr
  rw [biosReadSectors,if_neg (by decide),
    readLoop_filled scratchedDrive _ _ (by decide)
      (rfl : scratchedDrive () 0 (chunkOf 100) bounceSeg bounceOff = (.filled,())),
    readLoop_failed scratchedDrive _ _ (by decide) rfl] at hrun
  obtain ⟨hres,hlog⟩ : r.res = -1 ∧ r.log = [⟨0,64,true⟩,⟨64,36,false⟩] := by
    obtain ⟨text,-,rfl⟩ := Option.map_eq_some_iff.mp hrun
    exact ⟨rfl,rfl⟩
  obtain ⟨-,l,-,-,⟨q,hq,hl,-⟩,hdata,-⟩ := hfail (by rw [hres]; decide)
  rw [hlog] at hq
  obtain rfl : ⟨64,36,false⟩ = q := Option.some.inj hq
  subst hl
  refine ⟨r,hr,hlog,hres,fun t ht => ?_⟩
  have hbyte := hdata t ht
  rwa [Nat.mul_zero,Nat.zero_add] at hbyte

end Gemiboot.ChunkedReads
