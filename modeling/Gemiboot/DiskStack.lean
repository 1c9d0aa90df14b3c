import Gemiboot.ChunkedReads
import Gemiboot.RealModeThunk

/-!
# The disk reads of the loader on the machine

`bios_read_sectors` as it runs: each of its calls of `bios_disk_read_raw` takes the machine
through real mode and the BIOS, and `memcpy` works on the machine's memory. Where the
compiler keeps its stack is a parameter. Below the addresses that the calls use for
themselves, this is the model of `bios_disk.c` over the replies of a drive.
-/
namespace Gemiboot.DiskStack
open ByteMemory Processor Machine ProtectedMode RealModeThunk MemoryRoutines
open ChunkedReads (Reply Run bouncePaddr bounceSeg bounceOff bounceSize chunkOf chunkOf_pos chunkOf_le)
open DiskThunk (Outcome)

/-- At the entry of `bios_disk_read_raw`, with the arguments behind the return address. -/
def callRaw (sp ret lba sectors : ℕ) (m : Machine) : Machine :=
  {m with
    sp := sp
    mem := store 4 (store 4 (store 4 (store 4 (store 4 m.mem (sp+16) bounceOff) (sp+12) bounceSeg)
      (sp+8) sectors) (sp+4) lba) sp ret}

section Reading
variable (L : Layout) (bios : ℕ → Bios) (sp ret : ℕ)

/-- `while (count > 0)`; `bios i` is the BIOS during the call `i`. -/
def readLoop (call lba count dest : ℕ) (m : Machine) : Option (ℤ × Machine) :=
  if _h : count = 0 then some (0,m)
  else
    let chunk := chunkOf count
    (biosDiskReadRaw L (bios call) 3 (callRaw sp ret lba chunk m)).bind fun m =>
      if m.ax ≠ 0 then some (-1,m)
      else readLoop (call+1) (u32 (lba+chunk)) (count-chunk) (u32 (dest+chunk*512))
        {m with mem := memcpy 4294967296 m.mem dest bouncePaddr (chunk*512)}
  termination_by count
  decreasing_by
    have hpos := Nat.pos_of_ne_zero _h
    exact Nat.sub_lt hpos (chunkOf_pos hpos)

def biosReadSectors (lba count dest : ℕ) (m : Machine) : Option (ℤ × Machine) :=
  if count = 0 ∨ dest = 0 then some (0,m) else readLoop L bios sp ret 0 lba count dest m

end Reading

/-! ### One call -/

/-- No attempt succeeds after one that has failed. -/
def Clean (outcome : ℕ → Outcome) : Prop := outcome 0 = .success ∨ ∀ i < 3, (outcome i).Fails

theorem Clean.reliable {disk mem : Memory} {outcome : ℕ → Outcome} (h : Clean outcome)
    (lba : UInt32) (sectors segment offset : UInt16) :
    DiskThunk.Reliable disk outcome lba sectors segment offset mem := by
  refine ⟨fun hz => ?_,DiskThunk.biosDiskReadRaw_failed⟩
  rcases h with hs | hf
  · exact DiskThunk.delivered_success hs
  · exact absurd hz (DiskThunk.biosDiskReadRaw_failed.mpr hf)

/-- What the calls use for themselves. -/
def Own (L : Layout) (sp x : ℕ) : Prop := Scratch L sp x ∨ (sp ≤ x ∧ x < sp+20)

theorem store_outside {w a v x : ℕ} {m : Memory} (h : x < a ∨ a+w ≤ x) : store w m a v x = m x :=
  blit_outside h

theorem blit_base (src : Memory) {m m' : Memory} {a n x : ℕ} (h : m x = m' x) :
    blit m a n src x = blit m' a n src x := by
  unfold blit
  rw [h]

/-- A reply changes its buffer and nothing else. -/
theorem apply_congr {disk m m' : Memory} {lba sectors segment offset x : ℕ} (reply : Reply)
    (h : m x = m' x) : reply.apply disk lba sectors segment offset m x =
      reply.apply disk lba sectors segment offset m' x := by
  cases reply with
  | filled => exact blit_base (fun t => disk (512*lba+t)) h
  | failed res left hres => exact blit_base left h

section Call
variable {L : Layout} {sp ret lba sectors : ℕ} {m : Machine}

theorem callRaw_mem {x : ℕ} (hx : x < sp ∨ sp+20 ≤ x) :
    (callRaw sp ret lba sectors m).mem x = m.mem x := by
  unfold callRaw
  dsimp only
  rw [store_outside (by omega),store_outside (by omega),store_outside (by omega),
    store_outside (by omega),store_outside (by omega)]

theorem callRaw_protected (hp : Protected L m) (hstack : StackFits sp) :
    Protected L (callRaw sp ret lba sectors m) := by
  have hpl := Layout_places L
  unfold StackFits at hstack
  refine ⟨⟨hp.pe,hp.pg,hp.cs,hp.ds,hp.es,hp.fs,hp.gs,hp.ss,hp.interrupts⟩,⟨?_,hp.gdtr⟩,hp.idtr⟩
  exact hp.loaded.congr fun x h₁ h₂ => callRaw_mem (by omega)

theorem callRaw_arguments (hlba : lba < 4294967296) (hs : sectors ≤ 64) :
    Arguments (callRaw sp ret lba sectors m) (UInt32.ofNat lba) (UInt16.ofNat sectors) 0x2000 0 := by
  have hl : (UInt32.ofNat lba).toNat = lba := UInt32.toNat_ofNat_of_lt' hlba
  have hn : (UInt16.ofNat sectors).toNat = sectors :=
    UInt16.toNat_ofNat_of_lt' (show sectors < 65536 by omega)
  have hseg : (0x2000 : UInt16).toNat = bounceSeg := rfl
  have hoff : (0 : UInt16).toNat = bounceOff := rfl
  constructor
  · rw [hl]
    change load 4 (store 4 _ sp ret) (sp+4) = lba
    rw [load_store_outside (by omega),load_store_of_lt _ _ (by omega)]
  · rw [hn]
    change load 4 (store 4 _ sp ret) (sp+8)%65536 = sectors
    rw [load_store_outside (by omega),load_store_outside (by omega),
      load_store_of_lt _ _ (by omega)]
    omega
  · rw [hseg]
    change load 4 (store 4 _ sp ret) (sp+12)%65536 = bounceSeg
    rw [load_store_outside (by omega),load_store_outside (by omega),
      load_store_outside (by omega),load_store_of_lt _ _ (by decide)]
    rfl
  · rw [hoff]
    change load 4 (store 4 _ sp ret) (sp+16)%65536 = bounceOff
    rw [load_store_outside (by omega),load_store_outside (by omega),
      load_store_outside (by omega),load_store_outside (by omega),
      load_store_of_lt _ _ (by decide)]
    rfl

/-- A call is a raw read as `bios_read_sectors` takes it. -/
theorem callRaw_replies {disk : Memory} {outcome : ℕ → Outcome} {bios : Bios}
    (hedd : Edd disk outcome bios) (hclean : Clean outcome) (hp : Protected L m)
    (hreg : Registers32 m) (hstack : StackFits sp) (hlba : lba < 4294967296) (hs : sectors ≤ 64) :
    ∃ m' reply, biosDiskReadRaw L bios 3 (callRaw sp ret lba sectors m) = some m' ∧
      Protected L m' ∧ Registers32 m' ∧ m'.ax = Reply.res reply ∧
      (m'.ax ≠ 0 → ∀ i < 3, (outcome i).Fails) ∧
      ∀ x, ¬Own L sp x → m'.mem x = reply.apply disk lba sectors bounceSeg bounceOff m.mem x := by
  have hl : (UInt32.ofNat lba).toNat = lba := UInt32.toNat_ofNat_of_lt' hlba
  have hn : (UInt16.ofNat sectors).toNat = sectors :=
    UInt16.toNat_ofNat_of_lt' (show sectors < 65536 by omega)
  set c := callRaw sp ret lba sectors m with hc
  have hbuf : BufferFits (DiskThunk.dapPacket (UInt32.ofNat lba) (UInt16.ofNat sectors) 0x2000 0) := by
    unfold BufferFits DiskThunk.dapPacket
    rw [hn]
    change 0x10800 ≤ 131072 ∧ 131072+512*sectors ≤ 0x70000
    omega
  obtain ⟨m',hrun,hprot,hret,hax,hmem⟩ := biosDiskReadRaw_refines hedd
    (callRaw_protected hp hstack) ⟨hreg.bx,hreg.si,hreg.di,hreg.bp⟩ hstack
    (callRaw_arguments hlba hs) hbuf (le_refl 3)
  obtain ⟨reply,hres,happly⟩ := ChunkedReads.biosDiskReadRaw_reply
    (show (UInt16.ofNat sectors).toNat ≤ 64 by omega) (hclean.reliable _ _ _ _)
  rw [hl,hn] at happly
  refine ⟨m',reply,hrun,hprot,?_,hax.trans hres.symm,?_,fun x hx => ?_⟩
  · exact ⟨hret.bx ▸ hreg.bx,hret.si ▸ hreg.si,hret.di ▸ hreg.di,hret.bp ▸ hreg.bp⟩
  · intro hne
    rw [hax] at hne
    exact DiskThunk.biosDiskReadRaw_failed.mp hne
  · unfold Own at hx
    rw [hmem x (fun h => hx (.inl h)),← happly]
    exact apply_congr reply (callRaw_mem (by omega))

end Call

/-! ### The loop -/

/-- The replies in their order, as a drive. -/
def takeReply (replies : List Reply) (_ _ _ _ : ℕ) : Reply × List Reply :=
  (replies.headD .filled,replies.tail)

/-- Bytes of the destination are neither in the code's tables nor in what the calls use, and
the bounce buffer is elsewhere. -/
structure Clear (L : Layout) (sp dest size : ℕ) : Prop where
  fits : dest+size ≤ 4294967296
  bounce : dest+size ≤ bouncePaddr ∨ bouncePaddr+bounceSize ≤ dest
  own : ∀ t < size, ¬Own L sp (dest+t)
  tables : dest+size ≤ L.gdtp ∨ L.gdtp+68 ≤ dest

theorem Clear.drop {L : Layout} {sp dest size n : ℕ} (h : Clear L sp dest size) (hn : n ≤ size) :
    Clear L sp (dest+n) (size-n) := by
  obtain ⟨hfits,hbounce,hown,htables⟩ := h
  refine ⟨by omega,by omega,fun t ht => ?_,by omega⟩
  rw [Nat.add_assoc]
  exact hown (n+t) (by omega)

theorem bounce_not_own {L : Layout} {sp t : ℕ} (hstack : StackFits sp) (ht : t < bounceSize) :
    ¬Own L sp (bouncePaddr+t) := by
  have hp := Layout_places L
  have hsize : bounceSize = 32768 := rfl
  have haddr : bouncePaddr = 131072 := rfl
  unfold StackFits at hstack
  unfold Own Scratch
  omega

section Loop
variable {L : Layout} {sp : ℕ}

/-- The copy out of the bounce buffer, on the machine and in the model. -/
theorem memcpy_agrees {mem mem' : Memory} {dest n : ℕ} (hstack : StackFits sp)
    (hclear : Clear L sp dest n) (hn : n ≤ bounceSize)
    (h : ∀ x, ¬Own L sp x → mem x = mem' x) :
    (∀ x, ¬Own L sp x → memcpy 4294967296 mem dest bouncePaddr n x =
      memcpy 4294967296 mem' dest bouncePaddr n x) ∧
      ∀ x, L.gdtp ≤ x → x < L.gdtp+68 → memcpy 4294967296 mem dest bouncePaddr n x = mem x := by
  have hsize : bounceSize = 32768 := rfl
  have haddr : bouncePaddr = 131072 := rfl
  obtain ⟨hfits,hbounce,hown,htables⟩ := hclear
  have hcopy : ∀ m : Memory, memcpy 4294967296 m dest bouncePaddr n =
      blit m dest n fun t => m (bouncePaddr+t) := by
    intro m
    apply memcpy_eq_blit hfits (by omega) (fun t _ => rfl)
    intro t ht u hu hover
    exfalso
    omega
  rw [hcopy mem,hcopy mem']
  constructor
  · intro x hx
    rw [blit_base _ (h x hx)]
    exact congrFun (blit_congr fun t ht => h _ (bounce_not_own hstack (by omega))) x
  · intro x h₁ h₂
    exact blit_outside (by omega)

variable {bios : ℕ → Bios} {ret : ℕ}

theorem readLoop_zero (call lba dest : ℕ) (m : Machine) :
    readLoop L bios sp ret call lba 0 dest m = some (0,m) := by
  rw [readLoop,dif_pos rfl]

theorem readLoop_succ {call lba count dest : ℕ} {m : Machine} (hc : count ≠ 0) :
    readLoop L bios sp ret call lba count dest m =
      (biosDiskReadRaw L (bios call) 3 (callRaw sp ret lba (chunkOf count) m)).bind fun m =>
        if m.ax ≠ 0 then some (-1,m)
        else readLoop L bios sp ret (call+1) (u32 (lba+chunkOf count)) (count-chunkOf count)
          (u32 (dest+chunkOf count*512))
          {m with mem := memcpy 4294967296 m.mem dest bouncePaddr (chunkOf count*512)} := by
  rw [readLoop,dif_neg hc]

/-- The addresses of a request; they are not looked at once nothing is left. -/
def Fits (L : Layout) (sp lba count dest : ℕ) : Prop :=
  count ≠ 0 → lba+count ≤ 4294967296 ∧ Clear L sp dest (512*count)

/-- The addresses of the rest of a request. -/
theorem Fits.drop {lba count dest n : ℕ} (h : Fits L sp lba count dest) (hn : n ≤ count) :
    Fits L sp (u32 (lba+n)) (count-n) (u32 (dest+n*512)) := by
  intro hrest
  obtain ⟨hlba,hclear⟩ := h (by omega)
  have hfits := hclear.fits
  have hdrop := hclear.drop (n := 512*n) (by omega)
  rw [u32_of_lt (by omega),u32_of_lt (by omega),Nat.mul_comm n 512]
  rw [← Nat.mul_sub 512 count n] at hdrop
  exact ⟨by omega,hdrop⟩

/-- The loop on the machine is the loop of the model over some replies, and it fails only
when three attempts of a call have. -/
theorem readLoop_refines {disk : Memory} {outcome : ℕ → ℕ → Outcome}
    (hedd : ∀ i, Edd disk (outcome i) (bios i)) (hclean : ∀ i, Clean (outcome i))
    (hstack : StackFits sp) {fuel : ℕ} (hfuel : 10 < fuel) (buf : Vector UInt8 12)
    {count call lba dest : ℕ} {m : Machine} {mem : Memory} {log : List ChunkedReads.Request}
    (hp : Protected L m) (hreg : Registers32 m) (hfits : Fits L sp lba count dest)
    (hagree : ∀ x, ¬Own L sp x → m.mem x = mem x) :
    ∃ res m' replies r, readLoop L bios sp ret call lba count dest m = some (res,m') ∧
      Protected L m' ∧ ChunkedReads.readLoop takeReply disk fuel buf lba count dest replies mem
        log = some r ∧ r.res = res ∧ (∀ x, ¬Own L sp x → m'.mem x = r.mem x) ∧
      (res ≠ 0 → ∃ i, ∀ j < 3, (outcome i j).Fails) := by
  induction count using Nat.strong_induction_on generalizing call lba dest m mem log with
  | _ count ih =>
      by_cases hc : count = 0
      · subst hc
        exact ⟨0,m,[],_,readLoop_zero call lba dest m,hp,
          ChunkedReads.readLoop_zero takeReply disk buf lba dest [] mem log,rfl,hagree,
          fun h => absurd rfl h⟩
      have hpos := chunkOf_pos (Nat.pos_of_ne_zero hc)
      have hle := chunkOf_le count
      obtain ⟨hlba,hclear⟩ := hfits hc
      obtain ⟨m₁,reply,hrun,hp₁,hreg₁,hax,hfails,hmem⟩ := callRaw_replies
        (hedd call) (hclean call) hp hreg hstack (show lba < 4294967296 by omega) hle.2
      have hagree₁ : ∀ x, ¬Own L sp x → m₁.mem x =
          reply.apply disk lba (chunkOf count) bounceSeg bounceOff mem x := fun x hx =>
        (hmem x hx).trans (apply_congr reply (hagree x hx))
      rw [readLoop_succ hc,hrun,Option.bind_some]
      cases reply with
      | failed res left hne =>
          have hraw : takeReply [.failed res left hne] lba (chunkOf count) bounceSeg bounceOff =
              (.failed res left hne,[]) := rfl
          have hax' : m₁.ax ≠ 0 := by
            rw [hax]
            exact hne
          obtain ⟨text,htext⟩ := ChunkedReads.failedMessage_some buf hfuel
            (show lba < 4294967296 by omega) hle.2
          have hmodel : ChunkedReads.readLoop takeReply disk fuel buf lba count dest
              [.failed res left hne] mem log = _ :=
            ChunkedReads.readLoop_failed takeReply disk buf hc hraw
          rw [htext,Option.map_some] at hmodel
          rw [if_pos hax']
          exact ⟨-1,m₁,_,_,rfl,hp₁,hmodel,rfl,hagree₁,fun _ => ⟨call,hfails hax'⟩⟩
      | filled =>
          have hax' : ¬m₁.ax ≠ 0 := not_not.mpr hax
          have hcopy : Clear L sp dest (chunkOf count*512) := by
            obtain ⟨hf,hb,ho,ht⟩ := hclear
            exact ⟨by omega,by omega,fun t ht => ho t (by omega),by omega⟩
          have hsize : bounceSize = 32768 := rfl
          obtain ⟨hsame,htables⟩ := memcpy_agrees hstack hcopy (by omega) hagree₁
          set m₂ : Machine :=
            {m₁ with mem := memcpy 4294967296 m₁.mem dest bouncePaddr (chunkOf count*512)}
          have hp₂ : Protected L m₂ :=
            ⟨⟨hp₁.pe,hp₁.pg,hp₁.cs,hp₁.ds,hp₁.es,hp₁.fs,hp₁.gs,hp₁.ss,hp₁.interrupts⟩,
              ⟨hp₁.loaded.congr htables,hp₁.gdtr⟩,hp₁.idtr⟩
          obtain ⟨res,m',replies,r,hrest,hp',hmodel,hres,hmem',hfail⟩ := @ih (count-chunkOf count)
            (by omega) (call+1) _ _ m₂ _ (log++[⟨lba,chunkOf count,true⟩]) hp₂
            ⟨hreg₁.bx,hreg₁.si,hreg₁.di,hreg₁.bp⟩ (hfits.drop hle.1) hsame
          have hraw : takeReply (.filled::replies) lba (chunkOf count) bounceSeg bounceOff =
              (.filled,replies) := rfl
          rw [if_neg hax']
          exact ⟨res,m',.filled::replies,r,hrest,hp',
            (ChunkedReads.readLoop_filled takeReply disk buf hc hraw).trans hmodel,hres,hmem',hfail⟩

/-- A request of the loader, whatever the BIOS does to the registers and however it uses
its memory: the code goes on in flat protected mode with every sector where it wanted it, or
with -1 after a drive that has failed three times in a row. -/
theorem biosReadSectors_reads {disk : Memory} {outcome : ℕ → ℕ → Outcome}
    (hedd : ∀ i, Edd disk (outcome i) (bios i)) (hclean : ∀ i, Clean (outcome i))
    (hstack : StackFits sp) {lba count dest : ℕ} {m : Machine} (hp : Protected L m)
    (hreg : Registers32 m) (hlba : lba+count ≤ 4294967296) (hnull : dest ≠ 0)
    (hclear : Clear L sp dest (512*count)) :
    ∃ res m', biosReadSectors L bios sp ret lba count dest m = some (res,m') ∧ Protected L m' ∧
      (res = 0 ∧ (∀ t < 512*count, m'.mem (dest+t) = disk (512*lba+t)) ∨
        res = -1 ∧ ∃ i, ∀ j < 3, (outcome i j).Fails) ∧
      ∀ x, ¬Own L sp x → ChunkedReads.Outside x → x < dest ∨ dest+512*count ≤ x →
        m'.mem x = m.mem x := by
  have hout : ∀ t < 512*count, ChunkedReads.Outside (dest+t) := by
    intro t ht
    have hbounce := hclear.bounce
    unfold ChunkedReads.Outside
    omega
  unfold biosReadSectors
  split_ifs with hnone
  · have hc : count = 0 := hnone.resolve_right hnull
    subst hc
    exact ⟨0,m,rfl,hp,.inl ⟨rfl,fun t ht => absurd ht (by omega)⟩,fun _ _ _ _ => rfl⟩
  obtain ⟨res,m',replies,r,hrun,hp',hmodel,hres,hmem,hfail⟩ := readLoop_refines
    hedd hclean hstack (show 10 < 11 by decide) (Vector.replicate 12 0) hp
    hreg (fun _ => ⟨hlba,hclear⟩) (fun _ _ => rfl)
  have hends : ChunkedReads.Ends disk m.mem lba dest count r := by
    have hread : ChunkedReads.biosReadSectors takeReply disk 11 (Vector.replicate 12 0) lba count
        dest replies m.mem = some r := by
      rw [ChunkedReads.biosReadSectors,if_neg hnone]
      exact hmodel
    exact ChunkedReads.biosReadSectors_run takeReply disk (Vector.replicate 12 0)
      (show 10 < 11 by decide) hlba hnull hclear.fits hclear.bounce hread
  refine ⟨res,m',hrun,hp',?_,fun x hx hxout hxdest => ?_⟩
  · by_cases h0 : r.res = 0
    · refine .inl ⟨hres.symm.trans h0,fun t ht => ?_⟩
      rw [hmem _ (hclear.own t ht),hends.mem h0 (hout t ht),blit_at ht]
    · have hneg := (hends.failure h0).1
      rw [hres] at h0 hneg
      exact .inr ⟨hneg,hfail h0⟩
  · rw [hmem x hx]
    by_cases h0 : r.res = 0
    · rw [hends.mem h0 hxout,blit_outside hxdest]
    · obtain ⟨-,l,hl,hlt,-,hleft⟩ := hends.failure h0
      rw [hleft x hxout,blit_outside (by omega)]

end Loop

/-- Two calls for 65 sectors, of which the second fails for good. -/
theorem biosReadSectors_reads_failing :
    let outcome : ℕ → ℕ → Outcome := fun i _ => if i = 0 then .success else .failure 0
    ∃ res m', biosReadSectors sampleLayout (fun i => eddBios StageOneLoad.numberedDisk (outcome i))
        0x7FF00 0x10634 2048 65 0x100000 callMachine = some (res,m') ∧
      Protected sampleLayout m' ∧ (res = 0 ∧ (∀ t < 512*65, m'.mem (0x100000+t) =
        StageOneLoad.numberedDisk (512*2048+t)) ∨ res = -1 ∧ ∃ i, ∀ j < 3, (outcome i j).Fails) := by
  intro outcome
  have hpl := Layout_places sampleLayout
  have hclean : ∀ i, Clean (outcome i) := by
    intro i
    by_cases hi : i = 0
    · exact .inl (if_pos hi)
    · refine .inr fun j _ => ?_
      change (if i = 0 then Outcome.success else .failure 0).Fails
      rw [if_neg hi]
      trivial
  have hclear : Clear sampleLayout 0x7FF00 0x100000 (512*65) := by
    refine ⟨by decide,by decide,fun t _ => ?_,.inr (by omega)⟩
    unfold Own Scratch
    omega
  obtain ⟨res,m',hrun,hprot,hres,_⟩ := biosReadSectors_reads
    (fun i => eddBios_edd StageOneLoad.numberedDisk (outcome i)) hclean
    (show StackFits 0x7FF00 from ⟨by decide,by decide⟩) callMachine_protected
    ⟨by decide,by decide,by decide,by decide⟩ (show 2048+65 ≤ 4294967296 by decide)
    (show 0x100000 ≠ 0 by decide) hclear
  exact ⟨res,m',hrun,hprot,hres⟩

end Gemiboot.DiskStack
