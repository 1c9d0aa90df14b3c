import Gemiboot.Packing
import Gemiboot.PciRegisters

/-!
# Where the relocated BARs decode

A memory BAR of size 2^k keeps its flags and ignores writes to the k low bits. The
windows the scan gives out are those of a packing from 0xE0000000 down, as long as
it lasts and no BAR is larger than 512 MiB: from there on the size read back is
replaced by 256 MiB. BARs that stay where they are play no part in the packing.
-/
namespace Gemiboot.PciRemap
open ByteMemory

/-- A memory BAR: the logarithm of its size and the four flag bits. -/
structure MemoryBar where
  sizeLog : ℕ
  flags : ℕ
  small : flags < 16
  memory : flags &&& 0x01 = 0
  least : 4 ≤ sizeLog
  most : sizeLog < if flags>>>1 &&& 0x03 = 0x02 then 64 else 32

def MemoryBar.Is64 (b : MemoryBar) : Prop := b.flags>>>1 &&& 0x03 = 0x02

instance (b : MemoryBar) : Decidable b.Is64 := inferInstanceAs (Decidable (_ = _))

def MemoryBar.size (b : MemoryBar) : ℕ := 2^b.sizeLog

/-- The memory BARs of a machine, by function and dword. -/
abbrev Layout := PciFunction → ℕ → Option MemoryBar

/-- The address in the BAR at dword `i`. -/
def MemoryBar.base (b : MemoryBar) (r : Registers) (f : PciFunction) (i : ℕ) : ℕ :=
  barAddr (pciRead32 r f (barOff i)) (if b.Is64 then pciRead32 r f (barOff i+4) else 0)

def MemoryBar.decodes (b : MemoryBar) (r : Registers) (f : PciFunction) (i : ℕ) : Set ℕ :=
  Set.Ico (b.base r f i) (b.base r f i+b.size)

/-- The registers of the memory BARs, before the scan and under writes. The other
registers of a function may do what they like. -/
structure HardwareBars (hw : Hardware) (r : Registers) (layout : Layout) : Prop where
  slots : ∀ {f i b}, layout f i = some b →
    (if b.Is64 then i+1 else i) < barCount (headerType r f)
  apart : ∀ {f i b}, layout f i = some b → b.Is64 → layout f (i+1) = none
  reads : ∀ {f i b}, layout f i = some b → pciRead32 r f (barOff i) &&& 0x0F = b.flags
  aligned : ∀ {f i b}, layout f i = some b → b.size ∣ b.base r f i
  low : ∀ {f i b}, layout f i = some b → ∀ old val, val < 4294967296 →
    hw (configAddress f (barOff i)) old val = val/b.size*b.size+b.flags
  high : ∀ {f i b}, layout f i = some b → b.Is64 → ∀ old val, val < 4294967296 →
    hw (configAddress f (barOff i+4)) old val = val/2^(b.sizeLog-32)*2^(b.sizeLog-32)
  complete : ∀ {f i}, i+1 < barCount (headerType r f) →
    IsWide (pciRead32 r f (barOff i)) i →
    (∃ b, layout f i = some b ∧ b.Is64) ∨ ∃ j b, i = j+1 ∧ layout f j = some b ∧ b.Is64

/-- The memory BARs decode pairwise disjoint ranges. -/
def Separate (layout : Layout) (r : Registers) : Prop :=
  ∀ {f i b f' i' b'}, layout f i = some b → layout f' i' = some b' →
    (⟨f,i⟩ : Candidate) ≠ ⟨f',i'⟩ → Disjoint (b.decodes r f i) (b'.decodes r f' i')

/-- Relocated BARs decode the windows given to them, below 0xE0000000, and all
memory BARs are disjoint. -/
structure KeepsDisjoint (layout : Layout) (s : Scan) : Prop where
  windows : ∀ x ∈ s.relocated, ∀ b, layout x.fn x.bar = some b →
    b.decodes s.regs x.fn x.bar = Set.Ico x.targetBase (x.targetBase+b.size) ∧
      x.targetBase+b.size ≤ 0xE0000000
  separate : Separate layout s.regs

def Candidate.size (layout : Layout) (c : Candidate) : ℕ :=
  match layout c.fn c.bar with
  | some b => b.size
  | none => 0

/-- The scan takes only BARs for BARs; those it relocates are at most 512 MiB each,
fit below 0xE0000000 one below the other, and land on no BAR that stays. -/
structure Packs (layout : Layout) (r : Registers) : Prop where
  bars : OnlyBars r
  sizes : ∀ c ∈ candidates r, c.size layout ≤ 0x20000000
  fits : Packing.Fits (Candidate.size layout) 0xE0000000 (candidates r)
  clear : ∀ p ∈ Packing.windows (Candidate.size layout) 0xE0000000 (candidates r), ∀ f i b,
    layout f i = some b → ⟨f,i⟩ ∉ candidates r →
    Disjoint (Set.Ico p.2 (p.2+p.1.size layout)) (b.decodes r f i)

/-! ### The arithmetic of one BAR -/

/-- What the probe makes of the size. -/
def MemoryBar.probed (b : MemoryBar) : ℕ := if b.sizeLog ≤ 29 then b.sizeLog else 28

theorem MemoryBar.sixteen_dvd (b : MemoryBar) : 16 ∣ b.size := pow_dvd_pow 2 b.least

theorem MemoryBar.probed_le (b : MemoryBar) : 4 ≤ b.probed ∧ b.probed ≤ 29 := by
  have h := b.least
  rw [MemoryBar.probed]
  split_ifs <;> omega

/-- The probe gives sizes up to 512 MiB right. -/
theorem MemoryBar.probed_eq (b : MemoryBar) (h : b.size ≤ 0x20000000) : 2^b.probed = b.size := by
  have hlog : b.sizeLog ≤ 29 := (Nat.pow_le_pow_iff_right (by decide)).mp h
  rw [MemoryBar.probed,if_pos hlog,MemoryBar.size]

theorem ldiff_flags (x : ℕ) : x.ldiff 0xF = x/16*16 := Packing.ldiff_mask x 4

/-- Flags do not disturb the address bits. -/
theorem add_flags_div {x f n : ℕ} (hx : 16 ∣ x) (hn : 16 ∣ n) (hf : f < 16) :
    (x+f)/n*n = x/n*n := by
  obtain ⟨y,rfl⟩ := hx
  obtain ⟨m,rfl⟩ := hn
  rw [← Nat.div_div_eq_div_mul,← Nat.div_div_eq_div_mul]
  congr 2
  omega

theorem or_flags {x f : ℕ} (hx : 16 ∣ x) (hf : f < 16) : x ||| f = x+f := by
  obtain ⟨y,rfl⟩ := hx
  have h := Nat.shiftLeft_add_eq_or_of_lt (i := 4) (b := f) hf y
  rw [Nat.shiftLeft_eq,Nat.mul_comm] at h
  exact h.symm

/-- All ones written to the low dword give the size back, up to 2 GiB. -/
theorem ones_div {k : ℕ} (hk : k < 32) : 0xFFFFFFFF/2^k*2^k = 4294967296-2^k := by
  have hall : ∀ k < 32, 0xFFFFFFFF/2^k*2^k = 4294967296-2^k := by decide
  exact hall k hk

theorem barLen_probe (b : MemoryBar) :
    barLen (u32 (0xFFFFFFFF/b.size*b.size+b.flags)) = 2^b.probed := by
  have hf := b.small
  have h16 : 16 ∣ 0xFFFFFFFF/b.size*b.size := b.sixteen_dvd.mul_left _
  have hle : 0xFFFFFFFF/b.size*b.size ≤ 0xFFFFFFFF := Nat.div_mul_le_self _ _
  have hread : (u32 (0xFFFFFFFF/b.size*b.size+b.flags)).ldiff 0xF = 0xFFFFFFFF/b.size*b.size := by
    rw [u32_of_lt (by omega),ldiff_flags]
    omega
  rw [barLen,hread,MemoryBar.probed]
  by_cases hk : b.sizeLog < 32
  · have hall : ∀ k < 32, 4 ≤ k → (let len := u32 (4294967295-(4294967296-2^k)+1)
        if len = 0 ∨ len > 0x20000000 then 0x10000000 else len) =
          2^(if k ≤ 29 then k else 28) := by decide
    rw [MemoryBar.size,ones_div hk]
    exact hall b.sizeLog hk b.least
  · have hbig : 2^32 ≤ b.size := Nat.pow_le_pow_right (by decide) (by omega)
    have hz : 0xFFFFFFFF/b.size = 0 := Nat.div_eq_of_lt (by omega)
    rw [hz,Nat.zero_mul,if_neg (show ¬b.sizeLog ≤ 29 by omega)]
    decide

/-- The allocator while there is space. -/
theorem nextBase_eq_place {next n : ℕ} (hn : next < 4294967296) (h : 2^n ≤ next) :
    nextBase next (2^n) = Packing.place next (2^n) := by
  have hu : ∀ m, m ≤ next → u32 (next+4294967296-m) = next-m := by
    intro m hm
    rw [u32]
    omega
  rw [nextBase,hu _ h,Packing.ldiff_mask,Packing.place]

/-- When it runs out, the base wraps into the last 512 MiB. -/
theorem nextBase_wraps {next n : ℕ} (hn : n ≤ 29) (h : next < 2^n) :
    0xE0000000 ≤ nextBase next (2^n) := by
  have hp : 2^n ≤ 2^29 := Nat.pow_le_pow_right (by decide) hn
  have hu : u32 (next+4294967296-2^n) = next+4294967296-2^n := u32_of_lt (by omega)
  have hd : 2^n ∣ 0xE0000000 := (pow_dvd_pow 2 hn).trans (by decide)
  rw [nextBase,hu,Packing.ldiff_mask]
  calc 0xE0000000 = 0xE0000000/2^n*2^n := (Nat.div_mul_cancel hd).symm
    _ ≤ (next+4294967296-2^n)/2^n*2^n :=
      Nat.mul_le_mul_right _ (Nat.div_le_div_right (by omega))

theorem nextBase_lt (next n : ℕ) : nextBase next (2^n) < 4294967296 := by
  rw [nextBase,Packing.ldiff_mask]
  exact (Nat.div_mul_le_self _ _).trans_lt (u32_lt _)

theorem nextBase_dvd (next n : ℕ) : 2^n ∣ nextBase next (2^n) := by
  rw [nextBase,Packing.ldiff_mask]
  exact Dvd.intro_left _ rfl

/-! ### One relocation -/

theorem pciRead32_write_same (hw : Hardware) (f : PciFunction) (o val : ℕ) (s : Scan) :
    pciRead32 (pciWrite32 hw f o val s).regs f o =
      u32 (hw (configAddress f o) (s.regs (configAddress f o)) val) := by
  rw [pciRead32,pciWrite32]
  dsimp only
  rw [Function.update_self]

variable {hw : Hardware} {r : Registers} {layout : Layout} {fbBase : ℕ}

/-- The offsets a relocation writes are three different registers. -/
theorem candidate_offsets {bar : ℕ} (h : bar+1 < 6) : barOff bar &&& 0xFC ≠ 0x04 &&& 0xFC ∧
    barOff bar+4 &&& 0xFC ≠ 0x04 &&& 0xFC ∧ barOff bar &&& 0xFC ≠ barOff bar+4 &&& 0xFC := by
  have h₀ : 0x04 &&& 0xFC = 0x04 := by decide
  rw [h₀,barOff_succ,barOff_and (show bar < 6 by omega),barOff_and h]
  simp only [barOff]
  omega

/-- The length a probe of the BAR gives, whatever the state. -/
theorem HardwareBars.barLen (hb : HardwareBars hw r layout) {f : PciFunction} {i : ℕ}
    {b : MemoryBar} (hl : layout f i = some b) (s : Scan) :
    PciRemap.barLen (pciRead32 (pciWrite32 hw f (barOff i) 0xFFFFFFFF s).regs f (barOff i)) =
      2^b.probed := by
  rw [pciRead32_write_same,hb.low hl _ _ (by decide),barLen_probe]

theorem relocate_next (fbBase : ℕ) (hb : HardwareBars hw r layout) {s : Scan} {c : Candidate}
    {b : MemoryBar} (hl : layout c.fn c.bar = some b) :
    (relocate hw fbBase s c).next32bitBase = nextBase s.next32bitBase (2^b.probed) := by
  rw [← hb.barLen hl (pciWrite32 hw c.fn 0x04 ((pciRead32 s.regs c.fn 0x04).ldiff 0x02) s)]
  rfl

/-- The two dwords of a BAR after its relocation. -/
theorem relocate_dwords (fbBase : ℕ) (hb : HardwareBars hw r layout) {s : Scan} {c : Candidate}
    {b : MemoryBar} (hc : c.bar+1 < 6) (hl : layout c.fn c.bar = some b) (h64 : b.Is64)
    (hs : pciRead32 s.regs c.fn (barOff c.bar) &&& 0x0F = b.flags) :
    pciRead32 (relocate hw fbBase s c).regs c.fn (barOff c.bar) =
        nextBase s.next32bitBase (2^b.probed)/b.size*b.size+b.flags ∧
      pciRead32 (relocate hw fbBase s c).regs c.fn (barOff c.bar+4) = 0 := by
  obtain ⟨h₁,h₂,h₃⟩ := candidate_offsets hc
  have hregs : ∃ s₂ v, (relocate hw fbBase s c).regs =
      (pciWrite32 hw c.fn 0x04 v (pciWrite32 hw c.fn (barOff c.bar+4) 0
        (pciWrite32 hw c.fn (barOff c.bar) ((relocate hw fbBase s c).next32bitBase |||
          (pciRead32 s.regs c.fn (barOff c.bar) &&& 0x0F)) s₂))).regs := ⟨_,_,rfl⟩
  obtain ⟨s₂,v,hregs⟩ := hregs
  rw [relocate_next fbBase hb hl,hs] at hregs
  rw [hregs,pciRead32_write fun _ => h₁,pciRead32_write fun _ => h₃,pciRead32_write_same,
    pciRead32_write fun _ => h₂,pciRead32_write_same]
  have ht := nextBase_lt s.next32bitBase b.probed
  have h16 : 16 ∣ nextBase s.next32bitBase (2^b.probed) :=
    (pow_dvd_pow 2 b.probed_le.1).trans (nextBase_dvd _ _)
  have hf := b.small
  generalize nextBase s.next32bitBase (2^b.probed) = t at ht h16
  have hle : t/b.size*b.size ≤ t := Nat.div_mul_le_self _ _
  have hd : 16 ∣ t/b.size*b.size := b.sixteen_dvd.mul_left _
  have hval : (t ||| b.flags) < 4294967296 := by
    rw [or_flags h16 hf]
    omega
  constructor
  · rw [hb.low hl _ _ hval,or_flags h16 hf,add_flags_div h16 b.sixteen_dvd hf]
    exact u32_of_lt (by omega)
  · rw [hb.high hl h64 _ _ (by decide),Nat.zero_div,Nat.zero_mul]
    rfl

/-- The base a relocated BAR is given, and where it then decodes. -/
theorem relocate_base (fbBase : ℕ) (hb : HardwareBars hw r layout) {s : Scan} {c : Candidate}
    {b : MemoryBar} (hc : c.bar+1 < 6) (hl : layout c.fn c.bar = some b) (h64 : b.Is64)
    (hs : pciRead32 s.regs c.fn (barOff c.bar) &&& 0x0F = b.flags) :
    (relocate hw fbBase s c).next32bitBase = nextBase s.next32bitBase (2^b.probed) ∧
      (relocate hw fbBase s c).relocated =
        ⟨c.fn,c.bar,nextBase s.next32bitBase (2^b.probed)⟩::s.relocated ∧
      b.base (relocate hw fbBase s c).regs c.fn c.bar =
        nextBase s.next32bitBase (2^b.probed)/b.size*b.size := by
  have hnext := relocate_next fbBase hb (s := s) hl
  have hlog : (relocate hw fbBase s c).relocated =
      ⟨c.fn,c.bar,(relocate hw fbBase s c).next32bitBase⟩::s.relocated := rfl
  obtain ⟨hlow,hhigh⟩ := relocate_dwords fbBase hb hc hl h64 hs
  rw [hnext] at hlog
  refine ⟨hnext,hlog,?_⟩
  rw [MemoryBar.base,if_pos h64,hlow,hhigh,barAddr,ldiff_flags,Nat.zero_shiftLeft,Nat.zero_or]
  have hf := b.small
  have hd : 16 ∣ nextBase s.next32bitBase (2^b.probed)/b.size*b.size :=
    b.sixteen_dvd.mul_left _
  omega

/-! ### BARs among the candidates -/

/-- The candidate is the low dword of a 64-bit BAR. -/
def Candidate.Genuine (layout : Layout) (c : Candidate) : Prop :=
  ∃ b, layout c.fn c.bar = some b ∧ b.Is64

theorem barCount_le (t : ℕ) : barCount t ≤ 6 := by
  unfold barCount
  split <;> decide

theorem HardwareBars.dword_lt (hb : HardwareBars hw r layout) {f : PciFunction} {i : ℕ}
    {b : MemoryBar} (hl : layout f i = some b) : i < 6 ∧ (b.Is64 → i+1 < 6) := by
  have hs := hb.slots hl
  have hc := barCount_le (headerType r f)
  by_cases h64 : b.Is64
  · rw [if_pos h64] at hs
    exact ⟨by omega,fun _ => by omega⟩
  · rw [if_neg h64] at hs
    exact ⟨by omega,fun h => absurd h h64⟩

/-- The type bits are among the flags. -/
theorem HardwareBars.isWide (hb : HardwareBars hw r layout) {f : PciFunction} {i : ℕ}
    {b : MemoryBar} (hl : layout f i = some b) (h64 : b.Is64) :
    IsWide (pciRead32 r f (barOff i)) i := by
  have hr := hb.reads hl
  have hmem := b.memory
  have h64' : b.flags>>>1 &&& 0x03 = 0x02 := h64
  rw [← hr,Nat.and_assoc] at hmem
  rw [← hr,Nat.shiftRight_and_distrib,Nat.and_assoc] at h64'
  exact ⟨hmem,h64',(hb.dword_lt hl).2 h64⟩

/-- The walk stands on the upper half of no BAR, so what it finds among the BARs of
the function are 64-bit BARs. -/
theorem barWalk_genuine (hb : HardwareBars hw r layout) (f : PciFunction) (fuel : ℕ) {bar : ℕ}
    (hpos : ∀ j b, bar = j+1 → layout f j = some b → ¬b.Is64) :
    ∀ c ∈ barWalk r f fuel bar, c.bar+1 < barCount (headerType r f) → c.Genuine layout := by
  induction fuel generalizing bar with
  | zero => exact fun c hc => nomatch hc
  | succ fuel ih =>
      intro c hc hlt
      rw [barWalk] at hc
      by_cases hbar : bar < 6
      · rw [if_pos hbar] at hc
        by_cases hwide : IsWide (pciRead32 r f (barOff bar)) bar
        · rw [if_pos hwide] at hc
          have hlow : bar+1 < barCount (headerType r f) → ∃ b, layout f bar = some b ∧ b.Is64 := by
            intro hlt
            rcases hb.complete hlt hwide with h | ⟨j,b,hj,hl,h64⟩
            · exact h
            · exact absurd h64 (hpos j b hj hl)
          have hnext : ∀ c ∈ barWalk r f fuel (bar+2), c.bar+1 < barCount (headerType r f) →
              c.Genuine layout := by
            intro c hc hlt
            have hle := (barWalk_mem hc).2.1
            obtain ⟨b,hl,h64⟩ := hlow (by omega)
            apply ih _ c hc hlt
            intro j b' hj hl'
            obtain rfl : j = bar+1 := by omega
            rw [hb.apart hl h64] at hl'
            cases hl'
          split_ifs at hc
          · rcases List.mem_cons.mp hc with rfl | hc
            · exact hlow hlt
            · exact hnext c hc hlt
          · exact hnext c hc hlt
        · rw [if_neg hwide] at hc
          apply ih _ c hc hlt
          intro j b hj hl h64
          obtain rfl : j = bar := by omega
          exact hwide (hb.isWide hl h64)
      · rw [if_neg hbar] at hc
        cases hc

theorem candidates_genuine (hb : HardwareBars hw r layout) (ho : OnlyBars r) {c : Candidate}
    (hc : c ∈ candidates r) : c.Genuine layout := by
  have hlt := ho c hc
  obtain ⟨bus,-,hc⟩ := List.mem_flatMap.mp hc
  obtain ⟨slot,-,hc⟩ := List.mem_flatMap.mp hc
  obtain ⟨f,-,hc⟩ := List.mem_flatMap.mp hc
  obtain rfl := (barWalk_mem hc).1
  exact barWalk_genuine hb c.fn 6 (fun j b hj => absurd hj (by omega)) c hc hlt

/-- Relocating one BAR touches no register of another. -/
theorem HardwareBars.not_touches (hb : HardwareBars hw r layout) {c : Candidate}
    (hc : c.Genuine layout) {f : PciFunction} {i : ℕ} {b : MemoryBar} (hl : layout f i = some b)
    (hne : ⟨f,i⟩ ≠ c) :
    ¬c.Touches f (barOff i) ∧ (b.Is64 → ¬c.Touches f (barOff i+4)) := by
  obtain ⟨b',hl',h64'⟩ := hc
  have hc6 := (hb.dword_lt hl').2 h64'
  obtain ⟨hi,hi64⟩ := hb.dword_lt hl
  have hnone := hb.apart hl' h64'
  have hlow : f = c.fn → i ≠ c.bar := by
    rintro rfl rfl
    exact hne rfl
  have hhigh : f = c.fn → i ≠ c.bar+1 := by
    rintro rfl rfl
    rw [hnone] at hl
    cases hl
  constructor
  · rintro ⟨hf,ht⟩
    have h₁ := hlow hf
    have h₂ := hhigh hf
    rw [barOff_succ,barOff_and hi,barOff_and (show c.bar < 6 by omega),barOff_and hc6] at ht
    simp only [barOff] at ht
    omega
  · rintro h64 ⟨hf,ht⟩
    have h₁ := hlow hf
    have h₂ : i+1 ≠ c.bar := by
      intro he
      have hn := hb.apart hl h64
      rw [hf,he,hl'] at hn
      cases hn
    rw [barOff_succ,barOff_succ,barOff_and (hi64 h64),barOff_and (show c.bar < 6 by omega),
      barOff_and hc6] at ht
    simp only [barOff] at ht
    omega

/-- The other BARs read as before. -/
theorem HardwareBars.foldl_kept (hb : HardwareBars hw r layout) {cs : List Candidate} {s : Scan}
    (hc : ∀ c ∈ cs, c.Genuine layout) {f : PciFunction} {i : ℕ} {b : MemoryBar}
    (hl : layout f i = some b) (hne : ⟨f,i⟩ ∉ cs) :
    pciRead32 (cs.foldl (relocate hw fbBase) s).regs f (barOff i) =
        pciRead32 s.regs f (barOff i) ∧
      b.base (cs.foldl (relocate hw fbBase) s).regs f i = b.base s.regs f i := by
  have ht : ∀ c ∈ cs, ¬c.Touches f (barOff i) ∧ (b.Is64 → ¬c.Touches f (barOff i+4)) :=
    fun c h => hb.not_touches (hc c h) hl fun he => hne (he ▸ h)
  have hlow : pciRead32 (cs.foldl (relocate hw fbBase) s).regs f (barOff i) =
      pciRead32 s.regs f (barOff i) := pciRead32_foldl fun c h => (ht c h).1
  refine ⟨hlow,?_⟩
  rw [MemoryBar.base,MemoryBar.base,hlow]
  by_cases h64 : b.Is64
  · rw [if_pos h64,if_pos h64,pciRead32_foldl fun c h => (ht c h).2 h64]
  · rw [if_neg h64,if_neg h64]

/-! ### The run -/

def Candidate.probed (layout : Layout) (c : Candidate) : ℕ :=
  match layout c.fn c.bar with
  | some b => b.probed
  | none => 0

/-- The candidates with the bases that the allocator gives them. -/
def assigned (layout : Layout) : ℕ → List Candidate → List (Candidate × ℕ)
  | _,[] => []
  | next,c::cs =>
      (c,nextBase next (2^c.probed layout))::
        assigned layout (nextBase next (2^c.probed layout)) cs

theorem assigned_map_fst (layout : Layout) (next : ℕ) (cs : List Candidate) :
    (assigned layout next cs).map Prod.fst = cs := by
  induction cs generalizing next with
  | nil => rfl
  | cons c cs ih => rw [assigned,List.map_cons,ih]

theorem assigned_mem {next : ℕ} {cs : List Candidate} {p : Candidate × ℕ}
    (hp : p ∈ assigned layout next cs) : p.1 ∈ cs := by
  rw [← assigned_map_fst layout next cs]
  exact List.mem_map_of_mem hp

/-- Each candidate is given one base, and decodes it as far as its size allows. -/
theorem foldl_assigned (fbBase : ℕ) (hb : HardwareBars hw r layout) {cs : List Candidate}
    (hn : cs.Nodup) (hc : ∀ c ∈ cs, c.Genuine layout) {s : Scan}
    (hs : ∀ c ∈ cs, pciRead32 s.regs c.fn (barOff c.bar) = pciRead32 r c.fn (barOff c.bar)) :
    (cs.foldl (relocate hw fbBase) s).relocated =
        ((assigned layout s.next32bitBase cs).map fun p => ⟨p.1.fn,p.1.bar,p.2⟩).reverse++
          s.relocated ∧
      ∀ p ∈ assigned layout s.next32bitBase cs, ∀ b, layout p.1.fn p.1.bar = some b →
        b.base (cs.foldl (relocate hw fbBase) s).regs p.1.fn p.1.bar = p.2/b.size*b.size := by
  induction cs generalizing s with
  | nil => exact ⟨rfl,fun p hp => nomatch hp⟩
  | cons c cs ih =>
      obtain ⟨hnot,hn⟩ := List.nodup_cons.mp hn
      obtain ⟨b,hl,h64⟩ := hc c (.head cs)
      have hcs := fun c' h => hc c' (.tail c h)
      have hflags : pciRead32 s.regs c.fn (barOff c.bar) &&& 0x0F = b.flags := by
        rw [hs c (.head cs),hb.reads hl]
      obtain ⟨hnext,hlog,hbase⟩ :=
        relocate_base fbBase hb ((hb.dword_lt hl).2 h64) hl h64 hflags
      have hkeep : ∀ c' ∈ cs, pciRead32 (relocate hw fbBase s c).regs c'.fn (barOff c'.bar) =
          pciRead32 r c'.fn (barOff c'.bar) := by
        intro c' h
        obtain ⟨b',hl',-⟩ := hcs c' h
        rw [← hs c' (.tail c h)]
        apply pciRead32_relocate
        exact (hb.not_touches ⟨b,hl,h64⟩ hl' fun he => hnot (he ▸ h)).1
      obtain ⟨hrel,hall⟩ := ih hn hcs hkeep
      have hprobed : c.probed layout = b.probed := by
        rw [Candidate.probed,hl]
      rw [List.foldl_cons,assigned,hprobed,← hnext]
      constructor
      · rw [hrel,hlog,List.map_cons,List.reverse_cons,List.append_assoc,hnext]
        rfl
      · intro p hp b' hb'
        rcases List.mem_cons.mp hp with rfl | hp
        · dsimp only at hb' ⊢
          rw [hl] at hb'
          obtain rfl := Option.some.inj hb'
          rw [(hb.foldl_kept hcs hl hnot).2,hbase,hnext]
        · exact hall p hp b' hb'

/-- The whole scan, when it takes only BARs for BARs. -/
theorem remap_assigned (fbBase : ℕ) (hb : HardwareBars hw r layout) (ho : OnlyBars r) :
    (∀ x, x ∈ (pciRemapAbove4gBars hw r fbBase).relocated ↔
      ∃ p ∈ assigned layout 0xE0000000 (candidates r), x = ⟨p.1.fn,p.1.bar,p.2⟩) ∧
    (∀ p ∈ assigned layout 0xE0000000 (candidates r), ∀ b, layout p.1.fn p.1.bar = some b →
      b.base (pciRemapAbove4gBars hw r fbBase).regs p.1.fn p.1.bar = p.2/b.size*b.size) ∧
    (∀ f i b, layout f i = some b → ⟨f,i⟩ ∉ candidates r →
      b.base (pciRemapAbove4gBars hw r fbBase).regs f i = b.base r f i) := by
  have hc : ∀ c ∈ candidates r, c.Genuine layout := fun c => candidates_genuine hb ho
  have hrun := foldl_assigned fbBase hb (candidates_nodup r) hc
    (s := ⟨r,0xE0000000,fbBase,[],[]⟩) fun _ _ => rfl
  rw [← pciRemap_eq] at hrun
  refine ⟨fun x => ?_,hrun.2,fun f i b hl hne => ?_⟩
  · rw [hrun.1,List.append_nil,List.mem_reverse,List.mem_map]
    simp only [eq_comm]
  · rw [pciRemap_eq]
    exact (hb.foldl_kept hc hl hne).2

theorem Candidate.Genuine.sizes {c : Candidate} (h : c.Genuine layout) :
    ∃ b, layout c.fn c.bar = some b ∧ c.size layout = b.size ∧ c.probed layout = b.probed := by
  obtain ⟨b,hl,-⟩ := h
  refine ⟨b,hl,?_,?_⟩
  · rw [Candidate.size,hl]
  · rw [Candidate.probed,hl]

/-- BARs of up to 512 MiB are probed right and packed. -/
theorem assigned_eq_windows {next : ℕ} (hnext : next < 4294967296) {cs : List Candidate}
    (hc : ∀ c ∈ cs, c.Genuine layout) (hs : ∀ c ∈ cs, c.size layout ≤ 0x20000000)
    (hf : Packing.Fits (Candidate.size layout) next cs) :
    assigned layout next cs = Packing.windows (Candidate.size layout) next cs := by
  induction cs generalizing next with
  | nil => rfl
  | cons c cs ih =>
      obtain ⟨b,-,hsize,hprobed⟩ := (hc c (.head cs)).sizes
      obtain ⟨-,hle,hfit⟩ := hf
      have hsmall := hs c (.head cs)
      rw [hsize] at hsmall
      have hexact : 2^c.probed layout = c.size layout := by
        rw [hprobed,hsize]
        exact b.probed_eq hsmall
      have hplace : nextBase next (2^c.probed layout) =
          Packing.place next (c.size layout) := by
        rw [← hexact] at hle ⊢
        exact nextBase_eq_place hnext hle
      have hlt := Packing.place_add_le hle
      rw [assigned,Packing.windows,hplace]
      rw [ih (by omega) (fun c' h => hc c' (.tail c h)) (fun c' h => hs c' (.tail c h)) hfit]

/-- A BAR larger than 512 MiB reaches from its base up to the space already given out. -/
theorem MemoryBar.sizeLog_le {b : MemoryBar} {next : ℕ} (hspace : 2^b.probed ≤ next)
    (hfirst : next ∉ Set.Ico (Packing.place next (2^b.probed))
      (Packing.place next (2^b.probed)+b.size)) : b.sizeLog ≤ 29 := by
  by_contra hbig
  have h28 : b.probed = 28 := if_neg hbig
  have hsize : 2^30 ≤ b.size := Nat.pow_le_pow_right (by decide) (by omega)
  have hle := Packing.place_add_le hspace
  have hlt := Packing.lt_place_add next (Nat.two_pow_pos b.probed)
  rw [h28] at hle hlt hfirst
  exact hfirst ⟨by omega,by omega⟩

/-- Bases that end their windows below 0xE0000000 and lie in no later window come
from a packing: a larger BAR would reach up to the base given out before. -/
theorem packs_of_assigned {next : ℕ} (hnext : next ≤ 0xE0000000) {cs : List Candidate}
    (hc : ∀ c ∈ cs, c.Genuine layout)
    (hend : ∀ p ∈ assigned layout next cs, p.2+p.1.size layout ≤ 0xE0000000)
    (hfirst : ∀ p ∈ assigned layout next cs, next ∉ Set.Ico p.2 (p.2+p.1.size layout))
    (hlater : (assigned layout next cs).Pairwise fun p q =>
      p.2 ∉ Set.Ico q.2 (q.2+q.1.size layout)) :
    Packing.Fits (Candidate.size layout) next cs ∧ ∀ c ∈ cs, c.size layout ≤ 0x20000000 := by
  induction cs generalizing next with
  | nil => exact ⟨trivial,fun c h => nomatch h⟩
  | cons c cs ih =>
      obtain ⟨b,-,hsize,hprobed⟩ := (hc c (.head cs)).sizes
      rw [assigned] at hend hfirst hlater
      obtain ⟨hhead,htail⟩ := List.pairwise_cons.mp hlater
      have hend₀ := hend _ (.head _)
      have hfirst₀ := hfirst _ (.head _)
      dsimp only at hend₀ hfirst₀
      have hpos : 0 < b.size := Nat.two_pow_pos _
      rw [hprobed,hsize] at hend₀ hfirst₀
      -- there is still space for what the probe returned
      have hspace : 2^b.probed ≤ next := by
        by_contra hlt
        have := nextBase_wraps b.probed_le.2 (Nat.lt_of_not_le hlt)
        omega
      rw [nextBase_eq_place (by omega) hspace] at hend₀ hfirst₀
      have hle := Packing.place_add_le hspace
      have hlog := MemoryBar.sizeLog_le hspace hfirst₀
      have hexact : 2^b.probed = c.size layout := by
        rw [hsize,MemoryBar.probed,if_pos hlog,MemoryBar.size]
      have hplace : nextBase next (2^c.probed layout) =
          Packing.place next (c.size layout) := by
        rw [hprobed,nextBase_eq_place (by omega) hspace,hexact]
      have hsmall : c.size layout ≤ 0x20000000 := by
        rw [← hexact]
        exact Nat.pow_le_pow_right (by decide) b.probed_le.2
      rw [hexact] at hle hspace
      rw [hplace] at hhead htail hend
      obtain ⟨hfit,hsizes⟩ := @ih (Packing.place next (c.size layout)) (by omega)
        (fun c' h => hc c' (.tail c h)) (fun p hp => hend p (.tail _ hp)) hhead htail
      refine ⟨⟨by omega,hspace,hfit⟩,?_⟩
      intro c' h
      rcases List.mem_cons.mp h with rfl | h
      · exact hsmall
      · exact hsizes c' h

/-! ### The exact condition -/

theorem decodes_kept {f : PciFunction} {i : ℕ} {b : MemoryBar} {r' : Registers}
    (h : b.base r' f i = b.base r f i) : b.decodes r' f i = b.decodes r f i := by
  rw [MemoryBar.decodes,MemoryBar.decodes,h]

/-- Packed BARs decode their windows. -/
theorem decodes_window (fbBase : ℕ) (hb : HardwareBars hw r layout) (hp : Packs layout r) :
    (∀ x, x ∈ (pciRemapAbove4gBars hw r fbBase).relocated ↔
      ∃ p ∈ Packing.windows (Candidate.size layout) 0xE0000000 (candidates r),
        x = ⟨p.1.fn,p.1.bar,p.2⟩) ∧
    ∀ p ∈ Packing.windows (Candidate.size layout) 0xE0000000 (candidates r), ∀ b,
      layout p.1.fn p.1.bar = some b → p.1.size layout = b.size ∧
        b.decodes (pciRemapAbove4gBars hw r fbBase).regs p.1.fn p.1.bar =
          Set.Ico p.2 (p.2+p.1.size layout) := by
  have hc : ∀ c ∈ candidates r, c.Genuine layout := fun c => candidates_genuine hb hp.bars
  obtain ⟨hrel,hbase,-⟩ := remap_assigned fbBase hb hp.bars
  rw [assigned_eq_windows (by decide) hc hp.sizes hp.fits] at hrel hbase
  refine ⟨hrel,?_⟩
  intro p hp' b hl
  have hsize : p.1.size layout = b.size := by
    rw [Candidate.size,hl]
  have hdvd := Packing.windows_dvd hp'
  rw [hsize] at hdvd
  rw [MemoryBar.decodes,hbase p hp' b hl,Nat.div_mul_cancel hdvd,hsize]
  exact ⟨rfl,rfl⟩

theorem keepsDisjoint_of_packs (hb : HardwareBars hw r layout) (hd : Separate layout r)
    (hp : Packs layout r) : KeepsDisjoint layout (pciRemapAbove4gBars hw r fbBase) := by
  obtain ⟨hrel,hdec⟩ := decodes_window fbBase hb hp
  have hkept : ∀ {f i b}, layout f i = some b → ⟨f,i⟩ ∉ candidates r →
      b.decodes (pciRemapAbove4gBars hw r fbBase).regs f i = b.decodes r f i :=
    fun {f i b} hl hne => decodes_kept ((remap_assigned fbBase hb hp.bars).2.2 f i b hl hne)
  have hmoved : ∀ {f i b}, layout f i = some b → (⟨f,i⟩ : Candidate) ∈ candidates r →
      ∃ t, (⟨f,i⟩,t) ∈ Packing.windows (Candidate.size layout) 0xE0000000 (candidates r) ∧
        b.decodes (pciRemapAbove4gBars hw r fbBase).regs f i =
          Set.Ico t (t+Candidate.size layout ⟨f,i⟩) := by
    intro f i b hl hmem
    rw [← Packing.windows_map_fst (Candidate.size layout) 0xE0000000 (candidates r)]
      at hmem
    obtain ⟨⟨c,t⟩,hp',rfl⟩ := List.mem_map.mp hmem
    exact ⟨t,hp',(hdec _ hp' b hl).2⟩
  constructor
  · intro x hx b hl
    obtain ⟨p,hp',rfl⟩ := (hrel x).mp hx
    obtain ⟨hsize,hrange⟩ := hdec p hp' b hl
    have hle := Packing.windows_le hp.fits hp'
    rw [hsize] at hrange hle
    exact ⟨hrange,hle⟩
  · intro f i b f' i' b' hl hl' hne
    by_cases hm : (⟨f,i⟩ : Candidate) ∈ candidates r
    · obtain ⟨t,ht,hr⟩ := hmoved hl hm
      rw [hr]
      by_cases hm' : (⟨f',i'⟩ : Candidate) ∈ candidates r
      · obtain ⟨t',ht',hr'⟩ := hmoved hl' hm'
        rw [hr']
        exact Packing.windows_disjoint hp.fits ht ht' fun he => hne (Prod.ext_iff.mp he).1
      · rw [hkept hl' hm']
        exact hp.clear _ ht f' i' b' hl' hm'
    · rw [hkept hl hm]
      by_cases hm' : (⟨f',i'⟩ : Candidate) ∈ candidates r
      · obtain ⟨t',ht',hr'⟩ := hmoved hl' hm'
        rw [hr']
        exact (hp.clear _ ht' f i b hl hm).symm
      · rw [hkept hl' hm']
        exact hd hl hl' hne

theorem packs_of_keepsDisjoint (hb : HardwareBars hw r layout) (ho : OnlyBars r)
    (hk : KeepsDisjoint layout (pciRemapAbove4gBars hw r fbBase)) : Packs layout r := by
  have hc : ∀ c ∈ candidates r, c.Genuine layout := fun c => candidates_genuine hb ho
  obtain ⟨hrel,-,hkept⟩ := remap_assigned fbBase hb ho
  have hdec : ∀ p ∈ assigned layout 0xE0000000 (candidates r), ∃ b,
      layout p.1.fn p.1.bar = some b ∧
        b.decodes (pciRemapAbove4gBars hw r fbBase).regs p.1.fn p.1.bar =
          Set.Ico p.2 (p.2+p.1.size layout) ∧ p.2+p.1.size layout ≤ 0xE0000000 := by
    intro p hp
    obtain ⟨b,hl,hsize,-⟩ := (hc p.1 (assigned_mem hp)).sizes
    have hw := hk.windows _ ((hrel _).mpr ⟨p,hp,rfl⟩) b hl
    rw [← hsize] at hw
    exact ⟨b,hl,hw⟩
  have hlater : (assigned layout 0xE0000000 (candidates r)).Pairwise fun p q =>
      p.2 ∉ Set.Ico q.2 (q.2+q.1.size layout) := by
    have hn := candidates_nodup r
    rw [← assigned_map_fst layout 0xE0000000 (candidates r)] at hn
    apply (List.pairwise_map.mp hn).imp_of_mem
    intro p q hp hq hpq hin
    obtain ⟨b,hl,hr,-⟩ := hdec p hp
    obtain ⟨b',hl',hr',-⟩ := hdec q hq
    have hd := hk.separate hl hl' hpq
    rw [hr,hr'] at hd
    have hpos : 0 < p.1.size layout := by
      obtain ⟨b,-,hsize,-⟩ := (hc p.1 (assigned_mem hp)).sizes
      rw [hsize]
      exact Nat.two_pow_pos _
    exact Set.disjoint_left.mp hd ⟨le_rfl,by omega⟩ hin
  obtain ⟨hfits,hsizes⟩ := packs_of_assigned le_rfl hc
    (fun p hp => (hdec p hp).choose_spec.2.2)
    (fun p hp hin => absurd (hdec p hp).choose_spec.2.2 (Nat.not_le_of_lt hin.2)) hlater
  refine ⟨ho,hsizes,hfits,?_⟩
  rw [← assigned_eq_windows (by decide) hc hsizes hfits]
  intro p hp f i b hl hne
  obtain ⟨b',hl',hr,-⟩ := hdec p hp
  have hd := hk.separate hl' hl fun he => hne (he ▸ assigned_mem hp)
  rwa [hr,decodes_kept (hkept f i b hl hne)] at hd

/-- Where only BARs are scanned, packing is also necessary. -/
theorem keepsDisjoint_iff_packs (hb : HardwareBars hw r layout) (hd : Separate layout r)
    (ho : OnlyBars r) :
    KeepsDisjoint layout (pciRemapAbove4gBars hw r fbBase) ↔ Packs layout r :=
  ⟨packs_of_keepsDisjoint hb ho,keepsDisjoint_of_packs hb hd⟩

/-- Relocation keeps the ranges disjoint when the relocated BARs pack, and exactly then
when no register of a bridge moves like a BAR. -/
theorem keepsDisjoint_iff (hb : HardwareBars hw r layout) (hd : Separate layout r) :
    (Packs layout r → KeepsDisjoint layout (pciRemapAbove4gBars hw r fbBase)) ∧
      (OnlyBars r →
        (KeepsDisjoint layout (pciRemapAbove4gBars hw r fbBase) ↔ Packs layout r)) :=
  ⟨keepsDisjoint_of_packs hb hd,keepsDisjoint_iff_packs hb hd⟩

/-! ### One device -/

def gpu : PciFunction := ⟨0,2,0⟩

/-- A single function with prefetchable 64-bit BARs at 4 GiB and at 8 GiB, and a 32-bit
BAR at 0xFE000000. -/
def gpuRegisters : Registers := fun a =>
  if a = configAddress gpu 0x00 then 0x11111234
  else if a = configAddress gpu 0x04 then 0x00000006
  else if a = configAddress gpu 0x0C then 0x00000000
  else if a = configAddress gpu 0x10 ∨ a = configAddress gpu 0x18 then 0x0000000C
  else if a = configAddress gpu 0x14 then 0x00000001
  else if a = configAddress gpu 0x1C then 0x00000002
  else if a = configAddress gpu 0x20 then 0xFE000000
  else if a = configAddress gpu 0x24 then 0
  else 0xFFFFFFFF

/-- The first BAR is 2^`k` bytes long, the others are 16 MiB and 4 KiB. -/
def gpuHardware (k : ℕ) : Hardware := fun a _ val =>
  if a = configAddress gpu 0x10 then val/2^k*2^k+0xC
  else if a = configAddress gpu 0x14 then val/2^(k-32)*2^(k-32)
  else if a = configAddress gpu 0x18 then val/2^24*2^24+0xC
  else if a = configAddress gpu 0x20 then val/2^12*2^12
  else val

def gpuBar (k : ℕ) (h₁ : 4 ≤ k) (h₂ : k ≤ 32) : MemoryBar :=
  ⟨k,0xC,by decide,by decide,h₁,show k < 64 by omega⟩

def apertureBar : MemoryBar := gpuBar 24 (by decide) (by decide)

def controlBar : MemoryBar := ⟨12,0,by decide,by decide,by decide,by decide⟩

def gpuLayout (b : MemoryBar) : Layout := fun f i =>
  if f ≠ gpu then none
  else if i = 0 then some b
  else if i = 2 then some apertureBar
  else if i = 4 then some controlBar
  else none

theorem gpuLayout_some {b b' : MemoryBar} {f : PciFunction} {i : ℕ}
    (h : gpuLayout b f i = some b') : f = gpu ∧ (i = 0 ∧ b = b' ∨ i = 2 ∧ apertureBar = b' ∨
      i = 4 ∧ controlBar = b') := by
  rw [gpuLayout] at h
  split_ifs at h with hf h₀ h₂ h₄
  · exact ⟨not_not.mp hf,.inl ⟨h₀,Option.some.inj h⟩⟩
  · exact ⟨not_not.mp hf,.inr (.inl ⟨h₂,Option.some.inj h⟩)⟩
  · exact ⟨not_not.mp hf,.inr (.inr ⟨h₄,Option.some.inj h⟩)⟩

theorem gpuBar_is64 {k : ℕ} (h₁ : 4 ≤ k) (h₂ : k ≤ 32) : (gpuBar k h₁ h₂).Is64 := by
  show 0xC>>>1 &&& 0x03 = 0x02
  decide

theorem controlBar_is32 : ¬controlBar.Is64 := by decide

/-- Nothing answers elsewhere. -/
theorem gpuRegisters_other {f : PciFunction} (h : f ≠ gpu) (o : ℕ) :
    pciRead32 gpuRegisters f o = 0xFFFFFFFF := by
  have hne : ∀ o', configAddress f o ≠ configAddress gpu o' :=
    fun o' he => h (configAddress_inj.mp he).1
  simp only [pciRead32,gpuRegisters,hne,if_false,or_self]
  decide

theorem gpuRegisters_wide {f : PciFunction} {i : ℕ}
    (h : IsWide (pciRead32 gpuRegisters f (barOff i)) i) : f = gpu ∧ (i = 0 ∨ i = 2) := by
  by_cases hf : f = gpu
  · subst hf
    have hall : ∀ i < 6, IsWide (pciRead32 gpuRegisters gpu (barOff i)) i → i = 0 ∨ i = 2 := by
      decide +kernel
    have hi := h.2.2
    exact ⟨rfl,hall i (by omega) h⟩
  · rw [gpuRegisters_other hf] at h
    exact absurd h.1 (by decide)

theorem gpu_barCount : barCount (headerType gpuRegisters gpu) = 6 := by decide +kernel

/-- The three BARs start in different 4 GiB. -/
theorem gpu_bases {k : ℕ} (h₁ : 4 ≤ k) (h₂ : k ≤ 32) :
    (gpuBar k h₁ h₂).base gpuRegisters gpu 0 = 0x100000000 ∧
      apertureBar.base gpuRegisters gpu 2 = 0x200000000 ∧
      controlBar.base gpuRegisters gpu 4 = 0xFE000000 := by
  refine ⟨?_,by decide +kernel,by decide +kernel⟩
  rw [MemoryBar.base,if_pos (gpuBar_is64 h₁ h₂)]
  decide +kernel

theorem gpu_hardwareBars {k : ℕ} (h₁ : 4 ≤ k) (h₂ : k ≤ 32) :
    HardwareBars (gpuHardware k) gpuRegisters (gpuLayout (gpuBar k h₁ h₂)) where
  slots {f i b} h := by
    obtain ⟨rfl,⟨rfl,rfl⟩ | ⟨rfl,rfl⟩ | ⟨rfl,rfl⟩⟩ := gpuLayout_some h
    all_goals
      rw [gpu_barCount]
      split_ifs <;> decide
  apart {f i b} h h64 := by
    obtain ⟨rfl,⟨rfl,rfl⟩ | ⟨rfl,rfl⟩ | ⟨rfl,rfl⟩⟩ := gpuLayout_some h
    · rfl
    · rfl
    · exact absurd h64 controlBar_is32
  reads {f i b} h := by
    obtain ⟨rfl,⟨rfl,rfl⟩ | ⟨rfl,rfl⟩ | ⟨rfl,rfl⟩⟩ := gpuLayout_some h
    · show pciRead32 gpuRegisters gpu (barOff 0) &&& 0x0F = 0xC
      decide +kernel
    · decide +kernel
    · decide +kernel
  aligned {f i b} h := by
    obtain ⟨hfirst,haperture,hcontrol⟩ := gpu_bases h₁ h₂
    obtain ⟨rfl,⟨rfl,rfl⟩ | ⟨rfl,rfl⟩ | ⟨rfl,rfl⟩⟩ := gpuLayout_some h
    · rw [hfirst]
      exact pow_dvd_pow 2 h₂
    · rw [haperture]
      decide
    · rw [hcontrol]
      decide
  low {f i b} h old val _ := by
    obtain ⟨rfl,⟨rfl,rfl⟩ | ⟨rfl,rfl⟩ | ⟨rfl,rfl⟩⟩ := gpuLayout_some h
    · exact if_pos rfl
    · have h₀ : configAddress gpu (barOff 2) ≠ configAddress gpu 0x10 := by decide +kernel
      have h₁ : configAddress gpu (barOff 2) ≠ configAddress gpu 0x14 := by decide +kernel
      rw [gpuHardware,if_neg h₀,if_neg h₁]
      exact if_pos rfl
    · have h₀ : configAddress gpu (barOff 4) ≠ configAddress gpu 0x10 := by decide +kernel
      have h₁ : configAddress gpu (barOff 4) ≠ configAddress gpu 0x14 := by decide +kernel
      have h₂ : configAddress gpu (barOff 4) ≠ configAddress gpu 0x18 := by decide +kernel
      have h₃ : configAddress gpu (barOff 4) = configAddress gpu 0x20 := by decide +kernel
      rw [gpuHardware,if_neg h₀,if_neg h₁,if_neg h₂,if_pos h₃,
        show controlBar.size = 2^12 by rfl,show controlBar.flags = 0 by rfl,Nat.add_zero]
  high {f i b} h h64 old val _ := by
    obtain ⟨rfl,⟨rfl,rfl⟩ | ⟨rfl,rfl⟩ | ⟨rfl,rfl⟩⟩ := gpuLayout_some h
    · have h₀ : configAddress gpu (barOff 0+4) ≠ configAddress gpu 0x10 := by decide +kernel
      rw [gpuHardware,if_neg h₀]
      exact if_pos rfl
    · have h₀ : configAddress gpu (barOff 2+4) ≠ configAddress gpu 0x10 := by decide +kernel
      have h₁ : configAddress gpu (barOff 2+4) ≠ configAddress gpu 0x14 := by decide +kernel
      have h₂ : configAddress gpu (barOff 2+4) ≠ configAddress gpu 0x18 := by decide +kernel
      have h₃ : configAddress gpu (barOff 2+4) ≠ configAddress gpu 0x20 := by decide +kernel
      rw [gpuHardware,if_neg h₀,if_neg h₁,if_neg h₂,if_neg h₃]
      have hlog : apertureBar.sizeLog-32 = 0 := rfl
      rw [hlog,pow_zero,Nat.div_one,Nat.mul_one]
    · exact absurd h64 controlBar_is32
  complete {f i} _ hwide := by
    obtain ⟨rfl,rfl | rfl⟩ := gpuRegisters_wide hwide
    · exact .inl ⟨gpuBar k h₁ h₂,rfl,gpuBar_is64 h₁ h₂⟩
    · exact .inl ⟨apertureBar,rfl,gpuBar_is64 _ _⟩

/-- Where each BAR lies. -/
theorem gpu_decodes {k : ℕ} (h₁ : 4 ≤ k) (h₂ : k ≤ 32) {f : PciFunction} {i : ℕ} {b : MemoryBar}
    (h : gpuLayout (gpuBar k h₁ h₂) f i = some b) {x : ℕ} (hx : x ∈ b.decodes gpuRegisters f i) :
    i = 0 ∧ x/2^32 = 1 ∨ i = 2 ∧ x/2^32 = 2 ∨ i = 4 ∧ x/2^32 = 0 := by
  obtain ⟨hfirst,haperture,hcontrol⟩ := gpu_bases h₁ h₂
  have hsize : 2^k ≤ 2^32 := Nat.pow_le_pow_right (by decide) h₂
  rw [MemoryBar.decodes,Set.mem_Ico] at hx
  obtain ⟨rfl,⟨rfl,rfl⟩ | ⟨rfl,rfl⟩ | ⟨rfl,rfl⟩⟩ := gpuLayout_some h
  · rw [hfirst,show (gpuBar k h₁ h₂).size = 2^k by rfl] at hx
    omega
  · rw [haperture,show apertureBar.size = 2^24 by rfl] at hx
    omega
  · rw [hcontrol,show controlBar.size = 2^12 by rfl] at hx
    omega

theorem gpu_separate {k : ℕ} (h₁ : 4 ≤ k) (h₂ : k ≤ 32) :
    Separate (gpuLayout (gpuBar k h₁ h₂)) gpuRegisters := by
  intro f i b f' i' b' hl hl' hne
  apply Set.disjoint_left.mpr
  intro x hx hx'
  have hi := gpu_decodes h₁ h₂ hl hx
  have hi' := gpu_decodes h₁ h₂ hl' hx'
  apply hne
  rw [(gpuLayout_some hl).1,(gpuLayout_some hl').1,show i = i' by omega]

theorem gpu_onlyBars : OnlyBars gpuRegisters := by
  intro c hc
  have hg := (gpuRegisters_wide (candidates_isWide hc)).1
  have hbar := candidates_bar hc
  rw [hg]
  exact hbar.trans_eq gpu_barCount.symm

/-- Only the device in slot 2 of bus 0 has something to relocate. -/
theorem gpu_candidates : candidates gpuRegisters = [⟨gpu,0⟩,⟨gpu,2⟩] := by
  have hdevice : ∀ bus slot, (bus,slot) ≠ ((0 : Fin 256),(2 : Fin 32)) →
      deviceCandidates gpuRegisters bus slot = [] := by
    intro bus slot hne
    have habsent : Absent gpuRegisters ⟨bus,slot,0⟩ := by
      have hf : (⟨bus,slot,0⟩ : PciFunction) ≠ gpu := by
        intro he
        rw [gpu,PciFunction.mk.injEq] at he
        exact hne (Prod.ext he.1 he.2.1)
      rw [Absent,gpuRegisters_other hf]
      exact .inl (by decide)
    rw [deviceCandidates,List.finRange_succ,visitedFuncs,if_pos habsent,if_pos rfl]
    rfl
  have hbus : ∀ bus : Fin 255, busCandidates gpuRegisters bus.succ = [] := by
    intro bus
    apply List.flatMap_eq_nil_iff.mpr
    intro slot _
    exact hdevice _ _ fun he => absurd (Prod.ext_iff.mp he).1 (Fin.succ_ne_zero bus)
  have hfirst : busCandidates gpuRegisters 0 = [⟨gpu,0⟩,⟨gpu,2⟩] := by decide +kernel
  rw [candidates,List.finRange_succ,List.flatMap_cons,hfirst,List.flatMap_map,
    List.flatMap_eq_nil_iff.mpr fun bus _ => hbus bus,List.append_nil]

/-- The two high BARs go below 0xE0000000, and the low one is above it. -/
theorem gpu_packs : Packs (gpuLayout (gpuBar 28 (by decide) (by decide))) gpuRegisters := by
  have hfits : Packing.Fits
      (Candidate.size (gpuLayout (gpuBar 28 (by decide) (by decide)))) 0xE0000000
      (candidates gpuRegisters) := by
    rw [gpu_candidates]
    refine ⟨?_,?_,?_,?_,trivial⟩ <;> decide +kernel
  refine ⟨gpu_onlyBars,?_,hfits,?_⟩
  · rw [gpu_candidates]
    decide +kernel
  · intro p hp f i b hl hne
    have hle := Packing.windows_le hfits hp
    obtain ⟨rfl,⟨rfl,-⟩ | ⟨rfl,-⟩ | ⟨rfl,rfl⟩⟩ := gpuLayout_some hl
    · exact absurd (by rw [gpu_candidates]; decide) hne
    · exact absurd (by rw [gpu_candidates]; decide) hne
    · apply Set.disjoint_left.mpr
      intro x hx hx'
      rw [MemoryBar.decodes,(gpu_bases (k := 28) (by decide) (by decide)).2.2] at hx'
      have h₁ := hx.2
      have h₂ := hx'.1
      omega

theorem keepsDisjoint_iff_gpu :
    let layout := gpuLayout (gpuBar 28 (by decide) (by decide))
    Packs layout gpuRegisters ∧
      KeepsDisjoint layout (pciRemapAbove4gBars (gpuHardware 28) gpuRegisters 0) :=
  ⟨gpu_packs,(keepsDisjoint_iff (gpu_hardwareBars _ _)
    fun {_ _ _ _ _ _} => gpu_separate _ _).1 gpu_packs⟩

/-- 1 GiB is probed as 256 MiB, and the BAR decodes from 0xC0000000. -/
theorem gpu_not_keepsDisjoint :
    let layout := gpuLayout (gpuBar 30 (by decide) (by decide))
    HardwareBars (gpuHardware 30) gpuRegisters layout ∧ Separate layout gpuRegisters ∧
      ¬KeepsDisjoint layout (pciRemapAbove4gBars (gpuHardware 30) gpuRegisters 0) := by
  intro layout
  have hb : HardwareBars (gpuHardware 30) gpuRegisters layout := gpu_hardwareBars _ _
  refine ⟨hb,gpu_separate _ _,fun hk => ?_⟩
  have hmem : (⟨gpu,0⟩ : Candidate) ∈ candidates gpuRegisters := by
    rw [gpu_candidates]
    exact .head _
  have hsize := (packs_of_keepsDisjoint hb gpu_onlyBars hk).sizes _ hmem
  revert hsize
  decide +kernel

end Gemiboot.PciRemap
