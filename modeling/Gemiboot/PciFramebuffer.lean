import Gemiboot.PciReach
import Gemiboot.PciWindows

/-!
# The framebuffer follows its BAR

On a machine of type 0 functions the scan relocates the 64-bit BARs above 4 GiB of
the functions that are present, and no other register pair. Each of them is
compared with the framebuffer address by the base it had before the scan, which no
other relocation changes, and the ranges are disjoint: at most one of the passes
sets the result.
-/
namespace Gemiboot.PciRemap
open ByteMemory

/-- A 64-bit BAR above 4 GiB of a function that is present. -/
structure HighBar (layout : Layout) (r : Registers) (c : Candidate) (b : MemoryBar) : Prop where
  present : Present r c.fn
  bar : layout c.fn c.bar = some b
  is64 : b.Is64
  above : 0x100000000 ≤ b.base r c.fn c.bar

/-- Every function is type 0, and the BARs above 4 GiB are at most 512 MiB each,
disjoint and below 2^64. They need not fit below 0xE0000000. -/
structure HighBarsApart (layout : Layout) (r : Registers) : Prop where
  headers : ∀ f, Present r f → headerType r f = 0
  sizes : ∀ c b, HighBar layout r c b → b.size ≤ 0x20000000
  disjoint : ∀ c b c' b', HighBar layout r c b → HighBar layout r c' b' → c ≠ c' →
    Disjoint (b.decodes r c.fn c.bar) (b'.decodes r c'.fn c'.bar)
  ends : ∀ c b, HighBar layout r c b → b.base r c.fn c.bar+b.size < 18446744073709551616

/-- What the scan returns and leaves behind: `fbBase` moved along with the BAR that
holds it, the BARs above 4 GiB below it with their flags, and the functions reached. -/
structure FollowsBar (layout : Layout) (r : Registers) (fbBase : ℕ) (t : Reach) : Prop where
  relocated : ∀ f i, t.scan.Relocated f i ↔ ∃ b, HighBar layout r ⟨f,i⟩ b
  unique : ∀ c b c' b', HighBar layout r c b → HighBar layout r c' b' →
    fbBase ∈ b.decodes r c.fn c.bar → fbBase ∈ b'.decodes r c'.fn c'.bar → c = c'
  follows : ∀ c b, HighBar layout r c b → fbBase ∈ b.decodes r c.fn c.bar →
    t.scan.newFbBase = b.base t.scan.regs c.fn c.bar+(fbBase-b.base r c.fn c.bar)
  stays : (∀ c b, HighBar layout r c b → fbBase ∉ b.decodes r c.fn c.bar) →
    t.scan.newFbBase = fbBase
  flags : ∀ c b, HighBar layout r c b →
    pciRead32 t.scan.regs c.fn (barOff c.bar) &&& 0x0F =
      pciRead32 r c.fn (barOff c.bar) &&& 0x0F
  high : ∀ c b, HighBar layout r c b → pciRead32 t.scan.regs c.fn (barOff c.bar+4) = 0
  reached : ∀ f, f ∈ t.funcs ↔ Present r f

variable {hw : Hardware} {r : Registers} {layout : Layout} {fbBase : ℕ}

/-! ### The BARs that are relocated -/

theorem above4g_iff {low high : ℕ} (hl : low < 4294967296) :
    Above4g low high ↔ 0x100000000 ≤ barAddr low high := by
  have hd : low.ldiff 0xF < 2^32 := by
    rw [ldiff_flags]
    omega
  have haddr : barAddr low high = high*2^32+low.ldiff 0xF := by
    rw [barAddr,← Nat.shiftLeft_add_eq_or_of_lt hd,Nat.shiftLeft_eq]
  rw [Above4g,haddr]
  omega

/-- The walk steps on every low dword: it skips only upper halves. -/
theorem mem_barWalk (hb : HardwareBars hw r layout) {f : PciFunction} (h₀ : headerType r f = 0)
    {i : ℕ} {b : MemoryBar} (hl : layout f i = some b) (h64 : b.Is64)
    (ha : Above4g (pciRead32 r f (barOff i)) (pciRead32 r f (barOff i+4))) (fuel : ℕ) {bar : ℕ}
    (hfuel : 6 ≤ bar+fuel) (hle : bar ≤ i)
    (hpos : ∀ j b, bar = j+1 → layout f j = some b → ¬b.Is64) :
    (⟨f,i⟩ : Candidate) ∈ barWalk r f fuel bar := by
  have hi := (hb.dword_lt hl).2 h64
  have hcount : barCount (headerType r f) = 6 := by rw [h₀]; rfl
  induction fuel generalizing bar with
  | zero => omega
  | succ fuel ih =>
      rw [barWalk,if_pos (by omega)]
      by_cases he : bar = i
      · subst he
        rw [if_pos (hb.isWide hl h64),if_pos ha]
        exact .head _
      · by_cases hwide : IsWide (pciRead32 r f (barOff bar)) bar
        · -- a 64-bit BAR before it, whose upper half is not `i`
          have hlow : ∃ b', layout f bar = some b' ∧ b'.Is64 := by
            rcases hb.complete (by omega) hwide with h | ⟨j,b',hj,hl',h64'⟩
            · exact h
            · exact absurd h64' (hpos j b' hj hl')
          obtain ⟨b',hl',h64'⟩ := hlow
          have hnone := hb.apart hl' h64'
          have hne : bar+1 ≠ i := by
            intro he
            rw [he,hl] at hnone
            cases hnone
          have hrest : (⟨f,i⟩ : Candidate) ∈ barWalk r f fuel (bar+2) := by
            apply ih (by omega) (by omega)
            intro j b'' hj hl''
            obtain rfl : j = bar+1 := by omega
            rw [hnone] at hl''
            cases hl''
          rw [if_pos hwide]
          split_ifs
          · exact .tail _ hrest
          · exact hrest
        · rw [if_neg hwide]
          apply ih (by omega) (by omega)
          intro j b' hj hl' h64'
          obtain rfl : j = bar := by omega
          exact hwide (hb.isWide hl' h64')

/-- Candidates are looked for in the functions that are present. -/
theorem candidates_iff {c : Candidate} :
    c ∈ candidates r ↔ Present r c.fn ∧ c ∈ functionCandidates r c.fn := by
  constructor
  · intro h
    obtain ⟨bus,-,hbus⟩ := List.mem_flatMap.mp h
    obtain ⟨slot,-,hslot⟩ := List.mem_flatMap.mp hbus
    obtain ⟨f,hf,hwalk⟩ := List.mem_flatMap.mp hslot
    obtain rfl := (barWalk_mem hwalk).1
    obtain ⟨rfl,rfl,-⟩ := visitedFuncs_mem hf
    exact ⟨(mem_visitedFuncs r c.fn).mp hf,hwalk⟩
  · rintro ⟨hp,h⟩
    refine List.mem_flatMap.mpr ⟨c.fn.bus,List.mem_finRange _,?_⟩
    refine List.mem_flatMap.mpr ⟨c.fn.slot,List.mem_finRange _,?_⟩
    exact List.mem_flatMap.mpr ⟨c.fn,(mem_visitedFuncs r c.fn).mpr hp,h⟩

theorem onlyBars_of_headers (h : ∀ f, Present r f → headerType r f = 0) : OnlyBars r := by
  intro c hc
  have h₀ := h c.fn (candidates_iff.mp hc).1
  rw [h₀]
  exact candidates_bar hc

/-- What is relocated are the 64-bit BARs above 4 GiB. -/
theorem mem_candidates (hb : HardwareBars hw r layout)
    (h : ∀ f, Present r f → headerType r f = 0) {c : Candidate} :
    c ∈ candidates r ↔ ∃ b, HighBar layout r c b := by
  have hbase : ∀ {b : MemoryBar}, b.Is64 → b.base r c.fn c.bar =
      barAddr (pciRead32 r c.fn (barOff c.bar)) (pciRead32 r c.fn (barOff c.bar+4)) := by
    intro b h64
    rw [MemoryBar.base,if_pos h64]
  constructor
  · intro hc
    obtain ⟨b,hl,h64⟩ := candidates_genuine hb (onlyBars_of_headers h) hc
    obtain ⟨hp,hwalk⟩ := candidates_iff.mp hc
    refine ⟨b,hp,hl,h64,?_⟩
    rw [hbase h64]
    exact (above4g_iff (u32_lt _)).mp (barWalk_taken hwalk).2
  · rintro ⟨b,hp,hl,h64,ha⟩
    rw [hbase h64] at ha
    refine candidates_iff.mpr ⟨hp,?_⟩
    exact mem_barWalk hb (h c.fn hp) hl h64 ((above4g_iff (u32_lt _)).mpr ha) 6 le_rfl
      (Nat.zero_le _) fun j b hj => absurd hj (by omega)

/-! ### One relocation -/

theorem HighBar.genuine {c : Candidate} {b : MemoryBar} (h : HighBar layout r c b) :
    c.Genuine layout := ⟨b,h.bar,h.is64⟩

theorem HighBarsApart.probed (hf : HighBarsApart layout r) {c : Candidate} {b : MemoryBar}
    (h : HighBar layout r c b) : 2^b.probed = b.size := b.probed_eq (hf.sizes c b h)

/-- The comparison with the framebuffer, by the base the BAR had. -/
theorem relocate_newFbBase (hb : HardwareBars hw r layout) (hf : HighBarsApart layout r)
    {s : Scan} {c : Candidate} {b : MemoryBar} (h : HighBar layout r c b)
    (hs : b.base s.regs c.fn c.bar = b.base r c.fn c.bar) :
    (fbBase ∈ b.decodes r c.fn c.bar → (relocate hw fbBase s c).newFbBase =
      (relocate hw fbBase s c).next32bitBase+(fbBase-b.base r c.fn c.bar)) ∧
    (fbBase ∉ b.decodes r c.fn c.bar → (relocate hw fbBase s c).newFbBase = s.newFbBase) := by
  have hsize := hf.sizes c b h
  have hend := hf.ends c b h
  have habove := h.above
  have hpos : 0 < b.size := Nat.two_pow_pos _
  have hnext : (relocate hw fbBase s c).next32bitBase < 4294967296 := by
    rw [relocate_next fbBase hb h.bar]
    exact nextBase_lt _ _
  have haddr : barAddr (pciRead32 s.regs c.fn (barOff c.bar))
      (pciRead32 s.regs c.fn (barOff c.bar+4)) = b.base r c.fn c.bar := by
    rw [← hs,MemoryBar.base,if_pos h.is64]
  have hlen := hb.barLen h.bar
    (pciWrite32 hw c.fn 0x04 ((pciRead32 s.regs c.fn 0x04).ldiff 0x02) s)
  rw [hf.probed h] at hlen
  have hfb : (relocate hw fbBase s c).newFbBase =
      if b.base r c.fn c.bar ≠ 0 ∧ fbBase ≥ b.base r c.fn c.bar ∧
          fbBase < u64 (b.base r c.fn c.bar+b.size) then
        u64 ((relocate hw fbBase s c).next32bitBase+(fbBase-b.base r c.fn c.bar))
      else s.newFbBase := by
    rw [← haddr,← hlen]
    rfl
  have hu : u64 (b.base r c.fn c.bar+b.size) = b.base r c.fn c.bar+b.size :=
    Nat.mod_eq_of_lt hend
  rw [hfb,hu]
  constructor
  · intro hin
    have hlt : fbBase-b.base r c.fn c.bar < b.size := by
      have h₁ := hin.1
      have h₂ := hin.2
      omega
    rw [if_pos ⟨by omega,hin.1,hin.2⟩]
    exact Nat.mod_eq_of_lt (by omega)
  · intro hout
    exact if_neg fun hin => hout ⟨hin.2.1,hin.2.2⟩

/-! ### The run -/

/-- Relocating one BAR moves no other. -/
theorem HardwareBars.relocate_kept (hb : HardwareBars hw r layout) {s : Scan} {c : Candidate}
    (hc : c.Genuine layout) {f : PciFunction} {i : ℕ} {b : MemoryBar}
    (hl : layout f i = some b) (hne : (⟨f,i⟩ : Candidate) ≠ c) :
    b.base (relocate hw fbBase s c).regs f i = b.base s.regs f i := by
  have hone : b.base ([c].foldl (relocate hw fbBase) s).regs f i = b.base s.regs f i := by
    apply (hb.foldl_kept _ hl _).2
    · intro c' h
      rw [List.mem_singleton.mp h]
      exact hc
    · rwa [List.mem_singleton]
  exact hone

/-- Relocations of BARs that do not hold the framebuffer leave the result alone. -/
theorem foldl_newFbBase (hb : HardwareBars hw r layout) (hf : HighBarsApart layout r)
    {cs : List Candidate} (hn : cs.Nodup) (hc : ∀ c ∈ cs, ∃ b, HighBar layout r c b) {s : Scan}
    (hs : ∀ c ∈ cs, ∀ b, layout c.fn c.bar = some b →
      b.base s.regs c.fn c.bar = b.base r c.fn c.bar)
    (hout : ∀ c ∈ cs, ∀ b, HighBar layout r c b → fbBase ∉ b.decodes r c.fn c.bar) :
    (cs.foldl (relocate hw fbBase) s).newFbBase = s.newFbBase := by
  induction cs generalizing s with
  | nil => rfl
  | cons c cs ih =>
      obtain ⟨hnot,hn⟩ := List.nodup_cons.mp hn
      obtain ⟨b,h⟩ := hc c (.head cs)
      have hstep := (relocate_newFbBase hb hf h (hs c (.head cs) b h.bar)).2
        (hout c (.head cs) b h)
      rw [List.foldl_cons,ih hn (fun c' h' => hc c' (.tail c h')) _
        (fun c' h' => hout c' (.tail c h')),hstep]
      intro c' h' b' hl'
      rw [hb.relocate_kept h.genuine hl' fun he => hnot (he ▸ h')]
      exact hs c' (.tail c h') b' hl'

/-- The scan up to a BAR above 4 GiB, its relocation, and the scan after it. -/
theorem remap_at (fbBase : ℕ) (hb : HardwareBars hw r layout) (hf : HighBarsApart layout r)
    {c : Candidate} {b : MemoryBar} (h : HighBar layout r c b) :
    ∃ s cs, pciRemapAbove4gBars hw r fbBase = cs.foldl (relocate hw fbBase)
        (relocate hw fbBase s c) ∧
      (c::cs).Nodup ∧ (∀ c' ∈ cs, ∃ b', HighBar layout r c' b') ∧
      pciRead32 s.regs c.fn (barOff c.bar) = pciRead32 r c.fn (barOff c.bar) ∧
      ∀ c' ∈ c::cs, ∀ b', layout c'.fn c'.bar = some b' →
        b'.base s.regs c'.fn c'.bar = b'.base r c'.fn c'.bar := by
  have hmem : ∀ c', c' ∈ candidates r ↔ ∃ b', HighBar layout r c' b' :=
    fun c' => mem_candidates hb hf.headers
  obtain ⟨before,cs,hsplit⟩ := List.append_of_mem ((hmem c).mpr ⟨b,h⟩)
  have hn := candidates_nodup r
  rw [hsplit] at hn
  obtain ⟨-,hn',hapart⟩ := List.nodup_append.mp hn
  have hgenuine : ∀ c' ∈ before, c'.Genuine layout := by
    intro c' h'
    obtain ⟨b',hb'⟩ := (hmem c').mp (by rw [hsplit]; exact List.mem_append_left _ h')
    exact hb'.genuine
  have hkept : ∀ c' ∈ c::cs, ∀ b', layout c'.fn c'.bar = some b' →
      (⟨c'.fn,c'.bar⟩ : Candidate) ∉ before := by
    intro c' h' b' _ hin
    exact hapart _ hin _ h' rfl
  refine ⟨before.foldl (relocate hw fbBase) ⟨r,0xE0000000,fbBase,[],[]⟩,cs,?_,hn',?_,?_,?_⟩
  · rw [pciRemap_eq,hsplit,List.foldl_append,List.foldl_cons]
  · intro c' h'
    exact (hmem c').mp (by rw [hsplit]; exact List.mem_append_right _ (.tail c h'))
  · exact (hb.foldl_kept hgenuine h.bar (hkept c (.head cs) b h.bar)).1
  · intro c' h' b' hl'
    exact (hb.foldl_kept hgenuine hl' (hkept c' h' b' hl')).2

/-! ### The whole scan -/

/-- The framebuffer moves with its BAR, wherever in the scan that comes. -/
theorem newFbBase_follows (hb : HardwareBars hw r layout) (hf : HighBarsApart layout r)
    {c : Candidate} {b : MemoryBar} (h : HighBar layout r c b)
    (hin : fbBase ∈ b.decodes r c.fn c.bar) :
    (pciRemapAbove4gBars hw r fbBase).newFbBase =
      b.base (pciRemapAbove4gBars hw r fbBase).regs c.fn c.bar+
        (fbBase-b.base r c.fn c.bar) := by
  obtain ⟨s,cs,hscan,hn,hcs,hlow,hs⟩ := remap_at fbBase hb hf h
  obtain ⟨hnot,hn'⟩ := List.nodup_cons.mp hn
  have hgenuine : ∀ c' ∈ cs, c'.Genuine layout := fun c' h' => (hcs c' h').choose_spec.genuine
  have hflags : pciRead32 s.regs c.fn (barOff c.bar) &&& 0x0F = b.flags := by
    rw [hlow,hb.reads h.bar]
  obtain ⟨hnext,-,hbase⟩ :=
    relocate_base fbBase hb ((hb.dword_lt h.bar).2 h.is64) h.bar h.is64 hflags
  have hplaced : b.base (relocate hw fbBase s c).regs c.fn c.bar =
      (relocate hw fbBase s c).next32bitBase := by
    rw [hbase,hnext,← hf.probed h]
    exact Nat.div_mul_cancel (nextBase_dvd _ _)
  have hstep := (relocate_newFbBase hb hf h (hs c (.head cs) b h.bar)).1 hin
  have hrest : (cs.foldl (relocate hw fbBase) (relocate hw fbBase s c)).newFbBase =
      (relocate hw fbBase s c).newFbBase := by
    apply foldl_newFbBase hb hf hn' hcs
    · intro c' h' b' hl'
      rw [hb.relocate_kept h.genuine hl' fun he => hnot (he ▸ h')]
      exact hs c' (.tail c h') b' hl'
    · intro c' h' b' hb' hin'
      have hne : c ≠ c' := fun he => hnot (he ▸ h')
      exact Set.disjoint_left.mp (hf.disjoint c b c' b' h hb' hne) hin hin'
  rw [hscan,hrest,hstep,(hb.foldl_kept hgenuine h.bar hnot).2,hplaced]

theorem newFbBase_stays (hb : HardwareBars hw r layout) (hf : HighBarsApart layout r)
    (hout : ∀ c b, HighBar layout r c b → fbBase ∉ b.decodes r c.fn c.bar) :
    (pciRemapAbove4gBars hw r fbBase).newFbBase = fbBase := by
  rw [pciRemap_eq]
  exact foldl_newFbBase hb hf (candidates_nodup r)
    (fun c hc => (mem_candidates hb hf.headers).mp hc) (fun _ _ _ _ => rfl)
    fun c _ b h => hout c b h

/-- Its dwords keep what the relocation wrote. -/
theorem remap_dwords (fbBase : ℕ) (hb : HardwareBars hw r layout) (hf : HighBarsApart layout r)
    {c : Candidate} {b : MemoryBar} (h : HighBar layout r c b) :
    pciRead32 (pciRemapAbove4gBars hw r fbBase).regs c.fn (barOff c.bar) &&& 0x0F = b.flags ∧
      pciRead32 (pciRemapAbove4gBars hw r fbBase).regs c.fn (barOff c.bar+4) = 0 := by
  obtain ⟨s,cs,hscan,hn,hcs,hlow,-⟩ := remap_at fbBase hb hf h
  obtain ⟨hnot,-⟩ := List.nodup_cons.mp hn
  have hgenuine : ∀ c' ∈ cs, c'.Genuine layout := fun c' h' => (hcs c' h').choose_spec.genuine
  have hflags : pciRead32 s.regs c.fn (barOff c.bar) &&& 0x0F = b.flags := by
    rw [hlow,hb.reads h.bar]
  obtain ⟨hl,hh⟩ := relocate_dwords fbBase hb ((hb.dword_lt h.bar).2 h.is64) h.bar h.is64 hflags
  have hhigh : ∀ c' ∈ cs, ¬c'.Touches c.fn (barOff c.bar+4) := by
    intro c' h'
    have hne : c ≠ c' := fun he => hnot (he ▸ h')
    exact (hb.not_touches (hgenuine c' h') h.bar hne).2 h.is64
  have hmask := Nat.and_two_pow_sub_one_eq_mod
    (nextBase s.next32bitBase (2^b.probed)/b.size*b.size+b.flags) 4
  have hd : 16 ∣ nextBase s.next32bitBase (2^b.probed)/b.size*b.size :=
    b.sixteen_dvd.mul_left _
  have hsmall := b.small
  rw [hscan,(hb.foldl_kept hgenuine h.bar hnot).1,pciRead32_foldl hhigh,hl,hh]
  refine ⟨hmask.trans ?_,rfl⟩
  omega

/-- The framebuffer address follows its BAR. -/
theorem pciRemap_followsBar (hb : HardwareBars hw r layout) (hf : HighBarsApart layout r)
    (fbBase : ℕ) : FollowsBar layout r fbBase (pciRemapReach hw r fbBase) := by
  have hscan := pciRemapReach_scan hw r fbBase
  constructor
  · intro f i
    rw [hscan,relocated_iff]
    exact mem_candidates hb hf.headers
  · intro c b c' b' h h' hin hin'
    by_contra hne
    exact Set.disjoint_left.mp (hf.disjoint c b c' b' h h' hne) hin hin'
  · intro c b h hin
    rw [hscan]
    exact newFbBase_follows hb hf h hin
  · intro hout
    rw [hscan]
    exact newFbBase_stays hb hf hout
  · intro c b h
    rw [hscan,(remap_dwords fbBase hb hf h).1,hb.reads h.bar]
  · intro c b h
    rw [hscan]
    exact (remap_dwords fbBase hb hf h).2
  · exact pciRemapReach_iff hw r fbBase

/-! ### One device -/

theorem gpu_present {f : PciFunction} (h : Present gpuRegisters f) : f = gpu := by
  by_contra hne
  apply h.1
  rw [Absent,gpuRegisters_other hne]
  exact .inl (by decide)

section Gpu
variable {k : ℕ} (h₁ : 4 ≤ k) (h₂ : k ≤ 32)

/-- Two of the three BARs are above 4 GiB. -/
theorem gpu_highBar_cases {c : Candidate} {b : MemoryBar}
    (h : HighBar (gpuLayout (gpuBar k h₁ h₂)) gpuRegisters c b) :
    c = ⟨gpu,0⟩ ∧ gpuBar k h₁ h₂ = b ∨ c = ⟨gpu,2⟩ ∧ apertureBar = b := by
  obtain ⟨fn,bar⟩ := c
  obtain ⟨hfn,⟨hbar,hb⟩ | ⟨hbar,hb⟩ | ⟨-,hb⟩⟩ := gpuLayout_some h.bar
  · rw [show fn = gpu from hfn,show bar = 0 from hbar]
    exact .inl ⟨rfl,hb⟩
  · rw [show fn = gpu from hfn,show bar = 2 from hbar]
    exact .inr ⟨rfl,hb⟩
  · exact absurd (hb ▸ h.is64) controlBar_is32

theorem gpu_isPresent : Present gpuRegisters gpu :=
  ⟨by decide +kernel,fun h => absurd rfl h⟩

theorem gpu_highBars : HighBar (gpuLayout (gpuBar k h₁ h₂)) gpuRegisters ⟨gpu,0⟩ (gpuBar k h₁ h₂) ∧
    HighBar (gpuLayout (gpuBar k h₁ h₂)) gpuRegisters ⟨gpu,2⟩ apertureBar := by
  obtain ⟨hfirst,haperture,-⟩ := gpu_bases h₁ h₂
  refine ⟨⟨gpu_isPresent,rfl,gpuBar_is64 _ _,hfirst.ge⟩,⟨gpu_isPresent,rfl,gpuBar_is64 _ _,?_⟩⟩
  rw [haperture]
  decide

theorem gpu_highBarsApart (h : k ≤ 29) :
    HighBarsApart (gpuLayout (gpuBar k h₁ h₂)) gpuRegisters := by
  have hsize : 2^k ≤ 2^29 := Nat.pow_le_pow_right (by decide) h
  obtain ⟨hfirst,haperture,-⟩ := gpu_bases h₁ h₂
  constructor
  · intro f h
    rw [gpu_present h]
    decide +kernel
  · intro c b h
    obtain ⟨-,rfl⟩ | ⟨-,rfl⟩ := gpu_highBar_cases h₁ h₂ h
    · exact hsize
    · decide
  · intro c b c' b' h h' hne
    exact gpu_separate h₁ h₂ h.bar h'.bar hne
  · intro c b h
    obtain ⟨rfl,rfl⟩ | ⟨rfl,rfl⟩ := gpu_highBar_cases h₁ h₂ h
    · rw [hfirst]
      change 0x100000000+2^k < 18446744073709551616
      omega
    · rw [haperture]
      decide

end Gpu

/-- The framebuffer is in the second of two BARs that move. -/
theorem pciRemap_followsBar_gpu :
    let layout := gpuLayout (gpuBar 28 (by decide) (by decide))
    (∃ b, HighBar layout gpuRegisters ⟨gpu,0⟩ b) ∧
      HighBar layout gpuRegisters ⟨gpu,2⟩ apertureBar ∧
      0x200001000 ∈ apertureBar.decodes gpuRegisters gpu 2 ∧
      FollowsBar layout gpuRegisters 0x200001000
        (pciRemapReach (gpuHardware 28) gpuRegisters 0x200001000) := by
  intro layout
  obtain ⟨hfirst,haperture⟩ := gpu_highBars (k := 28) (by decide) (by decide)
  refine ⟨⟨_,hfirst⟩,haperture,?_,?_⟩
  · rw [MemoryBar.decodes,(gpu_bases (k := 28) (by decide) (by decide)).2.1,Set.mem_Ico]
    have hsize : apertureBar.size = 2^24 := rfl
    omega
  · exact pciRemap_followsBar (gpu_hardwareBars _ _) (gpu_highBarsApart _ _ (by decide)) _

end Gemiboot.PciRemap
