import Gemiboot.SerialPort

/-!
# The pause before the kernel

`cmos_get_sec` and `pause_seconds` of the BIOS loader. The clock chip is what the reads
of its data port return; the seconds register is only ever compared, so its encoding
does not matter. A clock that runs ties the reads to a time that never goes back.
-/
namespace Gemiboot.CmosClock
open DecimalText SerialPort ShortNames

/-- The chip behind ports 0x70 and 0x71. -/
structure Cmos where
  /-- What the `k`-th read finds in a register. -/
  register : ℕ → UInt8 → UInt8
  index : UInt8
  reads : ℕ

/-- `outb(0x70, index)`. -/
def Cmos.select (c : Cmos) (index : UInt8) : Cmos := {c with index := index}

/-- `inb(0x71)`. -/
def Cmos.read (c : Cmos) : UInt8 × Cmos :=
  (c.register c.reads c.index,{c with reads := c.reads+1})

/-- `while (inb(0x71) & 0x80)`. -/
def waitForUpdate : ℕ → Cmos → Option Cmos
  | 0,_ => none
  | fuel+1,c =>
      let (a,c) := c.read
      if a &&& 0x80 ≠ 0 then waitForUpdate fuel c else some c

def cmosGetSec (fuel : ℕ) (c : Cmos) : Option (UInt8 × Cmos) := do
  let c ← waitForUpdate fuel (c.select 0x0A)
  some (c.select 0x00).read

/-- `while (cmos_get_sec() == start_sec && timeout < 2000000)`, with what is left of the
timeout. -/
def pollSecond (fuel : ℕ) (startSec : UInt8) : ℕ → Cmos → Option Cmos
  | 0,c => do
      let (_,c) ← cmosGetSec fuel c
      some c
  | n+1,c => do
      let (sec,c) ← cmosGetSec fuel c
      if sec = startSec then pollSecond fuel startSec n c else some c

def timeoutPolls : ℕ := 2000000

def pausingText : CString := ⟨asciiText "[GEMIBOOT] Pausing for ",by simp [asciiText]⟩
def secondsText : CString :=
  ⟨asciiText " seconds before booting kernel...\n",by simp [asciiText]⟩
def bootingText : CString := ⟨asciiText "[GEMIBOOT] Booting in ",by simp [asciiText]⟩
def secondText : CString := ⟨asciiText " second(s)...\n",by simp [asciiText]⟩

/-- `for (s = seconds; s > 0; s--)`, with the characters it prints. -/
def countdown (fuel : ℕ) (buf : Vector UInt8 12) : ℕ → Cmos → Option (List UInt8 × Cmos)
  | 0,c => some ([],c)
  | s+1,c => do
      let (startSec,c) ← cmosGetSec fuel c
      let dec ← serialPutDec fuel buf (s+1)
      let c ← pollSecond fuel startSec timeoutPolls c
      let (rest,c) ← countdown fuel buf s c
      some (serialPuts bootingText++dec++serialPuts secondText++rest,c)

def pauseSeconds (fuel : ℕ) (buf : Vector UInt8 12) (seconds : ℕ) (c : Cmos) :
    Option (List UInt8 × Cmos) := do
  let dec ← serialPutDec fuel buf seconds
  let (rest,c) ← countdown fuel buf seconds c
  some (serialPuts pausingText++dec++serialPuts secondsText++rest,c)

/-! ### The chip -/

/-- The update flag goes off within `d` reads. -/
def Settles (register : ℕ → UInt8 → UInt8) (d : ℕ) : Prop :=
  ∀ k, ∃ j, k ≤ j ∧ j ≤ k+d ∧ register j 0x0A &&& 0x80 = 0

/-- The chip after a reading of the seconds at read `j`. -/
def readAt (register : ℕ → UInt8 → UInt8) (j : ℕ) : Cmos := ⟨register,0x00,j+1⟩

theorem waitForUpdate_settles {register : ℕ → UInt8 → UInt8} {k : ℕ} (d : ℕ)
    (h : ∃ j, k ≤ j ∧ j ≤ k+d ∧ register j 0x0A &&& 0x80 = 0) :
    ∃ j, k ≤ j ∧ j ≤ k+d ∧
      ∀ fuel > d, waitForUpdate fuel ⟨register,0x0A,k⟩ = some ⟨register,0x0A,j+1⟩ := by
  induction d generalizing k with
  | zero =>
      rcases h with ⟨j,hk,hj,hready⟩
      obtain rfl : j = k := by omega
      refine ⟨j,le_rfl,le_rfl,fun fuel hf => ?_⟩
      cases fuel with
      | zero => exact absurd hf (Nat.not_lt_zero 0)
      | succ fuel => simp [waitForUpdate,Cmos.read,hready]
  | succ d ih =>
      by_cases hk : register k 0x0A &&& 0x80 = 0
      · refine ⟨k,le_rfl,Nat.le_add_right k _,fun fuel hf => ?_⟩
        cases fuel with
        | zero => exact absurd hf (Nat.not_lt_zero _)
        | succ fuel => simp [waitForUpdate,Cmos.read,hk]
      · have hlater : ∃ j, k+1 ≤ j ∧ j ≤ k+1+d ∧ register j 0x0A &&& 0x80 = 0 := by
          rcases h with ⟨j,hkj,hj,hready⟩
          have hne : j ≠ k := by
            rintro rfl
            exact hk hready
          exact ⟨j,by omega,by omega,hready⟩
        rcases ih hlater with ⟨j,hkj,hj,hrun⟩
        refine ⟨j,by omega,by omega,fun fuel hf => ?_⟩
        cases fuel with
        | zero => exact absurd hf (Nat.not_lt_zero _)
        | succ fuel =>
            have hrest := hrun fuel (by omega)
            simpa [waitForUpdate,Cmos.read,hk] using hrest

/-- One reading takes between two and `d + 2` reads of the port. -/
theorem cmosGetSec_settles {register : ℕ → UInt8 → UInt8} {d : ℕ} (h : Settles register d)
    (c : Cmos) (hc : c.register = register) :
    ∃ j, c.reads < j ∧ j ≤ c.reads+d+1 ∧
      ∀ fuel > d, cmosGetSec fuel c = some (register j 0,readAt register j) := by
  subst hc
  rcases waitForUpdate_settles d (h c.reads) with ⟨j,hk,hj,hrun⟩
  refine ⟨j+1,by omega,by omega,fun fuel hf => ?_⟩
  have hwait : waitForUpdate fuel (c.select 0x0A) = some ⟨c.register,0x0A,j+1⟩ := hrun fuel hf
  rw [cmosGetSec,hwait]
  rfl

/-- What the countdown prints. -/
def countdownText : ℕ → List UInt8
  | 0 => []
  | s+1 => serialPuts bootingText++decimal (s+1)++serialPuts secondText++countdownText s

def pauseText (seconds : ℕ) : List UInt8 :=
  serialPuts pausingText++decimal seconds++serialPuts secondsText++countdownText seconds

section Settling
variable {register : ℕ → UInt8 → UInt8} {d fuel : ℕ} (h : Settles register d) (hf : d < fuel)
include h hf

theorem pollSecond_settles (startSec : UInt8) (n : ℕ) (c : Cmos) (hc : c.register = register) :
    ∃ c', pollSecond fuel startSec n c = some c' ∧ c'.register = register := by
  induction n generalizing c with
  | zero =>
      rcases cmosGetSec_settles h c hc with ⟨j,-,-,hrun⟩
      exact ⟨readAt register j,by rw [pollSecond,hrun fuel hf]; rfl,rfl⟩
  | succ n ih =>
      rcases cmosGetSec_settles h c hc with ⟨j,-,-,hrun⟩
      rw [pollSecond,hrun fuel hf]
      simp only [Option.bind_eq_bind,Option.bind_some]
      split_ifs
      · exact ih (readAt register j) rfl
      · exact ⟨readAt register j,rfl,rfl⟩

theorem countdown_settles (hf' : 10 < fuel) (buf : Vector UInt8 12) {s : ℕ}
    (hs : s < 4294967296) (c : Cmos) (hc : c.register = register) :
    ∃ c', countdown fuel buf s c = some (countdownText s,c') := by
  induction s generalizing c with
  | zero => exact ⟨c,rfl⟩
  | succ s ih =>
      rcases cmosGetSec_settles h c hc with ⟨j,-,-,hrun⟩
      rcases pollSecond_settles h hf (register j 0) timeoutPolls (readAt register j) rfl with
        ⟨c₁,hpoll,hc₁⟩
      rcases ih (by omega) c₁ hc₁ with ⟨c₂,hrest⟩
      refine ⟨c₂,?_⟩
      rw [countdown,hrun fuel hf,serialPutDec_spec buf hs hf']
      simp only [Option.bind_eq_bind,Option.bind_some,hpoll,hrest]
      rfl

/-- Even a clock that stands still only delays the boot: the timeout ends each wait. -/
theorem pauseSeconds_settles (hf' : 10 < fuel) (buf : Vector UInt8 12) {seconds : ℕ}
    (hs : seconds < 4294967296) (c : Cmos) (hc : c.register = register) :
    ∃ c', pauseSeconds fuel buf seconds c = some (pauseText seconds,c') := by
  rcases countdown_settles h hf hf' buf hs c hc with ⟨c',hrun⟩
  refine ⟨c',?_⟩
  rw [pauseSeconds,serialPutDec_spec buf hs hf',hrun]
  rfl

end Settling

/-! ### A clock that runs -/

/-- `time k` is when the `k`-th read takes place, in units of which `hz` make a second.
The register shows the second of the minute, `d + 2` reads take at most `gap`, which is
no more than half a second, and the timeout is longer than a second. -/
structure Runs (register : ℕ → UInt8 → UInt8) (time : ℕ → ℕ) (hz gap d : ℕ) : Prop where
  settles : Settles register d
  positive : 0 < hz
  monotone : Monotone time
  shown : ∀ k k', register k 0 = register k' 0 ↔ time k/hz%60 = time k'/hz%60
  fine : ∀ k, time (k+(d+2)) ≤ time k+gap
  half : 2*gap ≤ hz
  patient : ∀ k, time k+hz ≤ time (k+timeoutPolls)

/-- The second in which read `k` takes place. -/
def second (time : ℕ → ℕ) (hz k : ℕ) : ℕ := time k/hz

/-- Read `k` comes less than `gap` after the beginning of its second. -/
def Fresh (time : ℕ → ℕ) (hz gap k : ℕ) : Prop := time k < second time hz k*hz+gap

section Running
variable {register : ℕ → UInt8 → UInt8} {time : ℕ → ℕ} {hz gap d : ℕ}

theorem Runs.bounds (h : Runs register time hz gap d) (k : ℕ) :
    second time hz k*hz ≤ time k ∧ time k < second time hz k*hz+hz := by
  have hmod := Nat.mod_lt (time k) h.positive
  have hdiv := Nat.div_add_mod' (time k) hz
  rw [second]
  omega

theorem Runs.gap_le (h : Runs register time hz gap d) {j j' : ℕ} (hj : j' ≤ j+(d+2)) :
    time j' ≤ time j+gap := (h.monotone hj).trans (h.fine j)

theorem Runs.second_le (h : Runs register time hz gap d) {j j' : ℕ} (hj : j ≤ j') :
    second time hz j ≤ second time hz j' := Nat.div_le_div_right (h.monotone hj)

/-- Two readings in a row are in the same second or in the next one. -/
theorem Runs.second_next (h : Runs register time hz gap d) {j j' : ℕ} (hj : j ≤ j')
    (hj' : j' ≤ j+(d+2)) :
    second time hz j' = second time hz j ∨
      second time hz j' = second time hz j+1 ∧ Fresh time hz gap j' := by
  have hle := h.second_le hj
  have hgap := h.gap_le hj'
  have hb := (h.bounds j).2
  have hb' := (h.bounds j').1
  have hhalf := h.half
  have hlt : second time hz j'*hz < (second time hz j+2)*hz := by
    rw [Nat.add_mul]
    omega
  have hsec := Nat.lt_of_mul_lt_mul_right hlt
  rcases Nat.eq_or_lt_of_le hle with heq | hgt
  · exact .inl heq.symm
  · have hone : second time hz j' = second time hz j+1 := by omega
    refine .inr ⟨hone,?_⟩
    rw [Fresh,hone,Nat.succ_mul]
    omega

/-- The wait ends just behind the end of the second it began in. -/
theorem pollSecond_runs (h : Runs register time hz gap d) {fuel : ℕ} (hf : d < fuel) {j₀ : ℕ}
    (n : ℕ) {j : ℕ} (hj : second time hz j = second time hz j₀)
    (hn : second time hz j*hz+hz ≤ time (j+n)) :
    ∃ j', j < j' ∧ pollSecond fuel (register j₀ 0) n (readAt register j) =
        some (readAt register j') ∧
      second time hz j' = second time hz j₀+1 ∧ Fresh time hz gap j' := by
  induction n generalizing j with
  | zero =>
      have hb := (h.bounds j).2
      rw [Nat.add_zero] at hn
      omega
  | succ n ih =>
      rcases cmosGetSec_settles h.settles (readAt register j) rfl with ⟨j',hlt,hle,hrun⟩
      change j+1 < j' at hlt
      change j' ≤ j+1+d+1 at hle
      have hnext := h.second_next (show j ≤ j' by omega) (by omega)
      rw [pollSecond,hrun fuel hf]
      simp only [Option.bind_eq_bind,Option.bind_some]
      by_cases hsec : register j' 0 = register j₀ 0
      · rw [if_pos hsec]
        have hmod := (h.shown j' j₀).mp hsec
        have hsame : second time hz j' = second time hz j := by
          rcases hnext with hs | ⟨hs,-⟩
          · exact hs
          · rw [second,second] at hs hj
            omega
        have hlater : second time hz j'*hz+hz ≤ time (j'+n) := by
          rw [hsame]
          exact hn.trans (h.monotone (by omega))
        rcases ih (hsame.trans hj) hlater with ⟨j'',hlt',hrest⟩
        exact ⟨j'',by omega,hrest⟩
      · rw [if_neg hsec]
        refine ⟨j',by omega,rfl,?_⟩
        rcases hnext with hs | ⟨hs,hfresh⟩
        · have hmod : time j'/hz%60 = time j₀/hz%60 := by
            rw [← second,← second,hs,hj]
          exact absurd ((h.shown j' j₀).mpr hmod) hsec
        · exact ⟨by rw [hs,hj],hfresh⟩

/-- One second of the countdown, from the reading it starts with. -/
theorem countdown_step (h : Runs register time hz gap d) {fuel : ℕ} (hf : d < fuel)
    (hf' : 10 < fuel) (buf : Vector UInt8 12) {s : ℕ} (hs : s+1 < 4294967296) {c : Cmos} {j : ℕ}
    (hc : cmosGetSec fuel c = some (register j 0,readAt register j)) :
    ∃ j', j < j' ∧ second time hz j' = second time hz j+1 ∧ Fresh time hz gap j' ∧
      countdown fuel buf (s+1) c =
        (countdown fuel buf s (readAt register j')).map fun (rest,c) =>
          (serialPuts bootingText++decimal (s+1)++serialPuts secondText++rest,c) := by
  have hpatient : second time hz j*hz+hz ≤ time (j+timeoutPolls) :=
    (Nat.add_le_add_right (h.bounds j).1 hz).trans (h.patient j)
  rcases pollSecond_runs h hf timeoutPolls (j := j) rfl hpatient with ⟨j',hlt,hrun,hsec,hfresh⟩
  refine ⟨j',hlt,hsec,hfresh,?_⟩
  rw [countdown,hc,serialPutDec_spec buf hs hf']
  simp only [Option.bind_eq_bind,Option.bind_some,hrun]
  cases countdown fuel buf s (readAt register j') <;> rfl

/-- Begun just behind the beginning of a second, the countdown ends `s` seconds later. -/
theorem countdown_fresh (h : Runs register time hz gap d) {fuel : ℕ} (hf : d < fuel)
    (hf' : 10 < fuel) (buf : Vector UInt8 12) {s : ℕ} (hs : s < 4294967296) {j : ℕ}
    (hj : Fresh time hz gap j) :
    ∃ j', j ≤ j' ∧ second time hz j' = second time hz j+s ∧ Fresh time hz gap j' ∧
      countdown fuel buf s (readAt register j) = some (countdownText s,readAt register j') := by
  induction s generalizing j with
  | zero => exact ⟨j,le_rfl,rfl,hj,rfl⟩
  | succ s ih =>
      rcases cmosGetSec_settles h.settles (readAt register j) rfl with ⟨j₀,hlt,hle,hread⟩
      change j+1 < j₀ at hlt
      change j₀ ≤ j+1+d+1 at hle
      -- the next reading is still in the second that has just begun
      have hsame : second time hz j₀ = second time hz j := by
        rcases h.second_next (show j ≤ j₀ by omega) (by omega) with hs | ⟨hs,-⟩
        · exact hs
        · have hgap := h.gap_le (show j₀ ≤ j+(d+2) by omega)
          have hb := (h.bounds j₀).1
          have hhalf := h.half
          rw [Fresh] at hj
          rw [hs,Nat.succ_mul] at hb
          omega
      rcases countdown_step h hf hf' buf hs (hread fuel hf) with ⟨j₁,hlt₁,hsec₁,hfresh₁,hrun₁⟩
      rcases ih (by omega) hfresh₁ with ⟨j₂,hle₂,hsec₂,hfresh₂,hrun₂⟩
      refine ⟨j₂,by omega,by omega,hfresh₂,?_⟩
      rw [hrun₁,hrun₂]
      rfl

/-- The pause prints its countdown and takes as long as it says, up to one second: from
its first reading to its last there are more than `seconds - 1` seconds, and less than
`seconds` and one more reading. -/
theorem pauseSeconds_lasts (h : Runs register time hz gap d) {fuel : ℕ} (hf : d < fuel)
    (hf' : 10 < fuel) (buf : Vector UInt8 12) {seconds : ℕ} (hpos : 0 < seconds)
    (hs : seconds < 4294967296) (c : Cmos) (hc : c.register = register) :
    ∃ first last, c.reads < first ∧ first ≤ c.reads+d+1 ∧ first < last ∧
      pauseSeconds fuel buf seconds c =
        some (pauseText seconds,readAt register last) ∧
      time first+(seconds-1)*hz < time last ∧ time last < time first+seconds*hz+gap := by
  obtain ⟨s,rfl⟩ : ∃ s, seconds = s+1 := ⟨seconds-1,by omega⟩
  rcases cmosGetSec_settles h.settles c hc with ⟨j,hlt,hle,hread⟩
  rcases countdown_step h hf hf' buf hs (hread fuel hf) with ⟨j₁,hlt₁,hsec₁,hfresh₁,hrun₁⟩
  rcases countdown_fresh h hf hf' buf (s := s) (by omega) hfresh₁ with ⟨j₂,hle₂,hsec₂,hfresh₂,hrun₂⟩
  refine ⟨j,j₂,hlt,hle,by omega,?_,?_,?_⟩
  · rw [pauseSeconds,serialPutDec_spec buf hs hf',hrun₁,hrun₂]
    rfl
  · have hb := (h.bounds j).2
    have hb₂ := (h.bounds j₂).1
    rw [hsec₂,hsec₁,Nat.add_mul,Nat.succ_mul] at hb₂
    rw [Nat.add_sub_cancel]
    omega
  · have hb := (h.bounds j).1
    rw [Fresh,hsec₂,hsec₁,Nat.add_mul,Nat.succ_mul] at hfresh₂
    rw [Nat.succ_mul]
    omega

end Running

/-- A chip that is never busy and is read a hundred times a second. -/
def quietRegister (k : ℕ) (r : UInt8) : UInt8 := if r = 0 then UInt8.ofNat (k/100%60) else 0

theorem quietRegister_runs : Runs quietRegister id 100 50 0 where
  settles := fun k => ⟨k,le_rfl,le_rfl,by simp [quietRegister]⟩
  positive := by decide
  monotone := monotone_id
  shown := by
    intro k k'
    have hface : ∀ n, (quietRegister n 0).toNat = n/100%60 := by
      intro n
      have hlt := Nat.mod_lt (n/100) (show 0 < 60 by decide)
      exact Nat.mod_eq_of_lt (by omega)
    rw [← UInt8.toNat_inj,hface,hface,id,id]
  fine := fun k => by simp only [id]; omega
  half := by decide
  patient := fun k => by simp only [id,timeoutPolls]; omega

/-- The five seconds of the loader on that chip. -/
theorem pauseSeconds_lasts_quiet : ∃ first last,
    pauseSeconds 11 (Vector.replicate 12 0) 5 ⟨quietRegister,0,0⟩ =
      some (pauseText 5,readAt quietRegister last) ∧ first+400 < last ∧ last < first+550 := by
  rcases pauseSeconds_lasts quietRegister_runs (show _ < 11 by decide) (by decide)
    (Vector.replicate 12 0) (show 0 < 5 by decide) (by decide) ⟨quietRegister,0,0⟩ rfl with
    ⟨first,last,-,-,-,hrun,hlo,hhi⟩
  exact ⟨first,last,hrun,hlo,hhi⟩

end Gemiboot.CmosClock
