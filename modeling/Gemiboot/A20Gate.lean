import Mathlib.Order.Filter.AtTopBot.Basic
import Gemiboot.ByteMemory

/-!
# The A20 gate

`check_a20` and `enable_a20` of `io16.S` on a machine whose address bit 20 passes a gate.
There are three ways to open it: the BIOS, the fast gate behind port 0x92, and the output
port of the keyboard controller. The BIOS may do anything to the machine, and a chipset
need not have the fast gate. The controller takes a while over each byte it is sent, and
it answers a command only when its output buffer is empty. Both the fast gate and the
output port also carry the reset line.
-/
namespace Gemiboot.A20Gate
open Filter ByteMemory

/-! ### The machine -/

/-- A byte sent to port 0x64 or to port 0x60. -/
inductive Input where
  | command (c : UInt8)
  | data (d : UInt8)
  deriving DecidableEq

/-- The keyboard controller. -/
structure Kbc where
  /-- Bit 0 is the reset line, active low, and bit 1 the gate. -/
  outputPort : UInt8
  outBuf : Option UInt8
  inBuf : Option Input
  /-- For how many more polls the byte in the input buffer is not looked at. -/
  wait : ℕ
  /-- The next data byte is for the output port. -/
  expecting : Bool
  keyboard : Bool
  /-- How long the `k`-th byte sent takes. -/
  latency : ℕ → ℕ
  sent : ℕ

structure Machine where
  mem : Memory
  gate : Bool
  port92 : UInt8
  kbc : Kbc
  /-- Ghost: the reset line has been pulled. -/
  reset : Bool

structure Chipset where
  /-- INT 15h with AX = 0x2401. -/
  int15 : Machine → Machine
  fastGate : Bool

/-- With the gate closed, bit 20 of an address is zero. -/
def Machine.phys (m : Machine) (a : ℕ) : ℕ :=
  if m.gate then a else if a/1048576%2 = 1 then a-1048576 else a

def Machine.loadWord (m : Machine) (a : ℕ) : ℕ := load 2 m.mem (m.phys a)

def Machine.storeWord (m : Machine) (a v : ℕ) : Machine :=
  {m with mem := store 2 m.mem (m.phys a) v}

/-- `outb %al, $0x92`. -/
def Machine.out92 (hw : Chipset) (v : UInt8) (m : Machine) : Machine :=
  { m with
    port92 := v
    gate := if hw.fastGate then v &&& 2 ≠ 0 else m.gate
    reset := m.reset || v &&& 1 ≠ 0 }

/-- The controller takes the byte out of its input buffer; a command that has an answer
stays there while the output buffer is full. -/
def Machine.process (m : Machine) : Machine :=
  let k := m.kbc
  match k.inBuf with
  | none => m
  | some (.command c) =>
      if c = 0xD0 then
        if k.outBuf.isSome then m
        else {m with kbc := {k with inBuf := none, outBuf := some k.outputPort}}
      else if c = 0xD1 then {m with kbc := {k with inBuf := none, expecting := true}}
      else if c = 0xAD then {m with kbc := {k with inBuf := none, keyboard := false}}
      else if c = 0xAE then {m with kbc := {k with inBuf := none, keyboard := true}}
      else {m with kbc := {k with inBuf := none}}
  | some (.data d) =>
      if k.expecting then
        { m with
          kbc := {k with inBuf := none, expecting := false, outputPort := d}
          gate := d &&& 2 ≠ 0
          reset := m.reset || d &&& 1 = 0 }
      else {m with kbc := {k with inBuf := none}}

/-- `inb $0x64`: whether the output buffer and whether the input buffer is full. -/
def Machine.poll (m : Machine) : (Bool × Bool) × Machine :=
  let m := if m.kbc.wait = 0 then m.process
    else {m with kbc := {m.kbc with wait := m.kbc.wait-1}}
  ((m.kbc.outBuf.isSome,m.kbc.inBuf.isSome),m)

/-- `outb %al, $0x64` and `outb %al, $0x60`. -/
def Machine.send (x : Input) (m : Machine) : Machine :=
  {m with kbc := {m.kbc with
    inBuf := some x, wait := m.kbc.latency m.kbc.sent, sent := m.kbc.sent+1}}

/-- `inb $0x60`. -/
def Machine.receive (m : Machine) : UInt8 × Machine :=
  (m.kbc.outBuf.getD 0,{m with kbc := {m.kbc with outBuf := none}})

/-! ### The routines -/

/-- The value in AX; DS is 0 and ES is 0xFFFF. -/
def checkA20 (m : Machine) : ℕ × Machine :=
  let si := 16*0x0000+0x7DFE
  let di := 16*0xFFFF+0x7E0E
  let cx := m.loadWord si
  let dx := m.loadWord di
  let m := m.storeWord si 0x0000
  let m := m.storeWord di 0xFFFF
  let same := m.loadWord si = 0xFFFF
  let m := m.storeWord si cx
  let m := m.storeWord di dx
  (if same then 0 else 1,m)

def a20WaitKbcIn : ℕ → Machine → Option Machine
  | 0,_ => none
  | fuel+1,m =>
      let ((_,full),m) := m.poll
      if full then a20WaitKbcIn fuel m else some m

def a20WaitKbcOut : ℕ → Machine → Option Machine
  | 0,_ => none
  | fuel+1,m =>
      let ((full,_),m) := m.poll
      if full then some m else a20WaitKbcOut fuel m

/-- Method 2. -/
def fastGateA20 (hw : Chipset) (m : Machine) : Machine :=
  let al := m.port92
  if al &&& 0x02 ≠ 0 then m else m.out92 hw ((al ||| 0x02) &&& 0xFE)

/-- Method 3. -/
def kbcA20 (fuel : ℕ) (m : Machine) : Option Machine := do
  let m ← a20WaitKbcIn fuel m
  let m ← a20WaitKbcIn fuel (m.send (.command 0xAD))
  let m ← a20WaitKbcOut fuel (m.send (.command 0xD0))
  let (al,m) := m.receive
  let m ← a20WaitKbcIn fuel m
  let m ← a20WaitKbcIn fuel (m.send (.command 0xD1))
  let m ← a20WaitKbcIn fuel (m.send (.data (al ||| 2)))
  some (m.send (.command 0xAE))

def enableA20 (fuel : ℕ) (hw : Chipset) (m : Machine) : Option Machine :=
  let (ax,m) := checkA20 m
  if ax ≠ 0 then some m
  else
    let (ax,m) := checkA20 (hw.int15 m)
    if ax ≠ 0 then some m
    else
      let (ax,m) := checkA20 (fastGateA20 hw m)
      if ax ≠ 0 then some m else kbcA20 fuel m

/-! ### The test -/

/-- Storing what is there changes nothing. -/
theorem store_load (w : ℕ) (m : Memory) (a : ℕ) : store w m a (load w m a) = m := by
  have hl : load w (store w m a (load w m a)) a = load w m a :=
    load_store_of_lt m a (load_lt w m a)
  funext x
  by_cases hx : a ≤ x ∧ x < a+w
  · have hb := load_inj hl (x-a) (by omega)
    rwa [Nat.add_sub_cancel' hx.1] at hb
  · exact blit_outside (by omega)

theorem store_store (w : ℕ) (m : Memory) (a u v : ℕ) :
    store w (store w m a u) a v = store w m a v := by
  funext x
  by_cases hx : a ≤ x ∧ x < a+w
  · exact (blit_inside hx.1 hx.2).trans (blit_inside hx.1 hx.2).symm
  · have hout : x < a ∨ a+w ≤ x := by omega
    exact (blit_outside hout).trans ((blit_outside hout).trans (blit_outside hout).symm)

theorem store_comm {w : ℕ} (m : Memory) {a b : ℕ} (u v : ℕ) (h : a+w ≤ b) :
    store w (store w m a u) b v = store w (store w m b v) a u := by
  funext x
  by_cases ha : a ≤ x ∧ x < a+w
  · have hb : x < b ∨ b+w ≤ x := by omega
    calc store w (store w m a u) b v x
        = store w m a u x := blit_outside hb
      _ = byteOf u (x-a) := blit_inside ha.1 ha.2
      _ = store w (store w m b v) a u x := (blit_inside ha.1 ha.2).symm
  · have ha' : x < a ∨ a+w ≤ x := by omega
    have hright : store w (store w m b v) a u x = store w m b v x := blit_outside ha'
    rw [hright]
    by_cases hb : b ≤ x ∧ x < b+w
    · exact (blit_inside hb.1 hb.2).trans (blit_inside hb.1 hb.2).symm
    · have hb' : x < b ∨ b+w ≤ x := by omega
      exact (blit_outside hb').trans ((blit_outside ha').trans (blit_outside hb').symm)

/-- The test tells whether the gate is open, and leaves memory as it was. -/
theorem checkA20_eq (m : Machine) : checkA20 m = (if m.gate then 1 else 0,m) := by
  obtain ⟨mem,gate,port92,kbc,reset⟩ := m
  cases gate with
  | true =>
      have hsi : 0x7DFE+2 ≤ 0x107DFE := by decide
      have hread : load 2 (store 2 (store 2 mem 0x7DFE 0) 0x107DFE 0xFFFF) 0x7DFE = 0 := by
        rw [load_store_outside (.inl hsi)]
        exact load_store_of_lt mem _ (by decide)
      have hback : store 2 (store 2 (store 2 (store 2 mem 0x7DFE 0) 0x107DFE 0xFFFF) 0x7DFE
          (load 2 mem 0x7DFE)) 0x107DFE (load 2 mem 0x107DFE) = mem := by
        rw [← store_comm (store 2 mem 0x7DFE 0) _ _ hsi,store_store,store_store,store_load,
          store_load]
      simp [checkA20,Machine.loadWord,Machine.storeWord,Machine.phys,hread,hback]
  | false =>
      have hread : load 2 (store 2 mem 0x7DFE 0xFFFF) 0x7DFE = 0xFFFF :=
        load_store_of_lt _ _ (by decide)
      simp [checkA20,Machine.loadWord,Machine.storeWord,Machine.phys,hread,store_store,
        store_load]

/-! ### Bits -/

theorem or_and_cancel (a d : UInt8) : (d ||| a) &&& a = a := by
  rw [← UInt8.toBitVec_inj]
  ext i
  simp
  tauto

theorem or_and_disjoint {a b : UInt8} (h : a &&& b = 0) (d : UInt8) :
    (d ||| a) &&& b = d &&& b := by
  rw [← UInt8.toBitVec_inj] at h ⊢
  simp only [UInt8.toBitVec_and,UInt8.toBitVec_or,BitVec.and_or_distrib_right] at h ⊢
  rw [h]
  simp

/-- What is written to port 0x92 opens the gate and leaves the reset line alone. -/
theorem port92_value (al : UInt8) :
    ((al ||| 0x02) &&& 0xFE) &&& 2 ≠ 0 ∧ ((al ||| 0x02) &&& 0xFE) &&& 1 = 0 := by
  constructor
  · rw [UInt8.and_assoc,show (0xFE &&& 2 : UInt8) = 2 by decide,or_and_cancel]
    decide
  · rw [UInt8.and_assoc,show (0xFE &&& 1 : UInt8) = 0 by decide,UInt8.and_zero]

/-! ### The controller -/

/-- The machine once the controller has looked at its input buffer. -/
def Machine.settled (m : Machine) : Machine := {m with kbc := {m.kbc with wait := 0}}.process

/-- The machine after a poll that the controller did nothing for. -/
def Machine.polled (m : Machine) : Machine :=
  {m with kbc := {m.kbc with wait := m.kbc.wait-1}}

theorem poll_busy {m : Machine} {n : ℕ} (h : m.kbc.wait = n+1) :
    m.poll = ((m.kbc.outBuf.isSome,m.kbc.inBuf.isSome),m.polled) := by
  rw [Machine.poll,if_neg (by omega)]
  rfl

theorem poll_due {m : Machine} (h : m.kbc.wait = 0) :
    m.poll = ((m.settled.kbc.outBuf.isSome,m.settled.kbc.inBuf.isSome),m.settled) := by
  obtain ⟨_,_,_,⟨_,_,_,wait,_,_,_,_⟩,_⟩ := m
  subst h
  rfl

theorem settled_polled (m : Machine) : m.polled.settled = m.settled := rfl

/-- Nothing is waiting for the controller. -/
theorem a20WaitKbcIn_idle {m : Machine} (h : m.kbc.inBuf = none) :
    ∀ᶠ fuel in atTop, a20WaitKbcIn fuel m = some m.polled := by
  refine eventually_atTop.mpr ⟨1,?_⟩
  intro fuel hfuel
  obtain ⟨fuel,rfl⟩ : ∃ f, fuel = f+1 := ⟨fuel-1,by omega⟩
  cases hw : m.kbc.wait with
  | zero =>
      have hset : m.settled = m.polled := by
        obtain ⟨_,_,_,⟨_,_,_,_,_,_,_,_⟩,_⟩ := m
        subst h hw
        rfl
      simp [a20WaitKbcIn,poll_due hw,hset,Machine.polled,h]
  | succ n => simp [a20WaitKbcIn,poll_busy hw,h]

/-- A byte that the controller can take is waiting. -/
theorem a20WaitKbcIn_sent {m : Machine} (h : m.kbc.inBuf.isSome)
    (hout : m.settled.kbc.inBuf = none) :
    ∀ᶠ fuel in atTop, a20WaitKbcIn fuel m = some m.settled := by
  refine eventually_atTop.mpr ⟨m.kbc.wait+1,?_⟩
  intro fuel hfuel
  induction fuel generalizing m with
  | zero => omega
  | succ fuel ih =>
      cases hw : m.kbc.wait with
      | zero => simp [a20WaitKbcIn,poll_due hw,hout]
      | succ n =>
          have hn : m.polled.kbc.wait = n := by simp [Machine.polled,hw]
          have hrest := ih (m := m.polled) h (by rwa [settled_polled]) (by omega)
          rw [settled_polled] at hrest
          simpa [a20WaitKbcIn,poll_busy hw,h] using hrest

/-- The answer to the command that is waiting comes. -/
theorem a20WaitKbcOut_answer {m : Machine} (h : m.kbc.outBuf = none)
    (hout : m.settled.kbc.outBuf.isSome) :
    ∀ᶠ fuel in atTop, a20WaitKbcOut fuel m = some m.settled := by
  refine eventually_atTop.mpr ⟨m.kbc.wait+1,?_⟩
  intro fuel hfuel
  induction fuel generalizing m with
  | zero => omega
  | succ fuel ih =>
      cases hw : m.kbc.wait with
      | zero => simp [a20WaitKbcOut,poll_due hw,hout]
      | succ n =>
          have hn : m.polled.kbc.wait = n := by simp [Machine.polled,hw]
          have hrest := ih (m := m.polled) h (by rwa [settled_polled]) (by omega)
          rw [settled_polled] at hrest
          simpa [a20WaitKbcOut,poll_busy hw,h] using hrest

/-- A byte was there before the command, which has to wait. -/
theorem a20WaitKbcOut_stale {m : Machine} {d : UInt8} (h : m.kbc.outBuf = some d)
    (hin : m.kbc.inBuf = some (.command 0xD0)) :
    ∀ᶠ fuel in atTop, a20WaitKbcOut fuel m = some m.polled := by
  refine eventually_atTop.mpr ⟨1,?_⟩
  intro fuel hfuel
  obtain ⟨fuel,rfl⟩ : ∃ f, fuel = f+1 := ⟨fuel-1,by omega⟩
  cases hw : m.kbc.wait with
  | zero =>
      have hset : m.settled = m.polled := by
        obtain ⟨_,_,_,⟨_,_,_,_,_,_,_,_⟩,_⟩ := m
        subst h hin hw
        rfl
      simp [a20WaitKbcOut,poll_due hw,hset,Machine.polled,h]
  | succ n => simp [a20WaitKbcOut,poll_busy hw,h]

/-! ### Method 3 -/

/-- What method 3 takes for the value of the output port. -/
def Kbc.answer (k : Kbc) : UInt8 := k.outBuf.getD k.outputPort

theorem kbcA20_opens {m : Machine} (h : m.kbc.inBuf = none) :
    ∃ m', (∀ᶠ fuel in atTop, kbcA20 fuel m = some m') ∧ m'.gate = true ∧ m'.mem = m.mem ∧
      m'.reset = (m.reset || m.kbc.answer &&& 1 = 0) := by
  obtain ⟨mem,gate,port92,⟨port,buf,inBuf,wait,expecting,keyboard,latency,sent⟩,reset⟩ := m
  subst h
  have hgate (d : UInt8) : (d ||| 2) &&& 2 ≠ 0 := by
    rw [or_and_cancel]
    decide
  have hreset (d : UInt8) : (d ||| 2) &&& 1 = d &&& 1 := or_and_disjoint (by decide) d
  set m : Machine :=
    ⟨mem,gate,port92,⟨port,buf,none,wait,expecting,keyboard,latency,sent⟩,reset⟩ with hm
  have hidle := a20WaitKbcIn_idle (m := m) rfl
  have hoff := a20WaitKbcIn_sent (m := m.polled.send (.command 0xAD)) rfl rfl
  set off := (m.polled.send (.command 0xAD)).settled
  cases buf with
  | none =>
      have hread := a20WaitKbcOut_answer (m := off.send (.command 0xD0)) rfl rfl
      set read := (off.send (.command 0xD0)).settled
      have hfree := a20WaitKbcIn_idle (m := read.receive.2) rfl
      have hwrite := a20WaitKbcIn_sent (m := read.receive.2.polled.send (.command 0xD1)) rfl rfl
      set write := (read.receive.2.polled.send (.command 0xD1)).settled
      have hdata := a20WaitKbcIn_sent (m := write.send (.data (port ||| 2))) rfl rfl
      refine ⟨(write.send (.data (port ||| 2))).settled.send (.command 0xAE),?_,?_,rfl,?_⟩
      · filter_upwards [hidle,hoff,hread,hfree,hwrite,hdata] with fuel hi ho hr hf hw hd
        have hal : read.receive.1 = port := rfl
        simp [kbcA20,hi,ho,hr,hf,hw,hd,hal]
      · exact decide_eq_true (hgate port)
      · change (reset || decide ((port ||| 2) &&& 1 = 0)) = _
        rw [hreset]
        rfl
  | some d =>
      have hread := a20WaitKbcOut_stale (m := off.send (.command 0xD0)) (d := d) rfl rfl
      set read := (off.send (.command 0xD0)).polled
      have hfree := a20WaitKbcIn_sent (m := read.receive.2) rfl rfl
      set free := read.receive.2.settled
      have hwrite := a20WaitKbcIn_sent (m := free.send (.command 0xD1)) rfl rfl
      set write := (free.send (.command 0xD1)).settled
      have hdata := a20WaitKbcIn_sent (m := write.send (.data (d ||| 2))) rfl rfl
      refine ⟨(write.send (.data (d ||| 2))).settled.send (.command 0xAE),?_,?_,rfl,?_⟩
      · filter_upwards [hidle,hoff,hread,hfree,hwrite,hdata] with fuel hi ho hr hf hw hd
        have hal : read.receive.1 = d := rfl
        simp [kbcA20,hi,ho,hr,hf,hw,hd,hal]
      · exact decide_eq_true (hgate d)
      · change (reset || decide ((d ||| 2) &&& 1 = 0)) = _
        rw [hreset]
        rfl

/-! ### All three -/

/-- The BIOS did not open the gate, and neither can the fast gate. -/
def KbcNeeded (hw : Chipset) (m : Machine) : Prop :=
  m.gate = false ∧ (hw.int15 m).gate = false ∧
    (hw.fastGate = false ∨ (hw.int15 m).port92 &&& 2 ≠ 0)

/-- The fast gate never pulls the reset line, which is beside it in port 0x92. -/
theorem fastGateA20_eq (hw : Chipset) (m : Machine) :
    ∃ port92, fastGateA20 hw m = { m with
      port92 := port92, gate := m.port92 &&& 2 = 0 && hw.fastGate || m.gate } := by
  obtain ⟨mem,gate,al,kbc,reset⟩ := m
  by_cases h : al &&& 2 = 0
  · obtain ⟨hset,hlow⟩ := port92_value al
    refine ⟨(al ||| 2) &&& 0xFE,?_⟩
    cases hf : hw.fastGate with
    | true => simp [fastGateA20,Machine.out92,h,hf,hset,hlow]
    | false => simp [fastGateA20,Machine.out92,h,hf,hlow]
  · exact ⟨al,by simp [fastGateA20,h]⟩

/-- However long the controller takes and whatever the BIOS does, the gate is open in the
end, and memory is as the BIOS left it. Neither the fast gate nor the keyboard controller
pulls the reset line, but for a controller whose answer has bit 0 clear, such as a byte of
the keyboard that nobody had read. -/
theorem enableA20_opens (hw : Chipset) (m : Machine)
    (h : (hw.int15 m).kbc.inBuf = none) :
    ∃ m' enough, (∀ fuel ≥ enough, enableA20 fuel hw m = some m') ∧ m'.gate = true ∧
      m'.mem = (if m.gate then m else hw.int15 m).mem ∧
      (m'.reset = true ↔ (if m.gate then m else hw.int15 m).reset = true ∨
        KbcNeeded hw m ∧ (hw.int15 m).kbc.answer &&& 1 = 0) := by
  cases hg : m.gate with
  | true =>
      refine ⟨m,0,fun fuel _ => ?_,hg,by simp,by simp [KbcNeeded,hg]⟩
      simp [enableA20,checkA20_eq,hg]
  | false =>
      set b := hw.int15 m with hb
      cases hbg : b.gate with
      | true =>
          refine ⟨b,0,fun fuel _ => ?_,hbg,by simp,by simp [KbcNeeded,← hb,hbg]⟩
          simp [enableA20,checkA20_eq,hg,← hb,hbg]
      | false =>
          obtain ⟨port92,hfast⟩ := fastGateA20_eq hw b
          set f := fastGateA20 hw b with hfdef
          by_cases hopen : b.port92 &&& 2 = 0 ∧ hw.fastGate = true
          · have hfg : f.gate = true := by simp [hfast,hopen.1,hopen.2]
            refine ⟨f,0,fun fuel _ => ?_,hfg,?_,?_⟩
            · simp [enableA20,checkA20_eq,hg,← hb,hbg,← hfdef,hfg]
            · simp [hfast]
            · simp [KbcNeeded,← hb,hfast,hopen.1,hopen.2]
          · have hfg : f.gate = false := by
              simp only [hfast,hbg,Bool.or_false,Bool.and_eq_false_iff,decide_eq_false_iff_not]
              by_cases h2 : b.port92 &&& 2 = 0
              · exact .inr (by simpa [h2] using hopen)
              · exact .inl h2
            have hneeded : KbcNeeded hw m := by
              refine ⟨hg,hbg,?_⟩
              by_cases h2 : b.port92 &&& 2 = 0
              · exact .inl (by simpa [h2] using hopen)
              · exact .inr h2
            have hkbc : f.kbc = b.kbc := by rw [hfast]
            obtain ⟨m',hrun,hgate,hmem,hreset⟩ := kbcA20_opens (m := f) (hkbc ▸ h)
            obtain ⟨enough,henough⟩ := eventually_atTop.mp hrun
            refine ⟨m',enough,fun fuel hfuel => ?_,hgate,?_,?_⟩
            · simp [enableA20,checkA20_eq,hg,← hb,hbg,← hfdef,hfg,henough fuel hfuel]
            · simp [hmem,hfast]
            · rw [hreset,hkbc]
              simp [hneeded,hfast]

/-- A chipset without the fast gate, a BIOS without the call. -/
def bareChipset : Chipset := ⟨id,false⟩

/-- Nothing has been typed. -/
def idleMachine : Machine :=
  ⟨fun _ => 0,false,0,⟨0xCD,none,none,0,false,true,fun k => k,0⟩,false⟩

theorem enableA20_opens_bare : ∃ m' enough,
    (∀ fuel ≥ enough, enableA20 fuel bareChipset idleMachine = some m') ∧ m'.gate = true ∧
      m'.reset = false := by
  obtain ⟨m',enough,hrun,hgate,_,hreset⟩ := enableA20_opens bareChipset idleMachine rfl
  refine ⟨m',enough,hrun,hgate,?_⟩
  rw [← Bool.not_eq_true,hreset]
  rintro (h | ⟨-,h⟩)
  · exact absurd h (by decide)
  · exact absurd h (by decide)

end Gemiboot.A20Gate
