import Gemiboot.DecimalText
import Gemiboot.FixedBuffers
import Gemiboot.ShortNames

/-!
# The serial console

`serial_putc`, `serial_puts` and `serial_put_dec` of `common/string.c`. The printing
functions never look at the port, so their result is the characters they pass to
`serial_putc`, in order. `serial_putc` itself polls the line status register; a port
that becomes ready again and again takes any sequence of characters.
-/
namespace Gemiboot.SerialPort
open DecimalText FixedBuffers ShortNames

def lineFeed : UInt8 := 0x0A
def carriageReturn : UInt8 := 0x0D

/-- The bytes of a string literal. -/
def asciiText (s : String) : List UInt8 := s.toList.map fun c => UInt8.ofNat c.toNat

/-- COM1 as the poll loop sees it. -/
structure Port where
  /-- What the `k`-th read of the line status register returns. -/
  status : ℕ → UInt8
  reads : ℕ
  sent : List UInt8

/-- `while ((inb(COM1_PORT + 5) & 0x20) == 0);` and then `outb(COM1_PORT, c)`. -/
def serialPutc : ℕ → Port → UInt8 → Option Port
  | 0,_,_ => none
  | fuel+1,p,c =>
      if p.status p.reads &&& 0x20 = 0 then serialPutc fuel {p with reads := p.reads+1} c
      else some {p with reads := p.reads+1, sent := p.sent++[c]}

/-- One call of `serial_putc` for each character. -/
def serialSend (fuel : ℕ) (p : Port) (cs : List UInt8) : Option Port :=
  cs.foldlM (serialPutc fuel) p

/-- LF goes out as CR LF. -/
def expandNewlines (cs : List UInt8) : List UInt8 :=
  cs.flatMap fun c => if c = lineFeed then [carriageReturn,c] else [c]

/-- The characters `serial_puts` passes on; nothing for a null pointer. -/
def serialPuts : Option CString → List UInt8
  | none => []
  | some s => expandNewlines s.chars

/-- `while (val > 0)`, the loop both decimal printers begin with. -/
def pushDigits : ℕ → List UInt8 → ℕ → ℕ → Option (List UInt8 × ℕ)
  | 0,_,_,_ => none
  | fuel+1,buf,i,val =>
      if val > 0 then do
        let buf ← put buf i (digitChar (val%10))
        pushDigits fuel buf (i+1) (val/10)
      else some (buf,i)

/-- `while (i > 0) serial_putc(buf[--i])`. -/
def emitBack (buf : List UInt8) : ℕ → Option (List UInt8)
  | 0 => some []
  | i+1 => do
      let c ← buf[i]?
      let rest ← emitBack buf i
      some (c::rest)

/-- The characters `serial_put_dec` passes to `serial_putc`; `buf` has 12 elements. -/
def serialPutDec (fuel : ℕ) (buf : Vector UInt8 12) (val : ℕ) : Option (List UInt8) :=
  if val = 0 then some [zeroChar]
  else do
    let (buf,i) ← pushDigits fuel buf.toList 0 val
    emitBack buf i

/-! ### The port -/

def Port.KeepsReady (p : Port) : Prop := ∀ k, ∃ j ≥ k, p.status j &&& 0x20 ≠ 0

theorem serialPutc_mono {fuel fuel' : ℕ} {p q : Port} {c : UInt8}
    (h : serialPutc fuel p c = some q) (hf : fuel ≤ fuel') : serialPutc fuel' p c = some q := by
  induction fuel generalizing p fuel' with
  | zero => exact absurd h (by simp [serialPutc])
  | succ fuel ih =>
      cases fuel' with
      | zero => exact absurd hf (Nat.not_succ_le_zero fuel)
      | succ fuel' =>
          unfold serialPutc at h ⊢
          split_ifs at h ⊢ with hp
          · exact ih h (Nat.le_of_succ_le_succ hf)
          · exact h

theorem serialSend_mono {fuel fuel' : ℕ} {p q : Port} {cs : List UInt8}
    (h : serialSend fuel p cs = some q) (hf : fuel ≤ fuel') : serialSend fuel' p cs = some q := by
  induction cs generalizing p with
  | nil => exact h
  | cons c cs ih =>
      rw [serialSend,List.foldlM_cons] at h ⊢
      rcases Option.bind_eq_some_iff.mp h with ⟨r,hr,hrest⟩
      exact Option.bind_eq_some_iff.mpr ⟨r,serialPutc_mono hr hf,ih hrest⟩

/-- The poll loop ends at the first read that shows the port ready. -/
theorem serialPutc_ready {p : Port} (c : UInt8) (d : ℕ)
    (h : p.status (p.reads+d) &&& 0x20 ≠ 0) :
    ∃ n, serialPutc (d+1) p c = some ⟨p.status,n,p.sent++[c]⟩ := by
  induction d generalizing p with
  | zero =>
      rw [Nat.add_zero] at h
      exact ⟨p.reads+1,by rw [serialPutc,if_neg h]⟩
  | succ d ih =>
      by_cases hp : p.status p.reads &&& 0x20 = 0
      · rw [serialPutc,if_pos hp]
        apply ih
        change p.status (p.reads+1+d) &&& 0x20 ≠ 0
        rwa [Nat.add_assoc,Nat.add_comm 1 d]
      · exact ⟨p.reads+1,by rw [serialPutc,if_neg hp]⟩

/-- Every character goes out, in order, on a port that keeps becoming ready. -/
theorem serialSend_sends {p : Port} (h : p.KeepsReady) (cs : List UInt8) :
    ∃ fuel n, serialSend fuel p cs = some ⟨p.status,n,p.sent++cs⟩ := by
  induction cs generalizing p with
  | nil => exact ⟨0,p.reads,by rw [List.append_nil]; rfl⟩
  | cons c cs ih =>
      rcases h p.reads with ⟨j,hj,hready⟩
      have hd : p.reads+(j-p.reads) = j := Nat.add_sub_cancel' hj
      rcases serialPutc_ready c (j-p.reads) (by rwa [hd]) with ⟨k,hk⟩
      have hnext : Port.KeepsReady ⟨p.status,k,p.sent++[c]⟩ := h
      rcases ih hnext with ⟨fuel,n,hn⟩
      refine ⟨max (j-p.reads+1) fuel,n,?_⟩
      rw [serialSend,List.foldlM_cons,serialPutc_mono hk (le_max_left _ _)]
      have hrest := serialSend_mono hn (le_max_right (j-p.reads+1) fuel)
      rwa [List.append_assoc] at hrest

/-! ### Decimal output -/

/-- The division loop writes the digits behind what is there, the least significant first. -/
theorem pushDigits_spec {fuel val : ℕ} {buf l : List UInt8} (h : l <+: buf)
    (hroom : l.length+(reversedDigits val).length ≤ buf.length)
    (hfuel : (reversedDigits val).length < fuel) :
    ∃ buf', pushDigits fuel buf l.length val =
        some (buf',l.length+(reversedDigits val).length) ∧
      l++reversedDigits val <+: buf' ∧ buf'.length = buf.length := by
  induction fuel generalizing val buf l with
  | zero => exact absurd hfuel (Nat.not_lt_zero _)
  | succ fuel ih =>
      rcases Nat.eq_zero_or_pos val with rfl | hval
      · refine ⟨buf,rfl,?_,rfl⟩
        rwa [reversedDigits_zero,List.append_nil]
      · rw [reversedDigits_step hval,List.length_cons] at hroom hfuel
        rcases put_prefix (digitChar (val%10)) h (by omega) with ⟨buf₁,hput,hpre,hlen⟩
        have hl : (l++[digitChar (val%10)]).length = l.length+1 := by simp
        have hroom₁ : (l++[digitChar (val%10)]).length+(reversedDigits (val/10)).length ≤
            buf₁.length := by omega
        rcases ih hpre hroom₁ (by omega) with ⟨buf₂,hrun,hpre₂,hlen₂⟩
        rw [hl] at hrun
        rw [List.append_assoc] at hpre₂
        refine ⟨buf₂,?_,?_,hlen₂.trans hlen⟩
        · rw [pushDigits,if_pos hval,hput,reversedDigits_step hval,List.length_cons]
          change pushDigits fuel buf₁ (l.length+1) (val/10) = _
          rw [hrun,Nat.add_right_comm,Nat.add_assoc]
        · rw [reversedDigits_step hval]
          exact hpre₂

theorem emitBack_spec {buf l : List UInt8} (h : l <+: buf) :
    emitBack buf l.length = some l.reverse := by
  induction l using List.reverseRecOn with
  | nil => rfl
  | append_singleton l c ih =>
      have hc : buf[l.length]? = some c := by
        rcases h with ⟨r,rfl⟩
        rw [List.append_assoc]
        exact getElem?_append_cons l c r
      have hrest := ih ((List.prefix_append l [c]).trans h)
      rw [List.length_append,List.length_singleton,emitBack,hc,hrest]
      simp

theorem serialPutDec_spec {fuel val : ℕ} (buf : Vector UInt8 12) (hval : val < 4294967296)
    (hfuel : 10 < fuel) : serialPutDec fuel buf val = some (decimal val) := by
  unfold serialPutDec decimal
  split_ifs with h
  · rfl
  · have hlen : (reversedDigits val).length ≤ 10 := reversedDigits_length (by omega)
    have hcap : buf.toList.length = 12 := by simp
    rcases pushDigits_spec (List.nil_prefix : [] <+: buf.toList)
      (by rw [List.length_nil]; omega) (show (reversedDigits val).length < fuel by omega)
      with ⟨buf',hrun,hpre,-⟩
    rw [List.length_nil,Nat.zero_add] at hrun
    rw [List.nil_append] at hpre
    rw [hrun]
    exact emitBack_spec hpre

end Gemiboot.SerialPort
