import Gemiboot.MemoryRoutines

/-!
# memcmp and the string functions

The rest of the byte loops of `common/string.c` in an address space of `w` bytes. All
three comparisons return the difference of the first two bytes that differ, and order
strings and blocks alphabetically by unsigned bytes. A loop that has not found a
terminator when its fuel ends has no result yet.
-/
namespace Gemiboot.StringRoutines
open ByteMemory MemoryRoutines

/-- `for (i = 0; i < n; i++)`, from index `i` on. -/
def memcmpFrom (w : ℕ) (m : Memory) (s1 s2 : ℕ) : ℕ → ℕ → ℤ
  | 0,_ => 0
  | n+1,i =>
      if m ((s1+i)%w) ≠ m ((s2+i)%w) then ((m ((s1+i)%w)).toNat : ℤ)-(m ((s2+i)%w)).toNat
      else memcmpFrom w m s1 s2 n (i+1)

def memcmp (w : ℕ) (m : Memory) (s1 s2 n : ℕ) : ℤ := memcmpFrom w m s1 s2 n 0

/-- `while (s && s[len]) len++`. -/
def strlenFrom (w : ℕ) (m : Memory) (s : ℕ) : ℕ → ℕ → Option ℕ
  | 0,_ => none
  | fuel+1,len =>
      if s ≠ 0 ∧ m ((s+len)%w) ≠ 0 then strlenFrom w m s fuel (len+1) else some len

def strlen (w : ℕ) (m : Memory) (fuel s : ℕ) : Option ℕ := strlenFrom w m s fuel 0

def strcmp (w : ℕ) (m : Memory) : ℕ → ℕ → ℕ → Option ℤ
  | 0,_,_ => none
  | fuel+1,s1,s2 =>
      if m (s1%w) ≠ 0 ∧ m (s1%w) = m (s2%w) then strcmp w m fuel (s1+1) (s2+1)
      else some (((m (s1%w)).toNat : ℤ)-(m (s2%w)).toNat)

def strncmpFrom (w : ℕ) (m : Memory) (s1 s2 : ℕ) : ℕ → ℕ → ℤ
  | 0,_ => 0
  | n+1,i =>
      if m ((s1+i)%w) ≠ m ((s2+i)%w) then ((m ((s1+i)%w)).toNat : ℤ)-(m ((s2+i)%w)).toNat
      else if m ((s1+i)%w) = 0 then 0
      else strncmpFrom w m s1 s2 n (i+1)

def strncmp (w : ℕ) (m : Memory) (s1 s2 n : ℕ) : ℤ := strncmpFrom w m s1 s2 n 0

/-- `while ((*d++ = *src++) != '\0')`. -/
def strcpy (w : ℕ) : ℕ → ℕ → ℕ → Memory → Option Memory
  | 0,_,_,_ => none
  | fuel+1,d,src,m =>
      let c := m (src%w)
      let m := Function.update m (d%w) c
      if c ≠ 0 then strcpy w fuel (d+1) (src+1) m else some m

/-- `strcpy` from a literal, which lies outside of the memory that is written. -/
def strcpyLiteral (m : Memory) (dest : ℕ) : List UInt8 → Memory
  | [] => Function.update m dest 0
  | c::cs => strcpyLiteral (Function.update m dest c) (dest+1) cs

/-! ### Strings and their order -/

/-- The string at `a`, up to its terminator. -/
def StringIn (w : ℕ) (m : Memory) : ℕ → List UInt8 → Prop
  | a,[] => m (a%w) = 0
  | a,c::cs => m (a%w) = c ∧ c ≠ 0 ∧ StringIn w m (a+1) cs

/-- The `n` bytes from `a`. -/
def blockAt (w : ℕ) (m : Memory) : ℕ → ℕ → List UInt8
  | _,0 => []
  | a,n+1 => m (a%w)::blockAt w m (a+1) n

/-- The first two bytes that differ; the end of a string counts as a zero. -/
def difference : List UInt8 → List UInt8 → ℤ
  | [],[] => 0
  | [],b::_ => -b.toNat
  | a::_,[] => a.toNat
  | a::as,b::bs => if a = b then difference as bs else (a.toNat : ℤ)-b.toNat

/-- Neither list ends before the other, unless a byte that is not zero follows. -/
def Comparable (a b : List UInt8) : Prop :=
  a.length = b.length ∨ (∀ c ∈ a, c ≠ 0) ∧ ∀ c ∈ b, c ≠ 0

theorem Comparable.tail {a b : UInt8} {as bs : List UInt8} (h : Comparable (a::as) (b::bs)) :
    Comparable as bs := by
  rcases h with h | ⟨ha,hb⟩
  · exact .inl (Nat.succ.inj h)
  · exact .inr ⟨fun c hc => ha c (.tail _ hc),fun c hc => hb c (.tail _ hc)⟩

theorem Comparable.symm {a b : List UInt8} (h : Comparable a b) : Comparable b a :=
  h.imp Eq.symm And.symm

theorem toNat_pos {c : UInt8} (h : c ≠ 0) : 0 < c.toNat := by
  rcases Nat.eq_zero_or_pos c.toNat with hz | hp
  · exact absurd (UInt8.toNat_inj.mp hz) h
  · exact hp

theorem difference_swap (a b : List UInt8) : difference b a = -difference a b := by
  induction a generalizing b with
  | nil => cases b <;> simp [difference]
  | cons c cs ih =>
      cases b with
      | nil => simp [difference]
      | cons d ds =>
          rw [difference,difference]
          by_cases h : c = d
          · rw [if_pos h,if_pos h.symm,ih]
          · rw [if_neg h,if_neg (Ne.symm h),neg_sub]

/-- The sign of the difference is the alphabetical order. -/
theorem difference_neg {a b : List UInt8} (h : Comparable a b) : difference a b < 0 ↔ a < b := by
  induction a generalizing b with
  | nil =>
      cases b with
      | nil => simp [difference]
      | cons d ds =>
          have hd : d ≠ 0 := by
            rcases h with h | h
            · cases h
            · exact h.2 d List.mem_cons_self
          have hp := toNat_pos hd
          rw [difference]
          exact ⟨fun _ => List.nil_lt_cons d ds,fun _ => by omega⟩
  | cons c cs ih =>
      cases b with
      | nil =>
          rw [difference]
          exact ⟨fun hlt => by omega,fun hlt => absurd hlt (List.not_lt_nil _)⟩
      | cons d ds =>
          rw [difference,List.cons_lt_cons_iff]
          by_cases hcd : c = d
          · rw [if_pos hcd,ih h.tail]
            have hirr : ¬c < d := by
              rw [hcd]
              exact UInt8.lt_irrefl d
            tauto
          · rw [if_neg hcd,UInt8.lt_iff_toNat_lt]
            constructor
            · exact fun hlt => .inl (by omega)
            · rintro (hlt | ⟨heq,-⟩)
              · omega
              · exact absurd heq hcd

theorem difference_self (a : List UInt8) : difference a a = 0 := by
  induction a with
  | nil => rfl
  | cons c cs ih =>
      rw [difference,if_pos rfl]
      exact ih

theorem difference_zero {a b : List UInt8} (h : Comparable a b) :
    difference a b = 0 ↔ a = b := by
  constructor
  · induction a generalizing b with
    | nil =>
        cases b with
        | nil => exact fun _ => rfl
        | cons d ds =>
            have hnil : ¬difference [] (d::ds) < 0 → False := fun hn =>
              hn ((difference_neg h).mpr (List.nil_lt_cons d ds))
            exact fun hz => (hnil (by omega)).elim
    | cons c cs ih =>
        cases b with
        | nil =>
            have hnil := (difference_neg h.symm).mpr (List.nil_lt_cons c cs)
            rw [difference_swap] at hnil
            exact fun hz => absurd hz (by omega)
        | cons d ds =>
            rw [difference]
            split_ifs with hcd
            · intro hz
              rw [hcd,ih h.tail hz]
            · intro hz
              exact absurd (UInt8.toNat_inj.mp (by omega)) hcd
  · rintro rfl
    exact difference_self a

/-! ### The loops -/

section Loops
variable {w : ℕ} {m : Memory} {a b : List UInt8} {s1 s2 : ℕ}

theorem StringIn.nonzero (h : StringIn w m s1 a) : ∀ c ∈ a, c ≠ 0 := by
  induction a generalizing s1 with
  | nil => simp
  | cons c cs ih =>
      rw [List.forall_mem_cons]
      exact ⟨h.2.1,ih h.2.2⟩

theorem StringIn.comparable (ha : StringIn w m s1 a) (hb : StringIn w m s2 b) :
    Comparable a b := .inr ⟨ha.nonzero,hb.nonzero⟩

theorem strcmp_eq (ha : StringIn w m s1 a) (hb : StringIn w m s2 b) {fuel : ℕ}
    (hf : a.length < fuel) : strcmp w m fuel s1 s2 = some (difference a b) := by
  induction fuel generalizing a b s1 s2 with
  | zero => exact absurd hf (Nat.not_lt_zero _)
  | succ fuel ih =>
      rw [strcmp]
      cases a with
      | nil =>
          have h₁ : m (s1%w) = 0 := ha
          rw [if_neg fun hand => hand.1 h₁,h₁]
          cases b with
          | nil =>
              have h₂ : m (s2%w) = 0 := hb
              rw [h₂]
              rfl
          | cons d ds =>
              rw [hb.1,difference]
              congr 1
              exact zero_sub _
      | cons c cs =>
          have hc : m (s1%w) = c := ha.1
          cases b with
          | nil =>
              have h₂ : m (s2%w) = 0 := hb
              rw [hc,h₂,if_neg fun hand => ha.2.1 hand.2,difference]
              congr 1
          | cons d ds =>
              have hd : m (s2%w) = d := hb.1
              rw [hc,hd,difference]
              by_cases hcd : c = d
              · rw [if_pos ⟨ha.2.1,hcd⟩,if_pos hcd]
                exact ih ha.2.2 hb.2.2 (Nat.lt_of_succ_lt_succ hf)
              · rw [if_neg fun hand => hcd hand.2,if_neg hcd]

theorem strncmpFrom_eq (n : ℕ) {i : ℕ} (ha : StringIn w m (s1+i) a)
    (hb : StringIn w m (s2+i) b) :
    strncmpFrom w m s1 s2 n i = difference (a.take n) (b.take n) := by
  induction n generalizing i a b with
  | zero => rfl
  | succ n ih =>
      rw [strncmpFrom]
      cases a with
      | nil =>
          have h₁ : m ((s1+i)%w) = 0 := ha
          cases b with
          | nil =>
              have h₂ : m ((s2+i)%w) = 0 := hb
              rw [h₁,h₂,if_neg (not_not.mpr rfl),if_pos rfl]
              rfl
          | cons d ds =>
              rw [h₁,hb.1,if_pos hb.2.1.symm,List.take_nil,List.take_succ_cons,difference]
              exact zero_sub _
      | cons c cs =>
          have hc : m ((s1+i)%w) = c := ha.1
          cases b with
          | nil =>
              have h₂ : m ((s2+i)%w) = 0 := hb
              rw [hc,h₂,if_pos ha.2.1,List.take_nil,List.take_succ_cons,difference]
              exact sub_zero _
          | cons d ds =>
              have hd : m ((s2+i)%w) = d := hb.1
              rw [hc,hd,List.take_succ_cons,List.take_succ_cons,difference]
              by_cases hcd : c = d
              · rw [if_neg (not_not.mpr hcd),if_neg ha.2.1,if_pos hcd]
                exact ih ha.2.2 hb.2.2
              · rw [if_pos hcd,if_neg hcd]

theorem memcmpFrom_eq (n i : ℕ) :
    memcmpFrom w m s1 s2 n i = difference (blockAt w m (s1+i) n) (blockAt w m (s2+i) n) := by
  induction n generalizing i with
  | zero => rfl
  | succ n ih =>
      rw [memcmpFrom,blockAt,blockAt,difference,ih]
      by_cases h : m ((s1+i)%w) = m ((s2+i)%w)
      · rw [if_neg (not_not.mpr h),if_pos h]
        rfl
      · rw [if_pos h,if_neg h]

theorem blockAt_length (w : ℕ) (m : Memory) (a n : ℕ) : (blockAt w m a n).length = n := by
  induction n generalizing a with
  | zero => rfl
  | succ n ih => rw [blockAt,List.length_cons,ih]

theorem strlenFrom_eq (hs : s1 ≠ 0) {len : ℕ} (ha : StringIn w m (s1+len) a) {fuel : ℕ}
    (hf : a.length < fuel) : strlenFrom w m s1 fuel len = some (len+a.length) := by
  induction fuel generalizing a len with
  | zero => exact absurd hf (Nat.not_lt_zero _)
  | succ fuel ih =>
      rw [strlenFrom]
      cases a with
      | nil =>
          have h₀ : m ((s1+len)%w) = 0 := ha
          rw [if_neg fun hand => hand.2 h₀,List.length_nil,Nat.add_zero]
      | cons c cs =>
          have hc : m ((s1+len)%w) = c := ha.1
          rw [if_pos ⟨hs,by rw [hc]; exact ha.2.1⟩,ih ha.2.2 (Nat.lt_of_succ_lt_succ hf),
            List.length_cons]
          congr 1
          omega

end Loops

/-! ### Copies -/

section Copies
variable {w : ℕ} {m : Memory} {a : List UInt8} {dest src : ℕ}

theorem strcpyLiteral_eq_blit (m : Memory) (dest : ℕ) (s : List UInt8) :
    strcpyLiteral m dest s = blit m dest (s.length+1) fun i => s.getD i 0 := by
  induction s generalizing m dest with
  | nil =>
      have hone := update_blit m dest 0 fun i => ([] : List UInt8).getD i 0
      rw [blit_zero] at hone
      exact hone
  | cons c cs ih =>
      have hone := update_blit m dest 0 fun i => (c::cs).getD i 0
      rw [blit_zero] at hone
      rw [strcpyLiteral,ih]
      change blit (Function.update m (dest+0) c) _ _ _ = _
      rw [show c = (c::cs).getD 0 0 from rfl,hone,blit_append]
      · rw [List.length_cons]
        congr 1
        omega
      · intro i _
        rw [Nat.zero_add,Nat.add_comm 1 i,List.getD_cons_succ]

theorem StringIn.congr {m' : Memory} (h : StringIn w m src a)
    (hm : ∀ i ≤ a.length, m' ((src+i)%w) = m ((src+i)%w)) : StringIn w m' src a := by
  induction a generalizing src with
  | nil => exact (hm 0 (Nat.zero_le _)).trans h
  | cons c cs ih =>
      refine ⟨(hm 0 (Nat.zero_le _)).trans h.1,h.2.1,ih h.2.2 fun i hi => ?_⟩
      rw [Nat.add_assoc,Nat.add_comm 1 i]
      exact hm (i+1) (Nat.succ_le_succ hi)

theorem stringIn_of_getD (hn : ∀ c ∈ a, c ≠ 0)
    (h : ∀ i ≤ a.length, m ((src+i)%w) = a.getD i 0) : StringIn w m src a := by
  induction a generalizing src with
  | nil => exact h 0 (Nat.zero_le _)
  | cons c cs ih =>
      rw [List.forall_mem_cons] at hn
      refine ⟨h 0 (Nat.zero_le _),hn.1,ih hn.2 fun i hi => ?_⟩
      rw [Nat.add_assoc,Nat.add_comm 1 i,h (i+1) (Nat.succ_le_succ hi),List.getD_cons_succ]

/-- A copy downwards, or to a place behind the string, reads what has been there before. -/
theorem strcpy_eq (ha : StringIn w m src a) (hs : src+a.length < w) (hd : dest+a.length < w)
    (hapart : dest ≤ src ∨ src+a.length < dest) {fuel : ℕ} (hf : a.length < fuel) :
    strcpy w fuel dest src m = some (strcpyLiteral m dest a) := by
  induction fuel generalizing m a dest src with
  | zero => exact absurd hf (Nat.not_lt_zero _)
  | succ fuel ih =>
      have hdw : dest%w = dest := Nat.mod_eq_of_lt (by omega)
      rw [strcpy]
      cases a with
      | nil =>
          have h₀ : m (src%w) = 0 := ha
          rw [h₀,hdw,if_neg (not_not.mpr rfl)]
          rfl
      | cons c cs =>
          have hc : m (src%w) = c := ha.1
          rw [List.length_cons] at hs hd hapart hf
          have htail : StringIn w (Function.update m dest c) (src+1) cs := by
            apply ha.2.2.congr
            intro i hi
            have hi' : (src+1+i)%w = src+1+i := Nat.mod_eq_of_lt (by omega)
            rw [hi']
            exact Function.update_of_ne (by omega) _ _
          rw [hc,hdw,if_pos ha.2.1,ih htail (by omega) (by omega) (by omega) (by omega)]
          rfl

/-- The copy is a string like the first, nothing else is written, and if the two do not
overlap both have this length and compare equal. -/
theorem strcpy_copies (ha : StringIn w m src a) (hs : src+a.length < w)
    (hd : dest+a.length < w) (hapart : dest ≤ src ∨ src+a.length < dest) {fuel : ℕ}
    (hf : a.length < fuel) : ∃ m', strcpy w fuel dest src m = some m' ∧
      StringIn w m' dest a ∧ (∀ x, x < dest ∨ dest+a.length < x → m' x = m x) ∧
      (dest ≠ 0 → strlen w m' fuel dest = some a.length) ∧
      (dest+a.length < src ∨ src+a.length < dest → strcmp w m' fuel dest src = some 0) := by
  refine ⟨_,strcpy_eq ha hs hd hapart hf,?_⟩
  rw [strcpyLiteral_eq_blit]
  have hout : ∀ x, x < dest ∨ dest+a.length < x →
      blit m dest (a.length+1) (fun i => a.getD i 0) x = m x :=
    fun x hx => blit_outside (by omega)
  have hcopy : StringIn w (blit m dest (a.length+1) fun i => a.getD i 0) dest a := by
    apply stringIn_of_getD ha.nonzero
    intro i hi
    rw [Nat.mod_eq_of_lt (by omega),blit_at (by omega)]
  refine ⟨hcopy,hout,fun h0 => ?_,fun hsep => ?_⟩
  · rw [strlen,strlenFrom_eq h0 hcopy hf,Nat.zero_add]
  · have hsrc : StringIn w (blit m dest (a.length+1) fun i => a.getD i 0) src a := by
      apply ha.congr
      intro i hi
      rw [Nat.mod_eq_of_lt (by omega)]
      exact hout _ (by omega)
    rw [strcmp_eq hcopy hsrc hf,difference_self]

/-- "gemi" at 4 and "gemios" at 16. -/
def twoNames : Memory := fun x =>
  ([0,0,0,0,0x67,0x65,0x6D,0x69,0,0,0,0,0,0,0,0,0x67,0x65,0x6D,0x69,0x6F,0x73] : List UInt8).getD x 0

theorem twoNames_strings : StringIn 64 twoNames 4 [0x67,0x65,0x6D,0x69] ∧
    StringIn 64 twoNames 16 [0x67,0x65,0x6D,0x69,0x6F,0x73] := by
  refine ⟨⟨rfl,by decide,rfl,by decide,rfl,by decide,rfl,by decide,rfl⟩,?_⟩
  exact ⟨rfl,by decide,rfl,by decide,rfl,by decide,rfl,by decide,rfl,by decide,rfl,by decide,rfl⟩

theorem strcpy_copies_twoNames : ∃ m', strcpy 64 7 32 16 twoNames = some m' ∧
    StringIn 64 m' 32 [0x67,0x65,0x6D,0x69,0x6F,0x73] ∧ strlen 64 m' 7 32 = some 6 ∧
      strcmp 64 m' 7 32 16 = some 0 := by
  obtain ⟨m',hm,hs,-,hlen,hcmp⟩ := strcpy_copies twoNames_strings.2 (by decide)
    (show 32+6 < 64 by decide) (.inr (by decide)) (show 6 < 7 by decide)
  exact ⟨m',hm,hs,hlen (by decide),hcmp (.inr (by decide))⟩

end Copies

/-- An order of strings or blocks, as the sign of an `int`. -/
structure Orders (d : ℤ) (a b : List UInt8) : Prop where
  less : d < 0 ↔ a < b
  equal : d = 0 ↔ a = b
  greater : 0 < d ↔ b < a

theorem orders_difference {a b : List UInt8} (h : Comparable a b) :
    Orders (difference a b) a b := by
  have hgreater := difference_neg h.symm
  rw [difference_swap,neg_lt_zero] at hgreater
  exact ⟨difference_neg h,difference_zero h,hgreater⟩

theorem Comparable.take {a b : List UInt8} (ha : ∀ c ∈ a, c ≠ 0) (hb : ∀ c ∈ b, c ≠ 0) (n : ℕ) :
    Comparable (a.take n) (b.take n) :=
  .inr ⟨fun c hc => ha c (List.mem_of_mem_take hc),fun c hc => hb c (List.mem_of_mem_take hc)⟩

/-- The three comparisons order strings, their beginnings and blocks alphabetically. -/
theorem comparisons_order (w : ℕ) (m : Memory) (s1 s2 : ℕ) :
    (∀ a b, StringIn w m s1 a → StringIn w m s2 b →
      (∀ fuel, a.length < fuel → ∃ d, strcmp w m fuel s1 s2 = some d ∧ Orders d a b) ∧
      ∀ n, Orders (strncmp w m s1 s2 n) (a.take n) (b.take n)) ∧
      ∀ n, Orders (memcmp w m s1 s2 n) (blockAt w m s1 n) (blockAt w m s2 n) := by
  constructor
  · intro a b ha hb
    refine ⟨fun fuel hf => ⟨_,strcmp_eq ha hb hf,orders_difference (ha.comparable hb)⟩,
      fun n => ?_⟩
    rw [strncmp,strncmpFrom_eq n ha hb]
    exact orders_difference (.take ha.nonzero hb.nonzero n)
  · intro n
    rw [memcmp,memcmpFrom_eq]
    exact orders_difference (.inl (by rw [blockAt_length,blockAt_length]))

theorem comparisons_order_twoNames :
    (∃ d, strcmp 64 twoNames 5 4 16 = some d ∧
      Orders d [0x67,0x65,0x6D,0x69] [0x67,0x65,0x6D,0x69,0x6F,0x73]) ∧
      strncmp 64 twoNames 4 16 4 = 0 := by
  obtain ⟨hcmp,hncmp⟩ := (comparisons_order 64 twoNames 4 16).1 _ _ twoNames_strings.1
    twoNames_strings.2
  exact ⟨hcmp 5 (by decide),(hncmp 4).equal.mpr rfl⟩

end Gemiboot.StringRoutines
