import Mathlib

/-!
# Arrays of fixed length

An array is the list of its elements. A read or a store outside it has no result, so
a computation that has one stayed inside its arrays. A loop that fills an array from
the front is described by the prefix it has written; what the rest held before, and
still holds, is never mentioned.
-/
namespace Gemiboot.FixedBuffers
open List

variable {α : Type*}

/-- `buf[i] = v`. -/
def put (buf : List α) (i : ℕ) (v : α) : Option (List α) :=
  if i < buf.length then some (buf.set i v) else none

theorem put_append (l : List α) (a v : α) (r : List α) :
    put (l++a::r) l.length v = some (l++v::r) := by
  have h : l.length < (l++a::r).length := by
    rw [length_append,length_cons]
    omega
  rw [put,if_pos h,set_append_right l.length v (le_refl l.length),Nat.sub_self,set_cons_zero]

/-- Storing just behind a written prefix extends it by one element. -/
theorem put_prefix {buf l : List α} (v : α) (h : l <+: buf) (hlt : l.length < buf.length) :
    ∃ buf', put buf l.length v = some buf' ∧ l++[v] <+: buf' ∧ buf'.length = buf.length := by
  rcases h with ⟨r,rfl⟩
  cases r with
  | nil => simp at hlt
  | cons a r =>
      have hassoc : l++v::r = l++[v]++r := by simp
      exact ⟨l++v::r,put_append l a v r,⟨r,hassoc.symm⟩,by simp⟩

theorem getElem?_append_cons (l : List α) (a : α) (r : List α) :
    (l++a::r)[l.length]? = some a := by
  rw [getElem?_append_right (le_refl l.length),Nat.sub_self,getElem?_cons_zero]

/-! ### Strings with a terminator -/

/-- The elements before the first zero; an array without one has no result. -/
def textOf [Zero α] [DecidableEq α] : List α → Option (List α)
  | [] => none
  | a::r => if a = 0 then some [] else (textOf r).map (a::·)

theorem textOf_prefix [Zero α] [DecidableEq α] {buf l : List α} (h : l++[0] <+: buf)
    (hl : ∀ a ∈ l, a ≠ 0) : textOf buf = some l := by
  rcases h with ⟨r,rfl⟩
  induction l with
  | nil => simp [textOf]
  | cons a l ih =>
      have ha : a ≠ 0 := hl a mem_cons_self
      have ht := ih fun b hb => hl b (mem_cons_of_mem a hb)
      rw [cons_append,cons_append,textOf,if_neg ha,ht]
      rfl

/-! ### Reversal in place -/

/-- Exchange the elements at the two ends and move both ends inwards. -/
def swapEnds : ℕ → List α → ℕ → ℕ → Option (List α)
  | 0,_,_,_ => none
  | fuel+1,buf,first,last =>
      if first < last then do
        let a ← buf[first]?
        let b ← buf[last]?
        let buf ← put buf first b
        let buf ← put buf last a
        swapEnds fuel buf (first+1) (last-1)
      else some buf

theorem swapEnds_done {fuel first last : ℕ} (buf : List α) (h : last ≤ first) :
    swapEnds (fuel+1) buf first last = some buf := by
  rw [swapEnds,if_neg (by omega)]

/-- One pass over `a … b` puts `b … a` there and goes on with what lies between. -/
theorem swapEnds_step (fuel : ℕ) (l m r : List α) (a b : α) :
    swapEnds (fuel+1) (l++a::(m++b::r)) l.length (l.length+m.length+1) =
      swapEnds fuel (l++[b]++m++a::r) (l.length+1) (l.length+m.length) := by
  have hlast : l.length+m.length+1 = (l++a::m).length := by
    simp only [length_append,length_cons]
    omega
  have hsplit : l++a::(m++b::r) = (l++a::m)++b::r := by simp
  have hfirst : put (l++a::(m++b::r)) l.length b = some (l++b::(m++b::r)) :=
    put_append l a b (m++b::r)
  have hsecond : put (l++b::(m++b::r)) (l++a::m).length a = some (l++[b]++m++a::r) := by
    have hlen : (l++a::m).length = (l++b::m).length := by simp
    have hs := put_append (l++b::m) b a r
    rw [hlen]
    simpa using hs
  have hb : (l++a::(m++b::r))[(l++a::m).length]? = some b := by
    rw [hsplit]
    exact getElem?_append_cons (l++a::m) b r
  rw [swapEnds,if_pos (by omega),getElem?_append_cons,hlast,hb]
  simp only [Option.bind_eq_bind,Option.bind_some,hfirst,hsecond]
  rw [← hlast,Nat.add_sub_cancel]

/-- The two indices meet with the range between them reversed. -/
theorem swapEnds_reverse {fuel : ℕ} (l m r : List α) (h : m.length < fuel) :
    swapEnds fuel (l++m++r) l.length (l.length+m.length-1) = some (l++m.reverse++r) := by
  induction m using bidirectionalRec generalizing fuel l r with
  | nil =>
      cases fuel with
      | zero => simp at h
      | succ fuel =>
          rw [swapEnds_done _ (by simp)]
          simp
  | singleton a =>
      cases fuel with
      | zero => simp at h
      | succ fuel =>
          rw [swapEnds_done _ (by simp)]
          simp
  | cons_append a m b ih =>
      cases fuel with
      | zero => simp at h
      | succ fuel =>
          have hm : m.length < fuel := by
            simp only [length_cons,length_append,length_nil] at h
            omega
          have hlast : l.length+(a::(m++[b])).length-1 = l.length+m.length+1 := by
            simp only [length_cons,length_append,length_nil]
            omega
          have hbuf : l++(a::(m++[b]))++r = l++a::(m++b::r) := by simp
          have hnext := ih (l++[b]) (a::r) hm
          have hinner : (l++[b]).length+m.length-1 = l.length+m.length := by
            simp only [length_append,length_cons,length_nil]
            omega
          rw [hinner,length_append,length_singleton] at hnext
          rw [hlast,hbuf,swapEnds_step,hnext]
          simp

end Gemiboot.FixedBuffers
