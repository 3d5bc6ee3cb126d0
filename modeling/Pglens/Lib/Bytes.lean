import Mathlib.Data.Nat.Notation
import Mathlib.Tactic.Ring

/-! Little-endian numbers of any width. -/
namespace Pglens.Lib

/-- The `w` low bytes of a number, the lowest first. -/
def putLE : ℕ → ℕ → List UInt8
  | 0,_ => []
  | w+1,n => UInt8.ofNat n::putLE w (n/256)

def getLE : List UInt8 → ℕ
  | [] => 0
  | b::bs => b.toNat+256*getLE bs

@[simp] lemma length_putLE (w n : ℕ) : (putLE w n).length = w := by
  induction w generalizing n with
  | zero => rfl
  | succ w ih => simp [putLE,ih]

lemma getLE_putLE (w n : ℕ) : getLE (putLE w n) = n%256^w := by
  induction w generalizing n with
  | zero => simp [putLE,getLE,Nat.mod_one]
  | succ w ih =>
    rw [show 256^(w+1)=256*256^w by ring,Nat.mod_mul,putLE,getLE,ih,UInt8.toNat_ofNat']

lemma getLE_putLE_of_lt {w n : ℕ} (h : n<256^w) : getLE (putLE w n) = n := by
  rw [getLE_putLE,Nat.mod_eq_of_lt h]

lemma getLE_lt (bs : List UInt8) : getLE bs < 256^bs.length := by
  induction bs with
  | nil => simp [getLE]
  | cons b bs ih =>
    have hb := b.toNat_lt
    simp only [getLE,List.length_cons,pow_succ]
    omega

end Pglens.Lib
