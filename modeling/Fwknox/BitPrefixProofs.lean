import Mathlib.Data.List.Basic

/-! # Leading bits of a byte string

    Bit 0 of a byte string is the most significant bit of its first byte.  A byte
    string is its bits (`eq_iff_bits`), so an operation on it is said once, by the bits
    of its result, and whole bytes and parts of a byte need no separate treatment after
    that.  Two strings cut to the same number of leading bits are equal exactly when
    those bits agree: `Cut.eq_iff`. -/

namespace BitPrefix

variable {n : Nat}

/-- Bit `i`; behind the last byte there are only zeros. -/
def bit (v : Vector UInt8 n) (i : Nat) : Bool :=
  if h : i / 8 < n then v[i / 8].toBitVec.getMsbD (i % 8) else false

theorem bit_of_lt (v : Vector UInt8 n) {k j : Nat} (hk : k < n) (hj : j < 8) :
    bit v (8 * k + j) = v[k].toBitVec.getMsbD j := by
  have hdiv : (8 * k + j) / 8 = k := by omega
  have hmod : (8 * k + j) % 8 = j := by omega
  simp only [bit, hdiv, hmod, hk, dite_true]

theorem bit_of_ge (v : Vector UInt8 n) {i : Nat} (hi : 8 * n ≤ i) : bit v i = false :=
  dif_neg (by omega)

/-- **A BYTE STRING IS ITS BITS**. -/
theorem eq_iff_bits {v w : Vector UInt8 n} : v = w ↔ ∀ i, bit v i = bit w i := by
  constructor
  · intro h i
    rw [h]
  · intro h
    refine Vector.ext ?_
    intro k hk
    refine UInt8.eq_of_toBitVec_eq (BitVec.eq_of_getMsbD_eq ?_)
    intro j hj
    rw [← bit_of_lt v hk hj, ← bit_of_lt w hk hj]
    exact h _

/-- The bits after one byte has been replaced. -/
theorem bit_set (v : Vector UInt8 n) {k : Nat} (hk : k < n) (b : UInt8) (i : Nat) :
    bit (v.set k b) i = if i / 8 = k then b.toBitVec.getMsbD (i % 8) else bit v i := by
  by_cases hi : i / 8 = k
  · subst hi
    rw [if_pos rfl]
    simp only [bit, hk, dite_true, Vector.getElem_set_self]
  · rw [if_neg hi]
    simp only [bit]
    by_cases hn : i / 8 < n
    · rw [dif_pos hn, dif_pos hn, Vector.getElem_set_ne hk hn (Ne.symm hi)]
    · rw [dif_neg hn, dif_neg hn]

/-- The top mask `0xFF << (8 - r)` keeps the first `r` bits of a byte. -/
theorem getMsbD_top_mask (b : UInt8) {r : UInt8} (hpos : 0 < r) (hr : r < 8) (j : Nat) :
    (b &&& 0xFF <<< (8 - r)).toBitVec.getMsbD j
      = (decide (j < r.toNat) && b.toBitVec.getMsbD j) := by
  have hpos' : 0 < r.toNat := hpos
  have hr' : r.toNat < 8 := hr
  have hdist : ((8 - r).toBitVec % 8).toNat = 8 - r.toNat := by
    have hsub : (8 - r).toNat = 8 - r.toNat := UInt8.toNat_sub_of_le 8 r (UInt8.le_of_lt hr)
    show (8 - r).toNat % 8 = _
    rw [hsub]
    omega
  have hones : (0xFF : UInt8).toBitVec = BitVec.allOnes 8 := rfl
  rw [UInt8.toBitVec_and, UInt8.toBitVec_shiftLeft, BitVec.shiftLeft_eq', hdist, hones,
    BitVec.getMsbD_and, BitVec.getMsbD_shiftLeft, BitVec.getMsbD_allOnes, Bool.and_comm]
  congr 1
  exact decide_eq_decide.mpr (by omega)

/-! ## Cutting to a prefix -/

/-- `w` is `v` with every bit from the `len`-th on zero. -/
def Cut (len : Nat) (v w : Vector UInt8 n) : Prop :=
  ∀ i, bit w i = (decide (i < len) && bit v i)

/-- **PREFIX CLASSES**: cut to the same length, two strings are equal exactly when that
    many leading bits agree. -/
theorem Cut.eq_iff {len : Nat} {a a' b b' : Vector UInt8 n} (ha : Cut len a a')
    (hb : Cut len b b') : a' = b' ↔ ∀ i < len, bit a i = bit b i := by
  rw [eq_iff_bits]
  constructor
  · intro h i hi
    have hbits := h i
    rw [ha i, hb i, decide_eq_true hi, Bool.true_and, Bool.true_and] at hbits
    exact hbits
  · intro h i
    rw [ha i, hb i]
    by_cases hi : i < len
    · rw [h i hi]
    · rw [decide_eq_false hi, Bool.false_and, Bool.false_and]

/-- Nothing is cut off when every bit is kept. -/
theorem cut_self {len : Nat} (hlen : 8 * n ≤ len) (v : Vector UInt8 n) : Cut len v v := by
  intro i
  by_cases hi : i < len
  · rw [decide_eq_true hi, Bool.true_and]
  · rw [decide_eq_false hi, Bool.false_and, bit_of_ge v (by omega)]

end BitPrefix
