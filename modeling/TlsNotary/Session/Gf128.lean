import TlsNotary.Session.Ghash
import Mathlib.Algebra.CharP.Algebra
import Mathlib.RingTheory.AdjoinRoot
import Mathlib.Tactic.ComputeDegree
/-!
# Multiplication in GF(2^128): `utils.gf_2_128_mul`

`gf_2_128_mul(authKey, y, R)` is GCM's block multiplication on `big.Int`s: for
`i = 127, …, 0` it adds `x` to the result when bit `i` of `y` is set, then shifts `x`
right by one and adds `R` when the bit shifted out was set. GCM reads a 128-bit number
with its most significant bit as the coefficient of `x^0`, so `gcmVal g`
sends bit `127 - i` to `g^i`; the right shift is multiplication by `g`, and the constant
`R = 0xE1 << 120` reads as `g^7 + g^2 + g + 1`, which is `g^128` in the field.

Nothing here asks the modulus to be irreducible: the results hold in every commutative
ring of characteristic two with an element `g` whose 128th power is `g^7 + g^2 + g + 1`,
such as `AdjoinRoot (X^128 + X^7 + X^2 + X + 1)` over `ZMod 2`, used for the witnesses.
-/
namespace TlsNotary

/-- One pass of `gf_2_128_mul`'s loop at index `i` on `(x, res)`: `res ^= x·((y >> i) & 1)`,
then `x = (x >> 1) ^ ((x & 1)·R)`. -/
def gfMulRound (y R : Nat) (acc : Nat × Nat) (i : Nat) : Nat × Nat :=
  ((acc.1 >>> 1) ^^^ (acc.1 &&& 1) * R, acc.2 ^^^ acc.1 * ((y >>> i) &&& 1))

/-- `utils.gf_2_128_mul(authKey, y, R)`: the loop `for i := 127; i > -1; i--` from
`x = authKey` and `res = 0`, returning `res`. -/
def gf2128Mul (authKey y R : Nat) : Nat :=
  ((List.range 128).reverse.foldl (gfMulRound y R) (authKey, 0)).2

/-- GCM's reduction constant `0xE1 << 120`, the value the loop's comment gives for `R`. -/
def gcmR : Nat := 0xE1000000000000000000000000000000

set_option maxRecDepth 2000 in
/-- AES-GCM's test case 2: the product `C·H` of its first ciphertext block and its `H`. -/
example : gf2128Mul 0x66e94bd4ef8a2c3b884cfa59ca342b2e 0x0388dace60b6a392f328c2b971b2fe78 gcmR =
    0x5e2ec746917062882c85b0685353deb7 := rfl

section Reading
variable {F : Type} [CommRing F] (g : F)

/-- The element a number stands for: bit `127 - i` is the coefficient of `g^i`. -/
def gcmVal (v : Nat) : F := ∑ i in Finset.range 128, if v.testBit (127 - i) then g ^ i else 0

@[simp] theorem gcmVal_zero : gcmVal g 0 = 0 := by simp [gcmVal]

theorem gcmVal_xor [CharP F 2] (a b : Nat) : gcmVal g (a ^^^ b) = gcmVal g a + gcmVal g b := by
  rw [gcmVal, gcmVal, gcmVal, ← Finset.sum_add_distrib]
  refine Finset.sum_congr rfl fun i _ => ?_
  rw [Nat.testBit_xor]
  cases a.testBit (127 - i) <;> cases b.testBit (127 - i) <;> simp [CharTwo.add_self_eq_zero]

/-- Shifting right multiplies by `g`, except for the bit shifted out, which stood for
`g^127` and now would stand for `g^128`. -/
theorem gcmVal_shiftRight {x : Nat} (hx : x < 2 ^ 128) :
    gcmVal g (x >>> 1) + (if x.testBit 0 then g ^ 128 else 0) = g * gcmVal g x := by
  rw [gcmVal, Finset.sum_range_succ' _ 127, gcmVal, Finset.mul_sum, Finset.sum_range_succ _ 127]
  have h0 : (x >>> 1).testBit (127 - 0) = false := by
    rw [Nat.testBit_shiftRight]; exact Nat.testBit_lt_two_pow hx
  have hs : ∀ i ∈ Finset.range 127, (if (x >>> 1).testBit (127 - (i + 1)) then g ^ (i + 1) else 0) =
      g * if x.testBit (127 - i) then g ^ i else 0 := fun i hi => by
    rw [Nat.testBit_shiftRight, show 1 + (127 - (i + 1)) = 127 - i by
      rw [Finset.mem_range] at hi; omega]
    split <;> simp only [pow_succ', mul_zero]
  rw [h0, Finset.sum_congr rfl hs, if_neg Bool.false_ne_true, add_zero, Nat.sub_self]
  split <;> simp only [pow_succ', mul_zero, add_zero]

/-- `R` has bits 127, 126, 125 and 120 set: it reads as `g^7 + g^2 + g + 1`. -/
theorem gcmVal_gcmR : gcmVal g gcmR = g ^ 7 + g ^ 2 + g + 1 := by
  have hbits : ∀ i < 128, gcmR.testBit (127 - i) = decide (i ∈ ({7, 2, 1, 0} : Finset Nat)) := by
    decide
  have hsum : gcmVal g gcmR = ∑ i in Finset.range 128,
      if i ∈ ({7, 2, 1, 0} : Finset Nat) then g ^ i else 0 :=
    Finset.sum_congr rfl fun i hi => by
      simp only [hbits i (Finset.mem_range.1 hi), decide_eq_true_eq]
  rw [hsum, ← Finset.sum_filter, Finset.filter_mem_eq_inter,
    Finset.inter_eq_right.2 (by decide : ({7, 2, 1, 0} : Finset Nat) ⊆ Finset.range 128),
    Finset.sum_insert (by decide), Finset.sum_insert (by decide), Finset.sum_insert (by decide),
    Finset.sum_singleton, pow_zero, pow_one, add_assoc, add_assoc]

end Reading

open Polynomial in
theorem natDegree_gcmPoly : (X ^ 128 + X ^ 7 + X ^ 2 + X + 1 : (ZMod 2)[X]).natDegree = 128 := by
  compute_degree!

open Polynomial in
instance charP_gcmField : CharP (AdjoinRoot (X ^ 128 + X ^ 7 + X ^ 2 + X + 1 : (ZMod 2)[X])) 2 :=
  haveI := AdjoinRoot.nontrivial (X ^ 128 + X ^ 7 + X ^ 2 + X + 1 : (ZMod 2)[X]) (by
    rw [degree_eq_natDegree (fun h => by simpa [h] using natDegree_gcmPoly), natDegree_gcmPoly]
    decide)
  charP_of_injective_algebraMap' (ZMod 2) _ 2

open Polynomial in
theorem gcmRoot_pow :
    AdjoinRoot.root (X ^ 128 + X ^ 7 + X ^ 2 + X + 1 : (ZMod 2)[X]) ^ 128 =
      AdjoinRoot.root (X ^ 128 + X ^ 7 + X ^ 2 + X + 1 : (ZMod 2)[X]) ^ 7 +
        AdjoinRoot.root (X ^ 128 + X ^ 7 + X ^ 2 + X + 1 : (ZMod 2)[X]) ^ 2 +
        AdjoinRoot.root (X ^ 128 + X ^ 7 + X ^ 2 + X + 1 : (ZMod 2)[X]) + 1 := by
  have h := AdjoinRoot.eval₂_root (X ^ 128 + X ^ 7 + X ^ 2 + X + 1 : (ZMod 2)[X])
  simp only [eval₂_add, eval₂_pow, eval₂_X, eval₂_one, add_assoc] at h
  rw [eq_neg_of_add_eq_zero_left h, CharTwo.neg_eq]
  simp only [add_assoc]

theorem shiftRight_and_one (y i : Nat) : (y >>> i) &&& 1 = (y.testBit i).toNat := by
  rw [Nat.and_one_is_mod, Nat.shiftRight_eq_div_pow, Nat.testBit_to_div_mod]
  rcases Nat.mod_two_eq_zero_or_one (y / 2 ^ i) with h | h <;> simp [h]

theorem and_one_eq_toNat (x : Nat) : x &&& 1 = (x.testBit 0).toNat := by
  rw [← shiftRight_and_one, Nat.shiftRight_zero]

theorem mul_toNat (x : Nat) (b : Bool) : x * b.toNat = if b then x else 0 := by
  cases b <;> simp

section Loop
variable {F : Type} [CommRing F] [CharP F 2] {g : F} {y R : Nat}

/-- One pass below `2^128`: `x` is multiplied by `g`, and `res` gains `x` where bit `i` of
`y` is set, when `R` stands for `g^128`. -/
theorem gfMulRound_spec (hR : R < 2 ^ 128) (hRv : gcmVal g R = g ^ 128) {acc : Nat × Nat}
    (hx : acc.1 < 2 ^ 128) (hres : acc.2 < 2 ^ 128) (i : Nat) :
    (gfMulRound y R acc i).1 < 2 ^ 128 ∧ gcmVal g (gfMulRound y R acc i).1 = g * gcmVal g acc.1 ∧
    (gfMulRound y R acc i).2 < 2 ^ 128 ∧
    gcmVal g (gfMulRound y R acc i).2 = gcmVal g acc.2 + if y.testBit i then gcmVal g acc.1 else 0 := by
  have hsel : acc.1 * ((y >>> i) &&& 1) = if y.testBit i then acc.1 else 0 := by
    rw [shiftRight_and_one, mul_toNat]
  have hred : (acc.1 &&& 1) * R = if acc.1.testBit 0 then R else 0 := by
    rw [and_one_eq_toNat, Nat.mul_comm, mul_toNat]
  have hshift : acc.1 >>> 1 < 2 ^ 128 := by
    rw [Nat.shiftRight_eq_div_pow]; exact lt_of_le_of_lt (Nat.div_le_self _ _) hx
  simp only [gfMulRound, hsel, hred]
  refine ⟨Nat.xor_lt_two_pow hshift (by split <;> omega), ?_,
    Nat.xor_lt_two_pow hres (by split <;> omega), ?_⟩
  · rw [gcmVal_xor, ← gcmVal_shiftRight g hx]
    split <;> simp [hRv]
  · rw [gcmVal_xor]
    split <;> simp

/-- The first `k` passes of `gf_2_128_mul`'s loop, at `i = 127, …, 128 − k`, from
`x = authKey` and `res = 0`. -/
def gfMulPasses (authKey y R k : Nat) : Nat × Nat :=
  ((List.range k).map (127 - ·)).foldl (gfMulRound y R) (authKey, 0)

theorem gf2128Mul_eq_passes (authKey y R : Nat) :
    gf2128Mul authKey y R = (gfMulPasses authKey y R 128).2 := by
  rw [gf2128Mul, gfMulPasses, List.range_eq_range', List.reverse_range']
  rfl

/-- After `k` passes `x` is `authKey·g^k` and `res` is `authKey` times the first `k`
terms of `y`'s reading. -/
theorem gfMulPasses_spec (hR : R < 2 ^ 128) (hRv : gcmVal g R = g ^ 128) {x : Nat}
    (hx : x < 2 ^ 128) (k : Nat) :
    (gfMulPasses x y R k).1 < 2 ^ 128 ∧ gcmVal g (gfMulPasses x y R k).1 = g ^ k * gcmVal g x ∧
    (gfMulPasses x y R k).2 < 2 ^ 128 ∧ gcmVal g (gfMulPasses x y R k).2 =
      (∑ j in Finset.range k, if y.testBit (127 - j) then g ^ j else 0) * gcmVal g x := by
  induction k with
  | zero => simpa [gfMulPasses] using hx
  | succ k ih =>
    obtain ⟨h1, h2, h3, h4⟩ := ih
    have hstep : gfMulPasses x y R (k + 1) = gfMulRound y R (gfMulPasses x y R k) (127 - k) := by
      simp [gfMulPasses, List.range_succ]
    obtain ⟨r1, r2, r3, r4⟩ := gfMulRound_spec hR hRv h1 h3 (y := y) (127 - k)
    rw [hstep]
    refine ⟨r1, by rw [r2, h2, pow_succ']; ring, r3, ?_⟩
    rw [r4, h4, h2, Finset.sum_range_succ]
    split <;> ring

/-- `gf_2_128_mul` with GCM's constant multiplies: for `authKey < 2^128` and every `y`
(of which only the low 128 bits count) the result fits in 128 bits and reads as the
product of the readings. -/
theorem gcmVal_gf2128Mul (hg : g ^ 128 = g ^ 7 + g ^ 2 + g + 1) {authKey : Nat}
    (hx : authKey < 2 ^ 128) (y : Nat) :
    gf2128Mul authKey y gcmR < 2 ^ 128 ∧
      gcmVal g (gf2128Mul authKey y gcmR) = gcmVal g authKey * gcmVal g y := by
  obtain ⟨-, -, h3, h4⟩ :=
    gfMulPasses_spec (y := y) (by decide : gcmR < 2 ^ 128) ((gcmVal_gcmR g).trans hg.symm) hx 128
  rw [gf2128Mul_eq_passes]
  exact ⟨h3, h4.trans (mul_comm _ _)⟩

end Loop

open Polynomial in
/-- AES-GCM's test case 2, `H = 66e94bd4…` and `C = 0388dace…`, in GCM's field. -/
theorem gcmVal_gf2128Mul_testCase2 :
    gf2128Mul 0x66e94bd4ef8a2c3b884cfa59ca342b2e 0x0388dace60b6a392f328c2b971b2fe78 gcmR < 2 ^ 128 ∧
      gcmVal (AdjoinRoot.root (X ^ 128 + X ^ 7 + X ^ 2 + X + 1 : (ZMod 2)[X]))
          (gf2128Mul 0x66e94bd4ef8a2c3b884cfa59ca342b2e 0x0388dace60b6a392f328c2b971b2fe78 gcmR) =
        gcmVal (AdjoinRoot.root (X ^ 128 + X ^ 7 + X ^ 2 + X + 1 : (ZMod 2)[X]))
            0x66e94bd4ef8a2c3b884cfa59ca342b2e *
          gcmVal (AdjoinRoot.root (X ^ 128 + X ^ 7 + X ^ 2 + X + 1 : (ZMod 2)[X]))
            0x0388dace60b6a392f328c2b971b2fe78 :=
  gcmVal_gf2128Mul gcmRoot_pow (by decide) _

/-- `utils.To16Bytes(x)`: `FillBytes` into 16 bytes, which panics on `x ≥ 2^128`. -/
def to16Bytes (x : Nat) : Except String (List UInt8) := fillBytes 16 x

theorem getD_toBytesBE {len k : Nat} (x : Nat) (hk : k < len) :
    (toBytesBE len x).getD k 0 = UInt8.ofNat (x / 256 ^ (len - 1 - k)) := by
  induction len generalizing x with
  | zero => omega
  | succ len ih =>
    rw [toBytesBE, List.getD_eq_getElem?_getD]
    rcases Nat.lt_succ_iff_lt_or_eq.1 hk with hk | rfl
    · rw [List.getElem?_append_left (by simpa using hk), ← List.getD_eq_getElem?_getD, ih _ hk,
        Nat.div_div_eq_div_mul, ← pow_succ']
      congr 3
      omega
    · simp

/-- GCM's bit `i` of a 16-byte block is bit `127 - i` of the number `SetBytes` reads. -/
theorem blockBit_eq_testBit {a : List UInt8} (ha : a.length = 16) (i : Fin 128) :
    blockBit a i = (setBytes a).testBit (127 - i) := by
  have hi := i.isLt
  have hget : a.getD ((i : Nat) / 8) 0 = UInt8.ofNat (setBytes a / 256 ^ (16 - 1 - (i : Nat) / 8)) := by
    conv_lhs => rw [← toBytesBE_setBytes a, ha]
    exact getD_toBytesBE _ (by omega)
  rw [blockBit, hget, toNat_ofNat_uint8, testBit_mod_256, testBit_div_256_pow]
  simp only [show 7 - (i : Nat) % 8 < 8 by omega, decide_True, Bool.true_and]
  congr 1
  omega

section Blocks
variable {F : Type} [CommRing F] (g : F)

theorem blockVal_eq_gcmVal {a : List UInt8} (ha : a.length = 16) :
    blockVal (fun i : Fin 128 => g ^ (i : Nat)) a = gcmVal g (setBytes a) := by
  simp only [blockVal, blockBit_eq_testBit ha]
  exact Fin.sum_univ_eq_sum_range (fun i => if (setBytes a).testBit (127 - i) then g ^ i else 0) 128

variable {g} [CharP F 2]

/-- `To16Bytes(gf_2_128_mul(SetBytes(a), SetBytes(b), R))` on 16-byte blocks never panics,
gives a 16-byte block, and multiplies in `blockVal` with `e i = g^i`. -/
theorem blockVal_gf2128Mul (hg : g ^ 128 = g ^ 7 + g ^ 2 + g + 1) {a b : List UInt8}
    (ha : a.length = 16) (hb : b.length = 16) :
    ∃ c, to16Bytes (gf2128Mul (setBytes a) (setBytes b) gcmR) = .ok c ∧ c.length = 16 ∧
      blockVal (fun i : Fin 128 => g ^ (i : Nat)) c =
        blockVal (fun i : Fin 128 => g ^ (i : Nat)) a * blockVal (fun i : Fin 128 => g ^ (i : Nat)) b := by
  have hA : setBytes a < 2 ^ 128 := by simpa [ha] using setBytes_lt a
  obtain ⟨-, -, hlt, hv⟩ := gfMulPasses_spec (y := setBytes b) (by decide : gcmR < 2 ^ 128)
    ((gcmVal_gcmR g).trans hg.symm) hA 128
  rw [← gf2128Mul_eq_passes] at hlt hv
  have hlt' : gf2128Mul (setBytes a) (setBytes b) gcmR < 256 ^ 16 := by simpa using hlt
  refine ⟨_, if_pos hlt', length_toBytesBE _ _, ?_⟩
  rw [blockVal_eq_gcmVal g (length_toBytesBE _ _), setBytes_toBytesBE, Nat.mod_eq_of_lt hlt', hv,
    blockVal_eq_gcmVal g ha, blockVal_eq_gcmVal g hb, mul_comm]
  rfl

end Blocks

open Polynomial in
/-- The block whose first bit is set stands for `1`: squared, it gives itself. -/
theorem blockVal_gf2128Mul_oneBlock :
    ∃ c, to16Bytes (gf2128Mul (setBytes oneBlock) (setBytes oneBlock) gcmR) = .ok c ∧ c.length = 16 ∧
      blockVal (fun i : Fin 128 =>
          AdjoinRoot.root (X ^ 128 + X ^ 7 + X ^ 2 + X + 1 : (ZMod 2)[X]) ^ (i : Nat)) c =
        blockVal (fun i : Fin 128 =>
            AdjoinRoot.root (X ^ 128 + X ^ 7 + X ^ 2 + X + 1 : (ZMod 2)[X]) ^ (i : Nat)) oneBlock *
          blockVal (fun i : Fin 128 =>
            AdjoinRoot.root (X ^ 128 + X ^ 7 + X ^ 2 + X + 1 : (ZMod 2)[X]) ^ (i : Nat)) oneBlock :=
  blockVal_gf2128Mul gcmRoot_pow rfl rfl

end TlsNotary
