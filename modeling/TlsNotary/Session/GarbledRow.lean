import TlsNotary.Session.Ghash
import Mathlib.Data.Nat.Bitwise
/-!
# The garbled-row cipher: `utils.Encrypt` and `utils.Decrypt`

A garbled table's rows are encrypted with `Encrypt(a, b, t, m)`, after the A4 and D4
methods of the BHKR13 paper the source cites: the two input labels are shifted
differently to break their symmetry (`a` by one byte, `b` by two, both within their first
15 bytes, so that the last, the pointer byte, stays put), XORed into a key `k`, and the
row is `m ⊕ k ⊕ π(k, t)` for a fixed-key Salsa20 `π` tweaked by the wire index `t`.
`Decrypt` is the same function. The Salsa20 keystream is a parameter, of which only its
length is assumed; the garbler and evaluator that call these functions are not part of
the source.
-/
namespace TlsNotary

/-- Go's `copy(dst, src)` on whole slices: the first `min(len dst, len src)` bytes of
`dst` replaced by those of `src`. -/
def goCopy (dst src : List UInt8) : List UInt8 := src.take dst.length ++ dst.drop src.length

/-- `copy(dst[lo:hi], src)`. -/
def goCopyAt (dst : List UInt8) (lo hi : Nat) (src : List UInt8) : List UInt8 :=
  dst.take lo ++ goCopy ((dst.drop lo).take (hi - lo)) src ++ dst.drop hi

/-- The 28 fixed bytes of `randomOracle`'s Salsa20 key; the last four hold the tweak. -/
def fixedKeyPrefix : List UInt8 := (List.range 28).map fun i => UInt8.ofNat (i + 1)

/-- `utils.randomOracle(msg, t)`: the Salsa20 keystream block for the nonce `msg` under
the fixed key ending in `t` big-endian, XORed onto 16 zero bytes by
`salsa.XORKeyStream(out, out, &msgArray, &fixedKey)`; `xorKeyStream in counter key` is
that call. `panic(len(msg) != 16)` panics with the value `true`. -/
def randomOracle (xorKeyStream : List UInt8 → List UInt8 → List UInt8 → List UInt8)
    (msg : List UInt8) (t : UInt32) : Except String (List UInt8) :=
  if msg.length ≠ 16 then .error "true"
  else .ok (xorKeyStream (List.replicate 16 0) msg (fixedKeyPrefix ++ putUint32 t))

/-- `Encrypt`'s "double a": `a` copied into 16 bytes, bytes 1 to 14 moved down by one and
the old byte 0 put at 14; byte 15 stays. -/
def doubleLabel (a : List UInt8) : List UInt8 :=
  let a2 := goCopy (List.replicate 16 0) a
  let leastbyte := goCopy [0] (a2.take 1)
  let a2 := goCopy a2 ((a2.drop 1).take 14)
  goCopyAt a2 14 15 leastbyte

example : doubleLabel ((List.range 16).map UInt8.ofNat) =
    [1, 2, 3, 4, 5, 6, 7, 8, 9, 10, 11, 12, 13, 14, 0, 15] := rfl

/-- `Encrypt`'s "quadruple b": `b` copied into 16 bytes, bytes 2 to 14 moved down by two and
the old bytes 0 and 1 put at 13 and 14; byte 15 stays. -/
def quadrupleLabel (b : List UInt8) : List UInt8 :=
  let b4 := goCopy (List.replicate 16 0) b
  let leastbytes := goCopy [0, 0] (b4.take 2)
  let b4 := goCopy b4 ((b4.drop 2).take 13)
  goCopyAt b4 13 15 leastbytes

example : quadrupleLabel ((List.range 16).map UInt8.ofNat) =
    [2, 3, 4, 5, 6, 7, 8, 9, 10, 11, 12, 13, 14, 0, 1, 15] := rfl

/-- `utils.Encrypt(a, b, t, m)`. -/
def encrypt (xorKeyStream : List UInt8 → List UInt8 → List UInt8 → List UInt8)
    (a b : List UInt8) (t : UInt32) (m : List UInt8) : Except String (List UInt8) := do
  let k ← xorBytes (doubleLabel a) (quadrupleLabel b)
  let ro ← randomOracle xorKeyStream k t
  let mXorK ← xorBytes m k
  xorBytes mXorK ro

/-- `utils.Decrypt(a, b, t, m)`, which is `Encrypt`. -/
def decrypt (xorKeyStream : List UInt8 → List UInt8 → List UInt8 → List UInt8)
    (a b : List UInt8) (t : UInt32) (m : List UInt8) : Except String (List UInt8) :=
  encrypt xorKeyStream a b t m

@[simp] theorem length_goCopy (dst src : List UInt8) : (goCopy dst src).length = dst.length := by
  simp only [goCopy, List.length_append, List.length_take, List.length_drop]
  omega

@[simp] theorem length_goCopyAt {dst : List UInt8} {lo hi : Nat} (h : lo ≤ hi) (hhi : hi ≤ dst.length)
    (src : List UInt8) : (goCopyAt dst lo hi src).length = dst.length := by
  simp only [goCopyAt, List.length_append, List.length_take, List.length_drop, length_goCopy]
  omega

theorem xor_xor_xor_xor_cancel (x y z : UInt8) : x ^^^ y ^^^ z ^^^ y ^^^ z = x :=
  UInt8.toNat.inj (Nat.eq_of_testBit_eq fun i => by
    show (x.toNat ^^^ y.toNat ^^^ z.toNat ^^^ y.toNat ^^^ z.toNat).testBit i = x.toNat.testBit i
    simp only [Nat.testBit_xor]
    cases x.toNat.testBit i <;> cases y.toNat.testBit i <;> cases z.toNat.testBit i <;> rfl)

theorem zipWith_xor_cancel {a k ro : List UInt8} (hk : a.length = k.length) (hro : a.length = ro.length) :
    List.zipWith (fun x y => x ^^^ y) (List.zipWith (fun x y => x ^^^ y)
      (List.zipWith (fun x y => x ^^^ y) (List.zipWith (fun x y => x ^^^ y) a k) ro) k) ro = a := by
  induction a generalizing k ro with
  | nil => rfl
  | cons x a ih =>
    match k, ro, hk, hro with
    | y :: k, z :: ro, hk, hro =>
      simp only [List.zipWith_cons_cons, xor_xor_xor_xor_cancel, ih (Nat.succ.inj hk) (Nat.succ.inj hro)]

@[simp] theorem length_doubleLabel (a : List UInt8) : (doubleLabel a).length = 16 := by
  simp [doubleLabel]

@[simp] theorem length_quadrupleLabel (b : List UInt8) : (quadrupleLabel b).length = 16 := by
  simp [quadrupleLabel]

/-- Both rotated labels, hence the key, are 16 bytes whatever the labels' lengths, so
`Encrypt` is `m ⊕ k ⊕ π(k, t)` for one key `k` and one oracle block `ro`. -/
theorem encrypt_eq (xorKeyStream : List UInt8 → List UInt8 → List UInt8 → List UInt8)
    (hks : ∀ inp counter key, (xorKeyStream inp counter key).length = inp.length)
    (a b : List UInt8) (t : UInt32) :
    ∃ k ro, k.length = 16 ∧ ro.length = 16 ∧
      ∀ m, encrypt xorKeyStream a b t m = (xorBytes m k >>= fun mXorK => xorBytes mXorK ro) := by
  have hk : xorBytes (doubleLabel a) (quadrupleLabel b) =
      .ok (List.zipWith (fun x y => x ^^^ y) (doubleLabel a) (quadrupleLabel b)) := if_neg (by simp)
  have hklen : (List.zipWith (fun x y => x ^^^ y) (doubleLabel a) (quadrupleLabel b)).length = 16 := by
    simp
  refine ⟨_, xorKeyStream (List.replicate 16 0)
    (List.zipWith (fun x y => x ^^^ y) (doubleLabel a) (quadrupleLabel b)) (fixedKeyPrefix ++ putUint32 t), hklen,
    by rw [hks, List.length_replicate], fun m => ?_⟩
  simp only [encrypt, hk, bind, Except.bind, randomOracle, hklen, ne_eq, not_true_eq_false,
    if_false]

/-- `Decrypt` undoes `Encrypt`: for every pair of labels, tweak and keystream, `Encrypt`
succeeds exactly on 16-byte rows, with a 16-byte result that `Decrypt` turns back into the
row, and panics in `XorBytes` on the others. -/
theorem decrypt_encrypt (xorKeyStream : List UInt8 → List UInt8 → List UInt8 → List UInt8)
    (hks : ∀ inp counter key, (xorKeyStream inp counter key).length = inp.length)
    (a b : List UInt8) (t : UInt32) (m : List UInt8) :
    (m.length = 16 → ∃ c, encrypt xorKeyStream a b t m = .ok c ∧ c.length = 16 ∧
      decrypt xorKeyStream a b t c = .ok m) ∧
    (m.length ≠ 16 → encrypt xorKeyStream a b t m = .error "len(a) != len(b)") := by
  obtain ⟨k, ro, hk, hro, heq⟩ := encrypt_eq xorKeyStream hks a b t
  have hxor : ∀ {x y : List UInt8}, x.length = y.length →
      xorBytes x y = .ok (List.zipWith (fun x y => x ^^^ y) x y) := fun h => if_neg (not_not.2 h)
  refine ⟨fun hm => ⟨List.zipWith (fun x y => x ^^^ y) (List.zipWith (fun x y => x ^^^ y) m k) ro, ?_,
    by simp [hm, hk, hro], ?_⟩, fun hm => ?_⟩
  · rw [heq, hxor (hm.trans hk.symm)]
    exact hxor (by simp [hm, hk, hro])
  · rw [decrypt, heq, hxor (by simp [hm, hk, hro])]
    exact (hxor (by simp [hm, hk, hro])).trans
      (congrArg Except.ok (zipWith_xor_cancel (hm.trans hk.symm) (hm.trans hro.symm)))
  · rw [heq, xorBytes, if_pos (by rw [hk]; exact hm)]
    rfl

/-- A 16-byte label against an empty one, whose copy leaves zeros, under the keystream
that returns its input. -/
theorem decrypt_encrypt_emptyLabel :
    ((List.replicate 16 (5 : UInt8)).length = 16 →
      ∃ c, encrypt (fun inp _ _ => inp) ((List.range 16).map UInt8.ofNat) [] 7 (List.replicate 16 5) =
          .ok c ∧ c.length = 16 ∧
        decrypt (fun inp _ _ => inp) ((List.range 16).map UInt8.ofNat) [] 7 c = .ok (List.replicate 16 5)) ∧
    ((List.replicate 16 (5 : UInt8)).length ≠ 16 →
      encrypt (fun inp _ _ => inp) ((List.range 16).map UInt8.ofNat) [] 7 (List.replicate 16 5) =
        .error "len(a) != len(b)") :=
  decrypt_encrypt (fun inp _ _ => inp) (fun _ _ _ => rfl) _ _ _ _

end TlsNotary
