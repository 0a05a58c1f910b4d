import TlsNotary.Session.Circuits
import Mathlib.Algebra.CharP.Two
import Mathlib.Algebra.BigOperators.Fin
import Mathlib.Tactic.LinearCombination
import Mathlib.Data.ZMod.Basic

/-!
# The Finished tags from shares of H

`C4_step3` and `C5_step3` compute the notary's share of the GCM tag of the client's
and of the server's Finished message. The circuit's mask for the hash subkey `H`
becomes the notary's share of `H`, its square the share of `H²`, and the share of
`H³` needs the two cross terms of `(H1_n + H1_c)(H2_n + H2_c)`, which the client
obtains by oblivious transfer from two masked X-tables: its bits of `H1_c` select
from the table of `H2_n`, sent first, and its bits of `H2_c` from the table of `H1_n`.

The steps work on byte slices with `utils.XorBytes` and `utils.Concat`. Package
`ghash` is not part of the source: `BlockMult` and `GetMaskedXTable` are the
operations `GhashOps` gives the steps, and `GhashOps.Lawful` is what the protocol
asks of them, read through `blockVal`, the field element of a 16-byte block in GCM's
bit order over any commutative ring of characteristic two (GF(2^128) among them).
The X-table draws fresh masks at every call; a generator passed from call to call
stands for them. The client's side follows the spec.
-/
namespace TlsNotary
open scoped BigOperators

/-- `utils.XorBytes`: the byte-wise XOR of two slices, and a panic when their lengths
differ. -/
def xorBytes (a b : List UInt8) : Except String (List UInt8) :=
  if a.length ≠ b.length then .error "len(a) != len(b)"
  else .ok (List.zipWith (fun x y => x ^^^ y) a b)

/-- `utils.Concat`: the slices copied one after another into a new slice. -/
def concat (slices : List (List UInt8)) : List UInt8 := slices.flatten

/-- What `C4_step3` and `C5_step3` call in package `ghash`: `BlockMult`, and
`GetMaskedXTable` with the generator its masks are drawn from. The table is its 256
messages one after another, then the sum of its masks and the generator after the
draw. -/
structure GhashOps (Gen : Type) where
  blockMult : List UInt8 → List UInt8 → List UInt8
  getMaskedXTable : Gen → List UInt8 → (List UInt8 × List UInt8) × Gen

/-- What the notary computes in `C4_step3` and `C5_step3`: its shares of `H`, `H²` and
`H³`, the OT response it sends, and its share of the tag. -/
structure TagShares where
  p1 : List UInt8
  p2 : List UInt8
  p3 : List UInt8
  otResponse : List UInt8
  tagShare : List UInt8

/-- `aad`: the additional data of a Finished record, padded to a block. -/
def finishedAad : List UInt8 := [0, 0, 0, 0, 0, 0, 0, 0, 22, 3, 3, 0, 16, 0, 0, 0]

/-- `lenAlenC`: 104 bits of additional data and 128 bits of ciphertext. -/
def lenAlenC : List UInt8 := [0, 0, 0, 0, 0, 0, 0, 104, 0, 0, 0, 0, 0, 0, 0, 128]

section Steps
variable {Gen : Type} (o : GhashOps Gen)

/-- The computation `C4_step3` and `C5_step3` share, from the circuit's mask for `H`
(`Masks[1]`), its mask for the gctr block (`Masks[2]`) and the encrypted Finished
block. -/
def finishedTagShare (gen : Gen) (hMask gctrMask encF : List UInt8) : Except String TagShares := do
  let p1 := hMask
  let p2 := o.blockMult p1 p1
  let h1h2 := o.blockMult p1 p2
  let ((allMessages1, maskSum1), gen) := o.getMaskedXTable gen p1
  let ((allMessages2, maskSum2), _) := o.getMaskedXTable gen p2
  let otResponse := concat [allMessages2, allMessages1]
  let p3 ← xorBytes (← xorBytes maskSum1 maskSum2) h1h2
  let s1 := o.blockMult finishedAad p3
  let s2 := o.blockMult encF p2
  let s3 := o.blockMult lenAlenC p1
  let tagShare ← xorBytes (← xorBytes (← xorBytes s1 s2) s3) gctrMask
  return { p1, p2, p3, otResponse, tagShare }

/-- `C4_step3` past its sequence check and decommitment, on the circuits' masks
`Cs[c].Masks[i]` and the encrypted client Finished block `encCF`. Its three shares
become `s.ghash.P[1]`, `P[2]` and `P[3]`. -/
def c4Step3 (gen : Gen) (masks : Nat → Nat → List UInt8) (encCF : List UInt8) :
    Except String TagShares :=
  finishedTagShare o gen (masks 4 1) (masks 4 2) encCF

/-- `C5_step3`: the same on circuit 5's masks and the encrypted server Finished block
`encSF`, with its shares kept local. -/
def c5Step3 (gen : Gen) (masks : Nat → Nat → List UInt8) (encSF : List UInt8) :
    Except String TagShares :=
  finishedTagShare o gen (masks 5 1) (masks 5 2) encSF

end Steps

section Reading
variable {F : Type} [CommRing F] (e : Fin 128 → F)

/-- Bit `i` of a block in GCM's order: bit `7 - i % 8` of byte `i / 8`, so that the
first bit of the first byte is bit 0. -/
def blockBit (a : List UInt8) (i : Fin 128) : Bool :=
  (a.getD (i / 8) 0).toNat.testBit (7 - i % 8)

/-- The field element of a block, given the element `e i` of each bit. -/
def blockVal (a : List UInt8) : F := ∑ i, if blockBit a i then e i else 0

/-- The spec's law of a masked X-table `t` for the block `x`: 256 messages of 16
bytes, message `2i+1` is message `2i` plus `x·e i`, and the sum of the masks is the sum
of the even messages. -/
structure MaskedXTable (x : List UInt8) (t : List UInt8 × List UInt8) : Prop where
  length_messages : t.1.length = 256 * 16
  length_maskSum : t.2.length = 16
  pair : ∀ i : Fin 128,
    blockVal e (piece t.1 16 (2 * i + 1)) = blockVal e (piece t.1 16 (2 * i)) + blockVal e x * e i
  maskSum : blockVal e t.2 = ∑ i : Fin 128, blockVal e (piece t.1 16 (2 * i))

/-- Modelled from the spec: the messages a receiver takes from the 128 pairs of the
response that start at pair `base`, choosing with the bits of `y`: the second message
of pair `base + i` where bit `i` of `y` is set, the first otherwise. -/
def otSelect (resp : List UInt8) (base : Nat) (y : List UInt8) : List (List UInt8) :=
  List.ofFn fun i : Fin 128 => piece resp 16 (2 * (base + i) + (blockBit y i).toNat)

/-- Modelled from the spec: what the client of `C4_step3` and `C5_step3` takes from the
response, with the bits of its share `hC` of `H` for the first 128 pairs and those of
its share `hC·hC` of `H²` for the last 128. -/
def clientSelected {Gen : Type} (o : GhashOps Gen) (resp hC : List UInt8) : List (List UInt8) :=
  otSelect resp 0 hC ++ otSelect resp 128 (o.blockMult hC hC)

/-- Modelled from the spec: the element of the client's share of `H³`, its product
`hC·(hC·hC)` XOR the messages it selected. -/
def clientH3Share {Gen : Type} (o : GhashOps Gen) (resp hC : List UInt8) : F :=
  blockVal e (o.blockMult hC (o.blockMult hC hC)) + ((clientSelected o resp hC).map (blockVal e)).sum

/-- Modelled from the spec: the client's share of the tag, from its shares of `H`,
`H²`, `H³` and of the gctr block. -/
def clientTagShare (aad encF lenAC hC hC2 h3C gC : F) : F :=
  aad * h3C + encF * hC2 + lenAC * hC + gC

/-- Modelled from the spec: GHASH of the blocks `X[0..L-1]` under `H`, `Σ X[n]·H^(L-n)`. -/
def ghash (h : F) : List F → F
  | [] => 0
  | x :: xs => x * h ^ (xs.length + 1) + ghash h xs

theorem ghash_three (h a c l : F) : ghash h [a, c, l] = a * h ^ 3 + c * h ^ 2 + l * h := by
  simp only [ghash, List.length_cons, List.length_nil]
  ring

theorem getD_zipWith_xor {a b : List UInt8} (h : a.length = b.length) (k : Nat) :
    (List.zipWith (fun x y => x ^^^ y) a b).getD k 0 = a.getD k 0 ^^^ b.getD k 0 := by
  induction a generalizing b k with
  | nil => cases b with
    | nil => simp only [List.zipWith_nil_left, List.getD_nil]; rfl
    | cons => cases h
  | cons x a ih => cases b with
    | nil => cases h
    | cons y b => cases k with
      | zero => rfl
      | succ k => exact ih (Nat.succ.inj h) k

theorem blockBit_xor {a b : List UInt8} (h : a.length = b.length) (i : Fin 128) :
    blockBit (List.zipWith (fun x y => x ^^^ y) a b) i = (blockBit a i ^^ blockBit b i) := by
  rw [blockBit, getD_zipWith_xor h, show ∀ x y : UInt8, (x ^^^ y).toNat = x.toNat ^^^ y.toNat
    from fun _ _ => rfl, Nat.testBit_xor]
  rfl

end Reading

variable {F Gen : Type} [CommRing F] (e : Fin 128 → F)

/-- What the protocol asks of package `ghash`, read through the elements `e` of the bits:
on 16-byte blocks `BlockMult` gives a 16-byte block and multiplies, and every masked
X-table for a 16-byte block obeys the spec's law. -/
structure GhashOps.Lawful (o : GhashOps Gen) : Prop where
  blockMult : ∀ a b, a.length = 16 → b.length = 16 →
    (o.blockMult a b).length = 16 ∧ blockVal e (o.blockMult a b) = blockVal e a * blockVal e b
  getMaskedXTable : ∀ gen x, x.length = 16 → MaskedXTable e x (o.getMaskedXTable gen x).1

/-- The notary's result `r` on its masks `hN` (for `H`) and `gN` (for the gctr block)
and the encrypted block `encF`, against the client's shares `hC` and `gC`: `P[1]`,
`P[2]`, `P[3]` are shares of `H`, `H²`, `H³` for `H = hN XOR hC`, and the two tag
shares add up to the GHASH of `aad`, `encF`, `lenAlenC` plus both gctr masks. -/
structure TagShares.Sound (o : GhashOps Gen) (r : TagShares) (hN gN hC gC encF : List UInt8) :
    Prop where
  share1 : blockVal e r.p1 + blockVal e hC = blockVal e hN + blockVal e hC
  share2 : blockVal e r.p2 + blockVal e (o.blockMult hC hC) = (blockVal e hN + blockVal e hC) ^ 2
  share3 : blockVal e r.p3 + clientH3Share e o r.otResponse hC = (blockVal e hN + blockVal e hC) ^ 3
  tag : blockVal e r.tagShare + clientTagShare (blockVal e finishedAad) (blockVal e encF)
      (blockVal e lenAlenC) (blockVal e hC) (blockVal e (o.blockMult hC hC))
      (clientH3Share e o r.otResponse hC) (blockVal e gC) =
    ghash (blockVal e hN + blockVal e hC) [blockVal e finishedAad, blockVal e encF, blockVal e lenAlenC] +
      blockVal e gN + blockVal e gC

variable {e}

theorem piece_append_left {a b : List UInt8} {n k : Nat} (h : (k + 1) * n ≤ a.length) :
    piece (a ++ b) n k = piece a n k := by
  rw [Nat.succ_mul] at h
  simp only [piece, List.drop_append_of_le_length (by omega : k * n ≤ a.length)]
  exact List.take_append_of_le_length (by rw [List.length_drop]; omega)

theorem piece_append_right {a b : List UInt8} {n m k : Nat} (h : a.length = m * n) :
    piece (a ++ b) n (m + k) = piece b n k := by
  simp only [piece, Nat.add_mul, ← h, List.drop_append]

/-- The masked X-table law, as the receiver sees it: the messages selected with the bits
of `y` from the table of `x`, placed at pair `base` of the response, sum to the masks
plus `x·y`. -/
theorem sum_otSelect {x y resp : List UInt8} {t : List UInt8 × List UInt8} {base : Nat}
    (ht : MaskedXTable e x t) (hplace : ∀ k < 256, piece resp 16 (2 * base + k) = piece t.1 16 k) :
    ((otSelect resp base y).map (blockVal e)).sum =
      ∑ i : Fin 128, blockVal e (piece t.1 16 (2 * i)) + blockVal e x * blockVal e y := by
  rw [otSelect, List.map_ofFn, List.sum_ofFn, show blockVal e y = ∑ i, if blockBit y i then e i else 0
    from rfl, Finset.mul_sum, ← Finset.sum_add_distrib]
  refine Finset.sum_congr rfl fun i _ => ?_
  have hk : 2 * i.val + (blockBit y i).toNat < 256 := by
    have := i.isLt
    have := Bool.toNat_le (blockBit y i)
    omega
  rw [Function.comp_apply, Nat.mul_add, Nat.add_assoc, hplace _ hk]
  cases blockBit y i
  · simp
  · simp [ht.pair i]

theorem GhashOps.Lawful.table {o : GhashOps Gen} (hlaw : o.Lawful e) {gen gen' : Gen}
    {x : List UInt8} {t : List UInt8 × List UInt8} (h : o.getMaskedXTable gen x = (t, gen'))
    (hx : x.length = 16) : MaskedXTable e x t := by
  simpa only [h] using hlaw.getMaskedXTable gen x hx

variable [CharP F 2]

theorem blockVal_xor {a b : List UInt8} (h : a.length = b.length) :
    blockVal e (List.zipWith (fun x y => x ^^^ y) a b) = blockVal e a + blockVal e b := by
  rw [blockVal, blockVal, blockVal, ← Finset.sum_add_distrib]
  refine Finset.sum_congr rfl fun i _ => ?_
  rw [blockBit_xor h]
  cases blockBit a i <;> cases blockBit b i <;> simp [CharTwo.add_self_eq_zero]

theorem xorBytes_spec {a b : List UInt8} (h : a.length = b.length) :
    ∃ c, xorBytes a b = .ok c ∧ c.length = a.length ∧ blockVal e c = blockVal e a + blockVal e b :=
  ⟨_, if_neg (not_not.2 h), by simp [h], blockVal_xor h⟩

/-- On 16-byte masks and block, and with the two X-tables it draws, the step does not
panic: its shares are `hN`, `hN·hN` and the mask sums plus `hN·(hN·hN)`, its response is
the table of `P[2]` and then that of `P[1]`, and its tag share sums the GHASH blocks
times its shares, plus the gctr mask. -/
theorem finishedTagShare_values {o : GhashOps Gen} (hlaw : o.Lawful e) {gen gen₁ gen₂ : Gen}
    {hN gN encF msgs1 sum1 msgs2 sum2 : List UInt8} (hN16 : hN.length = 16) (hgN : gN.length = 16)
    (henc : encF.length = 16) (h₁ : o.getMaskedXTable gen hN = ((msgs1, sum1), gen₁))
    (h₂ : o.getMaskedXTable gen₁ (o.blockMult hN hN) = ((msgs2, sum2), gen₂)) :
    ∃ r, finishedTagShare o gen hN gN encF = .ok r ∧ r.p1 = hN ∧ r.p2 = o.blockMult hN hN ∧
      r.otResponse = msgs2 ++ msgs1 ∧
      blockVal e r.p3 = blockVal e sum1 + blockVal e sum2 + blockVal e hN * (blockVal e hN * blockVal e hN) ∧
      blockVal e r.tagShare = blockVal e finishedAad * blockVal e r.p3 +
        blockVal e encF * (blockVal e hN * blockVal e hN) + blockVal e lenAlenC * blockVal e hN + blockVal e gN := by
  obtain ⟨hp2, hv2⟩ := hlaw.blockMult hN hN hN16 hN16
  obtain ⟨h12, hv12⟩ := hlaw.blockMult hN _ hN16 hp2
  have hs₁ := (hlaw.table h₁ hN16).length_maskSum
  have hs₂ := (hlaw.table h₂ hp2).length_maskSum
  obtain ⟨q, hq, hql, hqv⟩ := xorBytes_spec (e := e) (hs₁.trans hs₂.symm)
  obtain ⟨p3, hp3, hp3l, hp3v⟩ := xorBytes_spec (e := e) (hql.trans (hs₁.trans h12.symm))
  obtain ⟨hs1l, hs1v⟩ := hlaw.blockMult finishedAad p3 rfl (hp3l.trans (hql.trans hs₁))
  obtain ⟨hs2l, hs2v⟩ := hlaw.blockMult encF _ henc hp2
  obtain ⟨hs3l, hs3v⟩ := hlaw.blockMult lenAlenC hN rfl hN16
  obtain ⟨u, hu, hul, huv⟩ := xorBytes_spec (e := e) (hs1l.trans hs2l.symm)
  obtain ⟨v, hv, hvl, hvv⟩ := xorBytes_spec (e := e) (hul.trans (hs1l.trans hs3l.symm))
  obtain ⟨w, hw, -, hwv⟩ := xorBytes_spec (e := e) (hvl.trans (hul.trans (hs1l.trans hgN.symm)))
  refine ⟨⟨hN, _, p3, concat [msgs2, msgs1], w⟩, ?_, rfl, rfl, by simp [concat], ?_, ?_⟩
  · simp only [finishedTagShare, h₁, h₂, hq, bind, Except.bind, hp3, hu, hv, hw]
    rfl
  · rw [hp3v, hqv, hv12, hv2]
  · rw [hwv, hvv, huv, hs1v, hs2v, hs3v, hv2]

/-- Under a lawful `ghash`, on 16-byte masks and blocks, the step does not panic, and
its shares and the client's add up to the powers of `H`, and the tag shares to GHASH
plus both gctr masks. -/
theorem finishedTagShare_sound {o : GhashOps Gen} (hlaw : o.Lawful e) (gen : Gen)
    {hN gN hC gC encF : List UInt8} (hN16 : hN.length = 16) (hgN : gN.length = 16)
    (hC16 : hC.length = 16) (henc : encF.length = 16) :
    ∃ r, finishedTagShare o gen hN gN encF = .ok r ∧ r.Sound e o hN gN hC gC encF := by
  rcases h₁ : o.getMaskedXTable gen hN with ⟨⟨msgs1, sum1⟩, gen₁⟩
  rcases h₂ : o.getMaskedXTable gen₁ (o.blockMult hN hN) with ⟨⟨msgs2, sum2⟩, gen₂⟩
  obtain ⟨r, hr, hp1, hp2, hresp, hp3, htag⟩ := finishedTagShare_values hlaw hN16 hgN henc h₁ h₂
  obtain ⟨hN2l, hvN2⟩ := hlaw.blockMult hN hN hN16 hN16
  obtain ⟨hC2l, hvC2⟩ := hlaw.blockMult hC hC hC16 hC16
  obtain ⟨-, hvC3⟩ := hlaw.blockMult hC _ hC16 hC2l
  have ht₁ := hlaw.table h₁ hN16
  have ht₂ := hlaw.table h₂ hN2l
  have hl₂ : msgs2.length = 256 * 16 := ht₂.length_messages
  have hfirst : ∀ k < 256, piece (msgs2 ++ msgs1) 16 (2 * 0 + k) = piece msgs2 16 k := fun k hk => by
    rw [Nat.mul_zero, Nat.zero_add]
    exact piece_append_left (by omega)
  have hsecond : ∀ k < 256, piece (msgs2 ++ msgs1) 16 (2 * 128 + k) = piece msgs1 16 k :=
    fun _ _ => piece_append_right hl₂
  have hsel : ((clientSelected o (msgs2 ++ msgs1) hC).map (blockVal e)).sum =
      blockVal e sum2 + blockVal e (o.blockMult hN hN) * blockVal e hC +
        (blockVal e sum1 + blockVal e hN * blockVal e (o.blockMult hC hC)) := by
    rw [clientSelected, List.map_append, List.sum_append, sum_otSelect ht₂ hfirst,
      sum_otSelect ht₁ hsecond, ← ht₁.maskSum, ← ht₂.maskSum]
  have two : (2 : F) = 0 := CharTwo.two_eq_zero
  have share2 : blockVal e r.p2 + blockVal e (o.blockMult hC hC) =
      (blockVal e hN + blockVal e hC) ^ 2 := by
    rw [hp2, hvN2, hvC2, CharTwo.add_sq]
    ring
  have share3 : blockVal e r.p3 + clientH3Share e o r.otResponse hC =
      (blockVal e hN + blockVal e hC) ^ 3 := by
    rw [clientH3Share, hresp, hsel, hvC3, hvC2, hp3, hvN2]
    linear_combination (blockVal e sum1 + blockVal e sum2 - blockVal e hN * blockVal e hN * blockVal e hC -
      blockVal e hN * blockVal e hC * blockVal e hC) * two
  refine ⟨r, hr, ⟨by rw [hp1], share2, share3, ?_⟩⟩
  rw [hp2, hvN2] at share2
  rw [ghash_three, clientTagShare, htag]
  linear_combination blockVal e finishedAad * share3 + blockVal e encF * share2

/-- `C4_step3` and `C5_step3`, each on its circuit's 16-byte masks and against the
client's shares for that circuit, do not panic and give shares of the powers of `H`
and of the tag of the Finished block. -/
theorem c4Step3_c5Step3_sound {o : GhashOps Gen} (hlaw : o.Lawful e) (gen₄ gen₅ : Gen)
    (masks : Nat → Nat → List UInt8) (h4 : (masks 4 1).length = 16 ∧ (masks 4 2).length = 16)
    (h5 : (masks 5 1).length = 16 ∧ (masks 5 2).length = 16) {hC gC encCF hC' gC' encSF : List UInt8}
    (hC16 : hC.length = 16) (hCF : encCF.length = 16) (hC'16 : hC'.length = 16)
    (hSF : encSF.length = 16) :
    (∃ r, c4Step3 o gen₄ masks encCF = .ok r ∧ r.Sound e o (masks 4 1) (masks 4 2) hC gC encCF) ∧
    (∃ r, c5Step3 o gen₅ masks encSF = .ok r ∧ r.Sound e o (masks 5 1) (masks 5 2) hC' gC' encSF) :=
  ⟨finishedTagShare_sound hlaw gen₄ h4.1 h4.2 hC16 hCF, finishedTagShare_sound hlaw gen₅ h5.1 h5.2 hC'16 hSF⟩

/-- Over GF(2) a block stands for its first bit. -/
def firstBitElem (i : Fin 128) : ZMod 2 := if i = 0 then 1 else 0

/-- The block of 0. -/
def zeroBlock : List UInt8 := List.replicate 16 0

/-- A block whose first bit is set. -/
def oneBlock : List UInt8 := 128 :: List.replicate 15 0

/-- A masked X-table over GF(2) with zero masks, for a block whose first bit is `c`:
the only message that is not zero is the second of pair 0. -/
def firstBitTable (c : Bool) : List UInt8 :=
  zeroBlock ++ (if c then oneBlock else zeroBlock) ++ List.replicate (254 * 16) 0

theorem length_firstBitTable (c : Bool) : (firstBitTable c).length = 256 * 16 := by
  rw [firstBitTable, List.length_append, List.length_append, List.length_replicate]
  cases c <;> rfl

/-- `ghash` over GF(2): the product of the first bits, and `firstBitTable`. -/
def firstBitOps : GhashOps Unit where
  blockMult a b := if blockBit a 0 && blockBit b 0 then oneBlock else zeroBlock
  getMaskedXTable gen x := ((firstBitTable (blockBit x 0), zeroBlock), gen)

theorem blockVal_firstBitElem (a : List UInt8) :
    blockVal firstBitElem a = if blockBit a 0 then 1 else 0 := by
  rw [blockVal, Finset.sum_eq_single 0 (fun i _ hi => by simp [firstBitElem, hi]) (by simp)]
  simp [firstBitElem]

theorem blockBit_piece_zero (xs : List UInt8) (k : Nat) :
    blockBit (piece xs 16 k) 0 = (xs.getD (k * 16) 0).toNat.testBit 7 := by
  simp [blockBit, piece, List.getD_eq_getElem?_getD, List.getElem?_take, List.getElem?_drop]

theorem getD_firstBitTable (c : Bool) (k : Nat) :
    (firstBitTable c).getD (k * 16) 0 = if k = 1 ∧ c then 128 else 0 := by
  match k with
  | 0 => cases c <;> rfl
  | 1 => cases c <;> rfl
  | k + 2 =>
    have hlen : (zeroBlock ++ if c then oneBlock else zeroBlock).length = 32 := by cases c <;> rfl
    rw [firstBitTable, List.getD_eq_getElem?_getD, List.getElem?_append_right (by omega), hlen,
      List.getElem?_replicate]
    split <;> simp

theorem firstBitOps_lawful : firstBitOps.Lawful firstBitElem where
  blockMult a b _ _ := by
    simp only [firstBitOps, blockVal_firstBitElem]
    cases blockBit a 0 <;> cases blockBit b 0 <;> decide
  getMaskedXTable gen x _ := by
    refine ⟨length_firstBitTable _, rfl, fun i => ?_, ?_⟩
    · simp only [firstBitOps, blockVal_firstBitElem, blockBit_piece_zero, getD_firstBitTable]
      by_cases hi : i = 0
      · subst hi; cases blockBit x 0 <;> decide
      · have : (i : Nat) ≠ 0 := fun h => hi (Fin.ext h)
        simp [firstBitElem, hi, show 2 * (i : Nat) + 1 ≠ 1 by omega, show 2 * (i : Nat) ≠ 1 by omega]
    · simp only [firstBitOps, blockVal_firstBitElem, blockBit_piece_zero, getD_firstBitTable]
      rw [Finset.sum_eq_zero fun i _ => by simp [show 2 * (i : Nat) ≠ 1 by omega]]
      decide

/-- Both steps over GF(2), on the block `oneBlock` for every mask and share. -/
theorem c4Step3_c5Step3_sound_firstBit :
    firstBitOps.Lawful firstBitElem ∧
      ((∃ r, c4Step3 firstBitOps () (fun _ _ => oneBlock) oneBlock = .ok r ∧
        r.Sound firstBitElem firstBitOps oneBlock oneBlock oneBlock oneBlock oneBlock) ∧
      (∃ r, c5Step3 firstBitOps () (fun _ _ => oneBlock) oneBlock = .ok r ∧
        r.Sound firstBitElem firstBitOps oneBlock oneBlock oneBlock oneBlock oneBlock)) :=
  ⟨firstBitOps_lawful, c4Step3_c5Step3_sound firstBitOps_lawful () () (fun _ _ => oneBlock)
    ⟨rfl, rfl⟩ ⟨rfl, rfl⟩ rfl rfl rfl rfl⟩

end TlsNotary
