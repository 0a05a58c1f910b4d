import TlsNotary.Session.Bits
import Mathlib.Algebra.BigOperators.Group.List

/-!
# Circuit 6's labels, circuit outputs and the notary's blob

Circuit 6 (AES) runs `C6Count` times, a count the client writes into the last two bytes
of `Init`'s body. Its client labels, `GetClientLabels(6)`, hold one chunk per execution:
`c4_step1A` sends the labels of each execution's first 160 input bits (the client's
key and IV shares, bound to circuit 4's) with circuit 4's OT, and `C6_step1` sends the
rest of each chunk with circuit 6's. `parsePlaintextOutput` cuts a circuit's decoded
output the same way, one chunk per execution. Both divide a length by the execution
count and cut with `utils.SplitIntoChunks`, and Go panics on a division by zero.
`getCircuitBlobOffset` finds where each circuit's truth tables sit in the blob the
client uploaded. The garbler that makes the labels is not in the repository: the label
vectors and the circuits' metadata are parameters.
-/
namespace TlsNotary

/-- Go's panic for an integer division or remainder by zero. -/
def integerDivideByZero : String := "runtime error: integer divide by zero"

/-- `l[i]`, or Go's panic for an index past the length. -/
def goIndex {α : Type} (l : List α) (i : Nat) : Except String α :=
  match l[i]? with
  | some a => .ok a
  | none => .error ("runtime error: index out of range [" ++ toString i ++ "] with length " ++
      toString l.length)

/-- Piece `i` of `xs` cut into pieces of `n`: `xs[i*n:(i+1)*n]`. -/
def piece {α : Type} (xs : List α) (n i : Nat) : List α := (xs.drop (i * n)).take n

/-- The slice `data[i*n:(i+1)*n]`, whose capacity runs on to the end of `data`'s. -/
def Bytes.piece (data : Bytes) (n i : Nat) : Bytes :=
  ⟨TlsNotary.piece data.bytes n i, data.bytes.drop ((i + 1) * n) ++ data.spare⟩

/-- `utils.SplitIntoChunks(data, chunkSize)`. -/
def splitIntoChunks (data : Bytes) (chunkSize : Nat) : Except String (List Bytes) :=
  if chunkSize = 0 then .error integerDivideByZero
  else if data.bytes.length % chunkSize ≠ 0 then .error "len(data) % chunkSize != 0"
  else .ok ((List.range (data.bytes.length / chunkSize)).map (data.piece chunkSize))

/-- `b[lo:]`: the bytes from `lo` on, or Go's panic when `lo` passes the length. -/
def Bytes.sliceFrom (b : Bytes) (lo : Nat) : Except String (List UInt8) :=
  if lo ≤ b.bytes.length then .ok (b.bytes.drop lo)
  else .error ("runtime error: slice bounds out of range [" ++ toString lo ++ ":" ++
    toString b.bytes.length ++ "]")

theorem length_piece {α : Type} (xs : List α) {n i : Nat} (h : (i + 1) * n ≤ xs.length) :
    (piece xs n i).length = n := by
  simp only [piece, List.length_take, List.length_drop]
  rw [Nat.succ_mul] at h
  omega

theorem flatten_map_piece {α : Type} (xs : List α) (n k : Nat) :
    ((List.range k).map (piece xs n)).flatten = xs.take (k * n) := by
  induction k with
  | zero => simp
  | succ k ih =>
    rw [List.range_succ, List.map_append, List.flatten_append, ih, Nat.succ_mul, List.take_add]
    simp [piece]

theorem piece_flatten {α : Type} (blocks : List (List α)) {n : Nat} (h : ∀ b ∈ blocks, b.length = n)
    (i : Nat) (hi : i < blocks.length) : piece blocks.flatten n i = blocks[i] := by
  induction blocks generalizing i with
  | nil => cases hi
  | cons b bs ih =>
    have hb := h b (List.mem_cons_self b bs)
    cases i with
    | zero => simp [piece, ← hb]
    | succ i =>
      rw [piece, List.flatten_cons, show (i + 1) * n = b.length + i * n by rw [hb, Nat.succ_mul,
        Nat.add_comm], List.drop_append]
      exact ih (fun c hc => h c (List.mem_cons_of_mem b hc)) i (by simpa using hi)

theorem splitIntoChunks_eq (data : Bytes) {n : Nat} (hn : 0 < n) (hdiv : data.bytes.length % n = 0) :
    splitIntoChunks data n = .ok ((List.range (data.bytes.length / n)).map (data.piece n)) := by
  rw [splitIntoChunks, if_neg (by omega), if_neg (by omega)]

/-- One round of the loop below: `part` of chunk `i` appended to `labels`. -/
def appendPart (chunks : List Bytes) (part : Bytes → Except String (List UInt8))
    (labels : List UInt8) (i : Nat) : Except String (List UInt8) := do
  let chunk ← goIndex chunks i
  let p ← part chunk
  pure (labels ++ p)

/-- The loop `c4_step1A` and `C6_step1` share: `GetClientLabels(6)` cut into `C6Count`
chunks, and `part` of each chunk appended in execution order. -/
def perExecutionLabels (part : Bytes → Except String (List UInt8)) (allLabels : Bytes)
    (c6Count : Nat) : Except String (List UInt8) := do
  if c6Count = 0 then throw integerDivideByZero
  let labelsForEachExecution ← splitIntoChunks allLabels (allLabels.bytes.length / c6Count)
  (List.range c6Count).foldlM (appendPart labelsForEachExecution part) []

/-- What `Session.c4_step1A` passes to `RespondWithData`: `cl4`, then the labels of
circuit-6 input bits 0..159 of every execution. -/
def c4Step1A (cl4 : List UInt8) (allC6Labels : Bytes) (c6Count : Nat) :
    Except String (List UInt8) := do
  let c6KeyLabels ← perExecutionLabels (fun chunk => chunk.slice 0 (160 * 32)) allC6Labels c6Count
  pure (cl4 ++ c6KeyLabels)

/-- The labels `Session.C6_step1` passes to `RespondWithData`: every execution's labels
from input bit 160 on. -/
def c6Step1Labels (allLabels : Bytes) (c6Count : Nat) : Except String (List UInt8) :=
  perExecutionLabels (fun chunk => chunk.sliceFrom (160 * 32)) allLabels c6Count

/-- The append loop over chunks that `part` takes apart without a panic. -/
theorem foldlM_part_eq (chunks : List Bytes) (part : Bytes → Except String (List UInt8))
    (g : Nat → List UInt8) (is : List Nat) (acc : List UInt8)
    (h : ∀ i ∈ is, ∃ chunk, goIndex chunks i = .ok chunk ∧ part chunk = .ok (g i)) :
    is.foldlM (appendPart chunks part) acc = .ok (acc ++ (is.map g).flatten) := by
  induction is generalizing acc with
  | nil => simp [pure, Except.pure]
  | cons i is ih =>
    obtain ⟨chunk, hc, hp⟩ := h i (List.mem_cons_self i is)
    simp only [List.foldlM_cons, appendPart, hc, hp, bind, Except.bind, pure, Except.pure]
    rw [ih _ fun j hj => h j (List.mem_cons_of_mem i hj)]
    simp

/-- With `C6Count ≥ 1` dividing the labels' length, the loop appends `part` of every
execution's chunk. -/
theorem perExecutionLabels_eq (part : Bytes → Except String (List UInt8)) (g : Bytes → List UInt8)
    (L : Bytes) {c6Count : Nat} (hc : 0 < c6Count) (hdiv : L.bytes.length % c6Count = 0)
    (hlen : c6Count ≤ L.bytes.length)
    (hpart : ∀ i < c6Count, part (L.piece (L.bytes.length / c6Count) i) =
      .ok (g (L.piece (L.bytes.length / c6Count) i))) :
    perExecutionLabels part L c6Count =
      .ok (((List.range c6Count).map fun i => g (L.piece (L.bytes.length / c6Count) i)).flatten) := by
  have hcs : 0 < L.bytes.length / c6Count := Nat.div_pos hlen hc
  have hcount : L.bytes.length / (L.bytes.length / c6Count) = c6Count :=
    Nat.div_div_self (Nat.dvd_of_mod_eq_zero hdiv) (by omega)
  have hmod : L.bytes.length % (L.bytes.length / c6Count) = 0 :=
    Nat.mod_eq_zero_of_dvd (Nat.div_dvd_of_dvd (Nat.dvd_of_mod_eq_zero hdiv))
  simp only [perExecutionLabels, if_neg (Nat.pos_iff_ne_zero.1 hc), splitIntoChunks_eq L hcs hmod,
    hcount, bind, Except.bind]
  rw [foldlM_part_eq _ part _ _ [] fun i hi => ⟨_, by simp [goIndex, List.mem_range.1 hi],
    hpart i (List.mem_range.1 hi)⟩, List.nil_append]
  rfl

theorem length_flatten_map {α β : Type} (l : List β) (f : β → List α) {n : Nat}
    (h : ∀ b ∈ l, (f b).length = n) : (l.map f).flatten.length = l.length * n := by
  induction l with
  | nil => simp
  | cons b l ih =>
    rw [List.map_cons, List.flatten_cons, List.length_append, h b (List.mem_cons_self b l),
      ih fun c hc => h c (List.mem_cons_of_mem b hc), List.length_cons, Nat.succ_mul, Nat.add_comm]

theorem piece_flatten_map {α β : Type} (l : List β) (f : β → List α) {n : Nat}
    (h : ∀ b ∈ l, (f b).length = n) {i : Nat} (hi : i < l.length) :
    piece (l.map f).flatten n i = f l[i] := by
  rw [piece_flatten _ (List.forall_mem_map.2 h) i (by simpa using hi), List.getElem_map]

/-- With `C6Count ≥ 1` executions whose label chunks hold at least `160*32` bytes,
`c4_step1A` sends the first `160*32` bytes of every chunk after `cl4`, `C6_step1` the rest
of every chunk, and the two pieces of each chunk put back together give the labels. -/
theorem c6Labels_rebuild (c6Count : Nat) (cl4 : List UInt8) (L : Bytes) (hc : 1 ≤ c6Count)
    (hdiv : L.bytes.length % c6Count = 0) (hchunk : 160 * 32 ≤ L.bytes.length / c6Count) :
    ∃ keys rest, c4Step1A cl4 L c6Count = .ok (cl4 ++ keys) ∧
      c6Step1Labels L c6Count = .ok rest ∧
      keys.length = c6Count * (160 * 32) ∧
      rest.length = c6Count * (L.bytes.length / c6Count - 160 * 32) ∧
      (List.range c6Count).flatMap (fun i => piece keys (160 * 32) i ++
        piece rest (L.bytes.length / c6Count - 160 * 32) i) = L.bytes := by
  set cs := L.bytes.length / c6Count
  have hlen : c6Count * cs = L.bytes.length := Nat.mul_div_cancel' (Nat.dvd_of_mod_eq_zero hdiv)
  have hcount : c6Count ≤ L.bytes.length := by rw [← hlen]; exact Nat.le_mul_of_pos_right _ (by omega)
  have hpiece : ∀ i ∈ List.range c6Count, (L.piece cs i).bytes.length = cs := fun i hi =>
    length_piece _ (by rw [← hlen]; exact Nat.mul_le_mul_right _ (List.mem_range.1 hi))
  -- each execution's chunk, cut where `c4_step1A` and `C6_step1` cut it
  have hkeys : ∀ i ∈ List.range c6Count, ((L.piece cs i).bytes.take (160 * 32)).length = 160 * 32 :=
    fun i hi => by simp [hpiece i hi, hchunk]
  have hrest : ∀ i ∈ List.range c6Count, ((L.piece cs i).bytes.drop (160 * 32)).length = cs - 160 * 32 :=
    fun i hi => by simp [hpiece i hi]
  refine ⟨_, _, ?_, ?_, (length_flatten_map _ _ hkeys).trans (by simp),
    (length_flatten_map _ _ hrest).trans (by simp), ?_⟩
  · rw [c4Step1A, perExecutionLabels_eq _ (fun b => b.bytes.take (160 * 32)) L (by omega) hdiv
      hcount fun i hi => by
        rw [Bytes.slice_of_le (Nat.zero_le _) (by rw [hpiece i (List.mem_range.2 hi)]; exact hchunk)]; rfl]
    rfl
  · rw [c6Step1Labels, perExecutionLabels_eq _ (fun b => b.bytes.drop (160 * 32)) L (by omega) hdiv
      hcount fun i hi => by rw [Bytes.sliceFrom, if_pos (by rw [hpiece i (List.mem_range.2 hi)]; exact hchunk)]]
  · calc (List.range c6Count).flatMap (fun i => piece _ (160 * 32) i ++ piece _ (cs - 160 * 32) i)
        = ((List.range c6Count).map (piece L.bytes cs)).flatten := by
          rw [List.flatMap]
          congr 1
          refine List.map_congr_left fun i hi => ?_
          rw [piece_flatten_map _ _ hkeys (by simpa using hi),
            piece_flatten_map _ _ hrest (by simpa using hi), List.getElem_range, List.take_append_drop]
          rfl
      _ = L.bytes := by rw [flatten_map_piece, hlen, List.take_length]

/-- The labels of two executions, 5121 bytes each. -/
def twoExecutionLabels : Bytes := ⟨List.replicate 10242 7, []⟩

theorem length_twoExecutionLabels : twoExecutionLabels.bytes.length = 10242 :=
  List.length_replicate _ _

theorem c6Labels_rebuild_twoExecutions :
    1 ≤ 2 ∧ twoExecutionLabels.bytes.length % 2 = 0 ∧
      160 * 32 ≤ twoExecutionLabels.bytes.length / 2 ∧
    ∃ keys rest, c4Step1A [] twoExecutionLabels 2 = .ok ([] ++ keys) ∧
      c6Step1Labels twoExecutionLabels 2 = .ok rest ∧
      keys.length = 2 * (160 * 32) ∧
      rest.length = 2 * (twoExecutionLabels.bytes.length / 2 - 160 * 32) ∧
      (List.range 2).flatMap (fun i => piece keys (160 * 32) i ++
        piece rest (twoExecutionLabels.bytes.length / 2 - 160 * 32) i) = twoExecutionLabels.bytes :=
  ⟨by decide, by rw [length_twoExecutionLabels], by rw [length_twoExecutionLabels]; decide,
    c6Labels_rebuild 2 [] twoExecutionLabels (by decide) (by rw [length_twoExecutionLabels])
      (by rw [length_twoExecutionLabels]; decide)⟩

/-- `Session.parsePlaintextOutput(cNo, ptBytes)` for a circuit whose meta gives
`OutputSize` and `OutputsSizes`: one chunk of `ptBytes` per execution, read as bits, cut
to `OutputSize` and parsed. -/
def parsePlaintextOutput (c6Count cNo outputSize : Nat) (outputsSizes : List Nat)
    (ptBytes : Bytes) : Except String (List UInt8) := do
  let exeCount ← goIndex [0, 1, 1, 1, 1, 1, c6Count, 1] cNo
  if exeCount = 0 then throw integerDivideByZero
  let chunks ← splitIntoChunks ptBytes (ptBytes.bytes.length / exeCount)
  (List.range exeCount).foldlM (fun output i => do
    let bits := bytesToBits (← goIndex chunks i).bytes
    let outBits ← sliceInts bits [] 0 outputSize
    let outBytes ← parseOutputBits outputsSizes outputSize outBits (bits.drop outputSize)
    pure (output ++ outBytes)) []

/-- The x coordinate of P-256's base point. -/
def p256Gx : Nat := 0x6b17d1f2e12c4247f8bce6e563a440f277037d812deb33a0f4a13945d898c296

/-- The y coordinate of P-256's base point. -/
def p256Gy : Nat := 0x4fe342e2fe1a7f9b8ee7eb4a7c0f9e162bce33576b315ececbb6406837bf51f5

/-- An `Init` body with the base point as the client's key and `c6Count` 0. -/
def zeroCountBody : List UInt8 := to32Bytes p256Gx ++ to32Bytes p256Gy ++ [0, 0]

/-- The handlers from `Init` to `C4_step1`, in the order an honest client calls them. -/
def toC4Step1 : List Command :=
  [.init, .getBlob, .setBlob, .step1, .step2, .step3, .step4,
    .c1Step1, .c1Step2, .c1Step3, .c1Step4, .c1Step5, .c2Step1, .c2Step2, .c2Step3, .c2Step4,
    .c3Step1, .c3Step2, .c4Step1]

/-- `Init` takes a body whose `c6Count` is 0 (with an on-curve key); the sequence check
lets every message up to `C4_step1` through; and the circuit-6 label split of
`C4_step1` and `C6_step1`, and `parsePlaintextOutput` of circuit 6, divide by that 0
whatever labels and plaintext they get. -/
theorem init_accepts_zero_c6Count :
    isOnCurve p256Gx p256Gy = true ∧
    (∀ scalarMult d spare, ∃ keys, Session.init scalarMult [] d ⟨zeroCountBody, spare⟩ =
      .ok ([1], keys) ∧ keys.c6Count = 0) ∧
    runChecks [] (toC4Step1.map Command.seqNo) = .ok (toC4Step1.map Command.seqNo) ∧
    (∀ cl4 allC6Labels, c4Step1A cl4 allC6Labels 0 = .error integerDivideByZero) ∧
    (∀ allLabels, c6Step1Labels allLabels 0 = .error integerDivideByZero) ∧
    ∀ outputSize outputsSizes ptBytes,
      parsePlaintextOutput 0 6 outputSize outputsSizes ptBytes = .error integerDivideByZero :=
  ⟨by decide, fun scalarMult d spare =>
    ⟨_, Session.init_keys scalarMult d ⟨zeroCountBody, spare⟩ (by simp [zeroCountBody]), rfl⟩,
    rfl, fun _ _ => rfl, fun _ => rfl, fun _ _ _ => rfl⟩

/-- `getCircuitBlobOffset`'s loop from circuit `i`, `n` rounds before `i` reaches
`len(Cs)`, with `offset` and `ttLen` so far; `andGateCounts[i]` is
`Cs[i].Meta.AndGateCount`. -/
def blobOffsetLoop (andGateCounts : List Nat) (c6Count cNo : Nat) :
    Nat → Nat → Nat → Nat → Nat × Nat
  | 0, _, offset, ttLen => (offset, ttLen)
  | n + 1, i, offset, ttLen =>
    let offset := offset + ttLen
    let ttLen := andGateCounts.getD i 0 * 48
    let ttLen := if i = 6 then c6Count * ttLen else ttLen
    if i = cNo then (offset, ttLen) else blobOffsetLoop andGateCounts c6Count cNo n (i + 1) offset ttLen

/-- `Session.getCircuitBlobOffset(cNo)` for circuits with these AND-gate counts. -/
def getCircuitBlobOffset (andGateCounts : List Nat) (c6Count cNo : Nat) : Nat × Nat :=
  blobOffsetLoop andGateCounts c6Count cNo (andGateCounts.length - 1) 1 0 0

/-- The bytes circuit `i`'s truth tables take in the blob: 48 per AND gate, for each of
its executions. -/
def blobSize (andGateCounts : List Nat) (c6Count i : Nat) : Nat :=
  48 * andGateCounts.getD i 0 * if i = 6 then c6Count else 1

theorem sum_range'_succ (f : Nat → Nat) (s n : Nat) :
    ((List.range' s (n + 1)).map f).sum = ((List.range' s n).map f).sum + f (s + n) := by
  rw [Nat.add_comm n 1, ← List.range'_append s n 1 1]
  simp

/-- From circuit `i ≤ cNo` on, the loop adds the sizes of the circuits before `cNo` and
stops there with `cNo`'s size. -/
theorem blobOffsetLoop_eq (andGateCounts : List Nat) (c6Count cNo : Nat) (n i offset ttLen : Nat)
    (hi : i ≤ cNo) (hn : cNo < i + n) :
    blobOffsetLoop andGateCounts c6Count cNo n i offset ttLen =
      (offset + ttLen + ((List.range' i (cNo - i)).map (blobSize andGateCounts c6Count)).sum,
        blobSize andGateCounts c6Count cNo) := by
  induction n generalizing i offset ttLen with
  | zero => omega
  | succ n ih =>
    have hsize : (if i = 6 then c6Count * (andGateCounts.getD i 0 * 48)
        else andGateCounts.getD i 0 * 48) = blobSize andGateCounts c6Count i := by
      unfold blobSize; split <;> ring
    rw [blobOffsetLoop]
    simp only [hsize]
    split
    · subst i; simp
    · rw [ih (i + 1) _ _ (by omega) (by omega), show cNo - i = cNo - (i + 1) + 1 by omega,
        List.range'_succ]
      simp [Nat.add_assoc]

theorem getCircuitBlobOffset_eq {andGateCounts : List Nat} {c6Count cNo : Nat} (h1 : 1 ≤ cNo)
    (hN : cNo < andGateCounts.length) :
    getCircuitBlobOffset andGateCounts c6Count cNo =
      (((List.range' 1 (cNo - 1)).map (blobSize andGateCounts c6Count)).sum,
        blobSize andGateCounts c6Count cNo) := by
  rw [getCircuitBlobOffset, blobOffsetLoop_eq _ _ _ _ _ _ _ h1 (by omega)]
  simp

theorem getCircuitBlobOffset_succ {andGateCounts : List Nat} {c6Count i : Nat} (h1 : 1 ≤ i)
    (hN : i + 1 < andGateCounts.length) :
    (getCircuitBlobOffset andGateCounts c6Count (i + 1)).1 =
      (getCircuitBlobOffset andGateCounts c6Count i).1 + (getCircuitBlobOffset andGateCounts c6Count i).2 := by
  rw [getCircuitBlobOffset_eq (by omega) hN, getCircuitBlobOffset_eq h1 (by omega),
    show i + 1 - 1 = i - 1 + 1 by omega, sum_range'_succ, show 1 + (i - 1) = i by omega]

/-- `getCircuitBlobOffset` returns the sizes of the circuits before `cNo`, summed, and
`cNo`'s size; so the ranges it gives lie in circuit order without overlap, the first at
0, each next where the one before ends, the last ending at the total. -/
theorem getCircuitBlobOffset_tiles (andGateCounts : List Nat) (c6Count : Nat) :
    (∀ cNo, 1 ≤ cNo → cNo < andGateCounts.length →
      getCircuitBlobOffset andGateCounts c6Count cNo =
        (((List.range' 1 (cNo - 1)).map (blobSize andGateCounts c6Count)).sum,
          blobSize andGateCounts c6Count cNo)) ∧
    (∀ i j, 1 ≤ i → i < j → j < andGateCounts.length →
      (getCircuitBlobOffset andGateCounts c6Count i).1 +
          (getCircuitBlobOffset andGateCounts c6Count i).2 ≤
        (getCircuitBlobOffset andGateCounts c6Count j).1) ∧
    (2 ≤ andGateCounts.length →
      (getCircuitBlobOffset andGateCounts c6Count 1).1 = 0 ∧
      (∀ i, 1 ≤ i → i + 1 < andGateCounts.length →
        (getCircuitBlobOffset andGateCounts c6Count (i + 1)).1 =
          (getCircuitBlobOffset andGateCounts c6Count i).1 +
            (getCircuitBlobOffset andGateCounts c6Count i).2) ∧
      (getCircuitBlobOffset andGateCounts c6Count (andGateCounts.length - 1)).1 +
          (getCircuitBlobOffset andGateCounts c6Count (andGateCounts.length - 1)).2 =
        ((List.range' 1 (andGateCounts.length - 1)).map (blobSize andGateCounts c6Count)).sum) := by
  refine ⟨fun _ => getCircuitBlobOffset_eq, fun i j h1 hij hN => ?_, fun h2 =>
    ⟨by rw [getCircuitBlobOffset_eq le_rfl h2]; rfl, fun _ => getCircuitBlobOffset_succ, ?_⟩⟩
  · induction j, hij using Nat.le_induction with
    | base => exact (getCircuitBlobOffset_succ h1 hN).ge
    | succ j hij ih =>
      rw [getCircuitBlobOffset_succ (by omega) hN]
      exact Nat.le_add_right_of_le (ih (by omega))
  · obtain ⟨m, hm⟩ : ∃ m, andGateCounts.length - 1 = m + 1 := ⟨andGateCounts.length - 2, by omega⟩
    rw [hm, getCircuitBlobOffset_eq (by omega) (by omega), Nat.add_sub_cancel, sum_range'_succ,
      Nat.add_comm 1 m]

/-- Eight circuit slots, the first unused, and `C6Count` 5: circuit 3's tables follow
circuit 1's and circuit 2's. -/
theorem getCircuitBlobOffset_tiles_circuit3 :
    1 ≤ 3 ∧ 3 < [0, 1, 2, 3, 4, 5, 6, 7].length ∧
    getCircuitBlobOffset [0, 1, 2, 3, 4, 5, 6, 7] 5 3 =
      (((List.range' 1 (3 - 1)).map (blobSize [0, 1, 2, 3, 4, 5, 6, 7] 5)).sum,
        blobSize [0, 1, 2, 3, 4, 5, 6, 7] 5 3) :=
  ⟨by decide, by decide, (getCircuitBlobOffset_tiles _ 5).1 3 (by decide) (by decide)⟩

example : getCircuitBlobOffset [0, 1, 2, 3, 4, 5, 6, 7] 5 6 = (48 * 15, 48 * 6 * 5) := rfl

end TlsNotary
