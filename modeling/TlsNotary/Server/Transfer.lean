import TlsNotary.Session.Circuits

/-!
# Bulk transfers: the client's blob and the zkey download

`Session.SetBlob` streams the client's garbled-circuit blob into a new file through
`io.TeeReader`, which hands every chunk `Read` returns to `StreamCounter.Write` before
`io.Copy` writes it out. The counter keeps a `uint32` total and panics once it passes
300 MiB; `GetUploadProgress` answers with that total as four big-endian bytes. The
copy's chunks come from a 32 KiB buffer, far below the `2^32 − 300 MiB` that could make
the total wrap. `ZkeyHttpHandler.GetKeys` streams its JSON answer in the 8192-byte
chunks `splitBytesIntoChunks` cuts.
-/
namespace TlsNotary

/-- `StreamCounter.Write(p)` for `len(p) = n`: the total with `uint32(n)` added, wrapping
at `2^32`, or the panic once the total passes 300 MiB. -/
def StreamCounter.write (total : UInt32) (n : Nat) : Except String UInt32 :=
  let total := total + UInt32.ofNat n
  if total > 1024 * 1024 * 300 then .error "can't process blob more than 300MB" else .ok total

/-- `io.Copy(file, io.TeeReader(respBody, s.streamCounter))` over the chunks `Read`
returns: each chunk is counted, then appended to the file. -/
def copyChunks : UInt32 × List UInt8 → List (List UInt8) → Except String (UInt32 × List UInt8)
  | acc, [] => .ok acc
  | (total, file), chunk :: chunks => do
    let total ← StreamCounter.write total chunk.length
    copyChunks (total, file ++ chunk) chunks

theorem toNat_ofNat_uint32 {n : Nat} (h : n < 2 ^ 32) : (UInt32.ofNat n).toNat = n :=
  UInt32.toNat_ofNat_of_lt h

/-- Below the wrap, a write adds the chunk's length and panics exactly past 300 MiB. -/
theorem StreamCounter.write_eq {total : UInt32} {n : Nat} (h : total.toNat + n < 2 ^ 32) :
    StreamCounter.write total n =
      if total.toNat + n ≤ 1024 * 1024 * 300 then .ok (UInt32.ofNat (total.toNat + n))
      else .error "can't process blob more than 300MB" := by
  have hsum : (total + UInt32.ofNat n).toNat = total.toNat + n := by
    show (total.toNat + n % 2 ^ 32) % 2 ^ 32 = _
    rw [Nat.mod_eq_of_lt (by omega : n < 2 ^ 32), Nat.mod_eq_of_lt h]
  have hlt : (1024 * 1024 * 300 : UInt32) < total + UInt32.ofNat n ↔
      1024 * 1024 * 300 < total.toNat + n := by
    rw [UInt32.lt_def, BitVec.lt_def]
    exact hsum ▸ Iff.rfl
  unfold StreamCounter.write
  by_cases hle : total.toNat + n ≤ 1024 * 1024 * 300
  · rw [if_neg (by rw [gt_iff_lt, hlt]; omega), if_pos hle]
    exact congrArg Except.ok (UInt32.toNat.inj (by rw [hsum, toNat_ofNat_uint32 h]))
  · rw [if_pos (by rw [gt_iff_lt, hlt]; omega), if_neg hle]

/-- From a total within the limit, chunks that cannot wrap it are taken exactly when
they keep the total within the limit. -/
theorem copyChunks_eq {chunks : List (List UInt8)}
    (hsmall : ∀ c ∈ chunks, c.length < 2 ^ 32 - 1024 * 1024 * 300) {total : UInt32}
    {file : List UInt8} (ht : total.toNat ≤ 1024 * 1024 * 300) :
    copyChunks (total, file) chunks =
      if total.toNat + (chunks.map List.length).sum ≤ 1024 * 1024 * 300 then
        .ok (UInt32.ofNat (total.toNat + (chunks.map List.length).sum), file ++ chunks.flatten)
      else .error "can't process blob more than 300MB" := by
  induction chunks generalizing total file with
  | nil =>
    rw [if_pos (by simpa using ht)]
    simp [copyChunks, UInt32.toNat.inj (toNat_ofNat_uint32 (by omega : total.toNat < 2 ^ 32))]
  | cons c cs ih =>
    have hc := hsmall c (List.mem_cons_self c cs)
    simp only [copyChunks, StreamCounter.write_eq (by omega : total.toNat + c.length < 2 ^ 32),
      List.map_cons, List.sum_cons, List.flatten_cons]
    by_cases hle : total.toNat + c.length ≤ 1024 * 1024 * 300
    · have hnext : (UInt32.ofNat (total.toNat + c.length)).toNat = total.toNat + c.length :=
        toNat_ofNat_uint32 (by omega)
      simp only [if_pos hle, bind, Except.bind]
      rw [ih (fun d hd => hsmall d (List.mem_cons_of_mem c hd)) (by omega), hnext,
        Nat.add_assoc, List.append_assoc]
    · rw [if_neg hle, if_neg (by omega)]
      rfl

/-- `SetBlob`'s copy never wraps its counter on chunks shorter than `2^32 − 300 MiB`: it
takes exactly the uploads of at most 300 MiB and panics on the others; a taken upload
is counted byte for byte, the file holds its chunks in order, and `GetUploadProgress`'s
four bytes read back as the count. Every prefix of an upload is an upload, so the
progress answer counts the bytes copied so far at every moment. -/
theorem copyChunks_counts (chunks : List (List UInt8))
    (hsmall : ∀ c ∈ chunks, c.length < 2 ^ 32 - 1024 * 1024 * 300) :
    copyChunks (0, []) chunks =
      (if (chunks.map List.length).sum ≤ 1024 * 1024 * 300 then
        .ok (UInt32.ofNat (chunks.map List.length).sum, chunks.flatten)
      else .error "can't process blob more than 300MB") ∧
    ∀ total file, copyChunks (0, []) chunks = .ok (total, file) →
      setBytes (putUint32 total) = (chunks.map List.length).sum := by
  have h := @copyChunks_eq chunks hsmall 0 [] (by decide)
  simp only [UInt32.toNat_zero, Nat.zero_add, List.nil_append] at h
  refine ⟨h, fun total file hc => ?_⟩
  rw [h] at hc
  split_ifs at hc with hle
  cases hc
  rw [setBytes_putUint32, toNat_ofNat_uint32 (by omega)]

/-- Two 32 KiB chunks, as `io.Copy`'s buffer returns them. -/
def twoBuffers : List (List UInt8) := [List.replicate 32768 1, List.replicate 32768 2]

theorem copyChunks_counts_twoBuffers :
    copyChunks (0, []) twoBuffers =
      (if (twoBuffers.map List.length).sum ≤ 1024 * 1024 * 300 then
        .ok (UInt32.ofNat (twoBuffers.map List.length).sum, twoBuffers.flatten)
      else .error "can't process blob more than 300MB") :=
  (copyChunks_counts twoBuffers fun c hc => by
    simp only [twoBuffers, List.mem_cons, List.mem_singleton, List.not_mem_nil, or_false] at hc
    rcases hc with rfl | rfl <;> rw [List.length_replicate] <;> decide).1

/-- `splitBytesIntoChunks(data, chunkSize)`: `(len + chunkSize − 1) / chunkSize` chunks,
chunk `i` being `data[i·chunkSize : min((i+1)·chunkSize, len)]`; Go panics on a zero
chunk size. -/
def splitBytesIntoChunks (data : List UInt8) (chunkSize : Nat) : Except String (List (List UInt8)) :=
  if chunkSize = 0 then .error integerDivideByZero
  else .ok ((List.range ((data.length + chunkSize - 1) / chunkSize)).map fun i =>
    (data.drop (i * chunkSize)).take (min ((i + 1) * chunkSize) data.length - i * chunkSize))

theorem splitChunk_eq_piece (data : List UInt8) (chunkSize i : Nat) :
    (data.drop (i * chunkSize)).take (min ((i + 1) * chunkSize) data.length - i * chunkSize) =
      piece data chunkSize i := by
  rw [piece, List.take_eq_take, List.length_drop, Nat.succ_mul]
  omega

/-- For a non-zero chunk size, the chunks `GetKeys` writes one after another rebuild its
answer: there are `⌈len / chunkSize⌉` of them, none empty and none longer than the
chunk size. -/
theorem splitBytesIntoChunks_rebuild (data : List UInt8) {chunkSize : Nat} (hc : 0 < chunkSize) :
    ∃ chunks, splitBytesIntoChunks data chunkSize = .ok chunks ∧ chunks.flatten = data ∧
      chunks.length = (data.length + chunkSize - 1) / chunkSize ∧
      ∀ c ∈ chunks, 0 < c.length ∧ c.length ≤ chunkSize := by
  have hq : data.length ≤ (data.length + chunkSize - 1) / chunkSize * chunkSize := by
    have := Nat.div_add_mod (data.length + chunkSize - 1) chunkSize
    have := Nat.mod_lt (data.length + chunkSize - 1) hc
    rw [Nat.mul_comm]
    omega
  refine ⟨_, if_neg (by omega), ?_, by simp only [List.length_map, List.length_range], ?_⟩
  · simp only [splitChunk_eq_piece, flatten_map_piece]
    exact List.take_of_length_le hq
  · simp only [List.mem_map, List.mem_range, forall_exists_index, and_imp]
    rintro _ i hi rfl
    have hlast : (i + 1) * chunkSize ≤ data.length + chunkSize - 1 :=
      (Nat.mul_le_mul_right _ hi).trans (Nat.div_mul_le_self _ _)
    rw [splitChunk_eq_piece, piece, List.length_take, List.length_drop, Nat.succ_mul] at *
    omega

end TlsNotary
