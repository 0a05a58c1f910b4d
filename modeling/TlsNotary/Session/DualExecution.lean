import TlsNotary.Session.Ghash
import TlsNotary.Session.Signing
import TlsNotary.Session.Dataflow
import Mathlib.Data.List.DropRight
import Mathlib.Data.List.GetD

/-!
# Dual execution: the client's commitments and decommitments

Every circuit runs twice, garbled once by each party, and each party evaluates the
other's garbling. In step 2 of a circuit the client sends its input labels and a
32-byte commitment; `common_step2` stores the commitment in `hisCommitment[c]`,
evaluates the client's garbling and answers with the notary's encoded output and
decoding table. A later handler carries the client's decommitment, its encoded output,
its decoding table and a 32-byte salt, which `processDecommit` checks against the
commitment; it then decodes each party's encoded output with the other's table and
asserts that the two plaintexts agree. Circuit 6 differs: `C6_pre2` stores a dummy
commitment of 32 zero bytes and keeps its answer back as `c6CheckValue`, and
`C6_step2` stores the client's commitment before it sends that answer.

The garbler's decoding tables, the evaluator, the circuits' metadata and SHA-256 are
not part of the source: they are the parameters `Setup`, `evaluate` and `sha256`. A
message is the body `decryptFromClient` returned; before `Init` sets the client's key
that call panics. Handlers outside dual execution are modelled by their sequence check
alone: a panic in their bodies only ends a run earlier.
-/
namespace TlsNotary

/-- `utils.Assert`. -/
def assert (condition : Bool) : Except String Unit :=
  if condition then .ok () else .error "assert failed"

@[simp] theorem assert_eq_ok {b : Bool} : assert b = .ok () ↔ b = true := by
  cases b <;> simp [assert]

theorem assert_bind_eq_ok {β : Type} {b : Bool} {f : Unit → Except String β} {r : β}
    (h : assert b >>= f = .ok r) : b = true ∧ f () = .ok r := by
  cases b
  · cases h
  · exact ⟨rfl, h⟩

/-- `b[:hi]`: the first `hi` bytes, with the capacity of `b`, or Go's panic for a
negative `hi` or one past the capacity. -/
def Bytes.sliceTo (b : Bytes) (hi : Int) : Except String Bytes :=
  if hi < 0 then .error ("runtime error: slice bounds out of range [:" ++ toString hi ++ "]")
  else if hi.toNat ≤ b.bytes.length + b.spare.length then
    .ok ⟨(b.bytes ++ b.spare).take hi.toNat, (b.bytes ++ b.spare).drop hi.toNat⟩
  else .error ("runtime error: slice bounds out of range [:" ++ toString hi ++ "] with capacity " ++
    toString (b.bytes.length + b.spare.length))

/-- `append(b, xs...)`: in place when the capacity holds `xs`, else into a new array,
whose spare capacity Go's growth policy picks and which is taken as none. -/
def Bytes.append (b : Bytes) (xs : List UInt8) : Bytes :=
  if xs.length ≤ b.spare.length then ⟨b.bytes ++ xs, b.spare.drop xs.length⟩
  else ⟨b.bytes ++ xs, []⟩

@[simp] theorem Bytes.bytes_append (b : Bytes) (xs : List UInt8) :
    (b.append xs).bytes = b.bytes ++ xs := by
  unfold Bytes.append; split_ifs <;> rfl

/-- Slicing a slice whose bytes are `x ++ y ++ z` at the widths of `x` and `y` gives `y`. -/
theorem Bytes.slice_append {b : Bytes} {x y z : List UInt8} (h : b.bytes = x ++ y ++ z) :
    b.slice x.length (x.length + y.length) = .ok y := by
  rw [Bytes.slice_of_le (Nat.le_add_right _ _) (by simp [h]), h, List.append_assoc,
    List.drop_left, Nat.add_sub_cancel_left, List.take_left]

/-- The circuit whose commitment a handler stores: step 2 of every circuit but 6, and
`C6_step2`. -/
def Command.commits : Command → Option Nat
  | .c1Step2 => some 1 | .c2Step2 => some 2 | .c3Step2 => some 3 | .c4Step2 => some 4
  | .c5Step2 => some 5 | .c6Step2 => some 6 | .c7Step2 => some 7 | _ => none

/-- The circuit whose decommitment a handler checks. -/
def Command.decommits : Command → Option Nat
  | .c1Step3 => some 1 | .c2Step3 => some 2 | .c4Step1 => some 3 | .c4Step3 => some 4
  | .c5Step3 => some 5 | .c7Step1 => some 6 | .ghashStep1 => some 7 | _ => none

theorem Command.decrypts_of_commits :
    ∀ cmd : Command, cmd.commits.isSome → Op.read .clientKey ∈ cmd.ops := by decide

theorem Command.commits_inj :
    ∀ cmd cmd' : Command, cmd.commits.isSome → cmd.commits = cmd'.commits → cmd = cmd' := by decide

theorem Command.seqNo_ne_progress_of_commits :
    ∀ cmd : Command, cmd.commits.isSome → cmd.seqNo ≠ 100 := by decide

/-- Each handler that checks a decommitment comes right after the one that stores the
commitment, and the gate needs its predecessor. -/
theorem Command.committer_of_decommits : ∀ cmd : Command, cmd.decommits.isSome →
    (∃ cmd' : Command, cmd'.commits = cmd.decommits ∧ cmd'.seqNo = cmd.seqNo - 1) ∧
      5 ≤ cmd.seqNo ∧ cmd.seqNo ≠ 34 ∧ cmd.seqNo ≠ 100 := by decide

namespace DualExecution

/-- What `Init` fixes for a session's circuits: how often circuit 6 runs, the decoding
tables `dt[c]` of the notary's garbling (one per execution), from each circuit's
metadata the client's input size, the output size and the sizes of the outputs, the
AND-gate counts that place each circuit in the client's blob, and that blob, as
`SetBlob` stored it. -/
structure Setup where
  c6Count : Nat
  dt : Nat → List (List UInt8)
  clientInputSize : Nat → Nat
  outputSize : Nat → Nat
  outputsSizes : Nat → List Nat
  andGateCounts : List Nat
  blob : List UInt8

/-- The session fields dual execution assigns: the client's commitment and the notary's
encoded output for each circuit, and circuit 6's answer kept back. -/
structure State where
  hisCommitment : Nat → List UInt8
  encodedOutput : Nat → List UInt8
  c6CheckValue : List UInt8

/-- The fields before `Init`: nil slices. -/
def State.empty : State := ⟨fun _ => [], fun _ => [], []⟩

/-- A client message as its handler sees it: the body `decryptFromClient` returned and,
for a step 2, the `lastOtResponse` that `parse_step2`'s wait ends on, the answer to
the OT the circuit's `c_step1` requested. -/
structure Message where
  cmd : Command
  body : Bytes
  lastOtResponse : List UInt8

section Handlers

variable (sha256 : List UInt8 → List UInt8)
  (evaluate : Nat → List UInt8 → List UInt8 → List UInt8 → List UInt8) (setup : Setup)

/-- `Session.RetrieveBlobsForNotary(cNo)`: `ttSize` bytes read at `off` from the client's
blob. `ReadAt` stops at the end of the file with `io.EOF`, which the function lets
pass, so the bytes past the end stay the zeros of the buffer. -/
def retrieveBlobsForNotary (cNo : Nat) : List UInt8 :=
  let o := getCircuitBlobOffset setup.andGateCounts setup.c6Count cNo
  let read := (setup.blob.drop o.1).take o.2
  read ++ List.replicate (o.2 - read.length) 0

/-- `Session.parse_step2(cNo, body)`: the notary's labels, the client's labels for every
execution of the circuit, and the client's commitment, which must end the body. The
loop that waits for `c_step1`'s OT to finish is left out; `lastOtResponse` is what it
then reads. -/
def parseStep2 (lastOtResponse : List UInt8) (cNo : Nat) (body : Bytes) :
    Except String (List UInt8 × List UInt8 × List UInt8) := do
  let exeCount ← goIndex [0, 1, 1, 1, 1, 1, setup.c6Count, 1] cNo
  let allClientLabelsSize := setup.clientInputSize cNo * 16 * exeCount
  let clientLabels ← body.slice 0 allClientLabelsSize
  let clientCommitment ← body.slice allClientLabelsSize (allClientLabelsSize + 32)
  assert (allClientLabelsSize + 32 == body.bytes.length)
  pure (lastOtResponse, clientLabels, clientCommitment)

/-- `Session.common_step2(cNo, body)`: the new fields, and the answer
`Concat(encodedOutput[cNo], Concat(dt[cNo]...))`. -/
def State.commonStep2 (st : State) (lastOtResponse : List UInt8) (cNo : Nat) (body : Bytes) :
    Except String (State × List UInt8) := do
  let ttBlob := retrieveBlobsForNotary setup cNo
  let (notaryLabels, clientLabels, clientCommitment) ← parseStep2 setup lastOtResponse cNo body
  let enc := evaluate cNo notaryLabels clientLabels ttBlob
  pure ({ st with hisCommitment := Function.update st.hisCommitment cNo clientCommitment
                  encodedOutput := Function.update st.encodedOutput cNo enc },
    concat [enc, concat (setup.dt cNo)])

/-- `Session.processDecommit(cNo, decommit)`: the notary's decoded output of circuit
`cNo`. -/
def State.processDecommit (st : State) (cNo : Nat) (decommit : Bytes) :
    Except String (List UInt8) := do
  let enc := st.encodedOutput cNo
  let hisEncodedOutput ← decommit.slice 0 enc.length
  let myDecodingTable := concat (setup.dt cNo)
  let hisDecodingTable ← decommit.slice enc.length (enc.length + myDecodingTable.length)
  let o := enc.length + myDecodingTable.length
  let hisSalt ← decommit.slice o (o + 32)
  assert (o + 32 == decommit.bytes.length)
  assert (st.hisCommitment cNo == sha256 (concat [hisEncodedOutput, hisDecodingTable, hisSalt]))
  let hisPlaintext ← xorBytes myDecodingTable hisEncodedOutput
  let myPlaintext ← xorBytes hisDecodingTable enc
  assert (hisPlaintext == myPlaintext)
  parsePlaintextOutput setup.c6Count cNo (setup.outputSize cNo) (setup.outputsSizes cNo)
    ⟨myPlaintext, []⟩

/-- `len(s.encodedOutput[c]) + len(u.Concat(s.dt[c]...)) + 32`, the size of a
decommitment that does not end its message. -/
def State.decommitSize (st : State) (c : Nat) : Nat :=
  (st.encodedOutput c).length + (concat (setup.dt c)).length + 32

/-- The dual-execution part of each handler: the new fields, and the answer of a step 2
or of `C6_step2`, or the output a decommitment check decodes. `C6_pre2` runs
`common_step2` on the body and 32 zero bytes and keeps its answer back. A decommitment
is the body without its last 32 bytes (`C1_step3`), 64 (`C2_step3`) or 16 (`C4_step3`,
`C5_step3`), or its first `decommitSize` bytes (`C4_step1`, `C7_step1`, `Ghash_step1`,
whose two branches on the ghash state both assert that two bytes follow). `Init`
makes the fields anew; no other handler touches them. -/
def State.handle (st : State) (m : Message) : Except String (State × List UInt8) :=
  match m.cmd with
  | .init => pure ({ st with hisCommitment := fun _ => [], encodedOutput := fun _ => [] }, [])
  | .c1Step2 => st.commonStep2 evaluate setup m.lastOtResponse 1 m.body
  | .c2Step2 => st.commonStep2 evaluate setup m.lastOtResponse 2 m.body
  | .c3Step2 => st.commonStep2 evaluate setup m.lastOtResponse 3 m.body
  | .c4Step2 => st.commonStep2 evaluate setup m.lastOtResponse 4 m.body
  | .c5Step2 => st.commonStep2 evaluate setup m.lastOtResponse 5 m.body
  | .c7Step2 => st.commonStep2 evaluate setup m.lastOtResponse 7 m.body
  | .c6Pre2 => do
    let (st', v) ← st.commonStep2 evaluate setup m.lastOtResponse 6
      (m.body.append (List.replicate 32 0))
    pure ({ st' with c6CheckValue := v }, [])
  | .c6Step2 => do
    assert (m.body.bytes.length == 32)
    pure ({ st with hisCommitment := Function.update st.hisCommitment 6 m.body.bytes },
      st.c6CheckValue)
  | .c1Step3 => do
    let decommit ← m.body.sliceTo (m.body.bytes.length - 32)
    pure (st, ← st.processDecommit sha256 setup 1 decommit)
  | .c2Step3 => do
    let decommit ← m.body.sliceTo (m.body.bytes.length - 64)
    pure (st, ← st.processDecommit sha256 setup 2 decommit)
  | .c4Step1 => do
    let decommit ← m.body.sliceTo (st.decommitSize setup 3)
    pure (st, ← st.processDecommit sha256 setup 3 decommit)
  | .c4Step3 => do
    let decommit ← m.body.sliceTo (m.body.bytes.length - 16)
    pure (st, ← st.processDecommit sha256 setup 4 decommit)
  | .c5Step3 => do
    let decommit ← m.body.sliceTo (m.body.bytes.length - 16)
    pure (st, ← st.processDecommit sha256 setup 5 decommit)
  | .c7Step1 => do
    let decommit ← m.body.sliceTo (st.decommitSize setup 6)
    pure (st, ← st.processDecommit sha256 setup 6 decommit)
  | .ghashStep1 => do
    let decommit ← m.body.sliceTo (st.decommitSize setup 7)
    let out ← st.processDecommit sha256 setup 7 decommit
    let body ← m.body.sliceFrom (st.decommitSize setup 7)
    let _ ← Bytes.slice ⟨body, m.body.spare⟩ 0 2
    assert (body.length == 2)
    pure (st, out)
  | _ => pure (st, [])

end Handlers

section Steps

variable {sha256 : List UInt8 → List UInt8}
  {evaluate : Nat → List UInt8 → List UInt8 → List UInt8 → List UInt8} {setup : Setup}

variable (sha256 setup) in
/-- The client's encoded output `hisEnc`, decoding table `hisDt` and salt open circuit
`c`'s commitment in `st`: they have the widths of the notary's own, they hash to the
stored commitment, and each party's encoded output decodes with the other's table to
one plaintext. -/
structure State.Opens (st : State) (c : Nat) (hisEnc hisDt salt : List UInt8) : Prop where
  length_enc : hisEnc.length = (st.encodedOutput c).length
  length_dt : hisDt.length = (concat (setup.dt c)).length
  length_salt : salt.length = 32
  commitment : st.hisCommitment c = sha256 (hisEnc ++ hisDt ++ salt)
  widths : (st.encodedOutput c).length = (concat (setup.dt c)).length
  agree : List.zipWith (fun x y => x ^^^ y) (concat (setup.dt c)) hisEnc =
    List.zipWith (fun x y => x ^^^ y) hisDt (st.encodedOutput c)

theorem xorBytes_eq_ok {a b : List UInt8} (h : a.length = b.length) :
    xorBytes a b = .ok (List.zipWith (fun x y => x ^^^ y) a b) :=
  if_neg (not_not.2 h)

theorem eq_take_append_three {l : List UInt8} {a b : Nat} (h : l.length = a + b + 32) :
    l = l.take a ++ (l.drop a).take b ++ (l.drop (a + b)).take 32 := by
  rw [List.take_of_length_le (show (l.drop (a + b)).length ≤ 32 by simp; omega), List.append_assoc,
    ← List.drop_drop, List.take_append_drop, List.take_append_drop]

/-- `processDecommit` accepts exactly a decommitment that is the client's encoded
output, decoding table and salt, one after another, opening the commitment; its output
is the plaintext parsed. Bytes past the decommitment's length are never read into an
accepted one, whatever its capacity. -/
theorem State.processDecommit_eq_ok_iff {st : State} {c : Nat} {decommit : Bytes}
    {out : List UInt8} :
    st.processDecommit sha256 setup c decommit = .ok out ↔
      ∃ hisEnc hisDt salt, decommit.bytes = hisEnc ++ hisDt ++ salt ∧
        st.Opens sha256 setup c hisEnc hisDt salt ∧
        parsePlaintextOutput setup.c6Count c (setup.outputSize c) (setup.outputsSizes c)
          ⟨List.zipWith (fun x y => x ^^^ y) hisDt (st.encodedOutput c), []⟩ = .ok out := by
  constructor
  · intro h
    simp only [State.processDecommit] at h
    obtain ⟨hisEnc, h1, h⟩ := except_bind_eq_ok h
    obtain ⟨hisDt, h2, h⟩ := except_bind_eq_ok h
    obtain ⟨salt, h3, h⟩ := except_bind_eq_ok h
    obtain ⟨hlen, h⟩ := assert_bind_eq_ok h
    obtain ⟨hcom, h⟩ := assert_bind_eq_ok h
    obtain ⟨p₁, hx₁, h⟩ := except_bind_eq_ok h
    obtain ⟨p₂, hx₂, h⟩ := except_bind_eq_ok h
    obtain ⟨hagree, hp⟩ := assert_bind_eq_ok h
    rw [beq_iff_eq] at hlen hcom hagree
    rw [Bytes.slice_of_le (Nat.zero_le _) (by omega), Except.ok.injEq] at h1
    rw [Bytes.slice_of_le (Nat.le_add_right _ _) (by omega), Except.ok.injEq] at h2
    rw [Bytes.slice_of_le (Nat.le_add_right _ _) (by omega), Except.ok.injEq] at h3
    subst h1 h2 h3
    unfold xorBytes at hx₁ hx₂
    split_ifs at hx₁ hx₂ with hw₁ hw₂
    cases hx₁; cases hx₂
    simp only [List.drop_zero, Nat.sub_zero, Nat.add_sub_cancel_left, List.length_take,
      List.length_drop] at hcom hw₁ hw₂ hagree hp ⊢
    refine ⟨_, _, _, eq_take_append_three hlen.symm, ⟨by simp; omega, by simp; omega, by simp; omega,
      by simpa [concat] using hcom, by omega, hagree⟩, hp⟩
  · rintro ⟨hisEnc, hisDt, salt, hd, ho, hp⟩
    have h1 : decommit.slice 0 (st.encodedOutput c).length = .ok hisEnc := by
      simpa [ho.length_enc] using Bytes.slice_append (x := []) (hd.trans (List.append_assoc _ _ _))
    have h2 := Bytes.slice_append hd
    have h3 := Bytes.slice_append (x := hisEnc ++ hisDt) (z := []) (by simpa using hd)
    rw [ho.length_enc, ho.length_dt] at h2
    rw [List.length_append, ho.length_enc, ho.length_dt, ho.length_salt] at h3
    have hlen : (st.encodedOutput c).length + (concat (setup.dt c)).length + 32 =
        decommit.bytes.length := by
      simp only [hd, List.length_append, ho.length_enc, ho.length_dt, ho.length_salt]
    have hc : concat [hisEnc, hisDt, salt] = hisEnc ++ hisDt ++ salt := by simp [concat]
    simp only [State.processDecommit, h1, h2, h3, bind, Except.bind]
    simp only [hlen, hc, ← ho.commitment, assert, beq_self_eq_true, if_true,
      xorBytes_eq_ok (ho.length_enc.trans ho.widths).symm,
      xorBytes_eq_ok (ho.length_dt.trans ho.widths.symm), ho.agree, hp]

theorem take_drop_flatten {α : Type} (l : List (List α)) {k : Nat} (hk : k < l.length) :
    (l.flatten.drop ((l.take k).map List.length).sum).take (l.getD k []).length = l.getD k [] := by
  induction l generalizing k with
  | nil => cases hk
  | cons x l ih =>
    cases k with
    | zero => simp
    | succ k =>
      simp only [List.flatten_cons, List.take_succ_cons, List.map_cons, List.sum_cons,
        List.drop_append, List.getD_cons_succ]
      exact ih (by simpa using hk)

/-- A read of `size` bytes at `off` into a zeroed buffer holds the file's bytes, and
zeros past its end. -/
theorem getD_readAt {blob : List UInt8} {off size i : Nat} (hi : i < size) :
    ((blob.drop off).take size ++ List.replicate (size - ((blob.drop off).take size).length) 0).getD i 0 =
      blob.getD (off + i) 0 := by
  by_cases h : i < ((blob.drop off).take size).length
  · rw [List.getD_append _ _ _ _ h]
    simp only [List.getD_eq_getElem?_getD, List.getElem?_take, hi, if_true, List.getElem?_drop]
  · rw [List.length_take, List.length_drop] at h
    rw [List.getD_append_right _ _ _ _ (by simp only [List.length_take, List.length_drop]; omega),
      List.getD_eq_getElem?_getD, List.getElem?_getD_replicate_default_eq,
      List.getD_eq_default _ _ (by omega)]

/-- `RetrieveBlobsForNotary` reads exactly circuit `c`'s size from every blob: the
file's bytes from `c`'s offset on, zeros past its end; and from a blob made of the
circuits' truth tables in circuit order, each of its circuit's size, it reads circuit
`c`'s own tables back. -/
theorem retrieveBlobsForNotary_layout {c : Nat} (h1 : 1 ≤ c) (hc : c < setup.andGateCounts.length) :
    (retrieveBlobsForNotary setup c).length = blobSize setup.andGateCounts setup.c6Count c ∧
    (∀ i < blobSize setup.andGateCounts setup.c6Count c,
      (retrieveBlobsForNotary setup c).getD i 0 = setup.blob.getD
        (((List.range' 1 (c - 1)).map (blobSize setup.andGateCounts setup.c6Count)).sum + i) 0) ∧
    ∀ tables : List (List UInt8), tables.length = setup.andGateCounts.length - 1 →
      (∀ i, i < tables.length →
        (tables.getD i []).length = blobSize setup.andGateCounts setup.c6Count (i + 1)) →
      setup.blob = tables.flatten → retrieveBlobsForNotary setup c = tables.getD (c - 1) [] := by
  have ho := @getCircuitBlobOffset_eq setup.andGateCounts setup.c6Count c h1 hc
  refine ⟨?_, fun i hi => ?_, fun tables hn hsize hblob => ?_⟩
  · simp only [retrieveBlobsForNotary, ho, List.length_append, List.length_replicate]
    have := List.length_take_le (blobSize setup.andGateCounts setup.c6Count c)
      (setup.blob.drop (((List.range' 1 (c - 1)).map (blobSize setup.andGateCounts setup.c6Count)).sum))
    omega
  · simp only [retrieveBlobsForNotary, ho]
    exact getD_readAt hi
  have hsum : ((tables.take (c - 1)).map List.length).sum =
      ((List.range' 1 (c - 1)).map (blobSize setup.andGateCounts setup.c6Count)).sum := by
    congr 1
    refine List.ext_getElem (by simp only [List.length_map, List.length_take, List.length_range']; omega)
      fun i h₁ h₂ => ?_
    simp only [List.getElem_map, List.getElem_take, List.getElem_range']
    have hi : i < tables.length := by simp only [List.length_map, List.length_take] at h₁; omega
    rw [← List.getD_eq_getElem tables [] hi, hsize i hi, Nat.one_mul, Nat.add_comm]
  have hlast := hsize (c - 1) (by omega)
  rw [Nat.sub_add_cancel h1] at hlast
  simp only [retrieveBlobsForNotary, ho, hblob, ← hsum, ← hlast, take_drop_flatten tables (by omega : c - 1 < tables.length),
    Nat.sub_self, List.replicate_zero, List.append_nil]

/-- Two circuits of one AND gate each, whose tables the client uploaded in order. -/
def twoCircuitSetup : Setup :=
  ⟨1, fun _ => [], fun _ => 0, fun _ => 0, fun _ => [], [0, 1, 1],
    List.replicate 48 1 ++ List.replicate 48 2⟩

theorem retrieveBlobsForNotary_layout_circuit2 :
    retrieveBlobsForNotary twoCircuitSetup 2 = List.replicate 48 2 :=
  (retrieveBlobsForNotary_layout (by decide) (by decide)).2.2 [List.replicate 48 1, List.replicate 48 2]
    rfl (by decide) rfl

/-- `parse_step2` accepts exactly a body made of the client's labels for every execution
of the circuit and then a 32-byte commitment. -/
theorem parseStep2_eq_ok_iff {ot : List UInt8} {c : Nat} {body : Bytes}
    {r : List UInt8 × List UInt8 × List UInt8} :
    parseStep2 setup ot c body = .ok r ↔
      ∃ exeCount labels commitment, goIndex [0, 1, 1, 1, 1, 1, setup.c6Count, 1] c = .ok exeCount ∧
        body.bytes = labels ++ commitment ∧ labels.length = setup.clientInputSize c * 16 * exeCount ∧
        commitment.length = 32 ∧ r = (ot, labels, commitment) := by
  constructor
  · intro h
    simp only [parseStep2] at h
    obtain ⟨exeCount, he, h⟩ := except_bind_eq_ok h
    obtain ⟨labels, h1, h⟩ := except_bind_eq_ok h
    obtain ⟨commitment, h2, h⟩ := except_bind_eq_ok h
    obtain ⟨hlen, h⟩ := assert_bind_eq_ok h
    rw [beq_iff_eq] at hlen
    rw [Bytes.slice_of_le (Nat.zero_le _) (by omega), Except.ok.injEq] at h1
    rw [Bytes.slice_of_le (Nat.le_add_right _ _) (by omega), Except.ok.injEq] at h2
    subst h1 h2
    refine ⟨exeCount, _, _, he, ?_, by simp; omega, by simp; omega, (Except.ok.inj h).symm⟩
    rw [List.drop_zero, Nat.sub_zero, Nat.add_sub_cancel_left, List.take_of_length_le
      (show (body.bytes.drop _).length ≤ 32 by simp; omega), List.take_append_drop]
  · rintro ⟨exeCount, labels, commitment, he, hb, hl, hc, rfl⟩
    have h1 := Bytes.slice_append (x := []) (z := commitment) (by simpa using hb)
    have h2 := Bytes.slice_append (z := []) (by simpa using hb)
    rw [List.length_nil, Nat.zero_add, hl] at h1
    rw [hl, hc] at h2
    simp only [parseStep2, he, h1, h2, bind, Except.bind, hb, List.length_append, hl, hc, assert,
      beq_self_eq_true, if_true, pure, Except.pure]

/-- Step 2 of circuit `c` accepts exactly a body of the client's labels and a 32-byte
commitment; it stores the commitment and the encoded output of the client's garbling
evaluated on both parties' labels and the circuit's part of the blob, and answers with
that encoded output followed by the notary's decoding tables. -/
theorem State.commonStep2_eq_ok_iff {st st' : State} {ot : List UInt8} {c : Nat} {body : Bytes}
    {reply : List UInt8} :
    st.commonStep2 evaluate setup ot c body = .ok (st', reply) ↔
      ∃ exeCount labels commitment, goIndex [0, 1, 1, 1, 1, 1, setup.c6Count, 1] c = .ok exeCount ∧
        body.bytes = labels ++ commitment ∧ labels.length = setup.clientInputSize c * 16 * exeCount ∧
        commitment.length = 32 ∧
        st' = { st with
          hisCommitment := Function.update st.hisCommitment c commitment
          encodedOutput := Function.update st.encodedOutput c
            (evaluate c ot labels (retrieveBlobsForNotary setup c)) } ∧
        reply = evaluate c ot labels (retrieveBlobsForNotary setup c) ++ concat (setup.dt c) := by
  constructor
  · intro h
    simp only [State.commonStep2] at h
    obtain ⟨r, hp, h⟩ := except_bind_eq_ok h
    obtain ⟨exeCount, labels, commitment, he, hb, hl, hc, rfl⟩ := parseStep2_eq_ok_iff.1 hp
    simp only [pure, Except.pure, Except.ok.injEq, Prod.mk.injEq] at h
    exact ⟨exeCount, labels, commitment, he, hb, hl, hc, h.1.symm, by simp [← h.2, concat]⟩
  · rintro ⟨exeCount, labels, commitment, he, hb, hl, hc, rfl, rfl⟩
    rw [State.commonStep2, parseStep2_eq_ok_iff.2 ⟨exeCount, labels, commitment, he, hb, hl, hc, rfl⟩]
    simp [bind, Except.bind, pure, Except.pure, concat]

theorem rtake_append_of_length {a b : List UInt8} (h : b.length = 32) : (a ++ b).rtake 32 = b := by
  rw [List.rtake, List.length_append, h, Nat.add_sub_cancel, List.drop_left]

theorem State.commonStep2_hisCommitment {st st' : State} {ot : List UInt8} {c : Nat} {body : Bytes}
    {reply : List UInt8} (h : st.commonStep2 evaluate setup ot c body = .ok (st', reply)) :
    st'.hisCommitment = Function.update st.hisCommitment c (body.bytes.rtake 32) := by
  obtain ⟨_, _, _, -, hb, -, hc, rfl, -⟩ := State.commonStep2_eq_ok_iff.1 h
  rw [hb, rtake_append_of_length hc]

/-- A step 2 answers with the encoded output it stores and the decoding tables, and
stores no other circuit's output and no `c6CheckValue`. -/
theorem State.commonStep2_reveal {st st' : State} {ot : List UInt8} {c : Nat} {body : Bytes}
    {reply : List UInt8} (h : st.commonStep2 evaluate setup ot c body = .ok (st', reply)) :
    reply = st'.encodedOutput c ++ concat (setup.dt c) ∧
      (∀ c', c' ≠ c → st'.encodedOutput c' = st.encodedOutput c') ∧ st'.c6CheckValue = st.c6CheckValue := by
  obtain ⟨_, _, _, -, -, -, -, rfl, rfl⟩ := State.commonStep2_eq_ok_iff.1 h
  exact ⟨by dsimp only; rw [Function.update_same], fun c' hc' => Function.update_noteq hc' _ _, rfl⟩

theorem State.handle_cases {st st' : State} {m : Message} {out : List UInt8}
    (h : st.handle sha256 evaluate setup m = .ok (st', out)) :
    (m.cmd = .init ∧ st' = { st with hisCommitment := fun _ => [], encodedOutput := fun _ => [] }) ∨
    (∃ c, m.cmd.commits = some c ∧ c ≠ 6 ∧
      st.commonStep2 evaluate setup m.lastOtResponse c m.body = .ok (st', out)) ∨
    (m.cmd = .c6Pre2 ∧ ∃ st₁ v, st.commonStep2 evaluate setup m.lastOtResponse 6
      (m.body.append (List.replicate 32 0)) = .ok (st₁, v) ∧
      st' = { st₁ with c6CheckValue := v } ∧ out = []) ∨
    (m.cmd = .c6Step2 ∧ m.body.bytes.length = 32 ∧
      st' = { st with hisCommitment := Function.update st.hisCommitment 6 m.body.bytes } ∧
      out = st.c6CheckValue) ∨
    (m.cmd.commits = none ∧ st' = st ∧
      ∀ c, m.cmd.decommits = some c → ∃ d, st.processDecommit sha256 setup c d = .ok out) := by
  obtain ⟨cmd, body, ot⟩ := m
  have decommit : ∀ {c : Nat} {x : Except String Bytes},
      (do let d ← x; pure (st, ← st.processDecommit sha256 setup c d)) = Except.ok (st', out) →
      st' = st ∧ ∃ d, st.processDecommit sha256 setup c d = .ok out := fun h => by
    obtain ⟨d, -, h⟩ := except_bind_eq_ok h
    obtain ⟨o, ho, h⟩ := except_bind_eq_ok h
    cases h
    exact ⟨rfl, d, ho⟩
  cases cmd <;> simp only [State.handle] at h
  case init => cases h; exact .inl ⟨rfl, rfl⟩
  case c1Step2 => exact .inr (.inl ⟨1, rfl, by decide, h⟩)
  case c2Step2 => exact .inr (.inl ⟨2, rfl, by decide, h⟩)
  case c3Step2 => exact .inr (.inl ⟨3, rfl, by decide, h⟩)
  case c4Step2 => exact .inr (.inl ⟨4, rfl, by decide, h⟩)
  case c5Step2 => exact .inr (.inl ⟨5, rfl, by decide, h⟩)
  case c7Step2 => exact .inr (.inl ⟨7, rfl, by decide, h⟩)
  case c6Pre2 =>
    obtain ⟨⟨st₁, v⟩, h₁, h⟩ := except_bind_eq_ok h
    cases h
    exact .inr (.inr (.inl ⟨rfl, st₁, v, h₁, rfl, rfl⟩))
  case c6Step2 =>
    obtain ⟨hl, h⟩ := assert_bind_eq_ok h
    cases h
    exact .inr (.inr (.inr (.inl ⟨rfl, by simpa using hl, rfl, rfl⟩)))
  case c1Step3 | c2Step3 | c4Step1 | c4Step3 | c5Step3 | c7Step1 =>
    obtain ⟨rfl, d, hd⟩ := decommit h
    exact .inr (.inr (.inr (.inr ⟨rfl, rfl, fun c hc => by cases hc; exact ⟨d, hd⟩⟩)))
  case ghashStep1 =>
    obtain ⟨d, -, h⟩ := except_bind_eq_ok h
    obtain ⟨o, ho, h⟩ := except_bind_eq_ok h
    obtain ⟨_, -, h⟩ := except_bind_eq_ok h
    obtain ⟨_, -, h⟩ := except_bind_eq_ok h
    obtain ⟨-, h⟩ := assert_bind_eq_ok h
    cases h
    exact .inr (.inr (.inr (.inr ⟨rfl, rfl, fun c hc => by cases hc; exact ⟨d, ho⟩⟩)))
  all_goals cases h; exact .inr (.inr (.inr (.inr ⟨rfl, rfl, fun c hc => by cases hc⟩)))

theorem State.handle_commits {st st' : State} {m : Message} {out : List UInt8} {c : Nat}
    (h : st.handle sha256 evaluate setup m = .ok (st', out)) (hc : m.cmd.commits = some c) :
    st'.hisCommitment c = m.body.bytes.rtake 32 := by
  rcases State.handle_cases h with ⟨hi, -⟩ | ⟨c', hc', -, h₂⟩ | ⟨hp, -⟩ | ⟨hs, hl, rfl, -⟩ |
    ⟨hn, -⟩
  · rw [hi] at hc; cases hc
  · obtain rfl := Option.some.inj (hc'.symm.trans hc)
    rw [State.commonStep2_hisCommitment h₂, Function.update_same]
  · rw [hp] at hc; cases hc
  · rw [hs] at hc
    cases hc
    simp [List.rtake, hl]
  · rw [hn] at hc; cases hc

/-- Only `Init`, the handlers that store circuit `c`'s commitment and, for circuit 6,
`C6_pre2` change it. -/
theorem State.handle_hisCommitment_of_ne {st st' : State} {m : Message} {out : List UInt8} {c : Nat}
    (h : st.handle sha256 evaluate setup m = .ok (st', out)) (hinit : m.cmd ≠ .init)
    (hc : m.cmd.commits ≠ some c) (h6 : m.cmd = .c6Pre2 → c ≠ 6) :
    st'.hisCommitment c = st.hisCommitment c := by
  rcases State.handle_cases h with ⟨hi, -⟩ | ⟨c', hc', -, h₂⟩ | ⟨hp, st₁, v, h₂, rfl, -⟩ |
    ⟨hs, -, rfl, -⟩ | ⟨-, rfl, -⟩
  · exact absurd hi hinit
  · rw [State.commonStep2_hisCommitment h₂, Function.update_noteq]
    rintro rfl; exact hc hc'
  · show st₁.hisCommitment c = _
    rw [State.commonStep2_hisCommitment h₂, Function.update_noteq (h6 hp)]
  · show Function.update st.hisCommitment 6 m.body.bytes c = _
    rw [Function.update_noteq]
    rintro rfl; exact hc (by rw [hs]; rfl)
  · rfl

theorem State.handle_decommits {st st' : State} {m : Message} {out : List UInt8} {c : Nat}
    (h : st.handle sha256 evaluate setup m = .ok (st', out)) (hc : m.cmd.decommits = some c) :
    ∃ d, st.processDecommit sha256 setup c d = .ok out := by
  rcases State.handle_cases h with ⟨hi, -⟩ | ⟨c', hc', -, -⟩ | ⟨hp, -⟩ | ⟨hs, -⟩ | ⟨-, -, hd⟩
  · rw [hi] at hc; cases hc
  · cases hm : m.cmd <;> rw [hm] at hc hc' <;> cases hc <;> cases hc'
  · rw [hp] at hc; cases hc
  · rw [hs] at hc; cases hc
  · exact hd c hc

/-- Only `Init` and the handlers that run `common_step2` for circuit `c` change its
encoded output: `C6_step2` stores a commitment only. -/
theorem State.handle_encodedOutput_of_ne {st st' : State} {m : Message} {out : List UInt8} {c : Nat}
    (h : st.handle sha256 evaluate setup m = .ok (st', out)) (hinit : m.cmd ≠ .init)
    (hc : m.cmd.commits = some c → c = 6) (h6 : m.cmd = .c6Pre2 → c ≠ 6) :
    st'.encodedOutput c = st.encodedOutput c := by
  rcases State.handle_cases h with ⟨hi, -⟩ | ⟨c', hc', h6', h₂⟩ | ⟨hp, st₁, v, h₂, rfl, -⟩ |
    ⟨-, -, rfl, -⟩ | ⟨-, rfl, -⟩
  · exact absurd hi hinit
  · exact (State.commonStep2_reveal h₂).2.1 c fun he => by subst he; exact h6' (hc hc')
  · exact (State.commonStep2_reveal h₂).2.1 c (h6 hp)
  · rfl
  · rfl

theorem State.handle_c6CheckValue_of_ne {st st' : State} {m : Message} {out : List UInt8}
    (h : st.handle sha256 evaluate setup m = .ok (st', out)) (hp : m.cmd ≠ .c6Pre2) :
    st'.c6CheckValue = st.c6CheckValue := by
  rcases State.handle_cases h with ⟨-, rfl⟩ | ⟨c', -, -, h₂⟩ | ⟨hp', -⟩ | ⟨-, -, rfl, -⟩ | ⟨-, rfl, -⟩
  · rfl
  · exact (State.commonStep2_reveal h₂).2.2
  · exact absurd hp' hp
  · rfl
  · rfl

/-- `C6_pre2` keeps back circuit 6's answer: the encoded output it stores and the
decoding tables. -/
theorem State.handle_c6Pre2 {st st' : State} {m : Message} {out : List UInt8}
    (h : st.handle sha256 evaluate setup m = .ok (st', out)) (hp : m.cmd = .c6Pre2) :
    st'.c6CheckValue = st'.encodedOutput 6 ++ concat (setup.dt 6) := by
  obtain ⟨cmd, body, ot⟩ := m
  dsimp only at hp
  subst hp
  obtain ⟨⟨st₁, v⟩, h₁, h⟩ := except_bind_eq_ok h
  cases h
  exact (State.commonStep2_reveal h₁).1

/-- A handler that stores circuit `c`'s commitment answers with the encoded output and
decoding tables: step 2 those it computes, and `C6_step2` the `c6CheckValue` kept back,
which are circuit 6's when `C6_pre2` has run. -/
theorem State.handle_reveal {st st' : State} {m : Message} {out : List UInt8} {c : Nat}
    (h : st.handle sha256 evaluate setup m = .ok (st', out)) (hc : m.cmd.commits = some c)
    (hcv : m.cmd = .c6Step2 → st.c6CheckValue = st.encodedOutput 6 ++ concat (setup.dt 6)) :
    out = st'.encodedOutput c ++ concat (setup.dt c) ∧
      (c = 6 → m.cmd = .c6Step2 ∧ out = st.c6CheckValue) := by
  rcases State.handle_cases h with ⟨hi, -⟩ | ⟨c', hc', h6, h₂⟩ | ⟨hp, -⟩ | ⟨hs, -, rfl, rfl⟩ |
    ⟨hn, -⟩
  · rw [hi] at hc; cases hc
  · obtain rfl := Option.some.inj (hc'.symm.trans hc)
    exact ⟨(State.commonStep2_reveal h₂).1, fun h => absurd h h6⟩
  · rw [hp] at hc; cases hc
  · rw [hs] at hc
    cases hc
    exact ⟨hcv hs, fun _ => ⟨hs, rfl⟩⟩
  · rw [hn] at hc; cases hc

/-- A decommitment at least `decommitSize` long is read within its length: its spare
capacity does not matter. -/
theorem State.processDecommit_spare {st : State} {c : Nat} {d : Bytes} (d' : Bytes)
    (hx : st.decommitSize setup c ≤ d.bytes.length) (hs : d.bytes = d'.bytes) :
    st.processDecommit sha256 setup c d = st.processDecommit sha256 setup c d' := by
  unfold State.decommitSize at hx
  have hx' := hs ▸ hx
  simp (disch := omega) only [State.processDecommit, Bytes.slice_of_le, hs]

/-- `C4_step1` and `C7_step1` never look at the length of their body: two bodies whose
buffers agree on the first `decommitSize` bytes get the same result. So the bytes after
the decommitment are ignored, and a body shorter than `decommitSize` is read on into
its buffer's capacity. -/
theorem State.handle_decommitPrefix {st : State} {cmd : Command} {c : Nat}
    (hcmd : cmd = .c4Step1 ∧ c = 3 ∨ cmd = .c7Step1 ∧ c = 6) {b₁ b₂ : Bytes} {ot₁ ot₂ : List UInt8}
    (h₁ : st.decommitSize setup c ≤ b₁.bytes.length + b₁.spare.length)
    (h₂ : st.decommitSize setup c ≤ b₂.bytes.length + b₂.spare.length)
    (hagree : (b₁.bytes ++ b₁.spare).take (st.decommitSize setup c) =
      (b₂.bytes ++ b₂.spare).take (st.decommitSize setup c)) :
    st.handle sha256 evaluate setup ⟨cmd, b₁, ot₁⟩ = st.handle sha256 evaluate setup ⟨cmd, b₂, ot₂⟩ := by
  have hslice : ∀ b : Bytes, st.decommitSize setup c ≤ b.bytes.length + b.spare.length →
      b.sliceTo (st.decommitSize setup c) = .ok ⟨(b.bytes ++ b.spare).take (st.decommitSize setup c),
        (b.bytes ++ b.spare).drop (st.decommitSize setup c)⟩ := fun b hb => by
    rw [Bytes.sliceTo, if_neg (by omega), if_pos (by simpa using hb), Int.toNat_ofNat]
  have hlen : st.decommitSize setup c ≤ ((b₁.bytes ++ b₁.spare).take (st.decommitSize setup c)).length := by
    simp; omega
  rcases hcmd with ⟨rfl, rfl⟩ | ⟨rfl, rfl⟩ <;>
  · simp only [State.handle, hslice b₁ h₁, hslice b₂ h₂, bind, Except.bind]
    rw [State.processDecommit_spare ⟨_, (b₂.bytes ++ b₂.spare).drop _⟩ hlen hagree]

/-- One-byte encoded outputs and decoding tables, no client labels and no outputs. -/
def byteSetup : Setup := ⟨1, fun _ => [[0]], fun _ => 0, fun _ => 0, fun _ => [], [], []⟩

/-- Every circuit's commitment the hash of anything, and its encoded output one zero
byte. -/
def zeroState : State := ⟨fun _ => List.replicate 32 0, fun _ => [0], []⟩

/-- `C4_step1` accepts a 40-byte body of zeros, whose first 34 bytes open circuit 3's
commitment, and gives the same answer to a 20-byte one with 20 more bytes of capacity. -/
theorem State.handle_decommitPrefix_short :
    zeroState.handle (fun _ => List.replicate 32 0) (fun _ _ _ _ => [0]) byteSetup
        ⟨.c4Step1, ⟨List.replicate 40 0, []⟩, []⟩ = .ok (zeroState, []) ∧
      zeroState.handle (fun _ => List.replicate 32 0) (fun _ _ _ _ => [0]) byteSetup
          ⟨.c4Step1, ⟨List.replicate 40 0, []⟩, []⟩ =
        zeroState.handle (fun _ => List.replicate 32 0) (fun _ _ _ _ => [0]) byteSetup
          ⟨.c4Step1, ⟨List.replicate 20 0, List.replicate 20 0⟩, []⟩ :=
  ⟨rfl, State.handle_decommitPrefix (.inl ⟨rfl, rfl⟩) (by decide) (by decide) (by decide)⟩

end Steps

/-- A session as dual execution sees it: the gate's record and the fields. -/
structure Notary where
  msgsSeen : List Int
  state : State

/-- A session as `AddSession` makes it. -/
def Notary.new : Notary := ⟨[], State.empty⟩

section Run

variable (sha256 : List UInt8 → List UInt8)
  (evaluate : Nat → List UInt8 → List UInt8 → List UInt8 → List UInt8) (setup : Setup)

/-- One handler call: the sequence check, then `decryptFromClient`, which panics while
`Init` has not set the client's key, then the handler's dual-execution part. -/
def Notary.step (n : Notary) (m : Message) : Except String (Notary × List UInt8) := do
  let seen ← sequenceCheck n.msgsSeen m.cmd.seqNo
  if Op.read .clientKey ∈ m.cmd.ops ∧ (1 : Int) ∉ n.msgsSeen then
    throw "crypto/aes: invalid key size 0"
  let (st, out) ← n.state.handle sha256 evaluate setup m
  pure (⟨seen, st⟩, out)

/-- The calls of a session in order; the first panic ends the run. -/
def Notary.run (n : Notary) : List Message → Except String Notary
  | [] => .ok n
  | m :: ms => (n.step sha256 evaluate setup m).bind fun r => r.1.run ms

/-- What a run keeps, given the messages `ms` it has taken: a well-formed record, every
handler that decrypts let in after `Init`, and the commitment of every circuit whose
commitment message was let in the last 32 bytes of that message's body. -/
structure Notary.Inv (ms : List Message) (n : Notary) : Prop where
  seen : SeenWellFormed n.msgsSeen
  afterInit : ∀ cmd : Command, Op.read .clientKey ∈ cmd.ops → cmd.seqNo ∈ n.msgsSeen →
    (1 : Int) ∈ n.msgsSeen
  committed : ∀ (cmd : Command) (c : Nat), cmd.commits = some c → cmd.seqNo ∈ n.msgsSeen →
    ∃ m ∈ ms, m.cmd = cmd ∧ n.state.hisCommitment c = m.body.bytes.rtake 32

/-- Circuit `c` has been revealed in the run over `ms` that reached `n`: a message `mr`
of the run stored the client's commitment for `c` and answered with the notary's
encoded output and decoding tables (for circuit 6, `C6_step2` answering with
`c6CheckValue`), and no handler of a later message can assign the commitment or the
encoded output of `c`, which are in `n` what they were after `mr`. -/
def Notary.Revealed (ms : List Message) (n : Notary) (c : Nat) : Prop :=
  ∃ ms₁ mr ms₂ n₁ n₂ reveal, ms = ms₁ ++ mr :: ms₂ ∧
    Notary.new.run sha256 evaluate setup ms₁ = .ok n₁ ∧
    n₁.step sha256 evaluate setup mr = .ok (n₂, reveal) ∧ mr.cmd.commits = some c ∧
    n₂.state.hisCommitment c = mr.body.bytes.rtake 32 ∧
    reveal = n₂.state.encodedOutput c ++ concat (setup.dt c) ∧
    (c = 6 → mr.cmd = .c6Step2 ∧ reveal = n₁.state.c6CheckValue) ∧
    n₂.run sha256 evaluate setup ms₂ = .ok n ∧
    (∀ m ∈ ms₂, ∀ (st st' : State) (out : List UInt8), st.handle sha256 evaluate setup m = .ok (st', out) →
      st'.hisCommitment c = st.hisCommitment c ∧ st'.encodedOutput c = st.encodedOutput c) ∧
    n.state.hisCommitment c = n₂.state.hisCommitment c ∧
    n.state.encodedOutput c = n₂.state.encodedOutput c

/-- What a run of a new session keeps about reveals: once `C6_pre2` is in, the
`c6CheckValue` kept back is circuit 6's encoded output and decoding tables, and every
circuit whose commitment message is in has been revealed. -/
structure Notary.RevealInv (ms : List Message) (n : Notary) : Prop where
  checkValue : (28 : Int) ∈ n.msgsSeen →
    n.state.c6CheckValue = n.state.encodedOutput 6 ++ concat (setup.dt 6)
  revealed : ∀ (cmd : Command) (c : Nat), cmd.commits = some c → cmd.seqNo ∈ n.msgsSeen →
    n.Revealed sha256 evaluate setup ms c

end Run

section RunFacts

variable {sha256 : List UInt8 → List UInt8}
  {evaluate : Nat → List UInt8 → List UInt8 → List UInt8 → List UInt8} {setup : Setup}

theorem Notary.step_eq_ok {n n' : Notary} {m : Message} {out : List UInt8}
    (h : n.step sha256 evaluate setup m = .ok (n', out)) :
    sequenceCheck n.msgsSeen m.cmd.seqNo = .ok n'.msgsSeen ∧
      (Op.read .clientKey ∈ m.cmd.ops → (1 : Int) ∈ n.msgsSeen) ∧
      n.state.handle sha256 evaluate setup m = .ok (n'.state, out) := by
  simp only [Notary.step] at h
  obtain ⟨seen, hs, h⟩ := except_bind_eq_ok h
  split_ifs at h with hkey
  · cases h
  rw [pure_bind] at h
  obtain ⟨⟨st, o⟩, hh, h⟩ := except_bind_eq_ok h
  cases h
  exact ⟨hs, fun hd => by simpa [hd] using hkey, hh⟩

theorem mem_of_sequenceCheck {seen seen' : List Int} {k : Int} (h : sequenceCheck seen k = .ok seen') :
    (∀ j, j ∈ seen' ↔ j ∈ seen ∨ (j = k ∧ k ≠ 100)) ∧ (k ≠ 100 → k ∉ seen) := by
  rcases sequenceCheck_eq_ok h with ⟨hk, -, -, rfl⟩ | ⟨hk, hnot, -, rfl⟩
  · exact ⟨fun j => by simp [hk], fun h => absurd hk h⟩
  · exact ⟨fun j => by simp [hk], fun _ => hnot⟩

theorem Notary.Inv.new : Notary.new.Inv [] := ⟨SeenWellFormed.nil, by simp [Notary.new],
  by simp [Notary.new]⟩

/-- Once circuit `c`'s commitment message is in, the next call is neither `Init` nor
the handler storing `c`'s commitment nor, for circuit 6, `C6_pre2`: the gate has
recorded each of them. -/
theorem Notary.Inv.keeps {ms : List Message} {n n' : Notary} {m : Message} {out : List UInt8}
    (hi : n.Inv ms) (h : n.step sha256 evaluate setup m = .ok (n', out)) {cmd : Command} {c : Nat}
    (hc : cmd.commits = some c) (hin : cmd.seqNo ∈ n.msgsSeen) :
    m.cmd ≠ .init ∧ m.cmd.commits ≠ some c ∧ (m.cmd = .c6Pre2 → c ≠ 6) := by
  obtain ⟨hseq, -, -⟩ := Notary.step_eq_ok h
  have hfresh := (mem_of_sequenceCheck hseq).2
  refine ⟨fun hinit => ?_, fun hmc => ?_, fun hpre h6 => ?_⟩
  · have h1 := hi.afterInit cmd (Command.decrypts_of_commits cmd (by simp [hc])) hin
    exact hfresh (by rw [hinit]; decide) (by rw [hinit]; exact h1)
  · obtain rfl := Command.commits_inj cmd m.cmd (by simp [hc]) (hc.trans hmc.symm)
    exact hfresh (Command.seqNo_ne_progress_of_commits _ (by simp [hc])) hin
  · obtain rfl := Command.commits_inj cmd .c6Step2 (by simp [hc]) (by rw [hc, h6]; rfl)
    exact hfresh (by rw [hpre]; decide) (by
      rw [hpre]; exact hi.seen.mem_of_le hin (by decide) (by decide) (by decide))

theorem Notary.Inv.step {ms : List Message} {n n' : Notary} {m : Message} {out : List UInt8}
    (hi : n.Inv ms) (h : n.step sha256 evaluate setup m = .ok (n', out)) : n'.Inv (ms ++ [m]) := by
  obtain ⟨hseq, hkey, hh⟩ := Notary.step_eq_ok h
  obtain ⟨hmem, hfresh⟩ := mem_of_sequenceCheck hseq
  have hold : ∀ j, j ∈ n.msgsSeen → j ∈ n'.msgsSeen := fun j hj => (hmem j).2 (.inl hj)
  refine ⟨hi.seen.of_sequenceCheck hseq, fun cmd hd hin => ?_, fun cmd c hc hin => ?_⟩
  · rcases (hmem _).1 hin with hin | ⟨he, -⟩
    · exact hold _ (hi.afterInit cmd hd hin)
    · exact hold _ (hkey (Command.seqNo_inj he ▸ hd))
  rcases (hmem _).1 hin with hin | ⟨he, -⟩
  · obtain ⟨m', hm', hcmd, hcom⟩ := hi.committed cmd c hc hin
    obtain ⟨hinit, hmc, h6⟩ := hi.keeps h hc hin
    exact ⟨m', List.mem_append_left _ hm', hcmd, hcom ▸ State.handle_hisCommitment_of_ne hh hinit hmc h6⟩
  · obtain rfl := Command.seqNo_inj he
    exact ⟨m, List.mem_append_right _ (List.mem_singleton_self m), rfl, State.handle_commits hh hc⟩

theorem Notary.run_inv {ms ms₀ : List Message} {n n' : Notary} (hi : n.Inv ms₀)
    (h : n.run sha256 evaluate setup ms = .ok n') : n'.Inv (ms₀ ++ ms) := by
  induction ms generalizing n ms₀ with
  | nil => simp only [Notary.run, Except.ok.injEq] at h; subst h; simpa using hi
  | cons m ms ih =>
    simp only [Notary.run] at h
    obtain ⟨⟨n₁, out⟩, h₁, h⟩ := except_bind_eq_ok h
    simpa using ih (hi.step h₁) h

theorem Notary.run_append (n : Notary) (ms ms' : List Message) :
    n.run sha256 evaluate setup (ms ++ ms') =
      (n.run sha256 evaluate setup ms).bind (·.run sha256 evaluate setup ms') := by
  induction ms generalizing n with
  | nil => rfl
  | cons m ms ih =>
    simp only [List.cons_append, Notary.run]
    cases n.step sha256 evaluate setup m with
    | error e => rfl
    | ok r => exact ih r.1

/-- A call that checks circuit `c`'s decommitment is let in only after the handler
storing `c`'s commitment. -/
theorem Notary.committer_seen {n : Notary} {m : Message} {r : Notary × List UInt8} {c : Nat}
    (hstep : n.step sha256 evaluate setup m = .ok r) (hc : m.cmd.decommits = some c) :
    ∃ cmd : Command, cmd.commits = some c ∧ cmd.seqNo ∈ n.msgsSeen := by
  obtain ⟨hseq, -, -⟩ := Notary.step_eq_ok hstep
  obtain ⟨⟨cmd, hcmd, hseq'⟩, h5, h34, h100⟩ := Command.committer_of_decommits m.cmd (by simp [hc])
  refine ⟨cmd, hcmd.trans hc, ?_⟩
  rcases sequenceCheck_eq_ok hseq with ⟨h, -⟩ | ⟨-, -, hpred, -⟩
  · exact absurd h h100
  · rw [hseq']
    rcases hpred with h | h | h | h | ⟨h, -⟩ <;> first | exact h | omega

theorem Notary.RevealInv.new : Notary.new.RevealInv sha256 evaluate setup [] :=
  ⟨fun h => absurd h (List.not_mem_nil _), fun _ _ _ h => absurd h (List.not_mem_nil _)⟩

/-- An accepted call keeps the reveals: it extends every earlier reveal's tail, which it
cannot write into, and a handler storing a commitment starts a reveal of its own. -/
theorem Notary.RevealInv.step {ms : List Message} {n n' : Notary} {m : Message} {out : List UInt8}
    (hi : n.Inv ms) (hr : n.RevealInv sha256 evaluate setup ms)
    (hrun : Notary.new.run sha256 evaluate setup ms = .ok n)
    (h : n.step sha256 evaluate setup m = .ok (n', out)) :
    n'.RevealInv sha256 evaluate setup (ms ++ [m]) := by
  obtain ⟨hseq, -, hh⟩ := Notary.step_eq_ok h
  obtain ⟨hmem, hfresh⟩ := mem_of_sequenceCheck hseq
  refine ⟨fun h28 => ?_, fun cmd c hc hin => ?_⟩
  · rcases (hmem _).1 h28 with h28 | ⟨he, -⟩
    · have hp : m.cmd ≠ .c6Pre2 := fun hp => hfresh (by rw [hp]; decide) (by rw [hp]; exact h28)
      have hinit : m.cmd ≠ .init := fun hinit => hfresh (by rw [hinit]; decide)
        (by rw [hinit]; exact hi.afterInit .c6Pre2 (by decide) h28)
      rw [State.handle_c6CheckValue_of_ne hh hp,
        State.handle_encodedOutput_of_ne hh hinit (fun _ => rfl) (fun h => absurd h hp),
        hr.checkValue h28]
    · exact State.handle_c6Pre2 hh (Command.seqNo_inj (c := .c6Pre2) he).symm
  rcases (hmem _).1 hin with hin | ⟨he, -⟩
  · obtain ⟨ms₁, mr, ms₂, n₁, n₂, reveal, rfl, h₁, hmr, hcmr, hcom, hrev, h6, hrun₂, hkeep, hcn,
      hen⟩ := hr.revealed cmd c hc hin
    obtain ⟨hinit, hmc, hp⟩ := hi.keeps h hc hin
    have hkeepm : ∀ (st st' : State) (out : List UInt8), st.handle sha256 evaluate setup m = .ok (st', out) →
        st'.hisCommitment c = st.hisCommitment c ∧ st'.encodedOutput c = st.encodedOutput c :=
      fun _ _ _ h' => ⟨State.handle_hisCommitment_of_ne h' hinit hmc hp,
        State.handle_encodedOutput_of_ne h' hinit (fun h => absurd h hmc) hp⟩
    refine ⟨ms₁, mr, ms₂ ++ [m], n₁, n₂, reveal, by simp, h₁, hmr, hcmr, hcom, hrev, h6, ?_,
      fun m' hm' => ?_, (hkeepm _ _ _ hh).1.trans hcn, (hkeepm _ _ _ hh).2.trans hen⟩
    · rw [Notary.run_append, hrun₂]
      simp only [Except.bind, Notary.run, h]
    · rcases List.mem_append.1 hm' with hm' | hm'
      · exact hkeep m' hm'
      · exact (List.mem_singleton.1 hm') ▸ hkeepm
  · obtain rfl := Command.seqNo_inj he
    have hcv : m.cmd = .c6Step2 → n.state.c6CheckValue = n.state.encodedOutput 6 ++ concat (setup.dt 6) :=
      fun hs => hr.checkValue (hi.seen.mem_of_gateRequires hseq (by rw [hs]; decide))
    obtain ⟨hrev, h6⟩ := State.handle_reveal hh hc hcv
    exact ⟨ms, m, [], n, n', out, rfl, hrun, h, hc, State.handle_commits hh hc, hrev, h6, rfl,
      fun _ h => absurd h (List.not_mem_nil _), rfl, rfl⟩

theorem Notary.run_revealInv {ms : List Message} {n : Notary}
    (h : Notary.new.run sha256 evaluate setup ms = .ok n) : n.RevealInv sha256 evaluate setup ms := by
  induction ms using List.reverseRecOn generalizing n with
  | nil => cases h; exact Notary.RevealInv.new
  | append_singleton ms m ih =>
    rw [Notary.run_append] at h
    obtain ⟨n₀, h₀, h⟩ := except_bind_eq_ok h
    simp only [Notary.run] at h
    obtain ⟨⟨n₁, out⟩, h₁, h⟩ := except_bind_eq_ok h
    cases h
    exact (ih h₀).step (Notary.run_inv Notary.Inv.new h₀) h₀ h₁

/-- Over every run of a new session, a handler that checks circuit `c`'s decommitment
runs after circuit `c` was revealed: an earlier message stored the client's commitment
and answered with the notary's encoded output and decoding tables (for circuit 6,
`C6_step2` storing the client's commitment and answering with `c6CheckValue`), and no
later handler could assign the commitment or the output again. So `processDecommit`
checks against the commitment stored with the reveal and the output revealed. -/
theorem Notary.run_reveal_before_decommit {ms : List Message} {n : Notary} {m : Message}
    {r : Notary × List UInt8} {c : Nat} (hrun : Notary.new.run sha256 evaluate setup ms = .ok n)
    (hstep : n.step sha256 evaluate setup m = .ok r) (hc : m.cmd.decommits = some c) :
    n.Revealed sha256 evaluate setup ms c ∧
      ∃ d, n.state.processDecommit sha256 setup c d = .ok r.2 := by
  obtain ⟨cmd, hcmd, hin⟩ := Notary.committer_seen hstep hc
  obtain ⟨-, -, hh⟩ := Notary.step_eq_ok hstep
  exact ⟨(Notary.run_revealInv hrun).revealed cmd c hcmd hin, State.handle_decommits hh hc⟩

/-- The honest order up to `C6_step2`: every commitment is 32 bytes of 7, every
decommitment and every other body zero bytes, so `C6_pre2`'s dummy commitment differs
from the client's. -/
def toC6Step2 : List Message :=
  ([(Command.init, []), (.getBlob, []), (.setBlob, []), (.step1, []), (.step2, []), (.step3, []),
    (.step4, []), (.c1Step1, []), (.c1Step2, List.replicate 32 7), (.c1Step3, List.replicate 66 0),
    (.c1Step4, []), (.c1Step5, []), (.c2Step1, []), (.c2Step2, List.replicate 32 7),
    (.c2Step3, List.replicate 98 0), (.c2Step4, []), (.c3Step1, []), (.c3Step2, List.replicate 32 7),
    (.c4Step1, List.replicate 34 0), (.c4Step2, List.replicate 32 7), (.c4Step3, List.replicate 50 0),
    (.c5Pre1, []), (.c5Step1, []), (.c5Step2, List.replicate 32 7), (.c5Step3, List.replicate 50 0),
    (.c6Step1, []), (.c6Pre2, []), (.c6Step2, List.replicate 32 7)] : List (Command × List UInt8)).map
    fun p => ⟨p.1, ⟨p.2, []⟩, []⟩

theorem Notary.run_reveal_before_decommit_circuit6 :
    ∃ n r, Notary.new.run (fun _ => List.replicate 32 7) (fun _ _ _ _ => [0]) byteSetup toC6Step2 =
        .ok n ∧
      n.step (fun _ => List.replicate 32 7) (fun _ _ _ _ => [0]) byteSetup
        ⟨.c7Step1, ⟨List.replicate 34 0, []⟩, []⟩ = .ok r ∧
      n.Revealed (fun _ => List.replicate 32 7) (fun _ _ _ _ => [0]) byteSetup toC6Step2 6 ∧
      ∃ d, n.state.processDecommit (fun _ => List.replicate 32 7) byteSetup 6 d = .ok r.2 :=
  ⟨_, _, rfl, rfl,
    @Notary.run_reveal_before_decommit _ (fun _ _ _ _ => [0]) _ _ _
      ⟨.c7Step1, ⟨List.replicate 34 0, []⟩, []⟩ _ _ rfl rfl rfl⟩

/-- The honest order up to `C1_step2`, whose body is a commitment of 32 zero bytes. -/
def toC1Step2 : List Message :=
  ([Command.init, .setBlob, .step1, .step2, .step3, .step4, .c1Step1].map fun c => ⟨c, ⟨[], []⟩, []⟩) ++
    [⟨.c1Step2, ⟨List.replicate 32 0, []⟩, []⟩]

end RunFacts

end DualExecution

end TlsNotary
