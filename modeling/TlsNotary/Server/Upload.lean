import TlsNotary.Server.Transfer
import Mathlib.Algebra.Order.BigOperators.Group.List

/-!
# Progress polls beside the upload

`net/http` serves every request on a goroutine of its own, and neither `httpHandler` nor
`setBlob` locks the session: the client polls `GetUploadProgress` while its `SetBlob`
streams, which is what the poll is for. The statements of the two handlers that touch the
session's shared fields interleave: `SetBlob`'s `sequenceCheck(4)`, its
`s.streamCounter = &StreamCounter{total: 0}` after `os.OpenFile`, and for each chunk of
`io.Copy` the counter's `Write` and then the file's; a poll's `sequenceCheck(100)` and its
read of `s.streamCounter.total`. A schedule names the goroutine that runs next, and the
first panic ends the run, as `destroyOnPanic` then destroys the session.

`SetBlob` records 4 before it makes its counter, so a poll can pass its check and read
the nil pointer in between. `os.OpenFile` and `io.Copy` failing, which panic, are left out.
-/
namespace TlsNotary

/-- The goroutines that touch one session's upload: `setBlob`'s, and those of the
`getUploadProgress` polls. -/
inductive Goroutine
  | setBlob
  | poll (id : Nat)
  deriving DecidableEq

/-- The statement `SetBlob` runs next: its check; `os.OpenFile` and the counter's creation;
the counter's `Write` of chunk `j`, or the file's. -/
inductive SetBlobPc
  | check
  | openFile
  | count (j : Nat)
  | append (j : Nat)
  deriving DecidableEq

/-- The statement a poll runs next: its check, its read of the counter. -/
inductive PollPc
  | check
  | read
  | done
  deriving DecidableEq

/-- The session's fields the goroutines share, and where each goroutine is.
`streamCounter` is `none` while the pointer is nil; `answers` holds each poll's four bytes
before `encryptToClient`. -/
structure UploadState where
  msgsSeen : List Int
  streamCounter : Option UInt32
  file : List UInt8
  setBlobPc : SetBlobPc
  pollPc : Nat → PollPc
  answers : Nat → Option (List UInt8)

/-- The panic of Go's runtime on a field of a nil pointer. -/
def nilPointerDereference : String :=
  "runtime error: invalid memory address or nil pointer dereference"

namespace UploadState

/-- A session before its upload: no counter, an empty file, every goroutine at its start. -/
def start (msgsSeen : List Int) : UploadState :=
  ⟨msgsSeen, none, [], .check, fun _ => .check, fun _ => none⟩

/-- One statement of `SetBlob` over the chunks `Read` returns. The `TeeReader` holds the
counter made at `openFile`, so its `Write` never sees nil; after the last chunk `io.Copy`
and `SetBlob` return. -/
def setBlobStep (chunks : List (List UInt8)) (st : UploadState) : Except String UploadState :=
  match st.setBlobPc with
  | .check => do
    let seen ← sequenceCheck st.msgsSeen 4
    pure { st with msgsSeen := seen, setBlobPc := .openFile }
  | .openFile => pure { st with streamCounter := some 0, setBlobPc := .count 0 }
  | .count j =>
    match chunks[j]? with
    | none => pure st
    | some chunk => do
      let total ← StreamCounter.write (st.streamCounter.getD 0) chunk.length
      pure { st with streamCounter := some total, setBlobPc := .append j }
  | .append j => pure { st with file := st.file ++ chunks.getD j [], setBlobPc := .count (j + 1) }

/-- One statement of poll `i`: `GetUploadProgress`'s check, then
`binary.BigEndian.PutUint32(bytes, s.streamCounter.total)`. -/
def pollStep (st : UploadState) (i : Nat) : Except String UploadState :=
  match st.pollPc i with
  | .check => do
    let seen ← sequenceCheck st.msgsSeen 100
    pure { st with msgsSeen := seen, pollPc := Function.update st.pollPc i .read }
  | .read =>
    match st.streamCounter with
    | none => .error nilPointerDereference
    | some total =>
      pure { st with
        pollPc := Function.update st.pollPc i .done
        answers := Function.update st.answers i (some (putUint32 total)) }
  | .done => pure st

def step (chunks : List (List UInt8)) (st : UploadState) : Goroutine → Except String UploadState
  | .setBlob => st.setBlobStep chunks
  | .poll i => st.pollStep i

/-- The statements in the order the schedule names their goroutines. -/
def run (chunks : List (List UInt8)) : UploadState → List Goroutine → Except String UploadState
  | st, [] => .ok st
  | st, g :: gs => st.step chunks g >>= fun st => st.run chunks gs

end UploadState

theorem sequenceCheck_four {seen : List Int} (h : 4 ∉ seen) :
    sequenceCheck seen 4 = .ok (seen ++ [4]) := by
  simp [sequenceCheck, h]

theorem sequenceCheck_hundred {seen seen' : List Int} (h : sequenceCheck seen 100 = .ok seen') :
    seen' = seen ∧ 4 ∈ seen := by
  rcases sequenceCheck_eq_ok h with ⟨-, h4, -, rfl⟩ | ⟨h100, -⟩
  · exact ⟨rfl, h4⟩
  · exact absurd rfl h100

/-- A poll's check fails only before 4 or after 9, with one message. -/
theorem sequenceCheck_hundred_error {seen : List Int} {e : String}
    (h : sequenceCheck seen 100 = .error e) :
    e = "msg No 5 received out of order" ∧ (4 ∉ seen ∨ 9 ∈ seen) := by
  simp only [sequenceCheck, if_pos] at h
  split_ifs at h with hc
  cases h
  rw [Bool.and_eq_true, Bool.not_eq_true', contains_iff, contains_eq_false, not_and_or] at hc
  exact ⟨rfl, hc.imp_right not_not.1⟩

namespace UploadState

theorem step_msgsSeen {chunks : List (List UInt8)} {st st' : UploadState} {g : Goroutine}
    (h : st.step chunks g = .ok st') : st'.msgsSeen = st.msgsSeen ∨ st'.msgsSeen = st.msgsSeen ++ [4] := by
  obtain ⟨seen, counter, file, pc, pollPc, answers⟩ := st
  cases g with
  | setBlob =>
    cases pc with
    | check =>
      cases hc : sequenceCheck seen 4 with
      | error e => simp [step, setBlobStep, hc, bind, Except.bind] at h
      | ok seen' =>
        simp only [step, setBlobStep, hc, bind, Except.bind, pure, Except.pure, Except.ok.injEq] at h
        subst h
        rcases sequenceCheck_eq_ok hc with ⟨h, -⟩ | ⟨-, -, -, h⟩
        · exact absurd h (by decide)
        · exact .inr h
    | openFile => cases h; exact .inl rfl
    | count j =>
      simp only [step, setBlobStep] at h
      split at h
      · cases h; exact .inl rfl
      · rename_i c _
        cases hw : StreamCounter.write (counter.getD 0) c.length with
        | error e => simp [hw, bind, Except.bind] at h
        | ok t =>
          simp only [hw, bind, Except.bind, pure, Except.pure, Except.ok.injEq] at h
          subst h
          exact .inl rfl
    | append j => cases h; exact .inl rfl
  | poll i =>
    simp only [step, pollStep] at h
    split at h
    · cases hc : sequenceCheck seen 100 with
      | error e => simp [hc, bind, Except.bind] at h
      | ok seen' =>
        simp only [hc, bind, Except.bind, pure, Except.pure, Except.ok.injEq] at h
        subst h
        exact .inl (sequenceCheck_hundred hc).1
    · split at h
      · cases h
      · cases h; exact .inl rfl
    · cases h; exact .inl rfl

theorem run_msgsSeen {chunks : List (List UInt8)} {st st' : UploadState} {gs : List Goroutine}
    (h : st.run chunks gs = .ok st') : ∀ k ∈ st'.msgsSeen, k ∈ st.msgsSeen ∨ k = 4 := by
  induction gs generalizing st with
  | nil => cases h; exact fun k hk => .inl hk
  | cons g gs ih =>
    simp only [run] at h
    cases hg : st.step chunks g with
    | error e => simp [hg, bind, Except.bind] at h
    | ok st₁ =>
      intro k hk
      rcases ih (by simpa [hg, bind, Except.bind] using h) k hk with hk | rfl
      · rcases step_msgsSeen hg with h' | h'
        · exact .inl (h' ▸ hk)
        · rwa [h', List.mem_append, List.mem_singleton] at hk
      · exact .inr rfl

theorem run_eq_error {chunks : List (List UInt8)} {st : UploadState} {gs : List Goroutine} {e : String}
    (h : st.run chunks gs = .error e) :
    ∃ gs₁ g rest st₁, gs = gs₁ ++ g :: rest ∧ st.run chunks gs₁ = .ok st₁ ∧
      st₁.step chunks g = .error e := by
  induction gs generalizing st with
  | nil => cases h
  | cons g gs ih =>
    simp only [run] at h
    cases hg : st.step chunks g with
    | error e' =>
      simp only [hg, bind, Except.bind, Except.error.injEq] at h
      exact ⟨[], g, gs, st, rfl, rfl, h ▸ hg⟩
    | ok st₁ =>
      obtain ⟨gs₁, g', rest, st₂, rfl, h₁, h₂⟩ := ih (by simpa [hg, bind, Except.bind] using h)
      exact ⟨g :: gs₁, g', rest, st₂, rfl, by simpa [run, hg, bind, Except.bind] using h₁, h₂⟩

/-- A poll fails at its check, or at its read of the nil counter. -/
theorem pollStep_eq_error {st : UploadState} {i : Nat} {e : String} (h : st.pollStep i = .error e) :
    (st.pollPc i = .check ∧ sequenceCheck st.msgsSeen 100 = .error e) ∨
      (st.pollPc i = .read ∧ st.streamCounter = none ∧ e = nilPointerDereference) := by
  unfold pollStep at h
  cases hpc : st.pollPc i <;> rw [hpc] at h
  case check =>
    cases hc : sequenceCheck st.msgsSeen 100 <;> simp only [hc, bind, Except.bind] at h
    · cases h; exact .inl ⟨rfl, rfl⟩
    · cases h
  case read =>
    cases hcnt : st.streamCounter <;> rw [hcnt] at h <;> cases h
    exact .inr ⟨rfl, rfl, rfl⟩
  case done => cases h

/-- `SetBlob` fails at its check, or at the counter's `Write` of a chunk. -/
theorem setBlobStep_eq_error {chunks : List (List UInt8)} {st : UploadState} {e : String}
    (h : st.setBlobStep chunks = .error e) :
    (st.setBlobPc = .check ∧ sequenceCheck st.msgsSeen 4 = .error e) ∨
      ∃ j c, st.setBlobPc = .count j ∧ chunks[j]? = some c ∧
        StreamCounter.write (st.streamCounter.getD 0) c.length = .error e := by
  unfold setBlobStep at h
  cases hpc : st.setBlobPc <;> rw [hpc] at h
  case check =>
    cases hc : sequenceCheck st.msgsSeen 4 <;> simp only [hc, bind, Except.bind] at h
    · cases h; exact .inl ⟨rfl, rfl⟩
    · cases h
  case count j =>
    dsimp only at h
    cases hj : chunks[j]? with
    | none => rw [hj] at h; cases h
    | some c =>
      rw [hj] at h
      cases hw : StreamCounter.write (st.streamCounter.getD 0) c.length <;>
        simp only [hw, bind, Except.bind] at h
      · cases h; exact .inr ⟨j, c, rfl, hj, hw⟩
      · cases h
  all_goals cases h

end UploadState

/-- The bytes the counter has seen once the first `k` chunks passed the `TeeReader`. -/
def countedBytes (chunks : List (List UInt8)) (k : Nat) : Nat :=
  ((chunks.take k).map List.length).sum

theorem countedBytes_length (chunks : List (List UInt8)) :
    countedBytes chunks chunks.length = (chunks.map List.length).sum := by
  simp [countedBytes]

theorem countedBytes_mono (chunks : List (List UInt8)) {j k : Nat} (h : j ≤ k) :
    countedBytes chunks j ≤ countedBytes chunks k := by
  unfold countedBytes
  rw [← Nat.min_eq_left h, ← List.take_take]
  exact ((List.take_sublist _ _).map _).sum_le_sum fun _ _ => Nat.zero_le _

theorem take_succ_chunk {chunks : List (List UInt8)} {j : Nat} {c : List UInt8}
    (hj : chunks[j]? = some c) :
    countedBytes chunks (j + 1) = countedBytes chunks j + c.length ∧
      (chunks.take (j + 1)).flatten = (chunks.take j).flatten ++ c := by
  simp [countedBytes, List.take_succ, hj]

section Counter

variable {chunks : List (List UInt8)}
  (hsmall : ∀ c ∈ chunks, c.length < 2 ^ 32 - 1024 * 1024 * 300)
include hsmall

theorem write_countedBytes {j : Nat} {c : List UInt8} (hj : chunks[j]? = some c)
    (hle : countedBytes chunks j ≤ 1024 * 1024 * 300) :
    StreamCounter.write (UInt32.ofNat (countedBytes chunks j)) c.length =
      if countedBytes chunks (j + 1) ≤ 1024 * 1024 * 300 then
        .ok (UInt32.ofNat (countedBytes chunks (j + 1)))
      else .error "can't process blob more than 300MB" := by
  have hc := hsmall c (List.getElem?_mem hj)
  have hcount : (UInt32.ofNat (countedBytes chunks j)).toNat = countedBytes chunks j :=
    toNat_ofNat_uint32 (by omega)
  rw [StreamCounter.write_eq (by omega), hcount, (take_succ_chunk hj).1]

end Counter

/-- The counter and the file at each statement of `SetBlob`. -/
def ProgressOk (chunks : List (List UInt8)) : SetBlobPc → Option UInt32 → List UInt8 → Prop
  | .check, counter, file | .openFile, counter, file => counter = none ∧ file = []
  | .count j, counter, file => j ≤ chunks.length ∧ countedBytes chunks j ≤ 1024 * 1024 * 300 ∧
      counter = some (UInt32.ofNat (countedBytes chunks j)) ∧ file = (chunks.take j).flatten
  | .append j, counter, file => j < chunks.length ∧
      countedBytes chunks (j + 1) ≤ 1024 * 1024 * 300 ∧
      counter = some (UInt32.ofNat (countedBytes chunks (j + 1))) ∧ file = (chunks.take j).flatten

/-- What holds in every state an interleaving reaches: 4 is recorded once `SetBlob` has
passed its check, every poll past its check has seen it, the counter and file follow
`SetBlob`'s place, and no poll has answered more than the counter holds. -/
structure UploadInv (chunks : List (List UInt8)) (st : UploadState) : Prop where
  seen : 4 ∈ st.msgsSeen ↔ st.setBlobPc ≠ .check
  polls : ∀ i, st.pollPc i ≠ .check → 4 ∈ st.msgsSeen
  progress : ProgressOk chunks st.setBlobPc st.streamCounter st.file
  answers : ∀ i b, st.answers i = some b →
    ∃ total, st.streamCounter = some total ∧ setBytes b ≤ total.toNat

namespace UploadInv

variable {chunks : List (List UInt8)} {st st' : UploadState}

theorem start {seen : List Int} (h4 : 4 ∉ seen) : UploadInv chunks (UploadState.start seen) :=
  ⟨by simpa [UploadState.start] using h4, fun _ h => absurd rfl h, ⟨rfl, rfl⟩,
    fun _ _ h => by cases h⟩

theorem pollStep (hinv : UploadInv chunks st) {i : Nat} (h : st.pollStep i = .ok st') :
    UploadInv chunks st' := by
  obtain ⟨hseen, hpolls, hprog, hans⟩ := hinv
  unfold UploadState.pollStep at h
  split at h
  · cases hc : sequenceCheck st.msgsSeen 100 with
    | error e => simp [hc, bind, Except.bind] at h
    | ok seen' =>
      obtain ⟨rfl, h4⟩ := sequenceCheck_hundred hc
      simp only [hc, bind, Except.bind, pure, Except.pure, Except.ok.injEq] at h
      subst h
      refine ⟨hseen, fun k hk => ?_, hprog, hans⟩
      by_cases hki : k = i
      · exact h4
      · exact hpolls k (by simpa [Function.update_noteq hki] using hk)
  · rename_i hread
    split at h
    · cases h
    · rename_i total hc
      cases h
      refine ⟨hseen, fun k hk => ?_, hprog, fun k b hb => ?_⟩
      · by_cases hki : k = i
        · exact hpolls i (by simp [hread])
        · exact hpolls k (by simpa [Function.update_noteq hki] using hk)
      · by_cases hki : k = i
        · subst hki
          simp only [Function.update_same, Option.some.injEq] at hb
          exact ⟨total, hc, by rw [← hb, setBytes_putUint32]⟩
        · exact hans k b (by simpa [Function.update_noteq hki] using hb)
  · cases h
    exact ⟨hseen, hpolls, hprog, hans⟩

section SetBlob

variable (hsmall : ∀ c ∈ chunks, c.length < 2 ^ 32 - 1024 * 1024 * 300)
include hsmall

theorem setBlobStep (hinv : UploadInv chunks st) (h : st.setBlobStep chunks = .ok st') :
    UploadInv chunks st' := by
  obtain ⟨seen, counter, file, pc, pollPc, answers⟩ := st
  obtain ⟨hseen, hpolls, hprog, hans⟩ := hinv
  dsimp only at hseen hpolls hprog hans
  cases pc with
  | check =>
    have h4 : (4 : Int) ∉ seen := fun h4 => hseen.1 h4 rfl
    simp only [UploadState.setBlobStep, sequenceCheck_four h4, bind, Except.bind, pure,
      Except.pure, Except.ok.injEq] at h
    subst h
    exact ⟨by simp, fun _ _ => by simp, hprog, hans⟩
  | openFile =>
    obtain ⟨rfl, rfl⟩ := hprog
    cases h
    refine ⟨by simpa using hseen, hpolls, ⟨Nat.zero_le _, by simp [countedBytes], rfl, rfl⟩,
      fun k b hb => ?_⟩
    obtain ⟨_, hnone, -⟩ := hans k b hb
    cases hnone
  | count j =>
    obtain ⟨hjle, hle, rfl, rfl⟩ := hprog
    simp only [UploadState.setBlobStep] at h
    split at h
    · cases h
      exact ⟨hseen, hpolls, ⟨hjle, hle, rfl, rfl⟩, hans⟩
    · rename_i c hj
      simp only [Option.getD_some, write_countedBytes hsmall hj hle] at h
      split_ifs at h with hnext
      · cases h
        have hgrow : (UInt32.ofNat (countedBytes chunks j)).toNat ≤
            (UInt32.ofNat (countedBytes chunks (j + 1))).toNat := by
          rw [toNat_ofNat_uint32 (by omega), toNat_ofNat_uint32 (by omega)]
          exact countedBytes_mono _ (Nat.le_succ j)
        refine ⟨by simpa using hseen, hpolls,
          ⟨(List.getElem?_eq_some_iff.1 hj).1, hnext, rfl, rfl⟩, fun k b hb => ?_⟩
        obtain ⟨_, ht, hb⟩ := hans k b hb
        cases ht
        exact ⟨_, rfl, hb.trans hgrow⟩
      · cases h
  | append j =>
    obtain ⟨hj, hle, rfl, rfl⟩ := hprog
    cases h
    have hc : chunks[j]? = some (chunks.getD j []) := by
      rw [List.getD_eq_getElem?_getD, List.getElem?_eq_getElem hj, Option.getD_some]
    exact ⟨by simpa using hseen, hpolls,
      ⟨hj, by rwa [(take_succ_chunk hc).1] at hle ⊢, rfl, (take_succ_chunk hc).2.symm⟩, hans⟩

theorem step (hinv : UploadInv chunks st) {g : Goroutine} (h : st.step chunks g = .ok st') :
    UploadInv chunks st' := by
  cases g with
  | setBlob => exact setBlobStep hsmall hinv h
  | poll i => exact pollStep hinv h

theorem run (hinv : UploadInv chunks st) {gs : List Goroutine} (h : st.run chunks gs = .ok st') :
    UploadInv chunks st' := by
  induction gs generalizing st with
  | nil => cases h; exact hinv
  | cons g gs ih =>
    simp only [UploadState.run] at h
    cases hg : st.step chunks g with
    | error e => simp [hg, bind, Except.bind] at h
    | ok st₁ => exact ih (step hsmall hinv hg) (by simpa [hg, bind, Except.bind] using h)

end SetBlob

/-- Past `SetBlob`'s check, the counter is nil only while `SetBlob` opens the file. -/
theorem openFile_of_counter_none (hinv : UploadInv chunks st) (h4 : 4 ∈ st.msgsSeen)
    (hc : st.streamCounter = none) : st.setBlobPc = .openFile := by
  have hne := hinv.seen.1 h4
  have hprog := hinv.progress
  revert hne hprog
  cases st.setBlobPc with
  | check => exact fun h => absurd rfl h
  | openFile => exact fun _ _ => rfl
  | count j | append j => rintro - ⟨-, -, hc', -⟩; rw [hc] at hc'; cases hc'

end UploadInv

/-- `SetBlob` has passed its check and made its counter; poll 0 has passed its check. -/
def pollInWindow : UploadState :=
  ⟨[1, 3, 4], none, [], .openFile, Function.update (fun _ => .check) 0 .read, fun _ => none⟩

/-- Progress never goes backwards: in every interleaving, once a poll has answered, every
poll that reads the counter afterwards succeeds and answers at least as much. -/
theorem pollRead_monotone {chunks : List (List UInt8)}
    (hsmall : ∀ c ∈ chunks, c.length < 2 ^ 32 - 1024 * 1024 * 300) {seen : List Int}
    (h4 : 4 ∉ seen) {sched : List Goroutine} {st : UploadState}
    (hrun : (UploadState.start seen).run chunks sched = .ok st) {i k : Nat} {b : List UInt8}
    (hb : st.answers i = some b) (hk : st.pollPc k = .read) :
    ∃ st' b', st.step chunks (.poll k) = .ok st' ∧ st'.answers k = some b' ∧
      setBytes b ≤ setBytes b' := by
  obtain ⟨total, hc, hle⟩ := (UploadInv.run hsmall (UploadInv.start h4) hrun).answers i b hb
  refine ⟨_, _, by simp only [UploadState.step, UploadState.pollStep, hk, hc]; rfl,
    Function.update_same _ _ _, ?_⟩
  rwa [setBytes_putUint32]

/-- Poll 0 has answered before the first chunk was counted; poll 1 reads after it. -/
def secondPollReads : UploadState :=
  ⟨[1, 3, 4], some 1, [], .append 0,
    Function.update (Function.update (Function.update (fun _ => .check) 0 .read) 0 .done) 1 .read,
    Function.update (fun _ => none) 0 (some (putUint32 0))⟩

theorem pollRead_monotone_secondPoll :
    ∃ st' b', secondPollReads.step [[7]] (.poll 1) = .ok st' ∧ st'.answers 1 = some b' ∧
      setBytes (putUint32 0) ≤ setBytes b' :=
  pollRead_monotone (by decide) (by decide)
    (show (UploadState.start [1, 3]).run [[7]]
      [.setBlob, .setBlob, .poll 0, .poll 0, .poll 1, .setBlob] = .ok secondPollReads from rfl)
    (i := 0) rfl rfl

/-- The polls never disturb the upload: in every interleaving in which `SetBlob` has passed
its last chunk, its counter and file are those `io.Copy` leaves when it runs alone. -/
theorem run_copyChunks {chunks : List (List UInt8)}
    (hsmall : ∀ c ∈ chunks, c.length < 2 ^ 32 - 1024 * 1024 * 300) {seen : List Int}
    (h4 : 4 ∉ seen) {sched : List Goroutine} {st : UploadState}
    (hrun : (UploadState.start seen).run chunks sched = .ok st)
    (hdone : st.setBlobPc = .count chunks.length) :
    ∃ total, st.streamCounter = some total ∧ copyChunks (0, []) chunks = .ok (total, st.file) := by
  have hprog := (UploadInv.run hsmall (UploadInv.start h4) hrun).progress
  rw [hdone] at hprog
  obtain ⟨-, hle, hc, hf⟩ := hprog
  rw [countedBytes_length] at hle hc
  refine ⟨_, hc, ?_⟩
  rw [copyChunks_eq hsmall (by decide), if_pos (by simpa using hle), hf, List.take_length]
  simp

/-- Two polls around the upload of one chunk: poll 0 reads once the chunk is counted. -/
def afterOneChunk : UploadState :=
  ⟨[1, 3, 4], some 1, [7], .count 1, Function.update (Function.update (fun _ => .check) 0 .read) 0 .done,
    Function.update (fun _ => none) 0 (some (putUint32 1))⟩

theorem run_copyChunks_afterOneChunk :
    ∃ total, afterOneChunk.streamCounter = some total ∧
      copyChunks (0, []) [[7]] = .ok (total, afterOneChunk.file) :=
  run_copyChunks (by decide) (by decide)
    (show (UploadState.start [1, 3]).run [[7]]
      [.setBlob, .setBlob, .poll 0, .setBlob, .poll 0, .setBlob] = .ok afterOneChunk from rfl) rfl

end TlsNotary
