import TlsNotary.Session.Handlers

/-!
# Reads after writes in a session run

The gate is meant to order the handlers so that one that reads a field runs after one
that assigned it. The proof rests on one invariant, `Consistent`: a run's accesses are
those of the handlers `msgsSeen` records, plus those of the calls it does not record.
The table facts about the handlers are checked by evaluation. `PrepTagVerification`,
which the gate does not order, can read the IV and key shares before `C3_step1`
assigns them.
-/
namespace TlsNotary

open scoped List

/-- Left inverse of `Command.seqNo`. -/
def Command.ofSeqNo (n : Int) : Option Command :=
  [Command.init, .getBlob, .setBlob, .getUploadProgress, .step1, .step2, .step3, .step4,
    .c1Step1, .c1Step2, .c1Step3, .c1Step4, .c1Step5, .c2Step1, .c2Step2, .c2Step3, .c2Step4,
    .c3Step1, .c3Step2, .c4Step1, .c4Step2, .c4Step3, .c5Pre1, .c5Step1, .c5Step2, .c5Step3,
    .c6Step1, .c6Pre2, .c6Step2, .c7Step1, .c7Step2, .ghashStep1, .ghashStep2, .ghashStep3,
    .commitHash].find? (·.seqNo == n)

theorem Command.ofSeqNo_seqNo : ∀ c : Command, Command.ofSeqNo c.seqNo = some c := by decide

theorem Command.seqNo_inj {c c' : Command} (h : c.seqNo = c'.seqNo) : c = c' := by
  have hc := Command.ofSeqNo_seqNo c
  rw [h, Command.ofSeqNo_seqNo] at hc
  exact (Option.some.inj hc).symm

theorem Command.seqNo_ne_tagVerification : ∀ c : Command, c.seqNo ≠ 36 := by decide

variable {ivShareLen : Nat}

/-- The accesses of the calls `sequenceCheck` does not record. -/
def unrecordedOps : List Op :=
  Command.getUploadProgress.ops ++ [.read .sivShare, .read .swkShare, .write .tagMask,
    .write .pohMask, .read .tagMask, .read .pohMask]

theorem Call.accesses_unrecorded {s : Session} {c : Call} (hc : ∀ cmd, c ≠ .command cmd) :
    ∀ op ∈ c.accesses ivShareLen s, op ∈ unrecordedOps := by
  cases c with
  | command cmd => exact absurd rfl (hc cmd)
  | prepTagVerification req tv => simp only [Call.accesses]; split <;> simp [unrecordedOps]
  | pollTagVerification => simp [Call.accesses, unrecordedOps]
  | tagVerification => simp only [Call.accesses]; split <;> simp [unrecordedOps]

/-- The trace and the gate's record agree: the accesses of every recorded handler
are in the trace, and the trace holds nothing else but unrecorded calls' accesses. -/
structure Consistent (s : Session) : Prop where
  seen : SeenWellFormed s.msgsSeen
  recorded : ∀ c : Command, c.seqNo ∈ s.msgsSeen → ∀ op ∈ c.ops, op ∈ s.trace
  emitted : ∀ op ∈ s.trace, op ∈ unrecordedOps ∨ ∃ c : Command, c.seqNo ∈ s.msgsSeen ∧ op ∈ c.ops
  masks : (.write .tagMask ∈ s.trace ∧ .write .pohMask ∈ s.trace) ∨
    (s.tagMask = "" ∧ s.pohMask = "")

theorem Consistent.new : Consistent Session.new :=
  ⟨SeenWellFormed.nil, by simp [Session.new], by simp [Session.new], .inr ⟨rfl, rfl⟩⟩

theorem Call.eq_command_of_seqNo? {c : Call} {cmd : Command} (h : c.seqNo? = some cmd.seqNo) :
    c = .command cmd := by
  cases c with
  | command c => exact congrArg _ (Command.seqNo_inj (Option.some.inj h))
  | prepTagVerification | pollTagVerification => cases h
  | tagVerification => exact absurd (Option.some.inj h).symm (Command.seqNo_ne_tagVerification cmd)

theorem call_msgsSeen {s s' : Session} {c : Call} (h : s.call ivShareLen c = .ok s') :
    s'.msgsSeen = s.msgsSeen ∨
      ∃ n, c.seqNo? = some n ∧ n ∉ s.msgsSeen ∧ s'.msgsSeen = s.msgsSeen ++ [n] := by
  obtain ⟨-, hgate, hfree, -⟩ := call_eq_ok ivShareLen h
  cases hn : c.seqNo? with
  | none => exact .inl (hfree hn)
  | some n =>
    rcases sequenceCheck_eq_ok (hgate n hn) with ⟨-, -, -, h'⟩ | ⟨-, hdup, -, h'⟩
    · exact .inl h'
    · exact .inr ⟨n, rfl, hdup, h'⟩

theorem Consistent.call {s s' : Session} {c : Call} (hc : Consistent s)
    (h : s.call ivShareLen c = .ok s') : Consistent s' := by
  obtain ⟨htrace, hgate, hfree, hmask⟩ := call_eq_ok ivShareLen h
  have hseen : SeenWellFormed s'.msgsSeen := by
    cases hn : c.seqNo? with
    | none => exact hfree hn ▸ hc.seen
    | some n => exact hc.seen.of_sequenceCheck (hgate n hn)
  have hsub : ∀ n ∈ s.msgsSeen, n ∈ s'.msgsSeen := by
    intro m hm
    rcases call_msgsSeen h with h' | ⟨n, -, -, h'⟩ <;> simp [h', hm]
  have hrec : ∀ cmd : Command, cmd.seqNo ∈ s'.msgsSeen →
      cmd.seqNo ∈ s.msgsSeen ∨ c = .command cmd := by
    intro cmd hmem
    rcases call_msgsSeen h with h' | ⟨n, hn, -, h'⟩
    · exact .inl (h' ▸ hmem)
    · rw [h', List.mem_append, List.mem_singleton] at hmem
      exact hmem.imp_right fun (he : cmd.seqNo = n) => Call.eq_command_of_seqNo? (he ▸ hn)
  have hnew : ∀ op ∈ c.accesses ivShareLen s,
      op ∈ unrecordedOps ∨ ∃ cmd : Command, cmd.seqNo ∈ s'.msgsSeen ∧ op ∈ cmd.ops := by
    cases c with
    | command cmd =>
      intro op hop
      rcases sequenceCheck_eq_ok (hgate cmd.seqNo rfl) with ⟨h100, -⟩ | ⟨-, -, -, h'⟩
      · have : cmd = .getUploadProgress := Command.seqNo_inj h100
        subst this
        exact .inl (List.mem_append_left _ hop)
      · exact .inr ⟨cmd, by simp [h'], hop⟩
    | _ => exact fun op hop => .inl (Call.accesses_unrecorded (fun _ hc => by cases hc) op hop)
  refine ⟨hseen, fun cmd hcmd op hop => ?_, fun op hop => ?_, ?_⟩
  · rw [htrace, List.mem_append]
    rcases hrec cmd hcmd with hold | rfl
    · exact .inl (hc.recorded cmd hold op hop)
    · exact .inr hop
  · rw [htrace, List.mem_append] at hop
    rcases hop with hop | hop
    · exact (hc.emitted op hop).imp_right fun ⟨cmd, hcmd, hop⟩ => ⟨cmd, hsub _ hcmd, hop⟩
    · exact hnew op hop
  · rcases hmask with ⟨tm, pm, rfl⟩ | ⟨htm, hpm⟩
    · exact .inl (by simp [htrace, Call.accesses])
    · rw [htm, hpm, htrace]
      exact hc.masks.imp_left fun ⟨h1, h2⟩ => ⟨List.mem_append_left _ h1, List.mem_append_left _ h2⟩

/-- Every read of a field in `t` comes after a write of it. -/
def ReadsAfterWrites (t : List Op) : Prop :=
  ∀ t₁ f t₂, t = t₁ ++ .read f :: t₂ → .write f ∈ t₁

/-- The fields `o` reads before it writes them itself. -/
def firstReads : List Op → List Field
  | [] => []
  | .read f :: o => f :: firstReads o
  | .write f :: o => (firstReads o).filter (· != f)

theorem ReadsAfterWrites.nil : ReadsAfterWrites [] := fun t₁ _ _ h => by
  cases t₁ <;> cases h

theorem mem_firstReads {a b : List Op} {f : Field} :
    .write f ∈ a ∨ f ∈ firstReads (a ++ .read f :: b) := by
  induction a with
  | nil => simp [firstReads]
  | cons op a ih =>
    rcases ih with h | h
    · exact .inl (List.mem_cons_of_mem _ h)
    · cases op with
      | read g => exact .inr (List.mem_cons_of_mem _ h)
      | write g =>
        by_cases hg : f = g
        · exact .inl (hg ▸ List.mem_cons_self _ _)
        · exact .inr (by simpa [firstReads, hg] using h)

theorem ReadsAfterWrites.append {t o : List Op} (ht : ReadsAfterWrites t)
    (ho : ∀ f ∈ firstReads o, .write f ∈ t) : ReadsAfterWrites (t ++ o) := by
  intro t₁ f t₂ h
  rcases List.append_eq_append_iff.1 h with ⟨a, rfl, rfl⟩ | ⟨c, rfl, hc⟩
  · rcases @mem_firstReads a t₂ f with hw | hf
    · exact List.mem_append_right _ hw
    · exact List.mem_append_left _ (ho f hf)
  · cases c with
    | nil =>
      simp only [List.nil_append] at hc
      simpa [← hc, firstReads] using ho f
    | cons op c =>
      obtain ⟨rfl, -⟩ := List.cons.inj hc
      exact ht t₁ f c rfl

/-- The handler that assigns each field; `PollTagVerification` assigns the masks. -/
def Field.writer : Field → Option Command
  | .clientKey | .notaryKey | .storageDir | .truthTables | .decodingTables => some .init
  | .streamCounter => some .setBlob
  | .serverPubkey => some .step1
  | .notaryPMSShare => some .step4
  | .pmsOuterHashState => some .c1Step3
  | .msOuterHashState => some .c2Step3
  | .swkShare | .cwkShare | .sivShare | .civShare => some .c3Step1
  | .hisCommitment c | .encodedOutput c => match c with
    | 1 => some .c1Step2 | 2 => some .c2Step2 | 3 => some .c3Step2 | 4 => some .c4Step2
    | 5 => some .c5Step2 | 6 => some .c6Pre2 | 7 => some .c7Step2 | _ => none
  | .c6CheckValue => some .c6Pre2
  | .gctrBlockShare => some .c7Step1
  | .ghashInputsBlob => some .ghashStep3
  | .tagMask | .pohMask => none

/-- Whether the gate has recorded `k` by the time it lets `n` in. -/
def gateRequires (n k : Int) : Bool :=
  (n == 100 && k == 4) || (5 ≤ n && n != 100 && 4 ≤ k && k < n && k != 33)

/-- `gateRequires`, or `Init`'s 1, which every run starts with. -/
def required (n k : Int) : Bool := k == 1 || gateRequires n k

theorem SeenWellFormed.mem_of_gateRequires {seen seen' : List Int} {n k : Int}
    (hw : SeenWellFormed seen) (h : sequenceCheck seen n = .ok seen')
    (hk : gateRequires n k = true) : k ∈ seen := by
  simp only [gateRequires, Bool.or_eq_true, Bool.and_eq_true, beq_iff_eq, bne_iff_ne, ne_eq,
    decide_eq_true_eq] at hk
  rcases sequenceCheck_eq_ok h with ⟨rfl, h4, -⟩ | ⟨h100, -, hpred, -⟩
  · rcases hk with ⟨-, rfl⟩ | ⟨⟨⟨⟨-, h⟩, -⟩, -⟩, -⟩
    · exact h4
    · exact absurd rfl h
  · rcases hk with ⟨rfl, -⟩ | ⟨⟨⟨⟨hn, -⟩, hk4⟩, hkn⟩, hk33⟩
    · exact absurd rfl h100
    · exact hw.mem_of_accepted hn hpred hk4 hkn hk33

theorem SeenWellFormed.mem_of_required {seen seen' : List Int} {n k : Int}
    (hw : SeenWellFormed seen) (h1 : 1 ∈ seen) (h : sequenceCheck seen n = .ok seen')
    (hk : required n k = true) : k ∈ seen := by
  rcases Bool.or_eq_true _ _ ▸ hk with hk | hk
  · exact (beq_iff_eq.1 hk) ▸ h1
  · exact hw.mem_of_gateRequires h hk

/-- Every handler reads only fields that a handler the gate runs first assigns. -/
theorem Command.firstReads_written : ∀ c : Command, ∀ f ∈ firstReads c.ops,
    ∃ w, f.writer = some w ∧ required c.seqNo w.seqNo = true ∧ .write f ∈ w.ops := by
  decide

theorem ReadsAfterWrites.call {s s' : Session} {c : Call} (hc : Consistent s)
    (h1 : 1 ∈ s.msgsSeen) (hr : ReadsAfterWrites s.trace)
    (hprep : ∀ req tv, c ≠ .prepTagVerification req tv) (h : s.call ivShareLen c = .ok s') :
    ReadsAfterWrites s'.trace := by
  obtain ⟨htrace, hgate, -, -⟩ := call_eq_ok ivShareLen h
  rw [htrace]
  refine hr.append fun f hf => ?_
  cases c with
  | command cmd =>
    obtain ⟨w, -, hreq, hw⟩ := Command.firstReads_written cmd f hf
    exact hc.recorded w (hc.seen.mem_of_required h1 (hgate _ rfl) hreq) _ hw
  | prepTagVerification req tv => exact absurd rfl (hprep req tv)
  | pollTagVerification => simp [Call.accesses, firstReads] at hf
  | tagVerification =>
    simp only [Call.accesses] at hf
    split at hf
    · rename_i hready
      rcases hc.masks with ⟨htm, hpm⟩ | ⟨htm, hpm⟩
      · simp only [firstReads, List.mem_cons, List.mem_singleton, List.not_mem_nil, or_false] at hf
        rcases hf with rfl | rfl <;> assumption
      · simp [Session.tagMasksReady, htm, hpm] at hready
    · simp [firstReads] at hf

/-- The honest order after `Init` up to the check of circuit 1's decommitment. -/
def circuit1Commands : List Command :=
  [.getBlob, .setBlob, .step1, .step2, .step3, .step4, .c1Step1, .c1Step2, .c1Step3]

/-- The request that reaches `HandlePrepTagVerification` before `C3_step1`: an
empty client IV share, whose length is that of the nil `sivShare`, and an 8-byte
record IV. -/
def earlyPrepRequest : PrepRequest := ⟨[], List.replicate 8 0⟩

/-- Right after `Init`, `PrepTagVerification` with `earlyPrepRequest` passes both
length checks and, when the manager starts the MPC, replies with no error; it has
handed over `sivShare` and `swkShare`, which no handler has assigned yet. -/
theorem prepTagVerification_reads_unassigned_sivShare (ivShareLen : Nat) :
    runCalls ivShareLen Session.new [.command .init] = .ok ⟨[1], Command.init.ops, "", ""⟩ ∧
    Session.prepTagVerification ivShareLen ⟨[1], Command.init.ops, "", ""⟩
      (some earlyPrepRequest) none = (none, true) ∧
    runCalls ivShareLen Session.new [.command .init, .prepTagVerification (some earlyPrepRequest) none] =
      .ok ⟨[1], Command.init.ops ++ [.read .sivShare, .read .swkShare], "", ""⟩ ∧
    ¬ ReadsAfterWrites (Command.init.ops ++ [.read .sivShare, .read .swkShare]) :=
  ⟨rfl, rfl, rfl, fun h => absurd (h _ _ _ rfl) (by decide)⟩

end TlsNotary
