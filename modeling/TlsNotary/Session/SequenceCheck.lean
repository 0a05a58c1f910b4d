import Mathlib.Data.List.Nodup

/-!
# Message ordering of one session

`Session.sequenceCheck` is the only gate on the order of a client's messages.
It panics on a repeated number and on a number whose predecessor was not seen,
and records every accepted number except `GetUploadProgress` (100). A run feeds
the numbers of the called handlers to it in order, from the empty `msgsSeen` of
a new session; the first panic ends the run.
-/
namespace TlsNotary

open scoped List

/-- `utils.Contains`. -/
def contains (n : Int) : List Int → Bool
  | [] => false
  | v :: h => v == n || contains n h

@[simp] theorem contains_iff {n : Int} {h : List Int} : contains n h = true ↔ n ∈ h := by
  induction h with
  | nil => simp [contains]
  | cons v h ih => simp [contains, ih, @eq_comm _ v]

@[simp] theorem contains_eq_false {n : Int} {h : List Int} : contains n h = false ↔ n ∉ h := by
  rw [← contains_iff, Bool.not_eq_true]

/-- `Session.sequenceCheck`: the new `msgsSeen`, or the panic message. -/
def sequenceCheck (msgsSeen : List Int) (seqNo : Int) : Except String (List Int) :=
  if seqNo = 100 then
    if contains 4 msgsSeen && !contains 9 msgsSeen then .ok msgsSeen
    else .error "msg No 5 received out of order"
  else if contains seqNo msgsSeen then .error "message sent twice"
  else if !contains (seqNo - 1) msgsSeen then
    if contains seqNo [1, 3, 4] || (seqNo == 34 && contains 32 msgsSeen) then
      .ok (msgsSeen ++ [seqNo])
    else .error "previous message not seen"
  else .ok (msgsSeen ++ [seqNo])

theorem sequenceCheck_eq_ok {seen seen' : List Int} {n : Int}
    (h : sequenceCheck seen n = .ok seen') :
    (n = 100 ∧ 4 ∈ seen ∧ 9 ∉ seen ∧ seen' = seen) ∨
    (n ≠ 100 ∧ n ∉ seen ∧ (n - 1 ∈ seen ∨ n = 1 ∨ n = 3 ∨ n = 4 ∨ (n = 34 ∧ 32 ∈ seen)) ∧
      seen' = seen ++ [n]) := by
  unfold sequenceCheck at h
  by_cases h100 : n = 100
  · simp only [h100, if_true, Bool.and_eq_true, Bool.not_eq_true', contains_iff] at h
    split_ifs at h with hc
    cases h
    exact .inl ⟨h100, hc.1, by simpa using hc.2, rfl⟩
  · simp only [h100, if_false, contains_iff, Bool.not_eq_true', Bool.or_eq_true,
      Bool.and_eq_true, beq_iff_eq, List.mem_cons, List.mem_singleton, List.not_mem_nil,
      or_false] at h
    split_ifs at h with hdup hprev hok <;> cases h
    · exact .inr ⟨h100, hdup, .inr ((or_assoc.1 hok).imp_right or_assoc.1), rfl⟩
    · exact .inr ⟨h100, hdup, .inl (by simpa using hprev), rfl⟩

/-- Feed the numbers of the called handlers to `sequenceCheck` in order. -/
def runChecks (seen : List Int) : List Int → Except String (List Int)
  | [] => .ok seen
  | n :: ns => (sequenceCheck seen n).bind (runChecks · ns)

theorem runChecks_cons_eq_ok {seen seen' : List Int} {n : Int} {ns : List Int}
    (h : runChecks seen (n :: ns) = .ok seen') :
    ∃ mid, sequenceCheck seen n = .ok mid ∧ runChecks mid ns = .ok seen' := by
  simp only [runChecks] at h
  cases hs : sequenceCheck seen n with
  | error e => simp [hs, Except.bind] at h
  | ok mid => exact ⟨mid, rfl, by simpa [hs, Except.bind] using h⟩

/-- A run records exactly its numbers other than 100, in order. -/
theorem runChecks_eq_filter {seen seen' : List Int} {calls : List Int}
    (h : runChecks seen calls = .ok seen') :
    seen' = seen ++ calls.filter (fun n => n != 100) := by
  induction calls generalizing seen with
  | nil => simpa [runChecks] using h.symm
  | cons n ns ih =>
    obtain ⟨mid, hs, hr⟩ := runChecks_cons_eq_ok h
    rcases sequenceCheck_eq_ok hs with ⟨rfl, -, -, rfl⟩ | ⟨h100, -, -, rfl⟩
    · simpa using ih hr
    · simpa [h100] using ih hr

/-- What `msgsSeen` satisfies after every run: no repeats, no 100, and each
number from 5 on comes after every number from 4 up to it, the optional 33 apart. -/
structure SeenWellFormed (seen : List Int) : Prop where
  nodup : seen.Nodup
  no_progress : 100 ∉ seen
  ordered : ∀ k ∈ seen, 5 ≤ k → ∀ j, 4 ≤ j → j < k → j ≠ 33 → [j, k] <+ seen

theorem SeenWellFormed.nil : SeenWellFormed [] := ⟨List.nodup_nil, by simp, by simp⟩

theorem SeenWellFormed.mem_of_le {seen : List Int} {p j : Int} (hw : SeenWellFormed seen)
    (hp : p ∈ seen) (hj : 4 ≤ j) (hjp : j ≤ p) (h33 : j ≠ 33) : j ∈ seen := by
  rcases hjp.eq_or_lt with rfl | hlt
  · exact hp
  · exact (hw.ordered p hp (by omega) j hj hlt h33).subset (List.mem_cons_self j _)

/-- The gate lets `n ≥ 5` in only once all of 4, ..., `n - 1` but 33 are recorded. -/
theorem SeenWellFormed.mem_of_accepted {seen : List Int} {n j : Int} (hw : SeenWellFormed seen)
    (hn : 5 ≤ n) (hpred : n - 1 ∈ seen ∨ n = 1 ∨ n = 3 ∨ n = 4 ∨ (n = 34 ∧ 32 ∈ seen))
    (hj : 4 ≤ j) (hjn : j < n) (h33 : j ≠ 33) : j ∈ seen := by
  rcases hpred with hp | h | h | h | ⟨rfl, hp⟩
  · exact hw.mem_of_le hp hj (by omega) h33
  all_goals first | omega | exact hw.mem_of_le hp hj (by omega) h33

theorem SeenWellFormed.of_sequenceCheck {seen seen' : List Int} {n : Int} (hw : SeenWellFormed seen)
    (h : sequenceCheck seen n = .ok seen') : SeenWellFormed seen' := by
  rcases sequenceCheck_eq_ok h with ⟨-, -, -, rfl⟩ | ⟨h100, hdup, hpred, rfl⟩
  · exact hw
  refine ⟨hw.nodup.append (List.nodup_singleton n) (by simpa using hdup), by simp [hw.no_progress,
    Ne.symm h100], fun k hk hk5 j hj hjk h33 => ?_⟩
  rcases List.mem_append.1 hk with hk | hk
  · exact (hw.ordered k hk hk5 j hj hjk h33).trans (List.sublist_append_left _ _)
  · obtain rfl := List.mem_singleton.1 hk
    exact List.Sublist.append (List.singleton_sublist.2 (hw.mem_of_accepted hk5 hpred hj hjk h33))
      (List.Sublist.refl [k])

theorem SeenWellFormed.of_runChecks {seen seen' : List Int} {calls : List Int}
    (hw : SeenWellFormed seen) (h : runChecks seen calls = .ok seen') : SeenWellFormed seen' := by
  induction calls generalizing seen with
  | nil => simp only [runChecks, Except.ok.injEq] at h; exact h ▸ hw
  | cons n ns ih =>
    obtain ⟨mid, hs, hr⟩ := runChecks_cons_eq_ok h
    exact ih (hw.of_sequenceCheck hs) hr

/-- Over every run of a new session, `msgsSeen` never repeats a number, never holds
`GetUploadProgress` (100), and records each number from 5 on after every number from
4 up to it other than the optional `Ghash_step2` (33). -/
theorem runChecks_seenWellFormed {calls seen : List Int} (h : runChecks [] calls = .ok seen) :
    SeenWellFormed seen :=
  SeenWellFormed.nil.of_runChecks h

theorem runChecks_seenWellFormed_upload :
    runChecks [] [1, 3, 4, 100, 5, 6] = .ok [1, 3, 4, 5, 6] ∧ SeenWellFormed [1, 3, 4, 5, 6] :=
  ⟨rfl, @runChecks_seenWellFormed [1, 3, 4, 100, 5, 6] _ rfl⟩

theorem eq_of_pair_sublist_swap {α : Type} {l : List α} {a b : α} (hl : l.Nodup)
    (hab : [a, b] <+ l) (hba : [b, a] <+ l) : a = b := by
  induction l with
  | nil => simp at hab
  | cons x l ih =>
    obtain ⟨hx, hl⟩ := List.nodup_cons.1 hl
    rcases List.sublist_cons_iff.1 hab with hab' | ⟨_, hax, -⟩ <;>
      rcases List.sublist_cons_iff.1 hba with hba' | ⟨_, hbx, -⟩
    · exact ih hl hab' hba'
    · cases hbx; exact (hx (hab'.subset (by simp))).elim
    · cases hax; exact (hx (hba'.subset (by simp))).elim
    · cases hax; cases hbx; rfl

/-- Among the numbers the gate records, every number but 33 is accepted after all
smaller ones from 4 on: accepted later means larger. -/
theorem runChecks_accepts_increasing {calls seen : List Int} (h : runChecks [] calls = .ok seen)
    {k j : Int} (hkj : [k, j] <+ calls) (hk : 4 ≤ k) (hj : 4 ≤ j) (hk100 : k ≠ 100)
    (hj100 : j ≠ 100) (hj33 : j ≠ 33) : k < j := by
  have hw := runChecks_seenWellFormed h
  have hseen : [k, j] <+ seen := by
    rw [runChecks_eq_filter h, List.nil_append]
    simpa [hk100, hj100] using hkj.filter (fun n => n != 100)
  by_contra hle
  have hne : k ≠ j := fun he => List.nodup_iff_sublist.1 hw.nodup k (he ▸ hseen)
  have hjk : [j, k] <+ seen :=
    hw.ordered k (hseen.subset (by simp)) (by omega) j hj (by omega) hj33
  exact hne (eq_of_pair_sublist_swap hw.nodup hseen hjk)

theorem runChecks_accepts_increasing_step1 :
    runChecks [] [1, 4, 5] = .ok [1, 4, 5] ∧ (4 : Int) < 5 :=
  ⟨rfl, @runChecks_accepts_increasing [1, 4, 5] _ rfl 4 5 (by decide) (by decide) (by decide)
    (by decide) (by decide) (by decide)⟩

/-- The honest order up to `Ghash_step1` with one upload poll, then `Ghash_step3`,
`CommitHash` and, last, the skipped optional `Ghash_step2`. -/
def lateGhashStep2 : List Int :=
  [1, 3, 4, 100] ++ (List.range 28).map (fun i : Nat => (i : Int) + 5) ++ [34, 35, 33]

/-- The gate accepts the whole of `lateGhashStep2`, in which `Step1` follows
`GetUploadProgress` and `Ghash_step2` follows `CommitHash`. -/
theorem runChecks_accepts_out_of_order :
    (runChecks [] lateGhashStep2).isOk = true ∧ [100, 5] <+ lateGhashStep2 ∧
      [35, 33] <+ lateGhashStep2 :=
  ⟨rfl, by decide, by decide⟩

end TlsNotary
