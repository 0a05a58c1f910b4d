import TlsNotary.Session.Handlers
import TlsNotary.Server.TagVerification

/-!
# A session's polls beside the tag-verification manager

`Session.PollTagVerification` asks the manager for the session's masks and then
assigns both fields, `s.tagMask` and `s.pohMask`, from the reply, whatever it holds.
The assignment takes no lock, so it is a step of its own: a reply to one of the
session's polls is received first and stored later, while the manager goes on with
any session's calls. The manager hands the masks out once, to the poll that holds the
write lock; that receive also resets its owner, and every read-locked check answers
with empty masks.
-/
namespace TlsNotary

/-- The session of the poll that waits on the channels. -/
def Drain.sid : Drain → String
  | .waitIv sid | .waitPoh sid _ => sid

/-- One session beside the tag-verification manager. -/
structure PollingState where
  session : Session
  tv : TagVerificationManager
  /-- Replies the session's `PollTagVerification` calls have received, not yet stored. -/
  received : List PollReply

/-- What can happen: a step of the manager, for any session, or one of this session's
`PollTagVerification` calls storing the reply it received. -/
inductive PollEvent
  | tv (e : TvEvent)
  | store (reply : PollReply)

namespace PollingState

/-- A new session and a new manager. -/
def init : PollingState := ⟨Session.new, .new, []⟩

section
variable (ivShareLen : Nat) (sid : String)

/-- The reply, if it answers a poll of `sid`. -/
def replyTo : Option TvReply → Option PollReply
  | some (.poll sid' reply) => if sid' = sid then some reply else none
  | _ => none

/-- One step, and the manager's reply it completes. -/
def step (p : PollingState) : PollEvent → Option (PollingState × Option TvReply)
  | .tv e => (p.tv.step e).map fun (tv', r) =>
    (⟨p.session, tv', p.received ++ (replyTo sid r).toList⟩, r)
  | .store reply =>
    if reply ∈ p.received then
      match p.session.call ivShareLen (.pollTagVerification reply.tagMask reply.pohMask) with
      | .ok session => some (⟨session, p.tv, p.received.erase reply⟩, none)
      | .error _ => none
    else none

/-- A reply is kept for `sid` only if it answers a poll of `sid`. -/
theorem replyTo_eq_some {r : Option TvReply} {x : PollReply} (h : x ∈ (replyTo sid r).toList) :
    r = some (.poll sid x) := by
  unfold replyTo at h
  split at h
  · split at h
    · simp_all
    · cases h
  · cases h

/-- Run the events in order, collecting the manager's replies. -/
def run (p : PollingState) : List PollEvent → Option (PollingState × List TvReply)
  | [] => some (p, [])
  | e :: es => (p.step ivShareLen sid e).bind fun (p', r) =>
    (p'.run es).map fun (p'', rs) => (p'', r.toList ++ rs)

/-- A stored reply's masks become the session's; a manager step leaves the session. -/
theorem step_session {p p' : PollingState} {e : PollEvent} {r : Option TvReply}
    (h : p.step ivShareLen sid e = some (p', r)) :
    (∃ tv', e = .tv tv' ∧ p'.session = p.session ∧ p'.received = p.received ++ (replyTo sid r).toList ∧
      p.tv.step tv' = some (p'.tv, r)) ∨
    (∃ reply, e = .store reply ∧ reply ∈ p.received ∧ p'.tv = p.tv ∧
      p'.received = p.received.erase reply ∧ p'.session.tagMask = reply.tagMask ∧
      p'.session.pohMask = reply.pohMask) := by
  cases e with
  | tv e =>
    simp only [step, Option.map_eq_some'] at h
    obtain ⟨⟨tv', r'⟩, hs, heq⟩ := h
    cases heq
    exact .inl ⟨e, rfl, rfl, rfl, hs⟩
  | store reply =>
    simp only [step] at h
    split at h
    · cases h
      exact .inr ⟨reply, rfl, ‹_›, rfl, rfl, rfl, rfl⟩
    · cases h

theorem run_cons_eq_some {p p'' : PollingState} {e : PollEvent} {es : List PollEvent}
    {rs : List TvReply} (h : p.run ivShareLen sid (e :: es) = some (p'', rs)) :
    ∃ p' r rs', p.step ivShareLen sid e = some (p', r) ∧ p'.run ivShareLen sid es = some (p'', rs') := by
  simp only [run, Option.bind_eq_some, Option.map_eq_some'] at h
  obtain ⟨⟨p', r⟩, hs, ⟨_, rs'⟩, hrun, hr⟩ := h
  cases hr
  exact ⟨p', r, rs', hs, hrun⟩

end

/-- No poll of `sid` waits for the write lock or holds it, and `sid` owns the manager
only if it is `_SYSTEM`, whose polls the read-locked check refuses. -/
def Quiet (sid : String) (t : TagVerificationManager) : Prop :=
  (t.owner = sid → sid = systemOwner) ∧ sid ∉ t.pollers ∧ ∀ d ∈ t.writer, d.sid ≠ sid

instance (sid : String) (t : TagVerificationManager) : Decidable (Quiet sid t) :=
  inferInstanceAs (Decidable (_ ∧ _ ∧ _))

/-- The manager is quiet for `sid` and every reply `sid` has received is empty. -/
def Cleared (sid : String) (p : PollingState) : Prop :=
  Quiet sid p.tv ∧ ∀ r ∈ p.received, r.tagMask = "" ∧ r.pohMask = ""

instance (sid : String) (p : PollingState) : Decidable (Cleared sid p) :=
  inferInstanceAs (Decidable (_ ∧ _))

/-- Every manager step but a prep of `sid` that finds the ports free keeps the manager
quiet for `sid`, and answers `sid`'s polls with empty masks. -/
theorem Quiet.step {sid : String} (hsid : sid ≠ "") {t t' : TagVerificationManager} {e : TvEvent}
    {r : Option TvReply} (hq : Quiet sid t) (he : e ≠ .prep sid true true)
    (h : t.step e = some (t', r)) :
    Quiet sid t' ∧ ∀ reply, r = some (.poll sid reply) → reply.tagMask = "" ∧ reply.pohMask = "" := by
  obtain ⟨hown, hpoll, hwr⟩ := hq
  refine ⟨?_, fun reply hr => ?_⟩
  · rcases TagVerificationManager.step_cases h with ⟨sid', p, q, rfl, -, rfl⟩ | ⟨sid', rfl, -, -⟩ |
      ⟨sid', rfl, -, hp, rfl⟩ | ⟨s, m, rfl, hw, -, rfl⟩ | ⟨s, m, m', rfl, hw, -, rfl⟩ |
      ⟨_, _, rfl, -, -, rfl⟩ | ⟨_, _, rfl, -, -, rfl⟩
    · rcases TagVerificationManager.handlePrep_cases t sid' p q with h' | ⟨-, -, h'⟩ |
        ⟨-, -, -, h'⟩ | ⟨-, rfl, rfl, h'⟩ <;> rw [h']
      · exact ⟨hown, hpoll, hwr⟩
      · refine ⟨fun ho => ?_, hpoll, hwr⟩
        split_ifs at ho
        · exact ho.symm
        · exact hown ho
      · exact ⟨hown, hpoll, hwr⟩
      · exact ⟨fun ho => absurd (by rw [← ho]) he, hpoll, hwr⟩
    · rcases TagVerificationManager.step_pollCheck h with ⟨rfl, -⟩ | ⟨hn, rfl, -⟩
      · exact ⟨hown, hpoll, hwr⟩
      · obtain ⟨ho, hsys⟩ := TagVerificationManager.pollCheck_eq_none hn
        refine ⟨hown, fun hm => ?_, hwr⟩
        rcases List.mem_append.1 hm with hm | hm
        · exact hpoll hm
        · obtain rfl := List.mem_singleton.1 hm
          exact hsys (hown ho)
    · refine ⟨hown, fun hm => hpoll (List.mem_of_mem_erase hm), fun d hd => ?_⟩
      cases hd
      exact fun hs : sid' = sid => hpoll (hs ▸ hp)
    · refine ⟨hown, hpoll, fun d hd => ?_⟩
      cases hd
      exact hwr (.waitIv s) hw
    · exact ⟨fun ho => absurd ho.symm hsid, hpoll, fun d hd => nomatch hd⟩
    · exact ⟨hown, hpoll, hwr⟩
    · exact ⟨hown, hpoll, hwr⟩
  · subst hr
    rcases TagVerificationManager.step_poll_reply h with hm | ⟨-, m, hw⟩
    · exact hm
    · exact absurd rfl (hwr _ hw)

/-- A step of the combined system keeps `sid` cleared; a stored reply empties the
session's masks, and every other step leaves them. -/
theorem Cleared.step {ivShareLen : Nat} {sid : String} (hsid : sid ≠ "") {p p' : PollingState}
    {e : PollEvent} {r : Option TvReply} (hc : Cleared sid p) (he : e ≠ .tv (.prep sid true true))
    (h : p.step ivShareLen sid e = some (p', r)) :
    Cleared sid p' ∧ (∀ reply, e = .store reply → p'.session.tagMask = "" ∧ p'.session.pohMask = "") ∧
      ((∀ reply, e ≠ .store reply) →
        p'.session.tagMask = p.session.tagMask ∧ p'.session.pohMask = p.session.pohMask) := by
  obtain ⟨hq, hr⟩ := hc
  rcases step_session ivShareLen sid h with ⟨tv', rfl, hs, hrec, htv⟩ | ⟨reply, rfl, hmem, htv, hrec, htm, hpm⟩
  · obtain ⟨hq', hempty⟩ := hq.step hsid (fun h => he (h ▸ rfl)) htv
    refine ⟨⟨hq', fun x hx => ?_⟩, fun _ h => (nomatch h), fun _ => hs ▸ ⟨rfl, rfl⟩⟩
    rcases List.mem_append.1 (hrec ▸ hx) with hx | hx
    · exact hr x hx
    · exact hempty x (replyTo_eq_some sid hx)
  · refine ⟨⟨htv ▸ hq, fun x hx => hr x (List.mem_of_mem_erase (hrec ▸ hx))⟩,
      fun _ h => ?_, fun hne => absurd rfl (hne reply)⟩
    cases h
    rw [htm, hpm]
    exact hr reply hmem

/-- Over every run from a state where `sid` is cleared, and in which no prep of `sid`
starts a new MPC run, `sid` stays cleared: once a reply has been stored the session's
masks are empty, and until then they are as they were. -/
theorem polls_after_reset_store_empty_masks {ivShareLen : Nat} {sid : String} (hsid : sid ≠ "")
    (es : List PollEvent) {p p' : PollingState} {rs : List TvReply} (hc : Cleared sid p)
    (he : ∀ e ∈ es, e ≠ .tv (.prep sid true true)) (h : p.run ivShareLen sid es = some (p', rs)) :
    Cleared sid p' ∧
      ((∃ reply, .store reply ∈ es) → p'.session.tagMask = "" ∧ p'.session.pohMask = "") ∧
      ((∀ reply, .store reply ∉ es) →
        p'.session.tagMask = p.session.tagMask ∧ p'.session.pohMask = p.session.pohMask) := by
  induction es generalizing p rs with
  | nil =>
    simp only [run, Option.some.injEq, Prod.mk.injEq] at h
    obtain ⟨rfl, -⟩ := h
    exact ⟨hc, fun ⟨_, hm⟩ => (nomatch hm), fun _ => ⟨rfl, rfl⟩⟩
  | cons e es ih =>
    obtain ⟨p₁, r, rs₁, h₁, hrun⟩ := run_cons_eq_some ivShareLen sid h
    obtain ⟨hc₁, hstore₁, hkeep₁⟩ := hc.step hsid (he e (List.mem_cons_self _ _)) h₁
    obtain ⟨hc', hstore, hkeep⟩ := ih hc₁ (fun e' h' => he e' (List.mem_cons_of_mem _ h')) hrun
    refine ⟨hc', fun ⟨reply, hm⟩ => ?_, fun hno => ?_⟩
    · rcases List.mem_cons.1 hm with rfl | hm
      · by_cases hlater : ∃ reply, PollEvent.store reply ∈ es
        · exact hstore hlater
        · obtain ⟨htm, hpm⟩ := hkeep fun r hr => hlater ⟨r, hr⟩
          rw [htm, hpm]
          exact hstore₁ reply rfl
      · exact hstore ⟨reply, hm⟩
    · obtain ⟨htm, hpm⟩ := hkeep (fun r hr => hno r (List.mem_cons_of_mem _ hr))
      obtain ⟨htm₁, hpm₁⟩ := hkeep₁ (fun r hr => hno r (hr ▸ List.mem_cons_self _ _))
      exact ⟨htm.trans htm₁, hpm.trans hpm₁⟩

/-- `A` preps, both runs send, one poll of `A` drains the masks, and `A` stores the
reply. -/
def completedPoll : List PollEvent :=
  [.tv (.prep "A" true true), .tv (.ivDone 0 "tag mask"), .tv (.pohDone 0 "powers of H mask"),
    .tv (.pollCheck "A"), .tv (.pollLock "A"), .tv .recvIv, .tv .recvPoh,
    .store ⟨false, "tag mask", "powers of H mask", none⟩]

/-- One more poll of `A`: the read-locked check and the store of its reply. -/
def repoll : List PollEvent := [.tv (.pollCheck "A"), .store ⟨false, "", "", none⟩]

/-- The state `completedPoll` reaches. -/
def afterCompletion : PollingState := ((init.run 0 "A" completedPoll).map Prod.fst).getD init

/-- After a completed poll the session holds both masks and `TagVerification` is ready;
one more poll, which the manager answers with empty masks, empties both. -/
theorem repoll_clears_masks :
    ∃ p, init.run 0 "A" completedPoll =
        some (p, [.prep "A" none, .poll "A" ⟨false, "tag mask", "powers of H mask", none⟩]) ∧
      p.session.tagMask = "tag mask" ∧ p.session.pohMask = "powers of H mask" ∧
      p.session.tagMasksReady = true ∧
      ∃ p', p.run 0 "A" repoll = some (p', [.poll "A" ⟨false, "", "", none⟩]) ∧
        p'.session.tagMask = "" ∧ p'.session.pohMask = "" ∧ p'.session.tagMasksReady = false :=
  ⟨_, rfl, rfl, rfl, rfl, _, rfl, rfl, rfl, rfl⟩

/-- After the completed poll `A` is cleared, so the repoll leaves it cleared with both
masks empty. -/
theorem polls_after_reset_store_empty_masks_repoll :
    ∃ p', afterCompletion.run 0 "A" repoll = some (p', [.poll "A" ⟨false, "", "", none⟩]) ∧
      Cleared "A" p' ∧ p'.session.tagMask = "" ∧ p'.session.pohMask = "" := by
  have hc : Cleared "A" afterCompletion := by decide
  have he : ∀ e ∈ repoll, e ≠ .tv (.prep "A" true true) := by simp [repoll]
  obtain ⟨p', hrun⟩ : ∃ p', afterCompletion.run 0 "A" repoll =
      some (p', [.poll "A" ⟨false, "", "", none⟩]) := ⟨_, rfl⟩
  obtain ⟨hc', hstore, -⟩ := polls_after_reset_store_empty_masks (by decide) repoll hc he hrun
  exact ⟨p', hrun, hc', hstore ⟨_, .tail _ (.head _)⟩⟩

end PollingState

end TlsNotary
