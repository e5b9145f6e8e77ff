/-
Purpose: What an attempt of the offline method shows and what it accepts: a
  challenge only for a user with an eligible row, and an approval only for the
  response to the challenge it drew.
Trusted boundary: none
-/
import HelixKit.Authd.Methods

namespace HelixKit.Authd

open HelixKit.Dialogue Program

/-- The checks of `eligible` on a row of the cache, made at the time `now`. -/
structure Eligible (a : OfflineAuthenticator) (req : Request) (row : CachedUser) (now : Time) :
    Prop where
  linuxUID : row.linuxUID = req.uid
  scope : deviceLoginScope ∈ row.scopes
  age : now.sub row.refreshedAt ≤ a.maxAge

/-- The attempt found an eligible row, drew a challenge and issued it; `answers`
is what has been said since. -/
structure Challenged (a : OfflineAuthenticator) (req : Request) (past : History)
    (row : CachedUser) (checkedAt : Time) (expected : String) (deadline : Time)
    (answers : History) : Prop where
  eligible : Eligible a req row checkedAt
  issued : ∃ raw challenge issuedAt,
    past = [⟨.cachedUser req.username, .ok row⟩, ⟨.clock, checkedAt⟩,
      ⟨.readRandom codeRawBytes, some raw⟩, ⟨.clock, issuedAt⟩] ++ answers ∧
    encodeCode raw = some challenge ∧
    offlineResponse a.hmac a.secret
      { deviceID := req.deviceID, userID := row.userID, linuxUID := req.uid, challenge } =
        some expected ∧
    deadline = issuedAt + a.ttl

def Ask.isPrompt : Ask → Bool
  | .prompt _ _ => true
  | _ => false

/-- The number of answers asked for. -/
def responses (answers : History) : ℕ := answers.countP fun exchange => exchange.1.isPrompt

theorem responses_concat (answers : History) (exchange : Exchange Reply) :
    responses (answers ++ [exchange]) =
      responses answers + if exchange.1.isPrompt then 1 else 0 := by
  simp [responses, List.countP_append, List.countP_singleton]

/-- The last answer was given within the attempts and before the deadline, and
is the expected response. -/
structure Answered (a : OfflineAuthenticator) (req : Request) (past : History)
    (row : CachedUser) (checkedAt : Time) : Prop where
  accepted : ∃ expected deadline earlier text answer now,
    Challenged a req past row checkedAt expected deadline
      (earlier ++ [⟨.prompt "offline_response" text, some answer⟩, ⟨.clock, now⟩]) ∧
    responses earlier < a.attempts ∧ now ≤ deadline ∧ normalizeCode answer = expected

theorem Challenged.later {a : OfflineAuthenticator} {req : Request} {past : History}
    {row : CachedUser} {checkedAt deadline : Time}
    {expected : String} {answers : History}
    (challenged : Challenged a req past row checkedAt expected deadline answers)
    (exchange : Exchange Reply) :
    Challenged a req (past ++ [exchange]) row checkedAt expected deadline
      (answers ++ [exchange]) := by
  obtain ⟨raw, challenge, issuedAt, rfl, rest⟩ := challenged.issued
  exact ⟨challenged.eligible, raw, challenge, issuedAt, by simp, rest⟩

/-- The offline method prompts only with a challenge, and writes nothing. -/
def OfflineKeeps (a : OfflineAuthenticator) (req : Request) (past : History) : Ask → Prop
  | .prompt _ _ => ∃ row checkedAt expected deadline answers,
      Challenged a req past row checkedAt expected deadline answers
  | .putCachedUser _ => False
  | .activateCredential _ _ _ => False
  | _ => True

def OfflineEnds (a : OfflineAuthenticator) (req : Request) (past : History)
    (outcome : Outcome) : Prop :=
  outcome.status = .approved → ∃ row checkedAt, Answered a req past row checkedAt

namespace OfflineAuthenticator

variable {a : OfflineAuthenticator} {req : Request} {past : History}

theorem offlineEnds_of_refusal {outcome : Outcome} (refusal : outcome.status ≠ .approved) :
    OfflineEnds a req past outcome :=
  fun approved => absurd approved refusal

theorem refuse_guards (text reason : String)
    {Ends : History → Except Outcome CachedUser → Prop}
    (refusal : ∀ later, Ends later (.error (deny reason))) :
    Guards (OfflineKeeps a req) Ends past (refuse text reason) := by
  unfold refuse
  rw [guards_inquire_bind]
  exact ⟨trivial, fun _ => (guards_pure _).2 (refusal _)⟩

/-- A row that `eligible` lets through is eligible when its age was taken. -/
theorem eligible_guards :
    Guards (OfflineKeeps a req)
      (fun later checked => match checked with
        | .ok row => ∃ now, later = [⟨Ask.cachedUser req.username, Except.ok row⟩,
            ⟨Ask.clock, now⟩] ∧ Eligible a req row now
        | .error outcome => outcome.status ≠ .approved)
      [] (a.eligible req) := by
  have denies (reason : String) (later : History) : (deny reason).status ≠ .approved := by
    simp [deny]
  unfold eligible
  rw [guards_inquire_bind]
  refine ⟨trivial, fun row => ?_⟩
  cases row with
  | error err => exact refuse_guards _ _ (denies _)
  | ok row =>
    simp only
    split_ifs with otherUID noScope
    · exact refuse_guards _ _ (denies _)
    · exact refuse_guards _ _ (denies _)
    · rw [guards_inquire_bind]
      refine ⟨trivial, fun now => ?_⟩
      split_ifs with stale
      · exact refuse_guards _ _ (denies _)
      · apply (guards_pure _).2
        refine ⟨now, rfl, not_not.1 otherUID, ?_, Int.not_lt.1 stale⟩
        simpa [CachedUser.hasScope] using noScope

theorem readResponses_guards {row : CachedUser} {checkedAt deadline : Time} {expected : String}
    {answers : History} {remaining : ℕ} (prompt : String)
    (challenged : Challenged a req past row checkedAt expected deadline answers)
    (left : responses answers + remaining ≤ a.attempts) :
    Guards (OfflineKeeps a req) (OfflineEnds a req) past
      (readResponses expected deadline remaining prompt) := by
  induction remaining generalizing past answers prompt with
  | zero => exact (guards_pure _).2 (offlineEnds_of_refusal (by simp [deny]))
  | succ remaining ih =>
    unfold readResponses
    rw [guards_inquire_bind]
    refine ⟨trivial, fun ended => ?_⟩
    cases ended with
    | true => exact (guards_pure _).2 (offlineEnds_of_refusal (by simp [deny]))
    | false =>
      rw [if_neg (by simp), guards_inquire_bind]
      have goesOn := challenged.later ⟨.contextEnded, false⟩
      refine ⟨⟨row, checkedAt, expected, deadline, _, goesOn⟩, fun reply => ?_⟩
      cases reply with
      | none => exact (guards_pure _).2 (offlineEnds_of_refusal (by simp [deny]))
      | some answer =>
        simp only [guards_inquire_bind]
        refine ⟨trivial, fun now => ?_⟩
        have answered := (goesOn.later ⟨.prompt "offline_response" prompt, some answer⟩).later
          ⟨.clock, now⟩
        split_ifs with late right more
        · rw [guards_inquire_bind]
          exact ⟨trivial, fun _ =>
            (guards_pure _).2 (offlineEnds_of_refusal (by simp [Authd.expired]))⟩
        · apply (guards_pure _).2
          intro _
          refine ⟨row, checkedAt, expected, deadline, answers ++ [⟨.contextEnded, false⟩],
            prompt, answer, now, by simpa using answered, ?_, Int.not_lt.1 late, right⟩
          rw [responses_concat]
          simp only [Ask.isPrompt, Bool.false_eq_true, if_false]
          omega
        · rw [guards_inquire_bind]
          refine ⟨trivial, fun _ => ?_⟩
          apply ih "Response: " (answered.later _)
          simp only [responses_concat, Ask.isPrompt, if_true, Bool.false_eq_true, if_false]
          omega
        · apply ih prompt answered
          simp only [responses_concat, Ask.isPrompt, if_true, Bool.false_eq_true, if_false]
          omega

theorem newChallenge_guards {earlier : History} :
    Guards (OfflineKeeps a req)
      (fun later drawn => ∀ challenge, drawn = some challenge →
        ∃ raw, later = earlier ++ [⟨Ask.readRandom codeRawBytes, some raw⟩] ∧
          encodeCode raw = some challenge)
      earlier newChallenge := by
  unfold newChallenge
  rw [guards_inquire_bind]
  refine ⟨trivial, fun reply => ?_⟩
  cases reply with
  | none => simp
  | some raw =>
    apply (guards_pure _).2
    intro challenge encoded
    exact ⟨raw, rfl, encoded⟩

theorem offline_guards :
    Guards (OfflineKeeps a req) (OfflineEnds a req) [] (a.authenticate req) := by
  unfold authenticate
  apply eligible_guards.bind
  intro later checked found
  cases checked with
  | error outcome => exact (guards_pure _).2 (offlineEnds_of_refusal found)
  | ok row =>
    obtain ⟨checkedAt, rfl, eligible⟩ := found
    apply newChallenge_guards.bind
    intro later drawn fresh
    cases drawn with
    | none => exact (guards_pure _).2 (offlineEnds_of_refusal (by simp [Authd.unavailable]))
    | some challenge =>
      obtain ⟨raw, rfl, encoded⟩ := fresh challenge rfl
      simp only
      split
      next => exact (guards_pure _).2 (offlineEnds_of_refusal (by simp [Authd.unavailable]))
      next expected computed =>
        rw [guards_inquire_bind]
        refine ⟨trivial, fun issuedAt => ?_⟩
        rw [eligible.linuxUID] at computed
        exact readResponses_guards (a.challengePrompt req challenge)
          ⟨eligible, raw, challenge, issuedAt, rfl, encoded, computed, rfl⟩ (by simp [responses])

end OfflineAuthenticator

end HelixKit.Authd
