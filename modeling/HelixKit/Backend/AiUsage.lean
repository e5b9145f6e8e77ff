/-
Purpose: The metering of one user's AI requests, for every interleaving of their checks and their
  records.
Trusted boundary: rational numbers stand for JavaScript numbers
Main exports: requests_metered
-/
import HelixKit.Lib.Runs
import Mathlib.Algebra.Order.Floor.Ring
import Mathlib.Algebra.Order.Ring.Rat
import Mathlib.Data.Rat.Floor
import Mathlib.Tactic.FieldSimp
import Mathlib.Tactic.Linarith
import Mathlib.Tactic.NormNum

namespace HelixKit.Backend.AiUsage

open HelixKit.Runs

/-! ### Prices -/

/-- USD for a token. -/
structure ModelPricing where
  input : ℚ
  output : ℚ
  cachedInput : ℚ
deriving DecidableEq

structure PricedUsage where
  inputTokens : ℕ
  outputTokens : ℕ
  cachedInputTokens : ℕ
  reasoningTokens : ℕ
deriving DecidableEq

structure CostResult where
  costUsd : ℚ
  estimated : Bool
deriving DecidableEq

def fallbackPricing (model : String) : Option ModelPricing :=
  if model = "deepseek/deepseek-v4-pro" then
    some { input := 28 / 10 ^ 8, output := 42 / 10 ^ 8, cachedInput := 28 / 10 ^ 9 }
  else none

/-- The price of a model, of the gateway's list before the fallback. -/
def pricing? (model : String) (prices : String → Option ModelPricing) : Option ModelPricing :=
  prices model <|> fallbackPricing model

def computeCost (model : String) (usage : PricedUsage) (prices : String → Option ModelPricing) :
    CostResult :=
  match pricing? model prices with
  | none => { costUsd := 0, estimated := true }
  | some pricing =>
    let uncachedInput := usage.inputTokens - usage.cachedInputTokens
    { costUsd := uncachedInput * pricing.input + usage.cachedInputTokens * pricing.cachedInput +
        usage.outputTokens * pricing.output
      estimated := false }

def usdDecimals : ℕ := 6

/-- `toFixed`: the nearest decimal, the one farther from zero if two are as near. -/
def toFixed (value : ℚ) : ℚ :=
  if value < 0 then -(⌊-value * 10 ^ usdDecimals + 1 / 2⌋ / 10 ^ usdDecimals)
  else ⌊value * 10 ^ usdDecimals + 1 / 2⌋ / 10 ^ usdDecimals

/-! ### Requests -/

/-- A request and what it turns out to use, with a model that has a price when it is recorded. -/
structure Request where
  model : String
  usage : PricedUsage
  prices : String → Option ModelPricing
  priced : (pricing? model prices).isSome = true

def Request.trueCost (request : Request) : ℚ :=
  (computeCost request.model request.usage request.prices).costUsd

def trueTotal (requests : List Request) : ℚ := (requests.map Request.trueCost).sum

structure UserBudget where
  aiEnabled : Bool := true
  unlimited : Bool := false
deriving DecidableEq

/-- A recorded request. -/
structure AiUsageEvent where
  costUsd : ℚ
  costEstimated : Bool
deriving DecidableEq

/-- The rows of one user, the requests that were admitted and are still running, and all that were
admitted and recorded so far. -/
structure Ledger where
  budget : Option UserBudget
  grants : List ℚ
  events : List AiUsageEvent := []
  running : List Request := []
  admitted : List Request := []
  recorded : List Request := []

structure AiBalance where
  unlimited : Bool
  aiEnabled : Bool
  grantedUsd : ℚ
  spentUsd : ℚ
  remainingUsd : ℚ
deriving DecidableEq

def Ledger.grantedUsd (ledger : Ledger) : ℚ := ledger.grants.sum

def Ledger.spentUsd (ledger : Ledger) : ℚ := (ledger.events.map AiUsageEvent.costUsd).sum

def readAiBalance (ledger : Ledger) : AiBalance where
  unlimited := ledger.budget.all UserBudget.unlimited
  aiEnabled := ledger.budget.all UserBudget.aiEnabled
  grantedUsd := ledger.grantedUsd
  spentUsd := ledger.spentUsd
  remainingUsd := ledger.grantedUsd - ledger.spentUsd

inductive AiAccess where
  | allowed
  | refused (reason message : String)
deriving DecidableEq

def checkAiAccess (ledger : Ledger) : AiAccess :=
  let balance := readAiBalance ledger
  if !balance.aiEnabled then
    .refused "disabled"
      "AI features are turned off for your account. Ask an administrator to enable them."
  else if !balance.unlimited ∧ balance.remainingUsd ≤ 0 then
    .refused "out_of_credits"
      "You have used all of your AI credits. Ask an administrator to add more."
  else .allowed

/-! ### Runs -/

inductive Step where
  /-- `checkAiAccess` of a request, which begins if it is allowed. -/
  | check (request : Request)
  /-- `recordAiUsage` of a running request. -/
  | record (i : ℕ)

def Request.event (request : Request) : AiUsageEvent :=
  let cost := computeCost request.model request.usage request.prices
  { costUsd := toFixed cost.costUsd, costEstimated := cost.estimated }

def step (ledger : Ledger) : Step → Ledger
  | .check request =>
    match checkAiAccess ledger with
    | .allowed =>
      { ledger with
        running := request :: ledger.running, admitted := request :: ledger.admitted }
    | .refused _ _ => ledger
  | .record i =>
    match ledger.running[i]? with
    | none => ledger
    | some request =>
      { ledger with
        events := ledger.events ++ [request.event]
        running := ledger.running.eraseIdx i
        recorded := request :: ledger.recorded }

/-- The rows of a user without requests yet. -/
def Ledger.start (budget : UserBudget) (grants : List ℚ) : Ledger :=
  { budget := some budget, grants := grants }

/-- The admitted requests exceed the credits by one of them at most, and the records have what was
spent. -/
structure Metered (ledger : Ledger) : Prop where
  bounded : ledger.admitted = [] ∨ ∃ request ∈ ledger.admitted,
    trueTotal ledger.admitted ≤ ledger.grantedUsd + request.trueCost
  recorded : ledger.spentUsd = trueTotal ledger.recorded

/-- A request is checked while what runs leaves some of the credits, if the records do, and a
recorded cost has no digits after the sixth. -/
def Paced (ledger : Ledger) : Step → Prop
  | .check _ => ledger.spentUsd < ledger.grantedUsd →
      trueTotal ledger.running + ledger.spentUsd < ledger.grantedUsd
  | .record i => ∀ request, ledger.running[i]? = some request →
      ∃ millionths : ℤ, request.trueCost = millionths / 10 ^ usdDecimals

theorem toFixed_of_millionths {value : ℚ} (millionths : ℤ)
    (exact_ : value = millionths / 10 ^ usdDecimals) : toFixed value = value := by
  have scale : (10 : ℚ) ^ usdDecimals ≠ 0 := by positivity
  have rounds : ∀ n : ℤ, ⌊(n : ℚ) + 1 / 2⌋ = n := fun n => by
    rw [Int.floor_eq_iff]
    constructor <;> linarith
  have scaled : value * 10 ^ usdDecimals = millionths := by
    rw [exact_, div_mul_cancel₀ _ scale]
  unfold toFixed
  split
  · have negated : -value * 10 ^ usdDecimals = (-millionths : ℤ) := by
      rw [neg_mul, scaled, Int.cast_neg]
    rw [negated, rounds, exact_, Int.cast_neg, neg_div, neg_neg]
  · rw [scaled, rounds, exact_]

/-- A token of the fallback's input is recorded as nothing. -/
example : toFixed (28 / 10 ^ 8) = 0 := by norm_num [toFixed, usdDecimals]

theorem trueTotal_cons (request : Request) (rest : List Request) :
    trueTotal (request :: rest) = request.trueCost + trueTotal rest := by
  simp [trueTotal]

theorem trueTotal_eraseIdx {requests : List Request} {i : ℕ} {request : Request}
    (found : requests[i]? = some request) :
    trueTotal requests = request.trueCost + trueTotal (requests.eraseIdx i) := by
  obtain ⟨inside, rfl⟩ := List.getElem?_eq_some_iff.mp found
  rw [← trueTotal_cons]
  exact ((List.getElem_cons_eraseIdx_perm inside).symm.map _).sum_eq

/-- With a limited budget, the admitted requests are those that run and those that were recorded. -/
structure Accounted (ledger : Ledger) : Prop extends Metered ledger where
  limited : ∃ budget, ledger.budget = some budget ∧ budget.unlimited = false
  parts : trueTotal ledger.admitted = trueTotal ledger.running + trueTotal ledger.recorded

theorem accounted_start {budget : UserBudget} {grants : List ℚ}
    (limited : budget.unlimited = false) : Accounted (.start budget grants) where
  bounded := .inl rfl
  recorded := rfl
  limited := ⟨budget, rfl, limited⟩
  parts := by simp [Ledger.start, trueTotal]

variable {ledger : Ledger}

/-- A limited user is admitted with credits left only. -/
theorem spent_of_allowed (accounted : Accounted ledger)
    (allowed : checkAiAccess ledger = .allowed) : ledger.spentUsd < ledger.grantedUsd := by
  obtain ⟨budget, found, limited⟩ := accounted.limited
  by_contra spent
  have out : (readAiBalance ledger).remainingUsd ≤ 0 := by
    simpa only [readAiBalance, sub_nonpos] using not_lt.mp spent
  have metered : (readAiBalance ledger).unlimited = false := by
    simp [readAiBalance, found, limited]
  simp only [checkAiAccess, metered, out, Bool.not_false, and_self, if_true] at allowed
  split at allowed <;> cases allowed

theorem accounted_check {request : Request} (accounted : Accounted ledger)
    (paced : Paced ledger (.check request)) : Accounted (step ledger (.check request)) := by
  simp only [step]
  split
  case h_2 => exact accounted
  case h_1 allowed =>
    have leaves : trueTotal ledger.admitted < ledger.grantedUsd := by
      rw [accounted.parts, ← accounted.recorded]
      exact paced (spent_of_allowed accounted allowed)
    refine ⟨⟨.inr ⟨request, List.mem_cons_self, ?_⟩, accounted.recorded⟩, accounted.limited, ?_⟩
    · rw [trueTotal_cons, add_comm]
      exact add_le_add_left leaves.le request.trueCost
    · rw [trueTotal_cons, trueTotal_cons, accounted.parts, add_assoc]

theorem accounted_record {i : ℕ} (accounted : Accounted ledger)
    (paced : Paced ledger (.record i)) : Accounted (step ledger (.record i)) := by
  simp only [step]
  split
  case h_1 => exact accounted
  case h_2 request found =>
    obtain ⟨millionths, exact_⟩ := paced request found
    have kept : request.event.costUsd = request.trueCost := toFixed_of_millionths millionths exact_
    refine ⟨⟨accounted.bounded, ?_⟩, accounted.limited, ?_⟩
    · have before := accounted.recorded
      simp only [Ledger.spentUsd] at before
      simp only [Ledger.spentUsd, List.map_append, List.map_cons, List.map_nil, List.sum_append,
        List.sum_singleton, before, kept, trueTotal_cons]
      exact add_comm _ _
    · rw [trueTotal_cons, accounted.parts, trueTotal_eraseIdx found]
      ring

theorem accounted_step (next : Step) (accounted : Accounted ledger)
    (paced : Paced ledger next) : Accounted (step ledger next) := by
  cases next with
  | check request => exact accounted_check accounted paced
  | record i => exact accounted_record accounted paced

/-- A limited user's requests overdraw the credits by one of them at most, and the records have
their costs, in a run whose requests leave credits for the next and cost whole millionths. -/
theorem requests_metered {budget : UserBudget} {grants : List ℚ} {steps : List Step}
    (limited : budget.unlimited = false)
    (paced : Along step Paced (.start budget grants) steps) :
    Metered (run step (.start budget grants) steps) :=
  (Along.invariant Accounted (fun _ next accounted now => accounted_step next accounted now)
    (accounted_start limited) paced).toMetered

/-- A thousand tokens at a thousandth of a dollar. -/
def dollarRequest : Request where
  model := "openai/gpt-5"
  usage := { inputTokens := 1000, outputTokens := 0, cachedInputTokens := 0, reasoningTokens := 0 }
  prices := fun _ => some { input := 1 / 1000, output := 0, cachedInput := 0 }
  priced := rfl

theorem dollarRequest_trueCost : dollarRequest.trueCost = 1 := by
  norm_num [Request.trueCost, computeCost, pricing?, dollarRequest]

theorem dollarRequest_costUsd : dollarRequest.event.costUsd = 1 := by
  refine (toFixed_of_millionths (10 ^ 6) ?_).trans dollarRequest_trueCost
  rw [← Request.trueCost, dollarRequest_trueCost]
  norm_num [usdDecimals]

theorem requests_metered_in_turn :
    Metered (run step (.start {} [3 / 2]) [.check dollarRequest, .record 0,
      .check dollarRequest, .record 0]) := by
  refine requests_metered rfl ?_
  have whole : ∃ millionths : ℤ, dollarRequest.trueCost = millionths / 10 ^ usdDecimals :=
    ⟨10 ^ 6, by rw [dollarRequest_trueCost]; norm_num [usdDecimals]⟩
  norm_num [Along, Paced, step, checkAiAccess, readAiBalance, Ledger.start, Ledger.spentUsd,
    Ledger.grantedUsd, trueTotal, dollarRequest_costUsd, whole]

/-- Two requests that were both admitted before one of them was recorded. -/
theorem overlapping_requests_overdraw :
    ¬ ∀ (budget : UserBudget) (grants : List ℚ) (steps : List Step), budget.unlimited = false →
      Metered (run step (.start budget grants) steps) := by
  intro metered
  have overdrawn := (metered {} [1 / 2] [.check dollarRequest, .check dollarRequest] rfl).bounded
  norm_num [step, checkAiAccess, readAiBalance, Ledger.start, Ledger.spentUsd,
    Ledger.grantedUsd, trueTotal, dollarRequest_trueCost] at overdrawn
  exact List.cons_ne_nil _ _ overdrawn

end HelixKit.Backend.AiUsage
