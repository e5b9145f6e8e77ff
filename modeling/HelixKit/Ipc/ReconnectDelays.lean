/-
Purpose: How long the IPC client waits after each attempt to connect.
Trusted boundary: none
Main exports: delay_not_reset
-/
import HelixKit.Ipc.RunLoop
import Mathlib.Algebra.GroupWithZero.Nat
import Mathlib.Algebra.Ring.Int.Defs

namespace HelixKit.Ipc.RunLoop

open HelixKit.Runs

/-- The delay after so many attempts in a row that never registered. -/
def delayAfter (k : Nat) : Nat := min reconnectMax (reconnectMin * 2 ^ k)

/-- From the first attempt on, and again from every attempt that registered: the delay is the least
one, and then goes by how many attempts in a row have not registered since. -/
def Lawful (c : Client) : Prop :=
  ∀ i k, i = 0 ∨ c.attempts[i]? = some true →
    (∀ j, i < j → j ≤ i + k → c.attempts[j]? = some false) →
    ∀ delay, c.delays[i + k]? = some delay → delay = delayAfter k

theorem doubled_delayAfter (k : Nat) : doubled (delayAfter k) = delayAfter (k + 1) := by
  have power := Nat.pow_succ 2 k
  unfold doubled delayAfter reconnectMax reconnectMin
  rw [Nat.succ_eq_add_one] at power
  rw [power]
  split
  · omega
  · omega

/-- An attempt that is over has an error to return. -/
def Loop.Fails : Loop → Prop
  | .disconnected _ err | .closing _ err => err ≠ none
  | _ => True

/-- The delay of the next wait goes by the number of all waits that are over. -/
structure Paced (c : Client) : Prop where
  fails : c.loop.Fails
  length : c.attempts.length = c.delays.length
  delays : c.delays = (List.range c.delays.length).map delayAfter
  waits : c.loop = .waiting → c.backoff = delayAfter (c.delays.length - 1) ∧ c.delays ≠ []
  goes : c.loop ≠ .waiting → c.loop ≠ .stopped → c.backoff = delayAfter c.delays.length

variable {c : Client}

theorem paced_start : Paced start where
  fails := trivial
  length := rfl
  delays := rfl
  waits := by simp [start]
  goes := by simp [start, delayAfter, reconnectMin, reconnectMax]

/-- A step that neither waits nor has waited. -/
theorem Paced.of_same (paced : Paced c) {after : Client} (attempts : after.attempts = c.attempts)
    (delays : after.delays = c.delays) (backoff : after.backoff = c.backoff)
    (fails : after.loop.Fails)
    (goes : after.loop = c.loop ∨ after.loop = .stopped ∨
      c.loop ≠ .waiting ∧ c.loop ≠ .stopped ∧ after.loop ≠ .waiting) : Paced after := by
  constructor
  · exact fails
  · rw [attempts, delays]
    exact paced.length
  · rw [delays]
    exact paced.delays
  · intro waiting
    rw [backoff, delays]
    rcases goes with same | stopped | ⟨-, -, other⟩
    · exact paced.waits (same ▸ waiting)
    · rw [stopped] at waiting
      cases waiting
    · exact absurd waiting other
  · intro moving running
    rw [backoff, delays]
    rcases goes with same | stopped | ⟨other, live, -⟩
    · exact paced.goes (same ▸ moving) (same ▸ running)
    · exact absurd stopped running
    · exact paced.goes other live

/-- An attempt that has ended with an error. -/
theorem Paced.returned (paced : Paced c) (moving : c.loop ≠ .waiting) (running : c.loop ≠ .stopped)
    {before : Client} (attempts : before.attempts = c.attempts) (delays : before.delays = c.delays)
    (backoff : before.backoff = c.backoff) (registered : Bool) (err : String) :
    Paced (before.returned registered (some err)) := by
  have now := paced.goes moving running
  constructor
  · trivial
  · simp [Client.returned, attempts, delays, paced.length]
  · simp only [Client.returned, delays, backoff, now, List.length_append, List.length_singleton,
      List.range_succ, List.map_append, List.map_singleton]
    rw [← paced.delays]
  · intro _
    simp [Client.returned, delays, backoff, now]
  · intro other
    exact absurd rfl other

theorem Paced.step (paced : Paced c) (op : Op) : Paced (step c op) := by
  cases op with
  | close =>
    have loop : c.Close.loop = c.loop := by
      unfold Client.Close
      split
      · rfl
      · split <;> rfl
    have kept : c.Close.attempts = c.attempts ∧ c.Close.delays = c.delays ∧
        c.Close.backoff = c.backoff := by
      unfold Client.Close
      split
      · exact ⟨rfl, rfl, rfl⟩
      · split <;> exact ⟨rfl, rfl, rfl⟩
    exact paced.of_same kept.1 kept.2.1 kept.2.2 (loop ▸ paced.fails) (.inl loop)
  | check =>
    cases loop : c.loop with
    | top =>
      simp only [RunLoop.step, loop]
      cases c.closed with
      | true => exact paced.of_same rfl rfl rfl trivial (.inr (.inl rfl))
      | false =>
        refine paced.of_same rfl rfl rfl trivial (.inr (.inr ?_))
        exact ⟨by simp [loop], by simp [loop], by simp⟩
    | _ => simpa only [RunLoop.step, loop] using paced
  | dial ok =>
    cases loop : c.loop with
    | dialing =>
      simp only [RunLoop.step, loop]
      cases ok with
      | true =>
        refine paced.of_same rfl rfl rfl trivial (.inr (.inr ?_))
        exact ⟨by simp [loop], by simp [loop], by simp⟩
      | false =>
        exact paced.returned (by simp [loop]) (by simp [loop]) rfl rfl rfl false "dial"
    | _ => simpa only [RunLoop.step, loop] using paced
  | register ok =>
    cases loop : c.loop with
    | registering nc =>
      simp only [RunLoop.step, loop]
      cases ok with
      | true =>
        refine paced.of_same rfl rfl rfl trivial (.inr (.inr ?_))
        exact ⟨by simp [loop], by simp [loop], by simp⟩
      | false =>
        simp only [Bool.false_eq_true, if_false]
        refine paced.returned ?_ ?_ ?_ ?_ ?_ false "register"
        · simp [loop]
        · simp [loop]
        all_goals rfl
    | _ => simpa only [RunLoop.step, loop] using paced
  | publish =>
    cases loop : c.loop with
    | registered nc =>
      simp only [RunLoop.step, loop]
      refine paced.of_same rfl rfl rfl trivial (.inr (.inr ?_))
      exact ⟨by simp [loop], by simp [loop], by simp⟩
    | _ => simpa only [RunLoop.step, loop] using paced
  | hangUp scannerErr =>
    cases loop : c.loop with
    | reading nc =>
      simp only [RunLoop.step, loop]
      refine paced.of_same rfl rfl rfl (Option.some_ne_none _) (.inr (.inr ?_))
      exact ⟨by simp [loop], by simp [loop], by simp⟩
    | _ => simpa only [RunLoop.step, loop] using paced
  | clear =>
    cases loop : c.loop with
    | disconnected nc err =>
      have fails := paced.fails
      rw [loop] at fails
      simp only [RunLoop.step, loop]
      refine paced.of_same rfl rfl rfl fails (.inr (.inr ?_))
      exact ⟨by simp [loop], by simp [loop], by simp⟩
    | _ => simpa only [RunLoop.step, loop] using paced
  | closeConn =>
    cases loop : c.loop with
    | closing nc err =>
      have fails := paced.fails
      rw [loop] at fails
      obtain ⟨text, rfl⟩ := Option.ne_none_iff_exists'.mp fails
      simp only [RunLoop.step, loop]
      refine paced.returned ?_ ?_ ?_ ?_ ?_ true text
      · simp [loop]
      · simp [loop]
      all_goals rfl
    | _ => simpa only [RunLoop.step, loop] using paced
  | wait timer =>
    cases loop : c.loop with
    | waiting =>
      obtain ⟨backoff, some_⟩ := paced.waits loop
      simp only [RunLoop.step, loop]
      cases timer with
      | true =>
        have count : c.delays.length - 1 + 1 = c.delays.length :=
          Nat.sub_add_cancel (List.length_pos_iff.mpr some_)
        refine ⟨trivial, paced.length, paced.delays, by simp, fun _ _ => ?_⟩
        simp only [if_true]
        rw [backoff, doubled_delayAfter, count]
      | false =>
        cases c.closed with
        | true => exact paced.of_same rfl rfl rfl trivial (.inr (.inl rfl))
        | false => exact paced
    | _ => simpa only [RunLoop.step, loop] using paced
  | serve nc =>
    simp only [RunLoop.step]
    split
    · exact paced.of_same rfl rfl rfl paced.fails (.inl rfl)
    · exact paced
  | drop nc => exact paced.of_same rfl rfl rfl paced.fails (.inl rfl)

theorem paced_run (ops : List Op) : Paced (run step start ops) :=
  run_invariant Paced (fun _ op paced => paced.step op) paced_start

theorem one_lt_delayAfter_succ (k : Nat) : delayAfter 0 < delayAfter (k + 1) := by
  have power := Nat.pow_succ 2 k
  have pos := Nat.two_pow_pos k
  rw [Nat.succ_eq_add_one] at power
  unfold delayAfter reconnectMax reconnectMin
  rw [power]
  omega

/-- The delays are as they should be exactly when no attempt after the first one has registered. -/
theorem delays_lawful_iff (ops : List Op) :
    Lawful (run step start ops) ↔ ∀ i, (run step start ops).attempts[i + 1]? ≠ some true := by
  have paced := paced_run ops
  have delay_eq : ∀ n delay, (run step start ops).delays[n]? = some delay →
      delay = delayAfter n := by
    intro n delay there
    rw [paced.delays, List.getElem?_map] at there
    obtain ⟨m, found, rfl⟩ := Option.map_eq_some_iff.mp there
    obtain ⟨inside, same⟩ := List.getElem?_eq_some_iff.mp found
    rw [List.getElem_range] at same
    rw [same]
  constructor
  · intro lawful i registered
    have inside : i + 1 < (run step start ops).delays.length := by
      rw [← paced.length]
      exact (List.getElem?_eq_some_iff.mp registered).1
    have least := lawful (i + 1) 0 (.inr registered) (fun j above within => by omega) _
      (List.getElem?_eq_getElem inside)
    have actual := delay_eq (i + 1) _ (List.getElem?_eq_getElem inside)
    have apart := one_lt_delayAfter_succ i
    omega
  · intro none_ i k base _ delay there
    have first : i = 0 := by
      rcases base with zero | registered
      · exact zero
      · cases i with
        | zero => rfl
        | succ i => exact absurd registered (none_ i)
    rw [first, Nat.zero_add] at there
    exact delay_eq k delay there

/-- The operations of an attempt that registers, and of its connection that drops. -/
def connected : List Op :=
  [.check, .dial true, .register true, .publish, .hangUp none, .clear, .closeConn]

/-- The second connection that drops is waited for longer. -/
theorem delay_not_reset :
    (run step start (connected ++ .wait true :: connected)).attempts = [true, true] ∧
    (run step start (connected ++ .wait true :: connected)).delays = [1, 2] ∧
    ¬ Lawful (run step start (connected ++ .wait true :: connected)) := by
  refine ⟨rfl, rfl, fun lawful => ?_⟩
  have least := lawful 1 0 (.inr rfl) (fun j above within => by omega) 2 rfl
  exact absurd least (by decide)

end HelixKit.Ipc.RunLoop
