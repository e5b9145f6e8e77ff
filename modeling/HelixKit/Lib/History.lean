/-
Purpose: Order conditions on growing message histories, which survive truncation and are checked one
  message at a time.
Trusted boundary: none
-/
import Mathlib.Data.List.Infix

namespace HelixKit.History

variable {M : Type*}

/-- Every message of the history satisfies `Rule` against the messages sent
before it. -/
def Allowed (Rule : List M → M → Prop) (history : List M) : Prop :=
  ∀ earlier message, earlier ++ [message] <+: history → Rule earlier message

theorem allowed_nil (Rule : List M → M → Prop) : Allowed Rule [] := by
  intro earlier message isPrefix
  simp at isPrefix

/-- A truncated history obeys every rule the whole history obeys. -/
theorem Allowed.truncate {Rule : List M → M → Prop} {short long : List M}
    (allowed : Allowed Rule long) (isPrefix : short <+: long) :
    Allowed Rule short := by
  intro earlier message inShort
  exact allowed earlier message (inShort.trans isPrefix)

theorem prefix_concat_cases {earlier history : List M} {message last : M}
    (isPrefix : earlier ++ [message] <+: history ++ [last]) :
    earlier ++ [message] <+: history ∨ (earlier = history ∧ message = last) := by
  rcases List.prefix_concat_iff.mp isPrefix with whole | proper
  · exact Or.inr ⟨List.append_inj_left' whole rfl,
      by simpa using List.append_inj_right' whole rfl⟩
  · exact Or.inl proper

/-- Sending one more message keeps the rule exactly when the new message obeys
it against the whole history so far. -/
theorem allowed_concat {Rule : List M → M → Prop} {history : List M} {last : M} :
    Allowed Rule (history ++ [last]) ↔
      Allowed Rule history ∧ Rule history last := by
  constructor
  · intro allowed
    exact ⟨allowed.truncate (List.prefix_append _ _),
      allowed history last (List.prefix_refl _)⟩
  · rintro ⟨allowed, next⟩ earlier message isPrefix
    rcases prefix_concat_cases isPrefix with old | ⟨rfl, rfl⟩
    · exact allowed earlier message old
    · exact next

end HelixKit.History
