import Mathlib

/-!
# Orders of events in a trace

A trace is a list of events, the earliest first. What is said of it here is kept or changed in one
place when an event is added.
-/

namespace Trace

variable {α : Type*} {x a b e : α} {A : List α → Prop} {tr : List α}

/-- Whenever `x` happens, `A` holds of what happened before. -/
def Before (x : α) (A : List α → Prop) (tr : List α) : Prop :=
  ∀ pre post, tr = pre ++ x :: post → A pre

theorem before_nil : Before x A [] := by
  intro pre post h
  simp at h

theorem Before.concat (h : Before x A tr) (he : e = x → A tr) : Before x A (tr ++ [e]) := by
  intro pre post heq
  rcases post.eq_nil_or_concat with rfl | ⟨post, c, rfl⟩
  · obtain ⟨rfl, hx⟩ := List.append_inj' heq rfl
    exact he (List.cons.inj hx).1
  · rw [List.concat_eq_append, ← List.cons_append, ← List.append_assoc] at heq
    exact h pre post (List.append_inj' heq rfl).1

/-- `a` happens and `b` after it. -/
def Then (a b : α) (tr : List α) : Prop := ∃ pre post, tr = pre ++ post ∧ a ∈ pre ∧ b ∈ post

theorem not_then_nil : ¬ Then a b [] := by
  rintro ⟨pre, post, h, ha, -⟩
  rw [(List.append_eq_nil_iff.1 h.symm).1] at ha
  cases ha

theorem Then.left_mem (h : Then a b tr) : a ∈ tr := by
  obtain ⟨pre, post, rfl, ha, -⟩ := h
  exact List.mem_append_left _ ha

theorem then_concat : Then a b (tr ++ [e]) ↔ Then a b tr ∨ (e = b ∧ a ∈ tr) := by
  constructor
  · rintro ⟨pre, post, heq, ha, hb⟩
    rcases post.eq_nil_or_concat with rfl | ⟨post, c, rfl⟩
    · cases hb
    · rw [List.concat_eq_append, ← List.append_assoc] at heq
      obtain ⟨rfl, hc⟩ := List.append_inj' heq rfl
      obtain rfl := (List.cons.inj hc).1
      rw [List.concat_eq_append, List.mem_append, List.mem_singleton] at hb
      rcases hb with hb | rfl
      · exact Or.inl ⟨pre, post, rfl, ha, hb⟩
      · exact Or.inr ⟨rfl, List.mem_append_left _ ha⟩
  · rintro (⟨pre, post, rfl, ha, hb⟩ | ⟨rfl, ha⟩)
    · exact ⟨pre, post ++ [e], List.append_assoc _ _ _, ha, List.mem_append_left _ hb⟩
    · exact ⟨tr, [e], rfl, ha, List.mem_singleton_self e⟩

end Trace
