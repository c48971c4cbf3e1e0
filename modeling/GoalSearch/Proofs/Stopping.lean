import GoalSearch.Stopping
import Mathlib.Data.List.Basic

/-!
# Counters of conditions

Two kinds of conditions count by one: generations and evaluations (`Tally`). What such a condition shows is set back at
the start of a search and goes up with its signal (`Tally.Shows.step`), and its limit stays as it is
(`Tally.Limited.step`).
-/

namespace GoalSearch

/-- What is counted one by one. -/
inductive Tally where
  | iterations
  | evaluations

namespace Tally

def condition : Tally → Nat → Nat → Condition
  | iterations => .iterations
  | evaluations => .evaluations

/-- The count after a signal. -/
def after : Tally → Signal → Nat → Nat
  | _, .start _, _ => 0
  | iterations, .iteration _ _, k => k + 1
  | evaluations, .evaluation, k => k + 1
  | _, _, k => k

variable {tally : Tally} {x : Signal} {limit k : Nat} {cs : List Condition}

theorem step_condition : Condition.step x (tally.condition limit k) = tally.condition limit (tally.after x k) := by
  cases tally <;> cases x <;> rfl

/-- Signals make no condition another one. -/
theorem eq_of_step_eq {c : Condition} (h : Condition.step x c = tally.condition limit k) :
    ∃ j, c = tally.condition limit j ∧ tally.after x j = k := by
  have hkind : ∃ l j, c = tally.condition l j := by
    cases tally <;> cases c <;> cases x <;> simp only [condition, Condition.step] at h ⊢ <;>
      first
      | exact ⟨_, _, rfl⟩
      | (split at h <;> cases h)
      | cases h
  obtain ⟨l, j, rfl⟩ := hkind
  rw [step_condition] at h
  cases tally <;> (injection h with hl hk; exact ⟨j, by rw [hl], hk⟩)

/-- All conditions of the kind show the count. -/
def Shows (tally : Tally) (k : Nat) (cs : List Condition) : Prop :=
  ∀ limit used, tally.condition limit used ∈ cs → used = k

theorem Shows.step (h : tally.Shows k cs) (x : Signal) : tally.Shows (tally.after x k) (cs.map (Condition.step x)) := by
  intro limit used hmem
  obtain ⟨c, hc, hstep⟩ := List.mem_map.1 hmem
  obtain ⟨j, rfl, rfl⟩ := eq_of_step_eq hstep
  rw [h limit j hc]

theorem shows_start (tally : Tally) (time : Int) (cs : List Condition) :
    tally.Shows 0 (cs.map (Condition.step (.start time))) := by
  intro limit used hmem
  obtain ⟨c, -, hstep⟩ := List.mem_map.1 hmem
  obtain ⟨j, -, rfl⟩ := eq_of_step_eq hstep
  cases tally <;> rfl

/-- There is a condition of the kind with the limit. -/
def Limited (tally : Tally) (limit : Nat) (cs : List Condition) : Prop := ∃ used, tally.condition limit used ∈ cs

theorem Limited.step (h : tally.Limited limit cs) (x : Signal) : tally.Limited limit (cs.map (Condition.step x)) := by
  obtain ⟨used, hmem⟩ := h
  exact ⟨tally.after x used, List.mem_map.2 ⟨_, hmem, step_condition⟩⟩

/-- There is no condition but those of the kind with the limit. -/
def Only (tally : Tally) (limit : Nat) (cs : List Condition) : Prop := ∀ c ∈ cs, ∃ used, c = tally.condition limit used

theorem Only.step (h : tally.Only limit cs) (x : Signal) : tally.Only limit (cs.map (Condition.step x)) := by
  intro d hd
  obtain ⟨c, hc, rfl⟩ := List.mem_map.1 hd
  obtain ⟨used, rfl⟩ := h c hc
  exact ⟨tally.after x used, step_condition⟩

/-- A condition that shows its count is not fulfilled as long as resources are left. -/
theorem lt_of_resourcesLeft {now : Int} (hshows : tally.Shows k cs) (hlimited : tally.Limited limit cs)
    (h : resourcesLeft now cs = true) : k < limit := by
  obtain ⟨used, hmem⟩ := hlimited
  obtain rfl := hshows limit used hmem
  have hopen := List.all_eq_true.1 h _ hmem
  cases tally <;> simpa [condition, Condition.isFulfilled] using hopen

end Tally

end GoalSearch
