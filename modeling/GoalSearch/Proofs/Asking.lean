import GoalSearch.Proofs.Aging
import GoalSearch.Proofs.Fitness
import GoalSearch.Random.Generator
import GoalSearch.Search.Evolution

/-!
# Who asks the evaluators

A subject may keep an account of its evaluators in its surroundings (`Subject.Observes`), such as what they are asked
about (`Subject.Records`) or what they answer (`Subject.Answers`); every subject can be made to do so
(`Subject.recorded`, `Subject.observed`). An evaluation asks the evaluator of every goal once
(`Subject.Records.asked_foldl_asking`). Draws, mutations and all steps on a scene but those that compute fitness values
ask nobody: they are `Quiet`, so that any such account stays as it is.
-/

namespace GoalSearch

variable {σ ω α : Type}

namespace Subject

/-- `asked w n` lists what the evaluator of the goal `n` was asked about until the surroundings became `w`. -/
structure Records (subject : Subject σ ω) (asked : ω → Nat → List (Content σ)) : Prop where
  evaluate : ∀ n content w k,
    asked (subject.evaluate n content w).2 k = asked w k ++ if n = k then [content] else []
  mutate : ∀ n statements w, asked (subject.mutate n (statements, w)).2.2 = asked w
  make : ∀ w, asked (subject.make w).2 = asked w
  notice : ∀ x w, asked (subject.notice x w) = asked w
  nextUnit : ∀ w, asked (subject.random.nextUnit w).2 = asked w
  nextBelow : ∀ n w, asked (subject.random.nextBelow n w).2 = asked w

/-- The subject with a record of what its evaluators are asked about. -/
def recorded (subject : Subject σ ω) : Subject σ (ω × (Nat → List (Content σ))) where
  random := subject.random.within Prod.fst fun w r => (w, r.2)
  seed r := subject.seed r.1
  now r := subject.now r.1
  memory r := subject.memory r.1
  notice x r := (subject.notice x r.1, r.2)
  evaluate n content r :=
    let (verdict, w) := subject.evaluate n content r.1
    (verdict, w, fun k => r.2 k ++ if n = k then [content] else [])
  parent := subject.parent
  maximised := subject.maximised
  mutate n := fun (statements, r) =>
    let (result, statements, w) := subject.mutate n (statements, r.1)
    (result, statements, w, r.2)
  make r :=
    let (result, w) := subject.make r.1
    (result, w, r.2)

/-- `look w n` lists what there was to see, each time that the evaluator of the goal `n` was asked until the surroundings
became `w`. -/
structure Observes (subject : Subject σ ω) (seen : Nat → Content σ → ω → α) (look : ω → Nat → List α) : Prop where
  evaluate : ∀ n content w k,
    look (subject.evaluate n content w).2 k = look w k ++ if n = k then [seen n content w] else []
  mutate : ∀ n statements w, look (subject.mutate n (statements, w)).2.2 = look w
  make : ∀ w, look (subject.make w).2 = look w
  notice : ∀ x w, look (subject.notice x w) = look w
  nextUnit : ∀ w, look (subject.random.nextUnit w).2 = look w
  nextBelow : ∀ n w, look (subject.random.nextBelow n w).2 = look w

theorem Records.observes {subject : Subject σ ω} {asked : ω → Nat → List (Content σ)} (h : subject.Records asked) :
    subject.Observes (fun _ content _ => content) asked :=
  ⟨h.evaluate, h.mutate, h.make, h.notice, h.nextUnit, h.nextBelow⟩

/-- `answered w n` lists the answers of the evaluator of the goal `n` until the surroundings became `w`. -/
def Answers (subject : Subject σ ω) (answered : ω → Nat → List Verdict) : Prop :=
  subject.Observes (fun n content w => (subject.evaluate n content w).1) answered

/-- The subject with an account of what its evaluators are asked about and of what there is to see then. -/
def observed (subject : Subject σ ω) (seen : Nat → Content σ → ω → α) : Subject σ (ω × (Nat → List α)) where
  random := subject.random.within Prod.fst fun w r => (w, r.2)
  seed r := subject.seed r.1
  now r := subject.now r.1
  memory r := subject.memory r.1
  notice x r := (subject.notice x r.1, r.2)
  evaluate n content r :=
    let (verdict, w) := subject.evaluate n content r.1
    (verdict, w, fun k => r.2 k ++ if n = k then [seen n content r.1] else [])
  parent := subject.parent
  maximised := subject.maximised
  mutate n := fun (statements, r) =>
    let (result, statements, w) := subject.mutate n (statements, r.1)
    (result, statements, w, r.2)
  make r :=
    let (result, w) := subject.make r.1
    (result, w, r.2)

theorem observes_observed (subject : Subject σ ω) (seen : Nat → Content σ → ω → α) :
    (subject.observed seen).Observes (fun n content r => seen n content r.1) Prod.snd where
  evaluate _ _ _ _ := rfl
  mutate _ _ _ := rfl
  make _ := rfl
  notice _ _ := rfl
  nextUnit _ := rfl
  nextBelow _ _ := rfl

theorem records_recorded (subject : Subject σ ω) : subject.recorded.Records Prod.snd where
  evaluate _ _ _ _ := rfl
  mutate _ _ _ := rfl
  make _ := rfl
  notice _ _ := rfl
  nextUnit _ := rfl
  nextBelow _ _ := rfl

/-- The subject with an account of the answers of its evaluators. -/
theorem answers_observed (subject : Subject σ ω) :
    (subject.observed fun n content w => (subject.evaluate n content w).1).Answers Prod.snd :=
  observes_observed subject _

variable {subject : Subject σ ω}

theorem Observes.look_asking {seen : Nat → Content σ → ω → α} {look : ω → Nat → List α}
    (h : subject.Observes seen look) (g : Goal) (content : Content σ) (w : ω) (k : Nat) :
    look (subject.asking g content w) k = look w k ++ if g = .atom k then [seen k content w] else [] := by
  cases g with
  | atom n =>
    rw [asking, h.evaluate]
    by_cases hk : n = k
    · simp [hk]
    · simp [hk]
  | overSuite serial inner => simp [asking]

namespace Records
variable {asked : ω → Nat → List (Content σ)} (h : subject.Records asked)
include h

theorem asked_asking (g : Goal) (content : Content σ) (w : ω) (k : Nat) :
    asked (subject.asking g content w) k = asked w k ++ if g = .atom k then [content] else [] :=
  h.observes.look_asking g content w k

/-- An evaluation asks the evaluator of every goal once. -/
theorem asked_foldl_asking {goals : List Goal} (hnodup : goals.Nodup) (content : Content σ) (w : ω) (k : Nat) :
    asked (goals.foldl (fun w g => subject.asking g content w) w) k =
      asked w k ++ if .atom k ∈ goals then [content] else [] := by
  induction goals generalizing w with
  | nil => simp
  | cons g goals ih =>
    obtain ⟨hg, hnodup⟩ := List.nodup_cons.1 hnodup
    rw [List.foldl_cons, ih hnodup, h.asked_asking]
    by_cases hk : g = .atom k
    · simp [← hk, hg]
    · simp [hk, Ne.symm hk]

end Records

/-! ### Asking nobody -/

/-- On the way from `w` to `w'` no evaluator was asked: any account of them stayed as it was. -/
def Quiet (subject : Subject σ ω) (w w' : ω) : Prop :=
  ∀ ⦃α : Type⦄ ⦃seen : Nat → Content σ → ω → α⦄ ⦃look : ω → Nat → List α⦄, subject.Observes seen look → look w' = look w

namespace Quiet
variable {w w' : ω}

theorem refl (subject : Subject σ ω) (w : ω) : subject.Quiet w w := fun _ _ _ _ => rfl

theorem asked_eq (h : subject.Quiet w w') {asked : ω → Nat → List (Content σ)} (hasked : subject.Records asked) :
    asked w' = asked w := h hasked.observes

theorem mutate (h : subject.Quiet w w') (n : Nat) (statements : List σ) :
    subject.Quiet w (subject.mutate n (statements, w')).2.2 :=
  fun _ _ _ hlook => (hlook.mutate n statements w').trans (h hlook)

theorem make (h : subject.Quiet w w') : subject.Quiet w (subject.make w').2 :=
  fun _ _ _ hlook => (hlook.make w').trans (h hlook)

theorem notice (h : subject.Quiet w w') (x : Occasion) : subject.Quiet w (subject.notice x w') :=
  fun _ _ _ hlook => (hlook.notice x w').trans (h hlook)

theorem nextUnit (h : subject.Quiet w w') : subject.Quiet w (subject.random.nextUnit w').2 :=
  fun _ _ _ hlook => (hlook.nextUnit w').trans (h hlook)

theorem nextBelow (h : subject.Quiet w w') (n : Nat) : subject.Quiet w (subject.random.nextBelow n w').2 :=
  fun _ _ _ hlook => (hlook.nextBelow n w').trans (h hlook)

variable (subject w)

theorem keeps_bool : Keeps (subject.Quiet w) subject.random.bool := by
  have hunit : Keeps (subject.Quiet w) subject.random.unit := fun _ h => h.nextUnit
  exact hunit.bind fun _ => .pure _

theorem keeps_int (low high : Int) : Keeps (subject.Quiet w) (subject.random.int low high) := by
  intro w' h
  show subject.Quiet w (subject.random.int low high w').2
  unfold RandomSource.int
  split
  · exact h
  · exact h.nextBelow _

theorem keeps_choice (xs : List α) : Keeps (subject.Quiet w) (subject.random.choice xs) := by
  intro w' h
  show subject.Quiet w (subject.random.choice xs w').2
  unfold RandomSource.choice
  split
  · exact h.nextBelow _
  · exact h

theorem keeps_index {β : Type} [LT β] [DecidableLT β] (rank : Nat → Int) (distance : Nat → β) (count size : Nat) :
    Keeps (subject.Quiet w) (Tournament.index subject.random rank distance count size) := by
  have hrounds : ∀ n winner, Keeps (subject.Quiet w)
      (Tournament.rounds subject.random (Tournament.beats rank distance) count n winner) := by
    intro n
    induction n with
    | zero => exact fun _ => .pure _
    | succ n ih => exact fun _ => (keeps_int subject w _ _).bind fun _ => ih _
  exact (keeps_int subject w _ _).bind fun _ => hrounds _ _

end Quiet

end Subject

/-! ### Steps on a scene -/

namespace Scene

/-- A property of the surroundings alone. -/
def Outside (P : ω → Prop) (s : Scene σ ω) : Prop := P s.outside

theorem timeless_outside (P : ω → Prop) : Timeless (σ := σ) (Outside P) := ⟨fun _ _ hs => hs, fun _ _ _ _ hs => hs⟩

end Scene

theorem SceneM.keeps_act {P : ω → Prop} {f : ω → Except Fault α × ω} (hf : Keeps P (f : ExceptT Fault (StateM ω) α)) :
    Keeps (Scene.Outside P) (act f : SceneM σ ω α) := fun s hs => hf s.outside hs

/-- A mutation asks no evaluator. -/
theorem Individual.quiet_mutate (subject : Subject σ ω) (w : ω) (i : Nat) :
    Keeps (Scene.Outside (subject.Quiet w)) (mutate subject i) := by
  refine keeps_mutate (Scene.timeless_outside _) (fun n statements s hs => ?_) i
  have hquiet : subject.Quiet w s.outside := hs
  exact hquiet.mutate n statements

theorem SearchResult.keeps_toSuite {P : ω → Prop} (subject : Subject σ ω) (r : SearchResult) :
    Keeps (Scene.Outside P) (r.toSuite subject) := by
  unfold toSuite
  have htimeless : Scene.Timeless (Scene.Outside (σ := σ) P) := Scene.timeless_outside P
  refine .bind (.mapM (Individual.keeps_clone htimeless)) fun members => ?_
  refine .bind (fun s hs => htimeless.push s _ hs) fun suite => ?_
  exact .bind (.forM fun p => Individual.keeps_addFunction htimeless suite _) fun _ => .pure _

end GoalSearch
