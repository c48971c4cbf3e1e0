import GoalSearch.Proofs.Number.Order
import GoalSearch.Proofs.Search.Closed
import Mathlib.Data.List.Induction

/-!
# What conditions show of the past

A condition follows the signals that it is told (`Condition.follow`). A signal that opens a search makes it forget all
earlier ones (`Condition.follow_restart`), and what it shows afterwards is read off the signals since
(`Condition.Shows`): how many generations or evaluations there were, the coverage and the memory that were told last,
and how many of the last generations left the coverage as it was before them. One signal after another keeps that true
(`Condition.Shows.step`). A run of a search, however it ends, tells its conditions just what it records
(`SearchM.heard_generate`).
-/

namespace GoalSearch

/-! ### Reading a history -/

namespace Signal

def isStart : Signal → Bool
  | .start _ => true
  | _ => false

def isIteration : Signal → Bool
  | .iteration _ _ => true
  | _ => false

def isEvaluation : Signal → Bool
  | .evaluation => true
  | _ => false

/-- The coverage of the snapshot that a signal brings. -/
def coverage? : Signal → Option Float
  | .first coverage => some coverage
  | .iteration coverage _ => some coverage
  | _ => none

/-- The sample of the memory in use that a signal brings, which may have failed. -/
def sample? : Signal → Option (Option Int)
  | .iteration _ sample => some sample
  | _ => none

/-- The coverage that was told last, beginning with one. -/
def reached (initial : Float) (history : List Signal) : Float := (history.filterMap coverage?).getLastD initial

/-- The coverage before and after each generation. -/
def turns (initial : Float) : List Signal → List (Float × Float)
  | [] => []
  | x :: history =>
    match x with
    | .first coverage => turns coverage history
    | .iteration coverage _ => (initial, coverage) :: turns coverage history
    | _ => turns initial history

/-- How many of the last generations left the coverage as it was before them. -/
def unchanged (history : List Signal) : Nat :=
  ((turns 0.0 history).reverse.takeWhile fun turn => turn.2 == turn.1).length

variable {x : Signal} {initial coverage : Float} {sample : Option Int} {history : List Signal}

theorem reached_append (initial : Float) (history : List Signal) (x : Signal) :
    reached initial (history ++ [x]) = x.coverage?.getD (reached initial history) := by
  unfold reached
  rw [List.filterMap_append]
  cases hx : x.coverage? <;> simp [hx]

theorem turns_append (initial : Float) (history : List Signal) (x : Signal) :
    turns initial (history ++ [x]) = turns initial history ++ turns (reached initial history) [x] := by
  induction history generalizing initial with
  | nil => rfl
  | cons y history ih =>
    cases y with
    | first coverage =>
      have hreached : reached initial (.first coverage :: history) = reached coverage history := List.getLastD_cons
      rw [hreached]
      exact ih coverage
    | iteration coverage sample =>
      have hreached : reached initial (.iteration coverage sample :: history) = reached coverage history :=
        List.getLastD_cons
      rw [hreached]
      exact congrArg ((initial, coverage) :: ·) (ih coverage)
    | _ => exact ih initial

theorem unchanged_iteration (coverage : Float) (sample : Option Int) (history : List Signal) :
    unchanged (history ++ [.iteration coverage sample]) =
      if coverage == reached 0.0 history then unchanged history + 1 else 0 := by
  unfold unchanged
  rw [turns_append, List.reverse_append]
  show ((((reached 0.0 history, coverage) :: (turns 0.0 history).reverse)).takeWhile _).length = _
  rw [List.takeWhile_cons]
  split <;> rfl

theorem unchanged_append (hx : x.isIteration = false) : unchanged (history ++ [x]) = unchanged history := by
  have hturns : turns (reached 0.0 history) [x] = [] := by
    cases x with
    | iteration coverage sample => cases hx
    | _ => rfl
  unfold unchanged
  rw [turns_append, hturns, List.append_nil]

end Signal

namespace Condition

/-- A condition after the signals of a history. -/
def follow (history : List Signal) (c : Condition) : Condition := history.foldl (fun c x => step x c) c

/-- What a condition became since a search was opened at a time: it keeps its limit, and shows what the signals since
then told. -/
def Shows (time : Int) (history : List Signal) : Condition → Condition → Prop
  | iterations limit _, d => d = iterations limit (history.countP Signal.isIteration)
  | evaluations limit _, d => d = evaluations limit (history.countP Signal.isEvaluation)
  | searchTime limit _, d => d = searchTime limit time
  | coverage limit _, d => d = coverage limit (((history.filterMap Signal.coverage?).getLast?.map percentage).getD 0)
  | plateau limit minimum _ _, d => ∃ last, d = plateau limit minimum (Signal.unchanged history) last ∧
      (last = Signal.reached 0.0 history ∨ (last == Signal.reached 0.0 history) = true)
  | memory limit _, d => d = memory limit ((history.filterMap Signal.sample?).getLast?.join.getD 0)

variable {time : Int} {before history : List Signal} {x : Signal} {c d : Condition}

/-- A signal that opens a search makes a condition forget the one before. -/
theorem step_start_step (time : Int) (x : Signal) (c : Condition) :
    step (.start time) (step x c) = step (.start time) c := by
  cases c with
  | plateau limit minimum used last =>
    cases x with
    | iteration coverage sample =>
      show step _ (if coverage == last then _ else _) = _
      split <;> rfl
    | _ => rfl
  | _ => cases x <;> rfl

theorem follow_restart (before : List Signal) (time : Int) (history : List Signal) (c : Condition) :
    follow (before ++ .start time :: history) c = follow history (step (.start time) c) := by
  induction before generalizing c with
  | nil => rfl
  | cons x before ih => exact (ih (step x c)).trans (congrArg (follow history) (step_start_step time x c))

theorem shows_start (time : Int) (c : Condition) : Shows time [] c (step (.start time) c) := by
  cases c with
  | plateau limit minimum used last => exact ⟨0.0, rfl, .inl rfl⟩
  | _ => rfl

/-- Equality of values that are told and a value that is kept. -/
theorem beq_congr {a b last : Float} (h : last = b ∨ (last == b) = true) : (a == last) = (a == b) := by
  rcases h with rfl | h
  · rfl
  · obtain ⟨p, hlast, hb⟩ := Binary64.beq_iff.1 h
    rw [Bool.eq_iff_iff, Binary64.beq_iff, Binary64.beq_iff, hlast, hb]

/-- One more signal is told and shown. -/
theorem Shows.step (h : Shows time history c d) (hx : x.isStart = false) :
    Shows time (history ++ [x]) c (Condition.step x d) := by
  cases c with
  | iterations limit used =>
    obtain rfl := h
    cases x with
    | start time => cases hx
    | _ => simp [Condition.step, Shows, Signal.isIteration]
  | evaluations limit used =>
    obtain rfl := h
    cases x with
    | start time => cases hx
    | _ => simp [Condition.step, Shows, Signal.isEvaluation]
  | searchTime limit start =>
    obtain rfl := h
    cases x with
    | start time => cases hx
    | _ => rfl
  | coverage limit used =>
    obtain rfl := h
    cases x with
    | start time => cases hx
    | _ => simp [Condition.step, Shows, Signal.coverage?]
  | memory limit used =>
    obtain rfl := h
    cases x with
    | start time => cases hx
    | _ => simp [Condition.step, Shows, Signal.sample?]
  | plateau limit minimum used last =>
    obtain ⟨last, rfl, hlast⟩ := h
    cases x with
    | start time => cases hx
    | first coverage =>
      refine ⟨coverage, ?_, .inl (Signal.reached_append 0.0 history (.first coverage)).symm⟩
      rw [Signal.unchanged_append rfl]
      rfl
    | iteration coverage sample =>
      have hreached : Signal.reached 0.0 (history ++ [.iteration coverage sample]) = coverage :=
        Signal.reached_append 0.0 history (.iteration coverage sample)
      rw [Shows, Condition.step, hreached, Signal.unchanged_iteration, beq_congr hlast]
      split
      · rename_i hequal
        rw [← beq_congr hlast] at hequal
        obtain ⟨p, hcoverage, hlast⟩ := Binary64.beq_iff.1 hequal
        exact ⟨last, rfl, .inr (Binary64.beq_iff.2 ⟨p, hlast, hcoverage⟩)⟩
      · exact ⟨coverage, rfl, .inl rfl⟩
    | _ =>
      refine ⟨last, ?_, ?_⟩
      · rw [Signal.unchanged_append rfl]
        rfl
      · rwa [Signal.reached_append]

theorem shows_follow (time : Int) (c : Condition) (h : ∀ x ∈ history, x.isStart = false) :
    Shows time history c (follow history (Condition.step (.start time) c)) := by
  induction history using List.reverseRecOn with
  | nil => exact shows_start time c
  | append_singleton history x ih =>
    have hshows := ih fun y hy => h y (List.mem_append_left _ hy)
    rw [follow, List.foldl_append]
    exact hshows.step (h x (List.mem_append_right _ (List.mem_singleton_self x)))

end Condition

/-! ### What a run tells -/

variable {σ ω : Type}

/-- An event is recorded with the signal that conditions get. -/
def Event.Tells : Event σ → Signal → Prop
  | .started time _, x => x = .start time
  | .evaluated .., x => x = .evaluation
  | .mutated .., x => x = .mutation
  | .first report, x => x = .first report.snapshot.coverage
  | .iteration _ report, x => ∃ sample, x = .iteration report.snapshot.coverage sample
  | .finished _, x => x = .finish

namespace Search

variable {s t : Search σ ω} {time : Int} {history : List Signal}

/-- Since it was opened at a time, a search recorded the signals that its conditions followed. -/
structure Heard (s : Search σ ω) (time : Int) (history : List Signal) (t : Search σ ω) : Prop where
  events : ∃ recorded, t.events.toList = s.events.toList ++ recorded ∧
    List.Forall₂ Event.Tells recorded (.start time :: history)
  goes : ∀ x ∈ history, x.isStart = false
  conditions : t.conditions = s.conditions.map fun c => (c.step (.start time)).follow history

namespace Heard

theorem started (s : Search σ ω) (time : Int) (phase : Phase) : s.Heard time []
    { s with
      phase := phase
      generation := 0
      conditions := s.conditions.map (Condition.step (.start time))
      events := s.events.push (.started time phase) } where
  events := ⟨[.started time phase], Array.toList_push, .cons rfl .nil⟩
  goes := nofun
  conditions := rfl

theorem told {event : Event σ} {x : Signal} (h : s.Heard time history t) (hx : event.Tells x)
    (hgoes : x.isStart = false) :
    s.Heard time (history ++ [x])
      { t with conditions := t.conditions.map (Condition.step x), events := t.events.push event } where
  events := by
    obtain ⟨recorded, hevents, htells⟩ := h.events
    refine ⟨recorded ++ [event], ?_, List.rel_append htells (.cons hx .nil)⟩
    rw [Array.toList_push, hevents, List.append_assoc]
  goes y hy := (List.mem_append.1 hy).elim (h.goes y) fun hy => List.mem_singleton.1 hy ▸ hgoes
  conditions := by
    show t.conditions.map _ = _
    rw [h.conditions, List.map_map]
    refine List.map_congr_left fun c _ => ?_
    rw [Condition.follow, List.foldl_append]
    rfl

end Heard

theorem stable_heard (s : Search σ ω) : Stable fun t => ∃ time history, s.Heard time history t where
  scene _ _ h := h.imp fun _ h => h.imp fun _ h => ⟨h.events, h.goes, h.conditions⟩
  note _ _ h := h.imp fun _ h => h.imp fun _ h => ⟨h.events, h.goes, h.conditions⟩
  depend _ _ h := h.imp fun _ h => h.imp fun _ h => ⟨h.events, h.goes, h.conditions⟩
  population _ _ h := h.imp fun _ h => h.imp fun _ h => ⟨h.events, h.goes, h.conditions⟩
  submit _ _ _ _ h := h.imp fun _ h => h.imp fun _ h => ⟨h.events, h.goes, h.conditions⟩
  mutated t i h := by
    obtain ⟨time, history, h⟩ := h
    have htold := h.told (show Event.Tells (.mutated i t.phase) .mutation from rfl) rfl
    rw [Condition.map_step_mutation] at htold
    exact ⟨time, _, htold⟩
  evaluated _ _ _ h := by
    obtain ⟨time, history, h⟩ := h
    exact ⟨time, _, h.told rfl rfl⟩

end Search

namespace SearchM

variable (setup : Setup σ ω) (s : Search σ ω)

/-- However a run ends, its conditions followed the signals that it recorded. -/
theorem heard_generate (fuel : Nat) :
    ∃ time history, s.Heard time history ((generate setup fuel).run s).2 := by
  have hstable := Search.stable_heard s
  have hinitialise : wp (initialise setup) (fun _ t => ∃ time history, s.Heard time history t)
      (fun _ t => ∃ time history, s.Heard time history t) s :=
    wp_initialise setup hstable.toIdle
      (wp_populate setup hstable fun time => ⟨time, [], .started s time .initializing⟩)
      fun t report ⟨time, history, h⟩ => ⟨time, _, h.told rfl rfl⟩
  suffices h : wp (generate setup fuel) (fun _ t => ∃ time history, s.Heard time history t)
      (fun _ t => ∃ time history, s.Heard time history t) s from wp_ends.1 h
  unfold generate
  refine wp_seq hinitialise fun _ t ht => ?_
  refine wp_seq (wp_advanceAll (P := fun _ t => ∃ time history, s.Heard time history t) (k := 0) ht
    (fun _ t ht _ => ?_) fun _ ht _ => ht) fun _ t ht => ?_
  · refine wp_advance setup hstable.toIdle hstable.toIdle (fun _ _ h => h.elim id id)
      (Keeps.iff_wp.1 (keeps_renew_of_stable setup hstable) _ (hstable.note t .evolving ht))
      (fun t ⟨time, history, h⟩ => ⟨time, history, h.events, h.goes, h.conditions⟩) ?_
    rintro t generation memory report ⟨time, history, h⟩
    exact ⟨time, _, h.told ⟨memory, rfl⟩ rfl⟩
  · obtain ⟨-, ⟨time, history, h⟩, -⟩ := ht
    have htold := h.told (show Event.Tells (.finished .done) .finish from rfl) rfl
    exact wp_finalise setup hstable.toScenic (hstable.note _ .done ⟨time, _, htold⟩)

end SearchM

/-- After any history of searches, each condition shows what the signals since the last start told, and a run leaves
its conditions as they show the signals that it recorded. -/
theorem conditions_of_history :
    (∀ (before history : List Signal) (time : Int) (c : Condition), (∀ x ∈ history, x.isStart = false) →
      Condition.Shows time history c (c.follow (before ++ .start time :: history))) ∧
    ∀ (setup : Setup σ ω) (fuel : Nat) (s : Search σ ω), ∃ time history,
      s.Heard time history ((SearchM.generate setup fuel).run s).2 ∧
      List.Forall₂ (Condition.Shows time history) s.conditions ((SearchM.generate setup fuel).run s).2.conditions := by
  constructor
  · intro before history time c h
    rw [Condition.follow_restart]
    exact Condition.shows_follow time c h
  · intro setup fuel s
    obtain ⟨time, history, h⟩ := SearchM.heard_generate setup s fuel
    refine ⟨time, history, h, ?_⟩
    rw [h.conditions, List.forall₂_map_right_iff, List.forall₂_same]
    exact fun c _ => Condition.shows_follow time c h.goes

/-- Two searches after one another, the first one with other coverage and memory in use than the second. -/
theorem conditions_of_history_reopened :
    let before : List Signal := [.start 0, .first 0.5, .iteration 0.5 (some 7), .iteration 0.5 (some 7), .finish]
    let history : List Signal := [.first 0.25, .evaluation, .iteration 0.5 (some 3), .iteration 0.5 (some 8), .mutation,
      .iteration 0.5 none]
    Condition.Shows 9 history (.plateau 3 0 0 0.0)
      ((Condition.plateau 3 0 0 0.0).follow (before ++ .start 9 :: history)) ∧
    Signal.unchanged history = 2 ∧
    (Condition.memory 5 0).follow (before ++ .start 9 :: history) = .memory 5 0 ∧
    (Condition.iterations 4 0).follow (before ++ .start 9 :: history) = .iterations 4 3 := by
  intro before history
  have hshows := (conditions_of_history (σ := Unit) (ω := Unit)).1 before history 9
  have hgoes : ∀ x ∈ history, x.isStart = false := by decide
  exact ⟨hshows _ hgoes, by decide +kernel, hshows (.memory 5 0) hgoes, hshows (.iterations 4 0) hgoes⟩

end GoalSearch
