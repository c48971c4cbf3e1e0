import GoalSearch.Proofs.Faithful
import GoalSearch.Proofs.Variation
import GoalSearch.Sample.Subject
import Mathlib.Algebra.Ring.Nat

/-!
# Families of test cases

A family of test cases is read, changed and copied in any order (`Request`, `history`). If operators own up to what they
alter, every request leaves the whole family faithful (`Request.served`). So every value that is read is the value of the
present statements, and no evaluator is asked twice about a member that nothing disturbed in between
(`answers_of_history`).
-/

namespace GoalSearch

variable {σ ω : Type}

/-! ### Requests -/

/-- What may be asked of a test case, or done to it. -/
inductive Request where
  | fitness (g : Goal)
  | covers (g : Goal)
  | coverage
  | addFunction (g : Goal)
  | mutate
  | clone
  | invalidate
  /-- Marks the test case as changed. -/
  | touch
  | setAge (generation : Int)
deriving DecidableEq

inductive Reply where
  | done
  | value (v : Float)
  | verdict (covered : Bool)
  | member (i : Nat)

namespace Request

def perform (subject : Subject σ ω) (i : Nat) : Request → SceneM σ ω Reply
  | fitness g => return .value (← GoalSearch.fitness subject g i)
  | covers g => return .verdict (← Individual.covers subject g i)
  | coverage => return .value (← Individual.coverage subject i)
  | addFunction g => do
    Individual.addFunction subject i g
    return .done
  | mutate => do
    Individual.mutate subject i
    return .done
  | clone => return .member (← Individual.clone i)
  | invalidate => do
    Individual.invalidate i
    return .done
  | touch => do
    SceneM.update i fun x => { x with changed := true }
    return .done
  | setAge generation => do
    Individual.setAge i generation
    return .done

/-- The answer to a request that reads fitness values, from the value of each goal. -/
def answer (value : Goal → Except Fault Float) (functions : List Goal) : Request → Option (Except Fault Reply)
  | fitness g => some ((value g).map .value)
  | covers g => some (((value g).map (· == 0.0)).map .verdict)
  | coverage =>
    let ratio := do
      let verdicts ← functions.mapM fun g => (value g).map (· == 0.0)
      return coverageRatio (verdicts.count true) functions.length
    some (ratio.map .value)
  | _ => none

/-- The request marks the individual as changed, which a mutation does if its operator says so, or makes it forget the
values that it knows. -/
def disturbs (subject : Subject σ ω) (x : Individual σ) (w : ω) : Request → Bool
  | mutate =>
    match x.content with
    | .testCase statements (some operator) => (subject.mutate operator (statements, w)).1.toOption == some true
    | _ => false
  | invalidate => true
  | touch => true
  | _ => false

end Request

/-- A request to a member, with the scene that it met and what came of it. -/
structure Entry (σ ω : Type) where
  member : Nat
  request : Request
  before : Scene σ ω
  reply : Except Fault Reply
  after : Scene σ ω

/-- Requests to members of a family, one after the other; one that ends with a fault does not stop the next ones. -/
def history (subject : Subject σ ω) : Scene σ ω → List (Nat × Request) → List (Entry σ ω)
  | _, [] => []
  | s, (i, r) :: rest =>
    let ended := (r.perform subject i).run s
    ⟨i, r, s, ended.1, ended.2⟩ :: history subject ended.2 rest

namespace Entry
variable (e : Entry σ ω)

/-- The member as the request met it. -/
def individual : Individual σ := e.before.individual e.member

/-- How often the evaluator of the goal `n` was asked. -/
def asks (asked : ω → Nat → List (Content σ)) (n : Nat) : Nat :=
  (asked e.after.outside n).length - (asked e.before.outside n).length

def disturbs (subject : Subject σ ω) : Bool := e.request.disturbs subject e.individual e.before.outside

end Entry

/-! ### Serving requests -/

variable {subject : Subject σ ω} {judge : Nat → List σ → Verdict} {s t : Scene σ ω} {i n : Nat}

def Scene.Faithful (judge : Nat → List σ → Verdict) (s : Scene σ ω) : Prop :=
  ∀ i < s.pool.size, (s.individual i).Faithful judge

/-- A request to the member `i` leaves all other ones alone, and the whole family up to date. -/
structure Serves (judge : Nat → List σ → Verdict) (i : Nat) (s t : Scene σ ω) : Prop where
  others : ∀ j < s.pool.size, j ≠ i → t.individual j = s.individual j
  faithful : t.Faithful judge

namespace Serves

theorem of_sets {x : Individual σ} (hs : s.Faithful judge) (ht : s.Sets i x t) (hx : x.Faithful judge) :
    Serves judge i s t where
  others j _ hj := ht.others j hj
  faithful j hj := by
    by_cases hij : j = i
    · rw [hij, ht.self]
      exact hx
    · rw [ht.others j hij]
      exact hs j (ht.size ▸ hj)

theorem push (hs : s.Faithful judge) (hi : i < s.pool.size) : Serves judge i s (s.push (s.individual i)) where
  others j hj _ := Scene.individual_push_lt hj
  faithful j hj := by
    by_cases hlt : j < s.pool.size
    · rw [Scene.individual_push_lt hlt]
      exact hs j hlt
    · rw [Scene.size_push] at hj
      rw [show j = s.pool.size by omega, Scene.individual_push_size]
      exact hs i hi

end Serves

namespace Request

/-- However a request ends, it leaves all other individuals alone and the member up to date. Only a mutation that tells of
it changes the content. Nothing is asked for twice unless the request disturbs the member. -/
structure Turns (subject : Subject σ ω) (judge : Nat → List σ → Verdict) (i : Nat) (r : Request) (s t : Scene σ ω) :
    Prop where
  sets : s.Sets i (t.individual i) t
  faithful : (t.individual i).Faithful judge
  content : (r = .mutate → r.disturbs subject (s.individual i) s.outside = false) →
    (t.individual i).content = (s.individual i).content
  asks : r.disturbs subject (s.individual i) s.outside = false → AsksOnce subject judge i s t

/-- However a request ends, it leaves the family up to date, and asks for nothing twice unless it disturbs the
member. -/
structure Leaves (subject : Subject σ ω) (judge : Nat → List σ → Verdict) (i : Nat) (r : Request) (s t : Scene σ ω) :
    Prop where
  serves : Serves judge i s t
  asks : r.disturbs subject (s.individual i) s.outside = false → AsksOnce subject judge i s t

/-- What a request leaves, and that it is answered as if every value was computed anew if it reads. -/
structure Served (subject : Subject σ ω) (judge : Nat → List σ → Verdict) (i : Nat) (r : Request) (s : Scene σ ω)
    (reply : Except Fault Reply) (t : Scene σ ω) : Prop extends Leaves subject judge i r s t where
  answered : ∀ a ∈ r.answer (currentFitness judge (s.individual i)) (s.individual i).functions, reply = a

namespace Turns
variable {r : Request}

theorem leaves (h : Turns subject judge i r s t) (hs : s.Faithful judge) : Leaves subject judge i r s t :=
  ⟨.of_sets hs h.sets h.faithful, h.asks⟩

theorem refl (hx : (s.individual i).Faithful judge) : Turns subject judge i r s s :=
  ⟨⟨rfl, rfl, fun _ _ => rfl⟩, hx, fun _ => rfl, fun _ => .of_quiet (.refl _ _) fun _ => rfl⟩

theorem of_gives {x : SceneM σ ω Reply} {a : Except Fault Reply} (h : Gives (Reads subject judge i s) x a s) :
    Turns subject judge i r s (x.run s).2 :=
  have ht := (Gives.iff.1 h).2
  ⟨ht.sets, ht.faithful, fun _ => ht.content, fun _ => ht.asks⟩

/-- What a request leaves that does not read. -/
theorem of_wp {x : SceneM σ ω Unit}
    (h : wp x (fun _ => Turns subject judge i r s) (fun _ => Turns subject judge i r s) s) :
    Turns subject judge i r s ((x >>= fun _ => pure Reply.done).run s).2 :=
  wp_ends.1 (wp_bind.2 h)

end Turns

section
variable (hi : i < s.pool.size) (hx : (s.individual i).Faithful judge)
include hi hx

theorem wp_mutate_turns (hhonest : subject.Honest) :
    wp (Individual.mutate subject i) (fun _ => Turns subject judge i .mutate s)
      (fun _ => Turns subject judge i .mutate s) s := by
  obtain ⟨statements, operator, hcontent⟩ := hx.testCase
  cases operator with
  | none =>
    unfold Individual.mutate
    rw [wp_bind, SceneM.wp_individual, hcontent]
    exact .refl hx
  | some operator =>
    have hquiet : subject.Quiet s.outside (subject.mutate operator (statements, s.outside)).2.2 :=
      (Subject.Quiet.refl _ _).mutate _ _
    -- an operator that claims no change leaves the individual as it was
    have hidle : ∀ t, (subject.mutate operator (statements, s.outside)).1 ≠ .ok true →
        t.outside = (subject.mutate operator (statements, s.outside)).2.2 →
        s.Sets i
          { s.individual i with
            content := .testCase (subject.mutate operator (statements, s.outside)).2.1 (some operator) } t →
        Turns subject judge i .mutate s t := by
      intro t hne houtside ht
      rw [hhonest operator statements s.outside hne, ← hcontent] at ht
      refine ⟨ht.self.symm ▸ ht, ht.self.symm ▸ hx, fun _ => by rw [ht.self], fun _ =>
        .of_quiet (houtside ▸ hquiet) fun g => by rw [ht.self]⟩
    refine wp_mono (Individual.wp_mutate hi hcontent) ?_ ?_
    · rintro _ t ⟨altered, hresult, houtside, ht⟩
      cases altered with
      | false => exact hidle t (by rw [hresult]; simp) houtside ht
      | true =>
        have hdisturbs : mutate.disturbs subject (s.individual i) s.outside = true := by
          simp [disturbs, hcontent, hresult, Except.toOption]
        refine ⟨ht.self.symm ▸ ht, ht.self.symm ▸ .of_changed ⟨_, _, rfl⟩ rfl, fun h => ?_, fun h => ?_⟩
        · exact absurd ((h rfl).symm.trans hdisturbs) Bool.false_ne_true
        · exact absurd (h.symm.trans hdisturbs) Bool.false_ne_true
    · rintro e t ⟨hresult, houtside, ht⟩
      exact hidle t (by rw [hresult]; simp) houtside ht

omit hx in
theorem wp_update_turns {r : Request} {f : Individual σ → Individual σ} (hf : (f (s.individual i)).Faithful judge)
    (hcontent : (f (s.individual i)).content = (s.individual i).content)
    (hrecalled : r.disturbs subject (s.individual i) s.outside = false →
      ∀ g, (f (s.individual i)).recalled g = (s.individual i).recalled g) :
    wp (SceneM.update i f : SceneM σ ω Unit) (fun _ => Turns subject judge i r s)
      (fun _ => Turns subject judge i r s) s := by
  have hsets : s.Sets i (f (s.individual i)) (s.modify i f) := Scene.sets_modify hi
  refine ⟨hsets.self.symm ▸ hsets, hsets.self.symm ▸ hf, fun _ => hsets.self.symm ▸ hcontent, fun h =>
    .of_quiet (.refl _ _) fun g => ?_⟩
  show ((s.modify i f).individual i).recalled g = _
  rw [Scene.individual_modify_self hi, hrecalled h]

/-- Notes on an individual that say nothing about its content, nor what it knows. -/
theorem wp_note_turns {r : Request} {f : Individual σ → Individual σ}
    (hcontent : (f (s.individual i)).content = (s.individual i).content)
    (hchanged : (f (s.individual i)).changed = (s.individual i).changed)
    (hcache : (f (s.individual i)).cache = (s.individual i).cache) :
    wp (SceneM.update i f : SceneM σ ω Unit) (fun _ => Turns subject judge i r s)
      (fun _ => Turns subject judge i r s) s := by
  have hrecalled : ∀ g, (f (s.individual i)).recalled g = (s.individual i).recalled g := fun _ =>
    Individual.recalled_congr hchanged hcache
  exact wp_update_turns hi (hx.of_content hcontent fun g v hv => hrecalled g ▸ hv) hcontent fun _ => hrecalled

/-- Every request but a copy is about the member alone. -/
theorem turns (hjudge : subject.Judges judge) (hhonest : subject.Honest) {r : Request} (hr : r ≠ .clone) :
    Turns subject judge i r s ((r.perform subject i).run s).2 := by
  cases r with
  | fitness g => exact .of_gives (gives_fitness hjudge hi hx).map
  | covers g => exact .of_gives (gives_covers hjudge hi hx).map
  | coverage => exact .of_gives (gives_coverage hjudge hi hx).map
  | addFunction g =>
    refine .of_wp ?_
    unfold Individual.addFunction
    split
    · exact .refl hx
    · exact wp_note_turns hi hx rfl rfl rfl
  | mutate => exact .of_wp (wp_mutate_turns hi hx hhonest)
  | clone => exact absurd rfl hr
  | invalidate =>
    refine .of_wp (wp_update_turns hi (hx.of_content rfl fun g v hv => ?_) rfl fun h => by cases h)
    rw [Individual.recalled_forgotten] at hv
    cases hv
  | touch => exact .of_wp (wp_update_turns hi (.of_changed hx.testCase rfl) rfl fun h => by cases h)
  | setAge generation => exact .of_wp (wp_note_turns hi hx rfl rfl rfl)

/-- A request that reads is answered as if every value was computed anew. -/
theorem answered (hjudge : subject.Judges judge) (r : Request) :
    ∀ a ∈ r.answer (currentFitness judge (s.individual i)) (s.individual i).functions,
      ((r.perform subject i).run s).1 = a := by
  cases r with
  | fitness g => rintro a ⟨⟩; exact (Gives.iff.1 (gives_fitness hjudge hi hx).map).1
  | covers g => rintro a ⟨⟩; exact (Gives.iff.1 (gives_covers hjudge hi hx).map).1
  | coverage => rintro a ⟨⟩; exact (Gives.iff.1 (gives_coverage hjudge hi hx).map).1
  | _ => rintro a ⟨⟩

end

theorem served (hs : s.Faithful judge) (hi : i < s.pool.size) (hjudge : subject.Judges judge)
    (hhonest : subject.Honest) (r : Request) :
    Served subject judge i r s ((r.perform subject i).run s).1 ((r.perform subject i).run s).2 := by
  have hx := hs i hi
  refine ⟨?_, answered hi hx hjudge r⟩
  by_cases hr : r = .clone
  · subst hr
    have hrun : (clone.perform subject i).run s = (.ok (.member s.pool.size), s.push (s.individual i)) := by
      unfold perform
      rw [run_bind, Individual.run_clone hx.testCase]
      rfl
    rw [hrun]
    refine ⟨.push hs hi, fun _ => .of_quiet (.refl _ _) fun g => ?_⟩
    rw [Scene.individual_push_lt hi]
  · exact (turns hi hx hjudge hhonest hr).leaves hs

end Request

/-! ### Histories -/

section History
variable {requests : List (Nat × Request)} {e : Entry σ ω} {stretch : List (Entry σ ω)}

/-- The requests of a history were addressed to members. -/
def Addressed (entries : List (Entry σ ω)) : Prop := ∀ e ∈ entries, e.member < e.before.pool.size

/-- Every entry of a history begins with the family up to date. -/
theorem served_of_mem_history (hjudge : subject.Judges judge) (hhonest : subject.Honest) (hs : s.Faithful judge)
    (hmembers : Addressed (history subject s requests)) :
    ∀ e ∈ history subject s requests,
      e.before.Faithful judge ∧ Request.Served subject judge e.member e.request e.before e.reply e.after := by
  induction requests generalizing s with
  | nil => simp [history]
  | cons p requests ih =>
    obtain ⟨i, r⟩ := p
    unfold history at hmembers ⊢
    have hserved := Request.served hs (hmembers _ List.mem_cons_self) hjudge hhonest r
    rintro e (_ | ⟨_, he⟩)
    · exact ⟨hs, hserved⟩
    · exact ih hserved.serves.faithful (fun e he => hmembers e (List.mem_cons_of_mem _ he)) e he

section Counting
variable (hjudge : subject.Judges judge) (hhonest : subject.Honest) {asked : ω → Nat → List (Content σ)}
  (hasked : subject.Records asked) (hn : ∀ statements fault, judge n statements ≠ .abort fault)
  (hstretch : ∀ e ∈ stretch, e.member = i → e.disturbs subject = false)
include hjudge hhonest hasked hn hstretch

/-- As long as a member is not disturbed, an evaluator is asked about it only if no value is recalled at first, and then
once. -/
theorem sum_asks_le_of_isPrefix (hs : s.Faithful judge) (hmembers : Addressed (history subject s requests))
    (h : stretch <+: history subject s requests) :
    ((stretch.filter (·.member = i)).map (·.asks asked n)).sum +
      ((s.individual i).recalled (.atom n)).isSome.toNat ≤ 1 := by
  induction requests generalizing s stretch with
  | nil =>
    rw [List.prefix_nil.1 h]
    simpa using Bool.toNat_le _
  | cons p requests ih =>
    obtain ⟨j, r⟩ := p
    rw [history] at hmembers h
    cases stretch with
    | nil => simpa using Bool.toNat_le _
    | cons e stretch =>
      obtain ⟨rfl, htail⟩ := List.cons_prefix_cons.1 h
      have hj : j < s.pool.size := hmembers _ List.mem_cons_self
      have hserved := Request.served hs hj hjudge hhonest r
      set t := ((r.perform subject j).run s).2
      have hrest := ih (fun e he => hstretch e (List.mem_cons_of_mem _ he)) hserved.serves.faithful
        (fun e he => hmembers e (List.mem_cons_of_mem _ he)) htail
      rw [List.filter_cons]
      by_cases hij : j = i
      · subst hij
        obtain ⟨hgrows, hasks⟩ := hserved.asks (hstretch _ List.mem_cons_self rfl) asked hasked n hn
        rw [ite_eq_left_iff.2 fun h => absurd (decide_eq_true rfl) h, List.map_cons, List.sum_cons, Entry.asks]
        dsimp only
        omega
      · -- the member may be one that is yet to come
        have hknown : ((s.individual i).recalled (.atom n)).isSome.toNat ≤
            ((t.individual i).recalled (.atom n)).isSome.toNat := by
          by_cases hi : i < s.pool.size
          · rw [hserved.serves.others i hi fun h => hij h.symm]
          · rw [Scene.individual_of_le (Nat.not_lt.1 hi), Individual.recalled_of_changed rfl]
            exact Nat.zero_le _
        rw [ite_eq_right_iff.2 fun h => absurd (of_decide_eq_true h) hij]
        omega

theorem sum_asks_le_of_isInfix (hs : s.Faithful judge) (hmembers : Addressed (history subject s requests))
    (h : stretch <:+: history subject s requests) :
    ((stretch.filter (·.member = i)).map (·.asks asked n)).sum ≤ 1 := by
  have hle {t : Scene σ ω} {rest} (ht : t.Faithful judge) (hrest : Addressed (history subject t rest))
      (h : stretch <+: history subject t rest) : ((stretch.filter (·.member = i)).map (·.asks asked n)).sum ≤ 1 :=
    (Nat.le_add_right _ _).trans (sum_asks_le_of_isPrefix hjudge hhonest hasked hn hstretch ht hrest h)
  induction requests generalizing s with
  | nil => exact hle hs hmembers (List.infix_nil.1 h ▸ List.nil_prefix)
  | cons p requests ih =>
    have hhead := hmembers
    rw [history] at hhead h
    rcases List.infix_cons_iff.1 h with h | h
    · exact hle hs hmembers h
    · have hserved := Request.served hs (hhead _ List.mem_cons_self) hjudge hhonest p.2
      exact ih hserved.serves.faithful (fun e he => hhead e (List.mem_cons_of_mem _ he)) h

end Counting

/-- Whatever is asked of a family of new test cases, or done to them and their copies: every reading is answered as if
each value was computed anew from the present statements, and as long as nothing disturbs a member, an evaluator that
always comes back is asked about it at most once. -/
theorem answers_of_history (hjudge : subject.Judges judge) (hhonest : subject.Honest)
    (hnew : ∀ i < s.pool.size, (s.individual i).IsTestCase ∧ (s.individual i).changed = true)
    (hmembers : Addressed (history subject s requests)) :
    (∀ e ∈ history subject s requests,
      ∀ a ∈ e.request.answer (currentFitness judge e.individual) e.individual.functions, e.reply = a) ∧
    ∀ stretch, stretch <:+: history subject s requests → ∀ i, (∀ e ∈ stretch, e.member = i → e.disturbs subject = false) →
      ∀ asked, subject.Records asked → ∀ n, (∀ statements fault, judge n statements ≠ .abort fault) →
        ((stretch.filter (·.member = i)).map (·.asks asked n)).sum ≤ 1 := by
  have hs : s.Faithful judge := fun i hi => .of_changed (hnew i hi).1 (hnew i hi).2
  refine ⟨fun e he a ha => ?_, fun stretch h i hstretch asked hasked n hn => ?_⟩
  · exact (served_of_mem_history hjudge hhonest hs hmembers e he).2.answered a ha
  · exact sum_asks_le_of_isInfix hjudge hhonest hasked hn hstretch hs hmembers h

end History

/-! ### A small family -/

namespace Sample

/-- The one goal is to be long, and mutations append. -/
def longEnough : Parts where
  goals := #[⟨"long", .sizeBelow (.int 2), none, false⟩]
  operators := #[.append (.int 0)]

def lengthVerdict : Nat → List Statement → Verdict
  | 0, statements => (Evaluator.sizeBelow (.int 2)).evaluate 0 (.testCase statements none)
  | _, _ => .failure

theorem longEnough_judges : longEnough.subject.recorded.Judges lengthVerdict := by
  rintro (_ | n) statements operator w
  · rfl
  · simp [Subject.recorded, Parts.subject, Parts.evaluate, longEnough, lengthVerdict]

theorem longEnough_honest : longEnough.subject.recorded.Honest := by
  rintro (_ | n) statements w hresult
  · exact absurd rfl hresult
  · simp [Subject.recorded, Parts.subject, longEnough]
    rfl

/-- A short test case is copied, the copy grows, and both of them are read, the copy twice. -/
def visits : List (Entry Statement (World × (Nat → List (Content Statement)))) :=
  history longEnough.subject.recorded
    ⟨#[{ content := .testCase [.int 1] (some 0) }],
      ({ generator := .scripted ⟨#[], #[], #[], 0, 0, 0⟩ }, fun _ => []), #[]⟩
    [(0, .covers (.atom 0)), (0, .clone), (1, .mutate), (1, .covers (.atom 0)), (0, .covers (.atom 0)),
      (1, .covers (.atom 0))]

end Sample

/-- The copy covers the goal and the other one does not, and the copy is evaluated no more than once. -/
theorem answers_of_history_visits :
    (∀ e ∈ Sample.visits.drop 3,
      e.reply = ((currentFitness Sample.lengthVerdict e.individual (.atom 0)).map (· == 0.0)).map .verdict) ∧
    ((Sample.visits.drop 3).map fun e => (currentFitness Sample.lengthVerdict e.individual (.atom 0)).toOption.map
      (· == 0.0)) = [some true, some false, some true] ∧
    (((Sample.visits.drop 3).filter (·.member = 1)).map (·.asks Prod.snd 0)).sum ≤ 1 := by
  have hrequest : ∀ e ∈ Sample.visits.drop 3, e.request = .covers (.atom 0) ∧
      e.disturbs Sample.longEnough.subject.recorded = false := by
    decide +kernel
  have hmembers : Addressed Sample.visits := by unfold Addressed; decide +kernel
  obtain ⟨hanswers, hasks⟩ := answers_of_history Sample.longEnough_judges Sample.longEnough_honest
    (by
      intro i hi
      rw [Nat.lt_one_iff.1 hi]
      exact ⟨⟨_, _, rfl⟩, rfl⟩) hmembers
  refine ⟨fun e he => hanswers e (List.mem_of_mem_drop he) _ ?_, by decide +kernel, ?_⟩
  · rw [(hrequest e he).1]
    rfl
  · refine hasks _ (List.drop_suffix 3 _).isInfix 1 (fun e he _ => (hrequest e he).2) _
      (Subject.records_recorded _) 0 fun statements fault => ?_
    intro h
    simp only [Sample.lengthVerdict, Sample.Evaluator.evaluate, Sample.Evaluator.excess, Sample.Evaluator.verdict] at h
    split at h <;> cases h

end GoalSearch
