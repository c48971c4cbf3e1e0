import GoalSearch.Proofs.Chronicle.Reading

/-!
# Suites and their members over time

Whatever is done to suites and to test cases, the chronicle stays accurate, and it stays current as long as no member is
altered while a suite of it keeps values (`Chronicle.leads_step`, `Chronicle.leads_after`). So a suite answers with the
least fitness of what its members were when it computed what it keeps (`readings_of_operations`), which need not be that
of its present members (`reading_overtaken`).
-/

namespace GoalSearch

variable {σ ω : Type} {subject : Subject σ ω} {judge : Nat → List σ → Verdict} {s t : Scene σ ω} {i k : Nat} {g : Goal}
  {members : List Nat} {x : Individual σ}

/-! ### What an operation leaves -/

namespace Chronicle
variable {c d : Chronicle σ ω} {noted : Nat → Goal → Option (List (List σ))} {spared : Prop}

/-- What an operation leaves is accurate again, and current again if it spared the members. -/
structure Leads (judge : Nat → List σ → Verdict) (spared : Prop) (c d : Chronicle σ ω) : Prop where
  accurate : d.Accurate judge
  current : spared → c.Current → d.Current

namespace Leads

theorem of_answered {goals : List Goal} (h : c.Answered judge i goals t) :
    Leads judge spared c ⟨t, c.note judge i goals⟩ :=
  ⟨h.accurate, fun _ hc => hc.of_content h.alike.content (.made goals)⟩

theorem of_wp {α β : Type} {x : SceneM σ ω α} {k : α → β} {goals : List Goal}
    (h : wp x (fun _ => c.Answered judge i goals) (fun _ => c.Answered judge i goals) c.scene) :
    Leads judge spared c ⟨((do return k (← x) : SceneM σ ω β).run c.scene).2, c.note judge i goals⟩ :=
  of_answered (wp_ends.1 (wp_bind.2 h))

/-- A suite is changed in what is no content of it. -/
theorem of_sets (hc : c.Accurate judge) (hi : c.Suite judge i members) (ht : c.scene.Sets i x t)
    (hcontent : x.content = (c.scene.individual i).content) (hx : x.Recounts judge (noted i))
    (hnoted : Notes judge c i noted) : Leads judge spared c ⟨t, noted⟩ := by
  refine ⟨hc.of_sets_suite hi ht (hcontent.trans hi.content) hi.testCases hx fun _ => hnoted.of_ne, fun _ hcurrent =>
    hcurrent.of_content (fun j => ?_) hnoted⟩
  by_cases hj : j = i
  · rw [hj, ht.self, hcontent]
  · rw [ht.others j hj]

end Leads

section Step
variable (hjudge : subject.Judges judge) (hhonest : subject.Honest) (hc : c.Accurate judge)
include hjudge hhonest hc

/-- A request to a test case. -/
theorem leads_request_testCase {r : Request} (hi : (c.scene.individual i).IsTestCase) (hr : r ≠ .clone) :
    Leads judge ((Operation.request i r).Spares subject c) c (c.step subject judge (.request i r)) := by
  have hturns := Request.turns (Scene.lt_size_of_isTestCase hi) (hc.faithful hi) hjudge hhonest hr
  have hnotes : Notes judge c i (c.step subject judge (.request i r)).noted := .of_request hr _
  refine ⟨hc.of_sets_testCase hturns.sets hturns.faithful fun _ => hnotes.of_ne, fun hspared hcurrent => ?_⟩
  by_cases h : r = .mutate → r.disturbs subject (c.scene.individual i) c.scene.outside = false
  · refine hcurrent.of_content (fun j => ?_) hnotes
    by_cases hj : j = i
    · rw [hj]
      exact hturns.content h
    · exact congrArg _ (hturns.sets.others j hj)
  · -- no suite that has the test case keeps anything
    obtain ⟨rfl, hdisturbs⟩ := Classical.not_imp.1 h
    refine hcurrent.of_cleared hturns.sets.others (fun _ => hnotes.of_ne) fun j members hj hmember g hg => ?_
    have hji : j ≠ i := by
      rintro rfl
      exact hturns.faithful.testCase.ne_suite hj
    exact hspared (Bool.not_eq_false _ ▸ hdisturbs) j members ((hturns.sets.others j hji) ▸ hj)
      (hmember.resolve_left hji) g hg

omit hhonest in
/-- A request to a suite. -/
theorem leads_request_suite {r : Request} (hi : c.Suite judge i members) (hr : r ≠ .clone)
    (hproper : (Operation.request i r).Proper c.scene) :
    Leads judge spared c (c.step subject judge (.request i r)) := by
  have hsize := Scene.lt_size_of_content hi.content
  have hupdate : ∀ (f : Individual σ → Individual σ) noted,
      (f (c.scene.individual i)).content = (c.scene.individual i).content →
      (f (c.scene.individual i)).Recounts judge (noted i) → Notes judge c i noted →
      Leads judge spared c ⟨c.scene.modify i f, noted⟩ := fun f _ hcontent hx hnoted =>
    .of_sets hc hi (Scene.sets_modify hsize) hcontent hx hnoted
  cases r with
  | fitness g => exact .of_wp (wp_fitness_notes hjudge hc hi g)
  | covers g => exact .of_wp (wp_bind.2 (wp_fitness_notes hjudge hc hi g))
  | coverage => exact .of_answered (Gives.iff.1 (gives_coverage_goals hjudge hc hi).map).2
  | addFunction g =>
    have hg : g.isOverSuite = true := (hproper.2 g rfl).resolve_left fun h => h.ne_suite hi.content
    cases g with
    | atom n => cases hg
    | overSuite serial inner =>
      refine hupdate (fun x => { x with functions := x.functions ++ [.overSuite serial inner] }) c.noted rfl
        ⟨fun h hh => ?_, fun h hh => ?_⟩ .kept
      · rcases List.mem_append.1 hh with hh | hh
        · exact hi.recounts.goals h hh
        · rw [List.mem_singleton.1 hh]; rfl
      · rw [← hi.recounts.keeps h hh]
        exact congrArg _ (Individual.recalled_congr rfl rfl)
  | mutate =>
    have hfault : wp (Request.mutate.perform subject i) (fun _ t => t = c.scene) (fun _ t => t = c.scene) c.scene := by
      unfold Request.perform Individual.mutate
      rw [wp_bind, wp_bind, SceneM.wp_individual, hi.content]
      rfl
    show Leads judge spared c ⟨((Request.mutate.perform subject i).run c.scene).2, c.noted⟩
    rw [wp_ends.1 hfault]
    exact ⟨hc, fun _ h => h⟩
  | clone => exact absurd rfl hr
  | invalidate =>
    refine hupdate (fun x => { x with cache := [] }) (c.forget i) rfl ?_ .dropped
    rw [forget_self]
    exact .of_nothing hi.recounts.goals fun _ => Individual.recalled_forgotten
  | touch =>
    refine hupdate (fun x => { x with changed := true }) (c.forget i) rfl ?_ .dropped
    rw [forget_self]
    exact .of_nothing hi.recounts.goals fun _ => Individual.recalled_of_changed rfl
  | setAge generation =>
    refine hupdate (fun x => { x with age := generation }) c.noted rfl ?_ .kept
    exact hi.recounts.of_recalled rfl (fun _ _ => Individual.recalled_congr rfl rfl) fun _ _ => rfl

end Step

/-- The notes after a copy was made. -/
theorem step_clone {k : Nat} (h : (Individual.clone i : SceneM σ ω Nat).run c.scene = (.ok k, t)) :
    c.step subject judge (.request i .clone) = ⟨t, fun j => if j = k then c.noted i else c.noted j⟩ := by
  have hrun : ((Operation.request i .clone).perform subject).run c.scene = (.ok (.member k), t) := by
    unfold Operation.perform Request.perform
    rw [run_bind, h]
    rfl
  unfold step
  rw [hrun]
  rfl

theorem leads_clone_testCase (hc : c.Accurate judge) (hi : (c.scene.individual i).IsTestCase) :
    Leads judge spared c (c.step subject judge (.request i .clone)) := by
  rw [step_clone (Individual.run_clone hi), Scene.push_eq_extend]
  have hnoted : ∀ j < c.scene.pool.size,
      (fun j => if j = c.scene.pool.size then c.noted i else c.noted j) j = c.noted j := fun j hj =>
    ite_eq_right_iff.2 fun e => absurd e (Nat.ne_of_lt hj)
  refine ⟨hc.extend hnoted fun m hm => ?_, fun _ hcurrent => hcurrent.extend hc hnoted fun m members hm => ?_⟩
  · rw [List.length_singleton, Nat.lt_one_iff] at hm
    subst hm
    exact .inl (Scene.individual_extend_add.symm ▸ hc.faithful hi)
  · rw [Scene.individual_extend_add] at hm
    cases m with
    | zero => exact absurd hm hi.ne_suite
    | succ m => cases hm

theorem leads_clone_suite (hc : c.Accurate judge) (hi : c.Suite judge i members) :
    Leads judge spared c (c.step subject judge (.request i .clone)) := by
  rw [step_clone (Individual.run_clone_suite hi.content hi.testCases)]
  set copy : Individual σ :=
    { c.scene.individual i with content := .suite (List.range' c.scene.pool.size members.length) } with hcopy
  set t := c.scene.extend (members.map c.scene.individual ++ [copy]) with ht
  have hnoted : ∀ j < c.scene.pool.size,
      (fun j => if j = c.scene.pool.size + members.length then c.noted i else c.noted j) j = c.noted j := fun j hj =>
    ite_eq_right_iff.2 fun e => absurd e (by omega)
  have hmember : ∀ m (hm : m < members.length),
      t.individual (c.scene.pool.size + m) = c.scene.individual members[m] := fun m hm => by
    rw [Scene.individual_extend_add, List.getElem?_append_left (by simpa using hm)]
    simp [hm]
  have hself : t.individual (c.scene.pool.size + members.length) = copy := by
    rw [Scene.individual_extend_add, List.getElem?_append_right (by simp)]
    simp
  have hcontent : (t.individual (c.scene.pool.size + members.length)).content =
      .suite (List.range' c.scene.pool.size members.length) := congrArg _ hself
  have hcases : t.testCases (c.scene.pool.size + members.length) = c.scene.testCases i := by
    rw [Scene.testCases_of_content hcontent, Scene.testCases_of_content hi.content]
    refine List.ext_getElem (by simp) fun m h _ => ?_
    have hm : m < members.length := by simpa using h
    simp [hmember m hm]
  refine ⟨hc.extend hnoted fun m hm => ?_, fun _ hcurrent => hcurrent.extend hc hnoted fun m members' hm g hg => ?_⟩
  · rw [List.length_append, List.length_map, List.length_singleton] at hm
    rcases Nat.lt_succ_iff_lt_or_eq.1 hm with hm | rfl
    · exact .inl (hmember m hm ▸ hc.faithful (hi.testCases _ (List.getElem_mem hm)))
    · refine .inr ⟨_, hcontent, fun k hk => ?_, ?_⟩
      · obtain ⟨m, hm, rfl⟩ := List.mem_range'.1 hk
        rw [Nat.one_mul]
        exact hmember m hm ▸ hi.testCases _ (List.getElem_mem hm)
      · show Individual.Recounts judge _ (t.individual (c.scene.pool.size + members.length))
        rw [hself]
        refine hi.recounts.of_recalled rfl (fun _ _ => Individual.recalled_congr rfl rfl) fun _ _ => ?_
        simp
  · rcases Nat.lt_trichotomy m members.length with hlt | rfl | hgt
    · rw [hmember m hlt] at hm
      exact absurd hm (hi.testCases _ (List.getElem_mem hlt)).ne_suite
    · have hbasis := hcurrent i members hi.content g hg
      unfold basis at hbasis ⊢
      dsimp only
      rw [hcases, ite_eq_left_iff.2 fun h => absurd rfl h, hbasis]
    · have hsize := Scene.lt_size_of_content hm
      rw [Scene.size_extend, List.length_append, List.length_map, List.length_singleton] at hsize
      omega

/-- A copy is a new individual. A copy of a suite answers for what the suite answers for. -/
theorem leads_clone (hc : c.Accurate judge) (hi : i < c.scene.pool.size) :
    Leads judge spared c (c.step subject judge (.request i .clone)) := by
  rcases hc i hi with h | ⟨members, h⟩
  · exact leads_clone_testCase hc h.testCase
  · exact leads_clone_suite hc h

/-- A suite that gets members forgets what it kept. -/
theorem leads_addMembers {new : List Nat} (hc : c.Accurate judge) (hi : c.Suite judge i members)
    (hnew : ∀ k ∈ new, (c.scene.individual k).IsTestCase) :
    Leads judge spared c (c.step subject judge (.addMembers i new)) := by
  let extended (x : Individual σ) : Individual σ :=
    { x with content := .suite (members ++ new), changed := x.changed || !new.isEmpty }
  have hrun : ((Operation.addMembers i new).perform subject).run c.scene = (.ok .done, c.scene.modify i extended) := by
    refine run_eq_of_wp ?_
    unfold Operation.perform Individual.addMembers Individual.members
    simp only [wp_bind, SceneM.wp_individual, hi.content]
    exact ⟨rfl, rfl⟩
  have hsets : c.scene.Sets i (extended (c.scene.individual i)) (c.scene.modify i extended) :=
    Scene.sets_modify (Scene.lt_size_of_content hi.content)
  unfold step
  rw [hrun]
  cases new with
  | nil =>
    refine Leads.of_sets hc hi hsets ?_ ?_ .kept
    · rw [hi.content]
      exact congrArg _ (List.append_nil _)
    · exact hi.recounts.of_recalled rfl (fun _ _ => Individual.recalled_congr (Bool.or_false _) rfl) fun _ _ => rfl
  | cons k new =>
    have haccurate : Accurate judge ⟨c.scene.modify i extended, c.forget i⟩ := by
      refine hc.of_sets_suite hi hsets rfl (fun j hj => ?_) ?_ fun _ => forget_of_ne
      · exact (List.mem_append.1 hj).elim (hi.testCases j) (hnew j)
      · rw [forget_self]
        exact .of_nothing hi.recounts.goals fun _ => Individual.recalled_of_changed (Bool.or_true _)
    refine ⟨haccurate, fun _ hcurrent => hcurrent.of_cleared hsets.others (fun _ => forget_of_ne) ?_⟩
    rintro j members' hj (rfl | hmember) g -
    · exact congrFun forget_self g
    · exact absurd (congrArg Individual.content hsets.self)
        ((haccurate.suite hj).testCases i hmember).ne_suite

/-- Every proper operation leaves an accurate chronicle, and a current one if it spares the members of suites. -/
theorem leads_step (hjudge : subject.Judges judge) (hhonest : subject.Honest) (hc : c.Accurate judge)
    {operation : Operation} (hproper : operation.Proper c.scene) :
    Leads judge (operation.Spares subject c) c (c.step subject judge operation) := by
  cases operation with
  | addMembers i new =>
    obtain ⟨⟨members, hi⟩, hnew⟩ := hproper
    exact leads_addMembers hc (hc.suite hi) hnew
  | request i r =>
    by_cases hr : r = .clone
    · subst hr
      exact leads_clone hc hproper.1
    · rcases hc i hproper.1 with h | ⟨members, h⟩
      · exact leads_request_testCase hjudge hhonest hc h.testCase hr
      · exact leads_request_suite hjudge hc h hr hproper

theorem Leads.trans {spared' : Prop} {e : Chronicle σ ω} (h : Leads judge spared c d) (h' : Leads judge spared' d e) :
    Leads judge (spared ∧ spared') c e :=
  ⟨h'.accurate, fun hspared hc => h'.current hspared.2 (h.current hspared.1 hc)⟩

/-- One operation after the other. -/
theorem leads_after (hjudge : subject.Judges judge) (hhonest : subject.Honest) {operations : List Operation}
    (hc : c.Accurate judge) (hproper : c.Meets subject judge (fun c => Operation.Proper c.scene) operations) :
    Leads judge (c.Meets subject judge (Operation.Spares subject) operations) c (c.after subject judge operations) := by
  induction operations generalizing c with
  | nil => exact ⟨hc, fun _ h => h⟩
  | cons operation operations ih =>
    have hstep := leads_step hjudge hhonest hc hproper.1
    exact hstep.trans (ih hstep.accurate hproper.2)

/-- Nothing is kept where everything counts as changed. -/
theorem Accurate.of_fresh (hs : s.Fresh) : (start s).Accurate judge := by
  intro i hi
  obtain ⟨hchanged, hcase | ⟨members, hcontent, htestCases, hgoals⟩⟩ := hs i hi
  · exact .inl (.of_changed hcase hchanged)
  · exact .inr ⟨members, hcontent, htestCases,
      .of_nothing hgoals fun _ => Individual.recalled_of_changed hchanged⟩

end Chronicle

/-! ### What suites answer -/

/-- Suites and test cases are filled, read, changed and copied in any order. Asked for a goal over suites, a suite
answers with the least fitness of what its members were when it computed the value that it keeps, or of its present
members if it keeps none, and its coverage is the share of the goals for which that is zero. If no member was altered
while a suite of it kept values, the answer is the least of what the members answer at present, and so it is zero if one
of them covers the goal inside. -/
theorem readings_of_operations (hjudge : subject.Judges judge) (hhonest : subject.Honest)
    {operations : List Operation} (hnew : s.Fresh)
    (hproper : (Chronicle.start s).Meets subject judge (fun c => Operation.Proper c.scene) operations) :
    let c := (Chronicle.start s).after subject judge operations
    ∀ i members, (c.scene.individual i).content = .suite members →
      (∀ serial inner, ((fitness subject (.overSuite serial inner) i).run c.scene).1 =
        c.value judge i (.overSuite serial inner)) ∧
      ((Individual.coverage subject i).run c.scene).1 = (do
        let verdicts ← (c.scene.individual i).functions.mapM fun g => (c.value judge i g).map (· == 0.0)
        return coverageRatio (verdicts.count true) (c.scene.individual i).functions.length) ∧
      ((Chronicle.start s).Meets subject judge (Operation.Spares subject) operations → ∀ serial inner,
        c.value judge i (.overSuite serial inner) =
          (members.mapM fun k => ((fitness subject inner k).run c.scene).1).map (Fitness.least Fitness.worst) ∧
        (c.value judge i (.overSuite serial inner)).map (· == 0.0) =
          (members.mapM fun k => ((Individual.covers subject inner k).run c.scene).1).map (·.any id)) := by
  intro c i members hcontent
  have hlead : Chronicle.Leads judge _ _ c := Chronicle.leads_after hjudge hhonest (.of_fresh hnew) hproper
  have hi := hlead.accurate.suite hcontent
  have hmember : ∀ k ∈ members, k < c.scene.pool.size ∧ (c.scene.individual k).Faithful judge := fun k hk =>
    ⟨Scene.lt_size_of_isTestCase (hi.testCases k hk), hlead.accurate.faithful (hi.testCases k hk)⟩
  refine ⟨fun serial inner => (Gives.iff.1 (Chronicle.gives_fitness_overSuite hjudge hlead.accurate hi rfl)).1,
    (Gives.iff.1 (Chronicle.gives_coverage_goals hjudge hlead.accurate hi)).1, fun hspared serial inner => ?_⟩
  have hbasis := hlead.current hspared (fun _ _ _ _ _ => rfl) i members hcontent (.overSuite serial inner) rfl
  rw [Chronicle.covered_of_current hcontent hbasis, Chronicle.value_of_current hcontent hbasis]
  refine ⟨congrArg _ (mapM_congr fun k hk => ?_), congrArg _ (mapM_congr fun k hk => ?_)⟩
  · exact (Gives.iff.1 (gives_fitness hjudge (hmember k hk).1 (hmember k hk).2)).1.symm
  · exact (Gives.iff.1 (gives_covers hjudge (hmember k hk).1 (hmember k hk).2)).1.symm

/-! ### A suite that is overtaken -/

namespace Sample

/-- A short test case, and an empty suite. -/
def shelf : Scene Statement (World × (Nat → List (Content Statement))) :=
  ⟨#[{ content := .testCase [.int 1] (some 0) }, { content := .suite [] }],
    ({ generator := .scripted ⟨#[], #[], #[], 0, 0, 0⟩ }, fun _ => []), #[]⟩

/-- The goal over suites to have a test case that is long. -/
def anyLong : Goal := .overSuite 1 (.atom 0)

/-- The suite gets the test case and is asked for its fitness, then the test case grows. -/
def overtaken : List Operation :=
  [.addMembers 1 [0], .request 1 (.addFunction anyLong), .request 1 (.fitness anyLong), .request 0 .mutate]

/-- The test case grows before the suite is asked. -/
def inTime : List Operation :=
  [.addMembers 1 [0], .request 0 .mutate, .request 1 (.fitness anyLong), .request 1 .clone]

def shelved (operations : List Operation) : Chronicle Statement (World × (Nat → List (Content Statement))) :=
  (Chronicle.start shelf).after longEnough.subject.recorded lengthVerdict operations

end Sample

/-- The copy of a suite that was asked in time answers for its member, which is long enough. The overtaken suite answers
for the member that was too short. -/
theorem readings_of_operations_shelved :
    (((fitness Sample.longEnough.subject.recorded Sample.anyLong 3).run (Sample.shelved Sample.inTime).scene).1 =
        (([2] : List Nat).mapM fun k => ((fitness Sample.longEnough.subject.recorded (.atom 0) k).run
          (Sample.shelved Sample.inTime).scene).1).map (Fitness.least Fitness.worst) ∧
      ((Sample.shelved Sample.inTime).value Sample.lengthVerdict 3 Sample.anyLong).toOption.map (· == 0.0) =
        some true) ∧
    ((fitness Sample.longEnough.subject.recorded Sample.anyLong 1).run (Sample.shelved Sample.overtaken).scene).1 =
        (Sample.shelved Sample.overtaken).value Sample.lengthVerdict 1 Sample.anyLong ∧
      ((Sample.shelved Sample.overtaken).value Sample.lengthVerdict 1 Sample.anyLong).toOption.map (· == 0.0) =
        some false := by
  have hfresh : Sample.shelf.Fresh := by
    intro i hi
    match i, hi with
    | 0, _ => exact ⟨rfl, .inl ⟨_, _, rfl⟩⟩
    | 1, _ => exact ⟨rfl, .inr ⟨[], rfl, nofun, nofun⟩⟩
  have hmember : ∀ k ∈ ([0] : List Nat), (Sample.shelf.individual k).IsTestCase := by
    rintro k (_ | ⟨_, ⟨⟩⟩)
    exact ⟨_, _, rfl⟩
  have hproper : (Chronicle.start Sample.shelf).Meets Sample.longEnough.subject.recorded Sample.lengthVerdict
      (fun c => Operation.Proper c.scene) Sample.inTime :=
    ⟨⟨⟨_, rfl⟩, hmember⟩, ⟨by decide +kernel, nofun⟩, ⟨by decide +kernel, nofun⟩, ⟨by decide +kernel, nofun⟩, trivial⟩
  have hproper' : (Chronicle.start Sample.shelf).Meets Sample.longEnough.subject.recorded Sample.lengthVerdict
      (fun c => Operation.Proper c.scene) Sample.overtaken :=
    ⟨⟨⟨_, rfl⟩, hmember⟩, ⟨by decide +kernel, by rintro g ⟨⟩; exact .inr rfl⟩, ⟨by decide +kernel, nofun⟩,
      ⟨by decide +kernel, nofun⟩, trivial⟩
  have hspared : (Chronicle.start Sample.shelf).Meets Sample.longEnough.subject.recorded Sample.lengthVerdict
      (Operation.Spares Sample.longEnough.subject.recorded) Sample.inTime := by
    refine ⟨trivial, fun _ i _ _ _ g _ => ?_, trivial, trivial, trivial⟩
    show (if i = 1 then none else none) = none
    simp
  obtain ⟨hvalue, -, hcurrent⟩ := readings_of_operations Sample.longEnough_judges Sample.longEnough_honest hfresh
    hproper 3 [2] rfl
  obtain ⟨hvalue', -, -⟩ := readings_of_operations Sample.longEnough_judges Sample.longEnough_honest hfresh
    hproper' 1 [0] rfl
  exact ⟨⟨(hvalue 1 (.atom 0)).trans (hcurrent hspared 1 (.atom 0)).1, by decide +kernel⟩, hvalue' 1 (.atom 0),
    by decide +kernel⟩

/-- The overtaken suite does not cover what its member covers. -/
theorem reading_overtaken :
    ((Sample.shelved Sample.overtaken).scene.individual 1).content = .suite [0] ∧
    ((fitness Sample.longEnough.subject.recorded Sample.anyLong 1).run (Sample.shelved Sample.overtaken).scene).1 ≠
      (([0] : List Nat).mapM fun k => ((fitness Sample.longEnough.subject.recorded (.atom 0) k).run
        (Sample.shelved Sample.overtaken).scene).1).map (Fitness.least Fitness.worst) := by
  refine ⟨rfl, fun h => ?_⟩
  have hcovered := congrArg (fun r => r.toOption.map (· == 0.0)) h
  revert hcovered
  decide +kernel

end GoalSearch
