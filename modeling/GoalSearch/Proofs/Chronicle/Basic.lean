import GoalSearch.Proofs.Family

/-!
# What suites remember of their members

A suite keeps the fitness that it was asked for until it counts as changed itself, and a mutation of a member does not
mark it. A `Chronicle` notes what the members were when each of these values was computed. It is `Accurate` if suites
keep just the values of what is noted, and `Current` if what is noted is what the members are.
-/

namespace GoalSearch

variable {σ ω : Type}

/-! ### Chronicles -/

def Goal.isOverSuite : Goal → Bool
  | .overSuite _ _ => true
  | .atom _ => false

/-- The fitness of test cases together: for a goal over suites the least one that any of them has for the goal inside.
Other goals have nothing to say about several test cases. -/
def collective (judge : Nat → List σ → Verdict) : Goal → List (List σ) → Except Fault Float
  | .overSuite _ inner, cases =>
    (cases.mapM fun statements => Fitness.sanitised (judgement judge inner statements)).map
      (Fitness.least Fitness.worst)
  | .atom _, _ => .ok Fitness.worst

/-- The statements of the members of a suite. -/
def Scene.testCases (s : Scene σ ω) (i : Nat) : List (List σ) :=
  match (s.individual i).content with
  | .suite members => members.map fun k => (s.individual k).content.statements
  | _ => []

/-- A scene with notes about its suites. -/
structure Chronicle (σ ω : Type) where
  scene : Scene σ ω
  /-- What the members of a suite were when the value was computed that it keeps for a goal. -/
  noted : Nat → Goal → Option (List (List σ))

namespace Chronicle
variable (judge : Nat → List σ → Verdict) (c : Chronicle σ ω) (i : Nat)

/-- Nothing is noted yet. -/
def start (s : Scene σ ω) : Chronicle σ ω := ⟨s, fun _ _ => none⟩

/-- The test cases that a suite answers for. -/
def basis (g : Goal) : List (List σ) := (c.noted i g).getD (c.scene.testCases i)

def value (g : Goal) : Except Fault Float := collective judge g (c.basis i g)

/-- The notes after a suite was asked for some goals, one after the other, up to one whose evaluator gives up. -/
def note (goals : List Goal) : Nat → Goal → Option (List (List σ)) := fun j g =>
  if j = i ∧ g ∈ goals.takeWhile fun h => (c.value judge i h).isOk then some (c.basis i g) else c.noted j g

def forget : Nat → Goal → Option (List (List σ)) := fun j g => if j = i then none else c.noted j g

end Chronicle

/-! ### Operations -/

/-- What is done to a test case or a suite. -/
inductive Operation where
  | request (i : Nat) (r : Request)
  | addMembers (i : Nat) (new : List Nat)

namespace Operation

def perform (subject : Subject σ ω) : Operation → SceneM σ ω Reply
  | request i r => r.perform subject i
  | addMembers i new => do
    Individual.addMembers i new
    return .done

/-- The notes after an operation that ended with a reply. A copy takes over what is noted. -/
def notes (judge : Nat → List σ → Verdict) (c : Chronicle σ ω) (reply : Except Fault Reply) :
    Operation → Nat → Goal → Option (List (List σ))
  | request i (.fitness g) => c.note judge i [g]
  | request i (.covers g) => c.note judge i [g]
  | request i .coverage => c.note judge i (c.scene.individual i).functions
  | request i .invalidate => c.forget i
  | request i .touch => c.forget i
  | request i .clone =>
    match reply with
    | .ok (.member k) => fun j => if j = k then c.noted i else c.noted j
    | _ => c.noted
  | request _ (.addFunction _) => c.noted
  | request _ .mutate => c.noted
  | request _ (.setAge _) => c.noted
  | addMembers i new => if new.isEmpty then c.noted else c.forget i

/-- The operation is for an individual that is there. Only suites get members, and they get nothing but test cases and
goals over suites. -/
def Proper (s : Scene σ ω) : Operation → Prop
  | request i r => i < s.pool.size ∧ ∀ g, r = .addFunction g → (s.individual i).IsTestCase ∨ g.isOverSuite = true
  | addMembers i new =>
    (∃ members, (s.individual i).content = .suite members) ∧ ∀ k ∈ new, (s.individual k).IsTestCase

/-- The operation does not alter a member of a suite that has been asked for a goal since it counted as changed. -/
def Spares (subject : Subject σ ω) (c : Chronicle σ ω) : Operation → Prop
  | request k .mutate => Request.mutate.disturbs subject (c.scene.individual k) c.scene.outside = true →
      ∀ i members, (c.scene.individual i).content = .suite members → k ∈ members →
        ∀ g, g.isOverSuite = true → c.noted i g = none
  | _ => True

end Operation

namespace Chronicle
variable (subject : Subject σ ω) (judge : Nat → List σ → Verdict)

def step (c : Chronicle σ ω) (operation : Operation) : Chronicle σ ω :=
  let ended := (operation.perform subject).run c.scene
  ⟨ended.2, operation.notes judge c ended.1⟩

def after (c : Chronicle σ ω) (operations : List Operation) : Chronicle σ ω :=
  operations.foldl (step subject judge) c

/-- Something holds of every operation when it is its turn. -/
def Meets (P : Chronicle σ ω → Operation → Prop) : Chronicle σ ω → List Operation → Prop
  | _, [] => True
  | c, operation :: rest => P c operation ∧ Meets P (c.step subject judge operation) rest

end Chronicle

/-! ### What individuals have to do with the notes -/

variable {subject : Subject σ ω} {judge : Nat → List σ → Verdict} {s t u : Scene σ ω} {i k : Nat} {g : Goal}
  {members : List Nat} {x : Individual σ}

/-- For goals over suites the suite keeps just the values of what is noted. Such goals are the only ones it has. -/
structure Individual.Recounts (judge : Nat → List σ → Verdict) (noted : Goal → Option (List (List σ)))
    (x : Individual σ) : Prop where
  goals : ∀ g ∈ x.functions, g.isOverSuite = true
  keeps : ∀ g, g.isOverSuite = true → (x.recalled g).map .ok = (noted g).map (collective judge g)

namespace Individual.Recounts
variable {noted noted' : Goal → Option (List (List σ))} {y : Individual σ}

theorem of_nothing (hgoals : ∀ g ∈ x.functions, g.isOverSuite = true) (hx : ∀ g, x.recalled g = none) :
    x.Recounts judge fun _ => none :=
  ⟨hgoals, fun g _ => by rw [hx]; rfl⟩

theorem of_recalled (hx : x.Recounts judge noted) (hfunctions : y.functions = x.functions)
    (hrecalled : ∀ g, g.isOverSuite = true → y.recalled g = x.recalled g)
    (hnoted : ∀ g, g.isOverSuite = true → noted' g = noted g) : y.Recounts judge noted' :=
  ⟨hfunctions ▸ hx.goals, fun g hg => by rw [hrecalled g hg, hnoted g hg, hx.keeps g hg]⟩

theorem refresh (hx : x.Recounts judge noted) : x.refresh.Recounts judge noted :=
  hx.of_recalled functions_refresh (fun _ _ => recalled_refresh) fun _ _ => rfl

/-- A value is computed for some test cases, and they are noted. -/
theorem knowing {v : Float} {cases : List (List σ)} (hx : x.Recounts judge noted)
    (hv : collective judge g cases = .ok v) :
    (x.knowing g v).Recounts judge fun h => if h = g then some cases else noted h := by
  refine ⟨fun h hh => hx.goals h (functions_refresh (x := x) ▸ hh), fun h hh => ?_⟩
  rw [recalled_knowing]
  by_cases e : g = h
  · subst e
    simp [hv]
  · rw [ite_eq_right_iff.2 fun e' => absurd e' e, hx.keeps h hh, ite_eq_right_iff.2 fun e' => absurd e'.symm e]

end Individual.Recounts

/-- Everything counts as changed: test cases, and suites of test cases with goals over suites. -/
def Scene.Fresh (s : Scene σ ω) : Prop :=
  ∀ i < s.pool.size, (s.individual i).changed = true ∧ ((s.individual i).IsTestCase ∨
    ∃ members, (s.individual i).content = .suite members ∧ (∀ k ∈ members, (s.individual k).IsTestCase) ∧
      ∀ g ∈ (s.individual i).functions, g.isOverSuite = true)

namespace Chronicle

/-- The individual is a suite of test cases that keeps what is noted about it. -/
structure Suite (judge : Nat → List σ → Verdict) (c : Chronicle σ ω) (i : Nat) (members : List Nat) : Prop where
  content : (c.scene.individual i).content = .suite members
  testCases : ∀ k ∈ members, (c.scene.individual k).IsTestCase
  recounts : (c.scene.individual i).Recounts judge (c.noted i)

/-- Test cases are up to date, and suites keep what is noted about them. -/
def Accurate (judge : Nat → List σ → Verdict) (c : Chronicle σ ω) : Prop :=
  ∀ i < c.scene.pool.size, (c.scene.individual i).Faithful judge ∨ ∃ members, c.Suite judge i members

/-- Suites answer for their present members. -/
def Current (c : Chronicle σ ω) : Prop :=
  ∀ i members, (c.scene.individual i).content = .suite members → ∀ g, g.isOverSuite = true →
    c.basis i g = c.scene.testCases i

end Chronicle

/-! ### Scenes with the same contents -/

namespace Scene

/-- From `s` to `t` nobody comes, and nobody gets another content. -/
structure Alike (s t : Scene σ ω) : Prop where
  size : t.pool.size = s.pool.size
  content : ∀ j, (t.individual j).content = (s.individual j).content

namespace Alike

theorem refl (s : Scene σ ω) : Alike s s := ⟨rfl, fun _ => rfl⟩

theorem trans (h : Alike s t) (h' : Alike t u) : Alike s u :=
  ⟨h'.size.trans h.size, fun j => (h'.content j).trans (h.content j)⟩

theorem of_sets (h : s.Sets i x t) (hcontent : x.content = (s.individual i).content) : Alike s t := by
  refine ⟨h.size, fun j => ?_⟩
  by_cases hj : j = i
  · rw [hj, h.self, hcontent]
  · rw [h.others j hj]

theorem testCases (h : Alike s t) (i : Nat) : t.testCases i = s.testCases i := by
  unfold Scene.testCases
  rw [h.content]
  simp only [h.content]

end Alike

theorem testCases_of_content (h : (s.individual i).content = .suite members) :
    s.testCases i = members.map fun k => (s.individual k).content.statements := by
  unfold testCases
  rw [h]

theorem testCases_congr (hs : (s.individual i).content = .suite members)
    (ht : (t.individual i).content = .suite members) (h : ∀ k ∈ members, t.individual k = s.individual k) :
    t.testCases i = s.testCases i := by
  rw [testCases_of_content hs, testCases_of_content ht]
  exact List.map_congr_left fun k hk => by rw [h k hk]

end Scene

namespace Chronicle
variable {c d : Chronicle σ ω} {noted : Nat → Goal → Option (List (List σ))}

theorem Suite.ne_testCase (h : c.Suite judge i members) (hk : (c.scene.individual k).IsTestCase) : k ≠ i := by
  rintro rfl
  exact hk.ne_suite h.content

theorem Suite.of_same (h : c.Suite judge i members) (hself : d.scene.individual i = c.scene.individual i)
    (hnoted : d.noted i = c.noted i)
    (htestCases : ∀ k ∈ members, (d.scene.individual k).IsTestCase) : d.Suite judge i members :=
  ⟨hself ▸ h.content, htestCases, hself ▸ hnoted ▸ h.recounts⟩

namespace Accurate

theorem faithful (hc : c.Accurate judge) (hi : (c.scene.individual i).IsTestCase) :
    (c.scene.individual i).Faithful judge := by
  refine (hc i (Scene.lt_size_of_isTestCase hi)).resolve_right ?_
  rintro ⟨members, h⟩
  exact hi.ne_suite h.content

theorem suite (hc : c.Accurate judge) (hi : (c.scene.individual i).content = .suite members) :
    c.Suite judge i members := by
  rcases hc i (Scene.lt_size_of_content hi) with h | ⟨members', h⟩
  · exact absurd hi h.testCase.ne_suite
  · rwa [Content.suite.inj (hi.symm.trans h.content)]

/-- A test case is replaced by one that is up to date. -/
theorem of_sets_testCase (hc : c.Accurate judge) (ht : c.scene.Sets i x t) (hx : x.Faithful judge)
    (hnoted : ∀ j ≠ i, noted j = c.noted j) : Accurate judge ⟨t, noted⟩ := by
  intro j hj
  by_cases hji : j = i
  · exact .inl (by rw [hji, ht.self]; exact hx)
  · have hself : t.individual j = c.scene.individual j := ht.others j hji
    rcases hc j (ht.size ▸ hj) with h | ⟨members, h⟩
    · exact .inl (hself.symm ▸ h)
    · refine .inr ⟨members, h.of_same hself (hnoted j hji) fun k hk => ?_⟩
      by_cases hki : k = i
      · rw [hki, ht.self]; exact hx.testCase
      · rw [ht.others k hki]; exact h.testCases k hk

/-- A suite is replaced by one that keeps what is noted about it now. -/
theorem of_sets_suite (hc : c.Accurate judge) (hi : c.Suite judge i members) (ht : c.scene.Sets i x t)
    {members' : List Nat} (hcontent : x.content = .suite members')
    (htestCases : ∀ k ∈ members', (c.scene.individual k).IsTestCase) (hx : x.Recounts judge (noted i))
    (hnoted : ∀ j ≠ i, noted j = c.noted j) : Accurate judge ⟨t, noted⟩ := by
  have hkept : ∀ k, (c.scene.individual k).IsTestCase → (t.individual k).IsTestCase := fun k hk => by
    rwa [ht.others k (hi.ne_testCase hk)]
  intro j hj
  by_cases hji : j = i
  · subst hji
    exact .inr ⟨members', ht.self.symm ▸ hcontent, fun k hk => hkept k (htestCases k hk), ht.self.symm ▸ hx⟩
  · have hself : t.individual j = c.scene.individual j := ht.others j hji
    rcases hc j (ht.size ▸ hj) with h | ⟨members, h⟩
    · exact .inl (hself.symm ▸ h)
    · exact .inr ⟨members, h.of_same hself (hnoted j hji) fun k hk => hkept k (h.testCases k hk)⟩

end Accurate

/-! ### Making and dropping notes -/

variable {goals : List Goal}

theorem basis_congr {j : Nat} (hnoted : d.noted j g = c.noted j g)
    (hcases : d.scene.testCases j = c.scene.testCases j) : d.basis j g = c.basis j g := by
  rw [basis, basis, hnoted, hcases]

section Notes
variable (c)

theorem note_of_ne {j : Nat} (hj : j ≠ i) : c.note judge i goals j = c.noted j := by
  funext g
  unfold note
  rw [ite_eq_right_iff.2 fun h => absurd h.1 hj]

theorem note_self : c.note judge i goals i g =
    if g ∈ goals.takeWhile fun h => (c.value judge i h).isOk then some (c.basis i g) else c.noted i g := by
  simp [note]

theorem note_of_error {e : Fault} (h : c.value judge i g = .error e) : c.note judge i (g :: goals) = c.noted := by
  have hread : (g :: goals).takeWhile (fun h => (c.value judge i h).isOk) = [] := by
    rw [List.takeWhile_cons, h]
    rfl
  funext j k
  unfold note
  rw [hread]
  simp

theorem takeWhile_of_ok {v : Float} (h : c.value judge i g = .ok v) :
    (g :: goals).takeWhile (fun h => (c.value judge i h).isOk) =
      g :: goals.takeWhile fun h => (c.value judge i h).isOk := by
  rw [List.takeWhile_cons, h]
  rfl

theorem note_of_ok {v : Float} (h : c.value judge i g = .ok v) :
    c.note judge i [g] i = fun k => if k = g then some (c.basis i g) else c.noted i k := by
  funext k
  rw [note_self, takeWhile_of_ok c h]
  by_cases hk : k = g
  · simp [hk]
  · simp [hk]

/-- To be asked does not change what a suite answers for. -/
theorem basis_note (ht : c.scene.Alike t) (j : Nat) (g : Goal) :
    basis ⟨t, c.note judge i goals⟩ j g = c.basis j g := by
  unfold basis
  dsimp only
  rw [ht.testCases]
  unfold note
  split
  · rename_i h
    rw [h.1]
    rfl
  · rfl

theorem value_note (ht : c.scene.Alike t) (g : Goal) :
    value judge ⟨t, c.note judge i goals⟩ i g = c.value judge i g := by
  rw [value, basis_note c ht, value]

/-- Goals are noted one after the other. -/
theorem note_cons {v : Float} (ht : c.scene.Alike t) (hv : c.value judge i g = .ok v) :
    note judge ⟨t, c.note judge i [g]⟩ i goals = c.note judge i (g :: goals) := by
  funext j k
  by_cases hj : j = i
  · subst hj
    rw [note_self, note_self, basis_note c ht, takeWhile_of_ok c hv]
    dsimp only
    rw [note_self, takeWhile_of_ok c hv]
    simp only [value_note c ht, List.takeWhile_nil, List.mem_cons, List.not_mem_nil, or_false]
    by_cases hk : k = g
    · simp [hk]
    · simp [hk]
  · rw [note_of_ne _ hj, note_of_ne _ hj]
    exact congrFun (note_of_ne c hj) k

end Notes

theorem note_eq_or (j : Nat) (g : Goal) {goals : List Goal} :
    c.note judge i goals j g = c.noted j g ∨ c.note judge i goals j g = some (c.basis j g) := by
  unfold note
  split
  · rename_i h
    exact .inr (by rw [h.1])
  · exact .inl rfl

theorem forget_of_ne {j : Nat} (hj : j ≠ i) : c.forget i j = c.noted j := by
  funext g
  exact ite_eq_right_iff.2 fun e => absurd e hj

theorem forget_self : c.forget i i = fun _ => none := by
  funext g
  exact ite_eq_left_iff.2 fun e => absurd rfl e

theorem forget_eq_or (j : Nat) (g : Goal) : c.forget i j g = c.noted j g ∨ c.forget i j g = none := by
  unfold forget
  split
  · exact .inr rfl
  · exact .inl rfl

/-- Notes that suites make while nobody comes: those of the individual `i` may have been made or dropped. -/
inductive Notes (judge : Nat → List σ → Verdict) (c : Chronicle σ ω) (i : Nat) :
    (Nat → Goal → Option (List (List σ))) → Prop
  | kept : Notes judge c i c.noted
  | made (goals : List Goal) : Notes judge c i (c.note judge i goals)
  | dropped : Notes judge c i (c.forget i)

namespace Notes

theorem of_ne (h : Notes judge c i noted) {j : Nat} (hj : j ≠ i) : noted j = c.noted j := by
  cases h with
  | kept => rfl
  | made goals => exact note_of_ne c hj
  | dropped => exact forget_of_ne hj

theorem eq_or (h : Notes judge c i noted) (j : Nat) (g : Goal) :
    noted j g = c.noted j g ∨ noted j g = some (c.basis j g) ∨ noted j g = none := by
  cases h with
  | kept => exact .inl rfl
  | made goals => exact (note_eq_or j g).imp_right .inl
  | dropped => exact (forget_eq_or j g).imp_right .inr

theorem of_request {r : Request} (hr : r ≠ .clone) (reply : Except Fault Reply) :
    Notes judge c i ((Operation.request i r).notes judge c reply) := by
  cases r with
  | fitness g => exact .made _
  | covers g => exact .made _
  | coverage => exact .made _
  | invalidate => exact .dropped
  | touch => exact .dropped
  | clone => exact absurd rfl hr
  | addFunction g => exact .kept
  | mutate => exact .kept
  | setAge generation => exact .kept

end Notes

/-! ### Where suites answer for their present members -/

namespace Current

/-- Nobody gets another content. -/
theorem of_content (hc : c.Current) (hcontent : ∀ j, (t.individual j).content = (c.scene.individual j).content)
    (hnoted : Notes judge c i noted) : Current ⟨t, noted⟩ := by
  intro j members hj g hg
  have hcases : t.testCases j = c.scene.testCases j := by
    unfold Scene.testCases
    simp only [hcontent]
  have hbasis := (hc j members ((hcontent j).symm.trans hj) g hg).trans hcases.symm
  show (noted j g).getD (t.testCases j) = t.testCases j
  rcases hnoted.eq_or j g with h | h | h
  · exact (basis_congr (d := ⟨t, noted⟩) h hcases).trans hbasis
  · rwa [h]
  · rw [h, Option.getD_none]

/-- If an individual gets another content, the suites that this concerns must have noted nothing. -/
theorem of_cleared (hc : c.Current) (hothers : ∀ j ≠ i, d.scene.individual j = c.scene.individual j)
    (hnoted : ∀ j ≠ i, d.noted j = c.noted j)
    (hclear : ∀ j members, (d.scene.individual j).content = .suite members → j = i ∨ i ∈ members →
      ∀ g, g.isOverSuite = true → d.noted j g = none) : d.Current := by
  intro j members hj g hg
  by_cases h : j = i ∨ i ∈ members
  · rw [basis, hclear j members hj h g hg, Option.getD_none]
  · obtain ⟨hji, hmembers⟩ := not_or.1 h
    have hcontent : (c.scene.individual j).content = .suite members := hothers j hji ▸ hj
    have hcases := Scene.testCases_congr hcontent hj fun k hk => hothers k fun e => hmembers (e ▸ hk)
    exact (basis_congr (congrFun (hnoted j hji) g) hcases).trans ((hc j members hcontent g hg).trans hcases.symm)

end Current

/-! ### New individuals -/

variable {xs : List (Individual σ)}

theorem Accurate.extend (hc : c.Accurate judge) (hnoted : ∀ j < c.scene.pool.size, noted j = c.noted j)
    (hnew : ∀ m < xs.length, ((c.scene.extend xs).individual (c.scene.pool.size + m)).Faithful judge ∨
      ∃ members, Suite judge ⟨c.scene.extend xs, noted⟩ (c.scene.pool.size + m) members) :
    Accurate judge ⟨c.scene.extend xs, noted⟩ := by
  intro j hj
  rw [Scene.size_extend] at hj
  by_cases hold : j < c.scene.pool.size
  · have hself : (c.scene.extend xs).individual j = c.scene.individual j := Scene.individual_extend_lt hold
    rcases hc j hold with h | ⟨members, h⟩
    · exact .inl (hself.symm ▸ h)
    · refine .inr ⟨members, h.of_same hself (hnoted j hold) fun k hk => ?_⟩
      have hcase := h.testCases k hk
      exact (Scene.individual_extend_lt (Scene.lt_size_of_isTestCase hcase)).symm ▸ hcase
  · obtain ⟨m, rfl⟩ := Nat.exists_eq_add_of_le (Nat.not_lt.1 hold)
    exact hnew m (by omega)

theorem Current.extend (hcurrent : c.Current) (hc : c.Accurate judge)
    (hnoted : ∀ j < c.scene.pool.size, noted j = c.noted j)
    (hnew : ∀ m members, ((c.scene.extend xs).individual (c.scene.pool.size + m)).content = .suite members →
      ∀ g, g.isOverSuite = true → basis ⟨c.scene.extend xs, noted⟩ (c.scene.pool.size + m) g =
        (c.scene.extend xs).testCases (c.scene.pool.size + m)) :
    Current ⟨c.scene.extend xs, noted⟩ := by
  intro j members hj g hg
  by_cases hold : j < c.scene.pool.size
  · have hcontent : (c.scene.individual j).content = .suite members :=
      (congrArg _ (Scene.individual_extend_lt hold)).symm.trans hj
    have hcases := Scene.testCases_congr hcontent hj fun k hk =>
      Scene.individual_extend_lt (Scene.lt_size_of_isTestCase ((hc.suite hcontent).testCases k hk))
    exact (basis_congr (d := ⟨_, noted⟩) (congrFun (hnoted j hold) g) hcases).trans
      ((hcurrent j members hcontent g hg).trans hcases.symm)
  · obtain ⟨m, rfl⟩ := Nat.exists_eq_add_of_le (Nat.not_lt.1 hold)
    exact hnew m members hj g hg

end Chronicle

end GoalSearch
