import GoalSearch.Proofs.Asking
import GoalSearch.Proofs.Search.Contract

/-!
# Accounts of evaluations

`s.Accounts subject goals made t`: between the searches `s` and `t` just the individuals `made` were evaluated, each of
them once, for each of them the evaluator of every goal was asked once, and what got covered is credited to an answer.
What evaluates nobody leaves the accounts as they are, as long as it asks no evaluator either; an evaluation is one more
entry (`Audited.wp_evaluate`).
-/

namespace GoalSearch

variable {σ ω α : Type} {subject : Subject σ ω} {goals : List Goal} {start s t : Search σ ω} {made : List Nat}

open Event (evaluationsFrom)

structure Search.Accounts (subject : Subject σ ω) (goals : List Goal) (start : Search σ ω) (made : List Nat)
    (s : Search σ ω) : Prop where
  le_size : start.events.size ≤ s.events.size
  asked_eq : ∀ asked, subject.Records asked → ∀ n, asked s.scene.outside n = asked start.scene.outside n ++
    if .atom n ∈ goals then (evaluationsFrom start.events.size s.events).map (·.2.content) else []
  made_eq : (evaluationsFrom start.events.size s.events).map (·.1) = made
  nodup : made.Nodup
  credits : start.Credits subject s

namespace Search.Accounts

theorem refl (subject : Subject σ ω) (goals : List Goal) (s : Search σ ω) : s.Accounts subject goals [] s where
  le_size := le_rfl
  asked_eq _ _ n := by simp [Event.evaluationsFrom_size]
  made_eq := by simp [Event.evaluationsFrom_size]
  nodup := List.nodup_nil
  credits := .refl subject s

theorem frame (h : start.Accounts subject goals made s) (hquiet : subject.Quiet s.scene.outside t.scene.outside)
    (hevents : t.events = s.events) (harchive : t.archive = s.archive) : start.Accounts subject goals made t where
  le_size := hevents ▸ h.le_size
  asked_eq asked hasked n := by rw [hquiet.asked_eq hasked, hevents, h.asked_eq asked hasked]
  made_eq := hevents ▸ h.made_eq
  nodup := h.nodup
  credits := h.credits.trans (.of_quiet hquiet harchive)

/-- An event that is no evaluation. -/
theorem push (h : start.Accounts subject goals made s) {e : Event σ} (he : e.evaluation? = none)
    (hquiet : subject.Quiet s.scene.outside t.scene.outside) (hevents : t.events = s.events.push e)
    (harchive : t.archive = s.archive) : start.Accounts subject goals made t where
  le_size := h.le_size.trans (by simp [hevents])
  asked_eq asked hasked n := by
    rw [hquiet.asked_eq hasked, hevents, Event.evaluationsFrom_push_of_none h.le_size he, h.asked_eq asked hasked]
  made_eq := by rw [hevents, Event.evaluationsFrom_push_of_none h.le_size he, h.made_eq]
  nodup := h.nodup
  credits := h.credits.trans (.of_quiet hquiet harchive)

/-- One more individual was evaluated, for which the evaluators of all goals were asked. -/
theorem evaluated (h : start.Accounts subject goals made s) (hgoals : goals.Nodup) {i : Nat} {x : Individual σ}
    {phase : Phase} (hnew : ∀ e ∈ evaluationsFrom start.events.size s.events, e.1 ≠ i)
    (hasks : t.scene.outside = subject.notice .evaluated
      (goals.foldl (fun w g => subject.asking g x.content w) s.scene.outside))
    (hevents : t.events = s.events.push (.evaluated i x phase)) (hcredits : s.Credits subject t) :
    start.Accounts subject goals (made ++ [i]) t := by
  have hall : evaluationsFrom start.events.size t.events = evaluationsFrom start.events.size s.events ++ [(i, x)] := by
    rw [hevents, Event.evaluationsFrom_push h.le_size]
    rfl
  refine ⟨h.le_size.trans (by simp [hevents]), fun asked hasked n => ?_, ?_, ?_, h.credits.trans hcredits⟩
  · rw [hasks, hasked.notice, hasked.asked_foldl_asking hgoals, h.asked_eq asked hasked, hall, List.append_assoc]
    split <;> simp
  · rw [hall, List.map_append, h.made_eq]
    rfl
  · refine List.nodup_append'.2 ⟨h.nodup, List.nodup_singleton i, List.disjoint_singleton.2 fun hmem => ?_⟩
    rw [← h.made_eq] at hmem
    obtain ⟨e, he, hei⟩ := List.mem_map.1 hmem
    exact hnew e he hei

end Search.Accounts

/-! ### Tracked searches with accounts -/

/-- Tracked searches with accounts since `start`, all of whose test cases fit a contract. -/
structure Audited (subject : Subject σ ω) (contract : Contract σ) (start : Search σ ω) (goals : List Goal) (n : Nat)
    (population kept own made : List Nat) (s : Search σ ω) : Prop extends Tracked goals n population kept own s where
  accounts : start.Accounts subject goals made s
  le : n ≤ start.events.size
  evaluated_fits : ∀ e ∈ evaluationsFrom n s.events, contract.Fits e.2.content
  own_fits : ∀ i ∈ own, contract.Fits (s.scene.individual i).content

theorem Tracked.audited {contract : Contract σ} {n : Nat} {population kept : List Nat}
    (h : Tracked goals n population kept [] s) (hfits : ∀ e ∈ evaluationsFrom n s.events, contract.Fits e.2.content)
    (subject : Subject σ ω) : Audited subject contract s goals n population kept [] [] s :=
  ⟨h, .refl subject goals s, h.events_le, hfits, by simp⟩

namespace Audited
open SearchM

variable {contract : Contract σ} {n : Nat} {population kept own : List Nat} {i : Nat} {setup : Setup σ ω}

/-- What was evaluated fits. -/
theorem fits_of_mem (h : Audited subject contract start goals n population kept own made s) {x : Individual σ}
    (hx : (i, x) ∈ evaluationsFrom n s.events) : contract.Fits (s.scene.individual i).content := by
  rw [(Individual.bare_eq_iff.1 (h.evaluated _ hx).2.2).1]
  exact h.evaluated_fits _ hx

/-- Whoever changes owned test cases only, and gives up as it is allowed to, does no harm. -/
theorem fails (h : Audited subject contract start goals n population kept own made s) {e : Fault}
    (hblame : contract.blame e) (hscene : s.scene.Keeps own t.scene) (hevents : t.events = s.events)
    (hcredits : s.Credits subject t) : contract.Fails subject goals start n e t where
  blame := hblame
  intact x hx := (h.toTracked.onScene hscene).intact x (hevents ▸ hx)
  evaluated x hx := (h.evaluated x (hevents ▸ hx)).1
  fits := hevents ▸ h.evaluated_fits
  credits := h.accounts.credits.trans hcredits

theorem disown (h : Audited subject contract start goals n population kept own made s) {own' : List Nat}
    (hown : own' ⊆ own) (hnodup : own'.Nodup) : Audited subject contract start goals n population kept own' made s :=
  ⟨h.toTracked.disown hown hnodup, h.accounts, h.le, h.evaluated_fits, fun i hi => h.own_fits i (hown hi)⟩

/-- The owned test cases may change, as long as they fit. -/
theorem change (h : Audited subject contract start goals n population kept own made s) {u : Scene σ ω}
    (hu : s.scene.Keeps own u) (hquiet : subject.Quiet s.scene.outside u.outside)
    (hfits : ∀ i ∈ own, contract.Fits (u.individual i).content) :
    Audited subject contract start goals n population kept own made { s with scene := u } :=
  ⟨h.toTracked.onScene hu, h.accounts.frame hquiet rfl rfl, h.le, h.evaluated_fits, hfits⟩

/-- An owned test case fits as long as nobody changes it. -/
theorem fits_of_keeps (h : Audited subject contract start goals n population kept own made s) {changed : List Nat}
    {u : Scene σ ω} (hu : s.scene.Keeps changed u) (hi : i ∈ own) (hchanged : i ∉ changed) :
    contract.Fits (u.individual i).content := by
  rw [(Individual.bare_eq_iff.1 (hu.bare i (Scene.lt_size_of_isTestCase (h.of_own i hi).1) hchanged)).1]
  exact h.own_fits i hi

theorem onScene (h : Audited subject contract start goals n population kept own made s) {u : Scene σ ω}
    (hu : s.scene.Keeps [] u) (hquiet : subject.Quiet s.scene.outside u.outside) :
    Audited subject contract start goals n population kept own made { s with scene := u } :=
  h.change (hu.mono (List.nil_subset _)) hquiet fun _ hi => h.fits_of_keeps hu hi (by simp)

/-- A test case that is new to the pool may be owned if it fits. -/
theorem adopt (h : Audited subject contract start goals n population kept own made s) {u : Scene σ ω}
    (hu : s.scene.Keeps [] u) (hquiet : subject.Quiet s.scene.outside u.outside) (hi : s.scene.pool.size ≤ i)
    (htest : (u.individual i).IsTestCase) (hfits : contract.Fits (u.individual i).content) :
    Audited subject contract start goals n population kept (i :: own) made { s with scene := u } := by
  refine ⟨h.toTracked.adopt (hu.mono (List.nil_subset _)) hi htest, h.accounts.frame hquiet rfl rfl, h.le,
    h.evaluated_fits, fun j hj => ?_⟩
  rcases List.mem_cons.1 hj with rfl | hj
  · exact hfits
  · exact h.fits_of_keeps hu hj (by simp)

theorem log (h : Audited subject contract start goals n population kept own made s) (notice : Notice) :
    Audited subject contract start goals n population kept own made { s with scene := s.scene.logged notice } :=
  h.onScene (.of_pool rfl) (.refl _ _)

theorem note (h : Audited subject contract start goals n population kept own made s) {generation : Int}
    {phase : Phase} {conditions : List Condition} {dependencies : Option Dependencies} :
    Audited subject contract start goals n population kept own made
      { s with
        generation := generation
        phase := phase
        conditions := conditions
        dependencies := dependencies } :=
  ⟨h.toTracked.note, h.accounts.frame (.refl _ _) rfl rfl, h.le, h.evaluated_fits, h.own_fits⟩

theorem repopulate (h : Audited subject contract start goals n population kept own made s) {members : List Nat} :
    Audited subject contract start goals n members kept own made { s with population := members } :=
  ⟨h.toTracked.repopulate, h.accounts.frame (.refl _ _) rfl rfl, h.le, h.evaluated_fits, h.own_fits⟩

section Steps
variable {E : Fault → Search σ ω → Prop}

theorem wp_signal (h : Audited subject contract start goals n population kept own made s) (x : Signal) :
    wp (signal x) (fun _ => Audited subject contract start goals n population kept own made) E s := h.note

/-- An event that is no evaluation. -/
theorem wp_record (h : Audited subject contract start goals n population kept own made s) {e : Event σ}
    (he : e.evaluation? = none) :
    wp (record e) (fun _ => Audited subject contract start goals n population kept own made) E s :=
  ⟨h.toTracked.wp_record (E := E) he, h.accounts.push he (.refl _ _) rfl rfl, h.le,
    Event.evaluationsFrom_push_of_none h.events_le he ▸ h.evaluated_fits, h.own_fits⟩

theorem wp_logs (h : Audited subject contract start goals n population kept own made s) {β : Type} {l : List β}
    {notice : β → Notice} : wp (l.forM fun b => SearchM.log (notice b))
      (fun _ => Audited subject contract start goals n population kept own made) E s := by
  refine wp_imp SearchM.wp_logs ?_
  rintro - _ ⟨log, rfl⟩
  exact h.onScene (.of_pool rfl) (.refl _ _)

end Steps

/-- A step on the scene that asks no evaluator. Should it fail, only owned test cases have changed. -/
theorem wp_onScene (h : Audited subject contract start goals n population kept own made s) {y : SceneM σ ω α}
    {R : α → Scene σ ω → Prop} {Q : α → Search σ ω → Prop}
    (hy : wp y R (fun e u => contract.blame e ∧ s.scene.Keeps own u) s.scene)
    (hquiet : ∀ w, Keeps (Scene.Outside (subject.Quiet w)) y)
    (hQ : ∀ a u, R a u → subject.Quiet s.scene.outside u.outside → Q a { s with scene := u }) :
    wp (SearchM.onScene y) Q (contract.Fails subject goals start n) s := by
  rw [SearchM.wp_onScene]
  refine wp_mono (wp_and hy (Keeps.iff_wp.1 (hquiet s.scene.outside) s.scene (.refl _ _)))
    (fun a u hu => hQ a u hu.1 hu.2) fun e u hu => h.fails hu.1.1 hu.1.2 rfl (.of_quiet hu.2 rfl)

/-- A step outside that asks no evaluator. -/
theorem wp_act (h : Audited subject contract start goals n population kept own made s) {f : ω → Except Fault α × ω}
    {R : α → Prop}
    (hf : wp (f : ExceptT Fault (StateM ω) α) (fun a _ => R a) (fun e _ => contract.blame e) s.scene.outside)
    (hquiet : ∀ w, Keeps (subject.Quiet w) (f : ExceptT Fault (StateM ω) α)) :
    wp (SearchM.onScene (SceneM.act f))
      (fun a t => R a ∧ Audited subject contract start goals n population kept own made t)
      (contract.Fails subject goals start n) s := by
  refine h.wp_onScene (R := fun a u => R a ∧ s.scene.Keeps [] u) ?_ (fun w => SceneM.keeps_act (hquiet w))
    fun a u hu hquiet => ⟨hu.1, h.onScene hu.2 hquiet⟩
  rw [SceneM.wp_act]
  exact wp_mono hf (fun _ _ hR => ⟨hR, .of_pool rfl⟩) fun _ _ hblame => ⟨hblame, .of_pool rfl⟩

/-- An evaluation is one more entry in the accounts. -/
theorem wp_evaluate (hsetup : setup.Honours contract)
    (h : Audited setup.subject contract start goals n population kept (i :: own) made s)
    (hchanged : (s.scene.individual i).changed = true) (hsize : 0 < (s.scene.individual i).size) :
    wp (evaluate setup i)
      (fun _ => Audited setup.subject contract start goals n population (kept ++ [i]) own (made ++ [i]))
      (contract.Fails setup.subject goals start n) s := by
  have hfits := h.own_fits i (by simp)
  refine wp_mono (h.toTracked.wp_evaluate hchanged hsize) ?_ fun e t he =>
    h.fails ?_ (he.scene.mono (by simp)) he.events he.credits
  · rintro - t ⟨ht, hevaluation⟩
    obtain ⟨x, phase, hevents, hcontent⟩ := hevaluation.events
    have hnew : ∀ e ∈ evaluationsFrom start.events.size s.events, e.1 ≠ i := fun e he =>
      (h.of_own i (by simp)).2 e (Event.evaluationsFrom_subset_of_le h.le he)
    have hi : i ∉ own := (List.nodup_cons.1 h.own_nodup).1
    have haccounts := h.accounts.evaluated h.goals_nodup hnew (hcontent ▸ hevaluation.outside) hevents hevaluation.credits
    refine ⟨ht, haccounts, h.le, fun e he => ?_, fun j hj => h.fits_of_keeps hevaluation.scene (by simp [hj])
      (by simpa using fun e : j = i => hi (e ▸ hj))⟩
    rw [hevents, Event.evaluationsFrom_push h.events_le, List.mem_append] at he
    rcases he with he | he
    · exact h.evaluated_fits e he
    · obtain rfl : e = (i, x) := by simpa [Event.evaluation?] using he
      exact hcontent ▸ hfits
  · obtain ⟨statements, operator, hcontent⟩ := (h.of_own i (by simp)).1
    obtain ⟨k, w, haborted⟩ := he.aborted
    rw [hcontent] at hfits haborted
    exact hsetup.evaluate statements operator hfits k w e haborted

end Audited

end GoalSearch
