import GoalSearch.Proofs.Phases

/-!
# What a mutation does

A mutation is made of three phases, each of which is skipped or entered (`Phase`). So what becomes of a test case is told
by the statements that are removed, by those that are replaced, and by those that are made and inserted (`Mutates`). From
these edits all else follows: a mutation that tells of no alteration made none (`alteration_of_mutate`), and the
statements of a mutated test case are like those that it had and those that are made, and it is not longer than it was or
may become (`Honours.wp_mutate`).
-/

namespace GoalSearch

variable {σ ω α : Type} {xs ys : List σ} {w : ω}

/-- Powers of a probability are no fault. -/
theorem MutationRates.bound_of_le_one {rates : MutationRates} (hnonneg : 0.0 ≤ rates.insertionProbability)
    (hle : rates.insertionProbability ≤ 1.0) (exponent : Nat) :
    rates.bound exponent = .ok (Float.pow rates.insertionProbability (Float.ofNat exponent)) := by
  have hlow : ¬ rates.insertionProbability < -1.0 := fun h =>
    absurd (Binary64.lt_of_le_of_lt hnonneg h) (by decide +kernel)
  have hhigh : ¬ 1.0 < rates.insertionProbability := fun h =>
    Binary64.lt_irrefl _ (Binary64.lt_of_le_of_lt hle h)
  unfold bound
  simp [hlow, hhigh]

/-- At most `n` statements, which are like `p`. -/
structure Bounded (p : σ → Prop) (n : Nat) (xs : List σ) : Prop where
  length_le : xs.length ≤ n
  forall_mem : ∀ s ∈ xs, p s

namespace SequenceMutation

variable {source : RandomSource ω} {op : SequenceMutation σ ω} {E : Fault → List σ × ω → Prop} {v : ω}

/-! ### Edits -/

/-- A phase is skipped by its draw, and then nothing comes of it, or it is entered. -/
inductive Phase (source : RandomSource ω) (p : Float) (idle : α) (body : ω → α → ω → Prop) : ω → α → ω → Prop
  | skipped {w : ω} (hdraw : ¬ (source.nextUnit w).1 ≤ p) : Phase source p idle body w idle (source.nextUnit w).2
  | entered {w v : ω} {edit : α} (hdraw : (source.nextUnit w).1 ≤ p) (h : body (source.nextUnit w).2 edit v) :
      Phase source p idle body w edit v

theorem Phase.elim {p : Float} {idle edit : α} {body : ω → α → ω → Prop} {P : α → Prop}
    (h : Phase source p idle body w edit v) (hidle : P idle) (hbody : ∀ w edit v, body w edit v → P edit) : P edit := by
  cases h with
  | skipped => exact hidle
  | entered _ h => exact hbody _ _ _ h

theorem wp_phase {p : Float} (idle : α) (body : ω → α → ω → Prop) {P : α → Bool → List σ → Prop} {x : Edit σ ω Bool}
    (hidle : P idle false xs)
    (hx : ∀ w, wp x (fun altered t => ∃ edit, body w edit t.2 ∧ P edit altered t.1) E (xs, w)) :
    wp (phase source p x) (fun altered t => ∃ edit, Phase source p idle body w edit t.2 ∧ P edit altered t.1) E
      (xs, w) := by
  unfold phase
  rw [wp_bind, Edit.wp_draw, RandomSource.wp_unit, wp_ite]
  split
  · rename_i hdraw
    exact wp_imp (hx _) fun altered t ⟨edit, hedit, ht⟩ => ⟨edit, .entered hdraw hedit, ht⟩
  · rename_i hdraw
    exact ⟨idle, .skipped hdraw, hidle⟩

/-- What is removed from the statements and what is kept of them. -/
def Deletes (source : RandomSource ω) (xs : List σ) (w : ω) (edit : List σ × List σ) (v : ω) : Prop :=
  ∃ draws, Draws source.nextUnit w draws v ∧ draws.length = xs.length ∧
    edit = (chosen (· ≤ share xs.length) xs draws, chosen (fun x => !(x ≤ share xs.length)) xs draws)

namespace Deletes
variable {edit : List σ × List σ}

theorem perm (h : Deletes source xs w edit v) : (edit.1 ++ edit.2).Perm xs := by
  obtain ⟨draws, -, hlength, rfl⟩ := h
  exact (chosen_perm hlength : (chosen (· ≤ share xs.length) xs draws ++ _).Perm xs)

theorem sublist (h : Deletes source xs w edit v) : edit.2.Sublist xs := by
  obtain ⟨draws, -, hlength, rfl⟩ := h
  exact (chosen_sublist hlength : (chosen (fun x => !(x ≤ share xs.length)) xs draws).Sublist xs)

end Deletes

/-- The edits of a mutation: which statements are removed and which are kept, what is made of the kept ones, and which
statements are made and inserted. -/
inductive Mutates (source : RandomSource ω) (op : SequenceMutation σ ω) (w : ω) (xs : List σ) :
    List σ → List σ → List (Option σ) → List σ → List σ → ω → Prop
  | mk {u u' v : ω} {removed kept created ys : List σ} {news : List (Option σ)}
      (hdelete : Phase source op.deleteProbability ([], xs) (Deletes source xs) w (removed, kept) u)
      (hchange : Phase source op.changeProbability (kept.map fun _ => none)
        (fun w news v => Considers source op (share kept.length) w kept news v) u news u')
      (hinsert : Phase source op.insertProbability ([], revised kept news)
        (fun w edit v => Inserts source op 1 w (revised kept news) edit.1 edit.2 v) u' (created, ys) v) :
      Mutates source op w xs removed kept news created ys v

theorem revised_of_none {news : List (Option σ)} (hlength : news.length = xs.length) (h : ∀ new ∈ news, new = none) :
    revised xs news = xs := by
  induction xs generalizing news with
  | nil => rfl
  | cons s xs ih =>
    cases news with
    | nil => cases hlength
    | cons new news =>
      obtain ⟨rfl, hnews⟩ := List.forall_mem_cons.1 h
      exact congrArg (s :: ·) (ih (Nat.succ.inj hlength) hnews)

namespace Mutates
variable {removed kept created : List σ} {news : List (Option σ)}

theorem perm_removed (h : Mutates source op w xs removed kept news created ys v) : (removed ++ kept).Perm xs := by
  obtain ⟨hdelete, -, -⟩ := h
  exact hdelete.elim (P := fun edit => (edit.1 ++ edit.2).Perm xs) (.refl _) fun _ _ _ h => h.perm

theorem sublist_kept (h : Mutates source op w xs removed kept news created ys v) : kept.Sublist xs := by
  obtain ⟨hdelete, -, -⟩ := h
  exact hdelete.elim (P := fun edit => edit.2.Sublist xs) (.refl _) fun _ _ _ h => h.sublist

theorem length_news (h : Mutates source op w xs removed kept news created ys v) : news.length = kept.length := by
  obtain ⟨-, hchange, -⟩ := h
  exact hchange.elim (P := fun news => news.length = kept.length) (List.length_map _) fun _ _ _ h => h.length_eq

theorem length_revised (h : Mutates source op w xs removed kept news created ys v) :
    (revised kept news).length = kept.length := List.length_zipWith.trans (h.length_news ▸ Nat.min_self _)

theorem sublist_revised (h : Mutates source op w xs removed kept news created ys v) : (revised kept news).Sublist ys := by
  obtain ⟨-, -, hinsert⟩ := h
  exact hinsert.elim (P := fun edit => (revised kept news).Sublist edit.2) (.refl _) fun _ _ _ h => h.sublist

theorem perm_created (h : Mutates source op w xs removed kept news created ys v) :
    ys.Perm (created ++ revised kept news) := by
  obtain ⟨-, -, hinsert⟩ := h
  exact hinsert.elim (P := fun edit => edit.2.Perm (edit.1 ++ revised kept news)) (.refl _) fun _ _ _ h => h.perm

theorem length_le (h : Mutates source op w xs removed kept news created ys v) :
    ys.length ≤ max xs.length op.maxLength := by
  have hkept := h.sublist_kept.length_le
  have hrevised := h.length_revised
  obtain ⟨-, -, hinsert⟩ := h
  have hlength := hinsert.elim (P := fun edit => edit.2.length ≤ max (revised kept news).length op.maxLength)
    (Nat.le_max_left _ _) fun _ _ _ h => h.length_le
  dsimp only at hlength
  omega

/-- Without insertions a test case does not grow. -/
theorem length_le_of_nil (h : Mutates source op w xs removed kept news [] ys v) : ys.length ≤ xs.length :=
  (h.perm_created.length_eq.trans h.length_revised).trans_le h.sublist_kept.length_le

/-- Without edits a test case is as it was. -/
theorem eq_of_none (h : Mutates source op w xs [] kept news [] ys v) (hnews : ∀ new ∈ news, new = none) : ys = xs := by
  have hkept : kept = xs := h.sublist_kept.eq_of_length h.perm_removed.length_eq
  have hrevised : revised kept news = ys := h.sublist_revised.eq_of_length h.perm_created.length_eq.symm
  rw [← hrevised, revised_of_none h.length_news hnews, hkept]

end Mutates

/-- A mutation ends with its edits, and tells whether there are any. -/
theorem wp_mutate_edits : wp (op.mutate source)
    (fun altered t => ∃ removed kept news created, Mutates source op w xs removed kept news created t.1 t.2 ∧
      altered = (!removed.isEmpty || news.any (·.isSome) || !created.isEmpty))
    (fun e _ => Raises op.create e ∨ (∃ s ∈ xs, Raises (op.change s) e) ∨ ∃ k, op.bound k = .error e) (xs, w) := by
  have hdelete : ∀ {E : Fault → List σ × ω → Prop} w, wp (delete source)
      (fun altered t => ∃ edit, Deletes source xs w edit t.2 ∧ t.1 = edit.2 ∧ altered = !edit.1.isEmpty) E (xs, w) := by
    refine fun w => wp_imp wp_delete ?_
    rintro altered t ⟨draws, hdraws, hlength, ht, rfl⟩
    refine ⟨_, ⟨draws, hdraws, hlength, rfl⟩, ht, Bool.eq_iff_iff.2 ?_⟩
    simp [chosen_eq_nil_iff hlength]
  have hinsert : ∀ xs w, wp (insert source op)
      (fun altered t => ∃ edit : List σ × List σ, Inserts source op 1 w xs edit.1 edit.2 t.2 ∧ t.1 = edit.2 ∧
        altered = !edit.1.isEmpty) (fun e _ => Raises op.create e ∨ ∃ k, op.bound k = .error e) (xs, w) := by
    refine fun xs w => wp_imp wp_insert ?_
    rintro altered t ⟨created, hcreated, rfl⟩
    exact ⟨(created, t.1), hcreated, rfl, rfl⟩
  unfold mutate
  refine wp_seq (wp_phase ([], xs) (Deletes source xs)
    (P := fun edit altered ys => ys = edit.2 ∧ altered = !edit.1.isEmpty) ⟨rfl, rfl⟩ hdelete) ?_
  rintro deleted ⟨kept, u⟩ ⟨⟨removed, _⟩, hdeletes, rfl, rfl⟩
  have hkept : kept.Sublist xs := hdeletes.elim (P := fun edit => edit.2.Sublist xs) (.refl _) fun _ _ _ h => h.sublist
  refine wp_seq (wp_mono (wp_phase (kept.map fun _ => none)
    (fun w news v => Considers source op (share kept.length) w kept news v)
    (P := fun news altered ys => ys = revised kept news ∧ altered = news.any (·.isSome))
    ⟨(revised_of_none (List.length_map _) (by simp)).symm, by simp⟩ fun w => wp_changePhase) (fun _ _ h => h)
    fun e t ⟨s, hs, he⟩ => .inr (.inl ⟨s, hkept.subset hs, he⟩)) ?_
  rintro changed ⟨_, u'⟩ ⟨news, hchanges, rfl, rfl⟩
  refine wp_seq (wp_mono (wp_phase ([], revised kept news)
    (fun w edit v => Inserts source op 1 w (revised kept news) edit.1 edit.2 v)
    (P := fun edit altered ys => ys = edit.2 ∧ altered = !edit.1.isEmpty) ⟨rfl, rfl⟩ (hinsert _))
    (fun _ _ h => h) fun e t he => he.imp_right .inr) ?_
  rintro inserted ⟨ys, v⟩ ⟨⟨created, _⟩, hinserts, rfl, rfl⟩
  exact ⟨removed, kept, news, created, .mk hdeletes hchanges hinserts, rfl⟩

/-- With a probability of insertions a mutation fails with nothing but what making and changing statements fail with. The
test case is not longer than it was or may become, and does not grow without insertions. It is told as altered just if
a statement is removed, replaced or inserted, and otherwise it is as it was. -/
theorem alteration_of_mutate (source : RandomSource ω) (op : SequenceMutation σ ω)
    (hnonneg : 0.0 ≤ op.insertionProbability) (hle : op.insertionProbability ≤ 1.0) (xs : List σ) (w : ω) :
    wp (op.mutate source)
      (fun altered t => t.1.length ≤ max xs.length op.maxLength ∧ (altered = false → t.1 = xs) ∧
        ∃ removed kept news created, Mutates source op w xs removed kept news created t.1 t.2 ∧
          (created = [] → t.1.length ≤ xs.length) ∧
          (altered = true ↔ removed ≠ [] ∨ (∃ new, some new ∈ news) ∨ created ≠ []))
      (fun e _ => Raises op.create e ∨ ∃ s ∈ xs, Raises (op.change s) e) (xs, w) := by
  refine wp_mono wp_mutate_edits ?_ ?_
  · rintro altered t ⟨removed, kept, news, created, hedits, rfl⟩
    refine ⟨hedits.length_le, fun hnone => ?_, removed, kept, news, created, hedits, ?_, ?_⟩
    · simp only [Bool.or_eq_false_iff, Bool.not_eq_false', List.isEmpty_iff] at hnone
      obtain ⟨⟨rfl, hnews⟩, rfl⟩ := hnone
      exact hedits.eq_of_none (by simpa using hnews)
    · rintro rfl
      exact hedits.length_le_of_nil
    · simp [Option.isSome_iff_exists, or_assoc]
  · rintro e t (he | he | ⟨k, he⟩)
    · exact .inl he
    · exact .inr he
    · cases (MutationRates.bound_of_le_one hnonneg hle k).symm.trans he

/-- Letters, one of which can be changed. -/
def lettering : SequenceMutation String Nat where
  deleteProbability := 1.0
  changeProbability := 1.0
  insertProbability := 0.0
  create w := (.ok "n", w)
  change s w := (.ok (if s = "c" then some "C" else none), w)

/-- One letter is removed, and one of the others is replaced. -/
theorem alteration_of_letters : 0.0 ≤ lettering.insertionProbability ∧ lettering.insertionProbability ≤ 1.0 ∧
    (lettering.mutate Sample.counting).run (["a", "b", "c"], 0) = (.ok true, ["a", "C"], 8) ∧
    ∃ removed kept news created,
      Mutates Sample.counting lettering 0 ["a", "b", "c"] removed kept news created ["a", "C"] 8 ∧
        (removed ≠ [] ∨ (∃ new, some new ∈ news) ∨ created ≠ []) := by
  have hnonneg : 0.0 ≤ lettering.insertionProbability := by decide +kernel
  have hle : lettering.insertionProbability ≤ 1.0 := by decide +kernel
  have hrun : (lettering.mutate Sample.counting).run (["a", "b", "c"], 0) = (.ok true, ["a", "C"], 8) := by
    rw [run_eq_of_toOption (a := true) (by decide +kernel)]
    exact Prod.ext rfl (by decide +kernel)
  obtain ⟨-, -, removed, kept, news, created, hedits, -, haltered⟩ :=
    post_of_run_eq (alteration_of_mutate Sample.counting lettering hnonneg hle ["a", "b", "c"] 0) hrun
  exact ⟨hnonneg, hle, hrun, removed, kept, news, created, hedits, haltered.1 rfl⟩

/-! ### Kinds of statements -/

/-- New and changed statements are like `p`, and nothing fails but as it is allowed to. -/
structure Honours (op : SequenceMutation σ ω) (p : σ → Prop) (blame : Fault → Prop) : Prop where
  create : ∀ w, wp op.create (fun s _ => p s) (fun e _ => blame e) w
  change : ∀ s w, p s → wp (op.change s) (fun new _ => ∀ s' ∈ new, p s') (fun e _ => blame e) w
  bound : ∀ exponent e, op.bound exponent = .error e → blame e

variable {p : σ → Prop} {blame : Fault → Prop} {n : Nat}

namespace Honours

/-- What is made of statements like `p` is like `p`. -/
theorem forall_mem (h : op.Honours p blame) {removed kept created : List σ} {news : List (Option σ)}
    (hedits : Mutates source op w xs removed kept news created ys v) (hxs : ∀ s ∈ xs, p s) : ∀ s ∈ ys, p s := by
  have hkept : ∀ s ∈ kept, p s := fun s hs => hxs s (hedits.sublist_kept.subset hs)
  have hperm := hedits.perm_created
  obtain ⟨-, hchange, hinsert⟩ := hedits
  have hnews : ∀ s ∈ revised kept news, p s := by
    refine hchange.elim (P := fun news => ∀ s ∈ revised kept news, p s) ?_ fun w news v hnews => ?_
    · rwa [revised_of_none (List.length_map _) (by simp)]
    · intro s hs
      obtain ⟨i, hs⟩ := List.mem_iff_getElem?.1 hs
      have hi : i < kept.length := hnews.length_revised ▸ (List.getElem?_eq_some_iff.1 hs).1
      have hold : p kept[i] := hkept _ (List.getElem_mem hi)
      rcases hnews.at_position i _ (List.getElem?_eq_getElem hi) with hsame | ⟨u, new, -, hrun, hnew⟩
      · exact Option.some.inj (hsame.symm.trans hs) ▸ hold
      · exact Option.some.inj (hnew.symm.trans hs) ▸ post_of_run_eq (h.change _ _ hold) (Prod.ext hrun rfl) new rfl
  have hcreated : ∀ s ∈ created, p s := by
    refine hinsert.elim (P := fun edit => ∀ s ∈ edit.1, p s) (by simp) fun w edit v hcreated s hs => ?_
    obtain ⟨u, u', hrun⟩ := hcreated.made s hs
    exact post_of_run_eq (h.create u) hrun
  exact fun s hs => (List.mem_append.1 (hperm.mem_iff.1 hs)).elim (hcreated s) (hnews s)

/-- A mutation fails with nothing but what its parts fail with, and keeps the statements as they shall be. -/
theorem wp_mutate (h : op.Honours p blame) (hn : op.maxLength ≤ n) (hxs : Bounded p n xs) :
    wp (op.mutate source) (fun _ t => Bounded p n t.1) (fun e _ => blame e) (xs, w) := by
  refine wp_mono wp_mutate_edits ?_ ?_
  · rintro altered t ⟨removed, kept, news, created, hedits, -⟩
    exact ⟨hedits.length_le.trans (Nat.max_le.2 ⟨hxs.length_le, hn⟩), h.forall_mem hedits hxs.forall_mem⟩
  · rintro e t (⟨u, he⟩ | ⟨s, hs, u, he⟩ | ⟨k, he⟩)
    · exact fault_of_run_eq (h.create u) (Prod.ext he rfl)
    · exact fault_of_run_eq (h.change s u (hxs.forall_mem s hs)) (Prod.ext he rfl)
    · exact h.bound k e he

/-! ### New test cases -/

theorem wp_sequence (h : op.Honours p blame) (k : Nat) :
    wp (op.sequence k) (fun xs _ => xs.length = k ∧ ∀ s ∈ xs, p s) (fun e _ => blame e) w := by
  induction k generalizing w with
  | zero => exact ⟨rfl, by simp⟩
  | succ k ih =>
    unfold sequence
    refine wp_seq (h.create w) fun s v hs => wp_seq ih fun xs v hxs => ⟨congrArg (· + 1) hxs.1, ?_⟩
    exact List.forall_mem_cons.2 ⟨hs, hxs.2⟩

theorem wp_randomSequence (h : op.Honours p blame) {length : Int} (hlength : 1 ≤ length) :
    wp (op.randomSequence source length) (fun xs _ => xs ≠ [] ∧ Bounded p length.toNat xs) (fun e _ => blame e) w := by
  unfold randomSequence
  refine wp_seq (source.wp_int (by omega)) fun k v hk => ?_
  refine wp_imp (h.wp_sequence _) fun xs v hxs => ?_
  obtain ⟨hcount, hstatements⟩ := hxs
  exact ⟨List.length_pos_iff.1 (by omega), by omega, hstatements⟩

end Honours

end SequenceMutation

end GoalSearch
