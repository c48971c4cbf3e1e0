import GoalSearch.Search.State
import Mathlib.Data.List.Basic

/-!
# Postconditions of computations with faults

`wp x Q E s`: run on `s`, the computation `x` ends normally in `Q` or with a fault in `E`. With `E` always
true this is partial correctness, with `E` never true `x` cannot fail. `Yields I x a` is the case of a
computation that keeps an invariant and always gives the same value: what is computed from such readings
is what the same algorithm computes from the values.
-/

namespace GoalSearch

section Rules
variable {S α β : Type}

/-- The computation, run on `s`, ends normally in `Q` or with a fault in `E`. -/
def wp (x : ExceptT Fault (StateM S) α) (Q : α → S → Prop) (E : Fault → S → Prop) (s : S) : Prop :=
  match x.run s with
  | (.ok a, t) => Q a t
  | (.error e, t) => E e t

variable {x : ExceptT Fault (StateM S) α} {f : α → ExceptT Fault (StateM S) β}
  {Q Q' : α → S → Prop} {E E' : Fault → S → Prop} {s t : S} {a : α}

@[simp] theorem wp_pure : wp (pure a) Q E s ↔ Q a s := Iff.rfl

@[simp] theorem wp_throw {e : Fault} : wp (throw e : ExceptT Fault (StateM S) α) Q E s ↔ E e s := Iff.rfl

theorem run_bind (x : ExceptT Fault (StateM S) α) (f : α → ExceptT Fault (StateM S) β) (s : S) :
    (x >>= f).run s =
      match x.run s with
      | (.ok a, t) => (f a).run t
      | (.error e, t) => (.error e, t) := by
  show StateT.bind x (ExceptT.bindCont f) s = _
  unfold StateT.bind
  show ExceptT.bindCont f (x.run s).1 (x.run s).2 = _
  rcases x.run s with ⟨e | a, t⟩ <;> rfl

@[simp] theorem wp_bind {Q : β → S → Prop} :
    wp (x >>= f) Q E s ↔ wp x (fun a => wp (f a) Q E) E s := by
  unfold wp
  rw [run_bind]
  rcases x.run s with ⟨e | a, t⟩ <;> rfl

@[simp] theorem wp_get {Q : S → S → Prop} : wp get Q E s ↔ Q s s := Iff.rfl

@[simp] theorem wp_set {Q : PUnit → S → Prop} : wp (set t) Q E s ↔ Q ⟨⟩ t := Iff.rfl

@[simp] theorem wp_modify {g : S → S} {Q : PUnit → S → Prop} :
    wp (modify g) Q E s ↔ Q ⟨⟩ (g s) := Iff.rfl

/-- A result that is there already. -/
theorem wp_except {r : Except Fault α} : wp (fun s => (r, s) : ExceptT Fault (StateM S) α) Q E s ↔
    (∀ a, r = .ok a → Q a s) ∧ ∀ e, r = .error e → E e s := by
  cases r with
  | ok a => exact ⟨fun h => ⟨fun _ hb => Except.ok.inj hb ▸ h, nofun⟩, fun h => h.1 a rfl⟩
  | error e => exact ⟨fun h => ⟨nofun, fun _ he => Except.error.inj he ▸ h⟩, fun h => h.2 e rfl⟩

theorem wp_ite {c : Prop} [Decidable c] {y : ExceptT Fault (StateM S) α} :
    wp (if c then x else y) Q E s ↔ if c then wp x Q E s else wp y Q E s := by
  split <;> rfl

theorem wp_mono (h : wp x Q E s) (hQ : ∀ a t, Q a t → Q' a t) (hE : ∀ e t, E e t → E' e t) :
    wp x Q' E' s := by
  revert h
  unfold wp
  rcases x.run s with ⟨e | a, t⟩
  · exact hE e t
  · exact hQ a t

theorem wp_imp (h : wp x Q E s) (hQ : ∀ a t, Q a t → Q' a t) : wp x Q' E s := wp_mono h hQ fun _ _ h => h

theorem wp_and (h : wp x Q E s) (h' : wp x Q' E' s) :
    wp x (fun a t => Q a t ∧ Q' a t) (fun e t => E e t ∧ E' e t) s := by
  revert h h'
  unfold wp
  rcases x.run s with ⟨e | a, t⟩
  · exact And.intro
  · exact And.intro

theorem wp_any : wp x (fun _ _ => True) (fun _ _ => True) s := by
  unfold wp
  split <;> trivial

/-- Nothing is said about faults. -/
theorem wp_unfailing (h : wp x Q E s) : wp x Q (fun _ _ => True) s := wp_mono h (fun _ _ h => h) fun _ _ _ => trivial

/-- A property of the final state, however the computation ends. -/
theorem wp_ends {P : S → Prop} : wp x (fun _ => P) (fun _ => P) s ↔ P (x.run s).2 := by
  unfold wp
  rcases x.run s with ⟨e | a, t⟩ <;> rfl

/-- One computation after the other. -/
theorem wp_seq {Q' : β → S → Prop} (h : wp x Q E s) (hf : ∀ a t, Q a t → wp (f a) Q' E t) :
    wp (x >>= f) Q' E s :=
  wp_bind.2 (wp_imp h hf)

/-- The run that a postcondition is about. -/
theorem wp_run (h : wp x Q E s) : wp x (fun a t => x.run s = (.ok a, t) ∧ Q a t) E s := by
  revert h
  unfold wp
  rcases hx : x.run s with ⟨e | a, t⟩
  · exact id
  · exact fun h => ⟨rfl, h⟩

/-- The run itself, however it ends. -/
theorem wp_runs : wp x (fun a t => x.run s = (.ok a, t)) (fun e t => x.run s = (.error e, t)) s := by
  unfold wp
  rcases x.run s with ⟨e | a, t⟩ <;> rfl

/-- One computation after the other, where it matters that the second goes on from the end of the first. -/
theorem wp_seq_run {Q' : β → S → Prop} (h : wp x Q E s)
    (hf : ∀ a t, x.run s = (.ok a, t) → Q a t → wp (f a) Q' E t) : wp (x >>= f) Q' E s :=
  wp_seq (wp_run h) fun a t ht => hf a t ht.1 ht.2

theorem wp_of_run_eq (h : x.run s = (.ok a, t)) : wp x Q E s ↔ Q a t := by
  unfold wp; rw [h]

theorem post_of_run_eq (hx : wp x Q E s) (h : x.run s = (.ok a, t)) : Q a t := (wp_of_run_eq h).1 hx

theorem fault_of_run_eq {e : Fault} (hx : wp x Q E s) (h : x.run s = (.error e, t)) : E e t := by
  unfold wp at hx
  rwa [h] at hx

/-- A computation that cannot fail, with its value and its final state. -/
theorem run_eq_of_wp (h : wp x (fun b u => b = a ∧ u = t) (fun _ _ => False) s) :
    x.run s = (.ok a, t) := by
  unfold wp at h
  rcases hx : x.run s with ⟨e | b, u⟩
  · rw [hx] at h; exact h.elim
  · rw [hx] at h; rw [h.1, h.2]

theorem exists_of_wp (h : wp x Q (fun _ _ => False) s) : ∃ a t, x.run s = (.ok a, t) ∧ Q a t := by
  unfold wp at h
  rcases hx : x.run s with ⟨e | a, t⟩
  · rw [hx] at h; exact h.elim
  · rw [hx] at h; exact ⟨a, t, rfl, h⟩

/-- A computation that ends normally, with whatever state it ends in. -/
theorem run_eq_of_toOption (h : (x.run s).1.toOption = some a) : x.run s = (.ok a, (x.run s).2) := by
  rcases hx : x.run s with ⟨e | b, t⟩
  · rw [hx] at h; cases h
  · rw [hx] at h; rw [Option.some.inj h]

/-! ### Loops

The invariant of a loop speaks of the elements that are done. -/

theorem wp_forM {I : List β → S → Prop} {l : List β} {f : β → ExceptT Fault (StateM S) PUnit}
    (h : ∀ done b rest, l = done ++ b :: rest → ∀ s, I done s → wp (f b) (fun _ => I (done ++ [b])) E s)
    (hs : I [] s) : wp (l.forM f) (fun _ => I l) E s := by
  suffices hl : ∀ rest done s, l = done ++ rest → I done s → wp (rest.forM f) (fun _ => I l) E s from
    hl l [] s rfl hs
  intro rest
  induction rest with
  | nil =>
    intro done s hl hs
    rw [List.append_nil] at hl
    exact hl ▸ hs
  | cons b rest ih =>
    intro done s hl hs
    show wp (f b >>= fun _ => rest.forM f) _ _ _
    exact wp_seq (h done b rest hl s hs) fun _ t ht => ih (done ++ [b]) t (by simp [hl]) ht

/-- Here the invariant speaks of the results as well. -/
theorem wp_mapM {I : List β → List α → S → Prop} {l : List β} {f : β → ExceptT Fault (StateM S) α}
    (h : ∀ done results b rest, l = done ++ b :: rest → ∀ s, I done results s →
      wp (f b) (fun a => I (done ++ [b]) (results ++ [a])) E s)
    (hs : I [] [] s) : wp (l.mapM f) (I l) E s := by
  suffices hl : ∀ rest done results s, l = done ++ rest → I done results s →
      wp (rest.mapM f) (fun more => I l (results ++ more)) E s from hl l [] [] s rfl hs
  intro rest
  induction rest with
  | nil =>
    intro done results s hl hs
    rw [List.append_nil] at hl
    show I l (results ++ []) s
    rwa [List.append_nil, hl]
  | cons b rest ih =>
    intro done results s hl hs
    rw [List.mapM_cons]
    refine wp_seq (h done results b rest hl s hs) fun a t ht => ?_
    refine wp_seq (ih (done ++ [b]) (results ++ [a]) t (by simp [hl]) ht) fun more u hu => ?_
    rwa [List.append_assoc] at hu

/-! ### Properties that are kept -/

/-- However the computation ends, the property is kept. -/
def Keeps (P : S → Prop) (x : ExceptT Fault (StateM S) α) : Prop := ∀ s, P s → P (x.run s).2

namespace Keeps
variable {P : S → Prop}

theorem iff_wp : Keeps P x ↔ ∀ s, P s → wp x (fun _ t => P t) (fun _ t => P t) s :=
  forall_congr' fun _ => imp_congr_right fun _ => wp_ends.symm

/-- What is kept holds at a normal end. -/
theorem wp_kept (hx : Keeps P x) (hs : P s) : wp x (fun _ => P) (fun _ _ => True) s :=
  wp_mono (iff_wp.1 hx s hs) (fun _ _ h => h) fun _ _ _ => trivial

theorem of_run_eq (hx : Keeps P x) (hs : P s) (h : x.run s = (.ok a, t)) : P t := by
  have ht := hx s hs
  rwa [h] at ht

theorem pure (a : α) : Keeps P (Pure.pure a : ExceptT Fault (StateM S) α) := fun _ hs => hs

theorem throw (e : Fault) : Keeps P (throw e : ExceptT Fault (StateM S) α) := fun _ hs => hs

theorem get : Keeps P (get : ExceptT Fault (StateM S) S) := fun _ hs => hs

theorem modify {f : S → S} (h : ∀ s, P s → P (f s)) :
    Keeps P (modify f : ExceptT Fault (StateM S) PUnit) := h

theorem bind (hx : Keeps P x) (hf : ∀ a, Keeps P (f a)) : Keeps P (x >>= f) := by
  refine iff_wp.2 fun s hs => wp_bind.2 (wp_imp (iff_wp.1 hx s hs) fun a t ht => ?_)
  exact iff_wp.1 (hf a) t ht

theorem ite {c : Prop} [Decidable c] {y : ExceptT Fault (StateM S) α} (hx : Keeps P x) (hy : Keeps P y) :
    Keeps P (if c then x else y) := by
  split
  · exact hx
  · exact hy

theorem forM {l : List α} {f : α → ExceptT Fault (StateM S) PUnit} (hf : ∀ a, Keeps P (f a)) : Keeps P (l.forM f) := by
  induction l with
  | nil => exact .pure _
  | cons a l ih => exact (hf a).bind fun _ => ih

theorem mapM {l : List α} {f : α → ExceptT Fault (StateM S) β} (hf : ∀ a, Keeps P (f a)) : Keeps P (l.mapM f) := by
  induction l with
  | nil => exact .pure _
  | cons a l ih =>
    rw [List.mapM_cons]
    exact (hf a).bind fun _ => ih.bind fun _ => .pure _

end Keeps

/-! ### Readings -/

/-- On every state with `I` the computation keeps `I` and gives the value. -/
def Yields (I : S → Prop) (x : ExceptT Fault (StateM S) α) (a : α) : Prop :=
  ∀ s, I s → wp x (fun b t => b = a ∧ I t) (fun _ _ => False) s

namespace Yields
variable {I : S → Prop}

theorem pure (a : α) : Yields I (Pure.pure a) a := fun _ hs => ⟨rfl, hs⟩

theorem bind {b : β} (hx : Yields I x a) (hf : Yields I (f a) b) : Yields I (x >>= f) b := by
  intro s hs
  refine wp_seq (hx s hs) fun c t hpost => ?_
  obtain ⟨hc, ht⟩ := hpost
  rw [hc]; exact hf t ht

theorem ite {c : Prop} [Decidable c] {y : ExceptT Fault (StateM S) α} {b : α} (hx : c → Yields I x a)
    (hy : ¬ c → Yields I y b) : Yields I (if c then x else y) (if c then a else b) := by
  split
  · exact hx ‹_›
  · exact hy ‹_›

theorem mapM {g : β → ExceptT Fault (StateM S) α} {v : β → α} {l : List β}
    (h : ∀ b ∈ l, Yields I (g b) (v b)) : Yields I (l.mapM g) (l.map v) := by
  induction l with
  | nil => exact pure []
  | cons b l ih =>
    rw [List.mapM_cons]
    exact (h b (by simp)).bind ((ih fun c hc => h c (by simp [hc])).bind (pure _))

theorem forM {g : β → ExceptT Fault (StateM S) PUnit} {l : List β}
    (h : ∀ b ∈ l, Yields I (g b) ⟨⟩) : Yields I (l.forM g) ⟨⟩ := by
  induction l with
  | nil => exact pure _
  | cons b l ih =>
    show Yields I (g b >>= fun _ => l.forM g) _
    exact (h b (by simp)).bind (ih fun c hc => h c (by simp [hc]))

/-- A computation that yields a value on one single state leaves that state. -/
theorem run_eq (h : Yields (· = s) x a) : x.run s = (.ok a, s) := run_eq_of_wp (h s rfl)

theorem of_run_eq (h : x.run s = (.ok a, s)) : Yields (· = s) x a := by
  rintro _ rfl
  exact (wp_of_run_eq h).2 ⟨rfl, rfl⟩

end Yields

/-- Run on `s`, the computation ends with the given result in `I`. -/
def Gives (I : S → Prop) (x : ExceptT Fault (StateM S) α) (r : Except Fault α) (s : S) : Prop :=
  wp x (fun a t => r = .ok a ∧ I t) (fun e t => r = .error e ∧ I t) s

namespace Gives
variable {I J : S → Prop} {r : Except Fault α} {q : α → Except Fault β}

theorem iff : Gives I x r s ↔ (x.run s).1 = r ∧ I (x.run s).2 := by
  unfold Gives wp
  rcases x.run s with ⟨e | a, t⟩
  · exact and_congr_left fun _ => eq_comm
  · exact and_congr_left fun _ => eq_comm

theorem mono (h : Gives I x r s) (hI : ∀ t, I t → J t) : Gives J x r s :=
  wp_mono h (fun _ t ht => ⟨ht.1, hI t ht.2⟩) fun _ t ht => ⟨ht.1, hI t ht.2⟩

theorem pure {a : α} (hs : I s) : Gives I (Pure.pure a) (.ok a) s := ⟨rfl, hs⟩

theorem bind (hx : Gives I x r s) (hf : ∀ a t, I t → Gives I (f a) (q a) t) : Gives I (x >>= f) (r >>= q) s := by
  refine wp_bind.2 (wp_mono hx ?_ ?_)
  · rintro a t ⟨rfl, ht⟩
    exact hf a t ht
  · rintro e t ⟨rfl, ht⟩
    exact ⟨rfl, ht⟩

theorem map {k : α → β} (hx : Gives I x r s) : Gives I (do return k (← x)) (r.map k) s := by
  have h := hx.bind (q := fun a => .ok (k a)) fun a t ht => pure ht
  cases r <;> exact h

theorem mapM {l : List β} {k : β → ExceptT Fault (StateM S) α} {v : β → Except Fault α}
    (h : ∀ b ∈ l, ∀ t, I t → Gives I (k b) (v b) t) (hs : I s) : Gives I (l.mapM k) (l.mapM v) s := by
  induction l generalizing s with
  | nil => exact pure hs
  | cons b l ih =>
    rw [List.mapM_cons, List.mapM_cons]
    refine (h b (by simp) s hs).bind fun a t ht => (ih (fun c hc => h c (by simp [hc])) ht).bind fun as u hu => ?_
    exact pure hu

end Gives

end Rules

end GoalSearch
