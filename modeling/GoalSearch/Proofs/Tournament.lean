import GoalSearch.Proofs.Draws
import GoalSearch.Proofs.Number.Order

/-!
# Who wins a tournament

A tournament compares each candidate that is drawn with the winner so far only. Where no distance is a NaN, who beats
the winner so far beats all than whom that one is no worse (`Tournament.Beats.of_atLeast`). So the winner so far is
always the earliest of the best that were drawn (`Tournament.Champion.step`), and at last it is that among all draws
(`Tournament.exists_decides`).
-/

namespace GoalSearch.Tournament

variable {ω : Type} {source : RandomSource ω} {rank : Nat → Int} {distance : Nat → Float} {drawn : List Nat}
  {winner a b c count : Nat} {w : ω}

/-- The first has a smaller rank, or the same rank and a larger distance. -/
def Beats (rank : Nat → Int) (distance : Nat → Float) (a b : Nat) : Prop :=
  rank a < rank b ∨ rank a = rank b ∧ distance b < distance a

/-- The first has a smaller rank, or the same rank and no smaller distance. -/
def AtLeast (rank : Nat → Int) (distance : Nat → Float) (a b : Nat) : Prop :=
  rank a < rank b ∨ rank a = rank b ∧ distance b ≤ distance a

theorem beats_iff : beats rank distance a b = true ↔ Beats rank distance a b := by
  simp [beats, Beats]

theorem Beats.atLeast (h : Beats rank distance a b) : AtLeast rank distance a b :=
  h.imp_right fun h => ⟨h.1, Binary64.le_of_lt h.2⟩

theorem AtLeast.refl (ha : ¬ Binary64.isNaN (distance a) = true) : AtLeast rank distance a a :=
  .inr ⟨rfl, Binary64.le_of_not_lt ha ha (Binary64.lt_irrefl _)⟩

/-- Among distances that are no NaN, who is not beaten is at least as good. -/
theorem atLeast_of_not_beats (ha : ¬ Binary64.isNaN (distance a) = true) (hb : ¬ Binary64.isNaN (distance b) = true)
    (h : ¬ Beats rank distance b a) : AtLeast rank distance a b := by
  rw [Beats, not_or, not_and] at h
  rcases (Int.not_lt.1 h.1).lt_or_eq with hlt | heq
  · exact .inl hlt
  · exact .inr ⟨heq, Binary64.le_of_not_lt hb ha (h.2 heq.symm)⟩

theorem AtLeast.not_beats (h : AtLeast rank distance a b) : ¬ Beats rank distance b a := by
  rintro (hlt | ⟨heq, hdistance⟩)
  · rcases h with h | h
    · omega
    · omega
  · rcases h with h | ⟨-, h⟩
    · omega
    · exact Binary64.lt_irrefl _ (Binary64.lt_of_le_of_lt h hdistance)

theorem Beats.of_atLeast (h : Beats rank distance c a) (hab : AtLeast rank distance a b) :
    Beats rank distance c b := by
  rcases h with h | ⟨hrank, h⟩
  · rcases hab with hab | ⟨heq, -⟩
    · exact .inl (h.trans hab)
    · exact .inl (heq ▸ h)
  · rcases hab with hab | ⟨heq, hab⟩
    · exact .inl (hrank ▸ hab)
    · exact .inr ⟨hrank.trans heq, Binary64.lt_of_le_of_lt hab h⟩

/-- Among the draws the winner is the earliest of the best. -/
structure Champion (rank : Nat → Int) (distance : Nat → Float) (drawn : List Nat) (winner : Nat) : Prop where
  best : ∀ k ∈ drawn, AtLeast rank distance winner k
  earliest : ∃ before after, drawn = before ++ winner :: after ∧ ∀ k ∈ before, Beats rank distance winner k

namespace Champion

theorem singleton (ha : ¬ Binary64.isNaN (distance a) = true) : Champion rank distance [a] a where
  best k hk := by
    obtain rfl := List.mem_singleton.1 hk
    exact .refl ha
  earliest := ⟨[], [], rfl, by simp⟩

theorem mem (h : Champion rank distance drawn winner) : winner ∈ drawn := by
  obtain ⟨before, after, rfl, -⟩ := h.earliest
  simp

/-- A further draw makes the candidate the winner, or leaves it as it is. -/
theorem step (h : Champion rank distance drawn winner) (hwinner : ¬ Binary64.isNaN (distance winner) = true)
    (hc : ¬ Binary64.isNaN (distance c) = true) :
    Champion rank distance (drawn ++ [c]) (if beats rank distance c winner then c else winner) := by
  split
  · have hbeats : ∀ k ∈ drawn, Beats rank distance c k := fun k hk =>
      (beats_iff.1 ‹_›).of_atLeast (h.best k hk)
    exact {
      best := List.forall_mem_append.2 ⟨fun k hk => (hbeats k hk).atLeast, by simpa using .refl hc⟩
      earliest := ⟨drawn, [], rfl, hbeats⟩ }
  · have hlast : AtLeast rank distance winner c :=
      atLeast_of_not_beats hwinner hc fun hbeats => ‹¬ _› (beats_iff.2 hbeats)
    obtain ⟨before, after, rfl, hbefore⟩ := h.earliest
    exact {
      best := List.forall_mem_append.2 ⟨h.best, by simpa using hlast⟩
      earliest := ⟨before, after ++ [c], by simp, hbefore⟩ }

end Champion

theorem run_candidate (hcount : 0 < count) : (source.int 0 count).run w =
    (.ok ((source.nextBelow count w).1 : Int), (source.nextBelow count w).2) := by
  rw [source.run_int (Int.natCast_pos.2 hcount), Int.sub_zero, Int.toNat_natCast, Int.zero_add]

/-- Each further round draws once. -/
theorem exists_rounds (source : RandomSource ω) (w : ω) (hcount : 0 < count)
    (hnan : ∀ k < count, ¬ Binary64.isNaN (distance k) = true)
    (h : Champion rank distance drawn winner) (hdrawn : ∀ k ∈ drawn, k < count) (n : Nat) :
    ∃ more last v, Draws (source.nextBelow count) w more v ∧ more.length = n ∧
      (rounds source (beats rank distance) count n winner).run w = (.ok last, v) ∧
      Champion rank distance (drawn ++ more) last := by
  induction n generalizing w drawn winner with
  | zero => exact ⟨[], winner, w, .nil, rfl, rfl, by simpa using h⟩
  | succ n ih =>
    have hc : (source.nextBelow count w).1 < count := source.nextBelow_lt w hcount
    obtain ⟨more, last, v, hmore, hlength, hrun, hchampion⟩ := ih (source.nextBelow count w).2
      (h.step (hnan _ (hdrawn _ h.mem)) (hnan _ hc))
      (List.forall_mem_append.2 ⟨hdrawn, by simpa using hc⟩)
    refine ⟨_, last, v, .cons hmore, congrArg (· + 1) hlength, ?_, by simpa using hchampion⟩
    unfold rounds
    rw [run_bind, run_candidate hcount]
    exact hrun

/-- From `w` to `v` so many candidates are drawn, and nothing else happens. The winner is the earliest of the best that
were drawn, so nobody who was drawn beats it. -/
structure Decides (source : RandomSource ω) (rank : Nat → Int) (distance : Nat → Float) (count size : Nat) (w : ω)
    (drawn : List Nat) (winner : Nat) (v : ω) : Prop extends Champion rank distance drawn winner where
  draws : Draws (source.nextBelow count) w drawn v
  length_eq : drawn.length = size
  lt_count : ∀ k ∈ drawn, k < count
  unbeaten : ∀ k ∈ drawn, beats rank distance k winner = false

/-- A tournament of some size among some candidates whose distances are no NaN is decided by as many draws as it is
large. -/
theorem exists_decides (source : RandomSource ω) (rank : Nat → Int) (w : ω) {size : Nat} (hcount : 0 < count)
    (hsize : 0 < size) (hnan : ∀ k < count, ¬ Binary64.isNaN (distance k) = true) :
    ∃ drawn winner v, (index source rank distance count size).run w = (.ok winner, v) ∧
      Decides source rank distance count size w drawn winner v := by
  have hbelow : ∀ w, (source.nextBelow count w).1 < count := fun w => source.nextBelow_lt w hcount
  have hfirst : Champion rank distance [(source.nextBelow count w).1] (source.nextBelow count w).1 :=
    .singleton (hnan _ (hbelow w))
  obtain ⟨more, winner, v, hmore, hlength, hrun, hchampion⟩ := exists_rounds source (source.nextBelow count w).2 hcount
    hnan hfirst (by simpa using hbelow w) (size - 1)
  refine ⟨_, winner, v, ?_, hchampion, .cons hmore, ?_, (Draws.cons hmore).forall_mem hbelow, fun k hk => ?_⟩
  · unfold index
    rw [run_bind, run_candidate hcount]
    exact hrun
  · rw [List.singleton_append, List.length_cons, hlength, Nat.sub_add_cancel hsize]
  · exact Bool.eq_false_iff.2 fun hbeats => (hchampion.best k hk).not_beats (beats_iff.1 hbeats)

end GoalSearch.Tournament
