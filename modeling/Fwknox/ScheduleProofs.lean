import Mathlib.Data.List.Basic

/-! # Schedules — runs of a machine whose steps are chosen from outside

    A machine is a total function `step : L → S → S`; a schedule is a list of choices.
    A choice that is not enabled leaves the state alone, so every list is a schedule and
    "in every order of steps" is a quantifier over lists.

    * `run_invariant` : what every admitted step keeps, every run keeps.
    * `run_budget` : a counter grows by no more than the budget a state still has.
    * `Live` : wherever the admitted steps lead, the goal can still be reached.  A rank that
      some admitted step lowers gives it (`live_of_rank`); a trap without the goal that an
      admitted run can enter refutes it (`not_live_of_trap`). -/

namespace Schedule

universe u v

variable {S : Type u} {L : Type v} (step : L → S → S)

/-- The state after a schedule. -/
def run : List L → S → S
  | [], s => s
  | l :: ls, s => run ls (step l s)

variable {step}

theorem run_append (ls ls' : List L) (s : S) :
    run step (ls ++ ls') s = run step ls' (run step ls s) := by
  induction ls generalizing s with
  | nil => rfl
  | cons l ls ih => exact ih (step l s)

section Admitted

variable {Q : L → Prop}

/-- **INVARIANTS**: what every admitted step keeps, every admitted run keeps. -/
theorem run_invariant {P : S → Prop} (hstep : ∀ l s, Q l → P s → P (step l s)) {ls : List L}
    (hls : ∀ l ∈ ls, Q l) {s : S} (hs : P s) : P (run step ls s) := by
  induction ls generalizing s with
  | nil => exact hs
  | cons l ls ih =>
      have hnext : P (step l s) := hstep l s (hls l List.mem_cons_self) hs
      exact ih (fun l' hl' => hls l' (List.mem_cons_of_mem l hl')) hnext

end Admitted

section Along

variable (step)

/-- Each step of the schedule is admitted in the state it is taken in. -/
def Along (Q : L → S → Prop) : List L → S → Prop
  | [], _ => True
  | l :: ls, s => Q l s ∧ Along Q ls (step l s)

variable {step} {Q : L → S → Prop}

/-- What admits every step admits every schedule. -/
theorem along_of_forall (hQ : ∀ l s, Q l s) (ls : List L) (s : S) : Along step Q ls s := by
  induction ls generalizing s with
  | nil => exact trivial
  | cons l ls ih => exact ⟨hQ l s, ih (step l s)⟩

/-- **BUDGETS**: when each step spends what it adds to the counter, a run adds no more than
    the budget it started with. -/
theorem run_budget (count : S → Nat) (Left : Nat → S → Prop)
    (hstep : ∀ l s n, Q l s → Left n s →
      ∃ m, Left m (step l s) ∧ count (step l s) + m ≤ count s + n)
    {ls : List L} {s : S} (hls : Along step Q ls s) {n : Nat} (hs : Left n s) :
    ∃ m, Left m (run step ls s) ∧ count (run step ls s) + m ≤ count s + n := by
  induction ls generalizing s n with
  | nil => exact ⟨n, hs, Nat.le_refl _⟩
  | cons l ls ih =>
      obtain ⟨hl, hrest⟩ := hls
      obtain ⟨m, hm, hle⟩ := hstep l s n hl hs
      obtain ⟨m', hm', hle'⟩ := ih hrest hm
      exact ⟨m', hm', Nat.le_trans hle' hle⟩

end Along

/-! ## Reaching a goal -/

variable (step)

/-- Some admitted schedule leads to the goal. -/
def CanReach (Q : L → Prop) (goal : S → Prop) (s : S) : Prop :=
  ∃ ls, (∀ l ∈ ls, Q l) ∧ goal (run step ls s)

/-- Wherever the admitted steps lead, the goal can still be reached. -/
def Live (Q : L → Prop) (goal : S → Prop) (s : S) : Prop :=
  ∀ ls, (∀ l ∈ ls, Q l) → CanReach step Q goal (run step ls s)

variable {step} {Q : L → Prop} {goal : S → Prop}

theorem CanReach.head {l : L} {s : S} (hl : Q l) (h : CanReach step Q goal (step l s)) :
    CanReach step Q goal s := by
  obtain ⟨ls, hls, hgoal⟩ := h
  refine ⟨l :: ls, ?_, hgoal⟩
  intro l' hl'
  rcases List.mem_cons.mp hl' with rfl | hmem
  · exact hl
  · exact hls l' hmem

theorem CanReach.trans {mid : S → Prop} {s : S} (h : CanReach step Q mid s)
    (hmid : ∀ t, mid t → CanReach step Q goal t) : CanReach step Q goal s := by
  obtain ⟨ls, hls, hm⟩ := h
  obtain ⟨ls', hls', hgoal⟩ := hmid _ hm
  refine ⟨ls ++ ls', ?_, ?_⟩
  · intro l hl
    exact (List.mem_append.mp hl).elim (hls l) (hls' l)
  · rw [run_append]
    exact hgoal

/-- One admitted step at a time down a rank. -/
theorem canReach_of_rank (Inv : S → Prop) (rank : S → Nat)
    (hdown : ∀ s, Inv s → goal s ∨ ∃ l, Q l ∧ Inv (step l s) ∧ rank (step l s) < rank s) {s : S}
    (hs : Inv s) : CanReach step Q goal s := by
  induction hr : rank s using Nat.strongRecOn generalizing s with
  | ind r ih =>
      rcases hdown s hs with hgoal | ⟨l, hl, hinv, hlt⟩
      · exact ⟨[], (fun l hl => absurd hl List.not_mem_nil), hgoal⟩
      · exact (ih _ (hr ▸ hlt) hinv rfl).head hl

/-- **LIVENESS FROM A RANK**: an invariant of all admitted steps under which some admitted
    step lowers the rank. -/
theorem live_of_rank (Inv : S → Prop) (rank : S → Nat)
    (hkeep : ∀ l s, Q l → Inv s → Inv (step l s))
    (hdown : ∀ s, Inv s → goal s ∨ ∃ l, Q l ∧ rank (step l s) < rank s) {s : S} (hs : Inv s) :
    Live step Q goal s := by
  intro ls hls
  refine canReach_of_rank Inv rank ?_ (run_invariant hkeep hls hs)
  intro t ht
  rcases hdown t ht with hgoal | ⟨l, hl, hlt⟩
  · exact .inl hgoal
  · exact .inr ⟨l, hl, hkeep l t hl ht, hlt⟩

/-- **A TRAP REFUTES LIVENESS**: a trap that can be entered, that no admitted step leaves
    and in which the goal does not hold. -/
theorem not_live_of_trap (Trap : S → Prop) (hkeep : ∀ l s, Q l → Trap s → Trap (step l s))
    (hno : ∀ s, Trap s → ¬goal s) {s : S} (henter : CanReach step Q Trap s) :
    ¬Live step Q goal s := by
  intro hlive
  obtain ⟨ls, hls, htrap⟩ := henter
  obtain ⟨ls', hls', hgoal⟩ := hlive ls hls
  exact hno _ (run_invariant hkeep hls' htrap) hgoal

end Schedule
