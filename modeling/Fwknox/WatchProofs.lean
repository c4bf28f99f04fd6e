import Fwknox.SuperviseProofs

/-! # Watching the workers — the roll, deaths, and children that are no workers

    What the parent knows of its workers at each statement (`Roll`), kept by every move.

    * `fail_closed` : after a worker's death the parent opens at most one more rule, also when
      the `SIGCHLD` handler could not be installed.  `Left` counts the rules it may still open,
      and an opening takes one from the count.
    * `last_opening_of_child` : a backend that runs a child process for a rule ends the loop
      with it, because the handler takes that child for a worker. -/

namespace FwknoxSupervise

open FwknoxTypes FwknoxClock FwknoxConfig FwknoxPacket FwknoxMatcher FwknoxPersist FwknoxWorld
open FwknoxReplay FwknoxPipeline FwknoxAuthorization FwknoxNft FwknoxRemoval FwknoxBackend
open FwknoxDaemon Netfilter LruMap EffectProg EffectProg.Prog Schedule

section Step

open Supervisor

variable {σ : Type} {S : Setup σ}

/-! ## The workers' roll -/

/-- A worker that has not been told to stop. -/
def Worker.Serving {α : Type} (v : Worker α) : Prop := v.process ≠ .absent ∧ v.told = false

/-- A worker that runs has been told to stop. -/
def Worker.Dismissed {α : Type} (v : Worker α) : Prop :=
  v.process = .running → v.told = true

/-- What is known of the two workers at each statement of the parent.  After an error they may
    be running still, but both have been told. -/
def Roll (pc : Pc) (result : Except RunError Unit) (strays : Nat) (capture : Worker CapturedPacket)
    (crypto : Worker (Cause × CryptoMsg)) : Prop :=
  match pc with
  | .start | .pairs | .forkCapture =>
      capture.process = .absent ∧ capture.told = false ∧ crypto.process = .absent
        ∧ crypto.told = false
  | .forkCrypto => capture.Serving ∧ crypto.process = .absent ∧ crypto.told = false
  | .handlers | .timeout | .register | .check | .receive | .handle | .reap | .prune
  | .killCapture => capture.Serving ∧ crypto.Serving
  | .waitCapture => capture.process ≠ .absent ∧ capture.Dismissed ∧ crypto.Serving
  | .killCrypto => capture.process = .reaped ∧ crypto.Serving
  | .waitCrypto => capture.process = .reaped ∧ crypto.process ≠ .absent ∧ crypto.Dismissed
  | .flush | .save => capture.process = .reaped ∧ crypto.process = .reaped
  | .dropCrypto =>
      result = .ok () → capture.process = .reaped ∧ crypto.process = .reaped
  | .dropCapture =>
      crypto.Dismissed ∧ (result = .ok () → capture.process = .reaped ∧ crypto.process = .reaped
        ∧ 1 ≤ strays)
  | .done =>
      capture.Dismissed ∧ crypto.Dismissed
        ∧ (result = .ok () → capture.process = .reaped ∧ crypto.process = .reaped ∧ 2 ≤ strays)

/-- The state's workers are where its parent believes them. -/
def OnRoll (s : Supervisor σ) : Prop := Roll s.pc s.result s.strays s.capture s.crypto

section Workers

variable {α : Type} {v v' : Worker α}

/-- A worker that no longer runs does not come back. -/
theorem Worker.Ran.same (h : v.Ran v') (hne : v.process ≠ .running) : v'.process = v.process :=
  h.process.resolve_right fun hr => hne hr.1

/-- Running on, nobody is told to stop. -/
theorem Worker.Ran.serving (h : v.Ran v') (hv : v.Serving) : v'.Serving := by
  refine ⟨?_, h.told.trans hv.2⟩
  rcases h.process with hsame | ⟨_, hz⟩
  · exact hsame ▸ hv.1
  · rw [hz]
    exact Process.noConfusion

/-- A worker that has been told stays told. -/
theorem Worker.Ran.dismissed (h : v.Ran v') (hv : v.Dismissed) : v'.Dismissed := by
  intro hrun
  rcases h.process with hsame | ⟨_, hz⟩
  · exact h.told.trans (hv (hsame ▸ hrun))
  · rw [hz] at hrun
    cases hrun

/-- A worker that was forked stays a process of the parent. -/
theorem Worker.Ran.present (h : v.Ran v') (hv : v.process ≠ .absent) : v'.process ≠ .absent := by
  rcases h.process with hsame | ⟨_, hz⟩
  · exact hsame ▸ hv
  · rw [hz]
    exact Process.noConfusion

/-- The signal itself ends no process: the worker does, when it looks. -/
@[simp] theorem process_signal_terminate (v : Worker α) :
    v.signal_terminate.process = v.process := by
  rw [Worker.signal_terminate]
  split <;> rfl

/-- Once signalled, a worker that runs has been told. -/
theorem dismissed_signal_terminate (v : Worker α) : v.signal_terminate.Dismissed := by
  intro hrun
  rw [process_signal_terminate] at hrun
  rw [Worker.signal_terminate, if_pos hrun]

/-- Waiting tells nobody to stop. -/
@[simp] theorem told_wait (v : Worker α) : v.wait.told = v.told := by
  rw [Worker.wait]
  split <;> rfl

/-- Waiting reaps what has ended and leaves the rest. -/
theorem process_wait (v : Worker α) :
    v.wait.process = if v.process = .zombie then .reaped else v.process := by
  rw [Worker.wait]
  split <;> rfl

/-- A worker that was forked and has ended is reaped by the next wait. -/
theorem reaped_wait (habs : v.process ≠ .absent) (hrun : v.process ≠ .running) :
    v.wait.process = .reaped := by
  rw [process_wait]
  cases hp : v.process with
  | absent => exact absurd hp habs
  | running => exact absurd hp hrun
  | zombie => rfl
  | reaped => rfl

/-- Reaping does not take a worker off the roll. -/
theorem present_wait (habs : v.process ≠ .absent) : v.wait.process ≠ .absent := by
  rw [process_wait]
  split
  · exact Process.noConfusion
  · exact habs

/-- Waiting for a dismissed worker leaves it dismissed. -/
theorem Worker.Dismissed.wait (h : v.Dismissed) : v.wait.Dismissed := by
  intro hrun
  rw [process_wait] at hrun
  split at hrun
  · cases hrun
  · exact (told_wait v).trans (h hrun)

/-- Waiting for a serving worker leaves it serving. -/
theorem Worker.Serving.wait (h : v.Serving) : v.wait.Serving :=
  ⟨present_wait h.1, (told_wait v).trans h.2⟩

/-- A worker that does not run need not be told. -/
theorem dismissed_of_ne (h : v.process ≠ .running) : v.Dismissed := fun hrun => absurd hrun h

end Workers

/-- The workers' own moves keep the roll: the parent's place is the same and no worker comes back.
    -/
theorem Beside.onRoll {s s' : Supervisor σ} (hb : Beside s s') (h : OnRoll s) : OnRoll s' := by
  rw [OnRoll] at h
  rw [OnRoll, hb.pc, hb.result, hb.strays]
  have hcap := hb.capture
  have hcry := hb.crypto
  -- a worker that is absent or reaped stays so; only a running one can end
  have gone : ∀ {p : Process}, p = .absent ∨ p = .reaped → p ≠ .running := by
    rintro p (rfl | rfl) <;> exact Process.noConfusion
  cases hpc : s.pc with
  | start | pairs | forkCapture =>
      rw [hpc] at h
      obtain ⟨h1, h2, h3, h4⟩ := h
      exact ⟨(hcap.same (gone (.inl h1))).trans h1, hcap.told.trans h2,
        (hcry.same (gone (.inl h3))).trans h3, hcry.told.trans h4⟩
  | forkCrypto =>
      rw [hpc] at h
      obtain ⟨h1, h2, h3⟩ := h
      exact ⟨hcap.serving h1, (hcry.same (gone (.inl h2))).trans h2, hcry.told.trans h3⟩
  | handlers | timeout | register | check | receive | handle | reap | prune | killCapture =>
      rw [hpc] at h
      exact ⟨hcap.serving h.1, hcry.serving h.2⟩
  | waitCapture =>
      rw [hpc] at h
      exact ⟨hcap.present h.1, hcap.dismissed h.2.1, hcry.serving h.2.2⟩
  | killCrypto =>
      rw [hpc] at h
      exact ⟨(hcap.same (gone (.inr h.1))).trans h.1, hcry.serving h.2⟩
  | waitCrypto =>
      rw [hpc] at h
      exact ⟨(hcap.same (gone (.inr h.1))).trans h.1, hcry.present h.2.1, hcry.dismissed h.2.2⟩
  | flush | save =>
      rw [hpc] at h
      exact ⟨(hcap.same (gone (.inr h.1))).trans h.1, (hcry.same (gone (.inr h.2))).trans h.2⟩
  | dropCrypto =>
      -- nothing is known of the workers after an error
      rw [hpc] at h
      intro hr
      obtain ⟨h1, h2⟩ := h hr
      exact ⟨(hcap.same (gone (.inr h1))).trans h1, (hcry.same (gone (.inr h2))).trans h2⟩
  | dropCapture =>
      rw [hpc] at h
      refine ⟨hcry.dismissed h.1, ?_⟩
      intro hr
      obtain ⟨h1, h2, h3⟩ := h.2 hr
      exact ⟨(hcap.same (gone (.inr h1))).trans h1, (hcry.same (gone (.inr h2))).trans h2, h3⟩
  | done =>
      rw [hpc] at h
      refine ⟨hcap.dismissed h.1, hcry.dismissed h.2.1, ?_⟩
      intro hr
      obtain ⟨h1, h2, h3⟩ := h.2.2 hr
      exact ⟨(hcap.same (gone (.inr h1))).trans h1, (hcry.same (gone (.inr h2))).trans h2, h3⟩

/-- A new turn begins with both workers serving. -/
theorem onRoll_next_turn {s : Supervisor σ} (h : s.capture.Serving ∧ s.crypto.Serving) :
    OnRoll (s.next_turn S) := by
  simp only [next_turn]
  split <;> exact h

/-- Each statement of the parent keeps the roll.  The cases that do something are the forks, the
    signals and the waits. -/
theorem onRoll_parent_step {s : Supervisor σ} (h : OnRoll s) : OnRoll (s.parent_step S) := by
  rw [OnRoll] at h
  cases hpc : s.pc with
  | start =>
      -- no worker was forked yet, so none runs
      rw [hpc] at h
      obtain ⟨h1, h2, h3, h4⟩ := h
      simp only [parent_step, hpc]
      split
      · refine ⟨dismissed_of_ne ?_, dismissed_of_ne ?_, (fun hr => by cases hr)⟩
        · exact h1 ▸ Process.noConfusion
        · exact h3 ▸ Process.noConfusion
      · exact ⟨h1, h2, h3, h4⟩
  | forkCapture =>
      rw [hpc] at h
      obtain ⟨h1, h2, h3, h4⟩ := h
      simp only [parent_step, hpc]
      exact ⟨⟨Process.noConfusion, h2⟩, h3, h4⟩
  | forkCrypto =>
      rw [hpc] at h
      obtain ⟨h1, h2, h3⟩ := h
      simp only [parent_step, hpc]
      exact ⟨h1, Process.noConfusion, h3⟩
  | check | receive =>
      rw [hpc] at h
      simp only [parent_step, hpc]
      split <;> exact h
  | handle | prune =>
      rw [hpc] at h
      simp only [parent_step, hpc]
      split
      · exact h
      · rw [OnRoll, perform_next_pc, hpc]
        simp only [perform_next]
        split <;> exact h
  | reap =>
      -- `try_reap` waits for the crypto worker only if the capture worker had not ended
      rw [hpc] at h
      simp only [parent_step, hpc]
      refine onRoll_next_turn ⟨h.1.wait, ?_⟩
      simp only [try_reap]
      split
      · exact h.2
      · exact h.2.wait
  | killCapture =>
      rw [hpc] at h
      simp only [parent_step, hpc]
      refine ⟨?_, dismissed_signal_terminate _, h.2⟩
      simp only [kill_capture, process_signal_terminate]
      exact h.1.1
  | waitCapture =>
      -- the wait returns only when the worker has ended, and then it reaps it
      rw [hpc] at h
      simp only [parent_step, hpc]
      split
      · rw [OnRoll, hpc]
        exact h
      · next hrun => exact ⟨reaped_wait h.1 hrun, h.2.2⟩
  | killCrypto =>
      rw [hpc] at h
      simp only [parent_step, hpc]
      refine ⟨h.1, ?_, dismissed_signal_terminate _⟩
      simp only [kill_crypto, process_signal_terminate]
      exact h.2.1
  | waitCrypto =>
      rw [hpc] at h
      simp only [parent_step, hpc]
      split
      · rw [OnRoll, hpc]
        exact h
      · next hrun => exact ⟨h.1, reaped_wait h.2.1 hrun⟩
  | save =>
      rw [hpc] at h
      simp only [parent_step, hpc]
      exact fun _ => h
  | dropCrypto =>
      -- after a clean exit the handle is dropped for a process already reaped: a stray signal
      rw [hpc] at h
      simp only [parent_step, hpc]
      refine ⟨(dismissed_signal_terminate _).wait, ?_⟩
      intro hr
      obtain ⟨h1, h2⟩ := h hr
      have hgone : s.crypto.signal_terminate.wait.process = .reaped := by
        rw [process_wait, process_signal_terminate, h2]
        rfl
      refine ⟨h1, hgone, ?_⟩
      simp only [kill_crypto, Worker.stray, h2, if_true]
      exact Nat.le_add_left 1 _
  | dropCapture =>
      rw [hpc] at h
      simp only [parent_step, hpc]
      refine ⟨(dismissed_signal_terminate _).wait, h.1, ?_⟩
      intro hr
      obtain ⟨h1, h2, h3⟩ := h.2 hr
      have hgone : s.capture.signal_terminate.wait.process = .reaped := by
        rw [process_wait, process_signal_terminate, h1]
        rfl
      refine ⟨hgone, h2, ?_⟩
      simp only [kill_capture, Worker.stray, h1, if_true]
      exact Nat.succ_le_succ h3
  | done =>
      simp only [parent_step, hpc]
      exact h
  | _ =>
      rw [hpc] at h
      simp only [parent_step, hpc]
      exact h

/-- A statement that fails keeps it too: the ways out tell the workers before they leave. -/
theorem onRoll_parent_fault {s : Supervisor σ} (reason : String) (h : OnRoll s) :
    OnRoll (s.parent_fault S reason) := by
  rw [OnRoll] at h
  cases hpc : s.pc with
  | pairs | forkCapture =>
      rw [hpc] at h
      obtain ⟨h1, _, h3, _⟩ := h
      simp only [parent_fault, hpc]
      refine ⟨dismissed_of_ne ?_, dismissed_of_ne ?_, (fun hr => by cases hr)⟩
      · exact h1 ▸ Process.noConfusion
      · exact h3 ▸ Process.noConfusion
  | forkCrypto =>
      rw [hpc] at h
      simp only [parent_fault, hpc]
      refine ⟨dismissed_of_ne ?_, (fun hr => by cases hr)⟩
      exact h.2.1 ▸ Process.noConfusion
  | handlers | timeout =>
      simp only [parent_fault, hpc]
      intro hr
      cases hr
  | register =>
      rw [hpc] at h
      simp only [parent_fault, hpc]
      exact h
  | reap =>
      rw [hpc] at h
      simp only [parent_fault, hpc]
      exact onRoll_next_turn h
  | _ =>
      simp only [parent_fault, hpc]
      exact h

/-- Every move keeps the roll. -/
theorem onRoll_step (l : Move) {s : Supervisor σ} (h : OnRoll s) : OnRoll (step S l s) := by
  by_cases hl : l.Passive
  · exact (beside_step hl s).onRoll h
  · cases l with
    | parent => exact onRoll_parent_step h
    | fault reason => exact onRoll_parent_fault reason h
    | interrupt =>
        simp only [step]
        split
        · next hpc =>
          rw [OnRoll, hpc] at h
          exact h
        · exact h
    | _ => exact absurd trivial hl

/-- The roll holds along every run. -/
theorem onRoll_supervise (moves : List Move) (w : World) (f : σ) :
    OnRoll (supervise S moves w f) :=
  run_invariant (Q := fun _ => True) (P := OnRoll) (fun l _ _ h => onRoll_step l h)
    (fun _ _ => trivial) ⟨rfl, rfl, rfl, rfl⟩

/-! ## Worker deaths -/

/-- A worker has died and has not been waited for. -/
def Supervisor.bereaved (s : Supervisor σ) : Prop :=
  s.capture.process = .zombie ∨ s.crypto.process = .zombie

/-- At most `n` more rules will be opened: the flag is up or about to be, and what the parent
    has begun it finishes. -/
def Left (n : Nat) (s : Supervisor σ) : Prop :=
  match s.pc with
  | .start | .pairs | .forkCapture | .forkCrypto | .handlers | .timeout | .register | .receive =>
      1 ≤ n ∧ (s.flag = true ∨ s.bereaved)
  | .check => s.flag = true ∨ 1 ≤ n ∧ s.bereaved
  | .handle =>
      (s.parent = .ret () ∨ 1 ≤ n ∧ s.parent.EndsWith Opening) ∧ (s.flag = true ∨ s.bereaved)
  | .reap => s.flag = true ∨ s.bereaved
  | .prune => s.parent.Avoids Opening ∧ (s.flag = true ∨ 1 ≤ n ∧ s.bereaved)
  | .killCapture | .waitCapture | .killCrypto | .waitCrypto | .flush | .save | .dropCrypto
  | .dropCapture | .done => True

/-- A zombie stays one until the parent waits. -/
theorem Worker.Ran.zombie {α : Type} {v v' : Worker α} (h : v.Ran v') (hz : v.process = .zombie) :
    v'.process = .zombie :=
  (h.same (hz ▸ Process.noConfusion)).trans hz

/-- The workers' own moves do not take a dead worker away. -/
theorem Beside.bereaved {s s' : Supervisor σ} (hb : Beside s s') (h : s.bereaved) :
    s'.bereaved :=
  h.imp hb.capture.zombie hb.crypto.zombie

/-- They do not add a rule to open either. -/
theorem Beside.left {s s' : Supervisor σ} (hb : Beside s s') {n : Nat} (h : Left n s) :
    Left n s' := by
  have hdoomed : s.flag = true ∨ s.bereaved → s'.flag = true ∨ s'.bereaved :=
    Or.imp hb.flag hb.bereaved
  have hsoon : s.flag = true ∨ 1 ≤ n ∧ s.bereaved → s'.flag = true ∨ 1 ≤ n ∧ s'.bereaved :=
    Or.imp hb.flag (And.imp_right hb.bereaved)
  simp only [Left, hb.pc, hb.parent] at h ⊢
  cases hpc : s.pc with
  | check =>
      rw [hpc] at h
      exact hsoon h
  | handle =>
      rw [hpc] at h
      exact ⟨h.1, hdoomed h.2⟩
  | reap =>
      rw [hpc] at h
      exact hdoomed h
  | prune =>
      rw [hpc] at h
      exact ⟨h.1, hsoon h.2⟩
  | start | pairs | forkCapture | forkCrypto | handlers | timeout | register | receive =>
      rw [hpc] at h
      exact ⟨h.1, hdoomed h.2⟩
  | _ => trivial

/-- After the reap of a turn the flag is up. -/
theorem left_next_turn {s : Supervisor σ} (hflag : s.flag = true) (n : Nat) :
    Left n (s.next_turn S) := by
  simp only [next_turn]
  split
  · exact ⟨(avoids_prune _ _).bind fun _ => trivial, .inl hflag⟩
  · exact .inl hflag

/-- A new turn calls nobody. -/
theorem next_turn_calls (s : Supervisor σ) : (s.next_turn S).world.calls = s.world.calls := by
  simp only [next_turn]
  split <;> rfl

/-- The reaper raises the flag when it finds a dead worker, and never lowers it. -/
theorem try_reap_flag {s : Supervisor σ} (h : s.flag = true ∨ s.bereaved) :
    s.try_reap.flag = true := by
  simp only [try_reap, Bool.or_eq_true, decide_eq_true_eq]
  rcases h with hflag | hz | hz
  · exact .inl (.inl hflag)
  · exact .inl (.inr hz)
  · exact .inr hz

/-- What an effect of the parent does to the budget: an opening takes one, and is the last. -/
theorem perform_next_budget {s : Supervisor σ} {n : Nat} {β : Type} {e : Eff β}
    {k : β → Prog Eff Unit} (hp : s.parent = .op e k) (hends : s.parent.EndsWith Opening)
    (hn : 1 ≤ n) :
    ∃ m, ((s.perform_next S).parent = .ret ()
          ∨ 1 ≤ m ∧ (s.perform_next S).parent.EndsWith Opening)
      ∧ (s.perform_next S).world.calls.length + m ≤ s.world.calls.length + n := by
  obtain ⟨hkeep, hlast⟩ := perform_next_ends (S := S) hp hends
  have hcalls : (s.perform_next S).world.calls
      = s.world.calls ++ e.opens.toList.map fun rule => (s.world.current, rule) := by
    simp only [perform_next, hp, backend_handler_world]
    exact handler_calls S.env s.world e
  rw [hcalls, List.length_append]
  by_cases he : Opening e
  · obtain ⟨rule, hrule⟩ := Option.ne_none_iff_exists'.mp he
    refine ⟨n - 1, .inl (hlast he), ?_⟩
    rw [hrule]
    show s.world.calls.length + 1 + (n - 1) ≤ s.world.calls.length + n
    omega
  · refine ⟨n, .inr ⟨hn, hkeep⟩, ?_⟩
    rw [not_not.mp he]
    exact Nat.le_refl _

/-- An effect of the parent leaves the flag up. -/
theorem perform_next_flag {s : Supervisor σ} (h : s.flag = true) :
    (s.perform_next S).flag = true := by
  simp only [perform_next]
  split
  · exact h
  · simp only [h, Bool.true_or]

/-- An effect of the parent leaves a dead worker unreaped. -/
theorem perform_next_bereaved {s : Supervisor σ} (h : s.bereaved) :
    (s.perform_next S).bereaved := by
  simp only [perform_next]
  split <;> exact h

/-- One statement of the parent: a rule it opens is taken off those left. -/
theorem left_parent_step {s : Supervisor σ} (hroll : OnRoll s) {n : Nat} (h : Left n s) :
    ∃ m, Left m (s.parent_step S)
      ∧ (s.parent_step S).world.calls.length + m ≤ s.world.calls.length + n := by
  rw [OnRoll] at hroll
  cases hpc : s.pc with
  | start =>
      simp only [Left, hpc] at h
      simp only [parent_step, hpc]
      refine ⟨n, ?_⟩
      split
      · exact ⟨trivial, Nat.le_refl _⟩
      · exact ⟨h, Nat.le_refl _⟩
  | pairs | handlers | timeout =>
      simp only [Left, hpc] at h
      simp only [parent_step, hpc]
      exact ⟨n, h, Nat.le_refl _⟩
  | forkCapture =>
      -- before the fork there is no worker to be dead, so the flag is up
      simp only [Left, hpc] at h
      rw [hpc] at hroll
      simp only [parent_step, hpc]
      refine ⟨n, ⟨h.1, .inl (h.2.resolve_right ?_)⟩, Nat.le_refl _⟩
      rintro (hz | hz)
      · exact Process.noConfusion (hroll.1.symm.trans hz)
      · exact Process.noConfusion (hroll.2.2.1.symm.trans hz)
  | forkCrypto =>
      simp only [Left, hpc] at h
      rw [hpc] at hroll
      simp only [parent_step, hpc]
      refine ⟨n, ⟨h.1, h.2.imp_right ?_⟩, Nat.le_refl _⟩
      rintro (hz | hz)
      · exact .inl hz
      · exact Process.noConfusion (hroll.2.1.symm.trans hz)
  | register =>
      simp only [Left, hpc] at h
      simp only [parent_step, hpc]
      exact ⟨n, h.2.imp_right fun hz => ⟨h.1, hz⟩, Nat.le_refl _⟩
  | check =>
      -- without the flag the loop goes on, but the dead worker is still to be found
      simp only [Left, hpc] at h
      simp only [parent_step, hpc]
      refine ⟨n, ?_⟩
      split
      · exact ⟨trivial, Nat.le_refl _⟩
      · next hflag =>
        obtain ⟨hn, hz⟩ := h.resolve_left hflag
        exact ⟨⟨hn, .inr hz⟩, Nat.le_refl _⟩
  | receive =>
      simp only [Left, hpc] at h
      simp only [parent_step, hpc]
      refine ⟨n, ?_⟩
      split
      · exact ⟨h.2, Nat.le_refl _⟩
      · exact ⟨⟨.inr ⟨h.1, endsWith_handle_crypto_msg _ _ _⟩, h.2⟩, Nat.le_refl _⟩
  | handle =>
      -- the one place where a rule is opened, and it ends the message's program
      simp only [Left, hpc] at h
      cases hp : s.parent with
      | ret u =>
          simp only [parent_step, hpc, hp]
          exact ⟨n, h.2, Nat.le_refl _⟩
      | op e k =>
          obtain ⟨hn, hends⟩ := h.1.resolve_left
            (fun hret => by cases hp.symm.trans hret)
          obtain ⟨m, hm, hle⟩ := perform_next_budget (S := S) hp hends hn
          simp only [parent_step, hpc, hp]
          refine ⟨m, ?_, hle⟩
          simp only [Left, perform_next_pc, hpc]
          exact ⟨hm, h.2.imp perform_next_flag perform_next_bereaved⟩
  | reap =>
      -- here the dead worker is found and the flag goes up
      simp only [Left, hpc] at h
      simp only [parent_step, hpc]
      refine ⟨n, left_next_turn (try_reap_flag h) n, ?_⟩
      rw [next_turn_calls]
      exact Nat.le_refl _
  | prune =>
      simp only [Left, hpc] at h
      cases hp : s.parent with
      | ret u =>
          simp only [parent_step, hpc, hp]
          exact ⟨n, h.2, Nat.le_refl _⟩
      | op e k =>
          have havoid : (op e k).Avoids Opening := hp ▸ h.1
          simp only [parent_step, hpc, hp]
          refine ⟨n, ?_, ?_⟩
          · simp only [Left, perform_next_pc, hpc]
            refine ⟨?_, h.2.imp perform_next_flag (And.imp_right perform_next_bereaved)⟩
            simp only [perform_next, hp]
            exact havoid.2 _
          · simp only [perform_next, hp, backend_handler_world]
            rw [handler_calls, not_not.mp havoid.1, Option.toList_none, List.map_nil,
              List.append_nil]
  | save =>
      obtain ⟨w', hw', _, hcalls, _⟩ := save_world S.config.replay.cache_path S.env s.world
      simp only [parent_step, hpc, hw', hcalls]
      exact ⟨n, trivial, Nat.le_refl _⟩
  | waitCapture | waitCrypto =>
      simp only [parent_step, hpc]
      refine ⟨n, ?_⟩
      split
      · simp only [Left, hpc]
        exact ⟨trivial, Nat.le_refl _⟩
      · exact ⟨trivial, Nat.le_refl _⟩
  | done =>
      simp only [parent_step, hpc]
      exact ⟨n, h, Nat.le_refl _⟩
  | _ =>
      simp only [parent_step, hpc]
      exact ⟨n, trivial, Nat.le_refl _⟩

/-- The move is not a reap that fails. -/
def Reaps (l : Move) (s : Supervisor σ) : Prop := s.pc = .reap → ∀ r, l ≠ .fault r

/-- Only a reap that fails can miss a death, and not when the flag is up. -/
theorem left_step (l : Move) {s : Supervisor σ} (hl : s.flag = true ∨ Reaps l s)
    (hroll : OnRoll s) {n : Nat} (h : Left n s) :
    ∃ m, Left m (step S l s)
      ∧ (step S l s).world.calls.length + m ≤ s.world.calls.length + n := by
  by_cases hp : l.Passive
  · have hb := beside_step (S := S) hp s
    refine ⟨n, hb.left h, ?_⟩
    rw [hb.calls]
  · cases l with
    | parent => exact left_parent_step hroll h
    | interrupt =>
        simp only [step]
        refine ⟨n, ?_⟩
        split
        · next hpc =>
          simp only [Left, hpc] at h
          exact ⟨h.2, Nat.le_refl _⟩
        · exact ⟨h, Nat.le_refl _⟩
    | fault reason =>
        refine ⟨n, ?_⟩
        cases hpc : s.pc with
        | reap =>
            -- a `try_reap` that fails finds nobody, so the flag has to be up already
            have hflag := hl.resolve_right fun hreaps => hreaps hpc reason rfl
            simp only [step, parent_fault, hpc]
            refine ⟨left_next_turn hflag n, ?_⟩
            rw [next_turn_calls]
        | register =>
            simp only [Left, hpc] at h
            simp only [step, parent_fault, hpc]
            exact ⟨h.2.imp_right fun hz => ⟨h.1, hz⟩, Nat.le_refl _⟩
        | pairs | forkCapture | forkCrypto | handlers | timeout =>
            simp only [step, parent_fault, hpc]
            exact ⟨trivial, Nat.le_refl _⟩
        | _ =>
            simp only [step, parent_fault, hpc]
            exact ⟨h, Nat.le_refl _⟩
    | _ => exact absurd trivial hp

/-- A flag stays up, and the handler goes in before the loop or not at all. -/
structure Keeps (s s' : Supervisor σ) : Prop where
  flag : s.flag = true → s'.flag = true
  registered : s.pc ≠ .register → s'.registered = s.registered

/-- Every move keeps both. -/
theorem step_keeps (l : Move) (s : Supervisor σ) : Keeps s (step S l s) := by
  by_cases hp : l.Passive
  · have hb := beside_step (S := S) hp s
    exact ⟨hb.flag, fun _ => hb.registered⟩
  · cases l with
    | parent =>
        simp only [step]
        cases hpc : s.pc with
        | register =>
            simp only [parent_step, hpc]
            exact ⟨id, fun hne => absurd hpc hne⟩
        | handle | prune =>
            simp only [parent_step, hpc]
            split
            · exact ⟨id, fun _ => rfl⟩
            · refine ⟨perform_next_flag, fun _ => ?_⟩
              simp only [perform_next]
              split <;> rfl
        | reap =>
            simp only [parent_step, hpc, next_turn]
            split <;> exact ⟨fun h => try_reap_flag (.inl h), fun _ => rfl⟩
        | start | receive | check | waitCapture | waitCrypto =>
            simp only [parent_step, hpc]
            split <;> exact ⟨id, fun _ => rfl⟩
        | _ =>
            simp only [parent_step, hpc]
            exact ⟨id, fun _ => rfl⟩
    | interrupt =>
        simp only [step]
        split <;> exact ⟨id, fun _ => rfl⟩
    | fault reason =>
        simp only [step]
        cases hpc : s.pc with
        | reap =>
            simp only [parent_fault, hpc, next_turn]
            split <;> exact ⟨id, fun _ => rfl⟩
        | _ =>
            simp only [parent_fault, hpc]
            exact ⟨id, fun _ => rfl⟩
    | _ => exact absurd trivial hp

/-- What the parent holds fits the statement it is at, along every run. -/
theorem fits_supervise (moves : List Move) (w : World) (f : σ) :
    Fits (supervise S moves w f).pc (supervise S moves w f).parent :=
  run_invariant (Q := fun _ => True) (P := fun s : Supervisor σ => Fits s.pc s.parent)
    (fun l _ _ h => fits_step l h) (fun _ _ => trivial) (show Fits .start (.ret ()) from rfl)

/-- Once a worker is dead or the flag is up there is at most one rule left to open. -/
theorem left_one {s : Supervisor σ} (hfits : Fits s.pc s.parent)
    (h : s.flag = true ∨ s.bereaved) : Left 1 s := by
  have hsoon : s.flag = true ∨ 1 ≤ 1 ∧ s.bereaved := h.imp_right fun hz => ⟨Nat.le_refl 1, hz⟩
  simp only [Left]
  cases hpc : s.pc with
  | check => exact hsoon
  | handle =>
      rw [hpc] at hfits
      exact ⟨.inr ⟨Nat.le_refl 1, hfits⟩, h⟩
  | reap => exact h
  | prune =>
      rw [hpc] at hfits
      exact ⟨hfits, hsoon⟩
  | start | pairs | forkCapture | forkCrypto | handlers | timeout | register | receive =>
      exact ⟨Nat.le_refl 1, h⟩
  | _ => trivial

/-- **THE PARENT FAILS CLOSED**: once the flag is up, or a worker is dead and no reap fails,
    the rest of the run opens at most one rule, whatever the other worker still sends. -/
theorem fail_closed (S : Setup σ) (moves rest : List Move) (w : World) (f : σ)
    (h : (supervise S moves w f).flag = true
      ∨ (supervise S moves w f).bereaved ∧ Along (step S) Reaps rest (supervise S moves w f)) :
    (supervise S (moves ++ rest) w f).world.calls.length
      ≤ (supervise S moves w f).world.calls.length + 1 := by
  have hleft : Left 1 (supervise S moves w f) :=
    left_one (fits_supervise moves w f) (h.imp_right And.left)
  have hroll : OnRoll (supervise S moves w f) := onRoll_supervise moves w f
  rw [supervise, run_append]
  rcases h with hflag | ⟨_, hreaps⟩
  · -- with the flag up a reap may fail, so the flag is part of what a step keeps
    have hstep : ∀ (l : Move) (s : Supervisor σ) (n : Nat), True →
        (s.flag = true ∧ OnRoll s ∧ Left n s) →
        ∃ m, ((step S l s).flag = true ∧ OnRoll (step S l s) ∧ Left m (step S l s))
          ∧ (step S l s).world.calls.length + m ≤ s.world.calls.length + n := by
      rintro l s n _ ⟨hf, hr, hl⟩
      obtain ⟨m, hm, hle⟩ := left_step l (.inl hf) hr hl
      exact ⟨m, ⟨(step_keeps l s).flag hf, onRoll_step l hr, hm⟩, hle⟩
    obtain ⟨m, _, hle⟩ := run_budget (fun s : Supervisor σ => s.world.calls.length) _ hstep
      (along_of_forall (fun _ _ => trivial) rest _) ⟨hflag, hroll, hleft⟩
    exact Nat.le_trans (Nat.le_add_right _ m) hle
  · have hstep : ∀ (l : Move) (s : Supervisor σ) (n : Nat), Reaps l s →
        (OnRoll s ∧ Left n s) →
        ∃ m, (OnRoll (step S l s) ∧ Left m (step S l s))
          ∧ (step S l s).world.calls.length + m ≤ s.world.calls.length + n := by
      rintro l s n hl ⟨hr, hleft⟩
      obtain ⟨m, hm, hle⟩ := left_step l (.inr hl) hr hleft
      exact ⟨m, ⟨onRoll_step l hr, hm⟩, hle⟩
    obtain ⟨m, _, hle⟩ := run_budget (fun s : Supervisor σ => s.world.calls.length) _ hstep
      hreaps ⟨hroll, hleft⟩
    exact Nat.le_trans (Nat.le_add_right _ m) hle

/-- The crypto worker dies while the parent handles its message. -/
theorem sample_fails_closed :
    (supervise sampleSetup (sampleMoves.take 15 ++ [.cryptoDies]) emptyWorld leftDriver).bereaved
      ∧ (supervise sampleSetup ((sampleMoves.take 15 ++ [.cryptoDies]) ++ List.replicate 20 .parent)
            emptyWorld leftDriver).world.calls.length
        ≤ (supervise sampleSetup (sampleMoves.take 15 ++ [.cryptoDies]) emptyWorld
            leftDriver).world.calls.length + 1 := by
  have hdead : (supervise sampleSetup (sampleMoves.take 15 ++ [.cryptoDies]) emptyWorld
      leftDriver).bereaved := .inr (by decide +kernel)
  have hparents : ∀ n (s : Supervisor NftDriver),
      Along (step sampleSetup) Reaps (List.replicate n .parent) s := by
    intro n
    induction n with
    | zero => exact fun _ => trivial
    | succ n ih => exact fun s => ⟨fun _ _ => Move.noConfusion, ih _⟩
  exact ⟨hdead, fail_closed sampleSetup _ _ emptyWorld leftDriver (.inr ⟨hdead, hparents _ _⟩)⟩

/-! ## Children of the backend -/

/-- **THE ONE WAY TO OPEN A RULE**: an effect of the parent while it handles a message.  Nothing
    of the message is left then, and the flag is up if the backend ran a child and the handler
    is there to see it end. -/
theorem parent_step_calls {s : Supervisor σ} (hfits : Fits s.pc s.parent) :
    (s.parent_step S).world.calls = s.world.calls
      ∨ ∃ c rule, (s.parent_step S).world.calls = s.world.calls ++ [(c, rule)] ∧ s.pc = .handle
        ∧ (s.parent_step S).pc = .handle ∧ (s.parent_step S).parent = .ret ()
        ∧ (s.parent_step S).flag = (s.flag || (s.registered && S.spawns rule)) := by
  cases hpc : s.pc with
  | handle =>
      rw [hpc] at hfits
      cases hprog : s.parent with
      | ret u =>
          refine .inl ?_
          simp only [parent_step, hpc, hprog]
      | op e k =>
          have hcalls : (s.perform_next S).world.calls
              = s.world.calls ++ e.opens.toList.map fun rule => (s.world.current, rule) := by
            simp only [perform_next, hprog, backend_handler_world]
            exact handler_calls S.env s.world e
          have hstep : s.parent_step S = s.perform_next S := by simp only [parent_step, hpc, hprog]
          rw [hstep]
          cases he : e.opens with
          | none =>
              rw [he] at hcalls
              exact .inl (hcalls.trans (List.append_nil _))
          | some rule =>
              -- an opening is the last effect of its message
              rw [he] at hcalls
              have hlast := (perform_next_ends (S := S) hprog hfits).2
                (fun hnone => by cases he.symm.trans hnone)
              refine .inr ⟨s.world.current, rule, hcalls, rfl, (perform_next_pc s).trans hpc,
                hlast, ?_⟩
              simp only [perform_next, hprog, he, Option.any_some]
  | prune =>
      rw [hpc] at hfits
      refine .inl ?_
      cases hprog : s.parent with
      | ret u => simp only [parent_step, hpc, hprog]
      | op e k =>
          have havoid : (op e k).Avoids Opening := hprog ▸ hfits
          simp only [parent_step, hpc, hprog, perform_next, backend_handler_world]
          rw [handler_calls, not_not.mp havoid.1]
          exact List.append_nil _
  | reap =>
      refine .inl ?_
      simp only [parent_step, hpc]
      exact next_turn_calls s.try_reap
  | save =>
      obtain ⟨w', hw', _, hcalls, _⟩ := save_world S.config.replay.cache_path S.env s.world
      refine .inl ?_
      simp only [parent_step, hpc, hw']
      exact hcalls
  | start | check | receive | waitCapture | waitCrypto =>
      refine .inl ?_
      simp only [parent_step, hpc]
      split <;> rfl
  | _ =>
      refine .inl ?_
      simp only [parent_step, hpc, kill_capture, kill_crypto]

/-- A statement that fails opens no rule. -/
theorem parent_fault_calls (reason : String) (s : Supervisor σ) :
    (s.parent_fault S reason).world.calls = s.world.calls := by
  cases hpc : s.pc with
  | reap =>
      simp only [parent_fault, hpc]
      exact next_turn_calls s
  | _ => simp only [parent_fault, hpc]

/-- A move opens at most one rule, and then the parent was handling a message and has finished it.
    -/
theorem step_calls (l : Move) {s : Supervisor σ} (hfits : Fits s.pc s.parent) :
    (step S l s).world.calls = s.world.calls
      ∨ ∃ c rule, (step S l s).world.calls = s.world.calls ++ [(c, rule)] ∧ s.pc = .handle
        ∧ (step S l s).pc = .handle ∧ (step S l s).parent = .ret ()
        ∧ (step S l s).flag = (s.flag || (s.registered && S.spawns rule)) := by
  by_cases hp : l.Passive
  · exact .inl (beside_step hp s).calls
  · cases l with
    | interrupt =>
        refine .inl ?_
        simp only [step]
        split <;> rfl
    | fault reason => exact .inl (parent_fault_calls reason s)
    | parent => exact parent_step_calls hfits
    | _ => exact absurd trivial hp

/-- No child has run for a rule, or one has, for the last rule, and there will be no more. -/
def Childless (S : Setup σ) (s : Supervisor σ) : Prop :=
  s.registered = true →
    (∀ c ∈ s.world.calls, S.spawns c.2 = false)
      ∨ ∃ pre c, s.world.calls = pre ++ [c] ∧ (∀ c' ∈ pre, S.spawns c'.2 = false)
        ∧ s.flag = true ∧ Left 0 s

/-- The first child that runs for a rule raises the flag in the same move, and from there no rule
    is left to open. -/
theorem childless_step {f : σ} (l : Move) {s : Supervisor σ} (hfits : Fits s.pc s.parent)
    (hroll : OnRoll s) (hcourse : OnCourse S f s) (h : Childless S s) :
    Childless S (step S l s) := by
  intro hreg'
  have hcalls := step_calls (S := S) l hfits
  by_cases hpc : s.pc = .register
  · -- nothing is opened before the loop
    rw [OnCourse, hpc] at hcourse
    rcases hcalls with hsame | ⟨_, _, _, hpc', _⟩
    · rw [hsame, hcourse.2.1]
      exact .inl (fun c hc => by cases hc)
    · exact Pc.noConfusion (hpc.symm.trans hpc')
  · rw [(step_keeps l s).registered hpc] at hreg'
    rcases h hreg' with hnone | ⟨pre, c, hlist, hpre, hflag, hleft⟩
    · rcases hcalls with hsame | ⟨c, rule, hnew, _, hpc', hret, hflag⟩
      · rw [hsame]
        exact .inl hnone
      · rw [hnew]
        cases hs : S.spawns rule with
        | false =>
            refine .inl ?_
            intro c' hc'
            rcases List.mem_append.mp hc' with hold | hone
            · exact hnone c' hold
            · rw [List.mem_singleton.mp hone]
              exact hs
        | true =>
            -- its child raises the flag in the same move, and the message is done
            rw [hreg', hs, Bool.and_self, Bool.or_true] at hflag
            refine .inr ⟨s.world.calls, (c, rule), rfl, hnone, hflag, ?_⟩
            simp only [Left, hpc']
            exact ⟨.inl hret, .inl hflag⟩
    · -- the budget is spent, so nothing is added
      obtain ⟨m, hm, hle⟩ := left_step (S := S) l (.inl hflag) hroll hleft
      rcases hcalls with hsame | ⟨c', rule, hnew, _⟩
      · have hm0 : m = 0 := by
          rw [hsame] at hle
          omega
        rw [hsame]
        exact .inr ⟨pre, c, hlist, hpre, (step_keeps l s).flag hflag, hm0 ▸ hm⟩
      · rw [hnew, List.length_append, List.length_singleton] at hle
        omega

/-- **A CHILD OF THE BACKEND ENDS THE SERVICE**: with the `SIGCHLD` handler in place, a rule for
    which the backend ran a child process is the last one of the run, and the flag is up.  The
    parent takes the end of that child for the death of a worker. -/
theorem last_opening_of_child (S : Setup σ) (moves : List Move) {w : World} (hw : w.calls = [])
    (f : σ) (hreg : (supervise S moves w f).registered = true)
    {pre post : List (Cause × AccessRule)} {c : Cause × AccessRule}
    (hcalls : (supervise S moves w f).world.calls = pre ++ c :: post)
    (hc : S.spawns c.2 = true) :
    post = [] ∧ (supervise S moves w f).flag = true := by
  have hinv : (Fits (supervise S moves w f).pc (supervise S moves w f).parent
      ∧ OnRoll (supervise S moves w f) ∧ OnCourse S f (supervise S moves w f))
      ∧ Childless S (supervise S moves w f) := by
    refine run_invariant (Q := fun _ => True)
      (P := fun s : Supervisor σ => (Fits s.pc s.parent ∧ OnRoll s ∧ OnCourse S f s)
        ∧ Childless S s) ?_ (fun _ _ => trivial) ⟨⟨rfl, ⟨rfl, rfl, rfl, rfl⟩, rfl, hw, rfl⟩, ?_⟩
    · rintro l s _ ⟨⟨hfits, hroll, hcourse⟩, h⟩
      exact ⟨⟨fits_step l hfits, onRoll_step l hroll, onCourse_step l hcourse⟩,
        childless_step l hfits hroll hcourse h⟩
    · intro hreg
      cases hreg
  rcases hinv.2 hreg with hnone | ⟨pre', c', hlist, hpre, hflag, _⟩
  · have hmem : c ∈ (supervise S moves w f).world.calls := by
      rw [hcalls]
      exact List.mem_append_right pre List.mem_cons_self
    exact absurd (hnone c hmem) (hc ▸ Bool.noConfusion)
  · refine ⟨?_, hflag⟩
    rw [hlist] at hcalls
    -- were there a later call, this one would be among the earlier ones
    cases post using List.reverseRecOn with
    | nil => rfl
    | append_singleton post d =>
        have hsplit : pre' ++ [c'] = (pre ++ c :: post) ++ [d] := by
          rw [hcalls, List.append_assoc]
          rfl
        have hpre' : pre' = pre ++ c :: post := (List.append_inj' hsplit rfl).1
        have hmem : c ∈ pre' := by
          rw [hpre']
          exact List.mem_append_right pre List.mem_cons_self
        exact absurd (hpre c hmem) (hc ▸ Bool.noConfusion)

/-- With nft the first rule is the last. -/
theorem sample_child_ends_service :
    (supervise sampleSetup sampleMoves emptyWorld leftDriver).world.calls.length = 1
      ∧ (supervise sampleSetup sampleMoves emptyWorld leftDriver).flag = true := by
  have hlen : (supervise sampleSetup sampleMoves emptyWorld leftDriver).world.calls.length = 1 := by
    decide +kernel
  obtain ⟨c, hc⟩ := List.length_eq_one_iff.mp hlen
  have hspawn : ∀ c ∈ (supervise sampleSetup sampleMoves emptyWorld leftDriver).world.calls,
      sampleSetup.spawns c.2 = true := by decide +kernel
  have hlast : (supervise sampleSetup sampleMoves emptyWorld leftDriver).world.calls
      = [] ++ c :: [] := hc
  refine ⟨hlen, (last_opening_of_child sampleSetup sampleMoves rfl leftDriver (by decide +kernel)
    hlast (hspawn c ?_)).2⟩
  rw [hc]
  exact List.mem_singleton_self c

end Step

end FwknoxSupervise
