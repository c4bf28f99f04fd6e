import Fwknox.DaemonProofs
import Fwknox.IpcProofs
import Fwknox.ScheduleProofs

/-! # The parent of the separated mode — starting, watching and stopping its workers

    `run` of `privsep_run.rs` with `run_parent_loop`, and the two worker loops as far as they
    wait for each other.  The parent is a program counter over the statements of the source;
    the workers stand at the head of their loop, in a receive, or in a send, and a send waits
    while the buffer of its socket is used up.  A schedule says who moves next, when packets
    arrive, when a worker dies, when a signal comes and which system call fails.

    What is taken from the system: a signal does not end a blocked `send` (`signal-hook`
    restarts it, and the sockets have no write timeout), a dead child stays a zombie until
    it is waited for, and its death raises `SIGCHLD`.

    * `step_simulated` : every move is a step of `run_privsep`, or changes nothing there.  So
      no order of deaths, signals and failures opens a rule that was not earned
      (`supervised_accounted`).
    * `onCourse_step` : the firewall is at each statement what the start, the calls and the
      exit make of it. -/

namespace FwknoxSupervise

open FwknoxTypes FwknoxClock FwknoxConfig FwknoxPacket FwknoxMatcher FwknoxPersist FwknoxWorld
open FwknoxReplay FwknoxPipeline FwknoxAuthorization FwknoxNft FwknoxRemoval FwknoxBackend
open FwknoxDaemon Netfilter LruMap EffectProg EffectProg.Prog Schedule
open FwknoxIpc (Codec Socket)

/-! ## The processes -/

/-- A worker process as its parent can know it. -/
inductive Process where
  | absent
  | running
  | zombie
  | reaped
  deriving DecidableEq

/-- The process is over, and its end of the sockets closed. -/
def Process.exited : Process → Bool
  | .absent | .running => false
  | .zombie | .reaped => true

/-- Where a worker stands in its loop. -/
inductive Place (α : Type) where
  /-- Before the shutdown check. -/
  | head
  | receiving
  /-- In `send_msg`, with the message in its hands. -/
  | sending (m : α)

/-- A worker; `told` is its own shutdown flag, which `SIGTERM` sets. -/
structure Worker (α : Type) where
  process : Process := .absent
  told : Bool := false
  place : Place α := .head

/-- The messages a worker holds. -/
def Place.held {α : Type} : Place α → List α
  | .head | .receiving => []
  | .sending m => [m]

namespace Worker

variable {α : Type} (w : Worker α)

/-- `signal_terminate`: only a process that runs sees it. -/
def signal_terminate : Worker α := if w.process = .running then { w with told := true } else w

/-- Whether that signal goes to a process that had been waited for. -/
def stray : Nat := if w.process = .reaped then 1 else 0

/-- `waitpid` on a process that is not running: a zombie is gone afterwards. -/
def wait : Worker α := if w.process = .zombie then { w with process := .reaped } else w

end Worker

/-- Where the parent stands. -/
inductive Pc where
  | start | pairs | forkCapture | forkCrypto | handlers | timeout | register
  | check | receive | handle | reap | prune
  | killCapture | waitCapture | killCrypto | waitCrypto | flush | save
  | dropCrypto | dropCapture | done
  deriving DecidableEq

/-- What `run` fails with: a `DaemonError` of its firewall, privsep and I/O variants. -/
inductive RunError where
  | firewall (e : FirewallError)
  | syscall (syscall reason : String)
  | privsepIo (reason : String)
  | ioError (reason : String)
  deriving DecidableEq

/-- The three processes and the parent's variables.  `strays` counts the signals sent to a
    process that had been waited for, whose number the system may have given away. -/
structure Supervisor (σ : Type) : Type 1 where
  captured : List CapturedPacket
  capture : Worker CapturedPacket
  capture_chan : List (Nat × CapturedPacket)
  crypto : Worker (Cause × CryptoMsg)
  crypto_chan : List (Cause × CryptoMsg)
  pc : Pc
  result : Except RunError Unit
  /-- `SIGTERM` and `SIGINT` reach the flag. -/
  handlers : Bool
  /-- `SIGCHLD` reaches the flag. -/
  registered : Bool
  flag : Bool
  tick : UInt64
  parent : Prog Eff Unit
  world : World
  firewall : σ
  strays : Nat

/-- What a separated run is given: the sockets between the processes, the encoding of the
    replies, and for which rules the backend runs a child process. -/
structure Setup (σ : Type) extends Host σ where
  /-- From the capture worker to the crypto worker. -/
  to_crypto : Socket CapturedPacket
  /-- From the crypto worker to the parent. -/
  to_parent : Socket CryptoMsg
  codec : Codec CryptoMsg
  spawns : AccessRule → Bool

/-- A datagram with nothing in it. -/
def emptyPacket : CapturedPacket := ⟨.v4 (Vector.replicate 4 0), []⟩

/-- What may happen next. -/
inductive Move where
  /-- The capture worker takes a packet that its limiter admits. -/
  | packet (p : CapturedPacket)
  /-- The capture worker's next step. -/
  | capture
  /-- The crypto worker's next step. -/
  | crypto
  /-- The capture worker dies or returns an error. -/
  | captureDies
  | cryptoDies
  /-- The parent's next step. -/
  | parent
  /-- The parent's receive fails. -/
  | interrupt
  /-- The system call the parent is at fails. -/
  | fault (reason : String)
  /-- `SIGTERM` or `SIGINT` to the parent. -/
  | signal

section Step

variable {σ : Type} (S : Setup σ)

namespace Supervisor

/-! ### The workers -/

/-- A worker that ends raises `SIGCHLD`. -/
def capture_exits (s : Supervisor σ) : Supervisor σ :=
  { s with capture := { s.capture with process := .zombie }, flag := s.flag || s.registered }

/-- The crypto worker ends.  `SIGCHLD` raises the flag once its handler is in place. -/
def crypto_exits (s : Supervisor σ) : Supervisor σ :=
  { s with crypto := { s.crypto with process := .zombie }, flag := s.flag || s.registered }

/-- `run_capture_worker`, but for the packet itself.  A packet of at most 1500 bytes is never
    refused for its size. -/
def capture_step (s : Supervisor σ) : Supervisor σ :=
  match s.capture.place with
  | .head =>
      if s.capture.told then capture_exits s
      else { s with capture := { s.capture with place := .receiving } }
  -- the read timed out, or the limiter dropped the packet
  | .receiving => { s with capture := { s.capture with place := .head } }
  | .sending p =>
      if s.crypto.process.exited then capture_exits s
      else if S.to_crypto.Takes (s.capture_chan.map Prod.snd) then
        { s with
          captured := s.captured ++ [p]
          capture_chan := s.capture_chan ++ [(s.captured.length, p)]
          capture := { s.capture with place := .head } }
      else s

/-- `run_crypto_worker`; the parent keeps the other end of its socket open.  A reply that
    `send_msg` refuses for its size ends the worker. -/
def crypto_step (s : Supervisor σ) : Supervisor σ :=
  match s.crypto.place with
  | .head =>
      if s.crypto.told then crypto_exits s
      else { s with crypto := { s.crypto with place := .receiving } }
  | .receiving =>
      match s.capture_chan with
      | [] => { s with crypto := { s.crypto with place := .head } }
      | (i, p) :: rest =>
          let r :=
            (validate_capture_msg S.ext S.config.toDaemonConfig p).exec (handler S.env) s.world
          { s with
            capture_chan := rest
            crypto := { s.crypto with place := .sending (⟨i, p, s.world.tick⟩, r.1) }
            world := r.2 }
  | .sending q =>
      if FwknoxIpc.Fits S.codec q.2 then
        if S.to_parent.Takes (s.crypto_chan.map Prod.snd) then
          { s with
            crypto_chan := s.crypto_chan ++ [q]
            crypto := { s.crypto with place := .head } }
        else s
      else crypto_exits s

/-! ### The parent -/

/-- `SIGTERM` to the capture worker, counted when it goes astray. -/
def kill_capture (s : Supervisor σ) : Supervisor σ :=
  { s with capture := s.capture.signal_terminate, strays := s.strays + s.capture.stray }

/-- The same for the crypto worker. -/
def kill_crypto (s : Supervisor σ) : Supervisor σ :=
  { s with crypto := s.crypto.signal_terminate, strays := s.strays + s.crypto.stray }

/-- `try_reap_any_child`, in the order the workers were forked, and `trigger`. -/
def try_reap (s : Supervisor σ) : Supervisor σ :=
  { s with
    capture := s.capture.wait
    crypto := if s.capture.process = .zombie then s.crypto else s.crypto.wait
    flag := s.flag || s.capture.process = .zombie || s.crypto.process = .zombie }

/-- The next effect of the program in the parent's hands.  When the backend runs a child
    for it, that child's end raises `SIGCHLD` too. -/
def perform_next (s : Supervisor σ) : Supervisor σ :=
  match s.parent with
  | .ret _ => s
  | .op e k =>
      let r := backend_handler S.backend S.env _ e (s.world, s.firewall)
      { s with
        parent := k r.1
        world := r.2.1
        firewall := r.2.2
        flag := s.flag || (s.registered && e.opens.any S.spawns) }

/-- The end of a turn: prune when it is due. -/
def next_turn (s : Supervisor σ) : Supervisor σ :=
  let tick := s.tick + 1
  if tick % PRUNE_EVERY_TICKS = 0 then
    { s with
      tick
      parent := (prune_older_than S.persist_path S.config.replay.max_age).bind fun _ => .ret ()
      pc := .prune }
  else { s with tick, pc := .check }

/-- The parent's next step, when the system calls succeed. -/
def parent_step (s : Supervisor σ) : Supervisor σ :=
  match s.pc with
  | .start =>
      match FwknoxDaemon.start S.toHost s.firewall with
      | (.error e, f) => { s with firewall := f, result := .error (.firewall e), pc := .done }
      | (.ok _, f) => { s with firewall := f, pc := .pairs }
  | .pairs => { s with pc := .forkCapture }
  | .forkCapture => { s with capture := { s.capture with process := .running }, pc := .forkCrypto }
  | .forkCrypto => { s with crypto := { s.crypto with process := .running }, pc := .handlers }
  | .handlers => { s with handlers := true, pc := .timeout }
  | .timeout => { s with pc := .register }
  | .register => { s with registered := true, pc := .check }
  | .check => if s.flag then { s with pc := .killCapture } else { s with pc := .receive }
  | .receive =>
      match s.crypto_chan with
      | [] => { s with pc := .reap }
      | (c, msg) :: rest =>
          { s with
            crypto_chan := rest
            parent := handle_crypto_msg S.config.toDaemonConfig S.persist_path msg
            world := { s.world with current := c }
            pc := .handle }
  | .handle =>
      match s.parent with
      | .ret _ => { s with pc := .reap }
      | .op _ _ => perform_next S s
  | .reap => next_turn S (try_reap s)
  | .prune =>
      match s.parent with
      | .ret _ => { s with pc := .check }
      | .op _ _ => perform_next S s
  | .killCapture => { kill_capture s with pc := .waitCapture }
  | .waitCapture =>
      if s.capture.process = .running then s
      else { s with capture := s.capture.wait, pc := .killCrypto }
  | .killCrypto => { kill_crypto s with pc := .waitCrypto }
  | .waitCrypto =>
      if s.crypto.process = .running then s else { s with crypto := s.crypto.wait, pc := .flush }
  | .flush => { s with firewall := closed S.toHost s.firewall, pc := .save }
  | .save =>
      { s with
        world := ((save_to_file S.config.replay.cache_path).exec (handler S.env) s.world).2
        pc := .dropCrypto }
  -- the handles go out of scope, the crypto worker's first
  | .dropCrypto =>
      let s := kill_crypto s
      { s with crypto := s.crypto.wait, pc := .dropCapture }
  | .dropCapture =>
      let s := kill_capture s
      { s with capture := s.capture.wait, pc := .done }
  | .done => s

/-- The system call at hand fails.  After the forks the handles are dropped on the way
    out; a failed registration or reap is only a warning. -/
def parent_fault (reason : String) (s : Supervisor σ) : Supervisor σ :=
  match s.pc with
  | .pairs => { s with result := .error (.privsepIo reason), pc := .done }
  | .forkCapture => { s with result := .error (.syscall "fork" reason), pc := .done }
  | .forkCrypto => { s with result := .error (.syscall "fork" reason), pc := .dropCapture }
  | .handlers => { s with result := .error (.ioError reason), pc := .dropCrypto }
  | .timeout => { s with result := .error (.privsepIo reason), pc := .dropCrypto }
  | .register => { s with pc := .check }
  | .reap => next_turn S s
  | _ => s

end Supervisor

open Supervisor

/-- One move; a move that is not enabled changes nothing. -/
def step : Move → Supervisor σ → Supervisor σ
  | .packet p, s =>
      match s.capture.process, s.capture.place with
      | .running, .receiving => { s with capture := { s.capture with place := .sending p } }
      | _, _ => s
  | .capture, s => if s.capture.process = .running then s.capture_step S else s
  | .crypto, s => if s.crypto.process = .running then s.crypto_step S else s
  | .captureDies, s => if s.capture.process = .running then s.capture_exits else s
  | .cryptoDies, s => if s.crypto.process = .running then s.crypto_exits else s
  | .parent, s => s.parent_step S
  | .interrupt, s => if s.pc = .receive then { s with pc := .reap } else s
  | .fault reason, s => s.parent_fault S reason
  -- before the handlers are there a signal ends the process, which is no run
  | .signal, s => if s.handlers then { s with flag := true } else s

/-- Before the first statement of `run`. -/
def Supervisor.boot (w : World) (f : σ) : Supervisor σ where
  captured := []
  capture := {}
  capture_chan := []
  crypto := {}
  crypto_chan := []
  pc := .start
  result := .ok ()
  handlers := false
  registered := false
  flag := false
  tick := 0
  parent := .ret ()
  world := w
  firewall := f
  strays := 0

/-- `privsep_run::run` under a schedule. -/
def supervise (moves : List Move) (w : World) (f : σ) : Supervisor σ :=
  Schedule.run (step S) moves (.boot w f)

/-! ## The moves as steps of the separated mode -/

/-- A signal does not move a worker in its loop. -/
@[simp] theorem place_signal_terminate {α : Type} (w : Worker α) :
    w.signal_terminate.place = w.place := by
  rw [Worker.signal_terminate]
  split <;> rfl

/-- Nor does waiting for it. -/
@[simp] theorem place_wait {α : Type} (w : Worker α) : w.wait.place = w.place := by
  rw [Worker.wait]
  split <;> rfl

/-- The separated mode as `run_privsep` has it: a message in the crypto worker's hands is the
    last of its channel. -/
def Supervisor.view (s : Supervisor σ) : Privsep :=
  ⟨s.captured, s.capture_chan, s.crypto_chan ++ s.crypto.place.held, s.parent, s.world⟩

/-- What the parent may have in its hands: a message's program while it handles one, a prune's
    while it prunes. -/
def Fits : Pc → Prog Eff Unit → Prop
  | .handle, prog => prog.EndsWith Opening
  | .prune, prog => prog.Avoids Opening
  | _, prog => prog = .ret ()

/-- The move is a step of `run_privsep`, or none; the save at the end changes the file. -/
def Simulated (s s' : Supervisor σ) : Prop :=
  s'.view = s.view
    ∨ (∃ l : PrivsepStep, s'.view
        = l.run S.ext S.config.toDaemonConfig S.persist_path S.env s.view)
    ∨ ∃ w, s'.view = { s.view with world := w } ∧ w.calls = s.world.calls
        ∧ w.current = s.world.current

variable {S}

/-- The backend's answer comes too late to matter. -/
theorem perform_next_simulated {s : Supervisor σ} {β : Type} {e : Eff β} {k : β → Prog Eff Unit}
    (hp : s.parent = .op e k) (hends : s.parent.EndsWith Opening) :
    (s.perform_next S).view
      = PrivsepStep.run S.ext S.config.toDaemonConfig S.persist_path S.env .parent s.view := by
  rw [hp] at hends
  simp only [perform_next, hp, view, PrivsepStep.run, backend_handler_world]
  congr 1
  by_cases he : Opening e
  · obtain ⟨a, ha⟩ := hends.1 he (backend_handler S.backend S.env β e (s.world, s.firewall)).1
    obtain ⟨b, hb⟩ := hends.1 he (handler S.env β e s.world).1
    rw [ha, hb]
  · rw [backend_handler_of_not_opening S.backend he]

/-- The capture worker's loop is a capture of the separated mode, or nothing it sees. -/
theorem capture_step_simulated (s : Supervisor σ) : Simulated S s (s.capture_step S) := by
  simp only [capture_step]
  cases s.capture.place with
  | head => dsimp only; split <;> exact .inl rfl
  | receiving => exact .inl rfl
  | sending p =>
      dsimp only
      split
      · exact .inl rfl
      · split
        · exact .inr (.inl ⟨.capture p, rfl⟩)
        · exact .inl rfl

/-- The crypto worker's loop is a validation of the separated mode, or nothing it sees. -/
theorem crypto_step_simulated (s : Supervisor σ) : Simulated S s (s.crypto_step S) := by
  simp only [crypto_step]
  cases hplace : s.crypto.place with
  | head =>
      dsimp only
      split
      · exact .inl rfl
      · refine .inl ?_
        simp only [view, hplace, Place.held]
  | receiving =>
      cases hchan : s.capture_chan with
      | nil =>
          refine .inl ?_
          simp only [view, hplace, hchan, Place.held]
      | cons q rest =>
          refine .inr (.inl ⟨.crypto, ?_⟩)
          simp only [view, hplace, hchan, Place.held, PrivsepStep.run, List.append_nil]
  | sending q =>
      dsimp only
      split
      · split
        · refine .inl ?_
          simp only [view, hplace, Place.held, List.append_nil]
        · exact .inl rfl
      · exact .inl rfl

/-- The end of a turn starts a prune, or is not seen there. -/
theorem next_turn_simulated {s : Supervisor σ} (hret : s.parent = .ret ()) :
    Simulated S s (s.next_turn S) := by
  simp only [next_turn]
  split
  · refine .inr (.inl ⟨.prune, ?_⟩)
    simp only [view, hret, PrivsepStep.run]
  · exact .inl rfl

/-- Reaping is not seen by the separated mode. -/
theorem try_reap_view (s : Supervisor σ) : s.try_reap.view = s.view := by
  have hplace : s.try_reap.crypto.place = s.crypto.place := by
    simp only [try_reap]
    split
    · rfl
    · exact place_wait _
  simp only [view, hplace]
  rfl

/-- Each statement of the parent is a step of the separated mode, the save at the end apart. -/
theorem parent_step_simulated {s : Supervisor σ} (hfits : Fits s.pc s.parent) :
    Simulated S s (s.parent_step S) := by
  cases hpc : s.pc with
  | start | check | waitCapture =>
      simp only [parent_step, hpc]
      split <;> exact .inl rfl
  | receive =>
      -- the parent takes a message: `recv` of the separated mode
      rw [hpc] at hfits
      have hret : s.parent = .ret () := hfits
      cases hchan : s.crypto_chan with
      | nil =>
          simp only [parent_step, hpc, hchan]
          exact .inl (by simp only [view, hchan])
      | cons q rest =>
          refine .inr (.inl ⟨.recv, ?_⟩)
          simp only [parent_step, hpc, view, hchan, hret, PrivsepStep.run, List.cons_append]
  | handle =>
      rw [hpc] at hfits
      cases hp : s.parent with
      | ret u =>
          simp only [parent_step, hpc, hp]
          exact .inl (by simp only [view, hp])
      | op e k =>
          simp only [parent_step, hpc, hp]
          exact .inr (.inl ⟨.parent, perform_next_simulated hp hfits⟩)
  | reap =>
      -- reaping is not seen there, the new turn may start a prune
      rw [hpc] at hfits
      simp only [parent_step, hpc]
      have hturn : Simulated S s.try_reap (s.try_reap.next_turn S) := next_turn_simulated hfits
      rw [Simulated, try_reap_view] at hturn
      exact hturn
  | prune =>
      rw [hpc] at hfits
      cases hp : s.parent with
      | ret u =>
          simp only [parent_step, hpc, hp]
          exact .inl (by simp only [view, hp])
      | op e k =>
          simp only [parent_step, hpc, hp]
          exact .inr (.inl ⟨.parent, perform_next_simulated hp hfits.endsWith⟩)
  | waitCrypto =>
      simp only [parent_step, hpc]
      split
      · exact .inl rfl
      · exact .inl (by simp only [view, place_wait])
  | save =>
      -- the separated mode has no exit, so this is the third case of `Simulated`
      simp only [parent_step, hpc]
      obtain ⟨w', hw', _, hcalls, hcur, _⟩ :=
        save_world S.config.replay.cache_path S.env s.world
      exact .inr (.inr ⟨w', by rw [hw']; rfl, hcalls, hcur⟩)
  | killCrypto =>
      simp only [parent_step, hpc]
      exact .inl (by simp only [view, kill_crypto, place_signal_terminate])
  | dropCrypto =>
      simp only [parent_step, hpc]
      exact .inl (by simp only [view, kill_crypto, place_wait, place_signal_terminate])
  | _ =>
      simp only [parent_step, hpc]
      exact .inl rfl

/-- A statement that fails ends the run or the turn. -/
theorem parent_fault_simulated {s : Supervisor σ} (reason : String) (hfits : Fits s.pc s.parent) :
    Simulated S s (s.parent_fault S reason) := by
  cases hpc : s.pc with
  | reap =>
      rw [hpc] at hfits
      simp only [parent_fault, hpc]
      exact next_turn_simulated hfits
  | _ =>
      simp only [parent_fault, hpc]
      exact .inl rfl

/-- **EVERY MOVE IS A STEP OF THE SEPARATED MODE**, or changes nothing there. -/
theorem step_simulated (l : Move) {s : Supervisor σ} (hfits : Fits s.pc s.parent) :
    Simulated S s (step S l s) := by
  cases l with
  | packet p =>
      simp only [step]
      split <;> exact .inl rfl
  | capture =>
      simp only [step]
      split
      · exact capture_step_simulated s
      · exact .inl rfl
  | crypto =>
      simp only [step]
      split
      · exact crypto_step_simulated s
      · exact .inl rfl
  | captureDies =>
      simp only [step]
      split <;> exact .inl rfl
  | cryptoDies =>
      simp only [step]
      split <;> exact .inl rfl
  | parent => exact parent_step_simulated hfits
  | interrupt =>
      simp only [step]
      split <;> exact .inl rfl
  | fault reason => exact parent_fault_simulated reason hfits
  | signal =>
      simp only [step]
      split <;> exact .inl rfl

/-! ## What the others cannot change -/

/-- The crypto worker's validation moves the clock on, if anything. -/
theorem validate_world (X : Ext) (config : DaemonConfig) (env : Env) (p : CapturedPacket)
    (w : World) :
    ((validate_capture_msg X config p).exec (handler env) w).2 = w
      ∨ ((validate_capture_msg X config p).exec (handler env) w).2 = w.next := by
  by_cases hg : ∃ name stanza payload source_ip ports,
      Grant X config p (env.clock w.tick) name stanza payload source_ip ports
  · obtain ⟨n, st, pl, sip, pts, hg⟩ := hg
    exact .inr (congrArg Prod.snd (validate_capture_msg_of_grant hg))
  · obtain ⟨msg, w', hval, _, hw⟩ := validate_capture_msg_of_not_grant hg
    rw [hval]
    exact hw

/-- The moves of the workers, the network and the signals. -/
def Move.Passive : Move → Prop
  | .packet _ | .capture | .crypto | .captureDies | .cryptoDies | .signal => True
  | .parent | .interrupt | .fault _ => False

/-- A worker went on with its loop, or ended. -/
structure Worker.Ran {α : Type} (v v' : Worker α) : Prop where
  told : v'.told = v.told
  process : v'.process = v.process ∨ v.process = .running ∧ v'.process = .zombie

/-- A worker that does nothing ran. -/
theorem Worker.Ran.refl {α : Type} (v : Worker α) : v.Ran v := ⟨rfl, .inl rfl⟩

/-- What such a move leaves: the parent's place, its program, its firewall and all of its world
    but the clock.  A flag stays up, and the workers go on or end. -/
structure Beside (s s' : Supervisor σ) : Prop where
  pc : s'.pc = s.pc
  parent : s'.parent = s.parent
  firewall : s'.firewall = s.firewall
  registered : s'.registered = s.registered
  result : s'.result = s.result
  strays : s'.strays = s.strays
  cache : s'.world.cache = s.world.cache
  file : s'.world.file = s.world.file
  calls : s'.world.calls = s.world.calls
  flag : s.flag = true → s'.flag = true
  capture : s.capture.Ran s'.capture
  crypto : s.crypto.Ran s'.crypto

/-- Nothing happened. -/
theorem Beside.refl (s : Supervisor σ) : Beside s s :=
  ⟨rfl, rfl, rfl, rfl, rfl, rfl, rfl, rfl, rfl, id, .refl _, .refl _⟩

/-- A capture worker that ends touches nothing of the parent's. -/
theorem beside_capture_exits {s : Supervisor σ} (hrun : s.capture.process = .running) :
    Beside s s.capture_exits := by
  refine ⟨rfl, rfl, rfl, rfl, rfl, rfl, rfl, rfl, rfl, ?_, ⟨rfl, .inr ⟨hrun, rfl⟩⟩, .refl _⟩
  intro hflag
  simp only [capture_exits, hflag, Bool.true_or]

/-- Neither does a crypto worker that ends. -/
theorem beside_crypto_exits {s : Supervisor σ} (hrun : s.crypto.process = .running) :
    Beside s s.crypto_exits := by
  refine ⟨rfl, rfl, rfl, rfl, rfl, rfl, rfl, rfl, rfl, ?_, .refl _, ⟨rfl, .inr ⟨hrun, rfl⟩⟩⟩
  intro hflag
  simp only [crypto_exits, hflag, Bool.true_or]

/-- The capture worker's loop runs beside the parent. -/
theorem beside_capture_step {s : Supervisor σ} (hrun : s.capture.process = .running) :
    Beside s (s.capture_step S) := by
  simp only [capture_step]
  split
  · split
    · exact beside_capture_exits hrun
    · exact ⟨rfl, rfl, rfl, rfl, rfl, rfl, rfl, rfl, rfl, id, ⟨rfl, .inl rfl⟩, .refl _⟩
  · exact ⟨rfl, rfl, rfl, rfl, rfl, rfl, rfl, rfl, rfl, id, ⟨rfl, .inl rfl⟩, .refl _⟩
  · split
    · exact beside_capture_exits hrun
    · split
      · exact ⟨rfl, rfl, rfl, rfl, rfl, rfl, rfl, rfl, rfl, id, ⟨rfl, .inl rfl⟩, .refl _⟩
      · exact .refl s

/-- So does the crypto worker's. -/
theorem beside_crypto_step {s : Supervisor σ} (hrun : s.crypto.process = .running) :
    Beside s (s.crypto_step S) := by
  simp only [crypto_step]
  split
  · split
    · exact beside_crypto_exits hrun
    · exact ⟨rfl, rfl, rfl, rfl, rfl, rfl, rfl, rfl, rfl, id, .refl _, ⟨rfl, .inl rfl⟩⟩
  · split
    · exact ⟨rfl, rfl, rfl, rfl, rfl, rfl, rfl, rfl, rfl, id, .refl _, ⟨rfl, .inl rfl⟩⟩
    · next i p rest hchan =>
      rcases validate_world S.ext S.config.toDaemonConfig S.env p s.world with hw | hw
      · rw [hw]
        exact ⟨rfl, rfl, rfl, rfl, rfl, rfl, rfl, rfl, rfl, id, .refl _, ⟨rfl, .inl rfl⟩⟩
      · rw [hw]
        exact ⟨rfl, rfl, rfl, rfl, rfl, rfl, rfl, rfl, rfl, id, .refl _, ⟨rfl, .inl rfl⟩⟩
  · split
    · split
      · exact ⟨rfl, rfl, rfl, rfl, rfl, rfl, rfl, rfl, rfl, id, .refl _, ⟨rfl, .inl rfl⟩⟩
      · exact .refl s
    · exact beside_crypto_exits hrun

/-- Every move that is not the parent's runs beside it. -/
theorem beside_step {l : Move} (hl : l.Passive) (s : Supervisor σ) : Beside s (step S l s) := by
  cases l with
  | packet p =>
      simp only [step]
      split
      · exact ⟨rfl, rfl, rfl, rfl, rfl, rfl, rfl, rfl, rfl, id, ⟨rfl, .inl rfl⟩, .refl _⟩
      · exact .refl s
  | capture =>
      simp only [step]
      split
      · next hrun => exact beside_capture_step hrun
      · exact .refl s
  | crypto =>
      simp only [step]
      split
      · next hrun => exact beside_crypto_step hrun
      · exact .refl s
  | captureDies =>
      simp only [step]
      split
      · next hrun => exact beside_capture_exits hrun
      · exact .refl s
  | cryptoDies =>
      simp only [step]
      split
      · next hrun => exact beside_crypto_exits hrun
      · exact .refl s
  | signal =>
      simp only [step]
      split
      · exact ⟨rfl, rfl, rfl, rfl, rfl, rfl, rfl, rfl, rfl, fun _ => rfl, .refl _, .refl _⟩
      · exact .refl s
  | parent => cases hl
  | interrupt => cases hl
  | fault reason => cases hl

/-! ## What the parent has in its hands -/

/-- The rest of a program the parent performs keeps its kind, and after an opening nothing is
    left. -/
theorem perform_next_ends {s : Supervisor σ} {β : Type} {e : Eff β} {k : β → Prog Eff Unit}
    (hp : s.parent = .op e k) (hends : s.parent.EndsWith Opening) :
    (s.perform_next S).parent.EndsWith Opening
      ∧ (Opening e → (s.perform_next S).parent = .ret ()) := by
  rw [hp] at hends
  simp only [perform_next, hp]
  by_cases he : Opening e
  · obtain ⟨a, ha⟩ := hends.1 he (backend_handler S.backend S.env β e (s.world, s.firewall)).1
    rw [ha]
    exact ⟨trivial, fun _ => rfl⟩
  · exact ⟨hends.2 he _, fun h => absurd h he⟩

/-- A turn starts with a program that fits its statement. -/
theorem fits_next_turn (s : Supervisor σ) (hret : s.parent = .ret ()) :
    Fits (s.next_turn S).pc (s.next_turn S).parent := by
  simp only [next_turn]
  split
  · exact (avoids_prune _ _).bind fun _ => trivial
  · exact hret

/-- An effect does not move the parent. -/
theorem perform_next_pc (s : Supervisor σ) : (s.perform_next S).pc = s.pc := by
  simp only [perform_next]
  split <;> rfl

/-- Each statement of the parent hands over a program that fits the next one. -/
theorem fits_parent_step {s : Supervisor σ} (hfits : Fits s.pc s.parent) :
    Fits (s.parent_step S).pc (s.parent_step S).parent := by
  cases hpc : s.pc with
  | start | check =>
      rw [hpc] at hfits
      simp only [parent_step, hpc]
      split <;> exact hfits
  | receive =>
      rw [hpc] at hfits
      simp only [parent_step, hpc]
      split
      · exact hfits
      · exact endsWith_handle_crypto_msg _ _ _
  | handle =>
      -- what is left of a message's program still ends with its opening
      rw [hpc] at hfits
      cases hp : s.parent with
      | ret u =>
          simp only [parent_step, hpc, hp]
          exact rfl
      | op e k =>
          simp only [parent_step, hpc, hp]
          rw [perform_next_pc, hpc]
          exact (perform_next_ends hp hfits).1
  | reap =>
      rw [hpc] at hfits
      simp only [parent_step, hpc]
      exact fits_next_turn s.try_reap hfits
  | prune =>
      -- a prune opens nothing, so neither does its rest
      rw [hpc] at hfits
      cases hp : s.parent with
      | ret u =>
          simp only [parent_step, hpc, hp]
          exact rfl
      | op e k =>
          have havoid : (op e k).Avoids Opening := hp ▸ hfits
          simp only [parent_step, hpc, hp]
          rw [perform_next_pc, hpc]
          simp only [perform_next, hp]
          exact havoid.2 _
  | waitCapture | waitCrypto =>
      rw [hpc] at hfits
      simp only [parent_step, hpc]
      split
      · rw [hpc]
        exact hfits
      · exact hfits
  | _ =>
      rw [hpc] at hfits
      simp only [parent_step, hpc]
      exact hfits

/-- So does a statement that fails. -/
theorem fits_parent_fault {s : Supervisor σ} (reason : String) (hfits : Fits s.pc s.parent) :
    Fits (s.parent_fault S reason).pc (s.parent_fault S reason).parent := by
  cases hpc : s.pc with
  | reap =>
      rw [hpc] at hfits
      simp only [parent_fault, hpc]
      exact fits_next_turn s hfits
  | _ =>
      rw [hpc] at hfits
      simp only [parent_fault, hpc]
      exact hfits

/-- No move breaks the fit. -/
theorem fits_step (l : Move) {s : Supervisor σ} (hfits : Fits s.pc s.parent) :
    Fits (step S l s).pc (step S l s).parent := by
  by_cases hl : l.Passive
  · have hb := beside_step (S := S) hl s
    rw [hb.pc, hb.parent]
    exact hfits
  · cases l with
    | parent => exact fits_parent_step hfits
    | fault reason => exact fits_parent_fault reason hfits
    | interrupt =>
        simp only [step]
        split
        · next hpc =>
          rw [hpc] at hfits
          exact hfits
        · exact hfits
    | _ => exact absurd trivial hl

/-! ## What a supervised run opens -/

/-- The invariant reads the world's calls and their cause, nothing else of it. -/
theorem PrivsepInv.of_world {X : Ext} {config : DaemonConfig} {env : Env} {t : Privsep}
    (h : PrivsepInv X config env t) {w : World} (hcalls : w.calls = t.world.calls)
    (hcur : w.current = t.world.current) : PrivsepInv X config env { t with world := w } := by
  obtain ⟨hq, hval, hcau, live, hheld, hord, hlt⟩ := h
  have hpos : positions { t with world := w } live = positions t live := by
    simp only [positions, hcalls]
  refine ⟨hq, hval, ?_, live, ?_, ?_, ?_⟩
  · intro c hc
    exact hcau c (hcalls ▸ hc)
  · simp only [Held, hcur]
    exact hheld
  · rw [hpos]
    exact hord
  · rw [hpos]
    exact hlt

/-- The invariant of the separated mode, through the parent's whole life. -/
def Sound (S : Setup σ) (s : Supervisor σ) : Prop :=
  Fits s.pc s.parent ∧ PrivsepInv S.ext S.config.toDaemonConfig S.env s.view

/-- Every move keeps it: it is a step of the separated mode, or changes what the invariant does
    not read. -/
theorem sound_step (hv : S.config.toDaemonConfig.validate = .ok ()) (l : Move) {s : Supervisor σ}
    (h : Sound S s) : Sound S (step S l s) := by
  obtain ⟨hfits, hinv⟩ := h
  refine ⟨fits_step l hfits, ?_⟩
  rcases step_simulated (S := S) l hfits with hsame | ⟨l', hl'⟩ | ⟨w, hw, hcalls, hcur⟩
  · rw [hsame]
    exact hinv
  · rw [hl']
    exact privsepInv_step hv l' hinv
  · rw [hw]
    exact PrivsepInv.of_world hinv hcalls hcur

/-- It holds along every run from a world without calls. -/
theorem sound_supervise (hv : S.config.toDaemonConfig.validate = .ok ()) (moves : List Move)
    {w : World} (hw : w.calls = []) (f : σ) : Sound S (supervise S moves w f) :=
  run_invariant (Q := fun _ => True) (fun l _ _ h => sound_step hv l h) (fun _ _ => trivial)
    ⟨rfl, privsepInv_start w hw⟩

/-- The new call of an effect, and what the backend does about it. -/
theorem perform_next_opens (s : Supervisor σ) :
    ∃ new, (s.perform_next S).world.calls = s.world.calls ++ new
      ∧ (s.perform_next S).firewall = open_all S.backend (new.map Prod.snd) s.firewall := by
  simp only [perform_next]
  cases s.parent with
  | ret u => exact ⟨[], (List.append_nil _).symm, rfl⟩
  | op e k =>
      dsimp only
      cases he : e.opens with
      | none =>
          refine ⟨[], ?_, ?_⟩
          · rw [backend_handler_world, handler_calls, he]
            rfl
          · rw [backend_handler_of_not_opening S.backend (fun ho => ho he)]
            rfl
      | some rule =>
          refine ⟨[(s.world.current, rule)], ?_, ?_⟩
          · rw [backend_handler_world, handler_calls, he]
            rfl
          · rw [backend_handler_of_opening S.backend he]
            rfl

/-- The backend that a run from `f` has after its start and these calls. -/
def opened (S : Setup σ) (f : σ) (calls : List (Cause × AccessRule)) : σ :=
  open_all S.backend (calls.map Prod.snd) (FwknoxDaemon.start S.toHost f).2

/-- The course of a run from the firewall `f`, statement by statement: nothing is opened before
    the loop, then the backend follows the calls, and the exit closes it unless an error left
    only the handles to drop. -/
def Course (S : Setup σ) (f : σ) (pc : Pc) (result : Except RunError Unit)
    (calls : List (Cause × AccessRule)) (firewall : σ) : Prop :=
  match pc with
  | .start => firewall = f ∧ calls = [] ∧ result = .ok ()
  | .pairs | .forkCapture | .forkCrypto | .handlers | .timeout | .register =>
      firewall = opened S f calls ∧ calls = [] ∧ result = .ok ()
  | .check | .receive | .handle | .reap | .prune | .killCapture | .waitCapture | .killCrypto
  | .waitCrypto | .flush => firewall = opened S f calls ∧ result = .ok ()
  | .save => firewall = closed S.toHost (opened S f calls) ∧ result = .ok ()
  | .dropCrypto | .dropCapture | .done =>
      match result with
      | .ok _ => firewall = closed S.toHost (opened S f calls)
      | .error _ => firewall = opened S f calls ∧ calls = []

/-- The state is on its course. -/
def OnCourse (S : Setup σ) (f : σ) (s : Supervisor σ) : Prop :=
  Course S f s.pc s.result s.world.calls s.firewall

/-- An effect does not decide how the parent ends. -/
theorem perform_next_result (s : Supervisor σ) : (s.perform_next S).result = s.result := by
  simp only [perform_next]
  split <;> rfl

/-- An effect adds its call, and the backend follows. -/
theorem onCourse_perform_next {f : σ} {s : Supervisor σ}
    (h : s.firewall = opened S f s.world.calls) :
    (s.perform_next S).firewall = opened S f (s.perform_next S).world.calls := by
  obtain ⟨new, hcalls, hfw⟩ := perform_next_opens (S := S) s
  rw [hfw, hcalls, h, opened, opened, List.map_append, open_all_append]

/-- A new turn is on course as long as the loop's firewall is. -/
theorem onCourse_next_turn {f : σ} {s : Supervisor σ}
    (h : s.firewall = opened S f s.world.calls) (hr : s.result = .ok ()) :
    OnCourse S f (s.next_turn S) := by
  simp only [next_turn]
  split <;> exact ⟨h, hr⟩

/-- Each statement of the parent keeps the course; the ones that touch the firewall are the first,
    the effects and the flush. -/
theorem onCourse_parent_step {f : σ} {s : Supervisor σ} (h : OnCourse S f s) :
    OnCourse S f (s.parent_step S) := by
  rw [OnCourse] at h
  cases hpc : s.pc with
  | start =>
      -- `init` is the empty list of openings; when it fails the backend is as it left it
      rw [hpc] at h
      obtain ⟨rfl, hcalls, hr⟩ := h
      have hopened : (FwknoxDaemon.start S.toHost s.firewall).2
          = opened S s.firewall s.world.calls := by
        rw [hcalls]
        rfl
      simp only [parent_step, hpc]
      split
      · next e f' heq =>
        rw [heq] at hopened
        exact ⟨hopened, hcalls⟩
      · next u f' heq =>
        rw [heq] at hopened
        exact ⟨hopened, hcalls, hr⟩
  | register =>
      rw [hpc] at h
      simp only [parent_step, hpc]
      exact ⟨h.1, h.2.2⟩
  | check | receive =>
      rw [hpc] at h
      simp only [parent_step, hpc]
      split <;> exact h
  | handle | prune =>
      rw [hpc] at h
      simp only [parent_step, hpc]
      split
      · exact h
      · rw [OnCourse, perform_next_pc, perform_next_result, hpc]
        exact ⟨onCourse_perform_next h.1, h.2⟩
  | reap =>
      rw [hpc] at h
      simp only [parent_step, hpc]
      exact onCourse_next_turn h.1 h.2
  | waitCapture | waitCrypto =>
      -- waiting does not touch the backend
      simp only [parent_step, hpc]
      split
      · exact h
      · rw [hpc] at h
        exact h
  | flush =>
      rw [hpc] at h
      simp only [parent_step, hpc]
      exact ⟨congrArg (closed S.toHost) h.1, h.2⟩
  | save =>
      rw [hpc] at h
      obtain ⟨w', hw', _, hcalls, _⟩ := save_world S.config.replay.cache_path S.env s.world
      simp only [parent_step, hpc, hw', OnCourse, Course, h.2, hcalls]
      exact h.1
  | done =>
      simp only [parent_step, hpc]
      exact h
  | _ =>
      rw [hpc] at h
      simp only [parent_step, hpc]
      exact h

/-- A statement that fails keeps it: before the loop nothing is open, and in it the loop goes on. -/
theorem onCourse_parent_fault {f : σ} {s : Supervisor σ} (reason : String) (h : OnCourse S f s) :
    OnCourse S f (s.parent_fault S reason) := by
  rw [OnCourse] at h
  cases hpc : s.pc with
  | reap =>
      rw [hpc] at h
      simp only [parent_fault, hpc]
      exact onCourse_next_turn h.1 h.2
  | register =>
      rw [hpc] at h
      simp only [parent_fault, hpc]
      exact ⟨h.1, h.2.2⟩
  | pairs | forkCapture | forkCrypto | handlers | timeout =>
      rw [hpc] at h
      simp only [parent_fault, hpc]
      exact ⟨h.1, h.2.1⟩
  | _ =>
      simp only [parent_fault, hpc]
      exact h

/-- Every move keeps the course. -/
theorem onCourse_step {f : σ} (l : Move) {s : Supervisor σ} (h : OnCourse S f s) :
    OnCourse S f (step S l s) := by
  by_cases hl : l.Passive
  · have hb := beside_step (S := S) hl s
    rw [OnCourse, hb.pc, hb.result, hb.calls, hb.firewall]
    exact h
  · cases l with
    | parent => exact onCourse_parent_step h
    | fault reason => exact onCourse_parent_fault reason h
    | interrupt =>
        simp only [step]
        split
        · next hpc =>
          rw [OnCourse, hpc] at h
          exact h
        · exact h
    | _ => exact absurd trivial hl

/-- The course holds along every run. -/
theorem onCourse_supervise (moves : List Move) {w : World} (hw : w.calls = []) (f : σ) :
    OnCourse S f (supervise S moves w f) :=
  run_invariant (Q := fun _ => True) (P := OnCourse S f) (fun l _ _ h => onCourse_step l h)
    (fun _ _ => trivial) ⟨rfl, hw, rfl⟩

/-- **EVERY RULE WAS EARNED, WHOEVER DIES**: for an accepted configuration and every order of
    packets, worker steps, deaths, signals and failing calls, each opened rule has its own cause
    among the captured packets, and the firewall is what the start, those calls and the exit
    make of it. -/
theorem supervised_accounted (S : Setup σ) (hv : S.config.toDaemonConfig.validate = .ok ())
    (moves : List Move) {w : World} (hw : w.calls = []) (f : σ) :
    Accounted S.ext S.config.toDaemonConfig S.env (supervise S moves w f).captured
        (supervise S moves w f).world.calls
      ∧ OnCourse S f (supervise S moves w f) :=
  ⟨(sound_supervise hv moves hw f).2.accounted, onCourse_supervise moves hw f⟩

end Step

/-- The reply to the sample packet. -/
def sampleReply : CryptoMsg := .validRequest "ssh" (.v4 sampleIp) sampleRow.payload

/-- The reply to a datagram with nothing in it. -/
def shortReply : CryptoMsg :=
  .rejected emptyPacket.source_ip (ProtoError.packetTooShort 0 MIN_PACKET_LEN).to_string

/-- The sample host with the usual buffers, of which a small datagram takes 768 bytes; nft is a
    child process, and is not run for the other family. -/
def sampleSetup : Setup NftDriver where
  toHost := sampleHost
  to_crypto := ⟨fun _ => 768, 212992, fun _ => Nat.succ_pos _, Nat.succ_pos _⟩
  to_parent := ⟨fun _ => 768, 212992, fun _ => Nat.succ_pos _, Nat.succ_pos _⟩
  codec := .table [sampleReply, shortReply]
  spawns rule :=
    match rule.source_ip with
    | .v4 _ => true
    | .v6 _ => false

/-- The start, the sample packet through both workers, and its rule. -/
def sampleMoves : List Move :=
  List.replicate 7 .parent ++ [.capture, .packet samplePacket, .capture, .crypto, .crypto, .crypto]
    ++ List.replicate 7 .parent

/-- The sample run opens one rule, and its packet is the cause. -/
theorem sample_moves_accounted :
    (supervise sampleSetup sampleMoves emptyWorld leftDriver).world.calls.length = 1
      ∧ Accounted sampleExt sampleConfig sampleEnv
          (supervise sampleSetup sampleMoves emptyWorld leftDriver).captured
          (supervise sampleSetup sampleMoves emptyWorld leftDriver).world.calls :=
  ⟨by decide +kernel,
    (supervised_accounted sampleSetup sampleConfig_validate sampleMoves rfl leftDriver).1⟩

end FwknoxSupervise
