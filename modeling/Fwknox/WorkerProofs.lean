import Fwknox.IpcProofs
import Fwknox.PipelineProofs

/-! # The crypto worker — a panic under the installed hook

    `run_crypto_worker` of `workers.rs`, composed with the panic hook of `panic.rs` as
    the crypto child of `privsep_run.rs` composes them, and the panic strategy of the
    build profile.

    A panic runs the installed hook first.  Only when the hook returns and the profile
    unwinds does it reach the loop's `catch_unwind`.  The loop alone therefore survives
    every panic (`isolated_worker_serves`); the deployed child survives none, since its
    hook aborts.  A reply too large for `send_msg` ends either.  `crypto_child_serves_iff` says
    that the child keeps serving iff no message makes the validator panic and every reply
    fits its datagram. -/

namespace FwknoxWorker

open FwknoxTypes FwknoxWorld FwknoxPipeline FwknoxIpc

/-! ## Panics -/

/-- `panic` of the build profile: `unwind` by default, `abort` for a release. -/
inductive PanicStrategy where
  | unwind
  | abort
  deriving DecidableEq

/-- The hook a panic runs first. -/
inductive PanicHook where
  /-- The standard library's. -/
  | default
  /-- The one `install_worker_panic_hook` sets. -/
  | worker (worker_name : String)
  deriving DecidableEq

/-- The line a hook writes to stderr. -/
def PanicHook.line : PanicHook → String → String
  | .default, info => info
  | .worker worker_name, info => worker_name ++ ": panicked: " ++ info

/-- Whether a hook returns to the panicking code; the worker's calls `abort`. -/
def PanicHook.returns : PanicHook → Bool
  | .default => true
  | .worker _ => false

/-! ## The loop -/

/-- Where a worker's process is. -/
inductive Status where
  | looping
  | returned (result : Except PrivsepError Unit)
  /-- Killed by `SIGABRT`. -/
  | aborted

/-- The worker process: its panic setup, what it wrote and sent, and how many messages
    it has handed to the validator. -/
structure Worker where
  hook : PanicHook
  strategy : PanicStrategy
  stderr : List String
  calls : Nat
  sent : List CryptoMsg
  status : Status

/-- The validator on its `n`-th message: a reply, or a panic with this report.  It may
    keep state, so the same message can fare differently later. -/
abbrev Validator := Nat → CapturedPacket → Except String CryptoMsg

/-- What one turn of the loop meets. -/
inductive Poll where
  /-- `is_shutdown` answers true. -/
  | shutdown
  /-- The read timeout of the socket. -/
  | timeout
  /-- A message, and what the socket to the parent would answer to a reply. -/
  | message (msg : CapturedPacket) (send : Except String Unit)
  | failed (e : PrivsepError)

namespace Worker

/-- A panic inside `catch_unwind`: the hook, then back into the loop or not at all. -/
def panicked (w : Worker) (info : String) : Worker :=
  let w := { w with stderr := w.stderr ++ [w.hook.line info] }
  if w.hook.returns = true ∧ w.strategy = .unwind then w else { w with status := .aborted }

/-- The reply on its way to the parent; a worker whose `send_msg` fails returns. -/
def reply (codec : Codec CryptoMsg) (w : Worker) (msg : CryptoMsg) (send : Except String Unit) :
    Worker :=
  match send_msg codec msg send with
  | .ok _ => { w with sent := w.sent ++ [msg] }
  | .error e => { w with status := .returned (.error e) }

/-- One turn; a worker that has left the loop takes none. -/
def turn (codec : Codec CryptoMsg) (validate : Validator) (w : Worker) (poll : Poll) : Worker :=
  match w.status, poll with
  | .looping, .shutdown => { w with status := .returned (.ok ()) }
  | .looping, .timeout => w
  | .looping, .failed e => { w with status := .returned (.error e) }
  | .looping, .message msg send =>
      match validate w.calls msg with
      | .ok msg => reply codec { w with calls := w.calls + 1 } msg send
      | .error info => panicked { w with calls := w.calls + 1 } info
  | .returned _, _ | .aborted, _ => w

/-- A fresh process under a build profile. -/
def new (strategy : PanicStrategy) : Worker := ⟨.default, strategy, [], 0, [], .looping⟩

end Worker

/-- From here on a panic of this process ends it. -/
def install_worker_panic_hook (worker_name : String) (w : Worker) : Worker :=
  { w with hook := .worker worker_name }

/-- The loop, turn after turn. -/
def run_crypto_worker (codec : Codec CryptoMsg) (validate : Validator) :
    List Poll → Worker → Worker
  | [], w => w
  | poll :: polls, w => run_crypto_worker codec validate polls (w.turn codec validate poll)

/-- The crypto child of `run_parent_after_capture_fork`. -/
def crypto_child (codec : Codec CryptoMsg) (strategy : PanicStrategy) (validate : Validator)
    (polls : List Poll) : Worker :=
  run_crypto_worker codec validate polls (install_worker_panic_hook "crypto" (.new strategy))

/-! ## Serving -/

/-- Messages and timeouts only, and the socket takes every datagram. -/
def Poll.Quiet : Poll → Prop
  | .timeout => True
  | .message _ (.ok _) => True
  | .message _ (.error _) | .shutdown | .failed _ => False

/-- The messages among the polls. -/
def messages : List Poll → List CapturedPacket
  | [] => []
  | .message msg _ :: polls => msg :: messages polls
  | .shutdown :: polls | .timeout :: polls | .failed _ :: polls => messages polls

/-- The replies of the messages that do not panic, in order, counting from call `n`. -/
def replies (validate : Validator) : Nat → List CapturedPacket → List CryptoMsg
  | _, [] => []
  | n, msg :: msgs =>
      match validate n msg with
      | .ok reply => reply :: replies validate (n + 1) msgs
      | .error _ => replies validate (n + 1) msgs

/-- After `polls` the worker `w` is in its loop, has sent exactly the replies, and
    leaves on a shutdown. -/
structure Serves (codec : Codec CryptoMsg) (validate : Validator) (polls : List Poll)
    (w : Worker) : Prop where
  looping : w.status = .looping
  sent : w.sent = replies validate 0 (messages polls)
  stops : (w.turn codec validate .shutdown).status = .returned (.ok ())

/-- No message in the list makes the validator panic, counting from call `n`. -/
def NoPanic (validate : Validator) (n : Nat) (msgs : List CapturedPacket) : Prop :=
  ∀ i msg, msgs[i]? = some msg → ∃ reply, validate (n + i) msg = .ok reply

/-- Every reply to the list fits its datagram, counting from call `n`. -/
def AllFit (codec : Codec CryptoMsg) (validate : Validator) (n : Nat)
    (msgs : List CapturedPacket) : Prop :=
  ∀ reply ∈ replies validate n msgs, Fits codec reply

/-- Panics come back to the loop. -/
def Worker.Catches (w : Worker) : Prop := w.hook.returns = true ∧ w.strategy = .unwind

variable {codec : Codec CryptoMsg} {validate : Validator}

/-- The panics of a list are those of its head and of its tail. -/
theorem noPanic_cons {n : Nat} {msg : CapturedPacket} {msgs : List CapturedPacket} :
    NoPanic validate n (msg :: msgs)
      ↔ (∃ reply, validate n msg = .ok reply) ∧ NoPanic validate (n + 1) msgs := by
  constructor
  · intro h
    refine ⟨h 0 msg rfl, ?_⟩
    intro i m hm
    rw [Nat.add_assoc, Nat.add_comm 1 i]
    exact h (i + 1) m hm
  · rintro ⟨h0, h⟩ i m hm
    cases i with
    | zero =>
        cases hm
        exact h0
    | succ i =>
        rw [Nat.add_comm i 1, ← Nat.add_assoc]
        exact h i m hm

/-! ## One turn -/

section Turn

variable {w : Worker} {msg : CapturedPacket}

/-- A timeout changes nothing. -/
theorem turn_timeout (hw : w.status = .looping) : w.turn codec validate .timeout = w := by
  simp only [Worker.turn, hw]

/-- A shutdown ends the loop well. -/
theorem turn_shutdown (hw : w.status = .looping) :
    w.turn codec validate .shutdown = { w with status := .returned (.ok ()) } := by
  simp only [Worker.turn, hw]

/-- A reply that fits goes out. -/
theorem turn_reply (hw : w.status = .looping) {reply : CryptoMsg}
    (hv : validate w.calls msg = .ok reply) (hf : Fits codec reply) :
    w.turn codec validate (.message msg (.ok ()))
      = { w with calls := w.calls + 1, sent := w.sent ++ [reply] } := by
  obtain ⟨bytes, hsent, -⟩ := send_msg_of_fits hf
  simp only [Worker.turn, hw, hv, Worker.reply, hsent]

/-- A reply that does not fit ends the loop, whatever the socket would say. -/
theorem turn_refused (hw : w.status = .looping) {reply : CryptoMsg}
    (hv : validate w.calls msg = .ok reply) (hf : ¬Fits codec reply)
    (send : Except String Unit) :
    ∃ reason, (w.turn codec validate (.message msg send)).status
      = .returned (.error (.ipcEncode reason)) := by
  obtain ⟨reason, hrefused⟩ := send_msg_of_not_fits hf send
  refine ⟨reason, ?_⟩
  simp only [Worker.turn, hw, hv, Worker.reply, hrefused]

/-- A panic that comes back costs the packet. -/
theorem turn_caught (hw : w.status = .looping) (hc : w.Catches) {info : String}
    (hv : validate w.calls msg = .error info) (send : Except String Unit) :
    w.turn codec validate (.message msg send)
      = { w with calls := w.calls + 1, stderr := w.stderr ++ [w.hook.line info] } := by
  simp only [Worker.turn, hw, hv, Worker.panicked]
  exact if_pos hc

/-- A panic that does not come back ends the process. -/
theorem turn_aborted (hw : w.status = .looping) (hc : ¬w.Catches) {info : String}
    (hv : validate w.calls msg = .error info) (send : Except String Unit) :
    (w.turn codec validate (.message msg send)).status = .aborted := by
  simp only [Worker.turn, hw, hv, Worker.panicked]
  rw [if_neg]
  exact hc

end Turn

/-! ## Whole runs -/

/-- A worker that has left its loop stays as it is. -/
theorem run_of_left (polls : List Poll) {w : Worker} (hw : w.status ≠ .looping) :
    run_crypto_worker codec validate polls w = w := by
  induction polls with
  | nil => rfl
  | cons poll polls ih =>
      have hturn : w.turn codec validate poll = w := by
        cases hst : w.status with
        | looping => exact absurd hst hw
        | returned r => simp only [Worker.turn, hst]
        | aborted => simp only [Worker.turn, hst]
      rw [run_crypto_worker, hturn, ih]

/-- As long as panics are caught or do not happen, and the replies fit, the worker loops and
    sends the replies in order. -/
theorem run_serves (polls : List Poll) (hq : ∀ poll ∈ polls, poll.Quiet) {w : Worker}
    (hw : w.status = .looping) (hok : w.Catches ∨ NoPanic validate w.calls (messages polls))
    (hfit : AllFit codec validate w.calls (messages polls)) :
    (run_crypto_worker codec validate polls w).status = .looping
      ∧ (run_crypto_worker codec validate polls w).sent
          = w.sent ++ replies validate w.calls (messages polls) := by
  -- on the polls; the number of calls made so far tells which validation comes next
  induction polls generalizing w with
  | nil => exact ⟨hw, (List.append_nil _).symm⟩
  | cons poll polls ih =>
      obtain ⟨hpoll, hrest⟩ := List.forall_mem_cons.mp hq
      cases poll with
      | shutdown => exact hpoll.elim
      | failed e => exact hpoll.elim
      | timeout =>
          simp only [run_crypto_worker, turn_timeout hw]
          exact ih hrest hw hok hfit
      | message msg send =>
          cases send with
          | error e => exact hpoll.elim
          | ok u =>
              have hok' : w.Catches ∨ NoPanic validate (w.calls + 1) (messages polls) :=
                hok.imp id fun h => (noPanic_cons.mp h).2
              simp only [AllFit, messages, replies] at hfit
              cases hv : validate w.calls msg with
              | ok reply =>
                  simp only [hv] at hfit
                  obtain ⟨hreply, hfit⟩ := List.forall_mem_cons.mp hfit
                  simp only [run_crypto_worker, turn_reply hw hv hreply, messages, replies, hv]
                  obtain ⟨hstatus, hsent⟩ := ih hrest
                    (w := { w with calls := w.calls + 1, sent := w.sent ++ [reply] }) hw hok' hfit
                  refine ⟨hstatus, hsent.trans ?_⟩
                  rw [List.append_assoc, List.singleton_append]
              | error info =>
                  -- a panic is there, so it must be caught: no reply, but the loop goes on
                  simp only [hv] at hfit
                  have hc : w.Catches := by
                    refine hok.resolve_right fun h => ?_
                    obtain ⟨reply, hreply⟩ := (noPanic_cons.mp h).1
                    cases hv.symm.trans hreply
                  simp only [run_crypto_worker, turn_caught hw hc hv, messages, replies, hv]
                  exact ih hrest (w := { w with
                    calls := w.calls + 1, stderr := w.stderr ++ [w.hook.line info] }) hw hok' hfit

/-- A panic that is not caught, or a reply that does not fit, ends the worker. -/
theorem run_ends (polls : List Poll) (hq : ∀ poll ∈ polls, poll.Quiet) {w : Worker}
    (hw : w.status = .looping) (hc : ¬w.Catches)
    (hbad : ¬(NoPanic validate w.calls (messages polls)
      ∧ AllFit codec validate w.calls (messages polls))) :
    (run_crypto_worker codec validate polls w).status ≠ .looping := by
  induction polls generalizing w with
  | nil =>
      refine absurd ⟨?_, ?_⟩ hbad
      · intro i msg h
        cases h
      · intro reply h
        cases h
  | cons poll polls ih =>
      obtain ⟨hpoll, hrest⟩ := List.forall_mem_cons.mp hq
      cases poll with
      | shutdown => exact hpoll.elim
      | failed e => exact hpoll.elim
      | timeout =>
          simp only [run_crypto_worker, turn_timeout hw]
          exact ih hrest hw hc hbad
      | message msg send =>
          simp only [run_crypto_worker]
          cases hv : validate w.calls msg with
          | error info =>
              have hstatus : (w.turn codec validate (.message msg send)).status = .aborted :=
                turn_aborted hw hc hv send
              rw [run_of_left polls (by rw [hstatus]; exact fun h => by cases h), hstatus]
              exact fun h => by cases h
          | ok reply =>
              by_cases hf : Fits codec reply
              · cases send with
                | error e => exact hpoll.elim
                | ok u =>
                    rw [turn_reply hw hv hf]
                    -- the first reply is out, so what is wrong comes later
                    refine ih hrest (w := { w with
                      calls := w.calls + 1, sent := w.sent ++ [reply] }) hw hc ?_
                    rintro ⟨hno, hfit⟩
                    refine hbad ⟨noPanic_cons.mpr ⟨⟨reply, hv⟩, hno⟩, ?_⟩
                    simp only [AllFit, messages, replies, hv]
                    exact List.forall_mem_cons.mpr ⟨hf, hfit⟩
              · obtain ⟨reason, hstatus⟩ := turn_refused hw hv hf send
                rw [run_of_left polls (by rw [hstatus]; exact fun h => by cases h), hstatus]
                exact fun h => by cases h

/-- The loop by itself, as the tests run it, survives every panic as long as its replies fit. -/
theorem isolated_worker_serves (codec : Codec CryptoMsg) (validate : Validator)
    {polls : List Poll} (hq : ∀ poll ∈ polls, poll.Quiet)
    (hfit : AllFit codec validate 0 (messages polls)) :
    Serves codec validate polls (run_crypto_worker codec validate polls (.new .unwind)) := by
  obtain ⟨hstatus, hsent⟩ := run_serves polls hq (w := .new .unwind) rfl (.inl ⟨rfl, rfl⟩) hfit
  refine ⟨hstatus, hsent, ?_⟩
  rw [turn_shutdown hstatus]

/-- **THE DEPLOYED WORKER, EXACTLY**: under either profile and for every sequence of
    messages, the crypto child keeps serving iff none of them makes the validator
    panic and every reply fits its datagram. -/
theorem crypto_child_serves_iff (codec : Codec CryptoMsg) (strategy : PanicStrategy)
    (validate : Validator) {polls : List Poll} (hq : ∀ poll ∈ polls, poll.Quiet) :
    Serves codec validate polls (crypto_child codec strategy validate polls)
      ↔ NoPanic validate 0 (messages polls) ∧ AllFit codec validate 0 (messages polls) := by
  constructor
  · intro h
    by_contra hbad
    -- the installed hook never returns, whatever the profile
    exact run_ends (w := install_worker_panic_hook "crypto" (.new strategy)) polls hq rfl
      (fun hc => absurd hc.1 Bool.false_ne_true) hbad h.looping
  · rintro ⟨hno, hfit⟩
    obtain ⟨hstatus, hsent⟩ := run_serves
      (w := install_worker_panic_hook "crypto" (.new strategy)) polls hq rfl (.inr hno) hfit
    refine ⟨hstatus, hsent, ?_⟩
    rw [crypto_child, turn_shutdown hstatus]

/-- The same packet twice, with a timeout in between. -/
def twoMessages : List Poll :=
  [.message ⟨.v4 #v[127, 0, 0, 1], [1, 2, 3]⟩ (.ok ()), .timeout,
    .message ⟨.v4 #v[127, 0, 0, 1], [1, 2, 3]⟩ (.ok ())]

/-- The socket takes every reply to them. -/
theorem twoMessages_quiet : ∀ poll ∈ twoMessages, poll.Quiet := by
  simp only [twoMessages, List.mem_cons, List.not_mem_nil, or_false]
  rintro poll (rfl | rfl | rfl) <;> trivial

/-- The reply to either message. -/
def noMatchReply : CryptoMsg := .noMatch (.v4 #v[127, 0, 0, 1])

/-- A validator that always answers is served to the end. -/
theorem answering_validator_serves :
    Serves (.table [noMatchReply]) (fun _ msg => .ok (.noMatch msg.source_ip)) twoMessages
      (crypto_child (.table [noMatchReply]) .abort (fun _ msg => .ok (.noMatch msg.source_ip))
        twoMessages) := by
  refine (crypto_child_serves_iff _ .abort _ twoMessages_quiet).mpr
    ⟨fun _ _ _ => ⟨_, rfl⟩, ?_⟩
  intro reply hreply
  obtain rfl : reply = noMatchReply := by
    rcases List.mem_cons.mp hreply with rfl | hreply
    · rfl
    · exact List.mem_singleton.mp hreply
  exact Codec.fits_table (List.mem_singleton_self _) (by decide)

/-- The validator of the regression test: it panics on its first call only. -/
def panicOnce : Validator := fun n msg =>
  if n = 0 then .error "simulated validator panic" else .ok (.noMatch msg.source_ip)

/-- The second message has a reply that fits, but the deployed child is gone, though the profile
    unwinds. -/
theorem panic_aborts_crypto_child :
    replies panicOnce 0 (messages twoMessages) = [noMatchReply]
      ∧ Fits (.table [noMatchReply]) noMatchReply
      ∧ (crypto_child (.table [noMatchReply]) .unwind panicOnce twoMessages).sent = []
      ∧ (crypto_child (.table [noMatchReply]) .unwind panicOnce twoMessages).status = .aborted
      ∧ (crypto_child (.table [noMatchReply]) .unwind panicOnce twoMessages).stderr
          = ["crypto: panicked: simulated validator panic"]
      ∧ ¬Serves (.table [noMatchReply]) panicOnce twoMessages
          (crypto_child (.table [noMatchReply]) .unwind panicOnce twoMessages) :=
  ⟨rfl, Codec.fits_table (List.mem_singleton_self _) (by decide), rfl, rfl, rfl,
    fun h => by cases h.looping⟩

end FwknoxWorker
