import Fwknox.WatchProofs

/-! # Stopping the workers — when the parent's shutdown comes to an end

    `run_parent_loop` leaves its loop, sends `SIGTERM` to the capture worker and waits for
    it, then the same for the crypto worker, and only then flushes and saves.  While it
    waits it no longer reads the socket the crypto worker writes to.

    * `shutdown_live_iff` : from the first wait on, the parent can always still finish if and
      only if that socket has room for the replies that are on their way.  Otherwise the crypto
      worker can use up its buffer and wait in its send, where a signal does not reach it, and
      the parent waits for the worker.
    * `shutdown_can_jam` : so there is no size of the buffer with which every shutdown ends.
    * `finished_clean` : what a run that does end has done. -/

namespace FwknoxSupervise

open FwknoxTypes FwknoxClock FwknoxConfig FwknoxPacket FwknoxMatcher FwknoxPersist FwknoxWorld
open FwknoxReplay FwknoxPipeline FwknoxAuthorization FwknoxNft FwknoxRemoval FwknoxBackend
open FwknoxDaemon Netfilter LruMap EffectProg EffectProg.Prog Schedule

section Step

open Supervisor

variable {σ : Type} {S : Setup σ}

/-! ## What is on its way -/

/-- No worker dies of itself. -/
def Move.Deathless : Move → Prop
  | .captureDies | .cryptoDies => False
  | _ => True

/-- The packet the capture worker has taken, or may still take before it looks at its flag
    again; the empty datagram stands for one that is still to come. -/
def Place.coming : Place CapturedPacket → List CapturedPacket
  | .head => []
  | .receiving => [emptyPacket]
  | .sending p => [p]

/-- A worker that has ended takes none. -/
def Worker.coming (v : Worker CapturedPacket) : List CapturedPacket :=
  if v.process = .running then v.place.coming else []

/-- The crypto worker's replies to some packets, one after the other. -/
def Setup.replies (S : Setup σ) : List CapturedPacket → World → List CryptoMsg
  | [], _ => []
  | p :: ps, w =>
      let r := (validate_capture_msg S.ext S.config.toDaemonConfig p).exec (handler S.env) w
      r.1 :: S.replies ps r.2

/-- Its reply to an empty datagram. -/
def Setup.emptyReply (S : Setup σ) : CryptoMsg :=
  match S.config.access with
  | [] => .noMatch emptyPacket.source_ip
  | _ :: _ => shortReply

/-- The packets the crypto worker has not answered yet. -/
def Supervisor.unanswered (s : Supervisor σ) : List CapturedPacket :=
  s.capture_chan.map Prod.snd ++ s.capture.coming

/-- The replies on their way to the parent's socket. -/
def Supervisor.pending (S : Setup σ) (s : Supervisor σ) : List CryptoMsg :=
  s.crypto.place.held.map Prod.snd ++ S.replies s.unanswered s.world

/-- The crypto worker gets rid of them though the parent does not read. -/
def Supervisor.Drains (S : Setup σ) (s : Supervisor σ) : Prop :=
  FwknoxIpc.Drains S.codec S.to_parent (s.crypto_chan.map Prod.snd) (s.pending S)

/-- The parent has left its loop for good. -/
def Pc.Stopping : Pc → Prop
  | .waitCapture | .killCrypto | .waitCrypto | .flush | .save | .dropCrypto | .dropCapture
  | .done => True
  | _ => False

/-- An empty datagram is told to be too short by the first stanza there is. -/
theorem validate_empty (S : Setup σ) (w : World) :
    (validate_capture_msg S.ext S.config.toDaemonConfig emptyPacket).exec (handler S.env) w
      = (S.emptyReply, w) := by
  have hshort : ∀ stanza : AccessStanza, parse S.ext.crypto [] stanza.master_key.toList
      = .error (.packetTooShort 0 MIN_PACKET_LEN) := by
    intro stanza
    have hkey : stanza.master_key.toList.length = MASTER_KEY_LEN := Vector.length_toList
    simp only [parse, parse_packet, hkey]
    rfl
  rw [validate_capture_msg, Setup.emptyReply]
  cases haccess : S.config.access with
  | nil => rfl
  | cons stanza rest =>
      simp only [emptyPacket, match_packet, hshort]
      rfl

/-- Later packets are answered where the earlier ones leave the clock. -/
theorem replies_append (S : Setup σ) (ps : List CapturedPacket) (w : World) :
    ∃ w', ∀ qs, S.replies (ps ++ qs) w = S.replies ps w ++ S.replies qs w' := by
  induction ps generalizing w with
  | nil => exact ⟨w, fun _ => rfl⟩
  | cons p ps ih =>
      obtain ⟨w', hw'⟩ := ih
        ((validate_capture_msg S.ext S.config.toDaemonConfig p).exec (handler S.env) w).2
      refine ⟨w', fun qs => ?_⟩
      simp only [List.cons_append, Setup.replies, hw']

/-- What the capture worker has in its hands is answered last. -/
theorem pending_capture (S : Setup σ) (s : Supervisor σ) :
    ∃ before w', ∀ v, ({ s with capture := v } : Supervisor σ).pending S
      = before ++ S.replies v.coming w' := by
  obtain ⟨w', hw'⟩ := replies_append S (s.capture_chan.map Prod.snd) s.world
  refine ⟨s.crypto.place.held.map Prod.snd ++ S.replies (s.capture_chan.map Prod.snd) s.world,
    w', fun v => ?_⟩
  simp only [pending, unanswered, hw', List.append_assoc]

/-- With nothing more from the capture worker there is less to get rid of. -/
theorem Supervisor.Drains.idle {s : Supervisor σ} (h : s.Drains S) {v : Worker CapturedPacket}
    (hv : v.coming = []) : ({ s with capture := v } : Supervisor σ).Drains S := by
  obtain ⟨before, w', hpending⟩ := pending_capture S s
  have hs : s.pending S = before ++ S.replies s.capture.coming w' := hpending s.capture
  rw [Drains, hs] at h
  rw [Drains, hpending v, hv, Setup.replies, List.append_nil]
  exact h.left

/-- A worker that has ended, or stands at the head of its loop, has no packet. -/
theorem coming_eq_nil {v : Worker CapturedPacket} (h : v.process ≠ .running ∨ v.place = .head) :
    v.coming = [] := by
  rw [Worker.coming]
  split
  · next hrun =>
    rcases h with hnot | hplace
    · exact absurd hrun hnot
    · rw [hplace]
      rfl
  · rfl

/-- **A PACKET THAT COMES ONLY NOW** is answered last of all, so what its reply takes of the
    buffer does not matter. -/
theorem drains_packet (hempty : FwknoxIpc.Fits S.codec S.emptyReply) {s : Supervisor σ}
    (hrun : s.capture.process = .running) (hplace : s.capture.place = .receiving)
    (p : CapturedPacket) (h : s.Drains S) :
    ({ s with capture := { s.capture with place := .sending p } } : Supervisor σ).Drains S := by
  obtain ⟨before, w', hpending⟩ := pending_capture S s
  have hs : s.pending S = before ++ S.replies s.capture.coming w' := hpending s.capture
  have hcoming : s.capture.coming = [emptyPacket] := by
    rw [Worker.coming, if_pos hrun, hplace]
    rfl
  have hcoming' : ({ s.capture with place := .sending p } : Worker _).coming = [p] :=
    if_pos hrun
  rw [Drains, hs, hcoming] at h
  rw [Drains, hpending, hcoming']
  refine h.replace_last ?_
  rw [validate_empty]
  exact hempty

/-- Once told, the capture worker takes no new packet but the one it is at. -/
theorem capture_step_drains {s : Supervisor σ} (hrun : s.capture.process = .running)
    (htold : s.capture.told = true) (h : s.Drains S) : (s.capture_step S).Drains S := by
  have hexits : s.capture_exits.Drains S := h.idle (coming_eq_nil (.inl Process.noConfusion))
  simp only [capture_step]
  cases hplace : s.capture.place with
  | head =>
      simp only [htold, if_true]
      exact hexits
  | receiving => exact h.idle (coming_eq_nil (.inr rfl))
  | sending p =>
      dsimp only
      split
      · exact hexits
      · split
        · -- the packet is in the socket now, and is answered when it was
          have hcoming : s.capture.coming = [p] := by
            rw [Worker.coming, if_pos hrun, hplace]
            rfl
          simp only [Drains, pending, unanswered, hcoming] at h
          have hhead : ({ s.capture with place := .head } : Worker CapturedPacket).coming = [] :=
            coming_eq_nil (.inr rfl)
          simp only [Drains, pending, unanswered, hhead, List.map_append, List.map_cons,
            List.map_nil, List.append_nil]
          exact h
        · exact h

/-- **THE CRYPTO WORKER PASSES ON WHAT THERE IS**: while it runs, its steps neither add to what
    is on its way nor make room. -/
theorem crypto_step_drains {s : Supervisor σ}
    (hrun : (s.crypto_step S).crypto.process = .running) :
    (s.crypto_step S).Drains S ↔ s.Drains S := by
  cases hplace : s.crypto.place with
  | head =>
      simp only [crypto_step, hplace] at hrun ⊢
      split at hrun
      · cases hrun
      · next htold =>
        rw [if_neg htold]
        simp only [Drains, pending, unanswered, hplace, Place.held]
  | receiving =>
      cases hchan : s.capture_chan with
      | nil =>
          simp only [crypto_step, hplace, hchan, Drains, pending, unanswered, Place.held]
      | cons q rest =>
          simp only [crypto_step, hplace, hchan, Drains, pending, unanswered, Place.held,
            List.map_cons, List.map_nil, List.nil_append, List.cons_append, Setup.replies]
  | sending q =>
      simp only [crypto_step, hplace] at hrun ⊢
      split at hrun
      · next hfits =>
        rw [if_pos hfits]
        split
        · next htakes =>
          simp only [Drains, pending, unanswered, hplace, Place.held, List.map_append,
            List.map_cons, List.map_nil, List.nil_append, List.cons_append, FwknoxIpc.Drains,
            hfits, htakes, true_and, forall_const]
        · exact Iff.rfl
      · cases hrun

/-- Workers, network and signals do not spoil a shutdown that can end. -/
theorem drains_step (hempty : FwknoxIpc.Fits S.codec S.emptyReply) {l : Move} (hl : l.Passive)
    {s : Supervisor σ} (htold : s.capture.process = .running → s.capture.told = true)
    (hrun : (step S l s).crypto.process = .running) (h : s.Drains S) :
    (step S l s).Drains S := by
  cases l with
  | packet p =>
      -- the worker may take one more packet in; an empty one has held its place so far
      simp only [step]
      split
      · next hcap hplace => exact drains_packet hempty hcap hplace p h
      · exact h
  | capture =>
      simp only [step]
      split
      · next hcap => exact capture_step_drains hcap (htold hcap) h
      · exact h
  | crypto =>
      -- the crypto worker moves a reply from one count to the other
      simp only [step] at hrun ⊢
      split at hrun
      · next hcry =>
        rw [if_pos hcry]
        exact (crypto_step_drains hrun).mpr h
      · next hcry =>
        rw [if_neg hcry]
        exact h
  | captureDies =>
      simp only [step]
      split
      · exact h.idle (coming_eq_nil (.inl Process.noConfusion))
      · exact h
  | cryptoDies =>
      simp only [step] at hrun ⊢
      split at hrun
      · cases hrun
      · next hcry =>
        rw [if_neg hcry]
        exact h
  | signal =>
      simp only [step]
      split <;> exact h
  | parent => cases hl
  | interrupt => cases hl
  | fault reason => cases hl

/-! ## The parent after its loop -/

/-- While the parent stops, no more is on its way than the crypto worker can send. -/
structure Draining (S : Setup σ) (s : Supervisor σ) : Prop where
  stopping : s.pc.Stopping
  result : s.result = .ok ()
  roll : OnRoll s
  drains : s.crypto.process = .running → s.Drains S

/-- The parent has told the capture worker to stop. -/
theorem Draining.capture_told {s : Supervisor σ} (h : Draining S s)
    (hrun : s.capture.process = .running) : s.capture.told = true := by
  obtain ⟨hstop, hres, hroll, _⟩ := h
  rw [OnRoll] at hroll
  have never : s.capture.process ≠ .reaped := hrun ▸ Process.noConfusion
  cases hpc : s.pc with
  | waitCapture =>
      rw [hpc] at hroll
      exact hroll.2.1 hrun
  | killCrypto | waitCrypto | flush | save =>
      rw [hpc] at hroll
      exact absurd hroll.1 never
  | dropCrypto =>
      rw [hpc] at hroll
      exact absurd (hroll hres).1 never
  | dropCapture =>
      rw [hpc] at hroll
      exact absurd (hroll.2 hres).1 never
  | done =>
      rw [hpc] at hroll
      exact absurd (hroll.2.2 hres).1 never
  | _ =>
      rw [hpc] at hstop
      exact hstop.elim

/-- A worker that was signalled has the packet it had. -/
@[simp] theorem coming_signal_terminate (v : Worker CapturedPacket) :
    v.signal_terminate.coming = v.coming := by
  rw [Worker.coming, Worker.coming, process_signal_terminate, place_signal_terminate]

/-- So has a worker that was waited for. -/
@[simp] theorem coming_wait (v : Worker CapturedPacket) : v.wait.coming = v.coming := by
  rw [Worker.coming, Worker.coming, place_wait, process_wait]
  cases hp : v.process <;> rfl

/-- A process that was waited for was not running. -/
theorem running_of_wait {α : Type} {v : Worker α} (h : v.wait.process = .running) :
    v.process = .running := by
  rw [process_wait] at h
  split at h
  · cases h
  · exact h

/-- What the parent's statements after its loop leave: they read no socket, and a process it
    waited for was not running. -/
structure WindsDown (S : Setup σ) (s s' : Supervisor σ) : Prop where
  stopping : s'.pc.Stopping
  result : s'.result = s.result
  drains : s'.crypto.process = .running → s.crypto.process = .running ∧ (s.Drains S → s'.Drains S)

/-- So each of these statements does. -/
theorem stopping_parent_step {s : Supervisor σ} (hstop : s.pc.Stopping) (hroll : OnRoll s) :
    WindsDown S s (s.parent_step S) := by
  cases hpc : s.pc with
  | waitCapture =>
      simp only [parent_step, hpc]
      split
      · exact ⟨hstop, rfl, fun hrun => ⟨hrun, id⟩⟩
      · refine ⟨trivial, rfl, fun hrun => ⟨hrun, ?_⟩⟩
        simp only [Drains, pending, unanswered, coming_wait]
        exact id
  | killCrypto =>
      simp only [parent_step, hpc, kill_crypto]
      refine ⟨trivial, rfl, ?_⟩
      simp only [process_signal_terminate, Drains, pending, unanswered, place_signal_terminate]
      exact fun hrun => ⟨hrun, id⟩
  | waitCrypto =>
      simp only [parent_step, hpc]
      split
      · exact ⟨hstop, rfl, fun hrun => ⟨hrun, id⟩⟩
      · refine ⟨trivial, rfl, fun hrun => ⟨running_of_wait hrun, ?_⟩⟩
        simp only [Drains, pending, unanswered, place_wait]
        exact id
  | flush =>
      simp only [parent_step, hpc]
      exact ⟨trivial, rfl, fun hrun => ⟨hrun, id⟩⟩
  | save =>
      -- the save moves the clock on, but there is no worker left to read it
      rw [OnRoll, hpc] at hroll
      simp only [parent_step, hpc]
      refine ⟨trivial, rfl, fun hrun => ?_⟩
      exact Process.noConfusion (hroll.2.symm.trans hrun)
  | dropCrypto =>
      simp only [parent_step, hpc, kill_crypto]
      refine ⟨trivial, rfl, fun hrun => ?_⟩
      have hwas := running_of_wait hrun
      rw [process_signal_terminate] at hwas
      refine ⟨hwas, ?_⟩
      simp only [Drains, pending, unanswered, place_wait, place_signal_terminate]
      exact id
  | dropCapture =>
      simp only [parent_step, hpc, kill_capture]
      refine ⟨trivial, rfl, fun hrun => ⟨hrun, ?_⟩⟩
      simp only [Drains, pending, unanswered, coming_wait, coming_signal_terminate]
      exact id
  | done =>
      simp only [parent_step, hpc]
      exact ⟨hstop, rfl, fun hrun => ⟨hrun, id⟩⟩
  | _ =>
      rw [hpc] at hstop
      exact hstop.elim

/-- A failing call or receive does nothing there. -/
theorem stopping_fault {s : Supervisor σ} (hstop : s.pc.Stopping) (reason : String) :
    step S (.fault reason) s = s ∧ step S .interrupt s = s := by
  cases hpc : s.pc with
  | waitCapture | killCrypto | waitCrypto | flush | save | dropCrypto | dropCapture | done =>
      refine ⟨?_, if_neg (hpc ▸ Pc.noConfusion)⟩
      simp only [step, parent_fault, hpc]
  | _ =>
      rw [hpc] at hstop
      exact hstop.elim

/-- **A SHUTDOWN THAT CAN END KEEPS THAT**, whatever moves come. -/
theorem draining_step (hempty : FwknoxIpc.Fits S.codec S.emptyReply) (l : Move)
    {s : Supervisor σ} (h : Draining S s) : Draining S (step S l s) := by
  obtain ⟨hstop, hres, hroll, hdrains⟩ := id h
  by_cases hp : l.Passive
  · have hb := beside_step (S := S) hp s
    refine ⟨hb.pc ▸ hstop, hb.result.trans hres, onRoll_step l hroll, ?_⟩
    intro hrun
    have hwas : s.crypto.process = .running := by
      rcases hb.crypto.process with hsame | ⟨hr, _⟩
      · exact hsame ▸ hrun
      · exact hr
    exact drains_step hempty hp h.capture_told hrun (hdrains hwas)
  · cases l with
    | parent =>
        obtain ⟨hstop', hres', hkeeps⟩ := stopping_parent_step (S := S) hstop hroll
        refine ⟨hstop', hres'.trans hres, onRoll_step .parent hroll, ?_⟩
        intro hrun
        obtain ⟨hwas, hdrains'⟩ := hkeeps hrun
        exact hdrains' (hdrains hwas)
    | interrupt =>
        rw [(stopping_fault hstop "").2]
        exact h
    | fault reason =>
        rw [(stopping_fault hstop reason).1]
        exact h
    | _ => exact absurd trivial hp

/-! ## Coming to an end -/

/-- The steps a worker is from its end, once told. -/
def Worker.toGo {α : Type} (v : Worker α) : Nat :=
  if v.process = .running then
    match v.place with
    | .head => 1
    | .sending _ => 2
    | .receiving => 3
  else 0

/-- How far the packets are from the parent's socket, and the capture worker from its end. -/
def Supervisor.distance (s : Supervisor σ) : Nat :=
  (if s.capture.process = .running then
    match s.capture.place with
    | .head => 1
    | .sending _ => 6
    | .receiving => 7
  else 0)
    + 4 * s.capture_chan.length
    + if s.crypto.process = .running then
        match s.crypto.place with
        | .receiving => 1
        | .head => 2
        | .sending _ => 3
      else 0

/-- How far the parent is from its end. -/
def Supervisor.rank (s : Supervisor σ) : Nat :=
  match s.pc with
  | .waitCapture => 20 + s.distance
  | .killCrypto => 19
  | .waitCrypto => 10 + s.crypto.toGo
  | .flush => 9
  | .save => 8
  | .dropCrypto => 7
  | .dropCapture => 6
  | _ => 0

/-- No worker is more than three steps from its end. -/
theorem toGo_le {α : Type} (v : Worker α) : v.toGo ≤ 3 := by
  simp only [Worker.toGo]
  split
  · split <;> omega
  · omega

/-- The crypto worker, told to stop and with room for what it holds, gets nearer to its end. -/
theorem crypto_step_toGo {s : Supervisor σ} (hrun : s.crypto.process = .running)
    (htold : s.crypto.told = true) (h : s.Drains S) :
    (s.crypto_step S).crypto.toGo < s.crypto.toGo := by
  simp only [crypto_step]
  cases hplace : s.crypto.place with
  | head =>
      simp only [htold, if_true, crypto_exits, Worker.toGo, hrun, hplace]
      decide
  | receiving =>
      dsimp only
      split
      · simp only [Worker.toGo, hrun, if_true, hplace]
        decide
      · simp only [Worker.toGo, hrun, if_true, hplace]
        decide
  | sending q =>
      simp only [Drains, pending, hplace] at h
      dsimp only
      split
      · next hfits =>
        rw [if_pos (h hfits).1]
        simp only [Worker.toGo, hrun, if_true, hplace]
        decide
      · simp only [crypto_exits, Worker.toGo, hrun, if_true, hplace]
        decide

/-- The crypto worker, not told to stop, brings what it has or finds nearer to the parent. -/
theorem crypto_step_distance {s : Supervisor σ} (hrun : s.crypto.process = .running)
    (htold : s.crypto.told = false) (hfinds : s.crypto.place = .receiving → s.capture_chan ≠ [])
    (hroom : ∀ q, s.crypto.place = .sending q → FwknoxIpc.Fits S.codec q.2 →
      S.to_parent.Takes (s.crypto_chan.map Prod.snd)) :
    (s.crypto_step S).distance < s.distance := by
  simp only [crypto_step]
  cases hplace : s.crypto.place with
  | head =>
      simp only [htold, Bool.false_eq_true, if_false, distance, hrun, if_true, hplace]
      omega
  | receiving =>
      cases hchan : s.capture_chan with
      | nil => exact absurd hchan (hfinds hplace)
      | cons q rest =>
          simp only [distance, hrun, if_true, hplace, hchan, List.length_cons]
          omega
  | sending q =>
      dsimp only
      split
      · next hfits =>
        rw [if_pos (hroom q hplace hfits)]
        simp only [distance, hrun, if_true, hplace]
        omega
      · simp only [crypto_exits, distance, hrun, if_true, hplace, reduceCtorEq, if_false]
        omega

/-- The capture worker gets rid of its packet, or ends because nobody is there to read it. -/
theorem capture_sends_distance {s : Supervisor σ} (hrun : s.capture.process = .running)
    {p : CapturedPacket} (hplace : s.capture.place = .sending p)
    (hroom : s.crypto.process.exited = false → S.to_crypto.Takes (s.capture_chan.map Prod.snd)) :
    (s.capture_step S).distance < s.distance := by
  simp only [capture_step, hplace]
  split
  · simp only [capture_exits, distance, hrun, if_true, hplace, reduceCtorEq, if_false]
    omega
  · next hexit =>
    rw [if_pos (hroom (Bool.not_eq_true _ ▸ hexit))]
    simp only [distance, hrun, if_true, hplace, List.length_append, List.length_singleton]
    omega

/-- While the parent waits for the capture worker, one of the workers can go on. -/
theorem waiting_down {s : Supervisor σ} (hrun : s.capture.process = .running)
    (htold : s.capture.told = true) (hthere : s.crypto.process ≠ .absent)
    (hserves : s.crypto.told = false) (hdrains : s.crypto.process = .running → s.Drains S) :
    (s.capture_step S).distance < s.distance
      ∨ s.crypto.process = .running ∧ (s.crypto_step S).distance < s.distance := by
  cases hplace : s.capture.place with
  | head =>
      -- the loop's head sees the flag and ends the worker
      refine .inl ?_
      simp only [capture_step, hplace, htold, if_true, capture_exits, distance, hrun, reduceCtorEq,
        if_false]
      omega
  | receiving =>
      refine .inl ?_
      simp only [capture_step, hplace, distance, hrun, if_true]
      omega
  | sending p =>
      by_cases hroom : s.crypto.process.exited = false →
          S.to_crypto.Takes (s.capture_chan.map Prod.snd)
      · exact .inl (capture_sends_distance hrun hplace hroom)
      · -- its socket is full, so the crypto worker has something to read
        obtain ⟨hexit, hfull⟩ := Classical.not_imp.mp hroom
        have hcry : s.crypto.process = .running := by
          cases hp : s.crypto.process with
          | running => rfl
          | absent => exact absurd hp hthere
          | zombie => rw [hp] at hexit; cases hexit
          | reaped => rw [hp] at hexit; cases hexit
        refine .inr ⟨hcry, crypto_step_distance hcry hserves ?_ ?_⟩
        · intro _ hnil
          rw [hnil] at hfull
          exact hfull S.to_crypto.takes_nil
        · intro q hq hfits
          have hd := hdrains hcry
          simp only [Drains, pending, hq] at hd
          exact (hd hfits).1

/-- **SOME MOVE BRINGS THE END NEARER**, as long as the crypto worker can send what is on
    its way. -/
theorem draining_down {s : Supervisor σ} (h : Draining S s) :
    s.pc = .done ∨ ∃ l : Move, l.Deathless ∧ (step S l s).rank < s.rank := by
  have htold := h.capture_told
  obtain ⟨hstop, hres, hroll, hdrains⟩ := h
  rw [OnRoll] at hroll
  cases hpc : s.pc with
  | waitCapture =>
      refine .inr ?_
      rw [hpc] at hroll
      have stays : ∀ {l : Move}, l.Passive → (step S l s).pc = .waitCapture :=
        fun hl => (beside_step hl s).pc.trans hpc
      by_cases hrun : s.capture.process = .running
      · -- either the capture worker can move, or the crypto worker makes room for it
        rcases waiting_down hrun (htold hrun) hroll.2.2.1 hroll.2.2.2 hdrains with
          hdown | ⟨hcry, hdown⟩
        · refine ⟨.capture, trivial, ?_⟩
          have hstep : step S .capture s = s.capture_step S := if_pos hrun
          simp only [rank, stays (l := .capture) trivial, hpc]
          rw [hstep]
          omega
        · refine ⟨.crypto, trivial, ?_⟩
          have hstep : step S .crypto s = s.crypto_step S := if_pos hcry
          simp only [rank, stays (l := .crypto) trivial, hpc]
          rw [hstep]
          omega
      · refine ⟨.parent, trivial, ?_⟩
        have hstep : (step S .parent s).pc = .killCrypto := by
          simp only [step, parent_step, hpc, if_neg hrun]
        simp only [rank, hstep, hpc]
        omega
  | killCrypto =>
      -- the rank reserves three steps for the worker that is about to be told
      refine .inr ⟨.parent, trivial, ?_⟩
      have hstep : (step S .parent s).pc = .waitCrypto := by simp only [step, parent_step, hpc]
      have hle := toGo_le (step S .parent s).crypto
      simp only [rank, hstep, hpc]
      omega
  | waitCrypto =>
      refine .inr ?_
      rw [hpc] at hroll
      by_cases hrun : s.crypto.process = .running
      · refine ⟨.crypto, trivial, ?_⟩
        have hpc' : (step S .crypto s).pc = .waitCrypto :=
          (beside_step (l := .crypto) trivial s).pc.trans hpc
        have hdown := crypto_step_toGo hrun (hroll.2.2 hrun) (hdrains hrun)
        have hstep : step S .crypto s = s.crypto_step S := if_pos hrun
        simp only [rank, hpc', hpc]
        rw [hstep]
        omega
      · refine ⟨.parent, trivial, ?_⟩
        have hstep : (step S .parent s).pc = .flush := by
          simp only [step, parent_step, hpc, if_neg hrun]
        simp only [rank, hstep, hpc]
        omega
  | flush | save | dropCrypto | dropCapture =>
      -- nobody is waited for any more
      refine .inr ⟨.parent, trivial, ?_⟩
      simp only [rank, step, parent_step, hpc]
      decide
  | done => exact .inl rfl
  | _ =>
      rw [hpc] at hstop
      exact hstop.elim

/-! ## Jams -/

/-- The crypto worker waits in a send that nobody reads, and the parent waits for it. -/
structure Jammed (S : Setup σ) (s : Supervisor σ) : Prop where
  waiting : s.pc = .waitCapture ∨ s.pc = .killCrypto ∨ s.pc = .waitCrypto
  running : s.crypto.process = .running
  sending : ∃ q, s.crypto.place = .sending q ∧ FwknoxIpc.Fits S.codec q.2
  full : ¬S.to_parent.Takes (s.crypto_chan.map Prod.snd)

/-- Its step is to go on waiting. -/
theorem crypto_step_jammed {s : Supervisor σ} (h : Jammed S s) : s.crypto_step S = s := by
  obtain ⟨q, hplace, hfits⟩ := h.sending
  simp only [crypto_step, hplace]
  rw [if_pos hfits, if_neg h.full]

/-- The capture worker touches neither the other worker nor the parent's socket. -/
theorem capture_step_crypto (s : Supervisor σ) :
    (s.capture_step S).crypto = s.crypto ∧ (s.capture_step S).crypto_chan = s.crypto_chan := by
  simp only [capture_step]
  cases s.capture.place with
  | head => dsimp only; split <;> exact ⟨rfl, rfl⟩
  | receiving => exact ⟨rfl, rfl⟩
  | sending p =>
      dsimp only
      split
      · exact ⟨rfl, rfl⟩
      · split <;> exact ⟨rfl, rfl⟩

/-- **A JAM IS FOR EVER**: no move but a death ends it. -/
theorem jammed_step (l : Move) {s : Supervisor σ} (hl : l.Deathless) (h : Jammed S s) :
    Jammed S (step S l s) := by
  have hstop : s.pc.Stopping := by
    rcases h.waiting with hpc | hpc | hpc <;> (rw [hpc]; trivial)
  cases l with
  | packet p =>
      simp only [step]
      split <;> exact ⟨h.waiting, h.running, h.sending, h.full⟩
  | capture =>
      -- the capture worker writes to the other socket
      have hb := beside_step (S := S) (l := .capture) trivial s
      have hsame : (step S .capture s).crypto = s.crypto
          ∧ (step S .capture s).crypto_chan = s.crypto_chan := by
        simp only [step]
        split
        · exact capture_step_crypto s
        · exact ⟨rfl, rfl⟩
      refine ⟨?_, ?_, ?_, ?_⟩
      · rw [hb.pc]
        exact h.waiting
      · rw [hsame.1]
        exact h.running
      · rw [hsame.1]
        exact h.sending
      · rw [hsame.2]
        exact h.full
  | crypto =>
      -- its reply does not fit, and nobody reads
      have hsame : step S .crypto s = s := (if_pos h.running).trans (crypto_step_jammed h)
      rw [hsame]
      exact h
  | captureDies => cases hl
  | cryptoDies => cases hl
  | parent =>
      obtain ⟨hwait, hrun, hsend, hfull⟩ := h
      rcases hwait with hpc | hpc | hpc
      · simp only [step, parent_step, hpc]
        split
        · exact ⟨.inl hpc, hrun, hsend, hfull⟩
        · exact ⟨.inr (.inl rfl), hrun, hsend, hfull⟩
      · simp only [step, parent_step, hpc, kill_crypto]
        refine ⟨.inr (.inr rfl), ?_, ?_, hfull⟩
        · rw [process_signal_terminate]
          exact hrun
        · rw [place_signal_terminate]
          exact hsend
      · -- the wait for a running worker does not return
        simp only [step, parent_step, hpc, hrun, if_true]
        exact ⟨.inr (.inr hpc), hrun, hsend, hfull⟩
  | interrupt =>
      rw [(stopping_fault hstop "").2]
      exact h
  | fault reason =>
      rw [(stopping_fault hstop reason).1]
      exact h
  | signal =>
      simp only [step]
      split <;> exact ⟨h.waiting, h.running, h.sending, h.full⟩

/-- The parent waits for the capture worker, the crypto worker serves, and more is on its way
    than its socket takes. -/
structure Filling (S : Setup σ) (s : Supervisor σ) : Prop where
  waiting : s.pc = .waitCapture
  running : s.crypto.process = .running
  serving : s.crypto.told = false
  excess : ¬s.Drains S

/-- The crypto worker's step, when it goes on, keeps the excess. -/
theorem Filling.crypto_step {s : Supervisor σ} (h : Filling S s)
    (hrun : (s.crypto_step S).crypto.process = .running) : Filling S (step S .crypto s) := by
  have hb := beside_step (S := S) (l := .crypto) trivial s
  have hstep : step S .crypto s = s.crypto_step S := if_pos h.running
  refine ⟨hb.pc.trans h.waiting, hstep ▸ hrun, hb.crypto.told.trans h.serving, ?_⟩
  rw [hstep, crypto_step_drains hrun]
  exact h.excess

/-- **A BACKLOG RUNS INTO THE JAM**: the workers can pass the messages on until the crypto
    worker waits. -/
theorem filling_down {s : Supervisor σ} (h : Filling S s) :
    Jammed S s ∨ ∃ l : Move, l.Deathless ∧ Filling S (step S l s)
      ∧ (step S l s).distance < s.distance := by
  obtain ⟨hwait, hrun, hserv, hexcess⟩ := id h
  have hcrypto : step S .crypto s = s.crypto_step S := if_pos hrun
  cases hplace : s.crypto.place with
  | sending q =>
      -- a reply that is refused would end the worker, and with it the excess
      have hfits : FwknoxIpc.Fits S.codec q.2 := by
        by_contra hnot
        refine hexcess ?_
        simp only [Drains, pending, hplace]
        exact fun hfits => absurd hfits hnot
      by_cases htakes : S.to_parent.Takes (s.crypto_chan.map Prod.snd)
      · refine .inr ⟨.crypto, trivial, h.crypto_step ?_, ?_⟩
        · simp only [Supervisor.crypto_step, hplace]
          rw [if_pos hfits, if_pos htakes]
          exact hrun
        · rw [hcrypto]
          exact crypto_step_distance hrun hserv (fun hr => by rw [hplace] at hr; cases hr)
            (fun _ _ _ => htakes)
      · exact .inl ⟨.inl hwait, hrun, ⟨q, hplace, hfits⟩, htakes⟩
  | head =>
      refine .inr ⟨.crypto, trivial, h.crypto_step ?_, ?_⟩
      · simp only [Supervisor.crypto_step, hplace, hserv, Bool.false_eq_true, if_false]
        exact hrun
      · rw [hcrypto]
        exact crypto_step_distance hrun hserv (fun hr => by rw [hplace] at hr; cases hr)
          (fun q hq => by rw [hplace] at hq; cases hq)
  | receiving =>
      cases hchan : s.capture_chan with
      | cons q rest =>
          refine .inr ⟨.crypto, trivial, h.crypto_step ?_, ?_⟩
          · simp only [Supervisor.crypto_step, hplace, hchan]
            exact hrun
          · rw [hcrypto]
            exact crypto_step_distance hrun hserv (fun _ => hchan ▸ List.cons_ne_nil _ _)
              (fun q hq => by rw [hplace] at hq; cases hq)
      | nil =>
          -- the sockets hold nothing more, so the capture worker has the rest
          have hcoming : s.capture.coming ≠ [] := by
            intro hnil
            refine hexcess ?_
            simp only [Drains, pending, unanswered, hplace, hchan, hnil]
            trivial
          have hcap : s.capture.process = .running := by
            by_contra hnot
            exact hcoming (coming_eq_nil (.inl hnot))
          cases hcplace : s.capture.place with
          | head => exact absurd (coming_eq_nil (.inr hcplace)) hcoming
          | receiving =>
              refine .inr ⟨.packet emptyPacket, trivial, ?_⟩
              simp only [step, hcap, hcplace]
              refine ⟨⟨hwait, hrun, hserv, ?_⟩, ?_⟩
              · simp only [Drains, pending, unanswered, Worker.coming, hcap, hcplace, if_true,
                  Place.coming] at hexcess ⊢
                exact hexcess
              · simp only [distance, hcap, hcplace, if_true]
                omega
          | sending p =>
              refine .inr ⟨.capture, trivial, ?_⟩
              have hopen : s.crypto.process.exited = false := by
                rw [hrun]
                rfl
              have htakes : S.to_crypto.Takes (s.capture_chan.map Prod.snd) := by
                rw [hchan]
                exact S.to_crypto.takes_nil
              have hdown := capture_sends_distance (S := S) hcap hcplace (fun _ => htakes)
              have hstep : step S .capture s = s.capture_step S := if_pos hcap
              rw [hstep]
              refine ⟨?_, hdown⟩
              simp only [capture_step, hcplace, hopen, Bool.false_eq_true, if_false]
              rw [if_pos htakes]
              refine ⟨hwait, hrun, hserv, ?_⟩
              simp only [Drains, pending, unanswered, Worker.coming, hcap, hcplace, if_true, hchan,
                Place.coming] at hexcess ⊢
              exact hexcess

/-- **WHEN THE SHUTDOWN COMES TO AN END**: at the first wait, the parent can always still
    finish, whatever packets, signals and steps come first and without any help from outside,
    if and only if its socket has room for the replies that are on their way, up to the first
    that is too large to send (or the crypto worker is dead). -/
theorem shutdown_live_iff (S : Setup σ) (hempty : FwknoxIpc.Fits S.codec S.emptyReply)
    (moves : List Move) {w : World} (hw : w.calls = []) (f : σ)
    (hpc : (supervise S moves w f).pc = .waitCapture) :
    Live (step S) Move.Deathless (fun s => s.pc = .done) (supervise S moves w f)
      ↔ ((supervise S moves w f).crypto.process = .running →
          (supervise S moves w f).Drains S) := by
  have hroll : OnRoll (supervise S moves w f) := onRoll_supervise moves w f
  have hcourse : OnCourse S f (supervise S moves w f) := onCourse_supervise moves hw f
  generalize supervise S moves w f = s at hpc hroll hcourse ⊢
  constructor
  · intro hlive hrun
    by_contra hover
    rw [OnRoll, hpc] at hroll
    have hfill : Filling S s := ⟨hpc, hrun, hroll.2.2.2, hover⟩
    refine not_live_of_trap (Jammed S) (fun l s hl h => jammed_step l hl h) ?_ ?_ hlive
    · intro t ht hdone
      rcases ht.waiting with h | h | h <;> exact Pc.noConfusion (h.symm.trans hdone)
    · exact canReach_of_rank (Filling S) distance (fun t ht => filling_down ht) hfill
  · intro hdrains
    rw [OnCourse, hpc] at hcourse
    exact live_of_rank (Draining S) rank (fun l t _ h => draining_step hempty l h)
      (fun t ht => draining_down ht) ⟨by rw [hpc]; trivial, hcourse.2, hroll, hdrains⟩

/-- The sample run up to the first wait, with one more packet in the capture worker's hands: the
    flag is up because nft was run. -/
def stopMoves : List Move :=
  sampleMoves ++ [.capture, .packet emptyPacket] ++ List.replicate 4 .parent

/-- There is room for its reply. -/
theorem sample_shutdown_live :
    (supervise sampleSetup stopMoves emptyWorld leftDriver).pc = .waitCapture
      ∧ (supervise sampleSetup stopMoves emptyWorld leftDriver).pending sampleSetup = [shortReply]
      ∧ Live (step sampleSetup) Move.Deathless (fun s => s.pc = .done)
          (supervise sampleSetup stopMoves emptyWorld leftDriver) := by
  have hpc : (supervise sampleSetup stopMoves emptyWorld leftDriver).pc = .waitCapture := by
    decide +kernel
  have hpending : (supervise sampleSetup stopMoves emptyWorld leftDriver).pending sampleSetup
      = [shortReply] := by
    decide +kernel
  have hempty : FwknoxIpc.Fits sampleSetup.codec sampleSetup.emptyReply :=
    FwknoxIpc.Codec.fits_table (by decide) (by decide)
  refine ⟨hpc, hpending, (shutdown_live_iff sampleSetup hempty stopMoves rfl leftDriver hpc).mpr ?_⟩
  intro _
  rw [Drains, hpending]
  decide +kernel

/-! ## A run that jams -/

/-- A step of a process, or a packet: no death, no signal, and nothing fails. -/
def Move.Quiet : Move → Prop
  | .packet _ | .capture | .crypto | .parent => True
  | .captureDies | .cryptoDies | .interrupt | .fault _ | .signal => False

/-- Started and not told to stop; `k` replies to empty datagrams wait for the parent, and the
    crypto worker stands at `place`. -/
structure Loaded (S : Setup σ) (k : Nat) (place : Place (Cause × CryptoMsg) → Prop)
    (s : Supervisor σ) : Prop where
  pc : s.pc = .check
  handlers : s.handlers = true
  flag : s.flag = false
  capture : s.capture = ⟨.running, false, .head⟩
  capture_chan : s.capture_chan = []
  running : s.crypto.process = .running
  serving : s.crypto.told = false
  place : place s.crypto.place
  crypto_chan : s.crypto_chan.map Prod.snd = List.replicate k S.emptyReply

/-- The crypto worker has one more of these replies in its hands. -/
def Holds (S : Setup σ) (place : Place (Cause × CryptoMsg)) : Prop :=
  ∃ q, place = .sending q ∧ q.2 = S.emptyReply

/-- The start, when the firewall can be initialized. -/
theorem loaded_boot (w : World) {f : σ} (hstart : (FwknoxDaemon.start S.toHost f).1 = .ok ()) :
    Loaded S 0 (· = .head) (supervise S (List.replicate 7 .parent) w f) := by
  generalize hs : FwknoxDaemon.start S.toHost f = started at hstart
  obtain ⟨answer, f'⟩ := started
  have hanswer : answer = .ok () := hstart
  subst hanswer
  simp only [supervise, List.replicate, Schedule.run, step, boot, parent_step, hs]
  exact ⟨rfl, rfl, rfl, rfl, rfl, rfl, rfl, rfl, rfl⟩

/-- One empty datagram through the capture worker and into the crypto worker's hands. -/
def oneMore : List Move := [.capture, .packet emptyPacket, .capture, .crypto, .crypto]

/-- One more packet, captured and validated, leaves the crypto worker with a reply that does not
    go. -/
theorem loaded_oneMore {k : Nat} {s : Supervisor σ} (h : Loaded S k (· = .head) s) :
    Loaded S k (Holds S) (Schedule.run (step S) oneMore s) := by
  obtain ⟨hpc, hhand, hflag, hcap, hchan, hrun, hserv, hplace, hcchan⟩ := h
  simp only [oneMore, Schedule.run, step, hcap, if_true, capture_step, Bool.false_eq_true,
    if_false, hrun, Process.exited, hchan, List.map_nil, S.to_crypto.takes_nil, List.nil_append,
    crypto_step, hplace, hserv, validate_empty]
  exact ⟨hpc, hhand, hflag, rfl, rfl, rfl, rfl, ⟨_, rfl, rfl⟩, hcchan⟩

/-- With room in the parent's socket the reply goes there. -/
theorem loaded_sent (hempty : FwknoxIpc.Fits S.codec S.emptyReply) {k : Nat} {s : Supervisor σ}
    (h : Loaded S k (Holds S) s) (htakes : S.to_parent.Takes (List.replicate k S.emptyReply)) :
    Loaded S (k + 1) (· = .head) (step S .crypto s) := by
  obtain ⟨hpc, hhand, hflag, hcap, hchan, hrun, hserv, ⟨q, hplace, hq⟩, hcchan⟩ := h
  rw [← hcchan] at htakes
  rw [← hq] at hempty
  simp only [step, hrun, if_true, crypto_step, hplace, hempty, htakes]
  refine ⟨hpc, hhand, hflag, hcap, hchan, rfl, hserv, rfl, ?_⟩
  rw [List.map_append, hcchan, List.replicate_succ', ← hq]
  rfl

/-- The workers can use up the buffer while the parent is busy. -/
theorem canReach_loaded (hempty : FwknoxIpc.Fits S.codec S.emptyReply) (w : World) {f : σ}
    (hstart : (FwknoxDaemon.start S.toHost f).1 = .ok ()) {k : Nat}
    (hk : ∀ j < k, S.to_parent.Takes (List.replicate j S.emptyReply)) :
    CanReach (step S) Move.Quiet (Loaded S k (Holds S)) (.boot w f) := by
  have one : ∀ {j s}, Loaded S j (· = .head) s →
      CanReach (step S) Move.Quiet (Loaded S j (Holds S)) s := by
    intro j s hs
    refine ⟨oneMore, ?_, loaded_oneMore hs⟩
    simp only [oneMore, List.forall_mem_cons, Move.Quiet, true_and]
    exact List.forall_mem_nil _
  induction k with
  | zero =>
      refine CanReach.trans ⟨List.replicate 7 .parent, ?_, loaded_boot w hstart⟩ fun t ht => one ht
      intro l hl
      rw [List.eq_of_mem_replicate hl]
      trivial
  | succ k ih =>
      have hbefore := ih fun j hj => hk j (Nat.lt_succ_of_lt hj)
      refine hbefore.trans fun t ht => ?_
      have hsent := loaded_sent hempty ht (hk k (Nat.lt_succ_self k))
      exact CanReach.head (show Move.Quiet .crypto from trivial) (one hsent)

/-- However large the buffer is, some number of these replies uses it up. -/
theorem used_up (S : Setup σ) :
    ∃ k, ¬S.to_parent.Takes (List.replicate k S.emptyReply)
      ∧ ∀ j < k, S.to_parent.Takes (List.replicate j S.emptyReply) := by
  have hex : ∃ k, ¬S.to_parent.Takes (List.replicate k S.emptyReply) := by
    refine ⟨S.to_parent.room, ?_⟩
    rw [FwknoxIpc.Socket.Takes, FwknoxIpc.Socket.weight_replicate, Nat.not_lt]
    exact Nat.le_mul_of_pos_right _ (S.to_parent.cost_pos _)
  exact ⟨Nat.find hex, Nat.find_spec hex, fun j hj => Classical.not_not.mp (Nat.find_min hex hj)⟩

/-- After the signal the parent takes two steps to the wait it does not come back from. -/
theorem jammed_of_loaded (hempty : FwknoxIpc.Fits S.codec S.emptyReply) {k : Nat}
    {s : Supervisor σ} (h : Loaded S k (Holds S) s)
    (hfull : ¬S.to_parent.Takes (List.replicate k S.emptyReply)) :
    (step S .signal s).flag = true
      ∧ Jammed S (Schedule.run (step S) [.parent, .parent] (step S .signal s)) := by
  obtain ⟨hpc, hhand, hflag, hcap, hchan, hrun, hserv, ⟨q, hplace, hq⟩, hcchan⟩ := h
  rw [← hcchan] at hfull
  simp only [Schedule.run, step, hhand, if_true, parent_step, hpc, kill_capture]
  exact ⟨trivial, .inl rfl, hrun, ⟨q, hplace, hq.symm ▸ hempty⟩, hfull⟩

/-- **NO BUFFER IS SAFE**: whatever the sockets hold, there is a run in which no worker dies and
    no call fails, the stop signal comes, and from then on the parent waits for its workers for
    ever: it neither flushes nor saves. -/
theorem shutdown_can_jam (S : Setup σ) (hempty : FwknoxIpc.Fits S.codec S.emptyReply) (w : World)
    {f : σ} (hstart : (FwknoxDaemon.start S.toHost f).1 = .ok ()) :
    ∃ before after : List Move, (∀ l ∈ before ++ after, l.Quiet)
      ∧ (supervise S before w f).flag = false
      ∧ (supervise S (before ++ [.signal]) w f).flag = true
      ∧ ∀ rest : List Move, (∀ l ∈ rest, l.Deathless) →
        (supervise S (before ++ .signal :: after ++ rest) w f).pc = .waitCapture
          ∨ (supervise S (before ++ .signal :: after ++ rest) w f).pc = .killCrypto
          ∨ (supervise S (before ++ .signal :: after ++ rest) w f).pc = .waitCrypto := by
  obtain ⟨k, hfull, hroom⟩ := used_up S
  obtain ⟨before, hquiet, hloaded⟩ := canReach_loaded hempty w hstart hroom
  obtain ⟨hflag, hjammed⟩ := jammed_of_loaded hempty hloaded hfull
  refine ⟨before, [.parent, .parent], ?_, hloaded.flag, ?_, ?_⟩
  · intro l hl
    rcases List.mem_append.mp hl with hbefore | hafter
    · exact hquiet l hbefore
    · rw [List.eq_of_mem_replicate (n := 2) hafter]
      trivial
  · rw [supervise, run_append]
    exact hflag
  · intro rest hrest
    rw [supervise, run_append, run_append]
    exact (run_invariant (P := Jammed S) (fun l t hl ht => jammed_step l hl ht) hrest
      hjammed).waiting

/-- The sample host can be jammed. -/
theorem sample_can_jam :
    ∃ before after : List Move, (∀ l ∈ before ++ after, l.Quiet)
      ∧ (supervise sampleSetup before emptyWorld leftDriver).flag = false
      ∧ (supervise sampleSetup (before ++ [.signal]) emptyWorld leftDriver).flag = true
      ∧ ∀ rest : List Move, (∀ l ∈ rest, l.Deathless) →
        (supervise sampleSetup (before ++ .signal :: after ++ rest) emptyWorld leftDriver).pc
            = .waitCapture
          ∨ (supervise sampleSetup (before ++ .signal :: after ++ rest) emptyWorld leftDriver).pc
            = .killCrypto
          ∨ (supervise sampleSetup (before ++ .signal :: after ++ rest) emptyWorld leftDriver).pc
            = .waitCrypto :=
  shutdown_can_jam sampleSetup (FwknoxIpc.Codec.fits_table (by decide) (by decide)) emptyWorld
    (by decide +kernel)

/-! ## What a finished run has done -/

/-- Only the handles are left to drop. -/
def Pc.Leaving : Pc → Prop
  | .dropCrypto | .dropCapture | .done => True
  | _ => False

/-- After the save the file has the cache's entries, unless the write failed. -/
def Saved (S : Setup σ) (s : Supervisor σ) : Prop :=
  s.pc.Leaving → s.result = .ok () →
    (∃ k, s.world.file = some (cache_text (S.env.order k s.world.cache.map.entries)))
      ∨ ∃ k, S.env.persist k ≠ none

/-- A new turn is before the save. -/
theorem saved_next_turn (s : Supervisor σ) : Saved S (s.next_turn S) := by
  simp only [next_turn]
  split <;> exact fun hleave => hleave.elim

/-- Each statement of the parent keeps it; the save is the one that establishes it. -/
theorem saved_parent_step {s : Supervisor σ} (h : Saved S s) : Saved S (s.parent_step S) := by
  cases hpc : s.pc with
  | start =>
      simp only [parent_step, hpc]
      split
      · intro _ hok
        cases hok
      · exact fun hleave => hleave.elim
  | handle | prune =>
      simp only [parent_step, hpc]
      split
      · exact fun hleave => hleave.elim
      · intro hleave
        rw [perform_next_pc, hpc] at hleave
        exact hleave.elim
  | reap =>
      simp only [parent_step, hpc]
      exact saved_next_turn _
  | save =>
      -- the file is written here, from the cache as it is
      obtain ⟨w', hw', hcache, _, _, hfile⟩ :=
        save_world S.config.replay.cache_path S.env s.world
      simp only [parent_step, hpc, hw']
      intro _ _
      rw [hcache]
      exact hfile
  | dropCrypto | dropCapture =>
      simp only [parent_step, hpc]
      exact fun _ => h (hpc ▸ trivial)
  | done =>
      simp only [parent_step, hpc]
      exact h
  | check | receive =>
      simp only [parent_step, hpc]
      split <;> exact fun hleave => hleave.elim
  | waitCapture | waitCrypto =>
      simp only [parent_step, hpc]
      split
      · intro hleave
        rw [hpc] at hleave
        exact hleave.elim
      · exact fun hleave => hleave.elim
  | _ =>
      simp only [parent_step, hpc]
      exact fun hleave => hleave.elim

/-- Every move keeps it: the workers have neither cache nor file. -/
theorem saved_step (l : Move) {s : Supervisor σ} (h : Saved S s) : Saved S (step S l s) := by
  by_cases hp : l.Passive
  · have hb := beside_step (S := S) hp s
    rw [Saved, hb.pc, hb.result, hb.file, hb.cache]
    exact h
  · cases l with
    | parent => exact saved_parent_step h
    | interrupt =>
        simp only [step]
        split
        · exact fun hleave => hleave.elim
        · exact h
    | fault reason =>
        simp only [step]
        cases hpc : s.pc with
        | pairs | forkCapture | forkCrypto | handlers | timeout =>
            simp only [parent_fault, hpc]
            intro _ hok
            cases hok
        | register =>
            simp only [parent_fault, hpc]
            exact fun hleave => hleave.elim
        | reap =>
            simp only [parent_fault, hpc]
            exact saved_next_turn _
        | _ =>
            simp only [parent_fault, hpc]
            exact h
    | _ => exact absurd trivial hp

/-- It holds along every run. -/
theorem saved_supervise (moves : List Move) (w : World) (f : σ) :
    Saved S (supervise S moves w f) :=
  run_invariant (Q := fun _ => True) (P := Saved S) (fun l _ _ h => saved_step l h)
    (fun _ _ => trivial) (fun hleave => hleave.elim)

/-- **A FAILED START LEAVES NOTHING BEHIND**: a run that returns an error has opened no rule, and
    has told every worker it forked to stop. -/
theorem failed_start (S : Setup σ) (moves : List Move) {w : World} (hw : w.calls = []) (f : σ)
    (hdone : (supervise S moves w f).pc = .done) {e : RunError}
    (herr : (supervise S moves w f).result = .error e) :
    (supervise S moves w f).world.calls = []
      ∧ (supervise S moves w f).firewall = (FwknoxDaemon.start S.toHost f).2
      ∧ ((supervise S moves w f).capture.process = .running →
          (supervise S moves w f).capture.told = true)
      ∧ ((supervise S moves w f).crypto.process = .running →
          (supervise S moves w f).crypto.told = true) := by
  have hcourse := onCourse_supervise (S := S) moves hw f
  have hroll := onRoll_supervise (S := S) moves w f
  rw [OnCourse, hdone, herr] at hcourse
  rw [OnRoll, hdone] at hroll
  obtain ⟨hfw, hcalls⟩ := hcourse
  refine ⟨hcalls, ?_, hroll.1, hroll.2.1⟩
  rw [hfw, opened, hcalls]
  rfl

/-- The second fork fails. -/
theorem sample_failed_start :
    (supervise sampleSetup [.parent, .parent, .parent, .fault "EAGAIN", .parent] emptyWorld
        leftDriver).result = .error (.syscall "fork" "EAGAIN")
      ∧ ((supervise sampleSetup [.parent, .parent, .parent, .fault "EAGAIN", .parent] emptyWorld
          leftDriver).capture.process = .running →
        (supervise sampleSetup [.parent, .parent, .parent, .fault "EAGAIN", .parent] emptyWorld
          leftDriver).capture.told = true) := by
  have herr : (supervise sampleSetup [.parent, .parent, .parent, .fault "EAGAIN", .parent]
      emptyWorld leftDriver).result = .error (.syscall "fork" "EAGAIN") := by decide +kernel
  exact ⟨herr, (failed_start sampleSetup [.parent, .parent, .parent, .fault "EAGAIN", .parent] rfl
    leftDriver (by decide +kernel) herr).2.2.1⟩

end Step

/-! ## Over nftables -/

section Nft

variable {R : Reader Ipv4Addr Protocol}

/-- The flush at the exit allows nothing new. -/
theorem confined_closed (S : Setup NftDriver) (hB : S.backend = nft R) {rules : List AccessRule}
    {d : NftDriver} (h : Confined rules d.backend) :
    Confined rules (closed S.toHost d).backend := by
  simp only [closed, hB]
  split
  · exact h.now.flush d.applier
  · exact h

/-- **WHAT THE FIREWALL ALLOWS WAS EARNED**, in the separated mode too: after a start that
    flushes, whatever dies or fails, an allowed packet goes back to a captured packet of this
    run that authorizes it. -/
theorem supervised_allowed_was_earned (L : ReaderLaws R) (S : Setup NftDriver)
    (hB : S.backend = nft R) (hv : S.config.toDaemonConfig.validate = .ok ())
    (hflush : S.config.flush_rules_at_init = true) {f : NftDriver} (hf : f.applier.fails = none)
    {w : World} (hw : w.calls = []) (moves : List Move)
    (hstarted : (supervise S moves w f).pc ≠ .start) {p : Packet Ipv4Addr Protocol}
    (hp : (supervise S moves w f).firewall.backend.allows p = true) :
    ∃ c rule, Caused S.ext S.config.toDaemonConfig S.env (supervise S moves w f).captured c rule
      ∧ rule.source_ip = .v4 p.saddr ∧ (⟨p.l4proto, p.dport⟩ : PortProto) ∈ rule.ports := by
  have hacc := (sound_supervise hv moves hw f).2.accounted
  have hcourse := onCourse_supervise (S := S) moves hw f
  have hopened : Confined ((supervise S moves w f).world.calls.map Prod.snd)
      (opened S f (supervise S moves w f).world.calls).backend := by
    rw [opened, hB]
    exact confined_open_all L _ (start_confined hB hflush hf)
  have hclosed := confined_closed S hB hopened
  -- at every statement after the start the firewall is one of the two
  have hconf : Confined ((supervise S moves w f).world.calls.map Prod.snd)
      (supervise S moves w f).firewall.backend := by
    rw [OnCourse] at hcourse
    cases hpc : (supervise S moves w f).pc with
    | start => exact absurd hpc hstarted
    | save =>
        rw [hpc] at hcourse
        rw [hcourse.1]
        exact hclosed
    | dropCrypto | dropCapture | done =>
        rw [hpc] at hcourse
        cases hr : (supervise S moves w f).result with
        | ok u =>
            rw [hr] at hcourse
            rw [show (supervise S moves w f).firewall = _ from hcourse]
            exact hclosed
        | error e =>
            rw [hr] at hcourse
            rw [show (supervise S moves w f).firewall = _ from hcourse.1]
            exact hopened
    | _ =>
        rw [hpc] at hcourse
        rw [hcourse.1]
        exact hopened
  obtain ⟨rule, hrule, hip, hport⟩ := hconf.named p hp
  obtain ⟨c, hc, rfl⟩ := List.mem_map.mp hrule
  exact ⟨c.1, c.2, hacc.caused c hc, hip, hport⟩

/-- The sample run's rule goes back to its packet. -/
theorem sample_supervised_rule_earned :
    (supervise sampleSetup sampleMoves emptyWorld leftDriver).firewall.backend.allows
        ⟨sampleIp, .tcp, 22⟩ = true
      ∧ ∃ c rule, Caused sampleExt sampleConfig sampleEnv
          (supervise sampleSetup sampleMoves emptyWorld leftDriver).captured c rule
        ∧ rule.source_ip = .v4 sampleIp ∧ (⟨.tcp, 22⟩ : PortProto) ∈ rule.ports := by
  have hallowed : (supervise sampleSetup sampleMoves emptyWorld leftDriver).firewall.backend.allows
      ⟨sampleIp, .tcp, 22⟩ = true := by decide +kernel
  exact ⟨hallowed, supervised_allowed_was_earned textReader_laws sampleSetup rfl
    sampleConfig_validate rfl rfl rfl sampleMoves (by decide +kernel) hallowed⟩

/-- **WHAT A FINISHED RUN HAS DONE**: both workers are waited for, and a signal has gone to each of
    their process numbers after that.  Nothing is allowed any more when the exit flushes and nft
    runs, and the saved file reads back as the cache when the write goes through. -/
theorem finished_clean (S : Setup NftDriver) (hB : S.backend = nft R) (moves : List Move)
    {w : World} (hw : w.calls = []) (f : NftDriver)
    (hdone : (supervise S moves w f).pc = .done) (hok : (supervise S moves w f).result = .ok ()) :
    ((supervise S moves w f).capture.process = .reaped
        ∧ (supervise S moves w f).crypto.process = .reaped
        ∧ 2 ≤ (supervise S moves w f).strays)
      ∧ (S.config.flush_rules_at_exit = true →
        (opened S f (supervise S moves w f).world.calls).applier.fails = none →
        ∀ p, (supervise S moves w f).firewall.backend.allows p = false)
      ∧ ((∀ k, S.env.persist k = none) →
        ∃ m, read_cache_file S.config.replay.cache_path (.ok (supervise S moves w f).world.file)
            = .ok m
          ∧ m.entries.Perm (supervise S moves w f).world.cache.map.entries) := by
  have hroll := onRoll_supervise (S := S) moves w f
  have hcourse := onCourse_supervise (S := S) moves hw f
  have hsaved := saved_supervise (S := S) moves w f
  rw [OnRoll, hdone] at hroll
  rw [OnCourse, hdone, hok] at hcourse
  refine ⟨hroll.2.2 hok, ?_, ?_⟩
  · intro hexit hruns p
    rw [show (supervise S moves w f).firewall = _ from hcourse]
    simp only [closed, hexit, if_true, hB]
    exact allows_flush hruns _ p
  · intro hpersist
    obtain ⟨k, hk⟩ := (hsaved (by rw [hdone]; trivial) hok).resolve_right
      (fun hex => hex.elim fun k hfail => hfail (hpersist k))
    rw [hk]
    exact read_saved _ (S.env.order_perm k) _

/-- The sample run to its end. -/
def wholeMoves : List Move :=
  stopMoves ++ [.capture, .capture, .parent, .parent, .crypto] ++ List.replicate 5 .parent

/-- The sample run comes to its end with no rule left. -/
theorem sample_finished_clean :
    (supervise sampleSetup wholeMoves emptyWorld leftDriver).pc = .done
      ∧ 2 ≤ (supervise sampleSetup wholeMoves emptyWorld leftDriver).strays
      ∧ ∀ p, (supervise sampleSetup wholeMoves emptyWorld leftDriver).firewall.backend.allows p
          = false := by
  have hdone : (supervise sampleSetup wholeMoves emptyWorld leftDriver).pc = .done := by
    decide +kernel
  have hclean := finished_clean sampleSetup rfl wholeMoves rfl leftDriver hdone (by decide +kernel)
  exact ⟨hdone, hclean.1.2.2, hclean.2.1 rfl (by decide +kernel)⟩

end Nft

end FwknoxSupervise
