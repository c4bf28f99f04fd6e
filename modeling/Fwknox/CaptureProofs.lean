import Fwknox.PipelineProofs
import Fwknox.ThroughputProofs
import Fwknox.WorkerProofs

/-! # Capture — from the socket to the pipeline, in both modes

    `udp.rs` of the capture crate, which the single process reads its packets with, and
    `run_capture_worker`, which the separated processes use.  What a system call answers is an
    argument of the turn that makes it.

    * `timeout_in_force` : the cached timeout is the kernel's whenever the process waits.
    * `modes_differ_iff` : the modes disagree on a request that is longer than the buffer or
      whose messages are too large for the channels, and on no other.
    * `capture_worker_bounded` : no datagram ends the worker, and a flood does not pass it. -/

namespace FwknoxCapture

open FwknoxTypes FwknoxClock FwknoxConfig FwknoxPacket FwknoxWorld FwknoxPipeline FwknoxIpc
open FwknoxLimiter FwknoxBucket FwknoxThroughput FwknoxWorker FwknoxLimiter.RateLimiter
open EffectProg EffectProg.Prog

/-! ## `UdpCapture` -/

/-- The buffer of either mode. -/
def MAX_DATAGRAM_LEN : Nat := 1500

/-- The kinds of an I/O error that are told apart. -/
inductive ErrorKind where
  | wouldBlock
  | timedOut
  | invalidData
  | other
  deriving DecidableEq

/-- A failed system call. -/
structure IoError where
  kind : ErrorKind
  text : String
  deriving DecidableEq

/-- What `bind` and `recv_timeout` fail with. -/
inductive CaptureError where
  | bind (e : IoError)
  | recv (e : IoError)
  deriving DecidableEq

/-- A `sockaddr_storage`, by its family. -/
inductive Sockaddr where
  | inet (addr : Ipv4Addr)
  | inet6 (addr : Ipv6Addr)
  | other (family : Int)

/-- What `recvmsg` filled in, asked with `MSG_TRUNC`. -/
structure Message where
  reported : Nat
  buffer : Bytes
  source : Sockaddr
  namelen : Nat
  truncated : Bool

/-- The address, if the kernel filled in enough of it. -/
def sockaddr_storage_to_ip : Sockaddr → Nat → Except IoError IpAddr
  | .inet addr, namelen =>
      if namelen < 16 then .error ⟨.invalidData, "short sockaddr_in from recvmsg"⟩
      else .ok (.v4 addr)
  | .inet6 addr, namelen =>
      if namelen < 28 then .error ⟨.invalidData, "short sockaddr_in6 from recvmsg"⟩
      else .ok (.v6 addr)
  | .other family, _ =>
      .error ⟨.invalidData, "recvmsg returned unsupported address family " ++ toString family⟩

/-- A datagram that fitted the buffer, or one that did not. -/
inductive RecvOutcome where
  | packet (len : Nat) (source_ip : IpAddr)
  | truncated (reported : Nat) (source_ip : IpAddr)

/-- `recvmsg` with `MSG_TRUNC`: the outcome and what is in the buffer. -/
def recvmsg_with_trunc (answer : Except IoError Message) : Except IoError (RecvOutcome × Bytes) :=
  match answer with
  | .error e => .error e
  | .ok msg =>
      match sockaddr_storage_to_ip msg.source msg.namelen with
      | .error e => .error e
      | .ok source_ip =>
          if msg.truncated then .ok (.truncated msg.reported source_ip, msg.buffer)
          else .ok (.packet (min msg.reported MAX_DATAGRAM_LEN) source_ip, msg.buffer)

/-- The socket's timeout in the kernel, and the cached one. -/
structure UdpCapture where
  read_timeout : Option Duration
  last_timeout : Option Duration

/-- `bind` and `from_socket`: nothing has been cached, whatever the kernel has. -/
def UdpCapture.from_socket (read_timeout : Option Duration) : UdpCapture := ⟨read_timeout, none⟩

/-- What `recv_timeout` makes of the answer of `recvmsg`. -/
def received (answer : Except IoError Message) : Except CaptureError (Option CapturedPacket) :=
  match recvmsg_with_trunc answer with
  | .ok (.packet len source_ip, buf) => .ok (some ⟨source_ip, buf.take len⟩)
  | .ok (.truncated _ _, _) => .ok none
  | .error e => if e.kind = .wouldBlock ∨ e.kind = .timedOut then .ok none else .error (.recv e)

/-- A call of `recv_timeout`: the timeout, and what the two system calls answer. -/
structure Call where
  timeout : Duration
  set : Except IoError Unit
  answer : Except IoError Message

/-- `recv_timeout`: the timeout is set only when it is not the cached one. -/
def UdpCapture.recv_timeout (u : UdpCapture) (c : Call) :
    Except CaptureError (Option CapturedPacket) × UdpCapture :=
  if u.last_timeout ≠ some c.timeout then
    match c.set with
    | .error e => (.error (.recv e), u)
    | .ok () => (received c.answer, ⟨some c.timeout, some c.timeout⟩)
  else (received c.answer, u)

/-- Whether the call gets as far as `recvmsg`. -/
def UdpCapture.waits (u : UdpCapture) (c : Call) : Bool :=
  u.last_timeout = some c.timeout || c.set.isOk

/-- Whether the call tries to set the kernel's timeout. -/
def UdpCapture.sets (u : UdpCapture) (c : Call) : Bool := u.last_timeout ≠ some c.timeout

/-- The capture after a list of calls. -/
def UdpCapture.after (u : UdpCapture) : List Call → UdpCapture
  | [] => u
  | c :: cs => (u.recv_timeout c).2.after cs

/-- How often a list of calls tries to set the kernel's timeout. -/
def UdpCapture.count_sets (u : UdpCapture) : List Call → Nat
  | [] => 0
  | c :: cs => (u.sets c).toNat + (u.recv_timeout c).2.count_sets cs

/-- How often a list of calls tries to set it and fails. -/
def UdpCapture.count_failed (u : UdpCapture) : List Call → Nat
  | [] => 0
  | c :: cs => (u.sets c && !c.set.isOk).toNat + (u.recv_timeout c).2.count_failed cs

/-! ### The cached timeout -/

/-- A cached timeout is the kernel's. -/
def Cached (u : UdpCapture) : Prop := ∀ d, u.last_timeout = some d → u.read_timeout = some d

variable {u : UdpCapture}

/-- At first nothing is cached. -/
theorem cached_from_socket (t : Option Duration) : Cached (.from_socket t) := by
  intro d hd
  cases hd

/-- A call caches what it set, and only that. -/
theorem Cached.recv_timeout (h : Cached u) (c : Call) : Cached (u.recv_timeout c).2 := by
  simp only [UdpCapture.recv_timeout]
  split
  · cases c.set with
    | error e => exact h
    | ok _ =>
        intro d hd
        exact hd
  · exact h

/-- So do any number of calls. -/
theorem Cached.after (h : Cached u) (cs : List Call) : Cached (u.after cs) := by
  induction cs generalizing u with
  | nil => exact h
  | cons c cs ih => exact ih (h.recv_timeout c)

/-- A call that waits does so under its own timeout. -/
theorem Cached.in_force (h : Cached u) {c : Call} (hw : u.waits c = true) :
    (u.recv_timeout c).2.read_timeout = some c.timeout := by
  simp only [UdpCapture.recv_timeout]
  by_cases hd : u.last_timeout = some c.timeout
  · rw [if_neg (not_not_intro hd)]
    exact h _ hd
  · rw [if_pos hd]
    cases hset : c.set with
    | error e =>
        rw [UdpCapture.waits, hset, decide_eq_false hd] at hw
        cases hw
    | ok _ => rfl

/-- Once set, the same timeout is not set again. -/
theorem count_sets_of_cached {d : Duration} {cs : List Call} (hcs : ∀ c ∈ cs, c.timeout = d)
    (h : u.last_timeout = some d) : u.count_sets cs = 0 := by
  induction cs with
  | nil => rfl
  | cons c cs ih =>
      obtain ⟨hc, hcs⟩ := List.forall_mem_cons.mp hcs
      have hsame : (u.recv_timeout c).2 = u := by
        rw [UdpCapture.recv_timeout, hc, h, if_neg (not_not_intro rfl)]
      have hsets : u.sets c = false := by
        rw [UdpCapture.sets, hc, h]
        exact decide_eq_false (not_not_intro rfl)
      rw [UdpCapture.count_sets, hsame, ih hcs, hsets]
      rfl

/-- With one timeout, every attempt but one failed. -/
theorem count_sets_le {d : Duration} {cs : List Call} (hcs : ∀ c ∈ cs, c.timeout = d) :
    u.count_sets cs ≤ 1 + u.count_failed cs := by
  induction cs with
  | nil => exact Nat.zero_le _
  | cons c cs ih =>
      obtain ⟨hc, hrest⟩ := List.forall_mem_cons.mp hcs
      by_cases hd : u.last_timeout = some d
      · rw [count_sets_of_cached hcs hd]
        exact Nat.zero_le _
      · have hsets : u.sets c = true := by
          rw [UdpCapture.sets, hc]
          exact decide_eq_true hd
        rw [UdpCapture.count_sets, UdpCapture.count_failed, hsets, UdpCapture.recv_timeout, hc,
          if_pos hd]
        cases hset : c.set with
        | error e =>
            have hih := ih hrest
            show 1 + u.count_sets cs ≤ 1 + (1 + u.count_failed cs)
            omega
        | ok _ =>
            have hnone := count_sets_of_cached (u := ⟨some d, some d⟩) hrest rfl
            show 1 + UdpCapture.count_sets ⟨some d, some d⟩ cs ≤ _
            rw [hnone]
            omega

/-- **THE CACHED TIMEOUT**: after any calls, through any failures, a call that waits does so
    under the timeout it was given, as if it had been set each time; and of the attempts that
    calls with one timeout make to set it, all but one failed. -/
theorem timeout_in_force (t : Option Duration) (cs : List Call) :
    (∀ c, ((UdpCapture.from_socket t).after cs).waits c = true →
        (((UdpCapture.from_socket t).after cs).recv_timeout c).2.read_timeout = some c.timeout)
      ∧ ∀ d, (∀ c ∈ cs, c.timeout = d) →
          (UdpCapture.from_socket t).count_sets cs
            ≤ 1 + (UdpCapture.from_socket t).count_failed cs :=
  ⟨fun _ hw => ((cached_from_socket t).after cs).in_force hw, fun _ hcs => count_sets_le hcs⟩

/-! ### What a datagram becomes -/

/-- The address as the kernel writes it, with its length. -/
def sockaddr : IpAddr → Sockaddr × Nat
  | .v4 addr => (.inet addr, 16)
  | .v6 addr => (.inet6 addr, 28)

/-- What the kernel fills in for a datagram. -/
def delivered (src : IpAddr) (datagram : Bytes) : Message where
  reported := datagram.length
  buffer := datagram.take MAX_DATAGRAM_LEN
  source := (sockaddr src).1
  namelen := (sockaddr src).2
  truncated := decide (MAX_DATAGRAM_LEN < datagram.length)

/-- The address comes back as it was. -/
theorem sockaddr_round_trip (src : IpAddr) :
    sockaddr_storage_to_ip (sockaddr src).1 (sockaddr src).2 = .ok src := by
  cases src with
  | v4 addr => rfl
  | v6 addr => rfl

/-- The single process takes a datagram whole or not at all. -/
theorem received_delivered (src : IpAddr) (datagram : Bytes) :
    received (.ok (delivered src datagram))
      = .ok (if datagram.length ≤ MAX_DATAGRAM_LEN then some ⟨src, datagram⟩ else none) := by
  simp only [received, recvmsg_with_trunc, delivered, sockaddr_round_trip, decide_eq_true_eq]
  by_cases hlen : datagram.length ≤ MAX_DATAGRAM_LEN
  · rw [if_pos hlen, if_neg (Nat.not_lt.mpr hlen), Nat.min_eq_left hlen,
      List.take_of_length_le hlen]
    simp only [List.take_length]
  · rw [if_neg hlen, if_pos (Nat.lt_of_not_le hlen)]

/-! ## The two modes on one datagram -/

section Modes

variable (X : Ext) (config : DaemonConfig) (persist_path : Option String) (env : Env)

/-- The single process: `recv_timeout`, then the pipeline. -/
def single_mode (src : IpAddr) (datagram : Bytes) : Prog Eff Unit :=
  match received (.ok (delivered src datagram)) with
  | .ok (some p) => do
      let _ ← process_packet X config persist_path p
      pure ()
  | .ok none | .error _ => pure ()

/-- `recv_from` into the worker's buffer: what does not fit is cut off. -/
def recv_from (src : IpAddr) (datagram : Bytes) : CapturedPacket :=
  ⟨src, datagram.take MAX_DATAGRAM_LEN⟩

/-- A message from one process to the next, over a socket that takes it.  A sender whose message
    is refused leaves its loop. -/
def hop {M : Type} (codec : Codec M) (msg : M) : Option M :=
  match send_msg codec msg (.ok ()) with
  | .error _ => none
  | .ok datagram => (recv_msg codec (.ok datagram)).toOption

/-- The parent's part, if the reply reaches it. -/
def deliver (crypto : Codec CryptoMsg) (reply : CryptoMsg) : Prog Eff Unit :=
  match hop crypto reply with
  | none => pure ()
  | some msg => handle_crypto_msg config persist_path msg

/-- The separated processes: the capture worker's packet, the validator, the parent. -/
def separated_mode (capture : Codec CapturedPacket) (crypto : Codec CryptoMsg) (src : IpAddr)
    (datagram : Bytes) : Prog Eff Unit :=
  match hop capture (recv_from src datagram) with
  | none => pure ()
  | some p => do
      let reply ← validate_capture_msg X config p
      deliver config persist_path crypto reply

/-- What the crypto worker replies to a packet. -/
def reply_to (p : CapturedPacket) (w : World) : CryptoMsg :=
  ((validate_capture_msg X config p).exec (handler env) w).1

variable {X config persist_path env} {capture : Codec CapturedPacket} {crypto : Codec CryptoMsg}

/-- A message that fits arrives. -/
theorem hop_of_fits {M : Type} {codec : Codec M} {msg : M} (h : Fits codec msg) :
    hop codec msg = some msg := by
  obtain ⟨datagram, hsent, hcame⟩ := send_msg_of_fits h
  simp only [hop, hsent, hcame]
  rfl

/-- A message that does not fit goes nowhere. -/
theorem hop_of_not_fits {M : Type} {codec : Codec M} {msg : M} (h : ¬Fits codec msg) :
    hop codec msg = none := by
  obtain ⟨reason, hrefused⟩ := send_msg_of_not_fits h (.ok ())
  simp only [hop, hrefused]

/-- On one packet the worker and the parent together call the firewall as `process_packet`
    does. -/
theorem handled_calls (p : CapturedPacket) (w : World) :
    ((handle_crypto_msg config persist_path (reply_to X config env p w)).exec (handler env)
        ((validate_capture_msg X config p).exec (handler env) w).2).2.calls
      = ((process_packet X config persist_path p).exec (handler env) w).2.calls := by
  rw [reply_to]
  by_cases hg : ∃ name stanza payload source_ip ports, Grant X config p
      (env.clock w.tick) name stanza payload source_ip ports
  · obtain ⟨n, s, pl, ip, ports, hg⟩ := hg
    rw [validate_capture_msg_of_grant hg, process_packet_of_grant hg,
      handle_crypto_msg_of_grant hg]
  · obtain ⟨msg, w', hval, hmsg, hw⟩ := validate_capture_msg_of_not_grant hg
    rw [hval, process_packet_of_not_grant hg]
    show ((handle_crypto_msg config persist_path msg).exec (handler env) w').2.calls = _
    rw [handle_crypto_msg_of_not_valid hmsg]
    rcases hw with rfl | rfl
    · rfl
    · rfl

/-- The worker itself calls no firewall. -/
theorem validated_calls (p : CapturedPacket) (w : World) :
    ((validate_capture_msg X config p).exec (handler env) w).2.calls = w.calls := by
  by_cases hg : ∃ name stanza payload source_ip ports, Grant X config p
      (env.clock w.tick) name stanza payload source_ip ports
  · obtain ⟨n, s, pl, ip, ports, hg⟩ := hg
    rw [validate_capture_msg_of_grant hg]
    rfl
  · obtain ⟨msg, w', hval, -, hw⟩ := validate_capture_msg_of_not_grant hg
    rw [hval]
    rcases hw with rfl | rfl
    · rfl
    · rfl

/-- Both messages of a datagram fit. -/
def BothFit (capture : Codec CapturedPacket) (crypto : Codec CryptoMsg) (X : Ext)
    (config : DaemonConfig) (env : Env) (p : CapturedPacket) (w : World) : Prop :=
  Fits capture p ∧ Fits crypto (reply_to X config env p w)

/-- If both messages fit, the separated processes call the firewall as `process_packet` does on
    the first 1500 bytes. -/
theorem separated_calls_of_fit {src : IpAddr} {datagram : Bytes} {w : World}
    (h : BothFit capture crypto X config env (recv_from src datagram) w) :
    ((separated_mode X config persist_path capture crypto src datagram).exec
        (handler env) w).2.calls
      = ((process_packet X config persist_path (recv_from src datagram)).exec
          (handler env) w).2.calls := by
  simp only [separated_mode, hop_of_fits h.1, bind_eq, exec_bind]
  rw [← handled_calls]
  show ((deliver config persist_path crypto (reply_to X config env (recv_from src datagram) w)).exec
    (handler env) _).2.calls = _
  simp only [deliver, hop_of_fits h.2]

/-- Otherwise they call it not at all. -/
theorem separated_calls_of_not_fit {src : IpAddr} {datagram : Bytes} {w : World}
    (h : ¬BothFit capture crypto X config env (recv_from src datagram) w) :
    ((separated_mode X config persist_path capture crypto src datagram).exec
        (handler env) w).2.calls = w.calls := by
  by_cases hcapture : Fits capture (recv_from src datagram)
  · have hcrypto : ¬Fits crypto (reply_to X config env (recv_from src datagram) w) :=
      fun hcrypto => h ⟨hcapture, hcrypto⟩
    simp only [separated_mode, hop_of_fits hcapture, bind_eq, exec_bind]
    show ((deliver config persist_path crypto
      (reply_to X config env (recv_from src datagram) w)).exec (handler env) _).2.calls = _
    simp only [deliver, hop_of_not_fits hcrypto]
    exact validated_calls (recv_from src datagram) w
  · simp only [separated_mode, hop_of_not_fits hcapture]
    rfl

/-- The single process calls it as `process_packet` does, on a datagram that fits the buffer. -/
theorem single_calls (src : IpAddr) (datagram : Bytes) (w : World) :
    ((single_mode X config persist_path src datagram).exec (handler env) w).2.calls
      = if datagram.length ≤ MAX_DATAGRAM_LEN then
          ((process_packet X config persist_path ⟨src, datagram⟩).exec (handler env) w).2.calls
        else w.calls := by
  rw [single_mode, received_delivered]
  by_cases hlen : datagram.length ≤ MAX_DATAGRAM_LEN
  · rw [if_pos hlen, if_pos hlen]
    simp only [bind_eq, exec_bind]
    rfl
  · rw [if_neg hlen, if_neg hlen]
    rfl

/-- **WHERE THE MODES DIFFER**: on a datagram the two modes call the firewall alike if and only if
    its first 1500 bytes open nothing, or it fits the buffer exactly when its two messages fit
    their datagrams.  A longer one the single process drops, and the separated processes read its
    beginning; a reply that is too large, as under a long stanza name, the parent never sees. -/
theorem modes_differ_iff (src : IpAddr) (datagram : Bytes) (w : World) :
    ((single_mode X config persist_path src datagram).exec (handler env) w).2.calls
        = ((separated_mode X config persist_path capture crypto src datagram).exec
            (handler env) w).2.calls
      ↔ ((process_packet X config persist_path ⟨src, datagram.take 1500⟩).exec
            (handler env) w).2.calls = w.calls
        ∨ (datagram.length ≤ 1500 ↔ Fits capture ⟨src, datagram.take 1500⟩
          ∧ Fits crypto (reply_to X config env ⟨src, datagram.take 1500⟩ w)) := by
  rw [single_calls]
  show _ ↔ ((process_packet X config persist_path (recv_from src datagram)).exec
    (handler env) w).2.calls = w.calls ∨ (datagram.length ≤ MAX_DATAGRAM_LEN
      ↔ BothFit capture crypto X config env (recv_from src datagram) w)
  by_cases hlen : datagram.length ≤ MAX_DATAGRAM_LEN
  · have hwhole : (⟨src, datagram⟩ : CapturedPacket) = recv_from src datagram := by
      rw [recv_from, List.take_of_length_le hlen]
    rw [if_pos hlen, hwhole]
    by_cases hfit : BothFit capture crypto X config env (recv_from src datagram) w
    · rw [separated_calls_of_fit hfit]
      exact iff_of_true rfl (.inr (iff_of_true hlen hfit))
    · rw [separated_calls_of_not_fit hfit]
      exact (or_iff_left fun h => hfit (h.mp hlen)).symm
  · rw [if_neg hlen]
    by_cases hfit : BothFit capture crypto X config env (recv_from src datagram) w
    · rw [separated_calls_of_fit hfit]
      exact eq_comm.trans (or_iff_left fun h => hlen (h.mpr hfit)).symm
    · rw [separated_calls_of_not_fit hfit]
      exact iff_of_true rfl (.inr (iff_of_false hlen hfit))

end Modes

/-! ## The capture worker -/

/-- What one turn of the worker's loop meets; a datagram comes with the instant the limiter reads
    and the answer its forwarding would get. -/
inductive CapturePoll where
  | shutdown
  | timeout
  | datagram (src : IpAddr) (bytes : Bytes) (now : Instant) (send : Except String Unit)
  | failed (reason : String)

/-- The capture worker: its limiter, what it forwarded, and where its process is. -/
structure CaptureWorker where
  limiter : RateLimiter
  sent : List CapturedPacket
  status : Status

namespace CaptureWorker

/-- The packet on its way to the crypto worker; a worker whose `send_msg` fails returns. -/
def forward (codec : Codec CapturedPacket) (w : CaptureWorker) (p : CapturedPacket)
    (send : Except String Unit) : CaptureWorker :=
  match send_msg codec p send with
  | .ok _ => { w with sent := w.sent ++ [p] }
  | .error e => { w with status := .returned (.error e) }

/-- One turn; a worker that has left the loop takes none. -/
def turn (codec : Codec CapturedPacket) (w : CaptureWorker) (poll : CapturePoll) :
    CaptureWorker :=
  match w.status, poll with
  | .looping, .shutdown => { w with status := .returned (.ok ()) }
  | .looping, .timeout => w
  | .looping, .failed e => { w with status := .returned (.error (.io e)) }
  | .looping, .datagram src bytes now send =>
      match w.limiter.check src now with
      | (.pass, limiter) => forward codec { w with limiter } (recv_from src bytes) send
      | (.drop _, limiter) => { w with limiter }
  | .returned _, _ | .aborted, _ => w

end CaptureWorker

/-- The loop, turn after turn. -/
def run_capture_worker (codec : Codec CapturedPacket) :
    List CapturePoll → CaptureWorker → CaptureWorker
  | [], w => w
  | poll :: polls, w => run_capture_worker codec polls (w.turn codec poll)

/-! ### Every datagram fits -/

/-- The encoding takes at most two bytes for each byte of the datagram, and 64 for the rest. -/
def Compact (codec : Codec CapturedPacket) : Prop :=
  ∀ p, ∃ bytes, codec.to_vec p = .ok bytes ∧ bytes.length ≤ 2 * p.data.length + 64

variable {codec : Codec CapturedPacket}

/-- No packet is longer than the buffer. -/
theorem recv_from_length (src : IpAddr) (bytes : Bytes) :
    (recv_from src bytes).data.length ≤ MAX_DATAGRAM_LEN :=
  List.length_take_le _ _

/-- So its message fits. -/
theorem Compact.fits (h : Compact codec) (src : IpAddr) (bytes : Bytes) :
    Fits codec (recv_from src bytes) := by
  obtain ⟨encoded, hvec, hsize⟩ := h (recv_from src bytes)
  have hlen : (recv_from src bytes).data.length ≤ 1500 := recv_from_length src bytes
  refine ⟨encoded, hvec, ?_⟩
  show encoded.length ≤ 8192
  omega

/-! ### What a turn does -/

/-- The end of a worker that the flag or a system call ends. -/
def Plain (r : Except PrivsepError Unit) : Prop := r = .ok () ∨ ∃ e, r = .error (.io e)

/-- What a turn of a looping worker comes to. -/
inductive Turned (w : CaptureWorker) : CapturePoll → CaptureWorker → Prop
  | waits : Turned w .timeout w
  | told : Turned w .shutdown { w with status := .returned (.ok ()) }
  | fails (e : String) : Turned w (.failed e) { w with status := .returned (.error (.io e)) }
  | drops {src : IpAddr} {bytes : Bytes} {now : Instant} {send : Except String Unit}
      {reason : DropReason} {limiter : RateLimiter}
      (h : w.limiter.check src now = (.drop reason, limiter)) :
      Turned w (.datagram src bytes now send) { w with limiter }
  | sends {src : IpAddr} {bytes : Bytes} {now : Instant} {send : Except String Unit}
      {limiter : RateLimiter} (h : w.limiter.check src now = (.pass, limiter)) :
      Turned w (.datagram src bytes now send)
        { w with limiter, sent := w.sent ++ [recv_from src bytes] }
  | breaks {src : IpAddr} {bytes : Bytes} {now : Instant} {send : Except String Unit}
      {limiter : RateLimiter} (h : w.limiter.check src now = (.pass, limiter)) (e : String) :
      Turned w (.datagram src bytes now send)
        { w with limiter, status := .returned (.error (.io e)) }

/-- Every turn of a looping worker is one of these. -/
theorem turn_cases (hcompact : Compact codec) {w : CaptureWorker} (hw : w.status = .looping)
    (poll : CapturePoll) : Turned w poll (w.turn codec poll) := by
  obtain ⟨limiter, sent, status⟩ := w
  cases hw
  cases poll with
  | shutdown => exact .told
  | timeout => exact .waits
  | failed e => exact .fails e
  | datagram src bytes now send =>
      cases hc : limiter.check src now with
      | mk decision limiter' =>
          simp only [CaptureWorker.turn, hc]
          cases decision with
          | drop reason => exact .drops hc
          | pass =>
              simp only [CaptureWorker.forward]
              have hfits := hcompact.fits src bytes
              cases send with
              | ok u =>
                  obtain ⟨datagram, hsent, -⟩ := send_msg_of_fits hfits
                  rw [hsent]
                  exact .sends hc
              | error e =>
                  rw [send_msg_of_fits_error hfits]
                  exact .breaks hc e

/-- A worker that has left its loop takes no turn. -/
theorem turn_of_left {w : CaptureWorker} (hw : w.status ≠ .looping) (poll : CapturePoll) :
    w.turn codec poll = w := by
  cases hst : w.status with
  | looping => exact absurd hst hw
  | returned r => simp only [CaptureWorker.turn, hst]
  | aborted => simp only [CaptureWorker.turn, hst]

/-- Nor any number of them. -/
theorem run_of_left {w : CaptureWorker} (hw : w.status ≠ .looping) (polls : List CapturePoll) :
    run_capture_worker codec polls w = w := by
  induction polls with
  | nil => rfl
  | cons poll polls ih => rw [run_capture_worker, turn_of_left hw, ih]

/-! ### What a run does -/

/-- What the worker has sent came in as a datagram; if it has returned, the flag or a system call
    made it. -/
structure Faithful (polls : List CapturePoll) (w : CaptureWorker) : Prop where
  sent : ∀ p ∈ w.sent, ∃ src bytes now send,
    CapturePoll.datagram src bytes now send ∈ polls ∧ p = recv_from src bytes
  ended : w.status = .looping ∨ ∃ r, Plain r ∧ w.status = .returned r

/-- A turn keeps it. -/
theorem Faithful.turn (hcompact : Compact codec) {polls : List CapturePoll} {w : CaptureWorker}
    (h : Faithful polls w) {poll : CapturePoll} (hp : poll ∈ polls) :
    Faithful polls (w.turn codec poll) := by
  by_cases hw : w.status = .looping
  · have hstep := turn_cases hcompact hw poll
    generalize w.turn codec poll = w' at hstep ⊢
    cases hstep with
    | waits => exact h
    | told => exact ⟨h.sent, .inr ⟨_, .inl rfl, rfl⟩⟩
    | fails e => exact ⟨h.sent, .inr ⟨_, .inr ⟨e, rfl⟩, rfl⟩⟩
    | drops hc => exact ⟨h.sent, h.ended⟩
    | breaks hc e => exact ⟨h.sent, .inr ⟨_, .inr ⟨e, rfl⟩, rfl⟩⟩
    | sends hc =>
        refine ⟨?_, h.ended⟩
        intro p hps
        rcases List.mem_append.mp hps with hold | hnew
        · exact h.sent p hold
        · exact ⟨_, _, _, _, hp, List.mem_singleton.mp hnew⟩
  · rw [turn_of_left hw]
    exact h

/-- A run keeps it. -/
theorem Faithful.run (hcompact : Compact codec) {all polls : List CapturePoll}
    {w : CaptureWorker} (h : Faithful all w) (hsub : polls ⊆ all) :
    Faithful all (run_capture_worker codec polls w) := by
  induction polls generalizing w with
  | nil => exact h
  | cons poll polls ih =>
      obtain ⟨hp, hsub⟩ := List.cons_subset.mp hsub
      exact ih (h.turn hcompact hp) hsub

/-- The arrivals the limiter is asked about. -/
def arrivals : List CapturePoll → List Arrival
  | [] => []
  | .datagram src _ now _ :: polls => (src, now) :: arrivals polls
  | .shutdown :: polls | .timeout :: polls | .failed _ :: polls => arrivals polls

/-- One more arrival is one more decision. -/
theorem run_checks_of_check {l l' : RateLimiter} {src : IpAddr} {now : Instant}
    {decision : Decision} (h : l.check src now = (decision, l')) (cs : List Arrival) :
    (l.run_checks ((src, now) :: cs)).1 = decision :: (l'.run_checks cs).1 := by
  simp only [RateLimiter.run_checks, h]

/-- The worker sends no more than its limiter passes. -/
theorem sent_length_le (hcompact : Compact codec) (polls : List CapturePoll)
    (w : CaptureWorker) :
    (run_capture_worker codec polls w).sent.length
      ≤ w.sent.length + (w.limiter.run_checks (arrivals polls)).1.count .pass := by
  induction polls generalizing w with
  | nil => exact Nat.le_add_right _ _
  | cons poll polls ih =>
      by_cases hw : w.status = .looping
      · have hnext := ih (w.turn codec poll)
        have hstep := turn_cases hcompact hw poll
        rw [run_capture_worker]
        generalize w.turn codec poll = w' at hnext hstep ⊢
        cases hstep with
        | waits => exact hnext
        | told => exact hnext
        | fails e => exact hnext
        | drops hc =>
            rw [arrivals, run_checks_of_check hc, List.count_cons_of_ne (by intro h; cases h)]
            exact hnext
        | sends hc =>
            rw [arrivals, run_checks_of_check hc, List.count_cons_self]
            rw [List.length_append, List.length_singleton, Nat.add_assoc, Nat.add_comm 1] at hnext
            exact hnext
        | breaks hc e =>
            rw [arrivals, run_checks_of_check hc, List.count_cons_self]
            -- passed, but the socket refused it
            exact Nat.le_trans hnext (Nat.add_le_add_left (Nat.le_succ _) _)
      · rw [run_of_left hw]
        exact Nat.le_add_right _ _

/-- **WHAT LEAVES THE CAPTURE WORKER**: whatever datagrams, sizes, failures and polls it meets
    within `D` seconds, what it forwards is the first `MAX_DATAGRAM_LEN` bytes of a datagram it
    received, under that datagram's source, in a message small enough for the channel; no datagram
    ends the worker, only the flag or a system call does; and the crypto worker is handed no more
    than the limiter's allowance. -/
theorem capture_worker_bounded (hcompact : Compact codec) {config : RateLimitSection}
    (hon : config.enabled = true) {t₀ : Instant} {l : RateLimiter}
    (hl : RateLimiter.with_clock config t₀ = some l) {polls : List CapturePoll}
    (hmono : (t₀ :: (arrivals polls).map Prod.snd).Pairwise (· ≤ ·)) {D : ℚ} (hD : 0 ≤ D)
    (hwithin : ∀ c ∈ arrivals polls, secs_since c.2 t₀ ≤ D) {w : CaptureWorker}
    (hrun : run_capture_worker codec polls ⟨l, [], .looping⟩ = w) :
    (∀ p ∈ w.sent, (∃ src bytes now send, CapturePoll.datagram src bytes now send ∈ polls
        ∧ p = recv_from src bytes) ∧ Fits codec p)
      ∧ (w.status = .looping ∨ ∃ r, Plain r ∧ w.status = .returned r)
      ∧ (config.promotion_threshold.toNat : ℚ) * w.sent.length ≤ allowance config D := by
  subst hrun
  have hstart : Faithful polls ⟨l, [], .looping⟩ :=
    ⟨fun _ hp => absurd hp List.not_mem_nil, .inl rfl⟩
  have hfaithful := hstart.run hcompact (List.Subset.refl polls)
  refine ⟨?_, hfaithful.ended, ?_⟩
  · intro p hp
    obtain ⟨src, bytes, now, send, hmem, rfl⟩ := hfaithful.sent p hp
    exact ⟨⟨src, bytes, now, send, hmem, rfl⟩, hcompact.fits src bytes⟩
  · obtain ⟨hcap, rfl⟩ := enabled_of_with_clock hon hl
    have hsent := sent_length_le hcompact polls
      ⟨{ config, inner := some (Live.new config hcap t₀).inner,
         stats := (Live.new config hcap t₀).stats }, [], .looping⟩
    rw [run_checks_enabled, List.length_nil, Nat.zero_add] at hsent
    refine le_trans ?_ (passes_within config hcap hmono hD hwithin)
    exact mul_le_mul_of_nonneg_left (Nat.cast_le.mpr hsent) (Nat.cast_nonneg _)

/-- The address in front of the bytes, with its length first. -/
def sampleCodec : Codec CapturedPacket where
  to_vec p :=
    match p.source_ip with
    | .v4 addr => .ok (4 :: (addr.toList ++ p.data))
    | .v6 addr => .ok (16 :: (addr.toList ++ p.data))
  from_slice
    | 4 :: rest => .ok ⟨.v4 (Vector.ofFn fun i => rest.getD i 0), rest.drop 4⟩
    | 16 :: rest => .ok ⟨.v6 (Vector.ofFn fun i => rest.getD i 0), rest.drop 16⟩
    | _ => .error "unknown address"
  round_trip := by
    have haddr : ∀ {n : Nat} (addr : Vector UInt8 n) (data : Bytes),
        (Vector.ofFn fun i : Fin n => (addr.toList ++ data).getD i 0) = addr := by
      intro n addr data
      ext i hi
      simp [List.getElem?_append_left]
    intro msg bytes h
    obtain ⟨src, data⟩ := msg
    cases src with
    | v4 addr =>
        cases h
        refine ⟨List.cons_ne_nil _ _, ?_⟩
        simp only [haddr]
        simp
    | v6 addr =>
        cases h
        refine ⟨List.cons_ne_nil _ _, ?_⟩
        simp only [haddr]
        simp

/-- It is small. -/
theorem sampleCodec_compact : Compact sampleCodec := by
  intro p
  obtain ⟨src, data⟩ := p
  cases src with
  | v4 addr => exact ⟨_, rfl, by simp; omega⟩
  | v6 addr => exact ⟨_, rfl, by simp; omega⟩

/-- A datagram, a quiet poll, and a datagram the socket refuses to forward. -/
def refusedPolls : List CapturePoll :=
  [.datagram (.v4 sampleIp) [1, 2] 0 (.ok ()), .timeout,
    .datagram (.v4 sampleIp) [3] 1000000000 (.error "Connection refused")]

/-- A capture worker at its start, under the default limits. -/
def freshWorker : CaptureWorker :=
  ⟨⟨{}, some (Live.new {} default_capacity_pos 0).inner, {}⟩, [], .looping⟩

/-- One datagram is forwarded before the refusal. -/
theorem refused_polls_within :
    (run_capture_worker sampleCodec refusedPolls freshWorker).sent.length = 1
      ∧ (5 : ℚ) * (run_capture_worker sampleCodec refusedPolls freshWorker).sent.length
        ≤ allowance {} 1 := by
  refine ⟨by decide +kernel, (@capture_worker_bounded sampleCodec sampleCodec_compact {} rfl 0 _
    rfl refusedPolls (by decide) 1 zero_le_one ?_ _ rfl).2.2⟩
  intro c hc
  rcases List.mem_cons.mp hc with rfl | hc
  · simp only [secs_since]
    norm_num
  · rw [List.mem_singleton.mp hc]
    simp only [secs_since]
    norm_num

end FwknoxCapture
