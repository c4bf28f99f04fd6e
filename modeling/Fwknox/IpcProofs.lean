import Fwknox.TypesProofs

/-! # Messages between the processes

    `send_msg` and `recv_msg` of `ipc.rs`: one message, one datagram of at most `MAX_IPC_MSG`
    bytes.  The encoding is `rmp_serde`'s, which is not part of the repository.  It is a parameter
    here, and only its round trip is assumed.

    * `send_msg_eq_ok` : a message goes out if and only if its encoding is small enough and the
      socket takes it.
    * `recv_msg_eq_ok` : a message comes in if and only if the datagram is small enough, is not
      empty and decodes to it.
    * `send_msg_of_fits` : what went out comes in again.
    * `drains_append` : whether a socket nobody reads takes a series of messages. -/

namespace FwknoxIpc

open FwknoxTypes

/-- What `recv_msg` and `send_msg` fail with. -/
inductive PrivsepError where
  | ipcEncode (reason : String)
  | ipcDecode (reason : String)
  | io (reason : String)
  | peerClosed
  | ipcTruncated (reported limit : Nat)
  deriving DecidableEq

/-- The most bytes a datagram between the processes has. -/
def MAX_IPC_MSG : Nat := 8192

/-- `rmp_serde` at one type of message. -/
structure Codec (M : Type) where
  /-- `rmp_serde::to_vec`. -/
  to_vec : M → Except String Bytes
  /-- `rmp_serde::from_slice`. -/
  from_slice : Bytes → Except String M
  /-- An encoding is not empty, and decodes to the message it is of. -/
  round_trip : ∀ {msg : M} {bytes : Bytes},
    to_vec msg = .ok bytes → bytes ≠ [] ∧ from_slice bytes = .ok msg

/-- `send_msg`: the datagram that went out.  `send` is what the socket answers. -/
def send_msg {M : Type} (codec : Codec M) (msg : M) (send : Except String Unit) :
    Except PrivsepError Bytes :=
  match codec.to_vec msg with
  | .error e => .error (.ipcEncode e)
  | .ok bytes =>
      if bytes.length > MAX_IPC_MSG then
        .error (.ipcEncode ("message too large: " ++ toString bytes.length ++ " bytes > "
          ++ toString MAX_IPC_MSG ++ " limit"))
      else
        match send with
        | .error e => .error (.io e)
        | .ok () => .ok bytes

/-- `recv_msg`: `answer` is the datagram the peer sent, of any length, or why there is none.  The
    kernel sets `MSG_TRUNC` if and only if the buffer is shorter than the datagram. -/
def recv_msg {M : Type} (codec : Codec M) (answer : Except String Bytes) :
    Except PrivsepError M :=
  match answer with
  | .error e => .error (.io e)
  | .ok datagram =>
      if MAX_IPC_MSG < datagram.length then .error (.ipcTruncated datagram.length MAX_IPC_MSG)
      else if datagram.length = 0 then .error .peerClosed
      else
        match codec.from_slice datagram with
        | .error e => .error (.ipcDecode e)
        | .ok msg => .ok msg

/-- The message has an encoding that `send_msg` does not refuse. -/
def Fits {M : Type} (codec : Codec M) (msg : M) : Prop :=
  ∃ bytes, codec.to_vec msg = .ok bytes ∧ bytes.length ≤ MAX_IPC_MSG

/-- It can be computed. -/
instance decidableFits {M : Type} (codec : Codec M) (msg : M) : Decidable (Fits codec msg) :=
  match h : codec.to_vec msg with
  | .error _ =>
      isFalse (by
        rintro ⟨bytes, hvec, _⟩
        cases h.symm.trans hvec)
  | .ok bytes =>
      if hlen : bytes.length ≤ MAX_IPC_MSG then isTrue ⟨bytes, h, hlen⟩
      else
        isFalse (by
          rintro ⟨bytes', hvec, hle⟩
          cases h.symm.trans hvec
          exact hlen hle)

section Ipc

variable {M : Type} {codec : Codec M} {msg : M} {bytes : Bytes} {send : Except String Unit}

/-- **WHAT GOES OUT**: a message whose encoding is small enough, if the socket takes it. -/
theorem send_msg_eq_ok :
    send_msg codec msg send = .ok bytes
      ↔ codec.to_vec msg = .ok bytes ∧ bytes.length ≤ MAX_IPC_MSG ∧ send = .ok () := by
  rw [send_msg]
  cases hvec : codec.to_vec msg with
  | error e => exact iff_of_false (fun h => by cases h) (fun h => by cases h.1)
  | ok encoded =>
      dsimp only
      by_cases hlen : encoded.length ≤ MAX_IPC_MSG
      · rw [if_neg (Nat.not_lt.mpr hlen)]
        cases send with
        | error e => exact iff_of_false (fun h => by cases h) (fun h => by cases h.2.2)
        | ok u =>
            constructor
            · intro h
              cases h
              exact ⟨rfl, hlen, rfl⟩
            · rintro ⟨h, -, -⟩
              cases h
              rfl
      · rw [if_pos (Nat.lt_of_not_le hlen)]
        refine iff_of_false (fun h => by cases h) ?_
        rintro ⟨h, hle, -⟩
        cases h
        exact hlen hle

/-- **WHAT COMES IN**: a datagram that is not empty, fits the buffer and decodes. -/
theorem recv_msg_eq_ok :
    recv_msg codec (.ok bytes) = .ok msg
      ↔ bytes ≠ [] ∧ bytes.length ≤ MAX_IPC_MSG ∧ codec.from_slice bytes = .ok msg := by
  simp only [recv_msg]
  by_cases hlen : bytes.length ≤ MAX_IPC_MSG
  · rw [if_neg (Nat.not_lt.mpr hlen)]
    by_cases hnil : bytes = []
    · rw [if_pos (List.length_eq_zero_iff.mpr hnil)]
      exact iff_of_false (fun h => by cases h) (fun h => h.1 hnil)
    · rw [if_neg (fun h => hnil (List.length_eq_zero_iff.mp h))]
      cases hdec : codec.from_slice bytes with
      | error e => exact iff_of_false (fun h => by cases h) (fun h => by cases h.2.2)
      | ok decoded =>
          constructor
          · intro h
            cases h
            exact ⟨hnil, hlen, rfl⟩
          · rintro ⟨-, -, h⟩
            cases h
            rfl
  · rw [if_pos (Nat.lt_of_not_le hlen)]
    exact iff_of_false (fun h => by cases h) (fun h => hlen h.2.1)

/-- A message that fits goes out, and comes in again. -/
theorem send_msg_of_fits (h : Fits codec msg) :
    ∃ bytes, send_msg codec msg (.ok ()) = .ok bytes ∧ recv_msg codec (.ok bytes) = .ok msg := by
  obtain ⟨bytes, hvec, hlen⟩ := h
  obtain ⟨hne, hdec⟩ := codec.round_trip hvec
  exact ⟨bytes, send_msg_eq_ok.mpr ⟨hvec, hlen, rfl⟩, recv_msg_eq_ok.mpr ⟨hne, hlen, hdec⟩⟩

/-- A message that fits is refused by the socket alone. -/
theorem send_msg_of_fits_error (h : Fits codec msg) (e : String) :
    send_msg codec msg (.error e) = .error (.io e) := by
  obtain ⟨bytes, hvec, hlen⟩ := h
  simp only [send_msg, hvec]
  rw [if_neg (Nat.not_lt.mpr hlen)]

/-- A message that does not fit is refused whatever the socket would say. -/
theorem send_msg_of_not_fits (h : ¬Fits codec msg) (send : Except String Unit) :
    ∃ reason, send_msg codec msg send = .error (.ipcEncode reason) := by
  simp only [send_msg]
  cases hvec : codec.to_vec msg with
  | error e => exact ⟨e, rfl⟩
  | ok bytes =>
      have hlen : bytes.length > MAX_IPC_MSG :=
        Nat.lt_of_not_le fun hle => h ⟨bytes, hvec, hle⟩
      dsimp only
      rw [if_pos hlen]
      exact ⟨_, rfl⟩

end Ipc

/-! ## Sockets nobody reads -/

/-- One direction of a `UnixDatagram` pair: what a queued message takes of the sender's buffer,
    and how large that is.  The system's price of a datagram is not its length, and an empty
    buffer is taken to hold any one message that `send_msg` lets through. -/
structure Socket (M : Type) where
  cost : M → Nat
  room : Nat
  cost_pos : ∀ m, 0 < cost m
  room_pos : 0 < room

/-- What the queued messages take of the buffer. -/
def Socket.weight {M : Type} (socket : Socket M) : List M → Nat
  | [] => 0
  | m :: ms => socket.cost m + socket.weight ms

/-- A send goes through as long as the buffer is not used up, and waits otherwise. -/
def Socket.Takes {M : Type} (socket : Socket M) (queued : List M) : Prop :=
  socket.weight queued < socket.room

/-- The sender asks the system. -/
instance decidableTakes {M : Type} (socket : Socket M) (queued : List M) :
    Decidable (socket.Takes queued) :=
  inferInstanceAs (Decidable (socket.weight queued < socket.room))

/-- A sender gets rid of its messages in this order though nobody reads: each finds room behind
    those before it, up to the first that `send_msg` refuses for its size. -/
def Drains {M : Type} (codec : Codec M) (socket : Socket M) : List M → List M → Prop
  | _, [] => True
  | queued, m :: ms =>
      Fits codec m → socket.Takes queued ∧ Drains codec socket (queued ++ [m]) ms

/-- It can be computed. -/
instance decidableDrains {M : Type} (codec : Codec M) (socket : Socket M) :
    (queued msgs : List M) → Decidable (Drains codec socket queued msgs)
  | _, [] => isTrue trivial
  | queued, m :: ms =>
      have : Decidable (Drains codec socket (queued ++ [m]) ms) :=
        decidableDrains codec socket (queued ++ [m]) ms
      inferInstanceAs (Decidable
        (Fits codec m → socket.Takes queued ∧ Drains codec socket (queued ++ [m]) ms))

section Sockets

variable {M : Type} {codec : Codec M} {socket : Socket M}

/-- Nothing queued, so there is room. -/
theorem Socket.takes_nil (socket : Socket M) : socket.Takes [] := socket.room_pos

/-- What copies of one message take. -/
theorem Socket.weight_replicate (socket : Socket M) (k : Nat) (m : M) :
    socket.weight (List.replicate k m) = k * socket.cost m := by
  induction k with
  | zero => rw [Nat.zero_mul, List.replicate_zero, Socket.weight]
  | succ k ih => rw [List.replicate_succ, Socket.weight, ih, Nat.succ_mul, Nat.add_comm]

/-- **ONE SERIES AFTER ANOTHER**: the second matters when nothing of the first was refused. -/
theorem drains_append (queued ms ms' : List M) :
    Drains codec socket queued (ms ++ ms')
      ↔ Drains codec socket queued ms
        ∧ ((∀ m ∈ ms, Fits codec m) → Drains codec socket (queued ++ ms) ms') := by
  induction ms generalizing queued with
  | nil =>
      rw [List.nil_append, List.append_nil]
      exact ⟨fun h => ⟨trivial, fun _ => h⟩, fun h => h.2 (List.forall_mem_nil _)⟩
  | cons m ms ih =>
      simp only [List.cons_append, Drains, List.forall_mem_cons]
      rw [ih, List.append_assoc, List.singleton_append]
      constructor
      · intro h
        exact ⟨fun hm => ⟨(h hm).1, (h hm).2.1⟩, fun hall => (h hall.1).2.2 hall.2⟩
      · rintro ⟨hfirst, hsecond⟩ hm
        exact ⟨(hfirst hm).1, (hfirst hm).2, fun hall => hsecond ⟨hm, hall⟩⟩

/-- A sender gets rid of the first part of what it can get rid of. -/
theorem Drains.left {queued ms ms' : List M} (h : Drains codec socket queued (ms ++ ms')) :
    Drains codec socket queued ms :=
  ((drains_append queued ms ms').mp h).1

/-- The last message may be another one, if the one it stands for is not refused. -/
theorem Drains.replace_last {queued ms : List M} {m m' : M}
    (h : Drains codec socket queued (ms ++ [m])) (hm : Fits codec m) :
    Drains codec socket queued (ms ++ [m']) := by
  rw [drains_append] at h ⊢
  exact ⟨h.1, fun hall _ => ⟨(h.2 hall hm).1, trivial⟩⟩

end Sockets

/-- A codec that knows a few messages: the length of the encoding says which. -/
def Codec.table {M : Type} [DecidableEq M] (known : List M) : Codec M where
  to_vec msg :=
    match known.idxOf? msg with
    | some i => .ok (List.replicate (i + 1) 0)
    | none => .error "unknown message"
  from_slice bytes :=
    match known[bytes.length - 1]? with
    | some msg => .ok msg
    | none => .error "unknown message"
  round_trip := by
    intro msg bytes h
    cases hidx : known.idxOf? msg with
    | none =>
        rw [hidx] at h
        cases h
    | some i =>
        rw [hidx] at h
        cases h
        refine ⟨List.cons_ne_nil _ _, ?_⟩
        obtain ⟨hi, hget, _⟩ := List.idxOf?_eq_some_iff.mp hidx
        rw [List.length_replicate, Nat.add_sub_cancel, List.getElem?_eq_getElem hi, hget]

/-- Every message of a short table fits. -/
theorem Codec.fits_table {M : Type} [DecidableEq M] {known : List M} {msg : M}
    (hmem : msg ∈ known) (hlen : known.length ≤ MAX_IPC_MSG) :
    Fits (Codec.table known) msg := by
  obtain ⟨i, hidx⟩ := Option.isSome_iff_exists.mp (List.isSome_idxOf?.mpr hmem)
  obtain ⟨hi, _, _⟩ := List.idxOf?_eq_some_iff.mp hidx
  refine ⟨List.replicate (i + 1) 0, ?_, ?_⟩
  · simp only [Codec.table, hidx]
  · rw [List.length_replicate]
    exact Nat.le_trans hi hlen

end FwknoxIpc
