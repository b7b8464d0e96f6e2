import Opd.Lib.ByteStream
import Opd.Lib.Tensor

/-!
# RPC messages on a socket

A message is pickled and sent after its length, in eight bytes. The receiver reads the length and then the payload,
chunk after chunk.

* `recvExact_ok`, `recvExact_error`: what is read of a stream.
* `recvMessage_frame`: a message is read back.
* `recvMessages_sent`: the messages of a stream, and a stream that ends before its last message.
-/

namespace Opd.Clight.Rpc

open Lib

inductive RpcError
  | structError
  | connectionError (message : String)
  | unpicklingError
  deriving DecidableEq

/-- `pickle`: what is pickled is loaded as the same message. -/
structure Pickle (M : Type) where
  dumps : M → List UInt8
  loads : List UInt8 → Option M
  loads_dumps : ∀ m, loads (dumps m) = some m

/-- `HEADER.size`, of the format `!Q`. -/
def headerSize : ℕ := 8

/-- `HEADER.pack` -/
def headerPack (n : ℕ) : Except RpcError (List UInt8) :=
  if n < 256 ^ headerSize then .ok (bigEndian headerSize n) else .error .structError

/-- `HEADER.unpack` -/
def headerUnpack (header : List UInt8) : ℕ := ofBigEndian header

/-- `while remaining: ...`, and the chunks joined. -/
def recvLoop (sock : ByteSource) (chunks : List (List UInt8)) (remaining : ℕ) :
    Except RpcError (List UInt8 × ByteSource) :=
  if remaining = 0 then .ok (chunks.flatten, sock)
  else
    let (chunk, sock') := sock.recv remaining
    if chunk = [] then .error (.connectionError "Socket closed while receiving RPC payload.")
    else recvLoop sock' (chunks ++ [chunk]) (remaining - chunk.length)
termination_by remaining
decreasing_by
  have := List.length_pos_iff.2 ‹_›
  omega

/-- `_recv_exact` -/
def recvExact (sock : ByteSource) (nbytes : ℕ) : Except RpcError (List UInt8 × ByteSource) := recvLoop sock [] nbytes

variable {M : Type}

/-- `send_message`: the bytes that are sent. -/
def sendMessage (pickle : Pickle M) (sent : List UInt8) (message : M) : Except RpcError (List UInt8) := do
  let payload := pickle.dumps message
  let header ← headerPack payload.length
  .ok (sent ++ header ++ payload)

/-- `recv_message` -/
def recvMessage (pickle : Pickle M) (sock : ByteSource) : Except RpcError (M × ByteSource) := do
  let (header, sock) ← recvExact sock headerSize
  let payloadSize := headerUnpack header
  let (payload, sock) ← recvExact sock payloadSize
  match pickle.loads payload with
  | some message => .ok (message, sock)
  | none => .error .unpicklingError

def sendMessages (pickle : Pickle M) (messages : List M) : Except RpcError (List UInt8) :=
  messages.foldlM (sendMessage pickle) []

/-- Calls of `recv_message`, one after the other: the messages up to the first error. -/
def recvMessages (pickle : Pickle M) : ℕ → ByteSource → List M × Option RpcError
  | 0, _ => ([], none)
  | n + 1, sock =>
    match recvMessage pickle sock with
    | .ok (message, sock) => let rest := recvMessages pickle n sock; (message :: rest.1, rest.2)
    | .error e => ([], some e)

/-! ## Reading the stream -/

variable {sock : ByteSource} {chunks : List (List UInt8)} {remaining : ℕ}

def closed : RpcError := .connectionError "Socket closed while receiving RPC payload."

theorem recvLoop_step (chunks : List (List UInt8)) (hpos : remaining ≠ 0) (hne : sock.incoming ≠ []) :
    ∃ chunk rest, sock.incoming = chunk ++ rest ∧ 0 < chunk.length ∧ chunk.length ≤ remaining ∧
      recvLoop sock chunks remaining = recvLoop { sock with incoming := rest, calls := sock.calls + 1 }
        (chunks ++ [chunk]) (remaining - chunk.length) := by
  have hchunk := ByteSource.length_recv_pos (Nat.pos_of_ne_zero hpos) hne
  refine ⟨(sock.recv remaining).1, (sock.recv remaining).2.incoming, (ByteSource.recv_append sock remaining).symm,
    hchunk, ByteSource.length_recv_le sock remaining, ?_⟩
  rw [recvLoop, if_neg hpos]
  exact if_neg (List.length_pos_iff.1 hchunk)

/-- **A stream with enough bytes**: what is asked for is read, whatever the chunks are. -/
theorem recvLoop_ok (h : remaining ≤ sock.incoming.length) :
    ∃ calls, recvLoop sock chunks remaining = .ok (chunks.flatten ++ sock.incoming.take remaining,
      { sock with incoming := sock.incoming.drop remaining, calls := calls }) := by
  induction remaining using Nat.strong_induction_on generalizing sock chunks with
  | _ remaining ih =>
    by_cases hzero : remaining = 0
    · subst hzero
      refine ⟨sock.calls, ?_⟩
      rw [recvLoop, if_pos rfl, List.take_zero, List.append_nil, List.drop_zero]
    · have hne : sock.incoming ≠ [] := by
        rw [← List.length_pos_iff]
        omega
      obtain ⟨chunk, rest, heq, hpos, hle, hstep⟩ := recvLoop_step chunks hzero hne
      rw [heq, List.length_append] at h
      obtain ⟨calls, hrest⟩ := @ih (remaining - chunk.length) (by omega)
        { sock with incoming := rest, calls := sock.calls + 1 } (chunks ++ [chunk]) (by dsimp only; omega)
      refine ⟨calls, ?_⟩
      rw [hstep, hrest, heq, List.flatten_append, List.flatten_singleton, List.append_assoc, List.take_append,
        List.take_of_length_le hle, List.drop_append, List.drop_of_length_le hle, List.nil_append]

/-- **A stream that ends too early.** -/
theorem recvLoop_error (h : sock.incoming.length < remaining) : recvLoop sock chunks remaining = .error closed := by
  induction remaining using Nat.strong_induction_on generalizing sock chunks with
  | _ remaining ih =>
    by_cases hne : sock.incoming = []
    · rw [recvLoop, if_neg (by omega)]
      exact if_pos (ByteSource.recv_nil hne remaining)
    · obtain ⟨chunk, rest, heq, hpos, hle, hstep⟩ := recvLoop_step chunks (show remaining ≠ 0 by omega) hne
      rw [heq, List.length_append] at h
      rw [hstep]
      exact ih (remaining - chunk.length) (by omega) (by dsimp only; omega)

theorem recvExact_ok {nbytes : ℕ} (h : nbytes ≤ sock.incoming.length) :
    ∃ calls, recvExact sock nbytes = .ok (sock.incoming.take nbytes,
      { sock with incoming := sock.incoming.drop nbytes, calls := calls }) := recvLoop_ok h

theorem recvExact_error {nbytes : ℕ} (h : sock.incoming.length < nbytes) : recvExact sock nbytes = .error closed :=
  recvLoop_error h

/-! ## Messages -/

def frame (pickle : Pickle M) (message : M) : List UInt8 :=
  bigEndian headerSize (pickle.dumps message).length ++ pickle.dumps message

def Fits (pickle : Pickle M) (message : M) : Prop := (pickle.dumps message).length < 256 ^ headerSize

variable {pickle : Pickle M} {message : M}

theorem length_frame (pickle : Pickle M) (message : M) :
    (frame pickle message).length = headerSize + (pickle.dumps message).length := by
  rw [frame, List.length_append, length_bigEndian]

theorem sendMessage_eq_ok {sent out : List UInt8} :
    sendMessage pickle sent message = .ok out ↔ Fits pickle message ∧ out = sent ++ frame pickle message := by
  unfold sendMessage headerPack Fits frame
  dsimp only
  by_cases hfits : (pickle.dumps message).length < 256 ^ headerSize
  · rw [if_pos hfits, ← List.append_assoc]
    exact ⟨fun h => ⟨hfits, (Except.ok.inj h).symm⟩, fun h => congrArg Except.ok h.2.symm⟩
  · rw [if_neg hfits]
    exact iff_of_false (fun h => nomatch h) fun h => hfits h.1

theorem sendMessages_eq_ok {messages : List M} {sent out : List UInt8}
    (h : messages.foldlM (sendMessage pickle) sent = .ok out) :
    (∀ message ∈ messages, Fits pickle message) ∧ out = sent ++ messages.flatMap (frame pickle) := by
  induction messages generalizing sent with
  | nil => exact ⟨fun _ h => absurd h List.not_mem_nil, by rw [← Except.ok.inj h, List.flatMap_nil, List.append_nil]⟩
  | cons message messages ih =>
    rw [List.foldlM_cons] at h
    obtain ⟨mid, hmid, hrest⟩ := bind_eq_ok.1 h
    obtain ⟨hfits, rfl⟩ := sendMessage_eq_ok.1 hmid
    obtain ⟨hall, rfl⟩ := ih hrest
    refine ⟨List.forall_mem_cons.2 ⟨hfits, hall⟩, ?_⟩
    rw [List.flatMap_cons, List.append_assoc]

/-- **A message is read back**, and what follows it stays. -/
theorem recvMessage_frame {rest : List UInt8} (hfits : Fits pickle message)
    (h : sock.incoming = frame pickle message ++ rest) :
    ∃ calls, recvMessage pickle sock = .ok (message, { sock with incoming := rest, calls := calls }) := by
  have hlength := length_frame pickle message
  have hheader : headerSize ≤ sock.incoming.length := by
    rw [h, List.length_append]
    omega
  obtain ⟨calls, hread⟩ := recvExact_ok hheader
  have hpack : (bigEndian headerSize (pickle.dumps message).length).length = headerSize := length_bigEndian _ _
  have htake : sock.incoming.take headerSize = bigEndian headerSize (pickle.dumps message).length := by
    rw [h, frame, List.append_assoc]
    exact List.take_left' hpack
  have hdrop : sock.incoming.drop headerSize = pickle.dumps message ++ rest := by
    rw [h, frame, List.append_assoc]
    exact List.drop_left' hpack
  have hsize : headerUnpack (bigEndian headerSize (pickle.dumps message).length) = (pickle.dumps message).length :=
    ofBigEndian_bigEndian hfits
  rw [htake, hdrop] at hread
  have hpayload : (pickle.dumps message).length ≤ (pickle.dumps message ++ rest).length := by
    rw [List.length_append]
    omega
  obtain ⟨calls', hread'⟩ :=
    @recvExact_ok { sock with incoming := pickle.dumps message ++ rest, calls := calls } _ hpayload
  refine ⟨calls', ?_⟩
  unfold recvMessage
  simp only [hread, hsize, hread', bind, Except.bind, List.take_left, List.drop_left, pickle.loads_dumps]

/-- **A stream that ends inside a message**: there is no value. -/
theorem recvMessage_closed {k : ℕ} (hfits : Fits pickle message) (hk : k < (frame pickle message).length)
    (h : sock.incoming = (frame pickle message).take k) : recvMessage pickle sock = .error closed := by
  have hlength := length_frame pickle message
  have hincoming : sock.incoming.length = k := by
    rw [h, List.length_take]
    omega
  unfold recvMessage
  by_cases hshort : k < headerSize
  · rw [recvExact_error (hincoming.symm ▸ hshort)]
    rfl
  · obtain ⟨calls, hread⟩ := recvExact_ok (show headerSize ≤ sock.incoming.length by omega)
    have htake : sock.incoming.take headerSize = bigEndian headerSize (pickle.dumps message).length := by
      rw [h, List.take_take, Nat.min_eq_left (by omega), frame]
      exact List.take_left' (length_bigEndian _ _)
    have hsize : headerUnpack (bigEndian headerSize (pickle.dumps message).length) = (pickle.dumps message).length :=
      ofBigEndian_bigEndian hfits
    rw [htake] at hread
    have hrest : (sock.incoming.drop headerSize).length < (pickle.dumps message).length := by
      rw [List.length_drop]
      omega
    have hread' := @recvExact_error { sock with incoming := sock.incoming.drop headerSize, calls := calls } _ hrest
    simp only [hread, hsize, hread', bind, Except.bind]

/-- The messages of a stream that ends after `k` bytes: those whose frames are complete. -/
theorem recvMessages_take {messages : List M} {k : ℕ} (hfits : ∀ message ∈ messages, Fits pickle message)
    (h : sock.incoming = (messages.flatMap (frame pickle)).take k) :
    ((messages.flatMap (frame pickle)).length ≤ k → recvMessages pickle messages.length sock = (messages, none)) ∧
      (k < (messages.flatMap (frame pickle)).length →
        ∃ j < messages.length, ((messages.take j).flatMap (frame pickle)).length ≤ k ∧
          k < ((messages.take (j + 1)).flatMap (frame pickle)).length ∧
          recvMessages pickle messages.length sock = (messages.take j, some closed)) := by
  induction messages generalizing sock k with
  | nil => exact ⟨fun _ => rfl, fun hk => absurd hk (Nat.not_lt_zero k)⟩
  | cons message messages ih =>
    have hmessage := hfits message List.mem_cons_self
    rw [List.flatMap_cons, List.length_append]
    rw [List.flatMap_cons] at h
    by_cases hk : k < (frame pickle message).length
    · -- the stream ends inside the first message
      rw [List.take_append_of_le_length (Nat.le_of_lt hk)] at h
      refine ⟨fun hle => absurd hle (by omega), fun _ => ⟨0, Nat.succ_pos _, Nat.zero_le _, ?_, ?_⟩⟩
      · rw [List.take_succ_cons, List.take_zero, List.flatMap_singleton]
        exact hk
      · rw [List.length_cons, recvMessages, recvMessage_closed hmessage hk h]
        rfl
    · have hsplit : sock.incoming = frame pickle message ++
          (messages.flatMap (frame pickle)).take (k - (frame pickle message).length) := by
        rw [h, List.take_append, List.take_of_length_le (by omega)]
      obtain ⟨calls, hread⟩ := recvMessage_frame hmessage hsplit
      obtain ⟨hall, hcut⟩ := @ih
        { sock with
          incoming := (messages.flatMap (frame pickle)).take (k - (frame pickle message).length), calls := calls }
        (k - (frame pickle message).length) (fun m hm => hfits m (List.mem_cons_of_mem _ hm)) rfl
      refine ⟨fun hle => ?_, fun hlt => ?_⟩
      · rw [List.length_cons, recvMessages, hread]
        dsimp only
        rw [hall (by omega)]
      · obtain ⟨j, hj, hbefore, hafter, hread'⟩ := hcut (by omega)
        refine ⟨j + 1, Nat.succ_lt_succ hj, ?_, ?_, ?_⟩
        · rw [List.take_succ_cons, List.flatMap_cons, List.length_append]
          omega
        · rw [List.take_succ_cons, List.flatMap_cons, List.length_append]
          omega
        · rw [List.length_cons, recvMessages, hread]
          dsimp only
          rw [hread', List.take_succ_cons]

/-- **The messages of a socket.** However the stream is cut into chunks, the messages that were sent are received in
order. If the stream ends inside a message, those before it are received, and then there is an error. -/
theorem recvMessages_sent (pickle : Pickle M) (messages : List M) (cuts : ℕ → ℕ) {stream : List UInt8}
    (h : sendMessages pickle messages = .ok stream) :
    recvMessages pickle messages.length ⟨stream, cuts, 0⟩ = (messages, none) ∧
      ∀ k < stream.length, ∃ j < messages.length, ((messages.take j).flatMap (frame pickle)).length ≤ k ∧
        k < ((messages.take (j + 1)).flatMap (frame pickle)).length ∧
        recvMessages pickle messages.length ⟨stream.take k, cuts, 0⟩ = (messages.take j, some closed) := by
  obtain ⟨hfits, rfl⟩ := sendMessages_eq_ok h
  rw [List.nil_append]
  constructor
  · refine (recvMessages_take hfits ?_).1 le_rfl
    rw [List.take_length]
  · intro k hk
    exact (recvMessages_take hfits rfl).2 hk

def rawPickle : Pickle (List UInt8) := ⟨id, some, fun _ => rfl⟩

theorem recvMessages_bytes :
    recvMessages rawPickle 2 ⟨frame rawPickle [1, 2] ++ frame rawPickle [3], fun _ => 1, 0⟩ = ([[1, 2], [3]], none) ∧
      recvMessages rawPickle 2 ⟨(frame rawPickle [1, 2] ++ frame rawPickle [3]).take 12, fun _ => 1, 0⟩ =
        ([[1, 2]], some closed) := by
  have hsent : sendMessages rawPickle [[1, 2], [3]] = .ok (frame rawPickle [1, 2] ++ frame rawPickle [3]) := by decide
  obtain ⟨hall, hcut⟩ := recvMessages_sent rawPickle [[1, 2], [3]] (fun _ => 1) hsent
  obtain ⟨j, -, hbefore, hafter, hread⟩ := hcut 12 (by decide)
  have hj : j = 1 := by
    rcases j with _ | _ | j
    · exact absurd hafter (by decide)
    · rfl
    · rw [List.take_of_length_le (by simp)] at hbefore
      exact absurd hbefore (by decide)
  subst hj
  exact ⟨hall, hread⟩

end Opd.Clight.Rpc
