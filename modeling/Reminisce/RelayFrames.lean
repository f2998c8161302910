import Reminisce.CoordinatorPeers
import Reminisce.NodeTasks
import Reminisce.PeerSync

namespace Reminisce

def maxRelayPayload : Nat := 128 * 1024 * 1024

/-- What the coordinator's relay sends back on the requester's stream. -/
inductive RelayReply
  | relayResponse (payload : Bytes)
  | error (code : Nat) (message : String)
  deriving DecidableEq, Repr

/-- `Protocol::send` of a `RelayResponse`: four bytes of variant index and eight of length
come with the payload, and a frame above the limit is refused. -/
def sendRelayResponse (payload : Bytes) : Option RelayReply :=
  if maxMessageLen < 12 + payload.length then none else some (.relayResponse payload)

/-- The bytes a target delivers, each with the time of its delivery, and when the stream ends
(by its end or by a reset), if it does. -/
structure TargetStream where
  bytes : List (Time × UInt8)
  ended : Option Time
  deriving DecidableEq, Repr

/-- When the last of the bytes is there, for a reader that starts at `start`. -/
def arrival (start : Time) (bytes : List (Time × UInt8)) : Time :=
  bytes.foldl (fun t b => max t b.1) start

/-- What a `read_exact` comes to: when it is done, whether it filled its buffer, and the
buffer, whose unread part keeps its zeros. -/
structure ReadResult where
  doneAt : Time
  complete : Bool
  buffer : Bytes
  deriving DecidableEq, Repr

/-- `read_exact` of `n` bytes after the first `skip`; `none` while the stream neither delivers
nor ends. -/
def TargetStream.readExact (stream : TargetStream) (skip n : Nat) (start : Time) :
    Option ReadResult :=
  let rest := stream.bytes.drop skip
  if n ≤ rest.length then
    some ⟨arrival start (rest.take n), true, (rest.take n).map Prod.snd⟩
  else
    match stream.ended with
    | some e => some ⟨max start e, false,
        rest.map Prod.snd ++ List.replicate (n - rest.length) 0⟩
    | none => none

/-- `tokio::time::timeout`. -/
def within (deadline : Time) (result : Option ReadResult) : Option ReadResult :=
  result.filter fun r => r.doneAt ≤ deadline

/-- `u32::from_be_bytes`. -/
def fromBeBytes (bytes : Bytes) : Nat := bytes.foldl (fun n b => n * 256 + b.toNat) 0

/-- The stream to a target over its channel: whether it opens, and when the request is
written; a write that fails ends the relay. -/
structure ChannelIo where
  opened : Except String (Option Time)
  stream : TargetStream

/-- The channel path. Only the timeouts of the two reads are looked at, not their results. -/
def relayViaChannel (io : ChannelIo) : Option RelayReply :=
  match io.opened with
  | .error e => some (.error 503 e)
  | .ok none => none
  | .ok (some start) =>
    match within (start + secs 30) (io.stream.readExact 0 4 start) with
    | none => none
    | some lenBuf =>
      let respLen := fromBeBytes lenBuf.buffer
      if maxRelayPayload < respLen then none
      else
        match within (lenBuf.doneAt + secs 30) (io.stream.readExact 4 respLen lenBuf.doneAt) with
        | none => none
        | some respPayload => sendRelayResponse respPayload.buffer

/-- The exchange on a direct connection, in times since its start: opening or writing fails,
or the request is written. -/
structure DirectIo where
  opened : Except Time Time
  stream : TargetStream

inductive ExchangeResult
  | answered (payload : Bytes)
  | failed
  | timedOut
  deriving DecidableEq, Repr

/-- The `exchange` future under its timeout. -/
def directExchange (io : DirectIo) : ExchangeResult :=
  match io.opened with
  | .error failedAt => if failedAt ≤ secs 30 then .failed else .timedOut
  | .ok start =>
    match within (secs 30) (io.stream.readExact 0 4 start) with
    | none => .timedOut
    | some lenBuf =>
      if lenBuf.complete then
        let respLen := fromBeBytes lenBuf.buffer
        if maxRelayPayload < respLen then .failed
        else
          match within (secs 30) (io.stream.readExact 4 respLen lenBuf.doneAt) with
          | none => .timedOut
          | some respPayload => if respPayload.complete then .answered respPayload.buffer else .failed
      else .failed

def relayDirect (targetNodeId : NodeId) (io : DirectIo) : Option RelayReply :=
  match directExchange io with
  | .answered payload => sendRelayResponse payload
  | .failed => none
  | .timedOut => some (.error 504 s!"Relay to {targetNodeId} timed out")

inductive ConnectResult
  | connected (io : DirectIo)
  | refused (message : String)
  | timedOut

/-- What a relay meets: the channel of the target, if it has one, the peers, and the outcome of
dialing an address. -/
structure RelayEnv where
  channel : Option ChannelIo
  peers : PeerMap
  peerTtlSecs : Nat
  now : Time
  connect : SocketAddr → ConnectResult

/-- The address of a peer with the id that was seen within the time to live. -/
def RelayEnv.targetAddr (env : RelayEnv) (targetNodeId : NodeId) : Option SocketAddr :=
  (env.peers.entries.find? fun e => e.2.nodeId = targetNodeId ∧
    (env.now - e.2.lastSeen) / nanosPerSec < env.peerTtlSecs).map fun e => ⟨e.2.ip, e.2.quicPort⟩

def relay (env : RelayEnv) (targetNodeId : NodeId) (payload : Bytes) : Option RelayReply :=
  if maxRelayPayload < payload.length then none
  else
    match env.channel with
    | some io => relayViaChannel io
    | none =>
      match env.targetAddr targetNodeId with
      | none => some (.error 404 s!"Target peer not found: {targetNodeId}")
      | some addr =>
        match env.connect addr with
        | .refused message => some (.error 503 message)
        | .timedOut => some (.error 504 "Timed out")
        | .connected io => relayDirect targetNodeId io

/-- The stream begins with a frame: the length of the body, then the body. -/
def TargetStream.Frame (stream : TargetStream) (body : Bytes) : Prop :=
  4 ≤ stream.bytes.length ∧ fromBeBytes ((stream.bytes.take 4).map Prod.snd) = body.length ∧
    ((stream.bytes.drop 4).take body.length).map Prod.snd = body

/-- The length is there 30 seconds after the request was written, and the body 30 seconds
after the length. -/
def TargetStream.InTimeOnChannel (stream : TargetStream) (start : Time) (length : Nat) : Prop :=
  arrival start (stream.bytes.take 4) ≤ start + secs 30 ∧
    arrival (arrival start (stream.bytes.take 4)) ((stream.bytes.drop 4).take length) ≤
      arrival start (stream.bytes.take 4) + secs 30

/-- Everything is there 30 seconds after the exchange began. -/
def TargetStream.InTimeDirect (stream : TargetStream) (start : Time) (length : Nat) : Prop :=
  arrival (arrival start (stream.bytes.take 4)) ((stream.bytes.drop 4).take length) ≤ secs 30

/-- The target sent one complete frame of at most the allowed size in time. -/
def ChannelIo.Answered (io : ChannelIo) (body : Bytes) : Prop :=
  ∃ start, io.opened = .ok (some start) ∧ io.stream.Frame body ∧ body.length ≤ maxRelayPayload ∧
    io.stream.InTimeOnChannel start body.length

def DirectIo.Answered (io : DirectIo) (body : Bytes) : Prop :=
  ∃ start, io.opened = .ok start ∧ io.stream.Frame body ∧ body.length ≤ maxRelayPayload ∧
    io.stream.InTimeDirect start body.length

/-- The relayed request is answered by the target with `body`, over the channel or else over
a direct connection. -/
def RelayEnv.Answered (env : RelayEnv) (targetNodeId : NodeId) (payload body : Bytes) : Prop :=
  payload.length ≤ maxRelayPayload ∧
    match env.channel with
    | some io => io.Answered body
    | none => ∃ addr io, env.targetAddr targetNodeId = some addr ∧
        env.connect addr = .connected io ∧ io.Answered body

/-- A response goes back exactly for a complete frame in time, with its body. -/
def RelayEnv.RelaysExactly (env : RelayEnv) (targetNodeId : NodeId) (payload : Bytes) : Prop :=
  ∀ body, relay env targetNodeId payload = some (.relayResponse body) ↔
    env.Answered targetNodeId payload body

variable {stream : TargetStream} {skip n : Nat} {start deadline : Time} {result : ReadResult}
  {body : Bytes}

theorem within_iff {read : Option ReadResult} :
    within deadline read = some result ↔ read = some result ∧ result.doneAt ≤ deadline := by
  simp [within, Option.filter_eq_some_iff]

theorem le_arrival (start : Time) (bytes : List (Time × UInt8)) : start ≤ arrival start bytes := by
  induction bytes generalizing start with
  | nil => exact Nat.le_refl start
  | cons b bytes ih =>
    have hstep := ih (max start b.1)
    have hmax := Nat.le_max_left start b.1
    exact Nat.le_trans hmax hstep

/-- A read either gets all its bytes or is cut short by the end of the stream. -/
theorem readExact_iff : stream.readExact skip n start = some result ↔
    (n ≤ (stream.bytes.drop skip).length ∧ result =
      ⟨arrival start ((stream.bytes.drop skip).take n), true,
        ((stream.bytes.drop skip).take n).map Prod.snd⟩) ∨
    ((stream.bytes.drop skip).length < n ∧ ∃ e, stream.ended = some e ∧ result =
      ⟨max start e, false, (stream.bytes.drop skip).map Prod.snd ++
        List.replicate (n - (stream.bytes.drop skip).length) 0⟩) := by
  unfold TargetStream.readExact
  simp only
  by_cases h : n ≤ (stream.bytes.drop skip).length
  · have hnot : ¬ (stream.bytes.drop skip).length < n := by omega
    simp only [h, if_true, hnot, false_and, or_false, true_and, Option.some.injEq]
    exact eq_comm
  · have hlt : (stream.bytes.drop skip).length < n := by omega
    simp only [h, if_false, hlt, false_and, false_or, true_and]
    cases stream.ended with
    | none => simp
    | some e =>
      simp only [Option.some.injEq, exists_eq_left']
      exact eq_comm

/-- The read of the length bytes. -/
theorem readLength_iff : stream.readExact 0 4 start = some result ↔
    (4 ≤ stream.bytes.length ∧ result =
      ⟨arrival start (stream.bytes.take 4), true, (stream.bytes.take 4).map Prod.snd⟩) ∨
    (stream.bytes.length < 4 ∧ ∃ e, stream.ended = some e ∧ result =
      ⟨max start e, false, stream.bytes.map Prod.snd ++
        List.replicate (4 - stream.bytes.length) 0⟩) := by
  rw [readExact_iff, List.drop_zero]

theorem max_le_add_iff {start e d : Nat} : max start e ≤ start + d ↔ e ≤ start + d := by
  omega

theorem readExact_length (h : stream.readExact skip n start = some result) :
    result.buffer.length = n := by
  rcases readExact_iff.mp h with ⟨hle, rfl⟩ | ⟨hlt, e, _, rfl⟩
  · simp only [List.length_map, List.length_take]
    omega
  · simp only [List.length_append, List.length_map, List.length_replicate]
    omega

theorem sendRelayResponse_iff {payload : Bytes} :
    sendRelayResponse payload = some (.relayResponse body) ↔
      payload = body ∧ 12 + body.length ≤ maxMessageLen := by
  unfold sendRelayResponse
  split
  next h =>
    refine iff_of_false (by simp) ?_
    rintro ⟨rfl, hle⟩
    omega
  next h =>
    simp only [Option.some.injEq, RelayReply.relayResponse.injEq]
    constructor
    · rintro rfl
      exact ⟨rfl, by omega⟩
    · exact fun hp => hp.1

/-- A complete frame in time is what the two reads of the direct path get. -/
theorem directExchange_answered (io : DirectIo) :
    directExchange io = .answered body ↔ io.Answered body := by
  constructor
  · intro h
    unfold directExchange at h
    split at h
    next => split at h <;> simp at h
    next start hopen =>
      split at h
      next => simp at h
      next lenBuf hlen =>
        obtain ⟨hread, hin⟩ := within_iff.mp hlen
        split at h
        next hcomplete =>
          simp only at h
          split at h
          next => simp at h
          next hsize =>
            split at h
            next => simp at h
            next resp hresp =>
              obtain ⟨hread', hin'⟩ := within_iff.mp hresp
              split at h
              next hcomplete' =>
                rcases readExact_iff.mp hread with ⟨hfour, rfl⟩ | ⟨_, e, _, rfl⟩
                · rcases readExact_iff.mp hread' with ⟨hall, rfl⟩ | ⟨_, e, _, rfl⟩
                  · cases ExchangeResult.answered.inj h
                    have hblen := readExact_length hread'
                    simp only [List.drop_zero] at hfour hall hblen hin' hsize ⊢
                    refine ⟨start, hopen, ⟨hfour, hblen.symm, ?_⟩, by omega, ?_⟩
                    · rw [hblen]
                    · unfold TargetStream.InTimeDirect
                      rw [hblen]
                      exact hin'
                  · simp at hcomplete'
                · simp at hcomplete
              next => simp at h
        next => simp at h
  · rintro ⟨start, hopen, ⟨hfour, hlen, hbody⟩, hsize, hin⟩
    have hdrop : body.length ≤ (io.stream.bytes.drop 4).length := by
      have h := congrArg List.length hbody
      simp only [List.length_map, List.length_take] at h
      omega
    unfold TargetStream.InTimeDirect at hin
    have hfirst : within (secs 30) (io.stream.readExact 0 4 start) = some
        ⟨arrival start (io.stream.bytes.take 4), true, (io.stream.bytes.take 4).map Prod.snd⟩ := by
      refine within_iff.mpr ⟨readExact_iff.mpr (Or.inl ⟨by simpa using hfour, by simp⟩), ?_⟩
      exact Nat.le_trans (le_arrival _ _) hin
    have hsecond : within (secs 30) (io.stream.readExact 4 body.length
        (arrival start (io.stream.bytes.take 4))) = some
        ⟨arrival (arrival start (io.stream.bytes.take 4))
          ((io.stream.bytes.drop 4).take body.length), true, body⟩ := by
      refine within_iff.mpr ⟨readExact_iff.mpr (Or.inl ⟨hdrop, ?_⟩), hin⟩
      rw [hbody]
    have hnot : ¬ maxRelayPayload < body.length := by omega
    simp only [directExchange, hopen, hfirst, hlen, hsecond, if_true, hnot, if_false]

theorem relayDirect_iff {targetNodeId : NodeId} {io : DirectIo} :
    relayDirect targetNodeId io = some (.relayResponse body) ↔
      io.Answered body ∧ 12 + body.length ≤ maxMessageLen := by
  rw [← directExchange_answered]
  unfold relayDirect
  cases directExchange io with
  | answered payload =>
    simp only [sendRelayResponse_iff, ExchangeResult.answered.injEq]
  | failed => simp
  | timedOut => simp

/-- A stream over the channel ends before its frame is complete and the reads are done in
time; `announced` is the length they read, missing bytes of it as zeros. -/
def ChannelIo.EndsShort (io : ChannelIo) (announced : Nat) : Prop :=
  ∃ start e, io.opened = .ok (some start) ∧ io.stream.ended = some e ∧
    ((io.stream.bytes.length < 4 ∧ e ≤ start + secs 30 ∧
        announced = fromBeBytes (io.stream.bytes.map Prod.snd ++
          List.replicate (4 - io.stream.bytes.length) 0)) ∨
      (4 ≤ io.stream.bytes.length ∧ arrival start (io.stream.bytes.take 4) ≤ start + secs 30 ∧
        announced = fromBeBytes ((io.stream.bytes.take 4).map Prod.snd) ∧
        io.stream.bytes.length < 4 + announced ∧
        e ≤ arrival start (io.stream.bytes.take 4) + secs 30))

/-- The body that is made up for a stream that ends short. -/
def ChannelIo.padded (io : ChannelIo) (announced : Nat) : Bytes :=
  (io.stream.bytes.drop 4).map Prod.snd ++
    List.replicate (announced - (io.stream.bytes.drop 4).length) 0

theorem length_padded {io : ChannelIo} {announced : Nat} (h : io.EndsShort announced) :
    (io.padded announced).length = announced := by
  obtain ⟨start, e, _, _, hcases⟩ := h
  simp only [ChannelIo.padded, List.length_append, List.length_map, List.length_replicate,
    List.length_drop]
  rcases hcases with ⟨hlt, _⟩ | ⟨_, _, _, hlt, _⟩
  · omega
  · omega

/-- The reads of the channel path, with the length of the first as the size of the second. -/
def ChannelIo.Collects (io : ChannelIo) (body : Bytes) : Prop :=
  ∃ start lenBuf resp, io.opened = .ok (some start) ∧
    io.stream.readExact 0 4 start = some lenBuf ∧ lenBuf.doneAt ≤ start + secs 30 ∧
    fromBeBytes lenBuf.buffer ≤ maxRelayPayload ∧
    io.stream.readExact 4 (fromBeBytes lenBuf.buffer) lenBuf.doneAt = some resp ∧
    resp.doneAt ≤ lenBuf.doneAt + secs 30 ∧ resp.buffer = body

theorem relayViaChannel_iff {io : ChannelIo} :
    relayViaChannel io = some (.relayResponse body) ↔
      io.Collects body ∧ 12 + body.length ≤ maxMessageLen := by
  constructor
  · intro h
    unfold relayViaChannel at h
    split at h
    next => simp at h
    next => simp at h
    next start hopen =>
      split at h
      next => simp at h
      next lenBuf hlen =>
        obtain ⟨hread, hin⟩ := within_iff.mp hlen
        simp only at h
        split at h
        next => simp at h
        next hsize =>
          split at h
          next => simp at h
          next resp hresp =>
            obtain ⟨hread', hin'⟩ := within_iff.mp hresp
            obtain ⟨hbody, hfits⟩ := sendRelayResponse_iff.mp h
            exact ⟨⟨start, lenBuf, resp, hopen, hread, hin, by omega, hread', hin', hbody⟩, hfits⟩
  · rintro ⟨⟨start, lenBuf, resp, hopen, hread, hin, hsize, hread', hin', hbody⟩, hfits⟩
    have hfirst := within_iff.mpr ⟨hread, hin⟩
    have hsecond := within_iff.mpr ⟨hread', hin'⟩
    have hnot : ¬ maxRelayPayload < fromBeBytes lenBuf.buffer := by omega
    simp only [relayViaChannel, hopen, hfirst, hnot, if_false, hsecond]
    exact sendRelayResponse_iff.mpr ⟨hbody, hfits⟩

/-- What is collected is the body of a complete frame, or made up for one that ends short. -/
theorem ChannelIo.Collects.cases {io : ChannelIo} (h : io.Collects body) :
    io.Answered body ∨ (io.EndsShort body.length ∧ body = io.padded body.length) := by
  obtain ⟨start, lenBuf, resp, hopen, hread, hin, hsize, hread', hin', hbody⟩ := h
  have hlength : body.length = fromBeBytes lenBuf.buffer := by
    rw [← hbody]
    exact readExact_length hread'
  rw [← hlength] at hsize hread'
  rcases readLength_iff.mp hread with ⟨hfour, rfl⟩ | ⟨hlt, e, hended, rfl⟩
  · rcases readExact_iff.mp hread' with ⟨hall, rfl⟩ | ⟨hlt, e, hended, rfl⟩
    · exact Or.inl ⟨start, hopen, ⟨hfour, hlength.symm, hbody⟩, hsize, hin, hin'⟩
    · have hshort : io.stream.bytes.length < 4 + body.length := by
        rw [List.length_drop] at hlt
        omega
      refine Or.inr ⟨⟨start, e, hopen, hended, Or.inr ⟨hfour, hin, hlength, hshort, ?_⟩⟩,
        hbody.symm⟩
      exact max_le_add_iff.mp hin'
  · refine Or.inr ⟨⟨start, e, hopen, hended, Or.inl ⟨hlt, max_le_add_iff.mp hin, hlength⟩⟩, ?_⟩
    have hnone : io.stream.bytes.drop 4 = [] := List.drop_eq_nil_of_le (by omega)
    rcases readExact_iff.mp hread' with ⟨hall, rfl⟩ | ⟨hshort, e', hended', rfl⟩
    · rw [hnone, List.length_nil, Nat.le_zero, List.length_eq_zero_iff] at hall
      rw [hall]
      simp [ChannelIo.padded, hnone]
    · exact hbody.symm

/-- Two reads in time collect the second buffer. -/
theorem ChannelIo.collects_of_reads {io : ChannelIo} {lenBuf resp : ReadResult} {announced : Nat}
    (hopen : io.opened = .ok (some start)) (hread : io.stream.readExact 0 4 start = some lenBuf)
    (hin : lenBuf.doneAt ≤ start + secs 30) (hlen : fromBeBytes lenBuf.buffer = announced)
    (hsize : announced ≤ maxRelayPayload)
    (hread' : io.stream.readExact 4 announced lenBuf.doneAt = some resp)
    (hin' : resp.doneAt ≤ lenBuf.doneAt + secs 30) : io.Collects resp.buffer := by
  subst hlen
  exact ⟨start, lenBuf, resp, hopen, hread, hin, hsize, hread', hin', rfl⟩

theorem ChannelIo.Answered.collects {io : ChannelIo} (h : io.Answered body) :
    io.Collects body := by
  obtain ⟨start, hopen, ⟨hfour, hlen, hbody⟩, hsize, hin, hin'⟩ := h
  have hdrop : body.length ≤ (io.stream.bytes.drop 4).length := by
    have h := congrArg List.length hbody
    rw [List.length_map, List.length_take] at h
    omega
  have hread' : io.stream.readExact 4 body.length (arrival start (io.stream.bytes.take 4)) =
      some ⟨arrival (arrival start (io.stream.bytes.take 4))
        ((io.stream.bytes.drop 4).take body.length), true, body⟩ := by
    refine readExact_iff.mpr (Or.inl ⟨hdrop, ?_⟩)
    rw [hbody]
  exact ChannelIo.collects_of_reads hopen (readLength_iff.mpr (Or.inl ⟨hfour, rfl⟩)) hin hlen hsize
    hread' hin'

theorem ChannelIo.EndsShort.collects {io : ChannelIo} {announced : Nat}
    (h : io.EndsShort announced) (hsize : announced ≤ maxRelayPayload) :
    io.Collects (io.padded announced) := by
  obtain ⟨start, e, hopen, hended, ⟨hlt, hin, hann⟩ | ⟨hfour, hin, hann, hlt, hin'⟩⟩ := h
  · have hnone : io.stream.bytes.drop 4 = [] := List.drop_eq_nil_of_le (by omega)
    have hread : io.stream.readExact 0 4 start = some ⟨max start e, false,
        io.stream.bytes.map Prod.snd ++ List.replicate (4 - io.stream.bytes.length) 0⟩ :=
      readLength_iff.mpr (Or.inr ⟨hlt, e, hended, rfl⟩)
    have hread' : ∃ complete, io.stream.readExact 4 announced (max start e) =
        some ⟨max start e, complete, io.padded announced⟩ := by
      cases announced with
      | zero => exact ⟨true, readExact_iff.mpr (Or.inl ⟨by simp, by
          simp [ChannelIo.padded, hnone, arrival]⟩)⟩
      | succ m => exact ⟨false, readExact_iff.mpr (Or.inr ⟨by simp [hnone], e, hended, by
          simp [ChannelIo.padded]⟩)⟩
    obtain ⟨complete, hread'⟩ := hread'
    exact ChannelIo.collects_of_reads hopen hread (max_le_add_iff.mpr hin) hann.symm hsize hread'
      (Nat.le_add_right _ _)
  · have hread' : io.stream.readExact 4 announced (arrival start (io.stream.bytes.take 4)) =
        some ⟨max (arrival start (io.stream.bytes.take 4)) e, false, io.padded announced⟩ := by
      refine readExact_iff.mpr (Or.inr ⟨?_, e, hended, rfl⟩)
      rw [List.length_drop]
      omega
    exact ChannelIo.collects_of_reads hopen (readLength_iff.mpr (Or.inl ⟨hfour, rfl⟩)) hin
      hann.symm hsize hread' (max_le_add_iff.mpr hin')

/-- A stream that ends short has no complete frame. -/
theorem ChannelIo.EndsShort.not_answered {io : ChannelIo} {announced : Nat}
    (h : io.EndsShort announced) : ¬ io.Answered body := by
  rintro ⟨start, _, ⟨hfour, hlen, hbody⟩, _⟩
  obtain ⟨_, e, _, _, ⟨hlt, _⟩ | ⟨_, _, hann, hlt, _⟩⟩ := h
  · omega
  · have hb := congrArg List.length hbody
    rw [List.length_map, List.length_take, List.length_drop] at hb
    rw [hlen] at hann
    omega

/-- The channel path is exact when complete frames fit a message and those that end short
announce more than fits. -/
theorem relayViaChannel_exact_iff {io : ChannelIo} :
    (∀ body, relayViaChannel io = some (.relayResponse body) ↔ io.Answered body) ↔
      (∀ body, io.Answered body → 12 + body.length ≤ maxMessageLen) ∧
      ∀ announced, io.EndsShort announced → maxMessageLen < 12 + announced := by
  constructor
  · intro h
    constructor
    · intro body hb
      exact (relayViaChannel_iff.mp ((h body).mpr hb)).2
    · intro announced hshort
      by_contra hnot
      have hsize : announced ≤ maxRelayPayload := by
        have : maxMessageLen = maxRelayPayload := rfl
        omega
      have hfits : 12 + (io.padded announced).length ≤ maxMessageLen := by
        rw [length_padded hshort]
        omega
      have hsent := relayViaChannel_iff.mpr ⟨hshort.collects hsize, hfits⟩
      exact hshort.not_answered ((h _).mp hsent)
  · rintro ⟨hfits, hshort⟩ body
    constructor
    · intro hsent
      obtain ⟨hcol, hlen⟩ := relayViaChannel_iff.mp hsent
      rcases hcol.cases with hans | ⟨hends, _⟩
      · exact hans
      · have := hshort _ hends
        omega
    · intro hans
      exact relayViaChannel_iff.mpr ⟨hans.collects, hfits body hans⟩

/-- Where the relay does what it should: an answer fits a protocol message, and an answer over
a channel that ends short announces more than fits. -/
def RelayEnv.AnswersFit (env : RelayEnv) (targetNodeId : NodeId) (payload : Bytes) : Prop :=
  (∀ body, env.Answered targetNodeId payload body → 12 + body.length ≤ maxMessageLen) ∧
    (payload.length ≤ maxRelayPayload → ∀ io, env.channel = some io →
      ∀ announced, io.EndsShort announced → maxMessageLen < 12 + announced)

/-- The relay sends back exactly the complete frames that arrive in time, on both paths, if
and only if answers fit a message and no short answer over a channel could be sent. -/
theorem relay_exact_iff (env : RelayEnv) (targetNodeId : NodeId) (payload : Bytes) :
    env.RelaysExactly targetNodeId payload ↔ env.AnswersFit targetNodeId payload := by
  unfold RelayEnv.RelaysExactly RelayEnv.AnswersFit RelayEnv.Answered relay
  by_cases hsize : maxRelayPayload < payload.length
  · have hnot : ¬ payload.length ≤ maxRelayPayload := by omega
    simp [hsize, hnot]
  · have hle : payload.length ≤ maxRelayPayload := by omega
    simp only [hsize, if_false, hle, true_and, true_implies]
    cases hchannel : env.channel with
    | some io =>
      simp only [Option.some.injEq, forall_eq']
      exact relayViaChannel_exact_iff
    | none =>
      simp only [reduceCtorEq, false_implies, implies_true, and_true]
      cases haddr : env.targetAddr targetNodeId with
      | none => simp
      | some addr =>
        cases hconn : env.connect addr with
        | refused message => simp [hconn]
        | timedOut => simp [hconn]
        | connected io =>
          have hone : ∀ body, (∃ a i, some addr = some a ∧ env.connect a = .connected i ∧
              DirectIo.Answered i body) ↔ io.Answered body := by
            intro body
            constructor
            · rintro ⟨a, i, ha, hi, hans⟩
              cases Option.some.inj ha
              rw [hconn] at hi
              cases ConnectResult.connected.inj hi
              exact hans
            · exact fun hans => ⟨addr, io, rfl, hconn, hans⟩
          simp only [hone, hconn, relayDirect_iff]
          constructor
          · intro h body hans
            exact ((h body).mpr hans).2
          · intro h body
            exact ⟨fun hb => hb.1, fun hans => ⟨hans, h body hans⟩⟩

/-- A target that closes its channel stream without an answer. -/
def silentChannel : RelayEnv :=
  { channel := some { opened := .ok (some 0), stream := ⟨[], some 0⟩ }
    peers := PeerMap.empty, peerTtlSecs := 120, now := 0, connect := fun _ => .timedOut }

/-- The requester is sent an empty response that nobody gave. -/
theorem silent_channel_answered : relay silentChannel "target" [1, 2, 3] = some (.relayResponse []) ∧
    ¬ silentChannel.RelaysExactly "target" [1, 2, 3] := by
  have hsent : relay silentChannel "target" [1, 2, 3] = some (.relayResponse []) := by decide +kernel
  refine ⟨hsent, fun hexact => ?_⟩
  obtain ⟨_, start, _, ⟨hfour, _⟩, _⟩ := (hexact []).mp hsent
  simp at hfour

end Reminisce
