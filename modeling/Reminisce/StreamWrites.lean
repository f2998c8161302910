import Reminisce.Library.Runs
import Reminisce.Library.Slices
import Reminisce.ReferencePrimitives
import Reminisce.Upload

namespace Reminisce

open Slices

/-- The bytes that one background write of `tokio::fs::File` takes, 2 MiB. -/
def maxBufSize : Nat := 2 * 1024 * 1024

/-- Where the handler of one streamed upload stands. In `writing` it waits, inside
`write_all`, for its last piece before it hands over the next one of `rest`. -/
inductive StreamPhase
  | receiving
  | writing (rest : List Bytes)
  | finalizing (shardHash : Digest)
  | acked (shardHash : Digest)
  | failed
  deriving DecidableEq

/-- One streamed upload: the file as it is on disk, the pieces handed to the blocking pool
with the number of the handle they came through, and the bytes that went into the hasher. -/
structure StreamState where
  file : Bytes
  pending : List (Nat × Bytes)
  handles : Nat
  received : Bytes
  phase : StreamPhase
  deriving DecidableEq

def StreamState.init : StreamState :=
  { file := [], pending := [], handles := 0, received := [], phase := .receiving }

inductive StreamEvent
  | chunk (data : Bytes)
  | advance
  | complete (i : Nat)
  | final (shardHash : Digest)
  | acknowledge
  | abort

/-- `poll_write` hands the next piece to the pool and returns at once. -/
def StreamState.issue (s : StreamState) : List Bytes → StreamState
  | [] => { s with phase := .receiving }
  | [piece] => { s with pending := s.pending ++ [(s.handles, piece)], phase := .receiving }
  | piece :: rest =>
    { s with pending := s.pending ++ [(s.handles, piece)], phase := .writing rest }

/-- The handler of `StoreShardStreamInit` with the writes of `store_stream_chunk`: each chunk
opens a handle of its own, and dropping it waits for nothing. A background write appends its
piece when it completes. Without a chunk there is no temporary file to finalize. -/
def streamStep (blake3 : Bytes → Digest) (s : StreamState) : StreamEvent → Option StreamState
  | .chunk data =>
    match s.phase with
    | .receiving =>
      let received := s.received ++ data
      if maxShardBytes < received.length then some { s with received, phase := .failed }
      else some (StreamState.issue { s with received, handles := s.handles + 1 }
        (chunks maxBufSize (data.length + 1) data))
    | _ => none
  | .advance =>
    match s.phase with
    | .writing rest =>
      if s.pending.any fun entry => entry.1 = s.handles then none else some (s.issue rest)
    | _ => none
  | .complete i =>
    match s.pending[i]? with
    | some entry => some { s with file := s.file ++ entry.2, pending := s.pending.eraseIdx i }
    | none => none
  | .final shardHash =>
    match s.phase with
    | .receiving =>
      if blake3 s.received = shardHash ∧ 0 < s.handles then
        some { s with phase := .finalizing shardHash }
      else some { s with phase := .failed }
    | _ => none
  | .acknowledge =>
    match s.phase with
    | .finalizing shardHash => some { s with phase := .acked shardHash }
    | _ => none
  | .abort =>
    match s.phase with
    | .acked _ => none
    | _ => some { s with phase := .failed }

/-- A shard that was acknowledged is on disk as it was received and hashed. -/
def AckedExact (blake3 : Bytes → Digest) (s : StreamState) : Prop :=
  ∀ shardHash, s.phase = .acked shardHash → s.file = s.received ∧ blake3 s.file = shardHash

/-- Background writes complete in the order they were started, and the success is sent when
none is left. -/
def WritesSettled (s : StreamState) : StreamEvent → Prop
  | .complete i => i = 0
  | .acknowledge => s.pending = []
  | _ => True

/-- The bytes handed to `write_all` that are not in the file yet, in order. -/
def StreamState.unwritten (s : StreamState) : Bytes :=
  (s.pending.map (·.2)).flatten ++
    match s.phase with
    | .writing rest => rest.flatten
    | _ => []

/-- What the ordered completions keep: file and open writes together are what was received. -/
structure InOrder (blake3 : Bytes → Digest) (s : StreamState) : Prop where
  total : s.phase ≠ .failed → s.file ++ s.unwritten = s.received
  hashed : ∀ shardHash, s.phase = .finalizing shardHash ∨ s.phase = .acked shardHash →
    blake3 s.received = shardHash
  settled : ∀ shardHash, s.phase = .acked shardHash → s.pending = []

theorem issue_unwritten (s : StreamState) (pieces : List Bytes) :
    (s.issue pieces).file ++ (s.issue pieces).unwritten =
      s.file ++ ((s.pending.map (·.2)).flatten ++ pieces.flatten) := by
  unfold StreamState.issue
  split <;> simp [StreamState.unwritten]

theorem issue_phase (s : StreamState) (pieces : List Bytes) :
    (s.issue pieces).phase = .receiving ∨ ∃ rest, (s.issue pieces).phase = .writing rest := by
  unfold StreamState.issue
  split <;> simp

theorem issue_received (s : StreamState) (pieces : List Bytes) :
    (s.issue pieces).received = s.received := by
  unfold StreamState.issue
  split <;> rfl

theorem inOrder_issue {blake3 : Bytes → Digest} {s : StreamState} {pieces : List Bytes}
    (h : s.file ++ ((s.pending.map (·.2)).flatten ++ pieces.flatten) = s.received) :
    InOrder blake3 (s.issue pieces) := by
  refine ⟨fun _ => by rw [issue_unwritten, issue_received, h], ?_, ?_⟩
  · intro shardHash hphase
    rcases issue_phase s pieces with hr | ⟨rest, hr⟩ <;> simp [hr] at hphase
  · intro shardHash hphase
    rcases issue_phase s pieces with hr | ⟨rest, hr⟩ <;> simp [hr] at hphase

theorem inOrder_failed {blake3 : Bytes → Digest} {s : StreamState} (h : s.phase = .failed) :
    InOrder blake3 s := by
  refine ⟨fun hne => absurd h hne, ?_, ?_⟩
  · rintro shardHash (hphase | hphase) <;> simp [h] at hphase
  · intro shardHash hphase
    simp [h] at hphase

variable {blake3 : Bytes → Digest} {s t : StreamState}

theorem inOrder_chunk {data : Bytes} (hinv : InOrder blake3 s)
    (hstep : streamStep blake3 s (.chunk data) = some t) : InOrder blake3 t := by
  simp only [streamStep] at hstep
  split at hstep
  next hphase =>
    split at hstep
    next =>
      cases Option.some.inj hstep
      exact inOrder_failed rfl
    next =>
      cases Option.some.inj hstep
      have htotal := hinv.total (by simp [hphase])
      simp only [StreamState.unwritten, hphase, List.append_nil] at htotal
      refine inOrder_issue ?_
      rw [flatten_chunks (by decide) (by omega), ← List.append_assoc, htotal]
  next => simp at hstep

theorem inOrder_advance (hinv : InOrder blake3 s)
    (hstep : streamStep blake3 s .advance = some t) : InOrder blake3 t := by
  simp only [streamStep] at hstep
  split at hstep
  next rest hphase =>
    split at hstep
    next => simp at hstep
    next =>
      cases Option.some.inj hstep
      have htotal := hinv.total (by simp [hphase])
      simp only [StreamState.unwritten, hphase] at htotal
      exact inOrder_issue htotal
  next => simp at hstep

theorem inOrder_complete (hinv : InOrder blake3 s)
    (hstep : streamStep blake3 s (.complete 0) = some t) : InOrder blake3 t := by
  simp only [streamStep] at hstep
  split at hstep
  next entry hentry =>
    cases Option.some.inj hstep
    cases hp : s.pending with
    | nil => simp [hp] at hentry
    | cons first rest =>
      have hfirst : first = entry := by simpa [hp] using hentry
      subst hfirst
      refine ⟨fun hphase => ?_, hinv.hashed, fun shardHash hphase => ?_⟩
      · have htotal := hinv.total hphase
        simp only [StreamState.unwritten, hp, List.map_cons, List.flatten_cons] at htotal
        simp only [StreamState.unwritten, List.eraseIdx_zero, List.tail_cons,
          List.append_assoc]
        rw [← htotal, List.append_assoc]
      · have := hinv.settled shardHash hphase
        simp [hp] at this
  next => simp at hstep

theorem inOrder_final {shardHash : Digest} (hinv : InOrder blake3 s)
    (hstep : streamStep blake3 s (.final shardHash) = some t) : InOrder blake3 t := by
  simp only [streamStep] at hstep
  split at hstep
  next hphase =>
    split at hstep
    next hhash =>
      cases Option.some.inj hstep
      have htotal := hinv.total (by simp [hphase])
      simp only [StreamState.unwritten, hphase] at htotal
      refine ⟨fun _ => htotal, ?_, by simp⟩
      rintro other (h | h)
      · cases h
        exact hhash.1
      · simp at h
    next =>
      cases Option.some.inj hstep
      exact inOrder_failed rfl
  next => simp at hstep

theorem inOrder_acknowledge (hinv : InOrder blake3 s) (hpending : s.pending = [])
    (hstep : streamStep blake3 s .acknowledge = some t) : InOrder blake3 t := by
  simp only [streamStep] at hstep
  split at hstep
  next shardHash hphase =>
    cases Option.some.inj hstep
    have htotal := hinv.total (by simp [hphase])
    simp only [StreamState.unwritten, hphase] at htotal
    refine ⟨fun _ => htotal, ?_, fun _ _ => hpending⟩
    rintro other (h | h)
    · simp at h
    · cases h
      exact hinv.hashed shardHash (Or.inl hphase)
  next => simp at hstep

theorem inOrder_step {e : StreamEvent} (hinv : InOrder blake3 s) (hcond : WritesSettled s e)
    (hstep : streamStep blake3 s e = some t) : InOrder blake3 t := by
  cases e with
  | chunk data => exact inOrder_chunk hinv hstep
  | advance => exact inOrder_advance hinv hstep
  | complete i =>
    cases hcond
    exact inOrder_complete hinv hstep
  | final shardHash => exact inOrder_final hinv hstep
  | acknowledge => exact inOrder_acknowledge hinv hcond hstep
  | abort =>
    simp only [streamStep] at hstep
    split at hstep
    next => simp at hstep
    next =>
      cases Option.some.inj hstep
      exact inOrder_failed rfl

theorem inOrder_init : InOrder blake3 StreamState.init :=
  ⟨fun _ => rfl, by simp [StreamState.init], by simp [StreamState.init]⟩

theorem InOrder.ackedExact (hinv : InOrder blake3 s) : AckedExact blake3 s := by
  intro shardHash hphase
  have htotal := hinv.total (by simp [hphase])
  simp only [StreamState.unwritten, hphase, hinv.settled shardHash hphase, List.map_nil,
    List.flatten_nil, List.append_nil] at htotal
  rw [htotal]
  exact ⟨rfl, hinv.hashed shardHash (Or.inr hphase)⟩

/-- In every run whose background writes complete in order and before the success is sent,
an acknowledged shard is on disk as it was received. -/
theorem acked_exact_of_settled_writes {es : List StreamEvent}
    (hcond : Runs.Meets (streamStep blake3) WritesSettled StreamState.init es)
    (hrun : Runs.exec (streamStep blake3) StreamState.init es = some s) : AckedExact blake3 s := by
  have hinv : InOrder blake3 s :=
    Runs.exec_invariant (fun _ _ _ hs hc hstep => inOrder_step hs hc hstep) inOrder_init hcond hrun
  exact hinv.ackedExact

theorem streamStep_short_chunk {piece : Bytes} (hphase : s.phase = .receiving)
    (hne : piece ≠ []) (hpiece : piece.length ≤ maxBufSize)
    (htotal : (s.received ++ piece).length ≤ maxShardBytes) :
    streamStep blake3 s (.chunk piece) = some
      { s with
        received := s.received ++ piece, handles := s.handles + 1,
        pending := s.pending ++ [(s.handles + 1, piece)] } := by
  simp only [streamStep, hphase]
  rw [if_neg (Nat.not_lt.mpr htotal), chunks_of_le hne hpiece]
  simp only [StreamState.issue]

def settledRun : List StreamEvent :=
  [.chunk [1], .complete 0, .final (referenceHash [1]), .acknowledge]

def oneChunk : StreamState := ⟨[], [(1, [1])], 1, [1], .receiving⟩

theorem step_oneChunk : streamStep referenceHash StreamState.init (.chunk [1]) = some oneChunk :=
  streamStep_short_chunk rfl (by simp) (by decide) (by decide)

theorem final_oneChunk (file : Bytes) (pending : List (Nat × Bytes)) :
    streamStep referenceHash ⟨file, pending, 1, [1], .receiving⟩ (.final (referenceHash [1])) =
      some ⟨file, pending, 1, [1], .finalizing (referenceHash [1])⟩ := by
  simp [streamStep]

theorem exec_settledRun :
    Runs.exec (streamStep referenceHash) StreamState.init settledRun =
      some ⟨[1], [], 1, [1], .acked (referenceHash [1])⟩ := by
  simp only [settledRun, Runs.exec, step_oneChunk, Option.bind_some, oneChunk]
  simp [streamStep]

theorem acked_exact_settled_run :
    AckedExact referenceHash ⟨[1], [], 1, [1], .acked (referenceHash [1])⟩ := by
  refine acked_exact_of_settled_writes ?_ exec_settledRun
  refine ⟨trivial, fun t ht => ?_⟩
  cases Option.some.inj (step_oneChunk.symm.trans ht)
  refine ⟨rfl, fun t ht => ?_⟩
  cases Option.some.inj ht
  refine ⟨trivial, fun t ht => ?_⟩
  cases Option.some.inj ((final_oneChunk _ _).symm.trans ht)
  exact ⟨rfl, fun _ _ => trivial⟩

/-- Nothing waits for the write of the only chunk, so the success can be sent while the
finalized file is still empty. -/
theorem acknowledged_before_written :
    ¬ ∀ (es : List StreamEvent) (s : StreamState),
      Runs.exec (streamStep referenceHash) StreamState.init es = some s →
        AckedExact referenceHash s := by
  intro hall
  have hrun : Runs.exec (streamStep referenceHash) StreamState.init
      [.chunk [1], .final (referenceHash [1]), .acknowledge] =
        some ⟨[], [(1, [1])], 1, [1], .acked (referenceHash [1])⟩ := by
    simp only [Runs.exec, step_oneChunk, Option.bind_some, oneChunk]
    simp [streamStep]
  have hexact := hall _ _ hrun (referenceHash [1]) rfl
  simp at hexact

end Reminisce
