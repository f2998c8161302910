import Reminisce.Encryption
import Reminisce.Upload

namespace Reminisce

open Slices Results

structure RestoredFile where
  data : Bytes
  filename : String
  mediaType : String
  deriving DecidableEq, Repr

structure FileRecord where
  name : String
  ext : String
  mediaType : String
  encryptionKey : Bytes
  encryptedSize : Int
  segmentCount : Int
  segmentEncSizes : Option (List Int)
  dataShards : Option Int
  parityShards : Option Int
  deriving DecidableEq, Repr

/-- `query_opt`: at most one row, or an error. -/
def queryOpt {α : Type} : List α → Except Failure (Option α)
  | [] => .ok none
  | [row] => .ok (some row)
  | _ => .error (.error "query returned an unexpected number of rows")

/-- The rows of `table` a caller may restore. An owner id that is no UUID filters nothing. -/
def Database.visible (db : Database) (table : MediaTable) (fileHash : String)
    (ownerUuid : Option UserId) : List MediaRow :=
  (db.media table).filter fun row => row.hash = fileHash ∧ row.deletedAt = none ∧
    ∀ uid ∈ ownerUuid, row.userId = uid

def MediaTable.mediaType : MediaTable → String
  | .images => "image"
  | .videos => "video"

/-- Reading NULL into the non-optional `encrypted_size` panics. -/
def fileRecordOf (P : Primitives) (apiSecret : String) (table : MediaTable) (row : MediaRow) :
    Except Failure FileRecord :=
  match row.p2pEncryptionKey with
  | none => .error (.error "p2p_encryption_key is NULL")
  | some wrapped =>
    match decryptKey P wrapped apiSecret with
    | .error e => .error (.error e)
    | .ok key =>
      match row.p2pEncryptedSize with
      | none => .error .panic
      | some encryptedSize => .ok
        { name := row.name, ext := row.ext, mediaType := table.mediaType
          encryptionKey := key, encryptedSize := encryptedSize
          segmentCount := row.p2pSegmentCount, segmentEncSizes := row.p2pSegmentEncSizes
          dataShards := row.p2pDataShards, parityShards := row.p2pParityShards }

def queryFileRecord (P : Primitives) (db : Database) (fileHash : String)
    (ownerUserId : Option String) (apiSecret : String) : Except Failure (Option FileRecord) := do
  let ownerUuid := ownerUserId.bind P.parseUuid
  match ← queryOpt (db.visible .images fileHash ownerUuid) with
  | some row => (fileRecordOf P apiSecret .images row).map some
  | none =>
    match ← queryOpt (db.visible .videos fileHash ownerUuid) with
    | some row => (fileRecordOf P apiSecret .videos row).map some
    | none => pure none

def parseShardHash (hexStr : List Char) : Option Digest :=
  match Hex.decode hexStr with
  | none => none
  | some bytes => if h : bytes.length = 32 then some ⟨bytes, h⟩ else none

/-- A shard fetcher may answer each of its calls differently. -/
abbrev Fetch := Nat → NodeId → Digest → Option Bytes

/-- The fetch loop, after `call` fetches. -/
def fetchShards (P : Primitives) (fetch : Fetch) :
    Nat → List (Option Bytes) → List ShardRow → List (Option Bytes)
  | _, fullShards, [] => fullShards
  | call, fullShards, row :: rest =>
    let idx := asUsize row.shardIndex
    if Erasure.totalShards ≤ idx then fetchShards P fetch call fullShards rest
    else
      match parseShardHash row.shardHash with
      | none => fetchShards P fetch call fullShards rest
      | some hashBytes =>
        match fetch call row.nodeId hashBytes with
        | some data =>
          if toHex (P.blake3 data) = row.shardHash then
            fetchShards P fetch (call + 1) (fullShards.set idx (some data)) rest
          else fetchShards P fetch (call + 1) fullShards rest
        | none => fetchShards P fetch (call + 1) fullShards rest

/-- The decoding at the end of `restore_file_with_fetcher`. -/
def decodeShards (P : Primitives) (rec : FileRecord) (fullShards : List (Option Bytes)) :
    Except Failure Bytes :=
  let dataShards := asUsize (rec.dataShards.getD Erasure.dataShards)
  let parityShards := asUsize
    (rec.parityShards.getD (Erasure.totalShards - Erasure.dataShards : Nat))
  if rec.segmentCount ≤ 1 then
    (restoreFromBackup P fullShards (asUsize rec.encryptedSize) rec.encryptionKey dataShards
      parityShards).mapError fun e => .error s!"Restore failed: {e.text}"
  else
    match rec.segmentEncSizes with
    | none => .error (.error "p2p_segment_enc_sizes is NULL for multi-segment file")
    | some encSizes => restoreSegmented P fullShards rec.encryptionKey 0 encSizes

def restoreFileWithFetcher (P : Primitives) (db : Database) (fileHash : String)
    (ownerUserId : Option String) (fetch : Fetch) (apiSecret : String) :
    Except Failure RestoredFile := do
  match ← queryFileRecord P db fileHash ownerUserId apiSecret with
  | none => .error (.error s!"File {fileHash} not found in database")
  | some rec =>
    let shardRows := db.shardsOf fileHash
    if shardRows.isEmpty then .error (.error s!"No shards found for file {fileHash}")
    else
      let fullShards := fetchShards P fetch 0 (List.replicate Erasure.totalShards none) shardRows
      let present := fullShards.countP Option.isSome
      if present < Erasure.dataShards then
        .error (.error (s!"Only {present}/{Erasure.totalShards} shards available for " ++
          s!"{fileHash} — cannot restore (need ≥{Erasure.dataShards})"))
      else
        let plaintext ← decodeShards P rec fullShards
        pure { data := plaintext, filename := s!"{rec.name}.{rec.ext}", mediaType := rec.mediaType }

@[simp] theorem parseShardHash_toHex (h : Digest) : parseShardHash (toHex h) = some h := by
  obtain ⟨bytes, hb⟩ := h
  simp [parseShardHash, toHex, List.Vector.toList, hb]

variable {P : Primitives} {fetch : Fetch}

theorem length_fetchShards {call : Nat} {full : List (Option Bytes)} {rows : List ShardRow} :
    (fetchShards P fetch call full rows).length = full.length := by
  induction rows generalizing call full with
  | nil => rfl
  | cons row rows ih =>
    unfold fetchShards
    simp only
    split
    next => exact ih
    next =>
      split
      next => exact ih
      next h _ =>
        split
        next =>
          split
          next => rw [ih, List.length_set]
          next => exact ih
        next => exact ih

/-- A shard that the loop kept was fetched for a row of its index and hashes to that row. -/
theorem fetchShards_some {call : Nat} {full : List (Option Bytes)} {rows : List ShardRow}
    {j : Nat} {s : Bytes} (h : (fetchShards P fetch call full rows)[j]? = some (some s)) :
    full[j]? = some (some s) ∨ ∃ row ∈ rows, asUsize row.shardIndex = j ∧
      toHex (P.blake3 s) = row.shardHash ∧ ∃ n digest, fetch n row.nodeId digest = some s := by
  induction rows generalizing call full with
  | nil => exact Or.inl h
  | cons row rows ih =>
    have later : ∀ {call' full'}, (fetchShards P fetch call' full' rows)[j]? = some (some s) →
        full'[j]? = some (some s) ∨ ∃ row' ∈ row :: rows, asUsize row'.shardIndex = j ∧
          toHex (P.blake3 s) = row'.shardHash ∧
            ∃ n digest, fetch n row'.nodeId digest = some s := by
      intro call' full' h'
      rcases ih h' with hf | ⟨row', hm, hrest⟩
      · exact Or.inl hf
      · exact Or.inr ⟨row', List.mem_cons_of_mem _ hm, hrest⟩
    unfold fetchShards at h
    simp only at h
    split at h
    next => exact later h
    next =>
      split at h
      next => exact later h
      next digest _ =>
        split at h
        next data hdata =>
          split at h
          next hhash =>
            rcases later h with hf | hr
            · by_cases hj : asUsize row.shardIndex = j
              · rw [hj, List.getElem?_set] at hf
                simp only [if_true] at hf
                split at hf
                next =>
                  cases Option.some.inj (Option.some.inj hf)
                  exact Or.inr ⟨row, by simp, hj, hhash, call, digest, hdata⟩
                next => simp at hf
              · rw [List.getElem?_set_ne hj] at hf
                exact Or.inl hf
            · exact Or.inr hr
          next => exact later h
        next => exact later h

/-- What is kept stays, or is replaced by another fetched shard. -/
theorem fetchShards_keeps {call : Nat} {full : List (Option Bytes)} {rows : List ShardRow}
    {j : Nat} (h : ∃ s, full[j]? = some (some s)) :
    ∃ s, (fetchShards P fetch call full rows)[j]? = some (some s) := by
  induction rows generalizing call full with
  | nil => exact h
  | cons row rows ih =>
    unfold fetchShards
    simp only
    split
    next => exact ih h
    next =>
      split
      next => exact ih h
      next =>
        split
        next data _ =>
          split
          next =>
            refine ih ?_
            obtain ⟨s, hs⟩ := h
            obtain ⟨hlt, _⟩ := List.getElem?_eq_some_iff.mp hs
            by_cases hj : asUsize row.shardIndex = j
            · exact ⟨data, by rw [hj, List.getElem?_set_self hlt]⟩
            · exact ⟨s, by rw [List.getElem?_set_ne hj, hs]⟩
          next => exact ih h
        next => exact ih h

/-- Where every row can be asked for, the row at position `p` is asked for by call `p`, and
a right answer is kept. -/
theorem fetchShards_present {call : Nat} {full : List (Option Bytes)} {rows : List ShardRow}
    (hlen : full.length = Erasure.totalShards)
    (hrows : ∀ row ∈ rows, asUsize row.shardIndex < Erasure.totalShards ∧
      ∃ digest, row.shardHash = toHex digest)
    {p : Nat} {row : ShardRow} (hp : rows[p]? = some row) {data : Bytes} {digest : Digest}
    (hhash : row.shardHash = toHex digest) (hdata : P.blake3 data = digest)
    (hfetch : fetch (call + p) row.nodeId digest = some data) :
    ∃ s, (fetchShards P fetch call full rows)[asUsize row.shardIndex]? = some (some s) := by
  induction rows generalizing call full p with
  | nil => simp at hp
  | cons first rows ih =>
    obtain ⟨hlt, d, hd⟩ := hrows first (by simp)
    have hin : ¬ Erasure.totalShards ≤ asUsize first.shardIndex := by omega
    unfold fetchShards
    simp only [hin, if_false, hd, parseShardHash_toHex]
    cases p with
    | zero =>
      cases Option.some.inj hp
      have : d = digest := toHex_injective (hd.symm.trans hhash)
      subst this
      have hkept : ∃ s, (full.set (asUsize row.shardIndex) (some data))[
          asUsize row.shardIndex]? = some (some s) :=
        ⟨data, List.getElem?_set_self (by omega)⟩
      rw [Nat.add_zero] at hfetch
      simp only [hfetch, hdata, if_true]
      exact fetchShards_keeps hkept
    | succ p =>
      have hp' : rows[p]? = some row := hp
      have hfetch' : fetch (call + 1 + p) row.nodeId digest = some data := by
        rw [Nat.add_assoc, Nat.add_comm 1 p]
        exact hfetch
      have hrows' := fun r hr => hrows r (List.mem_cons_of_mem _ hr)
      split
      next =>
        split
        next => exact ih (by simp [hlen]) hrows' hp' hfetch'
        next => exact ih hlen hrows' hp' hfetch'
      next => exact ih hlen hrows' hp' hfetch'

end Reminisce
