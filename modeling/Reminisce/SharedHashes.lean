import Reminisce.RestoredGeometry
import Reminisce.Undersharded

namespace Reminisce

open Slices Results

/-- `got` holds right shards, each for a recorded row. -/
def RightShards (rows : List ShardRow) (shards : List Bytes) (got : List (Option Bytes)) : Prop :=
  ∀ (j : Nat) s, got[j]? = some (some s) → shards[j]? = some s ∧
    ∃ row ∈ rows, asUsize row.shardIndex = j

/-- The record decodes the file from any three shards for which there is a row. -/
def FileRecord.Decodes (P : Primitives) (rec : FileRecord) (rows : List ShardRow)
    (shards : List Bytes) (file : Bytes) : Prop :=
  ∀ got : List (Option Bytes), got.length = Erasure.totalShards → RightShards rows shards got →
    Erasure.dataShards ≤ got.countP Option.isSome → decodeShards P rec got = .ok file

/-- A live row is backed up: the recorded shards, three at least, are shards of the backup
that the row describes. -/
structure Database.Recoverable (P : Primitives) (db : Database) (fileHash apiSecret : String)
    (table : MediaTable) (row : MediaRow) (file : Bytes) (shards : List Bytes) : Prop where
  live : row ∈ db.visible table fileHash none
  described : ∃ rec, fileRecordOf P apiSecret table row = .ok rec ∧
    rec.Describes P segmentThreshold 3 2 file shards
  recorded : ∀ r ∈ db.shardsOf fileHash, r.Names P shards
  enough : 3 ≤ (db.shardsOf fileHash).length
  stored : ∃ s ∈ shards, s.length ≤ maxShardBytes
  distinct : Set.InjOn P.blake3 {b | b ∈ shards}

/-- Three of the recorded shards are fetched. -/
def Retrievable (P : Primitives) (db : Database) (fileHash : String) (shards : List Bytes)
    (fetch : Fetch) : Prop :=
  CollisionFree P shards fetch ∧ ∃ calls : Finset Nat, 3 ≤ calls.card ∧
    ∀ p ∈ calls, Intact P fetch (db.shardsOf fileHash) shards p

def RestoresUnowned (P : Primitives) (db : Database) (fileHash apiSecret : String) (file : Bytes)
    (shards : List Bytes) : Prop :=
  ∀ fetch, Retrievable P db fileHash shards fetch → ∃ filename mediaType,
    restoreFileWithFetcher P db fileHash none fetch apiSecret =
      .ok { data := file, filename, mediaType }

/-- The lookup without an owner finds one live row, images before videos, and its key and
sizes belong to the recorded shards. -/
def PicksBackup (P : Primitives) (db : Database) (fileHash apiSecret : String) (file : Bytes)
    (shards : List Bytes) : Prop :=
  ∃ table row rec, Found P db table fileHash none row ∧
    fileRecordOf P apiSecret table row = .ok rec ∧
    rec.Decodes P (db.shardsOf fileHash) shards file

/-- The row is the only live one with its hash. -/
def Database.OnlyLive (db : Database) (fileHash : String) (row : MediaRow) : Prop :=
  db.visible .images fileHash none ++ db.visible .videos fileHash none = [row]

variable {P : Primitives} {db : Database} {fileHash apiSecret : String} {table : MediaTable}
  {row : MediaRow} {file : Bytes} {shards : List Bytes} {rows : List ShardRow} {fetch : Fetch}
  {got : List (Option Bytes)}

/-- A shard that the loop kept answers the call for a row of its index. -/
theorem fetchShards_asked {call : Nat} {full : List (Option Bytes)}
    (hrows : ∀ row ∈ rows, asUsize row.shardIndex < Erasure.totalShards ∧
      ∃ digest, row.shardHash = toHex digest) {j : Nat} {s : Bytes}
    (h : (fetchShards P fetch call full rows)[j]? = some (some s)) :
    full[j]? = some (some s) ∨ ∃ p row digest, rows[p]? = some row ∧
      asUsize row.shardIndex = j ∧ fetch (call + p) row.nodeId digest = some s := by
  induction rows generalizing call full with
  | nil => exact Or.inl h
  | cons first rows ih =>
    obtain ⟨hlt, d, hd⟩ := hrows first (by simp)
    have hin : ¬ Erasure.totalShards ≤ asUsize first.shardIndex := by omega
    have later : ∀ {full' : List (Option Bytes)},
        (fetchShards P fetch (call + 1) full' rows)[j]? = some (some s) →
        full'[j]? = some (some s) ∨ ∃ p row digest, (first :: rows)[p]? = some row ∧
          asUsize row.shardIndex = j ∧ fetch (call + p) row.nodeId digest = some s := by
      intro full' h'
      rcases ih (fun r hr => hrows r (List.mem_cons_of_mem _ hr)) h' with
        hf | ⟨p, row, digest, hp, hj, hfetch⟩
      · exact Or.inl hf
      · refine Or.inr ⟨p + 1, row, digest, by simpa using hp, hj, ?_⟩
        rwa [Nat.add_assoc, Nat.add_comm 1 p] at hfetch
    unfold fetchShards at h
    simp only [hin, if_false, hd, parseShardHash_toHex] at h
    cases hfetch : fetch call first.nodeId d with
    | none =>
      simp only [hfetch] at h
      exact later h
    | some data =>
      simp only [hfetch] at h
      split at h
      next =>
        rcases later h with hf | hr
        · by_cases hj : asUsize first.shardIndex = j
          · rw [hj, List.getElem?_set] at hf
            simp only [if_true] at hf
            split at hf
            next =>
              cases Option.some.inj (Option.some.inj hf)
              exact Or.inr ⟨0, first, d, rfl, hj, hfetch⟩
            next => simp at hf
          · rw [List.getElem?_set_ne hj] at hf
            exact Or.inl hf
        · exact Or.inr hr
      next => exact later h

/-- The fetcher that has the shards in `got` and no others. -/
def partialFetch (rows : List ShardRow) (got : List (Option Bytes)) : Fetch :=
  fun p _ _ => rows[p]?.bind fun row => (got[asUsize row.shardIndex]?).join

theorem askable (hnames : ∀ row ∈ rows, row.Names P shards) (hlen : shards.length = 5) :
    ∀ row ∈ rows, asUsize row.shardIndex < Erasure.totalShards ∧
      ∃ digest, row.shardHash = toHex digest := by
  intro row hrow
  obtain ⟨data, hlt, _, _, hhash⟩ := (hnames row hrow).index hlen
  exact ⟨hlt, _, hhash⟩

theorem RightShards.intact (hright : RightShards rows shards got) {j : Nat} {s : Bytes}
    (hj : got[j]? = some (some s)) :
    ∃ p row, rows[p]? = some row ∧ asUsize row.shardIndex = j ∧
      Intact P (partialFetch rows got) rows shards p := by
  obtain ⟨hs, row, hrow, hidx⟩ := hright j s hj
  obtain ⟨p, hp⟩ := List.mem_iff_getElem?.mp hrow
  refine ⟨p, row, hp, hidx, row, s, hp, by rw [hidx, hs], ?_⟩
  simp [partialFetch, hp, hidx, hj]

theorem RightShards.collisionFree (hright : RightShards rows shards got)
    (hinj : Set.InjOn P.blake3 {b | b ∈ shards}) :
    CollisionFree P shards (partialFetch rows got) := by
  refine hinj.mono ?_
  rintro b (hb | ⟨n, node, digest, hb⟩)
  · exact hb
  · obtain ⟨row, _, hgot⟩ := Option.bind_eq_some_iff.mp hb
    exact List.mem_of_getElem? (hright _ b (Option.join_eq_some_iff.mp hgot)).1

/-- What the loop collects from that fetcher is `got`. -/
theorem RightShards.fetched (hright : RightShards rows shards got) (hlen : shards.length = 5)
    (hgot : got.length = 5) (hnames : ∀ row ∈ rows, row.Names P shards)
    (hinj : Set.InjOn P.blake3 {b | b ∈ shards}) :
    fetchShards P (partialFetch rows got) 0 (List.replicate 5 none) rows = got := by
  have hflen : (fetchShards P (partialFetch rows got) 0 (List.replicate 5 none) rows).length = 5 := by
    simp [length_fetchShards]
  refine List.ext_getElem? fun j => ?_
  by_cases hj : j < 5
  · obtain ⟨x, hx⟩ : ∃ x, got[j]? = some x := ⟨got[j], List.getElem?_eq_getElem (by omega)⟩
    obtain ⟨y, hy⟩ : ∃ y, (fetchShards P (partialFetch rows got) 0 (List.replicate 5 none)
      rows)[j]? = some y := ⟨_, List.getElem?_eq_getElem (by omega)⟩
    rw [hx, hy]
    cases x with
    | some s =>
      obtain ⟨p, row, hp, hidx, row', data, hp', hd, hfetch⟩ := hright.intact (P := P) hx
      cases Option.some.inj (hp.symm.trans hp')
      obtain ⟨data', _, _, hd', hhash⟩ := (hnames row (List.mem_of_getElem? hp)).index hlen
      cases Option.some.inj (hd.symm.trans hd')
      have hstart : (List.replicate 5 (none : Option Bytes)).length = Erasure.totalShards := by
        simp [Erasure.totalShards, Erasure.dataShards, Erasure.parityShards]
      have hcall : partialFetch rows got (0 + p) row.nodeId (P.blake3 data) = some data := by
        rwa [Nat.zero_add]
      obtain ⟨s', hs'⟩ := fetchShards_present hstart (askable hnames hlen) hp hhash rfl hcall
      rw [hidx] at hs'
      have hright' := fetchShards_right hnames hlen (hright.collisionFree hinj) hs'
      have hs := (hright j s hx).1
      cases Option.some.inj (hs.symm.trans hright')
      exact hy.symm.trans hs'
    | none =>
      cases y with
      | none => rfl
      | some s =>
        rcases fetchShards_asked (askable hnames hlen) hy with hnone |
          ⟨p, row, digest, hp, hidx, hfetch⟩
        · have hmem : some s ∈ List.replicate 5 (none : Option Bytes) := List.mem_of_getElem? hnone
          simp at hmem
        · rw [Nat.zero_add] at hfetch
          simp [partialFetch, hp, hidx, hx] at hfetch
  · rw [List.getElem?_eq_none (by omega), List.getElem?_eq_none (by omega)]

theorem RightShards.retrievable (hright : RightShards (db.shardsOf fileHash) shards got)
    (hinj : Set.InjOn P.blake3 {b | b ∈ shards}) (hcount : 3 ≤ got.countP Option.isSome) :
    Retrievable P db fileHash shards (partialFetch (db.shardsOf fileHash) got) := by
  classical
  let rows := db.shardsOf fileHash
  let calls := (Finset.range rows.length).filter
    (Intact P (partialFetch rows got) rows shards)
  have hsub : presentRows got ⊆ calls.image (rowPlace rows) := by
    intro j hj
    obtain ⟨_, hsome⟩ := Finset.mem_filter.mp hj
    obtain ⟨s, hs⟩ := Option.isSome_iff_exists.mp hsome
    obtain ⟨p, row, hp, hidx, hintact⟩ := hright.intact (P := P) (Option.join_eq_some_iff.mp hs)
    obtain ⟨hlt, _⟩ := List.getElem?_eq_some_iff.mp hp
    refine Finset.mem_image.mpr ⟨p, Finset.mem_filter.mpr ⟨Finset.mem_range.mpr hlt, hintact⟩, ?_⟩
    rw [rowPlace_eq hp, hidx]
  have hcard : 3 ≤ calls.card := calc
    3 ≤ got.countP Option.isSome := hcount
    _ ≤ (presentRows got).card := countP_le_card_presentRows got
    _ ≤ (calls.image (rowPlace rows)).card := Finset.card_le_card hsub
    _ ≤ calls.card := Finset.card_image_le
  exact ⟨hright.collisionFree hinj, calls, hcard, fun p hp => (Finset.mem_filter.mp hp).2⟩

namespace Database.Recoverable

variable (h : db.Recoverable P fileHash apiSecret table row file shards)
include h

theorem length : shards.length = 5 := by
  obtain ⟨rec, _, hd⟩ := h.described
  exact hd.length

/-- Three shards can be fetched: all that have a row. -/
theorem retrievable_all : ∃ fetch, Retrievable P db fileHash shards fetch := by
  refine ⟨completeFetch (db.shardsOf fileHash) shards, ?_, Finset.range 3, by simp, ?_⟩
  · refine h.distinct.mono ?_
    rintro b (hb | ⟨n, node, digest, hb⟩)
    · exact hb
    · obtain ⟨r, _, hs⟩ := Option.bind_eq_some_iff.mp hb
      exact List.mem_of_getElem? hs
  · intro p hp
    have hlt := Finset.mem_range.mp hp
    have hlen := h.length
    have henough := h.enough
    exact intact_completeFetch h.recorded (by omega) (by omega)

theorem restores_of_picks (hn : db.shardKeys.Nodup)
    (hpick : PicksBackup P db fileHash apiSecret file shards) :
    RestoresUnowned P db fileHash apiSecret file shards := by
  obtain ⟨found, picked, rec, hf, hrec, hdec⟩ := hpick
  intro fetch hfetch
  obtain ⟨hcf, calls, hcard, hcalls⟩ := hfetch
  have hcount := fetchShards_count h.recorded h.length (Database.shardsOf_nodup hn fileHash) hcalls
  have hq := queryFileRecord_found hf hrec
  have henough : ¬ (gotShards P db fileHash fetch).countP Option.isSome < Erasure.dataShards :=
    Nat.not_lt.mpr (hcard.trans hcount)
  refine ⟨_, _, restoreFileWithFetcher_enough hq henough (hdec _ ?_ ?_ (hcard.trans hcount))⟩
  · exact length_fetchShards.trans rfl
  · intro j s hj
    refine ⟨fetchShards_right h.recorded h.length hcf hj, ?_⟩
    rcases fetchShards_some hj with hnone | ⟨r, hr, hidx, _⟩
    · have hmem : some s ∈ List.replicate 5 (none : Option Bytes) := List.mem_of_getElem? hnone
      simp at hmem
    · exact ⟨r, hr, hidx⟩

theorem picks_of_restores (hres : RestoresUnowned P db fileHash apiSecret file shards) :
    PicksBackup P db fileHash apiSecret file shards := by
  obtain ⟨fetch, hfetch⟩ := h.retrievable_all
  obtain ⟨filename, mediaType, hok⟩ := hres fetch hfetch
  obtain ⟨found, hq, hrest⟩ := bind_ok hok
  cases found with
  | none => simp at hrest
  | some rec =>
    obtain ⟨foundIn, picked, hf, hrec⟩ := found_of_queryFileRecord hq
    refine ⟨foundIn, picked, rec, hf, hrec, fun got hlen hright hcount => ?_⟩
    have hretr := RightShards.retrievable hright h.distinct hcount
    obtain ⟨_, _, hok'⟩ := hres _ hretr
    have hdec := restoreFileWithFetcher_ok hq hok'
    have hgot : gotShards P db fileHash (partialFetch (db.shardsOf fileHash) got) = got :=
      RightShards.fetched hright h.length hlen h.recorded h.distinct
    rwa [hgot] at hdec

/-- A row that shares its hash with no other live row is the one that is picked. -/
theorem picks_of_only (honly : db.OnlyLive fileHash row) :
    PicksBackup P db fileHash apiSecret file shards := by
  obtain ⟨rec, hrec, hd⟩ := h.described
  have hf : Found P db table fileHash none row := by
    have hlive := h.live
    unfold Database.OnlyLive at honly
    cases table with
    | images =>
      obtain ⟨before, after, himages⟩ := List.append_of_mem hlive
      rw [himages] at honly
      have hone : before = [] ∧ after = [] := by
        have hl := congrArg List.length honly
        simp only [List.length_append, List.length_cons, List.length_nil] at hl
        exact ⟨List.length_eq_zero_iff.mp (by omega), List.length_eq_zero_iff.mp (by omega)⟩
      obtain ⟨rfl, rfl⟩ := hone
      exact ⟨himages, by simp⟩
    | videos =>
      have hpos := List.length_pos_of_mem hlive
      have hl := congrArg List.length honly
      simp only [List.length_append, List.length_cons, List.length_nil] at hl
      have hnone : db.visible .images fileHash none = [] :=
        List.length_eq_zero_iff.mp (by omega)
      rw [hnone, List.nil_append] at honly
      exact ⟨honly, fun _ => hnone⟩
  refine ⟨table, row, rec, hf, hrec, fun got hlen hright hcount => ?_⟩
  exact hd.decode (by decide) (fun hle => by simp only [segmentThreshold] at hle; omega) h.stored
    hlen (fun j s hj => (hright j s hj).1) hcount

end Database.Recoverable

end Reminisce
