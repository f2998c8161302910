import Reminisce.SnapshotMesh
import Reminisce.PhotoDates
import Reminisce.Library.Numerals
import Mathlib.Data.Prod.Lex
import Mathlib.Data.String.Basic

namespace Reminisce

open Numerals

/-- A `DateTime<Utc>` of the years 0 to 9999. The nanoseconds exceed a second within a leap
second. -/
structure UtcInstant where
  year : Nat
  month : Nat
  day : Nat
  hour : Nat
  minute : Nat
  second : Nat
  nanosecond : Nat
  year_le : year ≤ 9999
  date : (naiveDate year month day).isSome
  hour_lt : hour < 24
  minute_lt : minute < 60
  second_lt : second < 60
  nanosecond_lt : nanosecond < 2 * nanosPerSec
  leap : nanosPerSec ≤ nanosecond → second = 59

namespace UtcInstant

def days (t : UtcInstant) : Nat := (naiveDate t.year t.month t.day).get t.date

def secondOfDay (t : UtcInstant) : Nat := 3600 * t.hour + 60 * t.minute + t.second

/-- Instants in the order of time: a leap second lies before the next day. -/
def chronology (t : UtcInstant) : Nat ×ₗ Nat ×ₗ Nat :=
  toLex (t.days, toLex (t.secondOfDay, t.nanosecond))

end UtcInstant

/-- `SecondsFormat::AutoSi`: as many groups of three digits as show the fraction. -/
def rfc3339Fraction (nanos : Nat) : List Char :=
  if nanos = 0 then []
  else if nanos % 1000000 = 0 then '.' :: padded 10 3 (nanos / 1000000)
  else if nanos % 1000 = 0 then '.' :: padded 10 6 (nanos / 1000)
  else '.' :: padded 10 9 nanos

def rfc3339Clock (t : UtcInstant) : List Char :=
  padded 10 2 t.hour ++ ':' :: (padded 10 2 t.minute ++ ':' ::
    (padded 10 2 (t.second + t.nanosecond / nanosPerSec) ++
      (rfc3339Fraction (t.nanosecond % nanosPerSec) ++ "+00:00".toList)))

def rfc3339Text (t : UtcInstant) : List Char :=
  padded 10 4 t.year ++ '-' :: (padded 10 2 t.month ++ '-' :: (padded 10 2 t.day ++ 'T' ::
    rfc3339Clock t))

/-- `DateTime::to_rfc3339`, whose result has the documented form. -/
structure Chrono where
  toRfc3339 : UtcInstant → String
  printed : ∀ t, (toRfc3339 t).toList = rfc3339Text t

structure DirEntry where
  path : String
  contents : Except String Bytes
  deriving Repr

def readManifest (json : ManifestJson) (entry : DirEntry) : Except String StampedManifest := do
  let data ← entry.contents.mapError fun e => s!"read manifest {entry.path} failed: {e}"
  (json.fromSlice data).mapError fun e => s!"parse manifest {entry.path} failed: {e}"

/-- The manifests of the `.json` files that can be read, in the order of `read_dir`. -/
def readManifests (json : ManifestJson) (dir : Except String (List (Except String DirEntry))) :
    List StampedManifest :=
  match dir with
  | .error _ => []
  | .ok entries => (entries.filterMap Except.toOption).filterMap fun entry =>
      if pathExtension entry.path = "json".toList then (readManifest json entry).toOption else none

/-- `b.created_at.cmp(&a.created_at)` is not `Greater`. -/
def notOlder (a b : StampedManifest) : Bool := b.createdAt ≤ a.createdAt

def listManifests (json : ManifestJson) (dir : Except String (List (Except String DirEntry))) :
    List StampedManifest :=
  (readManifests json dir).mergeSort notOlder

section Calendar

variable {year year' month month' day day' date date' : Nat}

theorem sum_monthLengths (year : Nat) :
    daysBeforeYear year + (monthLengths year).sum = daysBeforeYear (year + 1) := by
  have hfour : (year + 1 + 3) / 4 = (year + 3) / 4 + if year % 4 = 0 then 1 else 0 := by
    split <;> omega
  have hcentury : (year + 1 + 99) / 100 = (year + 99) / 100 + if year % 100 = 0 then 1 else 0 := by
    split <;> omega
  have hera : (year + 1 + 399) / 400 = (year + 399) / 400 + if year % 400 = 0 then 1 else 0 := by
    split <;> omega
  have hcenturies : (year + 99) / 100 ≤ (year + 3) / 4 := by omega
  have hmult : year % 100 = 0 → year % 4 = 0 := by omega
  have hmult' : year % 400 = 0 → year % 100 = 0 := by omega
  have hsum : (monthLengths year).sum = 365 + if isLeapYear year = true then 1 else 0 := by
    simp only [monthLengths, List.sum_cons, List.sum_nil]
    split <;> rfl
  have hleap : isLeapYear year = true ↔ year % 4 = 0 ∧ (year % 100 ≠ 0 ∨ year % 400 = 0) := by
    simp [isLeapYear]
  simp only [daysBeforeYear, hfour, hcentury, hera, hsum, hleap]
  generalize (year + 3) / 4 = fours at *
  generalize (year + 99) / 100 = centuries at *
  generalize (year + 399) / 400 = eras at *
  by_cases h4 : year % 4 = 0
  · by_cases h100 : year % 100 = 0
    · by_cases h400 : year % 400 = 0
      · simp only [h4, h100, h400, ne_eq, not_true_eq_false, or_true, and_self, if_true]
        omega
      · simp only [h4, h100, h400, ne_eq, not_true_eq_false, or_false, and_false, if_true, if_false]
        omega
    · simp only [h4, h100, mt hmult' h100, ne_eq, not_false_eq_true, true_or, and_self, if_true,
        if_false]
      omega
  · simp only [h4, mt hmult h4, mt hmult' (mt hmult h4), false_and, if_false]
    omega

theorem daysBeforeYear_le (h : year ≤ year') : daysBeforeYear year ≤ daysBeforeYear year' := by
  induction year', h using Nat.le_induction with
  | base => exact le_rfl
  | succ year' _ ih => exact ih.trans (by rw [← sum_monthLengths]; omega)

/-- The days of the months up to one of them. -/
theorem sum_take_succ {lengths : List Nat} {i length : Nat} (h : lengths[i]? = some length) :
    (lengths.take (i + 1)).sum = (lengths.take i).sum + length := by
  rw [List.take_add_one, h]
  simp

theorem sum_le_of_prefix {xs ys : List Nat} (h : xs <+: ys) : xs.sum ≤ ys.sum := by
  obtain ⟨rest, rfl⟩ := h
  simp

theorem naiveDate_lt_next_month (h : naiveDate year month day = some date) :
    date < daysBeforeYear year + ((monthLengths year).take month).sum := by
  obtain ⟨length, hlength, hmonth, hday, hle, rfl⟩ := naiveDate_eq_some h
  have hsum := sum_take_succ hlength
  rw [Nat.sub_add_cancel hmonth] at hsum
  omega

theorem naiveDate_lt_next_year (h : naiveDate year month day = some date) :
    date < daysBeforeYear (year + 1) := by
  have hmonth := naiveDate_lt_next_month h
  have hsum := sum_le_of_prefix (List.take_prefix month (monthLengths year))
  have := sum_monthLengths year
  omega

/-- Later fields are a later day, the year before the month and the month before the day. -/
theorem naiveDate_lt (h : naiveDate year month day = some date)
    (h' : naiveDate year' month' day' = some date')
    (hlt : year < year' ∨ year = year' ∧ (month < month' ∨ month = month' ∧ day < day')) :
    date < date' := by
  obtain ⟨_, _, hmonth, hday, _, hdate⟩ := naiveDate_eq_some h
  obtain ⟨_, _, hmonth', hday', _, hdate'⟩ := naiveDate_eq_some h'
  rcases hlt with hyear | ⟨rfl, hmonths | ⟨rfl, hdays⟩⟩
  · have hnext := naiveDate_lt_next_year h
    have hle := daysBeforeYear_le (Nat.succ_le_of_lt hyear)
    simp only [Nat.succ_eq_add_one] at hle
    omega
  · have hnext := naiveDate_lt_next_month h
    have hle : ((monthLengths year).take month).sum ≤ ((monthLengths year).take (month' - 1)).sum :=
      sum_le_of_prefix (List.take_prefix_take_left (by omega))
    omega
  · omega

end Calendar

section Text

/-- The fraction in groups of three digits, up to the last group that is not zero. -/
def fractionGroups : Nat → Nat → List Char
  | 0, _ => []
  | groups + 1, n =>
    if n = 0 then []
    else padded 10 3 (n / 1000 ^ groups) ++ fractionGroups groups (n % 1000 ^ groups)

theorem rfc3339Fraction_eq {nanos : Nat} (hnanos : 0 < nanos) :
    rfc3339Fraction nanos = '.' :: fractionGroups 3 nanos := by
  have hsix : padded 10 6 (nanos / 1000) =
      padded 10 3 (nanos / 1000000) ++ padded 10 3 (nanos % 1000000 / 1000) := by
    rw [show nanos % 1000000 / 1000 = nanos / 1000 % 10 ^ 3 by omega, padded_mod]
    have hsplit := padded_add 10 (nanos / 1000) 3 3
    rwa [Nat.div_div_eq_div_mul] at hsplit
  have hnine : padded 10 9 nanos = padded 10 6 (nanos / 1000) ++ padded 10 3 (nanos % 1000) := by
    have hmod := padded_mod 10 nanos 3
    have hsplit := padded_add 10 nanos 6 3
    rw [hsplit, ← hmod, show (10 : Nat) ^ 3 = 1000 from rfl]
  have hlast : nanos % 1000000 % 1000 = nanos % 1000 := by omega
  unfold rfc3339Fraction
  rw [if_neg (by omega)]
  split
  next hmillis => simp [fractionGroups, hmillis, Nat.ne_of_gt hnanos]
  next hmillis =>
    split
    next hmicros =>
      simp [fractionGroups, hmillis, hmicros, hlast, Nat.ne_of_gt hnanos, hsix]
    next hmicros =>
      simp [fractionGroups, hmillis, hmicros, hlast, Nat.ne_of_gt hnanos, hsix, hnine]

theorem plus_lt_padded {n width : Nat} {rest rest' : List Char} :
    '+' :: rest < padded 10 (width + 1) n ++ rest' := by
  obtain ⟨d, digits, hd, heq⟩ := padded_head n width (show 0 < 10 by omega)
  have all : ∀ d ∈ List.range 10, '+' < Nat.digitChar d := by decide
  rw [heq]
  exact List.Lex.rel (all d (List.mem_range.mpr hd))

/-- The sign of the offset lies below every digit, so a shorter fraction is a smaller one. -/
theorem fractionGroups_lt {groups m n : Nat} {rest rest' : List Char} (h : m < n)
    (hn : n < 1000 ^ groups) :
    fractionGroups groups m ++ '+' :: rest < fractionGroups groups n ++ '+' :: rest' := by
  induction groups generalizing m n with
  | zero => simp at hn; omega
  | succ groups ih =>
    have hpos : 0 < 1000 ^ groups := Nat.pow_pos (by omega)
    have hquot : n / 1000 ^ groups < 10 ^ 3 := by
      rw [Nat.div_lt_iff_lt_mul hpos]
      simpa [Nat.pow_succ'] using hn
    unfold fractionGroups
    rw [if_neg (by omega : n ≠ 0), List.append_assoc]
    split
    next => exact plus_lt_padded
    next =>
      rw [List.append_assoc]
      apply padded_append_lt (by omega) (by omega) hquot
      rcases Nat.lt_or_ge (m / 1000 ^ groups) (n / 1000 ^ groups) with hlt | hge
      · exact Or.inl hlt
      · have heq : m / 1000 ^ groups = n / 1000 ^ groups :=
          Nat.le_antisymm (Nat.div_le_div_right h.le) hge
        have hm := Nat.div_add_mod m (1000 ^ groups)
        have hd := Nat.div_add_mod n (1000 ^ groups)
        rw [heq] at hm
        exact Or.inr ⟨heq, ih (by omega) (Nat.mod_lt n hpos)⟩

theorem rfc3339Fraction_lt {m n : Nat} {rest rest' : List Char} (h : m < n) (hn : n < nanosPerSec) :
    rfc3339Fraction m ++ '+' :: rest < rfc3339Fraction n ++ '+' :: rest' := by
  rw [rfc3339Fraction_eq (by omega : 0 < n)]
  rcases Nat.eq_zero_or_pos m with rfl | hm
  · exact List.Lex.rel (by decide)
  · rw [rfc3339Fraction_eq hm]
    exact List.Lex.cons (fractionGroups_lt h hn)

variable {t u : UtcInstant}

theorem UtcInstant.days_eq (t : UtcInstant) : naiveDate t.year t.month t.day = some t.days :=
  (Option.some_get t.date).symm

theorem UtcInstant.fields_lt (t : UtcInstant) :
    t.month < 10 ^ 2 ∧ t.day < 10 ^ 2 ∧ t.second + t.nanosecond / nanosPerSec < 10 ^ 2 := by
  obtain ⟨hmonth, hday⟩ := naiveDate_fields_lt t.days_eq
  have hnano := t.nanosecond_lt
  have hsecond := t.second_lt
  refine ⟨hmonth, hday, ?_⟩
  unfold nanosPerSec at hnano ⊢
  omega

/-- A leap second is printed as the second 60 with the nanoseconds beyond it. -/
theorem leapSecond_lt {second second' nanos nanos' : Nat}
    (h : second < second' ∨ second = second' ∧ nanos < nanos') (hsecond : second' < 60)
    (hleap : nanosPerSec ≤ nanos → second = 59) :
    second + nanos / nanosPerSec < second' + nanos' / nanosPerSec ∨
      second + nanos / nanosPerSec = second' + nanos' / nanosPerSec ∧
        nanos % nanosPerSec < nanos' % nanosPerSec := by
  unfold nanosPerSec at *
  rcases h with hlt | ⟨rfl, hlt⟩
  · have hzero : nanos / 10 ^ 9 = 0 := by omega
    exact Or.inl (by omega)
  · omega

theorem rfc3339Clock_lt (h : t.secondOfDay < u.secondOfDay ∨
    t.secondOfDay = u.secondOfDay ∧ t.nanosecond < u.nanosecond) :
    rfc3339Clock t < rfc3339Clock u := by
  have hu := u.fields_lt
  have hminute := t.minute_lt
  have hminute' := u.minute_lt
  have hsecond := t.second_lt
  have hsecond' := u.second_lt
  have hhour := u.hour_lt
  have hleap := t.leap
  unfold rfc3339Clock
  unfold UtcInstant.secondOfDay at h
  apply padded_append_lt (by omega) (by omega) (by omega)
  rcases Nat.lt_trichotomy t.hour u.hour with hlt | heq | hgt
  · exact Or.inl hlt
  · refine Or.inr ⟨heq, List.Lex.cons (padded_append_lt (by omega) (by omega) (by omega) ?_)⟩
    rcases Nat.lt_trichotomy t.minute u.minute with hlt | heq | hgt
    · exact Or.inl hlt
    · refine Or.inr ⟨heq, List.Lex.cons (padded_append_lt (by omega) (by omega) hu.2.2 ?_)⟩
      have hfields : t.second < u.second ∨ t.second = u.second ∧ t.nanosecond < u.nanosecond := by
        omega
      rcases leapSecond_lt hfields hsecond' hleap with hlt | ⟨hseconds, hnanos⟩
      · exact Or.inl hlt
      · exact Or.inr ⟨hseconds, rfc3339Fraction_lt hnanos (Nat.mod_lt _ (by decide))⟩
    · omega
  · omega

/-- Later instants are printed as greater texts. -/
theorem rfc3339Text_lt (h : t.chronology < u.chronology) : rfc3339Text t < rfc3339Text u := by
  have hyear := u.year_le
  have hu := u.fields_lt
  have hdate : ∀ {a b : UtcInstant}, (a.year < b.year ∨ a.year = b.year ∧
      (a.month < b.month ∨ a.month = b.month ∧ a.day < b.day)) → a.days < b.days :=
    fun hlt => naiveDate_lt (UtcInstant.days_eq _) (UtcInstant.days_eq _) hlt
  have horder : t.days < u.days ∨ t.days = u.days ∧ (t.secondOfDay < u.secondOfDay ∨
      t.secondOfDay = u.secondOfDay ∧ t.nanosecond < u.nanosecond) := by
    simpa [UtcInstant.chronology, Prod.Lex.toLex_lt_toLex] using h
  have hback := mt (hdate (a := u) (b := t)) (by omega)
  unfold rfc3339Text
  apply padded_append_lt (by omega) (by omega) (by omega)
  rcases Nat.lt_trichotomy t.year u.year with hlt | heq | hgt
  · exact Or.inl hlt
  · refine Or.inr ⟨heq, List.Lex.cons (padded_append_lt (by omega) (by omega) hu.1 ?_)⟩
    rcases Nat.lt_trichotomy t.month u.month with hlt | hmonth | hgt
    · exact Or.inl hlt
    · refine Or.inr ⟨hmonth, List.Lex.cons (padded_append_lt (by omega) (by omega) hu.2.1 ?_)⟩
      rcases Nat.lt_trichotomy t.day u.day with hlt | hday | hgt
      · exact Or.inl hlt
      · have hdays : t.days = u.days := by
          have ht := t.days_eq
          rw [heq, hmonth, hday, u.days_eq] at ht
          exact (Option.some.inj ht).symm
        exact Or.inr ⟨hday, List.Lex.cons (rfc3339Clock_lt (by omega))⟩
      · omega
    · omega
  · omega

end Text

section Listing

variable {json : ManifestJson} {dir : Except String (List (Except String DirEntry))}
  {a b : StampedManifest}

theorem UtcInstant.chronology_le_of_printed {chrono : Chrono} {t u : UtcInstant}
    (h : chrono.toRfc3339 t ≤ chrono.toRfc3339 u) : t.chronology ≤ u.chronology := by
  rcases lt_or_ge u.chronology t.chronology with hlt | hle
  · have htext := rfc3339Text_lt hlt
    rw [← chrono.printed, ← chrono.printed] at htext
    exact absurd (String.lt_iff_toList_lt.mpr htext) (not_lt.mpr h)
  · exact hle

theorem pairwise_listManifests :
    (listManifests json dir).Pairwise fun a b => b.createdAt ≤ a.createdAt := by
  have h := @List.pairwise_mergeSort _ notOlder
    (fun a b c hab hbc => by
      simp only [notOlder, decide_eq_true_eq] at *
      exact hbc.trans hab)
    (fun a b => by
      simpa [notOlder] using le_total b.createdAt a.createdAt)
    (readManifests json dir)
  exact h.imp fun hab => of_decide_eq_true hab

/-- Manifests whose time stamps were printed are listed from the newest to the oldest. -/
theorem listManifests_newest_first (chrono : Chrono) (json : ManifestJson)
    (dir : Except String (List (Except String DirEntry))) (stamp : StampedManifest → UtcInstant)
    (hstamp : ∀ m ∈ readManifests json dir, m.createdAt = chrono.toRfc3339 (stamp m)) :
    (listManifests json dir).Perm (readManifests json dir) ∧
      (listManifests json dir).Pairwise
        (fun a b => (stamp b).chronology ≤ (stamp a).chronology) ∧
      ∀ newest, (listManifests json dir).head? = some newest →
        ∀ m ∈ readManifests json dir, (stamp m).chronology ≤ (stamp newest).chronology := by
  have hperm : (listManifests json dir).Perm (readManifests json dir) := List.mergeSort_perm _ _
  have hpairwise : (listManifests json dir).Pairwise
      (fun a b => (stamp b).chronology ≤ (stamp a).chronology) := by
    apply pairwise_listManifests.imp_of_mem
    intro a b ha hb hle
    rw [hstamp a (hperm.mem_iff.mp ha), hstamp b (hperm.mem_iff.mp hb)] at hle
    exact UtcInstant.chronology_le_of_printed hle
  refine ⟨hperm, hpairwise, ?_⟩
  intro newest hhead m hm
  obtain ⟨rest, hlist⟩ := List.head?_eq_some_iff.mp hhead
  rw [hlist] at hpairwise
  rcases List.mem_cons.mp (hlist ▸ hperm.mem_iff.mpr hm) with rfl | hrest
  · exact le_rfl
  · exact (List.pairwise_cons.mp hpairwise).1 m hrest

/-- The last second of a year, at its start and a little later. -/
def yearEnd (nanosecond : Nat) (h : nanosecond < nanosPerSec) : UtcInstant :=
  { year := 2024, month := 12, day := 31, hour := 23, minute := 59, second := 59
    nanosecond := nanosecond
    year_le := by decide, date := by decide, hour_lt := by decide, minute_lt := by decide
    second_lt := by decide, nanosecond_lt := by omega, leap := fun _ => rfl }

def printedChrono : Chrono :=
  { toRfc3339 := fun t => String.ofList (rfc3339Text t)
    printed := fun _ => String.toList_ofList }

def yearEndStamp (data : Bytes) : UtcInstant :=
  if data = [0] then yearEnd 0 (by decide) else yearEnd 500000000 (by decide)

def yearEndManifest (data : Bytes) : StampedManifest :=
  { backupHash := String.ofList (Hex.encode data), createdAt := printedChrono.toRfc3339 (yearEndStamp data)
    sizeBytes := 0, encryptedSize := 0, dataShards := 3, parityShards := 2, segmentCount := 1
    segmentEncSizes := none, encryptionKeyHex := [], shards := [] }

theorem listManifests_year_end :
    let dir := [.ok ⟨"manifests/00.json", .ok [0]⟩, .error "denied",
      .ok ⟨"manifests/01.json", .ok [1]⟩, .ok ⟨"manifests/notes.txt", .ok [2]⟩]
    let json : ManifestJson := ⟨fun _ => [], fun data => .ok (yearEndManifest data)⟩
    let stamp := fun m : StampedManifest =>
      yearEndStamp (if m.backupHash = "00" then [0] else [1])
    readManifests json (.ok dir) = [yearEndManifest [0], yearEndManifest [1]] ∧
      (listManifests json (.ok dir)).Pairwise
        fun a b => (stamp b).chronology ≤ (stamp a).chronology := by
  intro dir json stamp
  have hread : readManifests json (.ok dir) = [yearEndManifest [0], yearEndManifest [1]] := by
    decide +kernel
  refine ⟨hread, (listManifests_newest_first printedChrono json (.ok dir) stamp ?_).2.1⟩
  rw [hread]
  intro m hm
  rcases List.mem_cons.mp hm with rfl | hm
  · decide +kernel
  · rw [List.mem_singleton.mp hm]
    decide +kernel

end Listing

end Reminisce
