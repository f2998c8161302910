import Reminisce.Library.Worklists

namespace Reminisce

/-- The names from the root of an import to a file or directory. -/
abbrev ImportPath := List String

/-- What `DirEntry::file_type` says, which does not follow links; `other` is neither a directory nor a
link, and `unknown` an error. -/
inductive EntryType
  | dir
  | symlink
  | other
  | unknown
  deriving DecidableEq, Repr

/-- The files under the root of an import. A directory that cannot be read has no entries, and one
whose listing breaks off those before. -/
structure FileTree where
  isDir : ImportPath → Bool
  entries : ImportPath → Option (List (String × EntryType))
  height : Nat
  distinct : ∀ p es, entries p = some es → (es.map Prod.fst).Nodup
  dirs : ∀ p es name, entries p = some es → (name, .dir) ∈ es → isDir (p ++ [name]) = true
  finite : ∀ p es, entries p = some es → p.length < height

/-- The variables of the scan; the stack is popped at its end. -/
structure ScanState where
  stack : List ImportPath
  files : List ImportPath

def scanEntry (path : ImportPath) (s : ScanState) (entry : String × EntryType) : ScanState :=
  match entry.2 with
  | .unknown => s
  | .symlink => s
  | .dir => { s with stack := s.stack ++ [path ++ [entry.1]] }
  | .other => { s with files := s.files ++ [path ++ [entry.1]] }

section Scan

variable (fs : FileTree) (recursive : Bool)

def scanPath (path : ImportPath) (s : ScanState) : ScanState :=
  if fs.isDir path ∧ (recursive ∨ path = []) then
    match fs.entries path with
    | none => s
    | some es => es.foldl (scanEntry path) s
  else s

/-- The loop of `run_import` over its stack, for so many rounds. -/
def scanLoop : (rounds : Nat) → ScanState → Option (List ImportPath)
  | 0, s => if s.stack = [] then some s.files else none
  | rounds + 1, s =>
    match s.stack.getLast? with
    | none => some s.files
    | some path => scanLoop rounds (scanPath fs recursive path { s with stack := s.stack.dropLast })

/-- The files to process. -/
def scanFiles (rounds : Nat) : Option (List ImportPath) := scanLoop fs recursive rounds ⟨[[]], []⟩

/-- The directories that are entered: the root, and those below it through directories only. -/
inductive FileTree.Entered : ImportPath → Prop
  | root (h : fs.isDir [] = true) : Entered []
  | step {path : ImportPath} {es : List (String × EntryType)} {name : String}
    (h : Entered path) (hread : fs.entries path = some es) (hname : (name, .dir) ∈ es)
    (hrecursive : recursive = true) : Entered (path ++ [name])

/-- What stands in an entered directory and is neither a directory nor a link. -/
def FileTree.Scanned (path : ImportPath) : Prop :=
  ∃ dir es name, fs.Entered recursive dir ∧ fs.entries dir = some es ∧ (name, .other) ∈ es ∧
    path = dir ++ [name]

/-- The entries of a directory that is entered. -/
def FileTree.listing (path : ImportPath) : List (String × EntryType) :=
  if fs.isDir path ∧ (recursive ∨ path = []) then (fs.entries path).getD [] else []

def FileTree.named (path : ImportPath) (typ : EntryType) : List ImportPath :=
  ((fs.listing recursive path).filter fun entry => entry.2 = typ).map fun entry =>
    path ++ [entry.1]

def FileTree.system : Worklists.System ImportPath ImportPath where
  output path := fs.named recursive path .other
  children path := fs.named recursive path .dir

end Scan

section Exact

variable {fs : FileTree} {recursive : Bool} {path : ImportPath} {typ : EntryType}

theorem foldl_scanEntry (es : List (String × EntryType)) (s : ScanState) :
    es.foldl (scanEntry path) s =
      ⟨s.stack ++ (es.filter fun entry => entry.2 = .dir).map fun entry => path ++ [entry.1],
        s.files ++ (es.filter fun entry => entry.2 = .other).map fun entry => path ++ [entry.1]⟩ := by
  induction es generalizing s with
  | nil => simp
  | cons entry es ih =>
    obtain ⟨name, typ⟩ := entry
    rw [List.foldl_cons, ih]
    cases typ <;> simp [scanEntry]

theorem scanPath_eq (s : ScanState) : scanPath fs recursive path s =
    ⟨s.stack ++ (fs.system recursive).children path,
      s.files ++ (fs.system recursive).output path⟩ := by
  rw [scanPath]
  simp only [FileTree.system, FileTree.named, FileTree.listing]
  split
  next =>
    cases fs.entries path with
    | none => simp
    | some es => exact foldl_scanEntry es s
  next => simp

/-- The loop is the one over a stack. -/
theorem scanLoop_eq (rounds : Nat) (stack files : List ImportPath) :
    scanLoop fs recursive rounds ⟨stack.reverse, files⟩ =
      (fs.system recursive).drain rounds stack files := by
  induction rounds generalizing stack files with
  | zero =>
    cases stack with
    | nil => rfl
    | cons path stack => exact if_neg (by simp)
  | succ rounds ih =>
    cases stack with
    | nil => rfl
    | cons path stack =>
      have hstack : stack.reverse ++ (fs.system recursive).children path =
          (((fs.system recursive).children path).reverse ++ stack).reverse := by
        rw [List.reverse_append, List.reverse_reverse]
      rw [scanLoop, List.getLast?_reverse, List.head?_cons, List.dropLast_reverse, List.tail_cons]
      dsimp only
      rw [scanPath_eq, hstack, ih]
      rfl

theorem scanFiles_eq (rounds : Nat) :
    scanFiles fs recursive rounds = (fs.system recursive).drain rounds [[]] [] :=
  scanLoop_eq rounds [[]] []

/-- More rounds find nothing more. -/
theorem scanFiles_le {rounds more : Nat} {files : List ImportPath}
    (h : scanFiles fs recursive rounds = some files) (hle : rounds ≤ more) :
    scanFiles fs recursive more = some files := by
  rw [scanFiles_eq] at h ⊢
  exact Worklists.System.drain_le h hle

theorem mem_listing {entry : String × EntryType} : entry ∈ fs.listing recursive path ↔
    (fs.isDir path = true ∧ (recursive = true ∨ path = [])) ∧
      ∃ es, fs.entries path = some es ∧ entry ∈ es := by
  rw [FileTree.listing]
  split
  next h =>
    rw [and_iff_right h]
    cases fs.entries path with
    | none => simp
    | some es => simp
  next h => simp [h]

theorem mem_named {below : ImportPath} : below ∈ fs.named recursive path typ ↔
    ∃ name, (name, typ) ∈ fs.listing recursive path ∧ below = path ++ [name] := by
  rw [FileTree.named, List.mem_map]
  constructor
  · rintro ⟨⟨name, typ'⟩, hentry, rfl⟩
    obtain ⟨hlisted, htyp⟩ := List.mem_filter.mp hentry
    obtain rfl : typ' = typ := of_decide_eq_true htyp
    exact ⟨name, hlisted, rfl⟩
  · rintro ⟨name, hentry, rfl⟩
    exact ⟨(name, typ), List.mem_filter.mpr ⟨hentry, decide_eq_true rfl⟩, rfl⟩

theorem nodup_named : (fs.named recursive path typ).Nodup := by
  have hnames : ((fs.listing recursive path).map Prod.fst).Nodup := by
    rw [FileTree.listing]
    split
    next =>
      cases hes : fs.entries path with
      | none => exact List.nodup_nil
      | some es => exact fs.distinct path es hes
    next => exact List.nodup_nil
  have hfiltered := hnames.sublist
    ((List.filter_sublist (p := fun entry => entry.2 = typ)).map Prod.fst)
  rw [FileTree.named]
  have hmap : ∀ entries : List (String × EntryType),
      (entries.map fun entry => path ++ [entry.1]) =
        (entries.map Prod.fst).map fun name => path ++ [name] := fun entries => by
    rw [List.map_map]
    rfl
  rw [hmap]
  exact hfiltered.map fun name name' heq => by simpa using heq

/-- A directory is deeper than the one it stands in, and there is a deepest one. -/
theorem rank_child (x : ImportPath) :
    ∀ y ∈ (fs.system recursive).children x, fs.height - y.length < fs.height - x.length := by
  intro y hy
  obtain ⟨name, hname, rfl⟩ := mem_named.mp hy
  obtain ⟨-, es, hes, -⟩ := mem_listing.mp hname
  have hlt := fs.finite x es hes
  rw [List.length_append]
  exact Nat.sub_lt_sub_left hlt (Nat.lt_succ_self _)

theorem entered_of_leads (h : (fs.system recursive).Leads [] path)
    (hdir : fs.isDir path = true ∧ (recursive = true ∨ path = [])) :
    fs.Entered recursive path := by
  induction h with
  | refl => exact .root hdir.1
  | tail _ hstep ih =>
    obtain ⟨name, hname, rfl⟩ := mem_named.mp hstep
    obtain ⟨hparent, es, hes, hmem⟩ := mem_listing.mp hname
    refine .step (ih hparent) hes hmem (hdir.2.resolve_right ?_)
    simp

theorem leads_of_entered (h : fs.Entered recursive path) :
    (fs.system recursive).Leads [] path ∧ fs.isDir path = true ∧
      (recursive = true ∨ path = []) := by
  induction h with
  | root hdir => exact ⟨.refl, hdir, .inr rfl⟩
  | step h hes hmem hrecursive ih =>
    obtain ⟨hlead, hparent⟩ := ih
    exact ⟨hlead.tail (mem_named.mpr ⟨_, mem_listing.mpr ⟨hparent, _, hes, hmem⟩, rfl⟩),
      fs.dirs _ _ _ hes hmem, .inl hrecursive⟩

theorem scanned_iff : fs.Scanned recursive path ↔
    ∃ dir, (fs.system recursive).Leads [] dir ∧ path ∈ (fs.system recursive).output dir := by
  constructor
  · rintro ⟨dir, es, name, hentered, hes, hmem, rfl⟩
    obtain ⟨hlead, hdir⟩ := leads_of_entered hentered
    exact ⟨dir, hlead, mem_named.mpr ⟨name, mem_listing.mpr ⟨hdir, es, hes, hmem⟩, rfl⟩⟩
  · rintro ⟨dir, hlead, hpath⟩
    obtain ⟨name, hname, rfl⟩ := mem_named.mp hpath
    obtain ⟨hdir, es, hes, hmem⟩ := mem_listing.mp hname
    exact ⟨dir, es, name, entered_of_leads hlead hdir, hes, hmem, rfl⟩

/-- A name stands for one entry of its directory. -/
theorem entry_unique {es : List (String × EntryType)} {name : String} {typ' : EntryType}
    (hes : fs.entries path = some es) (h : (name, typ) ∈ es) (h' : (name, typ') ∈ es) :
    typ = typ' :=
  congrArg Prod.snd (List.inj_on_of_nodup_map (fs.distinct path es hes) h h' rfl)

/-- No directory behind a link is entered. -/
theorem not_behind_link {es : List (String × EntryType)} {name : String} {dir : ImportPath}
    (hes : fs.entries path = some es) (hlink : (name, .symlink) ∈ es)
    (h : fs.Entered recursive dir) : ¬path ++ [name] <+: dir := by
  induction h with
  | root => simp
  | step _ hread hname _ ih =>
    intro hprefix
    rcases List.prefix_concat_iff.mp hprefix with heq | hprefix
    · obtain ⟨rfl, hnames⟩ := List.append_inj' heq rfl
      obtain rfl := List.singleton_inj.mp hnames
      cases hes.symm.trans hread
      exact nomatch entry_unique hes hlink hname
    · exact ih hprefix

theorem parent_of_named {below : ImportPath} (h : below ∈ fs.named recursive path typ) :
    below.dropLast = path := by
  obtain ⟨name, -, rfl⟩ := mem_named.mp h
  exact List.dropLast_concat

/-- The scan ends, with each file that is reached through directories only once, and nothing that is
or stands behind a link. -/
theorem scan_exact (fs : FileTree) (recursive : Bool) : ∃ rounds files,
    (∀ more, rounds ≤ more → scanFiles fs recursive more = some files) ∧ files.Nodup ∧
      (∀ path, path ∈ files ↔ fs.Scanned recursive path) ∧
      ∀ path es name, fs.entries path = some es → (name, .symlink) ∈ es →
        ∀ file ∈ files, ¬path ++ [name] <+: file := by
  have hroot : fs.height - ([] : ImportPath).length < fs.height + 1 := by
    rw [List.length_nil]
    omega
  have hlevels : ∀ path ∈ [([] : ImportPath)], fs.height - path.length < fs.height + 1 := by
    intro path hpath
    rw [List.mem_singleton.mp hpath]
    exact hroot
  obtain ⟨rounds, hrounds⟩ := Worklists.System.drain_below (@rank_child fs recursive) hlevels []
  have hexact : ∀ path, path ∈ (fs.system recursive).below (fs.height + 1) [] ↔
      fs.Scanned recursive path := fun path => by
    rw [Worklists.System.mem_below rank_child hroot, scanned_iff]
  rw [← scanFiles_eq, List.flatMap_singleton, List.nil_append] at hrounds
  refine ⟨rounds, (fs.system recursive).below (fs.height + 1) [],
    fun more hmore => scanFiles_le hrounds hmore, ?_, hexact,
    fun path es name hes hlink file hfile hprefix => ?_⟩
  · exact Worklists.System.nodup_below rank_child (fun x y hy => parent_of_named hy)
      (fun x y hy => parent_of_named hy) (fun _ => nodup_named) (fun _ => nodup_named) _ _ hroot
  · obtain ⟨dir, es', name', hentered, hes', hother, rfl⟩ := (hexact file).mp hfile
    rcases List.prefix_concat_iff.mp hprefix with heq | hprefix
    · obtain ⟨rfl, hnames⟩ := List.append_inj' heq rfl
      obtain rfl := List.singleton_inj.mp hnames
      cases hes.symm.trans hes'
      exact nomatch entry_unique hes hlink hother
    · exact not_behind_link hes hlink hentered hprefix

end Exact

/-- Two photos, one of them in an album, next to a link and an entry of no known type. -/
def albumEntries : ImportPath → Option (List (String × EntryType))
  | [] => some [("a.jpg", .other), ("link", .symlink), ("album", .dir), ("lost", .unknown)]
  | ["album"] => some [("b.jpg", .other), ("up", .symlink)]
  | _ => none

theorem albumEntries_cases {p : ImportPath} {es : List (String × EntryType)}
    (h : albumEntries p = some es) :
    p = [] ∧ es = [("a.jpg", .other), ("link", .symlink), ("album", .dir), ("lost", .unknown)] ∨
      p = ["album"] ∧ es = [("b.jpg", .other), ("up", .symlink)] := by
  unfold albumEntries at h
  split at h
  next => exact .inl ⟨rfl, (Option.some.inj h).symm⟩
  next => exact .inr ⟨rfl, (Option.some.inj h).symm⟩
  next => cases h

def albumIsDir (p : ImportPath) : Bool := p = [] ∨ p = ["album"]

theorem album_distinct (p : ImportPath) (es : List (String × EntryType))
    (h : albumEntries p = some es) : (es.map Prod.fst).Nodup := by
  rcases albumEntries_cases h with ⟨-, rfl⟩ | ⟨-, rfl⟩ <;> decide

theorem album_dirs (p : ImportPath) (es : List (String × EntryType)) (name : String)
    (h : albumEntries p = some es) (hname : (name, .dir) ∈ es) :
    albumIsDir (p ++ [name]) = true := by
  rcases albumEntries_cases h with ⟨rfl, rfl⟩ | ⟨rfl, rfl⟩
  · obtain rfl : name = "album" := by simpa using hname
    decide
  · simp at hname

theorem album_finite (p : ImportPath) (es : List (String × EntryType))
    (h : albumEntries p = some es) : p.length < 2 := by
  rcases albumEntries_cases h with ⟨rfl, -⟩ | ⟨rfl, -⟩ <;> decide

def albumTree : FileTree :=
  ⟨albumIsDir, albumEntries, 2, album_distinct, album_dirs, album_finite⟩

/-- Of the album both photos are found, and nothing of the links. -/
theorem scan_exact_album : scanFiles albumTree true 2 = some [["a.jpg"], ["album", "b.jpg"]] ∧
    (∀ path, path ∈ [["a.jpg"], ["album", "b.jpg"]] ↔ albumTree.Scanned true path) ∧
      ∀ file ∈ [["a.jpg"], ["album", "b.jpg"]], ¬["link"] <+: file := by
  have hscan : scanFiles albumTree true 2 = some [["a.jpg"], ["album", "b.jpg"]] := by
    decide +kernel
  obtain ⟨rounds, files, hfiles, -, hexact, hlinks⟩ := scan_exact albumTree true
  obtain rfl : files = [["a.jpg"], ["album", "b.jpg"]] :=
    Option.some.inj ((hfiles _ (Nat.le_max_left rounds 2)).symm.trans
      (scanFiles_le hscan (Nat.le_max_right rounds 2)))
  exact ⟨hscan, hexact, hlinks [] _ "link" rfl (by decide)⟩

end Reminisce
