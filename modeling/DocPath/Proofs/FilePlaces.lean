import DocPath.Files.Tree
import DocPath.Proofs.Outcome

/-!
# Where files are read and written

There are no links, so the place that a walk ends at can be told from the path alone (`placeOf`);
the files only decide whether it gets there. A write puts a file at that place and changes nothing
else, and making directories puts them where nothing was. So what was there is `Kept`, and whatever
could be read at another place can be read as before.
-/

namespace DocPath

namespace Files

variable {files : Files} {place next : Place} {piece path : String} {content : ByteArray}

/-! ### Places -/

/-- The place that a piece of a path leads to, if it leads anywhere. -/
def stepOver (place : Place) (piece : String) : Place :=
  if piece = "" ∨ piece = "." then place
  else if piece = ".." then place.dropLast
  else place ++ [piece]

/-- The place that pieces of a path lead to, if they lead anywhere. -/
def follow (place : Place) (pieces : List String) : Place := pieces.foldl stepOver place

/-- The place that a path leads to from a working directory, if it leads anywhere. -/
def placeOf (home : Place) (path : String) : Place :=
  follow (if FilePath.isAbsolute path then [] else home) (FilePath.pieces path)

theorem follow_append (place : Place) (before after : List String) :
    follow place (before ++ after) = follow (follow place before) after := List.foldl_append

/-- Without going up, a path leads to the names that count in it. -/
theorem follow_eq_append {pieces : List String} (h : ".." ∉ pieces) (place : Place) :
    follow place pieces = place ++ pieces.filter fun piece => !FilePath.isIdle piece := by
  induction pieces generalizing place with
  | nil => exact (List.append_nil place).symm
  | cons piece rest ih =>
    obtain ⟨hpiece, hrest⟩ := not_or.1 (mt List.mem_cons.2 h)
    rw [follow, List.foldl_cons, ← follow, ih hrest, stepOver, if_neg (Ne.symm hpiece)]
    have hisIdle : FilePath.isIdle piece = true ↔ piece = "" ∨ piece = "." := by
      simp [FilePath.isIdle]
    by_cases hidle : piece = "" ∨ piece = "."
    · rw [if_pos hidle, List.filter_cons_of_neg (by simp [hisIdle.2 hidle])]
    · rw [if_neg hidle, List.filter_cons_of_pos (by simpa using mt hisIdle.1 hidle),
        List.append_assoc, List.singleton_append]

/-- Empty pieces lead nowhere. -/
theorem follow_of_empty {pieces : List String} (h : ∀ piece ∈ pieces, piece = "") (place : Place) :
    follow place pieces = place := by
  induction pieces with
  | nil => rfl
  | cons piece rest ih =>
    rw [h piece List.mem_cons_self]
    exact ih fun other mem => h other (List.mem_cons_of_mem _ mem)

/-- The content of the file at a place. -/
def content? (files : Files) (place : Place) : Option ByteArray :=
  match files.get? place with
  | some (.file content) => some content
  | _ => none

theorem content?_eq_some : files.content? place = some content ↔
    files.get? place = some (.file content) := by
  rw [content?]
  split <;> simp_all

theorem enter_eq_ok : files.enter place = .ok () ↔ files.get? place = some .directory := by
  rw [enter]
  split <;> simp_all

theorem below_eq_ok {name : String} : below place name = .ok next ↔
    name.utf8ByteSize ≤ nameLimit ∧ place ++ [name] = next := by
  rw [below]
  split
  · simp
    omega
  · simp
    omega

/-- A step starts in a directory and goes where its piece says. -/
theorem step_eq_ok : files.step place piece = .ok next ↔
    files.get? place = some .directory ∧ piece.utf8ByteSize ≤ nameLimit ∧
      stepOver place piece = next := by
  have hover : (if piece = "" ∨ piece = "." then pure place
      else if piece = ".." then pure place.dropLast
      else below place piece : Except FileFault Place) = .ok next ↔
        piece.utf8ByteSize ≤ nameLimit ∧ stepOver place piece = next := by
    rw [stepOver]
    by_cases hidle : piece = "" ∨ piece = "."
    · have hsize : piece.utf8ByteSize ≤ nameLimit := by
        rcases hidle with rfl | rfl <;> decide
      simp [hidle, hsize, pure, Except.pure]
    · by_cases habove : piece = ".."
      · have hsize : "..".utf8ByteSize ≤ nameLimit := by decide
        simp [habove, hsize, pure, Except.pure]
      · simp [hidle, habove, below_eq_ok]
  rw [step, bind_eq_ok, ← enter_eq_ok]
  constructor
  · rintro ⟨⟨⟩, henter, h⟩
    exact ⟨henter, hover.1 h⟩
  · rintro ⟨henter, h⟩
    exact ⟨(), henter, hover.2 h⟩

theorem walk_cons_eq_ok {rest : List String} : files.walk place (piece :: rest) = .ok next ↔
    ∃ between, files.step place piece = .ok between ∧ files.walk between rest = .ok next := by
  rw [walk, List.foldlM_cons, bind_eq_ok]
  rfl

theorem walk_append_eq_ok {before after : List String} :
    files.walk place (before ++ after) = .ok next ↔
      ∃ between, files.walk place before = .ok between ∧ files.walk between after = .ok next := by
  rw [walk, List.foldlM_append, bind_eq_ok]
  rfl

/-- A walk ends where its pieces lead. -/
theorem follow_of_walk {pieces : List String} (h : files.walk place pieces = .ok next) :
    follow place pieces = next := by
  induction pieces generalizing place with
  | nil =>
    cases h
    rfl
  | cons piece rest ih =>
    obtain ⟨between, hstep, hrest⟩ := walk_cons_eq_ok.1 h
    obtain ⟨-, -, rfl⟩ := step_eq_ok.1 hstep
    exact ih hrest

theorem locate_eq_ok : files.locate path = .ok place ↔
    faultOf? path = none ∧ files.walk (files.start path) (FilePath.pieces path) = .ok place := by
  rw [locate]
  cases faultOf? path <;> simp

theorem placeOf_of_locate (h : files.locate path = .ok place) : placeOf files.home path = place :=
  follow_of_walk (locate_eq_ok.1 h).2

/-- A file is read at the place of its path. -/
theorem read_eq_ok : files.read path = .ok content ↔
    ∃ place, files.locate path = .ok place ∧ files.content? place = some content := by
  rw [read, bind_eq_ok]
  refine exists_congr fun place => and_congr_right fun _ => ?_
  rw [content?_eq_some]
  split <;> simp_all [pure, Except.pure, throw, throwThe, MonadExceptOf.throw]

/-! ### What stays -/

/-- All directories are kept, and whatever stands at the places that count. -/
structure Kept (counts : Place → Prop) (before after : Files) : Prop where
  home : after.home = before.home
  entries : ∀ place entry, before.get? place = some entry →
    entry.isDirectory = true ∨ counts place → after.get? place = some entry

variable {counts : Place → Prop} {before between after : Files}

theorem Kept.refl (counts : Place → Prop) (files : Files) : Kept counts files files :=
  ⟨rfl, fun _ _ h _ => h⟩

theorem Kept.trans (h : Kept counts before between) (h' : Kept counts between after) :
    Kept counts before after where
  home := h'.home.trans h.home
  entries := fun place entry hentry hcounts =>
    h'.entries place entry (h.entries place entry hentry hcounts) hcounts

theorem Kept.mono {fewer : Place → Prop} (h : Kept counts before after)
    (hfewer : ∀ place, fewer place → counts place) : Kept fewer before after where
  home := h.home
  entries := fun place entry hentry hcounts =>
    h.entries place entry hentry (hcounts.imp_right (hfewer place))

theorem Kept.content? (h : Kept counts before after) (hcounts : counts place)
    (hcontent : before.content? place = some content) : after.content? place = some content :=
  content?_eq_some.2 (h.entries place _ (content?_eq_some.1 hcontent) (.inr hcounts))

theorem Kept.walk {pieces : List String} (h : Kept counts before after)
    (hwalk : before.walk place pieces = .ok next) : after.walk place pieces = .ok next := by
  induction pieces generalizing place with
  | nil => exact hwalk
  | cons piece rest ih =>
    obtain ⟨between, hstep, hrest⟩ := walk_cons_eq_ok.1 hwalk
    obtain ⟨hdirectory, hover⟩ := step_eq_ok.1 hstep
    have hstep := step_eq_ok.2 ⟨h.entries place _ hdirectory (.inl rfl), hover⟩
    exact walk_cons_eq_ok.2 ⟨between, hstep, ih hrest⟩

theorem Kept.locate (h : Kept counts before after) (hlocate : before.locate path = .ok place) :
    after.locate path = .ok place := by
  obtain ⟨hfault, hwalk⟩ := locate_eq_ok.1 hlocate
  refine locate_eq_ok.2 ⟨hfault, ?_⟩
  rw [start, h.home]
  exact h.walk hwalk

/-- A file whose place counts is read as before. -/
theorem Kept.read (h : Kept counts before after) (hcounts : counts (placeOf before.home path))
    (hread : before.read path = .ok content) : after.read path = .ok content := by
  obtain ⟨place, hlocate, hcontent⟩ := read_eq_ok.1 hread
  obtain rfl := placeOf_of_locate hlocate
  exact read_eq_ok.2 ⟨_, h.locate hlocate, h.content? hcounts hcontent⟩

theorem kept_put (hplace : files.get? place ≠ some .directory) (entry : Entry) :
    Kept (· ≠ place) files (files.put place entry) where
  home := rfl
  entries := by
    intro other old hold hcounts
    have hne : other ≠ place := by
      rintro rfl
      rcases hcounts with hdirectory | hne
      · cases old with
        | file content => cases hdirectory
        | directory => exact hplace hold
      · exact hne rfl
    rw [get?_put_of_ne hne, hold]

theorem content?_put_of_ne {entry : Entry} {other : Place} (h : other ≠ place) :
    (files.put place entry).content? other = files.content? other := by
  rw [Files.content?, get?_put_of_ne h, Files.content?]

/-! ### Making directories -/

/-- Directories may have been added; no file has changed. -/
structure Grown (before after : Files) : Prop where
  kept : Kept (fun _ => True) before after
  contents : ∀ place, after.content? place = before.content? place

theorem Grown.refl (files : Files) : Grown files files := ⟨.refl _ files, fun _ => rfl⟩

/-- Directories may have been made at some places where nothing was; all else is as it was. -/
structure Made (places : Place → Prop) (before after : Files) : Prop where
  home : after.home = before.home
  entries : ∀ place, after.get? place = before.get? place ∨
    before.get? place = none ∧ after.get? place = some .directory ∧ places place

variable {places : Place → Prop}

theorem Made.refl (places : Place → Prop) (files : Files) : Made places files files :=
  ⟨rfl, fun _ => .inl rfl⟩

theorem Made.trans (h : Made places before between) (h' : Made places between after) :
    Made places before after where
  home := h'.home.trans h.home
  entries := by
    intro place
    rcases h'.entries place with hsame | ⟨hnone, hmade, hplace⟩
    · rw [hsame]
      exact h.entries place
    · rcases h.entries place with hbetween | ⟨-, hbetween, -⟩
      · exact .inr ⟨hbetween.symm.trans hnone, hmade, hplace⟩
      · cases hnone.symm.trans hbetween

theorem Made.mono {more : Place → Prop} (h : Made places before after)
    (hmore : ∀ place, places place → more place) : Made more before after where
  home := h.home
  entries := fun place => (h.entries place).imp_right fun hmade =>
    ⟨hmade.1, hmade.2.1, hmore place hmade.2.2⟩

theorem Made.grown (h : Made places before after) : Grown before after where
  kept := by
    refine ⟨h.home, fun place entry hentry _ => ?_⟩
    rcases h.entries place with hsame | ⟨hnone, -, -⟩
    · exact hsame.trans hentry
    · cases hnone.symm.trans hentry
  contents := by
    intro place
    rw [Files.content?, Files.content?]
    rcases h.entries place with hsame | ⟨hnone, hmade, -⟩
    · rw [hsame]
    · rw [hnone, hmade]

theorem made_put_directory (hplace : files.get? place = none) :
    Made (· = place) files (files.put place .directory) where
  home := rfl
  entries := by
    intro other
    by_cases hother : other = place
    · subst hother
      have hroot : other ≠ [] := by
        rintro rfl
        cases hplace
      exact .inr ⟨hplace, get?_put_self hroot .directory files, rfl⟩
    · exact .inl (get?_put_of_ne hother .directory files)

/-- Something new stands in a directory that is there, under a name. -/
theorem of_locateNew {directory : Place} {name : String}
    (h : files.locateNew path = .ok (some (directory, name))) :
    faultOf? path = none ∧ (∃ before,
      (FilePath.pieces path).reverse.dropWhile String.isEmpty = name :: before ∧
        files.walk (files.start path) before.reverse = .ok directory) ∧
      files.get? directory = some .directory ∧
      stepOver directory name = directory ++ [name] := by
  rw [locateNew] at h
  split at h
  · cases h
  · rename_i hfault
    split at h
    · cases h
    · rename_i last before hlast
      obtain ⟨place, hwalk, h⟩ := bind_eq_ok.1 h
      obtain ⟨⟨⟩, henter, h⟩ := bind_eq_ok.1 h
      have hnil : ¬last = "" := by
        have hhead := List.head?_dropWhile_not String.isEmpty (FilePath.pieces path).reverse
        rw [hlast] at hhead
        simpa using hhead
      by_cases hdots : last = "." ∨ last = ".."
      · rw [if_pos hdots] at h
        cases h
      · rw [if_neg hdots] at h
        cases h
        obtain ⟨hdot, habove⟩ := not_or.1 hdots
        exact ⟨hfault, ⟨before, hlast, hwalk⟩, enter_eq_ok.1 henter, by
          simp [stepOver, hnil, hdot, habove]⟩

/-- What is new at a path stands at the place of the path, whatever slashes are at its end. -/
theorem placeOf_of_locateNew {directory : Place} {name : String}
    (h : files.locateNew path = .ok (some (directory, name))) :
    placeOf files.home path = directory ++ [name] := by
  obtain ⟨-, ⟨before, hname, hwalk⟩, -, hover⟩ := of_locateNew h
  have hpieces := List.takeWhile_append_dropWhile (p := String.isEmpty)
    (l := (FilePath.pieces path).reverse)
  rw [hname, ← List.reverse_inj, List.reverse_reverse, List.reverse_append, List.reverse_cons]
    at hpieces
  have hempty : ∀ piece ∈ ((FilePath.pieces path).reverse.takeWhile String.isEmpty).reverse,
      piece = "" := fun piece mem =>
    String.isEmpty_iff.1 (List.all_eq_true.1 List.all_takeWhile piece (List.mem_reverse.1 mem))
  have hfollow : follow (files.start path) before.reverse = directory := follow_of_walk hwalk
  rw [placeOf, ← hpieces, follow_append, follow_append, follow_of_empty hempty, ← hover, ← hfollow]
  rfl

/-- One directory is made at the place of its path. -/
theorem made_makeDirectory (h : files.makeDirectory path = .ok after) :
    Made (· = placeOf files.home path) files after := by
  obtain ⟨new, hlocate, hnew⟩ := bind_eq_ok.1 h
  match new, hlocate, hnew with
  | none, _, hnew => cases hnew
  | some (directory, name), hlocate, hnew =>
    obtain ⟨place, hbelow, hput⟩ := bind_eq_ok.1 hnew
    obtain ⟨-, rfl⟩ := below_eq_ok.1 hbelow
    rw [placeOf_of_locateNew hlocate]
    cases hplace : files.get? (directory ++ [name]) with
    | some entry =>
      rw [hplace] at hput
      cases hput
    | none =>
      rw [hplace] at hput
      cases hput
      exact made_put_directory hplace

/-- Directories are made at the places of the paths that were asked for, also where one of them
cannot be made. -/
theorem made_makeDirectories (paths : List String) (files : Files) :
    Made (fun place => ∃ path ∈ paths, place = placeOf files.home path) files
      (makeDirectories paths files).2 := by
  induction paths generalizing files with
  | nil => exact .refl _ files
  | cons path outer ih =>
    have hone {start made : Files} (hhome : start.home = files.home)
        (h : start.makeDirectory path = .ok made) :
        Made (fun place => ∃ other ∈ path :: outer, place = placeOf files.home other) start made :=
      (made_makeDirectory h).mono fun place hplace =>
        ⟨path, List.mem_cons_self, hhome ▸ hplace⟩
    have houter := (ih files).mono fun place (hplace : ∃ other ∈ outer, _) =>
      hplace.imp fun other h => And.imp_left (List.mem_cons_of_mem path) h
    rw [makeDirectories]
    split
    · exact hone rfl ‹_›
    · split
      · rename_i hfault
        rwa [hfault] at houter
      · rename_i hmade
        rw [hmade] at houter
        split
        · exact houter.trans (hone houter.home ‹_›)
        · exact houter
    · exact .refl _ files

/-! ### Writing a file -/

/-- A path that does not ask for a directory ends in a name. -/
theorem pieces_eq_concat {name : String} {before : List String} (hempty : path ≠ "")
    (hopen : FilePath.endsOpen path = false)
    (h : (FilePath.pieces path).reverse.dropWhile String.isEmpty = name :: before) :
    FilePath.pieces path = before.reverse ++ [name] := by
  cases hreverse : (FilePath.pieces path).reverse with
  | nil =>
    rw [hreverse] at h
    cases h
  | cons last others =>
    have hpieces : FilePath.pieces path = others.reverse ++ [last] := by
      rw [← List.reverse_reverse (FilePath.pieces path), hreverse, List.reverse_cons]
    have hlast : ¬last.isEmpty = true := by
      intro hnil
      have hchars : (Text.pieces '/' path.toList).getLast? = some [] := by
        have hmapped := congrArg List.getLast? hpieces
        rw [FilePath.pieces, List.getLast?_map, List.getLast?_concat, String.isEmpty_iff.1 hnil,
          Option.map_eq_some_iff] at hmapped
        obtain ⟨cs, hcs, hof⟩ := hmapped
        rw [hcs, String.ofList_eq_empty_iff.1 hof]
      rcases Text.getLast?_of_pieces hchars with hnone | hslash
      · exact hempty (String.toList_eq_nil_iff.1 hnone)
      · simp [FilePath.endsOpen, hslash] at hopen
    rw [hreverse, List.dropWhile_cons_of_neg hlast] at h
    cases h
    exact hpieces

/-- A write puts a file at the place of its path, which is no directory, and it can be read there.
-/
theorem of_write {left : Files} (h : files.write path content = .ok left) :
    placeOf files.home path ≠ [] ∧ files.get? (placeOf files.home path) ≠ some .directory ∧
      left = files.put (placeOf files.home path) (.file content) ∧
      left.read path = .ok content := by
  obtain ⟨new, hnew, hrest⟩ := bind_eq_ok.1 h
  match new, hnew, hrest with
  | none, _, hrest => cases hrest
  | some (directory, name), hnew, hrest =>
    obtain ⟨hfault, ⟨before, hname, hwalk⟩, hdirectory, hover⟩ := of_locateNew hnew
    dsimp only at hrest
    split at hrest
    · cases hrest
    · rename_i hopen
      obtain ⟨place, hbelow, hput⟩ := bind_eq_ok.1 hrest
      obtain ⟨hsize, rfl⟩ := below_eq_ok.1 hbelow
      have hempty : path ≠ "" := by
        rintro rfl
        cases hfault
      have hpieces := pieces_eq_concat hempty (by simpa using hopen) hname
      have hplace := placeOf_of_locateNew hnew
      have hroot : directory ++ [name] ≠ [] := by simp
      rw [hplace]
      split at hput
      · cases hput
      · rename_i hfree
        cases hput
        have hnot : files.get? (directory ++ [name]) ≠ some .directory := by
          intro hold
          rw [hold] at hfree
          exact hfree rfl
        have hkept := kept_put hnot (.file content)
        refine ⟨hroot, hnot, rfl, read_eq_ok.2 ⟨directory ++ [name], ?_, ?_⟩⟩
        · refine locate_eq_ok.2 ⟨hfault, ?_⟩
          rw [hpieces]
          refine walk_append_eq_ok.2 ⟨directory, hkept.walk hwalk, ?_⟩
          exact walk_cons_eq_ok.2 ⟨_, step_eq_ok.2
            ⟨hkept.entries _ _ hdirectory (.inl rfl), hsize, hover⟩, rfl⟩
        · rw [content?_eq_some, get?_put_self hroot]

/-- Whatever can be read at another place is read as before. -/
theorem kept_of_write {left : Files} (h : files.write path content = .ok left) :
    Kept (· ≠ placeOf files.home path) files left := by
  obtain ⟨-, hfree, rfl, -⟩ := of_write h
  exact kept_put hfree _

/-! ### Joined paths -/

theorem pieces_append_slash (base path : String) :
    FilePath.pieces (base ++ "/" ++ path) = FilePath.pieces base ++ FilePath.pieces path := by
  have hchars : (base ++ "/" ++ path).toList = base.toList ++ '/' :: path.toList := by simp
  rw [FilePath.pieces, hchars, Text.pieces_append_cons, List.map_append]
  rfl

theorem isAbsolute_append {base : String} (h : base ≠ "") (rest : String) :
    FilePath.isAbsolute (base ++ rest) = FilePath.isAbsolute base := by
  rw [FilePath.isAbsolute, FilePath.isAbsolute, String.toList_append]
  cases hbase : base.toList with
  | nil => exact absurd (String.toList_eq_nil_iff.1 hbase) h
  | cons c cs => rfl

theorem exists_of_endsOpen {base : String} (h : FilePath.endsOpen base = true) :
    ∃ before, base = before ++ "/" ++ "" := by
  obtain ⟨cs, hcs⟩ := List.getLast?_eq_some_iff.1 (of_decide_eq_true h)
  refine ⟨String.ofList cs, ?_⟩
  apply String.toList_inj.1
  simp [hcs]

/-- A relative path that is joined to a directory goes on from where that leads. -/
theorem placeOf_join (home : Place) (base : String) (hpath : FilePath.isAbsolute path = false) :
    placeOf home (FilePath.join base path) =
      follow (placeOf home base) (FilePath.pieces path) := by
  rw [FilePath.join, hpath, if_neg (by simp)]
  by_cases hempty : base = ""
  · subst hempty
    have hhome : placeOf home "" = home := rfl
    rw [hhome, if_pos (by simp), String.empty_append, placeOf, hpath, if_neg (by simp)]
  have hnil : base.isEmpty = false := by simpa using hempty
  by_cases hopen : FilePath.endsOpen base = true
  · obtain ⟨before, hbefore⟩ := exists_of_endsOpen hopen
    have hbase : FilePath.pieces base = FilePath.pieces before ++ [""] := by
      rw [hbefore, pieces_append_slash]
      rfl
    have hjoined : base ++ path = before ++ "/" ++ path := by
      rw [hbefore, String.append_empty]
    -- the empty piece at the end of the directory goes nowhere
    have hidle (place : Place) : follow place [""] = place := rfl
    rw [if_pos (by simp [hopen]), placeOf, isAbsolute_append hempty, placeOf, hjoined,
      pieces_append_slash, hbase, follow_append, follow_append, hidle]
  · rw [if_neg (by simp [hnil, hopen]), placeOf, String.append_assoc, isAbsolute_append hempty,
      ← String.append_assoc, pieces_append_slash, follow_append]
    rfl

/-- A plain file name. -/
structure IsName (name : String) : Prop where
  no_slash : '/' ∉ name.toList
  not_idle : ¬(name = "" ∨ name = ".")
  not_above : name ≠ ".."

theorem IsName.isAbsolute {name : String} (h : IsName name) : FilePath.isAbsolute name = false := by
  refine decide_eq_false fun hhead => h.no_slash ?_
  exact List.mem_of_head? hhead

/-- A plain file name leads from a directory to what has this name in it. -/
theorem IsName.follow {name : String} (h : IsName name) (place : Place) :
    follow place (FilePath.pieces name) = place ++ [name] := by
  rw [FilePath.pieces_of_no_slash h.no_slash, Files.follow, List.foldl_cons, List.foldl_nil,
    stepOver, if_neg h.not_idle, if_neg h.not_above]

theorem IsName.placeOf {name : String} (h : IsName name) (home : Place) :
    placeOf home name = home ++ [name] := by
  rw [Files.placeOf, h.isAbsolute, if_neg Bool.false_ne_true, h.follow]

/-- What has one plain file name does not lie in what has another. -/
theorem IsName.eq_of_prefix {name other : String} (h : IsName name) (h' : IsName other)
    {home : Place} (hin : Files.placeOf home name <+: Files.placeOf home other) : name = other := by
  rw [h.placeOf, h'.placeOf, List.prefix_append_right_inj] at hin
  exact (List.cons_prefix_cons.1 hin).1

/-- A plain file name is joined to a directory as one more name. -/
theorem placeOf_join_name {name : String} (h : IsName name) (home : Place) (base : String) :
    placeOf home (FilePath.join base name) = placeOf home base ++ [name] := by
  rw [placeOf_join home base h.isAbsolute, h.follow]

end Files

end DocPath
