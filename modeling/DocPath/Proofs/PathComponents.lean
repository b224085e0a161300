import DocPath.Proofs.FilePlaces

/-!
# Components of joined paths, and the directories on the way

What a path means as a text, its components, can be told from its pieces: all of them count but the
idle ones, and the first one says where the path starts (`components_eq`). So joining a relative
path to a directory joins their components. The directories on the way to a path are written as
parts of it, and each of them leads where the pieces of that part do.
-/

namespace DocPath

open Files (exists_of_endsOpen follow isAbsolute_append pieces_append_slash placeOf)

/-- The name that a component is. -/
def Component.name? : Component → Option String
  | .name text => some text
  | _ => none

namespace FilePath

variable {path base first piece : String} {rest : List String}

/-! ### Components from pieces -/

theorem exists_pieces (path : String) : ∃ first rest, pieces path = first :: rest :=
  List.exists_cons_of_ne_nil (mt List.map_eq_nil_iff.1 (Text.pieces_ne_nil '/' path.toList))

theorem no_slash_of_mem (h : piece ∈ pieces path) : '/' ∉ piece.toList := by
  obtain ⟨cs, hcs, rfl⟩ := List.mem_map.1 h
  rw [String.toList_ofList]
  exact Text.separator_not_mem hcs

/-- Paths that begin with a slash are those whose first piece is empty, the empty path apart. -/
theorem isAbsolute_iff (hempty : path ≠ "") (h : pieces path = first :: rest) :
    isAbsolute path = true ↔ first = "" := by
  rw [isAbsolute, decide_eq_true_eq]
  rw [pieces] at h
  cases hpath : path.toList with
  | nil => exact absurd (String.toList_eq_nil_iff.1 hpath) hempty
  | cons c cs =>
    rw [hpath, Text.pieces] at h
    by_cases hc : c = '/'
    · rw [if_pos hc] at h
      obtain ⟨rfl, -⟩ := List.cons.inj h
      simp [hc]
    · rw [if_neg hc] at h
      cases hcs : Text.pieces '/' cs with
      | nil => exact absurd hcs (Text.pieces_ne_nil '/' cs)
      | cons others more =>
        rw [hcs] at h
        obtain ⟨rfl, -⟩ := List.cons.inj h
        simp [hc]

theorem eq_empty_of_pieces (h : pieces path = [""]) : path = "" := by
  refine Classical.byContradiction fun hempty => ?_
  obtain ⟨cs, hcs⟩ := List.head?_eq_some_iff.1 (of_decide_eq_true ((isAbsolute_iff hempty h).2 rfl))
  have hpath : path = "" ++ "/" ++ String.ofList cs := by
    apply String.toList_inj.1
    simp [hcs]
  obtain ⟨_, _, hrest⟩ := exists_pieces (String.ofList cs)
  rw [hpath, pieces_append_slash, hrest] at h
  cases h

/-- The components that a piece at the front of a path is. -/
def lead (piece : String) : List Component :=
  if piece = "" then [.root] else if piece = "." then [.here] else (component? piece).toList

/-- A front piece that is neither empty nor a dot is a component like any other. -/
theorem lead_append (hroot : first ≠ "") (hhere : first ≠ ".") (rest : List String) :
    lead first ++ rest.filterMap component? = (first :: rest).filterMap component? := by
  rw [lead, if_neg hroot, if_neg hhere, List.filterMap_cons]
  cases component? first <;> rfl

theorem components_eq (hempty : path ≠ "") (h : pieces path = first :: rest) :
    components path = lead first ++ rest.filterMap component? := by
  rw [components, h]
  split
  · rename_i hnil
    cases hnil
  · rename_i hnil
    exact absurd (eq_empty_of_pieces (h.trans hnil)) hempty
  · rename_i hroot
    cases hroot
    rfl
  · rename_i hhere
    cases hhere
    rfl
  · rename_i hslash hdot
    have hfirst : first ≠ "" ∧ first ≠ "." := by
      constructor
      · rintro rfl
        exact hslash _ rfl
      · rintro rfl
        exact hdot _ rfl
    exact (lead_append hfirst.1 hfirst.2 rest).symm

theorem component?_eq_some {c : Component} : component? piece = some c ↔
    isIdle piece = false ∧ c = if piece = ".." then .above else .name piece := by
  rw [component?]
  cases isIdle piece with
  | true => simp
  | false =>
    by_cases habove : piece = ".." <;> simp [habove, eq_comm]

theorem above_mem_filterMap {pieces : List String} :
    .above ∈ pieces.filterMap component? ↔ ".." ∈ pieces := by
  rw [List.mem_filterMap]
  constructor
  · rintro ⟨piece, mem, hpiece⟩
    have habove := (component?_eq_some.1 hpiece).2
    split at habove
    · rename_i h
      exact h ▸ mem
    · cases habove
  · exact fun mem => ⟨"..", mem, by decide⟩

/-- Two dots count wherever they stand. -/
theorem above_mem_components : .above ∈ components path ↔ ".." ∈ pieces path := by
  by_cases hempty : path = ""
  · subst hempty
    decide
  obtain ⟨first, rest, h⟩ := exists_pieces path
  have hfront {c : Component} {piece : String} (hc : .above ≠ c) (hpiece : ".." ≠ piece) :
      .above ∈ c :: rest.filterMap component? ↔ ".." ∈ piece :: rest := by
    rw [List.mem_cons, List.mem_cons, above_mem_filterMap, or_iff_right hc, or_iff_right hpiece]
  rw [components_eq hempty h, h]
  by_cases hroot : first = ""
  · subst hroot
    exact hfront (c := .root) (by decide) (by decide)
  · by_cases hhere : first = "."
    · subst hhere
      exact hfront (c := .here) (by decide) (by decide)
    · rw [lead_append hroot hhere, above_mem_filterMap]

/-- The root counts at the front alone. -/
theorem root_mem_components : .root ∈ components path ↔ isAbsolute path = true := by
  by_cases hempty : path = ""
  · subst hempty
    decide
  obtain ⟨first, rest, h⟩ := exists_pieces path
  have hrest (pieces : List String) : Component.root ∉ pieces.filterMap component? := by
    intro mem
    obtain ⟨piece, -, hpiece⟩ := List.mem_filterMap.1 mem
    have hroot := (component?_eq_some.1 hpiece).2
    split at hroot <;> cases hroot
  rw [components_eq hempty h, isAbsolute_iff hempty h]
  by_cases hroot : first = ""
  · simp [lead, hroot]
  · by_cases hhere : first = "."
    · subst hhere
      exact iff_of_false (mt List.mem_cons.1 (not_or_intro (by decide) (hrest rest))) (by decide)
    · rw [lead_append hroot hhere]
      exact iff_of_false (hrest _) hroot

/-- The first piece of a relative path is not empty, unless the path is. -/
theorem first_ne_empty (relative : isAbsolute path = false) (hempty : path ≠ "")
    (h : pieces path = first :: rest) : first ≠ "" := fun hroot =>
  Bool.false_ne_true (relative.symm.trans ((isAbsolute_iff hempty h).2 hroot))

/-! ### Names -/

/-- The names among the components of a path. -/
def names (path : String) : List String := (components path).filterMap Component.name?

/-- Without two dots the pieces that count are names. -/
theorem filterMap_component? {pieces : List String} (h : ".." ∉ pieces) :
    pieces.filterMap component? = (pieces.filter fun piece => !isIdle piece).map .name := by
  induction pieces with
  | nil => rfl
  | cons piece rest ih =>
    obtain ⟨hpiece, hrest⟩ := not_or.1 (mt List.mem_cons.2 h)
    cases hidle : isIdle piece with
    | true =>
      have hnone : component? piece = none := if_pos hidle
      rw [List.filterMap_cons_none hnone, List.filter_cons_of_neg (by simp [hidle]), ih hrest]
    | false =>
      have hsome : component? piece = some (.name piece) :=
        component?_eq_some.2 ⟨hidle, (if_neg (Ne.symm hpiece)).symm⟩
      rw [List.filterMap_cons_some hsome, List.filter_cons_of_pos (by simp [hidle]), ih hrest,
        List.map_cons]

/-- A relative path that does not go up has its names as those of its pieces that count. -/
theorem names_eq (relative : isAbsolute path = false) (h : ".." ∉ pieces path) :
    names path = (pieces path).filter fun piece => !isIdle piece := by
  have hnames (texts : List String) :
      (texts.map Component.name).filterMap Component.name? = texts := by
    rw [List.filterMap_map]
    exact List.filterMap_some
  by_cases hempty : path = ""
  · subst hempty
    rfl
  obtain ⟨first, rest, hpieces⟩ := exists_pieces path
  have hroot := first_ne_empty relative hempty hpieces
  rw [hpieces] at h
  rw [names, components_eq hempty hpieces, hpieces]
  by_cases hhere : first = "."
  · subst hhere
    have hrest := filterMap_component? (mt (List.mem_cons_of_mem _) h)
    rw [hrest]
    exact hnames _
  · rw [lead_append hroot hhere, filterMap_component? h, hnames]

/-! ### Joined paths -/

/-- A joined path has the pieces of both paths, but for an empty last piece of the first one. -/
theorem exists_pieces_join (base : String) (relative : isAbsolute path = false) :
    ∃ before idle, pieces base = before ++ idle ∧ (∀ piece ∈ idle, piece = "") ∧
      pieces (join base path) = before ++ pieces path ∧ (before = [] → base = "") := by
  rw [join, relative, if_neg Bool.false_ne_true]
  by_cases hempty : base = ""
  · subst hempty
    exact ⟨[], [""], rfl, fun _ => List.mem_singleton.1, by simp, fun _ => rfl⟩
  have hsome (base : String) : pieces base ≠ [] := by
    obtain ⟨first, rest, h⟩ := exists_pieces base
    rw [h]
    exact List.cons_ne_nil first rest
  by_cases hopen : endsOpen base = true
  · obtain ⟨before, rfl⟩ := exists_of_endsOpen hopen
    refine ⟨pieces before, [""], pieces_append_slash before "", fun _ => List.mem_singleton.1, ?_,
      fun h => absurd h (hsome before)⟩
    rw [if_pos (by rw [hopen, Bool.or_true]), String.append_empty, pieces_append_slash]
  · refine ⟨pieces base, [], (List.append_nil _).symm, fun _ mem => absurd mem List.not_mem_nil,
      ?_, fun h => absurd h (hsome base)⟩
    rw [if_neg (by simp [hempty, hopen]), pieces_append_slash]

theorem isAbsolute_join (base : String) (relative : isAbsolute path = false) :
    isAbsolute (join base path) = isAbsolute base := by
  rw [join, relative, if_neg Bool.false_ne_true]
  by_cases hempty : base = ""
  · subst hempty
    rw [if_pos (by simp), String.empty_append, relative]
    rfl
  · split
    · exact isAbsolute_append hempty path
    · rw [String.append_assoc, isAbsolute_append hempty]

/-- A relative path that does not go up is its names, after a dot if it begins with one. -/
theorem components_of_relative (relative : isAbsolute path = false) (h : ".." ∉ pieces path) :
    components path = (components path).takeWhile (· = .here) ++ (names path).map .name := by
  have hnames (texts : List String) : (texts.map Component.name).takeWhile (· = .here) = [] := by
    cases texts <;> rfl
  by_cases hempty : path = ""
  · subst hempty
    rfl
  obtain ⟨first, rest, hpieces⟩ := exists_pieces path
  have hroot := first_ne_empty relative hempty hpieces
  rw [names_eq relative h, components_eq hempty hpieces, hpieces]
  rw [hpieces] at h
  by_cases hhere : first = "."
  · subst hhere
    have hrest := filterMap_component? (mt (List.mem_cons_of_mem _) h)
    have hlead : lead "." = [.here] := rfl
    rw [hrest, hlead, List.singleton_append, List.takeWhile_cons_of_pos (by rfl), hnames]
    rfl
  · rw [lead_append hroot hhere, filterMap_component? h, hnames, List.nil_append]

/-- A joined path has the components of the directory and, after them, the names of a relative path
that does not go up. Without a directory a dot at the front of that path stays. -/
theorem components_join (base : String) (relative : isAbsolute path = false)
    (h : ".." ∉ pieces path) : components (join base path) =
      (if base = "" then (components path).takeWhile (· = .here) else components base) ++
        (names path).map .name := by
  by_cases hbase : base = ""
  · subst hbase
    have hjoin : join "" path = path := by
      rw [join, relative, if_neg Bool.false_ne_true, if_pos (by rfl), String.empty_append]
    rw [hjoin, if_pos rfl]
    exact components_of_relative relative h
  obtain ⟨before, idle, hbefore, hidle, hjoined, hnil⟩ := exists_pieces_join base relative
  cases before with
  | nil => exact absurd (hnil rfl) hbase
  | cons first more =>
    rw [List.cons_append] at hbefore hjoined
    have hempty : join base path ≠ "" := by
      intro hempty
      obtain ⟨piece, rest, hpath⟩ := exists_pieces path
      rw [hempty, hpath] at hjoined
      exact List.append_ne_nil_of_right_ne_nil more (List.cons_ne_nil piece rest)
        (List.cons.inj hjoined).2.symm
    have hidle : idle.filterMap component? = [] := by
      refine List.filterMap_eq_nil_iff.2 fun piece mem => ?_
      rw [hidle piece mem]
      rfl
    rw [if_neg hbase, components_eq hempty hjoined, components_eq hbase hbefore,
      List.filterMap_append, List.filterMap_append, hidle, List.append_nil,
      filterMap_component? h, names_eq relative h, List.append_assoc]

/-! ### The directories on the way -/

/-- The directories on the way to a path are written as it is, up to a piece that counts. -/
theorem mem_outer {reversed : List String} (h : path ∈ outer first reversed) :
    ∃ before after, reversed.reverse = before ++ after ∧
      (∃ piece ∈ after, isIdle piece = false) ∧ path = ofPieces (first :: before) := by
  induction reversed with
  | nil => cases h
  | cons last rest ih =>
    have hlater (hrest : path ∈ outer first rest) : ∃ before after,
        (last :: rest).reverse = before ++ after ∧ (∃ piece ∈ after, isIdle piece = false) ∧
          path = ofPieces (first :: before) := by
      obtain ⟨before, after, hreverse, ⟨piece, mem, hpiece⟩, hpath⟩ := ih hrest
      refine ⟨before, after ++ [last], ?_, ⟨piece, List.mem_append_left _ mem, hpiece⟩, hpath⟩
      rw [List.reverse_cons, hreverse, List.append_assoc]
    rw [outer] at h
    split at h
    · exact hlater h
    · rename_i hlast
      rcases List.mem_cons.1 h with rfl | h
      · refine ⟨(rest.dropWhile isIdle).reverse, (rest.takeWhile isIdle).reverse ++ [last], ?_,
          ⟨last, by simp, by simpa using hlast⟩, rfl⟩
        rw [List.reverse_cons, ← List.append_assoc, ← List.reverse_append,
          List.takeWhile_append_dropWhile]
      · exact hlater h

theorem pieces_ofPieces (h : ∀ piece ∈ first :: rest, '/' ∉ piece.toList)
    (hroot : first :: rest ≠ [""]) : pieces (ofPieces (first :: rest)) = first :: rest := by
  have hall (first : String) (rest : List String)
      (h : ∀ piece ∈ first :: rest, '/' ∉ piece.toList) :
      pieces ("/".intercalate (first :: rest)) = first :: rest := by
    induction rest generalizing first with
    | nil =>
      rw [String.intercalate_singleton]
      exact pieces_of_no_slash (h first List.mem_cons_self)
    | cons next more ih =>
      rw [String.intercalate_cons_cons, pieces_append_slash,
        pieces_of_no_slash (h first List.mem_cons_self),
        ih next fun piece mem => h piece (List.mem_cons_of_mem _ mem), List.singleton_append]
  rw [ofPieces]
  · exact hall first rest h
  · exact hroot

/-- The place where a path starts. -/
def startOf (home : Place) (path : String) : Place := if isAbsolute path then [] else home

/-- A part of a path from its front has the pieces that it was made from, and starts where the path
does. The root alone is written with an empty piece more. -/
theorem of_ofPieces {before after : List String} (h : pieces path = first :: (before ++ after))
    (hempty : path ≠ "") (hroot : first :: before ≠ [""]) :
    pieces (ofPieces (first :: before)) = first :: before ∧
      isAbsolute (ofPieces (first :: before)) = isAbsolute path := by
  have hslash : ∀ piece ∈ first :: before, '/' ∉ piece.toList := by
    intro piece mem
    have hmem : piece ∈ pieces path := by
      rw [h, ← List.cons_append]
      exact List.mem_append_left after mem
    exact no_slash_of_mem hmem
  have hpieces := pieces_ofPieces hslash hroot
  have hsome : ofPieces (first :: before) ≠ "" := by
    intro hnil
    rw [hnil] at hpieces
    exact hroot hpieces.symm
  exact ⟨hpieces, Bool.eq_iff_iff.2
    ((isAbsolute_iff hsome hpieces).trans (isAbsolute_iff hempty h).symm)⟩

theorem ne_empty_of_pieces {before after : List String}
    (h : pieces path = first :: (before ++ after)) (hafter : after ≠ []) : path ≠ "" := by
  rintro rfl
  have hnil : [] = before ++ after := (List.cons.inj h).2
  exact hafter (List.append_eq_nil_iff.1 hnil.symm).2

/-- A part of a path from its front leads where its pieces do. -/
theorem placeOf_ofPieces {before after : List String} (home : Place)
    (h : pieces path = first :: (before ++ after)) (hafter : after ≠ []) :
    placeOf home (ofPieces (first :: before)) = follow (startOf home path) (first :: before) := by
  have hempty := ne_empty_of_pieces h hafter
  by_cases hroot : first :: before = [""]
  · obtain ⟨rfl, rfl⟩ := List.cons.inj hroot
    rw [startOf, (isAbsolute_iff hempty h).2 rfl]
    rfl
  · obtain ⟨hpieces, habsolute⟩ := of_ofPieces h hempty hroot
    rw [placeOf, hpieces, habsolute, startOf]

/-- The directories that a path lies in lead where the path does up to some piece. -/
theorem exists_of_mem_lineage {directory : String} (home : Place) (h : directory ∈ lineage path) :
    ∃ before after, pieces path = before ++ after ∧
      placeOf home directory = follow (startOf home path) before := by
  rw [lineage] at h
  split at h
  · cases h
  · cases h
  · rename_i first rest _ hpieces
    rcases List.mem_cons.1 h with rfl | hout
    · exact ⟨_, [], (List.append_nil _).symm, rfl⟩
    · obtain ⟨before, after, hrest, ⟨piece, mem, -⟩, rfl⟩ := mem_outer hout
      rw [List.reverse_reverse] at hrest
      rw [hrest] at hpieces
      exact ⟨first :: before, after, hpieces,
        placeOf_ofPieces home hpieces (List.ne_nil_of_mem mem)⟩

/-- The directories that the directory of a path lies in, and it too, lead where the path does up to
some piece before one that counts. -/
theorem exists_of_mem_lineage_parent {parent directory : String} (home : Place)
    (hparent : parent? path = some parent) (h : directory ∈ lineage parent) :
    ∃ before after, pieces path = before ++ after ∧ (∃ piece ∈ after, isIdle piece = false) ∧
      placeOf home directory = follow (startOf home path) before := by
  obtain ⟨first, rest, hpieces⟩ := exists_pieces path
  rw [parent?, hpieces] at hparent
  dsimp only at hparent
  cases hout : outer first rest.reverse with
  | nil =>
    rw [hout] at hparent
    dsimp only at hparent
    split at hparent
    · cases hparent
    · cases hparent
      cases h
  | cons inner others =>
    rw [hout] at hparent
    cases hparent
    obtain ⟨before, after, hrest, hcounts, rfl⟩ := mem_outer (hout ▸ List.mem_cons_self)
    obtain ⟨piece, mem, hpiece⟩ := hcounts
    have hafter := List.ne_nil_of_mem mem
    rw [List.reverse_reverse] at hrest
    rw [hrest] at hpieces
    by_cases hroot : first :: before = [""]
    · obtain ⟨rfl, rfl⟩ := List.cons.inj hroot
      refine ⟨[""], after, hpieces, ⟨piece, mem, hpiece⟩, ?_⟩
      obtain rfl : directory = "/" := List.mem_singleton.1 h
      exact placeOf_ofPieces home hpieces hafter
    · obtain ⟨reached, more, hreached, hplace⟩ := exists_of_mem_lineage home h
      obtain ⟨hinner, habsolute⟩ := of_ofPieces hpieces (ne_empty_of_pieces hpieces hafter) hroot
      refine ⟨reached, more ++ after, ?_, ⟨piece, List.mem_append_right more mem, hpiece⟩, ?_⟩
      · rw [hpieces, ← List.append_assoc, ← hreached, hinner, List.cons_append]
      · rw [hplace, startOf, startOf, habsolute]

end FilePath

end DocPath
