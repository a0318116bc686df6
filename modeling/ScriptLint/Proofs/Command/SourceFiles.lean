import ScriptLint.Command.Run
import ScriptLint.Proofs.Source.Path
import Mathlib.Data.List.Sort
import Mathlib.Data.Set.List

namespace ScriptLint
namespace Command

open Path (Step)

/-- Where a step leads from a place. -/
def move (place : Place) : Step → Place
  | .root => []
  | .here => place
  | .up => place.dropLast
  | .name name => place ++ [name]

theorem foldl_move_names (place : Place) (names : List String) :
    (names.map Step.name).foldl move place = place ++ names := by
  induction names generalizing place with
  | nil => exact (List.append_nil place).symm
  | cons name names ih =>
    rw [List.map_cons, List.foldl_cons, ih, move, List.append_assoc, List.singleton_append]

namespace FileTree

variable {t : FileTree} {directory place place' : Place} {path name : String}
  {front rest : List (List Char)}

theorem isDirectory_nil (t : FileTree) : t.isDirectory [] = true := rfl

theorem walk?_cons (t : FileTree) (place : Place) (piece : List Char) (rest : List (List Char)) :
    t.walk? place (piece :: rest) = if t.isDirectory place then
      t.walk? ((Path.later [piece]).foldl move place) rest else none := by
  conv_lhs => unfold walk?
  split
  · split
    · rfl
    · rfl
    · rfl
    · next hnil hhere hup =>
      have hstep : Step.ofPiece piece = .name (String.ofList piece) := by
        unfold Step.ofPiece
        split <;> first | contradiction | rfl
      rw [Path.later_cons_of_ne hnil hhere, hstep]
      rfl
  · rfl

theorem walk?_append (t : FileTree) (place : Place) (front rest : List (List Char)) :
    t.walk? place (front ++ rest) = (t.walk? place front).bind (t.walk? · rest) := by
  induction front generalizing place with
  | nil => rfl
  | cons piece front ih =>
    rw [List.cons_append, walk?_cons, walk?_cons]
    split
    · exact ih _
    · rfl

theorem eq_of_walk? {pieces : List (List Char)} (h : t.walk? place pieces = some place') :
    place' = (Path.later pieces).foldl move place := by
  induction pieces generalizing place with
  | nil => exact (Option.some.inj h).symm
  | cons piece pieces ih =>
    rw [walk?_cons] at h
    split at h
    · rw [ih h, ← List.foldl_append, ← Path.later_append, List.singleton_append]
    · cases h

/-- Where a path with some pieces begins, seen from a directory. -/
def origin (directory : Place) : List (List Char) → Place
  | [] :: _ => []
  | _ => directory

theorem origin_append (h : front ≠ []) :
    origin directory (front ++ rest) = origin directory front := by
  obtain ⟨piece, front, rfl⟩ := List.exists_cons_of_ne_nil h
  cases piece <;> rfl

theorem resolve?_eq_walk? (hne : path ≠ "") :
    t.resolve? directory path =
      t.walk? (origin directory (pieces '/' path.toList)) (pieces '/' path.toList) := by
  have hpieces : pieces '/' path.toList ≠ [[]] := by
    rw [Ne, pieces_eq_singleton_nil_iff, String.toList_eq_nil_iff]
    exact hne
  unfold resolve?
  split
  · next heq => exact absurd heq hpieces
  · next heq =>
    rw [heq, origin, walk?_cons, if_pos t.isDirectory_nil]
    rfl
  · next hroot =>
    have horigin : origin directory (pieces '/' path.toList) = directory := by
      unfold origin
      split
      · next rest heq => exact absurd heq (hroot rest)
      · rfl
    rw [horigin]

theorem ne_empty_of_resolve? (h : t.resolve? directory path = some place) : path ≠ "" := by
  rintro rfl
  cases h

theorem move_first (directory : Place) (piece : List Char) (rest : List (List Char)) :
    move directory (Path.first piece) =
      (Path.later [piece]).foldl move (origin directory (piece :: rest)) := by
  cases hpiece : piece with
  | nil => rfl
  | cons c text =>
    by_cases hhere : c :: text = ['.']
    · rw [hhere]
      rfl
    · have hfirst : Path.first (c :: text) = .ofPiece (c :: text) := by
        unfold Path.first
        split <;> first | contradiction | rfl
      rw [hfirst, Path.later_cons_of_ne (List.cons_ne_nil c text) hhere]
      rfl

/-- A path that leads anywhere leads where its steps lead. -/
theorem eq_of_resolve? (h : t.resolve? directory path = some place) :
    place = (Path.steps path).foldl move directory := by
  have hne := ne_empty_of_resolve? h
  rw [resolve?_eq_walk? hne] at h
  rw [eq_of_walk? h, Path.steps_eq_inFront hne]
  obtain ⟨piece, rest, heq⟩ := List.exists_cons_of_ne_nil (pieces_ne_nil '/' path.toList)
  rw [heq, Path.inFront, List.foldl_cons, move_first directory piece rest, ← List.foldl_append,
    ← Path.later_append, List.singleton_append]

/-- The path of an entry leads out of the place of its directory. -/
theorem resolve?_join (h : t.resolve? directory path = some place) (hname : Path.IsName name)
    (hplace : t.isDirectory place = true) :
    t.resolve? directory (Path.join path name) = some (place ++ [name]) := by
  have hne := ne_empty_of_resolve? h
  rw [resolve?_eq_walk? hne] at h
  obtain ⟨front, hfront, hjoin, hpieces⟩ := Path.exists_pieces_join path hname
  have hwalk : t.walk? (origin directory front) front = some place := by
    rcases hpieces with heq | heq
    · rwa [heq] at h
    · rw [heq, origin_append hfront, walk?_append, Option.bind_eq_some_iff] at h
      obtain ⟨place', hfront, hend⟩ := h
      rw [walk?_cons] at hend
      split at hend
      · rwa [← Option.some.inj hend]
      · cases hend
  rw [resolve?_eq_walk? (Path.join_ne_empty hname), hjoin, origin_append hfront, walk?_append,
    hwalk, Option.bind_some, walk?_cons, if_pos hplace, Path.later_name hname]
  rfl

/-- Every name in the tree is one that a file or directory can have. -/
def Named (t : FileTree) : Prop := ∀ file ∈ t.files, ∀ name ∈ file.1, Path.IsName name

instance (t : FileTree) : Decidable t.Named :=
  inferInstanceAs (Decidable (∀ file ∈ t.files, ∀ name ∈ file.1, Path.IsName name))

theorem isDirectory_of_append {names : List String} {text : Option (List Char)}
    (hfile : (place ++ names, text) ∈ t.files) (hnames : names ≠ []) :
    t.isDirectory place = true := by
  unfold isDirectory
  refine Bool.or_eq_true_iff.mpr (.inr (List.any_eq_true.mpr ⟨_, hfile, ?_⟩))
  simpa using hnames

/-- The path of a file below a directory leads to the file. -/
theorem resolve?_foldl_join {names : List String} {text : Option (List Char)}
    (h : t.resolve? directory path = some place) (hfile : (place ++ names, text) ∈ t.files)
    (hnames : ∀ name ∈ names, Path.IsName name) :
    t.resolve? directory (names.foldl Path.join path) = some (place ++ names) ∧
      Path.steps (names.foldl Path.join path) = Path.steps path ++ names.map Step.name := by
  induction names generalizing path place with
  | nil =>
    rw [List.append_nil, List.map_nil, List.append_nil]
    exact ⟨h, rfl⟩
  | cons name names ih =>
    have hname := hnames name List.mem_cons_self
    have hjoin := resolve?_join h hname (isDirectory_of_append hfile (List.cons_ne_nil name names))
    rw [← List.singleton_append, ← List.append_assoc] at hfile ⊢
    obtain ⟨hresolve, hsteps⟩ := ih hjoin hfile fun n hn => hnames n (List.mem_cons_of_mem _ hn)
    refine ⟨hresolve, ?_⟩
    rw [List.singleton_append, List.foldl_cons, hsteps,
      Path.steps_join (ne_empty_of_resolve? h) hname, List.map_cons, List.append_assoc,
      List.singleton_append]

theorem exists_file_of_mem_below {names : List String} (h : names ∈ t.below place) :
    ∃ text, (place ++ names, text) ∈ t.files := by
  rw [below, List.mem_filterMap] at h
  obtain ⟨⟨file, text⟩, hmem, hnames⟩ := h
  obtain ⟨hnext, -⟩ := Option.filter_eq_some_iff.mp hnames
  rw [List.isPrefixOf?_eq_some_iff_append_eq] at hnext
  exact ⟨text, hnext ▸ hmem⟩

/-- A path stands for a file that is spelled so, and perhaps for others. -/
def StandsFor (t : FileTree) (directory : Place) (path file : String) : Prop :=
  ∃ found, t.sourceFiles? directory path = some found ∧ file ∈ found

/-- What a path stands for is spelled as the path and some names, and these lead on from where the
path leads. -/
theorem StandsFor.exists_names (ht : t.Named) {file : String}
    (h : t.StandsFor directory path file) :
    ∃ place names, t.resolve? directory path = some place ∧
      t.resolve? directory file = some (place ++ names) ∧
      Path.steps file = Path.steps path ++ names.map Step.name := by
  obtain ⟨found, h, hfile⟩ := h
  unfold sourceFiles? at h
  simp only [Option.bind_eq_bind, Option.bind_eq_some_iff] at h
  obtain ⟨place, hplace, h⟩ := h
  refine ⟨place, ?_⟩
  split at h
  · -- The path of a file stands for itself.
    have heq : file = path := by
      cases h
      split at hfile <;> simp_all
    refine ⟨[], hplace, ?_, ?_⟩
    · rw [heq, hplace, List.append_nil]
    · rw [heq, List.map_nil, List.append_nil]
  · split at h
    · cases h
      obtain ⟨hmem, -⟩ := List.mem_filter.mp hfile
      obtain ⟨names, hbelow, rfl⟩ := List.mem_map.mp hmem
      obtain ⟨text, htext⟩ := exists_file_of_mem_below hbelow
      have hnames : ∀ name ∈ names, Path.IsName name := fun name hname =>
        ht _ htext name (List.mem_append_right place hname)
      exact ⟨names, hplace, resolve?_foldl_join hplace htext hnames⟩
    · cases h

end FileTree

theorem steps_mem_dropRepeated_iff (paths : List String) (steps : List Step) :
    steps ∈ (dropRepeated paths).map Path.steps ↔ steps ∈ paths.map Path.steps := by
  induction paths with
  | nil => rfl
  | cons path paths ih =>
    rw [dropRepeated]
    split
    · next heq =>
      rw [heq] at ih
      rw [List.map_cons, List.map_cons, List.mem_cons, List.mem_cons, ih]
    · next next others heq =>
      rw [heq] at ih
      rw [List.map_cons (l := paths), List.mem_cons, ← ih]
      split
      · next hsame =>
        rw [List.map_cons, List.map_cons, List.mem_cons, List.mem_cons, hsame, or_self_left]
      · rw [List.map_cons, List.mem_cons]

theorem dropRepeated_sublist (paths : List String) : (dropRepeated paths).Sublist paths := by
  induction paths with
  | nil => exact .slnil
  | cons path paths ih =>
    rw [dropRepeated]
    split
    · exact (List.nil_sublist paths).cons_cons path
    · next next others heq =>
      rw [heq] at ih
      split
      · exact ((List.sublist_cons_self next others).trans ih).cons_cons path
      · exact ih.cons_cons path

/-- Sorted paths stand before one another without the repetitions. -/
theorem pairwise_dropRepeated {paths : List String}
    (h : paths.Pairwise fun a b => Path.le (Path.steps a) (Path.steps b) = true) :
    (dropRepeated paths).Pairwise fun a b => Path.Before (Path.steps a) (Path.steps b) := by
  induction paths with
  | nil => exact .nil
  | cons path paths ih =>
    obtain ⟨hpath, h⟩ := List.pairwise_cons.mp h
    have hrest := ih h
    have hsub := dropRepeated_sublist paths
    rw [dropRepeated]
    split
    · exact List.pairwise_singleton _ _
    · next next others heq =>
      rw [heq] at hrest hsub
      obtain ⟨hnext, hothers⟩ := List.pairwise_cons.mp hrest
      split
      · next hsame =>
        refine List.pairwise_cons.mpr ⟨fun other hother => ?_, hothers⟩
        rw [hsame]
        exact hnext other hother
      · next hne =>
        refine List.pairwise_cons.mpr ⟨fun other hother => ?_, hrest⟩
        refine ⟨hpath other (hsub.subset hother), ?_⟩
        rcases List.mem_cons.mp hother with rfl | hother
        · exact hne
        · -- The next path stands between, and is not the same as either.
          intro hsame
          have hafter := hpath next (hsub.subset List.mem_cons_self)
          rw [hsame] at hafter
          exact (hnext other hother).2 (Path.le_antisymm (hnext other hother).1 hafter)

variable {t : FileTree} {directory place : Place} {paths paths' files files' : List String}
  {path path' file file' : String}

theorem bind_eq_ok_iff {ε α β : Type} {x : Except ε α} {f : α → Except ε β} {b : β} :
    (x >>= f) = .ok b ↔ ∃ a, x = .ok a ∧ f a = .ok b := by
  cases x <;> simp [bind, Except.bind]

/-- All items have an answer, if the answers of all items are the ones that are found. -/
theorem mapM_eq_ok_iff {ε α β : Type} {f : α → Option β} {g : α → Except ε β}
    (hg : ∀ a b, g a = .ok b ↔ f a = some b) (as : List α) (bs : List β) :
    as.mapM g = .ok bs ↔ as.map f = bs.map some := by
  induction as generalizing bs with
  | nil =>
    rw [List.mapM_nil, List.map_nil, eq_comm (a := []), List.map_eq_nil_iff]
    simp only [pure, Except.pure, Except.ok.injEq]
    exact eq_comm
  | cons a as ih =>
    rw [List.mapM_cons, List.map_cons, bind_eq_ok_iff]
    simp only [hg, bind_eq_ok_iff, ih, pure, Except.pure, Except.ok.injEq]
    cases bs with
    | nil => simp
    | cons b bs => simp [and_comm]

theorem collectSourceFiles_eq_ok_iff :
    collectSourceFiles t directory paths = .ok files ↔
      ∃ found : List (List String), paths.map (t.sourceFiles? directory) = found.map some ∧
        dropRepeated (found.flatten.mergeSort fun a b =>
          Path.le (Path.steps a) (Path.steps b)) = files := by
  unfold collectSourceFiles
  rw [bind_eq_ok_iff]
  refine exists_congr fun found => and_congr (mapM_eq_ok_iff (fun path files => ?_) paths found) ?_
  · cases t.sourceFiles? directory path <;> simp
  · simp only [pure, Except.pure, Except.ok.injEq]

/-- Each file of the list is one that an argument stands for. -/
theorem exists_standsFor_of_mem (h : collectSourceFiles t directory paths = .ok files)
    (hfile : file ∈ files) : ∃ path ∈ paths, t.StandsFor directory path file := by
  obtain ⟨found, hfound, rfl⟩ := collectSourceFiles_eq_ok_iff.mp h
  have hmem := List.mem_mergeSort.mp ((dropRepeated_sublist _).subset hfile)
  obtain ⟨group, hgroup, hfile⟩ := List.mem_flatten.mp hmem
  have hsome : some group ∈ paths.map (t.sourceFiles? directory) :=
    hfound ▸ List.mem_map_of_mem hgroup
  obtain ⟨path, hpath, heq⟩ := List.mem_map.mp hsome
  exact ⟨path, hpath, group, heq, hfile⟩

/-- What an argument stands for is in the list, perhaps in another spelling. -/
theorem steps_mem_of_standsFor (h : collectSourceFiles t directory paths = .ok files)
    (hpath : path ∈ paths) (hfile : t.StandsFor directory path file) :
    Path.steps file ∈ files.map Path.steps := by
  obtain ⟨found, hfound, rfl⟩ := collectSourceFiles_eq_ok_iff.mp h
  obtain ⟨group, hgroup, hfile⟩ := hfile
  have hsome : some group ∈ found.map some :=
    hfound ▸ List.mem_map.mpr ⟨path, hpath, hgroup⟩
  obtain ⟨group', hmem, heq⟩ := List.mem_map.mp hsome
  obtain rfl := Option.some.inj heq
  rw [steps_mem_dropRepeated_iff]
  refine List.mem_map_of_mem (List.mem_mergeSort.mpr ?_)
  exact List.mem_flatten.mpr ⟨group', hmem, hfile⟩

/-- The list is sorted, and no two paths in it have the same steps. -/
theorem pairwise_before (h : collectSourceFiles t directory paths = .ok files) :
    (files.map Path.steps).Pairwise Path.Before := by
  obtain ⟨found, -, rfl⟩ := collectSourceFiles_eq_ok_iff.mp h
  rw [List.pairwise_map]
  refine pairwise_dropRepeated (List.pairwise_mergeSort ?_ ?_ _)
  · exact fun a b c hab hbc => Path.le_trans hab hbc
  · exact fun a b => Path.le_total _ _

theorem steps_subset (h : collectSourceFiles t directory paths = .ok files)
    (h' : collectSourceFiles t directory paths' = .ok files') (hpaths : paths ⊆ paths') :
    files.map Path.steps ⊆ files'.map Path.steps := by
  intro steps hsteps
  obtain ⟨file, hfile, rfl⟩ := List.mem_map.mp hsteps
  obtain ⟨path, hpath, hstands⟩ := exists_standsFor_of_mem h hfile
  exact steps_mem_of_standsFor h' (hpaths hpath) hstands

/-- There is a list for some of the arguments if there is one for all of them. -/
theorem exists_collectSourceFiles (h : collectSourceFiles t directory paths = .ok files)
    (hpaths : paths' ⊆ paths) : ∃ files', collectSourceFiles t directory paths' = .ok files' := by
  obtain ⟨found, hfound, -⟩ := collectSourceFiles_eq_ok_iff.mp h
  have hrange : paths'.map (t.sourceFiles? directory) ∈ Set.range (List.map some) := by
    rw [Set.range_list_map]
    intro group? hgroup
    have hsome : group? ∈ found.map some := hfound ▸ List.map_subset _ hpaths hgroup
    obtain ⟨group, -, heq⟩ := List.mem_map.mp hsome
    exact ⟨group, heq⟩
  obtain ⟨found', hfound'⟩ := hrange
  exact ⟨_, collectSourceFiles_eq_ok_iff.mpr ⟨found', hfound'.symm, rfl⟩⟩

/-- The list is the same, up to spelling, for arguments in another order and for arguments that are
repeated. -/
theorem steps_collectSourceFiles_congr (hpaths : ∀ path, path ∈ paths' ↔ path ∈ paths) :
    (collectSourceFiles t directory paths').toOption.map (·.map Path.steps) =
      (collectSourceFiles t directory paths).toOption.map (·.map Path.steps) := by
  have hleft : paths' ⊆ paths := fun path => (hpaths path).mp
  have hright : paths ⊆ paths' := fun path => (hpaths path).mpr
  cases h : collectSourceFiles t directory paths with
  | error e =>
    cases h' : collectSourceFiles t directory paths' with
    | error e' => rfl
    | ok files' =>
      obtain ⟨files, hfiles⟩ := exists_collectSourceFiles h' hright
      rw [h] at hfiles
      cases hfiles
  | ok files =>
    obtain ⟨files', h'⟩ := exists_collectSourceFiles h hleft
    rw [h']
    refine congrArg some (List.Pairwise.eq_of_mem_iff (pairwise_before h') (pairwise_before h) ?_)
    exact fun steps => ⟨(steps_subset h' h hleft ·), (steps_subset h h' hright ·)⟩

/-- A path stands for the source file at a place, and perhaps for others. -/
def FileTree.Finds (t : FileTree) (directory : Place) (path : String) (place : Place) : Prop :=
  ∃ file, t.StandsFor directory path file ∧ t.resolve? directory file = some place

/-- Wherever two arguments stand for the same source file, the one that leads further down is
spelled as the other one and the names between them. -/
def FileTree.Aligned (t : FileTree) (directory : Place) (paths : List String) : Prop :=
  ∀ outer ∈ paths, ∀ inner ∈ paths, ∀ (place names file : Place),
    t.resolve? directory outer = some place → t.resolve? directory inner = some (place ++ names) →
    t.Finds directory outer file → t.Finds directory inner file →
    Path.steps inner = Path.steps outer ++ names.map Step.name

/-- Arguments that begin alike and go on with names only are aligned. -/
theorem FileTree.aligned_of_front {front : List Step}
    (h : ∀ path ∈ paths, ∃ names : List String, Path.steps path = front ++ names.map Step.name) :
    t.Aligned directory paths := by
  intro outer houter inner hinner place names file hplace hbelow _ _
  obtain ⟨upper, hupper⟩ := h outer houter
  obtain ⟨lower, hlower⟩ := h inner hinner
  have houterPlace := FileTree.eq_of_resolve? hplace
  have hinnerPlace := FileTree.eq_of_resolve? hbelow
  rw [hupper, List.foldl_append, foldl_move_names] at houterPlace
  rw [hlower, List.foldl_append, foldl_move_names, houterPlace, List.append_assoc] at hinnerPlace
  rw [hlower, hupper, ← List.append_cancel_left hinnerPlace, List.map_append, List.append_assoc]

theorem exists_resolve?_of_mem (ht : t.Named)
    (h : collectSourceFiles t directory paths = .ok files) (hfile : file ∈ files) :
    ∃ place, t.resolve? directory file = some place := by
  obtain ⟨path, -, hstands⟩ := exists_standsFor_of_mem h hfile
  obtain ⟨place, names, -, hresolve, -⟩ := hstands.exists_names ht
  exact ⟨_, hresolve⟩

/-- A file that an argument stands for is listed in a spelling that goes on from the argument. -/
theorem exists_listed (ht : t.Named) (h : collectSourceFiles t directory paths = .ok files)
    (hpath : path ∈ paths) (hfinds : t.Finds directory path place) :
    ∃ upper names, t.resolve? directory path = some upper ∧ place = upper ++ names ∧
      ∃ file ∈ files, t.resolve? directory file = some place ∧
        Path.steps file = Path.steps path ++ names.map Step.name := by
  obtain ⟨file, hstands, hplace⟩ := hfinds
  obtain ⟨upper, names, hupper, hresolve, hsteps⟩ := hstands.exists_names ht
  obtain ⟨listed, hlisted, hsame⟩ := List.mem_map.mp (steps_mem_of_standsFor h hpath hstands)
  obtain ⟨place', hplace'⟩ := exists_resolve?_of_mem ht h hlisted
  -- The spelling that stayed in the list leads to the same place.
  obtain rfl : place' = place := by
    rw [FileTree.eq_of_resolve? hplace', hsame, ← FileTree.eq_of_resolve? hplace]
  exact ⟨upper, names, hupper, Option.some.inj (hplace.symm.trans hresolve), listed, hlisted,
    hplace', hsame.trans hsteps⟩

/-- The places of the list are those of the source files that the arguments stand for. -/
theorem mem_places_iff (ht : t.Named) (h : collectSourceFiles t directory paths = .ok files) :
    some place ∈ files.map (t.resolve? directory) ↔
      ∃ path ∈ paths, t.Finds directory path place := by
  constructor
  · intro hplace
    obtain ⟨file, hfile, hresolve⟩ := List.mem_map.mp hplace
    obtain ⟨path, hpath, hstands⟩ := exists_standsFor_of_mem h hfile
    exact ⟨path, hpath, file, hstands, hresolve⟩
  · rintro ⟨path, hpath, hfinds⟩
    obtain ⟨-, -, -, -, file, hfile, hresolve, -⟩ := exists_listed ht h hpath hfinds
    exact List.mem_map.mpr ⟨file, hfile, hresolve⟩

/-- Aligned arguments spell the files that they share in one way. -/
theorem FileTree.Aligned.steps_eq (haligned : t.Aligned directory paths) (ht : t.Named)
    (hpath : path ∈ paths) (hpath' : path' ∈ paths) (hfile : t.StandsFor directory path file)
    (hfile' : t.StandsFor directory path' file') (hplace : t.resolve? directory file = some place)
    (hplace' : t.resolve? directory file' = some place) : Path.steps file = Path.steps file' := by
  obtain ⟨upper, names, hupper, hresolve, hsteps⟩ := hfile.exists_names ht
  obtain ⟨lower, names', hlower, hresolve', hsteps'⟩ := hfile'.exists_names ht
  have hfinds : t.Finds directory path place := ⟨file, hfile, hplace⟩
  have hfinds' : t.Finds directory path' place := ⟨file', hfile', hplace'⟩
  obtain rfl := Option.some.inj (hplace.symm.trans hresolve)
  have hends := Option.some.inj (hplace'.symm.trans hresolve')
  -- Both lead to the same file, so one of them leads into the directory of the other.
  rcases List.append_eq_append_iff.mp hends with ⟨between, rfl, rfl⟩ | ⟨between, rfl, rfl⟩
  · have hspelled := haligned path hpath path' hpath' upper between _ hupper hlower hfinds hfinds'
    rw [hsteps, hsteps', hspelled, List.map_append, List.append_assoc]
  · have hspelled := haligned path' hpath' path hpath lower between _ hlower hupper hfinds' hfinds
    rw [hsteps, hsteps', hspelled, List.map_append, List.append_assoc]

/-- No file is listed twice exactly if the arguments are aligned. -/
theorem nodup_places_iff (ht : t.Named) (h : collectSourceFiles t directory paths = .ok files) :
    (files.map (t.resolve? directory)).Nodup ↔ t.Aligned directory paths := by
  have hsteps : (files.map Path.steps).Nodup := (pairwise_before h).imp fun hbefore => hbefore.2
  rw [List.nodup_map_iff_inj_on (.of_map _ hsteps)]
  constructor
  · intro hinj outer houter inner hinner place between target hplace hbelow hfinds hfinds'
    obtain ⟨upper, names, hupper, heq, file, hfile, htarget, hspelled⟩ :=
      exists_listed ht h houter hfinds
    obtain ⟨lower, names', hlower, heq', file', hfile', htarget', hspelled'⟩ :=
      exists_listed ht h hinner hfinds'
    obtain rfl := Option.some.inj (hplace.symm.trans hupper)
    obtain rfl := Option.some.inj (hbelow.symm.trans hlower)
    have hnames : names = between ++ names' := by
      rw [heq, List.append_assoc] at heq'
      exact List.append_cancel_left heq'
    have hsame : file = file' := hinj file hfile file' hfile' (htarget.trans htarget'.symm)
    rw [hsame, hspelled', hnames, List.map_append, ← List.append_assoc] at hspelled
    exact List.append_cancel_right hspelled
  · intro haligned file hfile file' hfile' heq
    obtain ⟨path, hpath, hstands⟩ := exists_standsFor_of_mem h hfile
    obtain ⟨path', hpath', hstands'⟩ := exists_standsFor_of_mem h hfile'
    obtain ⟨place, hplace⟩ := exists_resolve?_of_mem ht h hfile
    have hsame := haligned.steps_eq ht hpath hpath' hstands hstands' hplace (heq ▸ hplace)
    exact List.inj_on_of_nodup_map hsteps hfile hfile' hsame

namespace FileTree

/-- Another text in a file moves nothing. -/
theorem resolve?_write (t : FileTree) (written : Place) (text : List Char) (directory : Place)
    (path : String) :
    (t.write written text).resolve? directory path = t.resolve? directory path := by
  have hplace : ∀ place, (t.write written text).isDirectory place = t.isDirectory place := by
    intro place
    simp only [isDirectory, write, List.any_map]
    rfl
  have hwalk : ∀ place pieces,
      (t.write written text).walk? place pieces = t.walk? place pieces := by
    intro place pieces
    induction pieces generalizing place with
    | nil => rfl
    | cons piece pieces ih => rw [walk?_cons, walk?_cons, hplace, ih]
  unfold resolve?
  split
  · rfl
  · exact hwalk _ _
  · exact hwalk _ _

end FileTree

theorem resolve?_lintFile (settings : Settings) (fix : Bool) (totals : Totals)
    (file path : String) :
    (lintFile settings directory fix totals file).tree.resolve? directory path =
      totals.tree.resolve? directory path := by
  unfold lintFile
  split
  · rfl
  · split
    · rfl
    · split
      · unfold Totals.addFixed
        simp only [Totals.add]
        split
        · rfl
        · exact FileTree.resolve?_write _ _ _ _ _
      · rfl

/-- While files are linted, and rewritten, paths go on leading where they led. -/
theorem resolve?_foldl_lintFile (settings : Settings) (fix : Bool) (files : List String)
    (totals : Totals) (path : String) :
    (files.foldl (lintFile settings directory fix) totals).tree.resolve? directory path =
      totals.tree.resolve? directory path := by
  induction files generalizing totals with
  | nil => rfl
  | cons file files ih => rw [List.foldl_cons, ih, resolve?_lintFile]

/-- The source files that a run lints for some arguments. -/
structure Listing (t : FileTree) (directory : Place) (paths files : List String) : Prop where
  sorted : (files.map Path.steps).Pairwise Path.Before
  order : ∀ paths', (∀ path, path ∈ paths' ↔ path ∈ paths) →
    (collectSourceFiles t directory paths').toOption.map (·.map Path.steps) =
      some (files.map Path.steps)
  leads : ∀ file ∈ files, ∃ place, t.resolve? directory file = some place
  places : ∀ place, some place ∈ files.map (t.resolve? directory) ↔
    ∃ path ∈ paths, t.Finds directory path place
  once : (files.map (t.resolve? directory)).Nodup ↔ t.Aligned directory paths
  kept : ∀ settings fix (linted : List String) path,
    (linted.foldl (lintFile settings directory fix) { tree := t }).tree.resolve? directory path =
      t.resolve? directory path

/-- The source files of a run are sorted, do not depend on the order of the arguments nor on
repeated ones, and are those that the arguments stand for; each of them is linted once exactly if
the arguments are aligned. -/
theorem listing_of_collectSourceFiles (ht : t.Named)
    (h : collectSourceFiles t directory paths = .ok files) : Listing t directory paths files where
  sorted := pairwise_before h
  order paths' hpaths := by rw [steps_collectSourceFiles_congr hpaths, h]; rfl
  leads _ hfile := exists_resolve?_of_mem ht h hfile
  places _ := mem_places_iff ht h
  once := nodup_places_iff ht h
  kept settings fix linted path := resolve?_foldl_lintFile settings fix linted _ path

/-- A directory, one below it and a file in that one, all spelled from here. -/
theorem listing_of_collectSourceFiles_here :
    ∃ t : FileTree, t.Named ∧
      collectSourceFiles t [] [".", "./src", "./src//b.ts"] = .ok ["./a.ts", "./src/b.ts"] ∧
      Listing t [] [".", "./src", "./src//b.ts"] ["./a.ts", "./src/b.ts"] ∧
      (["./a.ts", "./src/b.ts"].map (t.resolve? [])).Nodup := by
  let t : FileTree := { files := [(["a.ts"], some []), (["src", "b.ts"], some [])] }
  have hnamed : t.Named := by decide +kernel
  have hlist : collectSourceFiles t [] [".", "./src", "./src//b.ts"] =
      .ok ["./a.ts", "./src/b.ts"] := by
    refine collectSourceFiles_eq_ok_iff.mpr
      ⟨[["./a.ts", "./src/b.ts"], ["./src/b.ts"], ["./src//b.ts"]], by decide +kernel, ?_⟩
    rw [List.mergeSort_of_pairwise (by decide +kernel)]
    decide +kernel
  have hlisting := listing_of_collectSourceFiles hnamed hlist
  have hsteps : ∀ path ∈ [".", "./src", "./src//b.ts"], ∃ names : List String,
      Path.steps path = [.here] ++ names.map Step.name := by
    intro path hpath
    simp only [List.mem_cons, List.not_mem_nil, or_false] at hpath
    rcases hpath with rfl | rfl | rfl
    · exact ⟨[], by decide +kernel⟩
    · exact ⟨["src"], by decide +kernel⟩
    · exact ⟨["src", "b.ts"], by decide +kernel⟩
  exact ⟨t, hnamed, hlist, hlisting, hlisting.once.mpr (FileTree.aligned_of_front hsteps)⟩

/-- A directory and a file in it that is spelled without the dot: the file is listed twice. -/
theorem not_nodup_places : ¬ ∀ (t : FileTree) (directory : Place) (paths files : List String),
    t.Named → collectSourceFiles t directory paths = .ok files →
      (files.map (t.resolve? directory)).Nodup := by
  intro hall
  let t : FileTree := { files := [(["a.ts"], some [])] }
  have hnamed : t.Named := by decide +kernel
  have hlist : collectSourceFiles t [] [".", "a.ts"] = .ok ["./a.ts", "a.ts"] := by
    refine collectSourceFiles_eq_ok_iff.mpr ⟨[["./a.ts"], ["a.ts"]], by decide +kernel, ?_⟩
    rw [List.mergeSort_of_pairwise (by decide +kernel)]
    decide +kernel
  have hnodup := hall t [] _ _ hnamed hlist
  revert hnodup
  decide +kernel

end Command
end ScriptLint
