import Mathlib
import ProtoScript.Eval.Native.Macro
import ProtoScript.Proofs.Grammar.Independence

/-!
# How deep imports nest

Reading a file reads the files that it imports, and so on.  `Settles` says what comes out of this without
any bound on how deep files nest: it is an inductive relation, so each of its derivations is a finite
tree of readings.  There is at most one outcome.

That there is one, and that the bound of the reader is never reached, follows from how often a path can
be new.  All paths but that of the root are written in some text, or given as imports ahead of it.
Whenever a file is read inside another one, its path has not been on the way before, so the number of
paths that are left gets smaller.  A text has no more paths than characters, so the size of all texts
together is bound enough.
-/

namespace ProtoScript

/-- The texts of the files that can be read are finitely many, and have no more characters together than
the library says. -/
def Library.Bounded (library : Library) : Prop :=
  ∃ texts : List String, (∀ path text, library.read path = .ok text → text ∈ texts) ∧
    (texts.map String.length).sum ≤ library.size

/-! ## How many paths there are -/

/-- There are no more segments than characters. -/
theorem Scan.length_segments_le (cs : List Char) : (segments cs).length ≤ cs.length := by
  fun_induction segments cs with
  | case1 => exact Nat.le_refl _
  | case2 c cs first ih =>
    have hrest : first.rest.length ≤ cs.length := length_cut_rest c cs
    simp only [List.length_cons]
    omega

/-- There are no more tokens than segments. -/
theorem Scan.length_place_le (p : Position) (ss : List Segment) :
    (place p ss).length ≤ ss.length := by
  induction ss generalizing p with
  | nil => exact Nat.le_refl _
  | cons s ss ih =>
    have hmore := ih (p.after s.chars)
    unfold place
    split
    · rw [List.length_cons, List.length_cons]
      omega
    · rw [List.length_cons]
      omega

/-- A text has no more tokens than characters. -/
theorem length_scan_le (source : String) : (scan source).length ≤ source.length :=
  Nat.le_trans (Scan.length_place_le _ _) (Scan.length_segments_le _)

/-- There are no more paths than tokens. -/
theorem length_importedPaths_le (ts : List Lexeme) : (importedPaths ts).length ≤ ts.length := by
  induction ts with
  | nil => exact Nat.le_refl _
  | cons t ts ih =>
    cases ts with
    | nil => exact Nat.zero_le _
    | cons u ts =>
      rw [importedPaths_cons_cons, List.length_append, List.length_cons]
      have hone : (pathOf? t.token u.token).toList.length ≤ 1 := by
        cases pathOf? t.token u.token <;> simp
      omega

/-- The paths that are written in texts. -/
def writtenPaths (texts : List String) : List String :=
  texts.flatMap fun text => importedPaths (scan text)

/-- There are no more paths in texts than characters. -/
theorem length_writtenPaths_le (texts : List String) :
    (writtenPaths texts).length ≤ (texts.map String.length).sum := by
  induction texts with
  | nil => exact Nat.le_refl _
  | cons text texts ih =>
    have htext := Nat.le_trans (length_importedPaths_le (scan text)) (length_scan_le text)
    unfold writtenPaths at *
    rw [List.flatMap_cons, List.length_append, List.map_cons, List.sum_cons]
    omega

namespace Grammar

/-- How many of the paths are not on the way yet. -/
def remaining (all paths : List String) : Nat :=
  (all.filter (· ∉ paths)).length

/-- There are no more paths left than there are paths. -/
theorem remaining_le (all paths : List String) : remaining all paths ≤ all.length :=
  List.length_filter_le _ _

/-- A path that comes on the way is not left any more. -/
theorem remaining_cons_lt {all paths : List String} {path : String} (hall : path ∈ all)
    (hnew : path ∉ paths) : remaining all (path :: paths) < remaining all paths := by
  unfold remaining
  have hfilter : all.filter (fun p => decide (p ∉ path :: paths)) =
      (all.filter fun p => decide (p ∉ paths)).filter fun p => decide (p ≠ path) := by
    rw [List.filter_filter]
    refine List.filter_congr fun p _ => ?_
    simp [not_or]
  rw [hfilter]
  refine List.length_filter_lt_length_iff_exists.mpr ⟨path, ?_, ?_⟩
  · exact List.mem_filter.mpr ⟨hall, by simpa using hnew⟩
  · simp

/-! ## Readings that come to an end -/

/-- Reading a source, and the files that it imports, comes to an end with this outcome.  The paths of
the files that are being read already are in `enclosing`. -/
inductive Settles (files : String → Except FileError String) :
    List String → List String → String → String → Inclusion → Prop where
  | file {enclosing imports : List String} {file source : String}
    (bring : String → Except Complaint Inclusion) (brought : String → Inclusion)
    (hcircular : ∀ path ∈ file :: enclosing, bring path = .error (.circularImport path))
    (hunreadable : ∀ path e, path ∉ file :: enclosing → files path = .error e →
      bring path = .error (.unreadable path e))
    (hbrought : ∀ path text, path ∈ imports ++ importedPaths (scan source) →
      path ∉ file :: enclosing → files path = .ok text → bring path = .ok (brought path))
    (hsettles : ∀ path text, path ∈ imports ++ importedPaths (scan source) →
      path ∉ file :: enclosing → files path = .ok text →
      Settles files (file :: enclosing) [] path text (brought path)) :
    Settles files enclosing imports file source
      (readTokens ⟨file, lastPosition (scan source), bring⟩ imports (scan source))

/-- There is at most one outcome. -/
theorem Settles.unique {files : String → Except FileError String} {enclosing imports : List String}
    {file source : String} {i j : Inclusion} (hi : Settles files enclosing imports file source i)
    (hj : Settles files enclosing imports file source j) : i = j := by
  induction hi generalizing j with
  | @file enclosing imports file source bring brought hcircular hunreadable hbrought hsettles ih =>
    cases hj with
    | file bring' brought' hcircular' hunreadable' hbrought' hsettles' =>
      refine readTokens_eq rfl rfl fun path hpath => ?_
      by_cases hon : path ∈ file :: enclosing
      · exact (hcircular path hon).trans (hcircular' path hon).symm
      · cases hfile : files path with
        | error e =>
          exact (hunreadable path e hon hfile).trans (hunreadable' path e hon hfile).symm
        | ok text =>
          have hsame := ih path text hpath hon hfile (hsettles' path text hpath hon hfile)
          have hleft := hbrought path text hpath hon hfile
          rw [hsame] at hleft
          exact hleft.trans (hbrought' path text hpath hon hfile).symm

/-! ## The bound is never reached -/

section Bound

variable {files : String → Except FileError String} {all : List String}

/-- A path that is on the way already is refused. -/
theorem bringAt_of_mem {depth : Nat} {paths : List String} {path : String} (h : path ∈ paths) :
    bringAt files depth paths path = .error (.circularImport path) :=
  if_pos h

/-- A file that cannot be read brings in nothing. -/
theorem bringAt_of_error {depth : Nat} {paths : List String} {path : String} {e : FileError}
    (h : path ∉ paths) (hfile : files path = .error e) :
    bringAt files depth paths path = .error (.unreadable path e) := by
  unfold bringAt
  rw [if_neg h, hfile]

/-- Any other path brings in what is read from its file. -/
theorem bringAt_of_ok {depth : Nat} {paths : List String} {path text : String} (h : path ∉ paths)
    (hfile : files path = .ok text) :
    bringAt files (depth + 1) paths path = .ok (readSource files depth paths [] path text) := by
  unfold bringAt
  rw [if_neg h, hfile]

/-- What an import brings in is read from its file, and its path is new. -/
theorem exists_of_bringAt {depth : Nat} {paths : List String} {path : String} {i : Inclusion}
    (h : bringAt files depth paths path = .ok i) :
    path ∉ paths ∧ ∃ depth' text, depth = depth' + 1 ∧
      i = readSource files depth' paths [] path text := by
  by_cases hon : path ∈ paths
  · rw [bringAt_of_mem hon] at h
    cases h
  · refine ⟨hon, ?_⟩
    cases hfile : files path with
    | error e =>
      rw [bringAt_of_error hon hfile] at h
      cases h
    | ok text =>
      cases depth with
      | zero =>
        unfold bringAt at h
        rw [if_neg hon, hfile] at h
        cases h
      | succ depth =>
        rw [bringAt_of_ok hon hfile] at h
        cases h
        exact ⟨depth, text, rfl, rfl⟩

/-- What is read from the file with a path, if there is one. -/
def readFile (files : String → Except FileError String) (depth : Nat) (paths : List String)
    (path : String) : Inclusion :=
  match files path with
  | .ok text => readSource files depth paths [] path text
  | .error _ => ⟨[], []⟩

theorem readFile_of_ok {depth : Nat} {paths : List String} {path text : String}
    (hfile : files path = .ok text) :
    readFile files depth paths path = readSource files depth paths [] path text := by
  unfold readFile
  rw [hfile]

/-- If imports may nest as deep as there are paths left, then a source that names only such paths is read
to the end. -/
theorem readSource_settles
    (hall : ∀ path text, files path = .ok text → importedPaths (scan text) ⊆ all) {depth : Nat}
    {enclosing imports : List String} {file source : String}
    (hnamed : imports ++ importedPaths (scan source) ⊆ all)
    (hdepth : remaining all (file :: enclosing) ≤ depth) :
    Settles files enclosing imports file source
      (readSource files depth enclosing imports file source) := by
  induction depth generalizing enclosing imports file source with
  | zero =>
    -- no path is left, so every import is refused
    have hnone : ∀ path, path ∈ imports ++ importedPaths (scan source) → path ∈ file :: enclosing := by
      intro path hpath
      by_contra hnew
      have hlt := remaining_cons_lt (hnamed hpath) hnew
      omega
    rw [readSource_eq]
    exact .file _ (fun _ => ⟨[], []⟩) (fun _ => bringAt_of_mem) (fun _ _ => bringAt_of_error)
      (fun path _ hpath hnew _ => absurd (hnone path hpath) hnew)
      fun path _ hpath hnew _ => absurd (hnone path hpath) hnew
  | succ depth ih =>
    rw [readSource_eq]
    refine .file _ (readFile files depth (file :: enclosing)) (fun _ => bringAt_of_mem)
      (fun _ _ => bringAt_of_error) ?_ ?_
    · intro path text hpath hnew hfile
      rw [bringAt_of_ok hnew hfile, readFile_of_ok hfile]
    · intro path text hpath hnew hfile
      have hlt := remaining_cons_lt (hnamed hpath) hnew
      rw [readFile_of_ok hfile]
      refine ih ?_ (by omega)
      rw [List.nil_append]
      exact hall path text hfile

end Bound

/-- The paths that can come on the way when a program is read: those that are imported ahead of it, and
those that are written in it or in a file. -/
def allPaths (texts imports : List String) (source : String) : List String :=
  imports ++ importedPaths (scan source) ++ writtenPaths texts

/-- If imports may nest as deep as all texts together are long, a program is read to the end. -/
theorem readSource_settles_of_bounded {library : Library} (hlibrary : library.Bounded) (file : String)
    {imports : List String} {source : String} {depth : Nat}
    (hdepth : library.size + source.length + imports.length ≤ depth) :
    Settles library.read [] imports file source
      (readSource library.read depth [] imports file source) := by
  obtain ⟨texts, htexts, hsize⟩ := hlibrary
  have hall : ∀ path text, library.read path = .ok text →
      importedPaths (scan text) ⊆ allPaths texts imports source := by
    intro path text hfile p hp
    exact List.mem_append_right _ (List.mem_flatMap.mpr ⟨text, htexts path text hfile, hp⟩)
  refine readSource_settles hall (List.subset_append_left _ _) ?_
  have hpaths := length_importedPaths_le (scan source)
  have hsource := length_scan_le source
  have hwritten := length_writtenPaths_le texts
  have hle := remaining_le (allPaths texts imports source) [file]
  unfold allPaths at hle ⊢
  rw [List.length_append, List.length_append] at hle
  omega

/-- A program is read to the end. -/
theorem readProgram_settles {library : Library} (hlibrary : library.Bounded) (file : String)
    (imports : List String) (source : String) :
    Settles library.read [] imports file source (readProgram library file imports source) :=
  readSource_settles_of_bounded hlibrary file (Nat.le_succ _)

/-- How deep imports may nest does not matter, as long as it is deep enough. -/
theorem readProgram_eq_readSource {library : Library} (hlibrary : library.Bounded) (file : String)
    (imports : List String) (source : String) {depth : Nat}
    (hdepth : library.size + source.length + imports.length ≤ depth) :
    readProgram library file imports source =
      readSource library.read depth [] imports file source :=
  (readProgram_settles hlibrary file imports source).unique
    (readSource_settles_of_bounded hlibrary file hdepth)

end Grammar

/-! ## Libraries -/

/-- Adding up the lengths of the texts among some things. -/
theorem foldl_add_length {α : Type} (f : α → Option String) (xs : List α) (n : Nat) :
    xs.foldl (fun total x => match f x with
      | some text => total + text.length
      | none => total) n = n + ((xs.filterMap f).map String.length).sum := by
  induction xs generalizing n with
  | nil => rfl
  | cons x xs ih =>
    rw [List.foldl_cons, ih]
    cases hx : f x with
    | none => rw [List.filterMap_cons_none hx]
    | some text =>
      rw [List.filterMap_cons_some hx, List.map_cons, List.sum_cons]
      exact Nat.add_assoc _ _ _

/-- The text of a file, if it is one. -/
def FileNode.text? : FileNode → Option String
  | .text contents => some contents
  | _ => none

/-- The texts of the files of a tree. -/
def FileTree.texts (t : FileTree) : List String :=
  t.nodes.filterMap fun entry => entry.2.text?

/-- The size of a tree is that of all its texts. -/
theorem FileTree.size_eq (t : FileTree) : t.size = (t.texts.map String.length).sum := by
  unfold FileTree.texts
  rw [← Nat.zero_add (List.sum _), ← foldl_add_length]
  unfold FileTree.size
  congr 1
  funext total entry
  obtain ⟨place, node⟩ := entry
  cases node <;> rfl

/-- What is read from a file is one of the texts, or nothing. -/
theorem FileTree.mem_texts_of_read {t : FileTree} {path text : String}
    (hread : t.read path = .ok text) : text ∈ "" :: t.texts := by
  unfold FileTree.read at hread
  cases hplace : t.locate path with
  | error e =>
    rw [hplace] at hread
    cases hread
  | ok p =>
    rw [hplace] at hread
    cases hnode : t.node? p with
    | none =>
      simp only [Except.bind, bind, hnode] at hread
      cases hread
    | some node =>
      simp only [Except.bind, bind, hnode] at hread
      cases node with
      | directory | binary => cases hread
      | sink =>
        cases hread
        exact List.mem_cons_self
      | text contents =>
        cases hread
        refine List.mem_cons_of_mem _ (List.mem_filterMap.mpr ?_)
        unfold FileTree.node? at hnode
        split at hnode
        · cases hnode
        · obtain ⟨entry, hentry, heq⟩ := Option.map_eq_some_iff.mp hnode
          exact ⟨entry, List.mem_of_find?_eq_some hentry, by rw [heq]; rfl⟩

/-- The files of a tree are finitely many. -/
theorem FileTree.library_bounded (t : FileTree) : t.library.Bounded := by
  refine ⟨"" :: t.texts, fun path text hread => FileTree.mem_texts_of_read hread, ?_⟩
  rw [List.map_cons, List.sum_cons, ← t.size_eq]
  exact Nat.le_of_eq (Nat.zero_add _)

namespace Eval

/-- The files that a program may import are finitely many. -/
theorem library_bounded {fuel : Nat} {paths : List String} {m m' : Machine} {files : Library}
    (h : library fuel paths m = .ok files m') : files.Bounded := by
  obtain ⟨heap, scopes, current, operands, raised, file, loads, ⟨world, outcomes⟩, events⟩ := m
  cases world with
  | simulated s =>
    cases h
    exact s.files.library_bounded
  | replayed answers =>
    change EStateM.bind (gather fuel paths []) _ _ = _ at h
    unfold EStateM.bind at h
    cases hknown : gather fuel paths []
        ⟨heap, scopes, current, operands, raised, file, loads, ⟨.replayed answers, outcomes⟩,
          events⟩ with
    | error e m₁ =>
      rw [hknown] at h
      cases h
    | ok known m₁ =>
      rw [hknown] at h
      cases h
      -- the answers of the host that are texts
      refine ⟨known.filterMap fun entry => entry.2.toOption, ?_, ?_⟩
      · intro path text hread
        change ((known.find? fun entry => entry.1 == path).map (·.2)).getD (.error .notFound) =
          .ok text at hread
        cases hfound : known.find? fun entry => entry.1 == path with
        | none =>
          rw [hfound] at hread
          cases hread
        | some entry =>
          rw [hfound] at hread
          have hresult : entry.2 = .ok text := hread
          refine List.mem_filterMap.mpr ⟨entry, List.mem_of_find?_eq_some hfound, ?_⟩
          rw [hresult]
          rfl
      · refine Nat.le_of_eq ?_
        rw [← Nat.zero_add (List.sum _), ← foldl_add_length]
        change _ = known.foldl _ 0
        congr 1
        funext total entry
        obtain ⟨path, result⟩ := entry
        cases result <;> rfl

end Eval

end ProtoScript
