import BoundedZlib.Proofs.DeflatedFiles
import BoundedZlib.Proofs.VisitedPlaces
import Mathlib.Data.List.Nodup

/-!
# Deflating in any order

Files whose outputs are kept apart, from each other and from the way to any input, do not
notice each other.  Whatever has been written for others, each is read, reported and written
as if it were the only one, so the order of all operations makes no difference.
-/

namespace BoundedZlib
namespace Command

variable {directory? : Option Path} {capacity? : Option Nat}

/-!
## One file on its own
-/

def alone (directory? : Option Path) (capacity? : Option Nat) (ready : FileSystem) (file : Path) :
    Except Problem Deflated × FileSystem :=
  (compressing directory? capacity? file (ready.read file)).run ready

/-- A file that is deflated on its own has this stream, and it goes to this place. -/
structure Stores (directory? : Option Path) (capacity? : Option Nat) (ready : FileSystem)
    (file : Path) (place : Location) (stream : Bytes) : Prop where
  source : ∃ data, ready.read file = .ok data ∧
    deflateToCapacity data (capacity?.getD (compressBound data.length)) = .ok stream
  names : ready.Names (outputOf directory? file) place
  free : ready.get? place ≠ some .directory

section Alone

variable {tree ready : FileSystem} {file output : Path} {place : Location} {stream : Bytes}
  {plain : Nat}

theorem run_storing_ok {after : FileSystem} (hwrite : tree.write output stream = .ok after) :
    (storing output plain stream).run tree = (.ok ⟨output, plain, stream.length⟩, after) := by
  show (_, _) = _
  rw [Request.perform_write_ok hwrite]

theorem run_storing_error {error : SystemError} (hwrite : tree.write output stream = .error error) :
    (storing output plain stream).run tree = (.error (.storage error), tree) := by
  show (_, _) = _
  rw [Request.perform_write_error hwrite]

theorem compressing_cases (directory? : Option Path) (capacity? : Option Nat) (file : Path)
    (answer : Except SystemError Bytes) :
    (∃ problem, compressing directory? capacity? file answer = .done (.error problem)) ∨
      ∃ data stream, answer = .ok data ∧
        deflateToCapacity data (capacity?.getD (compressBound data.length)) = .ok stream ∧
        compressing directory? capacity? file answer =
          storing (outputOf directory? file) data.length stream := by
  cases answer with
  | error error => exact Or.inl ⟨_, rfl⟩
  | ok data =>
      rw [compressing]
      cases hdeflate : deflateToCapacity data (capacity?.getD (compressBound data.length)) with
      | error failure => exact Or.inl ⟨_, rfl⟩
      | ok stream => exact Or.inr ⟨data, stream, rfl, hdeflate, rfl⟩

theorem Stores.alone_eq (hstores : Stores directory? capacity? ready file place stream) :
    ∃ deflated, alone directory? capacity? ready file =
      (.ok deflated, ready.set place (.file stream)) := by
  rcases hstores.source with ⟨data, hread, hdeflate⟩
  have hwrite : ready.write (outputOf directory? file) stream =
      .ok (ready.set place (.file stream)) :=
    FileSystem.write_eq_ok.mpr ⟨place, hstores.names, hstores.free, rfl⟩
  refine ⟨⟨outputOf directory? file, data.length, stream.length⟩, ?_⟩
  rw [alone, hread, compressing, hdeflate]
  exact run_storing_ok hwrite

theorem alone_cases (directory? : Option Path) (capacity? : Option Nat) (ready : FileSystem)
    (file : Path) :
    (∃ problem, alone directory? capacity? ready file = (.error problem, ready)) ∨
      ∃ place stream, Stores directory? capacity? ready file place stream := by
  unfold alone
  rcases compressing_cases directory? capacity? file (ready.read file) with
    ⟨problem, hdone⟩ | ⟨data, stream, hread, hdeflate, hstoring⟩
  · rw [hdone]
    exact Or.inl ⟨problem, rfl⟩
  · rw [hstoring]
    cases hwrite : ready.write (outputOf directory? file) stream with
    | error error => exact Or.inl ⟨_, run_storing_error hwrite⟩
    | ok after =>
        rcases FileSystem.write_eq_ok.mp hwrite with ⟨place, hnames, hfree, _⟩
        exact Or.inr ⟨place, stream, ⟨data, hread, hdeflate⟩, hnames, hfree⟩

end Alone

/-!
## Files that are kept apart
-/

/--
Outputs of different files are at different places, none of them is where a file is read,
and no file and no output is reached through the place of an output that is still missing.
-/
structure Independent (ready : FileSystem) (directory? : Option Path) (files : List Path) :
    Prop where
  distinct : ∀ file ∈ files, ∀ other ∈ files, ∀ source origin place,
    ready.Names file source → ready.Names other origin →
      ready.Names (outputOf directory? file) place →
        ready.Names (outputOf directory? other) place →
          ready.get? place ≠ some .directory → source = origin
  apart : ∀ file ∈ files, ∀ other ∈ files, ∀ place,
    ready.Names (outputOf directory? other) place → ready.get? place ≠ some .directory →
      ¬ ready.Names file place
  ahead : ∀ file ∈ files, ∀ other ∈ files, ∀ place,
    ready.Names (outputOf directory? other) place → ready.get? place = none →
      place ∉ ready.visited file ∧ place ∉ ready.visited (outputOf directory? file)

section Apart

variable {ready : FileSystem} {files : List Path} {file other : Path} {place : Location}
  {stream written : Bytes}

section Unlinked

variable (hlinks : ready.links = [])
include hlinks

theorem outputOf_eq_of_names {directory : Path} {source origin : Location}
    (hsource : ready.Names file source) (horigin : ready.Names other origin)
    (hnames : ready.Names (outputOf (some directory) file) place)
    (hplace : ready.Names (outputOf (some directory) other) place) :
    outputOf (some directory) file = outputOf (some directory) other := by
  have hsuffix : '/' ∉ streamSuffix := by decide
  have hlast : (Path.split (outputOf (some directory) file).chars).getLast? =
      (Path.split (outputOf (some directory) other).chars).getLast? := by
    rw [← hnames.getLast?_eq fun hlink => hlink.links_ne_nil hlinks,
      ← hplace.getLast?_eq fun hlink => hlink.links_ne_nil hlinks]
  cases hsource with
  | intro hends _ _ _ _ _ =>
      cases horigin with
      | intro hends' _ _ _ _ _ =>
          rcases Path.exists_front_addSuffix hsuffix directory with ⟨front, hfront⟩
          rw [outputOf, outputOf, (hfront _ _ _ hends).split_eq, (hfront _ _ _ hends').split_eq,
            List.getLast?_concat, List.getLast?_concat, Option.some.injEq] at hlast
          rw [outputOf, outputOf, Path.addSuffix, Path.addSuffix, hends.fileName?,
            hends'.fileName?]
          exact congrArg directory.push hlast

/-- Without links, it is enough that no two outputs have the same path. -/
theorem independent_of_links_nil (hdistinct : (files.map (outputOf directory?)).Nodup)
    (hapart : ∀ file ∈ files, ∀ other ∈ files, ∀ place,
      ready.Names (outputOf directory? other) place → ready.get? place ≠ some .directory →
        ¬ ready.Names file place)
    (hahead : ∀ file ∈ files, ∀ other ∈ files, ∀ place,
      ready.Names (outputOf directory? other) place → ready.get? place = none →
        place ∉ ready.visited file ∧ place ∉ ready.visited (outputOf directory? file)) :
    Independent ready directory? files := by
  refine ⟨?_, hapart, hahead⟩
  intro file hfile other hother source origin place hsource horigin hnames hplace _
  cases directory? with
  | none =>
      rcases hsource.addSuffix_none (by decide) hnames with ⟨front, name, hleft, hput⟩
      rcases horigin.addSuffix_none (by decide) hplace with ⟨back, last, hright, hput'⟩
      rw [FileSystem.enter, hlinks] at hleft hput hright hput'
      have hsame := (Except.ok.inj hput).trans (Except.ok.inj hput').symm
      rcases List.append_inj' hsame rfl with ⟨hparts, hlast⟩
      rw [List.cons.injEq, List.append_cancel_right_eq] at hlast
      rw [← Except.ok.inj hleft, ← Except.ok.inj hright, hparts, hlast.left]
  | some directory =>
      have hsame := outputOf_eq_of_names hlinks hsource horigin hnames hplace
      have hpaths := List.inj_on_of_nodup_map hdistinct hfile hother hsame
      rw [hpaths] at hsource
      exact hsource.unique horigin

end Unlinked

theorem Independent.stream_eq (hindependent : Independent ready directory? files)
    (hfile : file ∈ files) (hother : other ∈ files)
    (hstores : Stores directory? capacity? ready file place stream)
    (hwritten : Stores directory? capacity? ready other place written) : stream = written := by
  rcases hstores.source with ⟨data, hread, hdeflate⟩
  rcases hwritten.source with ⟨content, hcontent, hdeflate'⟩
  rcases FileSystem.read_eq_ok.mp hread with ⟨source, hsource, hdata⟩
  rcases FileSystem.read_eq_ok.mp hcontent with ⟨origin, horigin, hfound⟩
  have hsame := hindependent.distinct file hfile other hother source origin place hsource horigin
    hstores.names hwritten.names hstores.free
  rw [hsame, hfound, Option.some.injEq, Node.file.injEq] at hdata
  rw [← hdata, hdeflate', Except.ok.injEq] at hdeflate
  exact hdeflate.symm

/-!
## Trees with outputs
-/

/-- Each place is as it was at first, or holds the stream of a file that is stored there. -/
structure Overlaid (directory? : Option Path) (capacity? : Option Nat) (files : List Path)
    (ready tree : FileSystem) : Prop where
  links : tree.links = ready.links
  places : ∀ place, tree.get? place = ready.get? place ∨
    ∃ file ∈ files, ∃ stream, Stores directory? capacity? ready file place stream ∧
      tree.get? place = some (.file stream)

variable {tree : FileSystem}

theorem Overlaid.sameDirectories (hoverlaid : Overlaid directory? capacity? files ready tree) :
    ready.SameDirectories tree := by
  intro place
  rcases hoverlaid.places place with hsame | ⟨file, _, stream, hstores, hplace⟩
  · rw [hsame]
  · rw [hplace]
    exact ⟨nofun, fun hdirectory => absurd hdirectory hstores.free⟩

theorem Overlaid.grows (hoverlaid : Overlaid directory? capacity? files ready tree) :
    ready.Grows tree where
  links := hoverlaid.links
  directory place h := (hoverlaid.sameDirectories place).mpr h
  present place h := by
    rcases hoverlaid.places place with hsame | ⟨_, _, _, _, hplace⟩
    · rw [hsame]
      exact h
    · rw [hplace]
      rfl

theorem Overlaid.set (hoverlaid : Overlaid directory? capacity? files ready tree)
    (hfile : file ∈ files) (hstores : Stores directory? capacity? ready file place stream) :
    Overlaid directory? capacity? files ready (tree.set place (.file stream)) := by
  refine ⟨hoverlaid.links, fun other => ?_⟩
  by_cases hsame : other = place
  · rw [hsame, FileSystem.get?_set_self (FileSystem.isOutside_of_get? hstores.free)]
    exact Or.inr ⟨file, hfile, stream, hstores, rfl⟩
  · rw [FileSystem.get?_set_other hsame]
    exact hoverlaid.places other

/-- What is missing on the way of a path is still missing if no output is to come there. -/
theorem Overlaid.stillMissing {path : Path}
    (hoverlaid : Overlaid directory? capacity? files ready tree)
    (hahead : ∀ other ∈ files, ∀ place, ready.Names (outputOf directory? other) place →
      ready.get? place = none → place ∉ ready.visited path) :
    ready.StillMissing tree (ready.visited path) := by
  intro place hvisited hmissing
  rcases hoverlaid.places place with hsame | ⟨other, hother, _, hstores, _⟩
  · exact hsame.trans hmissing
  · exact absurd hvisited (hahead other hother place hstores.names hmissing)

theorem Overlaid.read_eq (hoverlaid : Overlaid directory? capacity? files ready tree)
    (hindependent : Independent ready directory? files) (hfile : file ∈ files) :
    tree.read file = ready.read file := by
  apply FileSystem.read_eq_of_visited hoverlaid.grows hoverlaid.sameDirectories
  · apply hoverlaid.stillMissing
    intro other hother place hnames hmissing
    exact (hindependent.ahead file hfile other hother place hnames hmissing).left
  · intro place hsource _
    rcases hoverlaid.places place with hsame | ⟨other, hother, _, hstores, _⟩
    · exact hsame
    · exact absurd hsource
        (hindependent.apart file hfile other hother place hstores.names hstores.free)

theorem Overlaid.write_error (hoverlaid : Overlaid directory? capacity? files ready tree)
    (hindependent : Independent ready directory? files) (hfile : file ∈ files)
    {data : Bytes} (hread : ready.read file = .ok data) {error : SystemError}
    (hwrite : ready.write (outputOf directory? file) stream = .error error) :
    tree.write (outputOf directory? file) stream = .error error := by
  have hsuffix : '/' ∉ streamSuffix := by decide
  rcases FileSystem.read_eq_ok.mp hread with ⟨source, hsource, _⟩
  cases hsource with
  | intro hends _ _ _ _ _ =>
      rcases hends.exists_ends_addSuffix hsuffix directory? with ⟨front, hended⟩
      apply FileSystem.write_error_of_visited hoverlaid.grows hoverlaid.sameDirectories hended _
        hwrite
      apply hoverlaid.stillMissing
      intro other hother place hnames hmissing
      exact (hindependent.ahead file hfile other hother place hnames hmissing).right

/-- What becomes of a stream does not depend on what else was stored. -/
theorem Overlaid.run_storing (hoverlaid : Overlaid directory? capacity? files ready tree)
    (hindependent : Independent ready directory? files) (hfile : file ∈ files)
    {data : Bytes} (hread : ready.read file = .ok data)
    (hdeflate : deflateToCapacity data (capacity?.getD (compressBound data.length)) = .ok stream) :
    (∃ problem,
      (storing (outputOf directory? file) data.length stream).run tree = (.error problem, tree) ∧
      alone directory? capacity? ready file = (.error problem, ready)) ∨
      ∃ place deflated, Stores directory? capacity? ready file place stream ∧
        (storing (outputOf directory? file) data.length stream).run tree =
          (.ok deflated, tree.set place (.file stream)) ∧
        alone directory? capacity? ready file =
          (.ok deflated, ready.set place (.file stream)) := by
  have halone : alone directory? capacity? ready file =
      (storing (outputOf directory? file) data.length stream).run ready := by
    rw [alone, hread, compressing, hdeflate]
  rw [halone]
  cases hwrite : ready.write (outputOf directory? file) stream with
  | error error =>
      have hagain := hoverlaid.write_error hindependent hfile hread hwrite
      exact Or.inl ⟨_, run_storing_error hagain, run_storing_error hwrite⟩
  | ok after =>
      rcases FileSystem.write_eq_ok.mp hwrite with ⟨place, hnames, hfree, hafter⟩
      have hagain : tree.write (outputOf directory? file) stream =
          .ok (tree.set place (.file stream)) :=
        FileSystem.write_eq_ok.mpr ⟨place, hnames.of_grows hoverlaid.grows,
          mt (hoverlaid.sameDirectories place).mp hfree, rfl⟩
      refine Or.inr ⟨place, _, ⟨⟨data, hread, hdeflate⟩, hnames, hfree⟩,
        run_storing_ok hagain, ?_⟩
      rw [run_storing_ok hwrite, hafter]

end Apart

/-!
## What turns preserve
-/

/-- How far the work on a file is: what is left to do is what would be if it were alone. -/
inductive Stands (directory? : Option Path) (capacity? : Option Nat) (ready : FileSystem)
    (file : Path) : Routine (Except Problem Deflated) → Prop where
  | reading :
      Stands directory? capacity? ready file
        (deflateFile Routine.storage directory? capacity? file).run
  | writing {data stream : Bytes} (hread : ready.read file = .ok data)
      (hdeflate :
        deflateToCapacity data (capacity?.getD (compressBound data.length)) = .ok stream) :
      Stands directory? capacity? ready file
        (storing (outputOf directory? file) data.length stream)
  | finished :
      Stands directory? capacity? ready file (.done (alone directory? capacity? ready file).1)

/-- Nothing but outputs has been written, and the output of every file that is done is there. -/
structure Progress (directory? : Option Path) (capacity? : Option Nat) (files : List Path)
    (ready : FileSystem) (shared : Routine.Shared (Except Problem Deflated)) : Prop where
  stands : ∀ (index : Nat) (file : Path) (routine : Routine (Except Problem Deflated)),
    files[index]? = some file → shared.routines[index]? = some routine →
      Stands directory? capacity? ready file routine
  overlaid : Overlaid directory? capacity? files ready shared.files
  stored : ∀ (index : Nat) (file : Path) (result : Except Problem Deflated),
    files[index]? = some file → shared.routines[index]? = some (.done result) →
      ∀ place stream, Stores directory? capacity? ready file place stream →
        shared.files.get? place = some (.file stream)

section Turns

variable {ready after : FileSystem} {files : List Path} {file : Path}
  {shared : Routine.Shared (Except Problem Deflated)}

theorem Stands.eq_alone {result : Except Problem Deflated}
    (hstands : Stands directory? capacity? ready file (.done result)) :
    result = (alone directory? capacity? ready file).1 := by
  generalize hroutine : (Routine.done result : Routine (Except Problem Deflated)) = routine
    at hstands
  cases hstands with
  | reading =>
      rw [deflateFile_routine] at hroutine
      cases hroutine
  | writing hread hdeflate => cases hroutine
  | finished => exact Routine.done.inj hroutine

theorem stands_of_alone {result : Except Problem Deflated}
    (halone : alone directory? capacity? ready file = (result, after)) :
    Stands directory? capacity? ready file (.done result) := by
  have hfinished := @Stands.finished directory? capacity? ready file
  rw [halone] at hfinished
  exact hfinished

theorem not_stores_of_error {problem : Problem}
    (halone : alone directory? capacity? ready file = (.error problem, ready)) (place : Location)
    (stream : Bytes) : ¬ Stores directory? capacity? ready file place stream := by
  intro hstores
  rcases hstores.alone_eq with ⟨deflated, hdeflated⟩
  cases halone.symm.trans hdeflated

theorem Progress.set {index : Nat} {next : Routine (Except Problem Deflated)}
    (hprogress : Progress directory? capacity? files ready shared)
    (hfile : files[index]? = some file)
    (hnext : Stands directory? capacity? ready file next)
    (hoverlaid : Overlaid directory? capacity? files ready after)
    (hstored : ∀ result, next = .done result → ∀ place stream,
      Stores directory? capacity? ready file place stream →
        after.get? place = some (.file stream))
    (hkept : ∀ other ∈ files, ∀ place stream,
      Stores directory? capacity? ready other place stream →
        shared.files.get? place = some (.file stream) →
          after.get? place = some (.file stream)) :
    Progress directory? capacity? files ready ⟨shared.routines.set index next, after⟩ where
  stands place other routine hother hroutine := by
    rw [List.getElem?_set] at hroutine
    split at hroutine
    · rename_i hplace
      rw [← hplace, hfile, Option.some.injEq] at hother
      split at hroutine
      · rw [← hother, ← Option.some.inj hroutine]
        exact hnext
      · cases hroutine
    · exact hprogress.stands place other routine hother hroutine
  overlaid := hoverlaid
  stored place other result hother hroutine := by
    rw [List.getElem?_set] at hroutine
    split at hroutine
    · rename_i hplace
      rw [← hplace, hfile, Option.some.injEq] at hother
      split at hroutine
      · rw [← hother]
        exact hstored result (Option.some.inj hroutine)
      · cases hroutine
    · intro place' stream hstores
      exact hkept other (List.mem_of_getElem? hother) place' stream hstores
        (hprogress.stored place other result hother hroutine place' stream hstores)

section Asking

variable {index : Nat} (hprogress : Progress directory? capacity? files ready shared)
  (hindependent : Independent ready directory? files) (hfile : files[index]? = some file)
include hprogress hindependent hfile

theorem Progress.read :
    Progress directory? capacity? files ready
      ⟨shared.routines.set index (compressing directory? capacity? file (shared.files.read file)),
        shared.files⟩ := by
  rw [hprogress.overlaid.read_eq hindependent (List.mem_of_getElem? hfile)]
  rcases compressing_cases directory? capacity? file (ready.read file) with
    ⟨problem, hdone⟩ | ⟨data, stream, hread, hdeflate, hstoring⟩
  · have halone : alone directory? capacity? ready file = (.error problem, ready) := by
      rw [alone, hdone]
      rfl
    rw [hdone]
    refine hprogress.set hfile (stands_of_alone halone) hprogress.overlaid ?_
      (fun _ _ _ _ _ h => h)
    intro _ _ place stream hstores
    exact absurd hstores (not_stores_of_error halone place stream)
  · rw [hstoring]
    exact hprogress.set hfile (.writing hread hdeflate) hprogress.overlaid nofun
      (fun _ _ _ _ _ h => h)

theorem Progress.write {data stream : Bytes} (hread : ready.read file = .ok data)
    (hdeflate : deflateToCapacity data (capacity?.getD (compressBound data.length)) = .ok stream) :
    Progress directory? capacity? files ready
      ⟨shared.routines.set index
          (.done ((storing (outputOf directory? file) data.length stream).run shared.files).1),
        ((storing (outputOf directory? file) data.length stream).run shared.files).2⟩ := by
  have hmem := List.mem_of_getElem? hfile
  rcases hprogress.overlaid.run_storing hindependent hmem hread hdeflate with
    ⟨problem, hrun, halone⟩ | ⟨place, deflated, hstores, hrun, halone⟩
  · rw [hrun]
    refine hprogress.set hfile (stands_of_alone halone) hprogress.overlaid ?_
      (fun _ _ _ _ _ h => h)
    intro _ _ place stream hstores
    exact absurd hstores (not_stores_of_error halone place stream)
  · rw [hrun]
    have hplace : (shared.files.set place (.file stream)).get? place = some (.file stream) :=
      FileSystem.get?_set_self (FileSystem.isOutside_of_get? hstores.free)
    refine hprogress.set hfile (stands_of_alone halone) (hprogress.overlaid.set hmem hstores) ?_ ?_
    · intro _ _ other written hwritten
      have hsame := hwritten.names.unique hstores.names
      subst hsame
      rw [hindependent.stream_eq hmem hmem hwritten hstores]
      exact hplace
    · intro other hother target written hwritten htarget
      by_cases hsame : target = place
      · subst hsame
        rw [hindependent.stream_eq hother hmem hwritten hstores]
        exact hplace
      · rw [FileSystem.get?_set_other hsame]
        exact htarget

end Asking

theorem Progress.turn (hprogress : Progress directory? capacity? files ready shared)
    (hindependent : Independent ready directory? files)
    (hlength : shared.routines.length = files.length) (index : Nat) :
    Progress directory? capacity? files ready (shared.turn index) := by
  unfold Routine.Shared.turn
  cases hroutine : shared.routines[index]? with
  | none => exact hprogress
  | some routine =>
      have hlt := (List.getElem?_eq_some_iff.mp hroutine).choose
      rw [hlength] at hlt
      have hfile := List.getElem?_eq_getElem hlt
      cases hprogress.stands index _ routine hfile hroutine with
      | reading =>
          rw [deflateFile_routine]
          exact hprogress.read hindependent hfile
      | writing hread hdeflate => exact hprogress.write hindependent hfile hread hdeflate
      | finished =>
          exact hprogress.set hfile .finished hprogress.overlaid
            (fun _ _ => hprogress.stored index _ _ hfile hroutine) (fun _ _ _ _ _ h => h)

theorem Progress.take (hprogress : Progress directory? capacity? files ready shared)
    (hindependent : Independent ready directory? files)
    (hlength : shared.routines.length = files.length) (turns : List Nat) :
    Progress directory? capacity? files ready (shared.take turns) := by
  induction turns generalizing shared with
  | nil => exact hprogress
  | cons index rest ih =>
      apply ih (hprogress.turn hindependent hlength index)
      exact (Routine.Shared.length_turn shared index).trans hlength

theorem progress_start :
    Progress directory? capacity? files ready ⟨deflating directory? capacity? files, ready⟩ where
  stands index file routine hfile hroutine := by
    rw [deflating, List.getElem?_map, hfile, Option.map_some, Option.some.injEq] at hroutine
    rw [← hroutine]
    exact .reading
  overlaid := ⟨rfl, fun _ => Or.inl rfl⟩
  stored index file result hfile hroutine := by
    rw [deflating, List.getElem?_map, hfile, Option.map_some, deflateFile_routine] at hroutine
    cases hroutine

section Ends

variable {results : List (Except Problem Deflated)}
  (hprogress : Progress directory? capacity? files ready shared)
  (hlength : shared.routines.length = files.length)
  (hroutines : shared.routines = results.map .done)
include hprogress hlength hroutines

theorem Progress.results_eq :
    results = files.map fun file => (alone directory? capacity? ready file).1 := by
  rw [hroutines, List.length_map] at hlength
  apply List.ext_getElem (hlength.trans (List.length_map _).symm)
  intro index hresult hfile
  rw [List.length_map] at hfile
  rw [List.getElem_map]
  apply (hprogress.stands index files[index] (.done results[index])
    (List.getElem?_eq_getElem hfile) _).eq_alone
  rw [hroutines, List.getElem?_map, List.getElem?_eq_getElem hresult, Option.map_some]

theorem Progress.get?_of_stores (hfile : file ∈ files) {place : Location} {stream : Bytes}
    (hstores : Stores directory? capacity? ready file place stream) :
    shared.files.get? place = some (.file stream) := by
  rcases List.mem_iff_getElem?.mp hfile with ⟨index, hindex⟩
  have hlt := (List.getElem?_eq_some_iff.mp hindex).choose
  rw [hroutines, List.length_map] at hlength
  rw [← hlength] at hlt
  apply hprogress.stored index file results[index] hindex _ place stream hstores
  rw [hroutines, List.getElem?_map, List.getElem?_eq_getElem hlt, Option.map_some]

end Ends

end Turns

/-!
## Reports
-/

def joinReports (reports : List Report) : Report :=
  let failed := reports.countP (·.code != 0)
  { code := if failed = 0 then 0 else 1
    output := reports.flatMap (·.output)
    errors := reports.flatMap (·.errors.take 1) ++
      if failed = 0 then []
      else [s!"Error: {(Problem.someFailed failed reports.length).message}"] }

theorem deflateReport_error (file : Path) {problem : Problem}
    (hroom : problem ≠ .call .capacityOverflow) :
    deflateReport [(file, .error problem)] =
      ⟨1, [], [s!"{file.text}: {problem.message}",
        s!"Error: {(Problem.someFailed 1 1).message}"]⟩ := by
  cases problem with
  | storage error => rfl
  | call failure =>
      cases failure with
      | error error => rfl
      | capacityOverflow => exact absurd rfl hroom
  | tooShort file => rfl
  | someFailed failed total => rfl

/-- No file asks for more memory than there can be. -/
def Fits (results : List (Path × Except Problem Deflated)) : Prop :=
  ∀ entry ∈ results, entry.2 ≠ .error (.call .capacityOverflow)

def outputLine (entry : Path × Except Problem Deflated) : Option String :=
  entry.2.toOption.map (deflatedLine entry.1)

def errorLine (entry : Path × Except Problem Deflated) : Option String :=
  match entry.2 with
  | .ok _ => none
  | .error problem => some s!"{entry.1.text}: {problem.message}"

theorem deflateReport_of_fits {results : List (Path × Except Problem Deflated)}
    (hfits : Fits results) :
    deflateReport results =
      if (results.filterMap errorLine).isEmpty then .success (results.filterMap outputLine)
      else .problem (results.filterMap outputLine) (results.filterMap errorLine)
        (.someFailed (results.filterMap errorLine).length results.length) := by
  unfold deflateReport
  dsimp only
  rw [if_neg]
  · rfl
  · intro hany
    rcases List.any_eq_true.mp hany with ⟨⟨file, result⟩, hmem, hoverflow⟩
    apply hfits _ hmem
    cases result with
    | ok deflated => cases hoverflow
    | error problem =>
        cases problem with
        | call failure =>
            cases failure with
            | error error => cases hoverflow
            | capacityOverflow => rfl
        | storage error => cases hoverflow
        | tooShort file => cases hoverflow
        | someFailed failed total => cases hoverflow

theorem joined_lines {results : List (Path × Except Problem Deflated)} (hfits : Fits results) :
    (results.map fun entry => deflateReport [entry]).flatMap (·.output) =
        results.filterMap outputLine ∧
      (results.map fun entry => deflateReport [entry]).flatMap (·.errors.take 1) =
        results.filterMap errorLine ∧
      (results.map fun entry => deflateReport [entry]).countP (·.code != 0) =
        (results.filterMap errorLine).length := by
  induction results with
  | nil => exact ⟨rfl, rfl, rfl⟩
  | cons entry rest ih =>
      rcases ih fun other hmem => hfits other (List.mem_cons_of_mem _ hmem) with
        ⟨houtput, herrors, hcount⟩
      have hentry := hfits entry List.mem_cons_self
      rcases entry with ⟨file, result⟩
      rw [List.map_cons, List.flatMap_cons, List.flatMap_cons, houtput, herrors, List.countP_cons,
        hcount]
      cases result with
      | ok deflated => exact ⟨rfl, rfl, rfl⟩
      | error problem =>
          rw [deflateReport_error file (fun h => hentry (congrArg Except.error h))]
          exact ⟨rfl, rfl, rfl⟩

theorem deflateReport_eq_joinReports {results : List (Path × Except Problem Deflated)}
    (hfits : Fits results) :
    deflateReport results = joinReports (results.map fun entry => deflateReport [entry]) := by
  rcases joined_lines hfits with ⟨houtput, herrors, hcount⟩
  rw [deflateReport_of_fits hfits, joinReports, houtput, herrors, hcount, List.length_map]
  cases hlines : results.filterMap errorLine with
  | nil => rfl
  | cons line rest => rfl

/-!
## Commands
-/

def deflatedAlone (directory? : Option Path) (capacity? : Option Nat) (tree : FileSystem)
    (file : Path) : Report × FileSystem :=
  (runDeflate FileSystem.storage [file] directory? capacity?).run tree

def Allocatable (capacity? : Option Nat) (ready : FileSystem) (files : List Path) : Prop :=
  ∀ file ∈ files, ∀ content, ready.read file = .ok content →
    capacity?.getD (compressBound content.length) ≤ Failure.maxCapacity

/--
A report and files are those of all files as if each had been deflated alone: its lines are
reported and its output is there if it did not fail, and nothing else has changed.
-/
structure IsJoint (directory? : Option Path) (capacity? : Option Nat) (files : List Path)
    (tree ready : FileSystem) (report : Report) (after : FileSystem) : Prop where
  links : after.links = ready.links
  report : report = joinReports
    (files.map fun file => (deflatedAlone directory? capacity? tree file).1)
  written : ∀ file ∈ files, (deflatedAlone directory? capacity? tree file).1.code = 0 →
    ∃ place, ready.Names (outputOf directory? file) place ∧
      after.get? place = (deflatedAlone directory? capacity? tree file).2.get? place ∧
      after.read (outputOf directory? file) =
        (deflatedAlone directory? capacity? tree file).2.read (outputOf directory? file)
  failed : ∀ file ∈ files, (deflatedAlone directory? capacity? tree file).1.code ≠ 0 →
    (deflatedAlone directory? capacity? tree file).2 = ready
  kept : ∀ place, (∀ file ∈ files, (deflatedAlone directory? capacity? tree file).1.code = 0 →
      ¬ ready.Names (outputOf directory? file) place) →
    after.get? place = ready.get? place

section Commands

variable {tree ready after : FileSystem} {files : List Path} {file : Path} {turns : List Nat}
  {report : Report}

theorem allocatable_of_all
    (hall : ∀ file ∈ files, (ready.read file).toOption.all (fun content =>
      capacity?.getD (compressBound content.length) ≤ Failure.maxCapacity) = true) :
    Allocatable capacity? ready files := by
  intro file hfile content hread
  have hroom := hall file hfile
  rw [hread] at hroom
  exact of_decide_eq_true hroom

theorem deflatedAlone_eq (hprepare : (prepare directory?).run tree = (.ok (), ready)) :
    deflatedAlone directory? capacity? tree file =
      (deflateReport [(file, (alone directory? capacity? ready file).1)],
        (alone directory? capacity? ready file).2) := by
  rcases @runDeflate_eq directory? capacity? [file] with ⟨follow, hrun, _, hok⟩
  rw [deflatedAlone, hrun, StateT.run_bind, hprepare]
  show (follow (.ok ())).run ready = _
  rw [hok, deflating, List.map_singleton, deflateFile_routine]
  rfl

theorem deflateToCapacity_ne_capacityOverflow {content : Bytes} {capacity : Nat}
    (hroom : capacity ≤ Failure.maxCapacity) :
    deflateToCapacity content capacity ≠ .error .capacityOverflow := by
  rw [deflateToCapacity, Failure.allocate, if_pos hroom]
  exact Failure.lift_ne_capacityOverflow _

theorem run_storing_ne_capacityOverflow (output : Path) (plain : Nat) (stream : Bytes) :
    ((storing output plain stream).run ready).1 ≠ .error (.call .capacityOverflow) := by
  cases hwrite : ready.write output stream with
  | error error =>
      rw [run_storing_error hwrite]
      exact fun hoverflow => by cases hoverflow
  | ok after =>
      rw [run_storing_ok hwrite]
      exact fun hoverflow => by cases hoverflow

theorem Allocatable.alone_ne (hallocatable : Allocatable capacity? ready files)
    (hfile : file ∈ files) :
    (alone directory? capacity? ready file).1 ≠ .error (.call .capacityOverflow) := by
  unfold alone
  cases hread : ready.read file with
  | error error => exact fun hoverflow => by cases hoverflow
  | ok content =>
      have hne := @deflateToCapacity_ne_capacityOverflow content _
        (hallocatable file hfile content hread)
      rw [compressing]
      cases hdeflate : deflateToCapacity content
          (capacity?.getD (compressBound content.length)) with
      | error failure =>
          intro hoverflow
          cases hoverflow
          exact hne hdeflate
      | ok stream => exact run_storing_ne_capacityOverflow _ _ _

theorem code_deflatedAlone (hprepare : (prepare directory?).run tree = (.ok (), ready)) :
    (deflatedAlone directory? capacity? tree file).1.code = 0 ↔
      ∃ place stream, Stores directory? capacity? ready file place stream := by
  rw [deflatedAlone_eq hprepare]
  rcases alone_cases directory? capacity? ready file with
    ⟨problem, halone⟩ | ⟨place, stream, hstores⟩
  · rw [halone]
    apply iff_of_false
    · intro hcode
      rcases ok_of_code hcode List.mem_cons_self with ⟨deflated, hdeflated, _⟩
      cases hdeflated
    · rintro ⟨place, stream, hstores⟩
      exact not_stores_of_error halone place stream hstores
  · rcases hstores.alone_eq with ⟨deflated, halone⟩
    rw [halone]
    exact iff_of_true rfl ⟨place, stream, hstores⟩

theorem deflateReport_eq_joined (hprepare : (prepare directory?).run tree = (.ok (), ready))
    (hallocatable : Allocatable capacity? ready files) :
    deflateReport (files.map fun file => (file, (alone directory? capacity? ready file).1)) =
      joinReports (files.map fun file => (deflatedAlone directory? capacity? tree file).1) := by
  have hfits : Fits (files.map fun file => (file, (alone directory? capacity? ready file).1)) := by
    intro entry hentry
    rcases List.mem_map.mp hentry with ⟨file, hfile, heq⟩
    rw [← heq]
    exact hallocatable.alone_ne hfile
  rw [deflateReport_eq_joinReports hfits, List.map_map]
  congr 1
  apply List.map_congr_left
  intro file _
  rw [deflatedAlone_eq hprepare]
  rfl

/-- Files that have the outputs of all that are stored, and nothing else, are joint ones. -/
theorem isJoint_of_overlaid (hprepare : (prepare directory?).run tree = (.ok (), ready))
    (hallocatable : Allocatable capacity? ready files)
    (hoverlaid : Overlaid directory? capacity? files ready after)
    (hstored : ∀ file ∈ files, ∀ place stream,
      Stores directory? capacity? ready file place stream →
        after.get? place = some (.file stream)) :
    IsJoint directory? capacity? files tree ready
      (deflateReport (files.map fun file => (file, (alone directory? capacity? ready file).1)))
      after where
  links := hoverlaid.links
  report := deflateReport_eq_joined hprepare hallocatable
  written file hfile hcode := by
    rcases (code_deflatedAlone hprepare).mp hcode with ⟨place, stream, hstores⟩
    rcases hstores.alone_eq with ⟨deflated, halone⟩
    have hplace := hstored file hfile place stream hstores
    have hset : (ready.set place (.file stream)).get? place = some (.file stream) :=
      FileSystem.get?_set_self (FileSystem.isOutside_of_get? hstores.free)
    have hnames := hstores.names
    refine ⟨place, hnames, ?_, ?_⟩
    · rw [deflatedAlone_eq hprepare, halone, hset]
      exact hplace
    · rw [deflatedAlone_eq hprepare, halone]
      have hread : after.read (outputOf directory? file) = .ok stream :=
        FileSystem.read_eq_ok.mpr ⟨place, hnames.of_grows hoverlaid.grows, hplace⟩
      rw [hread]
      exact (FileSystem.read_eq_ok.mpr ⟨place,
        hnames.of_grows (FileSystem.grows_set hstores.free _), hset⟩).symm
  failed file hfile hcode := by
    rw [deflatedAlone_eq hprepare]
    rcases alone_cases directory? capacity? ready file with ⟨problem, halone⟩ | hstores
    · rw [halone]
    · exact absurd ((code_deflatedAlone hprepare).mpr hstores) hcode
  kept place helsewhere := by
    rcases hoverlaid.places place with hsame | ⟨file, hfile, stream, hstores, _⟩
    · exact hsame
    · have hcode := (code_deflatedAlone hprepare).mpr ⟨place, stream, hstores⟩
      exact absurd hstores.names (helsewhere file hfile hcode)

theorem isJoint_of_turns (hprepare : (prepare directory?).run tree = (.ok (), ready))
    (hindependent : Independent ready directory? files)
    (hallocatable : Allocatable capacity? ready files)
    (hrun : deflateInTurns files directory? capacity? turns tree = some (report, after)) :
    IsJoint directory? capacity? files tree ready report after := by
  unfold deflateInTurns at hrun
  rw [hprepare] at hrun
  rcases Option.map_eq_some_iff.mp hrun with ⟨results, hvalues, hends⟩
  rw [Prod.mk.injEq] at hends
  have hstart : (deflating directory? capacity? files).length = files.length := List.length_map _
  have hprogress := progress_start.take hindependent hstart turns
  have hlength := (Routine.Shared.length_take ⟨deflating directory? capacity? files, ready⟩
    turns).trans hstart
  have hroutines := Routine.Shared.routines_eq_of_values? hvalues
  have hresults := hprogress.results_eq hlength hroutines
  have hpairs : files.zip results =
      files.map fun file => (file, (alone directory? capacity? ready file).1) := by
    rw [hresults, ← List.zip_map', List.map_id']
  rw [← hends.left, ← hends.right, hpairs]
  apply isJoint_of_overlaid hprepare hallocatable hprogress.overlaid
  intro file hfile place stream hstores
  exact hprogress.get?_of_stores hlength hroutines hfile hstores

theorem within_deflateFile (file : Path) :
    (deflateFile Routine.storage directory? capacity? file).run.Within 2 := by
  rw [deflateFile_routine]
  apply Routine.Within.ask
  intro answer
  rcases compressing_cases directory? capacity? file answer with
    ⟨problem, hdone⟩ | ⟨_, _, _, _, hstoring⟩
  · rw [hdone]
    exact .done 1 _
  · rw [hstoring]
    exact .ask fun _ => .done 0 _

theorem exists_report_of_turns (hprepare : (prepare directory?).run tree = (.ok (), ready))
    (hturns : ∀ index, index < files.length → 2 ≤ turns.count index) :
    ∃ report after,
      deflateInTurns files directory? capacity? turns tree = some (report, after) := by
  have hvalues : ∃ values, (Routine.Shared.take
      ⟨deflating directory? capacity? files, ready⟩ turns).values? = some values := by
    apply Routine.Shared.exists_values_take
    · intro place routine hroutine
      rw [deflating, List.getElem?_map, Option.map_eq_some_iff] at hroutine
      rcases hroutine with ⟨file, _, hfile⟩
      rw [← hfile]
      exact within_deflateFile file
    · rw [show (deflating directory? capacity? files).length = files.length from
        List.length_map _]
      exact hturns
  rcases hvalues with ⟨values, hvalues⟩
  generalize hshared : Routine.Shared.take ⟨deflating directory? capacity? files, ready⟩ turns =
    shared at hvalues
  refine ⟨deflateReport (files.zip values), shared.files, ?_⟩
  unfold deflateInTurns
  rw [hprepare]
  dsimp only
  rw [hshared, hvalues]
  rfl

theorem IsJoint.unique {report' : Report} {after' : FileSystem}
    (hjoint : IsJoint directory? capacity? files tree ready report after)
    (hother : IsJoint directory? capacity? files tree ready report' after') :
    report = report' ∧ after.links = after'.links ∧
      ∀ place, after.get? place = after'.get? place := by
  refine ⟨hjoint.report.trans hother.report.symm, hjoint.links.trans hother.links.symm, ?_⟩
  intro place
  by_cases hwritten : ∃ file ∈ files, (deflatedAlone directory? capacity? tree file).1.code = 0 ∧
      ready.Names (outputOf directory? file) place
  · rcases hwritten with ⟨file, hfile, hcode, hnames⟩
    rcases hjoint.written file hfile hcode with ⟨first, hfirst, hplace, _⟩
    rcases hother.written file hfile hcode with ⟨second, hsecond, hplace', _⟩
    rw [hnames.unique hfirst, hplace, hfirst.unique hsecond, hplace']
  · push Not at hwritten
    rw [hjoint.kept place hwritten, hother.kept place hwritten]

theorem isJoint_runDeflate (hprepare : (prepare directory?).run tree = (.ok (), ready))
    (hindependent : Independent ready directory? files)
    (hallocatable : Allocatable capacity? ready files) :
    IsJoint directory? capacity? files tree ready
      ((runDeflate FileSystem.storage files directory? capacity?).run tree).1
      ((runDeflate FileSystem.storage files directory? capacity?).run tree).2 := by
  rcases @exists_turns_runDeflate directory? capacity? files tree with ⟨turns, hrun⟩
  exact isJoint_of_turns hprepare hindependent hallocatable hrun

/--
Files whose outputs are at different places, and of which none lies at an output or behind
one that is still missing, can be deflated in any order.  An order that has two turns for each
file, one to read it and one to write its output, comes to an end; and whatever order has come
to an end, the report and the files are those of each file as if it had been deflated alone.
So they are the same for any two orders, and for one file after the other.
-/
theorem deflating_in_any_order (hprepare : (prepare directory?).run tree = (.ok (), ready))
    (hindependent : Independent ready directory? files)
    (hallocatable : Allocatable capacity? ready files) :
    (∀ turns, (∀ index, index < files.length → 2 ≤ turns.count index) →
      ∃ report after,
        deflateInTurns files directory? capacity? turns tree = some (report, after)) ∧
    (∀ turns report after,
      deflateInTurns files directory? capacity? turns tree = some (report, after) →
        IsJoint directory? capacity? files tree ready report after) ∧
    IsJoint directory? capacity? files tree ready
      ((runDeflate FileSystem.storage files directory? capacity?).run tree).1
      ((runDeflate FileSystem.storage files directory? capacity?).run tree).2 ∧
    ∀ turns others report report' after after',
      deflateInTurns files directory? capacity? turns tree = some (report, after) →
      deflateInTurns files directory? capacity? others tree = some (report', after') →
        report = report' ∧ after.links = after'.links ∧
          ∀ place, after.get? place = after'.get? place := by
  refine ⟨?_, ?_, isJoint_runDeflate hprepare hindependent hallocatable, ?_⟩
  · intro turns hturns
    exact exists_report_of_turns hprepare hturns
  · intro turns report after hrun
    exact isJoint_of_turns hprepare hindependent hallocatable hrun
  · intro turns others report report' after after' hrun hother
    have hjoint := isJoint_of_turns hprepare hindependent hallocatable hrun
    exact hjoint.unique (isJoint_of_turns hprepare hindependent hallocatable hother)

end Commands

/-- One of two files is missing, and the other one is deflated in the meantime. -/
theorem deflate_one_of_two :
    ∃ report after,
      deflateInTurns [⟨['a']⟩, ⟨['b']⟩] (some ⟨['o']⟩) none [1, 0, 0, 1]
        { nodes := [([['a']], .file [0x61])] } = some (report, after) ∧
      IsJoint (some ⟨['o']⟩) none [⟨['a']⟩, ⟨['b']⟩] { nodes := [([['a']], .file [0x61])] }
        { nodes := [([['o']], .directory), ([['a']], .file [0x61])] } report after ∧
      after.read ⟨['o', '/', 'a', '.', 'z', 'z']⟩ =
        .ok [0x78, 0x9c, 0x4a, 0x04, 0x0c, 0x00, 0x00, 0x62, 0x00, 0x62] := by
  let ready : FileSystem := { nodes := [([['o']], .directory), ([['a']], .file [0x61])] }
  have hprepare : (prepare (some ⟨['o']⟩)).run { nodes := [([['a']], .file [0x61])] } =
      (.ok (), ready) := rfl
  have hplaces : ∀ file ∈ ([⟨['a']⟩, ⟨['b']⟩] : List Path),
      ∀ other ∈ ([⟨['a']⟩, ⟨['b']⟩] : List Path), ∀ place,
        ready.Names (outputOf (some ⟨['o']⟩) other) place →
          ready.locate file ≠ .ok place ∧ place ∉ ready.visited file ∧
            place ∉ ready.visited (outputOf (some ⟨['o']⟩) file) := by
    intro file hfile other hother
    apply FileSystem.forall_names_of_all
    revert file other
    decide
  have hindependent : Independent ready (some ⟨['o']⟩) [⟨['a']⟩, ⟨['b']⟩] := by
    apply independent_of_links_nil rfl (by decide)
    · intro file hfile other hother place hnames _ hsource
      exact (hplaces file hfile other hother place hnames).left
        (FileSystem.locate_eq_ok.mpr hsource)
    · intro file hfile other hother place hnames _
      exact (hplaces file hfile other hother place hnames).right
  have hallocatable : Allocatable none ready [⟨['a']⟩, ⟨['b']⟩] := allocatable_of_all (by decide)
  rcases deflating_in_any_order hprepare hindependent hallocatable with ⟨hends, hjoint, _⟩
  rcases hends [1, 0, 0, 1] (by decide) with ⟨report, after, hrun⟩
  have hjoined := hjoint _ _ _ hrun
  rcases hjoined.written ⟨['a']⟩ List.mem_cons_self (by decide +kernel) with ⟨_, _, _, hread⟩
  refine ⟨report, after, hrun, hjoined, hread.trans ?_⟩
  decide +kernel

/--
Different paths for all outputs and inputs are not enough, even if they name different places:
what is behind an output is missing before that is written, and after that it is behind a
file.  And where links make one place of two outputs, the one that is written last is there.
-/
theorem not_every_order_alike :
    (¬ ∀ (tree ready : FileSystem) (files : List Path) (directory? : Option Path)
        (capacity? : Option Nat) (turns others : List Nat) (report report' : Report)
        (after after' : FileSystem),
      (prepare directory?).run tree = (.ok (), ready) →
      (files ++ files.map (outputOf directory?)).Nodup →
      (∀ path ∈ files ++ files.map (outputOf directory?),
        ∀ other ∈ files ++ files.map (outputOf directory?), path ≠ other →
          ∀ place, ready.Names path place → ¬ ready.Names other place) →
      Allocatable capacity? ready files →
      deflateInTurns files directory? capacity? turns tree = some (report, after) →
      deflateInTurns files directory? capacity? others tree = some (report', after') →
      report = report') ∧
    ¬ ∀ (tree ready : FileSystem) (files : List Path) (directory? : Option Path)
        (capacity? : Option Nat) (turns others : List Nat) (report report' : Report)
        (after after' : FileSystem),
      (prepare directory?).run tree = (.ok (), ready) →
      (files ++ files.map (outputOf directory?)).Nodup →
      Allocatable capacity? ready files →
      deflateInTurns files directory? capacity? turns tree = some (report, after) →
      deflateInTurns files directory? capacity? others tree = some (report', after') →
      ∀ path, after.read path = after'.read path := by
  constructor
  · intro hall
    have hfirst : (deflateInTurns [⟨['a']⟩, ⟨['a', '.', 'z', 'z', '/', 'x']⟩] none none [0, 0, 1]
        { nodes := [([['a']], .file [0x61])] }).map (·.1.errors) =
        some ["a.zz/x: Not a directory (os error 20)", "Error: 1 of 2 files failed"] := by
      decide +kernel
    have hsecond : (deflateInTurns [⟨['a']⟩, ⟨['a', '.', 'z', 'z', '/', 'x']⟩] none none [1, 0, 0]
        { nodes := [([['a']], .file [0x61])] }).map (·.1.errors) =
        some ["a.zz/x: No such file or directory (os error 2)",
          "Error: 1 of 2 files failed"] := by
      decide +kernel
    rcases Option.map_eq_some_iff.mp hfirst with ⟨⟨report, after⟩, hrun, herrors⟩
    rcases Option.map_eq_some_iff.mp hsecond with ⟨⟨report', after'⟩, hrun', herrors'⟩
    have hlast : ∀ path ∈ ([⟨['a']⟩, ⟨['a', '.', 'z', 'z', '/', 'x']⟩, ⟨['a', '.', 'z', 'z']⟩,
        ⟨['a', '.', 'z', 'z', '/', 'x', '.', 'z', 'z']⟩] : List Path),
        ∀ other ∈ ([⟨['a']⟩, ⟨['a', '.', 'z', 'z', '/', 'x']⟩, ⟨['a', '.', 'z', 'z']⟩,
          ⟨['a', '.', 'z', 'z', '/', 'x', '.', 'z', 'z']⟩] : List Path),
        path ≠ other → (Path.split other.chars).getLast? ≠ (Path.split path.chars).getLast? := by
      decide
    have hsame := hall _ _ _ _ _ _ _ report report' after after' rfl (by decide) ?_ ?_ hrun hrun'
    · rw [← hsame, herrors] at herrors'
      exact absurd herrors' (by decide)
    · intro path hpath other hother hne place hnames hplace
      exact hnames.ne_of_getLast?_ne hplace (fun hlink => hlink.links_ne_nil rfl)
        (fun hlink => hlink.links_ne_nil rfl) (hlast path hpath other hother hne) rfl
    · exact allocatable_of_all (by decide)
  · intro hall
    let linked : FileSystem :=
      { nodes := [([['a']], .file [0x61]), ([['b']], .file [0x62])]
        links := [([['b', '.', 'z', 'z']], ⟨[], [['a', '.', 'z', 'z']]⟩)] }
    have hfirst : (deflateInTurns [⟨['a']⟩, ⟨['b']⟩] none none [0, 0, 1, 1] linked).map
        (·.2.read ⟨['a', '.', 'z', 'z']⟩) =
        some (.ok [0x78, 0x9c, 0x4a, 0x02, 0x0c, 0x00, 0x00, 0x63, 0x00, 0x63]) := by
      decide +kernel
    have hsecond : (deflateInTurns [⟨['a']⟩, ⟨['b']⟩] none none [1, 1, 0, 0] linked).map
        (·.2.read ⟨['a', '.', 'z', 'z']⟩) =
        some (.ok [0x78, 0x9c, 0x4a, 0x04, 0x0c, 0x00, 0x00, 0x62, 0x00, 0x62]) := by
      decide +kernel
    rcases Option.map_eq_some_iff.mp hfirst with ⟨⟨_, _⟩, hrun, hread⟩
    rcases Option.map_eq_some_iff.mp hsecond with ⟨⟨_, _⟩, hrun', hread'⟩
    have hsame := hall _ _ _ _ _ _ _ _ _ _ _ rfl (by decide)
      (allocatable_of_all (by decide)) hrun hrun' ⟨['a', '.', 'z', 'z']⟩
    rw [hread, hread'] at hsame
    exact absurd hsame (by decide)

end Command
end BoundedZlib
