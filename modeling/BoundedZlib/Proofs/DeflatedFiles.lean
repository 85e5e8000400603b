import BoundedZlib.CommandLine.Command
import BoundedZlib.Proofs.Capacity
import BoundedZlib.Proofs.Interleaving

/-!
# Deflating several files

The files of one command are deflated in turns: each is read, and then its stream is
written, with any number of operations for other files in between.  Every output is there
in the end.  What it holds is the stream of its file as long as no other file is written to
where this one is read or written; nothing keeps outputs apart.
-/

namespace BoundedZlib
namespace Command

variable {directory? : Option Path} {capacity? : Option Nat}

/-!
## One file
-/

def outputOf (directory? : Option Path) (file : Path) : Path :=
  file.addSuffix streamSuffix directory?

def storing (output : Path) (plain : Nat) (stream : Bytes) : Routine (Except Problem Deflated) :=
  .ask (.write output stream) fun answer =>
    .done (match answer with
      | .ok () => .ok ⟨output, plain, stream.length⟩
      | .error error => .error (.storage error))

def compressing (directory? : Option Path) (capacity? : Option Nat) (file : Path) :
    Except SystemError Bytes → Routine (Except Problem Deflated)
  | .error error => .done (.error (.storage error))
  | .ok data =>
      match deflateToCapacity data (capacity?.getD (compressBound data.length)) with
      | .error failure => .done (.error (.call failure))
      | .ok stream => storing (outputOf directory? file) data.length stream

theorem deflateFile_routine (file : Path) :
    (deflateFile Routine.storage directory? capacity? file).run =
      .ask (.read file) (compressing directory? capacity? file) := by
  refine congrArg (Routine.ask (.read file)) (funext fun answer => ?_)
  cases answer with
  | error error => rfl
  | ok data =>
      rw [compressing]
      show ExceptT.run (do
        let stream ← called (deflateToCapacity data (capacity?.getD (compressBound data.length)))
        stored (Routine.storage.write (outputOf directory? file) stream)
        pure (Deflated.mk (outputOf directory? file) data.length stream.length)) = _
      cases deflateToCapacity data (capacity?.getD (compressBound data.length)) with
      | error failure => rfl
      | ok stream =>
          refine congrArg (Routine.ask (.write (outputOf directory? file) stream))
            (funext fun answer => ?_)
          cases answer with
          | error error => rfl
          | ok value => rfl

theorem run_deflateFile (file : Path) :
    (deflateFile Routine.storage directory? capacity? file).run.run =
      (deflateFile FileSystem.storage directory? capacity? file).run := by
  refine Routine.run_bind_of_runs rfl fun data => ?_
  refine Routine.run_bind_of_runs rfl fun stream => ?_
  exact Routine.run_bind_of_runs rfl fun written => rfl

/-!
## All files
-/

def deflating (directory? : Option Path) (capacity? : Option Nat) (files : List Path) :
    List (Routine (Except Problem Deflated)) :=
  files.map fun file => (deflateFile Routine.storage directory? capacity? file).run

def prepare (directory? : Option Path) : StateM FileSystem (Except SystemError Unit) :=
  match directory? with
  | none => pure (.ok ())
  | some directory => FileSystem.storage.ensureDirectories directory

/--
Run the command with the operations for its files in any order of turns.  There is no
report as long as some file is not done.
-/
def deflateInTurns (files : List Path) (directory? : Option Path) (capacity? : Option Nat)
    (turns : List Nat) (tree : FileSystem) : Option (Report × FileSystem) :=
  match (prepare directory?).run tree with
  | (.error error, tree) => some (.problem [] [] (.storage error), tree)
  | (.ok (), tree) =>
      let shared := Routine.Shared.take ⟨deflating directory? capacity? files, tree⟩ turns
      shared.values?.map fun results => (deflateReport (files.zip results), shared.files)

theorem deflating_cons (file : Path) (files : List Path) :
    deflating directory? capacity? (file :: files) =
      (deflateFile Routine.storage directory? capacity? file).run ::
        deflating directory? capacity? files := rfl

theorem mapM_deflateFile (files : List Path) :
    (files.mapM fun file => do
      return (file, ← (deflateFile FileSystem.storage directory? capacity? file).run)) =
      (do return files.zip (← (deflating directory? capacity? files).mapM Routine.run) :
        StateM FileSystem (List (Path × Except Problem Deflated))) := by
  induction files with
  | nil => rfl
  | cons file rest ih =>
      rw [List.mapM_cons, ih, deflating_cons, List.mapM_cons, run_deflateFile]
      simp only [bind_assoc, pure_bind, List.zip_cons_cons]

theorem runDeflate_eq (files : List Path) :
    ∃ follow : Except SystemError Unit → StateM FileSystem Report,
      runDeflate FileSystem.storage files directory? capacity? = prepare directory? >>= follow ∧
      (∀ error, follow (.error error) = pure (.problem [] [] (.storage error))) ∧
      follow (.ok ()) = do
        let results ← (deflating directory? capacity? files).mapM Routine.run
        return deflateReport (files.zip results) := by
  have hall := @mapM_deflateFile directory? capacity? files
  cases directory? with
  | none =>
      refine ⟨_, by rw [runDeflate]; rfl, fun error => rfl, ?_⟩
      dsimp only
      rw [hall, bind_assoc]
      rfl
  | some directory =>
      refine ⟨_, by rw [runDeflate]; rfl, fun error => rfl, ?_⟩
      dsimp only
      rw [hall, bind_assoc]
      rfl

theorem exists_turns_runDeflate (files : List Path) (tree : FileSystem) :
    ∃ turns, deflateInTurns files directory? capacity? turns tree =
      some ((runDeflate FileSystem.storage files directory? capacity?).run tree) := by
  rcases @runDeflate_eq directory? capacity? files with ⟨follow, hrun, herror, hok⟩
  rw [hrun, StateT.run_bind]
  unfold deflateInTurns
  rcases (prepare directory?).run tree with ⟨answer, ready⟩
  cases answer with
  | error error =>
      refine ⟨[], ?_⟩
      show _ = some ((follow (.error error)).run ready)
      rw [herror]
      rfl
  | ok value =>
      rcases Routine.Shared.exists_turns (deflating directory? capacity? files) ready with
        ⟨turns, hturns⟩
      refine ⟨turns, ?_⟩
      show _ = some ((follow (.ok ())).run ready)
      dsimp only
      rw [hturns, Routine.Shared.values?_done, hok]
      rfl

/-!
## Reports
-/

theorem ok_of_code {results : List (Path × Except Problem Deflated)}
    (hcode : (deflateReport results).code = 0) {file : Path} {result : Except Problem Deflated}
    (hmem : (file, result) ∈ results) :
    ∃ deflated, result = .ok deflated ∧
      deflatedLine file deflated ∈ (deflateReport results).output := by
  unfold deflateReport at hcode ⊢
  dsimp only at hcode ⊢
  split at hcode
  · cases hcode
  · rename_i hsound
    rw [if_neg hsound]
    split at hcode
    · rename_i hnone
      rw [if_pos hnone]
      rw [List.isEmpty_iff, List.filterMap_eq_nil_iff] at hnone
      cases result with
      | error problem => cases hnone _ hmem
      | ok deflated =>
          exact ⟨deflated, rfl, List.mem_filterMap.mpr ⟨_, hmem, rfl⟩⟩
    · cases hcode

/-!
## What turns preserve
-/

/--
None of these other files is written to where this one is read, and none that lies somewhere
else is written to where this one is written.
-/
def Apart (tree : FileSystem) (directory? : Option Path) (others : List Path) (file : Path) :
    Prop :=
  ∀ other ∈ others, tree.resolve (outputOf directory? other) ≠ tree.resolve file ∧
    (tree.resolve other ≠ tree.resolve file →
      tree.resolve (outputOf directory? other) ≠ tree.resolve (outputOf directory? file))

instance (tree : FileSystem) (directory? : Option Path) (others : List Path) (file : Path) :
    Decidable (Apart tree directory? others file) :=
  inferInstanceAs (Decidable (∀ other ∈ others,
    tree.resolve (outputOf directory? other) ≠ tree.resolve file ∧
      (tree.resolve other ≠ tree.resolve file →
        tree.resolve (outputOf directory? other) ≠ tree.resolve (outputOf directory? file))))

/-- A file of a command that is watched, and where it lies in the tree at the end. -/
structure Watched where
  directory? : Option Path
  capacity? : Option Nat
  files : List Path
  last : FileSystem
  index : Nat
  file : Path
  content : Bytes
  place : Location
  listed : files[index]? = some file
  resolve : last.resolve file = .ok place

namespace Watched

def IsApart (watched : Watched) : Prop :=
  Apart watched.last watched.directory? (watched.files.eraseIdx watched.index) watched.file

def LeadsToOutput (watched : Watched) (path : Path) : Prop :=
  watched.last.resolve path = watched.last.resolve (outputOf watched.directory? watched.file)

def Keeps (watched : Watched) (stream : Bytes) : Prop :=
  watched.IsApart →
    deflateToCapacity watched.content
      (watched.capacity?.getD (compressBound watched.content.length)) = .ok stream

/-- How far the work on some file is. -/
inductive Underway (watched : Watched) (tree : FileSystem) (other : Path) :
    Routine (Except Problem Deflated) → Prop where
  | reading :
      Underway watched tree other
        (deflateFile Routine.storage watched.directory? watched.capacity? other).run
  | writing {source : Location} {plain : Nat} {stream : Bytes}
      (hresolve : watched.last.resolve other = .ok source)
      (hkeeps : watched.LeadsToOutput (outputOf watched.directory? other) →
        source = watched.place → watched.Keeps stream) :
      Underway watched tree other (storing (outputOf watched.directory? other) plain stream)
  | failed {problem : Problem} : Underway watched tree other (.done (.error problem))
  | finished {target : Location} {plain compressed : Nat} {stream : Bytes}
      (hnames : watched.last.Names (outputOf watched.directory? other) target)
      (hfile : tree.get? target = some (.file stream))
      (hkeeps : watched.last.resolve (outputOf watched.directory? watched.file) = .ok target →
        watched.Keeps stream) :
      Underway watched tree other
        (.done (.ok ⟨outputOf watched.directory? other, plain, compressed⟩))

/--
The file may be read as it was: its output goes elsewhere, or the work on it is not done.
-/
def Readable (watched : Watched) (shared : Routine.Shared (Except Problem Deflated)) : Prop :=
  ¬ watched.LeadsToOutput watched.file ∨
    ∀ result, shared.routines[watched.index]? ≠ some (.done result)

/-- The file is as it was if it is kept apart, and the work on each file is underway. -/
structure Progress (watched : Watched) (shared : Routine.Shared (Except Problem Deflated)) :
    Prop where
  kept : watched.IsApart → watched.Readable shared →
    shared.files.get? watched.place = some (.file watched.content)
  length_eq : shared.routines.length = watched.files.length
  underway : ∀ (index : Nat) (other : Path) (routine : Routine (Except Problem Deflated)),
    watched.files[index]? = some other → shared.routines[index]? = some routine →
      watched.Underway shared.files other routine

variable {watched : Watched} {tree after : FileSystem} {other : Path}

theorem Readable.of_turn {shared : Routine.Shared (Except Problem Deflated)} {index : Nat}
    (hreadable : watched.Readable (shared.turn index)) : watched.Readable shared :=
  hreadable.imp_right fun hundone result hdone =>
    hundone result (Routine.Shared.getElem?_turn_of_done hdone index)

theorem resolve_of_names {path : Path} {place : Location}
    (hnames : watched.last.Names path place) (hthere : (tree.get? place).isSome = true)
    (hgrows : tree.Grows watched.last) : watched.last.resolve path = .ok place :=
  hnames.resolve (hgrows.present place hthere)

theorem underway_of_read (hgrows : tree.Grows watched.last)
    (hkept : watched.LeadsToOutput (outputOf watched.directory? other) → watched.IsApart →
      tree.get? watched.place = some (.file watched.content)) :
    watched.Underway tree other
      (compressing watched.directory? watched.capacity? other (tree.read other)) := by
  cases hread : tree.read other with
  | error error => exact .failed
  | ok data =>
      rw [compressing]
      cases hdeflate : deflateToCapacity data
        (watched.capacity?.getD (compressBound data.length)) with
      | error failure => exact .failed
      | ok stream =>
          rcases FileSystem.read_eq_ok.mp hread with ⟨source, hnames, hsource⟩
          have hlast := hnames.of_grows hgrows
          refine .writing (resolve_of_names hlast (by rw [hsource]; rfl) hgrows) ?_
          intro hleads hsame hapart
          have hcontent := hkept hleads hapart
          rw [← hsame, hsource, Option.some.injEq, Node.file.injEq] at hcontent
          rw [← hcontent]
          exact hdeflate

section Listed

variable {index : Nat} (hother : watched.files[index]? = some other)
include hother

theorem IsApart.of_ne (hapart : watched.IsApart) (hne : index ≠ watched.index) :
    watched.last.resolve (outputOf watched.directory? other) ≠
        watched.last.resolve watched.file ∧
      (watched.last.resolve other ≠ watched.last.resolve watched.file →
        ¬ watched.LeadsToOutput (outputOf watched.directory? other)) :=
  hapart other (List.mem_eraseIdx_iff_getElem?.mpr ⟨index, hne, hother⟩)

theorem eq_file_of_eq (hsame : index = watched.index) : other = watched.file := by
  rw [hsame, watched.listed, Option.some.injEq] at hother
  exact hother.symm

theorem readable_of_reading {shared : Routine.Shared (Except Problem Deflated)}
    {request : Request} {follow : request.Answer → Routine (Except Problem Deflated)}
    (hapart : watched.IsApart) (hleads : watched.LeadsToOutput (outputOf watched.directory? other))
    (hroutine : shared.routines[index]? = some (.ask request follow)) :
    watched.Readable shared := by
  by_cases hsame : index = watched.index
  · refine Or.inr fun result hdone => ?_
    rw [← hsame, hroutine] at hdone
    cases hdone
  · refine Or.inl fun hself => ?_
    exact (hapart.of_ne hother hsame).left (hleads.trans hself.symm)

section Writing

variable {source target : Location} {stream : Bytes}
  (hresolve : watched.last.resolve other = .ok source)
  (htarget : watched.last.resolve (outputOf watched.directory? other) = .ok target)
include hresolve htarget

theorem keeps_of_written
    (hkeeps : watched.LeadsToOutput (outputOf watched.directory? other) →
      source = watched.place → watched.Keeps stream)
    (hsame : watched.last.resolve (outputOf watched.directory? watched.file) = .ok target) :
    watched.Keeps stream := by
  intro hapart
  have hleads : watched.LeadsToOutput (outputOf watched.directory? other) :=
    htarget.trans hsame.symm
  by_cases hsource : source = watched.place
  · exact hkeeps hleads hsource hapart
  · have hapartSource : watched.last.resolve other ≠ watched.last.resolve watched.file := by
      rw [hresolve, watched.resolve]
      exact fun h => hsource (Except.ok.inj h)
    have hne : index ≠ watched.index := fun h =>
      hapartSource (congrArg watched.last.resolve (eq_file_of_eq hother h))
    exact absurd hleads ((hapart.of_ne hother hne).right hapartSource)

omit hresolve in
theorem ne_place_of_written (hapart : watched.IsApart)
    (hself : index = watched.index → ¬ watched.LeadsToOutput watched.file) :
    target ≠ watched.place := by
  intro hsame
  rw [hsame, ← watched.resolve] at htarget
  by_cases hindex : index = watched.index
  · rw [eq_file_of_eq hother hindex] at htarget
    exact hself hindex htarget.symm
  · exact (hapart.of_ne hother hindex).left htarget

end Writing

end Listed

theorem Underway.of_write {routine : Routine (Except Problem Deflated)} {target : Location}
    {stream : Bytes} (hunderway : watched.Underway tree other routine)
    (hinside : tree.get? target ≠ some .directory)
    (hkeeps : watched.last.resolve (outputOf watched.directory? watched.file) = .ok target →
      watched.Keeps stream) :
    watched.Underway (tree.set target (.file stream)) other routine := by
  cases hunderway with
  | reading => exact .reading
  | writing hresolve hkeeps => exact .writing hresolve hkeeps
  | failed => exact .failed
  | @finished place plain compressed before hnames hfile hbefore =>
      by_cases hsame : place = target
      · rw [← hsame] at hinside hkeeps ⊢
        exact .finished hnames
          (FileSystem.get?_set_self (FileSystem.isOutside_of_get? hinside)) hkeeps
      · refine .finished hnames ?_ hbefore
        rw [FileSystem.get?_set_other hsame]
        exact hfile

variable {shared : Routine.Shared (Except Problem Deflated)}

theorem Progress.set {index : Nat} {next : Routine (Except Problem Deflated)}
    (hprogress : watched.Progress shared) (hother : watched.files[index]? = some other)
    (hkept : watched.IsApart → watched.Readable ⟨shared.routines.set index next, after⟩ →
      after.get? watched.place = some (.file watched.content))
    (hnext : watched.Underway after other next)
    (hothers : ∀ (path : Path) (routine : Routine (Except Problem Deflated)),
      watched.Underway shared.files path routine → watched.Underway after path routine) :
    watched.Progress ⟨shared.routines.set index next, after⟩ where
  kept := hkept
  length_eq := List.length_set.trans hprogress.length_eq
  underway place path routine hpath hroutine := by
    rw [List.getElem?_set] at hroutine
    split at hroutine
    · rename_i hplace
      rw [← hplace, hother, Option.some.injEq] at hpath
      split at hroutine
      · rw [← hpath, ← Option.some.inj hroutine]
        exact hnext
      · cases hroutine
    · exact hothers path routine (hprogress.underway place path routine hpath hroutine)

/-- An operation for one file leaves the work on every file underway. -/
theorem Progress.turn (hprogress : watched.Progress shared) (index : Nat)
    (hgrows : (shared.turn index).files.Grows watched.last) :
    watched.Progress (shared.turn index) := by
  have hbefore := (Routine.Shared.grows_turn shared index).trans hgrows
  have hkept : watched.IsApart → watched.Readable (shared.turn index) →
      shared.files.get? watched.place = some (.file watched.content) :=
    fun hapart hreadable => hprogress.kept hapart hreadable.of_turn
  unfold Routine.Shared.turn at hgrows hkept ⊢
  cases hroutine : shared.routines[index]? with
  | none => exact hprogress
  | some routine =>
      rw [hroutine] at hgrows hkept
      dsimp only at hgrows hkept ⊢
      have hlt := (List.getElem?_eq_some_iff.mp hroutine).choose
      have hindex := hlt
      rw [hprogress.length_eq] at hlt
      have hother := List.getElem?_eq_getElem hlt
      generalize watched.files[index] = other at hother
      have hunderway := hprogress.underway index other routine hother hroutine
      cases hunderway with
      | reading =>
          rw [deflateFile_routine] at hroutine hkept ⊢
          apply hprogress.set hother hkept _ (fun _ _ h => h)
          apply underway_of_read hbefore
          intro hleads hapart
          exact hprogress.kept hapart (readable_of_reading hother hapart hleads hroutine)
      | failed => exact hprogress.set hother hkept .failed (fun _ _ h => h)
      | finished hnames hfile hkeeps =>
          exact hprogress.set hother hkept (.finished hnames hfile hkeeps) (fun _ _ h => h)
      | @writing source plain stream hresolve hkeeps =>
          -- Only here something changes, and only at the place of the output.
          cases hwrite : shared.files.write (outputOf watched.directory? other) stream with
          | error error =>
              rw [storing, Routine.step, Request.perform_write_error hwrite] at hkept ⊢
              exact hprogress.set hother hkept .failed (fun _ _ h => h)
          | ok after =>
              rw [storing, Routine.step, Request.perform_write_ok hwrite] at hgrows hkept ⊢
              rcases FileSystem.write_eq_ok.mp hwrite with ⟨target, hwritten, hinside, hafter⟩
              have hfile : after.get? target = some (.file stream) := by
                rw [hafter, FileSystem.get?_set_self (FileSystem.isOutside_of_get? hinside)]
              have hlast := hwritten.of_grows hbefore
              have htarget := resolve_of_names hlast (by rw [hfile]; rfl) hgrows
              have hstream := keeps_of_written hother hresolve htarget hkeeps
              apply hprogress.set hother _ (.finished hlast hfile hstream)
              · intro path routine hroutine
                rw [hafter]
                exact hroutine.of_write hinside hstream
              · intro hapart hreadable
                have hne : target ≠ watched.place := by
                  apply ne_place_of_written hother htarget hapart
                  intro hsame
                  refine hreadable.resolve_right fun hundone => ?_
                  rw [← hsame] at hundone
                  exact hundone _ (List.getElem?_set_self hindex)
                rw [hafter, FileSystem.get?_set_other hne.symm]
                exact hkept hapart hreadable

theorem Progress.take (hprogress : watched.Progress shared) (turns : List Nat)
    (hlast : (shared.take turns).files = watched.last) : watched.Progress (shared.take turns) := by
  induction turns generalizing shared with
  | nil => exact hprogress
  | cons index rest ih =>
      have hgrows := Routine.Shared.grows_take (shared.turn index) rest
      rw [show (shared.turn index).take rest = shared.take (index :: rest) from rfl, hlast]
        at hgrows
      exact ih (hprogress.turn index hgrows) hlast

theorem progress_start
    (hkept : tree.get? watched.place = some (.file watched.content)) :
    watched.Progress ⟨deflating watched.directory? watched.capacity? watched.files, tree⟩ where
  kept _ _ := hkept
  length_eq := List.length_map _
  underway index other routine hother hroutine := by
    rw [deflating, List.getElem?_map, hother, Option.map_some, Option.some.injEq] at hroutine
    rw [← hroutine]
    exact .reading

theorem Underway.read_output {deflated : Deflated}
    (hunderway : watched.Underway tree other (.done (.ok deflated)))
    (htree : watched.last = tree) :
    deflated.output = outputOf watched.directory? other ∧
      ∃ stream, tree.read deflated.output = .ok stream ∧
        (other = watched.file → watched.Keeps stream) := by
  generalize hroutine :
    (Routine.done (Except.ok deflated) : Routine (Except Problem Deflated)) = routine at hunderway
  cases hunderway with
  | reading =>
      rw [deflateFile_routine] at hroutine
      cases hroutine
  | writing hresolve hkeeps => cases hroutine
  | failed => cases hroutine
  | @finished target plain compressed stream hnames hfile hkeeps =>
      cases hroutine
      have hresolve := hnames.resolve (by rw [htree, hfile]; rfl)
      refine ⟨rfl, stream, ?_, ?_⟩
      · rw [htree] at hnames
        exact FileSystem.read_eq_ok.mpr ⟨target, hnames, hfile⟩
      · intro hsame
        rw [hsame] at hresolve
        exact hkeeps hresolve

end Watched

/-!
## Commands
-/

theorem extends_prepare (directory? : Option Path) (tree : FileSystem) :
    tree.Extends ((prepare directory?).run tree).2 := by
  cases directory? with
  | none => exact FileSystem.Extends.refl tree
  | some directory => exact FileSystem.extends_ensureDirectories tree directory

theorem deflateInTurns_eq_some {files : List Path} {turns : List Nat} {tree after : FileSystem}
    {report : Report} (hrun : deflateInTurns files directory? capacity? turns tree =
      some (report, after)) (hcode : report.code = 0) :
    ∃ (ready : FileSystem) (results : List (Except Problem Deflated)),
      tree.Extends ready ∧
      Routine.Shared.take ⟨deflating directory? capacity? files, ready⟩ turns =
        ⟨results.map .done, after⟩ ∧
      report = deflateReport (files.zip results) := by
  have hextends := extends_prepare directory? tree
  unfold deflateInTurns at hrun
  generalize (prepare directory?).run tree = prepared at hrun hextends
  rcases prepared with ⟨answer, ready⟩
  cases answer with
  | error error =>
      rw [Option.some.injEq, Prod.mk.injEq] at hrun
      rw [← hrun.left] at hcode
      cases hcode
  | ok value =>
      rcases Option.map_eq_some_iff.mp hrun with ⟨results, hvalues, hreport⟩
      rw [Prod.mk.injEq] at hreport
      refine ⟨ready, results, hextends, ?_, hreport.left.symm⟩
      rw [← Routine.Shared.routines_eq_of_values? hvalues, ← hreport.right]

/--
In whatever order the operations for the files of a command come, if it reports no failure
then the output of every file is there.  It inflates to what the file held before if none of
the others is written to where this one is read, and none that lies somewhere else to where
this one is written.
-/
theorem deflate_keeps_files {tree after : FileSystem} {files : List Path} {turns : List Nat}
    {directory? : Option Path} {capacity? : Option Nat} {report : Report}
    (hrun : deflateInTurns files directory? capacity? turns tree = some (report, after))
    (hcode : report.code = 0) :
    ∀ (index : Nat) (file : Path), files[index]? = some file →
      ∀ content, tree.read file = .ok content →
        ∃ deflated stream, deflatedLine file deflated ∈ report.output ∧
          deflated.output = file.addSuffix streamSuffix directory? ∧
          after.read deflated.output = .ok stream ∧
          (Apart after directory? (files.eraseIdx index) file →
            inflateToSize stream content.length = .ok content) := by
  intro index file hfile content hread
  rcases deflateInTurns_eq_some hrun hcode with ⟨ready, results, hextends, htake, hreport⟩
  rcases FileSystem.read_eq_ok.mp (hextends.read_eq_ok hread) with ⟨place, hnames, hplace⟩
  have hgrows := Routine.Shared.grows_take ⟨deflating directory? capacity? files, ready⟩ turns
  rw [htake] at hgrows
  have hresolve := (hnames.of_grows hgrows).resolve (hgrows.present place (by rw [hplace]; rfl))
  let watched : Watched :=
    ⟨directory?, capacity?, files, after, index, file, content, place, hfile, hresolve⟩
  have hprogress := (@Watched.progress_start watched ready hplace).take turns
    (congrArg Routine.Shared.files htake)
  rw [htake] at hprogress
  have hlt : index < results.length := by
    have hlength : results.length = files.length := by
      rw [← hprogress.length_eq, List.length_map]
    rw [hlength]
    exact (List.getElem?_eq_some_iff.mp hfile).choose
  have hresult := List.getElem?_eq_getElem hlt
  generalize results[index] = result at hresult
  have hzip : (file, result) ∈ files.zip results :=
    List.mem_iff_getElem?.mpr ⟨index, List.getElem?_zip_eq_some.mpr ⟨hfile, hresult⟩⟩
  rw [hreport] at hcode
  rcases ok_of_code hcode hzip with ⟨deflated, hok, hline⟩
  rw [hok] at hresult
  have hunderway := hprogress.underway index file (.done (.ok deflated)) hfile
    (by rw [List.getElem?_map, hresult]; rfl)
  rcases hunderway.read_output rfl with ⟨houtput, stream, hstream, hkeeps⟩
  refine ⟨deflated, stream, ?_, houtput, hstream, ?_⟩
  · rw [hreport]
    exact hline
  · intro hapart
    have hdeflate := hkeeps rfl hapart
    exact (inflateToSize_of_deflateWithin (deflateToCapacity_eq_ok.mp hdeflate).right).right

def twoDirectories (name other : Path.Part) : FileSystem :=
  { nodes := [([['x']], .directory), ([['x'], name], .file [0x61]),
      ([['y']], .directory), ([['y'], other], .file [0x62])] }

/-- Files of different names go into one directory, and both can be had back. -/
theorem deflate_two_names :
    ∃ report after,
      deflateInTurns [⟨['x', '/', 'a']⟩, ⟨['y', '/', 'b']⟩] (some ⟨['o']⟩) none [0, 1, 1, 0]
        (twoDirectories ['a'] ['b']) = some (report, after) ∧
      (∃ stream, after.read ⟨['o', '/', 'a', '.', 'z', 'z']⟩ = .ok stream ∧
        inflateToSize stream 1 = .ok [0x61]) ∧
      ∃ stream, after.read ⟨['o', '/', 'b', '.', 'z', 'z']⟩ = .ok stream ∧
        inflateToSize stream 1 = .ok [0x62] := by
  have hrun : (deflateInTurns [⟨['x', '/', 'a']⟩, ⟨['y', '/', 'b']⟩] (some ⟨['o']⟩) none
      [0, 1, 1, 0] (twoDirectories ['a'] ['b'])).map
      (fun result => (result.1.code,
        decide (Apart result.2 (some ⟨['o']⟩) [⟨['y', '/', 'b']⟩] ⟨['x', '/', 'a']⟩),
        decide (Apart result.2 (some ⟨['o']⟩) [⟨['x', '/', 'a']⟩] ⟨['y', '/', 'b']⟩))) =
      some (0, true, true) := by
    decide +kernel
  rcases Option.map_eq_some_iff.mp hrun with ⟨⟨report, after⟩, hsome, hends⟩
  rw [Prod.mk.injEq, Prod.mk.injEq, decide_eq_true_eq, decide_eq_true_eq] at hends
  rcases hends with ⟨hcode, hfirst, hsecond⟩
  refine ⟨report, after, hsome, ?_, ?_⟩
  · rcases deflate_keeps_files hsome hcode 0 ⟨['x', '/', 'a']⟩ rfl [0x61] (by decide)
      with ⟨deflated, stream, _, houtput, hread, hinflate⟩
    rw [houtput] at hread
    exact ⟨stream, hread, hinflate hfirst⟩
  · rcases deflate_keeps_files hsome hcode 1 ⟨['y', '/', 'b']⟩ rfl [0x62] (by decide)
      with ⟨deflated, stream, _, houtput, hread, hinflate⟩
    rw [houtput] at hread
    exact ⟨stream, hread, hinflate hsecond⟩

/--
The outputs of two files of one name go to the same place of one directory, and the one that
is written last is there: not every file that a command reports can be had back.
-/
theorem not_every_file_kept :
    ¬ ∀ (tree after : FileSystem) (files : List Path) (directory? : Option Path)
        (capacity? : Option Nat) (turns : List Nat) (report : Report),
      files.Pairwise (fun file other => tree.resolve file ≠ tree.resolve other) →
      (∀ file ∈ files, ∃ content, tree.read file = .ok content) →
      deflateInTurns files directory? capacity? turns tree = some (report, after) →
      report.code = 0 →
      ∀ file ∈ files, ∀ content, tree.read file = .ok content →
        ∃ stream, after.read (file.addSuffix streamSuffix directory?) = .ok stream ∧
          inflateToSize stream content.length = .ok content := by
  intro hall
  have hrun : (deflateInTurns [⟨['x', '/', 'a']⟩, ⟨['y', '/', 'a']⟩] (some ⟨['o']⟩) none
      [0, 0, 1, 1] (twoDirectories ['a'] ['a'])).map
      (fun result => (result.1.code, result.2.read ⟨['o', '/', 'a', '.', 'z', 'z']⟩)) =
      some (0, .ok [0x78, 0x9c, 0x4a, 0x02, 0x0c, 0x00, 0x00, 0x63, 0x00, 0x63]) := by
    decide +kernel
  rcases Option.map_eq_some_iff.mp hrun with ⟨⟨report, after⟩, hsome, hends⟩
  rw [Prod.mk.injEq] at hends
  rcases hends with ⟨hcode, hlast⟩
  rcases hall _ after _ _ _ _ report (by decide)
    (List.forall_mem_cons.mpr ⟨⟨[0x61], by decide⟩, List.forall_mem_singleton.mpr
      ⟨[0x62], by decide⟩⟩)
    hsome hcode ⟨['x', '/', 'a']⟩ List.mem_cons_self [0x61] (by decide) with
    ⟨stream, hread, hinflate⟩
  have hstream := hlast.symm.trans hread
  rw [Except.ok.injEq] at hstream
  rw [← hstream] at hinflate
  revert hinflate
  decide +kernel

end Command
end BoundedZlib
