import BoundedZlib.Proofs.RestoredFiles

/-!
# Commands on one file

Such a command reads what it needs, makes its library call, and writes one file as the last
thing that can fail.  So whatever fails, it leaves the files as they are and prints nothing,
and if nothing does, it writes to the one place that its target names.  A target that is
derived from the name of the input stands for another place than the input, unless one of
them is a link.
-/

namespace BoundedZlib
namespace Command

/-!
## Programs that fail before they change anything
-/

/-- A program fails and leaves the files as they are, or it gives a value and ends well. -/
inductive Attempts {α : Type} (program : ExceptT Problem (StateM FileSystem) α)
    (files : FileSystem) (good : α → FileSystem → Prop) : Prop where
  | fails (problem : Problem) (hrun : program.run.run files = (.error problem, files))
  | yields {value : α} {after : FileSystem} (hyields : Yields program files value after)
      (hgood : good value after)

section Attempting

variable {α β : Type} {files : FileSystem}
variable {program : ExceptT Problem (StateM FileSystem) α}
variable {follow : α → ExceptT Problem (StateM FileSystem) β}
variable {known : α → Prop} {good : β → FileSystem → Prop}

theorem attempts_pure {value : β} (hgood : good value files) :
    Attempts (pure value) files good :=
  .yields (yields_pure value files) hgood

/-- Where what comes first changes nothing, a failure of either part leaves the files alone. -/
theorem Attempts.bind
    (hprogram : Attempts program files fun value after => after = files ∧ known value)
    (hfollow : ∀ value, known value → Attempts (follow value) files good) :
    Attempts (program >>= follow) files good := by
  have hbind : (program >>= follow).run = program.run >>= ExceptT.bindCont follow := rfl
  cases hprogram with
  | fails problem hrun =>
      apply Attempts.fails problem
      rw [hbind, StateT.run_bind, hrun]
      rfl
  | @yields value after hyields hknown =>
      rw [hknown.left] at hyields
      cases hfollow value hknown.right with
      | yields hlast hgood => exact .yields (hyields.bind hlast) hgood
      | fails problem hrun =>
          apply Attempts.fails problem
          rw [hbind, StateT.run_bind, show program.run.run files = _ from hyields]
          exact hrun

theorem Attempts.bind_pure {finish : α → β} {ended : α → FileSystem → Prop}
    (hprogram : Attempts program files ended)
    (hended : ∀ value after, ended value after → good (finish value) after) :
    Attempts (program >>= fun value => pure (finish value)) files good := by
  have hbind : (program >>= fun value => pure (finish value)).run =
      program.run >>= ExceptT.bindCont fun value => pure (finish value) := rfl
  cases hprogram with
  | yields hyields hvalue =>
      exact .yields (hyields.bind (yields_pure _ _)) (hended _ _ hvalue)
  | fails problem hrun =>
      apply Attempts.fails problem
      rw [hbind, StateT.run_bind, hrun]
      rfl

theorem attempts_read (path : Path) :
    Attempts (stored (FileSystem.storage.read path)) files fun bytes after =>
      after = files ∧ files.read path = .ok bytes := by
  cases hread : files.read path with
  | ok bytes => exact .yields (yields_read hread) ⟨rfl, rfl⟩
  | error error =>
      apply Attempts.fails (.storage error)
      show ((files.read path).mapError Problem.storage, files) = _
      rw [hread]
      rfl

theorem attempts_called (result : Except Failure α) :
    Attempts (called result) files fun value after => after = files ∧ result = .ok value := by
  cases result with
  | ok value => exact .yields (yields_called rfl files) ⟨rfl, rfl⟩
  | error failure => exact .fails (.call failure) rfl

theorem attempts_write (path : Path) (bytes : Bytes) :
    Attempts (stored (FileSystem.storage.write path bytes)) files fun _ after =>
      files.write path bytes = .ok after := by
  cases hwrite : files.write path bytes with
  | ok after => exact .yields (yields_write hwrite) rfl
  | error error =>
      apply Attempts.fails (.storage error)
      rw [stored, ExceptT.run_mk, StateT.run_bind, FileSystem.run_write_error hwrite]
      rfl

theorem attempts_listing (names? : Option Path) :
    Attempts (listing names?) files fun names after =>
      after = files ∧ Lists files names names? := by
  cases names? with
  | none => exact attempts_pure ⟨rfl, rfl⟩
  | some path =>
      apply (attempts_read path).bind
      intro bytes hread
      exact attempts_pure ⟨rfl, hread⟩

theorem attempts_exchange {call : Bytes → Except Failure Bytes} {file output : Path}
    {finish : Bytes → Bytes → β} {ended : FileSystem → Prop}
    (hended : ∀ data made after, files.read file = .ok data → call data = .ok made →
      files.write output made = .ok after → ended after) :
    Attempts (do
      let data ← stored (FileSystem.storage.read file)
      let made ← called (call data)
      stored (FileSystem.storage.write output made)
      return finish data made) files fun _ => ended := by
  apply (attempts_read file).bind
  intro data hread
  apply (attempts_called (call data)).bind
  intro made hcall
  apply (attempts_write output made).bind_pure
  intro _ after hwrite
  exact hended data made after hread hcall hwrite

end Attempting

/-!
## What a command makes
-/

def file? : Command → Option Path
  | deflate _ _ _ => none
  | inflate file _ _ => some file
  | info file _ => some file
  | pack file _ _ => some file
  | resource file _ _ _ _ => some file

def output? : Command → Option Path
  | inflate _ _ output? => output?
  | pack _ output? _ => output?
  | resource _ _ _ _ output? => output?
  | _ => none

/-- The path that a command writes to: the one that was given, or one derived from the file's. -/
def target? : Command → Option Path
  | inflate file _ output? => some (output?.getD (file.dropSuffix streamSuffix plainSuffix))
  | pack file output? _ => some (output?.getD (file.addSuffix resourceSuffix none))
  | resource file _ _ _ output? => some (output?.getD (file.dropSuffix resourceSuffix plainSuffix))
  | _ => none

def size? : Command → Option Nat
  | inflate _ size _ => some size
  | resource _ size _ _ _ => some size
  | _ => none

/-- The library call of a command, with what the files hold, gives this content. -/
inductive Makes (files : FileSystem) : Command → Bytes → Prop where
  | inflate {file : Path} {size : Nat} {output? : Option Path} {stream content : Bytes}
      (hread : files.read file = .ok stream)
      (hcall : inflateToSize stream size = .ok content) :
      Makes files (.inflate file size output?) content
  | pack {file : Path} {output? : Option Path} {order : ByteOrder} {data packed : Bytes}
      (hread : files.read file = .ok data)
      (hcall : Resource.pack data 0 order = .ok packed) :
      Makes files (.pack file output? order) packed
  | resource {file : Path} {size : Nat} {names? output? : Option Path} {order : ByteOrder}
      {data content : Bytes} {names : Resource.NameTable}
      (hread : files.read file = .ok data)
      (hnames : Lists files names names?)
      (hcall : Resource.Image.unpack? { names := names, order := order } size
        Resource.ampleLayers data = some (.ok content)) :
      Makes files (.resource file size names? order output?) content

/-- A command writes what it makes to its target; one without target changes nothing. -/
inductive Writes (command : Command) (files : FileSystem) : FileSystem → Prop where
  | nothing (htarget : command.target? = none) : Writes command files files
  | content {target : Path} {content : Bytes} {after : FileSystem}
      (htarget : command.target? = some target)
      (hmakes : Makes files command content)
      (hwrite : files.write target content = .ok after) :
      Writes command files after

section Making

variable {command : Command} {files after : FileSystem} {content : Bytes}

theorem Makes.length_eq (hmakes : Makes files command content) {size : Nat}
    (hsize : command.size? = some size) : content.length = size := by
  cases hmakes with
  | inflate _ hcall =>
      rw [← Option.some.inj hsize]
      exact (inflateToSize_eq_ok.mp hcall).right.left
  | pack _ _ => cases hsize
  | resource _ _ hcall =>
      rw [← Option.some.inj hsize]
      exact Resource.length_eq_of_unpack? hcall

theorem getLast?_target_ne {file target : Path} {source : Location}
    (hfile : command.file? = some file) (htarget : command.target? = some target)
    (houtput : command.output? = none) (hnames : files.Names file source) :
    (Path.split target.chars).getLast? ≠ (Path.split file.chars).getLast? := by
  cases command with
  | deflate _ _ _ => cases hfile
  | info _ _ => cases htarget
  | inflate _ _ output? =>
      cases hfile
      cases htarget
      cases (show output? = none from houtput)
      exact hnames.getLast?_dropSuffix_ne (by decide) (by decide) (by decide)
  | resource _ _ _ _ output? =>
      cases hfile
      cases htarget
      cases (show output? = none from houtput)
      exact hnames.getLast?_dropSuffix_ne (by decide) (by decide) (by decide)
  | pack file output? _ =>
      cases hfile
      cases htarget
      cases (show output? = none from houtput)
      exact hnames.getLast?_addSuffix_ne (by decide) (by decide) none

theorem endsInLink_of_names {file target : Path} {place : Location}
    (hfile : command.file? = some file) (htarget : command.target? = some target)
    (houtput : command.output? = none) (hnames : files.Names file place)
    (hwritten : files.Names target place) : files.EndsInLink file ∨ files.EndsInLink target := by
  by_contra hlinks
  rw [not_or] at hlinks
  have hlast := getLast?_target_ne hfile htarget houtput hnames
  exact hnames.ne_of_getLast?_ne hwritten hlinks.left hlinks.right hlast rfl

theorem Makes.exits (hmakes : Makes files command content) {target : Path}
    (htarget : command.target? = some target) (hwrite : files.write target content = .ok after) :
    command.Exits files 0 after := by
  cases hmakes with
  | inflate hread hcall =>
      cases htarget
      exact exits_inflate hread hcall hwrite
  | pack hread hcall =>
      cases htarget
      exact exits_pack hread hcall hwrite
  | resource hread hnames hcall =>
      cases htarget
      exact exits_resource hread hnames hcall hwrite

end Making

/-!
## Running a command
-/

/--
A command has no end or ends without success, and leaves the files as they are and prints
nothing, or it ends well.
-/
inductive Concludes (command : Command) (files : FileSystem) (good : FileSystem → Prop) : Prop where
  | endless (hrun : (command.run FileSystem.storage).run files = (none, files))
  | declines {report : Report}
      (hrun : (command.run FileSystem.storage).run files = (some report, files))
      (hcode : report.code ≠ 0)
      (houtput : report.output = [])
  | succeeds {report : Report} {after : FileSystem}
      (hrun : (command.run FileSystem.storage).run files = (some report, after))
      (hcode : report.code = 0)
      (hgood : good after)

theorem problem_declines (problem : Problem) :
    (Report.problem [] [] problem).code ≠ 0 ∧ (Report.problem [] [] problem).output = [] := by
  unfold Report.problem
  split
  · exact ⟨Nat.succ_ne_zero _, rfl⟩
  · exact ⟨Nat.succ_ne_zero _, rfl⟩

section Concluding

variable {command : Command} {files : FileSystem} {good : FileSystem → Prop}

theorem concludes_of_problem {problem : Problem}
    (hrun : (command.run FileSystem.storage).run files =
      (some (.problem [] [] problem), files)) : Concludes command files good :=
  .declines hrun (problem_declines problem).left (problem_declines problem).right

theorem concludes_of_attempts {program : ExceptT Problem (StateM FileSystem) (List String)}
    (hcommand : command.run FileSystem.storage = some <$> reported program)
    (hprogram : Attempts program files fun _ => good) : Concludes command files good := by
  cases hprogram with
  | yields hyields hgood =>
      rcases exits_of_yields hcommand hyields with ⟨report, hrun, hcode⟩
      exact .succeeds hrun hcode hgood
  | fails problem hrun =>
      apply concludes_of_problem
      rw [hcommand, StateT.run_map, reported, StateT.run_bind, hrun]
      rfl

theorem attempts_info (file : Path) (json : Bool) :
    Attempts (runInfo FileSystem.storage file json) files fun _ after => after = files := by
  apply (attempts_read file).bind
  intro data _
  cases StreamHeader.ofBytes? data with
  | none => exact .fails (.tooShort file) rfl
  | some header => exact attempts_pure rfl

theorem attempts_resource (file : Path) (size : Nat) (names? : Option Path) (order : ByteOrder)
    (output? : Option Path) :
    Attempts (runResource FileSystem.storage file size names? order output?) files
      fun lines? after => lines? = none ∧ after = files ∨ lines?.isSome = true ∧
        Writes (.resource file size names? order output?) files after := by
  rw [runResource_eq]
  apply (attempts_read file).bind
  intro data hread
  apply (attempts_listing names?).bind
  intro names hnames
  rw [unpacking]
  cases hunpack : Resource.Image.unpack? { names := names, order := order } size
    Resource.ampleLayers data with
  | none => exact attempts_pure (Or.inl ⟨rfl, rfl⟩)
  | some result =>
      apply (attempts_called result).bind
      intro content hresult
      rw [hresult] at hunpack
      apply (attempts_write _ content).bind_pure
      intro _ after hwrite
      exact Or.inr ⟨rfl, .content rfl (.resource hread hnames hunpack) hwrite⟩

/-- Every command on one file does nothing or all of what it should. -/
theorem concludes_of_file? {file : Path} (hfile : command.file? = some file) :
    Concludes command files (Writes command files) := by
  cases command with
  | deflate _ _ _ => cases hfile
  | inflate file size output? =>
      apply concludes_of_attempts rfl
      apply attempts_exchange
      intro stream content after hread hcall hwrite
      exact .content rfl (.inflate hread hcall) hwrite
  | info file json =>
      apply concludes_of_attempts rfl
      cases attempts_info file json with
      | fails problem hrun => exact .fails problem hrun
      | yields hyields hsame => exact .yields hyields (hsame ▸ .nothing rfl)
  | pack file output? order =>
      apply concludes_of_attempts rfl
      apply attempts_exchange
      intro data packed after hread hcall hwrite
      exact .content rfl (.pack hread (Failure.lift_eq_ok.mp hcall)) hwrite
  | resource file size names? order output? =>
      cases attempts_resource file size names? order output? with
      | fails problem hrun => exact concludes_of_problem (run_resource hrun)
      | @yields lines? after hyields hends =>
          have hrun := run_resource hyields
          rcases hends with ⟨hnone, hsame⟩ | ⟨hsome, hwrites⟩
          · rw [hnone, hsame] at hrun
            exact .endless hrun
          · rcases Option.isSome_iff_exists.mp hsome with ⟨lines, hlines⟩
            rw [hlines] at hrun
            exact .succeeds hrun rfl hwrites

section Concluded

variable {after : FileSystem} {report? : Option Report}

theorem Concludes.unchanged (hconcludes : Concludes command files good)
    (hrun : (command.run FileSystem.storage).run files = (report?, after))
    (hcodes : ∀ report, report? = some report → report.code ≠ 0) :
    after = files ∧ ∀ report, report? = some report → report.output = [] := by
  cases hconcludes with
  | endless hends =>
      cases hrun.symm.trans hends
      exact ⟨rfl, fun _ hreport => by cases hreport⟩
  | declines hends _ houtput =>
      cases hrun.symm.trans hends
      exact ⟨rfl, fun _ hreport => Option.some.inj hreport ▸ houtput⟩
  | succeeds hends hcode _ =>
      cases hrun.symm.trans hends
      exact absurd hcode (hcodes _ rfl)

theorem Concludes.good_of_code {report : Report} (hconcludes : Concludes command files good)
    (hrun : (command.run FileSystem.storage).run files = (some report, after))
    (hcode : report.code = 0) : good after := by
  cases hconcludes with
  | endless hends => cases hrun.symm.trans hends
  | declines hends hfailed _ =>
      cases hrun.symm.trans hends
      exact absurd hcode hfailed
  | succeeds hends _ hgood =>
      cases hrun.symm.trans hends
      exact hgood

theorem Concludes.after_eq (hconcludes : Concludes command files good)
    (hrun : (command.run FileSystem.storage).run files = (report?, after))
    (hgood : ∀ last, good last → last = files) : after = files := by
  cases hconcludes with
  | endless hends => exact congrArg Prod.snd (hrun.symm.trans hends)
  | declines hends _ _ => exact congrArg Prod.snd (hrun.symm.trans hends)
  | succeeds hends _ hlast =>
      cases hrun.symm.trans hends
      exact hgood _ hlast

end Concluded

/-!
## What has changed
-/

/-- One place is written, named by the target: this content is there, and all else is as it was. -/
structure ChangesOnly (files after : FileSystem) (target : Path) (place : Location)
    (content : Bytes) : Prop where
  names : files.Names target place
  links : after.links = files.links
  holds : after.get? place = some (.file content)
  others : ∀ other, other ≠ place → after.get? other = files.get? other
  reads : after.read target = .ok content
  keeps : ∀ path bytes, files.read path = .ok bytes → ¬ files.Names path place →
    after.read path = .ok bytes

theorem exists_changesOnly {after : FileSystem} {target : Path} {content : Bytes}
    (hwrite : files.write target content = .ok after) :
    ∃ place, ChangesOnly files after target place content := by
  rcases FileSystem.write_eq_ok.mp hwrite with ⟨place, hnames, hplace, hafter⟩
  refine ⟨place, hnames, (FileSystem.grows_write hwrite).links, ?_, ?_,
    FileSystem.read_write hwrite, ?_⟩
  · rw [hafter, FileSystem.get?_set_self (FileSystem.isOutside_of_get? hplace)]
  · intro other hne
    rw [hafter, FileSystem.get?_set_other hne]
  · intro path bytes hread helsewhere
    exact FileSystem.read_of_write hwrite hnames hread helsewhere

/--
A command on one file that does not report success leaves all files as they are and prints
nothing.  If it reports success, one place was written, where its target is: it holds what
the library call gives, which has the size that was given, and the file itself is elsewhere
unless the target was given or one of the two is a link.  This is so exactly if the call gives
something that can be written; a command without target changes nothing.
-/
theorem single_file_commands_are_atomic {file : Path} {after : FileSystem}
    {report? : Option Report} (hfile : command.file? = some file)
    (hrun : (command.run FileSystem.storage).run files = (report?, after)) :
    ((∀ report, report? = some report → report.code ≠ 0) →
      after = files ∧ ∀ report, report? = some report → report.output = []) ∧
    (command.target? = none → after = files) ∧
    (∀ report target, report? = some report → report.code = 0 →
      command.target? = some target →
      ∃ content place, Makes files command content ∧
        ChangesOnly files after target place content ∧
        (∀ size, command.size? = some size → content.length = size) ∧
        (command.output? = none → files.Names file place →
          files.EndsInLink file ∨ files.EndsInLink target)) ∧
    ∀ content target last, Makes files command content → command.target? = some target →
      files.write target content = .ok last →
      after = last ∧ ∃ report, report? = some report ∧ report.code = 0 := by
  have hconcludes := @concludes_of_file? command files file hfile
  refine ⟨hconcludes.unchanged hrun, ?_, ?_, ?_⟩
  · intro htarget
    apply hconcludes.after_eq hrun
    intro last hwrites
    cases hwrites with
    | nothing _ => rfl
    | content hsome _ _ => cases htarget.symm.trans hsome
  · intro report target hreport hcode htarget
    rw [hreport] at hrun
    cases hconcludes.good_of_code hrun hcode with
    | nothing hnone => cases htarget.symm.trans hnone
    | @content other content after hother hmakes hwrite =>
        cases htarget.symm.trans hother
        rcases exists_changesOnly hwrite with ⟨place, hchanges⟩
        refine ⟨content, place, hmakes, hchanges, fun size => hmakes.length_eq, ?_⟩
        intro houtput hsame
        exact endsInLink_of_names hfile htarget houtput hsame hchanges.names
  · intro content target last hmakes htarget hwrite
    rcases hmakes.exits htarget hwrite with ⟨report, hends, hcode⟩
    cases hrun.symm.trans hends
    exact ⟨rfl, report, rfl, hcode⟩

end Concluding

def letterTree : FileSystem :=
  { nodes := [([['a', '.', 'z', 'z']],
      .file [0x78, 0x9c, 0x4a, 0x04, 0x0c, 0x00, 0x00, 0x62, 0x00, 0x62])] }

theorem inflateToSize_letter :
    inflateToSize [0x78, 0x9c, 0x4a, 0x04, 0x0c, 0x00, 0x00, 0x62, 0x00, 0x62] 1 = .ok [0x61] := by
  decide +kernel

/-- The letter is put next to its stream, and nothing is if the size that is given is wrong. -/
theorem inflate_letter_or_nothing :
    (∃ report after place,
      ((inflate ⟨['a', '.', 'z', 'z']⟩ 1 none).run FileSystem.storage).run letterTree =
        (some report, after) ∧
      report.code = 0 ∧ ChangesOnly letterTree after ⟨['a']⟩ place [0x61] ∧
      ¬ letterTree.Names ⟨['a', '.', 'z', 'z']⟩ place) ∧
    ∃ report,
      ((inflate ⟨['a', '.', 'z', 'z']⟩ 2 none).run FileSystem.storage).run letterTree =
        (some report, letterTree) ∧
      report.code ≠ 0 ∧ report.output = [] := by
  constructor
  · generalize hrun : ((inflate ⟨['a', '.', 'z', 'z']⟩ 1 none).run FileSystem.storage).run
      letterTree = ended
    rcases ended with ⟨report?, after⟩
    rcases single_file_commands_are_atomic rfl hrun with ⟨_, _, hchanged, hsucceeds⟩
    rcases hsucceeds [0x61] ⟨['a']⟩ _ (.inflate rfl inflateToSize_letter) rfl rfl with
      ⟨hafter, report, hreport, hcode⟩
    rcases hchanged report ⟨['a']⟩ hreport hcode rfl with
      ⟨content, place, _, hchanges, _, hapart⟩
    have hread := hchanges.reads
    rw [hafter] at hread
    have hcontent : [0x61] = content := Except.ok.inj hread
    refine ⟨report, after, place, hreport ▸ rfl, hcode, hcontent ▸ hchanges, fun hnames => ?_⟩
    rcases hapart rfl hnames with hlink | hlink
    · exact hlink.links_ne_nil rfl
    · exact hlink.links_ne_nil rfl
  · have hcode : (((inflate ⟨['a', '.', 'z', 'z']⟩ 2 none).run FileSystem.storage).run
        letterTree).1.map Report.code = some 1 := by
      decide +kernel
    generalize hrun : ((inflate ⟨['a', '.', 'z', 'z']⟩ 2 none).run FileSystem.storage).run
      letterTree = ended at hcode
    rcases ended with ⟨report?, after⟩
    rcases Option.map_eq_some_iff.mp hcode with ⟨report, hreport, hcode⟩
    rw [show report? = some report from hreport] at hrun ⊢
    have hfailed : report.code ≠ 0 := hcode ▸ Nat.one_ne_zero
    rcases single_file_commands_are_atomic rfl hrun with ⟨hunchanged, _⟩
    rcases hunchanged (fun other hother => Option.some.inj hother ▸ hfailed) with
      ⟨hafter, houtput⟩
    exact ⟨report, hafter ▸ rfl, hfailed, houtput report rfl⟩

/--
Success does not mean that a file has changed, since the target may hold the content already,
nor that the input has not, since the target may be a link to it.
-/
theorem success_may_change_nothing_or_the_input :
    (¬ ∀ (files after : FileSystem) (file : Path) (size : Nat),
      (inflate file size none).Exits files 0 after →
        ∃ place, after.get? place ≠ files.get? place) ∧
    ¬ ∀ (files after : FileSystem) (file : Path) (size : Nat),
      (inflate file size none).Exits files 0 after → after.read file = files.read file := by
  constructor
  · intro hall
    let both : FileSystem := letterTree.set [['a']] (.file [0x61])
    have hexits : (inflate ⟨['a', '.', 'z', 'z']⟩ 1 none).Exits both 0
        (both.set [['a']] (.file [0x61])) :=
      exits_inflate rfl inflateToSize_letter rfl
    rcases hall _ _ _ _ hexits with ⟨place, hplace⟩
    by_cases hsame : place = [['a']]
    · rw [hsame] at hplace
      exact hplace rfl
    · exact hplace (FileSystem.get?_set_other hsame)
  · intro hall
    let linked : FileSystem :=
      { letterTree with links := [([['a']], ⟨[], [['a', '.', 'z', 'z']]⟩)] }
    have hexits : (inflate ⟨['a', '.', 'z', 'z']⟩ 1 none).Exits linked 0
        (linked.set [['a', '.', 'z', 'z']] (.file [0x61])) :=
      exits_inflate rfl inflateToSize_letter rfl
    exact absurd (hall _ _ _ _ hexits) (by decide)

end Command
end BoundedZlib
