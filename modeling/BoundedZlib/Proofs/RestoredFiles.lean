import BoundedZlib.Proofs.FileAccess
import BoundedZlib.Proofs.GivenArguments
import BoundedZlib.Proofs.Packing

/-!
# Files that are stored and restored

What one command stores of a file next to it, its counterpart puts back: the suffix that one
adds to the name is what the other drops, the size that is given is that of the content, and
the calls are inverse to each other.
-/

namespace BoundedZlib
namespace Command

/-!
## Programs that do not fail
-/

def Yields {α : Type} (program : ExceptT Problem (StateM FileSystem) α) (files : FileSystem)
    (value : α) (after : FileSystem) : Prop :=
  program.run.run files = (.ok value, after)

section Yielding

variable {α β : Type} {program : ExceptT Problem (StateM FileSystem) α}
variable {files middle after : FileSystem} {path : Path} {bytes : Bytes}

theorem Yields.bind {follow : α → ExceptT Problem (StateM FileSystem) β} {value : α} {last : β}
    (hyields : Yields program files value middle)
    (hfollow : Yields (follow value) middle last after) :
    Yields (program >>= follow) files last after := by
  have hbind : (program >>= follow).run = program.run >>= ExceptT.bindCont follow := rfl
  rw [Yields, hbind, StateT.run_bind, show program.run.run files = _ from hyields]
  exact hfollow

theorem yields_pure (value : α) (files : FileSystem) :
    Yields (pure value) files value files := rfl

theorem yields_called {result : Except Failure α} {value : α} (hresult : result = .ok value)
    (files : FileSystem) : Yields (called result) files value files := by
  rw [hresult]
  rfl

theorem yields_read (hread : files.read path = .ok bytes) :
    Yields (stored (FileSystem.storage.read path)) files bytes files := by
  show ((files.read path).mapError Problem.storage, files) = _
  rw [hread]
  rfl

theorem yields_write (hwrite : files.write path bytes = .ok after) :
    Yields (stored (FileSystem.storage.write path bytes)) files () after := by
  rw [Yields, stored, ExceptT.run_mk, StateT.run_bind, FileSystem.run_write hwrite]
  rfl

theorem yields_exchange {call : Bytes → Except Failure Bytes} {output : Path} {made : Bytes}
    {finish : Bytes → Bytes → α} (hread : files.read path = .ok bytes)
    (hcall : call bytes = .ok made) (hwrite : files.write output made = .ok after) :
    Yields (do
      let data ← stored (FileSystem.storage.read path)
      let made ← called (call data)
      stored (FileSystem.storage.write output made)
      return finish data made) files (finish bytes made) after :=
  (yields_read hread).bind ((yields_called hcall files).bind
    ((yields_write hwrite).bind (yields_pure _ after)))

theorem run_reported {program : ExceptT Problem (StateM FileSystem) (List String)}
    {lines : List String} (hyields : Yields program files lines after) :
    (reported program).run files = (.success lines, after) := by
  rw [reported, StateT.run_bind, show program.run.run files = _ from hyields]
  rfl

end Yielding

/-!
## Commands
-/

def Exits (command : Command) (files : FileSystem) (code : Nat) (after : FileSystem) : Prop :=
  ∃ report, (command.run FileSystem.storage).run files = (some report, after) ∧
    report.code = code

section Running

variable {files after : FileSystem} {path : Path} {content stream packed : Bytes}
variable {order : ByteOrder}

theorem exits_of_yields {program : ExceptT Problem (StateM FileSystem) (List String)}
    {command : Command} (hcommand : command.run FileSystem.storage = some <$> reported program)
    {lines : List String} (hyields : Yields program files lines after) :
    command.Exits files 0 after := by
  refine ⟨.success lines, ?_, rfl⟩
  rw [hcommand, StateT.run_map, run_reported hyields]
  rfl

theorem exits_of_yields_deflated {deflated : Deflated}
    (hyields : Yields (deflateFile FileSystem.storage none none path) files deflated after) :
    (deflate [path] none none).Exits files 0 after := by
  refine ⟨deflateReport [(path, .ok deflated)], ?_, rfl⟩
  rw [run, runDeflate]
  simp only [StateT.run_map, StateT.run_bind, List.mapM_cons, List.mapM_nil, pure_bind, bind_assoc]
  rw [show (deflateFile FileSystem.storage none none path).run.run files = _ from hyields]
  rfl

theorem exits_deflate (hread : files.read path = .ok content)
    (hdeflate : deflateToBound content = .ok stream)
    (hwrite : files.write (path.addSuffix streamSuffix none) stream = .ok after) :
    (deflate [path] none none).Exits files 0 after := by
  have hbound := (deflateToBound_eq_ok.mp hdeflate).left.right
  have hcall : deflateToCapacity content (compressBound content.length) = .ok stream :=
    deflateToCapacity_eq_ok.mpr ⟨Nat.le_trans hbound (by decide), hdeflate⟩
  exact exits_of_yields_deflated (yields_exchange hread hcall hwrite)

theorem exits_pack {output? : Option Path} (hread : files.read path = .ok content)
    (hpack : Resource.pack content 0 order = .ok packed)
    (hwrite : files.write (output?.getD (path.addSuffix resourceSuffix none)) packed =
      .ok after) :
    (pack path output? order).Exits files 0 after :=
  exits_of_yields rfl (yields_exchange hread (Failure.lift_eq_ok.mpr hpack) hwrite)

theorem exits_inflate {size : Nat} {output? : Option Path} (hread : files.read path = .ok stream)
    (hinflate : inflateToSize stream size = .ok content)
    (hwrite : files.write (output?.getD (path.dropSuffix streamSuffix plainSuffix)) content =
      .ok after) :
    (inflate path size output?).Exits files 0 after :=
  exits_of_yields rfl (yields_exchange hread hinflate hwrite)

def Lists (files : FileSystem) (names : Resource.NameTable) : Option Path → Prop
  | none => names = defaultNames
  | some path => files.read path = .ok names.bytes

def listing : Option Path → ExceptT Problem (StateM FileSystem) Resource.NameTable
  | none => pure defaultNames
  | some path => do
      let bytes ← stored (FileSystem.storage.read path)
      return ⟨bytes⟩

theorem yields_listing {names : Resource.NameTable} {names? : Option Path}
    (hnames : Lists files names names?) : Yields (listing names?) files names files := by
  cases names? with
  | none => exact hnames ▸ yields_pure names files
  | some path => exact (yields_read hnames).bind (yields_pure names files)

def unpacking (size : Nat) (order : ByteOrder) (file output : Path) (data : Bytes)
    (names : Resource.NameTable) : ExceptT Problem (StateM FileSystem) (Option (List String)) :=
  match Resource.Image.unpack? { names := names, order := order } size Resource.ampleLayers
      data with
  | none => return none
  | some result => do
      let content ← called result
      stored (FileSystem.storage.write output content)
      return some [Report.line file output data.length content.length]

theorem runResource_eq (file : Path) (size : Nat) (names? output? : Option Path) :
    runResource FileSystem.storage file size names? order output? = (do
      let data ← stored (FileSystem.storage.read file)
      let names ← listing names?
      unpacking size order file (output?.getD (file.dropSuffix resourceSuffix plainSuffix)) data
        names) := by
  refine congrArg (stored (FileSystem.storage.read file) >>= ·) (funext fun data => ?_)
  cases names? with
  | none => rfl
  | some path => exact (bind_assoc _ _ _).symm

def reportOf? : Except Problem (Option (List String)) → Option Report
  | .error problem => some (.problem [] [] problem)
  | .ok lines? => lines?.map .success

theorem run_resource {file : Path} {size : Nat} {names? output? : Option Path}
    {result : Except Problem (Option (List String))}
    (hrun : (runResource FileSystem.storage file size names? order output?).run.run files =
      (result, after)) :
    ((resource file size names? order output?).run FileSystem.storage).run files =
      (reportOf? result, after) := by
  rw [run, StateT.run_bind, hrun]
  cases result with
  | error problem => rfl
  | ok lines? => rfl

theorem exits_resource {size : Nat} {names : Resource.NameTable} {names? output? : Option Path}
    (hread : files.read path = .ok packed) (hnames : Lists files names names?)
    (hunpack : Resource.Image.unpack? { names := names, order := order } size
      Resource.ampleLayers packed = some (.ok content))
    (hwrite : files.write (output?.getD (path.dropSuffix resourceSuffix plainSuffix)) content =
      .ok after) :
    (resource path size names? order output?).Exits files 0 after := by
  generalize houtput : output?.getD (path.dropSuffix resourceSuffix plainSuffix) = output at hwrite
  have hyields : Yields (runResource FileSystem.storage path size names? order output?) files
      (some [Report.line path output packed.length content.length]) after := by
    rw [runResource_eq, houtput]
    refine (yields_read hread).bind ((yields_listing hnames).bind ?_)
    rw [unpacking, hunpack]
    exact (yields_called rfl files).bind ((yields_write hwrite).bind (yields_pure _ after))
  exact ⟨_, run_resource hyields, rfl⟩

end Running

theorem holds_defaultNames : defaultNames.Holds 0 Resource.Decompressor.zipName :=
  Resource.holds_zip

/-!
## Command lines
-/

def LineExits (arguments : List String) (files : FileSystem) (code : Nat) (after : FileSystem) :
    Prop :=
  ∃ command, Arguments.parse arguments = .ok command ∧ command.Exits files code after

/--
What one command line stores of a file at another path, a second one restores from there,
whatever else has become of the files.  Each writes one file and nothing else.
-/
def Restores (path output : Path) (content : Bytes) (store restore : List String) : Prop :=
  ∃ stored,
    (∀ files after, files.read path = .ok content → files.write output stored = .ok after →
      LineExits store files 0 after ∧ after.read output = .ok stored) ∧
    ∀ files after, files.read output = .ok stored → files.write path content = .ok after →
      LineExits restore files 0 after ∧ after.read path = .ok content

theorem chars_ne_nil_of_read {files : FileSystem} {path : Path} {bytes : Bytes}
    (hread : files.read path = .ok bytes) : path.chars ≠ [] := by
  rcases FileSystem.read_eq_ok.mp hread with ⟨place, hnames, _⟩
  cases hnames with
  | intro hends _ _ _ _ => exact hends.chars_ne_nil

section Restoring

variable {path : Path} {content stored : Bytes} {given back store restore : List String}

/-- What goes to the path with a suffix is restored if it is written to that without the suffix. -/
theorem restores_of_exits {suffix : Path.Part} (hsuffix : '/' ∉ suffix)
    (hstore : ∀ files after, files.read path = .ok content →
      files.write (path.addSuffix suffix none) stored = .ok after →
      LineExits store files 0 after)
    (hrestore : ∀ files after, files.read (path.addSuffix suffix none) = .ok stored →
      files.write ((path.addSuffix suffix none).dropSuffix suffix plainSuffix) content =
        .ok after →
      LineExits restore files 0 after) :
    Restores path (path.addSuffix suffix none) content store restore := by
  refine ⟨stored, ?_, ?_⟩
  · intro files after hread hwrite
    exact ⟨hstore files after hread hwrite, FileSystem.read_write hwrite⟩
  · intro files after hread hwrite
    have hback := FileSystem.write_dropSuffix_addSuffix hsuffix plainSuffix hread hwrite
    exact ⟨hrestore files after hread hback, FileSystem.read_write hwrite⟩

variable (hbound : compressBound content.length ≤ 4294967295)
include hbound

theorem size_le_maxNumber : content.length ≤ Arguments.maxNumber :=
  Nat.le_trans (length_le_of_compressBound_le hbound) (by decide)

theorem restores_deflated (hgiven : Arguments.Gives path [] given)
    (hback : Arguments.Gives (path.addSuffix streamSuffix none)
      ["--size", toString content.length] back) :
    Restores path (path.addSuffix streamSuffix none) content ("deflate" :: given)
      ("inflate" :: back) := by
  rcases exists_deflateToBound hbound with ⟨stream, hdeflate⟩
  have hinflate := (inflateToSize_of_deflateToBound hdeflate).right
  apply restores_of_exits (by decide)
  · intro files after hread hwrite
    have hparse := Arguments.parse_deflate (chars_ne_nil_of_read hread) hgiven
    exact ⟨_, hparse, exits_deflate hread hdeflate hwrite⟩
  · intro files after hread hwrite
    have hparse := Arguments.parse_inflate (chars_ne_nil_of_read hread)
      (size_le_maxNumber hbound) hback
    exact ⟨_, hparse, exits_inflate hread hinflate hwrite⟩

theorem restores_packed {order : ByteOrder} (hmarked : ¬ Resource.Header.IsMarked order content)
    (hgiven : Arguments.Gives path (Arguments.orderArguments order) given)
    (hback : Arguments.Gives (path.addSuffix resourceSuffix none)
      (["--size", toString content.length] ++ Arguments.orderArguments order) back) :
    Restores path (path.addSuffix resourceSuffix none) content ("pack" :: given)
      ("resource" :: back) := by
  rcases exists_deflateToBound hbound with ⟨stream, hdeflate⟩
  rcases Resource.exists_pack hdeflate hmarked 0 with ⟨packed, hpack⟩
  have hunpack := Resource.unpack?_of_pack holds_defaultNames hpack hmarked
    (show 1 < Resource.ampleLayers by decide)
  apply restores_of_exits (by decide)
  · intro files after hread hwrite
    have hparse := Arguments.parse_pack (chars_ne_nil_of_read hread) hgiven
    exact ⟨_, hparse, exits_pack hread hpack hwrite⟩
  · intro files after hread hwrite
    have hparse := Arguments.parse_resource (chars_ne_nil_of_read hread)
      (size_le_maxNumber hbound) hback
    exact ⟨_, hparse, exits_resource hread rfl hunpack hwrite⟩

end Restoring

/--
A file that was deflated is restored by inflating what was written, and a file that was
packed, unless it starts with the magic number itself, by unpacking that.
-/
theorem stored_files_are_restored {path : Path} {content : Bytes}
    (hbound : compressBound content.length ≤ 4294967295) :
    (∀ given back, Arguments.Gives path [] given →
      Arguments.Gives (path.addSuffix streamSuffix none)
        ["--size", toString content.length] back →
      Restores path (path.addSuffix streamSuffix none) content ("deflate" :: given)
        ("inflate" :: back)) ∧
    ∀ order, ¬ Resource.Header.IsMarked order content →
      ∀ given back, Arguments.Gives path (Arguments.orderArguments order) given →
        Arguments.Gives (path.addSuffix resourceSuffix none)
          (["--size", toString content.length] ++ Arguments.orderArguments order) back →
        Restores path (path.addSuffix resourceSuffix none) content ("pack" :: given)
          ("resource" :: back) := by
  constructor
  · intro given back hgiven hback
    exact restores_deflated hbound hgiven hback
  · intro order hmarked given back hgiven hback
    exact restores_packed hbound hmarked hgiven hback

/-- A file whose name is nothing but a suffix comes back under its name. -/
theorem stored_letter_is_restored :
    (∃ after last,
      LineExits ["deflate", ".zz"] { nodes := [([['.', 'z', 'z']], .file [0x61])] } 0 after ∧
      LineExits ["inflate", "--size", "1", ".zz.zz"] after 0 last ∧
      last.read ⟨['.', 'z', 'z']⟩ = .ok [0x61]) ∧
    ∃ after last,
      LineExits ["pack", "--big-endian", ".zz"]
        { nodes := [([['.', 'z', 'z']], .file [0x61])] } 0 after ∧
      LineExits ["resource", "--size", "1", "--big-endian", "--", ".zz.res"] after 0 last ∧
      last.read ⟨['.', 'z', 'z']⟩ = .ok [0x61] := by
  have hmarked : ¬ Resource.Header.IsMarked .big [0x61] := by
    intro h
    exact absurd h.length_le (by decide)
  have hread : FileSystem.read { nodes := [([['.', 'z', 'z']], .file [0x61])] } ⟨['.', 'z', 'z']⟩ =
      .ok [0x61] := by decide
  rcases @stored_files_are_restored ⟨['.', 'z', 'z']⟩ [0x61] (by decide) with
    ⟨hdeflated, hpacked⟩
  constructor
  · rcases hdeflated [".zz"] ["--size", "1", ".zz.zz"] (.before rfl) (.after rfl) with
      ⟨stored, hstore, hrestore⟩
    rcases hstore _ _ hread rfl with ⟨hexits, houtput⟩
    rcases hrestore _ _ houtput rfl with ⟨hback, hlast⟩
    exact ⟨_, _, hexits, hback, hlast⟩
  · rcases hpacked .big hmarked ["--big-endian", ".zz"]
      ["--size", "1", "--big-endian", "--", ".zz.res"] (.after rfl) .dashed with
      ⟨stored, hstore, hrestore⟩
    rcases hstore _ _ hread rfl with ⟨hexits, houtput⟩
    rcases hrestore _ _ houtput rfl with ⟨hback, hlast⟩
    exact ⟨_, _, hexits, hback, hlast⟩

end Command
end BoundedZlib
