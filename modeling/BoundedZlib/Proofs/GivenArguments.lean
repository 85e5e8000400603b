import BoundedZlib.CommandLine.Arguments
import Mathlib.Data.List.TakeWhile

/-!
# Arguments that are given

What a command line is read as, for command lines that give one file.  The file stands before
or after the switches, or behind two dashes, where it may look like a switch itself.
-/

namespace BoundedZlib
namespace Arguments

/-!
## Numbers
-/

theorem number?_toString {number : Nat} (hmax : number ≤ maxNumber) :
    number? (toString number).toList = some number := by
  have hdigits : (toString number).toList = Nat.toDigits 10 number := Nat.toList_repr
  have hall : ∀ c ∈ Nat.toDigits 10 number, c.isDigit = true := fun c hmem =>
    Nat.isDigit_of_mem_toDigits (by decide) (by decide) hmem
  have hvalue : (Nat.toDigits 10 number).foldl
      (fun number c => number * 10 + (c.toNat - '0'.toNat)) 0 = number := by
    have hread := @Nat.ofDigitChars_ten_toDigits number
    rw [Nat.ofDigitChars_eq_foldl] at hread
    simp only [Nat.mul_comm 10] at hread
    exact hread
  have hread : digits? (Nat.toDigits 10 number) = some number := by
    have hsome : (Nat.toDigits 10 number).isEmpty = false :=
      List.isEmpty_eq_false_iff.mpr Nat.toDigits_ne_nil
    rw [digits?, hsome, List.all_eq_true.mpr hall, hvalue]
    exact if_pos hmax
  rw [hdigits]
  unfold number?
  split
  · rename_i digits hplus
    have hdigit := hall '+' (by rw [hplus]; exact List.mem_cons_self)
    exact absurd hdigit (by decide)
  · exact hread

theorem looksLikeSwitch_toString (number : Nat) :
    looksLikeSwitch (toString number).toList = false := by
  have hdigits : (toString number).toList = Nat.toDigits 10 number := Nat.toList_repr
  rw [hdigits]
  unfold looksLikeSwitch
  split
  · rename_i c rest hdash
    have hdigit := @Nat.isDigit_of_mem_toDigits 10 number '-' (by decide) (by decide)
      (by rw [hdash]; exact List.mem_cons_self)
    exact absurd hdigit (by decide)
  · rfl

/-!
## Reading
-/

section Reading

variable {switches : List Switch} {switch : Switch} {given changed : Given}
variable {name file value : List Char} {rest : List (List Char)}

theorem addFile_eq (hsome : file ≠ []) (hroom : given.takesFile = true) :
    given.addFile file = .ok { given with files := given.files ++ [⟨file⟩] } := by
  have hpath : path? file = some ⟨file⟩ := if_neg (by rwa [List.isEmpty_iff])
  rw [Given.addFile, hpath]
  exact if_pos hroom

theorem read_file (hsome : file ≠ []) (hplain : looksLikeSwitch file = false)
    (hroom : given.takesFile = true) :
    read switches given (file :: rest) =
      read switches { given with files := given.files ++ [⟨file⟩] } rest := by
  have hne : file ≠ ['-', '-'] := by
    intro hdashes
    rw [hdashes] at hplain
    cases hplain
  have hargument : readArgument switches given file =
      .ok ({ given with files := given.files ++ [⟨file⟩] }, none) := by
    unfold readArgument
    split
    · cases hplain
    · cases hplain
    · rw [addFile_eq hsome hroom]
      rfl
  rw [read]
  · rw [hargument]
    rfl
  · exact fun h => hne h

theorem read_dashes (hsome : file ≠ []) (hroom : given.takesFile = true) :
    read switches given [['-', '-'], file] =
      .ok { given with files := given.files ++ [⟨file⟩] } := by
  rw [read, List.foldlM_cons, addFile_eq hsome hroom]
  rfl

variable (hname : '=' ∉ name) (hsome : name ≠ [])
  (hfind : switches.find? (·.name.toList == name) = some switch)
include hname hfind

theorem readLong_eq :
    readLong switches given name =
      if switch.takesValue then .ok (given, some switch)
      else (given.addMark switch).map fun given => (given, none) := by
  have hwhole : name.takeWhile (· != '=') = name := by
    rw [List.takeWhile_eq_self_iff]
    intro c hmem
    exact bne_iff_ne.mpr fun hsame => hname (hsame ▸ hmem)
  rw [readLong, hwhole, hfind, List.drop_length]

include hsome

theorem read_value (htakes : switch.takesValue = true) (hvalue : looksLikeSwitch value = false)
    (hadd : given.addValue switch value = .ok changed) :
    read switches given (('-' :: '-' :: name) :: value :: rest) = read switches changed rest := by
  rw [read]
  · rw [readArgument, readLong_eq hname hfind, if_pos htakes]
    show (if looksLikeSwitch value then _ else _) = _
    rw [hvalue, if_neg Bool.false_ne_true, hadd]
    rfl
  · intro h
    exact hsome (List.cons.inj (List.cons.inj h).right).right

theorem read_mark (htakes : switch.takesValue = false)
    (hadd : given.addMark switch = .ok changed) :
    read switches given (('-' :: '-' :: name) :: rest) = read switches changed rest := by
  rw [read]
  · rw [readArgument, readLong_eq hname hfind, htakes, if_neg Bool.false_ne_true, hadd]
    rfl
  · intro h
    exact hsome (List.cons.inj (List.cons.inj h).right).right

end Reading

/-!
## Switches
-/

/-- Arguments add to the switches, whatever files are given before them or after them. -/
def Sets (switches : List Switch) (arguments : List String) (before after : List (String × Value)) :
    Prop :=
  ∀ (maxFiles? : Option Nat) (files : List Path) (rest : List (List Char)),
    read switches ⟨maxFiles?, before, files⟩ (arguments.map String.toList ++ rest) =
      read switches ⟨maxFiles?, after, files⟩ rest

section Setting

variable {switches : List Switch} {before middle after : List (String × Value)}

theorem sets_nil : Sets switches [] before before :=
  fun _ _ _ => rfl

theorem Sets.append {first second : List String} (hfirst : Sets switches first before middle)
    (hsecond : Sets switches second middle after) :
    Sets switches (first ++ second) before after := by
  intro maxFiles? files rest
  rw [List.map_append, List.append_assoc, hfirst, hsecond]

theorem addSwitch_eq {given : Given} {switch : Switch} {value : Value}
    (hnew : given.switches.any (·.1 == switch.name) = false) :
    given.addSwitch switch value =
      .ok { given with switches := given.switches ++ [(switch.name, value)] } := by
  rw [Given.addSwitch, hnew]
  exact if_neg Bool.false_ne_true

theorem sets_size {size : Nat} (hmax : size ≤ maxNumber)
    (hfind : switches.find? (·.name.toList == "size".toList) = some sizeSwitch)
    (hnew : before.any (·.1 == "size") = false) :
    Sets switches ["--size", toString size] before (before ++ [("size", .number size)]) := by
  intro maxFiles? files rest
  refine read_value (by decide) (by decide) hfind rfl (looksLikeSwitch_toString size) ?_
  rw [Given.addValue, number?_toString hmax]
  exact addSwitch_eq hnew

def orderArguments : ByteOrder → List String
  | .little => []
  | .big => ["--big-endian"]

def orderSwitches : ByteOrder → List (String × Value)
  | .little => []
  | .big => [("big-endian", .mark)]

theorem sets_order (order : ByteOrder)
    (hfind : switches.find? (·.name.toList == "big-endian".toList) = some bigEndianSwitch)
    (hnew : before.any (·.1 == "big-endian") = false) :
    Sets switches (orderArguments order) before (before ++ orderSwitches order) := by
  cases order with
  | little =>
      rw [orderSwitches, List.append_nil]
      exact sets_nil
  | big =>
      intro maxFiles? files rest
      exact read_mark (by decide) (by decide) hfind rfl (addSwitch_eq hnew)

end Setting

/-!
## Files
-/

/-- Arguments give a file, along with others that set switches. -/
inductive Gives (path : Path) (settings : List String) : List String → Prop where
  | before (hplain : looksLikeSwitch path.chars = false) :
      Gives path settings (path.text :: settings)
  | after (hplain : looksLikeSwitch path.chars = false) :
      Gives path settings (settings ++ [path.text])
  | dashed : Gives path settings (settings ++ ["--", path.text])

section Giving

variable {path : Path} {settings arguments : List String} {size : Nat} {order : ByteOrder}

theorem toList_text (path : Path) : path.text.toList = path.chars :=
  String.toList_ofList

theorem Gives.read_eq {switches : List Switch} {named : List (String × Value)}
    {maxFiles? : Option Nat} (hgives : Gives path settings arguments) (hsome : path.chars ≠ [])
    (hsets : Sets switches settings [] named) (hroom : maxFiles?.all (0 < ·) = true) :
    read switches { maxFiles? := maxFiles? } (arguments.map String.toList) =
      .ok ⟨maxFiles?, named, [path]⟩ := by
  have hroom : ∀ named, Given.takesFile ⟨maxFiles?, named, []⟩ = true := fun _ => hroom
  cases hgives with
  | before hplain =>
      rw [List.map_cons, toList_text, read_file hsome hplain (hroom [])]
      have hset := hsets maxFiles? [path] []
      rw [List.append_nil] at hset
      rw [show path = ⟨path.chars⟩ from rfl] at hset ⊢
      exact hset.trans (by rw [read])
  | after hplain =>
      rw [List.map_append, List.map_singleton, toList_text]
      rw [hsets maxFiles? [] _, read_file hsome hplain (hroom _), read]
      rfl
  | dashed =>
      rw [List.map_append, List.map_cons, List.map_singleton, toList_text]
      exact (hsets maxFiles? [] _).trans (read_dashes hsome (hroom _))

theorem parse_cons {name : String} {subcommand : Subcommand}
    (hcommand : subcommand? name.toList = some subcommand)
    (hhelp : name.toList ≠ "help".toList) (arguments : List String) :
    parse (name :: arguments) =
      (read (helpSwitch :: verboseSwitch :: subcommand.switches)
        { maxFiles? := subcommand.maxFiles? } (arguments.map String.toList)).bind
        subcommand.command := by
  rw [parse, List.map_cons, readCommand, if_neg hhelp, hcommand]
  rfl

variable (hsome : path.chars ≠ [])
include hsome

theorem parse_deflate (hgives : Gives path [] arguments) :
    parse ("deflate" :: arguments) = .ok (.deflate [path] none none) := by
  rw [parse_cons rfl (by decide), hgives.read_eq hsome sets_nil rfl]
  rfl

theorem parse_inflate (hmax : size ≤ maxNumber)
    (hgives : Gives path ["--size", toString size] arguments) :
    parse ("inflate" :: arguments) = .ok (.inflate path size none) := by
  rw [parse_cons rfl (by decide), hgives.read_eq hsome (sets_size hmax rfl rfl) rfl]
  rfl

theorem parse_pack (hgives : Gives path (orderArguments order) arguments) :
    parse ("pack" :: arguments) = .ok (.pack path none order) := by
  rw [parse_cons rfl (by decide), hgives.read_eq hsome (sets_order order rfl rfl) rfl]
  cases order with
  | little => rfl
  | big => rfl

theorem parse_resource (hmax : size ≤ maxNumber)
    (hgives : Gives path (["--size", toString size] ++ orderArguments order) arguments) :
    parse ("resource" :: arguments) = .ok (.resource path size none order none) := by
  rw [parse_cons rfl (by decide),
    hgives.read_eq hsome (Sets.append (sets_size hmax ?_ ?_) (sets_order order ?_ ?_)) rfl]
  · cases order with
    | little => rfl
    | big => rfl
  all_goals rfl

end Giving

end Arguments
end BoundedZlib
