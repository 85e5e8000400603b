import BoundedZlib.FileSystem
import BoundedZlib.Proofs.FileAccess

/-!
# Several programs on one file system

A program that works with files asks for one operation after another.  As a routine, what is
left of it can be put aside after each operation, so several routines can take turns on one
file system.  One after the other is one of the orders in which they may do so.
-/

namespace BoundedZlib

inductive Request where
  | read (path : Path)
  | write (path : Path) (bytes : Bytes)
  | makeDirectory (path : Path)
  | isDirectory (path : Path)

namespace Request

def Answer : Request → Type
  | read _ => Except SystemError Bytes
  | write _ _ => Except SystemError Unit
  | makeDirectory _ => Except SystemError Unit
  | isDirectory _ => Bool

def perform (files : FileSystem) : (request : Request) → request.Answer × FileSystem
  | read path => (FileSystem.storage.read path).run files
  | write path bytes => (FileSystem.storage.write path bytes).run files
  | makeDirectory path => (FileSystem.storage.makeDirectory path).run files
  | isDirectory path => (FileSystem.storage.isDirectory path).run files

theorem perform_write_ok {files after : FileSystem} {path : Path} {bytes : Bytes}
    (hwrite : files.write path bytes = .ok after) :
    perform files (.write path bytes) = (.ok (), after) :=
  FileSystem.run_write hwrite

theorem perform_write_error {files : FileSystem} {path : Path} {bytes : Bytes}
    {error : SystemError} (hwrite : files.write path bytes = .error error) :
    perform files (.write path bytes) = (.error error, files) :=
  FileSystem.run_write_error hwrite

theorem grows_perform (request : Request) (files : FileSystem) :
    FileSystem.Grows files (request.perform files).2 := by
  cases request with
  | read path => exact FileSystem.Grows.refl files
  | isDirectory path => exact FileSystem.Grows.refl files
  | write path bytes =>
      cases hwrite : files.write path bytes with
      | error error =>
          rw [perform_write_error hwrite]
          exact FileSystem.Grows.refl files
      | ok after =>
          rw [perform_write_ok hwrite]
          exact FileSystem.grows_write hwrite
  | makeDirectory path =>
      show FileSystem.Grows files
        ((FileSystem.update fun files => files.makeDirectory path).run files).2
      rw [FileSystem.run_update]
      cases hmake : files.makeDirectory path with
      | error error => exact FileSystem.Grows.refl files
      | ok after => exact (FileSystem.extends_makeDirectory hmake).grows

end Request

/-- What is left of a program that works with files. -/
inductive Routine (α : Type) where
  | done (value : α)
  | ask (request : Request) (follow : request.Answer → Routine α)

namespace Routine

def bind {α β : Type} : Routine α → (α → Routine β) → Routine β
  | done value, follow => follow value
  | ask request next, follow => ask request fun answer => (next answer).bind follow

instance : Monad Routine where
  pure := done
  bind := bind

def storage : Storage Routine where
  read path := .ask (.read path) .done
  write path bytes := .ask (.write path bytes) .done
  makeDirectory path := .ask (.makeDirectory path) .done
  isDirectory path := .ask (.isDirectory path) .done

def value? {α : Type} : Routine α → Option α
  | done value => some value
  | ask _ _ => none

def step {α : Type} (files : FileSystem) : Routine α → Routine α × FileSystem
  | done value => (done value, files)
  | ask request follow => (follow (request.perform files).1, (request.perform files).2)

def run {α : Type} : Routine α → StateM FileSystem α
  | done value => fun files => (value, files)
  | ask request follow => fun files =>
      (follow (request.perform files).1).run (request.perform files).2

section Running

variable {α β : Type}

/-- A routine that goes on as another one does all of its operations first. -/
theorem run_bind (routine : Routine α) (follow : α → Routine β) :
    (routine >>= follow).run = routine.run >>= fun value => (follow value).run := by
  funext files
  induction routine generalizing files with
  | done value => rfl
  | ask request next ih => exact ih (request.perform files).1 (request.perform files).2

theorem run_bind_of_runs {ε : Type} {routine : ExceptT ε Routine α}
    {follow : α → ExceptT ε Routine β}
    {program : ExceptT ε (StateM FileSystem) α} {next : α → ExceptT ε (StateM FileSystem) β}
    (hroutine : routine.run.run = program.run)
    (hfollow : ∀ value, (follow value).run.run = (next value).run) :
    (routine >>= follow).run.run = (program >>= next).run := by
  have hbind : (routine >>= follow).run = routine.run >>= ExceptT.bindCont follow := rfl
  have hnext : (program >>= next).run = program.run >>= ExceptT.bindCont next := rfl
  rw [hbind, hnext, run_bind, hroutine]
  refine congrArg (program.run >>= ·) (funext fun result => ?_)
  cases result with
  | error error => rfl
  | ok value => exact hfollow value

end Running

/-!
## Turns
-/

/-- Routines that share a file system. -/
structure Shared (α : Type) where
  routines : List (Routine α)
  files : FileSystem

namespace Shared

variable {α : Type}

def turn (shared : Shared α) (index : Nat) : Shared α :=
  match shared.routines[index]? with
  | none => shared
  | some routine =>
      ⟨shared.routines.set index (routine.step shared.files).1, (routine.step shared.files).2⟩

def take (shared : Shared α) (turns : List Nat) : Shared α :=
  turns.foldl turn shared

def values? (shared : Shared α) : Option (List α) :=
  shared.routines.mapM value?

theorem take_append (shared : Shared α) (front back : List Nat) :
    shared.take (front ++ back) = (shared.take front).take back :=
  List.foldl_append

theorem turn_routine (front back : List (Routine α)) (routine : Routine α) (files : FileSystem) :
    turn ⟨front ++ routine :: back, files⟩ front.length =
      ⟨front ++ (routine.step files).1 :: back, (routine.step files).2⟩ := by
  simp [turn]

/-- A routine that has all the turns does all of its operations in a row. -/
theorem exists_turns_routine (routine : Routine α) (front back : List (Routine α))
    (files : FileSystem) :
    ∃ turns, take ⟨front ++ routine :: back, files⟩ turns =
      ⟨front ++ .done (routine.run files).1 :: back, (routine.run files).2⟩ := by
  induction routine generalizing files with
  | done value => exact ⟨[], rfl⟩
  | ask request follow ih =>
      rcases ih (request.perform files).1 (request.perform files).2 with ⟨turns, hturns⟩
      refine ⟨front.length :: turns, ?_⟩
      rw [take, List.foldl_cons, turn_routine]
      exact hturns

theorem exists_turns (routines : List (Routine α)) (files : FileSystem) :
    ∃ turns, take ⟨routines, files⟩ turns =
      ⟨((routines.mapM run).run files).1.map .done, ((routines.mapM run).run files).2⟩ := by
  have hall : ∀ front : List (Routine α), ∃ turns, take ⟨front ++ routines, files⟩ turns =
      ⟨front ++ ((routines.mapM run).run files).1.map .done,
        ((routines.mapM run).run files).2⟩ := by
    induction routines generalizing files with
    | nil => exact fun front => ⟨[], rfl⟩
    | cons routine rest ih =>
        intro front
        rcases exists_turns_routine routine front rest files with ⟨first, hfirst⟩
        rcases ih (routine.run files).2 (front ++ [.done (routine.run files).1]) with
          ⟨others, hothers⟩
        refine ⟨first ++ others, ?_⟩
        rw [take_append, hfirst]
        rw [List.append_assoc, List.append_assoc] at hothers
        rw [List.mapM_cons]
        exact hothers
  exact hall []

theorem values?_done (values : List α) (files : FileSystem) :
    values? ⟨values.map .done, files⟩ = some values := by
  rw [values?]
  induction values with
  | nil => rfl
  | cons value rest ih =>
      rw [List.map_cons, List.mapM_cons, ih]
      rfl

theorem routines_eq_of_values? {shared : Shared α} {values : List α}
    (hvalues : shared.values? = some values) : shared.routines = values.map .done := by
  rcases shared with ⟨routines, files⟩
  unfold values? at hvalues
  dsimp only at hvalues ⊢
  induction routines generalizing values with
  | nil =>
      cases hvalues
      rfl
  | cons routine rest ih =>
      cases routine with
      | ask request follow => cases hvalues
      | done value =>
          rw [List.mapM_cons] at hvalues
          cases hrest : rest.mapM value? with
          | none =>
              rw [hrest] at hvalues
              cases hvalues
          | some others =>
              rw [hrest] at hvalues
              cases hvalues
              rw [ih hrest]
              rfl

/-!
## What turns preserve
-/

theorem length_turn (shared : Shared α) (index : Nat) :
    (shared.turn index).routines.length = shared.routines.length := by
  unfold turn
  cases shared.routines[index]? with
  | none => rfl
  | some routine => exact List.length_set

theorem length_take (shared : Shared α) (turns : List Nat) :
    (shared.take turns).routines.length = shared.routines.length := by
  induction turns generalizing shared with
  | nil => rfl
  | cons index rest ih => exact (ih (shared.turn index)).trans (length_turn shared index)

theorem getElem?_turn_of_done {shared : Shared α} {place : Nat} {value : α}
    (hdone : shared.routines[place]? = some (.done value)) (index : Nat) :
    (shared.turn index).routines[place]? = some (.done value) := by
  unfold turn
  cases hroutine : shared.routines[index]? with
  | none => exact hdone
  | some routine =>
      by_cases hsame : index = place
      · rw [hsame] at hroutine ⊢
        have hlt := (List.getElem?_eq_some_iff.mp hdone).choose
        rw [hdone, Option.some.injEq] at hroutine
        rw [List.getElem?_set_self hlt, ← hroutine]
        rfl
      · exact (List.getElem?_set_ne hsame).trans hdone

theorem grows_turn (shared : Shared α) (index : Nat) :
    FileSystem.Grows shared.files (shared.turn index).files := by
  unfold turn
  cases shared.routines[index]? with
  | none => exact FileSystem.Grows.refl _
  | some routine =>
      cases routine with
      | done value => exact FileSystem.Grows.refl _
      | ask request follow => exact request.grows_perform shared.files

theorem grows_take (shared : Shared α) (turns : List Nat) :
    FileSystem.Grows shared.files (shared.take turns).files := by
  induction turns generalizing shared with
  | nil => exact FileSystem.Grows.refl _
  | cons index rest ih => exact (grows_turn shared index).trans (ih (shared.turn index))

end Shared

/-!
## Coming to an end
-/

/-- A routine is done after so many operations, whatever they answer. -/
inductive Within {α : Type} : Nat → Routine α → Prop where
  | done (count : Nat) (value : α) : Within count (.done value)
  | ask {count : Nat} {request : Request} {follow : request.Answer → Routine α}
      (hfollow : ∀ answer, Within count (follow answer)) : Within (count + 1) (.ask request follow)

section Ending

variable {α : Type} {routine : Routine α} {count : Nat}

theorem Within.step (hwithin : Within count routine) (files : FileSystem) :
    Within (count - 1) (routine.step files).1 := by
  cases hwithin with
  | done count value => exact .done _ value
  | ask hfollow => exact hfollow _

namespace Shared

/-- Each turn of a routine takes one of its operations off, and turns of others take none. -/
theorem within_turn {shared : Shared α} {counts : Nat → Nat}
    (hwithin : ∀ (place : Nat) (routine : Routine α), shared.routines[place]? = some routine →
      Within (counts place) routine) (index : Nat) :
    ∀ (place : Nat) (routine : Routine α), (shared.turn index).routines[place]? = some routine →
      Within (counts place - if index == place then 1 else 0) routine := by
  intro place next hnext
  unfold turn at hnext
  by_cases hsame : index = place
  · rw [if_pos (beq_iff_eq.mpr hsame)]
    rw [hsame] at hnext
    cases hroutine : shared.routines[place]? with
    | none =>
        rw [hroutine] at hnext
        exact absurd (hroutine.symm.trans hnext) nofun
    | some routine =>
        rw [hroutine] at hnext
        have hlt := (List.getElem?_eq_some_iff.mp hroutine).choose
        rw [List.getElem?_set_self hlt, Option.some.injEq] at hnext
        rw [← hnext]
        exact (hwithin place routine hroutine).step shared.files
  · rw [if_neg (mt beq_iff_eq.mp hsame)]
    apply hwithin
    cases hroutine : shared.routines[index]? with
    | none =>
        rw [hroutine] at hnext
        exact hnext
    | some routine =>
        rw [hroutine] at hnext
        rw [← hnext]
        exact (List.getElem?_set_ne hsame).symm

theorem within_take {turns : List Nat} {shared : Shared α} {counts : Nat → Nat}
    (hwithin : ∀ (place : Nat) (routine : Routine α), shared.routines[place]? = some routine →
      Within (counts place) routine) :
    ∀ (place : Nat) (routine : Routine α), (shared.take turns).routines[place]? = some routine →
      Within (counts place - turns.count place) routine := by
  induction turns generalizing shared counts with
  | nil => exact hwithin
  | cons index rest ih =>
      intro place routine hroutine
      rw [List.count_cons, Nat.add_comm, ← Nat.sub_sub]
      exact ih (within_turn hwithin index) place routine hroutine

theorem exists_values {shared : Shared α}
    (hwithin : ∀ (place : Nat) (routine : Routine α), shared.routines[place]? = some routine →
      Within 0 routine) : ∃ values, shared.values? = some values := by
  rcases shared with ⟨routines, files⟩
  have hdone : ∃ values : List α, routines = values.map .done := by
    induction routines with
    | nil => exact ⟨[], rfl⟩
    | cons routine rest ih =>
        rcases ih (fun place => hwithin (place + 1)) with ⟨values, hvalues⟩
        cases hwithin 0 routine rfl with
        | done _ value => exact ⟨value :: values, by rw [hvalues, List.map_cons]⟩
  rcases hdone with ⟨values, hvalues⟩
  exact ⟨values, hvalues ▸ values?_done values files⟩

theorem exists_values_take {turns : List Nat} {shared : Shared α} {count : Nat}
    (hwithin : ∀ (place : Nat) (routine : Routine α), shared.routines[place]? = some routine →
      Within count routine)
    (hturns : ∀ place, place < shared.routines.length → count ≤ turns.count place) :
    ∃ values, (shared.take turns).values? = some values := by
  apply exists_values
  intro place routine hroutine
  have hleft := within_take hwithin place routine hroutine
  have hlt := (List.getElem?_eq_some_iff.mp hroutine).choose
  rw [length_take] at hlt
  rw [Nat.sub_eq_zero_of_le (hturns place hlt)] at hleft
  exact hleft

end Shared

end Ending

end Routine
end BoundedZlib
