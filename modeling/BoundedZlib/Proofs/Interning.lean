import BoundedZlib.Proofs.NameTables

/-!
# Interning

A table that grew from nothing holds the names that were added, one after the other,
and an offset that was given for a name is the place of one of them.  Interning finds
the first of these, which stays the first one however the table grows.
-/

namespace BoundedZlib

namespace Resource

/-!
## Names without the character zero
-/

theorem nameBytes_eq (name : String) :
    nameBytes name = name.toList.flatMap String.utf8EncodeChar := by
  rw [nameBytes, String.toUTF8_eq_toByteArray, ← String.utf8Encode_toList, List.utf8Encode,
    List.data_toByteArray]

theorem zero_mem_utf8EncodeChar {c : Char} (hzero : 0 ∈ String.utf8EncodeChar c) :
    c = '\x00' := by
  have hbyte : ∀ n : Nat, 0 = UInt8.ofNat n → n % 256 = 0 := by
    intro n hn
    have hvalue := congrArg UInt8.toNat hn
    rw [UInt8.toNat_ofNat'] at hvalue
    exact hvalue.symm
  -- Only the one byte of an ASCII character can be zero: all others have the highest bit.
  unfold String.utf8EncodeChar at hzero
  simp only at hzero
  split at hzero
  next hascii =>
    have hsmall := hbyte _ (List.mem_singleton.mp hzero)
    rw [Nat.mod_eq_of_lt (Nat.lt_of_le_of_lt hascii (by decide))] at hsmall
    exact Char.ext (UInt32.toNat_inj.mp hsmall)
  next =>
    exfalso
    split at hzero
    next =>
      simp only [List.mem_cons, List.not_mem_nil, or_false] at hzero
      rcases hzero with h | h
      all_goals
        have hvalue := hbyte _ h
        omega
    next =>
      split at hzero
      next =>
        simp only [List.mem_cons, List.not_mem_nil, or_false] at hzero
        rcases hzero with h | h | h
        all_goals
          have hvalue := hbyte _ h
          omega
      next =>
        simp only [List.mem_cons, List.not_mem_nil, or_false] at hzero
        rcases hzero with h | h | h | h
        all_goals
          have hvalue := hbyte _ h
          omega

theorem zero_notMem_nameBytes {name : String} (hfree : '\x00' ∉ name.toList) :
    0 ∉ nameBytes name := by
  rw [nameBytes_eq, List.mem_flatMap]
  intro h
  rcases h with ⟨c, hmem, hzero⟩
  exact hfree (zero_mem_utf8EncodeChar hzero ▸ hmem)

theorem nameBytes_injective {name other : String} (hsame : nameBytes name = nameBytes other) :
    name = other := by
  have hname := nameOfBytes?_eq_some_iff.mpr hsame
  rw [nameOfBytes?_eq_some_iff.mpr rfl, Option.some.injEq] at hname
  exact hname.symm

namespace NameTable

/-!
## Entries
-/

section Entries

variable {names front : List String} {name : String} {place other : Nat}

def spelled (names : List String) : Bytes :=
  names.flatMap fun name => nameBytes name ++ [0]

theorem spelled_append (front back : List String) :
    spelled (front ++ back) = spelled front ++ spelled back :=
  List.flatMap_append

theorem spelled_cons (name : String) (rest : List String) :
    spelled (name :: rest) = nameBytes name ++ 0 :: spelled rest := by
  rw [spelled, List.flatMap_cons, List.append_assoc]
  rfl

/-- One of the names is this one, and it begins at the place. -/
def StandsAt (names : List String) (name : String) (place : Nat) : Prop :=
  ∃ front back, names = front ++ name :: back ∧ (spelled front).length = place

/-- The first of the names that is this one begins at the place. -/
def StandsFirstAt (names : List String) (name : String) (place : Nat) : Prop :=
  ∃ front back, names = front ++ name :: back ∧ name ∉ front ∧ (spelled front).length = place

theorem StandsFirstAt.standsAt (hfirst : StandsFirstAt names name place) :
    StandsAt names name place := by
  rcases hfirst with ⟨front, back, hnames, _, hplace⟩
  exact ⟨front, back, hnames, hplace⟩

theorem StandsAt.append (hstands : StandsAt names name place) (more : List String) :
    StandsAt (names ++ more) name place := by
  rcases hstands with ⟨front, back, hnames, hplace⟩
  exact ⟨front, back ++ more, by rw [hnames, List.append_assoc, List.cons_append], hplace⟩

theorem StandsFirstAt.append (hfirst : StandsFirstAt names name place) (more : List String) :
    StandsFirstAt (names ++ more) name place := by
  rcases hfirst with ⟨front, back, hnames, hnone, hplace⟩
  exact ⟨front, back ++ more, by rw [hnames, List.append_assoc, List.cons_append], hnone, hplace⟩

theorem exists_standsFirstAt (hmem : name ∈ names) : ∃ place, StandsFirstAt names name place := by
  rcases List.eq_append_cons_of_mem hmem with ⟨front, back, hnames, hnone⟩
  exact ⟨_, front, back, hnames, hnone, rfl⟩

theorem StandsAt.mem (hstands : StandsAt names name place) : name ∈ names := by
  rcases hstands with ⟨front, back, hnames, _⟩
  rw [hnames]
  exact List.mem_append_right _ List.mem_cons_self

theorem StandsFirstAt.le (hfirst : StandsFirstAt names name place)
    (hstands : StandsAt names name other) :
    place ≤ other := by
  rcases hfirst with ⟨front, back, hnames, hnone, hplace⟩
  rcases hstands with ⟨front', back', hnames', hother⟩
  rw [hnames, List.append_eq_append_iff] at hnames'
  rcases hnames' with ⟨between, hfront', _⟩ | ⟨between, hfront, hrest⟩
  · rw [← hplace, ← hother, hfront', spelled_append, List.length_append]
    exact Nat.le_add_right _ _
  · cases between with
    | nil =>
        rw [List.append_nil] at hfront
        rw [← hplace, ← hother, hfront]
    | cons found between =>
        rw [List.cons_append, List.cons.injEq] at hrest
        rw [hfront, ← hrest.left] at hnone
        exact absurd (List.mem_append_right _ List.mem_cons_self) hnone

theorem StandsFirstAt.unique (hfirst : StandsFirstAt names name place)
    (hother : StandsFirstAt names name other) :
    place = other :=
  Nat.le_antisymm (hfirst.le hother.standsAt) (hother.le hfirst.standsAt)

theorem StandsAt.holds {table : NameTable} {offset : UInt32}
    (hstands : StandsAt names name offset.toNat)
    (hbytes : table.bytes = spelled names)
    (hfree : 0 ∉ nameBytes name) :
    table.Holds offset name := by
  rcases hstands with ⟨front, back, hnames, hplace⟩
  refine ⟨spelled front, 0 :: spelled back, ?_, hplace, hfree, ?_, ?_⟩
  · rw [hbytes, hnames, spelled_append, spelled_cons]
  · exact List.append_ne_nil_of_right_ne_nil _ (List.cons_ne_nil _ _)
  · intro byte hmem
    exact (Option.some.inj hmem).symm

/-!
## Finding entries
-/

/-- An entry is found, or passed over, as a whole. -/
theorem search_entry {entry : Bytes} (hfree : 0 ∉ entry) (name : Bytes) (place : Nat)
    (latest rest : Bytes) :
    search name place latest (entry ++ 0 :: rest) =
      if latest.reverse ++ entry = name then some place
      else search name (place + (latest.length + entry.length + 1)) [] rest := by
  induction entry generalizing latest with
  | nil =>
      rw [List.nil_append, search, if_pos rfl, List.append_nil]
      rfl
  | cons byte entry ih =>
      have hbyte : byte ≠ 0 := fun h => hfree (h ▸ List.mem_cons_self)
      rw [List.cons_append, search, if_neg hbyte,
        ih (fun hmem => hfree (List.mem_cons_of_mem _ hmem)), List.reverse_cons,
        List.append_assoc, List.length_cons, List.length_cons, Nat.add_right_comm latest.length]
      rfl

theorem search_spelled (hfree : ∀ name ∈ front, 0 ∉ nameBytes name) (hnone : name ∉ front)
    (place : Nat) (rest : Bytes) :
    search (nameBytes name) place [] (spelled front ++ rest) =
      search (nameBytes name) (place + (spelled front).length) [] rest := by
  induction front generalizing place with
  | nil => rfl
  | cons first front ih =>
      have hdiffers : [].reverse ++ nameBytes first ≠ nameBytes name := by
        intro hsame
        exact hnone (nameBytes_injective hsame ▸ List.mem_cons_self)
      rw [spelled_cons, List.append_assoc, List.cons_append,
        search_entry (hfree first List.mem_cons_self), if_neg hdiffers,
        ih (fun other hmem => hfree other (List.mem_cons_of_mem _ hmem))
          (fun hmem => hnone (List.mem_cons_of_mem _ hmem)),
        List.length_append, List.length_cons, List.length_nil, Nat.zero_add, Nat.add_assoc,
        Nat.add_assoc, Nat.add_comm 1]

theorem search_le {entry latest bytes : Bytes}
    (hsearch : search entry place latest bytes = some other) :
    other ≤ place + latest.length + bytes.length := by
  induction bytes generalizing place latest with
  | nil =>
      rw [search] at hsearch
      split at hsearch
      · rw [← Option.some.inj hsearch, Nat.add_assoc]
        exact Nat.le_add_right _ _
      · cases hsearch
  | cons byte rest ih =>
      rw [search] at hsearch
      rw [List.length_cons]
      split at hsearch
      · split at hsearch
        · rw [← Option.some.inj hsearch, Nat.add_assoc]
          exact Nat.le_add_right _ _
        · have hle := ih hsearch
          rw [List.length_nil] at hle
          omega
      · have hle := ih hsearch
        rw [List.length_cons] at hle
        omega

theorem find?_le {table : NameTable} (hfind : table.find? name = some place) :
    place ≤ table.bytes.length := by
  have hle := search_le hfind
  rw [List.length_nil, Nat.zero_add] at hle
  exact hle

theorem find?_of_standsFirstAt {table : NameTable} (hbytes : table.bytes = spelled names)
    (hfree : ∀ name ∈ names, 0 ∉ nameBytes name)
    (hfirst : StandsFirstAt names name place) :
    table.find? name = some place := by
  rcases hfirst with ⟨front, back, hnames, hnone, hplace⟩
  subst hnames
  have hname := hfree name (List.mem_append_right _ List.mem_cons_self)
  rw [find?, hbytes, spelled_append,
    search_spelled (fun other hmem => hfree other (List.mem_append_left _ hmem)) hnone,
    spelled_cons, search_entry hname, List.reverse_nil, List.nil_append, if_pos rfl,
    Nat.zero_add, hplace]

theorem find?_of_notMem {table : NameTable} (hbytes : table.bytes = spelled names)
    (hfree : ∀ name ∈ names, 0 ∉ nameBytes name) (hnone : name ∉ names) :
    table.find? name = none := by
  have hall := search_spelled hfree hnone 0 []
  rw [List.append_nil] at hall
  rw [find?, hbytes, hall, search, if_neg]
  exact fun h => h.right rfl

end Entries

/-!
## Calls
-/

inductive Call where
  | add (name : String)
  | intern (name : String)
deriving Repr, DecidableEq

namespace Call

def name : Call → String
  | add name => name
  | intern name => name

def perform : Call → EStateM Error NameTable UInt32
  | add name => adding name
  | intern name => interning name

end Call

structure Entry where
  call : Call
  offset : UInt32
deriving Repr, DecidableEq

def performAll : List Call → EStateM Error NameTable (List Entry)
  | [] => return []
  | call :: rest => do
      let offset ← call.perform
      let log ← performAll rest
      return ⟨call, offset⟩ :: log

section Performing

variable {α β : Type} {table after : NameTable} {name : String} {call : Call} {place : UInt32}
  {error : Error}

theorem bind_run (first : EStateM Error NameTable α) (next : α → EStateM Error NameTable β)
    (table : NameTable) :
    (first >>= next).run table =
      match first.run table with
      | .ok result between => (next result).run between
      | .error error after => .error error after := by
  change EStateM.bind first next table = _
  rw [EStateM.bind, EStateM.run]
  cases first table <;> rfl

theorem ofExcept_run (result : Except Error α) (table : NameTable) :
    (ofExcept result : EStateM Error NameTable α).run table =
      match result with
      | .ok value => .ok value table
      | .error error => .error error table := by
  cases result <;> rfl

theorem adding_run (table : NameTable) (name : String) :
    (adding name).run table =
      match offset table.bytes.length with
      | .ok place => .ok place ⟨table.bytes ++ nameBytes name ++ [0]⟩
      | .error error => .error error table := by
  rw [adding, bind_run]
  change EStateM.run (ofExcept (offset table.bytes.length) >>= _) table = _
  rw [bind_run, ofExcept_run]
  cases offset table.bytes.length <;> rfl

theorem interning_run (table : NameTable) (name : String) :
    (interning name).run table =
      match table.find? name with
      | some place => (ofExcept (offset place) : EStateM Error NameTable UInt32).run table
      | none => (adding name).run table := by
  rw [interning, bind_run]
  change EStateM.run (match table.find? name with
    | some place => ofExcept (offset place)
    | none => adding name) table = _
  cases table.find? name <;> rfl

theorem toNat_of_offset {number : Nat} (hoffset : offset number = .ok place) :
    place.toNat = number := by
  rw [offset] at hoffset
  split at hoffset
  next hroom =>
    rw [Except.ok.injEq] at hoffset
    rw [← hoffset]
    exact UInt32.toNat_ofNat_of_lt' (Nat.lt_succ_of_le hroom)
  next => cases hoffset

theorem error_of_offset {number : Nat} (hoffset : offset number = .error error) :
    error = .nameTableFull number ∧ maxOffset < number := by
  rw [offset] at hoffset
  split at hoffset
  next => cases hoffset
  next hfull =>
    rw [Except.error.injEq] at hoffset
    exact ⟨hoffset.symm, Nat.lt_of_not_le hfull⟩

theorem adding_eq_ok (hadding : (adding name).run table = .ok place after) :
    place.toNat = table.bytes.length ∧ after = ⟨table.bytes ++ nameBytes name ++ [0]⟩ := by
  rw [adding_run] at hadding
  cases hoffset : offset table.bytes.length with
  | ok given =>
      rw [hoffset, EStateM.Result.ok.injEq] at hadding
      rw [← hadding.left]
      exact ⟨toNat_of_offset hoffset, hadding.right.symm⟩
  | error error =>
      rw [hoffset] at hadding
      cases hadding

theorem adding_eq_error (hadding : (adding name).run table = .error error after) :
    after = table ∧ error = .nameTableFull table.bytes.length ∧
      maxOffset < table.bytes.length := by
  rw [adding_run] at hadding
  cases hoffset : offset table.bytes.length with
  | ok given =>
      rw [hoffset] at hadding
      cases hadding
  | error raised =>
      rw [hoffset, EStateM.Result.error.injEq] at hadding
      rw [← hadding.left]
      exact ⟨hadding.right.symm, error_of_offset hoffset⟩

theorem interning_eq_ok (hinterning : (interning name).run table = .ok place after) :
    (table.find? name = none ∧ (adding name).run table = .ok place after) ∨
      (table.find? name = some place.toNat ∧ after = table) := by
  rw [interning_run] at hinterning
  cases hfind : table.find? name with
  | none =>
      rw [hfind] at hinterning
      exact Or.inl ⟨rfl, hinterning⟩
  | some found =>
      rw [hfind] at hinterning
      simp only [ofExcept_run] at hinterning
      cases hoffset : offset found with
      | ok given =>
          rw [hoffset, EStateM.Result.ok.injEq] at hinterning
          rw [hinterning.left] at hoffset
          rw [toNat_of_offset hoffset]
          exact Or.inr ⟨rfl, hinterning.right.symm⟩
      | error error =>
          rw [hoffset] at hinterning
          cases hinterning

theorem interning_eq_error (hinterning : (interning name).run table = .error error after) :
    (adding name).run table = .error error after ∨
      (after = table ∧ ∃ number, error = .nameTableFull number ∧ maxOffset < number ∧
        number ≤ table.bytes.length) := by
  rw [interning_run] at hinterning
  cases hfind : table.find? name with
  | none =>
      rw [hfind] at hinterning
      exact Or.inl hinterning
  | some found =>
      rw [hfind] at hinterning
      simp only [ofExcept_run] at hinterning
      cases hoffset : offset found with
      | ok given =>
          rw [hoffset] at hinterning
          cases hinterning
      | error raised =>
          rw [hoffset, EStateM.Result.error.injEq] at hinterning
          rcases error_of_offset hoffset with ⟨hraised, hnumber⟩
          rw [← hinterning.left]
          exact Or.inr ⟨hinterning.right.symm, found, hraised, hnumber, find?_le hfind⟩

theorem perform_eq_ok (hperform : call.perform.run table = .ok place after) :
    (place.toNat = table.bytes.length ∧ after = ⟨table.bytes ++ nameBytes call.name ++ [0]⟩ ∧
      ∀ name, call = .intern name → table.find? name = none) ∨
    (table.find? call.name = some place.toNat ∧ after = table) := by
  cases call with
  | add name =>
      rcases adding_eq_ok hperform with ⟨hplace, hafter⟩
      exact Or.inl ⟨hplace, hafter, fun _ h => by cases h⟩
  | intern name =>
      rcases interning_eq_ok hperform with ⟨hfind, hadding⟩ | hfound
      · rcases adding_eq_ok hadding with ⟨hplace, hafter⟩
        refine Or.inl ⟨hplace, hafter, ?_⟩
        intro other hother
        rw [← Call.intern.inj hother]
        exact hfind
      · exact Or.inr hfound

theorem perform_eq_error (hperform : call.perform.run table = .error error after) :
    after = table ∧ ∃ number, error = .nameTableFull number ∧ maxOffset < number ∧
      number ≤ table.bytes.length := by
  have hadding : ∀ name, (adding name).run table = .error error after →
      after = table ∧ ∃ number, error = .nameTableFull number ∧ maxOffset < number ∧
        number ≤ table.bytes.length := by
    intro name hadding
    rcases adding_eq_error hadding with ⟨hafter, herror, hnumber⟩
    exact ⟨hafter, _, herror, hnumber, Nat.le_refl _⟩
  cases call with
  | add name => exact hadding name hperform
  | intern name =>
      rcases interning_eq_error hperform with hfails | hfound
      · exact hadding name hfails
      · exact hfound

end Performing

/-!
## Runs
-/

section Runs

variable {table between after : NameTable} {calls front back : List Call} {call : Call}
  {log earlier : List Entry} {place : UInt32} {names : List String}

theorem performAll_cons_eq_ok :
    (performAll (call :: calls)).run table = .ok log after ↔
      ∃ place between later, call.perform.run table = .ok place between ∧
        (performAll calls).run between = .ok later after ∧ log = ⟨call, place⟩ :: later := by
  rw [performAll, bind_run]
  cases hcall : call.perform.run table with
  | error error between =>
      constructor
      · intro h
        cases h
      · intro h
        rcases h with ⟨_, _, _, hok, _⟩
        cases hok
  | ok place between =>
      simp only [bind_run]
      cases hcalls : (performAll calls).run between with
      | error error after' =>
          constructor
          · intro h
            cases h
          · intro h
            rcases h with ⟨_, _, _, hok, hrest, _⟩
            cases hok
            rw [hcalls] at hrest
            cases hrest
      | ok later after' =>
          constructor
          · intro h
            cases h
            exact ⟨place, between, later, rfl, hcalls, rfl⟩
          · intro h
            rcases h with ⟨_, _, _, hok, hrest, hlog⟩
            cases hok
            rw [hcalls] at hrest
            cases hrest
            rw [hlog]
            rfl

theorem performAll_append_eq_ok
    (hrun : (performAll (front ++ back)).run table = .ok log after) :
    ∃ earlier between later, (performAll front).run table = .ok earlier between ∧
      (performAll back).run between = .ok later after ∧ log = earlier ++ later := by
  induction front generalizing table log with
  | nil => exact ⟨[], table, log, rfl, hrun, rfl⟩
  | cons call front ih =>
      rw [List.cons_append, performAll_cons_eq_ok] at hrun
      rcases hrun with ⟨place, next, rest, hcall, hrest, hlog⟩
      rcases ih hrest with ⟨earlier, between, later, hfront, hback, hrest⟩
      refine ⟨⟨call, place⟩ :: earlier, between, later, ?_, hback, ?_⟩
      · exact performAll_cons_eq_ok.mpr ⟨place, next, earlier, hcall, hfront, rfl⟩
      · rw [hlog, hrest, List.cons_append]

theorem map_call_of_performAll (hrun : (performAll calls).run table = .ok log after) :
    log.map Entry.call = calls := by
  induction calls generalizing table log with
  | nil =>
      cases hrun
      rfl
  | cons call calls ih =>
      rcases performAll_cons_eq_ok.mp hrun with ⟨place, between, later, _, hrest, hlog⟩
      rw [hlog, List.map_cons, ih hrest]

/--
The table holds these names, of which none has a zero byte.  Every offset that was given
is the place of such a name, interning gave the place of the first one, and the place of
the first one was given for every name.
-/
structure Keeps (log : List Entry) (table : NameTable) (names : List String) : Prop where
  bytes_eq : table.bytes = spelled names
  free : ∀ name ∈ names, 0 ∉ nameBytes name
  stands : ∀ entry ∈ log, StandsAt names entry.call.name entry.offset.toNat
  interned : ∀ entry ∈ log, ∀ name, entry.call = .intern name →
    StandsFirstAt names name entry.offset.toNat
  logged : ∀ name ∈ names, ∃ entry ∈ log, entry.call.name = name ∧
    StandsFirstAt names name entry.offset.toNat

theorem keeps_nil : Keeps [] {} [] where
  bytes_eq := rfl
  free := fun _ hmem => absurd hmem List.not_mem_nil
  stands := fun _ hmem => absurd hmem List.not_mem_nil
  interned := fun _ hmem => absurd hmem List.not_mem_nil
  logged := fun _ hmem => absurd hmem List.not_mem_nil

theorem Keeps.standsFirstAt_of_find? {name : String} {number : Nat} (hkeeps : Keeps log table names)
    (hfind : table.find? name = some number) :
    StandsFirstAt names name number := by
  by_cases hmem : name ∈ names
  · rcases exists_standsFirstAt hmem with ⟨first, hfirst⟩
    rw [find?_of_standsFirstAt hkeeps.bytes_eq hkeeps.free hfirst, Option.some.injEq] at hfind
    rw [← hfind]
    exact hfirst
  · rw [find?_of_notMem hkeeps.bytes_eq hkeeps.free hmem] at hfind
    cases hfind

theorem Keeps.append (hkeeps : Keeps log table names)
    (hfree : 0 ∉ nameBytes call.name)
    (hplace : place.toNat = table.bytes.length)
    (hnew : ∀ name, call = .intern name → table.find? name = none) :
    Keeps (log ++ [⟨call, place⟩]) ⟨table.bytes ++ nameBytes call.name ++ [0]⟩
      (names ++ [call.name]) where
  bytes_eq := by
    rw [hkeeps.bytes_eq, spelled_append, spelled_cons, List.append_assoc]
    rfl
  free := by
    intro name hmem
    rcases List.mem_append.mp hmem with hmem | hmem
    · exact hkeeps.free name hmem
    · rw [List.mem_singleton.mp hmem]
      exact hfree
  stands := by
    intro entry hmem
    rcases List.mem_append.mp hmem with hmem | hmem
    · exact (hkeeps.stands entry hmem).append _
    · rw [List.mem_singleton.mp hmem]
      exact ⟨names, [], rfl, by rw [hplace, hkeeps.bytes_eq]⟩
  interned := by
    intro entry hmem name hcall
    rcases List.mem_append.mp hmem with hmem | hmem
    · exact (hkeeps.interned entry hmem name hcall).append _
    · rw [List.mem_singleton.mp hmem] at hcall ⊢
      have hnone : name ∉ names := by
        intro hin
        rcases exists_standsFirstAt hin with ⟨first, hfirst⟩
        have hfind := find?_of_standsFirstAt hkeeps.bytes_eq hkeeps.free hfirst
        rw [hnew name hcall] at hfind
        cases hfind
      subst hcall
      exact ⟨names, [], rfl, hnone, by rw [hplace, hkeeps.bytes_eq]⟩
  logged := by
    intro name hmem
    by_cases hin : name ∈ names
    · rcases hkeeps.logged name hin with ⟨entry, hentry, hname, hfirst⟩
      exact ⟨entry, List.mem_append_left _ hentry, hname, hfirst.append _⟩
    · rcases List.mem_append.mp hmem with hold | hlast
      · exact absurd hold hin
      · rw [List.mem_singleton.mp hlast] at hin ⊢
        exact ⟨⟨call, place⟩, List.mem_append_right _ List.mem_cons_self, rfl, names, [], rfl, hin,
          by rw [hplace, hkeeps.bytes_eq]⟩

theorem Keeps.found (hkeeps : Keeps log table names)
    (hfirst : StandsFirstAt names call.name place.toNat) :
    Keeps (log ++ [⟨call, place⟩]) table names where
  bytes_eq := hkeeps.bytes_eq
  free := hkeeps.free
  stands := by
    intro entry hmem
    rcases List.mem_append.mp hmem with hmem | hmem
    · exact hkeeps.stands entry hmem
    · rw [List.mem_singleton.mp hmem]
      exact hfirst.standsAt
  interned := by
    intro entry hmem name hcall
    rcases List.mem_append.mp hmem with hmem | hmem
    · exact hkeeps.interned entry hmem name hcall
    · rw [List.mem_singleton.mp hmem] at hcall ⊢
      subst hcall
      exact hfirst
  logged := by
    intro name hmem
    rcases hkeeps.logged name hmem with ⟨entry, hentry, hname, hstands⟩
    exact ⟨entry, List.mem_append_left _ hentry, hname, hstands⟩

theorem Keeps.perform (hkeeps : Keeps log table names) (hfree : '\x00' ∉ call.name.toList)
    (hperform : call.perform.run table = .ok place after) :
    ∃ more, Keeps (log ++ [⟨call, place⟩]) after (names ++ more) := by
  rcases perform_eq_ok hperform with ⟨hplace, hafter, hnew⟩ | ⟨hfind, hafter⟩
  · rw [hafter]
    exact ⟨_, hkeeps.append (zero_notMem_nameBytes hfree) hplace hnew⟩
  · rw [hafter]
    refine ⟨[], ?_⟩
    rw [List.append_nil]
    exact hkeeps.found (hkeeps.standsFirstAt_of_find? hfind)

theorem Keeps.performAll (hkeeps : Keeps earlier table names)
    (hfree : ∀ call ∈ calls, '\x00' ∉ call.name.toList)
    (hrun : (performAll calls).run table = .ok log after) :
    ∃ more, Keeps (earlier ++ log) after (names ++ more) := by
  induction calls generalizing earlier table log names with
  | nil =>
      cases hrun
      refine ⟨[], ?_⟩
      rw [List.append_nil, List.append_nil]
      exact hkeeps
  | cons call calls ih =>
      rcases performAll_cons_eq_ok.mp hrun with ⟨place, between, later, hcall, hrest, hlog⟩
      rcases hkeeps.perform (hfree call List.mem_cons_self) hcall with ⟨more, hnext⟩
      rcases ih hnext (fun other hmem => hfree other (List.mem_cons_of_mem _ hmem)) hrest with
        ⟨rest, hkeeps⟩
      refine ⟨more ++ rest, ?_⟩
      rw [hlog, ← List.append_assoc]
      rw [List.append_assoc, List.singleton_append] at hkeeps
      exact hkeeps

theorem exists_keeps (hfree : ∀ call ∈ calls, '\x00' ∉ call.name.toList)
    (hrun : (performAll calls).run {} = .ok log table) :
    ∃ names, Keeps log table names := by
  rcases keeps_nil.performAll hfree hrun with ⟨names, hkeeps⟩
  exact ⟨_, hkeeps⟩

theorem Keeps.interning_again {name : String} (hkeeps : Keeps log table names)
    (hlogged : ∃ entry ∈ log, entry.call.name = name)
    (hinterning : (interning name).run table = .ok place after) :
    after = table ∧ StandsFirstAt names name place.toNat := by
  rcases hlogged with ⟨entry, hentry, hname⟩
  rcases exists_standsFirstAt (hname ▸ (hkeeps.stands entry hentry).mem) with ⟨first, hfirst⟩
  rcases interning_eq_ok hinterning with ⟨hfind, _⟩ | ⟨hfind, hafter⟩
  · rw [find?_of_standsFirstAt hkeeps.bytes_eq hkeeps.free hfirst] at hfind
    cases hfind
  · exact ⟨hafter, hkeeps.standsFirstAt_of_find? hfind⟩

theorem Keeps.get_eq (hkeeps : Keeps log table names) {entry : Entry} (hentry : entry ∈ log) :
    table.get entry.offset = .ok entry.call.name := by
  have hstands := hkeeps.stands entry hentry
  exact get_eq_ok_iff.mpr (hstands.holds hkeeps.bytes_eq (hkeeps.free _ hstands.mem))

theorem Keeps.offset_eq_iff (hkeeps : Keeps log table names) {name other : String}
    {place place' : UInt32} (hname : ⟨.intern name, place⟩ ∈ log)
    (hother : ⟨.intern other, place'⟩ ∈ log) :
    place = place' ↔ name = other := by
  constructor
  · intro hplaces
    have hget := hkeeps.get_eq hname
    rw [hplaces, hkeeps.get_eq hother, Except.ok.injEq] at hget
    exact hget.symm
  · intro hnames
    subst hnames
    exact UInt32.toNat_inj.mp
      ((hkeeps.interned _ hname name rfl).unique (hkeeps.interned _ hother name rfl))

/--
In a run from the empty table in which no call fails, the offsets that were given for a
name give that name, interned names have an offset in common exactly if they are equal,
and interning a name that was added or interned before gives the least offset of it and
does not change the table.  A call that fails does not change the table either; it fails
only if the table reaches beyond the last offset.
-/
theorem interning_over_runs :
    (∀ (calls : List Call) (log : List Entry) (table : NameTable),
      (∀ call ∈ calls, '\x00' ∉ call.name.toList) →
      (performAll calls).run {} = .ok log table →
      log.map Entry.call = calls ∧
      (∀ entry ∈ log, table.get entry.offset = .ok entry.call.name) ∧
      (∀ name place other place', ⟨.intern name, place⟩ ∈ log → ⟨.intern other, place'⟩ ∈ log →
        (place = place' ↔ name = other)) ∧
      ∀ front name back, calls = front ++ .intern name :: back →
        (∃ call ∈ front, call.name = name) →
        ∃ earlier before place later,
          (performAll front).run {} = .ok earlier before ∧
          (interning name).run before = .ok place before ∧
          (performAll back).run before = .ok later table ∧
          log = earlier ++ ⟨.intern name, place⟩ :: later ∧
          (∃ entry ∈ earlier, entry.call.name = name ∧ entry.offset = place) ∧
          ∀ entry ∈ log, entry.call.name = name → place ≤ entry.offset) ∧
    ∀ (table after : NameTable) (call : Call) (error : Error),
      call.perform.run table = .error error after →
        after = table ∧ ∃ number, error = .nameTableFull number ∧ maxOffset < number ∧
          number ≤ table.bytes.length := by
  refine ⟨?_, fun _ _ _ _ hperform => perform_eq_error hperform⟩
  intro calls log table hfree hrun
  rcases exists_keeps hfree hrun with ⟨names, hkeeps⟩
  refine ⟨map_call_of_performAll hrun, fun _ hentry => hkeeps.get_eq hentry,
    fun _ _ _ _ hname hother => hkeeps.offset_eq_iff hname hother, ?_⟩
  intro front name back hcalls hbefore
  subst hcalls
  rcases performAll_append_eq_ok hrun with ⟨earlier, before, rest, hfront, hrest, hlog⟩
  rcases performAll_cons_eq_ok.mp hrest with ⟨place, between, later, hcall, hback, hlater⟩
  rw [hlater] at hlog
  -- What the table holds before the call tells where the call finds the name.
  rcases exists_keeps (fun call hmem => hfree call (List.mem_append_left _ hmem)) hfront with
    ⟨held, hheld⟩
  have hlogged : ∃ entry ∈ earlier, entry.call.name = name := by
    rcases hbefore with ⟨call, hmem, hname⟩
    rw [← map_call_of_performAll hfront, List.mem_map] at hmem
    rcases hmem with ⟨entry, hentry, hentryCall⟩
    exact ⟨entry, hentry, by rw [hentryCall, hname]⟩
  rcases hheld.interning_again hlogged hcall with ⟨hunchanged, hfirst⟩
  subst hunchanged
  refine ⟨earlier, between, place, later, hfront, hcall, hback, hlog, ?_, ?_⟩
  · rcases hheld.logged name hfirst.standsAt.mem with ⟨entry, hentry, hname, hplace⟩
    exact ⟨entry, hentry, hname, UInt32.toNat_inj.mp (hplace.unique hfirst)⟩
  · intro entry hentry hname
    have hmem : ⟨.intern name, place⟩ ∈ log := by
      rw [hlog]
      exact List.mem_append_right _ List.mem_cons_self
    have hleast := (hkeeps.interned _ hmem name rfl).le (hname ▸ hkeeps.stands entry hentry)
    exact UInt32.le_iff_toNat_le.mpr hleast

end Runs

def sampleCalls : List Call :=
  [.add "zip", .intern "ip", .add "zip", .intern "", .intern "zip", .intern ""]

theorem interning_over_sampleCalls :
    (∀ call ∈ sampleCalls, '\x00' ∉ call.name.toList) ∧
    ∃ log table, (performAll sampleCalls).run {} = .ok log table ∧
      log.map Entry.offset = [0, 4, 7, 11, 0, 11] ∧
      (∀ entry ∈ log, table.get entry.offset = .ok entry.call.name) ∧
      ∃ earlier before place later,
        (performAll [.add "zip", .intern "ip", .add "zip", .intern ""]).run {} =
          .ok earlier before ∧
        (interning "zip").run before = .ok place before ∧
        log = earlier ++ ⟨.intern "zip", place⟩ :: later ∧
        ∀ entry ∈ log, entry.call.name = "zip" → place ≤ entry.offset := by
  have hfree : ∀ call ∈ sampleCalls, '\x00' ∉ call.name.toList := by decide
  have hrun : ∃ log table, (performAll sampleCalls).run {} = .ok log table ∧
      log.map Entry.offset = [0, 4, 7, 11, 0, 11] :=
    ⟨_, _, rfl, by decide⟩
  rcases hrun with ⟨log, table, hrun, hoffsets⟩
  rcases interning_over_runs.left sampleCalls log table hfree hrun with ⟨_, hget, _, hagain⟩
  rcases hagain [.add "zip", .intern "ip", .add "zip", .intern ""] "zip" [.intern ""] rfl
    ⟨.add "zip", by decide, rfl⟩ with
    ⟨earlier, before, place, later, hfront, hcall, _, hlog, _, hleast⟩
  exact ⟨hfree, log, table, hrun, hoffsets, hget, earlier, before, place, later, hfront, hcall,
    hlog, hleast⟩

end NameTable
end Resource
end BoundedZlib
