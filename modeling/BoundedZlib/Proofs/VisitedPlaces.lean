import BoundedZlib.Proofs.FileAccess

/-!
# Places that a path comes by

Following a path asks about one place after the other, on the way of the links as well, up to
the first one that is not a directory.  As long as nothing is removed and nothing comes to be
where a place on the way was missing, what is written elsewhere makes no difference to where
the path leads, to what is read there, and to why it may fail.
-/

namespace BoundedZlib
namespace FileSystem

def linkAt? (files : FileSystem) (place : Location) (part : Path.Part) : Option Link :=
  if Path.isBlank part then none
  else files.links.lookup (if part = Path.above then up place else place ++ [part])

/--
The places in which parts of a path are looked for, from a place on; `crossed` are those on
the way of a link.
-/
def comesBy (files : FileSystem) (leap : Link → Except SystemError Location)
    (crossed : Link → List Location) : Location → List Path.Part → List Location
  | _, [] => []
  | place, part :: rest =>
      place :: ((files.linkAt? place part).elim [] crossed ++
        match files.follow leap place part with
        | .ok next => files.comesBy leap crossed next rest
        | .error _ => [])

def crossedWithin (files : FileSystem) : Nat → Link → List Location
  | 0, _ => []
  | depth + 1, link =>
      files.comesBy (files.leapWithin depth) (files.crossedWithin depth) link.start link.parts

/-- The places that a path comes by before it ends. -/
def visited (files : FileSystem) (path : Path) : List Location :=
  files.comesBy files.leap (files.crossedWithin maxLinks) (origin path) (Path.split path.chars)

def SameDirectories (files after : FileSystem) : Prop :=
  ∀ place, after.get? place = some .directory ↔ files.get? place = some .directory

/-- Where there is nothing of these places, there still is nothing. -/
def StillMissing (files after : FileSystem) (places : List Location) : Prop :=
  ∀ place ∈ places, files.get? place = none → after.get? place = none

section Visiting

variable {files after : FileSystem} {place : Location} {part name : Path.Part}
  {parts front : List Path.Part} {path : Path} {bytes : Bytes}
  {leap leap' : Link → Except SystemError Location} {crossed : Link → List Location}

theorem walk_cons :
    files.walk leap place (part :: parts) =
      (files.follow leap place part >>= fun middle => files.walk leap middle parts) :=
  List.foldlM_cons

theorem follow_of_directory (hplace : files.get? place = some .directory) :
    files.follow leap place part =
      if Path.isBlank part then .ok place
      else if part = Path.above then do
        let next ← files.enter leap (up place)
        if files.get? next = some .directory then return next else .error .notFound
      else if isLongName part then .error .nameTooLong
      else files.enter leap (place ++ [part]) := by
  unfold follow
  generalize files.get? place = node? at hplace ⊢
  subst hplace
  rfl

theorem exists_file_of_grows (hgrows : Grows files after)
    (hdirectories : SameDirectories files after) (hplace : files.get? place = some (.file bytes)) :
    ∃ stored, after.get? place = some (.file stored) := by
  have hthere := hgrows.present place (hplace ▸ rfl)
  rcases Option.isSome_iff_exists.mp hthere with ⟨node, hnode⟩
  cases node with
  | file stored => exact ⟨stored, hnode⟩
  | directory => cases hplace.symm.trans ((hdirectories place).mp hnode)

theorem enter_eq_of_leap (hlinks : after.links = files.links)
    (hleap : ∀ link, files.links.lookup place = some link → leap' link = leap link) :
    after.enter leap' place = files.enter leap place := by
  unfold enter
  rw [hlinks]
  cases hlink : files.links.lookup place with
  | none => rfl
  | some link => exact hleap link hlink

section Growing

variable (hgrows : Grows files after) (hdirectories : SameDirectories files after)
include hgrows hdirectories

theorem follow_eq_of_missing (hmissing : files.get? place = none → after.get? place = none)
    (hleap : ∀ link, files.linkAt? place part = some link → leap' link = leap link) :
    after.follow leap' place part = files.follow leap place part := by
  cases hplace : files.get? place with
  | none =>
      unfold follow
      rw [hplace, hmissing hplace]
  | some node =>
      cases node with
      | file bytes =>
          rcases exists_file_of_grows hgrows hdirectories hplace with ⟨stored, hstored⟩
          unfold follow
          rw [hplace, hstored]
      | directory =>
          rw [follow_of_directory hplace, follow_of_directory (hgrows.directory place hplace)]
          unfold linkAt? at hleap
          by_cases hblank : Path.isBlank part = true
          · rw [if_pos hblank, if_pos hblank]
          · rw [if_neg hblank] at hleap ⊢
            rw [if_neg hblank]
            by_cases habove : part = Path.above
            · rw [if_pos habove] at hleap ⊢
              rw [if_pos habove, enter_eq_of_leap hgrows.links hleap]
              simp only [hdirectories _]
            · rw [if_neg habove] at hleap ⊢
              rw [if_neg habove, enter_eq_of_leap hgrows.links hleap]

/-- Parts lead to the same place if there is still nothing where they came to an end before. -/
theorem walk_eq_of_comesBy
    (hleap : ∀ link, StillMissing files after (crossed link) → leap' link = leap link)
    (hmissing : StillMissing files after (files.comesBy leap crossed place parts)) :
    after.walk leap' place parts = files.walk leap place parts := by
  induction parts generalizing place with
  | nil => rfl
  | cons part rest ih =>
      rw [comesBy] at hmissing
      have hfollow : after.follow leap' place part = files.follow leap place part := by
        apply follow_eq_of_missing hgrows hdirectories (hmissing place List.mem_cons_self)
        intro link hlink
        apply hleap link
        intro other hmem
        rw [hlink] at hmissing
        exact hmissing other (List.mem_cons_of_mem _ (List.mem_append_left _ hmem))
      rw [walk_cons, walk_cons, hfollow]
      cases hnext : files.follow leap place part with
      | error error => rfl
      | ok next =>
          apply ih
          intro other hmem
          rw [hnext] at hmissing
          exact hmissing other (List.mem_cons_of_mem _ (List.mem_append_right _ hmem))

/-- Links lead to the same place, by induction on how deep they may lead through others. -/
theorem leapWithin_eq (depth : Nat) (link : Link)
    (hmissing : StillMissing files after (files.crossedWithin depth link)) :
    after.leapWithin depth link = files.leapWithin depth link := by
  induction depth generalizing link with
  | zero => rfl
  | succ depth ih => exact walk_eq_of_comesBy hgrows hdirectories ih hmissing

theorem walk_eq_of_visited (hmissing : StillMissing files after (files.visited path)) :
    after.walk after.leap (origin path) (Path.split path.chars) =
      files.walk files.leap (origin path) (Path.split path.chars) :=
  walk_eq_of_comesBy hgrows hdirectories (leapWithin_eq hgrows hdirectories maxLinks) hmissing

/-- What is read depends on the place that the path names, and on where it is still missing. -/
theorem read_eq_of_visited (hmissing : StillMissing files after (files.visited path))
    (hnamed : ∀ other, Names files path other → files.get? other ≠ some .directory →
      after.get? other = files.get? other) :
    after.read path = files.read path := by
  have hresolve : after.resolve path = files.resolve path := by
    unfold resolve
    rw [walk_eq_of_visited hgrows hdirectories hmissing]
    by_cases hnil : path.chars = []
    · rw [if_pos hnil, if_pos hnil]
    · rw [if_neg hnil, if_neg hnil]
      cases hpath : isLongPath path with
      | true => rfl
      | false =>
          cases hwalk : files.walk files.leap (origin path) (Path.split path.chars) with
          | error error => rfl
          | ok place =>
              have hplace : (after.get? place).isSome = (files.get? place).isSome := by
                by_cases hdirectory : files.get? place = some .directory
                · rw [hdirectory, hgrows.directory place hdirectory]
                · rw [hnamed place (names_of_walk hpath hwalk hdirectory) hdirectory]
              simp only [bind, Except.bind, hplace]
  unfold read
  rw [hresolve]
  cases hfound : files.resolve path with
  | error error => rfl
  | ok place =>
      have hplace : after.get? place = files.get? place := by
        by_cases hdirectory : files.get? place = some .directory
        · exact (hgrows.directory place hdirectory).trans hdirectory.symm
        · exact hnamed place (names_of_resolve hfound hdirectory) hdirectory
      simp only [bind, Except.bind, hplace]

/-!
## Writing to trees that are alike
-/

theorem write_error_of_visited {error : SystemError} (hends : path.Ends front name)
    (hmissing : StillMissing files after (files.visited path))
    (hwrite : files.write path bytes = .error error) :
    after.write path bytes = .error error := by
  have hlocate : after.locate path = files.locate path := by
    rw [locate_of_ends hends, locate_of_ends hends,
      walk_eq_of_visited hgrows hdirectories hmissing]
  unfold write at hwrite ⊢
  rw [hlocate]
  cases hplace : files.locate path with
  | error failure =>
      rw [hplace] at hwrite
      exact hwrite
  | ok place =>
      rw [hplace] at hwrite
      dsimp only [bind, Except.bind] at hwrite ⊢
      split at hwrite
      · rename_i hdirectory
        rw [if_pos ((hdirectories place).mpr hdirectory)]
        exact hwrite
      · cases hwrite

end Growing

end Visiting

end FileSystem
end BoundedZlib
