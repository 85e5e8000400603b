import BoundedZlib.FileSystem
import BoundedZlib.Proofs.PathParts

/-!
# Reading and writing files

A path that can be read or written ends with a name in a directory, so it names one place,
the one that the name stands for or, if it is a link, the one to which this leads.  It goes on
naming this place when files are written and directories made elsewhere, since none of this
removes anything; and what is written to a place is what is read there next.
-/

namespace BoundedZlib
namespace FileSystem

/-!
## What is where
-/

theorem lookup_filter_ne {place other : Location} (hne : other ≠ place)
    (nodes : List (Location × Node)) :
    (nodes.filter (·.1 != place)).lookup other = nodes.lookup other := by
  induction nodes with
  | nil => rfl
  | cons entry rest ih =>
      rcases entry with ⟨here, node⟩
      by_cases hhere : here = place
      · have hother : (other == here) = false := beq_false_of_ne (hhere ▸ hne)
        simp [hhere, ih, List.lookup_cons, hhere ▸ hother]
      · simp only [List.filter_cons, bne_iff_ne, ne_eq, hhere, not_false_eq_true, if_true,
          List.lookup_cons, ih]

section Places

variable {files after last : FileSystem} {place other : Location} {node : Node}
  {leap leap' : Link → Except SystemError Location}

theorem get?_of_isOutside (houtside : isOutside place = true) :
    files.get? place = some .directory := by
  rw [get?, if_pos houtside]

theorem get?_set_self (hinside : isOutside place = false) :
    (files.set place node).get? place = some node := by
  rw [get?, hinside, if_neg Bool.false_ne_true, set, List.lookup_cons, beq_self_eq_true]

theorem get?_set_other (hne : other ≠ place) :
    (files.set place node).get? other = files.get? other := by
  unfold get? set
  rw [List.lookup_cons, beq_false_of_ne hne, lookup_filter_ne hne]

theorem links_set (files : FileSystem) (place : Location) (node : Node) :
    (files.set place node).links = files.links := rfl

theorem isOutside_of_get? (hplace : files.get? place ≠ some .directory) :
    isOutside place = false := by
  rw [← Bool.not_eq_true]
  exact fun houtside => hplace (get?_of_isOutside houtside)

/-!
## Growing

Writing and making directories adds to the tree.  What is a directory stays one, what is there
stays there, and links are left alone.
-/

structure Grows (files after : FileSystem) : Prop where
  links : after.links = files.links
  directory : ∀ place, files.get? place = some .directory → after.get? place = some .directory
  present : ∀ place, (files.get? place).isSome = true → (after.get? place).isSome = true

theorem Grows.refl (files : FileSystem) : Grows files files :=
  ⟨rfl, fun _ h => h, fun _ h => h⟩

theorem Grows.trans (hfirst : Grows files after) (hsecond : Grows after last) :
    Grows files last where
  links := hsecond.links.trans hfirst.links
  directory place h := hsecond.directory place (hfirst.directory place h)
  present place h := hsecond.present place (hfirst.present place h)

theorem grows_set (hplace : files.get? place ≠ some .directory) (node : Node) :
    Grows files (files.set place node) where
  links := links_set files place node
  directory other hother := by
    have hne : other ≠ place := by
      intro hsame
      rw [hsame] at hother
      exact hplace hother
    rw [get?_set_other hne]
    exact hother
  present other hother := by
    by_cases hsame : other = place
    · rw [hsame, get?_set_self (isOutside_of_get? hplace)]
      rfl
    · rw [get?_set_other hsame]
      exact hother

/-!
## Steps of a path
-/

variable {part : Path.Part} {parts : List Path.Part}

theorem follow_eq_ok :
    files.follow leap place part = .ok other ↔ files.get? place = some .directory ∧
      if Path.isBlank part then place = other
      else if part = Path.above then
        files.enter leap (up place) = .ok other ∧ files.get? other = some .directory
      else isLongName part = false ∧ files.enter leap (place ++ [part]) = .ok other := by
  unfold follow
  cases hplace : files.get? place with
  | none => simp
  | some node =>
      cases node with
      | file bytes => simp
      | directory =>
          dsimp only
          split
          · simp
          · split
            · cases henter : files.enter leap (up place) with
              | error error => simp [bind, Except.bind]
              | ok next =>
                  by_cases hnext : files.get? next = some .directory
                  · simp only [bind, Except.bind, hnext, if_true, pure, Except.pure,
                      Except.ok.injEq, true_and]
                    exact ⟨fun hsame => ⟨hsame, hsame ▸ hnext⟩, fun h => h.left⟩
                  · simp only [bind, Except.bind, if_neg hnext, Except.ok.injEq, true_and,
                      reduceCtorEq, false_iff, not_and]
                    exact fun hsame hother => hnext (hsame ▸ hother)
            · cases hlong : isLongName part with
              | true => simp
              | false => simp

theorem enter_of_grows (hgrows : Grows files after)
    (hleap : ∀ link place, leap link = .ok place → leap' link = .ok place)
    (henter : files.enter leap place = .ok other) : after.enter leap' place = .ok other := by
  unfold enter at henter ⊢
  rw [hgrows.links]
  cases hlink : files.links.lookup place with
  | none =>
      rw [hlink] at henter
      exact henter
  | some link =>
      rw [hlink] at henter
      exact hleap link other henter

theorem follow_of_grows (hgrows : Grows files after)
    (hleap : ∀ link place, leap link = .ok place → leap' link = .ok place)
    (hfollow : files.follow leap place part = .ok other) :
    after.follow leap' place part = .ok other := by
  rw [follow_eq_ok] at hfollow ⊢
  rcases hfollow with ⟨hplace, hstep⟩
  refine ⟨hgrows.directory place hplace, ?_⟩
  by_cases hblank : Path.isBlank part = true
  · rw [if_pos hblank] at hstep ⊢
    exact hstep
  · rw [if_neg hblank] at hstep ⊢
    by_cases habove : part = Path.above
    · rw [if_pos habove] at hstep ⊢
      exact ⟨enter_of_grows hgrows hleap hstep.left, hgrows.directory other hstep.right⟩
    · rw [if_neg habove] at hstep ⊢
      exact ⟨hstep.left, enter_of_grows hgrows hleap hstep.right⟩

theorem walk_cons_eq_ok :
    files.walk leap place (part :: parts) = .ok other ↔
      ∃ middle, files.follow leap place part = .ok middle ∧
        files.walk leap middle parts = .ok other := by
  unfold walk
  rw [List.foldlM_cons]
  cases files.follow leap place part with
  | error error => simp [bind, Except.bind]
  | ok middle => simp [bind, Except.bind]

theorem walk_append_eq_ok {front back : List Path.Part} :
    files.walk leap place (front ++ back) = .ok other ↔
      ∃ middle, files.walk leap place front = .ok middle ∧
        files.walk leap middle back = .ok other := by
  unfold walk
  rw [List.foldlM_append]
  cases front.foldlM (files.follow leap) place with
  | error error => simp [bind, Except.bind]
  | ok middle => simp [bind, Except.bind]

theorem walk_singleton : files.walk leap place [part] = files.follow leap place part := by
  unfold walk
  rw [List.foldlM_cons]
  cases files.follow leap place part with
  | error error => rfl
  | ok middle => rfl

theorem walk_of_grows (hgrows : Grows files after)
    (hleap : ∀ link place, leap link = .ok place → leap' link = .ok place)
    (hwalk : files.walk leap place parts = .ok other) :
    after.walk leap' place parts = .ok other := by
  induction parts generalizing place with
  | nil => exact hwalk
  | cons part rest ih =>
      rcases walk_cons_eq_ok.mp hwalk with ⟨middle, hfollow, hrest⟩
      exact walk_cons_eq_ok.mpr ⟨middle, follow_of_grows hgrows hleap hfollow, ih hrest⟩

/-- Links lead where they led, by induction on how deep they may lead through others. -/
theorem leapWithin_of_grows (hgrows : Grows files after) (depth : Nat) {link : Link}
    (hleap : files.leapWithin depth link = .ok place) :
    after.leapWithin depth link = .ok place := by
  induction depth generalizing link place with
  | zero => cases hleap
  | succ depth ih => exact walk_of_grows hgrows (fun _ _ => ih) hleap

theorem Grows.walk_eq_ok (hgrows : Grows files after)
    (hwalk : files.walk files.leap place parts = .ok other) :
    after.walk after.leap place parts = .ok other :=
  walk_of_grows hgrows (fun _ _ => leapWithin_of_grows hgrows maxLinks) hwalk

theorem Grows.enter_eq_ok (hgrows : Grows files after)
    (henter : files.enter files.leap place = .ok other) :
    after.enter after.leap place = .ok other :=
  enter_of_grows hgrows (fun _ _ => leapWithin_of_grows hgrows maxLinks) henter

theorem walk_blank (hblank : ∀ part ∈ parts, Path.isBlank part = true)
    (hwalk : files.walk leap place parts = .ok other) :
    place = other := by
  induction parts generalizing place with
  | nil => exact Except.ok.inj hwalk
  | cons part rest ih =>
      rcases walk_cons_eq_ok.mp hwalk with ⟨middle, hfollow, hrest⟩
      have hstep := (follow_eq_ok.mp hfollow).right
      rw [if_pos (hblank part List.mem_cons_self)] at hstep
      rw [hstep]
      exact ih (fun part hmem => hblank part (List.mem_cons_of_mem _ hmem)) hrest

theorem walk_tidy (hwalk : files.walk leap place parts = .ok other) :
    files.walk leap place (Path.tidy parts) = .ok other := by
  cases parts with
  | nil => exact hwalk
  | cons first rest =>
      rcases walk_cons_eq_ok.mp hwalk with ⟨start, hfirst, hrest⟩
      rw [← @List.rdropWhile_append_rtakeWhile _ Path.isBlank rest] at hrest
      rcases walk_append_eq_ok.mp hrest with ⟨middle, hfront, hback⟩
      rw [← walk_blank (fun part hmem => List.mem_rtakeWhile_imp hmem) hback]
      exact walk_cons_eq_ok.mpr ⟨start, hfirst, hfront⟩

end Places

/-!
## Names in directories
-/

/-- The path names this place, whether or not something is there. -/
inductive Names (files : FileSystem) (path : Path) : Location → Prop where
  | intro {front : List Path.Part} {name : Path.Part} {directory place : Location}
      (hends : path.Ends front name)
      (hpath : isLongPath path = false)
      (hname : isLongName name = false)
      (hfront : files.walk files.leap (origin path) front = .ok directory)
      (hdirectory : files.get? directory = some .directory)
      (hplace : files.enter files.leap (directory ++ [name]) = .ok place) :
      Names files path place

def EndsInLink (files : FileSystem) (path : Path) : Prop :=
  ∃ front name directory, path.Ends front name ∧
    files.walk files.leap (origin path) front = .ok directory ∧
      (files.links.lookup (directory ++ [name])).isSome = true

theorem EndsInLink.links_ne_nil {files : FileSystem} {path : Path}
    (hlink : files.EndsInLink path) : files.links ≠ [] := by
  rcases hlink with ⟨front, name, directory, _, _, hlink⟩
  intro hnil
  rw [hnil] at hlink
  cases hlink

section Access

variable {files after : FileSystem} {path : Path} {place other : Location} {bytes : Bytes}

theorem Ends.names_eq {front : List Path.Part} {name : Path.Part} (hends : path.Ends front name)
    (hnames : Names files path place) :
    ∃ directory, files.walk files.leap (origin path) front = .ok directory ∧
      files.enter files.leap (directory ++ [name]) = .ok place := by
  cases hnames with
  | @intro other last directory place hends' _ _ hfront _ hplace =>
      rcases List.append_inj' (hends.split_eq.symm.trans hends'.split_eq) rfl with ⟨hparts, hlast⟩
      rw [hparts, (List.cons.inj hlast).left]
      exact ⟨directory, hfront, hplace⟩

theorem Names.unique (hnames : Names files path place) (hother : Names files path other) :
    place = other := by
  cases hnames with
  | intro hends _ _ hfront _ hplace =>
      rcases Ends.names_eq hends hother with ⟨directory, hwalk, hplace'⟩
      rw [hfront, Except.ok.injEq] at hwalk
      rw [hwalk, hplace', Except.ok.injEq] at hplace
      exact hplace.symm

/-- Without a link at its end, a path names a place that ends with the same name. -/
theorem Names.getLast?_eq (hnames : Names files path place) (hlink : ¬ files.EndsInLink path) :
    place.getLast? = (Path.split path.chars).getLast? := by
  cases hnames with
  | @intro front name directory place hends _ _ hfront _ hplace =>
      have hnone : files.links.lookup (directory ++ [name]) = none := by
        rw [← Option.not_isSome_iff_eq_none]
        exact fun hsome => hlink ⟨front, name, directory, hends, hfront, hsome⟩
      rw [enter, hnone, Except.ok.injEq] at hplace
      rw [← hplace, hends.split_eq, List.getLast?_concat, List.getLast?_concat]

theorem Names.of_grows (hnames : Names files path place) (hgrows : Grows files after) :
    Names after path place := by
  cases hnames with
  | intro hends hpath hname hfront hdirectory hplace =>
      exact .intro hends hpath hname (hgrows.walk_eq_ok hfront)
        (hgrows.directory _ hdirectory) (hgrows.enter_eq_ok hplace)

theorem resolve_eq_ok :
    files.resolve path = .ok place ↔ path.chars ≠ [] ∧ isLongPath path = false ∧
      files.walk files.leap (origin path) (Path.split path.chars) = .ok place ∧
        (files.get? place).isSome = true := by
  unfold resolve
  by_cases hnil : path.chars = []
  · simp [hnil]
  · cases isLongPath path with
    | true => simp [hnil]
    | false =>
        cases files.walk files.leap (origin path) (Path.split path.chars) with
        | error error => simp [hnil, bind, Except.bind]
        | ok found =>
            by_cases hthere : (files.get? found).isSome = true
            · simp only [hnil, if_false, Bool.false_eq_true, bind, Except.bind, hthere, if_true,
                pure, Except.pure, Except.ok.injEq, ne_eq, not_false_eq_true, true_and]
              exact ⟨fun hsame => ⟨hsame, hsame ▸ hthere⟩, fun h => h.left⟩
            · simp only [hnil, if_false, Bool.false_eq_true, bind, Except.bind, if_neg hthere,
                Except.ok.injEq, ne_eq, not_false_eq_true, true_and, reduceCtorEq, false_iff,
                not_and]
              exact fun hsame hother => hthere (hsame ▸ hother)

theorem Names.walk_eq_ok (hnames : Names files path place) :
    files.walk files.leap (origin path) (Path.split path.chars) = .ok place := by
  cases hnames with
  | @intro front name directory place hends hpath hname hfront hdirectory hplace =>
      rw [hends.split_eq]
      refine walk_append_eq_ok.mpr ⟨directory, hfront, ?_⟩
      rw [walk_singleton, follow_eq_ok, hends.not_blank, if_neg Bool.false_ne_true,
        if_neg hends.not_above]
      exact ⟨hdirectory, hname, hplace⟩

theorem Names.resolve (hnames : Names files path place)
    (hthere : (files.get? place).isSome = true) : files.resolve path = .ok place := by
  have hwalk := hnames.walk_eq_ok
  cases hnames with
  | intro hends hpath _ _ _ _ =>
      exact resolve_eq_ok.mpr ⟨hends.chars_ne_nil, hpath, hwalk, hthere⟩

theorem names_of_walk (hpath : isLongPath path = false)
    (hwalk : files.walk files.leap (origin path) (Path.split path.chars) = .ok place)
    (hfile : files.get? place ≠ some .directory) : Names files path place := by
  rcases List.eq_nil_or_concat' (Path.split path.chars) with hnil | ⟨front, name, hsplit⟩
  · exact absurd hnil (Path.split_ne_nil _)
  · rw [hsplit] at hwalk
    rcases walk_append_eq_ok.mp hwalk with ⟨directory, hfront, hlast⟩
    rw [walk_singleton, follow_eq_ok] at hlast
    rcases hlast with ⟨hdirectory, hstep⟩
    split at hstep
    · rw [hstep] at hdirectory
      exact absurd hdirectory hfile
    · rename_i hblank
      split at hstep
      · exact absurd hstep.right hfile
      · rename_i habove
        exact .intro ⟨hsplit, Bool.not_eq_true _ ▸ hblank, habove⟩ hpath hstep.left hfront
          hdirectory hstep.right

theorem names_of_resolve (hresolve : files.resolve path = .ok place)
    (hfile : files.get? place ≠ some .directory) : Names files path place := by
  rcases resolve_eq_ok.mp hresolve with ⟨_, hpath, hwalk, _⟩
  exact names_of_walk hpath hwalk hfile

theorem read_eq_ok :
    files.read path = .ok bytes ↔
      ∃ place, Names files path place ∧ files.get? place = some (.file bytes) := by
  constructor
  · intro h
    unfold read at h
    cases hresolve : files.resolve path with
    | error error =>
        rw [hresolve] at h
        cases h
    | ok place =>
        rw [hresolve] at h
        cases hplace : files.get? place with
        | none =>
            simp only [bind, Except.bind, hplace] at h
            cases h
        | some node =>
            cases node with
            | directory =>
                simp only [bind, Except.bind, hplace] at h
                cases h
            | file found =>
                simp only [bind, Except.bind, hplace] at h
                have hbytes : found = bytes := Except.ok.inj h
                refine ⟨place, names_of_resolve hresolve ?_, by rw [hplace, hbytes]⟩
                rw [hplace]
                exact fun hsame => Node.noConfusion (Option.some.inj hsame)
  · intro h
    rcases h with ⟨place, hnames, hplace⟩
    have hresolve := hnames.resolve (by rw [hplace]; rfl)
    simp only [read, hresolve, bind, Except.bind, hplace]
    rfl

/-!
## Writing
-/

theorem bind_directory_eq_ok {start : Location} {parts : List Path.Part} {α : Type}
    {make : Location → α} {made : α} :
    (do
      let directory ← files.walk files.leap start parts
      match files.get? directory with
      | none => Except.error SystemError.notFound
      | some (.file _) => Except.error SystemError.notDirectory
      | some .directory => return make directory) = .ok made ↔
      ∃ directory, files.walk files.leap start parts = .ok directory ∧
        files.get? directory = some .directory ∧ make directory = made := by
  cases hwalk : files.walk files.leap start parts with
  | error error => simp [bind, Except.bind]
  | ok directory =>
      cases hdirectory : files.get? directory with
      | none => simp [bind, Except.bind, hdirectory]
      | some node =>
          cases node with
          | file bytes => simp [bind, Except.bind, hdirectory]
          | directory => simp [bind, Except.bind, hdirectory, pure, Except.pure]

theorem opening_of_isLongPath (hchars : path.chars ≠ []) (hpath : isLongPath path = true) :
    files.opening path = .error .nameTooLong := by
  rw [opening, if_neg hchars, if_pos hpath]

theorem opening_of_ends {front : List Path.Part} {name : Path.Part} (hends : path.Ends front name)
    (hpath : isLongPath path = false) :
    files.opening path = (do
      let directory ← files.walk files.leap (origin path) front
      match files.get? directory with
      | none => .error .notFound
      | some (.file _) => .error .notDirectory
      | some .directory => return some ⟨directory, name, false⟩) := by
  have hempty : name.isEmpty = false := by
    rw [← Bool.not_eq_true, List.isEmpty_iff]
    exact Path.ne_nil_of_not_blank hends.not_blank
  have hreverse : (Path.split path.chars).reverse = name :: front.reverse := by
    rw [hends.split_eq, List.reverse_append]
    rfl
  have hkeep : (name :: front.reverse).dropWhile (·.isEmpty) = name :: front.reverse :=
    List.dropWhile_cons_of_neg (by rw [hempty]; exact Bool.false_ne_true)
  rw [opening, if_neg hends.chars_ne_nil, hpath, if_neg Bool.false_ne_true, hreverse]
  dsimp only
  rw [hkeep]
  dsimp only
  rw [List.reverse_reverse, List.head?_cons, Option.any_some]
  exact hempty ▸ rfl

/-- Where a path ends with a name, it opens there, and with a name only there. -/
theorem opening_eq_ok {name : Path.Part} {directory : Location} (hfixed : isFixed name = false) :
    files.opening path = .ok (some ⟨directory, name, false⟩) ↔
      ∃ front, path.Ends front name ∧ isLongPath path = false ∧
        files.walk files.leap (origin path) front = .ok directory ∧
        files.get? directory = some .directory := by
  constructor
  · intro h
    rcases List.eq_nil_or_concat' (Path.split path.chars) with hnone | ⟨front, last, hsplit⟩
    · exact absurd hnone (Path.split_ne_nil _)
    have hreverse : (Path.split path.chars).reverse = last :: front.reverse := by
      rw [hsplit, List.reverse_append]
      rfl
    have hkeep : last.isEmpty = false →
        (last :: front.reverse).dropWhile (·.isEmpty) = last :: front.reverse := fun hempty =>
      List.dropWhile_cons_of_neg (by rw [hempty]; exact Bool.false_ne_true)
    unfold opening at h
    split at h
    · cases h
    · split at h
      · cases h
      · rename_i hpath
        rw [hreverse] at h
        dsimp only at h
        generalize hdropped : (last :: front.reverse).dropWhile (·.isEmpty) = dropped at h
        cases dropped with
        | nil => cases h
        | cons found before =>
            rcases bind_directory_eq_ok.mp h with ⟨start, hwalk, hstart, hmade⟩
            simp only [Option.some.injEq, Opening.mk.injEq, List.head?_cons,
              Option.any_some] at hmade
            rcases hmade with ⟨hdirectory, hname, hempty⟩
            rw [hkeep hempty, List.cons.injEq] at hdropped
            rw [← hdropped.right, List.reverse_reverse, hdirectory] at hwalk
            rw [hdirectory] at hstart
            rw [isFixed, Bool.or_eq_false_iff, beq_eq_false_iff_ne, beq_eq_false_iff_ne] at hfixed
            refine ⟨front, ⟨?_, ?_, hfixed.right⟩, Bool.not_eq_true _ ▸ hpath, hwalk, hstart⟩
            · rw [hsplit, hdropped.left, hname]
            · rw [hdropped.left, hname] at hempty
              rw [Path.isBlank, hempty, beq_false_of_ne hfixed.left]
              rfl
  · intro h
    rcases h with ⟨front, hends, hpath, hfront, hdirectory⟩
    rw [opening_of_ends hends hpath]
    exact bind_directory_eq_ok.mpr ⟨directory, hfront, hdirectory, rfl⟩

theorem Ends.isFixed {front : List Path.Part} {name : Path.Part} (hends : path.Ends front name) :
    isFixed name = false := by
  rw [FileSystem.isFixed, Bool.or_eq_false_iff, beq_eq_false_iff_ne, beq_eq_false_iff_ne]
  exact ⟨Path.ne_here_of_not_blank hends.not_blank, hends.not_above⟩

theorem locate_eq_ok : files.locate path = .ok place ↔ Names files path place := by
  constructor
  · intro h
    unfold locate at h
    cases hopening : files.opening path with
    | error error => simp [hopening, bind, Except.bind] at h
    | ok opening? =>
        cases opening? with
        | none => simp [hopening, bind, Except.bind] at h
        | some opening =>
            rcases opening with ⟨directory, name, slashed⟩
            simp only [hopening, bind, Except.bind] at h
            split at h
            · cases h
            · rename_i hplain
              rw [Bool.or_eq_true, not_or, Bool.not_eq_true, Bool.not_eq_true] at hplain
              split at h
              · cases h
              · rename_i hname
                rw [hplain.left] at hopening
                rcases (opening_eq_ok hplain.right).mp hopening with
                  ⟨front, hends, hpath, hfront, hdirectory⟩
                exact .intro hends hpath (Bool.not_eq_true _ ▸ hname) hfront hdirectory h
  · intro hnames
    cases hnames with
    | @intro front name directory place hends hpath hname hfront hdirectory hplace =>
        have hfixed := Ends.isFixed hends
        have hopening := (opening_eq_ok hfixed).mpr ⟨front, hends, hpath, hfront, hdirectory⟩
        simp only [locate, hopening, bind, Except.bind, hfixed, hname, Bool.or_self,
          if_neg Bool.false_ne_true]
        exact hplace

theorem forall_names_of_all {p : Location → Prop} [DecidablePred p]
    (hall : (files.locate path).toOption.all (fun place => p place) = true) :
    ∀ place, Names files path place → p place := by
  intro place hnames
  rw [locate_eq_ok.mpr hnames] at hall
  exact of_decide_eq_true hall

theorem locate_of_ends {front : List Path.Part} {name : Path.Part} (hends : path.Ends front name) :
    files.locate path =
      if isLongPath path then .error .nameTooLong
      else files.walk files.leap (origin path) (Path.split path.chars) := by
  cases hpath : isLongPath path with
  | true => rw [locate, opening_of_isLongPath hends.chars_ne_nil hpath, if_pos rfl]; rfl
  | false =>
      rw [locate, opening_of_ends hends hpath, if_neg Bool.false_ne_true, hends.split_eq]
      unfold walk
      rw [List.foldlM_append]
      cases front.foldlM (files.follow files.leap) (origin path) with
      | error error => rfl
      | ok directory =>
          show _ = files.walk files.leap directory [name]
          rw [walk_singleton]
          unfold follow
          dsimp only [bind, Except.bind]
          cases files.get? directory with
          | none => rfl
          | some node =>
              cases node with
              | file bytes => rfl
              | directory =>
                  simp only [pure, Except.pure, Bool.false_or, Ends.isFixed hends,
                    hends.not_blank, if_neg hends.not_above, if_neg Bool.false_ne_true]

theorem write_eq_ok :
    files.write path bytes = .ok after ↔
      ∃ place, Names files path place ∧ files.get? place ≠ some .directory ∧
        after = files.set place (.file bytes) := by
  unfold write
  constructor
  · intro h
    cases hlocate : files.locate path with
    | error error => simp [hlocate, bind, Except.bind] at h
    | ok place =>
        simp only [hlocate, bind, Except.bind] at h
        split at h
        · cases h
        · rename_i hplace
          exact ⟨place, locate_eq_ok.mp hlocate, hplace, (Except.ok.inj h).symm⟩
  · rintro ⟨place, hnames, hplace, hafter⟩
    simp only [locate_eq_ok.mpr hnames, bind, Except.bind, if_neg hplace, hafter]
    rfl

theorem grows_write (hwrite : files.write path bytes = .ok after) : Grows files after := by
  rcases write_eq_ok.mp hwrite with ⟨place, _, hplace, hafter⟩
  rw [hafter]
  exact grows_set hplace _

theorem read_write (hwrite : files.write path bytes = .ok after) : after.read path = .ok bytes := by
  have hgrows := grows_write hwrite
  rcases write_eq_ok.mp hwrite with ⟨place, hnames, hplace, hafter⟩
  refine read_eq_ok.mpr ⟨place, hnames.of_grows hgrows, ?_⟩
  rw [hafter, get?_set_self (isOutside_of_get? hplace)]

theorem read_of_write {target : Path} {written : Bytes}
    (hwrite : files.write target written = .ok after) (hnames : Names files target place)
    (hread : files.read path = .ok bytes) (helsewhere : ¬ Names files path place) :
    after.read path = .ok bytes := by
  have hgrows := grows_write hwrite
  rcases write_eq_ok.mp hwrite with ⟨found, hfound, _, hafter⟩
  rcases read_eq_ok.mp hread with ⟨source, hsource, hplace⟩
  have hne : source ≠ found := by
    intro hsame
    rw [hsame, hfound.unique hnames] at hsource
    exact helsewhere hsource
  refine read_eq_ok.mpr ⟨source, hsource.of_grows hgrows, ?_⟩
  rw [hafter, get?_set_other hne]
  exact hplace

/-!
## Making directories
-/

/-- What is there stays as it is. -/
structure Extends (files after : FileSystem) : Prop where
  links : after.links = files.links
  kept : ∀ place node, files.get? place = some node → after.get? place = some node

theorem Extends.refl (files : FileSystem) : Extends files files :=
  ⟨rfl, fun _ _ h => h⟩

theorem Extends.trans {last : FileSystem} (hfirst : Extends files after)
    (hsecond : Extends after last) : Extends files last where
  links := hsecond.links.trans hfirst.links
  kept place node h := hsecond.kept place node (hfirst.kept place node h)

theorem Extends.grows (hextends : Extends files after) : Grows files after where
  links := hextends.links
  directory place h := hextends.kept place .directory h
  present place h := by
    rcases Option.isSome_iff_exists.mp h with ⟨node, hnode⟩
    rw [hextends.kept place node hnode]
    rfl

theorem Extends.read_eq_ok (hextends : Extends files after)
    (hread : files.read path = .ok bytes) : after.read path = .ok bytes := by
  rcases FileSystem.read_eq_ok.mp hread with ⟨place, hnames, hplace⟩
  exact FileSystem.read_eq_ok.mpr
    ⟨place, hnames.of_grows hextends.grows, hextends.kept place _ hplace⟩

theorem extends_set {node : Node} (hplace : files.get? place = none) :
    Extends files (files.set place node) := by
  refine ⟨links_set files place node, ?_⟩
  intro other found hfound
  have hne : other ≠ place := by
    intro hsame
    rw [hsame, hplace] at hfound
    cases hfound
  rw [get?_set_other hne]
  exact hfound

theorem extends_makeDirectory (hmake : files.makeDirectory path = .ok after) :
    Extends files after := by
  unfold makeDirectory at hmake
  cases hopening : files.opening path with
  | error error => simp [hopening, bind, Except.bind] at hmake
  | ok opening? =>
      cases opening? with
      | none => simp [hopening, bind, Except.bind] at hmake
      | some opening =>
          simp only [hopening, bind, Except.bind] at hmake
          split at hmake
          · cases hmake
          · rename_i hnew
            rw [Bool.or_eq_true, not_or, Bool.not_eq_true, Bool.not_eq_true,
              Option.isSome_eq_false_iff, Option.isNone_iff_eq_none] at hnew
            split at hmake
            · cases hmake
            · rw [← Except.ok.inj hmake]
              exact extends_set hnew.right

/-!
## Operations on a storage
-/

theorem run_update {operation : FileSystem → Except SystemError FileSystem}
    (files : FileSystem) :
    (update operation).run files =
      match operation files with
      | .ok changed => (.ok (), changed)
      | .error error => (.error error, files) := rfl

theorem run_write (hwrite : files.write path bytes = .ok after) :
    (storage.write path bytes).run files = (.ok (), after) := by
  show (update fun files => files.write path bytes).run files = _
  rw [run_update, hwrite]

theorem run_write_error {error : SystemError} (hwrite : files.write path bytes = .error error) :
    (storage.write path bytes).run files = (.error error, files) := by
  show (update fun files => files.write path bytes).run files = _
  rw [run_update, hwrite]

theorem extends_storage_makeDirectory (files : FileSystem) (path : Path) :
    Extends files ((storage.makeDirectory path).run files).2 := by
  show Extends files ((update fun files => files.makeDirectory path).run files).2
  rw [run_update]
  cases hmake : files.makeDirectory path with
  | error error => exact Extends.refl files
  | ok after => exact extends_makeDirectory hmake

theorem extends_ensureDirectory (files : FileSystem) (path : Path) :
    Extends files ((storage.ensureDirectory path).run files).2 := by
  have hmake := extends_storage_makeDirectory files path
  unfold Storage.ensureDirectory
  rw [StateT.run_bind]
  generalize (storage.makeDirectory path).run files = made at hmake
  rcases made with ⟨answer, after⟩
  cases answer with
  | ok value => exact hmake
  | error error =>
      have hasked : (storage.isDirectory path).run after = (after.isDirectory path, after) := rfl
      show Extends files (StateT.run (storage.isDirectory path >>= _) after).2
      rw [StateT.run_bind, hasked]
      dsimp only [bind]
      split
      · exact hmake
      · exact hmake

theorem extends_ensureDirectoriesFrom (depth : Nat) (files : FileSystem) (path : Path) :
    Extends files ((storage.ensureDirectoriesFrom depth path).run files).2 := by
  induction depth generalizing files path with
  | zero => exact extends_ensureDirectory files path
  | succ depth ih =>
      unfold Storage.ensureDirectoriesFrom
      split
      · exact Extends.refl files
      · have hensure := extends_ensureDirectory files path
        simp only [StateT.run_bind]
        generalize (storage.ensureDirectory path).run files = ensured at hensure
        rcases ensured with ⟨answer, after⟩
        cases answer with
        | ok value => exact hensure
        | error error =>
            dsimp only [bind]
            split
            · exact hensure
            · cases hparent : path.parent? with
              | none => exact hensure
              | some parent =>
                  have habove := ih after parent
                  show Extends files
                    (StateT.run (storage.ensureDirectoriesFrom depth parent >>= _) after).2
                  rw [StateT.run_bind]
                  generalize (storage.ensureDirectoriesFrom depth parent).run after = made
                    at habove
                  rcases made with ⟨answer, last⟩
                  cases answer with
                  | error error => exact hensure.trans habove
                  | ok value =>
                      exact (hensure.trans habove).trans (extends_ensureDirectory last path)

theorem extends_ensureDirectories (files : FileSystem) (path : Path) :
    Extends files ((storage.ensureDirectories path).run files).2 :=
  extends_ensureDirectoriesFrom _ files path

/-!
## Suffixes
-/

theorem byteSize_append (front back : List Char) :
    byteSize (front ++ back) = byteSize front + byteSize back := by
  have hstart : ∀ (chars : List Char) (start : Nat),
      chars.foldl (fun size char => size + char.utf8Size) start = start + byteSize chars := by
    intro chars
    induction chars with
    | nil => exact fun _ => rfl
    | cons char rest ih =>
        intro start
        rw [byteSize, List.foldl_cons, ih, List.foldl_cons, ih]
        omega
  rw [byteSize, List.foldl_append, hstart back]
  rfl

section Suffixes

variable {suffix fallback : Path.Part}

theorem origin_eq {front other : List Path.Part} {name last : Path.Part} {path' : Path}
    (hends : path.Ends front name) (hends' : path'.Ends other last)
    (hhead : front.head? = other.head?) : origin path = origin path' := by
  have hsame : path.isAbsolute = path'.isAbsolute := by
    rw [Bool.eq_iff_iff,
      Path.isAbsolute_iff hends.split_eq (Path.ne_nil_of_not_blank hends.not_blank),
      Path.isAbsolute_iff hends'.split_eq (Path.ne_nil_of_not_blank hends'.not_blank), hhead]
  rw [origin, origin, hsame]

theorem origin_tidy {front : List Path.Part} {name last : Path.Part} {path' : Path}
    (hends : path.Ends front name) (hends' : path'.Ends (Path.tidy front) last) :
    origin path = origin path' := by
  apply origin_eq hends hends'
  cases front with
  | nil => rfl
  | cons first rest => rfl

theorem Names.dropSuffix_addSuffix (hnames : Names files path place) (hsuffix : '/' ∉ suffix)
    (hshort : isLongPath (path.addSuffix suffix none) = false) :
    Names files ((path.addSuffix suffix none).dropSuffix suffix fallback) place := by
  cases hnames with
  | @intro front name directory place hends hpath hname hfront hdirectory hplace =>
      have hended := hends.ends_dropSuffix_addSuffix hsuffix fallback
      have horigin := origin_tidy hends hended
      refine .intro hended ?_ hname ?_ hdirectory hplace
      · rw [isLongPath, hends.chars_addSuffix hsuffix fallback, byteSize_append,
          decide_eq_false_iff_not] at hshort
        rw [isLongPath, decide_eq_false_iff_not]
        omega
      · rw [← horigin]
        exact walk_tidy hfront

theorem write_dropSuffix_addSuffix {stored : Bytes} (hsuffix : '/' ∉ suffix)
    (fallback : Path.Part) (hread : files.read (path.addSuffix suffix none) = .ok stored)
    (hwrite : files.write path bytes = .ok after) :
    files.write ((path.addSuffix suffix none).dropSuffix suffix fallback) bytes = .ok after := by
  rcases read_eq_ok.mp hread with ⟨other, hother, _⟩
  rcases write_eq_ok.mp hwrite with ⟨place, hnames, hplace, hafter⟩
  have hshort : isLongPath (path.addSuffix suffix none) = false := by
    cases hother with
    | intro _ hpath _ _ _ _ => exact hpath
  exact write_eq_ok.mpr ⟨place, hnames.dropSuffix_addSuffix hsuffix hshort, hplace, hafter⟩

theorem Names.addSuffix_none (hnames : Names files path place) (hsuffix : '/' ∉ suffix)
    (hother : Names files (path.addSuffix suffix none) other) :
    ∃ directory name, files.enter files.leap (directory ++ [name]) = .ok place ∧
      files.enter files.leap (directory ++ [name ++ suffix]) = .ok other := by
  cases hnames with
  | @intro front name directory place hends _ _ hfront _ hplace =>
      have hended := hends.ends_addSuffix hsuffix
      have horigin := origin_tidy hends hended
      rcases Ends.names_eq hended hother with ⟨found, hfound, hother⟩
      rw [← horigin, walk_tidy hfront, Except.ok.injEq] at hfound
      exact ⟨directory, name, hplace, hfound ▸ hother⟩

/-- Paths that end with different names name different places, unless links are in the way. -/
theorem Names.ne_of_getLast?_ne {path' : Path} (hnames : Names files path place)
    (hother : Names files path' other) (hlink : ¬ files.EndsInLink path)
    (hlink' : ¬ files.EndsInLink path')
    (hlast : (Path.split path'.chars).getLast? ≠ (Path.split path.chars).getLast?) :
    other ≠ place := by
  intro hsame
  rw [← hnames.getLast?_eq hlink, ← hother.getLast?_eq hlink', hsame] at hlast
  exact hlast rfl

theorem Names.getLast?_addSuffix_ne (hnames : Names files path place) (hsuffix : '/' ∉ suffix)
    (hsome : suffix ≠ []) (directory? : Option Path) :
    (Path.split (path.addSuffix suffix directory?).chars).getLast? ≠
      (Path.split path.chars).getLast? := by
  cases hnames with
  | intro hends _ _ _ _ _ =>
      rcases hends.exists_ends_addSuffix hsuffix directory? with ⟨front, hended⟩
      rw [hended.split_eq, hends.split_eq, List.getLast?_concat, List.getLast?_concat,
        ne_eq, Option.some.injEq, List.append_right_eq_self]
      exact hsome

theorem Names.getLast?_dropSuffix_ne (hnames : Names files path place) (hsuffix : suffix ≠ [])
    (hfallback : '/' ∉ fallback) (hsome : fallback ≠ []) :
    (Path.split (path.dropSuffix suffix fallback).chars).getLast? ≠
      (Path.split path.chars).getLast? := by
  cases hnames with
  | intro hends _ _ _ _ _ =>
      rcases hends.split_dropSuffix hsuffix hfallback hsome with ⟨last, hsplit, hne⟩
      rw [hsplit, hends.split_eq, List.getLast?_concat, List.getLast?_concat, ne_eq,
        Option.some.injEq]
      exact hne

end Suffixes

end Access

end FileSystem
end BoundedZlib
