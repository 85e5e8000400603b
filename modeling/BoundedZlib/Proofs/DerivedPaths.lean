import BoundedZlib.Proofs.PathParts

/-!
# Components of paths, and paths derived from others

Paths are compared by their components: the root or the current directory, if the text begins
with one, then the names and the steps up.  The file name is the last component if that is a
name, the parent has all components but the last, and a directory with a name pushed onto it has
one more.  Of all characters only the slash and the dot count for this, so it holds as well of
paths that are no text, with one character for each of their bytes.

Adding a suffix to a file name and dropping one from it both put another name in place of the
last component.  The path of a file becomes that of another file in the same directory, unless
the name that is put there means a directory.  An added suffix never leads to such a name, a
dropped one does if it leaves one dot or two.
-/

namespace BoundedZlib
namespace Path

/-!
## Components
-/

inductive Component where
  | root
  | here
  | above
  | name (name : Part)
deriving Repr, DecidableEq

namespace Component

def ofLead (lead : List Char) : List Component :=
  if lead = [] then [] else if lead = Path.here then [.here] else [.root]

def ofPart (part : Part) : Component :=
  if part = Path.above then .above else .name part

def ofPart? (part : Part) : Option Component :=
  if isBlank part then none else some (ofPart part)

def name? : Component → Option Part
  | .name part => some part
  | _ => none

theorem ofPart?_of_blank {part : Part} (hblank : isBlank part = true) : ofPart? part = none :=
  if_pos hblank

theorem ofPart?_of_not_blank {part : Part} (hblank : isBlank part = false) :
    ofPart? part = some (ofPart part) := by
  rw [ofPart?, hblank]
  rfl

theorem ofPart_of_ne {part : Part} (habove : part ≠ Path.above) : ofPart part = .name part :=
  if_neg habove

theorem name?_ofPart (part : Part) :
    (ofPart part).name? = if part = Path.above then none else some part := by
  rw [ofPart]
  split <;> rfl

theorem ofPart_ne_root (part : Part) : ofPart part ≠ .root := by
  rw [ofPart]
  split <;> exact Component.noConfusion

theorem filterMap_rdropWhile (parts : List Part) :
    (parts.rdropWhile isBlank).filterMap ofPart? = parts.filterMap ofPart? := by
  induction parts using List.reverseRecOn with
  | nil => rfl
  | append_singleton parts part ih =>
      rw [List.rdropWhile_concat]
      split
      · rename_i hblank
        rw [ih, List.filterMap_append, List.filterMap_cons_none (ofPart?_of_blank hblank),
          List.filterMap_nil, List.append_nil]
      · rfl

end Component

def components (path : Path) : List Component :=
  Component.ofLead path.lead.1 ++ (split path.lead.2).filterMap Component.ofPart?

theorem lead_append (path : Path) : path.lead.1 ++ path.lead.2 = path.chars := by
  unfold lead
  split
  · rename_i hchars
    exact hchars.symm
  · rename_i hchars
    exact hchars.symm
  · rename_i hchars
    exact hchars.symm
  · rfl

theorem lead_cases (path : Path) :
    path.lead.1 = [] ∨ path.lead.1 = ['/'] ∨ path.lead.1 = here := by
  unfold lead
  split
  · exact Or.inr (Or.inl rfl)
  · exact Or.inr (Or.inr rfl)
  · exact Or.inr (Or.inr rfl)
  · exact Or.inl rfl

theorem lead_append_slash {chars : List Char} (hsome : chars ≠ []) (rest : List Char) :
    lead ⟨chars ++ '/' :: rest⟩ = ((lead ⟨chars⟩).1, (lead ⟨chars⟩).2 ++ '/' :: rest) := by
  cases chars with
  | nil => exact absurd rfl hsome
  | cons c more =>
      by_cases hslash : c = '/'
      · rw [hslash]
        rfl
      · by_cases hdot : c = '.'
        · rw [hdot]
          cases more with
          | nil => rfl
          | cons d others =>
              by_cases hslash' : d = '/'
              · rw [hslash']
                rfl
              · simp [lead, hslash']
        · simp [lead, hslash, hdot]

theorem components_append_slash {chars : List Char} (hsome : chars ≠ []) (rest : List Char) :
    components ⟨chars ++ '/' :: rest⟩ =
      components ⟨chars⟩ ++ (split rest).filterMap Component.ofPart? := by
  rw [components, components, lead_append_slash hsome, split_append_slash, List.filterMap_append,
    List.append_assoc]

theorem components_eq (path : Path) :
    path.components =
      Component.ofLead path.lead.1 ++ path.latestParts.reverse.filterMap Component.ofPart? := by
  have hparts : path.latestParts.reverse = (split path.lead.2).rdropWhile isBlank := rfl
  rw [hparts, Component.filterMap_rdropWhile, components]

/-!
## File names and parents
-/

section Parts

variable {path : Path} {part : Part} {earlier : List Part}

theorem not_blank_of_latestParts (hlatest : path.latestParts = part :: earlier) :
    isBlank part = false := by
  have hhead := List.head?_dropWhile_not isBlank (split path.lead.2).reverse
  rw [show (split path.lead.2).reverse.dropWhile isBlank = part :: earlier from hlatest] at hhead
  exact hhead

theorem not_mem_of_mem_latestParts (hmem : part ∈ path.latestParts) : '/' ∉ part :=
  not_mem_of_mem_split (List.mem_reverse.mp ((List.dropWhile_suffix isBlank).subset hmem))

theorem components_of_latestParts (hlatest : path.latestParts = part :: earlier) :
    path.components = Component.ofLead path.lead.1 ++
      earlier.reverse.filterMap Component.ofPart? ++ [Component.ofPart part] := by
  rw [components_eq, hlatest, List.reverse_cons, List.filterMap_append, List.append_assoc,
    List.filterMap_cons_some
      (Component.ofPart?_of_not_blank (not_blank_of_latestParts hlatest)),
    List.filterMap_nil]

theorem join_append {front back : List Part} (hfront : front ≠ []) (hback : back ≠ []) :
    join (front ++ back) = join front ++ '/' :: join back := by
  induction front with
  | nil => exact absurd rfl hfront
  | cons first rest ih =>
      by_cases hrest : rest = []
      · rw [hrest, List.singleton_append, join_cons hback]
        rfl
      · rw [List.cons_append, join_cons (List.append_ne_nil_of_left_ne_nil hrest _), ih hrest,
          join_cons hrest, List.append_assoc, List.cons_append]

theorem components_lead (path : Path) :
    components ⟨path.lead.1⟩ = Component.ofLead path.lead.1 := by
  rcases lead_cases path with hlead | hlead | hlead <;> rw [hlead] <;> rfl

theorem join_eq_nil {parts : List Part} (hnil : join parts = []) : parts = [] ∨ parts = [[]] := by
  match parts with
  | [] => exact Or.inl rfl
  | [part] => exact Or.inr (congrArg (fun text => [text]) hnil)
  | part :: next :: others => exact absurd hnil (List.append_ne_nil_of_right_ne_nil _ (by simp))

theorem components_join {front back : List Part} (hsplit : split path.lead.2 = front ++ back)
    (hback : back ≠ []) (hfront : front ≠ [[]]) :
    components ⟨path.lead.1 ++ join front⟩ =
      Component.ofLead path.lead.1 ++ front.filterMap Component.ofPart? := by
  by_cases hnone : front = []
  · rw [hnone, join, List.append_nil, components_lead, List.filterMap_nil, List.append_nil]
  · have hsome : path.lead.1 ++ join front ≠ [] := by
      apply List.append_ne_nil_of_right_ne_nil
      intro hnil
      exact (join_eq_nil hnil).elim hnone hfront
    have hchars : path.chars = (path.lead.1 ++ join front) ++ '/' :: join back := by
      rw [List.append_assoc, ← join_append hnone hback, ← hsplit, join_split, lead_append]
    have hslash : ∀ part ∈ back, '/' ∉ part := by
      intro part hmem
      apply @not_mem_of_mem_split path.lead.2
      rw [hsplit]
      exact List.mem_append_right _ hmem
    have hall : path.components = components ⟨path.lead.1 ++ join front⟩ ++
        back.filterMap Component.ofPart? := by
      conv => lhs; rw [show path = ⟨path.chars⟩ from rfl, hchars]
      rw [components_append_slash hsome, split_join hback hslash]
    rw [components, hsplit, List.filterMap_append, ← List.append_assoc] at hall
    exact (List.append_cancel_right hall).symm

theorem components_beforeLast (hlatest : path.latestParts = part :: earlier) :
    path.beforeLast.components =
      Component.ofLead path.lead.1 ++ earlier.reverse.filterMap Component.ofPart? := by
  have hkept : (earlier.dropWhile isBlank).reverse = earlier.reverse.rdropWhile isBlank :=
    (List.rdropWhile_reverse isBlank earlier).symm
  rcases List.rdropWhile_prefix isBlank earlier.reverse with ⟨between, hbetween⟩
  rcases List.rdropWhile_prefix isBlank (split path.lead.2) with ⟨after, hafter⟩
  rw [show (split path.lead.2).rdropWhile isBlank = path.latestParts.reverse from rfl, hlatest,
    List.reverse_cons, ← hbetween] at hafter
  rw [beforeLast, hlatest, List.drop_one, List.tail_cons, hkept, ← Component.filterMap_rdropWhile]
  apply @components_join path _ (between ++ [part] ++ after)
  · rw [← hafter]
    simp only [List.append_assoc]
  · simp
  · intro hempty
    have hlast := List.rdropWhile_last_not isBlank earlier.reverse (by rw [hempty]; simp)
    simp [hempty, isBlank] at hlast

theorem fileName?_eq (path : Path) :
    path.fileName? = path.components.getLast?.bind Component.name? := by
  cases hlatest : path.latestParts with
  | nil =>
      rw [fileName?, hlatest, components_eq, hlatest]
      rcases lead_cases path with hlead | hlead | hlead <;> rw [hlead] <;> rfl
  | cons part earlier =>
      rw [components_of_latestParts hlatest, List.getLast?_concat, Option.bind_some,
        Component.name?_ofPart, fileName?, hlatest]

theorem components_parent? (path : Path) :
    path.parent?.map components =
      if path.components = [] ∨ path.components = [.root] then none
      else some path.components.dropLast := by
  cases hlatest : path.latestParts with
  | nil =>
      rw [parent?, hlatest, components_eq, hlatest]
      rcases lead_cases path with hlead | hlead | hlead <;> rw [hlead] <;> rfl
  | cons part earlier =>
      have hall := components_of_latestParts hlatest
      rw [← components_beforeLast hlatest] at hall
      have hparent : path.parent? = some path.beforeLast := by
        rw [parent?, hlatest]
        rfl
      rw [hparent, Option.map_some, if_neg, hall, List.dropLast_concat]
      rw [hall]
      simp [List.append_eq_singleton_iff, Component.ofPart_ne_root]

/-!
## Another file name
-/

theorem components_push_of_ne_nil {directory : Path} (hsome : directory.chars ≠ [])
    (hslash : '/' ∉ part) :
    (directory.push part).components =
      directory.components ++ [part].filterMap Component.ofPart? := by
  by_cases hlast : directory.chars.getLast? = some '/'
  · rcases List.getLast?_eq_some_iff.mp hlast with ⟨start, hstart⟩
    rw [push_open (Or.inr hlast) hslash, show directory = ⟨directory.chars⟩ from rfl, hstart,
      List.append_assoc, List.singleton_append]
    by_cases hnone : start = []
    · rw [hnone, List.nil_append, components, lead_slash, split_of_not_mem hslash]
      rfl
    · rw [components_append_slash hnone, components_append_slash hnone, split_of_not_mem hslash,
        List.append_assoc]
      rfl
  · rw [push_closed hsome hlast hslash, components_append_slash hsome, split_of_not_mem hslash]

theorem components_push (directory : Path) (hslash : '/' ∉ part) (hblank : isBlank part = false) :
    (directory.push part).components = directory.components ++ [Component.ofPart part] := by
  have hone : [part].filterMap Component.ofPart? = [Component.ofPart part] := by
    rw [List.filterMap_cons_some (Component.ofPart?_of_not_blank hblank), List.filterMap_nil]
  by_cases hnone : directory.chars = []
  · have hsplit := split_of_not_mem hslash
    rw [push_open (Or.inl hnone) hslash, show directory = ⟨directory.chars⟩ from rfl, hnone,
      List.nil_append, components, lead_of_not_blank hsplit hblank, hsplit, hone]
    rfl
  · rw [components_push_of_ne_nil hnone hslash, hone]

end Parts

structure IsName (part : Part) : Prop where
  not_mem : '/' ∉ part
  not_blank : isBlank part = false
  not_above : part ≠ above

section FileNames

variable {path : Path} {name other : Part}

theorem isName_iff (hslash : '/' ∉ name) (hsome : name ≠ []) :
    IsName name ↔ name ≠ here ∧ name ≠ above := by
  constructor
  · intro hname
    exact ⟨ne_here_of_not_blank hname.not_blank, hname.not_above⟩
  · intro h
    exact ⟨hslash, by simp [isBlank, hsome, h.left], h.right⟩

theorem IsName.ne_nil (hname : IsName name) : name ≠ [] :=
  ne_nil_of_not_blank hname.not_blank

theorem IsName.append (hname : IsName name) {suffix : Part} (hslash : '/' ∉ suffix) :
    IsName (name ++ suffix) := by
  rcases append_is_name hname.not_blank hname.not_above suffix with ⟨hblank, habove⟩
  exact ⟨not_mem_append hname.not_mem hslash, hblank, habove⟩

theorem latestParts_of_fileName? (hname : path.fileName? = some name) :
    (∃ earlier, path.latestParts = name :: earlier) ∧ name ≠ above := by
  rw [fileName?] at hname
  cases hlatest : path.latestParts with
  | nil =>
      rw [hlatest] at hname
      cases hname
  | cons part earlier =>
      rw [hlatest] at hname
      dsimp only at hname
      split at hname
      · cases hname
      · rename_i habove
        rw [Option.some.injEq] at hname
        subst hname
        exact ⟨⟨earlier, rfl⟩, habove⟩

theorem isName_of_fileName? (hname : path.fileName? = some name) : IsName name := by
  rcases latestParts_of_fileName? hname with ⟨⟨earlier, hlatest⟩, habove⟩
  refine ⟨@not_mem_of_mem_latestParts path _ ?_, not_blank_of_latestParts hlatest, habove⟩
  rw [hlatest]
  exact List.mem_cons_self

theorem components_of_fileName? (hname : path.fileName? = some name) :
    path.components = path.beforeLast.components ++ [.name name] := by
  rcases latestParts_of_fileName? hname with ⟨⟨earlier, hlatest⟩, habove⟩
  rw [components_of_latestParts hlatest, components_beforeLast hlatest,
    Component.ofPart_of_ne habove]

theorem components_parent?_of_fileName? (hname : path.fileName? = some name) :
    path.parent?.map components = some path.beforeLast.components := by
  rw [components_parent?, components_of_fileName? hname, if_neg, List.dropLast_concat]
  simp [List.append_eq_singleton_iff]

theorem withFileName_eq (hname : path.fileName? = some name) :
    path.withFileName other = path.beforeLast.push other := by
  rw [withFileName, hname]

theorem components_withFileName (hname : path.fileName? = some name) (hother : IsName other) :
    (path.withFileName other).components = path.beforeLast.components ++ [.name other] := by
  rw [withFileName_eq hname, components_push _ hother.not_mem hother.not_blank,
    Component.ofPart_of_ne hother.not_above]

theorem fileName?_withFileName (hname : path.fileName? = some name) (hother : IsName other) :
    (path.withFileName other).fileName? = some other := by
  rw [fileName?_eq, components_withFileName hname hother, List.getLast?_concat]
  rfl

theorem components_beforeLast_withFileName (hname : path.fileName? = some name)
    (hother : IsName other) :
    (path.withFileName other).beforeLast.components = path.beforeLast.components := by
  have hnext := components_of_fileName? (fileName?_withFileName hname hother)
  rw [components_withFileName hname hother] at hnext
  exact (List.append_inj_left' hnext rfl).symm

/-!
## Files beside each other
-/

/-- The other path has the same parent, and a file name. -/
structure Beside (path other : Path) : Prop where
  parent?_eq : other.parent?.map components = path.parent?.map components
  isSome_fileName? : other.fileName?.isSome = true

theorem beside_of_components_eq {path' : Path} (hname : path.fileName? = some name)
    (hother : path'.fileName? = some other)
    (hsame : path'.beforeLast.components = path.beforeLast.components) :
    path.Beside path' where
  parent?_eq := by
    rw [components_parent?_of_fileName? hname, components_parent?_of_fileName? hother, hsame]
  isSome_fileName? := by
    rw [hother]
    rfl

theorem not_beside_here (hname : path.fileName? = some name) :
    ¬ path.Beside (path.withFileName here) := by
  intro hbeside
  rw [withFileName_eq hname] at hbeside
  by_cases hnone : path.beforeLast.chars = []
  · have hnamed := hbeside.isSome_fileName?
    rw [push_open (Or.inl hnone) (by decide), hnone] at hnamed
    exact Bool.noConfusion hnamed
  · -- This is the directory itself, which would have to be its own parent.
    have hsame : (path.beforeLast.push here).components = path.beforeLast.components := by
      rw [components_push_of_ne_nil hnone (by decide)]
      exact List.append_nil _
    have hparent := hbeside.parent?_eq
    rw [components_parent?_of_fileName? hname, components_parent?, hsame] at hparent
    split at hparent
    · cases hparent
    · rename_i hneither
      have hlength := congrArg List.length (Option.some.inj hparent)
      rw [List.length_dropLast] at hlength
      exact hneither (Or.inl (List.eq_nil_of_length_eq_zero (by omega)))

theorem not_beside_above (hname : path.fileName? = some name) :
    ¬ path.Beside (path.withFileName above) := by
  intro hbeside
  have hnamed := hbeside.isSome_fileName?
  rw [withFileName_eq hname, fileName?_eq, components_push _ (by decide) rfl,
    List.getLast?_concat] at hnamed
  exact Bool.noConfusion hnamed

/-- Another part in place of the file name leads to a file beside it exactly if it is a name. -/
theorem beside_withFileName_iff (hname : path.fileName? = some name) (hslash : '/' ∉ other)
    (hsome : other ≠ []) :
    path.Beside (path.withFileName other) ↔ IsName other := by
  constructor
  · intro hbeside
    apply (isName_iff hslash hsome).mpr
    constructor
    · intro hhere
      rw [hhere] at hbeside
      exact not_beside_here hname hbeside
    · intro habove
      rw [habove] at hbeside
      exact not_beside_above hname hbeside
  · intro hother
    exact beside_of_components_eq hname (fileName?_withFileName hname hother)
      (components_beforeLast_withFileName hname hother)

theorem components_withFileName_ne (hname : path.fileName? = some name) (hslash : '/' ∉ other)
    (hsome : other ≠ []) (hne : other ≠ name) :
    (path.withFileName other).components ≠ path.components := by
  intro hsame
  have hkept : (path.withFileName other).fileName? = some name := by
    rw [fileName?_eq, hsame, ← fileName?_eq, hname]
  have hbeside : path.Beside (path.withFileName other) := by
    constructor
    · rw [components_parent?, components_parent?, hsame]
    · rw [hkept]
      rfl
  have hother := (beside_withFileName_iff hname hslash hsome).mp hbeside
  rw [fileName?_withFileName hname hother, Option.some.injEq] at hkept
  exact hne hkept

/-!
## Suffixes
-/

section Suffixes

variable {suffix fallback : Part}

def droppedName (name suffix fallback : Part) : Part :=
  (stem? name suffix).getD (name ++ fallback)

theorem droppedName_append (hsome : name ≠ []) :
    droppedName (name ++ suffix) suffix fallback = name := by
  rw [droppedName, stem?_append hsome]
  rfl

theorem droppedName_cases (name suffix fallback : Part) :
    (∃ stem, stem ≠ [] ∧ name = stem ++ suffix ∧ droppedName name suffix fallback = stem) ∨
      droppedName name suffix fallback = name ++ fallback := by
  rw [droppedName]
  cases hstem : stem? name suffix with
  | none => exact Or.inr rfl
  | some stem =>
      rcases stem?_eq_some_iff.mp hstem with ⟨hsome, hname⟩
      exact Or.inl ⟨stem, hsome, hname, rfl⟩

theorem addSuffix_eq (hname : path.fileName? = some name) :
    path.addSuffix suffix none = path.withFileName (name ++ suffix) := by
  rw [addSuffix, hname]
  rfl

theorem dropSuffix_eq (hname : path.fileName? = some name) :
    path.dropSuffix suffix fallback = path.withFileName (droppedName name suffix fallback) := by
  rw [dropSuffix, hname, Option.bind_some, droppedName]
  cases stem? name suffix with
  | none => exact addSuffix_eq hname
  | some stem => rfl

theorem droppedName_is_other (hname : IsName name) (hsuffix : suffix ≠ [])
    (hfallback : fallback ≠ []) (hslash : '/' ∉ fallback) :
    '/' ∉ droppedName name suffix fallback ∧ droppedName name suffix fallback ≠ [] ∧
      droppedName name suffix fallback ≠ name := by
  rcases droppedName_cases name suffix fallback with ⟨stem, hsome, hstem, hdropped⟩ | hadded
  · have hwithout := hname.not_mem
    rw [hstem, List.mem_append, not_or] at hwithout
    rw [hdropped]
    refine ⟨hwithout.left, hsome, ?_⟩
    rw [hstem, ne_eq, List.self_eq_append_right]
    exact hsuffix
  · rw [hadded]
    refine ⟨not_mem_append hname.not_mem hslash, (hname.append hslash).ne_nil, ?_⟩
    rw [ne_eq, List.append_right_eq_self]
    exact hfallback

/-- A part that is no name can only be left over: what begins with a name is one. -/
theorem droppedName_eq_iff {part : Part} (hname : IsName name) (hslash : '/' ∉ fallback)
    (hsome : part ≠ []) (hpart : ¬ IsName part) :
    droppedName name suffix fallback = part ↔ name = part ++ suffix := by
  constructor
  · intro hdropped
    rcases droppedName_cases name suffix fallback with ⟨stem, _, hstem, hsame⟩ | hadded
    · rw [hstem, ← hsame, hdropped]
    · have hlonger := hname.append hslash
      rw [← hadded, hdropped] at hlonger
      exact absurd hlonger hpart
  · intro hwhole
    rw [hwhole]
    exact droppedName_append hsome

/--
For a path with a file name, and for suffixes that are not empty and have no slash: dropping a
suffix that was added leads back to the path, neither adding nor dropping leads to the path
itself, and both lead to a file beside it, unless dropping leaves one dot or two.
-/
theorem derived_beside_unless_dots (hname : path.fileName? = some name) (hsuffix : suffix ≠ [])
    (hfallback : fallback ≠ []) (hslash : '/' ∉ suffix) (hslash' : '/' ∉ fallback) :
    ((path.addSuffix suffix none).dropSuffix suffix fallback).components = path.components ∧
      (path.addSuffix suffix none).components ≠ path.components ∧
      (path.dropSuffix suffix fallback).components ≠ path.components ∧
      path.Beside (path.addSuffix suffix none) ∧
      (path.Beside (path.dropSuffix suffix fallback) ↔
        name ≠ here ++ suffix ∧ name ≠ above ++ suffix) := by
  have hfile := isName_of_fileName? hname
  have hadded := hfile.append hslash
  rcases droppedName_is_other hfile hsuffix hfallback hslash' with ⟨hwithout, hsome, hother⟩
  refine ⟨?_, ?_, ?_, ?_, ?_⟩
  · have hnext := fileName?_withFileName hname hadded
    rw [addSuffix_eq hname, dropSuffix_eq hnext, droppedName_append hfile.ne_nil,
      components_withFileName hnext hfile, components_beforeLast_withFileName hname hadded,
      components_of_fileName? hname]
  · rw [addSuffix_eq hname]
    apply components_withFileName_ne hname hadded.not_mem hadded.ne_nil
    rw [ne_eq, List.append_right_eq_self]
    exact hsuffix
  · rw [dropSuffix_eq hname]
    exact components_withFileName_ne hname hwithout hsome hother
  · rw [addSuffix_eq hname]
    exact (beside_withFileName_iff hname hadded.not_mem hadded.ne_nil).mpr hadded
  · have hhere : ¬ IsName here := fun h => Bool.noConfusion h.not_blank
    have habove : ¬ IsName above := fun h => h.not_above rfl
    rw [dropSuffix_eq hname, beside_withFileName_iff hname hwithout hsome,
      isName_iff hwithout hsome, ne_eq, ne_eq,
      droppedName_eq_iff hfile hslash' (by decide) hhere,
      droppedName_eq_iff hfile hslash' (by decide) habove]

/-- With a suffix twice in its name and a slash at its end, a path is still one of a file. -/
theorem derived_from_suffixed_twice :
    (addSuffix ⟨['.', '/', 'a', '.', 'z', '.', 'z', '/']⟩ ['.', 'z'] none).components =
        [.here, .name ['a', '.', 'z', '.', 'z', '.', 'z']] ∧
      Beside ⟨['.', '/', 'a', '.', 'z', '.', 'z', '/']⟩
        (dropSuffix ⟨['.', '/', 'a', '.', 'z', '.', 'z', '/']⟩ ['.', 'z'] ['.', 'o']) ∧
      (dropSuffix (addSuffix ⟨['.', '/', 'a', '.', 'z', '.', 'z', '/']⟩ ['.', 'z'] none)
        ['.', 'z'] ['.', 'o']).components = [.here, .name ['a', '.', 'z', '.', 'z']] := by
  have hname : fileName? ⟨['.', '/', 'a', '.', 'z', '.', 'z', '/']⟩ =
      some ['a', '.', 'z', '.', 'z'] := by decide
  rcases @derived_beside_unless_dots _ _ ['.', 'z'] ['.', 'o'] hname (by decide) (by decide)
    (by decide) (by decide) with ⟨hback, _, _, _, hdropped⟩
  exact ⟨by decide, hdropped.mpr (by decide), hback.trans (by decide)⟩

/-- A file name that is a dot and the suffix leads to the directory of the file. -/
theorem not_beside_dropped_from_dot :
    dropSuffix ⟨['d', '/', '.', '.', 'z', 'z']⟩ ['.', 'z', 'z'] ['.', 'o', 'u', 't'] =
        ⟨['d', '/', '.']⟩ ∧
      ¬ (fileName? ⟨['d', '/', '.', '.', 'z', 'z']⟩ = some ['.', '.', 'z', 'z'] →
        Beside ⟨['d', '/', '.', '.', 'z', 'z']⟩
          (dropSuffix ⟨['d', '/', '.', '.', 'z', 'z']⟩ ['.', 'z', 'z'] ['.', 'o', 'u', 't'])) := by
  refine ⟨by decide, ?_⟩
  intro hbeside
  exact absurd (hbeside (by decide)).parent?_eq (by decide)

end Suffixes
end FileNames

end Path
end BoundedZlib
