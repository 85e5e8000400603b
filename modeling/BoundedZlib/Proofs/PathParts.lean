import BoundedZlib.Path
import Mathlib.Data.List.DropRight

/-!
# Parts of paths

Joining parts and splitting the text are inverse to each other, so a path is known by its
parts.  Another name in place of the last part leaves the parts before it as they are, up
to those at their end that mean nothing, and once these are gone a name can be replaced
again and again.
-/

namespace BoundedZlib
namespace Path

/-!
## Splitting and joining
-/

theorem split_slash (rest : List Char) : split ('/' :: rest) = [] :: split rest := by
  rw [split, if_pos rfl]

theorem split_cons_of_ne {c : Char} (hslash : c ≠ '/') (rest : List Char) :
    ∃ part others, split rest = part :: others ∧ split (c :: rest) = (c :: part) :: others := by
  cases hrest : split rest with
  | nil => exact absurd hrest (split_ne_nil rest)
  | cons part others =>
      refine ⟨part, others, rfl, ?_⟩
      rw [split, if_neg hslash, hrest]

theorem not_mem_of_mem_split {chars : List Char} {part : Part} (hmem : part ∈ split chars) :
    '/' ∉ part := by
  induction chars generalizing part with
  | nil =>
      rw [split, List.mem_singleton] at hmem
      rw [hmem]
      exact List.not_mem_nil
  | cons c rest ih =>
      by_cases hslash : c = '/'
      · rw [hslash, split_slash] at hmem
        rcases List.mem_cons.mp hmem with hpart | hmem
        · rw [hpart]
          exact List.not_mem_nil
        · exact ih hmem
      · rcases split_cons_of_ne hslash rest with ⟨first, others, hrest, hsplit⟩
        rw [hsplit] at hmem
        rw [hrest] at ih
        rcases List.mem_cons.mp hmem with hpart | hmem
        · rw [hpart]
          intro hchar
          rcases List.mem_cons.mp hchar with hchar | hchar
          · exact hslash hchar.symm
          · exact ih List.mem_cons_self hchar
        · exact ih (List.mem_cons_of_mem _ hmem)

theorem split_of_not_mem {part : Part} (hslash : '/' ∉ part) : split part = [part] := by
  induction part with
  | nil => rfl
  | cons c rest ih =>
      rw [List.mem_cons, not_or] at hslash
      rw [split, if_neg (Ne.symm hslash.left), ih hslash.right]

/-- A slash ends a part. -/
theorem split_append_slash (front back : List Char) :
    split (front ++ '/' :: back) = split front ++ split back := by
  induction front with
  | nil => exact split_slash back
  | cons c rest ih =>
      by_cases hslash : c = '/'
      · rw [hslash, List.cons_append, split_slash, split_slash, ih, List.cons_append]
      · rcases split_cons_of_ne hslash rest with ⟨part, others, hrest, hsplit⟩
        rcases split_cons_of_ne hslash (rest ++ '/' :: back) with ⟨part', others', hall, hsplit'⟩
        rw [ih, hrest, List.cons_append, List.cons.injEq] at hall
        rw [List.cons_append, hsplit, hsplit', ← hall.left, ← hall.right, List.cons_append]

theorem join_cons {part : Part} {parts : List Part} (hparts : parts ≠ []) :
    join (part :: parts) = part ++ '/' :: join parts := by
  cases parts with
  | nil => exact absurd rfl hparts
  | cons next others => rfl

theorem split_join {parts : List Part} (hparts : parts ≠ [])
    (hslash : ∀ part ∈ parts, '/' ∉ part) :
    split (join parts) = parts := by
  induction parts with
  | nil => exact absurd rfl hparts
  | cons part rest ih =>
      have hpart := hslash part List.mem_cons_self
      cases hrest : rest with
      | nil => exact split_of_not_mem hpart
      | cons next others =>
          rw [← hrest]
          have hne : rest ≠ [] := hrest ▸ List.cons_ne_nil _ _
          rw [join_cons hne, split_append_slash, split_of_not_mem hpart,
            ih hne (fun part hmem => hslash part (List.mem_cons_of_mem _ hmem))]
          rfl

theorem join_append_singleton {parts : List Part} (hparts : parts ≠ []) (part : Part) :
    join (parts ++ [part]) = join parts ++ '/' :: part := by
  induction parts with
  | nil => exact absurd rfl hparts
  | cons first rest ih =>
      cases hrest : rest with
      | nil => rfl
      | cons next others =>
          rw [← hrest]
          have hne : rest ≠ [] := hrest ▸ List.cons_ne_nil _ _
          rw [List.cons_append, join_cons (List.append_ne_nil_of_left_ne_nil hne _), ih hne,
            join_cons hne, List.append_assoc, List.cons_append]

theorem isAbsolute_iff {path : Path} {front : List Part} {name : Part}
    (hsplit : split path.chars = front ++ [name]) (hname : name ≠ []) :
    path.isAbsolute = true ↔ front.head? = some [] := by
  unfold isAbsolute
  cases hchars : path.chars with
  | nil =>
      rw [hchars] at hsplit
      cases front with
      | nil => exact absurd (List.cons.inj hsplit).left.symm hname
      | cons first rest => simp [split] at hsplit
  | cons c rest =>
      rw [hchars] at hsplit
      by_cases hslash : c = '/'
      · rw [hslash, split_slash] at hsplit
        cases front with
        | nil => exact absurd (List.cons.inj hsplit).left.symm hname
        | cons first others => simp [hslash, ← (List.cons.inj hsplit).left]
      · rcases split_cons_of_ne hslash rest with ⟨part, others, _, hparts⟩
        rw [hparts] at hsplit
        cases front with
        | nil => simp [hslash]
        | cons first more => simp [hslash, ← (List.cons.inj hsplit).left]

/-!
## Names
-/

/-- The last part of a path is a name. -/
structure Ends (path : Path) (front : List Part) (name : Part) : Prop where
  split_eq : split path.chars = front ++ [name]
  not_blank : isBlank name = false
  not_above : name ≠ above

section Names

variable {path : Path} {front : List Part} {name : Part}

theorem ne_nil_of_not_blank (hblank : isBlank name = false) : name ≠ [] := by
  intro hnil
  rw [hnil] at hblank
  cases hblank

theorem ne_here_of_not_blank (hblank : isBlank name = false) : name ≠ here := by
  intro hhere
  rw [hhere] at hblank
  cases hblank

theorem append_is_name (hblank : isBlank name = false) (habove : name ≠ above) (suffix : Part) :
    isBlank (name ++ suffix) = false ∧ name ++ suffix ≠ above := by
  have hne := ne_nil_of_not_blank hblank
  have hhere := ne_here_of_not_blank hblank
  cases name with
  | nil => exact absurd rfl hne
  | cons c rest =>
      cases rest with
      | nil =>
          have hdot : c ≠ '.' := fun hdot => hhere (by rw [hdot]; rfl)
          simp [isBlank, here, above, hdot]
      | cons d others =>
          refine ⟨by simp [isBlank, here], ?_⟩
          intro hsame
          simp only [above, List.cons_append, List.cons.injEq, List.append_eq_nil_iff] at hsame
          rcases hsame with ⟨hc, hd, hothers, _⟩
          exact habove (by rw [hc, hd, hothers]; rfl)

theorem Ends.not_mem (hends : path.Ends front name) : '/' ∉ name := by
  apply not_mem_of_mem_split
  rw [hends.split_eq]
  exact List.mem_append_right _ List.mem_cons_self

theorem Ends.not_mem_front (hends : path.Ends front name) : ∀ part ∈ front, '/' ∉ part := by
  intro part hmem
  apply not_mem_of_mem_split
  rw [hends.split_eq]
  exact List.mem_append_left _ hmem

theorem Ends.chars_eq (hends : path.Ends front name) : path.chars = join (front ++ [name]) := by
  rw [← hends.split_eq, join_split]

theorem Ends.chars_ne_nil (hends : path.Ends front name) : path.chars ≠ [] := by
  intro hnil
  have hsplit := hends.split_eq
  rw [hnil] at hsplit
  rcases List.append_inj' (show [] ++ [[]] = front ++ [name] from hsplit) rfl with ⟨_, hname⟩
  exact ne_nil_of_not_blank hends.not_blank (List.cons.inj hname).left.symm

theorem ends_join {parts : List Part} (hparts : ∀ part ∈ parts, '/' ∉ part)
    (hblank : isBlank name = false) (habove : name ≠ above) (hslash : '/' ∉ name) :
    Ends ⟨join (parts ++ [name])⟩ parts name := by
  refine ⟨split_join (List.append_ne_nil_of_right_ne_nil _ (List.cons_ne_nil _ _)) ?_, hblank,
    habove⟩
  intro part hmem
  rcases List.mem_append.mp hmem with hmem | hmem
  · exact hparts part hmem
  · rw [List.mem_singleton.mp hmem]
    exact hslash

/-!
## Another name
-/

/-- Parts without those at their end that mean nothing; the first one stays. -/
def tidy : List Part → List Part
  | [] => []
  | first :: rest => first :: rest.rdropWhile isBlank

theorem rdropWhile_cons (first : Part) (rest : List Part) :
    (first :: rest).rdropWhile isBlank =
      if rest.rdropWhile isBlank = [] then (if isBlank first then [] else [first])
      else first :: rest.rdropWhile isBlank := by
  unfold List.rdropWhile
  rw [List.reverse_cons, List.dropWhile_append]
  split
  · rename_i hempty
    rw [List.isEmpty_iff] at hempty
    rw [hempty, if_pos (by rfl)]
    cases hfirst : isBlank first with
    | true => simp [hfirst]
    | false => simp [hfirst]
  · rename_i hempty
    rw [List.isEmpty_iff] at hempty
    rw [if_neg (by simpa using hempty), List.reverse_append]
    rfl

theorem tidy_tidy (parts : List Part) : tidy (tidy parts) = tidy parts := by
  cases parts with
  | nil => rfl
  | cons first rest =>
      rw [tidy, tidy, List.rdropWhile_idempotent]

theorem mem_of_mem_tidy {parts : List Part} {part : Part} (hmem : part ∈ tidy parts) :
    part ∈ parts := by
  cases parts with
  | nil => exact hmem
  | cons first rest =>
      rcases List.mem_cons.mp hmem with hfirst | hmem
      · rw [hfirst]
        exact List.mem_cons_self
      · exact List.mem_cons_of_mem _ ((List.rdropWhile_prefix _ rest).subset hmem)

theorem head?_ne_slash {part : Part} (hslash : '/' ∉ part) : part.head? ≠ some '/' :=
  fun hhead => hslash (List.mem_of_mem_head? hhead)

theorem push_open {directory : Path} {other : Part}
    (hopen : directory.chars = [] ∨ directory.chars.getLast? = some '/') (hother : '/' ∉ other) :
    directory.push other = ⟨directory.chars ++ other⟩ := by
  rw [push, if_neg (head?_ne_slash hother), if_pos hopen]

theorem push_closed {directory : Path} {other : Part} (hsome : directory.chars ≠ [])
    (hlast : directory.chars.getLast? ≠ some '/') (hother : '/' ∉ other) :
    directory.push other = ⟨directory.chars ++ '/' :: other⟩ := by
  rw [push, if_neg (head?_ne_slash hother), if_neg (not_or.mpr ⟨hsome, hlast⟩)]

theorem push_join {text : List Char} {init : List Part} {last other : Part}
    (hblank : isBlank last = false) (hlast : '/' ∉ last) (hother : '/' ∉ other) :
    push ⟨text ++ join (init ++ [last])⟩ other =
      ⟨text ++ join (init ++ [last] ++ [other])⟩ := by
  have hne := ne_nil_of_not_blank hblank
  have hends : ∃ start, text ++ join (init ++ [last]) = start ++ last := by
    by_cases hinit : init = []
    · exact ⟨text, by rw [hinit]; rfl⟩
    · refine ⟨text ++ (join init ++ ['/']), ?_⟩
      rw [join_append_singleton hinit]
      simp
  rcases hends with ⟨start, hstart⟩
  have hsome : start ++ last ≠ [] := List.append_ne_nil_of_right_ne_nil _ hne
  have hclosed : (start ++ last).getLast? ≠ some '/' := by
    rw [List.getLast?_append_of_ne_nil _ hne]
    exact fun hslash => hlast (List.mem_of_mem_getLast? hslash)
  rw [hstart, push_closed hsome hclosed hother, ← hstart, List.append_assoc,
    join_append_singleton (List.append_ne_nil_of_right_ne_nil _ (List.cons_ne_nil _ _)) other]

theorem lead_slash (rest : List Char) : lead ⟨'/' :: rest⟩ = (['/'], rest) := rfl

theorem lead_here (rest : List Char) : lead ⟨'.' :: '/' :: rest⟩ = (here, '/' :: rest) := rfl

theorem lead_of_not_blank {chars : List Char} {first : Part} {others : List Part}
    (hsplit : split chars = first :: others) (hblank : isBlank first = false) :
    lead ⟨chars⟩ = ([], chars) := by
  unfold lead
  split
  · rename_i rest hchars
    rw [show chars = '/' :: rest from hchars, split_slash] at hsplit
    exact absurd (List.cons.inj hsplit).left.symm (ne_nil_of_not_blank hblank)
  · rename_i hchars
    rw [show chars = ['.'] from hchars] at hsplit
    exact absurd (List.cons.inj hsplit).left.symm (ne_here_of_not_blank hblank)
  · rename_i rest hchars
    rw [show chars = here ++ '/' :: rest from hchars, split_append_slash] at hsplit
    exact absurd (List.cons.inj hsplit).left.symm (ne_here_of_not_blank hblank)
  · rfl

theorem latestParts_eq {inner : List Part} (hinner : split path.lead.2 = inner ++ [name])
    (hblank : isBlank name = false) :
    path.latestParts = name :: inner.reverse := by
  rw [latestParts, hinner, List.reverse_append, List.reverse_singleton, List.singleton_append,
    List.dropWhile_cons_of_neg (by rw [hblank]; exact Bool.false_ne_true)]

theorem beforeLast_eq {inner : List Part} (hinner : split path.lead.2 = inner ++ [name])
    (hblank : isBlank name = false) :
    path.beforeLast = ⟨path.lead.1 ++ join (inner.rdropWhile isBlank)⟩ := by
  rw [beforeLast, latestParts_eq hinner hblank]
  rfl

theorem Ends.not_mem_tidy (hends : path.Ends front name) : ∀ part ∈ tidy front, '/' ∉ part :=
  fun part hmem => hends.not_mem_front part (mem_of_mem_tidy hmem)

def directoryText : List Part → List Char
  | [] => []
  | first :: rest =>
      if rest.rdropWhile isBlank = [] then (if first = [] then ['/'] else first)
      else join (first :: rest.rdropWhile isBlank)

theorem Ends.inner (hends : path.Ends front name) :
    ∃ inner, split path.lead.2 = inner ++ [name] ∧
      path.lead.1 ++ join (inner.rdropWhile isBlank) = directoryText front := by
  have hslashes : ∀ part ∈ front ++ [name], '/' ∉ part := by
    intro part hmem
    rw [← hends.split_eq] at hmem
    exact not_mem_of_mem_split hmem
  have hsplit := hends.split_eq
  have hchars := hends.chars_eq
  rcases path with ⟨chars⟩
  dsimp only at hsplit hchars
  cases front with
  | nil =>
      rw [lead_of_not_blank hsplit hends.not_blank]
      exact ⟨[], hsplit, rfl⟩
  | cons first rest =>
      have hrest : rest ++ [name] ≠ [] :=
        List.append_ne_nil_of_right_ne_nil _ (List.cons_ne_nil _ _)
      have hjoin : split (join (rest ++ [name])) = rest ++ [name] :=
        split_join hrest fun part hmem => hslashes part (List.mem_cons_of_mem _ hmem)
      rw [List.cons_append, join_cons hrest] at hchars
      cases hblank : isBlank first with
      | false =>
          rw [lead_of_not_blank hsplit hblank]
          refine ⟨first :: rest, hsplit, ?_⟩
          rw [rdropWhile_cons, hblank, directoryText, List.nil_append]
          split
          · rw [if_neg (ne_nil_of_not_blank hblank), if_neg Bool.false_ne_true]
            rfl
          · rfl
      | true =>
          rw [isBlank, Bool.or_eq_true, List.isEmpty_iff, beq_iff_eq] at hblank
          rcases hblank with hnil | hhere
          · subst hnil
            rw [hchars, List.nil_append, lead_slash]
            refine ⟨rest, hjoin, ?_⟩
            rw [directoryText]
            split
            · rename_i hnone
              rw [hnone]
              rfl
            · rename_i hsome
              rw [join_cons hsome]
              rfl
          · subst hhere
            rw [hchars, here, List.singleton_append, lead_here]
            refine ⟨[] :: rest, by rw [split_slash, hjoin]; rfl, ?_⟩
            rw [rdropWhile_cons, directoryText]
            split
            · rfl
            · rename_i hsome
              rw [join_cons hsome, join_cons hsome]
              rfl

theorem exists_last {rest : List Part} (hsome : rest.rdropWhile isBlank ≠ []) :
    ∃ init last, rest.rdropWhile isBlank = init ++ [last] ∧ isBlank last = false ∧
      last ∈ rest := by
  refine ⟨_, _, (List.dropLast_append_getLast hsome).symm, ?_, ?_⟩
  · rw [← Bool.not_eq_true]
    exact List.rdropWhile_last_not isBlank rest hsome
  · exact (List.rdropWhile_prefix isBlank rest).subset (List.getLast_mem hsome)

theorem push_directoryText (hfront : ∀ part ∈ front, '/' ∉ part) {other : Part}
    (hother : '/' ∉ other) :
    push ⟨directoryText front⟩ other = ⟨join (tidy front ++ [other])⟩ := by
  cases front with
  | nil => exact push_open (Or.inl rfl) hother
  | cons first rest =>
      rw [directoryText, tidy]
      by_cases hnone : rest.rdropWhile isBlank = []
      · rw [if_pos hnone, hnone]
        by_cases hfirst : first = []
        · rw [if_pos hfirst, hfirst]
          exact push_open (Or.inr rfl) hother
        · rw [if_neg hfirst]
          apply push_closed hfirst _ hother
          exact fun hlast => hfront first List.mem_cons_self (List.mem_of_mem_getLast? hlast)
      · rcases exists_last hnone with ⟨init, last, hparts, hblank, hmem⟩
        rw [if_neg hnone, hparts]
        exact @push_join [] (first :: init) last other hblank
          (hfront last (List.mem_cons_of_mem _ hmem)) hother

theorem Ends.withFileName (hends : path.Ends front name) {other : Part} (hother : '/' ∉ other) :
    path.withFileName other = ⟨join (tidy front ++ [other])⟩ := by
  rcases hends.inner with ⟨inner, hinner, htext⟩
  have hlatest := latestParts_eq hinner hends.not_blank
  rw [Path.withFileName, fileName?, hlatest]
  dsimp only
  rw [if_neg hends.not_above, beforeLast_eq hinner hends.not_blank, htext]
  exact push_directoryText hends.not_mem_front hother

/-!
## Suffixes
-/

theorem Ends.fileName? (hends : path.Ends front name) : path.fileName? = some name := by
  rcases hends.inner with ⟨inner, hinner, _⟩
  rw [Path.fileName?, latestParts_eq hinner hends.not_blank]
  exact if_neg hends.not_above

theorem push_ends (directory : Path) :
    ∃ front, ∀ name, isBlank name = false → name ≠ above → '/' ∉ name →
      (directory.push name).Ends front name := by
  by_cases hnone : directory.chars = []
  · refine ⟨[], ?_⟩
    intro name hblank habove hslash
    refine ⟨?_, hblank, habove⟩
    rw [push_open (Or.inl hnone) hslash, hnone]
    exact split_of_not_mem hslash
  · by_cases hlast : directory.chars.getLast? = some '/'
    · rcases List.getLast?_eq_some_iff.mp hlast with ⟨start, hstart⟩
      refine ⟨split start, ?_⟩
      intro name hblank habove hslash
      refine ⟨?_, hblank, habove⟩
      rw [push_open (Or.inr hlast) hslash, hstart, List.append_assoc, List.singleton_append,
        split_append_slash, split_of_not_mem hslash]
    · refine ⟨split directory.chars, ?_⟩
      intro name hblank habove hslash
      refine ⟨?_, hblank, habove⟩
      rw [push_closed hnone hlast hslash, split_append_slash, split_of_not_mem hslash]

section Suffixes

variable {suffix : Part}

theorem not_mem_append (hname : '/' ∉ name) (hsuffix : '/' ∉ suffix) : '/' ∉ name ++ suffix := by
  rw [List.mem_append, not_or]
  exact ⟨hname, hsuffix⟩

theorem Ends.addSuffix (hends : path.Ends front name) (hsuffix : '/' ∉ suffix) :
    path.addSuffix suffix none = ⟨join (tidy front ++ [name ++ suffix])⟩ := by
  rw [Path.addSuffix, hends.fileName?]
  exact hends.withFileName (not_mem_append hends.not_mem hsuffix)

theorem Ends.ends_addSuffix (hends : path.Ends front name) (hsuffix : '/' ∉ suffix) :
    (path.addSuffix suffix none).Ends (tidy front) (name ++ suffix) := by
  rcases append_is_name hends.not_blank hends.not_above suffix with ⟨hblank, habove⟩
  rw [hends.addSuffix hsuffix]
  exact ends_join hends.not_mem_tidy hblank habove (not_mem_append hends.not_mem hsuffix)

theorem exists_front_addSuffix (hsuffix : '/' ∉ suffix) (directory : Path) :
    ∃ other, ∀ (path : Path) (front : List Part) (name : Part), path.Ends front name →
      (path.addSuffix suffix (some directory)).Ends other (name ++ suffix) := by
  rcases push_ends directory with ⟨other, hother⟩
  refine ⟨other, ?_⟩
  intro path front name hends
  rcases append_is_name hends.not_blank hends.not_above suffix with ⟨hblank, habove⟩
  rw [Path.addSuffix, hends.fileName?]
  exact hother _ hblank habove (not_mem_append hends.not_mem hsuffix)

theorem Ends.exists_ends_addSuffix (hends : path.Ends front name) (hsuffix : '/' ∉ suffix)
    (directory? : Option Path) :
    ∃ other, (path.addSuffix suffix directory?).Ends other (name ++ suffix) := by
  cases directory? with
  | none => exact ⟨_, hends.ends_addSuffix hsuffix⟩
  | some directory =>
      rcases exists_front_addSuffix hsuffix directory with ⟨other, hother⟩
      exact ⟨other, hother path front name hends⟩

theorem stem?_append (hname : name ≠ []) : stem? (name ++ suffix) suffix = some name := by
  have hlength : (name ++ suffix).length ≠ suffix.length := by
    rw [List.length_append]
    have hpos := List.length_pos_iff.mpr hname
    omega
  have hsuffix : suffix.isSuffixOf (name ++ suffix) = true :=
    List.isSuffixOf_iff_suffix.mpr (List.suffix_append _ _)
  rw [stem?, if_pos ⟨hsuffix, hlength⟩, List.length_append, Nat.add_sub_cancel, List.take_left]

theorem stem?_eq_some_iff {stem : Part} :
    stem? name suffix = some stem ↔ stem ≠ [] ∧ name = stem ++ suffix := by
  constructor
  · intro hstem
    unfold stem? at hstem
    split at hstem
    · rename_i hends
      rcases List.isSuffixOf_iff_suffix.mp hends.left with ⟨front, hfront⟩
      have hlength := congrArg List.length hfront
      rw [List.length_append] at hlength
      rw [← hlength, Nat.add_sub_cancel, ← hfront, List.take_left, Option.some.injEq] at hstem
      subst hstem
      refine ⟨?_, hfront.symm⟩
      intro hnil
      rw [hnil, List.length_nil, Nat.zero_add] at hlength
      exact hends.right hlength.symm
    · cases hstem
  · intro h
    rw [h.right]
    exact stem?_append h.left

/-- A suffix that was added can be dropped again, whatever the name ends in. -/
theorem Ends.dropSuffix_addSuffix (hends : path.Ends front name) (hsuffix : '/' ∉ suffix)
    (fallback : Part) :
    (path.addSuffix suffix none).dropSuffix suffix fallback = ⟨join (tidy front ++ [name])⟩ := by
  have hended := hends.ends_addSuffix hsuffix
  rw [dropSuffix, hended.fileName?, Option.bind_some,
    stem?_append (ne_nil_of_not_blank hends.not_blank)]
  dsimp only
  rw [hended.withFileName hends.not_mem, tidy_tidy]

theorem Ends.ends_dropSuffix_addSuffix (hends : path.Ends front name) (hsuffix : '/' ∉ suffix)
    (fallback : Part) :
    ((path.addSuffix suffix none).dropSuffix suffix fallback).Ends (tidy front) name := by
  rw [hends.dropSuffix_addSuffix hsuffix]
  exact ends_join hends.not_mem_tidy hends.not_blank hends.not_above hends.not_mem

theorem Ends.chars_addSuffix (hends : path.Ends front name) (hsuffix : '/' ∉ suffix)
    (fallback : Part) :
    (path.addSuffix suffix none).chars =
      ((path.addSuffix suffix none).dropSuffix suffix fallback).chars ++ suffix := by
  rw [hends.dropSuffix_addSuffix hsuffix, hends.addSuffix hsuffix]
  by_cases hnil : tidy front = []
  · rw [hnil]
    rfl
  · rw [join_append_singleton hnil, join_append_singleton hnil, List.append_assoc,
      List.cons_append]

theorem stem?_eq_some {stem : Part} (hstem : stem? name suffix = some stem) (hsome : suffix ≠ []) :
    stem <+: name ∧ stem ≠ name := by
  rw [(stem?_eq_some_iff.mp hstem).right]
  refine ⟨List.prefix_append _ _, ?_⟩
  rw [ne_eq, List.self_eq_append_right]
  exact hsome

theorem Ends.split_dropSuffix (hends : path.Ends front name) (hsuffix : suffix ≠ [])
    {fallback : Part} (hfallback : '/' ∉ fallback) (hsome : fallback ≠ []) :
    ∃ other, split (path.dropSuffix suffix fallback).chars = tidy front ++ [other] ∧
      other ≠ name := by
  rw [dropSuffix, hends.fileName?, Option.bind_some]
  cases hstem : stem? name suffix with
  | none =>
      refine ⟨name ++ fallback, (hends.ends_addSuffix hfallback).split_eq, ?_⟩
      rw [ne_eq, List.append_right_eq_self]
      exact hsome
  | some stem =>
      rcases stem?_eq_some hstem hsuffix with ⟨hpart, hne⟩
      have hslash : '/' ∉ stem := fun hmem => hends.not_mem (hpart.subset hmem)
      refine ⟨stem, ?_, hne⟩
      dsimp only
      rw [hends.withFileName hslash]
      apply split_join (List.append_ne_nil_of_right_ne_nil _ (List.cons_ne_nil _ _))
      intro part hmem
      rcases List.mem_append.mp hmem with hmem | hmem
      · exact hends.not_mem_tidy part hmem
      · rw [List.mem_singleton.mp hmem]
        exact hslash

end Suffixes

end Names

end Path
end BoundedZlib
