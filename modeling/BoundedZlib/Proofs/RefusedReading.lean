import BoundedZlib.Proofs.ReadingFrames

/-!
# What readers refuse

The readers of tokens, of code descriptions, of block openings and of the frame refuse
exactly the faults that the format names in their places.
-/

namespace BoundedZlib
namespace Format

/-!
## Tokens
-/

theorem refuses_value {ranges : List ValueRange} {count : Nat} {base extra : Nat → Nat}
    (hranges : ranges = (List.range count).map fun index => ⟨base index, extra index⟩)
    {index : Nat} {bits : List Bool} :
    (ValueRange.reader ranges index).Refuses bits ↔ bits = [] ∧ count ≤ index := by
  simp [ValueRange.reader, BitReader.refuses_bind, hranges]

theorem refuses_length {index : Nat} {bits : List Bool} :
    (ValueRange.reader ValueRange.lengths index).Refuses bits ↔ bits = [] ∧ 29 ≤ index :=
  refuses_value lengths_eq

theorem refuses_distance {index : Nat} {bits : List Bool} :
    (ValueRange.reader ValueRange.distances index).Refuses bits ↔ bits = [] ∧ 30 ≤ index :=
  refuses_value distances_eq

theorem refuses_tokenReader {codes : Codes} {literals distances : List Nat}
    (hcodes : codes.Decode literals distances) {bits : List Bool} :
    codes.tokenReader.Refuses bits ↔ TokenFault literals distances bits := by
  have hend : Codes.endOfBlock = 256 := rfl
  simp only [Codes.tokenReader, BitReader.bind_eq_bind, BitReader.pure_eq_done,
    BitReader.refuses_measured_bind, BitReader.refuses_ite, BitReader.not_refuses_done, and_false,
    false_or, or_false, exists_false, hcodes.noLiteral, hcodes.noDistance, refuses_length,
    refuses_distance, hend]
  constructor
  · intro h
    rcases h with hnone | ⟨code, rest, symbol, hbits, hcode, hlarge, hother, hrest⟩
    · exact .literal hnone
    · have hcode' := (hcodes.literals _ _).mp hcode
      generalize hindex : symbol - (256 + 1) = lengthIndex at hrest
      have hsymbol : symbol = 257 + lengthIndex := by omega
      rw [hsymbol] at hcode'
      rw [hbits]
      rcases hrest with ⟨hnil, hindex⟩ | ⟨lengthMore, rest, length, hrest, hlength, hfault⟩
      · rw [hnil, List.append_nil]
        exact .length hcode' hindex
      · rw [hrest, ← List.append_assoc]
        rcases hfault with hnone | ⟨distanceCode, rest, index, hrest, hdistance, hnil, hindex⟩
        · exact .unassigned hcode' (reads_length.mp hlength) hnone
        · rw [hrest, hnil, List.append_nil]
          exact .distance hcode' (reads_length.mp hlength) ((hcodes.distances _ _).mp hdistance)
            hindex
  · intro h
    cases h with
    | literal hbits => exact Or.inl hbits
    | @length lengthIndex _ hcode hindex =>
        refine Or.inr ⟨bits, [], 257 + lengthIndex, (List.append_nil _).symm,
          (hcodes.literals _ _).mpr hcode, by omega, by omega, Or.inl ⟨rfl, by omega⟩⟩
    | @unassigned lengthIndex length lengthCode lengthMore bits hlengthCode hlength hbits =>
        refine Or.inr ⟨lengthCode, lengthMore ++ bits, 257 + lengthIndex, List.append_assoc _ _ _,
          (hcodes.literals _ _).mpr hlengthCode, by omega, by omega, Or.inr ?_⟩
        rw [show 257 + lengthIndex - (256 + 1) = lengthIndex by omega]
        exact ⟨lengthMore, bits, length, rfl, reads_length.mpr hlength, Or.inl hbits⟩
    | @distance lengthIndex distanceIndex length lengthCode lengthMore distanceCode hlengthCode
        hlength hdistanceCode hindex =>
        refine Or.inr ⟨lengthCode, lengthMore ++ distanceCode, 257 + lengthIndex,
          List.append_assoc _ _ _, (hcodes.literals _ _).mpr hlengthCode, by omega, by omega,
          Or.inr ?_⟩
        rw [show 257 + lengthIndex - (256 + 1) = lengthIndex by omega]
        exact ⟨lengthMore, distanceCode, length, rfl, reads_length.mpr hlength,
          Or.inr ⟨distanceCode, [], distanceIndex, (List.append_nil _).symm,
            (hcodes.distances _ _).mpr hdistanceCode, rfl, hindex⟩⟩

/-!
## Descriptions of codes
-/

section Runs

variable {describing : List Nat} {tree : CodeTree} {previous? : Option Nat} {bits : List Bool}

theorem refuses_runOf {symbol : Nat} :
    (Codes.runOf previous? symbol).Refuses bits ↔
      symbol = 16 ∧ previous? = none ∧ bits = [] := by
  simp only [Codes.runOf, BitReader.bind_eq_bind, BitReader.pure_eq_done, BitReader.refuses_ite,
    BitReader.refuses_bind, BitReader.refuses_ofOption, BitReader.not_refuses_done,
    BitReader.not_refuses_nat, and_false, false_or, or_false, exists_false]
  constructor
  · intro h
    rcases h with ⟨_, hsymbol, hbits, hprevious⟩
    exact ⟨hsymbol, hprevious, hbits⟩
  · intro h
    rcases h with ⟨hsymbol, hprevious, hbits⟩
    exact ⟨by omega, hsymbol, hbits, hprevious⟩

theorem refuses_runReader (hcomplete : tree.isComplete = true)
    (hdecodes : tree.Decodes describing) :
    (Codes.runReader tree previous?).Refuses bits ↔
      previous? = none ∧ IsCode describing 16 bits := by
  simp only [Codes.runReader, BitReader.bind_eq_bind, BitReader.pure_eq_done,
    BitReader.refuses_measured_bind, CodeTree.not_refuses_of_isComplete hcomplete, refuses_runOf,
    BitReader.not_refuses_done, and_false, false_or, or_false, exists_false]
  constructor
  · intro h
    rcases h with ⟨code, rest, symbol, hbits, hcode, hsymbol, hprevious, hrest⟩
    rw [hbits, hrest, List.append_nil, ← hsymbol]
    exact ⟨hprevious, (hdecodes _ _).mp hcode⟩
  · intro h
    exact ⟨bits, [], 16, (List.append_nil _).symm, (hdecodes _ _).mpr h.right, rfl, h.left, rfl⟩

/-- Runs continue these lengths to a fault, before there are as many as there should be. -/
def RunsFault (describing : List Nat) (total : Nat) (lengths : List Nat) (bits : List Bool) :
    Prop :=
  ∃ runs all fault, bits = runs ++ fault ∧ Runs describing lengths runs all ∧
    all.length < total ∧ RunFault describing total all fault

theorem not_runsFault_of_reached {total : Nat} {lengths : List Nat}
    (hreached : lengths.length = total) :
    ¬ RunsFault describing total lengths bits := by
  intro h
  rcases h with ⟨runs, all, fault, _, hruns, hfewer, _⟩
  have hle := hruns.length_le
  omega

theorem runsFault_iff {total : Nat} {lengths : List Nat} (hfewer : lengths.length < total) :
    RunsFault describing total lengths bits ↔
      RunFault describing total lengths bits ∨
        ∃ count length run rest, bits = run ++ rest ∧
          Run describing lengths.getLast? run count length ∧ lengths.length + count ≤ total ∧
          RunsFault describing total (lengths ++ List.replicate count length) rest := by
  constructor
  · intro h
    rcases h with ⟨runs, all, fault, hbits, hruns, hall, hfault⟩
    rw [hbits]
    cases hruns with
    | stop => exact Or.inl hfault
    | @run _ _ count length run rest hrun hrest =>
        have hmore := hrest.length_le
        rw [List.length_append, List.length_replicate] at hmore
        exact Or.inr ⟨count, length, run, rest ++ fault, List.append_assoc _ _ _, hrun, by omega,
          rest, all, fault, rfl, hrest, hall, hfault⟩
  · intro h
    rcases h with hfault | ⟨count, length, run, _, hbits, hrun, _, rest, all, fault, hrest, hruns,
      hall, hfault⟩
    · exact ⟨[], lengths, bits, rfl, .stop, hfewer, hfault⟩
    · exact ⟨run ++ rest, all, fault, by rw [hbits, hrest, List.append_assoc], .run hrun hruns,
        hall, hfault⟩

theorem refuses_lengthsReader (hcomplete : tree.isComplete = true)
    (hdecodes : tree.Decodes describing)
    (hsymbols : describing.length = 19)
    {total rounds : Nat} {latest : List Nat} {parts : List Part}
    (hrounds : total ≤ rounds + latest.length)
    (htotal : latest.length ≤ total) :
    (Codes.lengthsReader tree total rounds latest parts).Refuses bits ↔
      RunsFault describing total latest.reverse bits := by
  induction rounds generalizing bits latest parts with
  | zero =>
      have hreached : latest.length = total := by omega
      rw [Codes.lengthsReader, if_pos hreached]
      exact iff_of_false BitReader.not_refuses_done
        (not_runsFault_of_reached (by rw [List.length_reverse]; exact hreached))
  | succ rounds ih =>
      rw [Codes.lengthsReader]
      by_cases hreached : latest.length = total
      · rw [if_pos hreached]
        exact iff_of_false BitReader.not_refuses_done
          (not_runsFault_of_reached (by rw [List.length_reverse]; exact hreached))
      · rw [if_neg hreached, runsFault_iff (by rw [List.length_reverse]; omega)]
        simp only [BitReader.bind_eq_bind, BitReader.refuses_bind, BitReader.refuses_ite,
          BitReader.refuses_reject, refuses_runReader hcomplete hdecodes]
        have hnext : ∀ {count length : Nat} {rest : List Bool} {parts : List Part}, 0 < count →
            latest.length + count ≤ total →
              ((Codes.lengthsReader tree total rounds (List.replicate count length ++ latest)
                  parts).Refuses rest ↔
                RunsFault describing total (latest.reverse ++ List.replicate count length)
                  rest) := by
          intro count length rest parts hpos hle
          rw [← reverse_replicate_append]
          exact ih (by rw [length_replicate_append]; omega) (by rw [length_replicate_append]; omega)
        constructor
        · intro h
          rcases h with ⟨hfirst, hcode⟩ | ⟨front, back, ⟨⟨count, length⟩, part⟩, hbits, hrun, hcase⟩
          · exact Or.inl (.previous (by rw [List.head?_eq_none_iff.mp hfirst]; rfl) hcode)
          · have hrun' := (reads_runReader hdecodes hsymbols).mp ⟨part, hrun⟩
            have hpos := hrun'.count_pos
            rw [← List.getLast?_reverse] at hrun'
            rcases hcase with ⟨hle, hrest⟩ | ⟨hpast, hnil⟩
            · exact Or.inr ⟨count, length, front, back, hbits, hrun',
                by rw [List.length_reverse]; exact hle, (hnext hpos hle).mp hrest⟩
            · rw [hbits, hnil, List.append_nil]
              exact Or.inl (.past hrun' (by rw [List.length_reverse]; exact Nat.lt_of_not_le hpast))
        · intro h
          rcases h with hfault | ⟨count, length, run, rest, hbits, hrun, hle, hrest⟩
          · cases hfault with
            | previous hnone hcode =>
                rw [List.reverse_eq_nil_iff.mp hnone]
                exact Or.inl ⟨rfl, hcode⟩
            | @past count length _ hrun hpast =>
                rw [List.getLast?_reverse] at hrun
                rw [List.length_reverse] at hpast
                rcases (reads_runReader hdecodes hsymbols).mpr hrun with ⟨part, hread⟩
                exact Or.inr ⟨bits, [], ((count, length), part), (List.append_nil _).symm, hread,
                  Or.inr ⟨Nat.not_le_of_lt hpast, rfl⟩⟩
          · rw [List.getLast?_reverse] at hrun
            rw [List.length_reverse] at hle
            rcases (reads_runReader hdecodes hsymbols).mpr hrun with ⟨part, hread⟩
            exact Or.inr ⟨run, rest, ((count, length), part), hbits, hread,
              Or.inl ⟨hle, (hnext hrun.count_pos hle).mpr hrest⟩⟩

end Runs

def bodyReader (literals distances : Nat) (describing : List Nat) :
    BitReader (Codes × List Part) := do
  let tree ← BitReader.ofOption (CodeTree.complete? describing)
  let (lengths, parts) ←
    Codes.lengthsReader tree (literals + distances) (literals + distances) [] []
  let codes ← BitReader.ofOption
    (Codes.ofLengths? (lengths.take literals) (lengths.drop literals))
  return (codes, parts)

theorem DescriptionHead.lengths {literals distances : Nat} {describing : List Nat}
    {head : List Bool} (hhead : DescriptionHead literals distances describing head) :
    describing.length = 19 ∧ ∀ length ∈ describing, length ≤ CodeTree.maxLength := by
  cases hhead with
  | intro _ _ _ hgiven hdescribing =>
      refine ⟨hdescribing.left, ?_⟩
      rw [isDescribing_iff.mp hdescribing]
      exact describingLengths_le hgiven

theorem refuses_bodyReader {literals distances : Nat} {describing : List Nat}
    {head bits : List Bool} (hhead : DescriptionHead literals distances describing head) :
    (bodyReader literals distances describing).Refuses bits ↔
      (¬ IsComplete describing ∧ bits = []) ∨
        IsComplete describing ∧
          (RunsFault describing (literals + distances) [] bits ∨
            ∃ first second : List Nat, first.length = literals ∧ second.length = distances ∧
              Runs describing [] bits (first ++ second) ∧
              ¬ (IsUsable first ∧ IsUsable second)) := by
  have hunusable : ∀ {bits first second : List _}, Runs describing [] bits (first ++ second) →
      (Codes.ofLengths? first second = none ↔ ¬ (IsUsable first ∧ IsUsable second)) := by
    intro bits first second hruns
    have hle := hruns.le_maxLength (by simp)
    rw [← Codes.exists_ofLengths?_iff (fun length hmem => hle length (List.mem_append_left _ hmem))
      (fun length hmem => hle length (List.mem_append_right _ hmem)), ← Option.isSome_iff_exists,
      Bool.not_eq_true, Option.isSome_eq_false_iff, Option.isNone_iff_eq_none]
  rcases hhead.lengths with ⟨hsymbols, hmost⟩
  rw [← CodeTree.complete?_iff hmost]
  cases htree : CodeTree.complete? describing with
  | none =>
      rw [bodyReader, htree]
      simp [BitReader.ofOption]
  | some tree =>
      have hfilter := Option.filter_eq_some_iff.mp htree
      have hdecodes := CodeTree.decodes_of_ofLengths? hfilter.left hmost
      have hlengths := @refuses_lengthsReader describing tree bits hfilter.right hdecodes hsymbols
        (literals + distances) (literals + distances) [] [] (Nat.le_refl _) (Nat.zero_le _)
      have hread : BitReader.ofOption (some tree) = .done tree := rfl
      rw [bodyReader, htree]
      simp only [hread, BitReader.bind_eq_bind, BitReader.done_bind,
        BitReader.pure_eq_done, BitReader.refuses_bind, hlengths, BitReader.refuses_ofOption,
        BitReader.not_refuses_done, and_false, exists_false, or_false]
      constructor
      · intro h
        refine Or.inr ⟨⟨tree, rfl⟩, h.imp id ?_⟩
        intro h
        rcases h with ⟨runs, _, ⟨all, parts⟩, hbits, hread, hnil, hnone⟩
        dsimp only at hnone
        rcases (reads_all_lengths hdecodes hsymbols).mp ⟨parts, hread⟩ with ⟨hruns, hlength⟩
        rw [← List.take_append_drop literals all] at hruns
        rw [hbits, hnil, List.append_nil]
        refine ⟨all.take literals, all.drop literals, ?_, ?_, hruns, (hunusable hruns).mp hnone⟩
        · rw [List.length_take]
          omega
        · rw [List.length_drop]
          omega
      · intro h
        rcases h with ⟨hnone, _⟩ | ⟨_, h⟩
        · exact absurd ⟨tree, rfl⟩ hnone
        · refine h.imp id ?_
          intro h
          rcases h with ⟨first, second, hfirst, hsecond, hruns, hnone⟩
          rcases (reads_all_lengths hdecodes hsymbols).mpr ⟨hruns, rfl⟩ with ⟨parts, hread⟩
          rw [List.length_append, hfirst, hsecond] at hread
          refine ⟨bits, [], (first ++ second, parts), (List.append_nil _).symm, hread, rfl, ?_⟩
          rw [← hfirst, List.take_left, List.drop_left]
          exact (hunusable hruns).mpr hnone

theorem describedReader_eq :
    Codes.describedReader = (BitReader.nat 5).bind fun literals =>
      (BitReader.nat 5).bind fun distances => (BitReader.nat 4).bind fun count =>
        if 257 + literals ≤ 286 ∧ 1 + distances ≤ 30 then
          (BitReader.replicate (4 + count) (BitReader.nat 3)).bind fun given =>
            bodyReader (257 + literals) (1 + distances) (Codes.describingLengths given)
        else .reject := rfl

theorem refuses_describedReader_iff {bits : List Bool} :
    Codes.describedReader.Refuses bits ↔
      (∃ literals distances given : Nat, (257 ≤ literals ∧ literals < 257 + 2 ^ 5) ∧
        (1 ≤ distances ∧ distances < 1 + 2 ^ 5) ∧ (4 ≤ given ∧ given < 4 + 2 ^ 4) ∧
        (286 < literals ∨ 30 < distances) ∧
        bits = Bits.ofNat 5 (literals - 257) ++ Bits.ofNat 5 (distances - 1) ++
          Bits.ofNat 4 (given - 4)) ∨
      ∃ literals distances describing head rest, bits = head ++ rest ∧
        DescriptionHead literals distances describing head ∧
        (bodyReader literals distances describing).Refuses rest := by
  have hlength : ∀ bits value, (BitReader.nat 3).Reads bits value ↔
      value < 2 ^ 3 ∧ bits = Bits.ofNat 3 value := fun _ _ => BitReader.reads_nat
  rw [describedReader_eq]
  simp only [BitReader.refuses_bind, BitReader.not_refuses_nat, BitReader.reads_nat, false_or,
    BitReader.refuses_ite, BitReader.refuses_reject,
    BitReader.not_refuses_replicate fun _ => BitReader.not_refuses_nat,
    BitReader.reads_replicate hlength]
  constructor
  · intro h
    rcases h with ⟨_, _, literals, hbits, ⟨hliterals, rfl⟩, _, _, distances, rfl,
      ⟨hdistances, rfl⟩, _, _, count, rfl, ⟨hcount, rfl⟩,
      ⟨hmost, _, rest, given, rfl, ⟨hgiven, hsmall, rfl⟩, hrefuses⟩ | ⟨hmany, rfl⟩⟩
    · refine Or.inr ⟨257 + literals, 1 + distances, Codes.describingLengths given, _, rest, ?_,
        .intro (by omega) (by omega) (by omega) hsmall (isDescribing_describingLengths given),
        hrefuses⟩
      rw [hbits, hgiven, Nat.add_sub_cancel_left, Nat.add_sub_cancel_left,
        Nat.add_sub_cancel_left]
      simp only [List.append_assoc]
    · refine Or.inl ⟨257 + literals, 1 + distances, 4 + count, by omega, by omega, by omega,
        by omega, ?_⟩
      rw [hbits, Nat.add_sub_cancel_left, Nat.add_sub_cancel_left, Nat.add_sub_cancel_left,
        List.append_nil, List.append_assoc]
  · intro h
    rcases h with ⟨literals, distances, given, hliterals, hdistances, hgiven, hmany, hbits⟩ |
      ⟨literals, distances, describing, head, rest, hbits, hhead, hrefuses⟩
    · refine ⟨_, _, literals - 257, by rw [hbits, List.append_assoc], ⟨by omega, rfl⟩, _, _,
        distances - 1, rfl, ⟨by omega, rfl⟩, _, [], given - 4, (List.append_nil _).symm,
        ⟨by omega, rfl⟩, Or.inr ⟨by omega, rfl⟩⟩
    · cases hhead with
      | @intro given hliterals hdistances hcount hgiven hdescribing =>
          rw [isDescribing_iff] at hdescribing
          refine ⟨_, _, literals - 257, by rw [hbits]; simp only [List.append_assoc],
            ⟨by omega, rfl⟩, _, _, distances - 1, rfl, ⟨by omega, rfl⟩, _, _, given.length - 4, rfl,
            ⟨by omega, rfl⟩, Or.inl ⟨by omega, _, rest, given, rfl, ⟨by omega, hgiven, rfl⟩, ?_⟩⟩
          rw [show 257 + (literals - 257) = literals by omega,
            show 1 + (distances - 1) = distances by omega, ← hdescribing]
          exact hrefuses

theorem refuses_describedReader {bits : List Bool} :
    Codes.describedReader.Refuses bits ↔ DescriptionFault bits := by
  rw [refuses_describedReader_iff]
  constructor
  · intro h
    rcases h with ⟨literals, distances, given, hliterals, hdistances, hgiven, hmany, hbits⟩ |
      ⟨literals, distances, describing, head, rest, hbits, hhead, hrefuses⟩
    · rw [hbits]
      exact .counts hliterals hdistances hgiven hmany
    · rw [hbits]
      rcases (refuses_bodyReader hhead).mp hrefuses with ⟨hincomplete, hnil⟩ |
        ⟨hcomplete, ⟨runs, all, fault, hrest, hruns, hfewer, hfault⟩ |
          ⟨first, second, hfirst, hsecond, hruns, hunusable⟩⟩
      · rw [hnil, List.append_nil]
        exact .describing hhead hincomplete
      · rw [hrest]
        exact .run hhead hcomplete hruns hfewer hfault
      · subst hfirst hsecond
        exact .codes hhead hcomplete hruns hunusable
  · intro hfault
    cases hfault with
    | counts hliterals hdistances hgiven hmany =>
        exact Or.inl ⟨_, _, _, hliterals, hdistances, hgiven, hmany, rfl⟩
    | describing hhead hincomplete =>
        exact Or.inr ⟨_, _, _, bits, [], (List.append_nil _).symm, hhead,
          (refuses_bodyReader hhead).mpr (Or.inl ⟨hincomplete, rfl⟩)⟩
    | run hhead hcomplete hruns hfewer hfault =>
        exact Or.inr ⟨_, _, _, _, _, rfl, hhead, (refuses_bodyReader hhead).mpr
          (Or.inr ⟨hcomplete, Or.inl ⟨_, _, _, rfl, hruns, hfewer, hfault⟩⟩)⟩
    | codes hhead hcomplete hruns hunusable =>
        exact Or.inr ⟨_, _, _, _, _, rfl, hhead, (refuses_bodyReader hhead).mpr
          (Or.inr ⟨hcomplete, Or.inr ⟨_, _, rfl, rfl, hruns, hunusable⟩⟩)⟩

/-!
## Openings of blocks and the header
-/

theorem refuses_storedReader {position : Nat} {bits : List Bool} :
    (BlockBody.storedReader position).Refuses bits ↔
      ∃ filling length complement,
        bits = filling ++ Bits.ofNat 16 length ++ Bits.ofNat 16 complement ∧
        filling.length = padding position ∧ length < 2 ^ 16 ∧ complement < 2 ^ 16 ∧
        length + complement ≠ 65535 := by
  have hmax : BlockBody.maxStored = 65535 := rfl
  simp only [BlockBody.storedReader, BitReader.bind_eq_bind, BitReader.pure_eq_done,
    BitReader.refuses_bind, BitReader.not_refuses_skip, BitReader.not_refuses_nat,
    BitReader.reads_skip, BitReader.reads_nat, BitReader.refuses_ite, BitReader.not_refuses_done,
    BitReader.refuses_reject, and_false, false_or, hmax]
  constructor
  · intro h
    rcases h with ⟨filling, _, _, hbits, hfilling, _, _, length, rfl, ⟨hlength, rfl⟩, _, _,
      complement, rfl, ⟨hcomplement, rfl⟩, hsum, rfl⟩
    exact ⟨filling, length, complement, by simpa using hbits, hfilling, hlength, hcomplement, hsum⟩
  · intro h
    rcases h with ⟨filling, length, complement, hbits, hfilling, hlength, hcomplement, hsum⟩
    exact ⟨filling, _, (), by rw [hbits, List.append_assoc], hfilling, _, _, length, rfl,
      ⟨hlength, rfl⟩, _, [], complement, (List.append_nil _).symm, ⟨hcomplement, rfl⟩, hsum, rfl⟩

theorem refuses_kindReader {position kind : Nat} {bits : List Bool} :
    (BlockBody.reader position kind).Refuses bits ↔
      (kind = 0 ∧ (BlockBody.storedReader position).Refuses bits) ∨
        (kind = 2 ∧ DescriptionFault bits) ∨ 3 ≤ kind ∧ bits = [] := by
  rw [← refuses_describedReader]
  match kind with
  | 0 => simp [BlockBody.reader, BitReader.refuses_bind]
  | 1 => simp [BlockBody.reader]
  | 2 => simp [BlockBody.reader, BitReader.refuses_bind]
  | kind + 3 => simp [BlockBody.reader]

theorem refuses_openingReader {position : Nat} {bits : List Bool} :
    (BlockBody.openingReader position).Refuses bits ↔ OpeningFault position bits := by
  simp only [BlockBody.openingReader, BitReader.bind_eq_bind, BitReader.pure_eq_done,
    BitReader.refuses_bind, BitReader.not_refuses_nat, BitReader.reads_nat,
    BitReader.not_refuses_done, refuses_kindReader, and_false, exists_false, false_or, or_false]
  constructor
  · intro h
    rcases h with ⟨_, _, number, rfl, ⟨hnumber, rfl⟩, _, rest, kind, rfl, ⟨hkind, rfl⟩, hcase⟩
    have hsmall : number < 2 := hnumber
    have hfinal : Bits.ofNat 1 number = [number == 1] := by
      rw [Bits.ofNat, Bits.ofNat, Nat.mod_eq_of_lt hsmall]
    rw [hfinal]
    rcases hcase with ⟨rfl, hstored⟩ | ⟨rfl, hdescribed⟩ | ⟨hlarge, hnil⟩
    · rcases refuses_storedReader.mp hstored with
        ⟨filling, length, complement, hrest, hfilling, hlength, hcomplement, hsum⟩
      have hfault : OpeningFault position _ :=
        @OpeningFault.stored _ (number == 1) filling length complement
          (by rw [hfilling]; exact padding_lt _) (by rw [hfilling]; exact aligned_padding _)
          hlength hcomplement hsum
      rw [hrest, show Bits.ofNat 2 0 = [false, false] from rfl]
      simpa using hfault
    · exact .described hdescribed
    · have hkind' : kind = 3 := by omega
      rw [hnil, hkind']
      exact .kind
  · intro hfault
    have hone : ∀ final : Bool, Bits.ofNat 1 final.toNat = [final] := by
      decide
    have hkind : ∃ final kind rest, kind < 2 ^ 2 ∧ bits = [final] ++ (Bits.ofNat 2 kind ++ rest) ∧
        ((kind = 0 ∧ (BlockBody.storedReader (position + 3)).Refuses rest) ∨
          (kind = 2 ∧ DescriptionFault rest) ∨ 3 ≤ kind ∧ rest = []) := by
      cases hfault with
      | @kind final => exact ⟨final, 3, [], by decide, rfl, Or.inr (Or.inr ⟨by decide, rfl⟩)⟩
      | @stored final filling length complement hpadding haligned hlength hcomplement hsum =>
          refine ⟨final, 0, filling ++ Bits.ofNat 16 length ++ Bits.ofNat 16 complement,
            by decide, ?_, Or.inl ⟨rfl, refuses_storedReader.mpr ⟨filling, length, complement, rfl,
              eq_padding hpadding haligned, hlength, hcomplement, hsum⟩⟩⟩
          rw [show Bits.ofNat 2 0 = [false, false] from rfl]
          simp
      | @described final fault hfault =>
          exact ⟨final, 2, fault, by decide, rfl, Or.inr (Or.inl ⟨rfl, hfault⟩)⟩
    rcases hkind with ⟨final, kind, rest, hkind, hbits, hcase⟩
    exact ⟨_, _, final.toNat, by rw [hone]; exact hbits, ⟨Bool.toNat_lt final, rfl⟩, _, rest, kind,
      rfl, ⟨hkind, rfl⟩, hcase⟩

theorem refuses_headerReader {bits : List Bool} :
    Element.headerReader.Refuses bits ↔
      ∃ method flags : UInt8, ¬ IsHeader method flags ∧ bits = Bits.ofBytes [method, flags] := by
  simp only [Element.headerReader, BitReader.bind_eq_bind, BitReader.pure_eq_done,
    BitReader.refuses_bind, BitReader.not_refuses_nat, BitReader.reads_nat, BitReader.refuses_ite,
    BitReader.not_refuses_done, BitReader.refuses_reject, and_false, false_or]
  constructor
  · intro h
    rcases h with ⟨_, _, method, rfl, ⟨hmethod, rfl⟩, _, _, flags, rfl, ⟨hflags, rfl⟩, hheader, rfl⟩
    have hmethod' : (UInt8.ofNat method).toNat = method := by
      rw [UInt8.toNat_ofNat', Nat.mod_eq_of_lt hmethod]
    have hflags' : (UInt8.ofNat flags).toNat = flags := by
      rw [UInt8.toNat_ofNat', Nat.mod_eq_of_lt hflags]
    refine ⟨UInt8.ofNat method, UInt8.ofNat flags, ?_, ?_⟩
    · rw [← isHeader_iff, hmethod', hflags']
      exact hheader
    · simp [Bits.ofByte, hmethod', hflags']
  · intro h
    rcases h with ⟨method, flags, hheader, hbits⟩
    exact ⟨_, Bits.ofByte flags, method.toNat, hbits, ⟨method.toNat_lt, rfl⟩, _, [], flags.toNat,
      (List.append_nil _).symm, ⟨flags.toNat_lt, rfl⟩, fun h => hheader (isHeader_iff.mp h), rfl⟩

/-!
## What is refused at each place
-/

section Places

variable {position : Nat} {bits : List Bool}

theorem refuses_start :
    (Place.reader position .start).Refuses bits ↔
      ∃ method flags : UInt8, ¬ IsHeader method flags ∧ bits = Bits.ofBytes [method, flags] := by
  rw [← refuses_headerReader]
  exact BitReader.refuses_bind_done

theorem refuses_block :
    (Place.reader position .block).Refuses bits ↔ OpeningFault position bits := by
  rw [← refuses_openingReader]
  exact BitReader.refuses_bind_done

theorem refuses_coded {final : Bool} {codes : Codes} {literals distances : List Nat}
    (hcodes : codes.Decode literals distances) :
    (Place.reader position (.coded final codes)).Refuses bits ↔
      TokenFault literals distances bits := by
  rw [← refuses_tokenReader hcodes]
  exact BitReader.refuses_bind_done

theorem not_refuses_stored {final : Bool} {left : Nat} :
    ¬ (Place.reader position (.stored final left)).Refuses bits :=
  fun h => BitReader.not_refuses_nat (BitReader.refuses_bind_done.mp h)

theorem not_refuses_trailer : ¬ (Place.reader position .trailer).Refuses bits := by
  intro h
  have hsum : (Element.checksumReader position).Refuses bits := BitReader.refuses_bind_done.mp h
  simp only [Element.checksumReader, BitReader.bind_eq_bind, BitReader.pure_eq_done,
    BitReader.refuses_bind, BitReader.not_refuses_skip, BitReader.not_refuses_done,
    BitReader.not_refuses_replicate fun _ => BitReader.not_refuses_nat, and_false, exists_false,
    or_false] at hsum

end Places

end Format
end BoundedZlib
