import BoundedZlib.Deflate.Block
import BoundedZlib.Proofs.ReadingTokens

/-!
# Reading the opening of a block

What the readers of code descriptions and of block openings read, in terms of
the format.
-/

namespace BoundedZlib

namespace Codes

/-- The codes of a block read what the code lengths determine, and refuse what they leave. -/
structure Decode (codes : Codes) (literals distances : List Nat) : Prop where
  noLiteral : ∀ bits, codes.literals.reader.Refuses bits ↔ Format.IsUnassigned literals bits
  noDistance : ∀ bits, codes.distances.reader.Refuses bits ↔ Format.IsUnassigned distances bits
  literals : codes.literals.Decodes literals
  distances : codes.distances.Decodes distances

theorem decode_of_ofLengths? {codes : Codes} {literals distances : List Nat}
    (hcodes : ofLengths? literals distances = some codes)
    (hliterals : ∀ length ∈ literals, length ≤ CodeTree.maxLength)
    (hdistances : ∀ length ∈ distances, length ≤ CodeTree.maxLength) :
    codes.Decode literals distances := by
  rw [ofLengths?, Option.bind_eq_some_iff] at hcodes
  rcases hcodes with ⟨first, hfirst, hcodes⟩
  rw [Option.map_eq_some_iff] at hcodes
  rcases hcodes with ⟨second, hsecond, hcodes⟩
  have hfirst' := (Option.filter_eq_some_iff.mp hfirst).left
  have hsecond' := (Option.filter_eq_some_iff.mp hsecond).left
  rw [← hcodes]
  exact ⟨fun _ => CodeTree.refuses_iff_isUnassigned hfirst hliterals,
    fun _ => CodeTree.refuses_iff_isUnassigned hsecond hdistances,
    CodeTree.decodes_of_ofLengths? hfirst' hliterals,
    CodeTree.decodes_of_ofLengths? hsecond' hdistances⟩

theorem exists_ofLengths?_iff {literals distances : List Nat}
    (hliterals : ∀ length ∈ literals, length ≤ CodeTree.maxLength)
    (hdistances : ∀ length ∈ distances, length ≤ CodeTree.maxLength) :
    (∃ codes, ofLengths? literals distances = some codes) ↔
      Format.IsUsable literals ∧ Format.IsUsable distances := by
  rw [← CodeTree.usable?_iff hliterals, ← CodeTree.usable?_iff hdistances]
  simp only [ofLengths?, Option.bind_eq_some_iff, Option.map_eq_some_iff]
  constructor
  · intro h
    rcases h with ⟨_, first, hfirst, second, hsecond, _⟩
    exact ⟨⟨first, hfirst⟩, ⟨second, hsecond⟩⟩
  · intro h
    rcases h with ⟨⟨first, hfirst⟩, ⟨second, hsecond⟩⟩
    exact ⟨⟨first, second⟩, first, hfirst, second, hsecond, rfl⟩

end Codes

namespace Format

/-!
## The describing code
-/

theorem isDescribing_describingLengths (given : List Nat) :
    IsDescribing given (Codes.describingLengths given) := by
  constructor
  · simp [Codes.describingLengths, Codes.describingOrder]
  · intro place symbol hplace
    have hlt : place < 19 := by
      have hbound := (List.getElem?_eq_some_iff.mp hplace).choose
      exact hbound
    have hall : ∀ place : Fin 19, ∀ symbol, describingOrder[place.val]? = some symbol →
        symbol < 19 ∧ Codes.describingOrder.idxOf symbol = place.val := by
      decide
    rcases hall ⟨place, hlt⟩ symbol hplace with ⟨hsymbol, hindex⟩
    have hrange : (List.range 19)[symbol]? = some symbol := List.getElem?_range hsymbol
    rw [Codes.describingLengths, List.getElem?_map]
    rw [show Codes.describingOrder.length = 19 from rfl, hrange, Option.map_some, hindex]

theorem isDescribing_iff {given lengths : List Nat} :
    IsDescribing given lengths ↔ lengths = Codes.describingLengths given := by
  constructor
  · intro hdescribing
    rcases hdescribing with ⟨hlength, hplaces⟩
    rcases isDescribing_describingLengths given with ⟨hlength', hplaces'⟩
    apply List.ext_getElem?
    intro symbol
    by_cases hlt : symbol < 19
    · -- Every symbol has its place in the order.
      have hall : ∀ symbol : Fin 19, ∃ place : Fin 19,
          describingOrder[place.val]? = some symbol.val := by
        decide
      rcases hall ⟨symbol, hlt⟩ with ⟨place, hplace⟩
      rw [hplaces place symbol hplace, hplaces' place symbol hplace]
    · rw [List.getElem?_eq_none (by omega), List.getElem?_eq_none (by omega)]
  · intro hlengths
    rw [hlengths]
    exact isDescribing_describingLengths given

/-!
## Runs of code lengths
-/

section Runs

variable {describing lengths all : List Nat} {previous? : Option Nat} {count length : Nat}
  {bits : List Bool}

theorem Run.count_pos (hrun : Run describing previous? bits count length) :
    0 < count := by
  cases hrun with
  | single => exact Nat.one_pos
  | previous => exact Nat.lt_of_lt_of_le (by decide) (Nat.le_add_right 3 _)
  | zeros => exact Nat.lt_of_lt_of_le (by decide) (Nat.le_add_right 3 _)
  | manyZeros => exact Nat.lt_of_lt_of_le (by decide) (Nat.le_add_right 11 _)

theorem Run.length_le (hrun : Run describing previous? bits count length)
    (hprevious : ∀ previous, previous? = some previous → previous ≤ CodeTree.maxLength) :
    length ≤ CodeTree.maxLength := by
  cases hrun with
  | single hlength _ => exact Nat.le_of_lt_succ hlength
  | previous hlast _ _ => exact hprevious length hlast
  | zeros => exact Nat.zero_le _
  | manyZeros => exact Nat.zero_le _

theorem Runs.length_le (hruns : Runs describing lengths bits all) :
    lengths.length ≤ all.length := by
  induction hruns with
  | stop => exact Nat.le_refl _
  | run _ _ ih =>
      rw [List.length_append] at ih
      exact Nat.le_trans (Nat.le_add_right _ _) ih

theorem Runs.le_maxLength (hruns : Runs describing lengths bits all)
    (hlengths : ∀ length ∈ lengths, length ≤ CodeTree.maxLength) :
    ∀ length ∈ all, length ≤ CodeTree.maxLength := by
  induction hruns with
  | stop => exact hlengths
  | run hrun _ ih =>
      apply ih
      intro other hmem
      rcases List.mem_append.mp hmem with hmem | hmem
      · exact hlengths other hmem
      · rw [List.eq_of_mem_replicate hmem]
        apply hrun.length_le
        intro previous hlast
        exact hlengths previous (List.mem_of_getLast? hlast)

theorem Runs.eq_of_length_le (hruns : Runs describing lengths bits all)
    (hle : all.length ≤ lengths.length) :
    bits = [] ∧ lengths = all := by
  cases hruns with
  | stop => exact ⟨rfl, rfl⟩
  | run hrun hrest =>
      have hpos := hrun.count_pos
      have hmore := hrest.length_le
      rw [List.length_append, List.length_replicate] at hmore
      omega

theorem reads_runReader {tree : CodeTree}
    (hdecodes : tree.Decodes describing)
    (hsymbols : describing.length = 19) :
    (∃ part, (Codes.runReader tree previous?).Reads bits ((count, length), part)) ↔
      Run describing previous? bits count length := by
  simp only [Codes.runReader, BitReader.bind_eq_bind, BitReader.pure_eq_done,
    BitReader.reads_measured_bind, BitReader.reads_done, Prod.mk.injEq]
  constructor
  · intro h
    rcases h with ⟨_, code, rest, symbol, hbits, hcode, more, _, run, hrest, hrun, hnil, hvalue, _⟩
    have hcode' := (hdecodes _ _).mp hcode
    subst hvalue hnil hrest hbits
    rw [List.append_nil]
    simp only [Codes.runOf, BitReader.reads_ite, BitReader.bind_eq_bind, BitReader.pure_eq_done,
      BitReader.reads_bind, BitReader.reads_done, BitReader.reads_nat, BitReader.reads_ofOption,
      Prod.mk.injEq] at hrun
    rcases hrun with ⟨hsmall, hnil, hcount, hlength⟩ |
      ⟨hlarge, ⟨heq, hrun⟩ | ⟨hne, ⟨heq, hrun⟩ | ⟨hne', hrun⟩⟩⟩
    · subst hnil hcount hlength
      rw [List.append_nil]
      exact Run.single hsmall hcode'
    · rcases hrun with ⟨_, _, previous, hmore, ⟨hnil, hprevious⟩, bits, _, number, hrest,
        ⟨hnumber, hbits⟩, hnil', hcount, hlength⟩
      subst hnil hnil' hcount hlength hbits hrest hmore heq
      simpa using Run.previous hprevious hcode' hnumber
    · rcases hrun with ⟨bits, _, number, hmore, ⟨hnumber, hbits⟩, hnil, hcount, hlength⟩
      subst hnil hcount hlength hbits hmore heq
      simpa using Run.zeros hcode' hnumber
    · rcases hrun with ⟨bits, _, number, hmore, ⟨hnumber, hbits⟩, hnil, hcount, hlength⟩
      have hsymbol : symbol < 19 := by
        rw [← hsymbols]
        exact hcode'.symbol_lt
      have heq : symbol = 18 := by omega
      subst hnil hcount hlength hbits hmore heq
      simpa using Run.manyZeros hcode' hnumber
  · intro hrun
    cases hrun with
    | single hlength hcode =>
        refine ⟨⟨bits.length, 0⟩, bits, [], _, by simp, (hdecodes _ _).mpr hcode, [], [],
          (1, length), rfl, ?_, rfl, rfl, rfl⟩
        simp [Codes.runOf, hlength]
    | @previous _ more code hprevious hcode hmore =>
        refine ⟨⟨code.length, 2⟩, code, _, 16, rfl, (hdecodes _ _).mpr hcode, _, [],
          (3 + more, length), (List.append_nil _).symm, ?_, rfl, rfl, by simp⟩
        simp [Codes.runOf, hprevious, BitReader.ofOption, BitReader.reads_bind, BitReader.reads_nat]
        exact hmore
    | @zeros more code hcode hmore =>
        refine ⟨⟨code.length, 3⟩, code, _, 17, rfl, (hdecodes _ _).mpr hcode, _, [], (3 + more, 0),
          (List.append_nil _).symm, ?_, rfl, rfl, by simp⟩
        simp [Codes.runOf, BitReader.reads_bind, BitReader.reads_nat]
        exact hmore
    | @manyZeros more code hcode hmore =>
        refine ⟨⟨code.length, 7⟩, code, _, 18, rfl, (hdecodes _ _).mpr hcode, _, [], (11 + more, 0),
          (List.append_nil _).symm, ?_, rfl, rfl, by simp⟩
        simp [Codes.runOf, BitReader.reads_bind, BitReader.reads_nat]
        exact hmore

theorem reads_lengths_reached {total : Nat} {latest : List Nat} {parts : List Part}
    (hreached : latest.length = total) :
    (∃ parts', (BitReader.done (latest.reverse, parts.reverse)).Reads bits (all, parts')) ↔
      Runs describing latest.reverse bits all ∧ all.length = total := by
  simp only [BitReader.reads_done, Prod.mk.injEq]
  constructor
  · intro h
    rcases h with ⟨_, hbits, hall, _⟩
    rw [hbits, ← hall, List.length_reverse]
    exact ⟨Runs.stop, hreached⟩
  · intro h
    rcases h with ⟨hruns, hlength⟩
    rcases hruns.eq_of_length_le (by rw [List.length_reverse]; omega) with ⟨hbits, hall⟩
    exact ⟨_, hbits, hall, rfl⟩

theorem reverse_replicate_append {count length : Nat} {latest : List Nat} :
    (List.replicate count length ++ latest).reverse =
      latest.reverse ++ List.replicate count length := by
  rw [List.reverse_append, List.reverse_replicate]

theorem length_replicate_append {count length : Nat} {latest : List Nat} :
    (List.replicate count length ++ latest).length = count + latest.length := by
  rw [List.length_append, List.length_replicate]

theorem reads_lengthsReader {tree : CodeTree}
    (hdecodes : tree.Decodes describing)
    (hsymbols : describing.length = 19)
    {total rounds : Nat} {latest : List Nat} {parts : List Part}
    (hrounds : total ≤ rounds + latest.length)
    (htotal : latest.length ≤ total) :
    (∃ parts', (Codes.lengthsReader tree total rounds latest parts).Reads bits (all, parts')) ↔
      Runs describing latest.reverse bits all ∧ all.length = total := by
  induction rounds generalizing bits latest parts with
  | zero =>
      have hreached : latest.length = total := by omega
      rw [Codes.lengthsReader, if_pos hreached]
      exact reads_lengths_reached hreached
  | succ rounds ih =>
      rw [Codes.lengthsReader]
      by_cases hreached : latest.length = total
      · rw [if_pos hreached]
        exact reads_lengths_reached hreached
      · rw [if_neg hreached]
        simp only [BitReader.bind_eq_bind, BitReader.reads_bind, BitReader.reads_ite,
          BitReader.not_reads_reject, and_false, or_false]
        have hnext : ∀ {count length : Nat} {rest : List Bool} {parts : List Part}, 0 < count →
            latest.length + count ≤ total →
              ((∃ parts', (Codes.lengthsReader tree total rounds
                  (List.replicate count length ++ latest) parts).Reads rest (all, parts')) ↔
                Runs describing (latest.reverse ++ List.replicate count length) rest all ∧
                  all.length = total) := by
          intro count length rest parts hpos hle
          rw [← reverse_replicate_append]
          exact ih (by rw [length_replicate_append]; omega) (by rw [length_replicate_append]; omega)
        constructor
        · intro h
          rcases h with ⟨parts', front, back, ⟨⟨count, length⟩, part⟩, hbits, hrun, hle, hrest⟩
          have hrun' := (reads_runReader hdecodes hsymbols).mp ⟨part, hrun⟩
          rcases (hnext hrun'.count_pos hle).mp ⟨parts', hrest⟩ with ⟨hruns, hlength⟩
          rw [← List.getLast?_reverse] at hrun'
          rw [hbits]
          exact ⟨Runs.run hrun' hruns, hlength⟩
        · intro h
          rcases h with ⟨hruns, hlength⟩
          generalize hlengths : latest.reverse = lengths at hruns
          cases hruns with
          | stop =>
              rw [← hlengths, List.length_reverse] at hlength
              exact absurd hlength hreached
          | @run _ _ count length run rest hrun hrest =>
              subst hlengths
              have hmore := hrest.length_le
              rw [List.length_append, List.length_reverse, List.length_replicate] at hmore
              rw [List.getLast?_reverse] at hrun
              have hle : latest.length + count ≤ total := by omega
              rcases (reads_runReader hdecodes hsymbols).mpr hrun with ⟨part, hread⟩
              rcases (hnext hrun.count_pos hle).mpr ⟨hrest, hlength⟩ with ⟨parts', hrest'⟩
              exact ⟨parts', run, rest, ((count, length), part), rfl, hread, hle, hrest'⟩

end Runs

/-!
## Described and fixed codes
-/

theorem Describes.le_maxLength {literals distances : List Nat} {bits : List Bool}
    (hdescribes : Describes literals distances bits) :
    (∀ length ∈ literals, length ≤ CodeTree.maxLength) ∧
      ∀ length ∈ distances, length ≤ CodeTree.maxLength := by
  cases hdescribes with
  | intro _ _ _ _ _ _ hruns _ =>
      have hall := hruns.le_maxLength (by simp)
      constructor
      · intro length hmem
        exact hall length (List.mem_append_left _ hmem)
      · intro length hmem
        exact hall length (List.mem_append_right _ hmem)

theorem describingLengths_le {given : List Nat}
    (hgiven : ∀ length ∈ given, length < 2 ^ 3) :
    ∀ length ∈ Codes.describingLengths given, length ≤ CodeTree.maxLength := by
  intro length hmem
  rcases List.mem_map.mp hmem with ⟨symbol, _, hlength⟩
  rw [← hlength, List.getD_eq_getElem?_getD]
  cases hplace : given[Codes.describingOrder.idxOf symbol]? with
  | none => exact Nat.zero_le _
  | some other =>
      have hsmall := hgiven other (List.mem_of_getElem? hplace)
      exact Nat.le_trans (Nat.le_of_lt hsmall) (by decide)

theorem reads_all_lengths {tree : CodeTree} {describing all : List Nat} {bits : List Bool}
    (hdecodes : tree.Decodes describing)
    (hsymbols : describing.length = 19) {total : Nat} :
    (∃ parts, (Codes.lengthsReader tree total total [] []).Reads bits (all, parts)) ↔
      Runs describing [] bits all ∧ all.length = total :=
  reads_lengthsReader hdecodes hsymbols (Nat.le_refl _) (Nat.zero_le _)

theorem reads_describedReader {codes : Codes} {bits : List Bool} :
    (∃ parts, Codes.describedReader.Reads bits (codes, parts)) ↔
      ∃ literals distances, Describes literals distances bits ∧
        Codes.ofLengths? literals distances = some codes := by
  have hlength : ∀ bits value, (BitReader.nat 3).Reads bits value ↔
      value < 2 ^ 3 ∧ bits = Bits.ofNat 3 value := fun _ _ => BitReader.reads_nat
  simp only [Codes.describedReader, BitReader.bind_eq_bind, BitReader.pure_eq_done,
    BitReader.reads_bind, BitReader.reads_ite, BitReader.reads_nat, BitReader.reads_done,
    BitReader.reads_replicate hlength, BitReader.reads_ofOption, BitReader.not_reads_reject,
    and_false, or_false, Prod.mk.injEq]
  constructor
  · intro h
    rcases h with ⟨_, _, _, literalCount, hbits, ⟨hliteralCount, rfl⟩, _, _, distanceCount, rfl,
      ⟨hdistanceCount, rfl⟩, _, _, givenCount, rfl, ⟨hgivenCount, rfl⟩, hmost, _, _, given, rfl,
      ⟨hcount, hgiven, rfl⟩, _, _, tree, rfl, ⟨rfl, htree⟩, runs, _, ⟨lengths, _⟩, rfl, hruns,
      _, _, codes', rfl, ⟨rfl, hcodes⟩, rfl, rfl, rfl⟩
    dsimp only at hruns hcodes
    have hdescribing := isDescribing_describingLengths given
    have hsmall := describingLengths_le hgiven
    have hcomplete := (CodeTree.complete?_iff hsmall).mp ⟨tree, htree⟩
    rw [CodeTree.complete?, Option.filter_eq_some_iff] at htree
    have hdecodes := CodeTree.decodes_of_ofLengths? htree.left hsmall
    rcases (reads_all_lengths hdecodes hdescribing.left).mp ⟨_, hruns⟩ with ⟨hruns', hlengths⟩
    have hle := hruns'.le_maxLength (by simp)
    have hle' : (∀ length ∈ lengths.take (257 + literalCount), length ≤ CodeTree.maxLength) ∧
        ∀ length ∈ lengths.drop (257 + literalCount), length ≤ CodeTree.maxLength := by
      constructor
      · intro length hmem
        exact hle length (List.mem_of_mem_take hmem)
      · intro length hmem
        exact hle length (List.mem_of_mem_drop hmem)
    have husable := (Codes.exists_ofLengths?_iff hle'.left hle'.right).mp ⟨_, hcodes⟩
    refine ⟨lengths.take (257 + literalCount), lengths.drop (257 + literalCount), ?_, hcodes⟩
    have hliterals : (lengths.take (257 + literalCount)).length = 257 + literalCount := by
      rw [List.length_take]
      omega
    have hdistances : (lengths.drop (257 + literalCount)).length = 1 + distanceCount := by
      rw [List.length_drop]
      omega
    rw [← List.take_append_drop (257 + literalCount) lengths] at hruns'
    have hdescribes := Describes.intro (by omega) (by omega) (by omega) hgiven hdescribing
      hcomplete hruns' husable
    rw [hliterals, hdistances, hcount, Nat.add_sub_cancel_left, Nat.add_sub_cancel_left,
      Nat.add_sub_cancel_left] at hdescribes
    rw [hbits]
    simpa using hdescribes
  · intro h
    rcases h with ⟨literals, distances, hdescribes, hcodes⟩
    cases hdescribes with
    | @intro given describing runs hliterals hdistances hcount hgiven hdescribing hcomplete hruns
        husable =>
        rw [isDescribing_iff] at hdescribing
        subst hdescribing
        have hdescribing := isDescribing_describingLengths given
        have hsmall := describingLengths_le hgiven
        rcases (CodeTree.complete?_iff hsmall).mpr hcomplete with ⟨tree, htree⟩
        have htree' := htree
        rw [CodeTree.complete?, Option.filter_eq_some_iff] at htree'
        have hdecodes := CodeTree.decodes_of_ofLengths? htree'.left hsmall
        rcases (reads_all_lengths hdecodes hdescribing.left).mpr ⟨hruns, rfl⟩ with ⟨parts, hread⟩
        rw [List.length_append] at hread
        have hliteralCount : 257 + (literals.length - 257) = literals.length := by omega
        have hdistanceCount : 1 + (distances.length - 1) = distances.length := by omega
        refine ⟨parts, _, _, literals.length - 257, ?_, ⟨by omega, rfl⟩, _, _,
          distances.length - 1, rfl, ⟨by omega, rfl⟩, _, _, given.length - 4, rfl,
          ⟨by omega, rfl⟩, by omega, _, _, given, rfl, ⟨by omega, hgiven, rfl⟩, _, _, tree, rfl,
          ⟨rfl, htree⟩, runs, _, (literals ++ distances, parts), rfl, ?_, [], [], codes, rfl,
          ⟨rfl, ?_⟩, rfl, rfl, rfl⟩
        · simp
        · rw [hliteralCount, hdistanceCount]
          exact hread
        · rw [hliteralCount, List.take_left, List.drop_left]
          exact hcodes

theorem fixed_decode : Codes.fixed.Decode fixedLiterals fixedDistances := by
  have hliterals : Codes.fixedLiterals = fixedLiterals := by decide +kernel
  have hle : (∀ length ∈ fixedLiterals, length ≤ CodeTree.maxLength) ∧
      ∀ length ∈ fixedDistances, length ≤ CodeTree.maxLength := by
    decide +kernel
  have husable : IsUsable fixedLiterals ∧ IsUsable fixedDistances := by
    constructor
    · exact Or.inl (show codeSpace _ = 2 ^ 15 by decide +kernel)
    · exact Or.inl (show codeSpace _ = 2 ^ 15 by decide +kernel)
  rcases (Codes.exists_ofLengths?_iff hle.left hle.right).mpr husable with ⟨codes, hcodes⟩
  have hfixed : Codes.fixed = codes := by
    rw [Codes.fixed, hliterals, show Codes.fixedDistances = fixedDistances from rfl, hcodes,
      Option.getD_some]
  rw [hfixed]
  exact Codes.decode_of_ofLengths? hcodes hle.left hle.right

/-!
## Openings of blocks
-/

/-- The bits that open a block at a position, up to the tokens or the bytes that it holds. -/
inductive IsOpening (position : Nat) (final : Bool) : List Bool → BlockBody → Prop where
  | stored {padding : List Bool} {length : Nat}
      (hpadding : padding.length < 8)
      (haligned : (position + 3 + padding.length) % 8 = 0)
      (hlength : length < 2 ^ 16) :
      IsOpening position final
        ([final, false, false] ++ padding ++ Bits.ofNat 16 length ++
          Bits.ofNat 16 (65535 - length))
        (.stored length)
  | fixed : IsOpening position final [final, true, false] (.coded .fixed)
  | described {literals distances : List Nat} {description : List Bool} {codes : Codes}
      (hdescribes : Describes literals distances description)
      (hcodes : Codes.ofLengths? literals distances = some codes) :
      IsOpening position final ([final, false, true] ++ description) (.coded codes)

theorem IsOpening.ne_nil {position : Nat} {final : Bool} {bits : List Bool} {body : BlockBody}
    (hopening : IsOpening position final bits body) :
    bits ≠ [] := by
  cases hopening with
  | stored => simp
  | fixed => simp
  | described => simp

theorem padding_lt (position : Nat) : padding position < 8 :=
  Nat.mod_lt _ (by decide)

theorem aligned_padding (position : Nat) : (position + padding position) % 8 = 0 := by
  unfold padding
  omega

theorem eq_padding {position count : Nat}
    (hsmall : count < 8)
    (haligned : (position + count) % 8 = 0) :
    count = padding position := by
  unfold padding
  omega

theorem reads_storedReader {position : Nat} {bits : List Bool} {body : BlockBody} :
    (BlockBody.storedReader position).Reads bits body ↔
      ∃ filling length, bits = filling ++ Bits.ofNat 16 length ++ Bits.ofNat 16 (65535 - length) ∧
        filling.length = padding position ∧ length < 2 ^ 16 ∧ body = .stored length := by
  have hmax : BlockBody.maxStored = 65535 := rfl
  simp only [BlockBody.storedReader, BitReader.bind_eq_bind, BitReader.pure_eq_done,
    BitReader.reads_bind, BitReader.reads_skip, BitReader.reads_nat, BitReader.reads_ite,
    BitReader.reads_done, BitReader.not_reads_reject, and_false, or_false, hmax]
  constructor
  · intro h
    rcases h with ⟨filling, _, _, hbits, hfilling, _, _, length, rfl, ⟨hlength, rfl⟩, _, _,
      complement, rfl, ⟨_, rfl⟩, hsum, rfl, hbody⟩
    have hcomplement : complement = 65535 - length := by omega
    rw [hcomplement] at hbits
    exact ⟨filling, length, by simpa using hbits, hfilling, hlength, hbody.symm⟩
  · intro h
    rcases h with ⟨filling, length, hbits, hfilling, hlength, hbody⟩
    exact ⟨filling, _, (), by rw [hbits, List.append_assoc], hfilling, _, _, length, rfl,
      ⟨hlength, rfl⟩, _, [], 65535 - length, (List.append_nil _).symm, ⟨by omega, rfl⟩, by omega,
      rfl, hbody.symm⟩

theorem reads_bodyReader {position kind : Nat} {bits : List Bool} {body : BlockBody} :
    (∃ parts, (BlockBody.reader position kind).Reads bits (body, parts)) ↔
      (kind = 0 ∧ (BlockBody.storedReader position).Reads bits body) ∨
        (kind = 1 ∧ bits = [] ∧ body = .coded .fixed) ∨
        kind = 2 ∧ ∃ codes, body = .coded codes ∧
          ∃ parts, Codes.describedReader.Reads bits (codes, parts) := by
  match kind with
  | 0 => simp [BlockBody.reader, BitReader.reads_bind]
  | 1 => simp [BlockBody.reader, eq_comm]
  | 2 =>
      simp only [BlockBody.reader, BitReader.pure_eq_done, BitReader.bind_eq_bind,
        BitReader.reads_bind, BitReader.reads_done, Prod.mk.injEq]
      constructor
      · intro h
        rcases h with ⟨_, front, _, ⟨codes, parts⟩, rfl, hread, rfl, hbody, _⟩
        rw [List.append_nil]
        exact Or.inr (Or.inr ⟨trivial, codes, hbody.symm, parts, hread⟩)
      · intro h
        rcases h with ⟨hkind, _⟩ | ⟨hkind, _⟩ | ⟨_, codes, hbody, parts, hread⟩
        · cases hkind
        · cases hkind
        · exact ⟨parts, bits, [], (codes, parts), (List.append_nil _).symm, hread, rfl, hbody.symm,
            rfl⟩
  | kind + 3 => simp [BlockBody.reader]

theorem reads_openingReader {position : Nat} {final : Bool} {bits : List Bool} {body : BlockBody} :
    (∃ parts, (BlockBody.openingReader position).Reads bits ((final, body), parts)) ↔
      IsOpening position final bits body := by
  simp only [BlockBody.openingReader, BitReader.bind_eq_bind, BitReader.pure_eq_done,
    BitReader.reads_bind, BitReader.reads_nat, BitReader.reads_done, Prod.mk.injEq]
  constructor
  · intro h
    rcases h with ⟨_, _, _, number, rfl, ⟨hnumber, rfl⟩, _, _, kind, rfl, ⟨hkind, rfl⟩,
      front, _, ⟨_, parts⟩, rfl, hread, rfl, ⟨rfl, rfl⟩, _⟩
    have hsmall : number < 2 := hnumber
    have hfinal : Bits.ofNat 1 number = [number == 1] := by
      rw [Bits.ofNat, Bits.ofNat, Nat.mod_eq_of_lt hsmall]
    rw [hfinal, List.append_nil]
    rcases reads_bodyReader.mp ⟨parts, hread⟩ with
      ⟨rfl, hstored⟩ | ⟨rfl, rfl, rfl⟩ | ⟨rfl, codes, rfl, hdescribed⟩
    · rcases reads_storedReader.mp hstored with ⟨filling, length, rfl, hfilling, hlength, rfl⟩
      have hopening : IsOpening position (number == 1) _ _ :=
        IsOpening.stored (by rw [hfilling]; exact padding_lt _)
          (by rw [hfilling]; exact aligned_padding _) hlength
      rw [show Bits.ofNat 2 0 = [false, false] from rfl]
      simpa using hopening
    · exact IsOpening.fixed
    · rcases reads_describedReader.mp hdescribed with ⟨literals, distances, hdescribes, hcodes⟩
      exact IsOpening.described hdescribes hcodes
  · intro hopening
    have hnumber : final.toNat < 2 ^ 1 := Bool.toNat_lt final
    have hfinal : Bits.ofNat 1 final.toNat = [final] := by
      cases final with
      | false => rfl
      | true => rfl
    have hone : (final.toNat == 1) = final := by
      cases final with
      | false => rfl
      | true => rfl
    have hkind : ∃ kind rest, kind < 2 ^ 2 ∧ bits = [final] ++ (Bits.ofNat 2 kind ++ rest) ∧
        ∃ parts, (BlockBody.reader (position + 3) kind).Reads rest (body, parts) := by
      simp only [reads_bodyReader]
      cases hopening with
      | @stored filling length hpadding haligned hlength =>
          refine ⟨0, filling ++ Bits.ofNat 16 length ++ Bits.ofNat 16 (65535 - length), by decide,
            ?_, Or.inl ⟨rfl, ?_⟩⟩
          · rw [show Bits.ofNat 2 0 = [false, false] from rfl]
            simp
          · exact reads_storedReader.mpr
              ⟨filling, length, rfl, eq_padding hpadding haligned, hlength, rfl⟩
      | fixed => exact ⟨1, [], by decide, rfl, Or.inr (Or.inl ⟨rfl, rfl, rfl⟩)⟩
      | @described literals distances description codes hdescribes hcodes =>
          refine ⟨2, description, by decide, rfl, Or.inr (Or.inr ⟨rfl, codes, rfl, ?_⟩)⟩
          exact reads_describedReader.mpr ⟨literals, distances, hdescribes, hcodes⟩
    rcases hkind with ⟨kind, rest, hkind, hbits, parts, hread⟩
    exact ⟨parts, _, _, final.toNat, by rw [hfinal]; exact hbits, ⟨hnumber, rfl⟩, _, rest, kind,
      rfl, ⟨hkind, rfl⟩, rest, [], (body, parts), (List.append_nil _).symm, hread, rfl,
      ⟨hone, rfl⟩, rfl⟩

end Format
end BoundedZlib
