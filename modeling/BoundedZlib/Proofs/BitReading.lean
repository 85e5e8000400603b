import BoundedZlib.BitReader
import BoundedZlib.Proofs.Numbers

/-!
# What a bit reader reads

A reader reads a value from a sequence of bits if these bits, none too few and
none too many, lead to the value.  Each way of building a reader has a law that
says which bits it accounts for.  By these laws a format that is read element by
element can be compared with one that is stated without any reader.
-/

namespace BoundedZlib

namespace BitReader

variable {α β : Type}

inductive Reads : BitReader α → List Bool → α → Prop where
  | done {value : α} : Reads (.done value) [] value
  | bit {next : Bool → BitReader α} {b : Bool} {rest : List Bool} {value : α}
      (hrest : (next b).Reads rest value) :
      Reads (.bit next) (b :: rest) value

@[simp] theorem reads_done {value read : α} {bits : List Bool} :
    (done value).Reads bits read ↔ bits = [] ∧ value = read := by
  constructor
  · intro h
    cases h with
    | done => exact ⟨rfl, rfl⟩
  · intro h
    rcases h with ⟨hbits, hvalue⟩
    subst hbits hvalue
    exact Reads.done

@[simp] theorem not_reads_bit_nil {next : Bool → BitReader α} {read : α} :
    ¬ (bit next).Reads [] read := by
  intro h
  cases h

@[simp] theorem reads_bit_cons {next : Bool → BitReader α} {b : Bool} {rest : List Bool}
    {read : α} :
    (bit next).Reads (b :: rest) read ↔ (next b).Reads rest read := by
  constructor
  · intro h
    cases h with
    | bit hrest => exact hrest
  · exact Reads.bit

@[simp] theorem not_reads_reject {bits : List Bool} {read : α} :
    ¬ (reject : BitReader α).Reads bits read := by
  intro h
  cases h

/-!
## Combined readers
-/

theorem reads_bind {reader : BitReader α} {follow : α → BitReader β} {bits : List Bool}
    {read : β} :
    (reader.bind follow).Reads bits read ↔
      ∃ front back value,
        bits = front ++ back ∧ reader.Reads front value ∧ (follow value).Reads back read := by
  induction reader generalizing bits with
  | done value =>
      constructor
      · intro h
        exact ⟨[], bits, value, rfl, Reads.done, h⟩
      · intro h
        rcases h with ⟨front, back, value', hbits, hfront, hback⟩
        rcases reads_done.mp hfront with ⟨hnil, hvalue⟩
        rw [hbits, hnil, List.nil_append, done_bind, hvalue]
        exact hback
  | bit next ih =>
      rw [bit_bind]
      cases bits with
      | nil =>
          constructor
          · intro h
            exact absurd h not_reads_bit_nil
          · intro h
            rcases h with ⟨front, back, value, hbits, hfront, _⟩
            rw [(List.append_eq_nil_iff.mp hbits.symm).left] at hfront
            exact absurd hfront not_reads_bit_nil
      | cons b rest =>
          rw [reads_bit_cons, ih b]
          constructor
          · intro h
            rcases h with ⟨front, back, value, hrest, hfront, hback⟩
            exact ⟨b :: front, back, value, by rw [hrest, List.cons_append], Reads.bit hfront,
              hback⟩
          · intro h
            rcases h with ⟨front, back, value, hbits, hfront, hback⟩
            cases front with
            | nil => exact absurd hfront not_reads_bit_nil
            | cons b' front =>
                rw [List.cons_append, List.cons.injEq] at hbits
                rw [← hbits.left] at hfront
                exact ⟨front, back, value, hbits.right, reads_bit_cons.mp hfront, hback⟩
  | reject =>
      constructor
      · intro h
        exact absurd h not_reads_reject
      · intro h
        rcases h with ⟨_, _, _, _, hfront, _⟩
        exact absurd hfront not_reads_reject

theorem reads_bind_done {reader : BitReader α} {wrap : α → β} {bits : List Bool} {read : β} :
    (reader.bind fun value => done (wrap value)).Reads bits read ↔
      ∃ value, reader.Reads bits value ∧ wrap value = read := by
  simp only [reads_bind, reads_done]
  constructor
  · intro h
    rcases h with ⟨front, _, value, hbits, hread, hnil, hvalue⟩
    rw [hbits, hnil, List.append_nil]
    exact ⟨value, hread, hvalue⟩
  · intro h
    rcases h with ⟨value, hread, hvalue⟩
    exact ⟨bits, [], value, (List.append_nil _).symm, hread, rfl, hvalue⟩

@[simp] theorem reads_ofOption {value? : Option α} {bits : List Bool} {read : α} :
    (ofOption value?).Reads bits read ↔ bits = [] ∧ value? = some read := by
  cases value? with
  | none => simp [ofOption]
  | some value => simp [ofOption]

@[simp] theorem reads_ite {condition : Prop} [Decidable condition]
    {reader other : BitReader α} {bits : List Bool} {read : α} :
    (if condition then reader else other).Reads bits read ↔
      (condition ∧ reader.Reads bits read) ∨ (¬ condition ∧ other.Reads bits read) := by
  by_cases h : condition
  · simp [h]
  · simp [h]

theorem reads_measuredFrom {reader : BitReader α} {width : Nat} {bits : List Bool}
    {read : α × Nat} :
    (reader.measuredFrom width).Reads bits read ↔
      reader.Reads bits read.1 ∧ read.2 = width + bits.length := by
  induction reader generalizing width bits with
  | done value =>
      rw [measuredFrom, reads_done, reads_done, Prod.ext_iff]
      constructor
      · intro h
        rcases h with ⟨hbits, hvalue, hwidth⟩
        subst hbits
        exact ⟨⟨rfl, hvalue⟩, hwidth.symm⟩
      · intro h
        rcases h with ⟨⟨hbits, hvalue⟩, hwidth⟩
        subst hbits
        exact ⟨rfl, hvalue, hwidth.symm⟩
  | bit next ih =>
      cases bits with
      | nil => simp [measuredFrom]
      | cons b rest =>
          rw [measuredFrom, reads_bit_cons, ih b, reads_bit_cons, List.length_cons]
          rw [show width + 1 + rest.length = width + (rest.length + 1) by omega]
  | reject => simp [measuredFrom]

theorem reads_measured {reader : BitReader α} {bits : List Bool} {read : α × Nat} :
    reader.measured.Reads bits read ↔ reader.Reads bits read.1 ∧ read.2 = bits.length := by
  rw [measured, reads_measuredFrom, Nat.zero_add]

theorem reads_measured_bind {reader : BitReader α} {follow : α × Nat → BitReader β}
    {bits : List Bool} {read : β} :
    (reader.measured.bind follow).Reads bits read ↔
      ∃ front back value,
        bits = front ++ back ∧ reader.Reads front value ∧
          (follow (value, front.length)).Reads back read := by
  rw [reads_bind]
  constructor
  · intro h
    rcases h with ⟨front, back, ⟨value, width⟩, hbits, hfront, hback⟩
    rcases reads_measured.mp hfront with ⟨hread, hwidth⟩
    rw [show width = front.length from hwidth] at hback
    exact ⟨front, back, value, hbits, hread, hback⟩
  · intro h
    rcases h with ⟨front, back, value, hbits, hfront, hback⟩
    exact ⟨front, back, (value, front.length), hbits, reads_measured.mpr ⟨hfront, rfl⟩, hback⟩

/-!
## Numbers and repetitions
-/

theorem reads_natFrom {width unit value : Nat} {bits : List Bool} {read : Nat} :
    (natFrom width unit value).Reads bits read ↔
      bits.length = width ∧ value + unit * Bits.toNat bits = read := by
  induction width generalizing unit value bits with
  | zero =>
      cases bits with
      | nil => simp [natFrom, Bits.toNat]
      | cons b rest => simp [natFrom]
  | succ width ih =>
      cases bits with
      | nil => simp [natFrom]
      | cons b rest =>
          have hvalue : (if b then value + unit else value) + 2 * unit * Bits.toNat rest =
              value + unit * Bits.toNat (b :: rest) := by
            rw [Bits.toNat_cons]
            cases b with
            | false => simp; grind
            | true => simp; grind
          rw [natFrom, reads_bit_cons, ih, hvalue, List.length_cons, Nat.add_right_cancel_iff]

theorem reads_nat_iff {width : Nat} {bits : List Bool} {read : Nat} :
    (nat width).Reads bits read ↔ bits.length = width ∧ Bits.toNat bits = read := by
  rw [nat, reads_natFrom, Nat.zero_add, Nat.one_mul]

theorem reads_nat {width : Nat} {bits : List Bool} {read : Nat} :
    (nat width).Reads bits read ↔ read < 2 ^ width ∧ bits = Bits.ofNat width read :=
  reads_nat_iff.trans Bits.spells_iff

theorem reads_skip {count : Nat} {bits : List Bool} {read : Unit} :
    (skip count).Reads bits read ↔ bits.length = count := by
  induction count generalizing bits with
  | zero => simp [skip]
  | succ count ih =>
      cases bits with
      | nil => simp [skip]
      | cons b rest => rw [skip, reads_bit_cons, ih, List.length_cons, Nat.add_right_cancel_iff]

/-- Values that are spelled in one way each are read in a row as they are spelled in a row. -/
theorem reads_replicate {reader : BitReader α} {Proper : α → Prop} {spell : α → List Bool}
    (hreader : ∀ bits value, reader.Reads bits value ↔ Proper value ∧ bits = spell value)
    {count : Nat} {bits : List Bool} {read : List α} :
    (replicate count reader).Reads bits read ↔
      read.length = count ∧ (∀ value ∈ read, Proper value) ∧ bits = read.flatMap spell := by
  induction count generalizing bits read with
  | zero =>
      rw [replicate, pure_eq_done, reads_done]
      constructor
      · intro h
        rcases h with ⟨hbits, hread⟩
        subst hread
        exact ⟨rfl, by simp, hbits⟩
      · intro h
        rcases h with ⟨hlength, _, hbits⟩
        have hread : read = [] := List.length_eq_zero_iff.mp hlength
        subst hread
        exact ⟨hbits, rfl⟩
  | succ count ih =>
      simp only [replicate, bind_eq_bind, pure_eq_done, reads_bind, hreader, ih, reads_done]
      constructor
      · intro h
        rcases h with ⟨front, back, value, hbits, ⟨hproper, hfront⟩, back', last, rest, hback,
          ⟨hlength, hrest, hback'⟩, hlast, hread⟩
        subst hread hlast hback' hback hfront hbits
        refine ⟨by rw [List.length_cons, hlength], ?_, by simp⟩
        intro value' hmem
        cases hmem with
        | head => exact hproper
        | tail _ hmem => exact hrest value' hmem
      · intro h
        rcases h with ⟨hlength, hproper, hbits⟩
        cases read with
        | nil => cases hlength
        | cons value rest =>
            refine ⟨spell value, rest.flatMap spell, value, hbits, ⟨hproper value (by simp), rfl⟩,
              rest.flatMap spell, [], rest, by simp, ⟨?_, ?_, rfl⟩, rfl, rfl⟩
            · simpa using hlength
            · intro value' hmem
              exact hproper value' (List.mem_cons_of_mem value hmem)

/-!
## Refusals

A reader refuses bits if the last of them shows that what they spell is malformed.
-/

inductive Refuses : BitReader α → List Bool → Prop where
  | reject : Refuses .reject []
  | bit {next : Bool → BitReader α} {b : Bool} {rest : List Bool}
      (hrest : (next b).Refuses rest) :
      Refuses (.bit next) (b :: rest)

theorem Refuses.bind {reader : BitReader α} {bits : List Bool} (hrefuses : reader.Refuses bits)
    (follow : α → BitReader β) :
    (reader.bind follow).Refuses bits := by
  induction hrefuses with
  | reject => exact Refuses.reject
  | bit _ ih => exact Refuses.bit ih

theorem Reads.refuses_bind {reader : BitReader α} {follow : α → BitReader β}
    {front back : List Bool} {value : α} (hreads : reader.Reads front value)
    (hrefuses : (follow value).Refuses back) :
    (reader.bind follow).Refuses (front ++ back) := by
  induction hreads with
  | done => exact hrefuses
  | bit _ ih => exact Refuses.bit (ih hrefuses)

@[simp] theorem not_refuses_done {value : α} {bits : List Bool} : ¬ (done value).Refuses bits := by
  intro h
  cases h

@[simp] theorem refuses_reject {bits : List Bool} :
    (reject : BitReader α).Refuses bits ↔ bits = [] := by
  constructor
  · intro h
    cases h with
    | reject => rfl
  · intro hbits
    rw [hbits]
    exact Refuses.reject

@[simp] theorem not_refuses_bit_nil {next : Bool → BitReader α} : ¬ (bit next).Refuses [] := by
  intro h
  cases h

@[simp] theorem refuses_bit_cons {next : Bool → BitReader α} {b : Bool} {rest : List Bool} :
    (bit next).Refuses (b :: rest) ↔ (next b).Refuses rest := by
  constructor
  · intro h
    cases h with
    | bit hrest => exact hrest
  · exact Refuses.bit

theorem refuses_bind {reader : BitReader α} {follow : α → BitReader β} {bits : List Bool} :
    (reader.bind follow).Refuses bits ↔
      reader.Refuses bits ∨
        ∃ front back value,
          bits = front ++ back ∧ reader.Reads front value ∧ (follow value).Refuses back := by
  constructor
  · intro h
    induction reader generalizing bits with
    | done value => exact Or.inr ⟨[], bits, value, rfl, Reads.done, h⟩
    | bit next ih =>
        cases h with
        | @bit _ b rest hrest =>
            rcases ih b hrest with hrefuses | ⟨front, back, value, hsplit, hreads, hrefuses⟩
            · exact Or.inl (Refuses.bit hrefuses)
            · rw [hsplit]
              exact Or.inr ⟨b :: front, back, value, rfl, Reads.bit hreads, hrefuses⟩
    | reject => exact Or.inl (refuses_reject.mpr (refuses_reject.mp h))
  · intro h
    rcases h with hrefuses | ⟨front, back, value, hbits, hreads, hrefuses⟩
    · exact hrefuses.bind follow
    · rw [hbits]
      exact hreads.refuses_bind hrefuses

theorem refuses_bind_done {reader : BitReader α} {wrap : α → β} {bits : List Bool} :
    (reader.bind fun value => done (wrap value)).Refuses bits ↔ reader.Refuses bits := by
  simp only [refuses_bind, not_refuses_done, and_false, exists_false, or_false]

@[simp] theorem refuses_ofOption {value? : Option α} {bits : List Bool} :
    (ofOption value?).Refuses bits ↔ bits = [] ∧ value? = none := by
  cases value? with
  | none => simp [ofOption]
  | some value => simp [ofOption]

@[simp] theorem refuses_ite {condition : Prop} [Decidable condition]
    {reader other : BitReader α} {bits : List Bool} :
    (if condition then reader else other).Refuses bits ↔
      (condition ∧ reader.Refuses bits) ∨ (¬ condition ∧ other.Refuses bits) := by
  by_cases h : condition
  · simp [h]
  · simp [h]

theorem refuses_measuredFrom {reader : BitReader α} {width : Nat} {bits : List Bool} :
    (reader.measuredFrom width).Refuses bits ↔ reader.Refuses bits := by
  induction reader generalizing width bits with
  | done value => simp [measuredFrom]
  | bit next ih =>
      cases bits with
      | nil => simp [measuredFrom]
      | cons b rest => rw [measuredFrom, refuses_bit_cons, ih b, refuses_bit_cons]
  | reject => simp [measuredFrom]

theorem refuses_measured_bind {reader : BitReader α} {follow : α × Nat → BitReader β}
    {bits : List Bool} :
    (reader.measured.bind follow).Refuses bits ↔
      reader.Refuses bits ∨
        ∃ front back value,
          bits = front ++ back ∧ reader.Reads front value ∧
            (follow (value, front.length)).Refuses back := by
  rw [refuses_bind, measured, refuses_measuredFrom, ← measured]
  apply or_congr_right
  constructor
  · intro h
    rcases h with ⟨front, back, ⟨value, width⟩, hbits, hfront, hback⟩
    rcases reads_measured.mp hfront with ⟨hreads, hwidth⟩
    rw [show width = front.length from hwidth] at hback
    exact ⟨front, back, value, hbits, hreads, hback⟩
  · intro h
    rcases h with ⟨front, back, value, hbits, hfront, hback⟩
    exact ⟨front, back, (value, front.length), hbits, reads_measured.mpr ⟨hfront, rfl⟩, hback⟩

@[simp] theorem not_refuses_natFrom {width unit value : Nat} {bits : List Bool} :
    ¬ (natFrom width unit value).Refuses bits := by
  induction width generalizing unit value bits with
  | zero => exact not_refuses_done
  | succ width ih =>
      cases bits with
      | nil => exact not_refuses_bit_nil
      | cons b rest => exact fun h => ih (refuses_bit_cons.mp h)

@[simp] theorem not_refuses_nat {width : Nat} {bits : List Bool} : ¬ (nat width).Refuses bits :=
  not_refuses_natFrom

@[simp] theorem not_refuses_skip {count : Nat} {bits : List Bool} :
    ¬ (skip count).Refuses bits := by
  induction count generalizing bits with
  | zero => exact not_refuses_done
  | succ count ih =>
      cases bits with
      | nil => exact not_refuses_bit_nil
      | cons b rest => exact fun h => ih (refuses_bit_cons.mp h)

theorem not_refuses_replicate {reader : BitReader α} (hreader : ∀ bits, ¬ reader.Refuses bits)
    {count : Nat} {bits : List Bool} :
    ¬ (replicate count reader).Refuses bits := by
  induction count generalizing bits with
  | zero => exact not_refuses_done
  | succ count ih =>
      rw [replicate, bind_eq_bind, refuses_bind]
      intro h
      rcases h with hrefuses | ⟨_, back, _, _, _, hrest⟩
      · exact hreader bits hrefuses
      · rw [bind_eq_bind] at hrest
        exact ih (refuses_bind_done.mp hrest)

end BitReader

end BoundedZlib
