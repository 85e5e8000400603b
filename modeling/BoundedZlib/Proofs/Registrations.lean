import BoundedZlib.Proofs.RecurringLayers

/-!
# What registering changes

A registry is known by the decompressor that was registered last under each name; in which
order others were registered, and what was hidden, plays no part.  Unpacking looks up only
the names that the layers it comes to ask for, so under two registries it goes the same way
up to the first layer for which these differ.
-/

namespace BoundedZlib

namespace Resource

/-!
## The latest of each name
-/

namespace Registry

section Latest

variable {calls others front back : List Decompressor} {name : String}

/-- Under each name the same decompressor was registered last, or none at all. -/
def SameLatest (calls others : List Decompressor) : Prop :=
  ∀ name decompressor, IsLatest calls name decompressor ↔ IsLatest others name decompressor

theorem sameLatest_iff :
    SameLatest calls others ↔
      ∀ name, (registerAll calls).get? name = (registerAll others).get? name := by
  constructor
  · intro hsame name
    apply Option.ext
    intro decompressor
    rw [get?_registerAll_eq_some_iff, get?_registerAll_eq_some_iff]
    exact hsame name decompressor
  · intro hsame name decompressor
    rw [← get?_registerAll_eq_some_iff, ← get?_registerAll_eq_some_iff, hsame name]

def named (name : String) (calls : List Decompressor) : List Decompressor :=
  calls.filter (·.name == name)

theorem named_append (name : String) (front back : List Decompressor) :
    named name (front ++ back) = named name front ++ named name back :=
  List.filter_append front back

theorem named_cons_of_eq {decompressor : Decompressor} (hname : decompressor.name = name) :
    named name (decompressor :: back) = decompressor :: named name back := by
  rw [named, List.filter_cons, if_pos (beq_iff_eq.mpr hname), named]

theorem named_cons_of_ne {decompressor : Decompressor} (hname : decompressor.name ≠ name) :
    named name (decompressor :: back) = named name back := by
  rw [named, List.filter_cons, if_neg (fun h => hname (beq_iff_eq.mp h)), named]

theorem get?_eq_getLast? (calls : List Decompressor) (name : String) :
    (registerAll calls).get? name = (named name calls).getLast? := by
  rw [get?, decompressors_registerAll, ← List.head?_filter, List.filter_reverse,
    List.head?_reverse, named]

theorem sameLatest_of_named (hnamed : ∀ name, named name calls = named name others) :
    SameLatest calls others := by
  rw [sameLatest_iff]
  intro name
  rw [get?_eq_getLast?, get?_eq_getLast?, hnamed name]

theorem sameLatest_of_hidden {hidden newer : Decompressor} (hnewer : newer ∈ back)
    (hname : newer.name = hidden.name) :
    SameLatest (front ++ hidden :: back) (front ++ back) := by
  rw [sameLatest_iff]
  intro name
  rw [get?_eq_getLast?, get?_eq_getLast?, named_append, named_append]
  by_cases hsame : hidden.name = name
  · have hmem : newer ∈ named name back :=
      List.mem_filter.mpr ⟨hnewer, beq_iff_eq.mpr (hname.trans hsame)⟩
    have hsome := List.ne_nil_of_mem hmem
    rw [named_cons_of_eq hsame, List.getLast?_append_of_ne_nil _ hsome,
      List.append_cons, List.getLast?_append_of_ne_nil _ hsome]
  · rw [named_cons_of_ne hsame]

theorem get?_registerAll_concat {decompressor : Decompressor} (hname : decompressor.name ≠ name) :
    (registerAll (calls ++ [decompressor])).get? name = (registerAll calls).get? name := by
  rw [get?_eq_getLast?, get?_eq_getLast?, named_append, named_cons_of_ne hname]
  exact congrArg List.getLast? (List.append_nil _)

end Latest

end Registry

/-!
## Two registries
-/

section Unpacking

variable {calls others : List Decompressor} {names : NameTable} {order : ByteOrder}
variable {data content : Bytes} {expected limit : Nat}

/-- The data starts with a complete header, and the table holds this name where it says. -/
def AsksFor (names : NameTable) (order : ByteOrder) (data : Bytes) (name : String) : Prop :=
  ∃ header : Header, header.Opens order data ∧ names.Holds header.nameOffset name

/-- Only the names that the data asks for are looked up. -/
theorem strip?_eq_of_get? (hsame : ∀ name, AsksFor names order data name →
      (Registry.registerAll calls).get? name = (Registry.registerAll others).get? name) :
    Image.strip? ⟨.registerAll calls, names, order⟩ data =
      Image.strip? ⟨.registerAll others, names, order⟩ data := by
  unfold Image.strip?
  dsimp only
  cases hread : Header.read data order with
  | error error => rfl
  | ok header? =>
      cases header? with
      | none => rfl
      | some header =>
          have hopens := Header.read_eq_some_iff.mp hread
          have hdecompressor : Image.decompressor ⟨.registerAll calls, names, order⟩ header =
              Image.decompressor ⟨.registerAll others, names, order⟩ header := by
            unfold Image.decompressor
            dsimp only
            cases hname : names.get header.nameOffset with
            | error error => rfl
            | ok name =>
                have hasks := hsame name ⟨header, hopens, NameTable.get_eq_ok_iff.mp hname⟩
                simp only [bind, Except.bind, hasks]
          dsimp only [Failure.lift, bind, Except.bind]
          rw [hdecompressor]

theorem layer_of_strip?
    (hstrip : Image.strip? ⟨.registerAll calls, names, order⟩ data = .ok (some content)) :
    Layer calls names order data content := by
  rcases layer_cases calls names order data with hmarked | ⟨other, hlayer⟩ | ⟨failure, hbreaks⟩
  · rw [strip?_of_not_isMarked hmarked] at hstrip
    cases hstrip
  · rw [hlayer.strip?_eq, Except.ok.injEq, Option.some.injEq] at hstrip
    exact hstrip ▸ hlayer
  · rw [hbreaks.strip?_eq] at hstrip
    cases hstrip

/-- Both chains lead to a layer whose name the registries know differently. -/
def Parts (calls others : List Decompressor) (names : NameTable) (order : ByteOrder) (limit : Nat)
    (data : Bytes) : Prop :=
  ∃ layers last name, layers < limit ∧ Chain calls names order layers data last ∧
    Chain others names order layers data last ∧ AsksFor names order last name ∧
    (Registry.registerAll calls).get? name ≠ (Registry.registerAll others).get? name

theorem Parts.cons (hlayer : Layer calls names order data content)
    (hother : Layer others names order data content)
    (hparts : Parts calls others names order limit content) :
    Parts calls others names order (limit + 1) data := by
  rcases hparts with ⟨layers, last, name, hlimit, hchain, hchain', hasks, hdiffer⟩
  exact ⟨layers + 1, last, name, Nat.succ_lt_succ hlimit, .cons hlayer hchain,
    .cons hother hchain', hasks, hdiffer⟩

/-- Under two registries unpacking goes the same way up to where they part. -/
theorem unpack?_eq_or_parts (calls others : List Decompressor) (names : NameTable)
    (order : ByteOrder) (expected limit : Nat) (data : Bytes) :
    Image.unpack? ⟨.registerAll calls, names, order⟩ expected limit data =
        Image.unpack? ⟨.registerAll others, names, order⟩ expected limit data ∨
      Parts calls others names order limit data := by
  induction limit generalizing data with
  | zero => exact Or.inl rfl
  | succ limit ih =>
      by_cases hsame : ∀ name, AsksFor names order data name →
          (Registry.registerAll calls).get? name = (Registry.registerAll others).get? name
      · have hstrip := strip?_eq_of_get? hsame
        rw [Image.unpack?, Image.unpack?, hstrip]
        cases hother : Image.strip? ⟨.registerAll others, names, order⟩ data with
        | error failure => exact Or.inl rfl
        | ok content? =>
            cases content? with
            | none => exact Or.inl rfl
            | some content =>
                have hlayer := layer_of_strip? (hstrip.trans hother)
                exact (ih content).imp id (Parts.cons hlayer (layer_of_strip? hother))
      · push Not at hsame
        rcases hsame with ⟨name, hasks, hdiffer⟩
        exact Or.inr ⟨0, data, name, Nat.succ_pos limit, .nil data, .nil data, hasks, hdiffer⟩

theorem unpack?_eq_of_sameLatest (hsame : Registry.SameLatest calls others) :
    Image.unpack? ⟨.registerAll calls, names, order⟩ expected limit data =
      Image.unpack? ⟨.registerAll others, names, order⟩ expected limit data := by
  rcases unpack?_eq_or_parts calls others names order expected limit data with heq | hparts
  · exact heq
  · rcases hparts with ⟨_, _, name, _, _, _, _, hdiffer⟩
    exact absurd (Registry.sameLatest_iff.mp hsame name) hdiffer

theorem asksFor_of_unpack?_ne {decompressor : Decompressor}
    (hdiffer : Image.unpack? ⟨.registerAll (calls ++ [decompressor]), names, order⟩ expected limit
        data ≠
      Image.unpack? ⟨.registerAll calls, names, order⟩ expected limit data) :
    ∃ layers last, layers < limit ∧ Chain calls names order layers data last ∧
      Chain (calls ++ [decompressor]) names order layers data last ∧
      AsksFor names order last decompressor.name := by
  rcases unpack?_eq_or_parts (calls ++ [decompressor]) calls names order expected limit data with
    heq | hparts
  · exact absurd heq hdiffer
  · rcases hparts with ⟨layers, last, name, hlimit, hmore, hchain, hasks, hparted⟩
    have hname : decompressor.name = name := by
      by_contra hother
      exact hparted (Registry.get?_registerAll_concat hother)
    rw [← hname] at hasks
    exact ⟨layers, last, hlimit, hchain, hmore, hasks⟩

/--
Two registries with the same latest decompressor under each name find the same ones and
unpack alike, whatever else was registered and in whatever order: calls under different
names can change places, and hidden ones can be left out.  One more decompressor changes
the outcome only if a layer that unpacking comes to, with and without it, asks for its name.
-/
theorem unpack_depends_on_latest (calls : List Decompressor) :
    (∀ others, Registry.SameLatest calls others →
      (∀ name, (Registry.registerAll calls).get? name =
        (Registry.registerAll others).get? name) ∧
      ∀ names order expected limit data,
        Image.unpack? ⟨.registerAll calls, names, order⟩ expected limit data =
          Image.unpack? ⟨.registerAll others, names, order⟩ expected limit data) ∧
    (∀ others, (∀ name, Registry.named name calls = Registry.named name others) →
      Registry.SameLatest calls others) ∧
    (∀ front back hidden newer, calls = front ++ hidden :: back → newer ∈ back →
      newer.name = hidden.name → Registry.SameLatest calls (front ++ back)) ∧
    ∀ decompressor names order expected limit data,
      Image.unpack? ⟨.registerAll (calls ++ [decompressor]), names, order⟩ expected limit data ≠
        Image.unpack? ⟨.registerAll calls, names, order⟩ expected limit data →
      ∃ layers last, layers < limit ∧ Chain calls names order layers data last ∧
        Chain (calls ++ [decompressor]) names order layers data last ∧
        AsksFor names order last decompressor.name := by
  refine ⟨?_, ?_, ?_, ?_⟩
  · intro others hsame
    exact ⟨Registry.sameLatest_iff.mp hsame, fun _ _ _ _ _ => unpack?_eq_of_sameLatest hsame⟩
  · intro others hnamed
    exact Registry.sameLatest_of_named hnamed
  · intro front back hidden newer hcalls hnewer hname
    rw [hcalls]
    exact Registry.sameLatest_of_hidden hnewer hname
  · intro decompressor names order expected limit data hdiffer
    exact asksFor_of_unpack?_ne hdiffer

end Unpacking

def Decompressor.keeping : Decompressor where
  name := "rev"
  run payload _ := .ok payload

/-- A hidden decompressor plays no part, and one that hides another does where it is asked for. -/
theorem unpack_reversed_or_kept :
    Registry.SameLatest [.keeping, .zip, .reversing] [.zip, .reversing] ∧
    Image.unpack? ⟨.registerAll [.keeping, .zip, .reversing], ⟨[0x72, 0x65, 0x76, 0x00]⟩, .little⟩
      2 2 ((Header.ofSizes 2 2 0).write .little ++ [0x62, 0x61]) = some (.ok [0x61, 0x62]) ∧
    Image.unpack? ⟨.registerAll [.keeping, .zip, .reversing, .keeping],
      ⟨[0x72, 0x65, 0x76, 0x00]⟩, .little⟩
      2 2 ((Header.ofSizes 2 2 0).write .little ++ [0x62, 0x61]) = some (.ok [0x62, 0x61]) ∧
    ∃ layers last, layers < 2 ∧
      Chain [.keeping, .zip, .reversing] ⟨[0x72, 0x65, 0x76, 0x00]⟩ .little layers
        ((Header.ofSizes 2 2 0).write .little ++ [0x62, 0x61]) last ∧
      AsksFor ⟨[0x72, 0x65, 0x76, 0x00]⟩ .little last "rev" := by
  have hreversed : Image.unpack? ⟨.registerAll [.zip, .reversing], ⟨[0x72, 0x65, 0x76, 0x00]⟩,
      .little⟩ 2 2 ((Header.ofSizes 2 2 0).write .little ++ [0x62, 0x61]) =
        some (.ok [0x61, 0x62]) := rfl
  have hkept : Image.unpack? ⟨.registerAll [.keeping, .zip, .reversing, .keeping],
      ⟨[0x72, 0x65, 0x76, 0x00]⟩, .little⟩ 2 2
        ((Header.ofSizes 2 2 0).write .little ++ [0x62, 0x61]) = some (.ok [0x62, 0x61]) := rfl
  rcases unpack_depends_on_latest [.keeping, .zip, .reversing] with ⟨hsame, _, hhidden, hmore⟩
  have hlatest := hhidden [] [.zip, .reversing] .keeping .reversing rfl
    (List.mem_cons_of_mem _ List.mem_cons_self) rfl
  have hunpack := ((hsame _ hlatest).right _ _ _ _ _).trans hreversed
  have hdiffer : Image.unpack? ⟨.registerAll ([.keeping, .zip, .reversing] ++ [.keeping]),
      ⟨[0x72, 0x65, 0x76, 0x00]⟩, .little⟩ 2 2
        ((Header.ofSizes 2 2 0).write .little ++ [0x62, 0x61]) ≠
      Image.unpack? ⟨.registerAll [.keeping, .zip, .reversing], ⟨[0x72, 0x65, 0x76, 0x00]⟩,
        .little⟩ 2 2 ((Header.ofSizes 2 2 0).write .little ++ [0x62, 0x61]) := by
    rw [hunpack]
    intro hboth
    have hcontents := hkept.symm.trans hboth
    rw [Option.some.injEq, Except.ok.injEq] at hcontents
    exact absurd hcontents (by decide)
  rcases hmore .keeping _ _ _ _ _ hdiffer with ⟨layers, last, hlimit, hchain, _, hasks⟩
  exact ⟨hlatest, hunpack, hkept, layers, last, hlimit, hchain, hasks⟩

end Resource
end BoundedZlib
