/-!
# Paths

A path is text in which slashes separate parts.  Looked at as a path, it has a
lead (the root, or the current directory named outright) and parts, of which
empty ones and single dots mean nothing.  Operations work on the text, so that
what they do not touch stays as it was written.
-/

namespace BoundedZlib

structure Path where
  chars : List Char
deriving Repr, DecidableEq, Inhabited

namespace Path

abbrev Part := List Char

def ofString (text : String) : Path :=
  ⟨text.toList⟩

def text (path : Path) : String :=
  String.ofList path.chars

/-!
## Parts
-/

def split : List Char → List Part
  | [] => [[]]
  | c :: rest =>
      if c = '/' then [] :: split rest
      else match split rest with
        | [] => [[c]]
        | part :: parts => (c :: part) :: parts

def join : List Part → List Char
  | [] => []
  | [part] => part
  | part :: parts => part ++ '/' :: join parts

theorem split_ne_nil (chars : List Char) : split chars ≠ [] := by
  cases chars with
  | nil => simp [split]
  | cons c rest =>
      rw [split]
      split
      · simp
      · split <;> simp

theorem join_split (chars : List Char) : join (split chars) = chars := by
  induction chars with
  | nil => rfl
  | cons c rest ih =>
      have some_part := split_ne_nil rest
      rw [split]
      split
      next slash =>
        subst slash
        cases parts : split rest with
        | nil => exact absurd parts some_part
        | cons part others =>
            rw [parts] at ih
            rw [join, ih, List.nil_append]
            simp
      next =>
        cases parts : split rest with
        | nil => exact absurd parts some_part
        | cons part others =>
            rw [parts] at ih
            cases others with
            | nil => simpa [join] using ih
            | cons next others => simpa [join] using ih

def here : Part := ['.']

def above : Part := ['.', '.']

def isBlank (part : Part) : Bool :=
  part.isEmpty || part == here

def isAbsolute (path : Path) : Bool :=
  path.chars.head? == some '/'

/-- The lead of a path, and the text after it. -/
def lead (path : Path) : List Char × List Char :=
  match path.chars with
  | '/' :: rest => (['/'], rest)
  | ['.'] => (['.'], [])
  | '.' :: '/' :: rest => (['.'], '/' :: rest)
  | chars => ([], chars)

/-- The parts after the lead, latest first, from the latest one that means something on. -/
def latestParts (path : Path) : List Part :=
  (split path.lead.2).reverse.dropWhile isBlank

def fileName? (path : Path) : Option Part :=
  match path.latestParts with
  | [] => none
  | part :: _ => if part = above then none else some part

/-- The text before the last part, without slashes and dots at its end. -/
def beforeLast (path : Path) : Path :=
  ⟨path.lead.1 ++ join ((path.latestParts.drop 1).dropWhile isBlank).reverse⟩

/-- The path of the directory that holds what a path names; neither the root nor nothing has one. -/
def parent? (path : Path) : Option Path :=
  if !path.latestParts.isEmpty then some path.beforeLast
  else if path.lead.1 = here then some ⟨[]⟩
  else none

/-!
## Building
-/

def push (directory : Path) (part : List Char) : Path :=
  if part.head? = some '/' then ⟨part⟩
  else if directory.chars = [] ∨ directory.chars.getLast? = some '/' then
    ⟨directory.chars ++ part⟩
  else
    ⟨directory.chars ++ '/' :: part⟩

/-- Another file name in place of the one that a path has, or after a path that has none. -/
def withFileName (path : Path) (name : Part) : Path :=
  match path.fileName? with
  | none => path.push name
  | some _ => path.beforeLast.push name

def unnamed : Part := ['s', 't', 'd', 'i', 'n']

def addSuffix (path : Path) (suffix : Part) (directory? : Option Path) : Path :=
  let name := path.fileName?.getD unnamed ++ suffix
  match directory? with
  | some directory => directory.push name
  | none => path.withFileName name

/-- What is left of a part without a suffix, if it ends in the suffix and something is left. -/
def stem? (name suffix : Part) : Option Part :=
  if suffix.isSuffixOf name ∧ name.length ≠ suffix.length then
    some (name.take (name.length - suffix.length))
  else
    none

/-- A path without a suffix of its file name, or with another suffix if there is none to remove. -/
def dropSuffix (path : Path) (suffix fallback : Part) : Path :=
  match path.fileName?.bind (stem? · suffix) with
  | some stem => path.withFileName stem
  | none => path.addSuffix fallback none

end Path

end BoundedZlib
