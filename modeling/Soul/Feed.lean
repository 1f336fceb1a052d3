import Soul.Token.Scanner

/-!
# Character feeds

A feed hands out a source character by character and knows the place of the
next one. The source is a text, or a stream that is asked for one character at
a time. Nothing, in place of a character, means the end: from then on the feed
hands out nothing, and the stream is not asked again, even if it had more to
give.

A stream may be of any kind, and need not come to an end. It may give several
characters at once. They are handed out together and count as one column.
-/

namespace Soul

/-- A kind of stream, which can be asked for one character after the other. -/
class CharStream (σ : Type) where
  /-- What the stream gives when it is asked, and the stream after that. -/
  ask : σ → String × σ

/-- A list of texts as a stream gives these texts and then nothing. -/
instance : CharStream (List String) where
  ask
    | [] => ("", [])
    | chunk :: rest => (chunk, rest)

/-- Where the characters of a feed come from. -/
inductive Supply (σ : Type := List String) where
  /-- A text, of which these characters are left. -/
  | text (rest : List Char)
  /-- A stream, which has been asked `calls` times. -/
  | stream (source : σ) (calls : Nat)
  deriving DecidableEq, Inhabited

namespace Supply

/-- Takes the next character, the empty text if there is none. -/
def take {σ : Type} [CharStream σ] : Supply σ → String × Supply σ
  | text [] => ("", text [])
  | text (c :: rest) => (String.singleton c, text rest)
  | stream source calls =>
    ((CharStream.ask source).1, stream (CharStream.ask source).2 (calls + 1))

/-- How often the stream has been asked. -/
def calls {σ : Type} : Supply σ → Nat
  | text _ => 0
  | stream _ calls => calls

/-- The characters up to the end. -/
def chars : Supply → List Char
  | text rest => rest
  | stream chunks _ => (chunks.takeWhile (!·.isEmpty)).flatMap String.toList

theorem chars_of_take_eq {supply : Supply} (h : supply.take.1 = "") : supply.chars = [] := by
  cases supply with
  | text rest =>
    cases rest with
    | nil => rfl
    | cons c rest => exact absurd h String.singleton_ne_empty
  | stream chunks calls =>
    cases chunks with
    | nil => rfl
    | cons chunk chunks =>
      obtain rfl : chunk = "" := h
      rfl

theorem chars_of_take_ne {supply : Supply} (h : supply.take.1 ≠ "") :
    supply.chars = supply.take.1.toList ++ supply.take.2.chars := by
  cases supply with
  | text rest =>
    cases rest with
    | nil => exact absurd rfl h
    | cons c rest => rw [take, String.toList_singleton]; rfl
  | stream chunks calls =>
    cases chunks with
    | nil => exact absurd rfl h
    | cons chunk chunks =>
      replace h : chunk ≠ "" := h
      have given : (!chunk.isEmpty) = true := by simpa using h
      rw [chars, List.takeWhile_cons, if_pos given, List.flatMap_cons]
      rfl

end Supply

/-- A source that is handed out character by character. -/
structure Feed (σ : Type := List String) where
  /-- The name of the source. -/
  file : String
  supply : Supply σ
  /-- The place of the next character. -/
  position : Position
  /-- The end has been met. -/
  exhausted : Bool
  deriving DecidableEq, Inhabited

namespace Feed

/-- The feed of a text. -/
def ofText (file text : String) : Feed := ⟨file, .text text.toList, .start, false⟩

variable {σ : Type}

/-- The feed of a stream that has not been asked yet. -/
def ofStream (file : String) (source : σ) : Feed σ := ⟨file, .stream source 0, .start, false⟩

/-- The place behind a text that has been handed out at `p`. -/
def advance (p : Position) (given : String) : Position :=
  if given = "\n" then ⟨p.line + 1, 1⟩ else ⟨p.line, p.column + 1⟩

/-- Hands out the next character, the empty text at the end. -/
def read [CharStream σ] (f : Feed σ) : String × Feed σ :=
  if f.exhausted then ("", f)
  else
    let (given, supply) := f.supply.take
    if given.isEmpty then ("", { f with supply := supply, exhausted := true })
    else (given, { f with supply := supply, position := advance f.position given })

/-- The location of the next character. -/
def location (f : Feed σ) : Location := .ofPosition f.file f.position

/-- A scanner before the first token of what is left of a feed. -/
def scanner (f : Feed) : Scanner :=
  ⟨f.file, if f.exhausted then [] else f.supply.chars, f.position, true, none⟩

/-! ## Single readings -/

section Read

variable [CharStream σ]

theorem read_of_exhausted {f : Feed σ} (h : f.exhausted = true) : f.read = ("", f) := by
  rw [read, if_pos h]

theorem read_of_end {f : Feed σ} (h : f.exhausted = false) (empty : f.supply.take.1 = "") :
    f.read = ("", { f with supply := f.supply.take.2, exhausted := true }) := by
  simp [read, h, empty]

theorem read_of_given {f : Feed σ} (h : f.exhausted = false) (given : f.supply.take.1 ≠ "") :
    f.read = (f.supply.take.1,
      { f with supply := f.supply.take.2, position := advance f.position f.supply.take.1 }) := by
  simp [read, h, given]

/-- The three things that a reading can do. -/
theorem read_cases (f : Feed σ) :
    f.exhausted = true ∧ f.read = ("", f) ∨
    f.exhausted = false ∧ f.supply.take.1 = "" ∧
      f.read = ("", { f with supply := f.supply.take.2, exhausted := true }) ∨
    f.exhausted = false ∧ f.supply.take.1 ≠ "" ∧
      f.read = (f.supply.take.1,
        { f with supply := f.supply.take.2, position := advance f.position f.supply.take.1 }) := by
  rcases f.exhausted.eq_false_or_eq_true with h | h
  · exact .inl ⟨h, read_of_exhausted h⟩
  · by_cases given : f.supply.take.1 = ""
    · exact .inr (.inl ⟨h, given, read_of_end h given⟩)
    · exact .inr (.inr ⟨h, given, read_of_given h given⟩)

end Read

/-- A reading takes what it hands out from the characters up to the end. -/
theorem read_scanner_rest (f : Feed) :
    f.read.1.toList ++ f.read.2.scanner.rest = f.scanner.rest := by
  obtain ⟨-, eq⟩ | ⟨h, empty, eq⟩ | ⟨h, given, eq⟩ := f.read_cases
  · rw [eq]; rfl
  · rw [eq, scanner, scanner, h, Supply.chars_of_take_eq empty]; rfl
  · rw [eq, scanner, scanner, h, Supply.chars_of_take_ne given]; rfl

end Feed

end Soul
