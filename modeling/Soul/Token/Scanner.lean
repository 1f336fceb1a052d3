import Soul.Token.Symbol
import Soul.Fault
import Soul.Text.Blank

/-!
# Scanning

A scanner cuts a text into tokens. Blanks between tokens are passed over. The
first character that is none decides what the token is, and the token is as
long as it can be:

* a letter starts a word of letters and digits: an identifier if the letter is
  small, the name of a type if it is a capital;
* a digit, or a point with a digit behind it, starts a number of digits and
  points: an integer if it has no point, a real number if it has one, and no
  token of the language if it has more;
* a semicolon starts a comment, which ends before the next line end;
* a double quote starts a string, which ends with the next double quote; if a
  line end comes first, what stands before it is no token of the language;
* any other character starts an operator or mark, which goes on for as long as
  the next character makes it a longer one, or is no token of the language on
  its own.

Letters and digits are those of ASCII. The end of the input is a token as well,
as often as it is asked for. A token is the first on its line if since the line
began no other token has been scanned, a comment included.

An integer of more than `maxDigits` digits is a fault. Its digits are passed
over, but it counts as no token.
-/

namespace Soul

/-- A text, cut behind its first token. -/
structure Cut where
  /-- What the token is. -/
  lexeme : Except Fault Lexeme
  /-- The characters of the token. -/
  text : List Char
  /-- What stands behind the token. -/
  rest : List Char

namespace Cut

/-- A letter or digit of a word. -/
def isWordChar (c : Char) : Bool := c.isAlphanum

/-- A digit or point of a number. -/
def isNumberChar (c : Char) : Bool := c.isDigit || c == '.'

/-- A character of a comment. -/
def isCommentChar (c : Char) : Bool := !Text.isLineEnd c

/-- A character between the quotes of a string. -/
def isStringChar (c : Char) : Bool := !Text.isLineEnd c && c != '"'

/-- The lexeme of a word. -/
def word (chars : List Char) : Lexeme :=
  if (chars.head?.map Char.isLower).getD false then .identifier (String.ofList chars)
  else .typeName (String.ofList chars)

/-- The lexeme of a number of digits and points. -/
def number (chars : List Char) : Except Fault Lexeme :=
  match chars.count '.' with
  | 0 =>
    if maxDigits < chars.length then .error (.overlongInteger chars.length)
    else .ok (.integer (natOfDigits chars))
  | 1 =>
    let whole := chars.takeWhile Char.isDigit
    let fraction := (chars.dropWhile Char.isDigit).drop 1
    .ok (.real ((Decimal.ofDigits whole fraction).toDouble false))
  | _ => .ok (.invalid (.invalidNumber (String.ofList chars)))

/-- The operator or mark at the start of a text, and its length. -/
def symbol? : List Char → Option (Lexeme × Nat)
  | [] => none
  | first :: others =>
    (SymbolTree.starts.lookup first).map fun t => ((t.walk others).1, (t.walk others).2 + 1)

/-- A text, cut behind the characters of the class `p` at its start. -/
def span (p : Char → Bool) (lexeme : List Char → Except Fault Lexeme) (chars : List Char) : Cut :=
  ⟨lexeme (chars.takeWhile p), chars.takeWhile p, chars.dropWhile p⟩

/-- A text with one more character in front. -/
def cons (first : Char) (cut : Cut) : Cut := { cut with text := first :: cut.text }

/-- The text behind a semicolon, cut behind the comment. -/
def comment (chars : List Char) : Cut :=
  span isCommentChar (fun body => .ok (.comment (String.ofList body))) chars

/-- The text behind a double quote, cut behind the string. -/
def string (chars : List Char) : Cut :=
  match chars.dropWhile isStringChar with
  | '"' :: rest =>
    ⟨.ok (.string (String.ofList (chars.takeWhile isStringChar))),
      chars.takeWhile isStringChar ++ ['"'], rest⟩
  | rest => ⟨.ok (.invalid .unterminatedString), chars.takeWhile isStringChar, rest⟩

/-- A text, cut behind the operator or mark at its start, or behind the first
    character if there is none. -/
def symbol (first : Char) (others : List Char) : Cut :=
  match symbol? (first :: others) with
  | some (lexeme, length) =>
    ⟨.ok lexeme, (first :: others).take length, (first :: others).drop length⟩
  | none => ⟨.ok (.invalid (.invalidCharacter (String.singleton first))), [first], others⟩

/-- A text that starts with a point, cut behind the number if a digit follows. -/
def point (others : List Char) : Cut :=
  if (others.head?.map Char.isDigit).getD false then span isNumberChar number ('.' :: others)
  else symbol '.' others

/-- The text `first :: others`, cut behind its first token. The first character
    is no blank. -/
def of (first : Char) (others : List Char) : Cut :=
  if first = ';' then (comment others).cons ';'
  else if first.isAlpha then span isWordChar (fun chars => .ok (word chars)) (first :: others)
  else if first.isDigit then span isNumberChar number (first :: others)
  else if first = '"' then (string others).cons '"'
  else if first = '.' then point others
  else symbol first others

/-! ## No character is lost, and some are taken -/

theorem span_text_append_rest (p : Char → Bool) (lexeme : List Char → Except Fault Lexeme)
    (chars : List Char) : (span p lexeme chars).text ++ (span p lexeme chars).rest = chars :=
  List.takeWhile_append_dropWhile

theorem string_text_append_rest (chars : List Char) :
    (string chars).text ++ (string chars).rest = chars := by
  have whole := List.takeWhile_append_dropWhile (p := isStringChar) (l := chars)
  unfold string
  split
  · next rest hrest =>
    rw [hrest] at whole
    rw [List.append_assoc]
    exact whole
  · exact whole

theorem symbol_text_append_rest (first : Char) (others : List Char) :
    (symbol first others).text ++ (symbol first others).rest = first :: others := by
  unfold symbol
  split
  · exact List.take_append_drop ..
  · rfl

theorem symbol?_length_pos {chars : List Char} {lexeme : Lexeme} {length : Nat}
    (h : symbol? chars = some (lexeme, length)) : 0 < length := by
  unfold symbol? at h
  split at h
  · exact nomatch h
  · obtain ⟨t, -, hp⟩ := Option.map_eq_some_iff.1 h
    exact (Prod.mk.inj hp).2 ▸ Nat.succ_pos _

theorem symbol_text_ne_nil (first : Char) (others : List Char) :
    (symbol first others).text ≠ [] := by
  unfold symbol
  split
  · next lexeme length h =>
    have := symbol?_length_pos h
    cases length with
    | zero => omega
    | succ n => exact List.cons_ne_nil _ _
  · exact List.cons_ne_nil _ _

theorem point_text_append_rest (others : List Char) :
    (point others).text ++ (point others).rest = '.' :: others := by
  unfold point
  split
  · exact span_text_append_rest ..
  · exact symbol_text_append_rest ..

theorem point_text_ne_nil (others : List Char) : (point others).text ≠ [] := by
  unfold point
  split
  · exact List.cons_ne_nil _ _
  · exact symbol_text_ne_nil _ _

/-- The token and what stands behind it make up the text. -/
theorem of_text_append_rest (first : Char) (others : List Char) :
    (of first others).text ++ (of first others).rest = first :: others := by
  unfold of
  split
  · next h => exact h ▸ congrArg (List.cons ';') (span_text_append_rest ..)
  split
  · exact span_text_append_rest ..
  split
  · exact span_text_append_rest ..
  split
  · next h => exact h ▸ congrArg (List.cons '"') (string_text_append_rest ..)
  split
  · next h => exact h ▸ point_text_append_rest others
  · exact symbol_text_append_rest ..

/-- A token has at least one character. -/
theorem of_text_ne_nil (first : Char) (others : List Char) : (of first others).text ≠ [] := by
  unfold of
  split
  · exact List.cons_ne_nil _ _
  split
  · next h =>
    have : isWordChar first = true := by simp [isWordChar, Char.isAlphanum, h]
    simp [span, this]
  split
  · next h =>
    have : isNumberChar first = true := by simp [isNumberChar, h]
    simp [span, this]
  split
  · exact List.cons_ne_nil _ _
  split
  · exact point_text_ne_nil others
  · exact symbol_text_ne_nil first others

/-- What stands behind the first token is shorter than the text. -/
theorem of_rest_length_lt (first : Char) (others : List Char) :
    (of first others).rest.length < (first :: others).length := by
  have whole := congrArg List.length (of_text_append_rest first others)
  have some_text := List.length_pos_iff.2 (of_text_ne_nil first others)
  rw [List.length_append] at whole
  omega

end Cut

/-- What is left to scan, and where the scanning stands. -/
structure Scanner where
  /-- The file that the text comes from. -/
  file : String
  /-- The characters not yet scanned. -/
  rest : List Char
  /-- The place of the first of them. -/
  position : Position
  /-- No token has been scanned on this line. -/
  lineStart : Bool
  /-- The fault that takes the place of the end of the text. -/
  ending : Option Fault

namespace Scanner

/-- A text before its first token. -/
def ofChars (file : String) (chars : List Char) (ending : Option Fault) : Scanner :=
  ⟨file, chars, .start, true, ending⟩

/-- A text before its first token. -/
def ofText (file text : String) : Scanner := ofChars file text.toList none

/-- The fault that shows once the last character has been passed. -/
def fault? (s : Scanner) : Option Fault := if s.rest.isEmpty then s.ending else none

/-- Moves on to the first character that is no blank. -/
def skipBlanks (s : Scanner) : Scanner :=
  let blanks := s.rest.takeWhile Text.isBlank
  { s with
    rest := s.rest.dropWhile Text.isBlank
    position := s.position.afterAll blanks
    lineStart := s.lineStart || blanks.contains '\n' }

/-- A token at the place of the scanner. -/
def token (s : Scanner) (lexeme : Lexeme) : Token := ⟨lexeme, s.file, s.position, s.lineStart⟩

/-- Moves on behind the first token of the text. -/
def pass (s : Scanner) (cut : Cut) : Scanner :=
  { s with rest := cut.rest, position := s.position.afterAll cut.text }

/-- Scans one token, the blanks before which have been passed over. -/
def scanHere (s : Scanner) : Except Fault Token × Scanner :=
  match s.rest with
  | [] => (.ok (s.token .endOfInput), { s with lineStart := false })
  | first :: others =>
    let cut := Cut.of first others
    let s' := s.pass cut
    match s'.fault?, cut.lexeme with
    | some fault, _ => (.error fault, s')
    | none, .error fault => (.error fault, s')
    | none, .ok lexeme => (.ok (s.token lexeme), { s' with lineStart := false })

/-- Scans one token. -/
def scan (s : Scanner) : Except Fault Token × Scanner :=
  let s := s.skipBlanks
  match s.fault? with
  | some fault => (.error fault, s)
  | none => s.scanHere

/-- Scans one token, passing over comments if `skip` says so, at most one for
    each of `rounds`. -/
def nextWithin (skip : Bool) : (rounds : List Char) → Scanner → Except Fault Token × Scanner
  | [], s => s.scan
  | _ :: rounds, s =>
    match s.scan with
    | (.ok token, s') =>
      if skip && token.isComment then nextWithin skip rounds s' else (.ok token, s')
    | failed => failed

/-- Scans one token, passing over comments if `skip` says so. -/
def next (skip : Bool) (s : Scanner) : Except Fault Token × Scanner :=
  s.nextWithin skip s.rest

/-- Nothing new comes after this token or fault. -/
def isLast : Except Fault Token → Bool
  | .ok token => token.isEnd
  | .error (.undecodable ..) => true
  | .error _ => false

/-- The tokens and faults of a text, at most `rounds` of them. -/
def fetchesWithin (skip : Bool) : (rounds : Nat) → Scanner → List (Except Fault Token)
  | 0, _ => []
  | rounds + 1, s =>
    let (fetch, s') := s.next skip
    if isLast fetch then [fetch] else fetch :: fetchesWithin skip rounds s'

/-- The tokens and faults of a text, in order. The last one is the end of the
    input or the fault that takes its place. -/
def fetches (skip : Bool) (s : Scanner) : List (Except Fault Token) :=
  s.fetchesWithin skip (s.rest.length + 1)

end Scanner

end Soul
