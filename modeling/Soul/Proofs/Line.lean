import Soul.Proofs.Canonical
import Soul.Proofs.Supply

/-!
# Texts on one line

A diagnostic shows pieces of the source: the characters of a number, the name or
the body that a token carries, a character that starts no token. None of these
can break the line (`IsLine`). A number is written without a line end, a quoted
text has its line ends written out, and what a token carries comes from one line
of the source (`Lexes.isProper`). So the description of every token of a text is
on one line (`Lexeme.IsProper.isLine_description`).
-/

namespace Soul

/-- None of the characters ends a line. -/
def NoLineEnd (chars : List Char) : Prop := ∀ c ∈ chars, Text.isLineEnd c = false

/-- The text is on one line. -/
def IsLine (s : String) : Prop := NoLineEnd s.toList

instance (chars : List Char) : Decidable (NoLineEnd chars) := List.decidableBAll _ chars

instance (s : String) : Decidable (IsLine s) := inferInstanceAs (Decidable (NoLineEnd s.toList))

namespace NoLineEnd

variable {xs ys : List Char} {c : Char}

theorem append (hx : NoLineEnd xs) (hy : NoLineEnd ys) : NoLineEnd (xs ++ ys) :=
  List.forall_mem_append.2 ⟨hx, hy⟩

theorem cons (hc : Text.isLineEnd c = false) (hx : NoLineEnd xs) : NoLineEnd (c :: xs) :=
  List.forall_mem_cons.2 ⟨hc, hx⟩

theorem subset (hx : NoLineEnd xs) (h : ys ⊆ xs) : NoLineEnd ys := fun c hc => hx c (h hc)

theorem replicate (n : Nat) (hc : Text.isLineEnd c = false) : NoLineEnd (List.replicate n c) :=
  fun _ hd => (List.eq_of_mem_replicate hd) ▸ hc

theorem isLine_ofList (hx : NoLineEnd xs) : IsLine (String.ofList xs) := by
  rwa [IsLine, String.toList_ofList]

end NoLineEnd

theorem IsLine.append {s t : String} (hs : IsLine s) (ht : IsLine t) : IsLine (s ++ t) := by
  rw [IsLine, String.toList_append]
  exact NoLineEnd.append hs ht

theorem isLineEnd_of_isAlphanum {c : Char} (h : c.isAlphanum = true) : Text.isLineEnd c = false :=
  Bool.eq_false_iff.2 fun he =>
    absurd (Text.isBlank_of_isLineEnd he) (by simp [isBlank_of_isAlphanum h])

theorem isLineEnd_of_isDigit {c : Char} (h : c.isDigit = true) : Text.isLineEnd c = false :=
  isLineEnd_of_isAlphanum ((isAlphanum_iff c).2 (.inr (Char.isDigit_iff_toNat.1 h)))

/-! ## Numbers -/

theorem noLineEnd_toDigits (n : Nat) : NoLineEnd (Nat.toDigits 10 n) :=
  fun _ hc => isLineEnd_of_isDigit (Nat.isDigit_of_mem_toDigits (by decide) (by decide) hc)

theorem isLine_nat (n : Nat) : IsLine (toString n) := by
  rw [IsLine, Nat.toString_eq_repr, Nat.toList_repr]
  exact noLineEnd_toDigits n

theorem isLine_int (n : Int) : IsLine (toString n) := by
  cases n with
  | ofNat n => exact isLine_nat n
  | negSucc n => exact IsLine.append (by decide) (isLine_nat (n + 1))

namespace Double

theorem noLineEnd_positional {digits : List Char} (h : NoLineEnd digits) (point : Int) :
    NoLineEnd (positional digits point) := by
  unfold positional
  split
  · exact .cons rfl (.cons rfl (.append (.replicate _ rfl) h))
  split
  · exact .append (.append h (.replicate _ rfl)) (by decide)
  · exact .append (h.subset (List.take_subset ..)) (.cons rfl (h.subset (List.drop_subset ..)))

theorem noLineEnd_scientific (width : Nat) {digits : List Char} (h : NoLineEnd digits)
    (exponent : Int) : NoLineEnd (scientific width digits exponent) := by
  have fraction : NoLineEnd (digits.drop 1) := h.subset (List.drop_subset ..)
  have sign : Text.isLineEnd (if exponent < 0 then '-' else '+') = false := by
    split <;> rfl
  refine .append (.append (h.subset (List.take_subset ..)) ?_)
    (.cons rfl (.cons sign (.append (.replicate _ rfl) (noLineEnd_toDigits _))))
  split
  · exact List.forall_mem_nil _
  · exact .cons rfl fraction

theorem noLineEnd_write (l : Layout) (d : Decimal) : NoLineEnd (l.write d) := by
  have digits : NoLineEnd
      ((Nat.toDigits 10 d.coefficient).reverse.dropWhile (· == '0')).reverse := by
    refine (noLineEnd_toDigits d.coefficient).subset fun c hc => ?_
    exact List.mem_reverse.1 ((List.dropWhile_sublist _).subset (List.mem_reverse.1 hc))
  unfold Layout.write
  simp only
  split
  · exact noLineEnd_positional digits _
  · exact noLineEnd_scientific _ digits _

theorem noLineEnd_sign (negative : Bool) : NoLineEnd (sign negative) := by
  cases negative <;> decide

theorem isLine_text (x : Double) : IsLine x.text := by
  refine NoLineEnd.isLine_ofList ?_
  unfold chars
  split
  · exact (noLineEnd_sign _).append (by decide)
  · exact (noLineEnd_sign _).append (noLineEnd_write _ _)
  · exact (noLineEnd_sign _).append (by decide)
  · decide

end Double

/-! ## Quoted texts -/

namespace Text

theorem isLineEnd_digitChar : ∀ n < 16, isLineEnd n.digitChar = false := by decide

theorem noLineEnd_hex (width n : Nat) : NoLineEnd (hex width n) := by
  induction width generalizing n with
  | zero => exact List.forall_mem_nil _
  | succ width ih =>
    have digit := isLineEnd_digitChar (n % 16) (Nat.mod_lt _ (by decide))
    exact (ih (n / 16)).append (List.forall_mem_singleton.2 digit)

/-- A line end is written out where it is not the quote itself. -/
theorem noLineEnd_escape {quote : Char} (hq : isLineEnd quote = false) (c : Char) :
    NoLineEnd (escape quote c) := by
  unfold escape
  split
  · next h =>
    have plain : isLineEnd c = false := by
      rcases Bool.or_eq_true_iff.1 h with h | h
      · exact (beq_iff_eq.1 h) ▸ hq
      · rw [beq_iff_eq.1 h]
        rfl
    exact .cons rfl (List.forall_mem_singleton.2 plain)
  split
  · decide
  split
  · decide
  split
  · decide
  split
  · next newline return' _ _ =>
    have plain : isLineEnd c = false :=
      Bool.or_eq_false_iff.2 ⟨Bool.eq_false_iff.2 newline, Bool.eq_false_iff.2 return'⟩
    exact List.forall_mem_singleton.2 plain
  split
  · exact .cons rfl (.cons rfl (noLineEnd_hex 2 _))
  split
  · exact .cons rfl (.cons rfl (noLineEnd_hex 4 _))
  · exact .cons rfl (.cons rfl (noLineEnd_hex 8 _))

theorem isLine_quoted (text : String) : IsLine (quoted text) := by
  refine NoLineEnd.isLine_ofList ?_
  have quote : isLineEnd (quoteOf text.toList) = false := by
    unfold quoteOf
    split <;> rfl
  refine .append (.cons quote fun c hc => ?_) (List.forall_mem_singleton.2 quote)
  obtain ⟨d, -, hd⟩ := List.mem_flatMap.1 hc
  exact noLineEnd_escape quote d c hd

end Text

/-! ## What tokens carry -/

/-- A capital, and letters and digits behind it. -/
def IsTypeName (name : String) : Prop :=
  ∃ first others, name.toList = first :: others ∧ first.isUpper = true ∧
    ∀ c ∈ others, c.isAlphanum = true

/-- The body of a string: it has no quote and no line end. -/
def IsBody (body : String) : Prop := ∀ c ∈ body.toList, Text.isLineEnd c = false ∧ c ≠ '"'

/-- The message and the hint of the cause are on one line each. -/
structure Cause.StaysOnLine (cause : Cause) : Prop where
  message : IsLine cause.message
  hint : ∀ text ∈ cause.hint, IsLine text

/-- The lexeme carries what a lexeme of its kind can carry. -/
def Lexeme.IsProper : Lexeme → Prop
  | .identifier name => IsName name
  | .typeName name => IsTypeName name
  | .string body => IsBody body
  | .invalid cause => cause.StaysOnLine
  | _ => True

theorem noLineEnd_of_isAlphanum {first : Char} {others : List Char}
    (hf : first.isAlphanum = true) (ho : ∀ c ∈ others, c.isAlphanum = true) :
    NoLineEnd (first :: others) :=
  .cons (isLineEnd_of_isAlphanum hf) fun c hc => isLineEnd_of_isAlphanum (ho c hc)

theorem isAlphanum_of_isLower {c : Char} (h : c.isLower = true) : c.isAlphanum = true :=
  (isAlphanum_iff c).2 (.inl ((isAlpha_iff c).2 (.inr h)))

theorem isAlphanum_of_isUpper {c : Char} (h : c.isUpper = true) : c.isAlphanum = true :=
  (isAlphanum_iff c).2 (.inl ((isAlpha_iff c).2 (.inl h)))

theorem IsName.isLine {name : String} (h : IsName name) : IsLine name := by
  obtain ⟨first, others, hn, hf, ho⟩ := h
  rw [IsLine, hn]
  exact noLineEnd_of_isAlphanum (isAlphanum_of_isLower hf) ho

theorem IsTypeName.isLine {name : String} (h : IsTypeName name) : IsLine name := by
  obtain ⟨first, others, hn, hf, ho⟩ := h
  rw [IsLine, hn]
  exact noLineEnd_of_isAlphanum (isAlphanum_of_isUpper hf) ho

theorem IsBody.isLine {body : String} (h : IsBody body) : IsLine body := fun c hc => (h c hc).1

theorem isLineEnd_of_isNumberChar {c : Char} (h : Cut.isNumberChar c = true) :
    Text.isLineEnd c = false := by
  by_cases hc : c = '.'
  · rw [hc]
    rfl
  · exact isLineEnd_of_isDigit (isDigit_of_isNumberChar h hc)

theorem staysOnLine_invalidNumber {x : List Char} (h : ∀ c ∈ x, Cut.isNumberChar c = true) :
    (Cause.invalidNumber (String.ofList x)).StaysOnLine := by
  have digits : NoLineEnd x := fun c hc => isLineEnd_of_isNumberChar (h c hc)
  refine ⟨(by decide : IsLine "invalid number format"), ?_⟩
  rintro _ ⟨⟩
  exact (IsLine.append (by decide) digits.isLine_ofList).append (by decide)

theorem staysOnLine_invalidCharacter (char : String) :
    (Cause.invalidCharacter char).StaysOnLine := by
  refine ⟨(by decide : IsLine "invalid token"), ?_⟩
  rintro _ ⟨⟩
  exact IsLine.append (by decide) (Text.isLine_quoted char)

theorem staysOnLine_unterminatedString : Cause.unterminatedString.StaysOnLine := by
  refine ⟨by decide, ?_⟩
  rintro _ ⟨⟩
  decide

theorem Spelled.isProper {x : List Char} {lexeme : Lexeme} (h : Spelled x lexeme) :
    lexeme.IsProper := by
  cases h <;> trivial

/-- What is cut out of a text carries what it can carry. -/
theorem Lexes.isProper {x rest : List Char} {lexeme : Lexeme} (h : Lexes x rest (.ok lexeme)) :
    lexeme.IsProper := by
  cases h with
  | identifier lower run =>
    exact ⟨_, _, String.toList_ofList, lower, fun c hc => run.mem c (List.mem_cons_of_mem _ hc)⟩
  | typeName upper run =>
    exact ⟨_, _, String.toList_ofList, upper, fun c hc => run.mem c (List.mem_cons_of_mem _ hc)⟩
  | string inside =>
    intro c hc
    rw [String.toList_ofList] at hc
    exact inside c hc
  | manyPoints _ run _ => exact staysOnLine_invalidNumber run.mem
  | unterminated _ _ => exact staysOnLine_unterminatedString
  | stray _ _ => exact staysOnLine_invalidCharacter _
  | symbol _ longest => exact longest.spelled.isProper
  | integer _ _ _ _ | real _ _ _ _ | comment _ => trivial

theorem Token.IsLexed.isProper {t : Token} (h : t.IsLexed) : t.lexeme.IsProper := by
  obtain hend | ⟨x, rest, lexes⟩ := h
  · rw [hend]
    trivial
  · exact lexes.isProper

theorem Token.IsFoundIn.isProper {file : String} {text : List Char} {t : Token}
    (h : t.IsFoundIn file text) : t.lexeme.IsProper := by
  obtain ⟨-, before, x, rest, -, -, lexes | ⟨hend, -⟩⟩ := h
  · exact Token.IsLexed.isProper (.inr ⟨x, rest, lexes⟩)
  · exact Token.IsLexed.isProper (.inl hend)

theorem isLine_spelling (op : Operator) : IsLine op.spelling :=
  NoLineEnd.isLine_ofList (by cases op <;> decide)

theorem isLine_mark_spelling (m : Mark) : IsLine m.spelling :=
  NoLineEnd.isLine_ofList (by cases m <;> decide)

/-- The description of a token shows what it carries, all on one line. -/
theorem Lexeme.IsProper.isLine_description {t : Token} (h : t.lexeme.IsProper) :
    IsLine t.description := by
  obtain ⟨lexeme, file, position, startsLine⟩ := t
  cases lexeme with
  | operator op => exact (IsLine.append (by decide) (isLine_spelling op)).append (by decide)
  | mark m => exact (IsLine.append (by decide) (isLine_mark_spelling m)).append (by decide)
  | identifier name => exact (IsLine.append (by decide) (IsName.isLine h)).append (by decide)
  | typeName name => exact (IsLine.append (by decide) (IsTypeName.isLine h)).append (by decide)
  | string body => exact (IsLine.append (by decide) (IsBody.isLine h)).append (by decide)
  | integer n => exact IsLine.append (by decide) (isLine_int n)
  | real x => exact IsLine.append (by decide) x.isLine_text
  | comment _ => exact (by decide : IsLine "comment")
  | invalid _ => exact (by decide : IsLine "invalid token")
  | endOfInput => exact (by decide : IsLine "end of input")

/-! ## Diagnostics -/

theorem isLine_location {l : Location} (h : IsLine l.file) : IsLine l.text :=
  (((h.append (by decide)).append (isLine_int _)).append (by decide)).append (isLine_int _)

theorem isLine_line {label message : String} {l : Option Location} (hl : IsLine label)
    (hm : IsLine message) (hf : ∀ place ∈ l, IsLine place.file) :
    IsLine (Diagnostic.line label l message) := by
  refine ((IsLine.append ?_ hl).append (by decide)).append hm
  cases l with
  | none => exact (by decide : IsLine "")
  | some place => exact (isLine_location (hf place rfl)).append (by decide)

theorem isLine_nonempty? {text : Option String} {label : String} (hl : IsLine label)
    (ht : ∀ s ∈ text, IsLine s) : IsLine (((nonempty? text).map (label ++ ·)).getD "") := by
  cases text with
  | none => exact (by decide : IsLine "")
  | some s =>
    by_cases empty : s.isEmpty = true
    · rw [nonempty?, if_pos empty]
      exact (by decide : IsLine "")
    · rw [nonempty?, if_neg empty]
      exact hl.append (ht s rfl)

/-- The text of a diagnostic is on one line if its cause and its file are. -/
theorem Cause.StaysOnLine.isLine_text {d : Diagnostic} (h : d.cause.StaysOnLine)
    (hf : ∀ place ∈ d.location, IsLine place.file) : IsLine d.text :=
  (isLine_line (by decide) h.message hf).append (isLine_nonempty? (by decide) h.hint)

end Soul
