import Soul.Expr
import Soul.Proofs.LineFeed

/-!
# Canonical texts

An expression made of integers, strings, variables, operators and calls has a
canonical text, its `Expr.text`, with parentheses around each pair of operands.
This text is cut into the lexemes of the expression (`Expr.IsCanonical.scans`):
blanks, parentheses and the ends of strings keep all of them apart, so that no
lexeme runs into the next one.

That the lexemes make up the expression again needs one thing more, which is asked
for here too: among the arguments of a call, which have nothing but a blank between
them, no variable stands before a pair of operands (`Merges`).
-/

namespace Soul

/-! ## Expressions with a canonical text -/

/-- A small letter, and letters and digits behind it. -/
def IsName (name : String) : Prop :=
  ∃ first others, name.toList = first :: others ∧ first.isLower = true ∧
    ∀ c ∈ others, c.isAlphanum = true

/-- A variable, and a pair of operands behind it. Their texts would be a call. -/
def Merges : Expr → Expr → Prop
  | .var .., .binary .. => True
  | _, _ => False

namespace Expr

/-- The expression has a text from which it can be read again. -/
inductive IsCanonical : Expr → Prop
  | integer {n : Nat} {l : Option Location} : (toString n).length ≤ maxDigits →
      IsCanonical (.literal (.integer n) l)
  | string {body : String} {l : Option Location} :
      (∀ c ∈ body.toList, Text.isLineEnd c = false ∧ c ≠ '"') →
      IsCanonical (.literal (.string body) l)
  | var {name : String} {l : Option Location} : IsName name → IsCanonical (.var name l)
  | binary {op : Operator} {lhs rhs : Expr} {l : Option Location} : IsCanonical lhs →
      IsCanonical rhs → IsCanonical (.binary op lhs rhs l)
  | call {callee : String} {args : List Expr} {l : Option Location} : IsName callee →
      (∀ arg ∈ args, IsCanonical arg) → args.IsChain (fun a b => ¬Merges a b) →
      IsCanonical (.call callee args l)

mutual

/-- How many pairs of operands and calls with arguments are inside each other. -/
def nesting : Expr → Nat
  | binary _ lhs rhs _ => 1 + max lhs.nesting rhs.nesting
  | call _ args _ => argumentNesting args
  | literal _ _ | var _ _ | declaration _ _ _ _ => 0

/-- The nesting of a call with the arguments. -/
def argumentNesting : List Expr → Nat
  | [] => 0
  | e :: es => max (1 + e.nesting) (argumentNesting es)

end

mutual

/-- The lexemes of an expression without declarations. -/
def lexemes : Expr → List Lexeme
  | literal (.integer n) _ => [.integer n]
  | literal (.real x) _ => [.real x]
  | literal (.string body) _ => [.string body]
  | var name _ => [.identifier name]
  | binary op lhs rhs _ =>
    .mark .leftParen :: (lhs.lexemes ++ .operator op :: (rhs.lexemes ++ [.mark .rightParen]))
  | call callee args _ =>
    .identifier callee :: .mark .leftParen :: (argumentLexemes args ++ [.mark .rightParen])
  | declaration _ _ _ _ => []

/-- The lexemes of arguments. -/
def argumentLexemes : List Expr → List Lexeme
  | [] => []
  | e :: es => e.lexemes ++ argumentLexemes es

end

end Expr

/-! ## Lexemes in a text -/

/-- The text consists of the lexemes, with blanks between them. -/
inductive Scans : List Char → List Lexeme → Prop
  | nil : Scans [] []
  | blank {chars : List Char} {ls : List Lexeme} : Scans chars ls → Scans (' ' :: chars) ls
  | lexeme {x rest : List Char} {lexeme : Lexeme} {ls : List Lexeme} :
      (∃ c ∈ x.head?, Text.isBlank c = false) → Lexes x rest (.ok lexeme) → Scans rest ls →
      Scans (x ++ rest) (lexeme :: ls)

/-- A text that consists of lexemes on one line has tokens for them. -/
theorem Scans.segments {chars : List Char} {ls : List Lexeme} (h : Scans chars ls)
    (file : String) (p : Position) (fresh : Bool) :
    ∃ t ts, Segments file p fresh chars (t :: ts) ∧
      (t :: ts).map Token.lexeme = ls ++ [.endOfInput] ∧ t.startsLine = fresh ∧
      ∀ u ∈ ts, u.startsLine = false := by
  induction h generalizing p fresh with
  | nil => exact ⟨_, [], .last (List.forall_mem_nil _), rfl, Bool.or_false _, List.forall_mem_nil _⟩
  | @blank chars ls _ ih =>
    obtain ⟨t, ts, hts, found⟩ := ih (p.afterAll [' ']) fresh
    have blank : ∀ c ∈ [' '], Text.isBlank c = true := List.forall_mem_singleton.2 rfl
    exact ⟨t, ts, Segments.blanks_append blank (by simpa using hts), found⟩
  | @lexeme x rest lexeme ls hx hl _ ih =>
    obtain ⟨c, hc, hblank⟩ := hx
    obtain ⟨others, rfl⟩ := List.head?_eq_some_iff.1 hc
    obtain ⟨u, us, hus, lexemes, first, behind⟩ := ih (p.afterAll (c :: others)) false
    refine ⟨⟨lexeme, file, p, fresh⟩, u :: us, ?_, ?_, rfl, ?_⟩
    · have token : Segments file p fresh ([] ++ (c :: others ++ rest)) _ :=
        .token (List.forall_mem_nil _) hblank hl hus
      simpa using token
    · rw [List.map_cons, lexemes]
      rfl
    · exact List.forall_mem_cons.2 ⟨first, behind⟩

/-- No word and no number goes on with the text. -/
def Stops (rest : List Char) : Prop :=
  ∀ c ∈ rest.head?, c.isAlphanum = false ∧ Cut.isNumberChar c = false

theorem stops_nil : Stops [] := nofun

theorem stops_cons {c : Char} (hc : c ∈ [' ', '(', ')']) (rest : List Char) :
    Stops (c :: rest) := by
  rintro _ ⟨⟩
  simp only [List.mem_cons, List.not_mem_nil, or_false] at hc
  rcases hc with rfl | rfl | rfl <;> decide

theorem isAlphanum_iff (c : Char) :
    c.isAlphanum = true ↔ c.isAlpha = true ∨ 48 ≤ c.toNat ∧ c.toNat ≤ 57 := by
  simp [Char.isAlphanum, Char.isDigit, UInt32.le_iff_toNat_le]

theorem isBlank_of_isAlphanum {c : Char} (h : c.isAlphanum = true) : Text.isBlank c = false := by
  rw [isAlphanum_iff, isAlpha_iff, isUpper_iff, isLower_iff] at h
  simp only [Text.isBlank, Bool.or_eq_false_iff, Bool.and_eq_false_iff, decide_eq_false_iff_not,
    beq_eq_false_iff_ne]
  omega

/-- No operator and no mark starts with a letter, a comment, a string or a blank. -/
theorem Spelled.first {x : List Char} {lexeme : Lexeme} (h : Spelled x lexeme) :
    ∃ first others, x = first :: others ∧ first.isAlpha = false ∧ first ≠ ';' ∧ first ≠ '"' ∧
      Text.isBlank first = false := by
  cases h with
  | operator op => cases op <;> exact ⟨_, _, rfl, by decide⟩
  | mark m => cases m <;> exact ⟨_, _, rfl, by decide⟩

section Lexemes

variable {rest : List Char} {ls : List Lexeme}

theorem IsName.scans {name : String} (h : IsName name) (stops : Stops rest) (hr : Scans rest ls) :
    Scans (name.toList ++ rest) (.identifier name :: ls) := by
  obtain ⟨first, others, hname, hfirst, hothers⟩ := h
  have alphanum : first.isAlphanum = true :=
    (isAlphanum_iff first).2 (.inl ((isAlpha_iff first).2 (.inr hfirst)))
  have run : MaximalRun Char.isAlphanum (first :: others) rest :=
    ⟨List.forall_mem_cons.2 ⟨alphanum, hothers⟩, fun c hc => (stops c hc).1⟩
  have lexes := Lexes.identifier hfirst run
  rw [← hname, String.ofList_toList] at lexes
  exact .lexeme ⟨first, by rw [hname]; rfl, isBlank_of_isAlphanum alphanum⟩ lexes hr

theorem scans_integer {n : Nat} (h : (toString n).length ≤ maxDigits) (stops : Stops rest)
    (hr : Scans rest ls) : Scans ((toString n).toList ++ rest) (.integer n :: ls) := by
  have text : (toString n).toList = Nat.toDigits 10 n := by simp
  rw [← String.length_toList, text] at h
  rw [text]
  have digits : ∀ c ∈ Nat.toDigits 10 n, c.isDigit = true := fun c hc =>
    Nat.isDigit_of_mem_toDigits (by decide) (by decide) hc
  obtain ⟨first, others, hfirst⟩ :=
    List.exists_cons_of_ne_nil (Nat.toDigits_ne_nil (n := n) (b := 10))
  have digit : first.isDigit = true := digits first (hfirst ▸ List.mem_cons_self)
  have start : StartsNumber (Nat.toDigits 10 n ++ rest) :=
    ⟨first, others ++ rest, digit, .inl (by rw [hfirst]; rfl)⟩
  have run : MaximalRun Cut.isNumberChar (Nat.toDigits 10 n) rest :=
    ⟨fun c hc => by simp [Cut.isNumberChar, digits c hc], fun c hc => (stops c hc).2⟩
  have noPoint : (Nat.toDigits 10 n).count '.' = 0 :=
    List.count_eq_zero.2 fun hmem => absurd (digits _ hmem) (by decide)
  have value : decimalValue (Nat.toDigits 10 n) = n := by
    rw [← natOfDigits_eq_decimalValue]
    exact Nat.ofDigitChars_ten_toDigits
  have lexes := Lexes.integer start run noPoint h
  rw [value] at lexes
  have blank : Text.isBlank first = false :=
    isBlank_of_isAlphanum (by simp [Char.isAlphanum, digit])
  exact .lexeme ⟨first, by rw [hfirst]; rfl, blank⟩ lexes hr

theorem scans_string {body : String}
    (h : ∀ c ∈ body.toList, Text.isLineEnd c = false ∧ c ≠ '"') (hr : Scans rest ls) :
    Scans ('"' :: body.toList ++ ['"'] ++ rest) (.string body :: ls) := by
  have lexes : Lexes _ rest _ := .string h
  rw [String.ofList_toList] at lexes
  exact .lexeme ⟨'"', rfl, by decide⟩ lexes hr

theorem LongestSpelling.scans {x : List Char} {lexeme : Lexeme} (h : LongestSpelling x rest lexeme)
    (number : ¬StartsNumber (x ++ rest)) (hr : Scans rest ls) :
    Scans (x ++ rest) (lexeme :: ls) := by
  obtain ⟨first, others, rfl, alpha, comment, string, blank⟩ := h.spelled.first
  exact .lexeme ⟨first, rfl, blank⟩ (.symbol ⟨alpha, number, comment, string⟩ h) hr

/-- Characters among which `c` is not do not reach beyond a `c` in the text that
    they start. -/
theorem prefix_of_append_cons {c : Char} {y chars : List Char} (more : List Char) (hc : c ∉ y)
    (hy : y <+: chars ++ c :: more) : y <+: chars := by
  rcases List.prefix_or_prefix_of_prefix hy (List.prefix_append chars (c :: more)) with hy' | hchars
  · exact hy'
  · obtain ⟨z, rfl⟩ := hchars
    cases z with
    | nil => simp
    | cons d z =>
      -- They would go on with `c`.
      have hz : d :: z <+: c :: more := (List.prefix_append_right_inj chars).1 hy
      obtain ⟨rfl, -⟩ := List.cons_prefix_cons.1 hz
      exact absurd (List.mem_append_right _ List.mem_cons_self) hc

/-- A blank ends every operator. -/
theorem scans_operator (op : Operator) (hr : Scans rest ls) :
    Scans (op.chars ++ ' ' :: rest) (.operator op :: ls) := by
  have longest : LongestSpelling op.chars (' ' :: rest) (.operator op) := by
    refine ⟨.operator op, fun y other hy hpre => ?_⟩
    have noBlank : ' ' ∉ y := by
      cases hy with
      | operator op => cases op <;> decide
      | mark m => cases m <;> decide
    exact (prefix_of_append_cons rest noBlank hpre).length_le
  have number : ¬StartsNumber (op.chars ++ ' ' :: rest) := by
    cases op <;> simp [Operator.chars, startsNumber_cons_iff]
  exact longest.scans number (.blank hr)

/-- Of the spellings only its own begins with a parenthesis. -/
theorem scans_paren {m : Mark} (hm : m = .leftParen ∨ m = .rightParen) (hr : Scans rest ls) :
    Scans (m.chars ++ rest) (.mark m :: ls) := by
  have longest : LongestSpelling m.chars rest (.mark m) := by
    refine ⟨.mark m, fun y other hy hpre => ?_⟩
    rcases hm with rfl | rfl <;> cases hy with
    | operator op => cases op <;> exact absurd (List.cons_prefix_cons.1 hpre).1 (by decide)
    | mark m =>
      cases m <;>
        first
        | exact Nat.le_refl 1
        | exact absurd (List.cons_prefix_cons.1 hpre).1 (by decide)
  have number : ¬StartsNumber (m.chars ++ rest) := by
    rcases hm with rfl | rfl <;> simp [Mark.chars, startsNumber_cons_iff]
  exact longest.scans number hr

end Lexemes

/-! ## The lexemes of an expression -/

namespace Expr

/-- In front of what no word and no number goes on with, the text of the expression
    is cut into its lexemes. -/
def ScansText (e : Expr) : Prop :=
  ∀ {rest : List Char} {ls : List Lexeme}, Stops rest → Scans rest ls →
    Scans (e.text.toList ++ rest) (e.lexemes ++ ls)

theorem scans_arguments {args : List Expr} (h : ∀ arg ∈ args, arg.ScansText) {rest : List Char}
    {ls : List Lexeme} (stops : Stops rest) (hr : Scans rest ls) :
    Scans ((" ".intercalate (texts args)).toList ++ rest) (argumentLexemes args ++ ls) := by
  induction args with
  | nil => simpa [texts, argumentLexemes] using hr
  | cons e args ih =>
    obtain ⟨first, others⟩ := List.forall_mem_cons.1 h
    cases args with
    | nil => simpa [texts, argumentLexemes] using first stops hr
    | cons e' args =>
      have scans := first (stops_cons (by decide) _) (.blank (ih others))
      simpa [texts, argumentLexemes, String.intercalate_cons_cons] using scans

theorem IsCanonical.scansText {e : Expr} (h : e.IsCanonical) : e.ScansText := by
  induction h with
  | integer hn => exact fun stops hr => scans_integer hn stops hr
  | string hbody =>
    intro rest ls _ hr
    simpa [text, Literal.text, lexemes] using scans_string hbody hr
  | var hname => exact fun stops hr => hname.scans stops hr
  | @binary op lhs rhs l _ _ ihl ihr =>
    intro rest ls _ hr
    have closed := scans_paren (.inr rfl) hr
    have right := ihr (stops_cons (by decide) _) closed
    have left := ihl (stops_cons (by decide) _) (.blank (scans_operator op right))
    simpa [text, lexemes, Operator.spelling, Mark.chars] using scans_paren (.inl rfl) left
  | @call callee args l hname _ _ ih =>
    intro rest ls _ hr
    have closed := scans_paren (.inr rfl) hr
    have inside := scans_arguments ih (stops_cons (by decide) _) closed
    have opened := hname.scans (stops_cons (by decide) _) (scans_paren (.inl rfl) inside)
    simpa [text, lexemes, Mark.chars] using opened

/-- The text of an expression on its own has its lexemes for tokens, on one line. -/
theorem IsCanonical.splits {e : Expr} (h : e.IsCanonical) (file : String) :
    ∃ t ts, (Scanner.ofText file e.text).Splits (t :: ts) ∧
      (t :: ts).map Token.lexeme = e.lexemes ++ [.endOfInput] ∧ ∀ u ∈ ts, u.startsLine = false := by
  have scans := h.scansText stops_nil .nil
  rw [List.append_nil, List.append_nil] at scans
  obtain ⟨t, ts, segments, lexemes, -, behind⟩ := scans.segments file .start true
  exact ⟨t, ts, ⟨rfl, segments⟩, lexemes, behind⟩

end Expr

end Soul
