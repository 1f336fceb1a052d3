import Mathlib.Data.List.TakeWhile
import Mathlib.Data.Nat.Digits.Defs
import Soul.Token.Scanner

/-!
# The lexical grammar

What a token is can be said without scanning for it: `Lexes x rest lexeme` says
that the characters `x`, with `rest` behind them, are one token, and which one.
Each rule names a class of characters that the token is made of and what may
not stand behind it, so that no token can be taken for longer than it is:

* a word, a number or a comment is a run of its class that goes on as far as it
  can (`MaximalRun`);
* a string ends with the first quote behind its opening one, and without such a
  quote on the line it is all that is left of the line;
* an operator or mark is the longest of all spellings that the text starts with
  (`LongestSpelling`).

The rules agree with the scanner: a text that is not empty starts with exactly
one token (`lexes_of`, `Lexes.of_eq`), and this is the one that a scan passes
over and gives (`scan_longest_match`).
-/

namespace Soul

/-- The characters `x` are of the class `p`, and what stands behind them does
    not begin with another one of the class. -/
structure MaximalRun (p : Char → Bool) (x rest : List Char) : Prop where
  mem : ∀ c ∈ x, p c = true
  stop : ∀ c ∈ rest.head?, p c = false

/-- The text begins with a digit, or with a point and a digit. -/
def StartsNumber (chars : List Char) : Prop :=
  ∃ digit others, digit.isDigit = true ∧
    (chars = digit :: others ∨ chars = '.' :: digit :: others)

/-- The operators and marks with their spellings. -/
inductive Spelled : List Char → Lexeme → Prop
  | operator (op : Operator) : Spelled op.chars (.operator op)
  | mark (m : Mark) : Spelled m.chars (.mark m)

/-- Of all spellings with which the text `x ++ rest` begins, `x` is the
    longest. -/
structure LongestSpelling (x rest : List Char) (lexeme : Lexeme) : Prop where
  spelled : Spelled x lexeme
  longest : ∀ y other, Spelled y other → y <+: x ++ rest → y.length ≤ x.length

/-- The text begins with a character that starts no word, no number, no comment
    and no string. -/
structure StartsSymbol (first : Char) (others : List Char) : Prop where
  word : first.isAlpha = false
  number : ¬StartsNumber (first :: others)
  comment : first ≠ ';'
  string : first ≠ '"'

/-- The value of a run of digits, the first of which counts most. -/
def decimalValue (digits : List Char) : Nat :=
  Nat.ofDigits 10 (digits.reverse.map fun c => c.toNat - '0'.toNat)

/-- The characters `x`, with `rest` behind them, are one token. -/
inductive Lexes : (x rest : List Char) → Except Fault Lexeme → Prop
  | identifier {first : Char} {others rest : List Char} : first.isLower = true →
      MaximalRun Char.isAlphanum (first :: others) rest →
      Lexes (first :: others) rest (.ok (.identifier (String.ofList (first :: others))))
  | typeName {first : Char} {others rest : List Char} : first.isUpper = true →
      MaximalRun Char.isAlphanum (first :: others) rest →
      Lexes (first :: others) rest (.ok (.typeName (String.ofList (first :: others))))
  | integer {x rest : List Char} : StartsNumber (x ++ rest) →
      MaximalRun Cut.isNumberChar x rest → x.count '.' = 0 → x.length ≤ maxDigits →
      Lexes x rest (.ok (.integer (decimalValue x)))
  /-- An integer with too many digits is passed over, but is a fault. -/
  | overlong {x rest : List Char} : StartsNumber (x ++ rest) →
      MaximalRun Cut.isNumberChar x rest → x.count '.' = 0 → maxDigits < x.length →
      Lexes x rest (.error (.overlongInteger x.length))
  | real {whole fraction rest : List Char} : StartsNumber (whole ++ '.' :: fraction ++ rest) →
      MaximalRun Cut.isNumberChar (whole ++ '.' :: fraction) rest →
      '.' ∉ whole → '.' ∉ fraction →
      Lexes (whole ++ '.' :: fraction) rest
        (.ok (.real ((Decimal.ofDigits whole fraction).toDouble false)))
  | manyPoints {x rest : List Char} : StartsNumber (x ++ rest) →
      MaximalRun Cut.isNumberChar x rest → 1 < x.count '.' →
      Lexes x rest (.ok (.invalid (.invalidNumber (String.ofList x))))
  | comment {body rest : List Char} : MaximalRun (!Text.isLineEnd ·) body rest →
      Lexes (';' :: body) rest (.ok (.comment (String.ofList body)))
  | string {body rest : List Char} : (∀ c ∈ body, Text.isLineEnd c = false ∧ c ≠ '"') →
      Lexes ('"' :: body ++ ['"']) rest (.ok (.string (String.ofList body)))
  /-- A string that the end of its line, or of the text, comes before. -/
  | unterminated {body rest : List Char} : (∀ c ∈ body, Text.isLineEnd c = false ∧ c ≠ '"') →
      (∀ c ∈ rest.head?, Text.isLineEnd c = true) →
      Lexes ('"' :: body) rest (.ok (.invalid .unterminatedString))
  | symbol {first : Char} {others rest : List Char} {lexeme : Lexeme} :
      StartsSymbol first (others ++ rest) → LongestSpelling (first :: others) rest lexeme →
      Lexes (first :: others) rest (.ok lexeme)
  /-- A character with which no spelling begins. -/
  | stray {first : Char} {rest : List Char} : StartsSymbol first rest →
      (∀ y lexeme, Spelled y lexeme → ¬y <+: first :: rest) →
      Lexes [first] rest (.ok (.invalid (.invalidCharacter (String.singleton first))))

/-! ## Runs -/

theorem maximalRun_takeWhile (p : Char → Bool) (chars : List Char) :
    MaximalRun p (chars.takeWhile p) (chars.dropWhile p) where
  mem _ hc := List.mem_takeWhile_imp hc
  stop c hc := by
    have := List.head?_dropWhile_not p chars
    rw [Option.mem_def.1 hc] at this
    exact this

namespace MaximalRun

variable {p : Char → Bool} {x rest : List Char}

theorem takeWhile_rest (h : MaximalRun p x rest) : rest.takeWhile p = [] := by
  cases rest with
  | nil => rfl
  | cons c rest => exact List.takeWhile_cons_of_neg (by simp [h.stop c rfl])

theorem dropWhile_rest (h : MaximalRun p x rest) : rest.dropWhile p = rest := by
  cases rest with
  | nil => rfl
  | cons c rest => exact List.dropWhile_cons_of_neg (by simp [h.stop c rfl])

theorem takeWhile_eq (h : MaximalRun p x rest) : (x ++ rest).takeWhile p = x := by
  rw [List.takeWhile_append_of_pos h.mem, h.takeWhile_rest, List.append_nil]

theorem dropWhile_eq (h : MaximalRun p x rest) : (x ++ rest).dropWhile p = rest := by
  rw [List.dropWhile_append_of_pos h.mem, h.dropWhile_rest]

/-- A maximal run is what a cut of its class takes. -/
theorem span_eq (h : MaximalRun p x rest) (lexeme : List Char → Except Fault Lexeme) :
    Cut.span p lexeme (x ++ rest) = ⟨lexeme x, x, rest⟩ := by
  rw [Cut.span, h.takeWhile_eq, h.dropWhile_eq]

end MaximalRun

/-! ## Numbers -/

theorem natOfDigits_eq_decimalValue (digits : List Char) :
    natOfDigits digits = decimalValue digits := by
  rw [decimalValue, Nat.ofDigits_eq_foldr, List.foldr_map, List.foldr_reverse, natOfDigits]
  congr 1
  funext n c
  exact Nat.add_comm _ _

theorem startsNumber_cons_iff (first : Char) (others : List Char) :
    StartsNumber (first :: others) ↔ first.isDigit = true ∨
      first = '.' ∧ (others.head?.map Char.isDigit).getD false = true := by
  constructor
  · rintro ⟨digit, others', hd, he | he⟩
    · exact .inl ((List.cons.inj he).1 ▸ hd)
    · obtain ⟨rfl, rfl⟩ := List.cons.inj he
      exact .inr ⟨rfl, hd⟩
  · rintro (hd | ⟨rfl, hd⟩)
    · exact ⟨first, others, hd, .inl rfl⟩
    · cases others with
      | nil => exact absurd hd (by decide)
      | cons digit others => exact ⟨digit, others, hd, .inr rfl⟩

theorem isDigit_of_isNumberChar {c : Char} (h : Cut.isNumberChar c = true) (hc : c ≠ '.') :
    c.isDigit = true := by
  simpa [Cut.isNumberChar, hc] using h

/-- A run of digits and points without a point is a run of digits. -/
theorem isDigit_of_not_mem {x : List Char} (h : ∀ c ∈ x, Cut.isNumberChar c = true)
    (hx : '.' ∉ x) : ∀ c ∈ x, c.isDigit = true :=
  fun c hc => isDigit_of_isNumberChar (h c hc) fun e => hx (e ▸ hc)

theorem number_real {whole fraction : List Char}
    (h : ∀ c ∈ whole ++ '.' :: fraction, Cut.isNumberChar c = true)
    (hw : '.' ∉ whole) (hf : '.' ∉ fraction) :
    Cut.number (whole ++ '.' :: fraction) =
      .ok (.real ((Decimal.ofDigits whole fraction).toDouble false)) := by
  have digits : MaximalRun Char.isDigit whole ('.' :: fraction) :=
    ⟨isDigit_of_not_mem (fun c hc => h c (List.mem_append_left _ hc)) hw,
      fun c hc => by cases hc; rfl⟩
  have one : (whole ++ '.' :: fraction).count '.' = 1 := by
    rw [List.count_append, List.count_cons_self, List.count_eq_zero.2 hw, List.count_eq_zero.2 hf]
  rw [Cut.number, one]
  simp only [digits.takeWhile_eq, digits.dropWhile_eq, List.drop_succ_cons, List.drop_zero]

/-- A run of digits and points with one point has its point between digits. -/
theorem exists_point {x : List Char} (h : x.count '.' = 1) :
    ∃ whole fraction, x = whole ++ '.' :: fraction ∧ '.' ∉ whole ∧ '.' ∉ fraction := by
  have mem : '.' ∈ x := List.count_pos_iff.1 (by omega)
  obtain ⟨whole, fraction, rfl, hw⟩ := List.eq_append_cons_of_mem mem
  refine ⟨whole, fraction, rfl, hw, ?_⟩
  rw [List.count_append, List.count_cons_self, List.count_eq_zero.2 hw] at h
  exact List.count_eq_zero.1 (by omega)

theorem number_manyPoints {x : List Char} (h : 1 < x.count '.') :
    Cut.number x = .ok (.invalid (.invalidNumber (String.ofList x))) := by
  unfold Cut.number
  split
  · omega
  · omega
  · rfl

/-- What stands at the start of a number is a number. -/
theorem lexes_number {x rest : List Char} (start : StartsNumber (x ++ rest))
    (run : MaximalRun Cut.isNumberChar x rest) : Lexes x rest (Cut.number x) := by
  rcases Nat.lt_trichotomy (x.count '.') 1 with h | h | h
  · have none : x.count '.' = 0 := by omega
    rw [Cut.number, none]
    simp only
    split
    · next long => exact .overlong start run none long
    · next short => exact natOfDigits_eq_decimalValue x ▸ .integer start run none (by omega)
  · obtain ⟨whole, fraction, rfl, hw, hf⟩ := exists_point h
    exact number_real run.mem hw hf ▸ .real start run hw hf
  · exact number_manyPoints h ▸ .manyPoints start run h

/-! ## Strings -/

theorem isStringChar_iff (c : Char) :
    Cut.isStringChar c = true ↔ Text.isLineEnd c = false ∧ c ≠ '"' := by
  simp [Cut.isStringChar]

theorem string_closed {body : List Char} (rest : List Char)
    (h : ∀ c ∈ body, Text.isLineEnd c = false ∧ c ≠ '"') :
    Cut.string (body ++ '"' :: rest) = ⟨.ok (.string (String.ofList body)), body ++ ['"'], rest⟩ := by
  have run : MaximalRun Cut.isStringChar body ('"' :: rest) :=
    ⟨fun c hc => (isStringChar_iff c).2 (h c hc), fun c hc => by cases hc; rfl⟩
  rw [Cut.string, run.dropWhile_eq, run.takeWhile_eq]
  rfl

theorem string_open {body rest : List Char}
    (h : ∀ c ∈ body, Text.isLineEnd c = false ∧ c ≠ '"')
    (hr : ∀ c ∈ rest.head?, Text.isLineEnd c = true) :
    Cut.string (body ++ rest) = ⟨.ok (.invalid .unterminatedString), body, rest⟩ := by
  have run : MaximalRun Cut.isStringChar body rest :=
    ⟨fun c hc => (isStringChar_iff c).2 (h c hc), fun c hc => by simp [Cut.isStringChar, hr c hc]⟩
  rw [Cut.string, run.dropWhile_eq, run.takeWhile_eq]
  split
  · next rest' => exact absurd (hr '"' rfl) (by decide)
  · rfl

/-- What stands behind a quote is a string, closed or not. -/
theorem lexes_string (chars : List Char) :
    Lexes ('"' :: (Cut.string chars).text) (Cut.string chars).rest (Cut.string chars).lexeme := by
  have run := maximalRun_takeWhile Cut.isStringChar chars
  have body : ∀ c ∈ chars.takeWhile Cut.isStringChar, Text.isLineEnd c = false ∧ c ≠ '"' :=
    fun c hc => (isStringChar_iff c).1 (run.mem c hc)
  unfold Cut.string
  split
  · exact .string body
  · next unclosed =>
    refine .unterminated body fun c hc => ?_
    obtain ⟨others, ho⟩ := List.head?_eq_some_iff.1 hc
    have quote : c ≠ '"' := fun e => unclosed others (e ▸ ho)
    simpa [Cut.isStringChar, quote] using run.stop c hc

/-! ## Operators and marks -/

namespace SymbolTree

/-- The symbol to which the text leads down the tree, if it does to its end. -/
def find? (t : SymbolTree) : List Char → Option Lexeme
  | [] => some t.lexeme
  | c :: rest => (t.branches.lookup c).bind fun next => next.find? rest

mutual

/-- All that leads down the tree, with the symbols that it leads to. -/
def words : SymbolTree → List (List Char × Lexeme)
  | node lexeme branches => ([], lexeme) :: branchWords branches

/-- All that leads down one of the branches, with the symbols that it leads to. -/
def branchWords : List (Char × SymbolTree) → List (List Char × Lexeme)
  | [] => []
  | (c, t) :: others => t.words.map (fun w => (c :: w.1, w.2)) ++ branchWords others

end

theorem mem_branchWords {branches : List (Char × SymbolTree)} {c : Char} {next : SymbolTree}
    {x : List Char} {lexeme : Lexeme} (h : branches.lookup c = some next)
    (hx : (x, lexeme) ∈ next.words) : (c :: x, lexeme) ∈ branchWords branches := by
  induction branches with
  | nil => exact nomatch h
  | cons branch others ih =>
    obtain ⟨d, t⟩ := branch
    rw [branchWords]
    rw [List.lookup_cons] at h
    split at h
    · next hd =>
      obtain rfl := Option.some.inj h
      obtain rfl := eq_of_beq hd
      exact List.mem_append_left _ (List.mem_map.2 ⟨(x, lexeme), hx, rfl⟩)
    · exact List.mem_append_right _ (ih h)

theorem mem_words {t : SymbolTree} {x : List Char} {lexeme : Lexeme}
    (h : t.find? x = some lexeme) : (x, lexeme) ∈ t.words := by
  induction x generalizing t with
  | nil =>
    obtain ⟨found, branches⟩ := t
    rw [words, ← Option.some.inj h]
    exact List.mem_cons_self
  | cons c x ih =>
    obtain ⟨next, hc, hx⟩ := Option.bind_eq_some_iff.1 h
    obtain ⟨found, branches⟩ := t
    rw [words]
    exact List.mem_cons_of_mem _ (mem_branchWords hc (ih hx))

/-- A walk ends at a symbol, which the characters passed lead to. -/
theorem find?_walk (t : SymbolTree) (chars : List Char) :
    t.find? (chars.take (t.walk chars).2) = some (t.walk chars).1 := by
  induction chars generalizing t with
  | nil => rfl
  | cons c rest ih =>
    rw [walk]
    split
    · next next hc => rw [List.take_succ_cons, find?, hc, Option.bind_some, ih]
    · rfl

/-- A walk goes on for as long as the text leads down the tree. -/
theorem length_le_walk {t : SymbolTree} {x chars : List Char} {lexeme : Lexeme}
    (h : t.find? x = some lexeme) (hx : x <+: chars) : x.length ≤ (t.walk chars).2 := by
  induction x generalizing t chars with
  | nil => exact Nat.zero_le _
  | cons c x ih =>
    obtain ⟨next, hc, hfind⟩ := Option.bind_eq_some_iff.1 h
    obtain ⟨rest, rfl⟩ := hx
    simp only [List.cons_append, walk, hc]
    exact Nat.succ_le_succ (ih hfind (List.prefix_append ..))

theorem walk_le_length (t : SymbolTree) (chars : List Char) :
    (t.walk chars).2 ≤ chars.length := by
  induction chars generalizing t with
  | nil => exact Nat.le_refl _
  | cons c rest ih =>
    rw [walk]
    split
    · exact Nat.succ_le_succ (ih _)
    · exact Nat.zero_le _

end SymbolTree

/-- The operators and marks with their spellings. -/
def symbols : List (List Char × Lexeme) :=
  Operator.all.map (fun op => (op.chars, .operator op)) ++
    Mark.all.map (fun m => (m.chars, .mark m))

theorem lookup_of_spelled {x : List Char} {lexeme : Lexeme} (h : Spelled x lexeme) :
    symbols.lookup x = some lexeme := by
  cases h with
  | operator op => cases op <;> rfl
  | mark m => cases m <;> rfl

theorem spelled_of_lookup {x : List Char} {lexeme : Lexeme}
    (h : symbols.lookup x = some lexeme) : Spelled x lexeme := by
  obtain ⟨before, behind, hs, -⟩ := List.lookup_eq_some_iff.1 h
  have mem : (x, lexeme) ∈ symbols :=
    hs ▸ List.mem_append_right _ List.mem_cons_self
  rw [symbols, List.mem_append, List.mem_map, List.mem_map] at mem
  rcases mem with ⟨op, -, he⟩ | ⟨m, -, he⟩
  · obtain ⟨rfl, rfl⟩ := Prod.mk.inj he
    exact .operator op
  · obtain ⟨rfl, rfl⟩ := Prod.mk.inj he
    exact .mark m

/-- Every spelling leads down one of the trees, to the symbol that it spells. -/
theorem Spelled.find? {x : List Char} {lexeme : Lexeme} (h : Spelled x lexeme) :
    ∃ c y t, x = c :: y ∧ SymbolTree.starts.lookup c = some t ∧ t.find? y = some lexeme := by
  cases h with
  | operator op => cases op <;> exact ⟨_, _, _, rfl, rfl, rfl⟩
  | mark m => cases m <;> exact ⟨_, _, _, rfl, rfl, rfl⟩

/-- Nothing but spellings leads down the trees. -/
theorem spelled_of_find? {c : Char} {x : List Char} {t : SymbolTree} {lexeme : Lexeme}
    (hc : SymbolTree.starts.lookup c = some t) (h : t.find? x = some lexeme) :
    Spelled (c :: x) lexeme := by
  have table : ∀ w ∈ SymbolTree.branchWords SymbolTree.starts,
      symbols.lookup w.1 = some w.2 := by decide +kernel
  exact spelled_of_lookup (table _ (SymbolTree.mem_branchWords hc (SymbolTree.mem_words h)))

/-- No spelling is empty, and none has more than three characters. -/
theorem Spelled.length_mem {x : List Char} {lexeme : Lexeme} (h : Spelled x lexeme) :
    x.length ∈ [3, 2, 1] := by
  cases h with
  | operator op => cases op <;> decide
  | mark m => cases m <;> decide

/-- A symbol is found with the greatest of the lengths at which one is spelled. -/
theorem symbol?_eq_some {chars : List Char} {lexeme : Lexeme} {n : Nat}
    (h : Cut.symbol? chars = some (lexeme, n)) :
    LongestSpelling (chars.take n) (chars.drop n) lexeme := by
  cases chars with
  | nil => exact nomatch h
  | cons c rest =>
    obtain ⟨t, hc, he⟩ := Option.map_eq_some_iff.1 h
    obtain ⟨rfl, rfl⟩ := Prod.mk.inj he
    refine ⟨spelled_of_find? hc (t.find?_walk rest), fun y other hy hpre => ?_⟩
    rw [List.take_append_drop] at hpre
    obtain ⟨d, y, t', rfl, hd, hfind⟩ := hy.find?
    obtain ⟨rfl, hy⟩ := List.cons_prefix_cons.1 hpre
    obtain rfl := Option.some.inj (hc.symm.trans hd)
    have bound := SymbolTree.length_le_walk hfind hy
    have fits := t.walk_le_length rest
    rw [List.length_take, List.length_cons, List.length_cons]
    omega

theorem symbol?_length_le {chars : List Char} {found : Lexeme × Nat}
    (h : Cut.symbol? chars = some found) : found.2 ≤ chars.length := by
  cases chars with
  | nil => exact nomatch h
  | cons c rest =>
    obtain ⟨t, -, rfl⟩ := Option.map_eq_some_iff.1 h
    exact Nat.succ_le_succ (t.walk_le_length rest)

theorem symbol?_eq_none {chars : List Char} (h : Cut.symbol? chars = none) {y : List Char}
    {lexeme : Lexeme} (hy : Spelled y lexeme) : ¬y <+: chars := by
  obtain ⟨c, y, t, rfl, hc, -⟩ := hy.find?
  rintro ⟨rest, rfl⟩
  have missed := Option.map_eq_none_iff.1 h
  exact absurd (hc.symm.trans missed) (Option.some_ne_none _)

theorem Spelled.unique {x : List Char} {lexeme other : Lexeme} (h : Spelled x lexeme)
    (h' : Spelled x other) : lexeme = other :=
  Option.some.inj ((lookup_of_spelled h).symm.trans (lookup_of_spelled h'))

/-- A text has one longest spelling at its start. -/
theorem LongestSpelling.unique {x x' rest rest' : List Char} {lexeme lexeme' : Lexeme}
    (h : LongestSpelling x rest lexeme) (h' : LongestSpelling x' rest' lexeme')
    (he : x ++ rest = x' ++ rest') : x = x' ∧ rest = rest' ∧ lexeme = lexeme' := by
  -- Either spelling stands at the start of the text, so neither is the longer one.
  have le : x.length ≤ x'.length := h'.longest x lexeme h.spelled (he ▸ List.prefix_append ..)
  have ge : x'.length ≤ x.length := h.longest x' lexeme' h'.spelled (he ▸ List.prefix_append ..)
  obtain ⟨rfl, rfl⟩ := List.append_inj he (Nat.le_antisymm le ge)
  exact ⟨rfl, rfl, h.spelled.unique h'.spelled⟩

/-- The longest operator or mark at the start of a text and its length, by trying
    all spellings from the longest down. -/
def longestSymbol? (chars : List Char) : Option (Lexeme × Nat) :=
  [3, 2, 1].findSome? fun n =>
    (symbols.lookup (chars.take n)).map fun lexeme => (lexeme, (chars.take n).length)

theorem longestSymbol?_eq_some {chars : List Char} {lexeme : Lexeme} {n : Nat}
    (h : longestSymbol? chars = some (lexeme, n)) :
    LongestSpelling (chars.take n) (chars.drop n) lexeme ∧ n ≤ chars.length := by
  obtain ⟨before, m, behind, lengths, found, missed⟩ := List.findSome?_eq_some_iff.1 h
  obtain ⟨lexeme, hfound, he⟩ := Option.map_eq_some_iff.1 found
  obtain ⟨rfl, rfl⟩ := Prod.mk.inj he
  have whole : chars.take (chars.take m).length = chars.take m := by simp
  have fits : (chars.take m).length ≤ chars.length := by simp
  refine ⟨⟨whole.symm ▸ spelled_of_lookup hfound, fun y other hy hpre => ?_⟩, fits⟩
  rw [List.take_append_drop] at hpre
  have take : y = chars.take y.length := List.prefix_iff_eq_take.1 hpre
  have bound : y.length ≤ m := by
    -- A longer spelling would have been found before.
    by_contra hlt
    have mem := hy.length_mem
    rw [lengths, List.mem_append, List.mem_cons] at mem
    rcases mem with mem | rfl | mem
    · have := missed _ mem
      rw [← take, lookup_of_spelled hy] at this
      exact absurd this (Option.some_ne_none _)
    · omega
    · -- The lengths are tried from the greatest down.
      have sorted : List.Pairwise (· > ·) (before ++ m :: behind) := lengths ▸ by decide
      have := (List.pairwise_cons.1 (List.pairwise_append.1 sorted).2.1).1 _ mem
      omega
  rw [whole, List.length_take]
  exact Nat.le_min.2 ⟨bound, hpre.length_le⟩

theorem longestSymbol?_eq_none {chars : List Char} (h : longestSymbol? chars = none) {y : List Char}
    {lexeme : Lexeme} (hy : Spelled y lexeme) : ¬y <+: chars := by
  intro hpre
  have missed := List.findSome?_eq_none_iff.1 h y.length hy.length_mem
  rw [← List.prefix_iff_eq_take.1 hpre, lookup_of_spelled hy] at missed
  exact absurd missed (Option.some_ne_none _)

/-- Going down the tree without a way back finds what a search through all spellings
    would. -/
theorem symbol?_eq_longestSymbol? (chars : List Char) :
    Cut.symbol? chars = longestSymbol? chars := by
  cases ht : Cut.symbol? chars with
  | none =>
    cases hs : longestSymbol? chars with
    | none => rfl
    | some found =>
      have longest := (longestSymbol?_eq_some hs).1
      exact absurd (List.take_prefix ..) (symbol?_eq_none ht longest.spelled)
  | some found =>
    have longest := symbol?_eq_some ht
    cases hs : longestSymbol? chars with
    | none => exact absurd (List.take_prefix ..) (longestSymbol?_eq_none hs longest.spelled)
    | some found' =>
      have ⟨longest', fits'⟩ := longestSymbol?_eq_some hs
      have he := (List.take_append_drop found.2 chars).trans
        (List.take_append_drop found'.2 chars).symm
      obtain ⟨hx, -, lexeme⟩ := longest.unique longest' he
      have := congrArg List.length hx
      have fits := symbol?_length_le ht
      rw [List.length_take, List.length_take, Nat.min_eq_left fits, Nat.min_eq_left fits'] at this
      exact congrArg some (Prod.ext lexeme this)

/-! ## Letters -/

theorem isUpper_iff (c : Char) : c.isUpper = true ↔ 65 ≤ c.toNat ∧ c.toNat ≤ 90 :=
  decide_eq_true_iff

theorem isLower_iff (c : Char) : c.isLower = true ↔ 97 ≤ c.toNat ∧ c.toNat ≤ 122 :=
  Bool.and_eq_true_iff.trans (and_congr decide_eq_true_iff decide_eq_true_iff)

theorem isAlpha_iff (c : Char) : c.isAlpha = true ↔ c.isUpper = true ∨ c.isLower = true :=
  Bool.or_eq_true_iff

/-! ## Tokens -/

theorem lexes_word {first : Char} {others rest : List Char} (alpha : first.isAlpha = true)
    (run : MaximalRun Char.isAlphanum (first :: others) rest) :
    Lexes (first :: others) rest (.ok (Cut.word (first :: others))) := by
  unfold Cut.word
  split
  · next lower => exact .identifier lower run
  · next lower =>
    have upper : first.isUpper = true := ((isAlpha_iff first).1 alpha).resolve_right lower
    exact .typeName upper run

theorem lexes_symbol {first : Char} {others : List Char} (start : StartsSymbol first others) :
    Lexes (Cut.symbol first others).text (Cut.symbol first others).rest
      (Cut.symbol first others).lexeme := by
  unfold Cut.symbol
  split
  · next lexeme n found =>
    have longest := symbol?_eq_some found
    cases n with
    | zero => exact absurd (Cut.symbol?_length_pos found) (Nat.lt_irrefl 0)
    | succ n => exact .symbol ((List.take_append_drop n others).symm ▸ start) longest
  · next missing => exact .stray start fun y lexeme hy => symbol?_eq_none missing hy

theorem lexes_number_span {chars : List Char} (start : StartsNumber chars) :
    Lexes (chars.takeWhile Cut.isNumberChar) (chars.dropWhile Cut.isNumberChar)
      (Cut.number (chars.takeWhile Cut.isNumberChar)) :=
  lexes_number (List.takeWhile_append_dropWhile.symm ▸ start) (maximalRun_takeWhile ..)

theorem lexes_point (others : List Char) :
    Lexes (Cut.point others).text (Cut.point others).rest (Cut.point others).lexeme := by
  unfold Cut.point
  split
  · next digit => exact lexes_number_span ((startsNumber_cons_iff ..).2 (.inr ⟨rfl, digit⟩))
  · next digit =>
    refine lexes_symbol ⟨by decide, fun start => ?_, by decide, by decide⟩
    rcases (startsNumber_cons_iff ..).1 start with point | ⟨-, behind⟩
    · exact absurd point (by decide)
    · exact digit behind

/-- What the scanner cuts off at the start of a text is a token. -/
theorem lexes_of (first : Char) (others : List Char) :
    Lexes (Cut.of first others).text (Cut.of first others).rest (Cut.of first others).lexeme := by
  unfold Cut.of
  split
  · next comment => exact comment ▸ .comment (maximalRun_takeWhile ..)
  split
  · next alpha =>
    have run := maximalRun_takeWhile Char.isAlphanum (first :: others)
    have word : Char.isAlphanum first = true := by simp [Char.isAlphanum, alpha]
    rw [List.takeWhile_cons_of_pos word] at run
    simp only [Cut.span, show Cut.isWordChar = Char.isAlphanum from rfl,
      List.takeWhile_cons_of_pos word]
    exact lexes_word alpha run
  split
  · next digit => exact lexes_number_span ((startsNumber_cons_iff ..).2 (.inl digit))
  split
  · next string => exact string ▸ lexes_string others
  split
  · exact lexes_point others
  · next comment alpha digit string point =>
    refine lexes_symbol ⟨by simpa using alpha, fun start => ?_, comment, string⟩
    rcases (startsNumber_cons_iff ..).1 start with hd | ⟨hp, -⟩
    · exact digit hd
    · exact point hp

section Conditions

variable {first : Char} {others : List Char}

theorem Cut.of_word (alpha : first.isAlpha = true) :
    Cut.of first others = Cut.span Char.isAlphanum (fun chars => .ok (Cut.word chars))
      (first :: others) := by
  have comment : first ≠ ';' := by
    rintro rfl
    exact absurd alpha (by decide)
  rw [Cut.of, if_neg comment, if_pos alpha]
  rfl

theorem not_isAlpha_of_isDigit (h : first.isDigit = true) : ¬first.isAlpha = true := by
  have digit : 48 ≤ first.toNat ∧ first.toNat ≤ 57 := Char.isDigit_iff_toNat.1 h
  rw [isAlpha_iff, isUpper_iff, isLower_iff]
  omega

theorem Cut.of_number (start : StartsNumber (first :: others)) :
    Cut.of first others = Cut.span Cut.isNumberChar Cut.number (first :: others) := by
  rcases (startsNumber_cons_iff ..).1 start with digit | ⟨rfl, digit⟩
  · have comment : first ≠ ';' := by
      rintro rfl
      exact absurd digit (by decide)
    rw [Cut.of, if_neg comment, if_neg (not_isAlpha_of_isDigit digit), if_pos digit]
  · exact if_pos digit

theorem Cut.of_symbol (start : StartsSymbol first others) :
    Cut.of first others = Cut.symbol first others := by
  have number := mt (startsNumber_cons_iff ..).2 start.number
  rw [not_or] at number
  rw [Cut.of, if_neg start.comment, if_neg (by simp [start.word]), if_neg number.1,
    if_neg start.string]
  split
  · next point =>
    subst point
    exact if_neg fun digit => number.2 ⟨rfl, digit⟩
  · rfl

end Conditions

theorem word_of_isLower {first : Char} (others : List Char) (h : first.isLower = true) :
    Cut.word (first :: others) = .identifier (String.ofList (first :: others)) := by
  simp [Cut.word, h]

theorem word_of_isUpper {first : Char} (others : List Char) (h : first.isUpper = true) :
    Cut.word (first :: others) = .typeName (String.ofList (first :: others)) := by
  have notLower : ¬first.isLower = true := by
    rw [isUpper_iff] at h
    rw [isLower_iff]
    omega
  simp [Cut.word, notLower]

theorem symbol_of_longest {first : Char} {others rest : List Char} {lexeme : Lexeme}
    (h : LongestSpelling (first :: others) rest lexeme) :
    Cut.symbol first (others ++ rest) = ⟨.ok lexeme, first :: others, rest⟩ := by
  unfold Cut.symbol
  split
  · next found n hn =>
    have he : (first :: (others ++ rest)).take n ++ (first :: (others ++ rest)).drop n =
        first :: others ++ rest := List.take_append_drop ..
    obtain ⟨hx, hr, rfl⟩ := (symbol?_eq_some hn).unique h he
    rw [hx, hr]
  · next missing => exact absurd (List.prefix_append ..) (symbol?_eq_none missing h.spelled)

/-- The token at the start of a text is the one that the scanner cuts off. -/
theorem Lexes.of_eq {x rest : List Char} {lexeme : Except Fault Lexeme} (h : Lexes x rest lexeme)
    {first : Char} {others : List Char} (he : x ++ rest = first :: others) :
    Cut.of first others = ⟨lexeme, x, rest⟩ := by
  -- A number is one by how the whole text starts, whatever rule gave it.
  have number : StartsNumber (x ++ rest) → MaximalRun Cut.isNumberChar x rest →
      Cut.of first others = ⟨Cut.number x, x, rest⟩ := by
    intro start run
    rw [Cut.of_number (he ▸ start), ← he, run.span_eq]
  cases h with
  | identifier lower run =>
    rw [List.cons_append] at he
    obtain ⟨rfl, rfl⟩ := List.cons.inj he
    rw [Cut.of_word ((isAlpha_iff _).2 (.inr lower)), ← List.cons_append, run.span_eq,
      word_of_isLower _ lower]
  | typeName upper run =>
    rw [List.cons_append] at he
    obtain ⟨rfl, rfl⟩ := List.cons.inj he
    rw [Cut.of_word ((isAlpha_iff _).2 (.inl upper)), ← List.cons_append, run.span_eq,
      word_of_isUpper _ upper]
  | integer start run points short =>
    rw [number start run, Cut.number, points, ← natOfDigits_eq_decimalValue]
    exact congrArg (Cut.mk · x rest) (if_neg (Nat.not_lt.2 short))
  | overlong start run points long =>
    rw [number start run, Cut.number, points]
    exact congrArg (Cut.mk · x rest) (if_pos long)
  | real start run hw hf => rw [number start run, number_real run.mem hw hf]
  | manyPoints start run points => rw [number start run, number_manyPoints points]
  | comment run =>
    rw [List.cons_append] at he
    obtain ⟨rfl, rfl⟩ := List.cons.inj he
    exact congrArg (Cut.cons ';')
      (run.span_eq fun body => .ok (.comment (String.ofList body)))
  | @string body _ inside =>
    rw [List.cons_append] at he
    obtain ⟨rfl, rfl⟩ := List.cons.inj he
    have cut := string_closed rest inside
    rw [← List.singleton_append, ← List.append_assoc] at cut
    exact congrArg (Cut.cons '"') cut
  | unterminated inside behind =>
    rw [List.cons_append] at he
    obtain ⟨rfl, rfl⟩ := List.cons.inj he
    exact congrArg (Cut.cons '"') (string_open inside behind)
  | symbol start longest =>
    rw [List.cons_append] at he
    obtain ⟨rfl, rfl⟩ := List.cons.inj he
    rw [Cut.of_symbol start, symbol_of_longest longest]
  | stray start missing =>
    rw [List.cons_append] at he
    obtain ⟨rfl, rfl⟩ := List.cons.inj he
    rw [List.nil_append, Cut.of_symbol start, Cut.symbol]
    split
    · next found n hn =>
      -- What is found is spelled at the start of the text, where nothing is.
      have longest := symbol?_eq_some hn
      exact absurd (List.take_prefix ..) (missing _ _ longest.spelled)
    · rfl

/-! ## Scanning -/

namespace Scanner

theorem skipBlanks_of_not_isBlank {s : Scanner} {first : Char} {others : List Char}
    (hs : s.rest = first :: others) (hb : Text.isBlank first = false) : s.skipBlanks = s := by
  have none : s.rest.takeWhile Text.isBlank = [] := by
    rw [hs, List.takeWhile_cons_of_neg (by simp [hb])]
  have all : s.rest.dropWhile Text.isBlank = s.rest := by
    rw [hs, List.dropWhile_cons_of_neg (by simp [hb])]
  simp only [skipBlanks, none, all, Position.afterAll_nil, List.contains_nil, Bool.or_false]

/-- A scan of a text that begins with no blank cuts off its first token. -/
theorem scan_eq_scanHere {s : Scanner} {first : Char} {others : List Char}
    (hs : s.rest = first :: others) (hb : Text.isBlank first = false) :
    s.scan = s.scanHere := by
  have fault : s.fault? = none := by simp [fault?, hs]
  simp only [scan, skipBlanks_of_not_isBlank hs hb, fault]

theorem scanHere_rest {s : Scanner} {first : Char} {others : List Char}
    (hs : s.rest = first :: others) : s.scanHere.2.rest = (Cut.of first others).rest := by
  unfold scanHere
  rw [hs]
  simp only
  split <;> rfl

theorem scanHere_position {s : Scanner} {first : Char} {others : List Char}
    (hs : s.rest = first :: others) :
    s.scanHere.2.position = s.position.afterAll (Cut.of first others).text := by
  unfold scanHere
  rw [hs]
  simp only
  split <;> rfl

theorem scanHere_token {s : Scanner} {first : Char} {others : List Char}
    (hs : s.rest = first :: others) (he : (Cut.of first others).rest ≠ [] ∨ s.ending = none) :
    s.scanHere.1 = (Cut.of first others).lexeme.map s.token := by
  have fault : (s.pass (Cut.of first others)).fault? = none := by
    rcases he with he | he
    · simp [fault?, pass, he]
    · simp [fault?, pass, he]
  unfold scanHere
  rw [hs]
  simp only [fault]
  cases (Cut.of first others).lexeme <;> rfl

/-- Where the text that is left begins with no blank, there is one token at its
    start by the lexical grammar, and a scan passes over just the characters of
    that token and gives it, with its place. (The end of the text may be taken
    by a fault, which a token at the very end gives way to.) -/
theorem scan_longest_match (s : Scanner) (first : Char) (others : List Char)
    (hs : s.rest = first :: others) (hb : Text.isBlank first = false) :
    (∃ x rest lexeme, s.rest = x ++ rest ∧ Lexes x rest lexeme) ∧
      ∀ x rest lexeme, s.rest = x ++ rest → Lexes x rest lexeme →
        s.scan.2.rest = rest ∧ s.scan.2.position = s.position.afterAll x ∧
          (rest ≠ [] ∨ s.ending = none → s.scan.1 = lexeme.map s.token) := by
  refine ⟨⟨_, _, _, ?_, lexes_of first others⟩, fun x rest lexeme hr hl => ?_⟩
  · rw [hs, Cut.of_text_append_rest]
  · have cut := hl.of_eq (hr.symm.trans hs)
    rw [scan_eq_scanHere hs hb, scanHere_rest hs, scanHere_position hs, cut]
    refine ⟨rfl, rfl, fun he => ?_⟩
    rw [scanHere_token hs (by rwa [cut]), cut]

/-- Of `<`, `<|` and `<|=` the last is taken. -/
theorem scan_longest_match_shlxAssign :
    let s : Scanner := .ofChars "main" ['<', '|', '=', 'x'] none
    s.scan.2.rest = ['x'] ∧ s.scan.1 = .ok (s.token (.mark .shlxAssign)) := by
  intro s
  have lexes : Lexes ['<', '|', '='] ['x'] (.ok (.mark .shlxAssign)) := by
    refine .symbol ⟨rfl, ?_, by decide, by decide⟩ ⟨.mark .shlxAssign, fun y _ hy _ => ?_⟩
    · rw [startsNumber_cons_iff]
      decide
    · have := hy.length_mem
      simp only [List.mem_cons, List.not_mem_nil, or_false] at this
      simp only [List.length_cons, List.length_nil]
      omega
  obtain ⟨rest, -, token⟩ := (scan_longest_match s '<' ['|', '=', 'x'] rfl rfl).2 _ _ _ rfl lexes
  exact ⟨rest, token (.inr rfl)⟩

end Scanner

end Soul
