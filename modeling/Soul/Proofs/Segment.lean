import Mathlib.Data.List.Induction
import Mathlib.Logic.Function.Iterate
import Soul.Proofs.Lexeme
import Soul.Token.Stream

/-!
# The tokens of a text

A text is cut into tokens and the blanks between them, and nothing else.
`Segments` says so as a relation between a text and its tokens: blanks and a
token by the lexical grammar take turns, and blanks stand before the end of the
input. The place of a token is behind all that stands before it, and a token is
the first on its line if it is the first of the text or a line feed is among
the blanks before it.

A text whose integers are not too long (`NumbersFit`) has such tokens
(`exists_segments`), and it is these that a scanner gives, one after the other
(`Scanner.Splits.scan`). From this follow the whole lists: what a reading of
the text fetches (`Scanner.Splits.fetches_eq`) and what a token stream hands out
(`TokenStream.rest_of_splits`), where comments may be passed over.

The main statement of this module spells the relation out, with places found by
counting (`Segmentation`, `TokenStream.rest_segmentation`).
-/

namespace Soul

/-! ## Places by counting -/

namespace Position

/-- The place behind a text: the line by the line feeds in it, the column by the
    characters behind the last of them. -/
def behind (cs : List Char) : Position :=
  ⟨1 + cs.count '\n', 1 + (cs.reverse.takeWhile (· != '\n')).length⟩

theorem behind_concat (cs : List Char) (c : Char) : behind (cs ++ [c]) = (behind cs).after c := by
  by_cases hc : c = '\n'
  · simp [behind, after, hc, Nat.add_assoc]
  · simp [behind, after, hc, Nat.add_assoc]

theorem afterAll_start (cs : List Char) : start.afterAll cs = behind cs := by
  induction cs using List.reverseRecOn with
  | nil => rfl
  | append_singleton cs c ih => rw [afterAll_append, ih, behind_concat]; rfl

theorem behind_append (pre cs : List Char) : behind (pre ++ cs) = (behind pre).afterAll cs := by
  rw [← afterAll_start, ← afterAll_start, afterAll_append]

/-- The place `p` comes before the place `q`. -/
def Before (p q : Position) : Prop :=
  p.line < q.line ∨ p.line = q.line ∧ p.column < q.column

theorem Before.trans {p q r : Position} (h : Before p q) (h' : Before q r) : Before p r := by
  unfold Before at *
  omega

theorem before_after (p : Position) (c : Char) : Before p (p.after c) := by
  unfold Before after
  split
  · exact .inl (Nat.lt_succ_self _)
  · exact .inr ⟨rfl, Nat.lt_succ_self _⟩

theorem before_afterAll (p : Position) {cs : List Char} (h : cs ≠ []) :
    Before p (p.afterAll cs) := by
  induction cs generalizing p with
  | nil => exact absurd rfl h
  | cons c cs ih =>
    rw [afterAll_cons]
    cases cs with
    | nil => exact before_after p c
    | cons d ds => exact (before_after p c).trans (ih _ (List.cons_ne_nil _ _))

end Position

/-! ## Texts and their tokens -/

theorem length_rest_lt {chars : List Char} {first : Char} {others : List Char}
    (h : chars.dropWhile Text.isBlank = first :: others) :
    (Cut.of first others).rest.length < chars.length := by
  have cut := Cut.of_rest_length_lt first others
  have drop := (List.dropWhile_sublist (l := chars) Text.isBlank).length_le
  rw [h] at drop
  omega

/-- The tokens of a text as pieces of it, at most one for each of `rounds`. -/
def lexemesWithin : (rounds chars : List Char) → List (List Char)
  | [], _ => []
  | _ :: rounds, chars =>
    match chars.dropWhile Text.isBlank with
    | [] => []
    | first :: others =>
      (Cut.of first others).text :: lexemesWithin rounds (Cut.of first others).rest

/-- The tokens of a text as pieces of it, one after the other. -/
def lexemes (chars : List Char) : List (List Char) := lexemesWithin chars chars

/-- More rounds than there are characters make no difference. -/
theorem lexemesWithin_eq {rounds rounds' chars : List Char} (h : chars.length ≤ rounds.length)
    (h' : chars.length ≤ rounds'.length) :
    lexemesWithin rounds chars = lexemesWithin rounds' chars := by
  induction rounds generalizing rounds' chars with
  | nil =>
    obtain rfl := List.eq_nil_of_length_eq_zero (Nat.le_zero.1 h)
    cases rounds' <;> rfl
  | cons c rounds ih =>
    cases rounds' with
    | nil =>
      obtain rfl := List.eq_nil_of_length_eq_zero (Nat.le_zero.1 h')
      rfl
    | cons c' rounds' =>
      unfold lexemesWithin
      cases hd : chars.dropWhile Text.isBlank with
      | nil => rfl
      | cons first others =>
        have shorter := length_rest_lt hd
        rw [List.length_cons] at h h'
        exact congrArg (List.cons _) (ih (by omega) (by omega))

theorem lexemes_of_token {chars : List Char} {first : Char} {others : List Char}
    (h : chars.dropWhile Text.isBlank = first :: others) :
    lexemes chars = (Cut.of first others).text :: lexemes (Cut.of first others).rest := by
  have shorter := length_rest_lt h
  cases chars with
  | nil => exact absurd shorter (Nat.not_lt_zero _)
  | cons c chars =>
    rw [lexemes, lexemesWithin, h]
    exact congrArg (List.cons _) (lexemesWithin_eq (Nat.le_of_lt_succ shorter) (Nat.le_refl _))

/-- No integer in the text has too many digits. -/
def NumbersFit (chars : List Char) : Prop :=
  ∀ x ∈ lexemes chars, (∀ c ∈ x, c.isDigit = true) → x.length ≤ maxDigits

instance (chars : List Char) : Decidable (NumbersFit chars) :=
  letI (x : List Char) : Decidable ((∀ c ∈ x, c.isDigit = true) → x.length ≤ maxDigits) :=
    @instDecidableForall _ _ (List.decidableBAll _ x) (Nat.decLe x.length maxDigits)
  List.decidableBAll _ (lexemes chars)

/-- The text `chars` at the place `p` consists of the tokens `ts` and blanks.
    That `p` is the start of its line, but for blanks, is `fresh`. -/
inductive Segments (file : String) : Position → Bool → List Char → List Token → Prop
  | last {p : Position} {fresh : Bool} {blanks : List Char} :
      (∀ c ∈ blanks, Text.isBlank c = true) →
      Segments file p fresh blanks
        [⟨.endOfInput, file, p.afterAll blanks, fresh || blanks.contains '\n'⟩]
  | token {p : Position} {fresh : Bool} {blanks : List Char} {first : Char}
      {others rest : List Char} {lexeme : Lexeme} {ts : List Token} :
      (∀ c ∈ blanks, Text.isBlank c = true) → Text.isBlank first = false →
      Lexes (first :: others) rest (.ok lexeme) →
      Segments file (p.afterAll (blanks ++ first :: others)) false rest ts →
      Segments file p fresh (blanks ++ (first :: others ++ rest))
        (⟨lexeme, file, p.afterAll blanks, fresh || blanks.contains '\n'⟩ :: ts)

theorem Lexes.digits_of_error {x rest : List Char} {fault : Fault}
    (h : Lexes x rest (.error fault)) :
    (∀ c ∈ x, c.isDigit = true) ∧ maxDigits < x.length := by
  cases h with
  | overlong _ run points long =>
    exact ⟨isDigit_of_not_mem run.mem (List.count_eq_zero.1 points), long⟩

theorem Spelled.ne_endOfInput {x : List Char} {lexeme : Lexeme} (h : Spelled x lexeme) :
    lexeme ≠ .endOfInput := by
  cases h <;> exact Lexeme.noConfusion

theorem Lexes.ne_endOfInput {x rest : List Char} {lexeme : Lexeme}
    (h : Lexes x rest (.ok lexeme)) : lexeme ≠ .endOfInput := by
  cases h with
  | symbol _ longest => exact longest.spelled.ne_endOfInput
  | _ => exact Lexeme.noConfusion

theorem Spelled.newline_not_mem {x : List Char} {lexeme : Lexeme} (h : Spelled x lexeme) :
    '\n' ∉ x := by
  cases h with
  | operator op => cases op <;> decide
  | mark m => cases m <;> decide

/-- No token goes beyond its line. -/
theorem Lexes.newline_not_mem {x rest : List Char} {lexeme : Except Fault Lexeme}
    (h : Lexes x rest lexeme) (hb : ∀ c ∈ x.head?, Text.isBlank c = false) : '\n' ∉ x := by
  have of_class : ∀ {p : Char → Bool} {y : List Char}, p '\n' = false →
      (∀ c ∈ y, p c = true) → '\n' ∉ y :=
    fun hp hy hn => absurd (hy _ hn) (by simp [hp])
  have of_string : ∀ {body : List Char},
      (∀ c ∈ body, Text.isLineEnd c = false ∧ c ≠ '"') → '\n' ∉ body :=
    fun inside hn => absurd (inside _ hn).1 (by decide)
  cases h with
  | identifier _ run | typeName _ run => exact of_class rfl run.mem
  | integer _ run _ _ | overlong _ run _ _ | real _ run _ _ | manyPoints _ run _ =>
    exact of_class rfl run.mem
  | comment run =>
    exact List.not_mem_cons_of_ne_of_not_mem (by decide)
      (of_class (p := (!Text.isLineEnd ·)) rfl run.mem)
  | string inside =>
    rw [List.mem_append, List.mem_cons, List.mem_singleton]
    rintro ((hn | hn) | hn)
    · exact absurd hn (by decide)
    · exact of_string inside hn
    · exact absurd hn (by decide)
  | unterminated inside _ =>
    exact List.not_mem_cons_of_ne_of_not_mem (by decide) (of_string inside)
  | symbol _ longest => exact longest.spelled.newline_not_mem
  | stray _ _ =>
    rw [List.mem_singleton]
    rintro rfl
    exact absurd (hb _ rfl) (by decide)

/-- Where there is more than blanks, a token by the lexical grammar comes first. -/
theorem exists_token {chars : List Char} {first : Char} {others : List Char}
    (h : chars.dropWhile Text.isBlank = first :: others) :
    ∃ x, chars = chars.takeWhile Text.isBlank ++ (first :: x ++ (Cut.of first others).rest) ∧
      (Cut.of first others).text = first :: x ∧
      Lexes (first :: x) (Cut.of first others).rest (Cut.of first others).lexeme ∧
      Text.isBlank first = false := by
  have run := maximalRun_takeWhile Text.isBlank chars
  obtain ⟨first', x, text⟩ := List.exists_cons_of_ne_nil (Cut.of_text_ne_nil first others)
  have whole := Cut.of_text_append_rest first others
  rw [text] at whole
  obtain ⟨rfl, -⟩ := List.cons.inj whole
  refine ⟨x, ?_, text, text ▸ lexes_of first' others, run.stop first' (by rw [h]; rfl)⟩
  rw [whole, ← h, List.takeWhile_append_dropWhile]

/-- A text whose integers are not too long has tokens. -/
theorem exists_segments (file : String) (p : Position) (fresh : Bool) {chars : List Char}
    (fit : NumbersFit chars) : ∃ ts, Segments file p fresh chars ts := by
  -- By induction on the length: each token leaves less of the text.
  induction hn : chars.length using Nat.strong_induction_on generalizing chars p fresh with
  | _ n ih =>
    cases h : chars.dropWhile Text.isBlank with
    | nil => exact ⟨_, .last (List.dropWhile_eq_nil_iff.1 h)⟩
    | cons first others =>
      rw [NumbersFit, lexemes_of_token h] at fit
      obtain ⟨x, whole, text, lexes, blank⟩ := exists_token h
      cases hl : (Cut.of first others).lexeme with
      | error fault =>
        -- A fault comes in place of an integer that is too long, and there is none.
        rw [hl, ← text] at lexes
        have := fit _ List.mem_cons_self lexes.digits_of_error.1
        exact absurd lexes.digits_of_error.2 (Nat.not_lt.2 this)
      | ok lexeme =>
        obtain ⟨ts, hts⟩ := ih _ (hn ▸ length_rest_lt h)
          (p.afterAll (chars.takeWhile Text.isBlank ++ first :: x)) false
          (fun y hy => fit y (List.mem_cons_of_mem _ hy)) rfl
        rw [whole]
        exact ⟨_, .token (maximalRun_takeWhile Text.isBlank chars).mem blank (hl ▸ lexes) hts⟩

/-! ## Scanning -/

/-- The tokens that are not passed over. -/
def shown (skip : Bool) (ts : List Token) : List Token :=
  ts.filter fun t => !(skip && t.isComment)

theorem isComment_of_isEnd {t : Token} (h : t.isEnd = true) : t.isComment = false := by
  simp only [Token.isEnd, beq_iff_eq] at h
  simp [Token.isComment, h]

theorem shown_end (skip : Bool) {t : Token} (h : t.isEnd = true) : shown skip [t] = [t] := by
  simp [shown, isComment_of_isEnd h]

namespace Scanner

/-- What is left to scan consists of the tokens `ts`, and no fault comes in
    place of its end. -/
def Splits (s : Scanner) (ts : List Token) : Prop :=
  s.ending = none ∧ Segments s.file s.position s.lineStart s.rest ts

theorem splits_ofText (file : String) {text : String} (fit : NumbersFit text.toList) :
    ∃ ts, (ofText file text).Splits ts :=
  (exists_segments file .start true fit).imp fun _ h => ⟨rfl, h⟩

/-- The scanner stands behind the end of the input, which was found at `p`. -/
structure Done (s : Scanner) (p : Position) : Prop where
  rest : s.rest = []
  position : s.position = p
  ending : s.ending = none

theorem scan_blank {s : Scanner} (he : s.ending = none)
    (hb : ∀ c ∈ s.rest, Text.isBlank c = true) :
    s.scan = (.ok ⟨.endOfInput, s.file, s.position.afterAll s.rest,
        s.lineStart || s.rest.contains '\n'⟩,
      ⟨s.file, [], s.position.afterAll s.rest, false, none⟩) := by
  have take : s.rest.takeWhile Text.isBlank = s.rest := List.takeWhile_eq_self_iff.2 hb
  have drop : s.rest.dropWhile Text.isBlank = [] := List.dropWhile_eq_nil_iff.2 hb
  simp [scan, skipBlanks, fault?, scanHere, token, take, drop, he]

theorem scan_token {s : Scanner} (he : s.ending = none) {blanks : List Char} {first : Char}
    {others rest : List Char} {lexeme : Lexeme} (hs : s.rest = blanks ++ (first :: others ++ rest))
    (hb : ∀ c ∈ blanks, Text.isBlank c = true) (hf : Text.isBlank first = false)
    (hl : Lexes (first :: others) rest (.ok lexeme)) :
    s.scan = (.ok ⟨lexeme, s.file, s.position.afterAll blanks,
        s.lineStart || blanks.contains '\n'⟩,
      ⟨s.file, rest, s.position.afterAll (blanks ++ first :: others), false, none⟩) := by
  have run : MaximalRun Text.isBlank blanks (first :: others ++ rest) :=
    ⟨hb, fun c hc => by cases hc; exact hf⟩
  have take : s.rest.takeWhile Text.isBlank = blanks := hs ▸ run.takeWhile_eq
  have drop : s.rest.dropWhile Text.isBlank = first :: (others ++ rest) := hs ▸ run.dropWhile_eq
  have cut := hl.of_eq (List.cons_append)
  simp [scan, skipBlanks, fault?, scanHere, pass, token, take, drop, he, cut,
    Position.afterAll_append]

namespace Splits

variable {s : Scanner} {ts : List Token}

/-- A scan gives the next of the tokens. Behind the last one, which is the end
    of the input, nothing is left; behind any other there is less than before. -/
theorem scan (h : s.Splits ts) : ∃ t s', s.scan = (.ok t, s') ∧
    (ts = [t] ∧ t.isEnd = true ∧ s'.Done t.position ∨
      ∃ ts', ts = t :: ts' ∧ t.isEnd = false ∧ s'.Splits ts' ∧ s'.rest.length < s.rest.length) := by
  obtain ⟨he, hseg⟩ := h
  generalize hr : s.rest = chars at hseg
  cases hseg with
  | last hb =>
    subst hr
    exact ⟨_, _, scan_blank he hb, .inl ⟨rfl, rfl, rfl, rfl, rfl⟩⟩
  | @token _ _ blanks first others rest lexeme ts hb hf hl hts =>
    refine ⟨_, _, scan_token he hr hb hf hl, .inr ⟨ts, rfl, ?_, ⟨rfl, hts⟩, ?_⟩⟩
    · simpa [Token.isEnd] using hl.ne_endOfInput
    · simp only [List.length_append, List.length_cons]
      omega

/-- The next token that is not passed over. -/
theorem nextWithin (skip : Bool) (rounds : List Char) (h : s.Splits ts)
    (hr : s.rest.length ≤ rounds.length) : ∃ t s', s.nextWithin skip rounds = (.ok t, s') ∧
    (shown skip ts = [t] ∧ t.isEnd = true ∧ s'.Done t.position ∨
      ∃ ts', shown skip ts = t :: shown skip ts' ∧ t.isEnd = false ∧ s'.Splits ts' ∧
        s'.rest.length < s.rest.length) := by
  induction rounds generalizing s ts with
  | nil =>
    -- Without characters, the end of the input is the next token.
    obtain ⟨t, s', hs, ⟨rfl, hend, done⟩ | ⟨ts', rfl, -, -, hlt⟩⟩ := h.scan
    · exact ⟨t, s', hs, .inl ⟨shown_end skip hend, hend, done⟩⟩
    · rw [List.length_nil] at hr
      omega
  | cons c rounds ih =>
    obtain ⟨t, s', hs, ⟨rfl, hend, done⟩ | ⟨ts', rfl, hend, hts', hlt⟩⟩ := h.scan
    · refine ⟨t, s', ?_, .inl ⟨shown_end skip hend, hend, done⟩⟩
      simp [Scanner.nextWithin, hs, isComment_of_isEnd hend]
    · cases hc : skip && t.isComment with
      | false =>
        refine ⟨t, s', by simp [Scanner.nextWithin, hs, hc], .inr ⟨ts', ?_, hend, hts', hlt⟩⟩
        exact List.filter_cons_of_pos (by simp [hc])
      | true =>
        -- A comment that is passed over: the scan goes on behind it.
        have short : s'.rest.length ≤ rounds.length := by
          rw [List.length_cons] at hr
          omega
        have hshown : shown skip (t :: ts') = shown skip ts' :=
          List.filter_cons_of_neg (by simp [hc])
        have unfolded : s.nextWithin skip (c :: rounds) = s'.nextWithin skip rounds := by
          simp [Scanner.nextWithin, hs, hc]
        rw [hshown, unfolded]
        obtain ⟨u, s'', hu, hcases⟩ := ih hts' short
        exact ⟨u, s'', hu, hcases.imp id fun ⟨us, h1, h2, h3, h4⟩ => ⟨us, h1, h2, h3, h4.trans hlt⟩⟩

theorem next (skip : Bool) (h : s.Splits ts) : ∃ t s', s.next skip = (.ok t, s') ∧
    (shown skip ts = [t] ∧ t.isEnd = true ∧ s'.Done t.position ∨
      ∃ ts', shown skip ts = t :: shown skip ts' ∧ t.isEnd = false ∧ s'.Splits ts' ∧
        s'.rest.length < s.rest.length) :=
  h.nextWithin skip s.rest (Nat.le_refl _)

theorem fetchesWithin_eq (skip : Bool) (rounds : Nat) (h : s.Splits ts)
    (hr : s.rest.length < rounds) : s.fetchesWithin skip rounds = (shown skip ts).map .ok := by
  induction rounds generalizing s ts with
  | zero => omega
  | succ rounds ih =>
    obtain ⟨t, s', hs, ⟨hshown, hend, -⟩ | ⟨ts', hshown, hend, hts', hlt⟩⟩ := h.next skip
    · simp [fetchesWithin, hs, isLast, hend, hshown]
    · simp [fetchesWithin, hs, isLast, hend, hshown, ih hts' (by omega)]

/-- A reading of the text fetches its tokens. -/
theorem fetches_eq (skip : Bool) (h : s.Splits ts) :
    s.fetches skip = (shown skip ts).map .ok :=
  h.fetchesWithin_eq skip _ (Nat.lt_succ_self _)

end Splits

end Scanner

/-! ## Token streams -/

/-- Behind the end of the input comes the end of the input, at the same place. -/
theorem Scanner.Done.next {s : Scanner} {p : Position} (h : s.Done p) (skip : Bool) :
    ∃ t s', s.next skip = (.ok t, s') ∧ t.lexeme = .endOfInput ∧ t.position = p ∧ s'.Done p := by
  obtain ⟨hr, rfl, he⟩ := h
  have split : s.Splits [⟨.endOfInput, s.file, s.position, s.lineStart⟩] := by
    refine ⟨he, ?_⟩
    have last : Segments s.file s.position s.lineStart [] _ := .last (List.forall_mem_nil _)
    rw [Position.afterAll_nil, List.contains_nil, Bool.or_false] at last
    exact hr ▸ last
  obtain ⟨t, s', hs, ⟨ht, -, done⟩ | ⟨ts', ht, hend, -, -⟩⟩ := split.next skip
  · rw [shown_end skip rfl] at ht
    obtain ⟨rfl, -⟩ := List.cons.inj ht
    exact ⟨_, s', hs, rfl, rfl, done⟩
  · rw [shown_end skip rfl] at ht
    obtain ⟨rfl, -⟩ := List.cons.inj ht
    exact absurd hend (by simp [Token.isEnd])

namespace TokenStream

/-- The stream has handed out the end of the input, found at `p`. -/
def Done (s : TokenStream) (p : Position) : Prop := s.scanner.Done p

theorem restWithin_of_splits (rounds : Nat) {s : TokenStream} {ts : List Token}
    (h : s.scanner.Splits ts) (hr : s.scanner.rest.length < rounds) :
    (s.restWithin rounds).fault = none ∧
      (s.restWithin rounds).tokens = shown s.skipComments ts ∧
      ∃ last ∈ (s.restWithin rounds).tokens.getLast?, (s.restWithin rounds).stream.Done
        last.position := by
  induction rounds generalizing s ts with
  | zero => omega
  | succ rounds ih =>
    obtain ⟨t, s', hs, ⟨hshown, hend, done⟩ | ⟨ts', hshown, hend, hts', hlt⟩⟩ :=
      h.next s.skipComments
    · have unfolded : s.restWithin (rounds + 1) = ⟨[t], none, { s with
          scanner := s'
          count := s.count + 1
          journal := s.journal.recordAll t.diagnostic?.toList }⟩ := by
        simp [restWithin, TokenStream.next, hs, hend]
      rw [unfolded]
      exact ⟨rfl, hshown.symm, t, rfl, done⟩
    · have unfolded : s.restWithin (rounds + 1) =
          let batch := restWithin rounds { s with
            scanner := s'
            count := s.count + 1
            journal := s.journal.recordAll t.diagnostic?.toList }
          { batch with tokens := t :: batch.tokens } := by
        simp [restWithin, TokenStream.next, hs, hend]
      obtain ⟨fault, tokens, last, hlast, done⟩ := ih (s := { s with
        scanner := s'
        count := s.count + 1
        journal := s.journal.recordAll t.diagnostic?.toList }) hts' (by simp only; omega)
      rw [unfolded, hshown]
      refine ⟨fault, congrArg (List.cons t) tokens, last, ?_, done⟩
      rw [Option.mem_def, List.getLast?_cons, Option.mem_def.1 hlast]
      rfl

/-- A stream hands out the tokens of its text, and then there is nothing left. -/
theorem rest_of_splits {s : TokenStream} {ts : List Token} (h : s.scanner.Splits ts) :
    s.rest.fault = none ∧ s.rest.tokens = shown s.skipComments ts ∧
      ∃ last ∈ s.rest.tokens.getLast?, s.rest.stream.Done last.position :=
  restWithin_of_splits _ h (Nat.lt_succ_self _)

theorem Done.next {s : TokenStream} {p : Position} (h : s.Done p) :
    ∃ t s', s.next = (.ok t, s') ∧ t.lexeme = .endOfInput ∧ t.position = p ∧ s'.Done p := by
  obtain ⟨t, s', hs, hlex, hp, done⟩ := Scanner.Done.next h s.skipComments
  refine ⟨t, { s with
    scanner := s'
    count := s.count + 1
    journal := s.journal.recordAll t.diagnostic?.toList }, ?_, hlex, hp, done⟩
  rw [TokenStream.next, hs]

/-- However often it is asked, a stream stays at the end of the input. -/
theorem Done.iterate {s : TokenStream} {p : Position} (h : s.Done p) (n : Nat) :
    ((fun s : TokenStream => s.next.2)^[n] s).Done p := by
  induction n with
  | zero => exact h
  | succ n ih =>
    obtain ⟨t, s', hs, -, -, done⟩ := ih.next
    rw [Function.iterate_succ_apply', hs]
    exact done

end TokenStream

/-! ## The segmentation of a text -/

/-- A token with its characters and the blanks before them. -/
structure Piece where
  blanks : List Char
  chars : List Char
  token : Token

/-- The piece of text that holds a token. -/
def Piece.text (piece : Piece) : List Char := piece.blanks ++ piece.chars

/-- The text is cut into pieces, with the blanks `tail` behind them and before
    the end of the input, `last`. What stands before the text is `pre`, and
    `fresh` says that no token stands before it on its line. -/
structure Segmentation (pre : List Char) (fresh : Bool) (text : List Char) (pieces : List Piece)
    (tail : List Char) (last : Token) : Prop where
  whole : text = pieces.flatMap Piece.text ++ tail
  /-- Between tokens there are blanks only. -/
  blanks : ∀ piece ∈ pieces, ∀ c ∈ piece.blanks, Text.isBlank c = true
  tail_blank : ∀ c ∈ tail, Text.isBlank c = true
  /-- A token has a first character, which is no blank. -/
  first : ∀ piece ∈ pieces, ∃ c ∈ piece.chars.head?, Text.isBlank c = false
  /-- A token stays on its line. -/
  line : ∀ piece ∈ pieces, '\n' ∉ piece.chars
  /-- A token is what its characters say. -/
  lexes : ∀ before piece behind, pieces = before ++ piece :: behind →
    Lexes piece.chars (behind.flatMap Piece.text ++ tail) (.ok piece.token.lexeme)
  position : ∀ before piece behind, pieces = before ++ piece :: behind →
    piece.token.position = .behind (pre ++ before.flatMap Piece.text ++ piece.blanks)
  startsLine : ∀ before piece behind, pieces = before ++ piece :: behind →
    (piece.token.startsLine = true ↔ before = [] ∧ fresh = true ∨ '\n' ∈ piece.blanks)
  last_lexeme : last.lexeme = .endOfInput
  last_position : last.position = .behind (pre ++ text)
  last_startsLine : last.startsLine = true ↔ pieces = [] ∧ fresh = true ∨ '\n' ∈ tail

/-- A text of blanks has no piece. -/
theorem segmentation_blank (file : String) (pre : List Char) (fresh : Bool) {blanks : List Char}
    (hb : ∀ c ∈ blanks, Text.isBlank c = true) :
    Segmentation pre fresh blanks [] blanks
      ⟨.endOfInput, file, (Position.behind pre).afterAll blanks,
        fresh || blanks.contains '\n'⟩ where
  whole := rfl
  blanks := List.forall_mem_nil _
  tail_blank := hb
  first := List.forall_mem_nil _
  line := List.forall_mem_nil _
  lexes _ _ _ h := absurd h (by simp)
  position _ _ _ h := absurd h (by simp)
  startsLine _ _ _ h := absurd h (by simp)
  last_lexeme := rfl
  last_position := (Position.behind_append pre blanks).symm
  last_startsLine := by simp

/-- One more piece in front of a text that is cut into pieces. -/
theorem Segmentation.cons {pre : List Char} {fresh : Bool} {rest tail : List Char}
    {pieces : List Piece} {last : Token} {piece : Piece}
    (h : Segmentation (pre ++ piece.text) false rest pieces tail last)
    (hb : ∀ c ∈ piece.blanks, Text.isBlank c = true)
    (hf : ∃ c ∈ piece.chars.head?, Text.isBlank c = false)
    (hl : Lexes piece.chars rest (.ok piece.token.lexeme))
    (hp : piece.token.position = .behind (pre ++ piece.blanks))
    (hs : piece.token.startsLine = true ↔ fresh = true ∨ '\n' ∈ piece.blanks) :
    Segmentation pre fresh (piece.text ++ rest) (piece :: pieces) tail last where
  whole := by rw [h.whole, List.flatMap_cons, List.append_assoc]
  blanks := List.forall_mem_cons.2 ⟨hb, h.blanks⟩
  tail_blank := h.tail_blank
  first := List.forall_mem_cons.2 ⟨hf, h.first⟩
  line := by
    refine List.forall_mem_cons.2 ⟨hl.newline_not_mem fun c hc => ?_, h.line⟩
    obtain ⟨d, hd, hblank⟩ := hf
    exact (Option.mem_unique hd hc) ▸ hblank
  lexes before q behind he := by
    cases before with
    | nil =>
      obtain ⟨rfl, rfl⟩ := List.cons.inj he
      exact h.whole ▸ hl
    | cons b before =>
      obtain ⟨rfl, he'⟩ := List.cons.inj he
      exact h.lexes before q behind he'
  position before q behind he := by
    cases before with
    | nil =>
      obtain ⟨rfl, rfl⟩ := List.cons.inj he
      rw [hp, List.flatMap_nil, List.append_nil]
    | cons b before =>
      obtain ⟨rfl, he'⟩ := List.cons.inj he
      rw [h.position before q behind he', List.flatMap_cons, List.append_assoc pre]
  startsLine before q behind he := by
    cases before with
    | nil =>
      obtain ⟨rfl, rfl⟩ := List.cons.inj he
      simpa using hs
    | cons b before =>
      obtain ⟨rfl, he'⟩ := List.cons.inj he
      simpa using h.startsLine before q behind he'
  last_lexeme := h.last_lexeme
  last_position := by rw [h.last_position, List.append_assoc]
  last_startsLine := by simpa using h.last_startsLine

theorem Segments.segmentation {file : String} {p : Position} {fresh : Bool} {text : List Char}
    {ts : List Token} (h : Segments file p fresh text ts) (pre : List Char) (hp : p = .behind pre) :
    ∃ pieces tail last, ts = pieces.map Piece.token ++ [last] ∧
      Segmentation pre fresh text pieces tail last := by
  induction h generalizing pre with
  | last hb =>
    subst hp
    exact ⟨[], _, _, rfl, segmentation_blank file pre _ hb⟩
  | @token p fresh blanks first others rest lexeme ts hb hf hl _ ih =>
    subst hp
    let piece : Piece := ⟨blanks, first :: others,
      ⟨lexeme, file, (Position.behind pre).afterAll blanks, fresh || blanks.contains '\n'⟩⟩
    obtain ⟨pieces, tail, last, rfl, seg⟩ := ih _ (Position.behind_append pre piece.text).symm
    refine ⟨piece :: pieces, tail, last, rfl, ?_⟩
    rw [← List.append_assoc]
    exact seg.cons hb ⟨first, rfl, hf⟩ hl (Position.behind_append pre blanks).symm (by simp [piece])

/-- The tokens of a text come one behind the other. -/
theorem Segments.pairwise {file : String} {p : Position} {fresh : Bool} {text : List Char}
    {ts : List Token} (h : Segments file p fresh text ts) :
    (∀ t ∈ ts, p = t.position ∨ p.Before t.position) ∧
      ts.Pairwise fun t u => t.position.Before u.position := by
  have blanks_before : ∀ (p : Position) (blanks : List Char),
      p = p.afterAll blanks ∨ p.Before (p.afterAll blanks) := by
    intro p blanks
    cases blanks with
    | nil => exact .inl rfl
    | cons c cs => exact .inr (p.before_afterAll (List.cons_ne_nil _ _))
  induction h with
  | @last p fresh blanks hb =>
    exact ⟨List.forall_mem_singleton.2 (blanks_before p blanks), List.pairwise_singleton ..⟩
  | @token p fresh blanks first others rest lexeme ts hb hf hl _ ih =>
    -- The token has characters, and all tokens behind it come behind these.
    have behind : (p.afterAll blanks).Before (p.afterAll (blanks ++ first :: others)) := by
      rw [Position.afterAll_append]
      exact Position.before_afterAll _ (List.cons_ne_nil _ _)
    have later : ∀ t ∈ ts, (p.afterAll blanks).Before t.position := fun t ht =>
      (ih.1 t ht).elim (fun e => e ▸ behind) behind.trans
    refine ⟨List.forall_mem_cons.2 ⟨blanks_before p blanks, fun t ht => .inr ?_⟩,
      List.pairwise_cons.2 ⟨later, ih.2⟩⟩
    exact (blanks_before p blanks).elim (fun e => e ▸ later t ht) fun hlt => hlt.trans (later t ht)

/-- A text whose integers are not too long is cut into tokens without loss. A
    stream hands out these tokens and the end of the input, each behind the one
    before; asked for more, it hands out the end of the input at the same place
    again. -/
theorem TokenStream.rest_segmentation (file text : String) (limit : Int)
    (fit : NumbersFit text.toList) :
    let batch := (TokenStream.start (.ofText file text) false limit).rest
    ∃ pieces tail last, batch.fault = none ∧ batch.tokens = pieces.map Piece.token ++ [last] ∧
      Segmentation [] true text.toList pieces tail last ∧
      batch.tokens.Pairwise (fun t u => t.position.Before u.position) ∧
      ∀ n, ∃ token, ((fun s : TokenStream => s.next.2)^[n] batch.stream).next.1 = .ok token ∧
        token.lexeme = .endOfInput ∧ token.position = last.position := by
  intro batch
  obtain ⟨ts, hts⟩ := Scanner.splits_ofText file fit
  obtain ⟨fault, tokens, final, hfinal, done⟩ :=
    rest_of_splits (s := TokenStream.start (.ofText file text) false limit) hts
  obtain ⟨pieces, tail, last, hpieces, seg⟩ := hts.2.segmentation [] rfl
  have shown : batch.tokens = ts := tokens.trans (by simp [Soul.shown, start])
  refine ⟨pieces, tail, last, fault, shown.trans hpieces, seg, shown ▸ hts.2.pairwise.2, ?_⟩
  -- The stream is done at the last token it handed out, which is `last`.
  have hlast : final = last := by
    have ends : batch.tokens.getLast? = some last := by
      rw [shown.trans hpieces, List.getLast?_append, List.getLast?_singleton]
      rfl
    exact Option.mem_unique hfinal ends
  intro n
  obtain ⟨t, s', hs, hlex, hp, -⟩ := (done.iterate n).next
  exact ⟨t, congrArg Prod.fst hs, hlex, hlast ▸ hp⟩

/-- An identifier and, on the next line, a number that begins with a point. -/
theorem TokenStream.rest_segmentation_two_lines :
    NumbersFit "a\n .5".toList ∧
      ∃ pieces tail last, Segmentation [] true "a\n .5".toList pieces tail last := by
  have fit : NumbersFit "a\n .5".toList := by decide +kernel
  obtain ⟨pieces, tail, last, -, -, seg, -⟩ := rest_segmentation "main" "a\n .5" 100 fit
  exact ⟨fit, pieces, tail, last, seg⟩

end Soul
