import Soul.Proofs.Segment

/-!
# Texts joined by a line feed

No token goes beyond its line, and what a token is depends on nothing behind the
end of its line (`Lexes.of_sameLine`). So the tokens of two texts that are joined
by a line feed are those of the first, without the end of the input, and then
those of the second, moved down by the lines of the first
(`Scanner.splits_join`).
-/

namespace Soul

/-! ## Moving down -/

/-- The place `n` lines further down. -/
def Position.down (n : Nat) (p : Position) : Position := ⟨p.line + n, p.column⟩

theorem Position.down_after (n : Nat) (p : Position) (c : Char) :
    (p.down n).after c = (p.after c).down n := by
  unfold after
  split
  · simp [down, Nat.add_right_comm]
  · rfl

theorem Position.down_afterAll (n : Nat) (p : Position) (cs : List Char) :
    (p.down n).afterAll cs = (p.afterAll cs).down n := by
  induction cs generalizing p with
  | nil => rfl
  | cons c cs ih => rw [afterAll_cons, afterAll_cons, down_after, ih]

/-- The token `n` lines further down. -/
def Token.down (n : Nat) (t : Token) : Token := { t with position := t.position.down n }

@[simp] theorem Token.lexeme_down (n : Nat) (t : Token) : (t.down n).lexeme = t.lexeme := rfl

/-- A text further down has its tokens further down. -/
theorem Segments.down (n : Nat) {file : String} {p : Position} {fresh : Bool} {text : List Char}
    {ts : List Token} (h : Segments file p fresh text ts) :
    Segments file (p.down n) fresh text (ts.map (Token.down n)) := by
  induction h with
  | @last p fresh blanks hb =>
    have last : Segments file (p.down n) fresh blanks _ := .last hb
    rw [Position.down_afterAll] at last
    exact last
  | @token p fresh blanks first others rest lexeme ts hb hf hl _ ih =>
    rw [← Position.down_afterAll] at ih
    have token : Segments file (p.down n) fresh _ _ := .token hb hf hl ih
    rw [Position.down_afterAll] at token
    exact token

/-! ## Tokens and their lines -/

/-- The texts are the same up to the end of the line. -/
def SameLine (chars chars' : List Char) : Prop :=
  chars.takeWhile (!Text.isLineEnd ·) = chars'.takeWhile (!Text.isLineEnd ·)

theorem isLineEnd_iff (c : Char) : Text.isLineEnd c = true ↔ c = '\n' ∨ c = '\r' := by
  simp [Text.isLineEnd]

theorem Spelled.isLineEnd_eq_false {x : List Char} {lexeme : Lexeme} (h : Spelled x lexeme) :
    ∀ c ∈ x, Text.isLineEnd c = false := by
  have none : x.any Text.isLineEnd = false := by
    cases h with
    | operator op => cases op <;> rfl
    | mark m => cases m <;> rfl
  exact fun c hc => Bool.eq_false_iff.2 (List.any_eq_false.1 none c hc)

namespace SameLine

variable {chars chars' rest rest' x : List Char}

theorem symm (h : SameLine chars chars') : SameLine chars' chars := Eq.symm h

theorem append_left (x : List Char) (h : SameLine rest rest') :
    SameLine (x ++ rest) (x ++ rest') := by
  induction x with
  | nil => exact h
  | cons c x ih =>
    by_cases hc : Text.isLineEnd c = true
    · simp [SameLine, hc]
    · simpa [SameLine, hc] using ih

/-- Characters without a line end among them stand at the start of both texts or of none. -/
theorem begins {y : List Char} (h : SameLine chars chars')
    (hy : ∀ c ∈ y, Text.isLineEnd c = false) (start : y <+: chars) : y <+: chars' := by
  obtain ⟨others, rfl⟩ := start
  have line : (y ++ others).takeWhile (!Text.isLineEnd ·) = y ++ others.takeWhile _ :=
    List.takeWhile_append_of_pos fun c hc => by simp [hy c hc]
  have first : y <+: chars'.takeWhile (!Text.isLineEnd ·) := by
    rw [← show _ = chars'.takeWhile _ from h, line]
    exact List.prefix_append _ _
  exact first.trans (List.takeWhile_prefix _)

theorem head (h : SameLine chars chars') {c : Char} (hc : c ∈ chars.head?)
    (he : Text.isLineEnd c = false) : c ∈ chars'.head? := by
  obtain ⟨others, rfl⟩ := List.head?_eq_some_iff.1 hc
  obtain ⟨others', rfl⟩ := h.begins (List.forall_mem_singleton.2 he) ⟨others, rfl⟩
  rfl

theorem startsNumber (h : SameLine chars chars') (start : StartsNumber chars) :
    StartsNumber chars' := by
  obtain ⟨digit, others, hd, he⟩ := start
  have line : Text.isLineEnd digit = false := by
    rw [Bool.eq_false_iff, ne_eq, isLineEnd_iff]
    rintro (rfl | rfl) <;> exact absurd hd (by decide)
  obtain rfl | rfl := he
  · obtain ⟨others', rfl⟩ := h.begins (List.forall_mem_singleton.2 line) ⟨others, rfl⟩
    exact ⟨digit, others', hd, .inl rfl⟩
  · have both : ∀ c ∈ ['.', digit], Text.isLineEnd c = false :=
      List.forall_mem_cons.2 ⟨rfl, List.forall_mem_singleton.2 line⟩
    obtain ⟨others', rfl⟩ := h.begins both ⟨others, rfl⟩
    exact ⟨digit, others', hd, .inr rfl⟩

/-- A run of a class to which no line end belongs. -/
theorem maximalRun {p : Char → Bool} (h : SameLine rest rest') (newline : p '\n' = false)
    (return' : p '\r' = false) (run : MaximalRun p x rest) : MaximalRun p x rest' := by
  refine ⟨run.mem, fun c hc => ?_⟩
  cases he : Text.isLineEnd c with
  | true =>
    obtain rfl | rfl := (isLineEnd_iff c).1 he
    · exact newline
    · exact return'
  | false => exact run.stop c (h.symm.head hc he)

theorem startsSymbol {first : Char} {others others' : List Char} (h : SameLine others others')
    (start : StartsSymbol first others) : StartsSymbol first others' :=
  { start with
    number := fun number => start.number ((h.append_left [first]).symm.startsNumber number) }

theorem longestSpelling {lexeme : Lexeme} (h : SameLine rest rest')
    (longest : LongestSpelling x rest lexeme) : LongestSpelling x rest' lexeme where
  spelled := longest.spelled
  longest y other hy start :=
    longest.longest y other hy ((h.append_left x).symm.begins hy.isLineEnd_eq_false start)

end SameLine

/-- What a token is depends on nothing behind the end of its line. -/
theorem Lexes.of_sameLine {x rest rest' : List Char} {lexeme : Except Fault Lexeme}
    (h : Lexes x rest lexeme) (same : SameLine rest rest') : Lexes x rest' lexeme := by
  have start {y : List Char} (num : StartsNumber (y ++ rest)) : StartsNumber (y ++ rest') :=
    (same.append_left y).startsNumber num
  cases h with
  | identifier lower run => exact .identifier lower (same.maximalRun rfl rfl run)
  | typeName upper run => exact .typeName upper (same.maximalRun rfl rfl run)
  | integer num run points short =>
    exact .integer (start num) (same.maximalRun rfl rfl run) points short
  | overlong num run points long =>
    exact .overlong (start num) (same.maximalRun rfl rfl run) points long
  | real num run hw hf => exact .real (start num) (same.maximalRun rfl rfl run) hw hf
  | manyPoints num run points => exact .manyPoints (start num) (same.maximalRun rfl rfl run) points
  | comment run => exact .comment (same.maximalRun rfl rfl run)
  | string inside => exact .string inside
  | unterminated inside behind =>
    refine .unterminated inside fun c hc => ?_
    -- A character that ends no line would stand behind the string in either text.
    cases he : Text.isLineEnd c with
    | true => rfl
    | false => exact he.symm.trans (behind c (same.symm.head hc he))
  | symbol sym longest =>
    exact .symbol ((same.append_left _).startsSymbol sym) (same.longestSpelling longest)
  | stray sym missing =>
    refine .stray (same.startsSymbol sym) fun y lexeme hy start => missing y lexeme hy ?_
    exact (same.append_left [_]).symm.begins hy.isLineEnd_eq_false start

theorem sameLine_append_newline (rest more : List Char) :
    SameLine rest (rest ++ '\n' :: more) := by
  have behind : SameLine [] ('\n' :: more) := rfl
  have line := behind.append_left rest
  rwa [List.append_nil] at line

/-- A line feed that is put behind the text of a token does not change it. -/
theorem Lexes.append_newline {x rest : List Char} {lexeme : Except Fault Lexeme}
    (more : List Char) (h : Lexes x rest lexeme) : Lexes x (rest ++ '\n' :: more) lexeme :=
  h.of_sameLine (sameLine_append_newline rest more)

/-! ## Joined texts -/

/-- Blanks in front of a text belong to its first token. -/
theorem Segments.blanks_append {file : String} {p : Position} {fresh : Bool}
    {blanks text : List Char} {ts : List Token} (hb : ∀ c ∈ blanks, Text.isBlank c = true)
    (h : Segments file (p.afterAll blanks) (fresh || blanks.contains '\n') text ts) :
    Segments file p fresh (blanks ++ text) ts := by
  generalize hq : p.afterAll blanks = q at h
  generalize hf : (fresh || blanks.contains '\n') = fresh' at h
  cases h with
  | last ho =>
    have last : Segments file p fresh (blanks ++ text) _ :=
      .last (List.forall_mem_append.2 ⟨hb, ho⟩)
    rw [Position.afterAll_append, List.contains_append, ← Bool.or_assoc, hq, hf] at last
    exact last
  | @token _ _ others first x rest lexeme ts ho hfirst hl hts =>
    rw [← hq, ← Position.afterAll_append, ← List.append_assoc] at hts
    have token : Segments file p fresh _ _ :=
      .token (List.forall_mem_append.2 ⟨hb, ho⟩) hfirst hl hts
    rw [Position.afterAll_append, List.contains_append, ← Bool.or_assoc, hq, hf,
      List.append_assoc] at token
    exact token

theorem Segments.ne_nil {file : String} {p : Position} {fresh : Bool} {text : List Char}
    {ts : List Token} (h : Segments file p fresh text ts) : ts ≠ [] := by
  cases h <;> exact List.cons_ne_nil _ _

/-- The tokens of a text, and those of another one on the next line. -/
theorem Segments.join {file : String} {p : Position} {fresh : Bool} {text text' : List Char}
    {ts us : List Token} (h : Segments file p fresh text ts)
    (h' : Segments file (p.afterAll (text ++ ['\n'])) true text' us) :
    Segments file p fresh (text ++ '\n' :: text') (ts.dropLast ++ us) := by
  induction h with
  | @last p fresh blanks hb =>
    -- The line feed is one more blank in front of the other text.
    have blank : ∀ c ∈ blanks ++ ['\n'], Text.isBlank c = true :=
      List.forall_mem_append.2 ⟨hb, List.forall_mem_singleton.2 Text.isBlank_newline⟩
    have joined : Segments file p fresh ((blanks ++ ['\n']) ++ text') us :=
      .blanks_append blank (by simpa using h')
    rwa [List.append_assoc] at joined
  | @token p fresh blanks first others rest lexeme ts hb hf hl hts ih =>
    have rest' := ih (by
      rwa [← Position.afterAll_append, ← List.append_assoc, List.append_assoc blanks])
    have token : Segments file p fresh _ _ := .token hb hf (hl.append_newline text') rest'
    rw [List.dropLast_cons_of_ne_nil hts.ne_nil, List.append_assoc, List.append_assoc]
    exact token

/-- The number of lines by which a text moves down what is put on the line
    behind it. -/
def linesOf (text : List Char) : Nat := 1 + text.count '\n'

theorem Position.afterAll_newline (text : List Char) :
    Position.start.afterAll (text ++ ['\n']) = Position.start.down (linesOf text) := by
  rw [afterAll_start, behind_concat]
  simp [after, down, start, behind, linesOf]
  omega

theorem Scanner.splits_join {file A B : String} {ts us : List Token}
    (hA : (ofText file A).Splits ts) (hB : (ofText file B).Splits us) :
    (ofText file (A ++ "\n" ++ B)).Splits
      (ts.dropLast ++ us.map (Token.down (linesOf A.toList))) := by
  refine ⟨rfl, ?_⟩
  have text : (A ++ "\n" ++ B).toList = A.toList ++ '\n' :: B.toList := by
    simp [String.toList_append]
  have down := hB.2.down (linesOf A.toList)
  change Segments file .start true (A ++ "\n" ++ B).toList _
  rw [text]
  refine hA.2.join ?_
  rw [show (ofText file A).position = .start from rfl, show (ofText file A).rest = A.toList from rfl,
    Position.afterAll_newline]
  exact down

end Soul
