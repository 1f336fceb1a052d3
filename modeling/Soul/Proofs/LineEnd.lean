import Soul.Proofs.Stream

/-!
# Carriage returns at line ends

A carriage return in front of each line feed changes nothing: the tokens of the text, the
errors and the program that is read are the same, all places included
(`readProgram_withReturns`).

A carriage return is a blank, and it ends a comment or an unclosed string as a line feed
does. So each line has the characters it had (`sameLine_withReturns`), and the line feed
behind the carriage return takes the place back to the start of a line, where it would
have been (`Position.afterAll_withReturns`).
-/

namespace Soul

/-- The characters, with a carriage return in front of each line feed. -/
def withReturns (chars : List Char) : List Char :=
  chars.flatMap fun c => if c = '\n' then ['\r', '\n'] else [c]

theorem withReturns_newline (chars : List Char) :
    withReturns ('\n' :: chars) = '\r' :: '\n' :: withReturns chars := rfl

theorem withReturns_cons {c : Char} (hc : c ≠ '\n') (chars : List Char) :
    withReturns (c :: chars) = c :: withReturns chars := by
  rw [withReturns, List.flatMap_cons, if_neg hc]
  rfl

theorem withReturns_append (xs ys : List Char) :
    withReturns (xs ++ ys) = withReturns xs ++ withReturns ys :=
  List.flatMap_append

theorem withReturns_eq_self {chars : List Char} (h : '\n' ∉ chars) : withReturns chars = chars := by
  induction chars with
  | nil => rfl
  | cons c chars ih =>
    rw [withReturns_cons (List.ne_of_not_mem_cons h).symm, ih (List.not_mem_of_not_mem_cons h)]

theorem mem_withReturns {c : Char} {chars : List Char} (h : c ∈ withReturns chars) :
    c ∈ chars ∨ c = '\r' := by
  obtain ⟨d, hd, hc⟩ := List.mem_flatMap.1 h
  split at hc
  · next hn =>
    subst hn
    rcases List.mem_cons.1 hc with rfl | hc
    · exact .inr rfl
    · exact .inl (List.mem_singleton.1 hc ▸ hd)
  · exact .inl (List.mem_singleton.1 hc ▸ hd)

theorem contains_withReturns (chars : List Char) :
    (withReturns chars).contains '\n' = chars.contains '\n' := by
  rw [Bool.eq_iff_iff, List.contains_iff_mem, List.contains_iff_mem]
  constructor
  · intro h
    exact (mem_withReturns h).resolve_right (by decide)
  · intro h
    exact List.mem_flatMap.2 ⟨'\n', h, by simp⟩

/-- A line feed leads to the start of the next line, whatever stands before it. -/
theorem Position.afterAll_withReturns (p : Position) (chars : List Char) :
    p.afterAll (withReturns chars) = p.afterAll chars := by
  induction chars generalizing p with
  | nil => rfl
  | cons c chars ih =>
    by_cases hc : c = '\n'
    · subst hc
      rw [withReturns_newline, afterAll_cons, afterAll_cons, ih, afterAll_cons]
      rfl
    · rw [withReturns_cons hc, afterAll_cons, afterAll_cons, ih]

theorem sameLine_withReturns (chars : List Char) : SameLine chars (withReturns chars) := by
  induction chars with
  | nil => rfl
  | cons c chars ih =>
    by_cases hc : c = '\n'
    · subst hc
      rfl
    · rw [withReturns_cons hc]
      exact ih.append_left [c]

/-- The text has the same tokens at the same places. -/
theorem Segments.withReturns {file : String} {p : Position} {fresh : Bool} {text : List Char}
    {ts : List Token} (h : Segments file p fresh text ts) :
    Segments file p fresh (withReturns text) ts := by
  have blank {blanks : List Char} (hb : ∀ c ∈ blanks, Text.isBlank c = true) :
      ∀ c ∈ Soul.withReturns blanks, Text.isBlank c = true := by
    intro c hc
    obtain hc | rfl := mem_withReturns hc
    · exact hb c hc
    · exact Text.isBlank_return
  induction h with
  | @last p fresh blanks hb =>
    have last : Segments file p fresh _ _ := .last (blank hb)
    rwa [Position.afterAll_withReturns, contains_withReturns] at last
  | @token p fresh blanks first others rest lexeme ts hb hf hl _ ih =>
    have inside : Soul.withReturns (first :: others) = first :: others := by
      refine withReturns_eq_self (hl.newline_not_mem ?_)
      rintro _ ⟨⟩
      exact hf
    have behind : p.afterAll (Soul.withReturns blanks ++ first :: others) =
        p.afterAll (blanks ++ first :: others) := by
      rw [← inside, ← withReturns_append, Position.afterAll_withReturns, inside]
    rw [← behind] at ih
    have token : Segments file p fresh _ _ :=
      .token (blank hb) hf (hl.of_sameLine (sameLine_withReturns rest)) ih
    rw [Position.afterAll_withReturns, contains_withReturns] at token
    rwa [withReturns_append, withReturns_append, inside]

theorem Scanner.splits_withReturns {file text : String} {ts : List Token}
    (h : (ofText file text).Splits ts) :
    (ofText file (String.ofList (withReturns text.toList))).Splits ts := by
  have segments : Segments file .start true (withReturns text.toList) ts := h.2.withReturns
  rw [ofText, String.toList_ofList]
  exact ⟨rfl, segments⟩

/-- The reading of a program knows of its source no more than the name of the file and
    what can be fetched. -/
theorem readProgram_congr {source source' : Scanner} {skip : Bool} {nesting : Int}
    {consumer : Consumer} {journal : Journal} (file : source'.file = source.file)
    (fetches : source'.fetches skip = source.fetches skip) :
    readProgram source' skip nesting consumer journal =
      readProgram source skip nesting consumer journal := by
  unfold readProgram readProgramBy
  rw [file, fetches]

/-- Carriage returns in front of the line feeds of a text change nothing: its tokens are
    the same in everything, and so are the errors that a stream of them collects. The
    reading of the text as a program comes to the same outcome, and goes to its end unless
    a consumer breaks it off. (The text may have other carriage returns as well.) -/
theorem readProgram_withReturns (file text : String) (skip : Bool) (limit : Int)
    (fit : NumbersFit text.toList) :
    let text' := String.ofList (withReturns text.toList)
    let batch := (TokenStream.start (.ofText file text) skip limit).rest
    let batch' := (TokenStream.start (.ofText file text') skip limit).rest
    batch.fault = none ∧ batch'.fault = none ∧ batch'.tokens = batch.tokens ∧
      batch'.stream.journal = batch.stream.journal ∧
      batch'.stream.count = batch.stream.count ∧
      (∀ (nesting : Int) (consumer : Consumer) (journal : Journal),
        readProgram (.ofText file text') skip nesting consumer journal =
          readProgram (.ofText file text) skip nesting consumer journal) ∧
      ∀ (nesting : Int) (journal : Journal),
        (readProgram (.ofText file text) skip nesting .all journal).stop = none := by
  intro text'
  obtain ⟨ts, hts⟩ := Scanner.splits_ofText file fit
  have hts' : (Scanner.ofText file text').Splits ts := Scanner.splits_withReturns hts
  -- From here on a text is no more than the tokens it splits into.
  clear_value text'
  obtain ⟨fault, tokens, journal, count⟩ := TokenStream.rest_start_of_splits skip limit hts
  obtain ⟨fault', tokens', journal', count'⟩ := TokenStream.rest_start_of_splits skip limit hts'
  refine ⟨fault, fault', ?_, ?_, ?_, ?_, ?_⟩
  · rw [tokens', tokens]
  · rw [journal', journal]
  · rw [count', count]
  · intro nesting consumer journal
    refine readProgram_congr rfl ?_
    rw [hts'.fetches_eq, hts.fetches_eq]
  · intro nesting journal
    obtain ⟨s, -, run⟩ := runs_readProgram hts skip nesting .all journal
    exact run.stop_eq_none

/-- A comment, an unclosed string, a number and an operator in front of line feeds. -/
theorem readProgram_withReturns_open_string :
    let text := "f (1. ;c\n\"ab\n\n.g| = <\n"
    let text' := "f (1. ;c\r\n\"ab\r\n\r\n.g| = <\r\n"
    NumbersFit text.toList ∧ text'.toList = withReturns text.toList ∧
      readProgram (.ofText "main" text') false 100 .all (.empty 100) =
        readProgram (.ofText "main" text) false 100 .all (.empty 100) := by
  intro text text'
  have fit : NumbersFit text.toList := by decide +kernel
  have returns : text'.toList = withReturns text.toList := by decide +kernel
  obtain ⟨-, -, -, -, -, same, -⟩ := readProgram_withReturns "main" text false 100 fit
  rw [← returns, String.ofList_toList] at same
  exact ⟨fit, returns, same 100 .all (.empty 100)⟩

end Soul
