import Soul.Proofs.CommentFree

/-!
# Token streams

A token stream counts the tokens that it hands out and collects the errors of those that
are none of the language (`TokenStream.Records`). So what it has counted and collected
can be told from the tokens, whether it was asked for all of them at once or one by one.

From this follow two statements about whole texts.

* Lines are cut into tokens independently of each other (`TokenStream.rest_lines`): a line
  feed between two texts ends whatever the first one leaves open, and behind it the second
  one is as it would be alone, some lines further down.
* To pass over comments is to leave them out (`TokenStream.rest_skipComments`). This is so
  too if the setting is changed between any two tokens (`Omits`): only comments are left
  out, and only on the way to a token that was asked for with comments passed over.
-/

namespace Soul

/-! ## What a stream records -/

namespace TokenStream

/-- The stream `s` has handed out the tokens `ts`, and then it is `s'`. -/
structure Records (s : TokenStream) (ts : List Token) (s' : TokenStream) : Prop where
  journal : s'.journal = s.journal.recordAll (ts.filterMap Token.diagnostic?)
  count : s'.count = s.count + ts.length

variable {s s' s'' : TokenStream} {ts us : List Token}

theorem Records.refl (s : TokenStream) : s.Records [] s := ⟨rfl, rfl⟩

theorem Records.trans (h : s.Records ts s') (h' : s'.Records us s'') :
    s.Records (ts ++ us) s'' where
  journal := by
    rw [h'.journal, h.journal, List.filterMap_append]
    exact List.foldl_append.symm
  count := by rw [h'.count, h.count, List.length_append, Nat.add_assoc]

theorem next_records (s : TokenStream) : s.Records s.next.1.toOption.toList s.next.2 := by
  unfold next
  split
  · exact ⟨rfl, rfl⟩
  · next token _ _ =>
    refine ⟨?_, rfl⟩
    change s.journal.recordAll _ = s.journal.recordAll ([token].filterMap Token.diagnostic?)
    cases h : token.diagnostic? <;> simp [h]

theorem restWithin_records (rounds : Nat) (s : TokenStream) :
    s.Records (s.restWithin rounds).tokens (s.restWithin rounds).stream := by
  induction rounds generalizing s with
  | zero => exact .refl s
  | succ rounds ih =>
    have first := s.next_records
    unfold restWithin
    split
    · next hn => exact (hn ▸ first :)
    · next token s' hn =>
      rw [hn] at first
      split
      · exact first
      · exact first.trans (ih s')

/-- What a stream of a source has come to when it has handed out all tokens. -/
theorem rest_start_records (source : Scanner) (skip : Bool) (limit : Int) :
    let batch := (start source skip limit).rest
    batch.stream.journal =
        (Journal.empty limit).recordAll (batch.tokens.filterMap Token.diagnostic?) ∧
      batch.stream.count = batch.tokens.length := by
  intro batch
  obtain ⟨journal, count⟩ := restWithin_records (source.rest.length + 1) (start source skip limit)
  exact ⟨journal, count.trans (Nat.zero_add _)⟩

/-- What a fresh stream reads and collects is a matter of the tokens alone. -/
theorem rest_start_of_splits {source : Scanner} {ts : List Token} (skip : Bool)
    (limit : Int) (h : source.Splits ts) :
    (start source skip limit).rest.fault = none ∧
      (start source skip limit).rest.tokens = shown skip ts ∧
      (start source skip limit).rest.stream.journal =
        (Journal.empty limit).recordAll ((shown skip ts).filterMap Token.diagnostic?) ∧
      (start source skip limit).rest.stream.count = (shown skip ts).length := by
  obtain ⟨fault, tokens, -⟩ := rest_of_splits (s := .start source skip limit) h
  obtain ⟨journal, count⟩ := rest_start_records source skip limit
  rw [tokens] at journal count
  exact ⟨fault, tokens, journal, count⟩

end TokenStream

/-! ## Lines -/

/-- The diagnostic `n` lines further down. -/
def Diagnostic.down (n : Nat) (d : Diagnostic) : Diagnostic :=
  { d with location := d.location.map (Location.down n) }

/-- The payload `n` lines further down: a problem of the source moves with it. -/
def Payload.down (n : Nat) : Payload → Payload
  | .problem (.diagnostic d) => .problem (.diagnostic (d.down n))
  | payload => payload

/-- The token as a listing shows it, `n` lines further down. -/
def TokenRecord.down (n : Nat) (r : TokenRecord) : TokenRecord :=
  { r with payload := r.payload.down n, location := r.location.down n }

theorem Token.record_down (n : Nat) (t : Token) : (t.down n).record = t.record.down n := by
  obtain ⟨lexeme, file, position, startsLine⟩ := t
  have location := Token.location_down n ⟨lexeme, file, position, startsLine⟩
  unfold record TokenRecord.down
  rw [location]
  cases lexeme <;> rfl

theorem filterMap_diagnostic?_down (n : Nat) (ts : List Token) :
    (ts.map (Token.down n)).filterMap Token.diagnostic? =
      (ts.filterMap Token.diagnostic?).map (Diagnostic.down n) := by
  rw [List.filterMap_map, List.map_filterMap]
  exact List.filterMap_congr fun t _ => Token.diagnostic?_down n t

/-- The end of the input is no error. -/
theorem Ended.filterMap_diagnostic?_dropLast {ts : List Token} (h : Ended ts) :
    ts.dropLast.filterMap Token.diagnostic? = ts.filterMap Token.diagnostic? := by
  obtain ⟨us, e, rfl, he⟩ := h.exists_concat
  have none : e.diagnostic? = none := by simp [Token.diagnostic?, he]
  rw [List.dropLast_concat, List.filterMap_append]
  simp [none]

/-- Lines are cut into tokens independently of each other. Two texts that are joined by a
    line feed have the tokens of the first one, but for the end of the input, and then
    those of the second one, moved down by the lines of the first. The errors come in the
    same order, and those of the second text are moved down as well. -/
theorem TokenStream.rest_lines (file A B : String) (skip : Bool) (limit : Int)
    (fitA : NumbersFit A.toList) (fitB : NumbersFit B.toList) :
    let batch (text : String) := (TokenStream.start (.ofText file text) skip limit).rest
    let errors (text : String) := (batch text).stream.journal.diagnostics.errors
    let n := 1 + A.toList.count '\n'
    (batch A).fault = none ∧ (batch B).fault = none ∧ (batch (A ++ "\n" ++ B)).fault = none ∧
      Ended (batch A).tokens ∧
      (batch (A ++ "\n" ++ B)).tokens =
        (batch A).tokens.dropLast ++ (batch B).tokens.map (Token.down n) ∧
      (batch (A ++ "\n" ++ B)).tokens.map Token.record =
        (batch A).tokens.dropLast.map Token.record ++
          ((batch B).tokens.map Token.record).map (TokenRecord.down n) ∧
      errors (A ++ "\n" ++ B) = errors A ++ (errors B).map (Diagnostic.down n) := by
  intro batch errors n
  obtain ⟨ts, hA⟩ := Scanner.splits_ofText file fitA
  obtain ⟨us, hB⟩ := Scanner.splits_ofText file fitB
  have collected {text : String} {vs : List Token} (h : (Scanner.ofText file text).Splits vs) :
      errors text = (batch text).tokens.filterMap Token.diagnostic? := by
    obtain ⟨-, tokens, journal, -⟩ := rest_start_of_splits skip limit h
    rw [tokens]
    exact (congrArg (·.diagnostics.errors) journal).trans (Journal.errors_recordAll _ _)
  have hAB := Scanner.splits_join hA hB
  obtain ⟨faultA, tokensA, -⟩ := rest_start_of_splits skip limit hA
  obtain ⟨faultB, tokensB, -⟩ := rest_start_of_splits skip limit hB
  obtain ⟨fault, tokens, -⟩ := rest_start_of_splits skip limit hAB
  have ended : Ended (batch A).tokens := tokensA ▸ hA.2.ended.shown skip
  have joined : (batch (A ++ "\n" ++ B)).tokens =
      (batch A).tokens.dropLast ++ (batch B).tokens.map (Token.down n) := by
    rw [tokens, tokensA, tokensB]
    exact shown_join skip n us hA.2.ended
  refine ⟨faultA, faultB, fault, ended, joined, ?_, ?_⟩
  · have records : Token.record ∘ Token.down n = TokenRecord.down n ∘ Token.record :=
      funext (Token.record_down n)
    rw [joined, List.map_append, List.map_map, List.map_map, records]
  · rw [collected hAB, collected hA, collected hB, joined, List.filterMap_append,
      ended.filterMap_diagnostic?_dropLast, filterMap_diagnostic?_down]

/-- An operator that could grow and a string that is not closed, and then, on the next
    line, what would have made the operator longer. -/
theorem TokenStream.rest_lines_open_string :
    let batch (text : String) := (TokenStream.start (.ofText "main" text) false 100).rest
    let A := "x <\n\"ab <"
    let B := "|= 1.2.3 ;c"
    NumbersFit A.toList ∧ NumbersFit B.toList ∧
      (batch (A ++ "\n" ++ B)).tokens =
        (batch A).tokens.dropLast ++ (batch B).tokens.map (Token.down 2) := by
  intro batch A B
  have fitA : NumbersFit A.toList := by decide +kernel
  have fitB : NumbersFit B.toList := by decide +kernel
  have lines : 1 + A.toList.count '\n' = 2 := by decide +kernel
  obtain ⟨-, -, -, -, tokens, -⟩ := rest_lines "main" A B false 100 fitA fitB
  rw [lines] at tokens
  exact ⟨fitA, fitB, tokens⟩

/-! ## Comments -/

namespace Scanner

/-- Scans `n` tokens, comments among them. -/
def scans : (n : Nat) → Scanner → List (Except Fault Token) × Scanner
  | 0, s => ([], s)
  | n + 1, s =>
    let first := s.scan
    let others := scans n first.2
    (first.1 :: others.1, others.2)

theorem scans_add (m n : Nat) (s : Scanner) : s.scans (m + n) =
    ((s.scans m).1 ++ ((s.scans m).2.scans n).1, ((s.scans m).2.scans n).2) := by
  induction m generalizing s with
  | zero => rw [Nat.zero_add]; rfl
  | succ m ih => rw [Nat.succ_add, scans, ih]; rfl

theorem next_false (s : Scanner) : s.next false = s.scan := by
  unfold next
  cases s.rest with
  | nil => rfl
  | cons c rest =>
    rw [nextWithin]
    split
    · next h => rw [h]; rfl
    · rfl

/-- Behind a comment there is less left. -/
theorem length_rest_of_comment {s s' : Scanner} {t : Token} (h : s.scan = (.ok t, s'))
    (ht : t.isComment = true) : s'.rest.length < s.rest.length := by
  have blanks : s.skipBlanks.rest.length ≤ s.rest.length :=
    (List.dropWhile_sublist Text.isBlank).length_le
  unfold scan at h
  dsimp only at h
  split at h
  · cases h
  · cases hr : s.skipBlanks.rest with
    | nil =>
      rw [scanHere, hr] at h
      cases h
      cases ht
    | cons first others =>
      have behind : s'.rest = (Cut.of first others).rest := by rw [← scanHere_rest hr, h]
      rw [behind]
      exact (hr ▸ Cut.of_rest_length_lt first others).trans_le blanks

/-- From `s` on, the comments are passed over, if `skip` allows for it, and then comes
    `f`, behind which the scanner is `s'`. -/
structure ComesTo (skip : Bool) (s : Scanner) (comments : List Token) (f : Except Fault Token)
    (s' : Scanner) : Prop where
  scans : s.scans (comments.length + 1) = (comments.map .ok ++ [f], s')
  isComment : ∀ t ∈ comments, t.isComment = true
  allowed : comments ≠ [] → skip = true
  shown : skip = true → ∀ t, f = .ok t → t.isComment = false

theorem nextWithin_comesTo (skip : Bool) (rounds : List Char) (s : Scanner)
    (enough : s.rest.length ≤ rounds.length) :
    ∃ comments, s.ComesTo skip comments (s.nextWithin skip rounds).1
      (s.nextWithin skip rounds).2 := by
  induction rounds generalizing s with
  | nil =>
    refine ⟨[], rfl, List.forall_mem_nil _, absurd rfl, fun _ t ht => ?_⟩
    refine Bool.eq_false_iff.2 fun hc => ?_
    -- Without characters there is no comment.
    have shorter := length_rest_of_comment (Prod.ext ht rfl) hc
    rw [List.length_nil] at enough
    omega
  | cons c rounds ih =>
    obtain ⟨f, s', hs⟩ : ∃ f s', s.scan = (f, s') := ⟨_, _, rfl⟩
    have here (shown : skip = true → ∀ t, f = .ok t → t.isComment = false) :
        s.ComesTo skip [] f s' :=
      ⟨by rw [List.length_nil, scans, hs]; rfl, List.forall_mem_nil _, absurd rfl, shown⟩
    cases f with
    | error fault =>
      rw [nextWithin, hs]
      refine ⟨[], here ?_⟩
      rintro - t ⟨⟩
    | ok t =>
      cases hc : skip && t.isComment with
      | false =>
        have given : s.nextWithin skip (c :: rounds) = (.ok t, s') := by simp [nextWithin, hs, hc]
        rw [given]
        refine ⟨[], here ?_⟩
        rintro rfl _ ⟨⟩
        exact hc
      | true =>
        obtain ⟨hskip, ht⟩ := Bool.and_eq_true_iff.1 hc
        have shorter := length_rest_of_comment hs ht
        have passed : s.nextWithin skip (c :: rounds) = s'.nextWithin skip rounds := by
          simp [nextWithin, hs, hc]
        rw [passed]
        rw [List.length_cons] at enough
        obtain ⟨comments, found⟩ := ih s' (by omega)
        refine ⟨t :: comments, ?_, List.forall_mem_cons.2 ⟨ht, found.isComment⟩, fun _ => hskip,
          found.shown⟩
        rw [List.length_cons, scans, hs, found.scans]
        rfl

theorem next_comesTo (skip : Bool) (s : Scanner) :
    ∃ comments, s.ComesTo skip comments (s.next skip).1 (s.next skip).2 :=
  nextWithin_comesTo skip s.rest s (Nat.le_refl _)

end Scanner

/-- What is given, a fetch for each of `skips`, is `all` without some comments. Each of
    them is left out on the way to a fetch for which comments are passed over. -/
inductive Omits : (skips : List Bool) → (given all : List (Except Fault Token)) → Prop
  | done : Omits [] [] []
  | fetch {skip : Bool} {skips : List Bool} {comments : List Token} {f : Except Fault Token}
      {given all : List (Except Fault Token)} : (∀ t ∈ comments, t.isComment = true) →
      (comments ≠ [] → skip = true) → (skip = true → ∀ t, f = .ok t → t.isComment = false) →
      Omits skips given all → Omits (skip :: skips) (f :: given) (comments.map .ok ++ f :: all)

namespace Omits

variable {skips : List Bool} {given all : List (Except Fault Token)}

/-- What is left out are tokens, but no errors. -/
theorem tokens (h : Omits skips given all) :
    (all.filterMap Except.toOption).filterMap Token.diagnostic? =
        (given.filterMap Except.toOption).filterMap Token.diagnostic? ∧
      (all.filterMap Except.toOption).length + given.length =
        (given.filterMap Except.toOption).length + all.length := by
  induction h with
  | done => exact ⟨rfl, rfl⟩
  | @fetch skip skips comments f given all hc _ _ _ ih =>
    obtain ⟨errors, length⟩ := ih
    have plain : (comments.map Except.ok).filterMap (Except.toOption (ε := Fault)) = comments := by
      rw [List.filterMap_map]
      exact List.filterMap_some
    have none : comments.filterMap Token.diagnostic? = [] :=
      List.filterMap_eq_nil_iff.2 fun t ht => by
        obtain ⟨body, hb⟩ := Token.isComment_iff.1 (hc t ht)
        rw [Token.diagnostic?, hb]
    rw [List.filterMap_append, plain, List.filterMap_append, none, List.nil_append]
    cases hf : f.toOption with
    | none =>
      simp only [List.filterMap_cons, hf, List.length_append, List.length_cons, List.length_map]
      exact ⟨errors, by omega⟩
    | some t =>
      simp only [List.filterMap_cons, hf, List.length_append, List.length_cons, List.length_map]
      exact ⟨by rw [errors], by omega⟩

end Omits

namespace TokenStream

/-- Hands out a token for each of `skips`, which says whether comments are passed over on
    the way to it. -/
def nextEach : (skips : List Bool) → TokenStream → List (Except Fault Token) × TokenStream
  | [], s => ([], s)
  | skip :: skips, s =>
    let first := { s with skipComments := skip }.next
    let others := nextEach skips first.2
    (first.1 :: others.1, others.2)

theorem length_nextEach (skips : List Bool) (s : TokenStream) :
    (s.nextEach skips).1.length = skips.length := by
  induction skips generalizing s with
  | nil => rfl
  | cons skip skips ih => exact congrArg (· + 1) (ih _)

theorem next_scanner (s : TokenStream) :
    (s.next.1, s.next.2.scanner) = s.scanner.next s.skipComments := by
  unfold next
  split
  · next h => exact h.symm
  · next h => exact h.symm

theorem nextEach_records (skips : List Bool) (s : TokenStream) :
    s.Records ((s.nextEach skips).1.filterMap Except.toOption) (s.nextEach skips).2 := by
  induction skips generalizing s with
  | nil => exact .refl s
  | cons skip skips ih =>
    have first : s.Records _ _ :=
      have := next_records { s with skipComments := skip }
      ⟨this.journal, this.count⟩
    have all := first.trans (ih _)
    rw [nextEach, List.filterMap_cons]
    cases hf : (next { s with skipComments := skip }).1.toOption with
    | none => rwa [hf] at all
    | some t => rwa [hf] at all

/-- Where comments are not passed over, each token is scanned. -/
theorem nextEach_scans (n : Nat) (s : TokenStream) :
    ((s.nextEach (List.replicate n false)).1, (s.nextEach (List.replicate n false)).2.scanner) =
      s.scanner.scans n := by
  induction n generalizing s with
  | zero => rfl
  | succ n ih =>
    have first := next_scanner { s with skipComments := false }
    rw [Scanner.next_false] at first
    rw [List.replicate_succ, nextEach, Scanner.scans, ← first, ← ih]

/-- However the setting is changed between any two tokens, a stream hands out its tokens
    less some comments, and then stands where it would stand otherwise. -/
theorem nextEach_omits (skips : List Bool) (s : TokenStream) :
    ∃ n, Omits skips (s.nextEach skips).1 (s.scanner.scans n).1 ∧
      (s.nextEach skips).2.scanner = (s.scanner.scans n).2 := by
  induction skips generalizing s with
  | nil => exact ⟨0, .done, rfl⟩
  | cons skip skips ih =>
    obtain ⟨comments, found⟩ := s.scanner.next_comesTo skip
    have first := next_scanner { s with skipComments := skip }
    rw [← first] at found
    obtain ⟨n, omits, same⟩ := ih (next { s with skipComments := skip }).2
    refine ⟨comments.length + 1 + n, ?_⟩
    rw [Scanner.scans_add, found.scans, List.append_assoc]
    exact ⟨.fetch found.isComment found.allowed found.shown omits, same⟩

/-- A text without overlong integers never has a fault in place of a token. -/
theorem nextEach_ok (skips : List Bool) {s : TokenStream}
    (h : (∃ ts, s.scanner.Splits ts) ∨ ∃ p, s.scanner.Done p) :
    ∀ f ∈ (s.nextEach skips).1, ∃ t, f = .ok t := by
  induction skips generalizing s with
  | nil => exact List.forall_mem_nil _
  | cons skip skips ih =>
    have first := next_scanner { s with skipComments := skip }
    -- Before the end of the input as behind it, there is a next token.
    obtain ⟨t, s', hs, later⟩ : ∃ t s', s.scanner.next skip = (.ok t, s') ∧
        ((∃ ts, s'.Splits ts) ∨ ∃ p, s'.Done p) := by
      obtain ⟨ts, hts⟩ | ⟨p, hp⟩ := h
      · obtain ⟨t, s', hs, ⟨-, -, done⟩ | ⟨ts', -, -, hts', -⟩⟩ := hts.next skip
        · exact ⟨t, s', hs, .inr ⟨_, done⟩⟩
        · exact ⟨t, s', hs, .inl ⟨ts', hts'⟩⟩
      · obtain ⟨t, s', hs, -, -, done⟩ := hp.next skip
        exact ⟨t, s', hs, .inr ⟨p, done⟩⟩
    obtain ⟨given, behind⟩ := Prod.mk.inj (first.trans hs)
    exact List.forall_mem_cons.2 ⟨⟨t, given⟩, ih (behind ▸ later)⟩

/-- To pass over comments is to leave them out: the other tokens are the same in
    everything, the errors are too, and only the comments are not counted. If the setting
    is changed between tokens, these are still the tokens of the text less some comments,
    which are left out only where comments are passed over. -/
theorem rest_skipComments (file text : String) (limit : Int) (fit : NumbersFit text.toList) :
    let kept := (start (.ofText file text) false limit).rest
    let dropped := (start (.ofText file text) true limit).rest
    kept.fault = none ∧ dropped.fault = none ∧
      dropped.tokens = kept.tokens.filter (!·.isComment) ∧
      dropped.stream.journal = kept.stream.journal ∧
      dropped.stream.count + kept.tokens.countP Token.isComment = kept.stream.count ∧
      ∀ (skip : Bool) (skips : List Bool),
        let s := start (.ofText file text) skip limit
        ∃ n,
          let given := s.nextEach skips
          let all := s.nextEach (List.replicate n false)
          Omits skips given.1 all.1 ∧ (∀ f ∈ all.1, ∃ t, f = .ok t) ∧
            given.2.scanner = all.2.scanner ∧ given.2.journal = all.2.journal ∧
            given.2.count + n = all.2.count + skips.length := by
  intro kept dropped
  obtain ⟨ts, hts⟩ := Scanner.splits_ofText file fit
  obtain ⟨faultK, tokensK, journalK, countK⟩ := rest_start_of_splits false limit hts
  obtain ⟨faultD, tokensD, journalD, countD⟩ := rest_start_of_splits true limit hts
  have hkept : kept.tokens = ts := tokensK.trans (shown_false ts)
  refine ⟨faultK, faultD, ?_, ?_, ?_, fun skip skips => ?_⟩
  · rw [hkept]
    exact tokensD
  · have errors := (filterMap_diagnostic?_shown true ts).trans
      (filterMap_diagnostic?_shown false ts).symm
    exact journalD.trans ((congrArg _ errors).trans journalK.symm)
  · have parts := List.length_eq_countP_add_countP Token.isComment (l := ts)
    have others : (shown true ts).length = ts.countP fun t => ¬t.isComment = true := by
      rw [shown_true, bare, List.countP_eq_length_filter]
      simp
    have count : kept.stream.count = ts.length := countK.trans (by rw [shown_false])
    rw [count, hkept, countD, others, parts, Nat.add_comm]
  · intro s
    obtain ⟨n, omits, same⟩ := nextEach_omits skips s
    obtain ⟨all, scanner⟩ := Prod.mk.inj (nextEach_scans n s)
    rw [← all] at omits
    rw [← scanner] at same
    have recordsG := nextEach_records skips s
    have recordsA := nextEach_records (List.replicate n false) s
    obtain ⟨errors, length⟩ := omits.tokens
    refine ⟨n, omits, nextEach_ok _ (.inl ⟨ts, hts⟩), same, ?_, ?_⟩
    · rw [recordsG.journal, recordsA.journal, errors]
    · rw [length_nextEach, length_nextEach, List.length_replicate] at length
      rw [recordsG.count, recordsA.count]
      omega

/-- Comments that a carriage return or the end of the text ends, one of them in front of a
    dot that is not the first token of its line. Of four calls, the second and the third
    pass over comments. -/
theorem rest_skipComments_returns :
    let text := "a ;x\r.b ;y\n;z\n ? ;w"
    let kept := (start (.ofText "main" text) false 100).rest
    let dropped := (start (.ofText "main" text) true 100).rest
    NumbersFit text.toList ∧ kept.tokens.length = 9 ∧ kept.tokens.countP Token.isComment = 4 ∧
      dropped.tokens = kept.tokens.filter (!·.isComment) ∧
      dropped.stream.count + 4 = kept.stream.count ∧
      ∃ n, Omits [false, true, true, false]
        ((start (.ofText "main" text) false 100).nextEach [false, true, true, false]).1
        ((start (.ofText "main" text) false 100).nextEach (List.replicate n false)).1 := by
  intro text kept dropped
  have fit : NumbersFit text.toList := by decide +kernel
  have length : kept.tokens.length = 9 := by decide +kernel
  have comments : kept.tokens.countP Token.isComment = 4 := by decide +kernel
  obtain ⟨-, -, tokens, -, count, calls⟩ := rest_skipComments "main" text 100 fit
  obtain ⟨n, omits, -⟩ := calls false [false, true, true, false]
  exact ⟨fit, length, comments, tokens, comments ▸ count, n, omits⟩

end TokenStream

end Soul
