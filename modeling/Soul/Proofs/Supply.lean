import Soul.Proofs.Grammar
import Soul.Proofs.Segment

/-!
# Texts with overlong integers

A text in which an integer has too many digits is cut into lexemes like any
other, but a fault comes in place of that integer. `Supplies` relates a text to
the tokens and faults that come of it, in order, with their places. Every text
has them (`exists_supplies`), and they are what a reading of the text can fetch,
comments perhaps left out (`Scanner.fetches_eq_shownFetches`).

There is a fault for each overlong integer and for nothing else: which fetches
are faults can be told from the lexemes of the text (`Supplies.map_fetchFault?`).

Of any source, be it one that breaks off, the fetches come to an end: the last one
is the end of the input or a fault (`Terminated`), and all tokens but that are lexed
from the source (`Token.IsLexed`).
-/

namespace Soul

/-- The text `chars` at the place `p` supplies the tokens and faults `fs`. That
    `p` is the start of its line, but for blanks and faults, is `fresh`. -/
inductive Supplies (file : String) :
    Position → Bool → List Char → List (Except Fault Token) → Prop
  | last {p : Position} {fresh : Bool} {blanks : List Char} :
      (∀ c ∈ blanks, Text.isBlank c = true) →
      Supplies file p fresh blanks
        [.ok ⟨.endOfInput, file, p.afterAll blanks, fresh || blanks.contains '\n'⟩]
  | token {p : Position} {fresh : Bool} {blanks : List Char} {first : Char}
      {others rest : List Char} {lexeme : Lexeme} {fs : List (Except Fault Token)} :
      (∀ c ∈ blanks, Text.isBlank c = true) → Text.isBlank first = false →
      Lexes (first :: others) rest (.ok lexeme) →
      Supplies file (p.afterAll (blanks ++ first :: others)) false rest fs →
      Supplies file p fresh (blanks ++ (first :: others ++ rest))
        (.ok ⟨lexeme, file, p.afterAll blanks, fresh || blanks.contains '\n'⟩ :: fs)
  /-- A fault counts as no token, so the line may still start behind it. -/
  | fault {p : Position} {fresh : Bool} {blanks : List Char} {first : Char}
      {others rest : List Char} {f : Fault} {fs : List (Except Fault Token)} :
      (∀ c ∈ blanks, Text.isBlank c = true) → Text.isBlank first = false →
      Lexes (first :: others) rest (.error f) →
      Supplies file (p.afterAll (blanks ++ first :: others)) (fresh || blanks.contains '\n')
        rest fs →
      Supplies file p fresh (blanks ++ (first :: others ++ rest)) (.error f :: fs)

/-- Every text supplies something. -/
theorem exists_supplies (file : String) (p : Position) (fresh : Bool) (chars : List Char) :
    ∃ fs, Supplies file p fresh chars fs := by
  -- By induction on the length: each lexeme leaves less of the text.
  induction hn : chars.length using Nat.strong_induction_on generalizing chars p fresh with
  | _ n ih =>
    cases h : chars.dropWhile Text.isBlank with
    | nil => exact ⟨_, .last (List.dropWhile_eq_nil_iff.1 h)⟩
    | cons first others =>
      obtain ⟨x, whole, -, lexes, blank⟩ := exists_token h
      have blanks := (maximalRun_takeWhile Text.isBlank chars).mem
      have shorter := hn ▸ length_rest_lt h
      cases hl : (Cut.of first others).lexeme with
      | ok lexeme =>
        obtain ⟨fs, hfs⟩ := ih _ shorter
          (p.afterAll (chars.takeWhile Text.isBlank ++ first :: x)) false _ rfl
        rw [whole]
        exact ⟨_, .token blanks blank (hl ▸ lexes) hfs⟩
      | error f =>
        obtain ⟨fs, hfs⟩ := ih _ shorter
          (p.afterAll (chars.takeWhile Text.isBlank ++ first :: x))
          (fresh || (chars.takeWhile Text.isBlank).contains '\n') _ rfl
        rw [whole]
        exact ⟨_, .fault blanks blank (hl ▸ lexes) hfs⟩

theorem Lexes.eq_overlongInteger {x rest : List Char} {f : Fault} (h : Lexes x rest (.error f)) :
    f = .overlongInteger x.length := by
  cases h
  rfl

/-! ## What can be fetched -/

/-- Tokens and faults of a source: the last one is the end of the input or a fault,
    and no other one is the end of the input. -/
inductive Terminated : List (Except Fault Token) → Prop
  | last {t : Token} : t.lexeme = .endOfInput → Terminated [.ok t]
  | broken {f : Fault} : Terminated [.error f]
  | token {t : Token} {fs : List (Except Fault Token)} : t.lexeme ≠ .endOfInput →
      Terminated fs → Terminated (.ok t :: fs)
  | fault {f : Fault} {fs : List (Except Fault Token)} : Terminated fs →
      Terminated (.error f :: fs)

/-- The fetch is a comment, and comments are passed over. -/
def isPassedOver (skip : Bool) : Except Fault Token → Bool
  | .ok t => skip && t.isComment
  | .error _ => false

/-- What is not passed over. -/
def shownFetches (skip : Bool) (fs : List (Except Fault Token)) : List (Except Fault Token) :=
  fs.filter fun f => !isPassedOver skip f

theorem shownFetches_cons_of_pos {skip : Bool} {f : Except Fault Token}
    {fs : List (Except Fault Token)} (h : isPassedOver skip f = true) :
    shownFetches skip (f :: fs) = shownFetches skip fs :=
  List.filter_cons_of_neg (by simp [h])

theorem shownFetches_cons_of_neg {skip : Bool} {f : Except Fault Token}
    {fs : List (Except Fault Token)} (h : isPassedOver skip f = false) :
    shownFetches skip (f :: fs) = f :: shownFetches skip fs :=
  List.filter_cons_of_pos (by simp [h])

theorem isPassedOver_of_isLast (skip : Bool) {f : Except Fault Token}
    (h : Scanner.isLast f = true) : isPassedOver skip f = false := by
  cases f with
  | ok t => simp [isPassedOver, isComment_of_isEnd h]
  | error f => rfl

/-! ## Scanning -/

namespace Scanner

theorem scan_fault {s : Scanner} (he : s.ending = none) {blanks : List Char} {first : Char}
    {others rest : List Char} {f : Fault} (hs : s.rest = blanks ++ (first :: others ++ rest))
    (hb : ∀ c ∈ blanks, Text.isBlank c = true) (hf : Text.isBlank first = false)
    (hl : Lexes (first :: others) rest (.error f)) :
    s.scan = (.error f, ⟨s.file, rest, s.position.afterAll (blanks ++ first :: others),
      s.lineStart || blanks.contains '\n', none⟩) := by
  have run : MaximalRun Text.isBlank blanks (first :: others ++ rest) :=
    ⟨hb, fun c hc => by cases hc; exact hf⟩
  have take : s.rest.takeWhile Text.isBlank = blanks := hs ▸ run.takeWhile_eq
  have drop : s.rest.dropWhile Text.isBlank = first :: (others ++ rest) := hs ▸ run.dropWhile_eq
  have cut := hl.of_eq (List.cons_append)
  simp [scan, skipBlanks, fault?, scanHere, pass, take, drop, he, cut, Position.afterAll_append]

/-- What is left to scan supplies `fs`, and no fault comes in place of its end. -/
def Gives (s : Scanner) (fs : List (Except Fault Token)) : Prop :=
  s.ending = none ∧ Supplies s.file s.position s.lineStart s.rest fs

namespace Gives

variable {s : Scanner} {fs : List (Except Fault Token)}

/-- A scan gives the next of the tokens and faults. -/
theorem scan (h : s.Gives fs) : ∃ f s', s.scan = (f, s') ∧
    (fs = [f] ∧ isLast f = true ∨
      ∃ fs', fs = f :: fs' ∧ isLast f = false ∧ s'.Gives fs' ∧ s'.rest.length < s.rest.length) := by
  obtain ⟨he, hs⟩ := h
  generalize hr : s.rest = chars at hs
  cases hs with
  | last hb =>
    subst hr
    exact ⟨_, _, scan_blank he hb, .inl ⟨rfl, rfl⟩⟩
  | @token _ _ blanks first others rest lexeme fs hb hf hl hfs =>
    refine ⟨_, _, scan_token he hr hb hf hl, .inr ⟨fs, rfl, ?_, ⟨rfl, hfs⟩, ?_⟩⟩
    · simpa [isLast, Token.isEnd] using hl.ne_endOfInput
    · simp only [List.length_append, List.length_cons]
      omega
  | @fault _ _ blanks first others rest f fs hb hf hl hfs =>
    refine ⟨_, _, scan_fault he hr hb hf hl, .inr ⟨fs, rfl, ?_, ⟨rfl, hfs⟩, ?_⟩⟩
    · rw [hl.eq_overlongInteger]
      rfl
    · simp only [List.length_append, List.length_cons]
      omega

/-- The next token or fault that is not passed over. -/
theorem nextWithin (skip : Bool) (rounds : List Char) (h : s.Gives fs)
    (hr : s.rest.length ≤ rounds.length) : ∃ f s', s.nextWithin skip rounds = (f, s') ∧
    (shownFetches skip fs = [f] ∧ isLast f = true ∨
      ∃ fs', shownFetches skip fs = f :: shownFetches skip fs' ∧ isLast f = false ∧
        s'.Gives fs' ∧ s'.rest.length < s.rest.length) := by
  induction rounds generalizing s fs with
  | nil =>
    -- Without characters, the end of the input is next.
    obtain ⟨f, s', hs, ⟨rfl, last⟩ | ⟨fs', rfl, -, -, shorter⟩⟩ := h.scan
    · exact ⟨f, s', hs, .inl ⟨shownFetches_cons_of_neg (isPassedOver_of_isLast skip last), last⟩⟩
    · rw [List.length_nil] at hr
      omega
  | cons c rounds ih =>
    obtain ⟨f, s', hs, ⟨rfl, last⟩ | ⟨fs', rfl, last, gives, shorter⟩⟩ := h.scan
    · have kept := isPassedOver_of_isLast skip last
      refine ⟨f, s', ?_, .inl ⟨shownFetches_cons_of_neg kept, last⟩⟩
      cases f <;> simp_all [Scanner.nextWithin, isPassedOver]
    · cases hp : isPassedOver skip f with
      | false =>
        refine ⟨f, s', ?_, .inr ⟨fs', shownFetches_cons_of_neg hp, last, gives, shorter⟩⟩
        cases f <;> simp_all [Scanner.nextWithin, isPassedOver]
      | true =>
        have short : s'.rest.length ≤ rounds.length := by
          rw [List.length_cons] at hr
          omega
        have unfolded : s.nextWithin skip (c :: rounds) = s'.nextWithin skip rounds := by
          cases f <;> simp_all [Scanner.nextWithin, isPassedOver]
        rw [shownFetches_cons_of_pos hp, unfolded]
        obtain ⟨g, s'', hg, found⟩ := ih gives short
        refine ⟨g, s'', hg, found.imp id ?_⟩
        rintro ⟨gs, shown, more, gives', shorter'⟩
        exact ⟨gs, shown, more, gives', shorter'.trans shorter⟩

theorem fetchesWithin_eq (skip : Bool) (rounds : Nat) (h : s.Gives fs)
    (hr : s.rest.length < rounds) : s.fetchesWithin skip rounds = shownFetches skip fs := by
  induction rounds generalizing s fs with
  | zero => omega
  | succ rounds ih =>
    obtain ⟨f, s', hs, found⟩ := h.nextWithin skip s.rest (Nat.le_refl _)
    rw [fetchesWithin, Scanner.next, hs]
    obtain ⟨shown, last⟩ | ⟨fs', shown, last, gives, shorter⟩ := found
    · simp [last, shown]
    · simp [last, shown, ih gives (by omega)]

end Gives

/-- A reading of a text can fetch what the text supplies. -/
theorem fetches_eq_shownFetches (file text : String) :
    ∃ fs, Supplies file .start true text.toList fs ∧
      ∀ skip, (ofText file text).fetches skip = shownFetches skip fs := by
  obtain ⟨fs, hfs⟩ := exists_supplies file .start true text.toList
  have gives : (ofText file text).Gives fs := ⟨rfl, hfs⟩
  exact ⟨fs, hfs, fun skip => gives.fetchesWithin_eq skip _ (Nat.lt_succ_self _)⟩

end Scanner

/-! ## Any source -/

/-- The token is one that a text may have, by the lexical grammar. -/
def Token.IsLexed (t : Token) : Prop :=
  t.lexeme = .endOfInput ∨ ∃ x rest, Lexes x rest (.ok t.lexeme)

namespace Scanner

/-- What a scan may give. Unless it gives the end of the input or a fault at the end of
    the text, it leaves less to scan. -/
inductive Scans (s : Scanner) : Except Fault Token × Scanner → Prop
  | last {t : Token} {s' : Scanner} : t.lexeme = .endOfInput → Scans s (.ok t, s')
  | token {t : Token} {s' : Scanner} : t.IsLexed → s'.rest.length < s.rest.length →
      Scans s (.ok t, s')
  | fault {f : Fault} {s' : Scanner} : s'.rest.length ≤ s.rest.length - 1 →
      Scans s (.error f, s')

variable {s s' : Scanner}

theorem Scans.of_length_lt {r : Except Fault Token × Scanner} (h : s'.Scans r)
    (hl : s'.rest.length < s.rest.length) : s.Scans r := by
  cases h with
  | last he => exact .last he
  | token ht less => exact .token ht (less.trans hl)
  | fault less => exact .fault (by omega)

theorem scans_scan (s : Scanner) : s.Scans s.scan := by
  have passed : s.skipBlanks.rest = s.rest.dropWhile Text.isBlank := rfl
  unfold scan
  dsimp only
  split
  · next f hf =>
    have empty : s.skipBlanks.rest = [] := by
      by_contra more
      rw [fault?, if_neg (by simpa using more)] at hf
      cases hf
    exact .fault (by simp [empty])
  · unfold scanHere
    split
    · exact .last rfl
    · next first others hrest =>
      have less : (Cut.of first others).rest.length < s.rest.length :=
        length_rest_lt (passed ▸ hrest)
      obtain ⟨x, -, -, lexes, -⟩ := exists_token (passed ▸ hrest)
      dsimp only
      split
      · exact .fault (Nat.le_sub_one_of_lt less)
      · exact .fault (Nat.le_sub_one_of_lt less)
      · next lexeme _ hlex => exact .token (.inr ⟨_, _, hlex ▸ lexes⟩) less

theorem scans_nextWithin (skip : Bool) (rounds : List Char) (s : Scanner) :
    s.Scans (s.nextWithin skip rounds) := by
  induction rounds generalizing s with
  | nil => exact s.scans_scan
  | cons _ rounds ih =>
    have scans := s.scans_scan
    unfold nextWithin
    split
    · next t s' hs =>
      rw [hs] at scans
      split
      · next comment =>
        -- The end of the input is no comment, so that something has been scanned.
        cases scans with
        | last he => simp [Token.isComment, he] at comment
        | token _ less => exact (ih s').of_length_lt less
      · exact scans
    · exact scans

/-- The fetches end with the end of the input or a fault. -/
theorem terminated_fetchesWithin (skip : Bool) (rounds : Nat) (hr : s.rest.length < rounds) :
    Terminated (s.fetchesWithin skip rounds) := by
  induction rounds generalizing s with
  | zero => exact absurd hr (Nat.not_lt_zero _)
  | succ rounds ih =>
    have scans := scans_nextWithin skip s.rest s
    rw [fetchesWithin, next]
    generalize s.nextWithin skip s.rest = r at scans
    cases scans with
    | @last t s' he => simpa [isLast, Token.isEnd, he] using .last he
    | @token t s' _ less =>
      by_cases he : t.lexeme = .endOfInput
      · simpa [isLast, Token.isEnd, he] using .last he
      · simpa [isLast, Token.isEnd, he] using .token he (ih (by omega))
    | @fault f s' less =>
      dsimp only
      split
      · exact .broken
      · cases rounds with
        | zero => exact .broken
        | succ rounds => exact .fault (ih (by omega))

theorem terminated_fetches (s : Scanner) (skip : Bool) : Terminated (s.fetches skip) :=
  terminated_fetchesWithin skip _ (Nat.lt_succ_self _)

theorem isLexed_of_mem_fetchesWithin {skip : Bool} {rounds : Nat} {t : Token}
    (h : .ok t ∈ s.fetchesWithin skip rounds) : t.IsLexed := by
  induction rounds generalizing s with
  | zero => exact absurd h List.not_mem_nil
  | succ rounds ih =>
    have scans := scans_nextWithin skip s.rest s
    rw [fetchesWithin, next] at h
    generalize s.nextWithin skip s.rest = r at scans h
    have first : r.1 = .ok t → t.IsLexed := by
      cases scans with
      | last he =>
        rintro ⟨⟩
        exact .inl he
      | token lexed _ =>
        rintro ⟨⟩
        exact lexed
      | fault _ => rintro ⟨⟩
    dsimp only at h
    split at h
    · exact first (List.mem_singleton.1 h).symm
    · exact (List.mem_cons.1 h).elim (fun heq => first heq.symm) ih

end Scanner

/-! ## Faults and lexemes -/

/-- The fault that comes in place of a token. -/
def fetchFault? : Except Fault Token → Option Fault
  | .ok _ => none
  | .error f => some f

theorem Spelled.ne_comment {x : List Char} {lexeme : Lexeme} (h : Spelled x lexeme)
    (body : String) : lexeme ≠ .comment body := by
  cases h <;> exact Lexeme.noConfusion

theorem not_startsNumber_semicolon (rest : List Char) : ¬StartsNumber (';' :: rest) := by
  rintro ⟨digit, others, hd, he | he⟩
  · obtain ⟨rfl, -⟩ := List.cons.inj he
    exact absurd hd (by decide)
  · exact absurd (List.cons.inj he).1 (by decide)

/-- A lexeme is a comment if it begins with a semicolon. -/
theorem Lexes.isComment_iff {first : Char} {others rest : List Char} {lexeme : Lexeme}
    (h : Lexes (first :: others) rest (.ok lexeme)) :
    first = ';' ↔ ∃ body, lexeme = .comment body := by
  have word : first.isAlphanum = true → first ≠ ';' := by
    rintro hw rfl
    exact absurd hw (by decide)
  have number : StartsNumber (first :: others ++ rest) → first ≠ ';' := by
    rintro start rfl
    exact not_startsNumber_semicolon _ start
  generalize hx : first :: others = x at h number
  cases h with
  | identifier _ run | typeName _ run =>
    cases hx
    simp [word (run.mem _ List.mem_cons_self)]
  | integer start _ _ _ | manyPoints start _ _ => simp [number start]
  | real start _ _ _ => simp [number start]
  | comment _ =>
    cases hx
    simp
  | string _ =>
    obtain ⟨rfl, -⟩ := List.cons.inj hx
    simp
  | unterminated _ _ =>
    cases hx
    simp
  | symbol start longest =>
    obtain ⟨rfl, rfl⟩ := List.cons.inj hx
    have notComment : ∀ body, lexeme ≠ .comment body := longest.spelled.ne_comment
    simp [start.comment, notComment]
  | stray start _ =>
    cases hx
    simp [start.comment]

/-- The token stands in the text of the file: its characters are there, behind
    `before`, or it is the end of the input. -/
structure Token.IsFoundIn (file : String) (text : List Char) (t : Token) : Prop where
  file : t.file = file
  place : ∃ before x rest, text = before ++ (x ++ rest) ∧ t.position = .behind before ∧
    (Lexes x rest (.ok t.lexeme) ∨ t.lexeme = .endOfInput ∧ x ++ rest = [])

/-- Every token that a text supplies stands in it. -/
theorem Supplies.isFoundIn {file : String} {p : Position} {fresh : Bool} {chars : List Char}
    {fs : List (Except Fault Token)} (h : Supplies file p fresh chars fs) (pre : List Char)
    (hp : p = .behind pre) {t : Token} (ht : .ok t ∈ fs) : t.IsFoundIn file (pre ++ chars) := by
  induction h generalizing pre with
  | @last p fresh blanks _ =>
    subst hp
    cases List.mem_singleton.1 ht
    refine ⟨rfl, pre ++ blanks, [], [], ?_, (Position.behind_append ..).symm, .inr ⟨rfl, rfl⟩⟩
    rw [List.append_nil, List.append_nil]
  | @token p fresh blanks first others rest lexeme fs _ _ hl _ ih =>
    subst hp
    rcases List.mem_cons.1 ht with he | ht
    · cases he
      have behind := (Position.behind_append pre blanks).symm
      refine ⟨rfl, pre ++ blanks, first :: others, rest, ?_, behind, .inl hl⟩
      rw [List.append_assoc]
    · have found := ih _ (Position.behind_append ..).symm ht
      rwa [List.append_assoc, List.append_assoc] at found
  | @fault p fresh blanks first others rest f fs _ _ _ _ ih =>
    subst hp
    rcases List.mem_cons.1 ht with he | ht
    · cases he
    · have found := ih _ (Position.behind_append ..).symm ht
      rwa [List.append_assoc, List.append_assoc] at found

namespace Scanner

/-! ## What can be fetched from a text -/

theorem isFoundIn_of_mem_fetches {file text : String} {skip : Bool} {t : Token}
    (h : .ok t ∈ (ofText file text).fetches skip) : t.IsFoundIn file text.toList := by
  obtain ⟨fs, supplies, fetches⟩ := fetches_eq_shownFetches file text
  rw [fetches] at h
  exact supplies.isFoundIn [] rfl (List.mem_of_mem_filter h)

end Scanner

end Soul
