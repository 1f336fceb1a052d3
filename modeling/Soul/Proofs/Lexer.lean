import Soul.Proofs.Feed
import Soul.Proofs.Supply
import Soul.Token.Lexer

/-!
# Lexers and scanners

A lexer works on a feed and a scanner on the characters in it. As long as the lexer is one
character ahead (`Lexer.IsAhead`), there is a scanner that stands where it does, with the
pending character and what is left of the feed in front of it (`Lexer.scanner`). Whatever
the lexer does, this scanner does as well: it passes the same characters
(`Lexer.Passes`), finds the same lexemes (`Lexer.cuts_lexeme`) and gives the same tokens
(`Lexer.scan_scanner`).

A lexer that has not read anything is not one character ahead, but it is after it has
passed the blank that it begins with. So the tokens of a feed are those of its scanner
(`Feed.fetches_eq`).
-/

namespace Soul

/-- The supply gives no more than one character at a time. -/
def Supply.IsSingle : Supply → Prop
  | text _ => True
  | stream chunks _ => ∀ chunk ∈ chunks, chunk.length ≤ 1

theorem Supply.IsSingle.take {supply : Supply} (h : supply.IsSingle) :
    supply.take.1.length ≤ 1 ∧ supply.take.2.IsSingle := by
  cases supply with
  | text rest =>
    cases rest with
    | nil => exact ⟨Nat.zero_le 1, trivial⟩
    | cons c rest => exact ⟨String.length_singleton.le, trivial⟩
  | stream chunks calls =>
    cases chunks with
    | nil => exact ⟨Nat.zero_le 1, h⟩
    | cons chunk chunks => exact List.forall_mem_cons.1 h

theorem Feed.isSingle_read {f : Feed} (h : f.supply.IsSingle) :
    f.read.1.length ≤ 1 ∧ f.read.2.supply.IsSingle := by
  obtain ⟨-, eq⟩ | ⟨-, -, eq⟩ | ⟨-, -, eq⟩ := f.read_cases
  · rw [eq]
    exact ⟨Nat.zero_le 1, h⟩
  · rw [eq]
    exact ⟨Nat.zero_le 1, h.take.2⟩
  · rw [eq]
    exact h.take

namespace Lexer

variable {l l' l'' : Lexer} {c : Char} {chars chars' : List Char}

/-! ## One character ahead -/

/-- The lexer has read the pending character and no more, or has met the end. -/
structure IsAhead (l : Lexer) : Prop where
  single : l.feed.supply.IsSingle
  place : l.feed.position = l.position.afterAll l.pending.toList
  ended : l.pending = none → l.feed.exhausted = true

theorem pending_advance (single : l.feed.supply.IsSingle) :
    l.advance.pending.toList = l.feed.read.1.toList := by
  have short := (Feed.isSingle_read single).1
  rw [← String.length_toList] at short
  change l.feed.read.1.toList.head?.toList = _
  cases h : l.feed.read.1.toList with
  | nil => rfl
  | cons c rest =>
    rw [h] at short
    rw [List.eq_nil_of_length_eq_zero (Nat.le_zero.1 (Nat.le_of_succ_le_succ short))]
    rfl

theorem left_advance (single : l.feed.supply.IsSingle) :
    l.advance.left = l.feed.scanner.rest := by
  rw [left, pending_advance single]
  exact l.feed.read_scanner_rest

/-- After a reading the lexer is one character ahead. -/
theorem isAhead_advance (single : l.feed.supply.IsSingle) : l.advance.IsAhead where
  single := (Feed.isSingle_read single).2
  place := by
    rw [pending_advance single]
    exact Feed.position_read (Feed.isSingle_read single).1
  ended none := by
    have empty := pending_advance single
    rw [none] at empty
    exact l.feed.exhausted_read.2 (String.toList_eq_nil_iff.1 empty.symm)

theorem IsAhead.left_of_none (h : l.IsAhead) (none : l.pending = none) : l.left = [] := by
  rw [left, none, Feed.scanner, h.ended none]
  rfl

theorem IsAhead.left_of_some (h : l.IsAhead) (hc : l.pending = some c) :
    l.left = c :: l.advance.left := by
  rw [left_advance h.single, left, hc]
  rfl

/-- From `l` to `l'` these characters have been passed. -/
structure Passes (l : Lexer) (chars : List Char) (l' : Lexer) : Prop where
  ahead : l'.IsAhead
  left : l.left = chars ++ l'.left
  position : l'.position = l.position.afterAll chars
  file : l'.feed.file = l.feed.file
  lineStart : l'.lineStart = l.lineStart

theorem IsAhead.refl (h : l.IsAhead) : l.Passes [] l := ⟨h, rfl, rfl, rfl, rfl⟩

theorem IsAhead.advance (h : l.IsAhead) (hc : l.pending = some c) : l.Passes [c] l.advance where
  ahead := isAhead_advance h.single
  left := h.left_of_some hc
  position := by
    have place := h.place
    rw [hc] at place
    exact place
  file := l.feed.file_read
  lineStart := rfl

theorem Passes.trans (h : l.Passes chars l') (h' : l'.Passes chars' l'') :
    l.Passes (chars ++ chars') l'' where
  ahead := h'.ahead
  left := by rw [h.left, h'.left, List.append_assoc]
  position := by rw [h'.position, h.position, Position.afterAll_append]
  file := h'.file.trans h.file
  lineStart := h'.lineStart.trans h.lineStart

/-! ## Characters in a row -/

/-- The lexer passes the characters of a class that it has in front of it. -/
theorem passWhile_spec (p : Char → Bool) (h : l.IsAhead) :
    (l.passWhile p).1 = l.left.takeWhile p ∧
      l.Passes (l.left.takeWhile p) (l.passWhile p).2 := by
  fun_induction passWhile p l with
  | case1 l none =>
    rw [h.left_of_none none]
    exact ⟨rfl, h.refl⟩
  | case2 l c hc pos chars l' passed ih =>
    have next := h.advance hc
    obtain ⟨same, passes⟩ := ih next.ahead
    rw [passed] at same passes
    rw [h.left_of_some hc, List.takeWhile_cons_of_pos pos]
    exact ⟨congrArg (List.cons c) same, next.trans passes⟩
  | case3 l c hc neg =>
    rw [h.left_of_some hc, List.takeWhile_cons_of_neg neg]
    exact ⟨rfl, h.refl⟩

/-- The lexer goes down the tree of symbols as the characters in front of it lead. -/
theorem walk_spec (t : SymbolTree) (h : l.IsAhead) :
    (l.walk t).1 = (t.walk l.left).1 ∧ l.Passes (l.left.take (t.walk l.left).2) (l.walk t).2 := by
  fun_induction walk t l with
  | case1 t l none =>
    rw [h.left_of_none none]
    exact ⟨rfl, h.refl⟩
  | case2 t l c hc next found ih =>
    have one := h.advance hc
    obtain ⟨same, passes⟩ := ih one.ahead
    rw [h.left_of_some hc, SymbolTree.walk, found]
    exact ⟨same, one.trans passes⟩
  | case3 t l c hc none =>
    rw [h.left_of_some hc, SymbolTree.walk, none]
    exact ⟨rfl, h.refl⟩

/-! ## Lexemes -/

/-- The lexer has found the lexeme of the cut and has passed its characters. -/
structure Cuts (l : Lexer) (r : Except Fault Lexeme × Lexer) (cut : Cut) : Prop where
  lexeme : r.1 = cut.lexeme
  passes : l.Passes cut.text r.2

theorem Cuts.cons {r : Except Fault Lexeme × Lexer} {cut : Cut} (h : l.IsAhead)
    (hc : l.pending = some c) (cuts : l.advance.Cuts r cut) : l.Cuts r (cut.cons c) :=
  ⟨cuts.lexeme, (h.advance hc).trans cuts.passes⟩

theorem cuts_passWhile (p : Char → Bool) (lexeme : List Char → Except Fault Lexeme)
    (h : l.IsAhead) :
    l.Cuts (lexeme (l.passWhile p).1, (l.passWhile p).2) (Cut.span p lexeme l.left) := by
  obtain ⟨same, passes⟩ := passWhile_spec p h
  exact ⟨congrArg lexeme same, passes⟩

theorem IsAhead.head?_left (h : l.IsAhead) : l.left.head? = l.pending := by
  cases hc : l.pending with
  | none => rw [h.left_of_none hc, List.head?_nil]
  | some c => rw [h.left_of_some hc, List.head?_cons]

theorem left_passWhile (p : Char → Bool) (h : l.IsAhead) :
    (l.passWhile p).2.left = l.left.dropWhile p := by
  have passes := (passWhile_spec p h).2
  exact List.append_cancel_left (passes.left.symm.trans List.takeWhile_append_dropWhile.symm)

theorem cuts_string (h : l.IsAhead) : l.Cuts l.string (Cut.string l.left) := by
  obtain ⟨same, passes⟩ := passWhile_spec Cut.isStringChar h
  have rest := left_passWhile Cut.isStringChar h
  unfold string Cut.string
  rw [← rest]
  generalize l.passWhile Cut.isStringChar = r at same passes
  obtain ⟨body, l'⟩ := r
  simp only at same passes ⊢
  by_cases closed : l'.pending = some '"'
  · rw [if_pos closed, passes.ahead.left_of_some closed]
    exact ⟨congrArg (fun body => Except.ok (Lexeme.string (String.ofList body))) same,
      passes.trans (passes.ahead.advance closed)⟩
  · rw [if_neg closed]
    split
    · next others hrest =>
      rw [← passes.ahead.head?_left, hrest] at closed
      exact absurd rfl closed
    · exact ⟨rfl, passes⟩

theorem cuts_symbol (h : l.IsAhead) (hc : l.pending = some c) :
    l.Cuts (l.advance.symbol c) (Cut.symbol c l.advance.left) := by
  have one := h.advance hc
  have found : Cut.symbol? (c :: l.advance.left) = (SymbolTree.starts.lookup c).map fun t =>
      ((t.walk l.advance.left).1, (t.walk l.advance.left).2 + 1) := rfl
  unfold symbol Cut.symbol
  rw [found]
  cases SymbolTree.starts.lookup c with
  | none => exact ⟨rfl, one⟩
  | some t =>
    obtain ⟨same, passes⟩ := walk_spec t one.ahead
    exact ⟨congrArg Except.ok same, one.trans passes⟩

theorem cuts_point (h : l.IsAhead) (hc : l.pending = some '.') :
    l.Cuts l.advance.point (Cut.point l.advance.left) := by
  have one := h.advance hc
  unfold point Cut.point
  rw [one.ahead.head?_left]
  split
  · obtain ⟨same, passes⟩ := passWhile_spec Cut.isNumberChar one.ahead
    have text : ('.' :: l.advance.left).takeWhile Cut.isNumberChar =
        '.' :: l.advance.left.takeWhile Cut.isNumberChar := List.takeWhile_cons_of_pos (by decide)
    unfold Cut.span
    rw [text]
    exact ⟨congrArg (fun chars => Cut.number ('.' :: chars)) same, one.trans passes⟩
  · exact cuts_symbol h hc

/-- The lexer finds the lexeme that the characters in front of it begin with. -/
theorem cuts_lexeme (h : l.IsAhead) (hc : l.pending = some c) :
    l.Cuts (l.lexeme c) (Cut.of c l.advance.left) := by
  have one := h.advance hc
  unfold lexeme Cut.of
  rw [← h.left_of_some hc]
  split
  · next semicolon =>
    rw [semicolon] at hc
    exact .cons h hc (cuts_passWhile Cut.isCommentChar
      (fun body => .ok (.comment (String.ofList body))) one.ahead)
  split
  · exact cuts_passWhile Cut.isWordChar (fun chars => .ok (Cut.word chars)) h
  split
  · exact cuts_passWhile Cut.isNumberChar Cut.number h
  split
  · next quote =>
    rw [quote] at hc
    exact .cons h hc (cuts_string one.ahead)
  split
  · next dot =>
    rw [dot] at hc
    exact cuts_point h hc
  · exact cuts_symbol h hc

/-! ## Tokens -/

/-- The scanner that stands where the lexer does. -/
def scanner (l : Lexer) : Scanner := ⟨l.feed.file, l.left, l.position, l.lineStart, none⟩

theorem skipBlanks_spec (h : l.IsAhead) :
    l.skipBlanks.IsAhead ∧ l.scanner.skipBlanks = l.skipBlanks.scanner := by
  obtain ⟨same, passes⟩ := passWhile_spec Text.isBlank h
  have ahead := passes.ahead
  have rest := left_passWhile Text.isBlank h
  have here : l.skipBlanks = { (l.passWhile Text.isBlank).2 with
      lineStart := l.lineStart || (l.passWhile Text.isBlank).1.contains '\n' } := rfl
  rw [here, same]
  refine ⟨⟨ahead.single, ahead.place, ahead.ended⟩, ?_⟩
  change Scanner.mk _ _ _ _ _ = Scanner.mk _ _ _ _ _
  rw [passes.file, passes.position]
  exact congrArg (Scanner.mk _ · _ _ _) rest.symm

theorem fault?_scanner (l : Lexer) : l.scanner.fault? = none := by
  unfold Scanner.fault?
  split <;> rfl

/-- The lexer and the scanner give the same token, and both stand behind it then. -/
theorem scan_scanner (h : l.IsAhead) :
    l.scanner.scan = (l.lex.1, l.lex.2.scanner) ∧ l.lex.2.IsAhead := by
  obtain ⟨ahead, blanks⟩ := skipBlanks_spec h
  unfold Scanner.scan lex
  simp only [blanks, fault?_scanner]
  generalize l.skipBlanks = m at ahead
  cases hc : m.pending with
  | none =>
    have rest : m.scanner.rest = [] := ahead.left_of_none hc
    have left : Option.toList none ++ m.feed.scanner.rest = [] := hc ▸ rest
    simp only [Scanner.scanHere, rest]
    exact ⟨congrArg (fun rest => (_, Scanner.mk _ rest _ _ _)) left.symm, ahead.single,
      hc ▸ ahead.place, fun _ => ahead.ended hc⟩
  | some c =>
    have rest : m.scanner.rest = c :: m.advance.left := ahead.left_of_some hc
    have cuts := cuts_lexeme ahead hc
    rcases hr : m.lexeme c with ⟨found, m'⟩
    rw [hr] at cuts
    have passes : m.Passes _ m' := cuts.passes
    -- What stands behind the cut is what the lexer has left.
    have behind : (Cut.of c m.advance.left).rest = m'.left :=
      List.append_cancel_left ((Cut.of_text_append_rest c m.advance.left).trans
        (rest.symm.trans passes.left))
    have passed : m.scanner.pass (Cut.of c m.advance.left) = m'.scanner := by
      unfold Scanner.pass scanner
      rw [behind, passes.file, passes.position, passes.lineStart]
    simp only [Scanner.scanHere, rest, passed, fault?_scanner, ← cuts.lexeme, hr]
    have after := passes.ahead
    cases found with
    | error fault => exact ⟨rfl, after⟩
    | ok lexeme => exact ⟨rfl, after.single, after.place, after.ended⟩

theorem nextWithin_scanner (skip : Bool) (rounds : List Char) (h : l.IsAhead) :
    l.scanner.nextWithin skip rounds =
        ((l.nextWithin skip rounds).1, (l.nextWithin skip rounds).2.scanner) ∧
      (l.nextWithin skip rounds).2.IsAhead := by
  induction rounds generalizing l with
  | nil => exact scan_scanner h
  | cons r rounds ih =>
    obtain ⟨same, ahead⟩ := scan_scanner h
    rw [Scanner.nextWithin, nextWithin, same]
    rcases hl : l.lex with ⟨fetch, l'⟩
    rw [hl] at ahead
    cases fetch with
    | error fault => exact ⟨rfl, ahead⟩
    | ok token =>
      simp only
      split
      · exact ih ahead
      · exact ⟨rfl, ahead⟩

theorem next_scanner (skip : Bool) (h : l.IsAhead) :
    l.scanner.next skip = ((l.next skip).1, (l.next skip).2.scanner) ∧ (l.next skip).2.IsAhead :=
  nextWithin_scanner skip l.left h

theorem fetchesWithin_scanner (skip : Bool) (rounds : Nat) (h : l.IsAhead) :
    l.scanner.fetchesWithin skip rounds = l.fetchesWithin skip rounds := by
  induction rounds generalizing l with
  | zero => rfl
  | succ rounds ih =>
    obtain ⟨same, ahead⟩ := next_scanner skip h
    rw [Scanner.fetchesWithin, fetchesWithin, same]
    simp only [ih ahead]

/-! ## The beginning -/

theorem passWhile_of_pos {p : Char → Bool} (hc : l.pending = some c) (pos : p c = true) :
    l.passWhile p = (c :: (l.advance.passWhile p).1, (l.advance.passWhile p).2) := by
  rw [passWhile]
  split
  · next none => exact absurd (hc.symm.trans none) (Option.some_ne_none c)
  · next c' hc' =>
    obtain rfl : c' = c := Option.some.inj (hc'.symm.trans hc)
    rw [if_pos pos]

variable (f : Feed)

/-- The blank at the beginning is passed over, and what comes then is of the feed. -/
theorem lex_start : (start f).lex = (start f).advance.lex := by
  have blanks : (start f).skipBlanks = (start f).advance.skipBlanks := by
    unfold skipBlanks
    rw [passWhile_of_pos rfl (by decide : Text.isBlank ' ' = true)]
    rfl
  unfold lex
  rw [blanks]

theorem nextWithin_start (skip : Bool) (rounds : List Char) :
    (start f).nextWithin skip rounds = (start f).advance.nextWithin skip rounds := by
  cases rounds with
  | nil => exact lex_start f
  | cons r rounds => rw [nextWithin, nextWithin, lex_start]

variable {f}

theorem scanner_advance_start (single : f.supply.IsSingle) :
    (start f).advance.scanner = f.scanner := by
  have left : (start f).advance.left = f.scanner.rest := left_advance single
  have file : (start f).advance.feed.file = f.file := f.file_read
  unfold scanner
  rw [left, file]
  rfl

end Lexer

/-- A round more than there are characters makes no difference. -/
theorem Scanner.nextWithin_cons {skip : Bool} {rounds : List Char} {s : Scanner} (c : Char)
    (enough : s.rest.length ≤ rounds.length) :
    s.nextWithin skip (c :: rounds) = s.nextWithin skip rounds := by
  induction rounds generalizing s c with
  | nil =>
    have scans := s.scans_scan
    rw [nextWithin, nextWithin]
    generalize s.scan = r at scans
    cases scans with
    | last he => simp [Token.isComment, he]
    | token _ less => exact absurd (less.trans_le enough) (Nat.not_lt_zero _)
    | fault _ => rfl
  | cons d rounds ih =>
    have scans := s.scans_scan
    rw [nextWithin, nextWithin]
    generalize s.scan = r at scans
    cases scans with
    | last he => simp [Token.isComment, he]
    | token _ less =>
      simp only [ih d (Nat.le_of_lt_succ (less.trans_le enough))]
    | fault _ => rfl

/-- The first token of a feed is that of its scanner. -/
theorem Lexer.next_start {f : Feed} (single : f.supply.IsSingle) (skip : Bool) :
    f.scanner.next skip = (((start f).next skip).1, ((start f).next skip).2.scanner) ∧
      ((start f).next skip).2.IsAhead := by
  obtain ⟨same, ahead⟩ :=
    nextWithin_scanner skip (' ' :: f.scanner.rest) (isAhead_advance (l := start f) single)
  rw [← nextWithin_start, scanner_advance_start single,
    Scanner.nextWithin_cons ' ' (Nat.le_refl _)] at same
  rw [← nextWithin_start] at ahead
  exact ⟨same, ahead⟩

/-- The lexer gives the tokens that the scanner of the feed gives. -/
theorem Feed.fetches_eq {f : Feed} (single : f.supply.IsSingle) (skip : Bool) :
    f.fetches skip = f.scanner.fetches skip := by
  obtain ⟨same, ahead⟩ := Lexer.next_start single skip
  rw [Feed.fetches, Scanner.fetches, Lexer.fetchesWithin, Scanner.fetchesWithin, same]
  simp only [Lexer.fetchesWithin_scanner skip _ ahead]

end Soul
