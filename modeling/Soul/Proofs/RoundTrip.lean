import Mathlib.Data.List.Chain
import Soul.Proofs.Canonical
import Soul.Proofs.Complete
import Soul.Proofs.Recovery
import Soul.Tree

/-!
# Canonical texts are read back

The text of an expression, if it has a canonical one, is a program of one statement,
which evaluates the same expression again (`readProgram_text`).

By the grammar alone the tokens might be read in another way, since operators group
by their tiers and arguments are not separated. But each pair of operands is in
parentheses, so that a chain of operators never has more than one (`Readable`), and
what stands behind an argument neither goes on with an operator nor makes a call of
a variable (`Apart`). Each parenthesis of the text takes one level of nesting, for a
pair of operands and for a call with arguments alike.
-/

namespace Soul

open Grammar

/-! ## Tokens of an expression -/

/-- The tokens are the lexemes, and an expression goes on with each operator. -/
structure Spells (ts : List Token) (ls : List Lexeme) : Prop where
  lexemes : ts.map Token.lexeme = ls
  operator : ∀ t ∈ ts, ∀ op, t.lexeme = .operator op → t.operator? = some op

namespace Spells

variable {ts : List Token} {l : Lexeme} {ls ms : List Lexeme}

theorem eq_nil (h : Spells ts []) : ts = [] := List.map_eq_nil_iff.1 h.lexemes

theorem append (h : Spells ts (ls ++ ms)) :
    ∃ us vs, ts = us ++ vs ∧ Spells us ls ∧ Spells vs ms := by
  obtain ⟨us, vs, rfl, hus, hvs⟩ := List.map_eq_append_iff.1 h.lexemes
  exact ⟨us, vs, rfl, ⟨hus, fun t ht => h.operator t (List.mem_append_left _ ht)⟩,
    hvs, fun t ht => h.operator t (List.mem_append_right _ ht)⟩

theorem cons (h : Spells ts (l :: ls)) : ∃ t us, ts = t :: us ∧ t.lexeme = l ∧
    (∀ op, l = .operator op → t.operator? = some op) ∧ Spells us ls := by
  obtain ⟨t, us, rfl, ht, hus⟩ := List.map_eq_cons_iff.1 h.lexemes
  exact ⟨t, us, rfl, ht, fun op hop => h.operator t List.mem_cons_self op (ht.trans hop), hus,
    fun u hu => h.operator u (List.mem_cons_of_mem _ hu)⟩

theorem singleton (h : Spells ts [l]) : ∃ t, ts = [t] ∧ t.lexeme = l := by
  obtain ⟨t, us, rfl, ht, -, hus⟩ := h.cons
  exact ⟨t, by rw [hus.eq_nil], ht⟩

end Spells

/-- What stands behind the expression does not make a call of it. -/
def Apart : Expr → List Token → Prop
  | .var .., ts => ∀ t ∈ ts.head?, t.kind ≠ .mark .leftParen
  | _, _ => True

theorem Apart.of_head {t : Token} (ht : t.kind ≠ .mark .leftParen) (e : Expr) (ts : List Token) :
    Apart e (t :: ts) := by
  cases e with
  | var =>
    rintro _ ⟨⟩
    exact ht
  | _ => trivial

theorem halts_of_head {t : Token} (ht : t.operator? = none) (least : Nat) (ts : List Token) :
    Halts least (t :: ts) := by
  rintro _ ⟨⟩ op hop
  exact absurd (ht.symm.trans hop) (by simp)

/-- The tokens of an expression begin with one that starts a primary, and with a
    parenthesis only if the expression is a pair of operands. -/
theorem Expr.IsCanonical.first {e : Expr} (h : e.IsCanonical) {ts : List Token}
    (hts : ts.map Token.lexeme = e.lexemes) : ∃ t us, ts = t :: us ∧ StartsPrimary t ∧
      (t.kind = .mark .leftParen → ∃ op lhs rhs l, e = .binary op lhs rhs l) := by
  cases h with
  | integer _ | string _ | var _ | call _ _ _ =>
    obtain ⟨t, us, rfl, ht, -⟩ := List.map_eq_cons_iff.1 hts
    refine ⟨t, us, rfl, ?_, ?_⟩ <;> simp [StartsPrimary, IsLiteral, Token.kind, ht, Lexeme.kind]
  | binary _ _ =>
    obtain ⟨t, us, rfl, ht, -⟩ := List.map_eq_cons_iff.1 hts
    exact ⟨t, us, rfl, .inr (.inr (.inr (Token.kind_eq_mark.2 ht))), fun _ => ⟨_, _, _, _, rfl⟩⟩

/-- What stands behind an argument, up to the parenthesis behind the last one. -/
theorem behind_argument {e : Expr} {args : List Expr} {ts : List Token} {right : Token}
    (us : List Token) (canonical : ∀ arg ∈ args, arg.IsCanonical)
    (chain : (e :: args).IsChain fun a b => ¬Merges a b)
    (spells : Spells ts (Expr.argumentLexemes args))
    (hright : right.lexeme = .mark .rightParen) :
    Apart e (ts ++ right :: us) ∧ Halts 0 (ts ++ right :: us) := by
  cases args with
  | nil =>
    rw [spells.eq_nil]
    have kind : right.kind = .mark .rightParen := Token.kind_eq_mark.2 hright
    exact ⟨.of_head (by simp [kind]) e us, halts_of_head (Read.operator?_of_mark kind) 0 us⟩
  | cons e' args =>
    obtain ⟨ys, zs, rfl, hys, -⟩ := spells.append
    obtain ⟨t, ys, rfl, ht, paren⟩ := (canonical e' List.mem_cons_self).first hys.lexemes
    refine ⟨?_, halts_of_head ht.operator? 0 _⟩
    cases e with
    | var name l =>
      rintro _ ⟨⟩ hk
      obtain ⟨op, lhs, rhs, l', rfl⟩ := paren hk
      exact (List.isChain_cons_cons.1 chain).1 trivial
    | _ => trivial

/-! ## Reading expressions back -/

namespace Read

variable {d levels : Nat} {limit : Int} {e : Expr} {ts us : List Token}

/-- The reading takes the tokens `ts`, and nothing of `us` behind them, and gives the
    expression, but for locations. -/
def Recovers (p : Read Expr) (e : Expr) (d : Nat) (ts us : List Token) : Prop :=
  Ensures p d (ts ++ us) (fun a rest => rest = us ∧ a.tree.equal e.tree = true) Never

/-- The expression is read back as a primary where it is not nested too deeply. -/
def Readable (e : Expr) : Prop :=
  ∀ {limit : Int} {levels d : Nat} {ts us : List Token}, e.nesting ≤ levels →
    Spells ts e.lexemes → Apart e us → Recovers (primary (expressionWithin limit levels)) e d ts us

/-- A chain of operators that is at its end already. -/
theorem chainWithin_halts (operand : Read Expr) {least : Nat} (halts : Halts least us)
    (rounds : List (Except Fault Token)) (lhs : Expr) :
    Ensures (chainWithin operand rounds least lhs) d us (fun a rest => rest = us ∧ a = lhs)
      Never := by
  cases rounds with
  | nil => exact Ensures.pure ⟨rfl, rfl⟩
  | cons r rounds =>
    refine Ensures.of_cons fun t us' hus _ => ?_
    subst hus
    refine Ensures.operatorFrom_bind (fun _ => Ensures.pure ⟨rfl, rfl⟩) fun op hop hle => ?_
    exact absurd (halts t rfl op hop) (Nat.not_lt.2 hle)

theorem Readable.expression (h : Readable e) (hn : e.nesting ≤ levels)
    (spells : Spells ts e.lexemes) (apart : Apart e us) (halts : Halts 0 us) :
    Recovers (expressionWithin limit (levels + 1)) e d ts us := by
  refine Ensures.nested ((h hn spells apart).bind ?_)
  rintro lhs _ - - ⟨rfl, same⟩
  refine (Ensures.get_bind fun _ _ => chainWithin_halts _ halts _ lhs).imp ?_
  rintro a rest ⟨rfl, rfl⟩
  exact ⟨rfl, same⟩

/-- One operator and its right operand, behind which the chain is at its end. -/
theorem Readable.chain {rhs lhs' : Expr} {op : Operator} {t : Token} (h : Readable rhs)
    (hn : rhs.nesting ≤ levels) (ht : t.operator? = some op) (hne : t.lexeme ≠ .endOfInput)
    (spells : Spells ts rhs.lexemes) (apart : Apart rhs us) (halts : ∀ least, Halts least us) :
    Ensures (chain (primary (expressionWithin limit levels)) 0 lhs') d (t :: (ts ++ us))
      (fun a rest => rest = us ∧ ∃ rhs', rhs'.tree.equal rhs.tree = true ∧
        a = .binary op lhs' rhs' t.location) Never := by
  refine Ensures.get_bind fun c _ => Ensures.operatorFrom_bind (fun none => ?_) fun op' hop' _ => ?_
  · exact absurd (none t rfl op ht) (Nat.not_lt_zero _)
  · obtain rfl := Option.some.inj (ht.symm.trans hop')
    refine Ensures.advance_bind hne ((h hn spells apart).bind ?_)
    rintro rhs' _ - - ⟨rfl, same⟩
    refine (chainWithin_halts _ (halts _) _ rhs').bind ?_
    rintro _ _ - - ⟨rfl, rfl⟩
    refine (chainWithin_halts _ (halts 0) _ _).imp ?_
    rintro a rest ⟨rfl, rfl⟩
    exact ⟨rfl, _, same, rfl⟩

/-- What stands between the parentheses of a pair of operands. -/
theorem Readable.operands {op : Operator} {lhs rhs : Expr} {l : Option Location} {t right : Token}
    {xs ys : List Token} (hl : Readable lhs) (hr : Readable rhs)
    (hn : (Expr.binary op lhs rhs l).nesting ≤ levels) (hxs : Spells xs lhs.lexemes)
    (ht : t.lexeme = .operator op) (hop : t.operator? = some op) (hys : Spells ys rhs.lexemes)
    (hright : right.kind = .mark .rightParen) :
    Recovers (expressionWithin limit levels) (.binary op lhs rhs l) d (xs ++ t :: ys)
      (right :: us) := by
  rw [Expr.nesting] at hn
  obtain ⟨levels, rfl⟩ : ∃ n, levels = n + 1 := ⟨levels - 1, by omega⟩
  have hlhs : lhs.nesting ≤ levels := by omega
  have hrhs : rhs.nesting ≤ levels := by omega
  have apart : Apart lhs (t :: (ys ++ right :: us)) :=
    .of_head (by simp [Token.kind, ht, Lexeme.kind]) _ _
  have apart' : Apart rhs (right :: us) := .of_head (by simp [hright]) _ _
  have halts (least : Nat) : Halts least (right :: us) :=
    halts_of_head (operator?_of_mark hright) least us
  rw [Recovers, List.append_assoc]
  refine Ensures.nested ((hl hlhs hxs apart).bind ?_)
  rintro lhs' _ - - ⟨rfl, same⟩
  refine (hr.chain hrhs hop (by simp [ht]) hys apart' halts).imp ?_
  rintro a rest ⟨rfl, rhs', same', rfl⟩
  exact ⟨rfl, by simp [Expr.tree, Tree.equal, same, same']⟩

theorem readable_binary {op : Operator} {lhs rhs : Expr} {l : Option Location} (hl : Readable lhs)
    (hr : Readable rhs) : Readable (.binary op lhs rhs l) := by
  intro limit levels d ts us hn spells _
  rw [Expr.lexemes] at spells
  obtain ⟨left, _, rfl, hleft, -, spells⟩ := spells.cons
  obtain ⟨xs, _, rfl, hxs, spells⟩ := spells.append
  obtain ⟨t, _, rfl, ht, hop, spells⟩ := spells.cons
  obtain ⟨ys, _, rfl, hys, spells⟩ := spells.append
  obtain ⟨right, rfl, hright⟩ := spells.singleton
  have kind : right.kind = .mark .rightParen := Token.kind_eq_mark.2 hright
  have whole : left :: (xs ++ t :: (ys ++ [right])) ++ us =
      left :: ((xs ++ t :: ys) ++ right :: us) := by simp
  rw [Recovers, whole]
  refine Ensures.noComments_bind (by simp [Token.isComment, hleft]) (Ensures.current_bind ?_)
  simp only [hleft]
  refine Ensures.advance_bind (by simp [hleft]) ?_
  refine (hl.operands hr hn hxs ht (hop op rfl) hys kind).bind ?_
  rintro a _ - - ⟨rfl, same⟩
  exact Ensures.close kind ⟨rfl, same⟩

/-- The arguments of a call and the parenthesis behind them. -/
theorem argumentsWithin_recovers {args : List Expr} {right : Token}
    (canonical : ∀ arg ∈ args, arg.IsCanonical) (readable : ∀ arg ∈ args, Readable arg)
    (chain : args.IsChain fun a b => ¬Merges a b) (hn : Expr.argumentNesting args ≤ levels)
    (spells : Spells ts (Expr.argumentLexemes args)) (hright : right.lexeme = .mark .rightParen)
    (rounds : List (Except Fault Token)) (hr : (ts ++ right :: us).length ≤ rounds.length) :
    Ensures (argumentsWithin (expressionWithin limit levels) rounds) d (ts ++ right :: us)
      (fun as rest => rest = us ∧ Tree.equalAll (Expr.trees as) (Expr.trees args) = true)
      Never := by
  induction args generalizing ts rounds with
  | nil =>
    obtain rfl := spells.eq_nil
    cases rounds with
    | nil => exact Ensures.no_rounds hr
    | cons r rounds =>
      refine Ensures.noComments_bind (by simp [Token.isComment, hright]) (Ensures.current_bind ?_)
      simp only [hright]
      exact Ensures.advance_bind (by simp [hright]) (Ensures.pure ⟨rfl, rfl⟩)
  | cons e args ih =>
    cases rounds with
    | nil => exact Ensures.no_rounds hr
    | cons r rounds =>
      rw [Expr.argumentNesting] at hn
      obtain ⟨levels, rfl⟩ : ∃ n, levels = n + 1 := ⟨levels - 1, by omega⟩
      obtain ⟨xs, ys, rfl, hxs, hys⟩ := spells.append
      obtain ⟨first, others⟩ := List.forall_mem_cons.1 readable
      obtain ⟨canonical, behind⟩ := List.forall_mem_cons.1 canonical
      obtain ⟨apart, halts⟩ := behind_argument us behind chain hys hright
      have shallow : e.nesting ≤ levels := by omega
      have reads : Recovers (expressionWithin limit (levels + 1)) e d xs (ys ++ right :: us) :=
        first.expression shallow hxs apart halts
      obtain ⟨t, xs, rfl, ht, -⟩ := canonical.first hxs.lexemes
      rw [List.append_assoc] at hr ⊢
      refine Ensures.noComments_bind ht.isComment (Ensures.current_bind ?_)
      split
      · next hlex => exact absurd ht.mem_kind (by simp [Token.kind, hlex, Lexeme.kind])
      · next hlex => exact absurd ht.mem_kind (by simp [Token.kind, hlex, Lexeme.kind])
      · refine reads.bind ?_
        rintro arg _ - - ⟨rfl, same⟩
        have fewer : (ys ++ right :: us).length ≤ rounds.length := by
          simp only [List.cons_append, List.length_cons, List.length_append] at hr ⊢
          omega
        refine (ih behind others chain.tail (by omega) hys rounds fewer).bind ?_
        rintro as _ - - ⟨rfl, same'⟩
        exact Ensures.pure ⟨rfl, by simp [Expr.trees, Tree.equalAll, same, same']⟩

theorem readable_call {callee : String} {args : List Expr} {l : Option Location}
    (canonical : ∀ arg ∈ args, arg.IsCanonical) (readable : ∀ arg ∈ args, Readable arg)
    (chain : args.IsChain fun a b => ¬Merges a b) : Readable (.call callee args l) := by
  intro limit levels d ts us hn spells _
  rw [Expr.nesting] at hn
  rw [Expr.lexemes] at spells
  obtain ⟨t, _, rfl, ht, -, spells⟩ := spells.cons
  obtain ⟨left, _, rfl, hleft, -, spells⟩ := spells.cons
  obtain ⟨xs, _, rfl, hxs, spells⟩ := spells.append
  obtain ⟨right, rfl, hright⟩ := spells.singleton
  have whole : t :: left :: (xs ++ [right]) ++ us = t :: left :: (xs ++ right :: us) := by simp
  rw [Recovers, whole]
  refine Ensures.noComments_bind (by simp [Token.isComment, ht]) (Ensures.current_bind ?_)
  simp only [ht]
  refine Ensures.advance_bind (by simp [ht]) (Ensures.current_bind ?_)
  simp only [hleft]
  refine Ensures.advance_bind (by simp [hleft]) ?_
  have args : Ensures (arguments (expressionWithin limit levels)) d (xs ++ right :: us) _ Never :=
    Ensures.get_bind fun _ hc => argumentsWithin_recovers canonical readable chain hn hxs hright _
      (Nat.le_of_eq hc.length_remaining.symm)
  refine args.bind ?_
  rintro as _ - - ⟨rfl, same⟩
  exact Ensures.pure ⟨rfl, by simp [Expr.tree, Tree.equal, same]⟩

theorem readable_var (name : String) (l : Option Location) : Readable (.var name l) := by
  intro limit levels d ts us _ spells apart
  obtain ⟨t, rfl, ht⟩ := spells.singleton
  refine Ensures.noComments_bind (by simp [Token.isComment, ht]) (Ensures.current_bind ?_)
  simp only [ht]
  refine Ensures.advance_bind (by simp [ht]) (Ensures.of_cons fun u us' hus _ => ?_)
  subst hus
  refine Ensures.current_bind ?_
  split
  · next hlex => exact absurd (Token.kind_eq_mark.2 hlex) (apart u rfl)
  · exact Ensures.pure ⟨rfl, by simp [Expr.tree, Tree.equal]⟩

end Read

open Read

/-- Each expression with a canonical text is read back as a primary. -/
theorem Expr.IsCanonical.readable {e : Expr} (h : e.IsCanonical) : Readable e := by
  induction h with
  | integer _ | string _ =>
    intro limit levels d ts us _ spells _
    obtain ⟨t, rfl, ht⟩ := spells.singleton
    refine Ensures.noComments_bind (by simp [Token.isComment, ht]) (Ensures.current_bind ?_)
    simp only [ht]
    refine Ensures.advance_bind (by simp [ht]) (Ensures.pure ⟨rfl, ?_⟩)
    simp [Expr.tree, Tree.equal, Literal.kind, Literal.payload, Payload.equal]
  | var _ => exact readable_var _ _
  | binary _ _ ihl ihr => exact readable_binary ihl ihr
  | call _ canonical chain ih => exact readable_call canonical ih chain

/-! ## Texts -/

/-- A statement that evaluates the expression, but for locations. -/
theorem Expr.IsCanonical.item {e : Expr} (h : e.IsCanonical) {limit : Int} {ts us : List Token}
    (shallow : (e.nesting : Int) < limit) (spells : Spells ts e.lexemes) (apart : Apart e us)
    (halts : Halts 0 us) :
    Ensures (item limit) 0 (ts ++ us) (fun item rest => rest = us ∧
      ∃ body l, item = .evaluate body l ∧ body.tree.equal e.tree = true) Never := by
  have body : Recovers (expression limit) e 0 ts us := by
    refine Ensures.get_bind fun c hc => ?_
    obtain ⟨levels, hlevels⟩ : ∃ n, limit.toNat = n + 1 := ⟨limit.toNat - 1, by omega⟩
    have deep : e.nesting ≤ levels := by omega
    rw [hc.depth, Int.natCast_zero, Int.sub_zero, hlevels]
    exact Readable.expression h.readable deep spells apart halts
  obtain ⟨t, ts, rfl, ht, -⟩ := h.first spells.lexemes
  refine Ensures.current_bind ?_
  split
  · next hlex => exact absurd ht.mem_kind (by simp [Token.kind, hlex, Lexeme.kind])
  · next hlex => exact absurd ht.mem_kind (by simp [Token.kind, hlex, Lexeme.kind])
  · refine Ensures.current_bind (body.bind ?_)
    rintro a _ - - ⟨rfl, same⟩
    exact Ensures.pure ⟨rfl, a, _, rfl, same⟩

theorem Expr.mem_argumentLexemes {args : List Expr} {l : Lexeme} :
    l ∈ argumentLexemes args ↔ ∃ arg ∈ args, l ∈ arg.lexemes := by
  induction args with
  | nil => simp [argumentLexemes]
  | cons e args ih => simp [argumentLexemes, ih]

/-- The lexemes of an expression are no comments, and all of the language. -/
theorem Expr.IsCanonical.kind_notMem {e : Expr} (h : e.IsCanonical) :
    ∀ l ∈ e.lexemes, l.kind ∉ [.comment, .invalid] := by
  induction h with
  | integer _ | string _ | var _ => simp [lexemes, Lexeme.kind]
  | binary _ _ ihl ihr =>
    intro l hl
    simp only [lexemes, List.mem_cons, List.mem_append, List.not_mem_nil, or_false] at hl
    rcases hl with rfl | hl | rfl | hl | rfl
    · decide
    · exact ihl l hl
    · simp [Lexeme.kind]
    · exact ihr l hl
    · decide
  | call _ _ _ ih =>
    intro l hl
    simp only [lexemes, List.mem_cons, List.mem_append, List.not_mem_nil, or_false,
      mem_argumentLexemes] at hl
    rcases hl with rfl | rfl | ⟨arg, harg, hl⟩ | rfl
    · simp [Lexeme.kind]
    · decide
    · exact ih arg harg l hl
    · decide

/-- The text of an expression is its tokens and the end of the input. -/
theorem Expr.IsCanonical.tokens {e : Expr} (h : e.IsCanonical) (file : String) :
    ∃ ts last, (Scanner.ofText file e.text).Splits (ts ++ [last]) ∧ Spells ts e.lexemes ∧
      last.lexeme = .endOfInput := by
  obtain ⟨t, us, splits, lexemes, behind⟩ := h.splits file
  obtain ⟨ts, ends, hts, hlexemes, hends⟩ := List.map_eq_append_iff.1 lexemes
  obtain ⟨last, rfl, hlast⟩ := List.map_eq_singleton_iff.1 hends
  obtain ⟨t', ts, rfl, ht, -⟩ := h.first hlexemes
  obtain ⟨rfl, rfl⟩ := List.cons.inj hts
  refine ⟨t :: ts, last, splits, ⟨hlexemes, fun u hu op hop => ?_⟩, hlast⟩
  -- Only the first token is the first of its line, and it is no operator.
  rcases List.mem_cons.1 hu with rfl | hu
  · exact absurd ht.mem_kind (by simp [Token.kind, hop, Lexeme.kind])
  · have line := behind u (List.mem_append_left _ hu)
    cases op <;> simp [Token.operator?, hop, line]

theorem Outcome.run_of_errors_eq_nil {o : Outcome} (file : String) (strict : Bool)
    (stop : o.stop = none) (errors : o.errors = []) :
    o.run file strict = ⟨.ok (o.result file), o.items, o.session.journal⟩ := by
  have accepted : (if strict then o.session.journal.diagnostics.rejection? else none) = none := by
    simp [Diagnostics.rejection?_eq_none errors]
  simp only [run, stop, accepted]

namespace Session

variable {s : Session} {o : Outcome} {last : Token} {ts : List Token} {nesting : Int} {e : Expr}

theorem Opens.diagnostics_eq {journal : Journal} (h : s.Opens journal ts)
    (valid : ∀ t ∈ ts, t.diagnostic? = none) : s.journal.diagnostics = journal.diagnostics := by
  have first : (ts.take 1).filterMap Token.diagnostic? = [] :=
    List.filterMap_eq_nil_iff.2 fun t ht => valid t (List.mem_of_mem_take ht)
  have errors := h.errors
  rw [first, List.append_nil] at errors
  rw [Diagnostics.mk.injEq]
  exact ⟨h.limit, errors, h.warnings⟩

/-- A run over the tokens of an expression reads one statement. -/
theorem Runs.evaluate (h : Runs nesting .all 0 s (ts ++ [last]) o)
    (shows : s.cursor.Shows 0 (ts ++ [last])) (canonical : e.IsCanonical)
    (shallow : (e.nesting : Int) < nesting) (spells : Spells ts e.lexemes)
    (hlast : last.lexeme = .endOfInput) (valid : ∀ t ∈ ts ++ [last], t.diagnostic? = none) :
    o.stop = none ∧ o.session.journal.diagnostics = s.journal.diagnostics ∧
      ∃ body l, o.items = [.evaluate body l] ∧ body.tree.equal e.tree = true := by
  have apart : Apart e [last] := .of_head (by simp [Token.kind, hlast, Lexeme.kind]) e []
  have halts : Halts 0 [last] := halts_of_head (by simp [Token.operator?, hlast]) 0 []
  have reads := canonical.item shallow spells apart halts
  obtain ⟨_, s₁, _, hp, hm, rfl, body, l, rfl, same⟩ | ⟨_, _, _, _, _, never⟩ :=
    perform_cases shows reads
  · obtain ⟨t, us, rfl, ht, -⟩ := canonical.first spells.lexemes
    have notEnd : t.lexeme ≠ .endOfInput := by
      intro he
      exact absurd ht.mem_kind (by simp [Token.kind, he, Lexeme.kind])
    obtain ⟨_, o₁, hm₁, run, rfl⟩ := h.of_ok notEnd ht.isComment hp rfl
    obtain rfl := hm.leads.shows.unique hm₁.leads.shows
    obtain rfl := run.of_end hlast
    exact ⟨rfl, hm.diagnostics_eq valid, body, l, rfl, same⟩
  · exact never.elim

end Session

/-- The text of an expression is read back as a statement that evaluates the same
    expression, but for locations. -/
theorem readProgram_text (file : String) (skip strict : Bool) (nesting limit : Int) (e : Expr)
    (canonical : e.IsCanonical) (shallow : (e.nesting : Int) < nesting) :
    let run := (readProgram (.ofText file e.text) skip nesting .all (.empty limit)).run file strict
    run.journal.diagnostics = .empty limit ∧ ∃ parsed, run.result = .ok parsed ∧
      ∃ body l, parsed.program.items = [.evaluate body l] ∧ body.tree.equal e.tree = true := by
  intro run
  obtain ⟨ts, last, splits, spells, hlast⟩ := canonical.tokens file
  have kinds : ∀ t ∈ ts ++ [last], t.kind ∉ [.comment, .invalid] := by
    intro t ht
    rcases List.mem_append.1 ht with ht | ht
    · exact canonical.kind_notMem _ (spells.lexemes ▸ List.mem_map_of_mem ht)
    · rw [List.mem_singleton.1 ht, Token.kind, hlast]
      decide
  have valid : ∀ t ∈ ts ++ [last], t.diagnostic? = none := fun t ht =>
    Token.diagnostic?_of_kind fun hk => kinds t ht (by simp [hk])
  have all : shown skip (ts ++ [last]) = ts ++ [last] := by
    refine List.filter_eq_self.2 fun t ht => ?_
    have : t.isComment = false := Token.isComment_of_kind fun hk => kinds t ht (by simp [hk])
    simp [this]
  obtain ⟨s, opens, runs⟩ := runs_readProgram splits skip nesting .all (.empty limit)
  rw [all] at opens runs
  obtain ⟨stop, diagnostics, body, l, items, same⟩ :=
    runs.evaluate opens.shows canonical shallow spells hlast valid
  have clean : s.journal.diagnostics = .empty limit := opens.diagnostics_eq valid
  have hrun := Outcome.run_of_errors_eq_nil file strict stop
    (congrArg Diagnostics.errors (diagnostics.trans clean))
  refine ⟨?_, _, congrArg Run.result hrun, body, l, items, same⟩
  rw [congrArg Run.journal hrun]
  exact diagnostics.trans clean

/-- A call whose arguments hold two operators with points, a semicolon and another
    call. -/
theorem readProgram_text_call :
    let e : Expr := .call "f" [.var "x" none, .literal (.string "a;b") none,
      .binary .range (.literal (.integer 1) none)
        (.binary .dot (.var "y" none) (.call "g" [] none) none) none, .var "z" none] none
    let run := (readProgram (.ofText "main" e.text) false standardNesting .all (.empty 100)).run
      "main" false
    e.text = "f(x \"a;b\" (1 .. (y . g())) z)" ∧ e.IsCanonical ∧
      (e.nesting : Int) < standardNesting ∧ run.journal.diagnostics = .empty 100 ∧
      ∃ parsed, run.result = .ok parsed ∧
        ∃ body l, parsed.program.items = [.evaluate body l] ∧ body.tree.equal e.tree = true := by
  intro e run
  have letter : ∀ c : Char, c.isLower = true → IsName (String.singleton c) :=
    fun c hc => ⟨c, [], by simp, hc, List.forall_mem_nil _⟩
  have inner : Expr.IsCanonical (.binary .range (.literal (.integer 1) none)
      (.binary .dot (.var "y" none) (.call "g" [] none) none) none) := by
    refine .binary (.integer (by decide)) (.binary (.var ?_) (.call ?_ ?_ .nil))
    · exact letter 'y' rfl
    · exact letter 'g' rfl
    · exact List.forall_mem_nil _
  have canonical : e.IsCanonical := by
    refine .call (letter 'f' rfl) ?_ ?_
    · simp only [List.forall_mem_cons]
      refine ⟨.var (letter 'x' rfl), .string (by simp [Text.isLineEnd]), inner, .var (letter 'z' rfl),
        List.forall_mem_nil _⟩
    · simp [Merges]
  have shallow : (e.nesting : Int) < standardNesting := by decide
  exact ⟨by decide +kernel, canonical, shallow,
    readProgram_text "main" false false standardNesting 100 e canonical shallow⟩

end Soul
