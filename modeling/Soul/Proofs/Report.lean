import Soul.Proofs.Fetch

/-!
# Each error is reported once, in order

The errors that a reading collects are the errors of the tokens that are none of
the language, each of them once, and between them the errors of statements that
could not be read. Each of the latter is found at a token of the source. All of
them come in the order of their places, and two of them have the same place only
where an expression is nested too deeply at a token that is none of the language
(`readProgram_reports`).

A reading that fails blames the token on which its cursor stands then
(`Read.Blaming`). Tokens that are none of the language are collected as the
cursor comes to them, so the errors of a run follow the tokens (`Reports`). A
failed statement is never resumed at the token that it failed at, unless another
statement begins with that token and fails behind it (`Session.Runs.reports`).
-/

namespace Soul

variable {limit : Int} {t u : Token} {ts us vs : List Token} {d : Diagnostic}
  {ds : List Diagnostic}

/-! ## Tokens to blame -/

/-- The error of a statement that cannot go on with the token. -/
inductive Violates (limit : Int) (t : Token) : Diagnostic → Prop
  /-- The grammar does not allow the token, which is one of the language. -/
  | refused {cause : Cause} : t.diagnostic? = none → cause.family = .grammar →
      Violates limit t ⟨cause, t.location⟩
  /-- An expression that begins with the token is nested too deeply. -/
  | tooDeep : Violates limit t ⟨.nestingTooDeep limit, t.location⟩

/-- The failure is one for which the token is to blame. -/
inductive Blames (limit : Int) (t : Token) : Failure → Prop
  | invalid {d : Diagnostic} : t.diagnostic? = some d → Blames limit t (.invalid d)
  | violation {d : Diagnostic} : Violates limit t d → Blames limit t (.violation d)
  | fault {f : Fault} : Blames limit t (.fault f)

namespace Read

variable {α β : Type} {c : Cursor} {p : Read α}

/-- Where the reading fails, the token that the cursor stands on is to blame. -/
def Blaming (limit : Int) (p : Read α) (c : Cursor) : Prop :=
  match p c with
  | .ok _ _ => True
  | .error e c' => Blames limit c'.current e

namespace Blaming

theorem error (h : Blaming limit p c) {e : Failure} {c' : Cursor} (hp : p c = .error e c') :
    Blames limit c'.current e := by
  rwa [Blaming, hp] at h

theorem pure {a : α} : Blaming limit (Pure.pure a) c := trivial

theorem bind {f : α → Read β} (hp : Blaming limit p c) (hf : ∀ a c', Blaming limit (f a) c') :
    Blaming limit (p >>= f) c := by
  unfold Blaming
  cases h : p c with
  | ok a c' =>
    rw [bind_of_ok h]
    exact hf a c'
  | error e c' =>
    rw [bind_of_error h]
    exact hp.error h

theorem current_bind {f : Token → Read β} (h : Blaming limit (f c.current) c) :
    Blaming limit (Read.current >>= f) c := h

theorem get_bind {f : Cursor → Read β} (h : Blaming limit (f c) c) :
    Blaming limit (get >>= f) c := h

theorem advance : Blaming limit advance c := by
  unfold Blaming Read.advance
  cases c.ahead with
  | nil => exact trivial
  | cons next rest =>
    cases next with
    | ok token => exact trivial
    | error f => exact .fault

theorem advance_bind {f : Unit → Read β} (h : ∀ c', Blaming limit (f ()) c') :
    Blaming limit (Read.advance >>= f) c :=
  advance.bind fun _ => h

theorem refuse {cause : Cause} (hc : cause.family = .grammar) :
    Blaming limit (refuse c.current cause : Read α) c := by
  unfold Read.refuse
  split
  · next hd => exact .invalid hd
  · next hd => exact .violation (.refused hd hc)

theorem expect {select : Lexeme → Option α} {expected : String} {context : Option String} :
    Blaming limit (expect select expected context) c := by
  refine current_bind ?_
  split
  · exact advance_bind fun _ => pure
  · exact refuse rfl

theorem skipWithin {q : Token → Bool} (rounds : List (Except Fault Token)) :
    Blaming limit (skipWithin q rounds) c := by
  induction rounds generalizing c with
  | nil => exact pure
  | cons r rounds ih =>
    refine current_bind ?_
    split
    · exact advance_bind fun _ => ih
    · exact pure

theorem skipComments : Blaming limit skipComments c := get_bind (skipWithin _)

theorem nested (h : ∀ c', Blaming limit p c') : Blaming limit (nested p) c := by
  unfold Blaming Read.nested
  cases hp : p { c with depth := c.depth + 1 } with
  | ok a c' => exact trivial
  | error e c' =>
    have blames := (h _).error hp
    exact blames

variable {inner operand : Read Expr}

theorem argumentsWithin (hi : ∀ c', Blaming limit inner c')
    (rounds : List (Except Fault Token)) : Blaming limit (argumentsWithin inner rounds) c := by
  induction rounds generalizing c with
  | nil => exact pure
  | cons r rounds ih =>
    refine skipComments.bind fun _ c => current_bind ?_
    split
    · exact advance_bind fun _ => pure
    · exact refuse rfl
    · exact (hi c).bind fun _ _ => ih.bind fun _ _ => pure

theorem named (hi : ∀ c', Blaming limit inner c') {token : Token} {name : String} :
    Blaming limit (named inner token name) c := by
  refine advance_bind fun _ => current_bind ?_
  split
  · exact advance_bind fun _ => (get_bind (argumentsWithin hi _)).bind fun _ _ => pure
  · exact pure

theorem declaration (hi : ∀ c', Blaming limit inner c') {token : Token} {isMutable : Bool} :
    Blaming limit (declaration inner token isMutable) c := by
  refine advance_bind fun _ => expect.bind fun _ _ => current_bind ?_
  split
  · exact advance_bind fun c => (hi c).bind fun _ _ => pure
  · exact pure

theorem primary (hi : ∀ c', Blaming limit inner c') : Blaming limit (primary inner) c := by
  refine skipComments.bind fun _ c => current_bind ?_
  split
  · exact named hi
  · exact advance_bind fun _ => pure
  · exact advance_bind fun _ => pure
  · exact advance_bind fun _ => pure
  · exact declaration hi
  · exact declaration hi
  · exact advance_bind fun c => (hi c).bind fun _ _ => skipComments.bind fun _ _ =>
      (expect.bind fun _ _ => pure).bind fun _ _ => pure
  · exact refuse rfl

theorem operatorFrom {least : Nat} : Blaming limit (operatorFrom least) c := by
  rw [operatorFrom_eq]
  refine current_bind ?_
  split <;> exact pure

theorem chainWithin (ho : ∀ c', Blaming limit operand c') (rounds : List (Except Fault Token))
    (least : Nat) (lhs : Expr) : Blaming limit (chainWithin operand rounds least lhs) c := by
  induction rounds generalizing c least lhs with
  | nil => exact pure
  | cons r rounds ih =>
    refine operatorFrom.bind fun found c => ?_
    split
    · exact pure
    · exact advance_bind fun c => (ho c).bind fun rhs _ =>
        (ih _ rhs).bind fun _ _ => ih least _

theorem expressionWithin (levels : Nat) : Blaming limit (expressionWithin limit levels) c := by
  induction levels generalizing c with
  | zero =>
    exact nested fun c => current_bind (Blames.violation .tooDeep)
  | succ levels ih =>
    have operand : ∀ c', Blaming limit (Read.primary (Read.expressionWithin limit levels)) c' :=
      fun _ => primary fun _ => ih
    exact nested fun c => (operand c).bind fun lhs _ => get_bind (chainWithin operand _ 0 lhs)

theorem expression : Blaming limit (expression limit) c := get_bind (expressionWithin _)

theorem use : Blaming limit use c := by
  refine expect.bind fun _ _ => expect.bind fun _ _ => current_bind ?_
  split
  · exact advance_bind fun _ => expect.bind fun _ _ => pure
  · exact pure

theorem typeNamesWithin (rounds : List (Except Fault Token)) :
    Blaming limit (typeNamesWithin rounds) c := by
  induction rounds generalizing c with
  | nil => exact pure
  | cons r rounds ih =>
    refine current_bind ?_
    split
    · exact pure
    · exact advance_bind fun _ => ih.bind fun _ _ => pure

theorem result : Blaming limit result c := by
  refine current_bind ?_
  split
  · exact advance_bind fun _ => expect.bind fun _ _ => pure
  · exact pure

theorem parameterMark : Blaming limit parameterMark c := by
  refine current_bind ?_
  split
  · exact advance
  · exact advance
  · exact refuse rfl

theorem parameters (types : List String) : Blaming limit (parameters types) c := by
  induction types generalizing c with
  | nil => exact pure
  | cons type types ih =>
    exact parameterMark.bind fun _ _ => expect.bind fun _ _ => ih.bind fun _ _ => pure

theorem prototype : Blaming limit prototype c :=
  expect.bind fun _ _ => (expect.bind fun _ _ => pure).bind fun _ _ =>
    (get_bind (typeNamesWithin _)).bind fun types _ => result.bind fun _ _ =>
      (parameters types).bind fun _ _ => (expect.bind fun _ _ => pure).bind fun _ _ => pure

/-- A statement that cannot be read has a token to blame. -/
theorem item : Blaming limit (item limit) c := by
  refine current_bind ?_
  split
  · exact use.bind fun _ _ => pure
  · exact (expect.bind fun _ _ => prototype.bind fun _ _ =>
      expression.bind fun _ _ => pure).bind fun _ _ => pure
  · exact current_bind (expression.bind fun _ _ => pure)

end Blaming

end Read

/-! ## Errors along the tokens -/

/-- The errors follow the tokens: the error of each token that has one, and behind
    it perhaps that of a statement that fails there, which is `failed`. -/
inductive Reports (limit : Int) : List Token → List Diagnostic → Prop
  | nil : Reports limit [] []
  | token {t : Token} {ts : List Token} {failed : Option Diagnostic} {ds : List Diagnostic} :
      (∀ d ∈ failed, Violates limit t d) → Reports limit ts ds →
      Reports limit (t :: ts) (t.diagnostic?.toList ++ (failed.toList ++ ds))

theorem errorsBetween_self (ts : List Token) : errorsBetween ts ts = [] := by
  simp [errorsBetween]

theorem errorsBetween_cons (t u : Token) (mid us : List Token) :
    errorsBetween (t :: (mid ++ u :: us)) (u :: us) =
      mid.filterMap Token.diagnostic? ++ u.diagnostic?.toList := by
  have count : (t :: (mid ++ u :: us)).length - (u :: us).length = (mid ++ [u]).length := by
    simp only [List.length_cons, List.length_append, List.length_nil]
    omega
  rw [errorsBetween, List.tail_cons, count, List.append_cons mid u us,
    List.take_left, List.filterMap_append]
  rfl

theorem filterMap_diagnostic?_cons (t : Token) (ts : List Token) :
    (t :: ts).filterMap Token.diagnostic? =
      t.diagnostic?.toList ++ ts.filterMap Token.diagnostic? := by
  cases h : t.diagnostic? <;> simp [h]

namespace Reports

theorem quiet (t : Token) (h : Reports limit ts ds) :
    Reports limit (t :: ts) (t.diagnostic?.toList ++ ds) :=
  @Reports.token limit t ts none ds nofun h

theorem skip (mid : List Token) (h : Reports limit ts ds) :
    Reports limit (mid ++ ts) (mid.filterMap Token.diagnostic? ++ ds) := by
  induction mid with
  | nil => exact h
  | cons m mid ih =>
    rw [filterMap_diagnostic?_cons, List.append_assoc]
    exact ih.quiet m

/-- On the way from `t :: ts` to `u :: us` the errors of the tokens between them
    are collected, that of `u` among them. -/
theorem moved (t : Token) (hs : u :: us <:+ ts)
    (h : Reports limit (u :: us) (u.diagnostic?.toList ++ ds)) :
    Reports limit ts (errorsBetween (t :: ts) (u :: us) ++ ds) := by
  obtain ⟨mid, rfl⟩ := hs
  rw [errorsBetween_cons, List.append_assoc]
  exact h.skip mid

end Reports

/-- The errors collected from the token `t` on, on which a session stands before a
    statement. The error of this token has been collected before. That of the
    statement may come next, unless `t` is a token to resume at. -/
def Following (limit : Int) (t : Token) (ts : List Token) (ds : List Diagnostic) : Prop :=
  ∃ (failed : Option Diagnostic) (es : List Diagnostic), ds = failed.toList ++ es ∧
    Reports limit ts es ∧ ∀ d ∈ failed, Violates limit t d ∧ Read.isResumption t = false

namespace Following

theorem of_reports (h : Reports limit ts ds) : Following limit t ts ds :=
  ⟨none, ds, rfl, h, nofun⟩

theorem reports (h : Following limit t ts ds) :
    Reports limit (t :: ts) (t.diagnostic?.toList ++ ds) := by
  obtain ⟨failed, es, rfl, hes, violates⟩ := h
  exact hes.token fun d hd => (violates d hd).1

theorem reports_of_isResumption (h : Following limit t ts ds) (ht : Read.isResumption t = true) :
    Reports limit ts ds := by
  obtain ⟨failed, es, rfl, hes, violates⟩ := h
  cases failed with
  | none => exact hes
  | some d => exact absurd ht (by simp [(violates d rfl).2])

end Following

/-! ## Runs -/

namespace Session

open Read

variable {count : Nat} {s s' : Session} {o : Outcome} {e : Failure}

theorem blames_of_perform {α : Type} {p : Read α} (hp : s.perform p = (.error e, s'))
    (hb : Blaming limit p s.cursor) : Blames limit s'.cursor.current e := by
  unfold perform at hp
  split at hp
  · cases hp
  · next h =>
    cases hp
    exact hb.error h

theorem errors_collect_of_blames (s : Session) (h : Blames limit t e) :
    ∃ failed : Option Diagnostic, (s.collect e).errors = s.errors ++ failed.toList ∧
      ∀ d ∈ failed, Violates limit t d := by
  cases h with
  | invalid _ | fault => exact ⟨none, (List.append_nil _).symm, nofun⟩
  | @violation d h => exact ⟨some d, rfl, fun _ hd => Option.some.inj hd ▸ h⟩

/-- Behind a failed statement, the errors of the tokens that are passed over come
    next, and then those of the statements behind. -/
theorem reports_of_resumed (hv : (u :: us).dropWhile (!isResumption ·) = t :: ts)
    (h : Following limit t ts ds) :
    Reports limit us (errorsBetween (u :: us) (t :: ts) ++ ds) := by
  have resumes : isResumption t = true := by
    have := List.head?_dropWhile_not (!isResumption ·) (u :: us)
    rw [hv] at this
    simpa using this
  have behind := h.reports_of_isResumption resumes
  by_cases hu : isResumption u = true
  · -- The session stays where it is.
    rw [List.dropWhile_cons_of_neg (by simp [hu])] at hv
    obtain ⟨rfl, rfl⟩ := List.cons.inj hv
    rwa [errorsBetween_self, List.nil_append]
  · rw [List.dropWhile_cons_of_pos (by simpa using hu)] at hv
    exact (behind.quiet t).moved u (hv ▸ List.dropWhile_suffix _)

/-- A statement that fails at its first token is not resumed at that token. -/
theorem isResumption_of_failed (shows : s.cursor.Shows 0 (t :: ts))
    (notEnd : t.lexeme ≠ .endOfInput) (hp : s.perform (Read.item limit) = (.error e, s'))
    (hm : s.Moves (t :: ts) s' (t :: ts)) : isResumption t = false := by
  obtain ⟨_, _, _, hp₁, -⟩ | ⟨_, _, _, hp₁, hm₁, -, after⟩ :=
    perform_cases shows (item_sound limit notEnd)
  · exact absurd (hp.symm.trans hp₁) (by simp)
  · obtain ⟨-, rfl⟩ := Prod.mk.inj (hp.symm.trans hp₁)
    obtain rfl := hm.leads.shows.unique hm₁.leads.shows
    by_contra hu
    rw [List.dropWhile_cons_of_neg (by simpa using hu)] at after
    exact absurd after.length_le (by simp)

/-- The errors collected by a run follow the tokens. -/
theorem Runs.reports (h : Runs limit .all count s vs o) (shows : s.cursor.Shows 0 vs)
    (few : o.session.journal.diagnostics.isFull = false) :
    ∃ t ts ds, vs = t :: ts ∧ o.errors = s.errors ++ ds ∧ Following limit t ts ds := by
  induction h with
  | finish _ => exact ⟨_, _, [], rfl, (List.append_nil _).symm, .of_reports .nil⟩
  | @comment _ _ _ t _ _ _ hm _ ih =>
    obtain ⟨u, us, ds, rfl, errors, following⟩ := ih (hm.shows shows) few
    refine ⟨t, u :: us, _, rfl, ?_, .of_reports (following.reports.moved t List.suffix_rfl)⟩
    rw [errors, hm.errors, List.append_assoc]
  | @item _ s s' t ts ts' item _ _ _ _ hm sound _ _ ih =>
    have shows' : s'.cursor.Shows 0 ts' := hm.shows shows
    obtain ⟨u, us, ds, rfl, errors, following⟩ := ih shows' few
    have inside : u :: us <:+ ts :=
      (List.suffix_cons_iff.1 hm.leads.suffix).resolve_left fun same =>
        absurd sound.length_lt (by simp [same])
    refine ⟨t, ts, _, rfl, ?_, .of_reports (following.reports.moved t inside)⟩
    rw [← List.append_assoc, ← hm.errors]
    exact errors
  | objection _ _ _ _ _ hc => exact absurd hc (by simp [Consumer.all])
  | full _ _ _ _ _ hfull => exact absurd (hfull.symm.trans few) (by simp)
  | @resume _ s s' s'' t ts ts' e o notEnd _ hp hm refused _ hm' _ ih =>
    have shows' : (s'.collect e).cursor.Shows 0 ts' := cursor_collect s' e ▸ hm.shows shows
    obtain ⟨v, vs, ds, hv, errors, following⟩ := ih (hm'.shows shows') few
    obtain ⟨u, us, rfl⟩ := shows'.ended.exists_cons
    have behind := reports_of_resumed hv following
    rw [hv] at hm'
    have blames : Blames limit u e := (hm.shows shows).current_eq ▸ blames_of_perform hp .item
    obtain ⟨failed, collected, violates⟩ := errors_collect_of_blames s' blames
    have total : o.errors = s.errors ++ (errorsBetween (t :: ts) (u :: us) ++
        (failed.toList ++ (errorsBetween (u :: us) (v :: vs) ++ ds))) := by
      rw [errors, hm'.errors, collected, hm.errors]
      simp only [List.append_assoc]
    rcases List.suffix_cons_iff.1 hm.leads.suffix with same | inside
    · -- The statement failed at its first token.
      obtain ⟨rfl, rfl⟩ := List.cons.inj same
      rw [errorsBetween_self] at total
      exact ⟨u, us, _, rfl, total, failed, _, rfl, behind, fun d hd =>
        ⟨violates d hd, isResumption_of_failed shows notEnd hp hm⟩⟩
    · exact ⟨t, ts, _, rfl, total, .of_reports ((behind.token violates).moved t inside)⟩

end Session

/-! ## Places -/

theorem Spelled.ne_invalid {x : List Char} {lexeme : Lexeme} (h : Spelled x lexeme)
    (cause : Cause) : lexeme ≠ .invalid cause := by
  cases h <;> exact Lexeme.noConfusion

theorem Lexes.family_eq_lexical {x rest : List Char} {cause : Cause}
    (h : Lexes x rest (.ok (.invalid cause))) : cause.family = .lexical := by
  cases h with
  | manyPoints _ _ _ | unterminated _ _ | stray _ _ => rfl
  | symbol _ longest => exact absurd rfl (longest.spelled.ne_invalid cause)

/-- The errors of tokens are lexical ones. -/
theorem Segments.family_eq_lexical {file : String} {p : Position} {fresh : Bool}
    {text : List Char} (h : Segments file p fresh text ts) :
    ∀ t ∈ ts, ∀ d, t.diagnostic? = some d → d.cause.family = .lexical := by
  induction h with
  | last _ => simp [Token.diagnostic?]
  | @token _ _ _ _ _ _ lexeme _ _ _ hl _ ih =>
    refine List.forall_mem_cons.2 ⟨fun d hd => ?_, ih⟩
    cases lexeme with
    | invalid cause =>
      cases hd
      exact hl.family_eq_lexical
    | _ => cases hd

theorem Token.location_of_diagnostic? (h : t.diagnostic? = some d) :
    d.location = some t.location := by
  unfold diagnostic? at h
  split at h
  · cases h
    rfl
  · cases h

theorem Violates.location_eq (h : Violates limit t d) : d.location = some t.location := by
  cases h <;> rfl

theorem Violates.family_eq (h : Violates limit t d) : d.cause.family = .grammar := by
  cases h with
  | refused _ hc => exact hc
  | tooDeep => rfl

/-- The place `l` comes before the place `m` of the same file. -/
def Location.Before (l m : Location) : Prop :=
  l.line < m.line ∨ l.line = m.line ∧ l.column < m.column

theorem Token.location_before (h : t.position.Before u.position) :
    t.location.Before u.location := by
  unfold Position.Before at h
  unfold Location.Before
  simp only [Token.location, Location.ofPosition]
  omega

/-- The error `d` is found at an earlier place than `d'`. Or it is that of one of
    the tokens, with which an expression begins that is nested too deeply, and this
    is `d'`. -/
def Precedes (limit : Int) (tokens : List Token) (d d' : Diagnostic) : Prop :=
  (∃ l l', d.location = some l ∧ d'.location = some l' ∧ l.Before l') ∨
    ∃ t ∈ tokens, t.diagnostic? = some d ∧ d' = ⟨.nestingTooDeep limit, t.location⟩

namespace Reports

/-- The lexical errors are those of the tokens. -/
theorem filter_lexical (h : Reports limit ts ds)
    (lexical : ∀ t ∈ ts, ∀ d, t.diagnostic? = some d → d.cause.family = .lexical) :
    ds.filter (·.cause.family = .lexical) = ts.filterMap Token.diagnostic? := by
  induction h with
  | nil => rfl
  | @token t ts failed ds violates _ ih =>
    obtain ⟨ht, hts⟩ := List.forall_mem_cons.1 lexical
    have own : t.diagnostic?.toList.filter (·.cause.family = .lexical) = t.diagnostic?.toList :=
      List.filter_eq_self.2 fun d hd => by simp [ht d (Option.mem_toList.1 hd)]
    have other : failed.toList.filter (·.cause.family = .lexical) = [] :=
      List.filter_eq_nil_iff.2 fun d hd => by
        simp [(violates d (Option.mem_toList.1 hd)).family_eq]
    rw [List.filter_append, List.filter_append, own, other, ih hts, List.nil_append,
      filterMap_diagnostic?_cons]

theorem exists_location (h : Reports limit ts ds) :
    ∀ d ∈ ds, ∃ t ∈ ts, d.location = some t.location := by
  induction h with
  | nil => simp
  | @token t ts failed ds violates _ ih =>
    intro d hd
    simp only [List.mem_append, Option.mem_toList] at hd
    rcases hd with hd | hd | hd
    · exact ⟨t, List.mem_cons_self, Token.location_of_diagnostic? hd⟩
    · exact ⟨t, List.mem_cons_self, (violates d hd).location_eq⟩
    · obtain ⟨u, hu, hl⟩ := ih d hd
      exact ⟨u, List.mem_cons_of_mem _ hu, hl⟩

theorem pairwise {tokens : List Token} (h : Reports limit ts ds) (sub : ts ⊆ tokens)
    (order : ts.Pairwise fun t u => t.position.Before u.position) :
    ds.Pairwise (Precedes limit tokens) := by
  have single : ∀ r : Option Diagnostic, r.toList.Pairwise (Precedes limit tokens) := by
    rintro (_ | d) <;> simp
  induction h with
  | nil => exact .nil
  | @token t ts failed ds violates hts ih =>
    obtain ⟨first, others⟩ := List.pairwise_cons.1 order
    obtain ⟨ht, hsub⟩ := List.cons_subset.1 sub
    have behind : ∀ d d', d.location = some t.location → d' ∈ ds → Precedes limit tokens d d' := by
      intro d d' hd hd'
      obtain ⟨u, hu, hl⟩ := hts.exists_location d' hd'
      exact .inl ⟨_, _, hd, hl, Token.location_before (first u hu)⟩
    refine List.pairwise_append.2
      ⟨single _, List.pairwise_append.2 ⟨single _, ih hsub others, ?_⟩, ?_⟩
    · intro d hd d' hd'
      exact behind d d' (violates d (Option.mem_toList.1 hd)).location_eq hd'
    · intro d hd d' hd'
      have own : t.diagnostic? = some d := Option.mem_toList.1 hd
      rcases List.mem_append.1 hd' with hd' | hd'
      · cases violates d' (Option.mem_toList.1 hd') with
        | refused none _ => exact absurd (own.symm.trans none) (by simp)
        | tooDeep => exact .inr ⟨t, ht, own, rfl⟩
      · exact behind d d' (Token.location_of_diagnostic? own) hd'

end Reports

/-- Where there are not too many errors, the lexical errors among those collected
    are the errors of the tokens of the text, each of them once. All other errors
    are found at tokens, and the errors come in the order of their places. -/
theorem readProgram_reports (file text : String) (skip : Bool) (nesting limit : Int)
    (fit : NumbersFit text.toList) :
    let tokens := tokensOf file text skip
    let o := readProgram (.ofText file text) skip nesting .all (.empty limit)
    o.stop = none ∧ (o.session.journal.diagnostics.isFull = false →
      o.errors.filter (·.cause.family = .lexical) = tokens.filterMap Token.diagnostic? ∧
      (∀ d ∈ o.errors, ∃ t ∈ tokens, d.location = some t.location) ∧
      o.errors.Pairwise (Precedes nesting tokens)) := by
  intro tokens o
  obtain ⟨ts, hts⟩ := Scanner.splits_ofText file fit
  obtain ⟨s, opens, run⟩ := runs_readProgram hts skip nesting .all (.empty limit)
  refine ⟨run.stop_eq_none, fun few => ?_⟩
  have htokens : tokens = shown skip ts := tokensOf_eq hts skip
  have sub : List.Sublist (shown skip ts) ts := List.filter_sublist
  obtain ⟨t, us, ds, hshown, errors, following⟩ := run.reports opens.shows few
  have first : o.errors = t.diagnostic?.toList ++ ds := by
    have start : s.errors = t.diagnostic?.toList := by
      rw [opens.errors, hshown]
      exact (filterMap_diagnostic?_cons t []).trans (List.append_nil _)
    rw [← start]
    exact errors
  have reports : Reports nesting (shown skip ts) o.errors := by
    rw [hshown, first]
    exact following.reports
  rw [htokens]
  exact ⟨reports.filter_lexical fun t ht => hts.2.family_eq_lexical t (sub.subset ht),
    reports.exists_location, reports.pairwise (List.Subset.refl _) (hts.2.pairwise.2.sublist sub)⟩

/-- A character that starts no token, at which an expression is nested too deeply. -/
theorem readProgram_reports_stray :
    let text := "(? .) $m\n.1.2"
    let o := readProgram (.ofText "main" text) false 1 .all (.empty 5)
    NumbersFit text.toList ∧ o.session.journal.diagnostics.isFull = false ∧
      o.errors.Pairwise (Precedes 1 (tokensOf "main" text false)) ∧ o.errors.length = 4 := by
  intro text o
  have fit : NumbersFit text.toList := by decide +kernel
  have few : o.session.journal.diagnostics.isFull = false := by decide +kernel
  have reports := (readProgram_reports "main" text false 1 5 fit).2 few
  exact ⟨fit, few, reports.2.2, by decide +kernel⟩

end Soul
