import Mathlib.Data.List.Infix
import Soul.Proofs.Fetch

/-!
# Reading without the comments

A source is read with its comments, and once more without them. Where the first
reading succeeds, so does the second, with the same value, and it stops at the
same token, comments aside (`Read.Mirrored`).

This is not so for every source. A comment ends what is being read wherever it is
not passed over, while without it the reading looks at the token behind. So the
token behind must not be one with which the reading would have gone on. With few
exceptions (`Discerned`) this need not be asked for: whatever reads on behind the
comment has to accept that token, and then it is one with which something begins
(`IsOpener`). To say so, the rules go from the end of a reading to its start: if
openers stand behind the comments at its end, they do so at its start as well
(`Settled`).
-/

namespace Soul

open Grammar

variable {t u : Token} {ts us : List Token}

/-! ## Tokens behind comments -/

theorem bare_cons (ht : t.isComment = false) (ts : List Token) : bare (t :: ts) = t :: bare ts :=
  List.filter_cons_of_pos (by simp [ht])

theorem bare_cons_comment (ht : t.isComment = true) (ts : List Token) :
    bare (t :: ts) = bare ts :=
  List.filter_cons_of_neg (by simp [ht])

theorem bare_dropWhile (ts : List Token) : bare (ts.dropWhile Token.isComment) = bare ts := by
  induction ts with
  | nil => rfl
  | cons t ts ih =>
    cases ht : t.isComment with
    | false => rw [List.dropWhile_cons_of_neg (by simp [ht])]
    | true => rw [List.dropWhile_cons_of_pos ht, ih, bare_cons_comment ht]

theorem dropWhile_bare (ts : List Token) : (bare ts).dropWhile Token.isComment = bare ts := by
  cases h : bare ts with
  | nil => rfl
  | cons t us =>
    have mem : t ∈ bare ts := h ▸ List.mem_cons_self
    have bare : t.isComment = false := by simpa using (List.mem_filter.1 mem).2
    exact List.dropWhile_cons_of_neg (by simp [bare])

/-- A token with which something begins or ends, so that what stands before it is
    complete: the first of an expression or of a statement, a closing parenthesis
    or the end of the input. -/
def IsOpener (t : Token) : Prop :=
  t.kind ∈ [.identifier, .integer, .real, .string, .mark .apostrophe, .mark .comma,
    .mark .leftParen, .mark .rightParen, .mark .dollar, .endOfInput] ∨
    t.kind = .operator .dot ∧ t.startsLine = true

theorem IsOpener.of_startsPrimary (h : StartsPrimary t) : IsOpener t := by
  have := h.mem_kind
  refine .inl ?_
  simp only [List.mem_cons] at this ⊢
  tauto

theorem IsOpener.operator? (h : IsOpener t) : t.operator? = none := by
  by_contra hne
  obtain ⟨op, ho⟩ := Option.ne_none_iff_exists'.1 hne
  obtain ⟨op', hk, hline⟩ := isBinary_iff.2 ⟨op, ho⟩
  obtain h | ⟨h, hs⟩ := h
  · simp [hk] at h
  · obtain rfl : op' = .dot := by simpa [hk] using h
    exact absurd (hs.symm.trans (hline rfl)) (by simp)

theorem IsOpener.kind_ne {kind : Kind} (h : IsOpener t)
    (hk : kind ∈ [.operator .assign, .mark .colon, .typeName, .mark .arrow]) : t.kind ≠ kind := by
  rintro rfl
  obtain h | ⟨h, -⟩ := h
  · simp only [List.mem_cons, List.not_mem_nil, or_false] at hk
    rcases hk with hk | hk | hk | hk <;> simp [hk] at h
  · simp [h] at hk

/-- The first of the tokens, comments aside, is an opener. -/
def Opening (ts : List Token) : Prop := ∀ u ∈ (bare ts).head?, IsOpener u

/-- An opener stands behind the comments that come first, if there are any. -/
def Settled (ts : List Token) : Prop := ∀ t ∈ ts.head?, t.isComment = true → Opening ts

theorem Settled.of_not_comment (ht : t.isComment = false) : Settled (t :: ts) := by
  rintro _ ⟨⟩ hc
  exact absurd (hc.symm.trans ht) (by simp)

theorem opening_cons (ht : t.isComment = false) : Opening (t :: ts) ↔ IsOpener t := by
  simp [Opening, bare_cons ht]

/-- No comment between the first tokens keeps apart what would be one without it. -/
def Discerns : List Token → Prop
  | first :: second :: others =>
    -- No comments stand between an identifier and a parenthesis.
    (first.kind = .identifier → second.isComment = true →
      ∀ t ∈ (bare others).head?, t.kind ≠ .mark .leftParen) ∧
    -- A dot right behind a comment is the first token of its line.
    (first.isComment = true → second.kind = .operator .dot → second.startsLine = true)
  | _ => True

instance : DecidablePred Discerns
  | [] | [_] => instDecidableTrue
  | _ :: _ :: _ => instDecidableAnd

/-- No comment keeps apart what would be one without it. -/
def Discerned (tokens : List Token) : Prop := ∀ ts ∈ tokens.tails, Discerns ts

instance (tokens : List Token) : Decidable (Discerned tokens) :=
  List.decidableBAll _ tokens.tails

theorem Discerned.of_suffix (h : Discerned ts) (hs : us <:+ ts) : Discerned us :=
  fun vs hvs => h vs ((List.mem_tails vs ts).2 (((List.mem_tails vs us).1 hvs).trans hs))

theorem Discerned.first_two {others : List Token} (h : Discerned ts)
    (hs : t :: u :: others <:+ ts) : Discerns (t :: u :: others) :=
  h _ ((List.mem_tails _ ts).2 hs)

namespace Read

variable {α β : Type} {d : Nat} {S S' : Prop}

theorem refuse_ne_ok {cause : Cause} {c c₁ : Cursor} {a : α} :
    (refuse t cause : Read α) c ≠ .ok a c₁ := by
  unfold refuse
  cases t.diagnostic? <;> nofun

/-- Where the reading succeeds from a cursor that shows `ts`, it succeeds without
    the comments as well, with the same value, and shows the same tokens then,
    comments aside. Openers are needed behind comments at the end of the reading.
    Then `S` holds of its start. -/
def Mirrored (p : Read α) (d : Nat) (ts : List Token) (S : Prop) : Prop :=
  ∀ ⦃c a c₁⦄, c.Shows d ts → p c = .ok a c₁ → ∃ ts₁, c.Leads ts c₁ ts₁ ∧ (Settled ts₁ → S ∧
    ∀ c' : Cursor, c'.Shows d (bare ts) → ∃ c₁', p c' = .ok a c₁' ∧
      c'.Leads (bare ts) c₁' (bare ts₁))

namespace Mirrored

variable {p : Read α} {f : α → Read β}

theorem imp (h : Mirrored p d ts S) (hS : S → S') : Mirrored p d ts S' := by
  intro c a c₁ hc hp
  obtain ⟨ts₁, hl, mirror⟩ := h hc hp
  exact ⟨ts₁, hl, fun settled => (mirror settled).imp_left hS⟩

theorem pure {a : α} : Mirrored (pure a) d ts (Settled ts) := by
  rintro c _ _ hc ⟨⟩
  exact ⟨ts, hc.leads, fun settled => ⟨settled, fun c' hc' => ⟨c', rfl, hc'.leads⟩⟩⟩

theorem refuse {cause : Cause} : Mirrored (refuse t cause : Read α) d ts S :=
  fun _ _ _ _ hp => absurd hp refuse_ne_ok

/-- What is known of the first reading is known where the second one begins. -/
theorem bind_of_ok (hp : Mirrored p d ts S) (hf : ∀ ⦃c a c₁ ts₁⦄, c.Shows d ts → p c = .ok a c₁ →
      c.Leads ts c₁ ts₁ → Mirrored (f a) d ts₁ (Settled ts₁)) :
    Mirrored (p >>= f) d ts S := by
  intro c b c₂ hc h
  cases h₁ : p c with
  | error e c₁ =>
    rw [bind_of_error h₁] at h
    cases h
  | ok a c₁ =>
    rw [Read.bind_of_ok h₁] at h
    obtain ⟨ts₁, hl₁, mirror₁⟩ := hp hc h₁
    obtain ⟨ts₂, hl₂, mirror₂⟩ := hf hc h₁ hl₁ (hl₁.shows_at hc) h
    refine ⟨ts₂, hl₁.trans hl₂, fun settled => ?_⟩
    -- From the end to the middle, from there to the start, and then forth again.
    obtain ⟨settled₁, second⟩ := mirror₂ settled
    obtain ⟨start, first⟩ := mirror₁ settled₁
    refine ⟨start, fun c' hc' => ?_⟩
    obtain ⟨c₁', h₁', hl₁'⟩ := first c' hc'
    obtain ⟨c₂', h₂', hl₂'⟩ := second c₁' (hl₁'.shows_at hc')
    exact ⟨c₂', (Read.bind_of_ok h₁' f).trans h₂', hl₁'.trans hl₂'⟩

theorem bind (hp : Mirrored p d ts S)
    (hf : ∀ a ts₁, ts₁ <:+ ts → Mirrored (f a) d ts₁ (Settled ts₁)) :
    Mirrored (p >>= f) d ts S :=
  hp.bind_of_ok fun _ a _ ts₁ _ _ hl => hf a ts₁ hl.suffix

theorem current_bind {f : Token → Read β} (ht : t.isComment = false)
    (h : Mirrored (f t) d (t :: ts) S) : Mirrored (current >>= f) d (t :: ts) S := by
  intro c b c₁ hc hp
  have hp : f t c = .ok b c₁ := hc.current_eq ▸ hp
  obtain ⟨ts₁, hl, mirror⟩ := h hc hp
  refine ⟨ts₁, hl, fun settled => (mirror settled).imp_right fun follow c' hc' => ?_⟩
  obtain ⟨c₁', hp', hl'⟩ := follow c' hc'
  rw [bare_cons ht] at hc'
  rw [← hc'.current_eq] at hp'
  exact ⟨c₁', hp', hl'⟩

/-- A reading looks at the next token, to go on with it or not. At a comment it
    does not go on, and neither does it at an opener behind comments. -/
theorem peek_bind {f : Token → Read β} {b : β}
    (step : ∀ t us, ts = t :: us → t.isComment = false → Mirrored (f t) d (t :: us) True)
    (stop : ∀ (t : Token) body, t.lexeme = .comment body → f t = Pure.pure b)
    (stop' : ∀ t us u, ts = t :: us → t.isComment = true → u ∈ (bare us).head? → IsOpener u →
      f u = Pure.pure b) : Mirrored (current >>= f) d ts (Settled ts) := by
  intro c a c₁ hc hp
  obtain ⟨t, us, rfl⟩ := hc.ended.exists_cons
  cases ht : t.isComment with
  | false =>
    exact (current_bind ht (step t us rfl ht)).imp (fun _ => .of_not_comment ht) hc hp
  | true =>
    have hp : f t c = .ok a c₁ := hc.current_eq ▸ hp
    obtain ⟨body, hbody⟩ := Token.isComment_iff.1 ht
    rw [stop t body hbody] at hp
    cases hp
    refine ⟨t :: us, hc.leads, fun settled => ⟨settled, fun c' hc' => ⟨c', ?_, hc'.leads⟩⟩⟩
    have opening := settled t rfl ht
    unfold Opening at opening
    rw [bare_cons_comment ht] at hc' opening
    obtain ⟨u, vs, hvs⟩ := hc'.ended.exists_cons
    have first : u ∈ (bare us).head? := by rw [hvs]; rfl
    rw [hvs] at hc'
    have hu := stop' t us u rfl ht first (opening u first)
    rw [← hc'.current_eq] at hu
    exact congrFun hu c'

/-- A step that does not fail and leaves the same tokens, comments aside. -/
theorem step_bind {p : Read Unit} {f : Unit → Read β}
    (hp : Ensures p d ts (fun _ ts' => ts' = us) Never)
    (hp' : Ensures p d (bare ts) (fun _ ts' => ts' = bare us) Never)
    (hf : Mirrored (f ()) d us S) : Mirrored (p >>= f) d ts S := by
  intro c b c₂ hc h
  cases h₁ : p c with
  | error e c₁ =>
    obtain ⟨_, -, never⟩ := hp.error hc h₁
    exact never.elim
  | ok _ c₁ =>
    rw [Read.bind_of_ok h₁] at h
    obtain ⟨_, hl₁, rfl⟩ := hp.ok hc h₁
    obtain ⟨ts₂, hl₂, mirror⟩ := hf (hl₁.shows_at hc) h
    refine ⟨ts₂, hl₁.trans hl₂, fun settled => (mirror settled).imp_right fun follow c' hc' => ?_⟩
    cases h₁' : p c' with
    | error e c₁' =>
      obtain ⟨_, -, never⟩ := hp'.error hc' h₁'
      exact never.elim
    | ok _ c₁' =>
      obtain ⟨_, hl₁', rfl⟩ := hp'.ok hc' h₁'
      obtain ⟨c₂', h₂', hl₂'⟩ := follow c₁' (hl₁'.shows_at hc')
      exact ⟨c₂', (Read.bind_of_ok h₁' f).trans h₂', hl₁'.trans hl₂'⟩

theorem advance_bind {f : Unit → Read β} (ht : t.isComment = false)
    (he : t.lexeme ≠ .endOfInput) (h : Mirrored (f ()) d ts S) :
    Mirrored (advance >>= f) d (t :: ts) S := by
  refine step_bind (Ensures.advance he rfl) ?_ h
  rw [bare_cons ht]
  exact Ensures.advance he rfl

theorem advance (ht : t.isComment = false) (he : t.lexeme ≠ .endOfInput) :
    Mirrored advance d (t :: ts) True := by
  have stay : Mirrored (Pure.pure () : Read Unit) d ts True := pure.imp fun _ => trivial
  have moved := advance_bind (f := Pure.pure) ht he stay
  rwa [bind_pure] at moved

/-- Behind comments that are passed over, a token is found that has to be an
    opener. -/
theorem skipComments_bind {f : Unit → Read β}
    (h : ∀ t us, t :: us <:+ ts → t.isComment = false → Mirrored (f ()) d (t :: us) (IsOpener t)) :
    Mirrored (skipComments >>= f) d ts (Opening ts) := by
  intro c a c₁ hc hp
  obtain ⟨t, us, hts⟩ : ∃ t us, ts.dropWhile Token.isComment = t :: us := by
    have skipped := Ensures.skipComments (E := Never) (d := d)
      (Q := fun _ ts' => ts' = ts.dropWhile Token.isComment) rfl
    cases h₁ : skipComments c with
    | error e c₁ =>
      obtain ⟨_, -, never⟩ := skipped.error hc h₁
      exact never.elim
    | ok _ c₁ =>
      obtain ⟨_, hl, rfl⟩ := skipped.ok hc h₁
      exact hl.shows.ended.exists_cons
  have ht : t.isComment = false := by
    have := List.head?_dropWhile_not Token.isComment ts
    rw [hts] at this
    simpa using this
  have same : bare ts = t :: bare us := by rw [← bare_dropWhile, hts, bare_cons ht]
  have found := h t us (hts ▸ List.dropWhile_suffix _) ht
  refine (step_bind (Ensures.skipComments hts) ?_ found).imp (fun opener => ?_) hc hp
  · refine Ensures.skipComments ?_
    rw [dropWhile_bare, same, bare_cons ht]
  · rw [Opening, same]
    rintro _ ⟨⟩
    exact opener

/-- A reading that goes on with the next token refuses a comment. -/
theorem token_bind {f : Token → Read β}
    (step : ∀ t us, ts = t :: us → t.isComment = false → Mirrored (f t) d (t :: us) True)
    (stuck : ∀ (t : Token) body, t.lexeme = .comment body → ∃ cause, f t = Read.refuse t cause) :
    Mirrored (current >>= f) d ts (Settled ts) := by
  intro c a c₁ hc hp
  obtain ⟨t, us, rfl⟩ := hc.ended.exists_cons
  cases ht : t.isComment with
  | false =>
    exact (current_bind ht (step t us rfl ht)).imp (fun _ => .of_not_comment ht) hc hp
  | true =>
    have hp : f t c = .ok a c₁ := hc.current_eq ▸ hp
    obtain ⟨body, hbody⟩ := Token.isComment_iff.1 ht
    obtain ⟨cause, hf⟩ := stuck t body hbody
    rw [hf] at hp
    exact absurd hp refuse_ne_ok

/-- An expected token that is there. -/
theorem select_token {select : Lexeme → Option α} {cause : Cause} (he : select .endOfInput = none)
    (ht : t.isComment = false) :
    Mirrored (match select t.lexeme with
      | some a => do
        Read.advance
        return (t, a)
      | none => Read.refuse t cause) d (t :: ts) (∃ a, select t.lexeme = some a) := by
  cases ha : select t.lexeme with
  | none => exact refuse
  | some a =>
    have notEnd : t.lexeme ≠ .endOfInput := by
      intro h
      rw [h, he] at ha
      cases ha
    exact advance_bind ht notEnd (pure.imp fun _ => ⟨a, rfl⟩)

theorem expect_cons {select : Lexeme → Option α} {expected : String} {context : Option String}
    (he : select .endOfInput = none) (ht : t.isComment = false) :
    Mirrored (expect select expected context) d (t :: ts) (∃ a, select t.lexeme = some a) :=
  current_bind ht (select_token he ht)

theorem expect {select : Lexeme → Option α} {expected : String} {context : Option String}
    (he : select .endOfInput = none) (hc : ∀ body, select (.comment body) = none) :
    Mirrored (expect select expected context) d ts (Settled ts) := by
  refine token_bind (fun t us _ ht => (select_token he ht).imp fun _ => trivial) ?_
  intro t body hbody
  exact ⟨_, by rw [hbody, hc body]⟩

theorem nested {p : Read α} (h : Mirrored p (d + 1) ts S) : Mirrored (nested p) d ts S := by
  intro c a c₁ hc hp
  unfold Read.nested at hp
  cases h₁ : p { c with depth := c.depth + 1 } with
  | error e c₂ =>
    rw [h₁] at hp
    cases hp
  | ok b c₂ =>
    rw [h₁] at hp
    cases hp
    obtain ⟨ts₁, hl, mirror⟩ := h hc.deeper h₁
    refine ⟨ts₁, hl.back, fun settled => (mirror settled).imp_right fun follow c' hc' => ?_⟩
    obtain ⟨c₁', hp', hl'⟩ := follow _ hc'.deeper
    refine ⟨_, ?_, hl'.back⟩
    unfold Read.nested
    rw [hp']

/-- A loop has rounds enough with the comments and without them. -/
theorem loop {loop : List (Except Fault Token) → Read α}
    (h : ∀ rounds, Mirrored (loop rounds) d ts S)
    (agree : ∀ rounds rounds', (bare ts).length ≤ rounds.length →
      (bare ts).length ≤ rounds'.length → Agree (loop rounds) (loop rounds') d (bare ts)) :
    Mirrored (do loop (← get).remaining) d ts S := by
  intro c a c₁ hc hp
  obtain ⟨ts₁, hl, mirror⟩ := h c.remaining hc hp
  refine ⟨ts₁, hl, fun settled => (mirror settled).imp_right fun follow c' hc' => ?_⟩
  obtain ⟨c₁', hp', hl'⟩ := follow c' hc'
  have fewer : (bare ts).length ≤ c.remaining.length :=
    hc.length_remaining ▸ List.length_filter_le _ ts
  have all : (bare ts).length ≤ c'.remaining.length := Nat.le_of_eq hc'.length_remaining.symm
  have same : loop c.remaining c' = loop c'.remaining c' := agree _ _ fewer all c' hc'
  exact ⟨c₁', same.symm.trans hp', hl'⟩

end Mirrored

/-! ## Expressions -/

/-- The reading is the same without the comments, and begins with an opener. -/
def MirroredExpression (p : Read Expr) : Prop :=
  ∀ {d : Nat} {ts : List Token}, Discerned ts → Mirrored p d ts (Opening ts)

variable {inner operand : Read Expr}

theorem argumentsWithin_mirrored (hi : MirroredExpression inner)
    (rounds : List (Except Fault Token)) (hd : Discerned ts) :
    Mirrored (argumentsWithin inner rounds) d ts (Settled ts) := by
  induction rounds generalizing ts with
  | nil => exact Mirrored.pure
  | cons r rounds ih =>
    refine (Mirrored.skipComments_bind fun t us hs ht => ?_).imp fun opening _ _ _ => opening
    refine Mirrored.current_bind ht ?_
    split
    · next hlex =>
      refine Mirrored.advance_bind ht (by simp [hlex]) (Mirrored.pure.imp fun _ => ?_)
      exact .inl (by simp [Token.kind_eq_mark.2 hlex])
    · exact Mirrored.refuse
    · refine ((hi (hd.of_suffix hs)).imp (opening_cons ht).1).bind fun arg ts₁ hs₁ => ?_
      exact (ih (hd.of_suffix (hs₁.trans hs))).bind fun _ _ _ => Mirrored.pure

theorem arguments_mirrored (hi : MirroredExpression inner) (sound : SoundExpression inner)
    (hd : Discerned ts) : Mirrored (arguments inner) d ts (Settled ts) :=
  Mirrored.loop (fun rounds => argumentsWithin_mirrored hi rounds hd) fun rounds rounds' hr hr' =>
    argumentsWithin_agree sound rounds rounds' hr hr'

theorem named_mirrored (hi : MirroredExpression inner) (sound : SoundExpression inner)
    {name : String} (ht : t.lexeme = .identifier name) (hd : Discerned (t :: ts)) :
    Mirrored (named inner t name) d (t :: ts) True := by
  have noComment : t.isComment = false := by simp [Token.isComment, ht]
  have behind := hd.of_suffix (List.suffix_cons t ts)
  refine Mirrored.advance_bind noComment (by simp [ht]) ?_
  refine (Mirrored.peek_bind (b := .var name t.location) (fun u us hts hu => ?_) ?_ ?_).imp
    fun _ => trivial
  · subst hts
    split
    · next hlex =>
      refine Mirrored.advance_bind hu (by simp [hlex]) ?_
      refine ((arguments_mirrored hi sound (behind.of_suffix (List.suffix_cons u us))).imp
        fun _ => trivial).bind fun _ _ _ => Mirrored.pure
    · exact Mirrored.pure.imp fun _ => trivial
  · intro u body hbody
    rw [hbody]
  · -- Without the comments, a parenthesis would open the arguments of a call.
    intro c us u hts hc hu _
    subst hts
    have := (hd.first_two List.suffix_rfl).1 (Token.kind_eq_identifier.2 ⟨name, ht⟩) hc u hu
    split
    · next hlex => exact absurd (Token.kind_eq_mark.2 hlex) this
    · rfl

theorem identifier_mirrored {expected : String} {context : Option String} :
    Mirrored (expect identifier expected context) d ts (Settled ts) :=
  Mirrored.expect rfl fun _ => rfl

theorem declaration_mirrored (hi : MirroredExpression inner) (ht : IsSign t) (isMutable : Bool)
    (hd : Discerned (t :: ts)) : Mirrored (declaration inner t isMutable) d (t :: ts) True := by
  have starts : StartsPrimary t := .inr (.inr (.inl ht))
  have notEnd : t.lexeme ≠ .endOfInput := by
    rcases ht with ht | ht <;> simp [Token.kind_eq_mark.1 ht]
  refine Mirrored.advance_bind starts.isComment notEnd ?_
  refine (identifier_mirrored.imp fun _ => trivial).bind fun ⟨_, name⟩ ts₁ hs₁ => ?_
  have behind := hd.of_suffix (hs₁.trans (List.suffix_cons t ts))
  refine Mirrored.peek_bind (b := .declaration name isMutable none t.location)
    (fun u us hts hu => ?_) ?_ ?_
  · subst hts
    split
    · next hlex =>
      refine Mirrored.advance_bind hu (by simp [hlex]) ?_
      refine ((hi (behind.of_suffix (List.suffix_cons u us))).imp fun _ => trivial).bind
        fun _ _ _ => Mirrored.pure
    · exact Mirrored.pure.imp fun _ => trivial
  · intro u body hbody
    rw [hbody]
  · intro c us u _ _ _ opener
    split
    · next hlex => exact absurd (Token.kind_eq_operator.2 hlex) (opener.kind_ne (by simp))
    · rfl

theorem literal_mirrored {e : Expr} (ht : IsLiteral t) (he : t.lexeme ≠ .endOfInput) :
    Mirrored (do advance; return e) d (t :: ts) (IsOpener t) :=
  have starts : StartsPrimary t := .inr (.inl ht)
  Mirrored.advance_bind starts.isComment he
    (Mirrored.pure.imp fun _ => IsOpener.of_startsPrimary starts)

theorem primary_mirrored (hi : MirroredExpression inner) (sound : SoundExpression inner) :
    MirroredExpression (primary inner) := by
  intro d ts hd
  refine Mirrored.skipComments_bind fun t us hs ht => Mirrored.current_bind ht ?_
  have hd := hd.of_suffix hs
  split
  · next hlex =>
    refine (named_mirrored hi sound hlex hd).imp fun _ => .of_startsPrimary (.inl ?_)
    exact Token.kind_eq_identifier.2 ⟨_, hlex⟩
  · next hlex =>
    exact literal_mirrored (.inl (by simp [Token.kind, hlex, Lexeme.kind])) (by simp [hlex])
  · next hlex =>
    exact literal_mirrored (.inr (.inl (by simp [Token.kind, hlex, Lexeme.kind]))) (by simp [hlex])
  · next hlex =>
    exact literal_mirrored (.inr (.inr (by simp [Token.kind, hlex, Lexeme.kind]))) (by simp [hlex])
  · next hlex =>
    have sign : IsSign t := .inl (Token.kind_eq_mark.2 hlex)
    exact (declaration_mirrored hi sign false hd).imp fun _ =>
      .of_startsPrimary (.inr (.inr (.inl sign)))
  · next hlex =>
    have sign : IsSign t := .inr (Token.kind_eq_mark.2 hlex)
    exact (declaration_mirrored hi sign true hd).imp fun _ =>
      .of_startsPrimary (.inr (.inr (.inl sign)))
  · next hlex =>
    have left : IsOpener t := .of_startsPrimary (.inr (.inr (.inr (Token.kind_eq_mark.2 hlex))))
    refine Mirrored.advance_bind ht (by simp [hlex]) ?_
    refine ((hi (hd.of_suffix (List.suffix_cons t us))).imp fun _ => left).bind fun e ts₁ hs₁ => ?_
    refine (Mirrored.skipComments_bind fun r vs _ hr => ?_).imp fun opening _ _ _ => opening
    refine Mirrored.bind (Mirrored.bind ((Mirrored.expect_cons rfl hr).imp ?_)
      fun _ _ _ => Mirrored.pure) fun _ _ _ => Mirrored.pure
    rintro ⟨_, hkind⟩
    have kind : r.kind = .mark .rightParen := ofKind_eq_some hkind
    exact .inl (by simp [kind])
  · exact Mirrored.refuse

/-- An operator is found, or none is, whether there are comments or not. -/
theorem operatorFrom_mirrored (least : Nat) :
    Mirrored (operatorFrom least) d ts (Settled ts) := by
  rw [operatorFrom_eq]
  refine Mirrored.peek_bind (b := none) (fun t us _ _ => ?_) ?_ ?_
  · split <;> exact Mirrored.pure.imp fun _ => trivial
  · intro t body hbody
    simp [Token.operator?, hbody]
  · intro _ _ u _ _ _ opener
    rw [opener.operator?]

theorem chainWithin_mirrored (ho : MirroredExpression operand)
    (rounds : List (Except Fault Token)) (least : Nat) (lhs : Expr) (hd : Discerned ts) :
    Mirrored (chainWithin operand rounds least lhs) d ts (Settled ts) := by
  induction rounds generalizing ts least lhs with
  | nil => exact Mirrored.pure
  | cons r rounds ih =>
    refine (operatorFrom_mirrored least).bind_of_ok fun c found c₁ ts₁ hc hp hl => ?_
    obtain ⟨t, us, rfl⟩ := hc.ended.exists_cons
    obtain ⟨_, hl₁, rfl, rfl | ⟨op, hop, rfl⟩⟩ := (operatorFrom_ensures least).ok hc hp
    · obtain rfl := hl.shows.unique hl₁.shows
      exact Mirrored.pure
    · obtain rfl := hl.shows.unique hl₁.shows
      obtain ⟨noComment, notEnd⟩ := isComment_of_operator? hop
      refine Mirrored.advance_bind noComment notEnd ?_
      have behind := hd.of_suffix (List.suffix_cons t us)
      refine ((ho behind).imp fun _ => .of_not_comment noComment).bind fun rhs ts₂ hs₂ => ?_
      have hd₂ := behind.of_suffix hs₂
      exact (ih _ rhs hd₂).bind fun rhs ts₃ hs₃ => ih least _ (hd₂.of_suffix hs₃)

theorem expressionWithin_mirrored (limit : Int) (levels : Nat) :
    MirroredExpression (expressionWithin limit levels) := by
  induction levels with
  | zero => exact fun _ => Mirrored.nested fun _ _ _ _ hp => nomatch hp
  | succ levels ih =>
    intro d ts hd
    have sound := expressionWithin_sound limit levels
    have operand : MirroredExpression (primary (expressionWithin limit levels)) :=
      primary_mirrored ih sound
    refine Mirrored.nested ((operand hd).bind fun lhs ts₁ hs₁ => ?_)
    exact Mirrored.loop (fun rounds => chainWithin_mirrored operand rounds 0 lhs (hd.of_suffix hs₁))
      fun rounds rounds' hr hr' => chainWithin_agree (primary_sound sound) rounds rounds' 0 lhs hr hr'

theorem expression_mirrored (limit : Int) : MirroredExpression (expression limit) := by
  intro d ts hd c a c₁ hc hp
  have levels := expressionWithin_mirrored limit (limit - c.depth).toNat (d := d) hd hc hp
  rw [hc.depth] at levels
  obtain ⟨ts₁, hl, mirror⟩ := levels
  refine ⟨ts₁, hl, fun settled => (mirror settled).imp_right fun follow c' hc' => ?_⟩
  obtain ⟨c₁', hp', hl'⟩ := follow c' hc'
  rw [← hc'.depth] at hp'
  exact ⟨c₁', hp', hl'⟩

/-! ## Statements -/

theorem use_mirrored : Mirrored use d ts (Settled ts) := by
  refine (Mirrored.expect rfl fun _ => rfl).bind fun ⟨token, _⟩ _ _ =>
    identifier_mirrored.bind fun ⟨_, name⟩ ts₁ _ => ?_
  refine Mirrored.peek_bind (b := ⟨name, none, token.location⟩) (fun u us hts hu => ?_) ?_ ?_
  · subst hts
    split
    · next hlex =>
      refine Mirrored.advance_bind hu (by simp [hlex]) ?_
      exact (identifier_mirrored.imp fun _ => trivial).bind fun _ _ _ => Mirrored.pure
    · exact Mirrored.pure.imp fun _ => trivial
  · intro u body hbody
    rw [hbody]
  · intro _ _ u _ _ _ opener
    split
    · next hlex => exact absurd (Token.kind_eq_mark.2 hlex) (opener.kind_ne (by simp))
    · rfl

theorem typeName_of_opener (h : IsOpener t) : typeName t.lexeme = none := by
  by_contra hne
  obtain ⟨name, hname⟩ := Option.ne_none_iff_exists'.1 hne
  exact absurd (typeName_eq_some hname) (h.kind_ne (by simp))

theorem typeNamesWithin_mirrored (rounds : List (Except Fault Token)) :
    Mirrored (typeNamesWithin rounds) d ts (Settled ts) := by
  induction rounds generalizing ts with
  | nil => exact Mirrored.pure
  | cons r rounds ih =>
    refine Mirrored.peek_bind (b := []) (fun t us hts ht => ?_) ?_ ?_
    · subst hts
      split
      · exact Mirrored.pure.imp fun _ => trivial
      · next name hname =>
        have notEnd : t.lexeme ≠ .endOfInput := by
          rintro he
          simp [he, typeName] at hname
        exact Mirrored.advance_bind ht notEnd
          ((ih.imp fun _ => trivial).bind fun _ _ _ => Mirrored.pure)
    · intro t body hbody
      rw [hbody]
      rfl
    · intro _ _ u _ _ _ opener
      rw [typeName_of_opener opener]

theorem typeNames_mirrored : Mirrored typeNames d ts (Settled ts) :=
  Mirrored.loop typeNamesWithin_mirrored typeNamesWithin_agree

theorem result_mirrored : Mirrored result d ts (Settled ts) := by
  refine Mirrored.peek_bind (b := none) (fun t us _ ht => ?_) ?_ ?_
  · split
    · next hlex =>
      refine Mirrored.advance_bind ht (by simp [hlex]) ?_
      exact ((Mirrored.expect rfl fun _ => rfl).imp fun _ => trivial).bind
        fun _ _ _ => Mirrored.pure
    · exact Mirrored.pure.imp fun _ => trivial
  · intro t body hbody
    rw [hbody]
  · intro _ _ u _ _ _ opener
    split
    · next hlex => exact absurd (Token.kind_eq_mark.2 hlex) (opener.kind_ne (by simp))
    · rfl

theorem parameterMark_mirrored : Mirrored parameterMark d ts (Settled ts) := by
  refine Mirrored.token_bind (fun t us _ ht => ?_) ?_
  · split
    · next hlex => exact Mirrored.advance ht (by simp [hlex])
    · next hlex => exact Mirrored.advance ht (by simp [hlex])
    · exact Mirrored.refuse
  · intro t body hbody
    exact ⟨_, by rw [hbody]⟩

theorem parameters_mirrored (types : List String) :
    Mirrored (parameters types) d ts (Settled ts) := by
  induction types generalizing ts with
  | nil => exact Mirrored.pure
  | cons type types ih =>
    exact parameterMark_mirrored.bind fun _ _ _ => identifier_mirrored.bind fun _ _ _ =>
      ih.bind fun _ _ _ => Mirrored.pure

theorem prototype_mirrored : Mirrored prototype d ts (Settled ts) := by
  have sign : ∀ {kind : Kind} {expected : String} {context : Option String} {ts : List Token},
      kind ≠ .comment → kind ≠ .endOfInput →
      Mirrored (discard (expect (ofKind kind) expected context)) d ts (Settled ts) :=
    fun hc he => (Mirrored.expect (if_neg (Ne.symm he)) fun _ => if_neg (Ne.symm hc)).bind
      fun _ _ _ => Mirrored.pure
  exact identifier_mirrored.bind fun _ _ _ => (sign (by simp) (by simp)).bind fun _ _ _ =>
    typeNames_mirrored.bind fun types _ _ => result_mirrored.bind fun _ _ _ =>
      (parameters_mirrored types).bind fun _ _ _ => (sign (by simp) (by simp)).bind
        fun _ _ _ => Mirrored.pure

/-- A statement is the same without the comments. -/
theorem item_mirrored (limit : Int) (ht : t.isComment = false) (hd : Discerned (t :: ts)) :
    Mirrored (item limit) d (t :: ts) True := by
  refine Mirrored.current_bind ht ?_
  split
  · exact (use_mirrored.imp fun _ => trivial).bind fun _ _ _ => Mirrored.pure
  · refine Mirrored.bind (Mirrored.bind ((Mirrored.expect rfl fun _ => rfl).imp fun _ => trivial)
      fun _ ts₁ hs₁ => prototype_mirrored.bind fun _ ts₂ hs₂ => ?_) fun _ _ _ => Mirrored.pure
    have behind := hd.of_suffix (hs₂.trans hs₁)
    exact ((expression_mirrored limit behind).imp fun opening _ _ _ => opening).bind
      fun _ _ _ => Mirrored.pure
  · exact Mirrored.current_bind ht (((expression_mirrored limit hd).imp fun _ => trivial).bind
      fun _ _ _ => Mirrored.pure)

end Read

end Soul
