import Mathlib.Data.List.TakeWhile
import Soul.Proofs.Grammar
import Soul.Proofs.Reading

/-!
# What is read follows the grammar

Where a reading succeeds, the tokens that it passed over are, comments aside,
what the grammar derives for the part that was read; and where it fails, it
does so at the token it stands on then (`Refused`). Both are proved together,
function by function. An expression goes on for as long as it can: the token
behind it is no operator (`Halts`).
-/

namespace Soul

/-- The failure is that of the first of the tokens. -/
inductive Refused : Failure → List Token → Prop
  | invalid {diag : Diagnostic} {t : Token} {ts : List Token} : t.diagnostic? = some diag →
      Refused (.invalid diag) (t :: ts)
  | violation {cause : Cause} {t : Token} {ts : List Token} :
      Refused (.violation ⟨cause, t.location⟩) (t :: ts)

/-- The tokens that are no comments. -/
def bare (ts : List Token) : List Token := ts.filter (!·.isComment)

theorem bare_append (ts us : List Token) : bare (ts ++ us) = bare ts ++ bare us :=
  List.filter_append ..

/-- On the way from `ts` to `ts'` the tokens `us` have been passed over, and
    perhaps comments. -/
def Passed (ts ts' us : List Token) : Prop := ∃ used, ts = used ++ ts' ∧ bare used = us

namespace Passed

variable {ts ts' ts'' us vs : List Token} {t : Token}

theorem refl (ts : List Token) : Passed ts ts [] := ⟨[], rfl, rfl⟩

theorem trans (h : Passed ts ts' us) (h' : Passed ts' ts'' vs) : Passed ts ts'' (us ++ vs) := by
  obtain ⟨used, rfl, rfl⟩ := h
  obtain ⟨used', rfl, rfl⟩ := h'
  exact ⟨used ++ used', (List.append_assoc ..).symm, bare_append ..⟩

theorem cons (ht : t.isComment = false) (h : Passed ts ts' us) :
    Passed (t :: ts) ts' (t :: us) := by
  obtain ⟨used, rfl, rfl⟩ := h
  exact ⟨t :: used, rfl, List.filter_cons_of_pos (by simp [ht])⟩

theorem comments (h : Passed (ts.dropWhile Token.isComment) ts' us) : Passed ts ts' us := by
  obtain ⟨used, hused, rfl⟩ := h
  refine ⟨ts.takeWhile Token.isComment ++ used, ?_, ?_⟩
  · rw [List.append_assoc, ← hused, List.takeWhile_append_dropWhile]
  · have none : bare (ts.takeWhile Token.isComment) = [] :=
      List.filter_eq_nil_iff.2 fun t ht => by simp [List.mem_takeWhile_imp ht]
    rw [bare_append, none, List.nil_append]

theorem length_lt (h : Passed ts ts' us) (hne : us ≠ []) : ts'.length < ts.length := by
  obtain ⟨used, rfl, rfl⟩ := h
  have : used ≠ [] := by rintro rfl; exact hne rfl
  have := List.length_pos_iff.2 this
  rw [List.length_append]
  omega

end Passed

/-- The tokens do not go on with an operator of the tier `least` or a higher
    one. -/
def Halts (least : Nat) (ts : List Token) : Prop :=
  ∀ t ∈ ts.head?, ∀ op, t.operator? = some op → op.tier < least

namespace Read

open Grammar

variable {α β : Type} {d : Nat} {t : Token} {ts : List Token}

namespace Ensures

theorem refused {Q : α → List Token → Prop} {cause : Cause} :
    Ensures (Read.refuse t cause : Read α) d (t :: ts) Q Refused :=
  refuse (fun _ => .invalid) fun _ => .violation

theorem expect_refused {select : Lexeme → Option α} {expected : String} {context : Option String}
    {Q : Token × α → List Token → Prop} (he : select .endOfInput = none)
    (h : ∀ a, select t.lexeme = some a → Q (t, a) ts) :
    Ensures (Read.expect select expected context) d (t :: ts) Q Refused :=
  expect he h (fun _ => .invalid) fun _ _ => .violation

/-- A reading from any tokens is one from a first token and others. -/
theorem of_cons {p : Read α} {Q : α → List Token → Prop} {E : Failure → List Token → Prop}
    (h : ∀ t us, ts = t :: us → Ended (t :: us) → Ensures p d (t :: us) Q E) :
    Ensures p d ts Q E := by
  intro c hc
  obtain ⟨t, us, rfl⟩ := hc.ended.exists_cons
  exact h t us rfl hc.ended c hc

/-- A reading that fails does so at one of the tokens it started with. -/
theorem behind {p : Read α} {Q : α → List Token → Prop} {E : Failure → List Token → Prop}
    (h : Ensures p d ts Q E) : Ensures p d ts Q fun e ts' => E e ts' ∧ ts' <:+ ts :=
  h.mono (fun _ _ _ _ hq => hq) fun _ _ _ hs he => ⟨he, hs⟩

theorem operatorFrom_bind {least : Nat} {f : Option (Token × Operator) → Read β}
    {R : β → List Token → Prop} {E : Failure → List Token → Prop}
    (hn : Halts least (t :: ts) → Ensures (f none) d (t :: ts) R E)
    (hs : ∀ op, t.operator? = some op → least ≤ op.tier →
      Ensures (f (some (t, op))) d (t :: ts) R E) :
    Ensures (operatorFrom least >>= f) d (t :: ts) R E := by
  rw [operatorFrom_eq]
  refine bind (Q := fun r ts' => ts' = t :: ts ∧ ((r = none ∧ Halts least (t :: ts)) ∨
    ∃ op, t.operator? = some op ∧ least ≤ op.tier ∧ r = some (t, op))) ?_ ?_
  · refine current_bind ?_
    cases ho : t.operator? with
    | none =>
      refine pure ⟨rfl, .inl ⟨rfl, fun u hu op hop => ?_⟩⟩
      cases hu
      exact absurd (ho.symm.trans hop) (by simp)
    | some op =>
      by_cases hlt : op.tier < least
      · simp only [if_pos hlt]
        refine pure ⟨rfl, .inl ⟨rfl, fun u hu op' hop => ?_⟩⟩
        cases hu
        exact Option.some.inj (ho.symm.trans hop) ▸ hlt
      · simp only [if_neg hlt]
        exact pure ⟨rfl, .inr ⟨op, rfl, Nat.not_lt.1 hlt, rfl⟩⟩
  · rintro r ts' - - ⟨rfl, ⟨rfl, halts⟩ | ⟨op, ho, hle, rfl⟩⟩
    · exact hn halts
    · exact hs op ho hle

theorem skipComments_bind {f : Unit → Read β} {R : β → List Token → Prop}
    {E : Failure → List Token → Prop} (h : ∀ t us, ts.dropWhile Token.isComment = t :: us →
      Ensures (f ()) d (t :: us) R E) : Ensures (Read.skipComments >>= f) d ts R E := by
  refine (skipComments (Q := fun _ ts' => ts' = ts.dropWhile Token.isComment) rfl).bind ?_
  rintro _ _ ended - rfl
  obtain ⟨t, us, hts⟩ := ended.exists_cons
  rw [hts]
  exact h t us hts

end Ensures

/-! ## Expected tokens -/

theorem ofKind_eq_some {kind : Kind} {lexeme : Lexeme} {u : Unit}
    (h : ofKind kind lexeme = some u) : lexeme.kind = kind := by
  unfold ofKind at h
  split at h
  · next hk => exact hk
  · exact absurd h (by simp)

theorem identifier_eq_some {name : String} (h : identifier t.lexeme = some name) :
    t.kind = .identifier := by
  unfold identifier at h
  split at h
  · next hlex => exact Token.kind_eq_identifier.2 ⟨_, hlex⟩
  · exact absurd h (by simp)

theorem typeName_eq_some {name : String} (h : typeName t.lexeme = some name) :
    t.kind = .typeName := by
  unfold typeName at h
  split at h
  · next hlex => exact Token.kind_eq_typeName.2 ⟨_, hlex⟩
  · exact absurd h (by simp)

/-- An expected token is passed over, whichever tokens there are. -/
theorem expect_sound (kind : Kind) {select : Lexeme → Option α} {expected : String}
    {context : Option String} (he : select .endOfInput = none) (hk : kind ≠ .comment)
    (hs : ∀ (t : Token) a, select t.lexeme = some a → t.kind = kind) :
    Ensures (expect select expected context) d ts
      (fun r ts' => Passed ts ts' [r.1] ∧ r.1.kind = kind) Refused := by
  refine Ensures.of_cons fun t us hts _ => ?_
  subst hts
  refine Ensures.expect_refused he fun a ha => ?_
  have kind : t.kind = _ := hs t a ha
  exact ⟨.cons (Token.isComment_of_kind (kind ▸ hk)) (.refl us), kind⟩

theorem expect_identifier_sound {expected : String} {context : Option String} :
    Ensures (expect identifier expected context) d ts
      (fun r ts' => Passed ts ts' [r.1] ∧ r.1.kind = .identifier) Refused :=
  expect_sound .identifier rfl (by decide) fun _ _ => identifier_eq_some

/-! ## Expressions -/

/-- The reading passes over an expression, and all that may belong to it. -/
def SoundExpression (p : Read α) : Prop :=
  ∀ d ts, Ensures p d ts
    (fun _ ts' => (∃ us, Passed ts ts' us ∧ Derives .expression us) ∧ Halts 0 ts') Refused

/-- The reading passes over a primary. -/
def SoundPrimary (p : Read α) : Prop :=
  ∀ d ts, Ensures p d ts (fun _ ts' => ∃ us, Passed ts ts' us ∧ Derives .primary us) Refused

theorem length_lt_of_expression {ts ts' us : List Token} (h : Passed ts ts' us)
    (hd : Derives .expression us) : ts'.length < ts.length := by
  obtain ⟨t, us', rfl, -⟩ := hd.expression_cons
  exact h.length_lt (List.cons_ne_nil _ _)

variable {inner operand : Read Expr}

theorem argumentsWithin_sound (hi : SoundExpression inner) (rounds : List (Except Fault Token))
    (hr : ts.length ≤ rounds.length) : Ensures (argumentsWithin inner rounds) d ts
      (fun _ ts' => ∃ us right, Passed ts ts' (us ++ [right]) ∧ Derives .arguments us ∧
        right.kind = .mark .rightParen) Refused := by
  induction rounds generalizing ts with
  | nil => exact Ensures.no_rounds hr
  | cons r rounds ih =>
    refine Ensures.skipComments_bind fun t us hts => Ensures.current_bind ?_
    split
    · next ht =>
      refine Ensures.advance_bind (by simp [ht]) (Ensures.pure ⟨[], t, ?_, .noArgument, ?_⟩)
      · exact .comments (hts ▸ .cons (by simp [Token.isComment, ht]) (.refl us))
      · exact Token.kind_eq_mark.2 ht
    · exact Ensures.refused
    · refine (hi d (t :: us)).bind ?_
      rintro arg ts' - - ⟨⟨vs, hvs, hd⟩, -⟩
      -- An argument has a token, so one round less is enough behind it.
      have short : ts'.length ≤ rounds.length := by
        have lt := length_lt_of_expression hvs hd
        have le := (List.dropWhile_sublist (l := ts) Token.isComment).length_le
        rw [hts] at le
        rw [List.length_cons] at hr
        omega
      refine (ih short).bind ?_
      rintro args ts'' - - ⟨ws, right, hws, hargs, hright⟩
      refine Ensures.pure ⟨vs ++ ws, right, ?_, .argument hd hargs, hright⟩
      rw [List.append_assoc]
      exact .comments (hts ▸ hvs.trans hws)

theorem arguments_sound (hi : SoundExpression inner) : Ensures (arguments inner) d ts
    (fun _ ts' => ∃ us right, Passed ts ts' (us ++ [right]) ∧ Derives .arguments us ∧
      right.kind = .mark .rightParen) Refused :=
  Ensures.get_bind fun _ hc =>
    argumentsWithin_sound hi _ (Nat.le_of_eq hc.length_remaining.symm)

theorem named_sound (hi : SoundExpression inner) {name : String}
    (ht : t.lexeme = .identifier name) : Ensures (named inner t name) d (t :: ts)
      (fun _ ts' => ∃ us, Passed (t :: ts) ts' us ∧ Derives .primary us) Refused := by
  have kind : t.kind = .identifier := Token.kind_eq_identifier.2 ⟨name, ht⟩
  have noComment : t.isComment = false := by simp [Token.isComment, ht]
  refine Ensures.advance_bind (by simp [ht]) (Ensures.of_cons fun u us hts _ => ?_)
  subst hts
  refine Ensures.current_bind ?_
  split
  · next hu =>
    refine Ensures.advance_bind (by simp [hu]) ((arguments_sound hi).bind ?_)
    rintro args ts' - - ⟨vs, right, hvs, hargs, hright⟩
    refine Ensures.pure ⟨_, ?_, .call kind (Token.kind_eq_mark.2 hu) hargs hright⟩
    exact .cons noComment (.cons (by simp [Token.isComment, hu]) hvs)
  · exact Ensures.pure ⟨[t], .cons noComment (.refl _), .named kind⟩

theorem declaration_sound (hi : SoundExpression inner) (ht : IsSign t) (isMutable : Bool) :
    Ensures (declaration inner t isMutable) d (t :: ts)
      (fun _ ts' => ∃ us, Passed (t :: ts) ts' us ∧ Derives .primary us) Refused := by
  have sign : t.lexeme = .mark .apostrophe ∨ t.lexeme = .mark .comma :=
    ht.imp Token.kind_eq_mark.1 Token.kind_eq_mark.1
  have noComment : t.isComment = false := by
    rcases sign with h | h <;> simp [Token.isComment, h]
  have notEnd : t.lexeme ≠ .endOfInput := by
    rcases sign with h | h <;> simp [h]
  refine Ensures.advance_bind notEnd (expect_identifier_sound.bind ?_)
  rintro ⟨name, _⟩ ts₁ - - ⟨hp₁, hname⟩
  refine Ensures.of_cons fun e ts₂ hts _ => ?_
  subst hts
  refine Ensures.current_bind ?_
  split
  · next he =>
    refine Ensures.advance_bind (by simp [he]) ((hi d ts₂).bind ?_)
    rintro value ts₃ - - ⟨⟨us₃, hp₃, hd⟩, -⟩
    refine Ensures.pure ⟨_, ?_, .initialized ht hname (Token.kind_eq_operator.2 he) hd⟩
    exact .cons noComment (hp₁.trans (.cons (by simp [Token.isComment, he]) hp₃))
  · exact Ensures.pure ⟨_, .cons noComment hp₁, .declaration ht hname⟩

theorem literal_sound {e : Expr} (ht : IsLiteral t) (hc : t.isComment = false)
    (he : t.lexeme ≠ .endOfInput) : Ensures (do advance; return e) d (t :: ts)
      (fun _ ts' => ∃ us, Passed (t :: ts) ts' us ∧ Derives .primary us) Refused :=
  Ensures.advance_bind he (Ensures.pure ⟨[t], .cons hc (.refl ts), .literal ht⟩)

theorem primary_sound (hi : SoundExpression inner) : SoundPrimary (primary inner) := by
  intro d ts
  refine Ensures.skipComments_bind fun t us hts => ?_
  -- Comments in front of a primary are passed over with it.
  refine Ensures.imp (Q := fun _ ts' => ∃ vs, Passed (t :: us) ts' vs ∧ Derives .primary vs) ?_
    fun _ _ ⟨vs, hvs, hd⟩ => ⟨vs, .comments (hts ▸ hvs), hd⟩
  refine Ensures.current_bind ?_
  split
  · next ht => exact named_sound hi ht
  · next ht =>
    exact literal_sound (.inl (by simp [Token.kind, ht, Lexeme.kind]))
      (by simp [Token.isComment, ht]) (by simp [ht])
  · next ht =>
    exact literal_sound (.inr (.inl (by simp [Token.kind, ht, Lexeme.kind])))
      (by simp [Token.isComment, ht]) (by simp [ht])
  · next ht =>
    exact literal_sound (.inr (.inr (by simp [Token.kind, ht, Lexeme.kind])))
      (by simp [Token.isComment, ht]) (by simp [ht])
  · next ht => exact declaration_sound hi (.inl (Token.kind_eq_mark.2 ht)) false
  · next ht => exact declaration_sound hi (.inr (Token.kind_eq_mark.2 ht)) true
  · next ht =>
    refine Ensures.advance_bind (by simp [ht]) ((hi d us).bind ?_)
    rintro e ts' - - ⟨⟨vs, hvs, hd⟩, -⟩
    refine Ensures.skipComments_bind fun r ws hws => ?_
    refine (Ensures.discard (Q := fun _ ts'' => ts'' = ws ∧ r.kind = .mark .rightParen)
      (Ensures.expect_refused rfl fun _ hr => ⟨rfl, ofKind_eq_some hr⟩)).bind ?_
    rintro _ _ - - ⟨rfl, hr⟩
    refine Ensures.pure ⟨_, ?_, .parenthesized (Token.kind_eq_mark.2 ht) hd hr⟩
    have right : r.isComment = false := by simp [Token.isComment, Token.kind_eq_mark.1 hr]
    exact .cons (by simp [Token.isComment, ht])
      (hvs.trans (.comments (hws ▸ .cons right (.refl _))))
  · exact Ensures.refused

theorem isComment_of_operator? {op : Operator} (h : t.operator? = some op) :
    t.isComment = false ∧ t.lexeme ≠ .endOfInput := by
  obtain ⟨op', hk, -⟩ := isBinary_iff.2 ⟨op, h⟩
  have lexeme := Token.kind_eq_operator.1 hk
  exact ⟨by simp [Token.isComment, lexeme], by simp [lexeme]⟩

theorem chainWithin_sound (ho : SoundPrimary operand) (rounds : List (Except Fault Token))
    (least : Nat) (lhs : Expr) (hr : ts.length ≤ rounds.length) :
    Ensures (chainWithin operand rounds least lhs) d ts
      (fun _ ts' => (∃ us, Passed ts ts' us ∧ Derives .operands us) ∧ Halts least ts')
      Refused := by
  induction rounds generalizing ts least lhs with
  | nil => exact Ensures.no_rounds hr
  | cons r rounds ih =>
    refine Ensures.of_cons fun t us hts _ => ?_
    subst hts
    refine Ensures.operatorFrom_bind (fun halts => ?_) fun op hop _ => ?_
    · exact Ensures.pure ⟨⟨[], .refl _, .noOperand⟩, halts⟩
    · obtain ⟨noComment, notEnd⟩ := isComment_of_operator? hop
      refine Ensures.advance_bind notEnd ((ho d us).bind ?_)
      rintro rhs ts₁ - hsuf₁ ⟨us₁, hus₁, hd₁⟩
      have short₁ : ts₁.length ≤ rounds.length :=
        hsuf₁.length_le.trans (Nat.le_of_succ_le_succ hr)
      refine (ih (op.tier + 1) rhs short₁).bind ?_
      rintro rhs ts₂ - hsuf₂ ⟨⟨us₂, hus₂, hd₂⟩, -⟩
      refine (ih least _ (hsuf₂.length_le.trans short₁)).imp ?_
      rintro e ts₃ ⟨⟨us₃, hus₃, hd₃⟩, halts⟩
      -- The grammar knows no tiers: both chains make up one.
      refine ⟨⟨t :: (us₁ ++ (us₂ ++ us₃)), ?_, ?_⟩, halts⟩
      · exact .cons noComment (hus₁.trans (hus₂.trans hus₃))
      · exact .operand (isBinary_iff.2 ⟨op, hop⟩) hd₁ (hd₂.operands_append hd₃)

theorem chain_sound (ho : SoundPrimary operand) (least : Nat) (lhs : Expr) :
    Ensures (chain operand least lhs) d ts
      (fun _ ts' => (∃ us, Passed ts ts' us ∧ Derives .operands us) ∧ Halts least ts')
      Refused :=
  Ensures.get_bind fun _ hc =>
    chainWithin_sound ho _ least lhs (Nat.le_of_eq hc.length_remaining.symm)

theorem expressionWithin_sound (limit : Int) (levels : Nat) :
    SoundExpression (expressionWithin limit levels) := by
  induction levels with
  | zero =>
    intro d ts
    exact Ensures.nested (Ensures.of_cons fun t us _ _ =>
      Ensures.current_bind (Ensures.throw .violation))
  | succ levels ih =>
    intro d ts
    have operand := primary_sound ih
    refine Ensures.nested ((operand (d + 1) ts).bind ?_)
    rintro lhs ts₁ - - ⟨us₁, hus₁, hd₁⟩
    refine (chain_sound operand 0 lhs).imp ?_
    rintro e ts₂ ⟨⟨us₂, hus₂, hd₂⟩, halts⟩
    exact ⟨⟨us₁ ++ us₂, hus₁.trans hus₂, .expression hd₁ hd₂⟩, halts⟩

theorem expression_sound (limit : Int) : SoundExpression (expression limit) :=
  fun d ts => Ensures.get_bind fun _ _ => expressionWithin_sound limit _ d ts

/-! ## Statements -/

/-- Reading an import fails behind its dollar sign, if it fails. -/
theorem use_sound (ht : t.lexeme = .mark .dollar) : Ensures use d (t :: ts)
    (fun _ ts' => ∃ us, Passed (t :: ts) ts' us ∧ IsUse us)
    (fun e ts' => Refused e ts' ∧ ts' <:+ ts) := by
  refine Ensures.expect_bind (a := ()) (by simp [ofKind, ht, Lexeme.kind]) (by simp [ht]) ?_
  refine Ensures.behind ?_
  have dollar : t.kind = .mark .dollar := Token.kind_eq_mark.2 ht
  have noComment : t.isComment = false := by simp [Token.isComment, ht]
  refine expect_identifier_sound.bind ?_
  rintro ⟨name, _⟩ ts₁ - - ⟨hp₁, hname⟩
  refine Ensures.of_cons fun colon ts₂ hts _ => ?_
  subst hts
  refine Ensures.current_bind ?_
  split
  · next hcolon =>
    refine Ensures.advance_bind (by simp [hcolon]) (expect_identifier_sound.bind ?_)
    rintro ⟨member, _⟩ ts₃ - - ⟨hp₃, hmember⟩
    refine Ensures.pure ⟨_, .cons noComment (hp₁.trans (.cons ?_ hp₃)),
      .member dollar hname (Token.kind_eq_mark.2 hcolon) hmember⟩
    simp [Token.isComment, hcolon]
  · exact Ensures.pure ⟨_, .cons noComment hp₁, .module dollar hname⟩

theorem typeNamesWithin_sound (rounds : List (Except Fault Token))
    (hr : ts.length ≤ rounds.length) : Ensures (typeNamesWithin rounds) d ts
      (fun names ts' => ∃ us, Passed ts ts' us ∧ us.length = names.length ∧
        ∀ t ∈ us, t.kind = .typeName) Refused := by
  induction rounds generalizing ts with
  | nil => exact Ensures.no_rounds hr
  | cons r rounds ih =>
    refine Ensures.of_cons fun t us hts ended => ?_
    subst hts
    refine Ensures.current_bind ?_
    cases ht : typeName t.lexeme with
    | none => exact Ensures.pure ⟨[], .refl _, rfl, by simp⟩
    | some name =>
      have kind := typeName_eq_some ht
      have notEnd : t.lexeme ≠ .endOfInput := by
        obtain ⟨_, hlex⟩ := Token.kind_eq_typeName.1 kind
        simp [hlex]
      refine Ensures.advance_bind notEnd ((ih (Nat.le_of_succ_le_succ hr)).bind ?_)
      rintro names ts' - - ⟨vs, hvs, hlen, hkinds⟩
      refine Ensures.pure ⟨t :: vs, .cons (Token.isComment_of_kind (by simp [kind])) hvs, ?_, ?_⟩
      · simp [hlen]
      · exact List.forall_mem_cons.2 ⟨kind, hkinds⟩

theorem result_sound : Ensures result d ts (fun _ ts' => ∃ us, Passed ts ts' us ∧ IsResult us)
    Refused := by
  refine Ensures.of_cons fun t us hts _ => ?_
  subst hts
  refine Ensures.current_bind ?_
  split
  · next ht =>
    refine Ensures.advance_bind (by simp [ht]) ((expect_sound .typeName rfl (by decide)
      fun _ _ => typeName_eq_some).bind ?_)
    rintro ⟨type, _⟩ ts' - - ⟨hp, htype⟩
    exact Ensures.pure ⟨_, .cons (by simp [Token.isComment, ht]) hp,
      .some (Token.kind_eq_mark.2 ht) htype⟩
  · exact Ensures.pure ⟨[], .refl _, .none⟩

theorem parameterMark_sound : Ensures parameterMark d ts
    (fun _ ts' => ∃ sign, Passed ts ts' [sign] ∧ IsSign sign) Refused := by
  refine Ensures.of_cons fun t us hts _ => ?_
  subst hts
  refine Ensures.current_bind ?_
  split
  · next ht =>
    exact Ensures.advance (by simp [ht])
      ⟨t, .cons (by simp [Token.isComment, ht]) (.refl us), .inl (Token.kind_eq_mark.2 ht)⟩
  · next ht =>
    exact Ensures.advance (by simp [ht])
      ⟨t, .cons (by simp [Token.isComment, ht]) (.refl us), .inr (Token.kind_eq_mark.2 ht)⟩
  · exact Ensures.refused

theorem parameters_sound (types : List String) : Ensures (parameters types) d ts
    (fun _ ts' => ∃ us, Passed ts ts' us ∧ IsParameters types.length us) Refused := by
  induction types generalizing ts with
  | nil => exact Ensures.pure ⟨[], .refl ts, .none⟩
  | cons type types ih =>
    refine parameterMark_sound.bind ?_
    rintro _ ts₁ - - ⟨sign, hp₁, hsign⟩
    refine expect_identifier_sound.bind ?_
    rintro ⟨name, _⟩ ts₂ - - ⟨hp₂, hname⟩
    refine ih.bind ?_
    rintro _ ts₃ - - ⟨us, hp₃, hus⟩
    exact Ensures.pure ⟨_, hp₁.trans (hp₂.trans hp₃), .more hsign hname hus⟩

theorem prototype_sound : Ensures prototype d ts
    (fun _ ts' => ∃ us, Passed ts ts' us ∧ IsPrototype us) Refused := by
  refine expect_identifier_sound.bind ?_
  rintro ⟨name, _⟩ ts₁ - - ⟨hp₁, hname⟩
  refine (Ensures.discard (Q := fun _ ts' => ∃ bar, Passed ts₁ ts' [bar] ∧
    bar.kind = .operator .bitOr) ((expect_sound _ rfl (by decide) fun _ _ => ofKind_eq_some).imp
      fun r _ h => ⟨r.1, h⟩)).bind ?_
  rintro _ ts₂ - - ⟨bar, hp₂, hbar⟩
  refine (Ensures.get_bind fun _ hc =>
    typeNamesWithin_sound _ (Nat.le_of_eq hc.length_remaining.symm)).bind ?_
  rintro types ts₃ - - ⟨us₃, hp₃, hlen, hkinds⟩
  refine result_sound.bind ?_
  rintro _ ts₄ - - ⟨us₄, hp₄, hresult⟩
  refine (parameters_sound types).bind ?_
  rintro _ ts₅ - - ⟨us₅, hp₅, hparameters⟩
  refine (Ensures.discard (Q := fun _ ts' => ∃ equals, Passed ts₅ ts' [equals] ∧
    equals.kind = .operator .assign) ((expect_sound _ rfl (by decide)
      fun _ _ => ofKind_eq_some).imp fun r _ h => ⟨r.1, h⟩)).bind ?_
  rintro _ ts₆ - - ⟨equals, hp₆, hequals⟩
  exact Ensures.pure ⟨_, hp₁.trans (hp₂.trans (hp₃.trans (hp₄.trans (hp₅.trans hp₆)))),
    .intro hname hbar hkinds hresult (hlen ▸ hparameters) hequals⟩

/-- The reading of a statement passes over a part of a program: what may follow
    the tokens that it passed over makes them and itself a program. Behind a
    definition or an expression there is no operator. -/
def SoundItem (ts ts' : List Token) : Prop :=
  ∃ us follows, Passed ts ts' us ∧ us ≠ [] ∧ (follows = true → Halts 0 ts') ∧
    ∀ others, Statements follows others → Statements false (us ++ others)

theorem SoundItem.length_lt {ts' : List Token} (h : SoundItem ts ts') :
    ts'.length < ts.length := by
  obtain ⟨us, _, hus, hne, -⟩ := h
  exact hus.length_lt hne

/-- Reading a definition fails behind its dot, if it fails. -/
theorem define_sound (limit : Int) (ht : t.lexeme = .operator .dot) :
    Ensures (define limit) d (t :: ts) (fun _ ts' => SoundItem (t :: ts) ts')
      (fun e ts' => Refused e ts' ∧ ts' <:+ ts) := by
  refine Ensures.expect_bind (a := ()) (by simp [ofKind, ht, Lexeme.kind]) (by simp [ht]) ?_
  refine Ensures.behind (prototype_sound.bind ?_)
  rintro _ ts₁ - - ⟨us₁, hp₁, hprototype⟩
  refine (expression_sound limit d ts₁).bind ?_
  rintro _ ts₂ - - ⟨⟨us₂, hp₂, hbody⟩, halts⟩
  refine Ensures.pure ⟨t :: (us₁ ++ us₂), true,
    .cons (by simp [Token.isComment, ht]) (hp₁.trans hp₂), List.cons_ne_nil _ _,
    fun _ => halts, fun others hothers => ?_⟩
  rw [List.cons_append, List.append_assoc]
  exact .define (Token.kind_eq_operator.2 ht) (by simp) hprototype hbody hothers

theorem evaluate_sound (limit : Int) : Ensures (evaluate limit) d ts
    (fun _ ts' => SoundItem ts ts') Refused := by
  refine Ensures.of_cons fun t us hts _ => ?_
  subst hts
  refine Ensures.current_bind ((expression_sound limit d (t :: us)).bind ?_)
  rintro _ ts' - - ⟨⟨vs, hvs, hbody⟩, halts⟩
  obtain ⟨v, vs', rfl, -⟩ := hbody.expression_cons
  exact Ensures.pure ⟨v :: vs', true, hvs, List.cons_ne_nil _ _, fun _ => halts,
    fun _ hothers => .evaluate hbody hothers⟩

/-- A statement that cannot be read is given up behind its first token. -/
theorem item_sound (limit : Int) (ht : t.lexeme ≠ .endOfInput) : Ensures (item limit) d (t :: ts)
    (fun _ ts' => SoundItem (t :: ts) ts')
    (fun e ts' => Refused e ts' ∧ ts'.dropWhile (!isResumption ·) <:+ ts) := by
  refine Ensures.current_bind ?_
  split
  · next hlex =>
    refine Ensures.mono ((use_sound hlex).bind (R := fun _ ts' => SoundItem (t :: ts) ts') ?_)
      (fun _ _ _ _ h => h) fun _ _ _ _ he => ⟨he.1, (List.dropWhile_suffix _).trans he.2⟩
    rintro _ ts' - - ⟨us, hus, huse⟩
    have hne : us ≠ [] := by cases huse <;> exact List.cons_ne_nil _ _
    exact Ensures.pure ⟨us, false, hus, hne, nofun, fun _ hothers => .use huse hothers⟩
  · next hlex =>
    refine Ensures.mono ((define_sound limit hlex).bind fun _ _ _ _ h => Ensures.pure h)
      (fun _ _ _ _ h => h) fun _ _ _ _ he => ⟨he.1, (List.dropWhile_suffix _).trans he.2⟩
  · next hdollar hdot =>
    refine (evaluate_sound limit).mono (fun _ _ _ _ h => h) fun e ts' _ hs he => ⟨he, ?_⟩
    rcases List.suffix_cons_iff.1 hs with rfl | hs
    · -- It failed at its first token. That is none to resume at and is skipped.
      have : isResumption t = false := by
        unfold isResumption
        split <;> simp_all
      rw [List.dropWhile_cons_of_pos (by simp [this])]
      exact List.dropWhile_suffix _
    · exact (List.dropWhile_suffix _).trans hs

end Read

end Soul
