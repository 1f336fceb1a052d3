import Soul.Proofs.Depth
import Soul.Proofs.Result

/-!
# Grouping

A chain of operators is read with one operand after the other, and its tree grows on the
way. What comes out is told here by the operators and operands alone. They follow each
other at the cursor as links (`Read.Gathers`), and a tree over them (`Grouping`) has them
as its in-order reading. It is grouped as it should be if the left operand of an operator,
where it is one of the chain's own, is of the same tier or a higher one and the right
operand is of a higher one (`Grouping.IsGrouped`).

There is only one such tree for a reading (`Grouping.IsGrouped.unique`), for its topmost
operator is the last one of the lowest tier. And it is the tree that the chain gives
(`Read.chain_grouping`), since behind the operand on the right the chain has stopped at a
tier that is not higher (`Read.chainWithin_groups`).
-/

namespace Soul

/-- What a chain consists of. -/
inductive ChainPart where
  | operand (e : Expr)
  /-- An operator and its token. -/
  | operator (token : Token) (op : Operator)

/-- An operator of a chain with the operand behind it. -/
structure Link where
  token : Token
  op : Operator
  operand : Expr

/-- The operator, then the operand. -/
def Link.parts (l : Link) : List ChainPart := [.operator l.token l.op, .operand l.operand]

/-- A tree over the operands of a chain, which it does not look into. -/
inductive Grouping where
  | atom (e : Expr)
  | node (token : Token) (op : Operator) (lhs rhs : Grouping)

namespace Grouping

/-- The tree as an expression. -/
def expr : Grouping → Expr
  | atom e => e
  | node token op lhs rhs => .binary op lhs.expr rhs.expr token.location

/-- The tree from left to right. -/
def inorder : Grouping → List ChainPart
  | atom e => [.operand e]
  | node token op lhs rhs => lhs.inorder ++ .operator token op :: rhs.inorder

/-- The topmost operator. -/
def top? : Grouping → Option Operator
  | atom _ => none
  | node _ op _ _ => some op

/-- Every operator of the tree has one of the same tier or a higher one on its left, and
    one of a higher tier on its right, where its operands are trees with an operator. -/
def IsGrouped : Grouping → Prop
  | atom _ => True
  | node _ op lhs rhs => (∀ p ∈ lhs.top?, op.tier ≤ p.tier) ∧ (∀ p ∈ rhs.top?, op.tier < p.tier) ∧
      lhs.IsGrouped ∧ rhs.IsGrouped

variable {g g' : Grouping} {token : Token} {op : Operator}

theorem inorder_ne_nil (g : Grouping) : g.inorder ≠ [] := by
  cases g <;> simp [inorder]

theorem atom_inorder_ne (e : Expr) (token : Token) (op : Operator) (lhs rhs : Grouping) :
    (atom e).inorder ≠ (node token op lhs rhs).inorder := by
  intro h
  have length := congrArg List.length h
  have pos := List.length_pos_iff.2 lhs.inorder_ne_nil
  simp only [inorder, List.length_cons, List.length_append, List.length_nil] at length
  omega

theorem exists_mem_of_top? (h : g.top? = some op) :
    ∃ token, ChainPart.operator token op ∈ g.inorder := by
  cases g with
  | atom e => exact absurd h (by simp [top?])
  | node token op' lhs rhs =>
    obtain rfl := Option.some.inj h
    exact ⟨token, List.mem_append_right _ List.mem_cons_self⟩

theorem exists_top?_of_mem (h : ChainPart.operator token op ∈ g.inorder) :
    ∃ p, g.top? = some p := by
  cases g with
  | atom e => exact absurd h (by simp [inorder])
  | node _ p _ _ => exact ⟨p, rfl⟩

/-- No operator is of a lower tier than the topmost one. -/
theorem IsGrouped.tier_le (hg : g.IsGrouped) (h : ChainPart.operator token op ∈ g.inorder) :
    ∀ p ∈ g.top?, p.tier ≤ op.tier := by
  induction g with
  | atom e => exact absurd h (by simp [inorder])
  | node token' op' lhs rhs ihl ihr =>
    rintro _ ⟨⟩
    obtain ⟨hl, hr, grouped, grouped'⟩ := hg
    rcases List.mem_append.1 h with left | right
    · obtain ⟨p, hp⟩ := exists_top?_of_mem left
      exact (hl p hp).trans (ihl grouped left p hp)
    · rcases List.mem_cons.1 right with heq | right
      · cases heq
        exact Nat.le_refl _
      · obtain ⟨p, hp⟩ := exists_top?_of_mem right
        exact (hr p hp).le.trans (ihr grouped' right p hp)

section Node

variable {lhs rhs : Grouping} {token' : Token} {op' : Operator}

theorem IsGrouped.le_of_mem_lhs (hg : (node token op lhs rhs).IsGrouped)
    (h : ChainPart.operator token' op' ∈ lhs.inorder) : op.tier ≤ op'.tier := by
  obtain ⟨hl, -, grouped, -⟩ := hg
  obtain ⟨p, hp⟩ := exists_top?_of_mem h
  exact (hl p hp).trans (grouped.tier_le h p hp)

theorem IsGrouped.lt_of_mem_rhs (hg : (node token op lhs rhs).IsGrouped)
    (h : ChainPart.operator token' op' ∈ rhs.inorder) : op.tier < op'.tier := by
  obtain ⟨-, hr, -, grouped⟩ := hg
  obtain ⟨p, hp⟩ := exists_top?_of_mem h
  exact (hr p hp).trans_le (grouped.tier_le h p hp)

end Node

/-- If the topmost operator of one tree stood before that of the other, it would be of the
    same tier or a higher one, and also of a lower one. -/
theorem IsGrouped.not_before {token token' : Token} {op op' : Operator}
    {lhs rhs lhs' rhs' : Grouping} {between : List ChainPart}
    (hg : (node token op lhs rhs).IsGrouped)
    (hg' : (node token' op' lhs' rhs').IsGrouped)
    (left : lhs'.inorder = lhs.inorder ++ .operator token op :: between)
    (right : rhs.inorder = between ++ .operator token' op' :: rhs'.inorder) : False := by
  have above := hg'.le_of_mem_lhs (left ▸ List.mem_append_right _ List.mem_cons_self)
  have below := hg.lt_of_mem_rhs (right ▸ List.mem_append_right _ List.mem_cons_self)
  omega

/-- A tree that is grouped as it should be is determined by its reading. -/
theorem IsGrouped.unique (hg : g.IsGrouped) (hg' : g'.IsGrouped) (h : g.inorder = g'.inorder) :
    g = g' := by
  induction g generalizing g' with
  | atom e =>
    cases g' with
    | atom e' =>
      cases h
      rfl
    | node token op lhs rhs => exact absurd h (atom_inorder_ne e token op lhs rhs)
  | node token op lhs rhs ihl ihr =>
    cases g' with
    | atom e' => exact absurd h.symm (atom_inorder_ne e' token op lhs rhs)
    | node token' op' lhs' rhs' =>
      -- Neither of the topmost operators stands before the other.
      have place : lhs.inorder = lhs'.inorder ∧
          ChainPart.operator token op :: rhs.inorder = .operator token' op' :: rhs'.inorder := by
        rcases List.append_eq_append_iff.1 h with ⟨between, left, right⟩ | ⟨between, left, right⟩
        · cases between with
          | nil => exact ⟨(left.trans (List.append_nil _)).symm, right⟩
          | cons _ between =>
            obtain ⟨rfl, behind⟩ := List.cons.inj right
            exact (hg.not_before hg' left behind).elim
        · cases between with
          | nil => exact ⟨left.trans (List.append_nil _), right.symm⟩
          | cons _ between =>
            obtain ⟨rfl, behind⟩ := List.cons.inj right
            exact (hg'.not_before hg left behind).elim
      obtain ⟨left, right⟩ := place
      obtain ⟨heq, behind⟩ := List.cons.inj right
      cases heq
      rw [ihl hg.2.2.1 hg'.2.2.1 left, ihr hg.2.2.2 hg'.2.2.2 behind]

end Grouping

/-! ## Chains -/

namespace Read

/-- From the cursor `c` on, the operators of `links` follow each other with their operands,
    up to the cursor `c'`. -/
inductive Gathers (operand : Read Expr) : Cursor → List Link → Cursor → Prop
  | none {c : Cursor} : Gathers operand c [] c
  | link {c c₁ c₂ c' : Cursor} {op : Operator} {e : Expr} {links : List Link} :
      c.current.operator? = some op → advance c = .ok () c₁ → operand c₁ = .ok e c₂ →
      Gathers operand c₂ links c' → Gathers operand c (⟨c.current, op, e⟩ :: links) c'

variable {operand inner : Read Expr} {c c₁ c₂ c' c'' : Cursor} {op : Operator} {e : Expr}
  {links links' : List Link} {least : Nat}

theorem Gathers.append (h : Gathers operand c links c') (h' : Gathers operand c' links' c'') :
    Gathers operand c (links ++ links') c'' := by
  induction h with
  | none => exact h'
  | link hop ha ho _ ih => exact .link hop ha ho (ih h')

theorem Gathers.operator? (h : Gathers operand c links c') :
    ∀ link ∈ links, link.token.operator? = some link.op := by
  induction h with
  | none => exact List.forall_mem_nil _
  | link hop _ _ _ ih => exact List.forall_mem_cons.2 ⟨hop, ih⟩

/-- Behind an operator the reading needs something ahead. -/
def Shortens (operand : Read Expr) : Prop :=
  ∀ {c c₁ c₂ : Cursor} {op : Operator} {e : Expr}, c.current.operator? = some op →
    advance c = .ok () c₁ → operand c₁ = .ok e c₂ → c₂.ahead.length < c.ahead.length

theorem Gathers.length_le (ho : Shortens operand) (h : Gathers operand c links c') :
    c'.ahead.length + links.length ≤ c.ahead.length := by
  induction h with
  | none => exact Nat.le_refl _
  | link hop ha he _ ih =>
    have := ho hop ha he
    rw [List.length_cons]
    omega

/-- Which links there are between two cursors is determined. -/
theorem Gathers.unique (ho : Shortens operand) (h : Gathers operand c links c')
    (h' : Gathers operand c links' c') : links = links' := by
  induction h generalizing links' with
  | none =>
    have := h'.length_le ho
    exact (List.eq_nil_of_length_eq_zero (by omega)).symm
  | @link c c₁ c₂ c' op e links hop ha he hg ih =>
    cases h' with
    | none =>
      -- A link takes something from what is ahead, so none leads back to the cursor.
      have := (Gathers.link hop ha he hg).length_le ho
      rw [List.length_cons] at this
      omega
    | link hop' ha' he' hg' =>
      obtain rfl := Option.some.inj (hop.symm.trans hop')
      cases ha.symm.trans ha'
      cases he.symm.trans he'
      rw [ih hg']

/-- What a chain of operators comes to that goes on behind the tree `left`. -/
structure Groups (operand : Read Expr) (least : Nat) (left : Grouping) (c : Cursor)
    (links : List Link) (tree : Grouping) (c' : Cursor) : Prop where
  gathers : Gathers operand c links c'
  inorder : tree.inorder = left.inorder ++ links.flatMap Link.parts
  isGrouped : tree.IsGrouped
  tiers : ∀ link ∈ links, least ≤ link.op.tier
  halts : ∀ op, c'.current.operator? = some op → op.tier < least

/-- The operators of a tree over one operand and some links are those of the links. -/
theorem Groups.le_top {tree : Grouping} (h : Groups operand least (.atom e) c links tree c') :
    ∀ p ∈ tree.top?, least ≤ p.tier := by
  intro p hp
  obtain ⟨token, hmem⟩ := Grouping.exists_mem_of_top? hp
  rw [h.inorder, Grouping.inorder, List.singleton_append] at hmem
  rcases List.mem_cons.1 hmem with heq | hmem
  · cases heq
  · obtain ⟨link, hlink, hpart⟩ := List.mem_flatMap.1 hmem
    rcases List.mem_cons.1 hpart with heq | hpart
    · cases heq
      exact h.tiers link hlink
    · cases List.mem_singleton.1 hpart

/-- The induction is on the rounds. Behind `left` the current operator is of no higher tier
    than the topmost one of `left`, which makes `left` fit for its left operand. -/
theorem chainWithin_groups (ho : Shortens operand) (rounds : List (Except Fault Token))
    (hr : c.ahead.length < rounds.length) (left : Grouping) (hleft : left.IsGrouped)
    (behind : ∀ p ∈ left.top?, ∀ op, c.current.operator? = some op → op.tier ≤ p.tier)
    (h : chainWithin operand rounds least left.expr c = .ok e c') :
    ∃ links tree, tree.expr = e ∧ Groups operand least left c links tree c' := by
  induction rounds generalizing c least left e c' with
  | nil => exact absurd hr (Nat.not_lt_zero _)
  | cons r rounds ih =>
    obtain ⟨found, _, hfound, h⟩ := exists_of_bind_eq_ok h
    obtain ⟨hstop, halts⟩ | ⟨op, hop, htier, hgo⟩ := operatorFrom_cases least c
    · cases hstop.symm.trans hfound
      cases h
      exact ⟨[], left, rfl, .none, (List.append_nil _).symm, hleft, List.forall_mem_nil _, halts⟩
    · cases hgo.symm.trans hfound
      obtain ⟨_, c₁, hadvance, h⟩ := exists_of_bind_eq_ok h
      obtain ⟨rhs, c₂, hrhs, h⟩ := exists_of_bind_eq_ok h
      obtain ⟨_, c₃, hchain, h⟩ := exists_of_bind_eq_ok h
      have short := ho hop hadvance hrhs
      rw [List.length_cons] at hr
      -- The right operand takes the operators of higher tiers.
      obtain ⟨links, right, rfl, hright⟩ := ih (by omega) (.atom rhs) trivial nofun hchain
      have short' := hright.gathers.length_le ho
      have hnode : (Grouping.node c.current op left right).IsGrouped :=
        ⟨fun p hp => behind p hp op hop, fun p hp => hright.le_top p hp, hleft, hright.isGrouped⟩
      -- It has left the others to this chain, which goes on behind the tree of both operands.
      have stopped : ∀ p ∈ (Grouping.node c.current op left right).top?, ∀ op',
          c₃.current.operator? = some op' → op'.tier ≤ p.tier := by
        rintro _ ⟨⟩ op' hop'
        exact Nat.le_of_lt_succ (hright.halts op' hop')
      obtain ⟨links', tree, htree, hrest⟩ := ih (by omega) _ hnode stopped h
      refine ⟨⟨c.current, op, rhs⟩ :: (links ++ links'), tree, htree, ?_⟩
      exact
        { gathers := .link hop hadvance hrhs (hright.gathers.append hrest.gathers)
          inorder := by
            rw [hrest.inorder, Grouping.inorder, hright.inorder]
            simp [Grouping.inorder, Link.parts]
          isGrouped := hrest.isGrouped
          tiers := by
            refine List.forall_mem_cons.2 ⟨htier, List.forall_mem_append.2 ⟨?_, hrest.tiers⟩⟩
            exact fun link hlink => htier.trans (Nat.le_of_lt (hright.tiers link hlink))
          halts := hrest.halts }

/-- At an operator there is no primary. -/
theorem primary_ne_ok {op : Operator} (hop : c.current.lexeme = .operator op) :
    primary inner c ≠ .ok e c' := by
  intro h
  have comment : c.current.isComment = false := by simp [Token.isComment, hop]
  obtain ⟨_, _, hskip, h⟩ := exists_of_bind_eq_ok h
  cases (skip_of_not comment).symm.trans hskip
  obtain ⟨_, _, hcurrent, h⟩ := exists_of_bind_eq_ok h
  cases hcurrent
  rw [hop] at h
  exact refuse_ne_ok h

/-- Where nothing is ahead of an operator, the cursor stays on it and there is no primary. -/
theorem shortens_primary (hi : ∀ c, Brings AnyLexeme inner c AnyExpr) :
    Shortens (primary inner) := by
  intro c c₁ c₂ op e hop hadvance hoperand
  have hlex : c.current.lexeme = .operator op := lexeme_of_operator? hop
  have onward := ((primary_brings forms_any hi).ok c₁.holds_any hoperand).1.ahead.length_le
  obtain ⟨current, ahead, taken, depth⟩ := c
  match ahead with
  | [] =>
    cases hadvance
    exact absurd hoperand (primary_ne_ok hlex)
  | .ok t :: rest =>
    cases hadvance
    exact Nat.lt_succ_of_le onward
  | .error f :: rest => cases hadvance

/-- Reading a chain from the operand `lhs` on gives a tree with `lhs` and the operators and
    operands that follow at the cursor for its reading. All operators are of the tier
    `least` or a higher one, the current one behind them is not, and no other tree of this
    reading is grouped by the tiers. -/
theorem chain_grouping {limit : Int} {least : Nat} {lhs e : Expr} {c c' : Cursor}
    (h : chain (primary (expression limit)) least lhs c = .ok e c') :
    ∃ (links : List Link) (tree : Grouping),
      Gathers (primary (expression limit)) c links c' ∧ tree.expr = e ∧
      tree.inorder = .operand lhs :: links.flatMap Link.parts ∧
      (∀ link ∈ links, (least : Int) ≤ link.token.precedence) ∧ c'.current.precedence < least ∧
      tree.IsGrouped ∧
      ∀ (links' : List Link) (tree' : Grouping), Gathers (primary (expression limit)) c links' c' →
        tree'.inorder = .operand lhs :: links'.flatMap Link.parts → tree'.IsGrouped →
        tree' = tree := by
  have ho : Shortens (primary (expression limit)) := shortens_primary (expression_any limit)
  obtain ⟨links, tree, htree, groups⟩ := chainWithin_groups ho c.remaining (Nat.lt_succ_self _)
    (.atom lhs) trivial nofun h
  refine ⟨links, tree, groups.gathers, htree, groups.inorder, ?_, ?_, groups.isGrouped, ?_⟩
  · intro link hlink
    rw [Token.precedence_eq, groups.gathers.operator? link hlink]
    exact Int.ofNat_le.2 (groups.tiers link hlink)
  · rw [Token.precedence_eq]
    cases hop : c'.current.operator? with
    | none => exact Int.negSucc_lt_zero 0 |>.trans_le (Int.natCast_nonneg least)
    | some op => exact Int.ofNat_lt.2 (groups.halts op hop)
  · intro links' tree' gathers inorder grouped
    obtain rfl := groups.gathers.unique ho gathers
    exact grouped.unique groups.isGrouped (inorder.trans groups.inorder.symm)

/-- A product on the right of a sum and before a difference, the operand `a` being read
    already. -/
theorem chain_grouping_three :
    let token (lexeme : Lexeme) : Token := ⟨lexeme, "main", .start, false⟩
    let c : Cursor := ⟨token (.operator .plus), [.ok (token (.identifier "b")),
      .ok (token (.operator .star)), .ok (token (.identifier "c")), .ok (token (.operator .minus)),
      .ok (token (.integer 1)), .ok (token .endOfInput)], 0, 0⟩
    ∃ (tree : Grouping) (c' : Cursor),
      chain (primary (expression 1)) 0 (.var "a" none) c = .ok tree.expr c' ∧ tree.IsGrouped ∧
      tree.expr.text = "((a + (b * c)) - 1)" := by
  intro token c
  have read : ∃ e c', chain (primary (expression 1)) 0 (.var "a" none) c = .ok e c' ∧
      e.text = "((a + (b * c)) - 1)" := by
    refine ⟨_, _, rfl, ?_⟩
    decide +kernel
  obtain ⟨e, c', h, text⟩ := read
  obtain ⟨-, tree, -, rfl, -, -, -, grouped, -⟩ := chain_grouping h
  exact ⟨tree, c', h, grouped, text⟩

end Read

end Soul
