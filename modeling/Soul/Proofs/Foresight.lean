import Soul.Proofs.Onward

/-!
# Readings that see one token ahead

A reading looks at no token behind the one on which it stops. So what it does with the
tokens `us` in front of a token `u` is the same whatever is behind `u`: it takes `us` and
gives a value (`Read.Takes`), or it breaks off at `u` (`Read.Breaks`).

Where it takes `us` in front of the token that is there, it would do so as well in front
of a token with which nothing goes on, one of the class `N`. And where it breaks off, it
could have gone on: some made-up tokens in place of the one it breaks off at, and it would
have taken them all (`Read.Viable`), unless it breaks off for being too deep.

That a reading is such from the tokens `ts` on is `Read.Foreseen N p d ts`. There is a rule
for each way in which readings are put together. When one reading follows another, the
tokens made up for the one that follows come behind those of the first, so that the first
of them has to be a token with which the first reading does not go on
(`Read.Startable`).
-/

namespace Soul

/-- The failure is that there are too many expressions inside each other. -/
def Failure.IsTooDeep : Failure → Prop
  | .violation ⟨.nestingTooDeep _, _⟩ => True
  | _ => False

/-- The token may be made up: it does not start a line, and is neither a comment nor the
    end of the input. -/
structure Token.IsFiller (t : Token) : Prop where
  startsLine : t.startsLine = false
  isComment : t.isComment = false
  ne_end : t.lexeme ≠ .endOfInput

namespace Ended

variable {us ts : List Token}

theorem of_append (h : Ended (us ++ ts)) (hne : ts ≠ []) :
    (∀ u ∈ us, u.lexeme ≠ .endOfInput) ∧ Ended ts := by
  induction us with
  | nil => exact ⟨List.forall_mem_nil _, h⟩
  | cons u us ih =>
    have hu : u.lexeme ≠ .endOfInput := fun hu =>
      hne (List.append_eq_nil_iff.1 (h.tail_eq_nil hu)).2
    obtain ⟨hus, hts⟩ := ih (h.tail hu)
    exact ⟨List.forall_mem_cons.2 ⟨hu, hus⟩, hts⟩

theorem append (hus : ∀ u ∈ us, u.lexeme ≠ .endOfInput) (h : Ended ts) : Ended (us ++ ts) := by
  induction us with
  | nil => exact h
  | cons u us ih =>
    obtain ⟨hu, hus⟩ := List.forall_mem_cons.1 hus
    exact .cons hu (ih hus)

end Ended

namespace Read

variable {α β : Type}

/-- In front of the token `u`, whatever is behind it, the reading passes over `us` and gives
    `a`. -/
def Takes (p : Read α) (d : Nat) (us : List Token) (u : Token) (a : α) : Prop :=
  ∀ rest, Ensures p d (us ++ u :: rest) (fun b ts => b = a ∧ ts = u :: rest) Never

/-- Whatever is behind the token `t`, the reading passes over `us` and fails at `t`. -/
def Breaks (p : Read α) (d : Nat) (us : List Token) (t : Token) (e : Failure) : Prop :=
  ∀ rest, Ensures p d (us ++ t :: rest) (fun _ _ => False) fun e' ts => e' = e ∧ ts = t :: rest

/-- The tokens `ext` behind `us` are made up, and the reading takes them all in front of any
    token of the class `N`. -/
def Completes (N : Token → Prop) (p : Read α) (d : Nat) (us ext : List Token) : Prop :=
  (∀ x ∈ ext, x.IsFiller) ∧ ∃ a, ∀ u, N u → Takes p d (us ++ ext) u a

/-- Tokens can be made up behind `us` for the reading to take. -/
def Viable (N : Token → Prop) (p : Read α) (d : Nat) (us : List Token) : Prop :=
  ∃ ext, Completes N p d us ext

/-- Tokens can be made up for the reading to take, the first of which, or the one behind
    them if there are none, is of the class `M`. -/
def Startable (M N : Token → Prop) (p : Read α) (d : Nat) : Prop :=
  ∃ ext, Completes N p d [] ext ∧ ∀ u, N u → ∀ first ∈ (ext ++ [u]).head?, M first

/-- The reading stops behind `us` at the token `t`. If it is done there, it would be so in
    front of any token of the class `N`. If it fails there, it could have gone on with other
    tokens, unless it is too deep. -/
def Stops (N : Token → Prop) (p : Read α) (d : Nat) (us : List Token) (t : Token) : Prop :=
  (∃ a, ∀ u, u = t ∨ N u → Takes p d us u a) ∨
    ∃ e, Breaks p d us t e ∧ (¬ e.IsTooDeep → Viable N p d us)

/-- The reading from the tokens `ts` on, if they are those of a source without comments,
    stops at one of them and rests on those up to that one. -/
def Foreseen (N : Token → Prop) (p : Read α) (d : Nat) (ts : List Token) : Prop :=
  Ended ts → (∀ t ∈ ts, t.isComment = false) →
    ∃ us t rest, ts = us ++ t :: rest ∧ Stops N p d us t

variable {M N : Token → Prop} {p q : Read α} {f : α → Read β} {d : Nat} {t u : Token}
  {ts us vs : List Token} {a : α} {b : β} {e : Failure}

/-! ## Readings that do the same -/

theorem Ensures.of_agree {Q : α → List Token → Prop} {E : Failure → List Token → Prop}
    (h : Agree p q d ts) (hq : Ensures q d ts Q E) : Ensures p d ts Q E := by
  intro c hc
  rw [h c hc]
  exact hq c hc

theorem Agree.trans {r : Read α} (h : Agree p q d ts) (h' : Agree q r d ts) : Agree p r d ts :=
  fun c hc => (h c hc).trans (h' c hc)

theorem Agree.of_current {f : Token → Read β} : Agree (current >>= f) (f t) d (t :: ts) := by
  intro c hc
  rw [← hc.current_eq]
  rfl

/-- Where no comment comes first, none is passed over. -/
theorem Agree.of_skipComments {f : Unit → Read β} (ht : t.isComment = false) :
    Agree (skipComments >>= f) (f ()) d (t :: ts) := by
  intro c hc
  exact bind_of_ok (skip_of_not (hc.current_eq.symm ▸ ht)) f

/-! ## One reading after another -/

namespace Takes

theorem ensures_bind {rest : List Token} {R : β → List Token → Prop}
    {E : Failure → List Token → Prop} (hp : ∀ first ∈ (vs ++ [u]).head?, Takes p d us first a)
    (hf : Ensures (f a) d (vs ++ u :: rest) R E) :
    Ensures (p >>= f) d (us ++ vs ++ u :: rest) R E := by
  obtain ⟨first, others, hvs⟩ : ∃ first others, vs ++ u :: rest = first :: others :=
    List.exists_cons_of_ne_nil (by simp)
  have hfirst : first ∈ (vs ++ [u]).head? := by
    cases vs <;> exact congrArg some (List.cons.inj hvs).1
  rw [List.append_assoc, hvs]
  refine ((hp first hfirst others).mono (fun _ _ _ _ h => h) fun _ _ _ _ => False.elim).bind ?_
  rintro _ _ - - ⟨rfl, rfl⟩
  exact hvs ▸ hf

theorem bind (hp : ∀ first ∈ (vs ++ [u]).head?, Takes p d us first a)
    (hf : Takes (f a) d vs u b) : Takes (p >>= f) d (us ++ vs) u b :=
  fun rest => ensures_bind hp (hf rest)

/-- What is known of the reading holds of what it gives. -/
theorem ensured {rest : List Token} {Q : α → List Token → Prop} {E : Failure → List Token → Prop}
    (h : Takes p d us t a) (ended : Ended (us ++ t :: rest))
    (hq : Ensures p d (us ++ t :: rest) Q E) : Q a (t :: rest) := by
  obtain ⟨first, others, hts⟩ := ended.exists_cons
  have shows : Cursor.Shows ⟨first, others.map .ok, 0, d⟩ d (us ++ t :: rest) :=
    ⟨by rw [hts]; rfl, ended, rfl⟩
  have both := (h rest).and hq
  cases hc : p ⟨first, others.map .ok, 0, d⟩ with
  | ok b c' =>
    obtain ⟨_, -, ⟨rfl, rfl⟩, hb⟩ := both.ok shows hc
    exact hb
  | error e c' =>
    obtain ⟨_, -, never⟩ := both.error shows hc
    exact never.elim

theorem bind_breaks (hp : ∀ first ∈ (vs ++ [u]).head?, Takes p d us first a)
    (hf : Breaks (f a) d vs u e) : Breaks (p >>= f) d (us ++ vs) u e :=
  fun rest => ensures_bind hp (hf rest)

end Takes

theorem Breaks.bind (h : Breaks p d us t e) : Breaks (p >>= f) d us t e :=
  fun rest => (h rest).bind fun _ _ _ _ never => never.elim

theorem Startable.viable (h : Startable M N p d) : Viable N p d [] := by
  obtain ⟨ext, completes, -⟩ := h
  exact ⟨ext, completes⟩

/-- What is made up for the reading that follows comes behind what is made up for the
    first. -/
theorem Viable.bind (h : Viable M p d us) (hf : ∀ a, Startable M N (f a) d) :
    Viable N (p >>= f) d us := by
  obtain ⟨ext, fillers, a, taken⟩ := h
  obtain ⟨ext', ⟨fillers', b, taken'⟩, first⟩ := hf a
  refine ⟨ext ++ ext', List.forall_mem_append.2 ⟨fillers, fillers'⟩, b, fun u hu => ?_⟩
  rw [← List.append_assoc]
  exact Takes.bind (fun v hv => taken v (first u hu v hv)) (taken' u hu)

namespace Startable

/-- Nothing has to be made up where the reading is done at once. -/
theorem done (a : α) (h : ∀ u, N u → ∀ ts', Agree p (Pure.pure a) d (u :: ts')) :
    Startable N N p d := by
  refine ⟨[], ⟨List.forall_mem_nil _, a, fun u hu rest => ?_⟩, ?_⟩
  · exact .of_agree (h u hu rest) (Ensures.pure ⟨rfl, rfl⟩)
  · rintro u hu _ ⟨⟩
    exact hu

theorem pure (a : α) : Startable N N (pure a) d := done a fun _ _ _ => Agree.refl _

theorem of_agree (h : ∀ ts', Agree p q d ts') (hq : Startable M N q d) : Startable M N p d := by
  obtain ⟨ext, ⟨fillers, a, taken⟩, first⟩ := hq
  exact ⟨ext, ⟨fillers, a, fun u hu rest => .of_agree (h _) (taken u hu rest)⟩, first⟩

theorem nested (h : Startable M N p (d + 1)) : Startable M N (nested p) d := by
  obtain ⟨ext, ⟨fillers, a, taken⟩, first⟩ := h
  exact ⟨ext, ⟨fillers, a, fun u hu rest => .nested (taken u hu rest)⟩, first⟩

/-- The first token is made up. -/
theorem step {L : Token → Prop} {x : Token} {f : Unit → Read α} (hx : x.IsFiller) (hM : M x)
    (h : ∀ ts', Agree p (advance >>= f) d (x :: ts')) (hf : Startable L N (f ()) d) :
    Startable M N p d := by
  obtain ⟨ext, ⟨fillers, a, taken⟩, -⟩ := hf
  refine ⟨x :: ext, ⟨List.forall_mem_cons.2 ⟨hx, fillers⟩, a, fun u hu rest => ?_⟩, ?_⟩
  · exact .of_agree (h _) (Ensures.advance_bind hx.ne_end (taken u hu rest))
  · rintro u hu _ ⟨⟩
    exact hM

theorem bind {L : Token → Prop} (hp : Startable L M p d) (hf : ∀ a, Startable M N (f a) d) :
    Startable L N (p >>= f) d := by
  obtain ⟨ext, ⟨fillers, a, taken⟩, first⟩ := hp
  obtain ⟨ext', ⟨fillers', b, taken'⟩, first'⟩ := hf a
  refine ⟨ext ++ ext', ⟨List.forall_mem_append.2 ⟨fillers, fillers'⟩, b, fun u hu => ?_⟩, ?_⟩
  · change Takes _ d (ext ++ ext') u b
    exact Takes.bind (fun v hv => taken v (first' u hu v hv)) (taken' u hu)
  · intro u hu v hv
    -- If nothing is made up for the first reading, then the token behind it comes first.
    obtain ⟨w, hw⟩ : ∃ w, w ∈ (ext' ++ [u]).head? := by
      cases ext' <;> exact ⟨_, rfl⟩
    refine first w (first' u hu w hw) v ?_
    rw [List.append_assoc, List.head?_append, hw] at hv
    rwa [List.head?_append]

end Startable

/-- A reading that follows one which has stopped at `t`. It could be started with a token
    with which the first one does not go on, and what stops it would stop the first one. -/
theorem Stops.behind (taken : ∀ u, u = t ∨ M u → Takes p d us u a) (start : Startable M N (f a) d)
    (stops : ∀ u, N u → M u) (head : t ∈ (vs ++ [u]).head?) (h : Stops N (f a) d vs u) :
    Stops N (p >>= f) d (us ++ vs) u := by
  rcases h with ⟨b, taken'⟩ | ⟨e, breaks, viable⟩
  · refine .inl ⟨b, fun v hv => Takes.bind (fun w hw => taken w ?_) (taken' v hv)⟩
    cases vs with
    | nil =>
      obtain rfl := Option.some.inj hw
      exact hv.imp (fun h => h.trans (Option.some.inj head)) (stops _)
    | cons x vs => exact .inl (Option.some.inj (hw.symm.trans head))
  · refine .inr ⟨e, Takes.bind_breaks (fun w hw => taken w (.inl ?_)) breaks, fun deep => ?_⟩
    · exact Option.some.inj (hw.symm.trans head)
    · cases vs with
      | nil =>
        -- Nothing has been taken, so the made-up tokens come right behind the first reading.
        obtain ⟨ext, ⟨fillers, b, taken'⟩, first⟩ := start
        refine ⟨ext, fillers, b, fun v hv => ?_⟩
        rw [List.append_nil]
        exact Takes.bind (fun w hw => taken w (.inr (first v hv w hw))) (taken' v hv)
      | cons x vs =>
        obtain ⟨ext, fillers, b, taken'⟩ := viable deep
        refine ⟨ext, fillers, b, fun v hv => ?_⟩
        rw [List.append_assoc]
        exact Takes.bind (fun w hw => taken w (.inl (Option.some.inj (hw.symm.trans head))))
          (taken' v hv)

/-- A reading stops where another one does if it does the same there, with the token `t` and
    with tokens that are made up. -/
theorem Stops.transfer {d' : Nat} {us' : List Token}
    (same : ∀ (vs rest : List Token) (u : Token) {Q : α → List Token → Prop}
      {E : Failure → List Token → Prop}, (∀ v ∈ vs, v.IsFiller) → u = t ∨ N u →
      Ensures q d' (us' ++ vs ++ u :: rest) Q E → Ensures p d (us ++ vs ++ u :: rest) Q E)
    (h : Stops N q d' us' t) : Stops N p d us t := by
  have bare : ∀ (rest : List Token) (u : Token) {Q : α → List Token → Prop}
      {E : Failure → List Token → Prop}, u = t ∨ N u → Ensures q d' (us' ++ u :: rest) Q E →
      Ensures p d (us ++ u :: rest) Q E := by
    intro rest u Q E hu
    simpa only [List.append_nil] using same [] rest u (List.forall_mem_nil _) hu
  rcases h with ⟨a, taken⟩ | ⟨e, breaks, viable⟩
  · exact .inl ⟨a, fun u hu rest => bare rest u hu (taken u hu rest)⟩
  · refine .inr ⟨e, fun rest => bare rest t (.inl rfl) (breaks rest), fun deep => ?_⟩
    obtain ⟨ext, fillers, a, taken⟩ := viable deep
    exact ⟨ext, fillers, a, fun u hu rest => same ext rest u fillers (.inr hu) (taken u hu rest)⟩

namespace Foreseen

/-- One reading behind another. Of the second it has to be known what it does where the first
    one stops. -/
theorem bind_at (hp : Foreseen M p d ts) (start : ∀ a, Startable M N (f a) d)
    (stops : ∀ u, N u → M u)
    (hf : ∀ a us t rest, ts = us ++ t :: rest → Ended ts → Takes p d us t a →
      Foreseen N (f a) d (t :: rest)) : Foreseen N (p >>= f) d ts := by
  intro ended bare
  obtain ⟨us, t, rest, rfl, ⟨a, taken⟩ | ⟨e, breaks, viable⟩⟩ := hp ended bare
  · obtain ⟨vs, u, rest', hvs, outcome⟩ := hf a us t rest rfl ended (taken t (.inl rfl))
      (ended.of_append (List.cons_ne_nil _ _)).2 fun v hv => bare v (List.mem_append_right us hv)
    have head : t ∈ (vs ++ [u]).head? := by
      cases vs <;> exact congrArg some (List.cons.inj hvs).1.symm
    exact ⟨us ++ vs, u, rest', by rw [hvs, List.append_assoc],
      .behind taken (start a) stops head outcome⟩
  · exact ⟨us, t, rest, rfl, .inr ⟨e, breaks.bind, fun deep => (viable deep).bind start⟩⟩

theorem bind_of_ensures {Q : α → List Token → Prop} {E : Failure → List Token → Prop}
    (hp : Foreseen M p d ts) (hq : Ensures p d ts Q E) (start : ∀ a, Startable M N (f a) d)
    (stops : ∀ u, N u → M u) (hf : ∀ a ts', Q a ts' → Foreseen N (f a) d ts') :
    Foreseen N (p >>= f) d ts :=
  hp.bind_at start stops fun a _ _ _ hts ended taken =>
    hf a _ (taken.ensured (hts ▸ ended) (hts ▸ hq))

/-- What is known of a reading carries over to one that does the same behind `pre`. -/
theorem lift {d' : Nat} (pre : List Token) (tail : Ended (pre ++ ts) → Ended ts)
    (h : ∀ {rest : List Token} {Q : α → List Token → Prop} {E : Failure → List Token → Prop},
      Ensures q d' rest Q E → Ensures p d (pre ++ rest) Q E) (hq : Foreseen N q d' ts) :
    Foreseen N p d (pre ++ ts) := by
  intro ended bare
  obtain ⟨us, t, rest, rfl, outcome⟩ := hq (tail ended) fun v hv =>
    bare v (List.mem_append_right pre hv)
  refine ⟨pre ++ us, t, rest, (List.append_assoc ..).symm, outcome.transfer ?_⟩
  intro vs rest u Q E _ _ hvs
  rw [List.append_assoc pre, List.append_assoc pre]
  exact h hvs

theorem of_agree (h : ∀ ts', Agree p q d ts') (hq : Foreseen N q d ts) : Foreseen N p d ts :=
  hq.lift [] id (.of_agree (h _))

theorem nested (h : Foreseen N p (d + 1) ts) : Foreseen N (nested p) d ts := h.lift [] id .nested

/-- A reading that passes over the first token. -/
theorem step {f : Unit → Read α} (ht : t.lexeme ≠ .endOfInput)
    (h : ∀ ts', Agree p (Read.advance >>= f) d (t :: ts')) (hf : Foreseen N (f ()) d ts) :
    Foreseen N p d (t :: ts) :=
  hf.lift [t] (fun ended => ended.tail ht) fun hrest =>
    .of_agree (h _) (Ensures.advance_bind ht hrest)

/-- A reading that is done in front of the first token. -/
theorem done (a : α) (h : ∀ u, u = t ∨ N u → ∀ ts', Agree p (Pure.pure a) d (u :: ts')) :
    Foreseen N p d (t :: ts) := fun _ _ =>
  ⟨[], t, ts, rfl, .inl ⟨a, fun u hu rest => .of_agree (h u hu rest) (Ensures.pure ⟨rfl, rfl⟩)⟩⟩

theorem of_cons (h : ∀ t us, ts = t :: us → t.isComment = false → Foreseen N p d (t :: us)) :
    Foreseen N p d ts := by
  intro ended bare
  obtain ⟨t, us, rfl⟩ := ended.exists_cons
  exact h t us rfl (bare t List.mem_cons_self) ended bare

theorem pure (a : α) : Foreseen N (pure a) d ts :=
  of_cons fun _ _ _ _ => done a fun _ _ _ => Agree.refl _

/-- A reading that refuses the first token, in place of which another could be. -/
theorem refuse (cause : Cause) (h : ∀ ts', Agree p (Read.refuse t cause) d (t :: ts'))
    (viable : Viable N p d []) : Foreseen N p d (t :: ts) := by
  intro _ _
  refine ⟨[], t, ts, rfl, .inr ?_⟩
  cases hd : t.diagnostic? with
  | none =>
    refine ⟨.violation ⟨cause, t.location⟩, fun rest => .of_agree (h rest) ?_, fun _ => viable⟩
    exact Ensures.refuse (fun _ hd' => absurd (hd.symm.trans hd') (by simp)) fun _ => ⟨rfl, rfl⟩
  | some diag =>
    refine ⟨.invalid diag, fun rest => .of_agree (h rest) ?_, fun _ => viable⟩
    refine Ensures.refuse (fun _ hd' => ?_) fun hd' => absurd (hd.symm.trans hd') (by simp)
    rw [Option.some.inj (hd.symm.trans hd')]
    exact ⟨rfl, rfl⟩

/-- A reading that moves on, and does the same as another one where `t` comes first. -/
theorem peek {E : Failure → List Token → Prop} (h : ∀ ts', Agree p q d (t :: ts'))
    (viable : Viable N p d [])
    (moves : Ensures p d (t :: ts) (fun _ ts' => ts'.length < (t :: ts).length) E)
    (hq : Foreseen N q d (t :: ts)) : Foreseen N p d (t :: ts) := by
  intro ended bare
  obtain ⟨us, u, rest, hts, outcome⟩ := hq ended bare
  refine ⟨us, u, rest, hts, ?_⟩
  cases us with
  | nil =>
    obtain ⟨rfl, rfl⟩ := List.cons.inj hts
    rcases outcome with ⟨a, taken⟩ | ⟨e, breaks, -⟩
    · -- The reading has moved on, so it cannot have stopped where it was.
      have stays : Takes q d [] t a := taken t (.inl rfl)
      have moves' : Ensures q d (t :: ts) _ E := .of_agree (fun c hc => (h ts c hc).symm) moves
      exact absurd (stays.ensured ended moves') (Nat.lt_irrefl _)
    · exact .inr ⟨e, fun rest => .of_agree (h rest) (breaks rest), fun _ => viable⟩
  | cons v us =>
    obtain ⟨rfl, -⟩ := List.cons.inj hts
    exact outcome.transfer fun _ _ _ _ _ _ _ => .of_agree (h _)

end Foreseen

/-! ## Readings that can be started -/

/-- The reading can be started with a token of the class `M`, and is foreseen wherever it is
    started. -/
structure Resumes (M N : Token → Prop) (p : Read α) (d : Nat) : Prop where
  start : Startable M N p d
  foreseen (ts : List Token) : Foreseen N p d ts

/-- One reading behind another, which stops at the tokens that may come first then. -/
theorem Foreseen.bind (hp : Foreseen M p d ts) (hf : ∀ a, Resumes M N (f a) d)
    (stops : ∀ u, N u → M u) : Foreseen N (p >>= f) d ts :=
  hp.bind_at (fun a => (hf a).start) stops fun a _ _ _ _ _ _ => (hf a).foreseen _

theorem Foreseen.map (hp : Foreseen N p d ts) (g : α → β) :
    Foreseen N (do return g (← p)) d ts :=
  hp.bind (fun a => ⟨.pure (g a), fun _ => .pure (g a)⟩) fun _ hu => hu

namespace Resumes

theorem pure (a : α) : Resumes N N (pure a) d := ⟨.pure a, fun _ => .pure a⟩

theorem bind {L : Token → Prop} (hp : Resumes L M p d) (hf : ∀ a, Resumes M N (f a) d)
    (stops : ∀ u, N u → M u) : Resumes L N (p >>= f) d :=
  ⟨hp.start.bind fun a => (hf a).start, fun ts => (hp.foreseen ts).bind hf stops⟩

theorem map (hp : Resumes M N p d) (g : α → β) : Resumes M N (do return g (← p)) d :=
  hp.bind (fun a => pure (g a)) fun _ hu => hu

theorem discard (h : Resumes M N p d) : Resumes M N (discard p) d := h.map fun _ => ()

theorem nested (h : Resumes M N p (d + 1)) : Resumes M N (nested p) d :=
  ⟨h.start.nested, fun ts => (h.foreseen ts).nested⟩

/-- A reading that expects a token, which may be made up. -/
theorem expect {select : Lexeme → Option α} {expected : String} {context : Option String}
    {x : Token} (hx : x.IsFiller) (hM : M x) (ha : select x.lexeme = some a)
    (he : select .endOfInput = none) : Resumes M N (expect select expected context) d := by
  have accepted : ∀ {t : Token} {a : α} {ts : List Token}, select t.lexeme = some a →
      Agree (Read.expect select expected context) (advance >>= fun _ => Pure.pure (t, a)) d
        (t :: ts) := by
    intro t a ts ha
    refine Agree.of_current.trans ?_
    simp only [ha]
    exact Agree.refl _
  have start : Startable M N (Read.expect select expected context) d :=
    .step hx hM (fun _ => accepted ha) (.pure (x, a))
  refine ⟨start, fun ts => .of_cons fun t us _ _ => ?_⟩
  cases hs : select t.lexeme with
  | none =>
    refine .refuse (.missingToken expected context (some t.description))
      (fun _ => Agree.of_current.trans ?_) start.viable
    simp only [hs]
    exact Agree.refl _
  | some a =>
    have ht : t.lexeme ≠ .endOfInput := by
      intro hend
      rw [hend, he] at hs
      cases hs
    exact .step ht (fun _ => accepted hs) (.pure (t, a))

/-- Where there are no comments, to pass over them does nothing. -/
theorem skipComments {k : Unit → Read α} (hN : ∀ u, N u → u.isComment = false)
    (h : Resumes M N (k ()) d) : Resumes M N (skipComments >>= k) d := by
  have same : ∀ {us rest : List Token} {u : Token}, (∀ v ∈ us, v.isComment = false) →
      u.isComment = false → Agree (Read.skipComments >>= k) (k ()) d (us ++ u :: rest) := by
    intro us rest u hus hu
    cases us with
    | nil => exact Agree.of_skipComments hu
    | cons v us => exact Agree.of_skipComments (hus v List.mem_cons_self)
  constructor
  · obtain ⟨ext, ⟨fillers, a, taken⟩, first⟩ := h.start
    have hext : ∀ x ∈ ext, x.isComment = false := fun x hx => (fillers x hx).isComment
    exact ⟨ext, ⟨fillers, a, fun u hu rest => .of_agree (same hext (hN u hu)) (taken u hu rest)⟩,
      first⟩
  · intro ts ended bare
    obtain ⟨us, t, rest, rfl, outcome⟩ := h.foreseen ts ended bare
    have hus : ∀ v ∈ us, v.isComment = false := fun v hv => bare v (List.mem_append_left _ hv)
    refine ⟨us, t, rest, rfl, outcome.transfer fun vs rest u _ _ fillers hu => .of_agree ?_⟩
    refine same (List.forall_mem_append.2 ⟨hus, fun x hx => (fillers x hx).isComment⟩) ?_
    rcases hu with rfl | hu
    · exact bare u (List.mem_append_right us List.mem_cons_self)
    · exact hN u hu

/-- A reading that goes on with `more` behind the lexeme `l`, if that comes first, and gives
    `a` otherwise. -/
theorem optional {g : Token → Read α} (l : Lexeme) (more : Read α) (a : α)
    (present : ∀ t, t.lexeme = l → g t = advance >>= fun _ => more)
    (absent : ∀ t, t.lexeme ≠ l → g t = Pure.pure a) (hl : l ≠ .endOfInput)
    (stops : ∀ u, N u → u.lexeme ≠ l) (hm : ∀ ts, Foreseen N more d ts) :
    Resumes N N (current >>= g) d := by
  have gives : ∀ u : Token, u.lexeme ≠ l → ∀ ts,
      Agree (current >>= g) (Pure.pure a) d (u :: ts) := by
    intro u hu ts
    rw [← absent u hu]
    exact Agree.of_current
  refine ⟨.done a fun u hu => gives u (stops u hu), fun ts => .of_cons fun t us _ _ => ?_⟩
  by_cases ht : t.lexeme = l
  · refine .step (f := fun _ => more) (ht ▸ hl) (fun _ => ?_) (hm us)
    rw [← present t ht]
    exact Agree.of_current
  · refine .done a fun u hu => gives u ?_
    rcases hu with rfl | hu
    · exact ht
    · exact stops u hu

end Resumes

end Read

end Soul
