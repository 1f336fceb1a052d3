import Soul.Feed
import Soul.Proofs.Segment

/-!
# What a feed hands out

A feed of a stream hands out what the stream gives up to the first empty text, and then
nothing, however often it is read (`Feed.readings_ofStream`). It asks the stream once for
each reading, up to the one that meets the end, and never again, whatever the stream has
behind it. The place of the feed is found by counting what it has handed out.

All this is said of a stream by what it gives when it is asked for the first time, the
second time and so on (`CharStream.nth`), so it holds of any kind of stream, of one that
never ends as well. A reading takes a feed from one stage to the next (`Feed.Stage.read`),
and the stages say what has been handed out and how often the stream has been asked.

A feed of a text and one of a stream over this text keep abreast of each other
(`Feed.Abreast.read`): no reading can tell them apart.
-/

namespace Soul

/-! ## Streams -/

namespace CharStream

variable {σ : Type} [CharStream σ]

/-- The stream after it has been asked `n` times. -/
def after (source : σ) : Nat → σ
  | 0 => source
  | n + 1 => (ask (after source n)).2

/-- What the stream gives when it has been asked `n` times before. -/
def nth (source : σ) (n : Nat) : String := (ask (after source n)).1

/-- What the stream gives up to the first empty text, if it is asked `n` times. -/
def upToEnd (source : σ) (n : Nat) : List String :=
  ((List.range n).map (nth source)).takeWhile (· != "")

/-- The stream gives the characters of a text one by one, and the empty text behind them. -/
def IsOver (source : σ) (text : List Char) : Prop :=
  ∀ i ≤ text.length, nth source i = (text[i]?).elim "" String.singleton

theorem length_upToEnd_le (source : σ) (n : Nat) : (upToEnd source n).length ≤ n := by
  have := (List.takeWhile_prefix (l := (List.range n).map (nth source)) (· != "")).length_le
  rwa [List.length_map, List.length_range] at this

theorem exists_nth_of_mem_upToEnd {source : σ} {n : Nat} {text : String}
    (h : text ∈ upToEnd source n) : ∃ i, nth source i = text := by
  obtain ⟨i, -, hi⟩ := List.mem_map.1 ((List.takeWhile_prefix _).mem h)
  exact ⟨i, hi⟩

/-- The next text counts if the end has not been met before it. -/
theorem upToEnd_succ (source : σ) (n : Nat) :
    upToEnd source (n + 1) =
      if (upToEnd source n).length = n then upToEnd source n ++ [nth source n].takeWhile (· != "")
      else upToEnd source n := by
  have whole (h : (upToEnd source n).length = n) :
      upToEnd source n = (List.range n).map (nth source) :=
    (List.takeWhile_prefix _).eq_of_length (by rw [List.length_map, List.length_range]; exact h)
  rw [upToEnd, List.range_succ, List.map_append, List.takeWhile_append, ← upToEnd,
    List.length_map, List.length_range, List.map_singleton]
  split
  · next h => rw [whole h]
  · rfl

theorem upToEnd_succ_of_ne {source : σ} {n : Nat} (h : (upToEnd source n).length = n)
    (given : nth source n ≠ "") :
    upToEnd source (n + 1) = upToEnd source n ++ [nth source n] := by
  rw [upToEnd_succ, if_pos h, List.takeWhile_cons, if_pos (bne_iff_ne.2 given), List.takeWhile_nil]

theorem upToEnd_succ_of_eq {source : σ} {n : Nat} (h : (upToEnd source n).length = n)
    (given : nth source n = "") : upToEnd source (n + 1) = upToEnd source n := by
  rw [upToEnd_succ, if_pos h, given]
  exact List.append_nil _

theorem upToEnd_succ_of_lt {source : σ} {n : Nat} (h : (upToEnd source n).length < n) :
    upToEnd source (n + 1) = upToEnd source n := by
  rw [upToEnd_succ, if_neg h.ne]

/-- Nothing counts from an empty text on. -/
theorem length_upToEnd_le_of_eq {source : σ} {i : Nat} (h : nth source i = "") (n : Nat) :
    (upToEnd source n).length ≤ i := by
  induction n with
  | zero => exact Nat.zero_le _
  | succ n ih =>
    rcases (length_upToEnd_le source n).lt_or_eq with lt | eq
    · rwa [upToEnd_succ_of_lt lt]
    · by_cases given : nth source n = ""
      · rwa [upToEnd_succ_of_eq eq given]
      · rw [upToEnd_succ_of_ne eq given, List.length_append, List.length_singleton]
        -- The text number `n` is not empty, so it is not the one number `i`.
        have : i ≠ n := fun hi => given (hi ▸ h)
        omega

theorem after_list (chunks : List String) (n : Nat) : after chunks n = chunks.drop n := by
  induction n with
  | zero => rfl
  | succ n ih =>
    rw [after, ih, ← List.tail_drop]
    cases chunks.drop n <;> rfl

theorem nth_list (chunks : List String) (n : Nat) : nth chunks n = chunks[n]?.getD "" := by
  rw [nth, after_list, ← List.head?_drop]
  cases chunks.drop n <;> rfl

end CharStream

/-! ## Single readings -/

namespace Feed

open CharStream

variable {σ : Type} [CharStream σ]

/-- A reading meets the end, or has met it before, if it hands out nothing. -/
theorem exhausted_read (f : Feed σ) : f.read.2.exhausted = true ↔ f.read.1 = "" := by
  obtain ⟨h, eq⟩ | ⟨-, -, eq⟩ | ⟨h, given, eq⟩ := f.read_cases
  · simp [eq, h]
  · simp [eq]
  · simp [eq, h, given]

theorem advance_eq_afterAll {given : String} (p : Position) (given_ne : given ≠ "")
    (short : given.length ≤ 1) : advance p given = p.afterAll given.toList := by
  obtain ⟨c, hc⟩ : ∃ c, given.toList = [c] := by
    refine List.length_eq_one_iff.1 (Nat.le_antisymm ?_ (List.length_pos_iff.2 ?_))
    · rwa [String.length_toList]
    · exact fun h => given_ne (String.toList_eq_nil_iff.1 h)
  obtain rfl : given = String.singleton c := by
    rw [← String.toList_inj, hc, String.toList_singleton]
  have newline : String.singleton c = "\n" ↔ c = '\n' := by
    rw [← String.toList_inj, String.toList_singleton]
    exact List.singleton_inj
  rw [hc, Position.afterAll_cons, Position.afterAll_nil, advance, Position.after]
  simp only [newline]

/-- A feed is behind what it hands out. -/
theorem position_read {f : Feed σ} (short : f.read.1.length ≤ 1) :
    f.read.2.position = f.position.afterAll f.read.1.toList := by
  obtain ⟨-, eq⟩ | ⟨-, -, eq⟩ | ⟨-, given, eq⟩ := f.read_cases
  · rw [eq]; rfl
  · rw [eq]; rfl
  · rw [eq] at short ⊢
    exact advance_eq_afterAll f.position given short

theorem file_read (f : Feed σ) : f.read.2.file = f.file := by
  obtain ⟨-, eq⟩ | ⟨-, -, eq⟩ | ⟨-, -, eq⟩ := f.read_cases <;> rw [eq]

/-! ## Readings in a row -/

/-- What `n` readings in a row hand out, and the feed after them. -/
def readings (f : Feed σ) : Nat → List String × Feed σ
  | 0 => ([], f)
  | n + 1 => ((f.readings n).1 ++ [(f.readings n).2.read.1], (f.readings n).2.read.2)

theorem exhausted_readings (f : Feed σ) (n : Nat) :
    (f.readings n).2.exhausted = true ↔ f.exhausted = true ∨ "" ∈ (f.readings n).1 := by
  induction n with
  | zero => simp [readings]
  | succ n ih =>
    have stays (h : (f.readings n).2.exhausted = true) : (f.readings n).2.read.1 = "" := by
      rw [read_of_exhausted h]
    rw [readings, exhausted_read, List.mem_append, List.mem_singleton, ← or_assoc, ← ih,
      eq_comm (a := "")]
    exact ⟨.inr, fun h => h.elim stays id⟩

theorem position_readings {f : Feed σ} {n : Nat}
    (short : ∀ given ∈ (f.readings n).1, given.length ≤ 1) :
    (f.readings n).2.position =
      f.position.afterAll ((f.readings n).1.flatMap String.toList) := by
  induction n with
  | zero => rfl
  | succ n ih =>
    rw [readings, List.forall_mem_append, List.forall_mem_singleton] at short
    rw [readings, position_read short.2, ih short.1, List.flatMap_append,
      Position.afterAll_append, List.flatMap_singleton]

theorem file_readings (f : Feed σ) (n : Nat) : (f.readings n).2.file = f.file := by
  induction n with
  | zero => rfl
  | succ n ih => rw [readings, file_read, ih]

/-! ## Streams read by a feed -/

/-- How far `n` readings of a stream have come: what they have handed out and the feed
    after them. The end has not been met yet, or it has been met and the stream has not
    been asked since. -/
inductive Stage (file : String) (source : σ) (n : Nat) : List String × Feed σ → Prop
  | running {p : Position} : (upToEnd source n).length = n →
      Stage file source n (upToEnd source n, ⟨file, .stream (after source n) n, p, false⟩)
  | ended {k : Nat} {p : Position} : (upToEnd source n).length = k → k < n →
      Stage file source n (upToEnd source n ++ List.replicate (n - k) "",
        ⟨file, .stream (after source (k + 1)) (k + 1), p, true⟩)

/-- A reading takes a feed to its next stage. -/
theorem Stage.read {file : String} {source : σ} {n : Nat} {r : List String × Feed σ}
    (h : Stage file source n r) : Stage file source (n + 1) (r.1 ++ [r.2.read.1], r.2.read.2) := by
  cases h with
  | @running p h =>
    by_cases given : nth source n = ""
    · have taken : (Supply.stream (after source n) n).take.1 = "" := given
      have same := upToEnd_succ_of_eq h given
      have ended : Stage file source (n + 1)
          (_, ⟨file, .stream (after source (n + 1)) (n + 1), p, true⟩) :=
        .ended (by rw [same, h]) n.lt_succ_self
      rw [same, Nat.add_sub_cancel_left] at ended
      rw [read_of_end rfl taken]
      exact ended
    · have taken : (Supply.stream (after source n) n).take.1 ≠ "" := given
      have running := upToEnd_succ_of_ne h given
      rw [read_of_given rfl taken]
      change Stage file source (n + 1) (upToEnd source n ++ [nth source n], _)
      rw [← running]
      exact .running (by rw [running, List.length_append, h, List.length_singleton])
  | @ended k p h lt =>
    have same := upToEnd_succ_of_lt (h ▸ lt)
    have ended : Stage file source (n + 1)
        (_, ⟨file, .stream (after source (k + 1)) (k + 1), p, true⟩) :=
      .ended (by rw [same, h]) (Nat.lt_succ_of_lt lt)
    rw [same, Nat.succ_sub lt.le, List.replicate_succ', ← List.append_assoc] at ended
    rw [read_of_exhausted rfl]
    exact ended

theorem stage_readings (file : String) (source : σ) (n : Nat) :
    Stage file source n ((ofStream file source).readings n) := by
  induction n with
  | zero => exact .running rfl
  | succ n ih => exact ih.read

theorem Stage.given_eq {file : String} {source : σ} {n : Nat} {r : List String × Feed σ}
    (h : Stage file source n r) :
    r.1 = upToEnd source n ++ List.replicate (n - (upToEnd source n).length) "" := by
  cases h with
  | running h => rw [h, Nat.sub_self, List.replicate_zero, List.append_nil]
  | ended h => rw [h]

theorem Stage.supply_eq {file : String} {source : σ} {n : Nat} {r : List String × Feed σ}
    (h : Stage file source n r) :
    r.2.supply = .stream (after source r.2.supply.calls) r.2.supply.calls ∧
      r.2.supply.calls = min n ((upToEnd source n).length + 1) := by
  cases h with
  | running h => exact ⟨rfl, by rw [h, Nat.min_eq_left n.le_succ]; rfl⟩
  | ended h lt => exact ⟨rfl, by rw [h, Nat.min_eq_right lt]; rfl⟩

/-! ## Texts and streams over them -/

/-- A feed of a text and a feed of a stream are abreast: both are in front of the same
    character of the text, or both have met the end at the same place. -/
inductive Abreast (text : List Char) (source : σ) : Feed → Feed σ → Prop
  | running {file : String} {p : Position} {i : Nat} : i ≤ text.length →
      Abreast text source ⟨file, .text (text.drop i), p, false⟩
        ⟨file, .stream (after source i) i, p, false⟩
  | ended {file : String} {p : Position} {supply : Supply} {supply' : Supply σ} :
      Abreast text source ⟨file, supply, p, true⟩ ⟨file, supply', p, true⟩

/-- No reading tells a text from a stream over it. -/
theorem Abreast.read {text : List Char} {source : σ} {f : Feed} {g : Feed σ}
    (is_over : IsOver source text) (h : Abreast text source f g) :
    f.read.1 = g.read.1 ∧ Abreast text source f.read.2 g.read.2 := by
  cases h with
  | @running file p i le =>
    have given : (Supply.stream (after source i) i).take.1 = (text[i]?).elim "" String.singleton :=
      is_over i le
    rcases le.lt_or_eq with lt | rfl
    · rw [List.getElem?_eq_getElem lt, Option.elim_some] at given
      have taken : (Supply.text (text[i] :: text.drop (i + 1)) : Supply).take.1 ≠ "" :=
        String.singleton_ne_empty
      have taken' : (Supply.stream (after source i) i).take.1 ≠ "" := by
        rw [given]
        exact String.singleton_ne_empty
      rw [List.drop_eq_getElem_cons lt, read_of_given rfl taken, read_of_given rfl taken', given]
      exact ⟨rfl, .running lt⟩
    · rw [List.getElem?_eq_none le, Option.elim_none] at given
      rw [List.drop_length, read_of_end rfl rfl, read_of_end rfl given]
      exact ⟨rfl, .ended⟩
  | ended =>
    -- What is left of either source plays no part any more.
    rw [read_of_exhausted rfl, read_of_exhausted rfl]
    exact ⟨rfl, .ended⟩

theorem Abreast.readings {text : List Char} {source : σ} {f : Feed} {g : Feed σ}
    (is_over : IsOver source text) (h : Abreast text source f g) (n : Nat) :
    (f.readings n).1 = (g.readings n).1 ∧
      Abreast text source (f.readings n).2 (g.readings n).2 := by
  induction n with
  | zero => exact ⟨rfl, h⟩
  | succ n ih =>
    obtain ⟨same, next⟩ := ih.2.read is_over
    exact ⟨by rw [Feed.readings, Feed.readings, ih.1, same], next⟩

theorem Abreast.same_place {text : List Char} {source : σ} {f : Feed} {g : Feed σ}
    (h : Abreast text source f g) :
    f.file = g.file ∧ f.position = g.position ∧ f.exhausted = g.exhausted := by
  cases h with
  | running => exact ⟨rfl, rfl, rfl⟩
  | ended => exact ⟨rfl, rfl, rfl⟩

/-! ## The whole course of a feed -/

/-- What any number of readings of a stream come to. They hand out what the stream gives up
    to the first empty text, and then nothing. The stream has been asked once for each of
    them up to the end, and not again. The line and the column count the characters handed
    out, and the end has been met once nothing has been handed out. With a text in place of
    a stream over it, all that can be seen of the feed is the same. -/
theorem readings_ofStream (file : String) (source : σ)
    (short : ∀ i, (nth source i).length ≤ 1) (n : Nat) :
    let given := ((ofStream file source).readings n).1
    let f := ((ofStream file source).readings n).2
    let chars := given.flatMap String.toList
    given = upToEnd source n ++ List.replicate (n - (upToEnd source n).length) "" ∧
      f.supply = .stream (after source f.supply.calls) f.supply.calls ∧
      f.supply.calls = min n ((upToEnd source n).length + 1) ∧
      (∀ i, nth source i = "" → f.supply.calls ≤ i + 1) ∧
      f.file = file ∧
      f.position.line = 1 + chars.count '\n' ∧
      f.position.column = 1 + (chars.reverse.takeWhile (· != '\n')).length ∧
      (f.exhausted = true ↔ "" ∈ given) ∧
      ∀ text : String, IsOver source text.toList →
        let given' := ((ofText file text).readings n).1
        let f' := ((ofText file text).readings n).2
        given' = given ∧ f'.file = f.file ∧ f'.position = f.position ∧
          f'.exhausted = f.exhausted := by
  intro given f chars
  have stage : Stage file source n (given, f) := stage_readings file source n
  obtain ⟨supply, calls⟩ := stage.supply_eq
  have place : f.position = .behind chars := by
    rw [← Position.afterAll_start]
    refine position_readings fun text mem => ?_
    rw [stage.given_eq, List.mem_append] at mem
    rcases mem with mem | mem
    · obtain ⟨i, rfl⟩ := exists_nth_of_mem_upToEnd mem
      exact short i
    · rw [List.eq_of_mem_replicate mem]
      exact Nat.zero_le 1
  refine ⟨stage.given_eq, supply, calls, fun i empty => ?_, file_readings _ n, ?_, ?_, ?_,
    fun text is_over => ?_⟩
  · rw [calls]
    exact (Nat.min_le_right _ _).trans (Nat.succ_le_succ (length_upToEnd_le_of_eq empty n))
  · rw [place, Position.behind]
  · rw [place, Position.behind]
  · rw [exhausted_readings]
    exact or_iff_right Bool.false_ne_true
  · have start : Abreast text.toList source (ofText file text) (ofStream file source) :=
      .running (Nat.zero_le _)
    obtain ⟨same, abreast⟩ := start.readings is_over n
    exact ⟨same, abreast.same_place⟩

/-- A stream that has more to give behind its end, read past the end. -/
theorem readings_ofStream_early_end :
    let text := "a\nb"
    let chunks := ["a", "\n", "b", "", "c"]
    let f := ((ofStream "main" chunks).readings 6).2
    (∀ i, (nth chunks i).length ≤ 1) ∧ IsOver chunks text.toList ∧
      ((ofStream "main" chunks).readings 6).1 = ["a", "\n", "b", "", "", ""] ∧
      f.supply = .stream ["c"] 4 ∧ f.position = ⟨2, 2⟩ ∧ f.exhausted = true ∧
      ((ofText "main" text).readings 6).1 = ["a", "\n", "b", "", "", ""] := by
  intro text chunks f
  have short (i : Nat) : (nth chunks i).length ≤ 1 := by
    rw [nth_list]
    rcases lt_or_ge i 5 with lt | ge
    · revert i
      decide
    · rw [List.getElem?_eq_none ge]
      exact Nat.zero_le 1
  have is_over : IsOver chunks text.toList := by
    unfold IsOver
    decide +kernel
  have cut : upToEnd chunks 6 = ["a", "\n", "b"] := by decide +kernel
  obtain ⟨given, supply, calls, -, -, line, column, ended, same⟩ :=
    readings_ofStream "main" chunks short 6
  rw [cut] at given calls
  rw [given] at line column ended
  refine ⟨short, is_over, given, supply.trans ?_, congrArg₂ Position.mk line column,
    ended.2 (by decide), (same text is_over).1.trans given⟩
  rw [calls]
  rfl

end Feed

end Soul
