/-!
# Similar texts

How similar two texts are is measured by what they have in common: the longest
run of characters that is in both, and then, in the same way, what is common
before it and what is common behind it. Of several longest runs the leftmost
one counts, in the first text and then in the second. Two texts are similar if
at least three fifths of their characters are in common.
-/

namespace Soul.Text

/-- The length of the longest start that two texts have in common. -/
def commonStart : List Char → List Char → Nat
  | c :: cs, d :: ds => if c = d then commonStart cs ds + 1 else 0
  | _, _ => 0

/-- A run of characters that two texts have in common. -/
structure CommonRun where
  /-- The number of characters before it in the first text. -/
  first : Nat
  /-- The number of characters before it in the second text. -/
  second : Nat
  length : Nat

/-- The longest run that two texts have in common, the leftmost of several. -/
def longestRun (a b : List Char) : CommonRun :=
  let runs := (List.range a.length).flatMap fun i =>
    (List.range b.length).map fun j => ⟨i, j, commonStart (a.drop i) (b.drop j)⟩
  runs.foldl (fun best run => if best.length < run.length then run else best) ⟨0, 0, 0⟩

/-- The number of characters that two texts have in common, counted in at most
    `rounds` nested steps. -/
def commonWithin : (rounds : Nat) → (a b : List Char) → Nat
  | 0, _, _ => 0
  | rounds + 1, a, b =>
    let run := longestRun a b
    if run.length = 0 then 0
    else
      commonWithin rounds (a.take run.first) (b.take run.second) + run.length +
        commonWithin rounds (a.drop (run.first + run.length)) (b.drop (run.second + run.length))

/-- The number of characters that two texts have in common. -/
def common (a b : List Char) : Nat := commonWithin a.length a b

/-- A text and how much it has in common with another. -/
structure Likeness where
  text : String
  /-- The number of characters in common. -/
  common : Nat
  /-- The number of characters of both texts. -/
  total : Nat

/-- How much `text` has in common with `word`. -/
def likeness (word text : String) : Likeness :=
  ⟨text, common text.toList word.toList, text.length + word.length⟩

/-- At least as much is in common; of equally much, the later text comes first. -/
def Likeness.before (l m : Likeness) : Bool :=
  let x := l.common * m.total
  let y := m.common * l.total
  if x = y then m.text ≤ l.text else y < x

/-- The texts similar to a word, the three most similar if there are more, in
    alphabetical order. -/
def similar (word : String) (texts : List String) : List String :=
  let found := (texts.map (likeness word)).filter fun l => 3 * l.total ≤ 10 * l.common
  ((found.mergeSort Likeness.before).take 3 |>.map (·.text)).mergeSort (· ≤ ·)

end Soul.Text
