import Soul.Journal
import Soul.Token.Scanner

/-!
# Token streams

A token stream hands out the tokens of a text one by one, and counts them. The
diagnostic of what is no token of the language goes into a journal at that
moment. Comments are handed out or passed over, which may be changed between
any two tokens; one that is passed over does not count.
-/

namespace Soul

/-- The tokens of a text, handed out one by one. -/
structure TokenStream where
  scanner : Scanner
  /-- Comments are passed over. -/
  skipComments : Bool
  /-- The number of tokens handed out. -/
  count : Nat
  journal : Journal

namespace TokenStream

/-- The stream of a text before its first token. -/
def start (scanner : Scanner) (skipComments : Bool) (limit : Int) : TokenStream :=
  ⟨scanner, skipComments, 0, .empty limit⟩

/-- Hands out the next token. -/
def next (s : TokenStream) : Except Fault Token × TokenStream :=
  match s.scanner.next s.skipComments with
  | (.error fault, scanner) => (.error fault, { s with scanner := scanner })
  | (.ok token, scanner) =>
    let journal := s.journal.recordAll token.diagnostic?.toList
    (.ok token, { s with scanner := scanner, count := s.count + 1, journal := journal })

/-- Tokens handed out in a row, and the fault that put an end to it. -/
structure Batch where
  tokens : List Token
  fault : Option Fault
  stream : TokenStream

/-- Hands out tokens up to the end of the input or a fault, at most `rounds`. -/
def restWithin : (rounds : Nat) → TokenStream → Batch
  | 0, s => ⟨[], none, s⟩
  | rounds + 1, s =>
    match s.next with
    | (.error fault, s) => ⟨[], some fault, s⟩
    | (.ok token, s) =>
      if token.isEnd then ⟨[token], none, s⟩
      else
        let batch := restWithin rounds s
        { batch with tokens := token :: batch.tokens }

/-- Hands out tokens up to the end of the input or a fault. -/
def rest (s : TokenStream) : Batch := s.restWithin (s.scanner.rest.length + 1)

/-- Drops the diagnostics collected. -/
def clear (s : TokenStream) : TokenStream := { s with journal := s.journal.clear }

end TokenStream

end Soul
