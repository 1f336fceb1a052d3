import Soul.Number.Shortest
import Soul.Problem

/-!
# Payloads

A token carries a payload: a number, a text, the problem with what is no token
of the language, or nothing. Payloads are shown in two ways: plainly, as part
of a sentence, and in listings, where a text is quoted.
-/

namespace Soul

/-- What a token carries. -/
inductive Payload where
  | none
  | integer (n : Int)
  | real (x : Double)
  | text (s : String)
  | problem (p : Problem)
  deriving DecidableEq, Inhabited

namespace Payload

/-- The payload as part of a sentence. -/
def plain : Payload → String
  | none => "None"
  | integer n => toString n
  | real x => x.text
  | text s => s
  | problem p => p.text

/-- The payload in a listing, unless there is none. -/
def listed? : Payload → Option String
  | none => .none
  | integer n => some (toString n)
  | real x => some x.text
  | text s => some (Text.quoted s)
  | problem p => some p.listed

/-- The two payloads carry the same. Numbers are the same if their values are,
    integer or not; two problems never are. -/
def equal : Payload → Payload → Bool
  | none, none => true
  | integer m, integer n => m == n
  | integer m, real y => y.equalInt m
  | real x, integer n => x.equalInt n
  | real x, real y => x.equal y
  | text s, text t => s == t
  | _, _ => false

end Payload

end Soul
