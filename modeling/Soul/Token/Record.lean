import Soul.Token.Kind
import Soul.Token.Payload

/-!
# Token records

A token record is the outside view of a token: its kind, its payload, its
location and whether it is the first on its line. Any kind may stand with any
payload; the tokens of a source text are those in which they fit
(`Token.record`).
-/

namespace Soul

/-- A token as a listing shows it. -/
structure TokenRecord where
  kind : Kind
  payload : Payload
  location : Location
  /-- No other token stands before this one on its line. -/
  startsLine : Bool
  deriving DecidableEq, Inhabited

namespace TokenRecord

/-- The token as one entry of a listing. -/
def listing (r : TokenRecord) : String :=
  "Token(" ++ r.kind.name ++ ", " ++ (r.payload.listed?.map (· ++ ", ")).getD "" ++
    toString r.location.line ++ ":" ++ toString r.location.column ++ ")"

/-- The token as part of a message. -/
def description (r : TokenRecord) : String :=
  match r.kind with
  | .endOfInput => "end of input"
  | .identifier => "identifier '" ++ r.payload.plain ++ "'"
  | .typeName => "type '" ++ r.payload.plain ++ "'"
  | .integer | .real => "number " ++ r.payload.plain
  | .string => "string \"" ++ r.payload.plain ++ "\""
  | .comment => "comment"
  | .invalid => "invalid token"
  | .operator _ | .mark _ => "`" ++ r.payload.plain ++ "`"

/-- The two records agree in everything. -/
def equal (r s : TokenRecord) : Bool :=
  r.kind == s.kind && r.payload.equal s.payload && r.location == s.location &&
    r.startsLine == s.startsLine

end TokenRecord

end Soul
