import TinyScript.Token

/-!
# Token listings

A listing has a line for every token: its kind and its payload, strings and characters without quotes.
-/

namespace TinyScript

/-- The payload of a value as a listing shows it. -/
def TokenValue.plainPayload : TokenValue → String
  | string text => text
  | char value => value.toString
  | value => value.lexeme

/-- The line of a token. -/
def Token.listing (t : Token) : String :=
  match t.value with
  | .eof => "Token: EOF"
  | value => "Token: " ++ value.kind.caption ++ ": " ++ value.plainPayload

/-- The lines of tokens. -/
def listing (tokens : List Token) : List String := tokens.map Token.listing

end TinyScript
