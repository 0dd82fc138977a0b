/-
# `CallLang.Parse` — from tokens to an expression

The parser reads one token at a time.  Its state holds the calls that are
still open, innermost first, each with the parameters read so far.  One token
either moves it to the next state, completes the outermost call, or is the
first token that no program can have at this place.  What follows the
outermost call is not read.
-/
import CallLang.ErrorClass
import CallLang.Expr
import CallLang.Scan

namespace CallLang

/-! ## What can be wrong -/

/-- Why a row of tokens is no program. -/
inductive ParseError
  | noInitialCall (found : Option Token)
  | missingOperator (found : Token)
  | unknownOperator (found : Token)
  | unhandledToken (found : Token)
  | unexpectedEnd
  deriving DecidableEq, Repr

/-- The report of a parse error. -/
def ParseError.diagnostic : ParseError → Diagnostic
  | .noInitialCall found => ⟨.grammar, "No initial call expression found.", found⟩
  | .missingOperator found => ⟨.grammar, "Missing operator in call expression.", some found⟩
  | .unknownOperator found => ⟨.grammar, "Unknown operator: " ++ found.text ++ ".", some found⟩
  | .unhandledToken found => .unhandledToken found
  | .unexpectedEnd => .unexpectedEnd

/-! ## One token -/

/-- An open call: its operator and the parameters read so far, newest first. -/
structure Frame where
  operator : Operator
  params : List Expr

/-- Adds a parameter to an open call. -/
def Frame.add (f : Frame) (param : Expr) : Frame :=
  { f with params := param :: f.params }

/-- The expression of a call that is closed now. -/
def Frame.close (f : Frame) : Expr :=
  .call f.operator f.params.reverse

/-- What the parser waits for: the first paren, an operator, a parameter of
the call on top, or the end of a string whose words so far are kept newest
first.  `outer` holds the calls around it. -/
inductive ParseState
  | start
  | operator (outer : List Frame)
  | params (top : Frame) (outer : List Frame)
  | string (words : List String) (top : Frame) (outer : List Frame)

/-- What one token leads to. -/
inductive ParseStep
  | more (state : ParseState)
  | done (expr : Expr)
  | fail (error : ParseError)

namespace ParseState

/-- Closes the call on top: it is a parameter of the next call around it, or
the whole program. -/
def closeCall (top : Frame) : List Frame → ParseStep
  | [] => .done top.close
  | next :: outer => .more (.params (next.add top.close) outer)

/-- Reads one token. -/
def step (s : ParseState) (t : Token) : ParseStep :=
  match s with
  | .start =>
    if t.kind = .openParen then .more (.operator []) else .fail (.noInitialCall (some t))
  | .operator outer =>
    if t.kind = .symbol then
      match Operator.ofText? t.text with
      | some op => .more (.params ⟨op, []⟩ outer)
      | none => .fail (.unknownOperator t)
    else .fail (.missingOperator t)
  | .params top outer =>
    match t.kind with
    | .number => .more (.params (top.add (.number t.text)) outer)
    | .quote => .more (.string [] top outer)
    | .openParen => .more (.operator (top :: outer))
    | .closeParen => closeCall top outer
    | .symbol => .fail (.unhandledToken t)
    | .unhandled => .fail (.unhandledToken t)
  | .string words top outer =>
    if t.kind = .quote then
      .more (.params (top.add (.string (" ".intercalate words.reverse))) outer)
    else .more (.string (t.text :: words) top outer)

/-- What is wrong when the tokens end here. -/
def atEnd : ParseState → ParseError
  | .start => .noInitialCall none
  | _ => .unexpectedEnd

/-- Reads tokens until a call is complete or one is refused; `count` tokens
were read before. -/
def feed (s : ParseState) (count : Nat) : List Token → Except ParseError (Expr × Nat)
  | [] => .error s.atEnd
  | t :: ts =>
    match s.step t with
    | .more s' => s'.feed (count + 1) ts
    | .done e => .ok (e, count + 1)
    | .fail error => .error error

end ParseState

/-! ## A row of tokens, a source text -/

/-- The leading call of a row of tokens, and how many tokens it takes up. -/
def parseWithRest (tokens : List Token) : Except ParseError (Expr × Nat) :=
  ParseState.start.feed 0 tokens

/-- The leading call of a row of tokens. -/
def parse (tokens : List Token) : Except ParseError Expr :=
  (parseWithRest tokens).map (·.1)

/-- The leading call of a source text. -/
def parseSource (source : String) : Except ParseError Expr :=
  parse (tokenize source)

end CallLang
