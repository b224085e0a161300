import DocPath.Yaml.BlockScalar
import DocPath.Yaml.QuotedScalar
import DocPath.Yaml.Tag
import DocPath.Yaml.Token

/-!
# Cutting YAML text into tokens

Whether a node is a key is only known at the colon after it. So wherever a key may begin, its place
is kept as a *candidate*, one for each level of brackets, with the number that the next token gets.
At a colon the candidate becomes a key: a `key` token is put in at that number, and in front of it
the start of a mapping if the key is indented further than what is open. A candidate is given up
once its line has ended or it has become too long. One that had to be a key, since it stood at the
indentation of a mapping, is then an error.

A text may be malformed further on. The tokens before the error still count, up to the first one
that the text after it could have put something in front of (`settled`).
-/

namespace DocPath.Yaml

/-- The place of a node that may turn out to be a key. -/
structure Candidate extends Position where
  number : Nat
  required : Bool

/-- How many bytes a key may take up. -/
def keyWidth : Nat := 1024

/-- A text that has been cut into tokens up to some place. -/
structure Lexer where
  cursor : Cursor
  /-- The tokens so far, last first. -/
  tokens : List Token
  /-- The indentation of the innermost open block, and those around it. -/
  indent : Int
  outer : List Int
  /-- The candidate at the innermost level of brackets, and those at the levels around it. -/
  candidate : Option Candidate
  levels : List (Option Candidate)
  /-- Whether a key may begin here. -/
  keyAllowed : Bool

namespace Lexer

/-- The lexer at the start of a text. -/
def start (cs : List Char) : Lexer where
  cursor := .start cs
  tokens := []
  indent := -1
  outer := []
  candidate := none
  levels := []
  keyAllowed := true

/-- Whether the place is inside brackets. -/
def inFlow (lex : Lexer) : Bool := !lex.levels.isEmpty

/-- Adds a token. -/
def emit (lex : Lexer) (token : Token) : Lexer := { lex with tokens := token :: lex.tokens }

/-- Puts a token in, so that it gets a number that another one has. -/
def emitAt (lex : Lexer) (number : Nat) (token : Token) : Lexer :=
  let after := lex.tokens.length - number
  { lex with tokens := lex.tokens.take after ++ token :: lex.tokens.drop after }

/-- Adds a sign of `size` characters. -/
def emitSign (lex : Lexer) (size : Nat) (token : Token) : Lexer :=
  { lex.emit token with cursor := lex.cursor.skip size }

/-- Whether a candidate can no longer become a key. -/
def isStale (cur : Cursor) (candidate : Candidate) : Bool :=
  decide (candidate.line < cur.line ∨ candidate.bytes + keyWidth < cur.bytes)

/-- Gives up a candidate if it is stale; an error if it was required. -/
def refresh? (cur : Cursor) : Option Candidate → Option (Option Candidate)
  | none => some none
  | some candidate =>
    if isStale cur candidate then if candidate.required then none else some none
    else some (some candidate)

/-- Gives up the stale candidates of all levels. -/
def dropStale (lex : Lexer) : Option Lexer := do
  let candidate ← refresh? lex.cursor lex.candidate
  let levels ← lex.levels.mapM (refresh? lex.cursor)
  pure { lex with candidate, levels }

/-- Gives up the candidate of this level. -/
def dropCandidate (lex : Lexer) : Option Lexer :=
  if lex.candidate.any (·.required) then none else some { lex with candidate := none }

/-- Keeps this place as a candidate, if a key may begin here. -/
def markCandidate (lex : Lexer) : Option Lexer :=
  if lex.keyAllowed then do
    let required := !lex.inFlow && lex.indent == lex.cursor.column
    let cleared ← lex.dropCandidate
    pure { cleared with
      candidate := some ⟨lex.cursor.toPosition, lex.tokens.length, required⟩ }
  else some lex

/-- Opens a block at a column if it is further in than what is open; `place` adds its token. -/
def openBlock (lex : Lexer) (column : Nat) (place : Lexer → Lexer) : Lexer :=
  if !lex.inFlow && decide (lex.indent < column) then
    place { lex with indent := column, outer := lex.indent :: lex.outer }
  else lex

/-- Closes the blocks that are further in than a column; `outer` lists the indentations around the
innermost one. -/
def closeFrom (column : Int) : (indent : Int) → (outer : List Int) → List Token →
    Int × List Int × List Token
  | indent, [], tokens => (indent, [], tokens)
  | indent, next :: outer, tokens =>
    if column < indent then closeFrom column next outer (.blockEnd :: tokens)
    else (indent, next :: outer, tokens)

/-- Closes the blocks that are further in than a column. -/
def closeBlocks (lex : Lexer) (column : Int) : Lexer :=
  if lex.inFlow then lex
  else
    let (indent, outer, tokens) := closeFrom column lex.indent lex.outer lex.tokens
    { lex with indent, outer, tokens }

/-- Goes on over blanks, comments and line ends. A tab counts as a blank where no key may begin, and
a new line outside of brackets may begin a key. A byte order mark counts as a blank at the start of
a line. -/
def skipBlanks (flow : Bool) : (comment keyAllowed : Bool) → Position → List Char → Bool × Cursor
  | _, keyAllowed, place, [] => (keyAllowed, ⟨place, []⟩)
  | comment, keyAllowed, place, c :: rest =>
    if isBreak c then skipBlanks flow false (keyAllowed || !flow) (place.after c) rest
    else if comment || c = ' ' || (c = '\t' && (flow || !keyAllowed)) ||
        (c = '\ufeff' && place.column = 0) then
      skipBlanks flow comment keyAllowed (place.after c) rest
    else if c = '#' then skipBlanks flow true keyAllowed (place.after c) rest
    else (keyAllowed, ⟨place, c :: rest⟩)

/-- Goes on to where the next token begins. -/
def toNext (lex : Lexer) : Lexer :=
  let cur := lex.cursor
  let (keyAllowed, cursor) :=
    skipBlanks lex.inFlow false lex.keyAllowed cur.toPosition cur.rest
  { lex with keyAllowed, cursor }

/-- The end of the text, which also ends its last line. -/
def fetchEnd (lex : Lexer) : Option Lexer := do
  let cur := lex.cursor
  let cursor : Cursor := if cur.column = 0 then cur else ⟨cur.nextLine, cur.rest⟩
  let lex ← ({ lex with cursor }.closeBlocks (-1)).dropCandidate
  pure ({ lex with keyAllowed := false }.emit .streamEnd)

/-- A directive. -/
def fetchDirective (lex : Lexer) : Option Lexer := do
  let lex ← (lex.closeBlocks (-1)).dropCandidate
  let (directive, cursor) ← takeDirective lex.cursor
  let token := match directive with
    | .version major minor => Token.version major minor
    | .handle handle start => .tagHandle handle start
  pure { lex.emit token with cursor, keyAllowed := false }

/-- The sign that begins or ends a document. -/
def fetchDocumentSign (lex : Lexer) (token : Token) : Option Lexer := do
  let lex ← (lex.closeBlocks (-1)).dropCandidate
  pure ({ lex with keyAllowed := false }.emitSign 3 token)

/-- A bracket that opens. -/
def fetchOpening (lex : Lexer) (token : Token) : Option Lexer := do
  let lex ← lex.markCandidate
  pure ({ lex with candidate := none, levels := lex.candidate :: lex.levels, keyAllowed := true
    }.emitSign 1 token)

/-- A bracket that closes. -/
def fetchClosing (lex : Lexer) (token : Token) : Option Lexer := do
  let lex ← lex.dropCandidate
  let lex := match lex.levels with
    | [] => lex
    | candidate :: levels => { lex with candidate, levels }
  pure ({ lex with keyAllowed := false }.emitSign 1 token)

/-- A comma inside brackets. -/
def fetchComma (lex : Lexer) : Option Lexer := do
  let lex ← lex.dropCandidate
  pure ({ lex with keyAllowed := true }.emitSign 1 .comma)

/-- A dash before an item. -/
def fetchItem (lex : Lexer) : Option Lexer := do
  if !lex.inFlow && !lex.keyAllowed then none
  else
    let lex ← (lex.openBlock lex.cursor.column (·.emit .blockSequence)).dropCandidate
    pure ({ lex with keyAllowed := true }.emitSign 1 .item)

/-- A question mark before a key. -/
def fetchKey (lex : Lexer) : Option Lexer := do
  if !lex.inFlow && !lex.keyAllowed then none
  else
    let lex ← (lex.openBlock lex.cursor.column (·.emit .blockMapping)).dropCandidate
    pure ({ lex with keyAllowed := !lex.inFlow }.emitSign 1 .key)

/-- A colon before a value. -/
def fetchValue (lex : Lexer) : Option Lexer :=
  match lex.candidate with
  | some candidate =>
    let lex := lex.emitAt candidate.number .key
    let lex := lex.openBlock candidate.column (·.emitAt candidate.number .blockMapping)
    some ({ lex with candidate := none, keyAllowed := false }.emitSign 1 .value)
  | none =>
    if !lex.inFlow && !lex.keyAllowed then none
    else
      let lex := lex.openBlock lex.cursor.column (·.emit .blockMapping)
      some ({ lex with keyAllowed := !lex.inFlow }.emitSign 1 .value)

/-- An anchor or an alias. -/
def fetchAnchor (lex : Lexer) (token : String → Token) : Option Lexer := do
  let lex ← lex.markCandidate
  let (name, cursor) ← takeAnchor lex.cursor
  pure { lex.emit (token name) with cursor, keyAllowed := false }

/-- A tag. -/
def fetchTag (lex : Lexer) : Option Lexer := do
  let lex ← lex.markCandidate
  let (handle, suffix, cursor) ← takeTag lex.inFlow lex.cursor
  pure { lex.emit (.tag handle suffix) with cursor, keyAllowed := false }

/-- A block scalar. -/
def fetchBlockScalar (lex : Lexer) (literal : Bool) : Option Lexer := do
  let lex ← lex.dropCandidate
  let (text, cursor) ← takeBlock literal lex.indent lex.cursor
  pure { lex.emit (.scalar false text) with cursor, keyAllowed := true }

/-- A scalar in quotes. -/
def fetchQuoted (lex : Lexer) (single : Bool) : Option Lexer := do
  let lex ← lex.markCandidate
  let (text, cursor) ← takeQuoted single lex.cursor
  pure { lex.emit (.scalar false text) with cursor, keyAllowed := false }

/-- A plain scalar; after it a key may begin only on a new line. -/
def fetchPlain (lex : Lexer) : Option Lexer := do
  let lex ← lex.markCandidate
  let (text, lineEnded, cursor) ← takePlain lex.inFlow (lex.indent + 1).toNat lex.cursor
  pure { lex.emit (.scalar true text) with cursor, keyAllowed := lineEnded }

/-- Whether a plain scalar may begin with `c` before `rest`. -/
def beginsPlain (flow : Bool) (c : Char) (rest : List Char) : Bool :=
  !(isBlank c || isBreak c || "-?:,[]\x7b\x7d#&*!|>\x27\x22%@\x60".contains c) ||
    (c = '-' && !(rest.head?.any isBlank)) ||
    (!flow && (c = '?' || c = ':') && goesOn rest)

/-- The token that begins with `c` before `rest`. -/
def fetchFrom (lex : Lexer) (c : Char) (rest : List Char) : Option Lexer :=
  let flow := lex.inFlow
  if c = '%' ∧ lex.cursor.column = 0 then lex.fetchDirective
  else if lex.cursor.atSign '-' then lex.fetchDocumentSign .documentStart
  else if lex.cursor.atSign '.' then lex.fetchDocumentSign .documentEnd
  else if c = '[' then lex.fetchOpening .flowSequence
  else if c = '\x7b' then lex.fetchOpening .flowMapping
  else if c = ']' then lex.fetchClosing .flowSequenceEnd
  else if c = '\x7d' then lex.fetchClosing .flowMappingEnd
  else if c = ',' then lex.fetchComma
  else if c = '-' ∧ ¬goesOn rest then lex.fetchItem
  else if c = '?' ∧ (flow ∨ ¬goesOn rest) then lex.fetchKey
  else if c = ':' ∧ (flow ∨ ¬goesOn rest) then lex.fetchValue
  else if c = '*' then lex.fetchAnchor .alias
  else if c = '&' then lex.fetchAnchor .anchor
  else if c = '!' then lex.fetchTag
  else if c = '|' ∧ ¬flow then lex.fetchBlockScalar true
  else if c = '>' ∧ ¬flow then lex.fetchBlockScalar false
  else if c = '\x27' then lex.fetchQuoted true
  else if c = '\x22' then lex.fetchQuoted false
  else if beginsPlain flow c rest then lex.fetchPlain
  else none

/-- Goes on by one token, and by those that it brings with it. -/
def step (lex : Lexer) : Option Lexer := do
  let lex ← lex.toNext.dropStale
  let lex := lex.closeBlocks lex.cursor.column
  let lex ← match lex.cursor.rest with
    | [] => lex.fetchEnd
    | c :: rest => lex.fetchFrom c rest
  lex.dropStale

/-- How many tokens nothing can be put in front of any more: those before the first candidate. -/
def settled (lex : Lexer) : Nat :=
  (lex.candidate :: lex.levels).foldl
    (fun least candidate => match candidate with
      | some candidate => min least candidate.number
      | none => least)
    lex.tokens.length

/-- Whether the text has come to its end. -/
def isDone (lex : Lexer) : Bool := lex.tokens.head? = some .streamEnd

/-- Goes on to the end of the text or to an error; `fuel` bounds how many steps there can be. -/
def run : (fuel : Nat) → Lexer → List Token
  | 0, lex => lex.tokens.reverse
  | fuel + 1, lex =>
    if lex.isDone then lex.tokens.reverse
    else match lex.step with
      | some next => run fuel next
      | none => lex.tokens.reverse.take lex.settled

end Lexer

/-- Cuts a text into tokens. They end with `streamEnd` unless the text is malformed. -/
def tokens (cs : List Char) : List Token := (Lexer.start cs).run (cs.length + 2)

end DocPath.Yaml
