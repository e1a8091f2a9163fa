/-!
# Command words

Splitting a command line into words: blanks separate, single quotes keep everything, double quotes
keep everything but a backslash before a double quote or a backslash, and outside quotes a
backslash keeps the next character.
-/
namespace ChunkBuild.Text

inductive WordProblem where
  | openQuote
  | openEscape
  deriving DecidableEq, Repr

def WordProblem.message : WordProblem → String
  | .openQuote => "No closing quotation"
  | .openEscape => "No escaped character"

def isWordBlank (c : Char) : Bool := c == ' ' || c == '\t' || c == '\r' || c == '\n'

inductive WordState where
  | between
  | plain
  | escaped
  | single
  | double
  | doubleEscaped
  deriving DecidableEq, Repr

/-- The words of a command line; `word` holds what is read of the current one, last first. -/
def readWords (state : WordState) (word : List Char) :
    List Char → Except WordProblem (List (List Char))
  | [] =>
    match state with
    | .between => .ok []
    | .plain => .ok [word.reverse]
    | .escaped => .error .openEscape
    | .single | .double => .error .openQuote
    | .doubleEscaped => .error .openEscape
  | c :: r =>
    match state with
    | .between =>
      if isWordBlank c then readWords .between [] r
      else if c = '\'' then readWords .single [] r
      else if c = '"' then readWords .double [] r
      else if c = '\\' then readWords .escaped [] r
      else readWords .plain [c] r
    | .plain =>
      if isWordBlank c then (readWords .between [] r).map (word.reverse :: ·)
      else if c = '\'' then readWords .single word r
      else if c = '"' then readWords .double word r
      else if c = '\\' then readWords .escaped word r
      else readWords .plain (c :: word) r
    | .escaped => readWords .plain (c :: word) r
    | .single => if c = '\'' then readWords .plain word r else readWords .single (c :: word) r
    | .double =>
      if c = '"' then readWords .plain word r
      else if c = '\\' then readWords .doubleEscaped word r
      else readWords .double (c :: word) r
    | .doubleEscaped =>
      if c = '"' || c = '\\' then readWords .double (c :: word) r
      else readWords .double (c :: '\\' :: word) r

def words (s : String) : Except WordProblem (List String) :=
  (readWords .between [] s.toList).map (·.map String.ofList)

end ChunkBuild.Text
