import HiToolchain.Parse

/-!
Sessions: steps taken one after the other on one cursor, each with its outcome. A step that fails
leaves the cursor where it stopped, and the session goes on from there.
-/

namespace HiToolchain

namespace Session

inductive Step where
  | read (count : Int)
  | peek (count : Int)
  | push
  | restore
  | drop
  | next
  | peekToken
  | tokens
  | parse
  deriving DecidableEq, Repr

inductive Outcome where
  | done
  | text (s : String)
  | token (t : Token)
  | tokens (list : List Token) (fault : Option LexFault)
  | program (p : Program)
  | unbalanced (fault : Underflow)
  | unread (fault : ReadFault)
  deriving DecidableEq, Repr

/-- The outcome of an operation on the marks; one that fails changes nothing. -/
def marked (c : Cursor) : Except Underflow Cursor → Outcome × Cursor
  | .ok d => (.done, d)
  | .error fault => (.unbalanced fault, c)

def scanned : Cursor.Scanned Token → Outcome × Cursor
  | (.ok t, c) => (.token t, c)
  | (.error fault, c) => (.unread (.lexical fault), c)

def perform (c : Cursor) : Step → Outcome × Cursor
  | .read n =>
    let (s, d) := c.read n
    (.text s, d)
  | .peek n => (.text (c.peek n), c)
  | .push => (.done, c.push)
  | .restore => marked c c.restore
  | .drop => marked c c.drop
  | .next => scanned c.nextToken
  | .peekToken => scanned c.peekToken
  | .tokens =>
    let ((list, fault), d) := c.tokens
    (.tokens list fault, d)
  | .parse =>
    match c.parse with
    | (.ok p, s) => (.program p, s.cursor)
    | (.error fault, s) => (.unread fault, s.cursor)

/-- Each step's outcome with the cursor after it. -/
def run : Cursor → List Step → List (Outcome × Cursor)
  | _, [] => []
  | c, s :: steps =>
    let r := perform c s
    r :: run r.2 steps

end Session

end HiToolchain
