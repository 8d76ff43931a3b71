import NimbleLang.Scan.Lexer
import NimbleLang.Token.Stream

/-!
Token supplies: a scanner over a source, or a list of tokens. A scanner notes its complaints in its own
journal; `drain` takes them out, so that they can be put in order with what others report.
-/

namespace NimbleLang

instance : TokenSource Scan.Scanner where
  next s := Scan.nextToken.outcome s
  bound s := (s.cursor.source.size - s.cursor.index).toNat + 2

inductive Supply where
  | scanned (s : Scan.Scanner)
  | listed (l : Listed)
  deriving Repr, Inhabited

namespace Supply

def next : Supply → Except Fault Token × Supply
  | scanned s => let (r, s') := TokenSource.next s; (r, scanned s')
  | listed l => let (r, l') := TokenSource.next l; (r, listed l')

def bound : Supply → Nat
  | scanned s => TokenSource.bound s
  | listed l => TokenSource.bound l

/-- What was noted since the last time, and the supply without it. -/
def drain : Supply → Journal × Supply
  | scanned s => (s.journal, scanned { s with journal := s.journal.blank })
  | listed l => ({}, listed l)

/-- Changes the scanner, if the supply has one. -/
def onScanner (f : Scan.Scanner → Scan.Scanner) : Supply → Supply
  | scanned s => scanned (f s)
  | listed l => listed l

end Supply

instance : TokenSource Supply where
  next := Supply.next
  bound := Supply.bound

end NimbleLang
