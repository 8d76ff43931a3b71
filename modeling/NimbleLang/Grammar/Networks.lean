import NimbleLang.Grammar.LexerTable
import NimbleLang.Grammar.ParserTable
import NimbleLang.Grammar.Vocabulary
import NimbleLang.Network.Decode
import NimbleLang.Scan.Lexer

/-!
The two networks of Nimble, and scanners over Nimble sources. Blanks and comments are skipped; a scanner
that keeps them puts them on channel 1 instead.
-/

namespace NimbleLang.Grammar

def lexerNetwork : Network := (Network.decode lexerTable).toOption.getD default

def parserNetwork : Network := (Network.decode parserTable).toOption.getD default

/-- The lexer network whose one command puts blanks and comments on channel 1. -/
def keepingNetwork : Network := { lexerNetwork with commands := some #[.channel 1] }

/-- A scanner at the beginning of a Nimble source. -/
def scanner (source : Source) (keepBlanks : Bool) : Scan.Scanner :=
  { Scan.Scanner.ofNetwork (if keepBlanks then keepingNetwork else lexerNetwork) source .silent with
    traceNames := lexerTraceNames }

end NimbleLang.Grammar
