import NimbleLang.Check.Marks
import NimbleLang.Context.Shelf
import NimbleLang.Main
import NimbleLang.Network.Outline
import NimbleLang.Parse.Interpret
import NimbleLang.Predict.Shelf
import NimbleLang.Token.Edits
import NimbleLang.Tree.Walk
import NimbleLang.Version
import NimbleLang.Workload.Runs
import NimbleLang.Proofs.Headers
import NimbleLang.Proofs.Layout
import NimbleLang.Proofs.Caches
import NimbleLang.Proofs.Calls
import NimbleLang.Proofs.Declarations
import NimbleLang.Proofs.Recollection
import NimbleLang.Proofs.Spacing
import NimbleLang.Proofs.Resolution
import NimbleLang.Proofs.TypeErrors
import NimbleLang.Proofs.Removals
import NimbleLang.Proofs.Expectations
import NimbleLang.Proofs.Pooling
import NimbleLang.Proofs.Guards
import NimbleLang.Proofs.Numbering
import NimbleLang.Proofs.Tags
import NimbleLang.Proofs.Insertions
import NimbleLang.Proofs.Renderings
