import Mathlib.Data.Finset.Dedup
import Mathlib.Data.Finset.Card
import Tdb.Stats.Determinism

namespace Tdb.Stats

open Std Tdb.Library Tdb.Storage

section Counting

variable {κ : Type} [Ord κ] [TransOrd κ] [LawfulEqOrd κ] [DecidableEq κ]

end Counting

section Kept

variable (order : HashOrder) (db : TraceDb)

end Kept

end Tdb.Stats
