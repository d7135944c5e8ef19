import Wsarb.State.Wire
import Wsarb.Upstream.Route

/-!
Owns the reading of an upstream frame from its text: the channel stands beside the data and says
what it is read as. Only the fields a frame is routed by are read; whatever else stands in it is
passed over. A record may be written as an object or as an array of its fields, as the derived
readers take it.

The reader here bounds how many containers are open at once everywhere; `serde_json` does so only
in what it keeps. A channel given as an object, a lone surrogate in what is passed over: such texts
the derived reader takes and this one does not.

Does not own: what is done with a frame.
-/

namespace Wsarb

open Wsarb.Library Wsarb.Library.Json

deriving instance DecidableEq for CoinTime, L2Head, TradeHead, OrderUpdateHead, CoinOnly,
  L2DiffHead, L2DiffFrame, StatusHead, L4Updates, L4Frame, Frame

def u64Of? (members : Members) (name : String) : Option Nat := number? UInt64.size members name

namespace CoinTime

def ofJson (json : Json) : Option CoinTime := do
  let members ← record? ["coin", "time"] json
  let coin ← text? members "coin"
  let time ← u64Of? members "time"
  some { coin, time }

end CoinTime

namespace L2Head

def names : List String :=
  ["coin", "time", "n_sig_figs", "n_levels", "mantissa"].map CamelCase.field

def ofJson (json : Json) : Option L2Head := do
  let members ← record? names json
  let coin ← text? members (CamelCase.field "coin")
  let time ← u64Of? members (CamelCase.field "time")
  let nSigFigs ← SubKey.u32? members (CamelCase.field "n_sig_figs")
  let nLevels ← SubKey.u64? members (CamelCase.field "n_levels")
  let mantissa ← SubKey.u64? members (CamelCase.field "mantissa")
  some { coin, time, nSigFigs, nLevels, mantissa }

end L2Head

namespace TradeHead

def ofJson (json : Json) : Option TradeHead := do
  let members ← record? ["coin", "tid"] json
  let coin ← text? members "coin"
  let tid ← u64Of? members "tid"
  some { coin, tid }

end TradeHead

namespace OrderUpdateHead

def ofJson (json : Json) : Option OrderUpdateHead := do
  let members ← record? ["user", "height"] json
  let user ← text? members "user"
  let height ← u64Of? members "height"
  some { user, height }

end OrderUpdateHead

namespace CoinOnly

def ofJson (json : Json) : Option CoinOnly := do
  let members ← record? ["coin"] json
  let coin ← text? members "coin"
  some { coin }

end CoinOnly

namespace L2DiffHead

def names : List String :=
  ["coin", "height", "n_sig_figs", "n_levels", "mantissa"].map CamelCase.field

def ofJson (json : Json) : Option L2DiffHead := do
  let members ← record? names json
  let coin ← text? members (CamelCase.field "coin")
  let height ← u64Of? members (CamelCase.field "height")
  let nSigFigs ← SubKey.u32? members (CamelCase.field "n_sig_figs")
  let nLevels ← SubKey.u64? members (CamelCase.field "n_levels")
  let mantissa ← SubKey.u64? members (CamelCase.field "mantissa")
  some { coin, height, nSigFigs, nLevels, mantissa }

end L2DiffHead

namespace L2DiffFrame

def ofJson (json : Json) : Option L2DiffFrame := do
  let (name, content) ← variant? json
  if name = "Snapshot" then (L2DiffHead.ofJson content).map snapshot
  else if name = "Updates" then (L2DiffHead.ofJson content).map updates
  else none

end L2DiffFrame

namespace StatusHead

def ofJson (json : Json) : Option StatusHead := do
  let members ← record? ["order"] json
  match field? members "order" with
  | some (some value) => (CoinOnly.ofJson value).map mk
  | _ => none

end StatusHead

namespace L4Updates

def ofJson (json : Json) : Option L4Updates := do
  let members ← record? ["height", "order_statuses", "book_diffs"] json
  let height ← u64Of? members "height"
  let orderStatuses ← list? StatusHead.ofJson members "order_statuses"
  let bookDiffs ← list? CoinOnly.ofJson members "book_diffs"
  some { height, orderStatuses, bookDiffs }

end L4Updates

namespace L4Frame

def ofSnapshot (json : Json) : Option L4Frame := do
  let members ← record? ["coin", "height"] json
  let coin ← text? members "coin"
  let height ← u64Of? members "height"
  some (snapshot coin height)

def ofJson (json : Json) : Option L4Frame := do
  let (name, content) ← variant? json
  if name = "Snapshot" then ofSnapshot content
  else if name = "Updates" then (L4Updates.ofJson content).map updates
  else none

end L4Frame

namespace Frame

def list {α : Type} (read : Json → Option α) : Json → Option (List α)
  | .arr items => items.mapM read
  | _ => none

def text : Json → Option String
  | .str value => some value
  | _ => none

/-- Read the data of the variant a channel names. -/
def readVariant (channel : String) (data : Json) : Option Frame :=
  if channel = CamelCase.variant "Bbo" then (CoinTime.ofJson data).map bbo
  else if channel = CamelCase.variant "L2Book" then (L2Head.ofJson data).map l2Book
  else if channel = CamelCase.variant "Trades" then (list TradeHead.ofJson data).map trades
  else if channel = CamelCase.variant "OrderUpdates" then
    (list OrderUpdateHead.ofJson data).map orderUpdates
  else if channel = CamelCase.variant "L4Book" then (L4Frame.ofJson data).map l4Book
  else if channel = CamelCase.variant "L2Diff" then (L2DiffFrame.ofJson data).map l2Diff
  else if channel = CamelCase.variant "Error" then (text data).map error
  else none

def ofJson (json : Json) : Option Frame := do
  let members ← record? ["channel", "data"] json
  let channel ← text? members "channel"
  match field? members "data" with
  | some (some data) => readVariant channel data
  | _ => none

def read (text : String) : Option Frame := (parse openContainers text).bind ofJson

end Frame

end Wsarb
