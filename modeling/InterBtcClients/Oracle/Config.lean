import InterBtcClients.Oracle.Currency

/-! The configuration of a price: the pair and, for every feed, the pairs from which the feed's
price is put together. -/

namespace InterBtcClients.Oracle

inductive FeedName
  | kraken | gateIo | coinGecko | dia | diaFairPrice
  deriving DecidableEq, Repr

inductive ConfigError (C : Type)
  | noStart
  | noEnd
  | noPath (left right : CurrencyPair C)

structure PriceConfigError (C : Type) where
  feed : FeedName
  pair : CurrencyPair C
  error : ConfigError C

/-- `feeds` lists the entries of the source's ordered map. -/
structure PriceConfig (C : Type) where
  pair : CurrencyPair C
  value : Option ℚ
  feeds : List (FeedName × List (CurrencyPair C))

namespace PriceConfig

variable {C : Type} [BEq C]

/-- The currency at which the path has to end, when it starts at one of the configured two. -/
def pathEnd (pair : CurrencyPair C) (path : List (CurrencyPair C)) :
    Except (ConfigError C) C :=
  match path.head? with
  | some first =>
    if first.contains pair.base then .ok pair.quote
    else if first.contains pair.quote then .ok pair.base
    else .error .noStart
  | none => .error .noStart

/-- The neighbours in the path, from left to right. -/
def checkNeighbours : List (CurrencyPair C) → Except (ConfigError C) Unit
  | left :: right :: path =>
    if left.hasShared right then checkNeighbours (right :: path) else .error (.noPath left right)
  | _ => .ok ()

def validatePath (pair : CurrencyPair C) (path : List (CurrencyPair C)) :
    Except (ConfigError C) Unit := do
  let pathEnd ← pathEnd pair path
  match path.getLast? with
  | some last => if last.contains pathEnd then pure () else .error .noEnd
  | none => .error .noEnd
  checkNeighbours path

def validate (config : PriceConfig C) : Except (PriceConfigError C) Unit :=
  config.feeds.forM fun (name, path) =>
    (validatePath config.pair path).mapError fun error => ⟨name, config.pair, error⟩

end PriceConfig

end InterBtcClients.Oracle
