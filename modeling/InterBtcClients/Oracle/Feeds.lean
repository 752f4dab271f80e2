import InterBtcClients.Oracle.Config
import Mathlib.Data.List.ReduceOption

/-! The prices that the oracle computes from its feeds: a feed is asked for the pairs of the
configured path, and their prices are reduced to one. -/

namespace InterBtcClients.Oracle

open Library

section Program

variable {C E : Type} [BEq C]

inductive Error (E : Type)
  | notConfigured (name : FeedName)
  /-- What asking a feed ends with. -/
  | feed (e : E)

abbrev PriceFeed (C E : Type) := CurrencyPair C → Except E (CurrencyPairAndPrice C)

/-- The price along one path: `none` for an empty one. -/
def pathPrice (currencyPair : CurrencyPair C) (feed : PriceFeed C E)
    (route : List (CurrencyPair C)) : Except (Error E) (Option (CurrencyPairAndPrice C)) := do
  let prices ← (route.mapM feed).mapError .feed
  match prices with
  | [] => return none
  | price :: prices =>
    let currencyPairAndPrice := prices.foldl CurrencyPairAndPrice.reduce price
    return some (if currencyPairAndPrice.pair.base != currencyPair.base
      then currencyPairAndPrice.invert else currencyPairAndPrice)

def getPrices (feeds : FeedName → Option (PriceFeed C E)) (config : PriceConfig C) :
    Except (Error E) (List (CurrencyPairAndPrice C)) := do
  let routes ← config.feeds.mapM fun (name, route) =>
    match feeds name with
    | some feed => .ok (route, feed)
    | none => .error (.notConfigured name)
  let prices ← routes.mapM fun (route, feed) => pathPrice config.pair feed route
  return prices.reduceOption

end Program

/-! ### Prices of the configured pair -/

/-- A feed that quotes every pair at the values `v`. -/
def quotingFeed (v : Valuation String) : PriceFeed Currency Empty := fun pair => .ok (pair.quoted v)

namespace PriceConfig

/-- Along every path of the configuration, whatever the values of the currencies are, the price that
is computed from feeds with these values is that of the configured pair. -/
def Accurate (config : PriceConfig Currency) : Prop :=
  ∀ feed ∈ config.feeds, ∀ v : Valuation String, ∃ p,
    pathPrice config.pair (quotingFeed v) feed.2 = .ok (some p) ∧
      (p.pair == config.pair) = true ∧
      p.price = config.pair.base.value v / config.pair.quote.value v

/-- The pairs of `path`, joined one after the other at a currency that each has in common with the
two ends left open by those before it, leave the two currencies of `pair` open.  A pair without such
a currency is continued from its base: there the currencies at which the path is left and those at
which it is entered again have to be the same, up to order. -/
def Joins (pair : CurrencyPair Currency) : List (CurrencyPair Currency) → Prop
  | [] => False
  | first :: path =>
    let route := path.foldl Route.join (.start first)
    ((route.ends == pair) = true ∨ (route.ends.invert == pair) = true) ∧
      route.entered.Perm route.left

/-- The joined part of `path`, in the direction of `pair` when it can be. -/
def oriented (pair first : CurrencyPair Currency) (path : List (CurrencyPair Currency)) : Route :=
  let route := path.foldl Route.join (.start first)
  if route.ends.base != pair.base then route.reverse else route

theorem pathPrice_quotingFeed (pair first : CurrencyPair Currency)
    (path : List (CurrencyPair Currency)) (v : Valuation String) :
    ∃ p, pathPrice pair (quotingFeed v) (first :: path) = .ok (some p) ∧
      (oriented pair first path).Prices v p := by
  have hquotes : (first :: path).mapM (quotingFeed v) =
      .ok ((first :: path).map (CurrencyPair.quoted v)) := List.mapM_pure
  have hprices := Route.prices_foldl (Route.prices_start (v := v) first) path
  rw [pathPrice, hquotes]
  refine ⟨_, rfl, ?_⟩
  rw [oriented, ← hprices.1]
  split
  · exact hprices.invert
  · exact hprices

end PriceConfig

theorem CurrencyPair.beq_iff {a b : CurrencyPair Currency} :
    (a == b) = true ↔
      a.base.getSymbol = b.base.getSymbol ∧ a.quote.getSymbol = b.quote.getSymbol := by
  rw [← Currency.beq_iff, ← Currency.beq_iff, ← Bool.and_eq_true]
  rfl

/-- A route between the currencies of a pair has its price under all values exactly when it is left
where it is entered. -/
theorem Route.price_eq_iff {route : Route} {pair : CurrencyPair Currency}
    (hends : (route.ends == pair) = true) :
    (∀ v, route.price v = pair.base.value v / pair.quote.value v) ↔
      route.entered.Perm route.left := by
  obtain ⟨hbase, hquote⟩ := CurrencyPair.beq_iff.mp hends
  rw [← Valuation.product_eq_iff_perm]
  refine forall_congr' fun v => ?_
  have hbase' := (value_pos (v := v) pair.base).ne'
  have hquote' := (value_pos (v := v) pair.quote).ne'
  have hleft := (v.product_pos route.left).ne'
  simp only [price, Currency.value, hbase, hquote] at hbase' hquote' ⊢
  rw [mul_eq_left₀ (div_ne_zero hbase' hquote'), div_eq_one_iff_eq hleft]

namespace PriceConfig

theorem joins_iff_oriented (pair first : CurrencyPair Currency)
    (path : List (CurrencyPair Currency)) :
    Joins pair (first :: path) ↔
      ((oriented pair first path).ends == pair) = true ∧
        (oriented pair first path).entered.Perm (oriented pair first path).left := by
  simp only [Joins, oriented]
  generalize path.foldl Route.join (.start first) = route
  by_cases hbase : (route.ends.base == pair.base) = true
  · have hsame := Currency.beq_iff.mp hbase
    simp only [bne, hbase, Bool.not_true, Bool.false_eq_true, if_false, CurrencyPair.beq_iff,
      CurrencyPair.invert, and_congr_left_iff]
    refine fun _ => ⟨?_, .inl⟩
    rintro (hends | ⟨hquote, hcross⟩)
    · exact hends
    · exact ⟨hsame, by rw [hquote, ← hsame, hcross]⟩
  · have hother : route.ends.base.getSymbol ≠ pair.base.getSymbol :=
      fun h => hbase (Currency.beq_iff.mpr h)
    simp [bne, hbase, CurrencyPair.beq_iff, Route.reverse, CurrencyPair.invert, hother,
      List.perm_comm]

/-- The prices of a configuration are those of its pair exactly when its paths join the pair. -/
theorem accurate_iff_joins (config : PriceConfig Currency) :
    config.Accurate ↔ ∀ feed ∈ config.feeds, Joins config.pair feed.2 := by
  refine forall₂_congr fun feed _ => ?_
  cases feed.2 with
  | nil =>
    refine ⟨fun h => ?_, nofun⟩
    obtain ⟨p, hp, -⟩ := h fun _ => ⟨1, one_pos⟩
    cases hp
  | cons first path =>
    rw [joins_iff_oriented]
    constructor
    · intro h
      have hends : ((oriented config.pair first path).ends == config.pair) = true := by
        obtain ⟨p, hp, hpair, -⟩ := h fun _ => ⟨1, one_pos⟩
        obtain ⟨q, hq, hprices⟩ := pathPrice_quotingFeed config.pair first path fun _ =>
          ⟨1, one_pos⟩
        cases hp.symm.trans hq
        rwa [← hprices.1]
      refine ⟨hends, (Route.price_eq_iff hends).mp fun v => ?_⟩
      obtain ⟨p, hp, -, hprice⟩ := h v
      obtain ⟨q, hq, hprices⟩ := pathPrice_quotingFeed config.pair first path v
      cases hp.symm.trans hq
      rw [← hprices.2, hprice]
    · rintro ⟨hends, hperm⟩ v
      obtain ⟨p, hp, hprices⟩ := pathPrice_quotingFeed config.pair first path v
      exact ⟨p, hp, by rwa [hprices.1], by rw [hprices.2, (Route.price_eq_iff hends).mpr hperm]⟩

theorem mapM_eq_ok {A B : Type} {f : A → Except (Error Empty) B} {P : B → Prop} {l : List A}
    (h : ∀ a ∈ l, ∃ b, f a = .ok b ∧ P b) : ∃ bs, l.mapM f = .ok bs ∧ ∀ b ∈ bs, P b := by
  induction l with
  | nil => exact ⟨[], rfl, nofun⟩
  | cons a l ih =>
    obtain ⟨b, hb, hP⟩ := h a List.mem_cons_self
    obtain ⟨bs, hbs, hPs⟩ := ih fun a ha => h a (List.mem_cons_of_mem _ ha)
    exact ⟨b :: bs, by rw [List.mapM_cons, hb, hbs]; rfl, List.forall_mem_cons.mpr ⟨hP, hPs⟩⟩

/-- What an accurate configuration gives for all of its feeds together. -/
theorem getPrices_of_accurate {config : PriceConfig Currency} (h : config.Accurate)
    (v : Valuation String) :
    ∃ prices, getPrices (fun _ => some (quotingFeed v)) config = .ok prices ∧
      ∀ p ∈ prices, (p.pair == config.pair) = true ∧
        p.price = config.pair.base.value v / config.pair.quote.value v := by
  have hroutes : config.feeds.mapM (fun (_, route) =>
      (.ok (route, quotingFeed v) : Except (Error Empty) _)) =
      .ok (config.feeds.map fun feed => (feed.2, quotingFeed v)) := List.mapM_pure
  obtain ⟨prices, hprices, haccurate⟩ := mapM_eq_ok
    (l := config.feeds.map fun feed => (feed.2, quotingFeed v))
    (f := fun (route, feed) => pathPrice config.pair feed route)
    (P := fun r => ∀ p, r = some p → (p.pair == config.pair) = true ∧
      p.price = config.pair.base.value v / config.pair.quote.value v) fun route hroute => by
    obtain ⟨feed, hfeed, rfl⟩ := List.mem_map.mp hroute
    obtain ⟨p, hp, hpair⟩ := h feed hfeed v
    exact ⟨some p, hp, fun q hq => Option.some.inj hq ▸ hpair⟩
  refine ⟨prices.reduceOption, ?_, fun p hp => haccurate _ (List.reduceOption_mem_iff.mp hp) p rfl⟩
  rw [getPrices, hroutes]
  exact congrArg (fun r => r >>= fun prices => .ok prices.reduceOption) hprices

/-- A configuration that is accepted: its last two pairs share a currency, but the first two,
joined, have none in common with the third. -/
def forkedConfig : PriceConfig Currency where
  pair := ⟨.symbol "BTC", .symbol "KSM"⟩
  value := none
  feeds := [(.kraken, [⟨.symbol "BTC", .symbol "USD"⟩, ⟨.symbol "USD", .symbol "DOT"⟩,
    ⟨.symbol "USD", .symbol "KSM"⟩])]

/-- The price that it gets is off by the factor USD/DOT. -/
theorem not_accurate_of_validate :
    forkedConfig.validate.isOk = true ∧ ¬forkedConfig.Accurate := by
  refine ⟨by decide, fun h => ?_⟩
  obtain ⟨p, hp, -, hprice⟩ := h _ List.mem_cons_self (Valuation.two "DOT")
  cases hp
  revert hprice
  decide +kernel

end PriceConfig

end InterBtcClients.Oracle
