import InterBtcClients.Library.Valuation

/-! Currencies, pairs of them and prices, which are exact rationals here where the source has
floats. -/

namespace InterBtcClients.Oracle

open Library

inductive Currency
  | symbol (s : String)
  | path (s path : String)
  deriving Repr

def Currency.getSymbol : Currency → String
  | .symbol s => s
  | .path s _ => s

/-- Only the symbols are compared, the paths may differ. -/
instance : BEq Currency := ⟨fun a b => a.getSymbol == b.getSymbol⟩

@[simp] theorem Currency.beq_iff {a b : Currency} : (a == b) = true ↔ a.getSymbol = b.getSymbol :=
  beq_iff_eq (a := a.getSymbol)

structure CurrencyPair (C : Type) where
  base : C
  quote : C
  deriving Repr

namespace CurrencyPair

variable {C : Type} [BEq C]

def contains (pair : CurrencyPair C) (currency : C) : Bool :=
  pair.base == currency || pair.quote == currency

def hasShared (pair other : CurrencyPair C) : Bool :=
  pair.contains other.base || pair.contains other.quote

omit [BEq C] in
def invert (pair : CurrencyPair C) : CurrencyPair C := ⟨pair.quote, pair.base⟩

/-- The source derives equality from that of the currencies. -/
instance : BEq (CurrencyPair C) := ⟨fun a b => a.base == b.base && a.quote == b.quote⟩

end CurrencyPair

structure CurrencyPairAndPrice (C : Type) where
  pair : CurrencyPair C
  /-- How much of the quote currency buys one unit of the base currency. -/
  price : ℚ

namespace CurrencyPairAndPrice

variable {C : Type} [BEq C]

omit [BEq C] in
def invert (p : CurrencyPairAndPrice C) : CurrencyPairAndPrice C := ⟨p.pair.invert, 1 / p.price⟩

/-- Combines two currency pairs with a common element. -/
def reduce (p other : CurrencyPairAndPrice C) : CurrencyPairAndPrice C :=
  let (left, right) :=
    if p.pair.quote == other.pair.quote then (p, other.invert)
    else if p.pair.base == other.pair.base then (p.invert, other)
    else if p.pair.base == other.pair.quote then (p.invert, other.invert)
    else (p, other)
  ⟨⟨left.pair.base, right.pair.quote⟩, left.price * right.price⟩

end CurrencyPairAndPrice

/-- The value of a currency is that of its symbol. -/
def Currency.value (v : Valuation String) (currency : Currency) : ℚ := v currency.getSymbol

/-- The price of a pair when currencies have the values `v`. -/
def CurrencyPair.quoted (v : Valuation String) (pair : CurrencyPair Currency) :
    CurrencyPairAndPrice Currency :=
  ⟨pair, pair.base.value v / pair.quote.value v⟩

/-! ### Routes -/

/-- The part of a route that has been joined: the two currencies that are left open, and for every
pair that was added without a currency in common with these, the currency at which the route was
left and the one at which it was entered again. -/
structure Route where
  ends : CurrencyPair Currency
  left : List String
  entered : List String

namespace Route

def start (pair : CurrencyPair Currency) : Route := ⟨pair, [], []⟩

/-- The route seen from its other end. -/
def reverse (route : Route) : Route := ⟨route.ends.invert, route.entered, route.left⟩

/-- The next pair is joined at the currency that it has in common with the open ends. -/
def join (route : Route) (pair : CurrencyPair Currency) : Route :=
  if route.ends.quote == pair.quote then { route with ends := ⟨route.ends.base, pair.base⟩ }
  else if route.ends.base == pair.base then
    { route.reverse with ends := ⟨route.ends.quote, pair.quote⟩ }
  else if route.ends.base == pair.quote then
    { route.reverse with ends := ⟨route.ends.quote, pair.base⟩ }
  else if route.ends.quote == pair.base then { route with ends := ⟨route.ends.base, pair.quote⟩ }
  else
    { ends := ⟨route.ends.base, pair.quote⟩
      left := route.ends.quote.getSymbol :: route.left
      entered := pair.base.getSymbol :: route.entered }

/-- The price of the open ends, times what the missing links contribute. -/
def price (v : Valuation String) (route : Route) : ℚ :=
  route.ends.base.value v / route.ends.quote.value v *
    (v.product route.entered / v.product route.left)

/-- `p` is what folding the pairs of `route` computes. -/
def Prices (v : Valuation String) (route : Route) (p : CurrencyPairAndPrice Currency) : Prop :=
  p.pair = route.ends ∧ p.price = route.price v

variable {v : Valuation String} {route : Route}

theorem value_pos (currency : Currency) : 0 < currency.value v := (v currency.getSymbol).2

theorem prices_start (pair : CurrencyPair Currency) : (start pair).Prices v (pair.quoted v) := by
  refine ⟨rfl, ?_⟩
  simp [price, start, CurrencyPair.quoted]

theorem price_reverse : route.reverse.price v = 1 / route.price v := by
  have hbase := value_pos (v := v) route.ends.base
  have hquote := value_pos (v := v) route.ends.quote
  have hleft := v.product_pos route.left
  have hentered := v.product_pos route.entered
  simp only [price, reverse, CurrencyPair.invert]
  field_simp

theorem coe_getSymbol (currency : Currency) :
    (v currency.getSymbol : ℚ) = currency.value v := rfl

theorem value_eq_of_beq {a b : Currency} (h : (a == b) = true) : a.value v = b.value v := by
  rw [Currency.value, Currency.value, Currency.beq_iff.mp h]

theorem Prices.invert {p : CurrencyPairAndPrice Currency} (h : route.Prices v p) :
    route.reverse.Prices v p.invert := by
  obtain ⟨hpair, hprice⟩ := h
  refine ⟨congrArg CurrencyPair.invert hpair, ?_⟩
  rw [price_reverse, ← hprice]
  rfl

/-- The price of `a` in `b` is joined to a route that ends in a currency with the value of `a`. -/
theorem Prices.link {p : CurrencyPairAndPrice Currency} (h : route.Prices v p) {a b : Currency}
    (hends : route.ends.quote.value v = a.value v) :
    Prices v { route with ends := ⟨route.ends.base, b⟩ }
      ⟨⟨p.pair.base, b⟩, p.price * (a.value v / b.value v)⟩ := by
  obtain ⟨hpair, hprice⟩ := h
  have ha := (value_pos (v := v) a).ne'
  refine ⟨by rw [hpair], ?_⟩
  simp only [hprice, price, hends]
  field_simp

/-- The price of `a` in `b` is joined to a route that is left at its end and entered at `a`. -/
theorem Prices.jump {p : CurrencyPairAndPrice Currency} (h : route.Prices v p) {a b : Currency} :
    Prices v ⟨⟨route.ends.base, b⟩, route.ends.quote.getSymbol :: route.left,
        a.getSymbol :: route.entered⟩
      ⟨⟨p.pair.base, b⟩, p.price * (a.value v / b.value v)⟩ := by
  obtain ⟨hpair, hprice⟩ := h
  have hquote := (value_pos (v := v) route.ends.quote).ne'
  have ha := (value_pos (v := v) a).ne'
  refine ⟨by rw [hpair], ?_⟩
  simp only [hprice, price, Valuation.product_cons, coe_getSymbol]
  field_simp

/-- One step of the fold. -/
theorem prices_join {p : CurrencyPairAndPrice Currency} (h : route.Prices v p)
    (pair : CurrencyPair Currency) : (route.join pair).Prices v (p.reduce (pair.quoted v)) := by
  have hinvert : (pair.quoted v).invert.price = pair.quote.value v / pair.base.value v :=
    one_div_div _ _
  have hpair : (pair.quoted v).pair = pair := rfl
  unfold CurrencyPairAndPrice.reduce join
  rw [h.1, hpair]
  by_cases hquotes : (route.ends.quote == pair.quote) = true
  · rw [if_pos hquotes, if_pos hquotes]
    have hlink := h.link (b := pair.base) (value_eq_of_beq hquotes)
    rwa [← hinvert] at hlink
  rw [if_neg hquotes, if_neg hquotes]
  by_cases hbases : (route.ends.base == pair.base) = true
  · rw [if_pos hbases, if_pos hbases]
    exact h.invert.link (b := pair.quote) (value_eq_of_beq hbases)
  rw [if_neg hbases, if_neg hbases]
  by_cases hends : (route.ends.base == pair.quote) = true
  · rw [if_pos hends, if_pos hends]
    have hlink := h.invert.link (b := pair.base) (value_eq_of_beq hends)
    rwa [← hinvert] at hlink
  rw [if_neg hends, if_neg hends]
  by_cases hjoined : (route.ends.quote == pair.base) = true
  · rw [if_pos hjoined]
    exact h.link (b := pair.quote) (value_eq_of_beq hjoined)
  rw [if_neg hjoined]
  exact h.jump

/-- The fold of a whole route. -/
theorem prices_foldl {p : CurrencyPairAndPrice Currency} (h : route.Prices v p)
    (pairs : List (CurrencyPair Currency)) :
    (pairs.foldl join route).Prices v
      ((pairs.map (CurrencyPair.quoted v)).foldl CurrencyPairAndPrice.reduce p) := by
  induction pairs generalizing route p with
  | nil => exact h
  | cons pair pairs ih => exact ih (prices_join h pair)

end Route

end InterBtcClients.Oracle
