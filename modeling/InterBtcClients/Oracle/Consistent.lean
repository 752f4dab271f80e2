import InterBtcClients.Oracle.Currency
import Mathlib.Data.List.Basic

/-! Pairs whose prices are the ratios of the values of their currencies: they stay so when they are
joined, for any type of currencies. -/

namespace InterBtcClients.Oracle

open Library

variable {C : Type} [BEq C]

/-- Values of currencies.  Those that are equal have the same one. -/
structure Values (C : Type) [BEq C] where
  value : Valuation C
  value_eq : ∀ {a b : C}, (a == b) = true → value a = value b

namespace CurrencyPairAndPrice

variable {values : Values C} {p other : CurrencyPairAndPrice C}

def Consistent (values : Values C) (p : CurrencyPairAndPrice C) : Prop :=
  p.price = values.value p.pair.base / values.value p.pair.quote

/-- A consistent pair of currencies that meet `P`. -/
structure Among (values : Values C) (P : C → Prop) (p : CurrencyPairAndPrice C) : Prop where
  base : P p.pair.base
  quote : P p.pair.quote
  consistent : p.Consistent values

/-- Every pair of the list shares a currency with what those before it have been reduced to. -/
def Connected (p : CurrencyPairAndPrice C) : List (CurrencyPairAndPrice C) → Prop
  | [] => True
  | next :: rest => p.pair.hasShared next.pair = true ∧ (p.reduce next).Connected rest

def currencies (pairs : List (CurrencyPairAndPrice C)) : List C :=
  pairs.flatMap fun p => [p.pair.base, p.pair.quote]

theorem value_ne (values : Values C) (currency : C) : (values.value currency : ℚ) ≠ 0 :=
  (values.value currency).2.ne'

theorem coe_value_eq {a b : C} (h : (a == b) = true) :
    (values.value a : ℚ) = values.value b :=
  congrArg Subtype.val (values.value_eq h)

theorem Consistent.invert (h : p.Consistent values) : p.invert.Consistent values := by
  have hbase := value_ne values p.pair.base
  have hquote := value_ne values p.pair.quote
  simp only [Consistent, CurrencyPairAndPrice.invert, CurrencyPair.invert]
  rw [h]
  field_simp

omit [BEq C] in
theorem invert_invert (p : CurrencyPairAndPrice C) : p.invert.invert = p := by
  obtain ⟨⟨base, quote⟩, price⟩ := p
  simp [CurrencyPairAndPrice.invert, CurrencyPair.invert]

variable (values) in
/-- The two pairs are turned so that the first one ends where the second one begins. -/
theorem exists_joined (h : p.pair.hasShared other.pair = true) :
    ∃ left right, (left = p ∨ left = p.invert) ∧ (right = other ∨ right = other.invert) ∧
      (values.value left.pair.quote : ℚ) = values.value right.pair.base ∧
      p.reduce other = ⟨⟨left.pair.base, right.pair.quote⟩, left.price * right.price⟩ := by
  unfold reduce
  by_cases hquotes : (p.pair.quote == other.pair.quote) = true
  · rw [if_pos hquotes]
    exact ⟨p, other.invert, .inl rfl, .inr rfl, coe_value_eq hquotes, rfl⟩
  rw [if_neg hquotes]
  by_cases hbases : (p.pair.base == other.pair.base) = true
  · rw [if_pos hbases]
    exact ⟨p.invert, other, .inr rfl, .inl rfl, coe_value_eq hbases, rfl⟩
  rw [if_neg hbases]
  by_cases hends : (p.pair.base == other.pair.quote) = true
  · rw [if_pos hends]
    exact ⟨p.invert, other.invert, .inr rfl, .inr rfl, coe_value_eq hends, rfl⟩
  -- only the quote of the first pair and the base of the second one are left
  have hjoined : (p.pair.quote == other.pair.base) = true := by
    simpa [CurrencyPair.hasShared, CurrencyPair.contains, hquotes, hbases, hends] using h
  rw [if_neg hends]
  exact ⟨p, other, .inl rfl, .inl rfl, coe_value_eq hjoined, rfl⟩

theorem Among.invert {P : C → Prop} (h : p.Among values P) : p.invert.Among values P :=
  ⟨h.quote, h.base, h.consistent.invert⟩

/-- One step of the fold. -/
theorem Among.reduce {P : C → Prop} (h : p.Among values P) (hother : other.Among values P)
    (hshared : p.pair.hasShared other.pair = true) : (p.reduce other).Among values P := by
  obtain ⟨left, right, hleft, hright, hjoined, heq⟩ := exists_joined values hshared
  have hleft : left.Among values P := by
    rcases hleft with rfl | rfl
    · exact h
    · exact h.invert
  have hright : right.Among values P := by
    rcases hright with rfl | rfl
    · exact hother
    · exact hother.invert
  rw [heq]
  refine ⟨hleft.base, hright.quote, ?_⟩
  have hmid := value_ne values right.pair.base
  have hquote := value_ne values right.pair.quote
  simp only [Consistent]
  rw [hleft.consistent, hright.consistent, hjoined]
  field_simp

theorem Among.foldl {P : C → Prop} (pairs : List (CurrencyPairAndPrice C))
    (h : p.Among values P) (hpairs : ∀ other ∈ pairs, other.Among values P)
    (hconnected : p.Connected pairs) :
    (pairs.foldl CurrencyPairAndPrice.reduce p).Among values P := by
  induction pairs generalizing p with
  | nil => exact h
  | cons next rest ih =>
    obtain ⟨hshared, hrest⟩ := hconnected
    obtain ⟨hnext, hpairs⟩ := List.forall_mem_cons.mp hpairs
    exact ih (h.reduce hnext hshared) hpairs hrest

theorem hasShared_invert [EquivBEq C] (pair : CurrencyPair C) :
    pair.hasShared pair.invert = true := by
  simp [CurrencyPair.hasShared, CurrencyPair.contains, CurrencyPair.invert]

/-- The ends are the same currency, whichever way the pairs are turned. -/
theorem ends_reduce_invert [EquivBEq C] (p : CurrencyPairAndPrice C) :
    ((p.reduce p.invert).pair.base == (p.reduce p.invert).pair.quote) = true := by
  unfold CurrencyPairAndPrice.reduce
  by_cases hquotes : (p.pair.quote == p.invert.pair.quote) = true
  · rw [if_pos hquotes]
    exact BEq.symm hquotes
  rw [if_neg hquotes]
  by_cases hbases : (p.pair.base == p.invert.pair.base) = true
  · rw [if_pos hbases]
    exact BEq.symm hbases
  have hends : (p.pair.base == p.invert.pair.quote) = true := BEq.rfl
  rw [if_neg hbases, if_pos hends]
  exact BEq.rfl

theorem price_of_ends (h : p.Consistent values)
    (hends : (p.pair.base == p.pair.quote) = true) : p.price = 1 := by
  rw [h, coe_value_eq hends, div_self (value_ne values p.pair.quote)]

theorem reduce_invert [EquivBEq C] (h : p.Consistent values) :
    ((p.reduce p.invert).pair.base == (p.reduce p.invert).pair.quote) = true ∧
      (p.reduce p.invert).price = 1 := by
  have hamong : p.Among values fun _ => True := ⟨trivial, trivial, h⟩
  have hends := ends_reduce_invert p
  exact ⟨hends, price_of_ends (hamong.reduce hamong.invert (hasShared_invert p.pair)).consistent
    hends⟩

/-- Consistent pairs that are connected are reduced to a consistent pair of two of their currencies,
and a pair and its inverse, in either order, to the price 1. -/
theorem reduce_consistent [EquivBEq C] (values : Values C) (p : CurrencyPairAndPrice C) :
    (∀ pairs, (∀ x ∈ p :: pairs, x.Consistent values) → p.Connected pairs →
      (pairs.foldl CurrencyPairAndPrice.reduce p).pair.base ∈ currencies (p :: pairs) ∧
      (pairs.foldl CurrencyPairAndPrice.reduce p).pair.quote ∈ currencies (p :: pairs) ∧
      (pairs.foldl CurrencyPairAndPrice.reduce p).Consistent values) ∧
    (p.Consistent values →
      (((p.reduce p.invert).pair.base == (p.reduce p.invert).pair.quote) = true ∧
        (p.reduce p.invert).price = 1) ∧
      (((p.invert.reduce p).pair.base == (p.invert.reduce p).pair.quote) = true ∧
        (p.invert.reduce p).price = 1)) := by
  constructor
  · intro pairs hconsistent hconnected
    have hamong : ∀ x ∈ p :: pairs, x.Among values (· ∈ currencies (p :: pairs)) := by
      intro x hx
      refine ⟨List.mem_flatMap.mpr ⟨x, hx, ?_⟩, List.mem_flatMap.mpr ⟨x, hx, ?_⟩, hconsistent x hx⟩
      · exact List.mem_cons_self
      · exact List.mem_cons_of_mem _ List.mem_cons_self
    obtain ⟨hp, hpairs⟩ := List.forall_mem_cons.mp hamong
    have hreduced := hp.foldl pairs hpairs hconnected
    exact ⟨hreduced.base, hreduced.quote, hreduced.consistent⟩
  · intro h
    have hinverse := reduce_invert h.invert
    rw [invert_invert] at hinverse
    exact ⟨reduce_invert h, hinverse⟩

end CurrencyPairAndPrice

/-! ### The currencies of the oracle -/

instance : EquivBEq Currency where
  rfl := Currency.beq_iff.mpr rfl
  symm h := Currency.beq_iff.mpr (Currency.beq_iff.mp h).symm
  trans h h' := Currency.beq_iff.mpr ((Currency.beq_iff.mp h).trans (Currency.beq_iff.mp h'))

/-- Values of symbols are values of currencies, whose paths do not matter. -/
def Values.ofSymbols (v : Valuation String) : Values Currency where
  value currency := v currency.getSymbol
  value_eq h := congrArg v (Currency.beq_iff.mp h)

theorem consistent_quoted (v : Valuation String) (pair : CurrencyPair Currency) :
    (pair.quoted v).Consistent (.ofSymbols v) := rfl

def btcUsd : CurrencyPairAndPrice Currency :=
  CurrencyPair.quoted (Valuation.two "USD") ⟨.symbol "BTC", .symbol "USD"⟩

/-- Quotes of which the first is turned around and has a path. -/
def dotKsm : List (CurrencyPairAndPrice Currency) :=
  [⟨.symbol "DOT", .path "USD" "usd-coin"⟩, ⟨.symbol "BTC", .symbol "KSM"⟩].map
    (CurrencyPair.quoted (Valuation.two "USD"))

theorem reduce_consistent_btcUsd :
    (dotKsm.foldl CurrencyPairAndPrice.reduce btcUsd).Consistent
        (.ofSymbols (Valuation.two "USD")) ∧
      (btcUsd.reduce btcUsd.invert).price = 1 := by
  have hdotKsm : ∀ p ∈ dotKsm, p.Consistent (.ofSymbols (Valuation.two "USD")) :=
    List.forall_mem_map.mpr fun pair _ => consistent_quoted _ pair
  have hconnected : btcUsd.Connected dotKsm := ⟨by decide, by decide, trivial⟩
  have hreduce := CurrencyPairAndPrice.reduce_consistent (.ofSymbols (Valuation.two "USD")) btcUsd
  exact ⟨(hreduce.1 dotKsm (List.forall_mem_cons.mpr ⟨rfl, hdotKsm⟩) hconnected).2.2,
    (hreduce.2 rfl).1.2⟩

end InterBtcClients.Oracle
