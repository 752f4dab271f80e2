import InterBtcClients.Library.Loop
import InterBtcClients.Library.Median
import InterBtcClients.Library.Phase
import InterBtcClients.Oracle.Feeds
import InterBtcClients.Runtime.Types

/-! The rounds of the oracle: it asks all feeds at once, and submits the fee and the prices, at once
as well, until each has been accepted or the retries are used up. -/

namespace InterBtcClients.Oracle.Rounds

open Library InterBtcClients.Runtime

/-! ### The program -/

inductive Error (E : Type)
  | notConfigured (name : FeedName)
  | invalidCurrency
  | invalidExchangeRate
  | shutdown
  /-- A retry that has not ended after all rounds. -/
  | retrying
  | external (e : E)

structure CurrencyConfig where
  name : String
  decimals : Nat

abbrev CurrencyStore := String → Option CurrencyConfig

/-- The runtime's fixed-point numbers. -/
structure FixedPoint (R : Type) where
  fromFloat : ℚ → R
  checkedFromRational : Nat → Nat → Option R
  checkedMul : R → R → Option R

/-- What the oracle is run with.  `median` is that of the statistics library, and `bitcoinFeeds` the
number of feeds that have been added for the fee. -/
structure Setup (R : Type) where
  prices : List (PriceConfig Currency)
  currencyStore : CurrencyStore
  configured : FeedName → Bool
  bitcoinFeeds : Nat
  median : List ℚ → ℚ
  fixed : FixedPoint R

/-- The calls of a round. -/
inductive Call (R : Type)
  /-- Which of the programs that are waited for goes on. -/
  | turn
  | getFeeEstimate (feed : Nat)
  | getPrice (name : FeedName) (pair : CurrencyPair Currency)
  | connect
  | setBitcoinFees (fee : R)
  | tryFromSymbol (symbol : String)
  | feedValues (key : CurrencyId) (exchangeRate : R)
  /-- Whether the backoff allows another attempt; it waits before it answers. -/
  | nextBackoff

@[reducible] def roundApi (E R : Type) : Interface where
  Call := Call R
  Answer
    | .turn => Bool
    | .getFeeEstimate _ => Except E ℚ
    | .getPrice _ _ => Except E ℚ
    | .connect => Except E Unit
    | .setBitcoinFees _ => Except E Unit
    | .tryFromSymbol _ => Except E CurrencyId
    | .feedValues _ _ => Except E Unit
    | .nextBackoff => Bool

section Program

variable {E R : Type}

abbrev Rpc (E R : Type) := ExceptT (Error E) (Prog (roundApi E R))

abbrev ask (call : Call R) : Prog (roundApi E R) ((roundApi E R).Answer call) :=
  Prog.request (roundApi E R) call

/-- A call that can fail. -/
def request {A : Type} (p : Prog (roundApi E R) (Except E A)) : Rpc E R A :=
  ExceptT.mk (Except.mapError .external <$> p)

abbrev turn : Prog (roundApi E R) Bool := ask .turn

/-- Each feed answers for the pair it is asked for. -/
def getPrice (name : FeedName) (pair : CurrencyPair Currency) :
    Rpc E R (CurrencyPairAndPrice Currency) := do
  let price ← request (ask (.getPrice name pair))
  return ⟨pair, price⟩

/-- The prices along a path, joined and in the direction of the configured pair. -/
def joinPath (currencyPair : CurrencyPair Currency) :
    List (CurrencyPairAndPrice Currency) → Option (CurrencyPairAndPrice Currency)
  | [] => none
  | price :: prices =>
    let currencyPairAndPrice := prices.foldl CurrencyPairAndPrice.reduce price
    some (if currencyPairAndPrice.pair.base != currencyPair.base
      then currencyPairAndPrice.invert else currencyPairAndPrice)

/-- The price that a feed has for the pair, along its path. -/
def pathPrice (currencyPair : CurrencyPair Currency)
    (feed : FeedName × List (CurrencyPair Currency)) :
    Rpc E R (Option (CurrencyPairAndPrice Currency)) := do
  let prices ← Prog.tryJoinAll turn (feed.2.map (getPrice feed.1))
  return joinPath currencyPair prices

variable (setup : Setup R)

def getPrices (config : PriceConfig Currency) : Rpc E R (List (CurrencyPairAndPrice Currency)) := do
  let feeds ← Prog.ofExcept (config.feeds.mapM fun feed =>
    if setup.configured feed.1 then .ok feed else .error (.notConfigured feed.1))
  let prices ← Prog.tryJoinAll turn (feeds.map (pathPrice config.pair))
  return prices.reduceOption

def getValueOrMedian (config : PriceConfig Currency) :
    Rpc E R (CurrencyPairAndPrice Currency) := do
  match config.value with
  | some value => return ⟨config.pair, value⟩
  | none =>
    let prices ← getPrices setup config
    return ⟨config.pair, setup.median (prices.map fun cup => cup.price)⟩

def maybeGetMedian : Rpc E R (Option ℚ) := do
  if setup.bitcoinFeeds = 0 then return none
  let estimates ← Prog.tryJoinAll turn ((List.range setup.bitcoinFeeds).map fun feed =>
    request (ask (.getFeeEstimate feed)))
  return some (setup.median estimates)

def submitBitcoinFees : Option ℚ → Rpc E R Unit
  | none => return ()
  | some bitcoinFee => request (ask (.setBitcoinFees (setup.fixed.fromFloat bitcoinFee)))

/-- `u128::pow` of a release build, which wraps. -/
def pow10 (decimals : Nat) : Nat := 10 ^ decimals % 2 ^ 128

def exchangeRate (p : CurrencyPairAndPrice Currency) : Except (Error E) R := do
  let quote ← (setup.currencyStore p.pair.quote.getSymbol).elim (.error .invalidCurrency) .ok
  let base ← (setup.currencyStore p.pair.base.getSymbol).elim (.error .invalidCurrency) .ok
  let conversionFactor ← (setup.fixed.checkedFromRational (pow10 quote.decimals)
    (pow10 base.decimals)).elim (.error .invalidExchangeRate) .ok
  (setup.fixed.checkedMul (setup.fixed.fromFloat p.price) conversionFactor).elim
    (.error .invalidExchangeRate) .ok

def submitExchangeRate (p : CurrencyPairAndPrice Currency) : Rpc E R Unit := do
  let currencyId ← request (ask (.tryFromSymbol p.pair.quote.getSymbol))
  let exchangeRate ← Prog.ofExcept (exchangeRate setup p)
  request (ask (.feedValues currencyId exchangeRate))

/-- An attempt at all prices: every one is submitted, whatever happens to the others. -/
def submitExchangeRates (prices : List (CurrencyPairAndPrice Currency)) : Rpc E R Unit := do
  let _ ← Prog.tryJoinAll turn (prices.map (submitExchangeRate setup))
  return ()

/-- One attempt and the wait after it. -/
def retryRound (operation : Rpc E R Unit) (_ : Unit) : Rpc E R (Unit ⊕ Unit) := do
  match ← ExceptT.lift operation.run with
  | .ok () => return .inr ()
  | .error e =>
    if ← ExceptT.lift (ask .nextBackoff) then return .inl ()
    throw e

def retryNotify (fuel : Nat) (operation : Rpc E R Unit) : Rpc E R Unit := do
  match ← Prog.iterate (retryRound operation) fuel () with
  | some () => return ()
  | none => throw .retrying

/-- A round up to its wait. -/
def round (fuel : Nat) : Rpc E R Unit := do
  let feeEstimate ← maybeGetMedian setup
  let prices ← Prog.tryJoinAll turn (setup.prices.map (getValueOrMedian setup))
  request (ask .connect)
  let (left, right) ← ExceptT.lift (Prog.join turn
    (retryNotify fuel (submitBitcoinFees setup feeEstimate)).run
    (retryNotify fuel (submitExchangeRates setup prices)).run)
  if !left.isOk || !right.isOk then throw .shutdown

/-- All calls of the oracle. -/
inductive MainCall (R : Type)
  | round (call : Call R)
  | sleep

@[reducible] def api (E R : Type) : Interface where
  Call := MainCall R
  Answer
    | .round call => (roundApi E R).Answer call
    | .sleep => Unit

/-- The body of the loop, which ends with the first error. -/
def body (fuel : Nat) (_ : Unit) : Prog (api E R) (Unit ⊕ Error E) := do
  match ← (round setup fuel).run.embed MainCall.round fun _ r => r with
  | .ok () =>
    Prog.request (api E R) .sleep
    return .inl ()
  | .error e => return .inr e

end Program

/-! ### What a round is held to -/

section Policy

variable {E R : Type} (setup : Setup R)

def isRound (e : Prog.Event (api E R)) : Bool :=
  match e.call with
  | .round _ => true
  | .sleep => false

/-- The call has been answered so since the last wait. -/
def Answered (log : List (Prog.Event (api E R))) (call : Call R) (r : (roundApi E R).Answer call) :
    Prop :=
  Prog.AnsweredSince isRound log (.round call) r

/-- The feed's answers for the pairs of the path. -/
def Quoted (log : List (Prog.Event (api E R))) (feed : FeedName × List (CurrencyPair Currency))
    (quotes : List (CurrencyPairAndPrice Currency)) : Prop :=
  List.Forall₂ (fun pair quote => ∃ price, quote = ⟨pair, price⟩ ∧
    Answered log (.getPrice feed.1 pair) (.ok price)) feed.2 quotes

/-- The prices of the configured feeds. -/
def FeedPrices (log : List (Prog.Event (api E R))) (config : PriceConfig Currency)
    (prices : List (CurrencyPairAndPrice Currency)) : Prop :=
  ∃ quotes, List.Forall₂ (Quoted log) config.feeds quotes ∧
    prices = (quotes.map (joinPath config.pair)).reduceOption

/-- The price is the configured value, or the median of what all configured feeds have answered. -/
def Priced (log : List (Prog.Event (api E R))) (config : PriceConfig Currency)
    (p : CurrencyPairAndPrice Currency) : Prop :=
  p.pair = config.pair ∧ (∀ value, config.value = some value → p.price = value) ∧
    (config.value = none → ∃ prices, FeedPrices log config prices ∧
      p.price = setup.median (prices.map fun cup => cup.price))

/-- The fee is the median of what all feeds for it have answered. -/
def Estimated (log : List (Prog.Event (api E R))) (estimate : Option ℚ) : Prop :=
  (estimate = none → setup.bitcoinFeeds = 0) ∧ ∀ fee, estimate = some fee →
    ∃ estimates, List.Forall₂ (fun feed e => Answered log (.getFeeEstimate feed) (.ok e))
      (List.range setup.bitcoinFeeds) estimates ∧ fee = setup.median estimates

/-- All feeds have answered. -/
def Read (log : List (Prog.Event (api E R))) : Prop :=
  (∃ estimate, Estimated setup log estimate) ∧
    ∀ config ∈ setup.prices, ∃ p, Priced setup log config p

/-- The price has been accepted, under the currency of its quote. -/
def Accepted (log : List (Prog.Event (api E R))) (p : CurrencyPairAndPrice Currency) : Prop :=
  ∃ key rate, Answered log (.tryFromSymbol p.pair.quote.getSymbol) (.ok key) ∧
    exchangeRate (E := E) setup p = .ok rate ∧ Answered log (.feedValues key rate) (.ok ())

/-- The fee, if there is one, has been accepted. -/
def FeeAccepted (log : List (Prog.Event (api E R))) (estimate : Option ℚ) : Prop :=
  ∀ fee, estimate = some fee →
    Answered log (.setBitcoinFees (setup.fixed.fromFloat fee)) (.ok ())

def Submitted (log : List (Prog.Event (api E R))) : Prop :=
  (∃ estimate, Estimated setup log estimate ∧ FeeAccepted setup log estimate) ∧
  ∀ config ∈ setup.prices, ∃ p, Priced setup log config p ∧ Accepted setup log p

/-- What may be called after the events so far. -/
def policy (log : List (Prog.Event (api E R))) : MainCall R → Prop
  | .round .connect => Read setup log
  | .round (.setBitcoinFees fee) => Read setup log ∧ Answered log .connect (.ok ()) ∧
    ∃ estimate, Estimated setup log (some estimate) ∧ fee = setup.fixed.fromFloat estimate
  | .round (.feedValues key rate) => Read setup log ∧ Answered log .connect (.ok ()) ∧
    ∃ config ∈ setup.prices, ∃ p, Priced setup log config p ∧
      Answered log (.tryFromSymbol p.pair.quote.getSymbol) (.ok key) ∧
      exchangeRate (E := E) setup p = .ok rate
  | .round _ => True
  | .sleep => Submitted setup log

/-- The calls of a round, which ends with its wait. -/
def phase (E R : Type) : Prog.Phase (roundApi E R) (api E R) where
  on := MainCall.round
  answer _ r := r
  kind := isRound
  kind_on _ _ := rfl

abbrev Grows (log log' : List (Prog.Event (api E R))) : Prop :=
  (phase E R).Grows (policy setup) log log'

end Policy

/-! ### The programs of a round, run at once -/

section Rounds

open Prog.Phase (ensures_pure ensures_throw ensures_bind ensures_ofExcept ensures_lift
  ensures_mapError shares stable_grows stable_ok)

variable {E R A B X : Type} {setup : Setup R} {log log' log'' : List (Prog.Event (api E R))}
variable {config : PriceConfig Currency} {p : CurrencyPairAndPrice Currency}

theorem Answered.grows {call : Call R} {r : (roundApi E R).Answer call} (h : Answered log call r)
    (hgrows : Grows setup log log') : Answered log' call r :=
  Prog.Phase.Grows.answered hgrows h

theorem Quoted.grows {feed : FeedName × List (CurrencyPair Currency)}
    {quotes : List (CurrencyPairAndPrice Currency)} (h : Quoted log feed quotes)
    (hgrows : Grows setup log log') : Quoted log' feed quotes := by
  refine h.imp fun pair quote hquote => ?_
  obtain ⟨price, rfl, hanswered⟩ := hquote
  exact ⟨price, rfl, hanswered.grows hgrows⟩

theorem FeedPrices.grows {prices : List (CurrencyPairAndPrice Currency)}
    (h : FeedPrices log config prices) (hgrows : Grows setup log log') :
    FeedPrices log' config prices := by
  obtain ⟨quotes, hquotes, hprices⟩ := h
  exact ⟨quotes, hquotes.imp fun _ _ h => h.grows hgrows, hprices⟩

theorem Priced.grows (h : Priced setup log config p) (hgrows : Grows setup log log') :
    Priced setup log' config p := by
  refine ⟨h.1, h.2.1, fun hvalue => ?_⟩
  obtain ⟨prices, hprices, hmedian⟩ := h.2.2 hvalue
  exact ⟨prices, hprices.grows hgrows, hmedian⟩

theorem Estimated.grows {estimate : Option ℚ} (h : Estimated setup log estimate)
    (hgrows : Grows setup log log') : Estimated setup log' estimate := by
  refine ⟨h.1, fun fee hfee => ?_⟩
  obtain ⟨estimates, hestimates, hmedian⟩ := h.2 fee hfee
  exact ⟨estimates, hestimates.imp fun _ _ h => h.grows hgrows, hmedian⟩

theorem Read.grows (h : Read setup log) (hgrows : Grows setup log log') : Read setup log' := by
  obtain ⟨⟨estimate, hestimate⟩, hprices⟩ := h
  refine ⟨⟨estimate, hestimate.grows hgrows⟩, fun config hconfig => ?_⟩
  obtain ⟨p, hp⟩ := hprices config hconfig
  exact ⟨p, hp.grows hgrows⟩

theorem Accepted.grows (h : Accepted setup log p) (hgrows : Grows setup log log') :
    Accepted setup log' p := by
  obtain ⟨key, rate, hkey, hrate, haccepted⟩ := h
  exact ⟨key, rate, hkey.grows hgrows, hrate, haccepted.grows hgrows⟩

variable (setup) in
abbrev Meets (p : Prog (roundApi E R) A) (Q : A → List (Prog.Event (api E R)) → Prop)
    (log : List (Prog.Event (api E R))) : Prop :=
  (phase E R).Meets (policy setup) (fun _ _ => True) p Q log

variable (setup) in
/-- A program that ends with a result leads to `P`. -/
abbrev Ensures (p : Rpc E R A) (P : A → List (Prog.Event (api E R)) → Prop)
    (log : List (Prog.Event (api E R))) : Prop :=
  (phase E R).Ensures (policy setup) (fun _ _ => True) p P log

theorem meets_ask {call : Call R}
    {Q : (roundApi E R).Answer call → List (Prog.Event (api E R)) → Prop}
    (hlog : Prog.Obeys (policy setup) log)
    (hcall : ∀ log', Grows setup log log' → policy setup log' (.round call))
    (hQ : ∀ log' r, Grows setup log log' → Answered log' call r → Q r log') :
    Meets setup (ask call) Q log :=
  Prog.Phase.meets_request hlog hcall fun _ log' r _ _ _ hgrows h => hQ log' r hgrows h

theorem meets_turn (log : List (Prog.Event (api E R))) (hlog : Prog.Obeys (policy setup) log) :
    Meets setup turn (fun _ => Grows setup log) log :=
  Prog.Phase.meets_turn (fun _ => trivial) log hlog

theorem ensures_tryJoinAll {f : X → Rpc E R A} {P : X → A → List (Prog.Event (api E R)) → Prop}
    (hP : ∀ x a, Prog.Stable (Grows setup) (P x a)) (hlog : Prog.Obeys (policy setup) log)
    {xs : List X} (hf : ∀ x ∈ xs, Ensures setup (f x) (P x) log) :
    Ensures setup (Prog.tryJoinAll turn (xs.map f))
      (fun as log => List.Forall₂ (fun x a => P x a log) xs as) log :=
  Prog.Phase.ensures_tryJoinAll meets_turn hP hlog hf

/-! ### What is read -/

theorem ensures_getPrice (name : FeedName) (pair : CurrencyPair Currency)
    (hlog : Prog.Obeys (policy setup) log) :
    Ensures setup (getPrice name pair) (fun quote log => ∃ price, quote = ⟨pair, price⟩ ∧
      Answered log (.getPrice name pair) (.ok price)) log := by
  refine ensures_bind (P := fun price log => Answered log (.getPrice name pair) (.ok price))
    (ensures_mapError (meets_ask hlog (fun _ _ => trivial) fun _ r _ h price hr => hr ▸ h)) ?_
  exact fun price log' hlog' _ h => ensures_pure hlog' ⟨price, rfl, h⟩

theorem ensures_pathPrice (pair : CurrencyPair Currency)
    (feed : FeedName × List (CurrencyPair Currency)) (hlog : Prog.Obeys (policy setup) log) :
    Ensures setup (pathPrice pair feed) (fun price log => ∃ quotes, Quoted log feed quotes ∧
      price = joinPath pair quotes) log := by
  refine ensures_bind (P := fun quotes log => Quoted log feed quotes)
    (ensures_tryJoinAll (fun pair quote log log' hgrows h => ?_) hlog
      fun pair _ => ensures_getPrice feed.1 pair hlog) ?_
  · obtain ⟨price, rfl, hanswered⟩ := h
    exact ⟨price, rfl, hanswered.grows hgrows⟩
  · exact fun quotes log' hlog' _ h => ensures_pure hlog' ⟨quotes, h, rfl⟩

theorem eq_of_mapM_guard {T : Type} {c : X → Bool} {e : X → T} {xs ys : List X}
    (h : xs.mapM (fun x => if c x then (.ok x : Except T X) else .error (e x)) = .ok ys) :
    ys = xs := by
  induction xs generalizing ys with
  | nil =>
    cases h
    rfl
  | cons x xs ih =>
    rw [List.mapM_cons] at h
    obtain ⟨y, hy, h⟩ := Prog.bind_eq_ok h
    obtain ⟨ys, hys, h⟩ := Prog.bind_eq_ok h
    cases h
    split at hy
    · cases hy
      rw [ih hys]
    · cases hy

theorem forall₂_map_of_exists {Q : X → A → Prop} {g : A → B} {xs : List X} {bs : List B}
    (h : List.Forall₂ (fun x b => ∃ a, Q x a ∧ b = g a) xs bs) :
    ∃ as, List.Forall₂ Q xs as ∧ bs = as.map g := by
  induction h with
  | nil => exact ⟨[], .nil, rfl⟩
  | cons hb _ ih =>
    obtain ⟨a, ha, rfl⟩ := hb
    obtain ⟨as, has, rfl⟩ := ih
    exact ⟨a :: as, .cons ha has, rfl⟩

theorem ensures_getPrices (config : PriceConfig Currency) (hlog : Prog.Obeys (policy setup) log) :
    Ensures setup (getPrices setup config) (fun prices log => FeedPrices log config prices)
      log := by
  refine ensures_bind (P := fun feeds _ => feeds = config.feeds)
    (ensures_ofExcept hlog fun feeds h => eq_of_mapM_guard h) fun feeds log hlog _ hfeeds => ?_
  subst hfeeds
  refine ensures_bind (ensures_tryJoinAll (fun feed price log log' hgrows h => ?_) hlog
    fun feed _ => ensures_pathPrice config.pair feed hlog) fun prices log hlog _ h => ?_
  · obtain ⟨quotes, hquotes, rfl⟩ := h
    exact ⟨quotes, hquotes.grows hgrows, rfl⟩
  · obtain ⟨quotes, hquotes, rfl⟩ := forall₂_map_of_exists h
    exact ensures_pure hlog ⟨quotes, hquotes, rfl⟩

theorem ensures_getValueOrMedian (config : PriceConfig Currency)
    (hlog : Prog.Obeys (policy setup) log) :
    Ensures setup (getValueOrMedian setup config) (fun p log => Priced setup log config p) log := by
  unfold getValueOrMedian
  cases hvalue : config.value with
  | some value =>
    refine ensures_pure hlog ⟨rfl, fun value' h => ?_, fun h => ?_⟩
    · exact Option.some.inj (hvalue.symm.trans h)
    · rw [hvalue] at h
      cases h
  | none =>
    refine ensures_bind (ensures_getPrices config hlog) fun prices log hlog _ h =>
      ensures_pure hlog ⟨rfl, fun value h => ?_, fun _ => ⟨prices, h, rfl⟩⟩
    rw [hvalue] at h
    cases h

theorem ensures_maybeGetMedian (hlog : Prog.Obeys (policy setup) log) :
    Ensures setup (maybeGetMedian setup) (fun estimate log => Estimated setup log estimate)
      log := by
  unfold maybeGetMedian
  split
  next hnone =>
    exact ensures_pure hlog ⟨fun _ => hnone, fun _ h => by cases h⟩
  next =>
    refine ensures_bind (ensures_tryJoinAll (P := fun feed estimate log =>
      Answered log (.getFeeEstimate feed) (.ok estimate)) (fun _ _ _ _ hgrows h => h.grows hgrows)
      hlog fun feed _ => ensures_mapError (meets_ask hlog (fun _ _ => trivial)
        fun _ r _ h fee hr => hr ▸ h)) fun estimates log hlog _ h => ?_
    refine ensures_pure hlog ⟨fun hnone => ?_, fun fee hfee => ?_⟩
    · cases hnone
    · cases hfee
      exact ⟨estimates, h, rfl⟩

/-! ### What is submitted -/

theorem ensures_submitBitcoinFees {estimate : Option ℚ} (hread : Read setup log)
    (hconnected : Answered log .connect (.ok ())) (hestimate : Estimated setup log estimate)
    (hlog : Prog.Obeys (policy setup) log) :
    Ensures setup (submitBitcoinFees setup estimate) (fun _ log => FeeAccepted setup log estimate)
      log := by
  cases estimate with
  | none => exact ensures_pure hlog fun _ h => by cases h
  | some fee =>
    refine ensures_mapError (meets_ask hlog (fun log' hgrows => ?_)
      fun log' r _ h _ hr fee' hfee => ?_)
    · exact ⟨hread.grows hgrows, hconnected.grows hgrows, fee, hestimate.grows hgrows, rfl⟩
    · cases hfee
      exact hr ▸ h

theorem ensures_submitExchangeRate (hread : Read setup log)
    (hconnected : Answered log .connect (.ok ())) (hconfig : config ∈ setup.prices)
    (hp : Priced setup log config p) (hlog : Prog.Obeys (policy setup) log) :
    Ensures setup (submitExchangeRate setup p) (fun _ log => Accepted setup log p) log := by
  refine ensures_bind (P := fun key log =>
    Answered log (.tryFromSymbol p.pair.quote.getSymbol) (.ok key))
    (ensures_mapError (meets_ask hlog (fun _ _ => trivial) fun _ r _ h key hr => hr ▸ h))
    fun key log₁ hlog₁ hgrows₁ hkey => ?_
  refine ensures_bind (P := fun rate _ => exchangeRate (E := E) setup p = .ok rate)
    (ensures_ofExcept hlog₁ fun _ h => h) fun rate log₂ hlog₂ hgrows₂ hrate => ?_
  refine ensures_mapError (meets_ask hlog₂ (fun log' hgrows => ?_) fun log' r hgrows h a hr => ?_)
  · have hgrows' := hgrows₁.trans (hgrows₂.trans hgrows)
    exact ⟨hread.grows hgrows', hconnected.grows hgrows', config, hconfig, p, hp.grows hgrows',
      hkey.grows (hgrows₂.trans hgrows), hrate⟩
  · exact ⟨key, rate, hkey.grows (hgrows₂.trans hgrows), hrate, hr ▸ h⟩

theorem ensures_submitExchangeRates {prices : List (CurrencyPairAndPrice Currency)}
    (hread : Read setup log) (hconnected : Answered log .connect (.ok ()))
    (hprices : ∀ p ∈ prices, ∃ config ∈ setup.prices, Priced setup log config p)
    (hlog : Prog.Obeys (policy setup) log) :
    Ensures setup (submitExchangeRates setup prices)
      (fun _ log => ∀ p ∈ prices, Accepted setup log p) log := by
  refine ensures_bind (ensures_tryJoinAll (P := fun p _ log => Accepted setup log p)
    (fun _ _ _ _ hgrows h => h.grows hgrows) hlog fun p hmem => ?_) fun results log' hlog' _ h => ?_
  · obtain ⟨config, hconfig, hp⟩ := hprices p hmem
    exact ensures_submitExchangeRate hread hconnected hconfig hp hlog
  · refine ensures_pure hlog' fun p hmem => ?_
    obtain ⟨_, -, haccepted⟩ := Prog.exists_mem_right h p hmem
    exact haccepted

theorem ensures_retryNotify {operation : Rpc E R Unit}
    {P : List (Prog.Event (api E R)) → Prop} (fuel : Nat) (hlog : Prog.Obeys (policy setup) log)
    (hoperation : ∀ log', Prog.Obeys (policy setup) log' → Grows setup log log' →
      Ensures setup operation (fun _ => P) log') :
    Ensures setup (retryNotify fuel operation) (fun _ => P) log := by
  let J (_ : Unit) (log' : List (Prog.Event (api E R))) : Prop :=
    Prog.Obeys (policy setup) log' ∧ Grows setup log log'
  have hround (x : Unit) (log' : List (Prog.Event (api E R))) (h : J x log') :
      Meets setup (retryRound operation x).run
        (Prog.Round J fun r log => ∀ a, r = .ok a → a = some () → P log) log' := by
    obtain ⟨hlog', hgrows⟩ := h
    refine Prog.keeps_run_bind.mpr (Prog.keeps_run_lift.mpr ((shares.frame (stable_grows log)
      (hoperation log' hlog' hgrows) hgrows).mono fun r log₁ hlog₁ hr => ?_))
    cases r with
    | ok a => exact ⟨hlog₁, fun _ _ _ => hr.1 a rfl⟩
    | error e =>
      refine Prog.keeps_run_bind.mpr (Prog.keeps_run_lift.mpr (meets_ask hlog₁ (fun _ _ => trivial)
        fun log₂ again hgrows₂ _ => ?_))
      have hlog₂ := hgrows₂.obeys hlog₁
      cases again with
      | true => exact ⟨hlog₂, hlog₂, hr.2.trans hgrows₂⟩
      | false => exact ⟨hlog₂, fun _ h => by cases h⟩
  refine ensures_bind (P := fun ended log => ended = some () → P log)
    (Prog.keeps_run_iterate J hround (fun _ _ _ _ h h' => ?_) fuel
      ⟨hlog, Prog.Phase.Grows.refl log⟩) fun ended log' hlog' _ h => ?_
  · cases h
    cases h'
  · cases ended with
    | some _ => exact ensures_pure hlog' (h rfl)
    | none => exact ensures_throw hlog'

/-- A round that ends well has submitted everything. -/
theorem ensures_round (fuel : Nat) (hlog : Prog.Obeys (policy setup) log) :
    Ensures setup (round setup fuel) (fun _ log => Submitted setup log) log := by
  refine ensures_bind (ensures_maybeGetMedian hlog) fun estimate log₁ hlog₁ _ hestimate => ?_
  refine ensures_bind (ensures_tryJoinAll (P := fun config p log => Priced setup log config p)
    (fun _ _ _ _ hgrows h => h.grows hgrows) hlog₁ fun config _ =>
      ensures_getValueOrMedian config hlog₁) fun prices log₂ hlog₂ hgrows₂ hprices => ?_
  have hestimate := hestimate.grows hgrows₂
  have hread : Read setup log₂ := by
    refine ⟨⟨estimate, hestimate⟩, fun config hconfig => ?_⟩
    obtain ⟨p, -, hp⟩ := Prog.exists_mem_right hprices config hconfig
    exact ⟨p, hp⟩
  refine ensures_bind (P := fun _ log => Answered log .connect (.ok ())) (ensures_mapError
    (meets_ask hlog₂ (fun _ hgrows => hread.grows hgrows) fun _ r _ h _ hr => hr ▸ h))
    fun _ log₃ hlog₃ hgrows₃ hconnected => ?_
  have hread := hread.grows hgrows₃
  have hestimate := hestimate.grows hgrows₃
  have hprices : List.Forall₂ (fun config p => Priced setup log₃ config p) setup.prices prices :=
    hprices.imp fun _ _ h => h.grows hgrows₃
  have hleft : Ensures setup (retryNotify fuel (submitBitcoinFees setup estimate))
      (fun _ log => FeeAccepted setup log estimate) log₃ :=
    ensures_retryNotify fuel hlog₃ fun _ hlog hgrows => ensures_submitBitcoinFees
      (hread.grows hgrows) (hconnected.grows hgrows) (hestimate.grows hgrows) hlog
  have hright : Ensures setup (retryNotify fuel (submitExchangeRates setup prices))
      (fun _ log => ∀ p ∈ prices, Accepted setup log p) log₃ := by
    refine ensures_retryNotify fuel hlog₃ fun _ hlog hgrows => ensures_submitExchangeRates
      (hread.grows hgrows) (hconnected.grows hgrows) (fun p hp => ?_) hlog
    obtain ⟨config, hconfig, hpriced⟩ := Prog.exists_mem_right hprices.flip p hp
    exact ⟨config, hconfig, Priced.grows hpriced hgrows⟩
  have hfee (_ : Unit) : Prog.Stable (Grows (E := E) setup)
      fun log => FeeAccepted setup log estimate :=
    fun _ _ hgrows h fee hfee => (h fee hfee).grows hgrows
  have hrates (_ : Unit) : Prog.Stable (Grows (E := E) setup)
      fun log => ∀ p ∈ prices, Accepted setup log p :=
    fun _ _ hgrows h p hp => (h p hp).grows hgrows
  refine ensures_bind (ensures_lift (shares.keeps_join meets_turn (stable_ok hfee)
    (stable_ok hrates) hleft hright)) fun results log₄ hlog₄ hgrows₄ hresults => ?_
  obtain ⟨left, right⟩ := results
  obtain ⟨hfee, haccepted⟩ := hresults
  dsimp only at hfee haccepted
  cases left with
  | error e => exact ensures_throw hlog₄
  | ok _ =>
    cases right with
    | error e => exact ensures_throw hlog₄
    | ok _ =>
      refine ensures_pure hlog₄ ⟨⟨estimate, hestimate.grows hgrows₄, hfee () rfl⟩, ?_⟩
      intro config hconfig
      obtain ⟨p, hp, hpriced⟩ := Prog.exists_mem_right hprices config hconfig
      exact ⟨p, hpriced.grows hgrows₄, haccepted () rfl p hp⟩

/-- The body keeps to the policy. -/
theorem keeps_body (fuel : Nat) (hlog : Prog.Obeys (policy setup) log) :
    Prog.Keeps (Prog.logged (F := api E R) fun _ => True) (Prog.Obeys (policy setup))
      (body setup fuel ()) (fun _ _ => True) log := by
  refine Prog.keeps_bind.mpr ((Prog.keeps_embed_of_part
    ((ensures_round fuel hlog).alone Prog.Phase.Grows.refl)).mono fun r log' hlog' hr => ?_)
  cases r with
  | error e => exact ⟨hlog', trivial⟩
  | ok _ => exact Prog.keeps_logged_call hlog' (hr () rfl) fun _ _ hlog' => ⟨hlog', trivial⟩

end Rounds

end InterBtcClients.Oracle.Rounds
