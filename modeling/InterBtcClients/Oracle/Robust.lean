import InterBtcClients.Library.Near
import InterBtcClients.Oracle.Rounds

/-! What the oracle submits while some of its feeds answer anything: a price for which most of the
feeds answer nearly alike is near to theirs. -/

namespace InterBtcClients.Oracle.Rounds

open Library

/-! ### Prices along a path -/

section Paths

variable {C : Type} [BEq C]

/-- Prices of one pair, the second within a factor of the first, which is positive. -/
structure NearPrice (t : ℚ) (p q : CurrencyPairAndPrice C) : Prop where
  pair : q.pair = p.pair
  pos : 0 < p.price
  near : Near t p.price q.price

variable {s t : ℚ} {p q p' q' : CurrencyPairAndPrice C}

omit [BEq C] in
theorem NearPrice.invert (h : NearPrice t p q) (ht : 0 < t) : NearPrice t p.invert q.invert where
  pair := congrArg CurrencyPair.invert h.pair
  pos := one_div_pos.mpr h.pos
  near := h.near.one_div ht h.pos

omit [BEq C] in
theorem NearPrice.link (h : NearPrice s p q) (h' : NearPrice t p' q') (hs : 0 < s) (ht : 0 < t) :
    NearPrice (s * t) ⟨⟨p.pair.base, p'.pair.quote⟩, p.price * p'.price⟩
      ⟨⟨q.pair.base, q'.pair.quote⟩, q.price * q'.price⟩ where
  pair := by rw [h.pair, h'.pair]
  pos := mul_pos h.pos h'.pos
  near := h.near.mul h'.near hs ht h.pos h'.pos

theorem NearPrice.reduce (h : NearPrice s p q) (h' : NearPrice t p' q') (hs : 0 < s) (ht : 0 < t) :
    NearPrice (s * t) (p.reduce p') (q.reduce q') := by
  unfold CurrencyPairAndPrice.reduce
  rw [h.pair, h'.pair]
  by_cases hquotes : (p.pair.quote == p'.pair.quote) = true
  · simp only [hquotes, if_true]
    exact h.link (h'.invert ht) hs ht
  by_cases hbases : (p.pair.base == p'.pair.base) = true
  · simp only [hquotes, hbases, if_true]
    exact (h.invert hs).link h' hs ht
  by_cases hends : (p.pair.base == p'.pair.quote) = true
  · simp only [hquotes, hbases, hends, if_true]
    exact (h.invert hs).link (h'.invert ht) hs ht
  · simp only [hquotes, hbases, hends]
    exact h.link h' hs ht

theorem NearPrice.foldl {ps qs : List (CurrencyPairAndPrice C)} (h : NearPrice s p q)
    (hs : 0 < s) (ht : 0 < t) (hps : List.Forall₂ (NearPrice t) ps qs) :
    NearPrice (s * t ^ ps.length) (ps.foldl CurrencyPairAndPrice.reduce p)
      (qs.foldl CurrencyPairAndPrice.reduce q) := by
  induction hps generalizing p q s with
  | nil => simpa using h
  | cons hp _ ih =>
    have hrest := ih (h.reduce hp hs ht) (mul_pos hs ht)
    rwa [mul_assoc, ← pow_succ'] at hrest

end Paths

section Robust

variable {E R : Type} {setup : Setup R} {log : List (Prog.Event (api E R))}
variable {pair : CurrencyPair Currency} {path : List (CurrencyPair Currency)} {t : ℚ}

/-- The price of the pair when its currencies have the values `v`. -/
def ratio (v : Valuation String) (pair : CurrencyPair Currency) : ℚ :=
  pair.base.value v / pair.quote.value v

theorem ratio_pos (v : Valuation String) (pair : CurrencyPair Currency) : 0 < ratio v pair :=
  div_pos (Route.value_pos pair.base) (Route.value_pos pair.quote)

/-- A path that joins the pair has its price. -/
theorem joinPath_quoted (h : PriceConfig.Joins pair path) (v : Valuation String) :
    ∃ p, joinPath pair (path.map (CurrencyPair.quoted v)) = some p ∧ p.price = ratio v pair := by
  cases path with
  | nil => exact h.elim
  | cons first path =>
    obtain ⟨hends, hperm⟩ := (PriceConfig.joins_iff_oriented pair first path).mp h
    obtain ⟨p, hp, hprices⟩ := PriceConfig.pathPrice_quotingFeed pair first path v
    have hquotes : (first :: path).mapM (quotingFeed v) =
        .ok ((first :: path).map (CurrencyPair.quoted v)) := List.mapM_pure
    rw [Oracle.pathPrice, hquotes] at hp
    refine ⟨p, Except.ok.inj hp, ?_⟩
    rw [hprices.2, (Route.price_eq_iff hends).mpr hperm v]
    rfl

/-- Along a path that joins the pair, quotes within a factor give a price within its power. -/
theorem joinPath_near (h : PriceConfig.Joins pair path) (v : Valuation String) (ht : 0 < t)
    {quotes : List (CurrencyPairAndPrice Currency)}
    (hquotes : List.Forall₂ (fun pr q => NearPrice t (pr.quoted v) q) path quotes) :
    ∃ q, joinPath pair quotes = some q ∧ Near (t ^ path.length) (ratio v pair) q.price := by
  obtain ⟨p, hp, hprice⟩ := joinPath_quoted h v
  have hquotes : List.Forall₂ (NearPrice t) (path.map (CurrencyPair.quoted v)) quotes :=
    List.forall₂_map_left_iff.mpr hquotes
  cases path with
  | nil => exact h.elim
  | cons first path =>
    cases hquotes with
    | @cons _ q _ qs hfirst hrest =>
      have hfold := hfirst.foldl ht ht hrest
      rw [List.length_map, ← pow_succ'] at hfold
      cases hp
      refine ⟨_, rfl, ?_⟩
      rw [← hprice]
      rw [hfold.pair]
      split
      · exact (hfold.invert (pow_pos ht _)).near
      · exact hfold.near

/-! ### Medians -/

theorem countP_le_of_forall₂ {X A : Type} {Q : X → A → Prop} {good : X → Bool} {c : A → Bool}
    {xs : List X} {as : List A} (h : List.Forall₂ Q xs as)
    (hgood : ∀ x ∈ xs, good x = true → ∀ a, Q x a → c a = true) :
    xs.countP good ≤ as.countP c := by
  induction h with
  | nil => exact Nat.le_refl 0
  | @cons x a xs as hQ _ ih =>
    have hrest := ih fun y hy => hgood y (List.mem_cons_of_mem x hy)
    rw [List.countP_cons, List.countP_cons]
    by_cases hx : good x = true
    · simp [hx, hgood x List.mem_cons_self hx a hQ, hrest]
    · simp [hx]
      omega

theorem ne_nil_of_lt_countP {A : Type} {c : A → Bool} {as : List A}
    (h : as.length < 2 * as.countP c) : as ≠ [] := by
  rintro rfl
  simp at h

/-- The feed's answers in this round are near to the values `v`, and its path joins the pair. -/
structure Reliable (log : List (Prog.Event (api E R))) (v : Valuation String) (t : ℚ) (k : Nat)
    (pair : CurrencyPair Currency) (feed : FeedName × List (CurrencyPair Currency)) : Prop where
  joins : PriceConfig.Joins pair feed.2
  length_le : feed.2.length ≤ k
  near : ∀ pr price, Answered log (.getPrice feed.1 pr) (.ok price) → Near t (ratio v pr) price

theorem Reliable.near_joinPath {v : Valuation String} {k : Nat}
    {feed : FeedName × List (CurrencyPair Currency)} (h : Reliable log v t k pair feed) (ht : 1 ≤ t)
    {quotes : List (CurrencyPairAndPrice Currency)} (hquotes : Quoted log feed quotes) :
    ∃ q, joinPath pair quotes = some q ∧ Near (t ^ k) (ratio v pair) q.price := by
  have hpos : 0 < t := one_pos.trans_le ht
  have hnear : List.Forall₂ (fun pr q => NearPrice t (pr.quoted v) q) feed.2 quotes := by
    refine hquotes.imp fun pr quote hquote => ?_
    obtain ⟨price, rfl, hanswered⟩ := hquote
    exact ⟨rfl, ratio_pos v pr, h.near pr price hanswered⟩
  obtain ⟨q, hq, hnear⟩ := joinPath_near h.joins v hpos hnear
  exact ⟨q, hq, hnear.mono (pow_pos hpos _) (pow_le_pow_right₀ ht h.length_le) (ratio_pos v pair)⟩

variable {config : PriceConfig Currency} {prices : List (CurrencyPairAndPrice Currency)}

/-- When more than half of the feeds are reliable, the median is near to their values. -/
theorem near_median (hmedian : ∀ xs, xs ≠ [] → setup.median xs = median xs)
    (hprices : FeedPrices log config prices) {v : Valuation String} {k : Nat}
    (good : FeedName × List (CurrencyPair Currency) → Bool) (ht : 1 ≤ t)
    (hgood : ∀ feed ∈ config.feeds, good feed = true → Reliable log v t k config.pair feed)
    (hmost : config.feeds.length < 2 * config.feeds.countP good) :
    Near (t ^ k) (ratio v config.pair) (setup.median (prices.map fun cup => cup.price)) := by
  obtain ⟨quotes, hquotes, rfl⟩ := hprices
  let lo := ratio v config.pair / t ^ k
  let hi := ratio v config.pair * t ^ k
  let near (quotes : List (CurrencyPairAndPrice Currency)) : Bool :=
    ((joinPath config.pair quotes).map fun q => within lo hi q.price).getD false
  have hcount : config.feeds.countP good ≤ quotes.countP near := by
    refine countP_le_of_forall₂ hquotes fun feed hfeed hfeedGood quotes hquotes => ?_
    obtain ⟨q, hq, hnear⟩ := (hgood feed hfeed hfeedGood).near_joinPath ht hquotes
    simp only [near, hq, Option.map_some, Option.getD_some]
    exact within_iff.mpr hnear
  have hlength : ((quotes.map (joinPath config.pair)).reduceOption.map
      fun cup => cup.price).length ≤ config.feeds.length := by
    rw [List.length_map, hquotes.length_eq]
    exact (List.reduceOption_length_le _).trans (List.length_map _).le
  have hprices : ((quotes.map (joinPath config.pair)).reduceOption.map
      fun cup => cup.price).countP (within lo hi) = quotes.countP near := by
    rw [List.countP_map, List.reduceOption, List.countP_filterMap, List.countP_map]
    rfl
  have hmost := hlength.trans_lt
    (hmost.trans_le (Nat.mul_le_mul_left 2 (hcount.trans hprices.ge)))
  rw [hmedian _ (ne_nil_of_lt_countP hmost)]
  exact within_iff.mp (median_within hmost)

/-! ### What is submitted -/

variable (setup) in
/-- What may be called after the events so far, whatever less than half of the feeds answer. -/
def robust (log : List (Prog.Event (api E R))) : MainCall R → Prop
  | .round .connect => Read setup log
  | .round (.setBitcoinFees fee) => Read setup log ∧ Answered log .connect (.ok ()) ∧ ∃ estimate,
    fee = setup.fixed.fromFloat estimate ∧ ∀ lo hi (good : Nat → Bool),
      (∀ feed < setup.bitcoinFeeds, good feed = true → ∀ e,
        Answered log (.getFeeEstimate feed) (.ok e) → lo ≤ e ∧ e ≤ hi) →
      setup.bitcoinFeeds < 2 * (List.range setup.bitcoinFeeds).countP good →
      lo ≤ estimate ∧ estimate ≤ hi
  | .round (.feedValues key rate) => Read setup log ∧ Answered log .connect (.ok ()) ∧
    ∃ config ∈ setup.prices, ∃ p, p.pair = config.pair ∧ exchangeRate (E := E) setup p = .ok rate ∧
    Answered log (.tryFromSymbol config.pair.quote.getSymbol) (.ok key) ∧
    (∀ value, config.value = some value → p.price = value) ∧
    (config.value = none → ∀ v t k (good : FeedName × List (CurrencyPair Currency) → Bool), 1 ≤ t →
      (∀ feed ∈ config.feeds, good feed = true → Reliable log v t k config.pair feed) →
      config.feeds.length < 2 * config.feeds.countP good →
      Near (t ^ k) (ratio v config.pair) p.price)
  | .round _ => True
  | .sleep => Submitted setup log

theorem estimate_within {fee : ℚ} (hmedian : ∀ xs, xs ≠ [] → setup.median xs = median xs)
    (h : Estimated setup log (some fee)) {lo hi : ℚ} (good : Nat → Bool)
    (hgood : ∀ feed < setup.bitcoinFeeds, good feed = true → ∀ e,
      Answered log (.getFeeEstimate feed) (.ok e) → lo ≤ e ∧ e ≤ hi)
    (hmost : setup.bitcoinFeeds < 2 * (List.range setup.bitcoinFeeds).countP good) :
    lo ≤ fee ∧ fee ≤ hi := by
  obtain ⟨estimates, hestimates, rfl⟩ := h.2 fee rfl
  have hcount := countP_le_of_forall₂ (c := within lo hi) hestimates
    fun feed hfeed hfeedGood e he =>
      within_iff.mpr (hgood feed (List.mem_range.mp hfeed) hfeedGood e he)
  have hlength := hestimates.length_eq
  rw [List.length_range] at hlength
  have hmost : estimates.length < 2 * estimates.countP (within lo hi) := by omega
  rw [hmedian estimates (ne_nil_of_lt_countP hmost)]
  exact within_iff.mp (median_within hmost)

theorem robust_of_policy (hmedian : ∀ xs, xs ≠ [] → setup.median xs = median xs)
    {call : MainCall R} (h : policy setup log call) : robust setup log call := by
  cases call with
  | sleep => exact h
  | round call =>
    cases call with
    | connect => exact h
    | setBitcoinFees fee =>
      obtain ⟨hread, hconnected, estimate, hestimate, hfee⟩ := h
      exact ⟨hread, hconnected, estimate, hfee,
        fun lo hi good => estimate_within hmedian hestimate good⟩
    | feedValues key rate =>
      obtain ⟨hread, hconnected, config, hconfig, p, hp, hkey, hrate⟩ := h
      refine ⟨hread, hconnected, config, hconfig, p, hp.1, hrate, hp.1 ▸ hkey, hp.2.1, ?_⟩
      intro hvalue v t k good ht hgood hmost
      obtain ⟨prices, hprices, hprice⟩ := hp.2.2 hvalue
      rw [hprice]
      exact near_median hmedian hprices good ht hgood hmost
    | turn | getFeeEstimate feed | getPrice name pair | tryFromSymbol symbol | nextBackoff =>
      trivial

end Robust

/-! ### Two feeds that agree, and one that does not -/

/-- BTC is worth twice as much as any other currency. -/
def btcValues : Valuation String := .two "BTC"

def btcKsm : CurrencyPair Currency := ⟨.symbol "BTC", .symbol "KSM"⟩

def threeFeeds : Setup Nat where
  prices := [{
    pair := btcKsm
    value := none
    feeds := [(.kraken, [btcKsm]),
      (.gateIo, [⟨.symbol "BTC", .symbol "USD"⟩, ⟨.symbol "KSM", .symbol "USD"⟩]),
      (.coinGecko, [btcKsm])] }]
  currencyStore symbol :=
    if symbol = "BTC" then some ⟨"Bitcoin", 8⟩
    else if symbol = "KSM" then some ⟨"Kusama", 12⟩
    else none
  configured _ := true
  bitcoinFeeds := 0
  median := median
  fixed := {
    fromFloat := fun x => (x * 10 ^ 18).floor.toNat
    checkedFromRational := fun n d => if d = 0 then none else some (n * 10 ^ 18 / d)
    checkedMul := fun a b => some (a * b / 10 ^ 18) }

/-- The first two feeds are at most one percent off; the third one always has the same price. -/
def reply : (call : MainCall Nat) → (api Unit Nat).Answer call
  | .sleep => ()
  | .round .turn => true
  | .round (.getFeeEstimate _) => .error ()
  | .round (.getPrice .kraken pair) => .ok (ratio btcValues pair * (101 / 100))
  | .round (.getPrice .gateIo pair) => .ok (ratio btcValues pair)
  | .round (.getPrice _ _) => .ok 99
  | .round .connect => .ok ()
  | .round (.setBitcoinFees _) => .ok ()
  | .round (.tryFromSymbol _) => .ok (.token .KSM)
  | .round (.feedValues _ _) => .ok ()
  | .round .nextBackoff => false

def handle (log : List (Prog.Event (api Unit Nat))) (call : MainCall Nat) :
    (api Unit Nat).Answer call × List (Prog.Event (api Unit Nat)) :=
  (reply call, log ++ [⟨call, reply call⟩])

/-- The events of a round. -/
def threeFeedsLog : List (Prog.Event (api Unit Nat)) :=
  ((body threeFeeds 1 ()).exec handle []).2

def isFeedValues (e : Prog.Event (api Unit Nat)) : Bool :=
  match e.call with
  | .round (.feedValues _ _) => true
  | _ => false

theorem logged_handle (log : List (Prog.Event (api Unit Nat))) (call : MainCall Nat) :
    Prog.logged (fun _ => True) log call (handle log call).1 (handle log call).2 :=
  ⟨trivial, rfl⟩

/-- Every answer in the log is a reply. -/
def Replied (log : List (Prog.Event (api Unit Nat))) : Prop := ∀ e ∈ log, e.answer = reply e.call

theorem replied_handle (log : List (Prog.Event (api Unit Nat))) (call : MainCall Nat)
    (h : Replied log) : Replied (handle log call).2 := by
  intro e he
  rcases List.mem_append.mp he with he | he
  · exact h e he
  · cases List.mem_singleton.mp he
    rfl

theorem replied_threeFeedsLog : Replied threeFeedsLog :=
  Prog.exec_inv replied_handle (body threeFeeds 1 ()) fun _ h => by cases h

theorem exists_feedValues : ∃ before key rate after, threeFeedsLog =
    before ++ ⟨.round (.feedValues key rate), .ok ()⟩ :: after := by
  have hcount : 0 < threeFeedsLog.countP isFeedValues := by decide +kernel
  obtain ⟨⟨call, r⟩, hmem, hcall⟩ := List.countP_pos_iff.mp hcount
  obtain ⟨before, after, hlog⟩ := List.append_of_mem hmem
  have hr := replied_threeFeedsLog _ hmem
  cases call with
  | sleep => cases hcall
  | round call =>
    cases call with
    | feedValues key rate =>
      obtain rfl : r = .ok () := hr
      exact ⟨before, key, rate, after, hlog⟩
    | _ => cases hcall

theorem near_self {t x : ℚ} (ht : 1 ≤ t) (hx : 0 < x) : Near t x x :=
  ⟨div_le_self hx.le ht, le_mul_of_one_le_right hx.le ht⟩

end InterBtcClients.Oracle.Rounds
