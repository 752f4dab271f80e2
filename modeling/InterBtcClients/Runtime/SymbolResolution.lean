import InterBtcClients.Library.Prog
import InterBtcClients.Runtime.AssetCaches

/-! From a symbol back to the currency: `try_from_symbol` tries the hard-coded currencies, the lend
token of the currency that the rest of the symbol stands for, and the foreign assets, in this order.
-/

namespace InterBtcClients.Runtime.Assets

namespace Registries

/-- In the order in which they are tried. -/
def hardcoded : List TokenSymbol :=
  [.DOT, .IBTC, .INTR, .KSM, .KBTC, .KINT, .GGXT, .GGX]

section Definitions

variable (primitives : Primitives)

mutual

/-- `none` is a search that has not ended after `fuel` calls. -/
def tryFromSymbol (registries : Registries) : Nat → String → Option (Except Error CurrencyId)
  | 0, _ => none
  | fuel + 1, symbol =>
    let uppercaseSymbol := primitives.toUppercase symbol
    match hardcoded.find? fun token => uppercaseSymbol = primitives.tokenSymbol token with
    | some token => return .ok (.token token)
    | none => do
      match ← fromLendTokenSymbol registries fuel uppercaseSymbol with
      | some currencyId => return .ok currencyId
      | none => return registries.assets.getForeignAssetBySymbol uppercaseSymbol

def fromLendTokenSymbol (registries : Registries) : Nat → String → Option (Option CurrencyId)
  | 0, _ => none
  | fuel + 1, symbol =>
    let uppercaseSymbol := primitives.toUppercase symbol
    match uppercaseSymbol.toList with
    | 'Q' :: rest => do
      let underlyingId ← tryFromSymbol registries fuel (String.ofList rest)
      return underlyingId.toOption.bind fun underlyingId =>
        (registries.lending.getLendTokenId underlyingId).toOption
    | _ => return none

end

end Definitions

/-- What the uppercase form of a text is like: it is taken letter by letter, has nothing left to
change, and is the text itself for `Q` and for the symbols of the hard-coded currencies. -/
structure Uppercase (primitives : Primitives) : Prop where
  append : ∀ s t, primitives.toUppercase (s ++ t) =
    primitives.toUppercase s ++ primitives.toUppercase t
  idempotent : ∀ s, primitives.toUppercase (primitives.toUppercase s) = primitives.toUppercase s
  lendToken : primitives.toUppercase LEND_TOKEN_SYMBOL_PREFIX = LEND_TOKEN_SYMBOL_PREFIX
  token : ∀ token, primitives.toUppercase (primitives.tokenSymbol token) =
    primitives.tokenSymbol token

theorem mem_hardcoded (token : TokenSymbol) : token ∈ hardcoded := by
  cases token <;> decide

variable {primitives : Primitives} {registries : Registries} {s rest : String} {c : CurrencyId}
  {fuel : Nat}

/-! ### One call -/

theorem fromLendTokenSymbol_of_prefixed
    (h : primitives.toUppercase s = LEND_TOKEN_SYMBOL_PREFIX ++ rest) :
    fromLendTokenSymbol primitives registries (fuel + 1) s =
      (tryFromSymbol primitives registries fuel rest).map fun underlyingId =>
        underlyingId.toOption.bind fun underlyingId =>
          (registries.lending.getLendTokenId underlyingId).toOption := by
  have hlist : (primitives.toUppercase s).toList = 'Q' :: rest.toList := by
    simp [h, LEND_TOKEN_SYMBOL_PREFIX]
  simp only [fromLendTokenSymbol, hlist, String.ofList_toList]
  cases tryFromSymbol primitives registries fuel rest <;> rfl

theorem fromLendTokenSymbol_of_not_prefixed
    (h : ∀ rest, primitives.toUppercase s ≠ LEND_TOKEN_SYMBOL_PREFIX ++ rest) :
    fromLendTokenSymbol primitives registries (fuel + 1) s = some none := by
  simp only [fromLendTokenSymbol]
  split
  · rename_i rest hlist
    refine absurd ?_ (h (String.ofList rest))
    apply String.toList_inj.mp
    simp [hlist, LEND_TOKEN_SYMBOL_PREFIX]
  · rfl

variable (registries fuel) in
/-- A symbol of a hard-coded currency is not looked for elsewhere. -/
theorem tryFromSymbol_of_token
    (h : ∃ token, primitives.toUppercase s = primitives.tokenSymbol token) :
    ∃ token, primitives.toUppercase s = primitives.tokenSymbol token ∧
      tryFromSymbol primitives registries (fuel + 1) s = some (.ok (.token token)) := by
  obtain ⟨token, h⟩ := h
  cases hfind : hardcoded.find? fun token =>
      decide (primitives.toUppercase s = primitives.tokenSymbol token) with
  | none =>
    exact absurd (decide_eq_true h) (List.find?_eq_none.mp hfind token (mem_hardcoded token))
  | some token' =>
    have hfound := List.find?_some hfind
    refine ⟨token', of_decide_eq_true hfound, ?_⟩
    simp only [tryFromSymbol, hfind]
    rfl

theorem tryFromSymbol_of_not_token
    (h : ∀ token, primitives.toUppercase s ≠ primitives.tokenSymbol token) :
    tryFromSymbol primitives registries (fuel + 1) s =
      (fromLendTokenSymbol primitives registries fuel (primitives.toUppercase s)).map
        fun lendToken =>
          lendToken.elim
            (registries.assets.getForeignAssetBySymbol (primitives.toUppercase s)) .ok := by
  have hnone : hardcoded.find? (fun token =>
      decide (primitives.toUppercase s = primitives.tokenSymbol token)) = none :=
    List.find?_eq_none.mpr fun token _ hfound => h token (of_decide_eq_true hfound)
  simp only [tryFromSymbol, hnone]
  cases fromLendTokenSymbol primitives registries fuel (primitives.toUppercase s) with
  | none => rfl
  | some lendToken => cases lendToken <;> rfl

theorem fromLendTokenSymbol_eq_some {l : CurrencyId}
    (h : fromLendTokenSymbol primitives registries fuel s = some (some l)) :
    ∃ fuel' < fuel, ∃ rest u, primitives.toUppercase s = LEND_TOKEN_SYMBOL_PREFIX ++ rest ∧
      tryFromSymbol primitives registries fuel' rest = some (.ok u) ∧
      registries.lending.getLendTokenId u = .ok l := by
  cases fuel with
  | zero => cases h
  | succ fuel =>
    by_cases hprefixed : ∃ rest, primitives.toUppercase s = LEND_TOKEN_SYMBOL_PREFIX ++ rest
    · obtain ⟨rest, hrest⟩ := hprefixed
      rw [fromLendTokenSymbol_of_prefixed hrest] at h
      obtain ⟨result, hresult, h⟩ := Option.map_eq_some_iff.mp h
      obtain ⟨u, hu, hl⟩ := Option.bind_eq_some_iff.mp h
      rw [Library.Prog.ok_of_toOption hu] at hresult
      exact ⟨fuel, Nat.lt_succ_self fuel, rest, u, hrest, hresult, Library.Prog.ok_of_toOption hl⟩
    · rw [fromLendTokenSymbol_of_not_prefixed (not_exists.mp hprefixed)] at h
      cases h

/-- The three sources of a currency. -/
theorem tryFromSymbol_eq_ok (h : tryFromSymbol primitives registries fuel s = some (.ok c)) :
    (∃ token, primitives.toUppercase s = primitives.tokenSymbol token ∧ c = .token token) ∨
      (∃ fuel' < fuel,
        fromLendTokenSymbol primitives registries fuel' (primitives.toUppercase s) =
          some (some c)) ∨
      registries.assets.getForeignAssetBySymbol (primitives.toUppercase s) = .ok c := by
  cases fuel with
  | zero => cases h
  | succ fuel =>
    by_cases htoken : ∃ token, primitives.toUppercase s = primitives.tokenSymbol token
    · obtain ⟨token, htoken, hfound⟩ := tryFromSymbol_of_token registries fuel htoken
      rw [h] at hfound
      cases hfound
      exact Or.inl ⟨token, htoken, rfl⟩
    · rw [tryFromSymbol_of_not_token (not_exists.mp htoken)] at h
      obtain ⟨lendToken, hlend, hresult⟩ := Option.map_eq_some_iff.mp h
      cases lendToken with
      | none => exact Or.inr (Or.inr hresult)
      | some l =>
        cases hresult
        exact Or.inr (Or.inl ⟨fuel, Nat.lt_succ_self fuel, hlend⟩)

/-! ### The search ends -/

section Ends

variable (hupper : Uppercase primitives)

include hupper

/-- What is left of an uppercase symbol is uppercase. -/
theorem toUppercase_rest (h : primitives.toUppercase s = LEND_TOKEN_SYMBOL_PREFIX ++ rest) :
    primitives.toUppercase rest = rest := by
  have := hupper.idempotent s
  rw [h, hupper.append, hupper.lendToken] at this
  exact (String.append_right_inj _).mp this

/-- By induction on the length of the uppercase symbol, of which each round takes a letter off. -/
theorem isSome_tryFromSymbol {n : Nat} (hn : (primitives.toUppercase s).length = n)
    (hfuel : 2 * n + 2 ≤ fuel) : (tryFromSymbol primitives registries fuel s).isSome := by
  induction n using Nat.strong_induction_on generalizing s fuel with
  | _ n ih =>
    obtain ⟨fuel, rfl⟩ : ∃ k, fuel = k + 2 := ⟨fuel - 2, by omega⟩
    by_cases htoken : ∃ token, primitives.toUppercase s = primitives.tokenSymbol token
    · obtain ⟨token, -, hfound⟩ := tryFromSymbol_of_token registries (fuel + 1) htoken
      rw [hfound]
      rfl
    · rw [tryFromSymbol_of_not_token (not_exists.mp htoken), Option.isSome_map]
      by_cases hprefixed : ∃ rest, primitives.toUppercase s = LEND_TOKEN_SYMBOL_PREFIX ++ rest
      · obtain ⟨rest, hrest⟩ := hprefixed
        have hlength : n = 1 + rest.length := by
          rw [← hn, hrest, String.length_append]
          rfl
        rw [fromLendTokenSymbol_of_prefixed ((hupper.idempotent s).trans hrest), Option.isSome_map]
        exact ih rest.length (by omega) (by rw [toUppercase_rest hupper hrest]) (by omega)
      · rw [fromLendTokenSymbol_of_not_prefixed]
        · rfl
        · rw [hupper.idempotent]
          exact not_exists.mp hprefixed

theorem isSome_fromLendTokenSymbol (hfuel : 2 * (primitives.toUppercase s).length + 3 ≤ fuel) :
    (fromLendTokenSymbol primitives registries fuel s).isSome := by
  obtain ⟨fuel, rfl⟩ : ∃ k, fuel = k + 1 := ⟨fuel - 1, by omega⟩
  by_cases hprefixed : ∃ rest, primitives.toUppercase s = LEND_TOKEN_SYMBOL_PREFIX ++ rest
  · obtain ⟨rest, hrest⟩ := hprefixed
    rw [fromLendTokenSymbol_of_prefixed hrest, Option.isSome_map]
    refine isSome_tryFromSymbol hupper rfl ?_
    rw [hrest, String.length_append] at hfuel
    rw [toUppercase_rest hupper hrest]
    omega
  · rw [fromLendTokenSymbol_of_not_prefixed (not_exists.mp hprefixed)]
    rfl

end Ends

/-! ### Names -/

variable (primitives) in
/-- The names of the currencies: the symbol of a hard-coded currency, the one in the metadata of a
foreign asset, and for a lend token a name of its underlying currency after the prefix. -/
inductive Named (registries : Registries) : CurrencyId → String → Prop
  | token (token : TokenSymbol) : Named registries (.token token) (primitives.tokenSymbol token)
  | foreignAsset {i : Nat} {m : AssetMetadata} {s : String} :
      registries.assets.getAssetMetadataById i = .ok m → m.symbolText = .ok s →
        Named registries (.foreignAsset i) s
  | lendToken {u l : CurrencyId} {s : String} : registries.lending.getUnderlyingId l = .ok u →
      Named registries u s → Named registries l (LEND_TOKEN_SYMBOL_PREFIX ++ s)

theorem getSymbol_eq_ok_iff {i : Nat} :
    (do (← registries.assets.getAssetMetadataById i).symbolText : Except Error String) = .ok s ↔
      ∃ m, registries.assets.getAssetMetadataById i = .ok m ∧ m.symbolText = .ok s := by
  cases registries.assets.getAssetMetadataById i with
  | error e => simp [bind, Except.bind]
  | ok m => simp [bind, Except.bind]

theorem HasSymbol.named (h : registries.HasSymbol primitives c s) :
    Named primitives registries c s := by
  obtain ⟨fuel, h⟩ := h
  induction fuel generalizing c s with
  | zero =>
    cases c with
    | token token =>
      cases h
      exact .token token
    | foreignAsset i =>
      obtain ⟨m, hm, htext⟩ := getSymbol_eq_ok_iff.mp (Option.some.inj h)
      exact .foreignAsset hm htext
    | lendToken id => cases h
    | other code => cases h
  | succ fuel ih =>
    cases c with
    | token token =>
      cases h
      exact .token token
    | foreignAsset i =>
      obtain ⟨m, hm, htext⟩ := getSymbol_eq_ok_iff.mp (Option.some.inj h)
      exact .foreignAsset hm htext
    | lendToken id =>
      rw [symbol_lendToken_succ] at h
      cases hunderlying : registries.lending.getUnderlyingId (.lendToken id) with
      | error e =>
        rw [hunderlying] at h
        cases h
      | ok u =>
        simp only [hunderlying, Option.map_eq_some_iff] at h
        obtain ⟨result, hresult, hmap⟩ := h
        cases result with
        | error e => cases hmap
        | ok text =>
          cases hmap
          exact .lendToken hunderlying (ih hresult)
    | other code => cases h

/-! ### What is found -/

variable (primitives) in
/-- No two currencies have names that differ in their letter case alone. -/
def Distinct (registries : Registries) : Prop :=
  ∀ c c' s s', Named primitives registries c s → Named primitives registries c' s' →
    primitives.toUppercase s = primitives.toUppercase s' → c = c'

variable (primitives) in
/-- The registries agree, and some asset is found under each name that an asset has. -/
structure Complete (registries : Registries) : Prop where
  consistent : Consistent primitives registries
  found : ∀ i s, registries.assets.name primitives i = some s →
    ∃ j, registries.assets.found s = some j

/-- An asset is found unless its name is taken for another currency's. -/
theorem exists_tryFromSymbol_of_foreignAsset (hcomplete : Complete primitives registries) {i : Nat}
    {m : AssetMetadata} {name : String}
    (hm : registries.assets.getAssetMetadataById i = .ok m) (htext : m.symbolText = .ok name)
    (hs : primitives.toUppercase s = primitives.toUppercase name)
    (hends : (tryFromSymbol primitives registries (fuel + 1) s).isSome)
    (htoken : ∀ token, primitives.toUppercase s ≠ primitives.tokenSymbol token) :
    ∃ c, tryFromSymbol primitives registries (fuel + 1) s = some (.ok c) := by
  rw [tryFromSymbol_of_not_token htoken] at hends ⊢
  rw [Option.isSome_map] at hends
  obtain ⟨lendToken, hlend⟩ := Option.isSome_iff_exists.mp hends
  rw [hlend]
  cases lendToken with
  | some l => exact ⟨l, rfl⟩
  | none =>
    obtain ⟨j, hj⟩ := hcomplete.found i (primitives.toUppercase s)
      (AssetRegistry.name_eq_some_iff.mpr ⟨m, name, hm, htext, hs.symm⟩)
    exact ⟨.foreignAsset j, congrArg some (getForeignAssetBySymbol_eq_ok_iff.mpr hj)⟩

section Found

variable (hupper : Uppercase primitives)

include hupper

/-- What is found has a name that is the symbol, up to the case of the letters. -/
theorem named_of_tryFromSymbol (hcons : Consistent primitives registries)
    (h : tryFromSymbol primitives registries fuel s = some (.ok c)) :
    ∃ name, Named primitives registries c name ∧
      primitives.toUppercase name = primitives.toUppercase s := by
  induction fuel using Nat.strong_induction_on generalizing s c with
  | _ fuel ih =>
    rcases tryFromSymbol_eq_ok h with ⟨token, htoken, rfl⟩ | ⟨fuel', hlt, hlend⟩ | hforeign
    · exact ⟨_, .token token, by rw [hupper.token, htoken]⟩
    · obtain ⟨fuel'', hlt', rest, u, hrest, hu, hl⟩ := fromLendTokenSymbol_eq_some hlend
      obtain ⟨name, hnamed, hname⟩ := ih fuel'' (Nat.lt_trans hlt' hlt) hu
      refine ⟨_, .lendToken ((hcons.market u c).mp hl) hnamed, ?_⟩
      rw [hupper.idempotent] at hrest
      rw [hupper.append, hupper.lendToken, hname, toUppercase_rest hupper hrest, hrest]
    · obtain ⟨i, rfl⟩ : ∃ i, c = .foreignAsset i := by
        rw [AssetRegistry.getForeignAssetBySymbol] at hforeign
        split at hforeign
        · exact ⟨_, (Except.ok.inj hforeign).symm⟩
        · cases hforeign
      obtain ⟨m, text, hm, htext, hname⟩ := hcons.asset _ i hforeign
      exact ⟨text, .foreignAsset hm htext, hname⟩

theorem eq_of_tryFromSymbol (hcons : Consistent primitives registries)
    (hdistinct : Distinct primitives registries) {name : String} {c' : CurrencyId}
    (hnamed : Named primitives registries c name)
    (hs : primitives.toUppercase s = primitives.toUppercase name)
    (h : tryFromSymbol primitives registries fuel s = some (.ok c')) : c' = c := by
  obtain ⟨name', hnamed', hname'⟩ := named_of_tryFromSymbol hupper hcons h
  exact hdistinct c' c name' name hnamed' hnamed (hname'.trans hs)

/-- A currency with a name is found, by induction on how it is named. -/
theorem tryFromSymbol_of_named (hcomplete : Complete primitives registries)
    (hdistinct : Distinct primitives registries) {name : String}
    (hnamed : Named primitives registries c name)
    (hs : primitives.toUppercase s = primitives.toUppercase name)
    (hfuel : 2 * (primitives.toUppercase s).length + 2 ≤ fuel) :
    tryFromSymbol primitives registries fuel s = some (.ok c) := by
  have hcons := hcomplete.consistent
  suffices hok : ∃ c', tryFromSymbol primitives registries fuel s = some (.ok c') by
    obtain ⟨c', hc'⟩ := hok
    rw [hc', eq_of_tryFromSymbol hupper hcons hdistinct hnamed hs hc']
  induction hnamed generalizing s fuel with
  | token token =>
    obtain ⟨fuel, rfl⟩ : ∃ k, fuel = k + 1 := ⟨fuel - 1, by omega⟩
    obtain ⟨token', -, hfound⟩ := tryFromSymbol_of_token registries fuel
      ⟨token, hs.trans (hupper.token token)⟩
    exact ⟨_, hfound⟩
  | foreignAsset hm htext =>
    have hends : (tryFromSymbol primitives registries fuel s).isSome :=
      isSome_tryFromSymbol hupper rfl hfuel
    obtain ⟨fuel, rfl⟩ : ∃ k, fuel = k + 1 := ⟨fuel - 1, by omega⟩
    by_cases htoken : ∃ token, primitives.toUppercase s = primitives.tokenSymbol token
    · obtain ⟨token, -, hfound⟩ := tryFromSymbol_of_token registries fuel htoken
      exact ⟨_, hfound⟩
    · exact exists_tryFromSymbol_of_foreignAsset hcomplete hm htext hs hends
        (not_exists.mp htoken)
  | @lendToken u l name hunderlying hnamed ih =>
    obtain ⟨fuel, rfl⟩ : ∃ k, fuel = k + 2 := ⟨fuel - 2, by omega⟩
    have hprefixed : primitives.toUppercase s =
        LEND_TOKEN_SYMBOL_PREFIX ++ primitives.toUppercase name := by
      rw [hs, hupper.append, hupper.lendToken]
    by_cases htoken : ∃ token, primitives.toUppercase s = primitives.tokenSymbol token
    · obtain ⟨token, -, hfound⟩ := tryFromSymbol_of_token registries (fuel + 1) htoken
      exact ⟨_, hfound⟩
    · have hname := hupper.idempotent name
      have hlength :
          2 * (primitives.toUppercase (primitives.toUppercase name)).length + 2 ≤ fuel := by
        have hletter : LEND_TOKEN_SYMBOL_PREFIX.length = 1 := rfl
        rw [hprefixed, String.length_append, hletter] at hfuel
        rw [hname]
        omega
      obtain ⟨u', hu'⟩ := ih hname hlength
      have hu : u' = u := eq_of_tryFromSymbol hupper hcons hdistinct hnamed hname hu'
      subst hu
      refine ⟨l, ?_⟩
      rw [tryFromSymbol_of_not_token (not_exists.mp htoken),
        fromLendTokenSymbol_of_prefixed ((hupper.idempotent s).trans hprefixed), hu']
      simp only [Option.map_some, Except.toOption, Option.bind_some,
        (hcons.market u' l).mpr hunderlying]
      rfl

end Found

/-! ### Registries with every asset and every market inserted once -/

/-- The assets of an insertion. -/
def Insertion.assetIds : Insertion → List Nat
  | .asset foreignAssetId _ => [foreignAssetId]
  | .assets list => list.map Prod.fst
  | .lendToken _ _ | .lendTokens _ => []

/-- The markets of an insertion, each a currency and its lend token. -/
def Insertion.markets : Insertion → List (CurrencyId × CurrencyId)
  | .asset _ _ | .assets _ => []
  | .lendToken underlyingId lendTokenId => [(underlyingId, lendTokenId)]
  | .lendTokens list => list

structure OnceEach (insertions : List Insertion) : Prop where
  assets : (insertions.flatMap Insertion.assetIds).Nodup
  underlyings : ((insertions.flatMap Insertion.markets).map Prod.fst).Nodup
  lendTokens : ((insertions.flatMap Insertion.markets).map Prod.snd).Nodup

variable (primitives) in
/-- An asset registry that has seen no other assets than `ids`. -/
structure AssetsOf (registry : AssetRegistry) (ids : List Nat) : Prop where
  labelled : Library.Labelled registry.found (registry.name primitives)
  found : ∀ i s, registry.name primitives i = some s → ∃ j, registry.found s = some j
  mem : ∀ s i, registry.found s = some i → i ∈ ids

/-- A lending registry that has seen no other markets than `markets`. -/
structure MarketsOf (lending : LendingAssets)
    (markets : List (CurrencyId × CurrencyId)) : Prop where
  inverse : Library.Inverse lending.lendToken lending.underlying
  mem : ∀ u l, lending.lendToken u = some l → (u, l) ∈ markets

theorem AssetsOf.mono {registry : AssetRegistry} {ids ids' : List Nat}
    (h : AssetsOf primitives registry ids) (hsub : ids ⊆ ids') :
    AssetsOf primitives registry ids' :=
  { h with mem := fun s i hfound => hsub (h.mem s i hfound) }

theorem AssetsOf.innerInsert {registry registry' : AssetRegistry} {ids : List Nat} {i : Nat}
    {m : AssetMetadata} (h : AssetsOf primitives registry ids) (hnew : i ∉ ids)
    (hinsert : registry.innerInsert primitives i m = .ok registry') :
    AssetsOf primitives registry' (ids ++ [i]) := by
  cases hname : m.name primitives with
  | none =>
    obtain ⟨e, he⟩ := registry.innerInsert_of_name_eq_none i hname
    rw [he] at hinsert
    cases hinsert
  | some name =>
    obtain ⟨registry'', hok, hfound, hnames⟩ := registry.innerInsert_of_name_eq_some i hname
    rw [hok] at hinsert
    cases hinsert
    refine ⟨?_, fun j s hj => ?_, fun s j hj => ?_⟩
    · rw [hfound, hnames, h.labelled.update_iff]
      exact fun s hs => absurd (h.mem s i hs) hnew
    · rw [hnames] at hj
      rw [hfound]
      by_cases hs : s = name
      · exact ⟨i, by rw [hs, Function.update_self]⟩
      · rw [Function.update_of_ne hs]
        by_cases hji : j = i
        · rw [hji, Function.update_self] at hj
          exact absurd (Option.some.inj hj).symm hs
        · rw [Function.update_of_ne hji] at hj
          exact h.found j s hj
    · rw [hfound, Function.update_apply] at hj
      rw [List.mem_append, List.mem_singleton]
      split at hj
      · exact Or.inr (Option.some.inj hj).symm
      · exact Or.inl (h.mem s j hj)

theorem AssetsOf.extend {registry : AssetRegistry} {ids : List Nat}
    {assets : List (Nat × AssetMetadata)} (h : AssetsOf primitives registry ids)
    (hnodup : (ids ++ assets.map Prod.fst).Nodup) :
    AssetsOf primitives (registry.extend primitives assets).2 (ids ++ assets.map Prod.fst) := by
  induction assets generalizing registry ids with
  | nil => exact h.mono (List.subset_append_left _ _)
  | cons asset assets ih =>
    obtain ⟨i, m⟩ := asset
    rw [AssetRegistry.extend]
    cases hinsert : registry.innerInsert primitives i m with
    | error e => exact h.mono (List.subset_append_left _ _)
    | ok registry' =>
      have hnew : i ∉ ids := fun hmem => (List.nodup_append.mp hnodup).2.2 i hmem i (by simp) rfl
      have happend : ids ++ ((i, m) :: assets).map Prod.fst =
        (ids ++ [i]) ++ assets.map Prod.fst := by
        simp
      rw [happend] at hnodup ⊢
      exact ih (h.innerInsert hnew hinsert) hnodup

theorem MarketsOf.insert {lending : LendingAssets} {markets : List (CurrencyId × CurrencyId)}
    {u l : CurrencyId} (h : MarketsOf lending markets) (hu : u ∉ markets.map Prod.fst)
    (hl : l ∉ markets.map Prod.snd) : MarketsOf (lending.insert u l) (markets ++ [(u, l)]) where
  inverse := by
    rw [LendingAssets.lendToken_insert, LendingAssets.underlying_insert, h.inverse.update_iff]
    constructor
    · intro l' hl'
      exact absurd (List.mem_map_of_mem (h.mem u l' hl')) hu
    · intro u' hu'
      exact absurd (List.mem_map_of_mem (h.mem u' l ((h.inverse u' l).mpr hu'))) hl
  mem u' l' hfound := by
    rw [LendingAssets.lendToken_insert, Function.update_apply] at hfound
    split at hfound
    · subst u'
      simp [Option.some.inj hfound]
    · exact List.mem_append_left _ (h.mem u' l' hfound)

theorem MarketsOf.extend {lending : LendingAssets} {markets assets : List (CurrencyId × CurrencyId)}
    (h : MarketsOf lending markets) (hu : ((markets ++ assets).map Prod.fst).Nodup)
    (hl : ((markets ++ assets).map Prod.snd).Nodup) :
    MarketsOf (lending.extend assets) (markets ++ assets) := by
  induction assets generalizing lending markets with
  | nil => rwa [List.append_nil]
  | cons market assets ih =>
    obtain ⟨u, l⟩ := market
    have hnew := h.insert (u := u) (l := l)
      (fun hmem => by
        rw [List.map_append, List.nodup_append] at hu
        exact hu.2.2 u hmem u (by simp) rfl)
      (fun hmem => by
        rw [List.map_append, List.nodup_append] at hl
        exact hl.2.2 l hmem l (by simp) rfl)
    rw [List.append_cons] at hu hl ⊢
    exact ih hnew hu hl

variable (primitives) in
/-- The registries after insertions of these assets and markets. -/
structure BuiltFrom (registries : Registries) (ids : List Nat)
    (markets : List (CurrencyId × CurrencyId)) : Prop where
  assets : AssetsOf primitives registries.assets ids
  lending : MarketsOf registries.lending markets

theorem builtFrom_new : BuiltFrom primitives new [] [] where
  assets := ⟨Library.Labelled.empty _, fun i s h => by simp [new, AssetRegistry.name] at h,
    fun s i h => by simp [new, AssetRegistry.found] at h⟩
  lending := ⟨Library.Inverse.empty, fun u l h => by simp [new, LendingAssets.lendToken] at h⟩

theorem insert_asset (registries : Registries) (i : Nat) (m : AssetMetadata) :
    registries.insert primitives (.asset i m) =
      registries.insert primitives (.assets [(i, m)]) := by
  simp only [insert, AssetRegistry.extend]
  cases registries.assets.innerInsert primitives i m <;> rfl

theorem BuiltFrom.insert {ids : List Nat} {markets : List (CurrencyId × CurrencyId)}
    (h : BuiltFrom primitives registries ids markets) (insertion : Insertion)
    (hids : (ids ++ insertion.assetIds).Nodup)
    (hu : ((markets ++ insertion.markets).map Prod.fst).Nodup)
    (hl : ((markets ++ insertion.markets).map Prod.snd).Nodup) :
    BuiltFrom primitives (registries.insert primitives insertion) (ids ++ insertion.assetIds)
      (markets ++ insertion.markets) := by
  have hassets : ∀ list : List (Nat × AssetMetadata), (ids ++ list.map Prod.fst).Nodup →
      BuiltFrom primitives (registries.insert primitives (.assets list)) (ids ++ list.map Prod.fst)
        markets :=
    fun list hlist => ⟨h.assets.extend hlist, h.lending⟩
  cases insertion with
  | asset i m =>
    rw [insert_asset, Insertion.markets, List.append_nil]
    exact hassets [(i, m)] hids
  | assets list =>
    rw [Insertion.markets, List.append_nil]
    exact hassets list hids
  | lendToken u l =>
    rw [Insertion.assetIds, List.append_nil]
    have hlending : MarketsOf (registries.lending.extend [(u, l)]) (markets ++ [(u, l)]) :=
      h.lending.extend hu hl
    exact ⟨h.assets, hlending⟩
  | lendTokens list =>
    rw [Insertion.assetIds, List.append_nil]
    exact ⟨h.assets, h.lending.extend hu hl⟩

theorem BuiltFrom.foldl {insertions : List Insertion} {ids : List Nat}
    {markets : List (CurrencyId × CurrencyId)} (h : BuiltFrom primitives registries ids markets)
    (hids : (ids ++ insertions.flatMap Insertion.assetIds).Nodup)
    (hu : ((markets ++ insertions.flatMap Insertion.markets).map Prod.fst).Nodup)
    (hl : ((markets ++ insertions.flatMap Insertion.markets).map Prod.snd).Nodup) :
    BuiltFrom primitives (insertions.foldl (Registries.insert primitives) registries)
      (ids ++ insertions.flatMap Insertion.assetIds)
      (markets ++ insertions.flatMap Insertion.markets) := by
  induction insertions generalizing registries ids markets with
  | nil =>
    rw [List.flatMap_nil, List.flatMap_nil, List.append_nil, List.append_nil]
    exact h
  | cons insertion insertions ih =>
    rw [List.flatMap_cons, ← List.append_assoc] at hids hu hl ⊢
    rw [List.flatMap_cons, ← List.append_assoc]
    have hstep := h.insert insertion (List.nodup_append.mp hids).1
      (List.nodup_append.mp (List.map_append ▸ hu)).1
      (List.nodup_append.mp (List.map_append ▸ hl)).1
    exact ih hstep hids hu hl

theorem BuiltFrom.complete {ids : List Nat} {markets : List (CurrencyId × CurrencyId)}
    (h : BuiltFrom primitives registries ids markets) : Complete primitives registries where
  consistent := consistent_iff.mpr ⟨h.assets.labelled, h.lending.inverse⟩
  found := h.assets.found

theorem complete_after {insertions : List Insertion} (h : OnceEach insertions) :
    Complete primitives (after primitives insertions) :=
  (builtFrom_new.foldl (by simpa using h.assets) (by simpa using h.underlyings)
    (by simpa using h.lendTokens)).complete

/-- Registries with every asset and market inserted once, no two of whose currencies have one name
up to the case of the letters: a currency is found by its symbol, in any case.  The search ends for
every text, whatever the registries hold. -/
theorem tryFromSymbol_symbol (primitives : Primitives) (hupper : Uppercase primitives) :
    (∀ insertions, OnceEach insertions → Distinct primitives (after primitives insertions) →
      ∀ currency s, (after primitives insertions).HasSymbol primitives currency s →
        ∀ symbol, primitives.toUppercase symbol = primitives.toUppercase s →
          ∃ fuel, ∀ fuel' ≥ fuel,
            tryFromSymbol primitives (after primitives insertions) fuel' symbol =
              some (.ok currency)) ∧
    ∀ registries symbol, ∃ fuel, ∀ fuel' ≥ fuel,
      (tryFromSymbol primitives registries fuel' symbol).isSome ∧
        (fromLendTokenSymbol primitives registries fuel' symbol).isSome := by
  constructor
  · intro insertions honce hdistinct currency s hs symbol hsymbol
    exact ⟨_, fun fuel' hfuel =>
      tryFromSymbol_of_named hupper (complete_after honce) hdistinct hs.named hsymbol hfuel⟩
  · intro registries symbol
    exact ⟨_, fun fuel' hfuel => ⟨isSome_tryFromSymbol hupper rfl (Nat.le_of_succ_le hfuel),
      isSome_fromLendTokenSymbol hupper hfuel⟩⟩

/-! ### A lend token of a lend token -/

theorem toUpper_toUpper (c : Char) : c.toUpper.toUpper = c.toUpper := by
  by_cases hlower : 'a'.val ≤ c.val ∧ c.val ≤ 'z'.val
  · have hupper : c.toUpper = _ := dif_pos hlower
    have hval : c.toUpper.val = c.val + ('A'.val - 'a'.val) := by rw [hupper]
    refine dif_neg fun h => ?_
    rw [hval] at h
    simp [UInt32.le_iff_toNat_le] at h hlower
    omega
  · have hsame : c.toUpper = c := dif_neg hlower
    rw [hsame, hsame]

theorem uppercase_asciiPrimitives : Uppercase asciiPrimitives where
  append s t := String.toList_inj.mp (by simp [asciiPrimitives, String.toUpper, String.toList_map])
  idempotent s := String.toList_inj.mp (by
    simp only [asciiPrimitives, String.toUpper, String.toList_map, List.map_map,
      Function.comp_def, toUpper_toUpper])
  lendToken := by decide +kernel
  token token := by cases token <;> decide +kernel

/-- The asset 1 with the symbol `Ab`, its lend token 1, and the lend token 2 of that. -/
def nestedInsertions : List Insertion :=
  [.asset 1 ⟨[65, 98]⟩, .lendToken (.foreignAsset 1) (.lendToken 1),
    .lendToken (.lendToken 1) (.lendToken 2)]

/-- All their names, in uppercase. -/
def nestedNames : List (CurrencyId × String) :=
  hardcoded.map (fun token => (.token token, asciiPrimitives.tokenSymbol token)) ++
    [(.foreignAsset 1, "AB"), (.lendToken 1, "QAB"), (.lendToken 2, "QQAB")]

theorem mem_nestedNames {currency : CurrencyId} {s : String}
    (h : Named asciiPrimitives (after asciiPrimitives nestedInsertions) currency s) :
    (currency, asciiPrimitives.toUppercase s) ∈ nestedNames := by
  induction h with
  | token token => cases token <;> decide +kernel
  | @foreignAsset i m s hm htext =>
    have hlookup : (after asciiPrimitives nestedInsertions).assets.metadataLookup =
        (∅ : Std.TreeMap Nat AssetMetadata).insert 1 ⟨[65, 98]⟩ := rfl
    rw [getAssetMetadataById_eq_ok_iff, hlookup, Std.TreeMap.getElem?_insert] at hm
    split at hm
    · rename_i heq
      cases hm
      cases htext
      rw [← Std.LawfulEqCmp.eq_of_compare heq]
      decide +kernel
    · simp at hm
  | @lendToken u l s hunderlying _ ih =>
    have hlending : (after asciiPrimitives nestedInsertions).lending =
        (new.lending.insert (.foreignAsset 1) (.lendToken 1)).insert (.lendToken 1)
          (.lendToken 2) :=
      rfl
    have hnames : ∀ p ∈ nestedNames, (p.1 = .foreignAsset 1 → p.2 = "AB") ∧
        (p.1 = .lendToken 1 → p.2 = "QAB") := by decide +kernel
    have hupper := uppercase_asciiPrimitives
    rw [getUnderlyingId_eq_ok_iff, hlending, LendingAssets.underlying_insert,
      LendingAssets.underlying_insert, Function.update_apply, Function.update_apply] at hunderlying
    rw [hupper.append, hupper.lendToken]
    split at hunderlying
    · cases hunderlying
      subst l
      rw [show asciiPrimitives.toUppercase s = "QAB" from (hnames _ ih).2 rfl]
      decide +kernel
    · split at hunderlying
      · cases hunderlying
        subst l
        rw [show asciiPrimitives.toUppercase s = "AB" from (hnames _ ih).1 rfl]
        decide +kernel
      · simp [new, LendingAssets.underlying] at hunderlying

theorem distinct_nestedInsertions :
    Distinct asciiPrimitives (after asciiPrimitives nestedInsertions) := by
  have hnames : ∀ p ∈ nestedNames, ∀ q ∈ nestedNames, p.2 = q.2 → p.1 = q.1 := by decide +kernel
  intro c c' s s' hs hs' heq
  exact hnames _ (mem_nestedNames hs) _ (mem_nestedNames hs') heq

/-- The kernel compares the letters, not the strings. -/
theorem toUppercase_nested :
    asciiPrimitives.toUppercase "qQaB" = asciiPrimitives.toUppercase "QQAb" := by
  rw [← String.toList_inj]
  simp only [asciiPrimitives, String.toUpper, String.toList_map]
  decide +kernel

theorem tryFromSymbol_symbol_nested : ∃ fuel, ∀ fuel' ≥ fuel,
    tryFromSymbol asciiPrimitives (after asciiPrimitives nestedInsertions) fuel' "qQaB" =
      some (.ok (.lendToken 2)) :=
  (tryFromSymbol_symbol asciiPrimitives uppercase_asciiPrimitives).1 nestedInsertions
    ⟨by decide, by decide, by decide⟩ distinct_nestedInsertions (.lendToken 2) "QQAb" ⟨2, rfl⟩
    "qQaB" toUppercase_nested

end Registries

end InterBtcClients.Runtime.Assets
