import InterBtcClients.Library.PartialInverse
import InterBtcClients.Library.Run
import InterBtcClients.Runtime.Assets
import Mathlib.Tactic.Linarith

/-! The registries as caches of what the parachain has registered, kept up to date by the listeners:
when the two maps of each still agree after an event. -/

namespace InterBtcClients.Runtime.Assets

open Library Std

/-! ### The order of the currencies -/

/-- The place of a currency in the derived order: its variant, then what it holds. -/
def orderKey : CurrencyId → Nat × Nat
  | .token symbol => (0, symbol.ctorIdx)
  | .foreignAsset id => (1, id)
  | .lendToken id => (2, id)
  | .other code => (3, code)

theorem compare_eq (a b : CurrencyId) :
    compare a b =
      compareLex (compareOn Prod.fst) (compareOn Prod.snd) (orderKey a) (orderKey b) := by
  cases a with
  | token s =>
    cases b with
    | token t => cases s <;> cases t <;> rfl
    | _ => rfl
  | foreignAsset id =>
    cases b with
    | foreignAsset id' => exact Ordering.then_eq
    | _ => rfl
  | lendToken id =>
    cases b with
    | lendToken id' => exact Ordering.then_eq
    | _ => rfl
  | other code =>
    cases b with
    | other code' => exact Ordering.then_eq
    | _ => rfl

theorem orderKey_injective : Function.Injective orderKey := by
  intro a b h
  cases a with
  | token s =>
    cases b with
    | token t =>
      revert h
      cases s <;> cases t <;> decide
    | _ => simp [orderKey] at h
  | _ => cases b <;> simp_all [orderKey]

instance : TransOrd CurrencyId where
  eq_swap {a b} := by
    rw [compare_eq, compare_eq b a]
    exact OrientedCmp.eq_swap
  isLE_trans {a b c} := by
    rw [compare_eq, compare_eq b, compare_eq a c]
    exact TransCmp.isLE_trans

instance : LawfulEqOrd CurrencyId where
  eq_of_compare {a b} h := by
    rw [compare_eq, compareLex_eq_eq] at h
    exact orderKey_injective (Prod.ext (LawfulEqOrd.eq_of_compare h.1)
      (LawfulEqOrd.eq_of_compare h.2))

/-! ### The maps of a registry -/

/-- The asset that is found under a name. -/
def AssetRegistry.found (registry : AssetRegistry) (s : String) : Option Nat :=
  registry.symbolLookup[s]?

def LendingAssets.lendToken (lending : LendingAssets) (underlyingId : CurrencyId) :
    Option CurrencyId :=
  lending.underlyingToLendToken[underlyingId]?

def LendingAssets.underlying (lending : LendingAssets) (lendTokenId : CurrencyId) :
    Option CurrencyId :=
  lending.lendTokenToUnderlying[lendTokenId]?

theorem getForeignAssetBySymbol_eq_ok_iff {registry : AssetRegistry} {s : String} {i : Nat} :
    registry.getForeignAssetBySymbol s = .ok (.foreignAsset i) ↔ registry.found s = some i := by
  rw [AssetRegistry.getForeignAssetBySymbol, AssetRegistry.found]
  cases registry.symbolLookup[s]? <;> simp

theorem getAssetMetadataById_eq_ok_iff {registry : AssetRegistry} {i : Nat} {m : AssetMetadata} :
    registry.getAssetMetadataById i = .ok m ↔ registry.metadataLookup[i]? = some m := by
  rw [AssetRegistry.getAssetMetadataById]
  cases registry.metadataLookup[i]? <;> simp

theorem getLendTokenId_eq_ok_iff {lending : LendingAssets} {u l : CurrencyId} :
    lending.getLendTokenId u = .ok l ↔ lending.lendToken u = some l := by
  rw [LendingAssets.getLendTokenId, LendingAssets.lendToken]
  cases lending.underlyingToLendToken[u]? <;> simp

theorem getUnderlyingId_eq_ok_iff {lending : LendingAssets} {u l : CurrencyId} :
    lending.getUnderlyingId l = .ok u ↔ lending.underlying l = some u := by
  rw [LendingAssets.getUnderlyingId, LendingAssets.underlying]
  cases lending.lendTokenToUnderlying[l]? <;> simp

variable (primitives : Primitives)

/-- The symbol of the metadata, as the registry is searched for it. -/
def AssetMetadata.name (assetMetadata : AssetMetadata) : Option String :=
  (assetMetadata.symbolText.toOption).map primitives.toUppercase

/-- The name of the asset by its current metadata. -/
def AssetRegistry.name (registry : AssetRegistry) (foreignAssetId : Nat) : Option String :=
  registry.metadataLookup[foreignAssetId]?.bind (·.name primitives)

variable {primitives} {registry : AssetRegistry} {i : Nat} {m : AssetMetadata} {s : String}

theorem AssetMetadata.name_eq_some_iff :
    m.name primitives = some s ↔
      ∃ text, m.symbolText = .ok text ∧ primitives.toUppercase text = s := by
  rw [name]
  cases m.symbolText <;> simp [Except.toOption]

theorem AssetRegistry.name_eq_some_iff :
    registry.name primitives i = some s ↔ ∃ m text, registry.getAssetMetadataById i = .ok m ∧
      m.symbolText = .ok text ∧ primitives.toUppercase text = s := by
  simp only [name, Option.bind_eq_some_iff, AssetMetadata.name_eq_some_iff,
    getAssetMetadataById_eq_ok_iff, exists_and_left]

/-! ### What an insertion changes -/

theorem getElem?_insert_eq_update {K V : Type} [Ord K] [TransOrd K] [LawfulEqOrd K] [DecidableEq K]
    (map : TreeMap K V) (k : K) (v : V) :
    (fun k' => (map.insert k v)[k']?) = Function.update (fun k' => map[k']?) k (some v) := by
  funext k'
  simp only [TreeMap.getElem?_insert, LawfulEqCmp.compare_eq_iff_eq, Function.update_apply,
    eq_comm (a := k)]

theorem LendingAssets.lendToken_insert (lending : LendingAssets) (u l : CurrencyId) :
    (lending.insert u l).lendToken = Function.update lending.lendToken u (some l) :=
  getElem?_insert_eq_update lending.underlyingToLendToken u l

theorem LendingAssets.underlying_insert (lending : LendingAssets) (u l : CurrencyId) :
    (lending.insert u l).underlying = Function.update lending.underlying l (some u) :=
  getElem?_insert_eq_update lending.lendTokenToUnderlying l u

theorem AssetRegistry.innerInsert_of_name_eq_none (registry : AssetRegistry) (i : Nat)
    (h : m.name primitives = none) : ∃ e, registry.innerInsert primitives i m = .error e := by
  rw [AssetMetadata.name] at h
  rw [innerInsert]
  cases htext : m.symbolText with
  | error e => exact ⟨e, rfl⟩
  | ok text => simp [htext, Except.toOption] at h

/-- Metadata with a symbol gives the asset a name and makes it the one that is found under it. -/
theorem AssetRegistry.innerInsert_of_name_eq_some (registry : AssetRegistry) (i : Nat)
    (h : m.name primitives = some s) :
    ∃ registry', registry.innerInsert primitives i m = .ok registry' ∧
      registry'.found = Function.update registry.found s (some i) ∧
      registry'.name primitives = Function.update (registry.name primitives) i (some s) := by
  obtain ⟨text, htext, rfl⟩ := AssetMetadata.name_eq_some_iff.mp h
  refine ⟨⟨registry.symbolLookup.insert (primitives.toUppercase text) i,
    registry.metadataLookup.insert i m⟩, by rw [innerInsert, htext]; rfl, ?_, ?_⟩
  · exact getElem?_insert_eq_update registry.symbolLookup _ i
  · funext j
    have hmetadata := congrFun (getElem?_insert_eq_update registry.metadataLookup i m) j
    simp only [AssetRegistry.name, hmetadata, Function.update_apply]
    split
    · exact h
    · rfl

/-! ### Consistent registries -/

variable (primitives) in
/-- An asset that is found has the symbol by its current metadata, and a currency and its lend token
find each other. -/
structure Consistent (registries : Registries) : Prop where
  asset : ∀ s i, registries.assets.getForeignAssetBySymbol s = .ok (.foreignAsset i) →
    ∃ m text, registries.assets.getAssetMetadataById i = .ok m ∧ m.symbolText = .ok text ∧
      primitives.toUppercase text = s
  market : ∀ u l, registries.lending.getLendTokenId u = .ok l ↔
    registries.lending.getUnderlyingId l = .ok u

theorem consistent_iff {registries : Registries} :
    Consistent primitives registries ↔
      Labelled registries.assets.found (registries.assets.name primitives) ∧
      Inverse registries.lending.lendToken registries.lending.underlying := by
  constructor
  · intro h
    refine ⟨fun s i hfound => ?_, fun u l => ?_⟩
    · exact AssetRegistry.name_eq_some_iff.mpr
        (h.asset s i (getForeignAssetBySymbol_eq_ok_iff.mpr hfound))
    · rw [← getLendTokenId_eq_ok_iff, ← getUnderlyingId_eq_ok_iff]
      exact h.market u l
  · rintro ⟨hasset, hmarket⟩
    refine ⟨fun s i hfound => ?_, fun u l => ?_⟩
    · exact AssetRegistry.name_eq_some_iff.mp
        (hasset s i (getForeignAssetBySymbol_eq_ok_iff.mp hfound))
    · rw [getLendTokenId_eq_ok_iff, getUnderlyingId_eq_ok_iff]
      exact hmarket u l

theorem consistent_new : Consistent primitives Registries.new :=
  consistent_iff.mpr ⟨fun s i h => by simp [Registries.new, AssetRegistry.found] at h,
    fun u l => by simp [Registries.new, LendingAssets.lendToken, LendingAssets.underlying]⟩

variable {registries : Registries}

/-- An asset keeps the registries consistent when it is not found under any name but its new one. -/
theorem consistent_insert_asset_iff (h : Consistent primitives registries) (i : Nat)
    (m : AssetMetadata) :
    Consistent primitives (registries.insert primitives (.asset i m)) ↔
      ∀ text, m.symbolText = .ok text → ∀ s,
        registries.assets.getForeignAssetBySymbol s = .ok (.foreignAsset i) →
          s = primitives.toUppercase text := by
  cases hname : m.name primitives with
  | none =>
    obtain ⟨e, he⟩ := registries.assets.innerInsert_of_name_eq_none i hname
    simp only [Registries.insert, he]
    refine iff_of_true h fun text htext => ?_
    rw [AssetMetadata.name, htext] at hname
    cases hname
  | some name =>
    obtain ⟨assets, hassets, hfound, hnames⟩ :=
      registries.assets.innerInsert_of_name_eq_some i hname
    obtain ⟨text, htext, rfl⟩ := AssetMetadata.name_eq_some_iff.mp hname
    obtain ⟨hlabelled, hinverse⟩ := consistent_iff.mp h
    simp only [Registries.insert, hassets, consistent_iff, hfound, hnames, hlabelled.update_iff,
      hinverse, and_true, htext, Except.ok.injEq, forall_eq', getForeignAssetBySymbol_eq_ok_iff]

/-- A market keeps them consistent when neither of its currencies is in another pair. -/
theorem consistent_insert_lendToken_iff (h : Consistent primitives registries) (u l : CurrencyId) :
    Consistent primitives (registries.insert primitives (.lendToken u l)) ↔
      (∀ l', registries.lending.getLendTokenId u = .ok l' → l' = l) ∧
      ∀ u', registries.lending.getUnderlyingId l = .ok u' → u' = u := by
  obtain ⟨hlabelled, hinverse⟩ := consistent_iff.mp h
  simp only [Registries.insert, consistent_iff, LendingAssets.lendToken_insert,
    LendingAssets.underlying_insert, hinverse.update_iff, hlabelled, true_and,
    getLendTokenId_eq_ok_iff, getUnderlyingId_eq_ok_iff]

/-! ### Events -/

inductive Event
  | registeredAsset (assetId : Nat) (metadata : AssetMetadata)
  | updatedAsset (assetId : Nat) (metadata : AssetMetadata)
  | newMarket (underlyingCurrencyId lendTokenId : CurrencyId)
  | updatedMarket (underlyingCurrencyId lendTokenId : CurrencyId)

/-- What `listen_for_registered_assets` and `listen_for_lending_markets` do with an event: an
insertion that fails is logged. -/
def Event.insertion : Event → Registries.Insertion
  | registeredAsset assetId metadata | updatedAsset assetId metadata => .asset assetId metadata
  | newMarket underlyingCurrencyId lendTokenId | updatedMarket underlyingCurrencyId lendTokenId =>
    .lendToken underlyingCurrencyId lendTokenId

def handle (primitives : Primitives) (registries : Registries) (event : Event) : Registries :=
  registries.insert primitives event.insertion

/-- The asset of the event is found under no name that its new metadata does not give it, and the
currencies of the market are in no other pair. -/
def Agrees (primitives : Primitives) (registries : Registries) : Event → Prop
  | .registeredAsset i m | .updatedAsset i m =>
    ∀ text, m.symbolText = .ok text → ∀ s,
      registries.assets.getForeignAssetBySymbol s = .ok (.foreignAsset i) →
        s = primitives.toUppercase text
  | .newMarket u l | .updatedMarket u l =>
    (∀ l', registries.lending.getLendTokenId u = .ok l' → l' = l) ∧
      ∀ u', registries.lending.getUnderlyingId l = .ok u' → u' = u

theorem consistent_handle_iff (h : Consistent primitives registries) (event : Event) :
    Consistent primitives (handle primitives registries event) ↔
      Agrees primitives registries event := by
  cases event with
  | registeredAsset i m => exact consistent_insert_asset_iff h i m
  | updatedAsset i m => exact consistent_insert_asset_iff h i m
  | newMarket u l => exact consistent_insert_lendToken_iff h u l
  | updatedMarket u l => exact consistent_insert_lendToken_iff h u l

/-- The registries stay consistent throughout a run exactly when every event agrees with what they
hold: one that renames an asset or gives a market another lend token leaves the old entry behind. -/
theorem always_consistent_iff (primitives : Primitives) (events : List Event) :
    Run.Always (handle primitives) (Consistent primitives) Registries.new events ↔
      Run.Along (handle primitives) (Agrees primitives) Registries.new events :=
  Run.always_iff_along (fun _ event h => consistent_handle_iff h event) consistent_new

/-- The asset 1 is still found under `AB` after it has become `AC`, and the first of two lend tokens
still has the underlying currency of the second. -/
theorem not_always_consistent :
    ¬Run.Always (handle asciiPrimitives) (Consistent asciiPrimitives) Registries.new
        [.registeredAsset 1 ⟨[65, 66]⟩, .updatedAsset 1 ⟨[65, 67]⟩] ∧
    ¬Run.Always (handle asciiPrimitives) (Consistent asciiPrimitives) Registries.new
        [.newMarket (.token .DOT) (.lendToken 1), .updatedMarket (.token .DOT) (.lendToken 2)] := by
  refine ⟨fun h => ?_, fun h => ?_⟩
  · obtain ⟨m, text, hmetadata, htext, hname⟩ := h.last.asset "AB" 1 (by decide +kernel)
    have hm : m = ⟨[65, 67]⟩ := Except.ok.inj hmetadata.symm
    subst hm
    cases htext
    exact absurd hname (by decide +kernel)
  · have hmarket := (h.last.market (.token .DOT) (.lendToken 1)).mpr rfl
    cases hmarket

end InterBtcClients.Runtime.Assets
