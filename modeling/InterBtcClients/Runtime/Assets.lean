import InterBtcClients.Runtime.Types
import Mathlib.Data.Option.Defs

/-! The registries of the foreign assets and of the lend tokens that the client has found on the
parachain, and the symbols of the currencies that are read from them. -/

namespace InterBtcClients.Runtime.Assets

inductive Error
  | invalidCurrency
  | assetNotFound
  | tokenUnsupported
  deriving DecidableEq, Repr

/-- The symbol is UTF-8. -/
structure AssetMetadata where
  symbol : List UInt8
  deriving DecidableEq

def AssetMetadata.symbolText (assetMetadata : AssetMetadata) : Except Error String :=
  match String.fromUTF8? ⟨assetMetadata.symbol.toArray⟩ with
  | some symbol => .ok symbol
  | none => .error .invalidCurrency

deriving instance Ord for TokenSymbol, CurrencyId

structure AssetRegistry where
  symbolLookup : Std.TreeMap String Nat
  metadataLookup : Std.TreeMap Nat AssetMetadata

structure LendingAssets where
  underlyingToLendToken : Std.TreeMap CurrencyId CurrencyId
  lendTokenToUnderlying : Std.TreeMap CurrencyId CurrencyId

/-- What the registries use of other crates: the symbols of the hard-coded currencies, and the
uppercase form of a text. -/
structure Primitives where
  tokenSymbol : TokenSymbol → String
  toUppercase : String → String

/-- The currencies by their names, and the letters of ASCII. -/
def asciiPrimitives : Primitives where
  tokenSymbol
    | .DOT => "DOT" | .GGX => "GGX" | .GGXT => "GGXT" | .IBTC => "IBTC"
    | .INTR => "INTR" | .KBTC => "KBTC" | .KINT => "KINT" | .KSM => "KSM"
  toUppercase := String.toUpper

variable (primitives : Primitives)

def AssetRegistry.innerInsert (registry : AssetRegistry) (foreignAssetId : Nat)
    (assetMetadata : AssetMetadata) : Except Error AssetRegistry := do
  let assetName := primitives.toUppercase (← assetMetadata.symbolText)
  return {
    symbolLookup := registry.symbolLookup.insert assetName foreignAssetId
    metadataLookup := registry.metadataLookup.insert foreignAssetId assetMetadata }

/-- The registry after the loop, which the first asset without a symbol ends. -/
def AssetRegistry.extend (registry : AssetRegistry) :
    List (Nat × AssetMetadata) → Except Error Unit × AssetRegistry
  | [] => (.ok (), registry)
  | (foreignAssetId, assetMetadata) :: assets =>
    match registry.innerInsert primitives foreignAssetId assetMetadata with
    | .ok registry => AssetRegistry.extend registry assets
    | .error e => (.error e, registry)

def AssetRegistry.getForeignAssetBySymbol (registry : AssetRegistry) (symbol : String) :
    Except Error CurrencyId :=
  match registry.symbolLookup[symbol]? with
  | some foreignAssetId => .ok (.foreignAsset foreignAssetId)
  | none => .error .assetNotFound

def AssetRegistry.getAssetMetadataById (registry : AssetRegistry) (foreignAssetId : Nat) :
    Except Error AssetMetadata :=
  match registry.metadataLookup[foreignAssetId]? with
  | some assetMetadata => .ok assetMetadata
  | none => .error .assetNotFound

namespace LendingAssets

variable (lending : LendingAssets)

def insert (underlyingId lendTokenId : CurrencyId) : LendingAssets where
  underlyingToLendToken := lending.underlyingToLendToken.insert underlyingId lendTokenId
  lendTokenToUnderlying := lending.lendTokenToUnderlying.insert lendTokenId underlyingId

def extend (assets : List (CurrencyId × CurrencyId)) : LendingAssets :=
  assets.foldl (fun lending (underlyingId, lendTokenId) => lending.insert underlyingId lendTokenId)
    lending

def getLendTokenId (underlyingId : CurrencyId) : Except Error CurrencyId :=
  match lending.underlyingToLendToken[underlyingId]? with
  | some lendTokenId => .ok lendTokenId
  | none => .error .assetNotFound

def getUnderlyingId (lendTokenId : CurrencyId) : Except Error CurrencyId :=
  match lending.lendTokenToUnderlying[lendTokenId]? with
  | some underlyingId => .ok underlyingId
  | none => .error .assetNotFound

end LendingAssets

/-! ### The registries of a client -/

/-- The two global registries. -/
structure Registries where
  assets : AssetRegistry
  lending : LendingAssets

namespace Registries

def new : Registries := ⟨⟨∅, ∅⟩, ⟨∅, ∅⟩⟩

/-- The calls that change a registry. -/
inductive Insertion
  | asset (foreignAssetId : Nat) (assetMetadata : AssetMetadata)
  | assets (assets : List (Nat × AssetMetadata))
  | lendToken (underlyingId lendTokenId : CurrencyId)
  | lendTokens (assets : List (CurrencyId × CurrencyId))

/-- A foreign asset without a symbol is refused. -/
def insert (registries : Registries) : Insertion → Registries
  | .asset foreignAssetId assetMetadata =>
    match registries.assets.innerInsert primitives foreignAssetId assetMetadata with
    | .ok assets => { registries with assets }
    | .error _ => registries
  | .assets assets => { registries with assets := (registries.assets.extend primitives assets).2 }
  | .lendToken underlyingId lendTokenId =>
    { registries with lending := registries.lending.insert underlyingId lendTokenId }
  | .lendTokens assets => { registries with lending := registries.lending.extend assets }

/-- The registries after a list of insertions. -/
def after (insertions : List Insertion) : Registries := insertions.foldl (insert primitives) new

def LEND_TOKEN_SYMBOL_PREFIX : String := "Q"

/-- The symbol of a lend token is that of its underlying currency, which can be a lend token again:
`none` is a currency whose symbol is not found with `fuel` lookups. -/
def symbol (registries : Registries) : Nat → CurrencyId → ExceptT Error Option String
  | _, .token tokenSymbol => return primitives.tokenSymbol tokenSymbol
  | _, .foreignAsset foreignAssetId => ExceptT.mk (some do
    (← registries.assets.getAssetMetadataById foreignAssetId).symbolText)
  | 0, .lendToken _ => ExceptT.mk none
  | fuel + 1, .lendToken id => do
    let underlyingCurrency ←
      ExceptT.mk (some (registries.lending.getUnderlyingId (.lendToken id)))
    return LEND_TOKEN_SYMBOL_PREFIX ++ (← symbol registries fuel underlyingCurrency)
  | _, .other _ => throw .tokenUnsupported

/-- The currency has the symbol `s`. -/
def HasSymbol (registries : Registries) (currency : CurrencyId) (s : String) : Prop :=
  ∃ fuel, (registries.symbol primitives fuel currency).run = some (.ok s)

variable {primitives} {registries : Registries} {currency : CurrencyId} {s : String}

theorem symbol_lendToken_succ (fuel : Nat) (id : Nat) :
    (registries.symbol primitives (fuel + 1) (.lendToken id)).run =
      match registries.lending.getUnderlyingId (.lendToken id) with
      | .error e => some (.error e)
      | .ok underlyingCurrency =>
        (registries.symbol primitives fuel underlyingCurrency).run.map
          (·.map (LEND_TOKEN_SYMBOL_PREFIX ++ ·)) := by
  rw [symbol, ExceptT.run_bind]
  cases registries.lending.getUnderlyingId (.lendToken id) with
  | error e => rfl
  | ok underlying =>
    simp only [ExceptT.run_mk, Option.bind_eq_bind, Option.bind_some, ExceptT.run_bind]
    cases (registries.symbol primitives fuel underlying).run with
    | none => rfl
    | some found => cases found <;> rfl

/-- More fuel does not change what has been found. -/
theorem symbol_mono {found : Except Error String} {fuel fuel' : Nat} (hle : fuel ≤ fuel')
    (h : (registries.symbol primitives fuel currency).run = some found) :
    (registries.symbol primitives fuel' currency).run = some found := by
  induction fuel generalizing currency found fuel' with
  | zero =>
    cases currency with
    | lendToken id => cases h
    | _ =>
      rw [symbol] at h ⊢
      exact h
  | succ fuel ih =>
    obtain ⟨fuel', rfl⟩ : ∃ n, fuel' = n + 1 := ⟨fuel' - 1, by omega⟩
    cases currency with
    | lendToken id =>
      rw [symbol_lendToken_succ] at h ⊢
      cases hunderlying : registries.lending.getUnderlyingId (.lendToken id) with
      | error e =>
        rw [hunderlying] at h
        exact h
      | ok underlying =>
        rw [hunderlying] at h
        simp only [Option.map_eq_some_iff] at h ⊢
        obtain ⟨result, hresult, hfound⟩ := h
        exact ⟨result, ih (by omega) hresult, hfound⟩
    | _ =>
      rw [symbol] at h ⊢
      exact h

/-- A lookup with any fuel finds the symbol or runs out of fuel. -/
theorem HasSymbol.run_symbol (hs : registries.HasSymbol primitives currency s) (fuel : Nat) :
    (registries.symbol primitives fuel currency).run = none ∨
      (registries.symbol primitives fuel currency).run = some (.ok s) := by
  obtain ⟨fuel', hs⟩ := hs
  cases hrun : (registries.symbol primitives fuel currency).run with
  | none => exact Or.inl rfl
  | some found =>
    have hfound := symbol_mono (Nat.le_max_left fuel fuel') hrun
    have hs := symbol_mono (Nat.le_max_right fuel fuel') hs
    rw [hs] at hfound
    cases hfound
    exact Or.inr rfl

end Registries

end InterBtcClients.Runtime.Assets
