import InterBtcClients.Bitcoin.Bytes
import InterBtcClients.Faucet.JsonRpc

/-! The vault as a client of the faucet, with its own copy of the decoder.  What either side
encodes, both decode; but a string is decoded without a panic, and only if it is well formed, just
when its first two bytes can be cut off and are 0x if hex digits follow. -/

namespace InterBtcClients.Vault.Faucet

open Library InterBtcClients.Runtime InterBtcClients.Faucet

open JsonRpc (Value Params SerdeError Lib sliceFrom deserializeString HasPrefix OnlyHex)

inductive RpcError (R : Type)
  | client (e : R)
  | parseError (returns : String) (e : SerdeError)

/-- The errors of the calls to the faucet. -/
inductive Error (R D : Type)
  | faucetAllowanceNotSet (key : String)
  | rpcError (e : RpcError R)
  | runtimeError (e : R)
  | codecError (e : D)

/-- What a method of the faucet answers to its parameters. -/
abbrev Client (R : Type) := String → Params → Except R Value

variable {H R D A X : Type} (lib : Lib H)

def hexToBuffer (value : Value) : ExceptT SerdeError Option JsonRpc.Bytes := do
  let string ← ExceptT.mk (some (deserializeString value))
  let digits ← ExceptT.lift (sliceFrom string 2)
  ExceptT.mk
    (some (Except.mapError (fun err => .custom (lib.hexErrorText err)) (lib.fromHex digits)))

structure FundAccountJsonRpcRequest where
  vaultAccountId : AccountId
  collateralCurrency : CurrencyId
  deriving DecidableEq, Repr

/-- The fields in order, each with its own encoding. -/
def FundAccountJsonRpcRequest.codec (accountId : Codec D AccountId)
    (currencyId : Codec D CurrencyId) : Codec D FundAccountJsonRpcRequest :=
  (accountId.pair currencyId).imap (fun p => ⟨p.1, p.2⟩) fun request =>
    (request.vaultAccountId, request.collateralCurrency)

theorem FundAccountJsonRpcRequest.reads_codec {accountId : Codec D AccountId}
    {currencyId : Codec D CurrencyId} {request : FundAccountJsonRpcRequest}
    (haccount : accountId.Reads request.vaultAccountId)
    (hcurrency : currencyId.Reads request.collateralCurrency) :
    (codec accountId currencyId).Reads request :=
  Codec.Reads.imap (b := request) (haccount.pair hcurrency) rfl

/-- A method is called, and its result is read. -/
def callMethod (client : Client R) (deserialize : Value → ExceptT SerdeError Option A)
    (method returns : String) (args : Params) : ExceptT (RpcError R) Option A := do
  let value ← ExceptT.adapt .client (ExceptT.mk (some (client method args)))
  ExceptT.adapt (.parseError returns) (deserialize value)

def getFaucetAllowance (client : Client R) (codec : Codec D Allowance)
    (symbol : CurrencyId → Except R String) (allowanceType : String) (vaultId : VaultId) :
    ExceptT (Error R D) Option Nat := do
  let rawAllowance ← ExceptT.adapt .rpcError
    (callMethod client (hexToBuffer lib) allowanceType "" .none)
  let allowances ← ExceptT.adapt .codecError (ExceptT.mk (some (codec.read rawAllowance)))
  let key ← ExceptT.adapt .runtimeError (ExceptT.mk (some (symbol vaultId.currencies.collateral)))
  ((allowances.find? (·.symbol = key)).map (·.amount)).elim
    (throw (.faucetAllowanceNotSet key)) pure

/-- The string that asks for the funding of a vault. -/
def fundingString (codec : Codec D FundAccountJsonRpcRequest) (vaultId : VaultId) : String :=
  "0x" ++ lib.encode (codec.encode ⟨vaultId.accountId, vaultId.currencies.collateral⟩)

def getFunding (client : Client R) (codec : Codec D FundAccountJsonRpcRequest) (vaultId : VaultId) :
    ExceptT (Error R D) Option Unit := do
  let _ ← ExceptT.adapt .rpcError (callMethod client pure "fund_account" ""
    (.array [.string (fundingString lib codec vaultId)]))
  return ()

/-! ### Decoding what the other side encodes -/

/-- No decoder panics on the string, or accepts it when it is not well formed. -/
def Decodes (codec : Codec D A) (string : String) : Prop :=
  OnlyHex string (JsonRpc.hexToBuffer lib (.string string)) ∧
    OnlyHex string (JsonRpc.parseParams lib codec (.array [.string string])) ∧
    OnlyHex string (hexToBuffer lib (.string string))

def FaucetReads (codec : Codec D A) (string : String) (a : A) : Prop :=
  JsonRpc.parseParams lib codec (.array [.string string]) = pure a

def VaultReads (codec : Codec D A) (string : String) (a : A) : Prop :=
  ∃ bytes, hexToBuffer lib (.string string) = pure bytes ∧ codec.read bytes = .ok a

variable {lib}

/-- The copy of the decoder is the faucet's. -/
theorem hexToBuffer_eq : hexToBuffer lib = JsonRpc.hexToBuffer lib := rfl

theorem decodes_iff_hasPrefix (hlib : lib.Documented) (codec : Codec D A) (string : String) :
    Decodes lib codec string ↔ HasPrefix string := by
  rw [Decodes, hexToBuffer_eq, ← JsonRpc.onlyHex_hexToBuffer_iff hlib]
  exact ⟨fun h => h.1, fun h => ⟨h, JsonRpc.onlyHex_parseParams lib codec h, h⟩⟩

theorem vaultReads_encode (hlib : lib.Documented) {codec : Codec D A} {a : A} (h : codec.Reads a) :
    VaultReads lib codec ("0x" ++ lib.encode (codec.encode a)) a := by
  refine ⟨codec.encode a, ?_, h.read_encode⟩
  rw [hexToBuffer_eq]
  exact JsonRpc.hexToBuffer_encode hlib _

/-- The request of the vault is the faucet's, in the same bytes. -/
theorem fundingString_eq (accountId : Codec D AccountId) (currencyId : Codec D CurrencyId)
    (vaultId : VaultId) :
    fundingString lib (FundAccountJsonRpcRequest.codec accountId currencyId) vaultId =
      "0x" ++ lib.encode ((JsonRpc.FundAccountJsonRpcRequest.codec accountId currencyId).encode
        ⟨vaultId.accountId, vaultId.currencies.collateral⟩) :=
  rfl

/-- The vault finds the amount in the answer of a faucet that has these allowances. -/
theorem getFaucetAllowance_of_handleResp (hlib : lib.Documented) {client : Client R}
    {codec : Codec D Allowance} {symbol : CurrencyId → Except R String} {allowanceType key : String}
    {vaultId : VaultId} {allowances : Allowance} {x : AllowanceAmount} {text : X → String}
    {answer : Value} (h : codec.Reads allowances)
    (hanswer : JsonRpc.handleResp lib text codec (.ok allowances) = .ok answer)
    (hclient : client allowanceType .none = .ok answer)
    (hkey : symbol vaultId.currencies.collateral = .ok key)
    (hfind : allowances.find? (·.symbol = key) = some x) :
    getFaucetAllowance lib client codec symbol allowanceType vaultId = pure x.amount := by
  cases hanswer
  have hbuffer : hexToBuffer lib (.string ("0x" ++ lib.encode (codec.encode allowances))) =
      pure (codec.encode allowances) := JsonRpc.hexToBuffer_encode hlib _
  have hcall : callMethod client (hexToBuffer lib) allowanceType "" .none =
      pure (codec.encode allowances) := by
    rw [callMethod, hclient]
    show ExceptT.adapt _ (hexToBuffer lib _) = _
    rw [hbuffer]
    rfl
  rw [getFaucetAllowance, hcall]
  show (ExceptT.adapt Error.codecError
    (ExceptT.mk (some (codec.read (codec.encode allowances)))) >>= _) = _
  rw [h.read_encode]
  show (ExceptT.adapt Error.runtimeError
    (ExceptT.mk (some (symbol vaultId.currencies.collateral))) >>= _) = _
  rw [hkey]
  show ((allowances.find? (·.symbol = key)).map (·.amount)).elim _ _ = _
  rw [hfind]
  rfl

theorem decodes_iff (hlib : lib.Documented) (codec : Codec D A) (accountId : Codec D AccountId)
    (currencyId : Codec D CurrencyId) :
    (∀ string, Decodes lib codec string ↔ HasPrefix string) ∧
    (∀ (text : X → String) (a : A), codec.Reads a →
      ∃ string, JsonRpc.handleResp lib text codec (.ok a) = .ok (.string string) ∧
        FaucetReads lib codec string a ∧ VaultReads lib codec string a) ∧
    ∀ vaultId : VaultId, accountId.Reads vaultId.accountId →
      currencyId.Reads vaultId.currencies.collateral →
      FaucetReads lib (JsonRpc.FundAccountJsonRpcRequest.codec accountId currencyId)
        (fundingString lib (FundAccountJsonRpcRequest.codec accountId currencyId) vaultId)
        ⟨vaultId.accountId, vaultId.currencies.collateral⟩ ∧
      VaultReads lib (FundAccountJsonRpcRequest.codec accountId currencyId)
        (fundingString lib (FundAccountJsonRpcRequest.codec accountId currencyId) vaultId)
        ⟨vaultId.accountId, vaultId.currencies.collateral⟩ := by
  refine ⟨decodes_iff_hasPrefix hlib codec, fun text a h => ?_,
    fun vaultId haccount hcurrency => ?_⟩
  · exact ⟨_, rfl, JsonRpc.parseParams_encode hlib h, vaultReads_encode hlib h⟩
  · constructor
    · rw [fundingString_eq]
      apply JsonRpc.parseParams_encode hlib
      exact JsonRpc.FundAccountJsonRpcRequest.reads_codec haccount hcurrency
    · apply vaultReads_encode hlib
      exact FundAccountJsonRpcRequest.reads_codec haccount hcurrency

/-! ### Concrete encodings -/

def hexLib : Lib String where
  encode bytes := String.ofList (Hex.encode bytes)
  fromHex text := (Hex.decode text.toList).elim (.error "Invalid string") .ok
  hexErrorText err := err
  serdeErrorText
    | .custom message => message
    | .invalidType _ expected => "invalid type, expected " ++ expected
    | .invalidLength _ expected => "invalid length, expected " ++ expected

theorem documented_hexLib : hexLib.Documented where
  fromHex_encode bytes := by
    show (Hex.decode (String.ofList (Hex.encode bytes)).toList).elim _ _ = _
    rw [String.toList_ofList, Hex.decode_encode]
    rfl
  fromHex_ok_iff text := by
    rw [← Hex.isSome_decode_iff]
    show (∃ bytes, (Hex.decode text.toList).elim _ _ = _) ↔ _
    cases Hex.decode text.toList with
    | none => simp
    | some bytes => simp

def accountCodec : Codec String AccountId where
  encode account := Bitcoin.toBytes 32 account.toNat
  decode bytes :=
    if 32 ≤ bytes.length then
      .ok (BitVec.ofNat 256 (Bitcoin.ofBytes (bytes.take 32)), bytes.drop 32)
    else .error "Not enough data to fill buffer"

theorem reads_accountCodec (account : AccountId) : accountCodec.Reads account := by
  intro rest
  have hlength := Bitcoin.length_toBytes 32 account.toNat
  have haccount : BitVec.ofNat 256 (Bitcoin.ofBytes (Bitcoin.toBytes 32 account.toNat)) = account :=
    Bitcoin.ofNat_ofBytes_toBytes 32 account
  simp only [accountCodec]
  rw [if_pos (by rw [List.length_append, hlength]; omega), List.take_left' hlength,
    List.drop_left' hlength, haccount]

/-- The currencies with a number: the index of the variant and four bytes, the least one first. -/
def currencyCodec : Codec String CurrencyId where
  encode
    | .foreignAsset id => 1 :: (Bitcoin.toBytes 4 id).reverse
    | .lendToken id => 2 :: (Bitcoin.toBytes 4 id).reverse
    | _ => []
  decode
    | 1 :: a :: b :: c :: d :: rest => .ok (.foreignAsset (Bitcoin.ofBytes [d, c, b, a]), rest)
    | 2 :: a :: b :: c :: d :: rest => .ok (.lendToken (Bitcoin.ofBytes [d, c, b, a]), rest)
    | _ => .error "Could not decode CurrencyId"

def foreignVault : VaultId := ⟨7, ⟨.foreignAsset 1, .token .KBTC⟩⟩

/-- The request to fund a vault, as the faucet reads it, and a string of hex digits. -/
theorem decodes_iff_foreignVault :
    FaucetReads hexLib (JsonRpc.FundAccountJsonRpcRequest.codec accountCodec currencyCodec)
      (fundingString hexLib (FundAccountJsonRpcRequest.codec accountCodec currencyCodec)
        foreignVault)
      ⟨7, .foreignAsset 1⟩ ∧
    Decodes hexLib accountCodec "0x2A" := by
  have h := decodes_iff (X := String) documented_hexLib accountCodec accountCodec currencyCodec
  refine ⟨(h.2.2 foreignVault (reads_accountCodec 7) fun _ => rfl).1, (h.1 "0x2A").mpr ?_⟩
  exact ⟨['0', 'x'], ['2', 'A'], rfl, rfl, fun _ => rfl⟩

/-- The decoders panic on a text that is too short, or that has a character across the cut, and
accept another prefix than 0x. -/
theorem not_decodes :
    ¬ Decodes hexLib accountCodec "0" ∧ ¬ Decodes hexLib accountCodec "€20" ∧
      ¬ Decodes hexLib accountCodec "zz2A" := by
  have hshort : (JsonRpc.hexToBuffer hexLib (.string "0")).run = none := rfl
  have hacross : (JsonRpc.hexToBuffer hexLib (.string "€20")).run = none := rfl
  have hother : (JsonRpc.hexToBuffer hexLib (.string "zz2A")).run = some (.ok [42]) := rfl
  refine ⟨?_, ?_, ?_⟩
  · rintro ⟨⟨⟨outcome, houtcome⟩, -⟩, -⟩
    rw [hshort] at houtcome
    cases houtcome
  · rintro ⟨⟨⟨outcome, houtcome⟩, -⟩, -⟩
    rw [hacross] at houtcome
    cases houtcome
  · rintro ⟨⟨-, hok⟩, -⟩
    obtain ⟨digits, hdigits, -⟩ := hok [42] hother
    have hz : 'z' = '0' := (List.cons_eq_cons.mp hdigits).1
    revert hz
    decide

end InterBtcClients.Vault.Faucet
