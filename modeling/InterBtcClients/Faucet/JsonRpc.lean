import InterBtcClients.Faucet.Http
import InterBtcClients.Library.Codec
import InterBtcClients.Library.Hex

/-! The parameters and the results of the faucet's methods, which are bytes in hex in a JSON string.
The decoder drops the first two bytes of the string without a look at them, and panics when the
string cannot be cut there. -/

namespace InterBtcClients.Faucet.JsonRpc

open Library InterBtcClients.Runtime

abbrev Bytes := List UInt8

/-! ### Values -/

inductive Value
  | null
  | bool (b : Bool)
  | number (text : String)
  | string (text : String)
  | array (elements : List Value)
  | object (fields : List (String × Value))

inductive Params
  | none
  | array (values : List Value)
  | map (fields : List (String × Value))

def Params.toValue : Params → Value
  | .none => .null
  | .array values => .array values
  | .map fields => .object fields

/-- The errors of reading a value; a type and a length come with what was expected. -/
inductive SerdeError
  | custom (message : String)
  | invalidType (unexpected : Value) (expected : String)
  | invalidLength (length : Nat) (expected : String)

inductive ErrorCode
  | invalidParams
  | internalError
  deriving DecidableEq, Repr

structure JsonRpcError where
  code : ErrorCode
  message : String
  data : Option Value

/-- The errors of `parseParams`. -/
inductive Error (D : Type)
  | codecError (e : D)
  | jsonRpcError (e : JsonRpcError)

/-- The hex digits of the `hex` crate, and the texts of the errors that are passed on. -/
structure Lib (H : Type) where
  encode : Bytes → String
  fromHex : String → Except H Bytes
  hexErrorText : H → String
  serdeErrorText : SerdeError → String

variable {H D A X : Type} (lib : Lib H)

/-! ### The decoder -/

def byteLength : List Char → Nat
  | [] => 0
  | c :: chars => c.utf8Size + byteLength chars

/-- What follows the first `n` bytes, unless they end inside a character or after the text. -/
def dropBytes : List Char → Nat → Option (List Char)
  | chars, 0 => some chars
  | [], _ + 1 => none
  | c :: chars, n + 1 => if c.utf8Size ≤ n + 1 then dropBytes chars (n + 1 - c.utf8Size) else none

/-- `&string[n..]`, where `none` is a panic. -/
def sliceFrom (string : String) (n : Nat) : Option String :=
  (dropBytes string.toList n).map String.ofList

/-- `String::deserialize`. -/
def deserializeString : Value → Except SerdeError String
  | .string text => .ok text
  | value => .error (.invalidType value "a string")

/-- The outcome `none` is a panic, here and in what calls it. -/
def hexToBuffer (value : Value) : ExceptT SerdeError Option Bytes := do
  let string ← ExceptT.mk (some (deserializeString value))
  let digits ← ExceptT.lift (sliceFrom string 2)
  ExceptT.mk
    (some (Except.mapError (fun err => .custom (lib.hexErrorText err)) (lib.fromHex digits)))

/-- An array of one element, which is read before the length is checked. -/
def deserializeOne (element : Value → ExceptT SerdeError Option A) :
    Value → ExceptT SerdeError Option A
  | .array [] => throw (.invalidLength 0 "an array of length 1")
  | .array (first :: rest) => do
    let a ← element first
    if rest.isEmpty then return a
    else throw (.invalidLength (rest.length + 1) "fewer elements in array")
  | value => throw (.invalidType value "an array of length 1")

def Params.parse (deserialize : Value → ExceptT SerdeError Option A) (params : Params) :
    ExceptT JsonRpcError Option A :=
  ExceptT.adapt
    (fun err => ⟨.invalidParams, "Invalid params: " ++ lib.serdeErrorText err ++ ".", .none⟩)
    (deserialize params.toValue)

/-- Bytes after the encoding of the request are ignored. -/
def parseParams (codec : Codec D A) (params : Params) : ExceptT (Error D) Option A := do
  let raw ← ExceptT.adapt .jsonRpcError (params.parse lib (deserializeOne (hexToBuffer lib)))
  ExceptT.adapt .codecError (ExceptT.mk (some (codec.read raw)))

/-! ### The encoder -/

/-- `text` is the text of an error. -/
def handleResp (text : X → String) (codec : Codec D A) : Except X A → Except JsonRpcError Value
  | .ok data => .ok (.string ("0x" ++ lib.encode (codec.encode data)))
  | .error err => .error ⟨.internalError, text err, none⟩

structure FundAccountJsonRpcRequest where
  accountId : AccountId
  currencyId : CurrencyId
  deriving DecidableEq, Repr

/-- The fields in order, each with its own encoding. -/
def FundAccountJsonRpcRequest.codec (accountId : Codec D AccountId)
    (currencyId : Codec D CurrencyId) : Codec D FundAccountJsonRpcRequest :=
  (accountId.pair currencyId).imap (fun p => ⟨p.1, p.2⟩) fun request =>
    (request.accountId, request.currencyId)

theorem FundAccountJsonRpcRequest.reads_codec {accountId : Codec D AccountId}
    {currencyId : Codec D CurrencyId} {request : FundAccountJsonRpcRequest}
    (haccount : accountId.Reads request.accountId)
    (hcurrency : currencyId.Reads request.currencyId) :
    (codec accountId currencyId).Reads request :=
  Codec.Reads.imap (b := request) (haccount.pair hcurrency) rfl

/-! ### Well-formed strings -/

/-- What the documentation of the crate promises of both cases of digits. -/
structure Lib.Documented (lib : Lib H) : Prop where
  fromHex_encode : ∀ bytes, lib.fromHex (lib.encode bytes) = .ok bytes
  fromHex_ok_iff : ∀ text, (∃ bytes, lib.fromHex text = .ok bytes) ↔ Hex.IsText text.toList

/-- The prefix 0x and an even number of hex digits. -/
def IsHex (string : String) : Prop :=
  ∃ digits, string.toList = '0' :: 'x' :: digits ∧ Hex.IsText digits

/-- `result` is not a panic, and no value unless `string` is well formed. -/
def OnlyHex (string : String) (result : ExceptT X Option A) : Prop :=
  (∃ outcome, result.run = some outcome) ∧ ∀ a, result.run = some (.ok a) → IsHex string

/-- The string has a prefix of two bytes, which is 0x if hex digits follow it. -/
def HasPrefix (string : String) : Prop :=
  ∃ start rest, string.toList = start ++ rest ∧ byteLength start = 2 ∧
    (Hex.IsText rest → start = ['0', 'x'])

theorem byteLength_eq_zero {chars : List Char} : byteLength chars = 0 ↔ chars = [] := by
  cases chars with
  | nil => simp [byteLength]
  | cons c chars =>
    have hc := Char.utf8Size_pos c
    simp only [byteLength, reduceCtorEq, iff_false]
    omega

theorem dropBytes_zero (chars : List Char) : dropBytes chars 0 = some chars := by
  cases chars <;> rfl

theorem dropBytes_eq_some_iff {chars rest : List Char} {n : Nat} :
    dropBytes chars n = some rest ↔ ∃ start, chars = start ++ rest ∧ byteLength start = n := by
  have hzero (chars : List Char) :
      dropBytes chars 0 = some rest ↔ ∃ start, chars = start ++ rest ∧ byteLength start = 0 := by
    simp [dropBytes_zero, byteLength_eq_zero]
  induction chars generalizing n with
  | nil =>
    cases n with
    | zero => exact hzero []
    | succ n => simp [dropBytes, byteLength]
  | cons c chars ih =>
    cases n with
    | zero => exact hzero (c :: chars)
    | succ n =>
      rw [dropBytes]
      constructor
      · intro h
        split at h
        next hle =>
          obtain ⟨start, rfl, hsize⟩ := ih.mp h
          refine ⟨c :: start, rfl, ?_⟩
          rw [byteLength, hsize]
          omega
        next => cases h
      · rintro ⟨start, hchars, hsize⟩
        cases start with
        | nil => cases hsize
        | cons d start =>
          obtain ⟨rfl, rfl⟩ := List.cons_eq_cons.mp hchars
          rw [byteLength] at hsize
          rw [if_pos (by omega)]
          exact ih.mpr ⟨start, rfl, by omega⟩

theorem sliceFrom_eq_some_iff {string digits : String} {n : Nat} :
    sliceFrom string n = some digits ↔
      ∃ start, string.toList = start ++ digits.toList ∧ byteLength start = n := by
  rw [sliceFrom, Option.map_eq_some_iff]
  constructor
  · rintro ⟨rest, hdrop, rfl⟩
    rw [String.toList_ofList]
    exact dropBytes_eq_some_iff.mp hdrop
  · intro h
    exact ⟨digits.toList, dropBytes_eq_some_iff.mpr h, String.ofList_toList⟩

theorem sliceFrom_zeroX (text : String) : sliceFrom ("0x" ++ text) 2 = some text :=
  sliceFrom_eq_some_iff.mpr ⟨['0', 'x'], String.toList_append, rfl⟩

theorem run_hexToBuffer_string (string : String) :
    (hexToBuffer lib (.string string)).run = (sliceFrom string 2).map fun digits =>
      Except.mapError (fun err => .custom (lib.hexErrorText err)) (lib.fromHex digits) := by
  show (ExceptT.lift (sliceFrom string 2) >>= fun digits => ExceptT.mk (some (Except.mapError
    (fun err => SerdeError.custom (lib.hexErrorText err)) (lib.fromHex digits)))).run = _
  cases sliceFrom string 2 <;> rfl

theorem run_hexToBuffer_eq_ok_iff {string : String} {bytes : Bytes} :
    (hexToBuffer lib (.string string)).run = some (.ok bytes) ↔
      ∃ digits, sliceFrom string 2 = some digits ∧ lib.fromHex digits = .ok bytes := by
  rw [run_hexToBuffer_string, Option.map_eq_some_iff]
  refine exists_congr fun digits => and_congr_right fun _ => ⟨Prog.mapError_eq_ok, fun h => ?_⟩
  rw [h]
  rfl

theorem parseParams_singleton (codec : Codec D A) (value : Value) :
    parseParams lib codec (.array [value]) =
      ExceptT.adapt .jsonRpcError (ExceptT.adapt
        (fun err => ⟨.invalidParams, "Invalid params: " ++ lib.serdeErrorText err ++ ".", none⟩)
        (hexToBuffer lib value)) >>= fun raw =>
          ExceptT.adapt .codecError (ExceptT.mk (some (codec.read raw))) := by
  have hone : deserializeOne (hexToBuffer lib) (.array [value]) = hexToBuffer lib value :=
    bind_pure (hexToBuffer lib value)
  rw [parseParams, Params.parse, Params.toValue, hone]

/-! ### What the decoder accepts -/

section OnlyHex

variable {Y B : Type} {string : String} {result : ExceptT X Option A}

theorem OnlyHex.adapt (h : OnlyHex string result) (f : X → Y) :
    OnlyHex string (ExceptT.adapt f result) := by
  obtain ⟨⟨outcome, houtcome⟩, hok⟩ := h
  have hadapt : (ExceptT.adapt f result).run = some (outcome.mapError f) := by
    show (result.run).map (Except.mapError f) = _
    rw [houtcome]
    rfl
  refine ⟨⟨_, hadapt⟩, fun a ha => ?_⟩
  cases outcome with
  | ok a' => exact hok a' houtcome
  | error e =>
    rw [hadapt] at ha
    cases ha

theorem OnlyHex.bind (h : OnlyHex string result) {next : A → ExceptT X Option B}
    (hnext : ∀ a, ∃ outcome, (next a).run = some outcome) : OnlyHex string (result >>= next) := by
  obtain ⟨⟨outcome, houtcome⟩, hok⟩ := h
  cases outcome with
  | ok a =>
    obtain ⟨outcome, hrun⟩ := hnext a
    have hbind : (result >>= next).run = some outcome := by
      rw [ExceptT.run_bind, houtcome]
      exact hrun
    exact ⟨⟨outcome, hbind⟩, fun _ _ => hok a houtcome⟩
  | error e =>
    have hbind : (result >>= next).run = some (.error e) := by
      rw [ExceptT.run_bind, houtcome]
      rfl
    refine ⟨⟨_, hbind⟩, fun b hb => ?_⟩
    rw [hbind] at hb
    cases hb

theorem onlyHex_parseParams (codec : Codec D A)
    (h : OnlyHex string (hexToBuffer lib (.string string))) :
    OnlyHex string (parseParams lib codec (.array [.string string])) := by
  rw [parseParams_singleton]
  exact ((h.adapt _).adapt _).bind fun raw => ⟨_, rfl⟩

variable {lib}

theorem onlyHex_hexToBuffer_iff (hlib : lib.Documented) :
    OnlyHex string (hexToBuffer lib (.string string)) ↔ HasPrefix string := by
  constructor
  · rintro ⟨⟨outcome, houtcome⟩, hok⟩
    rw [run_hexToBuffer_string] at houtcome
    obtain ⟨digits, hslice, -⟩ := Option.map_eq_some_iff.mp houtcome
    obtain ⟨start, hstring, hsize⟩ := sliceFrom_eq_some_iff.mp hslice
    refine ⟨start, digits.toList, hstring, hsize, fun htext => ?_⟩
    obtain ⟨bytes, hbytes⟩ := (hlib.fromHex_ok_iff digits).mpr htext
    obtain ⟨digits', hdigits', -⟩ :=
      hok bytes ((run_hexToBuffer_eq_ok_iff lib).mpr ⟨digits, hslice, hbytes⟩)
    -- the two bytes that are cut off are those of 0x
    have hprefix : sliceFrom string 2 = some (String.ofList digits') := by
      apply sliceFrom_eq_some_iff.mpr
      exact ⟨['0', 'x'], by rw [hdigits', String.toList_ofList]; rfl, rfl⟩
    have hrest : digits.toList = digits' := by
      rw [Option.some.inj (hslice.symm.trans hprefix), String.toList_ofList]
    rw [hrest] at hstring
    exact List.append_cancel_right (hstring.symm.trans hdigits')
  · rintro ⟨start, rest, hstring, hsize, hprefix⟩
    have hslice : sliceFrom string 2 = some (String.ofList rest) := by
      apply sliceFrom_eq_some_iff.mpr
      exact ⟨start, by rw [String.toList_ofList]; exact hstring, hsize⟩
    refine ⟨⟨_, by rw [run_hexToBuffer_string, hslice, Option.map_some]⟩, fun bytes hbytes => ?_⟩
    obtain ⟨digits, hdigits, hfrom⟩ := (run_hexToBuffer_eq_ok_iff lib).mp hbytes
    cases hslice.symm.trans hdigits
    have htext := (hlib.fromHex_ok_iff _).mp ⟨bytes, hfrom⟩
    rw [String.toList_ofList] at htext
    refine ⟨rest, ?_, htext⟩
    rw [hstring, hprefix htext]
    rfl

end OnlyHex

/-! ### What the encoder writes -/

variable {lib}

theorem hexToBuffer_encode (hlib : lib.Documented) (bytes : Bytes) :
    hexToBuffer lib (.string ("0x" ++ lib.encode bytes)) = pure bytes := by
  have hrun := run_hexToBuffer_string lib ("0x" ++ lib.encode bytes)
  rw [sliceFrom_zeroX, Option.map_some, hlib.fromHex_encode] at hrun
  exact hrun

theorem parseParams_encode (hlib : lib.Documented) {codec : Codec D A} {a : A} (h : codec.Reads a) :
    parseParams lib codec (.array [.string ("0x" ++ lib.encode (codec.encode a))]) = pure a := by
  rw [parseParams_singleton, hexToBuffer_encode hlib]
  show ExceptT.adapt Error.codecError (ExceptT.mk (some (codec.read (codec.encode a)))) = _
  rw [h.read_encode]
  rfl

end InterBtcClients.Faucet.JsonRpc
