import InterBtcClients.Bitcoin.Bytes

/-! The bitcoin library on a regtest network whose secret keys are 1, 2 and 3: its scripts, the
serialised form of its transactions and their weight are those of the network, and the hashes that
cannot be computed here are looked up. -/

namespace InterBtcClients.Bitcoin

open InterBtcClients.Runtime

def groupOrder : Nat := 0xFFFFFFFFFFFFFFFFFFFFFFFFFFFFFFFEBAAEDCE6AF48A03BBFD25E8CD0364141

structure KnownKey where
  secretKey : SecretKey
  publicKey : Nat
  hash : Nat
  address : String

/-- The secret keys 1, 2 and 3, with their public keys and the addresses of these. -/
def knownKeys : List KnownKey :=
  [⟨1, 0x0279be667ef9dcbbac55a06295ce870b07029bfcdb2dce28d959f2815b16f81798,
      0x751e76e8199196d454941c45d1b3a323f1433bd6, "bcrt1qw508d6qejxtdg4y5r3zarvary0c5xw7kygt080"⟩,
    ⟨2, 0x02c6047f9441ed7d6d3045406e95c07cd85c778e4b8cef3ca7abac09b95c709ee5,
      0x06afd46bcdfd22ef94ac122aa11f241244a37ecc, "bcrt1qq6hag67dl53wl99vzg42z8eyzfz2xlkvwk6f7m"⟩,
    ⟨3, 0x02f9308a019258c31049344f85f89d5229b531c845836f99b08601f113bce036f9,
      0x7dd65592d0ab2fe0d0257d571abf032cd9db93dc, "bcrt1q0ht9tyks4vh7p5p904t340cr9nvahy7uevmqwj"⟩]

def regtestAddress (hash : Nat) : Address := ⟨.witnessProgram 0 (toBytes 20 hash), .regtest⟩

def witnessScript (program : List UInt8) : Script := 0 :: program.length.toUInt8 :: program

/-- The payloads of the standard scripts. -/
def readScript : Script → Except String Payload
  | 0x76 :: 0xA9 :: 20 :: rest =>
    if rest.length = 22 ∧ rest.drop 20 = [0x88, 0xAC] then
      .ok (.pubkeyHash (.ofNat 160 (ofBytes (rest.take 20))))
    else .error "unknown script"
  | 0xA9 :: 20 :: rest =>
    if rest.length = 21 ∧ rest.drop 20 = [0x87] then
      .ok (.scriptHash (.ofNat 160 (ofBytes (rest.take 20))))
    else .error "unknown script"
  | 0 :: length :: program =>
    if program.length = length.toNat ∧ (length = 20 ∨ length = 32) then
      .ok (.witnessProgram 0 program)
    else .error "unknown script"
  | _ => .error "unknown script"

theorem readScript_p2pkh (hash : H160) :
    readScript ([0x76, 0xA9, 20] ++ toBytes 20 hash.toNat ++ [0x88, 0xAC]) =
      .ok (.pubkeyHash hash) := by
  have hlength := length_toBytes 20 hash.toNat
  have hhash := ofNat_ofBytes_toBytes 20 hash
  simp only [List.cons_append, List.nil_append, readScript]
  rw [if_pos ⟨by rw [List.length_append, hlength]; rfl, List.drop_left' hlength⟩,
    List.take_left' hlength, hhash]

theorem readScript_p2sh (hash : H160) :
    readScript ([0xA9, 20] ++ toBytes 20 hash.toNat ++ [0x87]) = .ok (.scriptHash hash) := by
  have hlength := length_toBytes 20 hash.toNat
  have hhash := ofNat_ofBytes_toBytes 20 hash
  simp only [List.cons_append, List.nil_append, readScript]
  rw [if_pos ⟨by rw [List.length_append, hlength]; rfl, List.drop_left' hlength⟩,
    List.take_left' hlength, hhash]

theorem readScript_witnessScript (program : List UInt8)
    (hlength : program.length = 20 ∨ program.length = 32) :
    readScript (witnessScript program) = .ok (.witnessProgram 0 program) := by
  rcases hlength with hlength | hlength
  · simp [witnessScript, readScript, hlength]
  · simp [witnessScript, readScript, hlength]

def readWitnessProgram (script : Script) : Option (List UInt8) :=
  match readScript script with
  | .ok (.witnessProgram _ program) => some program
  | _ => none

def varIntLen (n : UInt64) : UInt64 :=
  if n < 0xFD then 1 else if n ≤ 0xFFFF then 3 else if n ≤ 0xFFFFFFFF then 5 else 9

/-- The serialised form of a transaction with fewer than 253 inputs and outputs, of short scripts.
-/
def serialize (tx : Transaction) : List UInt8 :=
  let littleEndian (length value : Nat) := (toBytes length value).reverse
  let bytes (elem : List UInt8) := elem.length.toUInt8 :: elem
  let counted (elems : List (List UInt8)) := elems.length.toUInt8 :: elems.flatten
  littleEndian 4 tx.version.toNat ++ [0, 1] ++
    counted (tx.input.map fun txin =>
      littleEndian 32 txin.previousOutput.txid.toNat ++
        littleEndian 4 txin.previousOutput.vout.toNat ++ bytes txin.scriptSig ++
        littleEndian 4 txin.sequence.toNat) ++
    counted (tx.output.map fun txOut =>
      littleEndian 8 txOut.value.toNat ++ bytes txOut.scriptPubkey) ++
    (tx.input.flatMap fun txin => counted (txin.witness.map bytes)) ++
    littleEndian 4 tx.lockTime.toNat

/-- The library on the transactions of these keys, each with one input: `signed` are the unsigned
ones with their hashes and signatures and `sent` the signed ones with their ids. -/
def threeKeys (signed : List (Transaction × H256 × List UInt8)) (sent : List (Txid × Transaction)) :
    Lib String where
  secretKeyFromSlice bytes :=
    if bytes.length = 32 ∧ 0 < ofBytes bytes ∧ ofBytes bytes < groupOrder then
      .ok (.ofNat 256 (ofBytes bytes))
    else .error "malformed secret key"
  mulTweak a b := .ok (.ofNat 256 (a.toNat * b.toNat % groupOrder))
  publicKey key :=
    toBytes 33 ((knownKeys.find? (KnownKey.secretKey · = key.inner)).elim 0 KnownKey.publicKey)
  p2wpkh publicKey network :=
    match knownKeys.find? fun key => toBytes 33 key.publicKey = publicKey with
    | some key => .ok { regtestAddress key.hash with network }
    | none => .error "unknown key"
  addressFromScript script network := do
    return ⟨← readScript script, network⟩
  payloadFromScript := readScript
  newP2pkh hash := [0x76, 0xA9, 20] ++ toBytes 20 hash.toNat ++ [0x88, 0xAC]
  newP2sh hash := [0xA9, 20] ++ toBytes 20 hash.toNat ++ [0x87]
  newV0P2wpkh hash := witnessScript (toBytes 20 hash.toNat)
  newV0P2wsh hash := witnessScript (toBytes 32 hash.toNat)
  scriptPubkey address :=
    match address.payload with
    | .pubkeyHash hash => [0x76, 0xA9, 20] ++ toBytes 20 hash.toNat ++ [0x88, 0xAC]
    | .scriptHash hash => [0xA9, 20] ++ toBytes 20 hash.toNat ++ [0x87]
    | .witnessProgram _ program => witnessScript program
  addressString address :=
    (knownKeys.find? fun key => regtestAddress key.hash = address).elim "" KnownKey.address
  isWitnessProgram script := (readWitnessProgram script).isSome
  p2wpkhScriptCode script := (readWitnessProgram script).map fun program =>
    [0x76, 0xA9, 20] ++ program ++ [0x88, 0xAC]
  varIntLen
  weight tx :=
    let size (bytes : List UInt8) := varIntLen bytes.length.toUInt64 + bytes.length.toUInt64
    let inputs := (tx.input.map fun txin => 32 + 4 + size txin.scriptSig + 4).sum
    let outputs := (tx.output.map fun txOut => 8 + size txOut.scriptPubkey).sum
    let base := 4 + varIntLen tx.input.length.toUInt64 + inputs +
      varIntLen tx.output.length.toUInt64 + outputs + 4
    let witness := (tx.input.map fun txin =>
      varIntLen txin.witness.length.toUInt64 + (txin.witness.map size).sum).sum
    if tx.input.all fun txin => txin.witness.isEmpty then base * 4 else base * 4 + 2 + witness
  txid tx := (sent.find? (Prod.snd · = tx)).elim 0 Prod.fst
  deserialize bytes :=
    match sent.find? fun (_, tx) => serialize tx = bytes with
    | some (_, tx) => .ok tx
    | none => .error "malformed transaction"
  opReturnScript data := 0x6A :: 0x20 :: toBytes 32 data.toNat
  sha256 _ := []
  ecdsaHashTy := .ok
  segwitSignatureHash tx _ _ _ _ :=
    match signed.find? (Prod.fst · = tx) with
    | some (_, hash, _) => .ok hash
    | none => .error "unknown transaction"
  signEcdsa hash _ _ :=
    ((signed.find? (·.2.1 = hash)).map fun (_, _, signature) => signature).getD []
  fromUnsignedTx tx :=
    if tx.input.all fun txin => txin.scriptSig.isEmpty && txin.witness.isEmpty then
      .ok ⟨tx, tx.input.map fun _ => ⟨none, none, none⟩⟩
    else .error "signed transaction"
  extractTx psbt := { psbt.unsignedTx with
    input := psbt.unsignedTx.input.zipIdx.map fun (txin, i) => { txin with
      witness := (psbt.inputs[i]?.bind PsbtInput.finalScriptWitness).getD [] } }
  payload_newP2pkh := readScript_p2pkh
  payload_newP2sh := readScript_p2sh
  payload_newV0P2wpkh hash := readScript_witnessScript _ (.inl (length_toBytes 20 _))
  payload_newV0P2wsh hash := readScript_witnessScript _ (.inr (length_toBytes 32 _))
  unsignedTx_of_fromUnsignedTx h := by
    split at h <;> cases h
    rfl
  spends_extractTx psbt := by
    have hinput := congrArg (List.map TxIn.previousOutput)
      (List.zipIdx_map_fst 0 psbt.unsignedTx.input)
    simpa only [Transaction.spends, List.map_map, Function.comp_def] using hinput
  output_extractTx psbt := rfl

end InterBtcClients.Bitcoin
