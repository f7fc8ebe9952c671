import Htnd.ConsensusHashing.SignatureHash
import Htnd.Lib.RangeLoops
import Htnd.Txscript.Handlers

/-!
# Signature opcodes and their caches

The handlers of `txscript/opcode.go` that check signatures, with the caches of
`txscript/sigcache.go`, `sigcache_ecdsa.go` and `sigcache_mldsa44.go`.  The
signature libraries and the hash functions are given by what they answer; keys
and signatures that were parsed are the bytes of their parsed form.  Beside the
caches and the reused values of the signature hash, the state of the checks has
the number of signatures verified so far and the strings whose hashes are the
keys of the ML-DSA-44 checks so far, which no function of the source reads.
-/

namespace Htnd.Txscript.Signatures

open Lib.Calls Lib.RangeLoops Utxo.Entry Consensus.Transactions
open ConsensusHashing.SignatureHash Script Stacks Handlers

/-! ## What is not in the repository -/

/-- Schnorr or ECDSA of `secp256k1`. -/
structure Curve where
  deserializePubKey : List UInt8 → Option (List UInt8)
  deserializeSignature : List UInt8 → Option (List UInt8)
  verify : DomainHash → List UInt8 → List UInt8 → Bool

/--
The libraries.  `evicted` says which entry leaves a full cache of signatures
when the `n`-th signature to be verified is added, and `evictedKey` which key
leaves a full cache of keys; a map has no order of its own.
-/
structure Primitives where
  writers : HashWriters
  schnorr : Curve
  ecdsa : Curve
  mldsa44UnmarshalBinary : List UInt8 → Option (List UInt8)
  mldsa44Verify : List UInt8 → DomainHash → List UInt8 → Bool
  sha256 : List UInt8 → DomainHash
  blake2b : List UInt8 → DomainHash
  evicted : Nat → Nat
  evictedKey : Nat → Nat

/-! ## The caches -/

def evictOne {κ ν : Type} [DecidableEq κ] (choice : Nat)
    (entries : FiniteMap κ ν) : FiniteMap κ ν :=
  match entries.keys[choice % entries.keys.length]? with
  | some key => entries.erase key
  | none => entries

/-- `sigCacheEntry` and `sigCacheEntryECDSA`. -/
structure SigCacheEntry where
  sig : List UInt8
  pubKey : List UInt8
deriving DecidableEq

/-- `SigCache` and `SigCacheECDSA`. -/
structure SigCache where
  validSigs : FiniteMap DomainHash SigCacheEntry
  maxEntries : Nat

/-- `SigCache.Exists`. -/
def SigCache.holds (s : SigCache) (sigHash : DomainHash) (sig pubKey : List UInt8) : Bool :=
  match s.validSigs.lookup sigHash with
  | some entry => entry.pubKey == pubKey && entry.sig == sig
  | none => false

def SigCache.add (s : SigCache) (choice : Nat) (sigHash : DomainHash)
    (sig pubKey : List UInt8) : SigCache :=
  if s.maxEntries = 0 then s
  else
    let validSigs :=
      if s.maxEntries < s.validSigs.keys.length + 1 then
        evictOne choice s.validSigs
      else s.validSigs
    { s with validSigs := validSigs.insert sigHash ⟨sig, pubKey⟩ }

/-- `MLDSA44Cache`; its keys are hashes of what was checked. -/
structure MLDSA44Cache where
  validSigs : FiniteMap DomainHash Unit
  maxValidSigs : Nat
  publicKeys : FiniteMap DomainHash (List UInt8)
  maxPublicKeys : Nat

def addWithRandomEviction {ν : Type} (choice : Nat) (entries : FiniteMap DomainHash ν)
    (maxEntries : Nat) (key : DomainHash) (value : ν) : FiniteMap DomainHash ν :=
  if maxEntries = 0 then entries
  else if (entries.lookup key).isNone ∧ maxEntries ≤ entries.keys.length then
    (evictOne choice entries).insert key value
  else entries.insert key value

/-- What the signature opcodes read and write beside the machine. -/
structure Checks where
  sigCache : Option SigCache
  sigCacheECDSA : Option SigCache
  mldsa44Cache : Option MLDSA44Cache
  sigHashReusedValues : SighashReusedValues
  verified : Nat
  hashed : List (List UInt8)

structure Session where
  machine : Machine
  checks : Checks

abbrev ChecksCall := ExceptT Failure (StateM Checks)

abbrev SessionCall := ExceptT Failure (StateM Session)

def onMachine {α : Type} (call : MachineCall α) : SessionCall α :=
  zoom Session.machine (fun machine vm => { vm with machine }) call

def onChecks {α : Type} (call : ChecksCall α) : SessionCall α :=
  zoom Session.checks (fun checks vm => { vm with checks }) call

/-! ## Verifying one signature -/

/-- A curve, the cache it uses, its key length and its signature hash. -/
structure CurveScheme where
  curve : Curve
  cache : Checks → Option SigCache
  setCache : Option SigCache → Checks → Checks
  pubKeyLength : Nat
  calculateSignatureHash : Transaction → Nat → SigHashType →
    ExceptT SigHashFailure (StateM SighashReusedValues) DomainHash

def schnorrScheme (primitives : Primitives) : CurveScheme where
  curve := primitives.schnorr
  cache := Checks.sigCache
  setCache cache checks := { checks with sigCache := cache }
  pubKeyLength := 32
  calculateSignatureHash := calculateSignatureHashSchnorr primitives.writers

def ecdsaScheme (primitives : Primitives) : CurveScheme where
  curve := primitives.ecdsa
  cache := Checks.sigCacheECDSA
  setCache cache checks := { checks with sigCacheECDSA := cache }
  pubKeyLength := 33
  calculateSignatureHash := calculateSignatureHashECDSA primitives.writers

/-- A call of the signature library. -/
def countVerification : ChecksCall Unit :=
  modify fun checks => { checks with verified := checks.verified + 1 }

/-- Look the signature up in the cache, verify it, and add it if it is valid. -/
def CurveScheme.checkSignature (scheme : CurveScheme) (evicted : Nat → Nat)
    (hash : DomainHash) (sig pubKey : List UInt8) : ChecksCall Bool := do
  match scheme.cache (← get) with
  | none =>
    countVerification
    return scheme.curve.verify hash sig pubKey
  | some cache =>
    if cache.holds hash sig pubKey then return true
    countVerification
    if scheme.curve.verify hash sig pubKey then
      let choice := evicted (← get).verified
      modify (scheme.setCache (some (cache.add choice hash sig pubKey)))
      return true
    return false

/-- What identifies a check of a signature. -/
def mldsa44SigCacheString (sigHash : DomainHash) (pkBytes sigBytes : List UInt8) : List UInt8 :=
  sigHash.hashArray ++ (pkBytes ++ sigBytes)

def mldsa44SigCacheKey (primitives : Primitives) (sigHash : DomainHash)
    (pkBytes sigBytes : List UInt8) : DomainHash :=
  primitives.blake2b (mldsa44SigCacheString sigHash pkBytes sigBytes)

/-- Strings whose hashes are cache keys. -/
def noteHashed (strings : List (List UInt8)) : ChecksCall Unit :=
  modify fun checks => { checks with hashed := strings ++ checks.hashed }

/-- `MLDSA44Cache.verify`: whether the signature is valid, if the key parsed. -/
def mldsa44Verify (primitives : Primitives) (sigHash : DomainHash)
    (pkBytes sigBytes : List UInt8) : ChecksCall (Option Bool) := do
  noteHashed [mldsa44SigCacheString sigHash pkBytes sigBytes, pkBytes]
  match (← get).mldsa44Cache with
  | none =>
    match primitives.mldsa44UnmarshalBinary pkBytes with
    | none => return none
    | some publicKey =>
      countVerification
      return some (primitives.mldsa44Verify publicKey sigHash sigBytes)
  | some c =>
    let sigKey := mldsa44SigCacheKey primitives sigHash pkBytes sigBytes
    let publicKeyKey := primitives.blake2b pkBytes
    if (c.validSigs.lookup sigKey).isSome then return some true
    let cached := c.publicKeys.lookup publicKeyKey
    match cached.or (primitives.mldsa44UnmarshalBinary pkBytes) with
    | none => return none
    | some publicKey =>
      countVerification
      if !primitives.mldsa44Verify publicKey sigHash sigBytes then
        return some false
      let count := (← get).verified
      let validSigs := addWithRandomEviction (primitives.evicted count)
        c.validSigs c.maxValidSigs sigKey ()
      let publicKeys :=
        if cached.isSome then c.publicKeys
        else addWithRandomEviction (primitives.evictedKey count)
          c.publicKeys c.maxPublicKeys publicKeyKey publicKey
      modify fun checks => { checks with
        mldsa44Cache := some { c with validSigs, publicKeys } }
      return some true

/-- A signature hash; `none` is its error. -/
def signatureHash (settings : Settings) (hashType : SigHashType)
    (calculate : Transaction → Nat → SigHashType →
      ExceptT SigHashFailure (StateM SighashReusedValues) DomainHash) :
    ChecksCall (Option DomainHash) := do
  let checks ← get
  let (result, reused) := outcome
    (calculate settings.tx settings.txIdx hashType) checks.sigHashReusedValues
  set { checks with sigHashReusedValues := reused }
  match result with
  | .ok hash => return some hash
  | .error .notStandard => return none
  | .error .panicked => throw .panicked

/-! ## The handlers -/

/-- The hash type at the end of a signature, and the signature before it. -/
def splitSignature (fullSigBytes : List UInt8) : Except Failure (SigHashType × List UInt8) := do
  let hashType ← index fullSigBytes (fullSigBytes.length - 1)
  let sigBytes ← slice fullSigBytes 0 (fullSigBytes.length - 1)
  return (hashType, sigBytes)

/-- A check of the encoding of a signature or a key. -/
def require (holds : Bool) (code : ErrorCode) : SessionCall Unit := do
  if !holds then scriptError code

def pushResult (valid : Bool) : SessionCall Unit := onMachine (onData (pushBool valid))

/-- `opcodeCheckSig` and `opcodeCheckSigECDSA`. -/
def checkSig (primitives : Primitives) (scheme : CurveScheme)
    (settings : Settings) : SessionCall Unit := do
  let pkBytes ← onMachine (onData popByteArray)
  let fullSigBytes ← onMachine (onData popByteArray)
  if fullSigBytes.length < 1 then
    pushResult false
  else
    let (hashType, sigBytes) ← compute (splitSignature fullSigBytes)
    require hashType.isStandardSigHashType .invalidSigHashType
    require (sigBytes.length = 64) .sigLength
    require (pkBytes.length = scheme.pubKeyLength) .pubKeyFormat
    match ← onChecks (signatureHash settings hashType scheme.calculateSignatureHash) with
    | none => pushResult false
    | some sigHash =>
      match scheme.curve.deserializePubKey pkBytes, scheme.curve.deserializeSignature sigBytes with
      | some pubKey, some signature =>
        let valid ← onChecks (scheme.checkSignature primitives.evicted sigHash signature pubKey)
        require (valid || sigBytes.length = 0) .nullFail
        pushResult valid
      | _, _ => pushResult false

def opcodeCheckSig (primitives : Primitives) (settings : Settings) : SessionCall Unit :=
  checkSig primitives (schnorrScheme primitives) settings

def opcodeCheckSigECDSA (primitives : Primitives) (settings : Settings) : SessionCall Unit :=
  checkSig primitives (ecdsaScheme primitives) settings

def opcodeCheckSigMLDSA44 (primitives : Primitives) (settings : Settings) : SessionCall Unit := do
  if settings.flags &&& scriptEnableMLDSA44 = 0 then
    scriptError .reservedOpcode
  let pkBytes ← onMachine (onData popByteArray)
  let fullSigBytes ← onMachine (onData popByteArray)
  if fullSigBytes.length < 1 then
    pushResult false
  else
    let (hashType, sigBytes) ← compute (splitSignature fullSigBytes)
    require hashType.isStandardSigHashType .invalidSigHashType
    require (sigBytes.length = mldsa44SignatureSize) .sigLength
    require (pkBytes.length = mldsa44PublicKeySize) .pubKeyFormat
    match ← onChecks (signatureHash settings hashType
        (calculateSignatureHashMLDSA44 primitives.writers)) with
    | none => pushResult false
    | some sigHash =>
      match ← onChecks (mldsa44Verify primitives sigHash pkBytes sigBytes) with
      | none => pushResult false
      | some valid =>
        require valid .nullFail
        pushResult true

def opcodeCheckSigVerify (primitives : Primitives) (settings : Settings) : SessionCall Unit := do
  opcodeCheckSig primitives settings
  onMachine (abstractVerify .checkSigVerify)

/-! ## Several signatures -/

/-- `parsedSigInfo` and `parsedSigInfoECDSA`. -/
structure ParsedSigInfo where
  signature : List UInt8
  parsedSignature : Option (List UInt8)
  parsed : Bool
deriving DecidableEq

/-- Pop a number of items into a list, in the order they are popped. -/
def popMany : Nat → MachineCall (List Element)
  | 0 => return []
  | count + 1 => do
    let item ← onData popByteArray
    let items ← popMany count
    return item :: items

/--
The signature in its parsed form, parsed and its encoding checked only once;
`none` if it did not parse.
-/
def parseSigInfo (scheme : CurveScheme) (sigInfo : ParsedSigInfo)
    (hashType : SigHashType) (signature : List UInt8) : SessionCall (Option (List UInt8)) := do
  if !sigInfo.parsed then
    require hashType.isStandardSigHashType .invalidSigHashType
    require (signature.length = 64) .sigLength
    return scheme.curve.deserializeSignature signature
  else return sigInfo.parsedSignature

/--
The loop of `opcodeCheckMultiSig`.  The count of the public keys is one more
than those that remain and falls in every round.
-/
def multiSigLoop (primitives : Primitives) (scheme : CurveScheme) (settings : Settings)
    (pubKeys : List Element) : Nat → Nat → Nat → Nat → List ParsedSigInfo → SessionCall Bool
  | 0, _, _, numSignatures, _ => return numSignatures == 0
  | numPubKeys + 1, pubKeyIdx, signatureIdx, numSignatures, signatures => do
    if numSignatures = 0 then return true
    else if numPubKeys < numSignatures then return false
    else
      let sigInfo ← compute (index signatures signatureIdx)
      let pubKey ← compute (index pubKeys pubKeyIdx)
      let skip := multiSigLoop primitives scheme settings pubKeys numPubKeys
        (pubKeyIdx + 1) signatureIdx numSignatures
      if sigInfo.signature.length = 0 then skip signatures
      else
        let (hashType, signature) ← compute (splitSignature sigInfo.signature)
        let parsedSig ← parseSigInfo scheme sigInfo hashType signature
        let signatures := signatures.set signatureIdx ⟨sigInfo.signature, parsedSig, true⟩
        match parsedSig with
        | none => skip signatures
        | some parsedSig =>
          require (pubKey.length = scheme.pubKeyLength) .pubKeyFormat
          match scheme.curve.deserializePubKey pubKey with
          | none => skip signatures
          | some parsedPubKey =>
            match ← onChecks (signatureHash settings hashType scheme.calculateSignatureHash) with
            | none => throw .signatureHash
            | some sigHash =>
              let valid ← onChecks (scheme.checkSignature
                primitives.evicted sigHash parsedSig parsedPubKey)
              if valid then
                multiSigLoop primitives scheme settings pubKeys
                  numPubKeys (pubKeyIdx + 1) (signatureIdx + 1) (numSignatures - 1) signatures
              else skip signatures

/-- The number of public keys, counted as operations. -/
def popPubKeyCount : MachineCall Nat := do
  let numKeys ← onData popInt
  let numPubKeys := int32Of numKeys
  if numPubKeys < 0 then scriptError .invalidPubKeyCount
  if maxPubKeysPerMultiSig < numPubKeys then scriptError .invalidPubKeyCount
  modify fun vm => { vm with numOps := vm.numOps + numPubKeys.toNat }
  if maxOpsPerScript < (← get).numOps then scriptError .tooManyOperations
  return numPubKeys.toNat

def popSignatureCount (numPubKeys : Nat) : MachineCall Nat := do
  let numSigs ← onData popInt
  let numSignatures := int32Of numSigs
  if numSignatures < 0 then scriptError .invalidSignatureCount
  if numPubKeys < numSignatures then scriptError .invalidSignatureCount
  return numSignatures.toNat

/-- `opcodeCheckMultiSig` and `opcodeCheckMultiSigECDSA`. -/
def checkMultiSig (primitives : Primitives) (scheme : CurveScheme)
    (settings : Settings) : SessionCall Unit := do
  let numPubKeys ← onMachine popPubKeyCount
  let pubKeys ← onMachine (popMany numPubKeys)
  let numSignatures ← onMachine (popSignatureCount numPubKeys)
  let signatures ← onMachine (popMany numSignatures)
  let success ← multiSigLoop primitives scheme settings pubKeys (numPubKeys + 1) 0 0 numSignatures
    (signatures.map fun signature => ⟨signature, none, false⟩)
  require (success || signatures.all fun sig => sig.length = 0) .nullFail
  pushResult success

def opcodeCheckMultiSig (primitives : Primitives) (settings : Settings) : SessionCall Unit :=
  checkMultiSig primitives (schnorrScheme primitives) settings

def opcodeCheckMultiSigECDSA (primitives : Primitives) (settings : Settings) : SessionCall Unit :=
  checkMultiSig primitives (ecdsaScheme primitives) settings

def opcodeCheckMultiSigVerify (primitives : Primitives)
    (settings : Settings) : SessionCall Unit := do
  opcodeCheckMultiSig primitives settings
  onMachine (abstractVerify .checkMultiSigVerify)

end Htnd.Txscript.Signatures
