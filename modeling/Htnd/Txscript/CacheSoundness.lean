import Htnd.ConsensusHashing.Commitments
import Htnd.Lib.ObliviousCalls
import Htnd.Txscript.Signatures

/-!
# Caches do not change an answer

Caches are sound if every entry stands for a check that succeeded.  With sound
caches, and reused hashes that are those of the transaction, a signature hash
and a check of a signature have the answer they have without caches and with
nothing hashed before, and leave sound caches.  The keys of the ML-DSA-44 cache are
hashes; where they are looked up, no two of the strings hashed may collide.
-/

namespace Htnd.Txscript.CacheSoundness

open Lib.Calls Lib.RangeLoops Utxo.Entry
open Consensus.Transactions ConsensusHashing.SignatureHash
open ConsensusHashing.Commitments Script Handlers Signatures

/-! ## Sound caches -/

/-- Every entry of a cache of curve signatures verifies. -/
def SigCache.Sound (curve : Curve) (cache : SigCache) : Prop :=
  ∀ hash entry, cache.validSigs.lookup hash = some entry →
    curve.verify hash entry.sig entry.pubKey = true

/-- Whether a signature is valid, if the key parses. -/
def mldsa44Answer (primitives : Primitives) (sigHash : DomainHash)
    (pkBytes sigBytes : List UInt8) : Option Bool :=
  (primitives.mldsa44UnmarshalBinary pkBytes).map fun publicKey =>
    primitives.mldsa44Verify publicKey sigHash sigBytes

/-- A check that a string identifies, which succeeded. -/
def Valid (primitives : Primitives) (string : List UInt8) : Prop :=
  ∃ sigHash pkBytes sigBytes, pkBytes.length = mldsa44PublicKeySize ∧
    string = mldsa44SigCacheString sigHash pkBytes sigBytes ∧
    mldsa44Answer primitives sigHash pkBytes sigBytes = some true

/-- Every key of the ML-DSA-44 cache is the hash of one of the strings. -/
structure MLDSA44Cache.Sound (primitives : Primitives)
    (strings : List (List UInt8)) (cache : MLDSA44Cache) : Prop where
  validSigs : ∀ key, cache.validSigs.lookup key = some () →
    ∃ string ∈ strings, key = primitives.blake2b string ∧ Valid primitives string
  publicKeys : ∀ key publicKey, cache.publicKeys.lookup key = some publicKey → ∃ pkBytes ∈ strings,
      key = primitives.blake2b pkBytes ∧ primitives.mldsa44UnmarshalBinary pkBytes = some publicKey

structure Sound (primitives : Primitives) (tx : Transaction)
    (strings : List (List UInt8)) (checks : Checks) : Prop where
  schnorr : ∀ cache, checks.sigCache = some cache → SigCache.Sound primitives.schnorr cache
  ecdsa : ∀ cache, checks.sigCacheECDSA = some cache → SigCache.Sound primitives.ecdsa cache
  mldsa44 : ∀ cache, checks.mldsa44Cache = some cache → MLDSA44Cache.Sound primitives strings cache
  reusable : Reusable primitives.writers tx checks.sigHashReusedValues

/-- All strings hashed so far are among the given ones. -/
def Within (strings : List (List UInt8)) (checks : Checks) : Prop :=
  ∀ string ∈ checks.hashed, string ∈ strings

/-! ## Entries added and evicted -/

variable {κ ν : Type} {choice : Nat}

theorem lookup_of_evictOne [DecidableEq κ] {entries : FiniteMap κ ν}
    {key : κ} {value : ν} (found : (evictOne choice entries).lookup key = some value) :
    entries.lookup key = some value := by
  rw [evictOne] at found
  split at found
  · next evicted _ =>
      by_cases isKey : key = evicted
      · rw [isKey, AList.lookup_erase] at found
        cases found
      · rwa [AList.lookup_erase_ne isKey] at found
  · exact found

theorem lookup_of_insert [DecidableEq κ] {entries : FiniteMap κ ν} {key key' : κ}
    {value value' : ν} (found : (entries.insert key' value').lookup key = some value) : key = key' ∧
    value = value' ∨ entries.lookup key = some value := by
  by_cases isKey : key = key'
  · subst isKey
    rw [AList.lookup_insert] at found
    cases found
    exact .inl ⟨rfl, rfl⟩
  · rw [AList.lookup_insert_ne isKey] at found
    exact .inr found

theorem lookup_of_randomEviction {maxEntries : Nat}
    {entries : FiniteMap DomainHash ν} {key key' : DomainHash} {value value' : ν}
    (found : (addWithRandomEviction choice entries maxEntries key' value').lookup key =
    some value) : key = key' ∧ value = value' ∨ entries.lookup key = some value := by
  rw [addWithRandomEviction] at found
  split_ifs at found
  · exact .inr found
  · exact (lookup_of_insert found).imp_right lookup_of_evictOne
  · exact lookup_of_insert found

variable {curve : Curve} {cache : SigCache} {hash : DomainHash} {sig pubKey : List UInt8}

theorem SigCache.Sound.add
    (sound : SigCache.Sound curve cache) (choice : Nat)
    (verifies : curve.verify hash sig pubKey = true) :
    SigCache.Sound curve (cache.add choice hash sig pubKey) := by
  intro key entry found
  rw [SigCache.add] at found
  split_ifs at found with isNone isFull
  · exact sound key entry found
  · rcases lookup_of_insert found with ⟨rfl, rfl⟩ | older
    · exact verifies
    · exact sound key entry (lookup_of_evictOne older)
  · rcases lookup_of_insert found with ⟨rfl, rfl⟩ | older
    · exact verifies
    · exact sound key entry older

theorem SigCache.Sound.holds (sound : SigCache.Sound curve cache)
    (holds : cache.holds hash sig pubKey = true) : curve.verify hash sig pubKey = true := by
  rw [Signatures.SigCache.holds] at holds
  split at holds
  · next entry found =>
      rw [Bool.and_eq_true, beq_iff_eq, beq_iff_eq] at holds
      rcases holds with ⟨rfl, rfl⟩
      exact sound hash entry found
  · cases holds

/-! ## Answers -/

section Answers

variable (primitives : Primitives) (tx : Transaction) (strings : List (List UInt8))

/--
A call has an answer with all sound caches, if what it notes is among the
strings, and keeps them sound.
-/
structure Answers {α : Type} (call : ChecksCall α)
    (noted : List (List UInt8)) (answer : Except Failure α) : Prop where
  hashed : ∀ checks, (outcome call checks).2.hashed = noted ++ checks.hashed
  returns : (∀ string ∈ noted, string ∈ strings) → ∀ checks, Sound primitives tx strings checks →
    (outcome call checks).1 = answer ∧ Sound primitives tx strings (outcome call checks).2

/-- A curve, its cache and its signature hash fit together. -/
structure SchemeSound (settings : Settings) (scheme : CurveScheme)
    (hash : SigHashType → Except SigHashFailure DomainHash) : Prop where
  cache : ∀ checks cache, Sound primitives tx strings checks →
    scheme.cache checks = some cache → SigCache.Sound scheme.curve cache
  setCache : ∀ checks cache, Sound primitives tx strings checks →
    SigCache.Sound scheme.curve cache →
    Sound primitives tx strings (scheme.setCache (some cache) checks)
  hashed : ∀ checks cache, (scheme.setCache cache checks).hashed = checks.hashed
  hashes : ∀ hashType, Returns primitives.writers tx
    (scheme.calculateSignatureHash settings.tx settings.txIdx hashType).run (hash hashType)

variable {primitives tx strings} {settings : Settings}

theorem schnorrScheme_sound (isTx : settings.tx = tx) : SchemeSound primitives tx strings settings
    (schnorrScheme primitives) (ConsensusHashing.Commitments.signatureHash primitives.writers tx
    .schnorr settings.txIdx) where
  cache _ _ sound isCache := sound.schnorr _ isCache
  setCache _ _ sound isSound :=
    { sound with schnorr := fun _ isCache => by cases isCache; exact isSound }
  hashed _ _ := rfl
  hashes kind := by
    rw [isTx]
    exact hashOf_returns .schnorr

theorem ecdsaScheme_sound (isTx : settings.tx = tx) : SchemeSound primitives tx strings settings
    (ecdsaScheme primitives) (ConsensusHashing.Commitments.signatureHash primitives.writers tx
    .ecdsa settings.txIdx) where
  cache _ _ sound isCache := sound.ecdsa _ isCache
  setCache _ _ sound isSound :=
    { sound with ecdsa := fun _ isCache => by cases isCache; exact isSound }
  hashed _ _ := rfl
  hashes kind := by
    rw [isTx]
    exact hashOf_returns .ecdsa

/-- Counting a verification changes no cache. -/
theorem Sound.counted {checks : Checks}
    (sound : Sound primitives tx strings checks) (verified : Nat) :
    Sound primitives tx strings { checks with verified } :=
  { sound with }

theorem check_answers {scheme : CurveScheme} {hash : SigHashType → Except SigHashFailure DomainHash}
    (isSound : SchemeSound primitives tx strings settings scheme hash) (evicted : Nat → Nat)
    (sigHash : DomainHash) (sig pubKey : List UInt8) :
    Answers primitives tx strings (scheme.checkSignature evicted sigHash sig pubKey) []
    (.ok (scheme.curve.verify sigHash sig pubKey)) := by
  refine ⟨fun checks => ?_, fun _ checks sound => ?_⟩
  · rw [CurveScheme.checkSignature, outcome_bind, outcome_get]
    dsimp only
    split
    · rfl
    · split_ifs
      · rfl
      · exact isSound.hashed _ _
      · rfl
  · rw [CurveScheme.checkSignature, outcome_bind, outcome_get]
    dsimp only
    split
    · exact ⟨rfl, sound.counted _⟩
    next cache isCache =>
      have cacheSound := isSound.cache checks cache sound isCache
      split_ifs with isHeld verifies
      · rw [cacheSound.holds isHeld]
        exact ⟨rfl, sound⟩
      · rw [verifies]
        exact ⟨rfl, isSound.setCache _ _ (sound.counted _) (cacheSound.add _ verifies)⟩
      · rw [Bool.not_eq_true] at verifies
        rw [verifies]
        exact ⟨rfl, sound.counted _⟩

/-- What the engine makes of a signature hash. -/
def hashAnswer (hash : Except SigHashFailure DomainHash) : Except Failure (Option DomainHash) :=
  match hash with
  | .ok hash => .ok (some hash)
  | .error .notStandard => .ok none
  | .error .panicked => .error .panicked

theorem sigHash_answers {calculate : Transaction → Nat → SigHashType →
      ExceptT SigHashFailure (StateM SighashReusedValues) DomainHash}
    {kind : SigHashType} {hash : Except SigHashFailure DomainHash}
    (returns : Returns primitives.writers tx (calculate settings.tx settings.txIdx kind).run hash) :
    Answers primitives tx strings (signatureHash settings kind calculate) [] (hashAnswer hash) := by
  have isOutcome : ∀ checks, outcome (signatureHash settings kind
      calculate) checks = (hashAnswer (outcome (calculate settings.tx
        settings.txIdx kind) checks.sigHashReusedValues).1,
        { checks with sigHashReusedValues := (outcome (calculate settings.tx
          settings.txIdx kind) checks.sigHashReusedValues).2 }) := by
    intro checks
    rw [Signatures.signatureHash, outcome_bind, outcome_get]
    dsimp only
    generalize outcome (calculate settings.tx settings.txIdx kind)
      checks.sigHashReusedValues = result
    rcases result with ⟨(_ | _) | _, _⟩
    · rfl
    · rfl
    · rfl
  refine ⟨fun checks => ?_, fun _ checks sound => ?_⟩
  · rw [isOutcome]
    rfl
  · have returned := returns checks.sigHashReusedValues sound.reusable
    rw [isOutcome]
    refine ⟨congrArg hashAnswer returned.1, ?_⟩
    exact { sound with reusable := returned.2 }

/-- A check that succeeded is added, with its key if that was not there. -/
theorem MLDSA44Cache.Sound.add {cache : MLDSA44Cache} {sigHash : DomainHash}
    {pkBytes sigBytes publicKey : List UInt8} {choice' : Nat}
    (sound : MLDSA44Cache.Sound primitives strings cache)
    (isLength : pkBytes.length = mldsa44PublicKeySize)
    (isString : mldsa44SigCacheString sigHash pkBytes sigBytes ∈ strings)
    (isPkString : pkBytes ∈ strings)
    (answer : mldsa44Answer primitives sigHash pkBytes sigBytes = some true)
    (parses : primitives.mldsa44UnmarshalBinary pkBytes = some publicKey) :
    MLDSA44Cache.Sound primitives strings { cache with
      validSigs := addWithRandomEviction choice cache.validSigs cache.maxValidSigs
        (mldsa44SigCacheKey primitives sigHash pkBytes sigBytes) ()
      publicKeys :=
        if (cache.publicKeys.lookup (primitives.blake2b pkBytes)).isSome then
          cache.publicKeys
        else addWithRandomEviction choice' cache.publicKeys
          cache.maxPublicKeys (primitives.blake2b pkBytes) publicKey } where
  validSigs key found := by
    rcases lookup_of_randomEviction found with ⟨rfl, _⟩ | older
    · exact ⟨_, isString, rfl, sigHash, pkBytes, sigBytes, isLength, rfl, answer⟩
    · exact sound.validSigs key older
  publicKeys key publicKey' found := by
    split_ifs at found
    · exact sound.publicKeys key publicKey' found
    · rcases lookup_of_randomEviction found with ⟨rfl, rfl⟩ | older
      · exact ⟨pkBytes, isPkString, rfl, parses⟩
      · exact sound.publicKeys key publicKey' older

section Keys

/-- The strings have different hashes. -/
abbrev Apart (primitives : Primitives) (strings : List (List UInt8)) : Prop :=
  ∀ first ∈ strings, ∀ second ∈ strings,
    primitives.blake2b first = primitives.blake2b second → first = second

variable (collisionFree : Apart primitives strings)

include collisionFree

variable {pkBytes sigBytes : List UInt8} {sigHash : DomainHash}

/-- A key that is found stands for the check that is made. -/
theorem answer_of_found {cache : MLDSA44Cache} (sound : MLDSA44Cache.Sound primitives strings cache)
    (isLength : pkBytes.length = mldsa44PublicKeySize)
    (isString : mldsa44SigCacheString sigHash pkBytes sigBytes ∈ strings)
    (found : (cache.validSigs.lookup (mldsa44SigCacheKey primitives sigHash pkBytes
    sigBytes)).isSome) : mldsa44Answer primitives sigHash pkBytes sigBytes = some true := by
  obtain ⟨_, isFound⟩ := Option.isSome_iff_exists.mp found
  rcases sound.validSigs _ isFound with ⟨_, mem, isKey, sigHash', _, _, isLength', rfl, valid⟩
  have same := collisionFree _ isString _ mem isKey
  have hashes := List.append_inj same (sigHash.length_eq.trans sigHash'.length_eq.symm)
  have rest := List.append_inj hashes.2 (isLength.trans isLength'.symm)
  have sameHash : sigHash = sigHash' := by
    cases sigHash
    congr 1
    exact hashes.1
  rw [sameHash, rest.1, rest.2]
  exact valid

/-- A check is noted, and its answer does not depend on the cache. -/
theorem mldsa44Verify_outcome (isLength : pkBytes.length = mldsa44PublicKeySize) (checks : Checks) :
    (outcome (mldsa44Verify primitives sigHash pkBytes sigBytes) checks).2.hashed =
    mldsa44SigCacheString sigHash pkBytes sigBytes :: pkBytes :: checks.hashed ∧
    (Sound primitives tx strings checks → mldsa44SigCacheString sigHash pkBytes sigBytes ∈ strings →
    pkBytes ∈ strings → (outcome (mldsa44Verify primitives sigHash pkBytes sigBytes) checks).1 =
    .ok (mldsa44Answer primitives sigHash pkBytes sigBytes) ∧
    Sound primitives tx strings (outcome (mldsa44Verify primitives sigHash pkBytes sigBytes)
    checks).2) := by
  rcases checks with ⟨_, _, mldsa44Cache, _, _, hashed⟩
  rw [mldsa44Verify, outcome_bind, noteHashed, outcome_modify]
  dsimp only
  rw [outcome_bind, outcome_get]
  cases mldsa44Cache with
  | none =>
    rw [mldsa44Answer]
    cases primitives.mldsa44UnmarshalBinary pkBytes with
    | none => exact ⟨rfl, fun sound _ _ => ⟨rfl, { sound with }⟩⟩
    | some publicKey => exact ⟨rfl, fun sound _ _ => ⟨rfl, { sound with }⟩⟩
  | some cache =>
    dsimp only
    by_cases found : (cache.validSigs.lookup (mldsa44SigCacheKey primitives
      sigHash pkBytes sigBytes)).isSome = true
    · rw [if_pos found]
      refine ⟨rfl, fun sound isString _ => ⟨?_, { sound with }⟩⟩
      rw [answer_of_found collisionFree (sound.mldsa44 cache rfl) isLength isString found]
      rfl
    rw [if_neg found]
    generalize isKey : (cache.publicKeys.lookup (primitives.blake2b pkBytes)).or
        (primitives.mldsa44UnmarshalBinary pkBytes) = parsedKey
    have parses : MLDSA44Cache.Sound primitives strings cache → pkBytes ∈ strings →
        primitives.mldsa44UnmarshalBinary pkBytes = parsedKey := by
      intro sound isString
      rw [← isKey]
      cases isFound : cache.publicKeys.lookup (primitives.blake2b pkBytes) with
      | none => rfl
      | some publicKey =>
        rcases sound.publicKeys _ publicKey isFound with ⟨_, mem, isSame, parses⟩
        rw [collisionFree _ isString _ mem isSame, parses]
        rfl
    cases parsedKey with
    | none =>
      refine ⟨rfl, fun sound _ isString => ⟨?_, { sound with }⟩⟩
      rw [mldsa44Answer, parses (sound.mldsa44 cache rfl) isString]
      rfl
    | some publicKey =>
      dsimp only
      cases isValid : primitives.mldsa44Verify publicKey sigHash sigBytes with
      | false =>
        refine ⟨rfl, fun sound _ isString => ⟨?_, { sound with }⟩⟩
        rw [mldsa44Answer, parses (sound.mldsa44 cache rfl) isString, Option.map_some, isValid]
        rfl
      | true =>
        refine ⟨rfl, fun sound isString isPkString => ?_⟩
        have cacheSound := sound.mldsa44 cache rfl
        have answer : mldsa44Answer primitives sigHash pkBytes sigBytes = some true := by
          rw [mldsa44Answer, parses cacheSound isPkString, Option.map_some, isValid]
        rw [answer]
        refine ⟨rfl, { sound with mldsa44 := ?_ }⟩
        rintro _ isCache
        cases isCache
        exact cacheSound.add isLength isString isPkString answer (parses cacheSound isPkString)

theorem mldsa44Verify_answers (isLength : pkBytes.length = mldsa44PublicKeySize) :
    Answers primitives tx strings (mldsa44Verify primitives sigHash pkBytes sigBytes)
    [mldsa44SigCacheString sigHash pkBytes sigBytes, pkBytes]
    (.ok (mldsa44Answer primitives sigHash pkBytes sigBytes)) := by
  have isOutcome := @mldsa44Verify_outcome primitives tx strings collisionFree
    pkBytes sigBytes sigHash isLength
  refine ⟨fun checks => (isOutcome checks).1, fun inside checks sound => ?_⟩
  exact (isOutcome checks).2 sound (inside _ (.head _)) (inside _ (.tail _ (.head _)))

end Keys

end Answers

end Htnd.Txscript.CacheSoundness
