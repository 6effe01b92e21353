import Dragonchain.Base58
import Dragonchain.Bech32
import Dragonchain.ConvertBits
import Dragonchain.WitnessSigning

/-!
CTxDestination of script/standard.h with its two encodings: addresses, by
EncodeDestination and DecodeDestination of base58.cpp, and scripts, by
GetScriptForDestination and ExtractDestination of script/standard.cpp. Of a network's
parameters only those that addresses depend on are modelled.
-/

namespace Dragonchain.Script

open Base58 List

variable {str data values : Bytes}

/-- The program is the part of the array that `length` counts. -/
structure WitnessUnknown where
  version : UInt32
  program : Bytes
  deriving DecidableEq

inductive CTxDestination where
  | noDestination
  | keyID (id : Uint160)
  | scriptID (id : Uint160)
  | witnessV0ScriptHash (id : Uint256)
  | witnessV0KeyHash (id : Uint160)
  | witnessUnknown (id : WitnessUnknown)
  deriving DecidableEq

structure AddressParams where
  pubkeyAddress : Bytes
  scriptAddress : Bytes
  bech32_hrp : Bytes

inductive Network where
  | main
  | testnet
  | regtest
  deriving DecidableEq

/-- What the constructors of CMainParams, CTestNetParams and CRegTestParams set. -/
def Network.params : Network → AddressParams
  | .main => ⟨[63], [125], "dragon".toUTF8.toList⟩
  | .testnet => ⟨[66], [128], "tugar".toUTF8.toList⟩
  | .regtest => ⟨[61], [123], "rugar".toUTF8.toList⟩

def toUint256 (vch : Bytes) : Uint256 := if sized : vch.length = 32 then ⟨vch, sized⟩ else Uint256.null

/-! Addresses. -/

def encodeWitness (params : AddressParams) (version : UInt8) (program : Bytes) : Bytes :=
  Bech32.encode params.bech32_hrp (version :: (convertBits 8 5 true program).2)

def encodeDestination (crypto : Crypto) (params : AddressParams) : CTxDestination → Base58Outcome Bytes
  | .noDestination => pure []
  | .keyID id => encodeBase58Check crypto (params.pubkeyAddress ++ id.bytes)
  | .scriptID id => encodeBase58Check crypto (params.scriptAddress ++ id.bytes)
  | .witnessV0ScriptHash id => pure (encodeWitness params 0 id.bytes)
  | .witnessV0KeyHash id => pure (encodeWitness params 0 id.bytes)
  | .witnessUnknown id =>
    if id.version < 1 ∨ id.version > 16 ∨ id.program.length < 2 ∨ id.program.length > 40 then pure []
    else pure (encodeWitness params (UInt8.ofNat id.version.toNat) id.program)

/-- The data of an address after one of the two prefixes. -/
def matchPrefix (pfx data : Bytes) : Option Uint160 :=
  if data.length = 20 + pfx.length ∧ pfx.isPrefixOf data then
    some (toUint160 (data.drop pfx.length))
  else none

def decodeLegacy (params : AddressParams) (data : Bytes) : Option CTxDestination :=
  match matchPrefix params.pubkeyAddress data with
  | some hash => some (.keyID hash)
  | none => (matchPrefix params.scriptAddress data).map .scriptID

def witnessDestination (version : UInt8) (data : Bytes) : CTxDestination :=
  if version = 0 then
    if data.length = 20 then .witnessV0KeyHash (toUint160 data)
    else if data.length = 32 then .witnessV0ScriptHash (toUint256 data)
    else .noDestination
  else if version > 16 ∨ data.length < 2 ∨ data.length > 40 then .noDestination
  else .witnessUnknown ⟨UInt32.ofNat version.toNat, data⟩

def decodeWitness (params : AddressParams) (str : Bytes) : CTxDestination :=
  match Bech32.decode str with
  | (_, []) => .noDestination
  | (hrp, version :: values) =>
    if hrp = params.bech32_hrp then
      match convertBits 5 8 false values with
      | (true, data) => witnessDestination version data
      | (false, _) => .noDestination
    else .noDestination

def decodeDestination (crypto : Crypto) (params : AddressParams) (str : Bytes) :
    Except Base58Fault CTxDestination :=
  match decodeBase58Check crypto str with
  | .error (.fault fault) => .error fault
  | .error (.error _) => .ok (decodeWitness params str)
  | .ok data => .ok ((decodeLegacy params data).getD (decodeWitness params str))

/-! Scripts. -/

/-- CScriptVisitor; EncodeOP_N asserts that the version is at most 16. -/
def getScriptForDestination : CTxDestination → Bytes
  | .noDestination => []
  | .keyID keyID => getScriptForPubKeyHash keyID
  | .scriptID scriptID => getScriptForScriptHash scriptID
  | .witnessV0KeyHash id => getScriptForWitnessKeyHash id
  | .witnessV0ScriptHash id => getScriptForWitnessScriptHash id
  | .witnessUnknown id => [encodeOP_N id.version.toNat] ++ pushData id.program

def extractDestination (crypto : Crypto) (scriptPubKey : Bytes) : Option CTxDestination :=
  let solution := solver scriptPubKey
  if !solution.solved then none
  else
    match solution.typeRet, solution.vSolutionsRet with
    | some .TX_PUBKEY, vch :: _ =>
      let pubKey := CPubKey.ofBytes vch
      if !pubKey.isValid then none else some (.keyID (pubKey.getID crypto))
    | some .TX_PUBKEYHASH, hash :: _ => some (.keyID (toUint160 hash))
    | some .TX_SCRIPTHASH, hash :: _ => some (.scriptID (toUint160 hash))
    | some .TX_WITNESS_V0_KEYHASH, hash :: _ => some (.witnessV0KeyHash (toUint160 hash))
    | some .TX_WITNESS_V0_SCRIPTHASH, hash :: _ => some (.witnessV0ScriptHash (toUint256 hash))
    | some .TX_WITNESS_UNKNOWN, version :: program :: _ =>
      some (.witnessUnknown ⟨UInt32.ofNat (version.getD 0 0).toNat, program⟩)
    | _, _ => none

/-- The destinations that the code makes: an unknown witness has a version and a program
that an output script can have. -/
def CTxDestination.Valid : CTxDestination → Prop
  | .noDestination => False
  | .witnessUnknown id => 1 ≤ id.version ∧ id.version ≤ 16 ∧
      2 ≤ id.program.length ∧ id.program.length ≤ 40
  | _ => True

/-! A destination's script is solved as that destination. -/

variable {crypto : Crypto} {params : AddressParams} {dest : CTxDestination} {program : Bytes}

lemma solver_unknown {version : Nat} (first : 1 ≤ version) (last : version ≤ 16)
    (long : 2 ≤ program.length) (short : program.length ≤ 40) :
    solver ([encodeOP_N version] ++ pushData program) =
      ⟨true, some .TX_WITNESS_UNKNOWN, [[UInt8.ofNat version], program]⟩ := by
  obtain ⟨low, high, value⟩ := encodeOP_N_spec first last
  have opcode : (encodeOP_N version != OP_0 &&
      (encodeOP_N version < OP_1 || encodeOP_N version > OP_16)) = false := by
    simp [UInt8.not_lt.mpr low, UInt8.not_lt.mpr high]
  have notHash : isPayToScriptHash (encodeOP_N version :: pushData program) = false := by
    have other : encodeOP_N version ≠ OP_HASH160 := by
      intro same
      rw [same] at high
      exact absurd high (by decide)
    rw [isPayToScriptHash, getD_cons_zero, beq_eq_false_iff_ne.mpr other]
    simp
  have nonzero : version ≠ 0 := Nat.ne_of_gt first
  rw [singleton_append, solver, notHash, isWitnessProgram_version opcode long short, value]
  simp [solveWitness, nonzero]

lemma toUint256_bytes (hash : Uint256) : toUint256 hash.bytes = hash := by rw [toUint256, dif_pos hash.size]

lemma extractDestination_script (valid : dest.Valid) :
    extractDestination crypto (getScriptForDestination dest) = some dest := by
  cases dest with
  | noDestination => exact valid.elim
  | keyID id => simp [extractDestination, getScriptForDestination, solver_pubKeyHash, toUint160_bytes]
  | scriptID id => simp [extractDestination, getScriptForDestination, solver_scriptHash, toUint160_bytes]
  | witnessV0KeyHash id =>
    simp [extractDestination, getScriptForDestination, solver_witnessKeyHash, toUint160_bytes]
  | witnessV0ScriptHash id =>
    simp [extractDestination, getScriptForDestination, solver_witnessScriptHash, toUint256_bytes]
  | witnessUnknown id =>
    obtain ⟨first, last, long, short⟩ := valid
    have solved := solver_unknown (UInt32.le_iff_toNat_le.mp first) (UInt32.le_iff_toNat_le.mp last) long short
    have small : id.version.toNat < 256 := lt_of_le_of_lt (UInt32.le_iff_toNat_le.mp last) (by decide)
    rw [extractDestination, getScriptForDestination, solved]
    simp [Nat.mod_eq_of_lt small]

/-! Addresses of keys and scripts are told apart by their prefix. -/

lemma matchPrefix_append (pfx : Bytes) (id : Uint160) : matchPrefix pfx (pfx ++ id.bytes) = some id := by
  have length : (pfx ++ id.bytes).length = 20 + pfx.length := by rw [length_append, id.size, add_comm]
  have starts : pfx.isPrefixOf (pfx ++ id.bytes) = true := List.isPrefixOf_iff_prefix.mpr (prefix_append _ _)
  rw [matchPrefix, if_pos ⟨length, starts⟩, drop_left, toUint160_bytes]

variable {second : UInt8}

lemma matchPrefix_other {first : UInt8} (different : first ≠ second) (data : Bytes) :
    matchPrefix [first] ([second] ++ data) = none := by
  rw [matchPrefix, if_neg]
  rintro ⟨-, starts⟩
  simp [List.isPrefixOf, different] at starts

variable (network : Network) {id : Uint160}

lemma Network.prefixes : ∃ pubkey script : UInt8,
    network.params.pubkeyAddress = [pubkey] ∧ network.params.scriptAddress = [script] ∧ pubkey ≠ script := by
  cases network with
  | main => exact ⟨63, 125, rfl, rfl, by decide⟩
  | testnet => exact ⟨66, 128, rfl, rfl, by decide⟩
  | regtest => exact ⟨61, 123, rfl, rfl, by decide⟩

lemma decodeDestination_legacy (short : data.length < 2 ^ 30) (known : decodeLegacy params data = some dest) :
    ∃ address, encodeBase58Check crypto data = .ok address ∧
      decodeDestination crypto params address = .ok dest := by
  obtain ⟨address, encoded, decoded⟩ := decodeBase58Check_encodeBase58Check short
  refine ⟨address, encoded, ?_⟩
  rw [decodeDestination, decoded]
  dsimp only
  rw [known, Option.getD_some]

lemma decodeLegacy_pubkey :
    decodeLegacy network.params (network.params.pubkeyAddress ++ id.bytes) = some (.keyID id) := by
  rw [decodeLegacy, matchPrefix_append]

lemma decodeLegacy_script : decodeLegacy network.params (network.params.scriptAddress ++ id.bytes) =
      some (.scriptID id) := by
  obtain ⟨pubkey, script, first, second, different⟩ := network.prefixes
  rw [decodeLegacy, matchPrefix_append, first, second, matchPrefix_other different]
  rfl

/-! No witness address is also one of a key or a script. -/

namespace Network

/-- What a witness address starts with, read in Base58. -/
def leading (network : Network) : List Nat :=
  (network.params.bech32_hrp ++ [Bech32.separator]).map fun c => pszBase58.idxOf c

lemma leading_characters : network.leading.map character = network.params.bech32_hrp ++ [Bech32.separator] := by
  cases network <;> decide +kernel

lemma leading_small : ∀ value ∈ network.leading, value < 58 := by cases network <;> decide +kernel

/-- No number of 25 bytes that starts with a prefix starts like a witness address in
Base58, whatever the length of the address. -/
lemma leading_apart : ∀ count < 80, ∀ pfx ∈ network.params.pubkeyAddress ++ network.params.scriptAddress,
      (pfx.toNat + 1) * 256 ^ 24 ≤ Radix.horner 58 0 network.leading * 58 ^ count ∨
        (Radix.horner 58 0 network.leading + 1) * 58 ^ count ≤ pfx.toNat * 256 ^ 24 := by
  cases network <;> decide +kernel

lemma hrp_printed : network.params.bech32_hrp ≠ [] ∧
    network.params.bech32_hrp.length ≤ 6 ∧ network.params.bech32_hrp.head? ≠ some one ∧
      ∀ c ∈ network.params.bech32_hrp, Bech32.Printed c := by
  cases network <;> decide +kernel

end Network

lemma plain_of_printed (printed : ∀ c ∈ str, Bech32.Printed c) : Plain str := by
  intro c member
  have low : 33 ≤ c.toNat :=
    UInt8.le_iff_toNat_le.mp (UInt8.not_lt.mp fun below => (printed c member).1 (.inl below))
  constructor
  · rw [bne_iff_ne]
    rintro rfl
    exact absurd low (by decide)
  · have space : c ≠ 0x20 := by
      rintro rfl
      exact absurd low (by decide)
    have control : ¬ c ≤ 0x0d := fun small => absurd (le_trans low (UInt8.le_iff_toNat_le.mp small)) (by decide)
    simp [isspace, space, control]

/-- Base58Check, where it takes the string at all, finds neither prefix in it. -/
lemma decodeBase58Check_witness {network : Network}
    (fits : ∀ value ∈ values, value.toNat < 2 ^ 5) (short : values.length ≤ 65) :
    Outcome.Safe (fun data => decodeLegacy network.params data = none)
      (decodeBase58Check crypto (Bech32.encode network.params.bech32_hrp values)) := by
  obtain ⟨nonempty, hrpShort, first, printed⟩ := network.hrp_printed
  have head : (Bech32.encode network.params.bech32_hrp values).head? ≠ some one := by
    rw [Bech32.encode, append_assoc, head?_append_of_ne_nil _ nonempty]
    exact first
  have plain : Plain (Bech32.encode network.params.bech32_hrp values) := plain_of_printed
    (Bech32.string_printed printed (Bech32.combined_small fits))
  refine (decodeBase58Check_safe plain head ?_).mono ?_
  · rw [Bech32.length_encode]
    omega
  rintro data ⟨read, same, small, check, four, digits⟩
  obtain ⟨front, rest, rfl, start, later⟩ := map_eq_append_iff.mp same.symm
  obtain ⟨frontSmall, restSmall⟩ := forall_mem_append.mp small
  obtain rfl : front = network.leading := characters_injective frontSmall network.leading_small
    (start.trans network.leading_characters.symm)
  -- The number read lies between the multiples of a power of 58 that its first characters give.
  have bounds := Radix.horner_bounds (Radix.horner 58 0 network.leading) (by decide) restSmall
  have number : Radix.horner 58 (Radix.horner 58 0 network.leading) rest =
      Radix.horner 58 0 (network.leading ++ rest) := foldl_append.symm
  rw [number] at bounds
  have count : rest.length < 80 := by
    have length := congrArg List.length later
    rw [length_map, length_map, length_append, Bech32.length_createChecksum] at length
    omega
  have none (pfx : UInt8) (listed : pfx ∈ network.params.pubkeyAddress ++ network.params.scriptAddress) :
      matchPrefix [pfx] data = none := by
    rw [matchPrefix, if_neg]
    rintro ⟨length, starts⟩
    obtain ⟨hash, rfl⟩ := List.isPrefixOf_iff_prefix.mp starts
    rw [append_assoc, singleton_append] at digits
    have range := toRadix_range digits
    have size : (hash ++ check).length = 24 := by
      rw [length_append] at length ⊢
      simp at length
      omega
    rw [size] at range
    rcases network.leading_apart _ count pfx listed with below | above
    · exact absurd (lt_of_lt_of_le range.2 below) (Nat.not_lt_of_le bounds.1)
    · exact absurd (lt_of_lt_of_le bounds.2 above) (Nat.not_lt_of_le range.1)
  obtain ⟨pubkey, script, pub, scr, -⟩ := network.prefixes
  rw [pub, scr] at none
  rw [decodeLegacy, pub, scr, none pubkey (by simp), none script (by simp)]
  rfl

lemma decodeDestination_of_safe
    (safe : Outcome.Safe (fun data => decodeLegacy params data = none) (decodeBase58Check crypto str)) :
    decodeDestination crypto params str = .ok (decodeWitness params str) := by
  rw [decodeDestination]
  match decodeBase58Check crypto str, safe with
  | .ok data, other =>
    have unknown : decodeLegacy params data = none := other
    dsimp only
    rw [unknown, Option.getD_none]
  | .error (.error _), _ => rfl

lemma decodeDestination_encodeWitness {version : UInt8} {network : Network}
    (small : version.toNat < 2 ^ 5) (short : program.length ≤ 40) :
    decodeDestination crypto network.params (encodeWitness network.params version program) =
      .ok (witnessDestination version program) := by
  obtain ⟨groups, written, groupsSmall, size, read⟩ := convertBits_round_trip (by decide)
    (by decide : 5 ≤ 8) (le_refl 8) fun value (_ : value ∈ program) => value.toNat_lt
  obtain ⟨nonempty, hrpShort, -, printed⟩ := network.hrp_printed
  have values : ∀ value ∈ version :: groups, value.toNat < 2 ^ 5 := forall_mem_cons.mpr ⟨small, groupsSmall⟩
  have length : (version :: groups).length ≤ 65 := by
    rw [length_cons]
    omega
  rw [encodeWitness, written, decodeDestination_of_safe (decodeBase58Check_witness values length),
    decodeWitness, Bech32.decode_encode nonempty printed values (by omega)]
  dsimp only
  rw [if_pos rfl, read]

/-! Both encodings determine the destination. -/

lemma toNat_version {version : UInt32} (last : version ≤ 16) : (UInt8.ofNat version.toNat).toNat = version.toNat :=
  UInt8.toNat_ofNat_of_lt' (lt_of_le_of_lt (UInt32.le_iff_toNat_le.mp last) (by decide))

lemma witnessDestination_unknown {id : WitnessUnknown} (first : 1 ≤ id.version)
    (last : id.version ≤ 16) (long : 2 ≤ id.program.length) (short : id.program.length ≤ 40) :
    witnessDestination (UInt8.ofNat id.version.toNat) id.program = .witnessUnknown id := by
  have value := toNat_version last
  have low : 1 ≤ id.version.toNat := UInt32.le_iff_toNat_le.mp first
  have high : id.version.toNat ≤ 16 := UInt32.le_iff_toNat_le.mp last
  have nonzero : UInt8.ofNat id.version.toNat ≠ 0 := by
    intro zero
    rw [zero] at value
    exact absurd value (ne_of_lt low)
  have inside : ¬ (UInt8.ofNat id.version.toNat > 16 ∨ id.program.length < 2 ∨ id.program.length > 40) := by
    rintro (big | short | long)
    · have above : (16 : UInt8).toNat < _ := UInt8.lt_iff_toNat_lt.mp big
      rw [value] at above
      exact absurd high (Nat.not_le_of_lt above)
    · omega
    · omega
  rw [witnessDestination, if_neg nonzero, if_neg inside, value, UInt32.ofNat_toNat]

/-- On every network, for every destination the code can make. -/
theorem destination_round_trips (crypto : Crypto) (network : Network) {dest : CTxDestination}
    (valid : dest.Valid) : (∃ address, encodeDestination crypto network.params dest = .ok address ∧
      decodeDestination crypto network.params address = .ok dest) ∧
      extractDestination crypto (getScriptForDestination dest) = some dest := by
  refine ⟨?_, extractDestination_script valid⟩
  obtain ⟨pubkey, script, first, second, _⟩ := network.prefixes
  have short (pfx : UInt8) (id : Uint160) : ([pfx] ++ id.bytes).length < 2 ^ 30 := by
    rw [length_append, id.size, length_singleton]
    decide
  cases dest with
  | noDestination => exact valid.elim
  | keyID id =>
    refine decodeDestination_legacy ?_ (decodeLegacy_pubkey network)
    exact first ▸ short pubkey id
  | scriptID id =>
    refine decodeDestination_legacy ?_ (decodeLegacy_script network)
    exact second ▸ short script id
  | witnessV0KeyHash id =>
    refine ⟨_, rfl, (decodeDestination_encodeWitness (by decide) ?_).trans ?_⟩
    · rw [id.size]
      decide
    · rw [witnessDestination, if_pos rfl, if_pos id.size, toUint160_bytes]
  | witnessV0ScriptHash id =>
    refine ⟨_, rfl, (decodeDestination_encodeWitness (by decide) ?_).trans ?_⟩
    · rw [id.size]
      decide
    · have other : ¬ id.bytes.length = 20 := by
        rw [id.size]
        decide
      rw [witnessDestination, if_pos rfl, if_neg other, if_pos id.size, toUint256_bytes]
  | witnessUnknown id =>
    obtain ⟨first, last, long, short⟩ := valid
    have inside : ¬ (id.version < 1 ∨ id.version > 16 ∨ id.program.length < 2 ∨ id.program.length > 40) := by
      simp only [not_or, UInt32.not_lt, gt_iff_lt]
      exact ⟨first, last, Nat.not_lt_of_le long, Nat.not_lt_of_le short⟩
    refine ⟨_, if_neg inside, (decodeDestination_encodeWitness ?_ short).trans ?_⟩
    · rw [toNat_version last]
      exact lt_of_le_of_lt (UInt32.le_iff_toNat_le.mp last) (by decide)
    · rw [witnessDestination_unknown first last long short]

theorem version_sixteen_round_trips :
    (∃ address, encodeDestination Crypto.zeros Network.main.params (.witnessUnknown ⟨16, [1, 2]⟩) =
        .ok address ∧ decodeDestination Crypto.zeros Network.main.params address =
        .ok (.witnessUnknown ⟨16, [1, 2]⟩)) ∧
      extractDestination Crypto.zeros (getScriptForDestination (.witnessUnknown ⟨16, [1, 2]⟩)) =
        some (.witnessUnknown ⟨16, [1, 2]⟩) :=
  destination_round_trips Crypto.zeros .main ⟨by decide, by decide, by decide, by decide⟩

end Dragonchain.Script
