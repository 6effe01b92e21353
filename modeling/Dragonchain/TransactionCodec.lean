import Dragonchain.Serialization

/-!
Reading back what was written. Every writer of Serialization has a reader that
takes exactly its bytes, as long as the sizes are within MAX_SIZE. A transaction needs
an input as well, since an empty vin announces the extended format.
-/

namespace Dragonchain.Serialization

open ByteCodec List

variable {α : Type} {reader item : Reader α}

lemma reads_guarded {bytes : Bytes} {value : α} {condition : α → Prop} [DecidablePred condition]
    (first : Reads reader bytes value) (passes : ¬ condition value) :
    Reads (reader >>= fun answer => if condition answer then failure else pure answer) bytes value := by
  have kept : Reads (if condition value then failure else pure value : Reader α) [] value := by
    rw [if_neg passes]
    exact reads_pure
  have whole := first.bind (k := fun answer => if condition answer then failure else pure answer) kept
  rwa [append_nil] at whole

lemma reads_longSize {width minimum value : Nat} (fits : value < 256 ^ width)
    (canonical : minimum ≤ value) : Reads (readLongSize width minimum) (leBytes width value) value :=
  reads_guarded (reads_nat width value fits) (by omega)

lemma writeCompactSize_reads (nSize : Nat) (fits : nSize < 256 ^ 8) :
    ∃ chSize tail, chSize < 256 ∧ writeCompactSize nSize = leBytes 1 chSize ++ tail ∧
      Reads (readSize chSize) tail nSize := by
  unfold writeCompactSize
  by_cases short : nSize < 253
  · refine ⟨nSize, [], by omega, by simp [short], ?_⟩
    rw [readSize, if_pos short]
    exact reads_pure
  by_cases two : nSize ≤ 0xffff
  · refine ⟨253, leBytes 2 nSize, by decide, by simp [short, two, leBytes], ?_⟩
    exact reads_longSize (by omega) (by omega)
  by_cases four : nSize ≤ 0xffffffff
  · refine ⟨254, leBytes 4 nSize, by decide, by simp [short, two, four, leBytes], ?_⟩
    exact reads_longSize (by omega) (by omega)
  · refine ⟨255, leBytes 8 nSize, by decide, by simp [short, two, four, leBytes], ?_⟩
    exact reads_longSize fits (by omega)

lemma reads_compactSize {nSize : Nat} (limit : nSize ≤ MAX_SIZE) :
    Reads readCompactSize (writeCompactSize nSize) nSize := by
  have bound : MAX_SIZE < 256 ^ 8 := by decide
  obtain ⟨chSize, tail, small, written, rest⟩ := writeCompactSize_reads nSize (by omega)
  rw [written]
  refine (reads_nat 1 chSize (by omega)).bind ?_
  exact reads_guarded rest (by omega)

lemma reads_vector {encode : α → Bytes} {values : List α}
    (limit : values.length ≤ MAX_SIZE) (each : ∀ value ∈ values, Reads item (encode value) value) :
    Reads (readVector item) (serializeVector encode values) values :=
  (reads_compactSize limit).bind (reads_many each)

lemma reads_serializedBytes {data : Bytes} (limit : data.length ≤ MAX_SIZE) :
    Reads unserializeBytes (serializeBytes data) data :=
  (reads_compactSize limit).bind (reads_bytes data)

lemma reads_uint32 (value : UInt32) : Reads readUInt32 (serializeUInt32 value) value := by
  have raw := (reads_nat 4 value.toNat value.toNat_lt).map UInt32.ofNat
  rwa [UInt32.ofNat_toNat] at raw

lemma reads_int32 {value : Int32} : Reads readInt32 (serializeInt32 value) value := by
  have raw := (reads_uint32 value.toUInt32).map UInt32.toInt32
  rwa [show value.toUInt32.toInt32 = value from rfl] at raw

lemma reads_uint64 (value : UInt64) : Reads readUInt64 (serializeUInt64 value) value := by
  have raw := (reads_nat 8 value.toNat value.toNat_lt).map UInt64.ofNat
  rwa [UInt64.ofNat_toNat] at raw

lemma reads_int64 {value : Int64} : Reads readInt64 (serializeInt64 value) value := by
  have raw := (reads_uint64 value.toUInt64).map UInt64.toInt64
  rwa [show value.toUInt64.toInt64 = value from rfl] at raw

lemma reads_uint256 {hash : Uint256} : Reads readUint256 hash.bytes hash := by
  intro rest
  obtain ⟨bytes, size⟩ := hash
  have enough : 32 ≤ (bytes ++ rest).length := by
    rw [length_append, size]
    omega
  have taken : (bytes ++ rest).take 32 = bytes := take_left' size
  have left : (bytes ++ rest).drop 32 = rest := drop_left' size
  rw [readUint256, dif_pos enough]
  simp [taken, left]

lemma reads_outPoint {prevout : COutPoint} : Reads unserializeOutPoint (serializeOutPoint prevout) prevout := by
  refine reads_uint256.bind ?_
  exact (reads_uint32 prevout.n).last

/-- The input as written: witnesses are not part of it. -/
def stripped (txin : CTxIn) : CTxIn := { txin with scriptWitness := [] }

lemma reads_txIn {txin : CTxIn} (limit : txin.scriptSig.length ≤ MAX_SIZE) :
    Reads unserializeTxIn (serializeTxIn txin) (stripped txin) := by
  rw [serializeTxIn, append_assoc]
  refine reads_outPoint.bind ?_
  refine (reads_serializedBytes limit).bind ?_
  exact (reads_uint32 txin.nSequence).last

lemma reads_txOut {txout : CTxOut} (limit : txout.scriptPubKey.length ≤ MAX_SIZE) :
    Reads unserializeTxOut (serializeTxOut txout) txout := by
  refine reads_int64.bind ?_
  exact (reads_serializedBytes limit).last

/-- Sizes that the reader accepts. -/
structure WithinLimits (tx : CTransaction) : Prop where
  inputs : 0 < tx.vin.length ∧ tx.vin.length ≤ MAX_SIZE
  scriptSigs : ∀ txin ∈ tx.vin, txin.scriptSig.length ≤ MAX_SIZE
  outputs : tx.vout.length ≤ MAX_SIZE
  scriptPubKeys : ∀ txout ∈ tx.vout, txout.scriptPubKey.length ≤ MAX_SIZE
  witnessStacks : ∀ txin ∈ tx.vin, txin.scriptWitness.length ≤ MAX_SIZE
  witnessItems : ∀ txin ∈ tx.vin, ∀ item ∈ txin.scriptWitness, item.length ≤ MAX_SIZE

/-- The sizes of a transaction that was read; unlike WithinLimits, without an input as well. -/
structure SizesFit (tx : CTransaction) : Prop where
  inputs : tx.vin.length ≤ MAX_SIZE
  scriptSigs : ∀ txin ∈ tx.vin, txin.scriptSig.length ≤ MAX_SIZE
  outputs : tx.vout.length ≤ MAX_SIZE
  scriptPubKeys : ∀ txout ∈ tx.vout, txout.scriptPubKey.length ≤ MAX_SIZE
  witnessStacks : ∀ txin ∈ tx.vin, txin.scriptWitness.length ≤ MAX_SIZE
  witnessItems : ∀ txin ∈ tx.vin, ∀ item ∈ txin.scriptWitness, item.length ≤ MAX_SIZE

section Transaction
variable {tx : CTransaction}

lemma WithinLimits.sizesFit (limits : WithinLimits tx) : SizesFit tx :=
  ⟨limits.inputs.2, limits.scriptSigs, limits.outputs, limits.scriptPubKeys, limits.witnessStacks,
    limits.witnessItems⟩

lemma serializeVector_stripped (vin : List CTxIn) :
    serializeVector serializeTxIn (vin.map stripped) = serializeVector serializeTxIn vin := by
  simp only [serializeVector, length_map, flatMap_map]
  rfl

lemma serializeWitness_stacks (tx : CTransaction) :
    serializeWitness tx = (tx.vin.map CTxIn.scriptWitness).flatMap (serializeVector serializeBytes) := by
  rw [serializeWitness, flatMap_map]

lemma reads_vin (fits : SizesFit tx) :
    Reads (readVector unserializeTxIn) (serializeVector serializeTxIn tx.vin) (tx.vin.map stripped) := by
  rw [← serializeVector_stripped]
  refine reads_vector (by rw [length_map]; exact fits.inputs) fun txin member => ?_
  obtain ⟨whole, listed, rfl⟩ := mem_map.mp member
  exact reads_txIn (fits.scriptSigs whole listed)

lemma reads_vout (fits : SizesFit tx) :
    Reads (readVector unserializeTxOut) (serializeVector serializeTxOut tx.vout) tx.vout :=
  reads_vector fits.outputs fun txout member => reads_txOut (fits.scriptPubKeys txout member)

lemma reads_markedInOuts (fits : SizesFit tx) :
    Reads (unserializeInOuts true) ((serializeVector serializeTxIn [] ++ [1])
      ++ serializeVector serializeTxIn tx.vin ++ serializeVector serializeTxOut tx.vout)
      (1, tx.vin.map stripped, tx.vout) := by
  have dummy : Reads (readVector unserializeTxIn) (serializeVector serializeTxIn []) [] :=
    reads_vector (by simp) (by simp)
  have marker : Reads (UInt8.ofNat <$> readNat 1) [1] 1 := (reads_nat 1 1 (by decide)).map _
  rw [append_assoc, append_assoc]
  refine dummy.bind ?_
  refine marker.bind ?_
  refine (reads_vin fits).bind ?_
  exact (reads_vout fits).last

lemma setWitnesses_stripped (vin : List CTxIn) :
    setWitnesses (vin.map stripped) (vin.map CTxIn.scriptWitness) = vin := by
  induction vin with
  | nil => rfl
  | cons txin rest ih => exact congrArg _ ih

lemma reads_witnesses (fits : SizesFit tx) :
    Reads (unserializeWitnesses true 1 (tx.vin.map stripped)) (serializeWitness tx) (0, tx.vin) := by
  have many := reads_many fun stack member => by
      obtain ⟨txin, listed, rfl⟩ := mem_map.mp member
      exact reads_vector (fits.witnessStacks txin listed) fun item held =>
        reads_serializedBytes (fits.witnessItems txin listed item held)
  rw [length_map, ← length_map stripped, ← serializeWitness_stacks] at many
  have set := many.last (f := fun given => ((1 : UInt8) ^^^ 1, setWitnesses (tx.vin.map stripped) given))
  rwa [setWitnesses_stripped] at set

lemma stripped_of_no_witness (bare : tx.hasWitness = false) : tx.vin.map stripped = tx.vin := by
  have empty : ∀ txin ∈ tx.vin, stripped txin = txin := by
    intro txin member
    have none : txin.scriptWitness = [] := by simpa using any_eq_false.mp bare txin member
    rw [stripped, ← none]
  exact (map_congr_left empty).trans (map_id _)

variable (limits : WithinLimits tx) {fAllowWitness : Bool}
include limits fAllowWitness

lemma reads_inOuts : Reads (unserializeInOuts fAllowWitness)
      ((if fAllowWitness && tx.hasWitness then serializeVector serializeTxIn [] ++ [1] else [])
        ++ serializeVector serializeTxIn tx.vin ++ serializeVector serializeTxOut tx.vout)
      (if fAllowWitness && tx.hasWitness then 1 else 0, tx.vin.map stripped, tx.vout) := by
  have full : (tx.vin.map stripped).isEmpty = false := by
    have positive := limits.inputs.1
    simpa [length_pos_iff] using positive
  by_cases extended : (fAllowWitness && tx.hasWitness) = true
  · rw [if_pos extended, if_pos extended]
    obtain ⟨rfl, _⟩ := Bool.and_eq_true_iff.mp extended
    exact reads_markedInOuts limits.sizesFit
  · rw [if_neg extended, if_neg extended, nil_append]
    refine (reads_vin limits.sizesFit).bind ?_
    rw [full, Bool.false_and, if_neg Bool.false_ne_true]
    exact (reads_vout limits.sizesFit).last

lemma reads_witnessPart :
    Reads (unserializeWitnesses fAllowWitness (if fAllowWitness && tx.hasWitness then 1 else 0)
        (tx.vin.map stripped)) (if fAllowWitness && tx.hasWitness then serializeWitness tx else [])
      (0, if fAllowWitness then tx.vin else tx.vin.map stripped) := by
  by_cases extended : (fAllowWitness && tx.hasWitness) = true
  · obtain ⟨rfl, _⟩ := Bool.and_eq_true_iff.mp extended
    rw [if_pos extended, if_pos extended, if_pos rfl]
    exact reads_witnesses limits.sizesFit
  · rw [if_neg extended, if_neg extended]
    have kept : tx.vin.map stripped = if fAllowWitness then tx.vin else tx.vin.map stripped := by
      cases fAllowWitness with
      | false => rfl
      | true => exact stripped_of_no_witness (by simpa using extended)
    rw [← kept]
    exact reads_pure

lemma reads_transaction :
    Reads (unserializeTransaction fAllowWitness) (serializeTransaction fAllowWitness tx)
      { tx with vin := if fAllowWitness then tx.vin else tx.vin.map stripped } := by
  have parts : serializeTransaction fAllowWitness tx = serializeInt32 tx.nVersion
      ++ (((if fAllowWitness && tx.hasWitness then serializeVector serializeTxIn [] ++ [1] else [])
        ++ serializeVector serializeTxIn tx.vin ++ serializeVector serializeTxOut tx.vout)
      ++ ((if fAllowWitness && tx.hasWitness then serializeWitness tx else [])
        ++ serializeUInt32 tx.nLockTime)) := by
    simp [serializeTransaction]
  rw [parts]
  refine reads_int32.bind ?_
  refine (reads_inOuts limits).bind ?_
  refine (reads_witnessPart limits).bind ?_
  exact (reads_uint32 tx.nLockTime).last

omit limits fAllowWitness

lemma reads_header {header : CBlockHeader} : Reads unserializeHeader (serializeHeader header) header := by
  simp only [serializeHeader, append_assoc]
  refine reads_int32.bind ?_
  refine reads_uint256.bind ?_
  refine reads_uint256.bind ?_
  refine (reads_uint32 header.nTime).bind ?_
  refine (reads_uint32 header.nBits).bind ?_
  exact (reads_uint32 header.nNonce).last

end Transaction

end Dragonchain.Serialization
