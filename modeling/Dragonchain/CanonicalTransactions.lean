import Dragonchain.TransactionCodec

/-!
UnserializeTransaction read backwards. Every reader of Serialization takes exactly the
bytes its writer makes for the value, so a byte string that is accepted is one of the two
forms of its transaction. The reader also takes the extended form of a transaction
without witnesses, which the writer never makes.
-/

namespace Dragonchain.Serialization

open ByteCodec List

variable {width minimum chSize count : Nat}

/-- The reader returns only values with the property, and takes what the writer makes of them. -/
def Canonical {α : Type} (reader : Reader α) (encode : α → Bytes) (property : α → Prop) : Prop :=
  Takes reader fun value bytes => property value ∧ bytes = encode value

lemma takes_longSize :
    Takes (readLongSize width minimum) fun nSize bytes =>
      minimum ≤ nSize ∧ nSize < 256 ^ width ∧ bytes = leBytes width nSize := by
  refine takes_nat.guarded.mono ?_
  rintro nSize bytes ⟨⟨fits, rfl⟩, canonical⟩
  exact ⟨by omega, fits, rfl⟩

lemma takes_size : Takes (readSize chSize) fun nSize bytes =>
    chSize < 256 ^ 1 → writeCompactSize nSize = leBytes 1 chSize ++ bytes := by
  rw [readSize]
  split
  · rename_i short
    refine takes_pure.mono ?_
    rintro nSize bytes ⟨rfl, rfl⟩ _
    rw [writeCompactSize, if_pos short, append_nil]
  split
  · rename_i two
    refine takes_longSize.mono ?_
    rintro nSize bytes ⟨canonical, fits, rfl⟩ _
    rw [writeCompactSize, if_neg (by omega), if_pos (by omega), two]
    rfl
  split_ifs with four
  · refine takes_longSize.mono ?_
    rintro nSize bytes ⟨canonical, fits, rfl⟩ _
    rw [writeCompactSize, if_neg (by omega), if_neg (by omega), if_pos (by omega), four]
    rfl
  · refine takes_longSize.mono ?_
    rintro nSize bytes ⟨canonical, fits, rfl⟩ small
    have eight : chSize = 255 := by omega
    rw [writeCompactSize, if_neg (by omega), if_neg (by omega), if_neg (by omega), eight]
    rfl

lemma canonical_compactSize : Canonical readCompactSize writeCompactSize (· ≤ MAX_SIZE) := by
  refine (takes_nat.bind fun chSize => takes_size.guarded).mono ?_
  rintro nSize bytes ⟨chSize, front, back, rfl, ⟨small, rfl⟩, written, limit⟩
  exact ⟨Nat.not_lt.mp limit, (written small).symm⟩

section Items
variable {α : Type} {item : Reader α} {encode : α → Bytes} {property : α → Prop}

lemma takes_canonical_many (each : Canonical item encode property) :
    Takes (readMany item count) fun values bytes =>
      values.length = count ∧ (∀ value ∈ values, property value) ∧ bytes = values.flatMap encode := by
  refine (takes_many each).mono ?_
  rintro values bytes ⟨length, parts, rfl, related⟩
  refine ⟨length, ?_⟩
  clear length
  induction related with
  | nil => exact ⟨by simp, rfl⟩
  | cons here _ ih =>
    refine ⟨?_, ?_⟩
    · intro value member
      rcases mem_cons.mp member with rfl | later
      · exact here.1
      · exact ih.1 value later
    · rw [flatten_cons, flatMap_cons, here.2, ih.2]

lemma canonical_vector (each : Canonical item encode property) :
    Canonical (readVector item) (serializeVector encode)
      fun values => values.length ≤ MAX_SIZE ∧ ∀ value ∈ values, property value := by
  refine (canonical_compactSize.bind fun nSize => takes_canonical_many each).mono ?_
  rintro values bytes ⟨nSize, front, back, rfl, ⟨limit, rfl⟩, rfl, holds, rfl⟩
  exact ⟨⟨limit, holds⟩, rfl⟩

end Items

lemma canonical_bytes : Canonical unserializeBytes serializeBytes fun data => data.length ≤ MAX_SIZE := by
  refine (canonical_compactSize.bind fun nSize => takes_bytes).mono ?_
  rintro data bytes ⟨nSize, front, back, rfl, ⟨limit, rfl⟩, rfl, rfl⟩
  exact ⟨limit, rfl⟩

lemma canonical_uint32 : Canonical readUInt32 serializeUInt32 fun _ => True := by
  refine (takes_nat.map UInt32.ofNat).mono ?_
  rintro value bytes ⟨nat, rfl, fits, rfl⟩
  rw [serializeUInt32, UInt32.toNat_ofNat', Nat.mod_eq_of_lt (show nat < 2 ^ 32 from fits)]
  exact ⟨trivial, rfl⟩

lemma canonical_int32 : Canonical readInt32 serializeInt32 fun _ => True := by
  refine (canonical_uint32.map UInt32.toInt32).mono ?_
  rintro value bytes ⟨word, rfl, _, rfl⟩
  exact ⟨trivial, rfl⟩

lemma canonical_int64 : Canonical readInt64 serializeInt64 fun _ => True := by
  refine ((takes_nat.map UInt64.ofNat).map UInt64.toInt64).mono ?_
  rintro value bytes ⟨word, rfl, nat, rfl, fits, rfl⟩
  change True ∧ leBytes 8 nat = leBytes 8 (UInt64.ofNat nat).toNat
  rw [UInt64.toNat_ofNat', Nat.mod_eq_of_lt (show nat < 2 ^ 64 from fits)]
  exact ⟨trivial, rfl⟩

lemma canonical_uint256 : Canonical readUint256 Uint256.bytes fun _ => True := by
  intro input hash rest done
  rw [readUint256] at done
  split at done
  · cases done
    exact ⟨input.take 32, (take_append_drop 32 input).symm, trivial, rfl⟩
  · cases done

lemma canonical_outPoint : Canonical unserializeOutPoint serializeOutPoint fun _ => True := by
  refine (canonical_uint256.bind fun hash => canonical_uint32.bind fun n => takes_pure).mono ?_
  rintro prevout bytes ⟨hash, front, back, rfl, ⟨_, rfl⟩, n, front', back', rfl, ⟨_, rfl⟩, rfl, rfl⟩
  exact ⟨trivial, by rw [append_nil]; rfl⟩

lemma canonical_txIn : Canonical unserializeTxIn serializeTxIn
    fun txin => txin.scriptSig.length ≤ MAX_SIZE ∧ txin.scriptWitness = [] := by
  refine (canonical_outPoint.bind fun prevout => canonical_bytes.bind fun scriptSig =>
    canonical_uint32.bind fun nSequence => takes_pure).mono ?_
  rintro txin bytes ⟨prevout, front, back, rfl, ⟨_, rfl⟩, scriptSig, front', back', rfl, ⟨limit, rfl⟩,
    nSequence, front'', back'', rfl, ⟨_, rfl⟩, rfl, rfl⟩
  refine ⟨⟨limit, rfl⟩, ?_⟩
  rw [serializeTxIn, append_nil, append_assoc]

lemma canonical_txOut : Canonical unserializeTxOut serializeTxOut
    fun txout => txout.scriptPubKey.length ≤ MAX_SIZE := by
  refine (canonical_int64.bind fun nValue => canonical_bytes.bind fun scriptPubKey => takes_pure).mono ?_
  rintro txout bytes ⟨nValue, front, back, rfl, ⟨_, rfl⟩, scriptPubKey, front', back', rfl, ⟨limit, rfl⟩, rfl, rfl⟩
  exact ⟨limit, by rw [append_nil]; rfl⟩

/-! Transactions. -/

/-- The format without marker, flags and witnesses. -/
def basicForm (tx : CTransaction) : Bytes :=
  serializeInt32 tx.nVersion ++ serializeVector serializeTxIn tx.vin
    ++ serializeVector serializeTxOut tx.vout ++ serializeUInt32 tx.nLockTime

/-- The extended format, with its dummy vin and the flags 1. -/
def extendedForm (tx : CTransaction) : Bytes :=
  serializeInt32 tx.nVersion ++ (serializeVector serializeTxIn [] ++ [1])
    ++ serializeVector serializeTxIn tx.vin ++ serializeVector serializeTxOut tx.vout
    ++ serializeWitness tx ++ serializeUInt32 tx.nLockTime

lemma serializeTransaction_true (tx : CTransaction) :
    serializeTransaction true tx = if tx.hasWitness then extendedForm tx else basicForm tx := by
  cases witness : tx.hasWitness <;> simp [serializeTransaction, extendedForm, basicForm, witness]

structure BareFit (vin : List CTxIn) (vout : List CTxOut) : Prop where
  inputs : vin.length ≤ MAX_SIZE
  bare : ∀ txin ∈ vin, txin.scriptSig.length ≤ MAX_SIZE ∧ txin.scriptWitness = []
  outputs : vout.length ≤ MAX_SIZE
  scriptPubKeys : ∀ txout ∈ vout, txout.scriptPubKey.length ≤ MAX_SIZE

lemma takes_inOuts : Takes (unserializeInOuts true) fun (flags, vin, vout) bytes =>
    BareFit vin vout ∧
      ((flags = 0 ∧ bytes = serializeVector serializeTxIn vin ++ serializeVector serializeTxOut vout) ∨
        (flags ≠ 0 ∧ bytes = serializeVector serializeTxIn [] ++ [flags]
          ++ serializeVector serializeTxIn vin ++ serializeVector serializeTxOut vout)) := by
  have inputs := canonical_vector canonical_txIn
  have outputs := canonical_vector canonical_txOut
  intro input ⟨flags, vin, vout⟩ rest done
  obtain ⟨⟨first, middle⟩, read, followed⟩ := Option.bind_eq_some_iff.mp done
  obtain ⟨front, split, ⟨limit, bare⟩, rfl⟩ := inputs input first middle read
  dsimp only at followed
  split_ifs at followed with empty
  · rw [Bool.and_true, List.isEmpty_iff] at empty
    subst empty
    obtain ⟨⟨flag, middle'⟩, readFlag, followed'⟩ := Option.bind_eq_some_iff.mp followed
    obtain ⟨one, split', nat, rfl, small, rfl⟩ := (takes_nat.map UInt8.ofNat) middle flag middle' readFlag
    dsimp only at followed'
    split at followed'
    · rename_i marked
      obtain ⟨back, split'', vin', front', back', rfl, ⟨⟨limit', bare'⟩, rfl⟩, vout', front'', back'', rfl,
          ⟨⟨limit'', fits⟩, rfl⟩, same, rfl⟩ :=
        (inputs.bind fun vin => outputs.bind fun vout => takes_pure) middle' (flags, vin, vout) rest followed'
      cases same
      refine ⟨_, ?_, ⟨limit', bare', limit'', fits⟩, .inr ⟨by simpa using marked, rfl⟩⟩
      rw [split, split', split'']
      simp [leBytes]
    · -- the flags are zero: what was read is an empty vin and an empty vout
      rename_i zero
      cases followed'
      have none : UInt8.ofNat nat = 0 := by simpa using zero
      refine ⟨_, ?_, ⟨by simp, by simp, by simp, by simp⟩, .inl ⟨none, rfl⟩⟩
      rw [split, split', leBytes, none]
      rfl
  · obtain ⟨back, split', vout', front', back', rfl, ⟨⟨limit', fits⟩, rfl⟩, same, rfl⟩ :=
      (outputs.bind fun vout => takes_pure) middle (flags, vin, vout) rest followed
    cases same
    refine ⟨_, ?_, ⟨limit, bare, limit', fits⟩, .inl ⟨rfl, rfl⟩⟩
    rw [split, split', append_nil, append_assoc]

variable {vin : List CTxIn} {vout : List CTxOut} {witnesses : List (List Bytes)}

lemma setWitnesses_parts (length : witnesses.length = vin.length) :
    (setWitnesses vin witnesses).map stripped = vin.map stripped ∧
      (setWitnesses vin witnesses).map CTxIn.scriptWitness = witnesses := by
  induction vin generalizing witnesses with
  | nil =>
    rw [length_eq_zero_iff.mp length]
    exact ⟨rfl, rfl⟩
  | cons txin rest ih =>
    cases witnesses with
    | nil => cases length
    | cons stack others =>
      obtain ⟨bare, stacked⟩ := ih (Nat.succ.inj length)
      exact ⟨congrArg (stripped txin :: ·) bare, congrArg (stack :: ·) stacked⟩

lemma sizesFit_setWitnesses {nVersion : Int32} {nLockTime : UInt32} (bare : BareFit vin vout)
    (length : witnesses.length = vin.length)
    (fit : ∀ stack ∈ witnesses, stack.length ≤ MAX_SIZE ∧ ∀ item ∈ stack, item.length ≤ MAX_SIZE) :
    SizesFit { vin := setWitnesses vin witnesses, vout, nVersion, nLockTime } := by
  obtain ⟨same, stacked⟩ := setWitnesses_parts length
  have held : ∀ txin ∈ setWitnesses vin witnesses, txin.scriptWitness ∈ witnesses := by
    intro txin member
    rw [← stacked]
    exact mem_map_of_mem member
  constructor
  · have count := congrArg List.length same
    rw [length_map, length_map] at count
    exact count.trans_le bare.inputs
  · intro txin member
    have listed : stripped txin ∈ vin.map stripped := by
      rw [← same]
      exact mem_map_of_mem member
    obtain ⟨read, member', equal⟩ := mem_map.mp listed
    have script : (stripped read).scriptSig = (stripped txin).scriptSig := by rw [equal]
    change (stripped txin).scriptSig.length ≤ MAX_SIZE
    rw [← script]
    exact (bare.bare read member').1
  · exact bare.outputs
  · exact bare.scriptPubKeys
  · exact fun txin member => (fit _ (held txin member)).1
  · exact fun txin member => (fit _ (held txin member)).2

lemma BareFit.sizesFit (bare : BareFit vin vout)
    (nVersion : Int32) (nLockTime : UInt32) : SizesFit { vin, vout, nVersion, nLockTime } := by
  have none : ∀ txin ∈ vin, txin.scriptWitness = [] := fun txin member => (bare.bare txin member).2
  constructor
  · exact bare.inputs
  · exact fun txin member => (bare.bare txin member).1
  · exact bare.outputs
  · exact bare.scriptPubKeys
  · intro txin member
    rw [none txin member]
    exact Nat.zero_le _
  · intro txin member item held
    rw [none txin member] at held
    cases held

lemma BareFit.hasWitness (bare : BareFit vin vout) (nVersion : Int32) (nLockTime : UInt32) :
    ({ vin, vout, nVersion, nLockTime } : CTransaction).hasWitness = false := by
  rw [CTransaction.hasWitness, any_eq_false]
  intro txin member
  rw [(bare.bare txin member).2]
  simp

/-- A byte string that is accepted as a transaction is its basic form, if it has no witness,
or its extended form. -/
lemma unserializeTransaction_forms {bytes : Bytes} {tx : CTransaction}
    (done : unserializeTransaction true bytes = some (tx, [])) :
    SizesFit tx ∧ ((tx.hasWitness = false ∧ bytes = basicForm tx) ∨ bytes = extendedForm tx) := by
  obtain ⟨⟨nVersion, afterVersion⟩, readVersion, done⟩ := Option.bind_eq_some_iff.mp done
  obtain ⟨version, cut, _, rfl⟩ := canonical_int32 bytes nVersion afterVersion readVersion
  obtain ⟨⟨⟨flags, vin, vout⟩, afterParts⟩, readParts, done⟩ := Option.bind_eq_some_iff.mp done
  obtain ⟨parts, cutParts, bare, forms⟩ := takes_inOuts afterVersion (flags, vin, vout) afterParts readParts
  obtain ⟨⟨⟨left, vin'⟩, afterWitness⟩, readWitness, done⟩ := Option.bind_eq_some_iff.mp done
  dsimp only at done readWitness forms
  split at done
  · cases done
  · rename_i known
    have clear : left = 0 := by simpa using known
    obtain ⟨lock, cutLock, nLockTime, front, back, rfl, ⟨_, rfl⟩, same, rfl⟩ :=
      (canonical_uint32.bind fun nLockTime => takes_pure) afterWitness tx [] done
    subst same
    rw [append_nil, append_nil] at cutLock
    rw [unserializeWitnesses, Bool.and_true] at readWitness
    split at readWitness
    · -- the witness flag: the other flags are clear, so it was the only one
      obtain ⟨⟨witnesses, afterStacks⟩, readStacks, finished⟩ := Option.bind_eq_some_iff.mp readWitness
      obtain ⟨stackBytes, cutStacks, length, fit, rfl⟩ :=
        takes_canonical_many (canonical_vector canonical_bytes) afterParts witnesses afterStacks readStacks
      cases finished
      have one : flags = 1 := by
        have cancelled : flags ^^^ 1 ^^^ 1 = 0 ^^^ 1 := congrArg (· ^^^ 1) clear
        rw [UInt8.xor_assoc] at cancelled
        simpa using cancelled
      obtain ⟨same, stacked⟩ := setWitnesses_parts length
      refine ⟨sizesFit_setWitnesses bare length fit, .inr ?_⟩
      rcases forms with ⟨zero, _⟩ | ⟨_, written⟩
      · rw [zero] at one
        cases one
      · rw [extendedForm, serializeWitness_stacks]
        rw [stacked, ← serializeVector_stripped (setWitnesses vin witnesses), same,
          serializeVector_stripped, cut, cutParts, cutStacks, cutLock, written, one]
        simp
    · cases readWitness
      refine ⟨bare.sizesFit nVersion nLockTime, .inl ⟨bare.hasWitness nVersion nLockTime, ?_⟩⟩
      rcases forms with ⟨_, written⟩ | ⟨marked, _⟩
      · rw [basicForm, cut, cutParts, cutLock, written]
        simp
      · exact absurd clear marked

/-! The extended form is read back whether or not there is a witness in it. -/

lemma reads_extendedForm {tx : CTransaction} (fits : SizesFit tx) :
    Reads (unserializeTransaction true) (extendedForm tx) tx := by
  rw [extendedForm, append_assoc _ (serializeWitness tx), append_assoc _ _ (_ ++ _),
    append_assoc _ _ (_ ++ (_ ++ _)), append_assoc (serializeInt32 tx.nVersion)]
  refine reads_int32.bind ?_
  rw [← append_assoc, ← append_assoc]
  refine (reads_markedInOuts fits).bind ?_
  refine (reads_witnesses fits).bind ?_
  exact (reads_uint32 tx.nLockTime).last

/-- The extended form of a transaction none of whose inputs has a witness. -/
def Superfluous (bytes : Bytes) : Prop :=
  ∃ tx : CTransaction, SizesFit tx ∧ tx.hasWitness = false ∧ bytes = extendedForm tx

lemma extendedForm_ne_basicForm {tx : CTransaction} : extendedForm tx ≠ basicForm tx := by
  intro same
  have lengths := congrArg List.length same
  simp only [extendedForm, basicForm, length_append, length_singleton] at lengths
  omega

/-- An accepted byte string is what the writer makes of its transaction, unless it is the
extended form of a transaction without witnesses. -/
theorem unserializeTransaction_canonical_iff (bytes : Bytes) (tx : CTransaction)
    (done : unserializeTransaction true bytes = some (tx, [])) :
    serializeTransaction true tx = bytes ↔ ¬ Superfluous bytes := by
  obtain ⟨fits, forms⟩ := unserializeTransaction_forms done
  rw [serializeTransaction_true]
  constructor
  · rintro written ⟨other, fits', bare, rfl⟩
    -- the reader takes the superfluous form as its own transaction
    have same : other = tx := by
      have read := reads_extendedForm fits' []
      rw [append_nil, done] at read
      exact (Prod.mk.inj (Option.some.inj read)).1.symm
    subst same
    rw [if_neg (by rw [bare]; exact Bool.false_ne_true)] at written
    exact extendedForm_ne_basicForm written.symm
  · intro needed
    rcases forms with ⟨bare, rfl⟩ | rfl
    · rw [if_neg (by rw [bare]; exact Bool.false_ne_true)]
    · by_cases witness : tx.hasWitness = true
      · rw [if_pos witness]
      · rw [Bool.not_eq_true] at witness
        exact absurd ⟨tx, fits, witness, rfl⟩ needed

/-- Both formats are read back, and whatever follows is left in the stream: with witnesses
the transaction itself, without them the transaction with its witnesses cleared. -/
theorem transaction_reads_back (tx : CTransaction) (limits : WithinLimits tx) :
    Reads (unserializeTransaction true) (serializeTransaction true tx) tx ∧
      Reads (unserializeTransaction false) (serializeTransaction false tx) { tx with vin := tx.vin.map stripped } :=
  ⟨reads_transaction limits, reads_transaction limits⟩

/-! A transaction with one input, as the writer makes it and with a superfluous marker. -/

namespace OneInput

def tx (scriptWitness : List Bytes) : CTransaction where
  vin := [{ prevout := ⟨Uint256.one, 0⟩, scriptSig := [], nSequence := 0xffffffff, scriptWitness }]
  vout := [{ nValue := 1000, scriptPubKey := [0x51] }]
  nVersion := 2
  nLockTime := 0

lemma sizes : WithinLimits (tx [[1, 2]]) := by constructor <;> simp [tx, MAX_SIZE]

theorem witness_reads_back : WithinLimits (tx [[1, 2]]) ∧
      Reads (unserializeTransaction true) (serializeTransaction true (tx [[1, 2]])) (tx [[1, 2]]) ∧
      Reads (unserializeTransaction false) (serializeTransaction false (tx [[1, 2]])) (tx []) := by
  exact ⟨sizes, transaction_reads_back (tx [[1, 2]]) sizes⟩

theorem witness_canonical : unserializeTransaction true (extendedForm (tx [[1, 2]])) = some (tx [[1, 2]], []) ∧
      ¬ Superfluous (extendedForm (tx [[1, 2]])) := by
  have done : unserializeTransaction true (extendedForm (tx [[1, 2]])) = some (tx [[1, 2]], []) := by decide +kernel
  exact ⟨done, (unserializeTransaction_canonical_iff _ _ done).mp (by decide +kernel)⟩

/-- The marker and flags before a transaction without a witness are accepted, and not written. -/
theorem superfluous_accepted : unserializeTransaction true (extendedForm (tx [])) = some (tx [], []) ∧
      serializeTransaction true (tx []) ≠ extendedForm (tx []) := by
  decide +kernel

end OneInput

end Dragonchain.Serialization
