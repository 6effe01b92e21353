import Dragonchain.PartialMerkleTree
import Dragonchain.TransactionCodec

/-!
Building a partial merkle tree, its wire format, and the way back. The bits are packed into
bytes, least significant first, so a deserialized tree has up to seven bits more than the
one that was written.
-/

namespace Dragonchain.Merkle

open MerkleTree Serialization ByteCodec List

variable {offset q nTransactions pos used : Nat} {vBits restBits : List Bool} {bit : Bool}
  {tree : CPartialMerkleTree} {rest restHashes : List Uint256}

section Build
variable (crypto : Crypto) (vTxid : List Uint256) (vMatch : List Bool)

def calcHash : Nat → Nat → Uint256
  | 0, pos => vTxid.getD pos Uint256.null
  | height + 1, pos =>
    let left := calcHash height (pos * 2)
    let right := if pos * 2 + 1 < calcTreeWidth vTxid.length height then calcHash height (pos * 2 + 1) else left
    hashPair crypto left right

/-- The positions from pos << height on that the loop of TraverseAndBuild looks at. -/
def covered (nTransactions height pos : Nat) : List Nat :=
  (range' (pos * 2 ^ height) (2 ^ height)).filter (· < nTransactions)

def parentOfMatch (height pos : Nat) : Bool := (covered vTxid.length height pos).any fun p => vMatch.getD p false

/-- TraverseAndBuild: the bits and the hashes it appends. -/
def traverseAndBuild : Nat → Nat → List Bool × List Uint256
  | 0, pos => ([parentOfMatch vTxid vMatch 0 pos], [calcHash crypto vTxid 0 pos])
  | height + 1, pos =>
    if !parentOfMatch vTxid vMatch (height + 1) pos then
      ([false], [calcHash crypto vTxid (height + 1) pos])
    else
      let (bits, hashes) := traverseAndBuild height (pos * 2)
      if pos * 2 + 1 < calcTreeWidth vTxid.length height then
        let (bits', hashes') := traverseAndBuild height (pos * 2 + 1)
        (true :: (bits ++ bits'), hashes ++ hashes')
      else (true :: bits, hashes)

def CPartialMerkleTree.ofMatches : CPartialMerkleTree :=
  let (vBits, vHash) := traverseAndBuild crypto vTxid vMatch (treeHeight vTxid.length) 0
  ⟨UInt32.ofNat vTxid.length, vBits, vHash, false⟩

end Build

def packFrom : Nat → List Bool → Bytes → Bytes
  | _, [], vBytes => vBytes
  | p, bit :: rest, vBytes =>
    packFrom (p + 1) rest (vBytes.modify (p / 8) (· ||| ((if bit then 1 else 0) <<< UInt8.ofNat (p % 8))))

def packBits (vBits : List Bool) : Bytes := packFrom 0 vBits (replicate ((vBits.length + 7) / 8) 0)

def bitAt (vBytes : Bytes) (p : Nat) : Bool := vBytes.getD (p / 8) 0 &&& (1 <<< UInt8.ofNat (p % 8)) != 0

def unpackBits (vBytes : Bytes) : List Bool := (range (vBytes.length * 8)).map (bitAt vBytes)

namespace CPartialMerkleTree

def serialize (tree : CPartialMerkleTree) : Bytes :=
  serializeUInt32 tree.nTransactions ++ serializeVector Uint256.bytes tree.vHash
    ++ serializeBytes (packBits tree.vBits)

def unserialize : Reader CPartialMerkleTree := do
  let nTransactions ← readUInt32
  let vHash ← readVector readUint256
  let vBytes ← unserializeBytes
  pure ⟨nTransactions, unpackBits vBytes, vHash, false⟩

end CPartialMerkleTree

open CPartialMerkleTree

/-! The bits on the wire. -/

lemma bit_or_shift {other : Nat} {byte : UInt8} (small : offset < 8) (small' : other < 8) :
    ((byte ||| ((if bit then 1 else 0) <<< UInt8.ofNat offset)) &&& (1 <<< UInt8.ofNat other) != 0) =
      (byte &&& (1 <<< UInt8.ofNat other) != 0 || decide (other = offset) && bit) := by
  have apart : ∀ bit : Bool, ∀ offset < 8, ∀ other < 8,
      (((if bit then 1 else 0 : UInt8) <<< UInt8.ofNat offset) &&& (1 <<< UInt8.ofNat other) != 0) =
        (decide (other = offset) && bit) := by decide
  have joined (x y : UInt8) : (x ||| y != 0) = (x != 0 || y != 0) := by
    rw [Bool.eq_iff_iff]
    simp [UInt8.or_eq_zero_iff]
    tauto
  have distributes (x y z : UInt8) : (x ||| y) &&& z = x &&& z ||| y &&& z := by
    apply UInt8.toBitVec_inj.mp
    ext index bound
    simp [Bool.and_or_distrib_right]
  rw [distributes, joined, apart bit offset small other small']

variable (p : Nat) (vBytes : Bytes)

lemma bitAt_modify {p : Nat} (inside : p / 8 < vBytes.length) :
    bitAt (vBytes.modify (p / 8) (· ||| ((if bit then 1 else 0) <<< UInt8.ofNat (p % 8)))) q =
      (bitAt vBytes q || decide (q = p) && bit) := by
  unfold bitAt
  by_cases same : q / 8 = p / 8
  · have position : decide (q = p) = decide (q % 8 = p % 8) := by
      apply decide_eq_decide.mpr
      omega
    have byte : (vBytes.modify (p / 8) (· ||| ((if bit then 1 else 0) <<< UInt8.ofNat (p % 8)))).getD (q / 8) 0 =
        vBytes.getD (q / 8) 0 ||| ((if bit then 1 else 0) <<< UInt8.ofNat (p % 8)) := by
      simp [getD_eq_getElem?_getD, same, getElem?_eq_getElem inside]
    rw [byte, position]
    exact bit_or_shift (Nat.mod_lt p (by decide)) (Nat.mod_lt q (by decide))
  · have other : q ≠ p := fun equal => same (equal ▸ rfl)
    have byte : (vBytes.modify (p / 8) (· ||| ((if bit then 1 else 0) <<< UInt8.ofNat (p % 8)))).getD (q / 8) 0 =
        vBytes.getD (q / 8) 0 := by
      simp [getD_eq_getElem?_getD, Ne.symm same]
    rw [byte, decide_eq_false other, Bool.false_and, Bool.or_false]

lemma length_packFrom : (packFrom p vBits vBytes).length = vBytes.length := by
  induction vBits generalizing p vBytes with
  | nil => rfl
  | cons bit rest ih => rw [packFrom, ih, length_modify]

lemma bitAt_packFrom (inside : p + vBits.length ≤ vBytes.length * 8) : bitAt (packFrom p vBits vBytes) q =
      (bitAt vBytes q || decide (p ≤ q) && vBits.getD (q - p) false) := by
  induction vBits generalizing p vBytes with
  | nil => simp [packFrom]
  | cons bit rest ih =>
    rw [length_cons] at inside
    rw [packFrom, ih (p + 1) _ (by rw [length_modify]; omega), bitAt_modify _ (by omega), Bool.or_assoc]
    congr 1
    rcases Nat.lt_trichotomy q p with below | rfl | above
    · simp [not_le.mpr below, ne_of_lt below, show ¬ p + 1 ≤ q by omega]
    · simp
    · rw [show q - p = q - (p + 1) + 1 by omega]
      simp [Nat.ne_of_gt above, le_of_lt above, show p + 1 ≤ q by omega]

/-- What comes back are the bits, padded to whole bytes. -/
lemma unpackBits_packBits : unpackBits (packBits vBits) =
      vBits ++ replicate ((vBits.length + 7) / 8 * 8 - vBits.length) false := by
  have length : (packBits vBits).length = (vBits.length + 7) / 8 := by
    rw [packBits, length_packFrom, length_replicate]
  apply ext_getElem
  · rw [unpackBits, length_map, length_range, length, length_append, length_replicate]
    omega
  · intro q bound bound'
    have blank : bitAt (replicate ((vBits.length + 7) / 8) 0) q = false := by
      simp only [bitAt, getD_eq_getElem?_getD, getElem?_replicate]
      split <;> simp
    rw [getElem_append]
    simp only [unpackBits, getElem_map, getElem_range, packBits]
    rw [bitAt_packFrom _ _ (by rw [length_replicate]; omega), blank]
    split_ifs with inside
    · simp [getD_eq_getElem?_getD, getElem?_eq_getElem inside]
    · simp [getD_eq_getElem?_getD, getElem?_eq_none (not_lt.mp inside)]

/-! The tree that was built, extracted again. -/

variable (vTxid : List Uint256) (vMatch : List Bool)

/-- The matched positions under a node. -/
def matched (height pos : Nat) : List Nat := (covered vTxid.length height pos).filter fun p => vMatch.getD p false

lemma covered_succ (nTransactions height pos : Nat) : covered nTransactions (height + 1) pos =
      covered nTransactions height (pos * 2) ++ covered nTransactions height (pos * 2 + 1) := by
  have joined := @range'_append (pos * 2 * 2 ^ height) (2 ^ height) (2 ^ height) 1
  rw [one_mul, ← Nat.succ_mul, ← Nat.mul_two, ← pow_succ, mul_assoc, ← pow_succ'] at joined
  rw [covered, ← joined, filter_append]
  rw [covered, covered, mul_assoc, ← pow_succ']

variable {height : Nat}

lemma covered_beyond (beyond : nTransactions ≤ 2 ^ height * pos) : covered nTransactions height pos = [] := by
  apply filter_eq_nil_iff.mpr
  intro p member
  have bounds := mem_range'_1.mp member
  rw [mul_comm] at beyond
  simp
  omega

lemma covered_leaf (inside : pos < nTransactions) : covered nTransactions 0 pos = [pos] := by simp [covered, inside]

lemma covered_ne_nil (inside : 2 ^ height * pos < nTransactions) : covered nTransactions height pos ≠ [] := by
  apply ne_nil_of_mem (a := pos * 2 ^ height)
  rw [covered, mem_filter, mem_range'_1, mul_comm]
  have positive := Nat.two_pow_pos height
  constructor
  · omega
  · simpa using inside

lemma covered_all (fits : nTransactions ≤ 2 ^ height) : covered nTransactions height 0 = range nTransactions := by
  obtain ⟨extra, whole⟩ := Nat.exists_eq_add_of_le fits
  have joined := @range'_append 0 nTransactions extra 1
  rw [← whole] at joined
  rw [covered, zero_mul, ← joined, filter_append, range_eq_range']
  have front : (range' 0 nTransactions).filter (· < nTransactions) = range' 0 nTransactions := by
    apply filter_eq_self.mpr
    intro p member
    have bounds := mem_range'_1.mp member
    simp
    omega
  have back : (range' (0 + 1 * nTransactions) extra).filter (· < nTransactions) = [] := by
    apply filter_eq_nil_iff.mpr
    intro p member
    have bounds := mem_range'_1.mp member
    simp
    omega
  rw [front, back, append_nil]

section RoundTrip
variable {crypto : Crypto} {vTxid : List Uint256} {vMatch : List Bool}

lemma calcHash_level (crypto : Crypto) (inside : 2 ^ height * pos < vTxid.length) :
    (level (hashPair crypto) vTxid height)[pos]? = some (calcHash crypto vTxid height pos) := by
  induction height generalizing pos with
  | zero =>
    rw [pow_zero, one_mul] at inside
    simp [level, calcHash, getElem?_eq_getElem inside, getD_eq_getElem?_getD]
  | succ height ih =>
    rw [pow_succ, mul_assoc, mul_comm 2] at inside
    have left := ih inside
    rw [mul_comm pos] at left
    rw [calcHash]
    split
    · rename_i wide
      have right := ih (lt_calcTreeWidth.mp wide)
      rw [mul_comm pos] at right ⊢
      exact level_pair left right
    · rename_i narrow
      have alone : (level (hashPair crypto) vTxid height)[pos * 2 + 1]? = none :=
        getElem?_level_eq_none.mpr (not_lt.mp fun wide => narrow (lt_calcTreeWidth.mpr wide))
      rw [mul_comm pos] at alone ⊢
      exact level_self left alone

variable (state : Extraction)

def Extraction.after (crypto : Crypto) (vTxid : List Uint256) (vMatch : List Bool)
    (height pos : Nat) (pairs : List (Uint256 × Uint256)) : Extraction where
  nBitsUsed := state.nBitsUsed + (traverseAndBuild crypto vTxid vMatch height pos).1.length
  nHashUsed := state.nHashUsed + (traverseAndBuild crypto vTxid vMatch height pos).2.length
  vMatch := state.vMatch ++ (matched vTxid vMatch height pos).map fun p => vTxid.getD p Uint256.null
  vnIndex := state.vnIndex ++ matched vTxid vMatch height pos
  fBad := state.fBad
  hashed := state.hashed ++ pairs

lemma takeHash_stored {hash : Uint256}
    (stored : tree.vHash.drop state.nHashUsed = hash :: rest) (leaf fParentOfMatch : Bool) (pos : Nat) :
    tree.takeHash leaf fParentOfMatch pos state = (hash, if leaf && fParentOfMatch then { state with
            nHashUsed := state.nHashUsed + 1
            vMatch := state.vMatch ++ [hash]
            vnIndex := state.vnIndex ++ [pos] }
        else { state with nHashUsed := state.nHashUsed + 1 }) := by
  have found : tree.vHash[state.nHashUsed]? = some hash := by
    rw [← head?_drop, stored]
    rfl
  simp only [takeHash, found]
  split <;> rfl

variable {crypto : Crypto} {vTxid : List Uint256} {vMatch : List Bool}

lemma bit_stored {rest : List Bool} (stored : tree.vBits.drop used = bit :: rest) :
    tree.vBits[used]? = some bit ∧ tree.vBits.drop (used + 1) = rest := by
  constructor
  · rw [← head?_drop, stored]
    rfl
  · rw [← drop_drop, stored]
    rfl

lemma matched_of_parent (quiet : parentOfMatch vTxid vMatch height pos = false) :
    matched vTxid vMatch height pos = [] := by
  apply filter_eq_nil_iff.mpr
  intro p member found
  have any : parentOfMatch vTxid vMatch height pos = true := any_eq_true.mpr ⟨p, member, found⟩
  exact absurd (quiet.symm.trans any) Bool.false_ne_true

lemma matched_succ (height pos : Nat) :
    matched vTxid vMatch (height + 1) pos =
      matched vTxid vMatch height (pos * 2) ++ matched vTxid vMatch height (pos * 2 + 1) := by
  rw [matched, covered_succ, filter_append]
  rfl

lemma drop_past {α : Type} {items front back : List α}
    (stored : items.drop used = front ++ back) : items.drop (used + front.length) = back := by
  rw [← drop_drop, stored, drop_left]

/-- The two subtrees of a node have different hashes. -/
lemma calcHash_siblings_ne (distinct : vTxid.Nodup)
    (free : NoCollision crypto (hashed (hashPair crypto) vTxid) (hashed (hashPair crypto) vTxid))
    (wide : 2 ^ height < 2 * vTxid.length) (inside : 2 ^ height * (pos * 2 + 1) < vTxid.length) :
    calcHash crypto vTxid height (pos * 2 + 1) ≠ calcHash crypto vTxid height (pos * 2) := by
  intro same
  have insideLeft : 2 ^ height * (pos * 2) < vTxid.length :=
    lt_of_le_of_lt (Nat.mul_le_mul_left _ (Nat.le_succ _)) inside
  have right := calcHash_level crypto inside
  have left := calcHash_level crypto insideLeft
  rw [same] at right
  have equal := level_injective distinct free wide right left
  omega

lemma parentOfMatch_leaf (inside : pos < vTxid.length) :
    parentOfMatch vTxid vMatch 0 pos = vMatch.getD pos false := by
  rw [parentOfMatch, covered_leaf inside, any_cons, any_nil, Bool.or_false]

lemma matched_leaf (inside : pos < vTxid.length) :
    matched vTxid vMatch 0 pos = if vMatch.getD pos false then [pos] else [] := by
  rw [matched, covered_leaf inside, filter_singleton]
  cases vMatch.getD pos false <;> rfl

/-- Extraction retraces the construction, node by node. -/
lemma traverseAndExtract_built (sized : tree.nTransactions.toNat = vTxid.length) (distinct : vTxid.Nodup)
    (free : NoCollision crypto (hashed (hashPair crypto) vTxid) (hashed (hashPair crypto) vTxid)) (height pos : Nat)
    (wide : 2 ^ height < 2 * vTxid.length) (inside : 2 ^ height * pos < vTxid.length) (state : Extraction)
    (bits : tree.vBits.drop state.nBitsUsed = (traverseAndBuild crypto vTxid vMatch height pos).1 ++ restBits)
    (hashes : tree.vHash.drop state.nHashUsed = (traverseAndBuild crypto vTxid vMatch height pos).2 ++ restHashes) :
    ∃ pairs, tree.traverseAndExtract crypto height pos state =
      (calcHash crypto vTxid height pos, state.after crypto vTxid vMatch height pos pairs) := by
  induction height generalizing pos state restBits restHashes with
  | zero =>
    rw [pow_zero, one_mul] at inside
    have bit := (bit_stored bits).1
    have taken := takeHash_stored { state with nBitsUsed := state.nBitsUsed + 1 }
      hashes true (parentOfMatch vTxid vMatch 0 pos) pos
    rw [parentOfMatch_leaf inside] at bit taken
    refine ⟨[], ?_⟩
    simp only [traverseAndExtract, bit, taken, Extraction.after, traverseAndBuild, matched_leaf inside]
    cases vMatch.getD pos false with
    | true => simp [calcHash]
    | false => simp
  | succ height ih =>
    have insideLeft : 2 ^ height * (pos * 2) < vTxid.length := by rwa [pow_succ, mul_assoc, mul_comm 2] at inside
    cases parent : parentOfMatch vTxid vMatch (height + 1) pos with
    | false =>
      simp only [traverseAndBuild, parent, Bool.not_false, if_true] at bits hashes
      have bit := (bit_stored bits).1
      have taken := takeHash_stored { state with nBitsUsed := state.nBitsUsed + 1 } hashes false false pos
      refine ⟨[], ?_⟩
      simp [traverseAndExtract, bit, taken, Extraction.after, traverseAndBuild, parent, matched_of_parent parent]
    | true =>
      by_cases second : pos * 2 + 1 < calcTreeWidth vTxid.length height
      · have insideRight := lt_calcTreeWidth.mp second
        simp only [traverseAndBuild, parent, Bool.not_true, Bool.false_eq_true, if_false, second, if_true,
          cons_append, append_assoc] at bits hashes
        obtain ⟨bit, bits⟩ := bit_stored bits
        obtain ⟨pairs, left⟩ := ih (pos * 2) (by omega) insideLeft
          { state with nBitsUsed := state.nBitsUsed + 1 } bits hashes
        obtain ⟨pairs', right⟩ := ih (pos * 2 + 1) (by omega) insideRight
          (Extraction.after { state with nBitsUsed := state.nBitsUsed + 1 } crypto vTxid vMatch height
            (pos * 2) pairs) (drop_past bits) (drop_past hashes)
        have apart := calcHash_siblings_ne distinct free (by omega) insideRight
        refine ⟨pairs ++ pairs' ++ [(calcHash crypto vTxid height (pos * 2),
          calcHash crypto vTxid height (pos * 2 + 1))], ?_⟩
        simp only [traverseAndExtract, bit, left, right, sized, second, if_true, if_neg apart, combine, calcHash]
        simp [Extraction.after, traverseAndBuild, parent, second, matched_succ]
        omega
      · have beyond : vTxid.length ≤ 2 ^ height * (pos * 2 + 1) :=
          not_lt.mp fun within => second (lt_calcTreeWidth.mpr within)
        have nothing : matched vTxid vMatch height (pos * 2 + 1) = [] := by
          rw [matched, covered_beyond beyond, filter_nil]
        simp only [traverseAndBuild, parent, Bool.not_true, Bool.false_eq_true, if_false, second,
          cons_append] at bits hashes
        obtain ⟨bit, bits⟩ := bit_stored bits
        obtain ⟨pairs, left⟩ := ih (pos * 2) (by omega) insideLeft
          { state with nBitsUsed := state.nBitsUsed + 1 } bits hashes
        refine ⟨pairs ++ [(calcHash crypto vTxid height (pos * 2), calcHash crypto vTxid height (pos * 2))], ?_⟩
        simp only [traverseAndExtract, bit, left, sized, second, if_false, combine, calcHash]
        simp [Extraction.after, traverseAndBuild, parent, second, matched_succ, nothing]
        omega

/-! The sizes that ExtractMatches and the reader check. -/

lemma traverseAndBuild_succ (height pos : Nat) :
    traverseAndBuild crypto vTxid vMatch (height + 1) pos =
      if !parentOfMatch vTxid vMatch (height + 1) pos then
        ([false], [calcHash crypto vTxid (height + 1) pos])
      else if pos * 2 + 1 < calcTreeWidth vTxid.length height then
        (true :: ((traverseAndBuild crypto vTxid vMatch height (pos * 2)).1 ++
            (traverseAndBuild crypto vTxid vMatch height (pos * 2 + 1)).1),
          (traverseAndBuild crypto vTxid vMatch height (pos * 2)).2 ++
            (traverseAndBuild crypto vTxid vMatch height (pos * 2 + 1)).2)
      else
        (true :: (traverseAndBuild crypto vTxid vMatch height (pos * 2)).1,
          (traverseAndBuild crypto vTxid vMatch height (pos * 2)).2) := by
  rw [traverseAndBuild]

lemma hashes_le_covered (crypto : Crypto) (vMatch : List Bool) (inside : 2 ^ height * pos < vTxid.length) :
    (traverseAndBuild crypto vTxid vMatch height pos).2.length ≤ (covered vTxid.length height pos).length := by
  induction height generalizing pos with
  | zero => exact length_pos_iff.mpr (covered_ne_nil inside)
  | succ height ih =>
    have here := length_pos_iff.mpr (covered_ne_nil inside)
    have insideLeft : 2 ^ height * (pos * 2) < vTxid.length := by rwa [pow_succ, mul_assoc, mul_comm 2] at inside
    have left := ih insideLeft
    rw [traverseAndBuild_succ]
    split
    · exact here
    · split_ifs with second
      · have right := ih (lt_calcTreeWidth.mp second)
        simp only [covered_succ, length_append]
        omega
      · simp only [covered_succ, length_append]
        omega

lemma hashes_le_bits (height pos : Nat) : (traverseAndBuild crypto vTxid vMatch height pos).2.length ≤
      (traverseAndBuild crypto vTxid vMatch height pos).1.length := by
  induction height generalizing pos with
  | zero => exact le_rfl
  | succ height ih =>
    have left := ih (pos * 2)
    have right := ih (pos * 2 + 1)
    rw [traverseAndBuild_succ]
    split
    · exact le_rfl
    · split
      · simp only [length_append, length_cons]
        omega
      · simp only [length_cons]
        omega

lemma bits_lt (height pos : Nat) :
    (traverseAndBuild crypto vTxid vMatch height pos).1.length < 2 ^ (height + 1) := by
  induction height generalizing pos with
  | zero => exact (by decide : 1 < 2 ^ 1)
  | succ height ih =>
    have left := ih (pos * 2)
    have right := ih (pos * 2 + 1)
    rw [traverseAndBuild_succ]
    split
    · simp only [length_cons, length_nil]
      omega
    · split
      · simp only [length_append, length_cons]
        omega
      · simp only [length_cons]
        omega

end RoundTrip

lemma CPartialMerkleTree.reads_serialized
    (hashes : tree.vHash.length ≤ MAX_SIZE) (bits : tree.vBits.length ≤ MAX_SIZE) :
    Reads unserialize tree.serialize ⟨tree.nTransactions, unpackBits (packBits tree.vBits), tree.vHash, false⟩ := by
  have packed : (packBits tree.vBits).length ≤ MAX_SIZE := by
    rw [packBits, length_packFrom, length_replicate]
    omega
  refine (reads_uint32 tree.nTransactions).bind ?_
  refine (reads_vector hashes fun hash _ => reads_uint256).bind ?_
  exact (reads_serializedBytes packed).last

def selected : List Nat := (range vTxid.length).filter fun p => vMatch.getD p false

/-- The tree that is read back from a built one: its bits are padded. -/
def readBack (crypto : Crypto) (vTxid : List Uint256) (vMatch : List Bool) : CPartialMerkleTree :=
  ⟨UInt32.ofNat vTxid.length,
    unpackBits (packBits (ofMatches crypto vTxid vMatch).vBits),
    (ofMatches crypto vTxid vMatch).vHash, false⟩

lemma readBack_extraction (crypto : Crypto) {vTxid : List Uint256} (vMatch : List Bool)
    (nonempty : vTxid ≠ []) (distinct : vTxid.Nodup) (short : vTxid.length < 2 ^ 31)
    (free : NoCollision crypto (hashed (hashPair crypto) vTxid) (hashed (hashPair crypto) vTxid))
    (vnIndex : List Nat) : ∃ pairs, (readBack crypto vTxid vMatch).extraction crypto vnIndex =
      ((computeMerkleRoot crypto vTxid).1,
        { nBitsUsed := (ofMatches crypto vTxid vMatch).vBits.length
          nHashUsed := (ofMatches crypto vTxid vMatch).vHash.length
          vMatch := (selected vTxid vMatch).map fun p => vTxid.getD p Uint256.null
          vnIndex := vnIndex ++ selected vTxid vMatch
          fBad := false
          hashed := pairs }) := by
  have positive := length_pos_iff.mpr nonempty
  obtain ⟨wide, fits⟩ := treeHeight_spec positive (by omega)
  have inside : 2 ^ treeHeight vTxid.length * 0 < vTxid.length := by omega
  have sized : (readBack crypto vTxid vMatch).nTransactions.toNat = vTxid.length :=
    UInt32.toNat_ofNat_of_lt' (lt_trans short (by decide))
  have node := calcHash_level crypto inside
  have top : calcHash crypto vTxid (treeHeight vTxid.length) 0 = (computeMerkleRoot crypto vTxid).1 := by
    rw [(computeMerkleRoot_spec crypto short).1]
    exact (root_of_single wide fits node).symm
  have whole : matched vTxid vMatch (treeHeight vTxid.length) 0 = selected vTxid vMatch := by
    rw [matched, covered_all fits, selected]
  obtain ⟨pairs, run⟩ := traverseAndExtract_built sized distinct free (treeHeight vTxid.length) 0 wide
    inside { vnIndex := vnIndex, fBad := false } unpackBits_packBits (append_nil _).symm
  refine ⟨pairs, ?_⟩
  rw [extraction, sized]
  refine run.trans ?_
  simp only [Extraction.after, top, whole, zero_add, nil_append]
  rfl

/-- A tree built from a list and a mask, written and read back, extracts to the merkle root of
the list and to the selected txids with their positions, in order. -/
theorem partialMerkleTree_round_trip (crypto : Crypto) (vTxid : List Uint256) (vMatch : List Bool)
    (nonempty : vTxid ≠ []) (distinct : vTxid.Nodup)
    (limit : vTxid.length ≤ MAX_BLOCK_WEIGHT / MIN_TRANSACTION_WEIGHT)
    (free : NoCollision crypto (hashed (hashPair crypto) vTxid) (hashed (hashPair crypto) vTxid))
    (vnIndex : List Nat) (rest : Bytes) : ∃ tree, unserialize
        ((ofMatches crypto vTxid vMatch).serialize ++ rest) = some (tree, rest) ∧
      tree.extractMatches crypto vnIndex = ⟨(computeMerkleRoot crypto vTxid).1,
          (selected vTxid vMatch).map fun p => vTxid.getD p Uint256.null,
          vnIndex ++ selected vTxid vMatch⟩ := by
  have most : MAX_BLOCK_WEIGHT / MIN_TRANSACTION_WEIGHT = 266666 := by decide
  have size : MAX_SIZE = 33554432 := by decide
  have positive := length_pos_iff.mpr nonempty
  obtain ⟨wide, fits⟩ := treeHeight_spec positive (by omega)
  have inside : 2 ^ treeHeight vTxid.length * 0 < vTxid.length := by omega
  have hashes : (ofMatches crypto vTxid vMatch).vHash.length ≤ vTxid.length := by
    have counted := hashes_le_covered crypto vMatch inside
    rwa [covered_all fits, length_range] at counted
  have bits : (ofMatches crypto vTxid vMatch).vBits.length < 2 ^ (treeHeight vTxid.length + 1) := bits_lt _ 0
  have enough : (ofMatches crypto vTxid vMatch).vHash.length ≤ (ofMatches crypto vTxid vMatch).vBits.length :=
    hashes_le_bits _ 0
  have padded : (readBack crypto vTxid vMatch).vBits.length =
      ((ofMatches crypto vTxid vMatch).vBits.length + 7) / 8 * 8 := by
    rw [readBack, unpackBits_packBits, length_append, length_replicate]
    omega
  have count : (readBack crypto vTxid vMatch).nTransactions.toNat = vTxid.length :=
    UInt32.toNat_ofNat_of_lt' (lt_of_le_of_lt limit (by decide))
  have stored : (readBack crypto vTxid vMatch).vHash = (ofMatches crypto vTxid vMatch).vHash := rfl
  refine ⟨readBack crypto vTxid vMatch, reads_serialized (by omega) (by omega) rest, ?_⟩
  obtain ⟨pairs, run⟩ := readBack_extraction crypto vMatch nonempty distinct (by omega) free vnIndex
  unfold extractMatches
  simp only [run, count, padded, stored]
  rw [if_neg (by omega), if_neg (by omega), if_neg (by omega), if_neg (by omega),
    if_neg Bool.false_ne_true, if_neg (by omega), if_neg (not_not.mpr rfl)]

namespace ForgedProof

theorem first_of_two_round_trip : ∃ tree, unserialize
        ((ofMatches crypto leaves [true, false]).serialize ++ []) = some (tree, []) ∧
      tree.extractMatches crypto [] = ⟨(computeMerkleRoot crypto leaves).1,
          (selected leaves [true, false]).map fun p => leaves.getD p Uint256.null,
          [] ++ selected leaves [true, false]⟩ := by
  apply partialMerkleTree_round_trip crypto leaves [true, false] (by decide) (by decide) (by decide)
  rw [hashed_leaves]
  intro nodes member nodes' member' _
  rw [mem_singleton.mp member, mem_singleton.mp member']

end ForgedProof

end Dragonchain.Merkle
