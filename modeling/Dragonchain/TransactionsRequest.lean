import Dragonchain.CanonicalTransactions
import Dragonchain.CompactBlocks

/-!
BlockTransactionsRequest of blockencodings.h. The indexes travel as differences, which the
reader adds up in 16 bits: after the index 65535 its offset is 0 again.
-/

namespace Dragonchain

open Serialization ByteCodec List

variable {rest read : List Nat} {indexes : List UInt16}

structure BlockTransactionsRequest where
  blockhash : Uint256
  indexes : List UInt16
  deriving DecidableEq

namespace BlockTransactionsRequest

/-- The differences that are written, from the index that would follow; an int made a uint64_t. -/
def differences (offset : Int) : List UInt16 → List Nat
  | [] => []
  | index :: rest => ((index.toNat - offset) % 2 ^ 64).toNat :: differences (index.toNat + 1) rest

def serialize (request : BlockTransactionsRequest) : Bytes :=
  request.blockhash.bytes ++ serializeVector writeCompactSize (differences 0 request.indexes)

def addOffset (offset : UInt16) : List Nat → Option (List UInt16)
  | [] => some []
  | index :: rest =>
    if index + offset.toNat > 0xffff then none
    else
      let index := UInt16.ofNat index + offset
      (index :: ·) <$> addOffset (index + 1) rest

/-- What is read, as it stands in the bytes. -/
def readDifferences : Reader (Uint256 × List Nat) := do
  let blockhash ← readUint256
  let indexes ← readVector readIndex
  pure (blockhash, indexes)

def unserialize : Reader BlockTransactionsRequest := do
  let read ← readDifferences
  match addOffset 0 read.2 with
  | none => failure
  | some indexes => pure { blockhash := read.1, indexes }

variable {offset : UInt16}

lemma addOffset_cons {index : Nat} (added : addOffset offset (index :: rest) = some indexes) :
    ∃ next later, indexes = next :: later ∧ addOffset (next + 1) rest = some later ∧
      next.toNat = index + offset.toNat ∧ next.toNat ≤ 0xffff := by
  rw [addOffset] at added
  split_ifs at added with fits
  obtain ⟨later, onward, rfl⟩ := Option.map_eq_some_iff.mp added
  have sum : (UInt16.ofNat index + offset).toNat = index + offset.toNat := by
    rw [UInt16.toNat_add, UInt16.toNat_ofNat']
    omega
  exact ⟨_, later, rfl, onward, sum, by omega⟩

/-- Without an index 65535 before the last, the offset never wraps. -/
lemma addOffset_unwrapped
    (added : addOffset offset read = some indexes) (unwrapped : ∀ index ∈ indexes.dropLast, index ≠ 0xffff) :
    (∀ index ∈ indexes, offset.toNat ≤ index.toNat) ∧ indexes.Pairwise (· < ·) ∧
      differences offset.toNat indexes = read := by
  induction read generalizing offset indexes with
  | nil =>
    cases added
    exact ⟨by simp, .nil, rfl⟩
  | cons index rest ih =>
    obtain ⟨next, later, rfl, onward, sum, fits⟩ := addOffset_cons added
    have difference : ((next.toNat - offset.toNat : Int) % 2 ^ 64).toNat = index := by omega
    cases later with
    | nil =>
      obtain ⟨_, _, rfl⟩ := ih onward (by simp)
      exact ⟨by simp [sum], pairwise_singleton .., congrArg (· :: []) difference⟩
    | cons second others =>
      obtain ⟨above, increasing, same⟩ := ih onward fun index member => unwrapped index (mem_cons_of_mem _ member)
      have following : (next + 1).toNat = next.toNat + 1 := by
        have : next.toNat ≠ 0xffff := fun full => unwrapped next mem_cons_self (UInt16.toNat_inj.mp full)
        rw [UInt16.toNat_add, UInt16.toNat_one]
        omega
      rw [following] at above same
      refine ⟨?_, pairwise_cons.mpr ⟨?_, increasing⟩, ?_⟩
      · intro index member
        rcases mem_cons.mp member with rfl | member
        · omega
        · have := above index member
          omega
      · exact fun index member => UInt16.lt_iff_toNat_lt.mpr (above index member)
      · exact congrArg₂ cons difference same

/-- No first differences, with one for each of them but the last, come to 65535 while another
difference follows. -/
def KeepsBelow (offset : Nat) (read : List Nat) : Prop :=
  ∀ count, 0 < count → count < read.length → offset + (read.take count).sum + (count - 1) ≠ 65535

lemma addOffset_keepsBelow (added : addOffset offset read = some indexes) :
    (∀ index ∈ indexes.dropLast, index ≠ 0xffff) ↔ KeepsBelow offset.toNat read := by
  induction read generalizing offset indexes with
  | nil =>
    cases added
    exact iff_of_true (by simp) fun _ _ short => absurd short (Nat.not_lt_zero _)
  | cons index rest ih =>
    obtain ⟨next, later, rfl, onward, sum, fits⟩ := addOffset_cons added
    have first : KeepsBelow offset.toNat (index :: rest) → rest ≠ [] → next ≠ 0xffff := by
      rintro keeps more rfl
      refine keeps 1 Nat.one_pos (Nat.succ_lt_succ (length_pos_iff.mpr more)) ?_
      have : (0xffff : UInt16).toNat = 65535 := rfl
      simp only [take_succ_cons, take_zero, sum_cons, sum_nil]
      omega
    cases rest with
    | nil =>
      cases onward
      exact iff_of_true (by simp) fun count some short => absurd short (by simp; omega)
    | cons second others =>
      obtain ⟨_, _, rfl, _⟩ := addOffset_cons onward
      rw [dropLast_cons_of_ne_nil (cons_ne_nil _ _), forall_mem_cons]
      by_cases full : next = 0xffff
      · exact iff_of_false (fun both => both.1 full) fun keeps => first keeps (cons_ne_nil _ _) full
      have following : (next + 1).toNat = index + offset.toNat + 1 := by
        have : next.toNat ≠ 65535 := fun same => full (UInt16.toNat_inj.mp same)
        rw [UInt16.toNat_add, UInt16.toNat_one]
        omega
      rw [and_iff_right full, ih onward, following]
      -- one difference more in front
      constructor
      · intro keeps count some short same
        obtain ⟨count, rfl⟩ := Nat.exists_eq_succ_of_ne_zero some.ne'
        rw [take_succ_cons, sum_cons] at same
        rcases Nat.eq_zero_or_pos count with rfl | more
        · refine full (UInt16.toNat_inj.mp ?_)
          simp only [take_zero, sum_nil] at same
          exact sum.trans (show _ = 65535 by omega)
        · exact keeps count more (Nat.lt_of_succ_lt_succ short) (by omega)
      · intro keeps count some short same
        refine keeps (count + 1) (Nat.succ_pos _) (Nat.succ_lt_succ short) ?_
        rw [take_succ_cons, sum_cons]
        omega

lemma canonical_index : Canonical readIndex writeCompactSize (· ≤ 0xffff) := by
  refine canonical_compactSize.guarded.mono ?_
  rintro index bytes ⟨⟨_, rfl⟩, small⟩
  exact ⟨Nat.not_lt.mp small, rfl⟩

lemma takes_readDifferences : Takes readDifferences fun read bytes =>
    bytes = read.1.bytes ++ serializeVector writeCompactSize read.2 := by
  refine (canonical_uint256.bind fun blockhash => (canonical_vector canonical_index).bind fun read =>
    takes_pure).mono ?_
  rintro ⟨_, _⟩ bytes ⟨_, _, _, rfl, ⟨_, rfl⟩, read, _, _, rfl, ⟨_, rfl⟩, same, rfl⟩
  cases same
  rw [append_nil]

/-- The requests that keep to the format are those whose differences do not fill the 16 bits
before the last. -/
theorem reads_back_iff {bytes : Bytes} {blockhash : Uint256} {read : List Nat} {request : BlockTransactionsRequest}
    (parsed : readDifferences bytes = some ((blockhash, read), []))
    (accepted : unserialize bytes = some (request, [])) :
    request.indexes.Pairwise (· < ·) ∧ serialize request = bytes ↔ KeepsBelow 0 read := by
  obtain ⟨_, rfl, written⟩ := takes_readDifferences bytes _ _ parsed
  obtain ⟨rfl, added⟩ : blockhash = request.blockhash ∧ addOffset 0 read = some request.indexes := by
    simp only [unserialize, bind, StateT.bind, parsed, Option.bind_some] at accepted
    cases added : addOffset 0 read with
    | none =>
      rw [added] at accepted
      cases accepted
    | some indexes =>
      rw [added] at accepted
      cases accepted
      exact ⟨rfl, rfl⟩
  rw [append_nil, written, ← show (0 : UInt16).toNat = 0 from rfl, ← addOffset_keepsBelow added]
  constructor
  · rintro ⟨increasing, _⟩ index earlier rfl
    have before := UInt16.lt_iff_toNat_lt.mp (increasing.rel_dropLast_getLast earlier)
    exact Nat.not_lt.mpr (Nat.le_of_lt_succ (UInt16.toNat_lt _)) before
  · intro unwrapped
    obtain ⟨_, increasing, same⟩ := addOffset_unwrapped added unwrapped
    refine ⟨increasing, ?_⟩
    rw [serialize, ← same]
    rfl

theorem reads_back_two : serialize ⟨Uint256.null, [1, 0xffff]⟩ = Uint256.null.bytes ++ [2, 1, 253, 253, 255] := by
  have parsed : readDifferences (Uint256.null.bytes ++ [2, 1, 253, 253, 255]) =
      some ((Uint256.null, [1, 65533]), []) := by
    decide +kernel
  have accepted : unserialize (Uint256.null.bytes ++ [2, 1, 253, 253, 255]) =
      some (⟨Uint256.null, [1, 0xffff]⟩, []) := by
    decide +kernel
  refine ((reads_back_iff parsed accepted).mpr fun count some short => ?_).2
  obtain rfl : count = 1 := by simp at short; omega
  decide

theorem wrapped_not_read_back : unserialize (Uint256.null.bytes ++ [2, 253, 255, 255, 0]) =
        some (⟨Uint256.null, [0xffff, 0]⟩, []) ∧
      serialize ⟨Uint256.null, [0xffff, 0]⟩ ≠ Uint256.null.bytes ++ [2, 253, 255, 255, 0] := by
  decide +kernel

end BlockTransactionsRequest

end Dragonchain
