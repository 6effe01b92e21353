import Dragonchain.CompactBlocks
import Dragonchain.Pow
import Mathlib.Data.List.Infix

/-!
The header objects of a node with the proof-of-work hash that each may carry: headers, blocks and entries of
the block index. The hashPrevBlock of an entry is the hash of its pprev, which is linked by an assignment.
-/

namespace Dragonchain
open Function Serialization

structure HeaderObject where
  header : CBlockHeader := CBlockHeader.null
  cache : Option PoWCache := none

inductive HeaderCall
  /-- The default constructors, and CBlockIndex::SetNull. -/
  | construct (object : Nat)
  /-- SetNull of a header or a block, which keeps the cache. -/
  | setNull (object : Nat)
  /-- Deserialization, a new nonce and every other write to the fields. -/
  | assign (object : Nat) (header : CBlockHeader)
  /-- CBlockHeader::operator=, CBlock(header) and CBlockIndex::GetBlockHeader. -/
  | copy (target source : Nat)
  /-- CBlockIndex(block). -/
  | blockIndex (target source : Nat)
  /-- CBlock::GetBlockHeader, which leaves the cache behind. -/
  | getBlockHeader (target source : Nat)
  /-- The start of ProcessNewBlock, with an entry of any hash. -/
  | processNewBlock (pblock pindex : Nat)
  | getPoWHash_cached (object : Nat)

namespace HeaderCall
variable (crypto : Crypto)

def perform (memory : Nat → HeaderObject) : HeaderCall → Nat → HeaderObject
  | .construct object => update memory object {}
  | .setNull object => update memory object { memory object with header := CBlockHeader.null }
  | .assign object header => update memory object { memory object with header }
  | .copy target source => update memory target (memory source)
  | .blockIndex target source => update memory target { memory source with
      header := { (memory source).header with hashPrevBlock := Uint256.null } }
  | .getBlockHeader target source => update memory target { header := (memory source).header }
  | .processNewBlock pblock pindex => update memory pblock { memory pblock with
      cache := if (memory pblock).cache.isNone then (memory pindex).cache else (memory pblock).cache }
  | .getPoWHash_cached object => update memory object { memory object with
      cache := (Dragonchain.getPoWHash_cached crypto (memory object).header (memory object).cache).2 }

variable (calls : List HeaderCall)

def run : Nat → HeaderObject := calls.foldl (perform crypto) fun _ => {}

/-- The headers that objects have held in the course of a run. -/
def Held (header : CBlockHeader) : Prop :=
  ∃ before, before <+: calls ∧ ∃ object, (run crypto before object).header = header

variable {crypto} {seen : CBlockHeader → Prop} {memory : Nat → HeaderObject} {call : HeaderCall}

lemma perform_sound (listed : ∀ object, seen (memory object).header)
    (sound : ∀ object, CacheOf crypto seen (memory object).cache) (object : Nat) :
    CacheOf crypto seen (call.perform crypto memory object).cache := by
  -- a call writes one object, and the caches of the others stay
  have written {target value} (fits : CacheOf crypto seen (HeaderObject.cache value)) :
      CacheOf crypto seen (update memory target value object).cache := by
    rcases eq_or_ne object target with rfl | apart
    · rwa [update_self]
    · rw [update_of_ne apart]
      exact sound object
  have empty : CacheOf crypto seen none := by rintro held ⟨⟩
  cases call with
  | construct target => exact written empty
  | setNull target => exact written (sound target)
  | assign target header => exact written (sound target)
  | copy target source => exact written (sound source)
  | blockIndex target source => exact written (sound source)
  | getBlockHeader target source => exact written empty
  | processNewBlock pblock pindex =>
    refine written ?_
    split
    · exact sound pindex
    · exact sound pblock
  | getPoWHash_cached target => exact written (getPoWHash_cached_sound (listed target) (sound target))

lemma run_sound {calls : List HeaderCall}
    (listed : ∀ before, before <+: calls → ∀ object, seen (run crypto before object).header) (object : Nat) :
    CacheOf crypto seen (run crypto calls object).cache := by
  induction calls using List.reverseRecOn generalizing object with
  | nil => rintro held ⟨⟩
  | append_singleton calls call ih =>
    rw [run, List.foldl_concat]
    refine perform_sound (listed calls (List.prefix_append ..)) (ih fun before part => ?_) object
    exact listed before (part.trans (List.prefix_append ..))

/-- While no two headers of a run share a block hash, no object carries a stale cache. -/
theorem cached_hash_of_run (crypto : Crypto) (calls : List HeaderCall)
    (distinct : Set.InjOn (getBlockHash crypto) {header | Held crypto calls header}) (object : Nat) :
    (Dragonchain.getPoWHash_cached crypto (run crypto calls object).header (run crypto calls object).cache).1 =
      getPoWHash crypto (run crypto calls object).header := by
  refine getPoWHash_cached_eq distinct ⟨calls, List.prefix_rfl, object, rfl⟩ (run_sound ?_ object)
  exact fun before part object => ⟨before, part, object, rfl⟩

/-- A block is hashed and copied, and then gets a new nonce. -/
theorem cached_hash_after_nonce :
    let crypto := { Crypto.suffixes with yespower := Crypto.suffixes.sha256 }
    let solved := { CBlockHeader.null with nNonce := 1 }
    (Dragonchain.getPoWHash_cached crypto solved
      (run crypto [.getPoWHash_cached 0, .copy 1 0, .assign 0 solved] 0).cache).1 = getPoWHash crypto solved := by
  intro crypto solved
  refine cached_hash_of_run crypto [.getPoWHash_cached 0, .copy 1 0, .assign 0 solved] ?_ 0
  have two {header} (held : Held crypto [.getPoWHash_cached 0, .copy 1 0, .assign 0 solved] header) :
      header = CBlockHeader.null ∨ header = solved := by
    obtain ⟨before, part, object, rfl⟩ := held
    simp only [List.prefix_cons_iff, List.prefix_nil] at part
    rcases part with rfl | ⟨_, rfl, rfl | ⟨_, rfl, rfl | ⟨_, rfl, rfl⟩⟩⟩ <;> simp [run, perform, update] <;> grind
  rintro first held second held' same
  rcases two held with rfl | rfl <;> rcases two held' with rfl | rfl <;> revert same <;> decide

end HeaderCall

end Dragonchain
