import Dragonchain.AcceptBlock

/-!
What an arrival can do to the chain state. AcceptBlockHeader leaves the index as it is,
marks the entries below a failed block, or adds one entry; AcceptBlock does no more than
that, or goes on to mark the entry or to store its data. Each invariant of a run of
arrivals is a case analysis over these.
-/

namespace Dragonchain

open Serialization List

variable {pindexPrev failedit pindex genesis other : Uint256} {address : Uint256 ↪ Nat}

section Cases
variable (crypto : Crypto) (params : CChainParams) (outside : Surroundings)

/-- The results of AcceptBlockHeader, with the state it leaves and the cache of the header. -/
inductive HeaderArrives (state : params.State) (header : CBlockHeader) :
    Except Reject Uint256 → params.State → Option PoWCache → Prop
  | rejected (reject : Reject) (cache : Option PoWCache) :
      HeaderArrives state header (.error reject) state cache
  | marked (reject : Reject) (cache : Option PoWCache) (failedit : Uint256)
      (known : state.Known header.hashPrevBlock) (member : failedit ∈ state.g_failed_blocks)
      (above : failedit ∈ state.path header.hashPrevBlock) :
      HeaderArrives state header (.error reject)
        (state.setFailedChild ((state.path header.hashPrevBlock).takeWhile fun walk => walk ≠ failedit)) cache
  | present (cache : Option PoWCache) (known : state.Known (getBlockHash crypto header))
      (sound : getBlockHash crypto header = params.consensus.hashGenesisBlock ∨
        (state.nStatus (getBlockHash crypto header)).failed = false) :
      HeaderArrives state header (.ok (getBlockHash crypto header)) state cache
  | added (cache : Option PoWCache) (fresh : ¬state.Known (getBlockHash crypto header))
      (known : state.Known header.hashPrevBlock)
      (sound : (state.nStatus header.hashPrevBlock).failed = false)
      (checked : contextualCheckBlockHeader params state header header.hashPrevBlock outside.nAdjustedTime = .ok ())
      (clear : failedAncestor params state header.hashPrevBlock = none) :
      HeaderArrives state header (.ok (getBlockHash crypto header))
        (state.addToBlockIndex (getBlockHash crypto header) header cache fresh known) cache

variable {crypto params outside} {state after : params.State} {header : CBlockHeader}
  {cache cache' : Option PoWCache} {result : Except Reject Uint256}

lemma failedAncestor_found (found : failedAncestor params state pindexPrev = some failedit) :
    failedit ∈ state.g_failed_blocks ∧ failedit ∈ state.path pindexPrev := by
  unfold failedAncestor at found
  split_ifs at found
  exact ⟨mem_of_find?_eq_some found, by simpa using find?_some found⟩

lemma acceptOnto_arrives {fresh : ¬state.Known (getBlockHash crypto header)}
    {known : state.Known header.hashPrevBlock}
    (done : acceptOnto crypto params outside.nAdjustedTime state header cache fresh known =
      .ok (result, after)) : HeaderArrives crypto params outside state header result after cache := by
  unfold acceptOnto at done
  simp only at done
  split_ifs at done with failed
  · cases done
    exact .rejected _ _
  split at done
  · cases done
    exact .rejected _ _
  rename_i checked
  split at done
  · rename_i failedit found
    split_ifs at done
    cases done
    obtain ⟨member, above⟩ := failedAncestor_found found
    exact .marked _ _ failedit known member above
  · rename_i clear
    cases done
    exact .added _ fresh known (by simpa using failed) checked clear

lemma acceptOnto_ok {fresh : ¬state.Known (getBlockHash crypto header)} {known : state.Known header.hashPrevBlock}
    (flags : ∀ hash ∈ state.g_failed_blocks, (state.nStatus hash).failedValid = true) :
    ∃ done, acceptOnto crypto params outside.nAdjustedTime state header cache fresh known = .ok done := by
  unfold acceptOnto
  simp only
  split_ifs
  · exact ⟨_, rfl⟩
  split
  · exact ⟨_, rfl⟩
  split
  · rename_i found
    simp [flags _ (failedAncestor_found found).1]
  · exact ⟨_, rfl⟩

lemma acceptBlockHeader_arrives
    (done : acceptBlockHeader crypto params outside state header cache = .ok (result, after, cache')) :
    HeaderArrives crypto params outside state header result after cache' ∧
      (cache' = cache ∨ cache' = (getPoWHash_cached crypto header cache).2) := by
  unfold acceptBlockHeader at done
  simp only at done
  have caches : (if outside.isInitialBlockDownload then (Except.ok (), cache)
        else checkHeaderWork crypto params header cache).2 = cache ∨
      (if outside.isInitialBlockDownload then (Except.ok (), cache)
        else checkHeaderWork crypto params header cache).2 = (getPoWHash_cached crypto header cache).2 := by
    split_ifs
    · exact Or.inl rfl
    · exact Or.inr rfl
  generalize (if outside.isInitialBlockDownload then (Except.ok (), cache)
    else checkHeaderWork crypto params header cache) = work at done caches
  obtain ⟨passed, cached⟩ := work
  split_ifs at done with fresh duplicate known
  · cases done
    exact ⟨.rejected _ _, Or.inl rfl⟩
  · cases done
    refine ⟨.present _ fresh ?_, Or.inl rfl⟩
    by_cases root : getBlockHash crypto header = params.consensus.hashGenesisBlock
    · exact Or.inl root
    · exact Or.inr (by simpa [root] using duplicate)
  all_goals cases passed with
    | error reject =>
      cases done
      exact ⟨.rejected _ _, caches⟩
    | ok =>
      first
      | cases done
        exact ⟨.rejected _ _, caches⟩
      | obtain ⟨⟨result', after'⟩, accepted, same⟩ := ok_of_map done
        cases same
        exact ⟨acceptOnto_arrives accepted, caches⟩

lemma acceptBlockHeader_present (known : state.Known (getBlockHash crypto header))
    (done : acceptBlockHeader crypto params outside state header cache = .ok (result, after, cache')) :
    after = state ∧ cache' = cache := by
  unfold acceptBlockHeader at done
  simp only at done
  split_ifs at done
  all_goals
    cases done
    exact ⟨rfl, rfl⟩

lemma acceptBlockHeader_ok (flags : ∀ hash ∈ state.g_failed_blocks, (state.nStatus hash).failedValid = true) :
    ∃ done, acceptBlockHeader crypto params outside state header cache = .ok done := by
  unfold acceptBlockHeader
  simp only
  generalize (if outside.isInitialBlockDownload then (Except.ok (), cache)
    else checkHeaderWork crypto params header cache) = work
  split_ifs with fresh duplicate known
  · exact ⟨_, rfl⟩
  · exact ⟨_, rfl⟩
  all_goals split
  · exact ⟨_, rfl⟩
  · exact ok_map (acceptOnto_ok flags)
  · exact ⟨_, rfl⟩
  · exact ⟨_, rfl⟩

variable (crypto) in
/-- The cache that AcceptBlockHeader leaves in a block: the one it had, unless the header
was new and its work has been checked. -/
def CacheAfter (state : params.State) (object : BlockInMemory) (cache : Option PoWCache) : Prop :=
  (cache = object.cache ∨ cache = (getPoWHash_cached crypto object.block.toCBlockHeader object.cache).2) ∧
  (state.Known (getBlockHash crypto object.block.toCBlockHeader) → cache = object.cache)

variable (crypto params outside) in
/-- The results of AcceptBlock, over those for its header. -/
inductive BlockArrives (address : Uint256 ↪ Nat) (state : params.State) (object : BlockInMemory) :
    Except Reject Uint256 → params.State → Prop
  | header (result result' : Except Reject Uint256) (after : params.State) (cache : Option PoWCache)
      (arrives : HeaderArrives crypto params outside state object.block.toCBlockHeader result after cache)
      (cached : CacheAfter crypto state object cache)
      (refused : ∀ hash, result' = .ok hash → result = .ok hash) :
      BlockArrives address state object result' after
  | failed (pindex : Uint256) (reject : Reject) (after : params.State) (cache : Option PoWCache)
      (arrives : HeaderArrives crypto params outside state object.block.toCBlockHeader (.ok pindex) after cache)
      (cached : CacheAfter crypto state object cache)
      (missing : (after.nStatus pindex).haveData = false) (certain : reject.corruptionPossible = false)
      (checked : checkArrival crypto params after pindex { object with cache } = .error reject) :
      BlockArrives address state object (.error reject) (after.setFailedValid pindex)
  | stored (pindex : Uint256) (object' : BlockInMemory) (mid after : params.State)
      (cache : Option PoWCache)
      (arrives : HeaderArrives crypto params outside state object.block.toCBlockHeader (.ok pindex) mid cache)
      (cached : CacheAfter crypto state object cache)
      (missing : (mid.nStatus pindex).haveData = false)
      (checked : checkArrival crypto params mid pindex { object with cache } = .ok object')
      (received : mid.receivedBlockTransactions address object'.block pindex = .ok after) :
      BlockArrives address state object (.ok pindex) after

variable {fRequested : Bool} {object object' : BlockInMemory}

lemma skipsBlock_false (looks : skipsBlock params state pindex fRequested ≠ true) :
    (state.nStatus pindex).haveData = false := by
  cases held : (state.nStatus pindex).haveData with
  | false => rfl
  | true => exact absurd (by simp [skipsBlock, held]) looks

lemma acceptBlock_arrives
    (done : acceptBlock crypto params address outside state object fRequested = .ok (result, after, object')) :
    BlockArrives crypto params outside address state object result after := by
  obtain ⟨⟨accepted, mid, cache⟩, header, done⟩ := ok_of_bind done
  obtain ⟨arrives, caches⟩ := acceptBlockHeader_arrives header
  have cached : CacheAfter crypto state object cache :=
    ⟨caches, fun known => (acceptBlockHeader_present known header).2⟩
  cases accepted with
  | error reject =>
    cases done
    exact .header _ _ _ _ arrives cached fun _ => id
  | ok pindex =>
    simp only at done
    split_ifs at done with skips
    · cases done
      exact .header _ _ _ _ arrives cached fun _ => id
    have missing := skipsBlock_false skips
    split at done
    · rename_i reject checked
      split_ifs at done with corrupt
      · cases done
        exact .header _ _ _ _ arrives cached nofun
      · cases done
        exact .failed pindex reject mid cache arrives cached missing (by simpa using corrupt) checked
    · rename_i checkedObject checked
      obtain ⟨stored, received, same⟩ := ok_of_map done
      obtain ⟨rfl, rfl, rfl⟩ := same
      exact .stored pindex _ mid _ cache arrives cached missing checked received

/-- AcceptBlock meets no failed assertion, as long as the data of a block can be linked. -/
lemma acceptBlock_ok
    (flags : ∀ hash ∈ state.g_failed_blocks, (state.nStatus hash).failedValid = true)
    (links : ∀ pindex object' mid cache,
      HeaderArrives crypto params outside state object.block.toCBlockHeader (.ok pindex) mid cache →
      (mid.nStatus pindex).haveData = false →
      checkArrival crypto params mid pindex { object with cache } = .ok object' →
      ∃ after, mid.receivedBlockTransactions address object'.block pindex = .ok after) :
    ∃ done, acceptBlock crypto params address outside state object fRequested = .ok done := by
  obtain ⟨⟨accepted, mid, cache⟩, header⟩ : ∃ done, acceptBlockHeader crypto params outside state
      object.block.toCBlockHeader object.cache = .ok done := acceptBlockHeader_ok flags
  obtain ⟨arrives, _⟩ := acceptBlockHeader_arrives header
  unfold acceptBlock
  rw [header, ok_bind]
  cases accepted with
  | error reject => exact ⟨_, rfl⟩
  | ok pindex =>
    simp only
    split_ifs with skips
    · exact ⟨_, rfl⟩
    split
    · exact ⟨_, rfl⟩
    · rename_i object' checked
      exact ok_map (links pindex object' mid cache arrives (skipsBlock_false skips) checked)

/-- fChecked stands for checks of its body that the block has passed. -/
def BlockInMemory.Checked (crypto : Crypto) (params : CChainParams) (object : BlockInMemory) : Prop :=
  object.fChecked = true → checkBlockBody crypto params.consensus object.block false true = .ok ()

lemma checkBlock_block (passed : object.checkBlock crypto params = .ok object') : object'.block = object.block := by
  unfold BlockInMemory.checkBlock at passed
  simp only [if_true] at passed
  split_ifs at passed
  · cases passed
    rfl
  · split at passed
    · cases passed
    split at passed
    · cases passed
    · cases passed
      rfl

lemma checkBlock_body (sound : object.Checked crypto params)
    (passed : object.checkBlock crypto params = .ok object') :
    checkBlockBody crypto params.consensus object.block false true = .ok () := by
  unfold BlockInMemory.checkBlock at passed
  simp only [if_true] at passed
  split_ifs at passed with already
  · exact sound already
  · split at passed
    · cases passed
    split at passed
    · cases passed
    · rename_i body
      exact body

lemma checkArrival_checkBlock (passed : checkArrival crypto params state pindex object = .ok object') :
    object.checkBlock crypto params = .ok object' := by
  obtain ⟨checked, check, passed⟩ := ok_of_bind passed
  obtain ⟨_, _, passed⟩ := ok_of_bind passed
  cases passed
  exact check

lemma checkArrival_body (sound : object.Checked crypto params)
    (passed : checkArrival crypto params state pindex object = .ok object') :
    object'.block = object.block ∧ object.block.vtx ≠ [] := by
  have check := checkArrival_checkBlock passed
  obtain ⟨coinbase, rest, shape, _⟩ := (checkBlockBody_passed (checkBlock_body sound check)).shape
  refine ⟨checkBlock_block check, ?_⟩
  rw [shape]
  exact cons_ne_nil _ _

end Cases

namespace CChainState

variable {state after : CChainState genesis}

/-- What linking leaves alone: the tree, the tip, every flag and every header. -/
structure SameFlags (state after : CChainState genesis) : Prop extends SameTree state after where
  tip : after.tip = state.tip
  failedBlocks : after.g_failed_blocks = state.g_failed_blocks
  status : ∀ hash, after.nStatus hash = state.nStatus hash
  header : ∀ hash, (after.blockIndex hash).header = (state.blockIndex hash).header
  cache : ∀ hash, (after.blockIndex hash).cache = (state.blockIndex hash).cache

lemma SameFlags.refl (state : CChainState genesis) : SameFlags state state :=
  ⟨⟨rfl⟩, rfl, rfl, fun _ => rfl, fun _ => rfl, fun _ => rfl⟩

lemma SameFlags.trans {first second third : CChainState genesis} (one : SameFlags first second)
    (two : SameFlags second third) : SameFlags first third :=
  ⟨⟨two.tree.trans one.tree⟩, two.tip.trans one.tip, two.failedBlocks.trans one.failedBlocks,
    fun hash => (two.status hash).trans (one.status hash),
    fun hash => (two.header hash).trans (one.header hash),
    fun hash => (two.cache hash).trans (one.cache hash)⟩

variable {block : CBlock}

lemma storeData_nStatus {nTx : Nat} (state : CChainState genesis) :
    (state.storeData pindex nTx).nStatus other = { state.nStatus other with
        haveData := decide (other = pindex) || (state.nStatus other).haveData
        validity := if other = pindex then
            ((state.nStatus other).raiseValidity BLOCK_VALID_TRANSACTIONS).validity
          else (state.nStatus other).validity } := by
  rw [storeData, nStatus, modify_entry]
  split_ifs with same
  · simp only [same, decide_true, Bool.true_or, BlockStatus.raiseValidity, BlockStatus.failed]
    split_ifs <;> rfl
  · simp [same]

lemma storeData_failed (state : CChainState genesis) (pindex other : Uint256) (nTx : Nat) :
    ((state.storeData pindex nTx).nStatus other).failed = (state.nStatus other).failed := by
  rw [storeData_nStatus]
  rfl

variable (address) in
lemma linkBlock_entry (state : CChainState genesis) (pindex other : Uint256) :
    (state.linkBlock address pindex).blockIndex other =
      if other = pindex then { state.blockIndex other with
        nChainTx := (((state.pprev pindex).elim 0 state.nChainTx) + (state.blockIndex pindex).nTx) % 2 ^ 32
        nSequenceId := state.nBlockSequenceId }
      else state.blockIndex other := by
  simp [linkBlock, apply_ite CChainState.blockIndex, modify_entry]

variable (address) in
lemma linkBlock_sameFlags (state : CChainState genesis) (pindex : Uint256) :
    SameFlags state (state.linkBlock address pindex) := by
  refine ⟨⟨?_⟩, ?_, ?_, ?_, ?_, ?_⟩
  iterate 3
    rw [linkBlock]
    split_ifs <;> rfl
  all_goals
    intro hash
    simp only [nStatus, linkBlock_entry]
    split_ifs <;> rfl

/-- The rule of invariants for ReceivedBlockTransactions, with the queue of the entries to link. -/
lemma receivedBlockTransactions_post (holds : List Uint256 → CChainState genesis → Prop)
    (stored : holds [pindex] (state.storeData pindex (block.vtx.length % 2 ^ 32)))
    (link : ∀ front queue current next, holds (front :: queue) current →
      linkTurn address (front :: queue, current) = .ok (.inr next) → holds next.1 next.2)
    (wait : ∀ current pairs, holds [pindex] current →
      (∀ pair ∈ pairs, pair ∈ current.mapBlocksUnlinked ∨ pair.2 = pindex) →
      holds [] { current with mapBlocksUnlinked := pairs })
    (done : state.receivedBlockTransactions address block pindex = .ok after) : holds [] after := by
  have links {current : CChainState genesis} (good : holds [pindex] current)
      (done : current.linkFrom address pindex = .ok after) : holds [] after := by
    refine runLoop_post (fun turn : List Uint256 × CChainState genesis => holds turn.1 turn.2) _ ?_ ?_ good done
    all_goals
      rintro ⟨queue, current⟩ next good turned
      cases queue
    · cases turned
      exact good
    · cases turned
    · cases turned
    · exact link _ _ _ _ good turned
  unfold receivedBlockTransactions at done
  simp only at done
  split at done
  · exact links stored done
  · split_ifs at done
    · exact links stored done
    · cases done
      refine wait _ _ stored fun pair member => (mem_append.mp member).imp_right fun new => ?_
      rw [mem_singleton.mp new]
    · cases done
      exact wait _ _ stored fun _ => Or.inl

lemma receivedBlockTransactions_sameFlags
    (done : state.receivedBlockTransactions address block pindex = .ok after) :
    SameFlags (state.storeData pindex (block.vtx.length % 2 ^ 32)) after := by
  refine receivedBlockTransactions_post (fun _ current => SameFlags _ current) (.refl _) ?_ ?_ done
  · rintro front queue current next same ⟨⟩
    have linked := same.trans (linkBlock_sameFlags address current front)
    exact ⟨⟨linked.tree⟩, linked.tip, linked.failedBlocks, linked.status, linked.header, linked.cache⟩
  · exact fun _ _ same _ => ⟨⟨same.tree⟩, same.tip, same.failedBlocks, same.status, same.header, same.cache⟩

end CChainState

end Dragonchain
