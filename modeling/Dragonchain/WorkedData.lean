import Dragonchain.IndexGrowth

/-!
Proof of work of stored blocks. AcceptBlockHeader skips the check during the initial
download, and CheckBlock takes its answer from fChecked or from a cached hash; still, an
entry gets its data only after the work of its own header has been checked, as long as
no two headers that were seen have the same block hash.
-/

namespace Dragonchain

open Serialization CChainState LeafTree

variable {object object' : BlockInMemory} {result : Except Reject Uint256}
  {fCheckPOW fCheckMerkleRoot fRequested : Bool}

section Objects
variable (crypto : Crypto) (params : CChainParams)

/-- The yespower hash of the header satisfies its nBits. -/
def HasWork (header : CBlockHeader) : Prop :=
  checkProofOfWork params.consensus (getPoWHash crypto header) header.nBits = true

/-- A block in memory whose marks are what CheckBlock and GetPoWHash_cached leave. -/
structure BlockInMemory.Genuine (seen : CBlockHeader → Prop) (object : BlockInMemory) : Prop where
  listed : seen object.block.toCBlockHeader
  cache : CacheOf crypto seen object.cache
  work : object.fChecked = true → HasWork crypto params object.block.toCBlockHeader

variable {crypto params} {seen : CBlockHeader → Prop}

lemma BlockInMemory.Genuine.fresh {block : CBlock} (listed : seen block.toCBlockHeader) :
    BlockInMemory.Genuine crypto params seen { block } :=
  ⟨listed, nofun, nofun⟩

/-- The blocks that FillBlock hands on, marked where CheckBlock has seen their work. -/
lemma BlockInMemory.Genuine.filled (object : BlockObject crypto params.consensus)
    (listed : seen object.block.toCBlockHeader) {cache : Option PoWCache} (cached : CacheOf crypto seen cache) :
    BlockInMemory.Genuine crypto params seen ⟨object.block, object.fChecked, cache⟩ := by
  refine ⟨listed, cached, fun marked => ?_⟩
  obtain ⟨_, work, _⟩ := ok_of_bind (object.sound marked)
  simpa [HasWork] using check_ok work

/-- CheckBlock lets no block without work through unless it is told not to look, and keeps the
marks right. -/
lemma BlockInMemory.Genuine.checkBlock (distinct : Set.InjOn (getBlockHash crypto) {header | seen header})
    (genuine : object.Genuine crypto params seen)
    (passed : object.checkBlock crypto params fCheckPOW fCheckMerkleRoot = .ok object') :
    (fCheckPOW = true → HasWork crypto params object.block.toCBlockHeader) ∧
      object'.Genuine crypto params seen := by
  unfold BlockInMemory.checkBlock at passed
  split_ifs at passed with already looks
  · cases passed
    exact ⟨fun _ => genuine.work already, genuine⟩
  · have hashed := getPoWHash_cached_eq distinct genuine.listed genuine.cache
    have cached := getPoWHash_cached_sound genuine.listed genuine.cache
    unfold checkHeaderWork at passed
    simp only [hashed] at passed
    split at passed
    · cases passed
    rename_i checked
    have work : HasWork crypto params object.block.toCBlockHeader := check_ok checked
    split at passed
    · cases passed
    · cases passed
      exact ⟨fun _ => work, genuine.listed, cached, fun _ => work⟩
  · simp only at passed
    split at passed
    · cases passed
    · cases passed
      exact ⟨fun looked => absurd looked looks, genuine.listed, genuine.cache,
        fun marked => absurd ((Bool.and_eq_true _ _).mp marked).1 looks⟩

/-- AcceptBlock hands its block on as it leaves it. -/
lemma BlockInMemory.Genuine.acceptBlock (distinct : Set.InjOn (getBlockHash crypto) {header | seen header})
    (genuine : object.Genuine crypto params seen) {address : Uint256 ↪ Nat} {outside : Surroundings}
    {state after : params.State}
    (done : acceptBlock crypto params address outside state object fRequested = .ok (result, after, object')) :
    object'.Genuine crypto params seen := by
  obtain ⟨⟨accepted, mid, cache⟩, header, done⟩ := ok_of_bind done
  have cached : CacheOf crypto seen cache := by
    rcases (acceptBlockHeader_arrives header).2 with rfl | rfl
    · exact genuine.cache
    · exact getPoWHash_cached_sound genuine.listed genuine.cache
  have kept : BlockInMemory.Genuine crypto params seen { object with cache } :=
    ⟨genuine.listed, cached, genuine.work⟩
  cases accepted with
  | error reject =>
    cases done
    exact kept
  | ok pindex =>
    simp only at done
    split_ifs at done
    · cases done
      exact kept
    split at done
    · cases done
      exact kept
    · rename_i passed
      obtain ⟨_, _, same⟩ := ok_of_map done
      cases same
      exact (kept.checkBlock distinct (checkArrival_checkBlock passed)).2

end Objects

section Entries
variable (crypto : Crypto) (params : CChainParams) (seen : CBlockHeader → Prop)

/-- The entries are those of headers that were seen, and stored data stands for work. -/
structure Worked (state : params.State) : Prop where
  entry : ∀ hash, state.Known hash → hash ≠ params.consensus.hashGenesisBlock →
    getBlockHash crypto (state.blockIndex hash).header = hash ∧ seen (state.blockIndex hash).header
  cache : ∀ hash, state.Known hash → CacheOf crypto seen (state.blockIndex hash).cache
  work : ∀ hash, state.Known hash → hash ≠ params.consensus.hashGenesisBlock →
    (state.nStatus hash).haveData = true → HasWork crypto params (state.blockIndex hash).header
  active : ∀ hash ∈ state.path state.tip, (state.nStatus hash).haveData = true

variable {crypto params seen} {address : Uint256 ↪ Nat} {outside : Surroundings}
  {state after : params.State} {connectBlock : Uint256 → Bool}

lemma start_worked {header : CBlockHeader} :
    Worked crypto params seen (.start params.consensus.hashGenesisBlock header) where
  entry _ known apart := absurd (List.mem_singleton.mp known) apart
  cache _ _ := nofun
  work _ known apart := absurd (List.mem_singleton.mp known) apart
  active _ _ := rfl

section
variable (worked : Worked crypto params seen state) (same : SameTree state after)
  (header : ∀ hash, (after.blockIndex hash).header = (state.blockIndex hash).header)
  (cache : ∀ hash, (after.blockIndex hash).cache = (state.blockIndex hash).cache)
include worked same header cache

lemma Worked.keep (data : ∀ hash, state.Known hash → (after.nStatus hash).haveData = true →
      (state.nStatus hash).haveData = true ∨ HasWork crypto params (state.blockIndex hash).header)
    (active : ∀ hash ∈ state.path after.tip, (after.nStatus hash).haveData = true) :
    Worked crypto params seen after := by
  constructor
  · intro hash listed
    rw [header]
    exact worked.entry hash ((same.known hash).mp listed)
  · intro hash listed
    rw [cache]
    exact worked.cache hash ((same.known hash).mp listed)
  · intro hash listed apart held
    rw [header]
    rw [same.known] at listed
    exact (data hash listed held).elim (worked.work hash listed apart) id
  · intro hash member
    rw [same.path] at member
    exact active hash member

lemma Worked.flag (data : ∀ hash, (after.nStatus hash).haveData = (state.nStatus hash).haveData)
    (active : ∀ hash ∈ state.path after.tip, (state.nStatus hash).haveData = true) :
    Worked crypto params seen after :=
  worked.keep same header cache (fun hash _ held => Or.inl ((data hash).symm.trans held))
    fun hash member => (data hash).trans (active hash member)

end

lemma Worked.setFailedChild (worked : Worked crypto params seen state) (walk : List Uint256) :
    Worked crypto params seen (state.setFailedChild walk) := by
  refine worked.flag ⟨rfl⟩ ?_ ?_ ?_ worked.active
  all_goals
    intro hash
    simp only [CChainState.setFailedChild, nStatus]
    split_ifs <;> rfl

lemma Worked.setFailedValid (worked : Worked crypto params seen state) (pindex : Uint256) :
    Worked crypto params seen (state.setFailedValid pindex) := by
  refine worked.flag ⟨rfl⟩ ?_ ?_ ?_ worked.active
  all_goals
    intro hash
    simp only [CChainState.setFailedValid, nStatus, modify_entry]
    split_ifs <;> rfl

variable {header : CBlockHeader} {call : ChainCall} {turns : Nat}

lemma activateBestChain_worked (rooted : state.Rooted) (worked : Worked crypto params seen state) {result : Bool}
    (done : state.activateBestChain address connectBlock turns = .ok (result, after)) :
    Worked crypto params seen after := by
  have invariant : ActivationInvariant address connectBlock fun current : params.State =>
      current.Rooted ∧ Worked crypto params seen current := by
    refine Rooted.invariant ?_ ?_ ?_ ?_ ?_ ?_
    · exact fun _ _ worked => ⟨worked.entry, worked.cache, worked.work, worked.active⟩
    · exact fun _ _ worked => ⟨worked.entry, worked.cache, worked.work, worked.active⟩
    · exact fun _ walk worked => worked.setFailedChild walk
    · intro current tip rooted worked listed
      refine ⟨worked.entry, worked.cache, worked.work, fun hash member => ?_⟩
      exact worked.active hash (path_trans rooted.tip listed member)
    · intro current pindex rooted worked known parent accepts data sound
      refine worked.flag ⟨rfl⟩ ?_ ?_ ?_ ?_
      · intro hash
        simp only [modify_entry]
        split_ifs <;> rfl
      · intro hash
        simp only [modify_entry]
        split_ifs <;> rfl
      · exact fun hash => (congrArg BlockStatus.haveData (current.connected_nStatus pindex hash)).trans rfl
      · intro hash member
        have shape : current.path pindex = pindex :: current.path current.tip := (pprev_spec known parent).2.2
        rcases List.mem_cons.mp (shape ▸ member) with rfl | above
        · exact data
        · exact worked.active hash above
    · intro current pindex rooted worked known parent rejects
      have failed := worked.setFailedValid pindex
      exact ⟨failed.entry, failed.cache, failed.work, failed.active⟩
  exact (invariant.activateBestChain ⟨rooted, worked⟩ done).2

lemma HeaderArrives.worked
    {cache : Option PoWCache} (arrives : HeaderArrives crypto params outside state header result after cache)
    (listed : seen header) (sound : CacheOf crypto seen cache) (rooted : state.Rooted)
    (worked : Worked crypto params seen state) : Worked crypto params seen after := by
  cases arrives with
  | rejected | present => exact worked
  | marked => exact worked.setFailedChild _
  | added _ fresh known =>
    constructor
    · intro hash present apart
      by_cases same : hash = getBlockHash crypto header
      · rw [same, addToBlockIndex_new]
        exact ⟨rfl, listed⟩
      · rw [addToBlockIndex_entry same]
        exact worked.entry hash (addToBlockIndex_known present same) apart
    · intro hash present
      by_cases same : hash = getBlockHash crypto header
      · rw [same, addToBlockIndex_new]
        exact sound
      · rw [addToBlockIndex_entry same]
        exact worked.cache hash (addToBlockIndex_known present same)
    · intro hash present apart held
      have before := addToBlockIndex_before present (Or.inl held)
      rw [nStatus, addToBlockIndex_old before] at held
      rw [addToBlockIndex_old before]
      exact worked.work hash before apart held
    · intro hash member
      have member : hash ∈ state.path state.tip := by
        rw [← addToBlockIndex_path rooted.tip]
        exact member
      rw [nStatus, addToBlockIndex_old (path_nodes rooted.tip hash member)]
      exact worked.active hash member

lemma BlockArrives.worked (distinct : Set.InjOn (getBlockHash crypto) {header | seen header})
    (arrives : BlockArrives crypto params outside address state object result after)
    (genuine : object.Genuine crypto params seen) (rooted : state.Rooted)
    (worked : Worked crypto params seen state) : Worked crypto params seen after := by
  have caches : ∀ {cache}, CacheAfter crypto state object cache → CacheOf crypto seen cache := by
    rintro cache ⟨kept | computed, _⟩
    · rw [kept]
      exact genuine.cache
    · rw [computed]
      exact getPoWHash_cached_sound genuine.listed genuine.cache
  cases arrives with
  | header _ _ _ _ arrives cached => exact arrives.worked genuine.listed (caches cached) rooted worked
  | failed pindex reject mid cache arrives cached =>
    exact (arrives.worked genuine.listed (caches cached) rooted worked).setFailedValid pindex
  | stored pindex object' mid _ cache arrives cached missing checked received =>
    have worked := arrives.worked genuine.listed (caches cached) rooted worked
    obtain ⟨known, named⟩ := arrives.known
    have object : BlockInMemory.Genuine crypto params seen { object with cache } :=
      ⟨genuine.listed, caches cached, genuine.work⟩
    have apart : pindex ≠ params.consensus.hashGenesisBlock := by
      rintro rfl
      rw [worked.active _ (root_mem_path (arrives.rooted rooted).tip)] at missing
      cases missing
    obtain ⟨hashes, listed⟩ := worked.entry pindex known apart
    have same := distinct listed genuine.listed (hashes.trans named)
    have work := (object.checkBlock distinct (checkArrival_checkBlock checked)).1 rfl
    have flags := receivedBlockTransactions_sameFlags received
    refine worked.keep ⟨flags.tree⟩ ?_ ?_ ?_ ?_
    · intro hash
      rw [flags.header, storeData, modify_entry]
      split_ifs <;> rfl
    · intro hash
      rw [flags.cache, storeData, modify_entry]
      split_ifs <;> rfl
    · intro hash _ held
      rw [flags.status, storeData_nStatus] at held
      refine (Bool.or_eq_true _ _ |>.mp held).symm.imp_right fun stored => ?_
      rw [of_decide_eq_true stored, same]
      exact work
    · intro hash member
      rw [flags.tip] at member
      rw [flags.status, storeData_nStatus]
      exact (Bool.or_eq_true _ _).mpr (Or.inr (worked.active hash member))

variable (crypto params seen) in
/-- Arrivals of headers that were seen, with caches as they are left. -/
def ChainCall.Brings : ChainCall → Prop
  | .acceptBlockHeader _ header cache => seen header ∧ CacheOf crypto seen cache
  | .acceptBlock _ object _ | .processNewBlock _ object _ _ => object.Genuine crypto params seen
  | .activateBestChain _ => True
  | .preciousBlock _ _ | .invalidateBlock _ | .resetBlockFailureFlags _ => False

variable (crypto params address seen) in
/-- The states that arrivals reach from the genesis block, in or out of the initial download. -/
inductive WorkRun (header : CBlockHeader) : params.State → Prop
  | start : WorkRun header (.start params.consensus.hashGenesisBlock header)
  | call {state after : params.State} (call : ChainCall) (turns : Nat) (run : WorkRun header state)
      (brings : call.Brings crypto params seen)
      (done : call.perform crypto params address turns state = .ok after) : WorkRun header after

lemma ChainCall.Brings.named (brings : call.Brings crypto params seen) : call.Named state := by
  cases call with
  | acceptBlockHeader | acceptBlock | processNewBlock | activateBestChain => trivial
  | preciousBlock | invalidateBlock | resetBlockFailureFlags => exact brings.elim

lemma Worked.withIndexCache (worked : Worked crypto params seen state)
    (genuine : object.Genuine crypto params seen) :
    (withIndexCache crypto params state object).Genuine crypto params seen := by
  unfold Dragonchain.withIndexCache
  simp only
  split_ifs with takes
  · refine ⟨genuine.listed, worked.cache _ ?_, genuine.work⟩
    exact of_decide_eq_true ((Bool.and_eq_true _ _).mp takes).2
  · exact genuine

variable (distinct : Set.InjOn (getBlockHash crypto) {header | seen header})
include distinct

lemma ChainCall.perform_worked (rooted : state.Rooted)
    (worked : Worked crypto params seen state) (brings : call.Brings crypto params seen)
    (done : call.perform crypto params address turns state = .ok after) : Worked crypto params seen after := by
  cases call with
  | acceptBlockHeader outside header cache =>
    obtain ⟨⟨result, _, cache'⟩, arrived, rfl⟩ := ok_of_map done
    obtain ⟨listed, sound⟩ := brings
    obtain ⟨arrives, rfl | rfl⟩ := acceptBlockHeader_arrives arrived
    · exact arrives.worked listed sound rooted worked
    · exact arrives.worked listed (getPoWHash_cached_sound listed sound) rooted worked
  | acceptBlock outside object fRequested =>
    obtain ⟨⟨result, _, object'⟩, arrived, rfl⟩ := ok_of_map done
    exact (acceptBlock_arrives arrived).worked distinct brings rooted worked
  | processNewBlock outside object fForceProcessing connectBlock =>
    obtain ⟨⟨result, _⟩, processed, rfl⟩ := ok_of_map done
    rcases processNewBlock_cases processed with rfl | ⟨checked, _, passed, arrived, processed⟩
    · exact worked
    obtain ⟨_, genuine⟩ := (worked.withIndexCache brings).checkBlock distinct passed
    have arrives := acceptBlock_arrives arrived
    have worked := arrives.worked distinct genuine rooted worked
    rcases processed with rfl | processed
    · exact worked
    · exact activateBestChain_worked (arrives.rooted rooted) worked processed
  | activateBestChain connectBlock =>
    obtain ⟨⟨result, _⟩, activated, rfl⟩ := ok_of_map done
    exact activateBestChain_worked rooted worked activated
  | preciousBlock | invalidateBlock | resetBlockFailureFlags => exact brings.elim

lemma WorkRun.worked (run : WorkRun crypto params seen address header state) :
    state.Rooted ∧ Worked crypto params seen state := by
  induction run with
  | start => exact ⟨start_rooted, start_worked⟩
  | call call turns run brings done ih =>
    obtain ⟨rooted, worked⟩ := ih
    exact ⟨(call.perform_grows rooted brings.named done).1, call.perform_worked distinct rooted worked brings done⟩

omit distinct

/-- Every entry with data, and so every block of the active chain, has the work of its header. -/
theorem WorkRun.data_has_work {header : CBlockHeader}
    (distinct : Set.InjOn (getBlockHash crypto) {header | seen header})
    (run : WorkRun crypto params seen address header state) :
    (∀ hash, state.Known hash → hash ≠ params.consensus.hashGenesisBlock →
      (state.nStatus hash).haveData = true → HasWork crypto params (state.blockIndex hash).header) ∧
    ∀ hash ∈ state.chainActive, hash ≠ params.consensus.hashGenesisBlock →
      HasWork crypto params (state.blockIndex hash).header := by
  obtain ⟨rooted, worked⟩ := run.worked distinct
  refine ⟨worked.work, fun hash member apart => ?_⟩
  exact worked.work hash (path_nodes rooted.tip hash member) apart (worked.active hash member)

end Entries

namespace Download

open Sample

def first : CBlock := block genesis 1 1 1

def headerArrives : ChainCall := .acceptBlockHeader ⟨true, 100⟩ first.toCBlockHeader none
def blockArrives : ChainCall := .processNewBlock outside { block := first } true accepts

theorem first_hasWork :
    ∃ state, WorkRun Crypto.suffixes (params []) (fun header => header = first.toCBlockHeader) address
        genesisHeader state ∧ state.tip = hash first ∧
      (∀ hash, state.Known hash → hash ≠ genesis → (state.nStatus hash).haveData = true →
        HasWork Crypto.suffixes (params []) (state.blockIndex hash).header) ∧
      ∀ hash ∈ state.chainActive, hash ≠ genesis →
        HasWork Crypto.suffixes (params []) (state.blockIndex hash).header := by
  obtain ⟨known, added, state, stored, tip⟩ : ∃ known, headerArrives.perform Crypto.suffixes (params []) address 0
      (Sample.start []) = .ok known ∧ ∃ state, blockArrives.perform Crypto.suffixes (params []) address 10 known =
        .ok state ∧ state.tip = hash first := by decide +kernel
  have header : WorkRun Crypto.suffixes (params []) (fun header => header = first.toCBlockHeader) address
      genesisHeader known := WorkRun.start.call headerArrives 0 ⟨rfl, nofun⟩ added
  have run := header.call blockArrives 10 (BlockInMemory.Genuine.fresh rfl) stored
  have distinct : Set.InjOn (getBlockHash Crypto.suffixes) {header | header = first.toCBlockHeader} := by
    rintro one rfl other rfl _
    rfl
  exact ⟨state, run, tip, run.data_has_work distinct⟩

end Download

end Dragonchain
