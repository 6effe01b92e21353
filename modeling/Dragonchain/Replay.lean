import Mathlib.Data.List.Induction
import Dragonchain.BlockWrites
import Dragonchain.InterruptedFlush

/-!
ReplayBlocks of validation.cpp, which brings a database that an interrupted flush
left between two tips to the new one. It disconnects the blocks of the old branch
and rolls those of the new branch forward on one cache, whatever part of the flush
reached the disk, and flushes that cache.
-/

namespace Dragonchain

open Script Serialization Coins Command WriteLog List Ancestry Consensus.Params CCoinsViewDB

variable {coins coins' coinsNew coinsOld : CoinsAt} {hashOld hashNew : Uint256}
  {db crashed : CCoinsViewDB}

/-- mapBlockIndex and the block and undo files. The index entry of a block stands for
itself by its ancestry; the empty ancestry is a null pointer. -/
structure BlockTree where
  mapBlockIndex : Uint256 → Option Ancestry
  readBlockFromDisk : Ancestry → Option CBlock
  undoReadFromDisk : Ancestry → Option CBlockUndo

inductive ReplayError where
  | unknownInconsistentState
  | reorganizationToUnknownBlock
  | reorganizationFromUnknownBlock
  | readBlockFailed (nHeight : Int)
  | disconnectFailed (nHeight : Int)
  deriving DecidableEq

def stepBack : Ancestry → Ancestry → Ancestry × Ancestry
  | entry :: pa, entry' :: pb => if entry :: pa = entry' :: pb then (entry :: pa, entry' :: pb) else stepBack pa pb
  | pa, pb => (pa, pb)

/-- LastCommonAncestor; `none` where its assertion fails. -/
def lastCommonAncestor (pa pb : Ancestry) : Option Ancestry :=
  let level :=
    if pa.nHeight > pb.nHeight then ((pa.getAncestor pb.nHeight).getD [], pb)
    else if pb.nHeight > pa.nHeight then (pa, (pb.getAncestor pa.nHeight).getD [])
    else (pa, pb)
  let (pa, pb) := stepBack level.1 level.2
  if pa = pb then some pa else none

section Replay
variable (crypto : Crypto) (tree : BlockTree)

def rollback (pindexFork : Ancestry) : Ancestry → ViewM (Except ReplayError Unit)
  | [] => if pindexFork = [] then pure (.ok ()) else .stop (.fault .nullIndex)
  | entry :: pprev =>
    let pindexOld : Ancestry := entry :: pprev
    if pindexOld = pindexFork then pure (.ok ())
    else if pindexOld.nHeight > 0 then
      match tree.readBlockFromDisk pindexOld with
      | none => pure (.error (.readBlockFailed pindexOld.nHeight))
      | some block => do
        let res ← disconnectBlock crypto block pindexOld (tree.undoReadFromDisk pindexOld)
        if res = .DISCONNECT_FAILED then pure (.error (.disconnectFailed pindexOld.nHeight))
        else rollback pindexFork pprev
    else rollback pindexFork pprev

def rollforward (pindexNew : Ancestry) : Nat → Int → ViewM (Except ReplayError Unit)
  | 0, _ => pure (.ok ())
  | left + 1, nHeight =>
    match pindexNew.getAncestor nHeight with
    | none => .stop (.fault .nullIndex)
    | some pindex =>
      match tree.readBlockFromDisk pindex with
      | none => pure (.error (.readBlockFailed pindex.nHeight))
      | some block => do
        rollforwardBlock crypto block pindex
        rollforward pindexNew left (nHeight + 1)

/-- What ReplayBlocks does on its cache, up to the flush. -/
def replayCache (pindexOld pindexNew pindexFork : Ancestry) : ViewM (Except ReplayError Unit) := do
  let rolledBack ← rollback crypto tree pindexFork pindexOld
  match rolledBack with
  | .error error => pure (.error error)
  | .ok () => do
    let nForkHeight := if pindexFork.isEmpty then 0 else pindexFork.nHeight
    let rolled ← rollforward crypto tree pindexNew (pindexNew.nHeight - nForkHeight).toNat (nForkHeight + 1)
    match rolled with
    | .error error => pure (.error error)
    | .ok () => do
      let tip ← orFault .nullIndex pindexNew.head?
      setBestBlockCall tip.hash
      pure (.ok ())

abbrev ReplayM := Except (Stop ReplayError Validation)

def foundOr {α : Type} (stop : Stop ReplayError Validation) : Option α → ReplayM α
  | some value => .ok value
  | none => .error stop

/-- pindexOld and pindexFork. The old tip is null when it was the first flush. -/
def replayFork (hashOld : Uint256) (pindexNew : Ancestry) : ReplayM (Ancestry × Ancestry) :=
  if hashOld.isNull then .ok ([], [])
  else do
    let pindexOld ← foundOr (.error .reorganizationFromUnknownBlock) (tree.mapBlockIndex hashOld)
    let pindexFork ← foundOr (.fault (.fault .noCommonAncestor)) (lastCommonAncestor pindexOld pindexNew)
    if pindexFork = [] then .error (.fault (.fault .noCommonAncestor))
    else .ok (pindexOld, pindexFork)

variable (order : Iteration) (full : List DBWrite → Bool)

def flushBatches (stack : ViewStack CCoinsViewDB) : ReplayM (List (List DBWrite)) :=
  match stack.caches with
  | cache :: _ =>
    if stack.base.batchWriteAsserts cache.hashBlock then
      .ok (stack.base.batches full (order.visit cache.cacheCoins) cache.hashBlock)
    else .error (.fault (.fault .batchWriteAssert))
  | [] => .ok []

/-- ReplayBlocks: the batches it writes to the database when it returns true. -/
def replayBlocks (db : CCoinsViewDB) : ReplayM (List (List DBWrite)) :=
  match db.getHeadBlocks with
  | [] => .ok []
  | [hashNew, hashOld] => do
    let pindexNew ← foundOr (.error .reorganizationToUnknownBlock) (tree.mapBlockIndex hashNew)
    let (pindexOld, pindexFork) ← replayFork tree hashOld pindexNew
    let (replayed, stack) ← (run (viewHandler raiseCoins)
      (replayCache crypto tree pindexOld pindexNew pindexFork) ⟨db, [{}]⟩).mapError Stop.fault
    replayed.mapError Stop.error
    flushBatches order full stack
  | _ => .error (.error .unknownInconsistentState)

end Replay

/-! The fork of two branches. -/

variable {mid pa pb high low front pindexNew pindexOld : Ancestry}

section Fork

lemma getAncestor_append (front : Ancestry) (present : mid ≠ []) :
    getAncestor (front ++ mid) mid.nHeight = some mid := by
  have positive := length_pos_of_ne_nil present
  have drop : (nHeight (front ++ mid) - mid.nHeight).toNat = front.length := by
    simp only [nHeight, length_append]
    omega
  rw [getAncestor, if_neg, drop, drop_left]
  simp only [nHeight, length_append]
  omega

variable {genesis : IndexEntry}

lemma stepBack_meets (level : pa.length = pb.length)
    (rootA : pa.getLast? = some genesis) (rootB : pb.getLast? = some genesis) :
    ∃ frontA frontB fork, fork ≠ [] ∧ pa = frontA ++ fork ∧ pb = frontB ++ fork ∧
      stepBack pa pb = (fork, fork) := by
  induction pa generalizing pb with
  | nil => cases rootA
  | cons entry pa ih =>
    obtain ⟨entry', pb, rfl⟩ := exists_cons_of_length_eq_add_one level.symm
    by_cases same : entry :: pa = entry' :: pb
    · refine ⟨[], [], entry :: pa, cons_ne_nil _ _, rfl, same.symm, ?_⟩
      rw [stepBack, if_pos same, ← same]
    · have lengths : pa.length = pb.length := by simpa using level
      have more : pa ≠ [] := by
        rintro rfl
        have none : pb = [] := length_eq_zero_iff.mp lengths.symm
        subst none
        simp only [getLast?_singleton, Option.some.injEq] at rootA rootB
        exact same (by rw [rootA, rootB])
      have more' : pb ≠ [] := by
        rintro rfl
        exact more (length_eq_zero_iff.mp lengths)
      rw [getLast?_cons_of_ne_nil more] at rootA
      rw [getLast?_cons_of_ne_nil more'] at rootB
      obtain ⟨frontA, frontB, fork, present, rfl, rfl, met⟩ := ih lengths rootA rootB
      exact ⟨entry :: frontA, entry' :: frontB, fork, present, rfl, rfl, by rw [stepBack, if_neg same]; exact met⟩

lemma ancestor_at (present : low ≠ []) (above : high.nHeight > low.nHeight) (root : high.getLast? = some genesis) :
    ∃ front mid, high = front ++ mid ∧ mid.length = low.length ∧ mid.getLast? = some genesis ∧
      high.getAncestor low.nHeight = some mid := by
  have positive := length_pos_of_ne_nil present
  simp only [nHeight] at above
  have lengths : (high.drop (high.length - low.length)).length = low.length := by
    rw [length_drop]
    omega
  refine ⟨high.take (high.length - low.length), high.drop (high.length - low.length),
    (take_append_drop _ _).symm, lengths, ?_, ?_⟩
  · rw [getLast?_drop, if_neg (by omega), root]
  · have found := getAncestor_append (high.take (high.length - low.length))
      (ne_nil_of_length_pos (by omega) : high.drop (high.length - low.length) ≠ [])
    rw [take_append_drop] at found
    rw [← found]
    simp [nHeight, lengths]

lemma lastCommonAncestor_spec (rootA : pa.getLast? = some genesis) (rootB : pb.getLast? = some genesis) :
    ∃ frontA frontB fork, fork ≠ [] ∧ pa = frontA ++ fork ∧ pb = frontB ++ fork ∧
      lastCommonAncestor pa pb = some fork := by
  have presentA : pa ≠ [] := by
    rintro rfl
    cases rootA
  have presentB : pb ≠ [] := by
    rintro rfl
    cases rootB
  unfold lastCommonAncestor
  by_cases higher : pa.nHeight > pb.nHeight
  · obtain ⟨front, mid, rfl, lengths, root, found⟩ := ancestor_at presentB higher rootA
    obtain ⟨frontA, frontB, fork, present, rfl, rfl, met⟩ := stepBack_meets lengths root rootB
    refine ⟨front ++ frontA, frontB, fork, present, (append_assoc ..).symm, rfl, ?_⟩
    simp [higher, found, met]
  by_cases lower : pb.nHeight > pa.nHeight
  · obtain ⟨front, mid, rfl, lengths, root, found⟩ := ancestor_at presentA lower rootB
    obtain ⟨frontA, frontB, fork, present, rfl, rfl, met⟩ := stepBack_meets lengths.symm rootA root
    refine ⟨frontA, front ++ frontB, fork, present, rfl, (append_assoc ..).symm, ?_⟩
    simp [higher, lower, found, met]
  · have level : pa.length = pb.length := by
      simp only [nHeight] at higher lower
      omega
    obtain ⟨frontA, frontB, fork, present, rfl, rfl, met⟩ := stepBack_meets level rootA rootB
    refine ⟨frontA, frontB, fork, present, rfl, rfl, ?_⟩
    simp [higher, lower, met]

end Fork

/-! The UTXO sets of the blocks of the tree. -/

section UTXO
variable (crypto : Crypto) (params : Consensus.Params) (tree : BlockTree)

/-- ConnectBlock accepts the block on caches that show `coins` without replacing a coin,
and the block and its undo data can be read back. -/
inductive Connects (pindex : Ancestry) (coins : CoinsAt) : CoinsAt → Prop
  | accepted {scripts : ScriptContext} {object : BlockObject crypto params} {undo : CBlockUndo}
      {stack connected : ViewStack CCoinsViewDB} (coherent : Coherent stack.base stack.caches)
      (layered : stack.caches ≠ []) (shown : content stack.base stack.caches = coins)
      (isInt : pindex.nHeight < 2 ^ 31)
      (ran : run (viewHandler raiseCoins) (connectBlock scripts object pindex false) stack =
        .ok (some undo, connected))
      (noOverwrite : NoOverwrite (connectBlock scripts object pindex false) stack)
      (readBlock : tree.readBlockFromDisk pindex = some object.block)
      (readUndo : tree.undoReadFromDisk pindex = some undo) :
      Connects pindex coins (content connected.base connected.caches)

/-- The UTXO set at a block. ConnectBlock skips the transactions of the genesis block. -/
inductive UTXOAt (genesis : IndexEntry) : Ancestry → CoinsAt → Prop
  | genesis : UTXOAt genesis [genesis] fun _ => none
  | next {entry : IndexEntry} {pindex : Ancestry} {coins coins' : CoinsAt}
      (previous : UTXOAt genesis pindex coins)
      (connects : Connects crypto params tree (entry :: pindex) coins coins') :
      UTXOAt genesis (entry :: pindex) coins'

structure BlockStep (pindex : Ancestry) (coins coins' : CoinsAt) (block : CBlock)
    (vtxundo : CBlockUndo) : Prop where
  readBlock : tree.readBlockFromDisk pindex = some block
  readUndo : tree.undoReadFromDisk pindex = some vtxundo
  checked : CheckedBlock block
  data : UndoData block vtxundo
  forward : replay coins (block.vtx.flatMap (forwardWrites crypto pindex.nHeight)) = coins'
  backward : replay coins' ((undoOrder block vtxundo).flatMap (backwardWrites crypto)) = coins

variable {crypto params tree} {genesis : IndexEntry}

lemma getBestBlock_coinsKept {view looked : PlainView} {hash : Uint256}
    (ran : run onPlain getBestBlockCall view = .ok (hash, looked)) : looked.coins = view.coins := by
  rw [getBestBlockCall, run_request] at ran
  simp only [plainHandler] at ran
  split at ran <;> cases ran <;> rfl

variable {pindex : Ancestry}

lemma isUTXOView_of_restorable {stack : ViewStack CCoinsViewDB} (coherent : Coherent stack.base stack.caches)
    (layered : stack.caches ≠ []) (restorable : Restorable (content stack.base stack.caches)) :
    IsUTXOView stack :=
  ⟨coherent, layered, fun outpoint coin held => (restorable outpoint coin held).2.1,
    fun outpoint coin held => (restorable outpoint coin held).2.2⟩

/-- A block that was connected can be disconnected. -/
lemma Connects.disconnects (connects : Connects crypto params tree pindex coins coins')
    (restorable : Restorable coins) :
    ∃ (stack disconnected : ViewStack CCoinsViewDB) (block : CBlock), Coherent stack.base stack.caches ∧
      stack.caches ≠ [] ∧ content stack.base stack.caches = coins' ∧
      tree.readBlockFromDisk pindex = some block ∧
      run (viewHandler raiseCoins) (disconnectBlock crypto block pindex (tree.undoReadFromDisk pindex)) stack =
        .ok (.DISCONNECT_OK, disconnected) := by
  cases connects with
  | @accepted scripts object undo stack connected coherent layered shown isInt ran noOverwrite
      readBlock readUndo =>
    obtain ⟨_, _, _, shows, ranPlain, _, _, _, _, undone⟩ :=
      accepted_plain (isUTXOView_of_restorable coherent layered (shown ▸ restorable)) isInt ran noOverwrite
    have values := checked_values (connectBlock_cases ranPlain).1
    obtain ⟨disconnected, back, _⟩ := (program_shows shows (disconnectBlock_allowed values)).ok_left undone
    obtain ⟨_, _, same, _⟩ := shows.hashes
    rw [readUndo]
    exact ⟨connected, disconnected, object.block, shows.coherent, by rw [same]; exact cons_ne_nil _ _, rfl,
      readBlock, back⟩

variable {entry : IndexEntry}

lemma connects_step (present : pindex ≠ []) (restorable : Restorable coins)
    (connects : Connects crypto params tree (entry :: pindex) coins coins') :
    Restorable coins' ∧ ∃ block vtxundo, BlockStep crypto tree (entry :: pindex) coins coins' block vtxundo := by
  cases connects with
  | @accepted scripts object undo stack connected coherent layered shown isInt ran noOverwrite
      readBlock readUndo =>
      have utxo := isUTXOView_of_restorable coherent layered (shown ▸ restorable)
      obtain ⟨view, connectedView, shows, showsConnected, ranPlain, kept, data, pprev, _, undone⟩ :=
        accepted_plain utxo isInt ran noOverwrite
      rw [showsConnected.coins]
      have start : view.coins = coins := by rw [← shows.coins, shown]
      obtain ⟨checked, looked, ranBest, effect⟩ := connectBlock_cases ranPlain
      rcases effect with ⟨skipped, _⟩ | ⟨connecting, body, _, _, ranBody, ranSet, _⟩
      · cases skipped
      refine ⟨kept, object.block, undo, readBlock, readUndo, checked, data, ?_, ?_⟩
      · rw [setBestBlockCall, run_request] at ranSet
        cases ranSet
        rw [connectBody_writes crypto checked ranBody, ← start, ← getBestBlock_coinsKept ranBest]
        rfl
      · obtain ⟨below, rest, rfl⟩ := exists_cons_of_ne_nil present
        obtain ⟨result, _, written⟩ := disconnectBlock_writes data
        rw [undone] at written
        have views := (Prod.mk.inj (Except.ok.inj written)).2
        rw [← start]
        exact (congrArg PlainView.coins views).symm

variable (utxo : UTXOAt crypto params tree genesis pindex coins)
include utxo

lemma UTXOAt.present : pindex ≠ [] := by cases utxo <;> exact cons_ne_nil _ _

lemma UTXOAt.root : pindex.getLast? = some genesis := by
  induction utxo with
  | genesis => rfl
  | next previous connects ih => rw [getLast?_cons_of_ne_nil previous.present, ih]

lemma UTXOAt.restorable : Restorable coins := by
  induction utxo with
  | genesis =>
    intro outpoint coin held
    cases held
  | next previous connects ih => exact (connects_step previous.present ih connects).1

omit utxo

lemma UTXOAt.step (utxo : UTXOAt crypto params tree genesis (entry :: pindex) coins') (present : pindex ≠ []) :
    ∃ coins block vtxundo, UTXOAt crypto params tree genesis pindex coins ∧
      BlockStep crypto tree (entry :: pindex) coins coins' block vtxundo := by
  cases utxo with
  | genesis => exact absurd rfl present
  | next previous connects =>
    obtain ⟨block, vtxundo, step⟩ := (connects_step present previous.restorable connects).2
    exact ⟨_, block, vtxundo, previous, step⟩

lemma UTXOAt.unique (utxo : UTXOAt crypto params tree genesis pindex coins)
    (utxo' : UTXOAt crypto params tree genesis pindex coins') : coins = coins' := by
  induction pindex generalizing coins coins' with
  | nil => exact absurd rfl utxo.present
  | cons entry pindex ih =>
    by_cases present : pindex = []
    · subst present
      cases utxo with
      | next previous _ => exact absurd rfl previous.present
      | genesis =>
        cases utxo' with
        | next previous _ => exact absurd rfl previous.present
        | genesis => rfl
    · obtain ⟨before, block, undo, utxo, step⟩ := utxo.step present
      obtain ⟨before', block', undo', utxo', step'⟩ := utxo'.step present
      have blocks : block = block' := Option.some.inj (step.readBlock.symm.trans step'.readBlock)
      rw [← step.forward, ← step'.forward, ih utxo utxo', blocks]

lemma UTXOAt.ancestor (utxo : UTXOAt crypto params tree genesis (front ++ mid) coins) (present : mid ≠ []) :
    ∃ coinsMid, UTXOAt crypto params tree genesis mid coinsMid := by
  induction front generalizing coins with
  | nil => exact ⟨coins, utxo⟩
  | cons entry front ih =>
    obtain ⟨before, _, _, previous, _⟩ := utxo.step (append_ne_nil_of_right_ne_nil _ present)
    exact ih previous

end UTXO

/-! What the two loops write, from any view. -/

variable {tip : IndexEntry}

section Loops
variable {crypto : Crypto} {params : Consensus.Params} {tree : BlockTree} {genesis : IndexEntry}

lemma rollback_writes {fork : Ancestry} (present : fork ≠ [])
    (utxo : UTXOAt crypto params tree genesis (front ++ fork) coins) :
    ∃ writes, UTXOAt crypto params tree genesis fork (replay coins writes) ∧ ∀ view : PlainView,
      Along onPlain Allowed (rollback crypto tree fork (front ++ fork)) view ∧
      ∃ hash, run onPlain (rollback crypto tree fork (front ++ fork)) view =
        .ok (.ok (), { PlainView.write view writes with hashBlock := hash }) := by
  induction front generalizing coins with
  | nil =>
    obtain ⟨entry, below, rfl⟩ := exists_cons_of_ne_nil present
    refine ⟨[], utxo, fun view => ?_⟩
    rw [nil_append, rollback, if_pos rfl]
    exact ⟨trivial, view.hashBlock, rfl⟩
  | cons entry front ih =>
    have more : front ++ fork ≠ [] := append_ne_nil_of_right_ne_nil _ present
    rw [cons_append] at utxo
    obtain ⟨before, block, vtxundo, previous, step⟩ := utxo.step more
    obtain ⟨writes, atFork, rolls⟩ := ih previous
    refine ⟨(undoOrder block vtxundo).flatMap (backwardWrites crypto) ++ writes, ?_, fun view => ?_⟩
    · rw [replay_append, step.backward]
      exact atFork
    have differs : entry :: (front ++ fork) ≠ fork := by
      intro same
      have lengths := congrArg List.length same
      simp only [length_cons, length_append] at lengths
      omega
    have high : nHeight (entry :: (front ++ fork)) > 0 := by
      have positive := length_pos_of_ne_nil more
      simp only [nHeight, length_cons]
      omega
    obtain ⟨pprev, below, split⟩ := exists_cons_of_ne_nil more
    obtain ⟨result, success, disconnected⟩ := disconnectBlock_writes step.data
    rw [← split] at disconnected
    obtain ⟨along, hash, rolled⟩ := rolls { PlainView.write view
      ((undoOrder block vtxundo).flatMap (backwardWrites crypto)) with hashBlock := pprev.hash }
    rw [cons_append, rollback, if_neg differs, if_pos high, step.readBlock, step.readUndo]
    refine ⟨?_, hash, ?_⟩
    · refine allowed_then (disconnectBlock_allowed (checked_values step.checked)) ?_
      intro value final ran
      rw [disconnected] at ran
      cases ran
      rw [if_neg success]
      exact along
    · dsimp only
      rw [run_bind_of_ok disconnected, if_neg success, rolled, write_append]
      rfl

lemma rollforward_writes (present : mid ≠ []) (utxoMid : UTXOAt crypto params tree genesis mid coins)
    (utxoNew : UTXOAt crypto params tree genesis (front ++ mid) coinsNew) :
    ∃ writes, replay coins writes = coinsNew ∧ ∀ view : PlainView, Along onPlain Allowed
        (rollforward crypto tree (front ++ mid) front.length mid.length) view ∧ run onPlain
          (rollforward crypto tree (front ++ mid) front.length mid.length) view =
        .ok (.ok (), PlainView.write view writes) := by
  -- the lowest block of the branch comes first
  induction front using List.reverseRecOn generalizing mid coins with
  | nil => exact ⟨[], utxoMid.unique utxoNew, fun view => ⟨trivial, rfl⟩⟩
  | append_singleton front entry ih =>
    rw [append_assoc, singleton_append] at utxoNew ⊢
    obtain ⟨coinsNext, utxoNext⟩ := utxoNew.ancestor (cons_ne_nil _ _)
    obtain ⟨before, block, vtxundo, previous, step⟩ := utxoNext.step present
    obtain ⟨writes, reached, rolls⟩ := ih (cons_ne_nil _ _) utxoNext utxoNew
    refine ⟨block.vtx.flatMap (forwardWrites crypto (nHeight (entry :: mid))) ++ writes, ?_, fun view => ?_⟩
    · rw [replay_append, utxoMid.unique previous, step.forward]
      exact reached
    have found : getAncestor (front ++ entry :: mid) mid.length = some (entry :: mid) := by
      have found := getAncestor_append front (cons_ne_nil entry mid)
      rw [← found]
      simp [nHeight]
    have rolled := rollTransactions_writes crypto (nHeight (entry :: mid)) (checked_values step.checked) view
    obtain ⟨along, ran⟩ := rolls (PlainView.write view
      (block.vtx.flatMap (forwardWrites crypto (nHeight (entry :: mid)))))
    rw [length_cons, Nat.cast_add, Nat.cast_one] at along ran
    rw [length_append, length_singleton, rollforward, found]
    dsimp only
    rw [step.readBlock]
    constructor
    · refine allowed_then rollforwardBlock_allowed fun value final ran => ?_
      rw [rollforwardBlock, rolled] at ran
      cases ran
      exact along
    · dsimp only
      rw [rollforwardBlock, run_bind_of_ok rolled, ran, write_append]

end Loops

/-! Recovery. -/

section Recovery
variable {crypto : Crypto} {params : Consensus.Params} {tree : BlockTree} {genesis : IndexEntry}

structure Indexed (tree : BlockTree) (hash : Uint256) (pindex : Ancestry) : Prop where
  found : tree.mapBlockIndex hash = some pindex
  hashed : pindex.head?.map IndexEntry.hash = some hash
  proper : hash.isNull = false

/-- The tip a database was last flushed at; null for one that never was. -/
inductive FlushedTip (crypto : Crypto) (params : Consensus.Params) (tree : BlockTree)
    (genesis : IndexEntry) : Uint256 → CoinsAt → Prop
  | never : FlushedTip crypto params tree genesis Uint256.null fun _ => none
  | block {hash : Uint256} {pindex : Ancestry} {coins : CoinsAt} (indexed : Indexed tree hash pindex)
      (utxo : UTXOAt crypto params tree genesis pindex coins) :
      FlushedTip crypto params tree genesis hash coins

/-- The databases that an interrupted flush leaves, and those that replaying one of
them, interrupted in turn, leaves. -/
inductive Interrupted (crypto : Crypto) (tree : BlockTree) (db : CCoinsViewDB)
    (cache : CCoinsViewCache) : CCoinsViewDB → Prop
  | flush (order : Iteration) (full : List DBWrite → Bool) (n : Nat) (some_written : 0 < n) :
      Interrupted crypto tree db cache
        (((db.batches full (order.visit cache.cacheCoins) cache.hashBlock).take n).foldl writeBatch db)
  | replay {crashed : CCoinsViewDB} {batches : List (List DBWrite)} (order : Iteration)
      (full : List DBWrite → Bool) (n : Nat) (before : Interrupted crypto tree db cache crashed)
      (ran : replayBlocks crypto tree order full crashed = .ok batches) :
      Interrupted crypto tree db cache ((batches.take n).foldl writeBatch crashed)

variable (old : FlushedTip crypto params tree genesis hashOld coinsOld)
  (utxoNew : UTXOAt crypto params tree genesis pindexNew coinsNew)
include old utxoNew

/-- ReplayBlocks finds the fork between the old and the new tip and goes from one to the other. -/
lemma replayCache_writes (head : pindexNew.head? = some tip) :
    ∃ pindexOld fork writes, replayFork tree hashOld pindexNew = .ok (pindexOld, fork) ∧
      replay coinsOld writes = coinsNew ∧ ∀ view : PlainView, Along onPlain Allowed
        (replayCache crypto tree pindexOld pindexNew fork) view ∧
      run onPlain (replayCache crypto tree pindexOld pindexNew fork) view =
        .ok (.ok (), { PlainView.write view writes with hashBlock := tip.hash }) := by
  -- the block to go up from: the fork, or the genesis block on the first flush
  have start : ∃ pindexOld fork back mid front, replayFork tree hashOld pindexNew = .ok (pindexOld, fork) ∧
      mid ≠ [] ∧ pindexNew = front ++ mid ∧ UTXOAt crypto params tree genesis mid (replay coinsOld back) ∧
      (mid.length : Int) = (if fork.isEmpty then 0 else fork.nHeight) + 1 ∧
      ∀ view : PlainView, Along onPlain Allowed (rollback crypto tree fork pindexOld) view ∧
        ∃ hash, run onPlain (rollback crypto tree fork pindexOld) view =
          .ok (.ok (), { PlainView.write view back with hashBlock := hash }) := by
    cases old with
    | never =>
      refine ⟨[], [], [], [genesis], pindexNew.dropLast, by rfl, cons_ne_nil _ _, ?_, .genesis, by simp, ?_⟩
      · exact (dropLast_append_getLast? genesis utxoNew.root).symm
      · exact fun view => ⟨trivial, view.hashBlock, rfl⟩
    | @block hash pindex coins indexed utxo =>
      obtain ⟨frontOld, frontNew, fork, present, rfl, rfl, common⟩ := lastCommonAncestor_spec utxo.root utxoNew.root
      obtain ⟨back, atFork, rolls⟩ := rollback_writes present utxo
      have full : fork.isEmpty = false := by simpa using present
      refine ⟨_, fork, back, fork, frontNew, ?_, present, rfl, atFork, by simp [full, nHeight], rolls⟩
      rw [replayFork, indexed.proper, if_neg Bool.false_ne_true, indexed.found]
      simp [foundOr, ok_bind, common, present]
  obtain ⟨pindexOld, fork, back, mid, front, forked, present, rfl, utxoMid, height, rolls⟩ := start
  obtain ⟨forth, reached, climbs⟩ := rollforward_writes present utxoMid utxoNew
  refine ⟨pindexOld, fork, back ++ forth, forked, by rw [replay_append, reached], fun view => ?_⟩
  obtain ⟨alongBack, hash, ranBack⟩ := rolls view
  obtain ⟨alongForth, ranForth⟩ := climbs { PlainView.write view back with hashBlock := hash }
  have count : (nHeight (front ++ mid) - if fork.isEmpty then 0 else fork.nHeight).toNat = front.length := by
    simp only [nHeight, length_append] at height ⊢
    omega
  rw [replayCache]
  constructor
  · refine allowed_then alongBack fun value final ran => ?_
    rw [ranBack] at ran
    cases ran
    dsimp only
    rw [count, ← height]
    refine allowed_then alongForth fun value final ran => ?_
    rw [ranForth] at ran
    cases ran
    rw [head]
    exact ⟨trivial, fun _ _ _ => trivial⟩
  · rw [run_bind_of_ok ranBack]
    dsimp only
    rw [count, ← height, run_bind_of_ok ranForth]
    rw [head, write_append]
    rfl

/-- Going from the old tip to the new one on a cache, over a database that has either
value for each coin. -/
lemma replayCache_shows (head : pindexNew.head? = some tip)
    (mixed : ∀ outpoint, db.coins outpoint = coinsOld outpoint ∨ db.coins outpoint = coinsNew outpoint) :
    ∃ pindexOld fork cache, replayFork tree hashOld pindexNew = .ok (pindexOld, fork) ∧
      run (viewHandler raiseCoins) (replayCache crypto tree pindexOld pindexNew fork)
        (⟨db, [{}]⟩ : ViewStack CCoinsViewDB) = .ok (.ok (), ⟨db, [cache]⟩) ∧
      Coherent db [cache] ∧ content db [cache] = coinsNew ∧ cache.hashBlock = tip.hash := by
  obtain ⟨pindexOld, fork, writes, forked, leads, effect⟩ := replayCache_writes old utxoNew head
  have shows : Shows (⟨db, [{}]⟩ : ViewStack CCoinsViewDB) ⟨db.coins, Uint256.null, db.getBestBlock⟩ := by
    refine ⟨⟨fun _ => WriteBack.sound_none, ?_, trivial⟩, rfl, {}, [], rfl, rfl, rfl⟩
    rintro outpoint entry ⟨⟩
  obtain ⟨along, ranPlain⟩ := effect ⟨db.coins, Uint256.null, db.getBestBlock⟩
  obtain ⟨⟨base, caches⟩, ran, shown⟩ := (program_shows shows along).ok_left ranPlain
  obtain ⟨baseKept, lengths⟩ := run_shape ran
  obtain ⟨coherent, coins, cache, below, same, hashBlock, _⟩ := shown
  subst baseKept same
  have alone : below = [] := by simpa using lengths
  subst alone
  refine ⟨pindexOld, fork, cache, forked, ran, coherent, ?_, hashBlock⟩
  rw [coins]
  exact replay_converges leads mixed

/-- On a database in transition ReplayBlocks fills a cache that shows the new tip. -/
lemma replayBlocks_transition {order : Iteration} {full : List DBWrite → Bool}
    (indexed : Indexed tree hashNew pindexNew) (between : InTransition coinsOld coinsNew hashOld hashNew db) :
    ∃ cache, Coherent db [cache] ∧ content db [cache] = coinsNew ∧
      replayBlocks crypto tree order full db = .ok (db.batches full (order.visit cache.cacheCoins) hashNew) := by
  obtain ⟨tip, head, hash⟩ : ∃ tip, pindexNew.head? = some tip ∧ tip.hash = hashNew :=
    Option.map_eq_some_iff.mp indexed.hashed
  obtain ⟨pindexOld, fork, cache, forked, ran, coherent, shown, hashBlock⟩ :=
    replayCache_shows old utxoNew head between.coins
  refine ⟨cache, coherent, shown, ?_⟩
  have named : cache.hashBlock = hashNew := hashBlock.trans hash
  have passes : db.batchWriteAsserts hashNew = true := by
    simp [batchWriteAsserts, indexed.proper, between.headBlocks]
  rw [replayBlocks, between.headBlocks]
  simp [indexed.found, foundOr, ok_bind, forked, ran, Except.mapError, flushBatches, named, passes]

lemma interrupted_cases {cache : CCoinsViewCache}
    (indexed : Indexed tree cache.hashBlock pindexNew) (consistent : AtTip coinsOld hashOld db)
    (coherent : Coherent db [cache]) (shown : content db [cache] = coinsNew)
    (interrupted : Interrupted crypto tree db cache crashed) : AtTip coinsNew cache.hashBlock crashed ∨
      InTransition coinsOld coinsNew hashOld cache.hashBlock crashed := by
  induction interrupted with
  | flush order full n some_written =>
    rcases interrupted_flush full order (.inl consistent) coherent shown some_written with
      finished | ⟨_, between⟩
    · exact .inl finished
    · exact .inr between
  | @replay crashed batches order full n before ran ih =>
    rcases ih with finished | between
    · rw [replayBlocks, finished.headBlocks] at ran
      cases ran
      rw [take_nil]
      exact .inl finished
    · obtain ⟨replayed, coherent, shown, ran'⟩ := replayBlocks_transition old utxoNew indexed between
      rw [ran'] at ran
      cases ran
      by_cases none : n = 0
      · subst none
        exact .inr between
      · rcases interrupted_flush full order (.inr between) coherent shown
          (Nat.pos_of_ne_zero none) with finished | ⟨_, between⟩
        · exact .inl finished
        · exact .inr between

omit old utxoNew

/-- Once the first batch of a flush is written, however often the flush and the
replays after it are interrupted, ReplayBlocks succeeds and leaves the coins and the
best block of the new tip. -/
theorem replayBlocks_recovers {hashOld : Uint256} {coinsOld coinsNew : CoinsAt}
    {pindexNew : Ancestry} {db crashed : CCoinsViewDB} {cache : CCoinsViewCache}
    (old : FlushedTip crypto params tree genesis hashOld coinsOld)
    (utxoNew : UTXOAt crypto params tree genesis pindexNew coinsNew)
    (indexed : Indexed tree cache.hashBlock pindexNew) (consistent : AtTip coinsOld hashOld db)
    (coherent : Coherent db [cache]) (shown : content db [cache] = coinsNew)
    (interrupted : Interrupted crypto tree db cache crashed) (order : Iteration)
    (full : List DBWrite → Bool) : ∃ batches, replayBlocks crypto tree order full crashed = .ok batches ∧
      AtTip coinsNew cache.hashBlock (batches.foldl writeBatch crashed) := by
  rcases interrupted_cases old utxoNew indexed consistent coherent shown interrupted with
    finished | between
  · refine ⟨[], ?_, finished⟩
    rw [replayBlocks, finished.headBlocks]
  · obtain ⟨replayed, coherent, shown, ran⟩ := replayBlocks_transition old utxoNew indexed between
    refine ⟨_, ran, ?_⟩
    -- a flush that no crash interrupts has written all of its batches
    have some_written : 0 < (crashed.batches full (order.visit replayed.cacheCoins) cache.hashBlock).length := by
      simp [batches]
    have flushed := interrupted_flush full order (.inr between) coherent shown some_written
    simpa only [take_length, lt_irrefl, false_and, or_false] using flushed

end Recovery

/-! Two blocks on the genesis block, each with only a coinbase. -/

namespace TwoTips

def genesis : IndexEntry := ⟨Uint256.filled 3, SpendingBlock.block.toCBlockHeader⟩

variable (nLockTime : UInt32)

def coinbase : CTransaction := SpendingBlock.transaction ⟨Uint256.null, 0xffffffff⟩ nLockTime

def block : CBlock :=
  { SpendingBlock.block with
    hashMerkleRoot := getHash Crypto.suffixes (coinbase nLockTime), vtx := [coinbase nLockTime] }

def hash : Uint256 := getBlockHash Crypto.suffixes (block nLockTime).toCBlockHeader

def chain : Ancestry := [⟨hash nLockTime, (block nLockTime).toCBlockHeader⟩, genesis]

def tree : BlockTree where
  mapBlockIndex other := if other = hash 1 then some (chain 1) else if other = hash 2 then some (chain 2) else none
  readBlockFromDisk pindex :=
    if pindex = chain 1 then some (block 1) else if pindex = chain 2 then some (block 2) else none
  undoReadFromDisk _ := some []

def stack : ViewStack CCoinsViewDB := ⟨{ empty with bestBlock := some genesis.hash }, [{}]⟩

def object : BlockObject Crypto.suffixes easy := ⟨block nLockTime, false, nofun⟩

abbrev connect : ViewM (Option CBlockUndo) := connectBlock .inline (object nLockTime) (chain nLockTime) false

def accepted : Bool :=
  match run (viewHandler raiseCoins) (connect nLockTime) stack with
  | .ok (some [], _) => true
  | _ => false

lemma connects {nLockTime : UInt32} (ran : accepted nLockTime = true)
    (vacant : alongTest (viewHandler raiseCoins) SpendingBlock.vacant (connect nLockTime) stack = true)
    (readBlock : tree.readBlockFromDisk (chain nLockTime) = some (block nLockTime)) :
    ∃ coins, Connects Crypto.suffixes easy tree (chain nLockTime) (fun _ => none) coins := by
  unfold accepted at ran
  split at ran
  · rename_i connected connects
    refine ⟨content connected.base connected.caches, ?_⟩
    have coherent : Coherent stack.base stack.caches := by
      refine ⟨fun _ => WriteBack.sound_none, ?_, trivial⟩
      rintro outpoint entry ⟨⟩
    exact .accepted coherent (cons_ne_nil _ _) rfl (by simp [nHeight, chain]) connects
      (SpendingBlock.noOverwrite_of_test _ _ vacant) readBlock rfl
  · cases ran

lemma connects_one : ∃ coins, Connects Crypto.suffixes easy tree (chain 1) (fun _ => none) coins :=
  connects (by decide +kernel) (by decide +kernel) (by decide +kernel)

lemma connects_two : ∃ coins, Connects Crypto.suffixes easy tree (chain 2) (fun _ => none) coins :=
  connects (by decide +kernel) (by decide +kernel) (by decide +kernel)

lemma indexed_one : Indexed tree (hash 1) (chain 1) := ⟨by decide +kernel, rfl, by decide +kernel⟩

lemma indexed_two : Indexed tree (hash 2) (chain 2) := ⟨by decide +kernel, rfl, by decide +kernel⟩

/-- A database flushed at the first block, and a cache that went from it to the second. -/
lemma reorganised : ∃ coinsOld coinsNew db cache,
    UTXOAt Crypto.suffixes easy tree genesis (chain 1) coinsOld ∧
    UTXOAt Crypto.suffixes easy tree genesis (chain 2) coinsNew ∧
    AtTip coinsOld (hash 1) db ∧ Coherent db [cache] ∧ content db [cache] = coinsNew ∧
    cache.hashBlock = hash 2 := by
  obtain ⟨coinsOld, first⟩ := connects_one
  obtain ⟨coinsNew, second⟩ := connects_two
  have old : UTXOAt Crypto.suffixes easy tree genesis (chain 1) coinsOld := .next .genesis first
  have new : UTXOAt Crypto.suffixes easy tree genesis (chain 2) coinsNew := .next .genesis second
  let db : CCoinsViewDB :=
    ⟨coinsOld, some (hash 1), none, fun outpoint coin held => (old.restorable outpoint coin held).1⟩
  have mixed : ∀ outpoint, db.coins outpoint = coinsOld outpoint ∨
      db.coins outpoint = coinsNew outpoint := fun _ => .inl rfl
  obtain ⟨_, _, cache, _, _, coherent, shown, hashBlock⟩ := replayCache_shows (.block indexed_one old) new rfl mixed
  exact ⟨coinsOld, coinsNew, db, cache, old, new, ⟨rfl, rfl, rfl⟩, coherent, shown, hashBlock⟩

end TwoTips

theorem replayBlocks_recovers_reorganisation : ∃ coinsNew, ∃ db : CCoinsViewDB, ∃ cache,
    UTXOAt Crypto.suffixes easy TwoTips.tree TwoTips.genesis (TwoTips.chain 2) coinsNew ∧
    db.getBestBlock = TwoTips.hash 1 ∧ content db [cache] = coinsNew ∧
    ∀ (order : Iteration) (full : List DBWrite → Bool), ∃ batches,
      let crashed := ((db.batches full (order.visit cache.cacheCoins) (TwoTips.hash 2)).take 1).foldl writeBatch db
      replayBlocks Crypto.suffixes TwoTips.tree order full crashed = .ok batches ∧
        AtTip coinsNew (TwoTips.hash 2) (batches.foldl writeBatch crashed) := by
  obtain ⟨coinsOld, coinsNew, db, cache, old, new, consistent, coherent, shown, hashBlock⟩ := TwoTips.reorganised
  refine ⟨coinsNew, db, cache, new, consistent.bestBlock, shown, fun order full => ?_⟩
  have indexed := TwoTips.indexed_two
  rw [← hashBlock] at indexed ⊢
  exact replayBlocks_recovers (.block TwoTips.indexed_one old) new indexed consistent coherent shown
    (.flush order full 1 Nat.one_pos) order full

/-- A flush that stopped before its first batch leaves the old tip, and ReplayBlocks
keeps it. -/
theorem replayBlocks_keeps_old_tip : ∃ coinsOld coinsNew db cache,
    FlushedTip Crypto.suffixes easy TwoTips.tree TwoTips.genesis (TwoTips.hash 1) coinsOld ∧
    UTXOAt Crypto.suffixes easy TwoTips.tree TwoTips.genesis (TwoTips.chain 2) coinsNew ∧
    Indexed TwoTips.tree cache.hashBlock (TwoTips.chain 2) ∧ AtTip coinsOld (TwoTips.hash 1) db ∧
    Coherent db [cache] ∧ content db [cache] = coinsNew ∧
    ∀ (order : Iteration) (full : List DBWrite → Bool),
      let crashed := ((db.batches full (order.visit cache.cacheCoins) cache.hashBlock).take 0).foldl writeBatch db
      ¬ ∃ batches, replayBlocks Crypto.suffixes TwoTips.tree order full crashed = .ok batches ∧
        AtTip coinsNew cache.hashBlock (batches.foldl writeBatch crashed) := by
  obtain ⟨coinsOld, coinsNew, db, cache, old, new, consistent, coherent, shown, hashBlock⟩ := TwoTips.reorganised
  refine ⟨coinsOld, coinsNew, db, cache, .block TwoTips.indexed_one old, new,
    by rw [hashBlock]; exact TwoTips.indexed_two, consistent, coherent, shown, ?_⟩
  rintro order full crashed ⟨batches, ran, recovered⟩
  rw [replayBlocks, show crashed.getHeadBlocks = [] from consistent.headBlocks] at ran
  cases ran
  have moved : TwoTips.hash 1 = TwoTips.hash 2 := by
    rw [← consistent.bestBlock, ← hashBlock]
    exact recovered.bestBlock
  exact absurd moved (by decide +kernel)

/-! ConnectTip and DisconnectTip. -/

section Tips
variable (crypto : Crypto) (params : Consensus.Params) (tree : BlockTree) (genesis : IndexEntry)

/-- The coins that are shown after tips were connected and disconnected in any order. -/
inductive TipRun : Ancestry → CoinsAt → Prop
  | genesis : TipRun [genesis] fun _ => none
  | connectTip {entry : IndexEntry} {pindex : Ancestry} {coins coins' : CoinsAt} (before : TipRun pindex coins)
      (connects : Connects crypto params tree (entry :: pindex) coins coins') : TipRun (entry :: pindex) coins'
  | disconnectTip {entry pprev : IndexEntry} {below : Ancestry} {block : CBlock}
      {stack disconnected : ViewStack CCoinsViewDB} (coherent : Coherent stack.base stack.caches)
      (layered : stack.caches ≠ []) (before : TipRun (entry :: pprev :: below) (content stack.base stack.caches))
      (readBlock : tree.readBlockFromDisk (entry :: pprev :: below) = some block)
      (ran : run (viewHandler raiseCoins) (disconnectBlock crypto block (entry :: pprev :: below)
        (tree.undoReadFromDisk (entry :: pprev :: below))) stack = .ok (.DISCONNECT_OK, disconnected)) :
      TipRun (pprev :: below) (content disconnected.base disconnected.caches)

variable {crypto params tree genesis} {pindex : Ancestry}

/-- Whatever reorganisations led to a tip, its coins are those of connecting its chain in order. -/
theorem TipRun.coins_of_chain (tips : TipRun crypto params tree genesis pindex coins) :
    UTXOAt crypto params tree genesis pindex coins := by
  induction tips with
  | genesis => exact .genesis
  | connectTip _ connects ih => exact .next ih connects
  | disconnectTip coherent layered _ readBlock ran ih =>
    obtain ⟨_, block, vtxundo, previous, step⟩ := ih.step (cons_ne_nil _ _)
    obtain ⟨cache, others, caches⟩ := exists_cons_of_ne_nil layered
    have shows : Shows _ ⟨_, _, _⟩ := ⟨coherent, rfl, cache, others, caches, rfl, rfl⟩
    cases readBlock.symm.trans step.readBlock
    rw [step.readUndo] at ran
    obtain ⟨_, plain, shown⟩ :=
      (program_shows shows (disconnectBlock_allowed (checked_values step.checked))).ok_right ran
    obtain ⟨_, _, written⟩ := disconnectBlock_writes step.data
    cases plain.symm.trans written
    rw [shown.coins]
    obtain rfl := step.backward
    exact previous

end Tips

/-- The first block is connected and disconnected, and then the second one connected. -/
theorem TwoTips.coins_of_second : ∃ (first second : CoinsAt) (stack disconnected : ViewStack CCoinsViewDB),
    Connects Crypto.suffixes easy tree (chain 1) (fun _ => none) first ∧
    content stack.base stack.caches = first ∧
    run (viewHandler raiseCoins) (disconnectBlock Crypto.suffixes (block 1) (chain 1) (some [])) stack =
      .ok (.DISCONNECT_OK, disconnected) ∧
    Connects Crypto.suffixes easy tree (chain 2) (content disconnected.base disconnected.caches) second ∧
    UTXOAt Crypto.suffixes easy tree genesis (chain 2) second := by
  obtain ⟨first, up⟩ := connects_one
  obtain ⟨second, other⟩ := connects_two
  have tips : TipRun Crypto.suffixes easy tree genesis (chain 1) first := .connectTip .genesis up
  obtain ⟨stack, disconnected, stored, coherent, layered, rfl, readBlock, ran⟩ :=
    up.disconnects fun _ _ held => absurd held (by simp)
  have back := TipRun.disconnectTip coherent layered tips readBlock ran
  have none : content disconnected.base disconnected.caches = fun _ => none := by
    exact back.coins_of_chain.unique .genesis
  obtain rfl : stored = block 1 := Option.some.inj (readBlock.symm.trans (by decide +kernel))
  rw [← none] at other
  exact ⟨_, second, stack, disconnected, up, rfl, ran, other, (back.connectTip other).coins_of_chain⟩

end Dragonchain
