import Dragonchain.Connect

/-!
DisconnectBlock takes back what ConnectBlock did. Both loops are followed on the
plain map of unspent coins, where a transaction first removes its inputs and then
adds its outputs. Undoing it removes the outputs and puts the inputs back, and the
block is undone from its last transaction to its first.
-/

namespace Dragonchain

open Script Serialization Coins Command List Function

variable {final view : PlainView} {possible_overwrite fClean clean : Bool} {i n : Nat}
  {vout : List CTxOut} {crypto : Crypto} {tx : CTransaction} {nHeight : Int} {State : Type}

/-- What AddCoin stores and ApplyTxInUndo can put back: the coin is not spent, its output
is not one that AddCoin refuses, and its height is known. -/
def Storable (coin : Coin) : Prop :=
  coin.isSpent = false ∧ isUnspendable coin.out.scriptPubKey = false ∧ coin.nHeight ≠ 0

def Restorable (coins : PlainMap) : Prop := ∀ outpoint coin, coins outpoint = some coin → Storable coin

def UndoFor (tx : CTransaction) (txundo : CTxUndo) : Prop :=
  txundo.length = tx.vin.length ∧ ∀ coin ∈ txundo, Storable coin

/-- Undo data of a block, which has none for the coinbase. -/
structure UndoData (block : CBlock) (vtxundo : CBlockUndo) : Prop where
  coinbase : block.vtx ≠ []
  others : List.Forall₂ UndoFor block.vtx.tail vtxundo

variable {block : CBlock} {created : PlainMap} {txundo : CTxUndo}

lemma UndoData.length {vtxundo : CBlockUndo} (data : UndoData block vtxundo) :
    vtxundo.length + 1 = block.vtx.length := by
  have sizes := data.others.length_eq
  have present := length_pos_iff.mpr data.coinbase
  rw [length_tail] at sizes
  omega

lemma Restorable.remove {coins : PlainMap} (restorable : Restorable coins) (outpoint : COutPoint) :
    Restorable (Function.update coins outpoint none) := by
  intro other coin held
  by_cases same : other = outpoint
  · subst same
    rw [update_self] at held
    cases held
  · rw [update_of_ne same] at held
    exact restorable other coin held

variable {outpoint : COutPoint} {coin : Coin}

lemma run_addCoin_plain (live : coin.isSpent = false) (spendable : isUnspendable coin.out.scriptPubKey = false) :
    run onPlain (addCoinCall outpoint coin possible_overwrite) view =
      .ok ((), { view with coins := Function.update view.coins outpoint (some coin) }) := by
  rw [addCoinCall, run_request]
  simp [plainHandler, live, spendable]

lemma run_addCoin_refused (live : coin.isSpent = false) (unspendable : isUnspendable coin.out.scriptPubKey = true) :
    run onPlain (addCoinCall outpoint coin possible_overwrite) view = .ok ((), view) := by
  rw [addCoinCall, run_request]
  simp [plainHandler, live, unspendable]

lemma addCoin_plain_cases {value : Unit} (ran : run onPlain (addCoinCall outpoint coin possible_overwrite) view =
      .ok (value, final)) : coin.isSpent = false ∧
      ((isUnspendable coin.out.scriptPubKey = true ∧ final = view) ∨
        (isUnspendable coin.out.scriptPubKey = false ∧
          final = { view with coins := Function.update view.coins outpoint (some coin) })) := by
  rw [addCoinCall, run_request] at ran
  simp only [plainHandler] at ran
  cases spent : coin.isSpent with
  | true =>
    rw [if_pos spent] at ran
    cases ran
  | false =>
    rw [spent, if_neg Bool.false_ne_true] at ran
    refine ⟨rfl, ?_⟩
    cases unspendable : isUnspendable coin.out.scriptPubKey with
    | true =>
      rw [if_pos unspendable] at ran
      cases ran
      exact .inl ⟨rfl, rfl⟩
    | false =>
      rw [unspendable, if_neg Bool.false_ne_true] at ran
      cases ran
      exact .inr ⟨rfl, rfl⟩

/-! Inputs. -/

variable {handler : Handler ViewCall ViewAnswer Validation State}

lemma restoreInputs_append {front back : List (CTxIn × Coin)} {state middle : State}
    (ran : run handler (restoreInputs fClean front) state = .ok (some clean, middle)) :
    run handler (restoreInputs fClean (front ++ back)) state = run handler (restoreInputs clean back) middle := by
  induction front generalizing fClean state with
  | nil =>
    cases ran
    rfl
  | cons first rest ih =>
    obtain ⟨res, restored, ranFirst, ran⟩ := run_bind_ok ran
    rw [cons_append, restoreInputs, run_bind_of_ok ranFirst]
    split at ran
    · cases ran
    · rename_i success
      rw [if_neg success]
      exact ih ran

lemma restoreInput_vacant {txin : CTxIn} (vacant : view.coins txin.prevout = none) (live : coin.isSpent = false)
    (spendable : isUnspendable coin.out.scriptPubKey = false) (known : coin.nHeight ≠ 0) :
    run onPlain (restoreInputs true [(txin, coin)]) view =
      .ok (some true, { view with coins := Function.update view.coins txin.prevout (some coin) }) := by
  have looked : run onPlain (haveCoinCall txin.prevout) view = .ok (false, view) := by
    rw [haveCoinCall, run_request]
    simp [plainHandler, vacant]
  have applied : run onPlain (applyTxInUndo coin txin.prevout) view = .ok (.DISCONNECT_OK,
        { view with coins := Function.update view.coins txin.prevout (some coin) }) := by
    rw [applyTxInUndo, run_bind_of_ok looked, if_neg known, restoreCoin,
      run_bind_of_ok (run_addCoin_plain live spendable)]
    rfl
  rw [restoreInputs, run_bind_of_ok applied]
  rfl

lemma restoreInputs_undoes {vin : List CTxIn}
    (restorable : Restorable view.coins) (ran : run onPlain (spendInputs vin) view = .ok (txundo, final)) :
    txundo.length = vin.length ∧ (∀ coin ∈ txundo, Storable coin) ∧ Restorable final.coins ∧
      ∀ after : PlainView, run onPlain (restoreInputs true (vin.zip txundo).reverse)
            { after with coins := final.coins } =
          .ok (some true, { after with coins := view.coins }) := by
  induction vin generalizing view txundo with
  | nil =>
    cases ran
    exact ⟨rfl, by simp, restorable, fun _ => rfl⟩
  | cons txin rest ih =>
    obtain ⟨moveout, spent, ranSpend, ran⟩ := run_bind_ok ran
    obtain ⟨coin, moved, ran⟩ := orFault_then ran
    obtain ⟨undo, removed, ranRest, ran⟩ := run_bind_ok ran
    cases ran
    cases ranSpend
    obtain ⟨live, spendable, known⟩ := restorable _ _ moved
    obtain ⟨sizes, storables, kept, restored⟩ := ih (restorable.remove txin.prevout) ranRest
    refine ⟨by simp [sizes], ?_, kept, fun after => ?_⟩
    · rintro other (_ | ⟨_, later⟩)
      · exact ⟨live, spendable, known⟩
      · exact storables other later
    rw [zip_cons_cons, reverse_cons, restoreInputs_append (restored after),
      restoreInput_vacant (update_self ..) live spendable known]
    -- the view after the spend, with the coin back in its place
    simp [← moved]

/-! Outputs. -/

def createdAt (txid : Uint256) (coinOf : CTxOut → Coin) : Nat → List CTxOut → PlainMap
  | _, [] => fun _ => none
  | i, txout :: rest =>
    if isUnspendable txout.scriptPubKey then createdAt txid coinOf (i + 1) rest
    else Function.update (createdAt txid coinOf (i + 1) rest) ⟨txid, UInt32.ofNat i⟩ (some (coinOf txout))

section Outputs
variable {txid : Uint256} {coinOf : CTxOut → Coin}

lemma createdAt_earlier (few : i + vout.length ≤ 2 ^ 32)
    (earlier : n < i) : createdAt txid coinOf i vout ⟨txid, UInt32.ofNat n⟩ = none := by
  induction vout generalizing i with
  | nil => rfl
  | cons txout rest ih =>
    rw [length_cons] at few
    have later := ih (i := i + 1) (by omega) (by omega)
    rw [createdAt]
    split
    · exact later
    · rw [update_of_ne, later]
      intro same
      have numbers := congrArg (fun outpoint : COutPoint => outpoint.n.toNat) same
      simp only [UInt32.toNat_ofNat'] at numbers
      omega

lemma createdAt_some (created : createdAt txid coinOf i vout outpoint = some coin) :
    ∃ txout ∈ vout, isUnspendable txout.scriptPubKey = false ∧ coin = coinOf txout := by
  induction vout generalizing i with
  | nil => cases created
  | cons txout rest ih =>
    rw [createdAt] at created
    split at created
    · obtain ⟨out, member, found⟩ := ih created
      exact ⟨out, mem_cons_of_mem _ member, found⟩
    · rename_i spendable
      by_cases same : outpoint = ⟨txid, UInt32.ofNat i⟩
      · subst same
        rw [update_self] at created
        cases created
        exact ⟨txout, mem_cons_self, by simpa using spendable, rfl⟩
      · rw [update_of_ne same] at created
        obtain ⟨out, member, found⟩ := ih created
        exact ⟨out, mem_cons_of_mem _ member, found⟩

end Outputs

def overlay (created coins : PlainMap) : PlainMap := fun outpoint => (created outpoint).or (coins outpoint)

def without (created coins : PlainMap) : PlainMap := fun outpoint =>
  if (created outpoint).isSome then none else coins outpoint

lemma without_overlay {coins : PlainMap} (vacant : ∀ outpoint, created outpoint ≠ none → coins outpoint = none) :
    without created (overlay created coins) = coins := by
  funext outpoint
  unfold without overlay
  cases held : created outpoint with
  | none => simp
  | some coin => simp [vacant outpoint (by simp [held])]

section Transactions
/-- AddCoin is called for spendable outputs only where the view has no coin. -/
def AddsToVacant (coins : PlainMap) : ViewCall → Prop
  | .addCoin outpoint coin _ => isUnspendable coin.out.scriptPubKey = false → coins outpoint = none
  | _ => True

variable (few : i + vout.length ≤ 2 ^ 32)
include few

lemma addOutputs_effect
    (ran : run onPlain (addOutputs crypto tx nHeight false i vout) view = .ok ((), final)) : final = { view with
      coins := overlay (createdAt (getHash crypto tx) (outputCoin tx nHeight) i vout) view.coins } := by
  induction vout generalizing i view with
  | nil =>
    cases ran
    rfl
  | cons txout rest ih =>
    rw [length_cons] at few
    obtain ⟨overwrite, _, ranFlag, ran⟩ := run_bind_ok ran
    cases ranFlag
    obtain ⟨_, added, ranAdd, ran⟩ := run_bind_ok ran
    rw [ih (by omega) ran]
    obtain ⟨_, ⟨unspendable, rfl⟩ | ⟨spendable, rfl⟩⟩ := addCoin_plain_cases ranAdd
    · rw [createdAt, if_pos (show isUnspendable txout.scriptPubKey = true from unspendable)]
    · have kept : ¬ isUnspendable txout.scriptPubKey = true := by simpa [outputCoin] using spendable
      rw [createdAt, if_neg kept]
      congr 1
      funext outpoint
      dsimp only [overlay]
      by_cases same : outpoint = ⟨getHash crypto tx, UInt32.ofNat i⟩
      · subst same
        rw [createdAt_earlier (by omega) (by omega), update_self, update_self]
        rfl
      · rw [update_of_ne same, update_of_ne same]

lemma addOutputs_vacant (along : Along onPlain (fun view call _ => AddsToVacant view.coins call)
      (addOutputs crypto tx nHeight false i vout) view)
    (ran : run onPlain (addOutputs crypto tx nHeight false i vout) view = .ok ((), final)) (outpoint : COutPoint)
    (created : createdAt (getHash crypto tx) (outputCoin tx nHeight) i vout outpoint ≠ none) :
    view.coins outpoint = none := by
  induction vout generalizing i view with
  | nil => exact absurd rfl created
  | cons txout rest ih =>
    rw [length_cons] at few
    obtain ⟨overwrite, _, ranFlag, ran⟩ := run_bind_ok ran
    have onward := along.of_bind.2 _ _ ranFlag
    cases ranFlag
    obtain ⟨_, added, ranAdd, ran⟩ := run_bind_ok ran
    obtain ⟨here, rest⟩ := onward.of_bind
    have later := ih (by omega) (rest _ _ ranAdd) ran
    have vacant := here.1
    rw [createdAt] at created
    obtain ⟨_, ⟨unspendable, rfl⟩ | ⟨spendable, rfl⟩⟩ := addCoin_plain_cases ranAdd
    · rw [if_pos (show isUnspendable txout.scriptPubKey = true from unspendable)] at created
      exact later created
    · have kept : ¬ isUnspendable txout.scriptPubKey = true := by simpa [outputCoin] using spendable
      rw [if_neg kept] at created
      by_cases same : outpoint = ⟨getHash crypto tx, UInt32.ofNat i⟩
      · subst same
        exact vacant spendable
      · rw [update_of_ne same] at created
        exact (update_of_ne same _ _).symm.trans (later created)

lemma removeOutputs_effect (low : 0 ≤ nHeight) (high : nHeight < 2 ^ 31)
    (present : ∀ outpoint, createdAt (getHash crypto tx) (outputCoin tx nHeight) i vout outpoint ≠ none →
      view.coins outpoint = createdAt (getHash crypto tx) (outputCoin tx nHeight) i vout outpoint) :
    run onPlain (removeOutputs crypto tx nHeight true i vout) view = .ok (true, { view with
        coins := without (createdAt (getHash crypto tx) (outputCoin tx nHeight) i vout) view.coins }) := by
  induction vout generalizing i view with
  | nil => rfl
  | cons txout rest ih =>
    rw [length_cons] at few
    rw [removeOutputs]
    rw [createdAt] at present ⊢
    by_cases unspendable : isUnspendable txout.scriptPubKey = true
    · rw [if_pos unspendable] at present ⊢
      simp only [unspendable, Bool.not_true, Bool.false_eq_true, if_false]
      exact ih (by omega) present
    · have spendable : isUnspendable txout.scriptPubKey = false := by simpa using unspendable
      rw [if_neg unspendable] at present ⊢
      have held := present ⟨getHash crypto tx, UInt32.ofNat i⟩ (by simp)
      rw [update_self] at held
      have spent : run onPlain (spendCoinCall ⟨getHash crypto tx, UInt32.ofNat i⟩) view =
            .ok (some (outputCoin tx nHeight txout), { view with
              coins := Function.update view.coins ⟨getHash crypto tx, UInt32.ofNat i⟩ none }) := by
        rw [spendCoinCall, run_request]
        simp [plainHandler, held]
      have height : ((BitVec.ofInt 31 nHeight).toNat : Int) = nHeight := by
        rw [BitVec.toNat_ofInt]
        omega
      simp only [spendable, Bool.not_false, if_true]
      rw [run_bind_of_ok spent]
      simp only [outputCoin, Option.getD_some, Option.isNone_some, bne_self_eq_false, height,
        Bool.or_self, Bool.not_false, Bool.and_self]
      rw [ih (by omega)]
      · congr 3
        funext outpoint
        unfold without
        by_cases same : outpoint = ⟨getHash crypto tx, UInt32.ofNat i⟩
        · subst same
          simp
        · simp [update_of_ne same]
      · intro outpoint created
        have differs : outpoint ≠ ⟨getHash crypto tx, UInt32.ofNat i⟩ := by
          rintro rfl
          exact created (createdAt_earlier (by omega) (by omega))
        have there := present outpoint
        rw [update_of_ne differs] at there
        exact (update_of_ne differs _ _).trans (there created)

omit few

lemma updateCoins_undone (checked : CheckedTransaction tx) (low : 0 < nHeight) (high : nHeight < 2 ^ 31)
    (restorable : Restorable view.coins)
    (along : Along onPlain (fun view call _ => AddsToVacant view.coins call)
      (updateCoins crypto tx nHeight) view) (ran : run onPlain (updateCoins crypto tx nHeight) view =
      .ok (txundo, final)) : Restorable final.coins ∧ ∃ spent : PlainView, (∀ after : PlainView,
        run onPlain (removeOutputs crypto tx nHeight true 0 tx.vout)
            { after with coins := final.coins } = .ok (true, { after with coins := spent.coins })) ∧
      (tx.isCoinBase = true → spent.coins = view.coins) ∧
      (tx.isCoinBase = false → UndoFor tx txundo ∧ ∀ after : PlainView,
        run onPlain (restoreInputs true (tx.vin.zip txundo).reverse) { after with coins := spent.coins } =
          .ok (some true, { after with coins := view.coins })) := by
  obtain ⟨undo, spent, ranSpend, ran⟩ := run_bind_ok ran
  obtain ⟨_, added, ranAdd, ran⟩ := run_bind_ok ran
  cases ran
  have vacantAlong := (along.of_bind.2 _ _ ranSpend).of_bind.1
  have few : 0 + tx.vout.length ≤ 2 ^ 32 := by
    have size := checked.size
    have fits := vout_length_le false tx
    simp only [WITNESS_SCALE_FACTOR, MAX_BLOCK_WEIGHT] at size
    omega
  have vacant := addOutputs_vacant few vacantAlong ranAdd
  have effect := addOutputs_effect few ranAdd
  have removed : ∀ after : PlainView, run onPlain (removeOutputs crypto tx nHeight true 0 tx.vout)
        { after with coins := final.coins } = .ok (true, { after with coins := spent.coins }) := by
    intro after
    rw [removeOutputs_effect few low.le high]
    · simp [effect, without_overlay vacant]
    · intro outpoint created
      rw [effect]
      cases held : createdAt (getHash crypto tx) (outputCoin tx nHeight) 0 tx.vout outpoint with
      | none => exact absurd held created
      | some coin => simp [overlay, held]
  -- a created coin has the height of the block and an output that was checked
  have fresh : ∀ coins : PlainMap, Restorable coins → Restorable
      (overlay (createdAt (getHash crypto tx) (outputCoin tx nHeight) 0 tx.vout) coins) := by
    intro coins kept outpoint coin held
    unfold overlay at held
    cases created : createdAt (getHash crypto tx) (outputCoin tx nHeight) 0 tx.vout outpoint with
    | none =>
      rw [created] at held
      exact kept outpoint coin held
    | some found =>
      rw [created] at held
      cases held
      obtain ⟨txout, member, spendable, rfl⟩ := createdAt_some created
      refine ⟨?_, spendable, ?_⟩
      · have value := (checked.values txout member).1
        simp only [Coin.isSpent, outputCoin, CTxOut.isNull, beq_eq_false_iff_ne]
        rintro negative
        rw [negative] at value
        exact absurd value (by decide)
      · intro zero
        have height : (BitVec.ofInt 31 nHeight).toNat = 0 := congrArg BitVec.toNat zero
        rw [BitVec.toNat_ofInt] at height
        omega
  cases coinbase : tx.isCoinBase with
  | true =>
    rw [if_pos coinbase] at ranSpend
    cases ranSpend
    refine ⟨by rw [effect]; exact fresh _ restorable, _, removed, fun _ => rfl, fun other => ?_⟩
    cases other
  | false =>
    rw [coinbase, if_neg Bool.false_ne_true] at ranSpend
    obtain ⟨sizes, storables, kept, restored⟩ := restoreInputs_undoes restorable ranSpend
    refine ⟨by rw [effect]; exact fresh _ kept, spent, removed, fun other => ?_,
      fun _ => ⟨⟨sizes, storables⟩, restored⟩⟩
    cases other

end Transactions

/-! The block. -/

section Blocks
variable {params : Consensus.Params} {scripts : ScriptContext}

lemma disconnectTransactions_append {front back : List (CTransaction × Option CTxUndo)} {state middle : State}
    (ran : run handler (disconnectTransactions crypto nHeight fClean front) state = .ok (some clean, middle)) :
    run handler (disconnectTransactions crypto nHeight fClean (front ++ back)) state =
      run handler (disconnectTransactions crypto nHeight clean back) middle := by
  induction front generalizing fClean state with
  | nil =>
    cases ran
    rfl
  | cons first rest ih =>
    obtain ⟨result, undone, ranFirst, ran⟩ := run_bind_ok ran
    rw [cons_append, disconnectTransactions, run_bind_of_ok ranFirst]
    cases result with
    | none => cases ran
    | some next => exact ih ran

variable {pindex : Ancestry} {flags : ScriptFlags}

lemma connectTransaction_undone {first : Bool}
    {state after : Connecting}
    (checked : CheckedTransaction tx) (low : 0 < pindex.nHeight) (high : pindex.nHeight < 2 ^ 31)
    (position : first = tx.isCoinBase) (restorable : Restorable view.coins)
    (along : Along onPlain (fun view call _ => AddsToVacant view.coins call)
      (connectTransaction scripts crypto params pindex flags first tx state) view) (ran : run onPlain
      (connectTransaction scripts crypto params pindex flags first tx state) view =
        .ok (after, final)) : Restorable final.coins ∧ ∃ txundo,
      after.vtxundo = (if first then state.vtxundo else state.vtxundo ++ [txundo]) ∧
      (first = false → UndoFor tx txundo) ∧ ∀ before : PlainView, run onPlain
          (disconnectTransactions crypto pindex.nHeight true
            [(tx, if first then none else some txundo)]) { before with coins := final.coins } =
        .ok (some true, { before with coins := view.coins }) := by
  obtain ⟨nFees, inputs, ranFees, ran⟩ := run_bind_ok ran
  have alongCost := along.of_bind.2 _ _ ranFees
  obtain ⟨cost, costed, ranCost, ran⟩ := run_bind_ok ran
  have alongSigOps := alongCost.of_bind.2 _ _ ranCost
  obtain ⟨_, limited, ranSigOps, ran⟩ := run_bind_ok ran
  have alongChecks := alongSigOps.of_bind.2 _ _ ranSigOps
  obtain ⟨vChecks, verified, ranChecks, ran⟩ := run_bind_ok ran
  have alongUpdate := (alongChecks.of_bind.2 _ _ ranChecks).of_bind.1
  obtain ⟨txundo, updated, ranUpdate, ran⟩ := run_bind_ok ran
  cases ran
  -- everything before the updates only reads
  rw [reads_plain checkInputs_reads ranChecks, reads_plain reads_ensure ranSigOps,
    reads_plain getTransactionSigOpCost_reads ranCost,
    reads_plain fees_read ranFees] at alongUpdate ranUpdate
  obtain ⟨kept, spent, removed, coinbase, ordinary⟩ :=
    updateCoins_undone checked low high restorable alongUpdate ranUpdate
  refine ⟨kept, txundo, rfl, ?_, fun before => ?_⟩
  · rintro rfl
    exact (ordinary position.symm).1
  have undone : run onPlain (disconnectTransaction crypto tx pindex.nHeight
      (if first then none else some txundo) true) { before with coins := final.coins } =
        .ok (some true, { before with coins := view.coins }) := by
    rw [disconnectTransaction, run_bind_of_ok (removed before)]
    cases first with
    | true =>
      rw [coinbase position.symm]
      rfl
    | false =>
      obtain ⟨data, restored⟩ := ordinary position.symm
      simp only [Bool.false_eq_true, if_false, data.1, ne_eq, not_true_eq_false]
      exact restored before
  rw [disconnectTransactions, run_bind_of_ok undone]
  rfl

lemma connectTransactions_undone {vtx : List CTransaction} {state after : Connecting}
    (checked : ∀ tx ∈ vtx, CheckedTransaction tx) (ordinary : ∀ tx ∈ vtx, tx.isCoinBase = false)
    (low : 0 < pindex.nHeight) (high : pindex.nHeight < 2 ^ 31) (restorable : Restorable view.coins)
    (along : Along onPlain (fun view call _ => AddsToVacant view.coins call)
      (connectTransactions scripts crypto params pindex flags false vtx state) view) (ran : run onPlain
      (connectTransactions scripts crypto params pindex flags false vtx state) view =
        .ok (after, final)) : Restorable final.coins ∧ ∃ undos, after.vtxundo = state.vtxundo ++ undos ∧
      List.Forall₂ UndoFor vtx undos ∧ ∀ before : PlainView, run onPlain
          (disconnectTransactions crypto pindex.nHeight true (vtx.zip (undos.map some)).reverse)
          { before with coins := final.coins } =
        .ok (some true, { before with coins := view.coins }) := by
  induction vtx generalizing state view with
  | nil =>
    cases ran
    exact ⟨restorable, [], (append_nil _).symm, .nil, fun _ => rfl⟩
  | cons tx rest ih =>
    obtain ⟨next, middle, ranTx, ran⟩ := run_bind_ok ran
    obtain ⟨alongTx, alongRest⟩ := along.of_bind
    obtain ⟨kept, txundo, recorded, data, undone⟩ :=
      connectTransaction_undone (checked tx mem_cons_self) low high
        (ordinary tx mem_cons_self).symm restorable alongTx ranTx
    obtain ⟨keptRest, undos, collected, dataRest, undoneRest⟩ :=
      ih (fun tx member => checked tx (mem_cons_of_mem _ member))
        (fun tx member => ordinary tx (mem_cons_of_mem _ member)) kept
        (alongRest _ _ ranTx) ran
    refine ⟨keptRest, txundo :: undos, ?_, .cons (data rfl) dataRest, fun before => ?_⟩
    · rw [collected, recorded]
      simp
    · rw [map_cons, zip_cons_cons, reverse_cons, disconnectTransactions_append (undoneRest before)]
      exact undone before

lemma connectBody_undone {connecting : Connecting} (checked : CheckedBlock block)
    (low : 0 < pindex.nHeight) (high : pindex.nHeight < 2 ^ 31) (restorable : Restorable view.coins)
    (along : Along onPlain (fun view call _ => AddsToVacant view.coins call)
      (connectBody scripts crypto params block pindex) view)
    (ran : run onPlain (connectBody scripts crypto params block pindex) view =
      .ok (connecting, final)) : Restorable final.coins ∧ UndoData block connecting.vtxundo ∧
      ∀ before : PlainView, run onPlain
          (disconnectTransactions crypto pindex.nHeight true (undoOrder block connecting.vtxundo))
          { before with coins := final.coins } =
        .ok (some true, { before with coins := view.coins }) := by
  obtain ⟨coinbase, rest, listed, isCoinBase, ordinary⟩ := checked.shape
  have transactions := checked.transactions
  obtain ⟨_, overwritten, ranBIP30, ran⟩ := run_bind_ok ran
  have alongTxs := (along.of_bind.2 _ _ ranBIP30).of_bind.1
  obtain ⟨state, connected, ranTxs, ran⟩ := run_bind_ok ran
  obtain ⟨value, _, ran⟩ := orFault_then ran
  obtain ⟨_, ran⟩ := ensure_then ran
  obtain ⟨_, waited, ranQueue, ran⟩ := run_bind_ok ran
  cases ran
  rw [reads_plain bip30_reads ranBIP30] at ranTxs alongTxs
  rw [reads_plain runQueued_reads ranQueue]
  rw [listed] at ranTxs alongTxs transactions
  obtain ⟨first, middle, ranFirst, ranRest⟩ := run_bind_ok ranTxs
  obtain ⟨alongFirst, alongRest⟩ := alongTxs.of_bind
  obtain ⟨kept, txundo, recorded, _, undone⟩ :=
    connectTransaction_undone (transactions coinbase mem_cons_self) low high isCoinBase.symm
      restorable alongFirst ranFirst
  obtain ⟨keptRest, undos, collected, dataRest, undoneRest⟩ :=
    connectTransactions_undone (fun tx member => transactions tx (mem_cons_of_mem _ member))
      ordinary low high kept (alongRest _ _ ranFirst) ranRest
  have vtxundo : connecting.vtxundo = undos := by
    rw [collected, recorded]
    rfl
  have data : UndoData block connecting.vtxundo := by
    rw [vtxundo]
    exact ⟨by simp [listed], by rw [listed]; exact dataRest⟩
  refine ⟨keptRest, data, fun before => ?_⟩
  rw [undoOrder, vtxundo, listed, zip_cons_cons, reverse_cons, disconnectTransactions_append (undoneRest before)]
  exact undone before

end Blocks

end Dragonchain
