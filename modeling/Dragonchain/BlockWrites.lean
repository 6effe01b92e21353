import Dragonchain.Disconnect

/-!
The coins that a block writes. Connecting a block, rolling it forward and
disconnecting it each overwrite a fixed sequence of outpoints with fixed values,
whatever the view held before. Only the answer of DisconnectBlock, clean or unclean,
depends on the view.
-/

namespace Dragonchain

open Script Serialization Coins Command WriteLog List

variable {view final : PlainView} {pindex below : Ancestry} {state after connecting : Connecting}

abbrev CoinWrites := List (COutPoint × Option Coin)

def spendWrites (vin : List CTxIn) : CoinWrites := vin.map fun txin => (txin.prevout, none)

def restoreWrites (inputs : List (CTxIn × Coin)) : CoinWrites :=
  inputs.map fun input => (input.1.prevout, some input.2)

/-- The spendable outputs from position `i` on, each with the value it is given. -/
def outputWrites (crypto : Crypto) (tx : CTransaction) (value : CTxOut → Option Coin) :
    Nat → List CTxOut → CoinWrites
  | _, [] => []
  | i, txout :: rest =>
    if isUnspendable txout.scriptPubKey then outputWrites crypto tx value (i + 1) rest
    else (⟨getHash crypto tx, UInt32.ofNat i⟩, value txout) :: outputWrites crypto tx value (i + 1) rest

def forwardWrites (crypto : Crypto) (nHeight : Int) (tx : CTransaction) : CoinWrites :=
  (if tx.isCoinBase then [] else spendWrites tx.vin)
    ++ outputWrites crypto tx (fun txout => some (outputCoin tx nHeight txout)) 0 tx.vout

def backwardWrites (crypto : Crypto) (it : CTransaction × Option CTxUndo) : CoinWrites :=
  outputWrites crypto it.1 (fun _ => none) 0 it.1.vout
    ++ match it.2 with
      | none => []
      | some txundo => restoreWrites (it.1.vin.zip txundo).reverse

def PlainView.write (view : PlainView) (writes : CoinWrites) : PlainView :=
  { view with coins := replay view.coins writes }

open PlainView

lemma write_append (view : PlainView) (front back : CoinWrites) :
    write view (front ++ back) = write (write view front) back := by
  simp [write, replay_append]

/-! Forward. -/

variable {vout : List CTxOut} {vin : List CTxIn} {block : CBlock}

section Forward
variable (crypto : Crypto) (nHeight : Int)

lemma addOutputs_writes (tx : CTransaction)
    (values : ∀ txout ∈ vout, txout.nValue ≠ -1) (check : Bool) (i : Nat) (view : PlainView) :
    run onPlain (addOutputs crypto tx nHeight check i vout) view = .ok ((), write view
        (outputWrites crypto tx (fun txout => some (outputCoin tx nHeight txout)) i vout)) := by
  induction vout generalizing i view with
  | nil => rfl
  | cons txout rest ih =>
    have later := ih fun out member => values out (mem_cons_of_mem _ member)
    have flag : ∃ overwrite, run onPlain
        (if check then haveCoinCall ⟨getHash crypto tx, UInt32.ofNat i⟩ else pure tx.isCoinBase)
        view = .ok (overwrite, view) := by
      cases check with
      | true => exact ⟨_, rfl⟩
      | false => exact ⟨_, rfl⟩
    obtain ⟨overwrite, asked⟩ := flag
    have live : (outputCoin tx nHeight txout).isSpent = false := by
      simpa [Coin.isSpent, outputCoin, CTxOut.isNull] using values txout mem_cons_self
    rw [addOutputs, run_bind_of_ok asked]
    cases unspendable : isUnspendable txout.scriptPubKey with
    | true => rw [run_bind_of_ok (run_addCoin_refused live unspendable), later, outputWrites, if_pos unspendable]
    | false =>
      rw [run_bind_of_ok (run_addCoin_plain live unspendable), later, outputWrites,
        unspendable, if_neg Bool.false_ne_true]
      rfl

variable {params : Consensus.Params} {scripts : ScriptContext}

lemma spendInputs_writes {txundo : CTxUndo} (ran : run onPlain (spendInputs vin) view = .ok (txundo, final)) :
    final = write view (spendWrites vin) := by
  induction vin generalizing view txundo with
  | nil =>
    cases ran
    rfl
  | cons txin rest ih =>
    obtain ⟨moveout, spent, ranSpend, ran⟩ := run_bind_ok ran
    obtain ⟨coin, _, ran⟩ := orFault_then ran
    obtain ⟨undo, _, ranRest, ran⟩ := run_bind_ok ran
    cases ran
    rw [ih ranRest]
    cases ranSpend
    rfl

lemma rollInputs_writes : run onPlain (rollInputs vin) view = .ok ((), write view (spendWrites vin)) := by
  induction vin generalizing view with
  | nil => rfl
  | cons txin rest ih =>
    have spent : run onPlain (spendCoinCall txin.prevout) view =
        .ok (view.coins txin.prevout, write view [(txin.prevout, none)]) := rfl
    rw [rollInputs, run_bind_of_ok spent, ih]
    rfl

variable {flags : ScriptFlags} {first : Bool} {vtx : List CTransaction}

lemma rollTransactions_writes (values : ∀ tx ∈ vtx, ∀ txout ∈ tx.vout, txout.nValue ≠ -1) (view : PlainView) :
    run onPlain (rollTransactions crypto nHeight vtx) view =
      .ok ((), write view (vtx.flatMap (forwardWrites crypto nHeight))) := by
  induction vtx generalizing view with
  | nil => rfl
  | cons tx rest ih =>
    have inputs : run onPlain (if tx.isCoinBase then pure () else rollInputs tx.vin) view =
          .ok ((), write view (if tx.isCoinBase then [] else spendWrites tx.vin)) := by
      cases tx.isCoinBase with
      | true => rfl
      | false => exact rollInputs_writes
    have outputs := addOutputs_writes crypto nHeight tx (values tx mem_cons_self) true 0
    rw [rollTransactions, run_bind_of_ok inputs, addCoins, run_bind_of_ok (outputs _),
      ih fun tx member => values tx (mem_cons_of_mem _ member)]
    simp [forwardWrites, write_append]

lemma connectTransaction_writes {tx : CTransaction} (checked : CheckedTransaction tx) (ran : run onPlain
      (connectTransaction scripts crypto params pindex flags first tx state) view =
        .ok (after, final)) : final = write view (forwardWrites crypto pindex.nHeight tx) := by
  obtain ⟨nFees, inputs, ranFees, ran⟩ := run_bind_ok ran
  obtain ⟨cost, costed, ranCost, ran⟩ := run_bind_ok ran
  obtain ⟨_, ran⟩ := ensure_then ran
  obtain ⟨vChecks, verified, ranChecks, ran⟩ := run_bind_ok ran
  obtain ⟨txundo, updated, ranUpdate, ran⟩ := run_bind_ok ran
  cases ran
  obtain ⟨spentUndo, spent, ranSpend, ranUpdate⟩ := run_bind_ok ranUpdate
  obtain ⟨_, added, ranAdd, ranUpdate⟩ := run_bind_ok ranUpdate
  cases ranUpdate
  rw [reads_plain checkInputs_reads ranChecks, reads_plain getTransactionSigOpCost_reads ranCost,
    reads_plain fees_read ranFees] at ranSpend
  have spentWrites : spent = write view (if tx.isCoinBase then [] else spendWrites tx.vin) := by
    cases coinbase : tx.isCoinBase with
    | true =>
      rw [if_pos coinbase] at ranSpend
      cases ranSpend
      rfl
    | false =>
      rw [coinbase, if_neg Bool.false_ne_true] at ranSpend
      exact spendInputs_writes ranSpend
  rw [addCoins, addOutputs_writes crypto pindex.nHeight tx (transaction_values checked)] at ranAdd
  cases ranAdd
  rw [spentWrites, ← write_append]
  rfl

lemma connectTransactions_writes (checked : ∀ tx ∈ vtx, CheckedTransaction tx) (ran : run onPlain
      (connectTransactions scripts crypto params pindex flags first vtx state) view = .ok (after, final)) :
    final = write view (vtx.flatMap (forwardWrites crypto pindex.nHeight)) := by
  induction vtx generalizing first state view with
  | nil =>
    cases ran
    rfl
  | cons tx rest ih =>
    obtain ⟨next, middle, ranTx, ran⟩ := run_bind_ok ran
    rw [ih (fun tx member => checked tx (mem_cons_of_mem _ member)) ran,
      connectTransaction_writes crypto (checked tx mem_cons_self) ranTx, flatMap_cons,
      write_append]

lemma connectBody_writes (checked : CheckedBlock block)
    (ran : run onPlain (connectBody scripts crypto params block pindex) view = .ok (connecting, final)) :
    final = write view (block.vtx.flatMap (forwardWrites crypto pindex.nHeight)) := by
  obtain ⟨_, overwritten, ranBIP30, ran⟩ := run_bind_ok ran
  obtain ⟨state, connected, ranTxs, ran⟩ := run_bind_ok ran
  obtain ⟨value, _, ran⟩ := orFault_then ran
  obtain ⟨_, ran⟩ := ensure_then ran
  obtain ⟨_, waited, ranQueue, ran⟩ := run_bind_ok ran
  cases ran
  rw [reads_plain runQueued_reads ranQueue]
  rw [reads_plain bip30_reads ranBIP30] at ranTxs
  exact connectTransactions_writes crypto checked.transactions ranTxs

end Forward

/-! Backward. -/

section Backward
variable {crypto : Crypto} {nHeight : Int}

lemma removeOutputs_writes {tx : CTransaction} (fClean : Bool) (o : Nat)
    (view : PlainView) : ∃ clean, run onPlain (removeOutputs crypto tx nHeight fClean o vout) view =
      .ok (clean, write view (outputWrites crypto tx (fun _ => none) o vout)) := by
  induction vout generalizing fClean o view with
  | nil => exact ⟨fClean, rfl⟩
  | cons txout rest ih =>
    rw [removeOutputs, outputWrites]
    cases unspendable : isUnspendable txout.scriptPubKey with
    | true => exact ih fClean (o + 1) view
    | false =>
      have spent : run onPlain (spendCoinCall ⟨getHash crypto tx, UInt32.ofNat o⟩) view =
            .ok (view.coins ⟨getHash crypto tx, UInt32.ofNat o⟩,
              write view [(⟨getHash crypto tx, UInt32.ofNat o⟩, none)]) := rfl
      exact ih _ (o + 1) _

lemma applyTxInUndo_writes {undo : Coin} {out : COutPoint} (storable : Storable undo) :
    ∃ result, result ≠ .DISCONNECT_FAILED ∧ run onPlain (applyTxInUndo undo out) view =
        .ok (result, write view [(out, some undo)]) := by
  obtain ⟨live, spendable, known⟩ := storable
  have looked : run onPlain (haveCoinCall out) view = .ok ((view.coins out).isSome, view) := rfl
  refine ⟨if !(view.coins out).isSome then .DISCONNECT_OK else .DISCONNECT_UNCLEAN, ?_, ?_⟩
  · cases (view.coins out).isSome <;> simp
  · rw [applyTxInUndo, run_bind_of_ok looked, if_neg known, restoreCoin,
      run_bind_of_ok (run_addCoin_plain live spendable)]
    rfl

lemma restoreInputs_writes {inputs : List (CTxIn × Coin)}
    (storable : ∀ input ∈ inputs, Storable input.2) (fClean : Bool) (view : PlainView) :
    ∃ clean, run onPlain (restoreInputs fClean inputs) view =
      .ok (some clean, write view (restoreWrites inputs)) := by
  induction inputs generalizing fClean view with
  | nil => exact ⟨fClean, rfl⟩
  | cons input rest ih =>
    obtain ⟨txin, undo⟩ := input
    obtain ⟨result, success, applied⟩ := applyTxInUndo_writes (storable _ mem_cons_self)
    obtain ⟨clean, restored⟩ := ih (fun input member => storable input (mem_cons_of_mem _ member))
      (fClean && result != .DISCONNECT_UNCLEAN) (write view [(txin.prevout, some undo)])
    refine ⟨clean, ?_⟩
    rw [restoreInputs, run_bind_of_ok applied, if_neg success, restored, ← write_append]
    rfl

lemma disconnectTransactions_writes {txs : List (CTransaction × Option CTxUndo)}
    (undos : ∀ it ∈ txs, ∀ txundo, it.2 = some txundo → UndoFor it.1 txundo) (fClean : Bool)
    (view : PlainView) : ∃ clean, run onPlain (disconnectTransactions crypto nHeight fClean txs) view =
      .ok (some clean, write view (txs.flatMap (backwardWrites crypto))) := by
  induction txs generalizing fClean view with
  | nil => exact ⟨fClean, rfl⟩
  | cons it rest ih =>
    obtain ⟨tx, txundo⟩ := it
    have undone : ∃ clean, run onPlain (disconnectTransaction crypto tx nHeight txundo fClean) view =
          .ok (some clean, write view (backwardWrites crypto (tx, txundo))) := by
      obtain ⟨removed, ran⟩ := removeOutputs_writes fClean 0 view
      rw [disconnectTransaction, run_bind_of_ok ran]
      cases txundo with
      | none =>
        refine ⟨removed, ?_⟩
        simp only [backwardWrites, append_nil]
        rfl
      | some vprevout =>
        obtain ⟨sizes, storable⟩ := undos _ mem_cons_self vprevout rfl
        have each : ∀ input ∈ (tx.vin.zip vprevout).reverse, Storable input.2 := by
          intro input member
          exact storable _ (of_mem_zip (mem_reverse.mp member)).2
        obtain ⟨clean, restored⟩ := restoreInputs_writes each removed
          (write view (outputWrites crypto tx (fun _ => none) 0 tx.vout))
        refine ⟨clean, ?_⟩
        simp only [sizes, ne_eq, not_true_eq_false, if_false]
        rw [restored, ← write_append]
        rfl
    obtain ⟨clean, undone⟩ := undone
    obtain ⟨last, later⟩ := ih (fun it member => undos it (mem_cons_of_mem _ member)) clean
      (write view (backwardWrites crypto (tx, txundo)))
    refine ⟨last, ?_⟩
    rw [disconnectTransactions, run_bind_of_ok undone]
    exact later.trans (by rw [flatMap_cons, write_append])

/-- DisconnectBlock on any view, for undo data that fits the block. -/
lemma disconnectBlock_writes {vtxundo : CBlockUndo} {entry pprev : IndexEntry}
    (data : UndoData block vtxundo) : ∃ result, result ≠ .DISCONNECT_FAILED ∧ run onPlain
          (disconnectBlock crypto block (entry :: pprev :: below) (some vtxundo)) view =
        .ok (result, { write view ((undoOrder block vtxundo).flatMap (backwardWrites crypto))
          with hashBlock := pprev.hash }) := by
  have undos : ∀ it ∈ undoOrder block vtxundo, ∀ txundo, it.2 = some txundo → UndoFor it.1 txundo := by
    intro it member txundo known
    obtain ⟨coinbase, rest, listed⟩ := exists_cons_of_ne_nil data.coinbase
    have others := data.others
    rw [undoOrder, mem_reverse, listed, zip_cons_cons, mem_cons] at member
    rw [listed, tail_cons] at others
    rcases member with rfl | later
    · cases known
    · obtain ⟨tx, undo⟩ := it
      subst known
      rw [zip_map_right, mem_map] at later
      obtain ⟨⟨tx', undo'⟩, paired, same⟩ := later
      cases same
      exact (List.forall₂_iff_zip.mp others).2 paired
  obtain ⟨clean, undone⟩ := disconnectTransactions_writes undos true view
  refine ⟨if clean then .DISCONNECT_OK else .DISCONNECT_UNCLEAN, by cases clean <;> simp, ?_⟩
  rw [disconnectBlock, if_neg (not_not_intro data.length), run_bind_of_ok undone]
  rfl

end Backward

/-! Rolling forward only makes calls that the caches answer as the plain map does. -/

section Allowed
variable {crypto : Crypto} {nHeight : Int}

lemma rollInputs_allowed : Along onPlain Allowed (rollInputs vin) view := by
  induction vin generalizing view with
  | nil => trivial
  | cons txin rest ih => exact ⟨fun _ => rfl, fun _ final _ => ih⟩

lemma addOutputs_allowed {tx : CTransaction} {i : Nat} :
    Along onPlain Allowed (addOutputs crypto tx nHeight true i vout) view := by
  induction vout generalizing i view with
  | nil => trivial
  | cons txout rest ih =>
    refine ⟨trivial, fun found looked answered => ?_⟩
    cases answered
    refine ⟨fun _ vacant => ?_, fun _ added _ => ih⟩
    exact Option.not_isSome_iff_eq_none.mp (by simpa using vacant)

lemma rollforwardBlock_allowed : Along onPlain Allowed (rollforwardBlock crypto block pindex) view := by
  unfold rollforwardBlock
  generalize block.vtx = vtx
  induction vtx generalizing view with
  | nil => trivial
  | cons tx rest ih =>
    refine allowed_then ?_ fun _ spent _ => ?_
    · split
      · trivial
      · exact rollInputs_allowed
    · exact allowed_then addOutputs_allowed fun _ added _ => ih

end Allowed

end Dragonchain
