import Dragonchain.BlockCheck
import Dragonchain.CoinsProgram
import Dragonchain.Interpreter

/-!
ConnectBlock, DisconnectBlock and RollforwardBlock of validation.cpp, with the
functions of coins.cpp and tx_verify.cpp they call on the view. The undo data that
ConnectBlock writes to disk is its result here, and DisconnectBlock is given what it
reads back. Script checks are run inline or queued for the check threads, and a
transaction found in the script execution cache skips them.
-/

namespace Dragonchain

open Script Serialization Coins Command

variable {params : Consensus.Params} {State α β : Type} {nSpendHeight nSigOps : Int}

/-- Failed assertions, exceptions and null pointers. -/
inductive ValidationFault where
  | coins (fault : CoinsFault)
  | script (fault : ScriptFault)
  | blockHashMismatch
  | bestBlockMismatch
  | noPrevBlock
  | nullIndex
  | noCommonAncestor
  | batchWriteAssert
  | inputSpent
  | notSpent
  | valueOutOfRange
  | noSuchAncestor
  deriving DecidableEq

abbrev Validation := Stop Reject ValidationFault

abbrev ViewM := ViewProgram Validation

def raiseCoins (fault : CoinsFault) : Validation := .fault (.coins fault)

abbrev onPlain : Handler ViewCall ViewAnswer Validation PlainView := plainHandler raiseCoins

variable (condition : Bool)

def ensure (reject : Reject) : ViewM Unit := if condition then pure () else .stop (.error reject)

def assertThat (fault : ValidationFault) : ViewM Unit := if condition then pure () else .stop (.fault fault)

def orFault {α : Type} (fault : ValidationFault) : Option α → ViewM α
  | some value => pure value
  | none => .stop (.fault fault)

def getBlockSubsidy (nHeight : Int) : CAmount :=
  if nHeight < 3153600 then 332988658
  else
    let halvings := ((nHeight - 3153600) / 25228800).toNat
    if halvings ≥ 64 then 0 else ((20807311 >>> halvings : Nat) : Int)

def getBlockScriptFlags (params : Consensus.Params) (pindex : Ancestry) : ScriptFlags
  | .P2SH => pindex.nHeight ≥ params.BIP16Height
  | .DERSIG => pindex.nHeight ≥ params.BIP66Height
  | .CHECKLOCKTIMEVERIFY => pindex.nHeight ≥ params.BIP65Height
  | .CHECKSEQUENCEVERIFY => params.csvActive pindex.tail
  | .WITNESS => params.witnessEnabled pindex.tail
  | .NULLDUMMY => params.witnessEnabled pindex.tail
  | _ => false

/-! Reading the inputs of a transaction. -/

def haveEach : List CTxIn → ViewM Bool
  | [] => pure true
  | txin :: rest => do
    let found ← haveCoinCall txin.prevout
    if found then haveEach rest else pure false

variable (tx : CTransaction)

def haveInputs : ViewM Bool := if tx.isCoinBase then pure true else haveEach tx.vin

def sumInputs (nSpendHeight : Int) : CAmount → List CTxIn → ViewM CAmount
  | nValueIn, [] => pure nValueIn
  | nValueIn, txin :: rest => do
    let coin ← accessCoinCall txin.prevout
    assertThat (!coin.isSpent) .inputSpent
    ensure (!(coin.fCoinBase && nSpendHeight - coin.nHeight.toNat < COINBASE_MATURITY))
      (dos 0 "bad-txns-premature-spend-of-coinbase")
    let nValueIn := nValueIn + coin.out.nValue.toInt
    ensure (moneyRange coin.out.nValue.toInt && moneyRange nValueIn) (dos 100 "bad-txns-inputvalues-outofrange")
    sumInputs nSpendHeight nValueIn rest

def checkTxInputs (nSpendHeight : Int) : ViewM CAmount := do
  let available ← haveInputs tx
  ensure available (dos 100 "bad-txns-inputs-missingorspent")
  let nValueIn ← sumInputs nSpendHeight 0 tx.vin
  let value_out ← orFault .valueOutOfRange tx.getValueOut
  ensure (!(nValueIn < value_out)) (dos 100 "bad-txns-in-belowout")
  let txfee_aux := nValueIn - value_out
  ensure (moneyRange txfee_aux) (dos 100 "bad-txns-fee-outofrange")
  pure txfee_aux

def inputCoins : List CTxIn → ViewM (List (CTxIn × Coin))
  | [] => pure []
  | txin :: rest => do
    let coin ← accessCoinCall txin.prevout
    assertThat (!coin.isSpent) .inputSpent
    let coins ← inputCoins rest
    pure ((txin, coin) :: coins)

def inputHeights : List CTxIn → ViewM (List Int)
  | [] => pure []
  | txin :: rest => do
    let coin ← accessCoinCall txin.prevout
    let heights ← inputHeights rest
    pure ((coin.nHeight.toNat : Int) :: heights)

def p2shSigOps (nSigOps : UInt32) (input : CTxIn × Coin) : UInt32 :=
  let scriptPubKey := input.2.out.scriptPubKey
  if isPayToScriptHash scriptPubKey then nSigOps + getSigOpCountP2SH scriptPubKey input.1.scriptSig
  else nSigOps

def getP2SHSigOpCount : ViewM UInt32 :=
  if tx.isCoinBase then pure 0
  else do
    let coins ← inputCoins tx.vin
    pure (coins.foldl p2shSigOps 0)

/-- An Eval result whose faults become faults of the validation. -/
def evalFault {α : Type} (value : α) : Stop ScriptError ScriptFault → ViewM α
  | .error _ => pure value
  | .fault fault => .stop (.fault (.script fault))

def witnessInputSigOps (flags : ScriptFlags) : List (CTxIn × Coin) → Int → ViewM Int
  | [], nSigOps => pure nSigOps
  | (txin, coin) :: rest, nSigOps => do
    let count ← (match countWitnessSigOps flags txin.scriptSig coin.out.scriptPubKey txin.scriptWitness with
      | .ok count => pure count
      | .error stop => evalFault 0 stop)
    witnessInputSigOps flags rest (nSigOps + count)

def getTransactionSigOpCost (flags : ScriptFlags) : ViewM Int := do
  let legacy : Int := (getLegacySigOpCount tx * UInt32.ofNat WITNESS_SCALE_FACTOR).toNat
  if tx.isCoinBase then pure legacy
  else do
    let p2sh ← (if flags .P2SH then getP2SHSigOpCount tx else pure 0)
    let coins ← inputCoins tx.vin
    witnessInputSigOps flags coins (legacy + (p2sh * UInt32.ofNat WITNESS_SCALE_FACTOR).toNat)

/-- What stays the same while a block is connected: the signature checker of an input,
whether scripts are checked, the hits of the script execution cache and whether there
are check threads. -/
structure ScriptContext where
  checker : CTransaction → Nat → CAmount → BaseSignatureChecker
  fScriptChecks : Bool
  scriptExecutionCache : CTransaction → ScriptFlags → Bool
  nScriptCheckThreads : Bool

def ScriptContext.inline : ScriptContext where
  checker _ _ _ := acceptingChecker
  fScriptChecks := true
  scriptExecutionCache _ _ := false
  nScriptCheckThreads := false

structure CScriptCheck where
  m_tx_out : CTxOut
  ptxTo : CTransaction
  nIn : Nat
  nFlags : ScriptFlags

section Connect
variable (crypto : Crypto) (scripts : ScriptContext) (check : CScriptCheck)

def CScriptCheck.run : Eval Unit :=
  let txin := check.ptxTo.vin[check.nIn]?
  verifyScript crypto check.nFlags
    (scripts.checker check.ptxTo check.nIn check.m_tx_out.nValue.toInt)
    ((txin.map CTxIn.scriptSig).getD []) check.m_tx_out.scriptPubKey
    ((txin.map CTxIn.scriptWitness).getD [])

def scriptErrorString : ScriptError → String
  | .EVAL_FALSE => "Script evaluated without error but finished with a false/empty top stack element"
  | .VERIFY => "Script failed an OP_VERIFY operation"
  | .EQUALVERIFY => "Script failed an OP_EQUALVERIFY operation"
  | .CHECKMULTISIGVERIFY => "Script failed an OP_CHECKMULTISIGVERIFY operation"
  | .CHECKSIGVERIFY => "Script failed an OP_CHECKSIGVERIFY operation"
  | .NUMEQUALVERIFY => "Script failed an OP_NUMEQUALVERIFY operation"
  | .SCRIPT_SIZE => "Script is too big"
  | .PUSH_SIZE => "Push value size limit exceeded"
  | .OP_COUNT => "Operation limit exceeded"
  | .STACK_SIZE => "Stack size limit exceeded"
  | .SIG_COUNT => "Signature count negative or greater than pubkey count"
  | .PUBKEY_COUNT => "Pubkey count negative or limit exceeded"
  | .BAD_OPCODE => "Opcode missing or not understood"
  | .DISABLED_OPCODE => "Attempted to use a disabled opcode"
  | .INVALID_STACK_OPERATION => "Operation not valid with the current stack size"
  | .INVALID_ALTSTACK_OPERATION => "Operation not valid with the current altstack size"
  | .OP_RETURN => "OP_RETURN was encountered"
  | .UNBALANCED_CONDITIONAL => "Invalid OP_IF construction"
  | .NEGATIVE_LOCKTIME => "Negative locktime"
  | .UNSATISFIED_LOCKTIME => "Locktime requirement not satisfied"
  | .SIG_HASHTYPE => "Signature hash type missing or not understood"
  | .SIG_DER => "Non-canonical DER signature"
  | .MINIMALDATA => "Data push larger than necessary"
  | .SIG_PUSHONLY => "Only non-push operators allowed in signatures"
  | .SIG_HIGH_S => "Non-canonical signature: S value is unnecessarily high"
  | .SIG_NULLDUMMY => "Dummy CHECKMULTISIG argument must be zero"
  | .MINIMALIF => "OP_IF/NOTIF argument must be minimal"
  | .SIG_NULLFAIL => "Signature must be zero for failed CHECK(MULTI)SIG operation"
  | .DISCOURAGE_UPGRADABLE_NOPS => "NOPx reserved for soft-fork upgrades"
  | .DISCOURAGE_UPGRADABLE_WITNESS_PROGRAM => "Witness version reserved for soft-fork upgrades"
  | .PUBKEYTYPE => "Public key is neither compressed or uncompressed"
  | .CLEANSTACK => "Extra items left on stack after execution"
  | .WITNESS_PROGRAM_WRONG_LENGTH => "Witness program has incorrect length"
  | .WITNESS_PROGRAM_WITNESS_EMPTY => "Witness program was passed an empty witness"
  | .WITNESS_PROGRAM_MISMATCH => "Witness program hash mismatch"
  | .WITNESS_MALLEATED => "Witness requires empty scriptSig"
  | .WITNESS_MALLEATED_P2SH => "Witness requires only-redeemscript scriptSig"
  | .WITNESS_UNEXPECTED => "Witness provided for non-witness script"
  | .WITNESS_PUBKEYTYPE => "Using non-compressed keys in segwit"
  | .OP_CODESEPARATOR => "Using OP_CODESEPARATOR in non-witness script"
  | .SIG_FINDANDDELETE => "Signature is found in scriptCode"
  | .UNKNOWN_ERROR => "unknown error"

def REJECT_NONSTANDARD : UInt8 := 0x40

def notMandatory (flags : ScriptFlags) : ScriptFlags := fun flag =>
  flags flag && STANDARD_SCRIPT_VERIFY_FLAGS flag && !MANDATORY_SCRIPT_VERIFY_FLAGS flag

def allFlags : List ScriptFlag :=
  [.P2SH, .STRICTENC, .DERSIG, .LOW_S, .NULLDUMMY, .SIGPUSHONLY, .MINIMALDATA,
    .DISCOURAGE_UPGRADABLE_NOPS, .CLEANSTACK, .CHECKLOCKTIMEVERIFY, .CHECKSEQUENCEVERIFY, .WITNESS,
    .DISCOURAGE_UPGRADABLE_WITNESS_PROGRAM, .MINIMALIF, .NULLFAIL, .WITNESS_PUBKEYTYPE,
    .CONST_SCRIPTCODE]

/-- A script check that is run inline, with the second one that decides the reason. -/
def runInline : ViewM Unit :=
  match check.run crypto scripts with
  | .ok () => pure ()
  | .error (.fault fault) => .stop (.fault (.script fault))
  | .error (.error error) =>
    let mandatory : Reject := dos 100 ("mandatory-script-verify-flag-failed (" ++ scriptErrorString error ++ ")")
    let nonMandatory : Reject := ⟨0, REJECT_NONSTANDARD,
      "non-mandatory-script-verify-flag (" ++ scriptErrorString error ++ ")", false⟩
    if allFlags.any (notMandatory check.nFlags) then
      let check2 := { check with
        nFlags := fun flag => check.nFlags flag && !notMandatory check.nFlags flag }
      match check2.run crypto scripts with
      | .ok () => .stop (.error nonMandatory)
      | .error (.fault fault) => .stop (.fault (.script fault))
      | .error (.error _) => .stop (.error mandatory)
    else .stop (.error mandatory)

/-- The loop of CheckInputs over the inputs from position `nIn` on: the checks left for
the check threads. -/
def inputChecks (tx : CTransaction) (flags : ScriptFlags) : Nat → List CTxIn → ViewM (List CScriptCheck)
  | _, [] => pure []
  | nIn, txin :: rest => do
    let coin ← accessCoinCall txin.prevout
    assertThat (!coin.isSpent) .inputSpent
    let check : CScriptCheck := ⟨coin.out, tx, nIn, flags⟩
    if scripts.nScriptCheckThreads then do
      let checks ← inputChecks tx flags (nIn + 1) rest
      pure (check :: checks)
    else do
      runInline crypto scripts check
      inputChecks tx flags (nIn + 1) rest

def checkInputs (tx : CTransaction) (flags : ScriptFlags) : ViewM (List CScriptCheck) :=
  if tx.isCoinBase || !scripts.fScriptChecks || scripts.scriptExecutionCache tx flags then pure []
  else inputChecks crypto scripts tx flags 0 tx.vin

/-- control.Wait(). -/
def runQueued : List CScriptCheck → ViewM Unit
  | [] => pure ()
  | check :: rest =>
    match check.run crypto scripts with
    | .ok () => runQueued rest
    | .error (.fault fault) => .stop (.fault (.script fault))
    | .error (.error _) => .stop (.error (dos 100 "block-validation-failed"))

end Connect

/-! Changing the view. -/

abbrev CTxUndo := List Coin
abbrev CBlockUndo := List CTxUndo

def outputCoin (nHeight : Int) (txout : CTxOut) : Coin := ⟨txout, tx.isCoinBase, BitVec.ofInt 31 nHeight⟩

section Updates
variable (crypto : Crypto)

def addOutputs (tx : CTransaction) (nHeight : Int) (check : Bool) : Nat → List CTxOut → ViewM Unit
  | _, [] => pure ()
  | i, txout :: rest => do
    let outpoint : COutPoint := ⟨getHash crypto tx, UInt32.ofNat i⟩
    let overwrite ← (if check then haveCoinCall outpoint else pure tx.isCoinBase)
    addCoinCall outpoint (outputCoin tx nHeight txout) overwrite
    addOutputs tx nHeight check (i + 1) rest

def addCoins (tx : CTransaction) (nHeight : Int) (check : Bool) : ViewM Unit :=
  addOutputs crypto tx nHeight check 0 tx.vout

def spendInputs : List CTxIn → ViewM CTxUndo
  | [] => pure []
  | txin :: rest => do
    let moveout ← spendCoinCall txin.prevout
    let coin ← orFault .notSpent moveout
    let txundo ← spendInputs rest
    pure (coin :: txundo)

def updateCoins (tx : CTransaction) (nHeight : Int) : ViewM CTxUndo := do
  let txundo ← (if tx.isCoinBase then pure [] else spendInputs tx.vin)
  addCoins crypto tx nHeight false
  pure txundo

end Updates

section ConnectBlock
variable {crypto : Crypto} (scripts : ScriptContext)

structure Connecting where
  nFees : CAmount := 0
  nSigOpsCost : Int := 0
  vtxundo : CBlockUndo := []
  queued : List CScriptCheck := []

/-- The UTXO-dependent checks on the inputs of a transaction: the fee. -/
def connectInputs (params : Consensus.Params) (pindex : Ancestry) (tx : CTransaction)
    (nFees : CAmount) : ViewM CAmount := do
  let txfee ← checkTxInputs tx pindex.nHeight
  let nFees := nFees + txfee
  ensure (moneyRange nFees) (dos 100 "bad-txns-accumulated-fee-outofrange")
  let prevheights ← inputHeights tx.vin
  let final ← orFault .noSuchAncestor (sequenceLocks tx (params.csvActive pindex.tail) prevheights pindex)
  ensure final (dos 100 "bad-txns-nonfinal")
  pure nFees

/-- One turn of the loop in ConnectBlock; `first` is i == 0. -/
def connectTransaction (crypto : Crypto) (params : Consensus.Params) (pindex : Ancestry)
    (flags : ScriptFlags) (first : Bool) (tx : CTransaction) (state : Connecting) :
    ViewM Connecting := do
  let nFees ← (if tx.isCoinBase then pure state.nFees else connectInputs params pindex tx state.nFees)
  let cost ← getTransactionSigOpCost tx flags
  let nSigOpsCost := state.nSigOpsCost + cost
  ensure (!(nSigOpsCost > MAX_BLOCK_SIGOPS_COST)) (dos 100 "bad-blk-sigops")
  let vChecks ← checkInputs crypto scripts tx flags
  let txundo ← updateCoins crypto tx pindex.nHeight
  pure
    { nFees, nSigOpsCost
      vtxundo := if first then state.vtxundo else state.vtxundo ++ [txundo]
      queued := state.queued ++ vChecks }

def connectTransactions (crypto : Crypto) (params : Consensus.Params) (pindex : Ancestry)
    (flags : ScriptFlags) : Bool → List CTransaction → Connecting → ViewM Connecting
  | _, [], state => pure state
  | first, tx :: rest, state => do
    let state ← connectTransaction scripts crypto params pindex flags first tx state
    connectTransactions crypto params pindex flags false rest state

/-- The BIP30 check over the outputs of one transaction, from output `o` on. -/
def noOverwrite (crypto : Crypto) (tx : CTransaction) : Nat → List CTxOut → ViewM Unit
  | _, [] => pure ()
  | o, _ :: rest => do
    let found ← haveCoinCall ⟨getHash crypto tx, UInt32.ofNat o⟩
    ensure (!found) (dos 100 "bad-txns-BIP30")
    noOverwrite crypto tx (o + 1) rest

def checkBIP30 (crypto : Crypto) : List CTransaction → ViewM Unit
  | [] => pure ()
  | tx :: rest => do
    noOverwrite crypto tx 0 tx.vout
    checkBIP30 crypto rest

def enforceBIP30 (params : Consensus.Params) (pindex : Ancestry) : Bool :=
  match Ancestry.getAncestor pindex.tail params.BIP34Height with
  | some (entry :: _) => entry.hash != params.BIP34Hash
  | _ => true

/-- ConnectBlock for a block other than the genesis block: the loop and its results. -/
def connectBody (crypto : Crypto) (params : Consensus.Params) (block : CBlock) (pindex : Ancestry) :
    ViewM Connecting := do
  (if enforceBIP30 params pindex then checkBIP30 crypto block.vtx else pure ())
  let state ← connectTransactions scripts crypto params pindex (getBlockScriptFlags params pindex) true block.vtx {}
  let blockReward := state.nFees + getBlockSubsidy pindex.nHeight
  let valueOut ← orFault .valueOutOfRange (block.vtx.head?.bind CTransaction.getValueOut)
  ensure (!(valueOut > blockReward)) (dos 100 "bad-cb-amount")
  runQueued crypto scripts state.queued
  pure state

def connectBlock (object : BlockObject crypto params) (pindex : Ancestry) (fJustCheck : Bool) :
    ViewM (Option CBlockUndo) := do
  let block := object.block
  let hash := getBlockHash crypto block.toCBlockHeader
  assertThat (pindex.head?.all fun entry => entry.hash == hash) .blockHashMismatch
  let _ ← Program.ofExcept ((checkBlock object (!fJustCheck) (!fJustCheck)).mapError Stop.error)
  let hashPrevBlock := (pindex.tail.head?.map IndexEntry.hash).getD Uint256.null
  let best ← getBestBlockCall
  assertThat (hashPrevBlock == best) .bestBlockMismatch
  if hash = params.hashGenesisBlock then do
    (if fJustCheck then pure () else setBestBlockCall hash)
    pure none
  else do
    assertThat (!pindex.tail.isEmpty) .noPrevBlock
    let state ← connectBody scripts crypto params block pindex
    if fJustCheck then pure none
    else do
      setBestBlockCall hash
      pure (some state.vtxundo)

end ConnectBlock

/-! Undoing a block. -/

inductive DisconnectResult where
  | DISCONNECT_OK
  | DISCONNECT_UNCLEAN
  | DISCONNECT_FAILED
  deriving DecidableEq

def MAX_OUTPUTS_PER_BLOCK : Nat := 1777777

def accessByTxid (txid : Uint256) : Nat → Nat → ViewM Coin
  | 0, _ => pure Coin.empty
  | fuel + 1, n => do
    let alternate ← accessCoinCall ⟨txid, UInt32.ofNat n⟩
    if !alternate.isSpent then pure alternate else accessByTxid txid fuel (n + 1)

/-- ApplyTxInUndo on undo data that knows its height. -/
def restoreCoin (undo : Coin) (fClean : Bool) (out : COutPoint) : ViewM DisconnectResult := do
  addCoinCall out undo (!fClean)
  pure (if fClean then .DISCONNECT_OK else .DISCONNECT_UNCLEAN)

def applyTxInUndo (undo : Coin) (out : COutPoint) : ViewM DisconnectResult := do
  let found ← haveCoinCall out
  let fClean := !found
  if undo.nHeight = 0 then do
    let alternate ← accessByTxid out.hash MAX_OUTPUTS_PER_BLOCK 0
    if !alternate.isSpent then
      restoreCoin { undo with nHeight := alternate.nHeight, fCoinBase := alternate.fCoinBase } fClean out
    else pure .DISCONNECT_FAILED
  else restoreCoin undo fClean out

/-- Removing the outputs of a transaction from output `o` on: fClean afterwards. -/
def removeOutputs (crypto : Crypto) (tx : CTransaction) (nHeight : Int) : Bool → Nat → List CTxOut → ViewM Bool
  | fClean, _, [] => pure fClean
  | fClean, o, txout :: rest =>
    if !isUnspendable txout.scriptPubKey then do
      let moveout ← spendCoinCall ⟨getHash crypto tx, UInt32.ofNat o⟩
      let coin := moveout.getD Coin.empty
      let mismatch := moveout.isNone || txout != coin.out || nHeight != coin.nHeight.toNat
        || tx.isCoinBase != coin.fCoinBase
      removeOutputs crypto tx nHeight (fClean && !mismatch) (o + 1) rest
    else removeOutputs crypto tx nHeight fClean (o + 1) rest

/-- Restoring inputs, the last one first; `none` is DISCONNECT_FAILED. -/
def restoreInputs : Bool → List (CTxIn × Coin) → ViewM (Option Bool)
  | fClean, [] => pure (some fClean)
  | fClean, (txin, undo) :: rest => do
    let res ← applyTxInUndo undo txin.prevout
    if res = .DISCONNECT_FAILED then pure none
    else restoreInputs (fClean && res != .DISCONNECT_UNCLEAN) rest

variable (crypto : Crypto)

/-- One turn of the loop in DisconnectBlock; `txundo` is `none` for the coinbase. -/
def disconnectTransaction (tx : CTransaction) (nHeight : Int)
    (txundo : Option CTxUndo) (fClean : Bool) : ViewM (Option Bool) := do
  let fClean ← removeOutputs crypto tx nHeight fClean 0 tx.vout
  match txundo with
  | none => pure (some fClean)
  | some vprevout =>
    if vprevout.length ≠ tx.vin.length then pure none
    else restoreInputs fClean (tx.vin.zip vprevout).reverse

/-- The loop of DisconnectBlock, over the transactions with their undo data, last first. -/
def disconnectTransactions (crypto : Crypto) (nHeight : Int) :
    Bool → List (CTransaction × Option CTxUndo) → ViewM (Option Bool)
  | fClean, [] => pure (some fClean)
  | fClean, (tx, txundo) :: rest => do
    let clean ← disconnectTransaction crypto tx nHeight txundo fClean
    match clean with
    | none => pure none
    | some fClean => disconnectTransactions crypto nHeight fClean rest

variable (block : CBlock)

/-- The transactions of a block with their undo data, in the order they are undone. -/
def undoOrder (vtxundo : CBlockUndo) : List (CTransaction × Option CTxUndo) :=
  (block.vtx.zip (none :: vtxundo.map some)).reverse

variable (pindex : Ancestry)

def disconnectBlock (undoRead : Option CBlockUndo) : ViewM DisconnectResult :=
  match undoRead with
  | none => pure .DISCONNECT_FAILED
  | some vtxundo =>
    if vtxundo.length + 1 ≠ block.vtx.length then pure .DISCONNECT_FAILED
    else do
      let clean ← disconnectTransactions crypto pindex.nHeight true (undoOrder block vtxundo)
      match clean with
      | none => pure .DISCONNECT_FAILED
      | some fClean => do
        let pprev ← orFault .noPrevBlock pindex.tail.head?
        setBestBlockCall pprev.hash
        pure (if fClean then .DISCONNECT_OK else .DISCONNECT_UNCLEAN)

/-! Rolling forward, which does not check anything. -/

def rollInputs : List CTxIn → ViewM Unit
  | [] => pure ()
  | txin :: rest => do
    let _ ← spendCoinCall txin.prevout
    rollInputs rest

def rollTransactions (crypto : Crypto) (nHeight : Int) : List CTransaction → ViewM Unit
  | [] => pure ()
  | tx :: rest => do
    (if tx.isCoinBase then pure () else rollInputs tx.vin)
    addCoins crypto tx nHeight true
    rollTransactions crypto nHeight rest

def rollforwardBlock : ViewM Unit := rollTransactions crypto pindex.nHeight block.vtx

/-! The pieces that programs are made of, under any handler. -/

variable {option : Option α} {fault : ValidationFault}

section Pieces
variable {handler : Handler ViewCall ViewAnswer Validation State} {state : State}
  {result : β × State} {condition : Bool} {next : Unit → ViewM β} {crypto : Crypto}

lemma ensure_then {reject : Reject} (ran : run handler (ensure condition reject >>= next) state = .ok result) :
    condition = true ∧ run handler (next ()) state = .ok result := by
  cases condition with
  | true => exact ⟨rfl, ran⟩
  | false => cases ran

lemma assertThat_then (ran : run handler (assertThat condition fault >>= next) state = .ok result) :
    condition = true ∧ run handler (next ()) state = .ok result := by
  cases condition with
  | true => exact ⟨rfl, ran⟩
  | false => cases ran

lemma run_assertThat (holds : condition = true) :
    run handler (assertThat condition fault) state = .ok ((), state) := by
  rw [assertThat, if_pos holds]
  rfl

lemma orFault_then {next : α → ViewM β} (ran : run handler (orFault fault option >>= next) state = .ok result) :
    ∃ value, option = some value ∧ run handler (next value) state = .ok result := by
  cases option with
  | some value => exact ⟨value, rfl, ran⟩
  | none => cases ran

lemma checkedBlock_of_ok {object checked : BlockObject crypto params}
    (passed : (checkBlock object true true).mapError Stop.error =
      (.ok checked : Except Validation (BlockObject crypto params))) : CheckedBlock object.block := by
  cases result : checkBlock object true true with
  | error reject =>
    rw [result] at passed
    cases passed
  | ok checked => exact checkBlockBody_passed (checkBlock_passed object checked result)

/-- Everything a successful ConnectBlock does to the view. -/
lemma connectBlock_cases {scripts : ScriptContext}
    {object : BlockObject crypto params} {pindex : Ancestry} {undo : Option CBlockUndo} {final : State}
    (ran : run handler (connectBlock scripts object pindex false) state = .ok (undo, final)) :
    CheckedBlock object.block ∧ ∃ looked, run handler getBestBlockCall state =
        .ok ((pindex.tail.head?.map IndexEntry.hash).getD Uint256.null, looked) ∧ ((undo = none ∧
          run handler (setBestBlockCall (getBlockHash crypto object.block.toCBlockHeader)) looked =
            .ok ((), final)) ∨ ∃ connecting connected, undo = some connecting.vtxundo ∧ pindex.tail ≠ [] ∧
          run handler (connectBody scripts crypto params object.block pindex) looked = .ok (connecting, connected) ∧
          run handler (setBestBlockCall (getBlockHash crypto object.block.toCBlockHeader)) connected =
            .ok ((), final) ∧ ∀ permitted : State → ViewCall → Prop,
            Along handler (fun state call _ => permitted state call)
              (connectBlock scripts object pindex false) state →
            Along handler (fun state call _ => permitted state call)
              (connectBody scripts crypto params object.block pindex) looked) := by
  obtain ⟨matching, ran⟩ := assertThat_then ran
  obtain ⟨checked, passed, ran⟩ := ofExcept_then ran
  have sound := checkedBlock_of_ok passed
  obtain ⟨best, looked, ranBest, ran⟩ := run_bind_ok ran
  obtain ⟨expected, ran⟩ := assertThat_then ran
  refine ⟨sound, looked, by rw [ranBest, ← beq_iff_eq.mp expected], ?_⟩
  split at ran
  · left
    obtain ⟨_, marked, ranSet, ran⟩ := run_bind_ok ran
    cases ran
    exact ⟨rfl, ranSet⟩
  · rename_i ordinary
    right
    obtain ⟨later, ran⟩ := assertThat_then ran
    obtain ⟨connecting, connected, ranBody, ran⟩ := run_bind_ok ran
    obtain ⟨_, marked, ranSet, ran⟩ := run_bind_ok ran
    cases ran
    refine ⟨connecting, connected, rfl, by simpa using later, ranBody, ranSet, fun permitted along => ?_⟩
    have along := along.of_bind.2 () state (run_assertThat matching)
    have along := along.of_bind.2 checked state (by rw [passed]; rfl)
    have along := along.of_bind.2 _ _ ranBest
    have along := along.of_bind.2 () looked (run_assertThat expected)
    rw [if_neg ordinary] at along
    exact (along.of_bind.2 () looked (run_assertThat later)).of_bind.1

end Pieces

/-! The checks of ConnectBlock only read the view. -/

section Reading

variable {condition : Bool} {vin : List CTxIn}

lemma reads_ensure {reject : Reject} : Only ViewCall.Reads (ensure condition reject) := by
  cases condition <;> trivial

lemma reads_assertThat : Only ViewCall.Reads (assertThat condition fault) := by cases condition <;> trivial

lemma reads_orFault : Only ViewCall.Reads (orFault fault option) := by cases option <;> trivial

lemma haveEach_reads : Only ViewCall.Reads (haveEach vin) := by
  induction vin with
  | nil => trivial
  | cons txin rest ih =>
    refine reads_haveCoin.bind fun found => ?_
    cases found with
    | true => exact ih
    | false => trivial

variable {crypto : Crypto} {pindex : Ancestry} {tx : CTransaction} {flags : ScriptFlags}
  {nValueIn nFees : CAmount}

lemma sumInputs_reads : Only ViewCall.Reads (sumInputs nSpendHeight nValueIn vin) := by
  induction vin generalizing nValueIn with
  | nil => trivial
  | cons txin rest ih =>
    refine reads_accessCoin.bind fun coin => ?_
    refine reads_assertThat.bind fun _ => ?_
    refine reads_ensure.bind fun _ => ?_
    exact reads_ensure.bind fun _ => ih

lemma haveInputs_reads : Only ViewCall.Reads (haveInputs tx) := by
  unfold haveInputs
  split
  · trivial
  · exact haveEach_reads

lemma checkTxInputs_reads : Only ViewCall.Reads (checkTxInputs tx nSpendHeight) := by
  refine haveInputs_reads.bind fun _ => ?_
  refine reads_ensure.bind fun _ => ?_
  refine sumInputs_reads.bind fun _ => ?_
  refine reads_orFault.bind fun _ => ?_
  refine reads_ensure.bind fun _ => ?_
  exact reads_ensure.bind fun _ => trivial

lemma inputCoins_reads : Only ViewCall.Reads (inputCoins vin) := by
  induction vin with
  | nil => trivial
  | cons txin rest ih =>
    refine reads_accessCoin.bind fun coin => ?_
    refine reads_assertThat.bind fun _ => ?_
    exact ih.bind fun _ => trivial

lemma inputHeights_reads : Only ViewCall.Reads (inputHeights vin) := by
  induction vin with
  | nil => trivial
  | cons txin rest ih => exact reads_accessCoin.bind fun coin => ih.bind fun _ => trivial

lemma getP2SHSigOpCount_reads : Only ViewCall.Reads (getP2SHSigOpCount tx) := by
  unfold getP2SHSigOpCount
  split
  · trivial
  · exact inputCoins_reads.bind fun _ => trivial

lemma witnessInputSigOps_reads {coins : List (CTxIn × Coin)}
    : Only ViewCall.Reads (witnessInputSigOps flags coins nSigOps) := by
  induction coins generalizing nSigOps with
  | nil => trivial
  | cons input rest ih =>
    refine Only.bind ?_ fun _ => ih
    split
    · trivial
    · rename_i stop _
      cases stop <;> trivial

lemma getTransactionSigOpCost_reads : Only ViewCall.Reads (getTransactionSigOpCost tx flags) := by
  unfold getTransactionSigOpCost
  split
  · trivial
  · refine Only.bind ?_ fun _ => inputCoins_reads.bind fun _ => witnessInputSigOps_reads
    split
    · exact getP2SHSigOpCount_reads
    · trivial

section Scripts
variable {scripts : ScriptContext}

lemma runInline_reads {check : CScriptCheck} : Only ViewCall.Reads (runInline crypto scripts check) := by
  unfold runInline
  split
  · trivial
  · trivial
  · dsimp only
    split
    · split <;> trivial
    · trivial

lemma inputChecks_reads (nIn : Nat) : Only ViewCall.Reads (inputChecks crypto scripts tx flags nIn vin) := by
  induction vin generalizing nIn with
  | nil => trivial
  | cons txin rest ih =>
    refine reads_accessCoin.bind fun coin => ?_
    refine reads_assertThat.bind fun _ => ?_
    split
    · exact (ih _).bind fun _ => trivial
    · exact runInline_reads.bind fun _ => ih _

lemma checkInputs_reads : Only ViewCall.Reads (checkInputs crypto scripts tx flags) := by
  unfold checkInputs
  split
  · trivial
  · exact inputChecks_reads 0

lemma runQueued_reads {checks : List CScriptCheck} : Only ViewCall.Reads (runQueued crypto scripts checks) := by
  induction checks with
  | nil => trivial
  | cons check rest ih =>
    unfold runQueued
    split
    · exact ih
    · trivial
    · trivial

end Scripts

lemma connectInputs_reads : Only ViewCall.Reads (connectInputs params pindex tx nFees) := by
  refine checkTxInputs_reads.bind fun _ => ?_
  refine reads_ensure.bind fun _ => ?_
  refine inputHeights_reads.bind fun _ => ?_
  refine reads_orFault.bind fun _ => ?_
  exact reads_ensure.bind fun _ => trivial

lemma fees_read {state : Connecting} :
    Only ViewCall.Reads (if tx.isCoinBase then pure state.nFees
      else connectInputs params pindex tx state.nFees) := by
  split
  · trivial
  · exact connectInputs_reads

lemma noOverwrite_reads {o : Nat} {vout : List CTxOut} : Only ViewCall.Reads (noOverwrite crypto tx o vout) := by
  induction vout generalizing o with
  | nil => trivial
  | cons txout rest ih =>
    refine reads_haveCoin.bind fun _ => ?_
    exact reads_ensure.bind fun _ => ih

lemma checkBIP30_reads {vtx : List CTransaction} : Only ViewCall.Reads (checkBIP30 crypto vtx) := by
  induction vtx with
  | nil => trivial
  | cons tx rest ih => exact noOverwrite_reads.bind fun _ => ih

lemma bip30_reads {block : CBlock} {pindex : Ancestry} :
    Only ViewCall.Reads (if enforceBIP30 params pindex then checkBIP30 crypto block.vtx else pure ()) := by
  split
  · exact checkBIP30_reads
  · trivial

end Reading

end Dragonchain
