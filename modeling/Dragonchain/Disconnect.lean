import Dragonchain.Undo

/-!
ConnectBlock and DisconnectBlock on caches. Every call they make is one that the
caches answer as the plain map does: ConnectBlock spends coins it has looked up, and
DisconnectBlock asks HaveCoin before it adds a coin and treats a coin that was not
there like one that differs. What was shown on the plain map therefore holds on the
caches.
-/

namespace Dragonchain

open Script Serialization Coins Command List Option

variable {crypto : Crypto} {fClean first check : Bool} {view final : PlainView} {tx : CTransaction}
  {nHeight : Int} {params : Consensus.Params} {scripts : ScriptContext} {α γ β : Type}
  {pindex : Ancestry} {vout : List CTxOut} {next : α → ViewM γ} {program : ViewM α}

section Allowed
variable {undo : Coin} {out : COutPoint}

lemma reads_allowed (reads : Only ViewCall.Reads program) : Along onPlain Allowed program view := by
  apply reads.along
  intro view call next isRead
  cases call with
  | haveCoin outpoint => trivial
  | accessCoin outpoint => trivial
  | _ => exact isRead.elim

lemma allowed_then
    (first : Along onPlain Allowed program view)
    (rest : ∀ value final, run onPlain program view = .ok (value, final) →
      Along onPlain Allowed (next value) final) : Along onPlain Allowed (program >>= next) view :=
  along_bind program view allowed_bind first rest

lemma accessByTxid_reads (txid : Uint256) (fuel n : Nat) : Only ViewCall.Reads (accessByTxid txid fuel n) := by
  induction fuel generalizing n with
  | zero => trivial
  | succ fuel ih =>
    refine reads_accessCoin.bind fun alternate => ?_
    split
    · trivial
    · exact ih _

lemma restoreCoin_allowed (vacant : fClean = true → view.coins out = none) :
    Along onPlain Allowed (restoreCoin undo fClean out) view := by
  refine ⟨fun _ strict => vacant (by simpa using strict), fun _ _ _ => trivial⟩

lemma applyTxInUndo_allowed : Along onPlain Allowed (applyTxInUndo undo out) view := by
  refine allowed_then (reads_allowed reads_haveCoin) fun found final ran => ?_
  cases ran
  have vacant : (!(view.coins out).isSome) = true → view.coins out = none := by
    intro gone
    simpa using gone
  split
  · have reads := accessByTxid_reads out.hash MAX_OUTPUTS_PER_BLOCK 0
    refine allowed_then (reads_allowed reads) fun alternate final ran => ?_
    rw [reads_plain reads ran]
    split
    · exact restoreCoin_allowed vacant
    · trivial
  · exact restoreCoin_allowed vacant

lemma restoreInputs_allowed {inputs : List (CTxIn × Coin)} :
    Along onPlain Allowed (restoreInputs fClean inputs) view := by
  induction inputs generalizing fClean view with
  | nil => trivial
  | cons input rest ih =>
    refine allowed_then applyTxInUndo_allowed fun res final _ => ?_
    split
    · trivial
    · exact ih

variable {block : CBlock}

lemma removeOutputs_allowed
    (values : ∀ txout ∈ vout, txout.nValue ≠ -1) (fClean : Bool) (o : Nat) (view : PlainView) :
    Along onPlain Allowed (removeOutputs crypto tx nHeight fClean o vout) view := by
  induction vout generalizing fClean o view with
  | nil => trivial
  | cons txout rest ih =>
    have later := ih fun out member => values out (mem_cons_of_mem _ member)
    rw [removeOutputs]
    split
    · refine ⟨fun _ => ?_, fun moveout final _ => later _ _ final⟩
      -- the cleared coin has no output of the transaction
      have differs : (txout != Coin.empty.out) = true := by
        rw [bne_iff_ne]
        rintro rfl
        exact values _ mem_cons_self rfl
      show removeOutputs crypto tx nHeight _ (o + 1) rest = removeOutputs crypto tx nHeight _ (o + 1) rest
      simp [differs]
    · exact later _ _ view

lemma disconnectTransactions_allowed {txs : List (CTransaction × Option CTxUndo)}
    (values : ∀ it ∈ txs, ∀ txout ∈ it.1.vout, txout.nValue ≠ -1) (fClean : Bool) (view : PlainView) :
    Along onPlain Allowed (disconnectTransactions crypto nHeight fClean txs) view := by
  induction txs generalizing fClean view with
  | nil => trivial
  | cons it rest ih =>
    obtain ⟨tx, txundo⟩ := it
    have here : Along onPlain Allowed (disconnectTransaction crypto tx nHeight txundo fClean) view := by
      refine allowed_then (removeOutputs_allowed (values _ mem_cons_self) _ _ view) fun clean final _ => ?_
      cases txundo with
      | none => trivial
      | some vprevout =>
        dsimp only
        split
        · trivial
        · exact restoreInputs_allowed
    refine allowed_then here fun clean final _ => ?_
    cases clean with
    | none => trivial
    | some clean => exact ih (fun it member => values it (mem_cons_of_mem _ member)) clean final

lemma disconnectBlock_allowed {undoRead : Option CBlockUndo}
    (values : ∀ tx ∈ block.vtx, ∀ txout ∈ tx.vout, txout.nValue ≠ -1) :
    Along onPlain Allowed (disconnectBlock crypto block pindex undoRead) view := by
  cases undoRead with
  | none => trivial
  | some vtxundo =>
    rw [disconnectBlock]
    split
    · trivial
    · have members : ∀ it ∈ undoOrder block vtxundo, ∀ txout ∈ it.1.vout, txout.nValue ≠ -1 := by
        intro it member
        exact values _ (of_mem_zip (mem_reverse.mp member)).1
      refine allowed_then (disconnectTransactions_allowed members true view) fun clean final _ => ?_
      cases clean with
      | none => trivial
      | some fClean =>
        cases pindex.tail.head? with
        | none => trivial
        | some pprev => exact ⟨trivial, fun _ _ _ => trivial⟩

lemma transaction_values (checked : CheckedTransaction tx) : ∀ txout ∈ tx.vout, txout.nValue ≠ -1 := by
  rintro txout member negative
  have value := (checked.values txout member).1
  rw [negative] at value
  exact absurd value (by decide)

lemma checked_values (checked : CheckedBlock block) : ∀ tx ∈ block.vtx, ∀ txout ∈ tx.vout, txout.nValue ≠ -1 :=
  fun tx listed => transaction_values (checked.transactions tx listed)

end Allowed

section Known
/-- SpendCoin is called for coins that are there. -/
def Known (coins : PlainMap) : ViewCall → Prop
  | .spendCoin outpoint => coins outpoint ≠ none
  | _ => True

abbrev SpendsKnown {α : Type} (program : ViewM α) (view : PlainView) : Prop :=
  Along onPlain (fun view call _ => Known view.coins call) program view

def ViewCall.NoSpend : ViewCall → Prop
  | .spendCoin _ => False
  | _ => True

lemma getBestBlock_noSpend : Only ViewCall.NoSpend (getBestBlockCall : ViewM Uint256) := only_request trivial

lemma setBestBlock_noSpend {hash : Uint256} : Only ViewCall.NoSpend (setBestBlockCall hash : ViewM Unit) :=
  only_request trivial

lemma spendsKnown_of_only {allowed : ViewCall → Prop} (only : Only allowed program)
    (spares : ∀ outpoint, ¬ allowed (.spendCoin outpoint)) : SpendsKnown program view := by
  apply only.along
  intro view call next kept
  cases call with
  | spendCoin outpoint => exact (spares outpoint kept).elim
  | _ => trivial

lemma noSpend_known (noSpend : Only ViewCall.NoSpend program) : SpendsKnown program view :=
  spendsKnown_of_only noSpend (fun _ => id)

variable {flags : ScriptFlags} {vin : List CTxIn} {state : Connecting}

lemma known_then (first : SpendsKnown program view)
    (rest : ∀ value final, run onPlain program view = .ok (value, final) → SpendsKnown (next value) final) :
    SpendsKnown (program >>= next) view :=
  along_bind program view (fun _ _ _ known => known) first rest

lemma reads_then (reads : Only ViewCall.Reads program)
    (rest : ∀ value, run onPlain program view = .ok (value, view) → SpendsKnown (next value) view) :
    SpendsKnown (program >>= next) view := by
  refine known_then (spendsKnown_of_only reads (fun _ => id)) fun value final ran => ?_
  have same := reads_plain reads ran
  subst same
  exact rest value ran

lemma addOutputs_noSpend {i : Nat} : Only ViewCall.NoSpend (addOutputs crypto tx nHeight check i vout) := by
  induction vout generalizing i with
  | nil => trivial
  | cons txout rest ih =>
    refine Only.bind ?_ fun overwrite => ?_
    · split
      · exact only_request trivial
      · trivial
    · exact (only_request trivial).bind fun _ => ih

lemma haveEach_present (ran : run onPlain (haveEach vin) view = .ok (true, final)) :
    ∀ txin ∈ vin, view.coins txin.prevout ≠ none := by
  induction vin with
  | nil => simp
  | cons first rest ih =>
    obtain ⟨found, looked, ranFirst, ran⟩ := run_bind_ok ran
    cases ranFirst
    cases held : view.coins first.prevout with
    | none =>
      rw [held] at ran
      cases ran
    | some coin =>
      rw [held] at ran
      rintro txin (_ | ⟨_, later⟩)
      · rw [held]
        exact some_ne_none coin
      · exact ih ran txin later

lemma connectInputs_present {nFees fees : CAmount} (ordinary : tx.isCoinBase = false)
    (ran : run onPlain (connectInputs params pindex tx nFees) view =
      .ok (fees, final)) : ∀ txin ∈ tx.vin, view.coins txin.prevout ≠ none := by
  obtain ⟨_, _, ranInputs, _⟩ := run_bind_ok ran
  obtain ⟨available, looked, ranHave, ranInputs⟩ := run_bind_ok ranInputs
  obtain ⟨present, _⟩ := ensure_then ranInputs
  rw [present, haveInputs, ordinary, if_neg Bool.false_ne_true] at ranHave
  exact haveEach_present ranHave

lemma spendInputs_known (present : ∀ txin ∈ vin, view.coins txin.prevout ≠ none)
    (distinct : (vin.map CTxIn.prevout).Nodup) : SpendsKnown (spendInputs vin) view := by
  induction vin generalizing view with
  | nil => trivial
  | cons txin rest ih =>
    rw [map_cons, nodup_cons] at distinct
    have spend : SpendsKnown (spendCoinCall txin.prevout) view := ⟨present txin mem_cons_self, fun _ _ _ => trivial⟩
    refine known_then spend fun moveout spent ranSpend => ?_
    cases ranSpend
    refine reads_then reads_orFault fun coin _ => ?_
    refine known_then (ih (fun input member => ?_) distinct.2) fun _ _ _ => trivial
    show Function.update view.coins txin.prevout none input.prevout ≠ none
    rw [Function.update_of_ne]
    · exact present input (mem_cons_of_mem _ member)
    · rintro repeated
      exact distinct.1 (repeated ▸ mem_map_of_mem member)

lemma connectTransaction_known (checked : CheckedTransaction tx) : SpendsKnown
      (connectTransaction scripts crypto params pindex flags first tx state) view := by
  refine reads_then fees_read fun nFees ranFees => ?_
  refine reads_then getTransactionSigOpCost_reads fun cost _ => ?_
  refine reads_then reads_ensure fun _ _ => ?_
  refine reads_then checkInputs_reads fun vChecks _ => ?_
  refine known_then ?_ fun _ _ _ => trivial
  refine known_then ?_ fun txundo spent _ => ?_
  · cases coinbase : tx.isCoinBase with
    | true => trivial
    | false =>
      rw [coinbase, if_neg Bool.false_ne_true] at ranFees
      exact spendInputs_known (connectInputs_present coinbase ranFees) checked.distinct
  · exact known_then (noSpend_known addOutputs_noSpend) fun _ _ _ => trivial

lemma connectTransactions_known
    {vtx : List CTransaction} (checked : ∀ tx ∈ vtx, CheckedTransaction tx) (view : PlainView) : SpendsKnown
      (connectTransactions scripts crypto params pindex flags first vtx state) view := by
  induction vtx generalizing first state view with
  | nil => trivial
  | cons tx rest ih =>
    refine known_then (connectTransaction_known (checked tx mem_cons_self)) ?_
    intro next middle _
    exact ih (fun tx member => checked tx (mem_cons_of_mem _ member)) middle

lemma connectBody_known {block : CBlock} (checked : CheckedBlock block) : SpendsKnown
      (connectBody scripts crypto params block pindex) view := by
  refine reads_then bip30_reads fun _ _ => ?_
  refine known_then (connectTransactions_known checked.transactions view) fun state final _ => ?_
  refine reads_then reads_orFault fun _ _ => ?_
  refine reads_then reads_ensure fun _ _ => ?_
  exact reads_then runQueued_reads fun _ _ => trivial

lemma connectBlock_known {object : BlockObject crypto params} :
    SpendsKnown (connectBlock scripts object pindex false) view := by
  refine reads_then reads_assertThat fun _ _ => ?_
  refine reads_then only_ofExcept fun checked ranCheck => ?_
  have sound := checkedBlock_of_ok (run_ofExcept_ok ranCheck)
  refine known_then (noSpend_known getBestBlock_noSpend) fun best looked _ => ?_
  refine reads_then reads_assertThat fun _ _ => ?_
  split
  · exact noSpend_known (setBestBlock_noSpend.bind fun _ => only_pure)
  · refine reads_then reads_assertThat fun _ _ => ?_
    refine known_then (connectBody_known sound) fun state final _ => ?_
    exact noSpend_known (setBestBlock_noSpend.bind fun _ => only_pure)

end Known

section Undone
variable [CCoinsView β] {object : BlockObject crypto params} {undo : CBlockUndo}

lemma plain_disconnected {connected : PlainView} (high : pindex.nHeight < 2 ^ 31) (restorable : Restorable view.coins)
    (along : Along onPlain (fun view call _ => AddsToVacant view.coins call)
      (connectBlock scripts object pindex false) view)
    (ran : run onPlain (connectBlock scripts object pindex false) view = .ok (some undo, connected)) :
    Restorable connected.coins ∧ UndoData object.block undo ∧ ∃ pprev : IndexEntry,
      run onPlain getBestBlockCall view = .ok (pprev.hash, { view with hashBlock := pprev.hash }) ∧
      run onPlain (disconnectBlock crypto object.block pindex (some undo)) connected =
        .ok (.DISCONNECT_OK, { view with hashBlock := pprev.hash }) := by
  obtain ⟨checked, looked, ranBest, effect⟩ := connectBlock_cases ran
  rcases effect with ⟨none, _⟩ | ⟨connecting, final, written, later, ranBody, ranSet, alongBody⟩
  · cases none
  cases written
  obtain ⟨pprev, rest, tail⟩ := exists_cons_of_ne_nil later
  rw [tail, head?_cons, map_some, getD_some] at ranBest
  -- GetBestBlock leaves its answer in the cache
  have answered : looked = { view with hashBlock := pprev.hash } := by
    rw [getBestBlockCall, run_request] at ranBest
    simp only [plainHandler] at ranBest
    split at ranBest
    · obtain ⟨best, rfl⟩ := Prod.mk.inj (Except.ok.inj ranBest)
      rw [best]
    · obtain ⟨best, rfl⟩ := Prod.mk.inj (Except.ok.inj ranBest)
      rw [← best]
  subst answered
  have low : 0 < pindex.nHeight := by
    have longer := congrArg List.length tail
    simp only [length_tail, length_cons] at longer
    simp only [Ancestry.nHeight]
    omega
  have kept : Restorable ({ view with hashBlock := pprev.hash } : PlainView).coins := restorable
  obtain ⟨keptAfter, data, undone⟩ := connectBody_undone checked low high kept (alongBody _ along) ranBody
  cases ranSet
  refine ⟨keptAfter, data, pprev, ranBest, ?_⟩
  have below := run_belowBest ranBody
  rw [disconnectBlock, if_neg (not_not_intro data.length), run_bind_of_ok (undone { final with
      hashBlock := getBlockHash crypto object.block.toCBlockHeader })]
  simp only [tail, head?_cons, below]
  rfl

/-- A UTXO view: caches that keep the promise of their flags, with no coin at height 0
and none that AddCoin would not have stored. -/
structure IsUTXOView (stack : ViewStack β) : Prop where
  coherent : Coherent stack.base stack.caches
  layered : stack.caches ≠ []
  spendable : ∀ outpoint coin, content stack.base stack.caches outpoint = some coin →
    isUnspendable coin.out.scriptPubKey = false
  heights : ∀ outpoint coin, content stack.base stack.caches outpoint = some coin → coin.nHeight ≠ 0

/-- No AddCoin of a run replaces a coin of the view. -/
structure NoOverwrite {α : Type} (program : ViewM α) (stack : ViewStack β) : Prop where
  along : Along (viewHandler raiseCoins)
    (fun stack call _ => AddsToVacant (content stack.base stack.caches) call) program stack

/-- An accepted block, followed on the plain map that the caches show. -/
lemma accepted_plain {stack connected : ViewStack β} (utxo : IsUTXOView stack) (isInt : pindex.nHeight < 2 ^ 31)
    (accepted : run (viewHandler raiseCoins) (connectBlock scripts object pindex false) stack =
      .ok (some undo, connected)) (noOverwrite : NoOverwrite (connectBlock scripts object pindex false) stack) :
    ∃ view connectedView, Shows stack view ∧ Shows connected connectedView ∧
      run onPlain (connectBlock scripts object pindex false) view = .ok (some undo, connectedView) ∧
      Restorable connectedView.coins ∧ UndoData object.block undo ∧ ∃ pprev : IndexEntry,
        run onPlain getBestBlockCall view = .ok (pprev.hash, { view with hashBlock := pprev.hash }) ∧
        run onPlain (disconnectBlock crypto object.block pindex (some undo)) connectedView =
          .ok (.DISCONNECT_OK, { view with hashBlock := pprev.hash }) := by
  obtain ⟨view, shows⟩ := shows_of_coherent utxo.coherent utxo.layered
  -- the two conditions on the calls, brought together on the plain map
  have along : Along onPlain
      (fun view call next => Allowed view call next ∧ AddsToVacant view.coins call)
      (connectBlock scripts object pindex false) view := by
    apply along_transfer Shows _ _ _ _ _ shows noOverwrite.along connectBlock_known
    · intro stack view call next shows vacant known
      rw [shows.coins] at vacant
      refine ⟨?_, vacant⟩
      cases call with
      | addCoin outpoint coin possible_overwrite => exact fun spendable _ => vacant spendable
      | spendCoin outpoint => exact fun gone => absurd gone known
      | _ => trivial
    · intro stack view call next shows allowed
      exact call_shows next shows allowed.1
  obtain ⟨connectedView, ran, showsConnected⟩ :=
    (program_shows shows (along.mono fun _ _ _ both => both.1)).ok_right accepted
  have restorable : Restorable view.coins := by
    intro outpoint coin held
    rw [← shows.coins] at held
    exact ⟨content_unspent _ _ _ _ held, utxo.spendable _ _ held, utxo.heights _ _ held⟩
  exact ⟨view, connectedView, shows, showsConnected, ran,
    plain_disconnected isInt restorable (along.mono fun _ _ _ both => both.2) ran⟩

/-- A block that ConnectBlock accepts and writes undo data for, without replacing a coin,
leaves a UTXO view. DisconnectBlock undoes it cleanly: the caches then show the coins
and the best block they had. -/
theorem disconnectBlock_undoes {object : BlockObject crypto params} {pindex : Ancestry}
    {undo : CBlockUndo} {stack connected : ViewStack β} (utxo : IsUTXOView stack)
    (isInt : pindex.nHeight < 2 ^ 31)
    (accepted : run (viewHandler raiseCoins) (connectBlock scripts object pindex false) stack =
      .ok (some undo, connected)) (noOverwrite : NoOverwrite (connectBlock scripts object pindex false) stack) :
    IsUTXOView connected ∧ ∃ disconnected,
      run (viewHandler raiseCoins) (disconnectBlock crypto object.block pindex (some undo)) connected =
        .ok (.DISCONNECT_OK, disconnected) ∧
      content disconnected.base disconnected.caches = content stack.base stack.caches ∧
      (Coins.getBestBlock disconnected.base disconnected.caches).1 =
        (Coins.getBestBlock stack.base stack.caches).1 := by
  obtain ⟨view, connectedView, shows, showsConnected, ran, kept, _, pprev, ranBest, undone⟩ :=
    accepted_plain utxo isInt accepted noOverwrite
  have values := checked_values (connectBlock_cases ran).1
  obtain ⟨disconnected, ranBack, showsBack⟩ :=
    (program_shows showsConnected (disconnectBlock_allowed values)).ok_left undone
  have after : IsUTXOView connected := by
    obtain ⟨cache, below, same, _⟩ := showsConnected.hashes
    refine ⟨showsConnected.coherent, by rw [same]; exact cons_ne_nil _ _, ?_, ?_⟩
    · intro outpoint coin held
      rw [showsConnected.coins] at held
      exact (kept outpoint coin held).2.1
    · intro outpoint coin held
      rw [showsConnected.coins] at held
      exact (kept outpoint coin held).2.2
  refine ⟨after, disconnected, ranBack, ?_, ?_⟩
  · rw [showsBack.coins, shows.coins]
  · rw [showsBack.bestBlock, shows.bestBlock]
    rw [getBestBlockCall, run_request] at ranBest
    simp only [plainHandler] at ranBest
    split_ifs at ranBest with unset
    · have best := (Prod.mk.inj (Except.ok.inj ranBest)).1
      simp only [best, unset, if_true]
      split <;> rfl
    · have best := (Prod.mk.inj (Except.ok.inj ranBest)).1
      simp [best]

end Undone

/-! A block whose last transaction spends an output of the one before it. -/

namespace SpendingBlock

def outpoint : COutPoint := ⟨Uint256.filled 7, 0⟩

def coin : Coin := ⟨⟨10, [OP_1]⟩, false, 1⟩

def db : CCoinsViewDB where
  coins other := if other = outpoint then some coin else none
  bestBlock := none
  headBlocks := none
  unspent other found held := by
    split at held
    · cases held
      rfl
    · cases held

def transaction (prevout : COutPoint) (nLockTime : UInt32) : CTransaction :=
  ⟨[{ prevout, scriptSig := [OP_1, OP_1], nSequence := 0xffffffff }], [⟨10, [OP_1]⟩], 1, nLockTime⟩

def coinbase : CTransaction := transaction ⟨Uint256.null, 0xffffffff⟩ 1
def spend : CTransaction := transaction outpoint 2
def spendAgain : CTransaction := transaction ⟨getHash Crypto.suffixes spend, 0⟩ 3

def block : CBlock :=
  { nVersion := 1, hashPrevBlock := Uint256.filled 3,
    hashMerkleRoot := getHash Crypto.suffixes spendAgain, nTime := 0, nBits := 0x1d00ffff,
    nNonce := 0, vtx := [coinbase, spend, spendAgain] }

def chain : Ancestry :=
  [⟨getBlockHash Crypto.suffixes block.toCBlockHeader, block.toCBlockHeader⟩,
    ⟨Uint256.filled 3, block.toCBlockHeader⟩]

def stack : ViewStack CCoinsViewDB := ⟨db, [{ hashBlock := Uint256.filled 3 }]⟩

def object : BlockObject Crypto.suffixes Consensus.Params.easy := ⟨block, false, nofun⟩

abbrev connect : ViewM (Option CBlockUndo) := connectBlock .inline object chain false

def vacant (stack : ViewStack CCoinsViewDB) : ViewCall → Bool
  | .addCoin outpoint coin _ =>
    isUnspendable coin.out.scriptPubKey || (content stack.base stack.caches outpoint).isNone
  | _ => true

lemma vacant_sound {stack : ViewStack CCoinsViewDB} {call : ViewCall} (tested : vacant stack call = true) :
    AddsToVacant (content stack.base stack.caches) call := by
  cases call with
  | addCoin outpoint coin possible_overwrite =>
    intro spendable
    simpa [vacant, spendable] using tested
  | _ => trivial

lemma noOverwrite_of_test (program : ViewM α) (stack : ViewStack CCoinsViewDB)
    (tested : alongTest (viewHandler raiseCoins) vacant program stack = true) : NoOverwrite program stack :=
  ⟨along_of_test (fun stack call _ => vacant_sound) program stack tested⟩

lemma utxo : IsUTXOView stack := by
  have shown : ∀ other found, content stack.base stack.caches other = some found → found = coin := by
    intro other found held
    change (if other = outpoint then some coin else none) = some found at held
    split at held
    · cases held
      rfl
    · cases held
  refine ⟨⟨fun _ => WriteBack.sound_none, ?_, trivial⟩, cons_ne_nil _ _, ?_, ?_⟩
  · rintro other entry ⟨⟩
  · intro other found held
    rw [shown other found held]
    rfl
  · intro other found held
    rw [shown other found held]
    decide

end SpendingBlock

open SpendingBlock

theorem disconnectBlock_undoes_spendingBlock : ∃ undo connected disconnected,
      run (viewHandler raiseCoins) connect stack = .ok (some undo, connected) ∧
      content connected.base connected.caches outpoint = none ∧
      run (viewHandler raiseCoins) (disconnectBlock Crypto.suffixes block
        chain (some undo)) connected = .ok (.DISCONNECT_OK, disconnected) ∧
      content disconnected.base disconnected.caches = content stack.base stack.caches := by
  obtain ⟨⟨found, connected⟩, ran, kept, gone⟩ : ∃ done, run (viewHandler raiseCoins) connect stack = .ok done ∧
      done.1.isSome = true ∧ (content done.2.base done.2.caches outpoint).isNone = true := by decide +kernel
  obtain ⟨undo, rfl⟩ := isSome_iff_exists.mp kept
  have noOverwrite := noOverwrite_of_test connect stack (by decide +kernel)
  obtain ⟨_, disconnected, undone, coins, _⟩ := disconnectBlock_undoes utxo (by decide) ran noOverwrite
  exact ⟨undo, connected, disconnected, ran, by simpa using gone, undone, coins⟩

end Dragonchain
