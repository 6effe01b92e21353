import Mathlib.Algebra.BigOperators.Ring.Finset
import Mathlib.Tactic.Linarith
import Dragonchain.Connect
import Dragonchain.CoinsTally

/-!
No block creates more than its subsidy. ConnectBlock takes from the tally of a view
what the inputs of its transactions are worth and adds what their outputs are worth.
The difference is the fees, which the coinbase may claim together with the subsidy
and nothing else.
-/

namespace Dragonchain

open Script Coins Command WriteBack Sums Finset Option

/-! The schedule. -/

variable {β α : Type} {bound bound' nHeight nSpendHeight : Int} {value : Unit} {pindex : Ancestry}
  {possible_overwrite first : Bool}

def halvedSubsidy (halvings : Nat) : Nat := if halvings ≥ 64 then 0 else 20807311 >>> halvings

variable (height : Nat)

lemma getBlockSubsidy_early (early : height < 3153600) : getBlockSubsidy height = 332988658 := by
  have small : (height : Int) < 3153600 := by omega
  simp [getBlockSubsidy, small]

lemma getBlockSubsidy_late :
    getBlockSubsidy ((3153600 + height : Nat) : Int) = (halvedSubsidy (height / 25228800) : Nat) := by
  have large : ¬ ((3153600 + height : Nat) : Int) < 3153600 := by omega
  have halvings : ((((3153600 + height : Nat) : Int) - 3153600) / 25228800).toNat = height / 25228800 := by omega
  simp only [getBlockSubsidy, large, if_false, halvings, halvedSubsidy]
  split <;> rfl

lemma getBlockSubsidy_nonneg : 0 ≤ getBlockSubsidy height := by
  rcases lt_or_ge height 3153600 with early | late
  · rw [getBlockSubsidy_early height early]
    decide
  · obtain ⟨after, rfl⟩ := Nat.exists_eq_add_of_le late
    rw [getBlockSubsidy_late]
    exact Int.natCast_nonneg _

/-- What the heights after the first half year add up to at most. -/
lemma sum_halvedSubsidy_le (count : Nat) :
    ∑ height ∈ range count, halvedSubsidy (height / 25228800) ≤ 25228800 * 41614605 := by
  have ends : ∀ step, 25 ≤ step → halvedSubsidy step = 0 := by
    intro step long
    unfold halvedSubsidy
    split
    · rfl
    · rw [Nat.shiftRight_eq_div_pow, Nat.div_eq_zero_iff]
      right
      exact lt_of_lt_of_le (by decide : 20807311 < 2 ^ 25) (Nat.pow_le_pow_right (by decide) long)
  have whole := sum_steps_le halvedSubsidy 25228800 25 count (by decide) ends
  have terms : ∑ step ∈ range 25, halvedSubsidy step = 41614605 := by decide
  rwa [terms] at whole

def totalSubsidy (height : Nat) : CAmount := ∑ below ∈ range height, getBlockSubsidy (below + 1 : Nat)

lemma totalSubsidy_succ : totalSubsidy (height + 1) = totalSubsidy height + getBlockSubsidy (height + 1 : Nat) :=
  sum_range_succ _ _

lemma totalSubsidy_le_MAX_MONEY : totalSubsidy height ≤ MAX_MONEY := by
  have early : ∀ count, count ≤ 3153599 →
      ∑ below ∈ range count, getBlockSubsidy (below + 1 : Nat) = count * 332988658 := by
    intro count few
    rw [sum_congr rfl fun below member => getBlockSubsidy_early (below + 1) (by
      have := mem_range.mp member
      omega)]
    simp
  have money : MAX_MONEY = 2100000000000000 := by decide
  unfold totalSubsidy
  rcases Nat.le_total height 3153599 with short | long
  · rw [early height short, money]
    show (height : Int) * 332988658 ≤ 2100000000000000
    omega
  · obtain ⟨after, rfl⟩ := Nat.exists_eq_add_of_le long
    rw [sum_range_add, early 3153599 le_rfl, money]
    have late : ∀ below ∈ range after, getBlockSubsidy (3153599 + below + 1 : Nat) =
        (halvedSubsidy (below / 25228800) : Nat) := by
      intro below _
      rw [show 3153599 + below + 1 = 3153600 + below by omega]
      exact getBlockSubsidy_late below
    rw [sum_congr rfl late, ← Nat.cast_sum]
    have rest := sum_halvedSubsidy_le after
    show ((3153599 : Nat) : Int) * 332988658 + (_ : Nat) ≤ 2100000000000000
    omega

/-! What a view holds, while a block is being connected. -/

variable {base : β} {stack final : ViewStack β}

section Accounts
variable [CCoinsView β]

structure Accounted (stack : ViewStack β) (bound : Int) : Prop where
  layered : stack.caches ≠ []
  settled : Settled stack.base stack.caches
  bounded : Bounded (holding stack.base stack.caches) bound

def shown (stack : ViewStack β) : COutPoint → Option Coin := content stack.base stack.caches

def worthIn (coins : COutPoint → Option Coin) (vin : List CTxIn) : Nat :=
  (vin.map fun txin => weight Coin.worth (coins txin.prevout)).sum

variable {outpoint : COutPoint} {tx : CTransaction} {nValueIn result txfee : CAmount}

lemma Accounted.widen (accounted : Accounted stack bound) (wider : bound ≤ bound') : Accounted stack bound' :=
  ⟨accounted.layered, accounted.settled, accounted.bounded.mono (fun _ => le_rfl) wider⟩

lemma reads_accounted {program : ViewM α} (reads : Only ViewCall.Reads program) {value : α}
    (ran : run (viewHandler raiseCoins) program stack = .ok (value, final)) :
    shown final = shown stack ∧ ∀ bound, Accounted stack bound → Accounted final bound := by
  obtain ⟨base, fetched⟩ := reads_fetched reads ran
  refine ⟨by rw [shown, base, fetched.content]; rfl, ?_⟩
  rintro bound ⟨layered, settled, bounded⟩
  refine ⟨fetched.present layered, by rw [base]; exact fetched.settled settled, ?_⟩
  have same : holding final.base final.caches = holding stack.base stack.caches := by
    funext outpoint
    rw [base, holding, fetched.tally]
    rfl
  rw [same]
  exact bounded

lemma spendCoin_accounted {moveout : Option Coin} (accounted : Accounted stack bound)
    (ran : run (viewHandler raiseCoins) (spendCoinCall outpoint) stack = .ok (moveout, final)) :
    Accounted final (bound - weight Coin.worth (shown stack outpoint)) ∧
      ∀ other, other ≠ outpoint → shown final other = shown stack other := by
  obtain ⟨base, caches⟩ := stack
  obtain ⟨layered, settled, bounded⟩ := accounted
  obtain ⟨cache, below, rfl⟩ := List.exists_cons_of_ne_nil layered
  obtain ⟨moved, cache', below', spent, settled', others, taken⟩ := spendCoin_tally outpoint settled
  have answered : viewHandler raiseCoins (.spendCoin outpoint) ⟨base, cache :: below⟩ =
      .ok (moved, ⟨base, cache' :: below'⟩) := by
    simp [viewHandler, spent]
  rw [spendCoinCall, run_request, answered] at ran
  cases ran
  refine ⟨⟨List.cons_ne_nil _ _, settled', ?_⟩, fun other differs => ?_⟩
  · apply bounded.lower (fun other differs => _) taken
    intro other differs
    simp [holding, others other differs]
  · simp [shown, ← tally_content, others other differs]

variable {vin : List CTxIn} {coin : Coin}

lemma addCoin_accounted (accounted : Accounted stack bound)
    (ran : run (viewHandler raiseCoins) (addCoinCall outpoint coin possible_overwrite) stack =
      .ok (value, final)) : Accounted final (bound + coin.worth) := by
  obtain ⟨base, caches⟩ := stack
  obtain ⟨layered, settled, bounded⟩ := accounted
  obtain ⟨cache, below, rfl⟩ := List.exists_cons_of_ne_nil layered
  cases added : Coins.addCoin cache outpoint coin possible_overwrite with
  | mk result cache' =>
    rw [addCoinCall, run_request] at ran
    simp only [viewHandler, added] at ran
    cases result with
    | error fault => cases ran
    | ok _ =>
      cases ran
      obtain ⟨settled', others, grown⟩ := addCoin_tally settled added
      refine ⟨List.cons_ne_nil _ _, settled', bounded.raise (fun other differs => ?_) grown⟩
      simp [holding, others other differs]

lemma accessCoin_shown (layered : stack.caches ≠ [])
    (ran : run (viewHandler raiseCoins) (accessCoinCall outpoint) stack = .ok (coin, final))
    (live : coin.isSpent = false) : shown stack outpoint = some coin := by
  obtain ⟨base, caches⟩ := stack
  obtain ⟨cache, below, rfl⟩ := List.exists_cons_of_ne_nil layered
  have same : coin = (Coins.accessCoin base (cache :: below) outpoint).1 := by
    cases ran
    rfl
  subst same
  exact accessCoin_live base cache below outpoint live

lemma sumInputs_worth (layered : stack.caches ≠ [])
    (ran : run (viewHandler raiseCoins) (sumInputs nSpendHeight nValueIn vin) stack =
      .ok (result, final)) : result = nValueIn + worthIn (shown stack) vin := by
  induction vin generalizing nValueIn stack with
  | nil =>
    cases ran
    simp [worthIn]
  | cons txin rest ih =>
    obtain ⟨coin, looked, ranAccess, ran⟩ := run_bind_ok ran
    obtain ⟨live, ran⟩ := assertThat_then ran
    obtain ⟨_, ran⟩ := ensure_then ran
    obtain ⟨range, ran⟩ := ensure_then ran
    have here := accessCoin_shown layered ranAccess (by simpa using live)
    obtain ⟨_, fetched⟩ := reads_fetched reads_accessCoin ranAccess
    have same := (reads_accounted reads_accessCoin ranAccess).1
    have value : (coin.worth : Int) = coin.out.nValue.toInt := by
      rw [Bool.and_eq_true, moneyRange_iff] at range
      exact Int.toNat_of_nonneg range.1.1
    rw [ih (fetched.present layered) ran, same]
    simp only [worthIn, List.map_cons, List.sum_cons, here, weight, map_some, getD_some, Nat.cast_add, value]
    ring

lemma getValueOut_eq {value : CAmount} (summed : tx.getValueOut = some value) : value = valueOut tx.vout := by
  have from_sum : ∀ (vout : List CTxOut) (start : CAmount), vout.foldlM (fun nValueOut out =>
      let next := nValueOut + out.nValue.toInt
      if !moneyRange out.nValue.toInt || !moneyRange next then none else some next) start =
        some value → value = start + valueOut vout := by
    intro vout
    induction vout with
    | nil =>
      rintro start ⟨⟩
      simp [valueOut]
    | cons out rest ih =>
      intro start summed
      obtain ⟨next, inRange, onward⟩ := bind_eq_some_iff.mp summed
      rw [ite_none_left_eq_some] at inRange
      obtain ⟨_, ⟨⟩⟩ := inRange
      rw [ih _ onward]
      simp only [valueOut, List.map_cons, List.sum_cons]
      ring
  simpa using from_sum tx.vout 0 summed

lemma checkTxInputs_fee (layered : stack.caches ≠ [])
    (ran : run (viewHandler raiseCoins) (checkTxInputs tx nSpendHeight) stack =
      .ok (txfee, final)) : txfee + valueOut tx.vout = worthIn (shown stack) tx.vin := by
  obtain ⟨_, looked, ranHave, ran⟩ := run_bind_ok ran
  obtain ⟨_, ran⟩ := ensure_then ran
  obtain ⟨nValueIn, summed, ranSum, ran⟩ := run_bind_ok ran
  obtain ⟨value, sum, ran⟩ := orFault_then ran
  obtain ⟨_, ran⟩ := ensure_then ran
  obtain ⟨_, ran⟩ := ensure_then ran
  cases ran
  obtain ⟨_, fetched⟩ := reads_fetched haveInputs_reads ranHave
  rw [sumInputs_worth (fetched.present layered) ranSum, getValueOut_eq sum,
    (reads_accounted haveInputs_reads ranHave).1]
  ring

lemma spendInputs_accounted {txundo : CTxUndo} (accounted : Accounted stack bound)
    (distinct : (vin.map CTxIn.prevout).Nodup)
    (ran : run (viewHandler raiseCoins) (spendInputs vin) stack = .ok (txundo, final)) :
    Accounted final (bound - worthIn (shown stack) vin) := by
  induction vin generalizing stack bound txundo with
  | nil =>
    cases ran
    simpa [worthIn] using accounted
  | cons txin rest ih =>
    obtain ⟨moveout, spent, ranSpend, ran⟩ := run_bind_ok ran
    obtain ⟨_, _, ran⟩ := orFault_then ran
    obtain ⟨undo, _, ranRest, ran⟩ := run_bind_ok ran
    cases ran
    rw [List.map_cons, List.nodup_cons] at distinct
    obtain ⟨taken, others⟩ := spendCoin_accounted accounted ranSpend
    -- the other inputs are other outpoints, so what they are worth has not changed
    have same : worthIn (shown spent) rest = worthIn (shown stack) rest := by
      unfold worthIn
      congr 1
      apply List.map_congr_left
      intro input member
      rw [others]
      rintro repeated
      exact distinct.1 (repeated ▸ List.mem_map_of_mem member)
    have onward := ih taken distinct.2 ranRest
    rw [same] at onward
    apply onward.widen
    simp only [worthIn, List.map_cons, List.sum_cons, Nat.cast_add]
    omega

lemma addOutputs_accounted {vout : List CTxOut} {crypto : Crypto} {i : Nat}
    (accounted : Accounted stack bound) (positive : ∀ txout ∈ vout, 0 ≤ txout.nValue.toInt)
    (ran : run (viewHandler raiseCoins) (addOutputs crypto tx nHeight false i vout) stack =
      .ok (value, final)) : Accounted final (bound + valueOut vout) := by
  induction vout generalizing stack bound i with
  | nil =>
    cases ran
    simpa [valueOut] using accounted
  | cons txout rest ih =>
    obtain ⟨overwrite, _, ranFlag, ran⟩ := run_bind_ok ran
    cases ranFlag
    obtain ⟨_, added, ranAdd, ran⟩ := run_bind_ok ran
    have grown := addCoin_accounted accounted ranAdd
    have onward := ih grown (fun out member => positive out (List.mem_cons_of_mem _ member)) ran
    have worth : ((outputCoin tx nHeight txout).worth : Int) = txout.nValue.toInt :=
      Int.toNat_of_nonneg (positive txout List.mem_cons_self)
    apply onward.widen
    simp only [valueOut, List.map_cons, List.sum_cons]
    omega

/-! ConnectBlock. -/

section Blocks
variable {crypto : Crypto} {params : Consensus.Params} {scripts : ScriptContext}
  {state : Connecting} {flags : ScriptFlags} {hash : Uint256} {after : Connecting}

lemma connectTransaction_accounted
    (checked : CheckedTransaction tx) (accounted : Accounted stack bound) (ran : run (viewHandler raiseCoins)
      (connectTransaction scripts crypto params pindex flags first tx state) stack =
        .ok (after, final)) : (tx.isCoinBase = true → after.nFees = state.nFees ∧
      Accounted final (bound + valueOut tx.vout)) ∧
    (tx.isCoinBase = false → Accounted final (bound + state.nFees - after.nFees)) := by
  obtain ⟨nFees, inputs, ranFees, ran⟩ := run_bind_ok ran
  obtain ⟨_, costed, ranCost, ran⟩ := run_bind_ok ran
  obtain ⟨_, ran⟩ := ensure_then ran
  obtain ⟨_, verified, ranChecks, ran⟩ := run_bind_ok ran
  obtain ⟨txundo, updated, ranUpdate, ran⟩ := run_bind_ok ran
  cases ran
  obtain ⟨spentUndo, spent, ranSpend, ranUpdate⟩ := run_bind_ok ranUpdate
  obtain ⟨_, _, ranAdd, ranUpdate⟩ := run_bind_ok ranUpdate
  cases ranUpdate
  have positive : ∀ txout ∈ tx.vout, 0 ≤ txout.nValue.toInt := fun txout member => (checked.values txout member).1
  -- from the fees on to the updates nothing but reads
  obtain ⟨shownCost, costKept⟩ := reads_accounted getTransactionSigOpCost_reads ranCost
  obtain ⟨shownChecks, checksKept⟩ := reads_accounted checkInputs_reads ranChecks
  refine ⟨fun coinbase => ?_, fun ordinary => ?_⟩
  · rw [if_pos coinbase] at ranFees ranSpend
    cases ranFees
    cases ranSpend
    exact ⟨rfl, addOutputs_accounted (checksKept _ (costKept _ accounted)) positive ranAdd⟩
  · rw [ordinary] at ranFees ranSpend
    obtain ⟨shownFees, feesKept⟩ := reads_accounted connectInputs_reads ranFees
    obtain ⟨txfee, _, ranInputs, ranFees⟩ := run_bind_ok ranFees
    obtain ⟨_, ranFees⟩ := ensure_then ranFees
    obtain ⟨_, _, _, ranFees⟩ := run_bind_ok ranFees
    obtain ⟨_, _, _, ranFees⟩ := run_bind_ok ranFees
    obtain ⟨_, _, _, ranFees⟩ := run_bind_ok ranFees
    cases ranFees
    have fee := checkTxInputs_fee accounted.layered ranInputs
    have taken := spendInputs_accounted (checksKept _ (costKept _ (feesKept _ accounted))) checked.distinct ranSpend
    rw [shownChecks, shownCost, shownFees, ← fee] at taken
    apply (addOutputs_accounted taken positive ranAdd).widen
    dsimp only
    omega

lemma connectTransactions_accounted {vtx : List CTransaction}
    (checked : ∀ tx ∈ vtx, CheckedTransaction tx) (ordinary : ∀ tx ∈ vtx, tx.isCoinBase = false)
    (accounted : Accounted stack bound) (ran : run (viewHandler raiseCoins)
      (connectTransactions scripts crypto params pindex flags first vtx state) stack =
        .ok (after, final)) : Accounted final (bound + state.nFees - after.nFees) := by
  induction vtx generalizing first state stack bound with
  | nil =>
    cases ran
    exact accounted.widen (by omega)
  | cons tx rest ih =>
    obtain ⟨next, middle, ranTx, ran⟩ := run_bind_ok ran
    have step := (connectTransaction_accounted (checked tx List.mem_cons_self) accounted ranTx).2
      (ordinary tx List.mem_cons_self)
    have onward := ih (fun tx member => checked tx (List.mem_cons_of_mem _ member))
      (fun tx member => ordinary tx (List.mem_cons_of_mem _ member)) step ran
    exact onward.widen (by omega)

lemma connectBody_accounted {block : CBlock} (checked : CheckedBlock block) (accounted : Accounted stack bound)
    (ran : run (viewHandler raiseCoins) (connectBody scripts crypto params block pindex) stack =
      .ok (state, final)) : Accounted final (bound + getBlockSubsidy pindex.nHeight) := by
  obtain ⟨coinbase, rest, listed, isCoinBase, ordinary⟩ := checked.shape
  obtain ⟨_, overwritten, ranBIP30, ran⟩ := run_bind_ok ran
  obtain ⟨after, connected, ranTxs, ran⟩ := run_bind_ok ran
  obtain ⟨value, sum, ran⟩ := orFault_then ran
  obtain ⟨limited, ran⟩ := ensure_then ran
  obtain ⟨_, waited, ranQueue, ran⟩ := run_bind_ok ran
  cases ran
  have transactions := checked.transactions
  rw [listed] at ranTxs sum transactions
  have start := (reads_accounted bip30_reads ranBIP30).2 _ accounted
  obtain ⟨first, middle, ranFirst, ranRest⟩ := run_bind_ok ranTxs
  obtain ⟨noFees, paid⟩ := (connectTransaction_accounted (transactions coinbase List.mem_cons_self)
    start ranFirst).1 isCoinBase
  have spent := connectTransactions_accounted
    (fun tx member => transactions tx (List.mem_cons_of_mem _ member)) ordinary paid ranRest
  apply ((reads_accounted runQueued_reads ranQueue).2 _ spent).widen
  have claimed := getValueOut_eq sum
  simp only [gt_iff_lt, Bool.not_eq_true', decide_eq_false_iff_not, not_lt] at limited
  rw [noFees, ← claimed]
  linarith

lemma sameEntries_accounted {caches caches' : List CCoinsViewCache} (accounted : Accounted ⟨base, caches⟩ bound)
    (same : caches'.map CCoinsViewCache.cacheCoins = caches.map CCoinsViewCache.cacheCoins) :
    Accounted ⟨base, caches'⟩ bound := by
  obtain ⟨layered, settled, bounded⟩ := accounted
  obtain ⟨tallies, kept⟩ := tally_same_entries base same
  refine ⟨?_, kept settled, ?_⟩
  · rintro rfl
    exact layered (List.map_eq_nil_iff.mp same.symm)
  · have held : holding base caches' = holding base caches := by
      funext outpoint
      rw [holding, tallies, holding]
    rw [held]
    exact bounded

variable (accounted : Accounted stack bound)
include accounted

lemma getBestBlock_accounted
    (ran : run (viewHandler raiseCoins) getBestBlockCall stack = .ok (hash, final)) : Accounted final bound := by
  cases ran
  exact sameEntries_accounted accounted (getBestBlock_coins _ _)

lemma setBestBlock_accounted
    (ran : run (viewHandler raiseCoins) (setBestBlockCall hash) stack = .ok (value, final)) :
    Accounted final bound := by
  obtain ⟨base, caches⟩ := stack
  obtain ⟨cache, below, rfl⟩ := List.exists_cons_of_ne_nil accounted.layered
  cases ran
  exact sameEntries_accounted accounted rfl

/-- A connected block adds at most its subsidy to the view. -/
lemma connectBlock_accounted {object : BlockObject crypto params} {undo : Option CBlockUndo}
    (later : 0 ≤ getBlockSubsidy pindex.nHeight)
    (ran : run (viewHandler raiseCoins) (connectBlock scripts object pindex false) stack =
      .ok (undo, final)) : Accounted final (bound + getBlockSubsidy pindex.nHeight) := by
  obtain ⟨checked, looked, ranBest, effect⟩ := connectBlock_cases ran
  have start := getBestBlock_accounted accounted ranBest
  rcases effect with ⟨_, ranSet⟩ | ⟨connecting, connected, _, _, ranBody, ranSet, _⟩
  · exact (setBestBlock_accounted start ranSet).widen (by linarith)
  · exact setBestBlock_accounted (connectBody_accounted checked start ranBody) ranSet

end Blocks

end Accounts

/-! Chains of connected blocks. -/

section Chains
variable [CCoinsView β] (crypto : Crypto) (params : Consensus.Params)

/-- The view after the blocks up to `pindex` have been connected, the genesis block
first. Between two blocks caches are put on top, read, flushed, and dropped when
they are empty. -/
inductive Connected : Ancestry → ViewStack β → Prop
  | start (genesis : IndexEntry) (base : β) (cache : CCoinsViewCache)
      (noCoins : ∀ outpoint, CCoinsView.getCoin base outpoint = none)
      (noEntries : cache.cacheCoins = ∅) : Connected [genesis] ⟨base, [cache]⟩
  | connect {pindex : Ancestry} {entry : IndexEntry} {stack final : ViewStack β}
      {undo : Option CBlockUndo} (scripts : ScriptContext) (object : BlockObject crypto params)
      (before : Connected pindex stack)
      (ran : run (viewHandler raiseCoins) (connectBlock scripts object (entry :: pindex) false)
        stack = .ok (undo, final)) : Connected (entry :: pindex) final
  | read {pindex : Ancestry} {stack final : ViewStack β} {value : Bool} (outpoint : COutPoint)
      (before : Connected pindex stack)
      (ran : run (viewHandler raiseCoins) (haveCoinCall outpoint) stack = .ok (value, final)) :
      Connected pindex final
  | push {pindex : Ancestry} {stack : ViewStack β} (before : Connected pindex stack) :
      Connected pindex { stack with caches := {} :: stack.caches }
  | flush {pindex : Ancestry} {stack : ViewStack β} {base : β} {caches : List CCoinsViewCache}
      (order : Iteration) (before : Connected pindex stack)
      (flushed : Coins.flush order stack.base stack.caches = .ok (caches, base)) :
      Connected pindex ⟨base, caches⟩
  | drop {pindex : Ancestry} {base : β} {cache : CCoinsViewCache} {below : List CCoinsViewCache}
      (before : Connected pindex ⟨base, cache :: below⟩) (noEntries : cache.cacheCoins = ∅)
      (layered : below ≠ []) : Connected pindex ⟨base, below⟩

variable {crypto params}

lemma Connected.heights (connected : Connected crypto params pindex stack) : pindex ≠ [] := by
  induction connected with
  | start => exact List.cons_ne_nil _ _
  | connect => exact List.cons_ne_nil _ _
  | read _ _ _ ih => exact ih
  | push _ ih => exact ih
  | flush _ _ _ ih => exact ih
  | drop _ _ _ ih => exact ih

lemma holding_empty {cache : CCoinsViewCache} {below : List CCoinsViewCache}
    (noEntries : cache.cacheCoins = ∅) : holding base (cache :: below) = holding base below := by
  funext outpoint
  rw [holding, tally, noEntries, slots_empty]
  rfl

lemma connected_accounted (connected : Connected crypto params pindex stack) :
    Accounted stack (totalSubsidy (pindex.length - 1)) := by
  induction connected with
  | start genesis base cache noCoins noEntries =>
    refine ⟨List.cons_ne_nil _ _, ⟨fun outpoint => ?_, trivial⟩, ?_⟩
    · rw [noEntries]
      exact repeats_none
    · apply bounded_zero
      intro outpoint
      rw [holding_empty noEntries, holding, tally, noCoins]
      rfl
  | @connect pindex entry stack final undo scripts object before ran ih =>
    obtain ⟨first, rest, rfl⟩ := List.exists_cons_of_ne_nil before.heights
    have height : Ancestry.nHeight (entry :: first :: rest) = ((rest.length + 1 : Nat) : Int) := by
      simp [Ancestry.nHeight]
    have step := connectBlock_accounted ih (by rw [height]; exact getBlockSubsidy_nonneg _) ran
    rw [height] at step
    simpa [totalSubsidy_succ] using step
  | read outpoint before ran ih => exact (reads_accounted reads_haveCoin ran).2 _ ih
  | push before ih =>
    refine ⟨List.cons_ne_nil _ _, ⟨fun _ => repeats_none, ih.settled⟩, ?_⟩
    exact ih.bounded
  | @flush pindex stack base caches order before flushed ih =>
    obtain ⟨base, caches⟩ := stack
    obtain ⟨cache, below, rfl⟩ := List.exists_cons_of_ne_nil ih.layered
    obtain ⟨settled, layered, lower⟩ := flush_tally ih.settled flushed
    exact ⟨layered, settled, ih.bounded.mono lower le_rfl⟩
  | drop before noEntries layered ih =>
    refine ⟨layered, ih.settled.2, ?_⟩
    rw [← holding_empty noEntries]
    exact ih.bounded

def unspentValue (stack : ViewStack β) (outpoint : COutPoint) : CAmount :=
  match content stack.base stack.caches outpoint with
  | some coin => coin.out.nValue.toInt
  | none => 0

/-- However many blocks were connected, any unspent coins of the view add up to at most
the subsidies of the connected heights, and those never exceed MAX_MONEY. -/
theorem supply_bounded {pindex : Ancestry} {stack : ViewStack β}
    (connected : Connected crypto params pindex stack) (unspent : Finset COutPoint) :
    ∑ outpoint ∈ unspent, unspentValue stack outpoint ≤
        ∑ height ∈ Finset.Icc 1 (pindex.length - 1), getBlockSubsidy height ∧
      ∀ height : Nat, ∑ below ∈ Finset.Icc 1 height, getBlockSubsidy below ≤ MAX_MONEY := by
  have total : ∀ height : Nat, ∑ below ∈ Finset.Icc 1 height, getBlockSubsidy below = totalSubsidy height := by
    intro height
    rw [totalSubsidy, Finset.range_eq_Ico, Finset.sum_Ico_add' (fun below : Nat => getBlockSubsidy below)]
    rfl
  refine ⟨?_, fun height => ?_⟩
  · rw [total]
    have held := (connected_accounted connected).bounded unspent
    have each : ∀ outpoint ∈ unspent, unspentValue stack outpoint ≤
        (holding stack.base stack.caches outpoint : Int) := by
      intro outpoint _
      have visible := content_le_holding stack.base stack.caches outpoint
      unfold unspentValue
      cases found : content stack.base stack.caches outpoint with
      | none => exact Int.natCast_nonneg _
      | some coin =>
        rw [found] at visible
        exact (Int.self_le_toNat _).trans (Int.ofNat_le.mpr visible)
    rw [Nat.cast_sum] at held
    exact (sum_le_sum each).trans held
  · rw [total]
    exact totalSubsidy_le_MAX_MONEY height

end Chains

/-! A chain of one block, whose coinbase claims the whole subsidy. -/

namespace FirstBlock

def coinbase : CTransaction :=
  ⟨[{ prevout := ⟨Uint256.null, 0xffffffff⟩, scriptSig := [OP_1, OP_1], nSequence := 0xffffffff }],
    [⟨332988658, [OP_1]⟩], 1, 0⟩

def block : CBlock :=
  { nVersion := 1, hashPrevBlock := Uint256.filled 3, hashMerkleRoot := Uint256.null, nTime := 0,
    nBits := 0x1d00ffff, nNonce := 0, vtx := [coinbase] }

def chain : Ancestry := [⟨Uint256.null, block.toCBlockHeader⟩, ⟨Uint256.filled 3, block.toCBlockHeader⟩]

def connected : Except Validation (Option CBlockUndo × ViewStack CCoinsViewDB) :=
  run (viewHandler raiseCoins)
    (connectBlock .inline (⟨block, false, nofun⟩ : BlockObject Crypto.zeros .easy) chain false)
    ⟨CCoinsViewDB.empty, [{ hashBlock := Uint256.filled 3 }]⟩

end FirstBlock

theorem supply_bounded_firstBlock : ∃ stack : ViewStack CCoinsViewDB,
      Connected Crypto.zeros Consensus.Params.easy FirstBlock.chain stack ∧
      unspentValue stack ⟨Uint256.null, 0⟩ = getBlockSubsidy 1 ∧
      ∑ outpoint ∈ {⟨Uint256.null, 0⟩}, unspentValue stack outpoint ≤
        ∑ height ∈ Finset.Icc 1 (FirstBlock.chain.length - 1), getBlockSubsidy height := by
  have paid : (match FirstBlock.connected with
      | .ok result => unspentValue result.2 ⟨Uint256.null, 0⟩
      | .error _ => 0) = getBlockSubsidy 1 := by decide +kernel
  cases ran : FirstBlock.connected with
  | error stop =>
    rw [ran] at paid
    cases paid
  | ok result =>
    rw [ran] at paid
    have chained : Connected Crypto.zeros Consensus.Params.easy FirstBlock.chain result.2 :=
      .connect .inline ⟨FirstBlock.block, false, nofun⟩
        (.start _ CCoinsViewDB.empty { hashBlock := Uint256.filled 3 } (fun _ => rfl) rfl) ran
    exact ⟨result.2, chained, paid, (supply_bounded chained _).1⟩

end Dragonchain
