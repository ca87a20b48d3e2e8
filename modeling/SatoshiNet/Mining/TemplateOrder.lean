import Mathlib.Data.List.TakeWhile
import SatoshiNet.Mining.Template

/-!
What the choice of transactions guarantees about their order.  Parents always come first; the
classes are in order exactly when no transaction spends an output of one that must come after it.
-/

namespace SatoshiNet.Mining

open Lib Wire Chain List
open Heap

variable {lib : PayloadLib}

def classPriority : Option TxClass → ℕ
  | some c => c.priority
  | none => 0

def itemRank (item : TxPrioItem lib) : ℕ := rank lib item.tx

theorem itemRank_eq (item : TxPrioItem lib) : itemRank item = classPriority item.contract := by
  rw [itemRank, rank, item.contract_eq, contractMiningInfo]
  cases classifyTxForBlockOrder lib item.tx with
  | error e => rfl
  | ok found => cases found <;> rfl

theorem compareMiningOrder_respects {left right} {lh rh less}
    (h : compareMiningOrder left right lh rh = some less) :
    (less = true → classPriority left ≤ classPriority right) ∧
      (less = false → classPriority right ≤ classPriority left) := by
  rcases left with _ | left <;> rcases right with _ | right
  · cases h
  · cases h
    simp [classPriority]
  · cases h
    simp [classPriority]
  · simp only [compareMiningOrder] at h
    split at h
    · cases h
      simp only [decide_eq_true_eq, decide_eq_false_iff_not, classPriority]
      omega
    · rename_i heq
      rw [not_not] at heq
      exact ⟨fun _ => heq.le, fun _ => heq.ge⟩

theorem itemRank_of_none {a b : TxPrioItem lib} (h : txPQByContractOrdering a b = none) :
    itemRank a = 0 ∧ itemRank b = 0 := by
  rw [itemRank_eq, itemRank_eq]
  rw [txPQByContractOrdering] at h
  rcases hca : a.contract with _ | ca <;> rcases hcb : b.contract with _ | cb <;>
    rw [hca, hcb] at h
  · exact ⟨rfl, rfl⟩
  · cases h
  · cases h
  · simp only [compareMiningOrder] at h
    split_ifs at h

theorem lessFunc_respects (sortedByFee : Bool) :
    Respects (lessFunc sortedByFee : TxPrioItem lib → TxPrioItem lib → Bool) itemRank := by
  have hspec : ∀ (a b : TxPrioItem lib) (less : Bool), lessFunc sortedByFee a b = less →
      (less = true → itemRank a ≤ itemRank b) ∧ (less = false → itemRank b ≤ itemRank a) := by
    intro a b less h
    cases hord : txPQByContractOrdering a b with
    | none =>
      obtain ⟨ha, hb⟩ := itemRank_of_none hord
      rw [ha, hb]
      exact ⟨fun _ => le_rfl, fun _ => le_rfl⟩
    | some first =>
      have hfirst : first = less := by
        cases sortedByFee <;>
          simpa only [lessFunc, if_true, Bool.false_eq_true, if_false, txPQByFee, txPQByPriority,
            hord, Option.getD_some] using h
      rw [itemRank_eq, itemRank_eq, ← hfirst]
      exact compareMiningOrder_respects hord
  exact ⟨fun h => (hspec _ _ true h).1 rfl, fun h => (hspec _ _ false h).2 rfl⟩

/-! ### Dependencies -/

/-- The transaction spends an output of the transaction `h` that the chain does not have. -/
def Depends (src : Source) (tx : Tx) (h : Hash) : Prop :=
  isAnchorTx tx = false ∧ ∃ input ∈ tx.txIn, input.previousOutPoint.hash = h ∧
    src.available input.previousOutPoint = false

/-- Every input comes from the chain or from a transaction of the pool for which the same holds,
so that nothing but the verdicts and limits of the template keeps it out of a block. -/
inductive Choosable (src : Source) : Tx → Prop
  | intro {tx : Tx} {utxo : Bytes} (parent : TxIn → Tx) (mem : tx ∈ src.txs)
      (notCoinbase : isCoinBase tx = false) (funding : anchorFundingOf src tx = some utxo)
      (origin : ∀ input ∈ tx.txIn, utxo = [] → src.available input.previousOutPoint = false →
        (parent input).hash = input.previousOutPoint.hash)
      (ready : ∀ input ∈ tx.txIn, utxo = [] → src.available input.previousOutPoint = false →
        Choosable src (parent input)) : Choosable src tx

variable {chosen : List Tx} {h : Hash} {ins : List TxIn} {item : TxPrioItem lib}
  {rest : List (TxPrioItem lib)} {s s' : TemplateState lib} {src : Source} {t tx : Tx}
  {terms : Terms lib} {utxo : Bytes}

theorem Choosable.mem (h : Choosable src tx) : tx ∈ src.txs := by
  cases h with
  | intro parent mem => exact mem

def missing (src : Source) (ins : List TxIn) : List Hash :=
  (ins.filter fun input => !src.available input.previousOutPoint).map (·.previousOutPoint.hash)

theorem mem_missing : h ∈ missing src ins ↔ ∃ input ∈ ins, input.previousOutPoint.hash = h ∧
      src.available input.previousOutPoint = false := by
  simp only [missing, mem_map, mem_filter, Bool.not_eq_true', and_assoc]
  exact exists_congr fun _ => and_congr_right fun _ => and_comm

theorem scanInputs_eq (src) (ins) :
    scanInputs src ins = ((missing src ins).takeWhile src.haveTransaction,
      (missing src ins).all src.haveTransaction) := by
  induction ins with
  | nil => rfl
  | cons input rest ih =>
    rw [scanInputs, ih]
    cases hav : src.available input.previousOutPoint <;>
      cases hhave : src.haveTransaction input.previousOutPoint.hash <;> simp [missing, hav, hhave]

theorem scanInputs_mem (hmem : h ∈ (scanInputs src ins).1) :
    src.haveTransaction h = true ∧ ∃ input ∈ ins, input.previousOutPoint.hash = h ∧
      src.available input.previousOutPoint = false := by
  rw [scanInputs_eq] at hmem
  exact ⟨mem_takeWhile_imp hmem, mem_missing.mp ((takeWhile_sublist _).subset hmem)⟩

theorem scanInputs_complete (hdone : (scanInputs src ins).2 = true) (hmem : h ∈ missing src ins) :
    h ∈ (scanInputs src ins).1 := by
  rw [scanInputs_eq] at hdone ⊢
  rwa [takeWhile_eq_self_iff.mpr (all_eq_true.mp hdone)]

theorem anchor_input (h : isAnchorTx tx = true) {input} (hin : input ∈ tx.txIn) :
    input.previousOutPoint.hash = zeroHash := by
  rw [isAnchorTx, Tx.hasMarkerInput] at h
  split at h
  · rename_i only honly
    rw [honly, mem_singleton] at hin
    subst hin
    exact eq_of_beq (Bool.and_eq_true_iff.mp h).2
  · cases h

theorem scanTx_depends (hmem : h ∈ (scanTx src utxo tx).1) : Depends src tx h := by
  rw [scanTx] at hmem
  split at hmem
  · cases hmem
  obtain ⟨hhave, input, hin, hhash, hav⟩ := scanInputs_mem hmem
  refine ⟨?_, input, hin, hhash, hav⟩
  by_contra hanchor
  rw [Bool.not_eq_false] at hanchor
  rw [← hhash, anchor_input hanchor hin, src.zero_unknown] at hhave
  cases hhave

structure Known (src : Source) (item : TxPrioItem lib) : Prop where
  mem : item.tx ∈ src.txs
  notCoinbase : isCoinBase item.tx = false
  funding : anchorFundingOf src item.tx = some item.anchorFundingUtxo
  marker : isAnchorTx item.tx = true → item.anchorFundingUtxo = [] →
    ∀ input ∈ item.tx.txIn, src.available input.previousOutPoint = true

theorem Known.of_scan (htx : item.tx = tx) (hutxo : item.anchorFundingUtxo = utxo)
    (hmem : tx ∈ src.txs) (hcoinbase : isCoinBase tx = false)
    (hfunding : anchorFundingOf src tx = some utxo)
    (hscan : (scanTx src utxo tx).2 = true ∨ (scanTx src utxo tx).1 ≠ []) : Known src item := by
  subst htx hutxo
  refine ⟨hmem, hcoinbase, hfunding, fun hanchor hempty input hin => ?_⟩
  have hscanned : scanTx src item.anchorFundingUtxo item.tx = scanInputs src item.tx.txIn := by
    rw [scanTx, if_neg (not_not.mpr hempty)]
  rcases hscan with hdone | hdeps
  · rw [hscanned] at hdone
    by_contra hav
    rw [Bool.not_eq_true] at hav
    have hhave := (scanInputs_mem (scanInputs_complete hdone (mem_missing.mpr ⟨input, hin, rfl, hav⟩))).1
    rw [anchor_input hanchor hin, src.zero_unknown] at hhave
    cases hhave
  · obtain ⟨h, hh⟩ := exists_mem_of_ne_nil _ hdeps
    rw [(scanTx_depends hh).1] at hanchor
    cases hanchor

/-! ### What one turn of the loop does -/

/-- The three things that can become of an item taken off the queue. -/
inductive Turn (src : Source) (terms : Terms lib) (s : TemplateState lib) (item : TxPrioItem lib)
    (s' : TemplateState lib) : Prop
  | skip (queue : s'.queue.Perm s.queue) (waiting : s'.waiting = s.waiting)
      (chosen : s'.chosen = s.chosen) (sorted : s.sortedByFee = true → s'.sortedByFee = true)
  | requeue (queue : s'.queue.Perm (item :: s.queue)) (waiting : s'.waiting = s.waiting)
      (chosen : s'.chosen = s.chosen) (sorted : s.sortedByFee = false ∧ s'.sortedByFee = true)
  | take (present : inputsPresent src s.chosen item.tx = true)
      (queue : s'.queue.Perm (released item.tx.hash s.waiting ++ s.queue))
      (waiting : s'.waiting = stillWaiting item.tx.hash s.waiting)
      (chosen : s'.chosen = s.chosen ++ [item.tx])
      (sorted : s.sortedByFee = true → s'.sortedByFee = true)

theorem foldl_push (sortedByFee : Bool) (items : List (TxPrioItem lib)) :
    ∀ queue : List (TxPrioItem lib), Ordered itemRank queue →
      (items.foldl (push (lessFunc sortedByFee)) queue).Perm (items ++ queue) ∧
      Ordered itemRank (items.foldl (push (lessFunc sortedByFee)) queue) := by
  induction items with
  | nil => exact fun queue h => ⟨List.Perm.refl _, h⟩
  | cons item items ih =>
    intro queue h
    obtain ⟨hperm, hord⟩ := ih _ (push_ordered (lessFunc_respects _) h item)
    refine ⟨?_, hord⟩
    calc (items.foldl _ (push (lessFunc sortedByFee) queue item)).Perm
          (items ++ push (lessFunc sortedByFee) queue item) := hperm
      _ |>.Perm (items ++ item :: queue) := (push_perm _ _).append_left items
      _ |>.Perm (item :: (items ++ queue)) := perm_middle

variable {sortedByFee : Bool} {waiting : List (TxPrioItem lib × List Hash)} {weight : ℕ}

theorem checkItem_take (h : checkItem src terms s item sortedByFee weight = .take) :
    inputsPresent src s.chosen item.tx = true := by
  rw [checkItem] at h
  split_ifs at h with hpresent
  · rw [Bool.or_eq_true, not_or, Bool.not_eq_true, Bool.not_eq_true, Bool.not_eq_false',
      Bool.not_eq_false'] at hpresent
    exact hpresent.1

theorem checkItem_ne_requeue : checkItem src terms s item sortedByFee weight ≠ .requeue := by
  rw [checkItem]
  split_ifs <;> simp

theorem judge_spec (src : Source) (terms : Terms lib) (s item) :
    ((judge src terms s item).1 = .requeue →
      s.sortedByFee = false ∧ (judge src terms s item).2 = true) ∧
    ((judge src terms s item).1 = .take → inputsPresent src s.chosen item.tx = true) := by
  simp only [judge]
  cases terms.sigOpCost s.chosen item.tx with
  | none => split_ifs <;> simp
  | some cost =>
    dsimp only
    split_ifs with _ _ _ _ hswitch
    · simp
    · simp
    · simp
    · simp
    · rw [Bool.and_eq_true, Bool.not_eq_true'] at hswitch
      exact ⟨fun _ => ⟨hswitch.1, rfl⟩, fun h => by cases h⟩
    · exact ⟨fun h => absurd h checkItem_ne_requeue, checkItem_take⟩
    · exact ⟨fun h => absurd h checkItem_ne_requeue, checkItem_take⟩

theorem sortByFee_spec (h : Ordered itemRank s.queue) (switch : Bool) :
    let s' := if switch then sortByFee s else s
    s'.queue.Perm s.queue ∧ Ordered itemRank s'.queue ∧ s'.waiting = s.waiting ∧
      s'.chosen = s.chosen ∧ s'.sortedByFee = (switch || s.sortedByFee) := by
  cases switch with
  | false => exact ⟨List.Perm.refl _, h, rfl, rfl, rfl⟩
  | true => exact ⟨init_perm _, init_ordered (lessFunc_respects true) _, rfl, rfl, rfl⟩

theorem handleItem_turn (src : Source) (terms : Terms lib) (h : Ordered itemRank s.queue)
    (item : TxPrioItem lib) : Turn src terms s item (handleItem src terms s item) ∧
      Ordered itemRank (handleItem src terms s item).queue := by
  obtain ⟨hrequeue, htake⟩ := judge_spec src terms s item
  rcases hj : judge src terms s item with ⟨verdict, switch⟩
  rw [hj] at hrequeue htake
  obtain ⟨hperm, hord, hwaiting, hchosen, hsorted⟩ := sortByFee_spec h switch
  simp only [handleItem, hj]
  generalize (if switch then sortByFee s else s) = s' at hperm hord hwaiting hchosen hsorted ⊢
  have hkeep : s.sortedByFee = true → s'.sortedByFee = true := fun hs => by
    rw [hsorted, hs, Bool.or_true]
  cases verdict with
  | skip => exact ⟨.skip hperm hwaiting hchosen hkeep, hord⟩
  | requeue =>
    obtain ⟨hfalse, rfl⟩ := hrequeue rfl
    refine ⟨.requeue ((push_perm _ _).trans (hperm.cons item)) hwaiting hchosen
      ⟨hfalse, hsorted⟩, push_ordered (lessFunc_respects _) hord item⟩
  | take =>
    obtain ⟨hpush, hpushed⟩ := foldl_push s'.sortedByFee
      (terms.walk s'.chosen (released item.tx.hash s'.waiting)) s'.queue hord
    refine ⟨.take (htake rfl) ?_ (hwaiting ▸ rfl) (hchosen ▸ rfl) hkeep, hpushed⟩
    rw [← hwaiting]
    exact hpush.trans ((terms.walk_perm _ _).append hperm)

/-- The item is the top of the queue, and this is the rest of it. -/
structure Popped (s : TemplateState lib) (item : TxPrioItem lib) (rest : List (TxPrioItem lib)) :
    Prop where
  perm : (item :: rest).Perm s.queue
  ordered : Ordered itemRank rest
  least : ∀ y ∈ rest, itemRank item ≤ itemRank y

theorem Popped.queued (h : Popped s item rest) : item ∈ s.queue ∧ ∀ y ∈ rest, y ∈ s.queue :=
  forall_mem_cons.mp fun _ hy => h.perm.mem_iff.mp hy

theorem chooseLoop_invariant {I : TemplateState lib → Prop}
    (hheap : ∀ s, I s → Ordered itemRank s.queue)
    (hturn : ∀ s item rest, I s → Popped s item rest →
      I (handleItem src terms { s with queue := rest } item)) :
    ∀ (fuel : ℕ) (s : TemplateState lib), I s → I (chooseLoop src terms fuel s) := by
  intro fuel
  induction fuel with
  | zero => exact fun s h => h
  | succ fuel ih =>
    intro s h
    rw [chooseLoop]
    split
    · exact h
    · rename_i item rest hpop
      obtain ⟨hrest, hmin⟩ := pop_ordered (lessFunc_respects _) (hheap s h) hpop
      exact ih _ (hturn s item rest h ⟨pop_perm hpop, hrest, hmin⟩)

/-! ### Parents first, classes in order -/

/-- Every transaction comes after those of the pool whose outputs it spends. -/
def ParentsFirst (src : Source) (txs : List Tx) : Prop :=
  ∀ before tx after, txs = before ++ tx :: after →
    ∀ parent ∈ src.txs, Depends src tx parent.hash → parent ∈ before

/-- No transaction that can be chosen spends an output of one that must come after it. -/
def ClassesAscend (lib : PayloadLib) (src : Source) : Prop :=
  ∀ child, Choosable src child → ∀ parent ∈ src.txs, Depends src child parent.hash →
    rank lib parent ≤ rank lib child

structure Sound (src : Source) (s : TemplateState lib) : Prop where
  heap : Ordered itemRank s.queue
  queued : ∀ item ∈ s.queue, Known src item
  waits : ∀ w ∈ s.waiting, Known src w.1 ∧ ∀ h ∈ w.2, Depends src w.1.tx h
  chosen : ∀ t ∈ s.chosen, Choosable src t
  first : ParentsFirst src s.chosen
  sorted : ClassesAscend lib src → s.chosen.Pairwise fun t t' => rank lib t ≤ rank lib t'
  bound : ClassesAscend lib src → ∀ t ∈ s.chosen, ∀ item ∈ s.queue, Choosable src item.tx →
    rank lib t ≤ itemRank item

theorem mem_released (hitem : item ∈ released h waiting) :
    ∃ deps, (item, deps) ∈ waiting ∧ h ∈ deps := by
  obtain ⟨w, hw, rfl⟩ := mem_map.mp hitem
  obtain ⟨hmem, hcond⟩ := mem_filter.mp hw
  exact ⟨w.2, hmem, of_decide_eq_true (Bool.and_eq_true_iff.mp hcond).1⟩

theorem mem_stillWaiting {w} (hw : w ∈ stillWaiting h waiting) :
    ∃ deps, (w.1, deps) ∈ waiting ∧ w.2 = deps.filter (· ≠ h) := by
  obtain ⟨w', hw', rfl⟩ := mem_map.mp hw
  exact ⟨w'.2, (mem_filter.mp hw').1, rfl⟩

theorem Known.choosable (hknown : Known src item) (hchosen : ∀ t ∈ chosen, Choosable src t)
    (hpresent : inputsPresent src chosen item.tx = true) : Choosable src item.tx := by
  have horigin : ∀ input : TxIn, ∃ parent : Tx, input ∈ item.tx.txIn →
      item.anchorFundingUtxo = [] → src.available input.previousOutPoint = false →
      parent.hash = input.previousOutPoint.hash ∧ Choosable src parent := by
    intro input
    by_cases hcase : input ∈ item.tx.txIn ∧ item.anchorFundingUtxo = [] ∧
        src.available input.previousOutPoint = false
    · obtain ⟨hin, hempty, hav⟩ := hcase
      rw [inputsPresent, Bool.or_eq_true] at hpresent
      rcases hpresent with hanchor | hall
      · rw [hknown.marker hanchor hempty input hin] at hav
        cases hav
      · have hinput := all_eq_true.mp hall input hin
        rw [hav, Bool.false_or, any_eq_true] at hinput
        obtain ⟨t, ht, heq⟩ := hinput
        exact ⟨t, fun _ _ _ => ⟨eq_of_beq heq, hchosen t ht⟩⟩
    · exact ⟨item.tx, fun hin hempty hav => absurd ⟨hin, hempty, hav⟩ hcase⟩
  choose parent hparent using horigin
  exact .intro parent hknown.mem hknown.notCoinbase hknown.funding
    (fun input hin hempty hav => (hparent input hin hempty hav).1)
    (fun input hin hempty hav => (hparent input hin hempty hav).2)

theorem ParentsFirst.concat (h : ParentsFirst src chosen) (hchosen : ∀ t ∈ chosen, t ∈ src.txs)
    (hpresent : inputsPresent src chosen tx = true) : ParentsFirst src (chosen ++ [tx]) := by
  intro before t after heq parent hparent hdep
  rcases eq_nil_or_concat after with rfl | ⟨after', last, rfl⟩
  · obtain ⟨rfl, hlast⟩ := append_inj' heq rfl
    obtain rfl := (cons.inj hlast).1
    obtain ⟨hanchor, input, hin, hhash, hav⟩ := hdep
    rw [inputsPresent, hanchor, Bool.false_or] at hpresent
    have hinput := all_eq_true.mp hpresent input hin
    rw [hav, Bool.false_or, any_eq_true] at hinput
    obtain ⟨t, ht, hbeq⟩ := hinput
    rwa [inj_on_of_nodup_map src.distinct hparent (hchosen t ht)
      (hhash.symm.trans (eq_of_beq hbeq).symm)]
  · rw [concat_eq_append, ← cons_append, ← append_assoc] at heq
    exact h before t after' (append_inj' heq rfl).1 parent hparent hdep

theorem sound_turn (terms) (h : Sound src s) (hpop : Popped s item rest) :
    Sound src (handleItem src terms { s with queue := rest } item) := by
  obtain ⟨hturn, hord⟩ := handleItem_turn src terms (s := { s with queue := rest }) hpop.ordered item
  generalize handleItem src terms { s with queue := rest } item = s' at hturn hord ⊢
  obtain ⟨hitem, hrest⟩ := hpop.queued
  have hback : ∀ {q : List (TxPrioItem lib)}, (∀ y ∈ q, y ∈ s.queue) → s'.queue.Perm q →
      s'.waiting = s.waiting → s'.chosen = s.chosen → Sound src s' := by
    intro q hq hqueue hwaiting hchosen
    have hmem : ∀ y ∈ s'.queue, y ∈ s.queue := fun y hy => hq y (hqueue.mem_iff.mp hy)
    exact ⟨hord, fun y hy => h.queued y (hmem y hy), hwaiting ▸ h.waits, hchosen ▸ h.chosen,
      hchosen ▸ h.first, hchosen ▸ h.sorted,
      hchosen ▸ fun hasc t ht y hy => h.bound hasc t ht y (hmem y hy)⟩
  cases hturn with
  | skip hqueue hwaiting hchosen => exact hback hrest hqueue hwaiting hchosen
  | requeue hqueue hwaiting hchosen =>
    exact hback (fun _ => hpop.perm.mem_iff.mp) hqueue hwaiting hchosen
  | take hpresent hqueue hwaiting hchosen =>
    have hchoosable := (h.queued item hitem).choosable h.chosen hpresent
    refine ⟨hord, ?_, ?_, ?_, ?_, ?_, ?_⟩
    · intro y hy
      rcases mem_append.mp (hqueue.mem_iff.mp hy) with hy | hy
      · obtain ⟨deps, hdeps, -⟩ := mem_released hy
        exact (h.waits _ hdeps).1
      · exact h.queued y (hrest y hy)
    · intro w hw
      rw [hwaiting] at hw
      obtain ⟨deps, hdeps, heq⟩ := mem_stillWaiting hw
      refine ⟨(h.waits _ hdeps).1, fun d hd => (h.waits _ hdeps).2 d ?_⟩
      rw [heq] at hd
      exact (mem_filter.mp hd).1
    · rw [hchosen]
      exact forall_mem_append.mpr ⟨h.chosen, forall_mem_singleton.mpr hchoosable⟩
    · rw [hchosen]
      exact h.first.concat (fun t ht => (h.chosen t ht).mem) hpresent
    · intro hasc
      rw [hchosen, pairwise_append]
      refine ⟨h.sorted hasc, pairwise_singleton _ _, fun t ht t' ht' => ?_⟩
      rw [mem_singleton.mp ht']
      exact h.bound hasc t ht item hitem hchoosable
    · intro hasc t ht y hy hychoosable
      rw [hchosen] at ht
      -- the item on top is not before anything chosen and not after anything that stays or enters
      have hle : rank lib t ≤ rank lib item.tx := by
        rcases mem_append.mp ht with ht | ht
        · exact h.bound hasc t ht item hitem hchoosable
        · rw [mem_singleton.mp ht]
      refine hle.trans ?_
      rcases mem_append.mp (hqueue.mem_iff.mp hy) with hy | hy
      · obtain ⟨deps, hdeps, hh⟩ := mem_released hy
        exact hasc y.tx hychoosable item.tx hchoosable.mem ((h.waits _ hdeps).2 _ hh)
      · exact hpop.least y hy

theorem sound_start (src : Source) (terms : Terms lib) : Sound src (startState terms) where
  heap := ordered_nil
  queued _ h := by cases h
  waits _ h := by cases h
  chosen _ h := by cases h
  first before tx after h := by
    have hlen := congrArg length h
    simp [startState] at hlen
  sorted _ := List.Pairwise.nil
  bound _ _ h := by cases h

theorem addSourceTx_cases (src) (terms) (s) (hmem : tx ∈ src.txs) : addSourceTx src terms s tx = s ∨
    ∃ item : TxPrioItem lib, Known src item ∧ item.tx = tx ∧ (item.fee = terms.fee tx ∨ item.fee = 0) ∧
      ((scanTx src item.anchorFundingUtxo tx = ([], true) ∧ addSourceTx src terms s tx =
          { s with queue := push (lessFunc s.sortedByFee) s.queue item }) ∨
        ((scanTx src item.anchorFundingUtxo tx).1 ≠ [] ∧ addSourceTx src terms s tx =
          { s with waiting := (item, (scanTx src item.anchorFundingUtxo tx).1) :: s.waiting })) := by
  rw [addSourceTx]
  split_ifs with hskip
  · exact .inl rfl
  rw [Bool.or_eq_true, not_or, Bool.not_eq_true] at hskip
  split
  · exact .inl rfl
  rename_i utxo hutxo
  dsimp only
  split
  · rename_i hdone
    split_ifs with hempty
    · refine .inr ⟨prioItem terms tx utxo, ?_, rfl, .inl rfl, .inl ⟨Prod.ext hempty hdone, rfl⟩⟩
      exact Known.of_scan rfl rfl hmem hskip.1 hutxo (.inl hdone)
    · refine .inr ⟨prioItem terms tx utxo, ?_, rfl, .inl rfl, .inr ⟨hempty, rfl⟩⟩
      exact Known.of_scan rfl rfl hmem hskip.1 hutxo (.inl hdone)
  · split_ifs with hdeps
    · exact .inl rfl
    · refine .inr ⟨abandonedItem terms tx utxo, ?_, rfl, .inr rfl, .inr ⟨hdeps, rfl⟩⟩
      exact Known.of_scan rfl rfl hmem hskip.1 hutxo (.inr hdeps)

theorem sound_addSourceTx (terms) (h : Sound src s) (hnone : s.chosen = []) (hmem : tx ∈ src.txs) :
    Sound src (addSourceTx src terms s tx) ∧ (addSourceTx src terms s tx).chosen = [] := by
  rcases addSourceTx_cases src terms s hmem with heq | ⟨item, hknown, htx, -, ⟨-, heq⟩ | ⟨-, heq⟩⟩
  · rw [heq]
    exact ⟨h, hnone⟩
  · rw [heq]
    refine ⟨⟨push_ordered (lessFunc_respects _) h.heap item, fun y hy => ?_, h.waits, h.chosen,
      h.first, h.sorted, fun _ t ht => ?_⟩, hnone⟩
    · exact forall_mem_cons.mpr ⟨hknown, h.queued⟩ y ((push_perm _ _).mem_iff.mp hy)
    · rw [show s.chosen = [] from hnone] at ht
      cases ht
  · rw [heq]
    refine ⟨⟨h.heap, h.queued, forall_mem_cons.mpr ⟨⟨hknown, fun d hd => ?_⟩, h.waits⟩, h.chosen,
      h.first, h.sorted, h.bound⟩, hnone⟩
    rw [htx]
    exact scanTx_depends hd

theorem sound_fillQueue (src : Source) (terms : Terms lib) :
    Sound src (fillQueue src terms) ∧ (fillQueue src terms).chosen = [] :=
  foldlRecOn (motive := fun s => Sound src s ∧ s.chosen = []) src.txs _
    ⟨sound_start src terms, rfl⟩ fun _ h _ htx => sound_addSourceTx terms h.1 h.2 htx

theorem sound_chosen (src : Source) (terms : Terms lib) (fuel : ℕ) :
    Sound src (chooseLoop src terms fuel (fillQueue src terms)) :=
  chooseLoop_invariant (fun _ h => h.heap)
    (fun _ _ _ h hpop => sound_turn terms h hpop) fuel _
    (sound_fillQueue src terms).1

/-! ### The loop runs until the queue is empty -/

theorem length_released (h : Hash) (waiting : List (TxPrioItem lib × List Hash)) :
    (released h waiting).length + (stillWaiting h waiting).length = waiting.length := by
  rw [released, stillWaiting, length_map, length_map]
  exact (length_eq_length_filter_add _).symm

theorem Turn.budget_lt (h : Turn src terms s item s') : s'.budget < s.budget + 1 := by
  have hflag : (s.sortedByFee = true → s'.sortedByFee = true) →
      (if s'.sortedByFee then 0 else 1) ≤ if s.sortedByFee then 0 else 1 := by
    intro hs
    cases hf : s.sortedByFee with
    | false => split <;> simp
    | true => rw [hs hf]
  cases h with
  | skip hqueue hwaiting _ hsorted =>
    have := hflag hsorted
    simp only [TemplateState.budget, hqueue.length_eq, hwaiting]
    omega
  | requeue hqueue hwaiting _ hsorted =>
    simp only [TemplateState.budget, hqueue.length_eq, hwaiting, hsorted.1, hsorted.2,
      length_cons, if_true, Bool.false_eq_true, if_false]
    omega
  | take _ hqueue hwaiting _ hsorted =>
    have := hflag hsorted
    have := length_released item.tx.hash s.waiting
    simp only [TemplateState.budget, hqueue.length_eq, hwaiting, length_append]
    omega

theorem chooseLoop_queue (src) (terms) (fuel : ℕ) :
    ∀ s : TemplateState lib, Ordered itemRank s.queue → s.budget ≤ fuel →
      (chooseLoop src terms fuel s).queue = [] := by
  induction fuel with
  | zero =>
    intro s _ hfuel
    have hlen : s.queue.length = 0 := by
      rw [TemplateState.budget] at hfuel
      omega
    exact length_eq_zero_iff.mp hlen
  | succ fuel ih =>
    intro s hord hfuel
    rw [chooseLoop]
    split
    · rename_i hpop
      simp only [pop] at hpop
      split at hpop
      · assumption
      · cases hpop
    · rename_i item rest hpop
      obtain ⟨hrest, -⟩ := pop_ordered (lessFunc_respects _) hord hpop
      obtain ⟨hturn, hord'⟩ := handleItem_turn src terms (s := { s with queue := rest }) hrest item
      have hlt := hturn.budget_lt
      have hlen := (pop_perm hpop).length_eq
      refine ih _ hord' ?_
      simp only [TemplateState.budget, length_cons] at hlt hfuel hlen ⊢
      omega

/-! ### Terms under which nothing is refused -/

def openTerms (lib : PayloadLib) : Terms lib where
  policy := ⟨0, 1, 0, 0, false⟩
  coinbaseWeight := 0
  coinbaseSigOpCost := 0
  finalized _ := true
  weight _ := 0
  fee _ := 0
  feePerKB _ := 0
  priority _ := 0
  deAnchor _ := false
  sigOpCost _ _ := some 0
  checked _ _ := true
  anchored _ := false
  feeExempt _ _ := true
  walk _ items := items
  walk_perm _ items := List.Perm.refl items

def Placed (src : Source) (s : TemplateState lib) (t : Tx) : Prop :=
  t ∈ s.chosen ∨
  (∃ item ∈ s.queue, item.tx = t ∧ ∀ h, Depends src t h → h ∈ s.chosen.map Tx.hash) ∨
  ∃ w ∈ s.waiting, w.1.tx = t ∧ w.2 ≠ [] ∧ (∀ h ∈ w.2, h ∉ s.chosen.map Tx.hash) ∧
    ∀ h, Depends src t h → h ∈ w.2 ∨ h ∈ s.chosen.map Tx.hash

structure Unrefused (src : Source) (s : TemplateState lib) : Prop where
  sound : Sound src s
  weight : s.blockWeight = 0
  sigOps : s.blockSigOpCost = 0
  sortedByFee : s.sortedByFee = true
  fees : (∀ item ∈ s.queue, item.fee = 0) ∧ ∀ w ∈ s.waiting, w.1.fee = 0
  anchors : ∀ u ∈ s.anchorFundingUtxos, ∃ t ∈ s.chosen, isAnchorTx t = true ∧
    src.anchorFunding t = some u

abbrev Held (src : Source) (s : TemplateState lib) (item : TxPrioItem lib) : Prop :=
  inputsPresent src s.chosen item.tx = false ∨
    item.anchorFundingUtxo ≠ [] ∧ item.anchorFundingUtxo ∈ s.anchorFundingUtxos

theorem checkItem_open (src) (s item) (weight : ℕ) :
    checkItem src (openTerms lib) s item true weight =
      if Held src s item then .skip else .take := by
  have hlow : shouldSkipLowFeeTx (openTerms lib) item true
      (decide (item.anchorFundingUtxo ≠ []) || (openTerms lib).feeExempt s.chosen item.tx) weight =
      false := by
    simp [shouldSkipLowFeeTx, openTerms]
  rw [checkItem, hlow, Bool.and_false]
  unfold Held
  cases hp : inputsPresent src s.chosen item.tx <;> simp [openTerms]

theorem judge_open (hsorted : s.sortedByFee = true) (hweight : s.blockWeight = 0)
    (hsigOps : s.blockSigOpCost = 0) (hfee : item.fee = 0) : judge src (openTerms lib) s item =
      (if Held src s item then .skip else .take, false) := by
  have hlow : ∀ weight, shouldSkipLowFeeTx (openTerms lib) item true false weight = false := by
    intro weight
    simp [shouldSkipLowFeeTx, openTerms, hfee]
  have hpolicy : (openTerms lib).policy = ⟨0, 1, 0, 0, false⟩ := rfl
  have hcost : (openTerms lib).sigOpCost s.chosen item.tx = some 0 := rfl
  have htx : (openTerms lib).weight item.tx = 0 := rfl
  rw [← checkItem_open src s item 0]
  simp only [judge, hsorted, hweight, hsigOps, hlow, hpolicy, hcost, htx, maxBlockSigOpsCost,
    Bool.false_and, Bool.and_false, Bool.not_true, Bool.false_eq_true, if_false]
  rw [if_neg (by decide), if_neg (by decide)]

theorem inputsPresent_of_placed (h : ∀ d, Depends src t d → d ∈ chosen.map Tx.hash) :
    inputsPresent src chosen t = true := by
  rw [inputsPresent, Bool.or_eq_true]
  cases hanchor : isAnchorTx t with
  | true => exact .inl rfl
  | false =>
    refine .inr (all_eq_true.mpr fun input hin => ?_)
    cases hav : src.available input.previousOutPoint with
    | true => rfl
    | false =>
      obtain ⟨p, hp, hhash⟩ := mem_map.mp (h _ ⟨hanchor, input, hin, rfl, hav⟩)
      rw [Bool.false_or]
      exact any_eq_true.mpr ⟨p, hp, beq_iff_eq.mpr hhash⟩

theorem Placed.take (hpop : (item :: rest).Perm s.queue)
    (hqueue : s'.queue.Perm (released item.tx.hash s.waiting ++ rest))
    (hwaiting : s'.waiting = stillWaiting item.tx.hash s.waiting)
    (hchosen : s'.chosen = s.chosen ++ [item.tx]) (h : Placed src s t) : Placed src s' t := by
  have hhash : ∀ d, d ∈ s.chosen.map Tx.hash ∨ d = item.tx.hash ↔ d ∈ s'.chosen.map Tx.hash := by
    intro d
    rw [hchosen, map_append, mem_append, map_singleton, mem_singleton]
  rcases h with hin | ⟨item', hitem', rfl, hdeps⟩ | ⟨w, hw, rfl, hne, hdisj, hdeps⟩
  · refine .inl ?_
    rw [hchosen]
    exact mem_append_left _ hin
  · rcases mem_cons.mp (hpop.mem_iff.mpr hitem') with rfl | hrest
    · refine .inl ?_
      rw [hchosen]
      exact mem_append_right _ mem_cons_self
    · refine .inr (.inl ⟨item', hqueue.mem_iff.mpr (mem_append_right _ hrest), rfl, ?_⟩)
      exact fun d hd => (hhash d).mp (.inl (hdeps d hd))
  · right
    cases hcond : decide (item.tx.hash ∈ w.2) && (w.2.filter (· ≠ item.tx.hash)).isEmpty with
    | true =>
      refine .inl ⟨w.1, hqueue.mem_iff.mpr (mem_append_left _ ?_), rfl, fun d hd => ?_⟩
      · exact mem_map_of_mem (mem_filter.mpr ⟨hw, hcond⟩)
      · refine (hhash d).mp ?_
        rcases hdeps d hd with hd | hd
        · have hempty := isEmpty_iff.mp (Bool.and_eq_true_iff.mp hcond).2
          exact .inr (by simpa using filter_eq_nil_iff.mp hempty d hd)
        · exact .inl hd
    | false =>
      refine .inr ⟨(w.1, w.2.filter (· ≠ item.tx.hash)), ?_, rfl, ?_, ?_, ?_⟩
      · rw [hwaiting]
        exact mem_map.mpr ⟨w, mem_filter.mpr ⟨hw, by rw [hcond]; rfl⟩, rfl⟩
      · intro (hempty : w.2.filter (· ≠ item.tx.hash) = [])
        obtain ⟨d, hd⟩ := exists_mem_of_ne_nil _ hne
        have heq : d = item.tx.hash := by simpa using filter_eq_nil_iff.mp hempty d hd
        rw [hempty, ← heq, decide_eq_true hd] at hcond
        cases hcond
      · intro d hd hin
        obtain ⟨hdw, hdne⟩ := mem_filter.mp hd
        rcases (hhash d).mpr hin with hin | rfl
        · exact hdisj d hdw hin
        · exact of_decide_eq_true hdne rfl
      · intro d hd
        by_cases hdne : d = item.tx.hash
        · exact .inr ((hhash d).mp (.inr hdne))
        · rcases hdeps d hd with hd | hd
          · exact .inl (mem_filter.mpr ⟨hd, decide_eq_true hdne⟩)
          · exact .inr ((hhash d).mp (.inl hd))

theorem Known.anchor (h : Known src item) (hutxo : item.anchorFundingUtxo ≠ []) :
    isAnchorTx item.tx = true ∧ src.anchorFunding item.tx = some item.anchorFundingUtxo := by
  have hfunding := h.funding
  rw [anchorFundingOf] at hfunding
  split_ifs at hfunding with hanchor
  · exact ⟨hanchor, hfunding⟩
  · exact absurd (Option.some.inj hfunding).symm hutxo

theorem Unrefused.placed_skip (h : Unrefused src s) (hpop : (item :: rest).Perm s.queue)
    (hskip : Held src s item) (ht : Placed src s t) : Placed src { s with queue := rest } t := by
  have hknown := h.sound.queued item (hpop.mem_iff.mp mem_cons_self)
  rcases ht with hin | ⟨item', hitem', rfl, hdeps⟩ | hwait
  · exact .inl hin
  · rcases mem_cons.mp (hpop.mem_iff.mpr hitem') with rfl | hrest
    · rcases hskip with hmissing | ⟨hutxo, hdup⟩
      · rw [inputsPresent_of_placed hdeps] at hmissing
        cases hmissing
      · obtain ⟨t', ht', hanchor', hfunding'⟩ := h.anchors _ hdup
        obtain ⟨hanchor, hfunding⟩ := hknown.anchor hutxo
        have heq : item'.tx = t' := src.anchors_distinct _ hknown.mem _ (h.sound.chosen t' ht').mem
          hanchor hanchor' (hfunding.trans hfunding'.symm) (by rw [hfunding]; simp)
        exact .inl (heq ▸ ht')
    · exact .inr (.inl ⟨item', hrest, rfl, hdeps⟩)
  · exact .inr (.inr hwait)

theorem unrefused_turn (h : Unrefused src s) (hpop : Popped s item rest) :
    let s' := handleItem src (openTerms lib) { s with queue := rest } item
    Unrefused src s' ∧ ∀ t, Placed src s t → Placed src s' t := by
  obtain ⟨hitem, hrest⟩ := hpop.queued
  have hsound := sound_turn (openTerms lib) h.sound hpop
  have hjudge : judge src (openTerms lib) { s with queue := rest } item = _ :=
    judge_open h.sortedByFee h.weight h.sigOps (h.fees.1 item hitem)
  by_cases hskip : Held src s item
  · have heq : handleItem src (openTerms lib) { s with queue := rest } item =
        { s with queue := rest } := by
      simp [handleItem, hjudge, if_pos hskip]
    rw [heq] at hsound ⊢
    exact ⟨{ h with sound := hsound, fees := ⟨fun y hy => h.fees.1 y (hrest y hy), h.fees.2⟩ },
      fun _ => h.placed_skip hpop.perm hskip⟩
  · have heq : handleItem src (openTerms lib) { s with queue := rest } item =
        accept (openTerms lib) { s with queue := rest } item := by
      simp [handleItem, hjudge, if_neg hskip]
    rw [heq] at hsound ⊢
    obtain ⟨hperm, -⟩ := foldl_push s.sortedByFee (released item.tx.hash s.waiting) rest
      hpop.ordered
    refine ⟨⟨hsound, h.weight, h.sigOps, h.sortedByFee, ⟨fun y hy => ?_, fun w hw => ?_⟩, ?_⟩,
      fun _ ht => ht.take hpop.perm hperm rfl rfl⟩
    · rcases mem_append.mp (hperm.mem_iff.mp hy) with hy | hy
      · obtain ⟨deps, hdeps, -⟩ := mem_released hy
        exact h.fees.2 _ hdeps
      · exact h.fees.1 y (hrest y hy)
    · obtain ⟨deps, hdeps, -⟩ := mem_stillWaiting hw
      exact h.fees.2 (w.1, deps) hdeps
    · have hold : ∀ u ∈ s.anchorFundingUtxos, ∃ t ∈ s.chosen ++ [item.tx], isAnchorTx t = true ∧
          src.anchorFunding t = some u := by
        intro u hu
        obtain ⟨t, ht, hspec⟩ := h.anchors u hu
        exact ⟨t, mem_append_left _ ht, hspec⟩
      intro u hu
      simp only [accept] at hu ⊢
      split_ifs at hu with hutxo
      · rcases mem_cons.mp hu with rfl | hu
        · exact ⟨item.tx, mem_append_right _ mem_cons_self,
            (h.sound.queued item hitem).anchor hutxo⟩
        · exact hold u hu
      · exact hold u hu

theorem Choosable.scan (h : Choosable src tx) :
    isCoinBase tx = false ∧ ∃ utxo, anchorFundingOf src tx = some utxo ∧
      (scanTx src utxo tx).2 = true := by
  cases h with
  | @intro _ utxo parent mem notCoinbase funding origin ready =>
    refine ⟨notCoinbase, utxo, funding, ?_⟩
    rw [scanTx]
    split_ifs with hempty
    · rfl
    rw [not_not] at hempty
    rw [scanInputs_eq, all_eq_true]
    intro h hh
    obtain ⟨input, hin, rfl, hav⟩ := mem_missing.mp hh
    rw [← origin input hin hempty hav]
    exact src.have_pool _ (ready input hin hempty hav).mem

theorem scanTx_complete (hfunding : anchorFundingOf src tx = some utxo)
    (hdone : (scanTx src utxo tx).2 = true) {d} (hd : Depends src tx d) :
    d ∈ (scanTx src utxo tx).1 := by
  obtain ⟨hanchor, input, hin, rfl, hav⟩ := hd
  rw [anchorFundingOf, hanchor] at hfunding
  cases hfunding
  have hscan : scanTx src [] tx = scanInputs src tx.txIn := rfl
  rw [hscan] at hdone ⊢
  exact scanInputs_complete hdone (mem_missing.mpr ⟨input, hin, rfl, hav⟩)

theorem placed_addSourceTx (terms) (htx : tx ∈ src.txs) (h : Placed src s t) :
    Placed src (addSourceTx src terms s tx) t := by
  rcases addSourceTx_cases src terms s htx with heq | ⟨item, -, -, -, ⟨-, heq⟩ | ⟨-, heq⟩⟩ <;>
    rw [heq]
  · exact h
  · refine h.imp id (.imp (fun ⟨item', hitem', hspec⟩ => ⟨item', ?_, hspec⟩) id)
    exact (push_perm _ _).mem_iff.mpr (mem_cons_of_mem _ hitem')
  · exact h.imp id (.imp id fun ⟨w, hw, hspec⟩ => ⟨w, mem_cons_of_mem _ hw, hspec⟩)

theorem placed_self (hnone : s.chosen = []) (h : Choosable src tx) :
    Placed src (addSourceTx src (openTerms lib) s tx) tx := by
  obtain ⟨hcoinbase, utxo, hfunding, hdone⟩ := h.scan
  have hall := fun d => scanTx_complete (d := d) hfunding hdone
  have hfinal : (openTerms lib).finalized tx = true := rfl
  simp only [addSourceTx, hcoinbase, hfinal, Bool.not_true, Bool.or_false, Bool.false_eq_true,
    if_false, hfunding, hdone, if_true]
  split_ifs with hempty
  · refine .inr (.inl ⟨prioItem (openTerms lib) tx utxo, ?_, rfl, fun d hd => ?_⟩)
    · exact (push_perm _ _).mem_iff.mpr mem_cons_self
    · have hmem := hall d hd
      rw [hempty] at hmem
      cases hmem
  · exact .inr (.inr ⟨_, mem_cons_self, rfl, hempty, by simp [hnone], fun d hd => .inl (hall d hd)⟩)

theorem unrefused_addSourceTx (h : Unrefused src s) (hnone : s.chosen = []) (htx : tx ∈ src.txs) :
    Unrefused src (addSourceTx src (openTerms lib) s tx) := by
  have hsound := (sound_addSourceTx (openTerms lib) h.sound hnone htx).1
  rcases addSourceTx_cases src (openTerms lib) s htx with
    heq | ⟨item, -, -, hfee, ⟨-, heq⟩ | ⟨-, heq⟩⟩ <;> rw [heq] at hsound ⊢
  · exact h
  · have hfees : ∀ y ∈ item :: s.queue, y.fee = 0 := forall_mem_cons.mpr ⟨hfee.elim id id, h.fees.1⟩
    exact { h with
      sound := hsound
      fees := ⟨fun y hy => hfees y ((push_perm _ _).mem_iff.mp hy), h.fees.2⟩ }
  · exact { h with
      sound := hsound, fees := ⟨h.fees.1, forall_mem_cons.mpr ⟨hfee.elim id id, h.fees.2⟩⟩ }

theorem filled {l : List Tx} (hl : ∀ tx ∈ l, tx ∈ src.txs) (h : Unrefused src s)
    (hnone : s.chosen = []) : let s' := l.foldl (addSourceTx src (openTerms lib)) s
    Unrefused src s' ∧ (∀ t, Placed src s t → Placed src s' t) ∧
      ∀ t ∈ l, Choosable src t → Placed src s' t := by
  induction l generalizing s with
  | nil => exact ⟨h, fun _ ht => ht, forall_mem_nil _⟩
  | cons tx l ih =>
    obtain ⟨htx, hl⟩ := forall_mem_cons.mp hl
    obtain ⟨hrest, hkept, hplaced⟩ := ih hl (unrefused_addSourceTx h hnone htx)
      (sound_addSourceTx _ h.sound hnone htx).2
    exact ⟨hrest, fun t ht => hkept t (placed_addSourceTx _ htx ht),
      forall_mem_cons.mpr ⟨fun ht => hkept _ (placed_self hnone ht), hplaced⟩⟩

theorem all_chosen (src) (ht : Choosable src t) : t ∈ chooseTxs src (openTerms lib) := by
  obtain ⟨hstart, -, hplaced⟩ : Unrefused src (fillQueue src (openTerms lib)) ∧ _ :=
    filled (fun _ htx => htx) ⟨sound_start src _, rfl, rfl, rfl, ⟨nofun, nofun⟩, nofun⟩ rfl
  obtain ⟨hfinal, hplaced⟩ := chooseLoop_invariant
    (I := fun s => Unrefused src s ∧ ∀ t, Choosable src t → Placed src s t)
    (fun _ h => h.1.sound.heap)
    (fun _ _ _ h hpop => (unrefused_turn h.1 hpop).imp id fun hkept t ht =>
      hkept t (h.2 t ht))
    (fillQueue src (openTerms lib)).budget _ ⟨hstart, fun t ht => hplaced t ht.mem ht⟩
  have hempty := chooseLoop_queue src (openTerms lib) _ _ hstart.sound.heap (Nat.le_refl _)
  rw [chooseTxs]
  generalize chooseLoop src (openTerms lib) _ _ = s at hfinal hplaced hempty ⊢
  -- whoever still waits waits for a parent, and the parents are chosen by induction
  induction ht with
  | @intro tx utxo parent mem notCoinbase funding origin ready ih =>
    have hchoosable : Choosable src tx := .intro parent mem notCoinbase funding origin ready
    rcases hplaced tx hchoosable with hin | ⟨item, hitem, -⟩ | ⟨w, hw, rfl, hne, hdisj, -⟩
    · exact hin
    · rw [hempty] at hitem
      cases hitem
    obtain ⟨d, hd⟩ := exists_mem_of_ne_nil _ hne
    obtain ⟨hanchor, input, hinput, rfl, hav⟩ := (hfinal.sound.waits w hw).2 d hd
    have hutxo : utxo = [] := by
      rw [anchorFundingOf, hanchor] at funding
      exact (Option.some.inj funding).symm
    have hparent := ih input hinput hutxo hav
    refine absurd ?_ (hdisj _ hd)
    rw [← origin input hinput hutxo hav]
    exact mem_map_of_mem hparent

/-- A template is in order under all terms exactly when no transaction that can be chosen spends an
output of one whose class comes later. -/
theorem template_in_order_iff (src : Source) (coinbaseTx : Tx)
    (hcoinbase : findCoinbaseStateRoot lib coinbaseTx = .ok ())
    (hplain : ∀ tx ∈ src.txs, Plain lib tx) :
    (∀ terms : Terms lib, ParentsFirst src (chooseTxs src terms) ∧
      checkBlockOrder lib (coinbaseTx :: chooseTxs src terms) = .ok ()) ↔ ClassesAscend lib src := by
  have hsound := fun terms : Terms lib => sound_chosen src terms (fillQueue src terms).budget
  have hchecked : ∀ terms : Terms lib, checkBlockOrder lib (coinbaseTx :: chooseTxs src terms) =
      .ok () ↔ (chooseTxs src terms).Pairwise fun t t' => rank lib t ≤ rank lib t' :=
    fun terms => checkBlockOrder_iff hcoinbase fun t ht => hplain t ((hsound terms).chosen t ht).mem
  constructor
  · intro h child hchild parent hparent hdep
    obtain ⟨hfirst, horder⟩ := h (openTerms lib)
    obtain ⟨before, after, hsplit⟩ := append_of_mem (all_chosen src hchild)
    have hbefore := hfirst before child after hsplit parent hparent hdep
    have hpair := (hchecked _).mp horder
    rw [hsplit, pairwise_append] at hpair
    exact hpair.2.2 parent hbefore child mem_cons_self
  · intro hasc terms
    exact ⟨(hsound terms).first, (hchecked terms).mpr ((hsound terms).sorted hasc)⟩

/-! ### A pool whose template is refused -/

def samplePayloads : PayloadLib := ⟨fun _ => none, fun _ => none, fun _ => false⟩

def plainScript : Script := [0x51]

def contractScript : Script := [0, 0x63, 2, 0x43, 0x54, 3, 1, 2, 0xaa, 0x68, 0]

def sampleTx (first : Script) (second : Script) : Bool → Tx
  | false => ⟨1, [⟨⟨9, 0⟩, []⟩], [⟨5, [], first⟩, ⟨7, [], plainScript⟩]⟩
  | true => ⟨2, [⟨⟨1, 1⟩, []⟩], [⟨6, [], second⟩]⟩

def sampleSource (first second : Script) : Source where
  txs := [sampleTx first second false, sampleTx first second true]
  distinct := show ([1, 2] : List Hash).Nodup by decide
  available o := o.hash == 9
  haveTransaction h := h == 1 || h == 2
  have_pool := forall_mem_cons.mpr ⟨rfl, forall_mem_singleton.mpr rfl⟩
  zero_unknown := by decide
  anchorFunding _ := none
  anchors_distinct _ _ _ _ _ _ _ h := absurd rfl h

def sampleTerms : Terms samplePayloads :=
  { openTerms samplePayloads with
    policy := ⟨0, 3000000, 50000, 10, true⟩
    coinbaseWeight := 4000
    coinbaseSigOpCost := 4
    weight _ := 600
    fee _ := 20
    feePerKB _ := 130
    sigOpCost _ _ := some 1
    feeExempt _ _ := false }

theorem sampleSource_plain (first second)
    (h : ∀ last, ∃ found, classifyTxForBlockOrder samplePayloads (sampleTx first second last) = .ok
      found ∧ ∀ c, found = some c → c.isWork = true) :
    ∀ tx ∈ (sampleSource first second).txs, Plain samplePayloads tx :=
  forall_mem_cons.mpr ⟨h false, forall_mem_singleton.mpr (h true)⟩

/-- An ordinary transaction that spends the change of a contract call follows it in the template. -/
theorem template_out_of_order : findCoinbaseStateRoot samplePayloads ⟨3, [], []⟩ = .ok () ∧
    (∀ tx ∈ (sampleSource contractScript plainScript).txs, Plain samplePayloads tx) ∧
    checkBlockOrder samplePayloads
      (⟨3, [], []⟩ :: chooseTxs (sampleSource contractScript plainScript) sampleTerms) =
      .error (.nonContractAfterContract 2) := by
  refine ⟨rfl, sampleSource_plain _ _ fun last => ?_, by decide +kernel⟩
  cases last with
  | false => exact ⟨some ⟨2, .invoke, 2, 1000000⟩, by decide +kernel, by simp [TxClass.isWork]⟩
  | true => exact ⟨none, by decide +kernel, by simp⟩

instance (src : Source) (tx : Tx) (h : Hash) : Decidable (Depends src tx h) :=
  inferInstanceAs (Decidable (isAnchorTx tx = false ∧ ∃ input ∈ tx.txIn,
    input.previousOutPoint.hash = h ∧ src.available input.previousOutPoint = false))

theorem template_in_order_sample : ParentsFirst (sampleSource plainScript contractScript)
      (chooseTxs (sampleSource plainScript contractScript) (openTerms samplePayloads)) ∧
    checkBlockOrder samplePayloads
      (⟨3, [], []⟩ :: chooseTxs (sampleSource plainScript contractScript) (openTerms samplePayloads)) =
        .ok () := by
  have hplain := sampleSource_plain plainScript contractScript fun last => by
    cases last with
    | false => exact ⟨none, by decide +kernel, by simp⟩
    | true => exact ⟨some ⟨2, .invoke, 2, 1000000⟩, by decide +kernel, by simp [TxClass.isWork]⟩
  have hasc : ∀ child ∈ (sampleSource plainScript contractScript).txs,
      ∀ parent ∈ (sampleSource plainScript contractScript).txs,
      Depends (sampleSource plainScript contractScript) child parent.hash →
      rank samplePayloads parent ≤ rank samplePayloads child := by decide +kernel
  exact (template_in_order_iff _ _ rfl hplain).mpr (fun child hchild => hasc child hchild.mem) _

end SatoshiNet.Mining
