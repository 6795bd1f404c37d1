import Emrals.Coins.View
import Emrals.Lib.AListFold
import Emrals.Lib.Machine

/-!
# The stack of coin caches

`CCoinsViewCache` (`src/coins.cpp:37-220`) is a cache layer over another view. It keeps a map of
entries, each a coin with the flags `DIRTY` (the entry may differ from the parent view) and
`FRESH` (the parent view has no unspent coin here), and a counter of the memory its coins use.
A node stacks such layers over the coins database, `CCoinsViewDB`. `FetchCoin` copies a coin of
the view below into the layer; `AddCoin` and `SpendCoin` change the layer; `Flush` writes the
layer's dirty entries into the view below with `BatchWrite` and empties the layer; `Uncache` drops
an entry that says nothing the parent does not.

As far as a read sees it, a stack is one map, `CoinsStack.view`, and `CoinsMap` (the UTXO set of
`Coins/View.lean`) is the abstract model. The steps are:

* `CoinsStack.Valid` says what each layer's flags promise about the view under it, and that its
  counter is the memory its coins use;
* a read, an `Uncache` and a `Flush` at any layer keep the view of that layer, so they keep the
  whole stack valid (`atLayer_spec`); `BatchWrite` never throws on a valid stack
  (`batchWrite_spec`);
* an `AddCoin` or a `SpendCoin` on the top layer changes the view as the abstract map changes
  (`addCoin_spec`, `spendCoin_spec`), so a stack that is written at its top refines the map
  (`step_simulates`, with `Machine.run_simulate` for whole runs).

A write at a lower layer does not reach the layers above it, which may hold a copy of the old
coin.

A failed `assert`, and the `logic_error`s that `AddCoin` and `BatchWrite` throw, are `none`.
-/

namespace Emrals

/-- `MallocUsage` on a 64-bit platform: an allocation rounded up to 16 bytes, with 15 bytes of
overhead. -/
def mallocUsage (alloc : Nat) : Nat :=
  if alloc = 0 then 0 else (alloc + 31) / 16 * 16

/-- `memusage::DynamicUsage` of a `CScript`, a `prevector<28, unsigned char>`: a script of at most
28 bytes lives inside the object. The model takes a heap buffer's capacity to be the script's
length. -/
def CScript.dynamicUsage (s : CScript) : Nat :=
  mallocUsage (if s.length ≤ 28 then 0 else s.length)

/-- `Coin::DynamicMemoryUsage`. -/
def Coin.dynamicMemoryUsage (c : Coin) : Nat := c.out.scriptPubKey.dynamicUsage

/-- `Coin()`, the empty coin, which is also what `Coin::Clear` leaves: a null output. -/
def Coin.empty : Coin := ⟨⟨-1, []⟩, false, 0, false⟩

@[simp] theorem Coin.isSpent_empty : Coin.empty.isSpent = true := rfl

@[simp] theorem Coin.dynamicMemoryUsage_empty : Coin.empty.dynamicMemoryUsage = 0 := rfl

/-- `CCoinsCacheEntry`: a coin and its flags, `dirty` for `DIRTY` and `fresh` for `FRESH`. -/
structure CCoinsCacheEntry where
  coin : Coin
  dirty : Bool := false
  fresh : Bool := false
  deriving DecidableEq

/-- What an entry answers to a read: its coin, unless it is spent. -/
def CCoinsCacheEntry.view (e : CCoinsCacheEntry) : Option Coin :=
  if e.coin.isSpent then none else some e.coin

/-- `CCoinsMap`, the entries of a layer. -/
abbrev CCoinsMap := AList (fun _ : COutPoint => CCoinsCacheEntry)

/-- The view that the entries `m` make over the view `parent`. -/
def CCoinsMap.over (m : CCoinsMap) (parent : CoinsMap) : CoinsMap := fun o =>
  match m.lookup o with
  | some e => e.view
  | none => parent o

/-- The memory the coins of the entries use. -/
def CCoinsMap.usage (m : CCoinsMap) : Nat :=
  AListFold.sumEntries (fun _ e => e.coin.dynamicMemoryUsage) m

/-- A `CCoinsViewCache` layer: its entries and `cachedCoinsUsage`. -/
structure CCoinsViewCache where
  cacheCoins : CCoinsMap := ∅
  cachedCoinsUsage : Nat := 0

/-- A stack of views: the coins database, or a cache layer over a stack. -/
inductive CoinsStack where
  | db (coins : CoinsMap)
  | cache (layer : CCoinsViewCache) (base : CoinsStack)

namespace CCoinsViewCache

/-- `FetchCoin`: the layer's entry, or else a copy of the coin the base's `GetCoin` answers
(computed only then), which is `FRESH` when it is spent. The layer and the base afterwards. -/
def fetchCoin (l : CCoinsViewCache) (base : CoinsStack) (outpoint : COutPoint)
    (baseGetCoin : Unit → Option Coin × CoinsStack) : CCoinsViewCache × CoinsStack :=
  match l.cacheCoins.lookup outpoint with
  | some _ => (l, base)
  | none =>
    match baseGetCoin () with
    | (none, base') => (l, base')
    | (some c, base') =>
      ({ cacheCoins := l.cacheCoins.insert outpoint { coin := c, fresh := c.isSpent }
         cachedCoinsUsage := l.cachedCoinsUsage + c.dynamicMemoryUsage }, base')

/-- The part of `SpendCoin` after `FetchCoin`: a `FRESH` entry is dropped, any other becomes a
dirty empty coin. `false` when there is no entry. -/
def spendFetched (l : CCoinsViewCache) (outpoint : COutPoint) : Bool × CCoinsViewCache :=
  match l.cacheCoins.lookup outpoint with
  | none => (false, l)
  | some e =>
    let usage := l.cachedCoinsUsage - e.coin.dynamicMemoryUsage
    if e.fresh then (true, { cacheCoins := l.cacheCoins.erase outpoint, cachedCoinsUsage := usage })
    else (true, { cacheCoins := l.cacheCoins.insert outpoint { e with dirty := true, coin := .empty }
                  cachedCoinsUsage := usage })

/-- `AddCoin`. The entry is `emplace`d (a new one holds the empty coin); without
`possible_overwrite` it must be spent, and it is `FRESH` when it was not `DIRTY`. -/
def addCoin (l : CCoinsViewCache) (outpoint : COutPoint) (coin : Coin)
    (possible_overwrite : Bool) : Option CCoinsViewCache :=
  if coin.isSpent then none
  else if coin.out.scriptPubKey.isUnspendable then some l
  else
    let (old, usage) := match l.cacheCoins.lookup outpoint with
      | some e => (e, l.cachedCoinsUsage - e.coin.dynamicMemoryUsage)
      | none => ({ coin := .empty }, l.cachedCoinsUsage)
    -- "Adding new coin that replaces non-pruned entry"
    if !possible_overwrite && !old.coin.isSpent then none
    else
      let fresh := !possible_overwrite && !old.dirty
      some { cacheCoins := l.cacheCoins.insert outpoint
               { coin, dirty := true, fresh := old.fresh || fresh }
             cachedCoinsUsage := usage + coin.dynamicMemoryUsage }

/-- `Uncache`: an entry with no flag set is dropped. -/
def uncache (l : CCoinsViewCache) (outpoint : COutPoint) : CCoinsViewCache :=
  match l.cacheCoins.lookup outpoint with
  | some e =>
    if !e.dirty && !e.fresh then
      { cacheCoins := l.cacheCoins.erase outpoint
        cachedCoinsUsage := l.cachedCoinsUsage - e.coin.dynamicMemoryUsage }
    else l
  | none => l

/-- One iteration of `BatchWrite`'s loop: the child's entry `e` for `outpoint` meets the layer's. -/
def batchWriteEntry (l : CCoinsViewCache) (outpoint : COutPoint) (e : CCoinsCacheEntry) :
    Option CCoinsViewCache :=
  if !e.dirty then some l
  else match l.cacheCoins.lookup outpoint with
    | none =>
      -- a `FRESH` spent entry of the child need not reach the parent
      if e.fresh && e.coin.isSpent then some l
      else some { cacheCoins := l.cacheCoins.insert outpoint
                    { coin := e.coin, dirty := true, fresh := e.fresh }
                  cachedCoinsUsage := l.cachedCoinsUsage + e.coin.dynamicMemoryUsage }
    | some us =>
      -- "FRESH flag misapplied to cache entry for base transaction with spendable outputs"
      if e.fresh && !us.coin.isSpent then none
      else if us.fresh && e.coin.isSpent then
        some { cacheCoins := l.cacheCoins.erase outpoint
               cachedCoinsUsage := l.cachedCoinsUsage - us.coin.dynamicMemoryUsage }
      else
        some { cacheCoins := l.cacheCoins.insert outpoint { us with coin := e.coin, dirty := true }
               cachedCoinsUsage :=
                 l.cachedCoinsUsage - us.coin.dynamicMemoryUsage + e.coin.dynamicMemoryUsage }

/-- `BatchWrite`: the child's entries, one after another. -/
def batchWrite (l : CCoinsViewCache) (mapCoins : CCoinsMap) : Option CCoinsViewCache :=
  mapCoins.entries.foldlM (fun l e => l.batchWriteEntry e.1 e.2) l

end CCoinsViewCache

/-- `CCoinsViewDB::BatchWrite`: a dirty entry is written, or erased when it is spent. -/
def CCoinsViewDB.batchWrite (coins : CoinsMap) (mapCoins : CCoinsMap) : CoinsMap :=
  mapCoins.entries.foldl
    (fun m e => if e.2.dirty then Function.update m e.1 e.2.view else m) coins

namespace CoinsStack

/-- `GetCoin`: the unspent coin the view has, and the stack with what `FetchCoin` copied on the
way. The database answers what it stores. -/
def getCoin : CoinsStack → COutPoint → Option Coin × CoinsStack
  | .db coins, o => (coins o, .db coins)
  | .cache l base, o =>
    let (l', base') := l.fetchCoin base o fun _ => base.getCoin o
    ((l'.cacheCoins.lookup o).bind CCoinsCacheEntry.view, .cache l' base')

/-- `AddCoin` on the top layer. -/
def addCoin (s : CoinsStack) (outpoint : COutPoint) (coin : Coin) (possible_overwrite : Bool) :
    Option CoinsStack :=
  match s with
  | .db coins => some (.db coins)
  | .cache l base => (l.addCoin outpoint coin possible_overwrite).map (.cache · base)

/-- `SpendCoin` on the top layer: `FetchCoin`, then the entry is spent. -/
def spendCoin (s : CoinsStack) (outpoint : COutPoint) : Bool × CoinsStack :=
  match s with
  | .db coins => (false, .db coins)
  | .cache l base =>
    let (l', base') := l.fetchCoin base outpoint fun _ => base.getCoin outpoint
    let (spent, l'') := l'.spendFetched outpoint
    (spent, .cache l'' base')

/-- `Uncache` on the top layer. -/
def uncache (s : CoinsStack) (outpoint : COutPoint) : CoinsStack :=
  match s with
  | .db coins => .db coins
  | .cache l base => .cache (l.uncache outpoint) base

/-- `BatchWrite` of a child's entries into the stack's top view. -/
def batchWrite (s : CoinsStack) (mapCoins : CCoinsMap) : Option CoinsStack :=
  match s with
  | .db coins => some (.db (CCoinsViewDB.batchWrite coins mapCoins))
  | .cache l base => (l.batchWrite mapCoins).map (.cache · base)

/-- `Flush` of the top layer: its entries go to the base, and the layer is emptied. -/
def flush (s : CoinsStack) : Option CoinsStack :=
  match s with
  | .db coins => some (.db coins)
  | .cache l base => (base.batchWrite l.cacheCoins).map (.cache {} ·)

/-- An operation on the layer `i` levels down; the layers above it are left as they are. -/
def atLayer : Nat → CoinsStack → (CoinsStack → Option CoinsStack) → Option CoinsStack
  | 0, s, f => f s
  | i + 1, .cache l base, f => (base.atLayer i f).map (.cache l ·)
  | _ + 1, .db coins, _ => some (.db coins)

/-- The map a read of the stack sees. -/
def view : CoinsStack → CoinsMap
  | .db coins => coins
  | .cache l base => l.cacheCoins.over base.view

end CoinsStack

/-- The operations a run performs on a stack of caches, each at a layer (`0` is the top). `fetchCoin` stands for
`GetCoin`, `HaveCoin` and `AccessCoin`, which all run `FetchCoin` and differ only in what they
return. -/
inductive CoinsEvent where
  | addCoin (layer : Nat) (outpoint : COutPoint) (coin : Coin) (possible_overwrite : Bool)
  | spendCoin (layer : Nat) (outpoint : COutPoint)
  | fetchCoin (layer : Nat) (outpoint : COutPoint)
  | uncache (layer : Nat) (outpoint : COutPoint)
  | flush (layer : Nat)

namespace CoinsStack

/-- One operation on the stack. -/
def step (s : CoinsStack) : CoinsEvent → Option CoinsStack
  | .addCoin i o c po => s.atLayer i fun t => t.addCoin o c po
  | .spendCoin i o => s.atLayer i fun t => some (t.spendCoin o).2
  | .fetchCoin i o => s.atLayer i fun t => some (t.getCoin o).2
  | .uncache i o => s.atLayer i fun t => some (t.uncache o)
  | .flush i => s.atLayer i flush

end CoinsStack

/-- The abstract map under the same operations: adds (which ignore unspendable scripts) and
spends change it, the rest read it. -/
def CoinsMap.applyEvent (m : CoinsMap) : CoinsEvent → Option CoinsMap
  | .addCoin _ o c po => m.addCoin o c po
  | .spendCoin _ o => some (Function.update m o none)
  | .fetchCoin .. | .uncache .. | .flush _ => some m

/-! ## What a layer's flags promise -/

/-- What the flags of the entries `m` promise about the view `parent` under them: a `FRESH`
entry's outpoint has no unspent coin there, and an entry that is not `DIRTY` answers as the
parent does. -/
structure CCoinsMap.Consistent (m : CCoinsMap) (parent : CoinsMap) : Prop where
  fresh : ∀ o e, m.lookup o = some e → e.fresh = true → parent o = none
  clean : ∀ o e, m.lookup o = some e → e.dirty = false → e.view = parent o

/-- A valid layer: its entries keep their flags' promises, and `cachedCoinsUsage` is the memory
their coins use. -/
structure CCoinsViewCache.Valid (l : CCoinsViewCache) (parent : CoinsMap) : Prop where
  consistent : l.cacheCoins.Consistent parent
  usage : l.cachedCoinsUsage = l.cacheCoins.usage

/-- A valid stack: every layer is valid over the view under it, and the database stores unspent
coins only. -/
def CoinsStack.Valid : CoinsStack → Prop
  | .db coins => ∀ o c, coins o = some c → c.isSpent = false
  | .cache l base => l.Valid base.view ∧ base.Valid

/-- The stack has a cache layer on top, where `AddCoin` and `SpendCoin` act. -/
def CoinsStack.IsCache (s : CoinsStack) : Prop := ∃ l base, s = .cache l base

namespace CCoinsMap

variable {m : CCoinsMap} {v : CoinsMap} {o : COutPoint} {e : CCoinsCacheEntry}

theorem over_of_lookup_some (h : m.lookup o = some e) : m.over v o = e.view := by
  simp [CCoinsMap.over, h]

theorem over_of_lookup_none (h : m.lookup o = none) : m.over v o = v o := by
  simp [CCoinsMap.over, h]

@[simp] theorem over_empty : (∅ : CCoinsMap).over v = v := rfl

theorem over_insert : CCoinsMap.over (m.insert o e) v = Function.update (m.over v) o e.view := by
  funext o'
  by_cases h : o' = o
  · subst h
    simp [CCoinsMap.over]
  · simp [CCoinsMap.over, h, AList.lookup_insert_ne h]

theorem over_erase : CCoinsMap.over (m.erase o) v = Function.update (m.over v) o (v o) := by
  funext o'
  by_cases h : o' = o
  · subst h
    simp [CCoinsMap.over]
  · simp [CCoinsMap.over, h, AList.lookup_erase_ne h]

theorem usage_insert : usage (m.insert o e) = e.coin.dynamicMemoryUsage + usage (m.erase o) :=
  AListFold.sumEntries_insert _ _ _ _

theorem usage_eq_add_erase (h : m.lookup o = some e) :
    m.usage = e.coin.dynamicMemoryUsage + usage (m.erase o) :=
  AListFold.sumEntries_eq_add_erase _ h

theorem usage_erase_of_lookup_none (h : m.lookup o = none) : usage (m.erase o) = m.usage := by
  rw [AListFold.erase_of_lookup_eq_none h]

theorem Consistent.insert (h : m.Consistent v) (hfresh : e.fresh = true → v o = none)
    (hclean : e.dirty = false → e.view = v o) : Consistent (m.insert o e) v where
  fresh o' e' he' := by
    by_cases ho : o' = o
    · subst ho
      rw [AList.lookup_insert, Option.some.injEq] at he'
      subst he'
      exact hfresh
    · rw [AList.lookup_insert_ne ho] at he'
      exact h.fresh o' e' he'
  clean o' e' he' := by
    by_cases ho : o' = o
    · subst ho
      rw [AList.lookup_insert, Option.some.injEq] at he'
      subst he'
      exact hclean
    · rw [AList.lookup_insert_ne ho] at he'
      exact h.clean o' e' he'

theorem Consistent.erase (h : m.Consistent v) : Consistent (m.erase o) v where
  fresh o' e' he' := by
    by_cases ho : o' = o
    · subst ho
      simp at he'
    · exact h.fresh o' e' (by rwa [AList.lookup_erase_ne ho] at he')
  clean o' e' he' := by
    by_cases ho : o' = o
    · subst ho
      simp at he'
    · exact h.clean o' e' (by rwa [AList.lookup_erase_ne ho] at he')

/-- Promises about a view are promises about any view that agrees with it. -/
theorem Consistent.of_eq {v' : CoinsMap} (h : m.Consistent v) (hv : v' = v) : m.Consistent v' :=
  hv ▸ h

end CCoinsMap

theorem CCoinsCacheEntry.view_eq_some {e : CCoinsCacheEntry} {c : Coin} (h : e.view = some c) :
    e.coin = c ∧ c.isSpent = false := by
  unfold CCoinsCacheEntry.view at h
  split at h
  · cases h
  · cases h
    simp_all

/-- Entries over a view that answers no spent coin make a view that answers none. -/
theorem CCoinsMap.over_unspent {m : CCoinsMap} {v : CoinsMap}
    (hv : ∀ o c, v o = some c → c.isSpent = false) :
    ∀ o c, m.over v o = some c → c.isSpent = false := by
  intro o c h
  unfold CCoinsMap.over at h
  split at h
  · exact (CCoinsCacheEntry.view_eq_some h).2
  · exact hv o c h

/-- A read of a valid stack never answers a spent coin. -/
theorem CoinsStack.view_unspent : ∀ {s : CoinsStack}, s.Valid →
    ∀ o c, s.view o = some c → c.isSpent = false
  | .db _, hs => hs
  | .cache _ _, hs => CCoinsMap.over_unspent (view_unspent hs.2)

namespace CCoinsViewCache

variable {l l' : CCoinsViewCache} {base base' : CoinsStack} {o : COutPoint}

/-- `FetchCoin` over a base whose `GetCoin` answers the base's view and keeps it: the layer stays
valid and makes the same view, and its entry afterwards answers what that view has. -/
theorem fetchCoin_spec {r : Option Coin × CoinsStack} (hl : l.Valid base.view) (hb : base.Valid)
    (hr : r.1 = base.view o) (hrv : r.2.Valid) (hrview : r.2.view = base.view)
    (h : l.fetchCoin base o (fun _ => r) = (l', base')) :
    l'.Valid base.view ∧ base'.Valid ∧ base'.view = base.view ∧
      (l'.cacheCoins.lookup o).bind CCoinsCacheEntry.view = l.cacheCoins.over base.view o ∧
      l'.cacheCoins.over base.view = l.cacheCoins.over base.view := by
  unfold fetchCoin at h
  cases hlk : l.cacheCoins.lookup o with
  | some e =>
    simp only [hlk, Prod.mk.injEq] at h
    obtain ⟨rfl, rfl⟩ := h
    exact ⟨hl, hb, rfl, by simp [hlk, CCoinsMap.over_of_lookup_some hlk], rfl⟩
  | none =>
    obtain ⟨c?, b⟩ := r
    simp only at hr hrv hrview
    cases c? with
    | none =>
      simp only [hlk, Prod.mk.injEq] at h
      obtain ⟨rfl, rfl⟩ := h
      refine ⟨hl, hrv, hrview, ?_, rfl⟩
      rw [hlk, CCoinsMap.over_of_lookup_none hlk, ← hr]
      rfl
    | some c =>
      simp only [hlk, Prod.mk.injEq] at h
      obtain ⟨rfl, rfl⟩ := h
      -- the base answers an unspent coin, so the copy is neither `DIRTY` nor `FRESH`
      have hc : c.isSpent = false := CoinsStack.view_unspent hb o c hr.symm
      have hview : ({ coin := c, fresh := c.isSpent } : CCoinsCacheEntry).view = some c := by
        simp [CCoinsCacheEntry.view, hc]
      refine ⟨⟨hl.consistent.insert (by simp [hc]) (fun _ => hview.trans hr), ?_⟩, hrv, hrview,
        ?_, ?_⟩
      · rw [CCoinsMap.usage_insert, CCoinsMap.usage_erase_of_lookup_none hlk, hl.usage,
          Nat.add_comm]
      · simp [hview, CCoinsMap.over_of_lookup_none hlk, hr]
      · rw [CCoinsMap.over_insert, hview, hr, ← CCoinsMap.over_of_lookup_none (v := base.view) hlk]
        exact Function.update_eq_self _ _

variable {v : CoinsMap}

/-- One entry of `BatchWrite`: when the child's entry keeps its flags' promises about the layer's
view, the layer takes it without throwing, stays valid, and then answers what the entry answers. -/
theorem batchWriteEntry_spec {e : CCoinsCacheEntry} (hl : l.Valid v)
    (hfresh : e.fresh = true → l.cacheCoins.over v o = none)
    (hclean : e.dirty = false → e.view = l.cacheCoins.over v o) :
    ∃ l', l.batchWriteEntry o e = some l' ∧ l'.Valid v ∧
      l'.cacheCoins.over v = Function.update (l.cacheCoins.over v) o e.view := by
  unfold batchWriteEntry
  cases hd : e.dirty with
  | false =>
    -- a clean entry answers as the layer does: skipping it changes nothing
    refine ⟨l, rfl, hl, ?_⟩
    rw [hclean hd]
    exact (Function.update_eq_self _ _).symm
  | true =>
    simp only [Bool.not_true, Bool.false_eq_true, ↓reduceIte]
    cases hlk : l.cacheCoins.lookup o with
    | none =>
      have hv : l.cacheCoins.over v o = v o := CCoinsMap.over_of_lookup_none hlk
      cases hskip : (e.fresh && e.coin.isSpent) with
      | true =>
        -- the parent has no coin here and the child's is spent
        rw [Bool.and_eq_true] at hskip
        have he : e.view = none := by simp [CCoinsCacheEntry.view, hskip.2]
        refine ⟨l, by simp, hl, ?_⟩
        rw [he, ← hfresh hskip.1]
        exact (Function.update_eq_self _ _).symm
      | false =>
        simp only [Bool.false_eq_true, ↓reduceIte, Option.some.injEq, exists_eq_left']
        refine ⟨⟨hl.consistent.insert (fun hf => hv ▸ hfresh hf) (by simp), ?_⟩,
          CCoinsMap.over_insert⟩
        rw [CCoinsMap.usage_insert, CCoinsMap.usage_erase_of_lookup_none hlk, hl.usage,
          Nat.add_comm]
    | some us =>
      have hv : l.cacheCoins.over v o = us.view := CCoinsMap.over_of_lookup_some hlk
      have hus : l.cachedCoinsUsage = us.coin.dynamicMemoryUsage + CCoinsMap.usage
          (l.cacheCoins.erase o) := hl.usage.trans (CCoinsMap.usage_eq_add_erase hlk)
      -- the child's `FRESH` promise rules out the `logic_error`
      have hthrow : (e.fresh && !us.coin.isSpent) = false := by
        cases hf : e.fresh
        · rfl
        · have := hfresh hf
          rw [hv] at this
          simpa [CCoinsCacheEntry.view] using this
      cases herase : (us.fresh && e.coin.isSpent) with
      | true =>
        simp only [hthrow, herase, Bool.false_eq_true, ↓reduceIte, Option.some.injEq,
          exists_eq_left']
        rw [Bool.and_eq_true] at herase
        have hvo : v o = none := hl.consistent.fresh o us hlk herase.1
        have he : e.view = none := by simp [CCoinsCacheEntry.view, herase.2]
        refine ⟨⟨hl.consistent.erase, ?_⟩, ?_⟩
        · simp only
          omega
        · rw [CCoinsMap.over_erase, hvo, he]
      | false =>
        simp only [hthrow, herase, Bool.false_eq_true, ↓reduceIte, Option.some.injEq,
          exists_eq_left']
        refine ⟨⟨hl.consistent.insert (fun hf => hl.consistent.fresh o us hlk hf) (by simp), ?_⟩,
          CCoinsMap.over_insert⟩
        simp only [CCoinsMap.usage_insert]
        omega

/-- The entries of a child as a list: the view they make over `w`. -/
def overList (es : List (Sigma fun _ : COutPoint => CCoinsCacheEntry)) (w : CoinsMap) : CoinsMap :=
  fun o => match es.dlookup o with
    | some e => e.view
    | none => w o

/-- `BatchWrite`'s loop over entries with distinct keys, each keeping its promises about the
layer's view: no entry throws, the layer stays valid and answers what the entries answer. The
induction is on the entries still to write; the layer's view at their keys has not changed. -/
theorem foldlM_batchWriteEntry_spec :
    ∀ {es : List (Sigma fun _ : COutPoint => CCoinsCacheEntry)} {l : CCoinsViewCache},
    es.NodupKeys → l.Valid v →
    (∀ x ∈ es, x.2.fresh = true → l.cacheCoins.over v x.1 = none) →
    (∀ x ∈ es, x.2.dirty = false → x.2.view = l.cacheCoins.over v x.1) →
    ∃ l', es.foldlM (fun l e => l.batchWriteEntry e.1 e.2) l = some l' ∧ l'.Valid v ∧
      l'.cacheCoins.over v = overList es (l.cacheCoins.over v)
  | [], l, _, hl, _, _ => ⟨l, rfl, hl, rfl⟩
  | ⟨o, e⟩ :: rest, l, hnd, hl, hfresh, hclean => by
    rw [List.nodupKeys_cons] at hnd
    obtain ⟨l₁, h₁, hl₁, hview₁⟩ := batchWriteEntry_spec hl (hfresh _ List.mem_cons_self)
      (hclean _ List.mem_cons_self)
    -- the later entries have other keys, where the layer answers as before
    have hrest : ∀ x ∈ rest, l₁.cacheCoins.over v x.1 = l.cacheCoins.over v x.1 := by
      intro x hx
      have hne : x.1 ≠ o := by
        rintro rfl
        exact hnd.1 (List.mem_keys_of_mem hx : x.1 ∈ rest.keys)
      rw [hview₁, Function.update_of_ne hne]
    obtain ⟨l', h', hl', hview'⟩ := foldlM_batchWriteEntry_spec hnd.2 hl₁
      (fun x hx hf => (hrest x hx).trans (hfresh x (List.mem_cons_of_mem _ hx) hf))
      (fun x hx hd => (hclean x (List.mem_cons_of_mem _ hx) hd).trans (hrest x hx).symm)
    refine ⟨l', by simp [h₁, h'], hl', ?_⟩
    funext o'
    rw [hview']
    by_cases ho : o' = o
    · subst ho
      simp [overList, List.dlookup_eq_none.2 hnd.1, hview₁]
    · simp [overList, List.dlookup_cons_ne rest ⟨o, e⟩ ho, hview₁, Function.update_of_ne ho]

/-- `BatchWrite` of a child whose entries keep their promises about the layer's view: it does not
throw, and the layer then makes the view the child made. -/
theorem batchWrite_spec {child : CCoinsMap} (hl : l.Valid v)
    (hc : child.Consistent (l.cacheCoins.over v)) :
    ∃ l', l.batchWrite child = some l' ∧ l'.Valid v ∧
      l'.cacheCoins.over v = child.over (l.cacheCoins.over v) := by
  have hmem : ∀ x ∈ child.entries, child.lookup x.1 = some x.2 :=
    fun x hx => List.mem_dlookup child.nodupKeys hx
  obtain ⟨l', h, hl', hview⟩ := foldlM_batchWriteEntry_spec child.nodupKeys hl
    (fun x hx => hc.fresh x.1 x.2 (hmem x hx)) (fun x hx => hc.clean x.1 x.2 (hmem x hx))
  exact ⟨l', h, hl', hview⟩

/-- `AddCoin` on a valid layer, where the abstract map accepts the add: it does not throw, the
layer stays valid, and it makes the map the abstract add makes. -/
theorem addCoin_spec {c : Coin} {po : Bool} {m' : CoinsMap} (hl : l.Valid v)
    (h : CoinsMap.addCoin (l.cacheCoins.over v) o c po = some m') :
    ∃ l', l.addCoin o c po = some l' ∧ l'.Valid v ∧ l'.cacheCoins.over v = m' := by
  unfold CoinsMap.addCoin at h
  cases hs : c.isSpent with
  | true => simp [hs] at h
  | false =>
  cases hu : c.out.scriptPubKey.isUnspendable with
  | true =>
    simp only [hs, hu, Bool.false_eq_true, ↓reduceIte, Option.some.injEq] at h
    exact ⟨l, by simp [addCoin, hs, hu], hl, h⟩
  | false =>
  simp only [hs, hu, Bool.false_eq_true, ↓reduceIte, Bool.and_eq_true, Bool.not_eq_true',
    Option.isSome_iff_ne_none, ne_eq] at h
  -- without `possible_overwrite`, the view has no coin here
  have hfree : po = false → l.cacheCoins.over v o = none := by
    intro hpo
    by_contra hne
    simp [hpo, hne] at h
  have hm' : m' = Function.update (l.cacheCoins.over v) o (some c) := by
    cases po
    · simp [hfree rfl] at h
      exact h.symm
    · simpa using h.symm
  subst hm'
  have hview : ∀ f : Bool, ({ coin := c, dirty := true, fresh := f } : CCoinsCacheEntry).view =
      some c := by
    simp [CCoinsCacheEntry.view, hs]
  cases hlk : l.cacheCoins.lookup o with
  | none =>
    have hv : l.cacheCoins.over v o = v o := CCoinsMap.over_of_lookup_none hlk
    simp only [addCoin, hs, hu, hlk, Bool.false_eq_true, ↓reduceIte, Coin.isSpent_empty,
      Bool.not_true, Bool.and_false, Bool.false_or, Bool.not_false, Bool.and_true,
      Option.some.injEq, exists_eq_left']
    refine ⟨⟨hl.consistent.insert (fun hf => ?_) (by simp), ?_⟩, by rw [CCoinsMap.over_insert,
      hview]⟩
    · simp only [Bool.not_eq_true'] at hf
      exact hv ▸ hfree hf
    · rw [CCoinsMap.usage_insert, CCoinsMap.usage_erase_of_lookup_none hlk, hl.usage,
        Nat.add_comm]
  | some e =>
    have hv : l.cacheCoins.over v o = e.view := CCoinsMap.over_of_lookup_some hlk
    have hus : l.cachedCoinsUsage = e.coin.dynamicMemoryUsage + CCoinsMap.usage
        (l.cacheCoins.erase o) := hl.usage.trans (CCoinsMap.usage_eq_add_erase hlk)
    -- the entry is spent when there is no `possible_overwrite`, so `AddCoin` does not throw
    have hthrow : (!po && !e.coin.isSpent) = false := by
      cases po
      · have := hfree rfl
        rw [hv] at this
        simpa [CCoinsCacheEntry.view] using this
      · rfl
    simp only [addCoin, hs, hu, hlk, hthrow, Bool.false_eq_true, ↓reduceIte, Option.some.injEq,
      exists_eq_left']
    refine ⟨⟨hl.consistent.insert (fun hf => ?_) (by simp), ?_⟩, by rw [CCoinsMap.over_insert,
      hview]⟩
    · -- a new `FRESH` flag comes from a clean entry whose view, and so the parent's, is empty
      simp only [Bool.or_eq_true, Bool.and_eq_true, Bool.not_eq_true'] at hf
      rcases hf with hf | ⟨hpo, hd⟩
      · exact hl.consistent.fresh o e hlk hf
      · rw [← hl.consistent.clean o e hlk hd, ← hv]
        exact hfree hpo
    · simp only [CCoinsMap.usage_insert]
      omega

/-- The rest of `SpendCoin` on a valid layer that holds the outpoint's entry whenever the view has
a coin there: the layer stays valid, and the view loses the coin. -/
theorem spendFetched_spec (hl : l.Valid v) (hcover : l.cacheCoins.lookup o = none → v o = none) :
    (l.spendFetched o).2.Valid v ∧
      (l.spendFetched o).2.cacheCoins.over v = Function.update (l.cacheCoins.over v) o none := by
  cases hlk : l.cacheCoins.lookup o with
  | none =>
    simp only [spendFetched, hlk]
    refine ⟨hl, ?_⟩
    rw [← hcover hlk, ← CCoinsMap.over_of_lookup_none (v := v) hlk]
    exact (Function.update_eq_self _ _).symm
  | some e =>
    have hus : l.cachedCoinsUsage = e.coin.dynamicMemoryUsage + CCoinsMap.usage
        (l.cacheCoins.erase o) := hl.usage.trans (CCoinsMap.usage_eq_add_erase hlk)
    cases hf : e.fresh with
    | true =>
      -- a `FRESH` entry goes: the parent has no coin here either
      simp only [spendFetched, hlk, hf, ↓reduceIte]
      refine ⟨⟨hl.consistent.erase, by simp only; omega⟩, ?_⟩
      rw [CCoinsMap.over_erase, hl.consistent.fresh o e hlk hf]
    | false =>
      simp only [spendFetched, hlk, hf, Bool.false_eq_true, ↓reduceIte]
      refine ⟨⟨hl.consistent.insert (by simp) (by simp), ?_⟩, ?_⟩
      · simp only [CCoinsMap.usage_insert, Coin.dynamicMemoryUsage_empty]
        omega
      · rw [CCoinsMap.over_insert]
        rfl

end CCoinsViewCache

/-- The database's `BatchWrite` writes what the child's entries answer: a clean entry answers
what the database has. -/
theorem CCoinsViewDB.foldl_batchWrite :
    ∀ {es : List (Sigma fun _ : COutPoint => CCoinsCacheEntry)} {coins : CoinsMap},
    es.NodupKeys → (∀ x ∈ es, x.2.dirty = false → x.2.view = coins x.1) →
    es.foldl (fun m e => if e.2.dirty then Function.update m e.1 e.2.view else m) coins =
      CCoinsViewCache.overList es coins
  | [], _, _, _ => rfl
  | ⟨o, e⟩ :: rest, coins, hnd, hclean => by
    rw [List.nodupKeys_cons] at hnd
    -- after the first entry the database answers its view at its key, and as before elsewhere
    set coins₁ := if e.dirty then Function.update coins o e.view else coins with hcoins₁
    have h₁ : coins₁ = Function.update coins o e.view := by
      cases hd : e.dirty
      · simp only [hcoins₁, hd, Bool.false_eq_true, ↓reduceIte]
        rw [hclean _ List.mem_cons_self hd]
        exact (Function.update_eq_self _ _).symm
      · simp [hcoins₁, hd]
    have hrest : ∀ x ∈ rest, coins₁ x.1 = coins x.1 := by
      intro x hx
      have hne : x.1 ≠ o := by
        rintro rfl
        exact hnd.1 (List.mem_keys_of_mem hx : x.1 ∈ rest.keys)
      rw [h₁, Function.update_of_ne hne]
    rw [List.foldl_cons, foldl_batchWrite hnd.2
      (fun x hx hd => (hclean x (List.mem_cons_of_mem _ hx) hd).trans (hrest x hx).symm)]
    funext o'
    by_cases ho : o' = o
    · subst ho
      simp [CCoinsViewCache.overList, List.dlookup_eq_none.2 hnd.1, h₁]
    · simp [CCoinsViewCache.overList, List.dlookup_cons_ne rest ⟨o, e⟩ ho, h₁, Function.update_of_ne ho]

theorem CCoinsViewDB.batchWrite_eq {coins : CoinsMap} {child : CCoinsMap}
    (hc : child.Consistent coins) : CCoinsViewDB.batchWrite coins child = child.over coins :=
  CCoinsViewDB.foldl_batchWrite child.nodupKeys
    fun x hx => hc.clean x.1 x.2 (List.mem_dlookup child.nodupKeys hx)

namespace CoinsStack

/-- `GetCoin` answers the view, and what `FetchCoin` copies on the way keeps every layer valid and
the view as it was. -/
theorem getCoin_spec : ∀ {s : CoinsStack} (o : COutPoint), s.Valid →
    (s.getCoin o).1 = s.view o ∧ (s.getCoin o).2.Valid ∧ (s.getCoin o).2.view = s.view
  | .db coins, o, hs => ⟨rfl, hs, rfl⟩
  | .cache l base, o, hs => by
    obtain ⟨hr, hrv, hrview⟩ := getCoin_spec (s := base) o hs.2
    generalize hfetch : (l.fetchCoin base o fun _ => base.getCoin o) = p
    obtain ⟨l', base'⟩ := p
    obtain ⟨hl', hb', hbview, hget, hover⟩ :=
      CCoinsViewCache.fetchCoin_spec hs.1 hs.2 hr hrv hrview hfetch
    simp only [getCoin, hfetch, view]
    exact ⟨hget, ⟨hbview ▸ hl', hb'⟩, by rw [hbview, hover]⟩

/-- `BatchWrite` into a valid stack of a child that keeps its promises about the stack's view: it
does not throw, and the stack then makes the child's view. -/
theorem batchWrite_spec {s : CoinsStack} {child : CCoinsMap} (hs : s.Valid)
    (hc : child.Consistent s.view) :
    ∃ s', s.batchWrite child = some s' ∧ s'.Valid ∧ s'.view = child.over s.view := by
  cases s with
  | db coins =>
    refine ⟨_, rfl, ?_, CCoinsViewDB.batchWrite_eq hc⟩
    -- the database stores what the entries answer, which is never a spent coin
    intro o c h
    have hdb : CCoinsViewDB.batchWrite coins child = child.over coins :=
      CCoinsViewDB.batchWrite_eq hc
    rw [hdb] at h
    exact CCoinsMap.over_unspent hs o c h
  | cache l base =>
    obtain ⟨l', h, hl', hview⟩ := CCoinsViewCache.batchWrite_spec hs.1 hc
    exact ⟨.cache l' base, by simp [batchWrite, h], ⟨hl', hs.2⟩, hview⟩

/-- The empty layer is valid over any view. -/
theorem valid_empty_layer (v : CoinsMap) : CCoinsViewCache.Valid {} v where
  consistent := ⟨fun _ _ h => by simp at h, fun _ _ h => by simp at h⟩
  usage := rfl

/-- `Flush` of a valid stack does not throw and keeps the stack's view. -/
theorem flush_spec {s : CoinsStack} (hs : s.Valid) :
    ∃ s', s.flush = some s' ∧ s'.Valid ∧ s'.view = s.view := by
  cases s with
  | db coins => exact ⟨_, rfl, hs, rfl⟩
  | cache l base =>
    obtain ⟨base', h, hb', hview⟩ := batchWrite_spec hs.2 hs.1.consistent
    exact ⟨.cache {} base', by simp [flush, h], ⟨valid_empty_layer _, hb'⟩, hview⟩

/-- `Uncache` keeps a valid stack valid and its view as it was: the entry it drops answers what
the view under it has. -/
theorem uncache_spec {s : CoinsStack} (o : COutPoint) (hs : s.Valid) :
    (s.uncache o).Valid ∧ (s.uncache o).view = s.view := by
  cases s with
  | db coins => exact ⟨hs, rfl⟩
  | cache l base =>
    cases hlk : l.cacheCoins.lookup o with
    | none =>
      simp only [uncache, CCoinsViewCache.uncache, hlk]
      exact ⟨hs, trivial⟩
    | some e =>
      cases hflags : (!e.dirty && !e.fresh) with
      | false =>
        simp only [uncache, CCoinsViewCache.uncache, hlk, hflags, Bool.false_eq_true, ↓reduceIte]
        exact ⟨hs, trivial⟩
      | true =>
        simp only [uncache, CCoinsViewCache.uncache, hlk, hflags, ↓reduceIte]
        simp only [Bool.and_eq_true, Bool.not_eq_true'] at hflags
        refine ⟨⟨⟨hs.1.consistent.erase, ?_⟩, hs.2⟩, ?_⟩
        · rw [hs.1.usage, CCoinsMap.usage_eq_add_erase hlk]
          simp
        · simp only [view]
          rw [CCoinsMap.over_erase, ← hs.1.consistent.clean o e hlk hflags.1,
            ← CCoinsMap.over_of_lookup_some (v := base.view) hlk]
          exact Function.update_eq_self _ _

/-- An operation at some layer that keeps that layer's view keeps the whole stack valid and its
view as it was: the layers above promised things about a view that has not changed. -/
theorem atLayer_spec {f : CoinsStack → Option CoinsStack}
    (hf : ∀ t, t.Valid → ∃ t', f t = some t' ∧ t'.Valid ∧ t'.view = t.view) :
    ∀ (i : Nat) {s : CoinsStack}, s.Valid →
      ∃ s', s.atLayer i f = some s' ∧ s'.Valid ∧ s'.view = s.view
  | 0, s, hs => hf s hs
  | _ + 1, .db coins, hs => ⟨_, rfl, hs, rfl⟩
  | i + 1, .cache l base, hs => by
    obtain ⟨base', h, hb', hview⟩ := atLayer_spec hf i hs.2
    refine ⟨.cache l base', by simp [atLayer, h], ⟨hview ▸ hs.1, hb'⟩, ?_⟩
    simp only [view, hview]

/-- `SpendCoin` on the top layer of a valid stack keeps it valid, and the view loses the coin. -/
theorem spendCoin_spec {s : CoinsStack} (o : COutPoint) (hs : s.Valid) (htop : s.IsCache) :
    (s.spendCoin o).2.Valid ∧ (s.spendCoin o).2.view = Function.update s.view o none := by
  obtain ⟨l, base, rfl⟩ := htop
  obtain ⟨hr, hrv, hrview⟩ := getCoin_spec (s := base) o hs.2
  generalize hfetch : (l.fetchCoin base o fun _ => base.getCoin o) = p
  obtain ⟨l', base'⟩ := p
  obtain ⟨hl', hb', hbview, hget, hover⟩ :=
    CCoinsViewCache.fetchCoin_spec hs.1 hs.2 hr hrv hrview hfetch
  -- after `FetchCoin` the layer holds an entry wherever the view has a coin
  have hcover : l'.cacheCoins.lookup o = none → base.view o = none := by
    intro hnone
    rw [← CCoinsMap.over_of_lookup_none (v := base.view) hnone, hover, ← hget, hnone]
    rfl
  obtain ⟨hl'', hview⟩ := CCoinsViewCache.spendFetched_spec hl' hcover
  simp only [spendCoin, hfetch, view]
  exact ⟨⟨hbview ▸ hl'', hb'⟩, by rw [hbview, hview, hover]⟩

/-- An operation that keeps a stack with a cache layer on top so, at layer `0`, keeps it so at
any layer. -/
theorem atLayer_isCache {f : CoinsStack → Option CoinsStack}
    (hf : ∀ l base t, f (.cache l base) = some t → t.IsCache) :
    ∀ (i : Nat) {s s' : CoinsStack}, s.IsCache → s.atLayer i f = some s' → s'.IsCache
  | 0, _, _, ⟨l, base, rfl⟩, h => hf l base _ h
  | _ + 1, _, _, ⟨l, _, rfl⟩, h => by
    simp only [atLayer, Option.map_eq_some_iff] at h
    obtain ⟨b, -, rfl⟩ := h
    exact ⟨l, b, rfl⟩

end CoinsStack

/-- Adds and spends act on the top layer. -/
def CoinsEvent.writesTop : CoinsEvent → Bool
  | .addCoin i .. | .spendCoin i _ => i == 0
  | .fetchCoin .. | .uncache .. | .flush _ => true

namespace CoinsStack

/-- The step lemma of the refinement: on a valid stack with a cache layer on top, an operation
whose adds and spends act on the top layer does what it does on the abstract map, without
throwing, and keeps the stack valid. -/
theorem step_simulates {s : CoinsStack} {e : CoinsEvent} {m' : CoinsMap}
    (he : e.writesTop = true) (hs : s.Valid) (htop : s.IsCache)
    (h : s.view.applyEvent e = some m') :
    ∃ s', s.step e = some s' ∧ s'.Valid ∧ s'.IsCache ∧ s'.view = m' := by
  cases e with
  | addCoin i o c po =>
    obtain rfl : i = 0 := by simpa [CoinsEvent.writesTop] using he
    obtain ⟨l, base, rfl⟩ := htop
    obtain ⟨l', hadd, hl', hview⟩ := CCoinsViewCache.addCoin_spec hs.1 h
    exact ⟨.cache l' base, by simp [step, atLayer, addCoin, hadd], ⟨hl', hs.2⟩, ⟨_, _, rfl⟩,
      hview⟩
  | spendCoin i o =>
    obtain rfl : i = 0 := by simpa [CoinsEvent.writesTop] using he
    simp only [CoinsMap.applyEvent, Option.some.injEq] at h
    subst h
    obtain ⟨hv, hview⟩ := spendCoin_spec o hs htop
    obtain ⟨l, base, rfl⟩ := htop
    exact ⟨_, rfl, hv, ⟨_, _, rfl⟩, hview⟩
  | fetchCoin i o =>
    simp only [CoinsMap.applyEvent, Option.some.injEq] at h
    subst h
    obtain ⟨s', hstep, hv, hview⟩ :=
      atLayer_spec (fun t ht => ⟨_, rfl, (getCoin_spec o ht).2⟩) i hs
    exact ⟨s', hstep, hv, atLayer_isCache (fun _ _ _ ht => by cases ht; exact ⟨_, _, rfl⟩) i
      htop hstep, hview⟩
  | uncache i o =>
    simp only [CoinsMap.applyEvent, Option.some.injEq] at h
    subst h
    obtain ⟨s', hstep, hv, hview⟩ := atLayer_spec (fun t ht => ⟨_, rfl, uncache_spec o ht⟩) i hs
    exact ⟨s', hstep, hv, atLayer_isCache (fun _ _ _ ht => by cases ht; exact ⟨_, _, rfl⟩) i
      htop hstep, hview⟩
  | flush i =>
    simp only [CoinsMap.applyEvent, Option.some.injEq] at h
    subst h
    obtain ⟨s', hstep, hv, hview⟩ := atLayer_spec (fun t ht => flush_spec ht) i hs
    refine ⟨s', hstep, hv, atLayer_isCache (fun l base t ht => ?_) i htop hstep, hview⟩
    simp only [flush, Option.map_eq_some_iff] at ht
    obtain ⟨b, -, rfl⟩ := ht
    exact ⟨_, _, rfl⟩

/-- The cache layers of a stack, top first. -/
def layers : CoinsStack → List CCoinsViewCache
  | .db _ => []
  | .cache l base => l :: base.layers

/-- In a valid stack, every layer's `cachedCoinsUsage` is the memory its coins use. -/
theorem Valid.usage_layers : ∀ {s : CoinsStack}, s.Valid →
    ∀ l ∈ s.layers, l.cachedCoinsUsage = l.cacheCoins.usage
  | .db _, _ => by simp [layers]
  | .cache _ _, hs => by
    intro l hl
    rcases List.mem_cons.1 hl with rfl | hl
    · exact hs.1.usage
    · exact Valid.usage_layers hs.2 l hl

/-- The view at the layer `i` levels down (the database below the last layer). -/
def layerAt : Nat → CoinsStack → CoinsStack
  | 0, s => s
  | i + 1, .cache _ base => base.layerAt i
  | _ + 1, .db coins => .db coins

end CoinsStack

/-- A stack of coin caches written at its top refines one map: from any valid stack, every run
of adds and spends on the top layer and of reads, `Uncache`s and `Flush`es on any layer, whose
adds the abstract map accepts, succeeds (no `AddCoin` or `BatchWrite` throws); `GetCoin` on the
top layer then answers what the abstract map holds, and every layer's `cachedCoinsUsage` is the
memory its coins use. -/
theorem coinsCache_top_refines_map (l : CCoinsViewCache) (base : CoinsStack)
    (hs : (CoinsStack.cache l base).Valid) (es : List CoinsEvent)
    (htop : ∀ e ∈ es, e.writesTop = true) (m' : CoinsMap)
    (href : Machine.run CoinsMap.applyEvent (CoinsStack.cache l base).view es = some m') :
    ∃ s', Machine.run CoinsStack.step (.cache l base) es = some s' ∧
      (∀ o, (s'.getCoin o).1 = m' o) ∧
      ∀ l' ∈ s'.layers, l'.cachedCoinsUsage = l'.cacheCoins.usage := by
  obtain ⟨s', hrun, hv, -, hview⟩ := Machine.run_simulate
    (S := fun (s : CoinsStack) (m : CoinsMap) => s.Valid ∧ s.IsCache ∧ s.view = m)
    (R := fun e => e.writesTop = true)
    (fun s m e m' he ⟨hs, htop, hm⟩ h => CoinsStack.step_simulates he hs htop (hm ▸ h))
    htop ⟨hs, ⟨l, base, rfl⟩, rfl⟩ href
  refine ⟨s', hrun, fun o => ?_, hv.usage_layers⟩
  rw [(CoinsStack.getCoin_spec o hv).1, hview]

namespace CoinsCacheFixture

/-- An outpoint and an unspent coin locked by `OP_TRUE`. -/
def op : COutPoint := ⟨1, 0⟩
def coin : Coin := ⟨⟨50, [0x51]⟩, false, 1, false⟩

/-- An empty cache layer over an empty database. -/
def emptyStack : CoinsStack := .cache {} (.db fun _ => none)

theorem emptyStack_valid : emptyStack.Valid :=
  ⟨CoinsStack.valid_empty_layer _, fun _ _ h => by cases h⟩

/-- Add `coin` at the top, flush it to the database, and read it back. -/
def addFlushRead : List CoinsEvent := [.addCoin 0 op coin false, .flush 0, .fetchCoin 0 op]

theorem coinsCache_top_refines_map_addFlushRead :
    emptyStack.Valid ∧ (∀ e ∈ addFlushRead, e.writesTop = true) ∧
    Machine.run CoinsMap.applyEvent emptyStack.view addFlushRead =
      some (Function.update emptyStack.view op (some coin)) ∧
    ∃ s', Machine.run CoinsStack.step emptyStack addFlushRead = some s' ∧
      (∀ o, (s'.getCoin o).1 = Function.update emptyStack.view op (some coin) o) ∧
      ∀ l' ∈ s'.layers, l'.cachedCoinsUsage = l'.cacheCoins.usage := by
  have htop : ∀ e ∈ addFlushRead, e.writesTop = true := by decide
  have href : Machine.run CoinsMap.applyEvent emptyStack.view addFlushRead =
      some (Function.update emptyStack.view op (some coin)) := rfl
  exact ⟨emptyStack_valid, htop, href,
    coinsCache_top_refines_map {} (.db fun _ => none) emptyStack_valid addFlushRead htop _ href⟩

/-- `coin` at `op` in the database, under two empty cache layers. -/
def twoLayers : CoinsStack :=
  .cache {} (.cache {} (.db (Function.update (fun _ => none) op (some coin))))

/-- A stack of caches written at any layer is not one map. The top layer reads `op`, and the
layer under it then spends it: the map has no coin at `op`, and the top layer still answers its
copy. And an add at the top is not seen by `GetCoin` on the layer under it. -/
theorem lower_write_not_seen_above :
    (∃ s' m', Machine.run CoinsStack.step twoLayers [.fetchCoin 0 op, .spendCoin 1 op] = some s' ∧
      Machine.run CoinsMap.applyEvent twoLayers.view [.fetchCoin 0 op, .spendCoin 1 op] =
        some m' ∧
      (s'.getCoin op).1 = some coin ∧ m' op = none) ∧
    (∃ s' m', Machine.run CoinsStack.step emptyStack [.addCoin 0 op coin false] = some s' ∧
      Machine.run CoinsMap.applyEvent emptyStack.view [.addCoin 0 op coin false] = some m' ∧
      ((s'.layerAt 1).getCoin op).1 = none ∧ m' op = some coin) :=
  ⟨⟨_, _, rfl, rfl, rfl, rfl⟩, ⟨_, _, rfl, rfl, rfl, rfl⟩⟩

end CoinsCacheFixture

end Emrals
