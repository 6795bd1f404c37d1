import Mathlib
import Emrals.Primitives
import Emrals.Lib.Loop

/-!
# The spork manager's cleanup

`CSporkManager` (`src/spork.cpp`) keeps every spork message it accepted twice: by its hash in
`mapSporksByHash`, and under its spork id and signer in `mapSporksActive`. The signer keys are
not saved with the rest (`SerializationOp`), so a manager read back from `sporks.dat` by
`CFlatDB::Load` holds the messages of the keys configured in an earlier run, and `Load` runs
`CheckAndRemove` to drop what the present keys did not sign.

`CheckAndRemove` is three loops that erase while they iterate, each a `Loop.loop` over the
entries at and after its iterator. Two rules of `Loop` settle when it finishes. When every signer
in `mapSporksActive` is configured, each round advances an iterator or erases its entry, and the
variant rule gives the result (`checkAndRemove_eq`): the signatures that check, the spork ids
that keep one, and the messages some configured key signed (`CheckedState`). When a signer is
not configured, the inner loop erases the message's hash and `continue`s at the same entry; the
divergence rule then shows that no fuel finishes it (`checkAndRemove_eq_none`).

`std::map`s are lists of their entries in key order. The hash of a message and the two signature
checks are parameters.
-/

namespace Emrals

/-- `CSporkMessage`. -/
structure CSporkMessage where
  nSporkID : Int
  nValue : Int
  nTimeSigned : Int
  vchSig : List UInt8
  deriving DecidableEq, Repr

/-- `std::map::erase` by key. -/
def mapErase {K V : Type} [DecidableEq K] (k : K) (m : List (K × V)) : List (K × V) :=
  m.filter fun e => e.1 != k

/-- The spork manager: the two maps of messages, the configured keys and the threshold. -/
structure CSporkManager where
  mapSporksByHash : List (uint256 × CSporkMessage)
  mapSporksActive : List (Int × List (CKeyID × CSporkMessage))
  setSporkPubKeyIDs : List CKeyID
  nMinSporkKeys : Int

section
variable (GetHash : CSporkMessage → uint256) (CheckSignature : CSporkMessage → CKeyID → Bool → Bool)

/-- The signature check `CheckAndRemove` makes of a message and a key: with the message format or
with the hash format (`fSporkSixActive`). -/
def signedBy (spork : CSporkMessage) (signer : CKeyID) : Bool :=
  CheckSignature spork signer false || CheckSignature spork signer true

/-! ## The three loops of `CheckAndRemove` -/

/-- The inner loop over one spork id's signers: those kept so far, those at and after
`itSignerPair`, and `mapSporksByHash`. -/
structure SignerLoop where
  kept : List (CKeyID × CSporkMessage)
  rest : List (CKeyID × CSporkMessage)
  byHash : List (uint256 × CSporkMessage)

/-- A round of the loop over `itSignerPair`. -/
def checkSignersRound (keys : List CKeyID) (s : SignerLoop) : Option (SignerLoop ⊕ SignerLoop) :=
  match s.rest with
  | [] => some (.inr s)
  | (signer, spork) :: rest =>
    if signer ∉ keys then
      -- `continue` without `++itSignerPair`
      some (.inl { s with byHash := mapErase (GetHash spork) s.byHash })
    else if !signedBy CheckSignature spork signer then
      some (.inl { s with rest := rest, byHash := mapErase (GetHash spork) s.byHash })
    else some (.inl { s with kept := s.kept ++ [(signer, spork)], rest := rest })

/-- The outer loop over `mapSporksActive`: the spork ids kept so far, those at and after
`itActive`, and `mapSporksByHash`. -/
structure ActiveLoop where
  kept : List (Int × List (CKeyID × CSporkMessage))
  rest : List (Int × List (CKeyID × CSporkMessage))
  byHash : List (uint256 × CSporkMessage)

/-- A round of the loop over `itActive`, which runs the loop over its signers with the same fuel. -/
def checkSporksRound (keys : List CKeyID) (fuel : Nat) (s : ActiveLoop) :
    Option (ActiveLoop ⊕ ActiveLoop) :=
  match s.rest with
  | [] => some (.inr s)
  | (nSporkID, signers) :: rest => do
    let r ← Loop.loop (checkSignersRound GetHash CheckSignature keys) fuel ⟨[], signers, s.byHash⟩
    if r.kept.isEmpty then some (.inl { s with rest := rest, byHash := r.byHash })
    else
      some (.inl { s with kept := s.kept ++ [(nSporkID, r.kept)], rest := rest, byHash := r.byHash })

/-- The loop over `mapSporksByHash`: the entries kept so far and those at and after `itByHash`. -/
structure ByHashLoop where
  kept : List (uint256 × CSporkMessage)
  rest : List (uint256 × CSporkMessage)

/-- A round of the loop over `itByHash`: the message stays if some configured key signed it. -/
def checkByHashRound (keys : List CKeyID) (s : ByHashLoop) :
    Option (ByHashLoop ⊕ List (uint256 × CSporkMessage)) :=
  match s.rest with
  | [] => some (.inr s.kept)
  | (hash, spork) :: rest =>
    let found := keys.any fun signer => signedBy CheckSignature spork signer
    if !found then some (.inl { s with rest := rest })
    else some (.inl { kept := s.kept ++ [(hash, spork)], rest := rest })

/-- `CSporkManager::CheckAndRemove`, each loop running at most `fuel` rounds; `none` is the failed
`assert(fSporkAddressIsSet)` or a loop that has not finished. -/
def checkAndRemove (fuel : Nat) (m : CSporkManager) : Option CSporkManager := do
  if m.setSporkPubKeyIDs.isEmpty then none
  let active ← Loop.loop (checkSporksRound GetHash CheckSignature m.setSporkPubKeyIDs fuel) fuel
    ⟨[], m.mapSporksActive, m.mapSporksByHash⟩
  let byHash ← Loop.loop (checkByHashRound CheckSignature m.setSporkPubKeyIDs) fuel
    ⟨[], active.byHash⟩
  some { m with mapSporksActive := active.kept, mapSporksByHash := byHash }

/-! ## What `CheckAndRemove` keeps -/

/-- The signers of a spork id whose signatures check. -/
def checkedSigners (signers : List (CKeyID × CSporkMessage)) : List (CKeyID × CSporkMessage) :=
  signers.filter fun e => signedBy CheckSignature e.2 e.1

/-- The signers of a spork id whose signatures fail. -/
def rejectedSigners (signers : List (CKeyID × CSporkMessage)) : List (CKeyID × CSporkMessage) :=
  signers.filter fun e => !signedBy CheckSignature e.2 e.1

/-- `mapSporksByHash` without the hashes of the messages `es`. -/
def eraseHashes (es : List (CKeyID × CSporkMessage)) (byHash : List (uint256 × CSporkMessage)) :
    List (uint256 × CSporkMessage) :=
  es.foldl (fun b e => mapErase (GetHash e.2) b) byHash

/-- The messages of all spork ids whose signatures fail. -/
def rejectedSporks (active : List (Int × List (CKeyID × CSporkMessage))) :
    List (CKeyID × CSporkMessage) :=
  active.flatMap fun e => rejectedSigners CheckSignature e.2

/-- The spork ids with the signers whose signatures check, those left with none dropped. -/
def checkedSporks (active : List (Int × List (CKeyID × CSporkMessage))) :
    List (Int × List (CKeyID × CSporkMessage)) :=
  active.filterMap fun e =>
    if (checkedSigners CheckSignature e.2).isEmpty then none
    else some (e.1, checkedSigners CheckSignature e.2)

/-- A cleaned manager: every signer configured and its signature checking, no spork id without
signers, and every message by hash signed by a configured key. -/
structure CheckedState (m : CSporkManager) : Prop where
  active_signed : ∀ e ∈ m.mapSporksActive, ∀ x ∈ e.2,
    x.1 ∈ m.setSporkPubKeyIDs ∧ signedBy CheckSignature x.2 x.1 = true
  active_ne_nil : ∀ e ∈ m.mapSporksActive, e.2 ≠ []
  byHash_signed : ∀ e ∈ m.mapSporksByHash,
    ∃ signer ∈ m.setSporkPubKeyIDs, signedBy CheckSignature e.2 signer = true

/-- Every signer of `mapSporksActive` is configured. -/
def SignersConfigured (keys : List CKeyID) (active : List (Int × List (CKeyID × CSporkMessage))) :
    Prop :=
  ∀ e ∈ active, ∀ x ∈ e.2, x.1 ∈ keys

/-- The rounds `CheckAndRemove` may need: no loop runs longer than its map. -/
def sporkStateSize (m : CSporkManager) : Nat :=
  m.mapSporksActive.length + (m.mapSporksActive.map fun e => e.2.length).sum +
    m.mapSporksByHash.length

end

section
variable {GetHash : CSporkMessage → uint256} {CheckSignature : CSporkMessage → CKeyID → Bool → Bool}
  {keys : List CKeyID}

/-! ## The loop over one spork id's signers -/

theorem checkSignersRound_of_not_mem {s : SignerLoop} {signer : CKeyID} {spork : CSporkMessage}
    {rest : List (CKeyID × CSporkMessage)} (hrest : s.rest = (signer, spork) :: rest)
    (hk : signer ∉ keys) :
    checkSignersRound GetHash CheckSignature keys s =
      some (.inl { s with byHash := mapErase (GetHash spork) s.byHash }) := by
  rw [checkSignersRound, hrest]
  simp [hk]

theorem checkSignersRound_of_mem {s : SignerLoop} {signer : CKeyID} {spork : CSporkMessage}
    {rest : List (CKeyID × CSporkMessage)} (hrest : s.rest = (signer, spork) :: rest)
    (hk : signer ∈ keys) :
    checkSignersRound GetHash CheckSignature keys s = some (.inl
      (if signedBy CheckSignature spork signer then
        { s with kept := s.kept ++ [(signer, spork)], rest := rest }
      else { s with rest := rest, byHash := mapErase (GetHash spork) s.byHash })) := by
  rw [checkSignersRound, hrest]
  by_cases hs : signedBy CheckSignature spork signer <;> simp [hk, hs]

/-- With every signer configured, the loop keeps the signers whose signatures check and erases
the hashes of the others. -/
theorem loop_checkSignersRound (fuel : Nat) (signers : List (CKeyID × CSporkMessage))
    (byHash : List (uint256 × CSporkMessage)) (hkeys : ∀ x ∈ signers, x.1 ∈ keys)
    (hfuel : signers.length < fuel) :
    Loop.loop (checkSignersRound GetHash CheckSignature keys) fuel ⟨[], signers, byHash⟩ =
      some ⟨checkedSigners CheckSignature signers, [],
        eraseHashes GetHash (rejectedSigners CheckSignature signers) byHash⟩ := by
  -- the kept signers and the erased hashes, completed by what the rest of the loop adds
  let P : SignerLoop → Prop := fun s =>
    s.kept ++ checkedSigners CheckSignature s.rest = checkedSigners CheckSignature signers ∧
      eraseHashes GetHash (rejectedSigners CheckSignature s.rest) s.byHash =
        eraseHashes GetHash (rejectedSigners CheckSignature signers) byHash ∧
      ∀ x ∈ s.rest, x.1 ∈ keys
  have hround : ∀ s, P s →
      (∃ s', checkSignersRound GetHash CheckSignature keys s = some (.inl s') ∧ P s' ∧
        s'.rest.length < s.rest.length) ∨
      ∃ r, checkSignersRound GetHash CheckSignature keys s = some (.inr r) ∧
        r = ⟨checkedSigners CheckSignature signers, [],
          eraseHashes GetHash (rejectedSigners CheckSignature signers) byHash⟩ := by
    rintro ⟨kept, rest, b⟩ ⟨hK, hB, hk⟩
    cases rest with
    | nil =>
      right
      refine ⟨_, rfl, ?_⟩
      rw [show checkedSigners CheckSignature [] = [] from rfl, List.append_nil] at hK
      rw [← hK, ← hB]
      rfl
    | cons x rest =>
      obtain ⟨signer, spork⟩ := x
      have hmem := hk _ List.mem_cons_self
      have hk' : ∀ y ∈ rest, y.1 ∈ keys := fun y hy => hk y (List.mem_cons_of_mem _ hy)
      left
      by_cases hs : signedBy CheckSignature spork signer = true
      · refine ⟨⟨kept ++ [(signer, spork)], rest, b⟩,
          by rw [checkSignersRound_of_mem rfl hmem, if_pos hs], ⟨?_, ?_, hk'⟩, by simp⟩
        · rw [← hK]
          simp [checkedSigners, hs]
        · rw [← hB]
          simp [rejectedSigners, hs]
      · refine ⟨⟨kept, rest, mapErase (GetHash spork) b⟩,
          by rw [checkSignersRound_of_mem rfl hmem, if_neg hs], ⟨?_, ?_, hk'⟩, by simp⟩
        · rw [← hK]
          simp [checkedSigners, hs]
        · rw [← hB]
          simp [rejectedSigners, eraseHashes, hs]
  obtain ⟨r, hr, rfl⟩ := Loop.loop_of_variant (fun s : SignerLoop => s.rest.length) hround fuel
    ⟨[], signers, byHash⟩ ⟨List.nil_append _, rfl, hkeys⟩ hfuel
  exact hr

/-- A signer that is not configured is never passed: no fuel finishes the loop. -/
theorem loop_checkSignersRound_eq_none (fuel : Nat) (s : SignerLoop)
    (h : ∃ x ∈ s.rest, x.1 ∉ keys) :
    Loop.loop (checkSignersRound GetHash CheckSignature keys) fuel s = none := by
  refine Loop.loop_eq_none_of_stuck (P := fun s : SignerLoop => ∃ x ∈ s.rest, x.1 ∉ keys)
    (fun s h => ?_) fuel s h
  obtain ⟨⟨signer', spork'⟩, hx, hnk⟩ := h
  rcases hrest : s.rest with _ | ⟨⟨signer, spork⟩, rest⟩
  · rw [hrest] at hx
    cases hx
  · right
    by_cases hk : signer ∈ keys
    · refine ⟨_, checkSignersRound_of_mem hrest hk, ?_⟩
      -- the signer not configured is further on
      have hx' : (signer', spork') ∈ rest := by
        rw [hrest] at hx
        rcases List.mem_cons.mp hx with heq | hx'
        · cases heq
          exact absurd hk hnk
        · exact hx'
      split <;> exact ⟨_, hx', hnk⟩
    · exact ⟨_, checkSignersRound_of_not_mem hrest hk, _, hrest ▸ hx, hnk⟩

/-! ## The loop over `mapSporksActive` -/

theorem checkedSporks_cons (e : Int × List (CKeyID × CSporkMessage))
    (active : List (Int × List (CKeyID × CSporkMessage))) :
    checkedSporks CheckSignature (e :: active) =
      (if (checkedSigners CheckSignature e.2).isEmpty then []
        else [(e.1, checkedSigners CheckSignature e.2)]) ++ checkedSporks CheckSignature active := by
  rw [checkedSporks, List.filterMap_cons]
  by_cases h : (checkedSigners CheckSignature e.2).isEmpty = true
  · rw [if_pos h, if_pos h]
    rfl
  · rw [if_neg h, if_neg h]
    rfl

theorem checkSporksRound_of_configured {fuel : Nat} {s : ActiveLoop} {nSporkID : Int}
    {signers : List (CKeyID × CSporkMessage)} {rest : List (Int × List (CKeyID × CSporkMessage))}
    (hrest : s.rest = (nSporkID, signers) :: rest) (hkeys : ∀ x ∈ signers, x.1 ∈ keys)
    (hfuel : signers.length < fuel) :
    checkSporksRound GetHash CheckSignature keys fuel s = some (.inl
      (if (checkedSigners CheckSignature signers).isEmpty then
        { s with
          rest := rest
          byHash := eraseHashes GetHash (rejectedSigners CheckSignature signers) s.byHash }
      else
        { s with
          kept := s.kept ++ [(nSporkID, checkedSigners CheckSignature signers)]
          rest := rest
          byHash := eraseHashes GetHash (rejectedSigners CheckSignature signers) s.byHash })) := by
  rw [checkSporksRound, hrest]
  simp only [loop_checkSignersRound fuel signers s.byHash hkeys hfuel, Option.bind_eq_bind,
    Option.bind_some]
  split <;> rfl

theorem checkSporksRound_eq_none {fuel : Nat} {s : ActiveLoop} {nSporkID : Int}
    {signers : List (CKeyID × CSporkMessage)} {rest : List (Int × List (CKeyID × CSporkMessage))}
    (hrest : s.rest = (nSporkID, signers) :: rest) (h : ∃ x ∈ signers, x.1 ∉ keys) :
    checkSporksRound GetHash CheckSignature keys fuel s = none := by
  rw [checkSporksRound, hrest]
  simp only [loop_checkSignersRound_eq_none fuel ⟨[], signers, s.byHash⟩ h, Option.bind_eq_bind,
    Option.bind_none]

/-- With every signer configured, the loop keeps the spork ids with the signers whose signatures
check, and erases the hashes of the others. -/
theorem loop_checkSporksRound (fuel : Nat) (active : List (Int × List (CKeyID × CSporkMessage)))
    (byHash : List (uint256 × CSporkMessage)) (hkeys : SignersConfigured keys active)
    (hfuel : ∀ e ∈ active, e.2.length < fuel) (hlen : active.length < fuel) :
    Loop.loop (checkSporksRound GetHash CheckSignature keys fuel) fuel ⟨[], active, byHash⟩ =
      some ⟨checkedSporks CheckSignature active, [],
        eraseHashes GetHash (rejectedSporks CheckSignature active) byHash⟩ := by
  let P : ActiveLoop → Prop := fun s =>
    s.kept ++ checkedSporks CheckSignature s.rest = checkedSporks CheckSignature active ∧
      eraseHashes GetHash (rejectedSporks CheckSignature s.rest) s.byHash =
        eraseHashes GetHash (rejectedSporks CheckSignature active) byHash ∧
      SignersConfigured keys s.rest ∧ ∀ e ∈ s.rest, e.2.length < fuel
  have hround : ∀ s, P s →
      (∃ s', checkSporksRound GetHash CheckSignature keys fuel s = some (.inl s') ∧ P s' ∧
        s'.rest.length < s.rest.length) ∨
      ∃ r, checkSporksRound GetHash CheckSignature keys fuel s = some (.inr r) ∧
        r = ⟨checkedSporks CheckSignature active, [],
          eraseHashes GetHash (rejectedSporks CheckSignature active) byHash⟩ := by
    rintro ⟨kept, rest, b⟩ ⟨hK, hB, hk, hf⟩
    dsimp only at hK hB hk hf
    cases rest with
    | nil =>
      right
      refine ⟨_, rfl, ?_⟩
      rw [show checkedSporks CheckSignature [] = [] from rfl, List.append_nil] at hK
      rw [← hK, ← hB]
      rfl
    | cons e rest =>
      obtain ⟨nSporkID, signers⟩ := e
      have hk' : SignersConfigured keys rest := fun e he => hk e (List.mem_cons_of_mem _ he)
      have hf' : ∀ e ∈ rest, e.2.length < fuel := fun e he => hf e (List.mem_cons_of_mem _ he)
      have hB' : eraseHashes GetHash (rejectedSporks CheckSignature rest)
          (eraseHashes GetHash (rejectedSigners CheckSignature signers) b) =
          eraseHashes GetHash (rejectedSporks CheckSignature active) byHash := by
        rw [← hB]
        simp only [rejectedSporks, List.flatMap_cons, eraseHashes, List.foldl_append]
      have hround := @checkSporksRound_of_configured GetHash CheckSignature keys fuel
        ⟨kept, (nSporkID, signers) :: rest, b⟩ nSporkID signers rest rfl
        (hk _ List.mem_cons_self) (hf _ List.mem_cons_self)
      left
      by_cases hs : (checkedSigners CheckSignature signers).isEmpty = true
      · rw [if_pos hs] at hround
        refine ⟨_, hround, ⟨?_, hB', hk', hf'⟩, by simp⟩
        rw [← hK, checkedSporks_cons, if_pos hs]
        rfl
      · rw [if_neg hs] at hround
        refine ⟨_, hround, ⟨?_, hB', hk', hf'⟩, by simp⟩
        rw [← hK, checkedSporks_cons, if_neg hs, List.append_assoc]
  obtain ⟨r, hr, rfl⟩ := Loop.loop_of_variant (fun s : ActiveLoop => s.rest.length) hround fuel
    ⟨[], active, byHash⟩ ⟨List.nil_append _, rfl, hkeys, hfuel⟩ hlen
  exact hr

/-- A spork id with a signer that is not configured stops the loop for good. -/
theorem loop_checkSporksRound_eq_none (fuel : Nat) (s : ActiveLoop)
    (h : ∃ e ∈ s.rest, ∃ x ∈ e.2, x.1 ∉ keys) :
    Loop.loop (checkSporksRound GetHash CheckSignature keys fuel) fuel s = none := by
  refine Loop.loop_eq_none_of_stuck (P := fun s : ActiveLoop => ∃ e ∈ s.rest, ∃ x ∈ e.2, x.1 ∉ keys)
    (fun s h => ?_) fuel s h
  obtain ⟨e, he, hbad⟩ := h
  rcases hrest : s.rest with _ | ⟨⟨nSporkID, signers⟩, rest⟩
  · rw [hrest] at he
    cases he
  · by_cases hsig : ∃ x ∈ signers, x.1 ∉ keys
    · exact .inl (checkSporksRound_eq_none hrest hsig)
    -- the spork id at `itActive` has only configured signers: the one that has not is further on
    have he' : e ∈ rest := by
      rw [hrest] at he
      rcases List.mem_cons.mp he with rfl | he'
      · exact absurd hbad hsig
      · exact he'
    rw [checkSporksRound, hrest]
    dsimp only
    cases Loop.loop (checkSignersRound GetHash CheckSignature keys) fuel ⟨[], signers, s.byHash⟩ with
    | none => exact .inl rfl
    | some r =>
      right
      simp only [Option.bind_eq_bind, Option.bind_some]
      split
      · exact ⟨_, rfl, e, he', hbad⟩
      · exact ⟨_, rfl, e, he', hbad⟩

/-! ## The loop over `mapSporksByHash` -/

/-- The loop keeps the messages some configured key signed. -/
theorem loop_checkByHashRound (fuel : Nat) (byHash : List (uint256 × CSporkMessage))
    (hfuel : byHash.length < fuel) :
    Loop.loop (checkByHashRound CheckSignature keys) fuel ⟨[], byHash⟩ =
      some (byHash.filter fun e => keys.any fun signer => signedBy CheckSignature e.2 signer) := by
  let found : uint256 × CSporkMessage → Bool := fun e =>
    keys.any fun signer => signedBy CheckSignature e.2 signer
  have hround : ∀ s : ByHashLoop, s.kept ++ s.rest.filter found = byHash.filter found →
      (∃ s', checkByHashRound CheckSignature keys s = some (.inl s') ∧
        s'.kept ++ s'.rest.filter found = byHash.filter found ∧ s'.rest.length < s.rest.length) ∨
      ∃ r, checkByHashRound CheckSignature keys s = some (.inr r) ∧ r = byHash.filter found := by
    rintro ⟨kept, rest⟩ hK
    dsimp only at hK
    cases rest with
    | nil =>
      rw [List.filter_nil, List.append_nil] at hK
      exact .inr ⟨kept, rfl, hK⟩
    | cons e rest =>
      obtain ⟨hash, spork⟩ := e
      left
      by_cases hf : found (hash, spork) = true
      · refine ⟨⟨kept ++ [(hash, spork)], rest⟩, ?_, ?_, by simp⟩
        · simp only [checkByHashRound]
          rw [if_neg (by simpa [found] using hf)]
        · rw [← hK, List.filter_cons_of_pos hf, List.append_assoc]
          rfl
      · refine ⟨⟨kept, rest⟩, ?_, ?_, by simp⟩
        · simp only [checkByHashRound]
          rw [if_pos (by simpa [found] using hf)]
        · rw [← hK, List.filter_cons_of_neg hf]
  obtain ⟨r, hr, rfl⟩ := Loop.loop_of_variant (fun s : ByHashLoop => s.rest.length) hround fuel
    ⟨[], byHash⟩ (List.nil_append _) hfuel
  exact hr

theorem length_eraseHashes_le (es : List (CKeyID × CSporkMessage))
    (byHash : List (uint256 × CSporkMessage)) : (eraseHashes GetHash es byHash).length ≤ byHash.length := by
  induction es generalizing byHash with
  | nil => exact Nat.le_refl _
  | cons e es ih =>
    calc (eraseHashes GetHash (e :: es) byHash).length
        = (eraseHashes GetHash es (mapErase (GetHash e.2) byHash)).length := rfl
      _ ≤ (mapErase (GetHash e.2) byHash).length := ih _
      _ ≤ byHash.length := List.length_filter_le _ _

/-! ## `CheckAndRemove` -/

/-- With keys configured and every signer of `mapSporksActive` among them, `CheckAndRemove`
finishes within the size of the maps: it keeps the signatures that check and the spork ids left
with one, and the messages by hash that the erasures left and a configured key signed. -/
theorem checkAndRemove_eq (fuel : Nat) (m : CSporkManager) (hne : m.setSporkPubKeyIDs ≠ [])
    (hkeys : SignersConfigured m.setSporkPubKeyIDs m.mapSporksActive)
    (hfuel : sporkStateSize m < fuel) :
    checkAndRemove GetHash CheckSignature fuel m = some { m with
      mapSporksActive := checkedSporks CheckSignature m.mapSporksActive
      mapSporksByHash :=
        (eraseHashes GetHash (rejectedSporks CheckSignature m.mapSporksActive)
          m.mapSporksByHash).filter fun e =>
            m.setSporkPubKeyIDs.any fun signer => signedBy CheckSignature e.2 signer } := by
  have hsigners : ∀ e ∈ m.mapSporksActive, e.2.length < fuel := by
    intro e he
    have : e.2.length ≤ (m.mapSporksActive.map fun e => e.2.length).sum :=
      List.le_sum_of_mem (List.mem_map_of_mem (f := fun e => e.2.length) he)
    unfold sporkStateSize at hfuel
    omega
  have hbyHash := @length_eraseHashes_le GetHash
    (rejectedSporks CheckSignature m.mapSporksActive) m.mapSporksByHash
  have hlen : m.mapSporksActive.length < fuel := by
    unfold sporkStateSize at hfuel
    omega
  unfold checkAndRemove
  rw [if_neg (by simpa using hne)]
  simp only [Option.bind_eq_bind, loop_checkSporksRound fuel _ _ hkeys hsigners hlen,
    Option.bind_some]
  rw [loop_checkByHashRound fuel _ (by unfold sporkStateSize at hfuel; omega)]
  rfl

/-- A signer of `mapSporksActive` that is not configured keeps `CheckAndRemove` from finishing. -/
theorem checkAndRemove_eq_none (fuel : Nat) (m : CSporkManager)
    (h : ∃ e ∈ m.mapSporksActive, ∃ x ∈ e.2, x.1 ∉ m.setSporkPubKeyIDs) :
    checkAndRemove GetHash CheckSignature fuel m = none := by
  unfold checkAndRemove
  split
  · rfl
  · simp only [Option.bind_eq_bind,
      loop_checkSporksRound_eq_none fuel ⟨[], m.mapSporksActive, m.mapSporksByHash⟩ h,
      Option.bind_none]

/-- `CheckAndRemove` returns a cleaned manager. -/
theorem checkedState_checkAndRemove {fuel : Nat} {m : CSporkManager} (hne : m.setSporkPubKeyIDs ≠ [])
    (hkeys : SignersConfigured m.setSporkPubKeyIDs m.mapSporksActive)
    (hfuel : sporkStateSize m < fuel) :
    ∃ m', checkAndRemove GetHash CheckSignature fuel m = some m' ∧ CheckedState CheckSignature m' := by
  refine ⟨_, checkAndRemove_eq fuel m hne hkeys hfuel, ⟨?_, ?_, ?_⟩⟩
  · rintro e he x hx
    obtain ⟨e₀, he₀, hsome⟩ := List.mem_filterMap.mp he
    by_cases hs : (checkedSigners CheckSignature e₀.2).isEmpty = true
    · rw [if_pos hs] at hsome
      cases hsome
    · rw [if_neg hs] at hsome
      cases hsome
      obtain ⟨hx₀, hsig⟩ := List.mem_filter.mp hx
      exact ⟨hkeys e₀ he₀ x hx₀, hsig⟩
  · rintro e he hnil
    obtain ⟨e₀, -, hsome⟩ := List.mem_filterMap.mp he
    by_cases hs : (checkedSigners CheckSignature e₀.2).isEmpty = true
    · rw [if_pos hs] at hsome
      cases hsome
    · rw [if_neg hs] at hsome
      cases hsome
      exact hs (List.isEmpty_iff.mpr hnil)
  · intro e he
    exact List.any_eq_true.mp (List.mem_filter.mp he).2

end

namespace SporkFixture

/-- A message for spork `10001` (`SPORK_1_SUPERBLOCKS_ENABLED`). -/
def spork : CSporkMessage := ⟨10001, 0, 0, []⟩

/-- A manager read back from `sporks.dat`: an earlier run configured the key `2` and accepted its
message; this run configures the key `1` only. -/
def manager (GetHash : CSporkMessage → uint256) : CSporkManager :=
  ⟨[(GetHash spork, spork)], [(10001, [(2, spork)])], [1], 1⟩

theorem checkAndRemove_hangs_after_key_change (GetHash : CSporkMessage → uint256)
    (CheckSignature : CSporkMessage → CKeyID → Bool → Bool) (fuel : Nat) :
    checkAndRemove GetHash CheckSignature fuel (manager GetHash) = none :=
  checkAndRemove_eq_none fuel _
    ⟨_, List.mem_singleton_self _, _, List.mem_singleton_self _,
      show (2 : CKeyID) ∉ [1] by decide⟩

/-- A manager whose one message is signed by its configured key `1`. -/
def configured : CSporkManager := ⟨[(0, spork)], [(10001, [(1, spork)])], [1], 1⟩

/-- With every signature checking, `CheckAndRemove` finishes on it and leaves a cleaned manager. -/
theorem checkAndRemove_configured_cleaned :
    ∃ m', checkAndRemove (fun _ => 0) (fun _ _ _ => true) 10 configured = some m' ∧
      CheckedState (fun _ _ _ => true) m' :=
  @checkedState_checkAndRemove (fun _ => 0) (fun _ _ _ => true) 10 configured (by decide)
    (by simp [SignersConfigured, configured]) (by decide)

end SporkFixture

end Emrals
