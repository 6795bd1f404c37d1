import Emrals.Spork.Manager
import Emrals.Lib.OrdMap

/-!
# Accepting sporks, and the value of a spork

`ProcessSpork` (`src/spork.cpp`) keeps, for each spork id and configured signer, the newest
message by `nTimeSigned`: a message no newer than the one it has from the same signer is "seen"
and dropped, so of two messages with the same time the first to arrive stays.
`SporkValueIsActive` counts the signers of each value, in key order, and returns the first value
that `nMinSporkKeys` signers agree on; `IsSporkActive` and `GetSporkValue` fall back to
`mapSporkDefaults` when there is none.

`SetMinSporkKeys` makes the threshold more than half of the keys. Since the signers of a spork
id are distinct configured keys in every state `ProcessSpork` reaches (`WellFormed`,
`wellFormed_processSpork`), at most one value reaches the threshold
(`eq_of_threshold_of_threshold`), and `SporkValueIsActive` returns exactly that value
(`sporkValueIsActive_eq_some_iff`). The tie rule is what makes the outcome depend on the order
of arrival: `SporkFixture.equal_time_sporks_diverge`.

The signer a signature recovers (`GetSignerKeyID`) and the hash of a message are parameters. The
`Misbehaving` scores, the log lines, the relay and `ExecuteSpork` are not modelled.
-/

namespace Emrals

open OrdMap

/-- `mapSporkDefaults`. -/
def mapSporkDefaults : List (Int × Int) :=
  [(10001, 4070908800), (10002, 4070908800), (10003, 4070908800), (10004, 4070908800),
    (10005, 0), (10006, 0), (10007, 4070908800)]

section
variable (GetHash : CSporkMessage → uint256) (GetSignerKeyID : CSporkMessage → Option CKeyID)

/-- `CSporkManager::ProcessSpork` for a `SPORK` message, on a node with a chain tip or not
(`fTip`) at the adjusted time `nAdjustedTime`. -/
def processSpork (fTip : Bool) (nAdjustedTime : Int) (m : CSporkManager) (spork : CSporkMessage) :
    CSporkManager :=
  if !fTip then m
  else if spork.nTimeSigned > nAdjustedTime + 2 * 60 * 60 then m
  else match GetSignerKeyID spork with
    | none => m
    | some keyIDSigner =>
      if keyIDSigner ∉ m.setSporkPubKeyIDs then m
      else
        let signers := (m.mapSporksActive.lookup spork.nSporkID).getD []
        let seen := match signers.lookup keyIDSigner with
          | some old => decide (old.nTimeSigned ≥ spork.nTimeSigned)
          | none => false
        if seen then m
        else { m with
          mapSporksByHash := assign (GetHash spork) spork m.mapSporksByHash
          mapSporksActive :=
            assign spork.nSporkID (assign keyIDSigner spork signers) m.mapSporksActive }

end

/-- The loop of `SporkValueIsActive` over the signers in key order: `mapValueCounts` counts the
signers seen so far of each value, and the first value whose count reaches `nMinSporkKeys` is
returned. -/
def sporkValueLoop (nMinSporkKeys : Int) (mapValueCounts : Int → Int) :
    List (CKeyID × CSporkMessage) → Option Int
  | [] => none
  | (_, spork) :: rest =>
    let counts := Function.update mapValueCounts spork.nValue (mapValueCounts spork.nValue + 1)
    if counts spork.nValue ≥ nMinSporkKeys then some spork.nValue
    else sporkValueLoop nMinSporkKeys counts rest

/-- `CSporkManager::SporkValueIsActive`: the value, if any, that `nMinSporkKeys` signers of the
spork agree on. -/
def sporkValueIsActive (m : CSporkManager) (nSporkID : Int) : Option Int :=
  match m.mapSporksActive.lookup nSporkID with
  | none => none
  | some signers => sporkValueLoop m.nMinSporkKeys (fun _ => 0) signers

/-- `CSporkManager::IsSporkActive` at the adjusted time `nAdjustedTime`. -/
def isSporkActive (m : CSporkManager) (nSporkID nAdjustedTime : Int) : Bool :=
  match sporkValueIsActive m nSporkID with
  | some nSporkValue => decide (nSporkValue < nAdjustedTime)
  | none =>
    match mapSporkDefaults.lookup nSporkID with
    | some nDefault => decide (nDefault < nAdjustedTime)
    | none => false

/-- `CSporkManager::GetSporkValue`. -/
def getSporkValue (m : CSporkManager) (nSporkID : Int) : Int :=
  match sporkValueIsActive m nSporkID with
  | some nSporkValue => nSporkValue
  | none => (mapSporkDefaults.lookup nSporkID).getD (-1)

/-- `CSporkManager::SetMinSporkKeys`: `none` where it refuses the number. -/
def setMinSporkKeys (m : CSporkManager) (minSporkKeys : Int) : Option CSporkManager :=
  let maxKeysNumber : Int := m.setSporkPubKeyIDs.length
  if minSporkKeys ≤ maxKeysNumber / 2 ∨ minSporkKeys > maxKeysNumber then none
  else some { m with nMinSporkKeys := minSporkKeys }

/-- The threshold `SetMinSporkKeys` accepts is more than half of the keys. -/
theorem setMinSporkKeys_eq_some {m m' : CSporkManager} {minSporkKeys : Int}
    (h : setMinSporkKeys m minSporkKeys = some m') :
    m' = { m with nMinSporkKeys := minSporkKeys } ∧
      (m.setSporkPubKeyIDs.length : Int) < 2 * minSporkKeys := by
  unfold setMinSporkKeys at h
  dsimp only at h
  split at h
  · cases h
  · cases h
    exact ⟨rfl, by omega⟩

/-! ## Counting the signers of a value -/

/-- The number of signers in `signers` of the value `v`. -/
def valueCount (v : Int) (signers : List (CKeyID × CSporkMessage)) : Nat :=
  signers.countP fun e => e.2.nValue == v

/-- A round of the loop moves one signer from the list to the counts. -/
theorem update_add_valueCount (counts : Int → Int) (v : Int) (x : CKeyID × CSporkMessage)
    (l : List (CKeyID × CSporkMessage)) :
    Function.update counts x.2.nValue (counts x.2.nValue + 1) v + valueCount v l =
      counts v + valueCount v (x :: l) := by
  rw [valueCount, valueCount, List.countP_cons]
  by_cases hv : v = x.2.nValue
  · subst hv
    simp only [Function.update_self, beq_self_eq_true, if_true]
    push_cast
    omega
  · rw [Function.update_of_ne hv]
    simp [Ne.symm hv]

/-- A value the loop returns reaches the threshold, counted over the signers seen before it and
those left. -/
theorem threshold_of_sporkValueLoop {nMin v : Int} :
    ∀ (l : List (CKeyID × CSporkMessage)) (counts : Int → Int),
      sporkValueLoop nMin counts l = some v → nMin ≤ counts v + valueCount v l
  | [], _, h => by cases h
  | (k, spork) :: rest, counts, h => by
    have hstep := update_add_valueCount counts v (k, spork) rest
    dsimp only at hstep
    rw [sporkValueLoop] at h
    split at h
    · next hge =>
      cases h
      rw [Function.update_self] at hge
      rw [← hstep, Function.update_self]
      omega
    · rw [← hstep]
      exact threshold_of_sporkValueLoop rest _ h

/-- While no count has reached the threshold, a value that reaches it with the signers left
makes the loop return. -/
theorem sporkValueLoop_isSome {nMin v : Int} :
    ∀ (l : List (CKeyID × CSporkMessage)) (counts : Int → Int), (∀ u, counts u < nMin) →
      nMin ≤ counts v + valueCount v l → (sporkValueLoop nMin counts l).isSome
  | [], counts, hlt, h => absurd h (by simpa [valueCount] using hlt v)
  | (k, spork) :: rest, counts, hlt, h => by
    rw [sporkValueLoop]
    split
    · rfl
    · next hlt' =>
      refine sporkValueLoop_isSome (v := v) rest _ (fun u => ?_) ?_
      · by_cases hu : u = spork.nValue
        · subst hu
          exact not_le.mp hlt'
        · rw [Function.update_of_ne hu]
          exact hlt u
      · rw [update_add_valueCount counts v (k, spork) rest]
        exact h

/-- More than half of the keys agree on at most one value, when each key signs once. -/
theorem eq_of_threshold_of_threshold {keys : List CKeyID} {signers : List (CKeyID × CSporkMessage)}
    {nMin v₁ v₂ : Int} (hnodup : (signers.map Prod.fst).Nodup) (hsub : ∀ x ∈ signers, x.1 ∈ keys)
    (hmin : (keys.length : Int) < 2 * nMin) (h₁ : nMin ≤ valueCount v₁ signers)
    (h₂ : nMin ≤ valueCount v₂ signers) : v₁ = v₂ := by
  by_contra hne
  -- the signers of the two values are disjoint
  have hdisj : valueCount v₁ signers + valueCount v₂ signers ≤ signers.length := by
    rw [List.length_eq_countP_add_countP (fun e : CKeyID × CSporkMessage => e.2.nValue == v₁)]
    refine Nat.add_le_add_left (List.countP_mono_left fun x _ hx => ?_) _
    simp only [beq_iff_eq] at hx
    simp only [beq_iff_eq, decide_not, Bool.not_eq_true', decide_eq_false_iff_not]
    exact fun h => hne (h.symm.trans hx)
  have hlen : signers.length ≤ keys.length := by
    rw [← List.length_map (f := Prod.fst)]
    refine hnodup.length_le_of_subset fun k hk => ?_
    obtain ⟨x, hx, rfl⟩ := List.mem_map.mp hk
    exact hsub x hx
  omega

/-! ## The states `ProcessSpork` reaches -/

/-- What every state keeps: the keys are a set, the maps are `std::map`s, and the signers of every
spork id are configured keys. -/
structure WellFormed (m : CSporkManager) : Prop where
  nodup_keys : m.setSporkPubKeyIDs.Nodup
  sorted_byHash : Sorted m.mapSporksByHash
  sorted_active : Sorted m.mapSporksActive
  sorted_signers : ∀ e ∈ m.mapSporksActive, Sorted e.2
  configured : SignersConfigured m.setSporkPubKeyIDs m.mapSporksActive

section
variable {GetHash : CSporkMessage → uint256} {GetSignerKeyID : CSporkMessage → Option CKeyID}
  {fTip : Bool} {nAdjustedTime : Int}

/-- What `ProcessSpork` does: nothing, or it stores the message under its hash and under its
spork id and a configured signer. -/
theorem processSpork_cases (m : CSporkManager) (spork : CSporkMessage) :
    processSpork GetHash GetSignerKeyID fTip nAdjustedTime m spork = m ∨
      ∃ keyIDSigner ∈ m.setSporkPubKeyIDs,
        processSpork GetHash GetSignerKeyID fTip nAdjustedTime m spork = { m with
          mapSporksByHash := assign (GetHash spork) spork m.mapSporksByHash
          mapSporksActive := assign spork.nSporkID
            (assign keyIDSigner spork ((m.mapSporksActive.lookup spork.nSporkID).getD []))
            m.mapSporksActive } := by
  unfold processSpork
  split
  · exact .inl rfl
  split
  · exact .inl rfl
  split
  · exact .inl rfl
  next keyIDSigner _ =>
    split
    · exact .inl rfl
    next hk =>
      dsimp only
      -- `seen`: the cases of the signer's earlier message, then the test
      split <;> split
      all_goals first
        | exact .inl rfl
        | exact .inr ⟨keyIDSigner, not_not.mp hk, rfl⟩

theorem wellFormed_processSpork {m : CSporkManager} (h : WellFormed m) (spork : CSporkMessage) :
    WellFormed (processSpork GetHash GetSignerKeyID fTip nAdjustedTime m spork) := by
  rcases processSpork_cases m spork with heq | ⟨keyIDSigner, hk, heq⟩
  · rw [heq]
    exact h
  rw [heq]
  -- the signers the spork id had
  have hsigners : Sorted ((m.mapSporksActive.lookup spork.nSporkID).getD []) ∧
      ∀ x ∈ (m.mapSporksActive.lookup spork.nSporkID).getD [], x.1 ∈ m.setSporkPubKeyIDs := by
    cases hl : m.mapSporksActive.lookup spork.nSporkID with
    | none => exact ⟨List.Pairwise.nil, fun x hx => by cases hx⟩
    | some signers =>
      have hmem := mem_of_lookup_eq_some hl
      exact ⟨h.sorted_signers _ hmem, h.configured _ hmem⟩
  refine ⟨h.nodup_keys, sorted_assign _ _ h.sorted_byHash, sorted_assign _ _ h.sorted_active,
    fun e he => ?_, fun e he x hx => ?_⟩
  · rcases mem_assign he with rfl | he
    · exact sorted_assign _ _ hsigners.1
    · exact h.sorted_signers e he
  · rcases mem_assign he with rfl | he
    · rcases mem_assign hx with rfl | hx
      · exact hk
      · exact hsigners.2 x hx
    · exact h.configured e he x hx

/-- A run of `ProcessSpork` keeps the state well formed, and the keys and the threshold as they
were. -/
theorem wellFormed_foldl_processSpork :
    ∀ (sporks : List CSporkMessage) {m : CSporkManager}, WellFormed m →
      let m' := sporks.foldl (processSpork GetHash GetSignerKeyID fTip nAdjustedTime) m
      WellFormed m' ∧ m'.setSporkPubKeyIDs = m.setSporkPubKeyIDs ∧
        m'.nMinSporkKeys = m.nMinSporkKeys
  | [], _, h => ⟨h, rfl, rfl⟩
  | spork :: sporks, m, h => by
    obtain ⟨h', hkeys, hmin⟩ := wellFormed_foldl_processSpork sporks (wellFormed_processSpork h spork)
    refine ⟨h', ?_, ?_⟩ <;>
      rcases @processSpork_cases GetHash GetSignerKeyID fTip nAdjustedTime m spork with
        heq | ⟨_, _, heq⟩ <;>
      simp only [List.foldl_cons, heq] at hkeys hmin ⊢ <;> assumption

end

/-- In a well-formed state whose threshold is more than half of the keys, `SporkValueIsActive`
returns exactly the one value that the threshold of signers agree on. -/
theorem sporkValueIsActive_eq_some_iff {m : CSporkManager} (h : WellFormed m)
    (hmin : (m.setSporkPubKeyIDs.length : Int) < 2 * m.nMinSporkKeys) (nSporkID v : Int) :
    sporkValueIsActive m nSporkID = some v ↔ ∃ signers,
      m.mapSporksActive.lookup nSporkID = some signers ∧ m.nMinSporkKeys ≤ valueCount v signers := by
  unfold sporkValueIsActive
  cases hl : m.mapSporksActive.lookup nSporkID with
  | none => simp
  | some signers =>
    have hmem := mem_of_lookup_eq_some hl
    have huniq : ∀ v₁ v₂, m.nMinSporkKeys ≤ valueCount v₁ signers →
        m.nMinSporkKeys ≤ valueCount v₂ signers → v₁ = v₂ :=
      fun v₁ v₂ => eq_of_threshold_of_threshold (h.sorted_signers _ hmem).nodup_keys
        (h.configured _ hmem) hmin
    simp only [Option.some.injEq, exists_eq_left']
    constructor
    · intro hv
      simpa using threshold_of_sporkValueLoop signers _ hv
    · intro hv
      obtain ⟨u, hu⟩ := Option.isSome_iff_exists.mp (sporkValueLoop_isSome (v := v) signers
        (fun _ => 0) (fun _ => show (0 : Int) < m.nMinSporkKeys by omega) (by simpa using hv))
      have hu' := threshold_of_sporkValueLoop signers _ hu
      rw [hu, huniq u v (by simpa using hu') hv]

namespace SporkFixture

/-- Two messages of the key `1` for spork `10001`, signed in the same second with the values `5`
and `7`. -/
def sporkFive : CSporkMessage := ⟨10001, 5, 100, [5]⟩

def sporkSeven : CSporkMessage := ⟨10001, 7, 100, [7]⟩

/-- A node configured with the key `1` only. -/
def node : CSporkManager := ⟨[], [], [1], 0⟩

theorem equal_time_sporks_diverge (GetHash : CSporkMessage → uint256) :
    ∃ m, setMinSporkKeys node 1 = some m ∧
      sporkValueIsActive ([sporkFive, sporkSeven].foldl
        (processSpork GetHash (fun _ => some 1) true 100) m) 10001 = some 5 ∧
      sporkValueIsActive ([sporkSeven, sporkFive].foldl
        (processSpork GetHash (fun _ => some 1) true 100) m) 10001 = some 7 ∧
      isSporkActive ([sporkFive, sporkSeven].foldl
        (processSpork GetHash (fun _ => some 1) true 100) m) 10001 6 = true ∧
      isSporkActive ([sporkSeven, sporkFive].foldl
        (processSpork GetHash (fun _ => some 1) true 100) m) 10001 6 = false :=
  ⟨_, rfl, rfl, rfl, rfl, rfl⟩

/-- A manager with the keys `1` and `2` and a threshold of two, whose keys both signed the value
`5` for spork `10001`. -/
def agreed : CSporkManager :=
  ⟨[], [(10001, [(1, sporkFive), (2, ⟨10001, 5, 100, [2]⟩)])], [1, 2], 2⟩

theorem wellFormed_agreed : WellFormed agreed where
  nodup_keys := by decide
  sorted_byHash := List.Pairwise.nil
  sorted_active := List.pairwise_singleton _ _
  sorted_signers e he := by
    obtain rfl : e = (10001, [(1, sporkFive), (2, ⟨10001, 5, 100, [2]⟩)]) := List.mem_singleton.1 he
    unfold Sorted
    decide
  configured := by
    unfold SignersConfigured
    decide

/-- Both signers agree on `5`, so `SporkValueIsActive` answers `5`. -/
theorem sporkValueIsActive_agreed :
    (agreed.setSporkPubKeyIDs.length : Int) < 2 * agreed.nMinSporkKeys ∧
      sporkValueIsActive agreed 10001 = some 5 :=
  ⟨by decide,
    (sporkValueIsActive_eq_some_iff wellFormed_agreed (by decide) 10001 5).2 ⟨_, rfl, by decide⟩⟩

end SporkFixture

end Emrals
