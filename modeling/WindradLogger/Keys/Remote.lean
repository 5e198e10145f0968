import WindradLogger.Keys.Registry

set_option autoImplicit false

/-!
# From the keys to the remote side (`task_key.c`, `rpc_func_freertos.c`)

`init_rpc_key_handler` registers `key_handler` with the key task, which from then on
stores the events of the keys in `keystates`, where `get_last_key_state` finds them.
The key task goes before the task that polls: it can fire an event between any two
steps of a poll, also while `keystates` is being cleared.
-/

namespace WindradLogger.Keys

open WindradLogger.Lib WindradLogger.Rpc

/-! ## What a key is like -/

/-- A key by its samples: it is not pressed, or pressed, or has been for a second. -/
inductive Phase where
  | up | short | long
  deriving DecidableEq, Repr

/-- The phase in which a key is after samples. -/
def phaseOf (samples : List Bool) : Phase :=
  if streak samples = 0 then .up
  else if streak samples < keypressLongThreshold.toNat then .short
  else .long

/-- The event with which a phase begins. -/
def Phase.event : Phase → KeyEvent
  | up => .release
  | short => .pressShort
  | long => .pressLong

/-- The events are the changes of the phase. -/
theorem expected_eq_change (past : List Bool) (pressed : Bool) :
    expected past pressed = if phaseOf (past ++ [pressed]) = phaseOf past then []
      else [(phaseOf (past ++ [pressed])).event] := by
  have hthreshold : keypressLongThreshold.toNat = 20 := rfl
  unfold expected phaseOf
  rw [hthreshold]
  cases pressed with
  | false =>
      rw [streak_concat_false, if_neg Bool.false_ne_true, if_pos rfl]
      rcases Nat.eq_zero_or_pos (streak past) with hup | hdown
      · rw [if_pos hup, if_pos rfl, if_neg (not_not.mpr hup)]
      · rw [if_neg (Nat.ne_of_gt hdown), if_pos (Nat.ne_of_gt hdown)]
        split
        · rfl
        · rfl
  | true =>
      rw [streak_concat_true, if_pos rfl, if_neg (Nat.succ_ne_zero _)]
      rcases Nat.lt_trichotomy (streak past + 1) 20 with hshort | hlong | hlonger
      · rw [if_pos hshort, if_neg (Nat.ne_of_lt hshort), List.append_nil]
        rcases Nat.eq_zero_or_pos (streak past) with hup | hdown
        · rw [if_pos hup, if_pos hup]
          rfl
        · have hbefore : streak past < 20 := by omega
          rw [if_neg (Nat.ne_of_gt hdown), if_neg (Nat.ne_of_gt hdown), if_pos hbefore, if_pos rfl]
      · have hbefore : streak past = 19 := by omega
        rw [hbefore]
        rfl
      · have hdown : streak past ≠ 0 := by omega
        have hbefore : ¬ streak past < 20 := by omega
        have hafter : ¬ streak past + 1 < 20 := by omega
        rw [if_neg hdown, if_neg (Nat.ne_of_gt hlonger), if_neg hafter, if_neg hdown,
          if_neg hbefore, if_pos rfl]
        rfl

/-! ## The way of an event -/

variable {Handle : Type} [DecidableEq Handle]

/-- The key task and `keystates`. -/
structure KeyPath (Handle : Type) where
  keys : KeyState Handle
  keystates : Keystates

/-- A call of a handler, of which `key_handler` is one. -/
def deliver (rpc : Handle) (keystates : Keystates) (call : Handle × Fired) : Keystates :=
  if call.1 = rpc then keyHandler call.2.1 call.2.2 keystates else keystates

/-- The handler of a call. -/
def HandleCall.handle : HandleCall Handle → Handle
  | register h | unRegister h => h

/-- The key task tests a key, other code registers or removes a handler of its own,
`init_rpc_key_handler` is called, or `memset` in `get_last_key_state` comes to a key. -/
inductive PathEvent (rpc : Handle) where
  | sample (keyId : KeyId) (pressed : Bool)
  | other (call : HandleCall Handle) (h : call.handle ≠ rpc)
  | initRpcKeyHandler
  | clear (keyId : KeyId)

/-- A call for the list of handlers, which always returns. -/
def KeyState.called (s : KeyState Handle) (call : HandleCall Handle) : KeyState Handle :=
  { s with keyHandleList := (handleStep s.keyHandleList call).getD s.keyHandleList }

/-- The test of a key, and the handlers that are called. -/
def KeyPath.sampled (rpc : Handle) (s : KeyPath Handle) (keyId : KeyId) (pressed : Bool) :
    KeyPath Handle :=
  let (count, events) := testKey (s.keys.keyList keyId) pressed
  { keys := { s.keys with keyList := Function.update s.keys.keyList keyId count }
    keystates := (events.flatMap fun event => fireEvent s.keys.keyHandleList event keyId).foldl
      (deliver rpc) s.keystates }

def pathStep (rpc : Handle) (s : KeyPath Handle) : PathEvent rpc → KeyPath Handle
  | .sample keyId pressed => s.sampled rpc keyId pressed
  | .other call _ => { s with keys := s.keys.called call }
  | .initRpcKeyHandler => { s with keys := s.keys.called (.register rpc) }
  | .clear keyId =>
      { s with keystates := fun i => if i = keyId.value.toNat then 0#8 else s.keystates i }

/-- A cycle of `taskKey` is the tests of the keys, one after the other. -/
theorem taskKey_eq_samples (rpc : Handle) (s : KeyPath Handle) (boardTestKey : KeyId → Bool) :
    (testedKeys.map fun keyId => PathEvent.sample keyId (boardTestKey keyId)).foldl
        (pathStep rpc) s =
      { keys := (taskKey s.keys boardTestKey).1
        keystates := (taskKey s.keys boardTestKey).2.2.foldl (deliver rpc) s.keystates } := by
  have hkeys : ∀ (keys : List KeyId) (s : KeyPath Handle),
      (keys.map fun keyId => PathEvent.sample keyId (boardTestKey keyId)).foldl
          (pathStep rpc) s =
        { keys := { s.keys with keyList := (testKeys boardTestKey keys s.keys.keyList).1 }
          keystates := ((testKeys boardTestKey keys s.keys.keyList).2.flatMap fun e =>
            fireEvent s.keys.keyHandleList e.1 e.2).foldl (deliver rpc) s.keystates } := by
    intro keys
    induction keys with
    | nil => intro s; rfl
    | cons keyId rest ih =>
        intro s
        rw [List.map_cons, List.foldl_cons, ih]
        simp only [testKeys, List.flatMap_append, List.foldl_append, List.flatMap_map]
        rfl
  exact hkeys testedKeys s

/-- A poll that clears has cleared every key. -/
theorem getLastKeyState_eq_clears (rpc : Handle) (s : KeyPath Handle) (keyId : KeyId)
    {resetKeyMemory : Display.Byte} (hreset : resetKeyMemory ≠ 0#8) :
    ([KeyId.none, .key3, .key2, .key1, .onoff].map PathEvent.clear).foldl (pathStep rpc) s =
      { s with keystates := (getLastKeyState keyId.value resetKeyMemory s.keystates).2 } := by
  have hmemory : (getLastKeyState keyId.value resetKeyMemory s.keystates).2 =
      fun i => if i < KeyId.keycount then 0#8 else s.keystates i := by
    rw [getLastKeyState, if_pos hreset]
  rw [hmemory]
  refine congrArg (KeyPath.mk s.keys) (funext fun i => ?_)
  rcases Nat.lt_or_ge i KeyId.keycount with hin | hout
  · rw [if_pos hin]
    have hvalue : i = 0 ∨ i = 1 ∨ i = 2 ∨ i = 3 ∨ i = 4 := by
      have hcount : KeyId.keycount = 5 := rfl
      omega
    rcases hvalue with rfl | rfl | rfl | rfl | rfl
    · rfl
    · rfl
    · rfl
    · rfl
    · rfl
  · rw [if_neg (Nat.not_lt.mpr hout)]
    have hother : ∀ keyId : KeyId, i ≠ keyId.value.toNat :=
      fun keyId => Nat.ne_of_gt (Nat.lt_of_lt_of_le keyId.value_lt hout)
    simp only [pathStep, if_neg (hother _)]

/-! ## What reaches the memory -/

/-- An event reaches `keystates` when `key_handler` is registered. -/
theorem foldl_deliver (rpc : Handle) (list : HandleList Handle) (hunique : Unique list)
    (event : KeyEvent) (keyId : KeyId) (keystates : Keystates) :
    (fireEvent list event keyId).foldl (deliver rpc) keystates =
      if rpc ∈ registered list then keyHandler event keyId keystates else keystates := by
  obtain ⟨-, hcalls⟩ := fireEvent_once hunique event keyId
  have hsame : ∀ calls : List (Handle × Fired), (∀ call ∈ calls, call.2 = (event, keyId)) →
      ∀ keystates, calls.foldl (deliver rpc) keystates =
        if ∃ call ∈ calls, call.1 = rpc then keyHandler event keyId keystates else keystates := by
    intro calls
    induction calls with
    | nil =>
        intro _ keystates
        simp
    | cons call rest ih =>
        intro hall keystates
        obtain ⟨h, fired⟩ := call
        obtain rfl : fired = (event, keyId) := hall _ List.mem_cons_self
        have hagain : keyHandler event keyId (keyHandler event keyId keystates) =
            keyHandler event keyId keystates := by
          funext i
          unfold keyHandler
          split
          · rfl
          · rfl
        rw [List.foldl_cons, ih fun call hmem => hall call (List.mem_cons_of_mem _ hmem), deliver]
        dsimp only
        rcases eq_or_ne h rpc with hrpc | hother
        · have hany : ∃ call ∈ (h, (event, keyId)) :: rest, call.1 = rpc :=
            ⟨_, List.mem_cons_self, hrpc⟩
          rw [if_pos hrpc, if_pos hany, hagain]
          split
          · rfl
          · rfl
        · rw [if_neg hother]
          refine if_congr ?_ rfl rfl
          constructor
          · rintro ⟨call, hmem, hcall⟩
            exact ⟨call, List.mem_cons_of_mem _ hmem, hcall⟩
          · rintro ⟨call, hmem, hcall⟩
            rcases List.mem_cons.mp hmem with rfl | hrest
            · exact absurd hcall hother
            · exact ⟨call, hrest, hcall⟩
  rw [hsame _ (fun call hmem => ((hcalls call).mp hmem).2)]
  refine if_congr ?_ rfl rfl
  constructor
  · rintro ⟨call, hmem, rfl⟩
    exact ((hcalls call).mp hmem).1
  · intro hmem
    exact ⟨(rpc, event, keyId), (hcalls _).mpr ⟨hmem, rfl⟩, rfl⟩

/-- Whether `key_handler` is registered. -/
def KeyPath.Registered (rpc : Handle) (s : KeyPath Handle) : Prop :=
  rpc ∈ registered s.keys.keyHandleList

instance (rpc : Handle) (s : KeyPath Handle) : Decidable (s.Registered rpc) :=
  inferInstanceAs (Decidable (_ ∈ _))

/-- Once it is registered it remains so, and only `init_rpc_key_handler` registers it. -/
theorem registered_pathStep {rpc : Handle} {s : KeyPath Handle}
    (hunique : Unique s.keys.keyHandleList) (event : PathEvent rpc) :
    Unique (pathStep rpc s event).keys.keyHandleList ∧
      (s.Registered rpc → (pathStep rpc s event).Registered rpc) ∧
      (event ≠ .initRpcKeyHandler →
        ((pathStep rpc s event).Registered rpc ↔ s.Registered rpc)) := by
  have hcall : ∀ call : HandleCall Handle, Unique (s.keys.called call).keyHandleList ∧
      registered (s.keys.called call).keyHandleList =
        call.apply (registered s.keys.keyHandleList) := by
    intro call
    obtain ⟨after, hreturn, hunique', hset⟩ := handleStep_total hunique call
    have hlist : (s.keys.called call).keyHandleList = after := by
      rw [KeyState.called, hreturn]
      rfl
    rw [hlist]
    exact ⟨hunique', hset⟩
  cases event with
  | sample keyId pressed => exact ⟨hunique, id, fun _ => Iff.rfl⟩
  | clear keyId => exact ⟨hunique, id, fun _ => Iff.rfl⟩
  | other call h =>
      obtain ⟨hunique', hset⟩ := hcall call
      have hsame : (pathStep rpc s (.other call h)).Registered rpc ↔ s.Registered rpc := by
        have hmem : (pathStep rpc s (.other call h)).Registered rpc ↔
            rpc ∈ call.apply (registered s.keys.keyHandleList) := by
          rw [← hset]
          exact Iff.rfl
        rw [hmem]
        cases call with
        | register g =>
            have hne : rpc ≠ g := fun heq => h heq.symm
            rw [HandleCall.apply]
            split
            · rw [Finset.mem_insert, or_iff_right hne]
              exact Iff.rfl
            · exact Iff.rfl
        | unRegister g =>
            have hne : rpc ≠ g := fun heq => h heq.symm
            rw [HandleCall.apply, Finset.mem_erase, and_iff_right hne]
            exact Iff.rfl
      exact ⟨hunique', hsame.mpr, fun _ => hsame⟩
  | initRpcKeyHandler =>
      obtain ⟨hunique', hset⟩ := hcall (.register rpc)
      refine ⟨hunique', fun hmem => ?_, fun hne => absurd rfl hne⟩
      have hkept : rpc ∈ (HandleCall.register rpc).apply (registered s.keys.keyHandleList) := by
        rw [HandleCall.apply]
        split
        · exact Finset.mem_insert_self rpc _
        · exact hmem
      rw [← hset] at hkept
      exact hkept

/-- The test of a key stores the phase that begins with it, and otherwise nothing. -/
theorem sampled_keystates {rpc : Handle} {s : KeyPath Handle}
    (hunique : Unique s.keys.keyHandleList) {keyId : KeyId} {past : List Bool}
    (hcount : CountsTo (s.keys.keyList keyId) (streak past)) (pressed : Bool) :
    (phaseOf (past ++ [pressed]) ≠ phaseOf past → s.Registered rpc →
      (s.sampled rpc keyId pressed).keystates =
        keyHandler (phaseOf (past ++ [pressed])).event keyId s.keystates) ∧
    (phaseOf (past ++ [pressed]) = phaseOf past ∨ ¬ s.Registered rpc →
      (s.sampled rpc keyId pressed).keystates = s.keystates) := by
  obtain ⟨-, hevents⟩ := testKey_streak hcount pressed
  have hstored : (s.sampled rpc keyId pressed).keystates =
      ((expected past pressed).flatMap fun event =>
        fireEvent s.keys.keyHandleList event keyId).foldl (deliver rpc) s.keystates := by
    rw [← hevents]
    rfl
  rw [hstored, expected_eq_change]
  constructor
  · intro hchanged hregistered
    rw [if_neg hchanged, List.flatMap_singleton, foldl_deliver rpc _ hunique]
    exact if_pos hregistered
  · intro hnothing
    rcases Decidable.em (phaseOf (past ++ [pressed]) = phaseOf past) with hsame | hchanged
    · rw [if_pos hsame]
      rfl
    · have hunregistered := hnothing.resolve_left hchanged
      rw [if_neg hchanged, List.flatMap_singleton, foldl_deliver rpc _ hunique]
      exact if_neg hunregistered

/-! ## Runs -/

section Runs

variable {rpc : Handle} (behind : Nat → Display.Byte)

/-- The samples of a key. -/
def PathEvent.sample? (key : KeyId) : PathEvent rpc → Option Bool
  | .sample keyId pressed => if keyId = key then some pressed else none
  | _ => none

/-- The phase in which a key is after a run. -/
def keyPhase (key : KeyId) (run : List (PathEvent rpc)) : Phase :=
  phaseOf (run.filterMap (PathEvent.sample? key))

/-- The state after a run from the start. -/
def pathAfter (run : List (PathEvent rpc)) : KeyPath Handle :=
  run.foldl (pathStep rpc) { keys := keyInit, keystates := startKeystates behind }

theorem pathAfter_concat (past : List (PathEvent rpc)) (event : PathEvent rpc) :
    pathAfter behind (past ++ [event]) = pathStep rpc (pathAfter behind past) event :=
  List.foldl_concat ..

/-- What the key task knows along every run. -/
theorem path_of_run (run : List (PathEvent rpc)) :
    Unique (pathAfter behind run).keys.keyHandleList ∧
      ∀ key, CountsTo ((pathAfter behind run).keys.keyList key)
        (streak (run.filterMap (PathEvent.sample? key))) := by
  induction run using List.reverseRecOn with
  | nil => exact ⟨keyInit_empty.1, fun _ => rfl⟩
  | append_singleton past event ih =>
      obtain ⟨hunique, hcounts⟩ := ih
      rw [pathAfter_concat]
      refine ⟨(registered_pathStep hunique event).1, fun key => ?_⟩
      rw [List.filterMap_append]
      cases event with
      | sample keyId pressed =>
          have hlist : (pathStep rpc (pathAfter behind past) (.sample keyId pressed)).keys.keyList =
              Function.update (pathAfter behind past).keys.keyList keyId
                (testKey ((pathAfter behind past).keys.keyList keyId) pressed).1 := rfl
          rw [hlist]
          rcases eq_or_ne key keyId with rfl | hne
          · have hsample : ([.sample key pressed] : List (PathEvent rpc)).filterMap
                (PathEvent.sample? key) = [pressed] := by
              simp [PathEvent.sample?]
            rw [hsample, Function.update_self]
            exact (testKey_streak (hcounts key) pressed).1
          · have hsample : ([.sample keyId pressed] : List (PathEvent rpc)).filterMap
                (PathEvent.sample? key) = [] := by
              simp [PathEvent.sample?, hne.symm]
            rw [hsample, List.append_nil, Function.update_of_ne hne]
            exact hcounts key
      | other call h =>
          rw [List.filterMap_cons_none rfl, List.filterMap_nil, List.append_nil]
          exact hcounts key
      | initRpcKeyHandler =>
          rw [List.filterMap_cons_none rfl, List.filterMap_nil, List.append_nil]
          exact hcounts key
      | clear keyId =>
          rw [List.filterMap_cons_none rfl, List.filterMap_nil, List.append_nil]
          exact hcounts key

/-- What an event does to what is stored for a key. -/
structure Stores (past : List (PathEvent rpc)) (event : PathEvent rpc) (key : KeyId) : Prop where
  clear : event = .clear key →
    (pathAfter behind (past ++ [event])).keystates key.value.toNat = KeyEvent.none.value
  change : event ≠ .clear key → (pathAfter behind past).Registered rpc →
    keyPhase key (past ++ [event]) ≠ keyPhase key past →
      (pathAfter behind (past ++ [event])).keystates key.value.toNat =
        (keyPhase key (past ++ [event])).event.value
  keep : event ≠ .clear key →
    (keyPhase key (past ++ [event]) = keyPhase key past ∨
      ¬ (pathAfter behind past).Registered rpc) →
      (pathAfter behind (past ++ [event])).keystates key.value.toNat =
        (pathAfter behind past).keystates key.value.toNat

/-- An event that is not about the key. -/
theorem stores_of_other {past : List (PathEvent rpc)} {event : PathEvent rpc} {key : KeyId}
    (hsample : event.sample? key = none) (hclear : event ≠ .clear key)
    (hsame : (pathStep rpc (pathAfter behind past) event).keystates key.value.toNat =
      (pathAfter behind past).keystates key.value.toNat) : Stores behind past event key := by
  have hphase : keyPhase key (past ++ [event]) = keyPhase key past := by
    unfold keyPhase
    rw [List.filterMap_append, List.filterMap_cons_none hsample, List.filterMap_nil,
      List.append_nil]
  refine ⟨fun h => absurd h hclear, fun _ _ h => absurd hphase h, fun _ _ => ?_⟩
  rw [pathAfter_concat]
  exact hsame

theorem stores (past : List (PathEvent rpc)) (event : PathEvent rpc) (key : KeyId) :
    Stores behind past event key := by
  obtain ⟨hunique, hcounts⟩ := path_of_run behind past
  cases event with
  | other call h => exact stores_of_other behind rfl nofun rfl
  | initRpcKeyHandler => exact stores_of_other behind rfl nofun rfl
  | clear keyId =>
      rcases eq_or_ne keyId key with rfl | hne
      · refine ⟨fun _ => ?_, fun h => absurd rfl h, fun h => absurd rfl h⟩
        rw [pathAfter_concat]
        exact if_pos rfl
      · have hother : (.clear keyId : PathEvent rpc) ≠ .clear key :=
          fun h => hne (PathEvent.clear.inj h)
        refine stores_of_other behind rfl hother (if_neg fun h => hne ?_)
        exact (KeyId.value_inj.mp h).symm
  | sample keyId pressed =>
      obtain ⟨hchange, hkeep⟩ := @sampled_keystates _ _ rpc _ hunique _ _ (hcounts keyId) pressed
      rcases eq_or_ne keyId key with rfl | hne
      · have hphase : keyPhase keyId (past ++ [.sample keyId pressed]) =
            phaseOf (past.filterMap (PathEvent.sample? keyId) ++ [pressed]) := by
          unfold keyPhase
          rw [List.filterMap_append]
          simp [PathEvent.sample?]
        refine ⟨nofun, ?_, ?_⟩
        · intro _ hregistered hchanged
          rw [hphase] at hchanged ⊢
          rw [pathAfter_concat]
          refine (congrFun (hchange hchanged hregistered) _).trans ?_
          exact if_pos rfl
        · intro _ hnothing
          rw [hphase] at hnothing
          rw [pathAfter_concat]
          exact congrFun (hkeep hnothing) _
      · have hsample : (.sample keyId pressed : PathEvent rpc).sample? key = none :=
          if_neg hne
        refine stores_of_other behind hsample nofun ?_
        rcases Decidable.em ((pathAfter behind past).Registered rpc ∧
          phaseOf (past.filterMap (PathEvent.sample? keyId) ++ [pressed]) ≠
            phaseOf (past.filterMap (PathEvent.sample? keyId)))
          with ⟨hregistered, hchanged⟩ | hnothing
        · refine (congrFun (hchange hchanged hregistered) _).trans (if_neg fun h => hne ?_)
          exact (KeyId.value_inj.mp h).symm
        · refine congrFun (hkeep ?_) _
          rw [not_and_or, not_not] at hnothing
          exact hnothing.symm

/-- From here on the events of a key are remembered: `key_handler` has just been
registered, or is registered and the key has just been cleared. -/
inductive Opens (key : KeyId) : List (PathEvent rpc) → Prop where
  | registered {before : List (PathEvent rpc)}
      (hbefore : ¬ (pathAfter behind before).Registered rpc)
      (hafter : (pathAfter behind (before ++ [.initRpcKeyHandler])).Registered rpc) :
      Opens key (before ++ [.initRpcKeyHandler])
  | cleared {before : List (PathEvent rpc)} (hbefore : (pathAfter behind before).Registered rpc) :
      Opens key (before ++ [.clear key])

/-- What is stored for a key, if `key_handler` is registered: nothing when the phase of
the key has been the same all the time, and otherwise its present phase. -/
structure Told (key : KeyId) (past recent : List (PathEvent rpc)) : Prop where
  opens : Opens behind key past
  notCleared : .clear key ∉ recent
  steady : Steady (keyPhase key) past recent →
    (pathAfter behind (past ++ recent)).keystates key.value.toNat = KeyEvent.none.value
  changed : ¬ Steady (keyPhase key) past recent →
    (pathAfter behind (past ++ recent)).keystates key.value.toNat =
      (keyPhase key (past ++ recent)).event.value

theorem told_of_opens {past : List (PathEvent rpc)} {key : KeyId} (hopens : Opens behind key past)
    (hempty : (pathAfter behind past).keystates key.value.toNat = KeyEvent.none.value) :
    Told behind key past [] := by
  refine ⟨hopens, List.not_mem_nil, fun _ => ?_, fun h => absurd steady_nil h⟩
  rw [List.append_nil]
  exact hempty

theorem Told.concat {key : KeyId} {past recent : List (PathEvent rpc)}
    (h : Told behind key past recent)
    (hregistered : (pathAfter behind (past ++ recent)).Registered rpc) {event : PathEvent rpc}
    (hclear : event ≠ .clear key) :
    Told behind key past (recent ++ [event]) := by
  have hstores := stores behind (past ++ recent) event key
  have hnotCleared : .clear key ∉ recent ++ [event] := by
    rw [List.mem_append, List.mem_singleton, not_or]
    exact ⟨h.notCleared, hclear.symm⟩
  rcases Decidable.em (keyPhase key (past ++ recent ++ [event]) = keyPhase key (past ++ recent))
    with hsame | hchanged
  · have hkept := hstores.keep hclear (Or.inl hsame)
    refine ⟨h.opens, hnotCleared, fun hsteady => ?_, fun hunsteady => ?_⟩
    · rw [← List.append_assoc, hkept]
      exact h.steady (steady_concat.mp hsteady).1
    · rw [← List.append_assoc, hkept, hsame]
      exact h.changed fun hsteady => hunsteady (steady_concat.mpr ⟨hsteady, hsame⟩)
  · refine ⟨h.opens, hnotCleared, fun hsteady => ?_, fun _ => ?_⟩
    · exact absurd (steady_concat.mp hsteady).2 hchanged
    · rw [← List.append_assoc]
      exact hstores.change hclear hregistered hchanged

/-- What is stored along every run. -/
theorem told_of_run (run : List (PathEvent rpc)) (key : KeyId) :
    (¬ (pathAfter behind run).Registered rpc →
      (pathAfter behind run).keystates key.value.toNat = KeyEvent.none.value) ∧
    ((pathAfter behind run).Registered rpc →
      ∃ past recent, run = past ++ recent ∧ Told behind key past recent) := by
  induction run using List.reverseRecOn with
  | nil =>
      refine ⟨fun _ => if_pos key.value_lt, fun hregistered => ?_⟩
      have hnone : (rpc : Handle) ∈ (∅ : Finset Handle) := by
        rw [← keyInit_empty.2]
        exact hregistered
      exact absurd hnone (Finset.notMem_empty rpc)
  | append_singleton run event ih =>
      obtain ⟨hunique, -⟩ := path_of_run behind run
      obtain ⟨-, hkept, hother⟩ := registered_pathStep hunique event
      rw [← pathAfter_concat] at hkept hother
      have hstores := stores behind run event key
      rcases Decidable.em ((pathAfter behind run).Registered rpc) with hregistered | hunregistered
      · refine ⟨fun hno => absurd (hkept hregistered) hno, fun _ => ?_⟩
        rcases Classical.em (event = .clear key) with rfl | hclear
        · exact ⟨run ++ [.clear key], [], (List.append_nil _).symm,
            told_of_opens behind (.cleared hregistered) (hstores.clear rfl)⟩
        · obtain ⟨past, recent, rfl, htold⟩ := ih.2 hregistered
          exact ⟨past, recent ++ [event], List.append_assoc ..,
            htold.concat behind hregistered hclear⟩
      · have hempty : (pathAfter behind (run ++ [event])).keystates key.value.toNat =
            KeyEvent.none.value := by
          rcases Classical.em (event = .clear key) with rfl | hclear
          · exact hstores.clear rfl
          · exact (hstores.keep hclear (Or.inr hunregistered)).trans (ih.1 hunregistered)
        refine ⟨fun _ => hempty, fun hregistered => ?_⟩
        rcases Classical.em (event = .initRpcKeyHandler) with rfl | hne
        · exact ⟨run ++ [.initRpcKeyHandler], [], (List.append_nil _).symm,
            told_of_opens behind (.registered hunregistered hregistered) hempty⟩
        · exact absurd ((hother hne).mp hregistered) hunregistered

/-- What `get_last_key_state` returns of a key, in every order of tests of keys, calls for
the list of handlers, and clearings: nothing before `key_handler` is registered.  After
that, since the registration or the last clearing of the key, whichever came later:
nothing if the phase of the key has been the same, and otherwise its present phase. -/
theorem key_polled (run : List (PathEvent rpc)) (key : KeyId) (resetKeyMemory : Display.Byte) :
    let read := (getLastKeyState key.value resetKeyMemory (pathAfter behind run).keystates).1
    (¬ (pathAfter behind run).Registered rpc → read = KeyEvent.none.value) ∧
    ((pathAfter behind run).Registered rpc → ∃ past recent, run = past ++ recent ∧
      Opens behind key past ∧ .clear key ∉ recent ∧
      (Steady (keyPhase key) past recent → read = KeyEvent.none.value) ∧
      (¬ Steady (keyPhase key) past recent → read = (keyPhase key run).event.value)) := by
  intro read
  obtain ⟨hunregistered, hregistered⟩ := told_of_run behind run key
  have hread : read = (pathAfter behind run).keystates key.value.toNat := by
    unfold read getLastKeyState
    split
    · rfl
    · rfl
  rw [hread]
  refine ⟨hunregistered, fun h => ?_⟩
  obtain ⟨past, recent, rfl, htold⟩ := hregistered h
  exact ⟨past, recent, rfl, htold.opens, htold.notCleared, htold.steady, htold.changed⟩

end Runs

end WindradLogger.Keys
