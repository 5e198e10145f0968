import Mathlib.Data.List.Nodup
import Mathlib.Logic.Function.Basic
import WindradLogger.Lib.Streak
import WindradLogger.Rpc.KeyMemory

set_option autoImplicit false

/-!
# The key task (`task_key.c`)

Every 50 ms `taskKey` tests the keys one after the other.  A counter for each key
holds for how many samples it has been pressed, up to one more than the number that
makes a press a long one; from it follow the events that the handlers are called
with.
-/

namespace WindradLogger.Keys

open WindradLogger.Lib WindradLogger.Rpc

/-! ## Handlers -/

/-- `HANDLELIST_SIZE` -/
def handlelistSize : Nat := 8

/-- `keyHandleList` and `keyList`; a handler is a `Handle`, and `none` is `NULL`. -/
structure KeyState (Handle : Type) where
  keyHandleList : Vector (Option Handle) handlelistSize
  keyList : KeyId → UInt32

/-- `keyInit` -/
def keyInit {Handle : Type} : KeyState Handle :=
  { keyHandleList := Vector.replicate handlelistSize none
    keyList := fun _ => 0 }

/-- An event that is fired, with the key. -/
abbrev Fired : Type := KeyEvent × KeyId

/-- `fireEvent`: the calls it makes. -/
def fireEvent {Handle : Type} (keyHandleList : Vector (Option Handle) handlelistSize)
    (event : KeyEvent) (keyId : KeyId) : List (Handle × Fired) :=
  keyHandleList.toList.filterMap fun handle => handle.map fun h => (h, event, keyId)

/-! ## One sample of a key -/

/-- `KEYPRESS_LONG_THRESHOLD` -/
def keypressLongThreshold : UInt32 := 20

/-- The body of the loop of `taskKey` over the keys: the new counter of the key, and
the events it fires. -/
def testKey (count : UInt32) (pressed : Bool) : UInt32 × List KeyEvent :=
  if pressed then
    let short := if count = 0 then [KeyEvent.pressShort] else []
    let count := if count < keypressLongThreshold + 1 then count + 1 else count
    let long := if count = keypressLongThreshold then [KeyEvent.pressLong] else []
    (count, short ++ long)
  else (0, if count ≠ 0 then [KeyEvent.release] else [])

/-! ## A cycle -/

/-- The keys from `kid_none + 1` up to `kid_KEYCOUNT - 1`. -/
def testedKeys : List KeyId := [.key3, .key2, .key1, .onoff]

/-- The loop of `taskKey` over the keys, with what `boardTestKey` returns for each. -/
def testKeys (boardTestKey : KeyId → Bool) :
    List KeyId → (KeyId → UInt32) → (KeyId → UInt32) × List Fired
  | [], keyList => (keyList, [])
  | keyId :: rest, keyList =>
      let (count, events) := testKey (keyList keyId) (boardTestKey keyId)
      let (keyList, later) := testKeys boardTestKey rest (Function.update keyList keyId count)
      (keyList, events.map (fun event => (event, keyId)) ++ later)

/-- One cycle of `taskKey`: the counters, the events fired and the calls made. -/
def taskKey {Handle : Type} (s : KeyState Handle) (boardTestKey : KeyId → Bool) :
    KeyState Handle × List Fired × List (Handle × Fired) :=
  let (keyList, fired) := testKeys boardTestKey testedKeys s.keyList
  ({ s with keyList := keyList }, fired,
    fired.flatMap fun e => fireEvent s.keyHandleList e.1 e.2)

/-- Each key has its own counter and its own events. -/
theorem testKeys_eq (boardTestKey : KeyId → Bool) {keys : List KeyId} (hnodup : keys.Nodup)
    (keyList : KeyId → UInt32) :
    (∀ keyId, (testKeys boardTestKey keys keyList).1 keyId =
        if keyId ∈ keys then (testKey (keyList keyId) (boardTestKey keyId)).1
        else keyList keyId) ∧
      (testKeys boardTestKey keys keyList).2 = keys.flatMap fun keyId =>
        (testKey (keyList keyId) (boardTestKey keyId)).2.map fun event => (event, keyId) := by
  induction keys generalizing keyList with
  | nil => exact ⟨fun _ => rfl, rfl⟩
  | cons first rest ih =>
      obtain ⟨hfirst, hrest⟩ := List.nodup_cons.mp hnodup
      obtain ⟨hcounts, hevents⟩ := ih hrest (Function.update keyList first
        (testKey (keyList first) (boardTestKey first)).1)
      have hsame : ∀ keyId ∈ rest, Function.update keyList first
          (testKey (keyList first) (boardTestKey first)).1 keyId = keyList keyId := by
        intro keyId hmem
        refine Function.update_of_ne ?_ _ _
        intro heq
        exact hfirst (heq ▸ hmem)
      refine ⟨?_, ?_⟩
      · intro keyId
        simp only [testKeys]
        rw [hcounts]
        rcases eq_or_ne keyId first with rfl | hne
        · rw [if_neg hfirst, Function.update_self, if_pos List.mem_cons_self]
        · rw [Function.update_of_ne hne]
          simp only [List.mem_cons, hne, false_or]
      · simp only [testKeys, List.flatMap_cons, hevents]
        congr 1
        refine List.flatMap_congr fun keyId hmem => ?_
        rw [hsame keyId hmem]

theorem nodup_testedKeys : testedKeys.Nodup := by decide

theorem mem_testedKeys_iff {keyId : KeyId} : keyId ∈ testedKeys ↔ keyId ≠ .none := by
  cases keyId <;> decide

/-! ## Runs -/

variable {Handle : Type}

/-- A cycle of `taskKey`, or a change of the handlers by another task. -/
inductive KeyStep (Handle : Type) where
  | sample (boardTestKey : KeyId → Bool)
  | register (keyHandleList : Vector (Option Handle) handlelistSize)

def KeyState.step (s : KeyState Handle) : KeyStep Handle → KeyState Handle
  | .sample boardTestKey => (taskKey s boardTestKey).1
  | .register keyHandleList => { s with keyHandleList := keyHandleList }

/-- The state after a run that begins with `keyInit`. -/
def after (run : List (KeyStep Handle)) : KeyState Handle := run.foldl KeyState.step keyInit

/-- The samples of a key in a run. -/
def samplesOf (keyId : KeyId) (run : List (KeyStep Handle)) : List Bool :=
  run.filterMap fun
    | .sample boardTestKey => some (boardTestKey keyId)
    | .register _ => none

/-- The events that are fired by the cycle after a run. -/
def firedAfter (run : List (KeyStep Handle)) (boardTestKey : KeyId → Bool) : List Fired :=
  (taskKey (after run) boardTestKey).2.1

theorem after_concat (run : List (KeyStep Handle)) (last : KeyStep Handle) :
    after (run ++ [last]) = (after run).step last := by
  rw [after, List.foldl_append]
  rfl

theorem samplesOf_concat_sample (keyId : KeyId) (run : List (KeyStep Handle))
    (boardTestKey : KeyId → Bool) :
    samplesOf keyId (run ++ [.sample boardTestKey]) =
      samplesOf keyId run ++ [boardTestKey keyId] := by
  rw [samplesOf, List.filterMap_append]
  rfl

theorem samplesOf_concat_register (keyId : KeyId) (run : List (KeyStep Handle))
    (keyHandleList : Vector (Option Handle) handlelistSize) :
    samplesOf keyId (run ++ [.register keyHandleList]) = samplesOf keyId run := by
  rw [samplesOf, List.filterMap_append]
  exact List.append_nil _

/-! ## The counter -/

/-- A counter that stands for `n` samples in a row. -/
def CountsTo (count : UInt32) (n : Nat) : Prop := count.toNat = min n 21

/-- A pressed sample. -/
theorem testKey_true {count : UInt32} {n : Nat} (h : CountsTo count n) :
    CountsTo (testKey count true).1 (n + 1) ∧
      (testKey count true).2 = (if n = 0 then [KeyEvent.pressShort] else []) ++
        (if n + 1 = 20 then [KeyEvent.pressLong] else []) := by
  have hzero : count = 0 ↔ n = 0 := by
    rw [← UInt32.toNat_inj, h, UInt32.toNat_zero]
    omega
  have hbelow : count < keypressLongThreshold + 1 ↔ n < 21 := by
    have hlimit : (keypressLongThreshold + 1).toNat = 21 := rfl
    rw [UInt32.lt_iff_toNat_lt, h, hlimit]
    omega
  have hnext : CountsTo (if count < keypressLongThreshold + 1 then count + 1 else count)
      (n + 1) := by
    unfold CountsTo at h ⊢
    split
    · rename_i hlt
      have hlt' := hbelow.mp hlt
      have hone : (1 : UInt32).toNat = 1 := rfl
      rw [UInt32.toNat_add, h, hone]
      omega
    · rename_i hge
      have hge' := mt hbelow.mpr hge
      rw [h]
      omega
  have hlong : (if count < keypressLongThreshold + 1 then count + 1 else count) =
      keypressLongThreshold ↔ n + 1 = 20 := by
    have hthreshold : keypressLongThreshold.toNat = 20 := rfl
    rw [← UInt32.toNat_inj, hnext, hthreshold]
    omega
  refine ⟨hnext, ?_⟩
  simp only [testKey, if_true, hzero, hlong]

/-- A sample that is not pressed. -/
theorem testKey_false {count : UInt32} {n : Nat} (h : CountsTo count n) :
    CountsTo (testKey count false).1 0 ∧
      (testKey count false).2 = if n ≠ 0 then [KeyEvent.release] else [] := by
  have hzero : count = 0 ↔ n = 0 := by
    rw [← UInt32.toNat_inj, h, UInt32.toNat_zero]
    omega
  refine ⟨rfl, ?_⟩
  simp only [testKey, Bool.false_eq_true, if_false, ne_eq, hzero]

/-- The events of a sample of a key, from its samples before. -/
def expected (past : List Bool) (pressed : Bool) : List KeyEvent :=
  if pressed then
    (if streak past = 0 then [KeyEvent.pressShort] else []) ++
      (if streak past + 1 = 20 then [KeyEvent.pressLong] else [])
  else if streak past ≠ 0 then [KeyEvent.release] else []

/-- A sample of a key whose counter stands for its samples so far. -/
theorem testKey_streak {count : UInt32} {past : List Bool} (h : CountsTo count (streak past))
    (pressed : Bool) :
    CountsTo (testKey count pressed).1 (streak (past ++ [pressed])) ∧
      (testKey count pressed).2 = expected past pressed := by
  cases pressed with
  | true =>
      rw [streak_concat_true]
      exact testKey_true h
  | false =>
      rw [streak_concat_false]
      exact testKey_false h

/-- After a run the counter of a key stands for the samples in a row at which it was
pressed. -/
theorem keyList_after (run : List (KeyStep Handle)) {keyId : KeyId} (hkey : keyId ∈ testedKeys) :
    CountsTo ((after run).keyList keyId) (streak (samplesOf keyId run)) := by
  induction run using List.reverseRecOn with
  | nil => rfl
  | append_singleton past last ih =>
      rw [after_concat]
      cases last with
      | sample boardTestKey =>
          rw [samplesOf_concat_sample]
          have hcount := (testKeys_eq boardTestKey nodup_testedKeys (after past).keyList).1 keyId
          rw [if_pos hkey] at hcount
          change CountsTo ((testKeys boardTestKey testedKeys (after past).keyList).1 keyId) _
          rw [hcount]
          exact (testKey_streak ih _).1
      | register keyHandleList =>
          rw [samplesOf_concat_register]
          exact ih

/-! ## The events -/

/-- A cycle fires, key by key, the expected events. -/
theorem firedAfter_eq (run : List (KeyStep Handle)) (boardTestKey : KeyId → Bool) :
    firedAfter run boardTestKey = testedKeys.flatMap fun keyId =>
      (expected (samplesOf keyId run) (boardTestKey keyId)).map fun event => (event, keyId) := by
  refine (testKeys_eq boardTestKey nodup_testedKeys (after run).keyList).2.trans ?_
  refine List.flatMap_congr fun keyId hmem => ?_
  rw [(testKey_streak (keyList_after run hmem) _).2]

theorem mem_firedAfter_iff {run : List (KeyStep Handle)} {boardTestKey : KeyId → Bool}
    {event : KeyEvent} {keyId : KeyId} :
    (event, keyId) ∈ firedAfter run boardTestKey ↔
      keyId ≠ .none ∧ event ∈ expected (samplesOf keyId run) (boardTestKey keyId) := by
  rw [firedAfter_eq, List.mem_flatMap, ← mem_testedKeys_iff]
  constructor
  · rintro ⟨other, hmem, hevent⟩
    obtain ⟨event', hevent', heq⟩ := List.mem_map.mp hevent
    cases heq
    exact ⟨hmem, hevent'⟩
  · rintro ⟨hmem, hevent⟩
    exact ⟨keyId, hmem, List.mem_map.mpr ⟨event, hevent, rfl⟩⟩

/-- A sample of a key fires one event at most. -/
theorem expected_cases (past : List Bool) (pressed : Bool) :
    expected past pressed = [] ∨
      ∃ event, event ≠ .none ∧ expected past pressed = [event] := by
  unfold expected
  cases pressed with
  | true =>
      rw [if_pos rfl]
      rcases Nat.eq_zero_or_pos (streak past) with hfirst | hlater
      · -- The first sample of a press is not the twentieth.
        have hlong : ¬ streak past + 1 = 20 := by omega
        rw [if_pos hfirst, if_neg hlong]
        exact Or.inr ⟨.pressShort, by decide, rfl⟩
      · rw [if_neg (Nat.ne_of_gt hlater)]
        split
        · exact Or.inr ⟨.pressLong, by decide, rfl⟩
        · exact Or.inl rfl
  | false =>
      rw [if_neg Bool.false_ne_true]
      split
      · exact Or.inr ⟨.release, by decide, rfl⟩
      · exact Or.inl rfl

theorem none_not_mem_expected (past : List Bool) (pressed : Bool) :
    KeyEvent.none ∉ expected past pressed := by
  rcases expected_cases past pressed with hnil | ⟨event, hne, hone⟩
  · rw [hnil]
    exact List.not_mem_nil
  · rw [hone, List.mem_singleton]
    exact hne.symm

theorem pressShort_mem_expected_iff (past : List Bool) (pressed : Bool) :
    KeyEvent.pressShort ∈ expected past pressed ↔
      pressed = true ∧ past.getLast? ≠ some true := by
  rw [← streak_eq_zero_iff]
  unfold expected
  cases pressed with
  | true => simp
  | false => simp

theorem pressLong_mem_expected_iff (past : List Bool) (pressed : Bool) :
    KeyEvent.pressLong ∈ expected past pressed ↔
      pressed = true ∧ streak past = keypressLongThreshold.toNat - 1 := by
  have hnineteen : keypressLongThreshold.toNat - 1 = 19 := rfl
  unfold expected
  rw [hnineteen]
  cases pressed with
  | true => simp
  | false => simp

theorem release_mem_expected_iff (past : List Bool) (pressed : Bool) :
    KeyEvent.release ∈ expected past pressed ↔
      pressed = false ∧ past.getLast? = some true := by
  rw [← Decidable.not_not (p := past.getLast? = some true), ← ne_eq, ← streak_eq_zero_iff]
  unfold expected
  cases pressed with
  | true => simp
  | false => simp

theorem nodup_expected (past : List Bool) (pressed : Bool) : (expected past pressed).Nodup := by
  rcases expected_cases past pressed with hnil | ⟨event, -, hone⟩
  · rw [hnil]
    exact List.nodup_nil
  · rw [hone]
    exact List.nodup_singleton event

/-- No event is fired twice by one cycle. -/
theorem nodup_firedAfter (run : List (KeyStep Handle)) (boardTestKey : KeyId → Bool) :
    (firedAfter run boardTestKey).Nodup := by
  rw [firedAfter_eq, List.nodup_flatMap]
  refine ⟨?_, ?_⟩
  · intro keyId _
    exact (nodup_expected _ _).map fun event event' h => (Prod.ext_iff.mp h).1
  · refine nodup_testedKeys.imp ?_
    intro keyId keyId' hne e he he'
    obtain ⟨event, -, rfl⟩ := List.mem_map.mp he
    obtain ⟨event', -, heq⟩ := List.mem_map.mp he'
    exact hne (Prod.ext_iff.mp heq).2.symm

/-- Each cycle fires, once each, for every key: a short press when the key is pressed
and was not pressed at the sample before; a long press when it is pressed for the
twentieth time in a row; a release when it is not pressed but was at the sample
before; and nothing else.  What a key fires depends on its own samples alone. -/
theorem fired_exactly (run : List (KeyStep Handle)) (boardTestKey : KeyId → Bool) :
    (firedAfter run boardTestKey).Nodup ∧
      (∀ event, (event, KeyId.none) ∉ firedAfter run boardTestKey) ∧
      ∀ keyId, keyId ≠ .none →
        (KeyEvent.none, keyId) ∉ firedAfter run boardTestKey ∧
        ((KeyEvent.pressShort, keyId) ∈ firedAfter run boardTestKey ↔
          boardTestKey keyId = true ∧ (samplesOf keyId run).getLast? ≠ some true) ∧
        ((KeyEvent.pressLong, keyId) ∈ firedAfter run boardTestKey ↔
          boardTestKey keyId = true ∧ ∃ earlier, samplesOf keyId run =
            earlier ++ List.replicate (keypressLongThreshold.toNat - 1) true ∧
              earlier.getLast? ≠ some true) ∧
        ((KeyEvent.release, keyId) ∈ firedAfter run boardTestKey ↔
          boardTestKey keyId = false ∧ (samplesOf keyId run).getLast? = some true) ∧
        ∀ (run' : List (KeyStep Handle)) (boardTestKey' : KeyId → Bool),
          samplesOf keyId run' = samplesOf keyId run → boardTestKey' keyId = boardTestKey keyId →
          ∀ event, (event, keyId) ∈ firedAfter run' boardTestKey' ↔
            (event, keyId) ∈ firedAfter run boardTestKey := by
  refine ⟨nodup_firedAfter run boardTestKey, ?_, ?_⟩
  · intro event hmem
    exact (mem_firedAfter_iff.mp hmem).1 rfl
  · intro keyId hkey
    have hmem : ∀ event, (event, keyId) ∈ firedAfter run boardTestKey ↔
        event ∈ expected (samplesOf keyId run) (boardTestKey keyId) :=
      fun event => mem_firedAfter_iff.trans (and_iff_right hkey)
    refine ⟨fun h => none_not_mem_expected _ _ ((hmem _).mp h),
      (hmem _).trans (pressShort_mem_expected_iff _ _),
      (hmem _).trans ((pressLong_mem_expected_iff _ _).trans
        (and_congr_right fun _ => streak_eq_iff _ _)),
      (hmem _).trans (release_mem_expected_iff _ _), ?_⟩
    intro run' boardTestKey' hsamples hsample event
    rw [hmem, mem_firedAfter_iff, hsamples, hsample]
    exact and_iff_right hkey

/-- Key 1 at its twentieth sample. -/
theorem fired_exactly_twentieth :
    (KeyEvent.pressLong, KeyId.key1) ∈ firedAfter
      (List.replicate 19 (.sample fun keyId => keyId = .key1) : List (KeyStep Unit))
      fun keyId => keyId = .key1 :=
  ((fired_exactly _ _).2.2 .key1 (by decide)).2.2.1.mpr ⟨rfl, [], rfl, by decide⟩

/-- Every event that a cycle fires reaches every handler in the list, and handlers are
called with nothing else. -/
theorem mem_calls_iff {s : KeyState Handle} {boardTestKey : KeyId → Bool} {h : Handle}
    {e : Fired} :
    (h, e) ∈ (taskKey s boardTestKey).2.2 ↔
      e ∈ (taskKey s boardTestKey).2.1 ∧ some h ∈ s.keyHandleList.toList := by
  simp only [taskKey, List.mem_flatMap, fireEvent, List.mem_filterMap, Option.map_eq_some_iff]
  constructor
  · rintro ⟨fired, hfired, handle, hhandle, h', rfl, heq⟩
    cases heq
    exact ⟨hfired, hhandle⟩
  · rintro ⟨hfired, hhandle⟩
    exact ⟨e, hfired, some h, hhandle, h, rfl, rfl⟩

end WindradLogger.Keys
