import Mathlib.Data.List.Induction
import WindradLogger.Display.Hd44780

set_option autoImplicit false

/-!
# The key memory of the remote side (`rpc_func_freertos.c`)

A handler stores the last event of every key; a poll returns the event of one key
and, with its second argument set, clears the memory of all of them.  What a poll
returns is compared with what it should: the most recent event of its key since the
last poll of that key that cleared.
-/

namespace WindradLogger.Rpc

open WindradLogger.Display

/-! ## The functions -/

/-- `key_id_t` -/
inductive KeyId where
  | none | key3 | key2 | key1 | onoff
  deriving DecidableEq, Repr

namespace KeyId

/-- `kid_KEYCOUNT` -/
abbrev keycount : Nat := 5

/-- The value of the enumerator. -/
def value : KeyId → Byte
  | none => 0
  | key3 => 1
  | key2 => 2
  | key1 => 3
  | onoff => 4

theorem value_lt (id : KeyId) : id.value.toNat < keycount := by
  cases id <;> decide

theorem value_inj {id id' : KeyId} : id.value.toNat = id'.value.toNat ↔ id = id' := by
  cases id <;> cases id' <;> decide

end KeyId

/-- `key_event_t` -/
inductive KeyEvent where
  | none | pressShort | pressLong | release
  deriving DecidableEq, Repr

namespace KeyEvent

/-- The value of the enumerator. -/
def value : KeyEvent → Byte
  | none => 0
  | pressShort => 1
  | pressLong => 2
  | release => 3

theorem value_inj {event event' : KeyEvent} : event.value = event'.value ↔ event = event' := by
  cases event <;> cases event' <;> decide

end KeyEvent

/-- `keystates`, and behind it, from `kid_KEYCOUNT` on, the memory that follows. -/
abbrev Keystates : Type := Nat → Byte

/-- The memory at start. -/
def startKeystates (behind : Nat → Byte) : Keystates := fun i =>
  if i < KeyId.keycount then 0#8 else behind i

/-- `key_handler` -/
def keyHandler (event : KeyEvent) (id : KeyId) (keystates : Keystates) : Keystates := fun i =>
  if i = id.value.toNat then event.value else keystates i

/-- `get_last_key_state` -/
def getLastKeyState (keyId resetKeyMemory : Byte) (keystates : Keystates) : Byte × Keystates :=
  let result := keystates keyId.toNat
  if resetKeyMemory ≠ 0#8 then
    (result, fun i => if i < KeyId.keycount then 0#8 else keystates i)
  else (result, keystates)

/-! ## Runs -/

/-- What happens to the memory: an event is delivered to the handler, or a key is
polled. -/
inductive KeyAction where
  | event (event : KeyEvent) (id : KeyId)
  | poll (id : KeyId) (resetKeyMemory : Byte)
  deriving DecidableEq

def keyStep (keystates : Keystates) : KeyAction → Keystates
  | .event event id => keyHandler event id keystates
  | .poll id resetKeyMemory => (getLastKeyState id.value resetKeyMemory keystates).2

/-- What a poll of a key returns after a run. -/
def polled (behind : Nat → Byte) (run : List KeyAction) (id : KeyId) (resetKeyMemory : Byte) :
    Byte :=
  (getLastKeyState id.value resetKeyMemory (run.foldl keyStep (startKeystates behind))).1

/-! ## What is remembered of a key -/

/-- The event of a key after an action, when polls of the keys in `clearing` clear
it. -/
def rememberStep (clearing : KeyId → Prop) [DecidablePred clearing] (key : KeyId)
    (last : KeyEvent) : KeyAction → KeyEvent
  | .event event id => if id = key then event else last
  | .poll id resetKeyMemory => if resetKeyMemory ≠ 0#8 ∧ clearing id then .none else last

/-- The most recent event of a key since the last clearing poll, `none` if there was
none. -/
def remembered (clearing : KeyId → Prop) [DecidablePred clearing] (key : KeyId)
    (run : List KeyAction) : KeyEvent :=
  run.foldl (rememberStep clearing key) .none

/-- What a poll of the key should return. -/
def expected (key : KeyId) (run : List KeyAction) : KeyEvent := remembered (· = key) key run

/-- What the memory holds for the key. -/
def kept (key : KeyId) (run : List KeyAction) : KeyEvent := remembered (fun _ => True) key run

theorem keyStep_value {keystates : Keystates} {key : KeyId} {last : KeyEvent}
    (h : keystates key.value.toNat = last.value) (action : KeyAction) :
    keyStep keystates action key.value.toNat =
      (rememberStep (fun _ => True) key last action).value := by
  cases action with
  | event event id =>
      simp only [keyStep, keyHandler, rememberStep, KeyId.value_inj]
      by_cases hid : key = id
      · rw [if_pos hid, if_pos hid.symm]
      · rw [if_neg hid, if_neg (Ne.symm hid), h]
  | poll id resetKeyMemory =>
      simp only [keyStep, getLastKeyState, rememberStep, and_true]
      split
      · exact if_pos key.value_lt
      · exact h

/-- The memory holds for every key its most recent event since the last clearing
poll of any key. -/
theorem keystates_after (behind : Nat → Byte) (run : List KeyAction) (key : KeyId) :
    run.foldl keyStep (startKeystates behind) key.value.toNat = (kept key run).value := by
  induction run using List.reverseRecOn with
  | nil => exact if_pos key.value_lt
  | append_singleton past action ih =>
      rw [List.foldl_concat, kept, remembered, List.foldl_concat]
      exact keyStep_value ih action

theorem polled_eq (behind : Nat → Byte) (run : List KeyAction) (key : KeyId)
    (resetKeyMemory : Byte) : polled behind run key resetKeyMemory = (kept key run).value := by
  rw [← keystates_after behind, polled, getLastKeyState]
  split <;> rfl

/-! ## Polls of the key itself -/

def undisturbedStep (key : KeyId) (undisturbed : Bool) : KeyAction → Bool
  | .event _ id => if id = key then true else undisturbed
  | .poll id resetKeyMemory => if resetKeyMemory ≠ 0#8 ∧ id ≠ key then false else undisturbed

/-- No clearing poll of another key came after the most recent event of the key. -/
def undisturbed (key : KeyId) (run : List KeyAction) : Bool :=
  run.foldl (undisturbedStep key) true

/-- What is remembered is what should be, or nothing after a clearing poll of another
key. -/
theorem kept_eq (key : KeyId) (run : List KeyAction) :
    kept key run = if undisturbed key run then expected key run else .none := by
  induction run using List.reverseRecOn with
  | nil => rfl
  | append_singleton past action ih =>
      unfold kept expected undisturbed remembered at ih ⊢
      simp only [List.foldl_concat, ih]
      generalize past.foldl (rememberStep (· = key) key) .none = last
      generalize past.foldl (undisturbedStep key) true = before
      cases action with
      | event event id =>
          simp only [rememberStep, undisturbedStep]
          by_cases hid : id = key
          · simp only [if_pos hid]
            rfl
          · simp only [if_neg hid]
      | poll id resetKeyMemory =>
          simp only [rememberStep, undisturbedStep, and_true]
          by_cases hreset : resetKeyMemory = 0#8
          · simp [hreset]
          · by_cases hid : id = key
            · simp [hreset, hid]
            · simp [hreset, hid]

theorem kept_eq_expected_iff (key : KeyId) (run : List KeyAction) :
    kept key run = expected key run ↔ expected key run = .none ∨ undisturbed key run = true := by
  rw [kept_eq]
  cases undisturbed key run with
  | true => simp
  | false =>
      simp only [Bool.false_eq_true, if_false, or_false]
      exact eq_comm

/-! ## Polls of other keys -/

/-- After this action it does not matter what was remembered of the key before. -/
def KeyAction.Settles (key : KeyId) : KeyAction → Prop
  | .event _ id => id = key
  | .poll _ resetKeyMemory => resetKeyMemory ≠ 0#8

theorem foldl_rememberStep_of_settled {key : KeyId} {run : List KeyAction}
    (h : ∃ action ∈ run, action.Settles key) (last last' : KeyEvent) :
    run.foldl (rememberStep (fun _ => True) key) last =
      run.foldl (rememberStep (fun _ => True) key) last' := by
  induction run generalizing last last' with
  | nil =>
      obtain ⟨action, hmem, -⟩ := h
      cases hmem
  | cons first rest ih =>
      rw [List.foldl_cons, List.foldl_cons]
      by_cases hrest : ∃ action ∈ rest, action.Settles key
      · exact ih hrest _ _
      · obtain ⟨action, hmem, hsettles⟩ := h
        rcases List.mem_cons.mp hmem with rfl | hin
        · congr 1
          cases action with
          | event event id =>
              have hid : id = key := hsettles
              simp only [rememberStep, if_pos hid]
          | poll id resetKeyMemory =>
              have hreset : resetKeyMemory ≠ 0#8 := hsettles
              simp only [rememberStep, and_true, if_pos hreset]
        · exact absurd ⟨action, hin, hsettles⟩ hrest

theorem foldl_rememberStep_of_not_settled {key : KeyId} {run : List KeyAction}
    (h : ¬ ∃ action ∈ run, action.Settles key) (last : KeyEvent) :
    run.foldl (rememberStep (fun _ => True) key) last = last := by
  induction run with
  | nil => rfl
  | cons first rest ih =>
      have hfirst : rememberStep (fun _ => True) key last first = last := by
        have hnot : ¬ first.Settles key := fun hs => h ⟨first, List.mem_cons_self, hs⟩
        cases first with
        | event event id => exact if_neg hnot
        | poll id resetKeyMemory => exact if_neg fun hboth => hnot hboth.1
      rw [List.foldl_cons, hfirst]
      exact ih fun ⟨action, hmem, hs⟩ => h ⟨action, List.mem_cons_of_mem _ hmem, hs⟩

/-- A poll changes what is remembered later of a key exactly when it clears an event
that nothing settles in between. -/
theorem kept_insert_poll_iff (key id : KeyId) (resetKeyMemory : Byte)
    (past between : List KeyAction) :
    kept key (past ++ .poll id resetKeyMemory :: between) = kept key (past ++ between) ↔
      resetKeyMemory = 0#8 ∨ kept key past = .none ∨
        ∃ action ∈ between, action.Settles key := by
  have hstep : rememberStep (fun _ => True) key (kept key past) (.poll id resetKeyMemory) =
      if resetKeyMemory ≠ 0#8 then .none else kept key past := by
    simp only [rememberStep, and_true]
  have hwith : kept key (past ++ .poll id resetKeyMemory :: between) =
      between.foldl (rememberStep (fun _ => True) key)
        (if resetKeyMemory ≠ 0#8 then .none else kept key past) := by
    rw [kept, remembered, List.foldl_append, List.foldl_cons, ← hstep]
    rfl
  have hwithout : kept key (past ++ between) =
      between.foldl (rememberStep (fun _ => True) key) (kept key past) := by
    rw [kept, remembered, List.foldl_append]
    rfl
  rw [hwith, hwithout]
  by_cases hsettled : ∃ action ∈ between, action.Settles key
  · simp only [hsettled, or_true, iff_true]
    exact foldl_rememberStep_of_settled hsettled _ _
  · rw [foldl_rememberStep_of_not_settled hsettled, foldl_rememberStep_of_not_settled hsettled]
    simp only [hsettled, or_false]
    by_cases hreset : resetKeyMemory = 0#8
    · simp [hreset]
    · simp only [ne_eq, hreset, not_false_iff, if_true, false_or]
      exact eq_comm

/-! ## Events of several keys -/

/-- A poll of a key returns the most recent event since the last clearing poll of the
key exactly when there is none or no clearing poll of another key came after it.  A
poll leaves the next poll of another key alone exactly when it does not clear, or
nothing is remembered of that key, or an event of the key or a clearing poll comes in
between. -/
theorem keyEvents_not_lost_iff (behind : Nat → Byte) (past between : List KeyAction)
    (key other : KeyId) (resetKeyMemory resetKeyMemory' : Byte) :
    (polled behind past key resetKeyMemory = (expected key past).value ↔
      expected key past = .none ∨ undisturbed key past = true) ∧
    (polled behind (past ++ .poll other resetKeyMemory' :: between) key resetKeyMemory =
        polled behind (past ++ between) key resetKeyMemory ↔
      resetKeyMemory' = 0#8 ∨
        past.foldl keyStep (startKeystates behind) key.value.toNat = KeyEvent.none.value ∨
        ∃ action ∈ between, action.Settles key) := by
  simp only [polled_eq, keystates_after, KeyEvent.value_inj]
  exact ⟨kept_eq_expected_iff key past,
    kept_insert_poll_iff key other resetKeyMemory' past between⟩

/-- A poll of one key loses the event of another. -/
theorem event_lost_by_poll :
    polled (fun _ => 0#8) [.event .pressShort .key1, .poll .key2 1] .key1 1 = KeyEvent.none.value ∧
      polled (fun _ => 0#8) [.event .pressShort .key1] .key1 1 = KeyEvent.pressShort.value ∧
      expected .key1 [.event .pressShort .key1, .poll .key2 1] = .pressShort := by
  decide

end WindradLogger.Rpc
