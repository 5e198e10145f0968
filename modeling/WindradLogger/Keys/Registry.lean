import Mathlib.Data.Finset.Option
import Mathlib.Algebra.Order.BigOperators.Group.Finset
import WindradLogger.Keys.Debounce
import WindradLogger.Lib.History
import WindradLogger.Lib.While

set_option autoImplicit false

/-!
# The list of handlers (`task_key.c`)

A handler that is registered is first removed from the list and then written into
its first free entry.  Free entries are marked with `NULL`, and the same search
finds them.  So the list stands for a set of at most eight handlers, as long as
`NULL` is not given as a handler: the removal of `NULL` writes back what it looks
for.
-/

namespace WindradLogger.Keys

open WindradLogger.Lib WindradLogger.Rpc

/-! ## The functions -/

/-- `keyHandleList` -/
abbrev HandleList (Handle : Type) : Type := Vector (Option Handle) handlelistSize

variable {Handle : Type} [DecidableEq Handle]

/-- `findHandle`, with `none` for -1. -/
def findHandle (keyHandleList : HandleList Handle) (h : Option Handle) :
    Option (Fin handlelistSize) :=
  (List.finRange handlelistSize).find? fun i => keyHandleList.get i = h

/-- A round of the loop of `keyUnRegisterHandle`. -/
def removalRound (h : Option Handle) (keyHandleList : HandleList Handle) :
    Option (HandleList Handle) :=
  (findHandle keyHandleList h).map fun (i : Fin handlelistSize) => keyHandleList.set i none

/-- `keyUnRegisterHandle`, when it returns after a number of rounds at most. -/
def keyUnRegisterHandle (rounds : Nat) (keyHandleList : HandleList Handle) (h : Option Handle) :
    Option (Bool × HandleList Handle) :=
  match findHandle keyHandleList h with
  | none => some (false, keyHandleList)
  | some _ => (whileRounds (removalRound h) rounds keyHandleList).map fun list => (true, list)

/-- `keyRegisterHandle`, when the removal returns after a number of rounds at
most. -/
def keyRegisterHandle (rounds : Nat) (keyHandleList : HandleList Handle) (h : Option Handle) :
    Option (Bool × HandleList Handle) := do
  let (_, keyHandleList) ← keyUnRegisterHandle rounds keyHandleList h
  match findHandle keyHandleList none with
  | some i => some (true, keyHandleList.set i h)
  | none => some (false, keyHandleList)

theorem get_of_findHandle {list : HandleList Handle} {h : Option Handle}
    {i : Fin handlelistSize} (hfind : findHandle list h = some i) : list.get i = h :=
  of_decide_eq_true (List.find?_some (p := fun i => decide (list.get i = h)) hfind)

theorem findHandle_eq_none_iff {list : HandleList Handle} {h : Option Handle} :
    findHandle list h = none ↔ ∀ i, list.get i ≠ h := by
  rw [findHandle, List.find?_eq_none]
  simp

omit [DecidableEq Handle] in
theorem get_set (list : HandleList Handle) (i j : Fin handlelistSize) (h : Option Handle) :
    (list.set i h).get j = if j = i then h else list.get j := by
  change (list.set i h)[j.val] = if j = i then h else list[j.val]
  rw [Vector.getElem_set]
  exact if_congr (eq_comm.trans Fin.ext_iff.symm) rfl rfl

/-! ## Removing `NULL` -/

/-- With a free entry the removal of `NULL` never ends. -/
theorem keyUnRegisterHandle_null {list : HandleList Handle} (hfree : ∃ i, list.get i = none)
    (rounds : Nat) : keyUnRegisterHandle rounds list none = none := by
  obtain ⟨i, hi⟩ := hfree
  have hloop : whileRounds (removalRound none) rounds list = none := by
    refine whileRounds_eq_none (fun s => ∃ i, s.get i = none) ?_ rounds ⟨i, hi⟩
    rintro s ⟨j, hj⟩
    cases hfind : findHandle s none with
    | none => exact absurd hj (findHandle_eq_none_iff.mp hfind j)
    | some k =>
        refine ⟨s.set k none, ?_, k, ?_⟩
        · rw [removalRound, hfind]
          rfl
        · rw [get_set, if_pos rfl]
  cases hfind : findHandle list none with
  | none => exact absurd hi (findHandle_eq_none_iff.mp hfind i)
  | some k =>
      rw [keyUnRegisterHandle, hfind, hloop]
      rfl

/-! ## Removing a handler -/

/-- The list without a handler. -/
def removed (list : HandleList Handle) (h : Handle) : HandleList Handle :=
  list.map fun g => if g = some h then none else g

theorem get_removed (list : HandleList Handle) (h : Handle) (i : Fin handlelistSize) :
    (removed list h).get i = if list.get i = some h then none else list.get i :=
  Vector.getElem_map _ _

/-- The number of entries that hold a handler. -/
def occurrences (h : Handle) (list : HandleList Handle) : Nat :=
  (Finset.univ.filter fun i => list.get i = some h).card

theorem occurrences_le (h : Handle) (list : HandleList Handle) :
    occurrences h list ≤ handlelistSize :=
  (Finset.card_le_univ _).trans (Nat.le_of_eq (Fintype.card_fin _))

/-- A round removes one of them. -/
theorem occurrences_set_lt {h : Handle} {list : HandleList Handle} {i : Fin handlelistSize}
    (hi : list.get i = some h) : occurrences h (list.set i none) < occurrences h list := by
  refine Finset.card_lt_card ?_
  rw [Finset.ssubset_iff_of_subset]
  · refine ⟨i, by simpa using hi, ?_⟩
    rw [Finset.mem_filter, get_set, if_pos rfl]
    simp
  · intro j hj
    rw [Finset.mem_filter, get_set] at hj
    rw [Finset.mem_filter]
    refine ⟨hj.1, ?_⟩
    have hget := hj.2
    split at hget
    · cases hget
    · exact hget

/-- What a round of the removal of a handler does to an entry. -/
def Thinned (list after : HandleList Handle) (h : Handle) : Prop :=
  ∀ i, after.get i = list.get i ∨ after.get i = none ∧ list.get i = some h

omit [DecidableEq Handle] in
theorem Thinned.set {list after : HandleList Handle} {h : Handle} {i : Fin handlelistSize}
    (hthinned : Thinned list after h) (hi : after.get i = some h) :
    Thinned list (after.set i none) h := by
  intro j
  rw [get_set]
  split
  · rename_i heq
    subst heq
    rcases hthinned j with hsame | ⟨hfree, -⟩
    · exact Or.inr ⟨rfl, hsame.symm.trans hi⟩
    · rw [hfree] at hi
      cases hi
  · exact hthinned j

/-- When the handler is gone the list is the one without it. -/
theorem Thinned.eq_removed {list after : HandleList Handle} {h : Handle}
    (hthinned : Thinned list after h) (hgone : ∀ i, after.get i ≠ some h) :
    after = removed list h := by
  refine Vector.ext fun i hi => ?_
  have hentry : after.get ⟨i, hi⟩ = (removed list h).get ⟨i, hi⟩ := by
    rw [get_removed]
    rcases hthinned ⟨i, hi⟩ with hsame | ⟨hfree, hheld⟩
    · rw [if_neg fun heq => hgone _ (hsame.trans heq), hsame]
    · rw [if_pos hheld, hfree]
  exact hentry

/-- Eight rounds remove a handler from any list, and nothing else. -/
theorem whileRounds_removalRound (list : HandleList Handle) (h : Handle) :
    whileRounds (removalRound (some h)) handlelistSize list = some (removed list h) := by
  have hround : ∀ s s', Thinned list s h → removalRound (some h) s = some s' →
      Thinned list s' h ∧ occurrences h s' < occurrences h s := by
    intro s s' hs hround
    rw [removalRound, Option.map_eq_some_iff] at hround
    obtain ⟨i, hfind, rfl⟩ := hround
    have hi := get_of_findHandle hfind
    exact ⟨hs.set hi, occurrences_set_lt hi⟩
  obtain ⟨after, hloop, hthinned, hend⟩ := whileRounds_of_measure (Thinned list · h)
    (occurrences h) hround (fun _ => Or.inl rfl) (occurrences_le h list)
  rw [removalRound, Option.map_eq_none_iff] at hend
  rw [hloop, hthinned.eq_removed (findHandle_eq_none_iff.mp hend)]

/-! ## The set of handlers -/

/-- The handlers in the list. -/
def registered (list : HandleList Handle) : Finset Handle :=
  Finset.univ.biUnion fun i => (list.get i).toFinset

theorem mem_registered {list : HandleList Handle} {h : Handle} :
    h ∈ registered list ↔ ∃ i, list.get i = some h := by
  simp [registered]

theorem registered_removed (list : HandleList Handle) (h : Handle) :
    registered (removed list h) = (registered list).erase h := by
  ext g
  rw [Finset.mem_erase, mem_registered, mem_registered]
  constructor
  · rintro ⟨i, hi⟩
    rw [get_removed] at hi
    split at hi
    · cases hi
    · rename_i hne
      refine ⟨?_, i, hi⟩
      rintro rfl
      exact hne hi
  · rintro ⟨hne, i, hi⟩
    refine ⟨i, ?_⟩
    rw [get_removed, if_neg]
    · exact hi
    · rw [hi, Option.some.injEq]
      exact hne

/-- No handler is in the list twice. -/
def Unique (list : HandleList Handle) : Prop :=
  ∀ i j h, list.get i = some h → list.get j = some h → i = j

/-- Entries hold no more handlers than there are entries. -/
theorem card_entries_le (list : HandleList Handle) (entries : Finset (Fin handlelistSize)) :
    (entries.biUnion fun i => (list.get i).toFinset).card ≤ entries.card := by
  rw [← Nat.mul_one entries.card]
  refine Finset.card_biUnion_le_card_mul _ _ 1 fun i _ => ?_
  cases list.get i with
  | none => exact Nat.zero_le 1
  | some h => exact Nat.le_refl 1

theorem card_registered_le (list : HandleList Handle) :
    (registered list).card ≤ handlelistSize := by
  have hle := card_entries_le list Finset.univ
  rwa [Finset.card_univ, Fintype.card_fin] at hle

/-- With a free entry there are fewer handlers than entries: the others hold no more
than seven. -/
theorem card_registered_lt {list : HandleList Handle} {i : Fin handlelistSize}
    (hfree : list.get i = none) : (registered list).card < handlelistSize := by
  have hothers : registered list =
      (Finset.univ.erase i).biUnion fun j => (list.get j).toFinset := by
    ext g
    rw [mem_registered, Finset.mem_biUnion]
    constructor
    · rintro ⟨j, hj⟩
      refine ⟨j, ?_, by simp [hj]⟩
      rw [Finset.mem_erase]
      refine ⟨?_, Finset.mem_univ j⟩
      rintro rfl
      rw [hfree] at hj
      cases hj
    · rintro ⟨j, -, hj⟩
      exact ⟨j, by simpa using hj⟩
  have hle := card_entries_le list (Finset.univ.erase i)
  rw [← hothers, Finset.card_erase_of_mem (Finset.mem_univ i), Finset.card_univ,
    Fintype.card_fin] at hle
  unfold handlelistSize at hle ⊢
  omega

/-- Without a free entry every entry holds a handler of its own. -/
theorem card_registered_of_full {list : HandleList Handle} (hunique : Unique list)
    (hfull : ∀ i, list.get i ≠ none) : (registered list).card = handlelistSize := by
  choose handler hhandler using fun i => Option.ne_none_iff_exists'.mp (hfull i)
  have hinjective : Function.Injective handler := by
    intro i j heq
    exact hunique i j (handler i) (hhandler i) (heq ▸ hhandler j)
  have himage : registered list = Finset.univ.image handler := by
    ext g
    rw [mem_registered, Finset.mem_image]
    constructor
    · rintro ⟨i, hi⟩
      exact ⟨i, Finset.mem_univ i, Option.some.inj ((hhandler i).symm.trans hi)⟩
    · rintro ⟨i, -, rfl⟩
      exact ⟨i, hhandler i⟩
  rw [himage, Finset.card_image_of_injective _ hinjective, Finset.card_univ, Fintype.card_fin]

/-- The list is full when there are as many handlers as entries. -/
theorem card_registered_eq_iff {list : HandleList Handle} (hunique : Unique list) :
    (registered list).card = handlelistSize ↔ ∀ i, list.get i ≠ none := by
  constructor
  · intro hcard i hfree
    exact Nat.ne_of_lt (card_registered_lt hfree) hcard
  · exact card_registered_of_full hunique

/-! ## The two calls -/

/-- The removal of a handler returns whether it was there. -/
theorem keyUnRegisterHandle_eq (list : HandleList Handle) (h : Handle) :
    keyUnRegisterHandle handlelistSize list (some h) =
      some (decide (h ∈ registered list), removed list h) := by
  unfold keyUnRegisterHandle
  cases hfind : findHandle list (some h) with
  | none =>
      have hgone := findHandle_eq_none_iff.mp hfind
      have hnot : h ∉ registered list := by
        rw [mem_registered, not_exists]
        exact hgone
      have hsame : list = removed list h := Thinned.eq_removed (fun _ => Or.inl rfl) hgone
      rw [decide_eq_false hnot, ← hsame]
  | some i =>
      have hmem : h ∈ registered list := mem_registered.mpr ⟨i, get_of_findHandle hfind⟩
      rw [whileRounds_removalRound, decide_eq_true hmem]
      rfl

/-- The registration of a handler writes it into an entry that is free once it is
removed, or finds none. -/
theorem keyRegisterHandle_cases (list : HandleList Handle) (h : Handle) :
    (∃ i : Fin handlelistSize, (removed list h).get i = none ∧
      keyRegisterHandle handlelistSize list (some h) =
        some (true, (removed list h).set i (some h))) ∨
    (∀ i, (removed list h).get i ≠ none) ∧
      keyRegisterHandle handlelistSize list (some h) = some (false, removed list h) := by
  unfold keyRegisterHandle
  rw [keyUnRegisterHandle_eq]
  cases hfind : findHandle (removed list h) none with
  | none =>
      refine Or.inr ⟨findHandle_eq_none_iff.mp hfind, ?_⟩
      simp only [Option.bind_eq_bind, Option.bind_some, hfind]
  | some i =>
      refine Or.inl ⟨i, get_of_findHandle hfind, ?_⟩
      simp only [Option.bind_eq_bind, Option.bind_some, hfind]

/-- A call returns after eight rounds at most when it is not given `NULL`, or when
there is no free entry to be found; with `NULL` and a free entry it never returns. -/
theorem registration_returns_iff (list : HandleList Handle) (h : Option Handle) :
    (∃ result, keyUnRegisterHandle handlelistSize list h = some result) ∧
        (∃ result, keyRegisterHandle handlelistSize list h = some result) ↔
      h ≠ none ∨ ∀ i, list.get i ≠ none := by
  constructor
  · rintro ⟨⟨result, hreturn⟩, -⟩
    by_contra hneither
    rw [not_or, not_not, not_forall] at hneither
    obtain ⟨rfl, i, hfree⟩ := hneither
    rw [keyUnRegisterHandle_null ⟨i, not_not.mp hfree⟩] at hreturn
    cases hreturn
  · intro hcondition
    cases h with
    | some h =>
        refine ⟨⟨_, keyUnRegisterHandle_eq list h⟩, ?_⟩
        rcases keyRegisterHandle_cases list h with ⟨i, -, hreturn⟩ | ⟨-, hreturn⟩
        · exact ⟨_, hreturn⟩
        · exact ⟨_, hreturn⟩
    | none =>
        have hfull := hcondition.resolve_left fun hne => hne rfl
        have hfind := findHandle_eq_none_iff.mpr hfull
        have hremove : keyUnRegisterHandle handlelistSize list none = some (false, list) := by
          rw [keyUnRegisterHandle, hfind]
        refine ⟨⟨_, hremove⟩, (false, list), ?_⟩
        unfold keyRegisterHandle
        rw [hremove]
        simp only [Option.bind_eq_bind, Option.bind_some, hfind]

/-- With the list as `keyInit` leaves it neither call returns from `NULL`. -/
theorem registration_null_keyInit :
    (∀ rounds, keyUnRegisterHandle rounds (keyInit : KeyState Nat).keyHandleList none = none) ∧
      ∀ rounds, keyRegisterHandle rounds (keyInit : KeyState Nat).keyHandleList none = none := by
  have hfree : ∃ i, (keyInit : KeyState Nat).keyHandleList.get i = none := ⟨⟨0, by decide⟩, rfl⟩
  have hremove := keyUnRegisterHandle_null hfree
  refine ⟨hremove, fun rounds => ?_⟩
  rw [keyRegisterHandle, hremove rounds]
  rfl

/-! ## What the calls keep -/

omit [DecidableEq Handle] in
/-- The entries of the other handlers are as they were. -/
def KeepsOthers (list after : HandleList Handle) (h : Handle) : Prop :=
  ∀ i g, g ≠ h → (after.get i = some g ↔ list.get i = some g)

theorem keepsOthers_removed (list : HandleList Handle) (h : Handle) :
    KeepsOthers list (removed list h) h := by
  intro i g hne
  rw [get_removed]
  split
  · rename_i hheld
    rw [hheld, Option.some.injEq]
    exact ⟨fun hnone => (nomatch hnone), fun heq => absurd heq.symm hne⟩
  · rfl

theorem keepsOthers_set {list : HandleList Handle} {h : Handle} {i : Fin handlelistSize}
    (hfree : (removed list h).get i = none) :
    KeepsOthers list ((removed list h).set i (some h)) h := by
  intro j g hne
  rw [get_set, ← keepsOthers_removed list h j g hne]
  split
  · rename_i heq
    rw [heq, hfree, Option.some.injEq]
    exact ⟨fun heq => absurd heq.symm hne, fun hnone => nomatch hnone⟩
  · rfl

theorem Unique.removed {list : HandleList Handle} (hunique : Unique list) (h : Handle) :
    Unique (removed list h) := by
  intro i j g hi hj
  have hne : g ≠ h := by
    rintro rfl
    rw [get_removed] at hi
    split at hi
    · cases hi
    · rename_i hother
      exact hother hi
  have hothers := keepsOthers_removed list h
  exact hunique i j g ((hothers i g hne).mp hi) ((hothers j g hne).mp hj)

/-- A handler that is not in the list can be written into one entry. -/
theorem Unique.set {list : HandleList Handle} (hunique : Unique list) {h : Handle}
    (habsent : h ∉ registered list) (i : Fin handlelistSize) : Unique (list.set i (some h)) := by
  have hnot : ∀ j, list.get j ≠ some h := fun j hj => habsent (mem_registered.mpr ⟨j, hj⟩)
  intro j k g hj hk
  rw [get_set] at hj hk
  split at hj
  · cases hj
    split at hk
    · rename_i hji hki
      exact hji.trans hki.symm
    · exact absurd hk (hnot k)
  · split at hk
    · cases hk
      exact absurd hj (hnot j)
    · exact hunique j k g hj hk

theorem registered_set {list : HandleList Handle} {h : Handle} {i : Fin handlelistSize}
    (hfree : list.get i = none) :
    registered (list.set i (some h)) = insert h (registered list) := by
  ext g
  rw [Finset.mem_insert, mem_registered, mem_registered]
  constructor
  · rintro ⟨j, hj⟩
    rw [get_set] at hj
    split at hj
    · exact Or.inl (Option.some.inj hj).symm
    · exact Or.inr ⟨j, hj⟩
  · rintro (rfl | ⟨j, hj⟩)
    · exact ⟨i, by rw [get_set, if_pos rfl]⟩
    · refine ⟨j, ?_⟩
      rw [get_set, if_neg, hj]
      rintro rfl
      rw [hfree] at hj
      cases hj

/-! ## Runs of calls -/

/-- A call with a handler other than `NULL`. -/
inductive HandleCall (Handle : Type) where
  | register (h : Handle)
  | unRegister (h : Handle)

/-- What a call returns, and the list after it. -/
def HandleCall.run (keyHandleList : HandleList Handle) :
    HandleCall Handle → Option (Bool × HandleList Handle)
  | register h => keyRegisterHandle handlelistSize keyHandleList (some h)
  | unRegister h => keyUnRegisterHandle handlelistSize keyHandleList (some h)

def handleStep (keyHandleList : HandleList Handle) (call : HandleCall Handle) :
    Option (HandleList Handle) :=
  (call.run keyHandleList).map Prod.snd

/-- What a call should do to the set of handlers. -/
def HandleCall.apply (handlers : Finset Handle) : HandleCall Handle → Finset Handle
  | register h => if (insert h handlers).card ≤ handlelistSize then insert h handlers else handlers
  | unRegister h => handlers.erase h

/-- What is known of `keyRegisterHandle`. -/
structure Registers (list : HandleList Handle) (h : Handle) (ok : Bool)
    (after : HandleList Handle) : Prop where
  returns : keyRegisterHandle handlelistSize list (some h) = some (ok, after)
  accepted : ok = true ↔ h ∈ registered list ∨ ∃ i, list.get i = none
  entered : ok = true → h ∈ registered after
  refused : ok = false ↔ ((registered list).erase h).card = handlelistSize
  unchanged : ok = false → after = list
  others : KeepsOthers list after h

/-- What is known of `keyUnRegisterHandle`. -/
structure UnRegisters (list : HandleList Handle) (h : Handle) (ok : Bool)
    (after : HandleList Handle) : Prop where
  returns : keyUnRegisterHandle handlelistSize list (some h) = some (ok, after)
  found : ok = true ↔ h ∈ registered list
  gone : h ∉ registered after
  others : KeepsOthers list after h

theorem unRegisters (list : HandleList Handle) (h : Handle) :
    UnRegisters list h (decide (h ∈ registered list)) (removed list h) where
  returns := keyUnRegisterHandle_eq list h
  found := decide_eq_true_iff
  gone := by
    rw [registered_removed]
    exact Finset.notMem_erase h _
  others := keepsOthers_removed list h

/-- A handler finds an entry when it has one already or one is free. -/
theorem free_removed_iff {list : HandleList Handle} {h : Handle} :
    (∃ i, (removed list h).get i = none) ↔ h ∈ registered list ∨ ∃ i, list.get i = none := by
  rw [mem_registered]
  constructor
  · rintro ⟨i, hi⟩
    rw [get_removed] at hi
    split at hi
    · rename_i hheld
      exact Or.inl ⟨i, hheld⟩
    · exact Or.inr ⟨i, hi⟩
  · rintro (⟨i, hi⟩ | ⟨i, hi⟩)
    · exact ⟨i, by rw [get_removed, if_pos hi]⟩
    · exact ⟨i, by rw [get_removed, hi, if_neg (Option.some_ne_none h).symm]⟩

/-- A handler that finds no entry: eight others have them, and nothing is removed. -/
theorem removed_eq_of_full {list : HandleList Handle} {h : Handle}
    (hfull : ∀ i, (removed list h).get i ≠ none) :
    h ∉ registered list ∧ (∀ i, list.get i ≠ none) ∧ removed list h = list := by
  have hnot := mt free_removed_iff.mpr (not_exists.mpr hfull)
  rw [not_or, not_exists] at hnot
  refine ⟨hnot.1, hnot.2, (Thinned.eq_removed (fun _ => Or.inl rfl) ?_).symm⟩
  exact fun i hi => hnot.1 (mem_registered.mpr ⟨i, hi⟩)

/-- Written into a free entry, the handler is added to the set. -/
theorem registered_register {list : HandleList Handle} {h : Handle} {i : Fin handlelistSize}
    (hfree : (removed list h).get i = none) :
    registered ((removed list h).set i (some h)) = insert h (registered list) := by
  rw [registered_set hfree, registered_removed]
  ext g
  rw [Finset.mem_insert, Finset.mem_insert, Finset.mem_erase]
  tauto

/-- A registration that finds an entry. -/
theorem registers_of_free {list : HandleList Handle} (hunique : Unique list) {h : Handle}
    {i : Fin handlelistSize} (hfree : (removed list h).get i = none)
    (hreturn : keyRegisterHandle handlelistSize list (some h) =
      some (true, (removed list h).set i (some h))) :
    Registers list h true ((removed list h).set i (some h)) where
  returns := hreturn
  accepted := iff_of_true rfl (free_removed_iff.mp ⟨i, hfree⟩)
  entered := by
    intro _
    rw [registered_register hfree]
    exact Finset.mem_insert_self h _
  refused := by
    refine iff_of_false (fun hno => (nomatch hno)) ?_
    rw [← registered_removed, card_registered_eq_iff (hunique.removed h)]
    exact fun hall => hall i hfree
  unchanged := fun hno => (nomatch hno)
  others := keepsOthers_set hfree

/-- A registration that finds none. -/
theorem registers_of_full {list : HandleList Handle} (hunique : Unique list) {h : Handle}
    (hfull : ∀ i, (removed list h).get i ≠ none)
    (hreturn : keyRegisterHandle handlelistSize list (some h) = some (false, removed list h)) :
    Registers list h false list where
  returns := by rw [hreturn, (removed_eq_of_full hfull).2.2]
  accepted := by
    obtain ⟨habsent, hnone, -⟩ := removed_eq_of_full hfull
    refine iff_of_false (fun hno => (nomatch hno)) ?_
    rintro (hmem | ⟨i, hi⟩)
    · exact habsent hmem
    · exact hnone i hi
  entered := fun hno => (nomatch hno)
  refused := by
    rw [← registered_removed, card_registered_eq_iff (hunique.removed h)]
    exact iff_of_true rfl hfull
  unchanged := fun _ => rfl
  others := fun _ _ _ => Iff.rfl

/-- What `keyRegisterHandle` does to a list without repetitions. -/
theorem registers {list : HandleList Handle} (hunique : Unique list) (h : Handle) :
    ∃ ok after, Registers list h ok after ∧ Unique after ∧
      registered after = (HandleCall.register h).apply (registered list) := by
  rcases keyRegisterHandle_cases list h with ⟨i, hfree, hreturn⟩ | ⟨hfull, hreturn⟩
  · have habsent : h ∉ registered (removed list h) := (unRegisters list h).gone
    refine ⟨true, _, registers_of_free hunique hfree hreturn, (hunique.removed h).set habsent i, ?_⟩
    have hle := card_registered_le ((removed list h).set i (some h))
    rw [registered_register hfree] at hle
    rw [registered_register hfree, HandleCall.apply, if_pos hle]
  · refine ⟨false, list, registers_of_full hunique hfull hreturn, hunique, ?_⟩
    obtain ⟨habsent, hnone, -⟩ := removed_eq_of_full hfull
    have hmore : ¬ (insert h (registered list)).card ≤ handlelistSize := by
      rw [Finset.card_insert_of_notMem habsent, card_registered_of_full hunique hnone]
      exact Nat.not_succ_le_self _
    rw [HandleCall.apply, if_neg hmore]

/-- A call keeps the list without repetitions, and does to its set what it
should. -/
theorem handleStep_total {list : HandleList Handle} (hunique : Unique list)
    (call : HandleCall Handle) :
    ∃ after, handleStep list call = some after ∧ Unique after ∧
      registered after = call.apply (registered list) := by
  cases call with
  | register h =>
      obtain ⟨ok, after, hregisters, hunique', hset⟩ := registers hunique h
      refine ⟨after, ?_, hunique', hset⟩
      rw [handleStep, HandleCall.run, hregisters.returns]
      rfl
  | unRegister h =>
      refine ⟨removed list h, ?_, hunique.removed h, registered_removed list h⟩
      rw [handleStep, HandleCall.run, keyUnRegisterHandle_eq]
      rfl

/-- The list as `keyInit` leaves it. -/
theorem keyInit_empty :
    Unique (keyInit : KeyState Handle).keyHandleList ∧
      registered (keyInit : KeyState Handle).keyHandleList = ∅ := by
  have hnone : ∀ i, (keyInit : KeyState Handle).keyHandleList.get i = none :=
    fun i => Vector.getElem_replicate i.isLt
  refine ⟨?_, ?_⟩
  · intro i j h hi
    rw [hnone] at hi
    cases hi
  · rw [Finset.eq_empty_iff_forall_notMem]
    intro h hmem
    obtain ⟨i, hi⟩ := mem_registered.mp hmem
    rw [hnone] at hi
    cases hi

/-- `fireEvent` calls every handler of the list once. -/
theorem fireEvent_once {list : HandleList Handle} (hunique : Unique list) (event : KeyEvent)
    (keyId : KeyId) :
    (fireEvent list event keyId).Nodup ∧
      ∀ call, call ∈ fireEvent list event keyId ↔
        call.1 ∈ registered list ∧ call.2 = (event, keyId) := by
  refine ⟨?_, ?_⟩
  · rw [List.Nodup, fireEvent, List.pairwise_filterMap, List.pairwise_iff_getElem]
    intro i j hi hj hlt call hcall call' hcall' heq
    obtain ⟨h, hh, rfl⟩ := Option.map_eq_some_iff.mp hcall
    obtain ⟨h', hh', rfl⟩ := Option.map_eq_some_iff.mp hcall'
    obtain rfl : h = h' := (Prod.ext_iff.mp heq).1
    rw [Vector.length_toList] at hi hj
    rw [Vector.getElem_toList] at hh hh'
    have hsame := hunique ⟨i, hi⟩ ⟨j, hj⟩ h hh hh'
    exact absurd (congrArg Fin.val hsame) (Nat.ne_of_lt hlt)
  · rintro ⟨h, fired⟩
    rw [fireEvent, List.mem_filterMap, mem_registered]
    constructor
    · rintro ⟨entry, hentry, hcall⟩
      obtain ⟨h', rfl, heq⟩ := Option.map_eq_some_iff.mp hcall
      cases heq
      obtain ⟨i, hi, hget⟩ := Vector.mem_iff_getElem.mp (Vector.mem_toList_iff.mp hentry)
      exact ⟨⟨⟨i, hi⟩, hget⟩, rfl⟩
    · rintro ⟨⟨i, hi⟩, rfl⟩
      refine ⟨some h, ?_, rfl⟩
      rw [← hi]
      exact Vector.mem_toList_iff.mpr (Vector.getElem_mem i.isLt)

/-- In every run of calls from `keyInit` the list holds, each of them once, exactly
the handlers that it should.  The next call returns what it is said to return, keeps
the other handlers where they are, and leaves the list alone when it fails; and
`fireEvent` calls every registered handler once. -/
theorem registry_of_run (run : List (HandleCall Handle)) :
    ∃ list, runFrom handleStep (keyInit : KeyState Handle).keyHandleList run = some list ∧
      Unique list ∧ registered list = run.foldl HandleCall.apply ∅ ∧
      (∀ h, ∃ ok after, Registers list h ok after) ∧
      (∀ h, ∃ ok after, UnRegisters list h ok after) ∧
      ∀ event keyId, (fireEvent list event keyId).Nodup ∧
        ∀ call, call ∈ fireEvent list event keyId ↔
          call.1 ∈ registered list ∧ call.2 = (event, keyId) := by
  obtain ⟨hstart, hempty⟩ := @keyInit_empty Handle _
  obtain ⟨list, hrun, hunique, hset⟩ := runFrom_total
    (s := (keyInit : KeyState Handle).keyHandleList)
    (fun past list => Unique list ∧ registered list = past.foldl HandleCall.apply ∅)
    ⟨hstart, hempty⟩ (fun past before call hbefore => by
      obtain ⟨after, hstep, hunique, hset⟩ := handleStep_total hbefore.1 call
      refine ⟨after, hstep, hunique, ?_⟩
      rw [hset, hbefore.2, List.foldl_append]
      rfl) run
  refine ⟨list, hrun, hunique, hset, ?_, ?_, fireEvent_once hunique⟩
  · intro h
    obtain ⟨ok, after, hregisters, -⟩ := registers hunique h
    exact ⟨ok, after, hregisters⟩
  · exact fun h => ⟨_, _, unRegisters list h⟩

end WindradLogger.Keys
