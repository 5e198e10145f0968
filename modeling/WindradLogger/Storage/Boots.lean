import WindradLogger.Eeprom.Frozen
import WindradLogger.Storage.Fallback

set_option autoImplicit false

/-!
# Boots of a frozen device (`main.c`)

`main` loads the calibration at every start and stores the default when nothing
loads.  Once the store is frozen, what the first start does every later one does:
it loads the same calibration, or it stores the default where no start will see
it.  Each start of the second kind takes a slot or stops at an assertion.
-/

namespace WindradLogger.Storage

open WindradLogger.Flash WindradLogger.Eeprom WindradLogger.Lib

/-! ## What a start does to flash -/

/-- Flash and HAL are related by `R`. -/
def OnWorld (R : World → World → Prop) (d d' : Device) : Prop := R d.world d'.world

section OnWorld

variable {R : World → World → Prop}

theorem moves_onWorld_of {α : Type} {m : Mcu α} (h : Moves R m) : Moves (OnWorld R) (onWorld m) := by
  intro d
  have hworld := h d.world
  simp only [EStateM.run, onWorld] at hworld ⊢
  split
  · rename_i hrun
    rw [hrun] at hworld
    exact hworld
  · rename_i hrun
    rw [hrun] at hworld
    exact hworld

variable [Std.Refl R]

instance : Std.Refl (OnWorld R) where
  refl d := Std.Refl.refl d.world

/-- Code that only changes the static variables. -/
theorem moves_modify {f : Device → Device} (h : ∀ d, (f d).world = d.world) :
    Moves (OnWorld R) (modify f : Dev Unit) := by
  intro d
  change R d.world (f d).world
  rw [h]
  exact Std.Refl.refl _

variable [IsTrans World R]

instance : IsTrans Device (OnWorld R) where
  trans d d' d'' := IsTrans.trans (r := R) d.world d'.world d''.world

theorem moves_readBufferLoop (old : List HalfWord) (address : Nat) :
    Moves R (readBufferLoop address old) := by
  induction old generalizing address with
  | nil => exact Moves.pure _
  | cons first rest ih =>
      refine Moves.bind (moves_eeReadVariable _ _) fun _ => Moves.ite (Moves.pure _) ?_
      exact Moves.bind (ih _) fun _ => Moves.pure _

theorem moves_writeBufferLoop (h : StepsMove R) (data : List HalfWord) (address : Nat) :
    Moves R (writeBufferLoop address data) := by
  induction data generalizing address with
  | nil => exact Moves.pure _
  | cons value rest ih =>
      refine Moves.bind (moves_eeReadVariable _ _) fun _ => Moves.ite ?_ (ih _)
      refine Moves.bind (h.eeWriteVariable _ _) fun _ => ?_
      exact Moves.bind (moves_assert _) fun _ => ih _

theorem moves_calibLoad : Moves (OnWorld R) calibLoad := by
  refine Moves.bind (moves_onWorld_of (moves_assert _)) fun _ => ?_
  refine Moves.bind (moves_onWorld_of (moves_assert _)) fun _ => ?_
  refine Moves.bind ?_ fun _ => Moves.bind (moves_modify fun _ => rfl) fun _ => Moves.pure _
  refine Moves.bind (moves_checkForOverlaps (fun d _ => Std.Refl.refl d.world) _ _) fun _ => ?_
  exact moves_onWorld_of (moves_readBufferLoop _ _)

theorem moves_calibStore (h : StepsMove R) (c : Calibration) :
    Moves (OnWorld R) (calibStore c) := by
  refine Moves.bind (moves_modify fun _ => rfl) fun _ => ?_
  refine Moves.bind (moves_modify fun _ => rfl) fun _ => Moves.bind Moves.get fun _ => ?_
  refine Moves.bind (moves_checkForOverlaps (fun d _ => Std.Refl.refl d.world) _ _) fun _ => ?_
  exact moves_onWorld_of (moves_writeBufferLoop h _ _)

/-- What every step of the emulation does to flash, the whole start does. -/
theorem moves_boot (h : StepsMove R) : Moves (OnWorld R) boot := by
  refine Moves.bind ?_ fun _ => ?_
  · exact Moves.bind (moves_onWorld_of h.eeInit) fun _ => moves_modify fun _ => rfl
  · refine Moves.bind moves_calibLoad fun _ => Moves.bind Moves.get fun _ => ?_
    exact Moves.ite (Moves.pure _) (moves_calibStore h _)

end OnWorld

/-! ## Sessions -/

/-- What happens between two resets: the start runs to its end or to an assertion, and
the rest of the program uses the EEPROM; or power fails during the start, after
`done` of its flash operations. -/
inductive Session where
  | booted (life : List LifeEvent)
  | cut (done : Nat)

/-- Flash after a session. -/
def afterSession (f : Content) : Session → Content
  | .booted life => (afterLife (afterBoot f).world life).flash
  | .cut done =>
      (replay (World.boot f) ((between (World.boot f) (afterBoot f).world).take done)).flash

/-- Flash after a sequence of sessions. -/
def afterSessions (f : Content) (sessions : List Session) : Content :=
  sessions.foldl afterSession f

/-- How many starts of a session come to their end. -/
def returned (f : Content) : Session → Nat
  | .booted _ =>
      match boot.run (powerOn f) with
      | .ok _ _ => 1
      | .error _ _ => 0
  | .cut _ => 0

/-- How many starts of a sequence of sessions come to their end. -/
def boots (f : Content) : List Session → Nat
  | [] => 0
  | session :: rest => returned f session + boots (afterSession f session) rest

section Sessions

variable {Q : Content → Content → Prop} [Std.Refl Q] [IsTrans Content Q]

theorem throughout_afterBoot (h : StepsChange Q) (f : Content) :
    Throughout Q (World.boot f) (afterBoot f).world := moves_boot h.stepsMove (powerOn f)

theorem afterSession_of (h : StepsChange Q) (f : Content) (session : Session) :
    Q f (afterSession f session) := by
  have hboot := throughout_afterBoot h f
  cases session with
  | booted life => exact IsTrans.trans _ _ _ hboot.flash (h.afterLife _ life)
  | cut done => exact hboot.points done

theorem afterSessions_of (h : StepsChange Q) (f : Content) (sessions : List Session) :
    Q f (afterSessions f sessions) := by
  induction sessions generalizing f with
  | nil => exact Std.Refl.refl f
  | cons session rest ih => exact IsTrans.trans _ _ _ (afterSession_of h f session) (ih _)

theorem storeEntries_of (h : StepsChange Q) (w : World) (entries : List Write) :
    Q w.flash (storeEntries w entries).flash := by
  induction entries generalizing w with
  | nil => exact Std.Refl.refl w.flash
  | cons entry rest ih =>
      refine IsTrans.trans _ _ _ ?_ (ih (storeEntry w entry))
      rw [storeEntry]
      split
      · exact Std.Refl.refl w.flash
      · exact (h.stepsMove.eeWriteVariable entry.1 entry.2 w).flash

theorem initialised_of (h : StepsChange Q) (f : Content) :
    Q f (initialised f).world.flash := by
  obtain ⟨-, -, hworld⟩ := run_eepromInit f
  rw [hworld]
  exact (h.stepsMove.eeInit (World.boot f)).flash

end Sessions

/-! ## The same variables, the same calibration -/

/-- Every variable reads the same. -/
def SameVariables (f g : Content) : Prop :=
  ∀ virtAddress old : HalfWord, readVariable g virtAddress old = readVariable f virtAddress old

/-- The reading loop returns the same. -/
theorem run_readBufferLoop_congr {w w' : World} (h : SameVariables w.flash w'.flash) :
    ∀ (old : List HalfWord) (address : Nat) (result : HalStatus × List HalfWord),
      address + old.length ≤ eepromSizeU16 →
      (readBufferLoop address old).run w = .ok result w →
      (readBufferLoop address old).run w' = .ok result w' := by
  intro old
  induction old with
  | nil =>
      intro address result _ hrun
      cases hrun
      rfl
  | cons first rest ih =>
      intro address result hlen hrun
      rw [List.length_cons] at hlen
      have hva : (BitVec.ofNat 16 address).toNat < eepromSizeU16 := by
        rw [BitVec.toNat_ofNat]
        have hmod : address % 2 ^ 16 ≤ address := Nat.mod_le _ _
        omega
      obtain ⟨tail, htail⟩ : ∃ tail, (readBufferLoop (address + 1) rest).run w = .ok tail w :=
        run_readBufferLoop rest w (by omega)
      have htail' := ih (address + 1) tail (by omega) htail
      simp only [readBufferLoop, EStateM.run_bind, run_eeReadVariable hva] at hrun ⊢
      rw [h]
      split at hrun
      · rename_i hne
        cases hrun
        rw [if_pos hne]
        rfl
      · rename_i heq
        rw [if_neg heq, EStateM.run_bind, htail']
        rw [EStateM.run_bind, htail] at hrun
        cases hrun
        rfl

/-- Devices whose variables read the same load the same. -/
theorem afterLoad_congr {d d' : Device} (h : Ready d) (h' : Ready d')
    (hsame : SameVariables d.world.flash d'.world.flash) :
    (Loads d ↔ Loads d') ∧
      (afterLoad d').calibrationStorage = (afterLoad d).calibrationStorage := by
  obtain ⟨⟨status, buffer⟩, hloop⟩ := run_readBufferLoop emptyBuffer d.world emptyBuffer_range
  have hloop' := run_readBufferLoop_congr hsame emptyBuffer _ _ emptyBuffer_range hloop
  obtain ⟨hrun, -, -, hstorage⟩ := run_calibLoad_of_loop h hloop
  obtain ⟨hrun', -, -, hstorage'⟩ := run_calibLoad_of_loop h' hloop'
  have hloaded : (afterLoad d').calibrationStorage = (afterLoad d).calibrationStorage :=
    hstorage'.trans hstorage.symm
  refine ⟨?_, hloaded⟩
  rw [Loads, Loads, hrun, hrun', hloaded, EStateM.Result.ok.injEq, EStateM.Result.ok.injEq]
  simp only [and_true]

/-! ## Starts that store the default -/

/-- Entries that were all stored were there, or one of them has taken a slot. -/
theorem found_or_slot {w : World} :
    ∀ {entries : List Write}, EachStep storeEntry (OnWrites ReturnsOk) w entries →
      (∀ entry ∈ entries, readVariable w.flash entry.1 0#16 = (0#16, entry.2)) ∨
        ∃ j, j ∈ spareSlots w.flash ∧ j ∉ spareSlots (storeEntries w entries).flash := by
  intro entries
  induction entries with
  | nil =>
      intro _
      refine Or.inl fun entry hmem => ?_
      cases hmem
  | cons first rest ih =>
      rintro ⟨hfirst, hrest⟩
      by_cases hsame : readVariable w.flash first.1 0#16 = (0#16, first.2)
      · have hstep : storeEntry w first = w := by rw [storeEntry, if_pos hsame]
        rw [hstep] at hrest
        rw [storeEntries, List.foldl_cons, hstep]
        rcases ih hrest with hfound | htaken
        · refine Or.inl fun entry hmem => ?_
          rcases List.mem_cons.mp hmem with rfl | hmem
          · exact hsame
          · exact hfound entry hmem
        · exact Or.inr htaken
      · have hstep : storeEntry w first = afterWrite w first := by rw [storeEntry, if_neg hsame]
        obtain ⟨j, hspare, htaken⟩ := slot_of_write first.1.2 (hfirst hsame)
        rw [storeEntries, List.foldl_cons, hstep]
        exact Or.inr ⟨j, hspare, fun hj =>
          htaken ((storeEntries_of stepsChange_keepsUsed _ rest).spareSlots hj)⟩

/-- A start that stores the default takes a slot. -/
theorem slot_of_boot {f : Content} {d : Device} (hloads : ¬ Loads (initialised f))
    (hrun : boot.run (powerOn f) = .ok () d) :
    ∃ j, j ∈ spareSlots f ∧ j ∉ spareSlots d.world.flash := by
  obtain ⟨-, hready, -⟩ := run_eepromInit f
  obtain ⟨-, -, hready', hworld⟩ := run_calibLoad hready
  rw [run_boot_of_not_loads hloads] at hrun
  rcases run_calibStore hready' defaultCalibration with
    ⟨hmeets, hstore, -, hstored, -⟩ | ⟨-, d', hstore⟩
  · rw [hstore] at hrun
    cases hrun
    rw [hstored]
    rcases found_or_slot hmeets with hfound | ⟨j, hspare, htaken⟩
    · refine absurd ?_ hloads
      refine (loads_of_found hready { (afterLoad (initialised f)).calibrationStorage with
        calibrationData := defaultCalibration } fun entry hmem => ?_).1
      have hentry := hfound entry hmem
      rw [hworld, readVariable_eq_found_iff hready.started] at hentry
      exact (readVariable_eq_found_iff hready.started _ _ _).mpr hentry
    · rw [hworld] at hspare
      exact ⟨j, (initialised_of stepsChange_keepsUsed f).spareSlots hspare, htaken⟩
  · rw [hstore] at hrun
    cases hrun

/-- How a start goes that finds no calibration.  Either every write of the default
returns: then the start comes to its end with the default in RAM and has taken a slot
for it.  Or a write is refused, and the start stops at the assertion behind it. -/
def TakesSlotOrStops (f : Content) : Prop :=
  BootMeets ReturnsOk f ∧ boot.run (powerOn f) = .ok () (afterBoot f) ∧
      calibGet (afterBoot f) = defaultCalibration ∧
      (∃ j, j ∈ spareSlots f ∧ j ∉ spareSlots (afterBoot f).world.flash) ∨
    ¬ BootMeets ReturnsOk f ∧ ∃ d, boot.run (powerOn f) = .error .assertFailed d

theorem takesSlotOrStops_of_not_loads {f : Content} (hloads : ¬ Loads (initialised f)) :
    TakesSlotOrStops f := by
  rcases run_boot f with ⟨hmeets, hrun, -⟩ | hrefused
  · have hdefault : calibGet (afterBoot f) = defaultCalibration := by
      rw [afterBoot, run_boot_of_not_loads hloads]
      exact calibGet_calibStore _ _
    exact Or.inl ⟨hmeets, hrun, hdefault, slot_of_boot hloads hrun⟩
  · exact Or.inr hrefused

/-- A session in which the start stores the default. -/
theorem returned_add_card {f : Content} (hloads : ¬ Loads (initialised f)) (session : Session) :
    returned f session + (spareSlots (afterSession f session)).card ≤ (spareSlots f).card := by
  have hkept := (afterSession_of stepsChange_keepsUsed f session).spareSlots
  have hle := Finset.card_le_card hkept
  cases session with
  | cut done =>
      rw [returned, Nat.zero_add]
      exact hle
  | booted life =>
      rw [returned]
      cases hrun : boot.run (powerOn f) with
      | error halt d =>
          dsimp only
          rw [Nat.zero_add]
          exact hle
      | ok _ d =>
          dsimp only
          have hafter : afterBoot f = d := by rw [afterBoot, hrun, finalState_ok]
          obtain ⟨j, hspare, htaken⟩ := slot_of_boot hloads hrun
          have hlife : KeepsUsed d.world.flash (afterSession f (.booted life)) := by
            rw [afterSession, hafter]
            exact stepsChange_keepsUsed.afterLife d.world life
          have hlt := Finset.card_lt_card ((Finset.ssubset_iff_of_subset hkept).mpr
            ⟨j, hspare, fun hj => htaken (hlife.spareSlots hj)⟩)
          omega

/-! ## After the freeze -/

/-- `EE_Init` finds and leaves the same variables at every start of a frozen device. -/
theorem sameVariables_of_frozen {f : Content} (h : Frozen f) (sessions : List Session) :
    SameVariables (initialised f).world.flash
      (initialised (afterSessions f sessions)).world.flash := by
  have hsteps := stepsChange_keepsFrozen
  have hafter := afterSessions_of hsteps f sessions
  intro virtAddress old
  rw [(initialised_of hsteps _).readVariable (hafter h).1, hafter.readVariable h,
    (initialised_of hsteps f).readVariable h]

/-- So either every start loads, or none does. -/
theorem loads_of_frozen {f : Content} (h : Frozen f) (sessions : List Session) :
    (Loads (initialised f) ↔ Loads (initialised (afterSessions f sessions))) ∧
      (afterLoad (initialised (afterSessions f sessions))).calibrationStorage =
        (afterLoad (initialised f)).calibrationStorage :=
  afterLoad_congr (run_eepromInit f).2.1 (run_eepromInit _).2.1 (sameVariables_of_frozen h sessions)

/-- What is not loaded at the first start of a frozen device is not loaded at any. -/
theorem not_loads_of_frozen {f : Content} (h : Frozen f) (hloads : ¬ Loads (initialised f))
    (sessions : List Session) : ¬ Loads (initialised (afterSessions f sessions)) := fun hyes =>
  hloads ((loads_of_frozen h sessions).1.mpr hyes)

/-- The starts of a frozen device on which nothing loads. -/
theorem boots_add_card {f : Content} (h : Frozen f) (hloads : ¬ Loads (initialised f))
    (sessions : List Session) :
    boots f sessions + (spareSlots (afterSessions f sessions)).card ≤ (spareSlots f).card := by
  induction sessions generalizing f with
  | nil => exact Nat.le_of_eq (Nat.zero_add _)
  | cons session rest ih =>
      have hstep := returned_add_card hloads session
      have hrest := ih (afterSession_of stepsChange_keepsFrozen f session h).1
        (not_loads_of_frozen h hloads [session])
      change returned f session + boots (afterSession f session) rest +
        (spareSlots (afterSessions (afterSession f session) rest)).card ≤ _
      omega

/-- Once the store is frozen, for the rest of the device's life, whatever is stored in
between and wherever power fails: if the calibration loads at the first start, every
start loads that calibration.  If it does not, none ever does; every start takes a slot
for the default or stops at the assertion behind `EE_WriteVariable`; and the starts that
come to their end and the slots still free are together no more than the slots that
were free. -/
theorem boots_of_frozen {f : Content} (h : Frozen f) (sessions : List Session) :
    (Loads (initialised f) →
      boot.run (powerOn (afterSessions f sessions)) =
          .ok () (afterBoot (afterSessions f sessions)) ∧
        calibGet (afterBoot (afterSessions f sessions)) = calibGet (afterBoot f)) ∧
      (¬ Loads (initialised f) →
        ¬ Loads (initialised (afterSessions f sessions)) ∧
          TakesSlotOrStops (afterSessions f sessions) ∧
          boots f sessions + (spareSlots (afterSessions f sessions)).card ≤
            (spareSlots f).card) := by
  refine ⟨fun hloads => ?_, fun hloads => ?_⟩
  · obtain ⟨hiff, hstorage⟩ := loads_of_frozen h sessions
    have hfirst := run_boot_of_loads hloads
    have hlast := run_boot_of_loads (hiff.mp hloads)
    have hafter : afterBoot f = afterLoad (initialised f) := by
      rw [afterBoot, hfirst, finalState_ok]
    have hafter' : afterBoot (afterSessions f sessions) =
        afterLoad (initialised (afterSessions f sessions)) := by
      rw [afterBoot, hlast, finalState_ok]
    rw [hafter, hafter', calibGet, calibGet, hstorage]
    exact ⟨hlast, rfl⟩
  · have hnever := not_loads_of_frozen h hloads sessions
    exact ⟨hnever, takesSlotOrStops_of_not_loads hnever, boots_add_card h hloads sessions⟩

/-- On a flash full of zeros no start comes to its end: each stops at the assertion
behind `EE_WriteVariable`. -/
theorem boots_of_frozen_zeros :
    (∃ d, boot.run (powerOn (afterSessions zeros [.cut 1, .booted [.call .init], .booted []])) =
        .error .assertFailed d) ∧
      boots zeros [.cut 1, .booted [.call .init], .booted []] = 0 := by
  have hfrozen : Frozen zeros := ⟨rfl, rfl, by decide⟩
  obtain ⟨-, hready, hworld⟩ := run_eepromInit zeros
  have hmissing : ¬ Loads (initialised zeros) := by
    refine not_loads_of_missing hready (k := 1) (by decide) ?_
    rw [hworld, afterInit, run_eeInit_zeros, finalState_ok]
    exact stored_one_zerosStarted
  have hnone : spareSlots zeros = ∅ := by
    refine Finset.eq_empty_of_forall_notMem fun j hj => ?_
    have hfree := (slotFree_iff.mp (mem_spareSlots.mp hj).2).1
    exact absurd (show (0#16 : HalfWord) = 0xFFFF#16 from hfree) (by decide)
  obtain ⟨-, hstarts, hcount⟩ :=
    (boots_of_frozen hfrozen [.cut 1, .booted [.call .init], .booted []]).2 hmissing
  have hgone := (afterSessions_of stepsChange_keepsUsed zeros
    [.cut 1, .booted [.call .init], .booted []]).spareSlots
  rw [hnone] at hgone
  rw [hnone, Finset.card_empty] at hcount
  refine ⟨?_, by omega⟩
  rcases hstarts with ⟨-, -, -, j, hspare, -⟩ | ⟨-, hstop⟩
  · exact absurd (hgone hspare) (Finset.notMem_empty j)
  · exact hstop

end WindradLogger.Storage
