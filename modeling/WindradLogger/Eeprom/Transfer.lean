import WindradLogger.Eeprom.Init
import WindradLogger.Eeprom.Interrupted
import Mathlib.Logic.Relation
import Mathlib.Data.List.Nodup

set_option autoImplicit false

/-!
# Carrying variables over

The loop shared by `EE_PageTransfer` and `EE_Init` appends one entry for every
variable it finds and does not skip.  It never stops on an assertion; it returns
`HAL_OK` when the page being written has a free slot for each of them, and
`PAGE_FULL` otherwise.  `EE_PageTransfer` is that loop behind one append, so
whether it succeeds is a comparison of two numbers taken after the new page has
been marked `RECEIVE_DATA`.
-/

namespace WindradLogger.Eeprom

open WindradLogger.Flash WindradLogger.Lib

/-! ## Runs of appends -/

/-- One entry goes into the first free slot of the page that is written. -/
inductive AppendStep : World → World → Prop where
  | mk {w : World} {j : Nat} {virtAddress : HalfWord} (data : HalfWord)
      (hva : virtAddress.toNat < eepromSizeU16) (hslot : freeSlot w.flash = some j) :
      AppendStep w (append w j virtAddress data)

theorem evolves_append (w : World) (j : Nat) (virtAddress data : HalfWord) :
    Evolves w (append w j virtAddress data) :=
  IsTrans.trans _ _ _ (evolves_issue w (.program _ _) trivial)
    (evolves_issue _ (.program _ _) trivial)

theorem evolves_appendSteps {w w' : World} (h : Relation.ReflTransGen AppendStep w w') :
    Evolves w w' := by
  induction h with
  | refl => exact Std.Refl.refl _
  | tail _ hstep ih =>
      obtain ⟨data, hva, hslot⟩ := hstep
      exact IsTrans.trans _ _ _ ih (evolves_append _ _ _ _)

/-- A page is selected, and the half-word that serves as status of page 1 is
not erased: slot `0xFFF` is taken, so no append changes the selection. -/
structure Settled (f : Content) : Prop where
  page : readPage f ≠ noValidPage
  status : f page1BaseAddress ≠ 0xFFFF#16

section Settled

variable {f : Content} {j : Nat} {virtAddress data : HalfWord}

theorem Settled.ne_statusSlot (hs : Settled f) (hfree : slotFree f j = true) :
    j ≠ statusSlot := by
  intro hj
  have hva := (slotFree_iff.mp hfree).2
  rw [slotAddress_add_two_eq_page1Base.mpr hj] at hva
  exact hs.status hva

theorem Settled.page1Base (hs : Settled f) (hfree : slotFree f j = true) :
    appendFlash f j virtAddress data page1BaseAddress = f page1BaseAddress :=
  appendFlash_page1Base (hs.ne_statusSlot hfree)

theorem Settled.writePage (hs : Settled f) (hfree : slotFree f j = true) :
    writePage (appendFlash f j virtAddress data) = writePage f := by
  rw [writePage_eq, writePage_eq, hs.page1Base hfree, appendFlash_page0Base]

theorem Settled.append (hs : Settled f) (hfree : slotFree f j = true) :
    Settled (appendFlash f j virtAddress data) where
  page := by
    rw [readPage_appendFlash hfree hs.page]
    exact hs.page
  status := by
    rw [hs.page1Base hfree]
    exact hs.status

end Settled

/-- Free slots of the page that is written. -/
def freeSlots (f : Content) : Nat :=
  SlotLog.freeCount (slotFree f) (firstSlot (writePage f)) slotsPerPage

theorem freeSlots_eq_zero_iff {f : Content} : freeSlots f = 0 ↔ freeSlot f = none :=
  SlotLog.freeCount_eq_zero_iff

/-- An append uses up one free slot. -/
theorem Settled.freeSlots {f : Content} {j : Nat} {virtAddress data : HalfWord}
    (hs : Settled f) (hslot : freeSlot f = some j) (hva : virtAddress.toNat < eepromSizeU16) :
    freeSlots f = Eeprom.freeSlots (appendFlash f j virtAddress data) + 1 := by
  rw [Eeprom.freeSlots, Eeprom.freeSlots, hs.writePage (slotFree_of_freeSlot hslot)]
  exact SlotLog.freeCount_fill hslot (slotFree_appendFlash_self hva)
    fun i _ _ hi => slotFree_appendFlash_of_ne hi

/-! ## The loop -/

/-- A skip condition that no append for one virtual address changes for another.
Both conditions of the source are of this kind. -/
def SkipStable (skip : Content → HalfWord → Bool) : Prop :=
  ∀ (f : Content) (j : Nat) (virtAddress data other : HalfWord),
    slotFree f j = true → other.toNat < eepromSizeU16 → other ≠ virtAddress →
      skip (appendFlash f j virtAddress data) other = skip f other

/-- How many of the variables the loop carries over. -/
def carried (skip : Content → HalfWord → Bool) (f : Content) (list : List HalfWord) : Nat :=
  list.countP fun virtAddress => !skip f virtAddress && (stored f virtAddress).isSome

theorem carried_append {skip : Content → HalfWord → Bool} (hskip : SkipStable skip)
    {f : Content} (hpage : readPage f ≠ noValidPage) {j : Nat} (hfree : slotFree f j = true)
    {virtAddress data : HalfWord} {list : List HalfWord}
    (hlist : ∀ other ∈ list, other.toNat < eepromSizeU16 ∧ other ≠ virtAddress) :
    carried skip (appendFlash f j virtAddress data) list = carried skip f list := by
  apply List.countP_congr
  intro other hmem
  obtain ⟨hother, hne⟩ := hlist other hmem
  rw [hskip f j virtAddress data other hfree hother hne,
    stored_appendFlash_of_ne hfree hpage hother hne]

/-- How a loop ends that wants to append `wanted` entries: it appends as many as
there are free slots for, or a HAL call among these appends fails. -/
inductive LoopOutcome (w : World) (wanted : Nat) : HalfWord → World → Prop where
  | done {w' : World} (hcalls : w.HalOkFor (2 * min wanted (freeSlots w.flash)))
      (hreach : Relation.ReflTransGen AppendStep w w')
      (hlen : w'.ops.length = w.ops.length + 2 * min wanted (freeSlots w.flash))
      (hfull : freeSlots w.flash < wanted → freeSlot w'.flash = none) :
      LoopOutcome w wanted
        (if wanted ≤ freeSlots w.flash then HalStatus.ok.toU16 else pageFull) w'
  | cut {status : HalfWord} {w' : World}
      (hcalls : ¬ w.HalOkFor (2 * min wanted (freeSlots w.flash)))
      (hstatus : status ≠ HalStatus.ok.toU16) : LoopOutcome w wanted status w'

namespace LoopOutcome

/-- Nothing to append. -/
theorem nothing (w : World) : LoopOutcome w 0 HalStatus.ok.toU16 w := by
  have hmin : 2 * min 0 (freeSlots w.flash) = 0 := by rw [Nat.zero_min, Nat.mul_zero]
  have h : LoopOutcome w 0 _ w := done (hmin ▸ w.halOkFor_zero) .refl (hmin ▸ rfl)
    fun hlt => absurd hlt (Nat.not_lt_zero _)
  rwa [if_pos (Nat.zero_le _)] at h

/-- Nowhere to append to. -/
theorem full {w : World} (hslot : freeSlot w.flash = none) (wanted : Nat) :
    LoopOutcome w (wanted + 1) pageFull w := by
  have hzero := freeSlots_eq_zero_iff.mpr hslot
  have hmin : 2 * min (wanted + 1) (freeSlots w.flash) = 0 := by
    rw [hzero, Nat.min_zero, Nat.mul_zero]
  have h : LoopOutcome w (wanted + 1) _ w := done (hmin ▸ w.halOkFor_zero) .refl (hmin ▸ rfl)
    fun _ => hslot
  rwa [hzero, if_neg (Nat.not_succ_le_zero wanted)] at h

/-- The first of the appends fails. -/
theorem stopped {w w' : World} {status : HalfWord} (hslot : freeSlot w.flash ≠ none)
    (wanted : Nat) (hcalls : ¬ w.HalOkFor 2) (hstatus : status ≠ HalStatus.ok.toU16) :
    LoopOutcome w (wanted + 1) status w' := by
  have hfree : freeSlots w.flash ≠ 0 := fun hzero => hslot (freeSlots_eq_zero_iff.mp hzero)
  exact cut (fun hall => hcalls (hall.mono (by omega))) hstatus

section Append

variable {w w' : World} {j : Nat} {virtAddress status : HalfWord} (hs : Settled w.flash)
  (hva : virtAddress.toNat < eepromSizeU16) (hslot : freeSlot w.flash = some j)
  (data : HalfWord) (wanted : Nat)

include hs hva hslot

/-- The first of the appends succeeds. -/
theorem step (hfirst : w.hal w.ops.length = .ok) (hsecond : w.hal (w.ops.length + 1) = .ok)
    (h : LoopOutcome (append w j virtAddress data) wanted status w') :
    LoopOutcome w (wanted + 1) status w' := by
  have hless : freeSlots w.flash = freeSlots (append w j virtAddress data).flash + 1 := by
    rw [append_flash_of_ok (slotFree_of_freeSlot hslot) hfirst hsecond]
    exact hs.freeSlots hslot hva
  have hmin : 2 * min (wanted + 1) (freeSlots w.flash) =
      2 * min wanted (freeSlots (append w j virtAddress data).flash) + 2 := by
    rw [hless, Nat.succ_min_succ, Nat.mul_succ]
  cases h with
  | done hcalls hreach hlen hfull =>
      have hall : w.HalOkFor (2 * min (wanted + 1) (freeSlots w.flash)) := by
        rw [hmin]
        exact (halOkFor_append w j virtAddress data).mpr ⟨hfirst, hsecond, hcalls⟩
      have hlen' : w'.ops.length = w.ops.length + 2 * min (wanted + 1) (freeSlots w.flash) := by
        rw [hlen, hmin, append_ops_length]
        omega
      have hdone : LoopOutcome w (wanted + 1) _ w' := done hall
        (.head (.mk data hva hslot) hreach) hlen' fun hlt => hfull (by omega)
      simpa only [hless, Nat.add_le_add_iff_right] using hdone
  | cut hcalls hstatus =>
      refine cut (fun hcalls' => hcalls ?_) hstatus
      rw [hmin] at hcalls'
      exact ((halOkFor_append w j virtAddress data).mp hcalls').2.2

end Append

end LoopOutcome

/-- An append and then, if it succeeds, `rest`, which wants to append further entries. -/
theorem run_append_then {w : World} (hs : Settled w.flash) {virtAddress : HalfWord}
    (hva : virtAddress.toNat < eepromSizeU16) (data : HalfWord) (rest : Mcu HalfWord)
    (wanted : Nat)
    (hrest : ∀ j, freeSlot w.flash = some j →
      (append w j virtAddress data).flash = appendFlash w.flash j virtAddress data →
      ∃ status w', rest.run (append w j virtAddress data) = .ok status w' ∧
        LoopOutcome (append w j virtAddress data) wanted status w') :
    ∃ status w',
      (do
        let eepromStatus ← eeVerifyPageFullWriteVariable virtAddress data
        if eepromStatus ≠ HalStatus.ok.toU16 then return eepromStatus
        rest : Mcu HalfWord).run w = .ok status w' ∧ LoopOutcome w (wanted + 1) status w' := by
  rw [EStateM.run_bind, run_eeVerifyPageFullWriteVariable_any w hva data,
    if_neg (writePage_ne_noValidPage_iff.mpr hs.page)]
  cases hslot : freeSlot w.flash with
  | none =>
      refine ⟨pageFull, w, ?_, .full hslot _⟩
      simp only [ne_eq, pageFull_ne_ok, not_false_eq_true, if_true, EStateM.run_pure]
  | some j =>
      have hsome : freeSlot w.flash ≠ none := hslot ▸ Option.some_ne_none j
      have hcalls := halOkFor_append w j virtAddress data (n := 0)
      rcases eq_or_ne (w.hal w.ops.length) .ok with hfirst | hfirst
      · simp only [if_pos hfirst]
        rcases eq_or_ne (w.hal (w.ops.length + 1)) .ok with hsecond | hsecond
        · obtain ⟨status, w', hrun, hout⟩ := hrest j hslot
            (append_flash_of_ok (slotFree_of_freeSlot hslot) hfirst hsecond)
          refine ⟨status, w', ?_, .step hs hva hslot data _ hfirst hsecond hout⟩
          rw [hsecond, if_neg (not_not.mpr rfl), hrun]
        · have hne := HalStatus.toU16_ne_ok hsecond
          rw [if_pos hne]
          exact ⟨_, _, rfl, .stopped hsome _ (fun h => hsecond (hcalls.mp h).2.1) hne⟩
      · have hne := HalStatus.toU16_ne_ok hfirst
        simp only [if_neg hfirst]
        rw [if_pos hne]
        exact ⟨_, _, rfl, .stopped hsome _ (fun h => hfirst (hcalls.mp h).1) hne⟩

/-- The specification of the loop, whatever its HAL calls return. -/
theorem run_transferLoop_any {skip : Content → HalfWord → Bool} (hskip : SkipStable skip) :
    ∀ (list : List HalfWord) {w : World}, Settled w.flash →
      (∀ virtAddress ∈ list, virtAddress.toNat < eepromSizeU16) → list.Nodup →
      ∃ status w', (transferLoop skip list).run w = .ok status w' ∧
        LoopOutcome w (carried skip w.flash list) status w' := by
  intro list
  induction list with
  | nil =>
      intro w _ _ _
      exact ⟨_, w, rfl, .nothing w⟩
  | cons virtAddress rest ih =>
      intro w hs hlist hnodup
      have hva := hlist virtAddress List.mem_cons_self
      have hrest := fun v hv => hlist v (List.mem_cons_of_mem _ hv)
      obtain ⟨hnotin, hnodup'⟩ := List.nodup_cons.mp hnodup
      simp only [transferLoop, EStateM.run_bind, run_readFlash]
      by_cases hsk : skip w.flash virtAddress = true
      · have hcount : carried skip w.flash (virtAddress :: rest) = carried skip w.flash rest := by
          simp [carried, hsk]
        rw [if_pos hsk, hcount]
        exact ih hs hrest hnodup'
      · rw [if_neg hsk]
        simp only [EStateM.run_bind, run_eeReadVariable hva, readVariable_of_page hs.page]
        cases hstored : stored w.flash virtAddress with
        | none =>
            have hcount : carried skip w.flash (virtAddress :: rest) =
                carried skip w.flash rest := by
              simp [carried, hstored]
            simp only [readResult, ne_eq, not_true_eq_false, if_false, hcount]
            exact ih hs hrest hnodup'
        | some found =>
            have hcount : carried skip w.flash (virtAddress :: rest) =
                carried skip w.flash rest + 1 := by
              simp [carried, hstored, hsk]
            have hstatus : ((0#16 : HalfWord) ≠ 0x1#16) = True := by decide
            have happend := run_append_then hs hva found (transferLoop skip rest)
              (carried skip w.flash rest) ?_
            · simp only [readResult, hstatus, if_true, EStateM.run_bind, hcount] at happend ⊢
              exact happend
            · intro j hslot hflash
              have hfree := slotFree_of_freeSlot hslot
              have hsame : carried skip (append w j virtAddress found).flash rest =
                  carried skip w.flash rest := by
                rw [hflash]
                refine carried_append hskip hs.page hfree fun other hmem => ⟨hrest other hmem, ?_⟩
                rintro rfl
                exact hnotin hmem
              rw [← hsame]
              refine ih ?_ hrest hnodup'
              rw [hflash]
              exact hs.append hfree

/-- The specification of the loop when the HAL calls succeed. -/
theorem run_transferLoop {skip : Content → HalfWord → Bool} (hskip : SkipStable skip)
    (list : List HalfWord) {w : World} (hok : w.HalOk) (hs : Settled w.flash)
    (hlist : ∀ virtAddress ∈ list, virtAddress.toNat < eepromSizeU16) (hnodup : list.Nodup) :
      ∃ w', Relation.ReflTransGen AppendStep w w' ∧
        (transferLoop skip list).run w =
          .ok (if carried skip w.flash list ≤ freeSlots w.flash then HalStatus.ok.toU16
            else pageFull) w' ∧
        (freeSlots w.flash < carried skip w.flash list → freeSlot w'.flash = none) := by
  obtain ⟨status, w', hrun, hout⟩ := run_transferLoop_any hskip list hs hlist hnodup
  cases hout with
  | done _ hreach _ hfull => exact ⟨w', hreach, hrun, hfull⟩
  | cut hcalls => exact absurd (hok.halOkFor _) hcalls

theorem mem_virtAddresses {virtAddress : HalfWord} (h : virtAddress ∈ virtAddresses) :
    virtAddress.toNat < eepromSizeU16 := by
  simp only [virtAddresses, List.mem_map, List.mem_range] at h
  obtain ⟨n, hn, rfl⟩ := h
  rw [BitVec.toNat_ofNat]
  exact Nat.lt_of_le_of_lt (Nat.mod_le _ _) hn

theorem virtAddresses_length : virtAddresses.length = eepromSizeU16 := by
  rw [virtAddresses, List.length_map, List.length_range]

theorem virtAddresses_nodup : virtAddresses.Nodup := by
  refine List.Nodup.map_on ?_ List.nodup_range
  intro a ha b hb hab
  have hsize : eepromSizeU16 = 256 := rfl
  rw [List.mem_range] at ha hb
  have hnat := congrArg BitVec.toNat hab
  rw [BitVec.toNat_ofNat, BitVec.toNat_ofNat, Nat.mod_eq_of_lt (by omega),
    Nat.mod_eq_of_lt (by omega)] at hnat
  exact hnat

/-! ## EE_PageTransfer -/

/-- The condition under which `EE_PageTransfer` passes over an address. -/
def skipWritten (virtAddress : HalfWord) : Content → HalfWord → Bool :=
  fun _ iterator => iterator = virtAddress

/-- The condition under which `EE_Init` passes over an address: the half-word
four bytes above the base address of the receiving page equals it. -/
def skipReceived (newBase : Nat) : Content → HalfWord → Bool :=
  fun f virtAddress => f (newBase + 4) = virtAddress

theorem skipWritten_stable (virtAddress : HalfWord) : SkipStable (skipWritten virtAddress) :=
  fun _ _ _ _ _ _ _ _ => rfl

/-- The half-word `EE_Init` compares with is the virtual address of some slot. -/
theorem skipReceived_stable {newBase i : Nat} (hi : newBase + 4 = slotAddress i + 2) :
    SkipStable (skipReceived newBase) := by
  intro f j virtAddress data other hfree hother hne
  simp only [skipReceived, hi]
  by_cases hij : i = j
  · subst hij
    have hnew : appendFlash f i virtAddress data (slotAddress i + 2) = virtAddress := by
      rw [appendFlash, Function.update_self]
    rw [hnew, (slotFree_iff.mp hfree).2, decide_eq_false hne.symm,
      decide_eq_false (erased_ne_virtAddress hother)]
  · have hslot := congrArg (fun log => (log i).1)
      (slots_appendFlash f j virtAddress data)
    simp only [slots, SlotLog.put, Function.update_of_ne hij] at hslot
    rw [hslot]

/-- Where `EE_PageTransfer` marks the new page, and which sector it erases. -/
def newPageAddress (f : Content) : Nat :=
  if readPage f = page1 then page0BaseAddress else page1BaseAddress

def oldPageId (f : Content) : Nat := if readPage f = page1 then page1Id else page0Id

/-- The operation that marks the new page. -/
def markOp (f : Content) : Op := .program (newPageAddress f) receiveData

/-- Flash after the new page has been marked `RECEIVE_DATA`. -/
def marked (f : Content) : Content := (markOp f).apply f

/-- No half-word is still erased after `RECEIVE_DATA` was programmed into it. -/
theorem and_receiveData_ne_erased (v : HalfWord) : v &&& receiveData ≠ 0xFFFF#16 := by
  intro h
  have hbit := congrArg (fun x : HalfWord => x.getLsbD 0) h
  simp [receiveData] at hbit

theorem page0Base_ne_page1Base : page0BaseAddress ≠ page1BaseAddress := by decide

theorem settled_marked {f : Content} (hpage : readPage f ≠ noValidPage) : Settled (marked f) := by
  rcases readPage_cases hpage with h0 | h1
  · -- Page 0 is read, so its status is VALID_PAGE and page 1 is marked.
    have hs0 : f page0BaseAddress = validPage := by
      by_contra hs0
      rw [readPage_eq, if_neg hs0] at h0
      split at h0 <;> exact absurd h0 (by decide)
    have hnew : newPageAddress f = page1BaseAddress := by
      rw [newPageAddress, h0, if_neg (by decide)]
    have hm0 : marked f page0BaseAddress = validPage := by
      rw [marked, markOp, hnew, Op.apply, Function.update_of_ne page0Base_ne_page1Base, hs0]
    have hm1 : marked f page1BaseAddress = f page1BaseAddress &&& receiveData := by
      rw [marked, markOp, hnew, Op.apply, Function.update_self]
    refine ⟨?_, by rw [hm1]; exact and_receiveData_ne_erased _⟩
    rw [readPage_eq, if_pos hm0]
    decide
  · -- Page 1 is read, so its status is VALID_PAGE and stays so.
    have hs1 : f page1BaseAddress = validPage := by
      by_contra hs1
      rw [readPage_eq, if_neg hs1] at h1
      split at h1 <;> exact absurd h1 (by decide)
    have hnew : newPageAddress f = page0BaseAddress := by
      rw [newPageAddress, h1, if_pos rfl]
    have hm1 : marked f page1BaseAddress = validPage := by
      rw [marked, markOp, hnew, Op.apply, Function.update_of_ne page0Base_ne_page1Base.symm, hs1]
    refine ⟨?_, by rw [hm1]; decide⟩
    intro hno
    exact (readPage_eq_noValidPage_iff.mp hno).2 hm1

/-- Whether a page transfer for `virtAddress` fits: after the marking, the page
that is written has a free slot for it and one for every other variable. -/
def TransferFits (f : Content) (virtAddress : HalfWord) : Prop :=
  carried (skipWritten virtAddress) (marked f) virtAddresses < freeSlots (marked f)

instance (f : Content) (virtAddress : HalfWord) : Decidable (TransferFits f virtAddress) :=
  inferInstanceAs (Decidable (_ < _))

/-- The operations that end a page transfer. -/
def finishTransfer (f : Content) (w : World) : World :=
  (w.issue (.erase (oldPageId f))).issue (.program (newPageAddress f) validPage)

theorem run_eePageTransfer_eq {w : World} {virtAddress : HalfWord}
    (hva : virtAddress.toNat < eepromSizeU16) (data : HalfWord)
    (hpage : readPage w.flash ≠ noValidPage) :
    (eePageTransfer virtAddress data).run w =
      (eePageTransferTo (newPageAddress w.flash) (oldPageId w.flash) virtAddress data).run w := by
  rcases readPage_cases hpage with h0 | h1
  · simp [eePageTransfer, hva, eeFindValidPage_read, newPageAddress, oldPageId, h0, page0_ne_page1]
  · simp [eePageTransfer, hva, eeFindValidPage_read, newPageAddress, oldPageId, h1]

/-- The write of the passed variable and the loop behind it are one run of appends. -/
theorem run_copy {w : World} (hs : Settled w.flash) {virtAddress : HalfWord}
    (hva : virtAddress.toNat < eepromSizeU16) (data : HalfWord) :
    ∃ status w',
      (do
        let eepromStatus ← eeVerifyPageFullWriteVariable virtAddress data
        if eepromStatus ≠ HalStatus.ok.toU16 then return eepromStatus
        transferLoop (skipWritten virtAddress) virtAddresses : Mcu HalfWord).run w =
          .ok status w' ∧
      LoopOutcome w (carried (skipWritten virtAddress) w.flash virtAddresses + 1) status w' := by
  refine run_append_then hs hva data _ _ fun j hslot hflash => ?_
  have hfree := slotFree_of_freeSlot hslot
  -- The passed variable is not among those the loop carries over.
  have hsame : carried (skipWritten virtAddress)
      (append w j virtAddress data).flash virtAddresses =
      carried (skipWritten virtAddress) w.flash virtAddresses := by
    apply List.countP_congr
    intro other hmem
    rcases eq_or_ne other virtAddress with heq | hne
    · simp [skipWritten, heq]
    · rw [hflash, stored_appendFlash_of_ne hfree hs.page (mem_virtAddresses hmem) hne]
      rfl
  rw [← hsame]
  refine run_transferLoop_any (skipWritten_stable virtAddress) virtAddresses ?_
    (fun _ => mem_virtAddresses) virtAddresses_nodup
  rw [hflash]
  exact hs.append hfree

/-- Two programs that hand on the first status other than `HAL_OK`, and a third one
after them: the first two can be taken as one. -/
theorem run_failFast (first second finish : Mcu HalfWord) (w : World) :
    (do
      let eepromStatus ← first
      if eepromStatus ≠ HalStatus.ok.toU16 then return eepromStatus
      let eepromStatus ← second
      if eepromStatus ≠ HalStatus.ok.toU16 then return eepromStatus
      finish : Mcu HalfWord).run w =
    (do
      let eepromStatus ← (do
        let eepromStatus ← first
        if eepromStatus ≠ HalStatus.ok.toU16 then return eepromStatus
        second : Mcu HalfWord)
      if eepromStatus ≠ HalStatus.ok.toU16 then return eepromStatus
      finish : Mcu HalfWord).run w := by
  simp only [EStateM.run_bind]
  cases first.run w with
  | error e w' => rfl
  | ok status w' =>
      rcases eq_or_ne status HalStatus.ok.toU16 with hok | hne
      · simp only [hok, ne_eq, not_true_eq_false, if_false, EStateM.run_bind]
      · simp only [ne_eq, hne, not_false_eq_true, if_true, EStateM.run_pure]

/-- HAL calls of a page transfer that fits: two for each entry, the two that end the
transfer, and the marking. -/
def transferCalls (f : Content) (virtAddress : HalfWord) : Nat :=
  2 * (carried (skipWritten virtAddress) (marked f) virtAddresses + 1) + 2 + 1

/-- How `EE_PageTransfer` can end. -/
inductive TransferOutcome (w : World) (virtAddress : HalfWord) : HalfWord → World → Prop where
  | done {w' : World} (hfits : TransferFits w.flash virtAddress)
      (hcalls : w.HalOkFor (transferCalls w.flash virtAddress))
      (hreach : Relation.ReflTransGen AppendStep (w.issue (markOp w.flash)) w') :
      TransferOutcome w virtAddress HalStatus.ok.toU16 (finishTransfer w.flash w')
  | full {w' : World} (hfits : ¬ TransferFits w.flash virtAddress)
      (hreach : Relation.ReflTransGen AppendStep (w.issue (markOp w.flash)) w')
      (hslot : freeSlot w'.flash = none) : TransferOutcome w virtAddress pageFull w'
  | cut {status : HalfWord} {w' : World} {n : Nat} (hcalls : ¬ w.HalOkFor n)
      (hle : TransferFits w.flash virtAddress → n ≤ transferCalls w.flash virtAddress)
      (hstatus : status ≠ HalStatus.ok.toU16) : TransferOutcome w virtAddress status w'

/-- The two calls that end a page transfer. -/
theorem run_finishTransfer (f : Content) (w : World) :
    ∃ status w',
      (do
        let flashStatus ← halFlashExErase (oldPageId f)
        if flashStatus ≠ .ok then return flashStatus.toU16
        let flashStatus ← halFlashProgram (newPageAddress f) validPage
        return flashStatus.toU16 : Mcu HalfWord).run w = .ok status w' ∧
      (w.HalOkFor 2 → status = HalStatus.ok.toU16 ∧ w' = finishTransfer f w) ∧
      (¬ w.HalOkFor 2 → status ≠ HalStatus.ok.toU16) := by
  have hcalls : w.HalOkFor 2 ↔ w.hal w.ops.length = .ok ∧ w.hal (w.ops.length + 1) = .ok := by
    have hzero := ((w.issue (.erase (oldPageId f))).issue
      (.program (newPageAddress f) validPage)).halOkFor_zero
    rw [World.halOkFor_succ (.erase (oldPageId f)),
      World.halOkFor_succ (.program (newPageAddress f) validPage), issue_hal_length,
      and_iff_left hzero]
  simp only [EStateM.run_bind, run_halFlashExErase_any]
  rcases eq_or_ne (w.hal w.ops.length) .ok with herase | herase
  · simp only [herase, ne_eq, not_true_eq_false, if_false, EStateM.run_bind,
      run_halFlashProgram_any, issue_hal_length]
    refine ⟨_, _, rfl, fun h => ?_, fun h => HalStatus.toU16_ne_ok fun hmark => h ?_⟩
    · rw [(hcalls.mp h).2]
      exact ⟨rfl, rfl⟩
    · exact hcalls.mpr ⟨herase, hmark⟩
  · simp only [ne_eq, herase, not_false_eq_true, if_true]
    exact ⟨_, _, rfl, fun h => absurd (hcalls.mp h).1 herase,
      fun _ => HalStatus.toU16_ne_ok herase⟩

/-- The specification of `EE_PageTransfer`, whatever its HAL calls return. -/
theorem run_eePageTransfer_any {w : World} {virtAddress : HalfWord}
    (hva : virtAddress.toNat < eepromSizeU16) (data : HalfWord)
    (hpage : readPage w.flash ≠ noValidPage) :
    ∃ status w', (eePageTransfer virtAddress data).run w = .ok status w' ∧
      TransferOutcome w virtAddress status w' := by
  rw [run_eePageTransfer_eq hva data hpage, eePageTransferTo, EStateM.run_bind,
    run_halFlashProgram_any]
  have hmarked : w.issue (.program (newPageAddress w.flash) receiveData) =
      w.issue (markOp w.flash) := rfl
  simp only [hmarked]
  rcases eq_or_ne (w.hal w.ops.length) .ok with hmark | hmark
  · have hflash : (w.issue (markOp w.flash)).flash = marked w.flash :=
      World.issue_flash_of_ok hmark _
    have hs : Settled (w.issue (markOp w.flash)).flash := hflash ▸ settled_marked hpage
    obtain ⟨status, v, hrun, hout⟩ := run_copy hs hva data
    unfold skipWritten at hrun
    rw [hmark, if_neg (not_not.mpr rfl), run_failFast, EStateM.run_bind, hrun]
    rw [hflash] at hout
    cases hout with
    | done hcalls hreach hlen hfull =>
        rw [hflash] at hcalls hlen hfull
        rcases em (TransferFits w.flash virtAddress) with hfits | hfits
        · have hle : carried (skipWritten virtAddress) (marked w.flash) virtAddresses + 1 ≤
              freeSlots (marked w.flash) := hfits
          rw [Nat.min_eq_left hle] at hcalls hlen
          have hhal : v.hal = (w.issue (markOp w.flash)).hal :=
            (evolves_appendSteps hreach).hal
          have hall : w.HalOkFor (transferCalls w.flash virtAddress) ↔ v.HalOkFor 2 := by
            rw [transferCalls, World.halOkFor_succ (markOp w.flash),
              World.halOkFor_add hhal hlen, and_iff_right hmark, and_iff_right hcalls]
          obtain ⟨status, w', hfinish, hdone, hcut⟩ := run_finishTransfer w.flash v
          simp only [hflash, if_pos hle]
          rw [if_neg (not_not.mpr rfl)]
          refine ⟨status, w', hfinish, ?_⟩
          rcases em (v.HalOkFor 2) with hok | hok
          · obtain ⟨rfl, rfl⟩ := hdone hok
            exact .done hfits (hall.mpr hok) hreach
          · exact .cut (fun h => hok (hall.mp h)) (fun _ => Nat.le_refl _) (hcut hok)
        · have hlt : freeSlots (marked w.flash) <
              carried (skipWritten virtAddress) (marked w.flash) virtAddresses + 1 :=
            Nat.lt_of_not_le hfits
          simp only [hflash, if_neg (Nat.not_le.mpr hlt)]
          rw [if_pos pageFull_ne_ok]
          exact ⟨_, _, rfl, .full hfits hreach (hfull hlt)⟩
    | cut hcalls hstatus =>
        rw [hflash] at hcalls
        dsimp only
        rw [if_pos hstatus]
        refine ⟨_, _, rfl, .cut
          (fun h => hcalls ((World.halOkFor_succ (markOp w.flash)).mp h).2) (fun _ => ?_) hstatus⟩
        rw [transferCalls]
        omega
  · have hne := HalStatus.toU16_ne_ok hmark
    simp only [ne_eq, hmark, not_false_eq_true, if_true]
    refine ⟨_, _, rfl, .cut (n := 1) (fun h => hmark (h 0 Nat.one_pos)) (fun _ => ?_) hne⟩
    exact Nat.le_add_left _ _

/-- The specification of `EE_PageTransfer` when the HAL calls succeed. -/
theorem run_eePageTransfer {w : World} (h : w.HalOk) {virtAddress : HalfWord}
    (hva : virtAddress.toNat < eepromSizeU16) (data : HalfWord)
    (hpage : readPage w.flash ≠ noValidPage) :
    ∃ w', Relation.ReflTransGen AppendStep (w.issue (markOp w.flash)) w' ∧
      (TransferFits w.flash virtAddress ∧
          (eePageTransfer virtAddress data).run w =
            .ok HalStatus.ok.toU16 (finishTransfer w.flash w') ∨
        ¬ TransferFits w.flash virtAddress ∧
          (eePageTransfer virtAddress data).run w = .ok pageFull w' ∧
          freeSlot w'.flash = none) := by
  obtain ⟨status, w', hrun, hout⟩ := run_eePageTransfer_any hva data hpage
  cases hout with
  | done hfits _ hreach => exact ⟨_, hreach, Or.inl ⟨hfits, hrun⟩⟩
  | full hfits hreach hslot => exact ⟨w', hreach, Or.inr ⟨hfits, hrun, hslot⟩⟩
  | cut hcalls => exact absurd (h.halOkFor _) hcalls

/-! ## Resuming a transfer -/

/-- A page whose transfer `EE_Init` resumes: `newBase` is marked valid at the
end, `oldBase` is then checked for data. -/
theorem run_resumeTransfer {w : World} (h : w.HalOk) (hs : Settled w.flash) {newBase i : Nat}
    (hi : newBase + 4 = slotAddress i + 2) (oldBase oldId : Nat) :
    ∃ w', Relation.ReflTransGen AppendStep w w' ∧
      (carried (skipReceived newBase) w.flash virtAddresses ≤ freeSlots w.flash ∧
          (resumeTransfer newBase oldBase oldId).run w =
            .ok HalStatus.ok.toU16
              (afterErase (w'.issue (.program newBase validPage)) oldBase oldId) ∨
        freeSlots w.flash < carried (skipReceived newBase) w.flash virtAddresses ∧
          (resumeTransfer newBase oldBase oldId).run w = .ok pageFull w' ∧
          freeSlot w'.flash = none) := by
  obtain ⟨w', hreach, hrun, hfull⟩ := run_transferLoop (skipReceived_stable hi) virtAddresses h hs
    (fun _ => mem_virtAddresses) virtAddresses_nodup
  have hok' : w'.HalOk := ((moves_transferLoop _ _).of_run hrun).halOk h
  have hloop : (fun f virtAddress => decide (f (newBase + 4) = virtAddress)) =
      skipReceived newBase := rfl
  refine ⟨w', hreach, ?_⟩
  rcases Nat.lt_or_ge (freeSlots w.flash)
    (carried (skipReceived newBase) w.flash virtAddresses) with hlt | hle
  · refine Or.inr ⟨hlt, ?_, hfull hlt⟩
    rw [if_neg (Nat.not_le.mpr hlt)] at hrun
    simp only [resumeTransfer, hloop, EStateM.run_bind, hrun, ne_eq, pageFull_ne_ok,
      not_false_eq_true, if_true, EStateM.run_pure]
  · refine Or.inl ⟨hle, ?_⟩
    rw [if_pos hle] at hrun
    simp only [resumeTransfer, hloop, EStateM.run_bind, hrun, ne_eq, not_true_eq_false, if_false,
      run_halFlashProgram hok', run_eraseUnlessErased (hok'.issue _), EStateM.run_pure]

/-- The slots whose virtual addresses the two resuming branches look at. -/
theorem page0Base_add_four : page0BaseAddress + 4 = slotAddress 0 + 2 := rfl
theorem page1Base_add_four : page1BaseAddress + 4 = slotAddress 0x1000 + 2 := rfl

/-! ## EE_WriteVariable -/

/-- Everything `EE_WriteVariable` can do: the status it returns and the world it
leaves. -/
inductive WriteOutcome (w : World) (virtAddress data : HalfWord) : HalfWord → World → Prop where
  | noValidPage (hpage : readPage w.flash = noValidPage) :
      WriteOutcome w virtAddress data Eeprom.noValidPage w
  | appended {j : Nat} (hpage : readPage w.flash ≠ Eeprom.noValidPage)
      (hslot : freeSlot w.flash = some j) :
      WriteOutcome w virtAddress data HalStatus.ok.toU16 (append w j virtAddress data)
  | transferred {w' : World} (hpage : readPage w.flash ≠ Eeprom.noValidPage)
      (hslot : freeSlot w.flash = none) (hfits : TransferFits w.flash virtAddress)
      (hreach : Relation.ReflTransGen AppendStep (w.issue (markOp w.flash)) w') :
      WriteOutcome w virtAddress data HalStatus.ok.toU16 (finishTransfer w.flash w')
  | full {w' : World} (hpage : readPage w.flash ≠ Eeprom.noValidPage)
      (hslot : freeSlot w.flash = none) (hfits : ¬ TransferFits w.flash virtAddress)
      (hreach : Relation.ReflTransGen AppendStep (w.issue (markOp w.flash)) w')
      (hfull : freeSlot w'.flash = none) :
      WriteOutcome w virtAddress data pageFull w'

/-- The specification of `EE_WriteVariable`. -/
theorem run_eeWriteVariable {w : World} (h : w.HalOk) {virtAddress : HalfWord}
    (hva : virtAddress.toNat < eepromSizeU16) (data : HalfWord) :
    ∃ status w', (eeWriteVariable virtAddress data).run w = .ok status w' ∧
      WriteOutcome w virtAddress data status w' := by
  by_cases hpage : readPage w.flash = noValidPage
  · exact ⟨_, _, run_eeWriteVariable_of_noValidPage h hva data
      (writePage_eq_noValidPage_iff_readPage.mpr hpage), .noValidPage hpage⟩
  · have hwpage := writePage_ne_noValidPage_iff.mpr hpage
    cases hslot : freeSlot w.flash with
    | some j =>
        exact ⟨_, _, run_eeWriteVariable_of_freeSlot h hva data hwpage hslot,
          .appended hpage hslot⟩
    | none =>
        rw [run_eeWriteVariable_of_full h hva data hwpage hslot]
        obtain ⟨w', hreach, ⟨hfits, hrun⟩ | ⟨hfits, hrun, hfull⟩⟩ :=
          run_eePageTransfer h hva data hpage
        · exact ⟨_, _, hrun, .transferred hpage hslot hfits hreach⟩
        · exact ⟨_, _, hrun, .full hpage hslot hfits hreach hfull⟩

end WindradLogger.Eeprom
