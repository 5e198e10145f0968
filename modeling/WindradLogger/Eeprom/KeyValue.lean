import WindradLogger.Eeprom.InOrder
import WindradLogger.Lib.Run
import WindradLogger.Lib.Store

set_option autoImplicit false

/-!
# The emulation as a key-value store

Abstractly the emulation is a store with 256 keys.  A write whose entry lands in
sight of the reader is a write of that store, and so is one that repeats the
value held; a run of such writes leaves the last value of every variable.  Where
an entry lands is a matter of the slot ranges of writer and reader, which differ
at both ends of a page.

The second part is about space: a write is refused exactly when its page is full
and a page transfer would not fit, and no earlier write can make a page that was
readable unreadable.
-/

namespace WindradLogger.Eeprom

open WindradLogger.Flash WindradLogger.Lib

/-! ## Sequences of writes -/

/-- The virtual addresses the assertions let through. -/
abbrev VirtAddress : Type := {virtAddress : HalfWord // virtAddress.toNat < eepromSizeU16}

/-- The arguments of one `EE_WriteVariable`. -/
abbrev Write : Type := VirtAddress × HalfWord

/-- The world after one write. -/
def afterWrite (w : World) (write : Write) : World :=
  finalState ((eeWriteVariable write.1 write.2).run w)

/-- The world after a sequence of writes. -/
def afterWrites (w : World) (writes : List Write) : World := writes.foldl afterWrite w

/-- The write returns `HAL_OK`. -/
def ReturnsOk (w : World) (write : Write) : Prop :=
  (eeWriteVariable write.1 write.2).run w = .ok HalStatus.ok.toU16 (afterWrite w write)

/-- Every write returns, in one of the ways of `WriteOutcome`. -/
theorem writeOutcome {w : World} (h : w.HalOk) (write : Write) :
    ∃ status, (eeWriteVariable write.1 write.2).run w = .ok status (afterWrite w write) ∧
      WriteOutcome w write.1 write.2 status (afterWrite w write) := by
  obtain ⟨status, w', hrun, hout⟩ := run_eeWriteVariable h write.1.2 write.2
  have hafter : afterWrite w write = w' := by rw [afterWrite, hrun, finalState_ok]
  rw [hafter]
  exact ⟨status, hrun, hout⟩

theorem evolves_afterWrite (w : World) (write : Write) : Evolves w (afterWrite w write) :=
  moves_eeWriteVariable write.1 write.2 w

/-- The writes keep a HAL whose calls succeed, and a page to read. -/
structure Started (w : World) : Prop where
  halOk : w.HalOk
  page : readPage w.flash ≠ noValidPage

theorem started_of_eeInit {f : Content} {w : World} {status : HalfWord}
    (hrun : eeInit.run (World.boot f) = .ok status w) : Started w where
  halOk := (moves_eeInit.of_run hrun).halOk (World.boot_halOk f)
  page := readPage_of_eeInit (World.boot_halOk f) hrun

theorem Started.afterWrite {w : World} (h : Started w) (write : Write) :
    Started (afterWrite w write) where
  halOk := (evolves_afterWrite w write).halOk h.halOk
  page := (evolves_afterWrite w write).readPage h.halOk h.page

/-! ## Reading back -/

/-- The abstract content: what the page that is read holds for each address. -/
def contents (f : Content) : Store VirtAddress HalfWord := fun virtAddress => stored f virtAddress

/-- The page has a free slot, and the entry written there is in sight of the
reader or repeats the value held. -/
def LandsInSight (f : Content) (write : Write) : Prop :=
  ∃ j, freeSlot f = some j ∧ (InSight f write.1 j ∨ stored f write.1 = some write.2)

/-- With a free slot, a write returns `HAL_OK` after one append. -/
theorem afterWrite_of_freeSlot {w : World} (write : Write) (h : Started w) {j : Nat}
    (hslot : freeSlot w.flash = some j) :
    ReturnsOk w write ∧ afterWrite w write = append w j write.1 write.2 := by
  have hwpage := writePage_ne_noValidPage_iff.mpr h.page
  have hrun := run_eeWriteVariable_of_freeSlot h.halOk write.1.2 write.2 hwpage hslot
  have hafter : afterWrite w write = append w j write.1 write.2 := by
    rw [afterWrite, hrun, finalState_ok]
  exact ⟨by rw [ReturnsOk, hafter, hrun], hafter⟩

/-- An append is a write of the abstract store exactly when it is in sight or
repeats the value held. -/
theorem contents_append_iff {w : World} (h : Started w) {write : Write} {j : Nat}
    (hslot : freeSlot w.flash = some j) :
    contents (append w j write.1 write.2).flash = (contents w.flash).write write ↔
      InSight w.flash write.1 j ∨ stored w.flash write.1 = some write.2 := by
  have hfree := slotFree_of_freeSlot hslot
  rw [append_flash h.halOk hfree, ← stored_appendFlash_self_iff hfree h.page]
  constructor
  · intro heq
    have hself := congrFun heq write.1
    rwa [contents, Store.write, Function.update_self] at hself
  · intro hself
    funext v
    by_cases hv : v = write.1
    · rw [hv, contents, hself, Store.write, Function.update_self]
    · have hne : v.1 ≠ write.1.1 := fun heq => hv (Subtype.ext heq)
      rw [contents, stored_appendFlash_of_ne hfree h.page v.2 hne, Store.write,
        Function.update_of_ne hv]
      rfl

theorem returnsOk_of_landsInSight {w : World} (h : Started w) {write : Write}
    (hsight : LandsInSight w.flash write) : ReturnsOk w write := by
  obtain ⟨j, hslot, -⟩ := hsight
  exact (afterWrite_of_freeSlot write h hslot).1

theorem contents_afterWrite {w : World} (h : Started w) {write : Write}
    (hsight : LandsInSight w.flash write) :
    contents (afterWrite w write).flash = (contents w.flash).write write := by
  obtain ⟨j, hslot, hsight⟩ := hsight
  rw [(afterWrite_of_freeSlot write h hslot).2]
  exact (contents_append_iff h hslot).mpr hsight

/-- The concrete run simulates the run of the abstract store. -/
theorem contents_afterWrites {w : World} (h : Started w) {writes : List Write}
    (hsight : EachStep afterWrite (fun w write => LandsInSight w.flash write) w writes) :
    contents (afterWrites w writes).flash = writes.foldl Store.write (contents w.flash) :=
  EachStep.simulates Started (fun w => contents w.flash)
    (fun _ write hs _ => Started.afterWrite hs write)
    (fun _ _ hs hsight => contents_afterWrite hs hsight) h hsight

theorem started_afterWrites {w : World} (h : Started w) (writes : List Write) :
    Started (afterWrites w writes) := by
  have htrue : EachStep afterWrite (fun _ _ => True) w writes := by
    clear h
    induction writes generalizing w with
    | nil => trivial
    | cons write rest ih => exact ⟨trivial, ih⟩
  exact EachStep.invariant Started (fun _ write hs _ => Started.afterWrite hs write) h htrue

/-- Every variable reads as the last value written to it, and as it did in `w`
if there was none. -/
def HoldsLastWrites (w : World) (writes : List Write) : Prop :=
  ∀ (virtAddress : VirtAddress) (old : HalfWord),
    (eeReadVariable virtAddress old).run (afterWrites w writes) =
      .ok (match Store.lastWrite writes virtAddress with
        | some data => (0#16, data)
        | none => readVariable w.flash virtAddress old) (afterWrites w writes)

/-- When the content of the store is that of the abstract run, every variable
reads as its last write. -/
theorem holdsLastWrites_of_contents {w : World} (h : Started w) {writes : List Write}
    (hcontents : contents (afterWrites w writes).flash =
      writes.foldl Store.write (contents w.flash)) : HoldsLastWrites w writes := by
  intro virtAddress old
  have hstored : stored (afterWrites w writes).flash virtAddress =
      (Store.lastWrite writes virtAddress).or (stored w.flash virtAddress) := by
    have hfold := Store.foldl_write writes (contents w.flash) virtAddress
    rw [← hcontents] at hfold
    exact hfold
  rw [run_eeReadVariable virtAddress.2, readVariable_of_page (started_afterWrites h writes).page,
    hstored]
  cases Store.lastWrite writes virtAddress with
  | some data => rfl
  | none => rw [Option.none_or, readVariable_of_page h.page]

/-- From every flash content on which `EE_Init` succeeds, writes that each land in
sight all return `HAL_OK`, and every variable then reads as its last write. -/
theorem holdsLastWrites_of_landsInSight {f : Content} {w : World}
    (hinit : eeInit.run (World.boot f) = .ok HalStatus.ok.toU16 w) {writes : List Write}
    (hsight : EachStep afterWrite (fun w write => LandsInSight w.flash write) w writes) :
    EachStep afterWrite ReturnsOk w writes ∧ HoldsLastWrites w writes := by
  have hstarted := started_of_eeInit hinit
  refine ⟨?_, holdsLastWrites_of_contents hstarted (contents_afterWrites hstarted hsight)⟩
  exact EachStep.imp Started (fun _ write hs _ => Started.afterWrite hs write)
    (fun _ _ hs hsight => returnsOk_of_landsInSight hs hsight) hstarted hsight

/-- A write to a log in order that already has an entry keeps the log in order. -/
theorem inOrder_afterWrite {w : World} (hok : w.HalOk) {n : Nat} (h : InOrder w.flash n)
    (hn : n < statusSlot) (write : Write) : InOrder (afterWrite w write).flash (n + 1) := by
  have hstarted : Started w := ⟨hok, h.page⟩
  rw [(afterWrite_of_freeSlot write hstarted h.freeSlot).2,
    append_flash hok (slotFree_of_freeSlot h.freeSlot)]
  exact h.append hn write.1.2 write.2

/-- Below slot `0xFFF` every write to such a log lands in sight. -/
theorem landsInSight_of_inOrder : ∀ (writes : List Write) {w : World} {n : Nat}, w.HalOk →
    InOrder w.flash n → 0 < n → n + writes.length ≤ statusSlot →
    EachStep afterWrite (fun w write => LandsInSight w.flash write) w writes := by
  intro writes
  induction writes with
  | nil =>
      intro w n _ _ _ _
      trivial
  | cons write rest ih =>
      intro w n hok h hn hlen
      rw [List.length_cons] at hlen
      refine ⟨⟨n, h.freeSlot, Or.inl ((h.inSight_iff write.1.2).mpr hn)⟩, ?_⟩
      exact ih ((evolves_afterWrite w write).halOk hok)
        (inOrder_afterWrite hok h (by omega) write) (Nat.succ_pos n) (by omega)

/-- The log in order starts with one used slot here, so three writes are kept. -/
theorem holdsLastWrites_secondSlotNext :
    HoldsLastWrites (World.boot secondSlotNext)
      [(⟨3#16, by decide⟩, 7#16), (⟨5#16, by decide⟩, 9#16), (⟨3#16, by decide⟩, 8#16)] :=
  (holdsLastWrites_of_landsInSight
    (run_eeInit_inOrder (World.boot_halOk _) inOrder_secondSlotNext)
    (landsInSight_of_inOrder _ (World.boot_halOk _) inOrder_secondSlotNext (by decide)
      (by decide))).2

/-- The first write after formatting a blank device goes to slot 0 and is lost. -/
theorem blank_write_not_held :
    ¬ ∀ (f : Content) (w : World), eeInit.run (World.boot f) = .ok HalStatus.ok.toU16 w →
      ∀ writes : List Write, EachStep afterWrite ReturnsOk w writes →
        HoldsLastWrites w writes := by
  intro hclaim
  let write : Write := (⟨0#16, by decide⟩, 5#16)
  have hinit := run_eeInit_blank
  have hstarted := started_of_eeInit hinit
  obtain ⟨hok, hafter⟩ := afterWrite_of_freeSlot write hstarted
    inOrder_blankStarted.freeSlot
  have hread := hclaim blank blankStarted hinit [write] ⟨hok, trivial⟩ write.1 0#16
  -- What is read is what the blank log holds: nothing.
  have hfree := slotFree_of_freeSlot inOrder_blankStarted.freeSlot
  have hnot : ¬ InSight blankStarted.flash write.1 0 := fun hsight =>
    absurd ((inOrder_blankStarted.inSight_iff write.1.2).mp hsight) (Nat.lt_irrefl 0)
  have hstored : stored (afterWrites blankStarted [write]).flash write.1 = none := by
    rw [afterWrites, List.foldl_cons, List.foldl_nil, hafter,
      append_flash hstarted.halOk hfree, stored_appendFlash_of_not_inSight hfree hstarted.page hnot,
      inOrder_blankStarted.stored_eq_none (Nat.zero_le 1) write.1.2]
  rw [run_eeReadVariable write.1.2, readVariable_of_page (started_afterWrites hstarted _).page,
    hstored] at hread
  have hstatus := congrArg Prod.fst (EStateM.Result.ok.inj hread).1
  exact absurd hstatus (by decide)

/-! ## Space -/

/-- The page that is written has a free slot, or a page transfer would fit. -/
def HasRoom (f : Content) (virtAddress : HalfWord) : Prop :=
  freeSlot f ≠ none ∨ TransferFits f virtAddress

instance (f : Content) (virtAddress : HalfWord) : Decidable (HasRoom f virtAddress) :=
  inferInstanceAs (Decidable (_ ∨ _))

/-- A write is refused exactly when there is no room. -/
theorem returnsOk_iff_hasRoom {w : World} (h : Started w) (write : Write) :
    ReturnsOk w write ↔ HasRoom w.flash write.1 := by
  obtain ⟨status, hrun, hout⟩ := writeOutcome h.halOk write
  have hstatus : ReturnsOk w write ↔ status = HalStatus.ok.toU16 := by
    rw [ReturnsOk, hrun]
    simp
  rw [hstatus]
  generalize afterWrite w write = w' at hout
  cases hout with
  | noValidPage hpage => exact absurd hpage h.page
  | appended hpage hslot => simp [HasRoom, hslot]
  | transferred hpage hslot hfits hreach => simp [HasRoom, hfits]
  | full hpage hslot hfits hreach hfull => simp [HasRoom, hslot, hfits, pageFull_ne_ok]

/-- From every flash content on which `EE_Init` succeeds, all writes of a sequence
return `HAL_OK` exactly when each finds room. -/
theorem eachStep_returnsOk_iff {f : Content} {w : World}
    (hinit : eeInit.run (World.boot f) = .ok HalStatus.ok.toU16 w) (writes : List Write) :
    EachStep afterWrite ReturnsOk w writes ↔
      EachStep afterWrite (fun w write => HasRoom w.flash write.1) w writes :=
  EachStep.congr Started (fun _ write hs => Started.afterWrite hs write)
    (fun _ write hs => returnsOk_iff_hasRoom hs write) (started_of_eeInit hinit)

/-- On a blank device the first write finds room. -/
theorem eachStep_returnsOk_iff_blank :
    EachStep afterWrite ReturnsOk blankStarted [(⟨0#16, by decide⟩, 5#16)] ↔
      EachStep afterWrite (fun w write => HasRoom w.flash write.1) blankStarted
        [(⟨0#16, by decide⟩, 5#16)] :=
  eachStep_returnsOk_iff run_eeInit_blank _

/-- On a flash full of zeros `EE_Init` succeeds and the first write is refused. -/
theorem zeros_write_refused :
    ¬ ∀ (f : Content) (w : World), eeInit.run (World.boot f) = .ok HalStatus.ok.toU16 w →
      ∀ writes : List Write, EachStep afterWrite ReturnsOk w writes := by
  intro hclaim
  let write : Write := (⟨0#16, by decide⟩, 5#16)
  have hok := (hclaim zeros zerosStarted run_eeInit_zeros [write]).1
  rcases (returnsOk_iff_hasRoom (started_of_eeInit run_eeInit_zeros) write).mp hok with
    hslot | hfits
  · exact hslot freeSlot_zerosStarted
  · exact not_transferFits_zerosStarted write.1 hfits

end WindradLogger.Eeprom
