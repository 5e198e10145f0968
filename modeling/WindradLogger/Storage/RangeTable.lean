import Mathlib.Algebra.Group.Nat.Defs
import WindradLogger.Lib.SeenTable
import WindradLogger.Storage.Overlaps

set_option autoImplicit false

/-!
# The table of ranges (`eeprom_storage.c`)

The valid entries of `found_storage_chunks` are a table of the ranges that
`check_for_overlaps` was called with, each entered once, in front of the entries
that are free.  The assertion that there is room for a new range never fails: when
the table is full the search stops at its last entry, which the new range then
replaces.
-/

namespace WindradLogger.Storage

open WindradLogger.Flash WindradLogger.Eeprom WindradLogger.Lib WindradLogger.Lib.SeenTable

/-- The start and the end of a range, as they are compared. -/
abbrev StoredRange : Type := HalfWord × HalfWord

/-- The entry for a range. -/
def entryOf (range : StoredRange) : FoundStorageChunk :=
  { addressStart := range.1, addressEnd := range.2, valid := true }

/-- The entries are those of the ranges, and free ones behind them. -/
def HoldsRanges (ranges : List StoredRange) (chunks : List FoundStorageChunk) : Prop :=
  ∃ unused, chunks = ranges.map entryOf ++ unused ∧ ∀ chunk ∈ unused, chunk.valid = false

/-! ## One call -/

/-- The search goes through all the ranges and stops at the first free entry, or at
the last entry if none is free. -/
theorem scanChunks_ranges (range : StoredRange) {unused : List FoundStorageChunk}
    (hunused : ∀ chunk ∈ unused, chunk.valid = false) :
    ∀ (ranges : List StoredRange) (i : Nat),
      scanChunks range.1 range.2 (ranges.map entryOf ++ unused) i =
        (if unused = [] then i + ranges.length - 1 else i + ranges.length,
          decide (range ∈ ranges)) := by
  intro ranges
  induction ranges with
  | nil =>
      intro i
      cases unused with
      | nil => rfl
      | cons chunk rest =>
          have hfree := hunused chunk List.mem_cons_self
          simp [scanChunks, hfree]
  | cons first rest ih =>
      intro i
      have hsame : (first.1 = range.1 ∧ first.2 = range.2) ↔ range = first :=
        ⟨fun h => (Prod.ext h.1 h.2).symm,
          fun h => ⟨congrArg Prod.fst h.symm, congrArg Prod.snd h.symm⟩⟩
      have hlast : (if unused = [] then i + 1 + rest.length - 1 else i + 1 + rest.length) =
          if unused = [] then i + (rest.length + 1) - 1 else i + (rest.length + 1) := by
        split <;> omega
      rw [List.map_cons, List.cons_append, scanChunks, ih (i + 1), hlast]
      simp only [entryOf, if_true, List.length_cons, List.mem_cons, hsame, decide_eq_true_eq]

/-- The first free entry takes a new range. -/
theorem holdsRanges_set_free (ranges : List StoredRange) (chunk : FoundStorageChunk)
    {rest : List FoundStorageChunk} (hrest : ∀ c ∈ rest, c.valid = false) (range : StoredRange) :
    HoldsRanges (ranges ++ [range])
      ((ranges.map entryOf ++ chunk :: rest).set ranges.length (entryOf range)) := by
  refine ⟨rest, ?_, hrest⟩
  rw [List.map_append, List.append_assoc]
  simp

/-- With no free entry the range in the last one is replaced. -/
theorem holdsRanges_set_last {ranges : List StoredRange} (hne : ranges ≠ [])
    (range : StoredRange) :
    HoldsRanges (ranges.dropLast ++ [range])
      ((ranges.map entryOf).set (ranges.length - 1) (entryOf range)) := by
  refine ⟨[], ?_, fun _ hmem => nomatch hmem⟩
  rcases ranges.eq_nil_or_concat' with rfl | ⟨past, last, rfl⟩
  · exact absurd rfl hne
  · simp

/-- A new range is written to the entry at which the search ended. -/
theorem enterRange_new {chunks : Vector FoundStorageChunk storageChunkSize}
    {range : StoredRange} {lastChunk : Nat}
    (hscan : scanChunks range.1 range.2 chunks.toList 0 = (lastChunk, false))
    (hindex : lastChunk < storageChunkSize) :
    enterRange chunks range.1 range.2 = some (chunks.set lastChunk (entryOf range) hindex) := by
  unfold enterRange
  simp only [hscan, Bool.not_false, if_true, dif_pos hindex]
  rfl

/-- A range is entered into the table as into a table of sixteen keys. -/
theorem enterRange_holds {ranges : List StoredRange}
    {chunks : Vector FoundStorageChunk storageChunkSize}
    (hholds : HoldsRanges ranges chunks.toList) (range : StoredRange) :
    ∃ after, enterRange chunks range.1 range.2 = some after ∧
      HoldsRanges (enter storageChunkSize ranges range) after.toList := by
  obtain ⟨unused, hchunks, hunused⟩ := hholds
  have hlength : ranges.length + unused.length = storageChunkSize := by
    have hsize := chunks.length_toList
    rwa [hchunks, List.length_append, List.length_map] at hsize
  have hpositive : 0 < storageChunkSize := by decide
  have hscan := scanChunks_ranges range hunused ranges 0
  rw [← hchunks, Nat.zero_add] at hscan
  rcases Decidable.em (range ∈ ranges) with hknown | hnew
  · refine ⟨chunks, ?_, unused, ?_, hunused⟩
    · unfold enterRange
      simp [hscan, hknown]
    · rw [enter, if_pos hknown, hchunks]
  · rw [decide_eq_false hnew] at hscan
    rw [enter, if_neg hnew]
    cases unused with
    | nil =>
        rw [List.length_nil, Nat.add_zero] at hlength
        rw [if_pos rfl] at hscan
        refine ⟨_, enterRange_new hscan (by omega), ?_⟩
        rw [if_neg (Nat.not_lt.mpr (Nat.le_of_eq hlength.symm)), Vector.toList_set, hchunks,
          List.append_nil]
        exact holdsRanges_set_last (List.ne_nil_of_length_pos (by omega)) range
    | cons chunk rest =>
        rw [List.length_cons] at hlength
        have hroom : ranges.length < storageChunkSize := by omega
        rw [if_neg (List.cons_ne_nil _ _)] at hscan
        refine ⟨_, enterRange_new hscan hroom, ?_⟩
        rw [if_pos hroom, Vector.toList_set, hchunks]
        exact holdsRanges_set_free ranges chunk
          (fun c hc => hunused c (List.mem_cons_of_mem _ hc)) range

/-- The second loop looks at the ranges only. -/
theorem clashesWithAny_append (a : FoundStorageChunk) {unused : List FoundStorageChunk}
    (hunused : ∀ chunk ∈ unused, chunk.valid = false) (chunks : List FoundStorageChunk) :
    clashesWithAny a (chunks ++ unused) = clashesWithAny a chunks := by
  induction chunks with
  | nil => exact (overlapFound_unused hunused).2 a
  | cons chunk rest ih => rw [List.cons_append, clashesWithAny, clashesWithAny, ih]

theorem overlapFound_append {unused : List FoundStorageChunk}
    (hunused : ∀ chunk ∈ unused, chunk.valid = false) (chunks : List FoundStorageChunk) :
    overlapFound (chunks ++ unused) = overlapFound chunks := by
  induction chunks with
  | nil => exact (overlapFound_unused hunused).1
  | cons chunk rest ih =>
      rw [List.cons_append, overlapFound, overlapFound, ih, ← List.cons_append,
        clashesWithAny_append _ hunused]

/-! ## Calls -/

/-- The start address and the size that `check_for_overlaps` is called with. -/
abbrev CheckCall : Type := HalfWord × HalfWord

/-- The range that a call passes. -/
def rangeOf (call : CheckCall) : StoredRange := (call.1, call.1 + call.2)

/-- The calls, one after the other. -/
def checkAll : List CheckCall → Dev Unit
  | [] => return ()
  | call :: rest => do
      checkForOverlaps call.1 call.2
      checkAll rest

/-- The ranges that calls leave in the table. -/
def tableAfter (calls : List CheckCall) : List StoredRange :=
  entered storageChunkSize (calls.map rangeOf)

/-- Two ranges of the table clash after the calls. -/
def clashAfter (calls : List CheckCall) : Bool := overlapFound ((tableAfter calls).map entryOf)

/-- Two ranges clash after some of the calls. -/
def Clashing (calls : List CheckCall) : Prop := ∃ past, past <+: calls ∧ clashAfter past = true

/-- The valid entries are a prefix of the table, and no range is in it twice. -/
structure PrefixOfDifferent (chunks : Vector FoundStorageChunk storageChunkSize) : Prop where
  inFront : ∀ i j : Fin storageChunkSize, i ≤ j → (chunks.get j).valid = true →
    (chunks.get i).valid = true
  different : ∀ i j : Fin storageChunkSize, (chunks.get i).valid = true →
    (chunks.get j).valid = true → (chunks.get i).addressStart = (chunks.get j).addressStart →
    (chunks.get i).addressEnd = (chunks.get j).addressEnd → i = j

/-- After calls with this result the table is as it should be, and an assertion has
stopped the program or all the ranges that were passed are in the table. -/
def LosesNothing (calls : List CheckCall) (result : EStateM.Result Halt Device Unit) : Prop :=
  PrefixOfDifferent (finalState result).foundStorageChunks ∧
    ((∃ d, result = .error .assertFailed d) ∨
      ∀ call ∈ calls, entryOf (rangeOf call) ∈ (finalState result).foundStorageChunks)

theorem tableAfter_concat (calls : List CheckCall) (call : CheckCall) :
    tableAfter (calls ++ [call]) = enter storageChunkSize (tableAfter calls) (rangeOf call) := by
  rw [tableAfter, List.map_append, List.map_singleton, entered_concat]
  rfl

/-- Where the ranges are in a table that holds them. -/
theorem HoldsRanges.get {ranges : List StoredRange}
    {chunks : Vector FoundStorageChunk storageChunkSize}
    (hholds : HoldsRanges ranges chunks.toList) (i : Fin storageChunkSize) :
    (∃ h : i.val < ranges.length, chunks.get i = entryOf ranges[i.val]) ∨
      ranges.length ≤ i.val ∧ (chunks.get i).valid = false := by
  obtain ⟨unused, hchunks, hunused⟩ := hholds
  have hget : chunks.toList[i.val]? = some (chunks.get i) := by
    rw [Vector.getElem?_toList]
    exact Vector.getElem?_eq_getElem i.isLt
  rw [hchunks] at hget
  rcases Nat.lt_or_ge i.val ranges.length with hlt | hge
  · refine Or.inl ⟨hlt, ?_⟩
    rw [List.getElem?_append_left (by rwa [List.length_map]), List.getElem?_map,
      List.getElem?_eq_getElem hlt] at hget
    exact (Option.some.inj hget).symm
  · refine Or.inr ⟨hge, hunused _ ?_⟩
    rw [List.getElem?_append_right (by rwa [List.length_map])] at hget
    exact List.mem_of_getElem? hget

theorem HoldsRanges.prefixOfDifferent {ranges : List StoredRange}
    {chunks : Vector FoundStorageChunk storageChunkSize}
    (hholds : HoldsRanges ranges chunks.toList) (hnodup : ranges.Nodup) :
    PrefixOfDifferent chunks where
  inFront := by
    intro i j hle hvalid
    rcases hholds.get j with ⟨hj, -⟩ | ⟨-, hfree⟩
    · rcases hholds.get i with ⟨hi, hentry⟩ | ⟨hge, -⟩
      · rw [hentry]
        rfl
      · exact absurd hj (Nat.not_lt.mpr (hge.trans hle))
    · rw [hfree] at hvalid
      cases hvalid
  different := by
    intro i j hi hj hstart hend
    rcases hholds.get i with ⟨hi', hentry⟩ | ⟨-, hfree⟩
    · rcases hholds.get j with ⟨hj', hentry'⟩ | ⟨-, hfree⟩
      · rw [hentry, hentry'] at hstart hend
        have hsame : ranges[i.val] = ranges[j.val] := Prod.ext hstart hend
        exact Fin.ext ((hnodup.getElem_inj_iff).mp hsame)
      · rw [hfree] at hj
        cases hj
    · rw [hfree] at hi
      cases hi

theorem HoldsRanges.entryOf_mem_iff {ranges : List StoredRange}
    {chunks : Vector FoundStorageChunk storageChunkSize}
    (hholds : HoldsRanges ranges chunks.toList) (range : StoredRange) :
    entryOf range ∈ chunks ↔ range ∈ ranges := by
  obtain ⟨unused, hchunks, hunused⟩ := hholds
  rw [← Vector.mem_toList_iff, hchunks, List.mem_append, List.mem_map]
  constructor
  · rintro (⟨other, hmem, heq⟩ | hmem)
    · obtain ⟨hstart, hend, -⟩ := FoundStorageChunk.mk.inj heq
      rwa [← Prod.ext hstart hend]
    · cases hunused _ hmem
  · exact fun hmem => Or.inl ⟨range, hmem, rfl⟩

/-! ## Runs -/

/-- A call enters its range, and stops the program when two ranges clash then. -/
theorem run_checkForOverlaps_ranges {d : Device} {calls : List CheckCall}
    (hholds : HoldsRanges (tableAfter calls) d.foundStorageChunks.toList) (call : CheckCall) :
    ∃ chunks : Vector FoundStorageChunk storageChunkSize,
      HoldsRanges (tableAfter (calls ++ [call])) chunks.toList ∧
        (checkForOverlaps call.1 call.2).run d =
          if clashAfter (calls ++ [call]) then
            .error .assertFailed { d with foundStorageChunks := chunks }
          else .ok () { d with foundStorageChunks := chunks } := by
  obtain ⟨chunks, henter, hafter⟩ := enterRange_holds hholds (rangeOf call)
  rw [← tableAfter_concat] at hafter
  refine ⟨chunks, hafter, ?_⟩
  obtain ⟨unused, hchunks, hunused⟩ := hafter
  change enterRange _ call.1 (call.1 + call.2) = _ at henter
  rw [run_checkForOverlaps_eq, henter]
  dsimp only
  rw [hchunks, overlapFound_append hunused]
  rfl

/-- The calls return unless two ranges clash after one of them. -/
theorem run_checkAll : ∀ (rest past : List CheckCall) {d : Device},
    HoldsRanges (tableAfter past) d.foundStorageChunks.toList → clashAfter past = false →
    ∃ (seen : List CheckCall) (chunks : Vector FoundStorageChunk storageChunkSize),
      HoldsRanges (tableAfter seen) chunks.toList ∧
      ((checkAll rest).run d = .ok () { d with foundStorageChunks := chunks } ∧
          seen = past ++ rest ∧ (∀ later, later <+: rest → clashAfter (past ++ later) = false) ∨
        (checkAll rest).run d = .error .assertFailed { d with foundStorageChunks := chunks } ∧
          ∃ later, later <+: rest ∧ clashAfter (past ++ later) = true) := by
  intro rest
  induction rest with
  | nil =>
      intro past d hholds hpast
      refine ⟨past, d.foundStorageChunks, hholds, Or.inl ⟨rfl, (List.append_nil past).symm, ?_⟩⟩
      intro later hlater
      rwa [List.prefix_nil.mp hlater, List.append_nil]
  | cons call rest ih =>
      intro past d hholds hpast
      obtain ⟨chunks, hchunks, hcheck⟩ := run_checkForOverlaps_ranges hholds call
      cases hclash : clashAfter (past ++ [call]) with
      | true =>
          rw [hclash, if_pos rfl] at hcheck
          refine ⟨past ++ [call], chunks, hchunks, Or.inr ⟨?_, [call], ⟨rest, rfl⟩, hclash⟩⟩
          rw [checkAll, EStateM.run_bind, hcheck]
      | false =>
          rw [hclash, if_neg Bool.false_ne_true] at hcheck
          obtain ⟨seen, chunks', hseen, hrun⟩ := ih (past ++ [call])
            (d := { d with foundStorageChunks := chunks }) hchunks hclash
          refine ⟨seen, chunks', hseen, ?_⟩
          rw [checkAll, EStateM.run_bind, hcheck]
          rcases hrun with ⟨hok, heq, hnone⟩ | ⟨herror, later, hlater, hfound⟩
          · refine Or.inl ⟨hok, ?_, ?_⟩
            · rw [heq, List.append_assoc, List.singleton_append]
            · intro later hlater
              rcases later with - | ⟨first, later⟩
              · rwa [List.append_nil]
              · obtain ⟨rfl, htail⟩ := List.cons_prefix_cons.mp hlater
                have hnext := hnone later htail
                rwa [List.append_assoc, List.singleton_append] at hnext
          · refine Or.inr ⟨herror, call :: later, List.cons_prefix_cons.mpr ⟨rfl, hlater⟩, ?_⟩
            rwa [List.append_assoc, List.singleton_append] at hfound

/-- `eeprom_init` leaves no range in the table. -/
theorem holdsRanges_of_eepromInit {d₀ d₁ : Device} (h : eepromInit.run d₀ = .ok () d₁) :
    HoldsRanges (tableAfter []) d₁.foundStorageChunks.toList :=
  ⟨d₁.foundStorageChunks.toList, rfl, unused_of_eepromInit h⟩

/-- After any calls since `eeprom_init` the valid entries are a prefix of different
ranges.  No range is lost exactly when no more than sixteen different ones were
passed, or the assertion about overlaps has stopped the program: the table itself
refuses nothing. -/
theorem losesNothing_iff {d₀ d₁ : Device} (hinit : eepromInit.run d₀ = .ok () d₁)
    (calls : List CheckCall) :
    LosesNothing calls ((checkAll calls).run d₁) ↔
      Clashing calls ∨ (calls.map rangeOf).toFinset.card ≤ storageChunkSize := by
  obtain ⟨seen, chunks, hholds, hrun⟩ :=
    run_checkAll calls [] (holdsRanges_of_eepromInit hinit) rfl
  have hshape : PrefixOfDifferent chunks := hholds.prefixOfDifferent nodup_entered
  unfold LosesNothing
  rcases hrun with ⟨hok, hseen, hnone⟩ | ⟨herror, past, hpast, hclash⟩
  · rw [List.nil_append] at hseen
    subst hseen
    have hnot : ¬ Clashing seen := by
      rintro ⟨past, hpast, hclash⟩
      have hfree := hnone past hpast
      rw [List.nil_append, hclash] at hfree
      cases hfree
    have hall : (∀ call ∈ seen, entryOf (rangeOf call) ∈ chunks) ↔
        ∀ range ∈ seen.map rangeOf, range ∈ tableAfter seen := by
      rw [List.forall_mem_map]
      exact forall₂_congr fun call _ => hholds.entryOf_mem_iff (rangeOf call)
    rw [hok, or_iff_right hnot, ← forall_mem_entered_iff (by decide : 0 < storageChunkSize)]
    constructor
    · rintro ⟨-, ⟨d, hstopped⟩ | hrecorded⟩
      · cases hstopped
      · exact hall.mp hrecorded
    · exact fun hrecorded => ⟨hshape, Or.inr (hall.mpr hrecorded)⟩
  · rw [herror]
    exact iff_of_true ⟨hshape, Or.inl ⟨_, rfl⟩⟩ (Or.inl ⟨past, hpast, hclash⟩)

/-- Ranges that do not wrap never stop the program. -/
theorem not_clashing_of_unwrapped {calls : List CheckCall}
    (h : ∀ call ∈ calls, call.1 ≤ call.1 + call.2) : ¬ Clashing calls := by
  rintro ⟨past, hpast, hclash⟩
  have hfree : clashAfter past = false := by
    refine overlapFound_eq_false ?_
    intro chunk hchunk _
    obtain ⟨range, hrange, rfl⟩ := List.mem_map.mp hchunk
    obtain ⟨call, hcall, rfl⟩ := List.mem_map.mp (mem_of_mem_entered hrange)
    exact h call (hpast.subset hcall)
  rw [hfree] at hclash
  cases hclash

/-! ## Seventeen ranges -/

/-- The first `n` variables, one after the other. -/
def singles (n : Nat) : List CheckCall := (List.range n).map fun i => (BitVec.ofNat 16 i, 1#16)

theorem not_clashing_singles {n : Nat} (hn : n < 2 ^ 16) : ¬ Clashing (singles n) := by
  refine not_clashing_of_unwrapped ?_
  intro call hcall
  obtain ⟨i, hi, rfl⟩ := List.mem_map.mp hcall
  have hlt := List.mem_range.mp hi
  change BitVec.ofNat 16 i ≤ BitVec.ofNat 16 i + 1#16
  rw [BitVec.le_def, BitVec.toNat_add, BitVec.toNat_ofNat, BitVec.toNat_ofNat]
  omega

/-- Three variables are all recorded. -/
theorem losesNothing_iff_singles :
    ∃ d₁, eepromInit.run (powerOn blank) = .ok () d₁ ∧
      LosesNothing (singles 3) ((checkAll (singles 3)).run d₁) := by
  obtain ⟨hinit, -, -⟩ := run_eepromInit blank
  exact ⟨_, hinit, (losesNothing_iff hinit (singles 3)).mpr (Or.inr (by decide))⟩

/-- Of seventeen ranges one is lost, and no assertion fails. -/
theorem loses_range :
    ¬ ∀ (d₀ d₁ : Device) (calls : List CheckCall), eepromInit.run d₀ = .ok () d₁ →
      LosesNothing calls ((checkAll calls).run d₁) := by
  intro hclaim
  obtain ⟨hinit, -, -⟩ := run_eepromInit blank
  have hnothing := hclaim _ _ (singles 17) hinit
  -- The table is full and no two of the ranges clash.
  obtain ⟨seen, chunks, hholds, hrun⟩ :=
    run_checkAll (singles 17) [] (holdsRanges_of_eepromInit hinit) rfl
  rcases hrun with ⟨hok, hseen, -⟩ | ⟨-, past, hpast, hclash⟩
  · rw [hok] at hnothing
    rcases hnothing.2 with ⟨d, hstopped⟩ | hrecorded
    · cases hstopped
    · rw [List.nil_append] at hseen
      subst hseen
      have hmem := hrecorded (15#16, 1#16) (by decide)
      rw [finalState_ok] at hmem
      exact absurd ((hholds.entryOf_mem_iff _).mp hmem) (by decide)
  · exact not_clashing_singles (by decide) ⟨past, hpast, hclash⟩

end WindradLogger.Storage
