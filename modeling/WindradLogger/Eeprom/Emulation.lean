import WindradLogger.Flash.Hal

set_option autoImplicit false

/-!
# The EEPROM emulation (`eeprom_emulation.c`, `eeprom_emulation.h`)

Two flash pages hold a log of `(data, virtual address)` half-word pairs.  Each
definition follows the C function of the same name; the `while` loops that only
search memory are functions of the flash content, everything that programs or
erases runs in `Mcu`.

The header's numbers are taken as they stand: `PAGE1_BASE_ADDRESS` lies
`0x4000` above the start although a page is `0x20000` bytes long, and the two
pages' identifiers are `FLASH_SECTOR_2` and `FLASH_SECTOR_3`.
-/

namespace WindradLogger.Eeprom

open WindradLogger.Flash

/-! ## Constants of the header -/

/-- `PAGE_SIZE` -/
def pageSize : Nat := 0x20000
/-- `EEPROM_START_ADDRESS` -/
def eepromStartAddress : Nat := 0x080C0000
/-- `PAGE0_BASE_ADDRESS` -/
def page0BaseAddress : Nat := eepromStartAddress + 0x0000
/-- `PAGE0_END_ADDRESS` -/
def page0EndAddress : Nat := eepromStartAddress + (pageSize - 1)
/-- `PAGE0_ID`, that is `FLASH_SECTOR_2` -/
def page0Id : Nat := 2
/-- `PAGE1_BASE_ADDRESS` -/
def page1BaseAddress : Nat := eepromStartAddress + 0x4000
/-- `PAGE1_END_ADDRESS` -/
def page1EndAddress : Nat := eepromStartAddress + (2 * pageSize - 1)
/-- `PAGE1_ID`, that is `FLASH_SECTOR_3` -/
def page1Id : Nat := 3

/-- `PAGE0` -/
def page0 : HalfWord := 0x0000#16
/-- `PAGE1` -/
def page1 : HalfWord := 0x0001#16
/-- `NO_VALID_PAGE` -/
def noValidPage : HalfWord := 0x00AB#16

/-- `ERASED` -/
def erased : HalfWord := 0xFFFF#16
/-- `RECEIVE_DATA` -/
def receiveData : HalfWord := 0xEEEE#16
/-- `VALID_PAGE` -/
def validPage : HalfWord := 0x0000#16

/-- `READ_FROM_VALID_PAGE` -/
def readFromValidPage : BitVec 8 := 0x00#8
/-- `WRITE_IN_VALID_PAGE` -/
def writeInValidPage : BitVec 8 := 0x01#8

/-- `PAGE_FULL` -/
def pageFull : HalfWord := 0x80#16

/-- `EEPROM_SIZE_U16` -/
def eepromSizeU16 : Nat := 1 * 256

@[simp] theorem erased_ne_validPage : erased ≠ validPage := by decide
@[simp] theorem erased_ne_receiveData : erased ≠ receiveData := by decide
@[simp] theorem receiveData_ne_validPage : receiveData ≠ validPage := by decide
@[simp] theorem receiveData_ne_erased : receiveData ≠ erased := erased_ne_receiveData.symm
@[simp] theorem validPage_ne_erased : validPage ≠ erased := erased_ne_validPage.symm
@[simp] theorem validPage_ne_receiveData : validPage ≠ receiveData := receiveData_ne_validPage.symm

@[simp] theorem page0_ne_page1 : page0 ≠ page1 := by decide
@[simp] theorem page0_ne_noValidPage : page0 ≠ noValidPage := by decide
@[simp] theorem page1_ne_noValidPage : page1 ≠ noValidPage := by decide

/-- Neither id names a sector of the emulation area. -/
theorem page0Id_le : page0Id ≤ 9 := by decide
theorem page1Id_le : page1Id ≤ 9 := by decide

/-! ## Searching the pages -/

/-- The loop of `EE_VerifyPageFullyErased`.  It looks at every second half-word
and stops at the end of page 0, whichever page it was given. -/
def eeVerifyPageFullyErased (f : Content) (address : Nat) : Bool :=
  if address ≤ page0EndAddress then
    if f address ≠ erased then false
    else eeVerifyPageFullyErased f (address + 4)
  else true
termination_by page0EndAddress + 1 - address
decreasing_by omega

/-- `EE_FindValidPage` -/
def eeFindValidPage (f : Content) (operation : BitVec 8) : HalfWord :=
  let pageStatus0 := f page0BaseAddress
  let pageStatus1 := f page1BaseAddress
  if operation = writeInValidPage then
    if pageStatus1 = validPage then
      if pageStatus0 = receiveData then page0 else page1
    else if pageStatus0 = validPage then
      if pageStatus1 = receiveData then page1 else page0
    else noValidPage
  else if operation = readFromValidPage then
    if pageStatus0 = validPage then page0
    else if pageStatus1 = validPage then page1
    else noValidPage
  else page0

/-- The loop of `EE_ReadVariable`: from `address` down to `pageStartAddress + 4`,
exclusive.  The result is the data half-word of the entry found. -/
def eeReadVariableLoop (f : Content) (virtAddress : HalfWord) (pageStartAddress : Nat)
    (address : Nat) : Option HalfWord :=
  if address > pageStartAddress + 4 then
    let item := readWord f address
    let addressValue := (item >>> 16).setWidth 16
    if addressValue = virtAddress then some ((item &&& 0xFFFF#32).setWidth 16)
    else eeReadVariableLoop f virtAddress pageStartAddress (address - 4)
  else none
termination_by address
decreasing_by omega

/-- `EE_ReadVariable` behind its assertion: the status, and what `*Data` holds
afterwards. -/
def readVariable (f : Content) (virtAddress data : HalfWord) : HalfWord × HalfWord :=
  let validPage := eeFindValidPage f readFromValidPage
  if validPage = noValidPage then (noValidPage, data)
  else
    let pageStartAddress := eepromStartAddress + validPage.toNat * pageSize
    let address := (eepromStartAddress + 2) + (1 + validPage.toNat) * pageSize
    match eeReadVariableLoop f virtAddress pageStartAddress address with
    | some found => (0#16, found)
    | none => (1#16, data)

/-- `EE_ReadVariable`; `data` is the content of `*Data` before the call. -/
def eeReadVariable (virtAddress data : HalfWord) : Mcu (HalfWord × HalfWord) := do
  assert (virtAddress.toNat < eepromSizeU16)
  return readVariable (← readFlash) virtAddress data

/-- The loop of `EE_VerifyPageFullWriteVariable`: the first address from
`address` on, below `pageEndAddress`, at which a word is `0xFFFFFFFF`. -/
def freeSlotLoop (f : Content) (address pageEndAddress : Nat) : Option Nat :=
  if address < pageEndAddress then
    if readWord f address = 0xFFFFFFFF#32 then some address
    else freeSlotLoop f (address + 4) pageEndAddress
  else none
termination_by pageEndAddress - address
decreasing_by omega

/-- The address at which the page chosen for writing takes its next entry. -/
def nextFreeSlot (f : Content) : Option Nat :=
  let validPage := eeFindValidPage f writeInValidPage
  freeSlotLoop f (eepromStartAddress + 2 + validPage.toNat * pageSize)
    ((eepromStartAddress - 1) + (validPage.toNat + 1) * pageSize)

/-! ## Writing -/

/-- `EE_VerifyPageFullWriteVariable` -/
def eeVerifyPageFullWriteVariable (virtAddress data : HalfWord) : Mcu HalfWord := do
  assert (virtAddress.toNat < eepromSizeU16)
  let f ← readFlash
  if eeFindValidPage f writeInValidPage = noValidPage then return noValidPage
  match nextFreeSlot f with
  | some address =>
      let flashStatus ← halFlashProgram address data
      if flashStatus ≠ .ok then return flashStatus.toU16
      let flashStatus ← halFlashProgram (address + 2) virtAddress
      return flashStatus.toU16
  | none => return pageFull

/-- The loop that carries variables over to another page, in `EE_PageTransfer`
and twice in `EE_Init`.  `skip` says which virtual addresses the loop passes
over.  The result is `HAL_OK`, or the first other status of a write. -/
def transferLoop (skip : Content → HalfWord → Bool) : List HalfWord → Mcu HalfWord
  | [] => return HalStatus.ok.toU16
  | virtAddress :: rest => do
      if skip (← readFlash) virtAddress then transferLoop skip rest
      else
        let (readStatus, dataVar) ← eeReadVariable virtAddress 0#16
        if readStatus ≠ 0x1#16 then
          let eepromStatus ← eeVerifyPageFullWriteVariable virtAddress dataVar
          if eepromStatus ≠ HalStatus.ok.toU16 then return eepromStatus
        transferLoop skip rest

/-- The virtual addresses `0 … EEPROM_SIZE_U16 - 1` in the order of the loops. -/
def virtAddresses : List HalfWord := (List.range eepromSizeU16).map (BitVec.ofNat 16)

/-- `EE_PageTransfer` once the new page's address and the old page's identifier
are known. -/
def eePageTransferTo (newPageAddress oldPageId : Nat) (virtAddress data : HalfWord) :
    Mcu HalfWord := do
  let flashStatus ← halFlashProgram newPageAddress receiveData
  if flashStatus ≠ .ok then return flashStatus.toU16
  let eepromStatus ← eeVerifyPageFullWriteVariable virtAddress data
  if eepromStatus ≠ HalStatus.ok.toU16 then return eepromStatus
  let eepromStatus ← transferLoop (fun _ iterator => iterator = virtAddress) virtAddresses
  if eepromStatus ≠ HalStatus.ok.toU16 then return eepromStatus
  let flashStatus ← halFlashExErase oldPageId
  if flashStatus ≠ .ok then return flashStatus.toU16
  let flashStatus ← halFlashProgram newPageAddress validPage
  return flashStatus.toU16

/-- `EE_PageTransfer` -/
def eePageTransfer (virtAddress data : HalfWord) : Mcu HalfWord := do
  assert (virtAddress.toNat < eepromSizeU16)
  let selected := eeFindValidPage (← readFlash) readFromValidPage
  if selected = page1 then eePageTransferTo page0BaseAddress page1Id virtAddress data
  else if selected = page0 then eePageTransferTo page1BaseAddress page0Id virtAddress data
  else return noValidPage

/-- `EE_WriteVariable` -/
def eeWriteVariable (virtAddress data : HalfWord) : Mcu HalfWord := do
  assert (virtAddress.toNat < eepromSizeU16)
  let status ← eeVerifyPageFullWriteVariable virtAddress data
  if status = pageFull then eePageTransfer virtAddress data
  else return status

/-! ## Formatting and start-up -/

/-- `if (!EE_VerifyPageFullyErased(base)) HAL_FLASHEx_Erase(sector)`, the step
that `EE_Format` and `EE_Init` make before they go on or return the status. -/
def eraseUnlessErased (base : Nat) (sector : Nat) : Mcu HalStatus := do
  if eeVerifyPageFullyErased (← readFlash) base then return .ok
  else halFlashExErase sector

/-- `EE_Format` -/
def eeFormat : Mcu HalStatus := do
  let flashStatus ← eraseUnlessErased page0BaseAddress page0Id
  if flashStatus ≠ .ok then return flashStatus
  let flashStatus ← halFlashProgram page0BaseAddress validPage
  if flashStatus ≠ .ok then return flashStatus
  eraseUnlessErased page1BaseAddress page1Id

/-- The branches of `EE_Init` in which `newBase` is receiving the data of the
other page: carry the variables over, mark the new page valid, erase the other
page `oldBase`, whose identifier is `oldId`. -/
def resumeTransfer (newBase oldBase : Nat) (oldId : Nat) : Mcu HalfWord := do
  let eepromStatus ← transferLoop (fun f virtAddress => f (newBase + 4) = virtAddress)
    virtAddresses
  if eepromStatus ≠ HalStatus.ok.toU16 then return eepromStatus
  let flashStatus ← halFlashProgram newBase validPage
  if flashStatus ≠ .ok then return flashStatus.toU16
  let flashStatus ← eraseUnlessErased oldBase oldId
  return flashStatus.toU16

/-- `EE_Init` -/
def eeInit : Mcu HalfWord := do
  let f ← readFlash
  let pageStatus0 := f page0BaseAddress
  let pageStatus1 := f page1BaseAddress
  if pageStatus0 = erased then
    if pageStatus1 = validPage then
      let flashStatus ← eraseUnlessErased page0BaseAddress page0Id
      return flashStatus.toU16
    else if pageStatus1 = receiveData then
      let flashStatus ← eraseUnlessErased page0BaseAddress page0Id
      if flashStatus ≠ .ok then return flashStatus.toU16
      let flashStatus ← halFlashProgram page1BaseAddress validPage
      return flashStatus.toU16
    else
      return (← eeFormat).toU16
  else if pageStatus0 = receiveData then
    if pageStatus1 = validPage then
      resumeTransfer page0BaseAddress page1BaseAddress page1Id
    else if pageStatus1 = erased then
      let flashStatus ← eraseUnlessErased page1BaseAddress page1Id
      if flashStatus ≠ .ok then return flashStatus.toU16
      let flashStatus ← halFlashProgram page0BaseAddress validPage
      return flashStatus.toU16
    else
      return (← eeFormat).toU16
  else if pageStatus0 = validPage then
    if pageStatus1 = validPage then
      return (← eeFormat).toU16
    else if pageStatus1 = erased then
      let flashStatus ← eraseUnlessErased page1BaseAddress page1Id
      return flashStatus.toU16
    else
      resumeTransfer page1BaseAddress page0BaseAddress page0Id
  else
    return (← eeFormat).toU16

end WindradLogger.Eeprom
