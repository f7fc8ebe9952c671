import Htnd.Ghostdag.Manager
import Htnd.Lib.Slices

/-!
# The difficulty window

`blockwindow.go` and `requiredDifficultyFromTargetsWindow`.  The blocks come
from a heap in any order, and the earliest is left out of the average; of
several it is the one that GHOSTDAG ranks lowest.  The headers of the pairs are
read with them, and a panic is `none`.
-/

namespace Htnd.Difficulty.Windows

open Lib.Slices Utxo.Entry Ghostdag.Manager List

/-- A pair of the window, with the time and the bits of its header. -/
structure DifficultyBlock where
  hash : DomainHash
  ghostdagData : BlockGHOSTDAGData
  timeInMilliseconds : Int64
  bits : UInt32

structure BlockWindow where
  blocks : List DifficultyBlock
  minTimestamp : Int64
  maxTimestamp : Int64
  minTimestampIndex : Nat

def ghostdagLess (a b : DifficultyBlock) : Bool :=
  blueWorkLess a.hash a.ghostdagData b.hash b.ghostdagData

/-- The test for a new minimum; ties go to the GHOSTDAG-lesser block. -/
def BlockWindow.precededBy (window : BlockWindow) (block : DifficultyBlock) :
    Bool :=
  block.timeInMilliseconds < window.minTimestamp || (block.timeInMilliseconds =
    window.minTimestamp && window.blocks[window.minTimestampIndex]?.any (ghostdagLess block))

/-- The later of two times, the first one if they are equal. -/
def later (maxTimestamp : Int64) (block : DifficultyBlock) : Int64 :=
  if maxTimestamp < block.timeInMilliseconds then block.timeInMilliseconds
  else maxTimestamp

/-- One round of the loop of `blockWindow`. -/
def BlockWindow.read (window : BlockWindow) (i : Nat) (block : DifficultyBlock) : BlockWindow :=
  let isNew := window.precededBy block
  { window with
    minTimestamp :=
      if isNew then block.timeInMilliseconds else window.minTimestamp
    minTimestampIndex := if isNew then i else window.minTimestampIndex
    maxTimestamp := later window.maxTimestamp block }

/-- The loop of `blockWindow`, from the index `i` on. -/
def BlockWindow.readAll (window : BlockWindow) : Nat → List DifficultyBlock → BlockWindow
  | _, [] => window
  | i, block :: rest => (window.read i block).readAll (i + 1) rest

def blockWindow (windowPairs : List DifficultyBlock) : BlockWindow :=
  BlockWindow.readAll ⟨windowPairs, Int64.maxValue, 0, 0⟩ 0 windowPairs

def averageTarget (blocks : List DifficultyBlock) : Int :=
  (blocks.map fun block => compactToBig block.bits).sum / blocks.length

def bigToCompact (n : Int) : UInt32 :=
  if n = 0 then 0
  else
    let exponent := (n.natAbs.log2 + 1 + 7) / 8
    let word := (if exponent ≤ 3 then n else n >>> (8 * (exponent - 3))).natAbs % 2 ^ 64
    let mantissa : UInt32 :=
      if word < 2 ^ 32 then UInt32.ofNat word else 0xffffffff
    let mantissa := mantissa <<< UInt32.ofNat (8 * (3 - exponent))
    let isSigned := mantissa &&& 0x00800000 ≠ 0
    let mantissa := if isSigned then mantissa >>> 8 else mantissa
    let exponent := if isSigned then exponent + 1 else exponent
    let exponentUint32 : UInt32 :=
      if exponent < 2 ^ 32 then UInt32.ofNat exponent else 0xffffffff
    let compact := exponentUint32 <<< 24 ||| mantissa
    if n < 0 then compact ||| 0x00800000 else compact

/-- `difficultyManager`, with target times in milliseconds. -/
structure DifficultyManager where
  powMax : Int
  difficultyAdjustmentWindowSize : List Int
  disableDifficultyAdjustment : Bool
  targetTimePerBlock : List Int64
  genesisBits : UInt32

/-- The entry of a table at `versionIndex`. -/
def atVersion {α : Type} (table : List α) (blockVersion : UInt16) : Option α :=
  table[min (blockVersion.toNat - 1) (table.length - 1)]?

/-- The bits of a full window, after its earliest block was removed. -/
def retarget (dm : DifficultyManager) (blocks : List DifficultyBlock)
    (minTimestamp maxTimestamp targetTimePerBlockMs : Int64) : UInt32 :=
  let actualTimeSpan := max (maxTimestamp - minTimestamp) 1
  let expectedTimeSpanMs := targetTimePerBlockMs * Int64.ofNat blocks.length
  let maxTimeSpanMs := expectedTimeSpanMs * 4
  let actualTimeSpan :=
    if 0 < expectedTimeSpanMs ∧ maxTimeSpanMs < actualTimeSpan
    then maxTimeSpanMs else actualTimeSpan
  let newTarget := averageTarget blocks * actualTimeSpan.toInt /
    targetTimePerBlockMs.toInt / blocks.length
  bigToCompact (if dm.powMax < newTarget then dm.powMax else newTarget)

def requiredDifficultyFromTargetsWindow (dm : DifficultyManager)
    (targetsWindow : BlockWindow) (blockVersion : UInt16) : Option UInt32 :=
  if dm.disableDifficultyAdjustment ∨ targetsWindow.blocks.length < 2 then
    some dm.genesisBits
  else do
    let windowSize ← atVersion dm.difficultyAdjustmentWindowSize blockVersion
    if targetsWindow.blocks.length < windowSize then return dm.genesisBits
    else
      let targetTimePerBlockMs ← atVersion dm.targetTimePerBlock blockVersion
      if targetTimePerBlockMs = 0 then none
      else
        return retarget dm (swapRemove targetsWindow.blocks targetsWindow.minTimestampIndex)
            targetsWindow.minTimestamp targetsWindow.maxTimestamp targetTimePerBlockMs

/-! ## The order of the blocks -/

local instance byteOrder : LinearOrder UInt8 := .lift' UInt8.toNat fun _ _ => UInt8.toNat_inj.mp

/-- What the blocks are compared by. -/
def key (block : DifficultyBlock) : Int ×ₗ Nat ×ₗ List UInt8 :=
  toLex (block.timeInMilliseconds.toInt, toLex (block.ghostdagData.blueWork, block.hash.hashArray))

variable {block least least' : DifficultyBlock} {window : BlockWindow}
  {blocks blocks' : List DifficultyBlock} {i : Nat}

theorem key_lt_iff : key block < key least ↔ block.timeInMilliseconds < least.timeInMilliseconds ∨
      (block.timeInMilliseconds = least.timeInMilliseconds ∧ ghostdagLess block least = true) := by
  rw [key, key, Prod.Lex.toLex_lt_toLex, Prod.Lex.toLex_lt_toLex,
    ← Int64.lt_iff_toInt_lt, Int64.toInt_inj, ghostdagLess, blueWorkLess, hashLess]
  refine or_congr_right (and_congr_right fun _ => ?_)
  split_ifs with less more
  · exact iff_of_true (.inl less) rfl
  · refine iff_of_false ?_ id
    rintro (less' | ⟨same, -⟩) <;> omega
  · have same : block.ghostdagData.blueWork = least.ghostdagData.blueWork := by
      omega
    rw [same, decide_eq_true_iff]
    simp only [lt_irrefl, true_and, false_or]

/-- The index of the window is that of a least block of those read so far. -/
structure Leads (window : BlockWindow) (blocks : List DifficultyBlock)
    (least : DifficultyBlock) : Prop where
  isAt : window.blocks[window.minTimestampIndex]? = some least
  isTime : window.minTimestamp = least.timeInMilliseconds
  isLeast : ∀ block ∈ blocks, key least ≤ key block

theorem Leads.read (leads : Leads window blocks least) (isBlock : window.blocks[i]? = some block) :
    ∃ least', Leads (window.read i block) (block :: blocks) least' := by
  have isNew : window.precededBy block = true ↔ key block < key least := by
    rw [BlockWindow.precededBy, leads.isAt, leads.isTime, key_lt_iff]
    simp
  by_cases isLess : key block < key least
  · have isNew := isNew.mpr isLess
    refine ⟨block, (congrArg (window.blocks[·]?) (if_pos isNew)).trans isBlock,
      if_pos isNew, forall_mem_cons.mpr ⟨le_rfl, fun other isIn => ?_⟩⟩
    exact isLess.le.trans (leads.isLeast other isIn)
  · have notNew := mt isNew.mp isLess
    exact ⟨least, (congrArg (window.blocks[·]?) (if_neg notNew)).trans leads.isAt,
      (if_neg notNew).trans leads.isTime, forall_mem_cons.mpr ⟨not_lt.mp isLess, leads.isLeast⟩⟩

theorem Leads.readAll (leads : Leads window blocks least)
    (isRest : window.blocks.drop i = blocks') :
    ∃ least', Leads (window.readAll i blocks') (blocks'.reverseAux blocks)
      least' := by
  induction blocks' generalizing window i blocks least with
  | nil => exact ⟨least, leads⟩
  | cons block rest ih =>
    have isBlock : window.blocks[i]? = some block := by
      rw [← head?_drop, isRest]
      rfl
    rcases leads.read isBlock with ⟨_, next⟩
    refine ih next ?_
    change window.blocks.drop (i + 1) = rest
    rw [← tail_drop, isRest]
    rfl

theorem blocks_readAll : (window.readAll i blocks).blocks = window.blocks := by
  induction blocks generalizing window i with
  | nil => rfl
  | cons block rest ih => exact ih

theorem exists_leads (nonempty : blocks ≠ []) :
    ∃ least ∈ blocks, Leads (blockWindow blocks) blocks least := by
  rcases exists_cons_of_ne_nil nonempty with ⟨first, rest, rfl⟩
  let start : BlockWindow := ⟨first :: rest, Int64.maxValue, 0, 0⟩
  have starts : Leads (start.read 0 first) [first] first := by
    refine ⟨by simp [start, BlockWindow.read], ?_, by simp⟩
    change (if _ then _ else _) = _
    split_ifs with isNew
    · rfl
    · have notLess : ¬ first.timeInMilliseconds < Int64.maxValue :=
        fun less => isNew (by simp [BlockWindow.precededBy, start, less])
      exact Int64.le_antisymm (Int64.not_lt.mp notLess) (Int64.le_maxValue _)
  have isRest : (start.read 0 first).blocks.drop 1 = rest := rfl
  rcases starts.readAll isRest with ⟨least, leads⟩
  have isIn := mem_of_getElem? leads.isAt
  rw [blocks_readAll] at isIn
  refine ⟨least, isIn, leads.isAt, leads.isTime, fun block isIn => ?_⟩
  refine leads.isLeast block ?_
  rw [reverseAux_eq]
  simpa [or_comm] using isIn

theorem maxTimestamp_readAll : (window.readAll i blocks).maxTimestamp =
    blocks.foldl later window.maxTimestamp := by
  induction blocks generalizing window i with
  | nil => rfl
  | cons block rest ih => exact ih

theorem later_comm (time : Int64) (block block' : DifficultyBlock) :
    later (later time block) block' = later (later time block') block := by
  simp only [later, Int64.lt_iff_toInt_lt]
  split_ifs <;> first | rfl | (apply Int64.toInt_inj.mp; omega)

theorem retarget_perm (dm : DifficultyManager) (perm : blocks.Perm blocks') :
    retarget dm blocks = retarget dm blocks' := by
  funext minTimestamp maxTimestamp targetTimePerBlockMs
  rw [retarget, retarget, averageTarget, averageTarget, perm.length_eq, (perm.map _).sum_eq]

/-- The bits do not depend on the order of the blocks in the heap. -/
theorem requiredDifficulty_perm (dm : DifficultyManager) (blockVersion : UInt16)
    (perm : blocks.Perm blocks') (distinct : (blocks.map DifficultyBlock.hash).Nodup) :
    requiredDifficultyFromTargetsWindow dm (blockWindow blocks) blockVersion =
      requiredDifficultyFromTargetsWindow dm (blockWindow blocks')
        blockVersion := by
  rcases eq_or_ne blocks [] with rfl | nonempty
  · rw [perm.nil_eq]
  have nonempty' := fun isNil => nonempty (perm.trans (.of_eq isNil)).eq_nil
  rcases exists_leads nonempty with ⟨least, isIn, leads⟩
  rcases exists_leads nonempty' with ⟨least', isIn', leads'⟩
  rw [← perm.mem_iff] at isIn'
  have sameKey := le_antisymm (leads.isLeast _ isIn') (leads'.isLeast _ (perm.mem_iff.mp isIn))
  obtain rfl : least = least' := by
    refine inj_on_of_nodup_map distinct isIn isIn' ?_
    rw [DomainHash.mk.injEq]
    exact congrArg (fun key => (ofLex (ofLex key).2).2) sameKey
  have whole : (blockWindow blocks).blocks.Perm (blockWindow blocks').blocks := by
    rwa [blockWindow, blockWindow, blocks_readAll, blocks_readAll]
  have rest := ((swapRemove_perm leads.isAt).trans
    (whole.trans (swapRemove_perm leads'.isAt).symm)).cons_inv
  have sameMax : (blockWindow blocks).maxTimestamp = (blockWindow blocks').maxTimestamp := by
    rw [blockWindow, blockWindow, maxTimestamp_readAll, maxTimestamp_readAll]
    exact perm.foldl_eq' (fun _ _ _ _ _ => later_comm ..) 0
  rw [requiredDifficultyFromTargetsWindow, requiredDifficultyFromTargetsWindow,
    whole.length_eq, leads.isTime, leads'.isTime, sameMax]
  simp only [retarget_perm dm rest]

/-- Two blocks of one time and one blue work, in both orders. -/
theorem requiredDifficulty_perm_tied :
    let block (byte : UInt8) (bits : UInt32) : DifficultyBlock :=
      ⟨.filled byte, ⟨0, 1, 0, none, [], [], ∅⟩, 0, bits⟩
    let dm : DifficultyManager := ⟨2 ^ 255, [2], false, [1], 0⟩
    requiredDifficultyFromTargetsWindow dm (blockWindow [block 1 0x1d00ffff, block 2 0x1d00fffe])
        1 = requiredDifficultyFromTargetsWindow dm
        (blockWindow [block 2 0x1d00fffe, block 1 0x1d00ffff]) 1 :=
  requiredDifficulty_perm _ _ (.swap ..) (by decide)

end Htnd.Difficulty.Windows
