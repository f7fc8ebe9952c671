import Htnd.Lib.Calls
import Htnd.Txscript.Script

/-!
# Script numbers and stacks

`txscript/scriptnum.go` and `txscript/stack.go`.  A stack is a list with its top
first, so the item at a depth is the item at that index.  A script number is an
`int64`, given as an integer; where the source could overflow it the result is
wrapped.
-/

namespace Htnd.Txscript.Stacks

open Lib.Calls Lib.LittleEndian Script

/-! ## Script numbers -/

def maxInt32 : Int := 2147483647

def minInt32 : Int := -2147483648

def defaultScriptNumLen : Nat := 4

/-- The `int64` that an integer wraps to. -/
def wrap64 (value : Int) : Int := value.bmod (2 ^ 64)

def checkMinimalDataEncoding (v : List UInt8) : Except Failure Unit := do
  if v.length = 0 then return
  let last ← index v (v.length - 1)
  if last &&& 0x7f = 0 then
    if v.length = 1 then throw (.scriptError .minimalData)
    let second ← index v (v.length - 2)
    if second &&& 0x80 = 0 then throw (.scriptError .minimalData)

/-- The bytes of a positive number, which as an `int64` has at most eight. -/
def magnitudeBytes : Nat → Int → List UInt8
  | 0, _ => []
  | rounds + 1, n =>
    if 0 < n then
      UInt8.ofNat (n % 256).toNat :: magnitudeBytes rounds (n / 256)
    else []

/-- `scriptNum.Bytes`.  Negating the least `int64` leaves it negative. -/
def bytesOf (n : Int) : Except Failure (List UInt8) :=
  if n = 0 then .ok []
  else do
    let isNegative := decide (n < 0)
    let result := magnitudeBytes 8 (if isNegative then wrap64 (-n) else n)
    let last ← index result (result.length - 1)
    if last &&& 0x80 ≠ 0 then
      return result ++ [if isNegative then 0x80 else 0x00]
    else if isNegative then return result.dropLast ++ [last ||| 0x80]
    else return result

def int32Of (n : Int) : Int :=
  if maxInt32 < n then maxInt32 else if n < minInt32 then minInt32 else n

def makeScriptNum (v : List UInt8) (scriptNumLen : Nat) : Except Failure Int := do
  if scriptNumLen < v.length then throw (.scriptError .numberTooBig)
  if 8 < v.length then throw (.scriptError .numberTooBig)
  checkMinimalDataEncoding v
  if v.length = 0 then return 0
  let last ← index v (v.length - 1)
  if last &&& 0x80 ≠ 0 then
    return -((decode v : Int) - 0x80 * 256 ^ (v.length - 1))
  else return decode v

/-- Whether a byte array is true; negative zero is false. -/
def asBool : List UInt8 → Bool
  | [] => false
  | byte :: rest =>
    if byte ≠ 0 then !(rest.isEmpty && byte == 0x80) else asBool rest

def fromBool (v : Bool) : List UInt8 :=
  if v then [1] else []

/-! ## Stacks -/

abbrev Element := List UInt8

abbrev Stack := List Element

abbrev StackCall := ExceptT Failure (StateM Stack)

def checkedStackSize (size : Nat) : Except Failure Int :=
  if maxInt32 < size then .error .panicked else .ok size

def depth : StackCall Int := do
  compute (checkedStackSize (← get).length)

def pushByteArray (so : Element) : StackCall Unit := modify fun stk => so :: stk

def pushInt (val : Int) : StackCall Unit := do
  pushByteArray (← compute (bytesOf val))

def pushBool (val : Bool) : StackCall Unit := pushByteArray (fromBool val)

def peekByteArray (idx : Int) : StackCall Element := do
  let stk ← get
  let sz ← compute (checkedStackSize stk.length)
  if idx < 0 ∨ sz ≤ idx then throw (.scriptError .invalidStackOperation)
  compute (index stk idx.toNat)

/-- Remove the item at a depth.  The source has a case for each end. -/
def nipN (idx : Int) : StackCall Element := do
  let stk ← get
  let sz ← compute (checkedStackSize stk.length)
  if idx < 0 ∨ sz - 1 < idx then
    throw (.scriptError .invalidStackOperation)
  let so ← compute (index stk idx.toNat)
  set (stk.eraseIdx idx.toNat)
  return so

def popByteArray : StackCall Element := nipN 0

def popInt : StackCall Int := do
  let so ← popByteArray
  compute (makeScriptNum so defaultScriptNumLen)

def popBool : StackCall Bool := do
  let so ← popByteArray
  return asBool so

def tuck : StackCall Unit := do
  let so2 ← popByteArray
  let so1 ← popByteArray
  pushByteArray so2
  pushByteArray so1
  pushByteArray so2

def times (round : StackCall Unit) : Nat → StackCall Unit
  | 0 => return
  | count + 1 => do
    round
    times round count

/-- A loop that moves or copies items, for a count that must be positive. -/
def countedLoop (n : Int) (round : StackCall Unit) : StackCall Unit := do
  if n < 1 then throw (.scriptError .invalidStackOperation)
  times round n.toNat

def dropN (n : Int) : StackCall Unit :=
  countedLoop n do
    let _ ← popByteArray

def dupN (n : Int) : StackCall Unit :=
  countedLoop n do
    pushByteArray (← peekByteArray (n - 1))

def rotN (n : Int) : StackCall Unit :=
  countedLoop n do
    pushByteArray (← nipN (3 * n - 1))

def swapN (n : Int) : StackCall Unit :=
  countedLoop n do
    pushByteArray (← nipN (2 * n - 1))

def overN (n : Int) : StackCall Unit :=
  countedLoop n do
    pushByteArray (← peekByteArray (2 * n - 1))

def pickN (n : Int) : StackCall Unit := do
  pushByteArray (← peekByteArray n)

def rollN (n : Int) : StackCall Unit := do
  pushByteArray (← nipN n)

/-- A call whose script error is not looked at. -/
def ignoringError {σ : Type} (call : ExceptT Failure (StateM σ) Unit) :
    ExceptT Failure (StateM σ) Unit :=
  tryCatch call fun
    | .scriptError _ => return
    | failure => throw failure

/-- Drop all items; dropping none is an error that is not looked at. -/
def dropAll : StackCall Unit :=
  ignoringError do
    dropN (← depth)

/-- `getStack`: a copy of the stack. -/
def getStack : StackCall Stack := do
  let _ ← depth
  get

/-- `setStack`: drop all items and push the given ones. -/
def setStack (data : Stack) : StackCall Unit := do
  dropAll
  modify fun stk => data ++ stk

end Htnd.Txscript.Stacks
