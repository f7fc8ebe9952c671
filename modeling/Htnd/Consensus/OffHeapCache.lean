import Htnd.Lib.RangeLoops
import Htnd.Utxo.Entry

/-!
# The off-heap cache

`OffHeap` of `lrucache`: buffers outside the heap, kept in an LRU cache and
freed by hand.  The map of the LRU cache is keyed by a hash of the key, and a
key that collides leaves a node in the list that no slot has.
-/

namespace Htnd.Consensus.OffHeapCache

open Lib.RangeLoops Utxo.Entry List

variable (hash : DomainHash → UInt64)

/-- `memory.Block`; two blocks of one size are told apart. -/
structure Buffer where
  address : Nat
  size : Nat
deriving DecidableEq

/-- A node of the list; nodes are told apart by their buffers. -/
structure Entry where
  key : DomainHash
  buffer : Buffer
deriving DecidableEq

/-- The nodes are listed from head to tail; a slot has its node as linked. -/
structure LRUCache where
  cache : FiniteMap UInt64 Entry
  nodes : List Entry
  capacity : Nat

namespace LRUCache

variable (c : LRUCache)

def find (key : DomainHash) : Option Entry := (c.cache.lookup (hash key)).filter (·.key = key)

def moveToFront (e : Entry) : LRUCache where
  __ := c
  nodes := e :: c.nodes.erase e

def remove (e : Entry) : LRUCache where
  __ := c
  cache := c.cache.erase (hash e.key)
  nodes := c.nodes.erase e

def removeOldest : LRUCache × Option Entry :=
  match c.nodes.getLast? with
  | none => (c, none)
  | some e => ({ c with
      cache := c.cache.erase (hash e.key)
      nodes := c.nodes.dropLast }, some e)

def add (key : DomainHash) (buffer : Buffer) : LRUCache :=
  match c.find hash key with
  | some e => { c with
      cache := c.cache.insert (hash key) ⟨key, buffer⟩
      nodes := ⟨key, buffer⟩ :: c.nodes.erase e }
  | none =>
    let c := if c.capacity ≤ c.nodes.length then (c.removeOldest hash).1 else c
    { c with
      cache := c.cache.insert (hash key) ⟨key, buffer⟩
      nodes := ⟨key, buffer⟩ :: c.nodes }

end LRUCache

/-- What a buffer counts: whole pages. -/
def offHeapWeight (buffer : Buffer) : Nat := (buffer.size + 4096 - 1) / 4096 * 4096

/-- `offHeapState`, with the buffers that were freed. -/
structure OffHeap where
  lru : LRUCache
  byteBudget : Int
  bytes : Int
  freed : List Buffer

namespace OffHeap

variable (s : OffHeap) (key : DomainHash)

/-- The entry has left the LRU cache, and its buffer is freed. -/
def free (lru : LRUCache) (e : Entry) : OffHeap where
  __ := s
  lru := lru
  bytes := s.bytes - offHeapWeight e.buffer
  freed := e.buffer :: s.freed

def remove : OffHeap :=
  match s.lru.find hash key with
  | none => s
  | some e => s.free (s.lru.remove hash e) e

def freeOldest : OffHeap :=
  match s.lru.removeOldest hash with
  | (_, none) => s
  | (lru, some e) => s.free lru e

/-- Each turn shortens the list, so its length is turns enough. -/
def evict (weight : Nat) : Nat → OffHeap → OffHeap
  | 0, s => s
  | turns + 1, s =>
    if 0 < s.lru.nodes.length ∧ (s.byteBudget < s.bytes + weight ∨
        s.lru.capacity ≤ s.lru.nodes.length) then
      evict weight turns (s.freeOldest hash)
    else s

def addBuffer (buffer : Buffer) : OffHeap :=
  let s := s.remove hash key
  let weight := offHeapWeight buffer
  if s.byteBudget < weight then { s with freed := buffer :: s.freed }
  else
    let s := evict hash weight s.lru.nodes.length s
    { s with lru := s.lru.add hash key buffer, bytes := s.bytes + weight }

def decode : OffHeap × Option Buffer :=
  match s.lru.find hash key with
  | none => (s, none)
  | some e => ({ s with lru := s.lru.moveToFront e }, some e.buffer)

/-- `freeAll` goes on while there is an oldest entry. -/
def clear : OffHeap := (freeOldest hash)^[s.lru.nodes.length] s

end OffHeap

/-- The calls; `Add` has the buffer that `Malloc` gives for the bytes. -/
inductive Call
  | add (key : DomainHash) (buffer : Buffer)
  | addBuffer (key : DomainHash) (buffer : Buffer)
  | decode (key : DomainHash)
  | remove (key : DomainHash)
  | clear

/-- `Add` refuses what is empty or too large. -/
def refused (byteBudget : Int) (buffer : Buffer) : Bool :=
  buffer.size = 0 ∨ byteBudget < offHeapWeight buffer

def step (s : OffHeap) : Call → OffHeap
  | .add key buffer =>
    if refused s.byteBudget buffer then s.remove hash key
    else s.addBuffer hash key buffer
  | .addBuffer key buffer => s.addBuffer hash key buffer
  | .decode key => (s.decode hash key).1
  | .remove key => s.remove hash key
  | .clear => s.clear hash

/-- The buffers that a call hands over to the cache. -/
def Call.taken (byteBudget : Int) : Call → List Buffer
  | .add _ buffer => if refused byteBudget buffer then [] else [buffer]
  | .addBuffer _ buffer => [buffer]
  | _ => []

def newOffHeap (capacity : Nat) (byteBudget : Int) : OffHeap :=
  ⟨⟨∅, [], capacity⟩, byteBudget, 0, []⟩

/-! ## The invariant -/

def buffers (s : OffHeap) : List Buffer := s.lru.nodes.map Entry.buffer

/-- What holds between calls, with the buffers handed over so far. -/
structure Inv (cap : Nat) (budget : Int) (taken : List Buffer) (s : OffHeap) : Prop where
  isCapacity : s.lru.capacity = cap
  isBudget : s.byteBudget = budget
  slots : ∀ slot e, s.lru.cache.lookup slot = some e → e ∈ s.lru.nodes ∧ hash e.key = slot
  owned : taken.Perm (buffers s ++ s.freed)
  bytes : s.bytes = ((buffers s).map offHeapWeight).sum
  fits : s.bytes ≤ max budget 0
  few : s.lru.nodes.length ≤ cap

variable {hash} {cap : Nat} {budget : Int} {taken : List Buffer}
  {s : OffHeap} {e : Entry} {key : DomainHash} {nodes : List Entry}

section

variable (inv : Inv hash cap budget taken s)

include inv

theorem Inv.of_find (found : s.lru.find hash key = some e) : e ∈ s.lru.nodes ∧ e.key = key := by
  rcases Option.filter_eq_some_iff.mp found with ⟨isSlot, isKey⟩
  exact ⟨(inv.slots _ e isSlot).1, of_decide_eq_true isKey⟩

theorem Inv.of_perm (perm : s.lru.nodes.Perm nodes) :
    Inv hash cap budget taken
      { s with lru := { s.lru with nodes := nodes } } where
  __ := inv
  slots slot e isSlot := (inv.slots slot e isSlot).imp_left perm.mem_iff.mp
  owned := inv.owned.trans ((perm.map _).append_right _)
  bytes := by
    rw [inv.bytes]
    exact congrArg _ ((perm.map _).map _).sum_eq
  few := perm.length_eq ▸ inv.few

/-- A node leaves the list, its slot is deleted and its buffer freed. -/
theorem Inv.free (perm : s.lru.nodes.Perm (e :: nodes)) :
    Inv hash cap budget taken (s.free { s.lru with
      cache := s.lru.cache.erase (hash e.key), nodes := nodes } e) := by
  have moved := inv.of_perm perm
  have bytes := moved.bytes
  rw [buffers, map_cons, map_cons, sum_cons, Nat.cast_add] at bytes
  refine { inv with
    slots := fun slot other isSlot => ?_
    owned := moved.owned.trans perm_middle.symm
    bytes := sub_eq_of_eq_add' bytes
    fits := (sub_le_self _ (Int.natCast_nonneg _)).trans inv.fits
    few := Nat.le_of_succ_le moved.few }
  rw [OffHeap.free, erase_ite] at isSlot
  split_ifs at isSlot with same
  rcases moved.slots slot other isSlot with ⟨isIn, isHash⟩
  refine ⟨(mem_cons.mp isIn).resolve_left ?_, isHash⟩
  rintro rfl
  exact same isHash.symm

theorem Inv.remove (key : DomainHash) : Inv hash cap budget taken (s.remove hash key) ∧
    (s.remove hash key).lru.find hash key = none := by
  rw [OffHeap.remove]
  cases found : s.lru.find hash key with
  | none => exact ⟨inv, found⟩
  | some e =>
    rcases inv.of_find found with ⟨isIn, rfl⟩
    refine ⟨inv.free (perm_cons_erase isIn), ?_⟩
    change ((s.lru.cache.erase _).lookup _).filter _ = none
    rw [erase_ite, if_pos rfl]
    rfl

theorem Inv.freeOldest : Inv hash cap budget taken (s.freeOldest hash) ∧
    (s.freeOldest hash).lru.nodes.length = s.lru.nodes.length - 1 ∧ ∀ key, s.lru.find hash key =
    none → (s.freeOldest hash).lru.find hash key = none := by
  rw [OffHeap.freeOldest, LRUCache.removeOldest]
  cases last : s.lru.nodes.getLast? with
  | none =>
    rw [getLast?_eq_none_iff.mp last]
    exact ⟨inv, rfl, fun _ => id⟩
  | some e =>
    have split := dropLast_append_getLast? e last
    refine ⟨inv.free ?_, length_dropLast, fun key missing => ?_⟩
    · nth_rewrite 1 [← split]
      exact perm_append_singleton e _
    · change ((s.lru.cache.erase _).lookup _).filter _ = none
      rw [erase_ite]
      split_ifs
      · rfl
      · exact missing

theorem Inv.clear : Inv hash cap budget taken (s.clear hash) ∧ taken.Perm (s.clear hash).freed := by
  rw [OffHeap.clear]
  induction isLength : s.lru.nodes.length generalizing s with
  | zero =>
    have owned := inv.owned
    rw [buffers, length_eq_zero_iff.mp isLength] at owned
    exact ⟨inv, owned⟩
  | succ turns ih =>
    rcases inv.freeOldest with ⟨inv', fewer, -⟩
    exact ih inv' (by omega)

theorem Inv.bytes_zero (isNil : s.lru.nodes.length = 0) : s.bytes = 0 := by
  rw [inv.bytes, buffers, length_eq_zero_iff.mp isNil]
  rfl

variable (pos : 1 ≤ cap)

include pos

/-- After the loop there is room for one more, by count and by weight. -/
theorem Inv.evict {weight turns : Nat} (light : weight ≤ budget)
    (missing : s.lru.find hash key = none) (enough : s.lru.nodes.length ≤ turns) :
    let last := OffHeap.evict hash weight turns s
    Inv hash cap budget taken last ∧ last.bytes + weight ≤ budget ∧ last.lru.nodes.length < cap ∧
      last.lru.find hash key = none := by
  have zero := inv.bytes_zero
  induction turns generalizing s with
  | zero =>
    rw [OffHeap.evict]
    exact ⟨inv, by omega, by omega, missing⟩
  | succ turns ih =>
    rw [OffHeap.evict]
    split_ifs with goesOn
    · rcases inv.freeOldest with ⟨inv', fewer, still⟩
      exact ih inv' (still key missing) (by omega) inv'.bytes_zero
    · rw [inv.isBudget, inv.isCapacity] at goesOn
      exact ⟨inv, by omega, by omega, missing⟩

theorem Inv.addBuffer (buffer : Buffer) : Inv hash cap budget
    (buffer :: taken) (s.addBuffer hash key buffer) := by
  rcases inv.remove key with ⟨inv, missing⟩
  rw [OffHeap.addBuffer]
  dsimp only
  split_ifs with heavy
  · exact { inv with
      owned := (inv.owned.cons buffer).trans perm_middle.symm }
  rw [inv.isBudget] at heavy
  rcases inv.evict pos (not_lt.mp heavy) missing le_rfl with ⟨inv, fits, room, missing⟩
  generalize OffHeap.evict _ _ _ _ = s at *
  rw [LRUCache.add, missing]
  dsimp only
  rw [if_neg (by rw [inv.isCapacity]; omega)]
  refine { inv with
    slots := fun slot e isSlot => ?_
    owned := inv.owned.cons buffer
    bytes := ?_
    fits := le_max_of_le_left fits
    few := room }
  · rw [insert_ite] at isSlot
    split_ifs at isSlot with same
    · cases isSlot
      exact ⟨.head _, same.symm⟩
    · exact (inv.slots slot e isSlot).imp_left (.tail _)
  · change s.bytes + _ = ((_ + ((buffers s).map offHeapWeight).sum : Nat) : Int)
    rw [inv.bytes, Nat.cast_add, add_comm]

theorem Inv.step (call : Call) : Inv hash cap budget
    (call.taken budget ++ taken) (step hash s call) := by
  cases call with
  | add key buffer =>
    rw [OffHeapCache.step, Call.taken, inv.isBudget]
    split_ifs
    · exact (inv.remove key).1
    · exact inv.addBuffer pos buffer
  | addBuffer key buffer => exact inv.addBuffer pos buffer
  | decode key =>
    rw [OffHeapCache.step, OffHeap.decode]
    cases found : s.lru.find hash key with
    | none => exact inv
    | some e => exact inv.of_perm (perm_cons_erase (inv.of_find found).1)
  | remove key => exact (inv.remove key).1
  | clear => exact inv.clear.1

end

theorem inv_run (pos : 1 ≤ cap) (calls : List Call) :
    Inv hash cap budget (calls.flatMap (Call.taken budget))
    (calls.foldl (step hash) (newOffHeap cap budget)) := by
  induction calls using reverseRecOn with
  | nil => exact ⟨rfl, rfl, nofun, .refl _, rfl, le_max_right _ _, Nat.zero_le _⟩
  | append_singleton calls call ih =>
    have inv := ih.step pos call
    rw [foldl_append, flatMap_append, flatMap_singleton]
    exact { inv with owned := perm_append_comm.trans inv.owned }

/--
After any calls the bytes are those of the buffers handed over and not freed,
no buffer is freed twice or read after it was freed, and a clear frees all.
-/
theorem offHeap_frees_once (hash : DomainHash → UInt64) {capacity : Nat}
    (pos : 1 ≤ capacity) (byteBudget : Int) (calls : List Call)
    (distinct : (calls.flatMap (Call.taken byteBudget)).Nodup) :
    let taken := calls.flatMap (Call.taken byteBudget)
    let s := calls.foldl (step hash) (newOffHeap capacity byteBudget)
    s.bytes = ((taken.filter (· ∉ s.freed)).map offHeapWeight).sum ∧
      (0 ≤ byteBudget → s.bytes ≤ byteBudget) ∧ s.lru.nodes.length ≤ capacity ∧ s.freed.Nodup ∧
      s.freed ⊆ taken ∧ (∀ key buffer, (s.decode hash key).2 = some buffer → buffer ∈ taken ∧
      buffer ∉ s.freed) ∧ (s.clear hash).freed.Perm taken := by
  intro taken s
  have inv : Inv hash capacity byteBudget taken s := inv_run pos calls
  rcases nodup_append.mp (inv.owned.nodup distinct) with ⟨-, once, apart⟩
  have live : (taken.filter (· ∉ s.freed)).Perm (buffers s) := by
    refine (inv.owned.filter _).trans (.of_eq ?_)
    rw [filter_append, filter_eq_self.mpr, filter_eq_nil_iff.mpr, append_nil]
    · simp
    · intro buffer isIn
      exact decide_eq_true fun isFreed => apart buffer isIn buffer isFreed rfl
  refine ⟨?_, fun nonneg => inv.fits.trans (max_eq_left nonneg).le, inv.few,
    once, ?_, ?_, inv.clear.2.symm⟩
  · rw [inv.bytes]
    exact congrArg _ (live.map _).sum_eq.symm
  · exact fun buffer isIn => inv.owned.mem_iff.mpr (mem_append_right _ isIn)
  · intro key buffer found
    rw [OffHeap.decode] at found
    split at found
    · cases found
    · next e isFound =>
        cases found
        have isIn : e.buffer ∈ buffers s := mem_map_of_mem (inv.of_find isFound).1
        exact ⟨inv.owned.mem_iff.mpr (mem_append_left _ isIn),
          fun isFreed => apart _ isIn _ isFreed rfl⟩

/--
All keys collide in a cache of two: the second buffer of a key replaces the
first, the third evicts the oldest, and a clear frees what is left.
-/
theorem offHeap_frees_once_colliding :
    let calls : List Call := [.addBuffer (.filled 1) ⟨1, 5000⟩, .add (.filled 1) ⟨2, 10⟩,
      .addBuffer (.filled 2) ⟨3, 20⟩, .decode (.filled 2), .addBuffer (.filled 3) ⟨4, 30⟩]
    let s := calls.foldl (step fun _ => 0) (newOffHeap 2 12288)
    s.freed = [⟨2, 10⟩, ⟨1, 5000⟩] ∧ s.bytes = 8192 ∧ s.bytes ≤ 12288 ∧
      (s.decode (fun _ => 0) (.filled 3)).2 = some ⟨4, 30⟩ ∧
      (s.clear fun _ => 0).freed.Perm [⟨1, 5000⟩, ⟨2, 10⟩, ⟨3, 20⟩, ⟨4, 30⟩] := by
  intro calls s
  rcases offHeap_frees_once (fun _ => 0) (by decide : 1 ≤ 2) 12288 calls
    (by decide) with ⟨-, fits, -, -, -, -, cleared⟩
  exact ⟨by decide, by decide, fits (by decide), by decide, cleared⟩

end Htnd.Consensus.OffHeapCache
