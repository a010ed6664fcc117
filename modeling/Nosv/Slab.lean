import Nosv.Backbone
import Nosv.Lib.SList
import Nosv.Teardown

/-!
# The slab allocator

Each bucket has the pages of one size of blocks. A page has a list of free
blocks, and so has every CPU that has taken the blocks of a page, and the
slow bucket, which is for callers without a CPU. A free block has the link
to the next one in its first word.

A CPU is one caller. A step is a section under the lock of a bucket or of
the backbone, one compare and exchange, one access of a CPU to its own
bucket, or one read or write of the metadata of a page. The slow bucket
has a lock of its own, which is taken and released by steps. In between,
the owners of blocks write to them as they like.

Blocks have their addresses, pages their numbers; the word at an address is
a pointer or `NULL`. What is live is kept along, with its size, and also
the bucket of every page.
-/

namespace Nosv

namespace Slab

open Teardown

/-! ## Data -/

/-- `clist_head_t`; an entry is the number of a page. -/
structure Clist where
  items : List Nat
  cnt : Nat

namespace Clist

variable (l : Clist)

def empty : Bool := l.cnt = 0

def add (page : Nat) : Clist := ⟨page :: l.items, l.cnt + 1⟩

def remove (page : Nat) : Clist := ⟨l.items.erase page, l.cnt - 1⟩

def popFront : Option Nat × Clist :=
  match l.items with
  | [] => (none, l)
  | page :: items => (some page, ⟨items, l.cnt - 1⟩)

end Clist

/-- `page_metadata_t`; the address follows from the number of the page. -/
structure PageMetadata where
  freelist : Option Nat
  inuseChunks : Nat

/-- `cpu_cache_bucket_t` -/
structure CpuBucket where
  slab : Option Nat
  freelist : Option Nat

/-- `cache_bucket_t`; its lock is free between steps. -/
structure CacheBucket where
  free : Clist
  partials : Clist
  slowBucket : CpuBucket
  slowBucketLock : Bool
  cpubuckets : Nat → CpuBucket

/-- Who calls: a CPU, or a thread without one -/
inductive Caller (ε : Type) where
  | cpu (cpu : Nat)
  | external (thread : ε)
  deriving DecidableEq

/-- Where a caller is. The size is that of the call. -/
inductive Pc where
  | idle
  /-- about to take the lock of the slow bucket -/
  | locking (bucket size : Nat)
  /-- `cpubucket_alloc`, before or after the refill -/
  | allocating (bucket size : Nat) (refilled : Bool)
  /-- `bucket_refill_cpu_cache` -/
  | refilling (bucket size : Nat)
  /-- A page has been taken from the list of free pages, or is new. -/
  | popped (bucket size page : Nat)
  /-- `balloc` -/
  | missing (bucket size : Nat)
  /-- `bucket_initialize_page` -/
  | fresh (bucket size page : Nat)
  /-- `cpubucket_setpage` -/
  | taken (bucket size page : Nat) (freelist : Option Nat)
  /-- about to return what has been allocated -/
  | done (bucket size : Nat) (obj : Option Nat)
  /-- at the top of the loop of `bucket_free` -/
  | freeing (bucket obj : Nat)
  | looked (bucket obj inuse : Nat)
  /-- The link has been written to the block. -/
  | linked (bucket obj inuse : Nat) (next : Option Nat)
  /-- `bfree` -/
  | returning (page : Nat)
  /-- `nosv_abort` -/
  | aborted
  deriving DecidableEq

structure State (ε : Type) where
  /-- `backbone_pages_start` -/
  pagesStart : Nat
  freePages : Clist
  metadata : Nat → PageMetadata
  buckets : Nat → CacheBucket
  /-- the words of the pages -/
  memory : Nat → Option Nat
  pcs : Caller ε → Pc
  /-- the blocks that have been returned and not been freed, with their size -/
  live : Nat → Option Nat
  /-- the bucket that a page is in -/
  owner : Nat → Option Nat

inductive Act where
  | salloc (size : Nat)
  | lock
  | alloc
  | refill
  | take
  | balloc
  | initializePage
  | setpage
  | ret
  | sfree (obj size : Nat)
  | look
  | link
  | exchange
  | bfree
  /-- The owner of a live block writes to it. -/
  | store (block offset : Nat) (word : Option Nat)
  deriving DecidableEq

/-! ## Pages -/

/-- `__SLAB_MAX_FREE_PAGES` -/
def maxFreePages : Nat := 16

/-- `obj_size` -/
def objSize (bucket : Nat) : Nat := 2 ^ (bucket + slabAllocMin)

/-- `bucket_objinpage` -/
def bucketObjinpage (bucket : Nat) : Nat := pageSize / objSize bucket

/-- The bucket of a size, as `salloc` and `sfree` compute it -/
def bucketOf (plat : Platform) (size : Nat) : Nat := plat.allocsize size - slabAllocMin

section Functions

variable {ε : Type} (s : State ε)

/-- The member `addr` of a page -/
def State.addr (page : Nat) : Nat := s.pagesStart + page * pageSize

/-- `page_metadata_from_block` -/
def State.pageOf (block : Nat) : Nat := (block - s.pagesStart) / pageSize

/-- `cpubucket_isinpage` -/
def State.isinpage (c : CpuBucket) (obj : Nat) : Bool :=
  match c.slab with
  | some page => s.addr page ≤ obj ∧ obj < s.addr page + pageSize
  | none => false

/-- The `cpubucket` that a caller uses -/
def CacheBucket.cpubucket (b : CacheBucket) : Caller ε → CpuBucket
  | .cpu c => b.cpubuckets c
  | .external _ => b.slowBucket

def CacheBucket.setCpubucket (b : CacheBucket) (c : CpuBucket) : Caller ε → CacheBucket
  | .cpu i => { b with cpubuckets := Function.update b.cpubuckets i c }
  | .external _ => { b with slowBucket := c }

/-- The loop of `bucket_initialize_page`, from the address of a block on,
with `n` blocks to go -/
def initializeLoop (stride : Nat) : (Nat → Option Nat) → Nat → Nat → Nat → Option Nat
  | memory, _, 0 => memory
  | memory, base, n + 1 =>
      initializeLoop stride (Function.update memory base (some (base + stride))) (base + stride) n

/-- `bucket_initialize_page`; the last block has no link. -/
def bucketInitializePage (memory : Nat → Option Nat) (bucket base : Nat) : Nat → Option Nat :=
  Function.update (initializeLoop (objSize bucket) memory base (bucketObjinpage bucket))
    (base + (bucketObjinpage bucket - 1) * objSize bucket) none

variable [DecidableEq ε]

def State.goto (a : Caller ε) (pc : Pc) : State ε := { s with pcs := Function.update s.pcs a pc }

def State.setBucket (bucket : Nat) (b : CacheBucket) : State ε :=
  { s with buckets := Function.update s.buckets bucket b }

def State.setCpubucket (a : Caller ε) (bucket : Nat) (c : CpuBucket) : State ε :=
  s.setBucket bucket ((s.buckets bucket).setCpubucket c a)

def State.setPage (page : Nat) (m : PageMetadata) : State ε :=
  { s with metadata := Function.update s.metadata page m }

def State.write (address : Nat) (word : Option Nat) : State ε :=
  { s with memory := Function.update s.memory address word }

/-- The caller takes all free blocks of a page. -/
def State.takePage (a : Caller ε) (bucket size page : Nat) : State ε :=
  (s.setPage page ⟨none, bucketObjinpage bucket⟩).goto a (.taken bucket size page (s.metadata page).freelist)

/-- The section of `bucket_refill_cpu_cache` under the lock of the bucket -/
def State.refill (a : Caller ε) (bucket size : Nat) : State ε :=
  let b := s.buckets bucket
  if b.partials.empty = false then
    match b.partials.popFront with
    | (some page, partials) => (s.setBucket bucket { b with partials := partials }).takePage a bucket size page
    | (none, _) => s.goto a .aborted
  else if b.free.empty = false then
    match b.free.popFront with
    | (some page, free) => (s.setBucket bucket { b with free := free }).goto a (.popped bucket size page)
    | (none, _) => s.goto a .aborted
  else s.goto a (.missing bucket size)

/-- What `bucket_free` does after the exchange, where it has the lock of the
bucket: the page has been full, or is empty now. -/
def State.freed (a : Caller ε) (bucket inuse page : Nat) : State ε :=
  let b := s.buckets bucket
  if inuse = 1 then
    let partials := b.partials.remove page
    if maxFreePages ≤ b.free.cnt then
      { s.setBucket bucket { b with partials := partials } with
        owner := Function.update s.owner page none }.goto a (.returning page)
    else (s.setBucket bucket { b with partials := partials, free := b.free.add page }).goto a .idle
  else if inuse = bucketObjinpage bucket then
    (s.setBucket bucket { b with partials := b.partials.add page }).goto a .idle
  else s.goto a .idle

end Functions

/-! ## Steps -/

section Model

variable {ε : Type} [DecidableEq ε] (plat : Platform)

/-- `slab_init` over the pages of the backbone -/
def init (pagesStart : Nat) (pages : List Nat) (metadata : Nat → PageMetadata) (memory : Nat → Option Nat) :
    State ε where
  pagesStart := pagesStart
  freePages := ⟨pages, pages.length⟩
  metadata := metadata
  buckets := fun _ => ⟨⟨[], 0⟩, ⟨[], 0⟩, ⟨none, none⟩, false, fun _ => ⟨none, none⟩⟩
  memory := memory
  pcs := fun _ => .idle
  live := fun _ => none
  owner := fun _ => none

def stepAt (s : State ε) (a : Caller ε) : Pc → Act → Option (State ε)
  | .idle, .salloc size =>
      if plat.Fits size then
        match a with
        | .cpu _ => some (s.goto a (.allocating (bucketOf plat size) size false))
        | .external _ => some (s.goto a (.locking (bucketOf plat size) size))
      else some s
  | .locking bucket size, .lock =>
      let b := s.buckets bucket
      if b.slowBucketLock = true then none
      else some ((s.setBucket bucket { b with slowBucketLock := true }).goto a (.allocating bucket size false))
  | .allocating bucket size refilled, .alloc =>
      let c := (s.buckets bucket).cpubucket a
      match c.freelist with
      | some obj =>
          some ((s.setCpubucket a bucket { c with freelist := s.memory obj }).goto a (.done bucket size (some obj)))
      | none => some (s.goto a (if refilled = true then .done bucket size none else .refilling bucket size))
  | .refilling bucket size, .refill => some (s.refill a bucket size)
  | .popped bucket size page, .take => some (s.takePage a bucket size page)
  | .missing bucket size, .balloc =>
      match s.freePages.popFront with
      | (some page, freePages) => some ({ s with freePages := freePages }.goto a (.fresh bucket size page))
      | (none, _) => some (s.goto a .aborted)
  | .fresh bucket size page, .initializePage =>
      some ({ s.setPage page ⟨some (s.addr page), 0⟩ with
        memory := bucketInitializePage s.memory bucket (s.addr page)
        owner := Function.update s.owner page (some bucket) }.goto a (.popped bucket size page))
  | .taken bucket size page freelist, .setpage =>
      some ((s.setCpubucket a bucket ⟨some page, freelist⟩).goto a (.allocating bucket size true))
  | .done bucket size obj, .ret =>
      let s := match obj with
        | some obj => { s with live := Function.update s.live obj (some size) }
        | none => s
      match a with
      | .cpu _ => some (s.goto a .idle)
      | .external _ => some ((s.setBucket bucket { s.buckets bucket with slowBucketLock := false }).goto a .idle)
  | .idle, .sfree obj size =>
      let bucket := bucketOf plat size
      let c := (s.buckets bucket).cpubucket a
      let s := { s with live := Function.update s.live obj none }
      match a with
      | .cpu _ =>
          match s.isinpage c obj with
          | true => some ((s.write obj c.freelist).setCpubucket a bucket { c with freelist := some obj })
          | false => some (s.goto a (.freeing bucket obj))
      | .external _ => some (s.goto a (.freeing bucket obj))
  | .freeing bucket obj, .look => some (s.goto a (.looked bucket obj (s.metadata (s.pageOf obj)).inuseChunks))
  | .looked bucket obj inuse, .link =>
      let next := (s.metadata (s.pageOf obj)).freelist
      some ((s.write obj next).goto a (.linked bucket obj inuse next))
  | .linked bucket obj inuse next, .exchange =>
      let page := s.pageOf obj
      let m := s.metadata page
      if m.freelist = next ∧ m.inuseChunks = inuse then
        some ((s.setPage page ⟨some obj, inuse - 1⟩).freed a bucket inuse page)
      else some (s.goto a (.freeing bucket obj))
  | .returning page, .bfree => some ({ s with freePages := s.freePages.add page }.goto a .idle)
  | _, _ => none

def step (s : State ε) : Caller ε × Act → Option (State ε)
  | (_, .store block offset word) => some (s.write (block + offset) word)
  | (a, act) => stepAt plat s a (s.pcs a) act

/-- What the users promise: sizes that a block can have, frees of live
blocks with their size, and writes to live blocks only. -/
def Promised (s : State ε) : Caller ε × Act → Prop
  | (_, .salloc size) => 2 ≤ size ∧ size < 18446744073709551616
  | (_, .sfree obj size) => s.live obj = some size
  | (_, .store block offset _) => ∃ size ∈ s.live block, offset < objSize (bucketOf plat size)
  | (_, .lock) | (_, .alloc) | (_, .refill) | (_, .take) | (_, .balloc) | (_, .initializePage) | (_, .setpage)
  | (_, .ret) | (_, .look) | (_, .link) | (_, .exchange) | (_, .bfree) => True

instance (s : State ε) : (m : Caller ε × Act) → Decidable (Promised plat s m)
  | (_, .salloc _) => inferInstanceAs (Decidable (_ ∧ _))
  | (_, .sfree _ _) => inferInstanceAs (Decidable (_ = _))
  | (_, .store block _ _) => inferInstanceAs (Decidable (∃ size ∈ s.live block, _))
  | (_, .lock) | (_, .alloc) | (_, .refill) | (_, .take) | (_, .balloc) | (_, .initializePage) | (_, .setpage)
  | (_, .ret) | (_, .look) | (_, .link) | (_, .exchange) | (_, .bfree) => inferInstanceAs (Decidable True)

end Model

end Slab

end Nosv
