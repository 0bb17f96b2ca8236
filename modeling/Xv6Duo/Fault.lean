/-!
# Kernel faults

A modelled kernel function either returns or ends in a fault: a `panic` of the source, named after
its message, or a loop or a sleep that does not end.
-/

namespace Xv6Duo

/-- The ways in which a modelled kernel function fails to return. -/
inductive Fault
  /-- `buddy_pull_block`: no free block is large enough. -/
  | outOfMemory
  /-- `buddy_alloc`: the request exceeds the largest block. -/
  | noMemory
  /-- `buddy_free`: the free buddy is not on its list. -/
  | brokenPage
  /-- `slab_cache_free`: a slab without free objects is not on the list of full slabs. -/
  | brokenSlab
  /-- `acquire` of a lock that this CPU holds. -/
  | acquire
  /-- `release` of a lock that this CPU does not hold. -/
  | release
  /-- `kmalloc` of more than a page holds. -/
  | tooBigRequest
  /-- `walk` of an address that is not a user address. -/
  | walk
  /-- `mappages` of no byte. -/
  | mappagesSize
  /-- `mappages` of a page that is mapped. -/
  | mappagesRemap
  /-- `uvmunmap` from an address inside a page. -/
  | uvmunmapNotAligned
  /-- `uvmunmap` of an entry without flags. -/
  | uvmunmapNotALeaf
  /-- `munmap` of a page without an entry, in a region that is written back. -/
  | munmapNoPte
  /-- `bget`: every buffer is busy or dirty. -/
  | noBuffers
  /-- `bwrite` of a buffer that is not busy. -/
  | bwrite
  /-- `brelse` of a buffer that is not busy. -/
  | brelse
  /-- `bfree` of a block that is marked free. -/
  | freeingFreeBlock
  /-- `bmap` of a block number past the largest file. -/
  | bmapOutOfRange
  /-- `ilock` of an inode without references. -/
  | ilock
  /-- `ilock` of a free inode. -/
  | ilockNoType
  /-- `iunlock` of an inode that the process has not locked. -/
  | iunlock
  /-- `iget`: every entry of the inode table is in use. -/
  | igetNoInodes
  /-- `stati` of an inode of an unknown type. -/
  | unexpectedStatType
  /-- `dirlookup` in an inode that is not a directory. -/
  | dirlookupNotDir
  /-- `dirlookup` of a directory that cannot be read. -/
  | dirlookupRead
  /-- `dirlink` in a directory that cannot be read. -/
  | dirlinkRead
  /-- `direntlookup` in an inode that is not a directory. -/
  | direntlookupNotDir
  /-- `direntlookup` of a directory that cannot be read. -/
  | direntlookupRead
  /-- `isdirempty` of a directory that cannot be read. -/
  | isdiremptyRead
  /-- `filedup` of a file without references. -/
  | filedup
  /-- `fileclose` of a file without references. -/
  | fileclose
  /-- `fileread` of a file without a type. -/
  | fileread
  /-- `filewrite` of a file without a type. -/
  | filewrite
  /-- `exit` of the first process. -/
  | initExiting
  /-- `loadseg` of a segment whose pages are not mapped. -/
  | loadseg
  /-- An access through a null pointer or through an error code taken for a pointer. -/
  | badPointer
  /-- A sleep on a buffer that the sleeping call itself keeps busy. -/
  | sleeps
  /-- A loop of the source runs forever. -/
  | loops
  deriving DecidableEq, Repr

end Xv6Duo
