import Toolpath.Detail.Level
import Toolpath.View.Camera

/-!
# The cache of simplified segments

Simplified segments depend on the filter and the level of detail alone, so each such list is built
once and shared by all buckets that ask for it. The table of buckets is bounded: when it is full, a
new bucket empties it, while the lists stay.
-/

namespace Toolpath

/-- Simplified segments by bucket, and by filter and level. -/
structure RenderCache where
  buckets : List (Bucket × List Segment) := []
  lists : List ((Filter × Level) × List Segment) := []
deriving DecidableEq

/-- The answer to one request: the segments, the cache afterwards, and whether they were built. -/
structure Lookup where
  segments : List Segment
  cache : RenderCache
  built : Bool

namespace RenderCache

def capacity : Nat := 64

def get? (cache : RenderCache) (bucket : Bucket) : Option (List Segment) :=
  cache.buckets.lookup bucket

/-- The cache with room for one more bucket: a full table is emptied. -/
def makeRoom (cache : RenderCache) : RenderCache :=
  if capacity ≤ cache.buckets.length then { cache with buckets := [] } else cache

/-- The list of a filter and a level, built if there is none yet. -/
def list (cache : RenderCache) (filter : Filter) (level : Level) (build : Unit → List Segment) :
    Lookup :=
  match cache.lists.lookup (filter, level) with
  | some segments => ⟨segments, cache, false⟩
  | none =>
    let segments := build ()
    ⟨segments, { cache with lists := ((filter, level), segments) :: cache.lists }, true⟩

def remember (cache : RenderCache) (bucket : Bucket) (segments : List Segment) : RenderCache :=
  { cache with buckets := (bucket, segments) :: cache.buckets }

/-- The segments of a bucket. A bucket that is not remembered takes the list of its filter and the
level, which is built if there is none yet. -/
def getOrBuild (cache : RenderCache) (bucket : Bucket) (level : Level)
    (build : Unit → List Segment) : Lookup :=
  match cache.get? bucket with
  | some segments => ⟨segments, cache, false⟩
  | none =>
    let found := cache.makeRoom.list bucket.filter level build
    { found with cache := found.cache.remember bucket found.segments }

end RenderCache

end Toolpath
